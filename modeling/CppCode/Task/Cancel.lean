import CppCode.Task.Lifecycle
import CppCode.Task.OtaTask

/-!
# CppCode.Task.Cancel

**Cancelling an `OtaTask`.** The command that `cancel()` sends can be received in two
places, and the race in `wait_for_input_parameters()` may drop it. `OtaTask` does not
depend on it: it looks at the status at its loop head, and the status stays
`CANCELLED`. The command only has to wake the coroutine up.

The invariant `Pending` says just that: while the status is `CANCELLED`, or about to
be, either a `CANCEL` is still in the control channel, or the coroutine is past its
last receive and on the way to its loop head. It follows that a cancelled coroutine
is never blocked, and that it returns `CANCELLED` the next time it gets to its loop
head (`cancel_never_lost`).
-/

namespace CppCode.Task

open Concurrency

variable {T Loc : Type} {B : Body T Loc} {s s' : State T Loc}

/-- No member function of the subclass calls `set_status`. -/
def NoSetStatus : Guard (State T Loc) (Action T) := fun _ a => ∀ status, a ≠ .setStatus status

instance [DecidableEq T] (s : State T Loc) (a : Action T) : Decidable (NoSetStatus s a) :=
  match a with
  | .setStatus status => .isFalse fun h => h status rfl
  | .run | .post | .postThrows | .pause | .cancel | .send | .store | .resume | .resumeSend _
  | .sendInputParameters _ | .getCurrentStatus | .complete | .coro _ => .isTrue nofun

/-! ### The status of a cancelled task -/

/-- Some call of `cancel()` has returned true. -/
def State.cancelSucceeded (s : State T Loc) : Prop := .returned .cancel true ∈ s.history

/-- `CancelKept`, over the components of a state; `done` says that some `cancel()` has
returned true. -/
structure CancelKeptAt (status : TaskStatus) (lock : Option Critical) (coro : Coro Loc)
    (done : Prop) : Prop where
  /-- Without `set_status`, only a finished coroutine makes a task complete or fail. -/
  settled : status = .completed ∨ status = .failed → coro.active = false
  /-- `cancel()` fails as long as `run()` has not posted the coroutine. -/
  early : status = .initial ∨ lock = some .post → ¬ done
  kept : done → coro.active = true → status = .cancelled

/-- A `cancel()` that has returned true has cancelled a coroutine that still runs. -/
abbrev CancelKept (s : State T Loc) : Prop :=
  CancelKeptAt s.currentStatus s.lock s.coro s.cancelSucceeded

/-- An event that is not a successful `cancel()` adds none. -/
theorem cancelSucceeded_log {history : List (Event T)} {e : Event T}
    (h : .returned .cancel true ∈ history ++ [e]) (he : e ≠ .returned .cancel true) :
    .returned .cancel true ∈ history := by
  rcases List.mem_append.mp h with h | h
  · exact h
  · exact absurd (List.mem_singleton.mp h).symm he

section Components

variable {status status' : TaskStatus} {lock lock' : Option Critical} {coro : Coro Loc}
  {done done' : Prop}

/-- A step that keeps the status and the coroutine, and completes no `cancel()`. -/
theorem CancelKeptAt.mono (h : CancelKeptAt status lock coro done) (hd : done' → done)
    (hl : lock' = some .post → lock = some .post) : CancelKeptAt status lock' coro done' where
  settled := h.settled
  early := fun hs hdone => h.early (hs.imp id hl) (hd hdone)
  kept := fun hdone ha => h.kept (hd hdone) ha

/-- A step that moves a running coroutine. -/
theorem CancelKeptAt.coroMoved (h : CancelKeptAt status lock coro done) {coro' : Coro Loc}
    (ha : coro.active = true) (hs : status' = status ∨ status' = (setStatus status .running).2)
    (hd : done' → done) : CancelKeptAt status' lock coro' done' := by
  have hsettled : ¬ (status = .completed ∨ status = .failed) := fun hs => by
    rw [h.settled hs] at ha
    cases ha
  -- `set_status(RUNNING)` leads to no other status than `RUNNING`
  have htable : status' = status ∨ status' = .running := by
    rcases hs with hs | hs
    · exact .inl hs
    · rw [hs]
      cases status <;> decide
  refine ⟨fun hs' => ?_, fun hs' hdone => ?_, fun hdone _ => ?_⟩
  · rcases htable with he | he
    · exact absurd (he ▸ hs') hsettled
    · rw [he] at hs'
      rcases hs' with hs' | hs' <;> cases hs'
  · have hkept := h.kept (hd hdone) ha
    rcases hs' with hs' | hs'
    · rcases htable with he | he
      · rw [← he, hs'] at hkept
        cases hkept
      · rw [he] at hs'
        cases hs'
    · exact h.early (.inr hs') (hd hdone)
  · have hkept := h.kept (hd hdone) ha
    rcases hs with hs | hs
    · rw [hs, hkept]
    · rw [hs, hkept]
      rfl

end Components

/-- Without calls of `set_status` of its own, the coroutine changes the status only
in `async_wait_for_resume()`. -/
theorem CoroMoved.status_running {choice : Choice} (hm : CoroMoved B s choice s')
    (hB : ∀ l status, B.op l ≠ .setStatus status) :
    s'.currentStatus = s.currentStatus ∨
      s'.currentStatus = (Task.setStatus s.currentStatus .running).2 := by
  cases hm with
  | setStatus hc ho => exact absurd ho (hB _ _)
  | setRunning => exact .inr rfl
  | _ => exact .inl rfl

theorem CoroMoved.cancelSucceeded {choice : Choice} (hm : CoroMoved B s choice s')
    (h : s'.cancelSucceeded) : s.cancelSucceeded := by
  cases hm with
  | inputWins => exact cancelSucceeded_log h nofun
  | _ => exact h

theorem Moved.cancelKept {a : Action T} (hm : Moved B s a s')
    (hB : ∀ l status, B.op l ≠ .setStatus status) (hg : NoSetStatus s a) (hlife : Lifecycle s)
    (h : CancelKept s) : CancelKept s' := by
  cases hm with
  | resumeStarts | completed => exact h
  | runRefused | pauseRefused | cancelRefused | resumed | resumeFailed | inputSent | inputRefused
  | polled => exact h.mono (fun hd => cancelSucceeded_log hd nofun) id
  | pauseStarts | cancelStarts | sent => exact h.mono id nofun
  | postThrew => exact h.mono (fun hd => cancelSucceeded_log hd nofun) nofun
  | sendFailed => exact h.mono (fun hd => cancelSucceeded_log hd (by simp)) nofun
  | runStarts hl hs =>
      refine ⟨nofun, fun _ => h.early (.inl hs), fun _ ha => ?_⟩
      rw [show s.coro = .notSpawned from hlife.initial hs] at ha
      cases ha
  | posted hl =>
      have hrun := (hlife.post hl).1
      have hearly := h.early (.inr hl)
      refine ⟨fun hs => ?_, fun hs hd => ?_, fun hd _ => ?_⟩
      · rcases hs with hs | hs <;> exact absurd (hrun.symm.trans hs) nofun
      · exact hearly (cancelSucceeded_log hd nofun)
      · exact absurd (cancelSucceeded_log hd nofun) hearly
  | cancelDone hl hs =>
      have hactive := h.settled hs
      refine ⟨h.settled, fun hs' => ?_, fun _ ha => ?_⟩
      · rcases hs' with hs' | hs'
        · rcases hs with hs | hs <;> exact absurd (hs.symm.trans hs') nofun
        · exact absurd (hl.symm.trans hs') nofun
      · rw [show s.coro.active = true from ha] at hactive
        cases hactive
  | stored hl =>
      rename_i r
      have hadmits := hlife.request r (.inr hl)
      cases r with
      | cancel => exact ⟨nofun, nofun, fun _ _ => rfl⟩
      | pause =>
          refine ⟨nofun, nofun, ?_⟩
          intro hd ha
          -- `pause()` would not have got this far on a cancelled task
          have hkept := h.kept (cancelSucceeded_log hd nofun) ha
          rw [hkept] at hadmits
          cases hadmits
  | consumed hl hn hr =>
      have hc := hlife.ready _ hr
      have hactive : s.coro.active = false := by rw [hc]; rfl
      refine ⟨fun _ => hactive, fun hs => ?_, fun _ ha => ?_⟩
      rcases hs with hs | hs
      · exact absurd hs (statusOf_ne_initial _)
      · exact absurd (hl.symm.trans hs) nofun
      · rw [show s.coro.active = true from ha] at hactive
        cases hactive
  | setStatus status hl => exact absurd rfl (hg status)
  | coro hm =>
      have hf := hm.frame
      have h' : CancelKeptAt s'.currentStatus s.lock s'.coro s'.cancelSucceeded :=
        h.coroMoved hf.active (hm.status_running hB) hm.cancelSucceeded
      rwa [← hf.lock] at h'

theorem reachable_cancelKept (hB : ∀ l status, B.op l ≠ .setStatus status)
    (h : (machine B).Reachable NoSetStatus s) : CancelKept s := by
  refine h.invariant ⟨fun hs => ?_, fun _ => List.not_mem_nil, fun hd => ?_⟩ ?_
  · rcases hs with hs | hs <;> cases hs
  · exact absurd hd List.not_mem_nil
  · intro s a s' hr hi hg hs
    exact (step_moved hs).cancelKept hB hg (reachable_lifecycle hr) hi

/-! ### The coroutine of a cancelled `OtaTask` -/

/-- Past its last receive, and on the way to the loop head or out of the loop. -/
def Coro.headsHome : Coro OtaLoc → Bool
  | .body .loopHead | .body .whenCancel | .body (.finish _) => true
  | _ => false

/-- The coroutine waits where `OtaTask` calls the waiting functions. -/
def Coro.located : Coro OtaLoc → Prop
  | .waitResume l _ => l = .waitResume
  | .waitInput l _ => l = .waitInput
  | _ => True

/-- `Pending`, over the components of a state. -/
structure PendingAt (status : TaskStatus) (lock : Option Critical)
    (control : Channel 1 TaskCommand) (coro : Coro OtaLoc) : Prop where
  located : coro.located
  wake : status = .cancelled ∨ lock = some (.store .cancel) → coro.active = true →
    .cancel ∈ control.contents ∨ coro.headsHome = true

/-- While the task is cancelled, or about to be, its coroutine has a `CANCEL` to wake
it up or needs none any more. -/
abbrev Pending (s : State OtaState OtaLoc) : Prop :=
  PendingAt s.currentStatus s.lock s.controlChannel s.coro

section Components

variable {status status' : TaskStatus} {lock lock' : Option Critical}
  {control control' : Channel 1 TaskCommand} {coro coro' : Coro OtaLoc}

/-- The coroutine goes home. -/
theorem PendingAt.home (hl : coro.located) (hh : coro.headsHome = true) :
    PendingAt status lock control coro :=
  ⟨hl, fun _ _ => .inr hh⟩

/-- The controllers move: nothing is cancelled anew and no command disappears. -/
theorem PendingAt.controllers (h : PendingAt status lock control coro)
    (hc : status' = .cancelled ∨ lock' = some (.store .cancel) →
      status = .cancelled ∨ lock = some (.store .cancel))
    (hk : ∀ command ∈ control.contents, command ∈ control'.contents) :
    PendingAt status' lock' control' coro :=
  ⟨h.located, fun hs ha => (h.wake (hc hs) ha).imp (hk _) id⟩

/-- The coroutine moves on, away from home, and leaves `CANCEL` in the channel. -/
theorem PendingAt.onward (h : PendingAt status lock control coro) (hl : coro'.located)
    (ha : coro.active = true) (hh : coro.headsHome = false)
    (hk : TaskCommand.cancel ∈ control.contents → TaskCommand.cancel ∈ control'.contents) :
    PendingAt status lock control' coro' := by
  refine ⟨hl, fun hs _ => .inl ?_⟩
  rcases h.wake hs ha with hmem | hhome
  · exact hk hmem
  · rw [hh] at hhome
    cases hhome

end Components

section OtaTask

variable {s s' : State OtaState OtaLoc}

theorem PendingAt.waitResume_eq {l : OtaLoc} {pc : ResumePc} (h : Pending s)
    (hc : s.coro = .waitResume l pc) : l = .waitResume := by
  have hl := h.located
  rw [hc] at hl
  exact hl

theorem PendingAt.waitInput_eq {l : OtaLoc} {pc : InputPc} (h : Pending s)
    (hc : s.coro = .waitInput l pc) : l = .waitInput := by
  have hl := h.located
  rw [hc] at hl
  exact hl

theorem mem_contents_of_take {command : TaskCommand} {c c' : Channel 1 TaskCommand}
    (hr : c.take = some (command, c')) (hne : command ≠ .cancel)
    (hmem : TaskCommand.cancel ∈ c.contents) : TaskCommand.cancel ∈ c'.contents := by
  rw [Channel.contents_take hr, List.mem_cons] at hmem
  exact hmem.resolve_left (Ne.symm hne)

theorem afterInput_headsHome (value : OtaState) :
    Coro.headsHome (.body (OtaLoc.afterInput value)) = true := by
  cases value <;> rfl

theorem CoroMoved.pending {choice : Choice} (hm : CoroMoved otaTask s choice s')
    (h : Pending s) : Pending s' := by
  cases hm with
  | isStatus hc ho hl =>
      rename_i l status
      cases l <;> cases ho
      by_cases hs : s.currentStatus = .cancelled
      · refine PendingAt.home trivial ?_
        simp [answer, otaTask, OtaLoc.next, hs, Coro.headsHome]
      · refine ⟨trivial, fun hc' => ?_⟩
        rcases hc' with hc' | hc'
        · exact absurd hc' hs
        · exact absurd (hl.symm.trans hc') nofun
  | setStatus hc ho => exact absurd ho (otaTask_never_sets_status _ _)
  | whenCancel hc ho hm =>
      rename_i l b
      cases l <;> cases ho
      cases hm
      exact PendingAt.home trivial rfl
  | asyncSleep hc ho | throw hc ho =>
      rename_i l
      cases l <;> cases ho
  | external hc ho =>
      rename_i l n
      cases l <;> cases ho
  | enterResume hc ho =>
      rename_i l
      cases l <;> cases ho
      exact h.onward rfl (by rw [hc]; rfl) (by rw [hc]; rfl) id
  | enterInput hc ho =>
      rename_i l
      cases l <;> cases ho
      exact h.onward rfl (by rw [hc]; rfl) (by rw [hc]; rfl) id
  | coReturn => exact ⟨trivial, fun _ ha => nomatch ha⟩
  | paused hc | whenPause hc | whenResume hc =>
      obtain rfl := h.waitResume_eq hc
      exact h.onward rfl (by rw [hc]; rfl) (by rw [hc]; rfl) id
  | notPaused hc =>
      obtain rfl := h.waitResume_eq hc
      exact h.onward trivial (by rw [hc]; rfl) (by rw [hc]; rfl) id
  | whenPauseFails hc hm | whenResumeFails hc hm => cases hm
  | startReceive hc hr =>
      obtain rfl := h.waitResume_eq hc
      refine h.onward rfl (by rw [hc]; rfl) (by rw [hc]; rfl) ?_
      intro hmem
      rw [Channel.contents_startReceive hr]
      exact hmem
  | tookResume hc hr | tookPause hc hr =>
      obtain rfl := h.waitResume_eq hc
      exact h.onward rfl (by rw [hc]; rfl) (by rw [hc]; rfl) (mem_contents_of_take hr nofun)
  | tookCancel hc hr =>
      obtain rfl := h.waitResume_eq hc
      exact PendingAt.home trivial rfl
  | setRunning hc hl =>
      -- `set_status` refuses to leave `CANCELLED`, so the wait answers false
      obtain rfl := h.waitResume_eq hc
      by_cases hs : s.currentStatus = .cancelled
      · refine PendingAt.home trivial ?_
        simp [answer, otaTask, OtaLoc.next, hs, Task.setStatus, Coro.headsHome]
      · refine ⟨trivial, fun hc' => ?_⟩
        rcases hc' with hc' | hc'
        · refine absurd hc' ?_
          show (Task.setStatus s.currentStatus .running).2 ≠ .cancelled
          revert hs
          cases s.currentStatus <;> decide
        · exact absurd (hl.symm.trans hc') nofun
  | startInput hc hr =>
      obtain rfl := h.waitInput_eq hc
      exact h.onward rfl (by rw [hc]; rfl) (by rw [hc]; rfl) id
  | startControl hc hr =>
      obtain rfl := h.waitInput_eq hc
      refine h.onward rfl (by rw [hc]; rfl) (by rw [hc]; rfl) ?_
      intro hmem
      rw [Channel.contents_startReceive hr]
      exact hmem
  | inputWins hc hr =>
      -- a `CANCEL` that the race drops here is not needed any more
      obtain rfl := h.waitInput_eq hc
      exact PendingAt.home trivial (afterInput_headsHome _)
  | controlWins hc hr =>
      obtain rfl := h.waitInput_eq hc
      exact PendingAt.home trivial rfl

theorem Moved.pending {a : Action OtaState} (hm : Moved otaTask s a s') (hg : NoSetStatus s a)
    (hlife : Lifecycle s) (h : Pending s) : Pending s' := by
  cases hm with
  | runRefused | pauseRefused | cancelDone | cancelRefused | resumeStarts | resumeFailed | inputSent
  | inputRefused | polled | completed => exact h
  | runStarts hl hs =>
      refine ⟨h.located, ?_⟩
      intro hc
      rcases hc with hc | hc <;> cases hc
  | posted hl => exact PendingAt.home trivial rfl
  | postThrew | sendFailed | pauseStarts | cancelStarts =>
      exact h.controllers (fun hc => hc.imp id (fun hl => nomatch hl)) fun _ hmem => hmem
  | sent hl hc =>
      rename_i r c
      cases r with
      | pause =>
          exact h.controllers (fun hs => hs.imp id (fun hl => nomatch hl))
            fun _ => Channel.mem_contents_trySend hc
      | cancel =>
          -- from here on the coroutine has this `CANCEL` ahead of it
          refine ⟨h.located, fun _ _ => .inl ?_⟩
          rw [Channel.contents_trySend hc]
          exact List.mem_concat_self
  | stored hl =>
      rename_i r
      cases r with
      | pause =>
          refine h.controllers ?_ fun _ hmem => hmem
          intro hc
          rcases hc with hc | hc <;> cases hc
      | cancel => exact h.controllers (fun _ => .inr hl) fun _ hmem => hmem
  | resumed hi hc => exact h.controllers id fun _ => Channel.mem_contents_trySend hc
  | consumed hl hn hr =>
      refine ⟨h.located, fun _ ha => ?_⟩
      rw [show s.coro = _ from hlife.ready _ hr] at ha
      cases ha
  | setStatus status => exact absurd rfl (hg status)
  | coro hm => exact hm.pending h

theorem reachable_pending (h : (machine otaTask).Reachable NoSetStatus s) : Pending s := by
  refine h.invariant ⟨trivial, fun _ ha => nomatch ha⟩ ?_
  intro s a s' hr hi hg hs
  exact (step_moved hs).pending hg (reachable_lifecycle hr) hi

/-! ### No cancelled coroutine is blocked -/

/-- The coroutine waits for a message, and its channels have none for it. -/
def State.blocked (s : State T Loc) : Bool :=
  match s.coro with
  | .waitResume _ .receiving => s.controlChannel.contents.isEmpty
  | .waitInput _ .racing => s.inputChannel.contents.isEmpty && s.controlChannel.contents.isEmpty
  | _ => false

theorem not_blocked (hp : Pending s) (hs : s.currentStatus = .cancelled)
    (ha : s.coro.active = true) : s.blocked = false := by
  have hwake := hp.wake (.inl hs) ha
  cases hc : s.coro with
  | notSpawned | body | finished => simp [State.blocked, hc]
  | waitResume l pc =>
      rw [hc] at hwake
      cases pc with
      | receiving =>
          have hmem := hwake.resolve_right nofun
          simp [State.blocked, hc, List.ne_nil_of_mem hmem]
      | _ => simp [State.blocked, hc]
  | waitInput l pc =>
      rw [hc] at hwake
      cases pc with
      | racing =>
          have hmem := hwake.resolve_right nofun
          simp [State.blocked, hc, List.ne_nil_of_mem hmem]
      | _ => simp [State.blocked, hc]

/-- A receive that is open and has a message can complete. -/
theorem exists_take {c : Channel 1 TaskCommand} (hl : c.Listening true)
    (hmem : TaskCommand.cancel ∈ c.contents) : ∃ command c', c.take = some (command, c') := by
  cases hr : c.receiver with
  | idle => exact absurd (hl.idle.mp hr) nofun
  | waiting => rw [Channel.contents_of_waiting hr] at hmem; exact absurd hmem List.not_mem_nil
  | got command => exact ⟨command, c.cancelReceive, by simp [Channel.take, hr, Channel.cancelReceive]⟩

/-- With the mutex free, the coroutine of a cancelled task has a step to take. -/
theorem coro_enabled (hr : Receivers s) (hp : Pending s) (hs : s.currentStatus = .cancelled)
    (ha : s.coro.active = true) (hl : s.lock = none) :
    ∃ choice s', (machine otaTask).step s (.coro choice) = some s' := by
  have hwake := hp.wake (.inl hs) ha
  obtain ⟨hin, hctl⟩ := hr
  show ∃ choice s', coroStep otaTask s choice = some s'
  unfold coroStep
  cases hc : s.coro with
  | notSpawned | finished => rw [hc] at ha; cases ha
  | body l =>
      cases l with
      | whenCancel => exact ⟨.hook true, _, rfl⟩
      | loopHead => exact ⟨.go, _, if_pos hl⟩
      | waitResume | waitInput | finish => exact ⟨.go, _, rfl⟩
  | waitResume l pc =>
      rw [hc] at hwake hctl
      cases pc with
      | checkPaused => exact ⟨.go, by simp [waitResumeStep, hl, hs]⟩
      | whenPause | whenResume => exact ⟨.hook true, _, rfl⟩
      | startReceive =>
          obtain ⟨c, hstart⟩ := Channel.startReceive_isSome hctl.isOpen (hctl.idle.mpr rfl)
          exact ⟨.go, by simp [waitResumeStep, hstart]⟩
      | receiving =>
          obtain ⟨command, c, htake⟩ := exists_take hctl (hwake.resolve_right nofun)
          refine ⟨.go, ?_⟩
          cases command <;> simp [waitResumeStep, htake]
      | setRunning => exact ⟨.go, by simp [waitResumeStep, hl]⟩
  | waitInput l pc =>
      rw [hc] at hwake hctl hin
      cases pc with
      | startInput =>
          obtain ⟨c, hstart⟩ := Channel.startReceive_isSome hin.isOpen (hin.idle.mpr rfl)
          exact ⟨.go, by simp [waitInputStep, hstart]⟩
      | startControl =>
          obtain ⟨c, hstart⟩ := Channel.startReceive_isSome hctl.isOpen (hctl.idle.mpr rfl)
          exact ⟨.go, by simp [waitInputStep, hstart]⟩
      | racing =>
          obtain ⟨command, c, htake⟩ := exists_take hctl (hwake.resolve_right nofun)
          exact ⟨.controlWins, by simp [waitInputStep, htake]⟩

/-- Whoever holds the mutex in `pause()` or `cancel()` can go on, whatever the
coroutine does. -/
theorem holder_enabled {critical : Critical} (hl : s.lock = some critical) :
    ∃ a s', (∀ choice, a ≠ .coro choice) ∧ (machine otaTask).step s a = some s' := by
  cases critical with
  | post => exact ⟨.post, _, by simp, by simp only [machine, step, hl]; rfl⟩
  | send r => exact ⟨.send, send s r, by simp, by simp only [machine, step, hl]⟩
  | store r => exact ⟨.store, store s r, by simp, by simp only [machine, step, hl]⟩

/-! ### From the loop head -/

/-- How many steps of its own a coroutine that returns `CANCELLED` has left. -/
def Coro.toCancelled : Coro OtaLoc → Option Nat
  | .body .loopHead => some 3
  | .body .whenCancel => some 2
  | .body (.finish .cancelled) => some 1
  | .finished (some .cancelled) => some 0
  | _ => none

/-- A step of such a coroutine is one step less. -/
theorem CoroMoved.toCancelled {choice : Choice} (hm : CoroMoved otaTask s choice s')
    (hs : s.currentStatus = .cancelled) {n : Nat} (hn : s.coro.toCancelled = some n) :
    ∃ m, n = m + 1 ∧ s'.coro.toCancelled = some m := by
  cases hm with
  | isStatus hc ho hl =>
      rename_i l status
      rw [hc] at hn
      cases l <;> cases ho
      cases hn
      exact ⟨2, rfl, by simp [answer, otaTask, OtaLoc.next, hs, Coro.toCancelled]⟩
  | whenCancel hc ho hm =>
      rename_i l b
      rw [hc] at hn
      cases l <;> cases ho
      cases hn
      cases hm
      exact ⟨1, rfl, rfl⟩
  | coReturn hc ho =>
      rename_i l result
      rw [hc] at hn
      cases l <;> cases ho
      cases result <;> cases hn
      exact ⟨0, rfl, rfl⟩
  | setStatus hc ho hl => exact absurd ho (otaTask_never_sets_status _ _)
  | enterResume hc ho | enterInput hc ho | asyncSleep hc ho | throw hc ho =>
      rename_i l
      rw [hc] at hn
      cases l <;> cases ho <;> cases hn
  | external hc ho =>
      rename_i l k
      cases l <;> cases ho
  | paused hc | notPaused hc | whenPause hc | whenPauseFails hc | startReceive hc | tookResume hc
  | tookPause hc | tookCancel hc | whenResume hc | whenResumeFails hc | setRunning hc
  | startInput hc | startControl hc | inputWins hc | controlWins hc => rw [hc] at hn; cases hn

/-- A cancelled coroutine at its loop head is, in every run, on its way to returning
`CANCELLED`. -/
theorem toCancelled_of_loopHead {t : State OtaState OtaLoc}
    (h : (machine otaTask).Reachable NoSetStatus s) (hc : s.cancelSucceeded)
    (hhead : s.coro = .body .loopHead) (ht : (machine otaTask).Steps NoSetStatus s t) :
    (machine otaTask).Reachable NoSetStatus t ∧ t.cancelSucceeded ∧
      ∃ n, t.coro.toCancelled = some n := by
  refine ht.invariant (I := fun t => (machine otaTask).Reachable NoSetStatus t ∧
    t.cancelSucceeded ∧ ∃ n, t.coro.toCancelled = some n) ⟨h, hc, 3, by rw [hhead]; rfl⟩ ?_
  rintro t a t' ⟨hr, hdone, n, hn⟩ hg hs
  have hm := step_moved hs
  have hlife := reachable_lifecycle hr
  refine ⟨hr.step hg hs, hm.history hdone, ?_⟩
  by_cases ha : ∃ choice, a = .coro choice
  · obtain ⟨choice, rfl⟩ := ha
    cases hm with
    | coro hm =>
        have hkept := (reachable_cancelKept otaTask_never_sets_status hr).kept hdone hm.frame.active
        obtain ⟨m, -, hm'⟩ := hm.toCancelled hkept hn
        exact ⟨m, hm'⟩
  · refine ⟨n, ?_⟩
    rw [hm.coro_eq (fun hl => ?_) fun choice he => ha ⟨choice, he⟩]
    · exact hn
    · rw [(hlife.post hl).2] at hn
      cases hn

/-- **A successful cancel is never lost.** In every reachable state of an `OtaTask` in
which some `cancel()` has returned true and the coroutine has not finished: the
coroutine is not blocked on empty channels; with the mutex free it has a step to take,
and a controller that holds the mutex has one; and at its loop head it can only go on to
return `CANCELLED`, each of its steps bringing it closer. -/
theorem cancel_never_lost {s : State OtaState OtaLoc}
    (h : (machine otaTask).Reachable NoSetStatus s) (hc : .returned .cancel true ∈ s.history)
    (ha : s.coro.active = true) :
    s.blocked = false ∧
      (s.lock = none → ∃ choice s', (machine otaTask).step s (.coro choice) = some s') ∧
      (∀ critical, s.lock = some critical →
        ∃ a s', (∀ choice, a ≠ .coro choice) ∧ (machine otaTask).step s a = some s') ∧
      (s.coro = .body .loopHead → ∀ t, (machine otaTask).Steps NoSetStatus s t →
        ∃ n ≤ 3, t.coro.toCancelled = some n ∧
          ∀ choice t', (machine otaTask).step t (.coro choice) = some t' →
            ∃ m, n = m + 1 ∧ t'.coro.toCancelled = some m) := by
  have hs := (reachable_cancelKept otaTask_never_sets_status h).kept hc ha
  have hp := reachable_pending h
  refine ⟨not_blocked hp hs ha, coro_enabled (reachable_receivers h) hp hs ha,
    fun _ => holder_enabled, ?_⟩
  intro hhead t ht
  obtain ⟨hr, hdone, n, hn⟩ := toCancelled_of_loopHead h hc hhead ht
  refine ⟨n, ?_, hn, fun choice t' hst => ?_⟩
  · revert hn
    unfold Coro.toCancelled
    split <;> simp_all <;> omega
  · have hm : Moved otaTask t (.coro choice) t' := step_moved hst
    cases hm with
    | coro hm =>
        have hkept := (reachable_cancelKept otaTask_never_sets_status hr).kept hdone hm.frame.active
        exact hm.toCancelled hkept hn

/-- Two receives race when `cancel()` returns true; the input wins and drops the
`CANCEL`. -/
theorem cancel_never_lost_dropped :
    ∃ s, (machine otaTask).Reachable NoSetStatus s ∧ s.coro = .body .loopHead ∧
      s.controlChannel.contents = [] ∧ s.blocked = false ∧
      (s.lock = none → ∃ choice s', (machine otaTask).step s (.coro choice) = some s') ∧
      ∀ t, (machine otaTask).Steps NoSetStatus s t →
        ∃ n ≤ 3, t.coro.toCancelled = some n ∧
          ∀ choice t', (machine otaTask).step t (.coro choice) = some t' →
            ∃ m, n = m + 1 ∧ t'.coro.toCancelled = some m := by
  obtain ⟨s, hs, hp⟩ := Machine.reachable_of_execWithin (M := machine otaTask) (G := NoSetStatus)
    (l := launch ++ toRace ++ [Action.sendInputParameters .downloading, .cancel, .send, .store,
      .coro .inputWins])
    (p := fun s => decide (.returned .cancel true ∈ s.history) &&
      decide (s.coro = .body .loopHead) && decide (s.controlChannel.contents = [])) (by decide)
  simp only [Bool.and_eq_true, decide_eq_true_eq] at hp
  obtain ⟨⟨hc, hhead⟩, hempty⟩ := hp
  obtain ⟨hblocked, hstep, -, hreturn⟩ := cancel_never_lost hs hc (by rw [hhead]; rfl)
  exact ⟨s, hs, hhead, hempty, hblocked, hstep, hreturn hhead⟩

end OtaTask

end CppCode.Task
