import CppCode.Task.Lifecycle
import CppCode.Task.OtaTask

/-!
# CppCode.Task.Pause

**Pausing.** `pause()` stores `PAUSED` itself; `resume()` only sends `RESUME`, and the
coroutine stores `RUNNING` when it acts on it in `async_wait_for_resume()`. Between
the two a `RESUME` can be on its way for any length of time, so a `pause()` that
returns true in the meantime is overwritten by the older `resume()`
(`pause_overwritten`).

`pause_holds` is the other half: if, when `pause()` stores `PAUSED`, no older
`resume()` is under way and no `RESUME` can still reach `async_wait_for_resume()`,
then the status does not become `RUNNING` before a `resume()` that started later has
succeeded. The argument follows the `RESUME` through the channel: `Quiet` says that
there is none on its way, and only a successful send can end that.
-/

namespace CppCode.Task

open Concurrency

variable {T Loc : Type} {B : Body T Loc} {s s' : State T Loc}

/-- `async_wait_for_resume()` has received `RESUME` and not yet stored `RUNNING`. -/
def Coro.actsOnResume : Coro Loc → Bool
  | .waitResume _ .whenResume | .waitResume _ .setRunning => true
  | _ => false

/-- `async_wait_for_resume()` has its receive open. -/
def Coro.awaitsResume : Coro Loc → Bool
  | .waitResume _ .receiving => true
  | _ => false

/-- No `resume()` is under way, and no `RESUME` is buffered, in flight to
`async_wait_for_resume()` or being acted on there. -/
def NoOlderResume (s : State T Loc) : Prop :=
  s.resuming = [] ∧ TaskCommand.resume ∉ s.controlChannel.buffer ∧
    s.coro.actsOnResume = false ∧
    (s.coro.awaitsResume = true → s.controlChannel.receiver ≠ .got .resume)

instance (s : State T Loc) : Decidable (NoOlderResume s) :=
  inferInstanceAs (Decidable (_ ∧ _ ∧ _ ∧ (_ → _)))

/-- The subclass does not force the status to `RUNNING` from outside. -/
def NoForcedRunning : Guard (State T Loc) (Action T) := fun _ a => a ≠ .setStatus .running

instance [DecidableEq T] (s : State T Loc) (a : Action T) : Decidable (NoForcedRunning s a) :=
  inferInstanceAs (Decidable (¬ _))

/-- A `resume()` that started when the history had length `n`, or later, has succeeded. -/
def ResumedSince (n : Nat) (s : State T Loc) : Prop :=
  ∃ stamp, n ≤ stamp ∧ .returned (.resume stamp) true ∈ s.history

/-- `Quiet`, over the components of a state. -/
structure QuietAt (n : Nat) (status : TaskStatus) (resuming : List Nat)
    (control : Channel 1 TaskCommand) (coro : Coro Loc) (length : Nat) : Prop where
  notRunning : status ≠ .running
  notInitial : status ≠ .initial
  calls : ∀ stamp ∈ resuming, n ≤ stamp
  buffered : TaskCommand.resume ∉ control.buffer
  acting : coro.actsOnResume = false
  received : coro.awaitsResume = true → control.receiver ≠ .got .resume
  past : n ≤ length

/-- The task is not running, no `RESUME` is on its way to `async_wait_for_resume()`,
and every `resume()` under way has started when the history had length `n` or later. -/
abbrev Quiet (n : Nat) (s : State T Loc) : Prop :=
  QuietAt n s.currentStatus s.resuming s.controlChannel s.coro s.history.length

theorem setStatus_eq_running {current status : TaskStatus}
    (h : (setStatus current status).2 = .running) : status = .running ∨ current = .running := by
  revert h
  cases current <;> cases status <;> decide

theorem Request.command_ne_resume (r : Request) : r.command ≠ .resume := by
  cases r <;> nofun

theorem Request.status_ne_running (r : Request) : r.status ≠ .running := by
  cases r <;> nofun

theorem statusOf_ne_running (outcome : Outcome) : statusOf outcome ≠ .running := by
  intro h
  have ht := statusOf_terminal outcome
  rw [h] at ht
  cases ht

namespace QuietAt

variable {n len len' : Nat} {status status' : TaskStatus} {resuming : List Nat}
  {control control' : Channel 1 TaskCommand} {coro coro' : Coro Loc}

theorem grow (h : QuietAt n status resuming control coro len) (hle : len ≤ len') :
    QuietAt n status resuming control coro len' :=
  ⟨h.notRunning, h.notInitial, h.calls, h.buffered, h.acting, h.received, Nat.le_trans h.past hle⟩

theorem setStatus (h : QuietAt n status resuming control coro len) (hr : status' ≠ .running)
    (hi : status' ≠ .initial) : QuietAt n status' resuming control coro len :=
  ⟨hr, hi, h.calls, h.buffered, h.acting, h.received, h.past⟩

/-- The coroutine is, or goes, outside the receive of `async_wait_for_resume()`; the
control channel may lose what it had in flight. -/
theorem move (h : QuietAt n status resuming control coro len) (ha : coro'.actsOnResume = false)
    (hw : coro'.awaitsResume = false) (hb : control'.buffer = control.buffer) :
    QuietAt n status resuming control' coro' len :=
  ⟨h.notRunning, h.notInitial, h.calls, by rw [hb]; exact h.buffered, ha,
    fun ht => absurd ht (by rw [hw]; nofun), h.past⟩

/-- A command other than `RESUME` is sent. -/
theorem send (h : QuietAt n status resuming control coro len) {command : TaskCommand}
    (hne : command ≠ .resume) (hc : control.trySend command = some control') :
    QuietAt n status resuming control' coro len := by
  refine ⟨h.notRunning, h.notInitial, h.calls, ?_, h.acting, fun hw => ?_, h.past⟩
  · obtain ⟨-, -, ⟨-, -, hb⟩ | ⟨-, -, -, hb⟩⟩ := Channel.trySend_cases hc
    · simp [hb]
    · simpa [hb, h.buffered] using Ne.symm hne
  · obtain ⟨-, -, ⟨-, hr, -⟩ | ⟨-, -, hr, -⟩⟩ := Channel.trySend_cases hc
    · simpa [hr] using hne
    · simpa [hr] using h.received hw

/-- A receive is started; what it finds is not `RESUME`. -/
theorem startReceive (h : QuietAt n status resuming control coro len)
    (hc : control.startReceive = some control') (ha : coro'.actsOnResume = false) :
    QuietAt n status resuming control' coro' len := by
  have hb := h.buffered
  obtain ⟨-, -, ⟨a, hbuf, hr⟩ | ⟨-, hbuf, hr⟩⟩ := Channel.startReceive_cases hc
  · rw [hbuf, List.mem_cons, not_or] at hb
    exact ⟨h.notRunning, h.notInitial, h.calls, hb.2, ha,
      fun _ => by simpa [hr] using Ne.symm hb.1, h.past⟩
  · exact ⟨h.notRunning, h.notInitial, h.calls, by simp [hbuf], ha, fun _ => by simp [hr], h.past⟩

end QuietAt

theorem length_le_log (s : State T Loc) (e : Event T) :
    s.history.length ≤ (s.log e).history.length := by
  simp [State.log]

theorem CoroMoved.quiet {n : Nat} {choice : Choice} (hm : CoroMoved B s choice s')
    (hB : ∀ l, B.op l ≠ .setStatus .running) (h : Quiet n s) : Quiet n s' := by
  cases hm with
  | isStatus | whenCancel | asyncSleep | external | enterResume | enterInput | coReturn | throw
  | paused | notPaused | whenPause | whenPauseFails | whenResumeFails | startInput =>
      exact h.move rfl rfl rfl
  | setStatus hc ho hl =>
      rename_i l status
      refine (h.setStatus (fun hr => ?_) fun hi => ?_).move rfl rfl rfl
      · rcases setStatus_eq_running hr with rfl | hr
        · exact hB l ho
        · exact h.notRunning hr
      · exact h.notInitial (setStatus_eq_initial hi)
  | startReceive hc hr => exact h.startReceive hr rfl
  | startControl hc hr => exact h.startReceive hr rfl
  | tookResume hc hr =>
      -- a `RESUME` that is received here was in flight to `async_wait_for_resume()`
      exact absurd (Channel.take_cases hr).1 (h.received (by rw [hc]; rfl))
  | tookPause hc hr | tookCancel hc hr | controlWins hc hr =>
      exact h.move rfl rfl (Channel.take_cases hr).2.2.1
  | whenResume hc | setRunning hc =>
      have ha := h.acting
      rw [hc] at ha
      cases ha
  | inputWins hc hr =>
      exact (h.grow (length_le_log s _)).move rfl rfl rfl

/-- **One step**: the task stays quiet, unless it is the successful send of a
`resume()` that started late enough. -/
theorem Moved.quiet {n : Nat} {a : Action T} (hm : Moved B s a s')
    (hB : ∀ l, B.op l ≠ .setStatus .running) (hg : NoForcedRunning s a) (hlife : Lifecycle s)
    (h : Quiet n s) : ResumedSince n s' ∨ Quiet n s' := by
  cases hm with
  | pauseStarts | cancelStarts | completed => exact .inr h
  | runRefused | pauseRefused | cancelDone | cancelRefused | inputRefused | polled | postThrew
  | sendFailed | inputSent => exact .inr (h.grow (length_le_log s _))
  -- `run()` stores `RUNNING` as well, but only over `INITIAL`
  | runStarts hl hs => exact absurd hs h.notInitial
  | posted hl => exact absurd (hlife.post hl).1 h.notRunning
  | sent hl hc => exact .inr (h.send (Request.command_ne_resume _) hc)
  | stored hl =>
      rename_i r
      exact .inr ((h.setStatus r.status_ne_running r.status_ne_initial).grow (length_le_log s _))
  | resumeStarts =>
      refine .inr ⟨h.1, h.2, ?_, h.4, h.5, h.6, h.7⟩
      intro stamp hmem
      rcases List.mem_append.mp hmem with hmem | hmem
      · exact h.calls stamp hmem
      · rw [List.mem_singleton.mp hmem]
        exact h.past
  | resumed hi hc =>
      -- the only step that puts a `RESUME` on its way; its call has started late enough
      rename_i i stamp c
      refine .inl ⟨stamp, h.calls stamp (List.mem_of_getElem? hi), ?_⟩
      exact List.mem_concat_self
  | resumeFailed hi hc =>
      refine .inr ⟨h.1, h.2, fun stamp hmem => ?_, h.4, h.5, h.6,
        Nat.le_trans h.past (length_le_log s _)⟩
      exact h.calls stamp (List.mem_of_mem_eraseIdx hmem)
  | consumed hl hn hr =>
      rename_i outcome
      have hq := h.setStatus (statusOf_ne_running outcome) (statusOf_ne_initial outcome)
      exact .inr ((hq.grow (length_le_log s .resultGot)).grow (length_le_log _ _))
  | setStatus status hl =>
      have hne : status ≠ .running := fun he => hg (by rw [he])
      refine .inr (h.setStatus ?_ fun hi => h.notInitial (setStatus_eq_initial hi))
      intro hr
      rcases setStatus_eq_running hr with hr | hr
      · exact hne hr
      · exact h.notRunning hr
  | coro hm => exact .inr (hm.quiet hB h)

/-- **A run** from a quiet state stays quiet until a later `resume()` has succeeded. -/
theorem quiet_until_resumed {n : Nat} (hB : ∀ l, B.op l ≠ .setStatus .running)
    {t : State T Loc} (h : (machine B).Reachable NoForcedRunning s) (hq : Quiet n s)
    (ht : (machine B).Steps NoForcedRunning s t) : ResumedSince n t ∨ Quiet n t := by
  have key : (machine B).Reachable NoForcedRunning t ∧ (ResumedSince n t ∨ Quiet n t) := by
    refine ht.invariant (I := fun t => (machine B).Reachable NoForcedRunning t ∧
      (ResumedSince n t ∨ Quiet n t)) ⟨h, .inr hq⟩ ?_
    rintro t a t' ⟨hr, hi⟩ hg hs
    refine ⟨hr.step hg hs, ?_⟩
    have hm := step_moved hs
    rcases hi with ⟨stamp, hle, hmem⟩ | hi
    · exact .inl ⟨stamp, hle, hm.history hmem⟩
    · exact hm.quiet hB hg (reachable_lifecycle hr) hi
  exact key.2

/-- **A pause holds.** Let `pause()` store `PAUSED` and return true in a state in which
no older `resume()` is under way or on its way. However the controllers and the
coroutine go on from there, when the status is `RUNNING` again a `resume()` that
started after the return of this `pause()` has succeeded. -/
theorem pause_holds {T Loc : Type} {B : Body T Loc} {s s' t : State T Loc}
    (hB : ∀ l, B.op l ≠ .setStatus .running)
    (h : (machine B).Reachable NoForcedRunning s) (hp : s.lock = some (.store .pause))
    (hs : (machine B).step s .store = some s') (hn : NoOlderResume s)
    (ht : (machine B).Steps NoForcedRunning s' t) (hr : t.currentStatus = .running) :
    ∃ stamp, s'.history.length ≤ stamp ∧ .returned (.resume stamp) true ∈ t.history := by
  obtain ⟨hcalls, hbuf, hact, hrec⟩ := hn
  have hs' : s' = store s .pause := by
    simp only [machine, step, hp] at hs
    exact (Option.some.inj hs).symm
  subst hs'
  have hq : Quiet (store s .pause).history.length (store s .pause) :=
    ⟨ne_of_beq_false rfl, ne_of_beq_false rfl, fun stamp hmem => absurd hmem (by simp [store, State.log, hcalls]), hbuf, hact,
      hrec, Nat.le_refl _⟩
  have hguard : NoForcedRunning s .store := by
    intro hf
    cases hf
  have hreach : (machine B).Reachable NoForcedRunning (store s .pause) := h.step hguard hs
  rcases quiet_until_resumed hB hreach hq ht with hres | hquiet
  · exact hres
  · exact absurd hr hquiet.notRunning

/-- The coroutine, paused, consumes the `PAUSE` and waits for the next command. -/
def toPausedWait : List (Action OtaState) :=
  toResumeReceive ++ [.coro .go, .coro .go, .coro (.hook true), .coro .go]

/-- The coroutine acts on a `RESUME` that it has received. -/
def actOnResume : List (Action OtaState) := [.coro .go, .coro (.hook true), .coro .go]

theorem pause_holds_until_resumed :
    ∃ s s' t, (machine otaTask).Reachable NoForcedRunning s ∧ NoOlderResume s ∧
      (machine otaTask).step s .store = some s' ∧
      (machine otaTask).Steps NoForcedRunning s' t ∧ t.currentStatus = .running ∧
      ∃ stamp, s'.history.length ≤ stamp ∧ .returned (.resume stamp) true ∈ t.history := by
  obtain ⟨s, hs, hp⟩ := Machine.reachable_of_execWithin (M := machine otaTask)
    (G := NoForcedRunning) (l := launch ++ [Action.pause, .send])
    (p := fun s => decide (s.lock = some (.store .pause)) && decide (NoOlderResume s) &&
      ((machine otaTask).execWithin NoForcedRunning (store s .pause)
        (toPausedWait ++ [Action.resume, .resumeSend 0] ++ actOnResume)).any
          fun t => t.currentStatus = .running) (by decide)
  simp only [Bool.and_eq_true, decide_eq_true_eq] at hp
  obtain ⟨⟨hl, hn⟩, hrun⟩ := hp
  obtain ⟨t, ht, hr⟩ := Machine.exists_steps_of_execWithin hrun
  have hst : (machine otaTask).step s .store = some (store s .pause) := by
    simp [machine, step, hl]
  exact ⟨s, store s .pause, t, hs, hn, hst, ht, of_decide_eq_true hr,
    pause_holds (fun l => otaTask_never_sets_status l .running) hs hl hst hn ht (of_decide_eq_true hr)⟩

/-- The coroutine of a paused `OtaTask` has been handed a `RESUME` when `pause()`
buffers `PAUSE`, stores `PAUSED` and returns true. It then acts on the `RESUME`: the
task is `RUNNING`, and nothing has returned since that `pause()`. -/
theorem pause_overwritten :
    ∃ s s' t, (machine otaTask).Reachable Machine.free s ∧ s.lock = some (.store .pause) ∧
      (machine otaTask).step s .store = some s' ∧
      s'.history = s.history ++ [.returned .pause true] ∧
      (machine otaTask).Steps Machine.free s' t ∧ t.currentStatus = .running ∧
      t.history = s'.history ∧ t.resuming = [] := by
  obtain ⟨s, hs, hp⟩ := Machine.reachable_of_exec (M := machine otaTask)
    (l := launch ++ [Action.pause, .send, .store] ++ toPausedWait ++
      [Action.resume, .resumeSend 0, .pause, .send])
    (p := fun s => decide (s.lock = some (.store .pause)) &&
      ((machine otaTask).exec (store s .pause) actOnResume).any fun t =>
        t.currentStatus = .running && t.history = (store s .pause).history && t.resuming = [])
    (by decide)
  simp only [Bool.and_eq_true, decide_eq_true_eq] at hp
  obtain ⟨t, ht, hr⟩ := Machine.exists_steps_of_exec hp.2
  simp only [Bool.and_eq_true, decide_eq_true_eq] at hr
  have hst : (machine otaTask).step s .store = some (store s .pause) := by
    simp [machine, step, hp.1]
  exact ⟨s, store s .pause, t, hs, hp.1, hst, rfl, ht, hr.1.1, hr.1.2, hr.2⟩

end CppCode.Task
