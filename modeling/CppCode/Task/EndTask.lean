import CppCode.Task.TestTask

/-!
# CppCode.Task.EndTask

**Does `end_task()` end the task?** The coroutine of a `TestTask` looks at `is_end` only at its
loop head. `end_task()` first wakes it up by a `RESUME` and stores `is_end` afterwards, so the
coroutine may be back in its wait before there is anything to see. `leaves` says, for each
position of the coroutine, whether the messages that are in the channels bring it to its loop
head or to its end; `end_task_ends_iff` says that this is exactly what decides.

Two ways in which `end_task()` fails are among the rest: the `RESUME` is received too early
(`end_task_too_early`), or it is used up to leave `async_wait_for_resume()`, behind which the
coroutine waits for input without a look at `is_end`. In runs without `pause()` in which the
coroutine does not look at `is_end` between the two halves of an `end_task()`, neither happens
(`end_task_ends`).
-/

namespace CppCode.Task.TestTask

open Concurrency

variable {t t' : Task.State Int Loc} {s s' : State}

/-! ### Where the coroutine can be -/

/-- The coroutine is inside a wait only where its own code calls it. -/
def located : Coro Loc → Prop
  | .waitResume l _ => l = .waitResume
  | .waitInput l _ => l = .waitInput
  | .notSpawned | .body _ | .finished _ => True

theorem located_of_moved {choice : Choice} (hm : CoroMoved testTask t choice t')
    (h : located t.coro) : located t'.coro := by
  cases hm with
  | @enterResume l hc ho =>
      cases l with
      | waitResume => rfl
      | _ => cases ho
  | @enterInput l hc ho =>
      cases l with
      | waitInput => rfl
      | _ => cases ho
  | paused hc | whenPause hc | startReceive hc | tookResume hc | tookPause hc | whenResume hc
  | startInput hc | startControl hc =>
      rw [hc] at h
      exact h
  | isStatus | setStatus | whenCancel | asyncSleep | external | coReturn | throw | notPaused
  | whenPauseFails | tookCancel | whenResumeFails | setRunning | inputWins | controlWins =>
      trivial

/-- What `resume()` does: the command goes into the channel, or the channel is full. -/
theorem resumeCall_cases (h : resumeCall t = some t') :
    t'.coro = t.coro ∧ t'.currentStatus = t.currentStatus ∧ t'.lock = t.lock ∧
      (t.controlChannel.trySend .resume = some t'.controlChannel ∨
        (t.controlChannel.trySend .resume = none ∧ t'.controlChannel = t.controlChannel)) := by
  have hindex : (t.resuming ++ [t.history.length])[t.resuming.length]? = some t.history.length := by
    simp
  simp only [resumeCall, Task.step, resumeSend, hindex] at h
  split at h
  next c hc =>
    obtain rfl := Option.some.inj h
    exact ⟨rfl, rfl, rfl, .inl hc⟩
  next hc =>
    obtain rfl := Option.some.inj h
    exact ⟨rfl, rfl, rfl, .inr ⟨hc, rfl⟩⟩

/-- The base class runs as it does alone. -/
theorem task_reachable {G : Guard State Action} (h : machine.Reachable G s) :
    (Task.machine testTask).Reachable Machine.free s.task := by
  refine h.project (N := Task.machine testTask) (fun s => s.task) rfl ?_
  intro s a s' _ hs
  cases step_moved hs with
  | task _ _ h => exact .single trivial h
  | @coro choice _ h => exact .single (a := .coro choice) trivial h
  | called | storesResult | storesEnd => exact .refl _
  | resumes _ h =>
      simp only [resumeCall] at h
      split at h
      next t' ht =>
        exact (Machine.Steps.single (a := .resume) trivial ht).trans
          (.single (a := .resumeSend s.task.resuming.length) trivial h)
      next => cases h

theorem reachable_located {G : Guard State Action} (h : machine.Reachable G s) :
    located s.task.coro := by
  refine (task_reachable h).invariant (I := fun t : Task.State Int Loc => located t.coro) trivial ?_
  intro t a t' _ hi _ hs
  cases Task.step_moved hs with
  | coro hm => exact located_of_moved hm hi
  | posted => trivial
  | _ => exact hi

/-! ### What the messages in the channels do -/

/-- A message waits for the coroutine in one of the channels. -/
def hasMessage (t : Task.State Int Loc) : Bool :=
  !t.inputChannel.contents.isEmpty || !t.controlChannel.contents.isEmpty

/-- The commands bring a coroutine in the receive of `async_wait_for_resume()` to its loop head,
or to its end, in a task of this status; `input` says that an input parameter is there. -/
def wakes (status : TaskStatus) (input : Bool) : List TaskCommand → Bool
  | [] => false
  | .cancel :: _ => true
  -- behind it the coroutine waits for input parameters, unless `set_status` fails
  | .resume :: rest => !(setStatus status .running).1 || (input || !rest.isEmpty)
  | .pause :: rest => if status = .paused then wakes status input rest else input || !rest.isEmpty

/-- The same from the beginning of `async_wait_for_resume()`. -/
def passesResume (t : Task.State Int Loc) : Bool :=
  if t.currentStatus = .paused then
    wakes t.currentStatus (!t.inputChannel.contents.isEmpty) t.controlChannel.contents
  else hasMessage t

/-- What is in the channels brings the coroutine to its loop head or to its end. -/
def leaves (t : Task.State Int Loc) : Bool :=
  match t.coro with
  | .body .checkCancelled => t.currentStatus == .cancelled || passesResume t
  | .body .waitResume | .waitResume _ .checkPaused => passesResume t
  | .waitResume _ .whenPause | .waitResume _ .startReceive | .waitResume _ .receiving =>
      wakes t.currentStatus (!t.inputChannel.contents.isEmpty) t.controlChannel.contents
  | .waitResume _ .whenResume | .waitResume _ .setRunning =>
      !(setStatus t.currentStatus .running).1 || hasMessage t
  | .body .waitInput | .waitInput _ _ => hasMessage t
  | .notSpawned | .finished _ | .body .loopHead | .body .whenCancel | .body .readResult
  | .body (.finish _) => true

/-- The coroutine is at its loop head and sees that the task has not ended. -/
def looksTooEarly (t : Task.State Int Loc) (choice : Choice) : Prop :=
  t.coro = .body .loopHead ∧ choice = .external 0

/-- **No step of its own decides it.** As long as the coroutine does not read a false `is_end`,
its steps lead to the loop head or the end from where they did before, and from nowhere else. -/
theorem leaves_of_moved {choice : Choice} (hm : CoroMoved testTask t choice t')
    (hl : located t.coro) (hlook : ¬ looksTooEarly t choice) : leaves t' = leaves t := by
  cases hm with
  | @isStatus l status hc ho hlock =>
      cases l with
      | checkCancelled =>
          cases ho
          simp only [leaves, answer, hc, testTask, Loc.next]
          cases hs : t.currentStatus == .cancelled with
          | true => rfl
          | false => rfl
      | _ => cases ho
  | @setStatus l status hc ho => cases l <;> cases ho
  | @whenCancel l b hc ho hm =>
      cases l with
      | whenCancel =>
          cases b with
          | true => simp only [leaves, answer, hc, testTask, Loc.next, if_true]
          | false => cases hm
      | _ => cases ho
  | @asyncSleep l hc ho => cases l <;> cases ho
  | @external l n hc ho =>
      cases l with
      | loopHead =>
          have hn : n ≠ 0 := by
            rintro rfl
            exact hlook ⟨hc, rfl⟩
          simp only [leaves, answer, hc, testTask, Loc.next, if_neg hn]
      | readResult => simp only [leaves, answer, hc, testTask, Loc.next]
      | _ => cases ho
  | @enterResume l hc ho =>
      cases l with
      | waitResume => simp only [leaves, hc, passesResume, hasMessage]
      | _ => cases ho
  | @enterInput l hc ho =>
      cases l with
      | waitInput => simp only [leaves, hc, hasMessage]
      | _ => cases ho
  | @coReturn l result hc ho =>
      cases l with
      | finish => simp only [leaves, hc]
      | _ => cases ho
  | @throw l hc ho => cases l <;> cases ho
  | paused hc hlock hs => simp only [leaves, hc, passesResume, hs, if_true]
  | notPaused hc hlock hs =>
      rw [hc] at hl
      obtain rfl := hl
      simp only [leaves, answer, hc, testTask, Loc.next, if_true, passesResume, if_neg hs,
        hasMessage]
  | whenPause hc hm => simp only [leaves, hc]
  | whenPauseFails hc hm => cases hm
  | startReceive hc hr => simp only [leaves, hc, Channel.contents_startReceive hr]
  | tookResume hc hr =>
      simp only [leaves, hc, Channel.contents_take hr, wakes, hasMessage]
  | tookPause hc hr =>
      simp only [leaves, hc, Channel.contents_take hr, wakes, passesResume, hasMessage]
  | tookCancel hc hr =>
      rw [hc] at hl
      obtain rfl := hl
      simp only [leaves, answer, hc, testTask, Loc.next, Channel.contents_take hr, wakes]
      rfl
  | whenResume hc hm => simp only [leaves, hc, hasMessage]
  | whenResumeFails hc hm => cases hm
  | setRunning hc hlock =>
      rw [hc] at hl
      obtain rfl := hl
      simp only [leaves, answer, hc, testTask, Loc.next]
      cases hs : (Task.setStatus t.currentStatus .running).1 with
      | true => rfl
      | false => rfl
  | startInput hc hr => simp only [leaves, hc, hasMessage, Channel.contents_startReceive hr]
  | startControl hc hr => simp only [leaves, hc, hasMessage, Channel.contents_startReceive hr]
  | inputWins hc hr =>
      rw [hc] at hl
      obtain rfl := hl
      simp only [leaves, answer, State.log, hc, testTask, Loc.next, hasMessage,
        Channel.contents_take hr]
      rfl
  | controlWins hc hr =>
      rw [hc] at hl
      obtain rfl := hl
      simp only [leaves, answer, hc, testTask, Loc.next, hasMessage, Channel.contents_take hr]
      simp

/-! ### The way out -/

/-- The steps of its own that a coroutine at this position has before it, at most, if nothing is
in the channels. -/
def coroRank : Coro Loc → Nat
  | .body .checkCancelled => 20
  | .body .waitResume => 19
  | .waitResume _ .checkPaused => 18
  | .waitResume _ .whenPause => 17
  | .waitResume _ .startReceive => 16
  | .waitResume _ .receiving => 15
  | .waitResume _ .whenResume => 14
  | .waitResume _ .setRunning => 13
  | .body .waitInput => 12
  | .waitInput _ .startInput => 11
  | .waitInput _ .startControl => 10
  | .waitInput _ .racing => 9
  | .body .loopHead => 4
  | .body .readResult => 3
  | .body .whenCancel => 2
  | .body (.finish _) => 1
  | .notSpawned | .finished _ => 0

/-- Each command may send the coroutine once more through `async_wait_for_resume()`. -/
def rank (t : Task.State Int Loc) : Nat := coroRank t.coro + 4 * t.controlChannel.contents.length

theorem rank_of_moved {choice : Choice} (hm : CoroMoved testTask t choice t')
    (hl : located t.coro) (hlook : ¬ looksTooEarly t choice) : rank t' < rank t := by
  cases hm with
  | @isStatus l status hc ho hlock =>
      cases l with
      | checkCancelled =>
          simp only [rank, answer, hc, testTask, Loc.next]
          cases t.currentStatus == status <;> simp [coroRank]
      | _ => cases ho
  | @setStatus l status hc ho => cases l <;> cases ho
  | @whenCancel l b hc ho hm =>
      cases l with
      | whenCancel =>
          cases b with
          | true => simp [rank, answer, hc, testTask, Loc.next, coroRank]
          | false => cases hm
      | _ => cases ho
  | @asyncSleep l hc ho => cases l <;> cases ho
  | @external l n hc ho =>
      cases l with
      | loopHead =>
          have hn : n ≠ 0 := by
            rintro rfl
            exact hlook ⟨hc, rfl⟩
          simp [rank, answer, hc, testTask, Loc.next, hn, coroRank]
      | readResult => simp [rank, answer, hc, testTask, Loc.next, coroRank]
      | _ => cases ho
  | @enterResume l hc ho =>
      cases l with
      | waitResume => simp [rank, hc, coroRank]
      | _ => cases ho
  | @enterInput l hc ho =>
      cases l with
      | waitInput => simp [rank, hc, coroRank]
      | _ => cases ho
  | @coReturn l result hc ho =>
      cases l with
      | finish => simp [rank, hc, coroRank]
      | _ => cases ho
  | @throw l hc ho => cases l <;> cases ho
  | paused hc | whenPause hc | whenResume hc | startInput hc => simp [rank, hc, coroRank]
  | notPaused hc =>
      rw [hc] at hl
      obtain rfl := hl
      simp [rank, answer, hc, testTask, Loc.next, coroRank]
  | whenPauseFails hc hm | whenResumeFails hc hm => cases hm
  | startReceive hc hr | startControl hc hr =>
      simp [rank, hc, coroRank, Channel.contents_startReceive hr]
  | tookResume hc hr | tookPause hc hr =>
      simp only [rank, hc, coroRank, Channel.contents_take hr, List.length_cons]
      omega
  | tookCancel hc hr =>
      rw [hc] at hl
      obtain rfl := hl
      simp only [rank, answer, hc, testTask, Loc.next, coroRank, Channel.contents_take hr,
        List.length_cons, Bool.false_eq_true, if_false]
      omega
  | setRunning hc =>
      rw [hc] at hl
      obtain rfl := hl
      simp only [rank, answer, hc, testTask, Loc.next]
      cases (Task.setStatus t.currentStatus .running).1 <;> simp [coroRank]
  | inputWins hc hr =>
      rw [hc] at hl
      obtain rfl := hl
      have hle := Channel.length_contents_cancelReceive t.controlChannel
      simp only [rank, answer, Task.State.log, hc, testTask, Loc.next, coroRank]
      omega
  | controlWins hc hr =>
      rw [hc] at hl
      obtain rfl := hl
      simp only [rank, answer, hc, testTask, Loc.next, coroRank, Channel.contents_take hr,
        List.length_cons]
      omega

/-- A coroutine that leaves has a step to take, unless somebody holds the mutex. -/
theorem exists_coro_step (hr : Receivers t) (ha : t.coro.active = true) (hlock : t.lock = none)
    (h : leaves t = true) (n : Nat) :
    ∃ choice t', coroStep testTask t choice = some t' ∧ ∀ m, choice = .external m → m = n := by
  obtain ⟨hin, hctl⟩ := hr
  unfold coroStep
  cases hc : t.coro with
  | notSpawned | finished =>
      rw [hc] at ha
      cases ha
  | body l =>
      cases l with
      | loopHead | readResult => exact ⟨.external n, _, rfl, fun m hm => by cases hm; rfl⟩
      | checkCancelled => exact ⟨.go, _, if_pos hlock, by intro m hm; cases hm⟩
      | whenCancel => exact ⟨.hook true, _, rfl, by intro m hm; cases hm⟩
      | waitResume | waitInput | finish => exact ⟨.go, _, rfl, by intro m hm; cases hm⟩
  | waitResume l pc =>
      rw [hc] at hctl
      cases pc with
      | checkPaused =>
          by_cases hs : t.currentStatus = .paused
          · exact ⟨.go, by simp [waitResumeStep, hlock, hs]⟩
          · exact ⟨.go, by simp [waitResumeStep, hlock, hs]⟩
      | whenPause | whenResume => exact ⟨.hook true, _, rfl, by intro m hm; cases hm⟩
      | startReceive =>
          obtain ⟨c, hstart⟩ := Channel.startReceive_isSome hctl.isOpen (hctl.idle.mpr rfl)
          exact ⟨.go, by simp [waitResumeStep, hstart]⟩
      | receiving =>
          have hne : t.controlChannel.contents ≠ [] := by
            intro hnil
            simp [leaves, hc, hnil, wakes] at h
          obtain ⟨command, c, htake⟩ := hctl.exists_take hne
          refine ⟨.go, ?_⟩
          cases command <;> simp [waitResumeStep, htake]
      | setRunning => exact ⟨.go, by simp [waitResumeStep, hlock]⟩
  | waitInput l pc =>
      rw [hc] at hctl hin
      cases pc with
      | startInput =>
          obtain ⟨c, hstart⟩ := Channel.startReceive_isSome hin.isOpen (hin.idle.mpr rfl)
          exact ⟨.go, by simp [waitInputStep, hstart]⟩
      | startControl =>
          obtain ⟨c, hstart⟩ := Channel.startReceive_isSome hctl.isOpen (hctl.idle.mpr rfl)
          exact ⟨.go, by simp [waitInputStep, hstart]⟩
      | racing =>
          by_cases hne : t.inputChannel.contents = []
          · have hne' : t.controlChannel.contents ≠ [] := by
              intro hnil
              simp [leaves, hc, hasMessage, hne, hnil] at h
            obtain ⟨command, c, htake⟩ := hctl.exists_take hne'
            exact ⟨.controlWins, by simp [waitInputStep, htake]⟩
          · obtain ⟨value, c, htake⟩ := hin.exists_take hne
            exact ⟨.inputWins, by simp [waitInputStep, htake]⟩

/-! ### On its own -/

/-- A step of the coroutine. -/
def Own : Guard State Action := fun _ a => ∃ choice, a = .task (.coro choice)

theorem not_looksTooEarly {choice : Choice} (hend : s.isEnd = true)
    (hread : ∀ n, choice = .external n → n = s.member) : ¬ looksTooEarly s.task choice := by
  rintro ⟨hc, hchoice⟩
  have hn := hread 0 hchoice
  rw [State.member, hc, hend] at hn
  cases hn

/-- What a step of the coroutine keeps once `is_end` is stored. -/
theorem own_step {a : Action} (hg : Own s a) (hs : step s a = some s') (hend : s.isEnd = true)
    (hl : located s.task.coro) :
    s'.isEnd = true ∧ located s'.task.coro ∧ s'.task.lock = s.task.lock ∧
      leaves s'.task = leaves s.task ∧ rank s'.task < rank s.task := by
  obtain ⟨choice, rfl⟩ := hg
  cases step_moved hs with
  | task ha => exact absurd rfl (ha choice)
  | coro h hread =>
      have hm := coroStep_moved h
      have hlook := not_looksTooEarly hend hread
      exact ⟨hend, located_of_moved hm hl, hm.frame.lock, leaves_of_moved hm hl hlook,
        rank_of_moved hm hl hlook⟩

theorem leaves_of_own_steps (h : machine.Steps Own s s') (hend : s.isEnd = true)
    (hl : located s.task.coro) : leaves s'.task = leaves s.task := by
  refine (h.invariant (I := fun r : State => r.isEnd = true ∧ located r.task.coro ∧
    leaves r.task = leaves s.task) ⟨hend, hl, rfl⟩ ?_).2.2
  rintro r a r' ⟨hend, hl, hleaves⟩ hg hs
  obtain ⟨hend', hl', -, hleaves', -⟩ := own_step hg hs hend hl
  exact ⟨hend', hl', hleaves'.trans hleaves⟩

/-- A step of the coroutine is a step of the whole system. -/
theorem step_of_coroStep {choice : Choice} (h : coroStep testTask s.task choice = some t')
    (hread : ∀ n, choice = .external n → n = s.member) :
    step s (.task (.coro choice)) = some { s with task := t' } := by
  have htask : taskStep s (.coro choice) = some { s with task := t' } := by
    have hstep : Task.step testTask s.task (.coro choice) = some t' := h
    rw [taskStep, hstep]
  cases choice with
  | external n =>
      rw [step, if_pos (hread n rfl)]
      exact htask
  | _ => exact htask

theorem exists_end (n : Nat) {s : State} (hr : Receivers s.task) (hl : located s.task.coro)
    (hend : s.isEnd = true) (ha : s.task.coro.active = true) (hlock : s.task.lock = none)
    (hleaves : leaves s.task = true) (hn : rank s.task ≤ n) :
    ∃ s' outcome, machine.Steps Own s s' ∧ s'.task.coro = .finished outcome := by
  induction n generalizing s with
  | zero =>
      obtain ⟨choice, t', hcoro, hread⟩ := exists_coro_step hr ha hlock hleaves s.member
      have hlt := rank_of_moved (coroStep_moved hcoro) hl (not_looksTooEarly hend hread)
      omega
  | succ n ih =>
      obtain ⟨choice, t', hcoro, hread⟩ := exists_coro_step hr ha hlock hleaves s.member
      have hs := step_of_coroStep hcoro hread
      have hm := coroStep_moved hcoro
      have hg : Own s (.task (.coro choice)) := ⟨choice, rfl⟩
      obtain ⟨hend', hl', hlock', hleaves', hlt⟩ := own_step hg hs hend hl
      have hstep : machine.Steps Own s { s with task := t' } := .single hg hs
      cases ha' : t'.coro.active with
      | true =>
          obtain ⟨s', outcome, hsteps, hfinished⟩ := ih (hm.receivers hr) hl' hend' ha'
            (hlock'.trans hlock) (hleaves'.trans hleaves) (by omega)
          exact ⟨s', outcome, hstep.trans hsteps, hfinished⟩
      | false =>
          cases hc : t'.coro with
          | finished outcome => exact ⟨_, outcome, hstep, hc⟩
          | notSpawned => exact absurd hc hm.frame.spawned
          | body | waitResume | waitInput =>
              rw [hc] at ha'
              cases ha'

/-- **When `end_task()` ends the task.** Whenever `is_end` is stored, the coroutine has not
finished and nobody holds the mutex: the coroutine finishes without any further call if, and
only if, what is in the channels brings it to its loop head or to its end. -/
theorem end_task_ends_iff {s : State} (h : machine.Reachable Machine.free s)
    (hend : s.isEnd = true) (ha : s.task.coro.active = true) (hlock : s.task.lock = none) :
    (∃ s' outcome, machine.Steps Own s s' ∧ s'.task.coro = .finished outcome) ↔
      leaves s.task = true := by
  have hl := reachable_located h
  constructor
  · rintro ⟨s', outcome, hsteps, hfinished⟩
    rw [← leaves_of_own_steps hsteps hend hl, leaves, hfinished]
  · intro hleaves
    exact exists_end _ (reachable_receivers (task_reachable h)) hl hend ha hlock hleaves
      (Nat.le_refl _)

/-- `run()`, and the coroutine up to the race of its two receives. -/
def toRace : List Action :=
  [.task .run, .task .post, .task (.coro (.external 0))] ++
    List.replicate 6 (.task (.coro .go))

/-- The coroutine receives the `RESUME` of an `end_task()` and is back in its wait before
`is_end` is stored: it waits for ever. -/
theorem end_task_too_early :
    ∃ s : State, machine.Reachable Machine.free s ∧ s.isEnd = true ∧
      s.task.coro.active = true ∧ s.ending = [] ∧
      ¬ ∃ s' outcome, machine.Steps Own s s' ∧ s'.task.coro = .finished outcome := by
  obtain ⟨s, hs, hp⟩ := Machine.reachable_of_exec (M := machine)
    (l := toRace ++ [.endTask 11, .advance 0, .advance 0, .task (.coro .controlWins),
      .task (.coro (.external 0))] ++ List.replicate 6 (.task (.coro .go)) ++ [.advance 0])
    (p := fun s => s.isEnd && s.task.coro.active && decide (s.task.lock = none) &&
      !leaves s.task && s.ending.isEmpty) (by decide)
  simp only [Bool.and_eq_true, decide_eq_true_eq, Bool.not_eq_true', List.isEmpty_iff] at hp
  obtain ⟨⟨⟨⟨hend, ha⟩, hlock⟩, hleaves⟩, hending⟩ := hp
  refine ⟨s, hs, hend, ha, hending, ?_⟩
  rw [end_task_ends_iff hs hend ha hlock, hleaves]
  exact Bool.false_ne_true

/-! ### Runs in which nothing comes too early -/

/-- No `pause()`, and the coroutine does not read a false `is_end` while an `end_task()` is
between its `resume()` and its store. -/
def Orderly : Guard State Action := fun s a =>
  a ≠ .task .pause ∧
    (a = .task (.coro (.external 0)) ∧ s.task.coro = .body .loopHead → .storeEnd ∉ s.ending)

instance (s : State) (a : Action) : Decidable (Orderly s a) :=
  inferInstanceAs (Decidable (_ ∧ (_ → _)))

/-- The task has not been paused, and nobody is about to pause it. -/
structure NeverPaused (t : Task.State Int Loc) : Prop where
  status : t.currentStatus ≠ .paused
  lock : t.lock ≠ some (.send .pause) ∧ t.lock ≠ some (.store .pause)
  coro : ∀ l pc, t.coro = .waitResume l pc → pc = .checkPaused

theorem NeverPaused.of_coro {choice : Choice} (h : NeverPaused t)
    (hm : CoroMoved testTask t choice t') : NeverPaused t' := by
  have hlock : t'.lock ≠ some (.send .pause) ∧ t'.lock ≠ some (.store .pause) := by
    rw [hm.frame.lock]
    exact h.lock
  cases hm with
  | @setStatus l status hc ho => cases l <;> cases ho
  | paused hc hl hs => exact absurd hs h.status
  | whenPause hc | startReceive hc | tookResume hc | tookPause hc | tookCancel hc | whenResume hc
  | whenPauseFails hc | whenResumeFails hc | setRunning hc => cases h.coro _ _ hc
  | enterResume =>
      refine ⟨h.status, hlock, ?_⟩
      rintro l pc hc
      cases hc
      rfl
  | isStatus | whenCancel | asyncSleep | external | enterInput | coReturn | throw | notPaused
  | startInput | startControl | inputWins | controlWins =>
      exact ⟨h.status, hlock, by intro l pc hc; cases hc⟩

theorem NeverPaused.of_task {a : Task.Action Int} (h : NeverPaused t)
    (hm : Task.Moved testTask t a t') (ha : ∀ choice, a ≠ .coro choice) (hpause : a ≠ .pause)
    (hset : ∀ status, a ≠ .setStatus status) : NeverPaused t' := by
  cases hm with
  | coro => exact absurd rfl (ha _)
  | setStatus status => exact absurd rfl (hset status)
  | pauseRefused | pauseStarts => exact absurd rfl hpause
  | runStarts => exact ⟨nofun, ⟨nofun, nofun⟩, h.coro⟩
  | posted => exact ⟨h.status, ⟨nofun, nofun⟩, nofun⟩
  | postThrew | sendFailed => exact ⟨h.status, ⟨nofun, nofun⟩, h.coro⟩
  | cancelStarts => exact ⟨h.status, ⟨nofun, nofun⟩, h.coro⟩
  | @sent r c hl =>
      cases r with
      | pause => exact absurd hl h.lock.1
      | cancel => exact ⟨h.status, ⟨nofun, nofun⟩, h.coro⟩
  | @stored r hl =>
      cases r with
      | pause => exact absurd hl h.lock.2
      | cancel => exact ⟨nofun, ⟨nofun, nofun⟩, h.coro⟩
  | @consumed outcome =>
      refine ⟨?_, h.lock, h.coro⟩
      intro hs
      have hterminal := statusOf_terminal outcome
      rw [show statusOf outcome = .paused from hs] at hterminal
      cases hterminal
  | runRefused | cancelDone | cancelRefused | resumeStarts | resumed | resumeFailed | inputSent
  | inputRefused | polled | completed => exact ⟨h.status, h.lock, h.coro⟩

/-- The positions from which the coroutine gets to its loop head or its end in any case. -/
def atHome : Coro Loc → Bool
  | .notSpawned | .finished _ | .body .loopHead | .body .whenCancel | .body .readResult
  | .body (.finish _) => true
  | .body .checkCancelled | .body .waitResume | .body .waitInput | .waitResume _ _
  | .waitInput _ _ => false

/-- `leaves`, for a task that was never paused. -/
theorem leaves_iff (h : NeverPaused t) :
    leaves t = true ↔ atHome t.coro = true ∨
      (t.coro = .body .checkCancelled ∧ t.currentStatus = .cancelled) ∨ hasMessage t = true := by
  have hpass : passesResume t = hasMessage t := if_neg h.status
  cases hc : t.coro with
  | notSpawned | finished => simp [leaves, hc, atHome]
  | body l => cases l <;> simp [leaves, hc, atHome, hpass]
  | waitResume l pc =>
      obtain rfl := h.coro l pc hc
      simp [leaves, hc, atHome, hpass]
  | waitInput l pc => simp [leaves, hc, atHome]

/-- The controllers add messages and take none away. -/
theorem leaves_mono (h : NeverPaused t) (h' : NeverPaused t') (hc : t'.coro = t.coro)
    (hs : t.coro = .body .checkCancelled → t.currentStatus = .cancelled →
      t'.currentStatus = .cancelled)
    (hmsg : hasMessage t = true → hasMessage t' = true) (hleaves : leaves t = true) :
    leaves t' = true := by
  rw [leaves_iff h', hc]
  rcases (leaves_iff h).mp hleaves with hhome | ⟨hcoro, hcancelled⟩ | hmessage
  · exact .inl hhome
  · exact .inr (.inl ⟨hcoro, hs hcoro hcancelled⟩)
  · exact .inr (.inr (hmsg hmessage))

theorem hasMessage_of_sent {c : Channel 1 TaskCommand} {command : TaskCommand}
    (h : c.trySend command = some t.controlChannel) : hasMessage t = true := by
  simp [hasMessage, Channel.contents_trySend h]

theorem leaves_of_task {a : Task.Action Int} (h : NeverPaused t) (hlife : Lifecycle t)
    (hm : Task.Moved testTask t a t') (ha : ∀ choice, a ≠ .coro choice) (hpause : a ≠ .pause)
    (hset : ∀ status, a ≠ .setStatus status) (hleaves : leaves t = true) : leaves t' = true := by
  have h' := h.of_task hm ha hpause hset
  cases hm with
  | coro => exact absurd rfl (ha _)
  | setStatus status => exact absurd rfl (hset status)
  | pauseRefused | pauseStarts => exact absurd rfl hpause
  | posted => rfl
  | runStarts hl hs =>
      refine leaves_mono h h' rfl ?_ id hleaves
      intro _ hcancelled
      rw [hs] at hcancelled
      cases hcancelled
  | sent hl hc => exact (leaves_iff h').mpr (.inr (.inr (hasMessage_of_sent hc)))
  | resumed hi hc => exact (leaves_iff h').mpr (.inr (.inr (hasMessage_of_sent hc)))
  | inputSent hc =>
      refine (leaves_iff h').mpr (.inr (.inr ?_))
      simp [hasMessage, Task.State.log, Channel.contents_trySend hc]
  | @stored r hl =>
      cases r with
      | pause => exact absurd hl h.lock.2
      | cancel => exact leaves_mono h h' rfl (fun _ _ => rfl) id hleaves
  | @consumed outcome hl hn hr =>
      refine leaves_mono h h' rfl ?_ id hleaves
      intro hcoro
      rw [hlife.ready outcome hr] at hcoro
      cases hcoro
  | runRefused | postThrew | cancelDone | cancelRefused | cancelStarts | sendFailed | resumeStarts
  | resumeFailed | inputRefused | polled | completed =>
      exact leaves_mono h h' rfl (fun _ hs => hs) id hleaves

/-- `resume()` leaves a message behind, its own or the one that filled the channel. -/
theorem hasMessage_of_resumeCall (hr : Receivers t) (h : resumeCall t = some t') :
    hasMessage t' = true := by
  obtain ⟨-, -, -, hsent | ⟨hfull, hsame⟩⟩ := resumeCall_cases h
  · exact hasMessage_of_sent hsent
  · rcases Channel.trySend_eq_none.mp hfull with hclosed | ⟨-, hlength⟩
    · rw [hr.control.isOpen] at hclosed
      cases hclosed
    · have hne : t.controlChannel.contents ≠ [] := by
        intro hnil
        rw [(List.append_eq_nil_iff.mp hnil).2] at hlength
        cases hlength
      simp [hasMessage, hsame, hne]

/-- What an `end_task()` that has called `resume()` can rely on. -/
structure Woken (s : State) : Prop where
  neverPaused : NeverPaused s.task
  leaves : s.isEnd = true ∨ .storeEnd ∈ s.ending → leaves s.task = true

theorem Moved.woken {a : Action} (hm : Moved s a s') (hg : Orderly s a) (hr : Receivers s.task)
    (hlife : Lifecycle s.task) (hl : located s.task.coro) (h : Woken s) : Woken s' := by
  cases hm with
  | @task a t' ha hset hs =>
      have hmoved := Task.step_moved hs
      have hpause : a ≠ .pause := by
        rintro rfl
        exact hg.1 rfl
      exact ⟨h.neverPaused.of_task hmoved ha hpause hset, fun hend =>
        leaves_of_task h.neverPaused hlife hmoved ha hpause hset (h.leaves hend)⟩
  | @coro choice t' hs hread =>
      have hmoved := coroStep_moved hs
      refine ⟨h.neverPaused.of_coro hmoved, ?_⟩
      intro hend
      have hlook : ¬ looksTooEarly s.task choice := by
        intro hlook
        rcases hend with hend | hstore
        · exact not_looksTooEarly (s := s) hend hread hlook
        · obtain ⟨hc, rfl⟩ := hlook
          exact hg.2 ⟨rfl, hc⟩ hstore
      rw [leaves_of_moved hmoved hl hlook]
      exact h.leaves hend
  | called value =>
      refine ⟨h.neverPaused, ?_⟩
      rintro (hend | hstore)
      · exact h.leaves (.inl hend)
      · rcases List.mem_append.mp hstore with hstore | hstore
        · exact h.leaves (.inr hstore)
        · cases List.mem_singleton.mp hstore
  | storesResult hi =>
      refine ⟨h.neverPaused, ?_⟩
      rintro (hend | hstore)
      · exact h.leaves (.inl hend)
      · rcases List.mem_or_eq_of_mem_set hstore with hstore | hstore
        · exact h.leaves (.inr hstore)
        · cases hstore
  | @resumes i t' hi hs =>
      obtain ⟨hcoro, hstatus, hlock, -⟩ := resumeCall_cases hs
      have hnever : NeverPaused t' :=
        ⟨hstatus ▸ h.neverPaused.status, hlock ▸ h.neverPaused.lock, hcoro ▸ h.neverPaused.coro⟩
      exact ⟨hnever, fun _ => (leaves_iff hnever).mpr
        (.inr (.inr (hasMessage_of_resumeCall hr hs)))⟩
  | storesEnd hi =>
      exact ⟨h.neverPaused, fun _ => h.leaves (.inr (List.mem_of_getElem? hi))⟩

theorem reachable_woken (h : machine.Reachable Orderly s) : Woken s := by
  refine h.invariant ⟨⟨nofun, ⟨nofun, nofun⟩, nofun⟩, fun _ => rfl⟩ ?_
  intro s a s' hr hi hg hs
  have htask := task_reachable hr
  exact (step_moved hs).woken hg (reachable_receivers htask) (reachable_lifecycle htask)
    (reachable_located hr) hi

/-- **`end_task()` ends the task, if nothing comes too early.** In every run without `pause()`
in which the coroutine never reads a false `is_end` between the `resume()` and the last store of
an `end_task()`: once `is_end` is stored and the mutex is free, a coroutine that has not finished
finishes without any further call. -/
theorem end_task_ends {s : State} (h : machine.Reachable Orderly s) (hend : s.isEnd = true)
    (ha : s.task.coro.active = true) (hlock : s.task.lock = none) :
    ∃ s' outcome, machine.Steps Own s s' ∧ s'.task.coro = .finished outcome :=
  exists_end _ (reachable_receivers (task_reachable h)) (reachable_located h) hend ha hlock
    ((reachable_woken h).leaves (.inl hend)) (Nat.le_refl _)

/-- It does for a coroutine that `end_task()` finds in its wait. -/
theorem end_task_ends_from_race :
    ∃ s : State, machine.Reachable Orderly s ∧ s.isEnd = true ∧
      (∃ l, s.task.coro = .waitInput l .racing) ∧
      ∃ s' outcome, machine.Steps Own s s' ∧ s'.task.coro = .finished outcome := by
  obtain ⟨s, hs, hp⟩ := Machine.reachable_of_execWithin (M := machine) (G := Orderly)
    (l := toRace ++ [.endTask 11, .advance 0, .advance 0, .advance 0])
    (p := fun s => s.isEnd && decide (s.task.lock = none) &&
      decide (s.task.coro = .waitInput .waitInput .racing)) (by decide)
  simp only [Bool.and_eq_true, decide_eq_true_eq] at hp
  obtain ⟨⟨hend, hlock⟩, hcoro⟩ := hp
  have ha : s.task.coro.active = true := by rw [hcoro]; rfl
  exact ⟨s, hs, hend, ⟨_, hcoro⟩, end_task_ends hs hend ha hlock⟩

end CppCode.Task.TestTask
