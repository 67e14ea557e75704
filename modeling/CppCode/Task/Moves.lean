import CppCode.Task.Model

/-!
# CppCode.Task.Moves

**What a step can do.** `Moved` lists the branches of one step of a task, each with
the conditions under which it is taken and the state it leaves, and `step_moved`
says that there are no others. Every invariant of the task is a case analysis over
this list; nothing else unfolds the step functions.
-/

namespace CppCode.Task

open Concurrency

variable {T Loc : Type}

/-- A step of the coroutine, with the choice it was taken by. -/
inductive CoroMoved (B : Body T Loc) (s : State T Loc) : Choice → State T Loc → Prop
  | isStatus {l : Loc} {status : TaskStatus} (hc : s.coro = .body l)
      (ho : B.op l = .isStatus status) (hl : s.lock = none) :
      CoroMoved B s .go (answer B s l (.bool (s.currentStatus == status)))
  | setStatus {l : Loc} {status : TaskStatus} (hc : s.coro = .body l)
      (ho : B.op l = .setStatus status) (hl : s.lock = none) :
      CoroMoved B s .go
        (answer B { s with currentStatus := (setStatus s.currentStatus status).2 } l
          (.bool (setStatus s.currentStatus status).1))
  | whenCancel {l : Loc} {b : Bool} (hc : s.coro = .body l) (ho : B.op l = .whenCancel)
      (hm : B.mayAnswer .whenCancel b = true) :
      CoroMoved B s (.hook b) (answer B s l (.bool b))
  | asyncSleep {l : Loc} (hc : s.coro = .body l) (ho : B.op l = .asyncSleep) :
      CoroMoved B s .go (answer B s l .unit)
  | external {l : Loc} {n : Nat} (hc : s.coro = .body l) (ho : B.op l = .external) :
      CoroMoved B s (.external n) (answer B s l (.nat n))
  | enterResume {l : Loc} (hc : s.coro = .body l) (ho : B.op l = .asyncWaitForResume) :
      CoroMoved B s .go { s with coro := .waitResume l .checkPaused }
  | enterInput {l : Loc} (hc : s.coro = .body l) (ho : B.op l = .waitForInputParameters) :
      CoroMoved B s .go { s with coro := .waitInput l .startInput }
  | coReturn {l : Loc} {result : TaskResult} (hc : s.coro = .body l)
      (ho : B.op l = .coReturn result) :
      CoroMoved B s .go { s with coro := .finished (some result) }
  | throw {l : Loc} (hc : s.coro = .body l) (ho : B.op l = .throw) :
      CoroMoved B s .go { s with coro := .finished none }
  | paused {l : Loc} (hc : s.coro = .waitResume l .checkPaused) (hl : s.lock = none)
      (hs : s.currentStatus = .paused) :
      CoroMoved B s .go { s with coro := .waitResume l .whenPause }
  | notPaused {l : Loc} (hc : s.coro = .waitResume l .checkPaused) (hl : s.lock = none)
      (hs : s.currentStatus ≠ .paused) :
      CoroMoved B s .go (answer B s l (.bool true))
  | whenPause {l : Loc} (hc : s.coro = .waitResume l .whenPause)
      (hm : B.mayAnswer .whenPause true = true) :
      CoroMoved B s (.hook true) { s with coro := .waitResume l .startReceive }
  | whenPauseFails {l : Loc} (hc : s.coro = .waitResume l .whenPause)
      (hm : B.mayAnswer .whenPause false = true) :
      CoroMoved B s (.hook false) (answer B s l (.bool false))
  | startReceive {l : Loc} {c : Channel 1 TaskCommand} (hc : s.coro = .waitResume l .startReceive)
      (hr : s.controlChannel.startReceive = some c) :
      CoroMoved B s .go { s with controlChannel := c, coro := .waitResume l .receiving }
  | tookResume {l : Loc} {c : Channel 1 TaskCommand} (hc : s.coro = .waitResume l .receiving)
      (hr : s.controlChannel.take = some (.resume, c)) :
      CoroMoved B s .go { s with controlChannel := c, coro := .waitResume l .whenResume }
  | tookPause {l : Loc} {c : Channel 1 TaskCommand} (hc : s.coro = .waitResume l .receiving)
      (hr : s.controlChannel.take = some (.pause, c)) :
      CoroMoved B s .go { s with controlChannel := c, coro := .waitResume l .checkPaused }
  | tookCancel {l : Loc} {c : Channel 1 TaskCommand} (hc : s.coro = .waitResume l .receiving)
      (hr : s.controlChannel.take = some (.cancel, c)) :
      CoroMoved B s .go (answer B { s with controlChannel := c } l (.bool false))
  | whenResume {l : Loc} (hc : s.coro = .waitResume l .whenResume)
      (hm : B.mayAnswer .whenResume true = true) :
      CoroMoved B s (.hook true) { s with coro := .waitResume l .setRunning }
  | whenResumeFails {l : Loc} (hc : s.coro = .waitResume l .whenResume)
      (hm : B.mayAnswer .whenResume false = true) :
      CoroMoved B s (.hook false) (answer B s l (.bool false))
  | setRunning {l : Loc} (hc : s.coro = .waitResume l .setRunning) (hl : s.lock = none) :
      CoroMoved B s .go
        (answer B { s with currentStatus := (Task.setStatus s.currentStatus .running).2 } l
          (.bool (Task.setStatus s.currentStatus .running).1))
  | startInput {l : Loc} {c : Channel 1 T} (hc : s.coro = .waitInput l .startInput)
      (hr : s.inputChannel.startReceive = some c) :
      CoroMoved B s .go { s with inputChannel := c, coro := .waitInput l .startControl }
  | startControl {l : Loc} {c : Channel 1 TaskCommand} (hc : s.coro = .waitInput l .startControl)
      (hr : s.controlChannel.startReceive = some c) :
      CoroMoved B s .go { s with controlChannel := c, coro := .waitInput l .racing }
  | inputWins {l : Loc} {value : T} {c : Channel 1 T} (hc : s.coro = .waitInput l .racing)
      (hr : s.inputChannel.take = some (value, c)) :
      CoroMoved B s .inputWins
        ((answer B { s with inputChannel := c, controlChannel := s.controlChannel.cancelReceive }
          l (.input (.ok value))).log (.input value))
  | controlWins {l : Loc} {command : TaskCommand} {c : Channel 1 TaskCommand}
      (hc : s.coro = .waitInput l .racing) (hr : s.controlChannel.take = some (command, c)) :
      CoroMoved B s .controlWins
        (answer B { s with controlChannel := c, inputChannel := s.inputChannel.cancelReceive }
          l (.input (.error (commandError B.name command))))

/-- A step of the whole system, one constructor for each branch. -/
inductive Moved (B : Body T Loc) (s : State T Loc) : Action T → State T Loc → Prop
  | runRefused (hl : s.lock = none) (hs : s.currentStatus ≠ .initial) :
      Moved B s .run (s.log (.returned .run false))
  | runStarts (hl : s.lock = none) (hs : s.currentStatus = .initial) :
      Moved B s .run { s with currentStatus := .running, lock := some .post }
  | posted (hl : s.lock = some .post) :
      Moved B s .post
        ({ s with lock := none, result := .pending, coro := .body B.start }.log
          (.returned .run true))
  | postThrew (hl : s.lock = some .post) :
      Moved B s .postThrows ({ s with lock := none }.log .runThrew)
  | pauseRefused (hl : s.lock = none) (hs : s.currentStatus ≠ .running)
      (hs' : s.currentStatus ≠ .paused) : Moved B s .pause (s.log (.returned .pause false))
  | pauseStarts (hl : s.lock = none) (hs : s.currentStatus = .running ∨ s.currentStatus = .paused) :
      Moved B s .pause { s with lock := some (.send .pause) }
  | cancelDone (hl : s.lock = none)
      (hs : s.currentStatus = .completed ∨ s.currentStatus = .failed) :
      Moved B s .cancel (s.log (.returned .cancel true))
  | cancelRefused (hl : s.lock = none) (hs : s.currentStatus = .initial) :
      Moved B s .cancel (s.log (.returned .cancel false))
  | cancelStarts (hl : s.lock = none)
      (hs : s.currentStatus = .running ∨ s.currentStatus = .paused ∨
        s.currentStatus = .cancelled) :
      Moved B s .cancel { s with lock := some (.send .cancel) }
  | sent {r : Request} {c : Channel 1 TaskCommand} (hl : s.lock = some (.send r))
      (hc : s.controlChannel.trySend r.command = some c) :
      Moved B s .send { s with controlChannel := c, lock := some (.store r) }
  | sendFailed {r : Request} (hl : s.lock = some (.send r))
      (hc : s.controlChannel.trySend r.command = none) :
      Moved B s .send ({ s with lock := none }.log (.returned r.call false))
  | stored {r : Request} (hl : s.lock = some (.store r)) : Moved B s .store (store s r)
  | resumeStarts : Moved B s .resume { s with resuming := s.resuming ++ [s.history.length] }
  | resumed {i stamp : Nat} {c : Channel 1 TaskCommand} (hi : s.resuming[i]? = some stamp)
      (hc : s.controlChannel.trySend .resume = some c) :
      Moved B s (.resumeSend i)
        ({ s with controlChannel := c, resuming := s.resuming.eraseIdx i }.log
          (.returned (.resume stamp) true))
  | resumeFailed {i stamp : Nat} (hi : s.resuming[i]? = some stamp)
      (hc : s.controlChannel.trySend .resume = none) :
      Moved B s (.resumeSend i)
        ({ s with resuming := s.resuming.eraseIdx i }.log (.returned (.resume stamp) false))
  | inputSent {value : T} {c : Channel 1 T} (hc : s.inputChannel.trySend value = some c) :
      Moved B s (.sendInputParameters value)
        ({ s with inputChannel := c }.log (.returned (.sendInputParameters value) true))
  | inputRefused {value : T} (hc : s.inputChannel.trySend value = none) :
      Moved B s (.sendInputParameters value)
        (s.log (.returned (.sendInputParameters value) false))
  | polled (hl : s.lock = none)
      (hr : s.cachedResult = none → ∀ outcome, s.result ≠ .ready outcome) :
      Moved B s .getCurrentStatus (s.log (.status s.currentStatus))
  | consumed {outcome : Outcome} (hl : s.lock = none) (hn : s.cachedResult = none)
      (hr : s.result = .ready outcome) :
      Moved B s .getCurrentStatus
        (({ s with
            result := .invalid
            cachedResult := some (outcome.getD .failure)
            currentStatus := statusOf outcome }.log .resultGot).log (.status (statusOf outcome)))
  | setStatus (status : TaskStatus) (hl : s.lock = none) :
      Moved B s (.setStatus status)
        { s with currentStatus := (setStatus s.currentStatus status).2 }
  | completed {outcome : Outcome} (hc : s.coro = .finished outcome) (hr : s.result = .pending) :
      Moved B s .complete { s with result := .ready outcome }
  | coro {choice : Choice} {s' : State T Loc} (hc : CoroMoved B s choice s') :
      Moved B s (.coro choice) s'

variable {B : Body T Loc} {s s' : State T Loc}

theorem locked_eq_some {k : State T Loc → State T Loc} (h : locked s k = some s') :
    s.lock = none ∧ k s = s' := by
  simpa only [locked, Option.ite_none_right_eq_some, Option.some.injEq] using h

theorem waitResumeStep_moved {l : Loc} {pc : ResumePc} {choice : Choice}
    (hc : s.coro = .waitResume l pc) (h : waitResumeStep B s l pc choice = some s') :
    CoroMoved B s choice s' := by
  unfold waitResumeStep at h
  split at h
  · split at h
    · split at h
      · obtain rfl := Option.some.inj h
        exact .paused hc ‹_› ‹_›
      · obtain rfl := Option.some.inj h
        exact .notPaused hc ‹_› ‹_›
    · cases h
  · rename_i b
    split at h
    · cases b with
      | true =>
          obtain rfl := Option.some.inj h
          exact .whenPause hc ‹_›
      | false =>
          obtain rfl := Option.some.inj h
          exact .whenPauseFails hc ‹_›
    · cases h
  · split at h
    · obtain rfl := Option.some.inj h
      exact .startReceive hc ‹_›
    · cases h
  · split at h
    · obtain rfl := Option.some.inj h
      exact .tookResume hc ‹_›
    · obtain rfl := Option.some.inj h
      exact .tookPause hc ‹_›
    · obtain rfl := Option.some.inj h
      exact .tookCancel hc ‹_›
    · cases h
  · rename_i b
    split at h
    · cases b with
      | true =>
          obtain rfl := Option.some.inj h
          exact .whenResume hc ‹_›
      | false =>
          obtain rfl := Option.some.inj h
          exact .whenResumeFails hc ‹_›
    · cases h
  · split at h
    · obtain rfl := Option.some.inj h
      exact .setRunning hc ‹_›
    · cases h
  · cases h

theorem waitInputStep_moved {l : Loc} {pc : InputPc} {choice : Choice}
    (hc : s.coro = .waitInput l pc) (h : waitInputStep B s l pc choice = some s') :
    CoroMoved B s choice s' := by
  unfold waitInputStep at h
  split at h
  · split at h
    · obtain rfl := Option.some.inj h
      exact .startInput hc ‹_›
    · cases h
  · split at h
    · obtain rfl := Option.some.inj h
      exact .startControl hc ‹_›
    · cases h
  · split at h
    · obtain rfl := Option.some.inj h
      exact .inputWins hc ‹_›
    · cases h
  · split at h
    · obtain rfl := Option.some.inj h
      exact .controlWins hc ‹_›
    · cases h
  · cases h

theorem bodyStep_moved {l : Loc} {op : Op} {choice : Choice} (hc : s.coro = .body l)
    (ho : B.op l = op) (h : bodyStep B s l op choice = some s') : CoroMoved B s choice s' := by
  unfold bodyStep at h
  split at h
  · obtain ⟨hl, rfl⟩ : s.lock = none ∧ _ := by
      simpa only [Option.ite_none_right_eq_some, Option.some.injEq] using h
    exact .isStatus hc ho hl
  · obtain ⟨hl, rfl⟩ : s.lock = none ∧ _ := by
      simpa only [Option.ite_none_right_eq_some, Option.some.injEq] using h
    exact .setStatus hc ho hl
  · obtain ⟨hm, rfl⟩ : B.mayAnswer .whenCancel _ = true ∧ _ := by
      simpa only [Option.ite_none_right_eq_some, Option.some.injEq] using h
    exact .whenCancel hc ho hm
  · obtain rfl := Option.some.inj h
    exact .asyncSleep hc ho
  · obtain rfl := Option.some.inj h
    exact .enterResume hc ho
  · obtain rfl := Option.some.inj h
    exact .enterInput hc ho
  · obtain rfl := Option.some.inj h
    exact .external hc ho
  · obtain rfl := Option.some.inj h
    exact .coReturn hc ho
  · obtain rfl := Option.some.inj h
    exact .throw hc ho
  · cases h

theorem coroStep_moved {choice : Choice} (h : coroStep B s choice = some s') :
    CoroMoved B s choice s' := by
  unfold coroStep at h
  split at h
  · cases h
  · cases h
  · exact bodyStep_moved ‹_› rfl h
  · exact waitResumeStep_moved ‹_› h
  · exact waitInputStep_moved ‹_› h

theorem pollResult_cases (s : State T Loc) :
    ((s.cachedResult = none → ∀ outcome, s.result ≠ .ready outcome) ∧ pollResult s = s) ∨
      ∃ outcome, s.cachedResult = none ∧ s.result = .ready outcome ∧
        pollResult s =
          { s with
            result := .invalid
            cachedResult := some (outcome.getD .failure)
            currentStatus := statusOf outcome }.log .resultGot := by
  cases hc : s.cachedResult with
  | some r => exact .inl ⟨nofun, by simp [pollResult, hc]⟩
  | none =>
      cases hr : s.result with
      | ready outcome => exact .inr ⟨outcome, rfl, rfl, by simp [pollResult, hc, hr]⟩
      | invalid | pending => exact .inl ⟨fun _ _ => nofun, by simp [pollResult, hc, hr]⟩

/-- **Inversion.** Every step is one of the branches listed in `Moved`. -/
theorem step_moved {a : Action T} (h : step B s a = some s') : Moved B s a s' := by
  cases a with
  | run =>
      obtain ⟨hl, rfl⟩ := locked_eq_some h
      by_cases hs : s.currentStatus = .initial
      · simp only [run, hs, ne_eq, not_true_eq_false, if_false]
        exact .runStarts hl hs
      · simp only [run, ne_eq, hs, not_false_eq_true, if_true]
        exact .runRefused hl hs
  | post =>
      simp only [step] at h
      split at h
      · obtain rfl := Option.some.inj h
        exact .posted ‹_›
      · cases h
  | postThrows =>
      simp only [step] at h
      split at h
      · obtain rfl := Option.some.inj h
        exact .postThrew ‹_›
      · cases h
  | pause =>
      obtain ⟨hl, rfl⟩ := locked_eq_some h
      unfold pause
      split
      · exact .pauseRefused hl (‹_ ∧ _›).1 (‹_ ∧ _›).2
      · exact .pauseStarts hl (by cases hs : s.currentStatus <;> simp_all)
  | cancel =>
      obtain ⟨hl, rfl⟩ := locked_eq_some h
      unfold cancel
      split
      · exact .cancelDone hl ‹_›
      · split
        · exact .cancelRefused hl (by cases hs : s.currentStatus <;> simp_all)
        · exact .cancelStarts hl (by cases hs : s.currentStatus <;> simp_all)
  | send =>
      simp only [step] at h
      split at h
      · obtain rfl := Option.some.inj h
        unfold send
        split
        · exact .sent ‹_› ‹_›
        · exact .sendFailed ‹_› ‹_›
      · cases h
  | store =>
      simp only [step] at h
      split at h
      · obtain rfl := Option.some.inj h
        exact .stored ‹_›
      · cases h
  | resume =>
      obtain rfl := Option.some.inj h
      exact .resumeStarts
  | resumeSend i =>
      simp only [step, resumeSend] at h
      split at h
      · cases h
      · split at h
        · obtain rfl := Option.some.inj h
          exact .resumed ‹_› ‹_›
        · obtain rfl := Option.some.inj h
          exact .resumeFailed ‹_› ‹_›
  | sendInputParameters value =>
      obtain rfl := Option.some.inj h
      unfold sendInputParameters
      split
      · exact .inputSent ‹_›
      · exact .inputRefused ‹_›
  | getCurrentStatus =>
      obtain ⟨hl, rfl⟩ := locked_eq_some h
      unfold getCurrentStatus
      obtain ⟨hr, hp⟩ | ⟨outcome, hn, hr, hp⟩ := pollResult_cases s
      · rw [hp]
        exact .polled hl hr
      · rw [hp]
        exact .consumed hl hn hr
  | setStatus status =>
      simp only [step] at h
      obtain ⟨hl, rfl⟩ := locked_eq_some h
      exact .setStatus status hl
  | complete =>
      simp only [step, complete] at h
      split at h
      · obtain rfl := Option.some.inj h
        exact .completed ‹_› ‹_›
      · cases h
  | coro choice => exact .coro (coroStep_moved h)

end CppCode.Task
