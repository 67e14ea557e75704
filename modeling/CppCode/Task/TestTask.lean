import CppCode.Task.Lifecycle

/-!
# CppCode.Task.TestTask

The task of `behaviortree_test/024.test_task/024.test_task.cpp`: it waits for input parameters
until `end_task()` has set `is_end`. A `TestTask` is the task of `CppCode.Task.Model` with two
members of its own.

* `run_coroutine()` reads `is_end` at its loop head and `final_result_` on its way out. These
  reads are the steps `external` of the coroutine, and here they answer with the members.
* `end_task()` stores the result, calls `resume()`, and stores `is_end` last. `resume()` takes no
  mutex, so its `try_send` is the only step of it that anybody sees.
* `set_status` is protected, and nothing but `async_wait_for_resume()` calls it.
-/

namespace CppCode.Task.TestTask

open Concurrency

/-- The locations of `TestTask::run_coroutine`. -/
inductive Loc
  /-- `while (!is_end)`. -/
  | loopHead
  | checkCancelled
  | whenCancel
  | waitResume
  | waitInput
  /-- `co_return final_result_`, before the load. -/
  | readResult
  | finish (result : TaskResult)
  deriving Repr, DecidableEq

/-- The value by which a read of `final_result_` answers. -/
def resultCode : TaskResult → Nat
  | .success => 0
  | .failure => 1
  | .cancelled => 2

def resultOf : Nat → TaskResult
  | 0 => .success
  | 1 => .failure
  | _ => .cancelled

/-- Where `TestTask::run_coroutine` goes on. A received value is only logged. -/
def Loc.next : Loc → Answer Int → Loc
  | .loopHead, .nat ended => if ended = 0 then .checkCancelled else .readResult
  | .checkCancelled, .bool cancelled => if cancelled then .whenCancel else .waitResume
  | .whenCancel, .bool done => if done then .finish .cancelled else .whenCancel
  | .waitResume, .bool resumed => if resumed then .waitInput else .finish .cancelled
  | .waitInput, .input _ => .loopHead
  | .readResult, .nat code => .finish (resultOf code)
  | l, _ => l

def Loc.op : Loc → Op
  | .loopHead => .external
  | .checkCancelled => .isStatus .cancelled
  | .whenCancel => .whenCancel
  | .waitResume => .asyncWaitForResume
  | .waitInput => .waitForInputParameters
  | .readResult => .external
  | .finish result => .coReturn result

/-- `TestTask::run_coroutine`. The three hooks only log, and return true. -/
def testTask : Body Int Loc where
  name := "TestTask"
  start := .loopHead
  op := Loc.op
  next := Loc.next
  mayAnswer := fun _ answer => answer

/-- Positions inside `end_task()`, named after the step that comes next. -/
inductive EndPc
  | storeResult (value : Int)
  | resume
  | storeEnd
  deriving Repr, DecidableEq

/-- The task, its members and the calls of `end_task()` in progress. -/
structure State where
  task : Task.State Int Loc
  finalResult : TaskResult
  isEnd : Bool
  ending : List EndPc

inductive Action
  | task (a : Task.Action Int)
  | endTask (value : Int)
  /-- The `i`-th `end_task()` in progress takes its next step. -/
  | advance (i : Nat)
  deriving DecidableEq

/-- A constructed `TestTask`. -/
def State.start : State where
  task := .start
  finalResult := .success
  isEnd := false
  ending := []

/-- What a read of a member answers to the coroutine. -/
def State.member (s : State) : Nat :=
  match s.task.coro with
  | .body .loopHead => s.isEnd.toNat
  | .body .readResult => resultCode s.finalResult
  | _ => 0

/-- One step of the base class. -/
def taskStep (s : State) (a : Task.Action Int) : Option State :=
  match Task.step testTask s.task a with
  | some task => some { s with task := task }
  | none => none

/-- `resume()` from its start to its return. -/
def resumeCall (t : Task.State Int Loc) : Option (Task.State Int Loc) :=
  match Task.step testTask t .resume with
  | some t' => Task.step testTask t' (.resumeSend t.resuming.length)
  | none => none

/-- The next step of the `i`-th `end_task()`, which is at `pc`. -/
def endStep (s : State) (i : Nat) : EndPc → Option State
  | .storeResult value =>
      some { s with
        finalResult := if value > 10 then .success else .failure
        ending := s.ending.set i .resume }
  | .resume =>
      match resumeCall s.task with
      | some task => some { s with task := task, ending := s.ending.set i .storeEnd }
      | none => none
  | .storeEnd => some { s with isEnd := true, ending := s.ending.eraseIdx i }

/-- One step of the whole system. -/
def step (s : State) : Action → Option State
  | .task (.setStatus _) => none
  | .task (.coro (.external n)) => if n = s.member then taskStep s (.coro (.external n)) else none
  | .task a => taskStep s a
  | .endTask value => some { s with ending := s.ending ++ [.storeResult value] }
  | .advance i =>
      match s.ending[i]? with
      | some pc => endStep s i pc
      | none => none

def machine : Machine State Action where
  init := .start
  step := step

/-! ### What a step can do -/

/-- A step, by the party that takes it. -/
inductive Moved (s : State) : Action → State → Prop
  | task {a : Task.Action Int} {task : Task.State Int Loc} (ha : ∀ choice, a ≠ .coro choice)
      (hset : ∀ status, a ≠ .setStatus status) (h : Task.step testTask s.task a = some task) :
      Moved s (.task a) { s with task := task }
  /-- A step of the coroutine; what it reads are the members. -/
  | coro {choice : Choice} {task : Task.State Int Loc}
      (h : coroStep testTask s.task choice = some task)
      (hread : ∀ n, choice = .external n → n = s.member) :
      Moved s (.task (.coro choice)) { s with task := task }
  | called (value : Int) :
      Moved s (.endTask value) { s with ending := s.ending ++ [.storeResult value] }
  | storesResult {i : Nat} {value : Int} (hi : s.ending[i]? = some (.storeResult value)) :
      Moved s (.advance i)
        { s with
          finalResult := if value > 10 then .success else .failure
          ending := s.ending.set i .resume }
  | resumes {i : Nat} {task : Task.State Int Loc} (hi : s.ending[i]? = some .resume)
      (h : resumeCall s.task = some task) :
      Moved s (.advance i) { s with task := task, ending := s.ending.set i .storeEnd }
  | storesEnd {i : Nat} (hi : s.ending[i]? = some .storeEnd) :
      Moved s (.advance i) { s with isEnd := true, ending := s.ending.eraseIdx i }

variable {s s' : State}

theorem taskStep_eq {a : Task.Action Int} (h : taskStep s a = some s') :
    ∃ task, Task.step testTask s.task a = some task ∧ s' = { s with task := task } := by
  rw [taskStep] at h
  split at h
  · exact ⟨_, ‹_›, (Option.some.inj h).symm⟩
  · cases h

theorem task_moved {a : Task.Action Int} (h : taskStep s a = some s')
    (ha : ∀ choice, a ≠ .coro choice) (hset : ∀ status, a ≠ .setStatus status) :
    Moved s (.task a) s' := by
  obtain ⟨task, htask, rfl⟩ := taskStep_eq h
  exact .task ha hset htask

theorem coro_moved {choice : Choice} (h : taskStep s (.coro choice) = some s')
    (hread : ∀ n, choice = .external n → n = s.member) : Moved s (.task (.coro choice)) s' := by
  obtain ⟨task, htask, rfl⟩ := taskStep_eq h
  exact .coro htask hread

/-- **Inversion.** Every step is one of the branches listed in `Moved`. -/
theorem step_moved {a : Action} (h : step s a = some s') : Moved s a s' := by
  cases a with
  | task a =>
      cases a with
      | setStatus => cases h
      | coro choice =>
          cases choice with
          | external n =>
              simp only [step] at h
              split at h
              next hn => exact coro_moved h fun m hm => by cases hm; exact hn
              next => cases h
          | _ => exact coro_moved h nofun
      | _ =>
          exact task_moved h (by intro _ hc; cases hc) (by intro _ hc; cases hc)
  | endTask value =>
      obtain rfl := Option.some.inj h
      exact .called value
  | advance i =>
      simp only [step] at h
      split at h
      next pc hi =>
        cases pc with
        | storeResult value =>
            obtain rfl := Option.some.inj h
            exact .storesResult hi
        | resume =>
            simp only [endStep] at h
            split at h
            · obtain rfl := Option.some.inj h
              exact .resumes hi ‹_›
            · cases h
        | storeEnd =>
            obtain rfl := Option.some.inj h
            exact .storesEnd hi
      next => cases h

end CppCode.Task.TestTask
