import CppCode.Task.Model

/-!
# CppCode.Task.OtaTask

The over-the-air update task (`behaviortree_test/026.ota_state/026.ota_state.cpp`):
a loop that leaves on cancellation, waits while it is paused, and acts on the next
input parameter.
-/

namespace CppCode.Task

open Concurrency

/-- `OtaState`; `undeclared` stands for the values of the enumeration that have no
enumerator. -/
inductive OtaState
  | idle
  | downloading
  | verifying
  | updating
  | completed
  | failed
  | undeclared (value : Nat)
  deriving Repr, DecidableEq

/-- The locations of `OtaTask::run_coroutine`. -/
inductive OtaLoc
  | loopHead
  | whenCancel
  | waitResume
  | waitInput
  | finish (result : TaskResult)
  deriving Repr, DecidableEq

/-- The `switch` over the received parameter. -/
def OtaLoc.afterInput : OtaState → OtaLoc
  | .idle => .finish .success
  | .downloading | .verifying | .updating => .loopHead
  | .completed => .finish .success
  | .failed => .finish .failure
  | .undeclared _ => .finish .failure

/-- Where `OtaTask::run_coroutine` goes on. -/
def OtaLoc.next : OtaLoc → Answer OtaState → OtaLoc
  | .loopHead, .bool cancelled => if cancelled then .whenCancel else .waitResume
  | .whenCancel, .bool done => if done then .finish .cancelled else .whenCancel
  | .waitResume, .bool resumed => if resumed then .waitInput else .loopHead
  | .waitInput, .input (.ok value) => .afterInput value
  | .waitInput, .input (.error _) => .loopHead
  | l, _ => l

def OtaLoc.op : OtaLoc → Op
  | .loopHead => .isStatus .cancelled
  | .whenCancel => .whenCancel
  | .waitResume => .asyncWaitForResume
  | .waitInput => .waitForInputParameters
  | .finish result => .coReturn result

/-- `OtaTask`. Its three hooks only log, and return true. -/
def otaTask : Body OtaState OtaLoc where
  name := "OtaTask"
  start := .loopHead
  op := OtaLoc.op
  next := OtaLoc.next
  mayAnswer := fun _ answer => answer

theorem otaTask_never_sets_status (l : OtaLoc) (status : TaskStatus) :
    otaTask.op l ≠ .setStatus status := by
  cases l <;> nofun

/-! ### Runs of the coroutine -/

/-- `run()`, up to and including the launch of the coroutine. -/
def launch : List (Action OtaState) := [.run, .post]

/-- From the loop head to the race of the two receives, not paused. -/
def toRace : List (Action OtaState) :=
  [.coro .go, .coro .go, .coro .go, .coro .go, .coro .go, .coro .go]

/-- From the loop head to the receive in `async_wait_for_resume()`, paused. -/
def toResumeReceive : List (Action OtaState) :=
  [.coro .go, .coro .go, .coro .go, .coro (.hook true), .coro .go]

/-- The coroutine receives `value`, and finishes on it. -/
def finishOn (value : OtaState) : List (Action OtaState) :=
  [.sendInputParameters value, .coro .inputWins, .coro .go]

example : ((machine otaTask).exec State.start (launch ++ toRace ++ finishOn .idle)).any
    (fun s => s.coro = .finished (some .success)) = true := by decide

end CppCode.Task
