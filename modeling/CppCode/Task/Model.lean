import CppCode.Concurrency.Machine
import CppCode.Concurrency.Channel

/-!
# CppCode.Task.Model

The controllable coroutine task (`behaviortree_test/task/task.hpp`) as an
interleaving machine: any number of controllers that call `run()`, `pause()`,
`resume()`, `cancel()`, `send_input_parameters()` and `get_current_status()`, and
one coroutine.

* Every access to the status is made under `current_status_mutex_`, so a call that
  does nothing else under the mutex is one step, enabled while the mutex is free.
  `run()`, `pause()` and `cancel()` also touch the coroutine or a channel while
  they hold it; `State.lock` says how far the holder is. `resume()` takes no mutex.
* The channels have capacity 1. A receive that has its message may continue at any
  later time (`Concurrency.Channel`), and the two receives of
  `wait_for_input_parameters()` race: the one whose continuation runs first wins,
  and what the other one has received is dropped.
* The coroutine of a concrete task is a parameter (`Body`): a program over its own
  locations that uses the protected members of `Task`. The virtual hooks and
  whatever else a subclass reads answer through the action.

`State.history` and the start stamps in `State.resuming` are for specifications
only: no step reads them.
-/

namespace CppCode.Task

open Concurrency

inductive TaskCommand
  | cancel
  | pause
  | resume
  deriving Repr, DecidableEq

inductive TaskStatus
  | initial
  | running
  | completed
  | failed
  | cancelled
  | paused
  deriving Repr, DecidableEq

inductive TaskResult
  | success
  | failure
  | cancelled
  deriving Repr, DecidableEq

/-- How a coroutine ends: `co_return r`, or an exception (`none`). -/
abbrev Outcome := Option TaskResult

/-- `result_`: without shared state, or with one that is not yet, or is, ready. -/
inductive Future
  | invalid
  | pending
  | ready (outcome : Outcome)
  deriving Repr, DecidableEq

/-! ### The coroutine of a concrete task -/

/-- The virtual member functions that a subclass overrides. -/
inductive Hook
  | whenPause
  | whenResume
  | whenCancel
  deriving Repr, DecidableEq

/-- What `run_coroutine()` does at one of its locations. -/
inductive Op
  /-- One of `is_paused`, `is_cancelled`, …: is the status this one? -/
  | isStatus (status : TaskStatus)
  | setStatus (status : TaskStatus)
  | whenCancel
  | asyncSleep
  | asyncWaitForResume
  | waitForInputParameters
  /-- Anything that does not touch the task: members of the subclass, the clock. -/
  | external
  | coReturn (result : TaskResult)
  | throw
  deriving Repr, DecidableEq

/-- What an operation answers to the coroutine. -/
inductive Answer (T : Type)
  | unit
  | bool (b : Bool)
  | nat (n : Nat)
  | input (result : Except String T)

/-- A subclass of `Task<T>`: its name, its `run_coroutine()` over locations `Loc`,
and what its hooks may answer. -/
structure Body (T Loc : Type) where
  name : String
  start : Loc
  op : Loc → Op
  next : Loc → Answer T → Loc
  mayAnswer : Hook → Bool → Bool

/-- Positions inside `async_wait_for_resume()`. -/
inductive ResumePc
  | checkPaused
  | whenPause
  | startReceive
  | receiving
  | whenResume
  | setRunning
  deriving Repr, DecidableEq

/-- Positions inside `wait_for_input_parameters()`. -/
inductive InputPc
  | startInput
  | startControl
  | racing
  deriving Repr, DecidableEq

/-- The coroutine: not spawned, at a location of its own, inside one of the two
waiting functions (called at `l`), or finished. -/
inductive Coro (Loc : Type)
  | notSpawned
  | body (l : Loc)
  | waitResume (l : Loc) (pc : ResumePc)
  | waitInput (l : Loc) (pc : InputPc)
  | finished (outcome : Outcome)
  deriving Repr, DecidableEq

/-! ### The state -/

/-- The two requests that send a command and store a status under the mutex. -/
inductive Request
  | pause
  | cancel
  deriving Repr, DecidableEq

def Request.command : Request → TaskCommand
  | .pause => .pause
  | .cancel => .cancel

def Request.status : Request → TaskStatus
  | .pause => .paused
  | .cancel => .cancelled

/-- What the holder of the mutex does next. -/
inductive Critical
  /-- `run()`: post the coroutine. -/
  | post
  /-- `pause()` or `cancel()`: try to send the command. -/
  | send (r : Request)
  /-- `pause()` or `cancel()`: store the new status. -/
  | store (r : Request)
  deriving Repr, DecidableEq

/-- A call whose result the history records. `resume` carries the length of the
history at its start. -/
inductive Call (T : Type)
  | run
  | pause
  | resume (stamp : Nat)
  | cancel
  | sendInputParameters (value : T)
  deriving DecidableEq

inductive Event (T : Type)
  | returned (call : Call T) (result : Bool)
  | runThrew
  /-- `get_current_status()` returned. -/
  | status (status : TaskStatus)
  /-- `result_.get()` was executed. -/
  | resultGot
  /-- `wait_for_input_parameters()` returned this value. -/
  | input (value : T)
  deriving DecidableEq

def Request.call {T : Type} : Request → Call T
  | .pause => .pause
  | .cancel => .cancel

/-- The object and its coroutine. -/
structure State (T Loc : Type) where
  currentStatus : TaskStatus
  result : Future
  cachedResult : Option TaskResult
  inputChannel : Channel 1 T
  controlChannel : Channel 1 TaskCommand
  lock : Option Critical
  /-- The `resume()` calls that have not tried to send yet. -/
  resuming : List Nat
  coro : Coro Loc
  history : List (Event T)

/-- Which of the possible next steps the coroutine takes: the only one, or the one
in which a hook or the subclass answers so, or this receive of the two completes first. -/
inductive Choice
  | go
  | hook (answer : Bool)
  | external (answer : Nat)
  | inputWins
  | controlWins
  deriving Repr, DecidableEq

/-- What can happen next. -/
inductive Action (T : Type)
  | run
  /-- The holder of the mutex inside `run()`: `post_coroutine` returns. -/
  | post
  /-- The same, but `shared_from_this()` or `post_coroutine` throws. -/
  | postThrows
  | pause
  | cancel
  /-- The holder of the mutex inside `pause()` or `cancel()` calls `try_send`. -/
  | send
  /-- The same holder stores the status and returns. -/
  | store
  | resume
  | resumeSend (i : Nat)
  | sendInputParameters (value : T)
  | getCurrentStatus
  /-- `set_status` called by a member function of the subclass. -/
  | setStatus (status : TaskStatus)
  /-- The completion handler of the coroutine sets the promise. -/
  | complete
  | coro (choice : Choice)
  deriving DecidableEq

variable {T Loc : Type}

/-- A constructed task. -/
def State.start : State T Loc where
  currentStatus := .initial
  result := .invalid
  cachedResult := none
  inputChannel := .empty 1 T
  controlChannel := .empty 1 TaskCommand
  lock := none
  resuming := []
  coro := .notSpawned
  history := []

/-- Record an event. -/
def State.log (s : State T Loc) (e : Event T) : State T Loc :=
  { s with history := s.history ++ [e] }

@[simp] theorem State.inputChannel_log (s : State T Loc) (e : Event T) :
    (s.log e).inputChannel = s.inputChannel := rfl

theorem State.filterMap_log {α : Type} (s : State T Loc) (e : Event T) (f : Event T → Option α) :
    (s.log e).history.filterMap f = s.history.filterMap f ++ (f e).toList := by
  cases he : f e <;> simp [State.log, List.filterMap_append, he]

/-! ### The controllers -/

/-- The transition table of `set_status`: its answer and the status it leaves. -/
def setStatus (current status : TaskStatus) : Bool × TaskStatus :=
  if status = current then (true, current)
  else
    match current with
    | .initial =>
        match status with
        | .initial => (true, current)
        | .running => (true, .running)
        | .cancelled => (true, .cancelled)
        | .paused | .completed | .failed => (false, current)
    | .running =>
        match status with
        | .initial => (false, current)
        | .running => (true, current)
        | .paused => (true, .paused)
        | .cancelled => (true, .cancelled)
        | .completed => (true, .completed)
        | .failed => (true, .failed)
    | .paused =>
        match status with
        | .initial => (false, current)
        | .running => (true, .running)
        | .paused => (true, current)
        | .cancelled => (true, .cancelled)
        | .completed => (false, current)
        | .failed => (false, current)
    | .cancelled => (status == .cancelled, current)
    | .completed => (status == .completed, current)
    | .failed => (status == .failed, current)

/-- `run()` up to the launch of the coroutine. -/
def run (s : State T Loc) : State T Loc :=
  if s.currentStatus ≠ .initial then s.log (.returned .run false)
  else { s with currentStatus := .running, lock := some .post }

/-- `pause()` up to its `try_send`. -/
def pause (s : State T Loc) : State T Loc :=
  if s.currentStatus ≠ .running ∧ s.currentStatus ≠ .paused then s.log (.returned .pause false)
  else { s with lock := some (.send .pause) }

/-- `cancel()` up to its `try_send`. -/
def cancel (s : State T Loc) : State T Loc :=
  if s.currentStatus = .completed ∨ s.currentStatus = .failed then s.log (.returned .cancel true)
  else if s.currentStatus ≠ .running ∧ s.currentStatus ≠ .paused ∧ s.currentStatus ≠ .cancelled then
    s.log (.returned .cancel false)
  else { s with lock := some (.send .cancel) }

/-- The `try_send` of `pause()` or `cancel()`. -/
def send (s : State T Loc) (r : Request) : State T Loc :=
  match s.controlChannel.trySend r.command with
  | some c => { s with controlChannel := c, lock := some (.store r) }
  | none => { s with lock := none }.log (.returned r.call false)

/-- The end of `pause()` or `cancel()`. -/
def store (s : State T Loc) (r : Request) : State T Loc :=
  { s with currentStatus := r.status, lock := none }.log (.returned r.call true)

/-- The `try_send` of the `i`-th pending `resume()`, with which it returns. -/
def resumeSend (s : State T Loc) (i : Nat) : Option (State T Loc) :=
  match s.resuming[i]? with
  | none => none
  | some stamp =>
      match s.controlChannel.trySend .resume with
      | some c =>
          some ({ s with controlChannel := c, resuming := s.resuming.eraseIdx i }.log
            (.returned (.resume stamp) true))
      | none =>
          some ({ s with resuming := s.resuming.eraseIdx i }.log
            (.returned (.resume stamp) false))

def sendInputParameters (s : State T Loc) (value : T) : State T Loc :=
  match s.inputChannel.trySend value with
  | some c => { s with inputChannel := c }.log (.returned (.sendInputParameters value) true)
  | none => s.log (.returned (.sendInputParameters value) false)

/-- The status that `get_current_status()` derives from an outcome. -/
def statusOf : Outcome → TaskStatus
  | some .success => .completed
  | some .failure => .failed
  | some .cancelled => .cancelled
  | none => .failed

/-- `get_current_status()`, without its return: a ready future is consumed, once. -/
def pollResult (s : State T Loc) : State T Loc :=
  if s.cachedResult.isSome = true then s
  else
    match s.result with
    -- `get()` takes the outcome out of the future; an exception counts as `FAILURE`
    | .ready outcome =>
        { s with
          result := .invalid
          cachedResult := some (outcome.getD .failure)
          currentStatus := statusOf outcome }.log .resultGot
    | .invalid | .pending => s

def getCurrentStatus (s : State T Loc) : State T Loc :=
  (pollResult s).log (.status (pollResult s).currentStatus)

/-- The completion handler passed to `co_spawn`. -/
def complete (s : State T Loc) : Option (State T Loc) :=
  match s.coro, s.result with
  | .finished outcome, .pending => some { s with result := .ready outcome }
  | _, _ => none

/-! ### The coroutine -/

/-- The text of the error `wait_for_input_parameters()` returns for a command. -/
def commandError (name : String) : TaskCommand → String
  | .cancel => "Task " ++ name ++ " cancelled while waiting for input parameters"
  | .pause => "Task " ++ name ++ " paused while waiting for input parameters"
  | .resume => "Task " ++ name ++ " resumed while waiting for input parameters"

/-- The coroutine continues after the operation at `l`. -/
def answer (B : Body T Loc) (s : State T Loc) (l : Loc) (a : Answer T) : State T Loc :=
  { s with coro := .body (B.next l a) }

/-- One step of `async_wait_for_resume()`. -/
def waitResumeStep (B : Body T Loc) (s : State T Loc) (l : Loc) :
    ResumePc → Choice → Option (State T Loc)
  | .checkPaused, .go =>
      if s.lock = none then
        if s.currentStatus = .paused then some { s with coro := .waitResume l .whenPause }
        else some (answer B s l (.bool true))
      else none
  | .whenPause, .hook b =>
      if B.mayAnswer .whenPause b = true then
        if b = true then some { s with coro := .waitResume l .startReceive }
        else some (answer B s l (.bool false))
      else none
  | .startReceive, .go =>
      match s.controlChannel.startReceive with
      | some c => some { s with controlChannel := c, coro := .waitResume l .receiving }
      | none => none
  | .receiving, .go =>
      match s.controlChannel.take with
      | some (.resume, c) => some { s with controlChannel := c, coro := .waitResume l .whenResume }
      | some (.pause, c) => some { s with controlChannel := c, coro := .waitResume l .checkPaused }
      -- the branch for every other command
      | some (.cancel, c) => some (answer B { s with controlChannel := c } l (.bool false))
      | none => none
  | .whenResume, .hook b =>
      if B.mayAnswer .whenResume b = true then
        if b = true then some { s with coro := .waitResume l .setRunning }
        else some (answer B s l (.bool false))
      else none
  | .setRunning, .go =>
      if s.lock = none then
        let (ok, status) := setStatus s.currentStatus .running
        some (answer B { s with currentStatus := status } l (.bool ok))
      else none
  | _, _ => none

/-- One step of `wait_for_input_parameters()`. -/
def waitInputStep (B : Body T Loc) (s : State T Loc) (l : Loc) :
    InputPc → Choice → Option (State T Loc)
  | .startInput, .go =>
      match s.inputChannel.startReceive with
      | some c => some { s with inputChannel := c, coro := .waitInput l .startControl }
      | none => none
  | .startControl, .go =>
      match s.controlChannel.startReceive with
      | some c => some { s with controlChannel := c, coro := .waitInput l .racing }
      | none => none
  -- the receive that loses is cancelled, with the message it may already have
  | .racing, .inputWins =>
      match s.inputChannel.take with
      | some (value, c) =>
          some ((answer B
            { s with inputChannel := c, controlChannel := s.controlChannel.cancelReceive }
            l (.input (.ok value))).log (.input value))
      | none => none
  | .racing, .controlWins =>
      match s.controlChannel.take with
      | some (command, c) =>
          some (answer B { s with controlChannel := c, inputChannel := s.inputChannel.cancelReceive }
            l (.input (.error (commandError B.name command))))
      | none => none
  | _, _ => none

/-- One step of `run_coroutine()` at a location of its own. -/
def bodyStep (B : Body T Loc) (s : State T Loc) (l : Loc) : Op → Choice → Option (State T Loc)
  | .isStatus status, .go =>
      if s.lock = none then some (answer B s l (.bool (s.currentStatus == status))) else none
  | .setStatus status, .go =>
      if s.lock = none then
        let (ok, status) := setStatus s.currentStatus status
        some (answer B { s with currentStatus := status } l (.bool ok))
      else none
  | .whenCancel, .hook b =>
      if B.mayAnswer .whenCancel b = true then some (answer B s l (.bool b)) else none
  | .asyncSleep, .go => some (answer B s l .unit)
  | .asyncWaitForResume, .go => some { s with coro := .waitResume l .checkPaused }
  | .waitForInputParameters, .go => some { s with coro := .waitInput l .startInput }
  | .external, .external n => some (answer B s l (.nat n))
  | .coReturn result, .go => some { s with coro := .finished (some result) }
  | .throw, .go => some { s with coro := .finished none }
  | _, _ => none

def coroStep (B : Body T Loc) (s : State T Loc) (choice : Choice) : Option (State T Loc) :=
  match s.coro with
  | .notSpawned | .finished _ => none
  | .body l => bodyStep B s l (B.op l) choice
  | .waitResume l pc => waitResumeStep B s l pc choice
  | .waitInput l pc => waitInputStep B s l pc choice

/-! ### The machine -/

/-- A step that has to take the mutex first. -/
def locked (s : State T Loc) (k : State T Loc → State T Loc) : Option (State T Loc) :=
  if s.lock = none then some (k s) else none

/-- One step of the whole system. -/
def step (B : Body T Loc) (s : State T Loc) : Action T → Option (State T Loc)
  | .run => locked s run
  | .post =>
      match s.lock with
      | some .post =>
          some ({ s with lock := none, result := .pending, coro := .body B.start }.log
            (.returned .run true))
      | _ => none
  | .postThrows =>
      match s.lock with
      | some .post => some ({ s with lock := none }.log .runThrew)
      | _ => none
  | .pause => locked s pause
  | .cancel => locked s cancel
  | .send =>
      match s.lock with
      | some (.send r) => some (send s r)
      | _ => none
  | .store =>
      match s.lock with
      | some (.store r) => some (store s r)
      | _ => none
  -- `resume()` takes no mutex: its start and its `try_send` are separate steps
  | .resume => some { s with resuming := s.resuming ++ [s.history.length] }
  | .resumeSend i => resumeSend s i
  | .sendInputParameters value => some (sendInputParameters s value)
  | .getCurrentStatus => locked s getCurrentStatus
  | .setStatus status =>
      locked s fun s => { s with currentStatus := (setStatus s.currentStatus status).2 }
  | .complete => complete s
  | .coro choice => coroStep B s choice

/-- `Task<T>` with the coroutine `B`. -/
def machine (B : Body T Loc) : Machine (State T Loc) (Action T) where
  init := .start
  step := step B

end CppCode.Task
