import CppCode.Concurrency.Machine

/-!
# CppCode.ThreadPool.Model

The thread pool (`utils/thread_pool/thread_pool.hpp`) as an interleaving machine: any
number of threads that call `addLongRunningTask()`, `post()`, `post_coro()` and
`stop()`, the long-running tasks (which may call these functions too), and the small
task workers that run `io_context_.run()`.

* `State.calls` holds the calls in progress, each with its caller and its position.
  A call that returns leaves the list. `long_running_workers_mutex_` is the only
  mutex; who holds it can be read off the positions.
* A queued handler is executed by some worker that is idle, in any order. After
  `io_context::stop()` an idle worker returns from `run()`, and what is queued stays
  queued.
* The handler that `post_coro()` queues spawns the coroutine on the same
  `io_context_` and then blocks in `fut.get()`. The coroutine makes progress only
  through handlers of its own: one for each time it was suspended, the last of which
  makes the future ready.

`State.history` is for specifications only: no step reads it.
-/

namespace CppCode.ThreadPool

open Concurrency

/-- What is submitted: a function, or a coroutine that is suspended so many times
before it completes. -/
inductive Job
  | post
  | postCoro (suspensions : Nat)
  deriving Repr, DecidableEq

/-- A handler queued on `io_context_`. -/
inductive Handler
  /-- The lambda of `post()`. -/
  | run (job : Nat)
  /-- The lambda of `post_coro()`. -/
  | spawn (job suspensions : Nat)
  /-- The next handler of a spawned coroutine. -/
  | resume (job suspensions : Nat)
  deriving Repr, DecidableEq

def Job.handler (id : Nat) : Job → Handler
  | .post => .run id
  | .postCoro suspensions => .spawn id suspensions

/-- A small task worker. -/
inductive Worker
  | idle
  | running (handler : Handler)
  /-- Blocked in `fut.get()` inside the lambda of `post_coro()`. -/
  | waiting (job : Nat)
  /-- `io_context_.run()` has returned. -/
  | exited
  deriving Repr, DecidableEq

/-- Who calls: some thread outside the pool, or a long-running task. -/
inductive Caller
  | external
  | task (t : Nat)
  deriving Repr, DecidableEq

/-- Positions inside the member functions, named after the step that comes next. -/
inductive Pc
  | addLock
  | addEmplace
  | addUnlock (t : Nat)
  | enqueue (id : Nat) (job : Job)
  | stopIo
  | stopJoinSmall
  | stopLock
  /-- The loop over the workers that are left: `request_stop()`. -/
  | stopLoop (rest : List Nat)
  /-- The same loop: `join()`. -/
  | stopJoin (t : Nat) (rest : List Nat)
  | stopClear
  | stopUnlock
  deriving Repr, DecidableEq

structure Call where
  caller : Caller
  pc : Pc
  deriving Repr, DecidableEq

/-- A call to make; `submit i` is `post()` or `post_coro()` of the `i`-th remaining job. -/
inductive Request
  | addLongRunningTask
  | submit (i : Nat)
  | stop
  deriving Repr, DecidableEq

/-- A call has returned. -/
inductive Event
  /-- `addLongRunningTask()`: true, for the task `t`, or false. -/
  | added (result : Option Nat)
  /-- `post()` or `post_coro()`: a future, or `nullopt`. -/
  | posted (result : Option Nat)
  /-- `stop()`, that won the compare-exchange or not. -/
  | stopped (won : Bool)
  deriving Repr, DecidableEq

structure State where
  isRunning : Bool
  /-- `long_running_workers_mutex_` is held. -/
  mutex : Bool
  longRunningWorkers : List Nat
  /-- The long-running tasks `0 … nextTask - 1` have been started. -/
  nextTask : Nat
  /-- The tasks on whose own `stop_source` `request_stop()` has been called. -/
  stopRequested : List Nat
  /-- The tasks that have returned, which ends their thread. -/
  finished : List Nat
  ioStopped : Bool
  queue : List Handler
  workers : List Worker
  nextJob : Nat
  /-- The jobs that have not been submitted yet. -/
  remaining : List Job
  /-- The jobs whose coroutine's future is ready. -/
  coroReady : List Nat
  /-- The jobs whose own future is ready. -/
  ready : List Nat
  calls : List Call
  history : List Event
  deriving DecidableEq

inductive Action
  | call (caller : Caller) (request : Request)
  /-- The `i`-th call in progress takes its next step. -/
  | advance (i : Nat)
  /-- A long-running task returns. -/
  | taskReturns (t : Nat)
  /-- Worker `w` takes the `k`-th queued handler. -/
  | take (w k : Nat)
  /-- Worker `w` gets to the end of its handler, or to `fut.get()`. -/
  | finish (w : Nat)
  /-- Worker `w` returns from `fut.get()`. -/
  | wake (w : Nat)
  /-- Worker `w` returns from `io_context_.run()`. -/
  | exit (w : Nat)
  deriving Repr, DecidableEq

/-- A constructed pool of `n` workers, and what will be submitted to it. -/
def State.start (n : Nat) (jobs : List Job) : State where
  isRunning := true
  mutex := false
  longRunningWorkers := []
  nextTask := 0
  stopRequested := []
  finished := []
  ioStopped := false
  queue := []
  workers := List.replicate n .idle
  nextJob := 0
  remaining := jobs
  coroReady := []
  ready := []
  calls := []
  history := []

def State.log (s : State) (e : Event) : State := { s with history := s.history ++ [e] }

/-! ### Calls -/

/-- A call goes past its first check. -/
def State.enter (s : State) (caller : Caller) (pc : Pc) : State :=
  { s with calls := s.calls ++ [⟨caller, pc⟩] }

/-- The `i`-th call goes on to `pc`. -/
def State.goto (s : State) (i : Nat) (c : Call) (pc : Pc) : State :=
  { s with calls := s.calls.set i { c with pc := pc } }

/-- The `i`-th call returns. -/
def State.leave (s : State) (i : Nat) (e : Event) : State :=
  { s with calls := s.calls.eraseIdx i }.log e

/-- A long-running task is one thread: it makes one call at a time, until it returns. -/
def mayCall (s : State) : Caller → Bool
  | .external => true
  | .task t => decide (t < s.nextTask) && !s.finished.contains t &&
      s.calls.all fun c => c.caller != .task t

/-- A call up to and including its look at `is_running_`: a relaxed load in
`addLongRunningTask`, `post` and `post_coro`, the compare-exchange in `stop`. -/
def begin (s : State) (caller : Caller) : Request → Option State
  | .addLongRunningTask =>
      if s.isRunning = true then some (s.enter caller .addLock) else some (s.log (.added none))
  | .submit i =>
      match s.remaining[i]? with
      | none => none
      | some job =>
          if s.isRunning = true then
            some ({ s with
              remaining := s.remaining.eraseIdx i
              nextJob := s.nextJob + 1 }.enter caller (.enqueue s.nextJob job))
          else some ({ s with remaining := s.remaining.eraseIdx i }.log (.posted none))
  | .stop =>
      if s.isRunning = true then some ({ s with isRunning := false }.enter caller .stopIo)
      else some (s.log (.stopped false))

/-- The next step of the `i`-th call. -/
def callStep (s : State) (i : Nat) (c : Call) : Option State :=
  match c.pc with
  | .addLock =>
      if s.mutex = true then none else some ({ s with mutex := true }.goto i c .addEmplace)
  | .addEmplace =>
      some ({ s with
        longRunningWorkers := s.longRunningWorkers ++ [s.nextTask]
        nextTask := s.nextTask + 1 }.goto i c (.addUnlock s.nextTask))
  | .addUnlock t => some ({ s with mutex := false }.leave i (.added (some t)))
  | .enqueue id job =>
      some ({ s with queue := s.queue ++ [job.handler id] }.leave i (.posted (some id)))
  -- `stop()`, after it has won the compare-exchange
  | .stopIo => some ({ s with ioStopped := true }.goto i c .stopJoinSmall)
  | .stopJoinSmall =>
      if s.workers.all (fun w => w == .exited) = true then some (s.goto i c .stopLock) else none
  | .stopLock =>
      if s.mutex = true then none
      else some ({ s with mutex := true }.goto i c (.stopLoop s.longRunningWorkers))
  -- the loop runs over the list itself, which nobody changes while the mutex is held
  | .stopLoop [] => some (s.goto i c .stopClear)
  | .stopLoop (t :: rest) =>
      some ({ s with stopRequested := s.stopRequested ++ [t] }.goto i c (.stopJoin t rest))
  | .stopJoin t rest =>
      if s.finished.contains t = true then some (s.goto i c (.stopLoop rest)) else none
  | .stopClear => some ({ s with longRunningWorkers := [] }.goto i c .stopUnlock)
  | .stopUnlock => some ({ s with mutex := false }.leave i (.stopped true))

/-! ### Tasks and workers -/

def taskReturns (s : State) (t : Nat) : Option State :=
  if mayCall s (.task t) = true then some { s with finished := s.finished ++ [t] } else none

def State.setWorker (s : State) (w : Nat) (worker : Worker) : State :=
  { s with workers := s.workers.set w worker }

def take (s : State) (w k : Nat) : Option State :=
  match s.workers[w]?, s.queue[k]? with
  | some .idle, some handler =>
      if s.ioStopped = true then none
      else some ({ s with queue := s.queue.eraseIdx k }.setWorker w (.running handler))
  | _, _ => none

def finish (s : State) (w : Nat) : Option State :=
  match s.workers[w]? with
  | some (.running (.run job)) => some ({ s with ready := s.ready ++ [job] }.setWorker w .idle)
  -- `co_spawn` queues the coroutine's handler, and the worker goes on to `fut.get()`
  | some (.running (.spawn job suspensions)) =>
      some ({ s with queue := s.queue ++ [Handler.resume job suspensions] }.setWorker w (.waiting job))
  | some (.running (.resume job 0)) =>
      some ({ s with coroReady := s.coroReady ++ [job] }.setWorker w .idle)
  | some (.running (.resume job (suspensions + 1))) =>
      some ({ s with queue := s.queue ++ [Handler.resume job suspensions] }.setWorker w .idle)
  | _ => none

def wake (s : State) (w : Nat) : Option State :=
  match s.workers[w]? with
  | some (.waiting job) =>
      if s.coroReady.contains job = true then
        some ({ s with ready := s.ready ++ [job] }.setWorker w .idle)
      else none
  | _ => none

def exit (s : State) (w : Nat) : Option State :=
  match s.workers[w]? with
  | some .idle => if s.ioStopped = true then some (s.setWorker w .exited) else none
  | _ => none

/-! ### The machine -/

/-- One step of the whole system. -/
def step (s : State) : Action → Option State
  | .call caller request => if mayCall s caller = true then begin s caller request else none
  | .advance i =>
      match s.calls[i]? with
      | some c => callStep s i c
      | none => none
  | .taskReturns t => taskReturns s t
  | .take w k => take s w k
  | .finish w => finish s w
  | .wake w => wake s w
  | .exit w => exit s w

/-- A pool of `n` workers to which `jobs` are submitted. -/
def machine (n : Nat) (jobs : List Job) : Machine State Action where
  init := .start n jobs
  step := step

/-! ### What a step can do -/

/-- A step of the pool, one constructor for each branch. -/
inductive Moved (s : State) : Action → State → Prop
  | addStarts {caller : Caller} (hm : mayCall s caller = true) (hr : s.isRunning = true) :
      Moved s (.call caller .addLongRunningTask) (s.enter caller .addLock)
  | addRefused {caller : Caller} (hr : s.isRunning = false) :
      Moved s (.call caller .addLongRunningTask) (s.log (.added none))
  | submitStarts {caller : Caller} {i : Nat} {job : Job} (hm : mayCall s caller = true)
      (hj : s.remaining[i]? = some job) (hr : s.isRunning = true) :
      Moved s (.call caller (.submit i))
        ({ s with remaining := s.remaining.eraseIdx i, nextJob := s.nextJob + 1 }.enter caller
          (.enqueue s.nextJob job))
  | submitRefused {caller : Caller} {i : Nat} {job : Job} (hj : s.remaining[i]? = some job)
      (hr : s.isRunning = false) :
      Moved s (.call caller (.submit i))
        ({ s with remaining := s.remaining.eraseIdx i }.log (.posted none))
  | stopStarts {caller : Caller} (hm : mayCall s caller = true) (hr : s.isRunning = true) :
      Moved s (.call caller .stop) ({ s with isRunning := false }.enter caller .stopIo)
  | stopRefused {caller : Caller} (hr : s.isRunning = false) :
      Moved s (.call caller .stop) (s.log (.stopped false))
  | addLocks {i : Nat} {caller : Caller} (hi : s.calls[i]? = some ⟨caller, .addLock⟩)
      (hm : s.mutex = false) :
      Moved s (.advance i) ({ s with mutex := true }.goto i ⟨caller, .addLock⟩ .addEmplace)
  | addEmplaces {i : Nat} {caller : Caller} (hi : s.calls[i]? = some ⟨caller, .addEmplace⟩) :
      Moved s (.advance i)
        ({ s with
          longRunningWorkers := s.longRunningWorkers ++ [s.nextTask]
          nextTask := s.nextTask + 1 }.goto i ⟨caller, .addEmplace⟩ (.addUnlock s.nextTask))
  | addUnlocks {i t : Nat} {caller : Caller} (hi : s.calls[i]? = some ⟨caller, .addUnlock t⟩) :
      Moved s (.advance i) ({ s with mutex := false }.leave i (.added (some t)))
  | enqueues {i id : Nat} {job : Job} {caller : Caller}
      (hi : s.calls[i]? = some ⟨caller, .enqueue id job⟩) :
      Moved s (.advance i)
        ({ s with queue := s.queue ++ [job.handler id] }.leave i (.posted (some id)))
  | stopsIo {i : Nat} {caller : Caller} (hi : s.calls[i]? = some ⟨caller, .stopIo⟩) :
      Moved s (.advance i) ({ s with ioStopped := true }.goto i ⟨caller, .stopIo⟩ .stopJoinSmall)
  | joinsSmall {i : Nat} {caller : Caller} (hi : s.calls[i]? = some ⟨caller, .stopJoinSmall⟩)
      (hw : s.workers.all (fun w => w == .exited) = true) :
      Moved s (.advance i) (s.goto i ⟨caller, .stopJoinSmall⟩ .stopLock)
  | stopLocks {i : Nat} {caller : Caller} (hi : s.calls[i]? = some ⟨caller, .stopLock⟩)
      (hm : s.mutex = false) :
      Moved s (.advance i)
        ({ s with mutex := true }.goto i ⟨caller, .stopLock⟩ (.stopLoop s.longRunningWorkers))
  | loopEnds {i : Nat} {caller : Caller} (hi : s.calls[i]? = some ⟨caller, .stopLoop []⟩) :
      Moved s (.advance i) (s.goto i ⟨caller, .stopLoop []⟩ .stopClear)
  | requestsStop {i t : Nat} {rest : List Nat} {caller : Caller}
      (hi : s.calls[i]? = some ⟨caller, .stopLoop (t :: rest)⟩) :
      Moved s (.advance i)
        ({ s with stopRequested := s.stopRequested ++ [t] }.goto i
          ⟨caller, .stopLoop (t :: rest)⟩ (.stopJoin t rest))
  | joins {i t : Nat} {rest : List Nat} {caller : Caller}
      (hi : s.calls[i]? = some ⟨caller, .stopJoin t rest⟩) (hf : s.finished.contains t = true) :
      Moved s (.advance i) (s.goto i ⟨caller, .stopJoin t rest⟩ (.stopLoop rest))
  | clears {i : Nat} {caller : Caller} (hi : s.calls[i]? = some ⟨caller, .stopClear⟩) :
      Moved s (.advance i)
        ({ s with longRunningWorkers := [] }.goto i ⟨caller, .stopClear⟩ .stopUnlock)
  | stopUnlocks {i : Nat} {caller : Caller} (hi : s.calls[i]? = some ⟨caller, .stopUnlock⟩) :
      Moved s (.advance i) ({ s with mutex := false }.leave i (.stopped true))
  | taskReturned {t : Nat} (hm : mayCall s (.task t) = true) :
      Moved s (.taskReturns t) { s with finished := s.finished ++ [t] }
  | took {w k : Nat} {handler : Handler} (hw : s.workers[w]? = some .idle)
      (hk : s.queue[k]? = some handler) (hs : s.ioStopped = false) :
      Moved s (.take w k)
        ({ s with queue := s.queue.eraseIdx k }.setWorker w (.running handler))
  | ranPost {w job : Nat} (hw : s.workers[w]? = some (.running (.run job))) :
      Moved s (.finish w) ({ s with ready := s.ready ++ [job] }.setWorker w .idle)
  | spawned {w job suspensions : Nat}
      (hw : s.workers[w]? = some (.running (.spawn job suspensions))) :
      Moved s (.finish w)
        ({ s with queue := s.queue ++ [Handler.resume job suspensions] }.setWorker w (.waiting job))
  | completed {w job : Nat} (hw : s.workers[w]? = some (.running (.resume job 0))) :
      Moved s (.finish w) ({ s with coroReady := s.coroReady ++ [job] }.setWorker w .idle)
  | suspended {w job suspensions : Nat}
      (hw : s.workers[w]? = some (.running (.resume job (suspensions + 1)))) :
      Moved s (.finish w)
        ({ s with queue := s.queue ++ [Handler.resume job suspensions] }.setWorker w .idle)
  | woke {w job : Nat} (hw : s.workers[w]? = some (.waiting job))
      (hr : s.coroReady.contains job = true) :
      Moved s (.wake w) ({ s with ready := s.ready ++ [job] }.setWorker w .idle)
  | exited {w : Nat} (hw : s.workers[w]? = some .idle) (hs : s.ioStopped = true) :
      Moved s (.exit w) (s.setWorker w .exited)

variable {s s' : State}

theorem begin_moved {caller : Caller} {request : Request} (hm : mayCall s caller = true)
    (h : begin s caller request = some s') : Moved s (.call caller request) s' := by
  cases request with
  | addLongRunningTask =>
      simp only [begin] at h
      split at h
      · obtain rfl := Option.some.inj h
        exact .addStarts hm ‹_›
      · obtain rfl := Option.some.inj h
        exact .addRefused (Bool.eq_false_iff.mpr ‹_›)
  | submit i =>
      simp only [begin] at h
      split at h
      · cases h
      · split at h
        · obtain rfl := Option.some.inj h
          exact .submitStarts hm ‹_› ‹_›
        · obtain rfl := Option.some.inj h
          exact .submitRefused ‹_› (Bool.eq_false_iff.mpr ‹_›)
  | stop =>
      simp only [begin] at h
      split at h
      · obtain rfl := Option.some.inj h
        exact .stopStarts hm ‹_›
      · obtain rfl := Option.some.inj h
        exact .stopRefused (Bool.eq_false_iff.mpr ‹_›)

theorem callStep_moved {i : Nat} {c : Call} (hi : s.calls[i]? = some c)
    (h : callStep s i c = some s') : Moved s (.advance i) s' := by
  obtain ⟨caller, pc⟩ := c
  cases pc with
  | addLock =>
      simp only [callStep] at h
      split at h
      · cases h
      · obtain rfl := Option.some.inj h
        exact .addLocks hi (Bool.eq_false_iff.mpr ‹_›)
  | addEmplace =>
      obtain rfl := Option.some.inj h
      exact .addEmplaces hi
  | addUnlock t =>
      obtain rfl := Option.some.inj h
      exact .addUnlocks hi
  | enqueue id job =>
      obtain rfl := Option.some.inj h
      exact .enqueues hi
  | stopIo =>
      obtain rfl := Option.some.inj h
      exact .stopsIo hi
  | stopJoinSmall =>
      simp only [callStep] at h
      split at h
      · obtain rfl := Option.some.inj h
        exact .joinsSmall hi ‹_›
      · cases h
  | stopLock =>
      simp only [callStep] at h
      split at h
      · cases h
      · obtain rfl := Option.some.inj h
        exact .stopLocks hi (Bool.eq_false_iff.mpr ‹_›)
  | stopLoop rest =>
      cases rest with
      | nil =>
          obtain rfl := Option.some.inj h
          exact .loopEnds hi
      | cons t rest =>
          obtain rfl := Option.some.inj h
          exact .requestsStop hi
  | stopJoin t rest =>
      simp only [callStep] at h
      split at h
      · obtain rfl := Option.some.inj h
        exact .joins hi ‹_›
      · cases h
  | stopClear =>
      obtain rfl := Option.some.inj h
      exact .clears hi
  | stopUnlock =>
      obtain rfl := Option.some.inj h
      exact .stopUnlocks hi

theorem take_moved {w k : Nat} (h : take s w k = some s') : Moved s (.take w k) s' := by
  simp only [take] at h
  split at h
  · split at h
    · cases h
    · obtain rfl := Option.some.inj h
      exact .took ‹_› ‹_› (Bool.eq_false_iff.mpr ‹_›)
  · cases h

theorem finish_moved {w : Nat} (h : finish s w = some s') : Moved s (.finish w) s' := by
  simp only [finish] at h
  split at h
  · obtain rfl := Option.some.inj h
    exact .ranPost ‹_›
  · obtain rfl := Option.some.inj h
    exact .spawned ‹_›
  · obtain rfl := Option.some.inj h
    exact .completed ‹_›
  · obtain rfl := Option.some.inj h
    exact .suspended ‹_›
  · cases h

/-- **Inversion.** Every step is one of the branches listed in `Moved`. -/
theorem step_moved {a : Action} (h : step s a = some s') : Moved s a s' := by
  cases a with
  | call caller request =>
      simp only [step] at h
      split at h
      · exact begin_moved ‹_› h
      · cases h
  | advance i =>
      simp only [step] at h
      split at h
      · exact callStep_moved ‹_› h
      · cases h
  | taskReturns t =>
      simp only [step, taskReturns] at h
      split at h
      · obtain rfl := Option.some.inj h
        exact .taskReturned ‹_›
      · cases h
  | take w k => exact take_moved h
  | finish w => exact finish_moved h
  | wake w =>
      simp only [step, wake] at h
      split at h
      · split at h
        · obtain rfl := Option.some.inj h
          exact .woke ‹_› ‹_›
        · cases h
      · cases h
  | exit w =>
      simp only [step, exit] at h
      split at h
      · split at h
        · obtain rfl := Option.some.inj h
          exact .exited ‹_› ‹_›
        · cases h
      · cases h

end CppCode.ThreadPool
