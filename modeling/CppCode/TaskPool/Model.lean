import Mathlib.Logic.Function.Basic
import CppCode.Concurrency.Machine

/-!
# CppCode.TaskPool.Model

`task::ThreadPool` (`behaviortree_test/task/thread_pool.hpp`): two pools of threads that each run
an `io_context` of its own, one for functions (`post`) and one for coroutines
(`post_coroutine`). Both hand out the future of a promise that travels with what was submitted.

* What is submitted may itself use the pool: submit more, and wait in `get()` for a future that
  it can reach, those it has submitted and those that were passed to it. A `Program` is such a
  function or coroutine, with its uses of the pool in order. A future that is waited for more than
  once is one that has been shared.
* An idle thread of a pool takes any handler that is queued there. A coroutine that is suspended
  comes back as a handler on its own `io_context`; how long it waits is left open.
* `asio::post` queues a handler. `co_spawn`, that of the Boost 1.83 which the build asks for,
  dispatches the beginning of a coroutine: it is queued, but where the caller is itself on a thread
  for coroutines it begins at once, on top of what that thread is running. The completion is
  dispatched, too, so that the promise is fulfilled at once; only a coroutine that has never been
  suspended posts it.
* After `io_context::stop()` an idle thread returns from `run()`, and what is queued stays
  queued. `post` and `post_coroutine` do not look whether the pool was stopped.
* `stop()` stops both contexts, then joins the threads of the one pool and those of the other. It
  is called once, from outside.
-/

namespace CppCode.TaskPool

open Concurrency

/-- `normal_io_context_` and `coroutine_io_context_`. -/
inductive Pool
  | normal
  | coroutine
  deriving Repr, DecidableEq

/-- What `set_value` or `set_exception` has put into the future. -/
inductive Result
  | value
  | exception
  deriving Repr, DecidableEq

/-- What a function or a coroutine does with the pool, from here on. -/
inductive Program
  /-- It returns or throws. -/
  | finish (result : Result)
  /-- It submits `f` to the pool `q`. -/
  | submit (q : Pool) (f next : Program)
  /-- `get()` on the `k`-th future that it can reach. -/
  | get (k : Nat) (onValue onException : Program)
  /-- `co_await` of something that is not ready; a function has none. -/
  | suspend (next : Program)
  deriving DecidableEq

/-- A handler, with the promise it has to fulfil and the futures it can reach. -/
structure Job where
  id : Nat
  program : Program
  held : List Nat
  /-- It has been suspended or has posted its completion; a function does neither. -/
  switched : Bool
  deriving DecidableEq

/-- A thread of a pool. -/
inductive Worker
  | idle
  /-- The coroutines that have begun `job`, and each other, go on after it. -/
  | running (job : Job) (callers : List Job)
  /-- `run()` has returned. -/
  | left
  deriving DecidableEq

/-- The job that was running is over, or suspended. -/
def Worker.back : List Job → Worker
  | [] => .idle
  | caller :: callers => .running caller callers

/-- Positions in `stop()`, named after what comes next. -/
inductive StopPc
  | notCalled
  | stopCoroutine
  | joinNormal
  | joinCoroutine
  | returned
  deriving Repr, DecidableEq

structure State where
  /-- The pool of every future that was handed out. -/
  futures : List Pool
  queue : Pool → List Job
  workers : Pool → List Worker
  /-- The futures that are ready. -/
  ready : List (Nat × Result)
  stopped : Pool → Bool
  stop : StopPc

inductive Action
  /-- A thread outside the pools submits `f`, which can reach `held`. -/
  | submit (p : Pool) (f : Program) (held : List Nat)
  /-- The idle thread `w` takes the `i`-th handler. -/
  | take (p : Pool) (w i : Nat)
  | run (p : Pool) (w : Nat)
  | leave (p : Pool) (w : Nat)
  | stop
  deriving DecidableEq

/-- The pool with so many threads for functions and for coroutines. -/
def State.start (normalThreads coroutineThreads : Nat) : State where
  futures := []
  queue := fun _ => []
  workers := fun
    | .normal => List.replicate normalThreads .idle
    | .coroutine => List.replicate coroutineThreads .idle
  ready := []
  stopped := fun _ => false
  stop := .notCalled

def State.setWorker (s : State) (p : Pool) (w : Nat) (worker : Worker) : State :=
  { s with workers := Function.update s.workers p ((s.workers p).set w worker) }

def State.enqueue (s : State) (p : Pool) (job : Job) : State :=
  { s with queue := Function.update s.queue p (s.queue p ++ [job]) }

/-- What `post` and `post_coroutine` have in common: a promise, and a handler that has it. -/
def State.submit (s : State) (p : Pool) (f : Program) (held : List Nat) : State :=
  { s.enqueue p ⟨s.futures.length, f, held, false⟩ with futures := s.futures ++ [p] }

/-- `post`. -/
def State.post (s : State) (f : Program) (held : List Nat) : State := s.submit .normal f held

/-- `post_coroutine` from a thread that is not one for coroutines. -/
def State.postCoroutine (s : State) (f : Program) (held : List Nat) : State :=
  s.submit .coroutine f held

/-- The job goes on as `next`. -/
def Job.goto (job : Job) (next : Program) : Job := { job with program := next }

/-- The job goes on as `next`, with one more future. -/
def Job.gotoHolding (job : Job) (next : Program) (future : Nat) : Job :=
  { job with program := next, held := job.held ++ [future] }

/-- The job comes back to its `io_context` as `next`. -/
def Job.later (job : Job) (next : Program) : Job :=
  { job with program := next, switched := true }

/-- `post_coroutine` from a thread for coroutines: `f` begins on it. -/
def State.startCoroutine (s : State) (w : Nat) (job : Job) (callers : List Job)
    (f next : Program) : State :=
  { s with futures := s.futures ++ [Pool.coroutine] }.setWorker .coroutine w
    (.running ⟨s.futures.length, f, job.held, false⟩
      (job.gotoHolding next s.futures.length :: callers))

/-- The thread `w` goes on with its job; there is no step while its `get()` blocks. -/
def runStep (s : State) (p : Pool) (w : Nat) (job : Job) (callers : List Job) : Option State :=
  match job.program with
  | .finish result =>
      if p = .coroutine ∧ job.switched = false then
        -- what is left of it is to complete
        some ((s.enqueue p (job.later (.finish result))).setWorker p w (.back callers))
      else
        some ({ s with ready := s.ready ++ [(job.id, result)] }.setWorker p w (.back callers))
  | .submit .normal f next =>
      some ((s.post f job.held).setWorker p w
        (.running (job.gotoHolding next s.futures.length) callers))
  | .submit .coroutine f next =>
      match p with
      | .normal =>
          some ((s.postCoroutine f job.held).setWorker .normal w
            (.running (job.gotoHolding next s.futures.length) callers))
      | .coroutine => some (s.startCoroutine w job callers f next)
  | .get k onValue onException =>
      match job.held[k]? with
      | some future =>
          match s.ready.lookup future with
          | some .value => some (s.setWorker p w (.running (job.goto onValue) callers))
          | some .exception => some (s.setWorker p w (.running (job.goto onException) callers))
          | none => none
      -- `std::future_error`: there is no such future
      | none => some (s.setWorker p w (.running (job.goto onException) callers))
  | .suspend next => some ((s.enqueue p (job.later next)).setWorker p w (.back callers))

/-- All threads of the pool have returned from `run()`. -/
def State.gone (s : State) (p : Pool) : Bool := (s.workers p).all (· = .left)

/-- The next step of `stop()`; the joins wait for the threads. -/
def stopStep (s : State) : Option State :=
  match s.stop with
  | .notCalled =>
      some { s with stopped := Function.update s.stopped .normal true, stop := .stopCoroutine }
  | .stopCoroutine =>
      some { s with stopped := Function.update s.stopped .coroutine true, stop := .joinNormal }
  | .joinNormal => if s.gone .normal then some { s with stop := .joinCoroutine } else none
  | .joinCoroutine => if s.gone .coroutine then some { s with stop := .returned } else none
  | .returned => none

/-- An idle thread takes a handler. -/
def takeStep (s : State) (p : Pool) (w i : Nat) : Option State :=
  match (s.workers p)[w]?, (s.queue p)[i]? with
  | some .idle, some job =>
      if s.stopped p then none
      else some ({ s with queue := Function.update s.queue p ((s.queue p).eraseIdx i)
        }.setWorker p w (.running job []))
  | _, _ => none

/-- One step of the whole system. -/
def step (s : State) : Action → Option State
  | .submit p f held =>
      if ∀ id ∈ held, id < s.futures.length then some (s.submit p f held) else none
  | .take p w i => takeStep s p w i
  | .run p w =>
      match (s.workers p)[w]? with
      | some (.running job callers) => runStep s p w job callers
      | _ => none
  | .leave p w =>
      if (s.workers p)[w]? = some .idle ∧ s.stopped p = true then some (s.setWorker p w .left)
      else none
  | .stop => stopStep s

def machine (normalThreads coroutineThreads : Nat) : Machine State Action where
  init := .start normalThreads coroutineThreads
  step := step

/-! ### What a step can do -/

/-- A step, one constructor for each kind. -/
inductive Moved (s : State) : Action → State → Prop
  | submitted {p : Pool} {f : Program} {held : List Nat}
      (hheld : ∀ id ∈ held, id < s.futures.length) :
      Moved s (.submit p f held) (s.submit p f held)
  | took {p : Pool} {w i : Nat} {job : Job} (hw : (s.workers p)[w]? = some .idle)
      (hi : (s.queue p)[i]? = some job) (hstopped : s.stopped p = false) :
      Moved s (.take p w i)
        ({ s with queue := Function.update s.queue p ((s.queue p).eraseIdx i)
          }.setWorker p w (.running job []))
  | finished {p : Pool} {w : Nat} {job : Job} {callers : List Job} {result : Result}
      (hw : (s.workers p)[w]? = some (.running job callers))
      (hp : job.program = .finish result) (hswitched : p = .coroutine → job.switched = true) :
      Moved s (.run p w)
        ({ s with ready := s.ready ++ [(job.id, result)] }.setWorker p w (.back callers))
  | completes {w : Nat} {job : Job} {callers : List Job} {result : Result}
      (hw : (s.workers .coroutine)[w]? = some (.running job callers))
      (hp : job.program = .finish result) (hswitched : job.switched = false) :
      Moved s (.run .coroutine w)
        ((s.enqueue .coroutine (job.later (.finish result))).setWorker .coroutine w
          (.back callers))
  | posted {p q : Pool} {w : Nat} {job : Job} {callers : List Job} {f next : Program}
      (hw : (s.workers p)[w]? = some (.running job callers))
      (hp : job.program = .submit q f next) (hpools : p = .coroutine → q = .normal) :
      Moved s (.run p w)
        ((s.submit q f job.held).setWorker p w
          (.running (job.gotoHolding next s.futures.length) callers))
  | started {w : Nat} {job : Job} {callers : List Job} {f next : Program}
      (hw : (s.workers .coroutine)[w]? = some (.running job callers))
      (hp : job.program = .submit .coroutine f next) :
      Moved s (.run .coroutine w) (s.startCoroutine w job callers f next)
  | gotValue {p : Pool} {w k future : Nat} {job : Job} {callers : List Job}
      {onValue onException : Program} (hw : (s.workers p)[w]? = some (.running job callers))
      (hp : job.program = .get k onValue onException) (hk : job.held[k]? = some future)
      (hready : s.ready.lookup future = some .value) :
      Moved s (.run p w) (s.setWorker p w (.running (job.goto onValue) callers))
  | gotException {p : Pool} {w k : Nat} {job : Job} {callers : List Job}
      {onValue onException : Program} (hw : (s.workers p)[w]? = some (.running job callers))
      (hp : job.program = .get k onValue onException)
      (hk : ∀ future, job.held[k]? = some future → s.ready.lookup future = some .exception) :
      Moved s (.run p w) (s.setWorker p w (.running (job.goto onException) callers))
  | suspended {p : Pool} {w : Nat} {job : Job} {callers : List Job} {next : Program}
      (hw : (s.workers p)[w]? = some (.running job callers))
      (hp : job.program = .suspend next) :
      Moved s (.run p w) ((s.enqueue p (job.later next)).setWorker p w (.back callers))
  | leaves {p : Pool} {w : Nat} (hw : (s.workers p)[w]? = some .idle)
      (hstopped : s.stopped p = true) : Moved s (.leave p w) (s.setWorker p w .left)
  | stopsNormal (hstop : s.stop = .notCalled) :
      Moved s .stop
        { s with stopped := Function.update s.stopped .normal true, stop := .stopCoroutine }
  | stopsCoroutine (hstop : s.stop = .stopCoroutine) :
      Moved s .stop
        { s with stopped := Function.update s.stopped .coroutine true, stop := .joinNormal }
  | joinsNormal (hstop : s.stop = .joinNormal) (hgone : s.gone .normal = true) :
      Moved s .stop { s with stop := .joinCoroutine }
  | joinsCoroutine (hstop : s.stop = .joinCoroutine) (hgone : s.gone .coroutine = true) :
      Moved s .stop { s with stop := .returned }

variable {s s' : State}

theorem runStep_moved {p : Pool} {w : Nat} {job : Job} {callers : List Job}
    (hw : (s.workers p)[w]? = some (.running job callers))
    (h : runStep s p w job callers = some s') : Moved s (.run p w) s' := by
  unfold runStep at h
  split at h
  next result hp =>
    split at h
    next hpost =>
      obtain ⟨rfl, hswitched⟩ := hpost
      obtain rfl := Option.some.inj h
      exact .completes hw hp hswitched
    next hpost =>
      obtain rfl := Option.some.inj h
      refine .finished hw hp ?_
      intro hpool
      by_contra hswitched
      exact hpost ⟨hpool, by simpa using hswitched⟩
  next f next hp =>
    obtain rfl := Option.some.inj h
    exact .posted hw hp fun _ => rfl
  next f next hp =>
    split at h
    next =>
      obtain rfl := Option.some.inj h
      exact .posted hw hp (by intro hc; cases hc)
    next =>
      obtain rfl := Option.some.inj h
      exact .started hw hp
  next k onValue onException hp =>
    split at h
    next future hk =>
      split at h
      next hready =>
        obtain rfl := Option.some.inj h
        exact .gotValue hw hp hk hready
      next hready =>
        obtain rfl := Option.some.inj h
        refine .gotException hw hp ?_
        intro future' hk'
        rw [hk] at hk'
        cases hk'
        exact hready
      next => cases h
    next hk =>
      obtain rfl := Option.some.inj h
      refine .gotException hw hp ?_
      intro future hk'
      rw [hk] at hk'
      cases hk'
  next next hp =>
    obtain rfl := Option.some.inj h
    exact .suspended hw hp

/-- **Inversion.** Every step is one of the branches listed in `Moved`. -/
theorem step_moved {a : Action} (h : step s a = some s') : Moved s a s' := by
  cases a with
  | submit p f held =>
      simp only [step] at h
      split at h
      next hheld =>
        obtain rfl := Option.some.inj h
        exact .submitted hheld
      next => cases h
  | take p w i =>
      simp only [step, takeStep] at h
      split at h
      next job hw hi =>
        split at h
        next => cases h
        next hstopped =>
          obtain rfl := Option.some.inj h
          exact .took hw hi (by simpa using hstopped)
      next => cases h
  | run p w =>
      simp only [step] at h
      split at h
      next job callers hw => exact runStep_moved hw h
      next => cases h
  | leave p w =>
      simp only [step] at h
      split at h
      next hleave =>
        obtain rfl := Option.some.inj h
        exact .leaves hleave.1 hleave.2
      next => cases h
  | stop =>
      simp only [step, stopStep] at h
      split at h
      next hstop =>
        obtain rfl := Option.some.inj h
        exact .stopsNormal hstop
      next hstop =>
        obtain rfl := Option.some.inj h
        exact .stopsCoroutine hstop
      next hstop =>
        split at h
        next hgone =>
          obtain rfl := Option.some.inj h
          exact .joinsNormal hstop hgone
        next => cases h
      next hstop =>
        split at h
        next hgone =>
          obtain rfl := Option.some.inj h
          exact .joinsCoroutine hstop hgone
        next => cases h
      next => cases h

end CppCode.TaskPool
