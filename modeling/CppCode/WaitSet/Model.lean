import Mathlib.Logic.Function.Basic
import CppCode.Concurrency.Machine

/-!
# CppCode.WaitSet.Model

The in-process wait set (`iceoryx/007.inproc_waitset/007.inproc_waitset.cpp`) as an
interleaving machine: any number of threads that call `attach()`, `fireEvent()`, `wait()`
and `timedWait()`, over any type of event sources.

* A source is a flag. `fireEvent()` stores it and then posts the semaphore, in two steps.
* `wait()` takes one token, locks `m_mtx` and tries one compare-exchange on each attached
  source. The semaphore does not say which source it was posted for.
* The semaphore counts without bound and does not fail. `wait()` is a step that is enabled
  only while there is a token; `timedWait()` may time out at any moment.
* `semaphore()` is public, so anybody may post a token without firing an event;
  `MiniListener::stop()` does.

`State.calls` holds the calls in progress, each at its position. `State.history` is for
specifications only: no step reads it.
-/

namespace CppCode.WaitSet

open Concurrency

/-- A call to make. -/
inductive Request (Source : Type)
  | attach (src : Source)
  | fireEvent (src : Source)
  | wait
  | timedWait
  /-- `semaphore()->post()` without an event. -/
  | post
  deriving DecidableEq

/-- Positions inside the functions, named after the step that comes next. -/
inductive Pc (Source : Type)
  | attachLock (src : Source)
  | attachPush (src : Source)
  | attachUnlock
  | fireStore (src : Source)
  | firePost (src : Source)
  | semWait
  | semTimedWait
  | semPost
  /-- `collectTriggered()`, before it has the mutex. -/
  | collectLock
  /-- Its loop over the sources that are left, with the result so far. -/
  | collectScan (rest result : List Source)
  deriving DecidableEq

def Request.start {Source : Type} : Request Source → Pc Source
  | .attach src => .attachLock src
  | .fireEvent src => .fireStore src
  | .wait => .semWait
  | .timedWait => .semTimedWait
  | .post => .semPost

/-- What the history records: the stores of `fireEvent()`, and the results of `wait()` and
`timedWait()`. -/
inductive Event (Source : Type)
  | stored (src : Source)
  | returned (result : List Source)
  deriving DecidableEq

/-- The wait set, its sources and the calls in progress. -/
structure State (Source : Type) where
  triggered : Source → Bool
  sem : Nat
  mutex : Bool
  sources : List Source
  calls : List (Pc Source)
  history : List (Event Source)

inductive Action (Source : Type)
  | call (request : Request Source)
  /-- The `i`-th call in progress takes its next step. -/
  | advance (i : Nat)
  /-- The `i`-th call, a `timedWait()`, times out. -/
  | timeout (i : Nat)
  deriving DecidableEq

variable {Source : Type}

/-- A constructed wait set. -/
def State.start (Source : Type) : State Source where
  triggered := fun _ => false
  sem := 0
  mutex := false
  sources := []
  calls := []
  history := []

def State.log (s : State Source) (e : Event Source) : State Source :=
  { s with history := s.history ++ [e] }

/-- The `i`-th call goes on to `pc`. -/
def State.goto (s : State Source) (i : Nat) (pc : Pc Source) : State Source :=
  { s with calls := s.calls.set i pc }

/-- The `i`-th call returns. -/
def State.leave (s : State Source) (i : Nat) : State Source :=
  { s with calls := s.calls.eraseIdx i }

/-- The next step of the `i`-th call, which is at `pc`. -/
def callStep [DecidableEq Source] (s : State Source) (i : Nat) :
    Pc Source → Option (State Source)
  | .attachLock src =>
      if s.mutex = true then none else some ({ s with mutex := true }.goto i (.attachPush src))
  | .attachPush src => some ({ s with sources := s.sources ++ [src] }.goto i .attachUnlock)
  | .attachUnlock => some ({ s with mutex := false }.leave i)
  | .fireStore src =>
      some (({ s with triggered := Function.update s.triggered src true }.log (.stored src)).goto i
        (.firePost src))
  | .firePost _ | .semPost => some ({ s with sem := s.sem + 1 }.leave i)
  | .semWait | .semTimedWait =>
      match s.sem with
      | 0 => none
      | n + 1 => some ({ s with sem := n }.goto i .collectLock)
  | .collectLock =>
      if s.mutex = true then none
      else some ({ s with mutex := true }.goto i (.collectScan s.sources []))
  -- `compare_exchange_strong(expected = true, false)` on the next source
  | .collectScan (src :: rest) result =>
      if s.triggered src = true then
        some ({ s with triggered := Function.update s.triggered src false }.goto i
          (.collectScan rest (result ++ [src])))
      else some (s.goto i (.collectScan rest result))
  | .collectScan [] result => some (({ s with mutex := false }.leave i).log (.returned result))

/-- One step of the whole system. -/
def step [DecidableEq Source] (s : State Source) : Action Source → Option (State Source)
  | .call request => some { s with calls := s.calls ++ [request.start] }
  | .advance i =>
      match s.calls[i]? with
      | some pc => callStep s i pc
      | none => none
  | .timeout i =>
      match s.calls[i]? with
      | some .semTimedWait => some ((s.leave i).log (.returned []))
      | _ => none

def machine (Source : Type) [DecidableEq Source] : Machine (State Source) (Action Source) where
  init := .start Source
  step := step

/-! ### What a step can do -/

/-- A step, one constructor for each branch. -/
inductive Moved [DecidableEq Source] (s : State Source) : Action Source → State Source → Prop
  | called (request : Request Source) :
      Moved s (.call request) { s with calls := s.calls ++ [request.start] }
  | attachLocks {i : Nat} {src : Source} (hi : s.calls[i]? = some (.attachLock src))
      (hm : s.mutex = false) :
      Moved s (.advance i) ({ s with mutex := true }.goto i (.attachPush src))
  | attachPushes {i : Nat} {src : Source} (hi : s.calls[i]? = some (.attachPush src)) :
      Moved s (.advance i) ({ s with sources := s.sources ++ [src] }.goto i .attachUnlock)
  | attachUnlocks {i : Nat} (hi : s.calls[i]? = some .attachUnlock) :
      Moved s (.advance i) ({ s with mutex := false }.leave i)
  | stores {i : Nat} {src : Source} (hi : s.calls[i]? = some (.fireStore src)) :
      Moved s (.advance i)
        (({ s with triggered := Function.update s.triggered src true }.log (.stored src)).goto i
          (.firePost src))
  | posts {i : Nat} {pc : Pc Source} (hi : s.calls[i]? = some pc)
      (hpc : (∃ src, pc = .firePost src) ∨ pc = .semPost) :
      Moved s (.advance i) ({ s with sem := s.sem + 1 }.leave i)
  | takesToken {i n : Nat} {pc : Pc Source} (hi : s.calls[i]? = some pc)
      (hpc : pc = .semWait ∨ pc = .semTimedWait) (hn : s.sem = n + 1) :
      Moved s (.advance i) ({ s with sem := n }.goto i .collectLock)
  | timesOut {i : Nat} (hi : s.calls[i]? = some .semTimedWait) :
      Moved s (.timeout i) ((s.leave i).log (.returned []))
  | collectLocks {i : Nat} (hi : s.calls[i]? = some .collectLock) (hm : s.mutex = false) :
      Moved s (.advance i) ({ s with mutex := true }.goto i (.collectScan s.sources []))
  | collects {i : Nat} {src : Source} {rest result : List Source}
      (hi : s.calls[i]? = some (.collectScan (src :: rest) result))
      (ht : s.triggered src = true) :
      Moved s (.advance i)
        ({ s with triggered := Function.update s.triggered src false }.goto i
          (.collectScan rest (result ++ [src])))
  | skips {i : Nat} {src : Source} {rest result : List Source}
      (hi : s.calls[i]? = some (.collectScan (src :: rest) result))
      (ht : s.triggered src = false) :
      Moved s (.advance i) (s.goto i (.collectScan rest result))
  | collected {i : Nat} {result : List Source}
      (hi : s.calls[i]? = some (.collectScan [] result)) :
      Moved s (.advance i) (({ s with mutex := false }.leave i).log (.returned result))

theorem callStep_moved [DecidableEq Source] {s s' : State Source} {i : Nat} {pc : Pc Source}
    (hi : s.calls[i]? = some pc) (h : callStep s i pc = some s') : Moved s (.advance i) s' := by
  cases pc with
  | attachLock src =>
      simp only [callStep] at h
      split at h
      · cases h
      · obtain rfl := Option.some.inj h
        exact .attachLocks hi (Bool.eq_false_iff.mpr ‹_›)
  | attachPush src =>
      obtain rfl := Option.some.inj h
      exact .attachPushes hi
  | attachUnlock =>
      obtain rfl := Option.some.inj h
      exact .attachUnlocks hi
  | fireStore src =>
      obtain rfl := Option.some.inj h
      exact .stores hi
  | firePost src =>
      obtain rfl := Option.some.inj h
      exact .posts hi (.inl ⟨src, rfl⟩)
  | semPost =>
      obtain rfl := Option.some.inj h
      exact .posts hi (.inr rfl)
  | semWait =>
      simp only [callStep] at h
      split at h
      · cases h
      · obtain rfl := Option.some.inj h
        exact .takesToken hi (.inl rfl) ‹_›
  | semTimedWait =>
      simp only [callStep] at h
      split at h
      · cases h
      · obtain rfl := Option.some.inj h
        exact .takesToken hi (.inr rfl) ‹_›
  | collectLock =>
      simp only [callStep] at h
      split at h
      · cases h
      · obtain rfl := Option.some.inj h
        exact .collectLocks hi (Bool.eq_false_iff.mpr ‹_›)
  | collectScan rest result =>
      cases rest with
      | nil =>
          obtain rfl := Option.some.inj h
          exact .collected hi
      | cons src rest =>
          simp only [callStep] at h
          split at h
          · obtain rfl := Option.some.inj h
            exact .collects hi ‹_›
          · obtain rfl := Option.some.inj h
            exact .skips hi (Bool.eq_false_iff.mpr ‹_›)

/-- **Inversion.** Every step is one of the branches listed in `Moved`. -/
theorem step_moved [DecidableEq Source] {s s' : State Source} {a : Action Source}
    (h : step s a = some s') : Moved s a s' := by
  cases a with
  | call request =>
      obtain rfl := Option.some.inj h
      exact .called request
  | advance i =>
      simp only [step] at h
      split at h
      · exact callStep_moved ‹_› h
      · cases h
  | timeout i =>
      simp only [step] at h
      split at h
      · obtain rfl := Option.some.inj h
        exact .timesOut ‹_›
      · cases h

end CppCode.WaitSet
