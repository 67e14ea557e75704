import Mathlib.Logic.Function.Basic
import CppCode.Concurrency.Machine

/-!
# CppCode.MiniListener.Model

The listener of `iceoryx/007.inproc_waitset/007.inproc_waitset.cpp`: a background thread that
waits on a `MiniWaitSet` and runs the callbacks of the sources it has collected, as an
interleaving machine.

* One thread owns the listener and calls `start()` and `stop()`. `start()` on a listener whose
  thread is still joinable would end the program, so it is enabled only while there is none.
* Any number of other calls are in progress: `attachWithCallback()`, which holds `m_mtx` while it
  locks the wait set's own mutex for `m_ws.attach()`, `fireEvent()` on `semaphore()`, and posts
  without an event.
* The background thread runs `loop()`, with the steps of `timedWait()` and `collectTriggered()`
  inside. A timeout is possible at any moment.
* A callback is a value of an arbitrary type; running it is an entry of `State.log`. It returns,
  and calls neither `attachWithCallback()` nor `stop()`, which would wait for `m_mtx` and for the
  thread that runs it. What else it does is not part of the listener; an event that it fires is a
  call like any other.

`State.log` is for specifications only: no step reads it.
-/

namespace CppCode.MiniListener

open Concurrency

variable {Source Callback : Type}

/-- `MiniListener::Entry`. -/
structure Entry (Source Callback : Type) where
  src : Source
  cb : Callback
  deriving DecidableEq

/-- A call to make beside `start()` and `stop()`. -/
inductive Request (Source Callback : Type)
  | attachWithCallback (src : Source) (cb : Callback)
  | fireEvent (src : Source)
  /-- `semaphore()->post()` without an event. -/
  | post
  deriving DecidableEq

/-- Positions inside these calls, named after the step that comes next. -/
inductive Pc (Source Callback : Type)
  | attachLock (src : Source) (cb : Callback)
  | attachEntry (src : Source) (cb : Callback)
  /-- `m_ws.attach(src)`, before it has the mutex of the wait set. -/
  | attachWsLock (src : Source)
  | attachSource (src : Source)
  | attachWsUnlock
  | attachUnlock
  | fireStore (src : Source)
  | firePost (src : Source)
  | semPost
  deriving DecidableEq

def Request.start : Request Source Callback → Pc Source Callback
  | .attachWithCallback src cb => .attachLock src cb
  | .fireEvent src => .fireStore src
  | .post => .semPost

/-- Positions inside `loop()`. -/
inductive Loop (Source : Type)
  /-- `m_running.load()`. -/
  | check
  | timedWait
  | collectLock
  | collectScan (rest result : List Source)
  /-- `timedWait()` has returned, `m_mtx` is not locked yet. -/
  | lockEntries (triggered : List Source)
  /-- The loop over `triggered`, of which so many sources are left. -/
  | dispatch (triggered : List Source)
  | ended
  deriving DecidableEq

/-- Positions of the owner inside `start()` and `stop()`. -/
inductive Owner
  | idle
  | startSpawn
  | stopPost
  | stopJoin
  deriving Repr, DecidableEq

/-- What the log records: the stores of `fireEvent()` and the callbacks that were run. -/
inductive Event (Source Callback : Type)
  | stored (src : Source)
  | called (src : Source) (cb : Callback)
  deriving DecidableEq

/-- The listener with its wait set, its sources and its threads. -/
structure State (Source Callback : Type) where
  triggered : Source → Bool
  sem : Nat
  /-- `m_ws.m_mtx`. -/
  wsMutex : Bool
  /-- `m_ws.m_sources`. -/
  sources : List Source
  mutex : Bool
  entries : List (Entry Source Callback)
  running : Bool
  /-- `m_thread`; `none` while it is not joinable. -/
  thread : Option (Loop Source)
  owner : Owner
  calls : List (Pc Source Callback)
  log : List (Event Source Callback)

inductive Action (Source Callback : Type)
  | call (request : Request Source Callback)
  /-- The `i`-th call in progress takes its next step. -/
  | advance (i : Nat)
  | start
  | stop
  /-- The owner takes the next step of `start()` or `stop()`. -/
  | owner
  /-- The background thread takes its next step. -/
  | loop
  /-- The semaphore's `timedWait()` of the background thread times out. -/
  | timeout
  deriving DecidableEq

/-- A constructed listener. -/
def State.init (Source Callback : Type) : State Source Callback where
  triggered := fun _ => false
  sem := 0
  wsMutex := false
  sources := []
  mutex := false
  entries := []
  running := false
  thread := none
  owner := .idle
  calls := []
  log := []

/-- The `i`-th call goes on to `pc`. -/
def State.goto (s : State Source Callback) (i : Nat) (pc : Pc Source Callback) :
    State Source Callback :=
  { s with calls := s.calls.set i pc }

/-- The `i`-th call returns. -/
def State.leave (s : State Source Callback) (i : Nat) : State Source Callback :=
  { s with calls := s.calls.eraseIdx i }

/-- The background thread goes on to `pc`. -/
def State.turn (s : State Source Callback) (pc : Loop Source) : State Source Callback :=
  { s with thread := some pc }

section Steps

variable [DecidableEq Source]

/-- The entry whose callback is run for `src`: the first one, the inner loop of `loop()` breaks
there. -/
def State.entry (s : State Source Callback) (src : Source) : Option (Entry Source Callback) :=
  s.entries.find? fun e => decide (e.src = src)

/-- `entry.cb(*src)` for the first entry of `src`, if there is one. -/
def State.runCallback (s : State Source Callback) (src : Source) : State Source Callback :=
  match s.entry src with
  | some e => { s with log := s.log ++ [.called src e.cb] }
  | none => s

/-- A callback shows only in the log. -/
theorem runCallback_log (s : State Source Callback) (src : Source) :
    ∃ log, s.runCallback src = { s with log := log } := by
  rw [State.runCallback]
  split
  · exact ⟨_, rfl⟩
  · exact ⟨s.log, rfl⟩

/-- The next step of the `i`-th call, which is at `pc`. -/
def callStep (s : State Source Callback) (i : Nat) :
    Pc Source Callback → Option (State Source Callback)
  | .attachLock src cb =>
      if s.mutex = true then none else some ({ s with mutex := true }.goto i (.attachEntry src cb))
  | .attachEntry src cb =>
      some ({ s with entries := s.entries ++ [Entry.mk src cb] }.goto i (.attachWsLock src))
  | .attachWsLock src =>
      if s.wsMutex = true then none
      else some ({ s with wsMutex := true }.goto i (.attachSource src))
  | .attachSource src => some ({ s with sources := s.sources ++ [src] }.goto i .attachWsUnlock)
  | .attachWsUnlock => some ({ s with wsMutex := false }.goto i .attachUnlock)
  | .attachUnlock => some ({ s with mutex := false }.leave i)
  | .fireStore src =>
      some ({ s with
        triggered := Function.update s.triggered src true
        log := s.log ++ [Event.stored src] }.goto i (.firePost src))
  | .firePost _ | .semPost => some ({ s with sem := s.sem + 1 }.leave i)

/-- The next step of the background thread, which is at `pc`. -/
def loopStep (s : State Source Callback) : Loop Source → Option (State Source Callback)
  | .check => some (s.turn (if s.running = true then .timedWait else .ended))
  | .timedWait =>
      match s.sem with
      | 0 => none
      | n + 1 => some ({ s with sem := n }.turn .collectLock)
  | .collectLock =>
      if s.wsMutex = true then none
      else some ({ s with wsMutex := true }.turn (.collectScan s.sources []))
  -- `compare_exchange_strong(expected = true, false)` on the next source
  | .collectScan (src :: rest) result =>
      if s.triggered src = true then
        some ({ s with triggered := Function.update s.triggered src false }.turn
          (.collectScan rest (result ++ [src])))
      else some (s.turn (.collectScan rest result))
  | .collectScan [] result => some ({ s with wsMutex := false }.turn (.lockEntries result))
  | .lockEntries triggered =>
      if s.mutex = true then none else some ({ s with mutex := true }.turn (.dispatch triggered))
  | .dispatch (src :: rest) => some ((s.runCallback src).turn (.dispatch rest))
  | .dispatch [] => some ({ s with mutex := false }.turn .check)
  | .ended => none

/-- The next step of the owner; `join()` waits for the end of `loop()`. -/
def ownerStep (s : State Source Callback) : Option (State Source Callback) :=
  match s.owner with
  | .idle => none
  | .startSpawn => some { s with thread := some .check, owner := .idle }
  | .stopPost => some { s with sem := s.sem + 1, owner := .stopJoin }
  | .stopJoin =>
      match s.thread with
      | none => some { s with owner := .idle }
      | some .ended => some { s with thread := none, owner := .idle }
      | some _ => none

/-- One step of the whole system. -/
def step (s : State Source Callback) : Action Source Callback → Option (State Source Callback)
  | .call request => some { s with calls := s.calls ++ [request.start] }
  | .advance i =>
      match s.calls[i]? with
      | some pc => callStep s i pc
      | none => none
  | .start =>
      match s.owner, s.thread with
      | .idle, none => some { s with running := true, owner := .startSpawn }
      | _, _ => none
  | .stop =>
      match s.owner with
      | .idle => some { s with running := false, owner := .stopPost }
      | _ => none
  | .owner => ownerStep s
  | .loop =>
      match s.thread with
      | some pc => loopStep s pc
      | none => none
  | .timeout =>
      match s.thread with
      | some .timedWait => some (s.turn (.lockEntries []))
      | _ => none

def machine (Source Callback : Type) [DecidableEq Source] :
    Machine (State Source Callback) (Action Source Callback) where
  init := .init Source Callback
  step := step

/-! ### What a step can do -/

/-- A step of a call, one constructor for each branch. -/
inductive CallMoved (s : State Source Callback) (i : Nat) : State Source Callback → Prop
  | attachLocks {src : Source} {cb : Callback} (hi : s.calls[i]? = some (.attachLock src cb))
      (hm : s.mutex = false) :
      CallMoved s i ({ s with mutex := true }.goto i (.attachEntry src cb))
  | attachesEntry {src : Source} {cb : Callback} (hi : s.calls[i]? = some (.attachEntry src cb)) :
      CallMoved s i
        ({ s with entries := s.entries ++ [Entry.mk src cb] }.goto i (.attachWsLock src))
  | attachWsLocks {src : Source} (hi : s.calls[i]? = some (.attachWsLock src))
      (hm : s.wsMutex = false) :
      CallMoved s i ({ s with wsMutex := true }.goto i (.attachSource src))
  | attachesSource {src : Source} (hi : s.calls[i]? = some (.attachSource src)) :
      CallMoved s i ({ s with sources := s.sources ++ [src] }.goto i .attachWsUnlock)
  | attachWsUnlocks (hi : s.calls[i]? = some .attachWsUnlock) :
      CallMoved s i ({ s with wsMutex := false }.goto i .attachUnlock)
  | attachUnlocks (hi : s.calls[i]? = some .attachUnlock) :
      CallMoved s i ({ s with mutex := false }.leave i)
  | stores {src : Source} (hi : s.calls[i]? = some (.fireStore src)) :
      CallMoved s i ({ s with
        triggered := Function.update s.triggered src true
        log := s.log ++ [Event.stored src] }.goto i (.firePost src))
  | posts {pc : Pc Source Callback} (hi : s.calls[i]? = some pc)
      (hpc : (∃ src, pc = .firePost src) ∨ pc = .semPost) :
      CallMoved s i ({ s with sem := s.sem + 1 }.leave i)

/-- A step of the background thread. -/
inductive LoopMoved (s : State Source Callback) : State Source Callback → Prop
  | runs (ht : s.thread = some .check) (hr : s.running = true) : LoopMoved s (s.turn .timedWait)
  | ends (ht : s.thread = some .check) (hr : s.running = false) : LoopMoved s (s.turn .ended)
  | takesToken {n : Nat} (ht : s.thread = some .timedWait) (hn : s.sem = n + 1) :
      LoopMoved s ({ s with sem := n }.turn .collectLock)
  | timesOut (ht : s.thread = some .timedWait) : LoopMoved s (s.turn (.lockEntries []))
  | collectLocks (ht : s.thread = some .collectLock) (hm : s.wsMutex = false) :
      LoopMoved s ({ s with wsMutex := true }.turn (.collectScan s.sources []))
  | collects {src : Source} {rest result : List Source}
      (ht : s.thread = some (.collectScan (src :: rest) result)) (hf : s.triggered src = true) :
      LoopMoved s ({ s with triggered := Function.update s.triggered src false }.turn
        (.collectScan rest (result ++ [src])))
  | skips {src : Source} {rest result : List Source}
      (ht : s.thread = some (.collectScan (src :: rest) result)) (hf : s.triggered src = false) :
      LoopMoved s (s.turn (.collectScan rest result))
  | collected {result : List Source} (ht : s.thread = some (.collectScan [] result)) :
      LoopMoved s ({ s with wsMutex := false }.turn (.lockEntries result))
  | locksEntries {triggered : List Source} (ht : s.thread = some (.lockEntries triggered))
      (hm : s.mutex = false) : LoopMoved s ({ s with mutex := true }.turn (.dispatch triggered))
  | dispatches {src : Source} {rest : List Source}
      (ht : s.thread = some (.dispatch (src :: rest))) :
      LoopMoved s ((s.runCallback src).turn (.dispatch rest))
  | dispatched (ht : s.thread = some (.dispatch [])) :
      LoopMoved s ({ s with mutex := false }.turn .check)

/-- A step of the owner. -/
inductive OwnerMoved (s : State Source Callback) :
    Action Source Callback → State Source Callback → Prop
  | starts (ho : s.owner = .idle) (ht : s.thread = none) :
      OwnerMoved s .start { s with running := true, owner := .startSpawn }
  | spawns (ho : s.owner = .startSpawn) :
      OwnerMoved s .owner { s with thread := some .check, owner := .idle }
  | stops (ho : s.owner = .idle) :
      OwnerMoved s .stop { s with running := false, owner := .stopPost }
  | posts (ho : s.owner = .stopPost) :
      OwnerMoved s .owner { s with sem := s.sem + 1, owner := .stopJoin }
  | joins (ho : s.owner = .stopJoin) (ht : s.thread = none ∨ s.thread = some .ended) :
      OwnerMoved s .owner { s with thread := none, owner := .idle }

/-- A step, by the party that takes it. -/
inductive Moved (s : State Source Callback) :
    Action Source Callback → State Source Callback → Prop
  | called (request : Request Source Callback) :
      Moved s (.call request) { s with calls := s.calls ++ [request.start] }
  | call {i : Nat} {s' : State Source Callback} (h : CallMoved s i s') : Moved s (.advance i) s'
  | loop {a : Action Source Callback} {s' : State Source Callback}
      (ha : a = .loop ∨ a = .timeout) (h : LoopMoved s s') : Moved s a s'
  | owner {a : Action Source Callback} {s' : State Source Callback} (h : OwnerMoved s a s') :
      Moved s a s'

variable {s s' : State Source Callback}

theorem callStep_moved {i : Nat} {pc : Pc Source Callback} (hi : s.calls[i]? = some pc)
    (h : callStep s i pc = some s') : CallMoved s i s' := by
  cases pc with
  | attachLock src cb =>
      simp only [callStep] at h
      split at h
      · cases h
      · obtain rfl := Option.some.inj h
        exact .attachLocks hi (Bool.eq_false_iff.mpr ‹_›)
  | attachEntry src cb =>
      obtain rfl := Option.some.inj h
      exact .attachesEntry hi
  | attachWsLock src =>
      simp only [callStep] at h
      split at h
      · cases h
      · obtain rfl := Option.some.inj h
        exact .attachWsLocks hi (Bool.eq_false_iff.mpr ‹_›)
  | attachSource src =>
      obtain rfl := Option.some.inj h
      exact .attachesSource hi
  | attachWsUnlock =>
      obtain rfl := Option.some.inj h
      exact .attachWsUnlocks hi
  | attachUnlock =>
      obtain rfl := Option.some.inj h
      exact .attachUnlocks hi
  | fireStore src =>
      obtain rfl := Option.some.inj h
      exact .stores hi
  | firePost src =>
      obtain rfl := Option.some.inj h
      exact .posts hi (.inl ⟨src, rfl⟩)
  | semPost =>
      obtain rfl := Option.some.inj h
      exact .posts hi (.inr rfl)

theorem loopStep_moved {pc : Loop Source} (ht : s.thread = some pc)
    (h : loopStep s pc = some s') : LoopMoved s s' := by
  cases pc with
  | check =>
      obtain rfl := Option.some.inj h
      cases hr : s.running with
      | true => exact .runs ht hr
      | false => exact .ends ht hr
  | timedWait =>
      simp only [loopStep] at h
      split at h
      · cases h
      · obtain rfl := Option.some.inj h
        exact .takesToken ht ‹_›
  | collectLock =>
      simp only [loopStep] at h
      split at h
      · cases h
      · obtain rfl := Option.some.inj h
        exact .collectLocks ht (Bool.eq_false_iff.mpr ‹_›)
  | collectScan rest result =>
      cases rest with
      | nil =>
          obtain rfl := Option.some.inj h
          exact .collected ht
      | cons src rest =>
          simp only [loopStep] at h
          split at h
          · obtain rfl := Option.some.inj h
            exact .collects ht ‹_›
          · obtain rfl := Option.some.inj h
            exact .skips ht (Bool.eq_false_iff.mpr ‹_›)
  | lockEntries triggered =>
      simp only [loopStep] at h
      split at h
      · cases h
      · obtain rfl := Option.some.inj h
        exact .locksEntries ht (Bool.eq_false_iff.mpr ‹_›)
  | dispatch triggered =>
      cases triggered with
      | nil =>
          obtain rfl := Option.some.inj h
          exact .dispatched ht
      | cons src rest =>
          obtain rfl := Option.some.inj h
          exact .dispatches ht
  | ended => cases h

omit [DecidableEq Source] in
theorem ownerStep_moved (h : ownerStep s = some s') : OwnerMoved s .owner s' := by
  simp only [ownerStep] at h
  split at h
  · cases h
  · obtain rfl := Option.some.inj h
    exact .spawns ‹_›
  · obtain rfl := Option.some.inj h
    exact .posts ‹_›
  next ho =>
    split at h
    next ht =>
      obtain rfl := Option.some.inj h
      have hs : { s with owner := Owner.idle } = { s with thread := none, owner := .idle } := by
        rw [← ht]
      rw [hs]
      exact .joins ho (.inl ht)
    next ht =>
      obtain rfl := Option.some.inj h
      exact .joins ho (.inr ht)
    next => cases h

/-- **Inversion.** Every step is one of the branches listed in `Moved`. -/
theorem step_moved {a : Action Source Callback} (h : step s a = some s') : Moved s a s' := by
  cases a with
  | call request =>
      obtain rfl := Option.some.inj h
      exact .called request
  | advance i =>
      simp only [step] at h
      split at h
      · exact .call (callStep_moved ‹_› h)
      · cases h
  | start =>
      simp only [step] at h
      split at h
      · obtain rfl := Option.some.inj h
        exact .owner (.starts ‹_› ‹_›)
      · cases h
  | stop =>
      simp only [step] at h
      split at h
      · obtain rfl := Option.some.inj h
        exact .owner (.stops ‹_›)
      · cases h
  | owner => exact .owner (ownerStep_moved h)
  | loop =>
      simp only [step] at h
      split at h
      · exact .loop (.inl rfl) (loopStep_moved ‹_› h)
      · cases h
  | timeout =>
      simp only [step] at h
      split at h
      · obtain rfl := Option.some.inj h
        exact .loop (.inr rfl) (.timesOut ‹_›)
      · cases h

/-- While `start()` has not created the thread, there is none. -/
def Spawning (s : State Source Callback) : Prop := s.owner = .startSpawn → s.thread = none

theorem Moved.spawning {a : Action Source Callback} (hm : Moved s a s') (h : Spawning s) :
    Spawning s' := by
  cases hm with
  | called => exact h
  | call hm => cases hm <;> exact h
  | loop _ hm =>
      intro ho
      cases hm with
      | @dispatches src rest ht =>
          obtain ⟨log, hlog⟩ := runCallback_log s src
          rw [hlog] at ho
          rw [h ho] at ht
          cases ht
      | _ ht =>
          rw [h ho] at ht
          cases ht
  | owner hm =>
      cases hm with
      | starts ho ht => exact fun _ => ht
      | spawns | stops | posts | joins => exact fun ho => by cases ho

theorem reachable_spawning {G : Guard (State Source Callback) (Action Source Callback)}
    (h : (machine Source Callback).Reachable G s) : Spawning s := by
  refine h.invariant (fun _ => rfl) ?_
  intro s a s' _ hi _ hs
  exact (step_moved hs).spawning hi

end Steps

end CppCode.MiniListener
