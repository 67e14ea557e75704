import Mathlib.Data.List.InsertIdx
import CppCode.MiniListener.Model
import CppCode.WaitSet.Events

/-!
# CppCode.MiniListener.Refinement

**The listener is a user of the wait set.** Inside the listener's steps are the steps of
`m_ws`: the background thread is inside `timedWait()`, an `attachWithCallback()` is inside
`attach()`, and `stop()` posts a token. `Refines` says so: leaving out everything else, a state
of the listener is a state of `CppCode.WaitSet`, and every step of the listener is a step of the
wait set or none at all (`step_refines`). What is proved of the wait set over all its runs holds
inside the listener.

The calls of the wait set are a list in the order in which they were made. The listener knows
which party makes which call, not in which order, so the two lists agree up to order.
-/

namespace CppCode.MiniListener

open Concurrency

variable {Source Callback : Type}

/-! ### What of a state belongs to the wait set -/

/-- The position inside the wait set. -/
def Pc.inWaitSet : Pc Source Callback → Option (WaitSet.Pc Source)
  | .attachWsLock src => some (.attachLock src)
  | .attachSource src => some (.attachPush src)
  | .attachWsUnlock => some .attachUnlock
  | .fireStore src => some (.fireStore src)
  | .firePost src => some (.firePost src)
  | .semPost => some .semPost
  | .attachLock _ _ | .attachEntry _ _ | .attachUnlock => none

def Loop.inWaitSet : Loop Source → Option (WaitSet.Pc Source)
  | .timedWait => some .semTimedWait
  | .collectLock => some .collectLock
  | .collectScan rest result => some (.collectScan rest result)
  | .check | .lockEntries _ | .dispatch _ | .ended => none

def Owner.inWaitSet : Owner → Option (WaitSet.Pc Source)
  | .stopPost => some .semPost
  | .idle | .startSpawn | .stopJoin => none

/-- What each party is at inside the wait set: the owner, the background thread, the calls. -/
def State.parties (s : State Source Callback) : List (Option (WaitSet.Pc Source)) :=
  s.owner.inWaitSet :: s.thread.bind Loop.inWaitSet :: s.calls.map Pc.inWaitSet

/-- The sources that `timedWait()` has returned and that were not dispatched yet. -/
def Loop.undelivered : Loop Source → List Source
  | .lockEntries triggered | .dispatch triggered => triggered
  | .check | .timedWait | .collectLock | .collectScan _ _ | .ended => []

def State.undelivered (s : State Source Callback) : List Source :=
  match s.thread with
  | some pc => pc.undelivered
  | none => []

def Event.storedSource : Event Source Callback → Option Source
  | .stored src => some src
  | .called _ _ => none

def Event.calledSource : Event Source Callback → Option Source
  | .called src _ => some src
  | .stored _ => none

/-- The sources that were fired, in order. -/
def State.stored (s : State Source Callback) : List Source := s.log.filterMap Event.storedSource

/-- The sources whose callbacks were run, in order. -/
def State.called (s : State Source Callback) : List Source := s.log.filterMap Event.calledSource

/-! ### Every source has an entry -/

/-- The sources that the background thread has its hands on. -/
def Loop.sources : Loop Source → List Source
  | .collectScan rest result => rest ++ result
  | .lockEntries triggered | .dispatch triggered => triggered
  | .check | .timedWait | .collectLock | .ended => []

/-- The source that the call has made an entry for and is about to attach. -/
def Pc.attached : Pc Source Callback → Option Source
  | .attachWsLock src | .attachSource src => some src
  | .attachLock _ _ | .attachEntry _ _ | .attachWsUnlock | .attachUnlock | .fireStore _
  | .firePost _ | .semPost => none

/-- Sources get their entries before the wait set hears of them. -/
structure Known (s : State Source Callback) : Prop where
  sources : ∀ src ∈ s.sources, ∃ e ∈ s.entries, e.src = src
  calls : ∀ pc ∈ s.calls, ∀ src, pc.attached = some src → ∃ e ∈ s.entries, e.src = src
  loop : ∀ pc, s.thread = some pc → ∀ src ∈ pc.sources, ∃ e ∈ s.entries, e.src = src

variable {s s' : State Source Callback} {i : Nat} {old new : Pc Source Callback}

/-- Nothing comes in that was not known. -/
theorem Known.mono (h : Known s) (he : ∀ e ∈ s.entries, e ∈ s'.entries)
    (hs : ∀ src ∈ s'.sources, src ∈ s.sources ∨ ∃ pc ∈ s.calls, pc.attached = some src)
    (hc : ∀ pc ∈ s'.calls, ∀ src, pc.attached = some src →
      (∃ e ∈ s'.entries, e.src = src) ∨ ∃ old ∈ s.calls, old.attached = some src)
    (hl : ∀ pc, s'.thread = some pc → ∀ src ∈ pc.sources,
      src ∈ s.sources ∨ ∃ pc', s.thread = some pc' ∧ src ∈ pc'.sources) : Known s' := by
  have hkept : ∀ src, (∃ e ∈ s.entries, e.src = src) → ∃ e ∈ s'.entries, e.src = src := by
    rintro src ⟨e, hmem, hsrc⟩
    exact ⟨e, he e hmem, hsrc⟩
  constructor
  case sources =>
    intro src hsrc
    rcases hs src hsrc with hknown | ⟨pc, hpc, hatt⟩
    · exact hkept src (h.sources src hknown)
    · exact hkept src (h.calls pc hpc src hatt)
  case calls =>
    intro pc hpc src hatt
    rcases hc pc hpc src hatt with hentry | ⟨old, hold, hatt'⟩
    · exact hentry
    · exact hkept src (h.calls old hold src hatt')
  case loop =>
    intro pc hpc src hsrc
    rcases hl pc hpc src hsrc with hknown | ⟨pc', hpc', hsrc'⟩
    · exact hkept src (h.sources src hknown)
    · exact hkept src (h.loop pc' hpc' src hsrc')

/-- A call moves on, and nothing else changes for the sources. -/
theorem Known.goto (h : Known s) (he : s'.entries = s.entries) (hs : s'.sources = s.sources)
    (ht : s'.thread = s.thread) (hi : s.calls[i]? = some old)
    (hcalls : s'.calls = s.calls.set i new)
    (hn : new.attached = none ∨ new.attached = old.attached) : Known s' := by
  refine h.mono (fun e hmem => he ▸ hmem) (fun src hsrc => .inl (hs ▸ hsrc)) ?_ ?_
  · intro pc hpc src hatt
    rw [hcalls] at hpc
    rcases List.mem_or_eq_of_mem_set hpc with hmem | rfl
    · exact .inr ⟨pc, hmem, hatt⟩
    · rcases hn with hn | hn
      · rw [hn] at hatt
        cases hatt
      · exact .inr ⟨old, List.mem_of_getElem? hi, hn ▸ hatt⟩
  · intro pc hpc src hsrc
    exact .inr ⟨pc, ht ▸ hpc, hsrc⟩

/-- A call returns. -/
theorem Known.leave (h : Known s) (he : s'.entries = s.entries) (hs : s'.sources = s.sources)
    (ht : s'.thread = s.thread) (hcalls : s'.calls = s.calls.eraseIdx i) : Known s' := by
  refine h.mono (fun e hmem => he ▸ hmem) (fun src hsrc => .inl (hs ▸ hsrc)) ?_ ?_
  · intro pc hpc src hatt
    rw [hcalls] at hpc
    exact .inr ⟨pc, List.mem_of_mem_eraseIdx hpc, hatt⟩
  · intro pc hpc src hsrc
    exact .inr ⟨pc, ht ▸ hpc, hsrc⟩

/-- The background thread moves on. -/
theorem Known.turn (h : Known s) (he : s'.entries = s.entries) (hs : s'.sources = s.sources)
    (hcalls : s'.calls = s.calls) {old new : Loop Source} (hold : s.thread = some old)
    (ht : s'.thread = some new)
    (hn : ∀ src ∈ new.sources, src ∈ s.sources ∨ src ∈ old.sources) : Known s' := by
  refine h.mono (fun e hmem => he ▸ hmem) (fun src hsrc => .inl (hs ▸ hsrc)) ?_ ?_
  · intro pc hpc src hatt
    exact .inr ⟨pc, hcalls ▸ hpc, hatt⟩
  · intro pc hpc src hsrc
    obtain rfl := Option.some.inj (ht.symm.trans hpc)
    exact (hn src hsrc).imp id fun hmem => ⟨old, hold, hmem⟩

section Steps

variable [DecidableEq Source]

theorem CallMoved.known (hm : CallMoved s i s') (h : Known s) : Known s' := by
  cases hm with
  | attachLocks hi => exact h.goto rfl rfl rfl hi rfl (.inl rfl)
  | @attachesEntry src cb hi =>
      refine h.mono (fun e hmem => List.mem_append_left _ hmem) (fun _ => .inl) ?_
        (fun pc hpc src hsrc => .inr ⟨pc, hpc, hsrc⟩)
      intro pc hpc x hatt
      rcases List.mem_or_eq_of_mem_set hpc with hmem | rfl
      · exact .inr ⟨pc, hmem, hatt⟩
      · obtain rfl := Option.some.inj hatt
        exact .inl ⟨⟨src, cb⟩, List.mem_append_right _ List.mem_cons_self, rfl⟩
  | attachWsLocks hi => exact h.goto rfl rfl rfl hi rfl (.inr rfl)
  | @attachesSource src hi =>
      refine h.mono (fun _ hmem => hmem) ?_ ?_ (fun pc hpc src hsrc => .inr ⟨pc, hpc, hsrc⟩)
      · intro x hx
        rcases mem_concat.mp hx with hx | rfl
        · exact .inl hx
        · exact .inr ⟨_, List.mem_of_getElem? hi, rfl⟩
      · intro pc hpc x hatt
        rcases List.mem_or_eq_of_mem_set hpc with hmem | rfl
        · exact .inr ⟨pc, hmem, hatt⟩
        · cases hatt
  | attachWsUnlocks hi => exact h.goto rfl rfl rfl hi rfl (.inl rfl)
  | attachUnlocks hi => exact h.leave rfl rfl rfl rfl
  | stores hi => exact h.goto rfl rfl rfl hi rfl (.inl rfl)
  | posts hi => exact h.leave rfl rfl rfl rfl

theorem LoopMoved.known (hm : LoopMoved s s') (h : Known s) : Known s' := by
  cases hm with
  | runs ht | ends ht | takesToken ht | timesOut ht | dispatched ht =>
      exact h.turn rfl rfl rfl ht rfl (fun _ hsrc => by cases hsrc)
  | collectLocks ht =>
      refine h.turn rfl rfl rfl ht rfl ?_
      intro x hx
      exact .inl (by simpa [Loop.sources] using hx)
  | collects ht =>
      refine h.turn rfl rfl rfl ht rfl ?_
      intro x hx
      right
      simp only [Loop.sources, List.mem_append, List.mem_cons, List.not_mem_nil, or_false] at hx ⊢
      tauto
  | skips ht =>
      refine h.turn rfl rfl rfl ht rfl ?_
      intro x hx
      right
      simp only [Loop.sources, List.mem_append, List.mem_cons] at hx ⊢
      tauto
  | collected ht | locksEntries ht =>
      exact h.turn rfl rfl rfl ht rfl (fun _ => .inr)
  | @dispatches src rest ht =>
      obtain ⟨log, hlog⟩ := runCallback_log s src
      rw [hlog]
      exact h.turn rfl rfl rfl ht rfl (fun _ hx => .inr (List.mem_cons_of_mem _ hx))

omit [DecidableEq Source] in
theorem OwnerMoved.known {a : Action Source Callback} (hm : OwnerMoved s a s') (h : Known s) :
    Known s' := by
  cases hm with
  | starts | stops | posts => exact ⟨h.sources, h.calls, h.loop⟩
  | spawns =>
      refine ⟨h.sources, h.calls, ?_⟩
      intro pc hpc src hsrc
      obtain rfl := Option.some.inj hpc
      cases hsrc
  | joins =>
      refine ⟨h.sources, h.calls, ?_⟩
      intro pc hpc
      cases hpc

theorem Moved.known {a : Action Source Callback} (hm : Moved s a s') (h : Known s) : Known s' := by
  cases hm with
  | called request =>
      refine ⟨h.sources, ?_, h.loop⟩
      intro pc hpc src hatt
      rcases mem_concat.mp hpc with hpc | rfl
      · exact h.calls pc hpc src hatt
      · cases request <;> cases hatt
  | call hm => exact hm.known h
  | loop _ hm => exact hm.known h
  | owner hm => exact hm.known h

theorem reachable_known {G : Guard (State Source Callback) (Action Source Callback)}
    (h : (machine Source Callback).Reachable G s) : Known s := by
  refine h.invariant ⟨nofun, nofun, nofun⟩ ?_
  intro s a s' _ hi _ hs
  exact (step_moved hs).known hi

/-- The callback of a known source is run. -/
theorem runCallback_eq {src : Source} (h : ∃ e ∈ s.entries, e.src = src) :
    ∃ e, s.entry src = some e ∧
      s.runCallback src = { s with log := s.log ++ [.called src e.cb] } := by
  obtain ⟨e, hmem, hsrc⟩ := h
  cases hfind : s.entry src with
  | none =>
      have hnone := List.find?_eq_none.mp hfind e hmem
      simp [hsrc] at hnone
  | some e => exact ⟨e, rfl, by rw [State.runCallback, hfind]⟩

/-! ### Steps of the wait set -/

/-- `w` is the state of the wait set inside `s`. -/
structure Refines (s : State Source Callback) (w : WaitSet.State Source) : Prop where
  triggered : w.triggered = s.triggered
  sem : w.sem = s.sem
  mutex : w.mutex = s.wsMutex
  sources : w.sources = s.sources
  calls : w.calls.Perm (s.parties.filterMap id)
  stores : ∀ src, w.stores src = s.stored.count src
  returned : w.returned = s.called ++ s.undelivered

/-- A source is attached before it is fired. -/
def AttachedFirst : Guard (State Source Callback) (Action Source Callback) := fun s a =>
  match a with
  | .call (.fireEvent src) => src ∈ s.sources
  | _ => True

instance (s : State Source Callback) (a : Action Source Callback) :
    Decidable (AttachedFirst s a) := by
  unfold AttachedFirst
  split <;> infer_instance

variable {w : WaitSet.State Source}

omit [DecidableEq Source] in
theorem parties_call {pc : Pc Source Callback} (hi : s.calls[i]? = some pc) :
    s.parties[i + 2]? = some pc.inWaitSet := by
  simp [State.parties, hi]

omit [DecidableEq Source] in
theorem parties_goto (s : State Source Callback) (i : Nat) (pc : Pc Source Callback) :
    (s.goto i pc).parties = s.parties.set (i + 2) pc.inWaitSet := by
  simp [State.parties, State.goto]

omit [DecidableEq Source] in
theorem parties_leave (s : State Source Callback) (i : Nat) :
    (s.leave i).parties = s.parties.eraseIdx (i + 2) := by
  simp [State.parties, State.leave, List.eraseIdx_map]

omit [DecidableEq Source] in
theorem parties_turn (s : State Source Callback) (pc : Loop Source) :
    (s.turn pc).parties = s.parties.set 1 pc.inWaitSet := by
  simp [State.parties, State.turn]

omit [DecidableEq Source] in
theorem parties_called (s : State Source Callback) (pc : Pc Source Callback) :
    ({ s with calls := s.calls ++ [pc] } : State Source Callback).parties =
      s.parties ++ [pc.inWaitSet] := by
  simp [State.parties]

/-- The wait set makes the step, if it makes one, that the listener makes inside it. -/
def Follows (w : WaitSet.State Source) (s' : State Source Callback) : Prop :=
  ∃ w', (WaitSet.machine Source).Steps WaitSet.AttachedFirst w w' ∧ Refines s' w'

theorem CallMoved.follows (hm : CallMoved s i s') (h : Refines s w) : Follows w s' := by
  cases hm with
  | attachLocks hi =>
      have hcalls := (perm_of_idle_party h.calls (parties_call hi)).2.1
      refine ⟨w, .refl _, h.triggered, h.sem, h.mutex, h.sources, ?_, h.stores, h.returned⟩
      rw [parties_goto]
      exact hcalls
  | @attachesEntry src cb hi =>
      have hcalls := (perm_of_idle_party h.calls (parties_call hi)).1 (.attachLock src)
      refine ⟨{ w with calls := w.calls ++ [.attachLock src] },
        .single (a := .call (.attach src)) trivial rfl,
        h.triggered, h.sem, h.mutex, h.sources, ?_, h.stores, h.returned⟩
      rw [parties_goto]
      exact hcalls
  | @attachWsLocks src hi hm =>
      obtain ⟨j, hj, hset, -⟩ := exists_index_of_party h.calls (parties_call hi)
      refine ⟨{ w with mutex := true }.goto j (.attachPush src),
        .single (a := .advance j) trivial ?_,
        h.triggered, h.sem, rfl, h.sources, ?_, h.stores, h.returned⟩
      · simp [WaitSet.machine, WaitSet.step, hj, WaitSet.callStep, h.mutex, hm]
      · rw [parties_goto]
        exact hset _
  | @attachesSource src hi =>
      obtain ⟨j, hj, hset, -⟩ := exists_index_of_party h.calls (parties_call hi)
      refine ⟨{ w with sources := w.sources ++ [src] }.goto j .attachUnlock,
        .single (a := .advance j) trivial ?_,
        h.triggered, h.sem, h.mutex, congrArg (· ++ [src]) h.sources, ?_, h.stores, h.returned⟩
      · simp [WaitSet.machine, WaitSet.step, hj, WaitSet.callStep]
      · rw [parties_goto]
        exact hset _
  | attachWsUnlocks hi =>
      obtain ⟨j, hj, -, herase, -⟩ := exists_index_of_party h.calls (parties_call hi)
      refine ⟨{ w with mutex := false }.leave j, .single (a := .advance j) trivial ?_,
        h.triggered, h.sem, rfl, h.sources, ?_, h.stores, h.returned⟩
      · simp [WaitSet.machine, WaitSet.step, hj, WaitSet.callStep]
      · rw [parties_goto]
        exact herase
  | attachUnlocks hi =>
      have hcalls := (perm_of_idle_party h.calls (parties_call hi)).2.2
      refine ⟨w, .refl _, h.triggered, h.sem, h.mutex, h.sources, ?_, h.stores, h.returned⟩
      rw [parties_leave]
      exact hcalls
  | @stores src hi =>
      obtain ⟨j, hj, hset, -⟩ := exists_index_of_party h.calls (parties_call hi)
      refine ⟨({ w with triggered := Function.update w.triggered src true }.log
          (.stored src)).goto j (.firePost src), .single (a := .advance j) trivial ?_, ?_⟩
      · simp [WaitSet.machine, WaitSet.step, hj, WaitSet.callStep]
      · constructor
        case triggered => exact congrArg (Function.update · src true) h.triggered
        case sem => exact h.sem
        case mutex => exact h.mutex
        case sources => exact h.sources
        case calls =>
          rw [parties_goto]
          exact hset _
        case stores =>
          intro x
          have hx := h.stores x
          simp only [WaitSet.State.stores, State.stored] at hx
          by_cases hsrc : src = x
          · subst hsrc
            simp [WaitSet.State.stores, State.stored, WaitSet.State.log, WaitSet.State.goto,
              State.goto, Event.storedSource, hx]
          · simp [WaitSet.State.stores, State.stored, WaitSet.State.log, WaitSet.State.goto,
              State.goto, Event.storedSource, hx, hsrc]
        case returned =>
          have hr := h.returned
          simp only [WaitSet.State.returned, State.called] at hr
          simp [WaitSet.State.returned, State.called, WaitSet.State.log, WaitSet.State.goto,
            State.goto, Event.calledSource, WaitSet.Event.results, hr, State.undelivered]
  | posts hi hpc =>
      have hcall : ∃ old, s.parties[i + 2]? = some (some old) ∧
          ((∃ src, old = .firePost src) ∨ old = .semPost) := by
        rcases hpc with ⟨src, rfl⟩ | rfl
        · exact ⟨.firePost src, parties_call hi, .inl ⟨src, rfl⟩⟩
        · exact ⟨.semPost, parties_call hi, .inr rfl⟩
      obtain ⟨old, hold, hkind⟩ := hcall
      obtain ⟨j, hj, -, -, herase⟩ := exists_index_of_party h.calls hold
      refine ⟨{ w with sem := w.sem + 1 }.leave j, .single (a := .advance j) trivial ?_,
        h.triggered, congrArg (· + 1) h.sem, h.mutex, h.sources, ?_, h.stores, h.returned⟩
      · rcases hkind with ⟨src, rfl⟩ | rfl <;>
          simp [WaitSet.machine, WaitSet.step, hj, WaitSet.callStep]
      · rw [parties_leave]
        exact herase

omit [DecidableEq Source] in
theorem parties_loop {pc : Loop Source} (ht : s.thread = some pc) :
    s.parties[1]? = some pc.inWaitSet := by
  simp [State.parties, ht]

omit [DecidableEq Source] in
theorem undelivered_of_thread {pc : Loop Source} (ht : s.thread = some pc) :
    s.undelivered = pc.undelivered := by
  rw [State.undelivered, ht]

theorem stores_log (w : WaitSet.State Source) (result : List Source) (src : Source) :
    (w.log (.returned result)).stores src = w.stores src := by
  simp [WaitSet.State.stores, WaitSet.State.log]

omit [DecidableEq Source] in
theorem returned_log (w : WaitSet.State Source) (result : List Source) :
    (w.log (.returned result)).returned = w.returned ++ result := by
  simp [WaitSet.State.returned, WaitSet.State.log, WaitSet.Event.results]

/-- A step of the background thread outside the wait set. -/
theorem Refines.turn (h : Refines s w) {old : Loop Source} (ht : s.thread = some old)
    (hold : old.inWaitSet = none) (mutex : Bool) (new : Loop Source) (hnew : new.inWaitSet = none)
    (hu : new.undelivered = old.undelivered) : Refines ({ s with mutex := mutex }.turn new) w := by
  refine ⟨h.triggered, h.sem, h.mutex, h.sources, ?_, h.stores, ?_⟩
  · have hparty := parties_loop ht
    rw [hold] at hparty
    rw [parties_turn, hnew]
    exact (perm_of_idle_party h.calls hparty).2.1
  · have hr := h.returned
    rw [undelivered_of_thread ht, ← hu] at hr
    exact hr

theorem LoopMoved.follows (hm : LoopMoved s s') (hk : Known s) (h : Refines s w) :
    Follows w s' := by
  have hr := h.returned
  cases hm with
  | runs ht =>
      rw [undelivered_of_thread ht] at hr
      refine ⟨{ w with calls := w.calls ++ [.semTimedWait] },
        .single (a := .call .timedWait) trivial rfl,
        h.triggered, h.sem, h.mutex, h.sources, ?_, h.stores, hr⟩
      rw [parties_turn]
      exact (perm_of_idle_party h.calls (parties_loop ht)).1 _
  | ends ht => exact ⟨w, .refl _, h.turn ht rfl s.mutex .ended rfl rfl⟩
  | @takesToken n ht hn =>
      rw [undelivered_of_thread ht] at hr
      obtain ⟨j, hj, hset, -⟩ := exists_index_of_party h.calls (parties_loop ht)
      refine ⟨{ w with sem := n }.goto j .collectLock, .single (a := .advance j) trivial ?_,
        h.triggered, rfl, h.mutex, h.sources, ?_, h.stores, hr⟩
      · have hsem : w.sem = n + 1 := h.sem.trans hn
        simp [WaitSet.machine, WaitSet.step, hj, WaitSet.callStep, hsem]
      · rw [parties_turn]
        exact hset _
  | timesOut ht =>
      rw [undelivered_of_thread ht] at hr
      obtain ⟨j, hj, -, herase, -⟩ := exists_index_of_party h.calls (parties_loop ht)
      refine ⟨(w.leave j).log (.returned []), .single (a := .timeout j) trivial ?_,
        h.triggered, h.sem, h.mutex, h.sources, ?_, ?_, ?_⟩
      · simp [WaitSet.machine, WaitSet.step, hj]
      · rw [parties_turn]
        exact herase
      · intro src
        rw [stores_log]
        exact h.stores src
      · rw [returned_log]
        exact (List.append_nil _).trans hr
  | collectLocks ht hm =>
      rw [undelivered_of_thread ht] at hr
      obtain ⟨j, hj, hset, -⟩ := exists_index_of_party h.calls (parties_loop ht)
      refine ⟨{ w with mutex := true }.goto j (.collectScan w.sources []),
        .single (a := .advance j) trivial ?_, h.triggered, h.sem, rfl, h.sources, ?_, h.stores, hr⟩
      · simp [WaitSet.machine, WaitSet.step, hj, WaitSet.callStep, h.mutex, hm]
      · rw [parties_turn, h.sources]
        exact hset _
  | @collects src rest result ht hf =>
      rw [undelivered_of_thread ht] at hr
      obtain ⟨j, hj, hset, -⟩ := exists_index_of_party h.calls (parties_loop ht)
      refine ⟨{ w with triggered := Function.update w.triggered src false }.goto j
          (.collectScan rest (result ++ [src])), .single (a := .advance j) trivial ?_,
        congrArg (Function.update · src false) h.triggered, h.sem, h.mutex, h.sources, ?_, h.stores,
        hr⟩
      · simp [WaitSet.machine, WaitSet.step, hj, WaitSet.callStep, h.triggered, hf]
      · rw [parties_turn]
        exact hset _
  | @skips src rest result ht hf =>
      rw [undelivered_of_thread ht] at hr
      obtain ⟨j, hj, hset, -⟩ := exists_index_of_party h.calls (parties_loop ht)
      refine ⟨w.goto j (.collectScan rest result), .single (a := .advance j) trivial ?_,
        h.triggered, h.sem, h.mutex, h.sources, ?_, h.stores, hr⟩
      · simp [WaitSet.machine, WaitSet.step, hj, WaitSet.callStep, h.triggered, hf]
      · rw [parties_turn]
        exact hset _
  | @collected result ht =>
      rw [undelivered_of_thread ht] at hr
      obtain ⟨j, hj, -, herase, -⟩ := exists_index_of_party h.calls (parties_loop ht)
      refine ⟨({ w with mutex := false }.leave j).log (.returned result),
        .single (a := .advance j) trivial ?_, h.triggered, h.sem, rfl, h.sources, ?_, ?_, ?_⟩
      · simp [WaitSet.machine, WaitSet.step, hj, WaitSet.callStep]
      · rw [parties_turn]
        exact herase
      · intro src
        rw [stores_log]
        exact h.stores src
      · rw [returned_log]
        exact congrArg (· ++ result) (hr.trans (List.append_nil _))
  | @locksEntries triggered ht hm =>
      exact ⟨w, .refl _, h.turn ht rfl true (.dispatch triggered) rfl rfl⟩
  | @dispatches src rest ht =>
      rw [undelivered_of_thread ht] at hr
      obtain ⟨e, -, heq⟩ := runCallback_eq (hk.loop _ ht src List.mem_cons_self)
      rw [heq]
      refine ⟨w, .refl _, h.triggered, h.sem, h.mutex, h.sources, ?_, ?_, ?_⟩
      · rw [parties_turn]
        exact (perm_of_idle_party h.calls (parties_loop ht)).2.1
      · intro x
        rw [h.stores x]
        show _ = ((s.log ++ [Event.called src e.cb]).filterMap Event.storedSource).count x
        rw [List.filterMap_append]
        exact congrArg (List.count x) (List.append_nil _).symm
      · rw [hr]
        simp [State.called, State.turn, Event.calledSource, State.undelivered, Loop.undelivered]
  | dispatched ht => exact ⟨w, .refl _, h.turn ht rfl false .check rfl rfl⟩

theorem OwnerMoved.follows {a : Action Source Callback} (hm : OwnerMoved s a s')
    (hspawn : Spawning s) (h : Refines s w) : Follows w s' := by
  cases hm with
  | starts ho =>
      have hparty : s.parties[0]? = some none := by simp [State.parties, ho, Owner.inWaitSet]
      exact ⟨w, .refl _, h.triggered, h.sem, h.mutex, h.sources,
        (perm_of_idle_party h.calls hparty).2.1, h.stores, h.returned⟩
  | spawns ho =>
      have ht := hspawn ho
      have hr := h.returned
      have hcalls := h.calls
      rw [State.undelivered, ht] at hr
      rw [State.parties, ho, ht] at hcalls
      exact ⟨w, .refl _, h.triggered, h.sem, h.mutex, h.sources, hcalls, h.stores, hr⟩
  | stops ho =>
      have hparty : s.parties[0]? = some none := by simp [State.parties, ho, Owner.inWaitSet]
      exact ⟨{ w with calls := w.calls ++ [.semPost] }, .single (a := .call .post) trivial rfl,
        h.triggered, h.sem, h.mutex, h.sources,
        (perm_of_idle_party h.calls hparty).1 .semPost, h.stores, h.returned⟩
  | posts ho =>
      have hparty : s.parties[0]? = some (some .semPost) := by
        simp [State.parties, ho, Owner.inWaitSet]
      obtain ⟨j, hj, -, herase, -⟩ := exists_index_of_party h.calls hparty
      refine ⟨{ w with sem := w.sem + 1 }.leave j, .single (a := .advance j) trivial ?_,
        h.triggered, congrArg (· + 1) h.sem, h.mutex, h.sources, herase, h.stores, h.returned⟩
      simp [WaitSet.machine, WaitSet.step, hj, WaitSet.callStep]
  | joins ho ht =>
      have hr := h.returned
      have hcalls := h.calls
      rw [State.parties, ho] at hcalls
      rcases ht with ht | ht
      · rw [State.undelivered, ht] at hr
        rw [ht] at hcalls
        exact ⟨w, .refl _, h.triggered, h.sem, h.mutex, h.sources, hcalls, h.stores, hr⟩
      · rw [State.undelivered, ht] at hr
        rw [ht] at hcalls
        exact ⟨w, .refl _, h.triggered, h.sem, h.mutex, h.sources, hcalls, h.stores, hr⟩

/-- **Refinement.** A step of the listener is a step of the wait set inside it, or none. -/
theorem step_refines {a : Action Source Callback} (hs : step s a = some s')
    (hg : AttachedFirst s a) (hk : Known s) (hspawn : Spawning s) (h : Refines s w) :
    Follows w s' := by
  cases step_moved hs with
  | called request =>
      cases request with
      | attachWithCallback src cb =>
          refine ⟨w, .refl _, h.triggered, h.sem, h.mutex, h.sources, ?_, h.stores, h.returned⟩
          rw [parties_called]
          exact h.calls.trans (by simp [Request.start, Pc.inWaitSet])
      | fireEvent src =>
          refine ⟨{ w with calls := w.calls ++ [.fireStore src] },
            .single (a := .call (.fireEvent src)) ?_ rfl,
            h.triggered, h.sem, h.mutex, h.sources, ?_, h.stores, h.returned⟩
          · show src ∈ w.sources
            rw [h.sources]
            exact hg
          · rw [parties_called]
            exact (h.calls.append_right _).trans (by simp [Request.start, Pc.inWaitSet])
      | post =>
          refine ⟨{ w with calls := w.calls ++ [.semPost] }, .single (a := .call .post) trivial rfl,
            h.triggered, h.sem, h.mutex, h.sources, ?_, h.stores, h.returned⟩
          rw [parties_called]
          exact (h.calls.append_right _).trans (by simp [Request.start, Pc.inWaitSet])
  | call hm => exact hm.follows h
  | loop _ hm => exact hm.follows hk h
  | owner hm => exact hm.follows hspawn h

/-- Inside every state that the listener reaches is a state that the wait set reaches. -/
theorem reachable_refines (h : (machine Source Callback).Reachable AttachedFirst s) :
    ∃ w, (WaitSet.machine Source).Reachable WaitSet.AttachedFirst w ∧ Refines s w := by
  refine h.invariant (I := fun s =>
    ∃ w, (WaitSet.machine Source).Reachable WaitSet.AttachedFirst w ∧ Refines s w)
    ⟨_, .init, rfl, rfl, rfl, rfl, List.Perm.refl _, fun _ => rfl, rfl⟩ ?_
  rintro s a s' hr ⟨w, hw, href⟩ hg hs
  obtain ⟨w', hsteps, href'⟩ := step_refines hs hg (reachable_known hr) (reachable_spawning hr) href
  exact ⟨w', hw.trans hsteps, href'⟩

end Steps

end CppCode.MiniListener
