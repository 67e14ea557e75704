import CppCode.MiniListener.Refinement

/-!
# CppCode.MiniListener.Stop

**`stop()` comes back.** `stop()` joins a thread that takes two mutexes in turn, while calls of
`attachWithCallback()` hold one of them and wait for the other. Nobody waits for ever: who holds
a mutex is known (`Exclusive`), the background thread holds at most one and never waits for the
other meanwhile, and a call that holds `m_mtx` waits only for a mutex whose holder can go on.
Each such step lowers `State.rank`, so `stop()` returns without any help from outside
(`stop_returns`). Once it has, no callback is run before the next `start()`.

The same count says that `m_entries` and `m_sources` are not touched while the loops of the
background thread go over them (`entries_kept`, `sources_kept`).
-/

namespace CppCode.MiniListener

open Concurrency

variable {Source Callback : Type}

/-! ### Who holds the mutexes -/

/-- The call holds `m_mtx`. -/
def Pc.holdsEntries : Pc Source Callback → Bool
  | .attachEntry _ _ | .attachWsLock _ | .attachSource _ | .attachWsUnlock | .attachUnlock => true
  | .attachLock _ _ | .fireStore _ | .firePost _ | .semPost => false

/-- The call holds the mutex of the wait set. -/
def Pc.holdsSources : Pc Source Callback → Bool
  | .attachSource _ | .attachWsUnlock => true
  | .attachLock _ _ | .attachEntry _ _ | .attachWsLock _ | .attachUnlock | .fireStore _
  | .firePost _ | .semPost => false

def Loop.holdsEntries : Loop Source → Bool
  | .dispatch _ => true
  | .check | .timedWait | .collectLock | .collectScan _ _ | .lockEntries _ | .ended => false

def Loop.holdsSources : Loop Source → Bool
  | .collectScan _ _ => true
  | .check | .timedWait | .collectLock | .lockEntries _ | .dispatch _ | .ended => false

/-- Each mutex has one holder if it is locked, and none otherwise. -/
structure Exclusive (s : State Source Callback) : Prop where
  entries : s.calls.countP Pc.holdsEntries + (s.thread.any Loop.holdsEntries).toNat =
    s.mutex.toNat
  sources : s.calls.countP Pc.holdsSources + (s.thread.any Loop.holdsSources).toNat =
    s.wsMutex.toNat

variable {s s' : State Source Callback} {i : Nat} {old new : Pc Source Callback}
  {oldLoop newLoop : Loop Source}

/-- A call moves on; it locks or unlocks what it holds more or less than before. -/
theorem Exclusive.goto (h : Exclusive s) (hi : s.calls[i]? = some old)
    (hcalls : s'.calls = s.calls.set i new) (ht : s'.thread = s.thread)
    (he : s'.mutex.toNat + old.holdsEntries.toNat = s.mutex.toNat + new.holdsEntries.toNat)
    (hs : s'.wsMutex.toNat + old.holdsSources.toNat =
      s.wsMutex.toNat + new.holdsSources.toNat) : Exclusive s' := by
  have hentries : _ + old.holdsEntries.toNat = _ := countP_set Pc.holdsEntries hi new
  have hsources : _ + old.holdsSources.toNat = _ := countP_set Pc.holdsSources hi new
  rw [tally, ← hcalls] at hentries hsources
  obtain ⟨h₁, h₂⟩ := h
  constructor
  · rw [ht]
    omega
  · rw [ht]
    omega

/-- A call returns and unlocks what it held. -/
theorem Exclusive.leave (h : Exclusive s) (hi : s.calls[i]? = some old)
    (hcalls : s'.calls = s.calls.eraseIdx i) (ht : s'.thread = s.thread)
    (he : s'.mutex.toNat + old.holdsEntries.toNat = s.mutex.toNat)
    (hs : s'.wsMutex.toNat + old.holdsSources.toNat = s.wsMutex.toNat) : Exclusive s' := by
  have hentries : _ + old.holdsEntries.toNat = _ := countP_eraseIdx Pc.holdsEntries hi
  have hsources : _ + old.holdsSources.toNat = _ := countP_eraseIdx Pc.holdsSources hi
  rw [← hcalls] at hentries hsources
  obtain ⟨h₁, h₂⟩ := h
  constructor
  · rw [ht]
    omega
  · rw [ht]
    omega

/-- The background thread moves on. -/
theorem Exclusive.turn (h : Exclusive s) (hold : s.thread = some oldLoop)
    (hcalls : s'.calls = s.calls) (ht : s'.thread = some newLoop)
    (he : s'.mutex.toNat + oldLoop.holdsEntries.toNat =
      s.mutex.toNat + newLoop.holdsEntries.toNat)
    (hs : s'.wsMutex.toNat + oldLoop.holdsSources.toNat =
      s.wsMutex.toNat + newLoop.holdsSources.toNat) : Exclusive s' := by
  obtain ⟨h₁, h₂⟩ := h
  rw [hold, Option.any_some] at h₁ h₂
  constructor
  · rw [ht, hcalls, Option.any_some]
    omega
  · rw [ht, hcalls, Option.any_some]
    omega

theorem Exclusive.mutex_of_call (h : Exclusive s) (hi : s.calls[i]? = some old)
    (hold : old.holdsEntries = true) : s.mutex = true := by
  have hpos := List.countP_pos_iff.mpr ⟨old, List.mem_of_getElem? hi, hold⟩
  have hcount := h.entries
  cases hm : s.mutex with
  | true => rfl
  | false =>
      rw [hm, Bool.toNat_false] at hcount
      omega

theorem Exclusive.wsMutex_of_call (h : Exclusive s) (hi : s.calls[i]? = some old)
    (hold : old.holdsSources = true) : s.wsMutex = true := by
  have hpos := List.countP_pos_iff.mpr ⟨old, List.mem_of_getElem? hi, hold⟩
  have hcount := h.sources
  cases hm : s.wsMutex with
  | true => rfl
  | false =>
      rw [hm, Bool.toNat_false] at hcount
      omega

/-- While the background thread holds `m_mtx`, no call does. -/
theorem Exclusive.of_dispatch {triggered : List Source} (h : Exclusive s)
    (ht : s.thread = some (.dispatch triggered)) :
    s.mutex = true ∧ ∀ pc ∈ s.calls, pc.holdsEntries = false := by
  have hcount := h.entries
  rw [ht, Option.any_some, show Loop.holdsEntries (.dispatch triggered) = true from rfl,
    Bool.toNat_true] at hcount
  have hle := Bool.toNat_le s.mutex
  refine ⟨Bool.toNat_eq_one.mp (by omega), ?_⟩
  have hzero : s.calls.countP Pc.holdsEntries = 0 := by omega
  intro pc hpc
  exact Bool.eq_false_iff.mpr (List.countP_eq_zero.mp hzero pc hpc)

/-- While the background thread holds the mutex of the wait set, no call does. -/
theorem Exclusive.of_collectScan {rest result : List Source} (h : Exclusive s)
    (ht : s.thread = some (.collectScan rest result)) :
    s.wsMutex = true ∧ ∀ pc ∈ s.calls, pc.holdsSources = false := by
  have hcount := h.sources
  rw [ht, Option.any_some, show Loop.holdsSources (.collectScan rest result) = true from rfl,
    Bool.toNat_true] at hcount
  have hle := Bool.toNat_le s.wsMutex
  refine ⟨Bool.toNat_eq_one.mp (by omega), ?_⟩
  have hzero : s.calls.countP Pc.holdsSources = 0 := by omega
  intro pc hpc
  exact Bool.eq_false_iff.mpr (List.countP_eq_zero.mp hzero pc hpc)

section Steps

variable [DecidableEq Source]

theorem CallMoved.exclusive (hm : CallMoved s i s') (h : Exclusive s) : Exclusive s' := by
  cases hm with
  | attachLocks hi hm => exact h.goto hi rfl rfl (by rw [hm]; rfl) rfl
  | attachesEntry hi => exact h.goto hi rfl rfl rfl rfl
  | attachWsLocks hi hm => exact h.goto hi rfl rfl rfl (by rw [hm]; rfl)
  | attachesSource hi => exact h.goto hi rfl rfl rfl rfl
  | attachWsUnlocks hi => exact h.goto hi rfl rfl rfl (by rw [h.wsMutex_of_call hi rfl]; rfl)
  | attachUnlocks hi => exact h.leave hi rfl rfl (by rw [h.mutex_of_call hi rfl]; rfl) rfl
  | stores hi => exact h.goto hi rfl rfl rfl rfl
  | posts hi hpc =>
      rcases hpc with ⟨src, rfl⟩ | rfl
      · exact h.leave hi rfl rfl rfl rfl
      · exact h.leave hi rfl rfl rfl rfl

theorem LoopMoved.exclusive (hm : LoopMoved s s') (h : Exclusive s) : Exclusive s' := by
  cases hm with
  | runs ht | ends ht | takesToken ht | timesOut ht | collects ht | skips ht =>
      exact h.turn ht rfl rfl rfl rfl
  | collectLocks ht hm => exact h.turn ht rfl rfl rfl (by rw [hm]; rfl)
  | collected ht => exact h.turn ht rfl rfl rfl (by rw [(h.of_collectScan ht).1]; rfl)
  | locksEntries ht hm => exact h.turn ht rfl rfl (by rw [hm]; rfl) rfl
  | @dispatches src rest ht =>
      obtain ⟨log, hlog⟩ := runCallback_log s src
      rw [hlog]
      exact h.turn ht rfl rfl rfl rfl
  | dispatched ht => exact h.turn ht rfl rfl (by rw [(h.of_dispatch ht).1]; rfl) rfl

omit [DecidableEq Source] in
theorem OwnerMoved.exclusive {a : Action Source Callback} (hm : OwnerMoved s a s')
    (hspawn : Spawning s) (h : Exclusive s) : Exclusive s' := by
  cases hm with
  | starts | stops | posts => exact ⟨h.entries, h.sources⟩
  | spawns ho =>
      obtain ⟨h₁, h₂⟩ := h
      rw [hspawn ho] at h₁ h₂
      exact ⟨h₁, h₂⟩
  | joins ho ht =>
      obtain ⟨h₁, h₂⟩ := h
      rcases ht with ht | ht
      · rw [ht] at h₁ h₂
        exact ⟨h₁, h₂⟩
      · rw [ht] at h₁ h₂
        exact ⟨h₁, h₂⟩

theorem reachable_exclusive {G : Guard (State Source Callback) (Action Source Callback)}
    (h : (machine Source Callback).Reachable G s) : Exclusive s := by
  refine h.invariant ⟨rfl, rfl⟩ ?_
  intro s a s' hr hi _ hs
  cases step_moved hs with
  | called request =>
      have hentries := countP_concat Pc.holdsEntries s.calls request.start
      have hsources := countP_concat Pc.holdsSources s.calls request.start
      have hstart : tally Pc.holdsEntries request.start = 0 ∧
          tally Pc.holdsSources request.start = 0 := by
        cases request <;> exact ⟨rfl, rfl⟩
      rw [hstart.1] at hentries
      rw [hstart.2] at hsources
      exact ⟨hentries ▸ hi.entries, hsources ▸ hi.sources⟩
  | call hm => exact hm.exclusive hi
  | loop _ hm => exact hm.exclusive hi
  | owner hm => exact hm.exclusive (reachable_spawning hr) hi

/-- `m_entries` does not change under the loop that looks for a callback. -/
theorem entries_kept {G : Guard (State Source Callback) (Action Source Callback)}
    {triggered : List Source} (h : (machine Source Callback).Reachable G s)
    (ht : s.thread = some (.dispatch triggered)) {a : Action Source Callback}
    (hs : step s a = some s') : s'.entries = s.entries := by
  cases step_moved hs with
  | called => rfl
  | call hm =>
      cases hm with
      | attachesEntry hi =>
          have hfree := ((reachable_exclusive h).of_dispatch ht).2 _ (List.mem_of_getElem? hi)
          cases hfree
      | _ => rfl
  | loop _ hm =>
      cases hm with
      | @dispatches src rest =>
          obtain ⟨log, hlog⟩ := runCallback_log s src
          rw [hlog]
          rfl
      | _ => rfl
  | owner hm => cases hm <;> rfl

/-- `m_sources` does not change under the loop of `collectTriggered()`. -/
theorem sources_kept {G : Guard (State Source Callback) (Action Source Callback)}
    {rest result : List Source} (h : (machine Source Callback).Reachable G s)
    (ht : s.thread = some (.collectScan rest result)) {a : Action Source Callback}
    (hs : step s a = some s') : s'.sources = s.sources := by
  cases step_moved hs with
  | called => rfl
  | call hm =>
      cases hm with
      | attachesSource hi =>
          have hfree := ((reachable_exclusive h).of_collectScan ht).2 _ (List.mem_of_getElem? hi)
          cases hfree
      | _ => rfl
  | loop _ hm =>
      cases hm with
      | @dispatches src rest =>
          obtain ⟨log, hlog⟩ := runCallback_log s src
          rw [hlog]
          rfl
      | _ => rfl
  | owner hm => cases hm <;> rfl

/-! ### The way to the end of `stop()` -/

/-- `stop()` has been called and has not returned. -/
def State.stopping (s : State Source Callback) : Bool :=
  match s.owner with
  | .stopPost | .stopJoin => true
  | .idle | .startSpawn => false

/-- A step of somebody who is already inside: no new call, no `start()` or `stop()`. -/
def Inside : Guard (State Source Callback) (Action Source Callback) := fun _ a =>
  match a with
  | .advance _ | .owner | .loop | .timeout => True
  | .call _ | .start | .stop => False

/-- The steps that a call has before it, at most. -/
def Pc.rank : Pc Source Callback → Nat
  | .attachLock _ _ => 6
  | .attachEntry _ _ => 5
  | .attachWsLock _ => 4
  | .attachSource _ => 3
  | .attachWsUnlock => 2
  | .attachUnlock => 1
  | .fireStore _ => 2
  | .firePost _ => 1
  | .semPost => 1

/-- The steps that the background thread has before it once `m_running` is false, at most, when
`n` sources are attached. -/
def Loop.rank (n : Nat) : Loop Source → Nat
  | .timedWait => 6 + 2 * n
  | .collectLock => 5 + 2 * n
  | .collectScan rest result => 4 + 2 * rest.length + result.length
  | .lockEntries triggered => 3 + triggered.length
  | .dispatch triggered => 2 + triggered.length
  | .check => 1
  | .ended => 0

def Owner.rank : Owner → Nat
  | .stopPost => 2
  | .stopJoin => 1
  | .idle | .startSpawn => 0

/-- A bound for the steps to the end of `stop()`. A call counts three times for each of its
steps, since it may attach a source that the background thread has to look at. -/
def State.rank (s : State Source Callback) : Nat :=
  s.owner.rank + (s.thread.map (Loop.rank s.sources.length)).getD 0 +
    (s.calls.map fun pc => 3 * pc.rank).sum

omit [DecidableEq Source] in
theorem Loop.rank_le (pc : Loop Source) {n n' : Nat} (hn : n' ≤ n + 1) :
    pc.rank n' ≤ pc.rank n + 2 := by
  cases pc <;> simp only [Loop.rank] <;> omega

omit [DecidableEq Source] in
theorem rank_goto (hi : s.calls[i]? = some old) (hcalls : s'.calls = s.calls.set i new)
    (ho : s'.owner = s.owner) (ht : s'.thread = s.thread)
    (hsources : s'.sources.length ≤ s.sources.length + 1) (hrank : new.rank < old.rank) :
    s'.rank < s.rank := by
  have hsum := sum_map_set (fun pc : Pc Source Callback => 3 * pc.rank) hi new
  have hloop : (s.thread.map (Loop.rank s'.sources.length)).getD 0 ≤
      (s.thread.map (Loop.rank s.sources.length)).getD 0 + 2 := by
    cases s.thread with
    | none => exact Nat.zero_le _
    | some pc => exact pc.rank_le hsources
  rw [State.rank, State.rank, ho, ht, hcalls]
  omega

omit [DecidableEq Source] in
theorem rank_leave (hi : s.calls[i]? = some old) (hcalls : s'.calls = s.calls.eraseIdx i)
    (ho : s'.owner = s.owner) (ht : s'.thread = s.thread) (hsources : s'.sources = s.sources)
    (hrank : 0 < old.rank) : s'.rank < s.rank := by
  have hsum := sum_map_eraseIdx (fun pc : Pc Source Callback => 3 * pc.rank) hi
  rw [State.rank, State.rank, ho, ht, hcalls, hsources]
  omega

/-- A call goes on. -/
theorem CallMoved.rank_lt (hm : CallMoved s i s') : s'.rank < s.rank := by
  cases hm with
  | attachesSource hi =>
      refine rank_goto hi rfl rfl rfl ?_ (by simp [Pc.rank])
      exact Nat.le_of_eq List.length_append
  | attachLocks hi | attachesEntry hi | attachWsLocks hi | attachWsUnlocks hi | stores hi =>
      exact rank_goto hi rfl rfl rfl (Nat.le_succ _) (by simp [Pc.rank])
  | attachUnlocks hi => exact rank_leave hi rfl rfl rfl rfl Nat.one_pos
  | posts hi hpc =>
      rcases hpc with ⟨src, rfl⟩ | rfl
      · exact rank_leave hi rfl rfl rfl rfl Nat.one_pos
      · exact rank_leave hi rfl rfl rfl rfl Nat.one_pos

omit [DecidableEq Source] in
theorem rank_turn (hold : s.thread = some oldLoop) (hcalls : s'.calls = s.calls)
    (ho : s'.owner = s.owner) (hsources : s'.sources = s.sources) (ht : s'.thread = some newLoop)
    (hrank : newLoop.rank s.sources.length < oldLoop.rank s.sources.length) :
    s'.rank < s.rank := by
  rw [State.rank, State.rank, ho, ht, hold, hcalls, hsources]
  simp only [Option.map_some, Option.getD_some]
  omega

/-- The background thread goes on after `m_running` has become false. -/
theorem LoopMoved.rank_lt (hm : LoopMoved s s') (hr : s.running = false) : s'.rank < s.rank := by
  cases hm with
  | runs ht hr' =>
      rw [hr] at hr'
      cases hr'
  | ends ht | takesToken ht | timesOut ht | collectLocks ht | collects ht | skips ht | collected ht
  | locksEntries ht | dispatched ht =>
      refine rank_turn ht rfl rfl rfl rfl ?_
      simp only [Loop.rank, List.length_cons, List.length_append, List.length_nil]
      omega
  | @dispatches src rest ht =>
      obtain ⟨log, hlog⟩ := runCallback_log s src
      rw [hlog]
      refine rank_turn ht rfl rfl rfl rfl ?_
      simp only [Loop.rank, List.length_cons]
      omega

/-! ### Who can go on -/

omit [DecidableEq Source] in
theorem exists_holder {p : Pc Source Callback → Bool} {n : Nat}
    (h : s.calls.countP p + n = 1) (hn : n = 0) :
    ∃ (i : Nat) (pc : _), s.calls[i]? = some pc ∧ p pc = true := by
  obtain ⟨pc, hpc, hp⟩ := List.countP_pos_iff.mp (show 0 < s.calls.countP p by omega)
  obtain ⟨i, hi⟩ := List.mem_iff_getElem?.mp hpc
  exact ⟨i, pc, hi, hp⟩

/-- The call that holds the mutex of the wait set can go on. -/
theorem advance_of_wsMutex (h : Exclusive s) (hm : s.wsMutex = true)
    (ht : s.thread.any Loop.holdsSources = false) : ∃ i s', step s (.advance i) = some s' := by
  have hcount := h.sources
  rw [hm, ht] at hcount
  obtain ⟨i, pc, hi, hp⟩ := exists_holder hcount rfl
  refine ⟨i, ?_⟩
  rw [step, hi]
  cases pc with
  | attachSource | attachWsUnlock => exact ⟨_, rfl⟩
  | _ => cases hp

/-- The call that holds `m_mtx` can go on, or the one that it waits for. -/
theorem advance_of_mutex (h : Exclusive s) (hm : s.mutex = true)
    (ht : s.thread.any Loop.holdsEntries = false)
    (hts : s.thread.any Loop.holdsSources = false) : ∃ i s', step s (.advance i) = some s' := by
  have hcount := h.entries
  rw [hm, ht] at hcount
  obtain ⟨i, pc, hi, hp⟩ := exists_holder hcount rfl
  cases hws : s.wsMutex with
  | true => exact advance_of_wsMutex h hws hts
  | false =>
      refine ⟨i, ?_⟩
      rw [step, hi]
      cases pc with
      | attachEntry | attachSource | attachWsUnlock | attachUnlock => exact ⟨_, rfl⟩
      | attachWsLock src => exact ⟨_, by simp only [callStep, hws]; rfl⟩
      | _ => cases hp

/-- `stop()` has stored `m_running` before it does anything else. -/
theorem reachable_not_running {G : Guard (State Source Callback) (Action Source Callback)}
    (h : (machine Source Callback).Reachable G s) (hstop : s.stopping = true) :
    s.running = false := by
  revert hstop
  refine h.invariant (I := fun s => s.stopping = true → s.running = false) (fun _ => rfl) ?_
  intro s a s' _ hi _ hs hstop
  cases step_moved hs with
  | called => exact hi hstop
  | call hm => cases hm <;> exact hi hstop
  | loop _ hm =>
      cases hm with
      | @dispatches src rest =>
          obtain ⟨log, hlog⟩ := runCallback_log s src
          rw [hlog] at hstop ⊢
          exact hi hstop
      | _ => exact hi hstop
  | owner hm =>
      cases hm with
      | starts | spawns | joins => cases hstop
      | stops => rfl
      | posts ho => exact hi (by rw [State.stopping, ho])

/-- Somebody inside can go on. -/
theorem exists_inside_step (h : Exclusive s) (hstop : s.stopping = true) :
    ∃ a s', Inside s a ∧ step s a = some s' := by
  cases ho : s.owner with
  | idle | startSpawn =>
      rw [State.stopping, ho] at hstop
      cases hstop
  | stopPost => exact ⟨.owner, _, trivial, by rw [step, ownerStep, ho]⟩
  | stopJoin =>
      cases ht : s.thread with
      | none => exact ⟨.owner, _, trivial, by simp only [step, ownerStep, ho, ht]; rfl⟩
      | some pc =>
          have hloop : ∀ s', loopStep s pc = some s' → ∃ a s', Inside s a ∧ step s a = some s' := by
            intro s' hs
            exact ⟨.loop, s', trivial, by rw [step, ht]; exact hs⟩
          have hcall : (∃ i s', step s (.advance i) = some s') →
              ∃ a s', Inside s a ∧ step s a = some s' := by
            rintro ⟨i, s', hs⟩
            exact ⟨.advance i, s', trivial, hs⟩
          cases pc with
          | ended => exact ⟨.owner, _, trivial, by simp only [step, ownerStep, ho, ht]; rfl⟩
          | check => exact hloop _ rfl
          | timedWait => exact ⟨.timeout, _, trivial, by rw [step, ht]⟩
          | collectLock =>
              cases hm : s.wsMutex with
              | false => exact hloop _ (by simp only [loopStep, hm]; rfl)
              | true => exact hcall (advance_of_wsMutex h hm (by rw [ht]; rfl))
          | collectScan rest result =>
              cases rest with
              | nil => exact hloop _ rfl
              | cons src rest =>
                  cases hf : s.triggered src with
                  | true => exact hloop _ (by simp only [loopStep, hf]; rfl)
                  | false => exact hloop _ (by simp only [loopStep, hf]; rfl)
          | lockEntries triggered =>
              cases hm : s.mutex with
              | false => exact hloop _ (by simp only [loopStep, hm]; rfl)
              | true => exact hcall (advance_of_mutex h hm (by rw [ht]; rfl) (by rw [ht]; rfl))
          | dispatch triggered =>
              cases triggered with
              | nil => exact hloop _ rfl
              | cons src rest => exact hloop _ rfl

/-- A step inside brings `stop()` closer to its end, or is its end. -/
theorem inside_step {a : Action Source Callback} (hg : Inside s a) (hs : step s a = some s')
    (hr : s.running = false) (hstop : s.stopping = true) :
    (s'.stopping = true ∧ s'.rank < s.rank) ∨ (s'.owner = .idle ∧ s'.thread = none) := by
  cases step_moved hs with
  | called => cases hg
  | call hm =>
      refine .inl ⟨?_, hm.rank_lt⟩
      cases hm <;> exact hstop
  | loop _ hm =>
      refine .inl ⟨?_, hm.rank_lt hr⟩
      cases hm with
      | @dispatches src rest =>
          obtain ⟨log, hlog⟩ := runCallback_log s src
          rw [hlog]
          exact hstop
      | _ => exact hstop
  | owner hm =>
      cases hm with
      | starts ho | spawns ho | stops ho =>
          rw [State.stopping, ho] at hstop
          cases hstop
      | posts ho =>
          refine .inl ⟨rfl, ?_⟩
          rw [State.rank, State.rank, ho]
          simp only [Owner.rank]
          omega
      | joins => exact .inr ⟨rfl, rfl⟩

omit [DecidableEq Source] in
theorem rank_pos (hstop : s.stopping = true) : 0 < s.rank := by
  rw [State.rank]
  cases ho : s.owner with
  | idle | startSpawn =>
      rw [State.stopping, ho] at hstop
      cases hstop
  | stopPost | stopJoin =>
      simp only [Owner.rank]
      omega

theorem exists_return (n : Nat) {s : State Source Callback}
    (h : (machine Source Callback).Reachable Machine.free s) (hstop : s.stopping = true)
    (hn : s.rank ≤ n) :
    ∃ s', (machine Source Callback).Steps Inside s s' ∧ s'.owner = .idle ∧ s'.thread = none := by
  induction n generalizing s with
  | zero => exact absurd (rank_pos hstop) (by omega)
  | succ n ih =>
      obtain ⟨a, s', hg, hs⟩ := exists_inside_step (reachable_exclusive h) hstop
      rcases inside_step hg hs (reachable_not_running h hstop) hstop with ⟨hstop', hlt⟩ | hend
      · obtain ⟨s'', hsteps, hend⟩ := ih (h.step trivial hs) hstop' (by omega)
        exact ⟨s'', (Machine.Steps.single hg hs).trans hsteps, hend⟩
      · exact ⟨s', .single hg hs, hend⟩

/-! ### After `stop()` -/

/-- No `start()`. -/
def NoStart : Guard (State Source Callback) (Action Source Callback) := fun _ a => a ≠ .start

/-- There is no background thread and none is being created. -/
structure Quiet (s : State Source Callback) : Prop where
  thread : s.thread = none
  owner : s.owner ≠ .startSpawn

theorem step_quiet {a : Action Source Callback} (hs : step s a = some s') (hg : NoStart s a)
    (h : Quiet s) : Quiet s' ∧ s'.called = s.called := by
  cases step_moved hs with
  | called => exact ⟨⟨h.thread, h.owner⟩, rfl⟩
  | call hm =>
      cases hm with
      | stores =>
          refine ⟨⟨h.thread, h.owner⟩, ?_⟩
          show (s.log ++ _).filterMap _ = _
          rw [List.filterMap_append]
          exact List.append_nil _
      | _ => exact ⟨⟨h.thread, h.owner⟩, rfl⟩
  | loop _ hm =>
      have hthread := h.thread
      cases hm with
      | _ ht =>
          rw [hthread] at ht
          cases ht
  | owner hm =>
      cases hm with
      | starts => exact absurd rfl hg
      | spawns ho => exact absurd ho h.owner
      | stops | posts => exact ⟨⟨h.thread, by intro ho; cases ho⟩, rfl⟩
      | joins => exact ⟨⟨rfl, by intro ho; cases ho⟩, rfl⟩

theorem steps_quiet (h : (machine Source Callback).Steps NoStart s s') (hq : Quiet s) :
    s'.called = s.called := by
  refine (h.invariant (I := fun t => Quiet t ∧ t.called = s.called) ⟨hq, rfl⟩ ?_).2
  rintro t a t' ⟨hquiet, hcalled⟩ hg hs
  obtain ⟨hquiet', hcalled'⟩ := step_quiet hs hg hquiet
  exact ⟨hquiet', hcalled'.trans hcalled⟩

/-- `stop()` is under way, or it has returned. -/
def Halting (s : State Source Callback) : Prop := s.stopping = true ∨ Quiet s

theorem step_halting {a : Action Source Callback} (hs : step s a = some s') (hg : NoStart s a)
    (h : Halting s) : Halting s' := by
  rcases h with hstop | hquiet
  · cases step_moved hs with
    | called => exact .inl hstop
    | call hm => cases hm <;> exact .inl hstop
    | loop _ hm =>
        cases hm with
        | @dispatches src rest =>
            obtain ⟨log, hlog⟩ := runCallback_log s src
            rw [hlog]
            exact .inl hstop
        | _ => exact .inl hstop
    | owner hm =>
        cases hm with
        | starts => exact absurd rfl hg
        | spawns ho =>
            rw [State.stopping, ho] at hstop
            cases hstop
        | stops | posts => exact .inl rfl
        | joins => exact .inr ⟨rfl, by intro ho; cases ho⟩
  · exact .inr (step_quiet hs hg hquiet).1

end Steps

/-- **`stop()` comes back, and the callbacks stop.** From every reachable state in which
`stop()` is under way, steps of the threads that are already inside lead to its return, with
the background thread gone; no new call is needed. And whenever it has returned, no callback is
run before the next `start()`, whatever is fired and attached in the meantime. -/
theorem stop_returns {Source Callback : Type} [DecidableEq Source] {s : State Source Callback}
    (h : (machine Source Callback).Reachable Machine.free s) (hstop : s.stopping = true) :
    (∃ s', (machine Source Callback).Steps Inside s s' ∧ s'.owner = .idle ∧ s'.thread = none) ∧
      ∀ s' s'', (machine Source Callback).Steps NoStart s s' → s'.owner = .idle →
        (machine Source Callback).Steps NoStart s' s'' → s''.called = s'.called := by
  refine ⟨exists_return s.rank h hstop (Nat.le_refl _), ?_⟩
  intro s' s'' hsteps hidle hsteps'
  have hhalt : Halting s' :=
    hsteps.invariant (.inl hstop) fun hi hg hs => step_halting hs hg hi
  rcases hhalt with hstop' | hquiet
  · rw [State.stopping, hidle] at hstop'
    cases hstop'
  · exact steps_quiet hsteps' hquiet

/-- `stop()` comes while the background thread waits for `m_mtx`, which an
`attachWithCallback()` holds. -/
theorem stop_returns_behind_attach :
    ∃ s : State Nat Nat, (machine Nat Nat).Reachable Machine.free s ∧ s.stopping = true ∧
      s.thread = some (.lockEntries []) ∧ s.mutex = true ∧
      ∃ s', (machine Nat Nat).Steps Inside s s' ∧ s'.owner = .idle ∧ s'.thread = none := by
  obtain ⟨s, hs, hp⟩ := Machine.reachable_of_exec (M := machine Nat Nat)
    (l := [Action.start, .owner, .loop, .call (.attachWithCallback 0 7), .advance 0, .timeout,
      .stop])
    (p := fun s => s.stopping && decide (s.thread = some (.lockEntries [])) && s.mutex) (by decide)
  simp only [Bool.and_eq_true, decide_eq_true_eq] at hp
  exact ⟨s, hs, hp.1.1, hp.1.2, hp.2, (stop_returns hs hp.1.1).1⟩

end CppCode.MiniListener
