import CppCode.Concurrency.Slots
import CppCode.ThreadPool.Model

/-!
# CppCode.ThreadPool.LongRunning

**Stopping the long-running tasks.** `stop()` clears `is_running_` and, later, takes
`long_running_workers_mutex_` and calls `request_stop()` for every registered task.
`addLongRunningTask()` looks at `is_running_` *before* it takes the same mutex: a call
that has passed its check can wait for the mutex while the whole `stop()` goes by,
and then register a task that nobody will ever stop (`registered_after_stop`).

That is the only way: if no such call is waiting when `stop()` gets the mutex, then
every task that is ever registered has had its `request_stop()` by the time `stop()`
returns (`stop_reaches_every_task`).

The same window is dangerous when the waiting call is made by a long-running task
itself: `stop()` keeps the mutex while it joins the task (`joins_blocked_task`).
Without such a call it never joins a task that waits for it
(`stop_never_joins_blocked_task`).
-/

namespace CppCode.ThreadPool

open Concurrency

variable {s s' : State}

/-- Inside `addLongRunningTask()`, past the check of `is_running_`. -/
def Pc.adding : Pc → Bool
  | .addLock | .addEmplace | .addUnlock _ => true
  | _ => false

/-- Inside the `stop()` that won the compare-exchange. -/
def Pc.stopping : Pc → Bool
  | .stopIo | .stopJoinSmall | .stopLock | .stopLoop _ | .stopJoin _ _ | .stopClear
  | .stopUnlock => true
  | _ => false

/-- Inside `stop()`, with the mutex held. -/
def Pc.sweeping : Pc → Bool
  | .stopLoop _ | .stopJoin _ _ | .stopClear | .stopUnlock => true
  | _ => false

theorem Pc.stopping_of_sweeping {pc : Pc} (h : pc.sweeping = true) : pc.stopping = true := by
  cases pc with
  | stopLoop | stopJoin | stopClear | stopUnlock => rfl
  | addLock | addEmplace | addUnlock | enqueue | stopIo | stopJoinSmall | stopLock => cases h

/-- The tasks whose `request_stop()` is still to come in the loop of `stop()`. -/
def Pc.rest : Pc → List Nat
  | .stopLoop rest | .stopJoin _ rest => rest
  | _ => []

/-- A call that holds `long_running_workers_mutex_`. -/
def Call.critical (c : Call) : Bool :=
  match c.pc with
  | .addEmplace | .addUnlock _ => true
  | pc => pc.sweeping

/-- The step with which `stop()` takes the mutex. -/
def takesStopLock (s : State) : Action → Bool
  | .advance i => s.calls[i]?.any fun c => c.pc == .stopLock
  | _ => false

/-- When `stop()` takes the mutex, no `addLongRunningTask()` is between its check of
`is_running_` and the mutex. -/
def NoPassedRegistration : Guard State Action := fun s a =>
  takesStopLock s a = true → ∀ c ∈ s.calls, c.pc ≠ .addLock

instance (s : State) (a : Action) : Decidable (NoPassedRegistration s a) :=
  inferInstanceAs (Decidable (_ → ∀ c ∈ s.calls, _))

/-! ### The mutex -/

/-- `long_running_workers_mutex_` is held by the one call inside its critical section. -/
def Exclusive (s : State) : Prop := s.calls.countP Call.critical = s.mutex.toNat

/-- One call moves: the count changes by what the move adds. -/
theorem critical_goto {i m m' : Nat} {c : Call} {pc : Pc} (h : s.calls.countP Call.critical = m)
    (hi : s.calls[i]? = some c)
    (hm : m + tally Call.critical { c with pc := pc } = m' + tally Call.critical c) :
    (s.calls.set i { c with pc := pc }).countP Call.critical = m' := by
  have hset := countP_set Call.critical hi { c with pc := pc }
  omega

theorem Moved.exclusive {a : Action} (hm : Moved s a s') (h : Exclusive s) : Exclusive s' := by
  cases hm with
  | addRefused | submitRefused | stopRefused | taskReturned | took | ranPost | spawned | completed
  | suspended | woke | exited => exact h
  | addStarts | submitStarts | stopStarts => exact (countP_concat _ _ _).trans h
  | addLocks hi hm => exact critical_goto h hi (by rw [hm]; rfl)
  | stopLocks hi hm => exact critical_goto h hi (by rw [hm]; rfl)
  | addEmplaces hi | loopEnds hi | requestsStop hi | joins hi | clears hi | stopsIo hi
  | joinsSmall hi => exact critical_goto h hi rfl
  | addUnlocks hi | stopUnlocks hi =>
      have herase := countP_eraseIdx Call.critical hi
      have hle := Bool.toNat_le s.mutex
      rw [show s.calls.countP Call.critical = _ from h] at herase
      exact Nat.le_zero.mp (Nat.le_of_succ_le_succ (Nat.le_trans (Nat.le_of_eq herase) hle))
  | enqueues hi => exact (countP_eraseIdx Call.critical hi).trans h

theorem reachable_exclusive {n : Nat} {jobs : List Job} {G : Guard State Action}
    (h : (machine n jobs).Reachable G s) : Exclusive s :=
  h.invariant rfl fun _ hi _ hs => (step_moved hs).exclusive hi

/-- While the mutex is free nobody is in a critical section. -/
theorem Exclusive.not_critical (h : Exclusive s) (hm : s.mutex = false) {c : Call}
    (hc : c ∈ s.calls) : c.critical = false := by
  have hzero : s.calls.countP Call.critical = 0 := by
    rw [h, hm]
    rfl
  exact Bool.eq_false_iff.mpr (List.countP_eq_zero.mp hzero c hc)

/-! ### The sweep -/

/-- `Registry`, over the components of a state. -/
structure RegistryAt (isRunning : Bool) (workers requested : List Nat) (nextTask : Nat)
    (calls : List Call) (history : List Event) : Prop where
  /-- Before the compare-exchange of `stop()` there is no `stop()`. -/
  flag : isRunning = true → (∀ c ∈ calls, c.pc.stopping = false) ∧ .stopped true ∉ history
  /-- Once `stop()` has the mutex, nobody registers any more. -/
  quiet : (∃ c ∈ calls, c.pc.sweeping = true) ∨ .stopped true ∈ history →
    ∀ c ∈ calls, c.pc.adding = false
  /-- Every task started is registered, or has been asked to stop. -/
  covered : ∀ t < nextTask, t ∈ workers ∨ t ∈ requested
  /-- The loop of `stop()` has asked every task that is not still ahead of it. -/
  swept : ∀ c ∈ calls, c.pc.sweeping = true → ∀ t < nextTask, t ∈ requested ∨ t ∈ c.pc.rest
  done : .stopped true ∈ history → ∀ t < nextTask, t ∈ requested
  started : ∀ t, .added (some t) ∈ history → t < nextTask
  starting : ∀ c ∈ calls, ∀ t, c.pc = .addUnlock t → t < nextTask

abbrev Registry (s : State) : Prop :=
  RegistryAt s.isRunning s.longRunningWorkers s.stopRequested s.nextTask s.calls s.history

section Components

variable {isRunning : Bool} {workers requested requested' : List Nat} {nextTask : Nat}
  {calls calls' : List Call} {history : List Event}

/-- A call in progress takes a step that starts no task: it stays in its phase, and
what its loop has ahead of it shrinks only by tasks that have been asked. -/
theorem RegistryAt.goto (h : RegistryAt isRunning workers requested nextTask calls history)
    {i : Nat} {c : Call} {pc : Pc} (hi : calls[i]? = some c)
    (hstop : pc.stopping = true → c.pc.stopping = true)
    (hadd : pc.adding = true → c.pc.adding = true)
    (hsweep : pc.sweeping = true → c.pc.sweeping = true)
    (hreq : ∀ t ∈ requested, t ∈ requested')
    (hrest : pc.sweeping = true → ∀ t ∈ c.pc.rest, t ∈ requested' ∨ t ∈ pc.rest)
    (hid : ∀ t, pc ≠ .addUnlock t) :
    RegistryAt isRunning workers requested' nextTask (calls.set i { c with pc := pc })
      history := by
  have hc : c ∈ calls := List.mem_of_getElem? hi
  constructor
  case flag =>
    intro hr
    obtain ⟨hcalls, hnone⟩ := h.flag hr
    refine ⟨?_, hnone⟩
    intro d hd
    rcases List.mem_or_eq_of_mem_set hd with hd | rfl
    · exact hcalls d hd
    · exact Bool.eq_false_iff.mpr fun ht => Bool.eq_false_iff.mp (hcalls c hc) (hstop ht)
  case quiet =>
    intro hs d hd
    have hquiet : ∀ c ∈ calls, c.pc.adding = false := by
      refine h.quiet ?_
      rcases hs with ⟨e, he, hes⟩ | hs
      · rcases List.mem_or_eq_of_mem_set he with he | rfl
        · exact .inl ⟨e, he, hes⟩
        · exact .inl ⟨c, hc, hsweep hes⟩
      · exact .inr hs
    rcases List.mem_or_eq_of_mem_set hd with hd | rfl
    · exact hquiet d hd
    · exact Bool.eq_false_iff.mpr fun ht => Bool.eq_false_iff.mp (hquiet c hc) (hadd ht)
  case covered =>
    intro t ht
    exact (h.covered t ht).imp id (hreq t)
  case swept =>
    intro d hd hs t ht
    rcases List.mem_or_eq_of_mem_set hd with hd | rfl
    · exact (h.swept d hd hs t ht).imp (hreq t) id
    · rcases h.swept c hc (hsweep hs) t ht with hmem | hmem
      · exact .inl (hreq t hmem)
      · exact hrest hs t hmem
  case done =>
    intro hd t ht
    exact hreq t (h.done hd t ht)
  case started => exact h.started
  case starting =>
    intro d hd t he
    rcases List.mem_or_eq_of_mem_set hd with hd | rfl
    · exact h.starting d hd t he
    · exact absurd he (hid t)

/-- A call returns with an event that does not matter here, or none starts. -/
theorem RegistryAt.leave (h : RegistryAt isRunning workers requested nextTask calls history)
    {e : Event} (hsub : ∀ c ∈ calls', c ∈ calls) (hstop : e ≠ .stopped true)
    (hadd : ∀ t, e = .added (some t) → t < nextTask) :
    RegistryAt isRunning workers requested nextTask calls' (history ++ [e]) := by
  have hdone : .stopped true ∈ history ++ [e] → .stopped true ∈ history := by
    intro hd
    rcases mem_concat.mp hd with hd | hd
    · exact hd
    · exact absurd hd.symm hstop
  constructor
  case flag =>
    intro hr
    obtain ⟨hcalls, hnone⟩ := h.flag hr
    exact ⟨fun c hc => hcalls c (hsub c hc), fun hd => hnone (hdone hd)⟩
  case quiet =>
    intro hs c hc
    refine h.quiet ?_ c (hsub c hc)
    rcases hs with ⟨d, hd, hds⟩ | hs
    · exact .inl ⟨d, hsub d hd, hds⟩
    · exact .inr (hdone hs)
  case covered => exact h.covered
  case swept =>
    intro c hc
    exact h.swept c (hsub c hc)
  case done =>
    intro hd
    exact h.done (hdone hd)
  case started =>
    intro t ht
    rcases mem_concat.mp ht with ht | ht
    · exact h.started t ht
    · exact hadd t ht.symm
  case starting =>
    intro c hc
    exact h.starting c (hsub c hc)

end Components

/-- A call goes past its check of `is_running_`: it is no `stop()`, or the one that
has just cleared the flag. -/
theorem RegistryAt.enter {isRunning isRunning' : Bool} {workers requested : List Nat}
    {nextTask : Nat} {calls : List Call} {history : List Event}
    (h : RegistryAt isRunning workers requested nextTask calls history) (hr : isRunning = true)
    {caller : Caller} {pc : Pc} (hs : pc.sweeping = false) (hu : ∀ t, pc ≠ .addUnlock t)
    (hstop : isRunning' = true → pc.stopping = false) :
    RegistryAt isRunning' workers requested nextTask (calls ++ [⟨caller, pc⟩]) history := by
  obtain ⟨hcalls, hnone⟩ := h.flag hr
  have hnosweep : ∀ c ∈ calls ++ [⟨caller, pc⟩], c.pc.sweeping = false := by
    intro c hc
    rcases mem_concat.mp hc with hc | rfl
    · refine Bool.eq_false_iff.mpr fun hsweep => ?_
      have hstopping := Pc.stopping_of_sweeping hsweep
      rw [hcalls c hc] at hstopping
      cases hstopping
    · exact hs
  constructor
  case flag =>
    intro hr'
    refine ⟨?_, hnone⟩
    intro c hc
    rcases mem_concat.mp hc with hc | rfl
    · exact hcalls c hc
    · exact hstop hr'
  case quiet =>
    intro hsw
    rcases hsw with ⟨c, hc, hsw⟩ | hd
    · rw [hnosweep c hc] at hsw
      cases hsw
    · exact absurd hd hnone
  case covered => exact h.covered
  case swept =>
    intro c hc hsw
    rw [hnosweep c hc] at hsw
    cases hsw
  case done => exact h.done
  case started => exact h.started
  case starting =>
    intro c hc t he
    rcases mem_concat.mp hc with hc | rfl
    · exact h.starting c hc t he
    · exact absurd he (hu t)

/-- A call that is registering a task shows that no sweep has begun. -/
theorem RegistryAt.not_swept {isRunning : Bool} {workers requested : List Nat} {nextTask : Nat}
    {calls : List Call} {history : List Event}
    (h : RegistryAt isRunning workers requested nextTask calls history) {c : Call}
    (hc : c ∈ calls) (ha : c.pc.adding = true) :
    (∀ d ∈ calls, d.pc.sweeping = false) ∧ .stopped true ∉ history := by
  refine ⟨fun d hd => Bool.eq_false_iff.mpr fun hs => ?_, fun hd => ?_⟩
  · rw [h.quiet (.inl ⟨d, hd, hs⟩) c hc] at ha
    cases ha
  · rw [h.quiet (.inr hd) c hc] at ha
    cases ha

theorem addEmplaces_registry {i : Nat} {caller : Caller} (h : Registry s)
    (hi : s.calls[i]? = some ⟨caller, .addEmplace⟩) :
    RegistryAt s.isRunning (s.longRunningWorkers ++ [s.nextTask]) s.stopRequested (s.nextTask + 1)
      (s.calls.set i ⟨caller, .addUnlock s.nextTask⟩) s.history := by
  have hc := List.mem_of_getElem? hi
  obtain ⟨hsweep, hnone⟩ := h.not_swept hc rfl
  have hnosweep : ∀ d ∈ s.calls.set i ⟨caller, .addUnlock s.nextTask⟩, d.pc.sweeping = false := by
    intro d hd
    rcases List.mem_or_eq_of_mem_set hd with hd | rfl
    · exact hsweep d hd
    · rfl
  constructor
  case flag =>
    intro hr
    refine ⟨?_, hnone⟩
    intro d hd
    rcases List.mem_or_eq_of_mem_set hd with hd | rfl
    · exact (h.flag hr).1 d hd
    · rfl
  case quiet =>
    intro hs
    rcases hs with ⟨d, hd, hs⟩ | hd
    · rw [hnosweep d hd] at hs
      cases hs
    · exact absurd hd hnone
  case covered =>
    intro t ht
    rcases Nat.lt_succ_iff_lt_or_eq.mp ht with ht | rfl
    · exact (h.covered t ht).imp (List.mem_append_left _) id
    · exact .inl List.mem_concat_self
  case swept =>
    intro d hd hs
    rw [hnosweep d hd] at hs
    cases hs
  case done =>
    intro hd
    exact absurd hd hnone
  case started =>
    intro t ht
    exact Nat.lt_succ_of_lt (h.started t ht)
  case starting =>
    intro d hd t he
    rcases List.mem_or_eq_of_mem_set hd with hd | rfl
    · exact Nat.lt_succ_of_lt (h.starting d hd t he)
    · cases he
      exact Nat.lt_succ_self _

/-- `stop()` takes the mutex. The registrations that were past their check have been
made: they would hold the mutex, or wait for it, which the guard excludes. -/
theorem stopLocks_registry {i : Nat} {caller : Caller} (h : Registry s) (hex : Exclusive s)
    (hi : s.calls[i]? = some ⟨caller, .stopLock⟩) (hm : s.mutex = false)
    (hg : ∀ c ∈ s.calls, c.pc ≠ .addLock) :
    RegistryAt s.isRunning s.longRunningWorkers s.stopRequested s.nextTask
      (s.calls.set i ⟨caller, .stopLoop s.longRunningWorkers⟩) s.history := by
  have hc := List.mem_of_getElem? hi
  have hquiet : ∀ d ∈ s.calls, d.pc.adding = false := by
    intro d hd
    have hcrit := hex.not_critical hm hd
    have hlock := hg d hd
    cases hpc : d.pc with
    | addLock => exact absurd hpc hlock
    | addEmplace | addUnlock => simp [Call.critical, hpc] at hcrit
    | _ => rfl
  constructor
  case flag =>
    intro hr
    exact absurd ((h.flag hr).1 _ hc) nofun
  case quiet =>
    intro _ d hd
    rcases List.mem_or_eq_of_mem_set hd with hd | rfl
    · exact hquiet d hd
    · rfl
  case covered => exact h.covered
  case swept =>
    intro d hd hs t ht
    rcases List.mem_or_eq_of_mem_set hd with hd | rfl
    · exact h.swept d hd hs t ht
    · exact (h.covered t ht).symm
  case done => exact h.done
  case started => exact h.started
  case starting =>
    intro d hd t he
    rcases List.mem_or_eq_of_mem_set hd with hd | rfl
    · exact h.starting d hd t he
    · cases he

theorem stopUnlocks_registry {i : Nat} {caller : Caller} (h : Registry s)
    (hi : s.calls[i]? = some ⟨caller, .stopUnlock⟩) :
    RegistryAt s.isRunning s.longRunningWorkers s.stopRequested s.nextTask (s.calls.eraseIdx i)
      (s.history ++ [.stopped true]) := by
  have hc := List.mem_of_getElem? hi
  have hsub : ∀ d ∈ s.calls.eraseIdx i, d ∈ s.calls := fun d => List.mem_of_mem_eraseIdx
  have hquiet := h.quiet (.inl ⟨_, hc, rfl⟩)
  constructor
  case flag =>
    intro hr
    exact absurd ((h.flag hr).1 _ hc) nofun
  case quiet =>
    intro _ d hd
    exact hquiet d (hsub d hd)
  case covered => exact h.covered
  case swept =>
    intro d hd
    exact h.swept d (hsub d hd)
  case done =>
    -- the loop is over: nothing is left ahead of it
    intro _ t ht
    exact (h.swept _ hc rfl t ht).resolve_right List.not_mem_nil
  case started =>
    intro t ht
    rcases mem_concat.mp ht with ht | ht
    · exact h.started t ht
    · cases ht
  case starting =>
    intro d hd
    exact h.starting d (hsub d hd)

theorem Moved.registry {a : Action} (hm : Moved s a s') (hg : NoPassedRegistration s a)
    (hex : Exclusive s) (h : Registry s) : Registry s' := by
  cases hm with
  | taskReturned | took | ranPost | spawned | completed | suspended | woke | exited => exact h
  | addRefused | submitRefused | stopRefused => exact h.leave (fun _ hc => hc) nofun nofun
  | addStarts hm hr | submitStarts hm hj hr => exact h.enter hr rfl nofun fun _ => rfl
  | stopStarts hm hr => exact h.enter hr rfl nofun nofun
  | addLocks hi => exact h.goto hi nofun (fun _ => rfl) nofun (fun _ ht => ht) nofun nofun
  | stopsIo hi | joinsSmall hi =>
      exact h.goto hi (fun _ => rfl) nofun nofun (fun _ ht => ht) nofun nofun
  | addEmplaces hi => exact addEmplaces_registry h hi
  | addUnlocks hi =>
      have hc := List.mem_of_getElem? hi
      refine h.leave (fun _ => List.mem_of_mem_eraseIdx) nofun ?_
      intro t ht
      cases ht
      exact h.starting _ hc _ rfl
  | enqueues hi => exact h.leave (fun _ => List.mem_of_mem_eraseIdx) nofun nofun
  | stopLocks hi hm =>
      refine stopLocks_registry h hex hi hm (hg ?_)
      simp [takesStopLock, hi]
  | loopEnds hi =>
      exact h.goto hi (fun _ => rfl) nofun (fun _ => rfl) (fun _ ht => ht)
        (fun _ _ ht => absurd ht List.not_mem_nil) nofun
  | requestsStop hi =>
      refine h.goto hi (fun _ => rfl) nofun (fun _ => rfl) (fun _ => List.mem_append_left _)
        (fun _ t ht => ?_) nofun
      rcases List.mem_cons.mp ht with rfl | ht
      · exact .inl List.mem_concat_self
      · exact .inr ht
  | joins hi =>
      exact h.goto hi (fun _ => rfl) nofun (fun _ => rfl) (fun _ ht => ht)
        (fun _ _ ht => .inr ht) nofun
  | clears hi =>
      -- the loop is over, so every task has been asked and the list is not needed any more
      have hc := List.mem_of_getElem? hi
      have h' : RegistryAt s.isRunning s.longRunningWorkers s.stopRequested s.nextTask
          (s.calls.set _ ⟨_, .stopUnlock⟩) s.history :=
        h.goto hi (fun _ => rfl) nofun (fun _ => rfl) (fun _ ht => ht)
          (fun _ _ ht => absurd ht List.not_mem_nil) nofun
      refine ⟨h'.flag, h'.quiet, fun t ht => .inr ?_, h'.swept, h'.done, h'.started, h'.starting⟩
      exact (h.swept _ hc rfl t ht).resolve_right List.not_mem_nil
  | stopUnlocks hi => exact stopUnlocks_registry h hi

theorem registry_start (n : Nat) (jobs : List Job) : Registry (State.start n jobs) where
  flag := fun _ => ⟨nofun, List.not_mem_nil⟩
  quiet := fun _ => nofun
  covered := nofun
  swept := nofun
  done := fun _ => nofun
  started := nofun
  starting := nofun

theorem reachable_registry {n : Nat} {jobs : List Job}
    (h : (machine n jobs).Reachable NoPassedRegistration s) : Registry s := by
  refine h.invariant (registry_start n jobs) ?_
  intro s a s' hr hi hg hs
  exact (step_moved hs).registry hg (reachable_exclusive hr) hi

/-- After the sweep no step starts a task, and none takes back the return of `stop()`. -/
theorem Moved.after_stop {a : Action} (hm : Moved s a s') (h : Registry s)
    (hd : .stopped true ∈ s.history) :
    .stopped true ∈ s'.history ∧ s'.nextTask = s.nextTask := by
  cases hm with
  | addEmplaces hi =>
      have hc := List.mem_of_getElem? hi
      exact absurd (h.quiet (.inr hd) _ hc) nofun
  | addStarts | submitStarts | stopStarts | addLocks | stopsIo | joinsSmall | stopLocks | loopEnds
  | requestsStop | joins | clears | taskReturned | took | ranPost | spawned | completed
  | suspended | woke | exited => exact ⟨hd, rfl⟩
  | addRefused | submitRefused | stopRefused | addUnlocks | enqueues | stopUnlocks =>
      exact ⟨List.mem_append_left _ hd, rfl⟩

/-- **Stopping reaches every task.** In every run in which no `addLongRunningTask()` is
between its check of `is_running_` and the mutex when `stop()` takes the mutex: once the
`stop()` that won the compare-exchange has returned, every task for which
`addLongRunningTask()` has returned true, or does so in any continuation, has had
`request_stop()` called on its own `stop_source`. -/
theorem stop_reaches_every_task {n : Nat} {jobs : List Job} {s s' : State}
    (h : (machine n jobs).Reachable NoPassedRegistration s) (hd : .stopped true ∈ s.history)
    (hs : (machine n jobs).Steps NoPassedRegistration s s') {t : Nat}
    (ht : .added (some t) ∈ s'.history) : t ∈ s.stopRequested := by
  have key : (machine n jobs).Reachable NoPassedRegistration s' ∧
      .stopped true ∈ s'.history ∧ s'.nextTask = s.nextTask := by
    refine hs.invariant (I := fun u => (machine n jobs).Reachable NoPassedRegistration u ∧
      .stopped true ∈ u.history ∧ u.nextTask = s.nextTask) ⟨h, hd, rfl⟩ ?_
    rintro u a u' ⟨hr, hdone, hnext⟩ hg hst
    obtain ⟨hdone', hnext'⟩ := (step_moved hst).after_stop (reachable_registry hr) hdone
    exact ⟨hr.step hg hst, hdone', hnext'.trans hnext⟩
  obtain ⟨hr, -, hnext⟩ := key
  have hlt := (reachable_registry hr).started t ht
  rw [hnext] at hlt
  exact (reachable_registry h).done hd t hlt

/-- `addLongRunningTask()` from outside, undisturbed. -/
def register : List Action :=
  [.call .external .addLongRunningTask, .advance 0, .advance 0, .advance 0]

/-- `stop()` from outside on a pool with one worker, as the only call in progress, up
to the mutex. -/
def stopToLock : List Action :=
  [.call .external .stop, .advance 0, .exit 0, .advance 0]

theorem stop_reaches_every_task_registered :
    ∃ s, (machine 1 []).Reachable NoPassedRegistration s ∧ .stopped true ∈ s.history ∧
      .added (some 0) ∈ s.history ∧ 0 ∈ s.stopRequested := by
  obtain ⟨s, hs, hp⟩ := Machine.reachable_of_execWithin (M := machine 1 [])
    (G := NoPassedRegistration)
    (l := register ++ stopToLock ++ [Action.advance 0, .advance 0, .taskReturns 0, .advance 0,
      .advance 0, .advance 0, .advance 0])
    (p := fun s => decide (.stopped true ∈ s.history) && decide (.added (some 0) ∈ s.history))
    (by decide)
  simp only [Bool.and_eq_true, decide_eq_true_eq] at hp
  exact ⟨s, hs, hp.1, hp.2, stop_reaches_every_task hs hp.1 (Machine.Steps.refl s) hp.2⟩

/-- A registration passes its check of `is_running_`, the whole `stop()` goes by, and
the registration completes: it returns true for a task that nobody asks to stop. -/
theorem registered_after_stop :
    ∃ s, (machine 1 []).Reachable Machine.free s ∧ .stopped true ∈ s.history ∧
      .added (some 0) ∈ s.history ∧ 0 ∉ s.stopRequested ∧ s.calls = [] := by
  obtain ⟨s, hs, hp⟩ := Machine.reachable_of_exec (M := machine 1 [])
    (l := [.call .external .addLongRunningTask, .call .external .stop, .advance 1, .exit 0,
      .advance 1, .advance 1, .advance 1, .advance 1, .advance 1, .advance 0, .advance 0,
      .advance 0])
    (p := fun s => decide (.stopped true ∈ s.history) && decide (.added (some 0) ∈ s.history) &&
      decide (0 ∉ s.stopRequested) && decide (s.calls = [])) (by decide)
  simp only [Bool.and_eq_true, decide_eq_true_eq] at hp
  exact ⟨s, hs, hp.1.1.1, hp.1.1.2, hp.1.2, hp.2⟩

/-! ### Joining with the mutex held -/

/-- When `stop()` takes the mutex, no long-running task is inside `addLongRunningTask()`
between its check of `is_running_` and the mutex. -/
def NoPassedTask : Guard State Action := fun s a =>
  takesStopLock s a = true → ∀ c ∈ s.calls, c.pc = .addLock → c.caller = .external

instance (s : State) (a : Action) : Decidable (NoPassedTask s a) :=
  inferInstanceAs (Decidable (_ → ∀ c ∈ s.calls, _))

/-- `Unblocked`, over the components of a state. -/
structure UnblockedAt (isRunning : Bool) (calls : List Call) : Prop where
  /-- Before the compare-exchange of `stop()` there is no `stop()`. -/
  flag : isRunning = true → ∀ c ∈ calls, c.pc.stopping = false
  /-- While `stop()` has the mutex, no long-running task waits for it. -/
  free : ∀ c ∈ calls, c.pc.sweeping = true → ∀ d ∈ calls, d.pc = .addLock → d.caller = .external

abbrev Unblocked (s : State) : Prop := UnblockedAt s.isRunning s.calls

section Unblocked

variable {isRunning isRunning' : Bool} {calls calls' : List Call}

/-- Calls return. -/
theorem UnblockedAt.leave (h : UnblockedAt isRunning calls) (hsub : ∀ c ∈ calls', c ∈ calls) :
    UnblockedAt isRunning calls' where
  flag := fun hr c hc => h.flag hr c (hsub c hc)
  free := fun c hc hs d hd => h.free c (hsub c hc) hs d (hsub d hd)

/-- A call in progress goes on, without taking the mutex for `stop()`. -/
theorem UnblockedAt.goto (h : UnblockedAt isRunning calls) {i : Nat} {c : Call} {pc : Pc}
    (hi : calls[i]? = some c) (hstop : pc.stopping = true → c.pc.stopping = true)
    (hsweep : pc.sweeping = true → c.pc.sweeping = true) (hlock : pc ≠ .addLock) :
    UnblockedAt isRunning (calls.set i { c with pc := pc }) := by
  have hc : c ∈ calls := List.mem_of_getElem? hi
  constructor
  case flag =>
    intro hr d hd
    rcases List.mem_or_eq_of_mem_set hd with hd | rfl
    · exact h.flag hr d hd
    · exact Bool.eq_false_iff.mpr fun ht => Bool.eq_false_iff.mp (h.flag hr c hc) (hstop ht)
  case free =>
    intro e he hs d hd hpc
    have hd' : d ∈ calls := by
      rcases List.mem_or_eq_of_mem_set hd with hd | rfl
      · exact hd
      · exact absurd hpc hlock
    rcases List.mem_or_eq_of_mem_set he with he | rfl
    · exact h.free e he hs d hd' hpc
    · exact h.free c hc (hsweep hs) d hd' hpc

/-- A call goes past its check of `is_running_`, while there is no `stop()`. -/
theorem UnblockedAt.enter (h : UnblockedAt isRunning calls) (hr : isRunning = true)
    {caller : Caller} {pc : Pc} (hs : pc.sweeping = false)
    (hstop : isRunning' = true → pc.stopping = false) :
    UnblockedAt isRunning' (calls ++ [⟨caller, pc⟩]) := by
  constructor
  case flag =>
    intro hr' c hc
    rcases mem_concat.mp hc with hc | rfl
    · exact h.flag hr c hc
    · exact hstop hr'
  case free =>
    intro c hc hsweep
    rcases mem_concat.mp hc with hc | rfl
    · have hstopping := Pc.stopping_of_sweeping hsweep
      rw [h.flag hr c hc] at hstopping
      cases hstopping
    · rw [hs] at hsweep
      cases hsweep

end Unblocked

/-- `stop()` takes the mutex: the guard says that no task waits for it. -/
theorem stopLocks_unblocked {i : Nat} {caller : Caller} (h : Unblocked s)
    (hi : s.calls[i]? = some ⟨caller, .stopLock⟩)
    (hg : ∀ c ∈ s.calls, c.pc = .addLock → c.caller = .external) :
    UnblockedAt s.isRunning
      (s.calls.set i ⟨caller, .stopLoop s.longRunningWorkers⟩) := by
  have hc := List.mem_of_getElem? hi
  constructor
  case flag =>
    intro hr
    exact absurd (h.flag hr _ hc) nofun
  case free =>
    intro _ _ _ d hd hpc
    rcases List.mem_or_eq_of_mem_set hd with hd | rfl
    · exact hg d hd hpc
    · cases hpc

theorem Moved.unblocked {a : Action} (hm : Moved s a s') (hg : NoPassedTask s a)
    (h : Unblocked s) : Unblocked s' := by
  cases hm with
  | addRefused | submitRefused | stopRefused | taskReturned | took | ranPost | spawned | completed
  | suspended | woke | exited => exact h
  | addStarts hm hr | submitStarts hm hj hr => exact h.enter hr rfl fun _ => rfl
  | stopStarts hm hr => exact h.enter hr rfl nofun
  | addLocks hi | addEmplaces hi => exact h.goto hi nofun nofun nofun
  | addUnlocks hi | enqueues hi | stopUnlocks hi => exact h.leave fun _ => List.mem_of_mem_eraseIdx
  | stopsIo hi | joinsSmall hi => exact h.goto hi (fun _ => rfl) nofun nofun
  | stopLocks hi hm =>
      refine stopLocks_unblocked h hi (hg ?_)
      simp [takesStopLock, hi]
  | loopEnds hi | requestsStop hi | joins hi | clears hi =>
      exact h.goto hi (fun _ => rfl) (fun _ => rfl) nofun

theorem reachable_unblocked {n : Nat} {jobs : List Job}
    (h : (machine n jobs).Reachable NoPassedTask s) : Unblocked s := by
  refine h.invariant ⟨fun _ => nofun, nofun⟩ ?_
  intro s a s' _ hi hg hs
  exact (step_moved hs).unblocked hg hi

/-- **No join of a task that waits for the mutex.** In every run in which no
long-running task is between its check of `is_running_` and the mutex when `stop()`
takes the mutex: whenever `stop()`, which then holds the mutex, is at the `join()` of a
task, no call of that task waits for the mutex. -/
theorem stop_never_joins_blocked_task {n : Nat} {jobs : List Job} {s : State}
    (h : (machine n jobs).Reachable NoPassedTask s) {c d : Call} (hc : c ∈ s.calls)
    (hd : d ∈ s.calls) {t : Nat} {rest : List Nat} (hjoin : c.pc = .stopJoin t rest)
    (htask : d.caller = .task t) : d.pc ≠ .addLock := by
  intro hlock
  have hsweep : c.pc.sweeping = true := by
    rw [hjoin]
    rfl
  have hexternal := (reachable_unblocked h).free c hc hsweep d hd hlock
  rw [hexternal] at htask
  cases htask

/-- `stop()` is at the `join()` of task 0, whose own registration came to its end
before. -/
theorem stop_never_joins_blocked_task_registered :
    ∃ s, (machine 1 []).Reachable NoPassedTask s ∧ ⟨.external, .stopJoin 0 [1]⟩ ∈ s.calls ∧
      ∀ d ∈ s.calls, d.caller = .task 0 → d.pc ≠ .addLock := by
  obtain ⟨s, hs, hp⟩ := Machine.reachable_of_execWithin (M := machine 1 []) (G := NoPassedTask)
    (l := register ++ [Action.call (.task 0) .addLongRunningTask, .advance 0, .advance 0,
      .advance 0] ++ stopToLock ++ [Action.advance 0, .advance 0])
    (p := fun s => decide (⟨.external, .stopJoin 0 [1]⟩ ∈ s.calls)) (by decide)
  have hmem := of_decide_eq_true hp
  exact ⟨s, hs, hmem, fun d hd => stop_never_joins_blocked_task hs hmem hd rfl⟩

/-- Task 0 passes its check of `is_running_`, then `stop()` takes the mutex and joins
task 0, which waits for that mutex. -/
theorem joins_blocked_task :
    ∃ s, (machine 1 []).Reachable Machine.free s ∧ s.mutex = true ∧
      ⟨.external, .stopJoin 0 []⟩ ∈ s.calls ∧ ⟨.task 0, .addLock⟩ ∈ s.calls := by
  obtain ⟨s, hs, hp⟩ := Machine.reachable_of_exec (M := machine 1 [])
    (l := register ++ [Action.call (.task 0) .addLongRunningTask, .call .external .stop, .advance 1,
      .exit 0, .advance 1, .advance 1, .advance 1])
    (p := fun s => decide (s.mutex = true) && decide (⟨.external, .stopJoin 0 []⟩ ∈ s.calls) &&
      decide (⟨.task 0, .addLock⟩ ∈ s.calls)) (by decide)
  simp only [Bool.and_eq_true, decide_eq_true_eq] at hp
  exact ⟨s, hs, hp.1.1, hp.1.2, hp.2⟩

end CppCode.ThreadPool
