import CppCode.Task.Lifecycle
import CppCode.Task.OtaTask

/-!
# CppCode.Task.Status

**Final statuses.** Callers poll `get_current_status()` until it returns
`COMPLETED`, `FAILED` or `CANCELLED`, and then rely on the answer. `set_status`
never leaves these three, and `run()`, `pause()` and `cancel()` check for them, but
the branch of `get_current_status()` that consumes the coroutine's future writes the
status without looking at the old one. A `CANCELLED` that `cancel()` stored, and a
caller has seen, becomes `COMPLETED` when the coroutine turns out to have returned
`SUCCESS` (`cancelled_becomes_completed`).

Nothing else ever overwrites a final status: in every run in which each consumed
outcome agrees with the final status it finds, what `get_current_status()` returned
once it returns for ever (`final_status_final`).

The branch is taken once. From then on the cached result and the status say the same, and
neither changes any more (`cached_result_agrees`).
-/

namespace CppCode.Task

open Concurrency

variable {T Loc : Type} {B : Body T Loc} {s s' : State T Loc}

def Event.status? : Event T → Option TaskStatus
  | .status answer => some answer
  | _ => none

/-- What the calls of `get_current_status()` have returned, oldest first. -/
def State.returnedStatuses (s : State T Loc) : List TaskStatus :=
  s.history.filterMap Event.status?

/-- The coroutine's future is ready, and the status is already final but not the one
that the outcome stands for. -/
def State.outcomeDisagrees (s : State T Loc) : Bool :=
  match s.result with
  | .ready outcome => s.currentStatus.terminal && statusOf outcome != s.currentStatus
  | .invalid | .pending => false

/-- No `get_current_status()` finds an outcome that disagrees with a final status. -/
def OutcomeAgrees : Guard (State T Loc) (Action T) := fun s a =>
  a = .getCurrentStatus → s.outcomeDisagrees = false

instance [DecidableEq T] (s : State T Loc) (a : Action T) : Decidable (OutcomeAgrees s a) :=
  inferInstanceAs (Decidable (_ → _))

/-- The status that `get_current_status()` consumes agrees with a final one. -/
theorem OutcomeAgrees.statusOf_eq {outcome : Outcome} (hg : OutcomeAgrees s .getCurrentStatus)
    (hr : s.result = .ready outcome) (ht : s.currentStatus.terminal = true) :
    statusOf outcome = s.currentStatus := by
  have hd := hg rfl
  simpa [State.outcomeDisagrees, hr, ht] using hd

theorem admits_pause_not_terminal {status : TaskStatus}
    (h : Request.pause.admits status = true) : status.terminal = false := by
  revert h
  cases status <;> decide

theorem admits_cancel_terminal {status : TaskStatus} (h : Request.cancel.admits status = true)
    (ht : status.terminal = true) : status = .cancelled := by
  revert h ht
  cases status <;> decide

/-- **One step keeps a final status**, unless it consumes an outcome that disagrees. -/
theorem Moved.final_status {a : Action T} (hm : Moved B s a s') (hlife : Lifecycle s)
    (hg : ∀ outcome, a = .getCurrentStatus → s.cachedResult = none → s.result = .ready outcome →
      statusOf outcome = s.currentStatus)
    (ht : s.currentStatus.terminal = true) : s'.currentStatus = s.currentStatus := by
  cases hm with
  | runRefused | posted | postThrew | pauseRefused | pauseStarts | cancelDone | cancelRefused
  | cancelStarts | sent | sendFailed | resumeStarts | resumed | resumeFailed | inputSent
  | inputRefused | polled | completed => rfl
  | runStarts hl hs => rw [hs] at ht; cases ht
  | stored hl =>
      rename_i r
      have ha := hlife.request r (.inr hl)
      cases r with
      | pause => rw [admits_pause_not_terminal ha] at ht; cases ht
      | cancel => exact (admits_cancel_terminal ha ht).symm
  | consumed hl hn hr => exact hg _ rfl hn hr
  | setStatus status hl => exact setStatus_of_terminal ht status
  | coro hm =>
      rcases hm.status with he | ⟨-, status, he⟩
      · exact he
      · rw [he]
        exact setStatus_of_terminal ht status

/-- One step returns the status it leaves, or none. -/
theorem Moved.returnedStatuses {a : Action T} (hm : Moved B s a s') :
    s'.returnedStatuses = s.returnedStatuses ∨
      s'.returnedStatuses = s.returnedStatuses ++ [s'.currentStatus] := by
  cases hm with
  | runStarts | pauseStarts | cancelStarts | sent | resumeStarts | setStatus | completed =>
      exact .inl rfl
  | runRefused | posted | postThrew | pauseRefused | cancelDone | cancelRefused | sendFailed
  | stored | resumed | resumeFailed | inputSent | inputRefused =>
      exact .inl ((State.filterMap_log _ _ _).trans (List.append_nil _))
  | polled => exact .inr (State.filterMap_log _ _ _)
  | consumed =>
      refine .inr ((State.filterMap_log _ _ _).trans (congrArg (· ++ _) ?_))
      exact (State.filterMap_log _ _ _).trans (List.append_nil _)
  | coro hm =>
      cases hm with
      | inputWins => exact .inl ((State.filterMap_log _ _ _).trans (List.append_nil _))
      | _ => exact .inl rfl

/-- Final statuses have been final, and the current one is the one returned. -/
structure Final (s : State T Loc) : Prop where
  seen : ∀ status ∈ s.returnedStatuses, status.terminal = true → s.currentStatus = status
  later : s.returnedStatuses.Pairwise fun status status' =>
    status.terminal = true → status' = status

theorem Moved.final {a : Action T} (hm : Moved B s a s') (hlife : Lifecycle s)
    (hg : OutcomeAgrees s a) (h : Final s) : Final s' := by
  -- a final status that was returned is the current one, and this step keeps it
  have hkeep : ∀ status ∈ s.returnedStatuses, status.terminal = true →
      s'.currentStatus = status := by
    intro status hmem ht
    have hcur := h.seen status hmem ht
    rw [← hcur] at ht ⊢
    refine hm.final_status hlife ?_ ht
    rintro outcome rfl - hr
    exact hg.statusOf_eq hr ht
  rcases hm.returnedStatuses with he | he
  · exact ⟨by rw [he]; exact hkeep, by rw [he]; exact h.later⟩
  · refine ⟨fun status hmem ht => ?_, ?_⟩
    · rw [he, List.mem_append, List.mem_singleton] at hmem
      rcases hmem with hmem | rfl
      · exact hkeep status hmem ht
      · rfl
    · rw [he, List.pairwise_append]
      refine ⟨h.later, List.pairwise_singleton _ _, ?_⟩
      intro status hmem status' hmem' ht
      rw [List.mem_singleton.mp hmem']
      exact hkeep status hmem ht

theorem reachable_final (h : (machine B).Reachable OutcomeAgrees s) : Final s := by
  refine h.invariant ⟨nofun, List.Pairwise.nil⟩ ?_
  intro s a s' hr hi hg hs
  exact (step_moved hs).final (reachable_lifecycle hr) hg hi

/-- **A final status is final.** In every run in which no `get_current_status()` finds
the coroutine's future ready with an outcome that disagrees with a final status: once
`get_current_status()` has returned `COMPLETED`, `FAILED` or `CANCELLED`, every later
call returns the same. -/
theorem final_status_final {T Loc : Type} {B : Body T Loc} {s : State T Loc}
    (h : (machine B).Reachable OutcomeAgrees s) :
    s.returnedStatuses.Pairwise fun status status' =>
      status.terminal = true → status' = status :=
  (reachable_final h).later

theorem final_status_final_completed :
    ∃ s, (machine otaTask).Reachable OutcomeAgrees s ∧
      s.returnedStatuses = [.running, .completed, .completed] ∧
      s.returnedStatuses.Pairwise fun status status' =>
        status.terminal = true → status' = status := by
  obtain ⟨s, hs, hp⟩ := Machine.reachable_of_execWithin (M := machine otaTask) (G := OutcomeAgrees)
    (l := launch ++ [Action.getCurrentStatus] ++ toRace ++ finishOn .idle ++
      [Action.complete, .getCurrentStatus, .getCurrentStatus])
    (p := fun s => s.returnedStatuses = [.running, .completed, .completed]) (by decide)
  exact ⟨s, hs, of_decide_eq_true hp, final_status_final hs⟩

/-- An `OtaTask` has a parameter in flight when it is cancelled. The caller sees
`CANCELLED`; the parameter makes the coroutine return `SUCCESS`, and the next call
returns `COMPLETED`. -/
theorem cancelled_becomes_completed :
    ∃ s, (machine otaTask).Reachable Machine.free s ∧
      s.returnedStatuses = [.cancelled, .completed] := by
  obtain ⟨s, hs, hp⟩ := Machine.reachable_of_exec (M := machine otaTask)
    (l := launch ++ toRace ++ [Action.sendInputParameters .idle, .cancel, .send, .store,
      .getCurrentStatus, .coro .inputWins, .coro .go, .complete, .getCurrentStatus])
    (p := fun s => s.returnedStatuses = [.cancelled, .completed]) (by decide)
  exact ⟨s, hs, of_decide_eq_true hp⟩

/-! ### The cached result -/

def Event.isResultGot : Event T → Bool
  | .resultGot => true
  | _ => false

/-- How often `result_.get()` was executed. -/
def State.resultGets (s : State T Loc) : Nat :=
  s.history.countP Event.isResultGot

/-- The future is consumed once; the cached result is what the coroutine came to, and the status
says the same. -/
structure Cached (s : State T Loc) : Prop where
  gets : s.resultGets = s.cachedResult.isSome.toNat
  agrees : ∀ r, s.cachedResult = some r → s.currentStatus = statusOf (some r)
  /-- An exception counts as `FAILURE`. -/
  finished : ∀ r, s.cachedResult = some r →
    s.coro = .finished (some r) ∨ (s.coro = .finished none ∧ r = .failure)

theorem resultGets_log (s : State T Loc) {e : Event T} (he : e.isResultGot = false) :
    (s.log e).resultGets = s.resultGets := by
  simp [State.resultGets, State.log, he]

/-- An exception counts as `FAILURE`. -/
theorem statusOf_getD (outcome : Outcome) :
    statusOf (some (outcome.getD .failure)) = statusOf outcome := by
  rcases outcome with _ | r <;> rfl

theorem Moved.cachedResult_kept {a : Action T} (hm : Moved B s a s') {r : TaskResult}
    (hc : s.cachedResult = some r) : s'.cachedResult = some r := by
  cases hm with
  | consumed hl hn hr => cases hn.symm.trans hc
  | coro hm => exact hm.frame.cachedResult.trans hc
  | _ => exact hc

/-- A coroutine that has finished stays so. -/
theorem Moved.finished_kept {a : Action T} (hm : Moved B s a s') (hlife : Lifecycle s)
    {outcome : Outcome} (hc : s.coro = .finished outcome) : s'.coro = .finished outcome := by
  cases hm with
  | posted hl =>
      rw [(hlife.post hl).2] at hc
      cases hc
  | coro hm =>
      have hactive := hm.frame.active
      rw [hc] at hactive
      cases hactive
  | _ => exact hc

/-- **One step keeps the status under a cached result.** It is final, and there is no outcome
left to consume. -/
theorem Moved.status_kept {a : Action T} (hm : Moved B s a s') (hlife : Lifecycle s)
    {r : TaskResult} (hc : s.cachedResult = some r) (hs : s.currentStatus = statusOf (some r)) :
    s'.currentStatus = s.currentStatus := by
  refine hm.final_status hlife ?_ ?_
  · intro outcome _ hn
    cases hn.symm.trans hc
  · rw [hs]
    exact statusOf_terminal _

theorem Moved.resultGets {a : Action T} (hm : Moved B s a s') :
    (s'.resultGets = s.resultGets ∧ s'.cachedResult = s.cachedResult) ∨
      (s'.resultGets = s.resultGets + 1 ∧ s.cachedResult = none ∧
        ∃ outcome, s.result = .ready outcome ∧ s'.cachedResult = some (outcome.getD .failure) ∧
          s'.currentStatus = statusOf (some (outcome.getD .failure))) := by
  cases hm with
  | consumed hl hn hr =>
      refine .inr ⟨?_, hn, _, hr, rfl, (statusOf_getD _).symm⟩
      rw [resultGets_log _ rfl]
      simp [State.resultGets, State.log, Event.isResultGot]
  | coro hm =>
      have hcached := hm.frame.cachedResult
      cases hm with
      | inputWins => exact .inl ⟨resultGets_log _ rfl, hcached⟩
      | _ => exact .inl ⟨rfl, hcached⟩
  | runStarts | pauseStarts | cancelStarts | sent | resumeStarts | setStatus | completed =>
      exact .inl ⟨rfl, rfl⟩
  | _ => exact .inl ⟨resultGets_log _ rfl, rfl⟩

theorem Moved.cached {a : Action T} (hm : Moved B s a s') (hlife : Lifecycle s) (h : Cached s) :
    Cached s' := by
  rcases hm.resultGets with ⟨hgets, hcached⟩ | ⟨hgets, hn, outcome, hready, hcached, hstatus⟩
  · refine ⟨by rw [hgets, hcached, h.gets], ?_, ?_⟩
    · intro r hr
      rw [hcached] at hr
      exact (hm.status_kept hlife hr (h.agrees r hr)).trans (h.agrees r hr)
    · intro r hr
      rw [hcached] at hr
      rcases h.finished r hr with hc | ⟨hc, hfailure⟩
      · exact .inl (hm.finished_kept hlife hc)
      · exact .inr ⟨hm.finished_kept hlife hc, hfailure⟩
  · have hcoro := hm.finished_kept hlife (hlife.ready outcome hready)
    refine ⟨by rw [hgets, h.gets, hn, hcached]; rfl, ?_, ?_⟩
    · intro r hr
      obtain rfl := Option.some.inj (hcached.symm.trans hr)
      exact hstatus
    · intro r hr
      obtain rfl := Option.some.inj (hcached.symm.trans hr)
      cases outcome with
      | some r => exact .inl hcoro
      | none => exact .inr ⟨hcoro, rfl⟩

theorem reachable_cached {G : Guard (State T Loc) (Action T)} (h : (machine B).Reachable G s) :
    Cached s := by
  refine h.invariant ⟨rfl, nofun, nofun⟩ ?_
  intro s a s' hr hi _ hs
  exact (step_moved hs).cached (reachable_lifecycle hr) hi

/-- **The cached result and the status agree for ever.** In every reachable state:
`result_.get()` was executed at most once; a cached result is what the coroutine has returned, or
`FAILURE` if it has thrown; the status is the one of that name, and no run from there changes
either. -/
theorem cached_result_agrees {T Loc : Type} {B : Body T Loc} {s : State T Loc}
    (h : (machine B).Reachable Machine.free s) :
    s.resultGets ≤ 1 ∧ ∀ r, s.cachedResult = some r →
      (s.coro = .finished (some r) ∨ (s.coro = .finished none ∧ r = .failure)) ∧
      s.currentStatus = (match r with
        | .success => .completed
        | .failure => .failed
        | .cancelled => .cancelled) ∧
      ∀ t, (machine B).Steps Machine.free s t →
        t.cachedResult = some r ∧ t.currentStatus = s.currentStatus := by
  have hcached := reachable_cached h
  refine ⟨by rw [hcached.gets]; exact Bool.toNat_le _, ?_⟩
  intro r hr
  have hs := hcached.agrees r hr
  refine ⟨hcached.finished r hr, ?_, ?_⟩
  · rw [hs]
    cases r with
    | success | failure | cancelled => rfl
  intro t ht
  -- the run from `s` keeps both, and what the steps need of the states before
  have hrun : Lifecycle t ∧ t.cachedResult = some r ∧ t.currentStatus = statusOf (some r) := by
    refine ht.invariant
      (I := fun t => Lifecycle t ∧ t.cachedResult = some r ∧ t.currentStatus = statusOf (some r))
      ⟨reachable_lifecycle h, hr, hs⟩ ?_
    rintro u a v ⟨hlife, hu, hus⟩ _ hstep
    have hm := step_moved hstep
    exact ⟨hm.lifecycle hlife, hm.cachedResult_kept hu, (hm.status_kept hlife hu hus).trans hus⟩
  exact ⟨hrun.2.1, hrun.2.2.trans hs.symm⟩

/-- An `OtaTask` returns `SUCCESS` and is polled; the `cancel()` and the `pause()` after it
change nothing. -/
theorem cached_result_agrees_completed :
    ∃ s t, (machine otaTask).Reachable Machine.free s ∧ s.cachedResult = some .success ∧
      s.coro = .finished (some .success) ∧ s.currentStatus = .completed ∧
      (machine otaTask).Steps Machine.free s t ∧
      t.history.length = s.history.length + 2 ∧ t.cachedResult = some .success ∧
      t.currentStatus = .completed := by
  obtain ⟨s, hs, hp⟩ := Machine.reachable_of_exec (M := machine otaTask)
    (l := launch ++ toRace ++ finishOn .idle ++ [Action.complete, .getCurrentStatus])
    (p := fun s => s.cachedResult = some .success ∧ ((machine otaTask).exec s
      [Action.cancel, .pause]).any (fun t => t.history.length = s.history.length + 2))
    (by decide)
  obtain ⟨hr, hlater⟩ := of_decide_eq_true hp
  obtain ⟨t, ht, hlen⟩ := Machine.exists_steps_of_exec hlater
  obtain ⟨-, hagrees⟩ := cached_result_agrees hs
  obtain ⟨hfinished, hstatus, hkeep⟩ := hagrees _ hr
  have hreturned : s.coro = .finished (some .success) := by
    rcases hfinished with hc | ⟨-, hfailure⟩
    · exact hc
    · cases hfailure
  obtain ⟨hr', hstatus'⟩ := hkeep t ht
  exact ⟨s, t, hs, hr, hreturned, hstatus, ht, of_decide_eq_true hlen, hr', hstatus'.trans hstatus⟩

end CppCode.Task
