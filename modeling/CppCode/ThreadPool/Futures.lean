import CppCode.Concurrency.Slots
import CppCode.ThreadPool.Model

/-!
# CppCode.ThreadPool.Futures

**What becomes of the futures that `post()` hands out.** The promise of a submission travels
with its handler: from the call that posts it into the queue, from there into the hands of
a worker, which makes the future ready. It is in exactly one of these places
(`Futures.once`).

`stop()` has the workers leave without the handlers that are still queued, and what is
queued later stays queued too. So once `stop()` has returned, the futures split in two,
for good: those whose handler a worker has taken are ready, those whose handler is in the
queue are not (`futures_after_stop`).
-/

namespace CppCode.ThreadPool

open Concurrency

/-- The handler is the one that fulfils the future of `id`. -/
def Handler.fulfils (id : Nat) : Handler → Bool
  | .run job | .spawn job _ => job == id
  | .resume _ _ => false

/-- The worker has taken that handler and not finished it. -/
def Worker.fulfils (id : Nat) : Worker → Bool
  | .running handler => handler.fulfils id
  | .waiting job => job == id
  | _ => false

/-- The call is about to queue that handler. -/
def Call.fulfils (id : Nat) (c : Call) : Bool :=
  match c.pc with
  | .enqueue job _ => job == id
  | _ => false

/-- The places of the promise of `id` from the queue on. -/
def State.inPool (s : State) (id : Nat) : Nat :=
  s.queue.countP (Handler.fulfils id) + s.workers.countP (Worker.fulfils id) +
    s.ready.countP (· == id)

variable {s s' : State}

/-- Each promise is in exactly one place, and that of a future that was handed out is in the
pool. -/
structure Futures (s : State) : Prop where
  once : ∀ id, s.calls.countP (Call.fulfils id) + s.inPool id = (decide (id < s.nextJob)).toNat
  out : ∀ id, .posted (some id) ∈ s.history → s.inPool id = 1

theorem handler_fulfils (id id' : Nat) (job : Job) :
    (job.handler id').fulfils id = (id' == id) := by
  cases job <;> rfl

/-! ### Where a step takes a promise -/

theorem inPool_setWorker {w : Nat} {old : Worker} (hw : s.workers[w]? = some old) (new : Worker)
    (id : Nat) :
    (s.setWorker w new).inPool id + tally (Worker.fulfils id) old =
      s.inPool id + tally (Worker.fulfils id) new := by
  have hset := countP_set (Worker.fulfils id) hw new
  simp only [State.inPool, State.setWorker]
  omega

theorem inPool_queue (s : State) (handler : Handler) (id : Nat) :
    { s with queue := s.queue ++ [handler] }.inPool id =
      s.inPool id + tally (Handler.fulfils id) handler := by
  have hconcat := countP_concat (Handler.fulfils id) s.queue handler
  simp only [State.inPool]
  omega

theorem inPool_ready (s : State) (job id : Nat) :
    { s with ready := s.ready ++ [job] }.inPool id = s.inPool id + (job == id).toNat := by
  have hconcat := countP_concat (· == id) s.ready job
  have htally : tally (· == id) job = (job == id).toNat := rfl
  simp only [State.inPool]
  omega

/-- The steps of the workers keep every promise in the pool. -/
theorem Moved.inPool {a : Action} (hm : Moved s a s') (id : Nat)
    (ha : ∀ i, a ≠ .advance i) : s'.inPool id = s.inPool id := by
  cases hm with
  | addStarts | addRefused | submitStarts | submitRefused | stopStarts | stopRefused
  | taskReturned => rfl
  | addLocks | addEmplaces | addUnlocks | enqueues | stopsIo | joinsSmall | stopLocks | loopEnds
  | requestsStop | joins | clears | stopUnlocks => exact absurd rfl (ha _)
  | took hw hk hs =>
      rename_i w k handler
      have herase := countP_eraseIdx (Handler.fulfils id) hk
      have hset := countP_set (Worker.fulfils id) hw (.running handler)
      have hrun : tally (Worker.fulfils id) (.running handler) =
          tally (Handler.fulfils id) handler := rfl
      have hidle : tally (Worker.fulfils id) .idle = 0 := rfl
      simp only [State.inPool, State.setWorker]
      omega
  | ranPost hw =>
      rename_i w job
      have hset := inPool_setWorker (s := { s with ready := s.ready ++ [job] }) hw .idle id
      have hready := inPool_ready s job id
      have hold : tally (Worker.fulfils id) (.running (.run job)) = (job == id).toNat := rfl
      have hidle : tally (Worker.fulfils id) .idle = 0 := rfl
      omega
  | spawned hw =>
      rename_i w job suspensions
      have hset := inPool_setWorker
        (s := { s with queue := s.queue ++ [Handler.resume job suspensions] }) hw (.waiting job) id
      have hqueue := inPool_queue s (.resume job suspensions) id
      have hold : tally (Worker.fulfils id) (.running (.spawn job suspensions)) =
          tally (Worker.fulfils id) (.waiting job) := rfl
      have hzero : tally (Handler.fulfils id) (.resume job suspensions) = 0 := rfl
      omega
  | completed hw =>
      rename_i w job
      exact inPool_setWorker (s := { s with coroReady := s.coroReady ++ [job] }) hw .idle id
  | suspended hw =>
      rename_i w job suspensions
      have hset := inPool_setWorker
        (s := { s with queue := s.queue ++ [Handler.resume job suspensions] }) hw .idle id
      exact hset.trans (inPool_queue s (.resume job suspensions) id)
  | woke hw =>
      rename_i w job hr
      have hset := inPool_setWorker (s := { s with ready := s.ready ++ [job] }) hw .idle id
      have hready := inPool_ready s job id
      have hold : tally (Worker.fulfils id) (.waiting job) = (job == id).toNat := rfl
      have hidle : tally (Worker.fulfils id) .idle = 0 := rfl
      omega
  | exited hw => exact inPool_setWorker hw .exited id

/-! ### Exactly one place -/

/-- The promise is where it was, whatever else the step did. -/
theorem Futures.keep (h : Futures s) (hn : s'.nextJob = s.nextJob)
    (hc : ∀ id, s'.calls.countP (Call.fulfils id) = s.calls.countP (Call.fulfils id))
    (hp : ∀ id, s'.inPool id = s.inPool id)
    (hh : ∀ id, .posted (some id) ∈ s'.history → .posted (some id) ∈ s.history) : Futures s' where
  once := fun id => by rw [hc, hp, hn]; exact h.once id
  out := fun id hid => (hp id).trans (h.out id (hh id hid))

/-- A call moves on from a position that has nothing to do with submissions. -/
theorem Futures.goto {i : Nat} {c : Call} {pc : Pc} (h : Futures s)
    (hi : s'.calls[i]? = some c) (hc : ∀ id, c.fulfils id = false)
    (hpc : ∀ id, Call.fulfils id { c with pc := pc } = false) (hn : s'.nextJob = s.nextJob)
    (hcalls : s'.calls = s.calls) (hp : ∀ id, s'.inPool id = s.inPool id)
    (hh : s'.history = s.history) : Futures (s'.goto i c pc) := by
  refine h.keep hn ?_ hp fun id hid => by rw [← hh]; exact hid
  intro id
  have hset := countP_set (Call.fulfils id) hi { c with pc := pc }
  simp only [tally, hc, hpc, Bool.toNat_false, Nat.add_zero, hcalls] at hset
  simp only [State.goto, hcalls]
  exact hset

/-- A call other than a submission returns. -/
theorem Futures.leave {i : Nat} {c : Call} {e : Event} (h : Futures s)
    (hi : s'.calls[i]? = some c) (hc : ∀ id, c.fulfils id = false)
    (he : ∀ id, e ≠ .posted (some id)) (hn : s'.nextJob = s.nextJob)
    (hcalls : s'.calls = s.calls) (hp : ∀ id, s'.inPool id = s.inPool id)
    (hh : s'.history = s.history) : Futures (s'.leave i e) := by
  refine h.keep hn (fun id => ?_) hp fun id hid => ?_
  · have herase := countP_eraseIdx (Call.fulfils id) hi
    simp only [tally, hc, Bool.toNat_false, Nat.add_zero, hcalls] at herase
    simp only [State.leave, State.log, hcalls]
    exact herase
  · rcases mem_concat.mp hid with hid | hid
    · exact hh ▸ hid
    · exact absurd hid.symm (he id)

/-- A refused call. -/
theorem Futures.refused {e : Event} (h : Futures s) (he : ∀ id, e ≠ .posted (some id))
    (hn : s'.nextJob = s.nextJob) (hcalls : s'.calls = s.calls)
    (hp : ∀ id, s'.inPool id = s.inPool id) (hh : s'.history = s.history) :
    Futures (s'.log e) := by
  refine h.keep hn (fun id => by rw [← hcalls]; rfl) hp ?_
  intro id hid
  rcases mem_concat.mp hid with hid | hid
  · exact hh ▸ hid
  · exact absurd hid.symm (he id)

theorem submitStarts_futures {caller : Caller} {i : Nat} {job : Job} (h : Futures s) :
    Futures ({ s with remaining := s.remaining.eraseIdx i, nextJob := s.nextJob + 1 }.enter caller
      (.enqueue s.nextJob job)) where
  once := fun id => by
    have hold := h.once id
    have hconcat := countP_concat (Call.fulfils id) s.calls ⟨caller, .enqueue s.nextJob job⟩
    have htally : tally (Call.fulfils id) ⟨caller, .enqueue s.nextJob job⟩ =
        (s.nextJob == id).toNat := rfl
    show (s.calls ++ [_]).countP _ + s.inPool id = (decide (id < s.nextJob + 1)).toNat
    rw [hconcat, htally]
    by_cases hid : s.nextJob = id
    · subst hid
      simp only [Nat.lt_irrefl, decide_false, Bool.toNat_false] at hold
      simp only [beq_self_eq_true, Nat.lt_succ_self, decide_true, Bool.toNat_true]
      omega
    · have hlt : id < s.nextJob + 1 ↔ id < s.nextJob := by omega
      simp only [hlt, beq_eq_false_iff_ne.mpr hid, Bool.toNat_false]
      omega
  out := h.out

theorem enqueues_futures {i id : Nat} {job : Job} {caller : Caller} (h : Futures s)
    (hi : s.calls[i]? = some ⟨caller, .enqueue id job⟩) :
    Futures ({ s with queue := s.queue ++ [job.handler id] }.leave i (.posted (some id))) := by
  -- what leaves the calls joins the queue
  have hmove : ∀ id', (s.calls.eraseIdx i).countP (Call.fulfils id') +
      { s with queue := s.queue ++ [job.handler id] }.inPool id' =
        s.calls.countP (Call.fulfils id') + s.inPool id' := by
    intro id'
    have herase := countP_eraseIdx (Call.fulfils id') hi
    have hqueue := inPool_queue s (job.handler id) id'
    have htally : tally (Handler.fulfils id') (job.handler id) =
        tally (Call.fulfils id') ⟨caller, .enqueue id job⟩ := by
      rw [tally, handler_fulfils]
      rfl
    omega
  refine ⟨fun id' => (hmove id').trans (h.once id'), ?_⟩
  intro id' hid
  show { s with queue := s.queue ++ [job.handler id] }.inPool id' = 1
  have hle : (decide (id' < s.nextJob)).toNat ≤ 1 := Bool.toNat_le _
  have honce := h.once id'
  have hm := hmove id'
  have hqueue := inPool_queue s (job.handler id) id'
  rcases mem_concat.mp hid with hid | hid
  · have hout := h.out id' hid
    omega
  · obtain rfl : id' = id := by injection hid with hid; exact Option.some.inj hid
    have htally : tally (Handler.fulfils id') (job.handler id') = 1 := by
      rw [tally, handler_fulfils]
      simp
    omega

theorem Moved.futures {a : Action} (hm : Moved s a s') (h : Futures s) : Futures s' := by
  have hpool := hm.inPool
  cases hm with
  | addRefused | submitRefused | stopRefused =>
      exact h.refused nofun rfl rfl (fun _ => rfl) rfl
  | addStarts | stopStarts =>
      exact h.keep rfl (fun id => countP_concat _ _ _) (fun _ => rfl) fun _ hid => hid
  | submitStarts => exact submitStarts_futures h
  | enqueues hi => exact enqueues_futures h hi
  | addLocks hi | addEmplaces hi | stopsIo hi | joinsSmall hi | stopLocks hi | loopEnds hi
  | requestsStop hi | joins hi | clears hi =>
      exact h.goto hi (fun _ => rfl) (fun _ => rfl) rfl rfl (fun _ => rfl) rfl
  | addUnlocks hi | stopUnlocks hi =>
      exact h.leave hi (fun _ => rfl) nofun rfl rfl (fun _ => rfl) rfl
  | taskReturned | took | ranPost | spawned | completed | suspended | woke | exited =>
      exact h.keep rfl (fun _ => rfl) (fun id => hpool id nofun) fun _ hid => hid

theorem reachable_futures {n : Nat} {jobs : List Job} {G : Guard State Action}
    (h : (machine n jobs).Reachable G s) : Futures s := by
  refine h.invariant ⟨?_, nofun⟩ fun _ hi _ hs => (step_moved hs).futures hi
  intro id
  simp [machine, State.start, State.inPool, List.countP_replicate, Worker.fulfils]

/-! ### After `stop()` -/

/-- `stop()` has joined the small task workers. -/
def Pc.joined : Pc → Bool
  | .stopLock | .stopLoop _ | .stopJoin _ _ | .stopClear | .stopUnlock => true
  | _ => false

/-- Once `stop()` has joined the workers, all of them have left. -/
def Joined (s : State) : Prop :=
  (∃ c ∈ s.calls, c.pc.joined = true) ∨ .stopped true ∈ s.history →
    ∀ w ∈ s.workers, w = .exited

/-- A worker that moves has not left. -/
theorem Joined.setWorker {w : Nat} {old new : Worker} (h : Joined s)
    (hw : s.workers[w]? = some old) (hne : old ≠ .exited) (hc : s'.calls = s.calls)
    (hh : s'.history = s.history) : Joined (s'.setWorker w new) := by
  intro hj
  have hj : (∃ c ∈ s.calls, c.pc.joined = true) ∨ .stopped true ∈ s.history := by
    rw [← hc, ← hh]
    exact hj
  exact absurd (h hj old (List.mem_of_getElem? hw)) hne

/-- A call moves on, and not past the join of the workers. -/
theorem Joined.goto {i : Nat} {c : Call} {pc : Pc} (h : Joined s) (hi : s.calls[i]? = some c)
    (hpc : pc.joined = true → c.pc.joined = true) (hc : s'.calls = s.calls)
    (hh : s'.history = s.history) (hw : s'.workers = s.workers) : Joined (s'.goto i c pc) := by
  intro hj
  rw [show (s'.goto i c pc).workers = s.workers from hw]
  apply h
  rcases hj with ⟨c', hc', hj⟩ | hj
  · rw [show (s'.goto i c pc).calls = s.calls.set i { c with pc := pc } from
      congrArg (fun l => l.set i { c with pc := pc }) hc] at hc'
    rcases List.mem_or_eq_of_mem_set hc' with hc' | rfl
    · exact .inl ⟨c', hc', hj⟩
    · exact .inl ⟨c, List.mem_of_getElem? hi, hpc hj⟩
  · exact .inr (hh ▸ hj)

/-- A call returns; if it is `stop()`, it had joined the workers. -/
theorem Joined.leave {i : Nat} {c : Call} {e : Event} (h : Joined s) (hi : s.calls[i]? = some c)
    (he : e = .stopped true → c.pc.joined = true) (hc : s'.calls = s.calls)
    (hh : s'.history = s.history) (hw : s'.workers = s.workers) : Joined (s'.leave i e) := by
  intro hj
  rw [show (s'.leave i e).workers = s.workers from hw]
  apply h
  rcases hj with ⟨c', hc', hj⟩ | hj
  · rw [show (s'.leave i e).calls = s.calls.eraseIdx i from
      congrArg (fun l => l.eraseIdx i) hc] at hc'
    exact .inl ⟨c', List.mem_of_mem_eraseIdx hc', hj⟩
  · rw [show (s'.leave i e).history = s.history ++ [e] from congrArg (· ++ [e]) hh] at hj
    rcases mem_concat.mp hj with hj | rfl
    · exact .inr hj
    · exact .inl ⟨c, List.mem_of_getElem? hi, he rfl⟩

theorem Moved.joined {a : Action} (hm : Moved s a s') (h : Joined s) : Joined s' := by
  cases hm with
  | addRefused | submitRefused | stopRefused =>
      intro hj
      apply h
      refine hj.imp id ?_
      intro hj
      rcases mem_concat.mp hj with hj | hj
      · exact hj
      · cases hj
  | addStarts | submitStarts | stopStarts =>
      intro hj
      apply h
      refine hj.imp ?_ id
      intro hj
      obtain ⟨c, hc, hj⟩ := hj
      rcases mem_concat.mp hc with hc | rfl
      · exact ⟨c, hc, hj⟩
      · cases hj
  | taskReturned => exact h
  | joinsSmall hi hw =>
      intro _ w hwm
      exact beq_iff_eq.mp (List.all_eq_true.mp hw w hwm)
  | addLocks hi | addEmplaces hi | stopsIo hi => exact h.goto hi nofun rfl rfl rfl
  | stopLocks hi | loopEnds hi | requestsStop hi | joins hi | clears hi =>
      exact h.goto hi (fun _ => rfl) rfl rfl rfl
  | addUnlocks hi | enqueues hi => exact h.leave hi nofun rfl rfl rfl
  | stopUnlocks hi => exact h.leave hi (fun _ => rfl) rfl rfl rfl
  | took hw | ranPost hw | spawned hw | completed hw | suspended hw | woke hw | exited hw =>
      exact h.setWorker hw nofun rfl rfl

theorem reachable_joined {n : Nat} {jobs : List Job} {G : Guard State Action}
    (h : (machine n jobs).Reachable G s) : Joined s := by
  refine h.invariant ?_ fun _ hi _ hs => (step_moved hs).joined hi
  rintro (⟨c, hc, -⟩ | hj)
  · cases hc
  · cases hj

/-- After `stop()` nothing is executed any more, and what is queued stays queued. -/
theorem Moved.stopped {a : Action} (hm : Moved s a s') (hj : Joined s)
    (hd : .stopped true ∈ s.history) :
    .stopped true ∈ s'.history ∧ s'.ready = s.ready ∧ s.queue <+: s'.queue := by
  have hexit := hj (.inr hd)
  cases hm with
  | took hw | ranPost hw | spawned hw | completed hw | suspended hw | woke hw | exited hw =>
      cases hexit _ (List.mem_of_getElem? hw)
  | addStarts | submitStarts | stopStarts | addLocks | addEmplaces | stopsIo | joinsSmall
  | stopLocks | loopEnds | requestsStop | joins | clears | taskReturned =>
      exact ⟨hd, rfl, List.prefix_rfl⟩
  | addRefused | submitRefused | stopRefused | addUnlocks | stopUnlocks =>
      exact ⟨List.mem_append_left _ hd, rfl, List.prefix_rfl⟩
  | enqueues => exact ⟨List.mem_append_left _ hd, rfl, List.prefix_append _ _⟩

/-- **The futures after `stop()`.** Once the `stop()` that won the compare-exchange has
returned, and in every continuation: a future that was handed out is ready if and only if
its handler is not in the queue. No future becomes ready any more, and no queued handler
leaves the queue. -/
theorem futures_after_stop {n : Nat} {jobs : List Job} {s s' : State}
    (h : (machine n jobs).Reachable Machine.free s) (hd : .stopped true ∈ s.history)
    (hs : (machine n jobs).Steps Machine.free s s') :
    (∀ id, .posted (some id) ∈ s'.history →
        (id ∈ s'.ready ↔ ∀ handler ∈ s'.queue, handler.fulfils id = false)) ∧
      s'.ready = s.ready ∧ s.queue <+: s'.queue := by
  have key : (machine n jobs).Reachable Machine.free s' ∧ .stopped true ∈ s'.history ∧
      s'.ready = s.ready ∧ s.queue <+: s'.queue := by
    refine hs.invariant (I := fun u => (machine n jobs).Reachable Machine.free u ∧
      .stopped true ∈ u.history ∧ u.ready = s.ready ∧ s.queue <+: u.queue)
      ⟨h, hd, rfl, List.prefix_rfl⟩ ?_
    rintro u a u' ⟨hr, hdone, hready, hqueue⟩ hg hst
    obtain ⟨hdone', hready', hqueue'⟩ := (step_moved hst).stopped (reachable_joined hr) hdone
    exact ⟨hr.step hg hst, hdone', hready'.trans hready, hqueue.trans hqueue'⟩
  obtain ⟨hr, hdone, hready, hqueue⟩ := key
  refine ⟨?_, hready, hqueue⟩
  intro id hid
  have hone := (reachable_futures hr).out id hid
  -- no worker holds the promise, so it is in the queue or fulfilled, and not both
  have hnone : s'.workers.countP (Worker.fulfils id) = 0 := by
    refine List.countP_eq_zero.mpr ?_
    intro w hw
    rw [reachable_joined hr (.inr hdone) w hw]
    nofun
  have hready : id ∈ s'.ready ↔ 0 < s'.ready.countP (· == id) := by
    rw [List.countP_pos_iff]
    simp
  have hnot : (∀ handler ∈ s'.queue, handler.fulfils id = false) ↔
      s'.queue.countP (Handler.fulfils id) = 0 := by
    simp [List.countP_eq_zero]
  rw [hready, hnot]
  simp only [State.inPool, hnone] at hone
  omega

/-- `stop()` from outside on a pool with one idle worker, as the only call in progress. -/
def stopIdle : List Action :=
  [.call .external .stop, .advance 0, .exit 0, .advance 0, .advance 0, .advance 0, .advance 0,
    .advance 0]

/-- Two functions are posted, the only worker executes the first one and `stop()` goes by. -/
theorem futures_after_stop_one_of_two :
    ∃ s, (machine 1 [.post, .post]).Reachable Machine.free s ∧ .stopped true ∈ s.history ∧
      .posted (some 0) ∈ s.history ∧ .posted (some 1) ∈ s.history ∧ s.queue = [.run 1] ∧
      0 ∈ s.ready ∧ 1 ∉ s.ready := by
  obtain ⟨s, hs, hp⟩ := Machine.reachable_of_exec (M := machine 1 [.post, .post])
    (l := [Action.call .external (.submit 0), .advance 0, .call .external (.submit 0), .advance 0,
      .take 0 0, .finish 0] ++ stopIdle)
    (p := fun s => decide (.stopped true ∈ s.history) && decide (.posted (some 0) ∈ s.history) &&
      decide (.posted (some 1) ∈ s.history) && s.queue == [.run 1]) (by decide)
  simp only [Bool.and_eq_true, decide_eq_true_eq, beq_iff_eq] at hp
  obtain ⟨⟨⟨hd, h0⟩, h1⟩, hq⟩ := hp
  have hsplit := (futures_after_stop hs hd (Machine.Steps.refl s)).1
  refine ⟨s, hs, hd, h0, h1, hq, (hsplit 0 h0).mpr ?_, fun hr => ?_⟩
  · simp [hq, Handler.fulfils]
  · have hall := (hsplit 1 h1).mp hr (.run 1) (by simp [hq])
    simp [Handler.fulfils] at hall

/-- A function is posted and `stop()` goes by before a worker has taken it: its future is not
ready. -/
theorem queued_future_not_ready :
    ∃ s, (machine 1 [.post]).Reachable Machine.free s ∧ .stopped true ∈ s.history ∧
      .posted (some 0) ∈ s.history ∧ 0 ∉ s.ready := by
  obtain ⟨s, hs, hp⟩ := Machine.reachable_of_exec (M := machine 1 [.post])
    (l := [Action.call .external (.submit 0), .advance 0] ++ stopIdle)
    (p := fun s => decide (.stopped true ∈ s.history) && decide (.posted (some 0) ∈ s.history) &&
      decide (0 ∉ s.ready)) (by decide)
  simp only [Bool.and_eq_true, decide_eq_true_eq] at hp
  exact ⟨s, hs, hp.1.1, hp.1.2, hp.2⟩

end CppCode.ThreadPool
