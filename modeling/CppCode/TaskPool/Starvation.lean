import CppCode.TaskPool.Progress

/-!
# CppCode.TaskPool.Starvation

**Functions that wait for functions.** A function that posts another one and waits for it needs a
second thread. As soon as there are as many of them as the pool has threads, each on a thread of
its own, all threads wait for what is queued behind them: no function finishes any more, whatever
is posted from then on, and `stop()`, which waits for these threads, does not return
(`nested_posts_starve`).
-/

namespace CppCode.TaskPool

open Concurrency

variable {s s' : State} {w : Nat} {job : Job} {callers : List Job}

/-- The job waits for a function that is queued. -/
def Job.Blocked (queue : List Job) (job : Job) : Prop :=
  ∃ k onValue onException, ∃ waited ∈ queue,
    job.program = .get k onValue onException ∧ job.held[k]? = some waited.id

theorem Job.Blocked.mono {queue queue' : List Job} (h : Job.Blocked queue job)
    (hsub : queue ⊆ queue') : Job.Blocked queue' job := by
  obtain ⟨k, onValue, onException, waited, hmem, hp⟩ := h
  exact ⟨k, onValue, onException, waited, hsub hmem, hp⟩

/-- All threads for functions wait for functions that are queued, and none has finished. -/
structure Starved (s : State) : Prop where
  threads : s.workers .normal ≠ []
  blocked : ∀ worker ∈ s.workers .normal,
    ∃ job callers, worker = .running job callers ∧ job.Blocked (s.queue .normal)
  ready : ∀ r ∈ s.ready, s.futures[r.1]? = some .coroutine
  stop : s.stop ≠ .joinCoroutine ∧ s.stop ≠ .returned

theorem Starved.running (h : Starved s)
    (hw : (s.workers .normal)[w]? = some (.running job callers)) :
    job.Blocked (s.queue .normal) := by
  obtain ⟨job', callers', heq, hblocked⟩ := h.blocked _ (List.mem_of_getElem? hw)
  cases heq
  exact hblocked

theorem Starved.not_idle (h : Starved s) : (s.workers .normal)[w]? ≠ some .idle := by
  intro hw
  obtain ⟨job, callers, heq, -⟩ := h.blocked _ (List.mem_of_getElem? hw)
  cases heq

/-- A step that leaves the threads for functions alone. -/
theorem Starved.of_frame (h : Starved s) (hworkers : s'.workers .normal = s.workers .normal)
    (hqueue : s.queue .normal ⊆ s'.queue .normal)
    (hready : ∀ r ∈ s'.ready, s'.futures[r.1]? = some .coroutine)
    (hstop : s'.stop ≠ .joinCoroutine ∧ s'.stop ≠ .returned) : Starved s' where
  threads := hworkers ▸ h.threads
  blocked worker hmem := by
    obtain ⟨job, callers, heq, hblocked⟩ := h.blocked worker (hworkers ▸ hmem)
    exact ⟨job, callers, heq, hblocked.mono hqueue⟩
  ready := hready
  stop := hstop

theorem Starved.setCoroutine (h : Starved s) (worker : Worker) :
    Starved (s.setWorker .coroutine w worker) := by
  refine h.of_frame ?_ (List.Subset.refl _) h.ready h.stop
  rw [State.setWorker]
  simp only [Function.update_of_ne (show Pool.normal ≠ .coroutine by decide)]

theorem queue_subset_enqueue (s : State) (p : Pool) (job : Job) :
    s.queue .normal ⊆ (s.enqueue p job).queue .normal := by
  rw [State.enqueue]
  cases p with
  | normal =>
      simp only [Function.update_self]
      exact List.subset_append_left _ _
  | coroutine =>
      simp only [Function.update_of_ne (show Pool.normal ≠ .coroutine by decide)]
      exact List.Subset.refl _

theorem Starved.enqueue (h : Starved s) (p : Pool) (job : Job) : Starved (s.enqueue p job) :=
  h.of_frame rfl (queue_subset_enqueue s p job) h.ready h.stop

theorem Starved.submit (h : Starved s) (p : Pool) (f : Program) (held : List Nat) :
    Starved (s.submit p f held) :=
  h.of_frame rfl (queue_subset_enqueue s p _) (fun r hr => futures_concat (h.ready r hr) p) h.stop

/-- The program of a thread for functions is a `get()` on a future that is not ready. -/
theorem Starved.program (h : Starved s) (hp : Promises s)
    (hw : (s.workers .normal)[w]? = some (.running job callers)) :
    ∃ k onValue onException future, job.program = .get k onValue onException ∧
      job.held[k]? = some future ∧ s.ready.lookup future = none := by
  obtain ⟨k, onValue, onException, waited, hmem, hprogram, hk⟩ := h.running hw
  refine ⟨k, onValue, onException, waited.id, hprogram, hk, ?_⟩
  cases hlookup : s.ready.lookup waited.id with
  | none => rfl
  | some result => exact absurd (mem_of_lookup hlookup) (hp.not_ready (.inl hmem) result)

/-- No thread for functions goes on. -/
theorem Starved.pool_of_run {p : Pool} (h : Starved s) (hp : Promises s)
    (hs : step s (.run p w) = some s') : p = .coroutine := by
  cases p with
  | coroutine => rfl
  | normal =>
      cases hw : (s.workers .normal)[w]? with
      | none =>
          simp only [step, hw] at hs
          cases hs
      | some worker =>
          obtain ⟨job, callers, rfl, -⟩ := h.blocked worker (List.mem_of_getElem? hw)
          obtain ⟨k, onValue, onException, future, hprogram, hk, hlookup⟩ := h.program hp hw
          simp only [step, hw, runStep, hprogram, hk, hlookup] at hs
          cases hs

/-- **Step rule.** The others do not help. -/
theorem step_starved {a : Action} (h : Starved s) (hp : Promises s) (hs : step s a = some s') :
    Starved s' := by
  cases step_moved hs with
  | submitted => exact h.submit _ _ _
  | @took p w i job hw hi =>
      cases p with
      | normal => exact absurd hw h.not_idle
      | coroutine =>
          refine Starved.setCoroutine ?_ _
          refine h.of_frame rfl ?_ h.ready h.stop
          simp only [Function.update_of_ne (show Pool.normal ≠ .coroutine by decide)]
          exact List.Subset.refl _
  | @finished p w job callers result hw =>
      obtain rfl := h.pool_of_run hp hs
      refine Starved.setCoroutine ?_ _
      refine h.of_frame rfl (List.Subset.refl _) ?_ h.stop
      intro r hr
      rcases mem_concat.mp hr with hr | rfl
      · exact h.ready r hr
      · exact hp.home .coroutine job (has_running hw)
  | completes => exact (h.enqueue _ _).setCoroutine _
  | posted =>
      obtain rfl := h.pool_of_run hp hs
      exact (h.submit _ _ _).setCoroutine _
  | started =>
      refine Starved.setCoroutine ?_ _
      exact h.of_frame rfl (List.Subset.refl _) (fun r hr => futures_concat (h.ready r hr) _) h.stop
  | gotValue | gotException =>
      obtain rfl := h.pool_of_run hp hs
      exact h.setCoroutine _
  | suspended =>
      obtain rfl := h.pool_of_run hp hs
      exact (h.enqueue _ _).setCoroutine _
  | @leaves p w hw =>
      cases p with
      | normal => exact absurd hw h.not_idle
      | coroutine => exact h.setCoroutine _
  | stopsNormal | stopsCoroutine =>
      refine h.of_frame rfl (List.Subset.refl _) h.ready ⟨?_, ?_⟩
      · intro hc
        cases hc
      · intro hc
        cases hc
  | joinsNormal hstop hgone =>
      obtain ⟨worker, rest, hworkers⟩ := List.exists_cons_of_ne_nil h.threads
      obtain ⟨job, callers, rfl, -⟩ := h.blocked worker (hworkers ▸ List.mem_cons_self)
      simp [State.gone, hworkers] at hgone
  | joinsCoroutine hstop => exact absurd hstop h.stop.1

/-! ### As many nested posts as threads -/

theorem workers_setWorker (s : State) (p : Pool) (w : Nat) (worker : Worker) :
    (s.setWorker p w worker).workers p = (s.workers p).set w worker := by
  rw [State.setWorker]
  simp only [Function.update_self]

theorem queue_submit (s : State) (p : Pool) (f : Program) (held : List Nat) :
    (s.submit p f held).queue p = s.queue p ++ [⟨s.futures.length, f, held, false⟩] := by
  rw [State.submit, State.enqueue]
  simp only [Function.update_self]

theorem queue_dequeue (s : State) (p : Pool) (i : Nat) :
    (s.dequeue p i).queue p = (s.queue p).eraseIdx i := by
  rw [State.dequeue]
  simp only [Function.update_self]

theorem step_take {p : Pool} {i : Nat} (hw : (s.workers p)[w]? = some .idle)
    (hi : (s.queue p)[i]? = some job) (hstopped : s.stopped p = false) :
    step s (.take p w i) = some ((s.dequeue p i).setWorker p w (.running job [])) := by
  simp only [step, takeStep, hw, hi, hstopped]
  rfl

theorem step_post {p : Pool} {f next : Program}
    (hw : (s.workers p)[w]? = some (.running job callers))
    (hp : job.program = .submit .normal f next) :
    step s (.run p w) = some ((s.post f job.held).setWorker p w
      (.running (job.gotoHolding next s.futures.length) callers)) := by
  simp only [step, hw, runStep, hp]

/-- A function that posts `f` and waits for it. -/
def nested (f onValue onException : Program) : Program :=
  .submit .normal f (.get 0 onValue onException)

/-- From outside nothing is submitted but such functions. -/
def NestedOnly (f onValue onException : Program) : Guard State Action := fun _ a =>
  match a with
  | .submit p g held => p = .normal ∧ g = nested f onValue onException ∧ held = []
  | .take _ _ _ | .run _ _ => True
  | .leave _ _ | .stop => False

section Rounds

variable {n m j : Nat} {f onValue onException : Program}

/-- The first `j` threads wait for what they have posted, the others are idle. -/
structure Rounds (n j : Nat) (s : State) : Prop where
  futures : s.futures = List.replicate (2 * j) .normal
  stop : s.stop = .notCalled
  stopped : s.stopped .normal = false
  ready : s.ready = []
  length : (s.workers .normal).length = n
  blocked : ∀ i, i < j →
    ∃ job, (s.workers .normal)[i]? = some (.running job []) ∧ job.Blocked (s.queue .normal)
  idle : ∀ i, j ≤ i → i < n → (s.workers .normal)[i]? = some .idle

theorem rounds_start (n m : Nat) : Rounds n 0 (State.start n m) where
  futures := rfl
  stop := rfl
  stopped := rfl
  ready := rfl
  length := List.length_replicate
  blocked _ hi := absurd hi (Nat.not_lt_zero _)
  idle _ _ hi := List.getElem?_replicate_of_lt hi

/-- The next thread has taken up one more of the functions. -/
def State.takenUp (s : State) (j : Nat) (g : Program) : State :=
  (State.dequeue (s.submit .normal g []) .normal (s.queue .normal).length).setWorker .normal j
    (.running ⟨s.futures.length, g, [], false⟩ [])

theorem Rounds.steps_takenUp (h : Rounds n j s) (hj : j < n) :
    (machine n m).Steps (NestedOnly f onValue onException) s
      (s.takenUp j (nested f onValue onException)) := by
  have hsubmit : (machine n m).step s (.submit .normal (nested f onValue onException) []) =
      some (s.submit .normal (nested f onValue onException) []) := by
    simp [machine, step]
  refine (Machine.Steps.single ⟨rfl, rfl, rfl⟩ hsubmit).tail
    (a := .take .normal j (s.queue .normal).length) trivial ?_
  refine step_take (h.idle j (Nat.le_refl j) hj) ?_ h.stopped
  rw [queue_submit, List.getElem?_concat_length]

theorem queue_takenUp (s : State) (j : Nat) (g : Program) :
    (s.takenUp j g).queue .normal = s.queue .normal := by
  show (State.dequeue (s.submit .normal g []) .normal (s.queue .normal).length).queue .normal = _
  rw [queue_dequeue, queue_submit, List.eraseIdx_append_of_length_le (Nat.le_refl _), Nat.sub_self,
    List.eraseIdx_zero, List.tail_cons, List.append_nil]

theorem workers_takenUp (s : State) (j : Nat) (g : Program) :
    (s.takenUp j g).workers .normal =
      (s.workers .normal).set j (.running ⟨s.futures.length, g, [], false⟩ []) := by
  rw [State.takenUp, workers_setWorker]
  rfl

/-- What a nested function is when it waits. -/
def waiting (id : Nat) (onValue onException : Program) : Job :=
  ⟨id, .get 0 onValue onException, [id + 1], false⟩

/-- One more of the functions is taken up by the next thread and runs until it waits. -/
theorem Rounds.next (h : Rounds n j s) (hj : j < n) :
    ∃ s', (machine n m).Steps (NestedOnly f onValue onException) s s' ∧ Rounds n (j + 1) s' := by
  have hlt : j < (s.workers .normal).length := by rw [h.length]; exact hj
  let s₁ := s.takenUp j (nested f onValue onException)
  have hfutures : s₁.futures = s.futures ++ [.normal] := rfl
  let s₂ := (s₁.post f []).setWorker .normal j
    (.running (waiting s.futures.length onValue onException) [])
  have hrun : (machine n m).step s₁ (.run .normal j) = some s₂ := by
    have hw : (s₁.workers .normal)[j]? =
        some (.running ⟨s.futures.length, nested f onValue onException, [], false⟩ []) := by
      rw [workers_takenUp, List.getElem?_set_self hlt]
    have hstep := step_post hw rfl
    rw [hfutures, List.length_append] at hstep
    exact hstep
  have hqueue : s₂.queue .normal = s.queue .normal ++ [⟨s.futures.length + 1, f, [], false⟩] := by
    have hsubmit := queue_submit s₁ .normal f []
    rw [queue_takenUp, hfutures, List.length_append] at hsubmit
    exact hsubmit
  have hworkers : s₂.workers .normal = (s.workers .normal).set j
      (.running (waiting s.futures.length onValue onException) []) := by
    rw [workers_setWorker]
    show (s₁.workers .normal).set j _ = _
    rw [workers_takenUp, List.set_set]
  refine ⟨s₂, (h.steps_takenUp hj).tail (a := .run .normal j) trivial hrun, ?_, h.stop, h.stopped,
    h.ready, ?_, ?_, ?_⟩
  · show s.futures ++ [.normal] ++ [.normal] = _
    rw [h.futures, Nat.mul_succ, List.replicate_succ', List.replicate_succ']
  · rw [hworkers, List.length_set]
    exact h.length
  · intro i hi
    rw [hworkers, hqueue]
    rcases Nat.lt_succ_iff_lt_or_eq.mp hi with hi | rfl
    · obtain ⟨job, hw, hblocked⟩ := h.blocked i hi
      refine ⟨job, ?_, hblocked.mono (List.subset_append_left _ _)⟩
      rw [List.getElem?_set_ne (by omega), hw]
    · refine ⟨waiting s.futures.length onValue onException, List.getElem?_set_self hlt, 0, onValue,
        onException, ⟨s.futures.length + 1, f, [], false⟩, ?_, rfl, rfl⟩
      exact List.mem_append_right _ List.mem_cons_self
  · intro i hi hin
    rw [hworkers, List.getElem?_set_ne (by omega)]
    exact h.idle i (by omega) hin

theorem exists_rounds (n m : Nat) (f onValue onException : Program) (hj : j ≤ n) :
    ∃ s, (machine n m).Reachable (NestedOnly f onValue onException) s ∧ Rounds n j s := by
  induction j with
  | zero => exact ⟨_, Machine.Reachable.init, rounds_start n m⟩
  | succ j ih =>
      obtain ⟨s, hs, hrounds⟩ := ih (by omega)
      obtain ⟨s', hs', hrounds'⟩ := hrounds.next (m := m) (f := f) (by omega)
      exact ⟨s', Machine.Steps.trans hs hs', hrounds'⟩

theorem Rounds.starved (h : Rounds n n s) (hn : 0 < n) : Starved s where
  threads hnil := by
    have hlength := h.length
    rw [hnil, List.length_nil] at hlength
    omega
  blocked worker hmem := by
    obtain ⟨i, hi⟩ := List.mem_iff_getElem?.mp hmem
    have hlt := (List.getElem?_eq_some_iff.mp hi).1
    rw [h.length] at hlt
    obtain ⟨job, hw, hblocked⟩ := h.blocked i hlt
    rw [hi] at hw
    exact ⟨job, [], Option.some.inj hw, hblocked⟩
  ready r hr := by
    rw [h.ready] at hr
    cases hr
  stop := by
    rw [h.stop]
    decide

end Rounds

/-- **Nested posts starve the pool.** Whatever number of threads there is: that many functions,
each of which posts one and waits for it, can bring the pool into a state from which, whatever is
submitted and whoever goes on, no function finishes and `stop()` does not return. -/
theorem nested_posts_starve {n : Nat} (hn : 0 < n) (m : Nat) (f onValue onException : Program) :
    ∃ s, (machine n m).Reachable (NestedOnly f onValue onException) s ∧
      s.futures = List.replicate (2 * n) .normal ∧
      ∀ t, (machine n m).Steps Machine.free s t → t.stop ≠ .returned ∧
        ∀ id, t.futures[id]? = some .normal → ∀ result, (id, result) ∉ t.ready := by
  obtain ⟨s, hs, hrounds⟩ := exists_rounds n m f onValue onException (Nat.le_refl n)
  refine ⟨s, hs, hrounds.futures, ?_⟩
  intro t ht
  have hstarved : Promises t ∧ Starved t := by
    refine ht.invariant (I := fun s => Promises s ∧ Starved s)
      ⟨reachable_promises hs, hrounds.starved hn⟩ ?_
    intro s a s' hi _ hstep
    exact ⟨step_promises hi.1 hstep, step_starved hi.2 hi.1 hstep⟩
  refine ⟨hstarved.2.stop.2, ?_⟩
  intro id hid result hmem
  have hcoroutine := hstarved.2.ready _ hmem
  rw [hid] at hcoroutine
  cases hcoroutine

/-- Two threads, and four functions of which two wait for the other two. -/
theorem nested_posts_starve_two :
    ∃ s, (machine 2 1).Reachable
        (NestedOnly (.finish .value) (.finish .value) (.finish .exception)) s ∧
      s.futures = [.normal, .normal, .normal, .normal] ∧
      ∀ t, (machine 2 1).Steps Machine.free s t → t.stop ≠ .returned ∧
        ∀ id, t.futures[id]? = some .normal → ∀ result, (id, result) ∉ t.ready :=
  nested_posts_starve (by decide) 1 _ _ _

end CppCode.TaskPool
