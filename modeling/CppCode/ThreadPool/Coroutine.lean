import CppCode.Concurrency.Slots
import CppCode.ThreadPool.Model

/-!
# CppCode.ThreadPool.Coroutine

**Coroutines on the pool.** The lambda of `post_coro()` spawns its coroutine on
`io_context_` and blocks the worker that runs it in `fut.get()`. The coroutine
completes only through handlers queued on the same `io_context_`, so it needs another
worker.

`no_deadlock_iff` says when that goes wrong: with as many `post_coro()` submissions as
there are workers, the workers can all end up in `fut.get()`, each waiting for a
handler that stays queued; with fewer submissions, and any number of `post()`, this
never happens. One direction counts the coroutines that have not completed, wherever
they are on their way; the other lets the workers take the submitted handlers in the
order of the queue.
-/

namespace CppCode.ThreadPool

open Concurrency

variable {s s' : State}

def Job.isCoro : Job → Bool
  | .post => false
  | .postCoro _ => true

/-- `post_coro()` has passed its check and not yet queued its lambda. -/
def Call.submitsCoro (c : Call) : Bool :=
  match c.pc with
  | .enqueue _ job => job.isCoro
  | _ => false

/-- The lambda of `post_coro()`. -/
def Handler.spawns : Handler → Bool
  | .spawn _ _ => true
  | _ => false

/-- A handler of the coroutine spawned for `job`. -/
def Handler.resumes (job : Nat) : Handler → Bool
  | .resume id _ => id == job
  | _ => false

/-- The worker is inside the lambda of `post_coro()`. -/
def Worker.hosts : Worker → Bool
  | .running handler => handler.spawns
  | .waiting _ => true
  | .idle | .exited => false

/-- Every worker is blocked in `fut.get()`, and the queue holds a handler that each of
these futures waits for. -/
def State.deadlocked (s : State) : Bool :=
  s.workers.all fun w =>
    match w with
    | .waiting job => s.queue.any (Handler.resumes job)
    | _ => false

/-! ### Fewer coroutines than workers -/

/-- The `post_coro()` submissions that are to come, on their way, queued, or in the
hands of a worker. -/
def State.coroutines (s : State) : Nat :=
  s.remaining.countP Job.isCoro + s.calls.countP Call.submitsCoro +
    s.queue.countP Handler.spawns + s.workers.countP Worker.hosts

theorem handler_spawns (id : Nat) (job : Job) : (job.handler id).spawns = job.isCoro := by
  cases job <;> rfl

theorem coroutines_enter (s : State) {caller : Caller} {pc : Pc}
    (hpc : Call.submitsCoro ⟨caller, pc⟩ = false) :
    (s.enter caller pc).coroutines = s.coroutines := by
  simp [State.coroutines, State.enter, hpc]

theorem coroutines_goto {i : Nat} {c : Call} {pc : Pc} (hi : s.calls[i]? = some c)
    (hc : c.submitsCoro = false) (hpc : Call.submitsCoro { c with pc := pc } = false) :
    (s.goto i c pc).coroutines = s.coroutines := by
  have hset := countP_set Call.submitsCoro hi { c with pc := pc }
  simp only [tally, hc, hpc, Bool.toNat_false, Nat.add_zero] at hset
  simp [State.coroutines, State.goto, hset]

theorem coroutines_leave {i : Nat} {c : Call} (hi : s.calls[i]? = some c) (e : Event) :
    (s.leave i e).coroutines + tally Call.submitsCoro c = s.coroutines := by
  have herase := countP_eraseIdx Call.submitsCoro hi
  simp only [State.coroutines, State.leave, State.log]
  omega

theorem coroutines_setWorker {w : Nat} {old : Worker} (hw : s.workers[w]? = some old)
    (new : Worker) :
    (s.setWorker w new).coroutines + tally Worker.hosts old =
      s.coroutines + tally Worker.hosts new := by
  have hset := countP_set Worker.hosts hw new
  simp only [State.coroutines, State.setWorker]
  omega

theorem coroutines_remaining {i : Nat} {job : Job} (hj : s.remaining[i]? = some job) :
    { s with remaining := s.remaining.eraseIdx i }.coroutines + tally Job.isCoro job =
      s.coroutines := by
  have herase := countP_eraseIdx Job.isCoro hj
  simp only [State.coroutines]
  omega

theorem coroutines_queue (s : State) (handler : Handler) :
    { s with queue := s.queue ++ [handler] }.coroutines =
      s.coroutines + tally Handler.spawns handler := by
  have hconcat := countP_concat Handler.spawns s.queue handler
  simp only [State.coroutines]
  omega

/-- No step creates a coroutine out of nothing. -/
theorem Moved.coroutines {a : Action} (hm : Moved s a s') : s'.coroutines ≤ s.coroutines := by
  cases hm with
  | addRefused | stopRefused | taskReturned => exact Nat.le_refl _
  | addStarts | stopStarts => exact Nat.le_of_eq (coroutines_enter _ rfl)
  | submitStarts hm hj hr =>
      rename_i caller i job
      have herase := countP_eraseIdx Job.isCoro hj
      have hconcat := countP_concat Call.submitsCoro s.calls ⟨caller, .enqueue s.nextJob job⟩
      -- what leaves the remaining jobs joins the calls
      have htally : tally Call.submitsCoro ⟨caller, .enqueue s.nextJob job⟩ = tally Job.isCoro job :=
        rfl
      simp only [State.coroutines, State.enter]
      omega
  | submitRefused hj =>
      have hrem := coroutines_remaining hj
      exact Nat.le.intro hrem
  | addLocks hi | addEmplaces hi | stopsIo hi | joinsSmall hi | stopLocks hi | loopEnds hi
  | requestsStop hi | joins hi | clears hi => exact Nat.le_of_eq (coroutines_goto hi rfl rfl)
  | addUnlocks hi | stopUnlocks hi => exact Nat.le.intro (coroutines_leave hi (.stopped true))
  | enqueues hi =>
      rename_i i id job caller
      have hleave := coroutines_leave (s := { s with queue := s.queue ++ [job.handler id] }) hi
        (.posted (some id))
      have hqueue := coroutines_queue s (job.handler id)
      have htally : tally Handler.spawns (job.handler id) =
          tally Call.submitsCoro ⟨caller, .enqueue id job⟩ := by
        rw [tally, handler_spawns]
        rfl
      omega
  | took hw hk hs =>
      rename_i w k handler
      have herase := countP_eraseIdx Handler.spawns hk
      have hset := countP_set Worker.hosts hw (.running handler)
      -- what leaves the queue is in the hands of the worker
      have hrun : tally Worker.hosts (.running handler) = tally Handler.spawns handler := rfl
      simp only [State.coroutines, State.setWorker]
      omega
  | ranPost hw | completed hw | woke hw | exited hw =>
      exact Nat.le.intro (coroutines_setWorker hw _)
  | spawned hw =>
      rename_i w job suspensions
      have hset := coroutines_setWorker
        (s := { s with queue := s.queue ++ [Handler.resume job suspensions] }) hw (.waiting job)
      rw [coroutines_queue] at hset
      exact Nat.le_of_eq (Nat.add_right_cancel hset)
  | suspended hw =>
      rename_i w job suspensions
      have hset := coroutines_setWorker
        (s := { s with queue := s.queue ++ [Handler.resume job suspensions] }) hw .idle
      rw [coroutines_queue] at hset
      exact Nat.le_of_eq hset

theorem Moved.length_workers {a : Action} (hm : Moved s a s') :
    s'.workers.length = s.workers.length := by
  cases hm with
  | took | ranPost | spawned | completed | suspended | woke | exited => exact List.length_set
  | _ => rfl

theorem reachable_coroutines {n : Nat} {jobs : List Job}
    (h : (machine n jobs).Reachable Machine.free s) :
    s.workers.length = n ∧ s.coroutines ≤ jobs.countP Job.isCoro := by
  refine h.invariant (I := fun s => s.workers.length = n ∧ s.coroutines ≤ jobs.countP Job.isCoro)
    ⟨List.length_replicate, ?_⟩ ?_
  · simp [machine, State.start, State.coroutines, List.countP_replicate, Worker.hosts]
  · intro s a s' _ hi _ hs
    have hm := step_moved hs
    exact ⟨hm.length_workers.trans hi.1, Nat.le_trans hm.coroutines hi.2⟩

/-- A deadlock takes as many coroutines as there are workers. -/
theorem length_workers_le_of_deadlocked (h : s.deadlocked = true) :
    s.workers.length ≤ s.coroutines := by
  have hall : ∀ w ∈ s.workers, w.hosts = true := by
    intro w hw
    have hwait := List.all_eq_true.mp h w hw
    cases w with
    | waiting job => rfl
    | idle | running | exited => cases hwait
  have hcount : s.workers.countP Worker.hosts = s.workers.length := List.countP_eq_length.mpr hall
  simp only [State.coroutines]
  omega

/-! ### As many coroutines as workers -/

/-- One `post_coro()` from outside, undisturbed. -/
theorem submit_coro (n : Nat) (jobs : List Job) (hr : s.isRunning = true) (hc : s.calls = [])
    (hpos : 0 < s.remaining.countP Job.isCoro) :
    ∃ s' handler, (machine n jobs).Steps Machine.free s s' ∧ handler.spawns = true ∧
      s'.queue = s.queue ++ [handler] ∧ s'.workers = s.workers ∧ s'.ioStopped = s.ioStopped ∧
      s'.isRunning = true ∧ s'.calls = [] ∧
      s'.remaining.countP Job.isCoro + 1 = s.remaining.countP Job.isCoro := by
  obtain ⟨job, hmem, hcoro⟩ := List.countP_pos_iff.mp hpos
  obtain ⟨i, hi⟩ := List.getElem?_of_mem hmem
  have hcount := countP_eraseIdx Job.isCoro hi
  have hcall : (machine n jobs).step s (.call .external (.submit i)) =
      some ({ s with remaining := s.remaining.eraseIdx i, nextJob := s.nextJob + 1 }.enter
        .external (.enqueue s.nextJob job)) := by
    simp [machine, step, mayCall, begin, hi, hr]
  have hqueue : (machine n jobs).step
      ({ s with remaining := s.remaining.eraseIdx i, nextJob := s.nextJob + 1 }.enter
        .external (.enqueue s.nextJob job)) (.advance 0) =
      some ({ s with
        remaining := s.remaining.eraseIdx i
        nextJob := s.nextJob + 1
        queue := s.queue ++ [job.handler s.nextJob]
        calls := [] }.log (.posted (some s.nextJob))) := by
    simp [machine, step, State.enter, hc, callStep, State.leave]
  refine ⟨_, job.handler s.nextJob, (Machine.Steps.single trivial hcall).trans
    (Machine.Steps.single trivial hqueue), ?_, rfl, rfl, rfl, hr, rfl, ?_⟩
  · rw [handler_spawns]
    exact hcoro
  · rw [tally, hcoro] at hcount
    exact hcount

/-- `m` of them, one after the other. -/
theorem submit_coros (n : Nat) (jobs : List Job) (m : Nat) (hr : s.isRunning = true)
    (hc : s.calls = []) (hm : m ≤ s.remaining.countP Job.isCoro) :
    ∃ s' handlers, (machine n jobs).Steps Machine.free s s' ∧ handlers.length = m ∧
      (∀ handler ∈ handlers, handler.spawns = true) ∧ s'.queue = s.queue ++ handlers ∧
      s'.workers = s.workers ∧ s'.ioStopped = s.ioStopped := by
  induction m generalizing s with
  | zero => exact ⟨s, [], Machine.Steps.refl s, rfl, nofun, (List.append_nil _).symm, rfl, rfl⟩
  | succ m ih =>
      obtain ⟨s₁, handler, hsteps, hspawn, hqueue, hworkers, hio, hr', hc', hcount⟩ :=
        submit_coro n jobs hr hc (by omega)
      obtain ⟨s', handlers, hsteps', hlen, hall, hqueue', hworkers', hio'⟩ :=
        ih hr' hc' (by omega)
      refine ⟨s', handler :: handlers, hsteps.trans hsteps', by rw [List.length_cons, hlen], ?_, ?_,
        hworkers'.trans hworkers, hio'.trans hio⟩
      · intro h hmem
        rcases List.mem_cons.mp hmem with rfl | hmem
        · exact hspawn
        · exact hall h hmem
      · rw [hqueue', hqueue, List.append_assoc]
        rfl

/-- The idle workers take the lambdas of `post_coro()` off the head of the queue, one
each, and block. -/
theorem block_workers (n : Nat) (jobs : List Job) (handlers : List Handler)
    (blocked : List Worker) (queued : List Handler) (hio : s.ioStopped = false)
    (hall : ∀ handler ∈ handlers, handler.spawns = true)
    (hworkers : s.workers = blocked ++ List.replicate handlers.length .idle)
    (hqueue : s.queue = handlers ++ queued)
    (hblocked : ∀ w ∈ blocked, ∃ job suspensions, w = .waiting job ∧
      .resume job suspensions ∈ queued) :
    ∃ s', (machine n jobs).Steps Machine.free s s' ∧ s'.deadlocked = true := by
  induction handlers generalizing s blocked queued with
  | nil =>
      refine ⟨s, Machine.Steps.refl s, List.all_eq_true.mpr ?_⟩
      intro w hw
      rw [hworkers, List.length_nil, List.replicate_zero, List.append_nil] at hw
      obtain ⟨job, suspensions, rfl, hmem⟩ := hblocked w hw
      refine List.any_eq_true.mpr ⟨.resume job suspensions, ?_, by simp [Handler.resumes]⟩
      rw [hqueue]
      exact hmem
  | cons handler handlers ih =>
      have hspawn := hall handler List.mem_cons_self
      cases handler with
      | run | resume => cases hspawn
      | spawn job suspensions =>
          rw [List.length_cons, List.replicate_succ] at hworkers
          have htake : (machine n jobs).step s (.take blocked.length 0) =
              some { s with
                queue := handlers ++ queued
                workers := blocked ++ .running (.spawn job suspensions) ::
                  List.replicate handlers.length .idle } := by
            simp [machine, step, take, hworkers, hqueue, hio, State.setWorker]
          have hfinish : (machine n jobs).step { s with
                queue := handlers ++ queued
                workers := blocked ++ .running (.spawn job suspensions) ::
                  List.replicate handlers.length .idle } (.finish blocked.length) =
              some { s with
                queue := (handlers ++ queued) ++ [.resume job suspensions]
                workers := blocked ++ .waiting job :: List.replicate handlers.length .idle } := by
            simp [machine, step, finish, State.setWorker]
          have hrest := ih (s := { s with
                queue := (handlers ++ queued) ++ [.resume job suspensions]
                workers := blocked ++ .waiting job :: List.replicate handlers.length .idle })
            (blocked ++ [.waiting job]) (queued ++ [.resume job suspensions])
            hio (fun h hmem => hall h (List.mem_cons_of_mem _ hmem)) (by simp) (by simp) ?_
          · obtain ⟨s', hsteps, hdead⟩ := hrest
            exact ⟨s', (Machine.Steps.single trivial htake).trans
              ((Machine.Steps.single trivial hfinish).trans hsteps), hdead⟩
          · intro w hw
            rcases mem_concat.mp hw with hw | hw
            · obtain ⟨id, k, he, hmem⟩ := hblocked w hw
              exact ⟨id, k, he, List.mem_append_left _ hmem⟩
            · exact ⟨job, suspensions, hw, List.mem_concat_self⟩

/-- With as many coroutines as workers, all workers can block. -/
theorem exists_deadlocked {n : Nat} {jobs : List Job} (h : n ≤ jobs.countP Job.isCoro) :
    ∃ s, (machine n jobs).Reachable Machine.free s ∧ s.deadlocked = true := by
  obtain ⟨s, handlers, hsteps, hlen, hall, hqueue, hworkers, hio⟩ :=
    submit_coros n jobs (s := State.start n jobs) n rfl rfl h
  obtain ⟨s', hsteps', hdead⟩ := block_workers n jobs handlers [] [] hio hall
    (by rw [hworkers, hlen]; rfl) (by rw [hqueue, List.append_nil]; rfl) nofun
  exact ⟨s', hsteps.trans hsteps', hdead⟩

/-- **When coroutines cannot deadlock the pool.** For a pool of `n` workers and any
submissions: no reachable state has every worker blocked in `fut.get()` with the
handlers it waits for queued, if and only if fewer than `n` of the submissions are
coroutines. -/
theorem no_deadlock_iff (n : Nat) (jobs : List Job) :
    (∀ s, (machine n jobs).Reachable Machine.free s → s.deadlocked = false) ↔
      jobs.countP Job.isCoro < n := by
  constructor
  · intro h
    by_contra hle
    obtain ⟨s, hs, hdead⟩ := exists_deadlocked (Nat.le_of_not_lt hle)
    rw [h s hs] at hdead
    cases hdead
  · intro hlt s hs
    obtain ⟨hlen, hle⟩ := reachable_coroutines hs
    refine Bool.eq_false_iff.mpr ?_
    intro hdead
    have hworkers := length_workers_le_of_deadlocked hdead
    omega

/-- Two workers and two `post_coro()` submissions: both lambdas are taken before either
coroutine has completed. -/
theorem two_coroutines_block_two_workers :
    ∃ s, (machine 2 [.postCoro 0, .postCoro 0]).Reachable Machine.free s ∧
      s.workers = [.waiting 0, .waiting 1] ∧ s.queue = [.resume 0 0, .resume 1 0] ∧
      s.deadlocked = true := by
  obtain ⟨s, hs, hp⟩ := Machine.reachable_of_exec (M := machine 2 [.postCoro 0, .postCoro 0])
    (l := [.call .external (.submit 0), .advance 0, .call .external (.submit 0), .advance 0,
      .take 0 0, .take 1 0, .finish 0, .finish 1])
    (p := fun s => decide (s.workers = [.waiting 0, .waiting 1]) &&
      decide (s.queue = [.resume 0 0, .resume 1 0]) && s.deadlocked) (by decide)
  simp only [Bool.and_eq_true, decide_eq_true_eq] at hp
  exact ⟨s, hs, hp.1.1, hp.1.2, hp.2⟩

end CppCode.ThreadPool
