import CppCode.Concurrency.Slots
import CppCode.TaskPool.Model

/-!
# CppCode.TaskPool.Progress

**What the two pools are good for.** A thread that waits in `get()` is lost for its pool until the
future is ready. With one pool, a few functions that wait for others take all threads away, and
what they wait for stays in the queue. Here coroutines have threads of their own: as long as
functions wait for coroutines only, and coroutines do not wait (`Program.layered`), one thread in
each pool is enough for everything, whatever is submitted and in whatever order it is taken up
(`futures_become_ready`).

Two facts carry it. Every step of a thread uses up some of the work that is left (`State.work`).
And a future that is not ready has its promise in the pool: if that is the pool of the coroutines,
a thread there can go on, as none of them waits; if there is nothing left there, every future that
a function waits for is ready.
-/

namespace CppCode.TaskPool

open Concurrency

variable {s s' : State} {p q : Pool} {w : Nat} {job job' : Job} {callers : List Job}

/-! ### Sums over what is in the pools -/

/-- The job that runs on a thread, and those that go on after it. -/
def Worker.jobs : Worker → List Job
  | .running job callers => job :: callers
  | .idle | .left => []

theorem jobs_back (callers : List Job) : (Worker.back callers).jobs = callers := by
  cases callers <;> rfl

def Worker.weight (f : Job → Nat) (worker : Worker) : Nat := (worker.jobs.map f).sum

theorem weight_running (f : Job → Nat) (job : Job) (callers : List Job) :
    Worker.weight f (.running job callers) = f job + (callers.map f).sum :=
  List.sum_cons

theorem weight_back (f : Job → Nat) (callers : List Job) :
    Worker.weight f (.back callers) = (callers.map f).sum := by
  rw [Worker.weight, jobs_back]

/-- The sum over one pool: a handler that is queued counts `f`, a thread counts `g`. -/
def State.weighPool (s : State) (f : Job → Nat) (g : Worker → Nat) (p : Pool) : Nat :=
  ((s.queue p).map f).sum + ((s.workers p).map g).sum

def State.weigh (s : State) (f : Job → Nat) (g : Worker → Nat) : Nat :=
  s.weighPool f g .normal + s.weighPool f g .coroutine

section Weigh

variable (f : Job → Nat) (g : Worker → Nat)

/-- A change to the pool `p` only. -/
theorem weigh_of_pool {t : State} (h : ∀ q, q ≠ p → t.weighPool f g q = s.weighPool f g q) :
    t.weigh f g + s.weighPool f g p = s.weigh f g + t.weighPool f g p := by
  cases p with
  | normal =>
      have hother := h .coroutine (by decide)
      rw [State.weigh, State.weigh]
      omega
  | coroutine =>
      have hother := h .normal (by decide)
      rw [State.weigh, State.weigh]
      omega

theorem weigh_setWorker {old : Worker} (hw : (s.workers p)[w]? = some old) (new : Worker) :
    (s.setWorker p w new).weigh f g + g old = s.weigh f g + g new := by
  have hset := sum_map_set g hw new
  have hpool := weigh_of_pool (s := s) (t := s.setWorker p w new) f g (p := p) (by
    intro q hq
    simp only [State.weighPool, State.setWorker, Function.update_of_ne hq])
  simp only [State.weighPool, State.setWorker, Function.update_self] at hpool ⊢
  omega

theorem weigh_enqueue (s : State) (p : Pool) (job : Job) :
    (s.enqueue p job).weigh f g = s.weigh f g + f job := by
  have hconcat := sum_map_concat f (s.queue p) job
  have hpool := weigh_of_pool (s := s) (t := s.enqueue p job) f g (p := p) (by
    intro q hq
    simp only [State.weighPool, State.enqueue, Function.update_of_ne hq])
  simp only [State.weighPool, State.enqueue, Function.update_self] at hpool ⊢
  omega

theorem weigh_submit (s : State) (p : Pool) (program : Program) (held : List Nat) :
    (s.submit p program held).weigh f g =
      s.weigh f g + f ⟨s.futures.length, program, held, false⟩ :=
  weigh_enqueue f g s p _

/-- What is left of a queue when its `i`-th handler is taken. -/
def State.dequeue (s : State) (p : Pool) (i : Nat) : State :=
  { s with queue := Function.update s.queue p ((s.queue p).eraseIdx i) }

theorem weigh_dequeue {i : Nat} (hi : (s.queue p)[i]? = some job) :
    (s.dequeue p i).weigh f g + f job = s.weigh f g := by
  have herase := sum_map_eraseIdx f hi
  have hpool := weigh_of_pool (s := s) (t := s.dequeue p i) f g (p := p) (by
    intro q hq
    simp only [State.weighPool, State.dequeue, Function.update_of_ne hq])
  simp only [State.weighPool, State.dequeue, Function.update_self] at hpool ⊢
  omega

end Weigh

/-! ### The work that is left -/

/-- The steps that a program and all that it submits can take, at most. -/
def Program.work : Program → Nat
  | .finish _ => 1
  | .submit _ f next => f.work + next.work + 4
  | .get _ onValue onException => onValue.work + onException.work + 1
  | .suspend next => next.work + 2

/-- A coroutine may have to be taken once more, to complete. -/
def Job.rest (job : Job) : Nat := job.program.work + 2 * (!job.switched).toNat

/-- A handler that is queued has to be taken first. -/
def Job.work (job : Job) : Nat := job.rest + 1

theorem work_later (job : Job) (next : Program) : (job.later next).work = next.work + 1 := rfl

/-- In the end, a thread leaves. -/
def Worker.work : Worker → Nat
  | .left => 0
  | .idle => 1
  | .running job callers => job.rest + (callers.map Job.rest).sum + 1

theorem work_back (callers : List Job) :
    (Worker.back callers).work = (callers.map Job.rest).sum + 1 := by
  cases callers with
  | nil => rfl
  | cons => rw [Worker.back, Worker.work, List.map_cons, List.sum_cons]

/-- The steps of `stop()` that are left. -/
def StopPc.work : StopPc → Nat
  | .notCalled => 4
  | .stopCoroutine => 3
  | .joinNormal => 2
  | .joinCoroutine => 1
  | .returned => 0

def State.work (s : State) : Nat := s.weigh Job.work Worker.work + s.stop.work

/-- The step is not one from outside. -/
def Action.inside : Action → Bool
  | .submit _ _ _ => false
  | .take _ _ _ | .run _ _ | .leave _ _ | .stop => true

theorem work_of_step {a : Action} (h : step s a = some s') (ha : a.inside = true) :
    s'.work < s.work := by
  unfold State.work
  cases step_moved h with
  | submitted => cases ha
  | @took p w i job hw hi =>
      have hdequeue := weigh_dequeue Job.work Worker.work hi
      have hset := weigh_setWorker (s := s.dequeue p i) Job.work Worker.work hw (.running job [])
      simp only [Worker.work, Job.work, List.map_nil, List.sum_nil] at hset hdequeue
      show (State.setWorker (s.dequeue p i) p w (.running job [])).weigh _ _ + s.stop.work < _
      omega
  | @finished p w job callers result hw hp =>
      have hset := weigh_setWorker Job.work Worker.work hw (.back callers)
      rw [work_back, Worker.work, Job.rest, hp, Program.work] at hset
      show (s.setWorker p w (.back callers)).weigh _ _ + s.stop.work < _
      omega
  | @completes w job callers result hw hp hswitched =>
      have hqueue := weigh_enqueue Job.work Worker.work s .coroutine (job.later (.finish result))
      have hset := weigh_setWorker (s := s.enqueue .coroutine (job.later (.finish result)))
        Job.work Worker.work hw (.back callers)
      rw [work_back, Worker.work, Job.rest, hp, hswitched, Program.work, Bool.not_false,
        Bool.toNat_true] at hset
      rw [work_later, Program.work] at hqueue
      show State.weigh _ _ _ + s.stop.work < _
      omega
  | @posted p q w job callers f next hw hp =>
      have hqueue := weigh_submit Job.work Worker.work s q f job.held
      have hset := weigh_setWorker (s := s.submit q f job.held) Job.work Worker.work hw
        (.running (job.gotoHolding next s.futures.length) callers)
      simp only [Worker.work, Job.work, Job.rest, Job.gotoHolding, hp, Program.work,
        Bool.not_false, Bool.toNat_true] at hset hqueue ⊢
      show State.weigh _ _ _ + s.stop.work < _
      omega
  | @started w job callers f next hw hp =>
      have hset := weigh_setWorker Job.work Worker.work hw (.running
        ⟨s.futures.length, f, job.held, false⟩ (job.gotoHolding next s.futures.length :: callers))
      have hnext : (job.gotoHolding next s.futures.length).rest =
        next.work + 2 * (!job.switched).toNat := rfl
      have hfresh : Job.rest ⟨s.futures.length, f, job.held, false⟩ = f.work + 2 := rfl
      rw [Worker.work, Worker.work, List.map_cons, List.sum_cons, hnext, hfresh, Job.rest, hp,
        Program.work] at hset
      show State.weigh (s.setWorker _ _ _) _ _ + s.stop.work < _
      omega
  | @gotValue p w k future job callers onValue onException hw hp =>
      have hset := weigh_setWorker Job.work Worker.work hw (.running (job.goto onValue) callers)
      simp only [Worker.work, Job.rest, hp, Program.work, Job.goto] at hset ⊢
      show State.weigh _ _ _ + s.stop.work < _
      omega
  | @gotException p w k job callers onValue onException hw hp =>
      have hset := weigh_setWorker Job.work Worker.work hw
        (.running (job.goto onException) callers)
      simp only [Worker.work, Job.rest, hp, Program.work, Job.goto] at hset ⊢
      show State.weigh _ _ _ + s.stop.work < _
      omega
  | @suspended p w job callers next hw hp =>
      have hqueue := weigh_enqueue Job.work Worker.work s p (job.later next)
      have hset := weigh_setWorker (s := s.enqueue p (job.later next)) Job.work Worker.work hw
        (.back callers)
      rw [work_back, Worker.work, Job.rest, hp, Program.work] at hset
      rw [work_later] at hqueue
      show State.weigh _ _ _ + s.stop.work < _
      omega
  | @leaves p w hw =>
      have hset := weigh_setWorker Job.work Worker.work hw .left
      simp only [Worker.work] at hset
      show State.weigh _ _ _ + s.stop.work < _
      omega
  | stopsNormal hstop | stopsCoroutine hstop | joinsNormal hstop | joinsCoroutine hstop =>
      rw [hstop]
      exact Nat.lt_succ_self _

/-! ### Where a promise is -/

/-- Queued or on a thread of the pool `p`. -/
def State.Has (s : State) (p : Pool) (job : Job) : Prop :=
  job ∈ s.queue p ∨ ∃ worker ∈ s.workers p, job ∈ worker.jobs

theorem has_running (hw : (s.workers p)[w]? = some (.running job callers)) : s.Has p job :=
  .inr ⟨_, List.mem_of_getElem? hw, List.mem_cons_self⟩

/-- What goes on after the job that runs. -/
theorem has_caller (hw : (s.workers p)[w]? = some (.running job callers)) (h : job' ∈ callers) :
    s.Has p job' :=
  .inr ⟨_, List.mem_of_getElem? hw, List.mem_cons_of_mem job h⟩

/-- The job has the promise `id`, once or not at all. -/
def Job.fulfils (id : Nat) (job : Job) : Nat := (job.id == id).toNat

/-- How often the promise `id` is there. -/
def State.places (s : State) (id : Nat) : Nat :=
  s.ready.countP (·.1 == id) + s.weigh (Job.fulfils id) (Worker.weight (Job.fulfils id))

theorem exists_of_weigh {f : Job → Nat} (h : s.weigh f (Worker.weight f) ≠ 0) :
    ∃ p job, s.Has p job ∧ f job ≠ 0 := by
  by_contra hnone
  have hzero : ∀ p job, s.Has p job → f job = 0 := by
    intro p job hhas
    by_contra hne
    exact hnone ⟨p, job, hhas, hne⟩
  have hpool : ∀ p, s.weighPool f (Worker.weight f) p = 0 := by
    intro p
    rw [State.weighPool, Nat.add_eq_zero_iff]
    constructor
    · refine List.sum_eq_zero_iff_forall_eq_nat.mpr ?_
      intro n hn
      obtain ⟨job, hjob, rfl⟩ := List.mem_map.mp hn
      exact hzero p job (.inl hjob)
    · refine List.sum_eq_zero_iff_forall_eq_nat.mpr ?_
      intro n hn
      obtain ⟨worker, hworker, rfl⟩ := List.mem_map.mp hn
      refine List.sum_eq_zero_iff_forall_eq_nat.mpr ?_
      intro n hn
      obtain ⟨job, hjob, rfl⟩ := List.mem_map.mp hn
      exact hzero p job (.inr ⟨worker, hworker, hjob⟩)
  rw [State.weigh, hpool, hpool] at h
  exact h rfl

theorem has_setWorker {worker : Worker} (h : (s.setWorker p w worker).Has q job) :
    s.Has q job ∨ (q = p ∧ job ∈ worker.jobs) := by
  rcases h with h | ⟨worker', hworker', hjob⟩
  · exact .inl (.inl h)
  · by_cases hq : q = p
    · subst hq
      rw [State.setWorker] at hworker'
      simp only [Function.update_self] at hworker'
      rcases List.mem_or_eq_of_mem_set hworker' with hmem | rfl
      · exact .inl (.inr ⟨worker', hmem, hjob⟩)
      · exact .inr ⟨rfl, hjob⟩
    · rw [State.setWorker] at hworker'
      simp only [Function.update_of_ne hq] at hworker'
      exact .inl (.inr ⟨worker', hworker', hjob⟩)

/-- A job is over or suspended. -/
theorem has_back (hw : (s.workers p)[w]? = some (.running job callers))
    (h : (s.setWorker p w (.back callers)).Has q job') : s.Has q job' := by
  rcases has_setWorker h with hhas | ⟨rfl, hjob⟩
  · exact hhas
  · rw [jobs_back] at hjob
    exact has_caller hw hjob

theorem has_enqueue (h : (s.enqueue p job').Has q job) :
    s.Has q job ∨ (q = p ∧ job = job') := by
  rcases h with h | h
  · by_cases hq : q = p
    · subst hq
      rw [State.enqueue] at h
      simp only [Function.update_self] at h
      rcases mem_concat.mp h with h | h
      · exact .inl (.inl h)
      · exact .inr ⟨rfl, h⟩
    · rw [State.enqueue] at h
      simp only [Function.update_of_ne hq] at h
      exact .inl (.inl h)
  · exact .inl (.inr h)

theorem has_dequeue {i : Nat} (h : (s.dequeue p i).Has q job) : s.Has q job := by
  rcases h with h | h
  · by_cases hq : q = p
    · subst hq
      rw [State.dequeue] at h
      simp only [Function.update_self] at h
      exact .inl (List.mem_of_mem_eraseIdx h)
    · rw [State.dequeue] at h
      simp only [Function.update_of_ne hq] at h
      exact .inl h
  · exact .inr h

/-- Every promise is in exactly one place, and before it is fulfilled it is in its own pool. -/
structure Promises (s : State) : Prop where
  once : ∀ id, s.places id = (decide (id < s.futures.length)).toNat
  home : ∀ p job, s.Has p job → s.futures[job.id]? = some p

theorem futures_concat {futures : List Pool} {id : Nat} (h : futures[id]? = some p) (q : Pool) :
    (futures ++ [q])[id]? = some p := by
  rw [List.getElem?_append_left (List.getElem?_eq_some_iff.mp h).1, h]

/-- A thread goes on with the same promises. -/
theorem Promises.setWorker (h : Promises s) {old new : Worker}
    (hw : (s.workers p)[w]? = some old) (hids : new.jobs.map Job.id = old.jobs.map Job.id) :
    Promises (s.setWorker p w new) := by
  constructor
  · intro id
    have hset := weigh_setWorker (Job.fulfils id) (Worker.weight (Job.fulfils id)) hw new
    have hsame : Worker.weight (Job.fulfils id) new = Worker.weight (Job.fulfils id) old := by
      have himage := congrArg (List.map fun i => (i == id).toNat) hids
      rw [List.map_map, List.map_map] at himage
      exact congrArg List.sum himage
    have honce := h.once id
    show s.ready.countP (·.1 == id) + (s.setWorker p w new).weigh _ _ =
      (decide (id < s.futures.length)).toNat
    rw [State.places] at honce
    omega
  · intro q job hhas
    rcases has_setWorker hhas with hhas | ⟨rfl, hjob⟩
    · exact h.home q job hhas
    · have hid : job.id ∈ old.jobs.map Job.id := hids ▸ List.mem_map_of_mem hjob
      obtain ⟨job', hjob', heq⟩ := List.mem_map.mp hid
      rw [← heq]
      exact h.home q job' (.inr ⟨old, List.mem_of_getElem? hw, hjob'⟩)

/-- A job leaves its thread for the queue. -/
theorem Promises.requeue (h : Promises s)
    (hw : (s.workers p)[w]? = some (.running job callers)) (hid : job'.id = job.id) :
    Promises ((s.enqueue p job').setWorker p w (.back callers)) := by
  constructor
  · intro id
    have hqueue := weigh_enqueue (Job.fulfils id) (Worker.weight (Job.fulfils id)) s p job'
    have hset := weigh_setWorker (s := s.enqueue p job') (Job.fulfils id)
      (Worker.weight (Job.fulfils id)) hw (.back callers)
    have hsame : Job.fulfils id job' = Job.fulfils id job := by rw [Job.fulfils, hid, Job.fulfils]
    have honce := h.once id
    rw [weight_back, weight_running] at hset
    show s.ready.countP (·.1 == id) +
      ((s.enqueue p job').setWorker p w (.back callers)).weigh _ _ =
        (decide (id < s.futures.length)).toNat
    rw [State.places] at honce
    omega
  · intro q job'' hhas
    rcases has_enqueue (has_back (s := s.enqueue p job') hw hhas) with hhas | ⟨rfl, rfl⟩
    · exact h.home q job'' hhas
    · rw [hid]
      exact h.home q job (has_running hw)

/-- The promise of what is submitted is there, once. -/
theorem fulfils_fresh (n id : Nat) (f : Program) (held : List Nat) (q : Pool)
    (futures : List Pool) (hn : futures.length = n) :
    (decide (id < futures.length)).toNat + Job.fulfils id ⟨n, f, held, false⟩ =
      (decide (id < (futures ++ [q]).length)).toNat := by
  rw [List.length_append, List.length_singleton, hn]
  rcases Nat.lt_trichotomy id n with hlt | rfl | hlt
  · simp [Job.fulfils, hlt, Nat.lt_succ_of_lt hlt, Nat.ne_of_gt hlt]
  · simp [Job.fulfils]
  · simp [Job.fulfils, Nat.not_lt.mpr (Nat.le_of_lt hlt), Nat.not_lt.mpr hlt, Nat.ne_of_lt hlt]

theorem Promises.submit (h : Promises s) (q : Pool) (f : Program) (held : List Nat) :
    Promises (s.submit q f held) := by
  constructor
  · intro id
    have hsubmit := weigh_submit (Job.fulfils id) (Worker.weight (Job.fulfils id))
      s q f held
    have hfresh := fulfils_fresh s.futures.length id f held q s.futures rfl
    have honce := h.once id
    show s.ready.countP (·.1 == id) + (s.submit q f held).weigh _ _ =
      (decide (id < (s.futures ++ [q]).length)).toNat
    rw [State.places] at honce
    omega
  · intro p job hhas
    rcases has_enqueue hhas with hhas | ⟨rfl, rfl⟩
    · exact futures_concat (h.home p job hhas) q
    · exact List.getElem?_concat_length

theorem Promises.startCoroutine (h : Promises s)
    (hw : (s.workers .coroutine)[w]? = some (.running job callers)) (f next : Program) :
    Promises (s.startCoroutine w job callers f next) := by
  constructor
  · intro id
    have hset := weigh_setWorker (Job.fulfils id) (Worker.weight (Job.fulfils id)) hw (.running
      ⟨s.futures.length, f, job.held, false⟩ (job.gotoHolding next s.futures.length :: callers))
    have hfresh := fulfils_fresh s.futures.length id f job.held .coroutine s.futures rfl
    have hsame : Job.fulfils id (job.gotoHolding next s.futures.length) = Job.fulfils id job := rfl
    have honce := h.once id
    rw [weight_running, weight_running, List.map_cons, List.sum_cons] at hset
    show s.ready.countP (·.1 == id) + (s.startCoroutine w job callers f next).weigh _ _ =
      (decide (id < (s.futures ++ [Pool.coroutine]).length)).toNat
    show _ + State.weigh (s.setWorker _ _ _) _ _ = _
    rw [State.places] at honce
    omega
  · intro q job' hhas
    have hhas : (s.setWorker .coroutine w (.running ⟨s.futures.length, f, job.held, false⟩
      (job.gotoHolding next s.futures.length :: callers))).Has q job' := hhas
    rcases has_setWorker hhas with hhas | ⟨rfl, hjob⟩
    · exact futures_concat (h.home q job' hhas) .coroutine
    · rcases List.mem_cons.mp hjob with rfl | hjob
      · exact List.getElem?_concat_length
      · rcases List.mem_cons.mp hjob with rfl | hjob
        · exact futures_concat (h.home .coroutine job (has_running hw)) .coroutine
        · exact futures_concat (h.home .coroutine job' (has_caller hw hjob)) .coroutine

theorem step_promises {a : Action} (h : Promises s) (hs : step s a = some s') : Promises s' := by
  cases step_moved hs with
  | submitted => exact h.submit _ _ _
  | @took p w i job hw hi =>
      constructor
      · intro id
        have hdequeue := weigh_dequeue (Job.fulfils id) (Worker.weight (Job.fulfils id)) hi
        have hset := weigh_setWorker (s := s.dequeue p i) (Job.fulfils id)
          (Worker.weight (Job.fulfils id)) hw (.running job [])
        have honce := h.once id
        rw [weight_running, List.map_nil, List.sum_nil] at hset
        have hidle : Worker.weight (Job.fulfils id) .idle = 0 := rfl
        show s.ready.countP (·.1 == id) +
          (State.setWorker (s.dequeue p i) p w (.running job [])).weigh _ _ = _
        rw [State.places] at honce
        show _ = (decide (id < s.futures.length)).toNat
        omega
      · intro q job' hhas
        rcases has_setWorker (s := s.dequeue p i) hhas with hhas | ⟨rfl, hjob⟩
        · exact h.home q job' (has_dequeue hhas)
        · obtain rfl := List.mem_singleton.mp hjob
          exact h.home q job' (.inl (List.mem_of_getElem? hi))
  | @finished p w job callers result hw hp =>
      constructor
      · intro id
        have hset := weigh_setWorker (Job.fulfils id) (Worker.weight (Job.fulfils id)) hw
          (.back callers)
        have hready := countP_concat (fun r => r.1 == id) s.ready (job.id, result)
        have honce := h.once id
        rw [weight_back, weight_running] at hset
        show (s.ready ++ [(job.id, result)]).countP (·.1 == id) +
          (s.setWorker p w (.back callers)).weigh _ _ = (decide (id < s.futures.length)).toNat
        rw [State.places] at honce
        simp only [tally] at hready
        have hone : Job.fulfils id job = (job.id == id).toNat := rfl
        omega
      · intro q job' hhas
        exact h.home q job' (has_back hw hhas)
  | completes hw | suspended hw => exact h.requeue hw rfl
  | posted hw hp => exact (h.submit _ _ _).setWorker hw rfl
  | started hw hp => exact h.startCoroutine hw _ _
  | gotValue hw hp hk hready => exact h.setWorker hw rfl
  | gotException hw hp hk => exact h.setWorker hw rfl
  | leaves hw => exact h.setWorker hw rfl
  | stopsNormal | stopsCoroutine | joinsNormal | joinsCoroutine => exact ⟨h.once, h.home⟩

theorem le_weigh (f : Job → Nat) (h : s.Has p job) : f job ≤ s.weigh f (Worker.weight f) := by
  rcases h with h | ⟨worker, hworker, hjob⟩
  · obtain ⟨i, hi⟩ := List.mem_iff_getElem?.mp h
    have hdequeue := weigh_dequeue f (Worker.weight f) hi
    omega
  · obtain ⟨w, hw⟩ := List.mem_iff_getElem?.mp hworker
    have hset := weigh_setWorker f (Worker.weight f) hw .idle
    have hle : f job ≤ Worker.weight f worker := le_sum_map f hjob
    have hidle : Worker.weight f .idle = 0 := rfl
    omega

/-- What is queued or running is not ready. -/
theorem Promises.not_ready (h : Promises s) (hhas : s.Has p job) (result : Result) :
    (job.id, result) ∉ s.ready := by
  intro hmem
  have honce := h.once job.id
  have hplace : 1 ≤ s.weigh (Job.fulfils job.id) (Worker.weight (Job.fulfils job.id)) := by
    have hle := le_weigh (Job.fulfils job.id) hhas
    simpa [Job.fulfils] using hle
  have hcount : 0 < s.ready.countP (·.1 == job.id) :=
    List.countP_pos_iff.mpr ⟨_, hmem, by simp⟩
  have hle := Bool.toNat_le (decide (job.id < s.futures.length))
  rw [State.places] at honce
  omega

theorem Promises.exists_job (h : Promises s) {id : Nat} (hid : id < s.futures.length)
    (hready : ∀ result, (id, result) ∉ s.ready) : ∃ p job, s.Has p job ∧ job.id = id := by
  have honce := h.once id
  have hcount : s.ready.countP (·.1 == id) = 0 := by
    rw [List.countP_eq_zero]
    rintro ⟨id', result⟩ hmem heq
    have hid' : id' = id := by simpa using heq
    exact hready result (hid' ▸ hmem)
  rw [State.places, hcount, Nat.zero_add, decide_eq_true hid] at honce
  obtain ⟨p, job, hhas, hne⟩ := exists_of_weigh (s := s) (f := Job.fulfils id) (by
    rw [honce]
    decide)
  refine ⟨p, job, hhas, ?_⟩
  by_contra hjob
  simp [Job.fulfils, hjob] at hne

/-! ### Who waits for whom -/

/-- What runs on `p` may wait for what runs on `q`. -/
def waits : Pool → Pool → Bool
  | .normal, .coroutine => true
  | .normal, .normal | .coroutine, _ => false

/-- Functions wait for coroutines only, coroutines for nothing; `kinds` are the pools of the
futures that the program can reach. -/
def Program.layered (p : Pool) (kinds : List Pool) : Program → Bool
  | .finish _ => true
  | .submit q f next => f.layered q kinds && next.layered p (kinds ++ [q])
  | .get k onValue onException =>
      (match kinds[k]? with
        | some q => waits p q
        | none => true) &&
      onValue.layered p kinds && onException.layered p kinds
  | .suspend next => next.layered p kinds

/-- The pools of some futures. -/
def kinds (futures : List Pool) (held : List Nat) : List Pool :=
  held.map fun id => futures.getD id .normal

/-- What is submitted from outside is layered. -/
def Layered : Guard State Action := fun s a =>
  match a with
  | .submit p f held => f.layered p (kinds s.futures held) = true
  | .take _ _ _ | .run _ _ | .leave _ _ | .stop => True

instance : (s : State) → (a : Action) → Decidable (Layered s a)
  | s, .submit p f held => inferInstanceAs (Decidable (f.layered p (kinds s.futures held) = true))
  | _, .take _ _ _ | _, .run _ _ | _, .leave _ _ | _, .stop => inferInstanceAs (Decidable True)

/-- A job that is layered, with futures that exist. -/
structure Job.Ok (futures : List Pool) (p : Pool) (job : Job) : Prop where
  held : ∀ id ∈ job.held, id < futures.length
  layered : job.program.layered p (kinds futures job.held) = true

theorem kinds_concat {futures : List Pool} {held : List Nat}
    (h : ∀ id ∈ held, id < futures.length) (q : Pool) :
    kinds (futures ++ [q]) held = kinds futures held := by
  refine List.map_congr_left ?_
  intro id hid
  rw [List.getD_eq_getElem?_getD, List.getD_eq_getElem?_getD, List.getElem?_append_left (h id hid)]

theorem Job.Ok.concat {futures : List Pool} (h : Job.Ok futures p job) (q : Pool) :
    Job.Ok (futures ++ [q]) p job where
  held id hid := by
    have hlt := h.held id hid
    rw [List.length_append]
    omega
  layered := by
    rw [kinds_concat h.held]
    exact h.layered

/-- A job goes on after it has submitted something. -/
theorem Job.Ok.gotoHolding {futures : List Pool} (h : Job.Ok futures p job) {next : Program}
    (hnext : next.layered p (kinds futures job.held ++ [q]) = true) :
    Job.Ok (futures ++ [q]) p (job.gotoHolding next futures.length) where
  held id hid := by
    rw [List.length_append, List.length_singleton]
    rcases List.mem_append.mp hid with hid | hid
    · have hlt := h.held id hid
      omega
    · obtain rfl := List.mem_singleton.mp hid
      omega
  layered := by
    show next.layered p (kinds (futures ++ [q]) (job.held ++ [futures.length])) = true
    rw [kinds, List.map_append, ← kinds, kinds_concat h.held, List.map_singleton,
      List.getD_eq_getElem?_getD, List.getElem?_concat_length]
    exact hnext

/-- What is submitted can reach what its job can. -/
theorem Job.Ok.fresh {futures : List Pool} (h : Job.Ok futures p job) {f : Program} {n : Nat}
    (hf : f.layered q (kinds futures job.held) = true) :
    Job.Ok (futures ++ [q]) q ⟨n, f, job.held, false⟩ := by
  have hok : Job.Ok futures q ⟨n, f, job.held, false⟩ := ⟨h.held, hf⟩
  exact hok.concat q

/-- A thread goes on with another job. -/
theorem ok_setWorker (h : ∀ p job, s.Has p job → job.Ok s.futures p)
    (hw : (s.workers p)[w]? = some (.running job callers)) (hok : job'.Ok s.futures p) :
    ∀ q other, (s.setWorker p w (.running job' callers)).Has q other → other.Ok s.futures q := by
  intro q other hhas
  rcases has_setWorker hhas with hhas | ⟨rfl, hjob⟩
  · exact h q other hhas
  · rcases List.mem_cons.mp hjob with rfl | hjob
    · exact hok
    · exact h q other (has_caller hw hjob)

/-- A job leaves its thread for the queue. -/
theorem ok_requeue (h : ∀ p job, s.Has p job → job.Ok s.futures p)
    (hw : (s.workers p)[w]? = some (.running job callers)) (hok : job'.Ok s.futures p) :
    ∀ q other, ((s.enqueue p job').setWorker p w (.back callers)).Has q other →
      other.Ok s.futures q := by
  intro q other hhas
  rcases has_enqueue (has_back (s := s.enqueue p job') hw hhas) with hhas | ⟨rfl, rfl⟩
  · exact h q other hhas
  · exact hok

theorem step_ok {a : Action} (h : ∀ p job, s.Has p job → job.Ok s.futures p) (hg : Layered s a)
    (hs : step s a = some s') : ∀ p job, s'.Has p job → job.Ok s'.futures p := by
  cases step_moved hs with
  | @submitted p f held hheld =>
      intro q job hhas
      rcases has_enqueue hhas with hhas | ⟨rfl, rfl⟩
      · exact (h q job hhas).concat p
      · have hok : Job.Ok s.futures q ⟨s.futures.length, f, held, false⟩ := ⟨hheld, hg⟩
        exact hok.concat q
  | @took p w i job hw hi =>
      intro q job' hhas
      rcases has_setWorker (s := s.dequeue p i) hhas with hhas | ⟨rfl, hjob⟩
      · exact h q job' (has_dequeue hhas)
      · obtain rfl := List.mem_singleton.mp hjob
        exact h q job' (.inl (List.mem_of_getElem? hi))
  | finished hw hp =>
      intro q job' hhas
      exact h q job' (has_back hw hhas)
  | @completes w job callers result hw hp hswitched =>
      have hok := h .coroutine job (has_running hw)
      exact ok_requeue h hw ⟨hok.held, rfl⟩
  | @posted p q w job callers f next hw hp =>
      have hok := h p job (has_running hw)
      have hlayered := hok.layered
      rw [hp, Program.layered, Bool.and_eq_true] at hlayered
      intro p' job' hhas
      rcases has_setWorker hhas with hhas | ⟨rfl, hjob⟩
      · rcases has_enqueue hhas with hhas | ⟨rfl, rfl⟩
        · exact (h p' job' hhas).concat q
        · exact hok.fresh hlayered.1
      · rcases List.mem_cons.mp hjob with rfl | hjob
        · exact hok.gotoHolding hlayered.2
        · exact (h p' job' (has_caller hw hjob)).concat q
  | @started w job callers f next hw hp =>
      have hok := h .coroutine job (has_running hw)
      have hlayered := hok.layered
      rw [hp, Program.layered, Bool.and_eq_true] at hlayered
      intro p' job' hhas
      have hhas : (s.setWorker .coroutine w (.running ⟨s.futures.length, f, job.held, false⟩
        (job.gotoHolding next s.futures.length :: callers))).Has p' job' := hhas
      rcases has_setWorker hhas with hhas | ⟨rfl, hjob⟩
      · exact (h p' job' hhas).concat .coroutine
      · rcases List.mem_cons.mp hjob with rfl | hjob
        · exact hok.fresh hlayered.1
        · rcases List.mem_cons.mp hjob with rfl | hjob
          · exact hok.gotoHolding hlayered.2
          · exact (h .coroutine job' (has_caller hw hjob)).concat .coroutine
  | @gotValue p w k future job callers onValue onException hw hp hk hready =>
      have hok := h p job (has_running hw)
      have hlayered := hok.layered
      rw [hp, Program.layered, Bool.and_eq_true, Bool.and_eq_true] at hlayered
      exact ok_setWorker h hw ⟨hok.held, hlayered.1.2⟩
  | @gotException p w k job callers onValue onException hw hp hk =>
      have hok := h p job (has_running hw)
      have hlayered := hok.layered
      rw [hp, Program.layered, Bool.and_eq_true, Bool.and_eq_true] at hlayered
      exact ok_setWorker h hw ⟨hok.held, hlayered.2⟩
  | @suspended p w job callers next hw hp =>
      have hok := h p job (has_running hw)
      have hlayered := hok.layered
      rw [hp, Program.layered] at hlayered
      exact ok_requeue h hw ⟨hok.held, hlayered⟩
  | leaves hw =>
      intro q job' hhas
      rcases has_setWorker hhas with hhas | ⟨-, hjob⟩
      · exact h q job' hhas
      · cases hjob
  | stopsNormal | stopsCoroutine | joinsNormal | joinsCoroutine => exact h

/-! ### Threads -/

/-- Nobody has left a pool that was not stopped. -/
structure Staffed (threads : Pool → Nat) (s : State) : Prop where
  length : ∀ p, (s.workers p).length = threads p
  notLeft : ∀ p, s.stopped p = false → .left ∉ s.workers p
  running : s.stop = .notCalled → ∀ p, s.stopped p = false

theorem Staffed.setWorker {threads : Pool → Nat} (h : Staffed threads s) {worker : Worker}
    (hworker : worker = .left → s.stopped p = true) : Staffed threads (s.setWorker p w worker) where
  length q := by
    by_cases hq : q = p
    · subst hq
      rw [State.setWorker]
      simp only [Function.update_self, List.length_set]
      exact h.length q
    · rw [State.setWorker]
      simp only [Function.update_of_ne hq]
      exact h.length q
  notLeft q hstopped hleft := by
    by_cases hq : q = p
    · subst hq
      rw [State.setWorker] at hleft
      simp only [Function.update_self] at hleft
      rcases List.mem_or_eq_of_mem_set hleft with hleft | hleft
      · exact h.notLeft q hstopped hleft
      · have hstopped' := hworker hleft.symm
        rw [show s.stopped q = false from hstopped] at hstopped'
        cases hstopped'
    · rw [State.setWorker] at hleft
      simp only [Function.update_of_ne hq] at hleft
      exact h.notLeft q hstopped hleft
  running := h.running

theorem back_ne_left (callers : List Job) : Worker.back callers ≠ .left := by
  cases callers with
  | nil | cons => exact Worker.noConfusion

/-- A step that leaves the threads and `stop()` alone. -/
theorem Staffed.congr {threads : Pool → Nat} {t : State} (h : Staffed threads s)
    (hworkers : t.workers = s.workers) (hstopped : t.stopped = s.stopped)
    (hstop : t.stop = s.stop) : Staffed threads t :=
  ⟨hworkers ▸ h.length, hworkers ▸ hstopped ▸ h.notLeft, hstop ▸ hstopped ▸ h.running⟩

/-- A context is stopped. -/
theorem Staffed.stopContext {threads : Pool → Nat} (h : Staffed threads s) (p : Pool) {pc : StopPc}
    (hpc : pc ≠ .notCalled) :
    Staffed threads { s with stopped := Function.update s.stopped p true, stop := pc } := by
  refine ⟨h.length, ?_, fun hc => absurd hc hpc⟩
  intro q hstopped
  refine h.notLeft q ?_
  by_cases hq : q = p
  · subst hq
    simp only [Function.update_self] at hstopped
    cases hstopped
  · simpa only [Function.update_of_ne hq] using hstopped

theorem step_staffed {threads : Pool → Nat} {a : Action} (h : Staffed threads s)
    (hs : step s a = some s') : Staffed threads s' := by
  cases step_moved hs with
  | submitted => exact h.congr rfl rfl rfl
  | took | posted | started =>
      refine Staffed.setWorker ?_ (by intro hleft; cases hleft)
      exact h.congr rfl rfl rfl
  | finished | completes | suspended =>
      refine Staffed.setWorker ?_ fun hleft => absurd hleft (back_ne_left _)
      exact h.congr rfl rfl rfl
  | gotValue | gotException => exact h.setWorker (by intro hleft; cases hleft)
  | leaves hw hstopped => exact h.setWorker fun _ => hstopped
  | stopsNormal | stopsCoroutine => exact h.stopContext _ (by intro hc; cases hc)
  | joinsNormal | joinsCoroutine => exact ⟨h.length, h.notLeft, nofun⟩

/-- What holds of every run in which layered programs are submitted. -/
structure Sound (threads : Pool → Nat) (s : State) : Prop where
  promises : Promises s
  ok : ∀ p job, s.Has p job → job.Ok s.futures p
  staffed : Staffed threads s

/-- The number of threads of each pool. -/
def threads (normalThreads coroutineThreads : Nat) : Pool → Nat
  | .normal => normalThreads
  | .coroutine => coroutineThreads

theorem step_sound {a : Action} {threads : Pool → Nat} (h : Sound threads s) (hg : Layered s a)
    (hs : step s a = some s') : Sound threads s' :=
  ⟨step_promises h.promises hs, step_ok h.ok hg hs, step_staffed h.staffed hs⟩

theorem not_has_start {n m : Nat} : ¬ (State.start n m).Has p job := by
  rintro (h | ⟨worker, hworker, hjob⟩)
  · cases h
  · cases p with
    | normal | coroutine =>
        obtain rfl := List.eq_of_mem_replicate hworker
        cases hjob

theorem promises_start (n m : Nat) : Promises (State.start n m) := by
  refine ⟨?_, fun p job hhas => absurd hhas not_has_start⟩
  intro id
  simp [State.places, State.weigh, State.weighPool, State.start, Worker.weight, Worker.jobs]

theorem reachable_promises {n m : Nat} {G : Guard State Action} (h : (machine n m).Reachable G s) :
    Promises s :=
  h.invariant (I := Promises) (promises_start n m) fun _ hi _ hs => step_promises hi hs

theorem reachable_sound {n m : Nat} (h : (machine n m).Reachable Layered s) :
    Sound (threads n m) s := by
  refine h.invariant (I := Sound (threads n m)) ?_ fun _ hi hg hs => step_sound hi hg hs
  refine ⟨promises_start n m, fun p job hhas => absurd hhas not_has_start, ?_, ?_, fun _ _ => rfl⟩
  · intro p
    cases p with
    | normal | coroutine => exact List.length_replicate
  · intro p _ hleft
    cases p with
    | normal | coroutine => cases List.eq_of_mem_replicate hleft

/-! ### Some thread can go on -/

/-- The step is one of a thread that runs handlers. -/
def Action.own : Action → Bool
  | .take _ _ _ | .run _ _ => true
  | .submit _ _ _ | .leave _ _ | .stop => false

theorem mem_of_lookup {ready : List (Nat × Result)} {id : Nat} {result : Result}
    (h : ready.lookup id = some result) : (id, result) ∈ ready := by
  obtain ⟨l₁, l₂, rfl, -⟩ := List.lookup_eq_some_iff.mp h
  exact List.mem_append_right _ List.mem_cons_self

theorem lookup_isSome {future : Nat} {result : Result} (h : (future, result) ∈ s.ready) :
    ∃ r, s.ready.lookup future = some r := by
  cases hlookup : s.ready.lookup future with
  | some r => exact ⟨r, rfl⟩
  | none =>
      have hne := List.lookup_eq_none_iff.mp hlookup _ h
      simp at hne

/-- A thread whose `get()` does not block has a step. -/
theorem exists_run (hw : (s.workers p)[w]? = some (.running job callers))
    (hget : ∀ k onValue onException future, job.program = .get k onValue onException →
      job.held[k]? = some future → ∃ result, (future, result) ∈ s.ready) :
    ∃ s', step s (.run p w) = some s' := by
  simp only [step, hw]
  unfold runStep
  cases hp : job.program with
  | finish =>
      simp only
      split
      next => exact ⟨_, rfl⟩
      next => exact ⟨_, rfl⟩
  | suspend => exact ⟨_, rfl⟩
  | submit q =>
      cases q with
      | normal => exact ⟨_, rfl⟩
      | coroutine =>
          cases p with
          | normal | coroutine => exact ⟨_, rfl⟩
  | get k onValue onException =>
      simp only
      cases hk : job.held[k]? with
      | none => exact ⟨_, rfl⟩
      | some future =>
          obtain ⟨result, hready⟩ := hget k onValue onException future hp hk
          obtain ⟨r, hlookup⟩ := lookup_isSome hready
          simp only [hlookup]
          cases r with
          | value | exception => exact ⟨_, rfl⟩

/-- In a pool where no `get()` blocks, whatever is there gets on. -/
theorem exists_own_of_has (hne : s.workers p ≠ []) (hstopped : s.stopped p = false)
    (hleft : .left ∉ s.workers p) (h : s.Has p job)
    (hget : ∀ job', s.Has p job' → ∀ k onValue onException future,
      job'.program = .get k onValue onException → job'.held[k]? = some future →
        ∃ result, (future, result) ∈ s.ready) :
    ∃ a s', a.own = true ∧ step s a = some s' := by
  by_cases hrunning : ∃ job' callers, .running job' callers ∈ s.workers p
  · obtain ⟨job', callers, hmem⟩ := hrunning
    obtain ⟨w, hw⟩ := List.mem_iff_getElem?.mp hmem
    obtain ⟨s', hs'⟩ := exists_run hw (hget job' (has_running hw))
    exact ⟨.run p w, s', rfl, hs'⟩
  · -- all threads are idle, and the handler is queued
    have hidle : ∀ worker ∈ s.workers p, worker = .idle := by
      intro worker hmem
      cases worker with
      | idle => rfl
      | left => exact absurd hmem hleft
      | running job' callers => exact absurd ⟨job', callers, hmem⟩ hrunning
    rcases h with h | ⟨worker, hmem, hjob⟩
    · obtain ⟨i, hi⟩ := List.mem_iff_getElem?.mp h
      obtain ⟨worker, rest, hworkers⟩ := List.exists_cons_of_ne_nil hne
      have hworker := hidle worker (hworkers ▸ List.mem_cons_self)
      have htake : ∃ s', step s (.take p 0 i) = some s' := by
        simp only [step, takeStep, hworkers, List.getElem?_cons_zero, hworker, hi, hstopped]
        exact ⟨_, rfl⟩
      obtain ⟨s', hs'⟩ := htake
      exact ⟨.take p 0 i, s', rfl, hs'⟩
    · rw [hidle worker hmem] at hjob
      cases hjob

/-- The pool of the `k`-th future that a job can reach. -/
theorem Job.Ok.kind {futures : List Pool} (h : Job.Ok futures p job) {k future : Nat}
    {onValue onException : Program} (hp : job.program = .get k onValue onException)
    (hk : job.held[k]? = some future) :
    ∃ q, futures[future]? = some q ∧ waits p q = true := by
  have hlt := h.held future (List.mem_of_getElem? hk)
  have hlayered := h.layered
  rw [hp, Program.layered, Bool.and_eq_true, Bool.and_eq_true, kinds, List.getElem?_map, hk]
    at hlayered
  refine ⟨futures[future], List.getElem?_eq_getElem hlt, ?_⟩
  have hwaits := hlayered.1.1
  simp only [Option.map_some, List.getD_eq_getElem?_getD, List.getElem?_eq_getElem hlt,
    Option.getD_some] at hwaits
  exact hwaits

/-- A coroutine does not wait: a future that it asks for is not there. -/
theorem Job.Ok.held_eq_none {futures : List Pool} (h : Job.Ok futures .coroutine job) {k : Nat}
    {onValue onException : Program} (hp : job.program = .get k onValue onException) :
    job.held[k]? = none := by
  cases hk : job.held[k]? with
  | none => rfl
  | some future =>
      obtain ⟨q, -, hwaits⟩ := h.kind hp hk
      cases hwaits

/-- A function waits for a coroutine. -/
theorem Job.Ok.coroutine {futures : List Pool} (h : Job.Ok futures .normal job) {k future : Nat}
    {onValue onException : Program} (hp : job.program = .get k onValue onException)
    (hk : job.held[k]? = some future) : futures[future]? = some .coroutine := by
  obtain ⟨q, hkind, hwaits⟩ := h.kind hp hk
  cases q with
  | normal => cases hwaits
  | coroutine => exact hkind

theorem exists_own_step {threads : Pool → Nat} (h : Sound threads s) (hthreads : ∀ p, 0 < threads p)
    (hstop : s.stop = .notCalled) {id : Nat} (hid : id < s.futures.length)
    (hready : ∀ result, (id, result) ∉ s.ready) : ∃ a s', a.own = true ∧ step s a = some s' := by
  have hstopped := h.staffed.running hstop
  have hne : ∀ p, s.workers p ≠ [] := by
    intro p hnil
    have hlength := h.staffed.length p
    rw [hnil] at hlength
    exact absurd (hthreads p) (by rw [← hlength]; exact Nat.lt_irrefl 0)
  by_cases hcoroutine : ∃ job, s.Has .coroutine job
  · obtain ⟨job, hhas⟩ := hcoroutine
    refine exists_own_of_has (hne _) (hstopped _) (h.staffed.notLeft _ (hstopped _)) hhas ?_
    intro job' hjob' k onValue onException future hp hk
    rw [(h.ok _ job' hjob').held_eq_none hp] at hk
    cases hk
  · obtain ⟨p, job, hhas, -⟩ := h.promises.exists_job hid hready
    cases p with
    | coroutine => exact absurd ⟨job, hhas⟩ hcoroutine
    | normal =>
        refine exists_own_of_has (hne _) (hstopped _) (h.staffed.notLeft _ (hstopped _)) hhas ?_
        intro job' hjob' k onValue onException future hp hk
        -- a function waits for a coroutine, and all of them have finished
        have hkind := (h.ok _ job' hjob').coroutine hp hk
        by_contra hnot
        obtain ⟨p', job'', hhas', hid'⟩ := h.promises.exists_job
          (List.getElem?_eq_some_iff.mp hkind).1 fun result hresult => hnot ⟨result, hresult⟩
        have hhome := h.promises.home p' job'' hhas'
        rw [hid', hkind] at hhome
        cases hhome
        exact hcoroutine ⟨job'', hhas'⟩

/-! ### All runs of the threads -/

theorem own_frame {a : Action} (hs : step s a = some s') (ha : a.own = true) :
    Layered s a ∧ a.inside = true ∧ s'.stop = s.stop := by
  cases step_moved hs with
  | submitted | leaves | stopsNormal | stopsCoroutine | joinsNormal | joinsCoroutine => cases ha
  | took | finished | completes | posted | started | gotValue | gotException | suspended =>
      exact ⟨trivial, rfl, rfl⟩

theorem exec_own {n m : Nat} {threads : Pool → Nat} {l : List Action} {t : State}
    (h : Sound threads s) (ht : (machine n m).exec s l = some t) (hl : ∀ a ∈ l, a.own = true) :
    Sound threads t ∧ t.stop = s.stop ∧ l.length + t.work ≤ s.work := by
  induction l generalizing s with
  | nil =>
      obtain rfl := Option.some.inj ht
      exact ⟨h, rfl, by rw [List.length_nil]; omega⟩
  | cons a l ih =>
      obtain ⟨s', hs, hrest⟩ := Machine.exec_cons_some ht
      have ha := hl a List.mem_cons_self
      obtain ⟨hg, hinside, hstop⟩ := own_frame hs ha
      obtain ⟨hsound, hstop', hwork⟩ := ih (step_sound h hg hs) hrest fun b hb =>
        hl b (List.mem_cons_of_mem a hb)
      have hless := work_of_step hs hinside
      refine ⟨hsound, hstop'.trans hstop, ?_⟩
      rw [List.length_cons]
      omega

/-- **One thread each is enough.** While `stop()` has not been called: in whatever order the
threads take up what was submitted, they come to an end after so many steps, and then every
future is ready. Functions may wait for coroutines, coroutines may not wait. -/
theorem futures_become_ready {n m : Nat} (hn : 0 < n) (hm : 0 < m) {s : State}
    (h : (machine n m).Reachable Layered s) (hstop : s.stop = .notCalled) {l : List Action}
    {t : State} (ht : (machine n m).exec s l = some t) (hl : ∀ a ∈ l, a.own = true) :
    l.length ≤ s.work ∧
      ((∃ a t', a.own = true ∧ (machine n m).step t a = some t') ∨
        ∀ id, id < t.futures.length → ∃ result, (id, result) ∈ t.ready) := by
  obtain ⟨hsound, hstop', hwork⟩ := exec_own (reachable_sound h) ht hl
  refine ⟨by omega, ?_⟩
  by_cases hready : ∀ id, id < t.futures.length → ∃ result, (id, result) ∈ t.ready
  · exact .inr hready
  · obtain ⟨id, hid⟩ := not_forall.mp hready
    obtain ⟨hlt, hnot⟩ := Classical.not_imp.mp hid
    refine .inl (exists_own_step hsound ?_ (hstop'.trans hstop) hlt fun result hresult =>
      hnot ⟨result, hresult⟩)
    intro p
    cases p with
    | normal => exact hn
    | coroutine => exact hm

/-- A function that waits for a coroutine, which is suspended once. -/
def waitsForCoroutine : Program :=
  .submit .coroutine (.suspend (.finish .value)) (.get 0 (.finish .value) (.finish .exception))

def toBlocked : List Action :=
  [.take .normal 0 0, .run .normal 0, .take .coroutine 0 0, .run .coroutine 0]

def blockedForCoroutine (t : State) : Bool :=
  t.futures == [.normal, .coroutine] && t.ready == [] && (step t (.run .normal 0)).isNone

/-- With one thread each, after the coroutine was suspended: the function is blocked, and its
thread is the only one of its pool. -/
theorem futures_become_ready_blocked :
    ∃ s t : State, (machine 1 1).Reachable Layered s ∧ blockedForCoroutine t = true ∧
      (machine 1 1).exec s toBlocked = some t ∧
      ((∃ a t', a.own = true ∧ (machine 1 1).step t a = some t') ∨
        ∀ id, id < t.futures.length → ∃ result, (id, result) ∈ t.ready) := by
  obtain ⟨s, hs, hp⟩ := Machine.reachable_of_execWithin (M := machine 1 1) (G := Layered)
    (l := [.submit .normal waitsForCoroutine []])
    (p := fun s => decide (s.stop = .notCalled) &&
      ((machine 1 1).exec s toBlocked).any blockedForCoroutine) (by decide)
  obtain ⟨hstop, hrun⟩ := Bool.and_eq_true_iff.mp hp
  obtain ⟨t, ht, hblocked⟩ := (Option.any_eq_true _ _).mp hrun
  exact ⟨s, t, hs, hblocked, ht, (futures_become_ready (by decide) (by decide) hs
    (of_decide_eq_true hstop) ht (by decide)).2⟩

end CppCode.TaskPool
