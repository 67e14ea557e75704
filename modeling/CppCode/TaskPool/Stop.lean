import CppCode.TaskPool.Progress

/-!
# CppCode.TaskPool.Stop

**When `stop()` returns.** It stops both contexts and joins the threads. From then on nothing that
is queued is taken up: a thread goes on with what it is running, as far as that gets, and leaves.
A coroutine gets to its end or to its next suspension (`Program.segment`). At its end it fulfils
its promise, unless it has never been suspended: then its completion is queued, and stays there.
So it is settled by then which coroutines still fulfil their promise (`State.settled`). A function
that waits for one of the others waits for ever, and `stop()` for it. These are the only ones
(`stop_returns_iff`): without them every schedule of the threads brings `stop()` to its end,
whatever is submitted meanwhile.
-/

namespace CppCode.TaskPool

open Concurrency

variable {s s' : State} {p q : Pool} {w : Nat} {job : Job} {callers : List Job}

/-! ### What is known of `stop()` -/

/-- The contexts that have been stopped. -/
def StopPc.stopped : StopPc → Pool → Bool
  | .notCalled, _ | .stopCoroutine, .coroutine => false
  | .stopCoroutine, .normal | .joinNormal, _ | .joinCoroutine, _ | .returned, _ => true

/-- The pools whose threads have been joined. -/
def StopPc.joined : StopPc → Pool → Bool
  | .joinCoroutine, .normal | .returned, _ => true
  | .joinCoroutine, .coroutine | .notCalled, _ | .stopCoroutine, _ | .joinNormal, _ => false

structure Halt (s : State) : Prop where
  stopped : ∀ p, s.stopped p = s.stop.stopped p
  joined : ∀ p, s.stop.joined p = true → ∀ worker ∈ s.workers p, worker = .left

/-- A thread that has not left goes on. -/
theorem Halt.setWorker (h : Halt s) (hlive : ∃ worker ∈ s.workers p, worker ≠ .left)
    (new : Worker) : Halt (s.setWorker p w new) where
  stopped := h.stopped
  joined q hjoined worker hmem := by
    by_cases hq : q = p
    · subst hq
      obtain ⟨old, hold, hne⟩ := hlive
      exact absurd (h.joined q hjoined old hold) hne
    · rw [State.setWorker] at hmem
      simp only [Function.update_of_ne hq] at hmem
      exact h.joined q hjoined worker hmem

theorem gone_iff : s.gone p = true ↔ ∀ worker ∈ s.workers p, worker = .left := by
  simp [State.gone]

theorem step_halt {a : Action} (h : Halt s) (hs : step s a = some s') : Halt s' := by
  cases step_moved hs with
  | submitted => exact ⟨h.stopped, h.joined⟩
  | took hw | finished hw | completes hw | posted hw | started hw | suspended hw =>
      refine Halt.setWorker ?_ ?_ _
      · exact ⟨h.stopped, h.joined⟩
      · exact ⟨_, List.mem_of_getElem? hw, by intro hc; cases hc⟩
  | gotValue hw | gotException hw | leaves hw =>
      exact h.setWorker ⟨_, List.mem_of_getElem? hw, by intro hc; cases hc⟩ _
  | stopsNormal hstop =>
      refine ⟨?_, fun p hc => by cases p <;> cases hc⟩
      intro p
      cases p with
      | normal => simp only [Function.update_self, StopPc.stopped]
      | coroutine =>
          simp only [Function.update_of_ne (show Pool.coroutine ≠ .normal by decide)]
          rw [h.stopped, hstop]
          rfl
  | stopsCoroutine hstop =>
      refine ⟨?_, fun p hc => by cases p <;> cases hc⟩
      intro p
      cases p with
      | normal =>
          simp only [Function.update_of_ne (show Pool.normal ≠ .coroutine by decide)]
          rw [h.stopped, hstop]
          rfl
      | coroutine => simp only [Function.update_self, StopPc.stopped]
  | joinsNormal hstop hgone =>
      constructor
      · intro p
        have hstopped := h.stopped p
        rw [hstop] at hstopped
        exact hstopped
      · intro p hjoined
        cases p with
        | normal => exact gone_iff.mp hgone
        | coroutine => cases hjoined
  | joinsCoroutine hstop hgone =>
      constructor
      · intro p
        have hstopped := h.stopped p
        rw [hstop] at hstopped
        exact hstopped
      · intro p hjoined
        cases p with
        | normal => exact h.joined .normal (by rw [hstop]; rfl)
        | coroutine => exact gone_iff.mp hgone

theorem reachable_halt {n m : Nat} {G : Guard State Action} (h : (machine n m).Reachable G s) :
    Halt s :=
  h.invariant (I := Halt) ⟨fun _ => rfl, fun p hc => by cases p <;> cases hc⟩
    fun _ hi _ hs => step_halt hi hs

/-! ### How far a job gets -/

/-- Where a thread that runs a job gets to. -/
inductive Segment
  | finishes (result : Result)
  | suspends
  /-- It waits for a future that is never ready. -/
  | blocks
  deriving DecidableEq

/-- `known` says of each future that the job can reach which result it has or will have, if any.
What is submitted now is never taken up. -/
def Program.segment (known : List (Option Result)) : Program → Segment
  | .finish result => .finishes result
  | .submit _ _ next => next.segment (known ++ [none])
  | .get k onValue onException =>
      match known[k]? with
      | some (some .value) => onValue.segment known
      | some (some .exception) | none => onException.segment known
      | some none => .blocks
  | .suspend _ => .suspends

/-- The promise that a coroutine on a thread still fulfils. If it has never been suspended, it posts
its completion instead. -/
def Job.outcome (job : Job) : Option (Nat × Result) :=
  match job.switched, job.program.segment (job.held.map fun _ => none) with
  | true, .finishes result => some (job.id, result)
  | true, .suspends | true, .blocks | false, _ => none

/-- The promises that are still fulfilled on a thread for coroutines. -/
def Worker.outcomes (worker : Worker) : List (Nat × Result) := worker.jobs.filterMap Job.outcome

/-- What is ready and what will be, as far as coroutines are concerned. -/
def State.settled (s : State) : List (Nat × Result) :=
  s.ready ++ (s.workers .coroutine).flatMap Worker.outcomes

/-- The result that a coroutine's future has or will have. -/
def State.resultOf (s : State) (id : Nat) : Option Result :=
  if s.futures[id]? = some .coroutine then s.settled.lookup id else none

/-- Where a function gets to. -/
def State.segment (s : State) (job : Job) : Segment :=
  job.program.segment (job.held.map s.resultOf)

/-- The thread runs a function that waits for ever. -/
def State.blocks (s : State) (worker : Worker) : Bool :=
  worker.jobs.any fun job => decide (s.segment job = .blocks)

/-- No function that is running waits for ever. -/
def Escapes (s : State) : Prop := ∀ worker ∈ s.workers .normal, s.blocks worker = false

instance (s : State) : Decidable (Escapes s) :=
  inferInstanceAs (Decidable (∀ worker ∈ s.workers .normal, s.blocks worker = false))

/-! ### What is settled stays settled -/

theorem id_of_outcome {r : Nat × Result} (h : job.outcome = some r) : r.1 = job.id := by
  rw [Job.outcome] at h
  split at h
  next result _ =>
    obtain rfl := Option.some.inj h
    rfl
  next => cases h
  next => cases h
  next => cases h

theorem exists_of_mem_outcomes {workers : List Worker} {r : Nat × Result}
    (h : r ∈ workers.flatMap Worker.outcomes) :
    ∃ worker ∈ workers, ∃ job ∈ worker.jobs, r.1 = job.id := by
  obtain ⟨worker, hworker, hr⟩ := List.mem_flatMap.mp h
  obtain ⟨job, hjob, houtcome⟩ := List.mem_filterMap.mp hr
  exact ⟨worker, hworker, job, hjob, id_of_outcome houtcome⟩

theorem outcomes_back (callers : List Job) :
    (Worker.back callers).outcomes = callers.filterMap Job.outcome := by
  rw [Worker.outcomes, jobs_back]

/-- The thread goes on with a job of which as much is left. -/
theorem outcomes_congr {job' : Job} (h : job'.outcome = job.outcome) :
    (Worker.running job' callers).outcomes = (Worker.running job callers).outcomes := by
  rw [Worker.outcomes, Worker.outcomes, Worker.jobs, Worker.jobs, List.filterMap_cons, h,
    List.filterMap_cons]

/-- The thread comes back from a job that did not fulfil its promise. -/
theorem outcomes_back_of_none (h : job.outcome = none) :
    (Worker.back callers).outcomes = (Worker.running job callers).outcomes := by
  rw [outcomes_back, Worker.outcomes, Worker.jobs, List.filterMap_cons_none h]

theorem settled_setNormal (s : State) (w : Nat) (worker : Worker) :
    (s.setWorker .normal w worker).settled = s.settled := by
  rw [State.setWorker, State.settled]
  simp only [Function.update_of_ne (show Pool.coroutine ≠ .normal by decide)]
  rfl

theorem settled_setCoroutine {old new : Worker} (hw : (s.workers .coroutine)[w]? = some old)
    (h : new.outcomes = old.outcomes) : (s.setWorker .coroutine w new).settled = s.settled := by
  rw [State.setWorker, State.settled]
  simp only [Function.update_self]
  rw [List.flatMap_def, map_set_of_eq hw h, ← List.flatMap_def]
  rfl

/-- A thread goes on with what it is running. -/
theorem settled_setWorker {old new : Worker} (hw : (s.workers p)[w]? = some old)
    (h : p = .coroutine → new.outcomes = old.outcomes) :
    (s.setWorker p w new).settled = s.settled := by
  cases p with
  | normal => exact settled_setNormal s w new
  | coroutine => exact settled_setCoroutine hw (h rfl)

theorem resultOf_congr (hfutures : s'.futures = s.futures) (hsettled : s'.settled = s.settled) :
    s'.resultOf = s.resultOf := by
  funext id
  rw [State.resultOf, State.resultOf, hfutures, hsettled]

/-- A future that does not exist yet is not settled. -/
theorem Promises.lookup_settled (h : Promises s) {id : Nat} (hid : s.futures.length ≤ id) :
    s.settled.lookup id = none := by
  have honce := h.once id
  rw [decide_eq_false (Nat.not_lt.mpr hid), Bool.toNat_false, State.places,
    Nat.add_eq_zero_iff] at honce
  refine List.lookup_eq_none_iff.mpr ?_
  intro r hr
  rcases List.mem_append.mp hr with hr | hr
  · have hne := List.countP_eq_zero.mp honce.1 r hr
    rw [beq_iff_eq] at hne
    exact bne_iff_ne.mpr (Ne.symm hne)
  · obtain ⟨worker, hworker, job, hjob, hr⟩ := exists_of_mem_outcomes hr
    have hhome := h.home .coroutine job (.inr ⟨worker, hworker, hjob⟩)
    have hlt := (List.getElem?_eq_some_iff.mp hhome).1
    have hne : id ≠ r.1 := by
      rw [hr]
      omega
    exact bne_iff_ne.mpr hne

/-- What is submitted is not settled. -/
theorem Promises.resultOf_concat (h : Promises s) (hfutures : s'.futures = s.futures ++ [q])
    (hsettled : s'.settled = s.settled) : s'.resultOf = s.resultOf := by
  funext id
  rw [State.resultOf, State.resultOf, hfutures, hsettled]
  rcases Nat.lt_or_ge id s.futures.length with hlt | hge
  · rw [List.getElem?_append_left hlt]
  · rw [h.lookup_settled hge, ite_self, ite_self]

/-- The promise of a running job is nowhere else. -/
theorem Promises.alone (h : Promises s) (hw : (s.workers p)[w]? = some (.running job callers))
    {job' : Job} (hhas : (s.setWorker p w (.back callers)).Has q job') : job'.id ≠ job.id := by
  intro hid
  have honce := h.once job.id
  have hset := weigh_setWorker (Job.fulfils job.id) (Worker.weight (Job.fulfils job.id)) hw
    (.back callers)
  have hle := le_weigh (Job.fulfils job.id) hhas
  have hbound := Bool.toNat_le (decide (job.id < s.futures.length))
  have hone : Job.fulfils job.id job = 1 := by simp [Job.fulfils]
  have hone' : Job.fulfils job.id job' = 1 := by simp [Job.fulfils, hid]
  rw [State.places] at honce
  rw [weight_back, weight_running] at hset
  omega

theorem outcome_finish {result : Result} (hswitched : job.switched = true)
    (hp : job.program = .finish result) : job.outcome = some (job.id, result) := by
  simp only [Job.outcome, hswitched, hp, Program.segment]

theorem outcome_fresh (hswitched : job.switched = false) : job.outcome = none := by
  simp only [Job.outcome, hswitched]

theorem outcome_suspend {next : Program} (hp : job.program = .suspend next) :
    job.outcome = none := by
  cases hswitched : job.switched with
  | false => exact outcome_fresh hswitched
  | true => simp only [Job.outcome, hswitched, hp, Program.segment]

theorem outcome_submit {f next : Program} (hp : job.program = .submit q f next) (id : Nat) :
    (job.gotoHolding next id).outcome = job.outcome := by
  simp only [Job.outcome, Job.gotoHolding, hp, Program.segment, List.map_append,
    List.map_singleton]

theorem outcome_missing {k : Nat} {onValue onException : Program}
    (hp : job.program = .get k onValue onException) (hk : job.held[k]? = none) :
    (job.goto onException).outcome = job.outcome := by
  simp only [Job.outcome, Job.goto, hp, Program.segment, List.getElem?_map, hk, Option.map_none]

/-- A coroutine fulfils its promise as it was settled. -/
theorem Promises.settled_finished (h : Promises s) {result : Result}
    (hw : (s.workers .coroutine)[w]? = some (.running job callers))
    (hp : job.program = .finish result) (hswitched : job.switched = true) (id : Nat) :
    (State.setWorker { s with ready := s.ready ++ [(job.id, result)] } .coroutine w
      (.back callers)).settled.lookup id = s.settled.lookup id := by
  obtain ⟨l₁, l₂, hl, hset, -⟩ := exists_split hw
  have hworkers : (s.setWorker .coroutine w (.back callers)).workers .coroutine =
      l₁ ++ .back callers :: l₂ := by
    rw [State.setWorker]
    simp only [Function.update_self, hset]
  let before := l₁.flatMap Worker.outcomes
  let after := callers.filterMap Job.outcome ++ l₂.flatMap Worker.outcomes
  have hsettled : s.settled = s.ready ++ (before ++ (job.id, result) :: after) := by
    rw [State.settled, hl, List.flatMap_append, List.flatMap_cons, Worker.outcomes, Worker.jobs,
      List.filterMap_cons_some (outcome_finish hswitched hp), List.cons_append]
  have hsettled' : (State.setWorker { s with ready := s.ready ++ [(job.id, result)] } .coroutine w
      (.back callers)).settled = (s.ready ++ [(job.id, result)]) ++ (before ++ after) := by
    show (s.ready ++ [(job.id, result)]) ++
      ((s.setWorker .coroutine w (.back callers)).workers .coroutine).flatMap Worker.outcomes = _
    rw [hworkers, List.flatMap_append, List.flatMap_cons, outcomes_back]
  rw [hsettled, hsettled']
  by_cases hid : id = job.id
  · subst hid
    have hready : s.ready.lookup job.id = none := by
      cases hlookup : s.ready.lookup job.id with
      | none => rfl
      | some r => exact absurd (mem_of_lookup hlookup) (h.not_ready (has_running hw) r)
    have hothers : before.lookup job.id = none := by
      refine List.lookup_eq_none_iff.mpr ?_
      intro r hr
      obtain ⟨worker, hworker, job', hjob', hr⟩ := exists_of_mem_outcomes hr
      have hhas : (s.setWorker .coroutine w (.back callers)).Has .coroutine job' :=
        .inr ⟨worker, hworkers ▸ List.mem_append_left _ hworker, hjob'⟩
      rw [hr]
      exact bne_iff_ne.mpr (Ne.symm (h.alone hw hhas))
    simp only [List.lookup_append, List.lookup_cons, hready, hothers, beq_self_eq_true,
      Option.none_or, Option.some_or]
  · have hne : (id == job.id) = false := beq_eq_false_iff_ne.mpr hid
    simp only [List.lookup_append, List.lookup_cons, hne, List.lookup_nil, Option.or_none]

/-- **Step rule.** Once the context of the coroutines is stopped, their results do not change. -/
theorem step_resultOf {threads : Pool → Nat} {a : Action} (h : Sound threads s)
    (hstopped : s.stopped .coroutine = true) (hs : step s a = some s') :
    s'.resultOf = s.resultOf := by
  cases step_moved hs with
  | submitted => exact h.promises.resultOf_concat rfl rfl
  | @took p w i job hw hi hrunning =>
      cases p with
      | normal => exact resultOf_congr rfl (settled_setNormal _ _ _)
      | coroutine =>
          rw [hstopped] at hrunning
          cases hrunning
  | @finished p w job callers result hw hp hswitched =>
      funext id
      cases p with
      | normal =>
          have hhome := h.promises.home .normal job (has_running hw)
          rw [State.resultOf, State.resultOf, settled_setNormal]
          show (if s.futures[id]? = some .coroutine then _ else none) = _
          by_cases hid : s.futures[id]? = some .coroutine
          · have hne : (id == job.id) = false := by
              refine beq_eq_false_iff_ne.mpr ?_
              rintro rfl
              rw [hhome] at hid
              cases hid
            rw [if_pos hid, if_pos hid, State.settled, State.settled]
            simp [List.lookup_append, List.lookup_cons, hne]
          · rw [if_neg hid, if_neg hid]
      | coroutine =>
          rw [State.resultOf, State.resultOf, h.promises.settled_finished hw hp (hswitched rfl)]
          rfl
  | @completes w job callers result hw hp hswitched =>
      exact resultOf_congr rfl (settled_setWorker (s := s.enqueue .coroutine _) hw fun _ =>
        outcomes_back_of_none (outcome_fresh hswitched))
  | @posted p q w job callers f next hw hp =>
      exact h.promises.resultOf_concat rfl (settled_setWorker (s := s.submit q f job.held) hw
        fun _ => outcomes_congr (outcome_submit hp s.futures.length))
  | @started w job callers f next hw hp =>
      -- nobody has been told of the new coroutine's future yet
      refine h.promises.resultOf_concat rfl (settled_setCoroutine hw ?_)
      rw [← outcomes_congr (outcome_submit hp s.futures.length), Worker.outcomes, Worker.jobs,
        List.filterMap_cons_none (outcome_fresh rfl)]
      rfl
  | @gotValue p w k future job callers onValue onException hw hp hk =>
      refine resultOf_congr rfl (settled_setWorker hw ?_)
      rintro rfl
      have hnone := (h.ok _ job (has_running hw)).held_eq_none hp
      rw [hk] at hnone
      cases hnone
  | @gotException p w k job callers onValue onException hw hp =>
      refine resultOf_congr rfl (settled_setWorker hw ?_)
      rintro rfl
      have hnone := (h.ok _ job (has_running hw)).held_eq_none hp
      exact outcomes_congr (outcome_missing hp hnone)
  | @suspended p w job callers next hw hp =>
      exact resultOf_congr rfl (settled_setWorker (s := s.enqueue p (job.later next)) hw fun _ =>
        outcomes_back_of_none (outcome_suspend hp))
  | leaves hw => exact resultOf_congr rfl (settled_setWorker hw fun _ => rfl)
  | stopsNormal | stopsCoroutine | joinsNormal | joinsCoroutine => rfl

/-! ### Who waits for ever -/

theorem escapes_setWorker {old new : Worker} (hw : (s.workers p)[w]? = some old)
    (h : p = .normal → s.blocks new = s.blocks old) :
    (∀ worker ∈ (s.setWorker p w new).workers .normal, s.blocks worker = false) ↔ Escapes s := by
  cases p with
  | normal =>
      rw [Escapes, State.setWorker]
      simp only [Function.update_self]
      rw [← List.forall_mem_map (f := s.blocks) (P := fun b => b = false),
        map_set_of_eq hw (h rfl), List.forall_mem_map]
  | coroutine =>
      rw [Escapes, State.setWorker]
      simp only [Function.update_of_ne (show Pool.normal ≠ .coroutine by decide)]

theorem blocks_congr {job' : Job} (h : s.segment job' = s.segment job) :
    s.blocks (.running job' callers) = s.blocks (.running job callers) := by
  simp only [State.blocks, Worker.jobs, List.any_cons, h]

theorem blocks_back (h : s.segment job ≠ .blocks) :
    s.blocks (.back callers) = s.blocks (.running job callers) := by
  rw [State.blocks, State.blocks, jobs_back, Worker.jobs, List.any_cons, decide_eq_false h,
    Bool.false_or]

theorem segment_of_blocks (h : s.blocks (.running job callers) = false) :
    s.segment job ≠ .blocks := by
  rw [State.blocks, Worker.jobs, List.any_cons, Bool.or_eq_false_iff] at h
  exact of_decide_eq_false h.1

theorem resultOf_fresh (s : State) : s.resultOf s.futures.length = none := by
  rw [State.resultOf, List.getElem?_eq_none (Nat.le_refl _), if_neg (by intro hc; cases hc)]

theorem segment_submit {f next : Program} (hp : job.program = .submit q f next) :
    s.segment (job.gotoHolding next s.futures.length) = s.segment job := by
  simp only [State.segment, Job.gotoHolding, hp, Program.segment, List.map_append,
    List.map_singleton, resultOf_fresh]

theorem segment_missing {k : Nat} {onValue onException : Program}
    (hp : job.program = .get k onValue onException) (hk : job.held[k]? = none) :
    s.segment (job.goto onException) = s.segment job := by
  simp only [State.segment, Job.goto, hp, Program.segment, List.getElem?_map, hk, Option.map_none]

theorem segment_value {k future : Nat} {onValue onException : Program}
    (hp : job.program = .get k onValue onException) (hk : job.held[k]? = some future)
    (hresult : s.resultOf future = some .value) :
    s.segment (job.goto onValue) = s.segment job := by
  simp only [State.segment, Job.goto, hp, Program.segment, List.getElem?_map, hk, Option.map_some,
    hresult]

theorem segment_exception {k future : Nat} {onValue onException : Program}
    (hp : job.program = .get k onValue onException) (hk : job.held[k]? = some future)
    (hresult : s.resultOf future = some .exception) :
    s.segment (job.goto onException) = s.segment job := by
  simp only [State.segment, Job.goto, hp, Program.segment, List.getElem?_map, hk, Option.map_some,
    hresult]

theorem resultOf_of_ready {future : Nat} {result : Result}
    (hkind : s.futures[future]? = some .coroutine)
    (hready : s.ready.lookup future = some result) : s.resultOf future = some result := by
  rw [State.resultOf, if_pos hkind, State.settled, List.lookup_append, hready, Option.some_or]

/-- **Step rule.** Once both contexts are stopped, nobody begins to wait for ever and nobody is
released. -/
theorem step_escapes {threads : Pool → Nat} {a : Action} (h : Sound threads s)
    (hstopped : ∀ p, s.stopped p = true) (hs : step s a = some s') : Escapes s' ↔ Escapes s := by
  have hresult := step_resultOf h (hstopped .coroutine) hs
  have hblocks : s'.blocks = s.blocks := by
    funext worker
    have hsegment : s'.segment = s.segment := by
      funext job
      rw [State.segment, State.segment, hresult]
    simp only [State.blocks, hsegment]
  rw [Escapes, hblocks]
  cases step_moved hs with
  | submitted | stopsNormal | stopsCoroutine | joinsNormal | joinsCoroutine => exact Iff.rfl
  | @took p w i job hw hi hrunning =>
      rw [hstopped] at hrunning
      cases hrunning
  | finished hw hp =>
      refine escapes_setWorker hw fun _ => blocks_back ?_
      rw [State.segment, hp]
      intro hc
      cases hc
  | completes hw hp =>
      refine escapes_setWorker hw fun hc => ?_
      cases hc
  | posted hw hp => exact escapes_setWorker hw fun _ => blocks_congr (segment_submit hp)
  | started hw hp =>
      refine escapes_setWorker hw fun hc => ?_
      cases hc
  | @gotValue p w k future job callers onValue onException hw hp hk hready =>
      refine escapes_setWorker hw ?_
      rintro rfl
      have hkind := (h.ok _ job (has_running hw)).coroutine hp hk
      exact blocks_congr (segment_value hp hk (resultOf_of_ready hkind hready))
  | @gotException p w k job callers onValue onException hw hp hready =>
      refine escapes_setWorker hw ?_
      rintro rfl
      cases hk : job.held[k]? with
      | none => exact blocks_congr (segment_missing hp hk)
      | some future =>
          have hkind := (h.ok _ job (has_running hw)).coroutine hp hk
          exact blocks_congr (segment_exception hp hk (resultOf_of_ready hkind (hready future hk)))
  | suspended hw hp =>
      refine escapes_setWorker hw fun _ => blocks_back ?_
      rw [State.segment, hp]
      intro hc
      cases hc
  | leaves hw => exact escapes_setWorker hw fun _ => rfl

/-! ### The end of `stop()` -/

theorem exists_live_step (hstopped : s.stopped p = true)
    (hlive : ∃ worker ∈ s.workers p, worker ≠ .left)
    (hget : ∀ job' callers, .running job' callers ∈ s.workers p →
      ∀ k onValue onException future, job'.program = .get k onValue onException →
        job'.held[k]? = some future → ∃ result, (future, result) ∈ s.ready) :
    ∃ a s', a.inside = true ∧ step s a = some s' := by
  obtain ⟨worker, hmem, hne⟩ := hlive
  obtain ⟨w, hw⟩ := List.mem_iff_getElem?.mp hmem
  cases worker with
  | left => exact absurd rfl hne
  | idle => exact ⟨.leave p w, s.setWorker p w .left, rfl, if_pos ⟨hw, hstopped⟩⟩
  | running job callers =>
      obtain ⟨s', hs'⟩ := exists_run hw (hget job callers hmem)
      exact ⟨.run p w, s', rfl, hs'⟩

/-- Where all coroutines have left, what is settled is ready. -/
theorem ready_of_resultOf (hleft : ∀ worker ∈ s.workers .coroutine, worker = .left) {future : Nat}
    {result : Result} (h : s.resultOf future = some result) : (future, result) ∈ s.ready := by
  have hsettled : s.settled = s.ready := by
    have hnil : (s.workers .coroutine).flatMap Worker.outcomes = [] := by
      refine List.flatMap_eq_nil_iff.mpr ?_
      intro worker hmem
      rw [hleft worker hmem]
      rfl
    rw [State.settled, hnil, List.append_nil]
  rw [State.resultOf, hsettled] at h
  split at h
  next => exact mem_of_lookup h
  next => cases h

theorem exists_inside_step {threads : Pool → Nat} (h : Sound threads s)
    (hstopped : ∀ p, s.stopped p = true) (hescapes : Escapes s)
    (hstop : s.stop ≠ .returned) : ∃ a s', a.inside = true ∧ step s a = some s' := by
  by_cases hcoroutine : ∃ worker ∈ s.workers .coroutine, worker ≠ .left
  · refine exists_live_step (hstopped .coroutine) hcoroutine ?_
    intro job callers hmem k onValue onException future hp hk
    rw [(h.ok _ job (.inr ⟨_, hmem, List.mem_cons_self⟩)).held_eq_none hp] at hk
    cases hk
  have hleft : ∀ worker ∈ s.workers .coroutine, worker = .left := by
    intro worker hmem
    by_contra hne
    exact hcoroutine ⟨worker, hmem, hne⟩
  by_cases hnormal : ∃ worker ∈ s.workers .normal, worker ≠ .left
  · refine exists_live_step (hstopped .normal) hnormal ?_
    intro job callers hmem k onValue onException future hp hk
    have hblocks := segment_of_blocks (hescapes _ hmem)
    rw [State.segment, hp, Program.segment, List.getElem?_map, hk, Option.map_some] at hblocks
    cases hresult : s.resultOf future with
    | none =>
        rw [hresult] at hblocks
        exact absurd rfl hblocks
    | some result => exact ⟨result, ready_of_resultOf hleft hresult⟩
  have hleft' : ∀ worker ∈ s.workers .normal, worker = .left := by
    intro worker hmem
    by_contra hne
    exact hnormal ⟨worker, hmem, hne⟩
  refine ⟨.stop, ?_⟩
  simp only [step, stopStep, gone_iff.mpr hleft, gone_iff.mpr hleft', if_true]
  cases hpc : s.stop with
  | returned => exact absurd hpc hstop
  | notCalled | stopCoroutine | joinNormal | joinCoroutine => exact ⟨_, rfl, rfl⟩

theorem step_stopped {a : Action} (h : ∀ p, s.stopped p = true) (hs : step s a = some s') :
    ∀ p, s'.stopped p = true := by
  intro p
  cases step_moved hs with
  | submitted | took | finished | completes | posted | started | gotValue | gotException
  | suspended | leaves | joinsNormal | joinsCoroutine => exact h p
  | stopsNormal | stopsCoroutine =>
      simp only [Function.update_apply, h p, ite_self]

theorem layered_of_inside {a : Action} (ha : a.inside = true) : Layered s a := by
  cases a with
  | submit => cases ha
  | take | run | leave | stop => trivial

/-- What holds once both contexts are stopped. -/
structure Halting (threads : Pool → Nat) (s : State) : Prop where
  sound : Sound threads s
  stopped : ∀ p, s.stopped p = true
  halt : Halt s

theorem step_halting {threads : Pool → Nat} {a : Action} (h : Halting threads s)
    (hg : Layered s a) (hs : step s a = some s') : Halting threads s' :=
  ⟨step_sound h.sound hg hs, step_stopped h.stopped hs, step_halt h.halt hs⟩

theorem exec_inside {n m : Nat} {threads : Pool → Nat} {l : List Action} {t : State}
    (h : Halting threads s) (hescapes : Escapes s) (ht : (machine n m).exec s l = some t)
    (hl : ∀ a ∈ l, a.inside = true) :
    Halting threads t ∧ Escapes t ∧ l.length + t.work ≤ s.work := by
  induction l generalizing s with
  | nil =>
      obtain rfl := Option.some.inj ht
      exact ⟨h, hescapes, by rw [List.length_nil]; omega⟩
  | cons a l ih =>
      obtain ⟨s', hs, hrest⟩ := Machine.exec_cons_some ht
      have ha := hl a List.mem_cons_self
      obtain ⟨hhalting, hescapes', hwork⟩ := ih (step_halting h (layered_of_inside ha) hs)
        ((step_escapes h.sound h.stopped hs).mpr hescapes) hrest fun b hb =>
          hl b (List.mem_cons_of_mem a hb)
      have hless := work_of_step hs ha
      refine ⟨hhalting, hescapes', ?_⟩
      rw [List.length_cons]
      omega

theorem exists_returned (n m : Nat) {threads : Pool → Nat} (h : Halting threads s)
    (hescapes : Escapes s) :
    ∃ t, (machine n m).Steps Layered s t ∧ t.stop = .returned := by
  -- every step takes some work away
  induction hwork : s.work using Nat.strongRecOn generalizing s with
  | ind work ih =>
      by_cases hstop : s.stop = .returned
      · exact ⟨s, Machine.Steps.refl s, hstop⟩
      · obtain ⟨a, s', ha, hs⟩ := exists_inside_step h.sound h.stopped hescapes hstop
        have hg : Layered s a := layered_of_inside ha
        obtain ⟨t, hsteps, hreturned⟩ := ih s'.work (hwork ▸ work_of_step hs ha)
          (step_halting h hg hs) ((step_escapes h.sound h.stopped hs).mpr hescapes) rfl
        exact ⟨t, (Machine.Steps.single hg hs).trans hsteps, hreturned⟩

theorem escapes_of_returned (h : Halt s) (hstop : s.stop = .returned) : Escapes s := by
  intro worker hmem
  rw [h.joined .normal (by rw [hstop]; rfl) worker hmem]
  rfl

theorem steps_halting {n m : Nat} {threads : Pool → Nat} {t : State} (h : Halting threads s)
    (ht : (machine n m).Steps Layered s t) : Halting threads t ∧ (Escapes t ↔ Escapes s) := by
  refine ht.invariant (I := fun u => Halting threads u ∧ (Escapes u ↔ Escapes s)) ⟨h, Iff.rfl⟩ ?_
  intro u a u' hi hg hs
  exact ⟨step_halting hi.1 hg hs,
    (step_escapes hi.1.sound hi.1.stopped hs).trans hi.2⟩

/-- **When `stop()` returns.** Once both contexts are stopped: `stop()` can return if and only if
no function that is running gets to wait for a coroutine that is queued, suspended, going to be
suspended or going to post its completion. And if so it does, in whatever order the threads go
on. -/
theorem stop_returns_iff {n m : Nat} {s : State} (h : (machine n m).Reachable Layered s)
    (hstopped : ∀ p, s.stopped p = true) :
    ((∃ t, (machine n m).Steps Layered s t ∧ t.stop = .returned) ↔ Escapes s) ∧
      (Escapes s → ∀ l t, (machine n m).exec s l = some t → (∀ a ∈ l, a.inside = true) →
        l.length ≤ s.work ∧
          ((∃ a t', a.inside = true ∧ (machine n m).step t a = some t') ∨
            t.stop = .returned)) := by
  have hhalting : Halting (threads n m) s := ⟨reachable_sound h, hstopped, reachable_halt h⟩
  refine ⟨⟨?_, exists_returned n m hhalting⟩, ?_⟩
  · rintro ⟨t, ht, hreturned⟩
    obtain ⟨hhalting', hiff⟩ := steps_halting hhalting ht
    exact hiff.mp (escapes_of_returned hhalting'.halt hreturned)
  · intro hescapes l t ht hl
    obtain ⟨hhalting', hescapes', hwork⟩ := exec_inside hhalting hescapes ht hl
    refine ⟨by omega, ?_⟩
    by_cases hreturned : t.stop = .returned
    · exact .inr hreturned
    · exact .inl (exists_inside_step hhalting'.sound hhalting'.stopped hescapes' hreturned)

/-- A function that waits for a coroutine which is never suspended. -/
def waitsForShort : Program :=
  .submit .coroutine (.finish .value) (.get 0 (.finish .value) (.finish .exception))

/-- The coroutine is over when `stop()` is called, its completion is queued. -/
theorem stop_returns_iff_posted :
    ∃ s : State, (machine 1 1).Reachable Layered s ∧ s.stop = .joinNormal ∧
      s.queue .coroutine = [⟨1, .finish .value, [], true⟩] ∧ ¬ Escapes s ∧
      ¬ ∃ t, (machine 1 1).Steps Layered s t ∧ t.stop = .returned := by
  obtain ⟨s, hs, hp⟩ := Machine.reachable_of_execWithin (M := machine 1 1) (G := Layered)
    (l := [.submit .normal waitsForShort []] ++ toBlocked ++ [.stop, .stop])
    (p := fun s => decide (s.stop = .joinNormal) && s.stopped .normal && s.stopped .coroutine &&
      decide (s.queue .coroutine = [⟨1, .finish .value, [], true⟩]) &&
      decide (¬ Escapes s)) (by decide)
  simp only [Bool.and_eq_true, decide_eq_true_eq] at hp
  obtain ⟨⟨⟨⟨hstop, hnormal⟩, hcoroutine⟩, hqueue⟩, hescapes⟩ := hp
  have hstopped : ∀ p, s.stopped p = true := by
    intro p
    cases p with
    | normal => exact hnormal
    | coroutine => exact hcoroutine
  exact ⟨s, hs, hstop, hqueue, hescapes, fun hreturns =>
    hescapes ((stop_returns_iff hs hstopped).1.mp hreturns)⟩

end CppCode.TaskPool
