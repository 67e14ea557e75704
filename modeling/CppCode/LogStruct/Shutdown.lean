import CppCode.LogStruct.Ownership

/-!
# CppCode.LogStruct.Shutdown

**Whether `~LogStruct()` can hang.** The destructor stores `is_running_ = false`, asks
for a last `flush()` and only then has `write_thread_` stopped and joined. The stop
request does not wake a worker that sleeps in `has_data_to_write.wait(false)`; only the
last `flush()` does, and `flush()` is refused while `is_writing_` is set.

* An accepted flush sets the flag and leaves an empty active vector, so the worker's
  next round is its last one (`Leaving`).
* A refused flush leaves the worker on its own: with records in the active vector, or
  with the wake-up of the previous flush wiped out (`CppCode.LogStruct.Handover`), it
  goes to sleep before the stop request arrives.

`shutdown_ends_iff` says exactly from which states the destructor cannot hang.
-/

namespace CppCode.LogStruct

open Concurrency

variable {cfg : Config} {now : Int}

/-! ### The phases of the object's life -/

/-- The destructor has stored `is_running_ = false`. -/
def Producer.stopping : Producer cfg → Bool
  | .flush .destructor _ => true
  | .destroy .storeRunning => false
  | .destroy _ => true
  | _ => false

/-- The destructor of `write_thread_` has requested the stop. -/
def Producer.stopped : Producer cfg → Bool
  | .destroy .join | .destroy .destroyed => true
  | _ => false

/-- Positions the worker only gets to after `is_running_ = false` or a stop request. -/
def Worker.leaving : Worker → Bool
  | .loopTest | .loadCurrent | .done => true
  | _ => false

/-- What the destructor's progress says about `is_running_`, the stop request and the
worker, over the components of a state. -/
structure LifeAt (isRunning stopRequested : Bool) (producer : Producer cfg) (worker : Worker) :
    Prop where
  running : isRunning = !producer.stopping
  requested : stopRequested = producer.stopped
  leaving : worker.leaving = true → isRunning = false

abbrev Life (s : State cfg) : Prop := LifeAt s.isRunning s.stopRequested s.producer s.worker

section Components

variable {isRunning stopRequested : Bool} {p p' : Producer cfg} {w w' : Worker}

theorem LifeAt.moveProducer (h : LifeAt isRunning stopRequested p w)
    (hs : p'.stopping = p.stopping) (hr : p'.stopped = p.stopped) :
    LifeAt isRunning stopRequested p' w where
  running := by rw [hs]; exact h.running
  requested := by rw [hr]; exact h.requested
  leaving := h.leaving

theorem LifeAt.moveWorker (h : LifeAt isRunning stopRequested p w)
    (hl : w'.leaving = true → isRunning = false) : LifeAt isRunning stopRequested p w' where
  running := h.running
  requested := h.requested
  leaving := hl

end Components

theorem life_start (cfg : Config) (now : Int) : Life (State.start cfg now) :=
  ⟨rfl, rfl, nofun⟩

theorem returnFlush_life {s : State cfg} {caller : FlushCaller cfg} {pc : FlushPc} (h : Life s)
    (hp : s.producer = .flush caller pc) (result : Bool) : Life (returnFlush s result caller) := by
  cases caller <;> exact h.moveProducer (by rw [hp]; rfl) (by rw [hp]; rfl)

theorem flushStep_life {s : State cfg} {caller : FlushCaller cfg} {pc : FlushPc} (h : Life s)
    (hp : s.producer = .flush caller pc) : Life (flushStep s caller pc) := by
  cases pc with
  | checkWriting =>
      simp only [flushStep]
      split
      · exact returnFlush_life h hp false
      · exact h.moveProducer (by rw [hp]; cases caller <;> rfl) (by rw [hp]; rfl)
  | notify => exact returnFlush_life h hp true
  | _ => exact h.moveProducer (by rw [hp]; cases caller <;> rfl) (by rw [hp]; rfl)

theorem writeStep_life {s s' : State cfg} {pc : WritePc cfg} (h : Life s)
    (hp : s.producer = .write pc) (hs : writeStep s pc = some s') : Life s' := by
  cases pc with
  | loadCurrent | insert =>
      obtain rfl := Option.some.inj hs
      exact h.moveProducer (by rw [hp]; rfl) (by rw [hp]; rfl)
  | checkCapacity data curr =>
      cases data with
      | none =>
          obtain rfl := Option.some.inj hs
          exact h.moveProducer (by rw [hp]; rfl) (by rw [hp]; rfl)
      | some record =>
          simp only [writeStep] at hs
          split at hs <;> obtain rfl := Option.some.inj hs <;>
            exact h.moveProducer (by rw [hp]; rfl) (by rw [hp]; rfl)
  | readClock => cases hs
  | checkThreshold data curr now =>
      simp only [writeStep] at hs
      split at hs <;> obtain rfl := Option.some.inj hs <;>
        exact h.moveProducer (by rw [hp]; rfl) (by rw [hp]; rfl)

theorem destroyStep_life {s s' : State cfg} {pc : DestroyPc} (h : Life s)
    (hp : s.producer = .destroy pc) (hs : destroyStep s pc = some s') : Life s' := by
  cases pc with
  | storeRunning =>
      obtain rfl := Option.some.inj hs
      exact ⟨rfl, by rw [h.requested, hp]; rfl, fun _ => rfl⟩
  | close | deleteBuffer1 | deleteBuffer2 =>
      obtain rfl := Option.some.inj hs
      exact h.moveProducer (by rw [hp]; rfl) (by rw [hp]; rfl)
  | requestStop =>
      obtain rfl := Option.some.inj hs
      exact ⟨by rw [h.running, hp]; rfl, rfl, h.leaving⟩
  | join =>
      simp only [destroyStep, Option.ite_none_right_eq_some, Option.some.injEq] at hs
      obtain ⟨-, rfl⟩ := hs
      exact h.moveProducer (by rw [hp]; rfl) (by rw [hp]; rfl)
  | destroyed => cases hs

/-- A stop request comes after `is_running_ = false`. -/
theorem LifeAt.not_running {isRunning : Bool} {p : Producer cfg} {w : Worker}
    (h : LifeAt isRunning true p w) : isRunning = false := by
  have hr := h.requested
  rw [h.running]
  cases p with
  | destroy pc => cases pc <;> first | rfl | cases hr
  | flush caller pc => cases hr
  | _ => cases hr

theorem WorkerMoved.life {s s' : State cfg} (hs : WorkerMoved s s') (h : Life s) : Life s' := by
  cases hs with
  | loopHead hw =>
      refine h.moveWorker ?_
      intro hl
      cases hr : s.stopRequested with
      | true =>
          have h' : LifeAt s.isRunning true s.producer s.worker := hr ▸ h
          exact h'.not_running
      | false =>
          rw [hr] at hl
          cases hl
  | loopTest hw => exact h.moveWorker fun _ => h.leaving (by rw [hw]; rfl)
  | loadRunning hw =>
      refine h.moveWorker ?_
      intro hl
      cases hr : s.isRunning with
      | true =>
          rw [hr] at hl
          cases hl
      | false => rfl
  | loadCurrent hw => exact h.moveWorker fun _ => h.leaving (by rw [hw]; rfl)
  | _ => exact h.moveWorker nofun

theorem step_life {s s' : State cfg} {a : Action cfg} (h : Life s) (hs : step s a = some s') :
    Life s' := by
  cases step_moved hs with
  | callWrite data hp | callFlush hp | callDestroy hp | clock now hp =>
      exact h.moveProducer (by rw [hp]; rfl) (by rw [hp]; rfl)
  | write hp hw => exact writeStep_life h hp hw
  | flush hp => exact flushStep_life h hp
  | destroy hp hd => exact destroyStep_life h hp hd
  | worker hw => exact hw.life h
  | sysWrite hw =>
      obtain ⟨target, need, written, -, -, ⟨-, rfl⟩ | ⟨n, -, -, -, rfl⟩⟩ := sysWriteStep_moved hw <;>
        exact h.moveWorker nofun

theorem reachable_life {G : Guard (State cfg) (Action cfg)} {s : State cfg}
    (h : (machine cfg now).Reachable G s) : Life s :=
  h.invariant (life_start cfg now) fun _ hi _ hs => step_life hi hs

/-! ### No hang -/

/-- The destructor waits in `join()` for a worker that sleeps with the flag clear. -/
def hung (s : State cfg) : Bool :=
  s.producer == .destroy .join && s.worker == .wait && !s.hasDataToWrite

/-- No buffer is handed over, or the worker is on its way to it with nothing left to do
afterwards. -/
def canStop (s : State cfg) : Prop :=
  s.isWriting = false ∨
    (active s = [] ∧ s.hasDataToWrite = true ∧ s.worker ≠ .clearFlag)

instance (s : State cfg) : Decidable (canStop s) :=
  inferInstanceAs (Decidable (_ ∨ _ ∧ _ ∧ ¬ _))

/-- The worker's way from its last `clear()` out of the loop. -/
def Worker.last : Worker → Bool
  | .loadRunning | .loadCurrent | .done => true
  | _ => false

/-- The worker leaves its loop at the end of this round or of the next one. -/
structure Leaving (s : State cfg) : Prop where
  running : s.isRunning = false
  empty : active s = []
  awake : s.hasDataToWrite = true ∨ s.worker.last = true

/-- What keeps the destructor from hanging, at each of its positions. -/
def ShutdownOk (s : State cfg) : Prop :=
  match s.producer with
  | .destroy .storeRunning => canStop s
  | .flush .destructor .checkWriting => s.isRunning = false ∧ canStop s
  | .flush .destructor .notify => Leaving s
  | .flush .destructor _ => s.isRunning = false
  | .destroy _ => Leaving s
  | _ => False

theorem Leaving.not_hung {s : State cfg} (h : Leaving s) : hung s = false := by
  cases hw : s.worker with
  | wait =>
      have hf : s.hasDataToWrite = true := h.awake.resolve_right (by simp [hw, Worker.last])
      simp [hung, hf]
  | _ => simp [hung, hw]

theorem ShutdownOk.not_hung {s : State cfg} (h : ShutdownOk s) : hung s = false := by
  cases hp : s.producer with
  | destroy pc =>
      cases pc with
      | join =>
          simp only [ShutdownOk, hp] at h
          exact h.not_hung
      | _ => simp [hung, hp]
  | _ => simp [hung, hp]

/-- `resize(0)` on the worker's target cannot fill the active vector. -/
theorem active_resize {s : State cfg} (h : active s = []) (target : VecId) :
    Function.update s.vectors target [] s.currentVector = [] := by
  by_cases ht : s.currentVector = target
  · rw [ht, Function.update_self]
  · rw [Function.update_of_ne ht]
    exact h

theorem WorkerMoved.canStop {s s' : State cfg} (hs : WorkerMoved s s') (h : canStop s) :
    LogStruct.canStop s' := by
  rcases h with hw | ⟨he, hf, hc⟩
  · cases hs with
    | storeWriting => exact .inl rfl
    | _ => exact .inl hw
  · cases hs with
    | storeWriting => exact .inl rfl
    | clearFlag hw => exact absurd hw hc
    | resize hw => exact .inr ⟨active_resize he _, hf, nofun⟩
    | loopHead hw => exact .inr ⟨he, hf, by cases s.stopRequested <;> nofun⟩
    | loopTest hw => exact .inr ⟨he, hf, by cases s.hasDataToWrite <;> nofun⟩
    | loadRunning hw => exact .inr ⟨he, hf, by cases s.isRunning <;> nofun⟩
    | loadCurrent hw =>
        exact .inr ⟨he, hf, by cases (s.vectors s.currentVector).isEmpty <;> nofun⟩
    | _ => exact .inr ⟨he, hf, nofun⟩

theorem WorkerMoved.leaving {s s' : State cfg} (hs : WorkerMoved s s') (h : Leaving s) :
    Leaving s' := by
  have hr := h.running
  have he := h.empty
  -- a flag that is still set stays so until `clear()`
  have hset : s.worker.last = false → s.hasDataToWrite = true := fun hl =>
    h.awake.resolve_right (by simp [hl])
  cases hs with
  | clearFlag hw => exact ⟨hr, he, .inr rfl⟩
  | loadRunning hw => exact ⟨hr, he, .inr (by simp [hr, Worker.last])⟩
  | loadCurrent hw =>
      refine ⟨hr, he, .inr ?_⟩
      rw [show s.vectors s.currentVector = [] from he]
      rfl
  | resize hw => exact ⟨hr, active_resize he _, .inl (hset (by rw [hw]; rfl))⟩
  | loopHead hw | loopTest hw | wake hw | loadTarget hw | inspectEmpty hw | inspectFull hw
  | written hw | storeWriting hw => exact ⟨hr, he, .inl (hset (by rw [hw]; rfl))⟩

/-- A step of the worker: the destructor stays where it is. -/
theorem ShutdownOk.moveWorker {s s' : State cfg} (h : ShutdownOk s)
    (hp : s'.producer = s.producer) (hr : s'.isRunning = s.isRunning)
    (hc : canStop s → canStop s') (hl : Leaving s → Leaving s') : ShutdownOk s' := by
  unfold ShutdownOk at h ⊢
  rw [hp, hr]
  split at h
  · exact hc h
  · exact ⟨h.1, hc h.2⟩
  · exact hl h
  · exact h
  · exact hl h
  · exact h

theorem WorkerMoved.shutdownOk {s s' : State cfg} (hs : WorkerMoved s s') (h : ShutdownOk s) :
    ShutdownOk s' :=
  h.moveWorker (by cases hs <;> rfl) (by cases hs <;> rfl) hs.canStop hs.leaving

theorem sysWriteStep_shutdownOk {s s' : State cfg} {result : Int} (h : ShutdownOk s)
    (hs : sysWriteStep s result = some s') : ShutdownOk s' := by
  obtain ⟨target, need, written, hw, -, hmove⟩ := sysWriteStep_moved hs
  have hset : Leaving s → s.hasDataToWrite = true := fun hl =>
    hl.awake.resolve_right (by simp [hw, Worker.last])
  rcases hmove with ⟨-, rfl⟩ | ⟨n, -, -, -, rfl⟩ <;>
    exact h.moveWorker rfl rfl (fun hc => hc.imp id fun hd => ⟨hd.1, hd.2.1, nofun⟩)
      fun hl => ⟨hl.running, hl.empty, .inl (hset hl)⟩

theorem flushStep_shutdownOk {s : State cfg} {caller : FlushCaller cfg} {pc : FlushPc}
    (h : ShutdownOk s) (ho : Ownership s) (hp : s.producer = .flush caller pc) :
    ShutdownOk (flushStep s caller pc) := by
  have hswap := ho.swap
  rw [hp] at hswap
  cases caller with
  | user | write => simp [ShutdownOk, hp] at h
  | destructor =>
      cases pc with
      | checkWriting =>
          simp only [ShutdownOk, hp] at h
          obtain ⟨hr, hc⟩ := h
          cases hw : s.isWriting with
          | true =>
              -- refused: the flag is set and there is nothing to write afterwards
              obtain ⟨he, hf, -⟩ := hc.resolve_left (by simp [hw])
              simp only [flushStep, hw, if_true]
              exact ⟨hr, he, .inl hf⟩
          | false =>
              simp only [flushStep, hw, Bool.false_eq_true, if_false]
              exact hr
      | signal =>
          simp only [ShutdownOk, hp] at h
          exact ⟨h, hswap, .inl rfl⟩
      | notify =>
          simp only [ShutdownOk, hp] at h
          exact ⟨h.running, h.empty, h.awake⟩
      | markWriting | loadCurrent | loadNext | storeCurrent | storeNext =>
          simp only [ShutdownOk, hp] at h
          exact h

theorem destroyStep_shutdownOk {s s' : State cfg} {pc : DestroyPc} (h : ShutdownOk s)
    (hp : s.producer = .destroy pc) (hs : destroyStep s pc = some s') : ShutdownOk s' := by
  simp only [ShutdownOk, hp] at h
  cases pc with
  | storeRunning =>
      obtain rfl := Option.some.inj hs
      exact ⟨rfl, h⟩
  | close | deleteBuffer1 | deleteBuffer2 | requestStop =>
      obtain rfl := Option.some.inj hs
      exact ⟨h.running, h.empty, h.awake⟩
  | join =>
      simp only [destroyStep, Option.ite_none_right_eq_some, Option.some.injEq] at hs
      obtain ⟨-, rfl⟩ := hs
      exact ⟨h.running, h.empty, h.awake⟩
  | destroyed => cases hs

theorem step_shutdownOk {s s' : State cfg} {a : Action cfg} (h : ShutdownOk s) (ho : Ownership s)
    (hs : step s a = some s') : ShutdownOk s' := by
  cases step_moved hs with
  | callWrite data hp | callFlush hp | callDestroy hp | clock now hp =>
      simp [ShutdownOk, hp] at h
  | write hp hw => simp [ShutdownOk, hp] at h
  | flush hp => exact flushStep_shutdownOk h ho hp
  | destroy hp hd => exact destroyStep_shutdownOk h hp hd
  | worker hw => exact hw.shutdownOk h
  | sysWrite hw => exact sysWriteStep_shutdownOk h hw

/-- From a state that meets the condition no run of the destructor hangs. -/
theorem never_hung {s t : State cfg} (h : (machine cfg now).Reachable Machine.free s)
    (hok : ShutdownOk s) (ht : (machine cfg now).Steps Machine.free s t) : hung t = false := by
  have key : (machine cfg now).Reachable Machine.free t ∧ ShutdownOk t := by
    refine ht.invariant
      (I := fun t => (machine cfg now).Reachable Machine.free t ∧ ShutdownOk t) ⟨h, hok⟩ ?_
    intro u a u' hu _ hstep
    exact ⟨hu.1.step trivial hstep, step_shutdownOk hu.2 (reachable_ownership hu.1) hstep⟩
  exact key.2.not_hung

/-! ### A hang

The converse: the runs in which the worker falls asleep behind a refused flush. -/

/-- The worker can go to sleep with the flag clear while the producer stays put. -/
def FallsAsleep (now : Int) (s : State cfg) : Prop :=
  ∃ t, (machine cfg now).Steps Machine.free s t ∧ t.producer = s.producer ∧ t.worker = .wait ∧
    t.hasDataToWrite = false

theorem FallsAsleep.head {s s' : State cfg} {a : Action cfg} (h : FallsAsleep now s')
    (hs : step s a = some s') (hp : s'.producer = s.producer) : FallsAsleep now s := by
  obtain ⟨t, ht, hprod, hw, hf⟩ := h
  exact ⟨t, (Machine.Steps.single (a := a) trivial hs).trans ht, hprod.trans hp, hw, hf⟩

/-- The last `flush()` was refused, the stop request is not there yet, and the active
vector keeps the worker in its loop. -/
structure Abandoned (s : State cfg) : Prop where
  running : s.isRunning = false
  requested : s.stopRequested = false
  nonempty : active s ≠ []

/-- How many steps the worker takes at most until it sleeps. -/
def Worker.toSleep (hasData : Bool) : Worker → Nat
  | .loadRunning => if hasData then 14 else 4
  | .loadCurrent => if hasData then 13 else 3
  | .loopHead => if hasData then 12 else 2
  | .wait => if hasData then 11 else 1
  | .loadTarget => 10
  | .inspect _ => 9
  | .writing _ _ _ => 8
  | .resize _ _ => 7
  | .storeWriting => 6
  | .clearFlag => 5
  | .loopTest | .done => 0

/-- The worker moves on, nearer to its sleep, and touches nothing else. -/
theorem Abandoned.moves {s : State cfg} (h : Abandoned s) {a : Action cfg} {w : Worker} {n : Nat}
    (hs : LogStruct.step s a = some { s with worker := w })
    (hpos : 0 < w.toSleep s.hasDataToWrite) (hlt : w.toSleep s.hasDataToWrite < n) :
    ∃ a s', LogStruct.step s a = some s' ∧ s'.producer = s.producer ∧ Abandoned s' ∧
      0 < s'.worker.toSleep s'.hasDataToWrite ∧ s'.worker.toSleep s'.hasDataToWrite < n :=
  ⟨a, { s with worker := w }, hs, rfl, ⟨h.running, h.requested, h.nonempty⟩, hpos, hlt⟩

/-- An abandoned worker that is still awake has a step that brings it closer to its
sleep; where `::write` is called, one that fails. -/
theorem Abandoned.step {s : State cfg} (h : Abandoned s) (ho : Ownership s)
    (hpos : 1 < s.worker.toSleep s.hasDataToWrite) :
    ∃ a s', LogStruct.step s a = some s' ∧ s'.producer = s.producer ∧ Abandoned s' ∧
      0 < s'.worker.toSleep s'.hasDataToWrite ∧
      s'.worker.toSleep s'.hasDataToWrite < s.worker.toSleep s.hasDataToWrite := by
  have hr := h.running
  have hq := h.requested
  have hv := h.nonempty
  cases hw : s.worker with
  | loopTest | done => simp [hw, Worker.toSleep] at hpos
  | wait =>
      cases hf : s.hasDataToWrite with
      | false => simp [hw, hf, Worker.toSleep] at hpos
      | true =>
          exact h.moves (a := .worker) (w := .loadTarget)
            (by simp [LogStruct.step, writeToFileStep, hw, hf])
            (by simp [Worker.toSleep]) (by simp [Worker.toSleep])
  | loopHead =>
      exact h.moves (a := .worker) (w := .wait)
        (by simp [LogStruct.step, writeToFileStep, hw, hq])
        (by cases s.hasDataToWrite <;> simp [Worker.toSleep])
        (by cases s.hasDataToWrite <;> simp [Worker.toSleep])
  | loadTarget =>
      exact h.moves (a := .worker) (w := .inspect s.nextVector)
        (by simp [LogStruct.step, writeToFileStep, hw])
        (by simp [Worker.toSleep]) (by simp [Worker.toSleep])
  | inspect target =>
      by_cases he : s.vectors target = []
      · exact h.moves (a := .worker) (w := .storeWriting)
          (by simp [LogStruct.step, writeToFileStep, hw, he])
          (by simp [Worker.toSleep]) (by simp [Worker.toSleep])
      · exact h.moves (a := .worker) (w := .writing target (s.vectors target).length 0)
          (by simp [LogStruct.step, writeToFileStep, hw, he])
          (by simp [Worker.toSleep]) (by simp [Worker.toSleep])
  | writing target need written =>
      by_cases hlt : written < need
      · have hsys : sysWriteStep s (-1) = some { s with worker := .resize target written } := by
          simp only [sysWriteStep, hw]
          rw [if_pos ⟨hlt, by omega, .inr (by omega)⟩, if_pos (by omega)]
        exact h.moves (a := .sysWrite (-1)) hsys (by simp [Worker.toSleep])
          (by simp [Worker.toSleep])
      · exact h.moves (a := .worker) (w := .resize target written)
          (by simp [LogStruct.step, writeToFileStep, hw, hlt])
          (by simp [Worker.toSleep]) (by simp [Worker.toSleep])
  | resize target written =>
      have ht := ho.target
      have hne := ho.current_ne_next (by rw [hw]; rfl)
      rw [hw] at ht
      obtain ⟨rfl, -⟩ := ht
      -- the worker empties the other vector
      have hv' : Function.update s.vectors s.nextVector [] s.currentVector ≠ [] := by
        rw [Function.update_of_ne hne]
        exact hv
      exact ⟨.worker, { s with
          vectors := Function.update s.vectors s.nextVector [], worker := .storeWriting },
        by simp [LogStruct.step, writeToFileStep, hw], rfl, ⟨hr, hq, hv'⟩,
        by simp [Worker.toSleep], by simp [Worker.toSleep]⟩
  | storeWriting =>
      exact ⟨.worker, { s with isWriting := false, worker := .clearFlag },
        by simp [LogStruct.step, writeToFileStep, hw], rfl, ⟨hr, hq, hv⟩,
        by simp [Worker.toSleep], by simp [Worker.toSleep]⟩
  | clearFlag =>
      exact ⟨.worker, { s with hasDataToWrite := false, worker := .loadRunning },
        by simp [LogStruct.step, writeToFileStep, hw], rfl, ⟨hr, hq, hv⟩,
        by simp [Worker.toSleep], by simp [Worker.toSleep]⟩
  | loadRunning =>
      exact h.moves (a := .worker) (w := .loadCurrent)
        (by simp [LogStruct.step, writeToFileStep, hw, hr])
        (by cases s.hasDataToWrite <;> simp [Worker.toSleep])
        (by cases s.hasDataToWrite <;> simp [Worker.toSleep])
  | loadCurrent =>
      have hne : ¬ s.vectors s.currentVector = [] := hv
      exact h.moves (a := .worker) (w := .loopHead)
        (by simp [LogStruct.step, writeToFileStep, hw, hne])
        (by cases s.hasDataToWrite <;> simp [Worker.toSleep])
        (by cases s.hasDataToWrite <;> simp [Worker.toSleep])

/-- **An abandoned worker falls asleep**, wherever it is in its loop. -/
theorem falls_asleep (now : Int) {s : State cfg} (h : Abandoned s) (ho : Ownership s)
    (hpos : 0 < s.worker.toSleep s.hasDataToWrite) : FallsAsleep now s := by
  generalize hn : s.worker.toSleep s.hasDataToWrite = n at hpos
  induction n using Nat.strongRecOn generalizing s with
  | ind n ih =>
      by_cases h1 : n = 1
      · -- the only position with one step left is the sleep itself
        have hasleep : s.worker = .wait ∧ s.hasDataToWrite = false := by
          rw [h1] at hn
          cases hw : s.worker <;> cases hf : s.hasDataToWrite <;>
            simp [hw, hf, Worker.toSleep] at hn ⊢
        exact ⟨s, Machine.Steps.refl _, rfl, hasleep⟩
      · obtain ⟨a, s', hs, hp, ha, hpos', hlt⟩ := h.step ho (by omega)
        exact (ih _ (hn ▸ hlt) ha (step_ownership ho hs) rfl hpos').head hs hp

/-- What the destructor, whose `flush()` is refused, makes of a state up to its stop
request. -/
def afterRefusal (s : State cfg) : State cfg :=
  { s with
    isRunning := false
    fdOpen := false
    released := Function.update (Function.update s.released .vector1 true) .vector2 true
    producer := .destroy .requestStop }

theorem steps_afterRefusal (now : Int) {s : State cfg} (hp : s.producer = .destroy .storeRunning)
    (hw : s.isWriting = true) : (machine cfg now).Steps Machine.free s (afterRefusal s) := by
  apply Machine.steps_of_exec (l := List.replicate 5 .producer)
  simp [Machine.exec, List.replicate, machine, step, producerStep, destroyStep, flushStep,
    returnFlush, afterRefusal, hp, hw]

/-- With the stop request the destructor gets to `join()`. -/
theorem hung_of_asleep (now : Int) {s : State cfg} (hp : s.producer = .destroy .requestStop)
    (hw : s.worker = .wait) (hf : s.hasDataToWrite = false) :
    ∃ t, (machine cfg now).Steps Machine.free s t ∧ hung t = true := by
  refine ⟨{ s with stopRequested := true, producer := .destroy .join },
    Machine.Steps.single (a := .producer) trivial ?_, ?_⟩
  · simp [machine, step, producerStep, destroyStep, hp]
  · simp [hung, hw, hf]

/-- The flush is refused and records are left: the worker writes what it has, finds the
active vector not empty and goes back to sleep. -/
theorem hangs_of_nonempty {s : State cfg} (ho : Ownership s) (hl : Life s)
    (hp : s.producer = .destroy .storeRunning) (hw : s.isWriting = true) (hv : active s ≠ []) :
    ∃ t, (machine cfg now).Steps Machine.free s t ∧ hung t = true := by
  have hr : s.isRunning = true := by rw [hl.running, hp]; rfl
  have hq : s.stopRequested = false := by rw [hl.requested, hp]; rfl
  have hsteps := steps_afterRefusal now hp hw
  have hpos : 0 < s.worker.toSleep s.hasDataToWrite := by
    have hleave := hl.leaving
    rw [hr] at hleave
    cases hwk : s.worker with
    | loopTest | loadCurrent | done => exact absurd (hleave (by rw [hwk]; rfl)) (by simp)
    | _ => cases s.hasDataToWrite <;> simp [Worker.toSleep]
  have hown : Ownership (afterRefusal s) :=
    hsteps.invariant (I := Ownership) ho fun hi _ hs => step_ownership hi hs
  have hab : Abandoned (afterRefusal s) := ⟨rfl, hq, hv⟩
  obtain ⟨t, ht, htp, htw, htf⟩ := falls_asleep now hab hown hpos
  obtain ⟨u, hu, hung⟩ := hung_of_asleep now htp htw htf
  exact ⟨u, hsteps.trans (ht.trans hu), hung⟩

/-- The wake-up of the last handed-over buffer is gone or about to be: the worker sleeps
before the destructor has begun. -/
theorem hangs_of_stranded {s : State cfg} (ho : Ownership s) (hl : Life s)
    (hp : s.producer = .destroy .storeRunning) (hw : s.isWriting = true)
    (hf : s.hasDataToWrite = false ∨ s.worker = .clearFlag) :
    ∃ t, (machine cfg now).Steps Machine.free s t ∧ hung t = true := by
  have hr : s.isRunning = true := by rw [hl.running, hp]; rfl
  have hq : s.stopRequested = false := by rw [hl.requested, hp]; rfl
  have hsleep : (machine cfg now).Steps Machine.free s
      { s with hasDataToWrite := false, worker := .wait } := by
    have hleave := hl.leaving
    rw [hr] at hleave
    cases hwk : s.worker with
    | clearFlag =>
        apply Machine.steps_of_exec (l := [.worker, .worker, .worker])
        simp [Machine.exec, machine, step, writeToFileStep, hwk, hr, hq]
    | loadRunning =>
        have hf' : s.hasDataToWrite = false := hf.resolve_right (by simp [hwk])
        apply Machine.steps_of_exec (l := [.worker, .worker])
        simp [Machine.exec, machine, step, writeToFileStep, hwk, hr, hq, hf']
    | loopHead =>
        have hf' : s.hasDataToWrite = false := hf.resolve_right (by simp [hwk])
        apply Machine.steps_of_exec (l := [.worker])
        simp [Machine.exec, machine, step, writeToFileStep, hwk, hq, hf']
    | wait =>
        have hf' : s.hasDataToWrite = false := hf.resolve_right (by simp [hwk])
        apply Machine.steps_of_exec (l := [])
        simp [Machine.exec, ← hwk, ← hf']
    | loopTest | loadCurrent | done => exact absurd (hleave (by rw [hwk]; rfl)) (by simp)
    | loadTarget | inspect | writing | resize | storeWriting =>
        -- these positions come with a set flag
        have hset := (ho.token (by rw [hwk]; rfl)).2.1
        simp [hset, hwk] at hf
  have hrun := steps_afterRefusal now
    (s := { s with hasDataToWrite := false, worker := .wait }) hp hw
  obtain ⟨u, hu, hung⟩ := hung_of_asleep now
    (s := afterRefusal { s with hasDataToWrite := false, worker := .wait }) rfl rfl rfl
  exact ⟨u, hsleep.trans (hrun.trans hu), hung⟩

/-- **When the shutdown cannot hang.** In every reachable state in which `~LogStruct()`
starts: no run of the destructor and the worker ends with the destructor in `join()` and
the worker asleep, if and only if no buffer is handed over, or the active vector is empty
and the wake flag is set for good. -/
theorem shutdown_ends_iff {cfg : Config} {now : Int} {s s' : State cfg}
    (h : (machine cfg now).Reachable Machine.free s)
    (hs : (machine cfg now).step s .destroy = some s') :
    (∀ t, (machine cfg now).Steps Machine.free s' t → hung t = false) ↔ canStop s := by
  have hr' := h.step trivial hs
  obtain rfl : s' = { s with producer := .destroy .storeRunning } := by
    have hs : step s .destroy = some s' := hs
    cases step_moved hs with
    | callDestroy hp => rfl
  constructor
  · intro hall
    by_contra hn
    simp only [canStop, not_or, not_and, Bool.not_eq_false] at hn
    obtain ⟨hw, hn⟩ := hn
    have hhang : ∃ t, (machine cfg now).Steps Machine.free
        { s with producer := .destroy .storeRunning } t ∧ hung t = true := by
      by_cases hv : active s = []
      · refine hangs_of_stranded (reachable_ownership hr') (reachable_life hr') rfl hw ?_
        cases hf : s.hasDataToWrite with
        | false => exact .inl rfl
        | true => exact .inr (not_not.mp (hn hv hf))
      · exact hangs_of_nonempty (reachable_ownership hr') (reachable_life hr') rfl hw hv
    obtain ⟨t, ht, hung⟩ := hhang
    rw [hall t ht] at hung
    cases hung
  · intro hc t ht
    exact never_hung hr' (show ShutdownOk _ from hc) ht

/-- A buffer is handed over and the other one is empty when the destructor starts. -/
theorem shutdown_ends_iff_handed_over :
    ∃ s s', (machine oneByte 0).Reachable Machine.free s ∧ s.isWriting = true ∧
      (machine oneByte 0).step s .destroy = some s' ∧
      ∀ t, (machine oneByte 0).Steps Machine.free s' t → hung t = false := by
  obtain ⟨s, hs, hp⟩ := Machine.reachable_of_exec (M := machine oneByte 0)
    (l := writeAndFlush 7)
    (p := fun s => s.isWriting && decide (canStop s) && (step s .destroy).isSome) (by decide)
  simp only [Bool.and_eq_true, decide_eq_true_eq] at hp
  obtain ⟨s', hs'⟩ := Option.isSome_iff_exists.mp hp.2
  exact ⟨s, s', hs, hp.1.1, hs', (shutdown_ends_iff hs hs').mpr hp.1.2⟩

/-- A `write()` of `b` into the active buffer while the other one is handed over: its
`flush()` is refused. -/
def writeWhileBusy (b : UInt8) : List (Action oneByte) :=
  [.call (.write (some ⟨[b], oneByte_length b⟩)), .producer, .producer, .producer, .clock 0,
    .producer, .producer]

/-- The destructor's flush is refused while the worker writes the first record. The second
record sends the worker round its loop and to sleep before the stop request. -/
theorem refused_flush_hangs :
    ∃ s s' t, (machine oneByte 0).Reachable Machine.free s ∧
      (machine oneByte 0).step s .destroy = some s' ∧
      (machine oneByte 0).Steps Machine.free s' t ∧ hung t = true := by
  obtain ⟨s, hs, hp⟩ := Machine.reachable_of_exec (M := machine oneByte 0)
    (l := writeAndFlush 7 ++ writeWhileBusy 8)
    (p := fun s => ((machine oneByte 0).exec s ([Action.destroy, .producer, .producer] ++ drain ++
      List.replicate 4 Action.worker ++ List.replicate 4 Action.producer)).any hung) (by decide)
  obtain ⟨t, ht, hung⟩ := (Option.any_eq_true _ _).mp hp
  obtain ⟨s', hs', ht⟩ := Machine.exec_cons_some ht
  exact ⟨s, s', t, hs, hs', Machine.steps_of_exec ht, hung⟩

end CppCode.LogStruct
