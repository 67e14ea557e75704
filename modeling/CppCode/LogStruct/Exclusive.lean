import CppCode.LogStruct.Capacity

/-!
# CppCode.LogStruct.Exclusive

**Every vector has one owner, and room for what its owner appends.** `Ownership` says
who holds the token; here it is read as what the two threads may rely on, in every
reachable state:

* the two pointers differ, except between the two pointer stores of `flush()`;
* the worker's `target` is not the vector that the producer appends to, for as long as
  the worker uses it. `target` is a copy of `next_vector_`, and `flush()` does not move
  that pointer while the worker holds the token (`step_nextVector`), so the copy stays
  good up to the store `is_writing_ = false`;
* an unset `is_writing_` means that the next vector has been drained;
* a vector holds whole records and never outgrows the reserved `byte_size_`, whatever
  `size_t` the two sizes multiply to.
-/

namespace CppCode.LogStruct

open Concurrency

variable {cfg : Config}

/-- `target`, at the positions of the worker that still read it. -/
def Worker.target? : Worker → Option VecId
  | .inspect target | .writing target _ _ | .resize target _ => some target
  | _ => none

/-- The vector that the producer appends to: the local `curr` inside `write()`, and
what the next `write()` will load otherwise. -/
def appendVector (s : State cfg) : VecId :=
  match s.producer with
  | .write (.checkCapacity _ curr) | .write (.insert _ curr)
  | .write (.readClock _ curr) | .write (.checkThreshold _ curr _) => curr
  | _ => s.currentVector

/-- The worker is between its wake-up and its store `is_writing_ = false`. -/
def WorkerOwning : Guard (State cfg) (Action cfg) := fun s _ => s.worker.owning = true

/-- Who may touch which vector, and how much a vector holds. -/
structure Exclusive (now : Int) (s : State cfg) : Prop where
  pointers : s.producer.betweenStores = false → s.currentVector ≠ s.nextVector
  /-- The worker's `target`, while the worker reads it. -/
  target : ∀ target, s.worker.target? = some target → target ≠ appendVector s
  /-- What the worker loaded as its `target`, up to the store `is_writing_ = false`. -/
  loaded : ∀ s₀, (machine cfg now).Reachable Machine.free s₀ → s₀.worker = .loadTarget →
    (machine cfg now).Steps WorkerOwning s₀ s → s.worker.owning = true →
      s₀.nextVector ≠ appendVector s
  drained : s.isWriting = false → s.vectors s.nextVector = []
  whole : ∀ v, cfg.structSize ∣ (s.vectors v).length
  bounded : ∀ v, (s.vectors v).length ≤ cfg.byteSize
  /-- An insertion stays within the reserved capacity. -/
  room : ∀ record curr, s.producer = .write (.insert record curr) →
    (s.vectors curr).length + record.val.length ≤ cfg.byteSize

/-! ### The pointers -/

/-- Inside `write()` the local `curr` is the active vector. -/
theorem Ownership.appendVector_eq {s : State cfg} (h : Ownership s) :
    appendVector s = s.currentVector := by
  have hptr := h.pointers
  unfold appendVector
  cases hp : s.producer with
  | write pc =>
      rw [hp] at hptr
      cases pc with
      | loadCurrent data => rfl
      | _ => exact hptr.1
  | _ => rfl

/-- While the worker holds the token, the producer appends to the other vector. -/
theorem Ownership.next_ne_appendVector {s : State cfg} (h : Ownership s)
    (hw : s.worker.owning = true) : s.nextVector ≠ appendVector s := by
  rw [h.appendVector_eq]
  exact (h.current_ne_next hw).symm

theorem TargetOk.eq_next {vectors : VecId → List UInt8} {next target : VecId} {w : Worker}
    (h : TargetOk vectors next w) (hw : w.target? = some target) :
    target = next ∧ w.owning = true := by
  cases w with
  | inspect t =>
      obtain rfl := Option.some.inj hw
      exact ⟨h, rfl⟩
  | writing t need written =>
      obtain rfl := Option.some.inj hw
      exact ⟨h.1, rfl⟩
  | resize t written =>
      obtain rfl := Option.some.inj hw
      exact ⟨h.1, rfl⟩
  | _ => cases hw

/-! ### The target stays good -/

/-- Outside the exchange no step of `flush()` moves a pointer. -/
theorem flushStep_nextVector {s : State cfg} {caller : FlushCaller cfg} {pc : FlushPc}
    (hns : pc.swapping = false) : (flushStep s caller pc).nextVector = s.nextVector := by
  cases pc with
  | checkWriting =>
      simp only [flushStep]
      split
      · exact (returnFlush_frame s false caller).nextVector
      · rfl
  | notify => exact (returnFlush_frame s true caller).nextVector
  | _ => cases hns

/-- While the worker holds the token, no step of either thread moves `next_vector_`. -/
theorem step_nextVector {s s' : State cfg} {a : Action cfg} (ho : Ownership s)
    (hw : s.worker.owning = true) (hs : step s a = some s') : s'.nextVector = s.nextVector := by
  cases step_moved hs with
  | callWrite | callFlush | callDestroy | clock => rfl
  | write hp h => exact (writeStep_frame h).nextVector
  | flush hp =>
      have hns := (ho.token hw).2.2
      rw [hp] at hns
      exact flushStep_nextVector hns
  | destroy hp h => exact (destroyStep_frame h).nextVector
  | worker h => cases h <;> rfl
  | sysWrite h =>
      obtain ⟨target, need, written, -, -, ⟨-, rfl⟩ | ⟨n, -, -, -, rfl⟩⟩ := sysWriteStep_moved h <;>
        rfl

/-- `next_vector_` is where the worker found it for as long as it holds the token. -/
theorem steps_nextVector {now : Int} {s₀ s : State cfg} (ho : Ownership s₀)
    (h : (machine cfg now).Steps WorkerOwning s₀ s) : s.nextVector = s₀.nextVector := by
  have hkept : Ownership s ∧ s.nextVector = s₀.nextVector := by
    refine h.invariant (I := fun s => Ownership s ∧ s.nextVector = s₀.nextVector) ⟨ho, rfl⟩ ?_
    intro s a s' hi hw hs
    exact ⟨step_ownership hi.1 hs, (step_nextVector hi.1 hw hs).trans hi.2⟩
  exact hkept.2

/-! ### Every reachable state -/

/-- **Exclusive owners, bounded vectors**, for every pair of `size_t` sizes with which
the constructor succeeds, in every state of every run. -/
theorem buffers_exclusive {now : Int} {s : State cfg} (hsize : cfg.structSize < sizeModulus)
    (h : (machine cfg now).Reachable Machine.free s) : Exclusive now s := by
  have ho := reachable_ownership h
  have hz := reachable_sized hsize h
  refine ⟨ho.pointers.ne, fun target ht => ?_, fun s₀ h₀ _ hrun hw => ?_, ho.drained, hz.whole,
    hz.bounded, fun record curr hp => ?_⟩
  · obtain ⟨rfl, hw⟩ := ho.target.eq_next ht
    exact ho.next_ne_appendVector hw
  · rw [← steps_nextVector (reachable_ownership h₀) hrun]
    exact ho.next_ne_appendVector hw
  · rw [record.property]
    exact hz.checked record curr hp

/-- A full buffer is handed over and, while the worker is between two calls of
`::write`, the producer is about to insert into the other one. -/
theorem buffers_exclusive_inserting : ∃ s : State oneByte,
    s.worker = .writing .vector1 1 0 ∧ s.producer = .write (.insert ⟨[2], rfl⟩ .vector2) ∧
      Exclusive 0 s := by
  obtain ⟨s, hr, hp⟩ := Machine.reachable_of_execWithin (M := machine oneByte 0) (G := Machine.free)
    (l := writeAndFlush 1 ++ List.replicate 4 .worker ++
      [.call (.write (some ⟨[2], rfl⟩)), .producer, .producer])
    (p := fun s => s.worker = .writing .vector1 1 0 &&
      s.producer = .write (.insert ⟨[2], rfl⟩ .vector2)) (by decide)
  simp only [Bool.and_eq_true, decide_eq_true_eq] at hp
  exact ⟨s, hp.1, hp.2, buffers_exclusive (by decide) hr⟩

end CppCode.LogStruct
