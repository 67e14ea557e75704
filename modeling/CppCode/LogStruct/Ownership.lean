import CppCode.LogStruct.Model

/-!
# CppCode.LogStruct.Ownership

**Who owns which vector.** The two flags `is_writing_` and `has_data_to_write`
pass one token, the right to touch the vector behind `next_vector_`, between the
two threads. `Ownership` says where the token is at every pair of positions:

* while the worker is between its wake-up and its store `is_writing_ = false` it
  holds the token, both flags are set and the producer is not exchanging the
  pointers (`token`);
* a set wake flag means the token is on its way to the worker, except in the
  window between the worker's two last stores, where it is stale (`flag`);
* whoever exchanges the pointers does so over an empty next vector (`drained`,
  `swap`).

The invariant holds in every reachable state, of every run. It is stated over the
components of a state (`OwnershipAt`), so that steps which touch none of them
preserve it by definition.
-/

namespace CppCode.LogStruct

open Concurrency

variable {cfg : Config}

/-- Between the decision to exchange the pointers and the wake-up of the worker. -/
def FlushPc.swapping : FlushPc → Bool
  | .checkWriting | .notify => false
  | _ => true

/-- The producer is exchanging the pointers. -/
def Producer.swapping : Producer cfg → Bool
  | .flush _ pc => pc.swapping
  | _ => false

/-- `flush()` has stored one of the two pointers and not yet the other. -/
def Producer.betweenStores : Producer cfg → Bool
  | .flush _ (.storeNext _) => true
  | _ => false

/-- The worker is between its wake-up and its store `is_writing_ = false`. -/
def Worker.owning : Worker → Bool
  | .loadTarget | .inspect _ | .writing _ _ _ | .resize _ _ | .storeWriting => true
  | _ => false

/-- The two pointers differ, except between the two pointer stores of `flush()`;
the producer's local copies are up to date. -/
def PointersOk (current next : VecId) : Producer cfg → Prop
  | .write (.checkCapacity _ curr) | .write (.insert _ curr)
  | .write (.readClock _ curr) | .write (.checkThreshold _ curr _) =>
      curr = current ∧ current ≠ next
  | .flush _ (.loadNext oldCurrent) => oldCurrent = current ∧ current ≠ next
  | .flush _ (.storeCurrent oldCurrent oldNext) =>
      oldCurrent = current ∧ oldNext = next ∧ current ≠ next
  | .flush _ (.storeNext oldCurrent) => current = next ∧ oldCurrent ≠ next
  | _ => current ≠ next

/-- `is_writing_` as the producer left it while it exchanges the pointers. -/
def MarkedOk (isWriting : Bool) : Producer cfg → Prop
  | .flush _ .checkWriting | .flush _ .notify => True
  | .flush _ .markWriting => isWriting = false
  | .flush _ _ => isWriting = true
  | _ => True

/-- The worker's locals describe the vector behind `next_vector_`. -/
def TargetOk (vectors : VecId → List UInt8) (next : VecId) : Worker → Prop
  | .inspect target => target = next
  | .writing target need written =>
      target = next ∧ need = (vectors target).length ∧ written ≤ need
  | .resize target written => target = next ∧ written ≤ (vectors target).length
  | .storeWriting => vectors next = []
  | _ => True

/-- The vector that the exchange makes active is empty. -/
def SwapOk (vectors : VecId → List UInt8) (current next : VecId) : Producer cfg → Prop
  | .flush _ .markWriting | .flush _ .loadCurrent | .flush _ (.loadNext _)
  | .flush _ (.storeCurrent _ _) | .flush _ (.storeNext _) => vectors next = []
  | .flush _ .signal | .flush _ .notify => vectors current = []
  | _ => True

/-- The ownership invariant, over the components of a state. -/
structure OwnershipAt (isWriting hasData : Bool) (vectors : VecId → List UInt8)
    (current next : VecId) (producer : Producer cfg) (worker : Worker) : Prop where
  pointers : PointersOk current next producer
  token : worker.owning = true →
    isWriting = true ∧ hasData = true ∧ producer.swapping = false
  flag : hasData = true →
    worker = .clearFlag ∨ (isWriting = true ∧ producer.swapping = false)
  marked : MarkedOk isWriting producer
  target : TargetOk vectors next worker
  drained : isWriting = false → vectors next = []
  swap : SwapOk vectors current next producer

abbrev Ownership (s : State cfg) : Prop :=
  OwnershipAt s.isWriting s.hasDataToWrite s.vectors s.currentVector s.nextVector
    s.producer s.worker

section Components

variable {isWriting hasData : Bool} {vectors : VecId → List UInt8} {current next : VecId}
  {p p' : Producer cfg} {w w' : Worker}

/-- While the producer exchanges the pointers the worker does not hold the token. -/
theorem OwnershipAt.not_owning (h : OwnershipAt isWriting hasData vectors current next p w)
    (hs : p.swapping = true) : w.owning = false := by
  by_contra ho
  rw [Bool.not_eq_false] at ho
  have hns := (h.token ho).2.2
  rw [hs] at hns
  cases hns

/-- While the producer exchanges the pointers a set flag is stale. -/
theorem OwnershipAt.stale (h : OwnershipAt isWriting hasData vectors current next p w)
    (hs : p.swapping = true) (hf : hasData = true) : w = .clearFlag := by
  rcases h.flag hf with hw | ⟨-, hns⟩
  · exact hw
  · rw [hs] at hns
    cases hns

/-- A worker without the token has no locals to speak of. -/
theorem TargetOk.of_not_owning (h : w.owning = false) : TargetOk vectors next w := by
  cases w <;> trivial

/-- Outside the exchange the producer may move anywhere its pointers allow. -/
theorem OwnershipAt.rest (h : OwnershipAt isWriting hasData vectors current next p w)
    (hp : PointersOk current next p') (hs : p'.swapping = false)
    (hm : MarkedOk isWriting p') (hw : SwapOk vectors current next p') :
    OwnershipAt isWriting hasData vectors current next p' w where
  pointers := hp
  token := fun ho => ⟨(h.token ho).1, (h.token ho).2.1, hs⟩
  flag := fun hf => (h.flag hf).imp id fun hd => ⟨hd.1, hs⟩
  marked := hm
  target := h.target
  drained := h.drained
  swap := hw

/-- One step inside the exchange: the flags stay, the pointers may move. -/
theorem OwnershipAt.swapOn {current' next' : VecId}
    (h : OwnershipAt isWriting hasData vectors current next p w)
    (hs : p.swapping = true) (hp : PointersOk current' next' p')
    (hm : MarkedOk isWriting p') (hd : isWriting = false → vectors next' = [])
    (hw : SwapOk vectors current' next' p') :
    OwnershipAt isWriting hasData vectors current' next' p' w where
  pointers := hp
  token := fun ho => by rw [h.not_owning hs] at ho; cases ho
  flag := fun hf => .inl (h.stale hs hf)
  marked := hm
  target := TargetOk.of_not_owning (h.not_owning hs)
  drained := hd
  swap := hw

/-- The worker moves on while it does not hold the token. -/
theorem OwnershipAt.idleWorker (h : OwnershipAt isWriting hasData vectors current next p w)
    (hc : w ≠ .clearFlag) (hw' : w'.owning = false) :
    OwnershipAt isWriting hasData vectors current next p w' where
  pointers := h.pointers
  token := fun ho => by rw [hw'] at ho; cases ho
  flag := fun hf => .inr ((h.flag hf).resolve_left hc)
  marked := h.marked
  target := TargetOk.of_not_owning hw'
  drained := h.drained
  swap := h.swap

/-- The worker moves on while it holds the token. -/
theorem OwnershipAt.busyWorker (h : OwnershipAt isWriting hasData vectors current next p w)
    (hw : w.owning = true) (ht : TargetOk vectors next w') :
    OwnershipAt isWriting hasData vectors current next p w' where
  pointers := h.pointers
  token := fun _ => h.token hw
  flag := fun _ => .inr ⟨(h.token hw).1, (h.token hw).2.2⟩
  marked := h.marked
  target := ht
  drained := h.drained
  swap := h.swap

end Components

/-- The pointers differ except between the two pointer stores. -/
theorem PointersOk.ne {current next : VecId} {p : Producer cfg} (h : PointersOk current next p)
    (hp : p.betweenStores = false) : current ≠ next := by
  cases p with
  | idle => exact h
  | destroy pc => exact h
  | write pc =>
      cases pc with
      | loadCurrent data => exact h
      | _ => exact h.2
  | flush caller pc =>
      cases pc with
      | loadNext oldCurrent => exact h.2
      | storeCurrent oldCurrent oldNext => exact h.2.2
      | storeNext oldCurrent => cases hp
      | _ => exact h

/-- The two pointer stores are part of the exchange. -/
theorem Producer.not_betweenStores {p : Producer cfg} (h : p.swapping = false) :
    p.betweenStores = false := by
  cases p with
  | flush caller pc =>
      cases pc with
      | storeNext oldCurrent => cases h
      | _ => rfl
  | _ => rfl

/-- The worker's target is not the active vector. -/
theorem Ownership.current_ne_next {s : State cfg} (h : Ownership s)
    (hw : s.worker.owning = true) : s.currentVector ≠ s.nextVector :=
  h.pointers.ne (Producer.not_betweenStores (h.token hw).2.2)

/-- No step of `write()` lands inside the exchange. -/
theorem writeStep_swapping {s s' : State cfg} {pc : WritePc cfg} (hs : writeStep s pc = some s') :
    s'.producer.swapping = false := by
  cases pc with
  | loadCurrent | insert =>
      obtain rfl := Option.some.inj hs
      rfl
  | checkCapacity data curr =>
      cases data with
      | none =>
          obtain rfl := Option.some.inj hs
          rfl
      | some record =>
          simp only [writeStep] at hs
          split at hs <;> obtain rfl := Option.some.inj hs <;> rfl
  | readClock => cases hs
  | checkThreshold data curr now =>
      simp only [writeStep] at hs
      split at hs <;> obtain rfl := Option.some.inj hs <;> rfl

/-- No step of the destructor's own code lands inside the exchange. -/
theorem destroyStep_swapping {s s' : State cfg} {pc : DestroyPc}
    (hs : destroyStep s pc = some s') : s'.producer.swapping = false := by
  cases pc with
  | storeRunning | close | deleteBuffer1 | deleteBuffer2 | requestStop =>
      obtain rfl := Option.some.inj hs
      rfl
  | join =>
      simp only [destroyStep, Option.ite_none_right_eq_some, Option.some.injEq] at hs
      obtain ⟨-, rfl⟩ := hs
      rfl
  | destroyed => cases hs

theorem ownership_start (cfg : Config) (now : Int) : Ownership (State.start cfg now) where
  pointers := by intro h; cases h
  token := by intro h; cases h
  flag := by intro h; cases h
  marked := trivial
  target := trivial
  drained := fun _ => rfl
  swap := trivial

/-! ### The producer -/

theorem returnFlush_ownership {s : State cfg} (h : Ownership s)
    (hne : s.currentVector ≠ s.nextVector) (result : Bool) (caller : FlushCaller cfg) :
    Ownership (returnFlush s result caller) := by
  cases caller <;> exact h.rest hne rfl trivial trivial

theorem flushStep_ownership {s : State cfg} {caller : FlushCaller cfg} {pc : FlushPc}
    (h : Ownership s) (hp : s.producer = .flush caller pc) :
    Ownership (flushStep s caller pc) := by
  have hptr := h.pointers
  have hmark := h.marked
  have hswap := h.swap
  rw [hp] at hptr hmark hswap
  cases pc with
  | checkWriting =>
      cases hw : s.isWriting with
      | true =>
          simp only [flushStep, hw, if_true]
          exact returnFlush_ownership h hptr false caller
      | false =>
          -- nobody holds the token: the worker does not own, and a set flag is stale
          simp only [flushStep, hw, Bool.false_eq_true, if_false]
          refine ⟨hptr, fun ho => ?_, fun hf => ?_, rfl, h.target, fun _ => h.drained hw, h.drained hw⟩
          · exact absurd (h.token ho).1 (by simp [hw])
          · exact (h.flag hf).imp id fun hd => absurd hd.1 (by simp [hw])
  | markWriting =>
      have hs : s.producer.swapping = true := by rw [hp]; rfl
      refine ⟨hptr, fun ho => ?_, fun hf => .inl (h.stale hs hf), rfl, h.target,
        (fun hd => nomatch hd), hswap⟩
      rw [show (flushStep s caller .markWriting).worker = s.worker from rfl, h.not_owning hs] at ho
      cases ho
  | loadCurrent =>
      exact h.swapOn (by rw [hp]; rfl) ⟨rfl, hptr⟩ hmark h.drained hswap
  | loadNext oldCurrent =>
      exact h.swapOn (by rw [hp]; rfl) ⟨hptr.1, rfl, hptr.2⟩ hmark h.drained hswap
  | storeCurrent oldCurrent oldNext =>
      obtain ⟨rfl, rfl, hne⟩ := hptr
      exact h.swapOn (by rw [hp]; rfl) ⟨rfl, hne⟩ hmark h.drained hswap
  | storeNext oldCurrent =>
      obtain ⟨heq, hne⟩ := hptr
      have hs : s.producer.swapping = true := by rw [hp]; rfl
      have hw : s.isWriting = true := hmark
      refine h.swapOn hs ?_ hmark (fun hd => absurd hd (by simp [hw])) ?_
      · exact fun h' => hne (h'.symm.trans heq)
      · show s.vectors s.currentVector = []
        rw [heq]
        exact hswap
  | signal =>
      exact ⟨hptr, fun _ => ⟨hmark, rfl, rfl⟩, fun _ => .inr ⟨hmark, rfl⟩, trivial, h.target,
        h.drained, hswap⟩
  | notify => exact returnFlush_ownership h hptr true caller

/-- Appending to the active vector leaves the worker's target alone. -/
theorem OwnershipAt.append {isWriting hasData : Bool} {vectors : VecId → List UInt8}
    {current next : VecId} {p : Producer cfg} {w : Worker}
    (h : OwnershipAt isWriting hasData vectors current next p w)
    (hp : PointersOk current next p) (hne : current ≠ next) (hs : ∀ vs, SwapOk vs current next p)
    (bytes : List UInt8) :
    OwnershipAt isWriting hasData (Function.update vectors current bytes) current next p w := by
  have hnext : Function.update vectors current bytes next = vectors next :=
    Function.update_of_ne hne.symm _ _
  refine ⟨hp, h.token, h.flag, h.marked, ?_, fun hd => hnext.trans (h.drained hd), hs _⟩
  have ht := h.target
  cases w with
  | writing target need written =>
      obtain ⟨rfl, rfl, hle⟩ := ht
      exact ⟨rfl, by rw [hnext], hle⟩
  | resize target written =>
      obtain ⟨rfl, hle⟩ := ht
      exact ⟨rfl, by rw [hnext]; exact hle⟩
  | storeWriting => exact hnext.trans ht
  | inspect target => exact ht
  | _ => trivial

theorem writeStep_ownership {s s' : State cfg} {pc : WritePc cfg} (h : Ownership s)
    (hp : s.producer = .write pc) (hs : writeStep s pc = some s') : Ownership s' := by
  have hptr := h.pointers
  rw [hp] at hptr
  cases pc with
  | loadCurrent data =>
      obtain rfl := Option.some.inj hs
      exact h.rest ⟨rfl, hptr⟩ rfl trivial trivial
  | checkCapacity data curr =>
      cases data with
      | none =>
          obtain rfl := Option.some.inj hs
          exact h.rest hptr rfl trivial trivial
      | some record =>
          cases hc : overCapacity s curr with
          | true =>
              simp only [writeStep, hc, if_true, Option.some.injEq] at hs
              subst hs
              exact h.rest hptr.2 rfl trivial trivial
          | false =>
              simp only [writeStep, hc, Bool.false_eq_true, if_false, Option.some.injEq] at hs
              subst hs
              exact h.rest hptr rfl trivial trivial
  | insert record curr =>
      obtain rfl := Option.some.inj hs
      obtain ⟨rfl, hne⟩ := hptr
      have hr : OwnershipAt s.isWriting s.hasDataToWrite s.vectors s.currentVector s.nextVector
          (.write (.readClock (some record) s.currentVector)) s.worker :=
        h.rest ⟨rfl, hne⟩ rfl trivial trivial
      exact hr.append ⟨rfl, hne⟩ hne (fun _ => trivial) _
  | readClock data curr => cases hs
  | checkThreshold data curr now =>
      cases ht : thresholdReached s curr now with
      | true =>
          simp only [writeStep, ht, if_true, Option.some.injEq] at hs
          subst hs
          exact h.rest hptr.2 rfl trivial trivial
      | false =>
          simp only [writeStep, ht, Bool.false_eq_true, if_false, Option.some.injEq] at hs
          subst hs
          exact h.rest hptr.2 rfl trivial trivial

theorem destroyStep_ownership {s s' : State cfg} {pc : DestroyPc} (h : Ownership s)
    (hp : s.producer = .destroy pc) (hs : destroyStep s pc = some s') : Ownership s' := by
  have hptr := h.pointers
  rw [hp] at hptr
  cases pc with
  | storeRunning | close | deleteBuffer1 | deleteBuffer2 | requestStop =>
      obtain rfl := Option.some.inj hs
      exact h.rest hptr rfl trivial trivial
  | join =>
      simp only [destroyStep, Option.ite_none_right_eq_some, Option.some.injEq] at hs
      obtain ⟨-, rfl⟩ := hs
      exact h.rest hptr rfl trivial trivial
  | destroyed => cases hs

/-! ### The worker -/

/-- Outside the exchange `is_writing_` may take any value. -/
theorem MarkedOk.of_not_swapping {p : Producer cfg} (h : p.swapping = false) (isWriting : Bool) :
    MarkedOk isWriting p := by
  cases p with
  | flush caller pc => cases pc <;> trivial
  | _ => trivial

/-- Outside the exchange, `resize(0)` on the next vector keeps what `notify`
knows of the active one. -/
theorem SwapOk.update_next {vectors : VecId → List UInt8} {current next : VecId}
    {p : Producer cfg} (h : SwapOk vectors current next p) (hs : p.swapping = false)
    (hp : PointersOk current next p) (bytes : List UInt8) :
    SwapOk (Function.update vectors next bytes) current next p := by
  cases p with
  | flush caller pc =>
      cases pc with
      | notify => exact (Function.update_of_ne hp _ _).trans h
      | checkWriting => trivial
      | _ => cases hs
  | _ => trivial

theorem WorkerMoved.ownership {s s' : State cfg} (hs : WorkerMoved s s') (h : Ownership s) :
    Ownership s' := by
  have ht := h.target
  cases hs with
  | loopHead hw => exact h.idleWorker (by simp [hw]) (by cases s.stopRequested <;> rfl)
  | loopTest hw => exact h.idleWorker (by simp [hw]) (by cases s.hasDataToWrite <;> rfl)
  | wake hw hf =>
      -- a set flag is not stale here, so it carries the token
      have hd := (h.flag hf).resolve_left (by simp [hw])
      exact ⟨h.pointers, fun _ => ⟨hd.1, hf, hd.2⟩, fun _ => .inr hd, h.marked, trivial,
        h.drained, h.swap⟩
  | loadTarget hw => exact h.busyWorker (by rw [hw]; rfl) rfl
  | inspectEmpty hw he =>
      rw [hw] at ht
      obtain rfl : _ = s.nextVector := ht
      exact h.busyWorker (by rw [hw]; rfl) he
  | inspectFull hw he =>
      rw [hw] at ht
      exact h.busyWorker (by rw [hw]; rfl) ⟨ht, rfl, Nat.zero_le _⟩
  | written hw hge =>
      rw [hw] at ht
      obtain ⟨rfl, rfl, hle⟩ := ht
      exact h.busyWorker (by rw [hw]; rfl) ⟨rfl, hle⟩
  | resize hw =>
      rw [hw] at ht
      obtain ⟨rfl, -⟩ := ht
      have htok := h.token (by rw [hw]; rfl)
      have hempty : Function.update s.vectors s.nextVector [] s.nextVector = [] :=
        Function.update_self _ _ _
      exact ⟨h.pointers, fun _ => htok, fun _ => .inr ⟨htok.1, htok.2.2⟩, h.marked, hempty,
        fun _ => hempty, SwapOk.update_next h.swap htok.2.2 h.pointers _⟩
  | storeWriting hw =>
      rw [hw] at ht
      have htok := h.token (by rw [hw]; rfl)
      exact ⟨h.pointers, (fun ho => nomatch ho), fun _ => .inl rfl,
        MarkedOk.of_not_swapping htok.2.2 _, trivial, fun _ => ht, h.swap⟩
  | clearFlag hw =>
      exact ⟨h.pointers, (fun ho => nomatch ho), (fun hf => nomatch hf), h.marked, trivial,
        h.drained, h.swap⟩
  | loadRunning hw => exact h.idleWorker (by simp [hw]) (by cases s.isRunning <;> rfl)
  | loadCurrent hw =>
      exact h.idleWorker (by simp [hw]) (by cases (s.vectors s.currentVector).isEmpty <;> rfl)

theorem sysWriteStep_ownership {s s' : State cfg} {result : Int} (h : Ownership s)
    (hs : sysWriteStep s result = some s') : Ownership s' := by
  have ht := h.target
  obtain ⟨target, need, written, hw, hlt, ⟨-, rfl⟩ | ⟨n, -, hn, -, rfl⟩⟩ := sysWriteStep_moved hs
  · rw [hw] at ht
    obtain ⟨rfl, rfl, hle⟩ := ht
    exact h.busyWorker (by rw [hw]; rfl) ⟨rfl, hle⟩
  · rw [hw] at ht
    obtain ⟨rfl, rfl, hle⟩ := ht
    exact h.busyWorker (by rw [hw]; rfl) ⟨rfl, rfl, by omega⟩

/-! ### Every run -/

theorem step_ownership {s s' : State cfg} {a : Action cfg} (h : Ownership s)
    (hs : step s a = some s') : Ownership s' := by
  have hptr := h.pointers
  cases step_moved hs with
  | callWrite data hp | callFlush hp | callDestroy hp | clock now hp =>
      rw [hp] at hptr
      exact h.rest hptr rfl trivial trivial
  | write hp hw => exact writeStep_ownership h hp hw
  | flush hp => exact flushStep_ownership h hp
  | destroy hp hd => exact destroyStep_ownership h hp hd
  | worker hw => exact hw.ownership h
  | sysWrite hw => exact sysWriteStep_ownership h hw

/-- **Ownership holds in every reachable state**, whatever the guard. -/
theorem reachable_ownership {now : Int} {G : Guard (State cfg) (Action cfg)} {s : State cfg}
    (h : (machine cfg now).Reachable G s) : Ownership s :=
  h.invariant (ownership_start cfg now) fun _ hi _ hs => step_ownership hi hs

end CppCode.LogStruct
