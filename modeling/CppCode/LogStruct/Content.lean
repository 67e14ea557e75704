import CppCode.LogStruct.Ownership

/-!
# CppCode.LogStruct.Content

**Nothing accepted is lost, duplicated or reordered.** The bytes on their way to
the file are in three places: the file itself, the part of the handed-over vector
that the worker has not written yet, and the active vector. As long as every call
of `::write` makes progress, their concatenation is what `write()` accepted
(`content_accounted`).

The handed-over vector is the one behind `next_vector_`, except between the two
pointer stores of `flush()`, where only the producer's local `old_current` still
names it. A stranded buffer (`CppCode.LogStruct.Handover`) is no exception: it is
late for ever, but not lost.
-/

namespace CppCode.LogStruct

open Concurrency

variable {cfg : Config}

/-- Every call of `::write` returns a positive number of bytes. -/
def PositiveWrites : Guard (State cfg) (Action cfg) := fun _ a =>
  match a with
  | .sysWrite result => 0 < result
  | _ => True

instance (s : State cfg) (a : Action cfg) : Decidable (PositiveWrites s a) := by
  cases a <;> unfold PositiveWrites <;> infer_instance

/-- The bytes of a record, none for `nullptr`. -/
def recordBytes : Option (Record cfg) → List UInt8
  | some record => record.val
  | none => []

/-- The record that the `write()` which called `flush()` has appended. -/
def FlushCaller.appended : FlushCaller cfg → List UInt8
  | .write data _ => recordBytes data
  | _ => []

/-- The record that a `write()` still in progress has appended already; such a
call can only return true. -/
def Producer.appended : Producer cfg → List UInt8
  | .write (.readClock data _) | .write (.checkThreshold data _ _) => recordBytes data
  | .flush caller _ => caller.appended
  | _ => []

/-- The handed-over vector, given `next_vector_`. -/
def Producer.handedOver (next : VecId) : Producer cfg → VecId
  | .flush _ (.storeNext oldCurrent) => oldCurrent
  | _ => next

/-- `written_size`, while the worker is at it. -/
def Worker.written : Worker → Nat
  | .writing _ _ written | .resize _ written => written
  | _ => 0

/-- The part of the handed-over vector that is not in the file yet. -/
def unwritten (s : State cfg) : List UInt8 :=
  (s.vectors (s.producer.handedOver s.nextVector)).drop s.worker.written

/-- The record of a `write()` that returned true. -/
def Event.acceptedRecord : Event cfg → Option (Record cfg)
  | .returned (.write data) true => data
  | _ => none

/-- The records whose `write()` returned true, in call order. -/
def accepted (s : State cfg) : List (Record cfg) := s.history.filterMap Event.acceptedRecord

/-- Their concatenation. -/
def acceptedBytes (history : List (Event cfg)) : List UInt8 :=
  (history.filterMap Event.acceptedRecord).flatMap Subtype.val

theorem acceptedBytes_append (history : List (Event cfg)) (e : Event cfg) :
    acceptedBytes (history ++ [e]) = acceptedBytes history ++ recordBytes e.acceptedRecord := by
  cases h : e.acceptedRecord <;> simp [acceptedBytes, h, recordBytes]

/-- The accounting, over the components of a state. -/
structure ContentAt (file : List UInt8) (vectors : VecId → List UInt8) (current next : VecId)
    (producer : Producer cfg) (worker : Worker) (accepted : List UInt8) : Prop where
  bytes : file ++ (vectors (producer.handedOver next)).drop worker.written ++ vectors current =
    accepted ++ producer.appended
  /-- Without failing writes, the inner loop ends when everything is written. -/
  complete : ∀ target written, worker = .resize target written →
    (vectors target).length ≤ written

abbrev Content (s : State cfg) : Prop :=
  ContentAt s.file s.vectors s.currentVector s.nextVector s.producer s.worker
    (acceptedBytes s.history)

section Components

variable {file : List UInt8} {vectors : VecId → List UInt8} {current next : VecId}
  {p p' : Producer cfg} {w w' : Worker} {acc acc' : List UInt8}

/-- The producer moves on; a record it leaves behind as appended is now accepted. -/
theorem ContentAt.moveProducer {next' : VecId} (h : ContentAt file vectors current next p w acc)
    (hh : p'.handedOver next' = p.handedOver next)
    (ha : acc' ++ p'.appended = acc ++ p.appended) :
    ContentAt file vectors current next' p' w acc' where
  bytes := by rw [hh, ha]; exact h.bytes
  complete := h.complete

/-- The worker moves on without touching the bytes. -/
theorem ContentAt.moveWorker (h : ContentAt file vectors current next p w acc)
    (hw : w'.written = w.written) (hr : ∀ target written, w' ≠ .resize target written) :
    ContentAt file vectors current next p w' acc where
  bytes := by rw [hw]; exact h.bytes
  complete := fun target written heq => absurd heq (hr target written)

end Components

theorem content_start (cfg : Config) (now : Int) : Content (State.start cfg now) :=
  ⟨rfl, nofun⟩

/-! ### The producer -/

/-- An event that accepts no record leaves the accepted bytes alone. -/
theorem acceptedBytes_skip {history : List (Event cfg)} {e : Event cfg}
    (he : e.acceptedRecord = none) : acceptedBytes (history ++ [e]) = acceptedBytes history := by
  rw [acceptedBytes_append, he]
  exact List.append_nil _

theorem returnFlush_content {s : State cfg} {caller : FlushCaller cfg} {pc : FlushPc}
    (h : Content s) (hp : s.producer = .flush caller pc)
    (hh : s.producer.handedOver s.nextVector = s.nextVector) (result : Bool) :
    Content (returnFlush s result caller) := by
  have hap : s.producer.appended = caller.appended := by rw [hp]; rfl
  cases caller with
  | user =>
      refine h.moveProducer hh.symm ?_
      rw [hap]
      exact congrArg (· ++ []) (acceptedBytes_skip rfl)
  | write data now =>
      refine h.moveProducer hh.symm ?_
      rw [hap]
      exact (List.append_nil _).trans (acceptedBytes_append _ _)
  | destructor =>
      refine h.moveProducer hh.symm ?_
      rw [hap]
      rfl

/-- The first pointer store of `flush()`: the full vector changes sides, it was
active and now it is handed over. -/
theorem storeCurrent_content {s : State cfg} {caller : FlushCaller cfg}
    {oldCurrent oldNext : VecId} (h : Content s) (ho : Ownership s)
    (hp : s.producer = .flush caller (.storeCurrent oldCurrent oldNext)) :
    Content (flushStep s caller (.storeCurrent oldCurrent oldNext)) := by
  have hptr := ho.pointers
  have hempty := ho.swap
  have hidle := ho.not_owning (by rw [hp]; rfl)
  rw [hp] at hptr hempty
  obtain ⟨rfl, rfl, -⟩ := hptr
  have hzero : s.worker.written = 0 := by
    cases hw : s.worker <;> rw [hw] at hidle <;> first | rfl | cases hidle
  have hb : s.file ++ (s.vectors s.nextVector).drop s.worker.written ++
      s.vectors s.currentVector = acceptedBytes s.history ++ caller.appended := by
    have hb := h.bytes
    rw [hp] at hb
    exact hb
  refine ⟨?_, h.complete⟩
  show s.file ++ (s.vectors s.currentVector).drop s.worker.written ++ s.vectors s.nextVector =
    acceptedBytes s.history ++ caller.appended
  rw [← hb, hzero, show s.vectors s.nextVector = [] from hempty]
  simp only [List.drop_zero, List.drop_nil, List.append_nil]

theorem flushStep_content {s : State cfg} {caller : FlushCaller cfg} {pc : FlushPc}
    (h : Content s) (ho : Ownership s) (hp : s.producer = .flush caller pc) :
    Content (flushStep s caller pc) := by
  have hap : s.producer.appended = caller.appended := by rw [hp]; rfl
  cases pc with
  | checkWriting =>
      cases hw : s.isWriting with
      | true =>
          simp only [flushStep, hw, if_true]
          exact returnFlush_content h hp (by rw [hp]; rfl) false
      | false =>
          simp only [flushStep, hw, Bool.false_eq_true, if_false]
          exact h.moveProducer (by rw [hp]; rfl) (by rw [hap]; rfl)
  | markWriting | loadCurrent | loadNext | storeNext =>
      exact h.moveProducer (by rw [hp]; rfl) (by rw [hap]; rfl)
  | storeCurrent oldCurrent oldNext => exact storeCurrent_content h ho hp
  | signal =>
      refine h.moveProducer (by rw [hp]; rfl) ?_
      rw [hap]
      exact congrArg (· ++ caller.appended) (acceptedBytes_skip rfl)
  | notify => exact returnFlush_content h hp (by rw [hp]; rfl) true

theorem writeStep_content {s s' : State cfg} {pc : WritePc cfg} (h : Content s)
    (ho : Ownership s) (hp : s.producer = .write pc) (hs : writeStep s pc = some s') :
    Content s' := by
  have hptr := ho.pointers
  rw [hp] at hptr
  cases pc with
  | loadCurrent data =>
      obtain rfl := Option.some.inj hs
      exact h.moveProducer (by rw [hp]; rfl) (by rw [hp]; rfl)
  | checkCapacity data curr =>
      cases data with
      | none =>
          obtain rfl := Option.some.inj hs
          exact h.moveProducer (by rw [hp]; rfl) (by rw [hp]; rfl)
      | some record =>
          simp only [writeStep] at hs
          split at hs
          · obtain rfl := Option.some.inj hs
            refine h.moveProducer (by rw [hp]; rfl) ?_
            rw [hp]
            exact congrArg (· ++ []) (acceptedBytes_skip rfl)
          · obtain rfl := Option.some.inj hs
            exact h.moveProducer (by rw [hp]; rfl) (by rw [hp]; rfl)
  | insert record curr =>
      obtain rfl := Option.some.inj hs
      obtain ⟨rfl, hne⟩ := hptr
      have hb := h.bytes
      rw [hp] at hb
      refine ⟨?_, fun target written hw => ?_⟩
      · show s.file ++ (Function.update s.vectors s.currentVector
          (s.vectors s.currentVector ++ record.val) s.nextVector).drop s.worker.written ++
          Function.update s.vectors s.currentVector (s.vectors s.currentVector ++ record.val)
            s.currentVector = acceptedBytes s.history ++ record.val
        rw [Function.update_of_ne hne.symm, Function.update_self, ← List.append_assoc]
        exact congrArg (· ++ record.val) (hb.trans (List.append_nil _))
      · -- the worker's target is not the vector that grew
        have hr : s.worker = .resize target written := hw
        have ht := ho.target
        rw [hr] at ht
        show (Function.update s.vectors s.currentVector _ target).length ≤ written
        rw [ht.1, Function.update_of_ne hne.symm, ← ht.1]
        exact h.complete target written hr
  | readClock data curr => cases hs
  | checkThreshold data curr now =>
      simp only [writeStep] at hs
      split at hs
      · obtain rfl := Option.some.inj hs
        exact h.moveProducer (by rw [hp]; rfl) (by rw [hp]; rfl)
      · obtain rfl := Option.some.inj hs
        refine h.moveProducer (by rw [hp]; rfl) ?_
        rw [hp]
        exact (List.append_nil _).trans (acceptedBytes_append _ _)

theorem destroyStep_content {s s' : State cfg} {pc : DestroyPc} (h : Content s)
    (hp : s.producer = .destroy pc) (hs : destroyStep s pc = some s') : Content s' := by
  cases pc with
  | storeRunning | close | deleteBuffer1 | deleteBuffer2 | requestStop =>
      obtain rfl := Option.some.inj hs
      exact h.moveProducer (by rw [hp]; rfl) (by rw [hp]; rfl)
  | join =>
      simp only [destroyStep, Option.ite_none_right_eq_some, Option.some.injEq] at hs
      obtain ⟨-, rfl⟩ := hs
      exact h.moveProducer (by rw [hp]; rfl) (by rw [hp]; rfl)
  | destroyed => cases hs

/-! ### The worker -/

/-- While the worker holds the token, the handed-over vector is behind `next_vector_`. -/
theorem Ownership.handedOver_eq {s : State cfg} (h : Ownership s)
    (hw : s.worker.owning = true) : s.producer.handedOver s.nextVector = s.nextVector := by
  have hns := (h.token hw).2.2
  cases hp : s.producer with
  | flush caller pc =>
      rw [hp] at hns
      cases pc with
      | storeNext oldCurrent => cases hns
      | _ => rfl
  | _ => rfl

theorem WorkerMoved.content {s s' : State cfg} (hs : WorkerMoved s s') (h : Content s)
    (ho : Ownership s) : Content s' := by
  have ht := ho.target
  cases hs with
  | loopHead hw =>
      refine h.moveWorker ?_ ?_
      · rw [hw]
        cases s.stopRequested <;> rfl
      · cases s.stopRequested <;> nofun
  | loopTest hw =>
      refine h.moveWorker ?_ ?_
      · rw [hw]
        cases s.hasDataToWrite <;> rfl
      · cases s.hasDataToWrite <;> nofun
  | wake hw | loadTarget hw | inspectEmpty hw | inspectFull hw | storeWriting hw | clearFlag hw =>
      exact h.moveWorker (by rw [hw]; rfl) nofun
  | written hw hge =>
      rename_i target need written
      rw [hw] at ht
      refine ⟨?_, fun target' written' heq => ?_⟩
      · have hb := h.bytes
        rw [hw] at hb
        exact hb
      · obtain ⟨rfl, rfl⟩ := Worker.resize.inj heq
        exact ht.2.1 ▸ hge
  | resize hw =>
      rename_i target written
      have hc := h.complete target written hw
      have hown : s.worker.owning = true := by rw [hw]; rfl
      have hb := h.bytes
      rw [hw] at ht
      obtain ⟨rfl, -⟩ := ht
      have hne := ho.current_ne_next hown
      have hh := ho.handedOver_eq hown
      refine ⟨?_, nofun⟩
      rw [hh, hw] at hb
      show s.file ++ (Function.update s.vectors s.nextVector []
          (s.producer.handedOver s.nextVector)).drop 0 ++
        Function.update s.vectors s.nextVector [] s.currentVector = _
      rw [hh, Function.update_self, Function.update_of_ne hne, ← hb,
        show Worker.written (.resize s.nextVector written) = written from rfl,
        List.drop_eq_nil_of_le hc]
      rfl
  | loadRunning hw =>
      refine h.moveWorker ?_ ?_
      · rw [hw]
        cases s.isRunning <;> rfl
      · cases s.isRunning <;> nofun
  | loadCurrent hw =>
      refine h.moveWorker ?_ ?_
      · rw [hw]
        cases (s.vectors s.currentVector).isEmpty <;> rfl
      · cases (s.vectors s.currentVector).isEmpty <;> nofun

theorem sysWriteStep_content {s s' : State cfg} {result : Int} (h : Content s)
    (ho : Ownership s) (hpos : 0 < result) (hs : sysWriteStep s result = some s') :
    Content s' := by
  obtain ⟨target, need, written, hw, hlt, ⟨hneg, -⟩ | ⟨n, -, hn, -, rfl⟩⟩ := sysWriteStep_moved hs
  · omega
  · have hown : s.worker.owning = true := by rw [hw]; rfl
    have ht := ho.target
    have hb := h.bytes
    have hh := ho.handedOver_eq hown
    rw [hw] at ht
    obtain ⟨rfl, rfl, -⟩ := ht
    rw [hh, hw, show Worker.written (.writing s.nextVector (s.vectors s.nextVector).length written)
      = written from rfl] at hb
    refine ⟨?_, nofun⟩
    show s.file ++ ((s.vectors s.nextVector).drop written).take n ++
      (s.vectors (s.producer.handedOver s.nextVector)).drop (written + n) ++
      s.vectors s.currentVector = _
    rw [hh, ← List.drop_drop, List.append_assoc s.file, List.take_append_drop]
    exact hb

/-! ### Every run -/

theorem step_content {s s' : State cfg} {a : Action cfg} (h : Content s) (ho : Ownership s)
    (hg : PositiveWrites s a) (hs : step s a = some s') : Content s' := by
  cases step_moved hs with
  | callWrite data hp | callFlush hp | callDestroy hp | clock now hp =>
      exact h.moveProducer (by rw [hp]; rfl) (by rw [hp]; rfl)
  | write hp hw => exact writeStep_content h ho hp hw
  | flush hp => exact flushStep_content h ho hp
  | destroy hp hd => exact destroyStep_content h hp hd
  | worker hw => exact hw.content h ho
  | sysWrite hw => exact sysWriteStep_content h ho hg hw

/-- **Everything accepted is accounted for.** In every state of every run whose
`::write` calls all make progress, the file, the unwritten part of the handed-over
vector and the active vector, in this order, hold the records whose `write()`
returned true, in call order, followed by the record of a `write()` that has
appended it and is about to return true; between two calls there is none. -/
theorem content_accounted {cfg : Config} {now : Int} {s : State cfg}
    (h : (machine cfg now).Reachable PositiveWrites s) :
    s.file ++ unwritten s ++ active s = (accepted s).flatMap Subtype.val ++ s.producer.appended ∧
      (s.producer.inWrite = false →
        s.file ++ unwritten s ++ active s = (accepted s).flatMap Subtype.val) := by
  have hc : Content s := h.invariant (content_start cfg now) fun hr hi hg hs =>
    step_content hi (reachable_ownership hr) hg hs
  refine ⟨hc.bytes, ?_⟩
  intro hout
  have hnone : s.producer.appended = [] := by
    cases hp : s.producer with
    | write pc => rw [hp] at hout; cases hout
    | flush caller pc =>
        rw [hp] at hout
        cases caller with
        | write data now => cases hout
        | _ => rfl
    | _ => rfl
  exact hc.bytes.trans (by rw [hnone]; exact List.append_nil _)

theorem content_accounted_two_writes :
    ∃ s, (machine oneByte 0).Reachable PositiveWrites s ∧ s.file = [7] ∧ active s = [] ∧
      s.file ++ unwritten s ++ active s = (accepted s).flatMap Subtype.val := by
  obtain ⟨s, hs, hp⟩ := Machine.reachable_of_execWithin (M := machine oneByte 0)
    (G := PositiveWrites) (l := writeAndFlush 7 ++ drain ++ writeAndFlush 8)
    (p := fun s => s.file == [7] && active s == [] && !s.producer.inWrite) (by decide)
  simp only [Bool.and_eq_true, Bool.not_eq_true', beq_iff_eq] at hp
  exact ⟨s, hs, hp.1.1, hp.1.2, (content_accounted hs).2 hp.2⟩

end CppCode.LogStruct
