import CppCode.LogStruct.Content
import CppCode.Bytes.Stream

/-!
# CppCode.LogStruct.Records

**Whole records in the file.** The readers of the log cut it into pieces of `struct_size`
bytes, so a record of which only a part was written shifts everything behind it. A failing
`::write` ends the worker's inner loop, whatever has been written of the batch, and
`resize(0)` drops the rest. The file stays a sequence of whole accepted records as long as
this happens between two records (`WholeRecordErrors`, `file_whole_records`), and it is
torn as soon as it does not (`torn_by_partial_error`).

The invariant (`Split`) divides what was accepted into the records in the file, those in the
handed-over vector and those in the active one. Records may be missing, so the division is
a sublist of the accepted records; the bytes of the batch being written are the ones
`Worker.written` counts.
-/

namespace CppCode.LogStruct

open Concurrency

variable {cfg : Config} {now : Int}

/-- A call of `::write` fails only when a whole number of records has been written. -/
def WholeRecordErrors : Guard (State cfg) (Action cfg) := fun s a =>
  match a, s.worker with
  | .sysWrite result, .writing _ _ written => result < 0 → cfg.structSize ∣ written
  | _, _ => True

/-- Deciding `WholeRecordErrors` by the action and the position of the worker. -/
def decidableWholeRecordErrors (a : Action cfg) (worker : Worker) :
    Decidable (match a, worker with
      | .sysWrite result, .writing _ _ written => result < 0 → cfg.structSize ∣ written
      | _, _ => True) :=
  match a, worker with
  | .sysWrite result, .writing _ _ written =>
      inferInstanceAs (Decidable (result < 0 → cfg.structSize ∣ written))
  | .sysWrite _, .loopHead | .sysWrite _, .loopTest | .sysWrite _, .wait
  | .sysWrite _, .loadTarget | .sysWrite _, .inspect _ | .sysWrite _, .resize _ _
  | .sysWrite _, .storeWriting | .sysWrite _, .clearFlag | .sysWrite _, .loadRunning
  | .sysWrite _, .loadCurrent | .sysWrite _, .done => isTrue trivial
  | .call _, _ | .destroy, _ | .producer, _ | .clock _, _ | .worker, _ => isTrue trivial

instance (s : State cfg) (a : Action cfg) : Decidable (WholeRecordErrors s a) :=
  decidableWholeRecordErrors a s.worker

/-- The worker is in its inner loop. -/
def Worker.inLoop : Worker → Bool
  | .writing _ _ _ => true
  | _ => false

/-- The worker has left its inner loop and not emptied the vector yet. -/
def Worker.resizing : Worker → Bool
  | .resize _ _ => true
  | _ => false

/-- The bytes of a list of records. -/
def bytesOf (records : List (Record cfg)) : List UInt8 := records.flatMap Subtype.val

@[simp] theorem bytesOf_nil : bytesOf ([] : List (Record cfg)) = [] := rfl

@[simp] theorem bytesOf_append (l₁ l₂ : List (Record cfg)) :
    bytesOf (l₁ ++ l₂) = bytesOf l₁ ++ bytesOf l₂ :=
  List.flatMap_append

theorem take_bytesOf {written : Nat} (h : cfg.structSize ∣ written) (l : List (Record cfg)) :
    ∃ k, (bytesOf l).take written = bytesOf (l.take k) := by
  obtain ⟨k, rfl⟩ := h
  exact ⟨k, Bytes.take_flatMap (fun record => record.property) l k⟩

/-- The record that the `write()` which called `flush()` has appended. -/
def FlushCaller.pending : FlushCaller cfg → List (Record cfg)
  | .write data _ => data.toList
  | _ => []

/-- The record that a `write()` still in progress has appended already; such a call can
only return true. -/
def Producer.pending : Producer cfg → List (Record cfg)
  | .write (.readClock data _) | .write (.checkThreshold data _ _) => data.toList
  | .flush caller _ => caller.pending
  | _ => []

/-- The accepted records, divided into those in the file, those handed over and those in
the active vector; over the components of a state. -/
structure SplitAt (file : List UInt8) (vectors : VecId → List UInt8) (current next : VecId)
    (producer : Producer cfg) (worker : Worker) (accepted : List (Record cfg))
    (inFile handed inActive : List (Record cfg)) : Prop where
  activeBytes : vectors current = bytesOf inActive
  handedBytes : worker.resizing = false → vectors (producer.handedOver next) = bytesOf handed
  dropped : worker.resizing = true → handed = []
  fileBytes : file = bytesOf inFile ++ (bytesOf handed).take worker.written
  order : (inFile ++ handed ++ inActive).Sublist (accepted ++ producer.pending)

/-- Some division of the accepted records describes the state. -/
def Split (s : State cfg) : Prop :=
  ∃ inFile handed inActive, SplitAt s.file s.vectors s.currentVector s.nextVector s.producer
    s.worker (accepted s) inFile handed inActive

section Components

variable {file : List UInt8} {vectors : VecId → List UInt8} {current next : VecId}
  {p p' : Producer cfg} {w w' : Worker} {acc acc' inFile handed inActive : List (Record cfg)}

/-- The producer moves on; a record it leaves behind as pending is now accepted. -/
theorem SplitAt.moveProducer {next' : VecId}
    (h : SplitAt file vectors current next p w acc inFile handed inActive)
    (hh : p'.handedOver next' = p.handedOver next)
    (ha : acc' ++ p'.pending = acc ++ p.pending) :
    SplitAt file vectors current next' p' w acc' inFile handed inActive where
  activeBytes := h.activeBytes
  handedBytes := by rw [hh]; exact h.handedBytes
  dropped := h.dropped
  fileBytes := h.fileBytes
  order := by rw [ha]; exact h.order

/-- The worker moves on without touching the bytes. -/
theorem SplitAt.moveWorker (h : SplitAt file vectors current next p w acc inFile handed inActive)
    (hw : w'.written = w.written) (hr : w'.resizing = w.resizing) :
    SplitAt file vectors current next p w' acc inFile handed inActive where
  activeBytes := h.activeBytes
  handedBytes := by rw [hr]; exact h.handedBytes
  dropped := by rw [hr]; exact h.dropped
  fileBytes := by rw [hw]; exact h.fileBytes
  order := h.order

/-- The inner loop ends after `k` records of the batch. -/
theorem SplitAt.endBatch {k written : Nat} {target : VecId}
    (h : SplitAt file vectors current next p w acc inFile handed inActive)
    (hk : (bytesOf handed).take w.written = bytesOf (handed.take k)) :
    SplitAt file vectors current next p (.resize target written) acc (inFile ++ handed.take k) []
      inActive where
  activeBytes := h.activeBytes
  handedBytes := nofun
  dropped := fun _ => rfl
  fileBytes := by rw [h.fileBytes, hk]; simp
  order := by
    refine List.Sublist.trans ?_ h.order
    rw [List.append_nil]
    exact ((List.Sublist.refl inFile).append (List.take_sublist k handed)).append
      (List.Sublist.refl inActive)

end Components

theorem split_start (cfg : Config) (now : Int) : Split (State.start cfg now) :=
  ⟨[], [], [], rfl, fun _ => rfl, nofun, rfl, List.Sublist.refl _⟩

/-! ### The producer -/

theorem accepted_append (s : State cfg) (e : Event cfg) :
    (s.history ++ [e]).filterMap Event.acceptedRecord = accepted s ++ e.acceptedRecord.toList := by
  cases h : e.acceptedRecord <;> simp [accepted, h]

theorem returnFlush_split {s : State cfg} {caller : FlushCaller cfg} {pc : FlushPc}
    (h : Split s) (hp : s.producer = .flush caller pc)
    (hh : s.producer.handedOver s.nextVector = s.nextVector) (result : Bool) :
    Split (returnFlush s result caller) := by
  obtain ⟨inFile, handed, inActive, h⟩ := h
  have hpend : s.producer.pending = caller.pending := by rw [hp]; rfl
  refine ⟨inFile, handed, inActive, ?_⟩
  cases caller with
  | user =>
      refine h.moveProducer hh.symm ?_
      rw [hpend]
      exact congrArg (· ++ []) ((accepted_append s _).trans (List.append_nil _))
  | write data now =>
      refine h.moveProducer hh.symm ?_
      rw [hpend]
      exact (List.append_nil _).trans (accepted_append s _)
  | destructor =>
      refine h.moveProducer hh.symm ?_
      rw [hpend]
      rfl

/-- The first pointer store of `flush()`: the records of the active vector are now the
handed-over ones, and none are left in the vector that becomes active. -/
theorem storeCurrent_split {s : State cfg} {caller : FlushCaller cfg}
    {oldCurrent oldNext : VecId} (h : Split s) (ho : Ownership s)
    (hp : s.producer = .flush caller (.storeCurrent oldCurrent oldNext)) :
    Split (flushStep s caller (.storeCurrent oldCurrent oldNext)) := by
  obtain ⟨inFile, handed, inActive, h⟩ := h
  have hptr := ho.pointers
  have hempty := ho.swap
  have hidle := ho.not_owning (by rw [hp]; rfl)
  rw [hp] at hptr hempty
  obtain ⟨rfl, rfl, -⟩ := hptr
  obtain ⟨hzero, hres⟩ : s.worker.written = 0 ∧ s.worker.resizing = false := by
    cases hw : s.worker <;> rw [hw] at hidle <;> first | exact ⟨rfl, rfl⟩ | cases hidle
  -- what was behind `next_vector_` has no bytes left
  have hnone : bytesOf handed = [] := by
    rw [← h.handedBytes hres, hp]
    exact hempty
  refine ⟨inFile ++ handed, inActive, [], ?_⟩
  constructor
  case activeBytes => exact hempty
  case handedBytes =>
    intro _
    exact h.activeBytes
  case dropped =>
    intro hr
    rw [show (flushStep s caller (.storeCurrent s.currentVector s.nextVector)).worker = s.worker
      from rfl, hres] at hr
    cases hr
  case fileBytes =>
    show s.file = bytesOf (inFile ++ handed) ++ (bytesOf inActive).take s.worker.written
    rw [h.fileBytes, hzero, bytesOf_append, hnone]
    simp
  case order =>
    rw [List.append_nil]
    have horder := h.order
    rw [hp] at horder
    exact horder

theorem flushStep_split {s : State cfg} {caller : FlushCaller cfg} {pc : FlushPc}
    (h : Split s) (ho : Ownership s) (hp : s.producer = .flush caller pc) :
    Split (flushStep s caller pc) := by
  have hpend : s.producer.pending = caller.pending := by rw [hp]; rfl
  cases pc with
  | checkWriting =>
      simp only [flushStep]
      split
      · exact returnFlush_split h hp (by rw [hp]; rfl) false
      · obtain ⟨inFile, handed, inActive, h⟩ := h
        exact ⟨inFile, handed, inActive, h.moveProducer (by rw [hp]; rfl) (by rw [hpend]; rfl)⟩
  | markWriting | loadCurrent | loadNext | storeNext =>
      obtain ⟨inFile, handed, inActive, h⟩ := h
      exact ⟨inFile, handed, inActive, h.moveProducer (by rw [hp]; rfl) (by rw [hpend]; rfl)⟩
  | storeCurrent oldCurrent oldNext => exact storeCurrent_split h ho hp
  | signal =>
      obtain ⟨inFile, handed, inActive, h⟩ := h
      refine ⟨inFile, handed, inActive, h.moveProducer (by rw [hp]; rfl) ?_⟩
      rw [hpend]
      exact congrArg (· ++ caller.pending) ((accepted_append s _).trans (List.append_nil _))
  | notify => exact returnFlush_split h hp (by rw [hp]; rfl) true

/-- `write()` appends a record to the active vector. -/
theorem insert_split {s : State cfg} {record : Record cfg} (h : Split s) (ho : Ownership s)
    (hp : s.producer = .write (.insert record s.currentVector)) :
    Split { s with
      vectors := Function.update s.vectors s.currentVector
        (s.vectors s.currentVector ++ record.val)
      producer := .write (.readClock (some record) s.currentVector) } := by
  obtain ⟨inFile, handed, inActive, h⟩ := h
  have hptr := ho.pointers
  rw [hp] at hptr
  refine ⟨inFile, handed, inActive ++ [record], ?_⟩
  constructor
  case activeBytes =>
    show Function.update s.vectors s.currentVector _ s.currentVector = _
    rw [Function.update_self, h.activeBytes, bytesOf_append]
    simp [bytesOf]
  case handedBytes =>
    intro hr
    have hb := h.handedBytes hr
    rw [hp] at hb
    show Function.update s.vectors s.currentVector _ s.nextVector = _
    rw [Function.update_of_ne hptr.2.symm]
    exact hb
  case dropped => exact h.dropped
  case fileBytes => exact h.fileBytes
  case order =>
    have horder := h.order
    rw [hp] at horder
    rw [← List.append_assoc]
    refine List.Sublist.append ?_ (List.Sublist.refl [record])
    exact horder.trans (by simp [Producer.pending, accepted])

theorem writeStep_split {s s' : State cfg} {pc : WritePc cfg} (h : Split s)
    (ho : Ownership s) (hp : s.producer = .write pc) (hs : writeStep s pc = some s') :
    Split s' := by
  have hptr := ho.pointers
  rw [hp] at hptr
  cases pc with
  | loadCurrent data =>
      obtain rfl := Option.some.inj hs
      obtain ⟨inFile, handed, inActive, h⟩ := h
      exact ⟨inFile, handed, inActive, h.moveProducer (by rw [hp]; rfl) (by rw [hp]; rfl)⟩
  | checkCapacity data curr =>
      obtain ⟨inFile, handed, inActive, h⟩ := h
      cases data with
      | none =>
          obtain rfl := Option.some.inj hs
          exact ⟨inFile, handed, inActive, h.moveProducer (by rw [hp]; rfl) (by rw [hp]; rfl)⟩
      | some record =>
          simp only [writeStep] at hs
          split at hs
          · obtain rfl := Option.some.inj hs
            refine ⟨inFile, handed, inActive, h.moveProducer (by rw [hp]; rfl) ?_⟩
            rw [hp]
            exact congrArg (· ++ []) ((accepted_append s _).trans (List.append_nil _))
          · obtain rfl := Option.some.inj hs
            exact ⟨inFile, handed, inActive, h.moveProducer (by rw [hp]; rfl) (by rw [hp]; rfl)⟩
  | insert record curr =>
      obtain rfl := Option.some.inj hs
      obtain ⟨rfl, -⟩ := hptr
      exact insert_split h ho hp
  | readClock data curr => cases hs
  | checkThreshold data curr now =>
      obtain ⟨inFile, handed, inActive, h⟩ := h
      simp only [writeStep] at hs
      split at hs
      · obtain rfl := Option.some.inj hs
        exact ⟨inFile, handed, inActive, h.moveProducer (by rw [hp]; rfl) (by rw [hp]; rfl)⟩
      · obtain rfl := Option.some.inj hs
        refine ⟨inFile, handed, inActive, h.moveProducer (by rw [hp]; rfl) ?_⟩
        rw [hp]
        exact (List.append_nil _).trans (accepted_append s _)

theorem destroyStep_split {s s' : State cfg} {pc : DestroyPc} (h : Split s)
    (hp : s.producer = .destroy pc) (hs : destroyStep s pc = some s') : Split s' := by
  obtain ⟨inFile, handed, inActive, h⟩ := h
  cases pc with
  | storeRunning | close | deleteBuffer1 | deleteBuffer2 | requestStop =>
      obtain rfl := Option.some.inj hs
      exact ⟨inFile, handed, inActive, h.moveProducer (by rw [hp]; rfl) (by rw [hp]; rfl)⟩
  | join =>
      simp only [destroyStep, Option.ite_none_right_eq_some, Option.some.injEq] at hs
      obtain ⟨-, rfl⟩ := hs
      exact ⟨inFile, handed, inActive, h.moveProducer (by rw [hp]; rfl) (by rw [hp]; rfl)⟩
  | destroyed => cases hs

/-! ### The worker -/

theorem WorkerMoved.split {s s' : State cfg} (hs : WorkerMoved s s') (h : Split s)
    (ho : Ownership s) : Split s' := by
  obtain ⟨inFile, handed, inActive, h⟩ := h
  have ht := ho.target
  cases hs with
  | loopHead hw =>
      exact ⟨inFile, handed, inActive, h.moveWorker (by rw [hw]; cases s.stopRequested <;> rfl)
        (by rw [hw]; cases s.stopRequested <;> rfl)⟩
  | loopTest hw =>
      exact ⟨inFile, handed, inActive, h.moveWorker (by rw [hw]; cases s.hasDataToWrite <;> rfl)
        (by rw [hw]; cases s.hasDataToWrite <;> rfl)⟩
  | wake hw | loadTarget hw | inspectEmpty hw | inspectFull hw | storeWriting hw | clearFlag hw =>
      exact ⟨inFile, handed, inActive, h.moveWorker (by rw [hw]; rfl) (by rw [hw]; rfl)⟩
  | written hw hge =>
      rename_i target need written
      -- the whole batch is in the file
      have hown : s.worker.owning = true := by rw [hw]; rfl
      have hb := h.handedBytes (by rw [hw]; rfl)
      rw [ho.handedOver_eq hown] at hb
      rw [hw] at ht
      obtain ⟨rfl, rfl, -⟩ := ht
      refine ⟨_, [], inActive, h.endBatch (k := handed.length) ?_⟩
      rw [List.take_length, hw, ← hb]
      exact List.take_of_length_le hge
  | resize hw =>
      have hown : s.worker.owning = true := by rw [hw]; rfl
      obtain rfl := h.dropped (by rw [hw]; rfl)
      rw [hw] at ht
      obtain ⟨rfl, -⟩ := ht
      have hhand : s.producer.handedOver s.nextVector = s.nextVector := ho.handedOver_eq hown
      refine ⟨inFile, [], inActive, ?_⟩
      constructor
      case activeBytes =>
        show Function.update s.vectors s.nextVector [] s.currentVector = _
        rw [Function.update_of_ne (ho.current_ne_next hown)]
        exact h.activeBytes
      case handedBytes =>
        intro _
        show Function.update s.vectors s.nextVector [] (s.producer.handedOver s.nextVector) = _
        rw [hhand, Function.update_self]
        rfl
      case dropped => exact fun _ => rfl
      case fileBytes =>
        have hf := h.fileBytes
        rw [hw] at hf
        simpa using hf
      case order => exact h.order
  | loadRunning hw =>
      exact ⟨inFile, handed, inActive, h.moveWorker (by rw [hw]; cases s.isRunning <;> rfl)
        (by rw [hw]; cases s.isRunning <;> rfl)⟩
  | loadCurrent hw =>
      exact ⟨inFile, handed, inActive, h.moveWorker
        (by rw [hw]; cases (s.vectors s.currentVector).isEmpty <;> rfl)
        (by rw [hw]; cases (s.vectors s.currentVector).isEmpty <;> rfl)⟩

theorem sysWriteStep_split {s s' : State cfg} {result : Int} (h : Split s) (ho : Ownership s)
    (hg : WholeRecordErrors s (.sysWrite result)) (hs : sysWriteStep s result = some s') :
    Split s' := by
  obtain ⟨inFile, handed, inActive, h⟩ := h
  obtain ⟨target, need, written, hw, hlt, ⟨hneg, rfl⟩ | ⟨n, -, hn, -, rfl⟩⟩ :=
    sysWriteStep_moved hs
  · -- the loop ends between two records
    have hdvd : cfg.structSize ∣ written := by
      simp only [WholeRecordErrors, hw] at hg
      exact hg hneg
    obtain ⟨k, hk⟩ := take_bytesOf hdvd handed
    exact ⟨_, [], inActive, h.endBatch (k := k) (by rw [hw]; exact hk)⟩
  · have hown : s.worker.owning = true := by rw [hw]; rfl
    have hb := h.handedBytes (by rw [hw]; rfl)
    have hf := h.fileBytes
    have ht := ho.target
    rw [ho.handedOver_eq hown] at hb
    rw [hw] at ht hf
    obtain ⟨rfl, rfl, -⟩ := ht
    refine ⟨inFile, handed, inActive, h.activeBytes, ?_, nofun, ?_, h.order⟩
    · intro _
      rw [← hb]
      exact congrArg s.vectors (ho.handedOver_eq hown)
    · show s.file ++ ((s.vectors s.nextVector).drop written).take n =
        bytesOf inFile ++ (bytesOf handed).take (written + n)
      rw [hf, hb, List.append_assoc, List.take_add]
      rfl

/-! ### Every run -/

theorem step_split {s s' : State cfg} {a : Action cfg} (h : Split s) (ho : Ownership s)
    (hg : WholeRecordErrors s a) (hs : step s a = some s') : Split s' := by
  cases step_moved hs with
  | callWrite data hp | callFlush hp | callDestroy hp | clock now hp =>
      obtain ⟨inFile, handed, inActive, h⟩ := h
      exact ⟨inFile, handed, inActive, h.moveProducer (by rw [hp]; rfl) (by rw [hp]; rfl)⟩
  | write hp hw => exact writeStep_split h ho hp hw
  | flush hp => exact flushStep_split h ho hp
  | destroy hp hd => exact destroyStep_split h hp hd
  | worker hw => exact hw.split h ho
  | sysWrite hw => exact sysWriteStep_split h ho hg hw

theorem reachable_split {s : State cfg} (h : (machine cfg now).Reachable WholeRecordErrors s) :
    Split s :=
  h.invariant (split_start cfg now) fun hr hi hg hs =>
    step_split hi (reachable_ownership hr) hg hs

/-- Between two calls no record is pending. -/
theorem pending_of_not_inWrite {p : Producer cfg} (h : p.inWrite = false) : p.pending = [] := by
  cases p with
  | write pc => cases h
  | flush caller pc =>
      cases caller with
      | write data now => cases h
      | _ => rfl
  | _ => rfl

/-- **The file holds whole records**, in every run in which `::write` fails only between two
records: whenever the worker is outside its inner loop, the file is a concatenation of
records, in the order in which they were accepted. A record may be there before its
`write()`, which can only return true, has returned. -/
theorem file_whole_records {cfg : Config} {now : Int} {s : State cfg}
    (h : (machine cfg now).Reachable WholeRecordErrors s) (hw : s.worker.inLoop = false) :
    ∃ records : List (Record cfg), s.file = records.flatMap Subtype.val ∧
      records.Sublist (accepted s ++ s.producer.pending) ∧
      (s.producer.inWrite = false → records.Sublist (accepted s)) := by
  obtain ⟨inFile, handed, inActive, h⟩ := reachable_split h
  have hfile : s.file = bytesOf inFile := by
    have hf := h.fileBytes
    cases hwk : s.worker with
    | writing => rw [hwk] at hw; cases hw
    | resize target written =>
        rw [h.dropped (by rw [hwk]; rfl)] at hf
        simpa using hf
    | _ =>
        rw [hwk] at hf
        simpa [Worker.written] using hf
  have hsub : inFile.Sublist (accepted s ++ s.producer.pending) := by
    refine List.Sublist.trans ?_ h.order
    rw [List.append_assoc]
    exact List.sublist_append_left inFile _
  refine ⟨inFile, hfile, hsub, ?_⟩
  intro hout
  rw [pending_of_not_inWrite hout, List.append_nil] at hsub
  exact hsub

/-- Buffers that hold two records of two bytes. -/
def twoBytes : Config := ⟨2, 2, 1000, by decide⟩

/-- Two records fill a buffer, which is handed over, and the worker gets to its inner loop. -/
def writeTwoRecords : List (Action twoBytes) :=
  [.call (.write (some ⟨[1, 2], rfl⟩)), .producer, .producer, .producer, .clock 0, .producer,
    .call (.write (some ⟨[3, 4], rfl⟩)), .producer, .producer, .producer, .clock 0] ++
    List.replicate 9 Action.producer ++ List.replicate 4 Action.worker

/-- A short write, the rest of the record, then an error: the second record is missing. -/
theorem file_whole_records_missing_one :
    ∃ s, (machine twoBytes 0).Reachable WholeRecordErrors s ∧ s.file = [1, 2] ∧
      ∃ records : List (Record twoBytes), s.file = records.flatMap Subtype.val ∧
        records.Sublist (accepted s) := by
  obtain ⟨s, hs, hp⟩ := Machine.reachable_of_execWithin (M := machine twoBytes 0)
    (G := WholeRecordErrors)
    (l := writeTwoRecords ++ [Action.sysWrite 1, .sysWrite 1, .sysWrite (-1)])
    (p := fun s => s.file == [1, 2] && !s.worker.inLoop && !s.producer.inWrite) (by decide)
  simp only [Bool.and_eq_true, Bool.not_eq_true', beq_iff_eq] at hp
  obtain ⟨records, hfile, -, hsub⟩ := file_whole_records hs hp.1.2
  exact ⟨s, hs, hp.1.1, records, hfile, hsub hp.2⟩

/-- A short write and then an error: one byte of the first record is in the file. -/
theorem half_a_record :
    ∃ s, (machine twoBytes 0).Reachable Machine.free s ∧ s.worker.inLoop = false ∧
      s.file = [1] ∧
      ¬ ∃ records : List (Record twoBytes), s.file = records.flatMap Subtype.val := by
  obtain ⟨s, hs, hp⟩ := Machine.reachable_of_exec (M := machine twoBytes 0)
    (l := writeTwoRecords ++ [Action.sysWrite 1, .sysWrite (-1)])
    (p := fun s => s.file == [1] && !s.worker.inLoop) (by decide)
  simp only [Bool.and_eq_true, Bool.not_eq_true', beq_iff_eq] at hp
  refine ⟨s, hs, hp.2, hp.1, ?_⟩
  rintro ⟨records, hr⟩
  have hlen := Bytes.length_flatMap (fun record : Record twoBytes => record.property) records
  rw [← hr, hp.1, show twoBytes.structSize = 2 from rfl, List.length_singleton] at hlen
  omega

/-- **The condition cannot be weakened.** The first error inside a record tears it: from then
on the file is no sequence of records. -/
theorem torn_by_partial_error {s s' : State cfg} {target : VecId} {need written : Nat}
    {result : Int} (h : (machine cfg now).Reachable WholeRecordErrors s)
    (hw : s.worker = .writing target need written) (hnd : ¬ cfg.structSize ∣ written)
    (hneg : result < 0) (hs : (machine cfg now).step s (.sysWrite result) = some s') :
    s'.worker.inLoop = false ∧
      ¬ ∃ records : List (Record cfg), s'.file = records.flatMap Subtype.val := by
  have ht := (reachable_ownership h).target
  have hh := (reachable_ownership h).handedOver_eq (by rw [hw]; rfl)
  obtain ⟨inFile, handed, inActive, h⟩ := reachable_split h
  have hb := h.handedBytes (by rw [hw]; rfl)
  have hf := h.fileBytes
  rw [hw] at ht hf
  obtain ⟨rfl, rfl, hle⟩ := ht
  obtain ⟨target', need', written', hw', -, ⟨-, rfl⟩ | ⟨n, rfl, -⟩⟩ := sysWriteStep_moved hs
  · refine ⟨rfl, ?_⟩
    rintro ⟨records, hr⟩
    rw [hh] at hb
    -- compare lengths: whole records, whole records and a part of one
    have hlen : cfg.structSize * records.length = cfg.structSize * inFile.length + written := by
      have hlr := Bytes.length_flatMap (fun record : Record cfg => record.property) records
      have hli := Bytes.length_flatMap (fun record : Record cfg => record.property) inFile
      rw [← hlr, ← hli, ← hr]
      show s.file.length = _
      rw [hf, ← hb, List.length_append, List.length_take]
      show (bytesOf inFile).length + min written _ = _
      rw [Nat.min_eq_left hle]
      rfl
    exact hnd ((Nat.dvd_add_right (Dvd.intro _ rfl)).mp (hlen ▸ Dvd.intro _ rfl))
  · omega

end CppCode.LogStruct
