import CppCode.Bytes.LittleEndian
import CppCode.LogStruct.Records
import CppCode.LogStruct.TailReader

/-!
# CppCode.LogStruct.Follow

**From `write()` to the tuple.** The logger and `analyze_bin.py` meet in the file: a
program hands its structs to `write()`, as `log_struct_test.cpp` does with `TestData`, and
the reader turns the bytes it finds back into tuples while the logger is still running.

* `TestData.bytes` is the object as `reinterpret_cast<const std::byte*>(&test_data)` sees
  it: eleven members of eight bytes, little-endian, nothing between them. `unpack` undoes
  it (`unpack_bytes`).
* The two programs run side by side (`machine`); the reader reads the file that the logger
  has written so far.
* A run is `Aligned` if `::write` fails only between two records and the reader finds the
  end of the file only there. Runs whose `::write` calls append whole records are aligned
  (`reachable_aligned`).

In an aligned run the reader never dies, and its tuples are the accepted structs, in order
and each at most once; without failing writes none is missing (`followed_in_order`).
-/

namespace CppCode.LogStruct.Follow

open Concurrency
open CppCode.LogStruct.TailReader (Format Value structFmt structSize unpack decode stream
  WholeAtEof Synced)

/-! ### The struct -/

/-- `TestData`; a member is given by its bits. -/
structure TestData where
  timestamp : BitVec 64
  a : BitVec 64
  b : BitVec 64
  c : BitVec 64
  d : BitVec 64
  e : BitVec 64
  f : BitVec 64
  g : BitVec 64
  h : BitVec 64
  i : BitVec 64
  j : BitVec 64
  deriving Repr, DecidableEq

/-- The members in the order of the declaration. -/
def TestData.members (x : TestData) : List (BitVec 64) :=
  [x.timestamp, x.a, x.b, x.c, x.d, x.e, x.f, x.g, x.h, x.i, x.j]

/-- A member in memory. -/
def memberBytes (v : BitVec 64) : List UInt8 := Bytes.toBytes 8 v.toNat

/-- The object in memory. -/
def TestData.bytes (x : TestData) : List UInt8 := x.members.flatMap memberBytes

/-- The struct as the reader should see it: two integers and nine `double`s. -/
def TestData.tuple (x : TestData) : List Value :=
  [.int x.timestamp.toInt, .int x.a.toInt, .double x.b, .double x.c, .double x.d, .double x.e,
    .double x.f, .double x.g, .double x.h, .double x.i, .double x.j]

theorem length_memberBytes (v : BitVec 64) : (memberBytes v).length = 8 :=
  Bytes.length_toBytes _ _

theorem TestData.length_bytes (x : TestData) : x.bytes.length = structSize :=
  Bytes.length_flatMap length_memberBytes x.members

theorem littleEndian_eq (bytes : List UInt8) :
    TailReader.littleEndian bytes = Bytes.ofBytes bytes := by
  induction bytes with
  | nil => rfl
  | cons b bytes ih =>
      rw [Bytes.ofBytes, ← ih]
      rfl

theorem ofNat_memberBytes (v : BitVec 64) :
    BitVec.ofNat 64 (TailReader.littleEndian (memberBytes v)) = v := by
  rw [littleEndian_eq, memberBytes, Bytes.ofBytes_toBytes_of_lt v.isLt, BitVec.ofNat_toNat,
    BitVec.setWidth_eq]

/-- What a format character makes of a member. -/
def formatValue : Format → BitVec 64 → Value
  | .q, v => .int v.toInt
  | .d, v => .double v

/-- The fields come back one by one. -/
theorem decode_members (formats : List Format) (members : List (BitVec 64))
    (hlength : formats.length = members.length) :
    decode formats (members.flatMap memberBytes) = List.zipWith formatValue formats members := by
  induction formats generalizing members with
  | nil => rfl
  | cons format formats ih =>
      cases members with
      | nil => cases hlength
      | cons v members =>
          have hsize : (memberBytes v).length = format.size := by
            rw [length_memberBytes]
            cases format <;> rfl
          have hvalue : format.value (memberBytes v) = formatValue format v := by
            cases format <;> rw [Format.value, ofNat_memberBytes] <;> rfl
          rw [List.flatMap_cons, decode, List.take_left' hsize, List.drop_left' hsize, hvalue,
            ih members (Nat.succ.inj hlength), List.zipWith_cons_cons]

/-- **Round trip.** `unpack` gives the members of the object back. -/
theorem unpack_bytes (x : TestData) : unpack x.bytes = some x.tuple := by
  rw [unpack, if_pos x.length_bytes, TestData.bytes, decode_members _ _ rfl]
  rfl

theorem TestData.tuple_injective : Function.Injective TestData.tuple := by
  intro x y h
  simp only [TestData.tuple, List.cons.injEq, Value.int.injEq, Value.double.injEq,
    BitVec.toInt_inj, and_true] at h
  obtain ⟨h₁, h₂, h₃, h₄, h₅, h₆, h₇, h₈, h₉, h₁₀, h₁₁⟩ := h
  cases x
  cases y
  subst h₁ h₂ h₃ h₄ h₅ h₆ h₇ h₈ h₉ h₁₀ h₁₁
  rfl

/-- Eight bytes are a member. -/
theorem exists_memberBytes (bytes : List UInt8) (h : bytes.length = 8) :
    ∃ v, memberBytes v = bytes := by
  have hlt : Bytes.ofBytes bytes < 2 ^ 64 := by
    have hbytes := Bytes.ofBytes_lt bytes
    rw [h] at hbytes
    exact hbytes
  refine ⟨BitVec.ofNat 64 (Bytes.ofBytes bytes), ?_⟩
  rw [memberBytes, BitVec.toNat_ofNat, Nat.mod_eq_of_lt hlt, ← h, Bytes.toBytes_ofBytes]

theorem exists_members (bytes : List UInt8) {n : Nat} (h : bytes.length = 8 * n) :
    ∃ members : List (BitVec 64), members.length = n ∧ members.flatMap memberBytes = bytes := by
  induction n generalizing bytes with
  | zero => exact ⟨[], rfl, (List.eq_nil_of_length_eq_zero h).symm⟩
  | succ n ih =>
      obtain ⟨v, hv⟩ := exists_memberBytes (bytes.take 8) (by rw [List.length_take]; omega)
      obtain ⟨members, hlength, hmembers⟩ := ih (bytes.drop 8) (by rw [List.length_drop]; omega)
      refine ⟨v :: members, by rw [List.length_cons, hlength], ?_⟩
      rw [List.flatMap_cons, hv, hmembers, List.take_append_drop]

/-- Every record of the right size is an object. -/
theorem exists_testData {bytes : List UInt8} (h : bytes.length = structSize) :
    ∃ x : TestData, x.bytes = bytes := by
  obtain ⟨members, hlength, rfl⟩ := exists_members bytes (n := 11) h
  match members, hlength with
  | [timestamp, a, b, c, d, e, f, g, h, i, j], _ =>
      exact ⟨⟨timestamp, a, b, c, d, e, f, g, h, i, j⟩, rfl⟩

/-! ### Logger and reader -/

variable {cfg : Config} {now : Int}

/-- The logger with its file, and the reader; `reader.written` is the size of the file. -/
structure State (cfg : Config) where
  logger : LogStruct.State cfg
  reader : TailReader.State

inductive Action (cfg : Config)
  | logger (a : LogStruct.Action cfg)
  | reader (a : TailReader.Action)
  deriving DecidableEq

/-- One step of the reader over `file`. Only a raw read looks at the bytes; appending is the
logger's part. -/
def readerStep (file : List UInt8) (s : TailReader.State) :
    TailReader.Action → Option TailReader.State
  | .append _ => none
  | .rawRead k =>
      match s.pc with
      | .reading data =>
          if 0 < k ∧ s.pos + k ≤ file.length then
            some ({ s with pos := s.pos + k }.collect data (s.buffer ++ (file.drop s.pos).take k))
          else none
      | _ => none
  | .read => TailReader.step [] s .read
  | .eof => TailReader.step [] s .eof
  | .handle => TailReader.step [] s .handle
  | .wake => TailReader.step [] s .wake

/-- One step of one of the two programs. -/
def step (s : State cfg) : Action cfg → Option (State cfg)
  | .logger a =>
      match LogStruct.step s.logger a with
      | some logger => some ⟨logger, { s.reader with written := logger.file.length }⟩
      | none => none
  | .reader a =>
      match readerStep s.logger.file s.reader a with
      | some reader => some ⟨s.logger, reader⟩
      | none => none

/-- A logger constructed at time `now`, and a reader that has opened its file. -/
def machine (cfg : Config) (now : Int) : Machine (State cfg) (Action cfg) where
  init := ⟨LogStruct.State.start cfg now, .start⟩
  step := step

/-- `::write` fails, and the reader finds the end of the file, only between two records. -/
def Aligned : Guard (State cfg) (Action cfg) := fun s a =>
  match a with
  | .logger a => WholeRecordErrors s.logger a
  | .reader a => WholeAtEof s.reader a

instance (s : State cfg) (a : Action cfg) : Decidable (Aligned s a) :=
  match a with
  | .logger a => inferInstanceAs (Decidable (WholeRecordErrors s.logger a))
  | .reader a => inferInstanceAs (Decidable (WholeAtEof s.reader a))

/-- `Aligned`, and every call of `::write` makes progress. -/
def AlignedProgress : Guard (State cfg) (Action cfg) := fun s a =>
  Aligned s a ∧ ∀ b, a = .logger b → PositiveWrites s.logger b

/-- Every `::write` that does not fail appends whole records. -/
def WholeWrites : Guard (State cfg) (Action cfg) := fun _ a =>
  ∀ n : Nat, a = .logger (.sysWrite n) → cfg.structSize ∣ n

theorem step_cases {s s' : State cfg} {a : Action cfg} (h : step s a = some s') :
    (∃ b logger, a = .logger b ∧ LogStruct.step s.logger b = some logger ∧
      s' = ⟨logger, { s.reader with written := logger.file.length }⟩) ∨
    ∃ b reader, a = .reader b ∧ readerStep s.logger.file s.reader b = some reader ∧
      s' = ⟨s.logger, reader⟩ := by
  cases a with
  | logger b =>
      simp only [step] at h
      split at h
      next logger hlogger => exact .inl ⟨b, logger, rfl, hlogger, (Option.some.inj h).symm⟩
      next => cases h
  | reader b =>
      simp only [step] at h
      split at h
      next reader hreader => exact .inr ⟨b, reader, rfl, hreader, (Option.some.inj h).symm⟩
      next => cases h

/-- The logger runs as it does alone. -/
theorem logger_reachable {G : Guard (State cfg) (Action cfg)}
    {H : Guard (LogStruct.State cfg) (LogStruct.Action cfg)} {s : State cfg}
    (h : (machine cfg now).Reachable G s) (hG : ∀ s a, G s (.logger a) → H s.logger a) :
    (LogStruct.machine cfg now).Reachable H s.logger := by
  refine h.project (N := LogStruct.machine cfg now) (fun s => s.logger) rfl ?_
  intro s a s' hg hs
  obtain ⟨b, logger, rfl, hlogger, rfl⟩ | ⟨b, reader, rfl, -, rfl⟩ := step_cases hs
  · exact .single (hG s b hg) hlogger
  · exact .refl _

/-! ### The file grows -/

theorem flushStep_file (s : LogStruct.State cfg) (caller : FlushCaller cfg) (pc : FlushPc) :
    (flushStep s caller pc).file = s.file ∧ (flushStep s caller pc).worker = s.worker := by
  cases pc with
  | checkWriting =>
      rw [flushStep]
      split
      · exact ⟨(returnFlush_frame _ _ _).file, (returnFlush_frame _ _ _).worker⟩
      · exact ⟨rfl, rfl⟩
  | notify => exact ⟨(returnFlush_frame _ _ _).file, (returnFlush_frame _ _ _).worker⟩
  | _ => exact ⟨rfl, rfl⟩

/-- Only the worker's calls of `::write` change the file, and they append to it. -/
theorem file_grows {s s' : LogStruct.State cfg} {a : LogStruct.Action cfg}
    (h : LogStruct.step s a = some s') : s.file <+: s'.file := by
  cases LogStruct.step_moved h with
  | callWrite | callFlush | callDestroy | clock => exact List.prefix_rfl
  | write hp hw => exact (writeStep_frame hw).file ▸ List.prefix_rfl
  | @flush caller pc hp => exact (flushStep_file s caller pc).1 ▸ List.prefix_rfl
  | destroy hp hd => exact (destroyStep_frame hd).file ▸ List.prefix_rfl
  | worker hw => cases hw <;> exact List.prefix_rfl
  | sysWrite hw =>
      obtain ⟨target, need, written, -, -, ⟨-, rfl⟩ | ⟨n, -, -, -, rfl⟩⟩ := sysWriteStep_moved hw
      · exact List.prefix_rfl
      · exact List.prefix_append _ _

/-- The file and the batch being written consist of whole records. -/
structure Whole (s : LogStruct.State cfg) : Prop where
  file : cfg.structSize ∣ s.file.length
  written : cfg.structSize ∣ s.worker.written

theorem Whole.of_frame {s s' : LogStruct.State cfg} (h : Whole s) (hfile : s'.file = s.file)
    (hworker : s'.worker = s.worker) : Whole s' :=
  ⟨hfile ▸ h.file, hworker ▸ h.written⟩

theorem step_whole {s s' : LogStruct.State cfg} {a : LogStruct.Action cfg} (h : Whole s)
    (ho : Ownership s) (hg : ∀ n : Nat, a = .sysWrite n → cfg.structSize ∣ n)
    (hs : LogStruct.step s a = some s') : Whole s' := by
  cases LogStruct.step_moved hs with
  | callWrite | callFlush | callDestroy | clock => exact h.of_frame rfl rfl
  | write hp hw => exact h.of_frame (writeStep_frame hw).file (writeStep_frame hw).worker
  | @flush caller pc hp =>
      exact h.of_frame (flushStep_file s caller pc).1 (flushStep_file s caller pc).2
  | destroy hp hd => exact h.of_frame (destroyStep_frame hd).file (destroyStep_frame hd).worker
  | worker hw =>
      refine ⟨?_, ?_⟩
      · cases hw <;> exact h.file
      · have hwritten := h.written
        cases hw with
        | written hw hge =>
            rw [hw] at hwritten
            exact hwritten
        | loopHead => cases s.stopRequested <;> exact Nat.dvd_zero _
        | loopTest => cases s.hasDataToWrite <;> exact Nat.dvd_zero _
        | loadRunning => cases s.isRunning <;> exact Nat.dvd_zero _
        | loadCurrent => cases (s.vectors s.currentVector).isEmpty <;> exact Nat.dvd_zero _
        | _ => exact Nat.dvd_zero _
  | sysWrite hsys =>
      have hwritten := h.written
      obtain ⟨target, need, written, hw, -, ⟨-, rfl⟩ | ⟨n, rfl, hn, -, rfl⟩⟩ :=
        sysWriteStep_moved hsys
      · rw [hw] at hwritten
        exact ⟨h.file, hwritten⟩
      · have ht := ho.target
        rw [hw] at ht hwritten
        obtain ⟨rfl, rfl, hle⟩ := ht
        refine ⟨?_, (Nat.dvd_add_right hwritten).mpr (hg n rfl)⟩
        rw [List.length_append, List.length_take, List.length_drop, Nat.min_eq_left hn]
        exact (Nat.dvd_add_right h.file).mpr (hg n rfl)

/-! ### The reader reads records -/

/-- Over a file that is the beginning of a stream of records, the reader moves as it does
over these records. -/
theorem readerStep_eq {file : List UInt8} {records : List TailReader.Record}
    {s s' : TailReader.State} {a : TailReader.Action} (hfile : file <+: stream records)
    (hwritten : s.written = file.length) (h : readerStep file s a = some s') :
    TailReader.step records s a = some s' := by
  cases a with
  | append k => cases h
  | read | eof | handle | wake => exact h
  | rawRead k =>
      simp only [readerStep] at h
      split at h
      next data hpc =>
        split at h
        next hk =>
          -- what lies below the end of the file lies in the stream
          have hbytes : ((stream records).drop s.pos).take k = (file.drop s.pos).take k := by
            obtain ⟨rest, hrest⟩ := hfile
            rw [← hrest, List.drop_append_of_le_length (by omega), List.take_append_of_le_length]
            rw [List.length_drop]
            omega
          simp only [TailReader.step, hpc]
          rw [if_pos (by rw [hwritten]; exact hk), hbytes]
          exact h
        next => cases h
      next => cases h

theorem readerStep_written {file : List UInt8} {s s' : TailReader.State} {a : TailReader.Action}
    (h : readerStep file s a = some s') : s'.written = s.written := by
  cases a with
  | append k => cases h
  | read =>
      cases TailReader.step_moved (show TailReader.step [] s .read = some s' from h)
      rfl
  | eof =>
      cases TailReader.step_moved (show TailReader.step [] s .eof = some s' from h)
      rfl
  | handle =>
      cases TailReader.step_moved (show TailReader.step [] s .handle = some s' from h) <;> rfl
  | wake =>
      cases TailReader.step_moved (show TailReader.step [] s .wake = some s' from h)
      rfl
  | rawRead k =>
      simp only [readerStep] at h
      split at h
      · split at h
        · obtain rfl := Option.some.inj h
          rfl
        · cases h
      · cases h

/-- What the reader has done by now it could have done over any records that the file, as it
is now, is a beginning of. -/
theorem reader_reachable {G : Guard (State cfg) (Action cfg)} {s : State cfg}
    (h : (machine cfg now).Reachable G s) (hG : ∀ s a, G s (.reader a) → WholeAtEof s.reader a) :
    s.reader.written = s.logger.file.length ∧ ∀ records, s.logger.file <+: stream records →
      (TailReader.machine records).Reachable WholeAtEof s.reader := by
  refine h.invariant (I := fun s => s.reader.written = s.logger.file.length ∧
    ∀ records, s.logger.file <+: stream records →
      (TailReader.machine records).Reachable WholeAtEof s.reader)
    ⟨rfl, fun records _ => Machine.Reachable.init⟩ ?_
  rintro s a s' - ⟨hwritten, hi⟩ hg hs
  obtain ⟨b, logger, rfl, hlogger, rfl⟩ | ⟨b, reader, rfl, hreader, rfl⟩ := step_cases hs
  · refine ⟨rfl, ?_⟩
    intro records hfile
    have hgrows := file_grows hlogger
    -- to the reader this is an append of so many bytes, perhaps of none
    refine (hi records (hgrows.trans hfile)).step
      (a := .append (logger.file.length - s.logger.file.length)) (by intro h; cases h) ?_
    show TailReader.step records s.reader (.append _) = _
    rw [TailReader.step, hwritten, Nat.add_sub_cancel' hgrows.length_le,
      if_pos hfile.length_le]
  · refine ⟨(readerStep_written hreader).trans hwritten, ?_⟩
    intro records hfile
    exact (hi records hfile).step (hG s b hg) (readerStep_eq hfile hwritten hreader)

/-- If every `::write` appends whole records, no write fails and no end of file is found
inside a record. -/
theorem reachable_aligned {s : State cfg} (hsize : cfg.structSize = structSize)
    (h : (machine cfg now).Reachable WholeWrites s) : (machine cfg now).Reachable Aligned s := by
  refine h.invariant (I := (machine cfg now).Reachable Aligned) Machine.Reachable.init ?_
  intro s a s' hr hi hg hs
  have hwhole : Whole s.logger := by
    refine (logger_reachable (H := fun _ a => ∀ n : Nat, a = .sysWrite n → cfg.structSize ∣ n)
      hr ?_).invariant ⟨Nat.dvd_zero _, Nat.dvd_zero _⟩ ?_
    · intro s a hg n ha
      exact hg n (by rw [ha])
    · intro s a s' hr hi hg hs
      exact step_whole hi (reachable_ownership hr) hg hs
  refine hi.step ?_ hs
  cases a with
  | logger b =>
      show WholeRecordErrors s.logger b
      unfold WholeRecordErrors
      split
      next hw =>
        intro _
        have hwritten := hwhole.written
        rw [hw] at hwritten
        exact hwritten
      next => trivial
  | reader b =>
      intro _
      rw [(reader_reachable hi fun _ _ hg => hg).1, ← hsize]
      exact hwhole.file

/-- The logger's records, for a logger of the reader's record size. -/
def toRecords (hsize : cfg.structSize = structSize) (records : List (Record cfg)) :
    List TailReader.Record :=
  records.map fun r => ⟨r.val, r.property.trans hsize⟩

theorem stream_toRecords (hsize : cfg.structSize = structSize) (records : List (Record cfg)) :
    stream (toRecords hsize records) = bytesOf records := by
  rw [stream, toRecords, List.flatMap_map]
  rfl

theorem exists_values (hsize : cfg.structSize = structSize) (records : List (Record cfg)) :
    ∃ values : List TestData, values.map TestData.bytes = records.map Subtype.val := by
  induction records with
  | nil => exact ⟨[], rfl⟩
  | cons r records ih =>
      obtain ⟨x, hx⟩ := exists_testData (r.property.trans hsize)
      obtain ⟨values, hvalues⟩ := ih
      exact ⟨x :: values, by rw [List.map_cons, List.map_cons, hx, hvalues]⟩

/-- What the reader has made of a file that is the beginning of `records`. -/
theorem reader_account {G : Guard (State cfg) (Action cfg)} {s : State cfg}
    (hsize : cfg.structSize = structSize) (h : (machine cfg now).Reachable G s)
    (hG : ∀ s a, G s (.reader a) → WholeAtEof s.reader a) {records : List (Record cfg)}
    (hfile : s.logger.file <+: bytesOf records) :
    s.reader.pc ≠ .raised ∧
      ∃ values : List TestData, s.reader.yielded = values.map TestData.tuple ∧
        s.logger.file = values.flatMap TestData.bytes ++
          (s.reader.pc.data ++ s.reader.buffer ++ s.logger.file.drop s.reader.pos) ∧
        values.map TestData.bytes = (records.map Subtype.val).take values.length := by
  obtain ⟨hwritten, hreach⟩ := reader_reachable h hG
  rw [← stream_toRecords hsize] at hfile
  have hsynced := TailReader.reachable_synced (hreach _ hfile)
  refine ⟨?_, ?_⟩
  · intro hraised
    have hsteady := hsynced.steady
    rw [hraised] at hsteady
    exact hsteady
  · obtain ⟨values, hvalues⟩ := exists_values hsize records
    have hbytes : (values.take s.reader.yielded.length).map TestData.bytes =
        ((toRecords hsize records).take s.reader.yielded.length).map Subtype.val := by
      rw [List.map_take, hvalues, List.map_take, toRecords, List.map_map]
      rfl
    have hlength : (values.take s.reader.yielded.length).length = s.reader.yielded.length := by
      have hle := hsynced.yielded_le
      rw [toRecords, List.length_map] at hle
      have hsame := congrArg List.length hvalues
      rw [List.length_map, List.length_map] at hsame
      rw [List.length_take]
      omega
    refine ⟨values.take s.reader.yielded.length, ?_, ?_, ?_⟩
    · -- the tuples are compared below `some`
      apply List.map_injective_iff.mpr (Option.some_injective (List Value))
      have htuples := hsynced.tuples
      rw [show (fun r : TailReader.Record => unpack r.val) = unpack ∘ Subtype.val from rfl,
        ← List.map_map, ← hbytes, List.map_map] at htuples
      rw [htuples, List.map_map]
      exact congrArg (List.map · _) (funext unpack_bytes)
    · have htake : s.logger.file.take s.reader.pos =
          (stream (toRecords hsize records)).take s.reader.pos := by
        obtain ⟨rest, hrest⟩ := hfile
        rw [← hrest, List.take_append_of_le_length (hwritten ▸ hsynced.fetched)]
      calc s.logger.file
          = s.logger.file.take s.reader.pos ++ s.logger.file.drop s.reader.pos :=
            (List.take_append_drop _ _).symm
        _ = _ := by
            rw [htake, hsynced.bytes, List.flatMap_def, hbytes, ← List.flatMap_def, stream,
              List.append_assoc]
    · rw [hlength, List.map_take, hvalues]

theorem bytesOf_pending (p : Producer cfg) : bytesOf p.pending = p.appended := by
  have hdata : ∀ data : Option (Record cfg), bytesOf data.toList = recordBytes data := by
    intro data
    cases data with
    | none => rfl
    | some record => exact List.append_nil _
  cases p with
  | idle | destroy => rfl
  | write pc =>
      cases pc with
      | readClock data | checkThreshold data => exact hdata data
      | _ => rfl
  | flush caller pc =>
      cases caller with
      | write data => exact hdata data
      | _ => rfl

/-- If `::write` never fails, the file is a beginning of what was accepted. -/
theorem file_leads {s : LogStruct.State cfg}
    (h : (LogStruct.machine cfg now).Reachable PositiveWrites s) :
    s.file <+: bytesOf (accepted s ++ s.producer.pending) := by
  have hc : Content s := h.invariant (content_start cfg now) fun hr hi hg hs =>
    step_content hi (reachable_ownership hr) hg hs
  rw [bytesOf_append, bytesOf_pending]
  have hbytes := hc.bytes
  rw [List.append_assoc] at hbytes
  exact ⟨_, hbytes⟩

/-- **The reader follows the logger.** In every run of the logger beside the reader in
which `::write` fails, and the reader finds the end of the file, only between two records:
the reader never raises; the tuples it has yielded are structs given to `write()`, in the
order of the calls and each at most once; and the file is these structs followed by what
the reader has in hand and what it has not read. If no `::write` failed, they are the first
structs that were accepted. A struct may be read before its `write()`, which can only return
true, has returned. -/
theorem followed_in_order {cfg : Config} {now : Int} {s : State cfg}
    (hsize : cfg.structSize = structSize) (h : (machine cfg now).Reachable Aligned s) :
    s.reader.pc ≠ .raised ∧
      ∃ values : List TestData, s.reader.yielded = values.map TestData.tuple ∧
        s.logger.file = values.flatMap TestData.bytes ++
          (s.reader.pc.data ++ s.reader.buffer ++ s.logger.file.drop s.reader.pos) ∧
        (values.map TestData.bytes).Sublist
          ((accepted s.logger ++ s.logger.producer.pending).map Subtype.val) ∧
        ((machine cfg now).Reachable AlignedProgress s → values.map TestData.bytes <+:
          (accepted s.logger ++ s.logger.producer.pending).map Subtype.val) := by
  obtain ⟨inFile, handed, inActive, hsplit⟩ :=
    reachable_split (logger_reachable (H := WholeRecordErrors) h fun _ _ hg => hg)
  have hfile : s.logger.file <+: bytesOf (inFile ++ handed) := by
    rw [hsplit.fileBytes, bytesOf_append, List.prefix_append_right_inj]
    exact List.take_prefix _ _
  obtain ⟨hraised, values, htuples, hbytes, htake⟩ :=
    reader_account hsize h (fun _ _ hg => hg) hfile
  refine ⟨hraised, values, htuples, hbytes, ?_, ?_⟩
  · have hsub : (inFile ++ handed).Sublist (accepted s.logger ++ s.logger.producer.pending) :=
      (List.sublist_append_left _ _).trans hsplit.order
    rw [htake]
    exact (List.take_sublist _ _).trans (hsub.map Subtype.val)
  · intro hp
    have hpos := logger_reachable (H := PositiveWrites) hp fun _ a hg => hg.2 a rfl
    obtain ⟨-, values', htuples', -, htake'⟩ :=
      reader_account hsize hp (fun _ _ hg => hg.1) (file_leads hpos)
    -- both accounts are about the same tuples
    obtain rfl : values' = values := by
      apply List.map_injective_iff.mpr TestData.tuple_injective
      rw [← htuples', ← htuples]
    rw [htake']
    exact List.take_prefix _ _

/-- Buffers that hold one `TestData`. -/
def oneStruct : Config := ⟨88, 1, 1000, by decide⟩

/-- The first object of the test's loop, at time zero. -/
def firstStruct : TestData :=
  ⟨0, 0, 0x3ff0000000000000, 0x4000000000000000, 0x4008000000000000, 0x4010000000000000,
    0x4014000000000000, 0, 0, 0, 0⟩

/-- One `write()` fills the buffer and hands it over, and the worker writes the first piece. -/
def writeFirstPiece : List (LogStruct.Action oneStruct) :=
  [.call (.write (some ⟨firstStruct.bytes, firstStruct.length_bytes⟩)), .producer, .producer,
    .producer, .clock 0] ++ List.replicate 9 .producer ++ List.replicate 4 .worker ++
    [.sysWrite 40]

/-- The reader is in the middle of the struct when the second piece comes. -/
theorem followed_in_order_two_pieces :
    ∃ s : State oneStruct, (machine oneStruct 0).Reachable Aligned s ∧
      s.reader.yielded = [firstStruct.tuple] ∧ s.reader.pc ≠ .raised ∧
      ∃ values : List TestData, s.reader.yielded = values.map TestData.tuple ∧
        (values.map TestData.bytes).Sublist
          ((accepted s.logger ++ s.logger.producer.pending).map Subtype.val) := by
  obtain ⟨s, hs, hp⟩ := Machine.reachable_of_execWithin (M := machine oneStruct 0)
    (G := Aligned)
    (l := writeFirstPiece.map .logger ++ [.reader .read, .reader (.rawRead 40),
      .logger (.sysWrite 48), .reader (.rawRead 48), .reader .handle])
    (p := fun s => decide (s.reader.yielded = [firstStruct.tuple])) (by decide +kernel)
  obtain ⟨hraised, values, htuples, -, hsub, -⟩ := followed_in_order rfl hs
  exact ⟨s, hs, of_decide_eq_true hp, hraised, values, htuples, hsub⟩

end CppCode.LogStruct.Follow
