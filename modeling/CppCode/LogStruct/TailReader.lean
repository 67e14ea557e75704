import CppCode.Bytes.Stream
import CppCode.Concurrency.Machine

/-!
# CppCode.LogStruct.TailReader

**Following the file while it grows.** `analyze_bin.py` reads the log record by record,
sleeps when `f.read(struct_size)` returns nothing and tries again. It runs beside the
logger, which appends its records in pieces that `::write` may cut anywhere.

* The file is the byte stream of a list of records, of which so many bytes have been
  appended (`State.written`).
* `f` is a buffered reader: `f.read(n)` takes what is buffered and then asks the raw file
  again and again until it has `n` bytes or the raw file is at its end. What it has got by
  then is what it returns, which may be *part* of a record. A raw read returns any number
  of the bytes that are there; the size of the buffer only bounds that number.
* `unpack` refuses every length but `struct_size` (`struct.error`), so the reader dies on
  the part of a record (`partial_record_raises`, `half_record_raises`).

If the raw file is at its end only between two records, the reader never dies and has
yielded exactly the first records (`tuples_of_first_records`). The invariant (`Synced`)
says that what was fetched is the yielded records followed by the bytes still in hand.
-/

namespace CppCode.LogStruct.TailReader

open Concurrency

/-! ### The record format -/

/-- The format characters in use: `long long` and `double`, in standard size. -/
inductive Format
  | q
  | d
  deriving Repr, DecidableEq

def Format.size : Format → Nat
  | .q => 8
  | .d => 8

/-- `FIELDS`. -/
def fields : List (String × Format) :=
  [("timestamp", .q), ("a", .q), ("b", .d), ("c", .d), ("d", .d), ("e", .d), ("f", .d),
    ("g", .d), ("h", .d), ("i", .d), ("j", .d)]

/-- `struct_fmt`, whose `<` asks for little-endian fields without padding. -/
def structFmt : List Format := fields.map Prod.snd

def structSize : Nat := (structFmt.map Format.size).sum

theorem structSize_pos : 0 < structSize := by decide

/-- A field of an unpacked tuple; a `double` is given by its bits. -/
inductive Value
  | int (i : Int)
  | double (bits : BitVec 64)
  deriving Repr, DecidableEq

def littleEndian (bytes : List UInt8) : Nat := bytes.foldr (fun b n => b.toNat + 256 * n) 0

def Format.value (bytes : List UInt8) : Format → Value
  | .q => .int (BitVec.ofNat 64 (littleEndian bytes)).toInt
  | .d => .double (BitVec.ofNat 64 (littleEndian bytes))

/-- The fields, one behind the other. -/
def decode : List Format → List UInt8 → List Value
  | [], _ => []
  | f :: fs, bytes => f.value (bytes.take f.size) :: decode fs (bytes.drop f.size)

/-- `struct_unpack.unpack(data)`; `none` is `struct.error`. -/
def unpack (data : List UInt8) : Option (List Value) :=
  if data.length = structSize then some (decode structFmt data) else none

/-- What the logger appends. -/
abbrev Record := { bytes : List UInt8 // bytes.length = structSize }

/-- The file once all records are in it. -/
def stream (records : List Record) : List UInt8 := records.flatMap Subtype.val

theorem length_stream (records : List Record) :
    (stream records).length = structSize * records.length :=
  Bytes.length_flatMap (fun record => record.property) records

/-! ### The reader -/

/-- Positions in the loop of `analyze_bin`. -/
inductive Pc
  /-- At the top of the loop. -/
  | top
  /-- Inside `f.read(struct_size)`, which has collected `data`. -/
  | reading (data : List UInt8)
  /-- `f.read` has returned `data`. -/
  | returned (data : List UInt8)
  | sleeping
  /-- `struct.error` has left the generator. -/
  | raised
  deriving Repr, DecidableEq

/-- The bytes that a read in progress, or its return, has in hand. -/
def Pc.data : Pc → List UInt8
  | .reading data | .returned data => data
  | .top | .sleeping | .raised => []

structure State where
  /-- So many bytes have been appended to the file. -/
  written : Nat
  /-- The position of the raw file. -/
  pos : Nat
  buffer : List UInt8
  pc : Pc
  yielded : List (List Value)
  deriving Repr, DecidableEq

inductive Action
  /-- The logger appends the next `k` bytes. -/
  | append (k : Nat)
  /-- The reader enters `f.read`. -/
  | read
  /-- A raw read returns `k` bytes. -/
  | rawRead (k : Nat)
  /-- A raw read finds the end of the file. -/
  | eof
  /-- The reader handles what `f.read` has returned. -/
  | handle
  /-- `time.sleep` is over. -/
  | wake
  deriving Repr, DecidableEq

/-- An open, empty file and a reader at its beginning. -/
def State.start : State where
  written := 0
  pos := 0
  buffer := []
  pc := .top
  yielded := []

/-- `f.read` moves what it still needs of `bytes` to its result; the rest stays in the
buffer. -/
def State.collect (s : State) (data bytes : List UInt8) : State :=
  let missing := structSize - data.length
  let data := data ++ bytes.take missing
  { s with
    buffer := bytes.drop missing
    pc := if data.length = structSize then .returned data else .reading data }

/-- The body of the loop behind `f.read`. -/
def State.handle (s : State) (data : List UInt8) : State :=
  if data = [] then { s with pc := .sleeping }
  else
    match unpack data with
    | some tuple => { s with yielded := s.yielded ++ [tuple], pc := .top }
    | none => { s with pc := .raised }

/-- One step of the logger or the reader. -/
def step (records : List Record) (s : State) : Action → Option State
  | .append k =>
      if s.written + k ≤ (stream records).length then some { s with written := s.written + k }
      else none
  | .read =>
      match s.pc with
      | .top => some (s.collect [] s.buffer)
      | _ => none
  | .rawRead k =>
      match s.pc with
      | .reading data =>
          if 0 < k ∧ s.pos + k ≤ s.written then
            some ({ s with pos := s.pos + k }.collect data
              (s.buffer ++ ((stream records).drop s.pos).take k))
          else none
      | _ => none
  | .eof =>
      match s.pc with
      | .reading data => if s.written ≤ s.pos then some { s with pc := .returned data } else none
      | _ => none
  | .handle =>
      match s.pc with
      | .returned data => some (s.handle data)
      | _ => none
  | .wake =>
      match s.pc with
      | .sleeping => some { s with pc := .top }
      | _ => none

/-- The logger, about to append `records`, and the reader. -/
def machine (records : List Record) : Machine State Action where
  init := .start
  step := step records

/-- A raw read finds the end of the file only when whole records have been appended. -/
def WholeAtEof : Guard State Action := fun s a => a = .eof → structSize ∣ s.written

instance (s : State) (a : Action) : Decidable (WholeAtEof s a) :=
  inferInstanceAs (Decidable (_ → _))

/-! ### What a step can do -/

/-- A step, one constructor for each branch. -/
inductive Moved (records : List Record) (s : State) : Action → State → Prop
  | appended {k : Nat} (hk : s.written + k ≤ (stream records).length) :
      Moved records s (.append k) { s with written := s.written + k }
  | begun (hpc : s.pc = .top) : Moved records s .read (s.collect [] s.buffer)
  | fetched {k : Nat} {data : List UInt8} (hpc : s.pc = .reading data)
      (hk : s.pos + k ≤ s.written) :
      Moved records s (.rawRead k) ({ s with pos := s.pos + k }.collect data
        (s.buffer ++ ((stream records).drop s.pos).take k))
  | ended {data : List UInt8} (hpc : s.pc = .reading data) (hw : s.written ≤ s.pos) :
      Moved records s .eof { s with pc := .returned data }
  | slept (hpc : s.pc = .returned []) : Moved records s .handle { s with pc := .sleeping }
  | unpacked {data : List UInt8} {tuple : List Value} (hpc : s.pc = .returned data)
      (hu : unpack data = some tuple) :
      Moved records s .handle { s with yielded := s.yielded ++ [tuple], pc := .top }
  | raised {data : List UInt8} (hpc : s.pc = .returned data) (hdata : data ≠ [])
      (hu : unpack data = none) : Moved records s .handle { s with pc := .raised }
  | woke (hpc : s.pc = .sleeping) : Moved records s .wake { s with pc := .top }

variable {records : List Record} {s s' : State}

theorem handle_moved {data : List UInt8} (hpc : s.pc = .returned data) :
    Moved records s .handle (s.handle data) := by
  unfold State.handle
  split
  · subst data
    exact .slept hpc
  · split
    · exact .unpacked hpc ‹_›
    · exact .raised hpc ‹_› ‹_›

/-- **Inversion.** Every step is one of the branches listed in `Moved`. -/
theorem step_moved {a : Action} (h : step records s a = some s') : Moved records s a s' := by
  cases a with
  | append k =>
      simp only [step] at h
      split at h
      · obtain rfl := Option.some.inj h
        exact .appended ‹_›
      · cases h
  | read =>
      simp only [step] at h
      split at h
      · obtain rfl := Option.some.inj h
        exact .begun ‹_›
      · cases h
  | rawRead k =>
      simp only [step] at h
      split at h
      · split at h
        · obtain rfl := Option.some.inj h
          exact .fetched ‹_› (And.right ‹_›)
        · cases h
      · cases h
  | eof =>
      simp only [step] at h
      split at h
      · split at h
        · obtain rfl := Option.some.inj h
          exact .ended ‹_› ‹_›
        · cases h
      · cases h
  | handle =>
      simp only [step] at h
      split at h
      · obtain rfl := Option.some.inj h
        exact handle_moved ‹_›
      · cases h
  | wake =>
      simp only [step] at h
      split at h
      · obtain rfl := Option.some.inj h
        exact .woke ‹_›
      · cases h

/-! ### The reader stays in step -/

/-- What the position of the reader promises about its bytes. -/
def Pc.Steady (buffer : List UInt8) : Pc → Prop
  | .top | .sleeping => True
  | .reading data => data.length < structSize ∧ buffer = []
  | .returned data => data.length = structSize ∨ data = []
  | .raised => False

/-- What was fetched is the records yielded, followed by the bytes in hand. -/
structure Synced (records : List Record) (s : State) : Prop where
  appended : s.written ≤ (stream records).length
  fetched : s.pos ≤ s.written
  tuples : s.yielded.map some = (records.take s.yielded.length).map fun r => unpack r.val
  bytes : (stream records).take s.pos =
    stream (records.take s.yielded.length) ++ (s.pc.data ++ s.buffer)
  steady : s.pc.Steady s.buffer

theorem Synced.yielded_le (h : Synced records s) : s.yielded.length ≤ records.length := by
  have hlength := congrArg List.length h.tuples
  rw [List.length_map, List.length_map, List.length_take] at hlength
  omega

/-- The position of the raw file, counted in records and bytes in hand. -/
theorem Synced.pos_eq (h : Synced records s) :
    s.pos = structSize * s.yielded.length + (s.pc.data.length + s.buffer.length) := by
  have hlength := congrArg List.length h.bytes
  rw [List.length_take, Nat.min_eq_left (h.fetched.trans h.appended), List.length_append,
    List.length_append, length_stream, List.length_take, Nat.min_eq_left h.yielded_le] at hlength
  exact hlength

/-- The reader moves on with the same bytes in hand. -/
theorem Synced.goto (h : Synced records s) {pc : Pc} (hdata : pc.data = s.pc.data)
    (hsteady : pc.Steady s.buffer) : Synced records { s with pc := pc } :=
  ⟨h.appended, h.fetched, h.tuples, by rw [hdata]; exact h.bytes, hsteady⟩

/-- `f.read` moves bytes from the buffer to its result; none is lost. -/
theorem Synced.collect (h : Synced records s) {pos : Nat} {data bytes : List UInt8}
    (hpos : pos ≤ s.written) (hdata : data.length < structSize)
    (hbytes : (stream records).take pos =
      stream (records.take s.yielded.length) ++ (data ++ bytes)) :
    Synced records ({ s with pos := pos }.collect data bytes) := by
  have hparts : data ++ bytes = data ++ bytes.take (structSize - data.length) ++
      bytes.drop (structSize - data.length) := by
    rw [List.append_assoc, List.take_append_drop]
  rw [hparts] at hbytes
  have hsize : (data ++ bytes.take (structSize - data.length)).length ≤ structSize := by
    rw [List.length_append, List.length_take]
    omega
  constructor
  case appended => exact h.appended
  case fetched => exact hpos
  case tuples => exact h.tuples
  case bytes =>
    rw [State.collect]
    split
    · exact hbytes
    · exact hbytes
  case steady =>
    rw [State.collect]
    split
    next hfull => exact .inl hfull
    next hshort =>
      refine ⟨Nat.lt_of_le_of_ne hsize hshort, List.drop_eq_nil_of_le ?_⟩
      -- fewer bytes than were missing: all of them were moved
      rw [List.length_append, List.length_take] at hshort
      omega

/-- A whole record is unpacked: it is the next one. -/
theorem Synced.unpacks (h : Synced records s) {data : List UInt8} {tuple : List Value}
    (hpc : s.pc = .returned data) (hu : unpack data = some tuple) :
    Synced records { s with yielded := s.yielded ++ [tuple], pc := .top } := by
  have hsize : data.length = structSize := by
    by_contra hne
    rw [unpack, if_neg hne] at hu
    cases hu
  have hbytes := h.bytes
  rw [hpc] at hbytes
  obtain ⟨record, hrecord, rfl⟩ := Bytes.record_of_take_flatMap (fun r : Record => r.property)
    structSize_pos h.yielded_le hsize hbytes
  have htake : records.take (s.yielded ++ [tuple]).length =
      records.take s.yielded.length ++ [record] := by
    rw [List.length_append, List.length_singleton, List.take_add_one, hrecord]
    rfl
  constructor
  case appended => exact h.appended
  case fetched => exact h.fetched
  case tuples =>
    rw [htake, List.map_append, List.map_append, h.tuples]
    simp only [List.map_cons, List.map_nil, hu]
  case bytes =>
    rw [htake, hbytes, stream, stream, List.flatMap_append, List.flatMap_singleton,
      List.append_assoc]
    rfl
  case steady => trivial

/-- At the end of a file of whole records nothing is in hand. -/
theorem Synced.data_eq_nil (h : Synced records s) {data : List UInt8}
    (hpc : s.pc = .reading data) (hw : s.written ≤ s.pos) (hg : structSize ∣ s.written) :
    data = [] := by
  have hsteady := h.steady
  have hpos := h.pos_eq
  rw [hpc] at hsteady hpos
  obtain ⟨hshort, hbuffer⟩ := hsteady
  rw [hbuffer, List.length_nil, Nat.add_zero] at hpos
  have hwritten : s.written = structSize * s.yielded.length + data.length :=
    (Nat.le_antisymm hw h.fetched).trans hpos
  rw [hwritten, Nat.dvd_add_right (Nat.dvd_mul_right _ _)] at hg
  exact List.eq_nil_of_length_eq_zero (Nat.eq_zero_of_dvd_of_lt hg hshort)

theorem Moved.synced {a : Action} (hm : Moved records s a s') (hg : WholeAtEof s a)
    (h : Synced records s) : Synced records s' := by
  cases hm with
  | appended hk => exact ⟨hk, h.fetched.trans (Nat.le_add_right _ _), h.tuples, h.bytes, h.steady⟩
  | begun hpc =>
      have hbytes := h.bytes
      rw [hpc] at hbytes
      exact h.collect h.fetched structSize_pos hbytes
  | fetched hpc hk =>
      have hbytes := h.bytes
      have hsteady := h.steady
      rw [hpc] at hbytes hsteady
      refine h.collect hk hsteady.1 ?_
      rw [List.take_add, hbytes, List.append_assoc, List.append_assoc]
      rfl
  | ended hpc hw =>
      obtain rfl := h.data_eq_nil hpc hw (hg rfl)
      exact h.goto (by rw [hpc]; rfl) (.inr rfl)
  | slept hpc => exact h.goto (by rw [hpc]; rfl) trivial
  | unpacked hpc hu => exact h.unpacks hpc hu
  | raised hpc hdata hu =>
      -- what `f.read` returned is a whole record or nothing
      have hsteady := h.steady
      rw [hpc] at hsteady
      rcases hsteady with hsize | hnil
      · rw [unpack, if_pos hsize] at hu
        cases hu
      · exact absurd hnil hdata
  | woke hpc => exact h.goto (by rw [hpc]; rfl) trivial

theorem reachable_synced (h : (machine records).Reachable WholeAtEof s) : Synced records s := by
  refine h.invariant ⟨Nat.zero_le _, Nat.le_refl _, rfl, rfl, trivial⟩ ?_
  intro s a s' _ hi hg hs
  exact (step_moved hs).synced hg hi

/-- **The tail reader decodes what was written.** In every run in which a raw read finds
the end of the file only when whole records have been appended: the reader never raises,
and it has yielded the unpacking of the first `k` records, all of which are in the file. -/
theorem tuples_of_first_records {records : List Record} {s : State}
    (h : (machine records).Reachable WholeAtEof s) :
    s.pc ≠ .raised ∧ ∃ k, k * structSize ≤ s.written ∧
      s.yielded.map some = (records.take k).map fun r => unpack r.val := by
  have hsynced := reachable_synced h
  refine ⟨?_, s.yielded.length, ?_, hsynced.tuples⟩
  · intro hraised
    have hsteady := hsynced.steady
    rw [hraised] at hsteady
    exact hsteady
  · have hpos := hsynced.pos_eq
    have hfetched := hsynced.fetched
    rw [Nat.mul_comm]
    omega

/-- The condition is exact: at the first end of file inside a record, `f.read` returns the
part that is there and the reader raises. -/
theorem partial_record_raises (h : (machine records).Reachable WholeAtEof s)
    (hs : step records s .eof = some s') (hpart : ¬ structSize ∣ s.written) :
    ∃ s'', step records s' .handle = some s'' ∧ s''.pc = .raised := by
  have hsynced := reachable_synced h
  have hm := step_moved hs
  cases hm with
  | @ended data hpc hw =>
      have hsteady := hsynced.steady
      have hpos := hsynced.pos_eq
      rw [hpc] at hsteady hpos
      have hne : data ≠ [] := by
        rintro rfl
        refine hpart ⟨s.yielded.length, ?_⟩
        rw [hsteady.2] at hpos
        exact (Nat.le_antisymm hw hsynced.fetched).trans hpos
      refine ⟨_, rfl, ?_⟩
      rw [State.handle, if_neg hne, unpack, if_neg (Nat.ne_of_lt hsteady.1)]

/-- A record of zeros. -/
def zeros : Record := ⟨List.replicate structSize 0, List.length_replicate⟩

/-- A record that arrives in two pieces while `f.read` is at it. -/
theorem tuples_of_first_records_two_pieces :
    ∃ s, (machine [zeros, zeros]).Reachable WholeAtEof s ∧ s.yielded.length = 1 ∧
      s.pc ≠ .raised ∧ ∃ k, k * structSize ≤ s.written ∧
        s.yielded.map some = ([zeros, zeros].take k).map fun r => unpack r.val := by
  obtain ⟨s, hs, hp⟩ := Machine.reachable_of_execWithin (M := machine [zeros, zeros])
    (G := WholeAtEof)
    (l := [Action.append 40, .read, .rawRead 40, .append 48, .rawRead 48, .handle])
    (p := fun s => decide (s.yielded.length = 1)) (by decide +kernel)
  exact ⟨s, hs, of_decide_eq_true hp, tuples_of_first_records hs⟩

/-- Half a record is in the file when the reader looks: `struct.error`. -/
theorem half_record_raises :
    ∃ s, (machine [zeros]).Reachable Machine.free s ∧ s.pc = .raised := by
  obtain ⟨s, hs, hp⟩ := Machine.reachable_of_exec (M := machine [zeros])
    (l := [Action.append 40, .read, .rawRead 40, .eof, .handle])
    (p := fun s => decide (s.pc = .raised)) (by decide)
  exact ⟨s, hs, of_decide_eq_true hp⟩

end CppCode.LogStruct.TailReader
