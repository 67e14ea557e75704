import CppCode.Bytes.Objects
import CppCode.ControlSlot.Model
import CppCode.Segments.Target
import Mathlib.Data.List.Nodup

/-!
# CppCode.SharedMemory.Model

The three programs of `iceoryx/003.relative_pointer` on the bytes they share. Roudi has created
the segments and cleared them; any number of senders and one receiver have mapped them, each at
addresses of its own, and every access goes from a pointer of the process through its registry
and its mapping to a byte of a segment.

`CppCode.ControlSlot` has the same steps on words that are named by segment and offset, and
`CppCode.Segments` the pointers and the checks. Here both come together.

* Every entry of Roudi's list is a shared memory object of its own: the names of the segments are
  all different.
* The eight bytes of an access are one step, as they are aligned.
* An access to an address behind which there is no segment is a `fault`. What the process does
  to its own memory there, or whether it is killed, is not part of the model: nothing follows.
* `std::out_of_range` from the registry is caught by the receiver and by nobody in a sender.
-/

namespace CppCode.SharedMemory

open Concurrency Bytes Segments
open ControlSlot (SenderPc ReceiverPc)

/-- A sender that has passed its checks and mapped the segments. -/
structure Sender (segments : List SegmentInfo) where
  mapping : Mapping segments
  targetInfo : SegmentInfo
  offset : UInt64
  value : Int64
  pc : SenderPc

structure State (segments : List SegmentInfo) where
  /-- The bytes of the segments, by their places in the list. -/
  memory : Objects Nat
  /-- Every sender that was started, in that order. -/
  senders : List (Sender segments)
  receiver : ReceiverPc
  /-- The values that the receiver has printed. -/
  printed : List Int64
  /-- A process has left the segments. -/
  fault : Bool

inductive Action (segments : List SegmentInfo)
  | start (dataSegIdx : UInt32) (offset : UInt64) (value : Int64) (mapping : Mapping segments)
  /-- The `i`-th sender takes its next step. -/
  | sender (i : Nat)
  | receiver

variable {segments : List SegmentInfo}

/-- `createSegment` clears every segment. -/
def State.start : State segments where
  memory := fun _ _ => 0
  senders := []
  receiver := .poll
  printed := []
  fault := false

/-! ### Accesses -/

/-- What a process has behind an address. -/
def view (mapping : Mapping segments) : View Nat := fun a =>
  (segments.zipIdx.find? fun (info, i) => (a - mapping.base i).toNat < info.size.toNat).map
    fun (_, i) => (i, (a - mapping.base i).toNat)

/-- A field of the control message, at the base of the control segment. -/
def controlAddress (mapping : Mapping segments) (field : UInt64) : Option UInt64 :=
  match findControlSegment segments with
  | some ctrlInfo => (registerAll segments mapping.base ctrlInfo.id).map (· + field)
  | none => none

/-- The place the sender writes its value to. -/
def Sender.dataAddress (d : Sender segments) : Option UInt64 :=
  (senderPointer d.targetInfo d.offset).get (registerAll segments d.mapping.base)

def State.load (s : State segments) (mapping : Mapping segments) (address : Option UInt64) :
    Option UInt64 :=
  address.bind ((view mapping).load s.memory)

def State.store (s : State segments) (mapping : Mapping segments) (address : Option UInt64)
    (v : UInt64) : Option (State segments) :=
  (address.bind ((view mapping).store s.memory · v)).map fun memory => { s with memory := memory }

/-- The state after an access, if there was one. -/
def State.orFault (s : State segments) : Option (State segments) → State segments
  | some s' => s'
  | none => { s with fault := true }

/-! ### Steps -/

/-- The `i`-th sender goes on to `pc`. -/
def State.goto (s : State segments) (i : Nat) (d : Sender segments) (pc : SenderPc) :
    State segments :=
  { s with senders := s.senders.set i { d with pc := pc } }

/-- A store of a sender, which then goes on to `pc`. -/
def State.senderStore (s : State segments) (i : Nat) (d : Sender segments)
    (address : Option UInt64) (v : UInt64) (pc : SenderPc) : State segments :=
  s.orFault ((s.store d.mapping address v).map fun s => s.goto i d pc)

def senderStep (s : State segments) (i : Nat) (d : Sender segments) : Option (State segments) :=
  match d.pc with
  | .storeData => some (s.senderStore i d d.dataAddress d.value.toUInt64 .waitReady)
  | .waitReady =>
      match s.load d.mapping (controlAddress d.mapping 0) with
      | some ready => if ready = 0 then some (s.goto i d .writeSegment) else none
      | none => some { s with fault := true }
  | .writeSegment =>
      some (s.senderStore i d (controlAddress d.mapping 8) d.targetInfo.id .writeOffset)
  | .writeOffset => some (s.senderStore i d (controlAddress d.mapping 16) d.offset .storeReady)
  | .storeReady => some (s.senderStore i d (controlAddress d.mapping 0) 1 .exited)
  | .exited => none

/-- The receiver clears a field of the control message. -/
def State.clear (s : State segments) (mapping : Mapping segments) (field : UInt64)
    (pc : ReceiverPc) : State segments :=
  s.orFault ((s.store mapping (controlAddress mapping field) 0).map fun s =>
    { s with receiver := pc })

def receiverStep (mapping : Mapping segments) (s : State segments) : State segments :=
  match s.receiver with
  | .poll =>
      match s.load mapping (controlAddress mapping 0) with
      | some ready => if ready = 0 then s else { s with receiver := .readSegment }
      | none => { s with fault := true }
  | .readSegment =>
      match s.load mapping (controlAddress mapping 8) with
      | some segId => { s with receiver := .readOffset segId }
      | none => { s with fault := true }
  | .readOffset segId =>
      match s.load mapping (controlAddress mapping 16) with
      | some off => { s with receiver := .load segId off }
      | none => { s with fault := true }
  | .load segId off =>
      match (receiverPointer ⟨segId, off⟩).get (registerAll segments mapping.base) with
      | some address =>
          match s.load mapping (some address) with
          | some v => { s with receiver := .clearSegment, printed := s.printed ++ [v.toInt64] }
          | none => { s with fault := true }
      | none => { s with receiver := .clearSegment }
  | .clearSegment => s.clear mapping 8 .clearOffset
  | .clearOffset => s.clear mapping 16 .clearReady
  | .clearReady => s.clear mapping 0 .poll

/-- A sender whose arguments pass the checks starts. -/
def startStep (s : State segments) (dataSegIdx : UInt32) (offset : UInt64) (value : Int64)
    (mapping : Mapping segments) : Option (State segments) :=
  match checkArguments segments dataSegIdx offset value with
  | .ok (targetInfo, _) =>
      some { s with senders := s.senders ++ [⟨mapping, targetInfo, offset, value, .storeData⟩] }
  | .error _ => none

/-- One step of the whole system; `mapping` is the one of the receiver. -/
def step (mapping : Mapping segments) (s : State segments) :
    Action segments → Option (State segments)
  | .start dataSegIdx offset value sender =>
      if s.fault then none else startStep s dataSegIdx offset value sender
  | .sender i =>
      if s.fault then none
      else
        match s.senders[i]? with
        | some d => senderStep s i d
        | none => none
  | .receiver => if s.fault then none else some (receiverStep mapping s)

def machine (mapping : Mapping segments) : Machine (State segments) (Action segments) where
  init := .start
  step := step mapping

/-! ### Segments as Roudi creates them -/

/-- What every list of Roudi is like: one control segment, which has the id `0`, and segments
of one size with room for the control message. The number of segments is sent as a `uint32_t`.
(The names are different, too; nothing reads them once the segments are mapped.) -/
structure Layout (segments : List SegmentInfo) (size : Nat) : Prop where
  count : segments.length < 2 ^ 32
  control : ∃ info ∈ segments, info.isControl ≠ 0
  ids : ∀ (i j : Nat) (info info' : SegmentInfo), segments[i]? = some info →
    segments[j]? = some info' → info.id = info'.id → i = j
  zero : ∀ info ∈ segments, info.isControl ≠ 0 ↔ info.id = 0
  sizes : ∀ info ∈ segments, info.size.toNat = size
  room : 24 ≤ size

theorem layout_roudiSegments : Layout roudiSegments 4096 where
  count := by decide
  control := ⟨controlSegment, by simp [roudiSegments], by decide⟩
  ids := by
    intro i j info info' hi hj hid
    have hnodup : (roudiSegments.map SegmentInfo.id).Nodup := by decide
    have hi' : (roudiSegments.map SegmentInfo.id)[i]? = some info.id := by simp [hi]
    have hj' : (roudiSegments.map SegmentInfo.id)[j]? = some info.id := by simp [hj, hid]
    obtain ⟨hilt, hieq⟩ := List.getElem?_eq_some_iff.mp hi'
    obtain ⟨hjlt, hjeq⟩ := List.getElem?_eq_some_iff.mp hj'
    exact (List.Nodup.getElem_inj_iff hnodup).mp (hieq.trans hjeq.symm)
  zero := by decide
  sizes := by decide
  room := by decide

/-! ### What a mapping shows -/

theorem toNat_sub_lt_iff {a b : UInt64} {n : Nat} (h : b.toNat + n ≤ addressLimit) :
    (a - b).toNat < n ↔ b.toNat ≤ a.toNat ∧ a.toNat < b.toNat + n := by
  have ha := a.toNat_lt
  rw [addressLimit] at h
  rw [UInt64.toNat_sub]
  omega

/-- The bytes of a segment are where the process has mapped it. -/
theorem view_shows (mapping : Mapping segments) {i off n : Nat} {info : SegmentInfo}
    (hi : segments[i]? = some info) (hoff : off + n ≤ info.size.toNat) :
    (view mapping).Shows (mapping.base i + UInt64.ofNat off) i off n := by
  intro k hk
  have hlimit := (mapping.fits i info hi).2
  have hsize := info.size.toNat_lt
  have haddress : mapping.base i + UInt64.ofNat off + UInt64.ofNat k =
      mapping.base i + UInt64.ofNat (off + k) := by
    rw [UInt64.ofNat_add, UInt64.add_assoc]
  rw [haddress]
  have hdistance : (mapping.base i + UInt64.ofNat (off + k) - mapping.base i).toNat = off + k :=
    toNat_offset _ (by omega)
  generalize mapping.base i + UInt64.ofNat (off + k) = a at hdistance ⊢
  have hin : (a - mapping.base i).toNat < info.size.toNat := by omega
  -- no other segment is mapped there
  have hfind : segments.zipIdx.find? (fun (info, i) =>
      decide ((a - mapping.base i).toNat < info.size.toNat)) = some (info, i) := by
    cases hfound : segments.zipIdx.find? (fun (info, i) =>
        decide ((a - mapping.base i).toNat < info.size.toNat)) with
    | none =>
        have hnone := List.find?_eq_none.mp hfound (info, i)
          (List.mem_zipIdx_iff_getElem?.mpr hi)
        simp [hin] at hnone
    | some found =>
        obtain ⟨info', j⟩ := found
        have hj := List.mem_zipIdx_iff_getElem?.mp (List.mem_of_find?_eq_some hfound)
        have hin' := List.find?_some hfound
        simp only [decide_eq_true_eq] at hin' hj
        have hbounds := (toNat_sub_lt_iff (mapping.fits i info hi).2).mp hin
        have hbounds' := (toNat_sub_lt_iff (mapping.fits j info' hj).2).mp hin'
        rcases Nat.lt_trichotomy i j with hlt | rfl | hlt
        · rcases mapping.apart i j info info' hlt hi hj with h | h <;> omega
        · rw [hi] at hj
          cases hj
          rfl
        · rcases mapping.apart j i info' info hlt hj hi with h | h <;> omega
  rw [view, hfind]
  exact congrArg (fun distance => some (i, distance)) hdistance

/-! ### Accesses to a known segment -/

section Access

variable {size : Nat} (hlayout : Layout segments size)
include hlayout

theorem Layout.registered {i : Nat} {info : SegmentInfo} (hi : segments[i]? = some info)
    (mapping : Mapping segments) :
    registerAll segments mapping.base info.id = some (mapping.base i) := by
  obtain ⟨j, info', -, hj, hid, hbase, -⟩ := registerAll_target hi mapping.base
  rw [hbase, hlayout.ids j i info' info hj hi hid]

/-- The place of the control segment. -/
theorem Layout.exists_control :
    ∃ (c : Nat) (ctrlInfo : SegmentInfo), segments[c]? = some ctrlInfo ∧ ctrlInfo.id = 0 ∧
      findControlSegment segments = some ctrlInfo := by
  obtain ⟨info, hmem, hcontrol⟩ := hlayout.control
  cases hfound : findControlSegment segments with
  | none =>
      have hnone := List.find?_eq_none.mp hfound info hmem
      simp [hcontrol] at hnone
  | some ctrlInfo =>
      have hmem' := List.mem_of_find?_eq_some hfound
      have hcontrol' := List.find?_some hfound
      obtain ⟨c, hc⟩ := List.getElem?_of_mem hmem'
      refine ⟨c, ctrlInfo, hc, ?_, rfl⟩
      exact (hlayout.zero ctrlInfo hmem').mp (by simpa using hcontrol')

theorem Layout.size_eq {i : Nat} {info : SegmentInfo} (hi : segments[i]? = some info) :
    info.size.toNat = size :=
  hlayout.sizes info (List.mem_of_getElem? hi)

/-- A pointer of either process into a segment. -/
theorem Layout.shows {i : Nat} {info : SegmentInfo} (hi : segments[i]? = some info)
    (mapping : Mapping segments) {off : UInt64} (hoff : off.toNat + 8 ≤ size) :
    (view mapping).Shows (mapping.base i + off) i off.toNat 8 := by
  have h := view_shows mapping (n := 8) hi (hlayout.size_eq hi ▸ hoff)
  rwa [UInt64.ofNat_toNat] at h

theorem Layout.controlAddress_eq {c : Nat} {ctrlInfo : SegmentInfo}
    (hc : segments[c]? = some ctrlInfo) (hid : ctrlInfo.id = 0) (mapping : Mapping segments)
    (field : UInt64) : controlAddress mapping field = some (mapping.base c + field) := by
  obtain ⟨c', ctrlInfo', hc', hid', hfind⟩ := hlayout.exists_control
  obtain rfl := hlayout.ids c c' _ _ hc hc' (hid.trans hid'.symm)
  rw [controlAddress, hfind]
  show (registerAll segments mapping.base ctrlInfo'.id).map (· + field) = _
  rw [hlayout.registered hc' mapping]
  rfl

theorem Layout.load_eq {i : Nat} {info : SegmentInfo} (hi : segments[i]? = some info)
    (mapping : Mapping segments) (s : State segments) {off : UInt64}
    (hoff : off.toNat + 8 ≤ size) :
    s.load mapping (some (mapping.base i + off)) = some (s.memory.word i off.toNat) :=
  View.load_eq (hlayout.shows hi mapping hoff) s.memory

theorem Layout.store_eq {i : Nat} {info : SegmentInfo} (hi : segments[i]? = some info)
    (mapping : Mapping segments) (s : State segments) {off : UInt64}
    (hoff : off.toNat + 8 ≤ size) (v : UInt64) :
    s.store mapping (some (mapping.base i + off)) v =
      some { s with memory := s.memory.setWord i off.toNat v } := by
  rw [State.store, Option.bind_some, View.store_eq (hlayout.shows hi mapping hoff)]
  rfl

theorem Layout.load_control {c : Nat} {ctrlInfo : SegmentInfo} (hc : segments[c]? = some ctrlInfo)
    (hid : ctrlInfo.id = 0) (mapping : Mapping segments) (s : State segments) {field : UInt64}
    (hfield : field.toNat + 8 ≤ 24) :
    s.load mapping (controlAddress mapping field) = some (s.memory.word c field.toNat) := by
  rw [hlayout.controlAddress_eq hc hid]
  exact hlayout.load_eq hc mapping s (hfield.trans hlayout.room)

theorem Layout.store_control {c : Nat} {ctrlInfo : SegmentInfo}
    (hc : segments[c]? = some ctrlInfo) (hid : ctrlInfo.id = 0) (mapping : Mapping segments)
    (s : State segments) {field : UInt64} (hfield : field.toNat + 8 ≤ 24) (v : UInt64) :
    s.store mapping (controlAddress mapping field) v =
      some { s with memory := s.memory.setWord c field.toNat v } := by
  rw [hlayout.controlAddress_eq hc hid]
  exact hlayout.store_eq hc mapping s (hfield.trans hlayout.room) v

end Access

end CppCode.SharedMemory
