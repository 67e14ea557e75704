import CppCode.Bytes.Memory
import Mathlib.Logic.Function.Basic

/-!
# CppCode.Segments.Model

**The segments of `iceoryx/003.relative_pointer` and the pointers into them** (`003.common.hpp`,
`003.sender.cpp`, `003.receiver.cpp`): the description of a segment, the registry that maps
segment ids to the addresses at which this process has mapped them, a pointer as a segment id
and an offset, and the checks that the sender makes on its arguments.

The handshake over the control segment is the subject of `CppCode.ControlSlot`.
-/

namespace CppCode.Segments

open Bytes

structure SegmentInfo where
  id : UInt64
  shmName : Vector UInt8 64
  size : UInt64
  isControl : UInt8
  pad : Vector UInt8 7
  deriving DecidableEq

def findControlSegment (segments : List SegmentInfo) : Option SegmentInfo :=
  segments.find? (·.isControl ≠ 0)

/-! ### The segments that Roudi creates -/

/-- A name in an array of 64 zeroed characters. -/
def shmName (name : List Char) : Vector UInt8 64 :=
  Vector.ofFn fun i => UInt8.ofNat ((name[i.val]?).elim 0 Char.toNat)

/-- The control segment `/cpp_003_ctrl`. -/
def controlSegment : SegmentInfo where
  id := 0
  shmName := shmName ['/', 'c', 'p', 'p', '_', '0', '0', '3', '_', 'c', 't', 'r', 'l']
  size := 4096
  isControl := 1
  pad := Vector.replicate 7 0

/-- The data segment `/cpp_003_seg_%u`. -/
def dataSegment (i : UInt32) : SegmentInfo where
  id := (i + 1).toUInt64
  shmName :=
    shmName (['/', 'c', 'p', 'p', '_', '0', '0', '3', '_', 's', 'e', 'g', '_'] ++
      Nat.toDigits 10 i.toNat)
  size := 4096
  isControl := 0
  pad := Vector.replicate 7 0

/-- `g_segments` after Roudi's `main` has created them. -/
def roudiSegments : List SegmentInfo :=
  [controlSegment, dataSegment 0, dataSegment 1, dataSegment 2, dataSegment 3]

/-! ### The registry -/

/-- `SegmentRegistry`, from the id of a segment to its local base. -/
abbrev SegmentRegistry := UInt64 → Option UInt64

/-- A second registration of an id replaces the first. -/
def SegmentRegistry.registerSegment (registry : SegmentRegistry) (id base : UInt64) :
    SegmentRegistry :=
  Function.update registry id (some base)

/-- The registry after the loop that maps every segment, where `mmap` returned `base i` for
the `i`-th one. -/
def registerAll (segments : List SegmentInfo) (base : Nat → UInt64) : SegmentRegistry :=
  segments.zipIdx.foldl (fun registry (info, i) => registry.registerSegment info.id (base i))
    (fun _ => none)

/-! ### Pointers -/

/-- `RelativePointer`; the offset is a `ptrdiff_t`. -/
structure RelativePointer where
  id : UInt64
  offset : Int64
  deriving DecidableEq

/-- `RelativePointer::get`, `none` for the exception of `SegmentRegistry::getBase`. -/
def RelativePointer.get (registry : SegmentRegistry) (pointer : RelativePointer) :
    Option UInt64 :=
  (registry pointer.id).map (· + pointer.offset.toUInt64)

/-! ### The sender -/

/-- The data segments with their places in the list of all segments. -/
def dataSegments (segments : List SegmentInfo) : List (SegmentInfo × Nat) :=
  segments.zipIdx.filter fun (info, _) => info.isControl = 0

/-- The checks of the sender's `main`: the target segment and its place in the list, or the
text on `stderr`. The sum in the last check is a `uint64_t`, and so is the difference in the
text of the one before. -/
def checkArguments (segments : List SegmentInfo) (dataSegIdx : UInt32) (offset : UInt64)
    (value : Int64) : Except String (SegmentInfo × Nat) :=
  if value = 0 then .error "[Sender] value must be non-zero\n"
  else if offset % 8 ≠ 0 then .error "[Sender] offset must be 8-byte aligned\n"
  else if findControlSegment segments = none then .error "[Sender] No control segment found\n"
  else
    let dataSegs := dataSegments segments
    match dataSegs[dataSegIdx.toNat]? with
    | none =>
        .error ("[Sender] data_seg_index " ++ toString dataSegIdx ++ " out of range (max " ++
          toString (UInt64.ofNat dataSegs.length - 1) ++ ")\n")
    | some target =>
        if offset + 8 > target.1.size then
          .error ("[Sender] offset " ++ toString offset ++ " + 8 exceeds segment size " ++
            toString target.1.size ++ "\n")
        else .ok target

/-- The two fields of the control message that the sender publishes. -/
structure Published where
  segmentId : UInt64
  offset : UInt64
  deriving DecidableEq

/-- The pointer that the sender writes through. -/
def senderPointer (target : SegmentInfo) (offset : UInt64) : RelativePointer :=
  ⟨target.id, offset.toInt64⟩

def publish (target : SegmentInfo) (offset : UInt64) : Published := ⟨target.id, offset⟩

/-- The pointer that the receiver reads through. -/
def receiverPointer (message : Published) : RelativePointer :=
  ⟨message.segmentId, message.offset.toInt64⟩

/-! ### Mappings -/

def pageSize : Nat := 4096

/-- User space is the lower half of the address space. -/
def addressLimit : Nat := 2 ^ 63

/-- Where one process has mapped the segments: what successful calls of `mmap` for all of them
promise. -/
structure Mapping (segments : List SegmentInfo) where
  base : Nat → UInt64
  nonnull : ∀ i info, segments[i]? = some info → base i ≠ 0
  aligned : ∀ i info, segments[i]? = some info → pageSize ∣ (base i).toNat
  fits : ∀ i info, segments[i]? = some info →
    0 < info.size.toNat ∧ (base i).toNat + info.size.toNat ≤ addressLimit
  apart : ∀ i j info info', i < j → segments[i]? = some info → segments[j]? = some info' →
    (base i).toNat + info.size.toNat ≤ (base j).toNat ∨
      (base j).toNat + info'.size.toNat ≤ (base i).toNat

/-- The segments have a size and fit user space together, with a page to spare beside each. -/
def Mappable (segments : List SegmentInfo) : Prop :=
  (∀ info ∈ segments, 0 < info.size) ∧
    pageSize + (segments.map fun info => roundUp info.size.toNat pageSize + pageSize).sum ≤
      addressLimit

/-- The eight bytes that a pointer names lie in the mapping of the `i`-th segment. -/
def PointsInto (segments : List SegmentInfo) (mapping : Mapping segments) (i : Nat)
    (target : SegmentInfo) (pointer : RelativePointer) : Prop :=
  ∃ address, pointer.get (registerAll segments mapping.base) = some address ∧
    region address 8 ⊆ region (mapping.base i) target.size.toNat

end CppCode.Segments
