import CppCode.Bytes.Memory

/-!
# CppCode.ChunkHead.Model

**A chunk of shared memory.** One allocation holds, from its first byte on, a
`ChunkHeader`, the user header, a back-offset and the payload. The back-offset stands in the
four bytes before the payload and is the distance from the header to the payload, so that a
receiver who is handed the payload finds the header.

`size_t` is `UInt64`, the fields of the header are `UInt32`, and addresses are `UInt64`: the
sums of `allocateChunk` wrap and its stores narrow where those of the source do.
-/

namespace CppCode.ChunkHead

open Bytes

/-- `sizeof(ChunkHeader)`: four `uint32_t`. -/
def headerSize : UInt64 := 16

/-- `alignof(ChunkHeader)`. -/
def headerAlignment : UInt64 := 4

/-- `alignof(uint32_t)`. -/
def backOffsetAlignment : UInt64 := 4

/-- `sizeof(uint32_t)`. -/
def backOffsetSize : UInt64 := 4

def align (value alignment : UInt64) : UInt64 :=
  (value + alignment - 1) &&& ~~~(alignment - 1)

/-! ### The sums of `allocateChunk` -/

section

variable (userPayloadSize userPayloadAlignment userHeaderSize : UInt64)

def chunkHeaderSize : UInt64 := headerSize + userHeaderSize

def anticipatedBackOffset : UInt64 :=
  align (chunkHeaderSize userHeaderSize) backOffsetAlignment

def unalignedPayload : UInt64 := anticipatedBackOffset userHeaderSize + backOffsetSize

def alignedPayload : UInt64 := align (unalignedPayload userHeaderSize) userPayloadAlignment

def totalSize : UInt64 := alignedPayload userPayloadAlignment userHeaderSize + userPayloadSize

/-- The alignment that `aligned_alloc` is asked for. -/
def minAlign : UInt64 := max userPayloadAlignment headerAlignment

/-- The number of bytes that `aligned_alloc` is asked for. -/
def allocationSize : UInt64 :=
  align (totalSize userPayloadSize userPayloadAlignment userHeaderSize)
    (minAlign userPayloadAlignment)

end

/-- What `aligned_alloc(alignment, size)` hands out when it succeeds. -/
structure Block (alignment size : UInt64) where
  address : UInt64
  nonnull : address ≠ 0
  aligned : alignment.toNat ∣ address.toNat
  fits : address.toNat + size.toNat ≤ 2 ^ 64

/-! ### The fields of a header in memory -/

/-- The address of the `i`-th `uint32_t` of a header. -/
def field (header : UInt64) (i : Nat) : UInt64 := header + UInt64.ofNat (4 * i)

def userHeaderSize (mem : Memory) (header : UInt64) : UInt32 := mem.readUInt32 (field header 0)

def userPayloadSize (mem : Memory) (header : UInt64) : UInt32 := mem.readUInt32 (field header 1)

def userPayloadAlignment (mem : Memory) (header : UInt64) : UInt32 :=
  mem.readUInt32 (field header 2)

def userPayloadOffset (mem : Memory) (header : UInt64) : UInt32 :=
  mem.readUInt32 (field header 3)

/-- `ChunkHeader::userPayload`. -/
def userPayload (mem : Memory) (header : UInt64) : UInt64 :=
  header + (userPayloadOffset mem header).toUInt64

/-- `ChunkHeader::userHeader`, `none` for `nullptr`. -/
def userHeader (mem : Memory) (header : UInt64) : Option UInt64 :=
  if userHeaderSize mem header = 0 then none else some (header + headerSize)

/-- `ChunkHeader::fromUserPayload`: back from the payload by the stored offset. -/
def fromUserPayload (mem : Memory) (payload : UInt64) : UInt64 :=
  payload - (mem.readUInt32 (payload - backOffsetSize)).toUInt64

/-- `allocateChunk` on the block that `aligned_alloc` returned: the memory after it and the
header. The four fields are narrowed to `uint32_t`, and so is the back-offset. -/
def allocateChunk (mem : Memory) (userPayloadSize userPayloadAlignment userHeaderSize : UInt64)
    (raw : Block (minAlign userPayloadAlignment)
      (allocationSize userPayloadSize userPayloadAlignment userHeaderSize)) :
    Memory × UInt64 :=
  let header := raw.address
  let alignedPayload := alignedPayload userPayloadAlignment userHeaderSize
  let mem := mem.writeUInt32 (field header 0) userHeaderSize.toUInt32
  let mem := mem.writeUInt32 (field header 1) userPayloadSize.toUInt32
  let mem := mem.writeUInt32 (field header 2) userPayloadAlignment.toUInt32
  let mem := mem.writeUInt32 (field header 3) alignedPayload.toUInt32
  let offset := alignedPayload.toUInt32
  (mem.writeUInt32 (header + alignedPayload - backOffsetSize) offset, header)

/-! ### The layout that is meant -/

namespace Layout

variable (userPayloadSize userPayloadAlignment userHeaderSize : Nat)

/-- The distance from the header to the payload: room for the header, the user header and an
aligned back-offset, up to the next multiple of the payload's alignment. -/
def payloadOffset : Nat :=
  roundUp (roundUp (16 + userHeaderSize) 4 + 4) userPayloadAlignment

/-- The number of bytes of the chunk, up to the next multiple of the allocation's alignment. -/
def allocated : Nat :=
  roundUp (payloadOffset userPayloadAlignment userHeaderSize + userPayloadSize)
    (max userPayloadAlignment 4)

end Layout

end CppCode.ChunkHead
