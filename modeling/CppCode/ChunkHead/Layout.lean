import CppCode.ChunkHead.Model
import Mathlib.Data.UInt

/-!
# CppCode.ChunkHead.Layout

**Where the parts of a chunk lie.** As long as the distance to the payload and the payload
itself fit `uint32_t`, the sums of `allocateChunk` do not wrap and are the ones of `Layout`.
Then the parts of the chunk do not overlap and the header is found again from the payload,
whatever the user has written into the user header and into the payload.
-/

namespace CppCode.ChunkHead

open Bytes

/-! ### The layout on natural numbers -/

namespace Layout

variable {userPayloadAlignment : Nat} (userHeaderSize : Nat)

/-- The header, the user header and the back-offset lie before the payload. -/
theorem add_le_payloadOffset (h : 0 < userPayloadAlignment) :
    userHeaderSize + 20 ≤ payloadOffset userPayloadAlignment userHeaderSize := by
  have hinner := le_roundUp (16 + userHeaderSize) (by omega : 0 < 4)
  have houter := le_roundUp (roundUp (16 + userHeaderSize) 4 + 4) h
  rw [payloadOffset]
  omega

theorem alignment_le_payloadOffset (h : 0 < userPayloadAlignment) :
    userPayloadAlignment ≤ payloadOffset userPayloadAlignment userHeaderSize := by
  have hle := add_le_payloadOffset userHeaderSize h
  exact Nat.le_of_dvd (by omega) (dvd_roundUp _ _)

theorem le_four_or_four_dvd {alignment : Nat} (h : alignment.isPowerOfTwo) :
    alignment ≤ 4 ∨ 4 ∣ alignment := by
  obtain ⟨k, rfl⟩ := h
  rcases Nat.lt_or_ge k 2 with hk | hk
  · exact .inl (Nat.pow_le_pow_right (by omega) (by omega : k ≤ 2))
  · exact .inr (Nat.pow_dvd_pow 2 hk)

/-- When the distance to the payload fits `uint32_t`, in terms of the arguments. -/
theorem payloadOffset_lt_iff (h : userPayloadAlignment.isPowerOfTwo) :
    payloadOffset userPayloadAlignment userHeaderSize < 2 ^ 32 ↔
      userHeaderSize + 20 + max userPayloadAlignment 4 ≤ 2 ^ 32 := by
  have hfour := le_four_or_four_dvd h
  obtain ⟨k, rfl⟩ := h
  have hpos : 0 < 2 ^ k := Nat.two_pow_pos k
  rcases Nat.lt_or_ge 32 k with hk | hk
  · have hlarge : 2 ^ 33 ≤ 2 ^ k := Nat.pow_le_pow_right (by omega) hk
    have hle := alignment_le_payloadOffset userHeaderSize hpos
    omega
  · -- the back-offset is aligned, so an alignment below its own leaves the distance as it is
    have hslot : 4 ∣ roundUp (16 + userHeaderSize) 4 := dvd_roundUp _ _
    have hbound := roundUp_le_iff (16 + userHeaderSize) (by omega : 0 < 4)
      (by omega : 4 ∣ 2 ^ 32 - (4 + max (2 ^ k) 4))
    rw [payloadOffset, roundUp_lt_iff hpos (Nat.pow_dvd_pow 2 hk)]
    omega

end Layout

/-! ### The sums of `allocateChunk` -/

theorem toNat_align {value alignment : UInt64} (h : alignment.toNat.isPowerOfTwo)
    (hfit : value.toNat + (alignment.toNat - 1) < 2 ^ 64) :
    (align value alignment).toNat = roundUp value.toNat alignment.toNat := by
  obtain ⟨k, hk⟩ := h
  exact toNat_mask_eq_roundUp hk hfit

theorem toNat_minAlign (alignment : UInt64) :
    (minAlign alignment).toNat = max alignment.toNat 4 := by
  show (if alignment ≤ headerAlignment then headerAlignment else alignment).toNat = _
  split
  case isTrue hle => exact (max_eq_right (UInt64.le_iff_toNat_le.mp hle)).symm
  case isFalse hle =>
    rw [UInt64.le_iff_toNat_le, show headerAlignment.toNat = 4 from rfl] at hle
    exact (max_eq_left (by omega)).symm

theorem minAlign_isPowerOfTwo {alignment : UInt64} (h : alignment.toNat.isPowerOfTwo) :
    (minAlign alignment).toNat.isPowerOfTwo := by
  rw [toNat_minAlign]
  rcases max_choice alignment.toNat 4 with hmax | hmax
  · rwa [hmax]
  · exact ⟨2, hmax⟩

variable {payloadSize alignment userSize : UInt64}

theorem pos_of_isPowerOfTwo {n : Nat} (h : n.isPowerOfTwo) : 0 < n := by
  obtain ⟨k, rfl⟩ := h
  exact Nat.two_pow_pos k

/-- A power of two divides every larger one. -/
theorem dvd_two_pow_of_le {n k : Nat} (h : n.isPowerOfTwo) (hlt : n ≤ 2 ^ k) : n ∣ 2 ^ k := by
  obtain ⟨j, rfl⟩ := h
  exact Nat.pow_dvd_pow 2 ((Nat.pow_le_pow_iff_right (by omega)).mp hlt)

/-- The allocation's alignment is a multiple of the payload's. -/
theorem Block.alignment_dvd_address {size : UInt64} (raw : Block (minAlign alignment) size)
    (h : alignment.toNat.isPowerOfTwo) : alignment.toNat ∣ raw.address.toNat := by
  have haligned := raw.aligned
  rw [toNat_minAlign] at haligned
  refine dvd_trans ?_ haligned
  rcases Nat.le_total alignment.toNat 4 with hle | hle
  · rw [max_eq_right hle]
    exact dvd_two_pow_of_le (k := 2) h hle
  · rw [max_eq_left hle]

/-- The distance to the payload is computed without a wrap if it fits `uint32_t`. -/
theorem toNat_alignedPayload (h : alignment.toNat.isPowerOfTwo)
    (hoffset : Layout.payloadOffset alignment.toNat userSize.toNat < 2 ^ 32) :
    (alignedPayload alignment userSize).toNat =
      Layout.payloadOffset alignment.toNat userSize.toNat := by
  have hpos := pos_of_isPowerOfTwo h
  have huser := Layout.add_le_payloadOffset userSize.toNat hpos
  have halign := Layout.alignment_le_payloadOffset userSize.toNat hpos
  have hheader : (chunkHeaderSize userSize).toNat = 16 + userSize.toNat := by
    rw [chunkHeaderSize, UInt64.toNat_add, show headerSize.toNat = 16 from rfl]
    omega
  have hslot : (anticipatedBackOffset userSize).toNat = roundUp (16 + userSize.toNat) 4 := by
    rw [anticipatedBackOffset, toNat_align ⟨2, rfl⟩, hheader]
    · rfl
    · rw [hheader, show backOffsetAlignment.toNat = 4 from rfl]
      omega
  have hslot_le := roundUp_le_add (16 + userSize.toNat) 4
  have hunaligned : (unalignedPayload userSize).toNat = roundUp (16 + userSize.toNat) 4 + 4 := by
    rw [unalignedPayload, UInt64.toNat_add, hslot, show backOffsetSize.toNat = 4 from rfl]
    omega
  rw [alignedPayload, toNat_align h, hunaligned, Layout.payloadOffset]
  omega

theorem toNat_allocationSize (h : alignment.toNat.isPowerOfTwo)
    (hoffset : Layout.payloadOffset alignment.toNat userSize.toNat < 2 ^ 32)
    (hsize : payloadSize.toNat < 2 ^ 32) :
    (allocationSize payloadSize alignment userSize).toNat =
      Layout.allocated payloadSize.toNat alignment.toNat userSize.toNat := by
  have halign := Layout.alignment_le_payloadOffset userSize.toNat (pos_of_isPowerOfTwo h)
  have htotal : (totalSize payloadSize alignment userSize).toNat =
      Layout.payloadOffset alignment.toNat userSize.toNat + payloadSize.toNat := by
    rw [totalSize, UInt64.toNat_add, toNat_alignedPayload h hoffset]
    omega
  rw [allocationSize, toNat_align (minAlign_isPowerOfTwo h), htotal, toNat_minAlign,
    Layout.allocated]
  rw [htotal, toNat_minAlign]
  omega

/-! ### What the header reads back -/

/-- The back-offset slot of a payload that starts at `offset`. -/
theorem slot_eq (header : UInt64) {offset : Nat} (h : 4 ≤ offset) :
    header + UInt64.ofNat offset - backOffsetSize = header + UInt64.ofNat (offset - 4) := by
  have hsplit : UInt64.ofNat offset = UInt64.ofNat (offset - 4) + backOffsetSize := by
    rw [show backOffsetSize = UInt64.ofNat 4 from rfl, ← UInt64.ofNat_add, Nat.sub_add_cancel h]
  rw [hsplit, ← UInt64.add_assoc, UInt64.add_sub_cancel]

theorem disjoint_field (header : UInt64) {i j : Nat} (hij : i ≠ j) (hi : i < 4) (hj : j < 4) :
    Disjoint (region (field header i) 4) (region (field header j) 4) := by
  rcases Nat.lt_or_gt_of_ne hij with h | h
  · exact disjoint_region header (by omega) (by omega)
  · exact (disjoint_region header (by omega) (by omega)).symm

/-- The fields lie before the back-offset. -/
theorem disjoint_field_slot (header : UInt64) {offset : UInt64} {i : Nat} (hi : i < 4)
    (h : 20 ≤ offset.toNat) :
    Disjoint (region (field header i) 4) (region (header + offset - backOffsetSize) 4) := by
  have hlt := offset.toNat_lt
  rw [← UInt64.ofNat_toNat (x := offset), slot_eq header (by omega)]
  exact disjoint_region header (by omega) (by omega)

section

variable (mem : Memory)
  (raw : Block (minAlign alignment) (allocationSize payloadSize alignment userSize))

theorem userHeaderSize_allocateChunk (h : 20 ≤ (alignedPayload alignment userSize).toNat) :
    userHeaderSize (allocateChunk mem payloadSize alignment userSize raw).1 raw.address =
      userSize.toUInt32 := by
  have hslot := disjoint_field_slot raw.address (by omega : 0 < 4) h
  have hfield := fun j => disjoint_field raw.address (i := 0) (j := j)
  rw [userHeaderSize, allocateChunk, Memory.readUInt32_writeUInt32_disjoint _ _ hslot,
    Memory.readUInt32_writeUInt32_disjoint _ _ (hfield 3 (by omega) (by omega) (by omega)),
    Memory.readUInt32_writeUInt32_disjoint _ _ (hfield 2 (by omega) (by omega) (by omega)),
    Memory.readUInt32_writeUInt32_disjoint _ _ (hfield 1 (by omega) (by omega) (by omega)),
    Memory.readUInt32_writeUInt32_same]

theorem userPayloadSize_allocateChunk (h : 20 ≤ (alignedPayload alignment userSize).toNat) :
    userPayloadSize (allocateChunk mem payloadSize alignment userSize raw).1 raw.address =
      payloadSize.toUInt32 := by
  have hslot := disjoint_field_slot raw.address (by omega : 1 < 4) h
  have hfield := fun j => disjoint_field raw.address (i := 1) (j := j)
  rw [userPayloadSize, allocateChunk, Memory.readUInt32_writeUInt32_disjoint _ _ hslot,
    Memory.readUInt32_writeUInt32_disjoint _ _ (hfield 3 (by omega) (by omega) (by omega)),
    Memory.readUInt32_writeUInt32_disjoint _ _ (hfield 2 (by omega) (by omega) (by omega)),
    Memory.readUInt32_writeUInt32_same]

theorem userPayloadOffset_allocateChunk (h : 20 ≤ (alignedPayload alignment userSize).toNat) :
    userPayloadOffset (allocateChunk mem payloadSize alignment userSize raw).1 raw.address =
      (alignedPayload alignment userSize).toUInt32 := by
  have hslot := disjoint_field_slot raw.address (by omega : 3 < 4) h
  rw [userPayloadOffset, allocateChunk, Memory.readUInt32_writeUInt32_disjoint _ _ hslot,
    Memory.readUInt32_writeUInt32_same]

end

/-! ### Truncation -/

theorem toNat_toUInt32_of_lt {v : UInt64} (h : v.toNat < 2 ^ 32) : v.toUInt32.toNat = v.toNat := by
  rw [UInt64.toNat_toUInt32]
  exact Nat.mod_eq_of_lt h

theorem toUInt64_toUInt32_of_lt {v : UInt64} (h : v.toNat < 2 ^ 32) : v.toUInt32.toUInt64 = v := by
  apply UInt64.toNat_inj.mp
  rw [UInt32.toNat_toUInt64, toNat_toUInt32_of_lt h]

/-- The header reads back the values that were asked for and computed, and the payload ends
inside the allocation. -/
def Exact (mem : Memory) (payloadSize alignment userSize : UInt64)
    (raw : Block (minAlign alignment) (allocationSize payloadSize alignment userSize)) : Prop :=
  let chunk := allocateChunk mem payloadSize alignment userSize raw
  (userHeaderSize chunk.1 chunk.2).toNat = userSize.toNat ∧
    (userPayloadSize chunk.1 chunk.2).toNat = payloadSize.toNat ∧
    (userPayloadOffset chunk.1 chunk.2).toNat =
      Layout.payloadOffset alignment.toNat userSize.toNat ∧
    (userPayloadOffset chunk.1 chunk.2).toNat + (userPayloadSize chunk.1 chunk.2).toNat ≤
      (allocationSize payloadSize alignment userSize).toNat

instance (mem : Memory) (payloadSize alignment userSize : UInt64)
    (raw : Block (minAlign alignment) (allocationSize payloadSize alignment userSize)) :
    Decidable (Exact mem payloadSize alignment userSize raw) :=
  inferInstanceAs (Decidable (_ ∧ _ ∧ _ ∧ _))

/-- **Nothing is truncated exactly when the payload and the distance to it fit `uint32_t`.** -/
theorem exact_iff (mem : Memory) (payloadSize alignment userSize : UInt64)
    (h : alignment.toNat.isPowerOfTwo)
    (raw : Block (minAlign alignment) (allocationSize payloadSize alignment userSize)) :
    Exact mem payloadSize alignment userSize raw ↔
      payloadSize.toNat < 2 ^ 32 ∧ userSize.toNat + 20 + max alignment.toNat 4 ≤ 2 ^ 32 := by
  rw [← Layout.payloadOffset_lt_iff userSize.toNat h]
  constructor
  · rintro ⟨-, hsize, hoffset, -⟩
    rw [← hsize, ← hoffset]
    exact ⟨UInt32.toNat_lt _, UInt32.toNat_lt _⟩
  · rintro ⟨hsize, hoffset⟩
    have huser := Layout.add_le_payloadOffset userSize.toNat (pos_of_isPowerOfTwo h)
    have heq := toNat_alignedPayload h hoffset
    have hfield : 20 ≤ (alignedPayload alignment userSize).toNat := by omega
    have hO : (alignedPayload alignment userSize).toUInt32.toNat =
        Layout.payloadOffset alignment.toNat userSize.toNat := by
      rw [toNat_toUInt32_of_lt (by omega), heq]
    have hP := toNat_toUInt32_of_lt hsize
    have hH : userSize.toUInt32.toNat = userSize.toNat := toNat_toUInt32_of_lt (by omega)
    show (userHeaderSize _ raw.address).toNat = _ ∧ (userPayloadSize _ raw.address).toNat = _ ∧
      (userPayloadOffset _ raw.address).toNat = _ ∧
      (userPayloadOffset _ raw.address).toNat + (userPayloadSize _ raw.address).toNat ≤ _
    rw [userHeaderSize_allocateChunk mem raw hfield, userPayloadSize_allocateChunk mem raw hfield,
      userPayloadOffset_allocateChunk mem raw hfield, hO, hP, hH,
      toNat_allocationSize h hoffset hsize]
    exact ⟨rfl, rfl, rfl, le_roundUp _ (by omega)⟩

/-- A block for the chunk of `demo_with_user_header`: `MyPayload` has 16 bytes and alignment
8, `MyHeader` has 8 bytes. -/
def demoBlock : Block (minAlign 8) (allocationSize 16 8 8) where
  address := 4096
  nonnull := by decide
  aligned := by decide
  fits := by decide

theorem exact_demoBlock : Exact (fun _ => 0) 16 8 8 demoBlock :=
  (exact_iff (fun _ => 0) 16 8 8 ⟨3, rfl⟩ demoBlock).mpr (by decide)

/-- A block for a chunk of `2 ^ 32 + 16` payload bytes. -/
def largeBlock : Block (minAlign 8) (allocationSize (2 ^ 32 + 16) 8 8) where
  address := 4096
  nonnull := by decide
  aligned := by decide
  fits := by decide

/-- A payload of `2 ^ 32 + 16` bytes is recorded as one of 16 bytes. -/
theorem not_exact_largeBlock :
    userPayloadSize (allocateChunk (fun _ => 0) (2 ^ 32 + 16) 8 8 largeBlock).1
        largeBlock.address = 16 ∧
      ¬ Exact (fun _ => 0) (2 ^ 32 + 16) 8 8 largeBlock := by
  decide +kernel

/-! ### The parts of a chunk -/

/-- The header, the user header, the back-offset and the payload of a chunk. -/
def parts (header payload : UInt64) (payloadSize userSize : Nat) : List (Set UInt64) :=
  [region header headerSize.toNat, region (header + headerSize) userSize,
    region (payload - backOffsetSize) backOffsetSize.toNat, region payload payloadSize]

section

variable {header : UInt64} {offset : Nat} {userSize payloadSize : Nat}

theorem parts_offset (h : 4 ≤ offset) :
    parts header (header + UInt64.ofNat offset) payloadSize userSize =
      [region (header + UInt64.ofNat 0) 16, region (header + UInt64.ofNat 16) userSize,
        region (header + UInt64.ofNat (offset - 4)) 4,
        region (header + UInt64.ofNat offset) payloadSize] := by
  have hzero : header + UInt64.ofNat 0 = header := UInt64.add_zero header
  rw [parts, hzero, slot_eq header h]
  rfl

theorem pairwise_disjoint_parts (huser : userSize + 20 ≤ offset)
    (hfit : offset + payloadSize ≤ 2 ^ 64) :
    (parts header (header + UInt64.ofNat offset) payloadSize userSize).Pairwise Disjoint := by
  rw [parts_offset (by omega)]
  have hdisjoint := fun c d n k => disjoint_region header (c := c) (d := d) (n := n) (k := k)
  simp only [List.pairwise_cons, List.mem_cons, List.not_mem_nil, or_false, forall_eq_or_imp,
    forall_eq, IsEmpty.forall_iff, implies_true, List.Pairwise.nil, and_true]
  refine ⟨⟨?_, ?_, ?_⟩, ⟨?_, ?_⟩, ?_⟩
  all_goals exact hdisjoint _ _ _ _ (by omega) (by omega)

theorem subset_of_mem_parts {size : Nat} (huser : userSize + 20 ≤ offset)
    (hfit : offset + payloadSize ≤ size) (hsize : size ≤ 2 ^ 64) :
    ∀ part ∈ parts header (header + UInt64.ofNat offset) payloadSize userSize,
      part ⊆ region header size := by
  rw [parts_offset (by omega)]
  simp only [List.mem_cons, List.not_mem_nil, or_false, forall_eq_or_imp, forall_eq]
  refine ⟨?_, ?_, ?_, ?_⟩
  all_goals exact region_subset header (by omega) hsize

end

/-- The accessors of a fresh chunk whose payload starts below `2 ^ 32`. -/
theorem userPayload_allocateChunk (mem : Memory) {payloadSize alignment userSize : UInt64}
    (raw : Block (minAlign alignment) (allocationSize payloadSize alignment userSize))
    (hlow : 20 ≤ (alignedPayload alignment userSize).toNat)
    (hhigh : (alignedPayload alignment userSize).toNat < 2 ^ 32) :
    userPayload (allocateChunk mem payloadSize alignment userSize raw).1 raw.address =
      raw.address + alignedPayload alignment userSize := by
  rw [userPayload, userPayloadOffset_allocateChunk mem raw hlow,
    toUInt64_toUInt32_of_lt hhigh]

theorem userHeader_allocateChunk (mem : Memory) {payloadSize alignment userSize : UInt64}
    (raw : Block (minAlign alignment) (allocationSize payloadSize alignment userSize))
    (hlow : 20 ≤ (alignedPayload alignment userSize).toNat) (huser : userSize.toNat < 2 ^ 32) :
    userHeader (allocateChunk mem payloadSize alignment userSize raw).1 raw.address =
      if userSize = 0 then none else some (raw.address + headerSize) := by
  have hzero : userSize.toUInt32 = 0 ↔ userSize = 0 := by
    rw [← UInt32.toNat_inj, ← UInt64.toNat_inj, toNat_toUInt32_of_lt huser]
    rfl
  rw [userHeader, userHeaderSize_allocateChunk mem raw hlow]
  simp only [hzero]

/-- The header is found from the payload in every memory in which the offset field and the
back-offset are still those of the fresh chunk. -/
theorem fromUserPayload_of_agree {mem later : Memory}
    {payloadSize alignment userSize : UInt64}
    (raw : Block (minAlign alignment) (allocationSize payloadSize alignment userSize))
    (hlow : 20 ≤ (alignedPayload alignment userSize).toNat)
    (hhigh : (alignedPayload alignment userSize).toNat < 2 ^ 32)
    (hfield : ∀ x ∈ region (field raw.address 3) 4,
      later x = (allocateChunk mem payloadSize alignment userSize raw).1 x)
    (hslot : ∀ x ∈ region (raw.address + alignedPayload alignment userSize - backOffsetSize) 4,
      later x = (allocateChunk mem payloadSize alignment userSize raw).1 x) :
    fromUserPayload later (userPayload later raw.address) = raw.address := by
  have hpayload : userPayload later raw.address =
      raw.address + alignedPayload alignment userSize := by
    rw [← userPayload_allocateChunk mem raw hlow hhigh, userPayload, userPayload,
      userPayloadOffset, userPayloadOffset, Memory.readUInt32_congr hfield]
  have hback : later.readUInt32
      (raw.address + alignedPayload alignment userSize - backOffsetSize) =
        (alignedPayload alignment userSize).toUInt32 := by
    rw [Memory.readUInt32_congr hslot]
    exact Memory.readUInt32_writeUInt32_same _ _ _
  rw [fromUserPayload, hpayload, hback, toUInt64_toUInt32_of_lt hhigh, UInt64.add_sub_cancel]

/-- Writing over the user header and the payload leaves the way back to the header alone. -/
theorem fromUserPayload_of_untouched {mem later : Memory}
    {payloadSize alignment userSize : UInt64}
    (raw : Block (minAlign alignment) (allocationSize payloadSize alignment userSize))
    (hlow : 20 ≤ (alignedPayload alignment userSize).toNat)
    (hhigh : (alignedPayload alignment userSize).toNat < 2 ^ 32)
    (hdisjoint : (parts raw.address (raw.address + alignedPayload alignment userSize)
      payloadSize.toNat userSize.toNat).Pairwise Disjoint)
    (hlater : ∀ x, x ∉ region (raw.address + headerSize) userSize.toNat →
      x ∉ region (raw.address + alignedPayload alignment userSize) payloadSize.toNat →
        later x = (allocateChunk mem payloadSize alignment userSize raw).1 x) :
    fromUserPayload later (userPayload later raw.address) = raw.address := by
  simp only [parts, List.pairwise_cons, List.mem_cons, List.not_mem_nil, or_false,
    forall_eq_or_imp, forall_eq, IsEmpty.forall_iff, implies_true, List.Pairwise.nil,
    and_true] at hdisjoint
  obtain ⟨⟨huserHeader, -, hheader⟩, ⟨hslotUser, -⟩, hslotPayload⟩ := hdisjoint
  apply fromUserPayload_of_agree raw hlow hhigh
  · intro x hx
    have hmem : x ∈ region raw.address headerSize.toNat :=
      region_subset raw.address (by decide) (by decide) hx
    exact hlater x (Set.disjoint_left.mp huserHeader hmem) (Set.disjoint_left.mp hheader hmem)
  · intro x hx
    exact hlater x (Set.disjoint_right.mp hslotUser hx) (Set.disjoint_left.mp hslotPayload hx)

/-- **A chunk of less than `2 ^ 32` bytes is laid out soundly, and its header is found from
the payload whatever the user writes into the user header and the payload.** -/
theorem allocateChunk_recoverable (mem : Memory) (payloadSize alignment userSize : UInt64)
    (h : alignment.toNat.isPowerOfTwo)
    (hfit : Layout.allocated payloadSize.toNat alignment.toNat userSize.toNat < 2 ^ 32)
    (raw : Block (minAlign alignment) (allocationSize payloadSize alignment userSize)) :
    let (after, header) := allocateChunk mem payloadSize alignment userSize raw
    let payload := userPayload after header
    alignment.toNat ∣ payload.toNat ∧
      (parts header payload payloadSize.toNat userSize.toNat).Pairwise Disjoint ∧
      (∀ part ∈ parts header payload payloadSize.toNat userSize.toNat,
        part ⊆ region header (allocationSize payloadSize alignment userSize).toNat) ∧
      (minAlign alignment).toNat ∣ (allocationSize payloadSize alignment userSize).toNat ∧
      userHeader after header = (if userSize = 0 then none else some (header + headerSize)) ∧
      ∀ later : Memory,
        (∀ x, x ∉ region (header + headerSize) userSize.toNat →
          x ∉ region payload payloadSize.toNat → later x = after x) →
        fromUserPayload later (userPayload later header) = header := by
  have hpos := pos_of_isPowerOfTwo h
  have htotal := le_roundUp (Layout.payloadOffset alignment.toNat userSize.toNat +
    payloadSize.toNat) (by omega : 0 < max alignment.toNat 4)
  rw [← Layout.allocated] at htotal
  have huser := Layout.add_le_payloadOffset userSize.toNat hpos
  have hlt : Layout.payloadOffset alignment.toNat userSize.toNat < 2 ^ 32 := by omega
  have heq := toNat_alignedPayload h hlt
  have hsize := toNat_allocationSize h hlt (show payloadSize.toNat < 2 ^ 32 by omega)
  have hoffset : raw.address + alignedPayload alignment userSize =
      raw.address + UInt64.ofNat (Layout.payloadOffset alignment.toNat userSize.toNat) := by
    rw [← heq, UInt64.ofNat_toNat]
  have hpayload := userPayload_allocateChunk mem raw (by omega) (by omega)
  have hdisjoint : (parts raw.address (raw.address + alignedPayload alignment userSize)
      payloadSize.toNat userSize.toNat).Pairwise Disjoint := by
    rw [hoffset]
    exact pairwise_disjoint_parts huser (by omega)
  simp only [show (allocateChunk mem payloadSize alignment userSize raw).2 = raw.address from rfl,
    hpayload]
  refine ⟨?_, hdisjoint, ?_, ?_, userHeader_allocateChunk mem raw (by omega) (by omega), ?_⟩
  · rw [UInt64.toNat_add, heq]
    have hword : alignment.toNat ∣ 2 ^ 64 := dvd_two_pow_of_le h alignment.toNat_lt.le
    exact (Nat.dvd_mod_iff hword).mpr
      (Nat.dvd_add (raw.alignment_dvd_address h) (dvd_roundUp _ _))
  · rw [hoffset, hsize]
    exact subset_of_mem_parts huser htotal (by omega)
  · rw [hsize, toNat_minAlign]
    exact dvd_roundUp _ _
  · intro later hlater
    exact fromUserPayload_of_untouched raw (by omega) (by omega) hdisjoint hlater

theorem allocateChunk_recoverable_demoBlock :
    Layout.allocated 16 8 8 < 2 ^ 32 ∧
      ∀ later : Memory,
        (∀ x, x ∉ region (4096 + headerSize) 8 → x ∉ region (4096 + 32) 16 →
          later x = (allocateChunk (fun _ => 0) 16 8 8 demoBlock).1 x) →
        fromUserPayload later (userPayload later 4096) = 4096 := by
  have hfit : Layout.allocated 16 8 8 < 2 ^ 32 := by decide
  have hlayout := allocateChunk_recoverable (fun _ => 0) 16 8 8 ⟨3, rfl⟩ hfit demoBlock
  have hpayload : userPayload (allocateChunk (fun _ => 0) 16 8 8 demoBlock).1 4096 = 4096 + 32 := by
    decide +kernel
  refine ⟨hfit, fun later hlater => hlayout.2.2.2.2.2 later ?_⟩
  intro x huser hx
  exact hlater x huser (hpayload ▸ hx)

end CppCode.ChunkHead
