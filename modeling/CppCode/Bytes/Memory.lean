import CppCode.Bytes.LittleEndian
import Mathlib.Data.Set.Disjoint
import Mathlib.Data.Nat.Bitwise
import Mathlib.Order.CompletePartialOrder
import Mathlib.Tactic.NormNum

/-!
# CppCode.Bytes.Memory

**A byte-addressed memory with 64-bit addresses.** Address arithmetic wraps, as pointer
arithmetic on the machine does. What lies at a fixed base is described by natural-number
offsets from it: two accesses at disjoint offsets below `2 ^ 64` do not interfere, wherever
the base is.

The second half is the round-up to a power-of-two alignment, on natural numbers and as the
mask `(value + alignment - 1) & ~(alignment - 1)` computes it on machine words.
-/

namespace Bytes

/-- The contents of every address. -/
abbrev Memory := UInt64 → UInt8

/-- The `n` addresses from `a` on. -/
def region (a : UInt64) (n : Nat) : Set UInt64 := {x | (x - a).toNat < n}

namespace Memory

/-- `bs` stored from address `a` on. -/
def write (m : Memory) (a : UInt64) (bs : List UInt8) : Memory :=
  fun x => (bs[(x - a).toNat]?).getD (m x)

/-- The `n` bytes from address `a` on. -/
def read (m : Memory) (a : UInt64) (n : Nat) : List UInt8 :=
  (List.range n).map fun i => m (a + UInt64.ofNat i)

/-- A store of a `uint32_t`. -/
def writeUInt32 (m : Memory) (a : UInt64) (v : UInt32) : Memory :=
  m.write a (toBytes 4 v.toNat)

/-- A load of a `uint32_t`. -/
def readUInt32 (m : Memory) (a : UInt64) : UInt32 :=
  UInt32.ofNat (ofBytes (m.read a 4))

end Memory

/-! ### Offsets from a base -/

/-- The distance from one offset of a base to a later one. -/
theorem toNat_offset_sub (base : UInt64) {c d : Nat} (hcd : c ≤ d) (hd : d < 2 ^ 64) :
    (base + UInt64.ofNat d - (base + UInt64.ofNat c)).toNat = d - c := by
  have hbase := base.toNat_lt
  rw [UInt64.toNat_sub, UInt64.toNat_add, UInt64.toNat_add, UInt64.toNat_ofNat',
    UInt64.toNat_ofNat', Nat.mod_eq_of_lt hd, Nat.mod_eq_of_lt (by omega : c < 2 ^ 64)]
  omega

theorem toNat_offset (base : UInt64) {d : Nat} (hd : d < 2 ^ 64) :
    (base + UInt64.ofNat d - base).toNat = d := by
  have h := toNat_offset_sub base (Nat.zero_le d) hd
  rwa [show UInt64.ofNat 0 = 0 from rfl, UInt64.add_zero] at h

theorem mem_region_offset {base x : UInt64} {c n : Nat} (hn : c + n ≤ 2 ^ 64) :
    x ∈ region (base + UInt64.ofNat c) n ↔ ∃ i, i < n ∧ x = base + UInt64.ofNat (c + i) := by
  constructor
  · intro hx
    refine ⟨(x - (base + UInt64.ofNat c)).toNat, hx, ?_⟩
    rw [UInt64.ofNat_add, UInt64.ofNat_toNat, ← UInt64.add_assoc, UInt64.add_comm,
      UInt64.sub_add_cancel]
  · rintro ⟨i, hi, rfl⟩
    show (_ : UInt64).toNat < n
    rw [toNat_offset_sub base (by omega) (by omega)]
    omega

/-- Regions at disjoint offsets of one base are disjoint. -/
theorem disjoint_region (base : UInt64) {c d n k : Nat} (hcd : c + n ≤ d) (hd : d + k ≤ 2 ^ 64) :
    Disjoint (region (base + UInt64.ofNat c) n) (region (base + UInt64.ofNat d) k) := by
  rw [Set.disjoint_left]
  intro x hc hx
  obtain ⟨i, hi, rfl⟩ := (mem_region_offset (by omega)).mp hc
  obtain ⟨j, hj, heq⟩ := (mem_region_offset hd).mp hx
  have hzero := toNat_offset_sub base (show c + i ≤ d + j by omega) (by omega)
  rw [← heq, UInt64.sub_self, UInt64.toNat_zero] at hzero
  omega

/-- A region at an offset of a base lies inside every larger region at that base. -/
theorem region_subset (base : UInt64) {c n size : Nat} (h : c + n ≤ size)
    (hsize : size ≤ 2 ^ 64) : region (base + UInt64.ofNat c) n ⊆ region base size := by
  intro x hx
  obtain ⟨i, hi, rfl⟩ := (mem_region_offset (by omega)).mp hx
  show (_ : UInt64).toNat < size
  rw [toNat_offset base (by omega)]
  omega

/-! ### Reads and writes -/

namespace Memory

@[simp] theorem length_read (m : Memory) (a : UInt64) (n : Nat) : (m.read a n).length = n := by
  simp [read]

/-- A read depends on the region it reads only. -/
theorem read_congr {m m' : Memory} {a : UInt64} {n : Nat} (hn : n ≤ 2 ^ 64)
    (h : ∀ x ∈ region a n, m' x = m x) : m'.read a n = m.read a n := by
  apply List.map_congr_left
  intro i hi
  rw [List.mem_range] at hi
  apply h
  show (_ : UInt64).toNat < n
  rwa [toNat_offset a (by omega)]

/-- Reading what has just been written. -/
theorem read_write_same (m : Memory) (a : UInt64) (bs : List UInt8) (hbs : bs.length ≤ 2 ^ 64) :
    (m.write a bs).read a bs.length = bs := by
  apply List.ext_getElem (length_read _ _ _)
  intro i hi hi'
  have hoffset : (a + UInt64.ofNat i - a).toNat = i := toNat_offset a (by omega)
  simp only [read, write, List.getElem_map, List.getElem_range, hoffset]
  rw [List.getElem?_eq_getElem hi', Option.getD_some]

/-- A write changes nothing outside the region it writes. -/
theorem write_of_notMem {m : Memory} {a x : UInt64} {bs : List UInt8}
    (hx : x ∉ region a bs.length) : m.write a bs x = m x := by
  have hle : bs.length ≤ (x - a).toNat := Nat.not_lt.mp hx
  rw [write, List.getElem?_eq_none hle, Option.getD_none]

theorem readUInt32_writeUInt32_same (m : Memory) (a : UInt64) (v : UInt32) :
    (m.writeUInt32 a v).readUInt32 a = v := by
  have hread := read_write_same m a (toBytes 4 v.toNat) (by simp)
  rw [length_toBytes] at hread
  rw [readUInt32, writeUInt32, hread, ofBytes_toBytes_of_lt v.toNat_lt, UInt32.ofNat_toNat]

theorem readUInt32_congr {m m' : Memory} {a : UInt64} (h : ∀ x ∈ region a 4, m' x = m x) :
    m'.readUInt32 a = m.readUInt32 a := by
  rw [readUInt32, readUInt32, read_congr (by omega) h]

theorem writeUInt32_of_notMem {m : Memory} {a x : UInt64} {v : UInt32} (hx : x ∉ region a 4) :
    m.writeUInt32 a v x = m x := by
  apply write_of_notMem
  rwa [length_toBytes]

/-- A load at an offset of a base does not see a store at a disjoint one. -/
theorem readUInt32_writeUInt32_disjoint (m : Memory) {a b : UInt64} (v : UInt32)
    (h : Disjoint (region a 4) (region b 4)) :
    (m.writeUInt32 b v).readUInt32 a = m.readUInt32 a :=
  readUInt32_congr fun _ hx => writeUInt32_of_notMem (Set.disjoint_left.mp h hx)

end Memory

/-! ### Rounding up to an alignment -/

/-- The least multiple of `alignment` that is at least `value`. -/
def roundUp (value alignment : Nat) : Nat := (value + (alignment - 1)) / alignment * alignment

theorem dvd_roundUp (value alignment : Nat) : alignment ∣ roundUp value alignment :=
  Nat.dvd_mul_left _ _

theorem le_roundUp (value : Nat) {alignment : Nat} (h : 0 < alignment) :
    value ≤ roundUp value alignment := by
  have hdiv := Nat.div_add_mod (value + (alignment - 1)) alignment
  have hmod := Nat.mod_lt (value + (alignment - 1)) h
  rw [roundUp, Nat.mul_comm]
  omega

theorem roundUp_le_add (value alignment : Nat) :
    roundUp value alignment ≤ value + (alignment - 1) :=
  Nat.div_mul_le_self _ _

/-- A multiple of the alignment is reached by the round-up if the value does not exceed it. -/
theorem roundUp_le_iff (value : Nat) {alignment bound : Nat} (h : 0 < alignment)
    (hbound : alignment ∣ bound) : roundUp value alignment ≤ bound ↔ value ≤ bound := by
  refine ⟨fun hle => (le_roundUp value h).trans hle, fun hle => ?_⟩
  obtain ⟨q, rfl⟩ := hbound
  have hlt : (value + (alignment - 1)) / alignment < q + 1 := by
    rw [Nat.div_lt_iff_lt_mul h, Nat.add_mul, Nat.mul_comm q]
    omega
  rw [roundUp, Nat.mul_comm]
  exact Nat.mul_le_mul_left alignment (by omega)

/-- The round-up stays below a multiple of the alignment if a whole alignment fits above the
value. -/
theorem roundUp_lt_iff {value alignment bound : Nat} (h : 0 < alignment)
    (hbound : alignment ∣ bound) :
    roundUp value alignment < bound ↔ value + alignment ≤ bound := by
  have hle := le_roundUp value h
  have hadd := roundUp_le_add value alignment
  constructor
  · intro hlt
    have hgap := Nat.le_of_dvd (by omega) (Nat.dvd_sub hbound (dvd_roundUp value alignment))
    omega
  · intro _
    omega

/-- `~(2 ^ k - 1)` clears the low `k` bits. -/
theorem toNat_and_not_mask {v a : UInt64} {k : Nat} (ha : a.toNat = 2 ^ k) :
    (v &&& ~~~(a - 1)).toNat = v.toNat / 2 ^ k * 2 ^ k := by
  have hlt := v.toNat_lt
  have hmask : (a - 1).toNat = 2 ^ k - 1 := by
    have hone : 1 ≤ a := by
      rw [UInt64.le_iff_toNat_le, ha]
      exact Nat.one_le_two_pow
    rw [UInt64.toNat_sub_of_le _ _ hone, ha]
    rfl
  apply Nat.eq_of_testBit_eq
  intro i
  have hnot : ((~~~(a - 1)).toNat).testBit i = (decide (i < 64) && !decide (i < k)) := by
    have hnat : (~~~(a - 1)).toNat = 2 ^ 64 - ((2 ^ k - 1) + 1) := by
      rw [UInt64.toNat_not, hmask, UInt64.size]
      omega
    have hk : 2 ^ k - 1 < 2 ^ 64 := by
      rw [← hmask]
      exact (a - 1).toNat_lt
    rw [hnat, Nat.testBit_two_pow_sub_succ hk, Nat.testBit_two_pow_sub_one]
  rw [UInt64.toNat_and, Nat.testBit_and, hnot, Nat.testBit_mul_two_pow, Nat.testBit_div_two_pow]
  by_cases hik : i < k
  · simp [hik, Nat.not_le.mpr hik]
  · by_cases hi : i < 64
    · simp [hik, hi, Nat.not_lt.mp hik]
    · have hbit : v.toNat.testBit i = false :=
        Nat.testBit_lt_two_pow (hlt.trans_le (Nat.pow_le_pow_right (by omega) (Nat.not_lt.mp hi)))
      simp [hbit, Nat.not_lt.mp hik]

/-- The masked sum is the round-up, if the sum does not wrap. -/
theorem toNat_mask_eq_roundUp {v a : UInt64} {k : Nat} (ha : a.toNat = 2 ^ k)
    (hfit : v.toNat + (a.toNat - 1) < 2 ^ 64) :
    ((v + a - 1) &&& ~~~(a - 1)).toNat = roundUp v.toNat a.toNat := by
  have hpos : 1 ≤ a.toNat := by
    rw [ha]
    exact Nat.one_le_two_pow
  have hsum : (v + a - 1).toNat = v.toNat + (a.toNat - 1) := by
    have := v.toNat_lt
    rw [UInt64.toNat_sub, UInt64.toNat_add]
    show (2 ^ 64 - 1 + (v.toNat + a.toNat) % 2 ^ 64) % 2 ^ 64 = _
    omega
  rw [toNat_and_not_mask ha, hsum, roundUp, ha]

end Bytes
