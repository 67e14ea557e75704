import Mathlib.Data.List.Basic
import Mathlib.Tactic.Ring

/-!
# CppCode.Bytes.LittleEndian

**Numbers as bytes, least significant byte first.** `toBytes n v` is the `n`-byte
representation of `v`; what does not fit into `n` bytes is dropped, as a store of a wider
value through a narrower type drops it.
-/

namespace Bytes

/-- The `n` low bytes of `v`. -/
def toBytes : Nat → Nat → List UInt8
  | 0, _ => []
  | n + 1, v => UInt8.ofNat v :: toBytes n (v / 256)

/-- The number that a list of bytes represents. -/
def ofBytes : List UInt8 → Nat
  | [] => 0
  | b :: bs => b.toNat + 256 * ofBytes bs

@[simp] theorem length_toBytes (n v : Nat) : (toBytes n v).length = n := by
  induction n generalizing v with
  | zero => rfl
  | succ n ih => rw [toBytes, List.length_cons, ih]

/-- Reading `n` bytes back keeps the value modulo `256 ^ n`. -/
theorem ofBytes_toBytes (n v : Nat) : ofBytes (toBytes n v) = v % 256 ^ n := by
  induction n generalizing v with
  | zero => simp [toBytes, ofBytes, Nat.mod_one]
  | succ n ih =>
      have hlow : (UInt8.ofNat v).toNat = v % 256 := UInt8.toNat_ofNat'
      have hsplit : v % 256 ^ (n + 1) = v % 256 + 256 * (v / 256 % 256 ^ n) := by
        rw [Nat.pow_succ', Nat.mod_mul]
      rw [toBytes, ofBytes, ih, hlow, hsplit]

/-- A value of `n` bytes survives the round trip. -/
theorem ofBytes_toBytes_of_lt {n v : Nat} (h : v < 256 ^ n) : ofBytes (toBytes n v) = v := by
  rw [ofBytes_toBytes, Nat.mod_eq_of_lt h]

/-- A list of bytes is the representation of its number. -/
theorem toBytes_ofBytes (bytes : List UInt8) : toBytes bytes.length (ofBytes bytes) = bytes := by
  induction bytes with
  | nil => rfl
  | cons b bytes ih =>
      have hhead : UInt8.ofNat (ofBytes (b :: bytes)) = b := by
        apply UInt8.toNat.inj
        have hb : b.toNat < 256 := b.toNat_lt
        rw [UInt8.toNat_ofNat', ofBytes]
        omega
      have hrest : ofBytes (b :: bytes) / 256 = ofBytes bytes := by
        have hb : b.toNat < 256 := b.toNat_lt
        rw [ofBytes]
        omega
      rw [List.length_cons, toBytes, hhead, hrest, ih]

theorem ofBytes_lt (bytes : List UInt8) : ofBytes bytes < 256 ^ bytes.length := by
  induction bytes with
  | nil => decide
  | cons b bytes ih =>
      have hb : b.toNat < 256 := b.toNat_lt
      rw [ofBytes, List.length_cons, Nat.pow_succ]
      omega

end Bytes
