import CppCode.Bytes.LittleEndian
import Mathlib.Data.List.Range

/-!
# CppCode.Bytes.Objects

**Memory objects that several processes see at addresses of their own.** The bytes belong to
the objects; a process has a view, which says for each of its addresses which byte of which
object is behind it, if any. A load or a store of a 64-bit word goes through the view byte by
byte, and there is none if one of the eight bytes is not mapped.

Where a view shows eight consecutive bytes of one object, a load is the word at that offset and
a store sets it, whatever the addresses are (`View.load_eq`, `View.store_eq`). Words at offsets
that do not overlap do not interfere.
-/

namespace Bytes

universe u

variable {ι : Type u}

/-- The contents of the objects, by offset. -/
abbrev Objects (ι : Type u) := ι → Nat → UInt8

namespace Objects

/-- The word at an offset of an object. -/
def word (m : Objects ι) (i : ι) (off : Nat) : UInt64 :=
  UInt64.ofNat (ofBytes ((List.range' off 8).map (m i)))

@[simp] theorem word_zero (i : ι) (off : Nat) : word (fun _ _ => 0) i off = 0 := by
  rw [word, List.map_const', List.length_range']
  rfl

variable [DecidableEq ι]

def setWord (m : Objects ι) (i : ι) (off : Nat) (v : UInt64) : Objects ι := fun j x =>
  if j = i ∧ off ≤ x then ((toBytes 8 v.toNat)[x - off]?).getD (m j x) else m j x

@[simp] theorem word_setWord_same (m : Objects ι) (i : ι) (off : Nat) (v : UInt64) :
    (m.setWord i off v).word i off = v := by
  have hbytes : (List.range' off 8).map (m.setWord i off v i) = toBytes 8 v.toNat := by
    apply List.ext_getElem (by simp)
    intro k hk hk'
    rw [List.getElem_map, List.getElem_range', setWord, if_pos ⟨rfl, by omega⟩]
    simp only [Nat.one_mul, Nat.add_sub_cancel_left]
    rw [List.getElem?_eq_getElem hk', Option.getD_some]
  rw [word, hbytes, ofBytes_toBytes_of_lt v.toNat_lt, UInt64.ofNat_toNat]

/-- A store changes no word that it does not overlap. -/
theorem word_setWord_of_ne (m : Objects ι) {i j : ι} {off off' : Nat} (v : UInt64)
    (h : j ≠ i ∨ off + 8 ≤ off' ∨ off' + 8 ≤ off) :
    (m.setWord i off v).word j off' = m.word j off' := by
  have hbytes : (List.range' off' 8).map (m.setWord i off v j) =
      (List.range' off' 8).map (m j) := by
    apply List.map_congr_left
    intro x hx
    obtain ⟨hle, hlt⟩ := List.mem_range'_1.mp hx
    unfold setWord
    split
    · next hin =>
      have hlen : (toBytes 8 v.toNat).length ≤ x - off := by
        rw [length_toBytes]
        rcases h with hne | h | h
        · exact absurd hin.1 hne
        · omega
        · omega
      rw [List.getElem?_eq_none hlen, Option.getD_none]
    · rfl
  rw [word, word, hbytes]

end Objects

/-- What a process has behind its addresses. -/
abbrev View (ι : Type u) := UInt64 → Option (ι × Nat)

namespace View

/-- The bytes behind `n` addresses, if all of them are mapped. -/
def places (view : View ι) : UInt64 → Nat → Option (List (ι × Nat))
  | _, 0 => some []
  | a, n + 1 =>
      match view a, places view (a + 1) n with
      | some p, some ps => some (p :: ps)
      | _, _ => none

/-- A load of a `uint64_t`. -/
def load (view : View ι) (m : Objects ι) (a : UInt64) : Option UInt64 :=
  (view.places a 8).map fun ps => UInt64.ofNat (ofBytes (ps.map fun p => m p.1 p.2))

/-- A store of a `uint64_t`. -/
def store [DecidableEq ι] (view : View ι) (m : Objects ι) (a v : UInt64) : Option (Objects ι) :=
  (view.places a 8).map fun ps i x =>
    ((ps.zip (toBytes 8 v.toNat)).lookup (i, x)).getD (m i x)

/-- From `a` on, the process sees `n` bytes of the object `i` from `off` on. -/
def Shows (view : View ι) (a : UInt64) (i : ι) (off n : Nat) : Prop :=
  ∀ k, k < n → view (a + UInt64.ofNat k) = some (i, off + k)

variable {view : View ι} {a : UInt64} {i : ι} {off n : Nat}

theorem Shows.places_eq (h : view.Shows a i off n) :
    view.places a n = some ((List.range' off n).map (i, ·)) := by
  induction n generalizing a off with
  | zero => rfl
  | succ n ih =>
      have hfirst : view a = some (i, off) := by
        simpa using h 0 (by omega)
      have hrest : view.Shows (a + 1) i (off + 1) n := by
        intro k hk
        have hnext := h (k + 1) (by omega)
        rw [UInt64.ofNat_add, UInt64.add_comm (UInt64.ofNat k), ← UInt64.add_assoc] at hnext
        rw [show off + 1 + k = off + (k + 1) by omega]
        exact hnext
      rw [places, hfirst, ih hrest]
      rfl

theorem load_eq (h : view.Shows a i off 8) (m : Objects ι) :
    view.load m a = some (m.word i off) := by
  rw [load, h.places_eq, Option.map_some, List.map_map]
  rfl

variable [DecidableEq ι]

theorem lookup_places (i : ι) (off : Nat) (bytes : List UInt8) (j : ι) (x : Nat) :
    (((List.range' off bytes.length).map (i, ·)).zip bytes).lookup (j, x) =
      if j = i ∧ off ≤ x then bytes[x - off]? else none := by
  induction bytes generalizing off with
  | nil => simp
  | cons b bytes ih =>
      rw [List.length_cons, List.range'_succ, List.map_cons, List.zip_cons_cons, List.lookup_cons,
        ih]
      by_cases hj : j = i
      · subst hj
        rcases Nat.lt_trichotomy x off with hlt | rfl | hlt
        · have hne : ((j, x) == (j, off)) = false := by
            rw [beq_eq_false_iff_ne]
            simp only [ne_eq, Prod.mk.injEq, true_and]
            omega
          rw [hne, if_neg (by omega), if_neg (by omega)]
        · simp
        · have hne : ((j, x) == (j, off)) = false := by
            rw [beq_eq_false_iff_ne]
            simp only [ne_eq, Prod.mk.injEq, true_and]
            omega
          rw [hne, if_pos ⟨rfl, by omega⟩, if_pos ⟨rfl, by omega⟩,
            show x - off = x - (off + 1) + 1 by omega, List.getElem?_cons_succ]
      · have hne : ((j, x) == (i, off)) = false := by
          rw [beq_eq_false_iff_ne]
          simp [hj]
        rw [hne, if_neg (by simp [hj]), if_neg (by simp [hj])]

theorem store_eq (h : view.Shows a i off 8) (m : Objects ι) (v : UInt64) :
    view.store m a v = some (m.setWord i off v) := by
  rw [store, h.places_eq, Option.map_some]
  congr 1
  funext j x
  have hlookup := lookup_places i off (toBytes 8 v.toNat) j x
  rw [length_toBytes] at hlookup
  rw [hlookup, Objects.setWord]
  split
  · rfl
  · rfl

end View

end Bytes
