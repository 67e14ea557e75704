import CppCode.Loop.Counted
import Mathlib.Order.Defs.Unbundled

/-!
# CppCode.Sorter.Exchange

`Sorter` (`stand_cpp/014.template_policy/014.template_policy.cpp`): two nested loops that
exchange elements, with the comparison and the output as policies.

The inner loop for `i` leaves at `i` an element that none of the later ones compares before.
The elements before `i` are not touched, and what is behind `i` is only permuted, so no later
element compares before one of those either.
-/

namespace CppCode.Sorter

open Loop

/-! ### The policies -/

structure ComparePolicy where
  compare : Int32 → Int32 → Bool
  name : String

def ascendingCompare : ComparePolicy where
  compare a b := a < b
  name := "升序"

def descendingCompare : ComparePolicy where
  compare a b := a > b
  name := "降序"

/-- What `print` writes to the standard output. -/
structure OutputPolicy where
  print : {n : Nat} → Vector Int32 n → String

def inlineOutput : OutputPolicy where
  print {n} data := forFrom n 0 (fun i text => text ++ toString data[i] ++ " ") "" ++ "\n"

def bracketOutput : OutputPolicy where
  print {n} data :=
    let separated := fun (i : Fin n) text => if i.val > 0 then text ++ ", " else text
    forFrom n 0 (fun i text => separated i text ++ toString data[i]) "[" ++ "]\n"

/-! ### `Sorter` -/

variable {n : Nat} (C : ComparePolicy)

/-- The body of the inner loop. -/
def exchange (i j : Fin n) (data : Vector Int32 n) : Vector Int32 n :=
  if C.compare data[j] data[i] then data.swap i j else data

/-- The inner loop. -/
def innerLoop (i : Fin n) (data : Vector Int32 n) : Vector Int32 n :=
  forFrom n (i + 1) (exchange C i) data

/-- The two loops. -/
def sort (data : Vector Int32 n) : Vector Int32 n := forFrom n 0 (innerLoop C) data

/-- `Sorter::sort_and_print`, with what it writes. -/
def sortAndPrint (O : OutputPolicy) (data : Vector Int32 n) : String :=
  C.name ++ "排序: " ++ O.print (sort C data)

/-! ### The order -/

/-- `a` compares before `b`. -/
def ComparePolicy.Before (a b : Int32) : Prop := C.compare a b = true

section Order

variable {C} {a b c : Int32} [IsStrictTotalOrder Int32 C.Before]

/-- Of two elements, only one compares before the other. -/
theorem compare_asymm (h : C.compare a b = true) : C.compare b a = false := by
  rw [← Bool.not_eq_true]
  intro hba
  exact irrefl_of C.Before a (trans_of C.Before h hba)

/-- Not comparing before is transitive. -/
theorem compare_trans_false (hba : C.compare b a = false) (hcb : C.compare c b = false) :
    C.compare c a = false := by
  rw [← Bool.not_eq_true] at hba hcb ⊢
  intro hca
  exact hcb (trans_trichotomous_right (r := C.Before) hca hba)

end Order

theorem ascendingCompare_before (a b : Int32) : ascendingCompare.Before a b ↔ a < b :=
  decide_eq_true_iff

theorem descendingCompare_before (a b : Int32) : descendingCompare.Before a b ↔ b < a :=
  decide_eq_true_iff

instance : IsStrictTotalOrder Int32 ascendingCompare.Before where
  trichotomous a b hab hba := by
    rw [ascendingCompare_before, Int32.not_lt] at hab hba
    exact Int32.le_antisymm hba hab
  irrefl a := by
    rw [ascendingCompare_before]
    exact Int32.lt_irrefl
  trans a b c hab hbc := by
    rw [ascendingCompare_before] at hab hbc ⊢
    exact Int32.lt_trans hab hbc

instance : IsStrictTotalOrder Int32 descendingCompare.Before where
  trichotomous a b hab hba := by
    rw [descendingCompare_before, Int32.not_lt] at hab hba
    exact Int32.le_antisymm hab hba
  irrefl a := by
    rw [descendingCompare_before]
    exact Int32.lt_irrefl
  trans a b c hab hbc := by
    rw [descendingCompare_before] at hab hbc ⊢
    exact Int32.lt_trans hbc hab

/-! ### The loops -/

section Loops

variable {C} {data original : Vector Int32 n}

/-- A permutation of the original in which no element compares before one of the first `i` that
is before it. -/
structure Settled (C : ComparePolicy) (original : Vector Int32 n) (i : Nat)
    (data : Vector Int32 n) : Prop where
  perm : data.Perm original
  before : ∀ a b : Fin n, a.val < i → a < b → C.compare data[b] data[a] = false

/-- Within the inner loop for `i`, the elements behind `i` and before `j` do not compare before
the one at `i`. -/
structure Selecting (C : ComparePolicy) (original : Vector Int32 n) (i : Fin n) (j : Nat)
    (data : Vector Int32 n) : Prop where
  settled : Settled C original i data
  selected : ∀ b : Fin n, i < b → b.val < j → C.compare data[b] data[i] = false

/-- What the exchange of the elements at `i` and `j` leaves behind an earlier position comes
from behind it. -/
theorem exists_getElem_swap (data : Vector Int32 n) {i j a b : Fin n} (hai : a < i)
    (hij : i < j) (hab : a < b) :
    ∃ b' : Fin n, a < b' ∧ (data.swap i j)[b] = data[b'] := by
  by_cases hbi : b = i
  · subst hbi
    exact ⟨j, hai.trans hij, Vector.getElem_swap_left _ _⟩
  · by_cases hbj : b = j
    · subst hbj
      exact ⟨i, hai, Vector.getElem_swap_right _ _⟩
    · exact ⟨b, hab, Vector.getElem_swap_of_ne (Fin.val_ne_of_ne hbi) (Fin.val_ne_of_ne hbj)⟩

theorem Settled.swap {i j : Fin n} (hij : i < j) (h : Settled C original i data) :
    Settled C original i (data.swap i j) := by
  refine ⟨(Vector.swap_perm i.isLt j.isLt).trans h.perm, fun a b hai hab => ?_⟩
  have ha : (data.swap i j)[a] = data[a] := by
    apply Vector.getElem_swap_of_ne
    · omega
    · have := Fin.lt_def.mp hij
      omega
  obtain ⟨b', hab', hb⟩ := exists_getElem_swap data (Fin.lt_def.mpr hai) hij hab
  rw [ha, hb]
  exact h.before a b' hai hab'

theorem exchange_selecting [IsStrictTotalOrder Int32 C.Before] {i j : Fin n} (hij : i < j)
    (h : Selecting C original i j data) :
    Selecting C original i (j + 1) (exchange C i j data) := by
  unfold exchange
  split
  case isTrue hcompare =>
    refine ⟨h.settled.swap hij, fun b hib hbj => ?_⟩
    have hi : (data.swap i j)[i] = data[j] := Vector.getElem_swap_left _ _
    rw [hi]
    by_cases hb : b = j
    · -- the element that was at `i` does not compare before the one that replaces it
      subst hb
      have hj : (data.swap i b)[b] = data[i] := Vector.getElem_swap_right _ _
      rw [hj]
      exact compare_asymm hcompare
    · have hne : (data.swap i j)[b] = data[b] :=
        Vector.getElem_swap_of_ne (Fin.val_ne_of_ne (ne_of_gt hib)) (Fin.val_ne_of_ne hb)
      rw [hne]
      have hlt : b.val < j := by
        have := Fin.val_ne_of_ne hb
        omega
      exact compare_trans_false (compare_asymm hcompare) (h.selected b hib hlt)
  case isFalse hcompare =>
    refine ⟨h.settled, fun b hib hbj => ?_⟩
    by_cases hb : b = j
    · subst hb
      exact Bool.not_eq_true _ ▸ hcompare
    · have := Fin.val_ne_of_ne hb
      exact h.selected b hib (by omega)

theorem innerLoop_settled [IsStrictTotalOrder Int32 C.Before] {i : Fin n}
    (h : Settled C original i data) : Settled C original (i + 1) (innerLoop C i data) := by
  have hselecting : Selecting C original i n (innerLoop C i data) := by
    apply forFrom_invariant (I := Selecting C original i) i.isLt
    · refine ⟨h, fun b hib hbj => ?_⟩
      have := Fin.lt_def.mp hib
      omega
    · intro j data hij hj
      exact exchange_selecting (Fin.lt_def.mpr hij) hj
  refine ⟨hselecting.settled.perm, fun a b hai hab => ?_⟩
  rcases Nat.lt_or_ge a.val i with hlt | hge
  · exact hselecting.settled.before a b hlt hab
  · obtain rfl : a = i := Fin.ext (by omega)
    exact hselecting.selected b hab b.isLt

/-- **`Sorter` sorts.** For every strict total order, what is printed is a permutation of the
input in which no later element compares before an earlier one. -/
theorem sortAndPrint_sorted (C : ComparePolicy) [IsStrictTotalOrder Int32 C.Before] {n : Nat}
    (data : Vector Int32 n) :
    ∃ sorted : Vector Int32 n, sorted.Perm data ∧
      (∀ i j : Fin n, i < j → C.compare sorted[j] sorted[i] = false) ∧
      ∀ O : OutputPolicy, sortAndPrint C O data = C.name ++ "排序: " ++ O.print sorted := by
  have hsettled : Settled C data n (sort C data) := by
    apply forFrom_invariant (I := Settled C data) (Nat.zero_le n)
    · exact ⟨.refl data, fun a b ha => absurd ha (Nat.not_lt_zero _)⟩
    · intro i current _ h
      exact innerLoop_settled h
  exact ⟨sort C data, hsettled.perm, fun i j => hsettled.before i j i.isLt, fun _ => rfl⟩

end Loops

/-- The vector of `demo_multi_policy`. -/
theorem sortAndPrint_sorted_demo :
    ∃ sorted : Vector Int32 7, sorted.Perm #v[5, 3, 8, 1, 9, 2, 7] ∧
      (∀ i j : Fin 7, i < j → descendingCompare.compare sorted[j] sorted[i] = false) ∧
      ∀ O : OutputPolicy,
        sortAndPrint descendingCompare O #v[5, 3, 8, 1, 9, 2, 7] =
          "降序" ++ "排序: " ++ O.print sorted :=
  sortAndPrint_sorted descendingCompare #v[5, 3, 8, 1, 9, 2, 7]

end CppCode.Sorter
