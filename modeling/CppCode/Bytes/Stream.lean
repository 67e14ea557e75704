import Mathlib.Data.List.Basic
import Mathlib.Tactic.Ring

/-!
# CppCode.Bytes.Stream

**Fixed-size records in a stream.** A stream is what `List.flatMap encode` makes of a list
of records whose encodings all have the same length `n`. A position in the stream that is
a multiple of `n` lies between two records; the stream can be cut there without tearing
one.
-/

namespace Bytes

universe u v

variable {α : Type u} {β : Type v} {encode : α → List β} {n : Nat}

theorem length_flatMap (he : ∀ a, (encode a).length = n) (l : List α) :
    (l.flatMap encode).length = n * l.length := by
  induction l with
  | nil => simp
  | cons a l ih =>
      rw [List.flatMap_cons, List.length_append, he, ih, List.length_cons]
      ring

/-- Cutting a stream between two records. -/
theorem take_flatMap (he : ∀ a, (encode a).length = n) (l : List α) (k : Nat) :
    (l.flatMap encode).take (n * k) = (l.take k).flatMap encode := by
  induction l generalizing k with
  | nil => simp
  | cons a l ih =>
      cases k with
      | zero => simp
      | succ k =>
          have hk : n * (k + 1) = (encode a).length + n * k := by rw [he]; ring
          rw [List.take_succ_cons, List.flatMap_cons, List.flatMap_cons, hk,
            List.take_length_add_append, ih]

/-- Behind `k` whole records, the next `n` bytes of a stream are the next record. -/
theorem record_of_take_flatMap (he : ∀ a, (encode a).length = n) (hn : 0 < n) {l : List α}
    {k pos : Nat} {data rest : List β} (hk : k ≤ l.length) (hdata : data.length = n)
    (h : (l.flatMap encode).take pos = (l.take k).flatMap encode ++ (data ++ rest)) :
    ∃ a, l[k]? = some a ∧ data = encode a := by
  induction l generalizing k pos with
  | nil =>
      have hlength := congrArg List.length h
      simp only [List.flatMap_nil, List.take_nil, List.nil_append, List.length_nil,
        List.length_append] at hlength
      omega
  | cons a l ih =>
      rw [List.flatMap_cons] at h
      cases k with
      | zero =>
          refine ⟨a, rfl, ?_⟩
          rw [List.take_zero, List.flatMap_nil, List.nil_append] at h
          have hpos : n ≤ pos := by
            have hlength := congrArg List.length h
            simp only [List.length_take, List.length_append] at hlength
            omega
          calc data = (data ++ rest).take n := by rw [List.take_left' hdata]
            _ = (encode a ++ l.flatMap encode).take n := by
              rw [← h, List.take_take, Nat.min_eq_left hpos]
            _ = encode a := List.take_left' (he a)
      | succ k =>
          rw [List.take_succ_cons, List.flatMap_cons, List.append_assoc] at h
          -- the first record is whole on both sides
          have hpos : (encode a).length ≤ pos := by
            have hlength := congrArg List.length h
            simp only [List.length_take, List.length_append] at hlength
            omega
          rw [List.take_append, List.take_of_length_le hpos] at h
          exact ih (Nat.le_of_succ_le_succ hk) (List.append_cancel_left h)

end Bytes
