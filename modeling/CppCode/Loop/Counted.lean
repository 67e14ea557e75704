import Mathlib.Data.List.FinRange

/-!
# CppCode.Loop.Counted

**Counted loops.** `forFrom n lo body` is `for (i = lo; i < n; ++i) body`: the state passes
through the body once for every index from `lo` on, in that order. What holds of the first
index and the state, and is carried by the body from one index to the next, holds at the end
(`forFrom_invariant`).
-/

namespace Loop

universe u

variable {σ : Type u} {n : Nat}

/-- `for (i = lo; i < n; ++i) body`. -/
def forFrom (n lo : Nat) (body : Fin n → σ → σ) (s : σ) : σ :=
  ((List.finRange n).drop lo).foldl (fun s i => body i s) s

theorem forFrom_of_le {lo : Nat} (body : Fin n → σ → σ) (s : σ) (h : n ≤ lo) :
    forFrom n lo body s = s := by
  rw [forFrom, List.drop_eq_nil_of_le (by rw [List.length_finRange]; exact h), List.foldl_nil]

theorem forFrom_of_lt {lo : Nat} (body : Fin n → σ → σ) (s : σ) (h : lo < n) :
    forFrom n lo body s = forFrom n (lo + 1) body (body ⟨lo, h⟩ s) := by
  have hlength : lo < (List.finRange n).length := by rwa [List.length_finRange]
  rw [forFrom, List.drop_eq_getElem_cons hlength, List.foldl_cons, List.getElem_finRange]
  rfl

/-- **Loop rule.** -/
theorem forFrom_invariant {I : Nat → σ → Prop} {body : Fin n → σ → σ} {lo : Nat} {s : σ}
    (hlo : lo ≤ n) (hinit : I lo s)
    (hstep : ∀ (i : Fin n) s, lo ≤ i → I i s → I (i + 1) (body i s)) :
    I n (forFrom n lo body s) := by
  induction hk : n - lo generalizing lo s with
  | zero =>
      obtain rfl : lo = n := by omega
      rwa [forFrom_of_le body s (Nat.le_refl lo)]
  | succ k ih =>
      have hlt : lo < n := by omega
      rw [forFrom_of_lt body s hlt]
      refine ih hlt (hstep ⟨lo, hlt⟩ s (Nat.le_refl lo) hinit) ?_ (by omega)
      intro i t hi
      exact hstep i t (by omega)

end Loop
