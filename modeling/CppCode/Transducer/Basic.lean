import Mathlib.Data.List.Induction

/-!
# CppCode.Transducer.Basic

**Step functions with an output.** A `Transducer` reads its input from left to right and
answers every input with one output. Two of them answer alike when a relation between
their states survives every step and the outputs of related states agree
(`run_eq_of_simulation`); what the state remembers of the input read so far is an
invariant between prefixes and states (`stateAfter_invariant`).
-/

universe u v w z

/-- A start state, and a step from a state and an input to a state and an output. -/
structure Transducer (σ : Type u) (α : Type v) (β : Type w) where
  initial : σ
  step : σ → α → σ × β

namespace Transducer

variable {σ : Type u} {τ : Type z} {α : Type v} {β : Type w} (T : Transducer σ α β)

/-- The outputs from state `s` on. -/
def runFrom : σ → List α → List β
  | _, [] => []
  | s, a :: rest => (T.step s a).2 :: runFrom (T.step s a).1 rest

/-- The outputs from the start. -/
def run (input : List α) : List β :=
  T.runFrom T.initial input

/-- The state once `input` is read. -/
def stateAfter (input : List α) : σ :=
  input.foldl (fun s a => (T.step s a).1) T.initial

theorem stateAfter_concat (input : List α) (a : α) :
    T.stateAfter (input ++ [a]) = (T.step (T.stateAfter input) a).1 := by
  simp [stateAfter]

theorem runFrom_concat (s : σ) (input : List α) (a : α) :
    T.runFrom s (input ++ [a]) =
      T.runFrom s input ++ [(T.step (input.foldl (fun s a => (T.step s a).1) s) a).2] := by
  induction input generalizing s with
  | nil => rfl
  | cons b rest ih =>
      simp only [List.cons_append, runFrom, List.foldl_cons]
      rw [ih]

/-- The last output is the answer of the state before it. -/
theorem run_concat (input : List α) (a : α) :
    T.run (input ++ [a]) = T.run input ++ [(T.step (T.stateAfter input) a).2] :=
  T.runFrom_concat T.initial input a

/-- One output for every input. -/
@[simp] theorem length_run (input : List α) : (T.run input).length = input.length := by
  induction input using List.reverseRecOn with
  | nil => rfl
  | append_singleton input a ih => simp [T.run_concat, ih]

/-- The output at position `i` is the answer of the state after the first `i` inputs. -/
theorem getElem?_run (input : List α) (i : Nat) :
    (T.run input)[i]? = input[i]?.map (fun a => (T.step (T.stateAfter (input.take i)) a).2) := by
  induction input using List.reverseRecOn with
  | nil => simp [run, runFrom]
  | append_singleton input a ih =>
      rw [T.run_concat]
      rcases Nat.lt_trichotomy i input.length with hlt | heq | hgt
      · rw [List.getElem?_append_left (by simpa using hlt), ih,
          List.getElem?_append_left hlt, List.take_append_of_le_length (Nat.le_of_lt hlt)]
      · subst heq
        simp
      · rw [List.getElem?_eq_none (by simp; omega), List.getElem?_eq_none (by simp; omega)]
        rfl

/-- What comes later does not change an output. -/
theorem getElem?_run_take (input : List α) {i j : Nat} (h : i < j) :
    (T.run (input.take j))[i]? = (T.run input)[i]? := by
  rw [getElem?_run, getElem?_run, List.getElem?_take_of_lt h, List.take_take,
    Nat.min_eq_left (Nat.le_of_lt h)]

/-- What holds between the input that is read and the state, at the start and across every
step, holds after every input. -/
theorem stateAfter_invariant (Inv : List α → σ → Prop) (hinit : Inv [] T.initial)
    (hstep : ∀ input a, Inv input (T.stateAfter input) →
      Inv (input ++ [a]) (T.step (T.stateAfter input) a).1)
    (input : List α) : Inv input (T.stateAfter input) := by
  induction input using List.reverseRecOn with
  | nil => exact hinit
  | append_singleton input a ih =>
      rw [T.stateAfter_concat]
      exact hstep input a ih

/-- **Simulation.** Two transducers whose states stay related and answer alike while they
are have the same outputs. -/
theorem run_eq_of_simulation (U : Transducer τ α β) {allowed : α → Prop} (Rel : σ → τ → Prop)
    (hinit : Rel T.initial U.initial)
    (hstep : ∀ s t a, allowed a → Rel s t →
      Rel (T.step s a).1 (U.step t a).1 ∧ (T.step s a).2 = (U.step t a).2)
    (input : List α) (h : ∀ a ∈ input, allowed a) : T.run input = U.run input := by
  suffices hfrom : ∀ s t, Rel s t → T.runFrom s input = U.runFrom t input from
    hfrom _ _ hinit
  induction input with
  | nil =>
      intro s t _
      rfl
  | cons a rest ih =>
      intro s t hrel
      obtain ⟨hnext, hout⟩ := hstep s t a (h a (by simp)) hrel
      simp only [runFrom]
      rw [hout, ih (fun b hb => h b (by simp [hb])) _ _ hnext]

end Transducer
