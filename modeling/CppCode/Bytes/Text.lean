import Mathlib.Data.List.DropRight
import Mathlib.Data.List.TakeWhile

/-!
# CppCode.Bytes.Text

**Lines, and what surrounds them.** `deleteFrom` walks over a text and leaves out what a matcher
matches, from the left and without overlap; `strip` removes a kind of element from both ends.
`getline` cuts off the first line of a text; the lines it yields one after the other are those
between the separators, short of an empty one after the last separator.
-/

namespace Bytes

universe u

variable {α : Type u} {p : α → Bool} {l : List α}

/-! ### Deleting matches -/

/-- Leave out the matches of `matchLength`, which is told whether it is at the start of the text
and answers with the length of the match, `0` if there is none. The first `skip` elements belong
to a match that has been found. -/
def deleteFrom (matchLength : Bool → List α → Nat) : Bool → Nat → List α → List α
  | _, _, [] => []
  | _, skip + 1, _ :: rest => deleteFrom matchLength false skip rest
  | atStart, 0, a :: rest =>
      match matchLength atStart (a :: rest) with
      | 0 => a :: deleteFrom matchLength false 0 rest
      | skip + 1 => deleteFrom matchLength false skip rest

variable {matchLength : Bool → List α → Nat}

/-- Behind a match the walk goes on as if the text began there, but not at its start. -/
theorem deleteFrom_skip (skip : Nat) (l : List α) :
    deleteFrom matchLength false skip l = deleteFrom matchLength false 0 (l.drop skip) := by
  induction skip generalizing l with
  | zero => rw [List.drop_zero]
  | succ skip ih =>
      cases l with
      | nil => rfl
      | cons a rest =>
          rw [deleteFrom, ih, List.drop_succ_cons]

/-! ### Both ends -/

/-- Without the elements of some kind at both ends. -/
def strip (p : α → Bool) (l : List α) : List α := (l.dropWhile p).rdropWhile p

/-- What is left when both ends are removed. -/
theorem strip_spec (p : α → Bool) (l : List α) :
    ∃ before after, l = before ++ strip p l ++ after ∧ (∀ a ∈ before, p a = true) ∧
      (∀ a ∈ after, p a = true) ∧ (∀ a ∈ (strip p l).head?, p a = false) ∧
      ∀ a ∈ (strip p l).getLast?, p a = false := by
  have hsplit : strip p l ++ (l.dropWhile p).rtakeWhile p = l.dropWhile p :=
    List.rdropWhile_append_rtakeWhile
  refine ⟨l.takeWhile p, (l.dropWhile p).rtakeWhile p, ?_, fun a => List.mem_takeWhile_imp,
    fun a => List.mem_rtakeWhile_imp, ?_, ?_⟩
  · rw [List.append_assoc, hsplit, List.takeWhile_append_dropWhile]
  · intro a ha
    have hhead := List.head?_dropWhile_not p l
    rw [← hsplit, List.head?_append, ha] at hhead
    exact hhead
  · intro a ha
    obtain ⟨hne, rfl⟩ := List.mem_getLast?_eq_getLast ha
    exact Bool.eq_false_iff.mpr (List.rdropWhile_last_not p _ hne)

theorem strip_ne_nil_iff : strip p l ≠ [] ↔ ∃ a ∈ l, p a = false := by
  obtain ⟨before, after, hsplit, hbefore, hafter, hhead, -⟩ := strip_spec p l
  constructor
  · intro hne
    obtain ⟨a, rest, hstrip⟩ := List.exists_cons_of_ne_nil hne
    refine ⟨a, ?_, hhead a (by rw [hstrip]; rfl)⟩
    rw [hsplit, hstrip]
    simp
  · rintro ⟨a, ha, hpa⟩ hnil
    rw [hsplit, hnil, List.append_nil] at ha
    rcases List.mem_append.mp ha with ha | ha
    · rw [hbefore a ha] at hpa
      cases hpa
    · rw [hafter a ha] at hpa
      cases hpa

/-- The right end, seen from the left. -/
theorem rdropWhile_cons (p : α → Bool) (a : α) (l : List α) :
    (a :: l).rdropWhile p = if (a :: l).all p then [] else a :: l.rdropWhile p := by
  rw [List.rdropWhile, List.reverse_cons, List.dropWhile_append]
  by_cases hl : l.all p = true
  · have hnil : l.reverse.dropWhile p = [] := by
      rw [List.dropWhile_eq_nil_iff]
      simpa using hl
    cases ha : p a <;> simp [List.rdropWhile, hnil, hl, ha]
  · have hne : l.reverse.dropWhile p ≠ [] := by
      rw [Ne, List.dropWhile_eq_nil_iff]
      simpa using hl
    have hall : (a :: l).all p = false := by simpa using fun _ => by simpa using hl
    rw [hall]
    simp [List.rdropWhile, hne]

/-! ### Lines -/

variable [DecidableEq α] {sep : α}

/-- The first line, without its separator, and what follows it; `none` at the end of the text. -/
def getline (sep : α) : List α → Option (List α × List α)
  | [] => none
  | a :: rest =>
      some ((a :: rest).takeWhile (· ≠ sep), ((a :: rest).dropWhile (· ≠ sep)).tail)

theorem length_of_getline {line rest : List α} (h : getline sep l = some (line, rest)) :
    rest.length < l.length := by
  cases l with
  | nil => cases h
  | cons a l =>
      cases h
      have hle := (List.dropWhile_suffix (l := a :: l) (· ≠ sep)).length_le
      rw [List.length_tail]
      simp only [List.length_cons] at hle ⊢
      omega

/-- A line cut off is the first one between the separators. -/
theorem splitOn_of_getline {line rest : List α} (h : getline sep l = some (line, rest)) :
    l.splitOn sep = line :: rest.splitOn sep ∨ l.splitOn sep = [line] ∧ rest = [] := by
  cases l with
  | nil => cases h
  | cons a l =>
      cases h
      have hline : sep ∉ (a :: l).takeWhile (· ≠ sep) := by
        intro hmem
        simpa using List.mem_takeWhile_imp hmem
      have happend := List.takeWhile_append_dropWhile (p := (· ≠ sep)) (l := a :: l)
      cases hrest : (a :: l).dropWhile (· ≠ sep) with
      | nil =>
          rw [hrest, List.append_nil] at happend
          refine .inr ⟨?_, rfl⟩
          conv_lhs => rw [← happend]
          exact List.splitOn_eq_singleton hline
      | cons b rest =>
          have hb : b = sep := by
            have hhead := List.head?_dropWhile_not (· ≠ sep) (a :: l)
            rw [hrest] at hhead
            simpa using hhead
          rw [hrest, hb] at happend
          refine .inl ?_
          conv_lhs => rw [← happend]
          exact List.splitOn_append_cons_self_of_not_mem hline rest

/-- The lines of a text that have ended, without their separators. -/
def completeLines (sep : α) (l : List α) : List (List α) := (l.splitOn sep).dropLast

theorem completeLines_append_cons {line : List α} (h : sep ∉ line) (rest : List α) :
    completeLines sep (line ++ sep :: rest) = line :: completeLines sep rest := by
  unfold completeLines
  rw [List.splitOn_append_cons_self_of_not_mem h, List.dropLast_cons_of_ne_nil]
  exact List.splitOn_ne_nil sep rest

theorem completeLines_of_not_mem (h : sep ∉ l) : completeLines sep l = [] := by
  unfold completeLines
  rw [List.splitOn_eq_singleton h]
  rfl

/-- The lines of a text made of lines. -/
theorem completeLines_flatMap {lines : List (List α)} (h : ∀ line ∈ lines, sep ∉ line)
    (rest : List α) :
    completeLines sep (lines.flatMap (· ++ [sep]) ++ rest) = lines ++ completeLines sep rest := by
  induction lines with
  | nil => rfl
  | cons line lines ih =>
      rw [List.flatMap_cons, List.append_assoc, List.append_assoc, List.singleton_append,
        completeLines_append_cons (h line (List.mem_cons_self ..)),
        ih fun line hline => h line (List.mem_cons_of_mem _ hline), List.cons_append]

end Bytes
