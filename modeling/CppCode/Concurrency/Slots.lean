import Mathlib.Algebra.GroupWithZero.Nat
import Mathlib.Data.List.Basic

/-!
# CppCode.Concurrency.Slots

**One entry of a list changes.** Pools of threads and lists of calls in progress are
lists in which a step adds an entry at the end, or replaces or removes the one at some
position. These lemmas say what that does to membership, to the entries of some kind and to
counts; the latter are stated additively, so that `omega` can use them.
-/

namespace Concurrency

universe u

variable {α : Type u} {l : List α} {i : Nat} {a : α}

/-- The list around position `i`, and what becomes of it when the entry there is
replaced or removed. -/
theorem exists_split (h : l[i]? = some a) :
    ∃ l₁ l₂, l = l₁ ++ a :: l₂ ∧ (∀ b, l.set i b = l₁ ++ b :: l₂) ∧ l.eraseIdx i = l₁ ++ l₂ := by
  induction l generalizing i with
  | nil => simp at h
  | cons x xs ih =>
      cases i with
      | zero =>
          obtain rfl : x = a := by simpa using h
          exact ⟨[], xs, rfl, fun _ => rfl, rfl⟩
      | succ i =>
          obtain ⟨l₁, l₂, hl, hset, herase⟩ := ih (by simpa using h)
          refine ⟨x :: l₁, l₂, by rw [hl]; rfl, fun b => ?_, ?_⟩
          · rw [List.set_cons_succ, hset]
            rfl
          · rw [List.eraseIdx_cons_succ, herase]
            rfl

theorem mem_concat {b : α} : a ∈ l ++ [b] ↔ a ∈ l ∨ a = b := by
  simp

/-- Where a list with one more entry at its end can be split. -/
theorem concat_split {b x : α} {l₁ l₂ : List α} (h : l ++ [b] = l₁ ++ x :: l₂) :
    (l₁ = l ∧ x = b ∧ l₂ = []) ∨ ∃ l₃, l₂ = l₃ ++ [b] ∧ l = l₁ ++ x :: l₃ := by
  rcases List.eq_nil_or_concat l₂ with rfl | ⟨l₃, y, rfl⟩
  · obtain ⟨h₁, h₂⟩ := List.append_inj' h rfl
    exact .inl ⟨h₁.symm, by simpa using h₂.symm, rfl⟩
  · rw [List.concat_eq_append] at h ⊢
    rw [← List.cons_append, ← List.append_assoc] at h
    obtain ⟨h₁, h₂⟩ := List.append_inj' h rfl
    obtain rfl : b = y := by simpa using h₂
    exact .inr ⟨l₃, rfl, h₁⟩

/-- The entry at position `j` once the one at `i` is replaced. -/
theorem getElem?_set_cases {b x : α} {j : Nat} (h : (l.set i b)[j]? = some x) :
    (j = i ∧ x = b) ∨ (j ≠ i ∧ l[j]? = some x) := by
  by_cases hj : j = i
  · subst hj
    have hlt : j < l.length := by simpa using (List.getElem?_eq_some_iff.mp h).1
    rw [List.getElem?_set_self hlt] at h
    exact .inl ⟨rfl, (Option.some.inj h).symm⟩
  · rw [List.getElem?_set_ne (Ne.symm hj)] at h
    exact .inr ⟨hj, h⟩

/-- The entry at position `j` once one is added at the end. -/
theorem getElem?_concat_cases {x : α} {j : Nat} (h : (l ++ [a])[j]? = some x) :
    l[j]? = some x ∨ (j = l.length ∧ x = a) := by
  rcases Nat.lt_or_ge j l.length with hlt | hge
  · rw [List.getElem?_append_left hlt] at h
    exact .inl h
  · have hlen : j < (l ++ [a]).length := (List.getElem?_eq_some_iff.mp h).1
    obtain rfl : j = l.length := by
      rw [List.length_append, List.length_singleton] at hlen
      omega
    exact .inr ⟨rfl, by simpa using h.symm⟩

/-- Replacing an entry does not show in an image in which both look alike. -/
theorem map_set_of_eq {β : Type*} {f : α → β} {b : α} (h : l[i]? = some a) (hf : f b = f a) :
    (l.set i b).map f = l.map f := by
  obtain ⟨l₁, l₂, hl, hset, -⟩ := exists_split h
  rw [hset, hl, List.map_append, List.map_append, List.map_cons, List.map_cons, hf]

theorem filterMap_set_of_eq {β : Type*} {f : α → Option β} {b : α} (h : l[i]? = some a)
    (hf : f b = f a) : (l.set i b).filterMap f = l.filterMap f := by
  obtain ⟨l₁, l₂, hl, hset, -⟩ := exists_split h
  rw [hset, hl, List.filterMap_append, List.filterMap_append, List.filterMap_cons,
    List.filterMap_cons, hf]

/-- The entry that is put in place is the last one with an image, if none after it has one. -/
theorem getLast?_filterMap_set {β : Type*} {f : α → Option β} {b : α} {x : β}
    (h : l[i]? = some a) (hb : f b = some x)
    (hlater : ∀ (j : Nat) y, l[j]? = some y → i < j → f y = none) :
    ((l.set i b).filterMap f).getLast? = some x := by
  have hset : l.set i b = l.take i ++ b :: l.drop (i + 1) :=
    List.set_eq_take_append_cons_drop.trans (if_pos (List.getElem?_eq_some_iff.mp h).1)
  have hdrop : (l.drop (i + 1)).filterMap f = [] := by
    refine List.filterMap_eq_nil_iff.mpr ?_
    intro y hy
    obtain ⟨k, hk⟩ := List.mem_iff_getElem?.mp hy
    rw [List.getElem?_drop] at hk
    exact hlater (i + 1 + k) y hk (by omega)
  rw [hset, List.filterMap_append, List.filterMap_cons, hb, hdrop]
  simp

/-! ### Up to the order of the entries -/

/-- A list with an entry `a`, up to order: replacing and removing that entry. -/
theorem exists_index_of_perm {rest : List α} (h : l.Perm (a :: rest)) :
    ∃ i, l[i]? = some a ∧ (∀ b, (l.set i b).Perm (b :: rest)) ∧ (l.eraseIdx i).Perm rest := by
  obtain ⟨i, hi⟩ := List.mem_iff_getElem?.mp (h.mem_iff.mpr List.mem_cons_self)
  obtain ⟨l₁, l₂, hl, hset, herase⟩ := exists_split hi
  have hrest : (l₁ ++ l₂).Perm rest := by
    rw [hl] at h
    exact (List.perm_middle.symm.trans h).cons_inv
  refine ⟨i, hi, ?_, ?_⟩
  · intro b
    rw [hset b]
    exact List.perm_middle.trans (hrest.cons b)
  · rw [herase]
    exact hrest

/-- The images of the entries, up to order: what becomes of them when the entry at `i` is
replaced or removed. -/
theorem filterMap_perm {β : Type*} (f : α → Option β) (h : l[i]? = some a) :
    ∃ rest, (l.filterMap f).Perm ((f a).toList ++ rest) ∧
      (∀ b, ((l.set i b).filterMap f).Perm ((f b).toList ++ rest)) ∧
      ((l.eraseIdx i).filterMap f).Perm rest := by
  obtain ⟨l₁, l₂, hl, hset, herase⟩ := exists_split h
  have himage : ∀ b, ((l₁ ++ b :: l₂).filterMap f).Perm
      ((f b).toList ++ (l₁.filterMap f ++ l₂.filterMap f)) := by
    intro b
    rw [List.filterMap_append]
    cases hb : f b with
    | none =>
        rw [List.filterMap_cons_none hb]
        exact List.Perm.refl _
    | some y =>
        rw [List.filterMap_cons_some hb]
        exact List.perm_middle
  refine ⟨l₁.filterMap f ++ l₂.filterMap f, ?_, ?_, ?_⟩
  · rw [hl]
    exact himage a
  · intro b
    rw [hset b]
    exact himage b
  · rw [herase, List.filterMap_append]

/-- `l'` holds, in some order, what the parties are at. A party at `a` moves on, drops out or
goes away. -/
theorem exists_index_of_party {l' : List α} {parties : List (Option α)}
    (h : l'.Perm (parties.filterMap id)) (hi : parties[i]? = some (some a)) :
    ∃ j : Nat, l'[j]? = some a ∧
      (∀ b, (l'.set j b).Perm ((parties.set i (some b)).filterMap id)) ∧
      (l'.eraseIdx j).Perm ((parties.set i none).filterMap id) ∧
      (l'.eraseIdx j).Perm ((parties.eraseIdx i).filterMap id) := by
  obtain ⟨rest, hold, hset, herase⟩ := filterMap_perm id hi
  obtain ⟨j, hj, hset', herase'⟩ := exists_index_of_perm (h.trans hold)
  refine ⟨j, hj, ?_, ?_, ?_⟩
  · intro b
    exact (hset' b).trans (hset (some b)).symm
  · exact herase'.trans (hset none).symm
  · exact herase'.trans herase.symm

/-- A party that is at nothing comes in, stays out or goes away. -/
theorem perm_of_idle_party {l' : List α} {parties : List (Option α)}
    (h : l'.Perm (parties.filterMap id)) (hi : parties[i]? = some none) :
    (∀ b, (l' ++ [b]).Perm ((parties.set i (some b)).filterMap id)) ∧
      l'.Perm ((parties.set i none).filterMap id) ∧
      l'.Perm ((parties.eraseIdx i).filterMap id) := by
  obtain ⟨rest, hold, hset, herase⟩ := filterMap_perm id hi
  have hrest : l'.Perm rest := h.trans hold
  refine ⟨?_, ?_, ?_⟩
  · intro b
    exact (List.perm_append_singleton b l').trans ((hrest.cons b).trans (hset (some b)).symm)
  · exact hrest.trans (hset none).symm
  · exact hrest.trans herase.symm

/-! ### At most one entry -/

/-- At most one entry of the list satisfies `p`. -/
def AtMostOne (p : α → Bool) (l : List α) : Prop :=
  ∀ (i j : Nat) a b, l[i]? = some a → l[j]? = some b → p a = true → p b = true → i = j

section AtMostOne

variable {p : α → Bool}

theorem AtMostOne.others (h : AtMostOne p l) (hi : l[i]? = some a) (ha : p a = true) :
    ∀ (j : Nat) b, l[j]? = some b → j ≠ i → p b = false := by
  intro j b hb hj
  by_contra hn
  exact hj (h j i b a hb hi (by simpa using hn) ha)

/-- Only the entries that satisfy `p` count. -/
theorem AtMostOne.of_subset {l' : List α} (h : AtMostOne p l)
    (hold : ∀ (j : Nat) b, l'[j]? = some b → p b = true → l[j]? = some b) : AtMostOne p l' := by
  intro i j a b ha hb hpa hpb
  exact h i j a b (hold i a ha hpa) (hold j b hb hpb) hpa hpb

/-- Where no other entry satisfies `p`, the one at `i` may become anything. -/
theorem AtMostOne.set {b : α} (h : ∀ (j : Nat) x, l[j]? = some x → j ≠ i → p x = false) :
    AtMostOne p (l.set i b) := by
  have honly : ∀ (j : Nat) x, (l.set i b)[j]? = some x → p x = true → j = i := by
    intro j x hx hp
    rcases getElem?_set_cases hx with ⟨hj, -⟩ | ⟨hj, hx⟩
    · exact hj
    · rw [h j x hx hj] at hp
      cases hp
  intro j k x y hx hy hpx hpy
  rw [honly j x hx hpx, honly k y hy hpy]

/-- An entry that satisfies `p` after a replacement by one that does not was there before. -/
theorem getElem?_of_set {b x : α} {j : Nat} (hb : p b = false) (h : (l.set i b)[j]? = some x)
    (hx : p x = true) : l[j]? = some x := by
  rcases getElem?_set_cases h with ⟨-, rfl⟩ | ⟨-, h⟩
  · rw [hb] at hx
    cases hx
  · exact h

end AtMostOne

/-! ### Sums over the entries -/

theorem sum_map_set (f : α → Nat) (h : l[i]? = some a) (b : α) :
    ((l.set i b).map f).sum + f a = (l.map f).sum + f b := by
  obtain ⟨l₁, l₂, hl, hset, -⟩ := exists_split h
  rw [hset, hl]
  simp only [List.map_append, List.map_cons, List.sum_append, List.sum_cons]
  omega

theorem sum_map_eraseIdx (f : α → Nat) (h : l[i]? = some a) :
    ((l.eraseIdx i).map f).sum + f a = (l.map f).sum := by
  obtain ⟨l₁, l₂, hl, -, herase⟩ := exists_split h
  rw [herase, hl]
  simp only [List.map_append, List.map_cons, List.sum_append, List.sum_cons]
  omega

theorem sum_map_concat (f : α → Nat) (l : List α) (a : α) :
    ((l ++ [a]).map f).sum = (l.map f).sum + f a := by
  simp

theorem le_sum_map (f : α → Nat) (h : a ∈ l) : f a ≤ (l.map f).sum := by
  obtain ⟨i, hi⟩ := List.mem_iff_getElem?.mp h
  rw [← sum_map_eraseIdx f hi]
  exact Nat.le_add_left _ _

/-! ### Counts -/

/-- How often `p` holds of `a`, once or never. -/
def tally (p : α → Bool) (a : α) : Nat := (p a).toNat

theorem countP_eq_sum_tally (p : α → Bool) (l : List α) : l.countP p = (l.map (tally p)).sum := by
  induction l with
  | nil => rfl
  | cons a l ih =>
      rw [List.countP_cons, ih, List.map_cons, List.sum_cons, Nat.add_comm]
      cases h : p a <;> simp [tally, h]

theorem countP_set (p : α → Bool) (h : l[i]? = some a) (b : α) :
    (l.set i b).countP p + tally p a = l.countP p + tally p b := by
  rw [countP_eq_sum_tally, countP_eq_sum_tally]
  exact sum_map_set (tally p) h b

theorem countP_eraseIdx (p : α → Bool) (h : l[i]? = some a) :
    (l.eraseIdx i).countP p + tally p a = l.countP p := by
  rw [countP_eq_sum_tally, countP_eq_sum_tally]
  exact sum_map_eraseIdx (tally p) h

theorem countP_concat (p : α → Bool) (l : List α) (a : α) :
    (l ++ [a]).countP p = l.countP p + tally p a := by
  rw [countP_eq_sum_tally, countP_eq_sum_tally]
  exact sum_map_concat (tally p) l a

/-! ### The positions of an entry -/

/-- `ids` are the positions at which the list has the entry `x`. -/
structure Tracks (x : α) (l : List α) (ids : List Nat) : Prop where
  nodup : ids.Nodup
  mem_iff : ∀ j, j ∈ ids ↔ l[j]? = some x

section Tracks

variable {x b : α} {ids : List Nat}

/-- Another entry changes, and not to `x`. -/
theorem Tracks.set_of_ne (h : Tracks x l ids) (hi : l[i]? = some a) (ha : a ≠ x) (hb : b ≠ x) :
    Tracks x (l.set i b) ids := by
  refine ⟨h.nodup, fun j => ?_⟩
  rw [h.mem_iff]
  by_cases hj : i = j
  · subst hj
    have hlt := (List.getElem?_eq_some_iff.mp hi).1
    rw [List.getElem?_set_self hlt, hi]
    simp [ha, hb]
  · rw [List.getElem?_set_ne hj]

/-- Another entry becomes `x`. -/
theorem Tracks.concat (h : Tracks x l ids) (hi : l[i]? = some a) (ha : a ≠ x) :
    Tracks x (l.set i x) (ids ++ [i]) := by
  have hnew : i ∉ ids := by
    rw [h.mem_iff, hi]
    simpa using ha
  refine ⟨?_, fun j => ?_⟩
  · rw [List.nodup_append]
    refine ⟨h.nodup, List.nodup_cons.mpr ⟨List.not_mem_nil, List.nodup_nil⟩, ?_⟩
    intro k hk k' hk' heq
    rw [List.mem_singleton] at hk'
    exact hnew (hk' ▸ heq ▸ hk)
  · rw [mem_concat, h.mem_iff]
    by_cases hj : i = j
    · subst hj
      have hlt := (List.getElem?_eq_some_iff.mp hi).1
      simp [List.getElem?_set_self hlt]
    · rw [List.getElem?_set_ne hj]
      simp [Ne.symm hj]

/-- The first of the positions is left. -/
theorem Tracks.tail (h : Tracks x l (i :: ids)) (hb : b ≠ x) : Tracks x (l.set i b) ids := by
  obtain ⟨hnotMem, hnodup⟩ := List.nodup_cons.mp h.nodup
  have hi := (h.mem_iff i).mp List.mem_cons_self
  refine ⟨hnodup, fun j => ?_⟩
  by_cases hj : i = j
  · subst hj
    have hlt := (List.getElem?_eq_some_iff.mp hi).1
    rw [List.getElem?_set_self hlt]
    simp [hnotMem, hb]
  · rw [List.getElem?_set_ne hj, ← h.mem_iff, List.mem_cons]
    simp [Ne.symm hj]

end Tracks

end Concurrency
