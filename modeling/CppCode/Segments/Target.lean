import CppCode.Segments.Model
import Mathlib.Data.List.Induction
import Mathlib.Algebra.Order.BigOperators.Group.List
import Mathlib.Algebra.BigOperators.Ring.List

/-!
# CppCode.Segments.Target

**Where the sender writes.** An offset that passes the sender's checks ends inside the target
segment unless `offset + 8` wraps to `0`, and the registry knows the target's base unless a
later segment has the same id. Otherwise some mapping of the segments puts the eight bytes
outside the target.
-/

namespace CppCode.Segments

open Bytes

/-! ### The registry -/

theorem registerAll_append (segments : List SegmentInfo) (last : SegmentInfo)
    (base : Nat → UInt64) :
    registerAll (segments ++ [last]) base =
      (registerAll segments base).registerSegment last.id (base segments.length) := by
  simp [registerAll, List.zipIdx_append]

/-- The registry holds the base of the last segment with an id. -/
theorem exists_last_of_mem (segments : List SegmentInfo) (base : Nat → UInt64) {id : UInt64}
    (h : ∃ info ∈ segments, info.id = id) :
    ∃ j info, segments[j]? = some info ∧ info.id = id ∧
      registerAll segments base id = some (base j) ∧
      ∀ k later, j < k → segments[k]? = some later → later.id ≠ id := by
  induction segments using List.reverseRecOn with
  | nil => simp at h
  | append_singleton segments last ih =>
      rw [registerAll_append]
      by_cases hlast : last.id = id
      · refine ⟨segments.length, last, by simp, hlast, ?_, ?_⟩
        · rw [← hlast, SegmentRegistry.registerSegment, Function.update_self]
        · intro k later hk hlater
          have hlt := (List.getElem?_eq_some_iff.mp hlater).1
          simp only [List.length_append, List.length_singleton] at hlt
          omega
      · obtain ⟨info, hinfo, hid⟩ := h
        have hmem : info ∈ segments := by
          rcases List.mem_append.mp hinfo with hmem | hmem
          · exact hmem
          · rw [List.mem_singleton] at hmem
            exact absurd (hmem ▸ hid) hlast
        obtain ⟨j, found, hj, hfound, hbase, hafter⟩ := ih ⟨info, hmem, hid⟩
        have hlt := (List.getElem?_eq_some_iff.mp hj).1
        refine ⟨j, found, ?_, hfound, ?_, ?_⟩
        · rw [List.getElem?_append_left hlt, hj]
        · rw [SegmentRegistry.registerSegment, Function.update_of_ne (Ne.symm hlast), hbase]
        · intro k later hk hlater
          rcases Nat.lt_or_ge k segments.length with hks | hks
          · rw [List.getElem?_append_left hks] at hlater
            exact hafter k later hk hlater
          · rw [List.getElem?_append_right hks] at hlater
            have hmem := List.mem_of_getElem? hlater
            rw [List.mem_singleton] at hmem
            rwa [hmem]

/-! ### The checks -/

/-- What the checks of the sender establish. -/
theorem checkArguments_ok {segments : List SegmentInfo} {dataSegIdx : UInt32} {offset : UInt64}
    {value : Int64} {target : SegmentInfo} {i : Nat}
    (h : checkArguments segments dataSegIdx offset value = .ok (target, i)) :
    segments[i]? = some target ∧ offset.toNat % 8 = 0 ∧ offset + 8 ≤ target.size := by
  unfold checkArguments at h
  split at h
  · cases h
  split at h
  · cases h
  case isFalse haligned =>
  split at h
  · cases h
  dsimp only at h
  split at h
  · cases h
  case h_2 found hfound =>
  split at h
  · cases h
  case isFalse hsize =>
  cases h
  have hmem := List.mem_of_mem_filter (List.mem_of_getElem? hfound)
  have hget := List.mem_zipIdx_iff_getElem?.mp hmem
  refine ⟨hget, ?_, UInt64.not_lt.mp hsize⟩
  have := congrArg UInt64.toNat (not_not.mp haligned)
  simpa using this

/-- The eight bytes end inside the segment if the sum of the last check has not wrapped. -/
theorem add_eight_le {offset size : UInt64} (haligned : offset.toNat % 8 = 0)
    (hsize : offset + 8 ≤ size) (hwrap : offset.toNat ≠ 2 ^ 64 - 8) :
    offset.toNat + 8 ≤ size.toNat := by
  have hlt := offset.toNat_lt
  have hle := UInt64.le_iff_toNat_le.mp hsize
  rw [UInt64.toNat_add, show (8 : UInt64).toNat = 8 from rfl] at hle
  omega

/-- Both processes use the same pointer. -/
theorem receiverPointer_publish (target : SegmentInfo) (offset : UInt64) :
    receiverPointer (publish target offset) = senderPointer target offset := rfl

theorem get_senderPointer {registry : SegmentRegistry} {target : SegmentInfo} {base : UInt64}
    (offset : UInt64) (h : registry target.id = some base) :
    (senderPointer target offset).get registry = some (base + offset) := by
  simp [RelativePointer.get, senderPointer, h]

/-- No later segment of the list has the id of the `i`-th one. -/
def LastOfId (segments : List SegmentInfo) (i : Nat) (target : SegmentInfo) : Prop :=
  ∀ k later, i < k → segments[k]? = some later → later.id ≠ target.id

section

variable {segments : List SegmentInfo} {i : Nat} {target : SegmentInfo} {offset : UInt64}

/-- The registry holds the base of the last segment with the target's id. -/
theorem registerAll_target (hget : segments[i]? = some target) (base : Nat → UInt64) :
    ∃ j info, i ≤ j ∧ segments[j]? = some info ∧ info.id = target.id ∧
      registerAll segments base target.id = some (base j) ∧ LastOfId segments j target := by
  obtain ⟨j, info, hj, hid, hbase, hafter⟩ :=
    exists_last_of_mem segments base ⟨target, List.mem_of_getElem? hget, rfl⟩
  refine ⟨j, info, ?_, hj, hid, hbase, hafter⟩
  by_contra hlt
  exact hafter i target (by omega) hget rfl

theorem pointsInto_of_last (hget : segments[i]? = some target)
    (hend : offset.toNat + 8 ≤ target.size.toNat) (hlast : LastOfId segments i target)
    (mapping : Mapping segments) :
    PointsInto segments mapping i target (senderPointer target offset) := by
  obtain ⟨j, info, hij, hj, hid, hbase, -⟩ := registerAll_target hget mapping.base
  have hji : j = i := by
    by_contra hne
    exact hlast j info (by omega) hj hid
  subst hji
  refine ⟨mapping.base j + offset, get_senderPointer offset hbase, ?_⟩
  have hsubset := region_subset (mapping.base j) hend target.size.toNat_lt.le
  rwa [UInt64.ofNat_toNat] at hsubset

end

/-! ### Segments in the order of the list, with a page between them -/

section

variable (segments : List SegmentInfo)

/-- The pages of a segment and one more. -/
def span (info : SegmentInfo) : Nat := roundUp info.size.toNat pageSize + pageSize

/-- The address of the `i`-th segment when the segments follow each other from the second page
on. -/
def start (i : Nat) : Nat := pageSize + ((segments.map span).take i).sum

variable {segments}

theorem start_succ {i : Nat} {info : SegmentInfo} (h : segments[i]? = some info) :
    start segments (i + 1) = start segments i + span info := by
  obtain ⟨hlt, rfl⟩ := List.getElem?_eq_some_iff.mp h
  have hmap : i < (segments.map span).length := by rwa [List.length_map]
  rw [start, start, List.take_succ_eq_append_getElem hmap, List.sum_append, List.sum_singleton,
    List.getElem_map, Nat.add_assoc]

theorem start_mono {i j : Nat} (h : i ≤ j) : start segments i ≤ start segments j :=
  Nat.add_le_add_left (List.monotone_sum_take _ h) pageSize

theorem start_le (h : Mappable segments) (i : Nat) : start segments i ≤ addressLimit := by
  have hall : start segments (i + segments.length) ≤ addressLimit := by
    rw [start, List.take_of_length_le (by rw [List.length_map]; omega)]
    exact h.2
  exact (start_mono (by omega)).trans hall

theorem start_dvd (i : Nat) : pageSize ∣ start segments i := by
  apply Nat.dvd_add (Nat.dvd_refl pageSize)
  apply List.dvd_sum
  intro n hn
  obtain ⟨info, -, rfl⟩ := List.mem_map.mp (List.mem_of_mem_take hn)
  exact Nat.dvd_add (dvd_roundUp _ _) (Nat.dvd_refl pageSize)

/-- A segment ends a page before the next one. -/
theorem start_add_lt {i j : Nat} {info : SegmentInfo} (h : segments[i]? = some info)
    (hij : i < j) : start segments i + info.size.toNat + pageSize ≤ start segments j := by
  have hnext := @start_mono segments _ _ hij
  have hround := le_roundUp info.size.toNat (show 0 < pageSize by decide)
  rw [start_succ h, span] at hnext
  omega

theorem toNat_ofNat_start (h : Mappable segments) (i : Nat) :
    (UInt64.ofNat (start segments i)).toNat = start segments i := by
  have hle := start_le h i
  rw [UInt64.toNat_ofNat', addressLimit] at *
  omega

/-- The mapping that follows the list. -/
def spread (h : Mappable segments) : Mapping segments where
  base i := UInt64.ofNat (start segments i)
  nonnull i info _ hzero := by
    have htoNat := toNat_ofNat_start h i
    rw [hzero, UInt64.toNat_zero, start, pageSize] at htoNat
    omega
  aligned i info _ := by
    rw [toNat_ofNat_start h]
    exact start_dvd i
  fits i info hget := by
    have hpos := UInt64.lt_iff_toNat_lt.mp (h.1 info (List.mem_of_getElem? hget))
    have hend := start_add_lt hget (show i < i + 1 by omega)
    have hle := start_le h (i + 1)
    rw [toNat_ofNat_start h]
    exact ⟨hpos, by omega⟩
  apart i j info info' hij hget _ := by
    have hend := start_add_lt hget hij
    rw [toNat_ofNat_start h, toNat_ofNat_start h]
    exact .inl (by omega)

/-- In that mapping a pointer that is not the target's own misses the target. -/
theorem not_pointsInto_spread (h : Mappable segments) {i : Nat} {target : SegmentInfo}
    {offset : UInt64} (hget : segments[i]? = some target)
    (hoffset : offset.toNat + 8 ≤ target.size.toNat ∨ offset.toNat = 2 ^ 64 - 8)
    (hbad : ¬ (offset.toNat ≠ 2 ^ 64 - 8 ∧ LastOfId segments i target)) :
    ¬ PointsInto segments (spread h) i target (senderPointer target offset) := by
  rintro ⟨address, haddress, hinside⟩
  obtain ⟨j, info, hij, hj, -, hbase, hlast⟩ := registerAll_target hget (spread h).base
  rw [get_senderPointer offset hbase] at haddress
  cases haddress
  -- the first of the eight bytes is at this distance from the base of the target
  have hfirst : ((spread h).base j + offset - (spread h).base i).toNat < target.size.toNat := by
    apply hinside
    show (_ : UInt64).toNat < 8
    rw [UInt64.sub_self, UInt64.toNat_zero]
    omega
  have hsize := (start_add_lt hget (show i < i + 1 by omega)).trans (start_le h (i + 1))
  have hlimit := start_le h j
  rw [UInt64.toNat_sub, UInt64.toNat_add, spread, toNat_ofNat_start h, toNat_ofNat_start h]
    at hfirst
  simp only [addressLimit, pageSize] at hsize hlimit
  rcases Nat.eq_or_lt_of_le hij with rfl | hlt
  · have hwrap : offset.toNat = 2 ^ 64 - 8 := by
      by_contra hne
      exact hbad ⟨hne, hlast⟩
    omega
  · have hend := start_add_lt hget hlt
    simp only [pageSize] at hend
    omega

end

/-- **What passes the checks is written into the target, in both processes, unless the offset
is `-8` or a later segment has the target's id**; in those cases, if the segments can be
mapped at all, some mapping puts the eight bytes outside the target. -/
theorem pointsInto_target_iff (segments : List SegmentInfo) (dataSegIdx : UInt32)
    (offset : UInt64) (value : Int64) (target : SegmentInfo) (i : Nat)
    (h : checkArguments segments dataSegIdx offset value = .ok (target, i)) :
    (offset.toNat ≠ 2 ^ 64 - 8 ∧ LastOfId segments i target →
        ∀ sender receiver : Mapping segments,
          PointsInto segments sender i target (senderPointer target offset) ∧
            PointsInto segments receiver i target (receiverPointer (publish target offset))) ∧
      (Mappable segments →
        (∀ sender receiver : Mapping segments,
          PointsInto segments sender i target (senderPointer target offset) ∧
            PointsInto segments receiver i target (receiverPointer (publish target offset))) →
        offset.toNat ≠ 2 ^ 64 - 8 ∧ LastOfId segments i target) := by
  obtain ⟨hget, haligned, hsize⟩ := checkArguments_ok h
  constructor
  · rintro ⟨hwrap, hlast⟩ sender receiver
    have hend := add_eight_le haligned hsize hwrap
    rw [receiverPointer_publish]
    exact ⟨pointsInto_of_last hget hend hlast sender, pointsInto_of_last hget hend hlast receiver⟩
  · intro hmap hall
    by_contra hbad
    have hoffset : offset.toNat + 8 ≤ target.size.toNat ∨ offset.toNat = 2 ^ 64 - 8 := by
      by_cases hwrap : offset.toNat = 2 ^ 64 - 8
      · exact .inr hwrap
      · exact .inl (add_eight_le haligned hsize hwrap)
    exact not_pointsInto_spread hmap hget hoffset hbad (hall (spread hmap) (spread hmap)).1

theorem mappable_roudiSegments : Mappable roudiSegments := by
  constructor
  · decide
  · decide

theorem lastOfId_roudiSegments : LastOfId roudiSegments 1 (dataSegment 0) := by
  intro k later hk hlater
  have hlt := (List.getElem?_eq_some_iff.mp hlater).1
  have hlength : roudiSegments.length = 5 := rfl
  obtain rfl | rfl | rfl : k = 2 ∨ k = 3 ∨ k = 4 := by omega
  all_goals cases hlater; decide

theorem pointsInto_target_eight :
    checkArguments roudiSegments 0 8 1 = .ok (dataSegment 0, 1) ∧
      ∀ sender : Mapping roudiSegments,
        PointsInto roudiSegments sender 1 (dataSegment 0) (senderPointer (dataSegment 0) 8) := by
  have hcheck : checkArguments roudiSegments 0 8 1 = .ok (dataSegment 0, 1) := by decide +kernel
  have hiff := pointsInto_target_iff roudiSegments 0 8 1 (dataSegment 0) 1 hcheck
  exact ⟨hcheck, fun sender => (hiff.1 ⟨by decide, lastOfId_roudiSegments⟩ sender sender).1⟩

/-- The offset that `stoull` returns for `-8` passes the checks, and the eight bytes before the
target are written. -/
theorem not_pointsInto_target_minus_eight :
    checkArguments roudiSegments 0 (UInt64.ofNat (2 ^ 64 - 8)) 1 = .ok (dataSegment 0, 1) ∧
      ∃ sender : Mapping roudiSegments,
        ¬ PointsInto roudiSegments sender 1 (dataSegment 0)
          (senderPointer (dataSegment 0) (UInt64.ofNat (2 ^ 64 - 8))) := by
  refine ⟨by decide +kernel, spread mappable_roudiSegments, ?_⟩
  apply not_pointsInto_spread mappable_roudiSegments rfl
  · exact .inr (by decide)
  · rintro ⟨hwrap, -⟩
    exact hwrap (by decide)

end CppCode.Segments
