import CppCode.SharedMemory.Refinement

/-!
# CppCode.SharedMemory.Delivery

**From the command line of the sender to the output of the receiver.** Senders that run one after
the other, each through a place that no value still to be printed is in: what the receiver prints
is what the senders were given, in order, wherever each process has mapped the segments
(`printed_in_order`).

The condition is one on the moment at which a sender is started. From there to its store nothing
is published, and the receiver only takes away from what is still to be printed.
-/

namespace CppCode.SharedMemory

open Concurrency Bytes Segments
open ControlSlot (ReceiverPc InOrder Serial Delivery unloaded)

/-! ### Fresh places, in terms of the control message -/

/-- A sender starts when every earlier one has exited, and through a place that no value still
to be loaded is in. -/
def SlotFresh (slots : List ControlSlot.Segment) : Guard ControlSlot.State ControlSlot.Action :=
  fun t b => ControlSlot.InTurn t b ∧
    ∀ args, b = .start args → ∀ message ∈ ControlSlot.Arguments.message slots args,
      ∀ d ∈ t.senders.drop t.loaded.length, d.message.address ≠ message.address

section Slot

variable {slots : List ControlSlot.Segment} {t t' : ControlSlot.State} {b : ControlSlot.Action}

/-- A sender that has not stored its value yet changes nothing that is still to be loaded. -/
def Apart (t : ControlSlot.State) : Prop :=
  ∀ d ∈ t.senders, d.pc = .storeData → d.message.address ∉ unloaded t

theorem keepsUnloaded_of_apart (h : Apart t) (b : ControlSlot.Action) :
    ControlSlot.KeepsUnloaded t b := by
  intro m hm hunloaded
  cases b with
  | start | receiver => cases hm
  | sender i =>
      rw [ControlSlot.storedMessage] at hm
      split at hm
      next hi =>
        cases hm
        exact absurd hunloaded (h _ (List.mem_of_getElem? hi) rfl)
      next => cases hm

/-- The receiver takes away from what is still to be loaded, and nothing else. -/
theorem unloaded_receiverStep (slots : List ControlSlot.Segment) (t : ControlSlot.State) :
    unloaded (ControlSlot.receiverStep slots t) ⊆ unloaded t := by
  unfold ControlSlot.receiverStep
  cases hpc : t.receiver with
  | poll =>
      by_cases hr : t.control.ready = 0
      · simp [unloaded, ControlSlot.unobserved, hpc, hr]
      · simp [unloaded, ControlSlot.unobserved, hpc, hr]
  | readSegment | readOffset | load | clearSegment | clearOffset =>
      simp [unloaded, ControlSlot.unobserved, hpc]
  | clearReady => simp [unloaded, ControlSlot.unobserved, hpc]

/-- No sender is left that could store, once the current one has. -/
theorem apart_of_moved {current : Option ControlSlot.Sender} {i : Nat} {d : ControlSlot.Sender}
    (hser : Serial slots t current) (hi : t.senders[i]? = some d) (hpc : d.pc ≠ .exited)
    {e : ControlSlot.Sender} (he : e.pc ≠ .storeData) {t' : ControlSlot.State}
    (hsenders : t'.senders = t.senders.set i e) : Apart t' := by
  intro d' hd' hstore
  rw [hsenders, (hser.eq_current hi hpc).2 e] at hd'
  rcases List.mem_append.mp hd' with hpast | hlast
  · obtain ⟨m, -, rfl⟩ := List.mem_map.mp hpast
    cases hstore
  · obtain rfl := List.mem_singleton.mp hlast
    exact absurd hstore he

theorem step_apart (hord : InOrder slots t) (h : Apart t) (hg : SlotFresh slots t b)
    (hs : ControlSlot.step slots t b = some t') : Apart t' := by
  obtain ⟨current, hser⟩ := hord.serial
  cases ControlSlot.step_moved hs with
  | @starts args message hm =>
      intro d hd hstore
      rcases List.mem_append.mp hd with hd | hd
      · rw [hg.1 rfl d hd] at hstore
        cases hstore
      · obtain rfl := List.mem_singleton.mp hd
        obtain ⟨read, unread, hdel⟩ := hord.delivery
        show message.address ∉ unloaded t
        rw [← hdel.addresses]
        intro hmem
        obtain ⟨m, hm', haddress⟩ := List.mem_map.mp hmem
        -- what is not loaded are the last ones of the senders
        refine hg.2 args rfl message hm ⟨m, .exited⟩ ?_ haddress
        rw [hser.senders, hdel.published, hdel.loaded, List.map_append, List.append_assoc,
          List.length_map, List.drop_append_of_le_length (by simp), List.drop_of_length_le (by simp)]
        exact List.mem_append_right _ (List.mem_append_left _ (List.mem_map_of_mem hm'))
  | stores hi hpc | passes hi hpc | writesSegment hi hpc | writesOffset hi hpc
  | publishes hi hpc =>
      exact apart_of_moved hser hi (by simp [hpc]) (by simp) rfl
  | receives =>
      intro d hd hstore hmem
      rw [ControlSlot.receiverStep_senders] at hd
      exact h d hd hstore (unloaded_receiverStep slots t hmem)

theorem reachable_ordered (h : (ControlSlot.machine slots).Reachable (SlotFresh slots) t) :
    InOrder slots t ∧ Apart t := by
  refine h.invariant (I := fun t => InOrder slots t ∧ Apart t)
    ⟨ControlSlot.reachable_inOrder Machine.Reachable.init, nofun⟩ ?_
  rintro t b t' - ⟨hord, hapart⟩ hg hs
  exact ⟨ControlSlot.step_inOrder hord hg.1 (keepsUnloaded_of_apart hapart b) hs,
    step_apart hord hapart hg hs⟩

theorem loaded_prefix (h : InOrder slots t) : t.loaded <+: t.given := by
  obtain ⟨current, hser⟩ := h.serial
  obtain ⟨read, unread, hdel⟩ := h.delivery
  rw [hdel.given_eq hser, List.append_assoc]
  exact List.prefix_append _ _

/-- Once the senders have exited and nothing is left to be loaded, all values are loaded. -/
theorem loaded_eq_given (h : InOrder slots t) (hexit : ∀ d ∈ t.senders, d.pc = .exited)
    (hunloaded : unloaded t = []) : t.loaded = t.given := by
  obtain ⟨current, hser⟩ := h.serial
  obtain ⟨read, unread, hdel⟩ := h.delivery
  have hunread : unread = [] := List.map_eq_nil_iff.mp (hdel.addresses.trans hunloaded)
  have hcurrent : current = none := by
    cases current with
    | none => rfl
    | some d => exact absurd (hexit d hser.current_mem) (hser.running d rfl)
  have hgiven := hdel.given_eq hser
  subst hunread hcurrent
  rw [hgiven]
  simp

end Slot

/-! ### The programs -/

variable {segments : List SegmentInfo} {size : Nat}

/-- A sender starts when every earlier one has exited, with an offset other than `-8`, and
through a place that no value still to be printed is in. -/
def Fresh : Guard (State segments) (Action segments) := fun s a =>
  InBounds s a ∧
    match a with
    | .start dataSegIdx offset value _ =>
        (∀ d ∈ s.senders, d.pc = .exited) ∧
          ∀ target i, checkArguments segments dataSegIdx offset value = .ok (target, i) →
            ∀ d ∈ s.senders.drop s.printed.length,
              d.targetInfo.id ≠ target.id ∨ d.offset ≠ offset
    | .sender _ | .receiver => True

theorem slotFresh_of_fresh (hlayout : Layout segments size) (s : State segments)
    (t : ControlSlot.State) (a : Action segments) (hr : Represents size s t) (hg : Fresh s a) :
    SlotFresh hlayout.slots t a.slot := by
  cases a with
  | sender | receiver => exact ⟨nofun, nofun⟩
  | start dataSegIdx offset value mapping =>
      obtain ⟨-, hexit, hplace⟩ := hg
      constructor
      · intro _ d hd
        rw [hr.senders] at hd
        obtain ⟨e, he, rfl⟩ := List.mem_map.mp hd
        exact hexit e he
      · rintro args hargs message hmessage d hd
        cases hargs
        rw [hlayout.message_eq, Option.mem_def] at hmessage
        split at hmessage
        next target i hcheck =>
          cases hmessage
          rw [hr.senders, hr.printed, ← List.map_drop] at hd
          obtain ⟨e, he, rfl⟩ := List.mem_map.mp hd
          intro haddress
          obtain ⟨hid, hoffset⟩ := ControlSlot.Address.mk.inj haddress
          rcases hplace target i hcheck e he with hne | hne
          · exact hne hid
          · exact hne hoffset
        next => cases hmessage

/-- The values the senders were given, in the order in which they were started. -/
def State.given (s : State segments) : List Int64 := s.senders.map Sender.value

theorem Represents.given_eq {s : State segments} {t : ControlSlot.State}
    (h : Represents size s t) : t.given = s.given := by
  rw [ControlSlot.State.given, h.senders, List.map_map]
  rfl

theorem receives_represents (hlayout : Layout segments size) (mapping : Mapping segments)
    {s : State segments} {t : ControlSlot.State} (h : Represents size s t) (n : Nat) :
    Represents size ((receiverStep mapping)^[n] s)
      ((ControlSlot.receiverStep hlayout.slots)^[n] t) := by
  induction n with
  | zero => exact h
  | succ n ih =>
      rw [Function.iterate_succ_apply', Function.iterate_succ_apply']
      exact receiverStep_represents hlayout ih mapping

/-- **The receiver prints what the senders were given.** For segments as Roudi creates them,
wherever each process has mapped them, and senders that start one after the other through places
that no value still to be printed is in: no process leaves the segments, the values printed are
the first of those given, in order, and once the senders have exited the receiver on its own
prints the rest. -/
theorem printed_in_order (hlayout : Layout segments size) (mapping : Mapping segments)
    {s : State segments} (h : (machine mapping).Reachable Fresh s) :
    s.fault = false ∧ s.printed <+: s.given ∧
      ((∀ d ∈ s.senders, d.pc = .exited) →
        ∃ n, ((receiverStep mapping)^[n] s).printed = s.given) := by
  obtain ⟨t, ht, hr⟩ := exists_slot hlayout (fun _ _ hg => hg.1) (slotFresh_of_fresh hlayout) h
  obtain ⟨hord, -⟩ := reachable_ordered ht
  refine ⟨hr.fault, ?_, ?_⟩
  · rw [← hr.printed, ← hr.given_eq]
    exact loaded_prefix hord
  · intro hexit
    obtain ⟨n, hn⟩ := ControlSlot.receiver_loads hlayout.slots t
    have hsenders := ControlSlot.senders_receives hlayout.slots t n
    have hexit' : ∀ d ∈ t.senders, d.pc = .exited := by
      rw [hr.senders]
      intro d hd
      obtain ⟨e, he, rfl⟩ := List.mem_map.mp hd
      exact hexit e he
    have hloaded := loaded_eq_given (hord.receives n) (by rwa [hsenders]) hn
    refine ⟨n, ?_⟩
    rw [← (receives_represents hlayout mapping hr n).printed, hloaded, ControlSlot.State.given,
      hsenders]
    exact hr.given_eq

instance (s : State segments) (a : Action segments) : Decidable (InBounds s a) :=
  match a with
  | .start _ offset _ _ => inferInstanceAs (Decidable (offset.toNat ≠ 2 ^ 64 - 8))
  | .sender _ | .receiver => inferInstanceAs (Decidable True)

instance (s : State segments) (a : Action segments) : Decidable (Fresh s a) :=
  match a with
  | .start dataSegIdx offset value _ =>
      have : Decidable (∀ target i,
          checkArguments segments dataSegIdx offset value = .ok (target, i) →
            ∀ d ∈ s.senders.drop s.printed.length,
              d.targetInfo.id ≠ target.id ∨ d.offset ≠ offset) :=
        match hcheck : checkArguments segments dataSegIdx offset value with
        | .ok (target, i) =>
            decidable_of_iff (∀ d ∈ s.senders.drop s.printed.length,
                d.targetInfo.id ≠ target.id ∨ d.offset ≠ offset)
              ⟨fun h _ _ heq => by cases heq; exact h, fun h => h target i rfl⟩
        | .error _ => isTrue nofun
      inferInstanceAs (Decidable (_ ∧ _ ∧ _))
  | .sender _ | .receiver => inferInstanceAs (Decidable (_ ∧ True))

/-- The addresses of the segments of Roudi in descending order, without a gap. -/
def descendingBase (i : Nat) : UInt64 := UInt64.ofNat (4096 * (100 - i))

section Descending

variable {i j : Nat} {info : SegmentInfo}

theorem toNat_descendingBase (i : Nat) : (descendingBase i).toNat = 4096 * (100 - i) := by
  rw [descendingBase, UInt64.toNat_ofNat']
  omega

theorem lt_five (h : roudiSegments[i]? = some info) : i < 5 :=
  (List.getElem?_eq_some_iff.mp h).1

theorem descendingBase_ne_zero (h : roudiSegments[i]? = some info) : descendingBase i ≠ 0 := by
  have hlt := lt_five h
  intro hzero
  have htoNat := toNat_descendingBase i
  rw [hzero, UInt64.toNat_zero] at htoNat
  omega

theorem pageSize_dvd_descendingBase (i : Nat) : pageSize ∣ (descendingBase i).toNat := by
  rw [toNat_descendingBase, pageSize]
  exact Nat.dvd_mul_right 4096 (100 - i)

theorem descendingBase_fits (h : roudiSegments[i]? = some info) :
    0 < info.size.toNat ∧ (descendingBase i).toNat + info.size.toNat ≤ addressLimit := by
  have hsize := layout_roudiSegments.size_eq h
  rw [toNat_descendingBase, addressLimit]
  omega

theorem descendingBase_add_le (hij : i < j) (h : roudiSegments[j]? = some info) :
    (descendingBase j).toNat + info.size.toNat ≤ (descendingBase i).toNat := by
  have hlt := lt_five h
  have hsize := layout_roudiSegments.size_eq h
  rw [toNat_descendingBase, toNat_descendingBase]
  omega

end Descending

def descending : Mapping roudiSegments where
  base := descendingBase
  nonnull _ _ h := descendingBase_ne_zero h
  aligned i _ _ := pageSize_dvd_descendingBase i
  fits _ _ h := descendingBase_fits h
  apart _ _ _ _ hij _ hj := .inr (descendingBase_add_le hij hj)

/-- Two senders and a receiver that have mapped the segments differently. The second sender has
stored its value before the first one is printed. -/
theorem printed_in_order_two :
    ∃ s : State roudiSegments,
      (machine (spread mappable_roudiSegments)).Reachable Fresh s ∧ s.given = [7, -9] ∧
        s.printed = [7] ∧
        ∃ n, ((receiverStep (spread mappable_roudiSegments))^[n] s).printed = [7, -9] := by
  obtain ⟨s, hs, hp⟩ := Machine.reachable_of_execWithin
    (M := machine (spread mappable_roudiSegments)) (G := Fresh)
    (l := [.start 0 8 7 descending] ++ List.replicate 5 (.sender 0) ++
      List.replicate 3 .receiver ++ [.start 3 8 (-9) (spread mappable_roudiSegments), .sender 1] ++
      List.replicate 4 .receiver ++ List.replicate 4 (.sender 1))
    (p := fun s => s.given == [7, -9] && s.printed == [7] &&
      s.senders.all fun d => d.pc == .exited) (by decide +kernel)
  obtain ⟨⟨hgiven, hprinted⟩, hexit⟩ : (s.given = [7, -9] ∧ s.printed = [7]) ∧
      ∀ d ∈ s.senders, d.pc = .exited := by simpa using hp
  obtain ⟨-, -, hrest⟩ := printed_in_order layout_roudiSegments _ hs
  obtain ⟨n, hn⟩ := hrest hexit
  exact ⟨s, hs, hgiven, hprinted, n, hn.trans hgiven⟩

end CppCode.SharedMemory
