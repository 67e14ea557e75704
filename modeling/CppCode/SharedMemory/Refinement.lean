import CppCode.ControlSlot.Values
import CppCode.SharedMemory.Model

/-!
# CppCode.SharedMemory.Refinement

**The processes see one control message and one array of words.** As long as no sender is
started with the offset `-8`, which passes its checks and is none, every access of every process
stays inside the segments, and the bytes behave like the words of `CppCode.ControlSlot`: what one
of the two systems can show, the other one can (`refines_control_slot`). So the results about the
control message hold of the programs as they run, at whatever addresses each of them has the
segments.

`Words` says which word is where. The receiver may combine the segment of one message with the
offset of another; as all segments have one size, it finds a word there, too.
-/

namespace CppCode.SharedMemory

open Concurrency Bytes Segments
open ControlSlot (SenderPc ReceiverPc ControlMessage Address)

variable {segments : List SegmentInfo} {size : Nat}

/-! ### The segments, as the control message names them -/

/-- The data segments. -/
def Layout.slots (hlayout : Layout segments size) : List ControlSlot.Segment :=
  (dataSegments segments).pmap (fun p h => ⟨p.1.id, p.1.size, h⟩) <| by
    intro p hp
    obtain ⟨hmem, hcontrol⟩ := List.mem_filter.mp hp
    have hinfo := List.mem_of_getElem? (List.mem_zipIdx_iff_getElem?.mp hmem)
    intro hid
    exact (hlayout.zero p.1 hinfo).mpr hid (by simpa using hcontrol)

/-- An offset at which there is a word of a segment. -/
structure Fits (size : Nat) (off : UInt64) : Prop where
  aligned : off.toNat % 8 = 0
  inside : off.toNat + 8 ≤ size

theorem Layout.fits_zero (hlayout : Layout segments size) : Fits size 0 :=
  ⟨rfl, (show (0 : UInt64).toNat + 8 ≤ 24 by decide).trans hlayout.room⟩

section Slots

variable (hlayout : Layout segments size) {i : Nat} {info : SegmentInfo}
include hlayout

theorem Layout.any_slots {id : UInt64} (hne : id ≠ 0) :
    (hlayout.slots.any fun slot => slot.id = id) = true ↔ ∃ info ∈ segments, info.id = id := by
  rw [List.any_eq_true]
  constructor
  · rintro ⟨slot, hslot, hid⟩
    obtain ⟨p, hp, rfl⟩ := List.mem_pmap.mp hslot
    obtain ⟨hmem, -⟩ := List.mem_filter.mp hp
    exact ⟨p.1, List.mem_of_getElem? (List.mem_zipIdx_iff_getElem?.mp hmem), by simpa using hid⟩
  · rintro ⟨info, hinfo, rfl⟩
    obtain ⟨i, hi⟩ := List.getElem?_of_mem hinfo
    have hcontrol : info.isControl = 0 := by
      by_contra hc
      exact hne ((hlayout.zero info hinfo).mp hc)
    have hmem : (info, i) ∈ dataSegments segments :=
      List.mem_filter.mpr ⟨List.mem_zipIdx_iff_getElem?.mpr hi, by simpa using hcontrol⟩
    exact ⟨_, List.mem_pmap.mpr ⟨(info, i), hmem, rfl⟩, by simp⟩

theorem Layout.slots_eq_none {k : Nat} (h : (dataSegments segments)[k]? = none) :
    hlayout.slots[k]? = none := by
  rw [List.getElem?_eq_none_iff] at h ⊢
  rwa [Layout.slots, List.length_pmap]

theorem Layout.slots_eq_some {k : Nat} {target : SegmentInfo × Nat}
    (h : (dataSegments segments)[k]? = some target) :
    ∃ hid, hlayout.slots[k]? = some ⟨target.1.id, target.1.size, hid⟩ := by
  obtain ⟨hlt, rfl⟩ := List.getElem?_eq_some_iff.mp h
  have hlt' : k < hlayout.slots.length := by rwa [Layout.slots, List.length_pmap]
  have hget : hlayout.slots[k] = ⟨(dataSegments segments)[k].1.id, (dataSegments segments)[k].1.size,
      _⟩ := List.getElem_pmap ..
  exact ⟨_, by rw [List.getElem?_eq_getElem hlt', hget]⟩

/-- The checks of a sender, in terms of the slots. -/
theorem Layout.message_eq (dataSegIdx : UInt32) (offset : UInt64) (value : Int64) :
    ControlSlot.Arguments.message hlayout.slots ⟨dataSegIdx.toNat, offset, value⟩ =
      match checkArguments segments dataSegIdx offset value with
      | .ok (target, _) => some ⟨⟨target.id, offset⟩, value⟩
      | .error _ => none := by
  obtain ⟨c, ctrlInfo, -, -, hfind⟩ := hlayout.exists_control
  have hfound : findControlSegment segments ≠ none := by
    rw [hfind]
    exact Option.some_ne_none _
  unfold ControlSlot.Arguments.message checkArguments
  by_cases hvalue : value = 0
  · rw [if_pos hvalue, if_pos hvalue]
  rw [if_neg hvalue, if_neg hvalue]
  by_cases haligned : offset % 8 ≠ 0
  · rw [if_pos haligned, if_pos haligned]
  rw [if_neg haligned, if_neg haligned, if_neg hfound]
  cases htarget : (dataSegments segments)[dataSegIdx.toNat]? with
  | none => simp only [hlayout.slots_eq_none htarget, htarget]
  | some target =>
      obtain ⟨hid, hslot⟩ := hlayout.slots_eq_some htarget
      simp only [hslot, htarget]
      by_cases hsize : offset + 8 > target.1.size
      · rw [if_pos hsize, if_pos hsize]
      · rw [if_neg hsize, if_neg hsize]

end Slots

/-! ### Which word is where -/

/-- The words in the bytes of the segments. What is in the control segment behind the control
message is a word like those of the data segments. -/
structure Words (segments : List SegmentInfo) (size : Nat) (m : Objects Nat)
    (control : ControlMessage) (data : Address → Int64) : Prop where
  ready : ∀ c info, segments[c]? = some info → info.id = 0 → m.word c 0 = control.ready
  segmentId : ∀ c info, segments[c]? = some info → info.id = 0 → m.word c 8 = control.segmentId
  offset : ∀ c info, segments[c]? = some info → info.id = 0 → m.word c 16 = control.offset
  data : ∀ i info off, segments[i]? = some info → (info.id = 0 → 24 ≤ off.toNat) →
    Fits size off → data ⟨info.id, off⟩ = (m.word i off.toNat).toInt64

namespace Words

variable {m : Objects Nat} {control : ControlMessage} {data : Address → Int64} {c : Nat}
  {ctrlInfo : SegmentInfo}

/-- A store into the control message changes no other word. -/
theorem word_of_control (hc : segments[c]? = some ctrlInfo) (hid : ctrlInfo.id = 0) {field : Nat}
    (hfield : field + 8 ≤ 24) (v : UInt64) {i : Nat} {info : SegmentInfo} {off : UInt64}
    (hi : segments[i]? = some info) (hoff : info.id = 0 → 24 ≤ off.toNat) :
    (m.setWord c field v).word i off.toNat = m.word i off.toNat := by
  by_cases hzero : info.id = 0
  · have hle := hoff hzero
    exact m.word_setWord_of_ne v (.inr (.inl (by omega)))
  · refine m.word_setWord_of_ne v (.inl ?_)
    rintro rfl
    rw [hc] at hi
    cases hi
    exact hzero hid

section Control

variable (hlayout : Layout segments size) (h : Words segments size m control data)
  (hc : segments[c]? = some ctrlInfo) (hid : ctrlInfo.id = 0) (v : UInt64)
include hlayout h hc hid

theorem setReady : Words segments size (m.setWord c 0 v) { control with ready := v } data where
  ready i info hi hzero := by
    rw [hlayout.ids i c _ _ hi hc (hzero.trans hid.symm), Objects.word_setWord_same]
  segmentId i info hi hzero := by
    rw [m.word_setWord_of_ne v (.inr (.inl (by omega))), h.segmentId i info hi hzero]
  offset i info hi hzero := by
    rw [m.word_setWord_of_ne v (.inr (.inl (by omega))), h.offset i info hi hzero]
  data i info off hi hoff hfits := by
    rw [h.data i info off hi hoff hfits, word_of_control hc hid (by omega) v hi hoff]

theorem setSegmentId :
    Words segments size (m.setWord c 8 v) { control with segmentId := v } data where
  ready i info hi hzero := by
    rw [m.word_setWord_of_ne v (.inr (.inr (by omega))), h.ready i info hi hzero]
  segmentId i info hi hzero := by
    rw [hlayout.ids i c _ _ hi hc (hzero.trans hid.symm), Objects.word_setWord_same]
  offset i info hi hzero := by
    rw [m.word_setWord_of_ne v (.inr (.inl (by omega))), h.offset i info hi hzero]
  data i info off hi hoff hfits := by
    rw [h.data i info off hi hoff hfits, word_of_control hc hid (by omega) v hi hoff]

theorem setOffset : Words segments size (m.setWord c 16 v) { control with offset := v } data where
  ready i info hi hzero := by
    rw [m.word_setWord_of_ne v (.inr (.inr (by omega))), h.ready i info hi hzero]
  segmentId i info hi hzero := by
    rw [m.word_setWord_of_ne v (.inr (.inr (by omega))), h.segmentId i info hi hzero]
  offset i info hi hzero := by
    rw [hlayout.ids i c _ _ hi hc (hzero.trans hid.symm), Objects.word_setWord_same]
  data i info off hi hoff hfits := by
    rw [h.data i info off hi hoff hfits, word_of_control hc hid (by omega) v hi hoff]

end Control

/-- A store into a data segment. -/
theorem setData (hlayout : Layout segments size) (h : Words segments size m control data)
    {j : Nat} {target : SegmentInfo} (hj : segments[j]? = some target) (hne : target.id ≠ 0)
    {off : UInt64} (hfits : Fits size off) (value : Int64) :
    Words segments size (m.setWord j off.toNat value.toUInt64) control
      (Function.update data ⟨target.id, off⟩ value) := by
  have hcontrol : ∀ c info, segments[c]? = some info → info.id = 0 → c ≠ j := by
    rintro c info hc hid rfl
    rw [hj] at hc
    cases hc
    exact hne hid
  refine ⟨?_, ?_, ?_, ?_⟩
  · intro c info hc hid
    rw [m.word_setWord_of_ne _ (.inl (hcontrol c info hc hid)), h.ready c info hc hid]
  · intro c info hc hid
    rw [m.word_setWord_of_ne _ (.inl (hcontrol c info hc hid)), h.segmentId c info hc hid]
  · intro c info hc hid
    rw [m.word_setWord_of_ne _ (.inl (hcontrol c info hc hid)), h.offset c info hc hid]
  · intro i info off' hi hoff' hfits'
    by_cases heq : info.id = target.id ∧ off' = off
    · obtain ⟨hid, rfl⟩ := heq
      obtain rfl := hlayout.ids i j _ _ hi hj hid
      rw [hid, Function.update_self, Objects.word_setWord_same]
      exact (Int64.toInt64_toUInt64 value).symm
    · have hdistinct : i ≠ j ∨ off.toNat + 8 ≤ off'.toNat ∨ off'.toNat + 8 ≤ off.toNat := by
        by_cases hij : i = j
        · subst hij
          rw [hj] at hi
          cases hi
          have hne' : off'.toNat ≠ off.toNat := fun htoNat =>
            heq ⟨rfl, UInt64.toNat_inj.mp htoNat⟩
          have haligned := hfits.aligned
          have haligned' := hfits'.aligned
          omega
        · exact .inl hij
      have haddress : (⟨info.id, off'⟩ : Address) ≠ ⟨target.id, off⟩ := by
        intro he
        exact heq (ControlSlot.Address.mk.inj he)
      rw [Function.update_of_ne haddress, m.word_setWord_of_ne _ hdistinct,
        h.data i info off' hi hoff' hfits']

end Words

/-- What the receiver finds at an offset of a segment. -/
theorem Layout.loadValue_eq (hlayout : Layout segments size) {m : Objects Nat}
    {t : ControlSlot.State} (h : Words segments size m t.control t.data) {i : Nat}
    {info : SegmentInfo} (hi : segments[i]? = some info) {off : UInt64} (hfits : Fits size off) :
    ControlSlot.loadValue hlayout.slots t info.id off = some (m.word i off.toNat).toInt64 := by
  unfold ControlSlot.loadValue
  by_cases hid : info.id = 0
  · rw [if_pos hid, ControlSlot.controlWord]
    by_cases hready : off = 0
    · rw [if_pos hready, hready, ← h.ready i info hi hid]
      rfl
    by_cases hsegment : off = 8
    · rw [if_neg hready, if_pos hsegment, hsegment, ← h.segmentId i info hi hid]
      rfl
    by_cases hoffset : off = 16
    · rw [if_neg hready, if_neg hsegment, if_pos hoffset, hoffset, ← h.offset i info hi hid]
      rfl
    rw [if_neg hready, if_neg hsegment, if_neg hoffset]
    have hle : 24 ≤ off.toNat := by
      have haligned := hfits.aligned
      have hne : off.toNat ≠ 0 := fun he => hready (UInt64.toNat_inj.mp he)
      have hne' : off.toNat ≠ 8 := fun he => hsegment (UInt64.toNat_inj.mp he)
      have hne'' : off.toNat ≠ 16 := fun he => hoffset (UInt64.toNat_inj.mp he)
      omega
    have hdata := h.data i info off hi (fun _ => hle) hfits
    rw [hid] at hdata
    rw [hdata]
  · rw [if_neg hid, if_pos ((hlayout.any_slots hid).mpr ⟨info, List.mem_of_getElem? hi, rfl⟩),
      h.data i info off hi (fun hzero => absurd hzero hid) hfits]

/-- The registry does not know an id that no segment has. -/
theorem registerAll_eq_none (base : Nat → UInt64) {id : UInt64}
    (h : ∀ info ∈ segments, info.id ≠ id) : registerAll segments base id = none := by
  induction segments using List.reverseRecOn with
  | nil => rfl
  | append_singleton segments last ih =>
      rw [registerAll_append, SegmentRegistry.registerSegment,
        Function.update_of_ne (h last (by simp)).symm]
      exact ih fun info hinfo => h info (List.mem_append_left _ hinfo)

/-! ### The two systems -/

/-- The sender of `ControlSlot`. -/
def Sender.slot (d : Sender segments) : ControlSlot.Sender :=
  ⟨⟨⟨d.targetInfo.id, d.offset⟩, d.value⟩, d.pc⟩

/-- The sender writes into a data segment. -/
structure Sender.Valid (size : Nat) (d : Sender segments) : Prop where
  target : ∃ i : Nat, segments[i]? = some d.targetInfo
  isData : d.targetInfo.id ≠ 0
  fits : Fits size d.offset

/-- Bytes and words of one state. -/
structure Represents (size : Nat) (s : State segments) (t : ControlSlot.State) : Prop where
  fault : s.fault = false
  words : Words segments size s.memory t.control t.data
  senders : t.senders = s.senders.map Sender.slot
  receiver : t.receiver = s.receiver
  printed : t.loaded = s.printed
  valid : ∀ d ∈ s.senders, d.Valid size
  offset : Fits size t.control.offset
  /-- The receiver has an offset that was in the control message. -/
  inHand : ∀ segId off, s.receiver = .load segId off → Fits size off

/-- A sender goes on; the words are as `ControlSlot` has them. -/
theorem Represents.move {s : State segments} {t : ControlSlot.State} (h : Represents size s t)
    {i : Nat} {d : Sender segments} (hd : d ∈ s.senders) (pc : SenderPc)
    {m : Objects Nat} {control : ControlMessage} {data : Address → Int64}
    (hwords : Words segments size m control data) (hoffset : Fits size control.offset)
    (published : List ControlSlot.Message) :
    Represents size ({ s with memory := m }.goto i d pc)
      (ControlSlot.State.goto { t with control := control, data := data, published := published }
        i d.slot pc) where
  fault := h.fault
  words := hwords
  senders := by
    show t.senders.set i { d.slot with pc := pc } = (s.senders.set i { d with pc := pc }).map _
    rw [List.map_set, h.senders]
    rfl
  receiver := h.receiver
  printed := h.printed
  valid := by
    intro e he
    rcases List.mem_or_eq_of_mem_set he with he | rfl
    · exact h.valid e he
    · exact ⟨(h.valid d hd).target, (h.valid d hd).isData, (h.valid d hd).fits⟩
  offset := hoffset
  inHand := h.inHand

section Step

variable (hlayout : Layout segments size) {s : State segments} {t : ControlSlot.State}
  (h : Represents size s t) (mapping : Mapping segments)
include hlayout h

theorem Represents.load_ready :
    s.load mapping (controlAddress mapping 0) = some t.control.ready := by
  obtain ⟨c, ctrlInfo, hc, hid, -⟩ := hlayout.exists_control
  rw [hlayout.load_control hc hid mapping s (by decide), ← h.words.ready c ctrlInfo hc hid]
  rfl

theorem Represents.load_segmentId :
    s.load mapping (controlAddress mapping 8) = some t.control.segmentId := by
  obtain ⟨c, ctrlInfo, hc, hid, -⟩ := hlayout.exists_control
  rw [hlayout.load_control hc hid mapping s (by decide), ← h.words.segmentId c ctrlInfo hc hid]
  rfl

theorem Represents.load_offset :
    s.load mapping (controlAddress mapping 16) = some t.control.offset := by
  obtain ⟨c, ctrlInfo, hc, hid, -⟩ := hlayout.exists_control
  rw [hlayout.load_control hc hid mapping s (by decide), ← h.words.offset c ctrlInfo hc hid]
  rfl

theorem senderStep_rel {i : Nat} {d : Sender segments} (hi : s.senders[i]? = some d) :
    Option.Rel (Represents size) (senderStep s i d) (ControlSlot.senderStep t i d.slot) := by
  obtain ⟨c, ctrlInfo, hc, hid, -⟩ := hlayout.exists_control
  have hd := List.mem_of_getElem? hi
  obtain ⟨⟨j, hj⟩, hdata, hfits⟩ := h.valid d hd
  unfold senderStep ControlSlot.senderStep
  cases hpc : d.pc with
  | storeData =>
      have haddress : d.dataAddress = some (d.mapping.base j + d.offset) :=
        get_senderPointer d.offset (hlayout.registered hj d.mapping)
      simp only [Sender.slot, hpc]
      rw [State.senderStore, haddress, hlayout.store_eq hj d.mapping s hfits.inside]
      exact .some (h.move hd _ (h.words.setData hlayout hj hdata hfits d.value) h.offset _)
  | waitReady =>
      simp only [Sender.slot, hpc, h.load_ready hlayout d.mapping]
      by_cases hready : t.control.ready = 0
      · rw [if_pos hready, if_pos hready]
        exact .some (h.move hd _ h.words h.offset _)
      · rw [if_neg hready, if_neg hready]
        exact .none
  | writeSegment =>
      simp only [Sender.slot, hpc]
      rw [State.senderStore, hlayout.store_control hc hid d.mapping s (by decide)]
      exact .some (h.move hd _ (h.words.setSegmentId hlayout hc hid d.targetInfo.id) h.offset _)
  | writeOffset =>
      simp only [Sender.slot, hpc]
      rw [State.senderStore, hlayout.store_control hc hid d.mapping s (by decide)]
      exact .some (h.move hd _ (h.words.setOffset hlayout hc hid d.offset) hfits _)
  | storeReady =>
      simp only [Sender.slot, hpc]
      rw [State.senderStore, hlayout.store_control hc hid d.mapping s (by decide)]
      exact .some (h.move hd _ (h.words.setReady hlayout hc hid 1) h.offset _)
  | exited =>
      simp only [Sender.slot, hpc]
      exact .none

/-- The receiver clears a field. -/
theorem Represents.clear {field : UInt64} (hfield : field.toNat + 8 ≤ 24) {pc : ReceiverPc}
    (hpc : ∀ segId off, pc ≠ .load segId off) {control : ControlMessage}
    (hwords : ∀ (c : Nat) (ctrlInfo : SegmentInfo), segments[c]? = some ctrlInfo →
      ctrlInfo.id = 0 → Words segments size (s.memory.setWord c field.toNat 0) control t.data)
    (hoffset : Fits size control.offset) :
    Represents size (s.clear mapping field pc) { t with control := control, receiver := pc } := by
  obtain ⟨c, ctrlInfo, hc, hid, -⟩ := hlayout.exists_control
  rw [State.clear, hlayout.store_control hc hid mapping s hfield]
  exact ⟨h.fault, hwords c ctrlInfo hc hid, h.senders, rfl, h.printed, h.valid, hoffset,
    fun segId off he => absurd he (hpc segId off)⟩

theorem receiverStep_represents :
    Represents size (receiverStep mapping s) (ControlSlot.receiverStep hlayout.slots t) := by
  unfold receiverStep ControlSlot.receiverStep
  rw [h.receiver]
  cases hpc : s.receiver with
  | poll =>
      simp only [h.load_ready hlayout mapping]
      by_cases hready : t.control.ready = 0
      · rw [if_pos hready, if_pos hready]
        exact h
      · rw [if_neg hready, if_neg hready]
        refine ⟨h.fault, h.words, h.senders, rfl, h.printed, h.valid, h.offset, ?_⟩
        intro _ _ he
        cases he
  | readSegment =>
      simp only [h.load_segmentId hlayout mapping]
      refine ⟨h.fault, h.words, h.senders, rfl, h.printed, h.valid, h.offset, ?_⟩
      intro _ _ he
      cases he
  | readOffset segId =>
      simp only [h.load_offset hlayout mapping]
      refine ⟨h.fault, h.words, h.senders, rfl, h.printed, h.valid, h.offset, ?_⟩
      intro segId' off he
      cases he
      exact h.offset
  | load segId off =>
      have hfits := h.inHand segId off hpc
      have hget : (receiverPointer ⟨segId, off⟩).get (registerAll segments mapping.base) =
          (registerAll segments mapping.base segId).map (· + off) := by
        simp [RelativePointer.get, receiverPointer]
      by_cases hknown : ∃ info ∈ segments, info.id = segId
      · obtain ⟨info, hmem, rfl⟩ := hknown
        obtain ⟨i, hi⟩ := List.getElem?_of_mem hmem
        rw [hlayout.registered hi mapping, Option.map_some] at hget
        simp only [hget, hlayout.load_eq hi mapping s hfits.inside,
          hlayout.loadValue_eq h.words hi hfits]
        refine ⟨h.fault, h.words, h.senders, rfl, ?_, h.valid, h.offset, ?_⟩
        · rw [h.printed]
          rfl
        · intro _ _ he
          cases he
      · have hunknown : ∀ info ∈ segments, info.id ≠ segId := fun info hmem hid =>
          hknown ⟨info, hmem, hid⟩
        have hne : segId ≠ 0 := by
          obtain ⟨c, ctrlInfo, hc, hid, -⟩ := hlayout.exists_control
          rintro rfl
          exact hunknown ctrlInfo (List.mem_of_getElem? hc) hid
        have hnone : ControlSlot.loadValue hlayout.slots t segId off = none := by
          rw [ControlSlot.loadValue, if_neg hne, if_neg]
          rw [hlayout.any_slots hne]
          exact hknown
        rw [registerAll_eq_none mapping.base hunknown, Option.map_none] at hget
        simp only [hget, hnone, Option.toList_none, List.append_nil]
        refine ⟨h.fault, h.words, h.senders, rfl, h.printed, h.valid, h.offset, ?_⟩
        intro _ _ he
        cases he
  | clearSegment =>
      exact h.clear hlayout mapping (by decide) (by intro _ _ he; cases he)
        (fun c _ hc hid => h.words.setSegmentId hlayout hc hid 0) h.offset
  | clearOffset =>
      exact h.clear hlayout mapping (by decide) (by intro _ _ he; cases he)
        (fun c _ hc hid => h.words.setOffset hlayout hc hid 0)
        hlayout.fits_zero
  | clearReady =>
      exact h.clear hlayout mapping (by decide) (by intro _ _ he; cases he)
        (fun c _ hc hid => h.words.setReady hlayout hc hid 0) h.offset

end Step

/-! ### Runs -/

/-- No sender is started with the offset `-8`. -/
def InBounds : Guard (State segments) (Action segments) := fun _ a =>
  match a with
  | .start _ offset _ _ => offset.toNat ≠ 2 ^ 64 - 8
  | .sender _ | .receiver => True

/-- The same for `ControlSlot`. -/
def SlotInBounds : Guard ControlSlot.State ControlSlot.Action := fun _ a =>
  match a with
  | .start args => args.offset.toNat ≠ 2 ^ 64 - 8
  | .sender _ | .receiver => True

instance (t : ControlSlot.State) (b : ControlSlot.Action) : Decidable (SlotInBounds t b) :=
  match b with
  | .start args => inferInstanceAs (Decidable (args.offset.toNat ≠ 2 ^ 64 - 8))
  | .sender _ | .receiver => inferInstanceAs (Decidable True)

/-- The step of `ControlSlot`. -/
def Action.slot : Action segments → ControlSlot.Action
  | .start dataSegIdx offset value _ => .start ⟨dataSegIdx.toNat, offset, value⟩
  | .sender i => .sender i
  | .receiver => .receiver

/-- What passes the checks of a sender, other than the offset `-8`. -/
theorem valid_of_checkArguments (hlayout : Layout segments size) {dataSegIdx : UInt32}
    {offset : UInt64} {value : Int64} {target : SegmentInfo} {i : Nat}
    (h : checkArguments segments dataSegIdx offset value = .ok (target, i))
    (hoffset : offset.toNat ≠ 2 ^ 64 - 8) (mapping : Mapping segments) :
    Sender.Valid size (⟨mapping, target, offset, value, .storeData⟩ : Sender segments) := by
  obtain ⟨hi, haligned, hsize⟩ := checkArguments_ok h
  have hinside := add_eight_le haligned hsize hoffset
  rw [hlayout.size_eq hi] at hinside
  refine ⟨⟨i, hi⟩, ?_, haligned, hinside⟩
  have hmessage := hlayout.message_eq dataSegIdx offset value
  rw [h] at hmessage
  exact (ControlSlot.message_known hmessage).1

/-- **One step.** The two systems can make the same steps, and stay together. -/
theorem step_rel (hlayout : Layout segments size) (mapping : Mapping segments)
    {s : State segments} {t : ControlSlot.State} (h : Represents size s t) {a : Action segments}
    (hg : InBounds s a) :
    Option.Rel (Represents size) (step mapping s a) (ControlSlot.step hlayout.slots t a.slot) := by
  have hfault : ¬ s.fault = true := by simp [h.fault]
  cases a with
  | start dataSegIdx offset value sender =>
      rw [step, if_neg hfault, startStep, Action.slot, ControlSlot.step, hlayout.message_eq]
      cases hcheck : checkArguments segments dataSegIdx offset value with
      | error => exact .none
      | ok target =>
          refine .some ⟨h.fault, h.words, ?_, h.receiver, h.printed, ?_, h.offset, h.inHand⟩
          · rw [List.map_append, ← h.senders]
            rfl
          · intro d hd
            rcases List.mem_append.mp hd with hd | hd
            · exact h.valid d hd
            · obtain rfl := List.mem_singleton.mp hd
              exact valid_of_checkArguments hlayout hcheck hg sender
  | sender i =>
      rw [step, if_neg hfault, Action.slot, ControlSlot.step, h.senders, List.getElem?_map]
      cases hi : s.senders[i]? with
      | none => exact .none
      | some d => exact senderStep_rel hlayout h hi
  | receiver =>
      rw [step, if_neg hfault]
      exact .some (receiverStep_represents hlayout h mapping)

theorem represents_start (hlayout : Layout segments size) :
    Represents size (.start : State segments) .start where
  fault := rfl
  words := by
    refine ⟨?_, ?_, ?_, ?_⟩ <;> intros <;> simp only [State.start, Objects.word_zero] <;> rfl
  senders := rfl
  receiver := rfl
  printed := rfl
  valid := nofun
  offset := hlayout.fits_zero
  inHand := nofun

/-- Every step of `ControlSlot` is one of some processes here. -/
theorem exists_action (hlayout : Layout segments size) (mapping : Mapping segments)
    {s : State segments} {t t' : ControlSlot.State} {b : ControlSlot.Action}
    (hg : SlotInBounds t b) (hs : ControlSlot.step hlayout.slots t b = some t') :
    ∃ a : Action segments, a.slot = b ∧ InBounds s a := by
  cases b with
  | sender i => exact ⟨.sender i, rfl, trivial⟩
  | receiver => exact ⟨.receiver, rfl, trivial⟩
  | start args =>
      obtain ⟨index, offset, value⟩ := args
      refine ⟨.start (UInt32.ofNat index) offset value mapping, ?_, hg⟩
      have hindex : index < 2 ^ 32 := by
        obtain ⟨message, hmessage, -⟩ := Option.map_eq_some_iff.mp hs
        have hlt : index < hlayout.slots.length := by
          by_contra hge
          have hnone : hlayout.slots[index]? = none := List.getElem?_eq_none (by omega)
          simp [ControlSlot.Arguments.message, hnone] at hmessage
        have hle : hlayout.slots.length ≤ segments.length := by
          rw [Layout.slots, List.length_pmap]
          exact (List.length_filter_le _ _).trans (by simp)
        have hcount := hlayout.count
        omega
      rw [Action.slot, UInt32.toNat_ofNat', Nat.mod_eq_of_lt hindex]

/-- Runs of the processes are runs of `ControlSlot`, under guards that go together. -/
theorem exists_slot (hlayout : Layout segments size) {mapping : Mapping segments}
    {G : Guard (State segments) (Action segments)}
    {H : Guard ControlSlot.State ControlSlot.Action} (hbounds : ∀ s a, G s a → InBounds s a)
    (hguard : ∀ s t a, Represents size s t → G s a → H t a.slot) {s : State segments}
    (h : (machine mapping).Reachable G s) :
    ∃ t, (ControlSlot.machine hlayout.slots).Reachable H t ∧ Represents size s t := by
  refine h.simulate (represents_start hlayout) ?_
  intro s a s' t hr hg hs
  have hrel := step_rel hlayout mapping hr (hbounds s a hg)
  rw [show step mapping s a = some s' from hs] at hrel
  cases hstep : ControlSlot.step hlayout.slots t a.slot with
  | none =>
      rw [hstep] at hrel
      cases hrel
  | some t' =>
      rw [hstep] at hrel
      cases hrel with
      | some hr' => exact ⟨t', .single (hguard s t a hr hg) hstep, hr'⟩

theorem slotInBounds_of_inBounds (s : State segments) (t : ControlSlot.State)
    (a : Action segments) (_ : Represents size s t) (hg : InBounds s a) :
    SlotInBounds t a.slot := by
  cases a with
  | start => exact hg
  | sender | receiver => trivial

theorem exists_bytes (hlayout : Layout segments size) (mapping : Mapping segments)
    {t : ControlSlot.State}
    (h : (ControlSlot.machine hlayout.slots).Reachable SlotInBounds t) :
    ∃ s, (machine mapping).Reachable InBounds s ∧ Represents size s t := by
  refine h.simulate (R := fun t s => Represents size s t) (represents_start hlayout) ?_
  intro t b t' s hr hg hs
  obtain ⟨a, rfl, hg'⟩ := exists_action hlayout mapping (s := s) hg hs
  have hrel := step_rel hlayout mapping hr hg'
  rw [show ControlSlot.step hlayout.slots t a.slot = some t' from hs] at hrel
  cases hstep : step mapping s a with
  | none =>
      rw [hstep] at hrel
      cases hrel
  | some s' =>
      rw [hstep] at hrel
      cases hrel with
      | some hr' => exact ⟨s', .single hg' hstep, hr'⟩

/-! ### What can be seen -/

/-- What the processes can see: the control message as the receiver finds it, the senders and
the receiver with what they hold, and what is printed. -/
def State.seen (mapping : Mapping segments) (s : State segments) :
    List (Option UInt64) × List ControlSlot.Sender × ReceiverPc × List Int64 :=
  ([s.load mapping (controlAddress mapping 0), s.load mapping (controlAddress mapping 8),
      s.load mapping (controlAddress mapping 16)],
    s.senders.map Sender.slot, s.receiver, s.printed)

/-- The same of `ControlSlot`. -/
def slotSeen (t : ControlSlot.State) :
    List (Option UInt64) × List ControlSlot.Sender × ReceiverPc × List Int64 :=
  ([some t.control.ready, some t.control.segmentId, some t.control.offset], t.senders, t.receiver,
    t.loaded)

theorem Represents.seen_eq (hlayout : Layout segments size) (mapping : Mapping segments)
    {s : State segments} {t : ControlSlot.State} (h : Represents size s t) :
    s.seen mapping = slotSeen t := by
  rw [State.seen, h.load_ready hlayout, h.load_segmentId hlayout, h.load_offset hlayout, slotSeen,
    h.senders, h.receiver, h.printed]

/-- **The bytes behave like the words.** For segments as Roudi creates them, wherever each
process has mapped them, and senders that are not started with the offset `-8`: no process ever
leaves the segments, and the processes can show exactly what those of `ControlSlot` can. -/
theorem refines_control_slot (hlayout : Layout segments size) (mapping : Mapping segments) :
    (∀ s, (machine mapping).Reachable InBounds s → s.fault = false) ∧
      ∀ seen, (∃ s, (machine mapping).Reachable InBounds s ∧ s.seen mapping = seen) ↔
        ∃ t, (ControlSlot.machine hlayout.slots).Reachable SlotInBounds t ∧
          slotSeen t = seen := by
  refine ⟨?_, ?_⟩
  · intro s hs
    obtain ⟨t, -, hr⟩ := exists_slot hlayout (fun _ _ hg => hg) slotInBounds_of_inBounds hs
    exact hr.fault
  · intro seen
    constructor
    · rintro ⟨s, hs, rfl⟩
      obtain ⟨t, ht, hr⟩ := exists_slot hlayout (fun _ _ hg => hg) slotInBounds_of_inBounds hs
      exact ⟨t, ht, (hr.seen_eq hlayout mapping).symm⟩
    · rintro ⟨t, ht, rfl⟩
      obtain ⟨s, hs, hr⟩ := exists_bytes hlayout mapping ht
      exact ⟨s, hs, hr.seen_eq hlayout mapping⟩

/-- A value sent through Roudi's segments, by a run of `ControlSlot`. -/
theorem refines_control_slot_roudi :
    ∃ s : State roudiSegments,
      (machine (spread mappable_roudiSegments)).Reachable InBounds s ∧ s.fault = false ∧
        s.printed = [7] := by
  obtain ⟨t, ht, hp⟩ := Machine.reachable_of_execWithin
    (M := ControlSlot.machine layout_roudiSegments.slots) (G := SlotInBounds)
    (l := [.start ⟨0, 8, 7⟩] ++ List.replicate 5 (.sender 0) ++ List.replicate 4 .receiver)
    (p := fun t => t.loaded == [7]) (by decide +kernel)
  obtain ⟨hfault, hseen⟩ :=
    refines_control_slot layout_roudiSegments (spread mappable_roudiSegments)
  obtain ⟨s, hs, heq⟩ := (hseen (slotSeen t)).mpr ⟨t, ht, rfl⟩
  have hprinted : s.printed = t.loaded := congrArg (fun seen => seen.2.2.2) heq
  exact ⟨s, hs, hfault s hs, hprinted.trans (by simpa using hp)⟩

end CppCode.SharedMemory
