import Mathlib.Logic.Function.Iterate
import CppCode.Concurrency.Slots
import CppCode.ControlSlot.Model

/-!
# CppCode.ControlSlot.Mailbox

When the control message is a mailbox. A sender owns its two fields between its wait and
its store of `ready` (`Sender.writing`). As long as no sender passes the wait while another
one is there (`OneWriter`), what the receiver has read from the fields is what the senders
have published, pair by pair and in order, and the last pair is read before the fields are
written again (`slot_delivers`).

The wait does not see to it: its `compare_exchange` leaves `ready` at `0`, so a second
sender passes it too, and the receiver reads a pair nobody sent (`two_senders_mix`).
-/

namespace CppCode.ControlSlot

open Concurrency

/-- Past the wait, with `ready` not stored yet. -/
def Sender.writing (sender : Sender) : Bool :=
  match sender.pc with
  | .writeSegment | .writeOffset | .storeReady => true
  | .storeData | .waitReady | .exited => false

/-- The step is a sender's `compare_exchange` that succeeds. -/
def passesWait (s : State) : Action → Bool
  | .sender i => s.control.ready == 0 && s.senders[i]?.any fun d => d.pc == .waitReady
  | .start _ | .receiver => false

/-- No sender passes its wait while another one is writing the control message. -/
def OneWriter : Guard State Action := fun s a =>
  passesWait s a = true → ∀ d ∈ s.senders, d.writing = false

instance (s : State) (a : Action) : Decidable (OneWriter s a) :=
  inferInstanceAs (Decidable (passesWait s a = true → ∀ d ∈ s.senders, d.writing = false))

/-! ### The senders -/

/-- At most one sender is writing, it does so while `ready` is `0`, and the fields it has
written are its own. -/
structure Writers (control : ControlMessage) (senders : List Sender) : Prop where
  one : AtMostOne Sender.writing senders
  free : ∀ (i : Nat) d, senders[i]? = some d → d.writing = true → control.ready = 0
  segment : ∀ (i : Nat) d, senders[i]? = some d → d.pc = .writeOffset ∨ d.pc = .storeReady →
    control.segmentId = d.message.address.segment
  offset : ∀ (i : Nat) d, senders[i]? = some d → d.pc = .storeReady →
    control.offset = d.message.address.offset

section Writers

variable {control control' : ControlMessage} {senders : List Sender} {i : Nat} {d : Sender}

theorem Sender.writing_of_pc (h : d.pc = .writeOffset ∨ d.pc = .storeReady) :
    d.writing = true := by
  rcases h with h | h <;> simp [Sender.writing, h]

/-- Where nobody is writing, the control message may be anything. -/
theorem Writers.of_idle (h : ∀ (i : Nat) d, senders[i]? = some d → d.writing = false) :
    Writers control senders := by
  have hno : ∀ (i : Nat) d, senders[i]? = some d → d.writing ≠ true := by
    intro i d hd
    rw [h i d hd]
    exact Bool.false_ne_true
  constructor
  · intro i j d e hd _ hw
    exact absurd hw (hno i d hd)
  · intro i d hd hw
    exact absurd hw (hno i d hd)
  · intro i d hd hpc
    exact absurd (Sender.writing_of_pc hpc) (hno i d hd)
  · intro i d hd hpc
    exact absurd (Sender.writing_of_pc (.inr hpc)) (hno i d hd)

/-- A step of the sender at `i`, while no other one is writing. -/
theorem Writers.set_alone
    (hothers : ∀ (j : Nat) e, senders[j]? = some e → j ≠ i → e.writing = false)
    (hfree : d.writing = true → control.ready = 0)
    (hseg : d.pc = .writeOffset ∨ d.pc = .storeReady →
      control.segmentId = d.message.address.segment)
    (hoff : d.pc = .storeReady → control.offset = d.message.address.offset) :
    Writers control (senders.set i d) := by
  -- whoever is writing now is the sender at `i`
  have honly : ∀ (j : Nat) e, (senders.set i d)[j]? = some e → e.writing = true →
      e = d := by
    intro j e he hw
    rcases getElem?_set_cases he with ⟨-, heq⟩ | ⟨hj, he⟩
    · exact heq
    · rw [hothers j e he hj] at hw
      cases hw
  constructor
  · exact .set hothers
  · intro j e he hw
    obtain rfl := honly j e he hw
    exact hfree hw
  · intro j e he hpc
    obtain rfl := honly j e he (Sender.writing_of_pc hpc)
    exact hseg hpc
  · intro j e he hpc
    obtain rfl := honly j e he (Sender.writing_of_pc (.inr hpc))
    exact hoff hpc

/-- Only the senders that are writing count. -/
theorem Writers.of_writing (h : Writers control senders) {senders' : List Sender}
    (hold : ∀ (j : Nat) e, senders'[j]? = some e → e.writing = true → senders[j]? = some e) :
    Writers control senders' := by
  constructor
  · exact h.one.of_subset hold
  · intro j e he hw
    exact h.free j e (hold j e he hw) hw
  · intro j e he hpc
    exact h.segment j e (hold j e he (Sender.writing_of_pc hpc)) hpc
  · intro j e he hpc
    exact h.offset j e (hold j e he (Sender.writing_of_pc (.inr hpc))) hpc

/-- A step of the sender at `i` after which it is not writing. -/
theorem Writers.set_idle (h : Writers control senders) (hd : d.writing = false) :
    Writers control (senders.set i d) :=
  h.of_writing fun _ _ he hw => getElem?_of_set hd he hw

/-- A sender starts. -/
theorem Writers.concat (h : Writers control senders) (hd : d.writing = false) :
    Writers control (senders ++ [d]) := by
  refine h.of_writing ?_
  intro j e he hw
  rcases getElem?_concat_cases he with he | ⟨-, rfl⟩
  · exact he
  · rw [hd] at hw
    cases hw

end Writers

/-! ### The receiver -/

/-- The pair that is published and not read yet. -/
def unobserved (s : State) : List Address :=
  match s.receiver with
  | .poll => if s.control.ready = 0 then [] else [⟨s.control.segmentId, s.control.offset⟩]
  | .readSegment => [⟨s.control.segmentId, s.control.offset⟩]
  | .readOffset segId => [⟨segId, s.control.offset⟩]
  | .load _ _ | .clearSegment | .clearOffset | .clearReady => []

/-- The senders take turns, the receiver is past its poll only while `ready` is set, and
what is published is what the receiver has read and the pair it is about to read. -/
structure Mailbox (s : State) : Prop where
  writers : Writers s.control s.senders
  busy : s.receiver ≠ .poll → s.control.ready ≠ 0
  mail : s.published.map Message.address = s.observed ++ unobserved s

section Mailbox

variable {segments : List Segment} {s s' : State} {a : Action} {i : Nat} {d : Sender}

/-- While a sender is writing, the receiver polls and everything published has been read. -/
theorem Mailbox.polling (h : Mailbox s) (hi : s.senders[i]? = some d) (hw : d.writing = true) :
    s.control.ready = 0 ∧ s.receiver = .poll ∧
      s.published.map Message.address = s.observed := by
  have hr := h.writers.free i d hi hw
  have hpoll : s.receiver = .poll := by
    by_contra hn
    exact h.busy hn hr
  have hmail := h.mail
  rw [unobserved, hpoll, if_pos hr, List.append_nil] at hmail
  exact ⟨hr, hpoll, hmail⟩

/-- While `ready` is set, nobody is writing. -/
theorem Mailbox.idle (h : Mailbox s) (hr : s.control.ready ≠ 0) :
    ∀ (i : Nat) d, s.senders[i]? = some d → d.writing = false := by
  intro i d hd
  by_contra hn
  exact hr (h.writers.free i d hd (by simpa using hn))

theorem receiverStep_mailbox (h : Mailbox s) : Mailbox (receiverStep segments s) := by
  have hmail := h.mail
  unfold receiverStep
  cases hpc : s.receiver with
  | poll =>
      dsimp only
      split
      · exact h
      · rename_i hr
        refine ⟨h.writers, fun _ => hr, ?_⟩
        rw [unobserved, hpc, if_neg hr] at hmail
        exact hmail
  | readSegment =>
      refine ⟨h.writers, fun _ => h.busy (by simp [hpc]), ?_⟩
      rw [unobserved, hpc] at hmail
      exact hmail
  | readOffset segId =>
      refine ⟨h.writers, fun _ => h.busy (by simp [hpc]), ?_⟩
      rw [unobserved, hpc] at hmail
      simp only [unobserved, List.append_nil]
      exact hmail
  | load segId off =>
      refine ⟨h.writers, fun _ => h.busy (by simp [hpc]), ?_⟩
      rw [unobserved, hpc] at hmail
      exact hmail
  | clearSegment =>
      have hr := h.busy (by simp [hpc])
      refine ⟨.of_idle (h.idle hr), fun _ => hr, ?_⟩
      rw [unobserved, hpc] at hmail
      exact hmail
  | clearOffset =>
      have hr := h.busy (by simp [hpc])
      refine ⟨.of_idle (h.idle hr), fun _ => hr, ?_⟩
      rw [unobserved, hpc] at hmail
      exact hmail
  | clearReady =>
      have hr := h.busy (by simp [hpc])
      refine ⟨.of_idle (h.idle hr), fun hn => absurd rfl hn, ?_⟩
      rw [unobserved, hpc] at hmail
      exact hmail

/-- A step of a sender other than its store of `ready`: it changes the control message while
`ready` is `0`, or not at all. -/
theorem Mailbox.sender_moves (h : Mailbox s) {control : ControlMessage}
    {data : Address → Int64} {senders : List Sender} (hw : Writers control senders)
    (hc : control = s.control ∨ s.control.ready = 0 ∧ control.ready = 0) :
    Mailbox { s with control := control, data := data, senders := senders } := by
  rcases hc with rfl | ⟨hr, hr'⟩
  · exact ⟨hw, h.busy, h.mail⟩
  · have hpoll : s.receiver = .poll := by
      by_contra hn
      exact h.busy hn hr
    refine ⟨hw, fun hn => absurd hpoll hn, ?_⟩
    have hmail := h.mail
    simp only [unobserved, hpoll, hr, hr', if_true] at hmail ⊢
    exact hmail

theorem step_mailbox (h : Mailbox s) (hg : OneWriter s a) (hs : step segments s a = some s') :
    Mailbox s' := by
  cases step_moved hs with
  | starts hm => exact h.sender_moves (h.writers.concat rfl) (.inl rfl)
  | stores hi hpc => exact h.sender_moves (h.writers.set_idle rfl) (.inl rfl)
  | passes hi hpc hr =>
      have hidle := hg (by simp [passesWait, hr, hi, hpc])
      refine h.sender_moves (.set_alone ?_ (fun _ => hr) nofun nofun) (.inl rfl)
      exact fun j e he _ => hidle e (List.mem_of_getElem? he)
  | @writesSegment i d hi hpc =>
      have hw : d.writing = true := by simp only [Sender.writing, hpc]
      have hr := h.writers.free _ _ hi hw
      exact h.sender_moves
        (.set_alone (h.writers.one.others hi hw) (fun _ => hr) (fun _ => rfl) nofun) (.inr ⟨hr, hr⟩)
  | writesOffset hi hpc =>
      have hw := Sender.writing_of_pc (.inl hpc)
      have hr := h.writers.free _ _ hi hw
      have hseg := h.writers.segment _ _ hi (.inl hpc)
      exact h.sender_moves
        (.set_alone (h.writers.one.others hi hw) (fun _ => hr) (fun _ => hseg) (fun _ => rfl))
        (.inr ⟨hr, hr⟩)
  | @publishes i d hi hpc =>
      have hw := Sender.writing_of_pc (.inr hpc)
      obtain ⟨-, hpoll, hmail⟩ := h.polling hi hw
      refine ⟨.set_alone (h.writers.one.others hi hw) nofun nofun nofun, nofun, ?_⟩
      have hpair : (⟨s.control.segmentId, s.control.offset⟩ : Address) = d.message.address := by
        rw [h.writers.segment _ _ hi (.inr hpc), h.writers.offset _ _ hi hpc]
      simp [State.goto, unobserved, hpoll, hmail, hpair]
  | receives => exact receiverStep_mailbox h

theorem reachable_mailbox (h : (machine segments).Reachable OneWriter s) : Mailbox s :=
  h.invariant ⟨.of_idle nofun, fun hn => absurd rfl hn, rfl⟩
    fun _ hi hg hs => step_mailbox hi hg hs

/-- A few steps of the receiver read the pair that is left. -/
theorem Mailbox.receiver_reads (h : Mailbox s) (segments : List Segment) :
    ∃ n, ((receiverStep segments)^[n] s).observed = s.published.map Message.address := by
  rw [h.mail]
  cases hpc : s.receiver with
  | poll =>
      by_cases hr : s.control.ready = 0
      · exact ⟨0, by simp [unobserved, hpc, hr]⟩
      · exact ⟨3, by simp [unobserved, receiverStep, hpc, hr]⟩
  | readSegment => exact ⟨2, by simp [unobserved, receiverStep, hpc]⟩
  | readOffset segId => exact ⟨1, by simp [unobserved, receiverStep, hpc]⟩
  | load segId off => exact ⟨0, by simp [unobserved, hpc]⟩
  | clearSegment | clearOffset | clearReady => exact ⟨0, by simp [unobserved, hpc]⟩

end Mailbox

/-- **A mailbox for senders that take turns.** For any number of senders and every
interleaving in which none passes its wait while another one is writing the control message:
the pairs the receiver has read are the published ones, in order, short of the last one at
most; whenever a sender is writing, none is left; and the receiver on its own reads what is
left. -/
theorem slot_delivers {segments : List Segment} {s : State}
    (h : (machine segments).Reachable OneWriter s) :
    (∃ left, s.published.map Message.address = s.observed ++ left ∧ left.length ≤ 1) ∧
      (∀ d ∈ s.senders, d.writing = true → s.published.map Message.address = s.observed) ∧
      ∃ n, ((receiverStep segments)^[n] s).observed = s.published.map Message.address := by
  have hbox := reachable_mailbox h
  refine ⟨⟨unobserved s, hbox.mail, ?_⟩, fun d hd hw => ?_, hbox.receiver_reads segments⟩
  · unfold unobserved
    split
    · split <;> simp
    all_goals simp
  · obtain ⟨i, hi⟩ := List.mem_iff_getElem?.mp hd
    exact (hbox.polling hi hw).2.2

/-- Two data segments of sixteen bytes. -/
def twoSegments : List Segment :=
  [⟨1, 16, by decide⟩, ⟨2, 16, by decide⟩]

/-- A sender at position `i` from its start to its exit. -/
def sends (i : Nat) : List Action :=
  List.replicate 5 (.sender i)

/-- Two messages through two segments; the receiver has read the first and not yet the
second. -/
theorem slot_delivers_two_messages :
    ∃ s, (machine twoSegments).Reachable OneWriter s ∧
      s.published = [⟨⟨1, 0⟩, 5⟩, ⟨⟨2, 8⟩, 6⟩] ∧ s.observed = [⟨1, 0⟩] ∧
      ∃ n, ((receiverStep twoSegments)^[n] s).observed = [⟨1, 0⟩, ⟨2, 8⟩] := by
  obtain ⟨s, hs, hp⟩ := Machine.reachable_of_execWithin (M := machine twoSegments)
    (G := OneWriter)
    (l := [Action.start ⟨0, 0, 5⟩, .start ⟨1, 8, 6⟩] ++ sends 0 ++
      List.replicate 7 Action.receiver ++ sends 1)
    (p := fun s => s.published == [⟨⟨1, 0⟩, 5⟩, ⟨⟨2, 8⟩, 6⟩] && s.observed == [⟨1, 0⟩])
    (by decide)
  obtain ⟨hpub, hobs⟩ : s.published = [⟨⟨1, 0⟩, 5⟩, ⟨⟨2, 8⟩, 6⟩] ∧ s.observed = [⟨1, 0⟩] := by
    simpa using hp
  obtain ⟨-, -, n, hn⟩ := slot_delivers hs
  rw [hpub] at hn
  exact ⟨s, hs, hpub, hobs, n, hn⟩

/-- Both senders pass their wait before either stores `ready`. The receiver reads the segment
of the second with the offset of the first, and nothing of the second message. -/
theorem two_senders_mix :
    ∃ s, (machine twoSegments).Reachable Machine.free s ∧
      s.senders = [⟨⟨⟨1, 0⟩, 5⟩, .exited⟩, ⟨⟨⟨2, 8⟩, 6⟩, .exited⟩] ∧
      s.observed = [⟨2, 0⟩] ∧ s.control.ready = 0 ∧ s.receiver = .poll := by
  obtain ⟨s, hs, hp⟩ := Machine.reachable_of_exec (M := machine twoSegments)
    (l := [Action.start ⟨0, 0, 5⟩, .start ⟨1, 8, 6⟩, .sender 0, .sender 1, .sender 0, .sender 1,
      .sender 0, .sender 1, .sender 1, .sender 0, .sender 0, .sender 1] ++
      List.replicate 7 Action.receiver)
    (p := fun s => s.senders == [⟨⟨⟨1, 0⟩, 5⟩, .exited⟩, ⟨⟨⟨2, 8⟩, 6⟩, .exited⟩] &&
      s.observed == [⟨2, 0⟩] && s.control.ready == 0 && s.receiver == .poll) (by decide)
  exact ⟨s, hs, by simpa [and_assoc] using hp⟩

end CppCode.ControlSlot
