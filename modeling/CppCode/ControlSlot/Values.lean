import CppCode.ControlSlot.Mailbox

/-!
# CppCode.ControlSlot.Values

The values the receiver loads, for senders that run one after the other (`InTurn`). They are
the values the senders were given, in order, as long as every store stays in its segment
(`NoWrap`) and none changes a cell that a message still to be loaded names (`KeepsUnloaded`,
`values_delivered`).

A sender stores its value before it waits for the control message to be free, so the
handshake on `ready` does not protect the cell: the next sender overwrites it while the
receiver is on its way to it (`value_overwritten`).
-/

namespace CppCode.ControlSlot

open Concurrency

/-- The step starts a sender. -/
def Action.starts : Action → Bool
  | .start _ => true
  | .sender _ | .receiver => false

/-- A sender starts only when every earlier one has exited. -/
def InTurn : Guard State Action := fun s a =>
  a.starts = true → ∀ d ∈ s.senders, d.pc = .exited

instance (s : State) (a : Action) : Decidable (InTurn s a) :=
  inferInstanceAs (Decidable (a.starts = true → ∀ d ∈ s.senders, d.pc = .exited))

/-- The sum in the check of the sender does not wrap, so the store stays in the segment. -/
def NoWrap : Guard State Action := fun _ a =>
  match a with
  | .start args => args.offset.toNat + 8 < 2 ^ 64
  | .sender _ | .receiver => True

instance : (s : State) → (a : Action) → Decidable (NoWrap s a)
  | _, .start args => inferInstanceAs (Decidable (args.offset.toNat + 8 < 2 ^ 64))
  | _, .sender _ | _, .receiver => inferInstanceAs (Decidable True)

/-- The address of the message that is published and not loaded yet. -/
def unloaded (s : State) : List Address :=
  match s.receiver with
  | .load segId off => [⟨segId, off⟩]
  | _ => unobserved s

/-- What the step stores in a data segment. -/
def storedMessage (s : State) : Action → Option Message
  | .sender i =>
      match s.senders[i]? with
      | some ⟨message, .storeData⟩ => some message
      | _ => none
  | .start _ | .receiver => none

/-- No store changes the cell of a message that is still to be loaded. -/
def KeepsUnloaded : Guard State Action := fun s a =>
  ∀ m ∈ storedMessage s a, m.address ∈ unloaded s → s.data m.address = m.value

instance (s : State) (a : Action) : Decidable (KeepsUnloaded s a) :=
  inferInstanceAs (Decidable
    (∀ m ∈ storedMessage s a, m.address ∈ unloaded s → s.data m.address = m.value))

/-! ### One sender at a time -/

/-- The senders are the ones that have exited, whose messages are published in their order,
and at most one more. -/
structure Serial (segments : List Segment) (s : State) (current : Option Sender) : Prop where
  senders : s.senders = s.published.map (⟨·, .exited⟩) ++ current.toList
  running : ∀ d ∈ current, d.pc ≠ .exited
  /-- The receiver knows the segments. -/
  known : ∀ d ∈ s.senders, d.message.address.segment ≠ 0 ∧
    segments.any (fun segment => segment.id = d.message.address.segment) = true
  /-- The current sender's value is in place once it is stored. -/
  stored : ∀ d ∈ current, d.pc ≠ .storeData → s.data d.message.address = d.message.value

section Serial

variable {segments : List Segment} {s s' : State} {a : Action} {current : Option Sender}
  {i : Nat} {d : Sender}

/-- Only the current sender can move. -/
theorem Serial.eq_current (h : Serial segments s current) (hi : s.senders[i]? = some d)
    (hpc : d.pc ≠ .exited) :
    current = some d ∧ ∀ e, s.senders.set i e = s.published.map (⟨·, .exited⟩) ++ [e] := by
  have hpast : (s.published.map (⟨·, .exited⟩ : Message → Sender))[i]? ≠ some d := by
    intro hpast
    obtain ⟨m, -, rfl⟩ := List.mem_map.mp (List.mem_of_getElem? hpast)
    exact hpc rfl
  rw [h.senders] at hi ⊢
  cases current with
  | none =>
      rw [Option.toList_none, List.append_nil] at hi
      exact absurd hi hpast
  | some d' =>
      rw [Option.toList_some] at hi ⊢
      obtain ⟨rfl, rfl⟩ := (getElem?_concat_cases hi).resolve_left hpast
      refine ⟨rfl, ?_⟩
      intro e
      rw [List.set_append_right _ _ (Nat.le_refl _), Nat.sub_self]
      rfl

theorem Serial.current_mem (h : Serial segments s (some d)) : d ∈ s.senders := by
  rw [h.senders]
  simp

theorem Serial.idle (h : Serial segments s current)
    (hc : ∀ d ∈ current, d.writing = false) : ∀ d ∈ s.senders, d.writing = false := by
  intro d hd
  rw [h.senders, List.mem_append] at hd
  rcases hd with hd | hd
  · obtain ⟨m, -, rfl⟩ := List.mem_map.mp hd
    rfl
  · exact hc d (by simpa using hd)

/-- While the senders take turns, so do those that write the control message. -/
theorem Serial.oneWriter (h : Serial segments s current) (a : Action) : OneWriter s a := by
  intro hpass
  cases a with
  | start args | receiver => cases hpass
  | sender i =>
      rw [passesWait, Bool.and_eq_true, Option.any_eq_true] at hpass
      obtain ⟨-, d, hi, hpc⟩ := hpass
      have hpc : d.pc = .waitReady := by simpa using hpc
      obtain ⟨rfl, -⟩ := h.eq_current hi (by simp [hpc])
      refine h.idle ?_
      intro e he
      obtain rfl : d = e := by simpa using he
      simp [Sender.writing, hpc]

theorem message_known {args : Arguments} {message : Message}
    (h : args.message segments = some message) :
    message.address.segment ≠ 0 ∧
      segments.any (fun segment => segment.id = message.address.segment) = true := by
  unfold Arguments.message at h
  split at h
  · cases h
  split at h
  · cases h
  split at h
  · cases h
  rename_i segment hsegment
  split at h
  · cases h
  · obtain rfl := Option.some.inj h
    exact ⟨segment.isData, List.any_eq_true.mpr
      ⟨segment, List.mem_of_getElem? hsegment, by simp⟩⟩

/-- The current sender goes on. -/
theorem Serial.goto (h : Serial segments s (some d)) (pc : SenderPc) (hpc : pc ≠ .exited)
    {t : State} (hsenders : t.senders = s.published.map (⟨·, .exited⟩) ++ [{ d with pc := pc }])
    (hpub : t.published = s.published)
    (hstored : pc ≠ .storeData → t.data d.message.address = d.message.value) :
    Serial segments t (some { d with pc := pc }) where
  senders := by rw [hsenders, hpub, Option.toList_some]
  running := by
    intro e he
    obtain rfl := Option.mem_some.mp he
    exact hpc
  known := by
    intro e he
    rw [hsenders] at he
    rcases mem_concat.mp he with he | rfl
    · exact h.known e (by rw [h.senders]; exact List.mem_append_left _ he)
    · exact h.known d h.current_mem
  stored := by
    intro e he hne
    obtain rfl := Option.mem_some.mp he
    exact hstored hne

theorem step_serial (h : Serial segments s current) (hg : InTurn s a)
    (hs : step segments s a = some s') : ∃ current', Serial segments s' current' := by
  cases step_moved hs with
  | @starts args message hm =>
      have hnone : current = none := by
        cases current with
        | none => rfl
        | some d => exact absurd (hg rfl d h.current_mem) (h.running d rfl)
      subst hnone
      refine ⟨some ⟨message, .storeData⟩, ?_, by simp, ?_, by simp⟩
      · simp [h.senders]
      · intro d hd
        rcases mem_concat.mp hd with hd | rfl
        · exact h.known d hd
        · exact message_known hm
  | stores hi hpc =>
      obtain ⟨rfl, hset⟩ := h.eq_current hi (by simp [hpc])
      exact ⟨_, h.goto .waitReady (by simp) (hset _) rfl fun _ => by simp [State.goto]⟩
  | passes hi hpc hr =>
      obtain ⟨rfl, hset⟩ := h.eq_current hi (by simp [hpc])
      exact ⟨_, h.goto .writeSegment (by simp) (hset _) rfl fun _ => h.stored _ rfl (by simp [hpc])⟩
  | writesSegment hi hpc =>
      obtain ⟨rfl, hset⟩ := h.eq_current hi (by simp [hpc])
      exact ⟨_, h.goto .writeOffset (by simp) (hset _) rfl fun _ => h.stored _ rfl (by simp [hpc])⟩
  | writesOffset hi hpc =>
      obtain ⟨rfl, hset⟩ := h.eq_current hi (by simp [hpc])
      exact ⟨_, h.goto .storeReady (by simp) (hset _) rfl fun _ => h.stored _ rfl (by simp [hpc])⟩
  | @publishes i d hi hpc =>
      obtain ⟨rfl, hset⟩ := h.eq_current hi (by simp [hpc])
      refine ⟨none, ?_, by simp, ?_, by simp⟩
      · simp [State.goto, hset]
      · intro e he
        have he : e ∈ s.senders.set i { d with pc := .exited } := he
        rw [hset] at he
        rcases mem_concat.mp he with he | rfl
        · exact h.known e (by rw [h.senders]; exact List.mem_append_left _ he)
        · exact h.known d h.current_mem
  | receives =>
      exact ⟨current, by simpa using h.senders, h.running, by simpa using h.known,
        by simpa using h.stored⟩

end Serial

/-! ### From the published messages to the loaded values -/

/-- The published messages are the ones whose values are loaded and the one the receiver is
on its way to, whose cell still has its value. -/
structure Delivery (s : State) (read unread : List Message) : Prop where
  published : s.published = read ++ unread
  loaded : s.loaded = read.map Message.value
  addresses : unread.map Message.address = unloaded s
  memory : ∀ m ∈ unread, s.data m.address = m.value

section Delivery

variable {segments : List Segment} {s s' : State} {a : Action} {read unread : List Message}

/-- A step that leaves alone what the receiver is on its way to. -/
theorem Delivery.keep (h : Delivery s read unread) {t : State} (hpub : t.published = s.published)
    (hloaded : t.loaded = s.loaded) (haddr : unloaded t = unloaded s) (hdata : t.data = s.data) :
    ∃ read' unread', Delivery t read' unread' :=
  ⟨read, unread, hpub.trans h.published, hloaded.trans h.loaded, h.addresses.trans haddr.symm,
    hdata ▸ h.memory⟩

theorem receiverStep_delivery (h : Delivery s read unread)
    (hknown : ∀ m ∈ s.published, m.address.segment ≠ 0 ∧
      segments.any (fun segment => segment.id = m.address.segment) = true) :
    ∃ read' unread', Delivery (receiverStep segments s) read' unread' := by
  unfold receiverStep
  cases hpc : s.receiver with
  | poll =>
      dsimp only
      split
      · exact ⟨read, unread, h⟩
      · rename_i hr
        exact h.keep rfl rfl (by simp [unloaded, unobserved, hpc, hr]) rfl
  | readSegment => exact h.keep rfl rfl (by simp [unloaded, unobserved, hpc]) rfl
  | readOffset segId => exact h.keep rfl rfl (by simp [unloaded, unobserved, hpc]) rfl
  | load segId off =>
      -- the one message that is left is the one that is loaded
      have haddr := h.addresses
      rw [unloaded, hpc] at haddr
      obtain ⟨m, rfl, hm⟩ := List.map_eq_singleton_iff.mp haddr
      obtain ⟨hne, hany⟩ := hknown m (by rw [h.published]; simp)
      have hload : loadValue segments s segId off = some m.value := by
        rw [hm] at hne hany
        rw [loadValue, if_neg hne, if_pos hany, ← hm, h.memory m (by simp)]
      refine ⟨read ++ [m], [], by rw [h.published, List.append_nil], ?_, rfl, by simp⟩
      simp [hload, h.loaded]
  | clearSegment => exact h.keep rfl rfl (by simp [unloaded, unobserved, hpc]) rfl
  | clearOffset => exact h.keep rfl rfl (by simp [unloaded, unobserved, hpc]) rfl
  | clearReady => exact h.keep rfl rfl (by simp [unloaded, unobserved, hpc]) rfl

/-- While `ready` is clear and the receiver polls, every published value has been loaded. -/
theorem Delivery.all_read (h : Delivery s read unread) (hr : s.control.ready = 0)
    (hpoll : s.receiver = .poll) : unread = [] := by
  have haddr := h.addresses
  rw [unloaded, hpoll, unobserved, hpoll, if_pos hr] at haddr
  exact List.map_eq_nil_iff.mp haddr

/-- A sender writes a field of the control message. -/
theorem Delivery.writes (h : Delivery s read unread) {i : Nat} {d : Sender} (hbox : Mailbox s)
    (hi : s.senders[i]? = some d) (hw : d.writing = true) {control : ControlMessage}
    {senders : List Sender} (hr' : control.ready = 0) :
    ∃ read' unread', Delivery { s with control := control, senders := senders } read' unread' := by
  obtain ⟨hr, hpoll, -⟩ := hbox.polling hi hw
  obtain rfl := h.all_read hr hpoll
  refine ⟨read, [], h.published, h.loaded, ?_, nofun⟩
  simp [unloaded, unobserved, hpoll, hr']

theorem step_delivery {current : Option Sender} (hser : Serial segments s current)
    (hbox : Mailbox s) (h : Delivery s read unread) (hg : KeepsUnloaded s a)
    (hs : step segments s a = some s') : ∃ read' unread', Delivery s' read' unread' := by
  cases step_moved hs with
  | starts hm => exact h.keep rfl rfl rfl rfl
  | @stores i d hi hpc =>
      refine ⟨read, unread, h.published, h.loaded, h.addresses, ?_⟩
      intro m hm
      show Function.update s.data d.message.address d.message.value m.address = m.value
      by_cases heq : m.address = d.message.address
      · -- the cell of a message that is left is written with the value it has
        have hmem : d.message.address ∈ unloaded s := by
          rw [← h.addresses, ← heq]
          exact List.mem_map_of_mem hm
        obtain ⟨message, pc⟩ := d
        obtain rfl : pc = .storeData := hpc
        have hkeep := hg message (by simp [storedMessage, hi]) hmem
        rw [heq, Function.update_self, ← h.memory m hm, heq, hkeep]
      · rw [Function.update_of_ne heq]
        exact h.memory m hm
  | passes hi hpc hr => exact h.keep rfl rfl rfl rfl
  | @writesSegment i d hi hpc =>
      have hw : d.writing = true := by simp only [Sender.writing, hpc]
      exact h.writes hbox hi hw (hbox.polling hi hw).1
  | writesOffset hi hpc =>
      have hw := Sender.writing_of_pc (.inl hpc)
      exact h.writes hbox hi hw (hbox.polling hi hw).1
  | @publishes i d hi hpc =>
      have hw := Sender.writing_of_pc (.inr hpc)
      obtain ⟨hr, hpoll, -⟩ := hbox.polling hi hw
      obtain rfl := h.all_read hr hpoll
      obtain ⟨rfl, -⟩ := hser.eq_current hi (by simp [hpc])
      refine ⟨read, [d.message], ?_, h.loaded, ?_, ?_⟩
      · simp [State.goto, h.published]
      · simp [unloaded, unobserved, State.goto, hpoll,
          hbox.writers.segment _ _ hi (.inr hpc), hbox.writers.offset _ _ hi hpc]
      · intro m hm
        obtain rfl := List.mem_singleton.mp hm
        exact hser.stored d rfl (by simp [hpc])
  | receives =>
      refine receiverStep_delivery h ?_
      intro m hm
      refine hser.known ⟨m, .exited⟩ ?_
      rw [hser.senders]
      exact List.mem_append_left _ (List.mem_map_of_mem hm)

end Delivery

/-- The invariant of the runs in which senders take turns and no unloaded cell changes. -/
structure InOrder (segments : List Segment) (s : State) : Prop where
  serial : ∃ current, Serial segments s current
  mailbox : Mailbox s
  delivery : ∃ read unread, Delivery s read unread

theorem step_inOrder {segments : List Segment} {s s' : State} {a : Action}
    (h : InOrder segments s) (hturn : InTurn s a) (hkeep : KeepsUnloaded s a)
    (hs : step segments s a = some s') : InOrder segments s' := by
  obtain ⟨current, hser⟩ := h.serial
  obtain ⟨read, unread, hdel⟩ := h.delivery
  exact ⟨step_serial hser hturn hs, step_mailbox h.mailbox (hser.oneWriter a) hs,
    step_delivery hser h.mailbox hdel hkeep hs⟩

theorem reachable_inOrder {segments : List Segment} {s : State}
    (h : (machine segments).Reachable (fun s a => InTurn s a ∧ KeepsUnloaded s a) s) :
    InOrder segments s := by
  refine h.invariant ⟨⟨none, rfl, nofun, nofun, nofun⟩, ?_, [], [], rfl, rfl, rfl, nofun⟩
    fun _ hi hg hs => step_inOrder hi hg.1 hg.2 hs
  exact ⟨.of_idle nofun, fun hn => absurd rfl hn, rfl⟩

theorem InOrder.receives {segments : List Segment} {s : State} (h : InOrder segments s)
    (n : Nat) : InOrder segments ((receiverStep segments)^[n] s) := by
  induction n with
  | zero => exact h
  | succ n ih =>
      rw [Function.iterate_succ_apply']
      exact step_inOrder ih (a := .receiver) nofun nofun rfl

/-- A few steps of the receiver load the value that is left. -/
theorem receiver_loads (segments : List Segment) (s : State) :
    ∃ n, unloaded ((receiverStep segments)^[n] s) = [] := by
  cases hpc : s.receiver with
  | poll =>
      by_cases hr : s.control.ready = 0
      · exact ⟨0, by simp [unloaded, unobserved, hpc, hr]⟩
      · exact ⟨4, by simp [unloaded, unobserved, receiverStep, hpc, hr]⟩
  | readSegment => exact ⟨3, by simp [unloaded, unobserved, receiverStep, hpc]⟩
  | readOffset segId => exact ⟨2, by simp [unloaded, unobserved, receiverStep, hpc]⟩
  | load segId off => exact ⟨1, by simp [unloaded, unobserved, receiverStep, hpc]⟩
  | clearSegment | clearOffset | clearReady => exact ⟨0, by simp [unloaded, unobserved, hpc]⟩

theorem senders_receives (segments : List Segment) (s : State) (n : Nat) :
    ((receiverStep segments)^[n] s).senders = s.senders := by
  induction n with
  | zero => rfl
  | succ n ih => rw [Function.iterate_succ_apply', receiverStep_senders, ih]

/-- The values the senders were given, in the order in which they were started. -/
def State.given (s : State) : List Int64 :=
  s.senders.map fun d => d.message.value

/-- What is loaded, what is left and what the current sender brings are what was given. -/
theorem Delivery.given_eq {segments : List Segment} {s : State} {current : Option Sender}
    {read unread : List Message} (h : Delivery s read unread)
    (hser : Serial segments s current) :
    s.given = s.loaded ++ unread.map Message.value ++
      current.toList.map fun d => d.message.value := by
  rw [State.given, hser.senders, h.loaded, h.published]
  simp [Function.comp_def]

/-- **The receiver loads what the senders sent.** For senders that run one after the other,
in every interleaving with the receiver in which every store stays in its segment and none changes
the cell of a message that is still to be loaded: the values loaded so far are the first of those
the senders were given, in order; and once the senders have exited, the receiver on its own loads
the rest. -/
theorem values_delivered {segments : List Segment} {s : State}
    (h : (machine segments).Reachable
      (fun s a => InTurn s a ∧ NoWrap s a ∧ KeepsUnloaded s a) s) :
    s.loaded <+: s.given ∧
      ((∀ d ∈ s.senders, d.pc = .exited) →
        ∃ n, ((receiverStep segments)^[n] s).loaded = s.given) := by
  have hord := reachable_inOrder (h.mono fun _ _ hg => ⟨hg.1, hg.2.2⟩)
  constructor
  · obtain ⟨current, hser⟩ := hord.serial
    obtain ⟨read, unread, hdel⟩ := hord.delivery
    rw [hdel.given_eq hser, List.append_assoc]
    exact List.prefix_append _ _
  · intro hexit
    obtain ⟨n, hn⟩ := receiver_loads segments s
    have hord' := hord.receives n
    obtain ⟨current, hser⟩ := hord'.serial
    obtain ⟨read, unread, hdel⟩ := hord'.delivery
    have hunread : unread = [] := List.map_eq_nil_iff.mp (hdel.addresses.trans hn)
    have hcurrent : current = none := by
      cases current with
      | none => rfl
      | some d =>
          have hmem := hser.current_mem
          rw [senders_receives] at hmem
          exact absurd (hexit d hmem) (hser.running d rfl)
    have hgiven := hdel.given_eq hser
    subst hunread hcurrent
    refine ⟨n, ?_⟩
    rw [State.given, senders_receives] at hgiven
    rw [State.given, hgiven]
    simp

/-- Two messages through the same cell, the second stored after the first is loaded. -/
theorem values_delivered_same_cell :
    ∃ s, (machine twoSegments).Reachable
        (fun s a => InTurn s a ∧ NoWrap s a ∧ KeepsUnloaded s a) s ∧
      s.given = [5, 6] ∧ s.loaded = [5] ∧
      ∃ n, ((receiverStep twoSegments)^[n] s).loaded = [5, 6] := by
  obtain ⟨s, hs, hp⟩ := Machine.reachable_of_execWithin (M := machine twoSegments)
    (G := fun s a => InTurn s a ∧ NoWrap s a ∧ KeepsUnloaded s a)
    (l := [Action.start ⟨0, 0, 5⟩] ++ sends 0 ++ List.replicate 4 Action.receiver ++
      [Action.start ⟨0, 0, 6⟩, .sender 1] ++ List.replicate 3 Action.receiver ++
      List.replicate 4 (Action.sender 1))
    (p := fun s => s.given == [5, 6] && s.loaded == [5] &&
      s.senders.all fun d => d.pc == .exited) (by decide)
  obtain ⟨⟨hgiven, hloaded⟩, hexit⟩ : (s.given = [5, 6] ∧ s.loaded = [5]) ∧
      ∀ d ∈ s.senders, d.pc = .exited := by simpa using hp
  obtain ⟨-, hrest⟩ := values_delivered hs
  obtain ⟨n, hn⟩ := hrest hexit
  exact ⟨s, hs, hgiven, hloaded, n, hn.trans hgiven⟩

/-- The second sender, started after the first has exited, stores its value in the cell of
the first before the receiver has loaded it. -/
theorem value_overwritten :
    ∃ s, (machine twoSegments).Reachable InTurn s ∧ s.given = [5, 6] ∧ s.loaded = [6, 6] := by
  obtain ⟨s, hs, hp⟩ := Machine.reachable_of_execWithin (M := machine twoSegments) (G := InTurn)
    (l := [Action.start ⟨0, 0, 5⟩] ++ sends 0 ++ [Action.start ⟨0, 0, 6⟩, .sender 1] ++
      List.replicate 7 Action.receiver ++ List.replicate 4 (Action.sender 1) ++
      List.replicate 7 Action.receiver)
    (p := fun s => s.given == [5, 6] && s.loaded == [6, 6]) (by decide)
  exact ⟨s, hs, by simpa using hp⟩

end CppCode.ControlSlot
