import CppCode.ChannelTest.Model

/-!
# CppCode.ChannelTest.Progress

**A channel of capacity 1 as a lock.** A coroutine whose send has completed and whose receive
has not is a holder of the lock. There are as many holders as messages in the buffer, so a
holder that receives finds a message, its own or another's, and never waits; and if somebody
waits to send, the buffer is full and there is a holder who can go on. A coroutine takes three
steps, whatever it has to wait for in between (`step_left`), so every run comes to an end.
-/

namespace CppCode.ChannelTest

open Concurrency

/-- The send has completed. -/
def Phase.hasSent : Phase → Bool
  | .sleeping | .sending => false
  | .sent | .receiving | .received | .finished => true

/-- The receive has completed. -/
def Phase.hasReceived : Phase → Bool
  | .sleeping | .sending | .sent | .receiving => false
  | .received | .finished => true

/-- The send has completed and the receive has not. -/
def Phase.holds : Phase → Bool
  | .sent | .receiving => true
  | .sleeping | .sending | .received | .finished => false

/-! ### Who waits, and who has completed what -/

/-- The coroutines that wait to send and to receive, in the order of the queues, and the
numbers of completed sends and receives. -/
structure Waiting (phases : List Phase) (senders receivers : List Nat) (sends receives : Nat) :
    Prop where
  sending : Tracks .sending phases senders
  receiving : Tracks .receiving phases receivers
  sent : phases.countP Phase.hasSent = sends
  received : phases.countP Phase.hasReceived = receives

namespace Waiting

variable {phases : List Phase} {senders receivers : List Nat} {sends receives i : Nat}

theorem startSend (h : Waiting phases senders receivers sends receives)
    (hi : phases[i]? = some .sleeping) :
    Waiting (phases.set i .sending) (senders ++ [i]) receivers sends receives where
  sending := h.sending.concat hi nofun
  receiving := h.receiving.set_of_ne hi nofun nofun
  sent := (countP_set Phase.hasSent hi .sending).trans h.sent
  received := (countP_set Phase.hasReceived hi .sending).trans h.received

theorem startReceive (h : Waiting phases senders receivers sends receives)
    (hi : phases[i]? = some .sent) :
    Waiting (phases.set i .receiving) senders (receivers ++ [i]) sends receives where
  sending := h.sending.set_of_ne hi nofun nofun
  receiving := h.receiving.concat hi nofun
  sent := by
    have hcount := countP_set Phase.hasSent hi .receiving
    have hsent := h.sent
    simp only [tally, Phase.hasSent] at hcount
    omega
  received := (countP_set Phase.hasReceived hi .receiving).trans h.received

theorem completeSend (h : Waiting phases (i :: senders) receivers sends receives) :
    Waiting (phases.set i .sent) senders receivers (sends + 1) receives := by
  have hi := (h.sending.mem_iff i).mp List.mem_cons_self
  refine ⟨h.sending.tail nofun, h.receiving.set_of_ne hi nofun nofun, ?_, ?_⟩
  · rw [← h.sent]
    exact countP_set Phase.hasSent hi .sent
  · rw [← h.received]
    exact countP_set Phase.hasReceived hi .sent

theorem completeReceive (h : Waiting phases senders (i :: receivers) sends receives) :
    Waiting (phases.set i .received) senders receivers sends (receives + 1) := by
  have hi := (h.receiving.mem_iff i).mp List.mem_cons_self
  refine ⟨h.sending.set_of_ne hi nofun nofun, h.receiving.tail nofun, ?_, ?_⟩
  · have hcount := countP_set Phase.hasSent hi .received
    have hsent := h.sent
    simp only [tally, Phase.hasSent] at hcount
    omega
  · rw [← h.received]
    exact countP_set Phase.hasReceived hi .received

theorem finish (h : Waiting phases senders receivers sends receives)
    (hi : phases[i]? = some .received) :
    Waiting (phases.set i .finished) senders receivers sends receives := by
  refine ⟨h.sending.set_of_ne hi nofun nofun, h.receiving.set_of_ne hi nofun nofun, ?_, ?_⟩
  · have hcount := countP_set Phase.hasSent hi .finished
    have hsent := h.sent
    simp only [tally, Phase.hasSent] at hcount
    omega
  · have hcount := countP_set Phase.hasReceived hi .finished
    have hreceived := h.received
    simp only [tally, Phase.hasReceived] at hcount
    omega

/-- The operations that complete with `o` leave the queues of `o`. -/
theorem complete {o : AsyncChannel.Outcome 1 Nat Int32} {waiting : List (Nat × Int32)}
    {buffer : List Int32} (hex : AsyncChannel.Exchanged waiting receivers buffer o)
    (h : Waiting phases (waiting.map Prod.fst) receivers sends receives) :
    Waiting (ChannelTest.complete phases o) (o.channel.senders.map Prod.fst) o.channel.receivers
      (sends + o.sent.toList.length) (receives + o.received.toList.length) := by
  rw [hex.senders, hex.receivers] at h
  clear hex
  obtain ⟨channel, sent, received⟩ := o
  cases sent with
  | none =>
      cases received with
      | none => exact h
      | some received => exact h.completeReceive
  | some sent =>
      cases received with
      | none => exact h.completeSend
      | some received => exact h.completeSend.completeReceive

end Waiting

/-! ### The invariant -/

/-- The queues are those of the waiting coroutines, every completed send and receive is
recorded, and what was accepted and not delivered is in the buffer. -/
structure Inv (s : State) : Prop where
  waiting : Waiting s.phases (s.channel.senders.map Prod.fst) s.channel.receivers
    s.accepted.length s.delivered.length
  account : s.accepted = s.delivered ++ s.channel.buffer

theorem inv_start (n : Nat) : Inv (.start n) := by
  have hphase : ∀ (p : Phase) (j : Nat), p ≠ .sleeping → (State.start n).phases[j]? ≠ some p := by
    intro p j hp hj
    have hmem := List.mem_of_getElem? hj
    exact hp (List.eq_of_mem_replicate hmem)
  refine ⟨⟨⟨List.nodup_nil, fun j => ?_⟩, ⟨List.nodup_nil, fun j => ?_⟩, ?_, ?_⟩, rfl⟩
  · exact iff_of_false List.not_mem_nil (hphase _ j nofun)
  · exact iff_of_false List.not_mem_nil (hphase _ j nofun)
  · simp [State.start, Phase.hasSent]
  · simp [State.start, Phase.hasReceived]

/-- An operation by a coroutine that counts as waiting. -/
theorem Inv.operate {s : State} {phases : List Phase} {waiting : List (Nat × Int32)}
    {receivers : List Nat} {o : AsyncChannel.Outcome 1 Nat Int32}
    (hex : AsyncChannel.Exchanged waiting receivers s.channel.buffer o)
    (hw : Waiting phases (waiting.map Prod.fst) receivers s.accepted.length s.delivered.length)
    (h : s.accepted = s.delivered ++ s.channel.buffer) : Inv (s.operate phases o) := by
  constructor
  · have hcomplete := hw.complete hex
    simp only [State.operate, List.length_append, Option.length_toList] at hcomplete ⊢
    simpa using hcomplete
  · simp only [State.operate]
    rw [h, List.append_assoc, hex.buffer, List.append_assoc]

theorem step_inv {s s' : State} {a : Action} (h : Inv s) (hs : step s a = some s') : Inv s' := by
  cases a with
  | send i =>
      simp only [step] at hs
      split at hs
      · cases hs
        have hw := h.waiting.startSend ‹_›
        have hex := s.channel.asyncSend_exchanged i (1 : Int32)
        exact Inv.operate hex (by simpa using hw) h.account
      · cases hs
  | receive i =>
      simp only [step] at hs
      split at hs
      · cases hs
        have hw := h.waiting.startReceive ‹_›
        exact Inv.operate (s.channel.asyncReceive_exchanged i) hw h.account
      · cases hs
  | finish i =>
      simp only [step] at hs
      split at hs
      · cases hs
        exact ⟨h.waiting.finish ‹_›, h.account⟩
      · cases hs

theorem reachable_inv {n : Nat} {s : State} (h : (machine n).Reachable Machine.free s) : Inv s :=
  Machine.Reachable.invariant (I := Inv) h (inv_start n) fun _ hi _ hs => step_inv hi hs

/-! ### The steps that are left -/

def Phase.left : Phase → Nat
  | .sleeping => 3
  | .sending | .sent => 2
  | .receiving | .received => 1
  | .finished => 0

/-- The steps that the coroutines have not taken yet. -/
def State.left (s : State) : Nat := (s.phases.map Phase.left).sum

/-- An operation that completes is no step of its coroutine. -/
theorem Waiting.left_complete {phases : List Phase} {receivers : List Nat} {sends receives : Nat}
    {o : AsyncChannel.Outcome 1 Nat Int32} {waiting : List (Nat × Int32)} {buffer : List Int32}
    (hex : AsyncChannel.Exchanged waiting receivers buffer o)
    (h : Waiting phases (waiting.map Prod.fst) receivers sends receives) :
    (ChannelTest.complete phases o).map Phase.left = phases.map Phase.left := by
  rw [hex.senders, hex.receivers] at h
  clear hex
  have hsent : ∀ (j : Nat) senders receivers sends,
      Waiting phases (j :: senders) receivers sends receives →
        (phases.set j .sent).map Phase.left = phases.map Phase.left := by
    intro j senders receivers sends h
    exact map_set_of_eq ((h.sending.mem_iff j).mp List.mem_cons_self) rfl
  have hreceived : ∀ (phases : List Phase) (j : Nat) senders receivers sends,
      Waiting phases senders (j :: receivers) sends receives →
        (phases.set j .received).map Phase.left = phases.map Phase.left := by
    intro phases j senders receivers sends h
    exact map_set_of_eq ((h.receiving.mem_iff j).mp List.mem_cons_self) rfl
  obtain ⟨channel, sent, received⟩ := o
  cases sent with
  | none =>
      cases received with
      | none => rfl
      | some received => exact hreceived _ _ _ _ _ h
  | some sent =>
      cases received with
      | none => exact hsent _ _ _ _ h
      | some received => exact (hreceived _ _ _ _ _ h.completeSend).trans (hsent _ _ _ _ h)

/-- Every step is the next one of its coroutine. -/
theorem step_left {s s' : State} {a : Action} (h : Inv s) (hs : step s a = some s') :
    s'.left + 1 = s.left := by
  cases a with
  | send i =>
      simp only [step] at hs
      split at hs
      next hi =>
        cases hs
        have hset := sum_map_set Phase.left hi .sending
        have hcomplete := Waiting.left_complete (s.channel.asyncSend_exchanged i (1 : Int32))
          (by simpa using h.waiting.startSend hi)
        simp only [Phase.left] at hset
        show ((complete _ _).map Phase.left).sum + 1 = (s.phases.map Phase.left).sum
        rw [hcomplete]
        omega
      next => cases hs
  | receive i =>
      simp only [step] at hs
      split at hs
      next hi =>
        cases hs
        have hset := sum_map_set Phase.left hi .receiving
        have hcomplete := Waiting.left_complete (s.channel.asyncReceive_exchanged i)
          (h.waiting.startReceive hi)
        simp only [Phase.left] at hset
        show ((complete _ _).map Phase.left).sum + 1 = (s.phases.map Phase.left).sum
        rw [hcomplete]
        omega
      next => cases hs
  | finish i =>
      simp only [step] at hs
      split at hs
      next hi =>
        cases hs
        have hset := sum_map_set Phase.left hi .finished
        simp only [Phase.left] at hset
        show ((s.phases.set i .finished).map Phase.left).sum + 1 = (s.phases.map Phase.left).sum
        omega
      next => cases hs

theorem left_le {n : Nat} {s : State} (h : (machine n).Reachable Machine.free s) :
    s.left ≤ 3 * n := by
  have hrun : Inv s ∧ s.left ≤ 3 * n := by
    refine h.invariant (I := fun s => Inv s ∧ s.left ≤ 3 * n) ⟨inv_start n, ?_⟩ ?_
    · simp [machine, State.left, State.start, Phase.left, Nat.mul_comm]
    · intro s a s' _ hi _ hs
      have hleft := step_left hi.1 hs
      exact ⟨step_inv hi.1 hs, by omega⟩
  exact hrun.2

theorem exec_left {n : Nat} {s t : State} {l : List Action} (h : Inv s)
    (ht : (machine n).exec s l = some t) : Inv t ∧ t.left + l.length = s.left := by
  induction l generalizing s with
  | nil =>
      obtain rfl := Option.some.inj ht
      exact ⟨h, rfl⟩
  | cons a l ih =>
      obtain ⟨s', hs, hrest⟩ := Machine.exec_cons_some ht
      obtain ⟨hinv, hleft⟩ := ih (step_inv h hs) hrest
      have hstep := step_left h hs
      refine ⟨hinv, ?_⟩
      rw [List.length_cons]
      omega

/-! ### Holders -/

theorem countP_hasSent (phases : List Phase) :
    phases.countP Phase.hasSent =
      phases.countP Phase.hasReceived + phases.countP Phase.holds := by
  induction phases with
  | nil => rfl
  | cons p phases ih =>
      rw [List.countP_cons, List.countP_cons, List.countP_cons, ih]
      cases p <;> simp only [Phase.hasSent, Phase.hasReceived, Phase.holds] <;> simp <;> omega

/-- There are as many holders as messages in the buffer. -/
theorem Inv.holders {s : State} (h : Inv s) :
    s.phases.countP Phase.holds = s.channel.buffer.length := by
  have hcount := countP_hasSent s.phases
  have haccount := congrArg List.length h.account
  rw [h.waiting.sent, h.waiting.received] at hcount
  rw [List.length_append] at haccount
  omega

/-- No holder waits to receive. -/
theorem Inv.not_receiving {s : State} (h : Inv s) (i : Nat) :
    s.phases[i]? ≠ some .receiving := by
  intro hi
  have hmem := (h.waiting.receiving.mem_iff i).mpr hi
  obtain ⟨hbuffer, -⟩ := s.channel.drained (List.ne_nil_of_mem hmem)
  have hholders := h.holders
  rw [hbuffer, List.length_nil, List.countP_eq_zero] at hholders
  exact hholders .receiving (List.mem_of_getElem? hi) rfl

/-- If somebody waits to send, somebody else has sent and can go on to receive. -/
theorem Inv.exists_sent {s : State} (h : Inv s) {i : Nat} (hi : s.phases[i]? = some .sending) :
    ∃ j : Nat, s.phases[j]? = some .sent := by
  have hmem := (h.waiting.sending.mem_iff i).mpr hi
  have hfull : s.channel.buffer.length = 1 := by
    apply s.channel.full
    rintro hnil
    rw [hnil] at hmem
    cases hmem
  have hholders := h.holders
  have hpos : 0 < s.phases.countP Phase.holds := by omega
  obtain ⟨p, hp, hholds⟩ := List.countP_pos_iff.mp hpos
  obtain ⟨j, hj⟩ := List.mem_iff_getElem?.mp hp
  refine ⟨j, ?_⟩
  cases p with
  | sent => exact hj
  | receiving => exact absurd hj (h.not_receiving j)
  | sleeping | sending | received | finished => cases hholds

/-- While some coroutine has not finished, one of them has a step to take. -/
theorem Inv.exists_step {s : State} (hinv : Inv s)
    (h : ∃ (i : Nat) (p : Phase), s.phases[i]? = some p ∧ p ≠ .finished) :
    ∃ a s', s.phases[a.index]? ≠ some .finished ∧ step s a = some s' := by
  obtain ⟨i, p, hi, hp⟩ := h
  have hgoesOn : ∀ j : Nat, s.phases[j]? = some .sent →
      ∃ a s', s.phases[a.index]? ≠ some .finished ∧ step s a = some s' := by
    intro j hj
    exact ⟨.receive j, by simp [Action.index, step, hj]⟩
  cases p with
  | sleeping => exact ⟨.send i, by simp [Action.index, step, hi]⟩
  | received => exact ⟨.finish i, by simp [Action.index, step, hi]⟩
  | sent => exact hgoesOn i hi
  | sending =>
      obtain ⟨j, hj⟩ := hinv.exists_sent hi
      exact hgoesOn j hj
  | receiving => exact absurd hi (hinv.not_receiving i)
  | finished => exact absurd rfl hp

/-- **The lock never wedges.** While some coroutine has not finished, one of them has a step to
take; no run has more than three steps for each coroutine, so where one cannot go on all have
finished; when all have finished, the channel is empty; and the completed receives have taken, in
order, the messages of completed sends, the rest of which is in the buffer. -/
theorem channel_lock_progress (n : Nat) (s : State) (h : (machine n).Reachable Machine.free s) :
    ((∃ (i : Nat) (p : Phase), s.phases[i]? = some p ∧ p ≠ .finished) →
        ∃ a s', s.phases[a.index]? ≠ some .finished ∧ (machine n).step s a = some s') ∧
      (∀ l t, (machine n).exec s l = some t → l.length ≤ 3 * n ∧
        ((∃ a t', (machine n).step t a = some t') ∨ ∀ p ∈ t.phases, p = .finished)) ∧
      ((∀ p ∈ s.phases, p = .finished) →
        s.channel.buffer = [] ∧ s.channel.senders = [] ∧ s.channel.receivers = []) ∧
      s.accepted = s.delivered ++ s.channel.buffer ∧
      s.phases.countP Phase.hasSent = s.accepted.length ∧
      s.phases.countP Phase.hasReceived = s.delivered.length := by
  have hinv := reachable_inv h
  refine ⟨hinv.exists_step, ?_, ?_, hinv.account, hinv.waiting.sent, hinv.waiting.received⟩
  · intro l t ht
    obtain ⟨hinv', hleft⟩ := exec_left hinv ht
    have hbound := left_le h
    refine ⟨by omega, ?_⟩
    by_cases hall : ∀ p ∈ t.phases, p = .finished
    · exact .inr hall
    · obtain ⟨p, hp⟩ := not_forall.mp hall
      obtain ⟨hmem, hne⟩ := Classical.not_imp.mp hp
      obtain ⟨i, hi⟩ := List.mem_iff_getElem?.mp hmem
      obtain ⟨a, t', -, hs⟩ := hinv'.exists_step ⟨i, p, hi, hne⟩
      exact .inl ⟨a, t', hs⟩
  · intro hall
    have hnone : ∀ (p : Phase) (j : Nat), p ≠ .finished → s.phases[j]? ≠ some p :=
      fun p j hp hj => hp (hall p (List.mem_of_getElem? hj))
    refine ⟨?_, ?_, ?_⟩
    · have hholders := hinv.holders
      have hzero : s.phases.countP Phase.holds = 0 := by
        rw [List.countP_eq_zero]
        intro p hp
        rw [hall p hp]
        nofun
      exact List.eq_nil_of_length_eq_zero (hholders.symm.trans hzero)
    · by_contra hne
      obtain ⟨⟨j, a⟩, hj⟩ := List.exists_mem_of_ne_nil _ hne
      exact hnone .sending j nofun
        ((hinv.waiting.sending.mem_iff j).mp (List.mem_map_of_mem (f := Prod.fst) hj))
    · by_contra hne
      obtain ⟨j, hj⟩ := List.exists_mem_of_ne_nil _ hne
      exact hnone .receiving j nofun ((hinv.waiting.receiving.mem_iff j).mp hj)

/-- The second of two coroutines has to wait for the first, whose receive hands the buffer
over to it. -/
theorem channel_lock_progress_waiting :
    ∃ s, (machine 2).Reachable Machine.free s ∧ s.phases = [.sent, .sending] ∧
      ∃ a s', s.phases[a.index]? ≠ some .finished ∧ (machine 2).step s a = some s' := by
  obtain ⟨s, hs, hp⟩ := Machine.reachable_of_execWithin (M := machine 2) (G := Machine.free)
    (l := [Action.send 0, .send 1])
    (p := fun s => decide (s.phases = [.sent, .sending])) (by decide)
  rw [decide_eq_true_eq] at hp
  exact ⟨s, hs, hp, (channel_lock_progress 2 s hs).1 ⟨0, .sent, by rw [hp]; rfl, nofun⟩⟩

end CppCode.ChannelTest
