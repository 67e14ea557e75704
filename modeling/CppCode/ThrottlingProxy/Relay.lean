import Mathlib.Algebra.GroupWithZero.Nat
import CppCode.ThrottlingProxy.Model

/-!
# CppCode.ThrottlingProxy.Relay

What a direction of the proxy keeps: the coroutines and the channel agree about who waits, every
byte that has been read is accounted for by a token, and what has been written is what has been
read, short of the chunk that is being written (`Direction.Sound`).
-/

namespace CppCode.ThrottlingProxy

open Concurrency

/-- The bytes that `transfer` may still read before it needs another token. -/
def Transfer.credit : Transfer → Nat
  | .spawned | .receiving => 0
  | .received available | .reading available none => available
  | .reading available (some chunk) => available - chunk.length
  | .writing available n _ _ => available - n

/-- What has been read and not been written. -/
def Transfer.unsent : Transfer → List UInt8
  | .reading _ (some chunk) => chunk
  | .writing _ _ rest none => rest
  | .writing _ _ rest (some k) => rest.drop k
  | _ => []

/-- What `transfer` reads fits into the buffer and into its token. -/
def Transfer.Fits : Transfer → Prop
  | .spawned | .receiving => True
  | .received available | .reading available none => available ≤ bytesPerToken
  | .reading available (some chunk) =>
      available ≤ bytesPerToken ∧ chunk.length ≤ min bufferSize available
  | .writing available n rest _ =>
      available ≤ bytesPerToken ∧ n ≤ min bufferSize available ∧ rest.length ≤ n

/-- The tokens in the channel, or about to be. -/
def Direction.queued (d : Direction) : Nat :=
  d.tokens.buffer.sum + (d.tokens.senders.map Prod.snd).sum

/-- The coroutines and their channel agree. -/
structure Direction.Agrees (d : Direction) : Prop where
  senders : d.tokens.senders =
    if d.produceTokens = .sending then [(.producer, bytesPerToken)] else []
  receivers : d.tokens.receivers = if d.transfer = .receiving then [.consumer] else []
  tokens : ∀ n ∈ d.tokens.buffer, n = bytesPerToken

structure Direction.Sound (d : Direction) : Prop extends d.Agrees where
  account : d.taken.length + d.transfer.credit + d.queued = bytesPerToken * d.produced
  fits : d.transfer.Fits
  relay : d.taken = d.relayed ++ d.transfer.unsent

variable {d : Direction}

/-- Whoever has completed a send is the producer, which waited. -/
theorem sent_spec {senders rest : List (Party × Nat)} {sent : Option (Party × Nat)}
    (hs : senders = sent.toList ++ rest)
    (hsenders : senders =
      if d.produceTokens = .sending then [(.producer, bytesPerToken)] else []) :
    (rest = if (if sent.isSome then ProduceTokens.sent else d.produceTokens) = .sending then
      [(.producer, bytesPerToken)] else []) ∧
      (∀ n ∈ (sent.map Prod.snd).toList, n = bytesPerToken) := by
  cases sent with
  | none => exact ⟨hs.symm.trans hsenders, by simp⟩
  | some x =>
      rw [hsenders] at hs
      split at hs
      · obtain ⟨rfl, rfl⟩ := List.cons.inj hs
        simp
      · cases hs

/-- Whoever has completed a receive is the consumer, which waited. -/
theorem received_spec {receivers rest : List Party} {received : Option (Party × Nat)}
    (hr : receivers = (received.map Prod.fst).toList ++ rest)
    (hreceivers : receivers = if d.transfer = .receiving then [.consumer] else []) :
    received = none ∧ rest = receivers ∨
      ∃ i n, received = some (i, n) ∧ d.transfer = .receiving ∧ rest = [] := by
  cases received with
  | none => exact .inl ⟨rfl, hr.symm⟩
  | some x =>
      rw [hreceivers] at hr
      split at hr
      · exact .inr ⟨x.1, x.2, rfl, ‹_›, (List.cons.inj hr).2.symm⟩
      · cases hr

/-- An operation of the channel keeps the tokens, whoever has them. -/
theorem complete_spec {senders : List (Party × Nat)} {receivers : List Party} {buffer : List Nat}
    {o : AsyncChannel.Outcome numberOfTokens Party Nat}
    (ho : AsyncChannel.Exchanged senders receivers buffer o)
    (hsenders : senders = if d.produceTokens = .sending then [(.producer, bytesPerToken)] else [])
    (hreceivers : receivers = if d.transfer = .receiving then [.consumer] else [])
    (hbuffer : ∀ n ∈ buffer, n = bytesPerToken) (hfits : d.transfer.Fits) :
    (d.complete o).Agrees ∧ (d.complete o).transfer.Fits ∧
      (d.complete o).transfer.unsent = d.transfer.unsent ∧
      (d.complete o).transfer.credit + (d.complete o).queued =
        d.transfer.credit + (buffer.sum + (senders.map Prod.snd).sum) := by
  obtain ⟨hs, hr, hb⟩ := ho
  obtain ⟨hrest, hsent⟩ := sent_spec hs hsenders
  have htokens : ∀ n ∈ (o.received.map Prod.snd).toList ++ o.channel.buffer,
      n = bytesPerToken := by
    rw [← hb]
    intro n hn
    rcases List.mem_append.mp hn with hn | hn
    · exact hbuffer n hn
    · exact hsent n hn
  have hsum : buffer.sum + (senders.map Prod.snd).sum =
      (o.received.map Prod.snd).toList.sum + (d.complete o).queued := by
    have hsums := congrArg List.sum hb
    rw [List.sum_append, List.sum_append] at hsums
    have hsenderSums : (senders.map Prod.snd).sum =
        (o.sent.map Prod.snd).toList.sum + (o.channel.senders.map Prod.snd).sum := by
      rw [hs, List.map_append, List.sum_append]
      cases o.sent <;> rfl
    change _ = _ + (o.channel.buffer.sum + (o.channel.senders.map Prod.snd).sum)
    omega
  have hmem : ∀ n ∈ o.channel.buffer, n = bytesPerToken :=
    fun n hn => htokens n (List.mem_append_right _ hn)
  rcases received_spec hr hreceivers with ⟨hnone, hrest'⟩ | ⟨i, n, hsome, hwait, hrest'⟩
  · have htransfer : (d.complete o).transfer = d.transfer := by
      simp only [Direction.complete, hnone]
    rw [htransfer, hsum, hnone]
    refine ⟨⟨hrest, ?_, hmem⟩, hfits, rfl, by simp⟩
    rw [htransfer]
    exact hrest'.trans hreceivers
  · have htransfer : (d.complete o).transfer = .received n := by
      simp only [Direction.complete, hsome]
    have hn : n = bytesPerToken := htokens n (by simp [hsome])
    rw [htransfer, hsum, hsome, hwait]
    refine ⟨⟨hrest, ?_, hmem⟩, Nat.le_of_eq hn, rfl, by simp [Transfer.credit]⟩
    rw [htransfer]
    exact hrest'

/-! ### Steps -/

theorem Direction.Sound.send (h : d.Sound) (hp : d.produceTokens ≠ .sending) : d.send.Sound := by
  have hsenders : d.tokens.senders = [] := by rw [h.senders, if_neg hp]
  have ho := d.tokens.asyncSend_exchanged .producer bytesPerToken
  rw [hsenders, List.nil_append] at ho
  obtain ⟨hagrees, hfits, hunsent, hcredit⟩ := complete_spec
    (d := { d with produceTokens := .sending, produced := d.produced + 1 }) ho rfl
    h.receivers h.tokens h.fits
  refine ⟨hagrees, ?_, hfits, ?_⟩
  · have haccount := h.account
    rw [Direction.queued, hsenders] at haccount
    change d.taken.length + d.send.transfer.credit + d.send.queued =
      bytesPerToken * (d.produced + 1)
    have hcredit : d.send.transfer.credit + d.send.queued =
        d.transfer.credit + (d.tokens.buffer.sum + bytesPerToken) := hcredit
    rw [Nat.mul_succ]
    simp only [List.map_nil, List.sum_nil] at haccount
    omega
  · change d.taken = d.relayed ++ d.send.transfer.unsent
    rw [show d.send.transfer.unsent = _ from hunsent]
    exact h.relay

theorem sound_loop (available : Nat) (h : d.Agrees) (hne : d.transfer ≠ .receiving)
    (haccount : d.taken.length + available + d.queued = bytesPerToken * d.produced)
    (hle : available ≤ bytesPerToken) (hrelay : d.taken = d.relayed) :
    (d.loop available).Sound := by
  have hnobody : d.tokens.receivers = [] := by rw [h.receivers, if_neg hne]
  unfold Direction.loop
  split
  · refine ⟨⟨h.senders, ?_, h.tokens⟩, haccount, hle, ?_⟩
    · rw [if_neg (by intro h; cases h)]
      exact hnobody
    · rw [hrelay]
      exact (List.append_nil _).symm
  case isFalse hzero =>
    obtain rfl : available = 0 := Nat.eq_zero_of_not_pos hzero
    have ho := d.tokens.asyncReceive_exchanged .consumer
    rw [hnobody, List.nil_append] at ho
    obtain ⟨hagrees, hfits, hunsent, hcredit⟩ := complete_spec
      (d := { d with transfer := .receiving }) ho h.senders rfl h.tokens trivial
    refine ⟨hagrees, ?_, hfits, ?_⟩
    · change d.taken.length + d.receive.transfer.credit + d.receive.queued = _ * d.produced
      have hcredit : d.receive.transfer.credit + d.receive.queued = 0 + d.queued := hcredit
      omega
    · change d.taken = d.relayed ++ d.receive.transfer.unsent
      rw [show d.receive.transfer.unsent = [] from hunsent, List.append_nil]
      exact hrelay

theorem sound_start (incoming : List UInt8) : (Direction.start incoming).Sound :=
  ⟨⟨rfl, rfl, by simp [Direction.start, AsyncChannel.empty]⟩, rfl, trivial, rfl⟩

theorem Direction.Sound.moved {now : Nat} {d' : Direction} (h : d.Sound)
    (hd : d.Moved now d') : d'.Sound := by
  have haccount := h.account
  have hfits := h.fits
  have hrelay := h.relay
  cases hd with
  | send hp => exact h.send (by rcases hp with hp | ⟨_, hp, -⟩ <;> simp [hp])
  | sleep hp =>
      refine ⟨⟨?_, h.receivers, h.tokens⟩, haccount, hfits, hrelay⟩
      simpa [hp] using h.senders
  | start ht =>
      rw [ht] at haccount hrelay
      exact sound_loop 0 h.toAgrees (by simp [ht]) haccount (Nat.zero_le _)
        (hrelay.trans (List.append_nil _))
  | use ht =>
      rw [ht] at haccount hfits hrelay
      exact sound_loop _ h.toAgrees (by simp [ht]) haccount hfits
        (hrelay.trans (List.append_nil _))
  | beginWrite ht =>
      rw [ht] at haccount hfits hrelay
      refine ⟨⟨h.senders, ?_, h.tokens⟩, haccount, ⟨hfits.1, hfits.2, Nat.le_refl _⟩, hrelay⟩
      simpa [ht] using h.receivers
  | moreWrite ht =>
      rw [ht] at haccount hfits hrelay
      refine ⟨⟨h.senders, ?_, h.tokens⟩, haccount, ⟨hfits.1, hfits.2.1, ?_⟩, hrelay⟩
      · simpa [ht] using h.receivers
      · rw [List.length_drop]
        exact Nat.le_trans (Nat.sub_le _ _) hfits.2.2
  | written ht hdrop =>
      rw [ht] at haccount hfits hrelay
      rw [Transfer.unsent, hdrop, List.append_nil] at hrelay
      exact sound_loop _ h.toAgrees (by simp [ht]) haccount
        (Nat.le_trans (Nat.sub_le _ _) hfits.1) hrelay
  | @read available n ht hpos hle hin =>
      rw [ht] at haccount hfits hrelay
      have hlength : (d.incoming.take n).length = n := by
        rw [List.length_take]
        omega
      refine ⟨⟨h.senders, ?_, h.tokens⟩, ?_, ⟨hfits, ?_⟩, ?_⟩
      · simpa [ht] using h.receivers
      · change (d.taken ++ d.incoming.take n).length + (available - (d.incoming.take n).length) +
          d.queued = bytesPerToken * d.produced
        simp only [Transfer.credit] at haccount
        rw [List.length_append, hlength]
        omega
      · rwa [hlength]
      · change d.taken ++ d.incoming.take n = d.relayed ++ d.incoming.take n
        rw [hrelay]
        simp [Transfer.unsent]
  | @write available n rest k ht =>
      rw [ht] at haccount hfits hrelay
      refine ⟨⟨h.senders, ?_, h.tokens⟩, haccount, hfits, ?_⟩
      · simpa [ht] using h.receivers
      · change d.taken = (d.relayed ++ rest.take k) ++ rest.drop k
        rw [List.append_assoc, List.take_append_drop]
        exact hrelay

theorem stream_moved {now : Nat} {d' : Direction} (hd : d.Moved now d') :
    d'.taken ++ d'.incoming = d.taken ++ d.incoming := by
  have hloop : ∀ available,
      (d.loop available).taken ++ (d.loop available).incoming = d.taken ++ d.incoming := by
    intro available
    unfold Direction.loop
    split <;> rfl
  cases hd with
  | send | sleep | beginWrite | moreWrite | write => rfl
  | start | use | written => exact hloop _
  | read => simp

/-! ### Runs -/

variable {input : Side → List UInt8} {s s' : State} {a : Action}

/-- A step of the proxy is one of its clock, of one direction, or a failure. -/
theorem step_cases (h : step s a = some s') :
    (∃ n, s' = { s with now := s.now + n }) ∨
      (∃ side d, (s.directions side).Moved s.now d ∧
        s' = { s with directions := Function.update s.directions side d }) ∨
      s' = { s with running := false } := by
  cases a with
  | tick n => exact .inl ⟨n, (Option.some.inj h).symm⟩
  | event side e =>
      simp only [step, Option.ite_none_right_eq_some, Option.map_eq_some_iff] at h
      obtain ⟨-, d, hd, rfl⟩ := h
      exact .inr (.inl ⟨side, d, Direction.moved_of_step hd, rfl⟩)
  | fail side =>
      simp only [step, Option.ite_none_right_eq_some, Option.some.injEq] at h
      exact .inr (.inr h.2.symm)

/-- What every step of a direction keeps, whatever the time, the directions of a proxy keep. -/
theorem direction_invariant {I : Side → Direction → Prop}
    (hinit : ∀ side, I side (.start (input side)))
    (hstep : ∀ {side now d d'}, I side d → d.Moved now d' → I side d')
    (h : (machine input).Reachable Machine.free s) (side : Side) : I side (s.directions side) := by
  refine h.invariant (I := fun s => ∀ side, I side (s.directions side)) hinit ?_ side
  intro s a s' _ hs _ h side
  rcases step_cases h with ⟨n, rfl⟩ | ⟨other, d, hd, rfl⟩ | rfl
  · exact hs side
  · by_cases hside : side = other
    · subst hside
      simpa using hstep (hs side) hd
    · simpa [Function.update_of_ne hside] using hs side
  · exact hs side

theorem sound_of_reachable (h : (machine input).Reachable Machine.free s) (side : Side) :
    (s.directions side).Sound :=
  direction_invariant (I := fun _ => Direction.Sound) (fun side => sound_start (input side))
    (fun hd hs => hd.moved hs) h side

theorem unsent_length_le {t : Transfer} (h : t.Fits) : t.unsent.length ≤ bufferSize := by
  match t, h with
  | .reading _ (some chunk), h => exact Nat.le_trans h.2 (Nat.min_le_left _ _)
  | .writing _ n rest none, h =>
      exact Nat.le_trans h.2.2 (Nat.le_trans h.2.1 (Nat.min_le_left _ _))
  | .writing _ n rest (some k), h =>
      refine Nat.le_trans ?_ (Nat.le_trans h.2.2 (Nat.le_trans h.2.1 (Nat.min_le_left _ _)))
      rw [Transfer.unsent, List.length_drop]
      exact Nat.sub_le _ _
  | .spawned, _ | .receiving, _ | .received _, _ | .reading _ none, _ => exact Nat.zero_le _

/-- The proxy changes nothing: what it has written to one side is what the other side has sent,
from its beginning, in order and without a gap. What it has read beyond that is in its buffer. -/
theorem relayed_in_order (input : Side → List UInt8) (s : State) (side : Side)
    (h : (machine input).Reachable Machine.free s) :
    ∃ buffered, buffered.length ≤ bufferSize ∧
      (s.directions side).relayed ++ (buffered ++ (s.directions side).incoming) =
        input side := by
  have hsound := sound_of_reachable h side
  have hstream : (s.directions side).taken ++ (s.directions side).incoming = input side :=
    direction_invariant (I := fun side d => d.taken ++ d.incoming = input side) (fun _ => rfl)
      (fun hd hs => (stream_moved hs).trans hd) h side
  refine ⟨_, unsent_length_le hsound.fits, ?_⟩
  rw [← List.append_assoc, ← hsound.relay]
  exact hstream

/-- One byte of three has been relayed, one is in the buffer. -/
theorem relayed_in_order_partial :
    ∃ s : State, (s.directions .client).relayed = [1] ∧
      ∃ buffered, buffered.length ≤ bufferSize ∧
        (s.directions .client).relayed ++ (buffered ++ (s.directions .client).incoming) =
          [1, 2, 3] := by
  obtain ⟨s, hs, hp⟩ := Machine.reachable_of_exec (M := machine fun _ => [1, 2, 3])
    (l := [.event .client .produce, .event .client .transfer, .event .client .transfer,
      .event .client (.read 2), .event .client .transfer, .event .client (.write 1)])
    (p := fun s => decide ((s.directions .client).relayed = [1])) (by decide)
  exact ⟨s, by simpa using hp, relayed_in_order _ s .client hs⟩

end CppCode.ThrottlingProxy
