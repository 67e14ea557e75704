import CppCode.Concurrency.Slots

/-!
# CppCode.Concurrency.AsyncChannel

**Bounded channels between any number of senders and receivers.** A send completes at once if
a receive waits, to which the message is handed over, or if there is room in the buffer;
otherwise the sender waits. A receive completes at once if a message is buffered or a sender
waits; what it takes makes room for the first waiting sender, whose send completes with it.

So one operation completes at most one send and at most one receive (`Outcome`). `Exchanged`
says what it does to the two queues and to the buffer: all three are first in, first out.
-/

namespace Concurrency

universe u v

/-- A channel of capacity `cap` between parties `ι`. While somebody waits to send, the buffer is
full; while somebody waits to receive, there is nothing to be had. -/
structure AsyncChannel (cap : Nat) (ι : Type u) (α : Type v) where
  buffer : List α
  senders : List (ι × α)
  receivers : List ι
  bounded : buffer.length ≤ cap
  full : senders ≠ [] → buffer.length = cap
  drained : receivers ≠ [] → buffer = [] ∧ senders = []

namespace AsyncChannel

variable {cap : Nat} {ι : Type u} {α : Type v}

def empty (cap : Nat) (ι : Type u) (α : Type v) : AsyncChannel cap ι α where
  buffer := []
  senders := []
  receivers := []
  bounded := Nat.zero_le _
  full := fun h => absurd rfl h
  drained := fun h => absurd rfl h

/-- The channel after an operation, the send that has completed with it, and the receive. -/
structure Outcome (cap : Nat) (ι : Type u) (α : Type v) where
  channel : AsyncChannel cap ι α
  sent : Option (ι × α)
  received : Option (ι × α)

/-- `async_send` of the message `a` by `i`. -/
def asyncSend (c : AsyncChannel cap ι α) (i : ι) (a : α) : Outcome cap ι α :=
  match hr : c.receivers with
  | r :: rest =>
      { channel :=
          { c with
            receivers := rest
            drained := fun _ => c.drained (by rw [hr]; exact List.cons_ne_nil r rest) }
        sent := some (i, a)
        received := some (r, a) }
  | [] =>
      if hroom : c.buffer.length < cap then
        { channel :=
            { c with
              buffer := c.buffer ++ [a]
              bounded := by rw [List.length_append, List.length_singleton]; omega
              full := fun hs => absurd (c.full hs) (by omega)
              drained := fun h => absurd hr h }
          sent := some (i, a)
          received := none }
      else
        { channel :=
            { c with
              senders := c.senders ++ [(i, a)]
              full := fun _ => Nat.le_antisymm c.bounded (Nat.not_lt.mp hroom)
              drained := fun h => absurd hr h }
          sent := none
          received := none }

/-- `async_receive` by `i`. -/
def asyncReceive (c : AsyncChannel cap ι α) (i : ι) : Outcome cap ι α :=
  match hb : c.buffer, hs : c.senders with
  | a :: rest, (j, b) :: more =>
      { channel :=
          { buffer := rest ++ [b]
            senders := more
            receivers := c.receivers
            bounded := by
              have h := c.bounded
              rw [hb, List.length_cons] at h
              rwa [List.length_append, List.length_singleton]
            full := fun _ => by
              have h := c.full (by rw [hs]; exact List.cons_ne_nil _ _)
              rw [hb, List.length_cons] at h
              rwa [List.length_append, List.length_singleton]
            drained := fun h => absurd ((c.drained h).1.symm.trans hb) (by simp) }
        sent := some (j, b)
        received := some (i, a) }
  | a :: rest, [] =>
      { channel :=
          { buffer := rest
            senders := []
            receivers := c.receivers
            bounded := by
              have h := c.bounded
              rw [hb, List.length_cons] at h
              omega
            full := fun h => absurd rfl h
            drained := fun h => absurd ((c.drained h).1.symm.trans hb) (by simp) }
        sent := none
        received := some (i, a) }
  -- without a buffer, the message goes from the sender to the receiver
  | [], (j, b) :: more =>
      { channel :=
          { buffer := []
            senders := more
            receivers := c.receivers
            bounded := Nat.zero_le _
            full := fun _ => by
              rw [← hb]
              exact c.full (by rw [hs]; exact List.cons_ne_nil _ _)
            drained := fun h => absurd ((c.drained h).2.symm.trans hs) (by simp) }
        sent := some (j, b)
        received := some (i, b) }
  | [], [] =>
      { channel :=
          { buffer := []
            senders := []
            receivers := c.receivers ++ [i]
            bounded := Nat.zero_le _
            full := fun h => absurd rfl h
            drained := fun _ => ⟨rfl, rfl⟩ }
        sent := none
        received := none }

/-- An operation on a channel with these waiting senders, waiting receivers and messages, the
one who starts it counted as waiting: whose send and receive complete, and with what. -/
structure Exchanged (senders : List (ι × α)) (receivers : List ι) (buffer : List α)
    (o : Outcome cap ι α) : Prop where
  senders : senders = o.sent.toList ++ o.channel.senders
  receivers : receivers = (o.received.map Prod.fst).toList ++ o.channel.receivers
  buffer : buffer ++ (o.sent.map Prod.snd).toList =
    (o.received.map Prod.snd).toList ++ o.channel.buffer

theorem asyncSend_exchanged (c : AsyncChannel cap ι α) (i : ι) (a : α) :
    Exchanged (c.senders ++ [(i, a)]) c.receivers c.buffer (c.asyncSend i a) := by
  unfold asyncSend
  split
  case h_1 r rest hr =>
    obtain ⟨hbuffer, hsenders⟩ := c.drained (by rw [hr]; exact List.cons_ne_nil r rest)
    exact ⟨by simp [hsenders], hr, by simp [hbuffer]⟩
  case h_2 =>
    split
    case isTrue hroom =>
      have hsenders : c.senders = [] := by
        by_contra hne
        have := c.full hne
        omega
      exact ⟨by simp [hsenders], rfl, rfl⟩
    case isFalse hroom => exact ⟨rfl, rfl, by simp⟩

theorem asyncReceive_exchanged (c : AsyncChannel cap ι α) (i : ι) :
    Exchanged c.senders (c.receivers ++ [i]) c.buffer (c.asyncReceive i) := by
  have hnone : c.buffer ≠ [] ∨ c.senders ≠ [] → c.receivers = [] := by
    intro h
    by_contra hne
    obtain ⟨hbuffer, hsenders⟩ := c.drained hne
    rcases h with h | h
    · exact h hbuffer
    · exact h hsenders
  unfold asyncReceive
  split
  case h_1 a rest j b more hb hs =>
    have hr := hnone (.inl (by rw [hb]; exact List.cons_ne_nil _ _))
    exact ⟨hs, by simp [hr], by simp [hb]⟩
  case h_2 a rest hb hs =>
    have hr := hnone (.inl (by rw [hb]; exact List.cons_ne_nil _ _))
    exact ⟨hs, by simp [hr], by simp [hb]⟩
  case h_3 j b more hb hs =>
    have hr := hnone (.inr (by rw [hs]; exact List.cons_ne_nil _ _))
    exact ⟨hs, by simp [hr], by simp [hb]⟩
  case h_4 hb hs => exact ⟨hs, rfl, by simp [hb]⟩

/-! ### Operations that do not wait -/

/-- `try_send`: it fails if the send would have to wait. -/
def trySend (c : AsyncChannel cap ι α) (i : ι) (a : α) : Option (Outcome cap ι α) :=
  if c.receivers = [] ∧ cap ≤ c.buffer.length then none else some (c.asyncSend i a)

/-- A `try_send` that succeeds is an `async_send` that completes at once. -/
theorem asyncSend_of_trySend {c : AsyncChannel cap ι α} {i : ι} {a : α} {o : Outcome cap ι α}
    (h : c.trySend i a = some o) : c.asyncSend i a = o ∧ o.sent.isSome = true := by
  unfold trySend at h
  split at h
  · cases h
  · obtain rfl := Option.some.inj h
    refine ⟨rfl, ?_⟩
    unfold asyncSend
    split
    · rfl
    · split
      · rfl
      · simp_all

/-- `try_receive`: it fails if the receive would have to wait. -/
def tryReceive (c : AsyncChannel cap ι α) (i : ι) : Option (Outcome cap ι α) :=
  if c.buffer = [] ∧ c.senders = [] then none else some (c.asyncReceive i)

/-- `cancel`: whoever waits, waits no longer; what is buffered stays. -/
def cancel (c : AsyncChannel cap ι α) : AsyncChannel cap ι α where
  buffer := c.buffer
  senders := []
  receivers := []
  bounded := c.bounded
  full := fun h => absurd rfl h
  drained := fun h => absurd rfl h

end AsyncChannel

end Concurrency
