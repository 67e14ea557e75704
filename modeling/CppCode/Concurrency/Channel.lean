import Mathlib.Data.List.Basic

/-!
# CppCode.Concurrency.Channel

**Bounded channels with one receiver.** A sender never blocks: `trySend` either
hands its message to a waiting receive, or puts it into the buffer, or fails. A
receive that finds a buffered message, or is handed one, *has* that message from
then on, but its continuation runs at some later time; in between the message is
*in flight* (`Receiver.got`). Giving up a receive (`cancelReceive`) discards what
was in flight.

`Channel.contents` is what the channel still owes its receiver. The operations are
described by what they do to it: a send appends, starting a receive keeps it,
finishing one takes its head.
-/

namespace Concurrency

universe u

/-- The receive operation of a channel: none, one that waits, or one that has its
message and whose continuation has not run yet. -/
inductive Receiver (α : Type u)
  | idle
  | waiting
  | got (a : α)
  deriving Repr, DecidableEq

/-- The message a receive already has. -/
def Receiver.inFlight {α : Type u} : Receiver α → List α
  | .got a => [a]
  | _ => []

/-- A channel of capacity `cap`. While a receive waits there is nothing buffered. -/
structure Channel (cap : Nat) (α : Type u) where
  isOpen : Bool
  buffer : List α
  receiver : Receiver α
  bounded : buffer.length ≤ cap
  drained : receiver = .waiting → buffer = []

namespace Channel

variable {cap : Nat} {α : Type u}

/-- A new channel: open, empty, nobody receives. -/
def empty (cap : Nat) (α : Type u) : Channel cap α where
  isOpen := true
  buffer := []
  receiver := .idle
  bounded := Nat.zero_le _
  drained := fun _ => rfl

/-- The messages sent and not yet received: the one in flight, then the buffer. -/
def contents (c : Channel cap α) : List α := c.receiver.inFlight ++ c.buffer

/-- `try_send`: `none` is the answer false, and leaves the channel as it is. -/
def trySend (c : Channel cap α) (a : α) : Option (Channel cap α) :=
  if c.isOpen = true then
    match c.receiver with
    | .waiting =>
        some ⟨c.isOpen, [], .got a, Nat.zero_le _, fun _ => rfl⟩
    | .idle =>
        if h : c.buffer.length < cap then
          some ⟨c.isOpen, c.buffer ++ [a], .idle, by rw [List.length_append]; exact h, nofun⟩
        else none
    | .got b =>
        if h : c.buffer.length < cap then
          some ⟨c.isOpen, c.buffer ++ [a], .got b, by rw [List.length_append]; exact h, nofun⟩
        else none
  else none

theorem bounded_tail (c : Channel cap α) {a : α} {rest : List α} (h : c.buffer = a :: rest) :
    rest.length ≤ cap := by
  have hb := c.bounded
  rw [h] at hb
  exact Nat.le_of_succ_le hb

/-- Start a receive on an open channel: it gets the oldest buffered message at
once, or waits for one. -/
def startReceive (c : Channel cap α) : Option (Channel cap α) :=
  if c.isOpen = true then
    match c.receiver, h : c.buffer with
    | .idle, a :: rest =>
        some ⟨c.isOpen, rest, .got a, c.bounded_tail h, nofun⟩
    | .idle, [] => some ⟨c.isOpen, [], .waiting, Nat.zero_le _, fun _ => rfl⟩
    | _, _ => none
  else none

/-- The continuation of a completed receive runs with its message. -/
def take (c : Channel cap α) : Option (α × Channel cap α) :=
  match c.receiver with
  | .got a => some (a, ⟨c.isOpen, c.buffer, .idle, c.bounded, nofun⟩)
  | _ => none

/-- Give up the receive; a message in flight is discarded with it. -/
def cancelReceive (c : Channel cap α) : Channel cap α :=
  ⟨c.isOpen, c.buffer, .idle, c.bounded, nofun⟩

/-- `close`: no further send succeeds. -/
def close (c : Channel cap α) : Channel cap α :=
  ⟨false, c.buffer, c.receiver, c.bounded, c.drained⟩

/-! ### What the operations do -/

variable {c c' : Channel cap α} {a : α}

theorem contents_of_waiting (h : c.receiver = .waiting) : c.contents = [] := by
  simp [contents, h, Receiver.inFlight, c.drained h]

/-- A successful send delivers to a waiting receive or appends to the buffer. -/
theorem trySend_cases (h : c.trySend a = some c') :
    c.isOpen = true ∧ c'.isOpen = true ∧
      ((c.receiver = .waiting ∧ c'.receiver = .got a ∧ c'.buffer = []) ∨
        (c.receiver ≠ .waiting ∧ c.buffer.length < cap ∧ c'.receiver = c.receiver ∧
          c'.buffer = c.buffer ++ [a])) := by
  unfold trySend at h
  by_cases ho : c.isOpen = true
  · simp only [ho, if_true] at h
    refine ⟨ho, ?_⟩
    cases hr : c.receiver with
    | waiting =>
        simp only [hr, Option.some.injEq] at h
        subst h
        exact ⟨rfl, .inl ⟨rfl, rfl, rfl⟩⟩
    | idle | got b =>
        simp only [hr, Option.dite_none_right_eq_some, Option.some.injEq] at h
        obtain ⟨hlt, rfl⟩ := h
        exact ⟨rfl, .inr ⟨nofun, hlt, rfl, rfl⟩⟩
  · simp [ho] at h

/-- A send fails exactly on a closed channel, or on a full buffer nobody waits at. -/
theorem trySend_eq_none :
    c.trySend a = none ↔ c.isOpen = false ∨ (c.receiver ≠ .waiting ∧ c.buffer.length = cap) := by
  have hb := c.bounded
  unfold trySend
  cases ho : c.isOpen with
  | false => simp
  | true =>
      cases hr : c.receiver with
      | waiting => simp
      | idle | got b =>
          simp only [if_true, dite_eq_right_iff, reduceCtorEq, imp_false, Nat.not_lt, false_or,
            ne_eq, not_false_eq_true, true_and, Bool.true_eq_false]
          omega

theorem contents_trySend (h : c.trySend a = some c') : c'.contents = c.contents ++ [a] := by
  obtain ⟨-, -, ⟨hw, hr, hb⟩ | ⟨-, -, hr, hb⟩⟩ := trySend_cases h
  · simp [contents, hr, hb, hw, c.drained hw, Receiver.inFlight]
  · simp [contents, hr, hb]

/-- A send loses nothing. -/
theorem mem_contents_trySend {b : α} (h : c.trySend a = some c') (hb : b ∈ c.contents) :
    b ∈ c'.contents := by
  rw [contents_trySend h]
  exact List.mem_append_left _ hb

theorem startReceive_cases (h : c.startReceive = some c') :
    c.receiver = .idle ∧ c'.isOpen = c.isOpen ∧
      ((∃ a, c.buffer = a :: c'.buffer ∧ c'.receiver = .got a) ∨
        (c.buffer = [] ∧ c'.buffer = [] ∧ c'.receiver = .waiting)) := by
  unfold startReceive at h
  by_cases ho : c.isOpen = true
  · simp only [ho, if_true] at h
    split at h
    · rename_i a rest hr hb
      obtain rfl := Option.some.inj h
      exact ⟨hr, ho.symm, .inl ⟨a, hb, rfl⟩⟩
    · rename_i hr hb
      obtain rfl := Option.some.inj h
      exact ⟨hr, ho.symm, .inr ⟨hb, rfl, rfl⟩⟩
    · cases h
  · simp [ho] at h

theorem contents_startReceive (h : c.startReceive = some c') : c'.contents = c.contents := by
  obtain ⟨hi, -, ⟨a, hb, hr⟩ | ⟨hb, hb', hr⟩⟩ := startReceive_cases h
  · simp [contents, hi, hb, hr, Receiver.inFlight]
  · simp [contents, hi, hb, hb', hr, Receiver.inFlight]

/-- An idle receiver on an open channel can always start a receive. -/
theorem startReceive_isSome (ho : c.isOpen = true) (hr : c.receiver = .idle) :
    ∃ c', c.startReceive = some c' := by
  rw [← Option.isSome_iff_exists]
  unfold startReceive
  simp only [ho, if_true]
  split
  · rfl
  · rfl
  · rename_i hne₁ hne₂
    cases hb : c.buffer with
    | nil => exact absurd hb (hne₂ hr)
    | cons a rest => exact absurd hb (hne₁ a rest hr)

theorem take_cases (h : c.take = some (a, c')) :
    c.receiver = .got a ∧ c'.isOpen = c.isOpen ∧ c'.buffer = c.buffer ∧ c'.receiver = .idle := by
  unfold take at h
  cases hr : c.receiver with
  | got b =>
      simp only [hr, Option.some.injEq, Prod.mk.injEq] at h
      obtain ⟨rfl, rfl⟩ := h
      exact ⟨rfl, rfl, rfl, rfl⟩
  | idle | waiting => simp [hr] at h

theorem contents_take (h : c.take = some (a, c')) : c.contents = a :: c'.contents := by
  obtain ⟨hr, -, hb, hi⟩ := take_cases h
  simp [contents, hr, hb, hi, Receiver.inFlight]

theorem contents_cancelReceive (c : Channel cap α) : c.cancelReceive.contents = c.buffer := rfl

/-- Giving up a receive that has no message yet loses nothing. -/
theorem contents_cancelReceive_of_empty (h : c.receiver.inFlight = []) :
    c.cancelReceive.contents = c.contents := by
  rw [contents_cancelReceive, contents, h, List.nil_append]

/-! ### Open channels and their receiver -/

/-- The channel is open, and it has a receive operation just when `active` says so. -/
structure Listening (c : Channel cap α) (active : Bool) : Prop where
  isOpen : c.isOpen = true
  idle : c.receiver = .idle ↔ active = false

theorem listening_empty : Listening (empty cap α) false := ⟨rfl, Iff.rfl.trans (by simp [empty])⟩

namespace Listening

variable {active : Bool}

theorem trySend (hl : Listening c active) (h : c.trySend a = some c') : Listening c' active := by
  obtain ⟨-, ho, ⟨hw, hr, -⟩ | ⟨-, -, hr, -⟩⟩ := trySend_cases h
  · refine ⟨ho, ?_⟩
    rw [← hl.idle, hr, hw]
    simp
  · exact ⟨ho, by rw [hr]; exact hl.idle⟩

theorem startReceive (hl : Listening c active) (h : c.startReceive = some c') :
    Listening c' true := by
  obtain ⟨-, ho, ⟨b, -, hr⟩ | ⟨-, -, hr⟩⟩ := startReceive_cases h
  · exact ⟨ho.trans hl.isOpen, by simp [hr]⟩
  · exact ⟨ho.trans hl.isOpen, by simp [hr]⟩

theorem take (hl : Listening c active) (h : c.take = some (a, c')) : Listening c' false := by
  obtain ⟨-, ho, -, hi⟩ := take_cases h
  exact ⟨ho.trans hl.isOpen, by simp [hi]⟩

theorem cancelReceive (hl : Listening c active) : Listening c.cancelReceive false :=
  ⟨hl.isOpen, by simp [Channel.cancelReceive]⟩

/-- With nobody receiving, a send succeeds just when there is room in the buffer. -/
theorem trySend_isSome_iff (hl : Listening c false) :
    (∃ c', c.trySend a = some c') ↔ c.buffer.length ≠ cap := by
  have hi : c.receiver = .idle := hl.idle.mpr rfl
  rw [← Option.isSome_iff_exists, ← Option.ne_none_iff_isSome, ne_eq, trySend_eq_none]
  simp [hl.isOpen, hi]

/-- A receive on a channel that still owes a message has it, and its continuation can run. -/
theorem exists_take (hl : Listening c true) (h : c.contents ≠ []) :
    ∃ a c', c.take = some (a, c') := by
  cases hr : c.receiver with
  | idle => cases hl.idle.mp hr
  | waiting => exact absurd (contents_of_waiting hr) h
  | got a => exact ⟨a, c.cancelReceive, by simp only [Channel.take, hr, Channel.cancelReceive]⟩

end Listening

theorem length_contents_cancelReceive (c : Channel cap α) :
    c.cancelReceive.contents.length ≤ c.contents.length := by
  rw [contents_cancelReceive, contents, List.length_append]
  omega

end Channel

end Concurrency
