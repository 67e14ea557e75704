import Mathlib.Logic.Function.Basic
import CppCode.Concurrency.AsyncChannel
import CppCode.Concurrency.Machine

/-!
# CppCode.ThrottlingProxy.Model

`proxy` of `asio/014.throttling_proxy/014.throttling_proxy.cpp` as an interleaving machine: four
coroutines, `produce_tokens` and `transfer` for each of the two directions, that run until one of
them fails. The two coroutines of a direction share a channel of tokens; a token is a number of
bytes that `transfer` may read.

Time is a clock that `Action.tick` advances, in nanoseconds as `steady_timer::duration` counts
them. A timer that expires at some time lets its coroutine go on at that time or at any later one.
As in a session, a coroutine goes on until its next suspension in one step, and a read or a write
is performed in a step of its own.

`Direction.produced` is for specifications only: no step reads it.
-/

namespace CppCode.ThrottlingProxy

open Concurrency

def numberOfTokens : Nat := 100

def bytesPerToken : Nat := 20 * 1024

/-- In nanoseconds. -/
def tokenInterval : Nat := 100 * 1000000

/-- The size of `data` in `transfer`. -/
def bufferSize : Nat := 4096

/-- The users of a channel. -/
inductive Party
  | producer
  | consumer
  deriving Repr, DecidableEq

/-- Where `produce_tokens` is. -/
inductive ProduceTokens
  | spawned
  /-- In an `async_send` that has not completed. -/
  | sending
  /-- The `async_send` has completed. -/
  | sent
  /-- In `timer.async_wait`. -/
  | sleeping (expiry : Nat)
  deriving Repr, DecidableEq

/-- Where `transfer` is; `available` is its `bytes_available`. -/
inductive Transfer
  | spawned
  /-- In an `async_receive` that has not completed. -/
  | receiving
  /-- The `async_receive` has completed. -/
  | received (available : Nat)
  /-- In `async_read_some`, with what it has read once it has been performed. -/
  | reading (available : Nat) (chunk : Option (List UInt8))
  /-- In the `async_write` of a chunk of `n` bytes, with what is left of it, and with the size
  of the `async_write_some` once it has been performed. -/
  | writing (available n : Nat) (rest : List UInt8) (done : Option Nat)
  deriving Repr, DecidableEq

structure Direction where
  tokens : AsyncChannel numberOfTokens Party Nat
  produceTokens : ProduceTokens
  transfer : Transfer
  /-- What arrives on `from` and has not been read yet. -/
  incoming : List UInt8
  /-- What has been read from `from`. -/
  taken : List UInt8
  /-- What has been written to `to`. -/
  relayed : List UInt8
  /-- The number of tokens that have been passed to `async_send`. -/
  produced : Nat

/-- The operations of a channel complete. -/
def Direction.complete (d : Direction) (o : AsyncChannel.Outcome numberOfTokens Party Nat) :
    Direction :=
  { d with
    tokens := o.channel
    produceTokens := if o.sent.isSome then .sent else d.produceTokens
    transfer := match o.received with
      | some (_, n) => .received n
      | none => d.transfer }

/-- `tokens.async_send`. -/
def Direction.send (d : Direction) : Direction :=
  { d with produceTokens := .sending, produced := d.produced + 1 }.complete
    (d.tokens.asyncSend .producer bytesPerToken)

/-- `tokens.async_receive`. -/
def Direction.receive (d : Direction) : Direction :=
  { d with transfer := .receiving }.complete (d.tokens.asyncReceive .consumer)

/-- The head of the inner loop of `transfer`. -/
def Direction.loop (d : Direction) (available : Nat) : Direction :=
  if 0 < available then { d with transfer := .reading available none } else d.receive

inductive Event
  /-- `produce_tokens` goes on. -/
  | produce
  /-- `transfer` goes on. -/
  | transfer
  /-- `n` bytes are read. -/
  | read (n : Nat)
  /-- `n` bytes are written. -/
  | write (n : Nat)
  deriving Repr, DecidableEq

def Direction.step (now : Nat) (d : Direction) : Event → Option Direction
  | .produce =>
      match d.produceTokens with
      | .spawned => some d.send
      | .sending => none
      | .sent => some { d with produceTokens := .sleeping (now + tokenInterval) }
      | .sleeping expiry => if expiry ≤ now then some d.send else none
  | .transfer =>
      match d.transfer with
      | .spawned => some d.receive
      | .received available => some (d.loop available)
      | .reading available (some chunk) =>
          some { d with transfer := .writing available chunk.length chunk none }
      | .writing available n rest (some k) =>
          match rest.drop k with
          | [] => some (d.loop (available - n))
          | b :: rest => some { d with transfer := .writing available n (b :: rest) none }
      | .receiving | .reading _ none | .writing _ _ _ none => none
  | .read n =>
      match d.transfer with
      | .reading available none =>
          if 0 < n ∧ n ≤ min bufferSize available ∧ n ≤ d.incoming.length then
            some { d with
              transfer := .reading available (some (d.incoming.take n))
              incoming := d.incoming.drop n
              taken := d.taken ++ d.incoming.take n }
          else none
      | _ => none
  | .write k =>
      match d.transfer with
      | .writing available n rest none =>
          if 0 < k ∧ k ≤ rest.length then
            some { d with
              transfer := .writing available n rest (some k)
              relayed := d.relayed ++ rest.take k }
          else none
      | _ => none

/-- A read or a write is under way, which may fail. -/
def Direction.mayFail (d : Direction) : Bool :=
  match d.transfer with
  | .reading _ none | .writing _ _ _ none => true
  | _ => false

/-- The direction from this side to the other one. -/
inductive Side
  | client
  | server
  deriving Repr, DecidableEq

structure State where
  now : Nat
  /-- None of the coroutines has failed. The first one that does cancels the others. -/
  running : Bool
  directions : Side → Direction

inductive Action
  | tick (n : Nat)
  | event (side : Side) (e : Event)
  | fail (side : Side)
  deriving Repr, DecidableEq

def step (s : State) : Action → Option State
  | .tick n => some { s with now := s.now + n }
  | .event side e =>
      if s.running then
        ((s.directions side).step s.now e).map fun d =>
          { s with directions := Function.update s.directions side d }
      else none
  | .fail side =>
      if s.running ∧ (s.directions side).mayFail then some { s with running := false } else none

def Direction.start (incoming : List UInt8) : Direction where
  tokens := .empty numberOfTokens Party Nat
  produceTokens := .spawned
  transfer := .spawned
  incoming := incoming
  taken := []
  relayed := []
  produced := 0

/-- The proxy, connected to the server, between a client and a server that send `input`. -/
def machine (input : Side → List UInt8) : Machine State Action where
  init := { now := 0, running := true, directions := fun side => .start (input side) }
  step := step

/-! ### What a step does -/

/-- A step of a direction at the time `now`. -/
inductive Direction.Moved (now : Nat) (d : Direction) : Direction → Prop
  | send : (d.produceTokens = .spawned ∨ ∃ expiry, d.produceTokens = .sleeping expiry ∧
      expiry ≤ now) → Moved now d d.send
  | sleep : d.produceTokens = .sent →
      Moved now d { d with produceTokens := .sleeping (now + tokenInterval) }
  | start : d.transfer = .spawned → Moved now d (d.loop 0)
  | use {available} : d.transfer = .received available → Moved now d (d.loop available)
  | beginWrite {available chunk} : d.transfer = .reading available (some chunk) →
      Moved now d { d with transfer := .writing available chunk.length chunk none }
  | moreWrite {available n rest k} : d.transfer = .writing available n rest (some k) →
      Moved now d { d with transfer := .writing available n (rest.drop k) none }
  | written {available n rest k} : d.transfer = .writing available n rest (some k) →
      rest.drop k = [] → Moved now d (d.loop (available - n))
  | read {available n} : d.transfer = .reading available none → 0 < n →
      n ≤ min bufferSize available → n ≤ d.incoming.length →
      Moved now d
        { d with
          transfer := .reading available (some (d.incoming.take n))
          incoming := d.incoming.drop n
          taken := d.taken ++ d.incoming.take n }
  | write {available n rest k} : d.transfer = .writing available n rest none → 0 < k →
      k ≤ rest.length →
      Moved now d
        { d with
          transfer := .writing available n rest (some k)
          relayed := d.relayed ++ rest.take k }

theorem Direction.moved_of_step {now : Nat} {d d' : Direction} {e : Event}
    (h : d.step now e = some d') : d.Moved now d' := by
  unfold Direction.step at h
  split at h
  case h_1 =>
    split at h
    case h_1 hp =>
      obtain rfl := Option.some.inj h
      exact .send (.inl hp)
    case h_2 => cases h
    case h_3 hp =>
      obtain rfl := Option.some.inj h
      exact .sleep hp
    case h_4 expiry hp =>
      split at h <;> cases h
      exact .send (.inr ⟨expiry, hp, ‹_›⟩)
  case h_2 =>
    split at h
    case h_1 ht =>
      obtain rfl := Option.some.inj h
      exact .start ht
    case h_2 ht =>
      obtain rfl := Option.some.inj h
      exact .use ht
    case h_3 ht =>
      obtain rfl := Option.some.inj h
      exact .beginWrite ht
    case h_4 ht =>
      split at h
      case h_1 hdrop =>
        obtain rfl := Option.some.inj h
        exact .written ht hdrop
      case h_2 hdrop =>
        obtain rfl := Option.some.inj h
        rw [← hdrop]
        exact .moreWrite ht
    all_goals cases h
  case h_3 =>
    split at h
    case h_1 ht =>
      split at h <;> cases h
      case isTrue hn => exact .read ht hn.1 hn.2.1 hn.2.2
    case h_2 => cases h
  case h_4 =>
    split at h
    case h_1 ht =>
      split at h <;> cases h
      case isTrue hk => exact .write ht hk.1 hk.2
    case h_2 => cases h

end CppCode.ThrottlingProxy
