import CppCode.Concurrency.AsyncChannel
import CppCode.Concurrency.Machine

/-!
# CppCode.ChannelTest.Model

The coroutines of `asio/012.channel_test/012.channel_test.cpp` as an interleaving machine: any
number of `channel_send` coroutines that share one channel of capacity 1. Each sleeps for a
time, sends, and then receives; a coroutine whose operation has completed may go on at any
later time.

The runs are those before `main` closes the channel, so no operation completes with an error.
`State.accepted` and `State.delivered` are for specifications only: no step reads them.
-/

namespace CppCode.ChannelTest

open Concurrency

/-- Where a coroutine is. -/
inductive Phase
  /-- In `timer.async_wait`. -/
  | sleeping
  /-- In an `async_send` that has not completed. -/
  | sending
  /-- The `async_send` has completed. -/
  | sent
  /-- In an `async_receive` that has not completed. -/
  | receiving
  /-- The `async_receive` has completed. -/
  | received
  | finished
  deriving Repr, DecidableEq

/-- A row of `channel_receive_result`. -/
structure Row where
  started : Bool
  sent : Bool
  received : Bool
  deriving Repr, DecidableEq

structure State where
  channel : AsyncChannel 1 Nat Int32
  phases : List Phase
  channelReceiveResult : List Row
  counter : Nat
  /-- The messages whose send has completed, in that order. -/
  accepted : List Int32
  /-- The messages whose receive has completed, in that order. -/
  delivered : List Int32

/-- The next step of the coroutine with this index. -/
inductive Action
  /-- The timer expires: up to the suspension in `async_send`. -/
  | send (i : Nat)
  /-- On from the completed send, up to the suspension in `async_receive`. -/
  | receive (i : Nat)
  /-- On from the completed receive to the end. -/
  | finish (i : Nat)
  deriving Repr, DecidableEq

def Action.index : Action → Nat
  | .send i | .receive i | .finish i => i

/-- `n` coroutines that have been spawned. -/
def State.start (n : Nat) : State where
  channel := .empty 1 Nat Int32
  phases := List.replicate n .sleeping
  channelReceiveResult := List.replicate n ⟨false, false, false⟩
  counter := 0
  accepted := []
  delivered := []

/-- The phases once the operations that complete with `o` have completed. -/
def complete (phases : List Phase) (o : AsyncChannel.Outcome 1 Nat Int32) : List Phase :=
  let phases := match o.sent with
    | some (j, _) => phases.set j .sent
    | none => phases
  match o.received with
  | some (j, _) => phases.set j .received
  | none => phases

/-- An operation on the channel by a coroutine that has been put into `phases` as waiting. -/
def State.operate (s : State) (phases : List Phase) (o : AsyncChannel.Outcome 1 Nat Int32) :
    State :=
  { s with
    channel := o.channel
    phases := complete phases o
    accepted := s.accepted ++ (o.sent.map Prod.snd).toList
    delivered := s.delivered ++ (o.received.map Prod.snd).toList }

/-- One step of one coroutine. -/
def step (s : State) : Action → Option State
  | .send i =>
      match s.phases[i]? with
      | some .sleeping =>
          let s := { s with
            channelReceiveResult :=
              s.channelReceiveResult.modify i fun row => { row with started := true } }
          some (s.operate (s.phases.set i .sending) (s.channel.asyncSend i 1))
      | _ => none
  | .receive i =>
      match s.phases[i]? with
      | some .sent =>
          let s := { s with
            channelReceiveResult :=
              s.channelReceiveResult.modify i fun row => { row with sent := true }
            counter := s.counter + 1 }
          some (s.operate (s.phases.set i .receiving) (s.channel.asyncReceive i))
      | _ => none
  | .finish i =>
      match s.phases[i]? with
      | some .received =>
          some { s with
            phases := s.phases.set i .finished
            channelReceiveResult :=
              s.channelReceiveResult.modify i fun row => { row with received := true } }
      | _ => none

/-- `n` coroutines and their channel. -/
def machine (n : Nat) : Machine State Action where
  init := .start n
  step := step

end CppCode.ChannelTest
