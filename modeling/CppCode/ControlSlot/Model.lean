import Mathlib.Logic.Function.Basic
import CppCode.Concurrency.Machine

/-!
# CppCode.ControlSlot.Model

The sender and the receiver of `iceoryx/003.relative_pointer` (`003.sender.cpp`,
`003.receiver.cpp`, `003.common.hpp`) as an interleaving machine over shared memory: any
number of sender processes that start at any time, and one receiver.

* Every access to shared memory is a step of its own, under sequential consistency.
* A sender stores its value in the data segment, waits for `ready == 0`, writes the two
  fields of the control message and sets `ready`. Its wait is a `compare_exchange_weak` from
  `0` to `0`: it succeeds only on `0`, changes nothing, and may fail at any time, which is a
  step not taken.
* The receiver polls `ready`, reads the two fields, loads the value and clears all three. A
  segment it does not know is an exception it catches; segment `0` is the control segment
  itself.

* Every address is a cell of its own: the segments have distinct ids and are objects of their own,
  and offsets are multiples of 8. The one offset of which this is not true is `2^64 - 8`. It passes
  the check of the sender, where the sum wraps, and the store goes to the eight bytes before the
  segment. Where cells matter, the runs in which a sender is started with it are left out
  (`NoWrap`).

The mapping of the segments and the messages printed are left out. `State.published`,
`State.observed` and `State.loaded` are for specifications only: no step reads them.
-/

namespace CppCode.ControlSlot

open Concurrency

/-- A data segment. Segment `0` is the control segment. -/
structure Segment where
  id : UInt64
  size : UInt64
  isData : id ≠ 0

/-- What a `RelativePointer` names. -/
structure Address where
  segment : UInt64
  offset : UInt64
  deriving DecidableEq

/-- A value and the place it is sent through. -/
structure Message where
  address : Address
  value : Int64
  deriving DecidableEq

/-- The arguments of the sender: the index of a data segment, the offset and the value. -/
structure Arguments where
  index : Nat
  offset : UInt64
  value : Int64
  deriving DecidableEq

/-- The checks of the sender's `main`. The sum in the last one is a `uint64_t`. -/
def Arguments.message (segments : List Segment) (args : Arguments) : Option Message :=
  if args.value = 0 then none
  else if args.offset % 8 ≠ 0 then none
  else
    match segments[args.index]? with
    | none => none
    | some segment =>
        if args.offset + 8 > segment.size then none
        else some ⟨⟨segment.id, args.offset⟩, args.value⟩

structure ControlMessage where
  ready : UInt64
  segmentId : UInt64
  offset : UInt64
  deriving DecidableEq

/-- Positions in the sender, named after the access that comes next. -/
inductive SenderPc
  | storeData
  | waitReady
  | writeSegment
  | writeOffset
  | storeReady
  | exited
  deriving DecidableEq

structure Sender where
  message : Message
  pc : SenderPc
  deriving DecidableEq

/-- Positions in the receiver's loop. -/
inductive ReceiverPc
  | poll
  | readSegment
  | readOffset (segId : UInt64)
  | load (segId off : UInt64)
  | clearSegment
  | clearOffset
  | clearReady
  deriving DecidableEq

structure State where
  control : ControlMessage
  data : Address → Int64
  /-- Every sender that was started, in that order. -/
  senders : List Sender
  receiver : ReceiverPc
  /-- The messages whose senders have set `ready`. -/
  published : List Message
  /-- The pairs the receiver has read from the control message. -/
  observed : List Address
  /-- The values the receiver has loaded. -/
  loaded : List Int64

inductive Action
  | start (args : Arguments)
  /-- The `i`-th sender takes its next step. -/
  | sender (i : Nat)
  | receiver
  deriving DecidableEq

/-- Shared memory is zero at first. -/
def State.start : State where
  control := ⟨0, 0, 0⟩
  data := fun _ => 0
  senders := []
  receiver := .poll
  published := []
  observed := []
  loaded := []

/-- The `i`-th sender goes on to `pc`. -/
def State.goto (s : State) (i : Nat) (sender : Sender) (pc : SenderPc) : State :=
  { s with senders := s.senders.set i { sender with pc := pc } }

def senderStep (s : State) (i : Nat) (sender : Sender) : Option State :=
  match sender.pc with
  | .storeData =>
      some ({ s with data := Function.update s.data sender.message.address sender.message.value
        }.goto i sender .waitReady)
  | .waitReady => if s.control.ready = 0 then some (s.goto i sender .writeSegment) else none
  | .writeSegment =>
      some ({ s with control := { s.control with segmentId := sender.message.address.segment }
        }.goto i sender .writeOffset)
  | .writeOffset =>
      some ({ s with control := { s.control with offset := sender.message.address.offset }
        }.goto i sender .storeReady)
  | .storeReady =>
      some ({ s with
        control := { s.control with ready := 1 }
        published := s.published ++ [sender.message] }.goto i sender .exited)
  | .exited => none

/-- The 64-bit word of the control segment at an offset. -/
def controlWord (s : State) (off : UInt64) : Int64 :=
  if off = 0 then s.control.ready.toInt64
  else if off = 8 then s.control.segmentId.toInt64
  else if off = 16 then s.control.offset.toInt64
  else s.data ⟨0, off⟩

/-- What the receiver finds at an address, `none` if the segment is not registered. -/
def loadValue (segments : List Segment) (s : State) (segId off : UInt64) : Option Int64 :=
  if segId = 0 then some (controlWord s off)
  else if segments.any fun segment => segment.id = segId then some (s.data ⟨segId, off⟩)
  else none

def receiverStep (segments : List Segment) (s : State) : State :=
  match s.receiver with
  | .poll => if s.control.ready = 0 then s else { s with receiver := .readSegment }
  | .readSegment => { s with receiver := .readOffset s.control.segmentId }
  | .readOffset segId =>
      { s with
        receiver := .load segId s.control.offset
        observed := s.observed ++ [⟨segId, s.control.offset⟩] }
  | .load segId off =>
      { s with
        receiver := .clearSegment
        loaded := s.loaded ++ (loadValue segments s segId off).toList }
  | .clearSegment =>
      { s with control := { s.control with segmentId := 0 }, receiver := .clearOffset }
  | .clearOffset => { s with control := { s.control with offset := 0 }, receiver := .clearReady }
  | .clearReady => { s with control := { s.control with ready := 0 }, receiver := .poll }

def step (segments : List Segment) (s : State) : Action → Option State
  | .start args =>
      (args.message segments).map fun message =>
        { s with senders := s.senders ++ [⟨message, .storeData⟩] }
  | .sender i =>
      match s.senders[i]? with
      | some sender => senderStep s i sender
      | none => none
  | .receiver => some (receiverStep segments s)

def machine (segments : List Segment) : Machine State Action where
  init := .start
  step := step segments

/-! ### What a step can do -/

/-- A step, one constructor for each branch. -/
inductive Moved (segments : List Segment) (s : State) : Action → State → Prop
  | starts {args : Arguments} {message : Message} (hm : args.message segments = some message) :
      Moved segments s (.start args) { s with senders := s.senders ++ [⟨message, .storeData⟩] }
  | stores {i : Nat} {sender : Sender} (hi : s.senders[i]? = some sender)
      (hpc : sender.pc = .storeData) :
      Moved segments s (.sender i)
        ({ s with data := Function.update s.data sender.message.address sender.message.value
          }.goto i sender .waitReady)
  | passes {i : Nat} {sender : Sender} (hi : s.senders[i]? = some sender)
      (hpc : sender.pc = .waitReady) (hr : s.control.ready = 0) :
      Moved segments s (.sender i) (s.goto i sender .writeSegment)
  | writesSegment {i : Nat} {sender : Sender} (hi : s.senders[i]? = some sender)
      (hpc : sender.pc = .writeSegment) :
      Moved segments s (.sender i)
        ({ s with control := { s.control with segmentId := sender.message.address.segment }
          }.goto i sender .writeOffset)
  | writesOffset {i : Nat} {sender : Sender} (hi : s.senders[i]? = some sender)
      (hpc : sender.pc = .writeOffset) :
      Moved segments s (.sender i)
        ({ s with control := { s.control with offset := sender.message.address.offset }
          }.goto i sender .storeReady)
  | publishes {i : Nat} {sender : Sender} (hi : s.senders[i]? = some sender)
      (hpc : sender.pc = .storeReady) :
      Moved segments s (.sender i)
        ({ s with
          control := { s.control with ready := 1 }
          published := s.published ++ [sender.message] }.goto i sender .exited)
  | receives : Moved segments s .receiver (receiverStep segments s)

/-- **Inversion.** Every step is one of the branches listed in `Moved`. -/
theorem step_moved {segments : List Segment} {s s' : State} {a : Action}
    (h : step segments s a = some s') : Moved segments s a s' := by
  cases a with
  | start args =>
      obtain ⟨message, hm, rfl⟩ := Option.map_eq_some_iff.mp h
      exact .starts hm
  | sender i =>
      simp only [step] at h
      split at h
      · rename_i sender hi
        unfold senderStep at h
        split at h
        · obtain rfl := Option.some.inj h
          exact .stores hi ‹_›
        · split at h
          · obtain rfl := Option.some.inj h
            exact .passes hi ‹_› ‹_›
          · cases h
        · obtain rfl := Option.some.inj h
          exact .writesSegment hi ‹_›
        · obtain rfl := Option.some.inj h
          exact .writesOffset hi ‹_›
        · obtain rfl := Option.some.inj h
          exact .publishes hi ‹_›
        · cases h
      · cases h
  | receiver =>
      obtain rfl := Option.some.inj h
      exact .receives

@[simp] theorem receiverStep_senders (segments : List Segment) (s : State) :
    (receiverStep segments s).senders = s.senders := by
  unfold receiverStep
  split
  · split <;> rfl
  all_goals rfl

@[simp] theorem receiverStep_data (segments : List Segment) (s : State) :
    (receiverStep segments s).data = s.data := by
  unfold receiverStep
  split
  · split <;> rfl
  all_goals rfl

@[simp] theorem receiverStep_published (segments : List Segment) (s : State) :
    (receiverStep segments s).published = s.published := by
  unfold receiverStep
  split
  · split <;> rfl
  all_goals rfl

end CppCode.ControlSlot
