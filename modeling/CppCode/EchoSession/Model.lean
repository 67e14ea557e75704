import CppCode.Concurrency.AsyncChannel
import CppCode.Concurrency.Machine

/-!
# CppCode.EchoSession.Model

`line_based_echo_session` of `asio/005.multithread/005.multithread.cpp` and of
`asio/013.mutual_exclusion_1/013.mutual_exclusion_1.cpp` as an interleaving machine. Two actors
share a socket, and a channel of capacity 1 that is their write lock. The classes differ in how
the lock is claimed: the second one tries a `try_send` before the `async_send` (`tryFirst`).

An actor goes on until its next suspension in one step (`Action.resume`). In between, the
operating system performs the read or the write that is under way (`Action.transfer`) or lets it
fail (`Action.fail`). Reads and writes are the single ones that `async_read_until` and
`async_write` are made of: they transfer any number of bytes they can.

`socket_.close()` lets the operations under way fail, unless they are already done. On a closed
socket every new one fails, one of no bytes, too. `write_lock_.cancel()` ends the sends that wait
and leaves what is in the channel.

`dynamic_buffer(data, n)` is a view of the string `data`, limited to `n` bytes. The bytes by
which a read enlarges `data` and that it does not fill are cut off before anyone looks at them.
-/

namespace CppCode.EchoSession

open Concurrency

inductive Actor
  | handleMessages
  | sendHeartbeats
  deriving Repr, DecidableEq

def ascii (s : String) : List UInt8 := s.toList.map Char.toUInt8

def newline : UInt8 := 10

def maxLineLength : Nat := 1024

def lineHeader : List UInt8 := ascii "<line>"

def heartbeat : List UInt8 := ascii "<heartbeat>\n"

/-- An `async_read_some` or `async_write_some`. -/
inductive Io
  | pending
  /-- It has transferred this many bytes; its actor has not gone on yet. -/
  | done (n : Nat)
  | failed
  deriving Repr, DecidableEq

/-- Where `handle_messages` is. -/
inductive Messages
  | spawned
  /-- In `async_read_until`: where the search goes on (`none` is `not_found`), and the size of
  the read under way. -/
  | reading (searchPosition : Option Nat) (bytesToRead : Nat) (op : Io)
  /-- In an `async_send` that has not completed. -/
  | claiming (length : Nat)
  /-- The `async_send` has completed. -/
  | claimed (length : Nat)
  /-- The `async_send` has completed with `channel_cancelled`. -/
  | cancelled
  /-- In the `async_write` of the header, with what is left of it. -/
  | header (length : Nat) (rest : List UInt8) (op : Io)
  /-- In the `async_write` of the line, with what is left of it. -/
  | body (length : Nat) (rest : List UInt8) (op : Io)
  | ended
  deriving Repr, DecidableEq

/-- Where `send_heartbeats` is. -/
inductive Heartbeats
  | spawned
  /-- In `timer.async_wait`. -/
  | waiting
  | claiming
  | claimed
  | cancelled
  | writing (rest : List UInt8) (op : Io)
  | ended
  deriving Repr, DecidableEq

structure State where
  isOpen : Bool
  writeLock : AsyncChannel 1 Actor Unit
  messages : Messages
  heartbeats : Heartbeats
  data : List UInt8
  /-- What the client sends and the session has not read yet. -/
  incoming : List UInt8
  /-- What has been sent to the client. -/
  output : List UInt8

inductive Action
  /-- The actor goes on. `spare` is the capacity that `data` has beyond its size. -/
  | resume (a : Actor) (spare : Nat)
  /-- The actor's read or write is performed with `n` bytes. -/
  | transfer (a : Actor) (n : Nat)
  /-- The actor's read or write fails. -/
  | fail (a : Actor)
  deriving Repr, DecidableEq

/-- A read or write that is started: on a closed socket it fails. -/
def State.startIo (s : State) : Io :=
  if s.isOpen then .pending else .failed

/-- A read of no bytes is over at once. -/
def State.emptyIo (s : State) : Io :=
  if s.isOpen then .done 0 else .failed

/-! ### The end of an actor -/

/-- What `socket_.close()` does to an operation. -/
def Io.abort : Io → Io
  | .pending => .failed
  | op => op

def Messages.abort : Messages → Messages
  | .reading pos n op => .reading pos n op.abort
  | .claiming _ => .cancelled
  | .header length rest op => .header length rest op.abort
  | .body length rest op => .body length rest op.abort
  | m => m

def Heartbeats.abort : Heartbeats → Heartbeats
  | .claiming => .cancelled
  | .writing rest op => .writing rest op.abort
  | h => h

def State.stop (s : State) : State :=
  { s with
    isOpen := false
    writeLock := s.writeLock.cancel
    messages := s.messages.abort
    heartbeats := s.heartbeats.abort }

/-- An exception in `handle_messages`. -/
def State.endMessages (s : State) : State :=
  { s.stop with messages := .ended }

/-- An exception in `send_heartbeats`. -/
def State.endHeartbeats (s : State) : State :=
  { s.stop with heartbeats := .ended }

/-! ### The write lock -/

/-- The `async_send` of the actor completes. -/
def State.grant (s : State) : Actor → State
  | .handleMessages =>
      match s.messages with
      | .claiming length => { s with messages := .claimed length }
      | _ => s
  | .sendHeartbeats =>
      match s.heartbeats with
      | .claiming => { s with heartbeats := .claimed }
      | _ => s

/-- `write_lock_.try_receive`. -/
def State.release (s : State) (a : Actor) : State :=
  match s.writeLock.tryReceive a with
  | none => s
  | some o =>
      let s := { s with writeLock := o.channel }
      match o.sent with
      | some (j, _) => s.grant j
      | none => s

/-- The `try_send` by which the lock is claimed, if it is made and succeeds. -/
def State.tryClaim (tryFirst : Bool) (s : State) (a : Actor) :
    Option (AsyncChannel.Outcome 1 Actor Unit) :=
  if tryFirst then s.writeLock.trySend a () else none

def State.beginHeader (s : State) (length : Nat) : State :=
  { s with messages := .header length lineHeader s.startIo }

def State.claimMessages (tryFirst : Bool) (s : State) (length : Nat) : State :=
  match s.tryClaim tryFirst .handleMessages with
  | some o => { s with writeLock := o.channel }.beginHeader length
  | none =>
      let o := s.writeLock.asyncSend .handleMessages ()
      { s with
        writeLock := o.channel
        messages := if o.sent.isSome then .claimed length else .claiming length }

def State.beginHeartbeat (s : State) : State :=
  { s with heartbeats := .writing heartbeat s.startIo }

def State.claimHeartbeats (tryFirst : Bool) (s : State) : State :=
  match s.tryClaim tryFirst .sendHeartbeats with
  | some o => { s with writeLock := o.channel }.beginHeartbeat
  | none =>
      let o := s.writeLock.asyncSend .sendHeartbeats ()
      { s with
        writeLock := o.channel
        heartbeats := if o.sent.isSome then .claimed else .claiming }

/-! ### Reading a line -/

/-- How much `async_read_until` asks for when `data` has this size. -/
def bytesToRead (size spare : Nat) : Nat :=
  min (max 512 (min (size + spare) maxLineLength - size)) (min 65536 (maxLineLength - size))

/-- The search of `async_read_until` in `data` from a position on: the new search position, and
the number of bytes to read. -/
def search (data : List UInt8) (start spare : Nat) : Option Nat × Nat :=
  match (data.drop start).findIdx? (· == newline) with
  | some i => (some (start + i + 1), 0)
  | none =>
      if data.length = maxLineLength then (none, 0)
      else (some data.length, bytesToRead data.length spare)

/-- `async_read_until` up to its first read, which is one of no bytes if nothing has to be
read. -/
def State.beginRead (s : State) (spare : Nat) : State :=
  match search s.data 0 spare with
  | (pos, 0) => { s with messages := .reading pos 0 s.emptyIo }
  | (pos, n + 1) => { s with messages := .reading pos (n + 1) s.startIo }

/-- `async_read_until` after a read of `n` bytes, up to the next read or to the end of the
claim. -/
def State.continueRead (tryFirst : Bool) (s : State) (spare : Nat) :
    Option Nat → Nat → State
  | none, _ => s.endMessages
  | some pos, 0 => s.claimMessages tryFirst pos
  | some pos, _ + 1 =>
      match search s.data pos spare with
      | (none, _) => s.endMessages
      | (some pos, 0) => s.claimMessages tryFirst pos
      | (some pos, n + 1) => { s with messages := .reading (some pos) (n + 1) s.startIo }

/-! ### Steps -/

def State.resumeMessages (tryFirst : Bool) (s : State) (spare : Nat) : Option State :=
  match s.messages with
  | .spawned => some (s.beginRead spare)
  | .reading pos _ (.done n) => some (s.continueRead tryFirst spare pos n)
  | .claimed length => some (s.beginHeader length)
  | .header length rest (.done n) =>
      match rest.drop n with
      | [] => some { s with messages := .body length (s.data.take length) s.startIo }
      | b :: rest => some { s with messages := .header length (b :: rest) s.startIo }
  | .body length rest (.done n) =>
      match rest.drop n with
      | [] =>
          let s := { s with data := s.data.drop length }
          some ((s.release .handleMessages).beginRead spare)
      | b :: rest => some { s with messages := .body length (b :: rest) s.startIo }
  | .cancelled | .reading _ _ .failed | .header _ _ .failed | .body _ _ .failed =>
      some s.endMessages
  | .claiming _ | .reading _ _ .pending | .header _ _ .pending | .body _ _ .pending | .ended =>
      none

def State.resumeHeartbeats (tryFirst : Bool) (s : State) : Option State :=
  match s.heartbeats with
  | .spawned => some { s with heartbeats := .waiting }
  | .waiting => some (s.claimHeartbeats tryFirst)
  | .claimed => some s.beginHeartbeat
  | .writing rest (.done n) =>
      match rest.drop n with
      | [] => some { s.release .sendHeartbeats with heartbeats := .waiting }
      | b :: rest => some { s with heartbeats := .writing (b :: rest) s.startIo }
  | .cancelled | .writing _ .failed => some s.endHeartbeats
  | .claiming | .writing _ .pending | .ended => none

def State.transferMessages (s : State) (n : Nat) : Option State :=
  match s.messages with
  | .reading pos m .pending =>
      if 0 < n ∧ n ≤ m ∧ n ≤ s.incoming.length then
        some { s with
          messages := .reading pos m (.done n)
          data := s.data ++ s.incoming.take n
          incoming := s.incoming.drop n }
      else none
  | .header length rest .pending =>
      if 0 < n ∧ n ≤ rest.length then
        some { s with
          messages := .header length rest (.done n)
          output := s.output ++ rest.take n }
      else none
  | .body length rest .pending =>
      if 0 < n ∧ n ≤ rest.length then
        some { s with
          messages := .body length rest (.done n)
          output := s.output ++ rest.take n }
      else none
  | _ => none

def State.transferHeartbeats (s : State) (n : Nat) : Option State :=
  match s.heartbeats with
  | .writing rest .pending =>
      if 0 < n ∧ n ≤ rest.length then
        some { s with
          heartbeats := .writing rest (.done n)
          output := s.output ++ rest.take n }
      else none
  | _ => none

def Messages.fail : Messages → Option Messages
  | .reading pos n .pending => some (.reading pos n .failed)
  | .header length rest .pending => some (.header length rest .failed)
  | .body length rest .pending => some (.body length rest .failed)
  | _ => none

def Heartbeats.fail : Heartbeats → Option Heartbeats
  | .writing rest .pending => some (.writing rest .failed)
  | _ => none

def step (tryFirst : Bool) (s : State) : Action → Option State
  | .resume .handleMessages spare => s.resumeMessages tryFirst spare
  | .resume .sendHeartbeats _ => s.resumeHeartbeats tryFirst
  | .transfer .handleMessages n => s.transferMessages n
  | .transfer .sendHeartbeats n => s.transferHeartbeats n
  | .fail .handleMessages => s.messages.fail.map fun m => { s with messages := m }
  | .fail .sendHeartbeats => s.heartbeats.fail.map fun h => { s with heartbeats := h }

/-- `start()`: both actors are spawned. -/
def State.start (input : List UInt8) : State where
  isOpen := true
  writeLock := .empty 1 Actor Unit
  messages := .spawned
  heartbeats := .spawned
  data := []
  incoming := input
  output := []

/-- The session with a client that sends `input`. -/
def machine (tryFirst : Bool) (input : List UInt8) : Machine State Action where
  init := .start input
  step := step tryFirst

/-! ### What a step does -/

/-- `handle_messages` goes on with an exception. -/
def Messages.Broken : Messages → Prop
  | .cancelled | .reading _ _ .failed | .header _ _ .failed | .body _ _ .failed => True
  | _ => False

/-- `send_heartbeats` goes on with an exception. -/
def Heartbeats.Broken : Heartbeats → Prop
  | .cancelled | .writing _ .failed => True
  | _ => False

inductive Moved (tryFirst : Bool) (s : State) : State → Prop
  | startRead {spare} : s.messages = .spawned → Moved tryFirst s (s.beginRead spare)
  | readOn {pos m n spare} : s.messages = .reading pos m (.done n) →
      Moved tryFirst s (s.continueRead tryFirst spare pos n)
  | beginHeader {length} : s.messages = .claimed length →
      Moved tryFirst s (s.beginHeader length)
  | moreHeader {length rest n} : s.messages = .header length rest (.done n) →
      rest.drop n ≠ [] →
      Moved tryFirst s { s with messages := .header length (rest.drop n) s.startIo }
  | beginBody {length rest n} : s.messages = .header length rest (.done n) →
      rest.drop n = [] →
      Moved tryFirst s { s with messages := .body length (s.data.take length) s.startIo }
  | moreBody {length rest n} : s.messages = .body length rest (.done n) →
      rest.drop n ≠ [] →
      Moved tryFirst s { s with messages := .body length (rest.drop n) s.startIo }
  | echoed {length rest n spare} : s.messages = .body length rest (.done n) →
      rest.drop n = [] →
      Moved tryFirst s
        (({ s with data := s.data.drop length }.release .handleMessages).beginRead spare)
  | endMessages : s.messages.Broken → Moved tryFirst s s.endMessages
  | sleep : s.heartbeats = .spawned → Moved tryFirst s { s with heartbeats := .waiting }
  | expire : s.heartbeats = .waiting → Moved tryFirst s (s.claimHeartbeats tryFirst)
  | beginHeartbeat : s.heartbeats = .claimed → Moved tryFirst s s.beginHeartbeat
  | moreHeartbeat {rest n} : s.heartbeats = .writing rest (.done n) → rest.drop n ≠ [] →
      Moved tryFirst s { s with heartbeats := .writing (rest.drop n) s.startIo }
  | beaten {rest n} : s.heartbeats = .writing rest (.done n) → rest.drop n = [] →
      Moved tryFirst s { s.release .sendHeartbeats with heartbeats := .waiting }
  | endHeartbeats : s.heartbeats.Broken → Moved tryFirst s s.endHeartbeats
  | receive {pos m n} : s.messages = .reading pos m .pending → 0 < n → n ≤ m →
      n ≤ s.incoming.length →
      Moved tryFirst s
        { s with
          messages := .reading pos m (.done n)
          data := s.data ++ s.incoming.take n
          incoming := s.incoming.drop n }
  | sendHeader {length rest n} : s.messages = .header length rest .pending → 0 < n →
      n ≤ rest.length →
      Moved tryFirst s
        { s with
          messages := .header length rest (.done n)
          output := s.output ++ rest.take n }
  | sendBody {length rest n} : s.messages = .body length rest .pending → 0 < n →
      n ≤ rest.length →
      Moved tryFirst s
        { s with
          messages := .body length rest (.done n)
          output := s.output ++ rest.take n }
  | sendHeartbeat {rest n} : s.heartbeats = .writing rest .pending → 0 < n →
      n ≤ rest.length →
      Moved tryFirst s
        { s with
          heartbeats := .writing rest (.done n)
          output := s.output ++ rest.take n }
  | failMessages {m} : s.messages.fail = some m → Moved tryFirst s { s with messages := m }
  | failHeartbeats {h} : s.heartbeats.fail = some h →
      Moved tryFirst s { s with heartbeats := h }

variable {s s' : State} {tryFirst : Bool} {a : Action}

theorem moved_of_resumeMessages {spare : Nat}
    (h : s.resumeMessages tryFirst spare = some s') : Moved tryFirst s s' := by
  unfold State.resumeMessages at h
  split at h
  case h_4 length rest n hm =>
    split at h
    case h_1 hrest =>
      obtain rfl := Option.some.inj h
      exact .beginBody hm hrest
    case h_2 b more hrest =>
      obtain rfl := Option.some.inj h
      rw [← hrest]
      exact .moreHeader hm (by rw [hrest]; exact List.cons_ne_nil _ _)
  case h_5 length rest n hm =>
    split at h
    case h_1 hrest =>
      obtain rfl := Option.some.inj h
      exact .echoed hm hrest
    case h_2 b more hrest =>
      obtain rfl := Option.some.inj h
      rw [← hrest]
      exact .moreBody hm (by rw [hrest]; exact List.cons_ne_nil _ _)
  all_goals cases h
  case h_1 hm => exact .startRead hm
  case h_2 hm => exact .readOn hm
  case h_3 hm => exact .beginHeader hm
  all_goals
    rename_i hm
    exact .endMessages (by rw [hm]; trivial)

theorem moved_of_resumeHeartbeats (h : s.resumeHeartbeats tryFirst = some s') :
    Moved tryFirst s s' := by
  unfold State.resumeHeartbeats at h
  split at h
  case h_4 rest n hh =>
    split at h
    case h_1 hrest =>
      obtain rfl := Option.some.inj h
      exact .beaten hh hrest
    case h_2 b more hrest =>
      obtain rfl := Option.some.inj h
      rw [← hrest]
      exact .moreHeartbeat hh (by rw [hrest]; exact List.cons_ne_nil _ _)
  all_goals cases h
  case h_1 hh => exact .sleep hh
  case h_2 hh => exact .expire hh
  case h_3 hh => exact .beginHeartbeat hh
  all_goals
    rename_i hh
    exact .endHeartbeats (by rw [hh]; trivial)

theorem moved_of_transferMessages {n : Nat} (h : s.transferMessages n = some s') :
    Moved tryFirst s s' := by
  unfold State.transferMessages at h
  split at h
  case h_4 => cases h
  all_goals
    rename_i hm
    split at h <;> cases h
    rename_i hn
  · exact .receive hm hn.1 hn.2.1 hn.2.2
  · exact .sendHeader hm hn.1 hn.2
  · exact .sendBody hm hn.1 hn.2

theorem moved_of_step (h : step tryFirst s a = some s') : Moved tryFirst s s' := by
  unfold step at h
  split at h
  case h_1 => exact moved_of_resumeMessages h
  case h_2 => exact moved_of_resumeHeartbeats h
  case h_3 => exact moved_of_transferMessages h
  case h_4 n =>
    unfold State.transferHeartbeats at h
    split at h
    case h_1 rest hh =>
      split at h
      case isTrue hn =>
        obtain rfl := Option.some.inj h
        exact .sendHeartbeat hh hn.1 hn.2
      case isFalse => cases h
    case h_2 => cases h
  case h_5 =>
    obtain ⟨m, hm, rfl⟩ := Option.map_eq_some_iff.mp h
    exact .failMessages hm
  case h_6 =>
    obtain ⟨m, hm, rfl⟩ := Option.map_eq_some_iff.mp h
    exact .failHeartbeats hm

/-- After a read, `handle_messages` gives up, or claims the lock, or reads on. -/
theorem continueRead_cases (tryFirst : Bool) (s : State) (spare : Nat) (pos : Option Nat)
    (n : Nat) :
    s.continueRead tryFirst spare pos n = s.endMessages ∨
      (∃ length, s.continueRead tryFirst spare pos n = s.claimMessages tryFirst length) ∨
      ∃ pos' m, s.continueRead tryFirst spare pos n =
        { s with messages := .reading (some pos') (m + 1) s.startIo } := by
  unfold State.continueRead
  split
  · exact .inl rfl
  · exact .inr (.inl ⟨_, rfl⟩)
  · split
    · exact .inl rfl
    · exact .inr (.inl ⟨_, rfl⟩)
    · exact .inr (.inr ⟨_, _, rfl⟩)

end CppCode.EchoSession
