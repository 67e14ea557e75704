import CppCode.Bytes.Text
import CppCode.EchoSession.Lock

/-!
# CppCode.EchoSession.Framing

What the client gets. At any time the session has sent a number of whole messages and a part of
the next one, that of the actor which holds the write lock, or which has left with it; the lines
echoed are the client's lines in the order in which it has sent them (`Framed`). So the client
can take what it gets apart at the newlines (`completeLines_output`).

What makes the frames whole is the lock: an actor starts a message only when it gets the lock,
and then the other one has released it at the end of a message.
-/

namespace CppCode.EchoSession

open Concurrency Bytes

/-! ### Lines -/

/-- A line that `async_read_until` finds. -/
structure IsLine (l : List UInt8) : Prop where
  ends : ∃ text, l = text ++ [newline] ∧ newline ∉ text
  short : l.length ≤ maxLineLength

theorem bytesToRead_le (size spare : Nat) : bytesToRead size spare ≤ maxLineLength - size := by
  unfold bytesToRead
  omega

theorem bytesToRead_pos {size : Nat} (spare : Nat) (h : size < maxLineLength) :
    0 < bytesToRead size spare := by
  unfold bytesToRead
  omega

/-- What a search finds, if there is no newline before its start. -/
theorem search_spec {data : List UInt8} (start spare : Nat)
    (hlength : data.length ≤ maxLineLength) (hstart : newline ∉ data.take start) :
    (∃ pos, search data start spare = (some pos, 0) ∧ IsLine (data.take pos)) ∨
      search data start spare = (none, 0) ∨
      ∃ n, search data start spare = (some data.length, n + 1) ∧ newline ∉ data ∧
        data.length + (n + 1) ≤ maxLineLength := by
  unfold search
  cases hfind : (data.drop start).findIdx? (· == newline) with
  | some i =>
      obtain ⟨hi, hat, hbefore⟩ := List.findIdx?_eq_some_iff_getElem.mp hfind
      have hbound : start + i < data.length := by
        rw [List.length_drop] at hi
        omega
      refine .inl ⟨_, rfl, ⟨data.take (start + i), ?_, ?_⟩, ?_⟩
      · rw [List.take_succ_eq_append_getElem hbound]
        rw [List.getElem_drop] at hat
        rw [beq_iff_eq.mp hat]
      · rw [List.take_add, List.mem_append, not_or]
        refine ⟨hstart, fun hmem => ?_⟩
        obtain ⟨j, hj, heq⟩ := List.mem_take_iff_getElem.mp hmem
        have hji : j < i := by omega
        exact hbefore j hji (by simp [heq])
      · rw [List.length_take]
        omega
  | none =>
      have hnone : newline ∉ data.drop start := by
        intro hmem
        have h := List.findIdx?_eq_none_iff.mp hfind newline hmem
        simp at h
      have hdata : newline ∉ data := by
        rw [← List.take_append_drop start data, List.mem_append, not_or]
        exact ⟨hstart, hnone⟩
      simp only
      split
      · exact .inr (.inl rfl)
      case isFalse hfull =>
        have hle := bytesToRead_le data.length spare
        have hpos := bytesToRead_pos spare (Nat.lt_of_le_of_ne hlength hfull)
        refine .inr (.inr ⟨bytesToRead data.length spare - 1, ?_, hdata, ?_⟩)
        · rw [Nat.sub_add_cancel hpos]
        · omega

/-! ### What the reader has found -/

/-- What `handle_messages` knows about `data`. -/
def Messages.Found (data : List UInt8) : Messages → Prop
  | .reading (some pos) 0 op => (op = .done 0 ∨ op = .failed) ∧ IsLine (data.take pos)
  | .reading (some pos) (_ + 1) op =>
      newline ∉ data.take pos ∧ pos ≤ data.length ∧ op ≠ .done 0
  | .reading none m _ => m = 0
  | .claiming length | .claimed length | .header length _ _ | .body length _ _ =>
      IsLine (data.take length)
  | .spawned | .cancelled | .ended => True

/-- By how much a read under way may enlarge `data`. -/
def Messages.room : Messages → Nat
  | .reading _ m .pending => m
  | _ => 0

structure Read (s : State) : Prop where
  found : s.messages.Found s.data
  bounded : s.data.length + s.messages.room ≤ maxLineLength

variable {s s' : State} {input : List UInt8}

theorem startIo_ne_done (s : State) (n : Nat) : s.startIo ≠ .done n := by
  unfold State.startIo
  split <;> intro h <;> cases h

theorem emptyIo_cases (s : State) : s.emptyIo = .done 0 ∨ s.emptyIo = .failed := by
  unfold State.emptyIo
  split
  · exact .inl rfl
  · exact .inr rfl

theorem room_le (pos : Option Nat) (m : Nat) (op : Io) :
    (Messages.reading pos m op).room ≤ m := by
  cases op <;> simp [Messages.room]

theorem read_beginRead {spare : Nat} (h : s.data.length ≤ maxLineLength) :
    Read (s.beginRead spare) := by
  unfold State.beginRead
  rcases search_spec 0 spare h (by simp) with
    ⟨pos, hsearch, hline⟩ | hsearch | ⟨n, hsearch, hdata, hroom⟩
  · rw [hsearch]
    refine ⟨⟨?_, hline⟩, ?_⟩
    · exact emptyIo_cases s
    · exact (Nat.add_le_add_left (room_le ..) _).trans h
  · rw [hsearch]
    exact ⟨rfl, (Nat.add_le_add_left (room_le ..) _).trans h⟩
  · rw [hsearch]
    refine ⟨⟨?_, Nat.le_refl _, startIo_ne_done s 0⟩, ?_⟩
    · rwa [List.take_length]
    · exact (Nat.add_le_add_left (room_le ..) _).trans hroom

theorem read_endMessages (h : Read s) : Read s.endMessages :=
  ⟨trivial, (Nat.le_add_right _ _).trans h.bounded⟩

theorem read_claimMessages {length : Nat} (hlength : s.data.length ≤ maxLineLength)
    (hline : IsLine (s.data.take length)) : Read (s.claimMessages false length) := by
  obtain ⟨w, m, heq, hm⟩ := claimMessages_eq s length
  rw [heq]
  rcases hm with rfl | rfl
  · exact ⟨hline, hlength⟩
  · exact ⟨hline, hlength⟩

theorem read_continueRead {pos : Option Nat} {m n spare : Nat} (h : Read s)
    (hm : s.messages = .reading pos m (.done n)) : Read (s.continueRead false spare pos n) := by
  obtain ⟨hfound, hbounded⟩ := h
  have hlength : s.data.length ≤ maxLineLength := (Nat.le_add_right _ _).trans hbounded
  rw [hm] at hfound
  match pos, n, m, hfound with
  | none, n, m, _ => exact ⟨trivial, hlength⟩
  | some pos, 0, 0, hfound => exact read_claimMessages hlength hfound.2
  | some pos, 0, m + 1, hfound => exact absurd rfl hfound.2.2
  | some pos, n + 1, 0, hfound =>
      rcases hfound.1 with hop | hop
      · cases hop
      · cases hop
  | some pos, n + 1, m + 1, hfound =>
      simp only [State.continueRead]
      rcases search_spec _ spare hlength hfound.1 with
        ⟨pos, hsearch, hline⟩ | hsearch | ⟨k, hsearch, hdata, hroom⟩
      · rw [hsearch]
        exact read_claimMessages hlength hline
      · rw [hsearch]
        exact ⟨trivial, hlength⟩
      · rw [hsearch]
        refine ⟨⟨?_, Nat.le_refl _, startIo_ne_done s 0⟩, ?_⟩
        · rwa [List.take_length]
        · exact (Nat.add_le_add_left (room_le ..) _).trans hroom

theorem Messages.found_abort {data : List UInt8} {m : Messages} (h : m.Found data) :
    m.abort.Found data := by
  unfold Messages.abort
  split
  case h_1 pos n op =>
    match pos, n, h with
    | none, _, h => exact h
    | some _, 0, h =>
        refine ⟨?_, h.2⟩
        rcases h.1 with rfl | rfl
        · exact .inl rfl
        · exact .inr rfl
    | some _, _ + 1, h =>
        refine ⟨h.1, h.2.1, ?_⟩
        cases op with
        | done n => exact h.2.2
        | pending | failed => intro h; cases h
  case h_2 => trivial
  all_goals exact h

theorem Messages.found_fail {data : List UInt8} {m m' : Messages} (hf : m.fail = some m')
    (h : m.Found data) : m'.Found data ∧ m'.room = 0 := by
  unfold Messages.fail at hf
  split at hf <;> cases hf
  case h_1 pos n =>
    match pos, n, h with
    | none, _, h => exact ⟨h, rfl⟩
    | some _, 0, h =>
        rcases h.1 with hop | hop
        · cases hop
        · cases hop
    | some _, _ + 1, h => exact ⟨⟨h.1, h.2.1, by intro h; cases h⟩, rfl⟩
  all_goals exact ⟨h, rfl⟩

theorem Read.moved (h : Read s) (hm : Moved false s s') : Read s' := by
  have hlength : s.data.length ≤ maxLineLength := (Nat.le_add_right _ _).trans h.bounded
  have hfound := h.found
  cases hm with
  | startRead => exact read_beginRead hlength
  | readOn hm => exact read_continueRead h hm
  | beginHeader hm | moreHeader hm | beginBody hm | moreBody hm | sendHeader hm | sendBody hm =>
      rw [hm] at hfound
      exact ⟨hfound, hlength⟩
  | @echoed length =>
      obtain ⟨w, m, h, heq, -⟩ := release_eq { s with data := s.data.drop length } .handleMessages
      rw [heq]
      refine read_beginRead ?_
      rw [List.length_drop]
      omega
  | endMessages => exact read_endMessages h
  | sleep | beginHeartbeat | moreHeartbeat | sendHeartbeat | failHeartbeats =>
      exact ⟨h.found, h.bounded⟩
  | expire =>
      obtain ⟨w, h', heq, -⟩ := claimHeartbeats_eq s
      rw [heq]
      exact ⟨h.found, h.bounded⟩
  | beaten =>
      obtain ⟨w, m, h', heq, rfl | ⟨length, hm, rfl⟩, -⟩ := release_eq s .sendHeartbeats
      · rw [heq]
        exact ⟨h.found, h.bounded⟩
      · rw [heq]
        rw [hm] at hfound
        exact ⟨hfound, hlength⟩
  | endHeartbeats =>
      refine ⟨Messages.found_abort h.found, ?_⟩
      have hroom : s.messages.abort.room = 0 := by
        cases s.messages with
        | reading _ _ op => cases op <;> rfl
        | _ => rfl
      exact (congrArg (s.data.length + ·) hroom).trans_le hlength
  | @receive pos m n hm hn hnm hin =>
      have hbounded := h.bounded
      rw [hm] at hfound hbounded
      have hroom : s.data.length + m ≤ maxLineLength := hbounded
      match pos, m, hnm, hfound with
      | _, 0, hnm, _ => omega
      | some pos, m + 1, hnm, hfound =>
          refine ⟨⟨?_, ?_, ?_⟩, ?_⟩
          · rw [List.take_append_of_le_length hfound.2.1]
            exact hfound.1
          · rw [List.length_append]
            exact hfound.2.1.trans (Nat.le_add_right _ _)
          · intro h
            cases h
            exact absurd hn (Nat.lt_irrefl 0)
          · simp only [List.length_append, List.length_take, Messages.room]
            omega
  | failMessages hm =>
      obtain ⟨hfound, hroom⟩ := Messages.found_fail hm hfound
      exact ⟨hfound, (congrArg (s.data.length + ·) hroom).trans_le hlength⟩

theorem read_of_reachable (h : (machine false input).Reachable Machine.free s) : Read s := by
  refine h.invariant (I := Read) ⟨trivial, Nat.zero_le _⟩ ?_
  exact fun _ h _ hs => h.moved (moved_of_step hs)

/-! ### Messages -/

/-- A message to the client. -/
inductive Message
  /-- An echo of this line, here without its newline. -/
  | line (text : List UInt8)
  | heartbeat
  deriving Repr, DecidableEq

def Message.text : Message → List UInt8
  | .line text => lineHeader ++ text
  | .heartbeat => ascii "<heartbeat>"

/-- The bytes of a message. -/
def Message.frame (m : Message) : List UInt8 := m.text ++ [newline]

theorem frame_heartbeat : Message.heartbeat.frame = heartbeat := by decide

def Message.echo? : Message → Option (List UInt8)
  | .line text => some text
  | .heartbeat => none

/-- The lines that are echoed, without their newlines. -/
def echoes (ms : List Message) : List (List UInt8) := ms.filterMap Message.echo?

/-- The lines as the client has sent them. -/
def sentLines (ms : List Message) : List UInt8 := (echoes ms).flatMap (· ++ [newline])

theorem sentLines_append (ms : List Message) (text : List UInt8) :
    sentLines (ms ++ [.line text]) = sentLines ms ++ (text ++ [newline]) := by
  simp [sentLines, echoes, Message.echo?]

theorem sentLines_append_heartbeat (ms : List Message) :
    sentLines (ms ++ [.heartbeat]) = sentLines ms := by
  simp [sentLines, echoes, Message.echo?]

/-- A message that may be under way: if it echoes a line, that line is the first one of
`data`. -/
def Message.Next (data : List UInt8) : Message → Prop
  | .line text => newline ∉ text ∧ text.length < maxLineLength ∧ text ++ [newline] <+: data
  | .heartbeat => True

def Io.count : Io → Nat
  | .done n => n
  | .pending | .failed => 0

@[simp] theorem Io.count_done (n : Nat) : (Io.done n).count = n := rfl

@[simp] theorem Io.count_pending : Io.pending.count = 0 := rfl

theorem Io.count_abort (op : Io) : op.abort.count = op.count := by
  cases op <;> rfl

/-- `part` has been sent of the message of `handle_messages`. -/
def Messages.Sent (data : List UInt8) : Messages → List UInt8 → Prop
  | .header _ rest op, part =>
      ∃ before, before ++ rest = lineHeader ∧ part = before ++ rest.take op.count
  | .body length rest op, part =>
      ∃ before, before ++ rest = data.take length ∧
        part = lineHeader ++ (before ++ rest.take op.count)
  | _, part => part = []

/-- `part` has been sent of the message of `send_heartbeats`. -/
def Heartbeats.Sent : Heartbeats → List UInt8 → Prop
  | .writing rest op, part =>
      ∃ before, before ++ rest = heartbeat ∧ part = before ++ rest.take op.count
  | _, part => part = []

/-- The messages `ms` and a part of the next one have been sent. -/
structure Framed (input : List UInt8) (ms : List Message) (part : List UInt8) (s : State) :
    Prop where
  output : s.output = ms.flatMap Message.frame ++ part
  taken : sentLines ms ++ (s.data ++ s.incoming) = input
  lines : ∀ text ∈ echoes ms, newline ∉ text ∧ text.length < maxLineLength
  messages : s.messages.view = .holding → s.messages.Sent s.data part
  heartbeats : s.heartbeats.view = .holding → s.heartbeats.Sent part
  left : s.messages.view ≠ .holding → s.heartbeats.view ≠ .holding →
    part = [] ∨ Lock.Abandoned s.lock ∧ ∃ m : Message, part <+: m.frame ∧ m.Next s.data

variable {ms : List Message} {part : List UInt8}

theorem Message.Next.mono {data data' : List UInt8} {m : Message} (h : m.Next data)
    (hdata : data <+: data') : m.Next data' := by
  cases m with
  | line text => exact ⟨h.1, h.2.1, h.2.2.trans hdata⟩
  | heartbeat => trivial

theorem Message.Next.newline_notMem {data : List UInt8} {m : Message} (h : m.Next data) :
    newline ∉ m.text := by
  cases m with
  | line text =>
      rw [Message.text, List.mem_append, not_or]
      exact ⟨by decide, h.1⟩
  | heartbeat => decide

/-- The message that echoes a line of `data`. -/
theorem IsLine.next {data : List UInt8} {length : Nat} (h : IsLine (data.take length)) :
    ∃ text, data.take length = text ++ [newline] ∧ (Message.line text).Next data ∧
      (Message.line text).frame = lineHeader ++ data.take length := by
  obtain ⟨⟨text, htext, hmem⟩, hshort⟩ := h
  refine ⟨text, htext, ⟨hmem, ?_, ?_⟩, ?_⟩
  · rw [htext, List.length_append, List.length_singleton] at hshort
    omega
  · rw [← htext]
    exact List.take_prefix ..
  · rw [htext]
    exact List.append_assoc ..

/-- What has been sent of an echo is a part of it. -/
theorem Messages.Sent.next {data : List UInt8} {m : Messages} (h : m.Sent data part)
    (hview : m.view = .holding) (hfound : m.Found data) :
    ∃ m : Message, part <+: m.frame ∧ m.Next data := by
  cases m with
  | claimed length =>
      obtain rfl : part = [] := h
      exact ⟨.heartbeat, List.nil_prefix, trivial⟩
  | header length rest op =>
      obtain ⟨text, -, hnext, hframe⟩ := IsLine.next hfound
      obtain ⟨before, hbefore, rfl⟩ := h
      refine ⟨_, ?_, hnext⟩
      rw [hframe, ← hbefore, List.append_assoc, List.prefix_append_right_inj]
      exact (List.take_prefix ..).trans (List.prefix_append ..)
  | body length rest op =>
      obtain ⟨text, -, hnext, hframe⟩ := IsLine.next hfound
      obtain ⟨before, hbefore, rfl⟩ := h
      refine ⟨_, ?_, hnext⟩
      rw [hframe, ← hbefore, List.prefix_append_right_inj, List.prefix_append_right_inj]
      exact List.take_prefix ..
  | spawned | reading | claiming | cancelled | ended => cases hview

theorem Heartbeats.Sent.next {h : Heartbeats} (hs : h.Sent part) :
    part <+: Message.heartbeat.frame := by
  rw [frame_heartbeat]
  cases h with
  | writing rest op =>
      obtain ⟨before, hbefore, rfl⟩ := hs
      rw [← hbefore, List.prefix_append_right_inj]
      exact List.take_prefix ..
  | spawned | waiting | claiming | claimed | cancelled | ended =>
      obtain rfl : part = [] := hs
      exact List.nil_prefix

/-! ### Steps -/

theorem not_both_holding (hv : Lock.Valid s.lock) (hm : s.messages.view = .holding) :
    s.heartbeats.view ≠ .holding := by
  intro hh
  cases hv.exclusive .handleMessages .sendHeartbeats hm hh

/-- After a step that sends nothing: an actor that gets the lock has sent nothing of its
message, because the other one has just finished its own. -/
theorem Framed.keep (hf : Framed input ms part s) (hv : Lock.Valid s'.lock)
    (hab : Lock.Abandoned s.lock → Lock.Abandoned s'.lock) (hout : s'.output = s.output)
    (hdata : s'.data ++ s'.incoming = s.data ++ s.incoming) (hgrown : s.data <+: s'.data)
    (hm : s.messages.view = .holding →
      s'.messages.view = .holding ∧ (s.messages.Sent s.data part → s'.messages.Sent s'.data part))
    (hh : s.heartbeats.view = .holding →
      s'.heartbeats.view = .holding ∧ (s.heartbeats.Sent part → s'.heartbeats.Sent part))
    (hm' : s.messages.view ≠ .holding → s'.messages.view = .holding →
      s'.messages.Sent s'.data [])
    (hh' : s.heartbeats.view ≠ .holding → s'.heartbeats.view = .holding →
      s'.heartbeats.Sent []) : Framed input ms part s' := by
  have hfresh : ∀ i, s'.lock.views i = .holding → s.messages.view ≠ .holding →
      s.heartbeats.view ≠ .holding → part = [] := by
    intro i hi hm hh
    rcases hf.left hm hh with hnil | ⟨habandoned, -⟩
    · exact hnil
    · exact absurd hi ((hab habandoned).unheld i)
  refine ⟨hout.trans hf.output, by rw [hdata]; exact hf.taken, hf.lines, ?_, ?_, ?_⟩
  · intro hview
    by_cases hold : s.messages.view = .holding
    · exact (hm hold).2 (hf.messages hold)
    · have hother : s.heartbeats.view ≠ .holding :=
        fun h => not_both_holding hv hview (hh h).1
      rw [hfresh .handleMessages hview hold hother]
      exact hm' hold hview
  · intro hview
    by_cases hold : s.heartbeats.view = .holding
    · exact (hh hold).2 (hf.heartbeats hold)
    · have hother : s.messages.view ≠ .holding :=
        fun h => not_both_holding hv (hm h).1 hview
      rw [hfresh .sendHeartbeats hview hother hold]
      exact hh' hold hview
  · intro hmv hhv
    exact (hf.left (fun h => hmv (hm h).1) fun h => hhv (hh h).1).imp_right
      fun ⟨ha, m, hpart, hnext⟩ => ⟨hab ha, m, hpart, hnext.mono hgrown⟩

/-- After a step of `handle_messages` that sends nothing and keeps the lock as it is. -/
theorem Framed.keepMessages {m : Messages} (hf : Framed input ms part s)
    (hv : Lock.Valid s.lock) (hview : m.view = s.messages.view)
    (hsent : s.messages.Sent s.data part → m.Sent s.data part) :
    Framed input ms part { s with messages := m } := by
  have hlock : { s with messages := m }.lock = s.lock := lock_congr rfl hview rfl
  refine hf.keep (by rwa [hlock]) (by rw [hlock]; exact id) rfl rfl
    List.prefix_rfl ?_ ?_ ?_ ?_
  · exact fun h => ⟨hview.trans h, hsent⟩
  · exact fun h => ⟨h, id⟩
  · exact fun h h' => absurd (hview.symm.trans h') h
  · exact fun h h' => absurd h' h

theorem Framed.keepHeartbeats {h : Heartbeats} (hf : Framed input ms part s)
    (hv : Lock.Valid s.lock) (hview : h.view = s.heartbeats.view)
    (hsent : s.heartbeats.Sent part → h.Sent part) :
    Framed input ms part { s with heartbeats := h } := by
  have hlock : { s with heartbeats := h }.lock = s.lock := lock_congr rfl rfl hview
  refine hf.keep (by rwa [hlock]) (by rw [hlock]; exact id) rfl rfl
    List.prefix_rfl ?_ ?_ ?_ ?_
  · exact fun h => ⟨h, id⟩
  · exact fun h => ⟨hview.trans h, hsent⟩
  · exact fun h h' => absurd h' h
  · exact fun h h' => absurd (hview.symm.trans h') h

theorem startIo_count (s : State) : s.startIo.count = 0 := by
  unfold State.startIo
  split <;> rfl

/-- The next part of a write begins where the last one has ended. -/
theorem Messages.Sent.more {data : List UInt8} {length n : Nat} {rest : List UInt8} {op : Io}
    (hop : op.count = 0) :
    ((Messages.header length rest (.done n)).Sent data part →
        (Messages.header length (rest.drop n) op).Sent data part) ∧
      ((Messages.body length rest (.done n)).Sent data part →
        (Messages.body length (rest.drop n) op).Sent data part) := by
  constructor
  · rintro ⟨before, hbefore, rfl⟩
    exact ⟨before ++ rest.take n, by simp [hbefore], by simp [hop]⟩
  · rintro ⟨before, hbefore, rfl⟩
    exact ⟨before ++ rest.take n, by simp [hbefore], by simp [hop]⟩

theorem Heartbeats.Sent.more {n : Nat} {rest : List UInt8} {op : Io} (hop : op.count = 0)
    (h : (Heartbeats.writing rest (.done n)).Sent part) :
    (Heartbeats.writing (rest.drop n) op).Sent part := by
  obtain ⟨before, hbefore, rfl⟩ := h
  exact ⟨before ++ rest.take n, by simp [hbefore], by simp [hop]⟩

theorem Heartbeats.Sent.abort {h : Heartbeats} (hs : h.Sent part) : h.abort.Sent part := by
  cases h with
  | writing rest op =>
      obtain ⟨before, hbefore, rfl⟩ := hs
      exact ⟨before, hbefore, by rw [Io.count_abort]⟩
  | spawned | waiting | claiming | claimed | cancelled | ended => exact hs

theorem Messages.Sent.abort {data : List UInt8} {m : Messages} (hs : m.Sent data part) :
    m.abort.Sent data part := by
  cases m with
  | header length rest op | body length rest op =>
      obtain ⟨before, hbefore, rfl⟩ := hs
      exact ⟨before, hbefore, by rw [Io.count_abort]⟩
  | spawned | reading | claiming | claimed | cancelled | ended => exact hs

theorem Messages.Sent.fail {data : List UInt8} {m m' : Messages} (hf : m.fail = some m')
    (hs : m.Sent data part) : m'.Sent data part := by
  unfold Messages.fail at hf
  split at hf <;> cases hf <;> exact hs

theorem Heartbeats.Sent.fail {h h' : Heartbeats} (hf : h.fail = some h') (hs : h.Sent part) :
    h'.Sent part := by
  unfold Heartbeats.fail at hf
  split at hf <;> cases hf
  exact hs

theorem take_of_drop_eq_nil {rest : List UInt8} {n : Nat} (h : rest.drop n = []) :
    rest.take n = rest :=
  List.take_of_length_le (List.drop_eq_nil_iff.mp h)

theorem Framed.endMessages (hf : Framed input ms part s) (hv : Lock.Valid s.lock)
    (hr : Read s) (hm : Moved false s s.endMessages) :
    Framed input ms part s.endMessages := by
  have hview : s.endMessages.heartbeats.view = s.heartbeats.view.abort :=
    s.heartbeats.view_abort
  refine ⟨hf.output, hf.taken, hf.lines, (by intro h; cases h), ?_, ?_⟩
  · intro h
    rw [hview, Lock.View.abort_eq_holding] at h
    exact (hf.heartbeats h).abort
  · intro _ hh
    rw [hview, Ne, Lock.View.abort_eq_holding] at hh
    by_cases hold : s.messages.view = .holding
    · have hsent := (hf.messages hold).next hold hr.found
      refine .inr ⟨⟨hv.held .handleMessages hold, ?_⟩, hsent⟩
      rintro (_ | _) h
      · cases h
      · exact hh (Lock.View.abort_eq_holding.mp (hview.symm.trans h))
    · exact (hf.left hold hh).imp_right fun h => ⟨abandoned_of_moved hv h.1 hm, h.2⟩

theorem Framed.endHeartbeats (hf : Framed input ms part s) (hv : Lock.Valid s.lock)
    (hm : Moved false s s.endHeartbeats) : Framed input ms part s.endHeartbeats := by
  have hview : s.endHeartbeats.messages.view = s.messages.view.abort := s.messages.view_abort
  refine ⟨hf.output, hf.taken, hf.lines, ?_, (by intro h; cases h), ?_⟩
  · intro h
    rw [hview, Lock.View.abort_eq_holding] at h
    exact (hf.messages h).abort
  · intro hmv _
    rw [hview, Ne, Lock.View.abort_eq_holding] at hmv
    by_cases hold : s.heartbeats.view = .holding
    · have hsent := (hf.heartbeats hold).next
      refine .inr ⟨⟨hv.held .sendHeartbeats hold, ?_⟩, .heartbeat, hsent, trivial⟩
      rintro (_ | _) h
      · exact hmv (Lock.View.abort_eq_holding.mp (hview.symm.trans h))
      · cases h
    · exact (hf.left hmv hold).imp_right fun h => ⟨abandoned_of_moved hv h.1 hm, h.2⟩

/-- A claim: whoever gets the lock has sent nothing yet. -/
theorem Framed.claimMessages {length : Nat} (hf : Framed input ms part s)
    (hv : Lock.Valid s.lock) (hidle : s.messages.view = .idle) :
    Framed input ms part (s.claimMessages false length) := by
  have hlock := lock_claimMessages false length hidle
  have hv' := hv.step hlock
  have hab := fun h => Lock.abandoned_step hv h hlock
  obtain ⟨w, m, heq, hm⟩ := claimMessages_eq s length
  rw [heq] at hv' hab ⊢
  refine hf.keep hv' hab rfl rfl List.prefix_rfl ?_ ?_ ?_ ?_
  · intro h
    rw [hidle] at h
    cases h
  · exact fun h => ⟨h, id⟩
  · rintro - -
    rcases hm with rfl | rfl
    · exact rfl
    · exact rfl
  · exact fun h h' => absurd h' h

theorem Framed.claimHeartbeats (hf : Framed input ms part s) (hv : Lock.Valid s.lock)
    (hidle : s.heartbeats.view = .idle) :
    Framed input ms part (s.claimHeartbeats false) := by
  have hlock := lock_claimHeartbeats false hidle
  have hv' := hv.step hlock
  have hab := fun h => Lock.abandoned_step hv h hlock
  obtain ⟨w, h, heq, hh⟩ := claimHeartbeats_eq s
  rw [heq] at hv' hab ⊢
  refine hf.keep hv' hab rfl rfl List.prefix_rfl ?_ ?_ ?_ ?_
  · exact fun h => ⟨h, id⟩
  · intro h
    rw [hidle] at h
    cases h
  · exact fun h h' => absurd h' h
  · rintro - -
    rcases hh with rfl | rfl
    · exact rfl
    · exact rfl

theorem Framed.lines_append {m : Message} (hf : Framed input ms part s)
    (hnext : m.Next s.data) :
    ∀ text ∈ echoes (ms ++ [m]), newline ∉ text ∧ text.length < maxLineLength := by
  intro text htext
  simp only [echoes, List.filterMap_append, List.mem_append] at htext
  rcases htext with htext | htext
  · exact hf.lines text htext
  · cases m with
    | line t =>
        obtain rfl : text = t := by simpa [Message.echo?] using htext
        exact ⟨hnext.1, hnext.2.1⟩
    | heartbeat => simp [Message.echo?] at htext

/-- A message has been finished, and its actor has released the lock. -/
theorem framed_nil (hout : s.output = ms.flatMap Message.frame)
    (hin : sentLines ms ++ (s.data ++ s.incoming) = input)
    (hlines : ∀ text ∈ echoes ms, newline ∉ text ∧ text.length < maxLineLength)
    (hm : s.messages.view = .holding → s.messages.Sent s.data [])
    (hh : s.heartbeats.view = .holding → s.heartbeats.Sent []) : Framed input ms [] s :=
  ⟨hout.trans (List.append_nil _).symm, hin, hlines, hm, hh, fun _ _ => .inl rfl⟩

theorem Framed.echoed {length n spare : Nat} {rest : List UInt8} (hf : Framed input ms part s)
    (hv : Lock.Valid s.lock) (hr : Read s) (hm : s.messages = .body length rest (.done n))
    (hrest : rest.drop n = []) :
    ∃ ms', Framed input ms' []
      (({ s with data := s.data.drop length }.release .handleMessages).beginRead spare) := by
  have hview : s.messages.view = .holding := by rw [hm]; rfl
  have hfound := hr.found
  have hsent := hf.messages hview
  rw [hm] at hfound hsent
  obtain ⟨text, hl, hnext, hframe⟩ := IsLine.next hfound
  obtain ⟨before, hbefore, hpart⟩ := hsent
  have hwhole : part = (Message.line text).frame := by
    rw [hpart, hframe, Io.count_done, take_of_drop_eq_nil hrest, hbefore]
  have hdata : s.data ++ s.incoming =
      (text ++ [newline]) ++ (s.data.drop length ++ s.incoming) := by
    rw [← hl, ← List.append_assoc, List.take_append_drop]
  obtain ⟨w, m, h, heq, -, hh⟩ := release_eq { s with data := s.data.drop length } .handleMessages
  have hother := not_both_holding hv hview
  rw [heq]
  refine ⟨ms ++ [.line text], framed_nil ?_ ?_ (hf.lines_append hnext) ?_ ?_⟩
  · rw [List.flatMap_append, List.flatMap_singleton, ← hwhole, ← hf.output]
    unfold State.beginRead
    split <;> rfl
  · rw [sentLines_append, List.append_assoc]
    refine Eq.trans ?_ hf.taken
    rw [hdata]
    unfold State.beginRead
    split <;> rfl
  · intro h
    unfold State.beginRead at h
    split at h <;> cases h
  · have hheartbeats : (State.beginRead
        { s with data := s.data.drop length, writeLock := w, messages := m, heartbeats := h }
        spare).heartbeats = h := by
      unfold State.beginRead
      split <;> rfl
    rw [hheartbeats]
    rcases hh with rfl | ⟨-, rfl⟩
    · exact fun h => absurd h hother
    · exact fun _ => rfl

theorem Framed.beaten {n : Nat} {rest : List UInt8} (hf : Framed input ms part s)
    (hv : Lock.Valid s.lock) (hh : s.heartbeats = .writing rest (.done n))
    (hrest : rest.drop n = []) :
    Framed input (ms ++ [.heartbeat]) []
      { s.release .sendHeartbeats with heartbeats := .waiting } := by
  have hview : s.heartbeats.view = .holding := by rw [hh]; rfl
  have hsent := hf.heartbeats hview
  rw [hh] at hsent
  obtain ⟨before, hbefore, hpart⟩ := hsent
  have hwhole : part = Message.heartbeat.frame := by
    rw [hpart, frame_heartbeat, Io.count_done, take_of_drop_eq_nil hrest, hbefore]
  have hother : s.messages.view ≠ .holding := fun h => not_both_holding hv h hview
  obtain ⟨w, m, h, heq, hm, -⟩ := release_eq s .sendHeartbeats
  rw [heq]
  refine framed_nil ?_ ?_ (hf.lines_append (m := .heartbeat) trivial) ?_ (by intro h; cases h)
  · rw [List.flatMap_append, List.flatMap_singleton, ← hwhole]
    exact hf.output
  · rw [sentLines_append_heartbeat]
    exact hf.taken
  · rcases hm with rfl | ⟨length, -, rfl⟩
    · exact fun h => absurd h hother
    · exact fun _ => rfl

/-- Part of a message is sent. -/
theorem Framed.send {sent : List UInt8} {m : Messages} {h : Heartbeats}
    (hf : Framed input ms part s) (hm : s.messages.view = m.view)
    (hh : s.heartbeats.view = h.view)
    (hheld : s.messages.view = .holding ∨ s.heartbeats.view = .holding)
    (hmessages : m.view = .holding → s.messages.Sent s.data part →
      m.Sent s.data (part ++ sent))
    (hheartbeats : h.view = .holding → s.heartbeats.Sent part → h.Sent (part ++ sent)) :
    Framed input ms (part ++ sent)
      { s with messages := m, heartbeats := h, output := s.output ++ sent } := by
  refine ⟨?_, hf.taken, hf.lines, ?_, ?_, ?_⟩
  · rw [hf.output, List.append_assoc]
  · exact fun hview => hmessages hview (hf.messages (hm.trans hview))
  · exact fun hview => hheartbeats hview (hf.heartbeats (hh.trans hview))
  · intro hm' hh'
    rcases hheld with h | h
    · exact absurd (hm.symm.trans h) hm'
    · exact absurd (hh.symm.trans h) hh'

theorem Framed.moved (hf : Framed input ms part s) (hv : Lock.Valid s.lock) (hr : Read s)
    (h : Moved false s s') : ∃ ms' part', Framed input ms' part' s' := by
  cases id h with
  | @startRead spare hm =>
      refine ⟨ms, part, ?_⟩
      unfold State.beginRead
      split
      all_goals
        refine hf.keepMessages hv (by rw [hm]; rfl) fun hs => ?_
        rw [hm] at hs
        exact hs
  | @readOn pos m n spare hm =>
      refine ⟨ms, part, ?_⟩
      rcases continueRead_cases false s spare pos n with heq | ⟨length, heq⟩ | ⟨pos', k, heq⟩
      · rw [heq] at h ⊢
        exact hf.endMessages hv hr h
      · rw [heq]
        exact hf.claimMessages hv (by rw [hm]; rfl)
      · rw [heq]
        refine hf.keepMessages hv (by rw [hm]; rfl) fun hs => ?_
        rw [hm] at hs
        exact hs
  | beginHeader hm =>
      refine ⟨ms, part, hf.keepMessages hv (by rw [hm]; rfl) fun hs => ?_⟩
      rw [hm] at hs
      obtain rfl : part = [] := hs
      exact ⟨[], rfl, by simp [startIo_count]⟩
  | moreHeader hm =>
      refine ⟨ms, part, hf.keepMessages hv (by rw [hm]; rfl) fun hs => ?_⟩
      rw [hm] at hs
      exact (Messages.Sent.more (startIo_count s)).1 hs
  | beginBody hm hrest =>
      refine ⟨ms, part, hf.keepMessages hv (by rw [hm]; rfl) fun hs => ?_⟩
      rw [hm] at hs
      obtain ⟨before, hbefore, rfl⟩ := hs
      refine ⟨[], rfl, ?_⟩
      rw [Io.count_done, take_of_drop_eq_nil hrest, hbefore]
      simp [startIo_count]
  | moreBody hm =>
      refine ⟨ms, part, hf.keepMessages hv (by rw [hm]; rfl) fun hs => ?_⟩
      rw [hm] at hs
      exact (Messages.Sent.more (startIo_count s)).2 hs
  | echoed hm hrest =>
      obtain ⟨ms', hframed⟩ := hf.echoed hv hr hm hrest
      exact ⟨ms', [], hframed⟩
  | endMessages => exact ⟨ms, part, hf.endMessages hv hr h⟩
  | sleep hh =>
      refine ⟨ms, part, hf.keepHeartbeats hv (by rw [hh]; rfl) fun hs => ?_⟩
      rw [hh] at hs
      exact hs
  | expire hh => exact ⟨ms, part, hf.claimHeartbeats hv (by rw [hh]; rfl)⟩
  | beginHeartbeat hh =>
      refine ⟨ms, part, hf.keepHeartbeats hv (by rw [hh]; rfl) fun hs => ?_⟩
      rw [hh] at hs
      obtain rfl : part = [] := hs
      exact ⟨[], rfl, by simp [startIo_count]⟩
  | moreHeartbeat hh =>
      refine ⟨ms, part, hf.keepHeartbeats hv (by rw [hh]; rfl) fun hs => ?_⟩
      rw [hh] at hs
      exact hs.more (startIo_count s)
  | beaten hh hrest => exact ⟨_, [], hf.beaten hv hh hrest⟩
  | endHeartbeats => exact ⟨ms, part, hf.endHeartbeats hv h⟩
  | @receive pos m n hm =>
      refine ⟨ms, part, hf.keep (valid_of_moved hv h) (fun ha => abandoned_of_moved hv ha h) rfl
        ?_ (List.prefix_append ..) ?_ ?_ ?_ ?_⟩
      · simp
      · intro hview
        rw [hm] at hview
        cases hview
      · exact fun h => ⟨h, id⟩
      · rintro - ⟨⟩
      · exact fun h h' => absurd h' h
  | @sendHeader length rest n hm =>
      refine ⟨ms, part ++ rest.take n, hf.send (by rw [hm]; rfl) rfl (.inl (by rw [hm]; rfl))
        (fun _ hs => ?_) fun hview => ?_⟩
      · rw [hm] at hs
        obtain ⟨before, hbefore, rfl⟩ := hs
        exact ⟨before, hbefore, by simp⟩
      · exact absurd hview (not_both_holding hv (by rw [hm]; rfl))
  | @sendBody length rest n hm =>
      refine ⟨ms, part ++ rest.take n, hf.send (by rw [hm]; rfl) rfl (.inl (by rw [hm]; rfl))
        (fun _ hs => ?_) fun hview => ?_⟩
      · rw [hm] at hs
        obtain ⟨before, hbefore, rfl⟩ := hs
        exact ⟨before, hbefore, by simp⟩
      · exact absurd hview (not_both_holding hv (by rw [hm]; rfl))
  | @sendHeartbeat rest n hh =>
      refine ⟨ms, part ++ rest.take n, hf.send rfl (by rw [hh]; rfl) (.inr (by rw [hh]; rfl))
        (fun hview => ?_) fun _ hs => ?_⟩
      · exact absurd (by rw [hh]; rfl) (not_both_holding hv hview)
      · rw [hh] at hs
        obtain ⟨before, hbefore, rfl⟩ := hs
        exact ⟨before, hbefore, by simp⟩
  | failMessages hm =>
      exact ⟨ms, part, hf.keepMessages hv (Messages.view_fail hm) (Messages.Sent.fail hm)⟩
  | failHeartbeats hh =>
      exact ⟨ms, part, hf.keepHeartbeats hv (Heartbeats.view_fail hh) (Heartbeats.Sent.fail hh)⟩

theorem framed_of_reachable (h : (machine false input).Reachable Machine.free s) :
    ∃ ms part, Framed input ms part s := by
  refine h.invariant (I := fun s => ∃ ms part, Framed input ms part s) ?_ ?_
  · exact ⟨[], [], framed_nil rfl rfl (by simp [echoes]) (by intro h; cases h)
      (by intro h; cases h)⟩
  · rintro s a s' hs ⟨ms, part, hf⟩ - hstep
    exact hf.moved (valid_lock hs) (read_of_reachable hs) (moved_of_step hstep)

/-! ### The client -/

/-- Whole messages, and a part of one. -/
theorem Framed.next (hf : Framed input ms part s) (hr : Read s) :
    ∃ m : Message, part <+: m.frame ∧ m.Next s.data := by
  by_cases hm : s.messages.view = .holding
  · exact (hf.messages hm).next hm hr.found
  · by_cases hh : s.heartbeats.view = .holding
    · exact ⟨.heartbeat, (hf.heartbeats hh).next, trivial⟩
    · rcases hf.left hm hh with rfl | ⟨-, hleft⟩
      · exact ⟨.heartbeat, List.nil_prefix, trivial⟩
      · exact hleft

/-- A message that has been sent whole counts as sent, released or not. -/
theorem Framed.settled (hf : Framed input ms part s) (hr : Read s) :
    ∃ ms' part' rest, s.output = ms'.flatMap Message.frame ++ part' ∧ newline ∉ part' ∧
      sentLines ms' ++ (rest ++ s.incoming) = input ∧ rest.length ≤ maxLineLength ∧
      ∀ text ∈ echoes ms', newline ∉ text ∧ text.length < maxLineLength := by
  have hlength : s.data.length ≤ maxLineLength := (Nat.le_add_right _ _).trans hr.bounded
  obtain ⟨m, hpart, hnext⟩ := hf.next hr
  rcases List.prefix_concat_iff.mp hpart with rfl | hpart
  · have hout : s.output = (ms ++ [m]).flatMap Message.frame ++ [] := by
      simpa [Message.frame] using hf.output
    cases m with
    | line text =>
        obtain ⟨-, -, rest, hdata⟩ := id hnext
        refine ⟨_, [], rest, hout, by simp, ?_, ?_, hf.lines_append hnext⟩
        · rw [sentLines_append, List.append_assoc, ← List.append_assoc _ rest, hdata]
          exact hf.taken
        · rw [← hdata, List.length_append] at hlength
          omega
    | heartbeat =>
        refine ⟨_, [], s.data, hout, by simp, ?_, hlength, hf.lines_append hnext⟩
        rw [sentLines_append_heartbeat]
        exact hf.taken
  · exact ⟨ms, part, s.data, hf.output, fun h => hnext.newline_notMem (hpart.subset h),
      hf.taken, hlength, hf.lines⟩

theorem Message.newline_notMem_text {m : Message}
    (h : ∀ text, m = .line text → newline ∉ text) : newline ∉ m.text := by
  cases m with
  | line text =>
      rw [Message.text, List.mem_append, not_or]
      exact ⟨by decide, h text rfl⟩
  | heartbeat => decide

theorem completeLines_frames (h : ∀ text ∈ echoes ms, newline ∉ text)
    (hpart : newline ∉ part) :
    completeLines newline (ms.flatMap Message.frame ++ part) = ms.map Message.text := by
  have hmap : ms.flatMap Message.frame = (ms.map Message.text).flatMap (· ++ [newline]) := by
    rw [List.flatMap_map]
    rfl
  rw [hmap, completeLines_flatMap, completeLines_of_not_mem hpart, List.append_nil]
  intro line hline
  obtain ⟨m, hm, rfl⟩ := List.mem_map.mp hline
  refine Message.newline_notMem_text ?_
  rintro text rfl
  exact h text (List.mem_filterMap.mpr ⟨_, hm, rfl⟩)

/-- Whatever the actors and the network do: the lines that the client has got so far are
heartbeats and echoes, and the echoes are its own first lines, each once and in order. What the
session has read beyond these lines fits into `data`. -/
theorem completeLines_output (tryFirst : Bool) (input : List UInt8) (s : State)
    (h : (machine tryFirst input).Reachable Machine.free s) :
    ∃ ms rest, completeLines newline s.output = ms.map Message.text ∧
      echoes ms <+: completeLines newline input ∧
      sentLines ms ++ (rest ++ s.incoming) = input ∧ rest.length ≤ maxLineLength ∧
      ∀ text ∈ echoes ms, text.length < maxLineLength := by
  have hplain := reachable_plain h
  obtain ⟨ms, part, hf⟩ := framed_of_reachable hplain
  obtain ⟨ms, part, rest, hout, hpart, hinput, hrest, hlines⟩ :=
    hf.settled (read_of_reachable hplain)
  have hnewline : ∀ text ∈ echoes ms, newline ∉ text := fun text ht => (hlines text ht).1
  refine ⟨ms, rest, ?_, ?_, hinput, hrest, fun text ht => (hlines text ht).2⟩
  · rw [hout, completeLines_frames hnewline hpart]
  · rw [← hinput, sentLines, completeLines_flatMap hnewline]
    exact List.prefix_append ..

/-- A heartbeat, and a part of an echo. -/
theorem completeLines_output_heartbeat :
    ∃ s : State, s.output = heartbeat ++ lineHeader ++ [97] ∧
      ∃ ms rest, completeLines newline s.output = ms.map Message.text ∧
        sentLines ms ++ (rest ++ s.incoming) = [97, 10] := by
  obtain ⟨s, hs, hp⟩ := Machine.reachable_of_exec (M := machine true [97, 10])
    (l := [.resume .handleMessages 0, .resume .sendHeartbeats 0, .transfer .handleMessages 2,
      .resume .sendHeartbeats 0, .resume .handleMessages 0, .transfer .sendHeartbeats 12,
      .resume .sendHeartbeats 0, .resume .handleMessages 0, .transfer .handleMessages 6,
      .resume .handleMessages 0, .transfer .handleMessages 1])
    (p := fun s => decide (s.output = heartbeat ++ lineHeader ++ [97])) (by decide)
  obtain ⟨ms, rest, hlines, -, hinput, -⟩ := completeLines_output _ _ s hs
  exact ⟨s, by simpa using hp, ms, rest, hlines, hinput⟩

end CppCode.EchoSession
