import CppCode.EchoSession.Lock

/-!
# CppCode.EchoSession.Shortcut

The `try_send` of `013.mutual_exclusion_1` against the plain `async_send` of `005.multithread`.
With the shortcut, an actor that finds the lock free starts its write at once, where the plain
one is suspended between the claim and the write. That suspension cannot be observed: nobody can
do anything with the socket or the lock in it that would make a difference for the write
(`Ahead`). So the sessions can send the same bytes after having read the same bytes.
-/

namespace CppCode.EchoSession

open Concurrency

variable {s s' : State} {tryFirst : Bool}

/-- Every move is one of an action. -/
theorem step_of_moved (h : Moved tryFirst s s') : ∃ a, step tryFirst s a = some s' := by
  cases h with
  | @startRead spare hm =>
      exact ⟨.resume .handleMessages spare, by simp only [step, State.resumeMessages, hm]⟩
  | @readOn pos m n spare hm =>
      exact ⟨.resume .handleMessages spare, by simp only [step, State.resumeMessages, hm]⟩
  | beginHeader hm =>
      exact ⟨.resume .handleMessages 0, by simp only [step, State.resumeMessages, hm]⟩
  | @moreHeader length rest n hm hrest | @moreBody length rest n hm hrest =>
      obtain ⟨b, more, hmore⟩ := List.exists_cons_of_ne_nil hrest
      exact ⟨.resume .handleMessages 0, by simp only [step, State.resumeMessages, hm, hmore]⟩
  | beginBody hm hrest =>
      exact ⟨.resume .handleMessages 0, by simp only [step, State.resumeMessages, hm, hrest]⟩
  | @echoed length rest n spare hm hrest =>
      exact ⟨.resume .handleMessages spare, by simp only [step, State.resumeMessages, hm, hrest]⟩
  | endMessages hm =>
      refine ⟨.resume .handleMessages 0, ?_⟩
      simp only [step, State.resumeMessages]
      cases hmessages : s.messages with
      | reading _ _ op | header _ _ op | body _ _ op =>
          rw [hmessages] at hm
          cases op <;> first | rfl | exact hm.elim
      | cancelled => rfl
      | spawned | claiming | claimed | ended =>
          rw [hmessages] at hm
          exact hm.elim
  | sleep hh | expire hh | beginHeartbeat hh =>
      exact ⟨.resume .sendHeartbeats 0, by simp only [step, State.resumeHeartbeats, hh]⟩
  | @moreHeartbeat rest n hh hrest =>
      obtain ⟨b, more, hmore⟩ := List.exists_cons_of_ne_nil hrest
      exact ⟨.resume .sendHeartbeats 0, by simp only [step, State.resumeHeartbeats, hh, hmore]⟩
  | beaten hh hrest =>
      exact ⟨.resume .sendHeartbeats 0, by simp only [step, State.resumeHeartbeats, hh, hrest]⟩
  | endHeartbeats hh =>
      refine ⟨.resume .sendHeartbeats 0, ?_⟩
      simp only [step, State.resumeHeartbeats]
      cases hheartbeats : s.heartbeats with
      | writing _ op =>
          rw [hheartbeats] at hh
          cases op <;> first | rfl | exact hh.elim
      | cancelled => rfl
      | spawned | waiting | claiming | claimed | ended =>
          rw [hheartbeats] at hh
          exact hh.elim
  | @receive pos m n hm hn hle hin =>
      exact ⟨.transfer .handleMessages n, by
        simp only [step, State.transferMessages, hm, hn, hle, hin, and_self, if_true]⟩
  | @sendHeader length rest n hm hn hle | @sendBody length rest n hm hn hle =>
      exact ⟨.transfer .handleMessages n, by
        simp only [step, State.transferMessages, hm, hn, hle, and_self, if_true]⟩
  | @sendHeartbeat rest n hh hn hle =>
      exact ⟨.transfer .sendHeartbeats n, by
        simp only [step, State.transferHeartbeats, hh, hn, hle, and_self, if_true]⟩
  | failMessages hm => exact ⟨.fail .handleMessages, by simp only [step, hm, Option.map_some]⟩
  | failHeartbeats hh => exact ⟨.fail .sendHeartbeats, by simp only [step, hh, Option.map_some]⟩

/-- The same place, or the write that follows a claim. -/
def Messages.Ahead (io : Io) (m m' : Messages) : Prop :=
  m' = m ∨ ∃ length, m = .claimed length ∧ m' = .header length lineHeader io

def Heartbeats.Ahead (io : Io) (h h' : Heartbeats) : Prop :=
  h' = h ∨ h = .claimed ∧ h' = .writing heartbeat io

/-- The session with its actors at other places. -/
def State.at (s : State) (m : Messages) (h : Heartbeats) : State :=
  { s with messages := m, heartbeats := h }

variable {m : Messages} {h : Heartbeats}

theorem Messages.Ahead.eq {io : Io} {m₀ : Messages} (hm : m₀.Ahead io m)
    (hne : ∀ length, m₀ ≠ .claimed length) : m = m₀ := by
  rcases hm with rfl | ⟨length, hm, -⟩
  · rfl
  · exact absurd hm (hne length)

theorem Heartbeats.Ahead.eq {io : Io} {h₀ : Heartbeats} (hh : h₀.Ahead io h)
    (hne : h₀ ≠ .claimed) : h = h₀ := by
  rcases hh with rfl | ⟨hh, -⟩
  · rfl
  · exact absurd hh hne

/-- Closing the socket fails a write that has just been started. -/
theorem Messages.Ahead.abort {io : Io} {m₀ : Messages} (hm : m₀.Ahead io m)
    (hio : io.abort = .failed) : m₀.abort.Ahead .failed m.abort := by
  rcases hm with rfl | ⟨length, rfl, rfl⟩
  · exact .inl rfl
  · exact .inr ⟨length, rfl, by rw [Messages.abort, hio]⟩

theorem Heartbeats.Ahead.abort {io : Io} {h₀ : Heartbeats} (hh : h₀.Ahead io h)
    (hio : io.abort = .failed) : h₀.abort.Ahead .failed h.abort := by
  rcases hh with rfl | ⟨rfl, rfl⟩
  · exact .inl rfl
  · exact .inr ⟨rfl, by rw [Heartbeats.abort, hio]⟩

theorem startIo_abort (s : State) : s.startIo.abort = .failed := by
  unfold State.startIo
  split <;> rfl

theorem grant_messages_of_ne (h : ∀ length, s.messages ≠ .claiming length) :
    s.grant .handleMessages = s := by
  simp only [State.grant]

theorem grant_heartbeats_of_ne (h : s.heartbeats ≠ .claiming) :
    s.grant .sendHeartbeats = s := by
  simp only [State.grant]

/-- Granting the lock does the same to an actor that is ahead: that one does not wait. -/
theorem at_grant (hm : s.messages.Ahead s.startIo m) (hh : s.heartbeats.Ahead s.startIo h)
    (i : Actor) :
    ∃ m' h', (s.at m h).grant i = (s.grant i).at m' h' ∧
      (s.grant i).messages.Ahead (s.grant i).startIo m' ∧
      (s.grant i).heartbeats.Ahead (s.grant i).startIo h' := by
  cases i with
  | handleMessages =>
      by_cases hc : ∃ length, s.messages = .claiming length
      · obtain ⟨length, hc⟩ := hc
        obtain rfl := hm.eq (by simp [hc])
        refine ⟨.claimed length, h, ?_, ?_, ?_⟩ <;> simp only [State.grant, State.at, hc]
        · exact .inl rfl
        · exact hh
      · have hne : ∀ length, s.messages ≠ .claiming length := fun length hl => hc ⟨length, hl⟩
        have hne' : ∀ length, m ≠ .claiming length := by
          rintro length rfl
          rcases hm with hm | ⟨_, -, hm⟩
          · exact hne length hm.symm
          · cases hm
        rw [grant_messages_of_ne hne, grant_messages_of_ne (s := s.at m h) hne']
        exact ⟨m, h, rfl, hm, hh⟩
  | sendHeartbeats =>
      by_cases hc : s.heartbeats = .claiming
      · obtain rfl := hh.eq (by simp [hc])
        refine ⟨m, .claimed, ?_, ?_, ?_⟩ <;> simp only [State.grant, State.at, hc]
        · exact hm
        · exact .inl rfl
      · have hne' : h ≠ .claiming := by
          rintro rfl
          rcases hh with hh | ⟨-, hh⟩
          · exact hc hh.symm
          · cases hh
        rw [grant_heartbeats_of_ne hc, grant_heartbeats_of_ne (s := s.at m h) hne']
        exact ⟨m, h, rfl, hm, hh⟩

theorem at_release (hm : s.messages.Ahead s.startIo m) (hh : s.heartbeats.Ahead s.startIo h)
    (i : Actor) :
    ∃ m' h', (s.at m h).release i = (s.release i).at m' h' ∧
      (s.release i).messages.Ahead (s.release i).startIo m' ∧
      (s.release i).heartbeats.Ahead (s.release i).startIo h' := by
  have hlock : (s.at m h).writeLock = s.writeLock := rfl
  simp only [State.release, hlock]
  cases s.writeLock.tryReceive i with
  | none => exact ⟨m, h, rfl, hm, hh⟩
  | some o =>
      cases hsent : o.sent with
      | none =>
          simp only [hsent]
          exact ⟨m, h, rfl, hm, hh⟩
      | some x =>
          simp only [hsent]
          exact at_grant (s := { s with writeLock := o.channel }) hm hh x.1

theorem at_beginRead (s : State) (m : Messages) (h : Heartbeats) (spare : Nat) :
    (s.at m h).beginRead spare = (s.beginRead spare).at (s.beginRead spare).messages h := by
  unfold State.beginRead
  have hdata : (s.at m h).data = s.data := rfl
  rw [hdata]
  split <;> rfl

theorem startIo_beginRead (s : State) (spare : Nat) :
    (s.beginRead spare).startIo = s.startIo ∧ (s.beginRead spare).heartbeats = s.heartbeats := by
  unfold State.beginRead
  split <;> exact ⟨rfl, rfl⟩

/-- A claim with the shortcut is ahead of the plain one if it succeeds at once. -/
theorem at_claimMessages (s : State) (m : Messages) (h : Heartbeats) (length : Nat) :
    ∃ m', (s.at m h).claimMessages true length = (s.claimMessages false length).at m' h ∧
      (s.claimMessages false length).messages.Ahead s.startIo m' := by
  rcases claimMessages_plain true (s.at m h) length with heq | ⟨hclaimed, heq⟩
  · exact ⟨_, heq, .inl rfl⟩
  · exact ⟨_, heq, .inr ⟨length, hclaimed, rfl⟩⟩

theorem at_claimHeartbeats (s : State) (m : Messages) (h : Heartbeats) :
    ∃ h', (s.at m h).claimHeartbeats true = (s.claimHeartbeats false).at m h' ∧
      (s.claimHeartbeats false).heartbeats.Ahead s.startIo h' := by
  rcases claimHeartbeats_plain true (s.at m h) with heq | ⟨hclaimed, heq⟩
  · exact ⟨_, heq, .inl rfl⟩
  · exact ⟨_, heq, .inr ⟨hclaimed, rfl⟩⟩

theorem startIo_claimMessages (s : State) (length : Nat) :
    (s.claimMessages false length).startIo = s.startIo ∧
      (s.claimMessages false length).heartbeats = s.heartbeats := by
  obtain ⟨w, m, heq, -⟩ := claimMessages_eq s length
  rw [heq]
  exact ⟨rfl, rfl⟩

theorem startIo_claimHeartbeats (s : State) :
    (s.claimHeartbeats false).startIo = s.startIo ∧
      (s.claimHeartbeats false).messages = s.messages := by
  obtain ⟨w, h, heq, -⟩ := claimHeartbeats_eq s
  rw [heq]
  exact ⟨rfl, rfl⟩

theorem at_continueRead (hh : s.heartbeats.Ahead s.startIo h) (m : Messages) (spare : Nat)
    (pos : Option Nat) (n : Nat) :
    ∃ m' h', (s.at m h).continueRead true spare pos n =
        (s.continueRead false spare pos n).at m' h' ∧
      (s.continueRead false spare pos n).messages.Ahead
        (s.continueRead false spare pos n).startIo m' ∧
      (s.continueRead false spare pos n).heartbeats.Ahead
        (s.continueRead false spare pos n).startIo h' := by
  have hclaim : ∀ length, ∃ m' h', (s.at m h).claimMessages true length =
      (s.claimMessages false length).at m' h' ∧
      (s.claimMessages false length).messages.Ahead (s.claimMessages false length).startIo m' ∧
      (s.claimMessages false length).heartbeats.Ahead
        (s.claimMessages false length).startIo h' := by
    intro length
    obtain ⟨m', heq, hm'⟩ := at_claimMessages s m h length
    obtain ⟨hio, hheartbeats⟩ := startIo_claimMessages s length
    rw [hio, hheartbeats]
    exact ⟨m', h, heq, hm', hh⟩
  have hend : ∃ m' h', (s.at m h).endMessages = s.endMessages.at m' h' ∧
      s.endMessages.messages.Ahead s.endMessages.startIo m' ∧
      s.endMessages.heartbeats.Ahead s.endMessages.startIo h' :=
    ⟨.ended, h.abort, rfl, .inl rfl, hh.abort (startIo_abort s)⟩
  have hdata : (s.at m h).data = s.data := rfl
  match pos, n with
  | none, _ => exact hend
  | some pos, 0 => exact hclaim pos
  | some pos, n + 1 =>
      simp only [State.continueRead, hdata]
      split
      · exact hend
      case h_2 pos' _ => exact hclaim pos'
      · exact ⟨_, h, rfl, .inl rfl, hh⟩

/-- What the plain session does, the one with the shortcut does or has done. -/
theorem ahead_moved (hm : s.messages.Ahead s.startIo m) (hh : s.heartbeats.Ahead s.startIo h)
    (hmoved : Moved false s s') :
    ∃ m' h', (s'.at m' h' = s.at m h ∨ Moved true (s.at m h) (s'.at m' h')) ∧
      s'.messages.Ahead s'.startIo m' ∧ s'.heartbeats.Ahead s'.startIo h' := by
  cases hmoved with
  | @startRead spare hmes =>
      obtain rfl := hm.eq (by simp [hmes])
      refine ⟨_, h, .inr ?_, .inl rfl, ?_⟩
      · rw [← at_beginRead s s.messages]
        exact .startRead hmes
      · rw [(startIo_beginRead s spare).1, (startIo_beginRead s spare).2]
        exact hh
  | @readOn pos k n spare hmes =>
      obtain rfl := hm.eq (by simp [hmes])
      obtain ⟨m', h', heq, hm', hh'⟩ := at_continueRead hh s.messages spare pos n
      refine ⟨m', h', .inr ?_, hm', hh'⟩
      rw [← heq]
      exact .readOn (s := s.at s.messages h) hmes
  | @beginHeader length hmes =>
      rcases hm with rfl | ⟨_, hm, rfl⟩
      · exact ⟨_, h, .inr (.beginHeader hmes), .inl rfl, hh⟩
      · rw [hmes] at hm
        cases hm
        exact ⟨_, h, .inl rfl, .inl rfl, hh⟩
  | moreHeader hmes hrest =>
      obtain rfl := hm.eq (by simp [hmes])
      exact ⟨_, h, .inr (.moreHeader hmes hrest), .inl rfl, hh⟩
  | beginBody hmes hrest =>
      obtain rfl := hm.eq (by simp [hmes])
      exact ⟨_, h, .inr (.beginBody hmes hrest), .inl rfl, hh⟩
  | moreBody hmes hrest =>
      obtain rfl := hm.eq (by simp [hmes])
      exact ⟨_, h, .inr (.moreBody hmes hrest), .inl rfl, hh⟩
  | @echoed length rest n spare hmes hrest =>
      obtain rfl := hm.eq (by simp [hmes])
      obtain ⟨m', h', heq, -, hh'⟩ :=
        at_release (s := { s with data := s.data.drop length }) (.inl rfl) hh .handleMessages
      refine ⟨_, h', .inr ?_, .inl rfl, ?_⟩
      · rw [← at_beginRead _ m', ← heq]
        exact .echoed (s := s.at s.messages h) hmes hrest
      · rw [(startIo_beginRead _ spare).1, (startIo_beginRead _ spare).2]
        exact hh'
  | endMessages hmes =>
      have hne : ∀ length, s.messages ≠ .claimed length := by
        intro length hc
        rw [hc] at hmes
        exact hmes
      obtain rfl := hm.eq hne
      exact ⟨.ended, h.abort, .inr (.endMessages hmes), .inl rfl, hh.abort (startIo_abort s)⟩
  | sleep hhb =>
      obtain rfl := hh.eq (by simp [hhb])
      exact ⟨m, _, .inr (.sleep hhb), hm, .inl rfl⟩
  | expire hhb =>
      obtain rfl := hh.eq (by simp [hhb])
      obtain ⟨h', heq, hh'⟩ := at_claimHeartbeats s m s.heartbeats
      obtain ⟨hio, hmessages⟩ := startIo_claimHeartbeats s
      refine ⟨m, h', .inr ?_, ?_, ?_⟩
      · rw [← heq]
        exact .expire (s := s.at m s.heartbeats) hhb
      · rw [hio, hmessages]
        exact hm
      · rw [hio]
        exact hh'
  | beginHeartbeat hhb =>
      rcases hh with rfl | ⟨-, rfl⟩
      · exact ⟨m, _, .inr (.beginHeartbeat hhb), hm, .inl rfl⟩
      · exact ⟨m, _, .inl rfl, hm, .inl rfl⟩
  | moreHeartbeat hhb hrest =>
      obtain rfl := hh.eq (by simp [hhb])
      exact ⟨m, _, .inr (.moreHeartbeat hhb hrest), hm, .inl rfl⟩
  | beaten hhb hrest =>
      obtain rfl := hh.eq (by simp [hhb])
      obtain ⟨m', h', heq, hm', -⟩ := at_release hm (.inl rfl) .sendHeartbeats
      refine ⟨m', .waiting, .inr ?_, hm', .inl rfl⟩
      have hbeaten : Moved true (s.at m s.heartbeats)
          { (s.at m s.heartbeats).release .sendHeartbeats with heartbeats := .waiting } :=
        .beaten hhb hrest
      rw [heq] at hbeaten
      exact hbeaten
  | endHeartbeats hhb =>
      have hne : s.heartbeats ≠ .claimed := by
        intro hc
        rw [hc] at hhb
        exact hhb
      obtain rfl := hh.eq hne
      exact ⟨m.abort, .ended, .inr (.endHeartbeats hhb), hm.abort (startIo_abort s), .inl rfl⟩
  | receive hmes hn hle hin =>
      obtain rfl := hm.eq (by simp [hmes])
      exact ⟨_, h, .inr (.receive hmes hn hle hin), .inl rfl, hh⟩
  | sendHeader hmes hn hle =>
      obtain rfl := hm.eq (by simp [hmes])
      exact ⟨_, h, .inr (.sendHeader hmes hn hle), .inl rfl, hh⟩
  | sendBody hmes hn hle =>
      obtain rfl := hm.eq (by simp [hmes])
      exact ⟨_, h, .inr (.sendBody hmes hn hle), .inl rfl, hh⟩
  | sendHeartbeat hhb hn hle =>
      obtain rfl := hh.eq (by simp [hhb])
      exact ⟨m, _, .inr (.sendHeartbeat hhb hn hle), hm, .inl rfl⟩
  | failMessages hf =>
      obtain rfl := hm.eq (by rintro length hc; rw [hc] at hf; cases hf)
      exact ⟨_, h, .inr (.failMessages hf), .inl rfl, hh⟩
  | failHeartbeats hf =>
      obtain rfl := hh.eq (by rintro hc; rw [hc] at hf; cases hf)
      exact ⟨m, _, .inr (.failHeartbeats hf), hm, .inl rfl⟩

/-- What the session has in common with the outside: the socket, what it has read and not
echoed, what it has not read, and what it has sent. -/
def State.seen (s : State) : Bool × List UInt8 × List UInt8 × List UInt8 :=
  (s.isOpen, s.data, s.incoming, s.output)

theorem reachable_ahead {input : List UInt8}
    (h : (machine false input).Reachable Machine.free s) :
    ∃ m h, (machine true input).Reachable Machine.free (s.at m h) ∧
      s.messages.Ahead s.startIo m ∧ s.heartbeats.Ahead s.startIo h := by
  refine h.invariant (I := fun s => ∃ m h,
    (machine true input).Reachable Machine.free (s.at m h) ∧
      s.messages.Ahead s.startIo m ∧ s.heartbeats.Ahead s.startIo h) ?_ ?_
  · exact ⟨_, _, Machine.Reachable.init, .inl rfl, .inl rfl⟩
  · rintro s a s' - ⟨m, h, hreach, hm, hh⟩ - hstep
    obtain ⟨m', h', hsame | hmoved, hm', hh'⟩ := ahead_moved hm hh (moved_of_step hstep)
    · exact ⟨m', h', hsame ▸ hreach, hm', hh'⟩
    · obtain ⟨b, hb⟩ := step_of_moved hmoved
      exact ⟨m', h', hreach.step (a := b) trivial hb, hm', hh'⟩

/-- The shortcut makes no difference to the client: whatever one of the two sessions may have
read and sent at some time, the other one may have, too. -/
theorem shortcut_seen_iff (input : List UInt8)
    (seen : Bool × List UInt8 × List UInt8 × List UInt8) :
    (∃ s, (machine true input).Reachable Machine.free s ∧ s.seen = seen) ↔
      ∃ s, (machine false input).Reachable Machine.free s ∧ s.seen = seen := by
  constructor
  · rintro ⟨s, h, rfl⟩
    exact ⟨s, reachable_plain h, rfl⟩
  · rintro ⟨s, h, rfl⟩
    obtain ⟨m, h, hreach, -⟩ := reachable_ahead h
    exact ⟨_, hreach, rfl⟩

end CppCode.EchoSession
