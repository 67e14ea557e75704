import CppCode.Concurrency.ChannelLock
import CppCode.EchoSession.Model

/-!
# CppCode.EchoSession.Lock

The write lock of the session. To the lock, an actor only claims, releases and leaves
(`lock_step`), so what `Concurrency.ChannelLock` says of a channel as a lock holds of
`write_lock_` in every run: the lock is well kept (`valid_lock`), and an actor never reads from or
writes to a socket it does not have.

The session that tries a `try_send` first reaches no state that the other one does not reach
(`reachable_plain`): what follows is proved for the one without the shortcut and holds for both.
-/

namespace CppCode.EchoSession

open Concurrency

/-! ### The actors as parties of a lock -/

def Messages.view : Messages → Lock.View
  | .spawned | .reading .. => .idle
  | .claiming _ => .claiming
  | .claimed _ | .header .. | .body .. => .holding
  | .cancelled => .cancelled
  | .ended => .gone

def Heartbeats.view : Heartbeats → Lock.View
  | .spawned | .waiting => .idle
  | .claiming => .claiming
  | .claimed | .writing .. => .holding
  | .cancelled => .cancelled
  | .ended => .gone

def views (m : Messages) (h : Heartbeats) : Actor → Lock.View
  | .handleMessages => m.view
  | .sendHeartbeats => h.view

def State.lock (s : State) : Lock.State Actor := ⟨s.writeLock, views s.messages s.heartbeats⟩

variable {s s' : State} {tryFirst : Bool} {a : Action}

theorem update_messages {m m' : Messages} {h : Heartbeats} {v : Lock.View} (hv : m'.view = v) :
    Function.update (views m h) .handleMessages v = views m' h := by
  subst hv
  funext i
  cases i <;> rfl

theorem update_heartbeats {m : Messages} {h h' : Heartbeats} {v : Lock.View}
    (hv : h'.view = v) : Function.update (views m h) .sendHeartbeats v = views m h' := by
  subst hv
  funext i
  cases i <;> rfl

theorem Messages.view_abort (m : Messages) : m.abort.view = m.view.abort := by
  cases m <;> rfl

theorem Heartbeats.view_abort (h : Heartbeats) : h.abort.view = h.view.abort := by
  cases h <;> rfl

/-- The shortcut claims the lock as the `async_send` would. -/
theorem asyncSend_of_tryClaim {i : Actor} {o : AsyncChannel.Outcome 1 Actor Unit}
    (h : s.tryClaim tryFirst i = some o) :
    s.writeLock.asyncSend i () = o ∧ o.sent.isSome = true := by
  unfold State.tryClaim at h
  split at h
  · exact AsyncChannel.asyncSend_of_trySend h
  · cases h

theorem lock_claimMessages (tryFirst : Bool) (length : Nat) (h : s.messages.view = .idle) :
    Lock.step s.lock (.claim .handleMessages) = some (s.claimMessages tryFirst length).lock := by
  have hview : s.lock.views .handleMessages = .idle := h
  simp only [Lock.step, hview, Option.some.injEq, State.claimMessages]
  cases ho : s.tryClaim tryFirst .handleMessages with
  | some o =>
      obtain ⟨hsend, hsent⟩ := asyncSend_of_tryClaim ho
      simp only [State.lock, State.beginHeader, hsend, hsent, if_true]
      exact congrArg (Lock.State.mk _) (update_messages rfl)
  | none =>
      simp only [State.lock]
      exact congrArg (Lock.State.mk _) (update_messages (apply_ite Messages.view _ _ _))

theorem lock_claimHeartbeats (tryFirst : Bool) (h : s.heartbeats.view = .idle) :
    Lock.step s.lock (.claim .sendHeartbeats) = some (s.claimHeartbeats tryFirst).lock := by
  have hview : s.lock.views .sendHeartbeats = .idle := h
  simp only [Lock.step, hview, Option.some.injEq, State.claimHeartbeats]
  cases ho : s.tryClaim tryFirst .sendHeartbeats with
  | some o =>
      obtain ⟨hsend, hsent⟩ := asyncSend_of_tryClaim ho
      simp only [State.lock, State.beginHeartbeat, hsend, hsent, if_true]
      exact congrArg (Lock.State.mk _) (update_heartbeats rfl)
  | none =>
      simp only [State.lock]
      exact congrArg (Lock.State.mk _) (update_heartbeats (apply_ite Heartbeats.view _ _ _))

theorem lock_grant (s : State) (i : Actor) : (s.grant i).lock = s.lock.grant i := by
  cases i with
  | handleMessages =>
      cases hm : s.messages <;>
        simp only [State.grant, Lock.State.grant, State.lock, hm, views, Messages.view]
      case claiming => exact congrArg (Lock.State.mk _) (update_messages rfl).symm
  | sendHeartbeats =>
      cases hh : s.heartbeats <;>
        simp only [State.grant, Lock.State.grant, State.lock, hh, views, Heartbeats.view]
      case claiming => exact congrArg (Lock.State.mk _) (update_heartbeats rfl).symm

/-- A release, but for what its actor does next. -/
theorem lock_release {i : Actor} (h : s.lock.views i = .holding) :
    Lock.step s.lock (.release i) =
      some ⟨(s.release i).writeLock, Function.update (s.release i).lock.views i .idle⟩ := by
  simp only [Lock.step, h, State.release]
  have hlock : s.lock.channel = s.writeLock := rfl
  rw [hlock]
  cases s.writeLock.tryReceive i with
  | none => rfl
  | some o =>
      cases hsent : o.sent with
      | none => simp only [hsent]; rfl
      | some x =>
          simp only [hsent]
          have hgrant := Lock.State.grant_update (s := { s with writeLock := o.channel }.lock)
            (i := i) (j := x.1) (v := .idle) (fun hc => by cases h.symm.trans hc) (by decide)
          rw [← lock_grant] at hgrant
          exact congrArg some hgrant

theorem Messages.view_fail {m m' : Messages} (h : m.fail = some m') : m'.view = m.view := by
  unfold Messages.fail at h
  split at h <;> cases h <;> rfl

theorem Heartbeats.view_fail {h h' : Heartbeats} (hf : h.fail = some h') : h'.view = h.view := by
  unfold Heartbeats.fail at hf
  split at hf <;> cases hf
  rfl

theorem abort_views (m : Messages) (h : Heartbeats) :
    (fun i => (views m h i).abort) = views m.abort h.abort := by
  funext i
  cases i
  · exact m.view_abort.symm
  · exact h.view_abort.symm

theorem lock_endMessages (h : s.messages.view ≠ .claiming) (hgone : s.messages.view ≠ .gone) :
    Lock.step s.lock (.leave .handleMessages) = some s.endMessages.lock := by
  have hview : s.lock.views .handleMessages = s.messages.view := rfl
  have hlock : s.endMessages.lock = ⟨s.writeLock.cancel, Function.update
      (fun i => (s.lock.views i).abort) .handleMessages .gone⟩ := by
    have habort := abort_views s.messages s.heartbeats
    exact congrArg (Lock.State.mk _) ((update_messages rfl).symm.trans
      (congrArg (Function.update · _ _) habort.symm))
  rw [hlock]
  cases hm : s.messages.view <;> simp_all [Lock.step, State.lock]

theorem lock_endHeartbeats (h : s.heartbeats.view ≠ .claiming)
    (hgone : s.heartbeats.view ≠ .gone) :
    Lock.step s.lock (.leave .sendHeartbeats) = some s.endHeartbeats.lock := by
  have hview : s.lock.views .sendHeartbeats = s.heartbeats.view := rfl
  have hlock : s.endHeartbeats.lock = ⟨s.writeLock.cancel, Function.update
      (fun i => (s.lock.views i).abort) .sendHeartbeats .gone⟩ := by
    have habort := abort_views s.messages s.heartbeats
    exact congrArg (Lock.State.mk _) ((update_heartbeats rfl).symm.trans
      (congrArg (Function.update · _ _) habort.symm))
  rw [hlock]
  cases hm : s.heartbeats.view <;> simp_all [Lock.step, State.lock]

/-! ### Claims and releases -/

theorem claimMessages_eq (s : State) (length : Nat) :
    ∃ w m, s.claimMessages false length = { s with writeLock := w, messages := m } ∧
      (m = .claimed length ∨ m = .claiming length) := by
  refine ⟨_, _, rfl, ?_⟩
  split
  · exact .inl rfl
  · exact .inr rfl

theorem claimHeartbeats_eq (s : State) :
    ∃ w h, s.claimHeartbeats false = { s with writeLock := w, heartbeats := h } ∧
      (h = .claimed ∨ h = .claiming) := by
  refine ⟨_, _, rfl, ?_⟩
  split
  · exact .inl rfl
  · exact .inr rfl

/-- Granting the lock only wakes up an actor that waits for it. -/
theorem grant_eq (s : State) (i : Actor) :
    ∃ m h, s.grant i = { s with messages := m, heartbeats := h } ∧
      (m = s.messages ∨ ∃ length, s.messages = .claiming length ∧ m = .claimed length) ∧
      (h = s.heartbeats ∨ s.heartbeats = .claiming ∧ h = .claimed) := by
  cases i with
  | handleMessages =>
      simp only [State.grant]
      split
      case h_1 length hm => exact ⟨_, _, rfl, .inr ⟨length, hm, rfl⟩, .inl rfl⟩
      case h_2 => exact ⟨_, _, rfl, .inl rfl, .inl rfl⟩
  | sendHeartbeats =>
      simp only [State.grant]
      split
      case h_1 hh => exact ⟨_, _, rfl, .inl rfl, .inr ⟨hh, rfl⟩⟩
      case h_2 => exact ⟨_, _, rfl, .inl rfl, .inl rfl⟩

theorem release_eq (s : State) (i : Actor) :
    ∃ w m h, s.release i = { s with writeLock := w, messages := m, heartbeats := h } ∧
      (m = s.messages ∨ ∃ length, s.messages = .claiming length ∧ m = .claimed length) ∧
      (h = s.heartbeats ∨ s.heartbeats = .claiming ∧ h = .claimed) := by
  unfold State.release
  split
  · exact ⟨_, _, _, rfl, .inl rfl, .inl rfl⟩
  case h_2 o _ =>
    dsimp only
    split
    case h_1 j _ _ => exact ⟨_, grant_eq { s with writeLock := o.channel } j⟩
    case h_2 => exact ⟨_, _, _, rfl, .inl rfl, .inl rfl⟩

/-! ### Steps -/

theorem lock_congr (hw : s'.writeLock = s.writeLock) (hm : s'.messages.view = s.messages.view)
    (hh : s'.heartbeats.view = s.heartbeats.view) : s'.lock = s.lock := by
  unfold State.lock
  rw [hw]
  refine congrArg (Lock.State.mk _) (funext fun i => ?_)
  cases i
  · exact hm
  · exact hh

theorem lock_beginRead (s : State) (spare : Nat) :
    (s.beginRead spare).lock =
      ⟨s.writeLock, Function.update s.lock.views .handleMessages .idle⟩ := by
  unfold State.beginRead
  split <;> exact congrArg (Lock.State.mk _) (update_messages rfl).symm

theorem lock_continueRead {spare n : Nat} {pos : Option Nat} (h : s.messages.view = .idle) :
    (s.continueRead tryFirst spare pos n).lock = s.lock ∨
      ∃ b, Lock.step s.lock b = some (s.continueRead tryFirst spare pos n).lock := by
  rcases continueRead_cases tryFirst s spare pos n with heq | ⟨length, heq⟩ | ⟨pos', m, heq⟩
  · rw [heq]
    exact .inr ⟨_, lock_endMessages (by rw [h]; decide) (by rw [h]; decide)⟩
  · rw [heq]
    exact .inr ⟨_, lock_claimMessages _ _ h⟩
  · rw [heq]
    exact .inl (lock_congr rfl h.symm rfl)

theorem lock_of_moved (h : Moved tryFirst s s') :
    s'.lock = s.lock ∨ ∃ b, Lock.step s.lock b = some s'.lock := by
  cases h with
  | startRead hm =>
      refine .inl ?_
      rw [lock_beginRead]
      exact congrArg (Lock.State.mk _) (update_messages (by rw [hm]; rfl))
  | readOn hm => exact lock_continueRead (by rw [hm]; rfl)
  | beginHeader hm | moreHeader hm | beginBody hm | moreBody hm | receive hm | sendHeader hm
  | sendBody hm =>
      exact .inl (lock_congr rfl (by rw [hm]; rfl) rfl)
  | beginHeartbeat hh | moreHeartbeat hh | sleep hh | sendHeartbeat hh =>
      exact .inl (lock_congr rfl rfl (by rw [hh]; rfl))
  | @echoed length rest n spare hm =>
      have hrelease := lock_release (s := { s with data := s.data.drop length })
        (i := .handleMessages) (by simp only [State.lock, hm]; rfl)
      rw [lock_beginRead]
      exact .inr ⟨_, hrelease⟩
  | @beaten rest n hh =>
      have hrelease := lock_release (s := s) (i := .sendHeartbeats)
        (by simp only [State.lock, hh]; rfl)
      refine .inr ⟨_, hrelease.trans (congrArg some ?_)⟩
      exact congrArg (Lock.State.mk _) (update_heartbeats rfl)
  | endMessages hm =>
      refine .inr ⟨_, lock_endMessages ?_ ?_⟩ <;>
        cases hmessages : s.messages <;> simp_all [Messages.Broken, Messages.view]
  | endHeartbeats hh =>
      refine .inr ⟨_, lock_endHeartbeats ?_ ?_⟩ <;>
        cases hheartbeats : s.heartbeats <;> simp_all [Heartbeats.Broken, Heartbeats.view]
  | expire hh => exact .inr ⟨_, lock_claimHeartbeats _ (by rw [hh]; rfl)⟩
  | failMessages hm => exact .inl (lock_congr rfl (Messages.view_fail hm) rfl)
  | failHeartbeats hh => exact .inl (lock_congr rfl rfl (Heartbeats.view_fail hh))

theorem valid_of_moved (hv : Lock.Valid s.lock) (h : Moved tryFirst s s') :
    Lock.Valid s'.lock := by
  rcases lock_of_moved h with heq | ⟨b, hb⟩
  · rwa [heq]
  · exact hv.step hb

theorem abandoned_of_moved (hv : Lock.Valid s.lock) (ha : Lock.Abandoned s.lock)
    (h : Moved tryFirst s s') : Lock.Abandoned s'.lock := by
  rcases lock_of_moved h with heq | ⟨b, hb⟩
  · rwa [heq]
  · exact Lock.abandoned_step hv ha hb

/-- The lock is well kept. -/
theorem valid_lock {input : List UInt8}
    (h : (machine tryFirst input).Reachable Machine.free s) : Lock.Valid s.lock := by
  refine h.invariant (I := fun s => Lock.Valid s.lock) ?_ ?_
  · have hinit : (machine tryFirst input).init.lock = ⟨.empty 1 Actor Unit, fun _ => .idle⟩ :=
      congrArg (Lock.State.mk _) (funext fun i => by cases i <;> rfl)
    rw [hinit]
    exact Lock.valid_empty
  · exact fun _ hv _ hs => valid_of_moved hv (moved_of_step hs)

/-! ### The shortcut -/

/-- A `try_send` that succeeds saves one suspension. -/
theorem claimMessages_plain (tryFirst : Bool) (s : State) (length : Nat) :
    s.claimMessages tryFirst length = s.claimMessages false length ∨
      (s.claimMessages false length).messages = .claimed length ∧
        s.claimMessages tryFirst length = (s.claimMessages false length).beginHeader length := by
  cases ho : s.tryClaim tryFirst .handleMessages with
  | none => exact .inl (by simp only [State.claimMessages, ho]; rfl)
  | some o =>
      obtain ⟨hsend, hsent⟩ := asyncSend_of_tryClaim ho
      have hplain : s.claimMessages false length =
          { s with writeLock := o.channel, messages := .claimed length } := by
        simp [State.claimMessages, State.tryClaim, hsend, hsent]
      rw [hplain]
      exact .inr ⟨rfl, by simp only [State.claimMessages, ho]; rfl⟩

theorem claimHeartbeats_plain (tryFirst : Bool) (s : State) :
    s.claimHeartbeats tryFirst = s.claimHeartbeats false ∨
      (s.claimHeartbeats false).heartbeats = .claimed ∧
        s.claimHeartbeats tryFirst = (s.claimHeartbeats false).beginHeartbeat := by
  cases ho : s.tryClaim tryFirst .sendHeartbeats with
  | none => exact .inl (by simp only [State.claimHeartbeats, ho]; rfl)
  | some o =>
      obtain ⟨hsend, hsent⟩ := asyncSend_of_tryClaim ho
      have hplain : s.claimHeartbeats false =
          { s with writeLock := o.channel, heartbeats := .claimed } := by
        simp [State.claimHeartbeats, State.tryClaim, hsend, hsent]
      rw [hplain]
      exact .inr ⟨rfl, by simp only [State.claimHeartbeats, ho]; rfl⟩

theorem continueRead_plain (tryFirst : Bool) (s : State) (spare : Nat) (pos : Option Nat)
    (n : Nat) :
    s.continueRead tryFirst spare pos n = s.continueRead false spare pos n ∨
      ∃ length, (s.continueRead false spare pos n).messages = .claimed length ∧
        s.continueRead tryFirst spare pos n =
          (s.continueRead false spare pos n).beginHeader length := by
  unfold State.continueRead
  split
  · exact .inl rfl
  · exact (claimMessages_plain ..).imp_right fun h => ⟨_, h⟩
  · split
    · exact .inl rfl
    · exact (claimMessages_plain ..).imp_right fun h => ⟨_, h⟩
    · exact .inl rfl

/-- One step with the shortcut is one or two steps without it. -/
theorem step_plain (h : step tryFirst s a = some s') :
    step false s a = some s' ∨
      (∃ t length, step false s a = some t ∧ t.messages = .claimed length ∧
        s' = t.beginHeader length) ∨
      ∃ t, step false s a = some t ∧ t.heartbeats = .claimed ∧ s' = t.beginHeartbeat := by
  match a, h with
  | .resume .handleMessages spare, h =>
      simp only [step] at h ⊢
      by_cases hm : ∃ pos m n, s.messages = .reading pos m (.done n)
      · obtain ⟨pos, m, n, hm⟩ := hm
        simp only [State.resumeMessages, hm, Option.some.injEq] at h ⊢
        subst h
        rcases continueRead_plain tryFirst s spare pos n with heq | ⟨length, hclaimed, heq⟩
        · exact .inl heq.symm
        · exact .inr (.inl ⟨_, length, rfl, hclaimed, heq⟩)
      · refine .inl (Eq.trans ?_ h)
        unfold State.resumeMessages
        split <;> first | rfl | exact absurd ⟨_, _, _, ‹_›⟩ hm
  | .resume .sendHeartbeats _, h =>
      simp only [step] at h ⊢
      by_cases hh : s.heartbeats = .waiting
      · simp only [State.resumeHeartbeats, hh, Option.some.injEq] at h ⊢
        subst h
        rcases claimHeartbeats_plain tryFirst s with heq | ⟨hclaimed, heq⟩
        · exact .inl heq.symm
        · exact .inr (.inr ⟨_, rfl, hclaimed, heq⟩)
      · refine .inl (Eq.trans ?_ h)
        unfold State.resumeHeartbeats
        split <;> first | rfl | exact absurd ‹_› hh
  | .transfer .handleMessages _, h | .transfer .sendHeartbeats _, h | .fail .handleMessages, h
  | .fail .sendHeartbeats, h => exact .inl h

/-- The session with the shortcut reaches no state that the plain one does not reach. -/
theorem reachable_plain {input : List UInt8}
    (h : (machine tryFirst input).Reachable Machine.free s) :
    (machine false input).Reachable Machine.free s := by
  refine h.invariant (I := (machine false input).Reachable Machine.free)
    Machine.Reachable.init ?_
  intro s a s' _ hs _ hstep
  rcases step_plain hstep with heq | ⟨t, length, ht, hclaimed, rfl⟩ | ⟨t, ht, hclaimed, rfl⟩
  · exact hs.step (a := a) trivial heq
  · refine (hs.step (a := a) trivial ht).step (a := .resume .handleMessages 0) trivial ?_
    simp only [machine, step, State.resumeMessages, hclaimed]
  · refine (hs.step (a := a) trivial ht).step (a := .resume .sendHeartbeats 0) trivial ?_
    simp only [machine, step, State.resumeHeartbeats, hclaimed]

end CppCode.EchoSession
