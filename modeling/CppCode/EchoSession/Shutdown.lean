import CppCode.EchoSession.Lock

/-!
# CppCode.EchoSession.Shutdown

How a session ends. The actor that ends first closes the socket and cancels the channel, so that
the other one fails in what it does next; but an actor that ends in a write does not release the
lock. If `handle_messages` ends without the lock, `send_heartbeats` ends within four steps. If it
ends with the lock, `send_heartbeats` ends only if it already waited for the lock: otherwise it
will wait for it for ever, and keep the session alive.
-/

namespace CppCode.EchoSession

open Concurrency

/-! ### The socket -/

/-- The read or write that `handle_messages` is in. -/
def Messages.io : Messages → Option Io
  | .reading _ _ op | .header _ _ op | .body _ _ op => some op
  | _ => none

/-- The write that `send_heartbeats` is in. -/
def Heartbeats.io : Heartbeats → Option Io
  | .writing _ op => some op
  | _ => none

/-- The socket is closed by the first actor that ends, no claim is cancelled before, and nothing
is under way on a closed socket. -/
structure Wired (s : State) : Prop where
  closed : s.isOpen = false ↔ s.messages = .ended ∨ s.heartbeats = .ended
  cancelled : s.messages = .cancelled ∨ s.heartbeats = .cancelled → s.isOpen = false
  messages : s.messages.io = some .pending → s.isOpen = true
  heartbeats : s.heartbeats.io = some .pending → s.isOpen = true

variable {s s' : State} {tryFirst : Bool} {input : List UInt8}

theorem isOpen_of_startIo (h : some s.startIo = some .pending) : s.isOpen = true := by
  unfold State.startIo at h
  split at h
  · assumption
  · cases h

theorem isOpen_of_emptyIo (h : some s.emptyIo = some .pending) : s.isOpen = true := by
  unfold State.emptyIo at h
  split at h
  · assumption
  · cases h

theorem Messages.io_abort (m : Messages) : m.abort.io ≠ some .pending := by
  cases m with
  | reading _ _ op | header _ _ op | body _ _ op => cases op <;> simp [abort, io, Io.abort]
  | spawned | claiming | claimed | cancelled | ended => simp [abort, io]

theorem Heartbeats.io_abort (h : Heartbeats) : h.abort.io ≠ some .pending := by
  cases h with
  | writing _ op => cases op <;> simp [abort, io, Io.abort]
  | spawned | waiting | claiming | claimed | cancelled | ended => simp [abort, io]

theorem Messages.io_fail {m m' : Messages} (h : m.fail = some m') :
    m ≠ .ended ∧ (m' ≠ .ended ∧ m' ≠ .cancelled) ∧ m'.io = some .failed := by
  unfold Messages.fail at h
  split at h <;> cases h <;> simp [io]

theorem Heartbeats.io_fail {h h' : Heartbeats} (hf : h.fail = some h') :
    h.io = some .pending ∧ h ≠ .ended ∧ (h' ≠ .ended ∧ h' ≠ .cancelled) ∧
      h'.io = some .failed := by
  unfold Heartbeats.fail at hf
  split at hf <;> cases hf
  simp [io]

/-- A step of `handle_messages` that does not end it. -/
theorem Wired.withMessages {m : Messages} {w : AsyncChannel 1 Actor Unit} {data incoming output}
    (h : Wired s) (hm : s.messages ≠ .ended) (hm' : m ≠ .ended ∧ m ≠ .cancelled)
    (hio : m.io = some .pending → s.isOpen = true) :
    Wired { s with
      messages := m, writeLock := w, data := data, incoming := incoming, output := output } := by
  have hclosed := h.closed
  have hcancelled := fun hc => h.cancelled (.inr hc)
  refine ⟨?_, ?_, hio, h.heartbeats⟩
  · simp only [hm, hm'.1, false_or] at hclosed ⊢
    exact hclosed
  · simp only [hm'.2, false_or]
    exact hcancelled

theorem Wired.withHeartbeats {h' : Heartbeats} {w : AsyncChannel 1 Actor Unit} {output}
    (h : Wired s) (hh : s.heartbeats ≠ .ended) (hh' : h' ≠ .ended ∧ h' ≠ .cancelled)
    (hio : h'.io = some .pending → s.isOpen = true) :
    Wired { s with heartbeats := h', writeLock := w, output := output } := by
  have hclosed := h.closed
  have hcancelled := fun hc => h.cancelled (.inl hc)
  refine ⟨?_, ?_, h.messages, hio⟩
  · simp only [hh, hh'.1, or_false] at hclosed ⊢
    exact hclosed
  · simp only [hh'.2, or_false]
    exact hcancelled

theorem wired_endMessages (s : State) : Wired s.endMessages :=
  ⟨⟨fun _ => .inl rfl, fun _ => rfl⟩, fun _ => rfl, fun h => (by cases h),
    fun h => absurd h s.heartbeats.io_abort⟩

theorem wired_endHeartbeats (s : State) : Wired s.endHeartbeats :=
  ⟨⟨fun _ => .inr rfl, fun _ => rfl⟩, fun _ => rfl, fun h => absurd h s.messages.io_abort,
    fun h => by cases h⟩

theorem Wired.beginRead {spare : Nat} (h : Wired s) (hm : s.messages ≠ .ended) :
    Wired (s.beginRead spare) := by
  unfold State.beginRead
  split
  · exact h.withMessages hm (by simp) isOpen_of_emptyIo
  · exact h.withMessages hm (by simp) isOpen_of_startIo

/-- A release ends nobody. -/
theorem release_ended (s : State) (i : Actor) :
    ((s.release i).messages = .ended ↔ s.messages = .ended) ∧
      ((s.release i).heartbeats = .ended ↔ s.heartbeats = .ended) := by
  obtain ⟨w, m, h, heq, hm, hh⟩ := release_eq s i
  rw [heq]
  constructor
  · rcases hm with rfl | ⟨length, hm, rfl⟩
    · exact Iff.rfl
    · simp [hm]
  · rcases hh with rfl | ⟨hh, rfl⟩
    · exact Iff.rfl
    · simp [hh]

theorem Wired.release {i : Actor} (h : Wired s) : Wired (s.release i) := by
  have hended := release_ended s i
  obtain ⟨w, m, h', heq, hm, hh⟩ := release_eq s i
  rw [heq] at hended ⊢
  refine ⟨?_, ?_, ?_, ?_⟩
  · rw [hended.1, hended.2]
    exact h.closed
  · intro hc
    refine h.cancelled (hc.imp (fun hc => ?_) fun hc => ?_)
    · rcases hm with rfl | ⟨length, -, rfl⟩
      · exact hc
      · cases hc
    · rcases hh with rfl | ⟨-, rfl⟩
      · exact hc
      · cases hc
  · rcases hm with rfl | ⟨length, -, rfl⟩
    · exact h.messages
    · exact fun h => by cases h
  · rcases hh with rfl | ⟨-, rfl⟩
    · exact h.heartbeats
    · exact fun h => by cases h

theorem Wired.moved (h : Wired s) (hmoved : Moved false s s') : Wired s' := by
  cases hmoved with
  | startRead hm => exact h.beginRead (by simp [hm])
  | @readOn pos m n spare hm =>
      have hne : s.messages ≠ .ended := by simp [hm]
      rcases continueRead_cases false s spare pos n with heq | ⟨length, heq⟩ | ⟨pos', k, heq⟩
      · rw [heq]
        exact wired_endMessages s
      · obtain ⟨w, m, heq', rfl | rfl⟩ := claimMessages_eq s length
        · rw [heq, heq']
          exact h.withMessages hne (by simp) (by simp [Messages.io])
        · rw [heq, heq']
          exact h.withMessages hne (by simp) (by simp [Messages.io])
      · rw [heq]
        exact h.withMessages hne (by simp) isOpen_of_startIo
  | beginHeader hm | moreHeader hm | beginBody hm | moreBody hm =>
      exact h.withMessages (by simp [hm]) (by simp) isOpen_of_startIo
  | @echoed length rest n spare hm =>
      have hdata : Wired { s with data := s.data.drop length } :=
        h.withMessages (by simp [hm]) (by simp [hm]) h.messages
      refine hdata.release.beginRead ?_
      rw [Ne, (release_ended ..).1]
      simp [hm]
  | endMessages => exact wired_endMessages s
  | sleep hh => exact h.withHeartbeats (by simp [hh]) (by simp) (by simp [Heartbeats.io])
  | expire hh =>
      obtain ⟨w, h', heq, rfl | rfl⟩ := claimHeartbeats_eq s
      · rw [heq]
        exact h.withHeartbeats (by simp [hh]) (by simp) (by simp [Heartbeats.io])
      · rw [heq]
        exact h.withHeartbeats (by simp [hh]) (by simp) (by simp [Heartbeats.io])
  | beginHeartbeat hh | moreHeartbeat hh =>
      exact h.withHeartbeats (by simp [hh]) (by simp) isOpen_of_startIo
  | beaten hh =>
      refine h.release.withHeartbeats ?_ (by simp) (by simp [Heartbeats.io])
      rw [Ne, (release_ended ..).2]
      simp [hh]
  | endHeartbeats => exact wired_endHeartbeats s
  | receive hm | sendHeader hm | sendBody hm =>
      exact h.withMessages (by simp [hm]) (by simp) (by simp [Messages.io])
  | sendHeartbeat hh =>
      exact h.withHeartbeats (by simp [hh]) (by simp) (by simp [Heartbeats.io])
  | failMessages hm =>
      obtain ⟨hm, hm', hio⟩ := Messages.io_fail hm
      exact h.withMessages hm hm' (by simp [hio])
  | failHeartbeats hh =>
      obtain ⟨-, hh, hh', hio⟩ := Heartbeats.io_fail hh
      exact h.withHeartbeats hh hh' (by simp [hio])

theorem wired_of_reachable (h : (machine tryFirst input).Reachable Machine.free s) :
    Wired s := by
  refine (reachable_plain h).invariant (I := Wired) ?_ ?_
  · exact ⟨by simp [machine, State.start], by simp [machine, State.start], fun _ => rfl,
      fun _ => rfl⟩
  · exact fun _ hw _ hs => hw.moved (moved_of_step hs)

theorem Wired.not_gone (hw : Wired s) (hopen : s.isOpen = true) (i : Actor) :
    s.lock.views i ≠ .gone := by
  have hnot : ¬ (s.messages = .ended ∨ s.heartbeats = .ended) := by
    rw [← hw.closed, hopen]
    decide
  intro hgone
  cases i with
  | handleMessages =>
      refine hnot (.inl ?_)
      cases hm : s.messages <;> simp_all [State.lock, views, Messages.view]
  | sendHeartbeats =>
      refine hnot (.inr ?_)
      cases hh : s.heartbeats <;> simp_all [State.lock, views, Heartbeats.view]

/-! ### While the session is alive -/

def Actor.other : Actor → Actor
  | .handleMessages => .sendHeartbeats
  | .sendHeartbeats => .handleMessages

theorem Actor.eq_other {i j : Actor} (h : j ≠ i) : j = i.other := by
  cases i <;> cases j <;> first | rfl | exact absurd rfl h

/-- On an open socket, an actor that waits for the lock waits for the other one. -/
theorem other_holding {i : Actor} (hw : Wired s) (hv : Lock.Valid s.lock)
    (hopen : s.isOpen = true) (hi : s.lock.views i = .claiming) :
    s.lock.views i.other = .holding := by
  have htaken := Lock.buffer_eq_of_senders_ne_nil (List.ne_nil_of_mem ((hv.senders i).mpr hi))
  rcases hv.owned (by rw [htaken]; exact List.cons_ne_nil _ _) with ⟨j, hj⟩ | ⟨j, hj⟩
  · have hne : j ≠ i := by
      rintro rfl
      rw [hi] at hj
      cases hj
    rwa [← Actor.eq_other hne]
  · exact absurd hj (hw.not_gone hopen j)

/-- No wake-up is lost. While the session is alive, an actor that waits for the lock waits for
the other one, which holds it; and it goes on waiting until the other one releases the lock,
which hands it over, or ends, which cancels the wait. -/
theorem lock_handed_over (tryFirst : Bool) (input : List UInt8) (s : State) (i : Actor)
    (h : (machine tryFirst input).Reachable Machine.free s) (hopen : s.isOpen = true)
    (hi : s.lock.views i = .claiming) :
    s.lock.views i.other = .holding ∧
      ∀ a s', (machine tryFirst input).step s a = some s' →
        s'.lock.views i = .claiming ∧ s'.lock.views i.other = .holding ∨
          s'.lock.views i = .holding ∧ s'.lock.views i.other = .idle ∨
          s'.lock.views i = .cancelled ∧ s'.lock.views i.other = .gone := by
  have hv := valid_lock h
  have hother := other_holding (wired_of_reachable h) hv hopen hi
  have hne : i ≠ i.other := by cases i <;> decide
  refine ⟨hother, ?_⟩
  intro a s' hs
  rcases lock_of_moved (moved_of_step hs) with heq | ⟨b, hb⟩
  · rw [heq]
    exact .inl ⟨hi, hother⟩
  · generalize s'.lock = l at hb ⊢
    cases Lock.moved_of_step hv hb with
    | @take j c hidle | @wait j c hidle =>
        by_cases hji : j = i
        · rw [hji, hi] at hidle
          cases hidle
        · rw [Actor.eq_other hji, hother] at hidle
          cases hidle
    | free hholding hnobody =>
        have hmem := (hv.senders i).mpr hi
        rw [hnobody] at hmem
        cases hmem
    | @handOver j k c hholding hsenders =>
        obtain rfl : j = i.other := hv.exclusive j i.other hholding hother
        have hk : s.lock.views k = .claiming :=
          (hv.senders k).mp (by rw [hsenders]; exact List.mem_cons_self ..)
        obtain rfl : k = i := by
          by_contra hki
          rw [Actor.eq_other hki, hother] at hk
          cases hk
        exact .inr (.inl ⟨by simp, by simp [Function.update_of_ne hne.symm]⟩)
    | @leave j c hclaiming =>
        have hji : j ≠ i := by
          rintro rfl
          exact hclaiming hi
        obtain rfl := Actor.eq_other hji
        exact .inr (.inr ⟨by simp [Function.update_of_ne hne, hi, Lock.View.abort], by simp⟩)

/-- A line has been read while a heartbeat is being sent. -/
theorem lock_handed_over_heartbeat :
    ∃ s s', s.messages = .claiming 2 ∧
      (machine true [97, 10]).step s (.resume .sendHeartbeats 0) = some s' ∧
      s.lock.views .sendHeartbeats = .holding ∧ s'.messages = .claimed 2 ∧
      (s'.lock.views .handleMessages = .claiming ∧ s'.lock.views .sendHeartbeats = .holding ∨
        s'.lock.views .handleMessages = .holding ∧ s'.lock.views .sendHeartbeats = .idle ∨
        s'.lock.views .handleMessages = .cancelled ∧
          s'.lock.views .sendHeartbeats = .gone) := by
  obtain ⟨s, hs, hp⟩ := Machine.reachable_of_exec (M := machine true [97, 10])
    (l := [.resume .handleMessages 0, .resume .sendHeartbeats 0, .transfer .handleMessages 2,
      .resume .sendHeartbeats 0, .resume .handleMessages 0, .transfer .sendHeartbeats 12])
    (p := fun s => s.isOpen && decide (s.messages = .claiming 2) &&
      ((machine true [97, 10]).step s (.resume .sendHeartbeats 0)).any
        fun t : State => decide (t.messages = .claimed 2))
    (by decide)
  simp only [Bool.and_eq_true, decide_eq_true_eq] at hp
  obtain ⟨⟨hopen, hclaiming⟩, hany⟩ := hp
  obtain ⟨s', hs', hm⟩ := (Option.any_eq_true _ _).mp hany
  have hi : s.lock.views .handleMessages = .claiming := by
    simp only [State.lock, hclaiming]
    rfl
  obtain ⟨hholding, hstep⟩ := lock_handed_over _ _ s _ hs hopen hi
  exact ⟨s, s', hclaiming, hs', hholding, of_decide_eq_true hm, hstep _ s' hs'⟩

/-! ### After `handle_messages` -/

/-- How many more steps `send_heartbeats` takes on a closed socket, at most. -/
def Heartbeats.rank : Heartbeats → Nat
  | .spawned | .writing _ (.done _) => 4
  | .waiting | .claiming | .writing _ .pending => 3
  | .claimed => 2
  | .cancelled | .writing _ .failed => 1
  | .ended => 0

/-- `handle_messages` has ended, and `send_heartbeats` does not wait for what it has left
behind. -/
structure Ending (s : State) : Prop where
  messages : s.messages = .ended
  clear : Lock.Abandoned s.lock → s.heartbeats = .cancelled ∨ s.heartbeats = .ended

theorem startIo_of_ended (hw : Wired s) (hm : s.messages = .ended) : s.startIo = .failed := by
  rw [State.startIo, hw.closed.mpr (.inl hm)]
  rfl

/-- Nobody has the lock. -/
theorem buffer_eq_nil (hnot : ¬ Lock.Abandoned s.lock)
    (hm : s.messages.view ≠ .holding) (hh : s.heartbeats.view ≠ .holding) :
    s.lock.channel.buffer = [] := by
  by_contra hne
  refine hnot ⟨Lock.buffer_eq_of_ne_nil hne, ?_⟩
  rintro (_ | _)
  · exact hm
  · exact hh

theorem not_abandoned_of_holding (hh : s.heartbeats.view = .holding) :
    ¬ Lock.Abandoned s.lock :=
  fun h => h.unheld .sendHeartbeats hh

theorem claimHeartbeats_rank (tryFirst : Bool) (hio : s.startIo = .failed)
    (hh : (s.claimHeartbeats tryFirst).heartbeats.view = .holding) :
    (s.claimHeartbeats tryFirst).messages = s.messages ∧
      (s.claimHeartbeats tryFirst).heartbeats.rank ≤ 2 := by
  obtain ⟨w, h, heq, hclaim⟩ := claimHeartbeats_eq s
  rcases claimHeartbeats_plain tryFirst s with hplain | ⟨-, hplain⟩
  · rw [hplain, heq] at hh ⊢
    rcases hclaim with rfl | rfl
    · exact ⟨rfl, Nat.le_refl 2⟩
    · cases hh
  · rw [hplain, heq]
    refine ⟨rfl, ?_⟩
    have hio : { s with writeLock := w, heartbeats := h }.startIo = .failed := hio
    simp [State.beginHeartbeat, hio, Heartbeats.rank]

theorem Ending.moved (h : Ending s) (hw : Wired s) (hv : Lock.Valid s.lock)
    (hmoved : Moved tryFirst s s') :
    Ending s' ∧ s'.heartbeats.rank < s.heartbeats.rank := by
  obtain ⟨hm, hclear⟩ := h
  have hio := startIo_of_ended hw hm
  have hclosed := hw.closed.mpr (.inl hm)
  have hnot : s.heartbeats ≠ .cancelled → s.heartbeats ≠ .ended → ¬ Lock.Abandoned s.lock :=
    fun hc he ha => (hclear ha).elim hc he
  cases id hmoved with
  | startRead h | readOn h | beginHeader h | moreHeader h | beginBody h | moreBody h | echoed h
  | receive h | sendHeader h | sendBody h =>
      rw [hm] at h
      cases h
  | endMessages h =>
      rw [hm] at h
      exact h.elim
  | failMessages h =>
      rw [hm] at h
      cases h
  | sleep hh =>
      refine ⟨⟨hm, fun ha => ?_⟩, by simp [hh, Heartbeats.rank]⟩
      have hlock : { s with heartbeats := .waiting }.lock = s.lock :=
        lock_congr rfl rfl (by rw [hh]; rfl)
      rw [hlock] at ha
      exact absurd ha (hnot (by simp [hh]) (by simp [hh]))
  | expire hh =>
      have hfree := buffer_eq_nil (hnot (by simp [hh]) (by simp [hh]))
        (by simp [hm, Messages.view]) (by simp [hh, Heartbeats.view])
      have hholding : (s.claimHeartbeats tryFirst).heartbeats.view = .holding :=
        Lock.holding_of_claim hv hfree (lock_claimHeartbeats tryFirst (by rw [hh]; rfl))
      obtain ⟨hmessages, hrank⟩ := claimHeartbeats_rank tryFirst hio hholding
      refine ⟨⟨hmessages.trans hm, fun ha => absurd ha (not_abandoned_of_holding hholding)⟩, ?_⟩
      rw [hh]
      exact Nat.lt_succ_of_le hrank
  | beginHeartbeat hh =>
      refine ⟨⟨hm, fun ha => absurd ha (not_abandoned_of_holding rfl)⟩, ?_⟩
      simp [hh, State.beginHeartbeat, hio, Heartbeats.rank]
  | moreHeartbeat hh =>
      refine ⟨⟨hm, fun ha => absurd ha (not_abandoned_of_holding rfl)⟩, ?_⟩
      simp [hh, hio, Heartbeats.rank]
  | beaten hh =>
      have hnobody : ∀ j, s.lock.views j ≠ .claiming := by
        rintro (_ | _)
        · simp [State.lock, views, hm, Messages.view]
        · simp [State.lock, views, hh, Heartbeats.view]
      have hfree := Lock.free_of_release hv hnobody
        (lock_release (i := .sendHeartbeats) (by simp only [State.lock, hh]; rfl))
      refine ⟨⟨(release_ended s .sendHeartbeats).1.mpr hm, fun ha => ?_⟩, ?_⟩
      · exact absurd (hfree.symm.trans ha.taken) (by simp)
      · simp [hh, Heartbeats.rank]
  | endHeartbeats hh =>
      refine ⟨⟨?_, fun _ => .inr rfl⟩, ?_⟩
      · change s.messages.abort = .ended
        rw [hm]
        rfl
      · change 0 < s.heartbeats.rank
        cases hheartbeats : s.heartbeats with
        | writing _ op => cases op <;> simp [Heartbeats.rank]
        | ended =>
            rw [hheartbeats] at hh
            exact hh.elim
        | spawned | waiting | claiming | claimed | cancelled => simp [Heartbeats.rank]
  | sendHeartbeat hh =>
      have hopen := hw.heartbeats (by rw [hh]; rfl)
      rw [hclosed] at hopen
      cases hopen
  | failHeartbeats hh =>
      have hopen := hw.heartbeats (Heartbeats.io_fail hh).1
      rw [hclosed] at hopen
      cases hopen

/-- Until it has ended, `send_heartbeats` can go on. -/
theorem Ending.exists_step (h : Ending s) (hw : Wired s) (hv : Lock.Valid s.lock)
    (hh : s.heartbeats ≠ .ended) : ∃ a s', step tryFirst s a = some s' := by
  refine ⟨.resume .sendHeartbeats 0, ?_⟩
  have hgone : s.lock.views .handleMessages = .gone := by
    simp only [State.lock, h.messages]
    rfl
  simp only [step, State.resumeHeartbeats]
  cases hheartbeats : s.heartbeats with
  | ended => exact absurd hheartbeats hh
  | claiming =>
      -- it would wait for `handle_messages`
      have hview : s.lock.views .sendHeartbeats = .claiming := by
        simp only [State.lock, hheartbeats]
        rfl
      rcases hv.held_of_claiming hview with ⟨_ | _, hj⟩ | ha
      · rw [hgone] at hj
        cases hj
      · rw [hview] at hj
        cases hj
      · rcases h.clear ha with hh | hh
        · rw [hheartbeats] at hh
          cases hh
        · rw [hheartbeats] at hh
          cases hh
  | writing rest op =>
      cases op with
      | pending =>
          have hopen := hw.heartbeats (by rw [hheartbeats]; rfl)
          rw [hw.closed.mpr (.inl h.messages)] at hopen
          cases hopen
      | done n =>
          dsimp only
          split
          · exact ⟨_, rfl⟩
          · exact ⟨_, rfl⟩
      | failed => exact ⟨_, rfl⟩
  | spawned | waiting | claimed | cancelled => exact ⟨_, rfl⟩

theorem Heartbeats.view_of_broken {h : Heartbeats} (hb : h.Broken) :
    h.view = .cancelled ∨ h.view = .holding := by
  cases h with
  | cancelled => exact .inl rfl
  | writing => exact .inr rfl
  | spawned | waiting | claiming | claimed | ended => exact hb.elim

theorem Heartbeats.view_of_fail {h h' : Heartbeats} (hf : h.fail = some h') :
    h.view = .holding := by
  unfold Heartbeats.fail at hf
  split at hf <;> cases hf
  rfl

/-- `send_heartbeats` waits for the lock that `handle_messages` has left with, or will. -/
structure Stuck (s : State) : Prop where
  messages : s.messages = .ended
  abandoned : Lock.Abandoned s.lock
  heartbeats : s.heartbeats.view = .idle ∨ s.heartbeats.view = .claiming

theorem Stuck.moved (h : Stuck s) (hv : Lock.Valid s.lock) (hmoved : Moved tryFirst s s') :
    Stuck s' := by
  obtain ⟨hm, ha, hh⟩ := h
  have ha' := abandoned_of_moved hv ha hmoved
  cases hmoved with
  | startRead h | readOn h | beginHeader h | moreHeader h | beginBody h | moreBody h | echoed h
  | receive h | sendHeader h | sendBody h =>
      rw [hm] at h
      cases h
  | endMessages h =>
      rw [hm] at h
      exact h.elim
  | failMessages h =>
      rw [hm] at h
      cases h
  | sleep => exact ⟨hm, ha', .inl rfl⟩
  | expire =>
      have hholding := ha'.unheld .sendHeartbeats
      obtain ⟨w, h', heq, hclaim⟩ := claimHeartbeats_eq s
      rcases claimHeartbeats_plain tryFirst s with hplain | ⟨-, hplain⟩
      · rw [hplain, heq] at ha' hholding ⊢
        rcases hclaim with rfl | rfl
        · exact absurd rfl hholding
        · exact ⟨hm, ha', .inr rfl⟩
      · rw [hplain] at hholding
        exact absurd rfl hholding
  | beginHeartbeat h | moreHeartbeat h | beaten h | sendHeartbeat h =>
      rw [h] at hh
      rcases hh with hh | hh <;> cases hh
  | endHeartbeats h =>
      rcases Heartbeats.view_of_broken h with h | h <;> simp [h] at hh
  | failHeartbeats h => simp [Heartbeats.view_of_fail h] at hh

/-! ### The end of a session -/

/-- The step with which `handle_messages` ends, while the session is alive. -/
theorem eq_endMessages (hw : Wired s) (hopen : s.isOpen = true) (hmoved : Moved tryFirst s s')
    (hm : s'.messages = .ended) : s' = s.endMessages := by
  have hne : s.messages ≠ .ended := fun h => by
    rw [hw.closed.mpr (.inl h)] at hopen
    cases hopen
  cases hmoved with
  | endMessages => rfl
  | @readOn pos m n spare h =>
      rcases continueRead_cases tryFirst s spare pos n with heq | ⟨length, heq⟩ | ⟨pos', k, heq⟩
      · exact heq
      · rw [heq] at hm
        rcases claimMessages_plain tryFirst s length with hplain | ⟨-, hplain⟩
        · obtain ⟨w, m, heq, rfl | rfl⟩ := claimMessages_eq s length <;>
            rw [hplain, heq] at hm <;> cases hm
        · rw [hplain] at hm
          cases hm
      · rw [heq] at hm
        cases hm
  | startRead | echoed =>
      unfold State.beginRead at hm
      split at hm <;> cases hm
  | beginHeader | moreHeader | beginBody | moreBody | receive | sendHeader | sendBody => cases hm
  | failMessages h => exact absurd hm (Messages.io_fail h).2.1.1
  | sleep | beginHeartbeat | moreHeartbeat | sendHeartbeat | failHeartbeats => exact absurd hm hne
  | expire =>
      obtain ⟨w, h', heq, -⟩ := claimHeartbeats_eq s
      rcases claimHeartbeats_plain tryFirst s with hplain | ⟨-, hplain⟩
      · rw [hplain, heq] at hm
        exact absurd hm hne
      · rw [hplain, heq] at hm
        exact absurd hm hne
  | beaten => exact absurd ((release_ended s .sendHeartbeats).1.mp hm) hne
  | endHeartbeats =>
      have hm : s.messages.abort = .ended := hm
      cases hmessages : s.messages <;> rw [hmessages] at hm hne <;>
        first | exact absurd rfl hne | cases hm

/-- Whether `handle_messages` leaves the lock taken behind. -/
theorem abandoned_endMessages_iff (hw : Wired s) (hv : Lock.Valid s.lock)
    (hopen : s.isOpen = true) :
    Lock.Abandoned s.endMessages.lock ↔ s.messages.view = .holding := by
  have hhview : s.endMessages.heartbeats.view = s.heartbeats.view.abort :=
    s.heartbeats.view_abort
  constructor
  · intro ha
    have htaken : s.lock.channel.buffer ≠ [] := by
      rw [show s.lock.channel.buffer = [()] from ha.taken]
      exact List.cons_ne_nil _ _
    rcases hv.owned htaken with ⟨_ | _, hi⟩ | ⟨i, hi⟩
    · exact hi
    · have hholding := ha.unheld .sendHeartbeats
      rw [show s.endMessages.lock.views .sendHeartbeats = _ from hhview] at hholding
      exact absurd (Lock.View.abort_eq_holding.mpr hi) hholding
    · exact absurd hi (hw.not_gone hopen i)
  · intro hm
    refine ⟨hv.held .handleMessages hm, ?_⟩
    rintro (_ | _) h
    · cases h
    · cases hv.exclusive .handleMessages .sendHeartbeats hm
        (Lock.View.abort_eq_holding.mp (hhview.symm.trans h))

/-- On a socket that `handle_messages` has closed, `send_heartbeats` ends after at most four
steps, whichever these are, unless it never ends. -/
theorem exec_ending {l : List Action} {t : State}
    (h : (machine tryFirst input).Reachable Machine.free s) (he : Ending s)
    (ht : (machine tryFirst input).exec s l = some t) :
    Ending t ∧ (machine tryFirst input).Reachable Machine.free t ∧
      t.heartbeats.rank + l.length ≤ s.heartbeats.rank := by
  induction l generalizing s with
  | nil =>
      obtain rfl : s = t := by simpa [Machine.exec] using ht
      exact ⟨he, h, Nat.le_refl _⟩
  | cons a l ih =>
      obtain ⟨s', hs, ht⟩ := Machine.exec_cons_some ht
      obtain ⟨he', hrank⟩ :=
        he.moved (wired_of_reachable h) (valid_lock h) (moved_of_step hs)
      obtain ⟨het, hreach, hlength⟩ := ih (h.step trivial hs) he' ht
      refine ⟨het, hreach, ?_⟩
      rw [List.length_cons]
      omega

theorem Heartbeats.rank_le (h : Heartbeats) : h.rank ≤ 4 := by
  unfold Heartbeats.rank
  split <;> decide

/-- `handle_messages` ends first, for whatever reason. If it is not in a write, or if
`send_heartbeats` waits for the lock, then `send_heartbeats` ends, too, within four steps.
Otherwise it never ends. -/
theorem heartbeats_end_iff (tryFirst : Bool) (input : List UInt8) (s s' : State) (a : Action)
    (h : (machine tryFirst input).Reachable Machine.free s) (hopen : s.isOpen = true)
    (hs : (machine tryFirst input).step s a = some s') (hm : s'.messages = .ended) :
    ((s.messages.view = .holding → s.heartbeats = .claiming) →
      ∀ l t, (machine tryFirst input).exec s' l = some t → l.length ≤ 4 ∧
        (t.heartbeats ≠ .ended → ∃ a t', (machine tryFirst input).step t a = some t')) ∧
    (¬ (s.messages.view = .holding → s.heartbeats = .claiming) →
      ∀ t, (machine tryFirst input).Steps Machine.free s' t → t.heartbeats ≠ .ended) := by
  have hw := wired_of_reachable h
  have hv := valid_lock h
  have hs' : (machine tryFirst input).Reachable Machine.free s' := h.step trivial hs
  obtain rfl := eq_endMessages hw hopen (moved_of_step hs) hm
  have hiff := abandoned_endMessages_iff hw hv hopen
  constructor
  · intro hclaiming l t ht
    have he : Ending s.endMessages := by
      refine ⟨hm, fun ha => .inl ?_⟩
      change s.heartbeats.abort = .cancelled
      rw [hclaiming (hiff.mp ha)]
      rfl
    obtain ⟨het, hreach, hlength⟩ := exec_ending hs' he ht
    have hrank := s.endMessages.heartbeats.rank_le
    exact ⟨by omega, het.exists_step (wired_of_reachable hreach) (valid_lock hreach)⟩
  · intro hnot t ht
    obtain ⟨hholding, hclaiming⟩ := Classical.not_imp.mp hnot
    have hstuck : Stuck s.endMessages := by
      refine ⟨hm, hiff.mpr hholding, .inl ?_⟩
      have hother : s.heartbeats.view ≠ .holding := fun hh => by
        cases hv.exclusive .handleMessages .sendHeartbeats hholding hh
      rw [show s.endMessages.heartbeats = s.heartbeats.abort from rfl, s.heartbeats.view_abort]
      have hcancelled : s.heartbeats ≠ .cancelled := fun hc => by
        rw [hw.cancelled (.inr hc)] at hopen
        cases hopen
      have hended : s.heartbeats ≠ .ended := fun hc => by
        rw [hw.closed.mpr (.inr hc)] at hopen
        cases hopen
      cases hheartbeats : s.heartbeats <;> simp_all [Heartbeats.view, Lock.View.abort]
    have hkeep : (machine tryFirst input).Reachable Machine.free t ∧ Stuck t := by
      refine ht.invariant (I := fun t => (machine tryFirst input).Reachable Machine.free t ∧
        Stuck t) ⟨hs', hstuck⟩ ?_
      rintro t a t' ⟨hreach, hstuck⟩ - hstep
      exact ⟨hreach.step trivial hstep, hstuck.moved (valid_lock hreach) (moved_of_step hstep)⟩
    intro hended
    have hview := hkeep.2.heartbeats
    rw [hended] at hview
    rcases hview with hview | hview <;> cases hview

/-- The write of an echo fails while `send_heartbeats` sleeps. -/
theorem heartbeats_never_end :
    ∃ s, (machine true [97, 10]).Reachable Machine.free s ∧ s.messages = .ended ∧
      ∀ t, (machine true [97, 10]).Steps Machine.free s t → t.heartbeats ≠ .ended := by
  obtain ⟨s, hs, hp⟩ := Machine.reachable_of_exec (M := machine true [97, 10])
    (l := [.resume .handleMessages 0, .resume .sendHeartbeats 0, .transfer .handleMessages 2,
      .resume .handleMessages 0, .fail .handleMessages])
    (p := fun s => s.isOpen && decide (s.messages.view = .holding) &&
      decide (s.heartbeats = .waiting) &&
      ((machine true [97, 10]).step s (.resume .handleMessages 0)).any
        fun t : State => decide (t.messages = .ended))
    (by decide)
  simp only [Bool.and_eq_true, decide_eq_true_eq] at hp
  obtain ⟨⟨⟨hopen, hholding⟩, hwaiting⟩, hany⟩ := hp
  obtain ⟨s', hs', hm⟩ := (Option.any_eq_true _ _).mp hany
  refine ⟨s', hs.step trivial hs', by simpa using hm, ?_⟩
  refine (heartbeats_end_iff _ _ s s' _ hs hopen hs' (by simpa using hm)).2 fun h => ?_
  rw [hwaiting] at h
  cases h hholding

end CppCode.EchoSession
