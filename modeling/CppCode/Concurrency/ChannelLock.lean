import Mathlib.Logic.Function.Basic
import CppCode.Concurrency.AsyncChannel

/-!
# CppCode.Concurrency.ChannelLock

**A channel of capacity one as a lock.** A party claims the lock by sending a message and
releases it by receiving a message back, whichever that is. A party that leaves cancels the
channel, so that whoever waits for the lock learns about it; what it has sent and not received
back stays in the channel.

Two parties never hold the lock (`Lock.Valid.exclusive`). Whoever waits, waits for a party that
holds it, or for one that has left with it (`Lock.Abandoned`). That is for ever: an abandoned
lock is never held again (`Lock.abandoned_step`).
-/

namespace Concurrency

universe u

namespace Lock

/-- What a party has to do with the lock. -/
inductive View
  | idle
  /-- Its send has not completed. -/
  | claiming
  | holding
  /-- Its send has been cancelled. -/
  | cancelled
  | gone
  deriving Repr, DecidableEq

/-- What a party sees when another one leaves. -/
def View.abort : View → View
  | .claiming => .cancelled
  | v => v

structure State (ι : Type u) where
  channel : AsyncChannel 1 ι Unit
  views : ι → View

inductive Action (ι : Type u)
  | claim (i : ι)
  | release (i : ι)
  | leave (i : ι)
  deriving Repr, DecidableEq

variable {ι : Type u}

/-! ### A channel of capacity one -/

section Channel

variable {c : AsyncChannel 1 ι Unit} {i j : ι} {rest : List (ι × Unit)}

/-- A message in a channel of capacity one. -/
theorem buffer_eq_of_ne_nil (h : c.buffer ≠ []) : c.buffer = [()] := by
  have hbounded := c.bounded
  match hb : c.buffer with
  | [] => exact absurd hb h
  | [_] => rfl
  | _ :: _ :: _ =>
      rw [hb] at hbounded
      simp at hbounded

theorem buffer_eq_of_senders_ne_nil (h : c.senders ≠ []) : c.buffer = [()] := by
  have hfull := c.full h
  exact buffer_eq_of_ne_nil fun hnil => by simp [hnil] at hfull

theorem asyncSend_free (hr : c.receivers = []) (hb : c.buffer = []) :
    (c.asyncSend i ()).channel.buffer = [()] ∧ (c.asyncSend i ()).channel.senders = [] ∧
      (c.asyncSend i ()).channel.receivers = [] ∧ (c.asyncSend i ()).sent.isSome = true := by
  obtain ⟨hsenders, hreceivers, hbuffer⟩ := c.asyncSend_exchanged i ()
  have hnobody : c.senders = [] := by
    by_contra hne
    rw [buffer_eq_of_senders_ne_nil hne] at hb
    cases hb
  rw [hr] at hreceivers
  rw [hb, List.nil_append] at hbuffer
  rw [hnobody, List.nil_append] at hsenders
  generalize c.asyncSend i () = o at *
  obtain ⟨hreceived, hreceivers⟩ := List.append_eq_nil_iff.mp hreceivers.symm
  have hreceived := Option.map_eq_none_iff.mp (Option.toList_eq_nil_iff.mp hreceived)
  cases hsent : o.sent with
  | none =>
      -- a sender that waits would wait for an empty channel
      have hwaits : o.channel.senders ≠ [] := by
        rw [hsent] at hsenders
        rw [← show _ = o.channel.senders from hsenders]
        exact List.cons_ne_nil _ _
      rw [hsent, hreceived] at hbuffer
      rw [buffer_eq_of_senders_ne_nil hwaits] at hbuffer
      cases hbuffer
  | some x =>
      rw [hsent, hreceived] at hbuffer
      rw [hsent] at hsenders
      exact ⟨hbuffer.symm, (List.cons.inj hsenders).2.symm, hreceivers, rfl⟩

theorem asyncSend_taken (hr : c.receivers = []) (hb : c.buffer = [()]) :
    (c.asyncSend i ()).channel.buffer = [()] ∧
      (c.asyncSend i ()).channel.senders = c.senders ++ [(i, ())] ∧
      (c.asyncSend i ()).channel.receivers = [] ∧ (c.asyncSend i ()).sent.isSome = false := by
  obtain ⟨hsenders, hreceivers, hbuffer⟩ := c.asyncSend_exchanged i ()
  rw [hr] at hreceivers
  rw [hb] at hbuffer
  generalize c.asyncSend i () = o at *
  obtain ⟨hreceived, hreceivers⟩ := List.append_eq_nil_iff.mp hreceivers.symm
  have hreceived := Option.map_eq_none_iff.mp (Option.toList_eq_nil_iff.mp hreceived)
  rw [hreceived] at hbuffer
  cases hsent : o.sent with
  | none =>
      rw [hsent] at hsenders hbuffer
      exact ⟨hbuffer.symm, hsenders.symm, hreceivers, rfl⟩
  | some x =>
      -- there is no room for a second message
      have hbounded := o.channel.bounded
      rw [hsent] at hbuffer
      rw [← show _ = o.channel.buffer from hbuffer] at hbounded
      simp at hbounded

theorem tryReceive_taken (hr : c.receivers = []) (hb : c.buffer = [()]) :
    ∃ o, c.tryReceive i = some o ∧ o.channel.receivers = [] ∧
      c.senders = o.sent.toList ++ o.channel.senders ∧
      o.channel.buffer = (o.sent.map Prod.snd).toList := by
  refine ⟨c.asyncReceive i, ?_, ?_⟩
  · rw [AsyncChannel.tryReceive, if_neg]
    rintro ⟨hnil, -⟩
    rw [hb] at hnil
    cases hnil
  obtain ⟨hsenders, hreceivers, hbuffer⟩ := c.asyncReceive_exchanged i
  rw [hr, List.nil_append] at hreceivers
  rw [hb] at hbuffer
  generalize c.asyncReceive i = o at *
  cases hreceived : o.received with
  | none =>
      -- a receiver that waits would wait for a message that is there
      rw [hreceived] at hreceivers hbuffer
      have hwaits : o.channel.receivers ≠ [] := by
        rw [← show _ = o.channel.receivers from hreceivers]
        exact List.cons_ne_nil _ _
      rw [(o.channel.drained hwaits).1] at hbuffer
      cases hbuffer
  | some x =>
      rw [hreceived] at hreceivers hbuffer
      exact ⟨(List.cons.inj hreceivers).2.symm, hsenders, (List.cons.inj hbuffer).2.symm⟩

end Channel

/-! ### A well-kept lock -/

/-- A lock is well kept: those who wait are those whose send has not completed, and the message
in the channel is that of the holder or of a party that has left. -/
structure Valid (s : State ι) : Prop where
  receivers : s.channel.receivers = []
  nodup : s.channel.senders.Nodup
  senders : ∀ i, (i, ()) ∈ s.channel.senders ↔ s.views i = .claiming
  exclusive : ∀ i j, s.views i = .holding → s.views j = .holding → i = j
  held : ∀ i, s.views i = .holding → s.channel.buffer = [()]
  owned : s.channel.buffer ≠ [] → (∃ i, s.views i = .holding) ∨ ∃ i, s.views i = .gone

/-- The lock is taken, and nobody holds it. -/
structure Abandoned (s : State ι) : Prop where
  taken : s.channel.buffer = [()]
  unheld : ∀ i, s.views i ≠ .holding

/-- A lock nobody has claimed yet. -/
theorem valid_empty : Valid (⟨.empty 1 ι Unit, fun _ => .idle⟩ : State ι) where
  receivers := rfl
  nodup := List.nodup_nil
  senders := by simp [AsyncChannel.empty]
  exclusive := by simp
  held := by simp
  owned := fun h => absurd rfl h

/-- Whoever waits for the lock waits for its holder, or in vain. -/
theorem Valid.held_of_claiming {s : State ι} {i : ι} (hv : Valid s) (hi : s.views i = .claiming) :
    (∃ j, s.views j = .holding) ∨ Abandoned s := by
  have hmem := (hv.senders i).mpr hi
  have htaken := buffer_eq_of_senders_ne_nil (List.ne_nil_of_mem hmem)
  by_cases h : ∃ j, s.views j = .holding
  · exact .inl h
  · exact .inr ⟨htaken, fun j hj => h ⟨j, hj⟩⟩

/-! ### Steps -/

variable [DecidableEq ι]

/-- The send of `i` completes. -/
def State.grant (s : State ι) (i : ι) : State ι :=
  match s.views i with
  | .claiming => { s with views := Function.update s.views i .holding }
  | _ => s

/-- Whoever is granted the lock is not one that does not wait for it. -/
theorem State.grant_update {s : State ι} {i j : ι} {v : View} (hi : s.views i ≠ .claiming)
    (hv : v ≠ .claiming) :
    { s with views := Function.update s.views i v }.grant j =
      { s.grant j with views := Function.update (s.grant j).views i v } := by
  unfold State.grant
  by_cases hij : j = i
  · subst hij
    simp only [Function.update_self]
  · simp only [Function.update_of_ne hij]
    cases h : s.views j <;> simp only [Function.update_comm (Ne.symm hij)]

/-- The parties that leave do so while they do not wait. -/
def step (s : State ι) : Action ι → Option (State ι)
  | .claim i =>
      match s.views i with
      | .idle =>
          let o := s.channel.asyncSend i ()
          some
            { channel := o.channel
              views := Function.update s.views i (if o.sent.isSome then .holding else .claiming) }
      | _ => none
  | .release i =>
      match s.views i with
      | .holding =>
          let s := { s with views := Function.update s.views i .idle }
          match s.channel.tryReceive i with
          | none => some s
          | some o =>
              let s := { s with channel := o.channel }
              match o.sent with
              | some (j, _) => some (s.grant j)
              | none => some s
      | _ => none
  | .leave i =>
      match s.views i with
      | .claiming | .gone => none
      | _ =>
          some
            { channel := s.channel.cancel
              views := Function.update (fun j => (s.views j).abort) i .gone }

/-! ### What a step does -/

/-- The steps of a well-kept lock. -/
inductive Moved (s : State ι) : Action ι → State ι → Prop
  | take {i c} : s.views i = .idle → s.channel.buffer = [] → s.channel.senders = [] →
      c.buffer = [()] → c.senders = [] → c.receivers = [] →
      Moved s (.claim i) ⟨c, Function.update s.views i .holding⟩
  | wait {i c} : s.views i = .idle → s.channel.buffer = [()] →
      c.buffer = [()] → c.senders = s.channel.senders ++ [(i, ())] → c.receivers = [] →
      Moved s (.claim i) ⟨c, Function.update s.views i .claiming⟩
  | free {i c} : s.views i = .holding → s.channel.senders = [] →
      c.buffer = [] → c.senders = [] → c.receivers = [] →
      Moved s (.release i) ⟨c, Function.update s.views i .idle⟩
  | handOver {i j c} : s.views i = .holding → s.channel.senders = (j, ()) :: c.senders →
      c.buffer = [()] → c.receivers = [] →
      Moved s (.release i) ⟨c, Function.update (Function.update s.views i .idle) j .holding⟩
  | leave {i c} : s.views i ≠ .claiming → s.views i ≠ .gone →
      c.buffer = s.channel.buffer → c.senders = [] → c.receivers = [] →
      Moved s (.leave i) ⟨c, Function.update (fun j => (s.views j).abort) i .gone⟩

theorem moved_of_step {s s' : State ι} {a : Action ι} (hv : Valid s) (h : step s a = some s') :
    Moved s a s' := by
  cases a with
  | claim i =>
      cases hi : s.views i <;> simp only [step, hi, reduceCtorEq] at h
      case idle =>
        obtain rfl := Option.some.inj h
        by_cases hb : s.channel.buffer = []
        · obtain ⟨hbuffer, hsenders, hreceivers, hsent⟩ :=
            asyncSend_free (i := i) hv.receivers hb
          have hnobody : s.channel.senders = [] := by
            by_contra hne
            rw [buffer_eq_of_senders_ne_nil hne] at hb
            cases hb
          rw [if_pos hsent]
          exact .take hi hb hnobody hbuffer hsenders hreceivers
        · have hb := buffer_eq_of_ne_nil hb
          obtain ⟨hbuffer, hsenders, hreceivers, hsent⟩ :=
            asyncSend_taken (i := i) hv.receivers hb
          rw [if_neg (by rw [hsent]; exact Bool.false_ne_true)]
          exact .wait hi hb hbuffer hsenders hreceivers
  | release i =>
      cases hi : s.views i <;> simp only [step, hi, reduceCtorEq] at h
      case holding =>
        obtain ⟨o, ho, hreceivers, hsenders, hbuffer⟩ :=
          tryReceive_taken (i := i) hv.receivers (hv.held i hi)
        simp only [ho] at h
        cases hsent : o.sent with
        | none =>
            simp only [hsent, Option.some.injEq] at h
            rw [hsent] at hsenders hbuffer
            subst h
            have hnobody : o.channel.senders = [] := by
              by_contra hne
              rw [buffer_eq_of_senders_ne_nil hne] at hbuffer
              cases hbuffer
            exact .free hi (hsenders.trans hnobody) hbuffer hnobody hreceivers
        | some x =>
            obtain ⟨j, u⟩ := x
            simp only [hsent, Option.some.injEq] at h
            rw [hsent] at hsenders hbuffer
            have hj : s.views j = .claiming :=
              (hv.senders j).mp (by rw [hsenders]; exact List.mem_cons_self ..)
            have hne : j ≠ i := by
              rintro rfl
              rw [hi] at hj
              cases hj
            simp only [State.grant, Function.update_of_ne hne, hj] at h
            subst h
            exact .handOver hi hsenders hbuffer hreceivers
  | leave i =>
      cases hi : s.views i <;> simp only [step, hi, reduceCtorEq] at h
      all_goals
        obtain rfl := Option.some.inj h
        exact .leave (by rw [hi]; intro h; cases h) (by rw [hi]; intro h; cases h) rfl rfl rfl

/-! ### Invariants -/

variable {s s' : State ι} {a : Action ι}

theorem View.abort_eq_holding {v : View} : v.abort = .holding ↔ v = .holding := by
  cases v <;> decide

theorem View.abort_ne_claiming (v : View) : v.abort ≠ .claiming := by
  cases v <;> decide

theorem Valid.step (hv : Valid s) (h : step s a = some s') : Valid s' := by
  have hcases := moved_of_step hv h
  cases hcases with
  | @take i c hi hb hs hbuffer hsenders hreceivers =>
      have hnone : ∀ j, s.views j ≠ .holding := by
        intro j hj
        rw [hv.held j hj] at hb
        cases hb
      refine ⟨hreceivers, ?_, ?_, ?_, fun _ _ => hbuffer, ?_⟩
      · rw [hsenders]
        exact List.nodup_nil
      · intro j
        have hj := hv.senders j
        simp only [hsenders, hs, Function.update_apply] at hj ⊢
        split <;> simp_all
      · intro j k hj hk
        simp only [Function.update_apply] at hj hk
        split at hj <;> split at hk <;> simp_all
      · exact fun _ => .inl ⟨i, Function.update_self ..⟩
  | @wait i c hi hb hbuffer hsenders hreceivers =>
      have hnot : (i, ()) ∉ s.channel.senders := by
        rw [hv.senders, hi]
        intro h
        cases h
      refine ⟨hreceivers, ?_, ?_, ?_, fun _ _ => hbuffer, ?_⟩
      · rw [hsenders, List.nodup_append]
        refine ⟨hv.nodup, by simp, ?_⟩
        rintro x hx y hy rfl
        rw [List.mem_singleton.mp hy] at hx
        exact hnot hx
      · intro j
        have hj := hv.senders j
        simp only [hsenders, List.mem_append, List.mem_singleton, Prod.mk.injEq, and_true,
          Function.update_apply] at hj ⊢
        split <;> simp_all
      · intro j k hj hk
        simp only [Function.update_apply] at hj hk
        split at hj
        · cases hj
        · split at hk
          · cases hk
          · exact hv.exclusive j k hj hk
      · intro _
        have hother : ∀ {j}, s.views j ≠ .idle →
            Function.update s.views i .claiming j = s.views j :=
          fun hj => Function.update_of_ne (by rintro rfl; exact hj hi) ..
        rcases hv.owned (by rw [hb]; exact List.cons_ne_nil _ _) with ⟨j, hj⟩ | ⟨j, hj⟩
        · exact .inl ⟨j, (hother (by rw [hj]; decide)).trans hj⟩
        · exact .inr ⟨j, (hother (by rw [hj]; decide)).trans hj⟩
  | @free i c hi hs hbuffer hsenders hreceivers =>
      have hnone : ∀ j, j ≠ i → s.views j ≠ .holding :=
        fun j hne hj => hne (hv.exclusive j i hj hi)
      refine ⟨hreceivers, ?_, ?_, ?_, ?_, fun h => absurd hbuffer h⟩
      · rw [hsenders]
        exact List.nodup_nil
      · intro j
        have hj := hv.senders j
        simp only [hsenders, hs, Function.update_apply] at hj ⊢
        split <;> simp_all
      · intro j k hj hk
        simp only [Function.update_apply] at hj
        split at hj
        · cases hj
        · exact absurd hj (hnone j ‹_›)
      · intro j hj
        simp only [Function.update_apply] at hj
        split at hj
        · cases hj
        · exact absurd hj (hnone j ‹_›)
  | @handOver i j c hi hs hbuffer hreceivers =>
      have hnodup := hv.nodup
      rw [hs, List.nodup_cons] at hnodup
      have hj : s.views j = .claiming :=
        (hv.senders j).mp (by rw [hs]; exact List.mem_cons_self ..)
      have hne : i ≠ j := by
        rintro rfl
        rw [hi] at hj
        cases hj
      refine ⟨hreceivers, hnodup.2, ?_, ?_, fun _ _ => hbuffer,
        fun _ => .inl ⟨j, Function.update_self ..⟩⟩
      · intro k
        have hk := hv.senders k
        rw [hs, List.mem_cons] at hk
        by_cases hkj : k = j
        · subst hkj
          simpa using hnodup.1
        · by_cases hki : k = i
          · subst hki
            simpa [Function.update_of_ne hkj, hi, hkj] using hk
          · simpa [Function.update_of_ne hkj, Function.update_of_ne hki, hkj] using hk
      · intro k l hk hl
        have holds : ∀ k, Function.update (Function.update s.views i .idle) j .holding k =
            .holding → k = j := by
          intro k hk
          by_contra hkj
          rw [Function.update_of_ne hkj] at hk
          by_cases hki : k = i
          · simp [hki] at hk
          · rw [Function.update_of_ne hki] at hk
            exact hki (hv.exclusive k i hk hi)
        rw [holds k hk, holds l hl]
  | @leave i c hi hgone hbuffer hsenders hreceivers =>
      have holds : ∀ j, Function.update (fun j => (s.views j).abort) i .gone j = .holding →
          s.views j = .holding := by
        intro j hj
        simp only [Function.update_apply] at hj
        split at hj
        · cases hj
        · exact View.abort_eq_holding.mp hj
      refine ⟨hreceivers, ?_, ?_, ?_, ?_, fun _ => .inr ⟨i, ?_⟩⟩
      · rw [hsenders]
        exact List.nodup_nil
      · intro j
        have hj := View.abort_ne_claiming (s.views j)
        simp only [hsenders, Function.update_apply]
        split <;> simp_all
      · exact fun j k hj hk => hv.exclusive j k (holds j hj) (holds k hk)
      · exact fun j hj => hbuffer.trans (hv.held j (holds j hj))
      · simp

/-- A claim of a free lock gets it. -/
theorem holding_of_claim {i : ι} (hv : Valid s) (hb : s.channel.buffer = [])
    (h : step s (.claim i) = some s') : s'.views i = .holding := by
  cases moved_of_step hv h with
  | take => simp
  | wait _ htaken =>
      rw [hb] at htaken
      cases htaken

/-- A lock for which nobody waits is free after its release. -/
theorem free_of_release {i : ι} (hv : Valid s) (hnobody : ∀ j, s.views j ≠ .claiming)
    (h : step s (.release i) = some s') : s'.channel.buffer = [] := by
  cases moved_of_step hv h with
  | free _ _ hb => exact hb
  | @handOver i j c _ hs =>
      have hmem : (j, ()) ∈ s.channel.senders := by
        rw [hs]
        exact List.mem_cons_self ..
      exact absurd ((hv.senders j).mp hmem) (hnobody j)

/-- An abandoned lock is abandoned for ever. -/
theorem abandoned_step (hv : Valid s) (ha : Abandoned s) (h : step s a = some s') :
    Abandoned s' := by
  have hcases := moved_of_step hv h
  cases hcases with
  | take _ hb => exact absurd (hb.symm.trans ha.taken) (by simp)
  | @wait i c hi hb hbuffer hsenders hreceivers =>
      refine ⟨hbuffer, fun j hj => ?_⟩
      simp only [Function.update_apply] at hj
      split at hj
      · cases hj
      · exact ha.unheld j hj
  | free hi => exact absurd hi (ha.unheld _)
  | handOver hi => exact absurd hi (ha.unheld _)
  | @leave i c hi hgone hbuffer hsenders hreceivers =>
      refine ⟨hbuffer.trans ha.taken, fun j hj => ?_⟩
      simp only [Function.update_apply] at hj
      split at hj
      · cases hj
      · exact ha.unheld j (View.abort_eq_holding.mp hj)

end Lock

end Concurrency
