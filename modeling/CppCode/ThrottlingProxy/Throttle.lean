import CppCode.ThrottlingProxy.Relay

/-!
# CppCode.ThrottlingProxy.Throttle

How much the proxy lets through. A token is produced one interval after the last one has been
accepted by the channel, at the earliest (`due`); so in any time there are not more than the
intervals in it, and one more. What can be read in that time beyond these tokens is what has been
saved up before: a full channel, a token that waits for room in it, and the one being used up.
-/

namespace CppCode.ThrottlingProxy

open Concurrency

/-- The earliest time at which the next token may be produced. -/
def due (now : Nat) : ProduceTokens → Nat
  | .spawned => now
  | .sending | .sent => now + tokenInterval
  | .sleeping expiry => max expiry now

variable {input : Side → List UInt8} {s t : State} {d : Direction}

theorem due_mono {now now' : Nat} (h : now ≤ now') (p : ProduceTokens) :
    due now p ≤ due now' p := by
  cases p <;> simp only [due] <;> omega

theorem le_due (now : Nat) (p : ProduceTokens) :
    now + (if p = .sending then 1 else 0) * tokenInterval ≤ due now p := by
  cases p with
  | sending =>
      rw [if_pos rfl, Nat.one_mul]
      exact Nat.le_refl _
  | spawned | sent | sleeping =>
      rw [if_neg (by intro h; cases h), Nat.zero_mul]
      simp only [due]
      omega

theorem complete_due (d : Direction) (now : Nat)
    (o : AsyncChannel.Outcome numberOfTokens Party Nat) (h : d.produceTokens = .sending) :
    due now (d.complete o).produceTokens = now + tokenInterval := by
  simp only [Direction.complete, h]
  split <;> rfl

/-- A receive may at most let the send of the producer complete. -/
theorem complete_produceTokens {senders : List (Party × Nat)} (now : Nat)
    (o : AsyncChannel.Outcome numberOfTokens Party Nat)
    (hs : senders = o.sent.toList ++ o.channel.senders)
    (hsenders : senders =
      if d.produceTokens = .sending then [(.producer, bytesPerToken)] else []) :
    due now (d.complete o).produceTokens = due now d.produceTokens := by
  cases hsent : o.sent with
  | none => simp [Direction.complete, hsent]
  | some x =>
      have hsending : d.produceTokens = .sending := by
        by_contra hne
        rw [hsenders, if_neg hne, hsent] at hs
        cases hs
      rw [complete_due d now o hsending, hsending]
      rfl

theorem loop_due (available now : Nat) (h : d.Sound) :
    due now (d.loop available).produceTokens = due now d.produceTokens ∧
      (d.loop available).produced = d.produced := by
  unfold Direction.loop
  split
  · exact ⟨rfl, rfl⟩
  · exact ⟨complete_produceTokens (d := { d with transfer := .receiving }) now _
      (d.tokens.asyncReceive_exchanged .consumer).senders h.senders, rfl⟩

/-- A step produces at most one token, when it is due, and puts off the next one. -/
theorem moved_due {now : Nat} {d' : Direction} (h : d.Sound) (hd : d.Moved now d') :
    d.produced ≤ d'.produced ∧
      d'.produced * tokenInterval + due now d.produceTokens ≤
        d.produced * tokenInterval + due now d'.produceTokens := by
  have hloop : ∀ available, d.produced ≤ (d.loop available).produced ∧
      (d.loop available).produced * tokenInterval + due now d.produceTokens ≤
        d.produced * tokenInterval + due now (d.loop available).produceTokens := by
    intro available
    obtain ⟨hdue, hproduced⟩ := loop_due available now h
    rw [hdue, hproduced]
    exact ⟨Nat.le_refl _, Nat.le_refl _⟩
  cases hd with
  | send hp =>
      have hnow : due now d.produceTokens = now := by
        rcases hp with hp | ⟨expiry, hp, hle⟩
        · rw [hp]
          rfl
        · rw [hp]
          exact Nat.max_eq_right hle
      have hafter : due now d.send.produceTokens = now + tokenInterval := complete_due _ _ _ rfl
      have hproduced : d.send.produced = d.produced + 1 := rfl
      rw [hnow, hafter, hproduced, Nat.succ_mul]
      omega
  | sleep hp =>
      rw [hp]
      exact ⟨Nat.le_refl _, Nat.add_le_add_left (Nat.le_max_left _ _) _⟩
  | start | use | written => exact hloop _
  | beginWrite | moreWrite | read | write => exact ⟨Nat.le_refl _, Nat.le_refl _⟩

/-- The production of tokens between two states. -/
structure Paced (side : Side) (s t : State) : Prop where
  time : s.now ≤ t.now
  produced : (s.directions side).produced ≤ (t.directions side).produced
  pace : (t.directions side).produced * tokenInterval +
      due s.now (s.directions side).produceTokens ≤
    (s.directions side).produced * tokenInterval + due t.now (t.directions side).produceTokens

theorem paced_of_steps (side : Side) (h : (machine input).Reachable Machine.free s)
    (ht : (machine input).Steps Machine.free s t) : Paced side s t := by
  have key : (machine input).Reachable Machine.free t ∧ Paced side s t := by
    refine ht.invariant (I := fun t => (machine input).Reachable Machine.free t ∧
      Paced side s t) ⟨h, Nat.le_refl _, Nat.le_refl _, Nat.le_refl _⟩ ?_
    rintro t a t' ⟨hreach, htime, hproduced, hdue⟩ - hstep
    refine ⟨hreach.step (a := a) trivial hstep, ?_⟩
    rcases step_cases hstep with ⟨n, rfl⟩ | ⟨other, d, hd, rfl⟩ | rfl
    · refine ⟨Nat.le_trans htime (Nat.le_add_right _ _), hproduced, ?_⟩
      exact Nat.le_trans hdue (Nat.add_le_add_left (due_mono (Nat.le_add_right _ _) _) _)
    · by_cases hside : side = other
      · subst hside
        obtain ⟨hproduced', hdue'⟩ := moved_due (sound_of_reachable hreach side) hd
        refine ⟨htime, ?_, ?_⟩
        · simp only [Function.update_self]
          omega
        · simp only [Function.update_self]
          omega
      · refine ⟨htime, ?_, ?_⟩
        · simpa [Function.update_of_ne hside] using hproduced
        · simpa [Function.update_of_ne hside] using hdue
    · exact ⟨htime, hproduced, hdue⟩
  exact key.2

theorem moved_due_le {now : Nat} {d' : Direction} (h : d.Sound) (hd : d.Moved now d')
    (hle : due now d.produceTokens ≤ now + tokenInterval) :
    due now d'.produceTokens ≤ now + tokenInterval := by
  cases hd with
  | send => exact Nat.le_of_eq (complete_due _ _ _ rfl)
  | sleep => exact Nat.max_le.mpr ⟨Nat.le_refl _, Nat.le_add_right _ _⟩
  | start | use | written =>
      rw [(loop_due _ now h).1]
      exact hle
  | beginWrite | moreWrite | read | write => exact hle

/-- A timer is never set for longer than an interval. -/
theorem due_le (h : (machine input).Reachable Machine.free s) (side : Side) :
    due s.now (s.directions side).produceTokens ≤ s.now + tokenInterval := by
  refine h.invariant (I := fun s => ∀ side,
    due s.now (s.directions side).produceTokens ≤ s.now + tokenInterval)
    (fun _ => Nat.le_add_right _ _) ?_ side
  intro s a s' hreach hs _ hstep side
  rcases step_cases hstep with ⟨n, rfl⟩ | ⟨other, d, hd, rfl⟩ | rfl
  · have hle := hs side
    cases hp : (s.directions side).produceTokens <;> simp only [hp, due] at hle ⊢ <;> omega
  · by_cases hside : side = other
    · subst hside
      simpa using moved_due_le (sound_of_reachable hreach side) hd (hs side)
    · simpa [Function.update_of_ne hside] using hs side
  · exact hs side

theorem credit_le {t : Transfer} (h : t.Fits) : t.credit ≤ bytesPerToken := by
  match t, h with
  | .received _, h | .reading _ none, h => exact h
  | .reading _ (some _), h | .writing _ _ _ _, h => exact Nat.le_trans (Nat.sub_le _ _) h.1
  | .spawned, _ | .receiving, _ => exact Nat.zero_le _

/-- The tokens that have been saved up. -/
theorem saved_le (h : d.Sound) :
    d.transfer.credit + d.queued ≤
      bytesPerToken * (101 + if d.produceTokens = .sending then 1 else 0) := by
  have hcredit := credit_le h.fits
  have hbuffer : d.tokens.buffer.sum ≤ bytesPerToken * 100 := by
    have hreplicate := List.eq_replicate_iff.mpr ⟨rfl, h.tokens⟩
    rw [hreplicate, List.sum_replicate_nat, Nat.mul_comm]
    exact Nat.mul_le_mul_left _ d.tokens.bounded
  have hsenders : (d.tokens.senders.map Prod.snd).sum =
      bytesPerToken * if d.produceTokens = .sending then 1 else 0 := by
    rw [h.senders]
    split <;> simp
  rw [Direction.queued, hsenders, Nat.mul_add]
  omega

/-- How many tokens are produced between two states. A token that waits for room in the channel
delays the next one. -/
theorem Paced.produced_le {side : Side} (h : Paced side s t)
    (hdue : due t.now (t.directions side).produceTokens ≤ t.now + tokenInterval) :
    (t.directions side).produced +
        (if (s.directions side).produceTokens = .sending then 1 else 0) ≤
      (s.directions side).produced + ((t.now - s.now) / tokenInterval + 1) := by
  obtain ⟨k, hk⟩ := Nat.exists_eq_add_of_le h.produced
  have hpaced := h.pace
  rw [hk, Nat.add_mul] at hpaced
  have htime := h.time
  have hmul : (k + if (s.directions side).produceTokens = .sending then 1 else 0) *
      tokenInterval ≤ t.now - s.now + tokenInterval := by
    have hge := le_due s.now (s.directions side).produceTokens
    rw [Nat.add_mul]
    omega
  have hdiv := (Nat.le_div_iff_mul_le (by decide)).mpr hmul
  rw [Nat.add_div_right _ (by decide)] at hdiv
  omega

/-- In any time, a direction reads no more than the tokens of that time, one for each interval,
and a hundred and two that may have been saved up before. -/
theorem throttled (input : Side → List UInt8) (s t : State) (side : Side)
    (h : (machine input).Reachable Machine.free s)
    (ht : (machine input).Steps Machine.free s t) :
    (t.directions side).taken.length ≤ (s.directions side).taken.length +
      bytesPerToken * (102 + (t.now - s.now) / tokenInterval) := by
  have hreach := Machine.Steps.trans h ht
  have hbefore := (sound_of_reachable h side).account
  have hafter := (sound_of_reachable hreach side).account
  have hsaved := saved_le (sound_of_reachable h side)
  have hproduced := (paced_of_steps side h ht).produced_le (due_le hreach side)
  have htokens := Nat.mul_le_mul_left bytesPerToken hproduced
  rw [Nat.mul_add] at htokens
  simp only [Nat.mul_add] at htokens hsaved ⊢
  omega

/-- Two bytes read within the first interval. -/
theorem throttled_start :
    ∃ s : State, s.now = 50000000 ∧ (s.directions .client).taken.length = 2 ∧
      (s.directions .client).taken.length ≤
        0 + bytesPerToken * (102 + (50000000 - 0) / tokenInterval) := by
  obtain ⟨s, hs, hp⟩ := Machine.reachable_of_exec (M := machine fun _ => [1, 2, 3])
    (l := [.event .client .produce, .event .client .transfer, .event .client .transfer,
      .event .client (.read 2), .tick 50000000])
    (p := fun s => decide (s.now = 50000000 ∧ (s.directions .client).taken.length = 2)) (by decide)
  have hp : s.now = 50000000 ∧ (s.directions .client).taken.length = 2 := by simpa using hp
  have hle := throttled _ _ s .client Machine.Reachable.init hs
  rw [hp.1] at hle
  exact ⟨s, hp.1, hp.2, hle⟩

end CppCode.ThrottlingProxy
