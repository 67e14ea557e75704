import CppCode.LogStruct.Capacity

/-!
# CppCode.LogStruct.WriteCall

**One `write()` from a state at rest.** The worker waits, no vector is handed over
and the producer calls `write(record)`: `WriteCall` follows the call through every
position of `write()` and of the `flush()` it may call, against any schedule. Until
the `test_and_set` the worker cannot move, so nothing interferes; from then on the
record is in the vector that was handed over, and the call only has to return.

`WriteSucceeds` is the resulting specification of the call: it returns true after a
bounded number of the producer's own steps, never blocks on the way, and the record
is the tail of the active vector or of the vector just handed over.
-/

namespace CppCode.LogStruct

open Concurrency

variable {cfg : Config}

/-- Nobody is doing anything: no call, no vector handed over, the worker waits. -/
structure Resting (s : State cfg) : Prop where
  producer : s.producer = .idle
  isWriting : s.isWriting = false
  worker : s.worker = .wait

/-- A step of the call that the producer is in. -/
def Action.isProducer : Action cfg → Bool
  | .producer | .clock _ => true
  | _ => false

/-- The producer starts another call. -/
def Action.startsCall : Action cfg → Bool
  | .call _ | .destroy => true
  | _ => false

/-- `write(record)`, called in `s₀`, has returned true in `s`, and the record is the
tail of the active vector or of the vector that the call handed over. -/
def WriteReturned (s₀ : State cfg) (record : Record cfg) (s : State cfg) : Prop :=
  s.producer = .idle ∧
    ((s.history = s₀.history ++ [.returned (.write (some record)) true] ∧
        s.currentVector = s₀.currentVector ∧ active s = active s₀ ++ record.val) ∨
      s.history = s₀.history ++
        [.handedOver (active s₀ ++ record.val), .returned (.write (some record)) true])

/-- `write(record)`, called in `s`, succeeds under every schedule: as long as it has
not returned true with the record in place, it is under way, has taken fewer than
thirteen steps and can take the next one. -/
def WriteSucceeds (now : Int) (s : State cfg) (record : Record cfg) : Prop :=
  ∀ as s', (machine cfg now).exec s (.call (.write (some record)) :: as) = some s' →
    (∀ a ∈ as, a.startsCall = false) →
    WriteReturned s record s' ∨
      (s'.producer.inWrite = true ∧ as.countP Action.isProducer < 13 ∧
        ∃ a, a.isProducer = true ∧ ((machine cfg now).step s' a).isSome = true)

/-! ### How far the call is -/

/-- The steps that are left of `flush()`. -/
def FlushPc.rank : FlushPc → Nat
  | .checkWriting => 8
  | .markWriting => 7
  | .loadCurrent => 6
  | .loadNext _ => 5
  | .storeCurrent _ _ => 4
  | .storeNext _ => 3
  | .signal => 2
  | .notify => 1

/-- The steps that are left of `write()`, if it flushes. -/
def WritePc.rank : WritePc cfg → Nat
  | .loadCurrent _ => 13
  | .checkCapacity _ _ => 12
  | .insert _ _ => 11
  | .readClock _ _ => 10
  | .checkThreshold _ _ _ => 9

def Producer.rank : Producer cfg → Nat
  | .write pc => pc.rank
  | .flush _ pc => pc.rank
  | _ => 0

/-- The record that a `write()` has yet to append. -/
def Producer.toAppend : Producer cfg → Option (Record cfg)
  | .write (.loadCurrent data) | .write (.checkCapacity data _) => data
  | .write (.insert record _) => some record
  | _ => none

/-- The record of a `write()` that has appended it and not yet marked the exchange. -/
def Producer.beforeSwap : Producer cfg → Option (Record cfg)
  | .write (.readClock data _) | .write (.checkThreshold data _ _) => data
  | .flush (.write data _) .checkWriting => data
  | _ => none

/-- The vector that the exchange under way hands over. -/
def FlushPc.outgoing (current next : VecId) : FlushPc → VecId
  | .storeNext oldCurrent => oldCurrent
  | .signal => next
  | _ => current

/-- The worker cannot move, the history is that of `s₀`, and the vector that was
active in `s₀` holds `bytes`. -/
structure Quiet (s₀ s : State cfg) (bytes : List UInt8) : Prop where
  worker : s.worker = .wait
  hasData : s.hasDataToWrite = false
  history : s.history = s₀.history
  content : s.vectors s₀.currentVector = bytes

/-- The stages of `write(record)`, called in `s₀`. -/
inductive WriteCall (s₀ : State cfg) (record : Record cfg) (s : State cfg) : Prop
  | checking (hq : Quiet s₀ s (active s₀)) (hcur : s.currentVector = s₀.currentVector)
      (hw : s.isWriting = false) (hp : s.producer.toAppend = some record)
  | appended (hq : Quiet s₀ s (active s₀ ++ record.val))
      (hcur : s.currentVector = s₀.currentVector) (hw : s.isWriting = false)
      (hp : s.producer.beforeSwap = some record)
  | swapping {now : Int} {pc : FlushPc} (hq : Quiet s₀ s (active s₀ ++ record.val))
      (hp : s.producer = .flush (.write (some record) now) pc) (hpc : pc.swapping = true)
      (hout : pc.outgoing s.currentVector s.nextVector = s₀.currentVector)
  | handedOver {now : Int} (hp : s.producer = .flush (.write (some record) now) .notify)
      (hh : s.history = s₀.history ++ [.handedOver (active s₀ ++ record.val)])
  | returned (hq : s.worker = .wait ∧ s.hasDataToWrite = false) (hp : s.producer = .idle)
      (hh : s.history = s₀.history ++ [.returned (.write (some record)) true])
      (hcur : s.currentVector = s₀.currentVector) (hv : active s = active s₀ ++ record.val)
  | returnedHanded (hp : s.producer = .idle)
      (hh : s.history = s₀.history ++
        [.handedOver (active s₀ ++ record.val), .returned (.write (some record)) true])

variable {s₀ s s' : State cfg} {record : Record cfg}

/-- A worker that waits on a clear flag has no step. -/
theorem WorkerMoved.not_asleep (h : WorkerMoved s s') (hw : s.worker = .wait)
    (hf : s.hasDataToWrite = false) : False := by
  cases h with
  | wake hw' hf' => simp [hf] at hf'
  | _ hw' => simp [hw] at hw'

/-- Nor does it call `::write`. -/
theorem sysWriteStep_not_asleep {result : Int} (h : sysWriteStep s result = some s')
    (hw : s.worker = .wait) : False := by
  obtain ⟨target, need, written, hw', -⟩ := sysWriteStep_moved h
  simp [hw] at hw'

/-- One step of the call keeps it on its way, and costs the producer one of its
remaining steps. -/
def Advances (s₀ : State cfg) (record : Record cfg) (s : State cfg) (a : Action cfg)
    (s' : State cfg) : Prop :=
  WriteCall s₀ record s' ∧
    s'.producer.rank + (if a.isProducer then 1 else 0) ≤ s.producer.rank

/-- While the worker sleeps only the producer's own steps are possible. -/
theorem moved_of_asleep {a : Action cfg} (hm : Moved s a s') (ha : a.startsCall = false)
    (hw : s.worker = .wait) (hf : s.hasDataToWrite = false) :
    (∃ pc, s.producer = .write pc ∧ a = .producer ∧ writeStep s pc = some s') ∨
      (∃ data curr now, s.producer = .write (.readClock data curr) ∧ a = .clock now ∧
        s' = { s with producer := .write (.checkThreshold data curr now) }) ∨
      (∃ caller pc, s.producer = .flush caller pc ∧ a = .producer ∧ s' = flushStep s caller pc) ∨
      (∃ pc, s.producer = .destroy pc) := by
  cases hm with
  | callWrite | callFlush | callDestroy => cases ha
  | clock now hp => exact .inr (.inl ⟨_, _, now, hp, rfl, rfl⟩)
  | write hp hs => exact .inl ⟨_, hp, rfl, hs⟩
  | flush hp => exact .inr (.inr (.inl ⟨_, _, hp, rfl, rfl⟩))
  | destroy hp hs => exact .inr (.inr (.inr ⟨_, hp⟩))
  | worker hs => exact (hs.not_asleep hw hf).elim
  | sysWrite hs => exact (sysWriteStep_not_asleep hs hw).elim

theorem checking_advances {a : Action cfg} (hq : Quiet s₀ s (active s₀))
    (hcur : s.currentVector = s₀.currentVector) (hw : s.isWriting = false)
    (hp : s.producer.toAppend = some record) (ho : Ownership s)
    (hroom : overCapacity s₀ s₀.currentVector = false) (ha : a.startsCall = false)
    (hm : Moved s a s') : Advances s₀ record s a s' := by
  have hptr := ho.pointers
  rcases moved_of_asleep hm ha hq.worker hq.hasData with
    ⟨pc, hpc, rfl, hs⟩ | ⟨data, curr, now, hpc, -⟩ | ⟨caller, pc, hpc, -⟩ | ⟨pc, hpc⟩
  · rw [hpc] at hp hptr
    unfold Advances
    rw [hpc]
    cases pc with
    | loadCurrent data =>
        obtain rfl : data = some record := hp
        obtain rfl := Option.some.inj hs
        exact ⟨.checking ⟨hq.worker, hq.hasData, hq.history, hq.content⟩ hcur hw rfl, Nat.le_refl _⟩
    | checkCapacity data curr =>
        obtain rfl : data = some record := hp
        -- the vector is as it was when the call started, so the record fits
        have hfit : overCapacity s curr = false := by
          rw [← hroom, hptr.1, hcur]
          simp only [overCapacity, hq.content]
          rfl
        simp only [writeStep, hfit, Bool.false_eq_true, if_false, Option.some.injEq] at hs
        subst hs
        exact ⟨.checking ⟨hq.worker, hq.hasData, hq.history, hq.content⟩ hcur hw rfl, Nat.le_refl _⟩
    | insert record' curr =>
        obtain rfl : record' = record := Option.some.inj hp
        obtain rfl := Option.some.inj hs
        obtain rfl : curr = s₀.currentVector := hptr.1.trans hcur
        refine ⟨.appended ⟨hq.worker, hq.hasData, hq.history, ?_⟩ hcur hw rfl, Nat.le_refl _⟩
        show Function.update s.vectors s₀.currentVector _ s₀.currentVector = _
        rw [Function.update_self, hq.content]
    | readClock data curr => cases hs
    | checkThreshold data curr now => cases hp
  · rw [hpc] at hp
    cases hp
  · rw [hpc] at hp
    cases hp
  · rw [hpc] at hp
    cases hp

theorem appended_advances {a : Action cfg} (hq : Quiet s₀ s (active s₀ ++ record.val))
    (hcur : s.currentVector = s₀.currentVector) (hw : s.isWriting = false)
    (hp : s.producer.beforeSwap = some record) (ha : a.startsCall = false)
    (hm : Moved s a s') : Advances s₀ record s a s' := by
  rcases moved_of_asleep hm ha hq.worker hq.hasData with
    ⟨pc, hpc, rfl, hs⟩ | ⟨data, curr, now, hpc, rfl, rfl⟩ | ⟨caller, pc, hpc, rfl, rfl⟩ | ⟨pc, hpc⟩
  · rw [hpc] at hp
    unfold Advances
    rw [hpc]
    cases pc with
    | checkThreshold data curr now =>
        obtain rfl : data = some record := hp
        simp only [writeStep] at hs
        split at hs
        · obtain rfl := Option.some.inj hs
          exact ⟨.appended ⟨hq.worker, hq.hasData, hq.history, hq.content⟩ hcur hw rfl, Nat.le_refl _⟩
        · obtain rfl := Option.some.inj hs
          refine ⟨.returned ⟨hq.worker, hq.hasData⟩ rfl ?_ hcur ?_, show 0 + 1 ≤ 9 by decide⟩
          · show s.history ++ _ = _
            rw [hq.history]
          · show s.vectors s.currentVector = _
            rw [hcur, hq.content]
    | readClock data curr => cases hs
    | _ => cases hp
  · rw [hpc] at hp
    unfold Advances
    rw [hpc]
    obtain rfl : data = some record := hp
    exact ⟨.appended ⟨hq.worker, hq.hasData, hq.history, hq.content⟩ hcur hw rfl, Nat.le_refl _⟩
  · rw [hpc] at hp
    unfold Advances
    rw [hpc]
    cases caller with
    | write data now =>
        cases pc with
        | checkWriting =>
            obtain rfl : data = some record := hp
            simp only [flushStep, hw, Bool.false_eq_true, if_false]
            exact ⟨.swapping ⟨hq.worker, hq.hasData, hq.history, hq.content⟩ rfl rfl hcur,
              Nat.le_refl _⟩
        | _ => cases hp
    | _ => cases hp
  · rw [hpc] at hp
    cases hp

theorem swapping_advances {a : Action cfg} {now : Int} {pc : FlushPc}
    (hq : Quiet s₀ s (active s₀ ++ record.val))
    (hp : s.producer = .flush (.write (some record) now) pc) (hpc : pc.swapping = true)
    (hout : pc.outgoing s.currentVector s.nextVector = s₀.currentVector) (ho : Ownership s)
    (ha : a.startsCall = false) (hm : Moved s a s') : Advances s₀ record s a s' := by
  have hptr := ho.pointers
  have hq' : ∀ {t : State cfg}, t.worker = s.worker → t.hasDataToWrite = s.hasDataToWrite →
      t.history = s.history → t.vectors = s.vectors → Quiet s₀ t (active s₀ ++ record.val) :=
    fun h1 h2 h3 h4 => ⟨h1.trans hq.worker, h2.trans hq.hasData, h3.trans hq.history,
      by rw [h4]; exact hq.content⟩
  rcases moved_of_asleep hm ha hq.worker hq.hasData with
    ⟨pc', hpc', -⟩ | ⟨data, curr, now', hpc', -⟩ | ⟨caller, pc', hpc', rfl, rfl⟩ | ⟨pc', hpc'⟩
  · rw [hp] at hpc'
    cases hpc'
  · rw [hp] at hpc'
    cases hpc'
  · rw [hp] at hpc' hptr
    obtain ⟨rfl, rfl⟩ := Producer.flush.inj hpc'
    unfold Advances
    rw [hp]
    cases pc with
    | checkWriting => cases hpc
    | notify => cases hpc
    | markWriting => exact ⟨.swapping (hq' rfl rfl rfl rfl) rfl rfl hout, Nat.le_refl _⟩
    | loadCurrent => exact ⟨.swapping (hq' rfl rfl rfl rfl) rfl rfl hout, Nat.le_refl _⟩
    | loadNext oldCurrent => exact ⟨.swapping (hq' rfl rfl rfl rfl) rfl rfl hout, Nat.le_refl _⟩
    | storeCurrent oldCurrent oldNext =>
        exact ⟨.swapping (hq' rfl rfl rfl rfl) rfl rfl (hptr.1.trans hout), Nat.le_refl _⟩
    | storeNext oldCurrent => exact ⟨.swapping (hq' rfl rfl rfl rfl) rfl rfl hout, Nat.le_refl _⟩
    | signal =>
        refine ⟨.handedOver rfl ?_, Nat.le_refl _⟩
        show s.history ++ [.handedOver (s.vectors s.nextVector)] = _
        rw [hq.history, show s.nextVector = s₀.currentVector from hout, hq.content]
  · rw [hp] at hpc'
    cases hpc'

theorem WorkerMoved.untouched (h : WorkerMoved s s') :
    s'.producer = s.producer ∧ s'.history = s.history := by
  cases h <;> exact ⟨rfl, rfl⟩

theorem sysWriteStep_untouched {result : Int} (h : sysWriteStep s result = some s') :
    s'.producer = s.producer ∧ s'.history = s.history := by
  obtain ⟨target, need, written, -, -, ⟨-, rfl⟩ | ⟨n, -, -, -, rfl⟩⟩ := sysWriteStep_moved h <;>
    exact ⟨rfl, rfl⟩

theorem handedOver_advances {a : Action cfg} {now : Int}
    (hp : s.producer = .flush (.write (some record) now) .notify)
    (hh : s.history = s₀.history ++ [.handedOver (active s₀ ++ record.val)])
    (hm : Moved s a s') : Advances s₀ record s a s' := by
  -- the worker is awake by now, but it touches neither the producer nor the history
  have hworker : s'.producer = s.producer ∧ s'.history = s.history → a.isProducer = false →
      Advances s₀ record s a s' := by
    rintro ⟨hp', hh'⟩ ha
    refine ⟨.handedOver (hp'.trans hp) (hh'.trans hh), ?_⟩
    rw [hp', ha]
    exact Nat.le_refl _
  cases hm with
  | callWrite data hp' | callFlush hp' | callDestroy hp' | clock now' hp' | write hp' | destroy hp' =>
      rw [hp] at hp'
      cases hp'
  | flush hp' =>
      rw [hp] at hp'
      obtain ⟨rfl, rfl⟩ := Producer.flush.inj hp'
      unfold Advances
      rw [hp]
      refine ⟨.returnedHanded rfl ?_, Nat.le_refl _⟩
      show s.history ++ _ = _
      rw [hh, List.append_assoc]
      rfl
  | worker hs => exact hworker hs.untouched rfl
  | sysWrite hs => exact hworker (sysWriteStep_untouched hs) rfl

theorem WriteCall.advances {a : Action cfg} (h : WriteCall s₀ record s) (ho : Ownership s)
    (hroom : overCapacity s₀ s₀.currentVector = false) (ha : a.startsCall = false)
    (hs : step s a = some s') : Advances s₀ record s a s' := by
  have hm := step_moved hs
  cases h with
  | checking hq hcur hw hp => exact checking_advances hq hcur hw hp ho hroom ha hm
  | appended hq hcur hw hp => exact appended_advances hq hcur hw hp ha hm
  | swapping hq hp hpc hout => exact swapping_advances hq hp hpc hout ho ha hm
  | handedOver hp hh => exact handedOver_advances hp hh hm
  | returned hq hp hh hcur hv =>
      rcases moved_of_asleep hm ha hq.1 hq.2 with
        ⟨pc, hpc, -⟩ | ⟨data, curr, now, hpc, -⟩ | ⟨caller, pc, hpc, -⟩ | ⟨pc, hpc⟩ <;>
      · rw [hp] at hpc
        cases hpc
  | returnedHanded hp hh =>
      have hworker : s'.producer = s.producer ∧ s'.history = s.history → a.isProducer = false →
          Advances s₀ record s a s' := by
        rintro ⟨hp', hh'⟩ ha'
        refine ⟨.returnedHanded (hp'.trans hp) (hh'.trans hh), ?_⟩
        rw [hp', ha']
        exact Nat.le_refl _
      cases hm with
      | callWrite | callFlush | callDestroy => cases ha
      | clock now' hp' | write hp' | flush hp' | destroy hp' =>
          rw [hp] at hp'
          cases hp'
      | worker hs => exact hworker hs.untouched rfl
      | sysWrite hs => exact hworker (sysWriteStep_untouched hs) rfl

/-- The whole call: after the actions `as`, the steps the producer has taken and
those it has left add up to at most thirteen. -/
theorem WriteCall.run {now : Int} {as : List (Action cfg)} (h : WriteCall s₀ record s)
    (ho : Ownership s) (hroom : overCapacity s₀ s₀.currentVector = false)
    (has : ∀ a ∈ as, a.startsCall = false) (hs : (machine cfg now).exec s as = some s') :
    WriteCall s₀ record s' ∧ s'.producer.rank + as.countP Action.isProducer ≤ s.producer.rank := by
  induction as generalizing s with
  | nil =>
      obtain rfl : s = s' := by simpa [Machine.exec] using hs
      exact ⟨h, Nat.le_refl _⟩
  | cons a as ih =>
      obtain ⟨t, hst, ht⟩ := Machine.exec_cons_some hs
      obtain ⟨hcall, hrank⟩ := h.advances ho hroom (has a List.mem_cons_self) hst
      obtain ⟨hcall', hrank'⟩ := ih hcall (step_ownership ho hst)
        (fun b hb => has b (List.mem_cons_of_mem _ hb)) ht
      refine ⟨hcall', ?_⟩
      rw [List.countP_cons]
      omega

/-! ### The call as a whole -/

/-- A call that has not returned is inside `write()` and has a next step. -/
theorem WriteCall.returned_or_moves (now : Int) (h : WriteCall s₀ record s) :
    WriteReturned s₀ record s ∨
      (s.producer.inWrite = true ∧ 0 < s.producer.rank ∧
        ∃ a : Action cfg, a.isProducer = true ∧ ((machine cfg now).step s a).isSome = true) := by
  have hmove : ∀ {pc : WritePc cfg}, s.producer = .write pc →
      ∃ a : Action cfg, a.isProducer = true ∧ ((machine cfg now).step s a).isSome = true := by
    intro pc hp
    cases pc with
    | readClock data curr => exact ⟨.clock 0, rfl, by simp [machine, step, hp]⟩
    | checkCapacity data curr =>
        refine ⟨.producer, rfl, ?_⟩
        cases data with
        | none => simp [machine, step, producerStep, hp, writeStep]
        | some record => by_cases hc : overCapacity s curr <;>
            simp [machine, step, producerStep, hp, writeStep, hc]
    | checkThreshold data curr now' =>
        refine ⟨.producer, rfl, ?_⟩
        by_cases hc : thresholdReached s curr now' <;>
          simp [machine, step, producerStep, hp, writeStep, hc]
    | loadCurrent => exact ⟨.producer, rfl, by simp [machine, step, producerStep, hp, writeStep]⟩
    | insert => exact ⟨.producer, rfl, by simp [machine, step, producerStep, hp, writeStep]⟩
  have hflush : ∀ {data now' pc}, s.producer = .flush (.write data now') pc →
      s.producer.inWrite = true ∧ 0 < s.producer.rank ∧
        ∃ a : Action cfg, a.isProducer = true ∧ ((machine cfg now).step s a).isSome = true := by
    intro data now' pc hp
    refine ⟨by rw [hp]; rfl, ?_, .producer, rfl, by simp [machine, step, producerStep, hp]⟩
    rw [hp]
    cases pc <;> exact Nat.succ_pos _
  cases h with
  | checking hq hcur hw hp =>
      right
      cases hpc : s.producer with
      | write pc =>
          refine ⟨rfl, ?_, hmove hpc⟩
          cases pc <;> exact Nat.succ_pos _
      | _ =>
          rw [hpc] at hp
          cases hp
  | appended hq hcur hw hp =>
      right
      cases hpc : s.producer with
      | write pc =>
          refine ⟨rfl, ?_, hmove hpc⟩
          cases pc <;> exact Nat.succ_pos _
      | flush caller pc =>
          cases caller with
          | write data now' =>
              have hf := hflush hpc
              rwa [hpc] at hf
          | _ =>
              rw [hpc] at hp
              cases hp
      | _ =>
          rw [hpc] at hp
          cases hp
  | swapping hq hp => exact .inr (hflush hp)
  | handedOver hp hh => exact .inr (hflush hp)
  | returned hq hp hh hcur hv => exact .inl ⟨hp, .inl ⟨hh, hcur, hv⟩⟩
  | returnedHanded hp hh => exact .inl ⟨hp, .inr hh⟩

/-- **`write()` from a state at rest.** With the worker waiting and no vector handed
over, `write(record)` succeeds under every schedule exactly when the active vector is
not full. -/
theorem writeSucceeds_iff {now : Int} (hc : cfg.Aligned) (ho : Ownership s) (hz : Sized s)
    (hr : Resting s) : WriteSucceeds now s record ↔ activeFull s = false := by
  have hfull : overCapacity s s.currentVector = activeFull s := by
    rw [Bool.eq_iff_iff, overCapacity_iff hc hz, activeFull, decide_eq_true_eq]
  have hcall : (machine cfg now).step s (.call (.write (some record))) =
      some { s with producer := .write (.loadCurrent (some record)) } := by
    simp [machine, step, hr.producer]
  constructor
  · -- a full vector: two steps into the call it returns false
    intro hsucc
    by_contra hover
    rw [Bool.not_eq_false, ← hfull] at hover
    have hexec : (machine cfg now).exec s
        [.call (.write (some record)), .producer, .producer] =
        some (returnWrite { s with producer := .write (.checkCapacity (some record) s.currentVector) }
          (some record) false) := by
      rw [Machine.exec_cons hcall]
      simp only [Machine.exec, machine, step, producerStep, writeStep]
      rw [if_pos (by exact hover)]
    rcases hsucc _ _ hexec (by simp [Action.startsCall]) with ⟨-, ⟨hh, -⟩ | hh⟩ | ⟨hin, -⟩
    · have hlast := List.append_cancel_left hh
      cases hlast
    · have hlen := congrArg List.length hh
      simp [returnWrite] at hlen
    · cases hin
  · intro hroom as s' hexec has
    obtain ⟨t, ht, hrun⟩ := Machine.exec_cons_some hexec
    obtain rfl : _ = t := Option.some.inj (hcall.symm.trans ht)
    have hflag : s.hasDataToWrite = false := by
      by_contra hf
      rcases ho.flag ((Bool.not_eq_false _).mp hf) with hw | ⟨hw, -⟩
      · rw [hr.worker] at hw
        cases hw
      · rw [hr.isWriting] at hw
        cases hw
    have hstart : WriteCall s record { s with producer := .write (.loadCurrent (some record)) } :=
      .checking ⟨hr.worker, hflag, rfl, rfl⟩ rfl hr.isWriting rfl
    have ho' := step_ownership (a := .call (.write (some record))) ho hcall
    obtain ⟨hw, hrank⟩ := hstart.run ho' (hfull.trans hroom) has hrun
    rcases hw.returned_or_moves now with hret | ⟨hin, hpos, hmove⟩
    · exact .inl hret
    · have : s'.producer.rank + as.countP Action.isProducer ≤ 13 := hrank
      exact .inr ⟨hin, by omega, hmove⟩

/-- **A record is refused only while the worker owns the other vector**, in every run
in which no `write()` that fills the active vector is refused its `flush()`: whenever
the worker waits, no vector is handed over and the producer is between calls,
`write(record)` returns true under every schedule and leaves the record in the active
vector or in the one it hands over. -/
theorem write_accepts_at_rest {cfg : Config} {now : Int} {s : State cfg} (hc : cfg.Aligned)
    (h : (machine cfg now).Reachable FullFlushAccepted s) (hr : Resting s)
    (record : Record cfg) : WriteSucceeds now s record := by
  have hroom : activeFull s = false := reachable_room hc h (by rw [hr.producer]; rfl)
  have hsized := reachable_sized hc.structSize_lt h
  exact (writeSucceeds_iff hc (reachable_ownership h) hsized hr).mpr hroom

/-- The worker from its loop head back to its wait, for a full one-byte buffer. -/
def drainAndWait : List (Action oneByte) := drain ++ [.worker, .worker, .worker]

theorem write_accepts_at_rest_second_write :
    ∃ s, (machine oneByte 0).Reachable FullFlushAccepted s ∧ Resting s ∧ s.file = [7] ∧
      WriteSucceeds 0 s ⟨[8], rfl⟩ := by
  obtain ⟨s, hs, hp⟩ := Machine.reachable_of_execWithin (M := machine oneByte 0)
    (G := FullFlushAccepted) (l := writeAndFlush 7 ++ drainAndWait)
    (p := fun s => s.producer = .idle && !s.isWriting && s.worker = .wait && s.file = [7])
    (by decide)
  simp only [Bool.and_eq_true, Bool.not_eq_true', decide_eq_true_eq] at hp
  obtain ⟨⟨⟨hidle, hw⟩, hwait⟩, hfile⟩ := hp
  exact ⟨s, hs, ⟨hidle, hw, hwait⟩, hfile,
    write_accepts_at_rest ⟨by decide, by decide, by decide⟩ hs ⟨hidle, hw, hwait⟩ _⟩

/-- The second record fills the active vector while the worker is still busy with the
first; its flush is refused and not tried again. With the worker back in its wait, the
third record is refused. -/
theorem full_buffer_never_handed_over :
    ∃ s, (machine oneByte 0).Reachable Machine.free s ∧ Resting s ∧
      ∃ s', (machine oneByte 0).exec s [.call (.write (some ⟨[9], rfl⟩)), .producer, .producer] =
          some s' ∧
        s'.history = s.history ++ [.returned (.write (some ⟨[9], rfl⟩)) false] := by
  obtain ⟨s, hs, hp⟩ := Machine.reachable_of_exec (M := machine oneByte 0)
    (l := writeAndFlush 7 ++ (writeAndFlush 8).take 7 ++ drainAndWait)
    (p := fun s => s.producer = .idle && !s.isWriting && s.worker = .wait &&
      ((machine oneByte 0).exec s [.call (.write (some ⟨[9], rfl⟩)), .producer, .producer]).any
        fun s' => s'.history = s.history ++ [.returned (.write (some ⟨[9], rfl⟩)) false])
    (by decide)
  simp only [Bool.and_eq_true, Bool.not_eq_true', decide_eq_true_eq] at hp
  obtain ⟨⟨⟨hidle, hw⟩, hwait⟩, hany⟩ := hp
  obtain ⟨s', hs', hh⟩ := (Option.any_eq_true _ _).mp hany
  exact ⟨s, hs, ⟨hidle, hw, hwait⟩, s', hs', by simpa using hh⟩

end CppCode.LogStruct
