import CppCode.LogStruct.Ownership

/-!
# CppCode.LogStruct.Capacity

**When `write()` refuses a record.** `write()` checks the capacity of the active
vector before it looks at the flush threshold, and returns early when the record
does not fit. A vector that is full stays active until some `flush()` succeeds; the
`write()` that filled it tried one, but if the worker was busy just then nobody
tries again, and every later record is refused, also after the worker has long
finished (`full_buffer_never_handed_over`).

* `Sized`: both vectors hold whole records and never more than `byte_size_`;
* `Room`: in the runs in which no `write()` that fills the active vector is refused
  its `flush()`, the active vector has room whenever a call starts;
* `writeSucceeds_iff`: with the worker waiting and no vector handed over, `write()`
  of a record succeeds exactly when the active vector is not full.

The sizes have to fit: `byte_size_` as computed in `size_t` must be a positive
multiple of `struct_size_`, which it is unless the product wraps around
(`Config.aligned_of_fits`).
-/

namespace CppCode.LogStruct

open Concurrency

variable {cfg : Config}

/-- `byte_size_` holds a whole, positive number of records. -/
structure Config.Aligned (cfg : Config) : Prop where
  record_pos : 0 < cfg.structSize
  buffer_pos : 0 < cfg.byteSize
  whole : cfg.structSize ∣ cfg.byteSize

/-- Sizes whose product fits in `size_t` are aligned. -/
theorem Config.aligned_of_fits (cfg : Config) (hs : 1 ≤ cfg.structSize) (hr : 1 ≤ cfg.reverseSize)
    (hfit : cfg.structSize * cfg.reverseSize < sizeModulus) : cfg.Aligned := by
  have hb : cfg.byteSize = cfg.structSize * cfg.reverseSize := Nat.mod_eq_of_lt hfit
  refine ⟨hs, ?_, ?_⟩
  · rw [hb]
    exact Nat.mul_pos hs hr
  · rw [hb]
    exact Nat.dvd_mul_right _ _

/-- A record no larger than the buffer has a size in the range of `size_t`. -/
theorem Config.Aligned.structSize_lt (hc : cfg.Aligned) : cfg.structSize < sizeModulus := by
  have hle := Nat.le_of_dvd hc.buffer_pos hc.whole
  have hlt := cfg.byteSize_lt
  simp only [sizeModulus]
  omega

/-- Below a multiple of `d`, one more multiple of `d` fits. -/
theorem add_le_of_dvd_of_lt {d n m : Nat} (hn : d ∣ n) (hm : d ∣ m) (hlt : n < m) : n + d ≤ m := by
  have hd : d ≤ m - n := Nat.le_of_dvd (by omega) (Nat.dvd_sub hm hn)
  omega

/-! ### Both vectors hold whole records -/

/-- `write()` is past its capacity check and about to insert. -/
def Producer.inserting : Producer cfg → Bool
  | .write (.insert _ _) => true
  | _ => false

/-- The sizes of the vectors, and what the capacity check has established. -/
structure SizedAt (cfg : Config) (vectors : VecId → List UInt8) (producer : Producer cfg) :
    Prop where
  whole : ∀ v, cfg.structSize ∣ (vectors v).length
  bounded : ∀ v, (vectors v).length ≤ cfg.byteSize
  checked : ∀ record curr, producer = .write (.insert record curr) →
    (vectors curr).length + cfg.structSize ≤ cfg.byteSize

abbrev Sized (s : State cfg) : Prop := SizedAt cfg s.vectors s.producer

section Components

variable {vectors : VecId → List UInt8} {p p' : Producer cfg}

/-- Past the capacity check there is nothing to know but the sizes. -/
theorem SizedAt.move (h : SizedAt cfg vectors p) (hp : p'.inserting = false) :
    SizedAt cfg vectors p' := by
  refine ⟨h.whole, h.bounded, fun record curr he => ?_⟩
  rw [he] at hp
  cases hp

/-- Replacing a vector by whole records that fit. -/
theorem SizedAt.update (h : SizedAt cfg vectors p) (v : VecId) {bytes : List UInt8}
    (hw : cfg.structSize ∣ bytes.length) (hb : bytes.length ≤ cfg.byteSize)
    (hp : ∀ record, p ≠ .write (.insert record v)) :
    SizedAt cfg (Function.update vectors v bytes) p := by
  refine ⟨fun u => ?_, fun u => ?_, fun record curr he => ?_⟩
  · by_cases hu : u = v
    · subst hu
      rwa [Function.update_self]
    · rw [Function.update_of_ne hu]
      exact h.whole u
  · by_cases hu : u = v
    · subst hu
      rwa [Function.update_self]
    · rw [Function.update_of_ne hu]
      exact h.bounded u
  · have hu : curr ≠ v := by
      intro hu
      subst hu
      exact hp record he
    rw [Function.update_of_ne hu]
    exact h.checked record curr he

end Components

/-- `size_t` sizes never wrap around in the capacity check: a record larger than
the buffer meets empty vectors only. -/
theorem length_add_lt_sizeModulus {s : State cfg} (hsize : cfg.structSize < sizeModulus)
    (h : Sized s) (curr : VecId) :
    (s.vectors curr).length + cfg.structSize < sizeModulus := by
  have hlt := cfg.byteSize_lt
  have hle := h.bounded curr
  rcases Nat.lt_or_ge cfg.byteSize cfg.structSize with hbig | hfits
  · have hzero : (s.vectors curr).length = 0 :=
      Nat.eq_zero_of_dvd_of_lt (h.whole curr) (Nat.lt_of_le_of_lt hle hbig)
    rwa [hzero, Nat.zero_add]
  · simp only [sizeModulus]
    omega

/-- What the capacity check tests. -/
theorem overCapacity_iff_lt {s : State cfg} (hsize : cfg.structSize < sizeModulus)
    (h : Sized s) (curr : VecId) :
    overCapacity s curr = true ↔ cfg.byteSize < (s.vectors curr).length + cfg.structSize := by
  rw [overCapacity, Nat.mod_eq_of_lt (length_add_lt_sizeModulus hsize h curr), decide_eq_true_eq]

/-- In an aligned buffer only a full vector fails the capacity check. -/
theorem overCapacity_iff {s : State cfg} (hc : cfg.Aligned) (h : Sized s) (curr : VecId) :
    overCapacity s curr = true ↔ cfg.byteSize ≤ (s.vectors curr).length := by
  rw [overCapacity_iff_lt hc.structSize_lt h]
  constructor
  · intro hover
    by_contra hroom
    have := add_le_of_dvd_of_lt (h.whole curr) hc.whole (by omega)
    omega
  · intro hfull
    have := hc.record_pos
    omega

theorem flushStep_sized {s : State cfg} {caller : FlushCaller cfg} {pc : FlushPc} (h : Sized s) :
    Sized (flushStep s caller pc) := by
  cases pc with
  | checkWriting =>
      simp only [flushStep]
      split
      · cases caller <;> exact h.move rfl
      · exact h.move rfl
  | notify => cases caller <;> exact h.move rfl
  | _ => exact h.move rfl

theorem writeStep_sized {s s' : State cfg} {pc : WritePc cfg}
    (hsize : cfg.structSize < sizeModulus) (h : Sized s) (hp : s.producer = .write pc)
    (hs : writeStep s pc = some s') : Sized s' := by
  cases pc with
  | loadCurrent data =>
      obtain rfl := Option.some.inj hs
      exact h.move rfl
  | checkCapacity data curr =>
      cases data with
      | none =>
          obtain rfl := Option.some.inj hs
          exact h.move rfl
      | some record =>
          cases hover : overCapacity s curr with
          | true =>
              simp only [writeStep, hover, if_true, Option.some.injEq] at hs
              subst hs
              exact h.move rfl
          | false =>
              simp only [writeStep, hover, Bool.false_eq_true, if_false, Option.some.injEq] at hs
              subst hs
              refine ⟨h.whole, h.bounded, ?_⟩
              intro record' curr' he
              obtain ⟨rfl, rfl⟩ := WritePc.insert.inj (Producer.write.inj he)
              refine Nat.le_of_not_lt fun hlt => ?_
              rw [(overCapacity_iff_lt hsize h curr).mpr hlt] at hover
              cases hover
  | insert record curr =>
      obtain rfl := Option.some.inj hs
      have hroom := h.checked record curr hp
      have hm : SizedAt cfg s.vectors (.write (.readClock (some record) curr)) := h.move rfl
      refine hm.update curr ?_ ?_ (by simp)
      · rw [List.length_append, record.property]
        exact Nat.dvd_add (h.whole curr) (Nat.dvd_refl _)
      · rw [List.length_append, record.property]
        exact hroom
  | readClock data curr => cases hs
  | checkThreshold data curr now =>
      simp only [writeStep] at hs
      split at hs <;> obtain rfl := Option.some.inj hs <;> exact h.move rfl

theorem destroyStep_sized {s s' : State cfg} {pc : DestroyPc} (h : Sized s)
    (hs : destroyStep s pc = some s') : Sized s' := by
  cases pc with
  | storeRunning | close | deleteBuffer1 | deleteBuffer2 | requestStop =>
      obtain rfl := Option.some.inj hs
      exact h.move rfl
  | join =>
      simp only [destroyStep, Option.ite_none_right_eq_some, Option.some.injEq] at hs
      obtain ⟨-, rfl⟩ := hs
      exact h.move rfl
  | destroyed => cases hs

theorem WorkerMoved.sized {s s' : State cfg} (hs : WorkerMoved s s') (h : Sized s)
    (ho : Ownership s) : Sized s' := by
  cases hs with
  | resize hw =>
      rename_i target written
      have ht := ho.target
      have hptr := ho.pointers
      rw [hw] at ht
      refine SizedAt.update h target (Nat.dvd_zero _) (Nat.zero_le _) ?_
      intro record he
      rw [he] at hptr
      exact hptr.2 (hptr.1.symm.trans ht.1)
  | _ => exact h

theorem step_sized {s s' : State cfg} {a : Action cfg} (hsize : cfg.structSize < sizeModulus)
    (h : Sized s) (ho : Ownership s) (hs : step s a = some s') : Sized s' := by
  cases step_moved hs with
  | callWrite | callFlush | callDestroy | clock => exact h.move rfl
  | write hp hw => exact writeStep_sized hsize h hp hw
  | flush hp => exact flushStep_sized h
  | destroy hp hd => exact destroyStep_sized h hd
  | worker hw => exact hw.sized h ho
  | sysWrite hw =>
      obtain ⟨target, need, written, -, -, ⟨-, rfl⟩ | ⟨n, -, -, -, rfl⟩⟩ := sysWriteStep_moved hw <;>
        exact h

theorem reachable_sized {now : Int} {G : Guard (State cfg) (Action cfg)} {s : State cfg}
    (hsize : cfg.structSize < sizeModulus) (h : (machine cfg now).Reachable G s) :
    Sized s := by
  refine h.invariant ⟨fun _ => Nat.dvd_zero _, fun _ => Nat.zero_le _, nofun⟩ ?_
  intro s a s' hr hi _ hs
  exact step_sized hsize hi (reachable_ownership hr) hs

/-! ### Room for the next record -/

/-- A `write()` whose record filled the active vector is about to ask `flush()` for
the exchange. -/
def Producer.fullFlush (full : Bool) : Producer cfg → Bool
  | .flush (.write _ _) .checkWriting => full
  | _ => false

/-- The active vector has no room left. -/
def activeFull (s : State cfg) : Bool := cfg.byteSize ≤ (s.vectors s.currentVector).length

/-- No `write()` that fills the active vector finds `is_writing_` set. -/
def FullFlushAccepted : Guard (State cfg) (Action cfg) := fun s a =>
  ¬ (a = .producer ∧ s.producer.fullFlush (activeFull s) = true ∧ s.isWriting = true)

instance (s : State cfg) (a : Action cfg) : Decidable (FullFlushAccepted s a) :=
  inferInstanceAs (Decidable (¬ _))

/-- From here on the active vector can be full only if this `write()` filled it. -/
def FlushCaller.mayBeFull : FlushCaller cfg → FlushPc → Bool
  | .write _ _, .storeNext _ | .write _ _, .signal | .write _ _, .notify => false
  | .write _ _, _ => true
  | _, _ => false

/-- Positions at which the active vector may be full. -/
def Producer.mayBeFull : Producer cfg → Bool
  | .write (.readClock _ _) | .write (.checkThreshold _ _ _) => true
  | .flush caller pc => caller.mayBeFull pc
  | _ => false

/-- The active vector has room, except while a `write()` that filled it is under way. -/
def Room (s : State cfg) : Prop := s.producer.mayBeFull = false → activeFull s = false

theorem activeFull_false_iff {s : State cfg} :
    activeFull s = false ↔ (s.vectors s.currentVector).length < cfg.byteSize := by
  simp [activeFull]

/-- An empty active vector has room. -/
theorem activeFull_of_empty {s : State cfg} (hc : cfg.Aligned)
    (h : s.vectors s.currentVector = []) : activeFull s = false := by
  rw [activeFull_false_iff, h]
  exact hc.buffer_pos

theorem flushStep_room {s : State cfg} {caller : FlushCaller cfg} {pc : FlushPc}
    (hc : cfg.Aligned) (h : Room s) (ho : Ownership s) (hp : s.producer = .flush caller pc)
    (hg : FullFlushAccepted s .producer) : Room (flushStep s caller pc) := by
  have hptr := ho.pointers
  have hswap := ho.swap
  unfold Room at h
  rw [hp] at hptr hswap h
  cases pc with
  | checkWriting =>
      cases hw : s.isWriting with
      | true =>
          -- a refused flush: by the guard this `write()` did not fill the vector
          simp only [flushStep, hw, if_true]
          intro _
          cases caller with
          | write data now =>
              by_contra hfull
              exact hg ⟨rfl, by rw [hp]; exact (Bool.not_eq_false _).mp hfull, hw⟩
          | user => exact h rfl
          | destructor => exact h rfl
      | false =>
          simp only [flushStep, hw, Bool.false_eq_true, if_false]
          intro hm
          cases caller with
          | write data now => cases hm
          | user => exact h rfl
          | destructor => exact h rfl
  | markWriting | loadCurrent | loadNext =>
      intro hm
      cases caller with
      | write data now => cases hm
      | user => exact h rfl
      | destructor => exact h rfl
  | storeCurrent oldCurrent oldNext =>
      obtain ⟨rfl, rfl, -⟩ := hptr
      intro _
      exact activeFull_of_empty hc hswap
  | storeNext oldCurrent =>
      intro _
      refine activeFull_of_empty hc ?_
      show s.vectors s.currentVector = []
      rw [hptr.1]
      exact hswap
  | signal =>
      intro _
      exact activeFull_of_empty hc hswap
  | notify =>
      intro _
      cases caller <;> exact activeFull_of_empty hc hswap

theorem writeStep_room {s s' : State cfg} {pc : WritePc cfg} (h : Room s) (ho : Ownership s)
    (hp : s.producer = .write pc) (hs : writeStep s pc = some s') : Room s' := by
  have hptr := ho.pointers
  unfold Room at h
  rw [hp] at hptr h
  cases pc with
  | loadCurrent data =>
      obtain rfl := Option.some.inj hs
      exact fun _ => h rfl
  | checkCapacity data curr =>
      cases data with
      | none =>
          obtain rfl := Option.some.inj hs
          intro hm
          cases hm
      | some record =>
          simp only [writeStep] at hs
          split at hs <;> obtain rfl := Option.some.inj hs <;> exact fun _ => h rfl
  | insert record curr =>
      obtain rfl := Option.some.inj hs
      intro hm
      cases hm
  | readClock data curr => cases hs
  | checkThreshold data curr now =>
      cases ht : thresholdReached s curr now with
      | true =>
          simp only [writeStep, ht, if_true, Option.some.injEq] at hs
          subst hs
          intro hm
          cases hm
      | false =>
          -- no flush was due, so the vector is not full
          simp only [writeStep, ht, Bool.false_eq_true, if_false, Option.some.injEq] at hs
          subst hs
          intro _
          simp only [thresholdReached, Bool.or_eq_false_iff, decide_eq_false_iff_not] at ht
          obtain ⟨rfl, -⟩ := hptr
          rw [activeFull_false_iff]
          exact Nat.lt_of_not_le ht.2

theorem destroyStep_room {s s' : State cfg} {pc : DestroyPc} (h : Room s)
    (hp : s.producer = .destroy pc) (hs : destroyStep s pc = some s') : Room s' := by
  unfold Room at h
  rw [hp] at h
  cases pc with
  | storeRunning | close | deleteBuffer1 | deleteBuffer2 | requestStop =>
      obtain rfl := Option.some.inj hs
      exact fun _ => h rfl
  | join =>
      simp only [destroyStep, Option.ite_none_right_eq_some, Option.some.injEq] at hs
      obtain ⟨-, rfl⟩ := hs
      exact fun _ => h rfl
  | destroyed => cases hs

theorem WorkerMoved.room {s s' : State cfg} (hs : WorkerMoved s s') (h : Room s)
    (ho : Ownership s) : Room s' := by
  cases hs with
  | resize hw =>
      rename_i target written
      have hown : s.worker.owning = true := by rw [hw]; rfl
      have ht := ho.target
      rw [hw] at ht
      obtain ⟨rfl, -⟩ := ht
      intro hm
      rw [activeFull_false_iff]
      show (Function.update s.vectors s.nextVector [] s.currentVector).length < _
      rw [Function.update_of_ne (ho.current_ne_next hown)]
      exact activeFull_false_iff.mp (h hm)
  | _ => exact h

theorem step_room {s s' : State cfg} {a : Action cfg} (hc : cfg.Aligned) (h : Room s)
    (ho : Ownership s) (hg : FullFlushAccepted s a) (hs : step s a = some s') : Room s' := by
  cases step_moved hs with
  | callWrite data hp | callFlush hp | callDestroy hp =>
      unfold Room at h
      rw [hp] at h
      exact fun _ => h rfl
  | clock now hp => exact fun hm => nomatch hm
  | write hp hw => exact writeStep_room h ho hp hw
  | flush hp => exact flushStep_room hc h ho hp hg
  | destroy hp hd => exact destroyStep_room h hp hd
  | worker hw => exact hw.room h ho
  | sysWrite hw =>
      obtain ⟨target, need, written, -, -, ⟨-, rfl⟩ | ⟨n, -, -, -, rfl⟩⟩ := sysWriteStep_moved hw <;>
        exact h

theorem reachable_room {now : Int} {s : State cfg} (hc : cfg.Aligned)
    (h : (machine cfg now).Reachable FullFlushAccepted s) : Room s := by
  refine h.invariant (fun _ => activeFull_of_empty hc rfl) ?_
  intro s a s' hr hi hg hs
  exact step_room hc hi (reachable_ownership hr) hg hs

end CppCode.LogStruct
