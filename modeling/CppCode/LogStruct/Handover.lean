import CppCode.LogStruct.Ownership

/-!
# CppCode.LogStruct.Handover

**Handing a buffer to the worker.** After `flush()` has handed a buffer over, the
worker finds it only if `has_data_to_write` stays set until it does. The worker
releases the producer (`is_writing_ = false`) one step *before* it clears the flag,
so a whole `flush()` fits between the two stores; its `test_and_set` then finds the
flag still set and the worker's `clear` wipes out the wake-up
(`late_clear_strands_buffer`).

That window is the only way to strand a buffer: in every run in which no
`test_and_set` falls into it, a buffer that is handed over keeps its flag
(`handover_keeps_flag`). A stranded buffer, on the other hand, is stranded for
good: neither thread ever gets past it again (`stranded_forever`).
-/

namespace CppCode.LogStruct

open Concurrency

variable {cfg : Config}

/-- The producer is somewhere inside `flush()`. -/
def Producer.inFlush : Producer cfg → Bool
  | .flush _ _ => true
  | _ => false

/-- The producer's next step is the `test_and_set` of `flush()`. -/
def Producer.signalling : Producer cfg → Bool
  | .flush _ .signal => true
  | _ => false

/-- No `test_and_set` between the worker's `is_writing_.store(false)` and its
`has_data_to_write.clear()`. -/
def SignalOutsideWindow : Guard (State cfg) (Action cfg) := fun s a =>
  ¬ (a = .producer ∧ s.producer.signalling = true ∧ s.worker = .clearFlag)

instance (s : State cfg) (a : Action cfg) : Decidable (SignalOutsideWindow s a) :=
  inferInstanceAs (Decidable (¬ _))

/-- A handed-over buffer keeps its wake-up, over the components of a state. -/
structure AwakeAt (isWriting hasData : Bool) (producer : Producer cfg) (worker : Worker) : Prop where
  /-- A buffer is handed over with its flag, or the producer has yet to set it. -/
  flagged : isWriting = true → hasData = true ∨ producer.swapping = true
  /-- The worker is about to clear the flag only if no buffer depends on it. -/
  window : worker = .clearFlag → isWriting = false ∨ producer.swapping = true

abbrev Awake (s : State cfg) : Prop :=
  AwakeAt s.isWriting s.hasDataToWrite s.producer s.worker

section Components

variable {isWriting hasData : Bool} {p p' : Producer cfg} {w w' : Worker}

/-- The producer moves between two positions on the same side of the exchange. -/
theorem AwakeAt.moveProducer (h : AwakeAt isWriting hasData p w)
    (hs : p.swapping = true → p'.swapping = true) : AwakeAt isWriting hasData p' w where
  flagged := fun hw => (h.flagged hw).imp id hs
  window := fun hc => (h.window hc).imp id hs

/-- The worker moves anywhere but to the store that clears the flag. -/
theorem AwakeAt.moveWorker (h : AwakeAt isWriting hasData p w) (hw : w' ≠ .clearFlag) :
    AwakeAt isWriting hasData p w' where
  flagged := h.flagged
  window := fun hc => absurd hc hw

end Components

theorem returnFlush_awake {s : State cfg} (h : Awake s) (hs : s.producer.swapping = false)
    (result : Bool) (caller : FlushCaller cfg) : Awake (returnFlush s result caller) := by
  have hno : s.producer.swapping = true → False := by rw [hs]; nofun
  cases caller <;> exact h.moveProducer fun ht => (hno ht).elim

theorem flushStep_awake {s : State cfg} {caller : FlushCaller cfg} {pc : FlushPc}
    (h : Awake s) (hp : s.producer = .flush caller pc) (hg : SignalOutsideWindow s .producer) :
    Awake (flushStep s caller pc) := by
  cases pc with
  | checkWriting =>
      cases hw : s.isWriting with
      | true =>
          simp only [flushStep, hw, if_true]
          exact returnFlush_awake h (by rw [hp]; rfl) false caller
      | false =>
          simp only [flushStep, hw, Bool.false_eq_true, if_false]
          refine ⟨fun hd => ?_, fun _ => .inl rfl⟩
          cases hd
  | markWriting => exact ⟨fun _ => .inr rfl, fun _ => .inr rfl⟩
  | loadCurrent | loadNext | storeCurrent | storeNext => exact h.moveProducer fun _ => rfl
  | signal =>
      refine ⟨fun _ => .inl rfl, ?_⟩
      intro hc
      exact absurd ⟨rfl, by rw [hp]; rfl, hc⟩ hg
  | notify => exact returnFlush_awake h (by rw [hp]; rfl) true caller

/-- A step that leaves the flags and the worker alone, from outside the exchange. -/
theorem Awake.frame {s s' : State cfg} (h : Awake s) (hf : Frame s s')
    (hs : s.producer.swapping = false) : Awake s' := by
  have hno : s.producer.swapping = true → s'.producer.swapping = true := by rw [hs]; nofun
  have hm := h.moveProducer hno
  rwa [← hf.isWriting, ← hf.hasDataToWrite, ← hf.worker] at hm

theorem WorkerMoved.awake {s s' : State cfg} (hs : WorkerMoved s s') (h : Awake s) :
    Awake s' := by
  cases hs with
  | storeWriting hw => exact ⟨(fun hd => nomatch hd), fun _ => .inl rfl⟩
  | clearFlag hw =>
      -- the flag goes down, so the buffer that may be marked is not handed over yet
      refine ⟨fun hd => .inr ?_, fun hc => nomatch hc⟩
      exact (h.window hw).resolve_left (by rw [show s.isWriting = true from hd]; nofun)
  | loopHead hw => exact h.moveWorker (by cases s.stopRequested <;> nofun)
  | loopTest hw => exact h.moveWorker (by cases s.hasDataToWrite <;> nofun)
  | loadRunning hw => exact h.moveWorker (by cases s.isRunning <;> nofun)
  | loadCurrent hw =>
      exact h.moveWorker (by cases (s.vectors s.currentVector).isEmpty <;> nofun)
  | wake | loadTarget | inspectEmpty | inspectFull | written | resize =>
      exact h.moveWorker nofun

theorem sysWriteStep_awake {s s' : State cfg} {result : Int} (h : Awake s)
    (hs : sysWriteStep s result = some s') : Awake s' := by
  obtain ⟨target, need, written, -, -, ⟨-, rfl⟩ | ⟨n, -, -, -, rfl⟩⟩ := sysWriteStep_moved hs <;>
    exact h.moveWorker nofun

theorem step_awake {s s' : State cfg} {a : Action cfg} (h : Awake s)
    (hg : SignalOutsideWindow s a) (hs : step s a = some s') : Awake s' := by
  cases step_moved hs with
  | callWrite data hp | callFlush hp | callDestroy hp | clock now hp =>
      exact h.moveProducer fun ht => by rw [hp] at ht; cases ht
  | write hp hw => exact h.frame (writeStep_frame hw) (by rw [hp]; rfl)
  | flush hp => exact flushStep_awake h hp hg
  | destroy hp hd => exact h.frame (destroyStep_frame hd) (by rw [hp]; rfl)
  | worker hw => exact hw.awake h
  | sysWrite hw => exact sysWriteStep_awake h hw

theorem reachable_awake {now : Int} {s : State cfg}
    (h : (machine cfg now).Reachable SignalOutsideWindow s) : Awake s := by
  refine h.invariant ⟨?_, ?_⟩ fun _ hi hg hs => step_awake hi hg hs
  · intro hw
    cases hw
  · intro hw
    cases hw

/-- **A buffer handed over keeps its wake-up.** In every run in which no
`test_and_set` falls between the worker's last two stores: whenever the producer is
outside `flush()` and `is_writing_` is set, so is `has_data_to_write`. -/
theorem handover_keeps_flag {cfg : Config} {now : Int} {s : State cfg}
    (h : (machine cfg now).Reachable SignalOutsideWindow s)
    (hout : s.producer.inFlush = false) (hw : s.isWriting = true) : s.hasDataToWrite = true := by
  rcases (reachable_awake h).flagged hw with hf | hs
  · exact hf
  · cases hp : s.producer with
    | flush caller pc => rw [hp] at hout; cases hout
    | _ => rw [hp] at hs; cases hs

theorem handover_keeps_flag_first_write :
    ∃ s, (machine oneByte 0).Reachable SignalOutsideWindow s ∧ s.producer.inFlush = false ∧
      s.isWriting = true ∧ s.hasDataToWrite = true := by
  obtain ⟨s, hs, hp⟩ := Machine.reachable_of_execWithin (M := machine oneByte 0)
    (G := SignalOutsideWindow) (l := writeAndFlush 7)
    (p := fun s => !s.producer.inFlush && s.isWriting) (by decide)
  simp only [Bool.and_eq_true, Bool.not_eq_true'] at hp
  exact ⟨s, hs, hp.1, hp.2, handover_keeps_flag hs hp.1 hp.2⟩

/-- The second buffer is handed over between the worker's last two stores: the
`clear` that follows leaves `is_writing_` set and the flag clear. -/
theorem late_clear_strands_buffer :
    ∃ s, (machine oneByte 0).Reachable Machine.free s ∧ s.producer.inFlush = false ∧
      s.isWriting = true ∧ s.hasDataToWrite = false := by
  obtain ⟨s, hs, hp⟩ := Machine.reachable_of_exec (M := machine oneByte 0)
    (l := writeAndFlush 7 ++ drain ++ writeAndFlush 8 ++ [Action.worker])
    (p := fun s => !s.producer.inFlush && s.isWriting && !s.hasDataToWrite) (by decide)
  simp only [Bool.and_eq_true, Bool.not_eq_true'] at hp
  exact ⟨s, hs, hp.1.1, hp.1.2, hp.2⟩

/-! ### A stranded buffer stays stranded -/

/-- A buffer is marked as handed over, but nobody will come for it. -/
structure Stranded (s : State cfg) : Prop where
  isWriting : s.isWriting = true
  hasData : s.hasDataToWrite = false
  producer : s.producer.swapping = false
  worker : s.worker.owning = false
  window : s.worker ≠ .clearFlag

theorem Stranded.frame {s s' : State cfg} (h : Stranded s) (hf : Frame s s')
    (hp : s'.producer.swapping = false) : Stranded s' where
  isWriting := hf.isWriting.trans h.isWriting
  hasData := hf.hasDataToWrite.trans h.hasData
  producer := hp
  worker := by rw [hf.worker]; exact h.worker
  window := by rw [hf.worker]; exact h.window

theorem Stranded.moveWorker {s : State cfg} (h : Stranded s) {w : Worker}
    (hw : w.owning = false) (hc : w ≠ .clearFlag) : Stranded { s with worker := w } :=
  ⟨h.isWriting, h.hasData, h.producer, hw, hc⟩

theorem WorkerMoved.stranded {s s' : State cfg} (hs : WorkerMoved s s') (h : Stranded s) :
    Stranded s' ∧ s'.file = s.file := by
  have hown := h.worker
  cases hs with
  | loopHead hw =>
      exact ⟨h.moveWorker (by cases s.stopRequested <;> rfl)
        (by cases s.stopRequested <;> nofun), rfl⟩
  | loopTest hw =>
      exact ⟨h.moveWorker (by cases s.hasDataToWrite <;> rfl)
        (by cases s.hasDataToWrite <;> nofun), rfl⟩
  | wake hw hf => exact absurd hf (by simp [h.hasData])
  | loadRunning hw =>
      exact ⟨h.moveWorker (by cases s.isRunning <;> rfl) (by cases s.isRunning <;> nofun), rfl⟩
  | loadCurrent hw =>
      exact ⟨h.moveWorker (by cases (s.vectors s.currentVector).isEmpty <;> rfl)
        (by cases (s.vectors s.currentVector).isEmpty <;> nofun), rfl⟩
  | clearFlag hw => exact absurd hw h.window
  | loadTarget hw | inspectEmpty hw | inspectFull hw | written hw | resize hw | storeWriting hw =>
      rw [hw] at hown
      cases hown

theorem step_stranded {s s' : State cfg} {a : Action cfg} (h : Stranded s)
    (hs : step s a = some s') : Stranded s' ∧ s'.file = s.file := by
  cases step_moved hs with
  | callWrite data hp | callFlush hp | callDestroy hp | clock now hp =>
      exact ⟨h.frame ⟨rfl, rfl, rfl, rfl, rfl, rfl⟩ rfl, rfl⟩
  | write hp hw =>
      have hf := writeStep_frame hw
      exact ⟨h.frame hf (writeStep_swapping hw), hf.file⟩
  | flush hp =>
      rename_i caller pc
      have hns := h.producer
      rw [hp] at hns
      cases pc with
      | checkWriting =>
          have hf := returnFlush_frame s false caller
          simp only [flushStep, h.isWriting, if_true]
          exact ⟨h.frame hf (by cases caller <;> rfl), hf.file⟩
      | notify =>
          have hf := returnFlush_frame s true caller
          exact ⟨h.frame hf (by cases caller <;> rfl), hf.file⟩
      | _ => cases hns
  | destroy hp hd =>
      have hf := destroyStep_frame hd
      exact ⟨h.frame hf (destroyStep_swapping hd), hf.file⟩
  | worker hw => exact hw.stranded h
  | sysWrite hw =>
      obtain ⟨target, need, written, hw', -⟩ := sysWriteStep_moved hw
      have hown := h.worker
      rw [hw'] at hown
      cases hown

/-- **No recovery.** Once a buffer is stranded, no run gets anything more into the
file, the destructor's last `flush()` included. -/
theorem stranded_forever {now : Int} {s s' : State cfg} (h : Stranded s)
    (hs : (machine cfg now).Steps Machine.free s s') : Stranded s' ∧ s'.file = s.file := by
  refine hs.invariant (I := fun t => Stranded t ∧ t.file = s.file) ⟨h, rfl⟩ ?_
  intro t a t' ht _ hstep
  obtain ⟨hst, hfile⟩ := step_stranded ht.1 hstep
  exact ⟨hst, hfile.trans ht.2⟩

end CppCode.LogStruct
