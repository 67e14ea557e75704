import CppCode.LogStruct.Shutdown

/-!
# CppCode.LogStruct.Release

**What the worker does with a released file.** The body of `~LogStruct()` closes the
descriptor and deletes the two raw buffers; the worker is joined afterwards, by the
destructor of `write_thread_`. Whether it still uses the file or the vectors is decided
by where it stands when the descriptor is closed: only a worker that has left its loop,
or that is about to sleep for good, leaves them alone (`released_untouched_iff`).
-/

namespace CppCode.LogStruct

open Concurrency

variable {cfg : Config} {now : Int}

/-- The step calls `::write(fd_, …)`, or it is a step of the worker that reads or resizes
one of the vectors. -/
def touches (s : State cfg) : Action cfg → Bool
  | .sysWrite _ => true
  | .worker =>
      match s.worker with
      | .inspect _ | .resize _ _ | .loadCurrent => true
      | _ => false
  | _ => false

/-- The worker has left its loop, or it finds the flag clear and stays away. -/
def Worker.retired (hasData : Bool) : Worker → Bool
  | .done => true
  | .loopHead | .loopTest | .wait => !hasData
  | _ => false

/-- The destructor has executed `::close(fd_)`. -/
def Producer.closed : Producer cfg → Bool
  | .destroy .deleteBuffer1 | .destroy .deleteBuffer2 | .destroy .requestStop
  | .destroy .join | .destroy .destroyed => true
  | _ => false

/-- The file is closed and nobody comes back to it. -/
structure Retired (s : State cfg) : Prop where
  closed : s.producer.closed = true
  retired : s.worker.retired s.hasDataToWrite = true

theorem Retired.not_touches {s s' : State cfg} {a : Action cfg} (h : Retired s)
    (hs : step s a = some s') : touches s a = false := by
  have hr := h.retired
  cases a with
  | sysWrite result =>
      obtain ⟨target, need, written, hw, -⟩ := sysWriteStep_moved hs
      rw [hw] at hr
      cases hr
  | worker =>
      cases hw : s.worker with
      | inspect | resize | loadCurrent =>
          rw [hw] at hr
          cases hr
      | _ => simp [touches, hw]
  | _ => rfl

theorem WorkerMoved.retired {s s' : State cfg} (hs : WorkerMoved s s') (h : Retired s) :
    Retired s' := by
  have hr := h.retired
  cases hs with
  | loopHead hw =>
      refine ⟨h.closed, ?_⟩
      rw [hw] at hr
      cases s.stopRequested <;> exact hr
  | loopTest hw =>
      refine ⟨h.closed, ?_⟩
      rw [hw] at hr
      have hf : s.hasDataToWrite = false := by simpa [Worker.retired] using hr
      rw [hf]
      rfl
  | wake hw hf =>
      rw [hw, hf] at hr
      cases hr
  | loadTarget hw | inspectEmpty hw | inspectFull hw | written hw | resize hw | storeWriting hw
  | clearFlag hw | loadRunning hw | loadCurrent hw =>
      rw [hw] at hr
      cases hr

theorem step_retired {s s' : State cfg} {a : Action cfg} (h : Retired s)
    (hs : step s a = some s') : Retired s' := by
  have hc := h.closed
  cases step_moved hs with
  | callWrite data hp | callFlush hp | callDestroy hp | clock now hp | write hp hw | flush hp =>
      rw [hp] at hc
      cases hc
  | destroy hp hd =>
      rename_i pc
      have hf := destroyStep_frame hd
      refine ⟨?_, by rw [hf.worker, hf.hasDataToWrite]; exact h.retired⟩
      rw [hp] at hc
      cases pc with
      | deleteBuffer1 | deleteBuffer2 | requestStop =>
          obtain rfl := Option.some.inj hd
          rfl
      | join =>
          simp only [destroyStep, Option.ite_none_right_eq_some, Option.some.injEq] at hd
          obtain ⟨-, rfl⟩ := hd
          rfl
      | destroyed => cases hd
      | storeRunning | close => cases hc
  | worker hw => exact hw.retired h
  | sysWrite hw =>
      have ht := h.not_touches hs
      cases ht

/-! ### A worker that comes back -/

/-- Some run of the worker touches the file or a vector. -/
def ComesBack (now : Int) (s : State cfg) : Prop :=
  ∃ t a t', (machine cfg now).Steps Machine.free s t ∧ (machine cfg now).step t a = some t' ∧
    touches t a = true

/-- After some steps the worker is at a position from which its next step touches. -/
theorem ComesBack.of_exec {s t : State cfg} {l : List (Action cfg)}
    (hl : (machine cfg now).exec s l = some t)
    (hw : (∃ target, t.worker = .inspect target) ∨
      (∃ target written, t.worker = .resize target written) ∨ t.worker = .loadCurrent) :
    ComesBack now s := by
  have hsteps := Machine.steps_of_exec hl
  have henabled : ∃ t', (machine cfg now).step t .worker = some t' := by
    rcases hw with ⟨target, hw⟩ | ⟨target, written, hw⟩ | hw <;>
      simp [machine, step, writeToFileStep, hw]
  obtain ⟨t', ht'⟩ := henabled
  refine ⟨t, .worker, t', hsteps, ht', ?_⟩
  rcases hw with ⟨target, hw⟩ | ⟨target, written, hw⟩ | hw <;> simp [touches, hw]

theorem comes_back (now : Int) {s : State cfg} (hr : s.isRunning = false) (hq : s.stopRequested = false)
    (hn : s.worker.retired s.hasDataToWrite = false) : ComesBack now s := by
  cases hw : s.worker with
  | done => simp [hw, Worker.retired] at hn
  | loopHead =>
      have hf : s.hasDataToWrite = true := by simpa [hw, Worker.retired] using hn
      refine ComesBack.of_exec (l := [.worker, .worker, .worker])
        (t := { s with worker := .inspect s.nextVector }) ?_ (.inl ⟨_, rfl⟩)
      simp [Machine.exec, machine, step, writeToFileStep, hw, hq, hf]
  | loopTest =>
      have hf : s.hasDataToWrite = true := by simpa [hw, Worker.retired] using hn
      refine ComesBack.of_exec (l := [.worker, .worker, .worker])
        (t := { s with worker := .inspect s.nextVector }) ?_ (.inl ⟨_, rfl⟩)
      simp [Machine.exec, machine, step, writeToFileStep, hw, hf]
  | wait =>
      have hf : s.hasDataToWrite = true := by simpa [hw, Worker.retired] using hn
      refine ComesBack.of_exec (l := [.worker, .worker])
        (t := { s with worker := .inspect s.nextVector }) ?_ (.inl ⟨_, rfl⟩)
      simp [Machine.exec, machine, step, writeToFileStep, hw, hf]
  | loadTarget =>
      refine ComesBack.of_exec (l := [.worker])
        (t := { s with worker := .inspect s.nextVector }) ?_ (.inl ⟨_, rfl⟩)
      simp [Machine.exec, machine, step, writeToFileStep, hw]
  | inspect target => exact ComesBack.of_exec (l := []) rfl (.inl ⟨target, hw⟩)
  | writing target need written =>
      by_cases hlt : written < need
      · refine ⟨s, .sysWrite (-1), { s with worker := .resize target written },
          Machine.Steps.refl _, ?_, rfl⟩
        simp only [machine, step, sysWriteStep, hw]
        rw [if_pos ⟨hlt, by omega, .inr (by omega)⟩, if_pos (by omega)]
      · refine ComesBack.of_exec (l := [.worker])
          (t := { s with worker := .resize target written }) ?_ (.inr (.inl ⟨_, _, rfl⟩))
        simp [Machine.exec, machine, step, writeToFileStep, hw, hlt]
  | resize target written =>
      exact ComesBack.of_exec (l := []) rfl (.inr (.inl ⟨target, written, hw⟩))
  | storeWriting =>
      refine ComesBack.of_exec (l := [.worker, .worker, .worker])
        (t := { s with isWriting := false, hasDataToWrite := false, worker := .loadCurrent }) ?_
        (.inr (.inr rfl))
      simp [Machine.exec, machine, step, writeToFileStep, hw, hr]
  | clearFlag =>
      refine ComesBack.of_exec (l := [.worker, .worker])
        (t := { s with hasDataToWrite := false, worker := .loadCurrent }) ?_ (.inr (.inr rfl))
      simp [Machine.exec, machine, step, writeToFileStep, hw, hr]
  | loadRunning =>
      refine ComesBack.of_exec (l := [.worker])
        (t := { s with worker := .loadCurrent }) ?_ (.inr (.inr rfl))
      simp [Machine.exec, machine, step, writeToFileStep, hw, hr]
  | loadCurrent => exact ComesBack.of_exec (l := []) rfl (.inr (.inr hw))

/-- **When the released file is left alone.** In every reachable state in which the
destructor executes `::close(fd_)`: no later step of the worker calls `::write` or reads or
resizes a vector, if and only if the worker has left its loop by then, or stands at the
loop's condition or in `wait(false)` with the flag clear. -/
theorem released_untouched_iff {cfg : Config} {now : Int} {s s' : State cfg}
    (h : (machine cfg now).Reachable Machine.free s) (hp : s.producer = .destroy .close)
    (hs : (machine cfg now).step s .producer = some s') :
    (∀ t a t', (machine cfg now).Steps Machine.free s' t →
        (machine cfg now).step t a = some t' → touches t a = false) ↔
      s.worker.retired s.hasDataToWrite = true := by
  have hl := reachable_life h
  obtain rfl : s' = { s with fdOpen := false, producer := .destroy .deleteBuffer1 } := by
    simp only [machine, step, producerStep, hp, destroyStep, Option.some.injEq] at hs
    exact hs.symm
  constructor
  · intro hall
    by_contra hn
    have hr : s.isRunning = false := by rw [hl.running, hp]; rfl
    have hq : s.stopRequested = false := by rw [hl.requested, hp]; rfl
    obtain ⟨t, a, t', ht, hstep, htouch⟩ := comes_back now
      (s := { s with fdOpen := false, producer := .destroy .deleteBuffer1 }) hr hq
      (Bool.eq_false_iff.mpr hn)
    rw [hall t a t' ht hstep] at htouch
    cases htouch
  · intro hret t a t' ht hstep
    have hok : Retired t :=
      ht.invariant (I := Retired) ⟨rfl, hret⟩ fun hi _ hs => step_retired hi hs
    exact hok.not_touches hstep

/-- A logger that was never used: the last `flush()` wakes the worker, which finds nothing
and leaves before the descriptor is closed. -/
theorem released_untouched_iff_unused :
    ∃ s s', (machine oneByte 0).Reachable Machine.free s ∧ s.producer = .destroy .close ∧
      (machine oneByte 0).step s .producer = some s' ∧
      ∀ t a t', (machine oneByte 0).Steps Machine.free s' t →
        (machine oneByte 0).step t a = some t' → touches t a = false := by
  obtain ⟨s, hs, hp⟩ := Machine.reachable_of_exec (M := machine oneByte 0)
    (l := [Action.destroy] ++ List.replicate 9 Action.producer ++ List.replicate 8 Action.worker)
    (p := fun s => s.producer == .destroy .close && s.worker.retired s.hasDataToWrite &&
      (step s .producer).isSome) (by decide)
  simp only [Bool.and_eq_true, beq_iff_eq] at hp
  obtain ⟨s', hs'⟩ := Option.isSome_iff_exists.mp hp.2
  exact ⟨s, s', hs, hp.1.1, hs', (released_untouched_iff hs hp.1.1 hs').mpr hp.1.2⟩

/-- A record is handed over and the worker has not looked at it yet when the destructor
runs up to its stop request. The worker then calls `::write` on a closed descriptor, with a
deleted buffer. -/
theorem write_after_close :
    ∃ s s' t t', (machine oneByte 0).Reachable Machine.free s ∧ s.producer = .destroy .close ∧
      (machine oneByte 0).step s .producer = some s' ∧
      (machine oneByte 0).Steps Machine.free s' t ∧ t.fdOpen = false ∧
      t.released .vector1 = true ∧ t.worker = .writing .vector1 1 0 ∧
      (machine oneByte 0).step t (.sysWrite (-1)) = some t' ∧
      touches t (.sysWrite (-1)) = true := by
  obtain ⟨s, hs, hp⟩ := Machine.reachable_of_exec (M := machine oneByte 0)
    (l := writeAndFlush 7 ++ [Action.destroy, .producer, .producer])
    (p := fun s => s.producer == .destroy .close &&
      ((machine oneByte 0).exec s
        (List.replicate 3 Action.producer ++ List.replicate 4 Action.worker)).any fun t =>
          !t.fdOpen && t.released .vector1 && t.worker == .writing .vector1 1 0 &&
          (step t (.sysWrite (-1))).isSome) (by decide)
  simp only [Bool.and_eq_true, beq_iff_eq] at hp
  obtain ⟨hclose, hrun⟩ := hp
  obtain ⟨t, ht, hp⟩ := (Option.any_eq_true _ _).mp hrun
  simp only [Bool.and_eq_true, Bool.not_eq_true', beq_iff_eq] at hp
  obtain ⟨s', hs', ht⟩ := Machine.exec_cons_some ht
  obtain ⟨t', ht'⟩ := Option.isSome_iff_exists.mp hp.2
  exact ⟨s, s', t, t', hs, hclose, hs', Machine.steps_of_exec ht, hp.1.1.1, hp.1.1.2, hp.1.2,
    ht', rfl⟩

end CppCode.LogStruct
