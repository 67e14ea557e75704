import CppCode.Task.Lifecycle
import CppCode.Task.OtaTask

/-!
# CppCode.Task.Destroy

**Destroying a task.** `~Task()` calls `cancel()` until it returns true. It runs in
whichever thread drops the last reference, so nobody else touches the task any
more: a `cancel()` that fails leaves everything as it was, and fails again.

Whether the loop ends is therefore decided by the state in which the last reference
is dropped (`destructor_ends_iff`). `cancel()` fails on a task that was never run
(`never_run_never_destroyed`), and on one whose coroutine has finished but left a
command in the control channel, unless `get_current_status()` has noticed that it
completed or failed (`leftover_command_never_destroyed`).
-/

namespace CppCode.Task

open Concurrency

variable {T Loc : Type} {B : Body T Loc} {s : State T Loc}

/-- The holder of the mutex in `pause()` or `cancel()` takes its next step. -/
def proceed (s : State T Loc) : State T Loc :=
  match s.lock with
  | some (.send r) => send s r
  | some (.store r) => store s r
  | _ => s

/-- A whole call of `cancel()`, undisturbed. -/
def cancelCall (s : State T Loc) : State T Loc := proceed (proceed (cancel s))

/-- The last thing that happened is that a call returned true. -/
def State.answered (s : State T Loc) : Bool :=
  match s.history.getLast? with
  | some (.returned _ result) => result
  | _ => false

/-- `~Task()` with at most `n` rounds of its loop. -/
def destructor : Nat → State T Loc → Option (State T Loc)
  | 0, _ => none
  | n + 1, s =>
      if (cancelCall s).answered = true then
        some { cancelCall s with
          inputChannel := (cancelCall s).inputChannel.close
          controlChannel := (cancelCall s).controlChannel.close }
      else destructor n (cancelCall s)

/-- The last reference to the task can be dropped: no call is under way, and the
coroutine (which holds a reference) does not exist or has finished. -/
def droppable (s : State T Loc) : Prop :=
  s.lock = none ∧ s.resuming = [] ∧ s.coro.active = false

instance (s : State T Loc) : Decidable (droppable s) :=
  inferInstanceAs (Decidable (_ ∧ _ ∧ _))

/-- The task is known to have completed or failed, or it was run and no command is
left in the control channel. -/
def destroyable (s : State T Loc) : Prop :=
  (s.currentStatus = .completed ∨ s.currentStatus = .failed) ∨
    s.currentStatus ≠ .initial ∧ s.controlChannel.buffer = []

instance (s : State T Loc) : Decidable (destroyable s) :=
  inferInstanceAs (Decidable ((_ ∨ _) ∨ ¬ _ ∧ _))

theorem answered_returned (s : State T Loc) (call : Call T) (result : Bool) :
    (s.log (.returned call result)).answered = result := by
  simp [State.answered, State.log]

/-- `cancelCall` is what the machine does when `cancel()` runs undisturbed. -/
theorem cancelCall_steps (hl : s.lock = none) :
    (machine B).Steps Machine.free s (cancelCall s) := by
  have hproceed : ∀ t : State T Loc, (machine B).Steps Machine.free t (proceed t) := by
    intro t
    unfold proceed
    split
    · rename_i r hr
      exact Machine.Steps.single (a := .send) trivial (by simp [machine, step, hr])
    · rename_i r hr
      exact Machine.Steps.single (a := .store) trivial (by simp [machine, step, hr])
    · exact Machine.Steps.refl _
  have hcancel : (machine B).step s .cancel = some (cancel s) := by
    simp [machine, step, locked, hl]
  exact (Machine.Steps.single trivial hcancel).trans ((hproceed _).trans (hproceed _))

theorem proceed_of_free (hl : s.lock = none) : proceed s = s := by
  simp [proceed, hl]

/-- The four ways `cancel()` can return. -/
theorem cancelCall_cases (hl : s.lock = none) :
    ((s.currentStatus = .completed ∨ s.currentStatus = .failed) ∧
        cancelCall s = s.log (.returned .cancel true)) ∨
      (s.currentStatus = .initial ∧ cancelCall s = s.log (.returned .cancel false)) ∨
      Request.cancel.admits s.currentStatus = true ∧
        ((∃ c, s.controlChannel.trySend .cancel = some c ∧
            cancelCall s =
              { s with controlChannel := c, currentStatus := .cancelled, lock := none }.log
                (.returned .cancel true)) ∨
          (s.controlChannel.trySend .cancel = none ∧
            cancelCall s = s.log (.returned .cancel false))) := by
  have hstop : ∀ e, proceed (proceed (s.log e)) = s.log e := by
    intro e
    have hfree : (s.log e).lock = none := hl
    rw [proceed_of_free hfree, proceed_of_free hfree]
  by_cases hd : s.currentStatus = .completed ∨ s.currentStatus = .failed
  · refine .inl ⟨hd, ?_⟩
    simp only [cancelCall, cancel, hd, if_true, hstop]
  · by_cases hi : s.currentStatus = .initial
    · refine .inr (.inl ⟨hi, ?_⟩)
      simp [cancelCall, cancel, hi, hstop]
    · have ha : Request.cancel.admits s.currentStatus = true := by
        cases hs : s.currentStatus <;> simp_all [Request.admits]
      have hc : cancel s = { s with lock := some (.send .cancel) } := by
        cases hs : s.currentStatus <;> simp_all [cancel]
      refine .inr (.inr ⟨ha, ?_⟩)
      cases ht : s.controlChannel.trySend .cancel with
      | some c =>
          refine .inl ⟨c, rfl, ?_⟩
          simp [cancelCall, hc, proceed, send, Request.command, ht, store, Request.status,
            Request.call]
      | none =>
          refine .inr ⟨rfl, ?_⟩
          simp [cancelCall, hc, proceed, send, Request.command, ht, Request.call, State.log, hl]

theorem admits_cancel_iff {status : TaskStatus} :
    Request.cancel.admits status = true ↔
      status ≠ .initial ∧ status ≠ .completed ∧ status ≠ .failed := by
  cases status <;> simp [Request.admits]

/-- With the mutex free and nobody receiving, `cancel()` returns true just when the
task is destroyable; when it returns false it has changed nothing. -/
theorem cancelCall_answered (hl : s.lock = none) (hk : s.controlChannel.Listening false) :
    ((cancelCall s).answered = true ∧ destroyable s) ∨
      (cancelCall s = s.log (.returned .cancel false) ∧ ¬ destroyable s) := by
  have hroom := hk.trySend_isSome_iff (a := TaskCommand.cancel)
  rcases cancelCall_cases hl with ⟨hd, he⟩ | ⟨hi, he⟩ | ⟨ha, ⟨c, hc, he⟩ | ⟨hc, he⟩⟩
  · exact .inl ⟨by rw [he, answered_returned], .inl hd⟩
  · refine .inr ⟨he, ?_⟩
    simp [destroyable, hi]
  · refine .inl ⟨by rw [he, answered_returned], .inr ⟨(admits_cancel_iff.mp ha).1, ?_⟩⟩
    have hne := hroom.mp ⟨c, hc⟩
    have hb := s.controlChannel.bounded
    exact List.length_eq_zero_iff.mp (by omega)
  · refine .inr ⟨he, ?_⟩
    obtain ⟨hi, hcompleted, hfailed⟩ := admits_cancel_iff.mp ha
    rintro (hd | ⟨-, hb⟩)
    · rcases hd with hd | hd
      · exact hcompleted hd
      · exact hfailed hd
    · obtain ⟨c, hsome⟩ := hroom.mpr (by simp [hb])
      exact absurd (hc.symm.trans hsome) nofun

theorem answered_iff (hl : s.lock = none) (hk : s.controlChannel.Listening false) :
    (cancelCall s).answered = true ↔ destroyable s := by
  rcases cancelCall_answered hl hk with ⟨ha, hd⟩ | ⟨he, hd⟩
  · exact ⟨fun _ => hd, fun _ => ha⟩
  · rw [he, answered_returned]
    exact ⟨nofun, fun h => absurd h hd⟩

/-- A `cancel()` that fails fails for ever: the loop of `~Task()` does not end. -/
theorem destructor_never_ends (hl : s.lock = none) (hk : s.controlChannel.Listening false)
    (hd : ¬ destroyable s) (n : Nat) : destructor n s = none := by
  -- each round leaves the fields that decide about the next one as they are
  induction n generalizing s with
  | zero => rfl
  | succ n ih =>
      rcases cancelCall_answered hl hk with ⟨-, hd'⟩ | ⟨he, -⟩
      · exact absurd hd' hd
      · simp only [destructor, he, answered_returned, Bool.false_eq_true, if_false]
        exact ih hl hk hd

/-- Nobody receives from the control channel of a task that can be dropped. -/
theorem droppable.listening (hd : droppable s) (hr : Receivers s) :
    s.controlChannel.Listening false := by
  have hk := hr.control
  have ha := hd.2.2
  cases hc : s.coro with
  | notSpawned | finished => rw [hc] at hk; exact hk
  | body | waitResume | waitInput => rw [hc] at ha; cases ha

/-- **Destroying a task.** In every reachable state in which the last reference can
be dropped: `cancel()` returns true, and the loop of `~Task()` ends, just when the
task is known to have completed or failed, or it was run and the control channel
holds no command. -/
theorem destructor_ends_iff {T Loc : Type} {B : Body T Loc} {s : State T Loc}
    (h : (machine B).Reachable Machine.free s) (hd : droppable s) :
    ((cancelCall s).answered = true ↔ destroyable s) ∧
      ((∃ n t, destructor n s = some t) ↔ destroyable s) := by
  have hl : s.lock = none := hd.1
  have hk := hd.listening (reachable_receivers h)
  have hanswer := answered_iff hl hk
  refine ⟨hanswer, ?_, fun hdest => ?_⟩
  · rintro ⟨n, t, ht⟩
    by_contra hno
    rw [destructor_never_ends hl hk hno n] at ht
    cases ht
  · refine ⟨1, Option.isSome_iff_exists.mp ?_⟩
    simp [destructor, hanswer.mpr hdest]

theorem destructor_ends_iff_finished :
    ∃ s, (machine otaTask).Reachable Machine.free s ∧ droppable s ∧ destroyable s ∧
      ∃ n t, destructor n s = some t := by
  obtain ⟨s, hs, hp⟩ := Machine.reachable_of_exec (M := machine otaTask)
    (l := launch ++ toRace ++ finishOn .idle)
    (p := fun s => decide (droppable s) && decide (destroyable s)) (by decide)
  simp only [Bool.and_eq_true, decide_eq_true_eq] at hp
  exact ⟨s, hs, hp.1, hp.2, ((destructor_ends_iff hs hp.1).2).mpr hp.2⟩

/-- A task that was never run cannot be destroyed. -/
theorem never_run_never_destroyed (T Loc : Type) (n : Nat) :
    destructor n (State.start : State T Loc) = none :=
  destructor_never_ends rfl Channel.listening_empty (by simp [destroyable, State.start]) n

/-- An `OtaTask` that has finished while a `resume()` left its command behind: the
last reference is gone, and `~Task()` never returns. -/
theorem leftover_command_never_destroyed :
    ∃ s, (machine otaTask).Reachable Machine.free s ∧ droppable s ∧
      (cancelCall s).answered = false ∧ ∀ n, destructor n s = none := by
  obtain ⟨s, hs, hp⟩ := Machine.reachable_of_exec (M := machine otaTask)
    (l := launch ++ toRace ++ finishOn .idle ++ [Action.resume, .resumeSend 0])
    (p := fun s => decide (droppable s) && !decide (destroyable s) && !(cancelCall s).answered)
    (by decide)
  simp only [Bool.and_eq_true, decide_eq_true_eq, Bool.not_eq_true', decide_eq_false_iff_not] at hp
  have hk := droppable.listening hp.1.1 (reachable_receivers hs)
  exact ⟨s, hs, hp.1.1, hp.2, destructor_never_ends hp.1.1.1 hk hp.1.2⟩

end CppCode.Task
