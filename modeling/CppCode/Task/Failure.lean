import CppCode.Task.Lifecycle
import CppCode.Task.OtaTask

/-!
# CppCode.Task.Failure

**Control operations that fail.** `pause()`, `resume()` and `cancel()` send their command
first and store the status when it was sent; `run()` stores `RUNNING` first and launches the
coroutine after it. When the launch throws (`shared_from_this()` on a task that no `shared_ptr`
owns, or `post_coroutine`), the task says `RUNNING`, has no coroutine, and cannot be run again
(`failed_launch_leaves_running`).

Every other call that fails leaves what a caller can see as it was (`failed_untouched_iff`).
The other parties may move while a call is under way, so this is said of the steps of the call
itself: of its first one, and of the one with which it returns or throws.
-/

namespace CppCode.Task

open Concurrency

variable {T Loc : Type} {B : Body T Loc}

/-- The control operations. -/
inductive Operation (T : Type)
  | run
  | pause
  | resume
  | cancel
  | sendInputParameters (value : T)
  deriving DecidableEq

/-- The step with which a call begins. -/
def Operation.enter : Operation T → Action T
  | .run => .run
  | .pause => .pause
  | .resume => .resume
  | .cancel => .cancel
  | .sendInputParameters value => .sendInputParameters value

def Request.operation : Request → Operation T
  | .pause => .pause
  | .cancel => .cancel

/-- What a failed operation has to leave alone. -/
structure Visible (T : Type) where
  currentStatus : TaskStatus
  result : Future
  cachedResult : Option TaskResult
  inputs : List T
  commands : List TaskCommand
  deriving DecidableEq

def State.visible (s : State T Loc) : Visible T where
  currentStatus := s.currentStatus
  result := s.result
  cachedResult := s.cachedResult
  inputs := s.inputChannel.contents
  commands := s.controlChannel.contents

/-- The last thing that happened since `s` is that a call returned false. -/
def ReturnsFalse (s s' : State T Loc) : Prop :=
  ∃ call, s'.history = s.history ++ [.returned call false]

/-- A step that the holder of the mutex does not take. -/
def NotHolder : Guard (State T Loc) (Action T) := fun _ a =>
  a ≠ .post ∧ a ≠ .postThrows ∧ a ≠ .send ∧ a ≠ .store

/-- A call that fails. It begins in `s`, and its first step leads to `s₁`; the others take the
task to `s₂`; with its last step, to `s'`, it returns false or throws. A call that is refused
has one step only. -/
inductive FailedCall (B : Body T Loc) :
    Operation T → State T Loc → State T Loc → State T Loc → State T Loc → Prop
  | refused {op : Operation T} {s s' : State T Loc} (hs : step B s op.enter = some s')
      (hr : ReturnsFalse s s') : FailedCall B op s s' s' s'
  | launchThrows {s s₁ s₂ s' : State T Loc} (hs : step B s .run = some s₁)
      (hl : s₁.lock = some .post) (ho : (machine B).Steps NotHolder s₁ s₂)
      (ht : step B s₂ .postThrows = some s') : FailedCall B .run s s₁ s₂ s'
  | sendFails {r : Request} {s s₁ s₂ s' : State T Loc}
      (hs : step B s (r.operation : Operation T).enter = some s₁) (hl : s₁.lock = some (.send r))
      (ho : (machine B).Steps NotHolder s₁ s₂) (ht : step B s₂ .send = some s')
      (hr : ReturnsFalse s₂ s') : FailedCall B r.operation s s₁ s₂ s'
  | resumeFails {i : Nat} {s s₁ s₂ s' : State T Loc} (hs : step B s .resume = some s₁)
      (ho : (machine B).Steps Machine.free s₁ s₂)
      (hi : s₂.resuming[i]? = some s.history.length) (ht : step B s₂ (.resumeSend i) = some s')
      (hr : ReturnsFalse s₂ s') : FailedCall B .resume s s₁ s₂ s'

section Steps

variable {s s' : State T Loc}

theorem not_returnsFalse_self : ¬ ReturnsFalse s s := by
  rintro ⟨call, h⟩
  simp at h

theorem ReturnsFalse.log {call : Call T} {result : Bool}
    (h : ReturnsFalse s (s.log (.returned call result))) : result = false := by
  obtain ⟨call', h⟩ := h
  have hlast := List.append_cancel_left h
  simp at hlast
  exact hlast.2

/-- A first step that returns false has changed nothing. -/
theorem Moved.visible_refused {op : Operation T} (hm : Moved B s op.enter s')
    (hr : ReturnsFalse s s') :
    s'.visible = s.visible ∧ ¬ (op = .run ∧ s.currentStatus = .initial) := by
  cases op with
  | run =>
      cases hm with
      | runRefused hl hs => exact ⟨rfl, fun h => hs h.2⟩
      | runStarts hl hs => exact absurd hr not_returnsFalse_self
  | pause =>
      cases hm with
      | pauseRefused hl hs hs' => exact ⟨rfl, nofun⟩
      | pauseStarts hl hs => exact absurd hr not_returnsFalse_self
  | resume =>
      cases hm with
      | resumeStarts => exact absurd hr not_returnsFalse_self
  | cancel =>
      cases hm with
      | cancelDone hl hs => cases hr.log
      | cancelRefused hl hs => exact ⟨rfl, nofun⟩
      | cancelStarts hl hs => exact absurd hr not_returnsFalse_self
  | sendInputParameters value =>
      cases hm with
      | inputSent hc =>
          have hlog : ReturnsFalse s (s.log (.returned (.sendInputParameters value) true)) := hr
          cases hlog.log
      | inputRefused hc => exact ⟨rfl, nofun⟩

/-- `pause()` and `cancel()` get to their `try_send` without changing anything. -/
theorem Moved.visible_entered {r : Request} (hm : Moved B s (r.operation : Operation T).enter s')
    (hl : s'.lock = some (.send r)) : s'.visible = s.visible := by
  cases r with
  | pause =>
      cases hm with
      | pauseRefused hl' hs hs' => cases hl'.symm.trans hl
      | pauseStarts hl' hs => rfl
  | cancel =>
      cases hm with
      | cancelDone hl' hs => cases hl'.symm.trans hl
      | cancelRefused hl' hs => cases hl'.symm.trans hl
      | cancelStarts hl' hs => rfl

/-- A `try_send` that fails leaves the channel as it is. -/
theorem Moved.visible_unsent {a : Action T} (hm : Moved B s a s')
    (ha : a = .send ∨ ∃ i, a = .resumeSend i) (hr : ReturnsFalse s s') :
    s'.visible = s.visible := by
  rcases ha with rfl | ⟨i, rfl⟩
  · cases hm with
    | sent hl hc => exact absurd hr not_returnsFalse_self
    | sendFailed hl hc => rfl
  · cases hm with
    | resumed hi hc =>
        have hlog : ReturnsFalse s (s.log (.returned (.resume _) true)) := hr
        cases hlog.log
    | resumeFailed hi hc => rfl

/-- `run()` stores `RUNNING` before it launches the coroutine. -/
theorem Moved.visible_launching (hm : Moved B s .run s') (hl : s'.lock = some .post) :
    s.currentStatus = .initial ∧ s'.visible ≠ s.visible := by
  cases hm with
  | runRefused hl' hs => cases hl'.symm.trans hl
  | runStarts hl' hs =>
      refine ⟨hs, ?_⟩
      intro h
      have hstatus := congrArg Visible.currentStatus h
      rw [State.visible, State.visible, hs] at hstatus
      cases hstatus

end Steps

/-- **A failed call leaves the task untouched, unless it is a `run()` that fails to launch.**
For a call that returns false or throws, in any state and with any steps of the others in
between: its own steps leave the status, the future, the cached result and what is in the two
channels as they find them, just when it is not a `run()` of a task that was `INITIAL`. -/
theorem failed_untouched_iff {op : Operation T} {s s₁ s₂ s' : State T Loc}
    (h : FailedCall B op s s₁ s₂ s') :
    (s₁.visible = s.visible ∧ s'.visible = s₂.visible) ↔
      ¬ (op = .run ∧ s.currentStatus = .initial) := by
  cases h with
  | refused hs hr =>
      obtain ⟨hsame, hcond⟩ := (step_moved hs).visible_refused hr
      exact ⟨fun _ => hcond, fun _ => ⟨hsame, rfl⟩⟩
  | launchThrows hs hl ho ht =>
      obtain ⟨hinitial, hne⟩ := (step_moved hs).visible_launching hl
      exact ⟨fun hsame => absurd hsame.1 hne, fun hcond => absurd ⟨rfl, hinitial⟩ hcond⟩
  | @sendFails r _ _ _ _ hs hl ho ht hr =>
      have hfirst := (step_moved hs).visible_entered hl
      have hlast := (step_moved ht).visible_unsent (.inl rfl) hr
      refine ⟨fun _ => ?_, fun _ => ⟨hfirst, hlast⟩⟩
      cases r <;> nofun
  | resumeFails hs ho hi ht hr =>
      have hfirst : s₁.visible = s.visible := by
        cases step_moved hs with
        | resumeStarts => rfl
      have hlast := (step_moved ht).visible_unsent (.inr ⟨_, rfl⟩) hr
      exact ⟨fun _ => nofun, fun _ => ⟨hfirst, hlast⟩⟩

/-- A second `pause()` finds the command of the first one in the channel. -/
theorem failed_untouched_iff_second_pause :
    ∃ s s₁ s', (machine otaTask).Reachable Machine.free s ∧
      FailedCall otaTask .pause s s₁ s₁ s' ∧ s.currentStatus = .paused ∧
      s'.visible = s.visible := by
  obtain ⟨s, hs, hp⟩ := Machine.reachable_of_exec (M := machine otaTask)
    (l := launch ++ [Action.pause, .send, .store])
    (p := fun s => s.currentStatus == .paused && (step otaTask s .pause).any fun s₁ =>
      s₁.lock == some (Critical.send .pause) && (step otaTask s₁ .send).any fun s' =>
        s'.history == s₁.history ++ [Event.returned Call.pause false]) (by decide)
  obtain ⟨hstatus, hp⟩ := Bool.and_eq_true_iff.mp hp
  obtain ⟨s₁, hfirst, hp⟩ := (Option.any_eq_true _ _).mp hp
  obtain ⟨hl, hp⟩ := Bool.and_eq_true_iff.mp hp
  obtain ⟨s', hlast, hp⟩ := (Option.any_eq_true _ _).mp hp
  have hcall : FailedCall otaTask .pause s s₁ s₁ s' :=
    .sendFails (r := .pause) hfirst (eq_of_beq hl) (Machine.Steps.refl _) hlast
      ⟨_, eq_of_beq hp⟩
  obtain ⟨hsame, hsame'⟩ := (failed_untouched_iff hcall).mpr nofun
  exact ⟨s, s₁, s', hs, hcall, eq_of_beq hstatus, hsame'.trans hsame⟩

/-- `run()` of a task that no `shared_ptr` owns: it throws, the task says `RUNNING` without a
coroutine, and `run()` is refused from then on. -/
theorem failed_launch_leaves_running :
    ∃ s₁ s', FailedCall otaTask .run State.start s₁ s₁ s' ∧
      s'.visible ≠ (State.start : State OtaState OtaLoc).visible ∧
      s'.currentStatus = .running ∧ s'.coro = .notSpawned ∧
      step otaTask s' .run = some (s'.log (.returned .run false)) :=
  ⟨run State.start, _, .launchThrows rfl rfl (Machine.Steps.refl _) rfl, by decide, rfl, rfl, rfl⟩

end CppCode.Task
