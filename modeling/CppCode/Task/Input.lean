import CppCode.Task.Lifecycle
import CppCode.Task.OtaTask

/-!
# CppCode.Task.Input

**Input parameters.** `send_input_parameters()` returns true once the input channel
has taken the value. `wait_for_input_parameters()` receives from the input and the
control channel at the same time; when the control receive completes first, the
input receive is cancelled, together with the value it may already have removed from
its channel. That value is accepted and never returned (`accepted_value_dropped`).

No other step loses or reorders a value: in every run in which the control receive
only wins while the input receive has nothing, the values returned, then the one in
flight, then the one buffered, are the values accepted (`inputs_accounted`).
-/

namespace CppCode.Task

open Concurrency

variable {T Loc : Type} {B : Body T Loc} {s s' : State T Loc}

def Event.accepted? : Event T → Option T
  | .returned (.sendInputParameters value) true => some value
  | _ => none

def Event.input? : Event T → Option T
  | .input value => some value
  | _ => none

/-- The values whose `send_input_parameters()` returned true, in that order. -/
def State.acceptedInputs (s : State T Loc) : List T := s.history.filterMap Event.accepted?

/-- The values that `wait_for_input_parameters()` has returned, in that order. -/
def State.returnedInputs (s : State T Loc) : List T := s.history.filterMap Event.input?

/-- The control receive only wins the race while the input receive has no value. -/
def NoInputDiscarded : Guard (State T Loc) (Action T) := fun s a =>
  a = .coro .controlWins → s.inputChannel.receiver.inFlight.isEmpty = true

instance [DecidableEq T] (s : State T Loc) (a : Action T) : Decidable (NoInputDiscarded s a) :=
  inferInstanceAs (Decidable (_ → _))

/-- Every accepted value is accounted for. -/
def InputsAccounted (s : State T Loc) : Prop :=
  s.returnedInputs ++ s.inputChannel.contents = s.acceptedInputs

/-- An event that neither accepts nor returns a value leaves the account alone. -/
theorem InputsAccounted.log (h : InputsAccounted s) {e : Event T} (ha : e.accepted? = none)
    (hi : e.input? = none) : InputsAccounted (s.log e) := by
  unfold InputsAccounted State.returnedInputs State.acceptedInputs at h ⊢
  rw [State.filterMap_log, State.filterMap_log, ha, hi]
  simpa using h

/-- The input channel changes, but not what it owes. -/
theorem InputsAccounted.channel (h : InputsAccounted s) (hr : s'.returnedInputs = s.returnedInputs)
    (ha : s'.acceptedInputs = s.acceptedInputs)
    (hc : s'.inputChannel.contents = s.inputChannel.contents) : InputsAccounted s' := by
  unfold InputsAccounted at h ⊢
  rw [hr, ha, hc]
  exact h

theorem CoroMoved.inputsAccounted {choice : Choice} (hm : CoroMoved B s choice s')
    (hg : NoInputDiscarded s (.coro choice)) (h : InputsAccounted s) : InputsAccounted s' := by
  cases hm with
  | isStatus | setStatus | whenCancel | asyncSleep | external | enterResume | enterInput | coReturn
  | throw | paused | notPaused | whenPause | whenPauseFails | startReceive | tookResume | tookPause
  | tookCancel | whenResume | whenResumeFails | setRunning | startControl => exact h
  | startInput hc hr => exact h.channel rfl rfl (Channel.contents_startReceive hr)
  | inputWins hc hr =>
      -- the value moves from the head of the channel to the end of the returned ones
      unfold InputsAccounted State.returnedInputs State.acceptedInputs at h ⊢
      rw [Channel.contents_take hr] at h
      rw [State.filterMap_log, State.filterMap_log]
      simpa [answer, Event.input?, Event.accepted?] using h
  | controlWins hc hr =>
      refine h.channel rfl rfl (Channel.contents_cancelReceive_of_empty ?_)
      exact List.isEmpty_iff.mp (hg rfl)

theorem Moved.inputsAccounted {a : Action T} (hm : Moved B s a s') (hg : NoInputDiscarded s a)
    (h : InputsAccounted s) : InputsAccounted s' := by
  cases hm with
  | runStarts | pauseStarts | cancelStarts | sent | resumeStarts | setStatus | completed => exact h
  | runRefused | posted | postThrew | pauseRefused | cancelDone | cancelRefused | resumed
  | resumeFailed | inputRefused | polled => exact InputsAccounted.log h rfl rfl
  | sendFailed hl hc =>
      rename_i r
      exact InputsAccounted.log h (by cases r <;> rfl) (by cases r <;> rfl)
  | stored hl =>
      rename_i r
      exact InputsAccounted.log h (by cases r <;> rfl) (by cases r <;> rfl)
  | consumed => exact InputsAccounted.log (InputsAccounted.log h rfl rfl) rfl rfl
  | inputSent hc =>
      unfold InputsAccounted State.returnedInputs State.acceptedInputs at h ⊢
      rw [State.filterMap_log, State.filterMap_log, ← h]
      simp [State.log, Event.input?, Event.accepted?, Channel.contents_trySend hc]
  | coro hm => exact hm.inputsAccounted hg h

/-- **No accepted value is lost.** In every run in which the control receive of
`wait_for_input_parameters()` wins only while the input receive has no value: the
values returned, followed by the value in flight and the value buffered, are the
values whose `send_input_parameters()` returned true, in the same order. -/
theorem inputs_accounted {T Loc : Type} {B : Body T Loc} {s : State T Loc}
    (h : (machine B).Reachable NoInputDiscarded s) :
    s.returnedInputs ++ (s.inputChannel.receiver.inFlight ++ s.inputChannel.buffer) =
      s.acceptedInputs :=
  Machine.Reachable.invariant (I := InputsAccounted) h rfl fun _ hi hg hs =>
    (step_moved hs).inputsAccounted hg hi

theorem inputs_accounted_one_each :
    ∃ s, (machine otaTask).Reachable NoInputDiscarded s ∧
      s.acceptedInputs = [.downloading, .verifying, .updating] ∧
      s.returnedInputs ++ (s.inputChannel.receiver.inFlight ++ s.inputChannel.buffer) =
        [.downloading, .verifying, .updating] := by
  obtain ⟨s, hs, hp⟩ := Machine.reachable_of_execWithin (M := machine otaTask)
    (G := NoInputDiscarded)
    (l := launch ++ toRace ++ [Action.sendInputParameters .downloading, .coro .inputWins] ++
      toRace ++ [Action.sendInputParameters .verifying, .sendInputParameters .updating])
    (p := fun s => s.acceptedInputs = [.downloading, .verifying, .updating]) (by decide)
  have ha := of_decide_eq_true hp
  exact ⟨s, hs, ha, (inputs_accounted hs).trans ha⟩

/-- Both receives of the race have their message, and the command wins: the accepted
value is neither returned nor left anywhere. -/
theorem accepted_value_dropped :
    ∃ s, (machine otaTask).Reachable Machine.free s ∧ s.acceptedInputs = [.completed] ∧
      s.returnedInputs = [] ∧ s.inputChannel.receiver.inFlight = [] ∧
      s.inputChannel.buffer = [] := by
  obtain ⟨s, hs, hp⟩ := Machine.reachable_of_exec (M := machine otaTask)
    (l := launch ++ toRace ++ [Action.sendInputParameters .completed, .resume, .resumeSend 0,
      .coro .controlWins])
    (p := fun s => s.acceptedInputs = [.completed] && s.returnedInputs = [] &&
      s.inputChannel.receiver.inFlight = [] && s.inputChannel.buffer = []) (by decide)
  simp only [Bool.and_eq_true, decide_eq_true_eq] at hp
  exact ⟨s, hs, hp.1.1.1, hp.1.1.2, hp.1.2, hp.2⟩

end CppCode.Task
