import CppCode.Task.Destroy

/-!
# CppCode.Task.OtaNode

The behaviour tree node that drives an `OtaTask`
(`behaviortree_test/026.ota_state/026.ota_state.cpp`), with its hooks called the way
`BT::StatefulActionNode` calls them: `onStart()` on an idle node, `onRunning()` and
`onHalted()` on one that has returned `RUNNING`. A node that returns `SUCCESS` or `FAILURE` is
idle again. The coroutine moves at any time between the steps of a hook.

`onHalted()` drops the task. Every other way to end an activation keeps it in `ota_task_`, and
a task can be run only once: the next `onStart()` gets its `run()` refused and returns
`FAILURE` (`second_activation_fails`). An activation starts a coroutine of its own just when
no task was kept (`onStart_fresh_iff`).
-/

namespace CppCode.Task

open Concurrency

/-- What a hook returns. -/
inductive NodeStatus
  | running
  | success
  | failure
  deriving Repr, DecidableEq

/-- How a hook ends. -/
inductive HookResult
  | returned (status : NodeStatus)
  | threw
  deriving Repr, DecidableEq

inductive NodePc
  /-- No hook is under way, and the node is idle, or has returned `RUNNING`. -/
  | idle
  | running
  /-- In `onRunning()`, after `get_current_status()`. -/
  | sending
  /-- In `onHalted()`, inside `cancel()`. -/
  | cancelling
  /-- In `onHalted()`, inside `~Task()`. -/
  | destroying
  deriving Repr, DecidableEq

structure OtaNode where
  otaTask : Option (State OtaState OtaLoc)
  pc : NodePc

/-- An `OtaTask` whose `run()` has just returned true. -/
def launched : State OtaState OtaLoc :=
  { (State.start : State OtaState OtaLoc) with
    currentStatus := .running
    result := .pending
    coro := .body otaTask.start
    history := [.returned .run true] }

/-- An `OtaTask` whose `run()` has thrown. -/
def unlaunched : State OtaState OtaLoc :=
  { (State.start : State OtaState OtaLoc) with
    currentStatus := .running
    history := [.runThrew] }

/-! ### The hooks -/

/-- `onStart()` once it has an input that is not `IDLE`. `launches` says whether the launch of
the coroutine succeeds. Nobody else can see a task before its coroutine exists, so the hook is
one step. -/
def startTask (n : OtaNode) (launches : Bool) : Option (OtaNode × HookResult) :=
  match step otaTask (n.otaTask.getD .start) .run with
  | none => none
  | some t =>
      match t.lock with
      -- `run()` returned false
      | none => some ({ n with otaTask := some t }, .returned .failure)
      | some _ =>
          if launches = true then
            (step otaTask t .post).map fun t' =>
              ({ otaTask := some t', pc := .running }, .returned .running)
          else
            (step otaTask t .postThrows).map fun t' => ({ n with otaTask := some t' }, .threw)

/-- `onStart()`. `input` is what `getInput()` answers. -/
def onStart (n : OtaNode) (input : Option OtaState) (launches : Bool) :
    Option (OtaNode × HookResult) :=
  match input with
  | none => some (n, .returned .failure)
  | some otaState =>
      if otaState = .idle then some (n, .returned .failure) else startTask n launches

/-- `onRunning()` up to its look at the status. -/
def onRunning (n : OtaNode) (t : State OtaState OtaLoc) : Option OtaNode :=
  (step otaTask t .getCurrentStatus).map fun t' =>
    match t'.currentStatus with
    | .completed | .failed => { otaTask := some t', pc := .idle }
    | _ => { n with otaTask := some t', pc := .sending }

/-- The rest of `onRunning()`. Without input it returns `FAILURE`. -/
def sendInput (t : State OtaState OtaLoc) : Option OtaState → Option OtaNode
  | none => some { otaTask := some t, pc := .idle }
  | some value =>
      (step otaTask t (.sendInputParameters value)).map fun t' =>
        { otaTask := some t', pc := .running }

/-- The next step of the `cancel()` in `onHalted()`, and then `ota_task_.reset()`. A task whose
coroutine is active lives on with the reference of the coroutine. -/
def cancelStep (t : State OtaState OtaLoc) : Option OtaNode :=
  match t.lock with
  | some (.send _) =>
      (step otaTask t .send).map fun t' => { otaTask := some t', pc := .cancelling }
  | some (.store _) =>
      (step otaTask t .store).map fun t' => { otaTask := some t', pc := .cancelling }
  | some .post => none
  | none =>
      if t.coro.active = true then some { otaTask := none, pc := .idle }
      else some { otaTask := some t, pc := .destroying }

/-- One round of the loop of `~Task()`. -/
def destroyRound (t : State OtaState OtaLoc) : OtaNode :=
  if (cancelCall t).answered = true then { otaTask := none, pc := .idle }
  else { otaTask := some (cancelCall t), pc := .destroying }

/-! ### The machine -/

inductive NodeAction
  | onStart (input : Option OtaState) (launches : Bool)
  | onRunning
  | sendInput (input : Option OtaState)
  | onHalted
  | cancelStep
  | destroyRound
  /-- The coroutine moves. -/
  | coro (choice : Choice)
  | complete
  deriving DecidableEq

def nodeStep (n : OtaNode) (a : NodeAction) : Option OtaNode :=
  match a, n.pc, n.otaTask with
  | .onStart input launches, .idle, _ => (onStart n input launches).map Prod.fst
  | .onRunning, .running, some t => onRunning n t
  | .sendInput input, .sending, some t => sendInput t input
  | .onHalted, .running, none => some { n with pc := .idle }
  | .onHalted, .running, some t =>
      (step otaTask t .cancel).map fun t' => { otaTask := some t', pc := .cancelling }
  | .cancelStep, .cancelling, some t => cancelStep t
  | .destroyRound, .destroying, some t => some (destroyRound t)
  | .coro choice, _, some t =>
      (step otaTask t (.coro choice)).map fun t' => { n with otaTask := some t' }
  | .complete, _, some t =>
      (step otaTask t .complete).map fun t' => { n with otaTask := some t' }
  | _, _, _ => none

/-- A new node. -/
def nodeMachine : Machine OtaNode NodeAction where
  init := { otaTask := none, pc := .idle }
  step := nodeStep

/-! ### A kept task has been run -/

section Kept

variable {T Loc : Type} {B : Body T Loc} {s s' : State T Loc}

/-- No step brings a task back to `INITIAL`. -/
theorem Moved.ne_initial {a : Action T} (hm : Moved B s a s') (h : s.currentStatus ≠ .initial) :
    s'.currentStatus ≠ .initial := by
  cases hm with
  | runStarts hl hs => exact absurd hs h
  | stored hl => exact Request.status_ne_initial _
  | consumed hl hn hr => exact statusOf_ne_initial _
  | setStatus status hl => exact fun hi => h (setStatus_eq_initial hi)
  | coro hm =>
      rcases hm.status with he | ⟨-, status, he⟩
      · rw [he]
        exact h
      · rw [he]
        exact fun hi => h (setStatus_eq_initial hi)
  | _ => exact h

/-- Only control operations take the mutex for longer than a step. -/
theorem Moved.lock_eq {a : Action T} (hm : Moved B s a s')
    (ha : a = .getCurrentStatus ∨ (∃ value, a = .sendInputParameters value) ∨
      (∃ choice, a = .coro choice) ∨ a = .complete) : s'.lock = s.lock := by
  rcases ha with rfl | ⟨value, rfl⟩ | ⟨choice, rfl⟩ | rfl
  · cases hm <;> rfl
  · cases hm <;> rfl
  · cases hm with
    | coro hm => exact hm.frame.lock
  · cases hm
    rfl

end Kept

/-- A task that is kept has been run, and its mutex is free unless the node is cancelling it. -/
def Kept (n : OtaNode) : Prop :=
  ∀ t, n.otaTask = some t → t.currentStatus ≠ .initial ∧ (n.pc ≠ .cancelling → t.lock = none)

section Hooks

variable {n n' : OtaNode} {t t' : State OtaState OtaLoc}

/-- A kept task refuses to run. -/
theorem run_refused (hl : t.lock = none) (hs : t.currentStatus ≠ .initial) :
    step otaTask t .run = some (t.log (.returned .run false)) := by
  simp [step, locked, hl, run, hs]

theorem startTask_kept (h : Kept n) (hpc : n.pc = .idle) (ht : n.otaTask = some t)
    (launches : Bool) :
    startTask n launches =
      some ({ n with otaTask := some (t.log (.returned .run false)) }, .returned .failure) := by
  obtain ⟨hs, hl⟩ := h t ht
  have hfree := hl (by rw [hpc]; nofun)
  have hfree' : (t.log (.returned .run false)).lock = none := hfree
  simp only [startTask, ht, Option.getD_some, run_refused hfree hs, hfree']

theorem startTask_fresh (ht : n.otaTask = none) :
    startTask n true = some ({ otaTask := some launched, pc := .running }, .returned .running) := by
  simp only [startTask, ht, Option.getD_none]
  rfl

theorem startTask_throws (ht : n.otaTask = none) :
    startTask n false = some ({ n with otaTask := some unlaunched }, .threw) := by
  simp only [startTask, ht, Option.getD_none]
  rfl

theorem Kept.of_none (pc : NodePc) : Kept { otaTask := none, pc := pc } := by
  intro t ht
  cases ht

theorem Kept.of_some {pc : NodePc} (hs : t.currentStatus ≠ .initial)
    (hl : pc ≠ .cancelling → t.lock = none) : Kept { otaTask := some t, pc := pc } := by
  intro t' ht
  obtain rfl := Option.some.inj ht
  exact ⟨hs, hl⟩

theorem onStart_kept (h : Kept n) (hpc : n.pc = .idle) {input : Option OtaState}
    {launches : Bool} {result : HookResult} (hs : onStart n input launches = some (n', result)) :
    Kept n' := by
  unfold onStart at hs
  split at hs
  · obtain ⟨rfl, -⟩ := Prod.mk.inj (Option.some.inj hs)
    exact h
  · split at hs
    · obtain ⟨rfl, -⟩ := Prod.mk.inj (Option.some.inj hs)
      exact h
    · cases ht : n.otaTask with
      | some t =>
          rw [startTask_kept h hpc ht] at hs
          obtain ⟨rfl, -⟩ := Prod.mk.inj (Option.some.inj hs)
          obtain ⟨hinitial, hl⟩ := h t ht
          exact .of_some hinitial hl
      | none =>
          cases launches with
          | true =>
              rw [startTask_fresh ht] at hs
              obtain ⟨rfl, -⟩ := Prod.mk.inj (Option.some.inj hs)
              exact .of_some nofun fun _ => rfl
          | false =>
              rw [startTask_throws ht] at hs
              obtain ⟨rfl, -⟩ := Prod.mk.inj (Option.some.inj hs)
              exact .of_some nofun fun _ => rfl

/-- A step of the task that leaves its mutex alone. -/
theorem Kept.task_moves {a : Action OtaState} {pc pc' : NodePc}
    (h : Kept { otaTask := some t, pc := pc }) (hs : step otaTask t a = some t')
    (ha : a = .getCurrentStatus ∨ (∃ value, a = .sendInputParameters value) ∨
      (∃ choice, a = .coro choice) ∨ a = .complete) (hpc : pc' ≠ .cancelling → pc ≠ .cancelling) :
    Kept { otaTask := some t', pc := pc' } := by
  have hm := step_moved hs
  obtain ⟨hinitial, hl⟩ := h t rfl
  refine .of_some (hm.ne_initial hinitial) ?_
  intro hne
  rw [hm.lock_eq ha]
  exact hl (hpc hne)

theorem cancelStep_kept (hinitial : t.currentStatus ≠ .initial) (hs : cancelStep t = some n') :
    Kept n' := by
  unfold cancelStep at hs
  split at hs
  · obtain ⟨t', hstep, rfl⟩ := Option.map_eq_some_iff.mp hs
    exact .of_some ((step_moved hstep).ne_initial hinitial) (absurd rfl)
  · obtain ⟨t', hstep, rfl⟩ := Option.map_eq_some_iff.mp hs
    exact .of_some ((step_moved hstep).ne_initial hinitial) (absurd rfl)
  · cases hs
  · rename_i hl
    split at hs
    · obtain rfl := Option.some.inj hs
      exact .of_none _
    · obtain rfl := Option.some.inj hs
      exact .of_some hinitial fun _ => hl

theorem destroyRound_kept (hinitial : t.currentStatus ≠ .initial) (hl : t.lock = none) :
    Kept (destroyRound t) := by
  unfold destroyRound
  split
  · exact .of_none _
  · rename_i hno
    rcases cancelCall_cases hl with ⟨-, he⟩ | ⟨hi, -⟩ | ⟨-, ⟨c, -, he⟩ | ⟨-, he⟩⟩
    · rw [he, answered_returned] at hno
      exact absurd rfl hno
    · exact absurd hi hinitial
    · rw [he, answered_returned] at hno
      exact absurd rfl hno
    · rw [he]
      exact .of_some hinitial fun _ => hl

theorem nodeStep_kept {a : NodeAction} (h : Kept n) (hs : nodeStep n a = some n') : Kept n' := by
  obtain ⟨task, pc⟩ := n
  unfold nodeStep at hs
  split at hs
  · rename_i hpc
    obtain ⟨⟨n₁, result⟩, hstart, rfl⟩ := Option.map_eq_some_iff.mp hs
    exact onStart_kept h hpc hstart
  · -- `onRunning()` goes back to idle or on to its input
    rename_i t hpc ht
    obtain rfl : task = some t := ht
    obtain ⟨t', hstep, rfl⟩ := Option.map_eq_some_iff.mp hs
    have hrunning : pc ≠ .cancelling := by rw [show pc = .running from hpc]; nofun
    split
    · exact h.task_moves hstep (.inl rfl) fun _ => hrunning
    · exact h.task_moves hstep (.inl rfl) fun _ => hrunning
    · exact h.task_moves hstep (.inl rfl) fun _ => hrunning
  · rename_i input t hpc ht
    obtain rfl : task = some t := ht
    have hsending : pc ≠ .cancelling := by rw [show pc = .sending from hpc]; nofun
    cases input with
    | none =>
        obtain rfl := Option.some.inj hs
        obtain ⟨hinitial, hl⟩ := h t rfl
        exact .of_some hinitial fun _ => hl hsending
    | some value =>
        rw [sendInput] at hs
        obtain ⟨t', hstep, rfl⟩ := Option.map_eq_some_iff.mp hs
        exact h.task_moves hstep (.inr (.inl ⟨_, rfl⟩)) fun _ => hsending
  · rename_i ht
    obtain rfl : task = none := ht
    obtain rfl := Option.some.inj hs
    exact .of_none _
  · rename_i t hpc ht
    obtain rfl : task = some t := ht
    obtain ⟨t', hstep, rfl⟩ := Option.map_eq_some_iff.mp hs
    exact .of_some ((step_moved hstep).ne_initial (h t rfl).1) (absurd rfl)
  · rename_i t hpc ht
    exact cancelStep_kept (h t ht).1 hs
  · rename_i t hpc ht
    obtain rfl := Option.some.inj hs
    obtain ⟨hinitial, hl⟩ := h t ht
    exact destroyRound_kept hinitial (hl (by rw [hpc]; nofun))
  · rename_i choice t ht
    obtain rfl : task = some t := ht
    obtain ⟨t', hstep, rfl⟩ := Option.map_eq_some_iff.mp hs
    exact h.task_moves hstep (.inr (.inr (.inl ⟨_, rfl⟩))) id
  · rename_i t ht
    obtain rfl : task = some t := ht
    obtain ⟨t', hstep, rfl⟩ := Option.map_eq_some_iff.mp hs
    exact h.task_moves hstep (.inr (.inr (.inr rfl))) id
  · cases hs

theorem reachable_kept (h : nodeMachine.Reachable Machine.free n) : Kept n := by
  refine h.invariant (Kept.of_none _) ?_
  intro _ _ _ _ hi _ hs
  exact nodeStep_kept hi hs

/-- **An activation is fresh just when no task was kept.** In every reachable state of the node
and its coroutine in which `onStart()` is called with an input that is present and not `IDLE`:
it returns, and it has started a coroutine of its own and returned `RUNNING` just when
`ota_task_` was null and the launch did not throw. -/
theorem onStart_fresh_iff (h : nodeMachine.Reachable Machine.free n) (hpc : n.pc = .idle)
    {v : OtaState} (hv : v ≠ .idle) (launches : Bool) :
    ∃ n' result, onStart n (some v) launches = some (n', result) ∧
      ((result = .returned .running ∧ n'.otaTask = some launched) ↔
        (n.otaTask = none ∧ launches = true)) := by
  have hstart : onStart n (some v) launches = startTask n launches := by
    rw [onStart, if_neg hv]
  rw [hstart]
  cases ht : n.otaTask with
  | some t =>
      refine ⟨_, _, startTask_kept (reachable_kept h) hpc ht launches, ?_⟩
      exact ⟨fun hr => (nomatch hr.1), fun hr => (nomatch hr.1)⟩
  | none =>
      cases launches with
      | true => exact ⟨_, _, startTask_fresh ht, fun _ => ⟨rfl, rfl⟩, fun _ => ⟨rfl, rfl⟩⟩
      | false =>
          refine ⟨_, _, startTask_throws ht, ?_⟩
          exact ⟨fun hr => (nomatch hr.1), fun hr => (nomatch hr.2)⟩

end Hooks

/-- The first activation, up to the race of the receives in the coroutine. -/
def activation : List NodeAction :=
  NodeAction.onStart (some .downloading) true :: List.replicate 6 (NodeAction.coro .go)

/-- The activation is halted, and the next one starts over. -/
theorem onStart_fresh_iff_after_halt :
    ∃ n n', nodeMachine.Reachable Machine.free n ∧ n.pc = .idle ∧
      onStart n (some .downloading) true = some (n', .returned .running) ∧
      n'.otaTask = some launched := by
  obtain ⟨n, hn, hp⟩ := Machine.reachable_of_exec (M := nodeMachine)
    (l := activation ++ [NodeAction.onHalted, .cancelStep, .cancelStep, .cancelStep])
    (p := fun n => n.pc == .idle && n.otaTask.isNone) (by decide)
  obtain ⟨hpc, hnone⟩ : n.pc = .idle ∧ n.otaTask = none := by simpa using hp
  obtain ⟨n', result, hs, hiff⟩ :=
    onStart_fresh_iff hn hpc (v := .downloading) nofun true
  obtain ⟨rfl, hfresh⟩ := hiff.mpr ⟨hnone, rfl⟩
  exact ⟨n, n', hn, hpc, hs, hfresh⟩

/-- The update completes, `onRunning()` returns `SUCCESS`, and the next activation fails. -/
theorem second_activation_fails :
    ∃ n n', nodeMachine.Reachable Machine.free n ∧ n.pc = .idle ∧
      onStart n (some .downloading) true = some (n', .returned .failure) := by
  obtain ⟨n, hn, hp⟩ := Machine.reachable_of_exec (M := nodeMachine)
    (l := activation ++ [NodeAction.onRunning, .sendInput (some .completed), .coro .inputWins,
      .coro .go, .complete, .onRunning])
    (p := fun n => n.pc == .idle &&
      (onStart n (some .downloading) true).any fun r => r.2 == .returned .failure) (by decide)
  obtain ⟨hpc, hp⟩ := Bool.and_eq_true_iff.mp hp
  obtain ⟨⟨n', result⟩, hs, hr⟩ := (Option.any_eq_true _ _).mp hp
  obtain rfl := eq_of_beq hr
  exact ⟨n, n', hn, eq_of_beq hpc, hs⟩

end CppCode.Task
