import CppCode.Task.Moves

/-!
# CppCode.Task.Lifecycle

What holds of a task in every reachable state, whatever its coroutine does.

* `Lifecycle` relates the status, the mutex, the future and the coroutine: the
  coroutine is spawned at most once, its future becomes ready with its own outcome,
  and the holder of the mutex still sees the status it checked.
* `Receivers` says which position of the coroutine has a receive open on which
  channel. In particular nobody receives from the control channel before the
  coroutine is spawned and after it has finished.
-/

namespace CppCode.Task

open Concurrency

variable {T Loc : Type} {B : Body T Loc} {s s' : State T Loc}

/-- `COMPLETED`, `FAILED`, `CANCELLED`: `set_status` calls them final. -/
def TaskStatus.terminal : TaskStatus → Bool
  | .completed | .failed | .cancelled => true
  | .initial | .running | .paused => false

/-- The statuses with which `pause()` and `cancel()` go on to their `try_send`. -/
def Request.admits : Request → TaskStatus → Bool
  | .pause, .running | .pause, .paused => true
  | .cancel, .running | .cancel, .paused | .cancel, .cancelled => true
  | _, _ => false

/-- The coroutine exists and has not finished. -/
def Coro.active : Coro Loc → Bool
  | .notSpawned | .finished _ => false
  | _ => true

/-! ### The transition table -/

theorem setStatus_eq_initial {current status : TaskStatus}
    (h : (setStatus current status).2 = .initial) : current = .initial := by
  revert h
  cases current <;> cases status <;> decide

theorem setStatus_of_terminal {current : TaskStatus} (h : current.terminal = true)
    (status : TaskStatus) : (setStatus current status).2 = current := by
  revert h
  cases current <;> cases status <;> decide

theorem statusOf_terminal (outcome : Outcome) : (statusOf outcome).terminal = true := by
  rcases outcome with _ | r
  · rfl
  · cases r <;> rfl

theorem statusOf_ne_initial (outcome : Outcome) : statusOf outcome ≠ .initial := by
  intro h
  have ht := statusOf_terminal outcome
  rw [h] at ht
  cases ht

theorem Request.status_ne_initial (r : Request) : r.status ≠ .initial := by
  cases r <;> nofun

/-! ### What every step of the coroutine leaves alone -/

/-- A step of the coroutine, seen by the controllers. -/
structure CoroFrame (s s' : State T Loc) : Prop where
  active : s.coro.active = true
  spawned : s'.coro ≠ .notSpawned
  result : s'.result = s.result
  cachedResult : s'.cachedResult = s.cachedResult
  lock : s'.lock = s.lock
  resuming : s'.resuming = s.resuming

theorem CoroMoved.frame {choice : Choice} (h : CoroMoved B s choice s') : CoroFrame s s' := by
  cases h with
  | isStatus hc | setStatus hc | whenCancel hc | asyncSleep hc | external hc | enterResume hc
  | enterInput hc | coReturn hc | throw hc | paused hc | notPaused hc | whenPause hc
  | whenPauseFails hc | startReceive hc | tookResume hc | tookPause hc | tookCancel hc
  | whenResume hc | whenResumeFails hc | setRunning hc | startInput hc | startControl hc
  | inputWins hc | controlWins hc => exact ⟨by rw [hc]; rfl, nofun, rfl, rfl, rfl, rfl⟩

/-- The coroutine changes the status through `set_status` only, and takes the mutex
for it. -/
theorem CoroMoved.status {choice : Choice} (h : CoroMoved B s choice s') :
    s'.currentStatus = s.currentStatus ∨
      s.lock = none ∧ ∃ status, s'.currentStatus = (Task.setStatus s.currentStatus status).2 := by
  cases h with
  | setStatus hc ho hl => exact .inr ⟨hl, _, rfl⟩
  | setRunning hc hl => exact .inr ⟨hl, _, rfl⟩
  | _ => exact .inl rfl

/-! ### What no step changes -/

/-- No step takes back an event. -/
theorem Moved.history {a : Action T} (hm : Moved B s a s') {e : Event T} (he : e ∈ s.history) :
    e ∈ s'.history := by
  cases hm with
  | runStarts | pauseStarts | cancelStarts | sent | resumeStarts | setStatus | completed => exact he
  | runRefused | posted | postThrew | pauseRefused | cancelDone | cancelRefused | sendFailed
  | stored | resumed | resumeFailed | inputSent | inputRefused | polled =>
      exact List.mem_append_left _ he
  | consumed => exact List.mem_append_left _ (List.mem_append_left _ he)
  | coro hm =>
      cases hm with
      | inputWins => exact List.mem_append_left _ he
      | _ => exact he

/-- Only `run()` and the coroutine itself move the coroutine. -/
theorem Moved.coro_eq {a : Action T} (hm : Moved B s a s') (hl : s.lock ≠ some .post)
    (ha : ∀ choice, a ≠ .coro choice) : s'.coro = s.coro := by
  cases hm with
  | posted hl' => exact absurd hl' hl
  | coro => exact absurd rfl (ha _)
  | _ => rfl

/-! ### The life of a task -/

/-- `Lifecycle`, over the components of a state. -/
structure LifecycleAt (status : TaskStatus) (result : Future) (cached : Option TaskResult)
    (lock : Option Critical) (coro : Coro Loc) : Prop where
  initial : status = .initial → coro = .notSpawned
  /-- `run()` posts a coroutine that does not exist yet. -/
  post : lock = some .post → status = .running ∧ coro = .notSpawned
  /-- Whoever holds the mutex in `pause()` or `cancel()` still sees a status it accepted. -/
  request : ∀ r, lock = some (.send r) ∨ lock = some (.store r) → r.admits status = true
  unspawned : coro = .notSpawned → result = .invalid ∧ cached = none
  ready : ∀ outcome, result = .ready outcome → coro = .finished outcome
  cached : ∀ r, cached = some r → coro.active = false

abbrev Lifecycle (s : State T Loc) : Prop :=
  LifecycleAt s.currentStatus s.result s.cachedResult s.lock s.coro

theorem lifecycle_start : Lifecycle (State.start : State T Loc) where
  initial := fun _ => rfl
  post := nofun
  request := fun _ h => by rcases h with h | h <;> cases h
  unspawned := fun _ => ⟨rfl, rfl⟩
  ready := fun _ h => nomatch h
  cached := fun _ h => nomatch h

section Components

variable {status status' : TaskStatus} {result : Future} {cached : Option TaskResult}
  {lock : Option Critical} {coro : Coro Loc}

/-- The mutex is released. -/
theorem LifecycleAt.unlock (h : LifecycleAt status result cached lock coro)
    (hs : status' = .initial → status = .initial) :
    LifecycleAt status' result cached none coro where
  initial := fun hi => h.initial (hs hi)
  post := nofun
  request := fun _ h => by rcases h with h | h <;> cases h
  unspawned := h.unspawned
  ready := h.ready
  cached := h.cached

/-- `pause()` or `cancel()` goes on with the mutex held. -/
theorem LifecycleAt.hold (h : LifecycleAt status result cached lock coro) {r : Request}
    {critical : Critical} (hr : r.admits status = true)
    (hc : critical = .send r ∨ critical = .store r) :
    LifecycleAt status result cached (some critical) coro where
  initial := h.initial
  post := fun hp => by
    rcases hc with rfl | rfl <;> cases hp
  request := fun r' h' => by
    rcases hc with rfl | rfl <;> rcases h' with h' | h' <;> cases h' <;> exact hr
  unspawned := h.unspawned
  ready := h.ready
  cached := h.cached

end Components

theorem CoroMoved.lifecycle {choice : Choice} (hm : CoroMoved B s choice s') (h : Lifecycle s) :
    Lifecycle s' := by
  have hf := hm.frame
  -- a coroutine that moves has been spawned, so the fields about `notSpawned` are void
  have hspawned : s.coro ≠ .notSpawned := fun hn => by
    have ha := hf.active
    rw [hn] at ha
    cases ha
  have hs : s'.currentStatus = .initial → s.currentStatus = .initial := by
    intro hi
    rcases hm.status with he | ⟨-, status, he⟩
    · rw [← he]; exact hi
    · exact setStatus_eq_initial (he.symm.trans hi)
  refine ⟨fun hi => absurd (h.initial (hs hi)) hspawned, fun hl => ?_, fun r hr => ?_,
    fun hn => absurd hn hf.spawned, fun outcome hr => ?_, fun r hc => ?_⟩
  · rw [hf.lock] at hl
    exact absurd (h.post hl).2 hspawned
  · rw [hf.lock] at hr
    rcases hm.status with he | ⟨hl, -⟩
    · rw [he]
      exact h.request r hr
    · rw [hl] at hr
      rcases hr with hr | hr <;> cases hr
  · rw [hf.result] at hr
    have ha := hf.active
    rw [h.ready outcome hr] at ha
    cases ha
  · rw [hf.cachedResult] at hc
    exact absurd hf.active (by rw [h.cached r hc]; nofun)

theorem Moved.lifecycle {a : Action T} (hm : Moved B s a s') (h : Lifecycle s) :
    Lifecycle s' := by
  cases hm with
  | runRefused | pauseRefused | cancelDone | cancelRefused | resumeStarts | resumed | resumeFailed
  | inputSent | inputRefused | polled => exact h
  | runStarts hl hs =>
      refine ⟨nofun, fun _ => ⟨rfl, h.initial hs⟩, ?_, h.unspawned, h.ready, h.cached⟩
      intro r hr
      rcases hr with hr | hr <;> cases hr
  | posted hl =>
      obtain ⟨hs, hc⟩ := h.post hl
      obtain ⟨-, hn⟩ := h.unspawned hc
      refine ⟨fun hi => ?_, nofun, fun r hr => ?_, nofun, nofun, fun r hr => ?_⟩
      · exact absurd (hs.symm.trans hi) nofun
      · rcases hr with hr | hr <;> cases hr
      · exact absurd (hn.symm.trans hr) nofun
  | postThrew | sendFailed => exact h.unlock id
  | pauseStarts hl hs =>
      exact h.hold (r := .pause) (by rcases hs with hs | hs <;> rw [hs] <;> rfl) (.inl rfl)
  | cancelStarts hl hs =>
      exact h.hold (r := .cancel) (by rcases hs with hs | hs | hs <;> rw [hs] <;> rfl) (.inl rfl)
  | sent hl hc => exact h.hold (h.request _ (.inl hl)) (.inr rfl)
  | stored hl => exact h.unlock fun hi => absurd hi (Request.status_ne_initial _)
  | consumed hl hn hr =>
      rename_i outcome
      have hc := h.ready outcome hr
      refine ⟨fun hi => ?_, fun hp => absurd (hl.symm.trans hp) nofun, fun r hr => ?_,
        fun hu => absurd (hc.symm.trans hu) nofun, nofun, fun r _ => by rw [hc]; rfl⟩
      · exact absurd hi (statusOf_ne_initial outcome)
      · rcases hr with hr | hr <;> exact absurd (hl.symm.trans hr) nofun
  | setStatus status hl =>
      have h' : LifecycleAt (Task.setStatus s.currentStatus status).2 s.result s.cachedResult none
          s.coro := h.unlock setStatus_eq_initial
      rwa [← hl] at h'
  | completed hc hr =>
      refine ⟨h.initial, h.post, h.request, fun hu => absurd (hc.symm.trans hu) nofun, ?_, h.cached⟩
      intro outcome ho
      cases ho
      exact hc
  | coro hm => exact hm.lifecycle h

theorem step_lifecycle {a : Action T} (h : Lifecycle s) (hs : step B s a = some s') :
    Lifecycle s' :=
  (step_moved hs).lifecycle h

theorem reachable_lifecycle {G : Guard (State T Loc) (Action T)}
    (h : (machine B).Reachable G s) : Lifecycle s :=
  h.invariant lifecycle_start fun _ hi _ hs => step_lifecycle hi hs

/-! ### Who receives -/

/-- The coroutine has a receive open on the input channel. -/
def Coro.receivesInput : Coro Loc → Bool
  | .waitInput _ .startControl | .waitInput _ .racing => true
  | _ => false

/-- The coroutine has a receive open on the control channel. -/
def Coro.receivesControl : Coro Loc → Bool
  | .waitResume _ .receiving | .waitInput _ .racing => true
  | _ => false

/-- Both channels are open and their receivers are where the coroutine is. -/
structure Receivers (s : State T Loc) : Prop where
  input : s.inputChannel.Listening s.coro.receivesInput
  control : s.controlChannel.Listening s.coro.receivesControl

theorem CoroMoved.receivers {choice : Choice} (hm : CoroMoved B s choice s') (h : Receivers s) :
    Receivers s' := by
  obtain ⟨hi, hk⟩ := h
  cases hm with
  | isStatus hc | setStatus hc | whenCancel hc | asyncSleep hc | external hc | enterResume hc
  | enterInput hc | coReturn hc | throw hc | paused hc | notPaused hc | whenPause hc
  | whenPauseFails hc | whenResume hc | whenResumeFails hc | setRunning hc =>
      rw [hc] at hi hk
      exact ⟨hi, hk⟩
  | startReceive hc hr => rw [hc] at hi; exact ⟨hi, hk.startReceive hr⟩
  | tookResume hc hr | tookPause hc hr | tookCancel hc hr =>
      rw [hc] at hi
      exact ⟨hi, hk.take hr⟩
  | startInput hc hr => rw [hc] at hk; exact ⟨hi.startReceive hr, hk⟩
  | startControl hc hr => rw [hc] at hi; exact ⟨hi, hk.startReceive hr⟩
  | inputWins hc hr => exact ⟨hi.take hr, hk.cancelReceive⟩
  | controlWins hc hr => exact ⟨hi.cancelReceive, hk.take hr⟩

theorem Moved.receivers {a : Action T} (hm : Moved B s a s') (hlife : Lifecycle s)
    (h : Receivers s) : Receivers s' := by
  cases hm with
  | runRefused | runStarts | postThrew | pauseRefused | pauseStarts | cancelDone | cancelRefused
  | cancelStarts | sendFailed | stored | resumeStarts | resumeFailed | inputRefused | polled
  | consumed | setStatus | completed => exact ⟨h.input, h.control⟩
  | posted hl =>
      -- the new coroutine receives as little as the one that did not exist
      obtain ⟨hi, hk⟩ := h
      rw [(hlife.post hl).2] at hi hk
      exact ⟨hi, hk⟩
  | sent hl hc => exact ⟨h.input, h.control.trySend hc⟩
  | resumed hi hc => exact ⟨h.input, h.control.trySend hc⟩
  | inputSent hc => exact ⟨h.input.trySend hc, h.control⟩
  | coro hm => exact hm.receivers h

theorem reachable_receivers {G : Guard (State T Loc) (Action T)}
    (h : (machine B).Reachable G s) : Receivers s := by
  refine h.invariant ⟨Channel.listening_empty, Channel.listening_empty⟩ ?_
  intro s a s' hr hi _ hs
  exact (step_moved hs).receivers (reachable_lifecycle hr) hi

end CppCode.Task
