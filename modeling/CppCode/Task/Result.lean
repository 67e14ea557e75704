import CppCode.Task.Cancel
import CppCode.Task.Input

/-!
# CppCode.Task.Result

**What the result of an `OtaTask` says.** `run_coroutine()` leaves its loop on the first value
that is not a stage of the update, or on a status that only a `cancel()` can have stored. So
every result names the reason for which the coroutine returned, whatever commands were sent
and wherever it received them.
-/

namespace CppCode.Task

open Concurrency

variable {s s' : State OtaState OtaLoc}

/-- The stages of an update, on which the coroutine goes on. -/
def OtaState.working : OtaState → Bool
  | .downloading | .verifying | .updating => true
  | .idle | .completed | .failed | .undeclared _ => false

/-- What the delivered values have to be for a result. -/
def Justified (inputs : List OtaState) : TaskResult → Prop
  | .success => ∃ earlier last, inputs = earlier ++ [last] ∧
      (last = .idle ∨ last = .completed) ∧ ∀ value ∈ earlier, value.working = true
  | .failure => ∃ earlier last, inputs = earlier ++ [last] ∧
      (last = .failed ∨ ∃ n, last = .undeclared n) ∧ ∀ value ∈ earlier, value.working = true
  | .cancelled => ∀ value ∈ inputs, value.working = true

/-! ### The delivered values -/

/-- What has been delivered, by the position of the coroutine. -/
def Coro.delivered (inputs : List OtaState) : Coro OtaLoc → Prop
  | .body (.finish result) => Justified inputs result
  | .finished (some result) => Justified inputs result
  | .finished none => False
  | _ => ∀ value ∈ inputs, value.working = true

/-- The `switch` over the next value. -/
theorem delivered_afterInput {inputs : List OtaState}
    (h : ∀ value ∈ inputs, value.working = true) (value : OtaState) :
    Coro.delivered (inputs ++ [value]) (.body (.afterInput value)) := by
  have hgoesOn : value.working = true → ∀ v ∈ inputs ++ [value], v.working = true := by
    intro hworking v hv
    rcases List.mem_append.mp hv with hv | hv
    · exact h v hv
    · obtain rfl := List.mem_singleton.mp hv
      exact hworking
  cases value with
  | downloading | verifying | updating => exact hgoesOn rfl
  | idle => exact ⟨inputs, .idle, rfl, .inl rfl, h⟩
  | completed => exact ⟨inputs, .completed, rfl, .inr rfl, h⟩
  | failed => exact ⟨inputs, .failed, rfl, .inl rfl, h⟩
  | undeclared n => exact ⟨inputs, .undeclared n, rfl, .inr ⟨n, rfl⟩, h⟩

theorem returnedInputs_log_input (s : State OtaState OtaLoc) (value : OtaState) :
    (s.log (.input value)).returnedInputs = s.returnedInputs ++ [value] :=
  State.filterMap_log s _ _

theorem CoroMoved.delivered {choice : Choice} (hm : CoroMoved otaTask s choice s')
    (hp : Pending s) (h : s.coro.delivered s.returnedInputs) :
    s'.coro.delivered s'.returnedInputs := by
  cases hm with
  | isStatus hc ho hl =>
      rename_i l status
      cases l <;> cases ho
      rw [hc] at h
      show Coro.delivered _ (.body (if (s.currentStatus == .cancelled) = true then _ else _))
      split <;> exact h
  | whenCancel hc ho hm =>
      rename_i l b
      cases l <;> cases ho
      cases hm
      rw [hc] at h
      exact h
  | asyncSleep hc ho | throw hc ho =>
      rename_i l
      cases l <;> cases ho
  | external hc ho =>
      rename_i l n
      cases l <;> cases ho
  | enterResume hc ho | enterInput hc ho =>
      rename_i l
      cases l <;> cases ho
      rw [hc] at h
      exact h
  | coReturn hc ho =>
      rename_i l result
      cases l <;> cases ho
      rw [hc] at h
      exact h
  | setStatus hc ho => exact absurd ho (otaTask_never_sets_status _ _)
  | paused hc | whenPause hc | startReceive hc | tookResume hc | tookPause hc | whenResume hc
  | startInput hc | startControl hc =>
      rw [hc] at h
      exact h
  | notPaused hc | whenPauseFails hc | tookCancel hc | whenResumeFails hc  =>
      obtain rfl := hp.waitResume_eq hc
      rw [hc] at h
      exact h
  | setRunning hc =>
      obtain rfl := hp.waitResume_eq hc
      rw [hc] at h
      show Coro.delivered _
        (.body (if (Task.setStatus s.currentStatus .running).1 = true then _ else _))
      split <;> exact h
  | inputWins hc =>
      obtain rfl := hp.waitInput_eq hc
      rw [hc] at h
      rw [returnedInputs_log_input]
      exact delivered_afterInput h _
  | controlWins hc =>
      obtain rfl := hp.waitInput_eq hc
      rw [hc] at h
      exact h

/-- Only the coroutine returns values to itself. -/
theorem Moved.returnedInputs {a : Action OtaState} (hm : Moved otaTask s a s')
    (ha : ∀ choice, a ≠ .coro choice) : s'.returnedInputs = s.returnedInputs := by
  have hlog : ∀ (t : State OtaState OtaLoc) (e : Event OtaState), e.input? = none →
      (t.log e).returnedInputs = t.returnedInputs := by
    intro t e he
    rw [State.returnedInputs, State.filterMap_log, he]
    exact List.append_nil _
  cases hm with
  | runStarts | pauseStarts | cancelStarts | sent | resumeStarts | setStatus | completed => rfl
  | runRefused | posted | postThrew | pauseRefused | cancelDone | cancelRefused | resumed
  | resumeFailed | inputSent | inputRefused | polled => exact hlog _ _ rfl
  | sendFailed hl hc =>
      rename_i r
      exact hlog _ _ (by cases r <;> rfl)
  | stored hl =>
      rename_i r
      exact hlog _ _ (by cases r <;> rfl)
  | consumed => exact (hlog _ _ rfl).trans (hlog _ _ rfl)
  | coro => exact absurd rfl (ha _)

theorem Moved.delivered {a : Action OtaState} (hm : Moved otaTask s a s') (hlife : Lifecycle s)
    (hp : Pending s) (h : s.coro.delivered s.returnedInputs) :
    s'.coro.delivered s'.returnedInputs := by
  by_cases ha : ∃ choice, a = .coro choice
  · obtain ⟨choice, rfl⟩ := ha
    cases hm with
    | coro hm => exact hm.delivered hp h
  · have ha' : ∀ choice, a ≠ .coro choice := fun choice he => ha ⟨choice, he⟩
    rw [hm.returnedInputs ha']
    cases hm with
    | posted hl =>
        -- the coroutine that `run()` spawns has received nothing yet
        rw [(hlife.post hl).2] at h
        exact h
    | coro => exact absurd rfl (ha' _)
    | _ => exact h

theorem reachable_delivered (h : (machine otaTask).Reachable NoSetStatus s) :
    s.coro.delivered s.returnedInputs := by
  refine h.invariant (I := fun s => s.coro.delivered s.returnedInputs) nofun ?_
  intro s a s' hr hi hg hs
  exact (step_moved hs).delivered (reachable_lifecycle hr) (reachable_pending hr) hi

/-! ### The cancellation -/

/-- The coroutine has seen the status `CANCELLED`, and leaves because of it. -/
def Coro.leavesCancelled : Coro OtaLoc → Bool
  | .body .whenCancel | .body (.finish .cancelled) | .finished (some .cancelled) => true
  | _ => false

/-- Earlier in the run, a `cancel()` has stored `CANCELLED`. -/
def CancelStored (s : State OtaState OtaLoc) : Prop :=
  ∃ u v, (machine otaTask).Reachable NoSetStatus u ∧ u.lock = some (.store .cancel) ∧
    (machine otaTask).step u .store = some v ∧ v.currentStatus = .cancelled ∧
    (machine otaTask).Steps NoSetStatus v s

/-- Whoever sees, or has seen, `CANCELLED` owes it to a `cancel()`. -/
structure CancelSeen (s : State OtaState OtaLoc) : Prop where
  status : s.currentStatus = .cancelled → s.coro.active = true → CancelStored s
  leaves : s.coro.leavesCancelled = true → CancelStored s

theorem CancelStored.step {a : Action OtaState} (h : CancelStored s) (hg : NoSetStatus s a)
    (hs : (machine otaTask).step s a = some s') : CancelStored s' := by
  obtain ⟨u, v, hu, hlock, hstore, hcancelled, hsteps⟩ := h
  exact ⟨u, v, hu, hlock, hstore, hcancelled, hsteps.tail hg hs⟩

theorem CancelSeen.of_stored (h : CancelStored s) : CancelSeen s :=
  ⟨fun _ _ => h, fun _ => h⟩

/-- A coroutine that has not seen `CANCELLED` begins to leave only on reading it. -/
theorem CoroMoved.leavesCancelled {choice : Choice} (hm : CoroMoved otaTask s choice s')
    (hp : Pending s) (h : s'.coro.leavesCancelled = true) :
    s.coro.leavesCancelled = true ∨ s.currentStatus = .cancelled := by
  cases hm with
  | isStatus hc ho hl =>
      rename_i l status
      cases l <;> cases ho
      by_cases hs : s.currentStatus = .cancelled
      · exact .inr hs
      · have hnext : (answer otaTask s .loopHead (.bool (s.currentStatus == .cancelled))).coro =
            .body .waitResume := by simp [answer, otaTask, OtaLoc.next, hs]
        rw [hnext] at h
        cases h
  | whenCancel hc ho hm =>
      rename_i l b
      cases l <;> cases ho
      exact .inl (by rw [hc]; rfl)
  | coReturn hc ho =>
      rename_i l result
      cases l <;> cases ho
      refine .inl ?_
      rw [hc]
      cases result <;> exact h
  | setStatus hc ho => exact absurd ho (otaTask_never_sets_status _ _)
  | asyncSleep hc ho | throw hc ho =>
      rename_i l
      cases l <;> cases ho
  | external hc ho =>
      rename_i l n
      cases l <;> cases ho
  | enterResume | enterInput | paused | whenPause | startReceive | tookResume | tookPause
  | whenResume | startInput | startControl => cases h
  | notPaused hc | whenPauseFails hc | tookCancel hc | whenResumeFails hc =>
      obtain rfl := hp.waitResume_eq hc
      cases h
  | setRunning hc =>
      obtain rfl := hp.waitResume_eq hc
      revert h
      show Coro.leavesCancelled (.body (if (Task.setStatus s.currentStatus .running).1 = true
        then _ else _)) = true → _
      split <;> intro hl <;> cases hl
  | inputWins hc =>
      rename_i l value c hr
      obtain rfl := hp.waitInput_eq hc
      cases value <;> cases h
  | controlWins hc =>
      obtain rfl := hp.waitInput_eq hc
      cases h

theorem Moved.cancelSeen {a : Action OtaState} (hm : Moved otaTask s a s') (hg : NoSetStatus s a)
    (hr : (machine otaTask).Reachable NoSetStatus s) (hs : (machine otaTask).step s a = some s')
    (h : CancelSeen s) : CancelSeen s' := by
  by_cases hstored : CancelStored s
  · exact .of_stored (hstored.step hg hs)
  have hstatus : s.coro.active = true → s.currentStatus ≠ .cancelled :=
    fun ha hc => hstored (h.status hc ha)
  have hleaves : s.coro.leavesCancelled ≠ true := fun hl => hstored (h.leaves hl)
  have hlife := reachable_lifecycle hr
  cases hm with
  | setStatus status => exact absurd rfl (hg status)
  | runStarts => exact ⟨nofun, fun hl => absurd hl hleaves⟩
  | posted hl =>
      refine ⟨fun hc => ?_, nofun⟩
      exact absurd ((hlife.post hl).1.symm.trans hc) nofun
  | stored hl =>
      rename_i r
      cases r with
      | pause => exact ⟨nofun, fun hl => absurd hl hleaves⟩
      | cancel => exact .of_stored ⟨s, _, hr, hl, hs, rfl, .refl _⟩
  | consumed hl hn hready =>
      refine ⟨fun _ ha => ?_, fun hl => absurd hl hleaves⟩
      rw [show s.coro = _ from hlife.ready _ hready] at ha
      cases ha
  | coro hm =>
      have hactive := hm.frame.active
      refine ⟨fun hc _ => ?_, fun hl => ?_⟩
      · rcases hm.status_running otaTask_never_sets_status with hsame | hset
        · exact absurd (hsame ▸ hc) (hstatus hactive)
        · refine absurd ?_ (hstatus hactive)
          rw [hset] at hc
          revert hc
          cases s.currentStatus <;> decide
      · rcases hm.leavesCancelled (reachable_pending hr) hl with hl | hc
        · exact absurd hl hleaves
        · exact absurd hc (hstatus hactive)
  | _ => exact ⟨fun hc ha => absurd hc (hstatus ha), fun hl => absurd hl hleaves⟩

theorem reachable_cancelSeen (h : (machine otaTask).Reachable NoSetStatus s) : CancelSeen s := by
  refine h.invariant (I := CancelSeen) ⟨nofun, nofun⟩ ?_
  intro s a s' hr hi hg hs
  exact (step_moved hs).cancelSeen hg hr hs hi

/-- **The result of an `OtaTask` is justified by what it received.** On `SUCCESS` the last
delivered value is `IDLE` or `COMPLETED`, on `FAILURE` it is `FAILED` or undeclared, and the
values before it are stages of the update; on `CANCELLED` all of them are, and a `cancel()`
has stored `CANCELLED` earlier in the run. -/
theorem otaTask_result_justified {s : State OtaState OtaLoc} {result : TaskResult}
    (h : (machine otaTask).Reachable NoSetStatus s) (hc : s.coro = .finished (some result)) :
    Justified s.returnedInputs result ∧ (result = .cancelled → CancelStored s) := by
  have hdelivered := reachable_delivered h
  rw [hc] at hdelivered
  refine ⟨hdelivered, ?_⟩
  rintro rfl
  exact (reachable_cancelSeen h).leaves (by rw [hc]; rfl)

/-- An update that goes through one stage, is cancelled and returns `CANCELLED`. -/
theorem otaTask_result_cancelled :
    ∃ s, (machine otaTask).Reachable NoSetStatus s ∧ s.coro = .finished (some .cancelled) ∧
      s.returnedInputs = [.downloading] ∧ Justified s.returnedInputs .cancelled ∧
      CancelStored s := by
  obtain ⟨s, hs, hp⟩ := Machine.reachable_of_execWithin (M := machine otaTask) (G := NoSetStatus)
    (l := launch ++ toRace ++ [Action.sendInputParameters .downloading, .coro .inputWins,
      .cancel, .send, .store, .coro .go, .coro (.hook true), .coro .go])
    (p := fun s => decide (s.coro = .finished (some .cancelled)) &&
      decide (s.returnedInputs = [.downloading])) (by decide)
  simp only [Bool.and_eq_true, decide_eq_true_eq] at hp
  obtain ⟨hfinished, hinputs⟩ := hp
  obtain ⟨hjustified, hstored⟩ := otaTask_result_justified hs hfinished
  exact ⟨s, hs, hfinished, hinputs, hjustified, hstored rfl⟩

end CppCode.Task
