import Mathlib.Logic.Relation

/-!
# CppCode.Concurrency.Machine

**Interleaving machines.** A concurrent component is a state together with a
partial step function: an *action* names which party moves and what the
environment answers (a clock reading, the result of a system call), and `none`
says that this party cannot move so in this state. Sequential consistency is
built in: one action, one step, any order.

Runs carry a *guard*, a condition on each step taken in the state before it.
`Machine.free` is the guard that allows everything, so `Reachable M free` is
plain reachability; a stronger guard singles out the runs that avoid some
interleaving. Guards only ever restrict, so what holds of every free run holds
of every guarded one (`Steps.free`).
-/

namespace Concurrency

universe u v w x

/-- A state machine with one initial state and a partial, deterministic step
function; all nondeterminism is in the choice of the action. -/
structure Machine (σ : Type u) (α : Type v) where
  init : σ
  step : σ → α → Option σ

/-- A condition on a step: the state before it and the action taken. -/
abbrev Guard (σ : Type u) (α : Type v) := σ → α → Prop

namespace Machine

variable {σ : Type u} {α : Type v}

/-- The guard that allows every step. -/
def free : Guard σ α := fun _ _ => True

instance (s : σ) (a : α) : Decidable ((free : Guard σ α) s a) :=
  inferInstanceAs (Decidable True)

/-- One step that meets the guard. -/
def Step (M : Machine σ α) (G : Guard σ α) (s s' : σ) : Prop :=
  ∃ a, G s a ∧ M.step s a = some s'

/-- Finitely many steps that all meet the guard. -/
def Steps (M : Machine σ α) (G : Guard σ α) : σ → σ → Prop :=
  Relation.ReflTransGen (M.Step G)

/-- The states that guarded runs from the initial state reach. -/
def Reachable (M : Machine σ α) (G : Guard σ α) (s : σ) : Prop :=
  M.Steps G M.init s

/-- Perform a list of actions, one after the other. -/
def exec (M : Machine σ α) : σ → List α → Option σ
  | s, [] => some s
  | s, a :: as =>
    match M.step s a with
    | some s' => exec M s' as
    | none => none

/-- `exec`, refusing the actions that do not meet the guard. -/
def execWithin (M : Machine σ α) (G : Guard σ α) [∀ s a, Decidable (G s a)] :
    σ → List α → Option σ
  | s, [] => some s
  | s, a :: as =>
    if G s a then
      match M.step s a with
      | some s' => execWithin M G s' as
      | none => none
    else none

variable {M : Machine σ α} {G : Guard σ α} {s s' s'' : σ}

namespace Steps

theorem refl (s : σ) : M.Steps G s s := Relation.ReflTransGen.refl

theorem single {a : α} (hG : G s a) (h : M.step s a = some s') : M.Steps G s s' :=
  Relation.ReflTransGen.single ⟨a, hG, h⟩

theorem trans (h₁ : M.Steps G s s') (h₂ : M.Steps G s' s'') : M.Steps G s s'' :=
  Relation.ReflTransGen.trans h₁ h₂

theorem tail {a : α} (h : M.Steps G s s') (hG : G s' a) (hs : M.step s' a = some s'') :
    M.Steps G s s'' :=
  Relation.ReflTransGen.tail h ⟨a, hG, hs⟩

/-- Weakening the guard keeps a run a run. -/
theorem mono {H : Guard σ α} (hGH : ∀ s a, G s a → H s a) (h : M.Steps G s s') :
    M.Steps H s s' := by
  induction h with
  | refl => exact Steps.refl _
  | tail _ hst ih =>
      obtain ⟨a, hG, ha⟩ := hst
      exact ih.tail (hGH _ _ hG) ha

/-- Every guarded run is a free run. -/
theorem free (h : M.Steps G s s') : M.Steps Machine.free s s' :=
  h.mono fun _ _ _ => trivial

/-- **Run rule.** What every guarded step preserves, every guarded run
preserves. -/
theorem invariant {I : σ → Prop} (h : M.Steps G s s') (hs : I s)
    (hstep : ∀ {s a s'}, I s → G s a → M.step s a = some s' → I s') : I s' := by
  induction h with
  | refl => exact hs
  | tail _ hst ih =>
      obtain ⟨a, hG, ha⟩ := hst
      exact hstep ih hG ha

end Steps

namespace Reachable

theorem init : M.Reachable G M.init := Steps.refl _

theorem step {a : α} (h : M.Reachable G s) (hG : G s a) (hs : M.step s a = some s') :
    M.Reachable G s' :=
  Steps.tail h hG hs

theorem free (h : M.Reachable G s) : M.Reachable Machine.free s := Steps.free h

/-- **Invariant rule.** A predicate that holds initially and is preserved by
every guarded step holds in every state guarded runs reach. The state before
the step may be assumed reachable, so invariants can be stacked. -/
theorem invariant {I : σ → Prop} (h : M.Reachable G s) (h₀ : I M.init)
    (hstep : ∀ {s a s'}, M.Reachable G s → I s → G s a → M.step s a = some s' → I s') :
    I s := by
  have key : M.Reachable G s ∧ I s := by
    refine Steps.invariant (I := fun s => M.Reachable G s ∧ I s) h ⟨Reachable.init, h₀⟩ ?_
    intro s a s' hs hG ha
    exact ⟨hs.1.step hG ha, hstep hs.1 hs.2 hG ha⟩
  exact key.2

/-- **Projection rule.** If every step of `M` moves a part of its state as some steps of `N`
move it, then that part runs through states of `N`. -/
theorem project {τ : Type w} {β : Type x} {N : Machine τ β} {H : Guard τ β} (f : σ → τ)
    (h : M.Reachable G s) (h₀ : f M.init = N.init)
    (hstep : ∀ {s a s'}, G s a → M.step s a = some s' → N.Steps H (f s) (f s')) :
    N.Reachable H (f s) := by
  refine h.invariant (I := fun s => N.Reachable H (f s)) (h₀ ▸ Reachable.init) ?_
  intro s a s' _ hf hG hs
  exact Steps.trans hf (hstep hG hs)

/-- **Simulation rule.** If every step of `M` can be followed by steps of `N` so that the states
stay related, then every state of `M` is related to one of `N`. -/
theorem simulate {τ : Type w} {β : Type x} {N : Machine τ β} {H : Guard τ β} {R : σ → τ → Prop}
    (h : M.Reachable G s) (h₀ : R M.init N.init)
    (hstep : ∀ {s a s' t}, R s t → G s a → M.step s a = some s' →
      ∃ t', N.Steps H t t' ∧ R s' t') : ∃ t, N.Reachable H t ∧ R s t := by
  refine h.invariant (I := fun s => ∃ t, N.Reachable H t ∧ R s t) ⟨_, Reachable.init, h₀⟩ ?_
  rintro s a s' - ⟨t, ht, hr⟩ hG hs
  obtain ⟨t', hsteps, hr'⟩ := hstep hr hG hs
  exact ⟨t', Steps.trans ht hsteps, hr'⟩

end Reachable

/-! ### Executing runs -/

theorem exec_cons {a : α} {as : List α} (h : M.step s a = some s') :
    M.exec s (a :: as) = M.exec s' as := by
  simp only [exec, h]

/-- Inverting a non-empty execution: its first action was enabled. -/
theorem exec_cons_some {a : α} {as : List α} (h : M.exec s (a :: as) = some s'') :
    ∃ s', M.step s a = some s' ∧ M.exec s' as = some s'' := by
  cases hs : M.step s a with
  | none => simp [exec, hs] at h
  | some s' => exact ⟨s', rfl, by simpa [exec, hs] using h⟩

/-- An execution whose every action met the guard is a guarded run. -/
theorem steps_of_execWithin [∀ s a, Decidable (G s a)] {l : List α}
    (h : M.execWithin G s l = some s') : M.Steps G s s' := by
  induction l generalizing s with
  | nil =>
      obtain rfl : s = s' := by simpa [execWithin] using h
      exact Steps.refl _
  | cons a l ih =>
      by_cases hG : G s a
      · cases hs : M.step s a with
        | none => simp [execWithin, hG, hs] at h
        | some t =>
            simp only [execWithin, hG, hs, if_true] at h
            exact (Steps.single hG hs).trans (ih h)
      · simp [execWithin, hG] at h

/-- Every execution is a free run. -/
theorem steps_of_exec {l : List α} (h : M.exec s l = some s') :
    M.Steps Machine.free s s' := by
  induction l generalizing s with
  | nil =>
      obtain rfl : s = s' := by simpa [exec] using h
      exact Steps.refl _
  | cons a l ih =>
      obtain ⟨t, hst, ht⟩ := exec_cons_some h
      exact (Steps.single trivial hst).trans (ih ht)

/-- A guarded execution exhibits a run to a state with any decidable property its
last state has. -/
theorem exists_steps_of_execWithin [∀ s a, Decidable (G s a)] {l : List α} {p : σ → Bool}
    (h : (M.execWithin G s l).any p = true) : ∃ t, M.Steps G s t ∧ p t = true := by
  obtain ⟨t, ht, hp⟩ := (Option.any_eq_true _ _).mp h
  exact ⟨t, steps_of_execWithin ht, hp⟩

/-- `exists_steps_of_execWithin` for free runs. -/
theorem exists_steps_of_exec {l : List α} {p : σ → Bool}
    (h : (M.exec s l).any p = true) : ∃ t, M.Steps Machine.free s t ∧ p t = true := by
  obtain ⟨t, ht, hp⟩ := (Option.any_eq_true _ _).mp h
  exact ⟨t, steps_of_exec ht, hp⟩

theorem reachable_of_execWithin [∀ s a, Decidable (G s a)] {l : List α} {p : σ → Bool}
    (h : (M.execWithin G M.init l).any p = true) : ∃ s, M.Reachable G s ∧ p s = true :=
  exists_steps_of_execWithin h

theorem reachable_of_exec {l : List α} {p : σ → Bool}
    (h : (M.exec M.init l).any p = true) : ∃ s, M.Reachable Machine.free s ∧ p s = true :=
  exists_steps_of_exec h

end Machine

end Concurrency
