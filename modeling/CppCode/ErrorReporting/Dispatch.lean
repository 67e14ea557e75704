import Mathlib.Data.List.Induction
import Mathlib.Data.List.TakeWhile
import Mathlib.Logic.Function.Basic

/-!
# CppCode.ErrorReporting.Dispatch

The self-registering error handler of `005.error_reporting.cpp`. A module
constructs a `ModuleRegistrar`, which writes its sub-handlers to two routing
tables and makes sure that the `DispatchHandler` is installed as the global error
handler; the `DispatchHandler` then routes each report by its module id.

An exception of a sub-handler, or of an empty `std::function`, is passed on to the
reporter. The global state (`Process`) is the active handler, the one-shot static of
`ensureInstalled` and the two tables; the calls of a history change it. The global
handler itself belongs to iceoryx: `set` makes its argument the active handler and
`reset` the default one.

After any history the first table follows the latest registration of a module, the
second one the latest registration *that supplied* a violation handler
(`errorTable_after`, `violationTable_after`).
-/

namespace CppCode.ErrorReporting

universe u v w

/-! ## Sub-handlers and reports -/

/-- `iox::er::SourceLocation`, as far as the handlers read it. -/
structure SourceLocation where
  file : String
  line : Int
deriving Repr, DecidableEq

/-- `iox::er::ErrorDescriptor`; a sub-handler gets it whole. -/
structure ErrorDescriptor where
  location : SourceLocation
  code : UInt32
  moduleId : UInt32
deriving Repr, DecidableEq

/-- `std::function<void(ErrorDescriptor)>`: empty, or some callable. -/
abbrev SubHandler (H : Type u) := Option H

/-- What leaves a report as an exception. -/
inductive Thrown (E : Type v) where
  /-- An empty `std::function` was called. -/
  | badFunctionCall
  /-- The sub-handler threw. -/
  | handler (e : E)
deriving Repr, DecidableEq

/-- What a report does, in order. -/
inductive Effect (H : Type u) where
  | call (handler : SubHandler H) (desc : ErrorDescriptor)
  | cerr (text : String)
deriving Repr, DecidableEq

/-- `std::unordered_map<uint32_t, SubHandler>`. -/
abbrev Table (H : Type u) := UInt32 → Option (SubHandler H)

section Reports

variable {H : Type u} {E : Type v}

/-- The handlers called, with what they were given. -/
def Effect.calls (effects : List (Effect H)) : List (SubHandler H × ErrorDescriptor) :=
  effects.filterMap fun
    | .call handler desc => some (handler, desc)
    | .cerr _ => none

/-- `operator()` of the function object; `body` is what the callables do. -/
def SubHandler.invoke (body : H → ErrorDescriptor → Except E Unit) (handler : SubHandler H)
    (desc : ErrorDescriptor) : Except (Thrown E) Unit :=
  match handler with
  | none => .error .badFunctionCall
  | some callable => (body callable desc).mapError .handler

/-- `DispatchHandler::dispatch`. -/
def dispatch (body : H → ErrorDescriptor → Except E Unit) (table : Table H)
    (desc : ErrorDescriptor) (tag : String) : List (Effect H) × Except (Thrown E) Bool :=
  match table desc.moduleId with
  | none =>
    ([.cerr ("[DispatchHandler::" ++ tag ++ "] no handler for module=" ++
        toString desc.moduleId ++ "\n")], .ok false)
  | some handler => ([.call handler desc], (handler.invoke body desc).map fun _ => true)

/-- `DispatchHandler::onReportError`. -/
def onReportError (body : H → ErrorDescriptor → Except E Unit) (errorTable : Table H)
    (desc : ErrorDescriptor) : List (Effect H) × Except (Thrown E) Unit :=
  let (effects, result) := dispatch body errorTable desc "onReportError"
  (effects, result.map fun _ => ())

/-- `DispatchHandler::onReportViolation`: the violation table first, the error
table when it has no entry. -/
def onReportViolation (body : H → ErrorDescriptor → Except E Unit)
    (errorTable violationTable : Table H) (desc : ErrorDescriptor) :
    List (Effect H) × Except (Thrown E) Unit :=
  match dispatch body violationTable desc "onReportViolation" with
  | (effects, .ok false) =>
    let (fallback, result) := dispatch body errorTable desc "onReportViolation(fallback)"
    (effects ++ fallback, result.map fun _ => ())
  | (effects, result) => (effects, result.map fun _ => ())

/-- A dispatch calls the module's entry of the table and nothing else. -/
theorem calls_dispatch (body : H → ErrorDescriptor → Except E Unit) (table : Table H)
    (desc : ErrorDescriptor) (tag : String) :
    Effect.calls (dispatch body table desc tag).1 =
      (table desc.moduleId).toList.map (·, desc) := by
  unfold dispatch
  cases table desc.moduleId with
  | none => rfl
  | some handler => rfl

/-- It answers `false` for a module without an entry, and only then. -/
theorem dispatch_eq_false_iff (body : H → ErrorDescriptor → Except E Unit) (table : Table H)
    (desc : ErrorDescriptor) (tag : String) :
    (dispatch body table desc tag).2 = .ok false ↔ table desc.moduleId = none := by
  unfold dispatch
  cases table desc.moduleId with
  | none => simp
  | some handler =>
    -- A call that returns answers `true`; one that throws answers nothing.
    cases hcall : handler.invoke body desc with
    | error e => simp [hcall, Except.map]
    | ok _ => simp [hcall, Except.map]

theorem calls_onReportError (body : H → ErrorDescriptor → Except E Unit) (errorTable : Table H)
    (desc : ErrorDescriptor) :
    Effect.calls (onReportError body errorTable desc).1 =
      (errorTable desc.moduleId).toList.map (·, desc) :=
  calls_dispatch body errorTable desc "onReportError"

/-- The handler called for a violation: the entry of the violation table, or else
that of the error table. -/
theorem calls_onReportViolation (body : H → ErrorDescriptor → Except E Unit)
    (errorTable violationTable : Table H) (desc : ErrorDescriptor) :
    Effect.calls (onReportViolation body errorTable violationTable desc).1 =
      ((violationTable desc.moduleId).or (errorTable desc.moduleId)).toList.map (·, desc) := by
  have hfirst := calls_dispatch body violationTable desc "onReportViolation"
  have hsecond := calls_dispatch body errorTable desc "onReportViolation(fallback)"
  have hfalse := dispatch_eq_false_iff body violationTable desc "onReportViolation"
  unfold onReportViolation
  split
  next effects heq =>
    -- No entry: the first dispatch has called nothing.
    rw [heq] at hfirst hfalse
    have hnone : violationTable desc.moduleId = none := hfalse.1 rfl
    rw [hnone] at hfirst ⊢
    simp only [Effect.calls, List.filterMap_append] at hfirst hsecond ⊢
    rw [hfirst, hsecond]
    rfl
  next effects result hresult heq =>
    rw [heq] at hfirst hfalse
    obtain ⟨handler, hsome⟩ : ∃ handler, violationTable desc.moduleId = some handler := by
      refine Option.ne_none_iff_exists'.1 fun hnone => ?_
      exact hresult (hfalse.2 hnone)
    rw [hsome] at hfirst ⊢
    exact hfirst

end Reports

/-! ## Registrations and the global handler -/

/-- The arguments of a `ModuleRegistrar` construction; `onViolation` may be left
out, which passes an empty function object. -/
structure ModuleRegistrar (H : Type u) where
  id : UInt32
  onError : SubHandler H
  onViolation : SubHandler H := none
deriving Repr, DecidableEq

/-- The handlers `ErrorHandler` can have active. -/
inductive Handler (A : Type w) where
  | default
  | dispatch
  | other (a : A)
deriving Repr, DecidableEq

/-- The static state of the process: iceoryx' active handler, the static of
`ensureInstalled` and the two function-local tables. -/
structure Process (H : Type u) (A : Type w) where
  active : Handler A
  installed : Bool
  errorTable : Table H
  violationTable : Table H

/-- The calls that change it. -/
inductive Call (H : Type u) (A : Type w) where
  | set (handler : Handler A)
  | reset
  | moduleRegistrar (r : ModuleRegistrar H)
  | ensureInstalled
deriving Repr, DecidableEq

section Calls

variable {H : Type u} {A : Type w}

/-- The process before any static initialiser has run. -/
def Process.init : Process H A :=
  { active := .default, installed := false,
    errorTable := fun _ => none, violationTable := fun _ => none }

/-- `DispatchHandler::ensureInstalled`: the initialiser of the static runs on the
first call only. -/
def Process.ensureInstalled (p : Process H A) : Process H A :=
  if p.installed then p else { p with active := .dispatch, installed := true }

/-- The constructor of `ModuleRegistrar`. -/
def Process.moduleRegistrar (p : Process H A) (r : ModuleRegistrar H) : Process H A :=
  let p := { p with errorTable := Function.update p.errorTable r.id (some r.onError) }
  let p :=
    if r.onViolation.isSome then
      { p with violationTable := Function.update p.violationTable r.id (some r.onViolation) }
    else p
  p.ensureInstalled

def Process.call (p : Process H A) : Call H A → Process H A
  | .set handler => { p with active := handler }
  | .reset => { p with active := .default }
  | .moduleRegistrar r => p.moduleRegistrar r
  | .ensureInstalled => p.ensureInstalled

/-- The process after a history of calls. -/
def after (calls : List (Call H A)) : Process H A :=
  calls.foldl Process.call Process.init

/-- The registrations of a history. -/
def registrars (calls : List (Call H A)) : List (ModuleRegistrar H) :=
  calls.filterMap fun
    | .moduleRegistrar r => some r
    | _ => none

@[simp] theorem after_append_singleton (calls : List (Call H A)) (c : Call H A) :
    after (calls ++ [c]) = (after calls).call c := by
  simp [after, List.foldl_append]

theorem registrars_append_moduleRegistrar (calls : List (Call H A)) (r : ModuleRegistrar H) :
    registrars (calls ++ [.moduleRegistrar r]) = registrars calls ++ [r] := by
  simp [registrars]

@[simp] theorem ensureInstalled_errorTable (p : Process H A) :
    p.ensureInstalled.errorTable = p.errorTable := by
  unfold Process.ensureInstalled
  split <;> rfl

@[simp] theorem ensureInstalled_violationTable (p : Process H A) :
    p.ensureInstalled.violationTable = p.violationTable := by
  unfold Process.ensureInstalled
  split <;> rfl

@[simp] theorem moduleRegistrar_errorTable (p : Process H A) (r : ModuleRegistrar H) :
    (p.moduleRegistrar r).errorTable =
      Function.update p.errorTable r.id (some r.onError) := by
  simp only [Process.moduleRegistrar, ensureInstalled_errorTable]
  split <;> rfl

/-- Only a registration with a violation handler touches the violation table. -/
@[simp] theorem moduleRegistrar_violationTable (p : Process H A) (r : ModuleRegistrar H) :
    (p.moduleRegistrar r).violationTable =
      if r.onViolation.isSome then
        Function.update p.violationTable r.id (some r.onViolation)
      else p.violationTable := by
  simp only [Process.moduleRegistrar, ensureInstalled_violationTable]
  split <;> rfl

/-! ## Routing follows the tables -/

/-- The most recent registration of a module. -/
def latest (rs : List (ModuleRegistrar H)) (m : UInt32) : Option (ModuleRegistrar H) :=
  (rs.filter (·.id == m)).getLast?

/-- The most recent violation handler supplied for a module. -/
def latestViolation (rs : List (ModuleRegistrar H)) (m : UInt32) : Option H :=
  ((rs.filter (·.id == m)).filterMap (·.onViolation)).getLast?

theorem latest_append_singleton (rs : List (ModuleRegistrar H)) (r : ModuleRegistrar H)
    (m : UInt32) :
    latest (rs ++ [r]) m = if r.id = m then some r else latest rs m := by
  unfold latest
  by_cases hid : r.id = m
  · simp [List.filter_append, hid]
  · simp [List.filter_append, hid]

theorem latestViolation_append_singleton (rs : List (ModuleRegistrar H)) (r : ModuleRegistrar H)
    (m : UInt32) :
    latestViolation (rs ++ [r]) m =
      if r.id = m then r.onViolation.or (latestViolation rs m) else latestViolation rs m := by
  unfold latestViolation
  by_cases hid : r.id = m
  · cases hviolation : r.onViolation with
    | none => simp [List.filter_append, List.filterMap_append, hid, hviolation]
    | some h => simp [List.filter_append, List.filterMap_append, hid, hviolation]
  · simp [List.filter_append, hid]

/-- **Table rule.** What every registration preserves of the registrations so far and
the two tables holds after every history: the other calls leave the tables alone. -/
theorem tables_after_induction {P : List (ModuleRegistrar H) → Table H → Table H → Prop}
    (hinit : P [] (fun _ => none) (fun _ => none))
    (hregister : ∀ rs errors violations r, P rs errors violations →
      P (rs ++ [r]) (Function.update errors r.id (some r.onError))
        (if r.onViolation.isSome then Function.update violations r.id (some r.onViolation)
          else violations))
    (calls : List (Call H A)) :
    P (registrars calls) (after calls).errorTable (after calls).violationTable := by
  induction calls using List.reverseRecOn with
  | nil => exact hinit
  | append_singleton calls c ih =>
    rw [after_append_singleton]
    cases c with
    | set handler => simpa [registrars, Process.call] using ih
    | reset => simpa [registrars, Process.call] using ih
    | ensureInstalled => simpa [registrars, Process.call] using ih
    | moduleRegistrar r =>
      rw [registrars_append_moduleRegistrar, Process.call, moduleRegistrar_errorTable,
        moduleRegistrar_violationTable]
      exact hregister _ _ _ r ih

/-- The error table holds the handler of the latest registration. -/
theorem errorTable_after (calls : List (Call H A)) (m : UInt32) :
    (after calls).errorTable m = (latest (registrars calls) m).map (·.onError) := by
  refine tables_after_induction
    (P := fun rs errors _ => errors m = (latest rs m).map (·.onError)) rfl ?_ calls
  intro rs errors violations r ih
  rw [latest_append_singleton]
  by_cases hid : r.id = m
  · subst hid
    simp
  · rw [Function.update_of_ne (Ne.symm hid), if_neg hid]
    exact ih

/-- The violation table holds the latest handler supplied, which need not come
from the latest registration. -/
theorem violationTable_after (calls : List (Call H A)) (m : UInt32) :
    (after calls).violationTable m = (latestViolation (registrars calls) m).map some := by
  refine tables_after_induction
    (P := fun rs _ violations => violations m = (latestViolation rs m).map some) rfl ?_ calls
  intro rs errors violations r ih
  rw [latestViolation_append_singleton]
  cases hviolation : r.onViolation with
  | none => simpa using ih
  | some h =>
    by_cases hid : r.id = m
    · subst hid
      simp
    · simpa [hid, Function.update_of_ne (Ne.symm hid)] using ih

/-- The latest registration supplied a handler: it is the latest one supplied. -/
theorem latestViolation_of_latest {rs : List (ModuleRegistrar H)} {m : UInt32}
    {r : ModuleRegistrar H} {h : H} (hlatest : latest rs m = some r)
    (hviolation : r.onViolation = some h) : latestViolation rs m = some h := by
  obtain ⟨earlier, hsplit⟩ := List.getLast?_eq_some_iff.1 hlatest
  unfold latestViolation
  rw [hsplit, List.filterMap_append]
  simp [hviolation]

theorem latestViolation_of_latest_eq_none {rs : List (ModuleRegistrar H)} {m : UInt32}
    (hlatest : latest rs m = none) : latestViolation rs m = none := by
  unfold latestViolation
  rw [List.getLast?_eq_none_iff.1 hlatest]
  rfl

/-- What a report of the module is to do after a history: the handlers of the
module's latest registration are called and no others, `onError` standing in for
an `onViolation` that was left out; without a registration nothing is called. -/
def RoutesByLatest {E : Type v} (body : H → ErrorDescriptor → Except E Unit)
    (calls : List (Call H A)) (desc : ErrorDescriptor) : Prop :=
  let p := after calls
  let registration := (latest (registrars calls) desc.moduleId).toList
  Effect.calls (onReportError body p.errorTable desc).1 =
      registration.map (fun r => (r.onError, desc)) ∧
    Effect.calls (onReportViolation body p.errorTable p.violationTable desc).1 =
      registration.map (fun r =>
        (if r.onViolation.isSome then r.onViolation else r.onError, desc))

instance {E : Type v} [DecidableEq H] (body : H → ErrorDescriptor → Except E Unit)
    (calls : List (Call H A)) (desc : ErrorDescriptor) :
    Decidable (RoutesByLatest body calls desc) :=
  inferInstanceAs (Decidable (_ ∧ _))

/-- No violation handler of an earlier registration is left over: when the latest
registration of the module supplied none, no earlier one did (or it supplied the
very function that is now the module's `onError`). -/
def NoStaleViolation (rs : List (ModuleRegistrar H)) (m : UInt32) : Prop :=
  ∀ r, latest rs m = some r → r.onViolation = none →
    ∀ h, latestViolation rs m = some h → r.onError = some h

/-- Reports are routed by the latest registration exactly when no stale violation
handler is left: errors always are, violations only then. -/
theorem routesByLatest_iff {E : Type v} (body : H → ErrorDescriptor → Except E Unit)
    (calls : List (Call H A)) (desc : ErrorDescriptor) :
    RoutesByLatest body calls desc ↔ NoStaleViolation (registrars calls) desc.moduleId := by
  simp only [RoutesByLatest, NoStaleViolation, calls_onReportError, calls_onReportViolation,
    errorTable_after, violationTable_after]
  cases hlatest : latest (registrars calls) desc.moduleId with
  | none => simp [latestViolation_of_latest_eq_none hlatest]
  | some r =>
    cases hviolation : r.onViolation with
    | some h => simp [latestViolation_of_latest hlatest hviolation, hviolation]
    | none =>
      -- Here the violation table may still have an entry.
      cases hstale : latestViolation (registrars calls) desc.moduleId with
      | none => simp [hviolation]
      | some h =>
        have hcalled : (some h, desc) = (r.onError, desc) ↔ r.onError = some h := by
          rw [Prod.mk.injEq, eq_comm]
          exact and_iff_left rfl
        simpa [hviolation] using hcalled

/-- A module registers with a violation handler and then again without one: a
violation still goes to the first registration's handler, not to the second's
`onError`. -/
theorem stale_violation_handler :
    ¬ RoutesByLatest (fun _ _ => (.ok () : Except Empty Unit))
      ([Call.moduleRegistrar ⟨0x200, some "error1", some "violation1"⟩,
        Call.moduleRegistrar ⟨0x200, some "error2", none⟩] : List (Call String Empty))
      ⟨⟨"net.cpp", 7⟩, 3, 0x200⟩ := by
  decide

/-! ## The active handler -/

/-- `ensureInstalled` itself and the constructor that ends with it. -/
def Call.ensures : Call H A → Bool
  | .moduleRegistrar _ | .ensureInstalled => true
  | .set _ | .reset => false

/-- The handler that a call of `ErrorHandler` makes the active one. -/
def Call.replaces : Call H A → Option (Handler A)
  | .set handler => some handler
  | .reset => some .default
  | .moduleRegistrar _ | .ensureInstalled => none

/-- The last handler made active by `set` or `reset` once the first ensuring call
has been made. -/
def lastReplaced (calls : List (Call H A)) : Option (Handler A) :=
  ((calls.dropWhile (!·.ensures)).filterMap Call.replaces).getLast?

theorem moduleRegistrar_installed_active (p : Process H A) (r : ModuleRegistrar H) :
    (p.moduleRegistrar r).installed = p.ensureInstalled.installed ∧
      (p.moduleRegistrar r).active = p.ensureInstalled.active := by
  simp only [Process.moduleRegistrar, Process.ensureInstalled]
  cases r.onViolation.isSome <;> cases hinstalled : p.installed <;> simp [hinstalled]

/-- The two ensuring calls do the same to the static and to the active handler. -/
theorem call_of_ensures (p : Process H A) {c : Call H A} (hc : c.ensures = true) :
    (p.call c).installed = true ∧
      (p.call c).active = if p.installed then p.active else .dispatch := by
  have hboth : (p.call c).installed = p.ensureInstalled.installed ∧
      (p.call c).active = p.ensureInstalled.active := by
    cases c with
    | set handler => cases hc
    | reset => cases hc
    | moduleRegistrar r => exact moduleRegistrar_installed_active p r
    | ensureInstalled => exact ⟨rfl, rfl⟩
  rw [hboth.1, hboth.2]
  unfold Process.ensureInstalled
  cases hinstalled : p.installed with
  | false => exact ⟨rfl, rfl⟩
  | true => exact ⟨hinstalled, rfl⟩

/-- `set` and `reset` leave the static alone. -/
theorem call_of_replaces (p : Process H A) {c : Call H A} {handler : Handler A}
    (hc : c.replaces = some handler) :
    (p.call c).installed = p.installed ∧ (p.call c).active = handler := by
  cases c with
  | set h =>
    cases hc
    exact ⟨rfl, rfl⟩
  | reset =>
    cases hc
    exact ⟨rfl, rfl⟩
  | moduleRegistrar r => cases hc
  | ensureInstalled => cases hc

theorem ensures_iff_replaces_eq_none (c : Call H A) :
    c.ensures = true ↔ c.replaces = none := by
  cases c <;> simp [Call.ensures, Call.replaces]

/-- The static tells whether an ensuring call was made. -/
theorem installed_after (calls : List (Call H A)) :
    (after calls).installed = calls.any Call.ensures := by
  induction calls using List.reverseRecOn with
  | nil => rfl
  | append_singleton calls c ih =>
    rw [after_append_singleton, List.any_append]
    cases hc : c.ensures with
    | true => simp [(call_of_ensures _ hc).1, hc]
    | false =>
      obtain ⟨handler, hreplaces⟩ : ∃ handler, c.replaces = some handler := by
        refine Option.ne_none_iff_exists'.1 fun hnone => ?_
        rw [(ensures_iff_replaces_eq_none c).2 hnone] at hc
        cases hc
      simp [(call_of_replaces _ hreplaces).1, ih, hc]

theorem dropWhile_ensures_eq_nil_iff (calls : List (Call H A)) :
    calls.dropWhile (!·.ensures) = [] ↔ calls.any Call.ensures = false := by
  rw [List.dropWhile_eq_nil_iff, List.any_eq_false]
  simp

theorem lastReplaced_append_singleton (calls : List (Call H A)) (c : Call H A)
    (hany : calls.any Call.ensures = true) :
    lastReplaced (calls ++ [c]) = c.replaces.or (lastReplaced calls) := by
  have hne : (calls.dropWhile (!·.ensures)).isEmpty = false := by
    rw [List.isEmpty_eq_false_iff]
    intro hnil
    rw [(dropWhile_ensures_eq_nil_iff calls).1 hnil] at hany
    cases hany
  unfold lastReplaced
  rw [List.dropWhile_append, hne]
  cases hc : c.replaces with
  | none => simp [List.filterMap_append, hc]
  | some handler => simp [List.filterMap_append, hc]

/-- Once the static is set, only `set` and `reset` decide what is active. -/
theorem active_after (calls : List (Call H A)) (hany : calls.any Call.ensures = true) :
    (after calls).active = (lastReplaced calls).getD .dispatch := by
  induction calls using List.reverseRecOn with
  | nil => cases hany
  | append_singleton calls c ih =>
    rw [after_append_singleton]
    cases hbefore : calls.any Call.ensures with
    | true =>
      rw [lastReplaced_append_singleton calls c hbefore]
      cases hc : c.replaces with
      | some handler => exact (call_of_replaces _ hc).2
      | none =>
        have hensures := (ensures_iff_replaces_eq_none c).2 hc
        rw [(call_of_ensures _ hensures).2, installed_after, hbefore]
        exact ih hbefore
    | false =>
      -- The first ensuring call is the last call of this history.
      have hensures : c.ensures = true := by simpa [hbefore] using hany
      have hdrop := (dropWhile_ensures_eq_nil_iff calls).2 hbefore
      rw [(call_of_ensures _ hensures).2, installed_after, hbefore]
      simp [lastReplaced, List.dropWhile_append, hdrop, hensures,
        (ensures_iff_replaces_eq_none c).1 hensures]

theorem lastReplaced_of_none (calls : List (Call H A))
    (hany : calls.any Call.ensures = false) : lastReplaced calls = none := by
  unfold lastReplaced
  rw [(dropWhile_ensures_eq_nil_iff calls).2 hany]
  rfl

/-- An ensuring call leaves the `DispatchHandler` active exactly when no other
handler was made the active one, and left so, since the first ensuring call. -/
theorem active_ensured_iff (calls : List (Call H A)) (c : Call H A) (hc : c.ensures = true) :
    (after (calls ++ [c])).active = .dispatch ↔
      ∀ handler, lastReplaced calls = some handler → handler = .dispatch := by
  rw [after_append_singleton, (call_of_ensures _ hc).2, installed_after]
  cases hany : calls.any Call.ensures with
  | false => simp [lastReplaced_of_none calls hany]
  | true =>
    rw [if_pos rfl, active_after calls hany]
    cases lastReplaced calls with
    | none => simp
    | some handler => simp

/-- A test handler is put in and taken out again before anything is registered. -/
theorem active_ensured_iff_after_test_handler :
    (after ([Call.set (.other 1), .reset, .moduleRegistrar ⟨0x200, some 5, none⟩] :
      List (Call Nat Nat))).active = .dispatch :=
  (active_ensured_iff [Call.set (.other 1), .reset] (.moduleRegistrar ⟨0x200, some 5, none⟩)
    rfl).2 (fun handler h => by cases h)

/-- The order of `main`: a static registrar, `reset`, then `ensureInstalled` to
install the handler again, which does nothing. -/
theorem reset_not_reinstalled :
    (after ([Call.moduleRegistrar ⟨0x200, some 5, none⟩, .reset] ++ [.ensureInstalled] :
      List (Call Nat Nat))).active ≠ .dispatch := by
  decide

end Calls

end CppCode.ErrorReporting
