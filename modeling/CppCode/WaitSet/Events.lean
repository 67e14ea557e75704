import CppCode.Concurrency.Slots
import CppCode.WaitSet.Model

/-!
# CppCode.WaitSet.Events

**No event is lost and none is invented.** Tokens of the semaphore are not tied to sources,
and a token may be used up by a consumer that finds nothing. What holds all the same is that
a set flag always has somebody coming for it: a token, a `fireEvent()` that is about to post
one, or a consumer that has taken one and has the source still ahead of it (`Covered`).
`events_accounted` adds what becomes of a flag that is taken: a store that is in no result yet is
in the flag or in the hands of a consumer (`Delivered`), and each store is collected at most once
(`Counted`).

Sources are attached before they are fired; a source that `collectTriggered()` does not know
of would keep its flag while the tokens run out.
-/

namespace CppCode.WaitSet

open Concurrency

variable {Source : Type} [DecidableEq Source]

/-- A source is attached before it is fired. -/
def AttachedFirst : Guard (State Source) (Action Source) := fun s a =>
  match a with
  | .call (.fireEvent src) => src ∈ s.sources
  | _ => True

instance (s : State Source) (a : Action Source) : Decidable (AttachedFirst s a) := by
  unfold AttachedFirst
  split <;> infer_instance

/-- The call is a `fireEvent()` on `src` that has stored the flag and not posted yet, or a
consumer that has a token and has not examined `src` yet. -/
def Pc.owes (src : Source) : Pc Source → Bool
  | .firePost src' => src' == src
  | .collectLock => true
  | .collectScan rest _ => rest.contains src
  | _ => false

/-- The sources that the call has collected so far. -/
def Pc.collected : Pc Source → List Source
  | .collectScan _ result => result
  | _ => []

/-- The sources that a call has returned. -/
def Event.results : Event Source → List Source
  | .returned result => result
  | .stored _ => []

/-- What `wait()` and `timedWait()` have returned so far. -/
def State.returned (s : State Source) : List Source := s.history.flatMap Event.results

/-- How often `fireEvent()` has stored the flag of `src`. -/
def State.stores (s : State Source) (src : Source) : Nat := s.history.count (.stored src)

variable {s s' : State Source} {a : Action Source}

/-! ### Sources are known -/

/-- A flag is set only of an attached source, and `fireEvent()` is called only on such. -/
structure Attached (s : State Source) : Prop where
  flag : ∀ src, s.triggered src = true → src ∈ s.sources
  call : ∀ src, .fireStore src ∈ s.calls → src ∈ s.sources

omit [DecidableEq Source] in
/-- A call moves on or returns, and no source goes away. -/
theorem Attached.mono (h : Attached s) (ht : ∀ src, s'.triggered src = true →
      s.triggered src = true ∨ .fireStore src ∈ s.calls)
    (hs : ∀ src ∈ s.sources, src ∈ s'.sources)
    (hc : ∀ src, .fireStore src ∈ s'.calls → .fireStore src ∈ s.calls) : Attached s' where
  flag := fun src hf => hs src ((ht src hf).elim (h.flag src) (h.call src))
  call := fun src hm => hs src (h.call src (hc src hm))

omit [DecidableEq Source] in
theorem mem_set_of_ne {l : List (Pc Source)} {i : Nat} {pc c : Pc Source}
    (h : c ∈ l.set i pc) (hne : c ≠ pc) : c ∈ l :=
  (List.mem_or_eq_of_mem_set h).resolve_right hne

theorem Moved.attached (hm : Moved s a s') (hg : AttachedFirst s a) (h : Attached s) :
    Attached s' := by
  cases hm with
  | called request =>
      refine ⟨h.flag, ?_⟩
      intro src hc
      rcases mem_concat.mp hc with hc | hc
      · exact h.call src hc
      · cases request with
        | fireEvent src' =>
            obtain rfl : src = src' := by simpa [Request.start] using hc
            exact hg
        | attach | wait | timedWait | post => cases hc
  | attachLocks hi | takesToken hi | collectLocks hi | skips hi =>
      exact h.mono (fun _ => .inl) (fun _ hs => hs) fun _ hc => mem_set_of_ne hc nofun
  | attachPushes hi =>
      exact h.mono (fun _ => .inl) (fun _ => List.mem_append_left _) fun _ hc =>
        mem_set_of_ne hc nofun
  | attachUnlocks hi | posts hi | timesOut hi | collected hi =>
      exact h.mono (fun _ => .inl) (fun _ hs => hs) fun _ => List.mem_of_mem_eraseIdx
  | stores hi =>
      rename_i i src'
      refine h.mono ?_ (fun _ hs => hs) fun _ hc => mem_set_of_ne hc nofun
      intro src hf
      by_cases hsrc : src = src'
      · subst hsrc
        exact .inr (List.mem_of_getElem? hi)
      · exact .inl (by simpa [State.goto, State.log, hsrc] using hf)
  | collects hi =>
      rename_i i src' rest result ht
      refine h.mono (fun src hf => .inl ?_) (fun _ hs => hs) fun _ hc => mem_set_of_ne hc nofun
      by_cases hsrc : src = src'
      · subst hsrc
        exact ht
      · simpa [State.goto, hsrc] using hf

/-! ### Somebody is coming -/

/-- A set flag has a token or a call that owes it one. -/
def Covered (s : State Source) : Prop :=
  ∀ src, s.triggered src = true → 0 < s.sem + s.calls.countP (Pc.owes src)

section Calls

variable {calls : List (Pc Source)} {src : Source} {i sem : Nat} {old new : Pc Source}

/-- A call that owes a token moves to a position where it still does. -/
theorem covered_set (h : 0 < sem + calls.countP (Pc.owes src)) (hi : calls[i]? = some old)
    (ho : old.owes src = true → new.owes src = true) :
    0 < sem + (calls.set i new).countP (Pc.owes src) := by
  have hset := countP_set (Pc.owes src) hi new
  have hle : tally (Pc.owes src) old ≤ tally (Pc.owes src) new := by
    cases hold : old.owes src with
    | false => simp [tally, hold]
    | true => simp [tally, hold, ho hold]
  omega

/-- A call that owes nothing returns. -/
theorem covered_eraseIdx (h : 0 < sem + calls.countP (Pc.owes src))
    (hi : calls[i]? = some old) (ho : old.owes src = false) :
    0 < sem + (calls.eraseIdx i).countP (Pc.owes src) := by
  have herase := countP_eraseIdx (Pc.owes src) hi
  simp only [tally, ho, Bool.toNat_false] at herase
  omega

/-- A call gets to a position where it owes a token. -/
theorem covered_new (hi : calls[i]? = some old) (hn : new.owes src = true) :
    0 < sem + (calls.set i new).countP (Pc.owes src) := by
  have hset := countP_set (Pc.owes src) hi new
  have hpos : tally (Pc.owes src) old ≤ calls.countP (Pc.owes src) :=
    Nat.le.intro ((Nat.add_comm _ _).trans (countP_eraseIdx (Pc.owes src) hi))
  simp only [tally, hn, Bool.toNat_true] at hset hpos
  omega

end Calls

theorem Moved.covered (hm : Moved s a s') (ha : Attached s) (h : Covered s) : Covered s' := by
  intro src hf
  cases hm with
  | called request =>
      have hcount := countP_concat (Pc.owes src) s.calls request.start
      have hold := h src hf
      show 0 < s.sem + (s.calls ++ [request.start]).countP _
      omega
  | attachLocks hi | attachPushes hi => exact covered_set (h src hf) hi nofun
  | attachUnlocks hi | timesOut hi | collected hi => exact covered_eraseIdx (h src hf) hi rfl
  | stores hi =>
      rename_i i src'
      by_cases hsrc : src = src'
      · -- the call that has just stored the flag is about to post
        exact covered_new hi (by simp [Pc.owes, hsrc])
      · exact covered_set (h src (by simpa [State.goto, State.log, hsrc] using hf)) hi nofun
  | posts hi hpc => exact Nat.add_pos_left (Nat.succ_pos _) _
  | takesToken hi hpc hn =>
      -- the token is gone, but its taker has the whole list ahead
      exact covered_new hi rfl
  | collectLocks hi hm =>
      exact covered_set (h src hf) hi fun _ => by simp [Pc.owes, ha.flag src hf]
  | collects hi ht =>
      rename_i i src' rest result
      -- the flag that was collected is clear now
      have hsrc : src ≠ src' := by
        rintro rfl
        simp [State.goto] at hf
      exact covered_set (h src (by simpa [State.goto, hsrc] using hf)) hi (by simp [Pc.owes, hsrc])
  | skips hi ht =>
      rename_i i src' rest result
      have hsrc : src ≠ src' := by
        rintro rfl
        exact absurd hf (by simp [State.goto, ht])
      exact covered_set (h src hf) hi (by simp [Pc.owes, hsrc])

/-! ### Every store is collected at most once -/

/-- What was returned, what is being collected and the flag itself, against the stores; over
the components of a state. -/
def CountedAt (triggered : Source → Bool) (calls : List (Pc Source))
    (history : List (Event Source)) : Prop :=
  ∀ src, (history.flatMap Event.results).count src +
      (calls.map fun c => c.collected.count src).sum + (triggered src).toNat ≤
    history.count (.stored src)

abbrev Counted (s : State Source) : Prop := CountedAt s.triggered s.calls s.history

section Components

variable {triggered : Source → Bool} {calls : List (Pc Source)} {history : List (Event Source)}
  {i : Nat} {old : Pc Source}

/-- A call moves on without collecting anything. -/
theorem CountedAt.move (h : CountedAt triggered calls history) (hi : calls[i]? = some old)
    {new : Pc Source} (hc : new.collected = old.collected) :
    CountedAt triggered (calls.set i new) history := by
  intro src
  have hset := sum_map_set (fun c => c.collected.count src) hi new
  simp only [hc] at hset
  rw [Nat.add_right_cancel hset]
  exact h src

/-- A call that has collected nothing returns. -/
theorem CountedAt.leave (h : CountedAt triggered calls history) (hi : calls[i]? = some old)
    (hc : old.collected = []) : CountedAt triggered (calls.eraseIdx i) history := by
  intro src
  have herase := sum_map_eraseIdx (fun c => c.collected.count src) hi
  simp only [hc, List.count_nil, Nat.add_zero] at herase
  rw [herase]
  exact h src

/-- A call returns what it has collected. -/
theorem CountedAt.returns (h : CountedAt triggered calls history) (hi : calls[i]? = some old) :
    CountedAt triggered (calls.eraseIdx i) (history ++ [.returned old.collected]) := by
  intro src
  have herase := sum_map_eraseIdx (fun c => c.collected.count src) hi
  have hold := h src
  have hnot : [Event.returned old.collected].count (.stored src) = 0 := by simp
  have hret : ([Event.returned old.collected].flatMap Event.results).count src =
      old.collected.count src := by simp [Event.results]
  rw [List.flatMap_append, List.count_append, List.count_append, hnot, hret]
  omega

/-- The compare-exchange takes the flag and puts the source into the result. -/
theorem CountedAt.collect {src' : Source} {rest result : List Source}
    (h : CountedAt triggered calls history)
    (hi : calls[i]? = some (.collectScan (src' :: rest) result)) (ht : triggered src' = true) :
    CountedAt (Function.update triggered src' false)
      (calls.set i (.collectScan rest (result ++ [src']))) history := by
  intro src
  have hset : ((calls.set i (.collectScan rest (result ++ [src']))).map
      fun c => c.collected.count src).sum + result.count src =
        (calls.map fun c => c.collected.count src).sum + (result ++ [src']).count src :=
    sum_map_set (fun c => c.collected.count src) hi (.collectScan rest (result ++ [src']))
  have hold := h src
  rw [List.count_append] at hset
  by_cases hsrc : src = src'
  · subst hsrc
    rw [ht, Bool.toNat_true] at hold
    rw [Function.update_self, Bool.toNat_false]
    rw [List.count_singleton_self] at hset
    omega
  · rw [Function.update_of_ne hsrc]
    rw [List.count_singleton, if_neg (by simpa using Ne.symm hsrc)] at hset
    omega

/-- `fireEvent()` stores the flag. -/
theorem CountedAt.store {src' : Source} (h : CountedAt triggered calls history)
    (hi : calls[i]? = some (.fireStore src')) :
    CountedAt (Function.update triggered src' true) (calls.set i (.firePost src'))
      (history ++ [.stored src']) := by
  have hmove : CountedAt triggered (calls.set i (.firePost src')) history := h.move hi rfl
  intro src
  have hold := hmove src
  rw [List.flatMap_append, List.count_append, List.count_append]
  simp only [List.flatMap_cons, Event.results, List.flatMap_nil, List.append_nil, List.count_nil]
  by_cases hsrc : src = src'
  · -- one more store, and a flag that is set if it was not
    subst hsrc
    have hle := Bool.toNat_le (triggered src)
    rw [Function.update_self, Bool.toNat_true, List.count_singleton_self]
    omega
  · rw [Function.update_of_ne hsrc]
    omega

end Components

theorem Moved.counted (hm : Moved s a s') (h : Counted s) : Counted s' := by
  cases hm with
  | called request =>
      intro src
      have hzero : request.start.collected = [] := by cases request <;> rfl
      show _ + ((s.calls ++ [request.start]).map _).sum + _ ≤ _
      rw [sum_map_concat, hzero]
      exact h src
  | attachLocks hi | attachPushes hi | collectLocks hi | skips hi => exact h.move hi rfl
  | takesToken hi hpc => exact h.move hi (by rcases hpc with rfl | rfl <;> rfl)
  | attachUnlocks hi => exact h.leave hi rfl
  | posts hi hpc => exact h.leave hi (by rcases hpc with ⟨src', rfl⟩ | rfl <;> rfl)
  | timesOut hi | collected hi => exact h.returns hi
  | stores hi => exact h.store hi
  | collects hi ht => exact h.collect hi ht

/-! ### What is collected is returned -/

/-- Some store of the flag of `src` was not followed by a result with `src`. -/
def Unreturned (src : Source) (history : List (Event Source)) : Prop :=
  ∃ before after, history = before ++ .stored src :: after ∧
    ∀ result, .returned result ∈ after → src ∉ result

section Histories

variable {history : List (Event Source)} {src : Source}

omit [DecidableEq Source] in
theorem unreturned_stored {src' : Source} (h : Unreturned src (history ++ [.stored src'])) :
    src' = src ∨ Unreturned src history := by
  obtain ⟨before, after, hhistory, hafter⟩ := h
  rcases concat_split hhistory with ⟨-, hsrc, -⟩ | ⟨after', rfl, hhistory'⟩
  · exact .inl (Event.stored.inj hsrc).symm
  · refine .inr ⟨before, after', hhistory', ?_⟩
    intro result hmem
    exact hafter result (List.mem_append_left _ hmem)

omit [DecidableEq Source] in
theorem unreturned_returned {result : List Source}
    (h : Unreturned src (history ++ [.returned result])) :
    src ∉ result ∧ Unreturned src history := by
  obtain ⟨before, after, hhistory, hafter⟩ := h
  rcases concat_split hhistory with ⟨-, hc, -⟩ | ⟨after', rfl, hhistory'⟩
  · cases hc
  · refine ⟨hafter result (List.mem_append_right _ List.mem_cons_self), before, after', hhistory', ?_⟩
    intro result' hmem
    exact hafter result' (List.mem_append_left _ hmem)

end Histories

/-- A store that is in no result yet is in the flag or in what a consumer has collected. -/
def Delivered (s : State Source) : Prop :=
  ∀ src, Unreturned src s.history →
    s.triggered src = true ∨ ∃ c ∈ s.calls, src ∈ c.collected

section Collected

variable {calls : List (Pc Source)} {i : Nat} {old new : Pc Source} {src : Source}

omit [DecidableEq Source] in
/-- A call moves on and keeps what it has collected. -/
theorem collected_set (hi : calls[i]? = some old) (hkeep : src ∈ old.collected → src ∈ new.collected)
    (h : ∃ c ∈ calls, src ∈ c.collected) : ∃ c ∈ calls.set i new, src ∈ c.collected := by
  obtain ⟨l₁, l₂, hl, hset, -⟩ := exists_split hi
  obtain ⟨c, hc, hsrc⟩ := h
  rw [hset]
  rw [hl] at hc
  rcases List.mem_append.mp hc with hc | hc
  · exact ⟨c, List.mem_append_left _ hc, hsrc⟩
  · rcases List.mem_cons.mp hc with rfl | hc
    · exact ⟨new, List.mem_append_right _ List.mem_cons_self, hkeep hsrc⟩
    · exact ⟨c, List.mem_append_right _ (List.mem_cons_of_mem _ hc), hsrc⟩

omit [DecidableEq Source] in
/-- A call returns, and not with `src`. -/
theorem collected_eraseIdx (hi : calls[i]? = some old) (hnot : src ∉ old.collected)
    (h : ∃ c ∈ calls, src ∈ c.collected) : ∃ c ∈ calls.eraseIdx i, src ∈ c.collected := by
  obtain ⟨l₁, l₂, hl, -, herase⟩ := exists_split hi
  obtain ⟨c, hc, hsrc⟩ := h
  rw [herase]
  rw [hl] at hc
  rcases List.mem_append.mp hc with hc | hc
  · exact ⟨c, List.mem_append_left _ hc, hsrc⟩
  · rcases List.mem_cons.mp hc with rfl | hc
    · exact absurd hsrc hnot
    · exact ⟨c, List.mem_append_right _ hc, hsrc⟩

end Collected

theorem Moved.delivered (hm : Moved s a s') (h : Delivered s) : Delivered s' := by
  intro src hsrc
  cases hm with
  | called request =>
      refine (h src hsrc).imp_right ?_
      rintro ⟨c, hc, hmem⟩
      exact ⟨c, List.mem_append_left _ hc, hmem⟩
  | attachLocks hi | attachPushes hi | collectLocks hi | skips hi =>
      exact (h src hsrc).imp_right (collected_set hi id)
  | takesToken hi hpc =>
      refine (h src hsrc).imp_right (collected_set hi ?_)
      rcases hpc with rfl | rfl
      · exact id
      · exact id
  | attachUnlocks hi =>
      exact (h src hsrc).imp_right (collected_eraseIdx hi List.not_mem_nil)
  | posts hi hpc =>
      refine (h src hsrc).imp_right (collected_eraseIdx hi ?_)
      rcases hpc with ⟨src', rfl⟩ | rfl
      · exact List.not_mem_nil
      · exact List.not_mem_nil
  | @stores i src' hi =>
      by_cases hnew : src = src'
      · subst hnew
        exact .inl (Function.update_self _ _ _)
      · refine (h src ((unreturned_stored hsrc).resolve_left (Ne.symm hnew))).imp ?_
          (collected_set hi id)
        intro hf
        exact (Function.update_of_ne hnew _ _).trans hf
  | @collects i src' rest result hi ht =>
      by_cases hnew : src = src'
      · -- the consumer that has taken the flag has the source in its result
        subst hnew
        refine .inr ⟨.collectScan rest (result ++ [src]), ?_, ?_⟩
        · exact List.mem_of_getElem? (List.getElem?_set_self (List.getElem?_eq_some_iff.mp hi).1)
        · exact List.mem_append_right _ List.mem_cons_self
      · refine (h src hsrc).imp ?_ (collected_set hi (List.mem_append_left _))
        intro hf
        exact (Function.update_of_ne hnew _ _).trans hf
  | timesOut hi =>
      exact (h src (unreturned_returned hsrc).2).imp_right (collected_eraseIdx hi List.not_mem_nil)
  | collected hi =>
      obtain ⟨hnot, hold⟩ := unreturned_returned hsrc
      exact (h src hold).imp_right (collected_eraseIdx hi hnot)

/-! ### Every run -/

/-- The invariants together. -/
structure Accounted (s : State Source) : Prop where
  attached : Attached s
  covered : Covered s
  delivered : Delivered s
  counted : Counted s

theorem reachable_accounted (h : (machine Source).Reachable AttachedFirst s) : Accounted s := by
  refine h.invariant ⟨⟨nofun, nofun⟩, nofun, ?_, fun src => Nat.le_refl 0⟩ ?_
  · rintro src ⟨before, after, hhistory, -⟩
    cases before <;> cases hhistory
  · intro s a s' _ hi hg hs
    have hm := step_moved hs
    exact ⟨hm.attached hg hi.attached, hm.covered hi.attached hi.covered,
      hm.delivered hi.delivered, hm.counted hi.counted⟩

/-- **No event is lost and none is invented.** In every run in which sources are attached
before they are fired: if the flag of a source is set, there is a token, or a `fireEvent()` on
it is about to post one, or a consumer has taken one and not examined the source yet; a store
that no result has followed is in the flag or in what a consumer is about to return; and a source
has been returned at most as often as it was fired. -/
theorem events_accounted {Source : Type} [DecidableEq Source] {s : State Source}
    (h : (machine Source).Reachable AttachedFirst s) (src : Source) :
    (s.triggered src = true →
        0 < s.sem ∨ .firePost src ∈ s.calls ∨
          .collectLock ∈ s.calls ∨ ∃ rest result, .collectScan rest result ∈ s.calls ∧ src ∈ rest) ∧
      (Unreturned src s.history → s.triggered src = true ∨
        ∃ rest result, .collectScan rest result ∈ s.calls ∧ src ∈ result) ∧
      s.returned.count src ≤ s.stores src := by
  obtain ⟨-, hcov, hdel, hcount⟩ := reachable_accounted h
  refine ⟨?_, ?_, ?_⟩
  · intro hf
    by_cases hsem : 0 < s.sem
    · exact .inl hsem
    · have hpos : 0 < s.calls.countP (Pc.owes src) := by
        have hc := hcov src hf
        omega
      obtain ⟨c, hc, ho⟩ := List.countP_pos_iff.mp hpos
      right
      cases c with
      | firePost src' =>
          obtain rfl : src' = src := by simpa [Pc.owes] using ho
          exact .inl hc
      | collectLock => exact .inr (.inl hc)
      | collectScan rest result =>
          exact .inr (.inr ⟨rest, result, hc, by simpa [Pc.owes] using ho⟩)
      | attachLock | attachPush | attachUnlock | fireStore | semWait | semTimedWait | semPost =>
          cases ho
  · intro hsrc
    refine (hdel src hsrc).imp_right ?_
    rintro ⟨c, hc, hmem⟩
    cases c with
    | collectScan rest result => exact ⟨rest, result, hc, hmem⟩
    | attachLock | attachPush | attachUnlock | fireStore | firePost | semWait | semTimedWait
    | semPost | collectLock => cases hmem
  · have hc := hcount src
    simp only [State.returned, State.stores]
    omega

/-- `attach()` as the only call in progress. -/
def attachAlone (src : Nat) : List (Action Nat) :=
  [.call (.attach src), .advance 0, .advance 0, .advance 0]

/-- Two sources, the second one is fired twice before a consumer has taken the first token and
looked at the first source. -/
theorem events_accounted_two_sources :
    ∃ s, (machine Nat).Reachable AttachedFirst s ∧ s.triggered 1 = true ∧ s.sem = 0 ∧
      s.stores 1 = 2 ∧
      (0 < s.sem ∨ .firePost 1 ∈ s.calls ∨ .collectLock ∈ s.calls ∨
        ∃ rest result, .collectScan rest result ∈ s.calls ∧ 1 ∈ rest) ∧
      s.returned.count 1 ≤ s.stores 1 := by
  obtain ⟨s, hs, hp⟩ := Machine.reachable_of_execWithin (M := machine Nat) (G := AttachedFirst)
    (l := attachAlone 0 ++ attachAlone 1 ++ [Action.call (.fireEvent 1), .advance 0, .advance 0,
      .call .wait, .advance 0, .advance 0, .advance 0, .call (.fireEvent 1), .advance 1])
    (p := fun s => s.triggered 1 && s.sem == 0 && s.stores 1 == 2) (by decide)
  simp only [Bool.and_eq_true, beq_iff_eq] at hp
  obtain ⟨⟨hf, hsem⟩, hsto⟩ := hp
  have hacc := events_accounted hs 1
  exact ⟨s, hs, hf, hsem, hsto, hacc.1 hf, hacc.2.2⟩

end CppCode.WaitSet
