import CppCode.MiniListener.Refinement

/-!
# CppCode.MiniListener.Callbacks

**Every event gets its callback.** A store of a flag that no callback has followed yet is still
on its way: the flag is set, or the background thread has the source in hand (`Answered`). And
a set flag has somebody coming for it, which the wait set inside the listener promises
(`reachable_refines`). So when the background thread waits, no token is there and no call is in
progress, every store has been followed by a callback (`callbacks_follow_stores`).

The callback that is run is always the one attached first (`FirstAttached`): the inner loop of
`loop()` breaks at the first entry, and entries are only added at the end.
-/

namespace CppCode.MiniListener

open Concurrency

variable {Source Callback : Type} {s s' : State Source Callback} {src : Source}

/-- Some store of the flag of `src` was not followed by a callback for it. -/
def Unanswered (src : Source) (log : List (Event Source Callback)) : Prop :=
  ∃ before after, log = before ++ .stored src :: after ∧ ∀ cb, .called src cb ∉ after

theorem unanswered_stored {log : List (Event Source Callback)} {x : Source}
    (h : Unanswered src (log ++ [.stored x])) : x = src ∨ Unanswered src log := by
  obtain ⟨before, after, hlog, hafter⟩ := h
  rcases concat_split hlog with ⟨-, hx, -⟩ | ⟨after', rfl, hlog'⟩
  · exact .inl (Event.stored.inj hx).symm
  · exact .inr ⟨before, after', hlog', fun cb hmem => hafter cb (List.mem_append_left _ hmem)⟩

theorem unanswered_called {log : List (Event Source Callback)} {x : Source} {cb : Callback}
    (h : Unanswered src (log ++ [.called x cb])) : x ≠ src ∧ Unanswered src log := by
  obtain ⟨before, after, hlog, hafter⟩ := h
  rcases concat_split hlog with ⟨-, hx, -⟩ | ⟨after', rfl, hlog'⟩
  · cases hx
  · refine ⟨?_, before, after', hlog', fun cb hmem => hafter cb (List.mem_append_left _ hmem)⟩
    rintro rfl
    exact hafter cb (List.mem_append_right _ List.mem_cons_self)

/-! ### Nothing collected is dropped -/

/-- The sources that the background thread has collected and not dispatched yet. -/
def Loop.inHand : Loop Source → List Source
  | .collectScan _ result => result
  | .lockEntries triggered | .dispatch triggered => triggered
  | .check | .timedWait | .collectLock | .ended => []

def State.inHand (s : State Source Callback) : List Source :=
  match s.thread with
  | some pc => pc.inHand
  | none => []

theorem inHand_of_thread {pc : Loop Source} (ht : s.thread = some pc) : s.inHand = pc.inHand := by
  rw [State.inHand, ht]

/-- A store without a callback is still in the flag or in hand. -/
def Answered (s : State Source Callback) : Prop :=
  ∀ src, Unanswered src s.log → s.triggered src = true ∨ src ∈ s.inHand

/-- The background thread moves on with the same sources in hand. -/
theorem Answered.turn (h : Answered s) {old new : Loop Source} (hold : s.thread = some old)
    (ht : s'.thread = some new) (hhand : new.inHand = old.inHand) (hlog : s'.log = s.log)
    (htriggered : s'.triggered = s.triggered) : Answered s' := by
  intro src hsrc
  rw [inHand_of_thread ht, hhand, ← inHand_of_thread hold, htriggered]
  exact h src (hlog ▸ hsrc)

variable [DecidableEq Source]

theorem CallMoved.answered {i : Nat} (hm : CallMoved s i s') (h : Answered s) : Answered s' := by
  cases hm with
  | @stores x hi =>
      intro src hsrc
      by_cases hx : src = x
      · subst hx
        exact .inl (Function.update_self _ _ _)
      · refine (h src ((unanswered_stored hsrc).resolve_left (Ne.symm hx))).imp ?_ id
        intro ht
        exact (Function.update_of_ne hx _ _).trans ht
  | _ => exact h

theorem LoopMoved.answered (hm : LoopMoved s s') (hk : Known s) (h : Answered s) : Answered s' := by
  cases hm with
  | runs ht | ends ht | takesToken ht | timesOut ht | collectLocks ht | skips ht | collected ht
  | locksEntries ht | dispatched ht => exact h.turn ht rfl rfl rfl rfl
  | @collects x rest result ht hf =>
      intro src hsrc
      have hold := h src hsrc
      rw [inHand_of_thread ht] at hold
      by_cases hx : src = x
      · subst hx
        exact .inr (List.mem_append_right _ List.mem_cons_self)
      · refine hold.imp ?_ fun hmem => List.mem_append_left _ hmem
        intro ht
        exact (Function.update_of_ne hx _ _).trans ht
  | @dispatches x rest ht =>
      obtain ⟨e, -, heq⟩ := runCallback_eq (hk.loop _ ht x List.mem_cons_self)
      rw [heq]
      intro src hsrc
      obtain ⟨hx, hsrc⟩ := unanswered_called hsrc
      have hold := h src hsrc
      rw [inHand_of_thread ht] at hold
      exact hold.imp id fun hmem => (List.mem_cons.mp hmem).resolve_left (Ne.symm hx)

omit [DecidableEq Source] in
theorem OwnerMoved.answered {a : Action Source Callback} (hm : OwnerMoved s a s')
    (hspawn : Spawning s) (h : Answered s) : Answered s' := by
  cases hm with
  | starts | stops | posts => exact h
  | spawns ho =>
      intro src hsrc
      have hold := h src hsrc
      rw [State.inHand, hspawn ho] at hold
      exact hold
  | joins ho ht =>
      intro src hsrc
      have hold := h src hsrc
      rcases ht with ht | ht
      · rw [State.inHand, ht] at hold
        exact hold
      · rw [State.inHand, ht] at hold
        exact hold

theorem reachable_answered {G : Guard (State Source Callback) (Action Source Callback)}
    (h : (machine Source Callback).Reachable G s) : Answered s := by
  refine h.invariant (I := Answered) ?_ ?_
  · rintro src ⟨before, after, hlog, -⟩
    cases before <;> cases hlog
  · intro s a s' hr hi _ hs
    cases step_moved hs with
    | called => exact hi
    | call hm => exact hm.answered hi
    | loop _ hm => exact hm.answered (reachable_known hr) hi
    | owner hm => exact hm.answered (reachable_spawning hr) hi

/-! ### The callback attached first -/

/-- Only the callback that was attached first to a source is ever run for it. -/
def FirstAttached (s : State Source Callback) : Prop :=
  ∀ src cb, .called src cb ∈ s.log → s.entry src = some ⟨src, cb⟩

theorem entry_append (s : State Source Callback) {e e' : Entry Source Callback}
    (h : s.entry src = some e) :
    ({ s with entries := s.entries ++ [e'] } : State Source Callback).entry src = some e := by
  rw [State.entry] at h ⊢
  rw [List.find?_append, h, Option.some_or]

theorem reachable_firstAttached {G : Guard (State Source Callback) (Action Source Callback)}
    (h : (machine Source Callback).Reachable G s) : FirstAttached s := by
  refine h.invariant (I := FirstAttached) ?_ ?_
  · intro src cb hmem
    cases hmem
  · intro s a s' hr hi _ hs
    cases step_moved hs with
    | called => exact hi
    | call hm =>
        cases hm with
        | attachesEntry => exact fun src cb hmem => entry_append s (hi src cb hmem)
        | stores =>
            intro src cb hmem
            rcases mem_concat.mp hmem with hmem | hmem
            · exact hi src cb hmem
            · cases hmem
        | _ => exact hi
    | loop _ hm =>
        cases hm with
        | @dispatches x rest ht =>
            obtain ⟨e, he, heq⟩ :=
              runCallback_eq ((reachable_known hr).loop _ ht x List.mem_cons_self)
            rw [heq]
            intro src cb hmem
            rcases mem_concat.mp hmem with hmem | hmem
            · exact hi src cb hmem
            · obtain ⟨rfl, rfl⟩ := Event.called.inj hmem
              have hsrc : e.src = src := by simpa using List.find?_some he
              exact he.trans (by rw [← hsrc])
        | _ => exact hi
    | owner hm => cases hm <;> exact hi

/-! ### Somebody is coming -/

/-- A set flag has a token, a `fireEvent()` that is about to post one, or a background thread
that has taken one and has the source still ahead. -/
theorem reachable_covered (h : (machine Source Callback).Reachable AttachedFirst s)
    (hf : s.triggered src = true) :
    0 < s.sem ∨ .firePost src ∈ s.calls ∨ s.thread = some .collectLock ∨
      ∃ rest result, s.thread = some (.collectScan rest result) ∧ src ∈ rest := by
  obtain ⟨w, hw, href⟩ := reachable_refines h
  have hcov := (WaitSet.reachable_accounted hw).covered src (by rw [href.triggered]; exact hf)
  rw [href.sem] at hcov
  by_cases hsem : 0 < s.sem
  · exact .inl hsem
  · have hpos : 0 < w.calls.countP (WaitSet.Pc.owes src) := by omega
    obtain ⟨c, hc, howes⟩ := List.countP_pos_iff.mp hpos
    have hparty : some c ∈ s.parties := by
      simpa using href.calls.mem_iff.mp hc
    rw [State.parties, List.mem_cons, List.mem_cons, List.mem_map] at hparty
    right
    rcases hparty with howner | hthread | ⟨pc, hpc, hcall⟩
    · -- the token of `stop()` is for nobody
      cases ho : s.owner <;> rw [ho] at howner <;> cases howner
      cases howes
    · cases ht : s.thread with
      | none =>
          rw [ht] at hthread
          cases hthread
      | some pc =>
          rw [ht] at hthread
          right
          cases pc with
          | collectLock => exact .inl rfl
          | collectScan rest result =>
              obtain rfl := Option.some.inj hthread
              exact .inr ⟨rest, result, rfl, by simpa [WaitSet.Pc.owes] using howes⟩
          | timedWait =>
              obtain rfl := Option.some.inj hthread
              cases howes
          | check | lockEntries | dispatch | ended => cases hthread
    · cases pc with
      | firePost x =>
          obtain rfl := Option.some.inj hcall
          obtain rfl : x = src := by simpa [WaitSet.Pc.owes] using howes
          exact .inl hpc
      | attachWsLock | attachSource | attachWsUnlock | fireStore | semPost =>
          obtain rfl := Option.some.inj hcall
          cases howes
      | attachLock | attachEntry | attachUnlock => cases hcall

/-- A source is dispatched at most as often as it was fired. -/
theorem called_le_stored (h : (machine Source Callback).Reachable AttachedFirst s)
    (src : Source) : s.called.count src ≤ s.stored.count src := by
  obtain ⟨w, hw, href⟩ := reachable_refines h
  have hcount : w.returned.count src + _ + _ ≤ w.stores src :=
    (WaitSet.reachable_accounted hw).counted src
  rw [href.returned, href.stores, List.count_append] at hcount
  omega

/-- **Every event gets its callback.** In every run of the listener in which sources are
attached before they are fired, whatever `start()` and `stop()` come between: a source's
callbacks are run at most as often as it was fired; only the callback attached first is run;
a store that no callback has followed is still in the flag of the source or in the hands of the
background thread; and a set flag has a token, a `fireEvent()` about to post one, or a
background thread that has taken one and has the source ahead. -/
theorem callbacks_follow_stores {Source Callback : Type} [DecidableEq Source]
    {s : State Source Callback} (h : (machine Source Callback).Reachable AttachedFirst s)
    (src : Source) :
    s.called.count src ≤ s.stored.count src ∧
      (∀ cb, .called src cb ∈ s.log → s.entry src = some ⟨src, cb⟩) ∧
      (Unanswered src s.log → s.triggered src = true ∨ src ∈ s.inHand) ∧
      (s.triggered src = true →
        0 < s.sem ∨ .firePost src ∈ s.calls ∨ s.thread = some .collectLock ∨
          ∃ rest result, s.thread = some (.collectScan rest result) ∧ src ∈ rest) :=
  ⟨called_le_stored h src, reachable_firstAttached h src, reachable_answered h src,
    reachable_covered h⟩

/-- `attachWithCallback()` as the only call in progress. -/
def attachAlone (src cb : Nat) : List (Action Nat Nat) :=
  .call (.attachWithCallback src cb) :: List.replicate 6 (.advance 0)

/-- The same source is attached twice and fired once: the first callback is run, and the source
is fired again while the listener is at it. -/
theorem callbacks_follow_stores_fired_again :
    ∃ s : State Nat Nat, (machine Nat Nat).Reachable AttachedFirst s ∧
      s.log = [.stored 0, .called 0 7, .stored 0] ∧ s.called.count 0 ≤ s.stored.count 0 ∧
      (s.triggered 0 = true ∨ 0 ∈ s.inHand) := by
  obtain ⟨s, hs, hp⟩ := Machine.reachable_of_execWithin (M := machine Nat Nat) (G := AttachedFirst)
    (l := attachAlone 0 7 ++ attachAlone 0 8 ++ [Action.start, .owner, .call (.fireEvent 0),
      .advance 0, .advance 0, .loop, .loop, .loop, .loop, .loop, .loop, .loop, .loop,
      .call (.fireEvent 0), .advance 0])
    (p := fun s => decide (s.log = [.stored 0, .called 0 7, .stored 0])) (by decide)
  have hlog : s.log = [.stored 0, .called 0 7, .stored 0] := of_decide_eq_true hp
  obtain ⟨hcount, -, hanswered, -⟩ := callbacks_follow_stores hs 0
  refine ⟨s, hs, hlog, hcount, hanswered ?_⟩
  rw [hlog]
  exact ⟨[.stored 0, .called 0 7], [], rfl, fun _ hmem => by cases hmem⟩

end CppCode.MiniListener
