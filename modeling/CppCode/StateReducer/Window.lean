import CppCode.StateReducer.Model

/-!
# CppCode.StateReducer.Window

The three members of `StateReducer` stand for the whole list of frames since the window
was last cleared. `reference` keeps that list; `Summary` says what the members hold of it,
and the two answer alike on every state the interface document lists.

`Open` is what the list is of the frames pushed so far: the latest ones, all but the first
of them less than the window after the first, and none of them as old as a confirmed
frame.
-/

namespace CppCode.StateReducer

/-! ### The reference -/

/-- The last business state in the list, `0` if there is none. -/
def lastBusiness (frames : List Frame) : Int :=
  ((frames.filter Frame.business).getLast?.map Frame.state).getD 0

/-- The list is not empty, and `now` is at least the window after its first frame. -/
def overdue (config : Config) (frames : List Frame) (now : Int) : Bool :=
  frames.head?.any fun first => decide (now - first.time ≥ config.window)

/-- One answer of the reference, which keeps the frames since the last clearing event. -/
def referencePush (config : Config) (frames : List Frame) (frame : Frame) : List Frame × Int :=
  if frame.state ≥ 6 then ([], frame.state)
  else if overdue config frames frame.time then
    ([], if frame.business then frame.state else lastBusiness frames)
  else if (frames ++ [frame]).countP Frame.business = config.businessThreshold then ([], 5)
  else (frames ++ [frame], 0)

def reference (config : Config) : Transducer (List Frame) Frame Int :=
  { initial := [], step := referencePush config }

/-- The states of the interface document: `0..4` and `6..N`. -/
def Frame.documented (frame : Frame) : Prop :=
  (0 ≤ frame.state ∧ frame.state ≤ 4) ∨ frame.state ≥ 6

/-! ### The members summarise the list -/

/-- What `p` holds of the frames of its window. -/
structure Summary (config : Config) (p : Pending) (frames : List Frame) : Prop where
  start : p.windowStart = frames.head?.map Frame.time
  count : p.businessCount = frames.countP Frame.business
  last : p.lastBusinessState = (frames.filter Frame.business).getLast?.map Frame.state
  /-- No window outlives its confirmation. -/
  below : frames.countP Frame.business < config.businessThreshold

variable {config : Config} {p : Pending} {frames : List Frame} {frame : Frame}

theorem Summary.clear (hm : 1 ≤ config.businessThreshold) : Summary config clearPending [] :=
  ⟨rfl, rfl, rfl, hm⟩

theorem Summary.isExpired (h : Summary config p frames) (now : Int) :
    p.isExpired config now = overdue config frames now := by
  unfold Pending.isExpired overdue
  rw [h.start]
  cases frames <;> rfl

theorem Summary.foldPending (h : Summary config p frames) :
    p.foldPending = lastBusiness frames := by
  unfold Pending.foldPending lastBusiness
  rw [h.last]

/-- The members after `appendPending()`, short of the confirmation. -/
theorem Summary.append (h : Summary config p frames)
    (hbelow : (frames ++ [frame]).countP Frame.business < config.businessThreshold) :
    Summary config (p.appendPending frame) (frames ++ [frame]) where
  start := by
    rw [appendPending_windowStart, h.start]
    cases frames <;> rfl
  count := by
    rw [appendPending_businessCount, h.count, List.countP_append, List.countP_singleton]
  last := by
    rw [appendPending_lastBusinessState, h.last, List.filter_append]
    cases hb : frame.business <;> simp [hb]
  below := hbelow

/-- Among the documented states below `6`, the ones that are not `0` are the business
states. -/
theorem Frame.documented.ne_zero_iff (h : frame.documented) (hlt : ¬ frame.state ≥ 6) :
    frame.state ≠ 0 ↔ frame.business = true := by
  unfold Frame.documented at h
  rw [Frame.business, decide_eq_true_iff]
  omega

theorem countP_concat_le (frames : List Frame) (frame : Frame) :
    (frames ++ [frame]).countP Frame.business ≤ frames.countP Frame.business + 1 := by
  rw [List.countP_append, List.countP_singleton]
  split <;> omega

/-- What a call does, in terms of the frames of its window. -/
theorem push_eq (h : Summary config p frames) :
    push config p frame =
      if frame.state ≥ 6 then (clearPending, frame.state)
      else if overdue config frames frame.time then
        (clearPending, if frame.state ≠ 0 then frame.state else lastBusiness frames)
      else if (frames ++ [frame]).countP Frame.business = config.businessThreshold then
        (clearPending, 5)
      else (p.appendPending frame, 0) := by
  -- the count was below the threshold and grows by at most one, so `≥` is `=`
  have hcount : (p.appendPending frame).businessCount =
      (frames ++ [frame]).countP Frame.business := by
    rw [appendPending_businessCount, h.count, List.countP_append, List.countP_singleton]
  have hbelow := h.below
  have hle := countP_concat_le frames frame
  have hfull : (frames ++ [frame]).countP Frame.business ≥ config.businessThreshold ↔
      (frames ++ [frame]).countP Frame.business = config.businessThreshold := by
    omega
  rw [push, h.isExpired, h.foldPending]
  simp only [hcount, hfull]

/-- One call keeps the summary, whatever the state is. -/
theorem push_summary (hm : 1 ≤ config.businessThreshold) (h : Summary config p frames) :
    Summary config (push config p frame).1 (referencePush config frames frame).1 := by
  rw [push_eq h, referencePush]
  split
  · exact .clear hm
  split
  · exact .clear hm
  split
  · exact .clear hm
  case isFalse hfull =>
    have hbelow := h.below
    have hle := countP_concat_le frames frame
    exact h.append (by omega)

/-- One call keeps the summary and answers a documented state like the reference. -/
theorem push_simulates (hm : 1 ≤ config.businessThreshold) (hd : frame.documented)
    (h : Summary config p frames) :
    Summary config (push config p frame).1 (referencePush config frames frame).1 ∧
      (push config p frame).2 = (referencePush config frames frame).2 := by
  refine ⟨push_summary hm h, ?_⟩
  rw [push_eq h, referencePush]
  split
  · rfl
  case isFalse hpass =>
    simp only [hd.ne_zero_iff hpass]
    split
    · rfl
    · split <;> rfl

/-- After the same calls, the members summarise the list of the reference. -/
theorem stateAfter_summary (hm : 1 ≤ config.businessThreshold) (inputs : List Frame) :
    Summary config ((reducer config).stateAfter inputs) ((reference config).stateAfter inputs) := by
  induction inputs using List.reverseRecOn with
  | nil => exact .clear hm
  | append_singleton inputs frame ih =>
      rw [Transducer.stateAfter_concat, Transducer.stateAfter_concat]
      exact push_summary hm ih

/-- The outputs of `push()` are those of the reference. -/
theorem run_eq_reference (hm : 1 ≤ config.businessThreshold) (inputs : List Frame)
    (hd : ∀ frame ∈ inputs, frame.documented) :
    (reducer config).run inputs = (reference config).run inputs :=
  (reducer config).run_eq_of_simulation (reference config) (Summary config) (.clear hm)
    (fun _ _ _ hframe hsum => push_simulates hm hframe hsum) inputs hd

/-! ### The frames of a window -/

/-- Documented states at times that do not go back. -/
def Timed (inputs : List Frame) : Prop :=
  (∀ frame ∈ inputs, frame.documented) ∧
    inputs.Pairwise fun earlier later => earlier.time ≤ later.time

/-- Every frame after the first is less than the window after it. -/
def Near (config : Config) (frames : List Frame) : Prop :=
  ∀ first ∈ frames.head?, ∀ frame ∈ frames.tail, frame.time - first.time < config.window

theorem Near.concat (h : Near config frames) (hover : overdue config frames frame.time = false) :
    Near config (frames ++ [frame]) := by
  intro first hfirst f hf
  cases frames with
  | nil => simp at hf
  | cons a rest =>
      obtain rfl : a = first := by simpa using hfirst
      have hlt : frame.time - a.time < config.window := by simpa [overdue] using hover
      rcases List.mem_append.mp hf with hold | hnew
      · exact h a rfl f hold
      · obtain rfl : f = frame := by simpa using hnew
        exact hlt

/-- What the list `frames` of the reference is once `inputs` are pushed. -/
structure Open (config : Config) (inputs frames : List Frame) : Prop where
  latest : frames <:+ inputs
  near : Near config frames
  /-- Every confirmation is older than the first frame of the list. -/
  fresh : ∀ i : Nat, ((reference config).run inputs)[i]? = some 5 →
    i < inputs.length - frames.length

theorem open_nil (config : Config) (inputs : List Frame) : Open config inputs [] := by
  refine ⟨List.nil_suffix, by simp [Near], ?_⟩
  intro i hi
  have hlt := (List.getElem?_eq_some_iff.mp hi).1
  simpa using hlt

theorem referencePush_open (inputs : List Frame) (frame : Frame)
    (h : Open config inputs ((reference config).stateAfter inputs)) :
    Open config (inputs ++ [frame])
      (referencePush config ((reference config).stateAfter inputs) frame).1 := by
  have hrun := (reference config).run_concat inputs frame
  have hlast : ((reference config).step ((reference config).stateAfter inputs) frame).2 =
      (referencePush config ((reference config).stateAfter inputs) frame).2 := rfl
  revert hlast
  generalize (reference config).stateAfter inputs = frames at *
  unfold referencePush
  split
  · exact fun _ => open_nil config _
  split
  · exact fun _ => open_nil config _
  rename_i hover
  split
  · exact fun _ => open_nil config _
  -- the frame joins the list, and the answer is `0`
  intro hlast
  obtain ⟨before, hbefore⟩ := h.latest
  refine ⟨⟨before, by rw [← List.append_assoc, hbefore]⟩,
    h.near.concat (Bool.eq_false_iff.mpr hover), fun i hi => ?_⟩
  rw [hrun, hlast] at hi
  have hlen : frames.length ≤ inputs.length := h.latest.length_le
  rcases Nat.lt_or_ge i inputs.length with hlt | hge
  · rw [List.getElem?_append_left (by simpa using hlt)] at hi
    have hfresh := h.fresh i hi
    simp only [List.length_append, List.length_singleton]
    omega
  · rw [List.getElem?_append_right (by simpa using hge)] at hi
    have hzero : (0 : Int) = 5 := by simpa using List.mem_of_getElem? hi
    omega

theorem reference_open (config : Config) (inputs : List Frame) :
    Open config inputs ((reference config).stateAfter inputs) :=
  (reference config).stateAfter_invariant (Open config) (open_nil config [])
    referencePush_open inputs

theorem lastBusiness_le (frames : List Frame) : lastBusiness frames ≤ 4 := by
  unfold lastBusiness
  rcases hlast : (frames.filter Frame.business).getLast? with _ | frame
  · simp
  · have hmem := List.mem_of_getLast? hlast
    have hb : 1 ≤ frame.state ∧ frame.state ≤ 4 := by
      simpa [Frame.business] using (List.mem_filter.mp hmem).2
    exact hb.2

/-- The reference answers a documented state with `5` only when the frame completes the
threshold inside the window. -/
theorem referencePush_eq_five (hd : frame.documented)
    (h : (referencePush config frames frame).2 = 5) :
    overdue config frames frame.time = false ∧
      (frames ++ [frame]).countP Frame.business = config.businessThreshold := by
  unfold Frame.documented at hd
  have hlast := lastBusiness_le frames
  unfold referencePush at h
  split at h
  · have : frame.state = 5 := h
    omega
  split at h
  · have : (if frame.business then frame.state else lastBusiness frames) = 5 := h
    split at this <;> omega
  rename_i hover
  split at h
  · rename_i hfull
    exact ⟨Bool.eq_false_iff.mpr hover, hfull⟩
  · cases h

/-- Where the window of the `i`-th call starts: the position of the first frame the
reference has kept, the call's own if it has none. -/
def windowStart (config : Config) (inputs : List Frame) (i : Nat) : Nat :=
  i - ((reference config).stateAfter (inputs.take i)).length

/-- The calls `start..i` justify a confirmation: they are as many business frames as the
threshold asks for, and those after the first are less than the window after it. -/
structure Justified (config : Config) (inputs : List Frame) (start i : Nat) : Prop where
  le : start ≤ i
  count : ((inputs.take (i + 1)).drop start).countP Frame.business = config.businessThreshold
  near : ∀ first, inputs[start]? = some first →
    ∀ frame ∈ (inputs.take (i + 1)).drop (start + 1),
      0 ≤ frame.time - first.time ∧ frame.time - first.time < config.window

theorem time_le_of_mem_tail {first : Frame}
    (h : frames.Pairwise fun earlier later => earlier.time ≤ later.time)
    (hfirst : first ∈ frames.head?) (hf : frame ∈ frames.tail) : first.time ≤ frame.time := by
  cases frames with
  | nil => cases hfirst
  | cons a rest =>
      obtain rfl : a = first := by simpa using hfirst
      exact (List.pairwise_cons.mp h).1 frame hf

/-- Cutting the list of the reference, and the call that follows it, out of the input. -/
theorem drop_windowStart (config : Config) {inputs : List Frame} {i : Nat}
    (hi : inputs[i]? = some frame) :
    (inputs.take (i + 1)).drop (windowStart config inputs i) =
      (reference config).stateAfter (inputs.take i) ++ [frame] := by
  obtain ⟨before, hbefore⟩ := (reference_open config (inputs.take i)).latest
  have hlt := (List.getElem?_eq_some_iff.mp hi).1
  have hlen : before.length + ((reference config).stateAfter (inputs.take i)).length = i := by
    have := congrArg List.length hbefore
    rw [List.length_append, List.length_take] at this
    omega
  have hstart : windowStart config inputs i = before.length := by
    unfold windowStart
    omega
  have htake : inputs.take (i + 1) =
      before ++ ((reference config).stateAfter (inputs.take i) ++ [frame]) := by
    rw [List.take_add_one, hi, Option.toList_some, ← List.append_assoc, hbefore]
  rw [hstart, htake, List.drop_left]

/-- **`StateReducer` has the documented window.** On every sequence of documented states at
non-decreasing times, `push()` answers like the reference. Every `5` stands for exactly
`m` business frames of one window, whose frames after the first are less than `n` after
the first, and no frame of that window is part of an earlier `5`. -/
theorem push_refines_reference (config : Config) (inputs : List Frame)
    (hm : 1 ≤ config.businessThreshold) (h : Timed inputs) :
    (reducer config).run inputs = (reference config).run inputs ∧
      (∀ i : Nat, ((reducer config).run inputs)[i]? = some 5 →
        Justified config inputs (windowStart config inputs i) i) ∧
      ∀ i j : Nat, i < j → ((reducer config).run inputs)[i]? = some 5 →
        ((reducer config).run inputs)[j]? = some 5 → i < windowStart config inputs j := by
  have heq := run_eq_reference hm inputs h.1
  refine ⟨heq, fun i hi => ?_, fun i j hij hi hj => ?_⟩
  · rw [heq, Transducer.getElem?_run] at hi
    obtain ⟨frame, hframe, hfive⟩ := Option.map_eq_some_iff.mp hi
    have hd := h.1 frame (List.mem_of_getElem? hframe)
    obtain ⟨hover, hcount⟩ := referencePush_eq_five hd hfive
    have hcut := drop_windowStart config hframe
    have hle : windowStart config inputs i ≤ i := Nat.sub_le _ _
    refine ⟨hle, by rw [hcut, hcount], ?_⟩
    intro first hfirst f hf
    have hhead : first ∈ ((inputs.take (i + 1)).drop (windowStart config inputs i)).head? := by
      rw [List.head?_drop, List.getElem?_take_of_lt (by omega), hfirst]
      rfl
    rw [← List.tail_drop] at hf
    constructor
    · have hle := time_le_of_mem_tail
        (h.2.sublist ((List.drop_sublist _ _).trans (List.take_sublist _ _))) hhead hf
      omega
    · rw [hcut] at hhead hf
      exact (reference_open config (inputs.take i)).near.concat hover first hhead f hf
  · rw [heq] at hi
    have hlt : j < inputs.length := by
      simpa using (List.getElem?_eq_some_iff.mp hj).1
    have hfresh := (reference_open config (inputs.take j)).fresh i
      (by rw [Transducer.getElem?_run_take _ _ hij, hi])
    rwa [List.length_take, Nat.min_eq_left (Nat.le_of_lt hlt)] at hfresh

/-- Two confirmations, with an idle frame and a pass-through state between them. -/
def twoWindows : List Frame :=
  [⟨1, 0⟩, ⟨0, 100⟩, ⟨2, 300⟩, ⟨3, 400⟩, ⟨6, 500⟩, ⟨4, 600⟩, ⟨1, 600⟩]

theorem push_refines_reference_two_windows :
    (reducer ⟨1000, 2⟩).run twoWindows = [0, 0, 5, 0, 6, 0, 5] ∧
      Justified ⟨1000, 2⟩ twoWindows 5 6 := by
  have h := push_refines_reference ⟨1000, 2⟩ twoWindows (by decide)
    (by unfold Timed Frame.documented; decide)
  exact ⟨by decide, h.2.1 6 (by decide)⟩

/-- A window of zero milliseconds with a threshold of one: the first business frame is
answered `5`, and it is not less than zero after itself. -/
theorem zero_window_confirms :
    Timed [⟨1, 0⟩] ∧ (reducer ⟨0, 1⟩).run [⟨1, 0⟩] = [5] ∧
      ∀ first ∈ [(⟨1, 0⟩ : Frame)], ¬ 1 ≤ [(⟨1, 0⟩ : Frame)].countP fun frame =>
        frame.business && decide (frame.time - first.time < (⟨0, 1⟩ : Config).window) := by
  unfold Timed Frame.documented
  decide

end CppCode.StateReducer
