import CppCode.StateReducer.Window

/-!
# CppCode.StateReducer.Soundness

**What the outputs say, for every `int`.** The interface document lists `0..4` and `6..N`;
`push()` takes the rest as well. A frame with state `5` or below `0` joins a window like an
idle one, and does no harm there. When the window has expired it is answered by itself: then
`5` is not a confirmation, and a negative output is none of the documented ones.
-/

namespace CppCode.StateReducer

variable {config : Config} {inputs frames : List Frame} {frame : Frame} {i : Nat}

/-- The frames since the last clearing event, the `i`-th call's own included. -/
def window (config : Config) (inputs : List Frame) (i : Nat) (frame : Frame) : List Frame :=
  (reference config).stateAfter (inputs.take i) ++ [frame]

/-- As many business frames as the threshold asks for are less than the window after the first
frame. -/
def Confirmed (config : Config) (frames : List Frame) : Prop :=
  ∃ first ∈ frames.head?, config.businessThreshold ≤
    frames.countP fun frame => frame.business && decide (frame.time - first.time < config.window)

/-- What the output of the `i`-th call may say: `5` only if the window is confirmed, and
otherwise `0`, or a business or pass-through state that has been received. -/
structure Sound (config : Config) (inputs : List Frame) (i : Nat) (frame : Frame)
    (output : Int) : Prop where
  confirmed : output = 5 → Confirmed config (window config inputs i frame)
  received : output = 0 ∨ output = 5 ∨
    ∃ f ∈ inputs.take (i + 1), f.state = output ∧ (f.business = true ∨ f.state ≥ 6)

/-- The call does not meet an expired window with a state outside the document, and does not
open a window of no length that it would at once confirm. -/
def Regular (config : Config) (p : Pending) (frame : Frame) : Prop :=
  ¬ (p.isExpired config frame.time = true ∧ (frame.state = 5 ∨ frame.state < 0)) ∧
    ¬ (config.window ≤ 0 ∧ config.businessThreshold = 1 ∧ p.windowStart = none ∧
      frame.business = true)

/-! ### Confirmed windows -/

/-- In a window of positive length every frame of the list counts. -/
theorem confirmed_of_near (hpos : 0 < config.window) (hne : frames ≠ [])
    (hnear : Near config frames)
    (hcount : config.businessThreshold ≤ frames.countP Frame.business) :
    Confirmed config frames := by
  cases frames with
  | nil => exact absurd rfl hne
  | cons first rest =>
      refine ⟨first, rfl, Nat.le_trans hcount (List.countP_mono_left ?_)⟩
      intro f hf hbusiness
      have hlt : f.time - first.time < config.window := by
        rcases List.mem_cons.mp hf with rfl | htail
        · omega
        · exact hnear first rfl f htail
      simp [hbusiness, hlt]

theorem countP_of_confirmed (h : Confirmed config frames) :
    config.businessThreshold ≤ frames.countP Frame.business := by
  obtain ⟨first, -, hcount⟩ := h
  refine Nat.le_trans hcount (List.countP_mono_left ?_)
  intro f _ hf
  exact (Bool.and_eq_true _ _ ▸ hf).1

/-- At times that do not go back, no second frame joins a window of no length. -/
theorem eq_nil_of_not_overdue (hwindow : config.window ≤ 0)
    (htime : (frames ++ [frame]).Pairwise fun earlier later => earlier.time ≤ later.time)
    (hover : overdue config frames frame.time = false) : frames = [] := by
  cases frames with
  | nil => rfl
  | cons first rest =>
      have hle : first.time ≤ frame.time :=
        (List.pairwise_cons.mp htime).1 frame (by simp)
      have hlt : frame.time - first.time < config.window := by simpa [overdue] using hover
      omega

theorem business_range (h : frame.business = true) : 1 ≤ frame.state ∧ frame.state ≤ 4 := by
  simpa [Frame.business] using h

/-- The folded state is `0` or that of a business frame of the list. -/
theorem lastBusiness_cases (frames : List Frame) :
    lastBusiness frames = 0 ∨
      ∃ f ∈ frames, f.state = lastBusiness frames ∧ f.business = true := by
  unfold lastBusiness
  rcases hlast : (frames.filter Frame.business).getLast? with _ | f
  · exact .inl rfl
  · obtain ⟨hmem, hbusiness⟩ := List.mem_filter.mp (List.mem_of_getLast? hlast)
    exact .inr ⟨f, hmem, rfl, hbusiness⟩

/-! ### One call -/

/-- An output that is a received business or pass-through state is sound. -/
theorem Sound.of_received {output : Int} {f : Frame} (hf : f ∈ inputs.take (i + 1))
    (hstate : f.state = output) (hkind : f.business = true ∨ f.state ≥ 6) :
    Sound config inputs i frame output := by
  refine ⟨fun hfive => ?_, .inr (.inr ⟨f, hf, hstate, hkind⟩)⟩
  rcases hkind with hbusiness | hpass
  · have := business_range hbusiness
    omega
  · omega

/-- A `5` in answer to a frame that is not a business frame is not sound: the frames before
it were too few. -/
theorem not_confirmed_of_idle {p : Pending} (h : Summary config p frames)
    (hidle : frame.business = false) : ¬ Confirmed config (frames ++ [frame]) := by
  intro hconfirmed
  have hcount := countP_of_confirmed hconfirmed
  have hbelow := h.below
  rw [List.countP_append, List.countP_singleton, hidle] at hcount
  simp only [Bool.false_eq_true, if_false] at hcount
  omega

section

variable {p : Pending} (hsum : Summary config p ((reference config).stateAfter (inputs.take i)))
include hsum

/-- The answer to an expired window. -/
theorem sound_iff_of_expired (hframe : frame ∈ inputs.take (i + 1)) (hpass : ¬ frame.state ≥ 6)
    (hexp : p.isExpired config frame.time = true) :
    Sound config inputs i frame (if frame.state ≠ 0 then frame.state else
        lastBusiness ((reference config).stateAfter (inputs.take i))) ↔
      Regular config p frame := by
  have hopen : p.windowStart ≠ none := by
    intro hnone
    rw [Pending.isExpired, hnone] at hexp
    cases hexp
  have hregular : Regular config p frame ↔ ¬ (frame.state = 5 ∨ frame.state < 0) := by
    simp [Regular, hexp, hopen]
  have hidle : frame.state = 5 ∨ frame.state < 0 → frame.business = false := by
    intro hstate
    rw [Frame.business, decide_eq_false_iff_not]
    omega
  rw [hregular]
  by_cases hzero : frame.state = 0
  · rw [if_neg (not_not.mpr hzero)]
    refine iff_of_true ?_ (by omega)
    rcases lastBusiness_cases ((reference config).stateAfter (inputs.take i)) with hlast | hlast
    · rw [hlast]
      exact ⟨fun h => by omega, .inl rfl⟩
    · obtain ⟨f, hf, hstate, hbusiness⟩ := hlast
      have hmem : f ∈ inputs.take (i + 1) :=
        List.take_subset_take_left inputs (Nat.le_succ i)
          ((reference_open config (inputs.take i)).latest.subset hf)
      exact .of_received hmem hstate (.inl hbusiness)
  · rw [if_pos hzero]
    by_cases hbusiness : frame.business = true
    · have hrange := business_range hbusiness
      exact iff_of_true (.of_received hframe rfl (.inl hbusiness)) (by omega)
    · have hrange : frame.state = 5 ∨ frame.state < 0 := by
        simp only [Frame.business, decide_eq_true_eq] at hbusiness
        omega
      refine iff_of_false ?_ (not_not.mpr hrange)
      rintro ⟨hconfirmed, hreceived⟩
      rcases hrange with hfive | hneg
      · exact not_confirmed_of_idle hsum (hidle (.inl hfive)) (hconfirmed hfive)
      · obtain h | h | ⟨f, -, hstate, hkind⟩ := hreceived
        · omega
        · omega
        · rcases hkind with hkind | hkind
          · have := business_range hkind
            omega
          · omega

/-- The answer `5` to a frame that completes the threshold. -/
theorem sound_five_iff (hm : 1 ≤ config.businessThreshold)
    (htime : (window config inputs i frame).Pairwise fun earlier later =>
      earlier.time ≤ later.time)
    (hexp : p.isExpired config frame.time = false)
    (hfull : (window config inputs i frame).countP Frame.business = config.businessThreshold) :
    Sound config inputs i frame 5 ↔ Regular config p frame := by
  have hover : overdue config ((reference config).stateAfter (inputs.take i)) frame.time =
      false := by rw [← hsum.isExpired, hexp]
  have hregular : Regular config p frame ↔ ¬ (config.window ≤ 0 ∧
      config.businessThreshold = 1 ∧ p.windowStart = none ∧ frame.business = true) := by
    simp [Regular, hexp]
  rw [hregular]
  by_cases hpos : 0 < config.window
  · have hnear := (reference_open config (inputs.take i)).near.concat hover
    refine iff_of_true ⟨fun _ => ?_, .inr (.inl rfl)⟩ (by omega)
    exact confirmed_of_near hpos (by simp [window]) hnear (Nat.le_of_eq hfull.symm)
  · -- the frame is the first of its window, and it is not less than the window after itself
    have hnil := eq_nil_of_not_overdue (by omega) htime hover
    have hstart : p.windowStart = none := by rw [hsum.start, hnil]; rfl
    rw [window, hnil, List.nil_append] at hfull
    have hbusiness : frame.business = true := by
      by_contra hidle
      rw [List.countP_singleton, if_neg hidle] at hfull
      omega
    rw [List.countP_singleton, if_pos hbusiness] at hfull
    refine iff_of_false ?_ (not_not.mpr ⟨by omega, hfull.symm, hstart, hbusiness⟩)
    rintro ⟨hconfirmed, -⟩
    obtain ⟨first, hfirst, hcount⟩ := hconfirmed rfl
    rw [window, hnil, List.nil_append] at hfirst hcount
    obtain rfl : frame = first := by simpa using hfirst
    rw [List.countP_singleton, Int.sub_self, hbusiness, Bool.true_and,
      if_neg (by simpa using hpos)] at hcount
    omega

end

/-- A call is sound exactly when it is regular. -/
theorem sound_iff_regular (hm : 1 ≤ config.businessThreshold)
    (htime : inputs.Pairwise fun earlier later => earlier.time ≤ later.time)
    (hi : inputs[i]? = some frame) :
    Sound config inputs i frame
        (push config ((reducer config).stateAfter (inputs.take i)) frame).2 ↔
      Regular config ((reducer config).stateAfter (inputs.take i)) frame := by
  have hsum := stateAfter_summary hm (inputs.take i)
  have hframe : frame ∈ inputs.take (i + 1) := by
    rw [List.take_add_one, hi]
    simp
  have hcut := drop_windowStart config hi
  have hwindow : (window config inputs i frame).Pairwise fun earlier later =>
      earlier.time ≤ later.time := by
    rw [window, ← hcut]
    exact htime.sublist ((List.drop_sublist _ _).trans (List.take_sublist _ _))
  rw [push_eq hsum, ← hsum.isExpired]
  split
  case isTrue hpass =>
    refine iff_of_true (.of_received hframe rfl (.inr hpass)) ⟨?_, ?_⟩
    · rintro ⟨-, hstate⟩
      omega
    · rintro ⟨-, -, -, hbusiness⟩
      have := business_range hbusiness
      omega
  case isFalse hpass =>
  split
  case isTrue hexp => exact sound_iff_of_expired hsum hframe hpass hexp
  case isFalse hexp =>
  rw [Bool.not_eq_true] at hexp
  split
  case isTrue hfull => exact sound_five_iff hsum hm hwindow hexp hfull
  case isFalse hfull =>
    refine iff_of_true ⟨fun h => by omega, .inl rfl⟩ ⟨?_, ?_⟩
    · rintro ⟨hexp', -⟩
      rw [hexp] at hexp'
      cases hexp'
    · -- the first frame of a window would have completed a threshold of one
      rintro ⟨-, hone, hnone, hbusiness⟩
      have hnil : (reference config).stateAfter (inputs.take i) = [] := by
        rw [hsum.start, Option.map_eq_none_iff, List.head?_eq_none_iff] at hnone
        exact hnone
      apply hfull
      rw [hnil, List.nil_append, List.countP_singleton, if_pos hbusiness, hone]

/-- **Every output is sound exactly when every call is regular**, on every sequence of `int`
states at non-decreasing times. -/
theorem outputs_sound_iff (config : Config) (inputs : List Frame)
    (hm : 1 ≤ config.businessThreshold)
    (htime : inputs.Pairwise fun earlier later => earlier.time ≤ later.time) :
    (∀ i frame output, inputs[i]? = some frame →
        ((reducer config).run inputs)[i]? = some output →
        Sound config inputs i frame output) ↔
      ∀ i frame, inputs[i]? = some frame →
        Regular config ((reducer config).stateAfter (inputs.take i)) frame := by
  constructor
  · intro hsound i frame hi
    refine (sound_iff_regular hm htime hi).mp (hsound i frame _ hi ?_)
    rw [Transducer.getElem?_run, hi]
    rfl
  · intro hregular i frame output hi houtput
    rw [Transducer.getElem?_run, hi] at houtput
    cases houtput
    exact (sound_iff_regular hm htime hi).mpr (hregular i frame hi)

/-- Undocumented states inside a window. -/
def strayInside : List Frame :=
  [⟨5, 0⟩, ⟨1, 100⟩, ⟨-3, 200⟩, ⟨2, 300⟩]

theorem outputs_sound_strayInside :
    (reducer ⟨1000, 2⟩).run strayInside = [0, 0, 0, 5] ∧
      Sound ⟨1000, 2⟩ strayInside 3 ⟨2, 300⟩ 5 := by
  have hiff := outputs_sound_iff ⟨1000, 2⟩ strayInside (by decide) (by decide)
  refine ⟨by decide, hiff.mpr ?_ 3 ⟨2, 300⟩ 5 (by decide) (by decide)⟩
  intro i frame hi
  have hlt := (List.getElem?_eq_some_iff.mp hi).1
  have hlength : strayInside.length = 4 := rfl
  obtain rfl | rfl | rfl | rfl : i = 0 ∨ i = 1 ∨ i = 2 ∨ i = 3 := by omega
  all_goals
    cases hi
    unfold Regular
    decide

/-- A `5` that meets an expired window. -/
def strayExpired : List Frame :=
  [⟨0, 0⟩, ⟨5, 1000000000⟩]

/-- The `5` is passed on although no business frame has been received. -/
theorem not_sound_strayExpired :
    (reducer ⟨1000, 2⟩).run strayExpired = [0, 5] ∧
      strayExpired.countP Frame.business = 0 ∧
      ¬ Sound ⟨1000, 2⟩ strayExpired 1 ⟨5, 1000000000⟩ 5 := by
  refine ⟨by decide, by decide, ?_⟩
  rintro ⟨hconfirmed, -⟩
  have hcount := countP_of_confirmed (hconfirmed rfl)
  revert hcount
  decide

end CppCode.StateReducer
