import CppCode.Transducer.Basic

/-!
# CppCode.StateReducer.Model

`StateReducer` (`stand_cpp/018.check_state/018.check_state.cpp`): the confirmation window
over the states that are pushed, each with the time its `now_provider_` gives.

Time points and durations are integers of nanoseconds; the window is given in
milliseconds, as in the constructor. An overflow of their 64-bit representation is
undefined in the source and not modelled. `business_count_` stays below the threshold
between two calls, so it cannot wrap.
-/

namespace CppCode.StateReducer

/-- The arguments of the constructor. -/
structure Config where
  /-- `confirm_window_`, in milliseconds. -/
  confirmWindow : Int
  businessThreshold : Nat

/-- `confirm_window_` in the unit of the clock. -/
def Config.window (config : Config) : Int :=
  config.confirmWindow * 1000000

/-- A call of `push()`: its argument and the time of the call. -/
structure Frame where
  state : Int
  time : Int
  deriving DecidableEq

/-- A state in `1..4`. -/
def Frame.business (frame : Frame) : Bool :=
  decide (1 ≤ frame.state ∧ frame.state ≤ 4)

/-- The members that change. -/
structure Pending where
  windowStart : Option Int
  businessCount : Nat
  lastBusinessState : Option Int
  deriving DecidableEq

def clearPending : Pending :=
  { windowStart := none, businessCount := 0, lastBusinessState := none }

def Pending.appendPending (p : Pending) (frame : Frame) : Pending :=
  let p := if p.windowStart.isSome then p else { p with windowStart := some frame.time }
  if frame.business then
    { p with businessCount := p.businessCount + 1, lastBusinessState := some frame.state }
  else p

def Pending.isExpired (p : Pending) (config : Config) (now : Int) : Bool :=
  match p.windowStart with
  | none => false
  | some start => decide (now - start ≥ config.window)

def Pending.foldPending (p : Pending) : Int :=
  p.lastBusinessState.getD 0

/-- The source's last line asks again whether the window had expired. It cannot have: the
branch that says so has returned. -/
def push (config : Config) (p : Pending) (frame : Frame) : Pending × Int :=
  if frame.state ≥ 6 then (clearPending, frame.state)
  else if p.isExpired config frame.time then
    (clearPending, if frame.state ≠ 0 then frame.state else p.foldPending)
  else
    let p := p.appendPending frame
    if p.businessCount ≥ config.businessThreshold then (clearPending, 5) else (p, 0)

/-- A `StateReducer` from its construction on. -/
def reducer (config : Config) : Transducer Pending Frame Int :=
  { initial := clearPending, step := push config }

/-! ### What a call adds to the window -/

@[simp] theorem appendPending_businessCount (p : Pending) (frame : Frame) :
    (p.appendPending frame).businessCount =
      p.businessCount + if frame.business then 1 else 0 := by
  unfold Pending.appendPending
  split <;> split <;> simp_all

@[simp] theorem appendPending_lastBusinessState (p : Pending) (frame : Frame) :
    (p.appendPending frame).lastBusinessState =
      if frame.business then some frame.state else p.lastBusinessState := by
  unfold Pending.appendPending
  split <;> split <;> simp_all

@[simp] theorem appendPending_windowStart (p : Pending) (frame : Frame) :
    (p.appendPending frame).windowStart = some (p.windowStart.getD frame.time) := by
  unfold Pending.appendPending
  rcases hstart : p.windowStart with _ | start
  · simp only [Option.isSome_none, Bool.false_eq_true, if_false]
    split <;> rfl
  · simp only [Option.isSome_some, if_true]
    split <;> exact hstart

end CppCode.StateReducer
