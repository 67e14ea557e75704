import Mathlib.Algebra.Group.Nat.Defs
import Mathlib.Logic.Function.Basic
import CppCode.Concurrency.Machine

/-!
# CppCode.LogStruct.Model

The double-buffered binary logger (`utils/log_struct/log_struct.cpp`) as an
interleaving machine: one producer thread that calls `write()` and `flush()` and
finally destroys the object, and one worker that runs `writeToFile()`.

* Every atomic load, store, `test_and_set` and `clear` is one step, in the order
  of the source; so are the plain accesses to the two vectors, which makes it
  possible to say who touches which vector when.
* `has_data_to_write.wait(false)` is a step that is enabled only while the flag
  is set. `notify_one` then has nothing left to do.
* The environment answers through the action: `clock` is a reading of
  `system_clock::now()` (in nanoseconds, any reading, also backwards), `sysWrite`
  the result of `::write`.
* `size_t` arithmetic is modulo `2 ^ 64`. `Config.reserve_ok` is the one thing a
  constructed object promises about its sizes: `vector1_.reserve(byte_size_)` did
  not throw `std::length_error`.

`State.history` is for specifications only: no step reads it.
-/

namespace CppCode.LogStruct

open Concurrency

/-- `SIZE_MAX + 1`. -/
def sizeModulus : Nat := 2 ^ 64

/-- `max_size()` of a vector of bytes (`PTRDIFF_MAX`). -/
def maxSize : Nat := 2 ^ 63 - 1

/-- The constructor's arguments, for a constructor that did not throw. -/
structure Config where
  structSize : Nat
  reverseSize : Nat
  pollingInterval : Nat
  reserve_ok : structSize * reverseSize % sizeModulus ≤ maxSize

/-- `byte_size_`, the product as `size_t` computes it. -/
def Config.byteSize (cfg : Config) : Nat := cfg.structSize * cfg.reverseSize % sizeModulus

theorem Config.byteSize_lt (cfg : Config) : cfg.byteSize < 2 ^ 63 := by
  have h := cfg.reserve_ok
  simp only [maxSize] at h
  simp only [Config.byteSize]
  omega

/-- What a non-null `data` points to: exactly `struct_size_` bytes. -/
abbrev Record (cfg : Config) := { bytes : List UInt8 // bytes.length = cfg.structSize }

/-- The two vectors of the ping-pong buffer. -/
inductive VecId
  | vector1
  | vector2
  deriving Repr, DecidableEq

/-- A public call; `write none` is `write(nullptr)`. -/
inductive Call (cfg : Config)
  | write (data : Option (Record cfg))
  | flush
  deriving DecidableEq

/-- What the history records: calls with their results, and the content of the
buffer each `test_and_set` hands over. -/
inductive Event (cfg : Config)
  | returned (call : Call cfg) (result : Bool)
  | handedOver (bytes : List UInt8)
  deriving DecidableEq

/-- Who called `flush()`, with the locals of the caller that are still live. -/
inductive FlushCaller (cfg : Config)
  | user
  | write (data : Option (Record cfg)) (now : Int)
  | destructor
  deriving DecidableEq

/-- Positions inside `flush()`, named after the access that comes next. -/
inductive FlushPc
  | checkWriting
  | markWriting
  | loadCurrent
  | loadNext (oldCurrent : VecId)
  | storeCurrent (oldCurrent oldNext : VecId)
  | storeNext (oldCurrent : VecId)
  | signal
  | notify
  deriving Repr, DecidableEq

/-- Positions inside `write()`. -/
inductive WritePc (cfg : Config)
  | loadCurrent (data : Option (Record cfg))
  | checkCapacity (data : Option (Record cfg)) (curr : VecId)
  | insert (record : Record cfg) (curr : VecId)
  | readClock (data : Option (Record cfg)) (curr : VecId)
  | checkThreshold (data : Option (Record cfg)) (curr : VecId) (now : Int)
  deriving DecidableEq

/-- Positions inside `~LogStruct()`; `requestStop` and `join` are the destructor
of the member `write_thread_`, which runs after the destructor's body. -/
inductive DestroyPc
  | storeRunning
  | close
  | deleteBuffer1
  | deleteBuffer2
  | requestStop
  | join
  | destroyed
  deriving Repr, DecidableEq

/-- The producer thread: between calls, or inside one. -/
inductive Producer (cfg : Config)
  | idle
  | write (pc : WritePc cfg)
  | flush (caller : FlushCaller cfg) (pc : FlushPc)
  | destroy (pc : DestroyPc)
  deriving DecidableEq

/-- The worker thread, at each position of `writeToFile()`. -/
inductive Worker
  /-- The first half of the loop condition, `!st.stop_requested()`. -/
  | loopHead
  /-- Its second half, `has_data_to_write.test()`. -/
  | loopTest
  | wait
  | loadTarget
  | inspect (target : VecId)
  | writing (target : VecId) (need written : Nat)
  | resize (target : VecId) (written : Nat)
  | storeWriting
  | clearFlag
  | loadRunning
  | loadCurrent
  | done
  deriving Repr, DecidableEq

/-- The object, its two threads and the file. -/
structure State (cfg : Config) where
  isRunning : Bool
  isWriting : Bool
  hasDataToWrite : Bool
  lastWriteTime : Int
  vectors : VecId → List UInt8
  currentVector : VecId
  nextVector : VecId
  stopRequested : Bool
  fdOpen : Bool
  /-- `delete[] raw_buffer1_`, `delete[] raw_buffer2_` have run. -/
  released : VecId → Bool
  /-- The bytes appended to the file since it was opened. -/
  file : List UInt8
  producer : Producer cfg
  worker : Worker
  history : List (Event cfg)

/-- What can happen next: the producer starts a call or takes its next step
(`clock` when that step reads the clock), or the worker takes its next step
(`sysWrite` when that step is the call of `::write`). -/
inductive Action (cfg : Config)
  | call (c : Call cfg)
  | destroy
  | producer
  | clock (now : Int)
  | worker
  | sysWrite (result : Int)
  deriving DecidableEq

variable {cfg : Config}

/-- A constructed object: the worker has just started. -/
def State.start (cfg : Config) (now : Int) : State cfg where
  isRunning := true
  isWriting := false
  hasDataToWrite := false
  lastWriteTime := now
  vectors := fun _ => []
  currentVector := .vector1
  nextVector := .vector2
  stopRequested := false
  fdOpen := true
  released := fun _ => false
  file := []
  producer := .idle
  worker := .loopHead
  history := []

/-! ### The producer -/

/-- `write()` returns `result`. -/
def returnWrite (s : State cfg) (data : Option (Record cfg)) (result : Bool) : State cfg :=
  { s with producer := .idle, history := s.history ++ [.returned (.write data) result] }

/-- `flush()` returns `result` to its caller: `write()` stores the time of a
successful flush and returns true either way, the destructor goes on to `::close`. -/
def returnFlush (s : State cfg) (result : Bool) : FlushCaller cfg → State cfg
  | .user => { s with producer := .idle, history := s.history ++ [.returned .flush result] }
  | .write data now =>
      returnWrite { s with lastWriteTime := if result then now else s.lastWriteTime } data true
  | .destructor => { s with producer := .destroy .close }

/-- One step of `LogStruct::flush`. -/
def flushStep (s : State cfg) (caller : FlushCaller cfg) : FlushPc → State cfg
  | .checkWriting =>
      if s.isWriting then returnFlush s false caller
      else { s with producer := .flush caller .markWriting }
  | .markWriting => { s with isWriting := true, producer := .flush caller .loadCurrent }
  | .loadCurrent => { s with producer := .flush caller (.loadNext s.currentVector) }
  | .loadNext oldCurrent =>
      { s with producer := .flush caller (.storeCurrent oldCurrent s.nextVector) }
  | .storeCurrent oldCurrent oldNext =>
      { s with currentVector := oldNext, producer := .flush caller (.storeNext oldCurrent) }
  | .storeNext oldCurrent =>
      { s with nextVector := oldCurrent, producer := .flush caller .signal }
  | .signal =>
      { s with
        hasDataToWrite := true
        producer := .flush caller .notify
        history := s.history ++ [.handedOver (s.vectors s.nextVector)] }
  | .notify => returnFlush s true caller

/-- The capacity check of `write()`: `curr->size() + struct_size_ > byte_size_`. -/
def overCapacity (s : State cfg) (curr : VecId) : Bool :=
  ((s.vectors curr).length + cfg.structSize) % sizeModulus > cfg.byteSize

/-- The threshold check of `write()`: the polling interval (milliseconds, the
clock counts nanoseconds) has passed, or the buffer is full. -/
def thresholdReached (s : State cfg) (curr : VecId) (now : Int) : Bool :=
  now - s.lastWriteTime ≥ cfg.pollingInterval * 1000000 ||
    (s.vectors curr).length ≥ cfg.byteSize

/-- One step of `LogStruct::write`, except the one that reads the clock. -/
def writeStep (s : State cfg) : WritePc cfg → Option (State cfg)
  | .loadCurrent data =>
      some { s with producer := .write (.checkCapacity data s.currentVector) }
  | .checkCapacity none curr => some { s with producer := .write (.readClock none curr) }
  | .checkCapacity (some record) curr =>
      if overCapacity s curr then some (returnWrite s (some record) false)
      else some { s with producer := .write (.insert record curr) }
  | .insert record curr =>
      some { s with
        vectors := Function.update s.vectors curr (s.vectors curr ++ record.val)
        producer := .write (.readClock (some record) curr) }
  | .readClock _ _ => none
  | .checkThreshold data curr now =>
      if thresholdReached s curr now then
        some { s with producer := .flush (.write data now) .checkWriting }
      else some (returnWrite s data true)

/-- One step of `LogStruct::~LogStruct` and of the destructor of `write_thread_`;
`join` waits for the worker to leave `writeToFile()`. -/
def destroyStep (s : State cfg) : DestroyPc → Option (State cfg)
  | .storeRunning =>
      some { s with isRunning := false, producer := .flush .destructor .checkWriting }
  | .close => some { s with fdOpen := false, producer := .destroy .deleteBuffer1 }
  | .deleteBuffer1 =>
      some { s with
        released := Function.update s.released .vector1 true
        producer := .destroy .deleteBuffer2 }
  | .deleteBuffer2 =>
      some { s with
        released := Function.update s.released .vector2 true
        producer := .destroy .requestStop }
  | .requestStop => some { s with stopRequested := true, producer := .destroy .join }
  | .join =>
      if s.worker = .done then some { s with producer := .destroy .destroyed } else none
  | .destroyed => none

/-- The producer's next step, when it needs no answer from the environment. -/
def producerStep (s : State cfg) : Option (State cfg) :=
  match s.producer with
  | .idle => none
  | .write pc => writeStep s pc
  | .flush caller pc => some (flushStep s caller pc)
  | .destroy pc => destroyStep s pc

/-! ### The worker -/

/-- One step of `LogStruct::writeToFile`, except the call of `::write`. -/
def writeToFileStep (s : State cfg) : Option (State cfg) :=
  match s.worker with
  | .loopHead => some { s with worker := if s.stopRequested then .loopTest else .wait }
  | .loopTest => some { s with worker := if s.hasDataToWrite then .wait else .done }
  | .wait => if s.hasDataToWrite then some { s with worker := .loadTarget } else none
  | .loadTarget => some { s with worker := .inspect s.nextVector }
  | .inspect target =>
      some { s with
        worker :=
          if (s.vectors target).isEmpty then .storeWriting
          else .writing target (s.vectors target).length 0 }
  | .writing target need written =>
      if written < need then none else some { s with worker := .resize target written }
  | .resize target _ =>
      some { s with vectors := Function.update s.vectors target [], worker := .storeWriting }
  | .storeWriting => some { s with isWriting := false, worker := .clearFlag }
  | .clearFlag => some { s with hasDataToWrite := false, worker := .loadRunning }
  | .loadRunning => some { s with worker := if s.isRunning then .loopHead else .loadCurrent }
  | .loadCurrent =>
      some { s with
        worker := if (s.vectors s.currentVector).isEmpty then .done else .loopHead }
  | .done => none

/-- The call of `::write` in the inner loop. A result never exceeds the requested
size, a closed descriptor gives an error, and an error leaves the loop. -/
def sysWriteStep (s : State cfg) (result : Int) : Option (State cfg) :=
  match s.worker with
  | .writing target need written =>
      if written < need ∧ result ≤ (need - written : Nat) ∧ (s.fdOpen = true ∨ result < 0) then
        if result < 0 then some { s with worker := .resize target written }
        else
          some { s with
            file := s.file ++ ((s.vectors target).drop written).take result.toNat
            worker := .writing target need (written + result.toNat) }
      else none
  | _ => none

/-- One step of the whole system. -/
def step (s : State cfg) : Action cfg → Option (State cfg)
  | .call c =>
      match s.producer, c with
      | .idle, .write data => some { s with producer := .write (.loadCurrent data) }
      | .idle, .flush => some { s with producer := .flush .user .checkWriting }
      | _, _ => none
  | .destroy =>
      match s.producer with
      | .idle => some { s with producer := .destroy .storeRunning }
      | _ => none
  | .producer => producerStep s
  | .clock now =>
      match s.producer with
      | .write (.readClock data curr) =>
          some { s with producer := .write (.checkThreshold data curr now) }
      | _ => none
  | .worker => writeToFileStep s
  | .sysWrite result => sysWriteStep s result

/-- The logger as a machine, from its construction at time `now`. -/
def machine (cfg : Config) (now : Int) : Machine (State cfg) (Action cfg) where
  init := State.start cfg now
  step := step

/-! ### Observing a state -/

/-- The contents of the active vector. -/
def active (s : State cfg) : List UInt8 := s.vectors s.currentVector

/-- The producer is inside `write()`, or in the `flush()` it called. -/
def Producer.inWrite : Producer cfg → Bool
  | .write _ | .flush (.write _ _) _ => true
  | _ => false

/-! ### What a step leaves alone

Outside `flush()` the producer touches neither the flags nor the pointers nor the
file: `Frame s s'` says so. -/

/-- The two states agree on the flags, the pointers, the file and the worker. -/
structure Frame (s s' : State cfg) : Prop where
  isWriting : s'.isWriting = s.isWriting
  hasDataToWrite : s'.hasDataToWrite = s.hasDataToWrite
  currentVector : s'.currentVector = s.currentVector
  nextVector : s'.nextVector = s.nextVector
  file : s'.file = s.file
  worker : s'.worker = s.worker

theorem returnFlush_frame (s : State cfg) (result : Bool) (caller : FlushCaller cfg) :
    Frame s (returnFlush s result caller) := by
  cases caller <;> exact ⟨rfl, rfl, rfl, rfl, rfl, rfl⟩

theorem writeStep_frame {s s' : State cfg} {pc : WritePc cfg} (hs : writeStep s pc = some s') :
    Frame s s' := by
  cases pc with
  | loadCurrent data =>
      obtain rfl := Option.some.inj hs
      exact ⟨rfl, rfl, rfl, rfl, rfl, rfl⟩
  | checkCapacity data curr =>
      cases data with
      | none =>
          obtain rfl := Option.some.inj hs
          exact ⟨rfl, rfl, rfl, rfl, rfl, rfl⟩
      | some record =>
          simp only [writeStep] at hs
          split at hs <;> obtain rfl := Option.some.inj hs <;> exact ⟨rfl, rfl, rfl, rfl, rfl, rfl⟩
  | insert record curr =>
      obtain rfl := Option.some.inj hs
      exact ⟨rfl, rfl, rfl, rfl, rfl, rfl⟩
  | readClock data curr => cases hs
  | checkThreshold data curr now =>
      simp only [writeStep] at hs
      split at hs <;> obtain rfl := Option.some.inj hs <;> exact ⟨rfl, rfl, rfl, rfl, rfl, rfl⟩

theorem destroyStep_frame {s s' : State cfg} {pc : DestroyPc} (hs : destroyStep s pc = some s') :
    Frame s s' := by
  cases pc with
  | storeRunning | close | deleteBuffer1 | deleteBuffer2 | requestStop =>
      obtain rfl := Option.some.inj hs
      exact ⟨rfl, rfl, rfl, rfl, rfl, rfl⟩
  | join =>
      simp only [destroyStep, Option.ite_none_right_eq_some, Option.some.injEq] at hs
      obtain ⟨-, rfl⟩ := hs
      exact ⟨rfl, rfl, rfl, rfl, rfl, rfl⟩
  | destroyed => cases hs

/-! ### Who moved

A step is one move of one source function. `step_moved` inverts `step` once, and
`writeToFileStep_moved`, `sysWriteStep_moved` do the same for the worker's two
kinds of steps; every invariant is then proved function by function. -/

/-- The ways in which the worker moves from `s` without calling `::write`. -/
inductive WorkerMoved (s : State cfg) : State cfg → Prop
  | loopHead (hw : s.worker = .loopHead) :
      WorkerMoved s { s with worker := if s.stopRequested then .loopTest else .wait }
  | loopTest (hw : s.worker = .loopTest) :
      WorkerMoved s { s with worker := if s.hasDataToWrite then .wait else .done }
  | wake (hw : s.worker = .wait) (hf : s.hasDataToWrite = true) :
      WorkerMoved s { s with worker := .loadTarget }
  | loadTarget (hw : s.worker = .loadTarget) :
      WorkerMoved s { s with worker := .inspect s.nextVector }
  | inspectEmpty {target : VecId} (hw : s.worker = .inspect target)
      (he : s.vectors target = []) : WorkerMoved s { s with worker := .storeWriting }
  | inspectFull {target : VecId} (hw : s.worker = .inspect target)
      (he : s.vectors target ≠ []) :
      WorkerMoved s { s with worker := .writing target (s.vectors target).length 0 }
  | written {target : VecId} {need written : Nat} (hw : s.worker = .writing target need written)
      (hge : need ≤ written) : WorkerMoved s { s with worker := .resize target written }
  | resize {target : VecId} {written : Nat} (hw : s.worker = .resize target written) :
      WorkerMoved s
        { s with vectors := Function.update s.vectors target [], worker := .storeWriting }
  | storeWriting (hw : s.worker = .storeWriting) :
      WorkerMoved s { s with isWriting := false, worker := .clearFlag }
  | clearFlag (hw : s.worker = .clearFlag) :
      WorkerMoved s { s with hasDataToWrite := false, worker := .loadRunning }
  | loadRunning (hw : s.worker = .loadRunning) :
      WorkerMoved s { s with worker := if s.isRunning then .loopHead else .loadCurrent }
  | loadCurrent (hw : s.worker = .loadCurrent) :
      WorkerMoved s
        { s with
          worker := if (s.vectors s.currentVector).isEmpty then .done else .loopHead }

theorem writeToFileStep_moved {s s' : State cfg} (hs : writeToFileStep s = some s') :
    WorkerMoved s s' := by
  unfold writeToFileStep at hs
  cases hw : s.worker with
  | loopHead =>
      simp only [hw, Option.some.injEq] at hs
      exact hs ▸ .loopHead hw
  | loopTest =>
      simp only [hw, Option.some.injEq] at hs
      exact hs ▸ .loopTest hw
  | wait =>
      simp only [hw, Option.ite_none_right_eq_some, Option.some.injEq] at hs
      obtain ⟨hf, rfl⟩ := hs
      exact .wake hw hf
  | loadTarget =>
      simp only [hw, Option.some.injEq] at hs
      exact hs ▸ .loadTarget hw
  | inspect target =>
      simp only [hw, Option.some.injEq] at hs
      by_cases he : s.vectors target = []
      · simp only [he, List.isEmpty_nil, if_true] at hs
        exact hs ▸ .inspectEmpty hw he
      · simp only [List.isEmpty_iff, he, if_false] at hs
        exact hs ▸ .inspectFull hw he
  | writing target need written =>
      simp only [hw, Option.ite_none_left_eq_some, Option.some.injEq] at hs
      obtain ⟨hge, rfl⟩ := hs
      exact .written hw (Nat.le_of_not_lt hge)
  | resize target written =>
      simp only [hw, Option.some.injEq] at hs
      exact hs ▸ .resize hw
  | storeWriting =>
      simp only [hw, Option.some.injEq] at hs
      exact hs ▸ .storeWriting hw
  | clearFlag =>
      simp only [hw, Option.some.injEq] at hs
      exact hs ▸ .clearFlag hw
  | loadRunning =>
      simp only [hw, Option.some.injEq] at hs
      exact hs ▸ .loadRunning hw
  | loadCurrent =>
      simp only [hw, Option.some.injEq] at hs
      exact hs ▸ .loadCurrent hw
  | done => simp [hw] at hs

/-- Inverting a call of `::write`: it failed and ends the inner loop, or it
appended the next `n` bytes of the target. -/
theorem sysWriteStep_moved {s s' : State cfg} {result : Int}
    (hs : sysWriteStep s result = some s') :
    ∃ target need written, s.worker = .writing target need written ∧ written < need ∧
      ((result < 0 ∧ s' = { s with worker := .resize target written }) ∨
        ∃ n : Nat, result = n ∧ n ≤ need - written ∧ s.fdOpen = true ∧
          s' = { s with
            file := s.file ++ ((s.vectors target).drop written).take n
            worker := .writing target need (written + n) }) := by
  unfold sysWriteStep at hs
  cases hw : s.worker with
  | writing target need written =>
      simp only [hw, Option.ite_none_right_eq_some] at hs
      obtain ⟨⟨hlt, hle, hfd⟩, hs⟩ := hs
      refine ⟨target, need, written, rfl, hlt, ?_⟩
      by_cases hneg : result < 0
      · simp only [hneg, if_true, Option.some.injEq] at hs
        exact .inl ⟨hneg, hs.symm⟩
      · simp only [hneg, if_false, Option.some.injEq] at hs
        exact .inr ⟨result.toNat, by omega, by omega, hfd.resolve_right hneg, hs.symm⟩
  | _ => simp [hw] at hs

/-- The ways in which the system moves from `s`. -/
inductive Moved (s : State cfg) : Action cfg → State cfg → Prop
  | callWrite (data : Option (Record cfg)) (hp : s.producer = .idle) :
      Moved s (.call (.write data)) { s with producer := .write (.loadCurrent data) }
  | callFlush (hp : s.producer = .idle) :
      Moved s (.call .flush) { s with producer := .flush .user .checkWriting }
  | callDestroy (hp : s.producer = .idle) :
      Moved s .destroy { s with producer := .destroy .storeRunning }
  | clock {data : Option (Record cfg)} {curr : VecId} (now : Int)
      (hp : s.producer = .write (.readClock data curr)) :
      Moved s (.clock now) { s with producer := .write (.checkThreshold data curr now) }
  | write {pc : WritePc cfg} {s' : State cfg} (hp : s.producer = .write pc)
      (h : writeStep s pc = some s') : Moved s .producer s'
  | flush {caller : FlushCaller cfg} {pc : FlushPc} (hp : s.producer = .flush caller pc) :
      Moved s .producer (flushStep s caller pc)
  | destroy {pc : DestroyPc} {s' : State cfg} (hp : s.producer = .destroy pc)
      (h : destroyStep s pc = some s') : Moved s .producer s'
  | worker {s' : State cfg} (h : WorkerMoved s s') : Moved s .worker s'
  | sysWrite {result : Int} {s' : State cfg} (h : sysWriteStep s result = some s') :
      Moved s (.sysWrite result) s'

theorem step_moved {s s' : State cfg} {a : Action cfg} (hs : step s a = some s') :
    Moved s a s' := by
  cases a with
  | call c =>
      cases hp : s.producer with
      | idle =>
          cases c with
          | write data =>
              simp only [step, hp, Option.some.injEq] at hs
              exact hs ▸ .callWrite data hp
          | flush =>
              simp only [step, hp, Option.some.injEq] at hs
              exact hs ▸ .callFlush hp
      | _ => simp [step, hp] at hs
  | destroy =>
      cases hp : s.producer with
      | idle =>
          simp only [step, hp, Option.some.injEq] at hs
          exact hs ▸ .callDestroy hp
      | _ => simp [step, hp] at hs
  | clock now =>
      cases hp : s.producer with
      | write pc =>
          cases pc with
          | readClock data curr =>
              simp only [step, hp, Option.some.injEq] at hs
              exact hs ▸ .clock now hp
          | _ => simp [step, hp] at hs
      | _ => simp [step, hp] at hs
  | producer =>
      simp only [step, producerStep] at hs
      cases hp : s.producer with
      | idle => simp [hp] at hs
      | write pc => exact .write hp (by simpa [hp] using hs)
      | flush caller pc =>
          simp only [hp, Option.some.injEq] at hs
          exact hs ▸ .flush hp
      | destroy pc => exact .destroy hp (by simpa [hp] using hs)
  | worker => exact .worker (writeToFileStep_moved hs)
  | sysWrite result => exact .sysWrite hs

/-! ### Runs on one-byte buffers -/

/-- Buffers that hold a single one-byte record. -/
def oneByte : Config := ⟨1, 1, 1000, by decide⟩

theorem oneByte_length (b : UInt8) : [b].length = oneByte.structSize := rfl

/-- A `write()` of `b` that fills the buffer and hands it over. -/
def writeAndFlush (b : UInt8) : List (Action oneByte) :=
  [.call (.write (some ⟨[b], oneByte_length b⟩)), .producer, .producer, .producer, .clock 0] ++
    List.replicate 9 .producer

/-- The worker from its loop head to `is_writing_.store(false)`, for a full buffer. -/
def drain : List (Action oneByte) :=
  [.worker, .worker, .worker, .worker, .sysWrite 1, .worker, .worker, .worker]

end CppCode.LogStruct
