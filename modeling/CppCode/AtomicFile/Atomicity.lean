import CppCode.Concurrency.Slots
import CppCode.AtomicFile.Stage

/-!
# CppCode.AtomicFile.Atomicity

A single call of `atomicWriteFile()` replaces the file at its path in one step or not at
all (`write_atomic`), unless the temporary name is a second name of that very file.

Several calls on one path share the temporary name. They stay atomic as long as none opens
it while another one holds it (`Exclusive`, `writers_atomic`); the code does nothing to
that end, and without it an unfinished file is renamed over the path
(`second_writer_truncates`).
-/

namespace CppCode.AtomicFile

open Concurrency Posix

/-! ### One call -/

/-- The state of a run with one call: the path holds the data from the rename on, and what
it held before until then. -/
structure Alone (fs₀ : FileSystem Path) (request : Request) (fs : FileSystem Path) (c : Call) :
    Prop where
  called : c.request = request
  stage : Stage fs c
  apart : Apart fs request.path
  read : fs.read request.path =
    if c.pc.committed then some request.data else fs₀.read request.path
  /-- The destructor has left no temporary file behind. -/
  clean : ∀ result, c.pc = .returned result → fs.dir request.path.temp = none

theorem Moved.clean {fs fs' : FileSystem Path} {c c' : Call} (hm : Moved fs c fs' c')
    {result : Bool} (hr : c'.pc = .returned result) : fs'.dir c.writer.path.temp = none := by
  cases hm with
  | tempGone hpc ht => exact ht
  | removes hpc => exact fs.dir_unlink_self _
  | @renames dirFd | @renameFails dirFd => cases dirFd <;> cases hr
  | writesOut hpc hf =>
      obtain ⟨_, hpc'⟩ | hpc' | ⟨_, hpc'⟩ := Pc.inStream_cases hpc <;>
        cases hpc'.symm.trans hr
  | _ => cases hr

theorem Alone.moved {fs₀ fs fs' : FileSystem Path} {request : Request} {c c' : Call}
    (h : Alone fs₀ request fs c) (hm : Moved fs c fs' c') : Alone fs₀ request fs' c' := by
  obtain rfl := h.called
  have ha : Apart fs c.writer.path := h.apart
  refine ⟨hm.request, hm.stage h.stage ha, hm.effect.apart ha, ?_, fun _ hr => hm.clean hr⟩
  rcases hm.effect.read h.stage ha with ⟨hsame, hb⟩ | ⟨hdata, hb⟩
  · rw [hb]
    exact hsame.trans h.read
  · rw [hb]
    exact hdata

theorem reachable_alone {fs : FileSystem Path} {request : Request} {s : State}
    (ha : Apart fs request.path)
    (h : (machine fs [request]).Reachable Machine.free s) :
    ∃ c, s.calls = [c] ∧ Alone fs request s.fs c := by
  refine h.invariant (I := fun s => ∃ c, s.calls = [c] ∧ Alone fs request s.fs c)
    ⟨request.start, rfl, rfl, ⟨rfl, rfl⟩, ha, rfl, nofun⟩ ?_
  intro s a s' _ hi _ hs
  obtain ⟨c, hcalls, halone⟩ := hi
  obtain ⟨d, c', hd, hstep, hset⟩ := step_eq_some hs
  rw [hcalls] at hd hset
  rcases ha' : a.i with _ | i
  · rw [ha'] at hd hset
    obtain rfl : c = d := by simpa using hd
    exact ⟨c', hset, halone.moved (callStep_moved hstep)⟩
  · rw [ha'] at hd
    simp at hd

/-- **`atomicWriteFile()` is atomic.** For one call, whatever fails and wherever the process
stops: the path holds what it held before or exactly the data; once the call has returned it
holds the data if the result is `true` and the old content if it is `false`, and the
temporary name is gone. The temporary name must not be a second name of the file at the
path to begin with. -/
theorem write_atomic (fs : FileSystem Path) (path : Path) (data : List UInt8)
    (ha : Apart fs path) {s : State}
    (h : (machine fs [⟨path, data⟩]).Reachable Machine.free s) :
    (s.fs.read path = fs.read path ∨ s.fs.read path = some data) ∧
      ∃ c, s.calls = [c] ∧ ∀ result, c.pc = .returned result →
        s.fs.read path = (if result then some data else fs.read path) ∧
          s.fs.read path.temp = none := by
  obtain ⟨c, hcalls, halone⟩ := reachable_alone ha h
  have hread : s.fs.read path = if c.pc.committed then some data else fs.read path := halone.read
  constructor
  · cases hc : c.pc.committed with
    | true =>
        rw [hc] at hread
        exact .inr hread
    | false =>
        rw [hc] at hread
        exact .inl hread
  · refine ⟨c, hcalls, fun result hr => ⟨?_, ?_⟩⟩
    · rw [hread, hr]
      rfl
    · have hclean : s.fs.dir path.temp = none := halone.clean result hr
      rw [FileSystem.read, hclean]
      rfl

/-- A file system with one file, under the given names. -/
def oneFile (names : List Path) (bytes : List UInt8) : FileSystem Path where
  dir := fun name => if name ∈ names then some 0 else none
  content := fun _ => bytes
  next := 1
  bounded := by
    intro name file hfile
    split at hfile
    · obtain rfl := Option.some.inj hfile
      exact Nat.zero_lt_one
    · cases hfile

/-- The path `etc/conf`. -/
def conf : Path := ⟨"etc", "conf"⟩

/-- The `i`-th call, with `n` bytes to write, when every step succeeds. -/
def succeeds (i n : Nat) : List Action :=
  [⟨i, .ok⟩, ⟨i, .ok⟩, ⟨i, .accept n⟩, ⟨i, .ok⟩, ⟨i, .writeOut n⟩, ⟨i, .ok⟩, ⟨i, .ok⟩, ⟨i, .ok⟩,
    ⟨i, .ok⟩, ⟨i, .ok⟩, ⟨i, .ok⟩, ⟨i, .ok⟩, ⟨i, .ok⟩, ⟨i, .ok⟩, ⟨i, .ok⟩]

/-- Two bytes over a file that has one. -/
theorem write_atomic_replaces :
    ∃ s c, (machine (oneFile [conf] [7]) [⟨conf, [1, 2]⟩]).Reachable Machine.free s ∧
      s.calls = [c] ∧ c.pc = .returned true ∧ s.fs.read conf = some [1, 2] ∧
      s.fs.read conf.temp = none := by
  obtain ⟨s, hs, hp⟩ := Machine.reachable_of_exec
    (M := machine (oneFile [conf] [7]) [⟨conf, [1, 2]⟩]) (l := succeeds 0 2)
    (p := fun s => s.calls.all fun c => c.pc == .returned true) (by decide)
  have hapart : Apart (oneFile [conf] [7]) conf := by
    intro file hfile
    simp [oneFile, conf, Path.temp] at hfile
  obtain ⟨-, c, hcalls, hreturn⟩ := write_atomic _ _ _ hapart hs
  have hpc : c.pc = .returned true := by simpa [hcalls] using hp
  obtain ⟨hread, htemp⟩ := hreturn true hpc
  exact ⟨s, c, hs, hcalls, hpc, hread, htemp⟩

/-- `etc/conf.tmp` is a hard link to `etc/conf`: opening it empties the file at the path. -/
theorem linked_temp_truncates :
    ∃ s, (machine (oneFile [conf, conf.temp] [7]) [⟨conf, [1, 2]⟩]).Reachable Machine.free s ∧
      (oneFile [conf, conf.temp] [7]).read conf = some [7] ∧ s.fs.read conf = some [] := by
  obtain ⟨s, hs, hp⟩ := Machine.reachable_of_exec
    (M := machine (oneFile [conf, conf.temp] [7]) [⟨conf, [1, 2]⟩]) (l := [⟨0, .ok⟩, ⟨0, .ok⟩])
    (p := fun s => s.fs.read conf == some []) (by decide)
  exact ⟨s, hs, by decide, by simpa using hp⟩

/-! ### Several calls on one path -/

/-- The step is an `fopen()` of the temporary file that succeeds. -/
def opensTemp (s : State) (a : Action) : Bool :=
  a.outcome == .ok && s.calls[a.i]?.any fun c => c.pc == .fopen

/-- Nobody opens the temporary file while a call has a stream on it or is about to rename
it. -/
def Exclusive : Guard State Action := fun s a =>
  opensTemp s a = true → ∀ c ∈ s.calls, c.holds = false

instance (s : State) (a : Action) : Decidable (Exclusive s a) :=
  inferInstanceAs (Decidable (opensTemp s a = true → ∀ c ∈ s.calls, c.holds = false))

/-- A step of a call that does not hold the temporary file and does not open it takes away
its name at most. -/
theorem callStep_quiet {fs fs' : FileSystem Path} {c c' : Call} {o : Outcome}
    (h : callStep fs c o = some (fs', c')) (hst : Stage fs c) (hn : c.holds = false)
    (ho : ¬ (o = .ok ∧ c.pc = .fopen)) :
    c'.holds = false ∧ (fs' = fs ∨ fs' = fs.unlink c.writer.path.temp) := by
  have hm := callStep_moved h
  by_cases hpc : c.pc = .fopen
  · have hfail : callStep fs c o = some (fs', c') := h
    simp only [callStep, hpc] at hfail
    cases o with
    | ok => exact absurd ⟨rfl, hpc⟩ ho
    | fail =>
        obtain ⟨rfl, rfl⟩ := by simpa [constructStep] using hfail
        exact ⟨rfl, .inl rfl⟩
    | accept n | writeOut n => cases hfail
  · refine ⟨hm.holds hst hn hpc, ?_⟩
    generalize hb : c'.pc.committed = b
    have he : Effect fs c fs' b := hb ▸ hm.effect
    cases he with
    | nothing => exact .inl rfl
    | opens hopen => exact absurd hopen hpc
    | writesOut hf => simp [Call.holds, hf] at hn
    | renames hr => simp [Call.holds, hr] at hn
    | unlinks => exact .inr rfl

/-- Every call is where its position says, and at most one holds the temporary file. -/
structure Turns (fs : FileSystem Path) (calls : List Call) : Prop where
  stage : ∀ (i : Nat) c, calls[i]? = some c → Stage fs c
  one : AtMostOne Call.holds calls

/-- A step of the call at `i`, while no other call holds the temporary file. -/
theorem Turns.set_alone {fs fs' : FileSystem Path} {calls : List Call} {i : Nat} {c' : Call}
    (h : Turns fs calls)
    (hfree : ∀ (j : Nat) d, calls[j]? = some d → j ≠ i → d.holds = false) (hc' : Stage fs' c') :
    Turns fs' (calls.set i c') := by
  refine ⟨?_, .set hfree⟩
  intro j d hd
  rcases getElem?_set_cases hd with ⟨-, rfl⟩ | ⟨hj, hd⟩
  · exact hc'
  · exact (h.stage j d hd).of_not_holds (hfree j d hd hj) fs'

/-- A step of the call at `i` that leaves the others what they know, and after which it does
not hold the temporary file. -/
theorem Turns.set_quiet {fs fs' : FileSystem Path} {calls : List Call} {i : Nat} {c' : Call}
    (h : Turns fs calls) (hothers : ∀ d ∈ calls, Stage fs d → Stage fs' d)
    (hc' : Stage fs' c') (hn : c'.holds = false) : Turns fs' (calls.set i c') := by
  refine ⟨fun j d hd => ?_, h.one.of_subset fun j d hd hh => getElem?_of_set hn hd hh⟩
  rcases getElem?_set_cases hd with ⟨-, rfl⟩ | ⟨-, hd⟩
  · exact hc'
  · exact hothers d (List.mem_of_getElem? hd) (h.stage j d hd)

/-- The state of a run of calls on `path` that open the temporary file one at a time. -/
structure Shared (fs₀ : FileSystem Path) (path : Path) (requests : List Request) (s : State) :
    Prop where
  called : s.calls.map Call.request = requests
  turns : Turns s.fs s.calls
  apart : Apart s.fs path
  read : s.fs.read path = fs₀.read path ∨ ∃ r ∈ requests, s.fs.read path = some r.data

section Shared

variable {fs₀ : FileSystem Path} {path : Path} {requests : List Request} {s s' : State}
  {a : Action}

theorem Shared.request_mem (h : Shared fs₀ path requests s) {c : Call} (hc : c ∈ s.calls) :
    c.request ∈ requests := by
  rw [← h.called]
  exact List.mem_map_of_mem hc

theorem step_turns (hpath : ∀ d ∈ s.calls, d.writer.path = path) (h : Turns s.fs s.calls)
    (ha : Apart s.fs path) (hg : Exclusive s a) (hs : step s a = some s') :
    Turns s'.fs s'.calls := by
  obtain ⟨c, c', hc, hstep, hset⟩ := step_eq_some hs
  have hst := h.stage a.i c hc
  have hcpath := hpath c (List.mem_of_getElem? hc)
  have hst' := (callStep_moved hstep).stage hst (hcpath.symm ▸ ha)
  rw [hset]
  by_cases hopen : opensTemp s a = true
  · -- it opens the file, and by the guard nobody holds it
    exact h.set_alone (fun j d hd _ => hg hopen d (List.mem_of_getElem? hd)) hst'
  · cases hh : c.holds with
    | true =>
        -- it holds the file, so nobody else does
        exact h.set_alone (h.one.others hc hh) hst'
    | false =>
        -- at most it removes the name
        have hquiet : ¬ (a.outcome = .ok ∧ c.pc = .fopen) := by
          rintro ⟨ho, hpc⟩
          simp [opensTemp, ho, hc, hpc] at hopen
        obtain ⟨hh', hfs⟩ := callStep_quiet hstep hst hh hquiet
        refine h.set_quiet ?_ hst' hh'
        intro d hd hd'
        rcases hfs with hfs | hfs
        · rw [hfs]
          exact hd'
        · rw [hfs, hcpath, ← hpath d hd]
          exact hd'.unlink

theorem step_shared (hpath : ∀ r ∈ requests, r.path = path) (h : Shared fs₀ path requests s)
    (hg : Exclusive s a) (hs : step s a = some s') : Shared fs₀ path requests s' := by
  have hpaths : ∀ d ∈ s.calls, d.writer.path = path := fun d hd => hpath _ (h.request_mem hd)
  have hturns := step_turns hpaths h.turns h.apart hg hs
  obtain ⟨c, c', hc, hstep, hset⟩ := step_eq_some hs
  have hm := callStep_moved hstep
  have hmem := h.request_mem (List.mem_of_getElem? hc)
  obtain rfl : c.writer.path = path := hpath _ hmem
  refine ⟨?_, hturns, hm.effect.apart h.apart, ?_⟩
  · rw [hset, map_set_of_eq hc hm.request, h.called]
  · rcases hm.effect.read (h.turns.stage a.i c hc) h.apart with ⟨hsame, -⟩ | ⟨hdata, -⟩
    · rw [hsame]
      exact h.read
    · exact .inr ⟨c.request, hmem, hdata⟩

/-- **Concurrent writers that take turns with the temporary file.** Any number of calls on
one path, their steps interleaved in any order in which none opens the temporary file while
another one holds it: the path holds what it held before or the complete data of one of the
calls, and a call that has returned `true` had its own complete data at the path right after
its rename. -/
theorem writers_atomic (fs : FileSystem Path) (path : Path) (requests : List Request)
    (hpath : ∀ r ∈ requests, r.path = path) (ha : Apart fs path) {s : State}
    (h : (machine fs requests).Reachable Exclusive s) :
    (s.fs.read path = fs.read path ∨ ∃ r ∈ requests, s.fs.read path = some r.data) ∧
      s.calls.map Call.request = requests ∧
      ∀ c ∈ s.calls, c.pc = .returned true → c.installed = some c.data := by
  have hshared : Shared fs path requests s := by
    refine h.invariant ⟨?_, ⟨?_, ?_⟩, ha, .inl rfl⟩ fun _ hi hg hs => step_shared hpath hi hg hs
    · simp [machine, Request.start, Call.request, Function.comp_def]
    · intro i c hc
      obtain ⟨r, -, rfl⟩ := List.mem_map.mp (List.mem_of_getElem? hc)
      exact ⟨rfl, rfl⟩
    · intro i j c d hc _ hh _
      obtain ⟨r, -, rfl⟩ := List.mem_map.mp (List.mem_of_getElem? hc)
      cases hh
  refine ⟨hshared.read, hshared.called, ?_⟩
  intro c hc hr
  obtain ⟨i, hi⟩ := List.mem_iff_getElem?.mp hc
  rw [(hshared.turns.stage i c hi).installed, hr]
  rfl

end Shared

/-- `etc/conf` with one byte, and two calls that write two and three bytes to it. -/
def twoCalls : Machine State Action :=
  machine (oneFile [conf] [7]) [⟨conf, [1, 2]⟩, ⟨conf, [3, 4, 5]⟩]

/-- The second call opens the temporary file when the first has renamed it, and renames it
before the first destructor runs. -/
theorem writers_atomic_two_calls :
    ∃ s, twoCalls.Reachable Exclusive s ∧
      (∀ c ∈ s.calls, c.pc = .returned true ∧ c.installed = some c.data) ∧
      s.fs.read conf = some [3, 4, 5] := by
  obtain ⟨s, hs, hp⟩ := Machine.reachable_of_execWithin (M := twoCalls) (G := Exclusive)
    (l := (succeeds 0 2).take 11 ++ (succeeds 1 3).take 11 ++ (succeeds 0 2).drop 11 ++
      (succeeds 1 3).drop 11)
    (p := fun s => (s.calls.all fun c => c.pc == .returned true) &&
      s.fs.read conf == some [3, 4, 5]) (by decide)
  have hapart : Apart (oneFile [conf] [7]) conf := by
    intro file hfile
    simp [oneFile, conf, Path.temp] at hfile
  obtain ⟨hret, hread⟩ : (∀ c ∈ s.calls, c.pc = .returned true) ∧
      s.fs.read conf = some [3, 4, 5] := by simpa using hp
  obtain ⟨-, -, hinst⟩ := writers_atomic _ conf _ (by simp) hapart hs
  exact ⟨s, hs, fun c hc => ⟨hret c hc, hinst c hc (hret c hc)⟩, hread⟩

/-- The second call opens `etc/conf.tmp` when the first one is about to rename it: the path
is empty, and the first call returns `true`. -/
theorem second_writer_truncates :
    ∃ s, twoCalls.Reachable Machine.free s ∧ s.fs.read conf = some [] ∧
      ∃ c ∈ s.calls, c.pc = .returned true ∧ c.data = [1, 2] ∧ c.installed = some [] := by
  obtain ⟨s, hs, hp⟩ := Machine.reachable_of_exec (M := twoCalls)
    (l := (succeeds 0 2).take 10 ++ (succeeds 1 3).take 2 ++ (succeeds 0 2).drop 10)
    (p := fun s => s.fs.read conf == some [] && s.calls.any fun c =>
      c.pc == .returned true && c.data == [1, 2] && c.installed == some []) (by decide)
  exact ⟨s, hs, by simpa [and_assoc] using hp⟩

end CppCode.AtomicFile
