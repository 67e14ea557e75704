import CppCode.AtomicFile.Atomicity

/-!
# CppCode.AtomicFile.Registers

Calls of `atomicWriteFile()` on any paths, one after the other, and `readFileContent()`
(`utils/filesystem_wrapper/filesystem_wrapper.cpp`).

A path behaves like a register of its own: it reads as the data of the last call on it that
returned `true`, and as what it held at first if there is none (`register_read`). The names
that calls use for their temporary files are no such registers: a call on `conf` takes the
file at `conf.tmp` away, and a second name of that file loses its content
(`temp_name_clobbered`).
-/

namespace CppCode.AtomicFile

open Concurrency Posix

/-! ### `readFileContent()` -/

/-- A `std::ifstream`: the bytes left in it and the state bits. -/
structure Ifstream where
  rest : List UInt8
  failbit : Bool
  eofbit : Bool

def Ifstream.open (fs : FileSystem Path) (path : Path) : Option Ifstream :=
  (fs.read path).map fun bytes => { rest := bytes, failbit := false, eofbit := false }

/-- `std::string(std::istreambuf_iterator<char>(ifs), {})`. The iterator takes the bytes from
the stream's buffer and leaves the bits of the stream alone. -/
def Ifstream.drain (ifs : Ifstream) : List UInt8 × Ifstream :=
  (ifs.rest, { ifs with rest := [] })

/-- The path as it is written in messages. -/
def Path.string (path : Path) : String :=
  if path.parent = "" then path.filename
  else if path.parent = "/" then "/" ++ path.filename
  else path.parent ++ "/" ++ path.filename

def readFileContent (fs : FileSystem Path) (path : Path) : Except String (List UInt8) :=
  match Ifstream.open fs path with
  | none => .error ("Failed to open file: " ++ path.string)
  | some ifs =>
      let (content, ifs) := ifs.drain
      if ifs.failbit then .error ("Failed to read file: " ++ path.string)
      else if ifs.eofbit then .error ("File is empty: " ++ path.string)
      else .ok content

theorem readFileContent_of_read {fs : FileSystem Path} {path : Path} {bytes : List UInt8}
    (h : fs.read path = some bytes) : readFileContent fs path = .ok bytes := by
  simp [readFileContent, Ifstream.open, Ifstream.drain, h]

theorem readFileContent_of_none {fs : FileSystem Path} {path : Path} (h : fs.read path = none) :
    readFileContent fs path = .error ("Failed to open file: " ++ path.string) := by
  simp [readFileContent, Ifstream.open, h]

theorem readFileContent_congr {fs fs' : FileSystem Path} {path : Path}
    (h : fs'.read path = fs.read path) : readFileContent fs' path = readFileContent fs path := by
  simp only [readFileContent, Ifstream.open, h]

/-! ### One call after the other -/

/-- The call is over, and the process goes on. -/
def Call.finished (c : Call) : Bool :=
  match c.pc with
  | .returned _ | .threw => true
  | _ => false

/-- A call makes its steps when all earlier calls are over. -/
def OneByOne : Guard State Action := fun s a =>
  ∀ d ∈ s.calls.take a.i, d.finished = true

instance (s : State) (a : Action) : Decidable (OneByOne s a) :=
  inferInstanceAs (Decidable (∀ d ∈ s.calls.take a.i, d.finished = true))

/-- The data of a call on `path` that has returned `true`. -/
def Call.succeeded (path : Path) (c : Call) : Option (List UInt8) :=
  if c.writer.path = path ∧ c.pc = .returned true then some c.data else none

/-- The data of a call on `path` whose rename has succeeded. -/
def Call.written (path : Path) (c : Call) : Option (List UInt8) :=
  if c.writer.path = path ∧ c.pc.committed then some c.data else none

theorem Call.succeeded_eq_written {c : Call} (h : c.finished = true) (path : Path) :
    c.succeeded path = c.written path := by
  unfold Call.finished at h
  unfold Call.succeeded Call.written
  split at h
  · rename_i result hpc
    cases result <;> simp [hpc, Pc.committed]
  · rename_i hpc
    simp [hpc, Pc.committed]
  · cases h

/-! ### The call under way -/

section Call

variable {fs fs' : FileSystem Path} {c c' : Call}

/-- The temporary name leads to the file of the stream. -/
def Named (fs : FileSystem Path) (w : AtomicFileWriter) : Prop :=
  ∀ stream, w.file = some stream → fs.dir w.path.temp = some stream.file

theorem Moved.named (hm : Moved fs c fs' c') (hst : Stage fs c) (h : Named fs c.writer) :
    Named fs' c'.writer := by
  cases hm with
  | opens hpc =>
      intro stream hs
      obtain rfl := Option.some.inj hs
      exact fs.dir_openWrite_self _
  | openFails | closes | destroyCloses => exact nofun
  | @accepts _ stream hpc hf hn =>
      intro stream' hs
      obtain rfl := Option.some.inj hs
      exact h stream hf
  | @writesOut _ stream hpc hf =>
      intro stream' hs
      obtain rfl := Option.some.inj hs
      exact h stream hf
  | renames hpc hr | removes hpc =>
      have hpos := hst.position
      simp only [Position, hpc] at hpos
      intro stream hs
      first
        | cases hpos.1.symm.trans hs
        | cases hpos.symm.trans hs
  | _ => exact h

theorem Moved.not_finished (hm : Moved fs c fs' c') : c.finished = false := by
  cases hm with
  | commitFails hpc => rcases hpc with hpc | hpc | hpc <;> simp [Call.finished, hpc]
  | writesOut hpc hf =>
      rcases Pc.inStream_cases hpc with ⟨n, hpc⟩ | hpc | ⟨result, hpc⟩ <;>
        simp [Call.finished, hpc]
  | _ => simp [Call.finished, *]

/-- A call that is over or yet to begin holds nothing. -/
theorem Stage.not_holds (h : Stage fs c) (hc : c.finished = true ∨ c.pc = .createDirectories) :
    c.holds = false := by
  have hpos := h.position
  rcases hc with hc | hpc
  · unfold Call.finished at hc
    split at hc
    · rename_i result hpc
      simp only [Position, hpc] at hpos
      simp [Call.holds, hpos, hpc]
    · rename_i hpc
      simp only [Position, hpc] at hpos
      simp [Call.holds, hpos, hpc]
    · cases hc
  · simp only [Position, hpc] at hpos
    simp [Call.holds, hpos, hpc]

/-- **Only its own path changes**, as long as nobody else shares the temporary file, and the
temporary name aside. -/
theorem Effect.read_of_ne {b : Bool} {path : Path} (he : Effect fs c fs' b)
    (hn : Named fs c.writer) (hsole : fs.SoleName c.writer.path.temp)
    (htemp : path ≠ c.writer.path.temp) (hpath : path ≠ c.writer.path) :
    fs'.read path = fs.read path := by
  cases he with
  | nothing => rfl
  | opens hpc =>
      refine (fs.read_openWrite_of_ne htemp ?_).1
      intro file hfile hother
      exact htemp (hsole file path hfile hother)
  | writesOut hf =>
      refine fs.read_setContent_of_ne ?_ _
      intro hother
      exact htemp (hsole _ path (hn _ hf) hother)
  | renames hpc hr => exact FileSystem.read_rename_of_ne hr htemp hpath
  | unlinks => exact fs.read_unlink_of_ne htemp

theorem Effect.soleName {b : Bool} {name : Path} (he : Effect fs c fs' b)
    (hsole : fs.SoleName c.writer.path.temp) (h : fs.SoleName name) : fs'.SoleName name := by
  cases he with
  | nothing => exact h
  | opens hpc => exact h.openWrite _
  | writesOut hf => exact h
  | renames hpc hr => exact h.rename hsole hr
  | unlinks => exact h.unlink _

end Call

/-! ### The runs -/

theorem apart_of_soleName {fs : FileSystem Path} {path : Path} (h : fs.SoleName path.temp) :
    Apart fs path := by
  intro file htemp hpath
  exact path.temp_ne (h file path htemp hpath).symm

/-- The state of a run in which the calls follow one another. The temporary names stay
without a hard link, and every other name reads as its last call has left it. -/
structure Sequenced (fs₀ : FileSystem Path) (requests : List Request) (s : State) : Prop where
  called : s.calls.map Call.request = requests
  turns : Turns s.fs s.calls
  named : ∀ c ∈ s.calls, Named s.fs c.writer
  order : ∀ (i j : Nat) c d, s.calls[i]? = some c → s.calls[j]? = some d → j < i →
    c.pc ≠ .createDirectories → d.finished = true
  sole : ∀ r ∈ requests, s.fs.SoleName r.path.temp
  read : ∀ path, (∀ r ∈ requests, path ≠ r.path.temp) →
    s.fs.read path = (s.calls.filterMap (Call.written path)).getLast?.or (fs₀.read path)

section Sequenced

variable {fs₀ : FileSystem Path} {requests : List Request} {s s' : State} {a : Action}
  {c c' : Call}

theorem Sequenced.init (fs : FileSystem Path) (requests : List Request)
    (hsole : ∀ r ∈ requests, fs.SoleName r.path.temp) :
    Sequenced fs requests (machine fs requests).init := by
  have hstart : ∀ c ∈ requests.map Request.start, ∃ r : Request, c = r.start := by
    intro c hc
    obtain ⟨r, -, rfl⟩ := List.mem_map.mp hc
    exact ⟨r, rfl⟩
  refine ⟨?_, ⟨?_, ?_⟩, ?_, ?_, hsole, ?_⟩
  · simp [machine, Request.start, Call.request, Function.comp_def]
  · intro i c hc
    obtain ⟨r, rfl⟩ := hstart c (List.mem_of_getElem? hc)
    exact ⟨rfl, rfl⟩
  · intro i j c d hc _ hh _
    obtain ⟨r, rfl⟩ := hstart c (List.mem_of_getElem? hc)
    cases hh
  · intro c hc
    obtain ⟨r, rfl⟩ := hstart c hc
    intro f hf
    cases hf
  · intro i j c d hc _ _ hpc
    obtain ⟨r, rfl⟩ := hstart c (List.mem_of_getElem? hc)
    exact absurd rfl hpc
  · intro path _
    have hnone : (requests.map Request.start).filterMap (Call.written path) = [] := by
      refine List.filterMap_eq_nil_iff.mpr ?_
      intro c hc
      obtain ⟨r, rfl⟩ := hstart c hc
      simp [Call.written, Request.start, Pc.committed]
    rw [machine, hnone]
    rfl

/-- While a call moves, the others are over or yet to begin. -/
theorem Sequenced.others (h : Sequenced fs₀ requests s) (hg : OneByOne s a)
    (hc : s.calls[a.i]? = some c) (hn : c.finished = false) :
    ∀ (j : Nat) d, s.calls[j]? = some d → j ≠ a.i →
      (j < a.i ∧ d.finished = true) ∨ (a.i < j ∧ d.pc = .createDirectories) := by
  intro j d hd hj
  rcases Nat.lt_or_gt_of_ne hj with hlt | hgt
  · refine .inl ⟨hlt, hg d (List.mem_iff_getElem?.mpr ⟨j, ?_⟩)⟩
    rw [List.getElem?_take_of_lt hlt, hd]
  · refine .inr ⟨hgt, ?_⟩
    by_contra hpc
    rw [h.order j a.i d c hd hc hgt hpc] at hn
    cases hn

theorem Sequenced.request_mem (h : Sequenced fs₀ requests s) (hc : s.calls[a.i]? = some c) :
    c.request ∈ requests := by
  rw [← h.called]
  exact List.mem_map_of_mem (List.mem_of_getElem? hc)

/-- What the calls have written after a step that moves `c` to `c'`. -/
theorem Sequenced.written_set (h : Sequenced fs₀ requests s) (hg : OneByOne s a)
    (hc : s.calls[a.i]? = some c) (hm : Moved s.fs c s'.fs c') (path : Path)
    (hp : ∀ r ∈ requests, path ≠ r.path.temp) :
    s'.fs.read path =
      ((s.calls.set a.i c').filterMap (Call.written path)).getLast?.or (fs₀.read path) := by
  have hmem := h.request_mem hc
  have hsole : s.fs.SoleName c.writer.path.temp := h.sole _ hmem
  have hpath : c'.writer.path = c.writer.path := congrArg Request.path hm.request
  have hdata : c'.data = c.data := congrArg Request.data hm.request
  by_cases hown : path = c.writer.path
  · subst hown
    rcases hm.effect.read (h.turns.stage a.i c hc) (apart_of_soleName hsole) with
      ⟨hsame, hcommitted⟩ | ⟨hread, hcommitted⟩
    · have hwritten : c'.written c.writer.path = c.written c.writer.path := by
        simp only [Call.written, hpath, hdata, hcommitted]
      rw [filterMap_set_of_eq hc hwritten, hsame]
      exact h.read _ hp
    · -- the rename: the calls after this one have not begun
      have hwritten : c'.written c.writer.path = some c.data := by
        simp [Call.written, hpath, hdata, hcommitted]
      rw [getLast?_filterMap_set hc hwritten ?_, hread]
      · rfl
      · intro j d hd hj
        rcases h.others hg hc hm.not_finished j d hd (Nat.ne_of_gt hj) with ⟨hlt, -⟩ | ⟨-, hpc⟩
        · omega
        · simp [Call.written, hpc, Pc.committed]
  · have hwritten : c'.written path = c.written path := by
      simp [Call.written, hpath, Ne.symm hown]
    rw [filterMap_set_of_eq hc hwritten,
      hm.effect.read_of_ne (h.named c (List.mem_of_getElem? hc)) hsole (hp _ hmem) hown]
    exact h.read path hp

theorem step_sequenced (h : Sequenced fs₀ requests s) (hg : OneByOne s a)
    (hs : step s a = some s') : Sequenced fs₀ requests s' := by
  obtain ⟨c, c', hc, hstep, hset⟩ := step_eq_some hs
  have hm := callStep_moved hstep
  have hst := h.turns.stage a.i c hc
  have hsole : s.fs.SoleName c.writer.path.temp := h.sole _ (h.request_mem hc)
  have hothers := h.others hg hc hm.not_finished
  have hfree : ∀ (j : Nat) d, s.calls[j]? = some d → j ≠ a.i → d.holds = false := by
    intro j d hd hj
    exact (h.turns.stage j d hd).not_holds ((hothers j d hd hj).imp And.right And.right)
  refine ⟨?_, ?_, ?_, ?_, fun r hr => hm.effect.soleName hsole (h.sole r hr), ?_⟩
  · rw [hset, map_set_of_eq hc hm.request, h.called]
  · rw [hset]
    exact h.turns.set_alone hfree (hm.stage hst (apart_of_soleName hsole))
  · intro d hd
    rw [hset] at hd
    obtain ⟨j, hj⟩ := List.mem_iff_getElem?.mp hd
    rcases getElem?_set_cases hj with ⟨-, rfl⟩ | ⟨hne, hj⟩
    · exact hm.named hst (h.named c (List.mem_of_getElem? hc))
    · intro stream hs
      have hh := hfree j d hj hne
      simp [Call.holds, hs] at hh
  · intro i j x y hx hy hlt hbegun
    rw [hset] at hx hy
    rcases getElem?_set_cases hx with ⟨rfl, rfl⟩ | ⟨hi, hx⟩
    · -- the call that moves: the earlier ones are over
      rcases getElem?_set_cases hy with ⟨rfl, -⟩ | ⟨hj, hy⟩
      · omega
      · rcases hothers j y hy hj with ⟨-, hf⟩ | ⟨hgt, -⟩
        · exact hf
        · omega
    · rcases getElem?_set_cases hy with ⟨rfl, -⟩ | ⟨-, hy⟩
      · rcases hothers i x hx hi with ⟨hlt', -⟩ | ⟨-, hpc⟩
        · omega
        · exact absurd hpc hbegun
      · exact h.order i j x y hx hy hlt hbegun
  · intro path hp
    rw [hset]
    exact h.written_set hg hc hm path hp

/-- **Paths are registers.** Calls on any paths, one after the other, whatever fails: once
they are over, a path reads as the data of the last call on it that returned `true`, and as
it did at first if there is none. The path must not be the temporary name of a call, and the
temporary names must not be hard links to begin with. -/
theorem register_read (fs : FileSystem Path) (requests : List Request)
    (hsole : ∀ r ∈ requests, fs.SoleName r.path.temp) (path : Path)
    (hp : ∀ r ∈ requests, path ≠ r.path.temp) {s : State}
    (h : (machine fs requests).Reachable OneByOne s)
    (hfinished : ∀ c ∈ s.calls, c.finished = true) :
    s.calls.map Call.request = requests ∧
      readFileContent s.fs path =
        match (s.calls.filterMap (Call.succeeded path)).getLast? with
        | some data => .ok data
        | none => readFileContent fs path := by
  have hseq : Sequenced fs requests s := by
    refine h.invariant (Sequenced.init fs requests hsole) ?_
    intro _ _ _ _ hi hg hs
    exact step_sequenced hi hg hs
  refine ⟨hseq.called, ?_⟩
  have hread := hseq.read path hp
  have hsame : s.calls.filterMap (Call.succeeded path) =
      s.calls.filterMap (Call.written path) := by
    refine List.filterMap_congr ?_
    intro c hc
    exact Call.succeeded_eq_written (hfinished c hc) path
  rw [hsame]
  cases hlast : (s.calls.filterMap (Call.written path)).getLast? with
  | none =>
      rw [hlast] at hread
      exact readFileContent_congr hread
  | some data =>
      rw [hlast] at hread
      exact readFileContent_of_read hread

end Sequenced

/-- The path `etc/log`. -/
def logFile : Path := ⟨"etc", "log"⟩

/-- The `i`-th call when its `fopen()` fails. -/
def refused (i : Nat) : List Action :=
  [⟨i, .ok⟩, ⟨i, .fail⟩, ⟨i, .ok⟩, ⟨i, .ok⟩, ⟨i, .ok⟩]

/-- Two bytes to `etc/conf`, nothing to `etc/log`, and a call on `etc/conf` that fails. -/
theorem register_read_second_call_fails :
    ∃ s, (machine (oneFile [conf] [7])
        [⟨conf, [1, 2]⟩, ⟨logFile, []⟩, ⟨conf, [3]⟩]).Reachable OneByOne s ∧
      readFileContent s.fs conf = .ok [1, 2] ∧ readFileContent s.fs logFile = .ok [] := by
  obtain ⟨s, hs, hp⟩ := Machine.reachable_of_execWithin
    (M := machine (oneFile [conf] [7]) [⟨conf, [1, 2]⟩, ⟨logFile, []⟩, ⟨conf, [3]⟩])
    (G := OneByOne) (l := succeeds 0 2 ++ succeeds 1 0 ++ refused 2)
    (p := fun s => (s.calls.all fun c => c.finished) &&
      s.calls.filterMap (Call.succeeded conf) == [[1, 2]] &&
      s.calls.filterMap (Call.succeeded logFile) == [[]]) (by decide)
  obtain ⟨⟨hfinished, hconf⟩, hlog⟩ : ((∀ c ∈ s.calls, c.finished = true) ∧
      s.calls.filterMap (Call.succeeded conf) = [[1, 2]]) ∧
      s.calls.filterMap (Call.succeeded logFile) = [[]] := by simpa using hp
  have hfree : ∀ r ∈ [(⟨conf, [1, 2]⟩ : Request), ⟨logFile, []⟩, ⟨conf, [3]⟩],
      (oneFile [conf] [7]).dir r.path.temp = none := by decide
  have hsole : ∀ r ∈ [(⟨conf, [1, 2]⟩ : Request), ⟨logFile, []⟩, ⟨conf, [3]⟩],
      (oneFile [conf] [7]).SoleName r.path.temp := by
    intro r hr file other hfile
    cases (hfree r hr).symm.trans hfile
  obtain ⟨-, hread⟩ := register_read _ _ hsole conf (by decide) hs hfinished
  obtain ⟨-, hread'⟩ := register_read _ _ hsole logFile (by decide) hs hfinished
  rw [hconf] at hread
  rw [hlog] at hread'
  exact ⟨s, hs, hread, hread'⟩

/-- A call on `etc/conf` takes away what an earlier call has written to `etc/conf.tmp`. And if
`etc/conf.tmp` is a hard link of `etc/log`, a call on `etc/conf` overwrites the file there. -/
theorem temp_name_clobbered :
    (∃ s, (machine (oneFile [conf] [7])
        [⟨conf.temp, [1, 2]⟩, ⟨conf, [3]⟩]).Reachable OneByOne s ∧
      (∀ c ∈ s.calls, c.pc = .returned true) ∧
      (s.calls.filterMap (Call.succeeded conf.temp)).getLast? = some [1, 2] ∧
      readFileContent s.fs conf.temp = .error "Failed to open file: etc/conf.tmp") ∧
    (∃ s, (machine (oneFile [conf.temp, logFile] [7]) [⟨conf, [3]⟩]).Reachable OneByOne s ∧
      (∀ c ∈ s.calls, c.pc = .returned true) ∧
      readFileContent (oneFile [conf.temp, logFile] [7]) logFile = .ok [7] ∧
      readFileContent s.fs logFile = .ok [3]) := by
  constructor
  · obtain ⟨s, hs, hp⟩ := Machine.reachable_of_execWithin
      (M := machine (oneFile [conf] [7]) [⟨conf.temp, [1, 2]⟩, ⟨conf, [3]⟩])
      (G := OneByOne) (l := succeeds 0 2 ++ succeeds 1 1)
      (p := fun s => (s.calls.all fun c => c.pc == .returned true) &&
        (s.calls.filterMap (Call.succeeded conf.temp)).getLast? == some [1, 2] &&
        s.fs.read conf.temp == none) (by decide)
    obtain ⟨⟨hret, hlast⟩, hread⟩ : ((∀ c ∈ s.calls, c.pc = .returned true) ∧
        (s.calls.filterMap (Call.succeeded conf.temp)).getLast? = some [1, 2]) ∧
        s.fs.read conf.temp = none := by simpa using hp
    exact ⟨s, hs, hret, hlast, readFileContent_of_none hread⟩
  · obtain ⟨s, hs, hp⟩ := Machine.reachable_of_execWithin
      (M := machine (oneFile [conf.temp, logFile] [7]) [⟨conf, [3]⟩])
      (G := OneByOne) (l := succeeds 0 1)
      (p := fun s => (s.calls.all fun c => c.pc == .returned true) &&
        s.fs.read logFile == some [3]) (by decide)
    obtain ⟨hret, hread⟩ : (∀ c ∈ s.calls, c.pc = .returned true) ∧
        s.fs.read logFile = some [3] := by simpa using hp
    exact ⟨s, hs, hret, rfl, readFileContent_of_read hread⟩

end CppCode.AtomicFile
