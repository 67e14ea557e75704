import CppCode.Concurrency.Machine
import CppCode.Posix.FileSystem

/-!
# CppCode.AtomicFile.Model

`AtomicFileWriter` (`utils/filesystem_wrapper/atomic_file_writer.cpp`) and
`atomicWriteFile()` (`filesystem_wrapper.cpp`) as an interleaving machine: any number of
calls, each with its own path and data, over one file system.

* Every library or system call is a step of its own, and the environment chooses its
  `Outcome`. A crash of the process is a call that makes no further step.
* `fwrite()` accepts some of the bytes; they reach the file inside `fwrite()`, `fflush()` or
  `fclose()`, in pieces (`Outcome.writeOut`). `fflush()` succeeds only with an empty buffer.
* Different paths are different directory entries, and none is a directory or a symbolic link:
  two spellings of one file, and a link at `path` or `<path>.tmp`, are left out.
* `create_directories()` in the constructor may throw. What it creates is not seen, as no path is
  a directory. `exists()` and `remove()` in the destructor may throw, which ends the process.

The steps of `write()`, `commit()` and the destructor are functions of the writer alone;
`atomicWriteFile()` strings them together. `Call.installed` is for specifications only: no
step reads it. Log messages are left out.
-/

namespace CppCode.AtomicFile

open Concurrency Posix

/-- A path, as its directory and the name in it; a directory has one spelling. -/
structure Path where
  parent : String
  filename : String
  deriving DecidableEq

/-- `temp_path_`: the name with `.tmp` after it, in the same directory. -/
def Path.temp (path : Path) : Path :=
  { path with filename := path.filename ++ ".tmp" }

theorem Path.temp_ne (path : Path) : path.temp ≠ path := by
  intro h
  have hlen := congrArg (fun p => p.filename.length) h
  simp [Path.temp] at hlen

/-- What the environment makes of a call. -/
inductive Outcome
  | ok
  | fail
  /-- `fwrite()` accepts the first `n` bytes. -/
  | accept (n : Nat)
  /-- `n` buffered bytes reach the file. -/
  | writeOut (n : Nat)
  deriving DecidableEq

/-! ### The writer -/

/-- The members `path_` and `file_`. -/
structure AtomicFileWriter where
  path : Path
  file : Option Stream
  deriving DecidableEq

/-- Positions in `write()`. -/
inductive WritePc
  | enter
  /-- In `fwrite()`, which will return `written`. -/
  | fwrite (written : Nat)
  deriving DecidableEq

/-- Positions in `commit()`, named after the call that comes next. -/
inductive CommitPc
  | fflush
  | fileno
  | fsync
  | fclose
  | openDir
  | rename (dirFd : Bool)
  | syncDir
  | closeDir (result : Bool)
  deriving DecidableEq

/-- Positions in the destructor. -/
inductive DestroyPc
  | fclose
  | checkTemp
  | remove
  deriving DecidableEq

/-- Where a method is after a step: at another position, or back with its result. -/
inductive Next (Pc : Type)
  | goto (pc : Pc)
  | returned (result : Bool)
  deriving DecidableEq

/-- `fopen(temp_path_, "wb")` in the constructor. -/
def constructStep (fs : FileSystem Path) (w : AtomicFileWriter) :
    Outcome → Option (FileSystem Path × AtomicFileWriter)
  | .ok =>
      some ((fs.openWrite w.path.temp).1,
        { w with file := some ⟨(fs.openWrite w.path.temp).2, 0, []⟩ })
  | .fail => some (fs, { w with file := none })
  | .accept _ | .writeOut _ => none

/-- Buffered bytes reach the file of an open writer. -/
def writeOutStep (fs : FileSystem Path) (w : AtomicFileWriter) (n : Nat) :
    Option (FileSystem Path × AtomicFileWriter) :=
  match w.file with
  | none => none
  | some stream => some ((stream.writeOut fs n).1, { w with file := some (stream.writeOut fs n).2 })

/-- `write(data)`. -/
def writeStep (fs : FileSystem Path) (w : AtomicFileWriter) (data : List UInt8)
    (pc : WritePc) (o : Outcome) :
    Option (FileSystem Path × AtomicFileWriter × Next WritePc) :=
  match pc, w.file, o with
  | .enter, none, .ok => some (fs, w, .returned false)
  | .enter, some stream, .accept n =>
      if n ≤ data.length then
        some (fs, { w with file := some (stream.fwrite (data.take n)) }, .goto (.fwrite n))
      else none
  | .fwrite written, _, .writeOut n =>
      (writeOutStep fs w n).map fun (fs', w') => (fs', w', .goto (.fwrite written))
  | .fwrite written, _, .ok => some (fs, w, .returned (written == data.length))
  | _, _, _ => none

/-- `commit()`. Its checks come before the position of the call they guard: without an open
file it returns from `fflush`, without a directory it skips `syncDir`. -/
def commitStep (fs : FileSystem Path) (w : AtomicFileWriter) (pc : CommitPc) (o : Outcome) :
    Option (FileSystem Path × AtomicFileWriter × Next CommitPc) :=
  match pc, o with
  | .fflush, .writeOut n =>
      (writeOutStep fs w n).map fun (fs', w') => (fs', w', .goto .fflush)
  | .fflush, .ok =>
      match w.file with
      | none => some (fs, w, .returned false)
      | some stream => if stream.pending = [] then some (fs, w, .goto .fileno) else none
  | .fflush, .fail | .fileno, .fail | .fsync, .fail => some (fs, w, .returned false)
  | .fileno, .ok => some (fs, w, .goto .fsync)
  | .fsync, .ok => some (fs, w, .goto .fclose)
  -- the result of `fclose()` is not looked at
  | .fclose, .ok => some (fs, { w with file := none }, .goto .openDir)
  | .openDir, .ok => some (fs, w, .goto (.rename true))
  | .openDir, .fail => some (fs, w, .goto (.rename false))
  | .rename dirFd, .ok =>
      (fs.rename w.path.temp w.path).map fun fs' =>
        (fs', w, if dirFd then .goto .syncDir else .returned true)
  | .rename dirFd, .fail =>
      some (fs, w, if dirFd then .goto (.closeDir false) else .returned false)
  -- neither are those of `fsync()` and `close()` on the directory
  | .syncDir, .ok | .syncDir, .fail => some (fs, w, .goto (.closeDir true))
  | .closeDir result, .ok | .closeDir result, .fail => some (fs, w, .returned result)
  | _, _ => none

/-- `~AtomicFileWriter()`. `none` as the next position is its end. -/
def destroyStep (fs : FileSystem Path) (w : AtomicFileWriter) (pc : DestroyPc) (o : Outcome) :
    Option (FileSystem Path × AtomicFileWriter × Option DestroyPc) :=
  match pc, o with
  | .fclose, .writeOut n => (writeOutStep fs w n).map fun (fs', w') => (fs', w', some .fclose)
  | .fclose, .ok => some (fs, { w with file := none }, some .checkTemp)
  | .checkTemp, .ok =>
      some (fs, w, if (fs.dir w.path.temp).isSome then some .remove else none)
  | .remove, .ok => some (fs.unlink w.path.temp, w, none)
  | _, _ => none

/-! ### `atomicWriteFile()` -/

/-- Positions in `atomicWriteFile()`. The result it will return stands from the destructor
of its writer on. -/
inductive Pc
  | createDirectories
  | fopen
  | write (pc : WritePc)
  | commit (pc : CommitPc)
  | destroy (pc : DestroyPc) (result : Bool)
  | returned (result : Bool)
  /-- The constructor has thrown. -/
  | threw
  /-- The destructor has thrown. -/
  | terminated (result : Bool)
  deriving DecidableEq

/-- The arguments of a call. -/
structure Request where
  path : Path
  data : List UInt8
  deriving DecidableEq

structure Call where
  writer : AtomicFileWriter
  data : List UInt8
  pc : Pc
  /-- What the path held right after the rename of this call. -/
  installed : Option (List UInt8)
  deriving DecidableEq

def Request.start (request : Request) : Call where
  writer := { path := request.path, file := none }
  data := request.data
  pc := .createDirectories
  installed := none

def Call.request (c : Call) : Request :=
  ⟨c.writer.path, c.data⟩

/-- `write()` returned: `atomicWriteFile()` goes on to `commit()` or leaves. -/
def afterWrite : Next WritePc → Pc
  | .goto pc => .write pc
  | .returned true => .commit .fflush
  | .returned false => .destroy .fclose false

def afterCommit : Next CommitPc → Pc
  | .goto pc => .commit pc
  | .returned result => .destroy .fclose result

def afterDestroy (result : Bool) : Option DestroyPc → Pc
  | some pc => .destroy pc result
  | none => .returned result

/-- The next step of a call. -/
def callStep (fs : FileSystem Path) (c : Call) (o : Outcome) :
    Option (FileSystem Path × Call) :=
  match c.pc, o with
  | .createDirectories, .ok => some (fs, { c with pc := .fopen })
  | .createDirectories, .fail => some (fs, { c with pc := .threw })
  | .fopen, o =>
      (constructStep fs c.writer o).map fun (fs', w) =>
        (fs', { c with writer := w, pc := .write .enter })
  | .write pc, o =>
      (writeStep fs c.writer c.data pc o).map fun (fs', w, next) =>
        (fs', { c with writer := w, pc := afterWrite next })
  | .commit (.rename dirFd), .ok =>
      (commitStep fs c.writer (.rename dirFd) .ok).map fun (fs', w, next) =>
        (fs', { c with writer := w, pc := afterCommit next, installed := fs'.read w.path })
  | .commit pc, o =>
      (commitStep fs c.writer pc o).map fun (fs', w, next) =>
        (fs', { c with writer := w, pc := afterCommit next })
  | .destroy .checkTemp result, .fail | .destroy .remove result, .fail =>
      some (fs, { c with pc := .terminated result })
  | .destroy pc result, o =>
      (destroyStep fs c.writer pc o).map fun (fs', w, next) =>
        (fs', { c with writer := w, pc := afterDestroy result next })
  | _, _ => none

/-- The file system and the calls, each at its position. -/
structure State where
  fs : FileSystem Path
  calls : List Call

/-- The `i`-th call takes its next step. -/
structure Action where
  i : Nat
  outcome : Outcome
  deriving DecidableEq

def step (s : State) (a : Action) : Option State :=
  match s.calls[a.i]? with
  | none => none
  | some c =>
      (callStep s.fs c a.outcome).map fun (fs, c') => { fs := fs, calls := s.calls.set a.i c' }

/-- Calls of `atomicWriteFile()` that are yet to begin, over a file system. -/
def machine (fs : FileSystem Path) (requests : List Request) : Machine State Action where
  init := { fs := fs, calls := requests.map Request.start }
  step := step

/-! ### What a step can do -/

/-- The positions inside a call of the C library that writes buffered bytes out. -/
def Pc.inStream : Pc → Bool
  | .write (.fwrite _) | .commit .fflush | .destroy .fclose _ => true
  | _ => false

theorem Pc.inStream_cases {pc : Pc} (h : pc.inStream = true) :
    (∃ n, pc = .write (.fwrite n)) ∨ pc = .commit .fflush ∨
      ∃ result, pc = .destroy .fclose result := by
  unfold Pc.inStream at h
  split at h
  · exact .inl ⟨_, rfl⟩
  · exact .inr (.inl rfl)
  · exact .inr (.inr ⟨_, rfl⟩)
  · cases h

/-- The position goes on, and nothing else changes. -/
def Call.goto (c : Call) (pc : Pc) : Call :=
  { c with pc := pc }

def Call.setFile (c : Call) (file : Option Stream) : Call :=
  { c with writer := { c.writer with file := file } }

@[simp] theorem Call.goto_writer (c : Call) (pc : Pc) : (c.goto pc).writer = c.writer := rfl
@[simp] theorem Call.goto_data (c : Call) (pc : Pc) : (c.goto pc).data = c.data := rfl
@[simp] theorem Call.goto_pc (c : Call) (pc : Pc) : (c.goto pc).pc = pc := rfl
@[simp] theorem Call.goto_installed (c : Call) (pc : Pc) :
    (c.goto pc).installed = c.installed := rfl
@[simp] theorem Call.setFile_file (c : Call) (file : Option Stream) :
    (c.setFile file).writer.file = file := rfl
@[simp] theorem Call.setFile_pc (c : Call) (file : Option Stream) :
    (c.setFile file).pc = c.pc := rfl

/-- A step of a call, one constructor for each branch. -/
inductive Moved (fs : FileSystem Path) (c : Call) : FileSystem Path → Call → Prop
  | createsDirectories (hpc : c.pc = .createDirectories) : Moved fs c fs (c.goto .fopen)
  | throws (hpc : c.pc = .createDirectories) : Moved fs c fs (c.goto .threw)
  | opens (hpc : c.pc = .fopen) :
      Moved fs c (fs.openWrite c.writer.path.temp).1
        ((c.setFile (some ⟨(fs.openWrite c.writer.path.temp).2, 0, []⟩)).goto (.write .enter))
  | openFails (hpc : c.pc = .fopen) : Moved fs c fs ((c.setFile none).goto (.write .enter))
  | writeRefused (hpc : c.pc = .write .enter) (hf : c.writer.file = none) :
      Moved fs c fs (c.goto (.destroy .fclose false))
  | accepts {n : Nat} {stream : Stream} (hpc : c.pc = .write .enter)
      (hf : c.writer.file = some stream) (hn : n ≤ c.data.length) :
      Moved fs c fs
        ((c.setFile (some (stream.fwrite (c.data.take n)))).goto (.write (.fwrite n)))
  | writesOut {n : Nat} {stream : Stream} (hpc : c.pc.inStream = true)
      (hf : c.writer.file = some stream) :
      Moved fs c (stream.writeOut fs n).1 (c.setFile (some (stream.writeOut fs n).2))
  | written (hpc : c.pc = .write (.fwrite c.data.length)) :
      Moved fs c fs (c.goto (.commit .fflush))
  | writtenShort {n : Nat} (hpc : c.pc = .write (.fwrite n)) (hn : n ≠ c.data.length) :
      Moved fs c fs (c.goto (.destroy .fclose false))
  | flushed {stream : Stream} (hpc : c.pc = .commit .fflush) (hf : c.writer.file = some stream)
      (hp : stream.pending = []) : Moved fs c fs (c.goto (.commit .fileno))
  | commitRefused (hpc : c.pc = .commit .fflush) (hf : c.writer.file = none) :
      Moved fs c fs (c.goto (.destroy .fclose false))
  | commitFails
      (hpc : c.pc = .commit .fflush ∨ c.pc = .commit .fileno ∨ c.pc = .commit .fsync) :
      Moved fs c fs (c.goto (.destroy .fclose false))
  | numbered (hpc : c.pc = .commit .fileno) : Moved fs c fs (c.goto (.commit .fsync))
  | synced (hpc : c.pc = .commit .fsync) : Moved fs c fs (c.goto (.commit .fclose))
  | closes (hpc : c.pc = .commit .fclose) :
      Moved fs c fs ((c.setFile none).goto (.commit .openDir))
  | opensDir (dirFd : Bool) (hpc : c.pc = .commit .openDir) :
      Moved fs c fs (c.goto (.commit (.rename dirFd)))
  | renames {dirFd : Bool} {fs' : FileSystem Path} (hpc : c.pc = .commit (.rename dirFd))
      (hr : fs.rename c.writer.path.temp c.writer.path = some fs') :
      Moved fs c fs'
        ({ c with installed := fs'.read c.writer.path }.goto
          (if dirFd then .commit .syncDir else .destroy .fclose true))
  | renameFails {dirFd : Bool} (hpc : c.pc = .commit (.rename dirFd)) :
      Moved fs c fs
        (c.goto (if dirFd then .commit (.closeDir false) else .destroy .fclose false))
  | syncsDir (hpc : c.pc = .commit .syncDir) :
      Moved fs c fs (c.goto (.commit (.closeDir true)))
  | closesDir {result : Bool} (hpc : c.pc = .commit (.closeDir result)) :
      Moved fs c fs (c.goto (.destroy .fclose result))
  | destroyCloses {result : Bool} (hpc : c.pc = .destroy .fclose result) :
      Moved fs c fs ((c.setFile none).goto (.destroy .checkTemp result))
  | tempFound {result : Bool} {file : Nat} (hpc : c.pc = .destroy .checkTemp result)
      (ht : fs.dir c.writer.path.temp = some file) :
      Moved fs c fs (c.goto (.destroy .remove result))
  | tempGone {result : Bool} (hpc : c.pc = .destroy .checkTemp result)
      (ht : fs.dir c.writer.path.temp = none) : Moved fs c fs (c.goto (.returned result))
  | removes {result : Bool} (hpc : c.pc = .destroy .remove result) :
      Moved fs c (fs.unlink c.writer.path.temp) (c.goto (.returned result))
  | terminates {result : Bool} {pc : DestroyPc} (hpc : c.pc = .destroy pc result)
      (hne : pc ≠ .fclose) : Moved fs c fs (c.goto (.terminated result))

section Inversion

variable {fs fs' : FileSystem Path} {c c' : Call} {o : Outcome}

theorem constructStep_moved {w : AtomicFileWriter} (hpc : c.pc = .fopen)
    (h : constructStep fs c.writer o = some (fs', w)) :
    Moved fs c fs' { c with writer := w, pc := .write .enter } := by
  cases o with
  | ok =>
      obtain ⟨rfl, rfl⟩ := by simpa [constructStep] using h
      exact .opens hpc
  | fail =>
      obtain ⟨rfl, rfl⟩ := by simpa [constructStep] using h
      exact .openFails hpc
  | accept n => cases h
  | writeOut n => cases h

theorem writeOutStep_moved {n : Nat} {w : AtomicFileWriter} (hpc : c.pc.inStream = true)
    (h : writeOutStep fs c.writer n = some (fs', w)) : Moved fs c fs' { c with writer := w } := by
  unfold writeOutStep at h
  split at h
  · cases h
  · rename_i stream hf
    obtain ⟨rfl, rfl⟩ := Prod.mk.inj (Option.some.inj h)
    exact .writesOut hpc hf

theorem writeStep_moved {pc : WritePc} {w : AtomicFileWriter} {next : Next WritePc}
    (hpc : c.pc = .write pc) (h : writeStep fs c.writer c.data pc o = some (fs', w, next)) :
    Moved fs c fs' { c with writer := w, pc := afterWrite next } := by
  unfold writeStep at h
  split at h
  · rename_i hf
    obtain ⟨rfl, rfl, rfl⟩ := by simpa using h
    exact .writeRefused hpc hf
  · rename_i stream n hf
    split at h
    · obtain ⟨rfl, rfl, rfl⟩ := by simpa using h
      exact .accepts hpc hf ‹_›
    · cases h
  · rename_i written n
    obtain ⟨⟨fs₁, w₁⟩, hout, heq⟩ := Option.map_eq_some_iff.mp h
    obtain ⟨rfl, rfl, rfl⟩ := by simpa using heq
    have hmoved := writeOutStep_moved (by rw [hpc]; rfl) hout
    rw [show afterWrite (.goto (.fwrite written)) = c.pc from hpc.symm]
    exact hmoved
  · rename_i written
    obtain ⟨rfl, rfl, rfl⟩ := by simpa using h
    by_cases hn : written = c.data.length
    · subst hn
      simp only [beq_self_eq_true]
      exact .written hpc
    · rw [beq_eq_false_iff_ne.mpr hn]
      exact .writtenShort hpc hn
  · cases h

/-- The steps of `commit()` but the rename. -/
theorem commitStep_moved {pc : CommitPc} {w : AtomicFileWriter} {next : Next CommitPc}
    (hpc : c.pc = .commit pc) (hne : ∀ dirFd, (pc, o) ≠ (.rename dirFd, .ok))
    (h : commitStep fs c.writer pc o = some (fs', w, next)) :
    Moved fs c fs' { c with writer := w, pc := afterCommit next } := by
  unfold commitStep at h
  split at h
  · obtain ⟨⟨fs₁, w₁⟩, hout, heq⟩ := Option.map_eq_some_iff.mp h
    obtain ⟨rfl, rfl, rfl⟩ := by simpa using heq
    have hmoved := writeOutStep_moved (by rw [hpc]; rfl) hout
    rw [show afterCommit (.goto .fflush) = c.pc from hpc.symm]
    exact hmoved
  · split at h
    · obtain ⟨rfl, rfl, rfl⟩ := by simpa using h
      exact .commitRefused hpc ‹_›
    · split at h
      · obtain ⟨rfl, rfl, rfl⟩ := by simpa using h
        exact .flushed hpc ‹_› ‹_›
      · cases h
  · obtain ⟨rfl, rfl, rfl⟩ := by simpa using h
    exact .commitFails (.inl hpc)
  · obtain ⟨rfl, rfl, rfl⟩ := by simpa using h
    exact .commitFails (.inr (.inl hpc))
  · obtain ⟨rfl, rfl, rfl⟩ := by simpa using h
    exact .commitFails (.inr (.inr hpc))
  · obtain ⟨rfl, rfl, rfl⟩ := by simpa using h
    exact .numbered hpc
  · obtain ⟨rfl, rfl, rfl⟩ := by simpa using h
    exact .synced hpc
  · obtain ⟨rfl, rfl, rfl⟩ := by simpa using h
    exact .closes hpc
  · obtain ⟨rfl, rfl, rfl⟩ := by simpa using h
    exact .opensDir true hpc
  · obtain ⟨rfl, rfl, rfl⟩ := by simpa using h
    exact .opensDir false hpc
  · exact absurd rfl (hne _)
  · rename_i dirFd
    obtain ⟨rfl, rfl, rfl⟩ := by simpa using h
    have hmoved : Moved fs c fs _ := .renameFails hpc
    cases dirFd <;> exact hmoved
  · obtain ⟨rfl, rfl, rfl⟩ := by simpa using h
    exact .syncsDir hpc
  · obtain ⟨rfl, rfl, rfl⟩ := by simpa using h
    exact .syncsDir hpc
  · obtain ⟨rfl, rfl, rfl⟩ := by simpa using h
    exact .closesDir hpc
  · obtain ⟨rfl, rfl, rfl⟩ := by simpa using h
    exact .closesDir hpc
  · cases h

theorem destroyStep_moved {pc : DestroyPc} {w : AtomicFileWriter} {next : Option DestroyPc}
    {result : Bool} (hpc : c.pc = .destroy pc result)
    (h : destroyStep fs c.writer pc o = some (fs', w, next)) :
    Moved fs c fs' { c with writer := w, pc := afterDestroy result next } := by
  unfold destroyStep at h
  split at h
  · obtain ⟨⟨fs₁, w₁⟩, hout, heq⟩ := Option.map_eq_some_iff.mp h
    obtain ⟨rfl, rfl, rfl⟩ := by simpa using heq
    have hmoved := writeOutStep_moved (by rw [hpc]; rfl) hout
    rw [show afterDestroy result (some .fclose) = c.pc from hpc.symm]
    exact hmoved
  · obtain ⟨rfl, rfl, rfl⟩ := by simpa using h
    exact .destroyCloses hpc
  · obtain ⟨rfl, rfl, rfl⟩ := by simpa using h
    cases ht : fs.dir c.writer.path.temp with
    | none => exact .tempGone hpc ht
    | some file => exact .tempFound hpc ht
  · obtain ⟨rfl, rfl, rfl⟩ := by simpa using h
    exact .removes hpc
  · cases h

/-- **Inversion.** Every step of a call is one of the branches listed in `Moved`. -/
theorem callStep_moved (h : callStep fs c o = some (fs', c')) : Moved fs c fs' c' := by
  unfold callStep at h
  split at h
  · obtain ⟨rfl, rfl⟩ := by simpa using h
    exact .createsDirectories ‹_›
  · obtain ⟨rfl, rfl⟩ := by simpa using h
    exact .throws ‹_›
  · obtain ⟨⟨fs₁, w₁⟩, hstep, heq⟩ := Option.map_eq_some_iff.mp h
    obtain ⟨rfl, rfl⟩ := by simpa using heq
    exact constructStep_moved ‹_› hstep
  · obtain ⟨⟨fs₁, w₁, next⟩, hstep, heq⟩ := Option.map_eq_some_iff.mp h
    obtain ⟨rfl, rfl⟩ := by simpa using heq
    exact writeStep_moved ‹_› hstep
  · rename_i dirFd hpc
    obtain ⟨⟨fs₁, w₁, next⟩, hstep, heq⟩ := Option.map_eq_some_iff.mp h
    obtain ⟨fs₂, hr, heq₂⟩ := Option.map_eq_some_iff.mp hstep
    obtain ⟨rfl, rfl, rfl⟩ := by simpa using heq₂
    obtain ⟨rfl, rfl⟩ := by simpa using heq
    have hmoved : Moved fs c fs₂ _ := .renames hpc hr
    cases dirFd <;> exact hmoved
  · rename_i pc hpc hne
    obtain ⟨⟨fs₁, w₁, next⟩, hstep, heq⟩ := Option.map_eq_some_iff.mp h
    obtain ⟨rfl, rfl⟩ := by simpa using heq
    refine commitStep_moved hpc ?_ hstep
    intro dirFd heq
    obtain ⟨rfl, rfl⟩ := Prod.mk.inj heq
    exact hne dirFd rfl rfl
  · rename_i hpc
    obtain ⟨rfl, rfl⟩ := by simpa using h
    exact .terminates hpc nofun
  · rename_i hpc
    obtain ⟨rfl, rfl⟩ := by simpa using h
    exact .terminates hpc nofun
  · obtain ⟨⟨fs₁, w₁, next⟩, hstep, heq⟩ := Option.map_eq_some_iff.mp h
    obtain ⟨rfl, rfl⟩ := by simpa using heq
    exact destroyStep_moved ‹_› hstep
  · cases h

/-- A step of the machine is a step of one call, and the others stay where they are. -/
theorem step_eq_some {s s' : State} {a : Action} (h : step s a = some s') :
    ∃ c c', s.calls[a.i]? = some c ∧ callStep s.fs c a.outcome = some (s'.fs, c') ∧
      s'.calls = s.calls.set a.i c' := by
  unfold step at h
  split at h
  · cases h
  · rename_i c hc
    obtain ⟨⟨fs₁, c₁⟩, hstep, rfl⟩ := Option.map_eq_some_iff.mp h
    exact ⟨c, c₁, hc, hstep, rfl⟩

end Inversion

end CppCode.AtomicFile
