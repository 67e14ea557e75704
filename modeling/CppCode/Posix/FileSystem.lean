import Mathlib.Logic.Function.Basic
import Mathlib.Data.List.Basic

/-!
# CppCode.Posix.FileSystem

**Files, names and streams.** A name is an entry of a directory for a file, and several
names may be entries for one file; a file is a number with its bytes. `rename` replaces its
target in one step. A `Stream` is a buffered handle: what is written to it reaches the file
in order, at the position of the handle, in pieces of any size.

* Directories and symbolic links are not represented: no name is one. Which calls fail is up to
  whoever uses the operations.
* A file number that was handed out is not handed out again, so a file whose last name is
  gone stays apart from every later one. `FileSystem.bounded` carries that.
-/

namespace Posix

variable {Name : Type}

structure FileSystem (Name : Type) where
  /-- The file each name is an entry for. -/
  dir : Name → Option Nat
  content : Nat → List UInt8
  /-- The next file number. -/
  next : Nat
  bounded : ∀ name file, dir name = some file → file < next

namespace FileSystem

/-- The bytes behind a name, `none` if there is no such entry. -/
def read (fs : FileSystem Name) (name : Name) : Option (List UInt8) :=
  (fs.dir name).map fs.content

def setContent (fs : FileSystem Name) (file : Nat) (bytes : List UInt8) : FileSystem Name :=
  { fs with content := Function.update fs.content file bytes }

section Names

variable [DecidableEq Name]

/-- A new empty file under a name. -/
def create (fs : FileSystem Name) (name : Name) : FileSystem Name where
  dir := Function.update fs.dir name (some fs.next)
  content := Function.update fs.content fs.next []
  next := fs.next + 1
  bounded := by
    intro other file hfile
    by_cases hn : other = name
    · subst hn
      obtain rfl : fs.next = file := by simpa using hfile
      exact Nat.lt_succ_self _
    · rw [Function.update_of_ne hn] at hfile
      exact Nat.lt_succ_of_lt (fs.bounded other file hfile)

/-- `fopen(name, "wb")`: the file of the name is truncated, a missing one is created. -/
def openWrite (fs : FileSystem Name) (name : Name) : FileSystem Name × Nat :=
  match fs.dir name with
  | some file => (fs.setContent file [], file)
  | none => (fs.create name, fs.next)

def unlink (fs : FileSystem Name) (name : Name) : FileSystem Name where
  dir := Function.update fs.dir name none
  content := fs.content
  next := fs.next
  bounded := by
    intro other file hfile
    by_cases hn : other = name
    · simp [hn] at hfile
    · rw [Function.update_of_ne hn] at hfile
      exact fs.bounded other file hfile

def link (fs : FileSystem Name) (name : Name) (file : Nat) (h : file < fs.next) :
    FileSystem Name where
  dir := Function.update fs.dir name (some file)
  content := fs.content
  next := fs.next
  bounded := by
    intro other file' hfile
    by_cases hn : other = name
    · subst hn
      obtain rfl : file = file' := by simpa using hfile
      exact h
    · rw [Function.update_of_ne hn] at hfile
      exact fs.bounded other file' hfile

/-- `rename(src, dst)`. It fails without a source. If both names are entries for the same
file it does nothing. -/
def rename (fs : FileSystem Name) (src dst : Name) : Option (FileSystem Name) :=
  match h : fs.dir src with
  | none => none
  | some file =>
      if fs.dir dst = some file then some fs
      else some ((fs.link dst file (fs.bounded src file h)).unlink src)

/-! ### What the operations do to names and contents -/

theorem dir_create_of_ne (fs : FileSystem Name) {name other : Name} (hne : other ≠ name) :
    (fs.create name).dir other = fs.dir other :=
  Function.update_of_ne hne _ _

theorem openWrite_cases (fs : FileSystem Name) (name : Name) :
    (∃ file, fs.dir name = some file ∧ fs.openWrite name = (fs.setContent file [], file)) ∨
      (fs.dir name = none ∧ fs.openWrite name = (fs.create name, fs.next)) := by
  unfold openWrite
  split
  · rename_i file hfile
    exact .inl ⟨file, hfile, rfl⟩
  · rename_i hnone
    exact .inr ⟨hnone, rfl⟩

@[simp] theorem dir_openWrite_self (fs : FileSystem Name) (name : Name) :
    (fs.openWrite name).1.dir name = some (fs.openWrite name).2 := by
  obtain ⟨file, hfile, h⟩ | ⟨-, h⟩ := fs.openWrite_cases name
  · rw [h]
    exact hfile
  · simp [h, create]

theorem dir_openWrite_of_ne (fs : FileSystem Name) {name other : Name} (hne : other ≠ name) :
    (fs.openWrite name).1.dir other = fs.dir other := by
  obtain ⟨file, hfile, h⟩ | ⟨-, h⟩ := fs.openWrite_cases name
  · rw [h]
    rfl
  · rw [h, fs.dir_create_of_ne hne]

/-- The file is empty once it is open. -/
@[simp] theorem content_openWrite_self (fs : FileSystem Name) (name : Name) :
    (fs.openWrite name).1.content (fs.openWrite name).2 = [] := by
  obtain ⟨file, hfile, h⟩ | ⟨-, h⟩ := fs.openWrite_cases name <;> simp [h, setContent, create]

/-- A name that is no entry for the opened file does not see it being opened. -/
theorem read_openWrite_of_ne (fs : FileSystem Name) {name other : Name} (hne : other ≠ name)
    (hfile : ∀ file, fs.dir name = some file → fs.dir other ≠ some file) :
    (fs.openWrite name).1.read other = fs.read other ∧
      (fs.openWrite name).1.dir other ≠ some (fs.openWrite name).2 := by
  rw [read, read, fs.dir_openWrite_of_ne hne]
  obtain ⟨file, hname, h⟩ | ⟨-, h⟩ := fs.openWrite_cases name
  · rw [h]
    refine ⟨Option.map_congr ?_, hfile file hname⟩
    intro x hx
    have hx' : x ≠ file := by
      rintro rfl
      exact hfile x hname hx
    exact Function.update_of_ne hx' _ _
  · rw [h]
    have hlt : ∀ x, fs.dir other = some x → x ≠ fs.next := fun x hx =>
      Nat.ne_of_lt (fs.bounded other x hx)
    exact ⟨Option.map_congr fun x hx => Function.update_of_ne (hlt x hx) _ _,
      fun hx => hlt _ hx rfl⟩

@[simp] theorem dir_unlink_self (fs : FileSystem Name) (name : Name) :
    (fs.unlink name).dir name = none := by
  simp [unlink]

theorem dir_unlink_of_ne (fs : FileSystem Name) {name other : Name} (hne : other ≠ name) :
    (fs.unlink name).dir other = fs.dir other :=
  Function.update_of_ne hne _ _

theorem read_unlink_of_ne (fs : FileSystem Name) {name other : Name} (hne : other ≠ name) :
    (fs.unlink name).read other = fs.read other := by
  rw [read, read, fs.dir_unlink_of_ne hne]
  rfl

/-- **Inversion of a rename that succeeds.** Either both names are entries for the file of the
source already, or the target becomes one and the source goes. -/
theorem rename_inv {fs fs' : FileSystem Name} {src dst : Name} (h : fs.rename src dst = some fs') :
    ∃ file, fs.dir src = some file ∧ fs'.content = fs.content ∧ fs'.next = fs.next ∧
      ((fs.dir dst = some file ∧ fs'.dir = fs.dir) ∨
        (fs.dir dst ≠ some file ∧
          fs'.dir = Function.update (Function.update fs.dir dst (some file)) src none)) := by
  unfold rename at h
  split at h
  · cases h
  · rename_i file hsrc
    split at h
    · rename_i hdst
      obtain rfl := Option.some.inj h
      exact ⟨file, hsrc, rfl, rfl, .inl ⟨hdst, rfl⟩⟩
    · rename_i hdst
      obtain rfl := Option.some.inj h
      exact ⟨file, hsrc, rfl, rfl, .inr ⟨hdst, rfl⟩⟩

/-- What a rename that succeeds does when the two names are entries for different files. -/
theorem rename_eq_some {fs fs' : FileSystem Name} {src dst : Name} (hne : src ≠ dst)
    (h : fs.rename src dst = some fs')
    (hfile : ∀ file, fs.dir src = some file → fs.dir dst ≠ some file) :
    ∃ file, fs.dir src = some file ∧ fs'.dir dst = some file ∧ fs'.dir src = none ∧
      fs'.content = fs.content ∧ fs'.next = fs.next := by
  obtain ⟨file, hsrc, hcontent, hnext, ⟨hdst, -⟩ | ⟨-, hdir⟩⟩ := rename_inv h
  · exact absurd hdst (hfile file hsrc)
  · refine ⟨file, hsrc, ?_, ?_, hcontent, hnext⟩
    · rw [hdir, Function.update_of_ne hne.symm, Function.update_self]
    · rw [hdir, Function.update_self]

/-- The target is an entry for the file of the source, linked to it before or not. -/
theorem dir_rename_dst {fs fs' : FileSystem Name} {src dst : Name} (hne : src ≠ dst)
    (h : fs.rename src dst = some fs') : fs'.dir dst = fs.dir src := by
  obtain ⟨file, hsrc, -, -, ⟨hdst, hdir⟩ | ⟨-, hdir⟩⟩ := rename_inv h
  · rw [hdir, hdst, hsrc]
  · rw [hdir, Function.update_of_ne hne.symm, Function.update_self, hsrc]

theorem dir_rename_of_ne {fs fs' : FileSystem Name} {src dst name : Name}
    (h : fs.rename src dst = some fs') (hsrc : name ≠ src) (hdst : name ≠ dst) :
    fs'.dir name = fs.dir name := by
  obtain ⟨file, -, -, -, ⟨-, hdir⟩ | ⟨-, hdir⟩⟩ := rename_inv h
  · rw [hdir]
  · rw [hdir, Function.update_of_ne hsrc, Function.update_of_ne hdst]

theorem content_rename {fs fs' : FileSystem Name} {src dst : Name}
    (h : fs.rename src dst = some fs') : fs'.content = fs.content := by
  obtain ⟨_, -, hcontent, -⟩ := rename_inv h
  exact hcontent

theorem read_rename_dst {fs fs' : FileSystem Name} {src dst : Name} (hne : src ≠ dst)
    (h : fs.rename src dst = some fs') : fs'.read dst = fs.read src := by
  rw [read, read, dir_rename_dst hne h, content_rename h]

theorem read_rename_of_ne {fs fs' : FileSystem Name} {src dst name : Name}
    (h : fs.rename src dst = some fs') (hsrc : name ≠ src) (hdst : name ≠ dst) :
    fs'.read name = fs.read name := by
  rw [read, read, dir_rename_of_ne h hsrc hdst, content_rename h]

/-! ### Names without a hard link -/

/-- No other name is an entry for the file of this one. -/
def SoleName (fs : FileSystem Name) (name : Name) : Prop :=
  ∀ file other, fs.dir name = some file → fs.dir other = some file → other = name

theorem SoleName.openWrite {fs : FileSystem Name} {name : Name} (h : fs.SoleName name)
    (opened : Name) : (fs.openWrite opened).1.SoleName name := by
  obtain ⟨file, hfile, heq⟩ | ⟨-, heq⟩ := fs.openWrite_cases opened
  · rw [heq]
    exact h
  · rw [heq]
    intro file other hname hother
    -- the new file has a number that no name led to before
    have hnext : ∀ n, n ≠ opened → (fs.create opened).dir n = some file → file < fs.next := by
      intro n hn hdir
      rw [fs.dir_create_of_ne hn] at hdir
      exact fs.bounded n file hdir
    have hself : (fs.create opened).dir opened = some file → fs.next = file := by
      simp [create]
    by_cases hn : name = opened
    · by_cases ho : other = opened
      · exact ho.trans hn.symm
      · exact absurd (hself (hn ▸ hname)) (Nat.ne_of_gt (hnext other ho hother))
    · by_cases ho : other = opened
      · exact absurd (hself (ho ▸ hother)) (Nat.ne_of_gt (hnext name hn hname))
      · rw [fs.dir_create_of_ne hn] at hname
        rw [fs.dir_create_of_ne ho] at hother
        exact h file other hname hother

theorem SoleName.unlink {fs : FileSystem Name} {name : Name} (h : fs.SoleName name)
    (gone : Name) : (fs.unlink gone).SoleName name := by
  have hold : ∀ n file, (fs.unlink gone).dir n = some file → fs.dir n = some file := by
    intro n file hdir
    by_cases hn : n = gone
    · subst hn
      simp at hdir
    · rwa [fs.dir_unlink_of_ne hn] at hdir
  intro file other hname hother
  exact h file other (hold name file hname) (hold other file hother)

/-- The file of the source has one name before the rename and one after it. -/
theorem SoleName.rename {fs fs' : FileSystem Name} {src dst name : Name} (h : fs.SoleName name)
    (hsrc : fs.SoleName src) (hr : fs.rename src dst = some fs') : fs'.SoleName name := by
  obtain ⟨moved, hmoved, -, -, ⟨-, hdir⟩ | ⟨-, hdir⟩⟩ := rename_inv hr
  · rw [SoleName, hdir]
    exact h
  · -- an entry of the new directory is the target for the moved file, or an old one for another
    have hold : ∀ n file, fs'.dir n = some file →
        (n = dst ∧ file = moved) ∨ (n ≠ dst ∧ fs.dir n = some file ∧ file ≠ moved) := by
      intro n file hn
      have hns : n ≠ src := by
        rintro rfl
        rw [hdir, Function.update_self] at hn
        cases hn
      rw [hdir, Function.update_of_ne hns] at hn
      by_cases hnd : n = dst
      · subst hnd
        rw [Function.update_self] at hn
        exact .inl ⟨rfl, (Option.some.inj hn).symm⟩
      · rw [Function.update_of_ne hnd] at hn
        refine .inr ⟨hnd, hn, ?_⟩
        rintro rfl
        exact hns (hsrc file n hmoved hn)
    intro file other hname hother
    obtain ⟨hn, hf⟩ | ⟨-, hn, hf⟩ := hold name file hname
    · obtain ⟨ho, -⟩ | ⟨-, -, hf'⟩ := hold other file hother
      · exact ho.trans hn.symm
      · exact absurd hf hf'
    · obtain ⟨-, hf'⟩ | ⟨-, ho, -⟩ := hold other file hother
      · exact absurd hf' hf
      · exact h file other hn ho

end Names

theorem read_setContent_of_ne (fs : FileSystem Name) {name : Name} {file : Nat}
    (hne : fs.dir name ≠ some file) (bytes : List UInt8) :
    (fs.setContent file bytes).read name = fs.read name := by
  refine Option.map_congr ?_
  intro x hx
  have hx' : x ≠ file := by
    rintro rfl
    exact hne hx
  exact Function.update_of_ne hx' _ _

end FileSystem

/-! ### Streams -/

/-- A handle open for writing: the file, the position in it, and the bytes that have not
reached it. -/
structure Stream where
  file : Nat
  offset : Nat
  pending : List UInt8
  deriving DecidableEq

/-- Bytes written at a position. A gap between the end of the file and the position is
filled with zeros. -/
def overwrite (old : List UInt8) (offset : Nat) (bytes : List UInt8) : List UInt8 :=
  old.take offset ++ List.replicate (offset - old.length) 0 ++ bytes ++
    old.drop (offset + bytes.length)

theorem overwrite_length (old bytes : List UInt8) :
    overwrite old old.length bytes = old ++ bytes := by
  simp [overwrite]

namespace Stream

def fwrite (stream : Stream) (bytes : List UInt8) : Stream :=
  { stream with pending := stream.pending ++ bytes }

/-- `n` of the buffered bytes reach the file. -/
def writeOut (stream : Stream) (fs : FileSystem Name) (n : Nat) : FileSystem Name × Stream :=
  (fs.setContent stream.file
      (overwrite (fs.content stream.file) stream.offset (stream.pending.take n)),
    { stream with
      offset := stream.offset + (stream.pending.take n).length
      pending := stream.pending.drop n })

/-- The position is the end of the file, and the file and the buffer together are `bytes`. -/
structure Holds (stream : Stream) (fs : FileSystem Name) (bytes : List UInt8) : Prop where
  atEnd : stream.offset = (fs.content stream.file).length
  bytes_eq : fs.content stream.file ++ stream.pending = bytes

variable {stream : Stream} {fs : FileSystem Name} {bytes : List UInt8}

theorem Holds.fwrite (h : stream.Holds fs bytes) (more : List UInt8) :
    (stream.fwrite more).Holds fs (bytes ++ more) := by
  refine ⟨h.atEnd, ?_⟩
  rw [← h.bytes_eq, List.append_assoc]
  rfl

/-- Bytes that reach the file move from the buffer to the end of the file. -/
theorem Holds.writeOut (h : stream.Holds fs bytes) (n : Nat) :
    (stream.writeOut fs n).2.Holds (stream.writeOut fs n).1 bytes := by
  have hcontent : (stream.writeOut fs n).1.content stream.file =
      fs.content stream.file ++ stream.pending.take n := by
    simp [Stream.writeOut, FileSystem.setContent, h.atEnd, overwrite_length]
  constructor
  · show stream.offset + (stream.pending.take n).length =
      ((stream.writeOut fs n).1.content stream.file).length
    rw [hcontent, List.length_append, h.atEnd]
  · show (stream.writeOut fs n).1.content stream.file ++ stream.pending.drop n = bytes
    rw [hcontent, List.append_assoc, List.take_append_drop, h.bytes_eq]

/-- With an empty buffer the file has everything. -/
theorem Holds.content_eq (h : stream.Holds fs bytes) (hp : stream.pending = []) :
    fs.content stream.file = bytes := by
  rw [← h.bytes_eq, hp, List.append_nil]

end Stream

end Posix
