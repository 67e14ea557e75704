import CppCode.Posix.FileSystem

/-!
# CppCode.Posix.Crash

**What a crash leaves of a file system.** A change of a directory entry or of the data of a
file reaches the disk at some time after it was made. `Disk` keeps what may be found there: for
each name the entries it may have, and which files have all their data on it. `Disk.advance`
follows any change of the file system, `Disk.fsync` and `Disk.fsyncDir` a successful `fsync()`
on a file and on a directory.

Nothing is known after a crash about the data of a file that was not synced.
-/

namespace Posix

variable {Name : Type}

structure Disk (Name : Type) where
  /-- The entries a name may have after a crash, the one it has now among them. -/
  entries : Name → List (Option Nat)
  /-- The files whose data is on the disk. -/
  synced : Nat → Bool

/-- A file system that a crash may leave behind. -/
structure Survives (fs : FileSystem Name) (disk : Disk Name) (after : FileSystem Name) : Prop where
  entry : ∀ name, after.dir name ∈ disk.entries name
  data : ∀ file, disk.synced file = true → after.content file = fs.content file

namespace Disk

/-- Everything is on the disk. -/
def all (fs : FileSystem Name) : Disk Name where
  entries name := [fs.dir name]
  synced _ := true

/-- The file system changes from `fs` to `fs'`. -/
def advance (disk : Disk Name) (fs fs' : FileSystem Name) : Disk Name where
  entries name :=
    if fs'.dir name = fs.dir name then disk.entries name else fs'.dir name :: disk.entries name
  synced file := disk.synced file && fs'.content file == fs.content file

def fsync (disk : Disk Name) (file : Nat) : Disk Name :=
  { disk with synced := Function.update disk.synced file true }

/-- `fsync()` on the directory of the names that satisfy `within`. -/
def fsyncDir (disk : Disk Name) (fs : FileSystem Name) (within : Name → Bool) : Disk Name :=
  { disk with entries := fun name => if within name then [fs.dir name] else disk.entries name }

variable {disk : Disk Name} {fs fs' : FileSystem Name} {name : Name} {file : Nat}

theorem entries_advance (disk : Disk Name) (fs fs' : FileSystem Name) (name : Name) :
    (disk.advance fs fs').entries name =
      if fs'.dir name = fs.dir name then disk.entries name
      else fs'.dir name :: disk.entries name := rfl

theorem entries_advance_of_eq (h : fs'.dir name = fs.dir name) :
    (disk.advance fs fs').entries name = disk.entries name := by
  rw [entries_advance, if_pos h]

theorem entries_subset_advance {entry : Option Nat} (h : entry ∈ disk.entries name) :
    entry ∈ (disk.advance fs fs').entries name := by
  rw [entries_advance]
  split
  · exact h
  · exact List.mem_cons_of_mem _ h

/-- Nothing changes. -/
theorem advance_self (disk : Disk Name) (fs : FileSystem Name) : disk.advance fs fs = disk := by
  simp only [advance, if_true, beq_self_eq_true, Bool.and_true]

/-- The entry a name has now may be found after a crash. -/
theorem live_advance (h : fs.dir name ∈ disk.entries name) :
    fs'.dir name ∈ (disk.advance fs fs').entries name := by
  rw [entries_advance]
  split
  · rename_i hsame
    rwa [hsame]
  · exact List.mem_cons_self

theorem synced_advance (h : disk.synced file = true) (hc : fs'.content file = fs.content file) :
    (disk.advance fs fs').synced file = true := by
  simp [advance, h, hc]

theorem synced_fsync (h : disk.synced file = true) (other : Nat) :
    (disk.fsync other).synced file = true := by
  by_cases hf : file = other
  · rw [hf]
    exact Function.update_self _ _ _
  · exact (Function.update_of_ne hf _ _).trans h

end Disk

/-- A name whose entry is on the disk, for a file whose data is on the disk. -/
theorem Survives.read_eq {fs after : FileSystem Name} {disk : Disk Name} {name : Name}
    {file : Nat} (h : Survives fs disk after) (he : disk.entries name = [some file])
    (hs : disk.synced file = true) : after.read name = some (fs.content file) := by
  have hdir : after.dir name = some file := by simpa [he] using h.entry name
  rw [FileSystem.read, hdir, Option.map_some, h.data file hs]

end Posix
