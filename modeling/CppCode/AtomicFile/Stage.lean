import CppCode.AtomicFile.Model

/-!
# CppCode.AtomicFile.Stage

What a call of `atomicWriteFile()` knows at each of its positions (`Stage`), as long as
nobody else opens its temporary file: the stream has the data so far and its file is not
the one at the path; at the rename, what the temporary name leads to is the complete data;
from then on the data has been installed.

A call *holds* the temporary while it has a stream open on it or is on its way to the
rename. Only then does its knowledge depend on the file system (`Stage.of_not_holds`), and a
step of another call that is no `fopen()` cannot hurt it (`Stage.unlink`).
-/

namespace CppCode.AtomicFile

open Posix

/-- The two names of a call are not entries for one file. -/
def Apart (fs : FileSystem Path) (path : Path) : Prop :=
  ∀ file, fs.dir path.temp = some file → fs.dir path ≠ some file

/-- The stream's file can be reached through the temporary name at most. -/
structure Private (fs : FileSystem Path) (path : Path) (stream : Stream) : Prop where
  temp : ∀ file, fs.dir path.temp = some file → file = stream.file
  path : fs.dir path ≠ some stream.file

/-- The stream is private and holds `bytes`. -/
structure Owns (fs : FileSystem Path) (path : Path) (stream : Stream) (bytes : List UInt8) :
    Prop extends Private fs path stream where
  holds : stream.Holds fs bytes

/-- The rename has succeeded. -/
def Pc.committed : Pc → Bool
  | .commit .syncDir => true
  | .commit (.closeDir result) | .destroy _ result | .returned result | .terminated result =>
      result
  | _ => false

/-- What is known at the position of a call. -/
def Position (fs : FileSystem Path) (c : Call) : Prop :=
  match c.pc with
  | .write .enter =>
      ∀ stream, c.writer.file = some stream → Owns fs c.writer.path stream []
  | .write (.fwrite n) =>
      ∃ stream, c.writer.file = some stream ∧ Owns fs c.writer.path stream (c.data.take n)
  | .commit .fflush =>
      ∃ stream, c.writer.file = some stream ∧ Owns fs c.writer.path stream c.data
  | .commit .fileno | .commit .fsync | .commit .fclose =>
      ∃ stream, c.writer.file = some stream ∧ Owns fs c.writer.path stream c.data ∧
        stream.pending = []
  | .commit .openDir | .commit (.rename _) =>
      c.writer.file = none ∧
        ∀ file, fs.dir c.writer.path.temp = some file → fs.content file = c.data
  | .destroy .fclose false =>
      ∀ stream, c.writer.file = some stream → Private fs c.writer.path stream
  | _ => c.writer.file = none

structure Stage (fs : FileSystem Path) (c : Call) : Prop where
  installed : c.installed = if c.pc.committed then some c.data else none
  position : Position fs c

/-- The call has a stream on the temporary file, or is about to rename it. -/
def Call.holds (c : Call) : Bool :=
  c.writer.file.isSome ||
    match c.pc with
    | .commit .openDir | .commit (.rename _) => true
    | _ => false

variable {fs fs' : FileSystem Path} {c c' : Call}

/-! ### Steps of the others -/

theorem Stage.of_not_holds (h : Stage fs c) (hn : c.holds = false) (fs' : FileSystem Path) :
    Stage fs' c := by
  refine ⟨h.installed, ?_⟩
  have hpos := h.position
  obtain ⟨hfile, hpc⟩ := Bool.or_eq_false_iff.mp hn
  have hnone : c.writer.file = none := by simpa using hfile
  unfold Position at hpos ⊢
  split at hpos <;> simp_all

theorem Private.unlink {path : Path} {stream : Stream} (h : Private fs path stream) :
    Private (fs.unlink path.temp) path stream := by
  refine ⟨fun file hfile => ?_, ?_⟩
  · rw [FileSystem.dir_unlink_self] at hfile
    cases hfile
  · rw [fs.dir_unlink_of_ne path.temp_ne.symm]
    exact h.path

theorem Owns.unlink {path : Path} {stream : Stream} {bytes : List UInt8}
    (h : Owns fs path stream bytes) : Owns (fs.unlink path.temp) path stream bytes :=
  ⟨h.toPrivate.unlink, h.holds.atEnd, h.holds.bytes_eq⟩

/-- Another call's destructor takes the temporary name away. -/
theorem Stage.unlink (h : Stage fs c) : Stage (fs.unlink c.writer.path.temp) c := by
  refine ⟨h.installed, ?_⟩
  have hpos := h.position
  unfold Position at hpos ⊢
  split at hpos
  · exact fun stream hs => (hpos stream hs).unlink
  · obtain ⟨stream, hs, hown⟩ := hpos
    exact ⟨stream, hs, hown.unlink⟩
  · obtain ⟨stream, hs, hown⟩ := hpos
    exact ⟨stream, hs, hown.unlink⟩
  · obtain ⟨stream, hs, hown, hp⟩ := hpos
    exact ⟨stream, hs, hown.unlink, hp⟩
  · obtain ⟨stream, hs, hown, hp⟩ := hpos
    exact ⟨stream, hs, hown.unlink, hp⟩
  · obtain ⟨stream, hs, hown, hp⟩ := hpos
    exact ⟨stream, hs, hown.unlink, hp⟩
  · exact ⟨hpos.1, fun file hfile => by simp at hfile⟩
  · exact ⟨hpos.1, fun file hfile => by simp at hfile⟩
  · exact fun stream hs => (hpos stream hs).unlink
  · exact hpos

/-! ### The call's own steps -/

/-- The stream a position speaks of is the one that is open. -/
theorem AtomicFileWriter.of_file {w : AtomicFileWriter} {stream : Stream} {P : Stream → Prop}
    (hf : w.file = some stream) (h : ∃ stream', w.file = some stream' ∧ P stream') : P stream := by
  obtain ⟨stream', hs, hstream⟩ := h
  obtain rfl := Option.some.inj (hs.symm.trans hf)
  exact hstream

theorem Stage.toPrivate (h : Stage fs c) {stream : Stream} (hf : c.writer.file = some stream) :
    Private fs c.writer.path stream := by
  have hpos := h.position
  unfold Position at hpos
  split at hpos
  · exact (hpos stream hf).toPrivate
  · exact (AtomicFileWriter.of_file hf hpos).toPrivate
  · exact (AtomicFileWriter.of_file hf hpos).toPrivate
  · exact (AtomicFileWriter.of_file hf hpos).1.toPrivate
  · exact (AtomicFileWriter.of_file hf hpos).1.toPrivate
  · exact (AtomicFileWriter.of_file hf hpos).1.toPrivate
  · cases hpos.1.symm.trans hf
  · cases hpos.1.symm.trans hf
  · exact hpos stream hf
  · cases hpos.symm.trans hf

/-- The truncated or new file under the temporary name. -/
theorem Owns.open {path : Path} (ha : Apart fs path) :
    Owns (fs.openWrite path.temp).1 path ⟨(fs.openWrite path.temp).2, 0, []⟩ [] where
  temp := by
    intro file hfile
    rw [FileSystem.dir_openWrite_self] at hfile
    exact (Option.some.inj hfile).symm
  path := (fs.read_openWrite_of_ne path.temp_ne.symm ha).2
  holds := ⟨by simp, by simp⟩

theorem Private.writeOut {path : Path} {stream : Stream} (h : Private fs path stream) (n : Nat) :
    Private (stream.writeOut fs n).1 path (stream.writeOut fs n).2 :=
  ⟨h.temp, h.path⟩

theorem Owns.writeOut {path : Path} {stream : Stream} {bytes : List UInt8}
    (h : Owns fs path stream bytes) (n : Nat) :
    Owns (stream.writeOut fs n).1 path (stream.writeOut fs n).2 bytes :=
  ⟨h.toPrivate.writeOut n, h.holds.writeOut n⟩

/-- **The rename installs the data.** -/
theorem Stage.rename_read (h : Stage fs c) (ha : Apart fs c.writer.path) {dirFd : Bool}
    (hpc : c.pc = .commit (.rename dirFd))
    (hr : fs.rename c.writer.path.temp c.writer.path = some fs') :
    fs'.read c.writer.path = some c.data ∧ fs'.dir c.writer.path.temp = none := by
  obtain ⟨file, htemp, hdst, hsrc, hcontent, -⟩ :=
    FileSystem.rename_eq_some c.writer.path.temp_ne hr ha
  have hpos := h.position
  simp only [Position, hpc] at hpos
  refine ⟨?_, hsrc⟩
  rw [FileSystem.read, hdst, Option.map_some, hcontent, hpos.2 file htemp]

/-- A call keeps what it has installed, unless it passes the rename. -/
theorem Stage.installed_eq (h : Stage fs c) {pc : Pc} (hc : pc.committed = c.pc.committed) :
    c.installed = if pc.committed then some c.data else none := by
  rw [h.installed, hc]

theorem Stage.goto (h : Stage fs c) {pc : Pc} (hc : pc.committed = c.pc.committed)
    (hpos : Position fs (c.goto pc)) : Stage fs (c.goto pc) :=
  ⟨h.installed_eq hc, hpos⟩

theorem Moved.stage (hm : Moved fs c fs' c') (h : Stage fs c) (ha : Apart fs c.writer.path) :
    Stage fs' c' := by
  have hpos := h.position
  cases hm with
  | createsDirectories hpc | throws hpc | numbered hpc | synced hpc | opensDir dirFd hpc
  | syncsDir hpc | tempFound hpc ht | tempGone hpc ht =>
      -- nothing is known after the step that was not known before it
      simp only [Position, hpc] at hpos
      exact h.goto (by rw [hpc]; rfl) hpos
  | opens hpc =>
      refine ⟨h.installed_eq (by rw [hpc]; rfl), ?_⟩
      intro stream hs
      obtain rfl := Option.some.inj hs
      exact Owns.open ha
  | openFails hpc =>
      refine ⟨h.installed_eq (by rw [hpc]; rfl), ?_⟩
      intro stream hs
      cases hs
  | writeRefused hpc hf =>
      refine h.goto (by rw [hpc]; rfl) ?_
      intro stream hs
      cases hf.symm.trans hs
  | accepts hpc hf hn =>
      refine ⟨h.installed_eq (by rw [hpc]; rfl), ?_⟩
      simp only [Position, hpc] at hpos
      have hown := hpos _ hf
      exact ⟨_, rfl, ⟨hown.temp, hown.path⟩, hown.holds.fwrite _⟩
  | @writesOut n stream hpc hf =>
      refine ⟨h.installed, ?_⟩
      rcases Pc.inStream_cases hpc with ⟨k, hpc⟩ | hpc | ⟨result, hpc⟩
      · simp only [Position, hpc, Call.setFile_pc] at hpos ⊢
        exact ⟨_, rfl, (AtomicFileWriter.of_file hf hpos).writeOut n⟩
      · simp only [Position, hpc, Call.setFile_pc] at hpos ⊢
        exact ⟨_, rfl, (AtomicFileWriter.of_file hf hpos).writeOut n⟩
      · have hpriv := h.toPrivate hf
        cases result with
        | true =>
            simp only [Position, hpc] at hpos
            cases hpos.symm.trans hf
        | false =>
            simp only [Position, hpc, Call.setFile_pc]
            intro stream' hs
            obtain rfl := Option.some.inj hs
            exact hpriv.writeOut n
  | written hpc =>
      refine h.goto (by rw [hpc]; rfl) ?_
      simp only [Position, hpc, List.take_length] at hpos
      exact hpos
  | writtenShort hpc hn | commitRefused hpc hf =>
      refine h.goto (by rw [hpc]; rfl) ?_
      exact fun stream hs => h.toPrivate hs
  | flushed hpc hf hp =>
      refine h.goto (by rw [hpc]; rfl) ?_
      simp only [Position, hpc] at hpos
      exact ⟨_, hf, AtomicFileWriter.of_file hf hpos, hp⟩
  | commitFails hpc =>
      refine h.goto (by rcases hpc with hpc | hpc | hpc <;> rw [hpc] <;> rfl) ?_
      exact fun stream hs => h.toPrivate hs
  | closes hpc =>
      refine ⟨h.installed_eq (by rw [hpc]; rfl), rfl, ?_⟩
      simp only [Position, hpc] at hpos
      obtain ⟨stream, hs, hown, hp⟩ := hpos
      intro file hfile
      rw [hown.temp file hfile]
      exact hown.holds.content_eq hp
  | @renames dirFd fs' hpc hr =>
      have hread := (h.rename_read ha hpc hr).1
      simp only [Position, hpc] at hpos
      cases dirFd with
      | true => exact ⟨by simpa [Pc.committed] using hread, hpos.1⟩
      | false => exact ⟨by simpa [Pc.committed] using hread, hpos.1⟩
  | @renameFails dirFd hpc =>
      simp only [Position, hpc] at hpos
      cases dirFd with
      | true => exact h.goto (by rw [hpc]; rfl) hpos.1
      | false =>
          refine h.goto (by rw [hpc]; rfl) ?_
          exact fun stream hs => h.toPrivate hs
  | @closesDir result hpc =>
      simp only [Position, hpc] at hpos
      cases result with
      | true => exact h.goto (by rw [hpc]; rfl) hpos
      | false =>
          refine h.goto (by rw [hpc]; rfl) ?_
          exact fun stream hs => h.toPrivate hs
  | destroyCloses hpc => exact ⟨h.installed_eq (by rw [hpc]; rfl), rfl⟩
  | removes hpc =>
      simp only [Position, hpc] at hpos
      exact ⟨h.installed_eq (by rw [hpc]; rfl), hpos⟩
  | @terminates result pc hpc hne =>
      have hnone : c.writer.file = none := by
        cases pc with
        | fclose => exact absurd rfl hne
        | checkTemp | remove => simpa only [Position, hpc] using hpos
      exact h.goto (by rw [hpc]; rfl) hnone

/-! ### What a step does to the file system -/

/-- The file system after a step of `c`, and whether the rename has succeeded by then. -/
inductive Effect (fs : FileSystem Path) (c : Call) : FileSystem Path → Bool → Prop
  | nothing : Effect fs c fs c.pc.committed
  | opens (hpc : c.pc = .fopen) :
      Effect fs c (fs.openWrite c.writer.path.temp).1 c.pc.committed
  | writesOut {n : Nat} {stream : Stream} (hf : c.writer.file = some stream) :
      Effect fs c (stream.writeOut fs n).1 c.pc.committed
  | renames {dirFd : Bool} {fs' : FileSystem Path} (hpc : c.pc = .commit (.rename dirFd))
      (hr : fs.rename c.writer.path.temp c.writer.path = some fs') : Effect fs c fs' true
  | unlinks : Effect fs c (fs.unlink c.writer.path.temp) c.pc.committed

theorem Effect.nothing_of {b : Bool} (hb : b = c.pc.committed) : Effect fs c fs b :=
  hb ▸ .nothing

theorem Moved.effect (hm : Moved fs c fs' c') : Effect fs c fs' c'.pc.committed := by
  cases hm with
  | opens hpc =>
      have heff : Effect fs c _ c.pc.committed := .opens hpc
      rw [hpc] at heff
      exact heff
  | writesOut hpc hf => exact .writesOut hf
  | @renames dirFd _ hpc hr =>
      have heff : Effect fs c fs' true := .renames hpc hr
      cases dirFd <;> exact heff
  | removes hpc =>
      have heff : Effect fs c _ c.pc.committed := .unlinks
      rw [hpc] at heff
      exact heff
  | @renameFails dirFd hpc => exact .nothing_of (by rw [hpc]; cases dirFd <;> rfl)
  | commitFails hpc =>
      exact .nothing_of (by rcases hpc with hpc | hpc | hpc <;> rw [hpc] <;> rfl)
  | createsDirectories hpc | throws hpc | openFails hpc | writeRefused hpc | accepts hpc
  | written hpc | writtenShort hpc | flushed hpc | commitRefused hpc | numbered hpc | synced hpc
  | closes hpc | opensDir _ hpc | syncsDir hpc | closesDir hpc | destroyCloses hpc | tempFound hpc
  | tempGone hpc | terminates hpc => exact .nothing_of (by rw [hpc]; rfl)

theorem Effect.apart {b : Bool} (he : Effect fs c fs' b) (ha : Apart fs c.writer.path) :
    Apart fs' c.writer.path := by
  cases he with
  | nothing => exact ha
  | opens hpc =>
      intro file hfile
      rw [FileSystem.dir_openWrite_self] at hfile
      obtain rfl := Option.some.inj hfile
      exact (fs.read_openWrite_of_ne c.writer.path.temp_ne.symm ha).2
  | writesOut hf => exact ha
  | renames hpc hr =>
      obtain ⟨_, -, -, hsrc, -⟩ := FileSystem.rename_eq_some c.writer.path.temp_ne hr ha
      intro file hfile
      cases hsrc.symm.trans hfile
  | unlinks =>
      intro file hfile
      rw [FileSystem.dir_unlink_self] at hfile
      cases hfile

/-- **The path changes at the rename only**, and then to the complete data. -/
theorem Effect.read {b : Bool} (he : Effect fs c fs' b) (h : Stage fs c)
    (ha : Apart fs c.writer.path) :
    (fs'.read c.writer.path = fs.read c.writer.path ∧ b = c.pc.committed) ∨
      (fs'.read c.writer.path = some c.data ∧ b = true) := by
  cases he with
  | nothing => exact .inl ⟨rfl, rfl⟩
  | opens hpc => exact .inl ⟨(fs.read_openWrite_of_ne c.writer.path.temp_ne.symm ha).1, rfl⟩
  | writesOut hf => exact .inl ⟨fs.read_setContent_of_ne (h.toPrivate hf).path _, rfl⟩
  | renames hpc hr => exact .inr ⟨(h.rename_read ha hpc hr).1, rfl⟩
  | unlinks => exact .inl ⟨fs.read_unlink_of_ne c.writer.path.temp_ne.symm, rfl⟩

theorem Moved.request (hm : Moved fs c fs' c') : c'.request = c.request := by
  cases hm <;> rfl

/-- A call gets hold of the temporary file by opening it. -/
theorem Moved.holds (hm : Moved fs c fs' c') (h : Stage fs c) (hn : c.holds = false)
    (hpc : c.pc ≠ .fopen) : c'.holds = false := by
  obtain ⟨hfile, hat⟩ := Bool.or_eq_false_iff.mp hn
  have hnone : c.writer.file = none := by simpa using hfile
  cases hm with
  | opens hopen | openFails hopen => exact absurd hopen hpc
  | accepts _ hf | writesOut _ hf | flushed _ hf => cases hnone.symm.trans hf
  | closes hclose =>
      have hpos := h.position
      simp only [Position, hclose] at hpos
      obtain ⟨stream, hs, -⟩ := hpos
      cases hnone.symm.trans hs
  | opensDir _ hopen => simp [hopen] at hat
  | renames hr | renameFails hr => simp [hr] at hat
  | _ => simp [Call.holds, hnone]

end CppCode.AtomicFile
