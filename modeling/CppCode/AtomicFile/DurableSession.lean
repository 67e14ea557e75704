import CppCode.AtomicFile.Durability

/-!
# CppCode.AtomicFile.DurableSession

What a crash leaves of a session. The steps are those of `AtomicFile.Session`, beside what of the
file system is on the disk (`Posix.Disk`).

`commit()` may fail and be called again, with more `write()` calls in between, so the `fsync()`
that counts is the last one: between it and the rename nothing is written any more, and after the
rename the writer has no stream left (`commitStep_kept`). From then on the path is as good on the
disk as in the file system, unless the directory was not synced (`crash_keeps_commit`). With what
is known of the data, a crash after a successful `commit()` leaves exactly what was written before
it (`session_durable`).

A successful `fsync()` is taken to cover everything that was written to the file before it, also
when an earlier one has failed.
-/

namespace CppCode.AtomicFile

open Concurrency Posix

/-! ### A session and the disk -/

structure DiskSession where
  session : Session
  disk : Disk Path
  /-- Opening the directory or the `fsync()` on it has failed. -/
  dirFailed : Bool

/-- The same position in a call of `atomicWriteFile()`. -/
def SessionPc.inCall : SessionPc → Pc
  | .fopen => .fopen
  | .idle => .returned false
  | .write _ pc => .write pc
  | .commit pc => .commit pc

def Session.asCall (s : Session) : Call :=
  ⟨s.writer, [], s.pc.inCall, none⟩

/-- A step of a method that ends in `t`. -/
def DiskSession.stepped (s : DiskSession) (t : Session) (o : Outcome) : DiskSession where
  session := t
  disk := sync (s.disk.advance s.session.fs t.fs) t.fs s.session.asCall o
  dirFailed := s.dirFailed || failsDirectory s.session.asCall o

def diskSessionStep (s : DiskSession) (a : SessionAction) : Option DiskSession :=
  (sessionStep s.session a).map fun t =>
    match a with
    | .step o => s.stepped t o
    | .call _ | .drop => { s with session := t }

/-- A writer that is being constructed, over a file system that is on the disk. -/
def diskSessionMachine (fs : FileSystem Path) (path : Path) :
    Machine DiskSession SessionAction where
  init := { session := (sessionMachine fs path).init, disk := Disk.all fs, dirFailed := false }
  step := diskSessionStep

/-- `Undamaged`, beside a disk. -/
def UndamagedOnDisk : Guard DiskSession SessionAction := fun s => Undamaged s.session

instance (s : DiskSession) (a : SessionAction) : Decidable (UndamagedOnDisk s a) :=
  inferInstanceAs (Decidable (Undamaged s.session a))

theorem session_of_step {s s' : DiskSession} {a : SessionAction}
    (h : diskSessionStep s a = some s') : sessionStep s.session a = some s'.session := by
  obtain ⟨t, ht, rfl⟩ := Option.map_eq_some_iff.mp h
  cases a with
  | step | call | drop => exact ht

/-- Without the disk, it is a session. -/
theorem reachable_session {fs : FileSystem Path} {path : Path} {s : DiskSession}
    (h : (diskSessionMachine fs path).Reachable UndamagedOnDisk s) :
    (sessionMachine fs path).Reachable Undamaged s.session := by
  refine h.project DiskSession.session rfl ?_
  intro _ _ _ hg hs
  exact Machine.Steps.single hg (session_of_step hs)

/-! ### What is known of the disk -/

/-- The stream is on the file under the temporary name. -/
def AtTemp (fs : FileSystem Path) (w : AtomicFileWriter) : Prop :=
  ∀ stream, w.file = some stream → fs.dir w.path.temp = some stream.file

/-- A name leads to a file whose data is on the disk. -/
def Flushed (fs : FileSystem Path) (disk : Disk Path) (name : Path) : Prop :=
  ∃ file, fs.dir name = some file ∧ disk.synced file = true

/-- The path leads to such a file, on the disk, too, unless the directory failed. -/
def Durable (fs : FileSystem Path) (disk : Disk Path) (path : Path) (dirFailed : Bool) : Prop :=
  Flushed fs disk path ∧ (dirFailed = true ∨ disk.entries path = [fs.dir path])

/-- What is known at a position of `commit()`. -/
def CommitKept (fs : FileSystem Path) (disk : Disk Path) (w : AtomicFileWriter)
    (dirFailed : Bool) : CommitPc → Prop
  | .fflush => AtTemp fs w
  | .fileno | .fsync => ∃ stream, w.file = some stream ∧ fs.dir w.path.temp = some stream.file
  | .fclose =>
      ∃ stream, w.file = some stream ∧ fs.dir w.path.temp = some stream.file ∧
        disk.synced stream.file = true
  | .openDir => w.file = none ∧ Flushed fs disk w.path.temp
  | .rename dirFd =>
      w.file = none ∧ Flushed fs disk w.path.temp ∧ (dirFd = false → dirFailed = true)
  | .syncDir => w.file = none ∧ Flushed fs disk w.path
  | .closeDir result =>
      w.file = none ∧ (result = true → Durable fs disk w.path dirFailed)

/-- What is known once `commit()` has returned. -/
def ReturnKept (fs : FileSystem Path) (disk : Disk Path) (w : AtomicFileWriter)
    (dirFailed : Bool) : Bool → Prop
  | true => w.file = none ∧ Durable fs disk w.path dirFailed
  | false => AtTemp fs w

def NextKept (fs : FileSystem Path) (disk : Disk Path) (w : AtomicFileWriter)
    (dirFailed : Bool) : Next CommitPc → Prop
  | .goto pc => CommitKept fs disk w dirFailed pc
  | .returned result => ReturnKept fs disk w dirFailed result

section Kept

variable {fs fs' : FileSystem Path} {disk : Disk Path} {w w' : AtomicFileWriter}
  {dirFailed : Bool}

theorem atTemp_of_closed (hf : w.file = none) : AtTemp fs w := by
  intro stream hs
  cases hf.symm.trans hs

theorem AtTemp.of_eq {stream : Stream} (hf : w.file = some stream)
    (h : fs.dir w.path.temp = some stream.file) : AtTemp fs w := by
  intro stream' hs
  obtain rfl := Option.some.inj (hf.symm.trans hs)
  exact h

theorem AtTemp.writeOut (h : AtTemp fs w) {n : Nat} (hout : writeOutStep fs w n = some (fs', w')) :
    AtTemp fs' w' ∧ w'.path = w.path := by
  obtain ⟨stream, hf, rfl, rfl⟩ := writeOutStep_some hout
  exact ⟨AtTemp.of_eq rfl (h stream hf), rfl⟩

/-- The rename takes the file to the path. -/
theorem Flushed.rename {path : Path} (h : Flushed fs disk path.temp)
    (hr : fs.rename path.temp path = some fs') : Flushed fs' (disk.advance fs fs') path := by
  obtain ⟨file, hfile, hsynced⟩ := h
  refine ⟨file, (FileSystem.dir_rename_dst path.temp_ne hr).trans hfile, ?_⟩
  exact Disk.synced_advance hsynced (by rw [FileSystem.content_rename hr])

end Kept

/-! ### `commit()` -/

section Commit

variable {fs fs' : FileSystem Path} {disk : Disk Path} {w' : AtomicFileWriter} {dirFailed : Bool}
  {c : Call} {o : Outcome} {next : Next CommitPc}

/-- At any other position nothing is put on the disk. -/
theorem sync_eq (hfsync : c.pc ≠ .commit .fsync) (hdir : c.pc ≠ .commit .syncDir) :
    sync disk fs c o = disk := by
  unfold sync
  split
  next hpc => exact absurd hpc hfsync
  next hpc => exact absurd hpc hdir
  next => rfl

theorem fflush_kept (h : AtTemp fs c.writer)
    (hstep : commitStep fs c.writer .fflush o = some (fs', w', next)) :
    w'.path = c.writer.path ∧ NextKept fs' (sync (disk.advance fs fs') fs' c o) w'
      (dirFailed || failsDirectory c o) next := by
  cases o with
  | writeOut n =>
      obtain ⟨⟨fs₁, w₁⟩, hout, heq⟩ := Option.map_eq_some_iff.mp hstep
      obtain ⟨rfl, rfl, rfl⟩ := by simpa using heq
      exact ⟨(h.writeOut hout).2, (h.writeOut hout).1⟩
  | ok =>
      simp only [commitStep] at hstep
      split at hstep
      next hf =>
        obtain ⟨rfl, rfl, rfl⟩ := by simpa using hstep
        exact ⟨rfl, h⟩
      next stream hf =>
        split at hstep
        next =>
          obtain ⟨rfl, rfl, rfl⟩ := by simpa using hstep
          exact ⟨rfl, stream, hf, h stream hf⟩
        next => cases hstep
  | fail =>
      obtain ⟨rfl, rfl, rfl⟩ := by simpa [commitStep] using hstep
      exact ⟨rfl, h⟩
  | accept n => cases hstep

theorem fsync_kept (hpc : c.pc = .commit .fsync)
    (h : ∃ stream, c.writer.file = some stream ∧ fs.dir c.writer.path.temp = some stream.file)
    (hstep : commitStep fs c.writer .fsync o = some (fs', w', next)) :
    w'.path = c.writer.path ∧ NextKept fs' (sync (disk.advance fs fs') fs' c o) w'
      (dirFailed || failsDirectory c o) next := by
  obtain ⟨stream, hf, hnamed⟩ := h
  cases o with
  | ok =>
      obtain ⟨rfl, rfl, rfl⟩ := by simpa [commitStep] using hstep
      refine ⟨rfl, stream, hf, hnamed, ?_⟩
      simp [sync, hpc, hf, Disk.fsync]
  | fail =>
      obtain ⟨rfl, rfl, rfl⟩ := by simpa [commitStep] using hstep
      exact ⟨rfl, AtTemp.of_eq hf hnamed⟩
  | accept n => cases hstep
  | writeOut n => cases hstep

theorem openDir_kept (hpc : c.pc = .commit .openDir)
    (h : c.writer.file = none ∧ Flushed fs disk c.writer.path.temp)
    (hstep : commitStep fs c.writer .openDir o = some (fs', w', next)) :
    w'.path = c.writer.path ∧ NextKept fs' (sync (disk.advance fs fs') fs' c o) w'
      (dirFailed || failsDirectory c o) next := by
  have hsync : sync (disk.advance fs fs) fs c o = disk := by
    rw [sync_eq (by rw [hpc]; decide) (by rw [hpc]; decide), Disk.advance_self]
  cases o with
  | ok =>
      obtain ⟨rfl, rfl, rfl⟩ := by simpa [commitStep] using hstep
      rw [hsync]
      exact ⟨rfl, h.1, h.2, by intro hc; cases hc⟩
  | fail =>
      obtain ⟨rfl, rfl, rfl⟩ := by simpa [commitStep] using hstep
      rw [hsync]
      exact ⟨rfl, h.1, h.2, fun _ => by simp [failsDirectory, hpc]⟩
  | accept n => cases hstep
  | writeOut n => cases hstep

theorem rename_kept {dirFd : Bool} (hpc : c.pc = .commit (.rename dirFd))
    (h : c.writer.file = none ∧ Flushed fs disk c.writer.path.temp ∧
      (dirFd = false → dirFailed = true))
    (hstep : commitStep fs c.writer (.rename dirFd) o = some (fs', w', next)) :
    w'.path = c.writer.path ∧ NextKept fs' (sync (disk.advance fs fs') fs' c o) w'
      (dirFailed || failsDirectory c o) next := by
  obtain ⟨hf, hflushed, hfailed⟩ := h
  have hsync : sync (disk.advance fs fs') fs' c o = disk.advance fs fs' :=
    sync_eq (by rw [hpc]; intro hc; cases hc) (by rw [hpc]; intro hc; cases hc)
  rw [hsync]
  cases o with
  | ok =>
      obtain ⟨fs₁, hr, heq⟩ := Option.map_eq_some_iff.mp hstep
      obtain ⟨rfl, rfl, rfl⟩ := by simpa using heq
      cases dirFd with
      | true => exact ⟨rfl, hf, hflushed.rename hr⟩
      | false =>
          refine ⟨rfl, hf, hflushed.rename hr, .inl ?_⟩
          rw [hfailed rfl, Bool.true_or]
  | fail =>
      obtain ⟨rfl, rfl, rfl⟩ := by simpa [commitStep] using hstep
      cases dirFd with
      | true => exact ⟨rfl, hf, by intro hc; cases hc⟩
      | false => exact ⟨rfl, atTemp_of_closed hf⟩
  | accept n => cases hstep
  | writeOut n => cases hstep

theorem syncDir_kept (hpc : c.pc = .commit .syncDir)
    (h : c.writer.file = none ∧ Flushed fs disk c.writer.path)
    (hstep : commitStep fs c.writer .syncDir o = some (fs', w', next)) :
    w'.path = c.writer.path ∧ NextKept fs' (sync (disk.advance fs fs') fs' c o) w'
      (dirFailed || failsDirectory c o) next := by
  obtain ⟨hf, file, hfile, hsynced⟩ := h
  cases o with
  | ok =>
      obtain ⟨rfl, rfl, rfl⟩ := by simpa [commitStep] using hstep
      refine ⟨rfl, hf, fun _ => ⟨⟨file, hfile, ?_⟩, .inr ?_⟩⟩
      · exact sync_synced hsynced rfl
      · exact sync_entries_path (by simp [syncsDirectory, hpc])
  | fail =>
      obtain ⟨rfl, rfl, rfl⟩ := by simpa [commitStep] using hstep
      refine ⟨rfl, hf, fun _ => ⟨⟨file, hfile, ?_⟩, .inl ?_⟩⟩
      · exact sync_synced hsynced rfl
      · simp [failsDirectory, hpc]
  | accept n => cases hstep
  | writeOut n => cases hstep

/-- **Step rule.** Every step of `commit()` keeps what is known of the disk. -/
theorem commitStep_kept {pc : CommitPc} (hpc : c.pc = .commit pc)
    (h : CommitKept fs disk c.writer dirFailed pc)
    (hstep : commitStep fs c.writer pc o = some (fs', w', next)) :
    w'.path = c.writer.path ∧ NextKept fs' (sync (disk.advance fs fs') fs' c o) w'
      (dirFailed || failsDirectory c o) next := by
  cases pc with
  | fflush => exact fflush_kept h hstep
  | fsync => exact fsync_kept hpc h hstep
  | openDir => exact openDir_kept hpc h hstep
  | rename dirFd => exact rename_kept hpc h hstep
  | syncDir => exact syncDir_kept hpc h hstep
  | fileno =>
      obtain ⟨stream, hf, hnamed⟩ := h
      cases o with
      | ok =>
          obtain ⟨rfl, rfl, rfl⟩ := by simpa [commitStep] using hstep
          exact ⟨rfl, stream, hf, hnamed⟩
      | fail =>
          obtain ⟨rfl, rfl, rfl⟩ := by simpa [commitStep] using hstep
          exact ⟨rfl, AtTemp.of_eq hf hnamed⟩
      | accept n => cases hstep
      | writeOut n => cases hstep
  | fclose =>
      obtain ⟨stream, hf, hnamed, hsynced⟩ := h
      cases o with
      | ok =>
          obtain ⟨rfl, rfl, rfl⟩ := by simpa [commitStep] using hstep
          exact ⟨rfl, rfl, stream.file, hnamed, sync_synced hsynced rfl⟩
      | fail => cases hstep
      | accept n => cases hstep
      | writeOut n => cases hstep
  | closeDir result =>
      have hsync : sync (disk.advance fs fs) fs c o = disk := by
        rw [sync_eq (by rw [hpc]; intro hc; cases hc) (by rw [hpc]; intro hc; cases hc),
          Disk.advance_self]
      have hfails : failsDirectory c o = false := by simp [failsDirectory, hpc]
      cases o with
      | ok | fail =>
          obtain ⟨rfl, rfl, rfl⟩ := by simpa [commitStep] using hstep
          rw [hsync, hfails, Bool.or_false]
          cases result with
          | true => exact ⟨rfl, h.1, h.2 rfl⟩
          | false => exact ⟨rfl, atTemp_of_closed h.1⟩
      | accept n => cases hstep
      | writeOut n => cases hstep

end Commit

/-! ### The session -/

theorem Session.afterWrite_writer (s : Session) (data : List UInt8) (next : Next WritePc) :
    (s.afterWrite data next).writer = s.writer := by
  cases next with
  | goto pc | returned result => rfl

theorem Session.afterCommit_writer (s : Session) (next : Next CommitPc) :
    (s.afterCommit next).writer = s.writer := by
  cases next with
  | goto pc | returned result => rfl

/-- No `commit()` has returned `true` yet. -/
def BeforeCommit (s : DiskSession) : Prop :=
  Uncommitted s.session.history ∧
    match s.session.pc with
    | .commit pc => CommitKept s.session.fs s.disk s.session.writer s.dirFailed pc
    | _ => AtTemp s.session.fs s.session.writer

/-- A `commit()` has returned `true`. There is no stream any more, so that every later call is
over before it has done anything. -/
structure AfterCommit (s : DiskSession) : Prop where
  closed : s.session.writer.file = none
  entered : s.session.pc = .idle ∨ (∃ data, s.session.pc = .write data .enter) ∨
    s.session.pc = .commit .fflush
  durable : Durable s.session.fs s.disk s.session.writer.path s.dirFailed
  read_eq : ∀ e ∈ s.session.history, e.op = .commit → e.result = true →
    e.read = s.session.fs.read s.session.writer.path

structure DiskSessionOk (path : Path) (s : DiskSession) : Prop where
  path_eq : s.session.writer.path = path
  live : ∀ name, s.session.fs.dir name ∈ s.disk.entries name
  stage : BeforeCommit s ∨ AfterCommit s

section Session

variable {path : Path} {s s' : DiskSession} {t : Session} {a : SessionAction} {o : Outcome}

theorem constructStep_atTemp {fs fs' : FileSystem Path} {w w' : AtomicFileWriter}
    (h : constructStep fs w o = some (fs', w')) : AtTemp fs' w' ∧ w'.path = w.path := by
  cases o with
  | ok =>
      obtain ⟨rfl, rfl⟩ := by simpa [constructStep] using h
      exact ⟨AtTemp.of_eq rfl (fs.dir_openWrite_self _), rfl⟩
  | fail =>
      obtain ⟨rfl, rfl⟩ := by simpa [constructStep] using h
      exact ⟨atTemp_of_closed rfl, rfl⟩
  | accept n => cases h
  | writeOut n => cases h

/-- `write()` leaves the stream on its file. -/
theorem writeStep_atTemp {fs fs' : FileSystem Path} {w w' : AtomicFileWriter} {data : List UInt8}
    {pc : WritePc} {next : Next WritePc} (h : AtTemp fs w)
    (hstep : writeStep fs w data pc o = some (fs', w', next)) :
    AtTemp fs' w' ∧ w'.path = w.path := by
  unfold writeStep at hstep
  split at hstep
  next =>
    obtain ⟨rfl, rfl, rfl⟩ := by simpa using hstep
    exact ⟨h, rfl⟩
  next stream n hf =>
    split at hstep
    next =>
      obtain ⟨rfl, rfl, rfl⟩ := by simpa using hstep
      exact ⟨AtTemp.of_eq rfl (h stream hf), rfl⟩
    next => cases hstep
  next =>
    obtain ⟨⟨fs₁, w₁⟩, hout, heq⟩ := Option.map_eq_some_iff.mp hstep
    obtain ⟨rfl, rfl, rfl⟩ := by simpa using heq
    exact h.writeOut hout
  next =>
    obtain ⟨rfl, rfl, rfl⟩ := by simpa using hstep
    exact ⟨h, rfl⟩
  next => cases hstep

theorem construct_before (h : BeforeCommit s) {fs : FileSystem Path} {w : AtomicFileWriter}
    (hstep : constructStep s.session.fs s.session.writer o = some (fs, w)) :
    BeforeCommit (s.stepped { s.session with fs := fs, writer := w, pc := .idle } o) :=
  ⟨h.1, (constructStep_atTemp hstep).1⟩

theorem write_before (h : BeforeCommit s) {data : List UInt8} {pc : WritePc}
    (hpc : s.session.pc = .write data pc) {fs : FileSystem Path} {w : AtomicFileWriter}
    {next : Next WritePc}
    (hstep : writeStep s.session.fs s.session.writer data pc o = some (fs, w, next)) :
    BeforeCommit (s.stepped ({ s.session with
      fs := fs, writer := w
      damaged := s.session.damaged || o.short data }.afterWrite data next) o) := by
  obtain ⟨hu, hnamed⟩ := h
  simp only [hpc] at hnamed
  have hnamed' := (writeStep_atTemp hnamed hstep).1
  cases next with
  | goto pc => exact ⟨hu, hnamed'⟩
  | returned result =>
      refine ⟨hu.concat ?_, hnamed'⟩
      intro hop
      cases hop

/-- A step of `commit()`: either it has not returned `true`, or this is where it does. -/
theorem commit_before (h : BeforeCommit s) {pc : CommitPc} (hpc : s.session.pc = .commit pc)
    {fs : FileSystem Path} {w : AtomicFileWriter} {next : Next CommitPc}
    (hstep : commitStep s.session.fs s.session.writer pc o = some (fs, w, next)) :
    let s' := s.stepped ({ s.session with fs := fs, writer := w }.afterCommit next) o
    w.path = s.session.writer.path ∧ (BeforeCommit s' ∨ AfterCommit s') := by
  obtain ⟨hu, hkept⟩ := h
  simp only [hpc] at hkept
  have hcall : s.session.asCall.pc = .commit pc := by rw [Session.asCall, hpc, SessionPc.inCall]
  obtain ⟨hpath, hnext⟩ := commitStep_kept (c := s.session.asCall) hcall hkept hstep
  refine ⟨hpath, ?_⟩
  cases next with
  | goto pc => exact .inl ⟨hu, hnext⟩
  | returned result =>
      cases result with
      | false => exact .inl ⟨hu.concat fun _ => rfl, hnext⟩
      | true =>
          refine .inr ⟨hnext.1, .inl rfl, hnext.2, ?_⟩
          intro e he hop hr
          rcases mem_concat.mp he with he | rfl
          · cases (hu e he hop).symm.trans hr
          · rfl

theorem drop_before (h : BeforeCommit s) (hpc : s.session.pc = .commit .fflush)
    {stream : Stream} (hf : s.session.writer.file = some stream) :
    BeforeCommit { s with session := { s.session with
      writer := { s.session.writer with file := some { stream with pending := [] } }
      damaged := s.session.damaged || !stream.pending.isEmpty }.ret .commit false } := by
  obtain ⟨hu, hkept⟩ := h
  simp only [hpc] at hkept
  exact ⟨hu.concat fun _ => rfl, AtTemp.of_eq rfl (hkept stream hf)⟩

theorem stepped_live (h : ∀ name, s.session.fs.dir name ∈ s.disk.entries name) (t : Session)
    (o : Outcome) (name : Path) : t.fs.dir name ∈ (s.stepped t o).disk.entries name :=
  sync_live (Disk.live_advance (h name))

/-- A method returns `false` on a writer without a stream. -/
theorem AfterCommit.refused (h : AfterCommit s) (op : Op) (damaged : Bool) (o : Outcome) :
    AfterCommit (s.stepped ({ s.session with damaged := damaged }.ret op false) o) := by
  have hcall : s.session.asCall.pc = s.session.pc.inCall := rfl
  obtain ⟨hfsync, hdir⟩ :
      s.session.asCall.pc ≠ .commit .fsync ∧ s.session.asCall.pc ≠ .commit .syncDir := by
    rcases h.entered with hpc | ⟨data, hpc⟩ | hpc
    · simp [hcall, hpc, SessionPc.inCall]
    · simp [hcall, hpc, SessionPc.inCall]
    · simp [hcall, hpc, SessionPc.inCall]
  -- nothing has changed, so that there is nothing to put on the disk
  have hdurable : Durable s.session.fs
      (sync (s.disk.advance s.session.fs s.session.fs) s.session.fs s.session.asCall o)
      s.session.writer.path (s.dirFailed || failsDirectory s.session.asCall o) := by
    rw [sync_eq hfsync hdir, Disk.advance_self]
    exact h.durable.imp_right (Or.imp_left fun hd => Bool.or_eq_true_iff.mpr (.inl hd))
  refine ⟨h.closed, .inl rfl, hdurable, ?_⟩
  intro e he hop hr
  rcases mem_concat.mp he with he | rfl
  · exact h.read_eq e he hop hr
  · cases hr

theorem writeStep_closed {fs : FileSystem Path} {w : AtomicFileWriter} {data : List UInt8}
    {r : FileSystem Path × AtomicFileWriter × Next WritePc} (hf : w.file = none)
    (h : writeStep fs w data .enter o = some r) : r = (fs, w, .returned false) := by
  cases o with
  | ok => simpa [writeStep, hf] using h.symm
  | accept n => simp [writeStep, hf] at h
  | fail | writeOut n => simp [writeStep] at h

theorem commitStep_closed {fs : FileSystem Path} {w : AtomicFileWriter}
    {r : FileSystem Path × AtomicFileWriter × Next CommitPc} (hf : w.file = none)
    (h : commitStep fs w .fflush o = some r) : r = (fs, w, .returned false) := by
  cases o with
  | ok | fail => simpa [commitStep, hf] using h.symm
  | writeOut n => simp [commitStep, writeOutStep, hf] at h
  | accept n => simp [commitStep] at h

/-- A step of a method after the commit. -/
theorem step_after (h : AfterCommit s) (hs : sessionStep s.session (.step o) = some t) :
    t.writer = s.session.writer ∧ AfterCommit (s.stepped t o) := by
  rcases h.entered with hpc | ⟨data, hpc⟩ | hpc
  · simp [sessionStep, hpc] at hs
  · simp only [sessionStep, hpc] at hs
    obtain ⟨r, hstep, rfl⟩ := Option.map_eq_some_iff.mp hs
    obtain rfl := writeStep_closed h.closed hstep
    exact ⟨rfl, h.refused (.write data) _ o⟩
  · simp only [sessionStep, hpc] at hs
    obtain ⟨r, hstep, rfl⟩ := Option.map_eq_some_iff.mp hs
    obtain rfl := commitStep_closed h.closed hstep
    exact ⟨rfl, h.refused .commit _ o⟩

theorem step_before (h : BeforeCommit s) (hs : sessionStep s.session (.step o) = some t) :
    t.writer.path = s.session.writer.path ∧
      (BeforeCommit (s.stepped t o) ∨ AfterCommit (s.stepped t o)) := by
  cases hpc : s.session.pc with
  | fopen =>
      simp only [sessionStep, hpc] at hs
      obtain ⟨⟨fs, w⟩, hstep, rfl⟩ := Option.map_eq_some_iff.mp hs
      exact ⟨(constructStep_atTemp hstep).2, .inl (construct_before h hstep)⟩
  | idle => simp [sessionStep, hpc] at hs
  | write data pc =>
      simp only [sessionStep, hpc] at hs
      obtain ⟨⟨fs, w, next⟩, hstep, rfl⟩ := Option.map_eq_some_iff.mp hs
      have hnamed := h.2
      simp only [hpc] at hnamed
      refine ⟨?_, .inl (write_before h hpc hstep)⟩
      rw [Session.afterWrite_writer]
      exact (writeStep_atTemp hnamed hstep).2
  | commit pc =>
      simp only [sessionStep, hpc] at hs
      obtain ⟨⟨fs, w, next⟩, hstep, rfl⟩ := Option.map_eq_some_iff.mp hs
      obtain ⟨hpath, hstage⟩ := commit_before h hpc hstep
      refine ⟨?_, hstage⟩
      rw [Session.afterCommit_writer]
      exact hpath

theorem call_ok (h : DiskSessionOk path s) {op : Op}
    (hs : sessionStep s.session (.call op) = some t) :
    DiskSessionOk path { s with session := t } := by
  cases hpc : s.session.pc with
  | fopen | write data pc | commit pc => simp [sessionStep, hpc] at hs
  | idle =>
      cases op with
      | write data =>
          obtain rfl := by simpa [sessionStep, hpc] using hs.symm
          refine ⟨h.path_eq, h.live, ?_⟩
          rcases h.stage with ⟨hu, hkept⟩ | ha
          · simp only [hpc] at hkept
            exact .inl ⟨hu, hkept⟩
          · exact .inr ⟨ha.closed, .inr (.inl ⟨data, rfl⟩), ha.durable, ha.read_eq⟩
      | commit =>
          obtain rfl := by simpa [sessionStep, hpc] using hs.symm
          refine ⟨h.path_eq, h.live, ?_⟩
          rcases h.stage with ⟨hu, hkept⟩ | ha
          · simp only [hpc] at hkept
            exact .inl ⟨hu, hkept⟩
          · exact .inr ⟨ha.closed, .inr (.inr rfl), ha.durable, ha.read_eq⟩

/-- `fflush()` fails and drops what was buffered. Only then is there an open stream. -/
theorem drop_ok (h : DiskSessionOk path s) (hs : sessionStep s.session .drop = some t) :
    DiskSessionOk path { s with session := t } := by
  cases hpc : s.session.pc with
  | fopen | idle | write data pc => simp [sessionStep, hpc] at hs
  | commit pc =>
      cases pc with
      | fflush =>
          simp only [sessionStep, hpc] at hs
          split at hs
          next => cases hs
          next stream hf =>
            obtain rfl := Option.some.inj hs
            rcases h.stage with hb | ha
            · exact ⟨h.path_eq, h.live, .inl (drop_before hb hpc hf)⟩
            · cases ha.closed.symm.trans hf
      | fileno | fsync | fclose | openDir | rename dirFd | syncDir | closeDir result =>
          simp [sessionStep, hpc] at hs

/-- **Step rule.** -/
theorem diskSessionStep_ok (h : DiskSessionOk path s) (hs : diskSessionStep s a = some s') :
    DiskSessionOk path s' := by
  obtain ⟨t, ht, rfl⟩ := Option.map_eq_some_iff.mp hs
  cases a with
  | step o =>
      obtain ⟨hpath, hstage⟩ :
          t.writer.path = s.session.writer.path ∧
            (BeforeCommit (s.stepped t o) ∨ AfterCommit (s.stepped t o)) := by
        rcases h.stage with hb | ha
        · exact step_before hb ht
        · obtain ⟨hw, ha'⟩ := step_after ha ht
          exact ⟨by rw [hw], .inr ha'⟩
      exact ⟨hpath.trans h.path_eq, stepped_live h.live t o, hstage⟩
  | call op => exact call_ok h ht
  | drop => exact drop_ok h ht

theorem reachable_diskSessionOk {fs : FileSystem Path} {G : Guard DiskSession SessionAction}
    (h : (diskSessionMachine fs path).Reachable G s) : DiskSessionOk path s := by
  refine h.invariant
    ⟨rfl, fun _ => List.mem_singleton_self _, .inl ⟨?_, atTemp_of_closed rfl⟩⟩ ?_
  · intro e he
    cases he
  · intro _ _ _ _ hi _ hs
    exact diskSessionStep_ok hi hs

/-- **A crash keeps a commit.** Whatever fails in a session but opening the directory and the
`fsync()` on it: from a `commit()` that has returned `true` on, a crash at any time leaves at the
path what was there when it returned. -/
theorem crash_keeps_commit {fs : FileSystem Path} {G : Guard DiskSession SessionAction}
    (h : (diskSessionMachine fs path).Reachable G s) {e : Returned}
    (he : e ∈ s.session.history) (hop : e.op = .commit) (hr : e.result = true)
    (hdir : s.dirFailed = false) {after : FileSystem Path}
    (hcrash : Survives s.session.fs s.disk after) : after.read path = e.read := by
  have hok := reachable_diskSessionOk h
  obtain rfl := hok.path_eq
  rcases hok.stage with ⟨hu, -⟩ | ha
  · cases (hu e he hop).symm.trans hr
  · obtain ⟨⟨file, hfile, hsynced⟩, hfailed | hentries⟩ := ha.durable
    · cases hdir.symm.trans hfailed
    · have hread := hcrash.read_eq (hentries.trans (by rw [hfile])) hsynced
      have hnow : s.session.fs.read s.session.writer.path = some (s.session.fs.content file) := by
        rw [FileSystem.read, hfile, Option.map_some]
      rw [hread, ha.read_eq e he hop hr, hnow]

/-- **A committed session is durable.** For any calls of `write()` and `commit()`, failing in any
way, in which `commit()` is not called on an open stream that has lost bytes: once a `commit()`
has returned `true`, and neither opening the directory nor the `fsync()` on it has failed, a crash
at any time leaves at the path exactly the data of the `write()` calls before it, in order. -/
theorem session_durable (fs : FileSystem Path) (path : Path) {s : DiskSession}
    (h : (diskSessionMachine fs path).Reachable UndamagedOnDisk s) {before later : List Returned}
    {e : Returned} (hhistory : s.session.history = before ++ e :: later) (hop : e.op = .commit)
    (hr : e.result = true) (hdir : s.dirFailed = false) {after : FileSystem Path}
    (hcrash : Survives s.session.fs s.disk after) :
    after.read path = some (written before) := by
  have hintact := (reachable_sessionOk (reachable_session h)).intact
  obtain ⟨-, hread, -⟩ := hintact before e later hhistory hop hr
  rw [crash_keeps_commit h (by simp [hhistory]) hop hr hdir hcrash, hread]

/-- The first `commit()` fails at the `fflush()`, one more byte is written, and the second
`commit()` succeeds. -/
theorem session_durable_second_commit :
    ∃ s : DiskSession,
      (diskSessionMachine (oneFile [conf] [7]) conf).Reachable UndamagedOnDisk s ∧
        s.session.history = [⟨.write [1, 2], true, some [7]⟩, ⟨.commit, false, some [7]⟩,
          ⟨.write [3], true, some [7]⟩, ⟨.commit, true, some [1, 2, 3]⟩] ∧
        Survives s.session.fs s.disk s.session.fs ∧ s.session.fs.read conf = some [1, 2, 3] := by
  obtain ⟨s, hs, hp⟩ := Machine.reachable_of_execWithin
    (M := diskSessionMachine (oneFile [conf] [7]) conf) (G := UndamagedOnDisk)
    (l := opened ++ writeCall [1, 2] 2 ++
      [SessionAction.call .commit, .step (.writeOut 1), .step .fail] ++
      writeCall [3] 1 ++ commitCall 2)
    (p := fun s => s.session.history == [⟨.write [1, 2], true, some [7]⟩,
        ⟨.commit, false, some [7]⟩, ⟨.write [3], true, some [7]⟩,
        ⟨.commit, true, some [1, 2, 3]⟩] && s.dirFailed == false) (by decide)
  obtain ⟨hhistory, hdir⟩ := Bool.and_eq_true_iff.mp hp
  have hsplit : s.session.history = [⟨.write [1, 2], true, some [7]⟩,
      ⟨.commit, false, some [7]⟩, ⟨.write [3], true, some [7]⟩] ++
      ⟨.commit, true, some [1, 2, 3]⟩ :: [] := eq_of_beq hhistory
  have hcrash : Survives s.session.fs s.disk s.session.fs :=
    ⟨(reachable_diskSessionOk hs).live, fun _ _ => rfl⟩
  exact ⟨s, hs, hsplit, hcrash,
    session_durable _ _ hs hsplit rfl rfl (eq_of_beq hdir) hcrash⟩

end Session

end CppCode.AtomicFile
