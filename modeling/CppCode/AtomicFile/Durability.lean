import CppCode.Posix.Crash
import CppCode.AtomicFile.Session

/-!
# CppCode.AtomicFile.Durability

One call of `atomicWriteFile()` and what a crash leaves of it. The steps are those of
`AtomicFile.Model`; beside the file system stands what of it is on the disk (`Posix.Disk`),
which a successful `fsync()` on the file or on the directory completes.

Once `commit()` has returned `true` and the directory was synced, the path holds the data after
every crash (`commit_durable`). The result does not tell whether it was: `commit()` goes on when
the directory cannot be opened, and then a crash may undo the rename (`crash_may_undo`,
`unsynced_directory_undone`). Any other calls of the methods are in `AtomicFile.DurableSession`.
-/

namespace CppCode.AtomicFile

open Concurrency Posix

/-! ### A call and the disk -/

structure DiskState where
  fs : FileSystem Path
  call : Call
  disk : Disk Path
  /-- The `fsync()` on the directory has succeeded. -/
  dirSynced : Bool
  /-- Opening the directory or the `fsync()` on it has failed. -/
  dirFailed : Bool

/-- The step is an `fsync()` on the directory that succeeds. -/
def syncsDirectory (c : Call) (o : Outcome) : Bool :=
  c.pc == .commit .syncDir && o == .ok

/-- The step is an attempt to open or to sync the directory that fails. -/
def failsDirectory (c : Call) (o : Outcome) : Bool :=
  (c.pc == .commit .openDir || c.pc == .commit .syncDir) && o == .fail

/-- What a step that ends in `fs` puts on the disk. -/
def sync (disk : Disk Path) (fs : FileSystem Path) (c : Call) (o : Outcome) : Disk Path :=
  match c.pc, o with
  | .commit .fsync, .ok =>
      match c.writer.file with
      | none => disk
      | some stream => disk.fsync stream.file
  | .commit .syncDir, .ok =>
      disk.fsyncDir fs fun name => name.parent == c.writer.path.parent
  | _, _ => disk

def diskStep (s : DiskState) (o : Outcome) : Option DiskState :=
  (callStep s.fs s.call o).map fun (fs, c) =>
    { fs := fs
      call := c
      disk := sync (s.disk.advance s.fs fs) fs s.call o
      dirSynced := s.dirSynced || syncsDirectory s.call o
      dirFailed := s.dirFailed || failsDirectory s.call o }

/-- A call that is yet to begin, over a file system that is on the disk. -/
def diskMachine (fs : FileSystem Path) (request : Request) : Machine DiskState Outcome where
  init :=
    { fs := fs, call := request.start, disk := Disk.all fs, dirSynced := false
      dirFailed := false }
  step := diskStep

/-- `commit()` has returned `true`. -/
def Pc.commitReturned : Pc → Bool
  | .destroy _ result | .returned result | .terminated result => result
  | _ => false

section Sync

variable {disk : Disk Path} {fs fs' : FileSystem Path} {c c' : Call} {o : Outcome}

theorem sync_entries (h : syncsDirectory c o = false) :
    (sync disk fs c o).entries = disk.entries := by
  unfold sync
  split
  · split <;> rfl
  · rename_i hpc
    simp [syncsDirectory, hpc] at h
  · rfl

theorem sync_entries_path (h : syncsDirectory c o = true) :
    (sync disk fs c o).entries c.writer.path = [fs.dir c.writer.path] := by
  obtain ⟨hpc, rfl⟩ : c.pc = .commit .syncDir ∧ o = .ok := by simpa [syncsDirectory] using h
  simp [sync, hpc, Disk.fsyncDir]

theorem sync_live {name : Path} (h : fs.dir name ∈ disk.entries name) :
    fs.dir name ∈ (sync disk fs c o).entries name := by
  unfold sync
  split
  · split <;> exact h
  · simp only [Disk.fsyncDir]
    split
    · exact List.mem_singleton_self _
    · exact h
  · exact h

/-- The data of a file stays on the disk as long as it does not change. -/
theorem sync_synced {file : Nat} (h : disk.synced file = true)
    (hc : fs'.content file = fs.content file) :
    (sync (disk.advance fs fs') fs' c o).synced file = true := by
  have hadvance := Disk.synced_advance h hc
  unfold sync
  split
  · split
    · exact hadvance
    · exact Disk.synced_fsync hadvance _
  · exact hadvance
  · exact hadvance

/-- `commit()` gets past the `fsync()` on the file when it has succeeded. -/
theorem fsync_synced (h : callStep fs c o = some (fs', c')) (hpc : c.pc = .commit .fsync)
    (hpc' : c'.pc = .commit .fclose) {stream : Stream} (hf : c.writer.file = some stream) :
    (sync disk fs' c o).synced stream.file = true := by
  cases o with
  | ok => simp [sync, hpc, hf, Disk.fsync]
  | fail =>
      simp only [callStep, hpc, commitStep, Option.map_some, Option.some.injEq, Prod.mk.injEq] at h
      rw [← h.2] at hpc'
      cases hpc'
  | accept n | writeOut n => simp [callStep, hpc, commitStep] at h

end Sync

/-! ### What is in the file, and on the disk -/

/-- The name leads to a file with the data, and the data is on the disk. -/
def Stored (fs : FileSystem Path) (disk : Disk Path) (name : Path) (data : List UInt8) : Prop :=
  ∃ file, fs.dir name = some file ∧ fs.content file = data ∧ disk.synced file = true

/-- What is known at the position of a call. Unlike `Position` it does without `Apart`. -/
def Held (fs : FileSystem Path) (disk : Disk Path) (c : Call) : Prop :=
  match c.pc with
  | .write .enter =>
      ∀ stream, c.writer.file = some stream → Carries fs c.writer.path stream []
  | .write (.fwrite n) =>
      ∃ stream, c.writer.file = some stream ∧ Carries fs c.writer.path stream (c.data.take n)
  | .commit .fflush =>
      ∃ stream, c.writer.file = some stream ∧ Carries fs c.writer.path stream c.data
  | .commit .fileno | .commit .fsync =>
      ∃ stream, c.writer.file = some stream ∧ Carries fs c.writer.path stream c.data ∧
        stream.pending = []
  | .commit .fclose =>
      ∃ stream, c.writer.file = some stream ∧ Carries fs c.writer.path stream c.data ∧
        stream.pending = [] ∧ disk.synced stream.file = true
  | .commit .openDir | .commit (.rename _) =>
      c.writer.file = none ∧ Stored fs disk c.writer.path.temp c.data
  | pc => pc.committed = true → c.writer.file = none ∧ Stored fs disk c.writer.path c.data

section Held

variable {fs fs' : FileSystem Path} {disk disk' : Disk Path} {c c' : Call}

theorem Stored.mono {name : Path} {data : List UInt8} (h : Stored fs disk name data)
    (hdir : fs'.dir name = fs.dir name) (hcontent : fs'.content = fs.content)
    (hdisk : ∀ file, disk.synced file = true → fs'.content file = fs.content file →
      disk'.synced file = true) : Stored fs' disk' name data := by
  obtain ⟨file, hfile, hdata, hsynced⟩ := h
  exact ⟨file, hdir.trans hfile, by rw [hcontent, hdata],
    hdisk file hsynced (by rw [hcontent])⟩

/-- The rename takes what is stored from the temporary name to the path. -/
theorem Stored.rename {path : Path} {data : List UInt8} (h : Stored fs disk path.temp data)
    (hr : fs.rename path.temp path = some fs')
    (hdisk : ∀ file, disk.synced file = true → fs'.content file = fs.content file →
      disk'.synced file = true) : Stored fs' disk' path data := by
  obtain ⟨file, hfile, hdata, hsynced⟩ := h
  have hcontent := FileSystem.content_rename hr
  refine ⟨file, ?_, by rw [hcontent, hdata], hdisk file hsynced (by rw [hcontent])⟩
  rw [FileSystem.dir_rename_dst path.temp_ne hr, hfile]

theorem Held.committed (h : Held fs disk c) (hc : c.pc.committed = true) :
    c.writer.file = none ∧ Stored fs disk c.writer.path c.data := by
  unfold Held at h
  split at h
  all_goals first
    | exact h hc
    | (rename_i hpc; simp [hpc, Pc.committed] at hc)

theorem Moved.held (hm : Moved fs c fs' c') (h : Held fs disk c)
    (hdisk : ∀ file, disk.synced file = true → fs'.content file = fs.content file →
      disk'.synced file = true)
    (hfsync : c.pc = .commit .fsync → c'.pc = .commit .fclose →
      ∀ stream, c.writer.file = some stream → disk'.synced stream.file = true) :
    Held fs' disk' c' := by
  have hpos := h
  cases hm with
  | createsDirectories hpc | throws hpc => exact nofun
  | opens hpc =>
      intro stream hs
      obtain rfl := Option.some.inj hs
      exact ⟨fs.dir_openWrite_self _, by simp, by simp⟩
  | openFails hpc =>
      intro stream hs
      cases hs
  | writeRefused hpc hf | writtenShort hpc hn | commitRefused hpc hf | commitFails hpc =>
      exact nofun
  | @accepts n stream hpc hf hn =>
      simp only [Held, hpc] at hpos
      have hcarries := hpos stream hf
      exact ⟨_, rfl, hcarries.named, hcarries.holds.fwrite _⟩
  | @writesOut n stream hpc hf =>
      rcases Pc.inStream_cases hpc with ⟨k, hpc⟩ | hpc | ⟨result, hpc⟩
      · simp only [Held, hpc, Call.setFile_pc] at hpos ⊢
        exact ⟨_, rfl, (AtomicFileWriter.of_file hf hpos).writeOut n⟩
      · simp only [Held, hpc, Call.setFile_pc] at hpos ⊢
        exact ⟨_, rfl, (AtomicFileWriter.of_file hf hpos).writeOut n⟩
      · simp only [Held, hpc, Call.setFile_pc] at hpos ⊢
        intro hc
        cases (hpos hc).1.symm.trans hf
  | written hpc =>
      simp only [Held, hpc, List.take_length] at hpos
      exact hpos
  | flushed hpc hf hp =>
      simp only [Held, hpc] at hpos
      exact ⟨_, hf, AtomicFileWriter.of_file hf hpos, hp⟩
  | numbered hpc =>
      simp only [Held, hpc] at hpos
      exact hpos
  | synced hpc =>
      simp only [Held, hpc] at hpos
      obtain ⟨stream, hf, hcarries, hp⟩ := hpos
      exact ⟨stream, hf, hcarries, hp, hfsync hpc rfl stream hf⟩
  | closes hpc =>
      simp only [Held, hpc] at hpos
      obtain ⟨stream, -, hcarries, hp, hsynced⟩ := hpos
      exact ⟨rfl, stream.file, hcarries.named, hcarries.holds.content_eq hp,
        hdisk _ hsynced rfl⟩
  | opensDir dirFd hpc =>
      simp only [Held, hpc] at hpos
      exact ⟨hpos.1, hpos.2.mono rfl rfl hdisk⟩
  | @renames dirFd fs' hpc hr =>
      simp only [Held, hpc] at hpos
      have hstored := hpos.2.rename hr hdisk
      cases dirFd with
      | true => exact fun _ => ⟨hpos.1, hstored⟩
      | false => exact fun _ => ⟨hpos.1, hstored⟩
  | @renameFails dirFd hpc =>
      cases dirFd with
      | true => exact nofun
      | false => exact nofun
  | syncsDir hpc =>
      obtain ⟨hf, hstored⟩ := h.committed (by rw [hpc]; rfl)
      exact fun _ => ⟨hf, hstored.mono rfl rfl hdisk⟩
  | closesDir hpc | tempFound hpc | tempGone hpc | terminates hpc =>
      intro hc
      obtain ⟨hf, hstored⟩ := h.committed (by rw [hpc]; exact hc)
      exact ⟨hf, hstored.mono rfl rfl hdisk⟩
  | destroyCloses hpc =>
      intro hc
      obtain ⟨-, hstored⟩ := h.committed (by rw [hpc]; exact hc)
      exact ⟨rfl, hstored.mono rfl rfl hdisk⟩
  | removes hpc =>
      intro hc
      obtain ⟨hf, hstored⟩ := h.committed (by rw [hpc]; exact hc)
      exact ⟨hf, hstored.mono (fs.dir_unlink_of_ne c.writer.path.temp_ne.symm) rfl hdisk⟩

end Held

/-! ### The runs -/

/-- Without a failure on the directory `commit()` returns `true` from a synced one. -/
def Answered (pc : Pc) (dirSynced dirFailed : Bool) : Prop :=
  match pc with
  | .commit (.rename false) => dirFailed = true
  | .commit (.closeDir true) | .destroy _ true | .returned true | .terminated true =>
      dirSynced = true ∨ dirFailed = true
  | _ => True

theorem Answered.mono {pc : Pc} {dirSynced dirFailed : Bool} (h : Answered pc dirSynced dirFailed)
    (syncs fails : Bool) : Answered pc (dirSynced || syncs) (dirFailed || fails) := by
  unfold Answered at h ⊢
  split at h
  · exact Bool.or_eq_true_iff.mpr (.inl h)
  · exact h.imp (Bool.or_eq_true_iff.mpr ∘ .inl) (Bool.or_eq_true_iff.mpr ∘ .inl)
  · exact h.imp (Bool.or_eq_true_iff.mpr ∘ .inl) (Bool.or_eq_true_iff.mpr ∘ .inl)
  · exact h.imp (Bool.or_eq_true_iff.mpr ∘ .inl) (Bool.or_eq_true_iff.mpr ∘ .inl)
  · exact h.imp (Bool.or_eq_true_iff.mpr ∘ .inl) (Bool.or_eq_true_iff.mpr ∘ .inl)
  · trivial

theorem callStep_answered {fs fs' : FileSystem Path} {c c' : Call} {o : Outcome}
    {dirSynced dirFailed : Bool} (h : callStep fs c o = some (fs', c'))
    (ha : Answered c.pc dirSynced dirFailed) :
    Answered c'.pc (dirSynced || syncsDirectory c o) (dirFailed || failsDirectory c o) := by
  cases callStep_moved h with
  | opensDir dirFd hpc =>
      cases dirFd with
      | true => trivial
      | false =>
          cases o with
          | fail => simp [Answered, failsDirectory, hpc]
          | ok | accept n | writeOut n =>
              simp [callStep, hpc, commitStep, afterCommit, Call.goto] at h
  | syncsDir hpc =>
      cases o with
      | ok => exact .inl (by simp [syncsDirectory, hpc])
      | fail => exact .inr (by simp [failsDirectory, hpc])
      | accept n | writeOut n => simp [callStep, hpc, commitStep] at h
  | writesOut hpc hf => exact ha.mono _ _
  | @renames dirFd _ hpc hr =>
      have hmono := ha.mono (syncsDirectory c o) (failsDirectory c o)
      rw [hpc] at hmono
      cases dirFd with
      | true => trivial
      | false => exact .inr hmono
  | @renameFails dirFd hpc => cases dirFd <;> trivial
  | @closesDir result hpc | @destroyCloses result hpc | @tempFound result _ hpc
  | @tempGone result hpc | @removes result hpc | @terminates result _ hpc =>
      have hmono := ha.mono (syncsDirectory c o) (failsDirectory c o)
      rw [hpc] at hmono
      cases result with
      | true => exact hmono
      | false => trivial
  | _ => trivial

theorem Answered.synced {pc : Pc} {dirSynced dirFailed : Bool} (h : Answered pc dirSynced dirFailed)
    (hpc : pc.commitReturned = true) (hf : dirFailed = false) : dirSynced = true := by
  unfold Pc.commitReturned at hpc
  split at hpc
  all_goals first
    | (subst hpc; exact h.resolve_right (by rw [hf]; decide))
    | cases hpc

/-- The state of a run. The entry of the path that a crash may bring back is the old one, and
it cannot any more once the directory is synced. -/
structure Recorded (fs₀ : FileSystem Path) (request : Request) (s : DiskState) : Prop where
  called : s.call.request = request
  held : Held s.fs s.disk s.call
  live : ∀ name, s.fs.dir name ∈ s.disk.entries name
  before : s.call.pc.committed = false → s.fs.dir request.path = fs₀.dir request.path
  dirSynced : s.dirSynced = true →
    s.call.pc.committed = true ∧ s.disk.entries request.path = [s.fs.dir request.path]
  unsynced : s.dirSynced = false → fs₀.dir request.path ∈ s.disk.entries request.path
  answered : Answered s.call.pc s.dirSynced s.dirFailed

/-- The entry of the path changes at the rename only. -/
theorem Effect.dir_path {fs fs' : FileSystem Path} {c : Call} {b : Bool} (he : Effect fs c fs' b)
    (h : c.pc.committed = true ∨ b = false) : fs'.dir c.writer.path = fs.dir c.writer.path := by
  cases he with
  | nothing => rfl
  | opens hpc => exact fs.dir_openWrite_of_ne c.writer.path.temp_ne.symm
  | writesOut hf => rfl
  | renames hpc hr =>
      rcases h with h | h
      · rw [hpc] at h
        cases h
      · cases h
  | unlinks => exact fs.dir_unlink_of_ne c.writer.path.temp_ne.symm

theorem Effect.committed {fs fs' : FileSystem Path} {c : Call} {b : Bool}
    (he : Effect fs c fs' b) (h : c.pc.committed = true) : b = true := by
  cases he with
  | renames hpc hr => rfl
  | nothing | opens | writesOut | unlinks => exact h

section Recorded

variable {fs₀ : FileSystem Path} {request : Request} {s s' : DiskState} {o : Outcome}

theorem diskStep_eq_some (h : diskStep s o = some s') :
    callStep s.fs s.call o = some (s'.fs, s'.call) ∧
      s'.disk = sync (s.disk.advance s.fs s'.fs) s'.fs s.call o ∧
      s'.dirSynced = (s.dirSynced || syncsDirectory s.call o) ∧
      s'.dirFailed = (s.dirFailed || failsDirectory s.call o) := by
  obtain ⟨⟨fs, c⟩, hstep, rfl⟩ := Option.map_eq_some_iff.mp h
  exact ⟨hstep, rfl, rfl, rfl⟩

theorem step_recorded (h : Recorded fs₀ request s) (hs : diskStep s o = some s') :
    Recorded fs₀ request s' := by
  obtain ⟨hstep, hdisk, hdir, hfail⟩ := diskStep_eq_some hs
  have hm := callStep_moved hstep
  obtain rfl := h.called
  have hkeeps : s.call.pc.committed = true → s'.call.pc.committed = true := hm.effect.committed
  refine ⟨hm.request, hm.held h.held ?_ ?_, ?_, ?_, ?_, ?_, ?_⟩
  · intro file hsynced hcontent
    rw [hdisk]
    exact sync_synced hsynced hcontent
  · intro hpc hpc' stream hf
    rw [hdisk]
    exact fsync_synced hstep hpc hpc' hf
  · intro name
    rw [hdisk]
    exact sync_live (Disk.live_advance (h.live name))
  · intro hc
    refine (hm.effect.dir_path (.inr hc)).trans (h.before ?_)
    by_contra hbefore
    rw [hkeeps (by simpa using hbefore)] at hc
    cases hc
  · intro hd
    rw [hdir] at hd
    rw [hdisk]
    cases hsync : syncsDirectory s.call o with
    | true =>
        have hpc : s.call.pc = .commit .syncDir := by
          have hboth : s.call.pc = .commit .syncDir ∧ o = .ok := by
            simpa [syncsDirectory] using hsync
          exact hboth.1
        exact ⟨hkeeps (by rw [hpc]; rfl), sync_entries_path hsync⟩
    | false =>
        obtain ⟨hc, hentries⟩ := h.dirSynced (by simpa [hsync] using hd)
        have hsame := hm.effect.dir_path (.inl hc)
        refine ⟨hkeeps hc, ?_⟩
        have hadvance : (s.disk.advance s.fs s'.fs).entries s.call.writer.path = _ :=
          Disk.entries_advance_of_eq hsame
        rw [sync_entries hsync]
        exact hadvance.trans (hentries.trans (congrArg (fun e => [e]) hsame.symm))
  · intro hd
    rw [hdir] at hd
    obtain ⟨hd, hsync⟩ := Bool.or_eq_false_iff.mp hd
    rw [hdisk, sync_entries hsync]
    exact Disk.entries_subset_advance (h.unsynced hd)
  · rw [hdir, hfail]
    exact callStep_answered hstep h.answered

theorem reachable_recorded {fs : FileSystem Path}
    (h : (diskMachine fs request).Reachable Machine.free s) : Recorded fs request s := by
  refine h.invariant ⟨rfl, nofun, fun _ => List.mem_singleton_self _, fun _ => rfl, nofun,
    fun _ => List.mem_singleton_self _, trivial⟩ ?_
  intro _ _ _ _ hi _ hs
  exact step_recorded hi hs

/-- **A commit is durable if the directory is synced.** Whatever fails but opening the directory
and the `fsync()` on it: when `commit()` has returned `true`, the path holds exactly the data
after every crash. -/
theorem commit_durable (fs : FileSystem Path) (path : Path) (data : List UInt8) {s : DiskState}
    (h : (diskMachine fs ⟨path, data⟩).Reachable Machine.free s)
    (hreturned : s.call.pc.commitReturned = true) (hdir : s.dirFailed = false)
    {after : FileSystem Path} (hcrash : Survives s.fs s.disk after) :
    after.read path = some data := by
  have hrec := reachable_recorded h
  have hcalled := hrec.called
  obtain ⟨hc, hentries⟩ := hrec.dirSynced (hrec.answered.synced hreturned hdir)
  obtain ⟨-, file, hfile, hdata, hsynced⟩ := hrec.held.committed hc
  obtain ⟨hpath, hdata'⟩ : s.call.writer.path = path ∧ s.call.data = data := by
    simpa [Call.request] using hcalled
  rw [hpath] at hfile
  rw [← hdata', ← hdata]
  exact hcrash.read_eq (by rw [hentries, hfile]) hsynced

/-- One byte is replaced by two, and a crash comes when the call has returned. -/
theorem commit_durable_replaces :
    ∃ s, (diskMachine (oneFile [conf] [7]) ⟨conf, [1, 2]⟩).Reachable Machine.free s ∧
      s.call.pc = .returned true ∧ Survives s.fs s.disk s.fs ∧
      s.fs.read conf = some [1, 2] := by
  obtain ⟨s, hs, hp⟩ := Machine.reachable_of_exec
    (M := diskMachine (oneFile [conf] [7]) ⟨conf, [1, 2]⟩)
    (l := (succeeds 0 2).map Action.outcome)
    (p := fun s => s.call.pc == .returned true && s.dirFailed == false) (by decide)
  obtain ⟨hpc, hdir⟩ : s.call.pc = .returned true ∧ s.dirFailed = false := by simpa using hp
  have hcrash : Survives s.fs s.disk s.fs := ⟨(reachable_recorded hs).live, fun _ _ => rfl⟩
  exact ⟨s, hs, hpc, hcrash, commit_durable _ _ _ hs (by rw [hpc]; rfl) hdir hcrash⟩

end Recorded

/-! ### A rename that is not on the disk -/

/-- The call has nothing to do with this file. -/
structure Untouched (fs₀ fs : FileSystem Path) (c : Call) (file : Nat) : Prop where
  lt : file < fs.next
  content : fs.content file = fs₀.content file
  temp : fs.dir c.writer.path.temp ≠ some file
  stream : ∀ stream, c.writer.file = some stream → stream.file ≠ file

section Untouched

variable {fs₀ fs fs' : FileSystem Path} {c c' : Call} {file : Nat}

/-- The file that is opened is the one of the temporary name, or a new one. -/
theorem Untouched.openWrite (h : Untouched fs₀ fs c file) :
    (fs.openWrite c.writer.path.temp).2 ≠ file ∧
      (fs.openWrite c.writer.path.temp).1.content file = fs.content file ∧
      file < (fs.openWrite c.writer.path.temp).1.next := by
  obtain ⟨opened, hopened, heq⟩ | ⟨-, heq⟩ := fs.openWrite_cases c.writer.path.temp
  · have hne : opened ≠ file := by
      rintro rfl
      exact h.temp hopened
    rw [heq]
    exact ⟨hne, Function.update_of_ne hne.symm _ _, h.lt⟩
  · have hne : fs.next ≠ file := Nat.ne_of_gt h.lt
    rw [heq]
    exact ⟨hne, Function.update_of_ne hne.symm _ _, Nat.lt_succ_of_lt h.lt⟩

theorem Moved.untouched (hm : Moved fs c fs' c') (h : Untouched fs₀ fs c file) :
    Untouched fs₀ fs' c' file := by
  cases hm with
  | opens hpc =>
      obtain ⟨hne, hcontent, hlt⟩ := h.openWrite
      refine ⟨hlt, hcontent.trans h.content, ?_, ?_⟩
      · intro htemp
        have hself := fs.dir_openWrite_self c.writer.path.temp
        exact hne (Option.some.inj (hself.symm.trans htemp))
      · intro stream hs
        obtain rfl := Option.some.inj hs
        exact hne
  | @accepts n stream hpc hf hn =>
      refine ⟨h.lt, h.content, h.temp, ?_⟩
      intro stream' hs
      obtain rfl := Option.some.inj hs
      exact h.stream stream hf
  | @writesOut n stream hpc hf =>
      have hne := h.stream stream hf
      refine ⟨h.lt, (Function.update_of_ne hne.symm _ _).trans h.content, h.temp, ?_⟩
      intro stream' hs
      obtain rfl := Option.some.inj hs
      exact hne
  | openFails hpc | closes hpc | destroyCloses hpc => exact ⟨h.lt, h.content, h.temp, nofun⟩
  | renames hpc hr =>
      obtain ⟨moved, -, hcontent, hnext, ⟨-, hdir⟩ | ⟨-, hdir⟩⟩ := FileSystem.rename_inv hr
      · exact ⟨by rw [hnext]; exact h.lt, by rw [hcontent]; exact h.content,
          by rw [hdir]; exact h.temp, h.stream⟩
      · refine ⟨by rw [hnext]; exact h.lt, by rw [hcontent]; exact h.content, ?_, h.stream⟩
        show fs'.dir c.writer.path.temp ≠ some file
        rw [hdir, Function.update_self]
        exact nofun
  | removes hpc =>
      refine ⟨h.lt, h.content, ?_, h.stream⟩
      show (fs.unlink c.writer.path.temp).dir c.writer.path.temp ≠ some file
      rw [FileSystem.dir_unlink_self]
      exact nofun
  | _ => exact ⟨h.lt, h.content, h.temp, h.stream⟩

/-- The old entry of the path, over everything else as it is now. -/
def undone (fs₀ fs : FileSystem Path) (path : Path) : FileSystem Path where
  dir := Function.update fs.dir path (fs₀.dir path)
  content := fs.content
  next := max fs₀.next fs.next
  bounded := by
    intro name file hfile
    by_cases hn : name = path
    · rw [hn, Function.update_self] at hfile
      exact Nat.lt_of_lt_of_le (fs₀.bounded path file hfile) (Nat.le_max_left _ _)
    · rw [Function.update_of_ne hn] at hfile
      exact Nat.lt_of_lt_of_le (fs.bounded name file hfile) (Nat.le_max_right _ _)

/-- **Without the directory on the disk, a crash may undo the rename**, at any time and
whatever `commit()` has returned. -/
theorem crash_may_undo (fs : FileSystem Path) (path : Path) (data : List UInt8)
    (ha : Apart fs path) {s : DiskState}
    (h : (diskMachine fs ⟨path, data⟩).Reachable Machine.free s) (hdir : s.dirSynced = false) :
    ∃ after, Survives s.fs s.disk after ∧ after.read path = fs.read path := by
  have hrec := reachable_recorded h
  have huntouched : ∀ file, fs.dir path = some file →
      s.call.request.path = path ∧ Untouched fs s.fs s.call file := by
    intro file hfile
    refine h.invariant (I := fun s => s.call.request.path = path ∧ Untouched fs s.fs s.call file)
      ⟨rfl, fs.bounded path file hfile, rfl, fun htemp => ha file htemp hfile, nofun⟩ ?_
    intro t o t' _ hi _ hs
    have hm := callStep_moved (diskStep_eq_some hs).1
    exact ⟨(congrArg Request.path hm.request).trans hi.1, hm.untouched hi.2⟩
  refine ⟨undone fs s.fs path, ⟨?_, fun _ _ => rfl⟩, ?_⟩
  · intro name
    by_cases hn : name = path
    · subst hn
      have hmem := hrec.unsynced hdir
      simpa [undone] using hmem
    · simpa [undone, Function.update_of_ne hn] using hrec.live name
  · have hself : (undone fs s.fs path).dir path = fs.dir path := Function.update_self _ _ _
    rw [FileSystem.read, FileSystem.read, hself]
    refine Option.map_congr ?_
    intro file hfile
    exact (huntouched file hfile).2.content

end Untouched

/-- The directory cannot be opened: `commit()` returns `true`, and after a crash the path holds
the old byte. -/
theorem unsynced_directory_undone :
    ∃ s after, (diskMachine (oneFile [conf] [7]) ⟨conf, [1, 2]⟩).Reachable Machine.free s ∧
      s.call.pc = .returned true ∧ Survives s.fs s.disk after ∧ after.read conf = some [7] := by
  obtain ⟨s, hs, hp⟩ := Machine.reachable_of_exec
    (M := diskMachine (oneFile [conf] [7]) ⟨conf, [1, 2]⟩)
    (l := [Outcome.ok, .ok, .accept 2, .ok, .writeOut 2, .ok, .ok, .ok, .ok, .fail, .ok, .ok, .ok])
    (p := fun s => s.call.pc == .returned true && s.dirSynced == false) (by decide)
  obtain ⟨hpc, hdir⟩ : s.call.pc = .returned true ∧ s.dirSynced = false := by simpa using hp
  have hapart : Apart (oneFile [conf] [7]) conf := by
    intro file hfile
    simp [oneFile, conf, Path.temp] at hfile
  obtain ⟨after, hcrash, hread⟩ := crash_may_undo _ _ _ hapart hs hdir
  exact ⟨s, after, hs, hpc, hcrash, hread⟩

end CppCode.AtomicFile
