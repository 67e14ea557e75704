import CppCode.AtomicFile.Atomicity

/-!
# CppCode.AtomicFile.Session

One `AtomicFileWriter` under any sequence of `write()` and `commit()` calls. The steps of the
methods are those of `AtomicFile.Model`; here the caller chooses what to call next, also after
a call that has failed.

The writer keeps no record of a short `fwrite()`, so a later `commit()` renames a file with a
piece missing and returns `true` (`short_write_committed`). As long as `commit()` is not called
on such a stream, a `commit()` that returns `true` has installed what was written, and nothing
happens to the path after it (`commit_intact`).

A failed `fflush()` may keep what was buffered or drop it: the C standard leaves that open.
`Session.damaged` and `Session.history` are for specifications only: no step reads them.
-/

namespace CppCode.AtomicFile

open Concurrency Posix

/-! ### Sessions -/

/-- A method call. -/
inductive Op
  | write (data : List UInt8)
  | commit
  deriving DecidableEq

/-- A call that has returned, with what the path held by then. -/
structure Returned where
  op : Op
  result : Bool
  read : Option (List UInt8)
  deriving DecidableEq

inductive SessionPc
  /-- In the constructor. -/
  | fopen
  | idle
  | write (data : List UInt8) (pc : WritePc)
  | commit (pc : CommitPc)
  deriving DecidableEq

structure Session where
  fs : FileSystem Path
  writer : AtomicFileWriter
  pc : SessionPc
  /-- The stream has lost bytes: an `fwrite()` was short, or an `fflush()` failed and dropped
  some. -/
  damaged : Bool
  history : List Returned

inductive SessionAction
  | call (op : Op)
  | step (o : Outcome)
  /-- `fflush()` fails and drops what is in the buffer. -/
  | drop
  deriving DecidableEq

/-- A method returns. -/
def Session.ret (s : Session) (op : Op) (result : Bool) : Session :=
  { s with
    pc := .idle
    history := s.history ++ [⟨op, result, s.fs.read s.writer.path⟩] }

def Session.afterWrite (s : Session) (data : List UInt8) : Next WritePc → Session
  | .goto pc => { s with pc := .write data pc }
  | .returned result => s.ret (.write data) result

def Session.afterCommit (s : Session) : Next CommitPc → Session
  | .goto pc => { s with pc := .commit pc }
  | .returned result => s.ret .commit result

/-- `fwrite()` takes less than it was given. -/
def Outcome.short (data : List UInt8) : Outcome → Bool
  | .accept n => n != data.length
  | _ => false

def sessionStep (s : Session) (a : SessionAction) : Option Session :=
  match s.pc, a with
  | .fopen, .step o =>
      (constructStep s.fs s.writer o).map fun (fs, w) =>
        { s with fs := fs, writer := w, pc := .idle }
  | .idle, .call (.write data) => some { s with pc := .write data .enter }
  | .idle, .call .commit => some { s with pc := .commit .fflush }
  | .write data pc, .step o =>
      (writeStep s.fs s.writer data pc o).map fun (fs, w, next) =>
        { s with fs := fs, writer := w, damaged := s.damaged || o.short data }.afterWrite data next
  | .commit pc, .step o =>
      (commitStep s.fs s.writer pc o).map fun (fs, w, next) =>
        { s with fs := fs, writer := w }.afterCommit next
  | .commit .fflush, .drop =>
      match s.writer.file with
      | none => none
      | some stream =>
          some ({ s with
            writer := { s.writer with file := some { stream with pending := [] } }
            damaged := s.damaged || !stream.pending.isEmpty }.ret .commit false)
  | _, _ => none

/-- A writer for a path that is being constructed. -/
def sessionMachine (fs : FileSystem Path) (path : Path) : Machine Session SessionAction where
  init :=
    { fs := fs, writer := { path := path, file := none }, pc := .fopen, damaged := false
      history := [] }
  step := sessionStep

/-- `commit()` is not called on an open stream that has lost bytes. -/
def Undamaged : Guard Session SessionAction := fun s a =>
  a = .call .commit → s.writer.file.isSome = true → s.damaged = false

instance (s : Session) (a : SessionAction) : Decidable (Undamaged s a) :=
  inferInstanceAs (Decidable (a = .call .commit → _ = true → _ = false))

/-! ### Histories -/

/-- The data of all `write()` calls, in order. -/
def written (history : List Returned) : List UInt8 :=
  history.flatMap fun d =>
    match d.op with
    | .write data => data
    | .commit => []

/-- Every `write()` has returned `true`. -/
def Complete (history : List Returned) : Prop :=
  ∀ d ∈ history, ∀ data, d.op = .write data → d.result = true

/-- No `commit()` has returned `true`. -/
def Uncommitted (history : List Returned) : Prop :=
  ∀ d ∈ history, d.op = .commit → d.result = false

/-- A `commit()` that returned `true` came after complete writes only and installed them; the
calls after it have failed, and the path has stayed as it was. -/
def Intact (history : List Returned) (read : Option (List UInt8)) : Prop :=
  ∀ before e after, history = before ++ e :: after → e.op = .commit → e.result = true →
    Complete before ∧ e.read = some (written before) ∧
      (∀ d ∈ after, d.result = false ∧ d.read = e.read) ∧ read = e.read

section History

variable {history : List Returned} {read : Option (List UInt8)} {d : Returned}

theorem written_concat (history : List Returned) (d : Returned) :
    written (history ++ [d]) = written history ++ written [d] := by
  simp only [written, List.flatMap_append]

theorem Complete.concat (h : Complete history)
    (hd : ∀ data, d.op = .write data → d.result = true) : Complete (history ++ [d]) := by
  intro x hx
  rcases mem_concat.mp hx with hx | rfl
  · exact h x hx
  · exact hd

theorem Uncommitted.concat (h : Uncommitted history) (hd : d.op = .commit → d.result = false) :
    Uncommitted (history ++ [d]) := by
  intro x hx
  rcases mem_concat.mp hx with hx | rfl
  · exact h x hx
  · exact hd

theorem Uncommitted.intact (h : Uncommitted history) (read : Option (List UInt8)) :
    Intact history read := by
  intro before e after hsplit hop hr
  have hfalse := h e (by simp [hsplit]) hop
  rw [hfalse] at hr
  cases hr

/-- A call that fails and leaves the path alone. -/
theorem Intact.refused (h : Intact history read) (hr : d.result = false) (hread : d.read = read) :
    Intact (history ++ [d]) read := by
  intro before e after hsplit hop he
  rcases concat_split hsplit with ⟨-, rfl, -⟩ | ⟨after', rfl, hold⟩
  · rw [hr] at he
    cases he
  · obtain ⟨hcomplete, hdata, hlater, hnow⟩ := h before e after' hold hop he
    refine ⟨hcomplete, hdata, ?_, hnow⟩
    intro x hx
    rcases mem_concat.mp hx with hx | rfl
    · exact hlater x hx
    · exact ⟨hr, hread.trans hnow⟩

/-- The first `commit()` that succeeds. -/
theorem Intact.success (hu : Uncommitted history) (hcomplete : Complete history)
    (hread : d.read = read) (hdata : read = some (written history)) :
    Intact (history ++ [d]) read := by
  intro before e after hsplit hop he
  rcases concat_split hsplit with ⟨rfl, rfl, rfl⟩ | ⟨after', -, hold⟩
  · exact ⟨hcomplete, hread.trans hdata, by simp, hread.symm⟩
  · exact absurd he (by rw [hu e (by simp [hold]) hop]; decide)

end History

/-! ### What holds at each position -/

/-- The stream is on the file under the temporary name and holds `bytes`. -/
structure Carries (fs : FileSystem Path) (path : Path) (stream : Stream) (bytes : List UInt8) :
    Prop where
  named : fs.dir path.temp = some stream.file
  holds : stream.Holds fs bytes

theorem Carries.writeOut {fs : FileSystem Path} {path : Path} {stream : Stream}
    {bytes : List UInt8} (h : Carries fs path stream bytes) (n : Nat) :
    Carries (stream.writeOut fs n).1 path (stream.writeOut fs n).2 bytes :=
  ⟨h.named, h.holds.writeOut n⟩

/-- A stream without losses holds what was written, every piece of it. -/
def Sound (s : Session) (stream : Stream) : Prop :=
  Complete s.history ∧ Carries s.fs s.writer.path stream (written s.history)

/-- What is known at the position of a session. From the successful `commit()` on there is no
open stream. -/
def Standing (s : Session) : Prop :=
  match s.pc with
  | .fopen => s.history = []
  | .idle | .write _ .enter =>
      ∀ stream, s.writer.file = some stream →
        Uncommitted s.history ∧ (s.damaged = false → Sound s stream)
  | .write data (.fwrite n) =>
      ∃ stream, s.writer.file = some stream ∧ Uncommitted s.history ∧
        (s.damaged = false → n = data.length ∧ Complete s.history ∧
          Carries s.fs s.writer.path stream (written s.history ++ data))
  | .commit .fflush =>
      ∀ stream, s.writer.file = some stream → Uncommitted s.history ∧ Sound s stream
  | .commit .fileno | .commit .fsync | .commit .fclose =>
      ∃ stream, s.writer.file = some stream ∧ Uncommitted s.history ∧ Sound s stream ∧
        stream.pending = []
  | .commit .openDir | .commit (.rename _) =>
      s.writer.file = none ∧ Uncommitted s.history ∧ Complete s.history ∧
        s.fs.read s.writer.path.temp = some (written s.history)
  | .commit .syncDir | .commit (.closeDir true) =>
      s.writer.file = none ∧ Uncommitted s.history ∧ Complete s.history ∧
        s.fs.read s.writer.path = some (written s.history)
  | .commit (.closeDir false) => s.writer.file = none ∧ Uncommitted s.history

structure SessionOk (path : Path) (s : Session) : Prop where
  path_eq : s.writer.path = path
  standing : Standing s
  intact : Intact s.history (s.fs.read path)

section Step

variable {path : Path} {s s' : Session} {a : SessionAction}

theorem Standing.of_closed (hpc : s.pc = .idle) (hf : s.writer.file = none) : Standing s := by
  simp only [Standing, hpc]
  intro stream hs
  cases hf.symm.trans hs

/-- A method returns `false` on a writer without a stream. -/
theorem SessionOk.ret_closed (h : SessionOk path s) (hf : s.writer.file = none) (op : Op) :
    SessionOk path (s.ret op false) :=
  ⟨h.path_eq, .of_closed rfl hf, h.intact.refused rfl (by rw [h.path_eq])⟩

/-- Nothing is known about the path before the first successful `commit()`. -/
theorem SessionOk.of_uncommitted (hpath : s.writer.path = path) (hu : Uncommitted s.history)
    (hst : Standing s) : SessionOk path s :=
  ⟨hpath, hst, hu.intact _⟩

/-- `commit()` returns `false` before it has closed the stream. -/
theorem SessionOk.ret_open (hpath : s.writer.path = path) {stream : Stream}
    (hf : s.writer.file = some stream) (hu : Uncommitted s.history)
    (hsound : s.damaged = false → Sound s stream) : SessionOk path (s.ret .commit false) := by
  have hwritten : written (s.ret .commit false).history = written s.history := by
    rw [Session.ret, written_concat]
    exact List.append_nil _
  have hu' : Uncommitted (s.ret .commit false).history := hu.concat fun _ => rfl
  refine .of_uncommitted hpath hu' ?_
  simp only [Standing, Session.ret]
  intro stream' hs
  obtain rfl := Option.some.inj (hf.symm.trans hs)
  refine ⟨hu', ?_⟩
  intro hd
  obtain ⟨hcomplete, hcarries⟩ := hsound hd
  exact ⟨hcomplete.concat nofun, hcarries.named, hwritten ▸ hcarries.holds⟩

theorem constructStep_session (h : SessionOk path s) (hpc : s.pc = .fopen) {o : Outcome}
    {fs : FileSystem Path} {w : AtomicFileWriter}
    (hstep : constructStep s.fs s.writer o = some (fs, w)) :
    SessionOk path { s with fs := fs, writer := w, pc := .idle } := by
  have hnil : s.history = [] := by simpa only [Standing, hpc] using h.standing
  have hu : Uncommitted s.history := by simp [hnil, Uncommitted]
  cases o with
  | ok =>
      obtain ⟨rfl, rfl⟩ := by simpa [constructStep] using hstep
      refine .of_uncommitted h.path_eq hu ?_
      simp only [Standing]
      intro stream hs
      obtain rfl := Option.some.inj hs
      refine ⟨hu, fun _ => ⟨by simp [hnil, Complete], s.fs.dir_openWrite_self _, ?_⟩⟩
      exact ⟨by simp, by simp [hnil, written]⟩
  | fail =>
      obtain ⟨rfl, rfl⟩ := by simpa [constructStep] using hstep
      exact .of_uncommitted h.path_eq hu (.of_closed rfl rfl)
  | accept n => cases hstep
  | writeOut n => cases hstep

theorem writeOutStep_some {fs fs' : FileSystem Path} {w w' : AtomicFileWriter} {n : Nat}
    (h : writeOutStep fs w n = some (fs', w')) :
    ∃ stream, w.file = some stream ∧ fs' = (stream.writeOut fs n).1 ∧
      w' = { w with file := some (stream.writeOut fs n).2 } := by
  unfold writeOutStep at h
  split at h
  · cases h
  · rename_i stream hf
    obtain ⟨rfl, rfl⟩ := Prod.mk.inj (Option.some.inj h)
    exact ⟨stream, hf, rfl, rfl⟩

/-- `write()` returns from a stream that has taken what it was given, or `false`. -/
theorem SessionOk.ret_write (h : SessionOk path s) {data : List UInt8} {n : Nat}
    (hpc : s.pc = .write data (.fwrite n)) :
    SessionOk path (s.ret (.write data) (n == data.length)) := by
  have hst := h.standing
  simp only [Standing, hpc] at hst
  obtain ⟨stream, hf, hu, hsound⟩ := hst
  have hwritten : written (s.ret (.write data) (n == data.length)).history =
      written s.history ++ data := by
    rw [Session.ret, written_concat]
    simp [written]
  have hu' : Uncommitted (s.ret (.write data) (n == data.length)).history := hu.concat nofun
  refine .of_uncommitted h.path_eq hu' ?_
  simp only [Standing, Session.ret]
  intro stream' hs
  obtain rfl := Option.some.inj (hf.symm.trans hs)
  refine ⟨hu', ?_⟩
  intro hd
  obtain ⟨rfl, hcomplete, hcarries⟩ := hsound hd
  have hholds := hcarries.holds
  rw [← hwritten] at hholds
  exact ⟨hcomplete.concat fun _ _ => beq_self_eq_true _, hcarries.named, hholds⟩

theorem writeStep_session (h : SessionOk path s) {data : List UInt8} {pc : WritePc}
    (hpc : s.pc = .write data pc) {o : Outcome} {fs : FileSystem Path} {w : AtomicFileWriter}
    {next : Next WritePc} (hstep : writeStep s.fs s.writer data pc o = some (fs, w, next)) :
    SessionOk path
      ({ s with fs := fs, writer := w, damaged := s.damaged || o.short data }.afterWrite
        data next) := by
  have hst := h.standing
  unfold writeStep at hstep
  split at hstep
  · rename_i hf
    obtain ⟨rfl, rfl, rfl⟩ := by simpa using hstep
    simp only [Outcome.short, Bool.or_false]
    exact h.ret_closed hf _
  · rename_i stream n hf
    split at hstep
    · rename_i hn
      obtain ⟨rfl, rfl, rfl⟩ := by simpa using hstep
      simp only [Standing, hpc] at hst
      obtain ⟨hu, hsound⟩ := hst stream hf
      refine .of_uncommitted h.path_eq hu ⟨_, rfl, hu, ?_⟩
      -- without a loss all of the data is in the buffer
      intro hd
      obtain ⟨hbefore, hshort⟩ := Bool.or_eq_false_iff.mp hd
      obtain rfl : n = data.length := by simpa [Outcome.short] using hshort
      obtain ⟨hcomplete, hcarries⟩ := hsound hbefore
      refine ⟨rfl, hcomplete, hcarries.named, ?_⟩
      rw [List.take_length]
      exact hcarries.holds.fwrite data
    · cases hstep
  · rename_i n m
    obtain ⟨⟨fs₁, w₁⟩, hout, heq⟩ := Option.map_eq_some_iff.mp hstep
    obtain ⟨rfl, rfl, rfl⟩ := by simpa using heq
    obtain ⟨stream, hf, rfl, rfl⟩ := writeOutStep_some hout
    simp only [Standing, hpc] at hst
    obtain ⟨hu, hsound⟩ := AtomicFileWriter.of_file hf hst
    simp only [Outcome.short, Bool.or_false]
    refine .of_uncommitted h.path_eq hu ⟨_, rfl, hu, ?_⟩
    intro hd
    obtain ⟨hn, hcomplete, hcarries⟩ := hsound hd
    exact ⟨hn, hcomplete, hcarries.writeOut m⟩
  · obtain ⟨rfl, rfl, rfl⟩ := by simpa using hstep
    simp only [Outcome.short, Bool.or_false]
    exact h.ret_write hpc
  · cases hstep

/-- **The rename installs what was written.** -/
theorem Standing.rename_read {fs : FileSystem Path} {dirFd : Bool} (h : Standing s)
    (hpc : s.pc = .commit (.rename dirFd))
    (hr : s.fs.rename s.writer.path.temp s.writer.path = some fs) :
    fs.read s.writer.path = some (written s.history) := by
  simp only [Standing, hpc] at h
  rw [FileSystem.read_rename_dst s.writer.path.temp_ne hr]
  exact h.2.2.2

/-- `commit()` returns from the rename or from a position after it. -/
theorem SessionOk.ret_commit (hpath : s.writer.path = path) (hf : s.writer.file = none)
    (hu : Uncommitted s.history) {result : Bool}
    (hdone : result = true → Complete s.history ∧
      s.fs.read s.writer.path = some (written s.history)) :
    SessionOk path (s.ret .commit result) := by
  refine ⟨hpath, .of_closed rfl hf, ?_⟩
  cases result with
  | false =>
      refine Uncommitted.intact ?_ _
      exact hu.concat fun _ => rfl
  | true =>
      obtain ⟨hcomplete, hread⟩ := hdone rfl
      subst hpath
      exact .success hu hcomplete rfl hread

theorem Standing.closeDir (h : Standing s) {result : Bool}
    (hpc : s.pc = .commit (.closeDir result)) :
    s.writer.file = none ∧ Uncommitted s.history ∧
      (result = true → Complete s.history ∧
        s.fs.read s.writer.path = some (written s.history)) := by
  cases result with
  | false =>
      simp only [Standing, hpc] at h
      exact ⟨h.1, h.2, nofun⟩
  | true =>
      simp only [Standing, hpc] at h
      exact ⟨h.1, h.2.1, fun _ => h.2.2⟩

theorem fflush_session (h : SessionOk path s) (hpc : s.pc = .commit .fflush) {o : Outcome}
    {fs : FileSystem Path} {w : AtomicFileWriter} {next : Next CommitPc}
    (hstep : commitStep s.fs s.writer .fflush o = some (fs, w, next)) :
    SessionOk path ({ s with fs := fs, writer := w }.afterCommit next) := by
  have hst := h.standing
  simp only [Standing, hpc] at hst
  cases o with
  | writeOut n =>
      obtain ⟨⟨fs₁, w₁⟩, hout, heq⟩ := Option.map_eq_some_iff.mp hstep
      obtain ⟨rfl, rfl, rfl⟩ := by simpa using heq
      obtain ⟨stream, hf, rfl, rfl⟩ := writeOutStep_some hout
      obtain ⟨hu, hcomplete, hcarries⟩ := hst stream hf
      refine .of_uncommitted h.path_eq hu ?_
      intro stream' hs
      obtain rfl := Option.some.inj hs
      exact ⟨hu, hcomplete, hcarries.writeOut n⟩
  | ok =>
      simp only [commitStep] at hstep
      split at hstep
      · rename_i hf
        obtain ⟨rfl, rfl, rfl⟩ := by simpa using hstep
        exact h.ret_closed hf _
      · rename_i stream hf
        obtain ⟨hu, hsound⟩ := hst stream hf
        split at hstep
        · rename_i hp
          obtain ⟨rfl, rfl, rfl⟩ := by simpa using hstep
          exact .of_uncommitted h.path_eq hu ⟨stream, hf, hu, hsound, hp⟩
        · cases hstep
  | fail =>
      obtain ⟨rfl, rfl, rfl⟩ := by simpa [commitStep] using hstep
      cases hf : s.writer.file with
      | none => exact h.ret_closed hf _
      | some stream =>
          obtain ⟨hu, hsound⟩ := hst stream hf
          exact .ret_open h.path_eq hf hu fun _ => hsound
  | accept n => cases hstep

theorem rename_session (h : SessionOk path s) {dirFd : Bool}
    (hpc : s.pc = .commit (.rename dirFd)) {o : Outcome} {fs : FileSystem Path}
    {w : AtomicFileWriter} {next : Next CommitPc}
    (hstep : commitStep s.fs s.writer (.rename dirFd) o = some (fs, w, next)) :
    SessionOk path ({ s with fs := fs, writer := w }.afterCommit next) := by
  have hst := h.standing
  cases o with
  | ok =>
      obtain ⟨fs', hr, heq⟩ := Option.map_eq_some_iff.mp hstep
      obtain ⟨rfl, rfl, rfl⟩ := by simpa using heq
      have hread := hst.rename_read hpc hr
      simp only [Standing, hpc] at hst
      obtain ⟨hf, hu, hcomplete, -⟩ := hst
      cases dirFd with
      | true => exact .of_uncommitted h.path_eq hu ⟨hf, hu, hcomplete, hread⟩
      | false =>
          refine SessionOk.ret_commit (s := { s with fs := fs' }) h.path_eq hf hu ?_
          intro _
          exact ⟨hcomplete, hread⟩
  | fail =>
      obtain ⟨rfl, rfl, rfl⟩ := by simpa [commitStep] using hstep
      simp only [Standing, hpc] at hst
      obtain ⟨hf, hu, -⟩ := hst
      cases dirFd with
      | true => exact .of_uncommitted h.path_eq hu ⟨hf, hu⟩
      | false => exact .ret_commit h.path_eq hf hu nofun
  | accept n => cases hstep
  | writeOut n => cases hstep

/-- `fclose()`: from here on the temporary name stands for the data. -/
theorem fclose_session (h : SessionOk path s) (hpc : s.pc = .commit .fclose) :
    SessionOk path ({ s with writer := { s.writer with file := none } }.afterCommit
      (.goto .openDir)) := by
  have hst := h.standing
  simp only [Standing, hpc] at hst
  obtain ⟨stream, -, hu, ⟨hcomplete, hcarries⟩, hp⟩ := hst
  refine .of_uncommitted h.path_eq hu ⟨rfl, hu, hcomplete, ?_⟩
  show s.fs.read s.writer.path.temp = some (written s.history)
  rw [FileSystem.read, hcarries.named, Option.map_some, hcarries.holds.content_eq hp]

/-- `commit()` gives up at a call on the stream that it has flushed. -/
theorem SessionOk.ret_flushed (h : SessionOk path s)
    (hst : ∃ stream, s.writer.file = some stream ∧ Uncommitted s.history ∧ Sound s stream ∧
      stream.pending = []) :
    SessionOk path (s.ret .commit false) := by
  obtain ⟨stream, hf, hu, hsound, -⟩ := hst
  exact .ret_open h.path_eq hf hu fun _ => hsound

theorem commitStep_session (h : SessionOk path s) {pc : CommitPc} (hpc : s.pc = .commit pc)
    {o : Outcome} {fs : FileSystem Path} {w : AtomicFileWriter} {next : Next CommitPc}
    (hstep : commitStep s.fs s.writer pc o = some (fs, w, next)) :
    SessionOk path ({ s with fs := fs, writer := w }.afterCommit next) := by
  have hst := h.standing
  cases pc with
  | fflush => exact fflush_session h hpc hstep
  | fileno | fsync =>
      simp only [Standing, hpc] at hst
      cases o with
      | ok =>
          obtain ⟨rfl, rfl, rfl⟩ := by simpa [commitStep] using hstep
          obtain ⟨-, -, hu, -⟩ := id hst
          exact .of_uncommitted h.path_eq hu hst
      | fail =>
          obtain ⟨rfl, rfl, rfl⟩ := by simpa [commitStep] using hstep
          exact h.ret_flushed hst
      | accept n => cases hstep
      | writeOut n => cases hstep
  | fclose =>
      cases o with
      | ok =>
          obtain ⟨rfl, rfl, rfl⟩ := by simpa [commitStep] using hstep
          exact fclose_session h hpc
      | fail => cases hstep
      | accept n => cases hstep
      | writeOut n => cases hstep
  | openDir | syncDir =>
      simp only [Standing, hpc] at hst
      cases o with
      | ok | fail =>
          obtain ⟨rfl, rfl, rfl⟩ := by simpa [commitStep] using hstep
          exact .of_uncommitted h.path_eq hst.2.1 hst
      | accept n => cases hstep
      | writeOut n => cases hstep
  | rename dirFd => exact rename_session h hpc hstep
  | closeDir result =>
      obtain ⟨hf, hu, hdone⟩ := hst.closeDir hpc
      cases o with
      | ok | fail =>
          obtain ⟨rfl, rfl, rfl⟩ := by simpa [commitStep] using hstep
          exact .ret_commit h.path_eq hf hu hdone
      | accept n => cases hstep
      | writeOut n => cases hstep

/-- A failed `fflush()` drops what is in the buffer. -/
theorem drop_session (h : SessionOk path s) (hpc : s.pc = .commit .fflush) {stream : Stream}
    (hf : s.writer.file = some stream) :
    SessionOk path ({ s with
      writer := { s.writer with file := some { stream with pending := [] } }
      damaged := s.damaged || !stream.pending.isEmpty }.ret .commit false) := by
  have hst := h.standing
  simp only [Standing, hpc] at hst
  obtain ⟨hu, hsound⟩ := hst stream hf
  refine .ret_open h.path_eq rfl hu ?_
  intro hd
  -- nothing is lost when nothing was buffered
  obtain ⟨-, hempty⟩ := Bool.or_eq_false_iff.mp hd
  have hp : stream.pending = [] := by simpa using hempty
  have hsame : { stream with pending := [] } = stream := by rw [← hp]
  rw [hsame]
  exact hsound

theorem sessionStep_ok (h : SessionOk path s) (hg : Undamaged s a)
    (hs : sessionStep s a = some s') : SessionOk path s' := by
  have hst := h.standing
  unfold sessionStep at hs
  split at hs
  · rename_i hpc
    obtain ⟨⟨fs₁, w₁⟩, hstep, rfl⟩ := Option.map_eq_some_iff.mp hs
    exact constructStep_session h hpc hstep
  · rename_i hpc
    obtain rfl := Option.some.inj hs
    simp only [Standing, hpc] at hst
    exact ⟨h.path_eq, hst, h.intact⟩
  · rename_i hpc
    obtain rfl := Option.some.inj hs
    simp only [Standing, hpc] at hst
    refine ⟨h.path_eq, ?_, h.intact⟩
    intro stream hf
    obtain ⟨hu, hsound⟩ := hst stream hf
    exact ⟨hu, hsound (hg rfl (by rw [hf]; rfl))⟩
  · rename_i data pc o hpc
    obtain ⟨⟨fs₁, w₁, next⟩, hstep, rfl⟩ := Option.map_eq_some_iff.mp hs
    exact writeStep_session h hpc hstep
  · rename_i pc o hpc
    obtain ⟨⟨fs₁, w₁, next⟩, hstep, rfl⟩ := Option.map_eq_some_iff.mp hs
    exact commitStep_session h hpc hstep
  · rename_i hpc
    split at hs
    · cases hs
    · rename_i stream hf
      obtain rfl := Option.some.inj hs
      exact drop_session h hpc hf
  · cases hs

theorem reachable_sessionOk {fs : FileSystem Path}
    (h : (sessionMachine fs path).Reachable Undamaged s) : SessionOk path s := by
  have hnil : Uncommitted [] := by simp [Uncommitted]
  refine h.invariant ⟨rfl, rfl, hnil.intact _⟩ ?_
  intro _ _ _ _ hi hg hs
  exact sessionStep_ok hi hg hs

/-- **A damaged stream is the only way to a wrong commit.** For any calls of `write()` and
`commit()` in which `commit()` is not called on an open stream that has lost bytes: when a
`commit()` has returned `true`, every `write()` before it had, the path held exactly their
data in order, every later call has returned `false`, and the path is still the same. -/
theorem commit_intact (fs : FileSystem Path) (path : Path) {s : Session}
    (h : (sessionMachine fs path).Reachable Undamaged s) : Intact s.history (s.fs.read path) :=
  (reachable_sessionOk h).intact

end Step

/-- `fopen()` succeeds. -/
def opened : List SessionAction := [SessionAction.step .ok]

/-- `write(data)` of which `fwrite()` takes `n` bytes. -/
def writeCall (data : List UInt8) (n : Nat) : List SessionAction :=
  [SessionAction.call (.write data), .step (.accept n), .step .ok]

/-- `commit()` with `n` bytes in the buffer, when every step succeeds. -/
def commitCall (n : Nat) : List SessionAction :=
  [SessionAction.call .commit, .step (.writeOut n), .step .ok, .step .ok, .step .ok, .step .ok,
    .step .ok, .step .ok, .step .ok, .step .ok]

/-- Two writes, a `commit()`, and calls after it. -/
theorem commit_intact_two_writes :
    ∃ s, (sessionMachine (oneFile [conf] [7]) conf).Reachable Undamaged s ∧
      s.history = [⟨.write [1, 2], true, some [7]⟩, ⟨.write [3], true, some [7]⟩,
        ⟨.commit, true, some [1, 2, 3]⟩, ⟨.write [4], false, some [1, 2, 3]⟩,
        ⟨.commit, false, some [1, 2, 3]⟩] ∧
      s.fs.read conf = some (written (s.history.take 2)) := by
  obtain ⟨s, hs, hp⟩ := Machine.reachable_of_execWithin
    (M := sessionMachine (oneFile [conf] [7]) conf) (G := Undamaged)
    (l := opened ++ writeCall [1, 2] 2 ++ writeCall [3] 1 ++ commitCall 3 ++
      [SessionAction.call (.write [4]), .step .ok, .call .commit, .step .ok])
    (p := fun s => s.history == [⟨.write [1, 2], true, some [7]⟩, ⟨.write [3], true, some [7]⟩,
        ⟨.commit, true, some [1, 2, 3]⟩, ⟨.write [4], false, some [1, 2, 3]⟩,
        ⟨.commit, false, some [1, 2, 3]⟩]) (by decide)
  have hh := eq_of_beq hp
  obtain ⟨-, hdata, -, hread⟩ := commit_intact _ _ hs
    [⟨.write [1, 2], true, some [7]⟩, ⟨.write [3], true, some [7]⟩]
    ⟨.commit, true, some [1, 2, 3]⟩ _ hh rfl rfl
  refine ⟨s, hs, hh, ?_⟩
  rw [hread, hdata, hh]
  rfl

/-- One byte of two is written, `write()` returns `false`, and `commit()` returns `true` with
that byte alone at the path. -/
theorem short_write_committed :
    ∃ s, (sessionMachine (oneFile [conf] [7]) conf).Reachable Machine.free s ∧
      s.history = [⟨.write [1, 2], false, some [7]⟩, ⟨.commit, true, some [1]⟩] ∧
      ¬ Intact s.history (s.fs.read conf) := by
  obtain ⟨s, hs, hp⟩ := Machine.reachable_of_exec
    (M := sessionMachine (oneFile [conf] [7]) conf)
    (l := opened ++ writeCall [1, 2] 1 ++ commitCall 1)
    (p := fun s => s.history == [⟨.write [1, 2], false, some [7]⟩, ⟨.commit, true, some [1]⟩])
    (by decide)
  have hh := eq_of_beq hp
  refine ⟨s, hs, hh, ?_⟩
  intro hintact
  obtain ⟨hcomplete, -⟩ := hintact [⟨.write [1, 2], false, some [7]⟩] _ [] hh rfl rfl
  have hfalse := hcomplete ⟨.write [1, 2], false, some [7]⟩ (by simp) [1, 2] rfl
  cases hfalse

end CppCode.AtomicFile
