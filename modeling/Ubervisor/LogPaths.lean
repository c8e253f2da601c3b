import Ubervisor.FileTree
import Ubervisor.LogReading

/-! # The files of the logs

`spawn_child` opens the logs of a process after it has changed to the directory of the group, and
`c_read` opens them from the directory of the server. -/
namespace UbervisorLogPaths

open UbervisorValues
open UbervisorChildConfigs
open UbervisorRegistry
open UbervisorServer
open UbervisorCommands
open UbervisorLogReading
open UbervisorFileTree

section Paths

def component (b : Bytes) : Component Bytes :=
  if b = text "." then .here
  else if b = text ".." then .up
  else .name b

/-- A path as `open` and `chdir` take it. -/
def pathOf (b : Bytes) : Path Bytes where
  fromRoot := b.head? == some 47
  steps := ((b.splitOn 47).filter fun c => c ≠ []).map component
  dirOnly := b.getLast? == some 47

inductive Stream where
  | stdout
  | stderr
  deriving DecidableEq

def Stream.number : Stream → ℤ
  | .stdout => 1
  | .stderr => 2

def Stream.fileName (cc : ChildConfig) : Stream → Option CStr
  | .stdout => cc.ccStdout
  | .stderr => cc.ccStderr

/-- The path of a log, with the number of the instance in it. -/
def logPath (fn : CStr) (instance_ : ℕ) : Path Bytes :=
  pathOf (CStr.ofBytes (replaceStr numMarker (instanceStr instance_) fn.bytes)).bytes

end Paths

section Opening

variable {δ : Type} [DecidableEq δ]

/-- One stream of `spawn_child`, where an `open` that fails is only logged: the file that is
opened, and the files that there are then. -/
def openStream (T : FileTree δ Bytes) (d : δ) (instance_ : ℕ) :
    Option CStr → Option ℕ × FileTree δ Bytes
  | none => (none, T)
  | some fn =>
    match T.openCreate d (logPath fn instance_) with
    | some (f, U) => (some f, U)
    | none => (none, T)

/-- The logs of a process, and the files that there are when it runs. -/
structure Opened (δ : Type) where
  stdout : Option ℕ
  stderr : Option ℕ
  tree : FileTree δ Bytes

def Opened.file (r : Opened δ) : Stream → Option ℕ
  | .stdout => r.stdout
  | .stderr => r.stderr

/-- The directory in which a process of the group runs. -/
def childDir (T : FileTree δ Bytes) (w : δ) (cc : ChildConfig) : Option δ :=
  match cc.ccDir with
  | none => some w
  | some dir => T.chdir w (pathOf dir.bytes)

/-- `spawn_child` from the setting of the ids to `setsid`. A `chdir` that fails ends the child. -/
def spawnChild (T : FileTree δ Bytes) (w : δ) (cc : ChildConfig) (instance_ : ℕ) :
    Option (Opened δ) :=
  match childDir T w cc with
  | none => none
  | some d =>
    let (out, T) := openStream T d instance_ cc.ccStdout
    let (err, T) := openStream T d instance_ cc.ccStderr
    some ⟨out, err, T⟩

/-- The file that `c_read` opens. -/
def readFile (T : FileTree δ Bytes) (w : δ) (cc : ChildConfig) (st : Stream) (instance_ : ℕ) :
    Option ℕ :=
  (st.fileName cc).bind fun fn => T.fileOf w (logPath fn instance_)

/-- The files as the server sees them, by their paths. -/
def serverFiles (T : FileTree δ Bytes) (w : δ) (content : ℕ → Bytes) (path : CStr) :
    Option LogFile :=
  (T.fileOf w (pathOf path.bytes)).map fun f => .regular (content f)

end Opening

section Reading

variable {δ : Type} {T : FileTree δ Bytes} {w d : δ} {cc : ChildConfig} {st : Stream} {i f : ℕ}
  {r : Opened δ} {name : Option CStr} {fn : CStr}

/-- The log that a READ opens, and what it finds there. -/
theorem openLog_file {reg : Registry} {n : CStr} {g : GroupId} (content : ℕ → Bytes)
    (hn : reg.childConfigFindByName n = some g) (hi : (i : ℤ) < (reg.groups g).ccInstances) :
    openLog reg (serverFiles T w content) n st.number i =
      (readFile T w (reg.groups g) st i).map content := by
  have hbounds : ¬ ((i : ℤ) < 0 ∨ (reg.groups g).ccInstances ≤ i) := by omega
  have hname : (if st.number = 1 then (reg.groups g).ccStdout else (reg.groups g).ccStderr) =
      st.fileName (reg.groups g) := by
    cases st with
    | stdout => rfl
    | stderr => rfl
  unfold openLog
  rw [hn]
  dsimp only
  rw [if_neg hbounds, hname, readFile, Int.toNat_natCast]
  cases st.fileName (reg.groups g) with
  | none => rfl
  | some fn =>
    dsimp only [Option.bind_some]
    rw [serverFiles, ← logPath]
    cases T.fileOf w (logPath fn i) with
    | none => rfl
    | some f => rfl

variable [DecidableEq δ]

theorem openStream_extends (name : Option CStr) : T.Extends (openStream T d i name).2 := by
  unfold openStream
  split
  · exact .refl
  · split
    · rename_i ho
      exact (FileTree.openCreate_opens ho).1
    · exact .refl

theorem openStream_opens (h : (openStream T d i name).1 = some f) :
    ∃ fn, name = some fn ∧ (openStream T d i name).2.fileOf d (logPath fn i) = some f := by
  unfold openStream at h ⊢
  split at h
  · cases h
  · rename_i fn
    split at h
    · rename_i ho
      cases h
      refine ⟨fn, rfl, ?_⟩
      exact (FileTree.openCreate_opens ho).2
    · cases h

theorem spawnChild_dir (hd : childDir T w cc = some d) : spawnChild T w cc i =
    some ⟨(openStream T d i cc.ccStdout).1,
      (openStream (openStream T d i cc.ccStdout).2 d i cc.ccStderr).1,
      (openStream (openStream T d i cc.ccStdout).2 d i cc.ccStderr).2⟩ := by
  unfold spawnChild
  rw [hd]

/-- The logs are opened in the directory of the group, and keep their places. -/
theorem spawnChild_opened (h : spawnChild T w cc i = some r) :
    ∃ d, childDir T w cc = some d ∧ ∀ st f, r.file st = some f →
      ∃ fn, st.fileName cc = some fn ∧ r.tree.fileOf d (logPath fn i) = some f := by
  unfold spawnChild at h
  cases hd : childDir T w cc with
  | none =>
    rw [hd] at h
    cases h
  | some d =>
    rw [hd] at h
    cases h
    refine ⟨d, rfl, fun st f hf => ?_⟩
    cases st with
    | stdout =>
      obtain ⟨fn, hfn, hopen⟩ := openStream_opens hf
      exact ⟨fn, hfn, (openStream_extends cc.ccStderr).fileOf hopen⟩
    | stderr => exact openStream_opens hf

/-- The log is opened where the server looks for it. -/
theorem spawnChild_read (h : spawnChild T w cc i = some r) (hf : r.file st = some f)
    (hsame : ∀ d fn, childDir T w cc = some d → st.fileName cc = some fn →
      r.tree.place d (logPath fn i) = r.tree.place w (logPath fn i)) :
    readFile r.tree w cc st i = some f := by
  obtain ⟨d, hd, hopened⟩ := spawnChild_opened h
  obtain ⟨fn, hfn, hfile⟩ := hopened st f hf
  rw [readFile, hfn, Option.bind_some]
  rw [FileTree.fileOf, hsame d fn hd hfn] at hfile
  exact hfile

end Reading

section Places

variable {cc : ChildConfig} {st : Stream} {i : ℕ}

/-- The process and the server take the path of the log from the same directory, or it does not
matter from which, or there is no such path of a file. -/
def SamePlace (cc : ChildConfig) (st : Stream) (i : ℕ) : Prop :=
  (∀ dir, cc.ccDir = some dir → (pathOf dir.bytes).Stationary) ∨
    ∀ fn, st.fileName cc = some fn →
      (logPath fn i).fromRoot = true ∨ ¬ (logPath fn i).NamesFile

/-- Whatever directories and files there are, a READ opens the file that the process writes. -/
def ReadsWritten (cc : ChildConfig) (st : Stream) (i : ℕ) : Prop :=
  ∀ (δ : Type) [DecidableEq δ] (T : FileTree δ Bytes) (w : δ) (r : Opened δ) (f : ℕ),
    spawnChild T w cc i = some r → r.file st = some f → readFile r.tree w cc st i = some f

theorem readsWritten_of_same (h : SamePlace cc st i) : ReadsWritten cc st i := by
  intro δ _ T w r f hr hf
  refine spawnChild_read hr hf fun d fn hd hfn => ?_
  rcases h with hdir | hpath
  · apply FileTree.place_start
    right
    unfold childDir at hd
    split at hd
    · exact (Option.some.inj hd).symm
    · rename_i dir hdir'
      exact (hdir dir hdir').chdir hd
  · rcases hpath fn hfn with hroot | hno
    · exact FileTree.place_start (.inl hroot)
    · -- a path that names no file has no place
      have hnone : ∀ v, r.tree.place v (logPath fn i) = none := fun v => by
        cases hv : r.tree.place v (logPath fn i) with
        | none => rfl
        | some x => exact absurd (Path.namesFile_of_place hv) hno
      rw [hnone, hnone]

/-- Where the directory of the group is another one, the server looks elsewhere. -/
theorem not_readsWritten {dir fn : CStr} (hdir : cc.ccDir = some dir)
    (hm : ¬ (pathOf dir.bytes).Stationary) (hfn : st.fileName cc = some fn)
    (hr : (logPath fn i).fromRoot = false) (hn : (logPath fn i).NamesFile) :
    ¬ ReadsWritten cc st i := by
  intro h
  obtain ⟨T, w, d, x, hchdir, hplace, helse, hfree, hfull⟩ := moved_apart hm hr hn
  have hchild : childDir T w cc = some d := by
    unfold childDir
    rw [hdir]
    exact hchdir
  have hopens : ∀ U : FileTree Rung Bytes, T.Extends U → ∃ f,
      (openStream U d i (some fn)).1 = some f := by
    intro U hU
    have hx : U.place d (logPath fn i) = some x := by rw [hU.place, hplace]
    have hno : ∀ e, U.entry x.1 x.2 ≠ some (.dir e) := by
      intro e he
      cases hfree.symm.trans (hU.dirs _ _ _ he)
    obtain ⟨f, V, hopen⟩ := FileTree.openCreate_succeeds hx hno
    refine ⟨f, ?_⟩
    rw [openStream, hopen]
  obtain ⟨r, hr, hext, f, hf⟩ : ∃ r, spawnChild T w cc i = some r ∧ T.Extends r.tree ∧
      ∃ f, r.file st = some f := by
    have hout := openStream_extends (T := T) (d := d) (i := i) cc.ccStdout
    refine ⟨_, spawnChild_dir hchild, hout.trans (openStream_extends _), ?_⟩
    cases st with
    | stdout =>
      have hname : cc.ccStdout = some fn := hfn
      change ∃ f, (openStream T d i cc.ccStdout).1 = some f
      rw [hname]
      exact hopens T .refl
    | stderr =>
      have hname : cc.ccStderr = some fn := hfn
      change ∃ f, (openStream _ d i cc.ccStderr).1 = some f
      rw [hname]
      exact hopens _ hout
  have hread := h Rung T w r f hr hf
  rw [readFile, hfn, Option.bind_some] at hread
  obtain ⟨y, hy, hfile⟩ := Option.bind_eq_some_iff.mp hread
  rw [hext.place] at hy
  have hne : y ≠ x := fun he => helse (he ▸ hy)
  obtain ⟨e, he⟩ := hfull y hne
  cases (hext.kept _ _ _ he).symm.trans (FileTree.fileAt_some.mp hfile)

/-- READ opens the file that the process writes if and only if the path of the log does not
depend on the directory of the group. -/
theorem readsWritten_iff (cc : ChildConfig) (st : Stream) (i : ℕ) :
    ReadsWritten cc st i ↔ SamePlace cc st i := by
  refine ⟨fun h => ?_, readsWritten_of_same⟩
  by_contra hno
  unfold SamePlace at hno
  push Not at hno
  obtain ⟨⟨dir, hdir, hm⟩, fn, hfn, hroot, hn⟩ := hno
  exact not_readsWritten hdir hm hfn (Bool.not_eq_true _ ▸ hroot) hn h

end Places

section Runs

/-- A group with a directory, and a log that is named relative to it. -/
def movedConfig : ChildConfig :=
  { childConfigNew (CStr.ofBytes (text "web")) with
    ccDir := some (CStr.ofBytes (text "/tmp"))
    ccStdout := some (CStr.ofBytes (text "web.log"))
    ccInstances := 1 }

/-- The log of this group is not where a READ looks for it. -/
theorem movedConfig_elsewhere : ¬ ∀ (cc : ChildConfig) (st : Stream) (i : ℕ),
    (i : ℤ) < cc.ccInstances → ReadsWritten cc st i := by
  intro h
  have hwritten := h movedConfig .stdout 0 (by decide)
  revert hwritten
  refine not_readsWritten rfl ?_ rfl ?_ ?_
  · intro hs
    have hroot : (pathOf (CStr.ofBytes (text "/tmp")).bytes).fromRoot = true := by decide +kernel
    cases hroot.symm.trans hs.1
  · decide +kernel
  · exact ⟨by decide +kernel, text "web.log", by decide +kernel⟩

end Runs

end UbervisorLogPaths
