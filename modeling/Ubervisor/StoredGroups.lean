import Ubervisor.Dumps
import Ubervisor.Transcripts

/-! # What a dump keeps of a group

A group is dumped as an object without the fields that have no value, where -1 stands for no
value. Reading the object back gives the same record, apart from numbers that were dumped as
absent and get a default. -/
namespace UbervisorStoredGroups

open UbervisorValues
open UbervisorChildConfigs
open UbervisorServer
open UbervisorCommands
open UbervisorSlots
open UbervisorTranscripts
open UbervisorDumps

section Fields

/-- An object whose fields may be absent. -/
def optFields (l : List (String × Option Json)) : List (Bytes × Json) :=
  l.filterMap fun f => f.2.map fun v => (text f.1, v)

theorem mem_optFields {l : List (String × Option Json)} {f : Bytes × Json} :
    f ∈ optFields l ↔ ∃ k, (k, some f.2) ∈ l ∧ f.1 = text k := by
  unfold optFields
  rw [List.mem_filterMap]
  constructor
  · rintro ⟨⟨k, o⟩, hf, he⟩
    obtain ⟨v, rfl, rfl⟩ := Option.map_eq_some_iff.mp he
    exact ⟨k, hf, rfl⟩
  · rintro ⟨k, hk, he⟩
    refine ⟨_, hk, ?_⟩
    rw [Option.map_some, ← he]

/-- Each key is found with its own value. -/
theorem objectGet_optFields {l : List (String × Option Json)} {k : String} {o : Option Json}
    (hkeys : (l.map fun f => text f.1).Nodup) (hnull : ∀ f ∈ l, f.2 ≠ some .null)
    (h : (k, o) ∈ l) : (Json.object (optFields l)).objectGet k = o := by
  have hown : ∀ f ∈ optFields l, f.1 = text k → o = some f.2 := by
    intro f hf hk
    obtain ⟨k', hk', he⟩ := mem_optFields.mp hf
    have hsame := List.inj_on_of_nodup_map hkeys hk' h (he.symm.trans hk)
    cases hsame
    rfl
  unfold Json.objectGet
  dsimp only
  cases hf : (optFields l).reverse.find? fun f => f.1 == text k with
  | none =>
    cases o with
    | none => rfl
    | some v =>
      have hmem : (text k, v) ∈ (optFields l).reverse :=
        List.mem_reverse.mpr (mem_optFields.mpr ⟨k, h, rfl⟩)
      have hno := List.find?_eq_none.mp hf _ hmem
      simp at hno
  | some f =>
    have hk : f.1 = text k := by simpa using List.find?_some hf
    have ho := hown f (List.mem_reverse.mp (List.mem_of_find?_eq_some hf)) hk
    obtain ⟨key, v⟩ := f
    subst ho
    cases v with
    | null => exact absurd rfl (hnull _ h)
    | _ => rfl

/-- The strings of a group, as they are dumped. -/
def storedStrings (cc : ChildConfig) : List (String × Option CStr) :=
  [("name", some cc.ccName), ("stdout", cc.ccStdout), ("stderr", cc.ccStderr), ("dir", cc.ccDir),
    ("heartbeat", cc.ccHeartbeat), ("fatal_cb", cc.ccFatalCb), ("username", cc.ccUsername),
    ("groupname", cc.ccGroupname)]

def storedInts (cc : ChildConfig) : List (String × ℤ) :=
  [("instances", cc.ccInstances), ("status", cc.ccStatus), ("killsig", cc.ccKillsig),
    ("uid", cc.ccUid), ("gid", cc.ccGid), ("error", cc.ccError), ("age", cc.ccAge)]

def strField (f : String × Option CStr) : String × Option Json :=
  (f.1, f.2.map fun s => .string s.bytes)

def intField (f : String × ℤ) : String × Option Json :=
  (f.1, if f.2 ≠ -1 then some (.int f.2) else none)

def argsField (l : Option (List CStr)) : String × Option Json :=
  ("args", l.map fun l => .array (l.map fun s => .string s.bytes))

def storedFields (cc : ChildConfig) : List (String × Option Json) :=
  (storedStrings cc).map strField ++ (storedInts cc).map intField ++ [argsField cc.ccCommand]

theorem addField_stored (k : String) (v : Option CStr) :
    addField k v = optFields [strField (k, v)] := by
  cases v <;> rfl

theorem addIntField_stored (k : String) (v : ℤ) :
    addIntField k v = optFields [intField (k, v)] := by
  unfold addIntField optFields intField
  by_cases hv : v ≠ -1 <;> simp [hv]

theorem addCommand_stored (v : Option (List CStr)) : addCommand v = optFields [argsField v] := by
  cases v <;> rfl

theorem optFields_append (l m : List (String × Option Json)) :
    optFields (l ++ m) = optFields l ++ optFields m := List.filterMap_append

theorem serialize_stored (cc : ChildConfig) :
    childConfigSerialize cc = .object (optFields (storedFields cc)) := by
  unfold childConfigSerialize
  simp only [addField_stored, addIntField_stored, addCommand_stored, ← optFields_append]
  rfl

theorem storedFields_keys (cc : ChildConfig) :
    ((storedFields cc).map fun f => text f.1).Nodup := by
  have hkeys : ((storedFields cc).map fun f => text f.1) =
      ["name", "stdout", "stderr", "dir", "heartbeat", "fatal_cb", "username", "groupname",
        "instances", "status", "killsig", "uid", "gid", "error", "age", "args"].map text := rfl
  rw [hkeys]
  decide

theorem storedFields_null (cc : ChildConfig) : ∀ f ∈ storedFields cc, f.2 ≠ some .null := by
  intro f hf
  unfold storedFields at hf
  rcases List.mem_append.mp hf with hf | hf
  · rcases List.mem_append.mp hf with hf | hf
    · obtain ⟨⟨k, v⟩, -, rfl⟩ := List.mem_map.mp hf
      cases v <;> simp [strField]
    · obtain ⟨⟨k, v⟩, -, rfl⟩ := List.mem_map.mp hf
      unfold intField
      split <;> simp
  · rw [List.mem_singleton] at hf
    rw [hf]
    unfold argsField
    cases cc.ccCommand <;> simp

theorem objectGet_stored {cc : ChildConfig} {k : String} {o : Option Json}
    (h : (k, o) ∈ storedFields cc) : (childConfigSerialize cc).objectGet k = o := by
  rw [serialize_stored]
  exact objectGet_optFields (storedFields_keys cc) (storedFields_null cc) h

theorem getField_stored {cc : ChildConfig} {k : String} {v old : Option CStr}
    (h : (k, v) ∈ storedStrings cc) :
    getField (childConfigSerialize cc) k old = some (v.or old) := by
  have hmem : strField (k, v) ∈ storedFields cc :=
    List.mem_append_left _ (List.mem_append_left _ (List.mem_map_of_mem h))
  unfold getField
  rw [objectGet_stored hmem]
  cases v with
  | none => rfl
  | some s => simp

/-- A number that is read back, or the default if it was dumped as absent. -/
def reread (v old : ℤ) : ℤ := if v ≠ -1 then clampInt v else old

theorem getIntField_stored {cc : ChildConfig} {k : String} {v old : ℤ}
    (h : (k, v) ∈ storedInts cc) :
    getIntField (childConfigSerialize cc) k old = some (reread v old) := by
  have hmem : intField (k, v) ∈ storedFields cc :=
    List.mem_append_left _ (List.mem_append_right _ (List.mem_map_of_mem h))
  unfold getIntField
  rw [objectGet_stored hmem]
  unfold reread
  by_cases hv : v ≠ -1 <;> simp [hv]

theorem getArgs_stored (l : List CStr) : getArgs (l.map fun s => .string s.bytes) = some l := by
  induction l with
  | nil => rfl
  | cons s l ih => simp [getArgs, ih]

theorem getCommand_stored (cc : ChildConfig) :
    getCommand (childConfigSerialize cc) = some cc.ccCommand := by
  have hmem : argsField cc.ccCommand ∈ storedFields cc :=
    List.mem_append_right _ List.mem_cons_self
  unfold getCommand
  rw [objectGet_stored hmem]
  cases cc.ccCommand with
  | none => rfl
  | some l => simp [getArgs_stored]

/-- The record that is read from the object of a group. -/
def rereadConfig (cc : ChildConfig) : ChildConfig :=
  { cc with
    ccInstances := reread cc.ccInstances (-1)
    ccStatus := reread cc.ccStatus (-1)
    ccKillsig := reread cc.ccKillsig (-1)
    ccUid := reread cc.ccUid (-1)
    ccGid := reread cc.ccGid (-1)
    ccError := reread cc.ccError 0
    ccAge := reread cc.ccAge 0
    ccErrtime := 0
    ccChilds := [] }

theorem fromJson_serialize (cc : ChildConfig) :
    childConfigFromJson (childConfigSerialize cc) = some (rereadConfig cc) := by
  have hstr : ∀ k v, (k, v) ∈ storedStrings cc →
      getField (childConfigSerialize cc) k none = some v := by
    intro k v h
    rw [getField_stored h, Option.or_none]
  have hint : ∀ k v old, (k, v) ∈ storedInts cc →
      getIntField (childConfigSerialize cc) k old = some (reread v old) :=
    fun _ _ _ h => getIntField_stored h
  have hname := hstr "name" (some cc.ccName) (by simp [storedStrings])
  have hstdout := hstr "stdout" cc.ccStdout (by simp [storedStrings])
  have hstderr := hstr "stderr" cc.ccStderr (by simp [storedStrings])
  have hdir := hstr "dir" cc.ccDir (by simp [storedStrings])
  have hheartbeat := hstr "heartbeat" cc.ccHeartbeat (by simp [storedStrings])
  have hfatal := hstr "fatal_cb" cc.ccFatalCb (by simp [storedStrings])
  have husername := hstr "username" cc.ccUsername (by simp [storedStrings])
  have hgroupname := hstr "groupname" cc.ccGroupname (by simp [storedStrings])
  have hinstances := hint "instances" cc.ccInstances (-1) (by simp [storedInts])
  have hstatus := hint "status" cc.ccStatus (-1) (by simp [storedInts])
  have hkillsig := hint "killsig" cc.ccKillsig (-1) (by simp [storedInts])
  have huid := hint "uid" cc.ccUid (-1) (by simp [storedInts])
  have hgid := hint "gid" cc.ccGid (-1) (by simp [storedInts])
  have herror := hint "error" cc.ccError 0 (by simp [storedInts])
  have hage := hint "age" cc.ccAge 0 (by simp [storedInts])
  unfold childConfigFromJson
  simp only [childConfigNew, hname, hstdout, hstderr, hdir, hheartbeat, hfatal, husername,
    hgroupname, hinstances, hstatus, hkillsig, huid, hgid, herror, hage, getCommand_stored,
    Option.bind_eq_bind, Option.bind_some, Option.pure_def]
  rfl

end Fields

section Configs

/-- The configuration of a group: what a dump is meant to keep. -/
def config (cc : ChildConfig) : ChildConfig :=
  { cc with ccError := 0, ccErrtime := 0, ccChilds := [] }

theorem config_settings (cc : ChildConfig) : config (settings cc) = config cc := rfl

/-- The number is one that `json_object_get_int` returns. -/
def FitsInt (n : ℤ) : Prop := clampInt n = n

def FitInts (cc : ChildConfig) : Prop :=
  FitsInt cc.ccInstances ∧ FitsInt cc.ccStatus ∧ FitsInt cc.ccKillsig ∧ FitsInt cc.ccUid ∧
    FitsInt cc.ccGid ∧ FitsInt cc.ccAge

/-- A group that a dump can describe. -/
structure Storable (cc : ChildConfig) : Prop where
  command : cc.ccCommand ≠ none
  instances : 1 ≤ cc.ccInstances
  ints : FitInts cc

/-- The configuration that comes back: -1 is dumped as absent, and what is absent gets the
default of `load_dump` or of a new record. -/
def restored (cc : ChildConfig) : ChildConfig :=
  { cc with
    ccStatus := if cc.ccStatus = -1 then statusRunning else cc.ccStatus
    ccKillsig := if cc.ccKillsig = -1 then 15 else cc.ccKillsig
    ccAge := if cc.ccAge = -1 then 0 else cc.ccAge }

/-- None of the numbers with a default of its own looks like an absent one. -/
def Recoverable (cc : ChildConfig) : Prop :=
  cc.ccStatus ≠ -1 ∧ cc.ccKillsig ≠ -1 ∧ cc.ccAge ≠ -1

instance (cc : ChildConfig) : Decidable (Recoverable cc) := inferInstanceAs (Decidable (_ ∧ _ ∧ _))

theorem restored_eq_iff {cc : ChildConfig} : restored cc = cc ↔ Recoverable cc := by
  constructor
  · intro h
    have hstatus := congrArg ChildConfig.ccStatus h
    have hkillsig := congrArg ChildConfig.ccKillsig h
    have hage := congrArg ChildConfig.ccAge h
    refine ⟨fun hn => ?_, fun hn => ?_, fun hn => ?_⟩
    · rw [restored, hn] at hstatus
      cases hstatus
    · rw [restored, hn] at hkillsig
      cases hkillsig
    · rw [restored, hn] at hage
      cases hage
  · rintro ⟨hstatus, hkillsig, hage⟩
    unfold restored
    rw [if_neg hstatus, if_neg hkillsig, if_neg hage]

theorem reread_fits {v : ℤ} (h : FitsInt v) (old : ℤ) :
    reread v old = if v = -1 then old else v := by
  unfold reread
  by_cases hv : v = -1
  · rw [if_neg (not_not.mpr hv), if_pos hv]
  · rw [if_pos hv, if_neg hv, h]

theorem reread_unset {v : ℤ} (h : FitsInt v) : reread v (-1) = v := by
  rw [reread_fits h]
  split
  · rename_i hv
    exact hv.symm
  · rfl

/-- `load_dump` accepts the object of a group and gets back its configuration with defaults. -/
theorem dumpElement_serialize {cc : ChildConfig} (h : Storable cc) :
    ∃ r, dumpElement (childConfigSerialize cc) = some r ∧ config r = restored (config cc) := by
  obtain ⟨hi, hst, hk, hu, hg, ha⟩ := h.ints
  have hinstances : (dumpDefaults (rereadConfig cc)).ccInstances = cc.ccInstances := by
    have hne : cc.ccInstances ≠ -1 := by
      have hpos := h.instances
      omega
    unfold dumpDefaults rereadConfig
    rw [reread_unset hi, if_neg hne]
  have hok : ¬ ((rereadConfig cc).ccCommand = none ∨
      (dumpDefaults (rereadConfig cc)).ccInstances < 0) := by
    rw [hinstances]
    rintro (hn | hn)
    · exact h.command hn
    · have hpos := h.instances
      omega
  refine ⟨dumpDefaults (rereadConfig cc), ?_, ?_⟩
  · have hparsed := fromJson_serialize cc
    unfold childConfigSerialize at hparsed ⊢
    simp only [dumpElement, hparsed, Option.bind_eq_bind, Option.bind_some, if_neg hok]
  · have hage : (rereadConfig cc).ccAge = if cc.ccAge = -1 then 0 else cc.ccAge := reread_fits ha 0
    have hcfg : config (dumpDefaults (rereadConfig cc)) =
        { config cc with
          ccInstances := (dumpDefaults (rereadConfig cc)).ccInstances
          ccStatus := if (rereadConfig cc).ccStatus = -1 then statusRunning
            else (rereadConfig cc).ccStatus
          ccKillsig := if (rereadConfig cc).ccKillsig = -1 then 15 else (rereadConfig cc).ccKillsig
          ccUid := (rereadConfig cc).ccUid
          ccGid := (rereadConfig cc).ccGid
          ccAge := (rereadConfig cc).ccAge } := rfl
    rw [hcfg, hinstances, hage]
    unfold rereadConfig
    rw [reread_unset hst, reread_unset hk, reread_unset hu, reread_unset hg]
    rfl

end Configs

section Files

variable (P : Platform)

def dumpLine (cc : ChildConfig) : Bytes := P.jsonPrint (childConfigSerialize cc) ++ text ",\n"

/-- The contents of a dump of the groups. -/
def dumpText (ccs : List ChildConfig) : Bytes :=
  text "[\n" ++ ccs.flatMap (dumpLine P) ++ text "]\n"

/-- A write to a file, or a file that gets its name. -/
def fileCall : Output → Option Output
  | .fprintf ok b => some (.fprintf ok b)
  | .link src dst => some (.link src dst)
  | _ => none

/-- What the writes put into the file. -/
def written (l : List Output) : Bytes := l.flatMap fun o =>
  match o with
  | .fprintf true b => b
  | _ => []

def isFailedWrite : Output → Bool
  | .fprintf ok _ => !ok
  | _ => false

def isLink : Output → Bool
  | .link .. => true
  | _ => false

/-- No write fails, and the file gets the name of a dump. -/
def DumpWritten (l : List Output) : Prop := (∀ o ∈ l, isFailedWrite o = false) ∧ l.any isLink

instance (l : List Output) : Decidable (DumpWritten l) := inferInstanceAs (Decidable (_ ∧ _))

variable {P} {l : List Output}

theorem written_append (l m : List Output) : written (l ++ m) = written l ++ written m :=
  List.flatMap_append

theorem not_written_of_failed {o : Output} (ho : o ∈ l) (hf : isFailedWrite o = true) :
    ¬ DumpWritten l := by
  intro h
  rw [h.1 o ho] at hf
  cases hf

theorem fprintf_reads (io : Io) (b : Bytes) :
    Reads fileCall [.fprintf (io.fprintf b).1 b] io (io.fprintf b).2 := ⟨[_], rfl, rfl⟩

/-- The loop writes one line for each group, or one of its writes fails. -/
theorem dumpGroups_reads (ccs : List ChildConfig) (io : Io) :
    ∃ l, Reads fileCall l io (io.dumpGroups P ccs).2 ∧
      ((io.dumpGroups P ccs).1 = true ∧ l = ccs.map (fun cc => .fprintf true (dumpLine P cc)) ∨
        (io.dumpGroups P ccs).1 = false ∧ ∃ o ∈ l, isFailedWrite o = true) := by
  induction ccs generalizing io with
  | nil => exact ⟨[], ⟨[], (List.append_nil _).symm, rfl⟩, .inl ⟨rfl, rfl⟩⟩
  | cons cc ccs ih =>
    have hone := fprintf_reads io (dumpLine P cc)
    unfold Io.dumpGroups
    dsimp only
    split
    · rename_i hok
      obtain ⟨l, hl, hcases⟩ := ih (io.fprintf (dumpLine P cc)).2
      have hfirst : (io.fprintf (dumpLine P cc)).1 = true := hok
      rw [hfirst] at hone
      refine ⟨_, hone.trans hl, ?_⟩
      rcases hcases with ⟨h, rfl⟩ | ⟨h, o, ho, hf⟩
      · exact .inl ⟨h, rfl⟩
      · exact .inr ⟨h, o, List.mem_cons_of_mem _ ho, hf⟩
    · rename_i hok
      have hfirst : (io.fprintf (dumpLine P cc)).1 = false := Bool.eq_false_iff.mpr hok
      rw [hfirst] at hone
      exact ⟨_, hone, .inr ⟨rfl, _, List.mem_cons_self, rfl⟩⟩

theorem written_lines (ccs : List ChildConfig) :
    written (ccs.map fun cc => .fprintf true (dumpLine P cc)) = ccs.flatMap (dumpLine P) := by
  rw [written, List.flatMap_map]

/-- A dump that is written completely holds one line for each group. -/
theorem cDump_reads (t : ℤ) (ccs : List ChildConfig) (con : ClientId) (io : Io) :
    ∃ l, Reads fileCall l io (Io.cDump P t ccs con io) ∧
      (DumpWritten l → written l = dumpText P ccs) := by
  have hnothing : ∀ {x : Io}, Reads fileCall [] io x → ∃ l, Reads fileCall l io x ∧
      (DumpWritten l → written l = dumpText P ccs) :=
    fun hx => ⟨[], hx, fun h => by cases h.2⟩
  unfold Io.cDump
  dsimp only
  split
  · exact hnothing (.reply _ _)
  · split
    · exact hnothing (.reply _ _)
    · split
      · exact hnothing (.reply _ _)
      · have hopen : ∀ fn, Reads fileCall [] io ((Io.fileResult
            { io with dumpCnt := io.dumpCnt + 1 }).2.emit (.fopen fn)) :=
          fun fn => .emit (.fopen fn)
        generalize text "tmp." ++ _ = fn
        have hopen := hopen fn
        generalize Io.emit _ (.fopen fn) = x at hopen
        have hfirst := hopen.trans (fprintf_reads x (text "[\n"))
        obtain ⟨m, hm, hcases⟩ := dumpGroups_reads (P := P) ccs (x.fprintf (text "[\n")).2
        generalize Io.dumpGroups P ccs _ = y at hm hcases
        have hlines := hfirst.trans hm
        split
        · rename_i hfail
          obtain ⟨-, o, ho, hf⟩ := hcases.resolve_left (by rintro ⟨h, -⟩; simp [h] at hfail)
          refine ⟨_, (hlines.trans (.emit .fclose)).trans (.reply _ _), fun h => ?_⟩
          exact absurd h (not_written_of_failed (o := o) (by simp [ho]) hf)
        · rename_i hfail
          obtain ⟨-, rfl⟩ := hcases.resolve_right (by rintro ⟨h, -⟩; simp [h] at hfail)
          have hlast := hlines.trans (fprintf_reads y.2 (text "]\n"))
          generalize (y.2.fprintf (text "]\n")).1 = last at hlast ⊢
          generalize (y.2.fprintf (text "]\n")).2 = z at hlast ⊢
          generalize (x.fprintf (text "[\n")).1 = first at hlast
          have hfile : ∀ {w : Io} {k : List Output}, written k = [] → Reads fileCall k z w →
              ∃ l, Reads fileCall l io w ∧ (DumpWritten l → written l = dumpText P ccs) := by
            intro w k hk hw
            refine ⟨_, hlast.trans hw, fun h => ?_⟩
            have hone := h.1 (.fprintf first (text "[\n")) (by simp)
            have htwo := h.1 (.fprintf last (text "]\n")) (by simp)
            have hok : first = true := by simpa [isFailedWrite] using hone
            have hok' : last = true := by simpa [isFailedWrite] using htwo
            simp only [written_append, written_lines, hk, hok, hok', List.append_nil]
            rfl
          have hclose : ∀ {w : Io}, Reads fileCall [] z w →
              Reads fileCall [] z (w.emit .fclose).fileResult.2 :=
            fun hw => (hw.trans (.emit .fclose)).same rfl
          have hstart : Reads fileCall [] z z := ⟨[], (List.append_nil _).symm, rfl⟩
          have hfail : Reads fileCall [] z ((z.emit .fclose).sendStatusMsg P con false "failure") :=
            (hstart.trans (.emit .fclose)).trans (.reply _ _)
          split
          · split
            · exact hfile rfl ((hclose hstart).trans (.reply _ _))
            · exact hfile rfl ((((hclose hstart).trans (.emit (.link _ _))).trans
                (.emit (.unlink _))).trans (.reply _ _))
          · split
            · exact hfile rfl ((hclose hfail).trans (.reply _ _))
            · exact hfile rfl ((((hclose hfail).trans (.emit (.link _ _))).trans
                (.emit (.unlink _))).trans (.reply _ _))

end Files

end UbervisorStoredGroups
