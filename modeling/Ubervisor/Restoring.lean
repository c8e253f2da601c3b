import Ubervisor.Registrations
import Ubervisor.StoredGroups

/-! # Restoring a dump

A fresh server that loads the dump of another one registers the same groups with the same
configurations, unless a group has a number that is dumped as absent and comes back as a
default: a group without a status is started, one without a kill signal gets `SIGTERM`. -/
namespace UbervisorRestoring

open UbervisorRuns
open UbervisorValues
open UbervisorChildConfigs
open UbervisorKernel
open UbervisorRegistry
open UbervisorServer
open UbervisorCommands
open UbervisorEvents
open UbervisorSupervision
open UbervisorSlots
open UbervisorUpdates
open UbervisorExits
open UbervisorEffects
open UbervisorGroupSteps
open UbervisorTranscripts
open UbervisorDumps
open UbervisorRegistrations
open UbervisorStoredGroups
open UbervisorJsonC

section Keyed

variable {α κ : Type*} [DecidableEq κ] {key : α → κ} {l : List α}

/-- The first element with the key. -/
def lookup (key : α → κ) (l : List α) (k : κ) : Option α := l.find? fun a => key a = k

theorem lookup_eq_some (hd : (l.map key).Nodup) {k : κ} {a : α} :
    lookup key l k = some a ↔ a ∈ l ∧ key a = k := by
  unfold lookup
  constructor
  · intro h
    exact ⟨List.mem_of_find?_eq_some h, by simpa using List.find?_some h⟩
  · rintro ⟨ha, hk⟩
    cases hf : l.find? fun b => key b = k with
    | none =>
      have hno := List.find?_eq_none.mp hf a ha
      simp [hk] at hno
    | some b =>
      have hb : key b = k := by simpa using List.find?_some hf
      have hmem := List.mem_of_find?_eq_some hf
      rw [List.inj_on_of_nodup_map hd hmem ha (hb.trans hk.symm)]

/-- Distinct keys make the order irrelevant. -/
theorem lookup_eq_iff {m : List α} (hl : (l.map key).Nodup) (hm : (m.map key).Nodup) :
    lookup key m = lookup key l ↔ ∀ a, a ∈ m ↔ a ∈ l := by
  constructor
  · intro h a
    have hk := congrFun h (key a)
    constructor
    · intro ha
      have hsome := (lookup_eq_some hm).mpr ⟨ha, rfl⟩
      rw [hk] at hsome
      exact ((lookup_eq_some hl).mp hsome).1
    · intro ha
      have hsome := (lookup_eq_some hl).mpr ⟨ha, rfl⟩
      rw [← hk] at hsome
      exact ((lookup_eq_some hm).mp hsome).1
  · intro h
    funext k
    apply Option.ext
    intro a
    rw [lookup_eq_some hm, lookup_eq_some hl, h]

/-- A change of the elements that keeps their keys is invisible only if it changes none. -/
theorem lookup_map_eq_iff {f : α → α} (hf : ∀ a, key (f a) = key a) (hd : (l.map key).Nodup) :
    lookup key (l.map f).reverse = lookup key l ↔ ∀ a ∈ l, f a = a := by
  have hkeys : (l.map f).map key = l.map key := by
    rw [List.map_map]
    exact List.map_congr_left fun a _ => hf a
  have hnodup : ((l.map f).reverse.map key).Nodup := by
    rw [List.map_reverse, List.nodup_reverse, hkeys]
    exact hd
  rw [lookup_eq_iff hd hnodup]
  constructor
  · intro h a ha
    have hmem := (h (f a)).mp (List.mem_reverse.mpr (List.mem_map_of_mem ha))
    exact List.inj_on_of_nodup_map hd hmem ha (hf a)
  · intro h a
    have hid : l.map f = l := (List.map_congr_left (g := id) h).trans (List.map_id _)
    rw [hid, List.mem_reverse]

end Keyed

section Runs

variable {P : Platform} {s u : Server} {e : Event} {g : GroupId}

/-- Groups come from requests only. -/
def Unloaded (_ : Server) (e : Event) (_ : Server) : Prop := e.loads = none

instance (s u : Server) (e : Event) : Decidable (Unloaded s e u) :=
  inferInstanceAs (Decidable (_ = _))

theorem loadedGroups_none (h : e.loads = none) : loadedGroups P e = [] := by
  rw [loadedGroups, h]

theorem unloaded_unique (h : ReachableBy P Unloaded s) : UniqueNames s.reg := by
  obtain ⟨a, b, t, hrun⟩ := h
  have hdistinct : ReachableBy P (LoadsDistinct P) s := by
    refine ⟨a, b, t, hrun.mono fun s e u hq => ?_⟩
    rw [LoadsDistinct, loadedGroups_none hq]
    exact List.nodup_nil
  exact ReachableBy.unique hdistinct

theorem unloaded_inRange (h : ReachableBy P Unloaded s) (hg : g ∈ s.reg.childConfigList) :
    InRange (s.reg.groups g).ccInstances := by
  obtain ⟨a, b, t, hrun⟩ := h
  have hranged : ReachableBy P (LoadsInRange P) s := by
    refine ⟨a, b, t, hrun.mono fun s e u hq cc hcc => ?_⟩
    rw [loadedGroups_none hq] at hcc
    cases hcc
  exact reachable_inRange hranged hg

theorem fitsInt_of_range {n : ℤ} (h : -2147483648 ≤ n) (h' : n ≤ 2147483647) : FitsInt n := by
  unfold FitsInt clampInt
  omega

theorem clampInt_fits (n : ℤ) : FitsInt (clampInt n) := by
  unfold FitsInt clampInt
  omega

theorem getIntField_fits {obj : Json} {k : String} {v old : ℤ} (ho : FitsInt old)
    (h : getIntField obj k old = some v) : FitsInt v := by
  unfold getIntField at h
  split at h
  · cases h
    exact ho
  · cases h
    exact clampInt_fits _
  · cases h

theorem fromJson_fitInts {j : Json} {cc : ChildConfig} (h : childConfigFromJson j = some cc) :
    FitInts cc := by
  have hunset : FitsInt (-1) := fitsInt_of_range (by decide) (by decide)
  have hzero : FitsInt 0 := fitsInt_of_range (by decide) (by decide)
  unfold childConfigFromJson at h
  iterate 9 obtain ⟨_, -, h⟩ := Option.bind_eq_some_iff.mp h
  obtain ⟨instances, hi, h⟩ := Option.bind_eq_some_iff.mp h
  obtain ⟨status, hs, h⟩ := Option.bind_eq_some_iff.mp h
  obtain ⟨killsig, hk, h⟩ := Option.bind_eq_some_iff.mp h
  obtain ⟨uid, hu, h⟩ := Option.bind_eq_some_iff.mp h
  obtain ⟨gid, hg, h⟩ := Option.bind_eq_some_iff.mp h
  obtain ⟨_, -, h⟩ := Option.bind_eq_some_iff.mp h
  obtain ⟨age, ha, h⟩ := Option.bind_eq_some_iff.mp h
  obtain ⟨_, -, h⟩ := Option.bind_eq_some_iff.mp h
  cases h
  exact ⟨getIntField_fits hunset hi, getIntField_fits hunset hs, getIntField_fits hunset hk,
    getIntField_fits hunset hu, getIntField_fits hunset hg, getIntField_fits hzero ha⟩

theorem unserialize_fitInts {buf : CStr} {cc : ChildConfig}
    (h : childConfigUnserialize P buf = some cc) : FitInts cc := by
  unfold childConfigUnserialize at h
  split at h
  · exact fromJson_fitInts h
  · cases h

theorem acceptedSpwn_fitInts {cc : ChildConfig} (h : acceptedSpwn P s e = some cc) :
    FitInts cc := by
  obtain ⟨con, cid, payload, o, -, -, hcc, -⟩ := acceptedSpwn_request h
  exact unserialize_fitInts hcc

theorem acceptedUpdt_fitInts {cc : ChildConfig} (h : acceptedUpdt P s e = some (cc, g)) :
    FitInts cc := by
  obtain ⟨con, cid, payload, o, -, -, hcc, -, -⟩ := acceptedUpdt_request h
  exact unserialize_fitInts hcc

theorem accepted_command {cc : ChildConfig} (h : acceptedSpwn P s e = some cc) :
    cc.ccCommand ≠ none := by
  have hok := acceptedSpwn_ok h
  unfold spwnRefusal at hok
  intro hn
  rw [if_pos hn] at hok
  cases hok

theorem intOr_fits {new old : ℤ} (hn : FitsInt new) (ho : FitsInt old) :
    FitsInt (intOr new old) := by
  unfold intOr
  split
  · exact hn
  · exact ho

theorem updated_fitInts {cc up : ChildConfig} (hc : FitInts cc) (hu : FitInts up) :
    FitInts (updated cc up) := by
  obtain ⟨hi, hs, hk, -, -, ha⟩ := hc
  obtain ⟨hi', hs', hk', hu', hg', ha'⟩ := hu
  refine ⟨intOr_fits hi hi', intOr_fits hs hs', intOr_fits hk hk', hu', hg', ?_⟩
  change FitsInt (ageOr cc.ccAge up.ccAge)
  unfold ageOr
  split
  · exact ha
  · exact ha'

theorem counted_fitInts (ret : WaitStatus) (t : ℤ) {cc : ChildConfig} (h : FitInts cc) :
    FitInts (counted ret t cc) := by
  have hbroken : FitsInt statusBroken := fitsInt_of_range (by decide) (by decide)
  obtain ⟨hi, hs, hrest⟩ := h
  unfold counted
  split
  · exact ⟨hi, hbroken, hrest⟩
  · split
    · exact ⟨hi, hs, hrest⟩
    · exact ⟨hi, hs, hrest⟩

/-- Every group that requests can create can be described by a dump. -/
theorem unloaded_storable (h : ReachableBy P Unloaded s) (hg : g ∈ s.reg.childConfigList) :
    Storable (s.reg.groups g) := by
  have hset : (settings (s.reg.groups g)).ccCommand ≠ none ∧
      FitInts (settings (s.reg.groups g)) := by
    refine reachable_settings (G := fun cc => cc.ccCommand ≠ none ∧ FitInts cc) ?_ ?_ ?_ h hg
    · intro s e u cc hq hreg
      cases hreg with
      | spwn cc ha =>
        obtain ⟨hi, hrest⟩ := acceptedSpwn_fitInts ha
        have hcount := accepted_instances ha
        unfold maxInstances at hcount
        have hn : FitsInt (startCount cc) := fitsInt_of_range (by omega) (by omega)
        have hcmd : cc.ccCommand ≠ none := accepted_command ha
        exact ⟨hcmd, hn, hrest⟩
      | dump cc hcc =>
        rw [loadedGroups_none hq] at hcc
        cases hcc
    · rintro s e u cc g - ha ⟨hcmd, hints⟩
      exact ⟨hcmd, updated_fitInts (acceptedUpdt_fitInts ha) hints⟩
    · rintro ret t cc ⟨hcmd, hints⟩
      refine ⟨?_, counted_fitInts ret t hints⟩
      unfold counted
      split
      · exact hcmd
      · split <;> exact hcmd
  exact ⟨hset.1, (unloaded_inRange h hg).1, hset.2⟩

end Runs

section Restores

variable {P : Platform} {s : Server} {r : Registry} {g : GroupId}

/-- The configurations of the groups, in the order of the list. -/
def configs (r : Registry) : List ChildConfig := r.childConfigList.map fun g => config (r.groups g)

/-- The map from group name to configuration. -/
def configMap (r : Registry) : CStr → Option ChildConfig := lookup ChildConfig.ccName (configs r)

/-- json-c reads the array of the dump back, with the comma that stands before its end. -/
structure ReadsBack (P : Platform) (ccs : List ChildConfig) : Prop where
  noNul : ∀ cc ∈ ccs, 0 ∉ P.jsonPrint (childConfigSerialize cc)
  parses : P.jsonParse (dumpText P ccs) = some (.array (ccs.map childConfigSerialize))

/-- The result of `load_dump` in a fresh server, compared with the groups that were dumped. -/
structure Restored (r : Registry) (fresh : Server) (x : Server × Bool) : Prop where
  succeeds : x.2 = true
  same : configMap x.1.reg = configMap r
  unstarted : ∀ g ∈ r.childConfigList, (r.groups g).ccStatus ≠ statusRunning →
    ∀ y ∈ newHist fresh x.1, ∀ g', Starts g' y → (x.1.reg.groups g').ccName ≠ (r.groups g).ccName

/-- A server that has just been started. -/
def fresh (autoDump allowExit : Bool) (t : ℤ) (o : Oracle) : Server :=
  install (initial autoDump allowExit t) o

theorem configs_names (hl : Linked r) (hu : UniqueNames r) :
    ((configs r).map ChildConfig.ccName).Nodup := by
  unfold configs
  rw [List.map_map]
  exact hl.nodup.map_on fun g hg g' hg' => hu g hg g' hg'

theorem dumpText_noNul {ccs : List ChildConfig} (h : ReadsBack P ccs) : 0 ∉ dumpText P ccs := by
  have hopen : (0 : UInt8) ∉ text "[\n" := by decide
  have hclose : (0 : UInt8) ∉ text "]\n" := by decide
  have hcomma : (0 : UInt8) ∉ text ",\n" := by decide
  unfold dumpText
  rw [List.mem_append, List.mem_append, List.mem_flatMap]
  rintro ((h0 | ⟨cc, hcc, h0⟩) | h0)
  · exact hopen h0
  · rcases List.mem_append.mp h0 with h0 | h0
    · exact h.noNul cc hcc h0
    · exact hcomma h0
  · exact hclose h0

/-- The file is not empty, so it is parsed. -/
theorem loadDump_text {ccs : List ChildConfig} (h : ReadsBack P ccs) (s : Server) :
    loadDump P s (some (dumpText P ccs)) = loadGroups P (ccs.map childConfigSerialize) s := by
  have hbytes : (CStr.ofBytes (dumpText P ccs)).bytes = dumpText P ccs :=
    CStr.bytes_ofBytes (dumpText_noNul h)
  have hparse := h.parses
  rw [← hbytes] at hparse
  have hcons : ∃ b l, dumpText P ccs = b :: l := ⟨_, _, rfl⟩
  obtain ⟨b, l, hcons⟩ := hcons
  rw [hcons] at hparse ⊢
  unfold loadDump
  dsimp only
  rw [hparse]

/-- What a fresh server has registered from the dump. -/
theorem restored_groups {ccs : List ChildConfig} {a b : Bool} {t : ℤ} {o : Oracle}
    (hs : ∀ cc ∈ ccs, Storable cc) (h : ReadsBack P ccs) :
    (loadDump P (fresh a b t o) (some (dumpText P ccs))).2 = true ∧
    ∃ rs, Loads rs (fresh a b t o) (loadDump P (fresh a b t o) (some (dumpText P ccs))).1 ∧
      rs.map config = ccs.map fun cc => restored (config cc) := by
  have hl : Linked (fresh a b t o).reg := Registry.linked_init
  obtain ⟨hloads, hend⟩ := loadGroups_loads (P := P) (ccs.map childConfigSerialize) hl
  rw [loadDump_text h]
  have hall : ∀ j ∈ ccs.map childConfigSerialize, (dumpElement j).isSome := by
    intro j hj
    obtain ⟨cc, hcc, rfl⟩ := List.mem_map.mp hj
    obtain ⟨r, hr, -⟩ := dumpElement_serialize (hs cc hcc)
    rw [hr]
    rfl
  refine ⟨hend.mpr hall, _, hloads, ?_⟩
  rw [registeredGroups_all hall, List.filterMap_map]
  clear hloads hend hall h
  induction ccs with
  | nil => rfl
  | cons cc ccs ih =>
    obtain ⟨r, hr, hcfg⟩ := dumpElement_serialize (hs cc List.mem_cons_self)
    have hfirst : (dumpElement ∘ childConfigSerialize) cc = some r := hr
    rw [List.filterMap_cons_some hfirst, List.map_cons, List.map_cons, hcfg,
      ih fun cc hcc => hs cc (List.mem_cons_of_mem _ hcc)]

/-- The groups of a dump stand in the list in the opposite order. -/
theorem loads_configs {rs : List ChildConfig} {w v : Server} (h : Loads rs w v)
    (hempty : w.reg.childConfigList = []) : configs v.reg = (rs.map config).reverse := by
  unfold configs
  rw [h.list, hempty, List.append_nil, List.map_reverse]
  congr 1
  apply List.ext_getElem
  · simp
  · intro k hk hk'
    rw [List.length_map] at hk'
    have hset := h.settings k _ (List.getElem?_eq_getElem hk')
    have hcfg := congrArg config hset
    simpa [config_settings] using hcfg

/-- Processes are started for groups that ran when they were dumped. -/
theorem restored_unstarted {rs : List ChildConfig} {w v : Server} (hl : Linked r)
    (hu : UniqueNames r) (h : Loads rs w v) (hv : ((configs v.reg).map ChildConfig.ccName).Nodup)
    (hsame : configMap v.reg = configMap r) (hg : g ∈ r.childConfigList)
    (hr : (r.groups g).ccStatus ≠ statusRunning) {y : Hist} (hy : y ∈ newHist w v)
    {g' : GroupId} (hs : Starts g' y) : (v.reg.groups g').ccName ≠ (r.groups g).ccName := by
  intro hname
  obtain ⟨g₁, hg₁, hgroup, hrun⟩ := h.starts y hy hs.2
  have he : g' = g₁ := Option.some.inj (hs.1.symm.trans hgroup)
  subst he
  have hnew : configMap v.reg (r.groups g).ccName = some (config (v.reg.groups g')) :=
    (lookup_eq_some hv).mpr ⟨List.mem_map_of_mem hg₁, hname⟩
  have hold : configMap r (r.groups g).ccName = some (config (r.groups g)) :=
    (lookup_eq_some (configs_names hl hu)).mpr ⟨List.mem_map_of_mem hg, rfl⟩
  rw [hsame, hold] at hnew
  have hstatus := congrArg ChildConfig.ccStatus (Option.some.inj hnew)
  exact hr (hstatus.trans hrun)

/-- A dump that is written completely is restored exactly if no group has a status, a kill
signal or an age of -1. -/
theorem reachable_restored_iff {a b : Bool} {t : ℤ} {o o' : Oracle} {con : ClientId}
    (h : ReachableBy P Unloaded s)
    (hw : DumpWritten ((newOut s (cDump P (install s o) con)).filterMap fileCall))
    (hp : ReadsBack P (s.reg.childConfigList.map s.reg.groups)) :
    Restored s.reg (fresh a b t o') (loadDump P (fresh a b t o')
      (some (written ((newOut s (cDump P (install s o) con)).filterMap fileCall)))) ↔
    ∀ g ∈ s.reg.childConfigList, Recoverable (s.reg.groups g) := by
  have hl : Linked s.reg := ReachableBy.linked h
  have hu := unloaded_unique h
  have hnames := configs_names hl hu
  have hwritten : written ((newOut s (cDump P (install s o) con)).filterMap fileCall) =
      dumpText P (s.reg.childConfigList.map s.reg.groups) := by
    obtain ⟨l, hreads, hl⟩ := cDump_reads (P := P) s.clock
      (s.reg.childConfigList.map s.reg.groups) con (install s o).io
    have hout : (newOut s (cDump P (install s o) con)).filterMap fileCall = l :=
      Reads.newOut (s := s) hreads
    rw [hout] at hw ⊢
    exact hl hw
  rw [hwritten]
  have hstorable : ∀ cc ∈ s.reg.childConfigList.map s.reg.groups, Storable cc := by
    intro cc hcc
    obtain ⟨g, hg, rfl⟩ := List.mem_map.mp hcc
    exact unloaded_storable h hg
  obtain ⟨hok, rs, hloads, hrs⟩ := restored_groups (a := a) (b := b) (t := t) (o := o')
    hstorable hp
  generalize loadDump P (fresh a b t o') _ = x at hok hloads
  have hconfigs : configs x.1.reg = ((configs s.reg).map restored).reverse := by
    rw [loads_configs hloads rfl, hrs, configs, List.map_map, List.map_map]
    rfl
  have hsame : configMap x.1.reg = configMap s.reg ↔
      ∀ g ∈ s.reg.childConfigList, Recoverable (s.reg.groups g) := by
    unfold configMap
    rw [hconfigs, lookup_map_eq_iff (f := restored) (fun _ => rfl) hnames, configs,
      List.forall_mem_map]
    constructor
    · intro hall g hg
      have hfix : Recoverable (config (s.reg.groups g)) := restored_eq_iff.mp (hall g hg)
      exact hfix
    · intro hall g hg
      have hfix : Recoverable (config (s.reg.groups g)) := hall g hg
      exact restored_eq_iff.mpr hfix
  rw [← hsame]
  constructor
  · intro hr
    exact hr.same
  · intro he
    refine ⟨hok, he, fun g hg hr y hy g' hs => ?_⟩
    refine restored_unstarted hl hu hloads ?_ he hg hr hy hs
    rw [hconfigs, List.map_reverse, List.nodup_reverse, List.map_map]
    exact hnames

/-- A stopped group with everything a client may set. -/
def fullRequest : Json :=
  .object [(text "name", .string (text "web")),
    (text "args", .array [.string (text "/bin/web"), .string (text "-v")]),
    (text "stdout", .string (text "/log/out")), (text "stderr", .string (text "/log/err")),
    (text "dir", .string (text "/srv")), (text "heartbeat", .string (text "/bin/beat")),
    (text "fatal_cb", .string (text "/bin/alarm")), (text "instances", .int 2),
    (text "status", .int 2), (text "killsig", .int 9), (text "age", .int 60)]

/-- A group without a status. -/
def silentRequest : Json :=
  .object [(text "name", .string (text "web")), (text "args", .array [.string (text "/bin/web")]),
    (text "killsig", .int 15)]

def creating (request : Json) : List Event := [connecting, asking "SPWN" request []]

/-- The group that a request creates in a server of its own. -/
def createdGroup (request : Json) : ChildConfig :=
  (stateAfter (next (sample [printed request])) (initial false false 100)
    (creating request)).reg.groups 0

/-- A platform that knows a request and the dump of the group that it creates. -/
def dumpPlatform (request : Json) : Platform :=
  sample [(dumpText (sample []) [createdGroup request],
    .array [childConfigSerialize (createdGroup request)]), printed request]

theorem dumpPlatform_parses (request : Json) :
    (dumpPlatform request).jsonParse (dumpText (dumpPlatform request) [createdGroup request]) =
      some (.array [childConfigSerialize (createdGroup request)]) := by
  have hsame : dumpText (dumpPlatform request) [createdGroup request] =
      dumpText (sample []) [createdGroup request] := rfl
  rw [hsame]
  simp [dumpPlatform, sample]

def dumpState (request : Json) : Server :=
  stateAfter (next (dumpPlatform request)) (initial false false 100) (creating request)

/-- All five file operations of a dump of one group succeed. -/
def writing : Oracle := ⟨[], List.replicate 5 true, fun _ => none⟩

/-- The file that the server writes. -/
def dumpFile (request : Json) : Bytes := written ((newOut (dumpState request)
  (cDump (dumpPlatform request) (install (dumpState request) writing) 0)).filterMap fileCall)

theorem fullState_restored : Restored (dumpState fullRequest).reg
    (fresh false false 200 (starting [])) (loadDump (dumpPlatform fullRequest)
      (fresh false false 200 (starting [])) (some (dumpFile fullRequest))) := by
  have hrun : Admits Enabled (next (dumpPlatform fullRequest)) Unloaded (initial false false 100)
    (creating fullRequest) := by decide +kernel
  have hgroups :
      (dumpState fullRequest).reg.childConfigList.map (dumpState fullRequest).reg.groups =
        [createdGroup fullRequest] := by decide +kernel
  have hp : ReadsBack (dumpPlatform fullRequest)
      ((dumpState fullRequest).reg.childConfigList.map (dumpState fullRequest).reg.groups) := by
    rw [hgroups]
    exact ⟨by decide +kernel, dumpPlatform_parses fullRequest⟩
  exact (reachable_restored_iff ⟨false, false, 100, hrun.execution⟩ (by decide +kernel) hp).mpr
    (by decide +kernel)

/-- The group without a status is dumped as one, and restored as a running group. -/
theorem silentState_unrestored : ¬ ∀ (P : Platform) (s : Server) (a b : Bool) (t : ℤ)
    (o o' : Oracle) (con : ClientId), ReachableBy P Unloaded s →
      DumpWritten ((newOut s (cDump P (install s o) con)).filterMap fileCall) →
      ReadsBack P (s.reg.childConfigList.map s.reg.groups) →
      Restored s.reg (fresh a b t o') (loadDump P (fresh a b t o')
        (some (written ((newOut s (cDump P (install s o) con)).filterMap fileCall)))) := by
  intro h
  have hrun : Admits Enabled (next (dumpPlatform silentRequest)) Unloaded (initial false false 100)
    (creating silentRequest) := by decide +kernel
  have hgroups : (dumpState silentRequest).reg.childConfigList.map
    (dumpState silentRequest).reg.groups = [createdGroup silentRequest] := by decide +kernel
  have hp : ReadsBack (dumpPlatform silentRequest)
      ((dumpState silentRequest).reg.childConfigList.map (dumpState silentRequest).reg.groups) := by
    rw [hgroups]
    exact ⟨by decide +kernel, dumpPlatform_parses silentRequest⟩
  have hrestored := h (dumpPlatform silentRequest) (dumpState silentRequest) false false 200 writing
    (starting [100]) 0 ⟨false, false, 100, hrun.execution⟩ (by decide +kernel) hp
  have hsame := congrFun hrestored.same (CStr.ofBytes (text "web"))
  revert hsame
  decide +kernel

end Restores

end UbervisorRestoring
