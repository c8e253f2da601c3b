import Ubervisor.Dumps

/-! # What the registered groups have in common

A group enters the list through SPWN or from a dump, and its settings change through UPDT and
through the end of its processes. What holds of the settings at the first two and survives the
other two holds of every registered group. -/
namespace UbervisorRegistrations

open UbervisorBucketTable
open UbervisorRuns
open UbervisorValues
open UbervisorChildConfigs
open UbervisorKernel
open UbervisorRegistry
open UbervisorServer
open UbervisorCommands
open UbervisorEvents
open UbervisorSupervision
open UbervisorSlots
open UbervisorUpdates
open UbervisorExits
open UbervisorEffects
open UbervisorGroupSteps
open UbervisorOutputs
open UbervisorDumps
open UbervisorJsonC

section Sources

variable {P : Platform} {s u : Server} {e : Event} {g : GroupId}

/-- The groups that an event registers from a dump. -/
def loadedGroups (P : Platform) (e : Event) : List ChildConfig :=
  match e.loads with
  | some file => registered P file
  | none => []

/-- The instances of a new group. -/
def startCount (cc : ChildConfig) : ℤ := if cc.ccInstances = -1 then 1 else cc.ccInstances

/-- The record from which a step registers a group. -/
inductive Registers (P : Platform) (s : Server) (e : Event) : ChildConfig → Prop where
  | spwn (cc : ChildConfig) (accepted : acceptedSpwn P s e = some cc) :
      Registers P s e (withSlots cc (startCount cc))
  | dump (cc : ChildConfig) (loaded : cc ∈ loadedGroups P e) : Registers P s e cc

theorem step_registers (hl : Linked s.reg) (h : Step P s e u) (hg : g ∈ u.reg.childConfigList) :
    g ∈ s.reg.childConfigList ∨
      ∃ cc, Registers P s e cc ∧ settings (u.reg.groups g) = settings cc := by
  cases hload : e.loads with
  | some file =>
    have hloads := step_loads hl h hload
    rw [hloads.list, List.mem_append, List.mem_reverse, List.mem_range'_1] at hg
    rcases hg with ⟨hle, hlt⟩ | hg
    · obtain ⟨k, rfl⟩ := Nat.exists_eq_add_of_le hle
      have hk : k < (registered P file).length := by omega
      refine .inr ⟨(registered P file)[k], .dump _ ?_, ?_⟩
      · rw [loadedGroups, hload]
        exact List.getElem_mem hk
      · exact hloads.settings k _ (List.getElem?_eq_getElem hk)
    · exact .inl hg
  | none =>
    obtain ⟨x, hx, he⟩ := step_effect hl h
    rw [← hx.reg]
    cases he with
    | kernel k hr _ _ =>
      rw [hr] at hg
      exact .inl hg
    | process p f hr _ _ _ _ =>
      rw [hr] at hg
      exact .inl hg
    | orphanExit p k _ _ hr _ _ =>
      rw [hr] at hg
      exact .inl hg
    | deleted _ g' _ _ hr _ =>
      rw [hr, orphanAll_keeps] at hg
      exact .inl (List.mem_of_mem_erase hg)
    | created cc ha hc =>
      rw [hc.list, List.mem_cons] at hg
      rcases hg with rfl | hg
      · rw [acceptedSpwn_of_reg hx.reg] at ha
        exact .inr ⟨_, .spwn cc ha, hc.settings⟩
      · exact .inl hg
    | loaded file hf _ =>
      rw [hload] at hf
      cases hf
    | updated cc g' _ _ hup =>
      rw [hup.list] at hg
      exact .inl hg
    | exited g' i p ret _ hex =>
      rw [hex.list] at hg
      exact .inl hg

/-- The rule for properties of the settings of all registered groups. -/
theorem reachable_settings {G : ChildConfig → Prop} {Q : Server → Event → Server → Prop}
    (registers : ∀ s e u cc, Q s e u → Registers P s e cc → G (settings cc))
    (updates : ∀ s e u cc g, Q s e u → acceptedUpdt P s e = some (cc, g) →
      G (settings (s.reg.groups g)) → G (updated cc (settings (s.reg.groups g))))
    (exits : ∀ ret t cc, G cc → G (counted ret t cc)) (h : ReachableBy P Q s)
    (hg : g ∈ s.reg.childConfigList) : G (settings (s.reg.groups g)) := by
  obtain ⟨a, b, t, h⟩ := h
  have hall : ∀ g ∈ s.reg.childConfigList, G (settings (s.reg.groups g)) := by
    refine h.invariant_under (I := fun s => Linked s.reg)
      (P := fun s => ∀ g ∈ s.reg.childConfigList, G (settings (s.reg.groups g)))
      (fun _ _ _ hl hs _ => step_linked hl hs) ?_ Registry.linked_init ?_
    · intro s e u hl hs hstep hq g hg
      rcases step_registers hl hstep hg with hold | ⟨cc, hreg, hset⟩
      · cases step_group hl hstep hold with
        | untouched _ hsame _ =>
          rw [hsame]
          exact hs g hold
        | deleted _ hgone _ => exact absurd hg hgone.unlisted
        | updated cc ha hup =>
          rw [hup.settings]
          exact updates s e u cc g hq ha (hs g hold)
        | exited i p ret _ hex =>
          rw [hex.settings]
          exact exits ret s.clock _ (hs g hold)
      · rw [hset]
        exact registers s e u cc hq hreg
    · intro g hg
      cases hg
  exact hall g hg

theorem acceptedSpwn_ok {cc : ChildConfig} (h : acceptedSpwn P s e = some cc) :
    spwnRefusal s.reg cc = none := by
  obtain ⟨con, cid, payload, o, -, -, -, hok⟩ := acceptedSpwn_request h
  exact hok

theorem acceptedUpdt_ok {cc : ChildConfig} (h : acceptedUpdt P s e = some (cc, g)) :
    updtRefusal cc = none ∧ s.reg.childConfigFindByName cc.ccName = some g := by
  obtain ⟨con, cid, payload, o, -, -, -, hg, hok⟩ := acceptedUpdt_request h
  exact ⟨hok, hg⟩

theorem accepted_instances {cc : ChildConfig} (h : acceptedSpwn P s e = some cc) :
    1 ≤ startCount cc ∧ startCount cc ≤ maxInstances := by
  have hok := acceptedSpwn_ok h
  unfold spwnRefusal at hok
  unfold startCount
  dsimp only at hok
  split_ifs at hok ⊢ <;> omega

/-- A name that SPWN accepts is not in use. -/
theorem accepted_new_name {cc : ChildConfig} (h : acceptedSpwn P s e = some cc) :
    s.reg.childConfigFindByName cc.ccName = none := by
  have hok := acceptedSpwn_ok h
  unfold spwnRefusal at hok
  dsimp only at hok
  by_contra hname
  rw [if_pos hname] at hok
  split_ifs at hok

theorem acceptedUpdt_instances {cc : ChildConfig} (h : acceptedUpdt P s e = some (cc, g)) :
    cc.ccInstances = -1 ∨ 1 ≤ cc.ccInstances ∧ cc.ccInstances ≤ maxInstances := by
  have hok := (acceptedUpdt_ok h).1
  unfold updtRefusal at hok
  split_ifs at hok
  omega

end Sources

section Counts

variable {P : Platform} {s u : Server} {e : Event} {g : GroupId}

def InRange (n : ℤ) : Prop := 1 ≤ n ∧ n ≤ maxInstances

instance (n : ℤ) : Decidable (InRange n) := inferInstanceAs (Decidable (_ ∧ _))

/-- The dump asks for numbers of instances that SPWN would accept. -/
def LoadsInRange (P : Platform) (_ : Server) (e : Event) (_ : Server) : Prop :=
  ∀ cc ∈ loadedGroups P e, InRange cc.ccInstances

instance : Decidable (LoadsInRange P s e u) := inferInstanceAs (Decidable (∀ _ ∈ _, _))

theorem reachable_inRange (h : ReachableBy P (LoadsInRange P) s)
    (hg : g ∈ s.reg.childConfigList) : InRange (s.reg.groups g).ccInstances := by
  have hset : InRange (settings (s.reg.groups g)).ccInstances := by
    refine reachable_settings (G := fun cc => InRange cc.ccInstances) ?_ ?_ ?_ h hg
    · intro s e u cc hq hreg
      cases hreg with
      | spwn cc ha => exact accepted_instances ha
      | dump cc hcc => exact hq cc hcc
    · intro s e u cc g _ ha hold
      rcases acceptedUpdt_instances ha with hn | hn
      · have hsame : (updated cc (settings (s.reg.groups g))).ccInstances =
            (settings (s.reg.groups g)).ccInstances := by
          change intOr cc.ccInstances _ = _
          rw [intOr, if_neg (by simpa using hn)]
        rw [hsame]
        exact hold
      · have hset : (updated cc (settings (s.reg.groups g))).ccInstances = cc.ccInstances := by
          change intOr cc.ccInstances _ = _
          rw [intOr, if_pos (by omega)]
        rw [hset]
        exact hn
    · intro ret t cc hcc
      rwa [counted_instances]
  exact hset

/-- The number of slots is the number of instances, all slots that the loops reach exist, and
instance numbers fit the five bytes of `instance_str`. -/
structure Sound (r : Registry) (g : GroupId) : Prop where
  range : InRange (r.groups g).ccInstances
  cells : ((r.groups g).ccChilds.length : ℤ) = (r.groups g).ccInstances
  slots : ∀ i : ℕ, (i : ℤ) < (r.groups g).ccInstances → i < (r.groups g).ccChilds.length
  procs : ∀ p, r.Tracked p → (r.procs p).pChildConfig = some g →
    (r.procs p).pInstance < (r.groups g).ccChilds.length
  numbers : ∀ i : ℕ, (i : ℤ) < (r.groups g).ccInstances → instanceStr i = natText i

/-- Along runs whose dumps keep to the range, every group has as many slots as instances. -/
theorem reachable_groups_sound (h : ReachableBy P (LoadsInRange P) s) :
    ∀ g ∈ s.reg.childConfigList, Sound s.reg g := by
  intro g hg
  have hl : Linked s.reg := ReachableBy.linked h
  have hr := reachable_inRange h hg
  have hcells := hl.cells g hg
  refine ⟨hr, hcells, fun i hi => by omega, ?_, ?_⟩
  · intro p ht hc
    have hlt := hl.cell_lt ((hl.placed g _ p).mpr ⟨ht, hc, rfl⟩)
    omega
  · intro i hi
    refine List.take_of_length_le (natText_length ?_)
    have hmax := hr.2
    unfold maxInstances at hmax
    omega

/-- A group of a dump. -/
def dumped (name : String) (instances : ℤ) : Json :=
  .object [(text "name", .string (text name)), (text "args", .array [.string (text "/bin/web")]),
    (text "instances", .int instances)]

def loading (l : List Json) (pids : List Pid) : Event :=
  .callback (.loadDump (some (printJson (.array l)))) (starting pids)

def countPlatform : Platform := sample [printed (.array [dumped "web" 2]), printed growRequest]

/-- A dump with a group of two instances, to which a client adds a third. -/
def countRun : List Event :=
  [loading [dumped "web" 2] [100, 101], connecting, asking "UPDT" growRequest [102]]

def countState : Server := stateAfter (next countPlatform) (initial false false 100) countRun

theorem countState_sound : Sound countState.reg 0 :=
  have h : Admits Enabled (next countPlatform) (LoadsInRange countPlatform)
    (initial false false 100) countRun := by decide +kernel
  have hlisted : 0 ∈ countState.reg.childConfigList := by decide +kernel
  reachable_groups_sound ⟨false, false, 100, h.execution⟩ 0 hlisted

def emptyPlatform : Platform := sample [printed (.array [dumped "web" 0])]

def emptyState : Server := stateAfter (next emptyPlatform) (initial false false 100)
  [loading [dumped "web" 0] []]

/-- A dump may contain a group without instances. -/
theorem emptyState_unsound : ¬ ∀ (P : Platform) (s : Server), Reachable P s →
    ∀ g ∈ s.reg.childConfigList, Sound s.reg g := by
  intro h
  have hrun : Admits Enabled (next emptyPlatform) Always (initial false false 100)
    [loading [dumped "web" 0] []] := by decide +kernel
  have hlisted : 0 ∈ emptyState.reg.childConfigList := by decide +kernel
  have hsound := h emptyPlatform emptyState ⟨false, false, 100, hrun.execution⟩ 0 hlisted
  have hout : ¬ InRange (emptyState.reg.groups 0).ccInstances := by decide +kernel
  exact hout hsound.range

end Counts

section Names

variable {P : Platform} {s u : Server} {e : Event} {g : GroupId}

/-- Nothing is registered before the first callback. -/
theorem step_unstarted (hl : Linked s.reg) (h : Step P s e u)
    (hs : s.started = false → s.reg = .init) (hu : u.started = false) : u.reg = .init := by
  have ho := step_outputs hl h
  obtain ⟨hen, rfl⟩ := h
  cases e with
  | clock t => exact hs hu
  | childExit pid ret pos =>
    have hinit := hs hu
    have hrunning : pid ∈ s.reg.kernel.running := hen
    rw [hinit] at hrunning
    cases hrunning
  | callback c o =>
    rw [ho.started c o rfl] at hu
    cases hu

theorem ReachableBy.unstarted {Q : Server → Event → Server → Prop} (h : ReachableBy P Q s) :
    s.started = false → s.reg = .init := by
  obtain ⟨a, b, t, h⟩ := h
  refine h.invariant_under (I := fun s => Linked s.reg)
    (P := fun s => s.started = false → s.reg = .init) (fun _ _ _ hl hs _ => step_linked hl hs)
    ?_ Registry.linked_init fun _ => rfl
  intro s e u hl hs hstep _
  exact step_unstarted hl hstep hs

theorem step_started (hl : Linked s.reg) (h : Step P s e u) (hs : s.started = true) :
    u.started = true := by
  have ho := step_outputs hl h
  obtain ⟨-, rfl⟩ := h
  cases e with
  | clock t => exact hs
  | childExit pid ret pos => exact hs
  | callback c o => exact ho.started c o rfl

/-- A dump is loaded into an empty registry. -/
theorem load_unstarted {file : Option Bytes} (h : Step P s e u) (he : e.loads = some file) :
    s.started = false := by
  obtain ⟨hen, -⟩ := h
  cases e with
  | clock t => cases he
  | childExit pid ret pos => cases he
  | callback c o =>
    cases c with
    | loadDump file' => exact hen.2.2
    | loadNewest file' => exact hen.2.2
    | _ => cases he

/-- No two listed groups have the same name. -/
def UniqueNames (r : Registry) : Prop :=
  ∀ g ∈ r.childConfigList, ∀ g' ∈ r.childConfigList,
    (r.groups g).ccName = (r.groups g').ccName → g = g'

instance (r : Registry) : Decidable (UniqueNames r) :=
  inferInstanceAs (Decidable (∀ _ ∈ _, ∀ _ ∈ _, _))

/-- The dump gives every group a name of its own. -/
def LoadsDistinct (P : Platform) (_ : Server) (e : Event) (_ : Server) : Prop :=
  ((loadedGroups P e).map ChildConfig.ccName).Nodup

instance : Decidable (LoadsDistinct P s e u) := inferInstanceAs (Decidable (List.Nodup _))

theorem find_name_none (hl : Linked s.reg) {n : CStr}
    (h : s.reg.childConfigFindByName n = none) (hg : g ∈ s.reg.childConfigList) :
    (s.reg.groups g).ccName ≠ n := by
  rw [Registry.childConfigFindByName, uvstrhashFind_chain, Option.map_eq_none_iff,
    List.head?_eq_none_iff, hl.names, List.map_eq_nil_iff, List.filter_eq_nil_iff] at h
  simpa using h g hg

theorem loads_unique {ccs : List ChildConfig} (h : Loads ccs s u)
    (hempty : s.reg.childConfigList = []) (hd : (ccs.map ChildConfig.ccName).Nodup) :
    UniqueNames u.reg := by
  have hnew : ∀ g ∈ u.reg.childConfigList, ∃ k, ∃ hk : k < (ccs.map ChildConfig.ccName).length,
      g = s.reg.nextGroup + k ∧ (u.reg.groups g).ccName = (ccs.map ChildConfig.ccName)[k] := by
    intro g hg
    rw [h.list, hempty, List.append_nil, List.mem_reverse, List.mem_range'_1] at hg
    obtain ⟨k, rfl⟩ := Nat.exists_eq_add_of_le hg.1
    have hk : k < ccs.length := by omega
    refine ⟨k, by rwa [List.length_map], rfl, ?_⟩
    rw [List.getElem_map]
    exact settings_name (h.settings k _ (List.getElem?_eq_getElem hk))
  intro g hg g' hg' hsame
  obtain ⟨k, hk, rfl, hname⟩ := hnew g hg
  obtain ⟨k', hk', rfl, hname'⟩ := hnew g' hg'
  rw [hname, hname'] at hsame
  rw [(List.Nodup.getElem_inj_iff hd).mp hsame]

theorem step_unique (hl : Linked s.reg) (hs : s.started = false → s.reg = .init)
    (h : Step P s e u) (hq : LoadsDistinct P s e u) (hu : UniqueNames s.reg) :
    UniqueNames u.reg := by
  cases hload : e.loads with
  | some file =>
    have hinit := hs (load_unstarted h hload)
    refine loads_unique (step_loads hl h hload) (by rw [hinit]; rfl) ?_
    rwa [LoadsDistinct, loadedGroups, hload] at hq
  | none =>
    have hsub : (∀ g ∈ u.reg.childConfigList, g ∈ s.reg.childConfigList) → UniqueNames u.reg := by
      intro hold g hg g' hg' hsame
      rw [step_name hl h (hold g hg) hg, step_name hl h (hold g' hg') hg'] at hsame
      exact hu g (hold g hg) g' (hold g' hg') hsame
    obtain ⟨x, hx, he⟩ := step_effect hl h
    rw [← hx.reg] at hsub
    cases he with
    | kernel k hr _ _ => exact hsub fun g hg => by rwa [hr] at hg
    | process p f hr _ _ _ _ => exact hsub fun g hg => by rwa [hr] at hg
    | orphanExit p k _ _ hr _ _ => exact hsub fun g hg => by rwa [hr] at hg
    | deleted _ g' _ _ hr _ =>
      refine hsub fun g hg => ?_
      rw [hr, orphanAll_keeps] at hg
      exact List.mem_of_mem_erase hg
    | created cc ha hc =>
      rw [acceptedSpwn_of_reg hx.reg] at ha
      have hfree := accepted_new_name ha
      have hnew : (u.reg.groups x.reg.nextGroup).ccName = cc.ccName := hc.name
      have hold : ∀ g ∈ x.reg.childConfigList, (u.reg.groups g).ccName ≠ cc.ccName ∧
          (u.reg.groups g).ccName = (s.reg.groups g).ccName := by
        intro g hg
        rw [hx.reg] at hg
        have hlt := hl.listed g hg
        rw [hc.groups g (by rw [hx.reg]; exact hlt.ne), hx.reg]
        exact ⟨find_name_none hl hfree hg, rfl⟩
      intro g hg g' hg' hsame
      rw [hc.list, List.mem_cons] at hg hg'
      rcases hg with rfl | hg <;> rcases hg' with rfl | hg'
      · rfl
      · exact absurd (hsame.symm.trans hnew) (hold g' hg').1
      · exact absurd (hsame.trans hnew) (hold g hg).1
      · rw [(hold g hg).2, (hold g' hg').2] at hsame
        rw [hx.reg] at hg hg'
        exact hu g hg g' hg' hsame
    | loaded file hf _ =>
      rw [hload] at hf
      cases hf
    | updated cc g' _ _ hup => exact hsub fun g hg => by rwa [hup.list] at hg
    | exited g' i p ret _ hex => exact hsub fun g hg => by rwa [hex.list] at hg

theorem ReachableBy.unique (h : ReachableBy P (LoadsDistinct P) s) : UniqueNames s.reg := by
  obtain ⟨a, b, t, h⟩ := h
  refine h.invariant_under (I := fun s => Linked s.reg ∧ (s.started = false → s.reg = .init))
    (P := fun s => UniqueNames s.reg) ?_ ?_ ⟨Registry.linked_init, fun _ => rfl⟩ ?_
  · rintro s e u ⟨hl, hs⟩ hstep _
    exact ⟨step_linked hl hstep, step_unstarted hl hstep hs⟩
  · rintro s e u ⟨hl, hs⟩ hu hstep hq
    exact step_unique hl hs hstep hq hu
  · intro g hg
    cases hg

/-- A name that is in use leads to its group. -/
theorem find_unique (hl : Linked s.reg) (hu : UniqueNames s.reg) (hg : g ∈ s.reg.childConfigList) :
    s.reg.childConfigFindByName (s.reg.groups g).ccName = some g := by
  cases hf : s.reg.childConfigFindByName (s.reg.groups g).ccName with
  | none => exact absurd rfl (find_name_none hl hf hg)
  | some g' =>
    obtain ⟨hg', hname⟩ := hl.find_name hf
    rw [hu g' hg' g hg hname]

/-- Along runs whose dumps have distinct names, LIST reports each name once, and a request by
name is about the only group of that name. -/
theorem reachable_names_unique (h : ReachableBy P (LoadsDistinct P) s) :
    (s.reg.childConfigList.map fun g => (s.reg.groups g).ccName).Nodup ∧
      ∀ g ∈ s.reg.childConfigList,
        s.reg.childConfigFindByName (s.reg.groups g).ccName = some g := by
  have hl : Linked s.reg := ReachableBy.linked h
  have hu := ReachableBy.unique h
  refine ⟨hl.nodup.map_on fun g hg g' hg' => hu g hg g' hg', fun g hg => ?_⟩
  exact find_unique hl hu hg

def namesDump : List Json := [dumped "web" 1, dumped "db" 1]

def namesPlatform : Platform := sample [printed (.array namesDump), printed (dumped "log" 1)]

/-- A dump with two groups, and a third one that a client starts. -/
def namesRun : List Event :=
  [loading namesDump [100, 101], connecting, asking "SPWN" (dumped "log" 1) [102]]

def namesState : Server := stateAfter (next namesPlatform) (initial false false 100) namesRun

theorem namesState_unique :
    (namesState.reg.childConfigList.map fun g => (namesState.reg.groups g).ccName).Nodup :=
  have h : Admits Enabled (next namesPlatform) (LoadsDistinct namesPlatform)
    (initial false false 100) namesRun := by decide +kernel
  (reachable_names_unique ⟨false, false, 100, h.execution⟩).1

def twinsDump : List Json := [dumped "web" 1, dumped "web" 1]

def twinsPlatform : Platform := sample [printed (.array twinsDump)]

def twinsState : Server := stateAfter (next twinsPlatform) (initial false false 100)
  [loading twinsDump [100, 101]]

/-- A dump may name two groups alike. -/
theorem twinsState_not_unique : ¬ ∀ (P : Platform) (s : Server), Reachable P s →
    (s.reg.childConfigList.map fun g => (s.reg.groups g).ccName).Nodup := by
  intro h
  have hrun : Admits Enabled (next twinsPlatform) Always (initial false false 100)
    [loading twinsDump [100, 101]] := by decide +kernel
  have hnodup := h twinsPlatform twinsState ⟨false, false, 100, hrun.execution⟩
  revert hnodup
  decide +kernel

end Names

section Forms

variable {P : Platform} {s u : Server} {e : Event}

def StateStatus (st : ℤ) : Prop := statusRunning ≤ st ∧ st ≤ statusMax

instance (st : ℤ) : Decidable (StateStatus st) := inferInstanceAs (Decidable (_ ∧ _))

/-- A status that is no notification code, a command with arguments, and a kill signal. -/
def WellFormed (cc : ChildConfig) : Prop :=
  StateStatus cc.ccStatus ∧ cc.ccCommand ≠ none ∧ cc.ccCommand ≠ some [] ∧ cc.ccKillsig ≠ -1

instance (cc : ChildConfig) : Decidable (WellFormed cc) :=
  inferInstanceAs (Decidable (_ ∧ _ ∧ _ ∧ _))

/-- SPWN and the dump give well-formed groups, and UPDT sets no other status. -/
def WellFormedRequests (P : Platform) (s : Server) (e : Event) (_ : Server) : Prop :=
  (∀ cc ∈ acceptedSpwn P s e, WellFormed cc) ∧ (∀ cc ∈ loadedGroups P e, WellFormed cc) ∧
  ∀ x ∈ acceptedUpdt P s e, x.1.ccStatus = -1 ∨ StateStatus x.1.ccStatus

instance : Decidable (WellFormedRequests P s e u) := inferInstanceAs (Decidable (_ ∧ _ ∧ _))

theorem counted_wellFormed (ret : WaitStatus) (t : ℤ) {cc : ChildConfig} (h : WellFormed cc) :
    WellFormed (counted ret t cc) := by
  obtain ⟨hst, hrest⟩ := h
  unfold counted
  split
  · have hbroken : StateStatus statusBroken := by decide
    exact ⟨hbroken, hrest⟩
  · split
    · exact ⟨hst, hrest⟩
    · exact ⟨hst, hrest⟩

/-- Along runs whose requests are well formed, the groups are. -/
theorem reachable_wellFormed (h : ReachableBy P (WellFormedRequests P) s) :
    ∀ g ∈ s.reg.childConfigList, WellFormed (s.reg.groups g) := by
  intro g hg
  have hset : WellFormed (settings (s.reg.groups g)) := by
    refine reachable_settings (G := WellFormed) ?_ ?_ (fun ret t cc => counted_wellFormed ret t)
      h hg
    · intro s e u cc hq hreg
      cases hreg with
      | spwn cc ha => exact hq.1 cc ha
      | dump cc hcc => exact hq.2.1 cc hcc
    · intro s e u cc g hq ha hold
      obtain ⟨hst, hsome, hne, hsig⟩ := hold
      refine ⟨?_, hsome, hne, ?_⟩
      · change StateStatus (intOr cc.ccStatus _)
        unfold intOr
        rcases hq.2.2 _ ha with hn | hn
        · rw [if_neg (by simpa using hn)]
          exact hst
        · split
          · exact hn
          · exact hst
      · change intOr cc.ccKillsig _ ≠ -1
        unfold intOr
        split
        · assumption
        · exact hsig
  exact hset

/-- A group as the command line client describes it. -/
def clientRequest : Json :=
  .object [(text "name", .string (text "web")), (text "args", .array [.string (text "/bin/web")]),
    (text "instances", .int 1), (text "status", .int 1), (text "killsig", .int 15)]

def clientPlatform : Platform := sample [printed clientRequest, printed stopRequest]

def clientRun : List Event :=
  [connecting, asking "SPWN" clientRequest [100], asking "UPDT" stopRequest []]

def clientState : Server := stateAfter (next clientPlatform) (initial false false 100) clientRun

theorem clientState_wellFormed : WellFormed (clientState.reg.groups 0) :=
  have h : Admits Enabled (next clientPlatform) (WellFormedRequests clientPlatform)
    (initial false false 100) clientRun := by decide +kernel
  have hlisted : 0 ∈ clientState.reg.childConfigList := by decide +kernel
  reachable_wellFormed ⟨false, false, 100, h.execution⟩ 0 hlisted

/-- A name and an empty command, and nothing else. -/
def bareRequest : Json :=
  .object [(text "name", .string (text "web")), (text "args", .array [])]

def barePlatform : Platform := sample [printed bareRequest]

def bareRun : List Event := [connecting, asking "SPWN" bareRequest []]

def bareState : Server := stateAfter (next barePlatform) (initial false false 100) bareRun

/-- SPWN takes it as it is: no command, status and kill signal -1. -/
theorem bareState_malformed : ¬ ∀ (P : Platform) (s : Server), Reachable P s →
    ∀ g ∈ s.reg.childConfigList, WellFormed (s.reg.groups g) := by
  intro h
  have hrun : Admits Enabled (next barePlatform) Always (initial false false 100) bareRun := by
    decide +kernel
  have hlisted : 0 ∈ bareState.reg.childConfigList := by decide +kernel
  have hformed := h barePlatform bareState ⟨false, false, 100, hrun.execution⟩ 0 hlisted
  have hnot : ¬ WellFormed (bareState.reg.groups 0) := by decide +kernel
  exact hnot hformed

end Forms

end UbervisorRegistrations
