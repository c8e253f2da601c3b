import Mathlib.Algebra.FreeMonoid.Basic
import Ubervisor.GroupTable
import Ubervisor.KeyedStores
import Ubervisor.UpdateRequests

/-! # The server as a store of groups by name

What the server is for, without its tables: it keeps the settings of groups by their names,
clients add, change, delete and read them, and errors are counted in them. -/
namespace UbervisorGroupStore

open UbervisorRuns
open UbervisorValues
open UbervisorChildConfigs
open UbervisorKernel
open UbervisorRegistry
open UbervisorReadCallback (Command findCommand)
open UbervisorServer
open UbervisorCommands
open UbervisorEvents
open UbervisorSupervision
open UbervisorSlots
open UbervisorUpdates
open UbervisorExits
open UbervisorEffects
open UbervisorGroupSteps
open UbervisorDumps
open UbervisorRegistrations
open UbervisorAnswers
open UbervisorReplies
open UbervisorJsonC
open UbervisorKeyedStores

section Store

/-- The settings of the groups, by name. -/
abbrev Store := CStr → Option ChildConfig

/-- What a client may ask about groups. -/
inductive Wish where
  | spwn (cc : ChildConfig)
  | updt (cc : ChildConfig)
  | dele (n : CStr)
  | getc (n : CStr)
  | list
  deriving DecidableEq

/-- Why a request is refused, with the code of the reply. -/
def refusal (st : Store) : Wish → Option (Bool × String)
  | .spwn cc =>
    if cc.ccCommand = none then some (false, "need command")
    else if st cc.ccName ≠ none then some (false, "name exists")
    else if startCount cc < 1 then some (false, "instances > 0 required.")
    else if startCount cc > maxInstances then some (false, "too many instances.")
    else none
  | .updt cc => if st cc.ccName = none then some (false, "not found") else updtRefusal cc
  | .dele n => if st n = none then some (false, "name not found") else none
  | .getc n => if st n = none then some (false, "name not found") else none
  | .list => none

def granted (st : Store) : Wish → Store
  | .spwn cc => put ChildConfig.ccName st (settings (withSlots cc (startCount cc)))
  | .updt cc => modify st cc.ccName (updated cc)
  | .dele n => erase st n
  | .getc _ => st
  | .list => st

/-- What happens to a store. Dumps are loaded first. -/
inductive Change where
  | load (ccs : List ChildConfig)
  | ask (w : Wish)
  | exit (n : CStr) (ret : WaitStatus) (t : ℤ)

def apply (st : Store) : Change → Store
  | .load ccs => (ccs.map settings).foldl (put ChildConfig.ccName) st
  | .ask w => if refusal st w = none then granted st w else st
  | .exit n ret t => modify st n (counted ret t)

/-- The store after a history of changes. -/
def replay (m : FreeAddMonoid Change) : Store := m.toList.foldl apply fun _ => none

theorem replay_add (m : FreeAddMonoid Change) (l : List Change) :
    replay (m + FreeAddMonoid.ofList l) = l.foldl apply (replay m) := by
  simp [replay]

end Store

section Server

variable {P : Platform} {r : Registry} {s u : Server} {e : Event} {st : Store} {g : GroupId}
  {cc : ChildConfig} {n : CStr} {con : ClientId} {cid : UInt16} {payload : Bytes} {o : Oracle}

/-- What a request asks for. Other requests do not concern the store. -/
def wishOf (P : Platform) (payload : Bytes) : Option Wish :=
  let buf := CStr.ofBytes (payload.drop 4)
  match findCommand payload with
  | some .spwn => (childConfigUnserialize P buf).map .spwn
  | some .updt => (childConfigUnserialize P buf).map .updt
  | some .dele => ((parseObject P buf).bind nameField).map .dele
  | some .getc => ((parseObject P buf).bind nameField).map .getc
  | some .list => some .list
  | _ => none

/-- The group whose process a turn of `sigchld_cb` reaps. -/
def reapedGroup (s : Server) (e : Event) : Option (GroupId × WaitStatus) := do
  let (p, ret) ← reaped s e
  let g ← (s.reg.procs p).pChildConfig
  return (g, ret)

/-- The changes that a step stands for. -/
def changesOf (P : Platform) (s : Server) (e : Event) : List Change :=
  match e with
  | .callback (.request _ _ payload) _ => ((wishOf P payload).map .ask).toList
  | .callback .waitpid _ =>
    ((reapedGroup s e).map fun x => .exit (s.reg.groups x.1).ccName x.2 s.clock).toList
  | _ => (e.loads.map fun file => .load (registered P file)).toList

def chronicle (P : Platform) (s : Server) (e : Event) (_ : Server) : FreeAddMonoid Change :=
  FreeAddMonoid.ofList (changesOf P s e)

/-- The listed groups and their settings are what the store holds. -/
def Stored (r : Registry) (st : Store) : Prop :=
  Holds r.childConfigList (fun g => settings (r.groups g)) ChildConfig.ccName st

theorem distinct (hu : UniqueNames r) (hg : g ∈ r.childConfigList) :
    ∀ g' ∈ r.childConfigList, (settings (r.groups g')).ccName = (settings (r.groups g)).ccName →
      g' = g :=
  fun g' hg' he => hu g' hg' g hg he

/-- The server finds a group by its name as the store does. -/
theorem Stored.find (hst : Stored s.reg st) (hl : Linked s.reg) (n : CStr) :
    st n = (s.reg.childConfigFindByName n).map fun g => settings (s.reg.groups g) := by
  cases hf : s.reg.childConfigFindByName n with
  | none => exact hst.only n fun g hg => find_name_none hl hf hg
  | some g =>
    obtain ⟨hg, hname⟩ := hl.find_name hf
    have hfound := hst.found g hg
    rwa [show (settings (s.reg.groups g)).ccName = n from hname] at hfound

theorem Stored.find_none (hst : Stored s.reg st) (hl : Linked s.reg) (n : CStr) :
    st n = none ↔ s.reg.childConfigFindByName n = none := by
  rw [hst.find hl, Option.map_eq_none_iff]

/-- The parts of a request that make up a wish. -/
def Asks (P : Platform) (payload : Bytes) : Wish → Prop
  | .spwn cc => findCommand payload = some .spwn ∧
      childConfigUnserialize P (CStr.ofBytes (payload.drop 4)) = some cc
  | .updt cc => findCommand payload = some .updt ∧
      childConfigUnserialize P (CStr.ofBytes (payload.drop 4)) = some cc
  | .dele n => findCommand payload = some .dele ∧
      (parseObject P (CStr.ofBytes (payload.drop 4))).bind nameField = some n
  | .getc n => findCommand payload = some .getc ∧
      (parseObject P (CStr.ofBytes (payload.drop 4))).bind nameField = some n
  | .list => findCommand payload = some .list

theorem wishOf_iff {w : Wish} : wishOf P payload = some w ↔ Asks P payload w := by
  constructor
  · intro h
    unfold wishOf at h
    dsimp only at h
    split at h
    all_goals rename_i hc
    · obtain ⟨cc, hcc, rfl⟩ := Option.map_eq_some_iff.mp h
      exact ⟨hc, hcc⟩
    · obtain ⟨cc, hcc, rfl⟩ := Option.map_eq_some_iff.mp h
      exact ⟨hc, hcc⟩
    · obtain ⟨n, hn, rfl⟩ := Option.map_eq_some_iff.mp h
      exact ⟨hc, hn⟩
    · obtain ⟨n, hn, rfl⟩ := Option.map_eq_some_iff.mp h
      exact ⟨hc, hn⟩
    · cases h
      exact hc
    · cases h
  · intro h
    cases w with
    | spwn cc => simp only [wishOf, h.1, h.2, Option.map_some]
    | updt cc => simp only [wishOf, h.1, h.2, Option.map_some]
    | dele n => simp only [wishOf, h.1, h.2, Option.map_some]
    | getc n => simp only [wishOf, h.1, h.2, Option.map_some]
    | list => simp only [wishOf, show findCommand payload = some .list from h]

theorem refusal_spwn (hst : Stored s.reg st) (hl : Linked s.reg) (cc : ChildConfig) :
    refusal st (.spwn cc) = (spwnRefusal s.reg cc).map fun msg => (false, msg) := by
  have hname := not_congr (hst.find_none hl cc.ccName)
  simp only [refusal, spwnRefusal, startCount, ne_eq, hname]
  split_ifs <;> rfl

/-- The server carries out a request exactly if the store grants it. -/
theorem spwn_iff (hst : Stored s.reg st) (hl : Linked s.reg) :
    acceptedSpwn P s (.callback (.request con cid payload) o) = some cc ↔
      Asks P payload (.spwn cc) ∧ refusal st (.spwn cc) = none := by
  rw [refusal_spwn hst hl, Option.map_eq_none_iff]
  constructor
  · intro h
    obtain ⟨con', cid', payload', o', he, hc, hcc, hok⟩ := acceptedSpwn_request h
    cases he
    exact ⟨⟨hc, hcc⟩, hok⟩
  · rintro ⟨⟨hc, hcc⟩, hok⟩
    simp [acceptedSpwn, hc, hcc, hok]

theorem updt_iff (hst : Stored s.reg st) (hl : Linked s.reg) :
    (∃ g, acceptedUpdt P s (.callback (.request con cid payload) o) = some (cc, g)) ↔
      Asks P payload (.updt cc) ∧ refusal st (.updt cc) = none := by
  have hname := hst.find_none hl cc.ccName
  constructor
  · rintro ⟨g, h⟩
    obtain ⟨con', cid', payload', o', he, hc, hcc, hg, hok⟩ := acceptedUpdt_request h
    cases he
    rw [hg] at hname
    exact ⟨⟨hc, hcc⟩, by simp [refusal, hok, hname]⟩
  · rintro ⟨⟨hc, hcc⟩, hok⟩
    have hsome : st cc.ccName ≠ none := by
      intro hnone
      simp [refusal, hnone] at hok
    obtain ⟨g, hg⟩ := Option.ne_none_iff_exists'.mp (mt hname.mpr hsome)
    have hok' : updtRefusal cc = none := by simpa [refusal, hsome] using hok
    exact ⟨g, by simp [acceptedUpdt, hc, hcc, hg, hok']⟩

theorem namedGroup_iff {buf : CStr} : (∃ obj, namedGroup P r buf = some (obj, g)) ↔
    ∃ n, (parseObject P buf).bind nameField = some n ∧ r.childConfigFindByName n = some g := by
  constructor
  · rintro ⟨obj, h⟩
    unfold namedGroup at h
    obtain ⟨obj', hobj, h⟩ := Option.bind_eq_some_iff.mp h
    obtain ⟨n, hn, h⟩ := Option.bind_eq_some_iff.mp h
    obtain ⟨g', hg, h⟩ := Option.bind_eq_some_iff.mp h
    cases h
    exact ⟨n, by rw [hobj, Option.bind_some, hn], hg⟩
  · rintro ⟨n, hn, hg⟩
    obtain ⟨obj, hobj, hname⟩ := Option.bind_eq_some_iff.mp hn
    exact ⟨obj, by simp [namedGroup, hobj, hname, hg]⟩

theorem dele_iff (hst : Stored s.reg st) (hl : Linked s.reg) :
    (∃ obj g, requested P s .dele (.callback (.request con cid payload) o) = some (obj, g) ∧
        (s.reg.groups g).ccName = n) ↔
      Asks P payload (.dele n) ∧ refusal st (.dele n) = none := by
  have hname := hst.find_none hl n
  constructor
  · rintro ⟨obj, g, h, rfl⟩
    obtain ⟨con', cid', payload', o', he, hc, hn⟩ := requested_request h
    cases he
    obtain ⟨n, hn, hg⟩ := namedGroup_iff.mp ⟨obj, hn⟩
    rw [(hl.find_name hg).2, hg] at hname
    rw [(hl.find_name hg).2]
    exact ⟨⟨hc, hn⟩, by simp [refusal, hname]⟩
  · rintro ⟨⟨hc, hn⟩, hok⟩
    have hsome : st n ≠ none := by
      intro hnone
      simp [refusal, hnone] at hok
    obtain ⟨g, hg⟩ := Option.ne_none_iff_exists'.mp (mt hname.mpr hsome)
    obtain ⟨obj, hobj⟩ := namedGroup_iff.mpr ⟨n, hn, hg⟩
    exact ⟨obj, g, by simp [requested, hc, hobj], (hl.find_name hg).2⟩

/-- A step that accepts no change and ends no process of a group leaves the groups alone. -/
theorem step_kept (hl : Linked s.reg) (h : Step P s e u) (hspwn : acceptedSpwn P s e = none)
    (hupdt : acceptedUpdt P s e = none) (hdele : requested P s .dele e = none)
    (hload : e.loads = none) (hexit : reapedGroup s e = none) :
    u.reg.childConfigList = s.reg.childConfigList ∧
      ∀ g ∈ s.reg.childConfigList, u.reg.groups g = s.reg.groups g := by
  obtain ⟨x, hx, he⟩ := step_effect hl h
  rw [← acceptedSpwn_of_reg hx.reg] at hspwn
  rw [← acceptedUpdt_of_reg hx.reg] at hupdt
  rw [← requested_of_reg hx.reg] at hdele
  rw [← hx.reg]
  cases he with
  | kernel k hr _ _ =>
    rw [hr]
    exact ⟨rfl, fun _ _ => rfl⟩
  | process p f hr _ _ _ _ =>
    rw [hr]
    exact ⟨rfl, fun _ _ => rfl⟩
  | orphanExit p k _ _ hr _ _ =>
    rw [hr]
    exact ⟨rfl, fun _ _ => rfl⟩
  | deleted _ g' ha _ _ _ => cases hdele.symm.trans ha
  | created cc ha _ => cases hspwn.symm.trans ha
  | loaded file hf _ => cases hload.symm.trans hf
  | updated cc g' ha _ _ => cases hupdt.symm.trans ha
  | exited g' i p ret hr hex =>
    have hlx : Linked x.reg := by rwa [hx.reg]
    obtain ⟨-, hcfg, -⟩ := (hlx.placed g' i p).mp hex.owned
    rw [hx.reg] at hcfg
    rw [show reaped x e = reaped s e by unfold reaped; rw [hx.reg]] at hr
    rw [reapedGroup, hr] at hexit
    simp [hcfg] at hexit

theorem Stored.init : Stored Registry.init fun _ => none where
  found g hg := by cases hg
  only _ _ := rfl

theorem load_stored {file : Option Bytes} (hl : Linked s.reg) (hinit : s.reg = .init)
    (h : Step P s e u) (he : e.loads = some file) (hd : LoadsDistinct P s e u) :
    Stored u.reg (apply (fun _ => none) (.load (registered P file))) := by
  have hloads := step_loads hl h he
  rw [LoadsDistinct, loadedGroups, he] at hd
  have hempty : s.reg.childConfigList = [] := by rw [hinit]; rfl
  have hlisted : ∀ g, g ∈ u.reg.childConfigList ↔
      ∃ k < (registered P file).length, g = s.reg.nextGroup + k := by
    intro g
    rw [hloads.list, hempty, List.append_nil, List.mem_reverse, List.mem_range'_1]
    constructor
    · rintro ⟨hle, hlt⟩
      obtain ⟨k, rfl⟩ := Nat.exists_eq_add_of_le hle
      have hk : k < (registered P file).length := by omega
      exact ⟨k, hk, rfl⟩
    · rintro ⟨k, hk, rfl⟩
      exact ⟨Nat.le_add_right _ _, by omega⟩
  refine Holds.of_list ?_ fun cc => ?_
  · rw [List.map_map]
    exact hd
  · constructor
    · intro hcc
      obtain ⟨cc', hcc', rfl⟩ := List.mem_map.mp hcc
      obtain ⟨k, hk, rfl⟩ := List.getElem_of_mem hcc'
      refine ⟨s.reg.nextGroup + k, (hlisted _).mpr ⟨k, hk, rfl⟩, ?_⟩
      exact hloads.settings k _ (List.getElem?_eq_getElem hk)
    · rintro ⟨g, hg, rfl⟩
      obtain ⟨k, hk, rfl⟩ := (hlisted g).mp hg
      rw [hloads.settings k _ (List.getElem?_eq_getElem hk)]
      exact List.mem_map_of_mem (List.getElem_mem hk)

theorem created_stored {site : SpawnSite} (hst : Stored s.reg st) (hl : Linked s.reg)
    (hnew : st cc.ccName = none) (h : Created site (withSlots cc (startCount cc)) s u) :
    Stored u.reg (granted st (.spwn cc)) := by
  have hold : ∀ g ∈ s.reg.childConfigList, u.reg.groups g = s.reg.groups g :=
    fun g hg => h.groups g (hl.listed g hg).ne
  have hput := Holds.put hst s.reg.nextGroup (fun g => settings (u.reg.groups g))
    (fun g hg => congrArg settings (hold g hg)) ?_
  · rw [h.settings] at hput
    rw [Stored, h.list]
    exact hput
  · intro g hg he
    rw [h.settings] at he
    have hfound := hst.found g hg
    rw [he] at hfound
    exact Option.some_ne_none _ (hfound.symm.trans hnew)

theorem updated_stored (hst : Stored s.reg st) (hu : UniqueNames s.reg)
    (hg : g ∈ s.reg.childConfigList) (hname : (s.reg.groups g).ccName = cc.ccName)
    (h : Updated cc g s u) : Stored u.reg (granted st (.updt cc)) := by
  have hmodify := Holds.modify hst (fun g => settings (u.reg.groups g)) hg
    (distinct hu hg) (fun g' _ hne => congrArg settings (h.concerns.groups g' hne)) h.settings rfl
  rw [show (settings (s.reg.groups g)).ccName = cc.ccName from hname] at hmodify
  rw [Stored, h.list]
  exact hmodify

theorem deleted_stored (hst : Stored s.reg st) (hl : Linked s.reg) (hu : UniqueNames s.reg)
    (hg : g ∈ s.reg.childConfigList) {ps : List ProcId}
    (h : u.reg = (s.reg.childConfigRemove g).orphanAll ps) :
    Stored u.reg (granted st (.dele (s.reg.groups g).ccName)) := by
  rw [h, orphanAll_keeps]
  refine Holds.erase hst (s.reg.childConfigList.erase g) (distinct hu hg) fun g' => ?_
  rw [hl.nodup.mem_erase_iff, and_comm]

theorem exited_stored {i : ℕ} {p : ProcId} {ret : WaitStatus} (hst : Stored s.reg st)
    (hu : UniqueNames s.reg) (h : Exited g i p ret s u) :
    Stored u.reg (apply st (.exit (s.reg.groups g).ccName ret s.clock)) := by
  have hmodify := Holds.modify hst (fun g => settings (u.reg.groups g)) h.owned.1
    (distinct hu h.owned.1) (fun g' _ hne => congrArg settings (h.groups g' hne)) h.settings
    (counted_name _ _ _)
  rw [Stored, h.list]
  exact hmodify

theorem kept_stored (hst : Stored s.reg st)
    (h : u.reg.childConfigList = s.reg.childConfigList ∧
      ∀ g ∈ s.reg.childConfigList, u.reg.groups g = s.reg.groups g) : Stored u.reg st := by
  refine Holds.congr hst (fun g => ?_) fun g hg => congrArg settings (h.2 g hg)
  rw [h.1]

/-- A request that the store does not grant, or that only reads it. -/
theorem request_kept (hl : Linked s.reg) (hst : Stored s.reg st)
    (h : Step P s (.callback (.request con cid payload) o) u)
    (hno : ∀ w, Asks P payload w → refusal st w = none → (∃ n, w = .getc n) ∨ w = .list) :
    Stored u.reg st := by
  refine kept_stored hst (step_kept hl h ?_ ?_ ?_ rfl rfl)
  · rw [Option.eq_none_iff_forall_ne_some]
    intro cc ha
    obtain ⟨hw, hr⟩ := (spwn_iff hst hl).mp ha
    rcases hno _ hw hr with ⟨n, he⟩ | he
    · cases he
    · cases he
  · rw [Option.eq_none_iff_forall_ne_some]
    rintro ⟨cc, g⟩ ha
    obtain ⟨hw, hr⟩ := (updt_iff hst hl).mp ⟨g, ha⟩
    rcases hno _ hw hr with ⟨n, he⟩ | he
    · cases he
    · cases he
  · rw [Option.eq_none_iff_forall_ne_some]
    rintro ⟨obj, g⟩ ha
    obtain ⟨hw, hr⟩ := (dele_iff hst hl).mp ⟨obj, g, ha, rfl⟩
    rcases hno _ hw hr with ⟨n, he⟩ | he
    · cases he
    · cases he

theorem granted_stored {w : Wish} (hl : Linked s.reg) (hu : UniqueNames s.reg)
    (hst : Stored s.reg st) (h : Step P s (.callback (.request con cid payload) o) u)
    (hw : Asks P payload w) (hr : refusal st w = none) : Stored u.reg (granted st w) := by
  cases w with
  | spwn cc =>
    have ha : acceptedSpwn P s (.callback (.request con cid payload) o) = some cc :=
      (spwn_iff hst hl).mpr ⟨hw, hr⟩
    refine created_stored hst hl ?_ (step_created hl h ha)
    rw [hst.find_none hl]
    exact accepted_new_name ha
  | updt cc =>
    obtain ⟨g, ha⟩ : ∃ g, acceptedUpdt P s (.callback (.request con cid payload) o) =
      some (cc, g) := (updt_iff hst hl).mpr ⟨hw, hr⟩
    obtain ⟨hg, hname⟩ := hl.find_name (acceptedUpdt_ok ha).2
    exact updated_stored hst hu hg hname (step_updated hl h ha)
  | dele n =>
    obtain ⟨obj, g, ha, rfl⟩ : ∃ obj g, requested P s .dele
        (.callback (.request con cid payload) o) = some (obj, g) ∧ (s.reg.groups g).ccName = n :=
      (dele_iff hst hl).mpr ⟨hw, hr⟩
    exact deleted_stored hst hl hu (requested_listed hl ha) (step_deleted h ha).1
  | getc n =>
    refine request_kept hl hst h fun w' hw' _ => .inl ⟨n, ?_⟩
    have he := (wishOf_iff.mpr hw').symm.trans (wishOf_iff.mpr hw)
    exact Option.some.inj he
  | list =>
    refine request_kept hl hst h fun w' hw' _ => .inr ?_
    have he := (wishOf_iff.mpr hw').symm.trans (wishOf_iff.mpr hw)
    exact Option.some.inj he

theorem request_stored (hl : Linked s.reg) (hu : UniqueNames s.reg) (hst : Stored s.reg st)
    (h : Step P s (.callback (.request con cid payload) o) u) :
    Stored u.reg ((changesOf P s (.callback (.request con cid payload) o)).foldl apply st) := by
  cases hw : wishOf P payload with
  | none =>
    simp only [changesOf, hw]
    refine request_kept hl hst h fun w hasks _ => ?_
    cases hw.symm.trans (wishOf_iff.mpr hasks)
  | some w =>
    have hasks := wishOf_iff.mp hw
    simp only [changesOf, hw, Option.map_some, Option.toList_some, List.foldl_cons, List.foldl_nil,
      apply]
    split
    · rename_i hr
      exact granted_stored hl hu hst h hasks hr
    · rename_i hr
      refine request_kept hl hst h fun w' hasks' hr' => ?_
      cases hw.symm.trans (wishOf_iff.mpr hasks')
      exact absurd hr' hr

theorem reap_stored (hl : Linked s.reg) (hu : UniqueNames s.reg) (hst : Stored s.reg st)
    (h : Step P s (.callback .waitpid o) u) :
    Stored u.reg ((changesOf P s (.callback .waitpid o)).foldl apply st) := by
  cases hr : reapedGroup s (.callback .waitpid o) with
  | none =>
    simp only [changesOf, hr]
    exact kept_stored hst (step_kept hl h rfl rfl rfl rfl hr)
  | some x =>
    obtain ⟨g, ret⟩ := x
    obtain ⟨⟨p, ret'⟩, hp, hcfg⟩ := Option.bind_eq_some_iff.mp hr
    obtain ⟨g', hg, he⟩ := Option.bind_eq_some_iff.mp hcfg
    cases he
    simp only [changesOf, hr]
    exact exited_stored hst hu (step_exited hl h hp hg)

theorem loading_stored {file : Option Bytes} (hl : Linked s.reg)
    (hinit : s.started = false → s.reg = .init) (h : Step P s e u) (he : e.loads = some file)
    (hq : LoadsDistinct P s e u) (hst : Stored s.reg st) :
    Stored u.reg (apply st (.load (registered P file))) := by
  have hreg := hinit (load_unstarted h he)
  rw [hreg] at hst
  rw [Holds.unique hst Stored.init]
  exact load_stored hl hreg h he hq

/-- One step makes its change of the store. -/
theorem step_stored (hl : Linked s.reg) (hinit : s.started = false → s.reg = .init)
    (hu : UniqueNames s.reg) (hst : Stored s.reg st) (h : Step P s e u)
    (hq : LoadsDistinct P s e u) : Stored u.reg ((changesOf P s e).foldl apply st) := by
  cases e with
  | clock t => exact kept_stored hst (step_kept hl h rfl rfl rfl rfl rfl)
  | childExit pid ret pos => exact kept_stored hst (step_kept hl h rfl rfl rfl rfl rfl)
  | callback c o =>
    cases c with
    | request con cid payload => exact request_stored hl hu hst h
    | waitpid => exact reap_stored hl hu hst h
    | loadDump file => exact loading_stored hl hinit h rfl hq hst
    | loadNewest file => exact loading_stored hl hinit h rfl hq hst
    | _ => exact kept_stored hst (step_kept hl h rfl rfl rfl rfl rfl)

end Server

section Runs

variable {P : Platform} {s u : Server} {a b : Bool} {t : ℤ} {m : FreeAddMonoid Change}

/-- What holds along a run whose dumps have distinct names. -/
structure Kept (s : Server) (m : FreeAddMonoid Change) : Prop where
  linked : Linked s.reg
  unstarted : s.started = false → s.reg = .init
  unique : UniqueNames s.reg
  stored : Stored s.reg (replay m)

theorem run_kept {x : Server} (hx : Kept x 0)
    (h : Totals (Step P) (LoadsDistinct P) (chronicle P) x s m) : Kept s m := by
  induction h with
  | refl => exact hx
  | tail _ hstep hq ih =>
    refine ⟨step_linked ih.linked hstep, step_unstarted ih.linked hstep ih.unstarted,
      step_unique ih.linked ih.unstarted hstep hq ih.unique, ?_⟩
    rw [chronicle, replay_add]
    exact step_stored ih.linked ih.unstarted ih.unique ih.stored hstep hq

theorem initial_kept : Kept (initial a b t) 0 where
  linked := Registry.linked_init
  unstarted _ := rfl
  unique g hg := by cases hg
  stored := Stored.init

/-- The server's tables are the store after the changes of the run: looking a name up in them
gives the settings that the changes leave under this name, and the list of the groups has every
record of the store once and no others. -/
theorem registry_replayed
    (h : Totals (Step P) (LoadsDistinct P) (chronicle P) (initial a b t) s m) :
    (∀ n, (s.reg.childConfigFindByName n).map (fun g => settings (s.reg.groups g)) =
        replay m n) ∧
      (s.reg.childConfigList.map fun g => settings (s.reg.groups g)).Nodup ∧
      ∀ cc, cc ∈ s.reg.childConfigList.map (fun g => settings (s.reg.groups g)) ↔
        replay m cc.ccName = some cc := by
  have hk := run_kept initial_kept h
  refine ⟨fun n => (hk.stored.find hk.linked n).symm, ?_, fun cc => hk.stored.mem_iff⟩
  apply hk.linked.nodup.map_on
  intro g hg g' hg' he
  have hname : (settings (s.reg.groups g)).ccName = (settings (s.reg.groups g')).ccName := by
    rw [he]
  exact hk.unique g hg g' hg' hname

def webName : CStr := CStr.ofBytes (text "web")

def dbName : CStr := CStr.ofBytes (text "db")

def dbRequest : Json := .object [(text "name", .string (text "db"))]

def storeDump : Json := .array [dumped "db" 1]

def storePlatform : Platform :=
  sample [printed storeDump, printed clientRequest, printed stopRequest, printed dbRequest]

/-- A group from a dump, and one of a client whose process fails and that is stopped. -/
def storeRun : List Event :=
  [loading [dumped "db" 1] [99], connecting, asking "SPWN" clientRequest [100],
    .childExit 100 (.exited 1) 0] ++ signalled 2 [101] ++
  [asking "UPDT" stopRequest [], asking "DELE" dbRequest []]

def storeState : Server := stateAfter (next storePlatform) (initial false false 100) storeRun

def storeChanges : FreeAddMonoid Change :=
  totalFrom (next storePlatform) (chronicle storePlatform) (initial false false 100) 0 storeRun

theorem storeRun_totals : Totals (Step storePlatform) (LoadsDistinct storePlatform)
    (chronicle storePlatform) (initial false false 100) storeState storeChanges :=
  have h : Admits Enabled (next storePlatform) (LoadsDistinct storePlatform)
    (initial false false 100) storeRun := by decide +kernel
  h.totals

theorem storeState_replayed :
    (∀ n, (storeState.reg.childConfigFindByName n).map (fun g =>
        settings (storeState.reg.groups g)) = replay storeChanges n) ∧
      (storeState.reg.childConfigList.map fun g => settings (storeState.reg.groups g)).Nodup ∧
      ∀ cc, cc ∈ storeState.reg.childConfigList.map
          (fun g => settings (storeState.reg.groups g)) ↔
        replay storeChanges cc.ccName = some cc :=
  registry_replayed storeRun_totals

example : replay storeChanges dbName = none ∧
    (replay storeChanges webName).map (fun cc => (cc.ccStatus, cc.ccError)) = some (2, 0) := by
  decide +kernel

end Runs

section Replies

variable {P : Platform} {s u x : Server} {st : Store} {con : ClientId} {cid : UInt16}
  {payload : Bytes} {o : Oracle} {w : Wish} {buf : CStr} {n : CStr}

def statusJson (x : Bool × String) : Json := (Reply.status x.1 (text x.2)).json

/-- What the store tells a client. When a server dumps after every change, the replies of the
dump take the place of the success. -/
inductive Told (P : Platform) (s : Server) (st : Store) : Wish → List Json → Prop where
  | refused {w : Wish} (why : Bool × String) (h : refusal st w = some why) :
      Told P s st w [statusJson why]
  | spwn {cc : ChildConfig} (h : refusal st (.spwn cc) = none) : Told P s st (.spwn cc)
      ((successReplies P s (s.reg.childConfigList.length + 1) "success").map statusJson)
  | updt {cc : ChildConfig} (h : refusal st (.updt cc) = none) : Told P s st (.updt cc)
      ((successReplies P s s.reg.childConfigList.length "success").map statusJson)
  | dele {n : CStr} (h : st n ≠ none) (pids : List Pid) :
      Told P s st (.dele n) [(Reply.pids pids).json]
  | getc {n : CStr} {cc : ChildConfig} (h : st n = some cc) :
      Told P s st (.getc n) [childConfigSerialize cc]
  | list (l : List CStr) (nodup : l.Nodup) (h : ∀ n, n ∈ l ↔ st n ≠ none) :
      Told P s st .list [(Reply.names l).json]

/-- An answer as it is sent. -/
def onWire (a : Answer) : ClientId × UInt16 × Json := (a.1, a.2.1, a.2.2.json)

/-- The answers of a step are these, to the request `cid` of the client. -/
def Sends (con : ClientId) (cid : UInt16) (s u : Server) (js : List Json) : Prop :=
  (answersOf s u).map onWire = js.map fun j => (con, cid, j)

/-- The server when it handles a request. -/
def handling (s : Server) (con : ClientId) (cid : UInt16) (o : Oracle) : Server :=
  (install s o).withIo (setCid con cid)

theorem statuses_onWire (con : ClientId) (cid : UInt16) (l : List (Bool × String)) :
    (statuses con cid l).map onWire = (l.map statusJson).map fun j => (con, cid, j) := by
  simp [statuses, onWire, statusJson]

/-- What a handler answers is sent. -/
theorem sends_of_answered {c : Command} {rs : List Answer} {wild : Prop} {js : List Json}
    (hs : Step P s (.callback (.request con cid payload) o) u) (hc : findCommand payload = some c)
    (h : Answers P rs wild (handling s con cid o).io
      (runCommand P c (handling s con cid o) con (CStr.ofBytes (payload.drop 4))).1.io)
    (hjs : rs.map onWire = js.map fun j => ((con, (handling s con cid o).io.cid con, j))) :
    Sends con cid s u js := by
  obtain ⟨⟨-, -, hcon, -⟩, rfl⟩ := hs
  have hcid : (handling s con cid o).io.cid con = cid := setCid_cid hcon cid
  rw [hcid] at hjs
  rw [Sends, (request_answered hc (Answers.answered h)).1]
  exact hjs

theorem withNamedGroup_unknown {badName : Bool} {handle : Json → GroupId → Server × Bool}
    (hn : (parseObject P buf).bind nameField = some n) (hf : x.reg.childConfigFindByName n = none) :
    withNamedGroup P x con buf badName handle =
      (sendStatusMsg P x con false "name not found", true) := by
  obtain ⟨obj, hobj, hname⟩ := Option.bind_eq_some_iff.mp hn
  unfold withNamedGroup
  rw [hobj]
  dsimp only
  rw [hname]
  dsimp only
  rw [hf]

/-- A request about a name that no group has. -/
theorem unknown_sends {c : Command} {badName : Bool} {handle : Json → GroupId → Server × Bool}
    (hs : Step P s (.callback (.request con cid payload) o) u) (hc : findCommand payload = some c)
    (hrun : runCommand P c (handling s con cid o) con (CStr.ofBytes (payload.drop 4)) =
      withNamedGroup P (handling s con cid o) con (CStr.ofBytes (payload.drop 4)) badName handle)
    (hn : (parseObject P (CStr.ofBytes (payload.drop 4))).bind nameField = some n)
    (hf : s.reg.childConfigFindByName n = none) :
    Sends con cid s u [statusJson (false, "name not found")] := by
  have hx : (handling s con cid o).reg.childConfigFindByName n = none := hf
  have hans : Answers P [(con, (handling s con cid o).io.cid con,
      .status false (text "name not found"))] False (handling s con cid o).io
      (runCommand P c (handling s con cid o) con (CStr.ofBytes (payload.drop 4))).1.io := by
    rw [hrun, withNamedGroup_unknown hn hx]
    exact refused _ _ _ _ not_false
  exact sends_of_answered hs hc hans rfl

theorem spwn_told {cc : ChildConfig} (hl : Linked s.reg) (hst : Stored s.reg st)
    (hs : Step P s (.callback (.request con cid payload) o) u) (hw : Asks P payload (.spwn cc)) :
    ∃ js, Told P (handling s con cid o) st (.spwn cc) js ∧ Sends con cid s u js := by
  have hans := cSpwn_replied (P := P) (handling s con cid o) con (CStr.ofBytes (payload.drop 4))
  have hsends := sends_of_answered hs hw.1 hans (statuses_onWire con _ _)
  refine ⟨_, ?_, hsends⟩
  have hr : refusal st (.spwn cc) =
      (spwnRefusal (handling s con cid o).reg cc).map fun msg => (false, msg) :=
    refusal_spwn hst hl cc
  unfold spwnReplies
  rw [hw.2]
  dsimp only
  cases hok : spwnRefusal (handling s con cid o).reg cc with
  | none =>
    rw [hok] at hr
    exact .spwn hr
  | some msg =>
    rw [hok] at hr
    exact .refused _ hr

theorem updt_told {cc : ChildConfig} (hl : Linked s.reg) (hst : Stored s.reg st)
    (hs : Step P s (.callback (.request con cid payload) o) u) (hw : Asks P payload (.updt cc)) :
    ∃ js, Told P (handling s con cid o) st (.updt cc) js ∧ Sends con cid s u js := by
  have hlx : Linked (handling s con cid o).reg := hl
  have hans := cUpdt_replied (P := P) hlx con (CStr.ofBytes (payload.drop 4))
  have hsends := sends_of_answered hs hw.1 hans (statuses_onWire con _ _)
  refine ⟨_, ?_, hsends⟩
  have hname : st cc.ccName = none ↔
      (handling s con cid o).reg.childConfigFindByName cc.ccName = none := hst.find_none hl _
  unfold updtReplies
  rw [hw.2]
  dsimp only
  split
  · rename_i hnone
    refine .refused _ ?_
    rw [refusal, if_pos (hname.mpr hnone)]
  · rename_i hsome
    have hr : refusal st (.updt cc) = updtRefusal cc := by
      rw [refusal, if_neg (mt hname.mp hsome)]
    cases hok : updtRefusal cc with
    | none => exact .updt (hr.trans hok)
    | some why => exact .refused _ (hr.trans hok)

theorem dele_told (hl : Linked s.reg) (hst : Stored s.reg st)
    (hs : Step P s (.callback (.request con cid payload) o) u) (hw : Asks P payload (.dele n)) :
    ∃ js, Told P (handling s con cid o) st (.dele n) js ∧ Sends con cid s u js := by
  have hname := hst.find_none hl n
  cases hf : s.reg.childConfigFindByName n with
  | none =>
    have hr : refusal st (.dele n) = some (false, "name not found") := if_pos (hname.mpr hf)
    exact ⟨_, .refused _ hr, unknown_sends hs hw.1 rfl hw.2 hf⟩
  | some g =>
    have hg : (handling s con cid o).reg.childConfigFindByName n = some g := hf
    obtain ⟨obj, hobj⟩ := namedGroup_iff.mpr ⟨n, hw.2, hg⟩
    obtain ⟨pids, hans⟩ := cDele_found con hobj
    have hsome : st n ≠ none := by
      rw [ne_eq, hname, hf]
      simp
    exact ⟨_, .dele hsome pids, sends_of_answered hs hw.1 hans rfl⟩

theorem getc_told (hl : Linked s.reg) (hst : Stored s.reg st)
    (hs : Step P s (.callback (.request con cid payload) o) u) (hw : Asks P payload (.getc n)) :
    ∃ js, Told P (handling s con cid o) st (.getc n) js ∧ Sends con cid s u js := by
  cases hf : s.reg.childConfigFindByName n with
  | none =>
    have hr : refusal st (.getc n) = some (false, "name not found") :=
      if_pos ((hst.find_none hl n).mpr hf)
    exact ⟨_, .refused _ hr, unknown_sends hs hw.1 rfl hw.2 hf⟩
  | some g =>
    have hg : (handling s con cid o).reg.childConfigFindByName n = some g := hf
    obtain ⟨obj, hobj⟩ := namedGroup_iff.mpr ⟨n, hw.2, hg⟩
    have hans : Answers P [(con, (handling s con cid o).io.cid con, .config (s.reg.groups g))]
        False (handling s con cid o).io
        (runCommand P .getc (handling s con cid o) con (CStr.ofBytes (payload.drop 4))).1.io := by
      change Answers P _ _ _ (withNamedGroup P _ con _ false _).1.io
      rw [withNamedGroup_found hobj]
      exact Quiet.replied .refl con _
    have hfound : st n = some (settings (s.reg.groups g)) := by
      rw [hst.find hl, hf]
      rfl
    exact ⟨_, .getc hfound, sends_of_answered hs hw.1 hans rfl⟩

theorem list_told (hl : Linked s.reg) (hu : UniqueNames s.reg) (hst : Stored s.reg st)
    (hs : Step P s (.callback (.request con cid payload) o) u) (hw : Asks P payload .list) :
    ∃ js, Told P (handling s con cid o) st .list js ∧ Sends con cid s u js := by
  have hans : Answers P [(con, (handling s con cid o).io.cid con,
      .names (s.reg.childConfigList.map fun g => (s.reg.groups g).ccName))]
      False (handling s con cid o).io
      (runCommand P .list (handling s con cid o) con (CStr.ofBytes (payload.drop 4))).1.io :=
    Quiet.replied .refl con _
  refine ⟨_, .list _ ?_ fun n => ?_, sends_of_answered hs hw hans rfl⟩
  · exact hl.nodup.map_on fun g hg g' hg' => hu g hg g' hg'
  · rw [ne_eq, hst.find_none hl, List.mem_map]
    exact (UbervisorGroupTable.find_listed hl.toNamed n).symm

/-- Along runs whose dumps have distinct names, clients are told what the store tells them. -/
theorem requests_served {a b : Bool} {t : ℤ} {m : FreeAddMonoid Change}
    (h : Totals (Step P) (LoadsDistinct P) (chronicle P) (initial a b t) s m)
    (hs : Step P s (.callback (.request con cid payload) o) u) (hw : wishOf P payload = some w) :
    ∃ js, Told P (handling s con cid o) (replay m) w js ∧ Sends con cid s u js := by
  have hk := run_kept initial_kept h
  have hasks := wishOf_iff.mp hw
  cases w with
  | spwn cc => exact spwn_told hk.linked hk.stored hs hasks
  | updt cc => exact updt_told hk.linked hk.stored hs hasks
  | dele n => exact dele_told hk.linked hk.stored hs hasks
  | getc n => exact getc_told hk.linked hk.stored hs hasks
  | list => exact list_told hk.linked hk.unique hk.stored hs hasks

/-- The group that was deleted before. -/
theorem storeState_served : ∃ js,
    Told storePlatform (handling storeState 0 1 (starting [])) (replay storeChanges)
      (.getc dbName) js ∧
    Sends 0 1 storeState (next storePlatform storeState (asking "GETC" dbRequest [])) js := by
  have hen : Enabled storeState (asking "GETC" dbRequest []) := by decide +kernel
  have hw : wishOf storePlatform (text "GETC" ++ printJson dbRequest) = some (.getc dbName) := by
    decide +kernel
  exact requests_served storeRun_totals ⟨hen, rfl⟩ hw

end Replies

end UbervisorGroupStore
