import Ubervisor.Outputs
import Ubervisor.JsonC

/-! # What loading a dump does

`load_dump` registers and starts the groups of an array one after the other, up to the first
element that is not acceptable. -/
namespace UbervisorDumps

open UbervisorRuns
open UbervisorValues
open UbervisorChildConfigs
open UbervisorRegistry
open UbervisorServer
open UbervisorCommands
open UbervisorEvents
open UbervisorSupervision
open UbervisorSlots
open UbervisorEffects
open UbervisorGroupSteps
open UbervisorOutputs
open UbervisorJsonC

section Arrays

/-- The group an element of the array describes. There is none where `load_dump` stops. -/
def dumpElement : Json → Option ChildConfig
  | .object l => do
    let cc ← childConfigFromJson (.object l)
    if cc.ccCommand = none ∨ (dumpDefaults cc).ccInstances < 0 then none
    else some (dumpDefaults cc)
  | _ => none

/-- The groups of the elements before the first one that is not acceptable. -/
def registeredGroups : List Json → List ChildConfig
  | [] => []
  | j :: ts =>
    match dumpElement j with
    | some cc => cc :: registeredGroups ts
    | none => []

/-- The array in a file. -/
def dumpArray (P : Platform) : Option Bytes → List Json
  | some (b :: buf) =>
    match P.jsonParse (CStr.ofBytes (b :: buf)).bytes with
    | some (.array l) => l
    | _ => []
  | _ => []

/-- The groups that the loading of a file registers. -/
def registered (P : Platform) (file : Option Bytes) : List ChildConfig :=
  registeredGroups (dumpArray P file)

/-- Every element is acceptable when as many groups are registered. -/
theorem registeredGroups_all {l : List Json} (h : ∀ j ∈ l, (dumpElement j).isSome) :
    registeredGroups l = l.filterMap dumpElement := by
  induction l with
  | nil => rfl
  | cons j ts ih =>
    obtain ⟨cc, hcc⟩ := Option.isSome_iff_exists.mp (h j List.mem_cons_self)
    have ih := ih fun x hx => h x (List.mem_cons_of_mem _ hx)
    rw [registeredGroups, hcc, List.filterMap_cons_some hcc, ih]

theorem mem_registeredGroups {l : List Json} {cc : ChildConfig} (h : cc ∈ registeredGroups l) :
    ∃ j ∈ l, dumpElement j = some cc := by
  induction l with
  | nil => exact absurd h List.not_mem_nil
  | cons j ts ih =>
    rw [registeredGroups] at h
    cases hj : dumpElement j with
    | none =>
      rw [hj] at h
      exact absurd h List.not_mem_nil
    | some c =>
      rw [hj] at h
      rcases List.mem_cons.mp h with rfl | h
      · exact ⟨j, List.mem_cons_self, hj⟩
      · obtain ⟨k, hk, hcc⟩ := ih h
        exact ⟨k, List.mem_cons_of_mem _ hk, hcc⟩

end Arrays

/-- The groups are registered in this order, each before the ones that are listed already. -/
structure Loads (ccs : List ChildConfig) (s u : Server) : Prop where
  list : u.reg.childConfigList =
    (List.range' s.reg.nextGroup ccs.length).reverse ++ s.reg.childConfigList
  next : u.reg.nextGroup = s.reg.nextGroup + ccs.length
  settings : ∀ k cc, ccs[k]? = some cc →
    settings (u.reg.groups (s.reg.nextGroup + k)) = settings cc
  old : ∀ g, g < s.reg.nextGroup → u.reg.groups g = s.reg.groups g
  linked : Linked u.reg
  hist : s.hist <+: u.hist
  starts : ∀ h ∈ newHist s u, h.isSpawn = true →
    ∃ g ∈ u.reg.childConfigList, h.group = some g ∧ (u.reg.groups g).ccStatus = statusRunning
  none : ccs = [] → u.reg = s.reg ∧ u.hist = s.hist

section Loading

variable {P : Platform} {s u v : Server} {e : Event}

theorem Loads.nil (hl : Linked s.reg) (hc : Calm s u) : Loads [] s u where
  list := by rw [hc.reg]; rfl
  next := by rw [hc.reg]; rfl
  settings k cc h := by cases h
  old g _ := by rw [hc.reg]
  linked := by rw [hc.reg]; exact hl
  hist := ⟨[], by rw [hc.hist, List.append_nil]⟩
  starts h hh := by
    rw [newHist_nil hc.hist] at hh
    cases hh
  none _ := ⟨hc.reg, hc.hist⟩

/-- Output before and after does not matter. -/
theorem Loads.calm {ccs : List ChildConfig} {x y : Server} (hx : Calm s x)
    (h : Loads ccs x y) (hu : Calm y u) : Loads ccs s u := by
  obtain ⟨hlist, hnext, hset, hold, hlinked, hhist, hstarts, hnone⟩ := h
  refine ⟨?_, ?_, ?_, ?_, ?_, ?_, ?_, ?_⟩
  · rw [hu.reg, ← hx.reg]
    exact hlist
  · rw [hu.reg, ← hx.reg]
    exact hnext
  · rw [hu.reg, ← hx.reg]
    exact hset
  · rw [hu.reg, ← hx.reg]
    exact hold
  · rw [hu.reg]
    exact hlinked
  · rw [hu.hist, ← hx.hist]
    exact hhist
  · rw [newHist_congr hx.hist.symm hu.hist, hu.reg]
    exact hstarts
  · rw [hu.reg, hu.hist, ← hx.reg, ← hx.hist]
    exact hnone

/-- Starts of the processes of one group. -/
theorem created_starts {cc : ChildConfig} (h : Created .loadDump cc s u) {x : Hist}
    (hx : x ∈ newHist s u) (hs : x.isSpawn = true) :
    x.group = some s.reg.nextGroup ∧ cc.ccStatus = statusRunning := by
  obtain ⟨l, hl, hentries⟩ := h.hist
  rw [newHist_eq hl] at hx
  refine ⟨createEntry_group (hentries x hx), ?_⟩
  by_contra hr
  have hquiet := h.quiet hr
  rw [hl] at hquiet
  rw [List.append_cancel_left hquiet, List.mem_singleton] at hx
  rw [hx] at hs
  cases hs

theorem Loads.cons {cc : ChildConfig} {ccs : List ChildConfig}
    (h : Created .loadDump (withSlots cc cc.ccInstances) s u) (k : Loads ccs u v) :
    Loads (cc :: ccs) s v := by
  have hnew : v.reg.groups s.reg.nextGroup = u.reg.groups s.reg.nextGroup := by
    refine k.old _ ?_
    rw [h.next]
    exact Nat.lt_succ_self _
  have hset : UbervisorSlots.settings (v.reg.groups s.reg.nextGroup) =
      UbervisorSlots.settings cc := by
    rw [hnew, h.settings]
    rfl
  have hprefix : s.hist <+: u.hist := by
    obtain ⟨l, hl, -⟩ := h.hist
    exact ⟨l, hl.symm⟩
  refine ⟨?_, ?_, ?_, ?_, k.linked, hprefix.trans k.hist, ?_, fun hn => by cases hn⟩
  · rw [k.list, h.list, h.next, List.length_cons, List.range'_succ, List.reverse_cons,
      List.append_assoc]
    rfl
  · rw [k.next, h.next, List.length_cons, Nat.add_assoc, Nat.add_comm 1]
  · intro i c hi
    cases i with
    | zero =>
      cases hi
      exact hset
    | succ i =>
      have hk := k.settings i c hi
      rwa [h.next, Nat.add_assoc, Nat.add_comm 1] at hk
  · intro g hg
    rw [k.old g (by rw [h.next]; exact hg.trans (Nat.lt_succ_self _)), h.groups g hg.ne]
  · intro x hx hspawn
    rw [newHist_append hprefix k.hist] at hx
    rcases List.mem_append.mp hx with hx | hx
    · obtain ⟨hg, hr⟩ := created_starts h hx hspawn
      refine ⟨_, ?_, hg, (settings_status hset).trans hr⟩
      rw [k.list, h.list]
      exact List.mem_append_right _ List.mem_cons_self
    · exact k.starts x hx hspawn

/-- The loop of `load_dump`. -/
theorem loadGroups_loads (l : List Json) {s : Server} (hl : Linked s.reg) :
    Loads (registeredGroups l) s (loadGroups P l s).1 ∧
      ((loadGroups P l s).2 = true ↔ ∀ j ∈ l, (dumpElement j).isSome) := by
  fun_induction loadGroups P l s with
  | case1 s => exact ⟨.nil hl .refl, by simp⟩
  | case2 fields ts s hcc =>
    have hj : dumpElement (.object fields) = none := by simp [dumpElement, hcc]
    rw [registeredGroups, hj]
    exact ⟨.nil hl .refl, by simp [hj]⟩
  | case3 fields ts s cc hcc hcmd =>
    have hj : dumpElement (.object fields) = none := by simp [dumpElement, hcc, hcmd]
    rw [registeredGroups, hj]
    exact ⟨.nil hl .refl, by simp [hj]⟩
  | case4 fields ts s cc hcc hcmd s' cc' hneg =>
    have hj : dumpElement (.object fields) = none := by
      simp [dumpElement, hcc, hcmd, show (dumpDefaults cc).ccInstances < 0 from hneg]
    rw [registeredGroups, hj]
    exact ⟨.nil hl ⟨rfl, rfl, rfl, rfl⟩, by simp [hj]⟩
  | case5 fields ts s cc hcc hcmd s' cc' hneg ih =>
    have hj : dumpElement (.object fields) = some cc' := by
      simp [dumpElement, hcc, hcmd, show ¬ (dumpDefaults cc).ccInstances < 0 from hneg, cc']
    have hl' : Linked s'.reg := hl
    have hcreated := loadGroup_created P hl' cc' (Int.not_lt.mp hneg)
    obtain ⟨hrest, hend⟩ := ih hcreated.linked
    have hlog : Calm s s' := .withIo
    rw [registeredGroups, hj]
    refine ⟨.calm hlog (.cons hcreated hrest) .refl, ?_⟩
    rw [hend]
    simp [hj]
  | case6 j ts s hobject =>
    have hj : dumpElement j = none := by
      cases j with
      | object l => exact absurd rfl (hobject l)
      | _ => rfl
    rw [registeredGroups, hj]
    exact ⟨.nil hl .refl, by simp [hj]⟩

theorem loadDump_loads (file : Option Bytes) (hl : Linked s.reg) :
    Loads (registered P file) s (loadDump P s file).1 := by
  rcases file with _ | _ | ⟨b, buf⟩
  · exact .nil hl .refl
  · exact .nil hl .refl
  · unfold loadDump registered dumpArray
    dsimp only
    generalize P.jsonParse _ = parsed
    rcases parsed with _ | j
    · exact .nil hl .refl
    · cases j with
      | array l => exact (loadGroups_loads l hl).1
      | _ => exact .nil hl .refl

theorem step_loads {file : Option Bytes} (hl : Linked s.reg) (h : Step P s e u)
    (he : e.loads = some file) : Loads (registered P file) s u := by
  obtain ⟨-, rfl⟩ := h
  cases e with
  | clock t => cases he
  | childExit pid ret pos => cases he
  | callback c o =>
    have hi : Calm s (install s o) := ⟨rfl, rfl, rfl, rfl⟩
    have hload := loadDump_loads (P := P) (s := install s o) file hl
    cases c with
    | loadDump file' =>
      cases he
      refine .calm hi hload ?_
      change Calm _ (loadDumpCb P (install s o) file)
      unfold loadDumpCb
      split
      · rename_i v hv
        rw [hv]
        exact .refl
      · rename_i v hv
        rw [hv]
        exact ⟨rfl, rfl, rfl, rfl⟩
    | loadNewest file' =>
      cases he
      exact .calm hi hload .refl
    | _ => cases he

/-- No group and no process is left behind. -/
structure Traceless (s u : Server) : Prop where
  list : u.reg.childConfigList = s.reg.childConfigList
  hash : u.reg.childConfigHash = s.reg.childConfigHash
  unspawned : ∀ h ∈ newHist s u, h.isSpawn = false

/-- Loading leaves no trace exactly if it stops at the first element. -/
theorem Loads.traceless_iff {ccs : List ChildConfig} (h : Loads ccs s u) :
    Traceless s u ↔ ccs = [] := by
  constructor
  · intro ht
    have hlist := ht.list
    rw [h.list] at hlist
    have hlength := congrArg List.length hlist
    rw [List.length_append, List.length_reverse, List.length_range'] at hlength
    exact List.eq_nil_of_length_eq_zero (by omega)
  · intro hn
    obtain ⟨hr, hh⟩ := h.none hn
    refine ⟨by rw [hr], by rw [hr], ?_⟩
    rw [newHist_nil hh]
    simp

/-- `load_dump` fails when an element of the array is not acceptable. -/
theorem loadDump_fails {file : Option Bytes} (hl : Linked s.reg) {j : Json}
    (hj : j ∈ dumpArray P file) (hbad : dumpElement j = none) :
    (loadDump P s file).2 = false := by
  rcases file with _ | _ | ⟨b, buf⟩
  · cases hj
  · cases hj
  · unfold dumpArray at hj
    unfold loadDump
    dsimp only at hj ⊢
    generalize P.jsonParse _ = parsed at hj ⊢
    rcases parsed with _ | v
    · cases hj
    · cases v with
      | array l =>
        by_contra hok
        rw [Bool.not_eq_false, (loadGroups_loads l hl).2] at hok
        have hsome := hok j hj
        rw [hbad] at hsome
        cases hsome
      | _ => cases hj

theorem loadDump_succeeds {file : Option Bytes} (hl : Linked s.reg)
    (hne : dumpArray P file ≠ []) (h : ∀ j ∈ dumpArray P file, (dumpElement j).isSome) :
    (loadDump P s file).2 = true := by
  rcases file with _ | _ | ⟨b, buf⟩
  · exact absurd rfl hne
  · exact absurd rfl hne
  · unfold dumpArray at h hne
    unfold loadDump
    dsimp only at h hne ⊢
    generalize P.jsonParse _ = parsed at h hne ⊢
    rcases parsed with _ | v
    · exact absurd rfl hne
    · cases v with
      | array l => exact (loadGroups_loads l hl).2.mpr h
      | _ => exact absurd rfl hne

/-- When `load_dump` returns 0, or ends the server, it leaves no trace. -/
def AllOrNothing (P : Platform) (s : Server) (file : Option Bytes) : Prop :=
  (loadDump P s file).2 = false → Traceless s (loadDump P s file).1

/-- Every element of the array is acceptable, or not even the first one is. -/
def Uniform (l : List Json) : Prop :=
  (∀ j ∈ l, (dumpElement j).isSome) ∨ ∀ j, l.head? = some j → dumpElement j = none

theorem load_allOrNothing_iff (h : Reachable P s) (o : Oracle) (file : Option Bytes) :
    AllOrNothing P (install s o) file ↔ Uniform (dumpArray P file) := by
  have hs : Linked s.reg := ReachableBy.linked h
  have hl : Linked (install s o).reg := hs
  have htrace : Traceless (install s o) (loadDump P (install s o) file).1 ↔
      ∀ j, (dumpArray P file).head? = some j → dumpElement j = none := by
    rw [(loadDump_loads file hl).traceless_iff, registered]
    cases hd : dumpArray P file with
    | nil => simp [registeredGroups]
    | cons j ts => cases hj : dumpElement j <;> simp [registeredGroups, hj]
  rw [AllOrNothing, htrace]
  constructor
  · intro hfirst
    by_cases hall : ∀ j ∈ dumpArray P file, (dumpElement j).isSome
    · exact .inl hall
    · simp only [not_forall, Option.not_isSome_iff_eq_none] at hall
      obtain ⟨j, hj, hbad⟩ := hall
      exact .inr (hfirst (loadDump_fails hl hj hbad))
  · rintro (hall | hfirst) hfail
    · by_cases hne : dumpArray P file = []
      · intro j hj
        rw [hne] at hj
        cases hj
      · rw [loadDump_succeeds hl hne hall] at hfail
        cases hfail
    · exact hfirst

/-- A group, and something that is none. -/
def brokenDump : Json := .array
  [.object [(text "name", .string (text "web")), (text "args", .array [.string (text "/bin/web")])],
    .int 5]

def brokenPlatform : Platform := sample [printed brokenDump]

theorem initial_reachable (P : Platform) : Reachable P (initial false false 100) :=
  ⟨false, false, 100, .refl _⟩

theorem brokenDump_allOrNothing_iff :
    AllOrNothing brokenPlatform (install (initial false false 100) (starting [100]))
        (some (printed brokenDump).1) ↔
      Uniform (dumpArray brokenPlatform (some (printed brokenDump).1)) :=
  load_allOrNothing_iff (initial_reachable _) _ _

/-- The process of the first group is started before the second element is looked at. -/
theorem brokenDump_traced : ¬ ∀ (P : Platform) (s : Server) (o : Oracle) (file : Option Bytes),
    Reachable P s → AllOrNothing P (install s o) file := by
  intro h
  have ht := h brokenPlatform (initial false false 100) (starting [100])
    (some (printed brokenDump).1) (initial_reachable _) (by decide +kernel)
  have hspawned : .spawned .loadDump 0 0 0 100 ∈
      newHist (install (initial false false 100) (starting [100]))
        (loadDump brokenPlatform (install (initial false false 100) (starting [100]))
          (some (printed brokenDump).1)).1 := by decide +kernel
  have hquiet := ht.unspawned _ hspawned
  cases hquiet

end Loading

end UbervisorDumps
