import Ubervisor.Registry
import Mathlib.Data.PEquiv

/-! # Slots and processes

The invariant that ties the slot arrays, the back pointers of processes, the two hash tables
and the kernel together, and its preservation by every operation on the registry. -/
namespace UbervisorSupervision

open UbervisorBucketTable
open UbervisorValues
open UbervisorChildConfigs
open UbervisorKernel
open UbervisorRegistry

/-- `cc_childs[i]` of a listed group holds the process. -/
def InSlot (r : Registry) (g : GroupId) (i : ℕ) (p : ProcId) : Prop :=
  g ∈ r.childConfigList ∧ (r.groups g).ccChilds[i]? = some (.proc p)

/-- A process of `process_hash` that points back to the instance. -/
def Owns (r : Registry) (p : ProcId) (g : GroupId) (i : ℕ) : Prop :=
  r.Tracked p ∧ (r.procs p).pChildConfig = some g ∧ (r.procs p).pInstance = i

/-- The process in a slot of a listed group. -/
def slotProc (r : Registry) (g : GroupId) (i : ℕ) : Option ProcId :=
  match (r.groups g).ccChilds[i]? with
  | some (.proc p) => if g ∈ r.childConfigList then some p else none
  | _ => none

/-- The instance a process of the table points back to. -/
def ownedSlot (r : Registry) (p : ProcId) : Option (GroupId × ℕ) :=
  if r.Tracked p then (r.procs p).pChildConfig.map fun g => (g, (r.procs p).pInstance) else none

theorem slotProc_eq_some {r : Registry} {g : GroupId} {i : ℕ} {p : ProcId} :
    slotProc r g i = some p ↔ InSlot r g i p := by
  unfold slotProc InSlot
  split
  · rename_i q hq
    rw [hq]
    split <;> simp_all
  · rename_i hq
    constructor
    · intro h; cases h
    · intro h; exact absurd h.2 (hq p)

theorem ownedSlot_eq_some {r : Registry} {p : ProcId} {g : GroupId} {i : ℕ} :
    ownedSlot r p = some (g, i) ↔ Owns r p g i := by
  unfold ownedSlot Owns
  split <;> simp_all

/-- The group list and the table of names hold the same groups, in the same order. -/
structure Named (r : Registry) : Prop where
  nodup : r.childConfigList.Nodup
  listed : ∀ g ∈ r.childConfigList, g < r.nextGroup
  names : ∀ n, r.childConfigHash.chain n =
    (r.childConfigList.filter fun g => (r.groups g).ccName = n).map fun g => (⟨g, n⟩, g)

/-- A pid has one entry in the table of processes, and is not free for the kernel. -/
structure Hashed (r : Registry) : Prop where
  single : ∀ pid, (r.processHash.chain pid).length ≤ 1
  keyed : ∀ pid p, (pid, p) ∈ r.processHash.chain pid →
    (r.procs p).pPid = pid ∧ p < r.nextProc ∧ pid ∈ r.kernel.unreaped

structure Linked (r : Registry) : Prop extends Named r, Hashed r where
  placed : ∀ g i p, InSlot r g i p ↔ Owns r p g i
  cells : ∀ g ∈ r.childConfigList, ((r.groups g).ccChilds.length : ℤ) = (r.groups g).ccInstances

theorem Registry.linked_init : Linked Registry.init where
  nodup := List.nodup_nil
  listed := by simp [Registry.init]
  names n := by simp [Registry.init]
  single pid := by simp [Registry.init]
  keyed pid p h := by simp [Registry.init] at h
  placed g i p := by simp [InSlot, Owns, Registry.Tracked, Registry.init]
  cells := by simp [Registry.init]

namespace Linked

variable {r : Registry} {g g' : GroupId} {i j : ℕ} {p q : ProcId} {pid : Pid}

theorem tracked_iff (h : Linked r) : r.Tracked p ↔ ∃ pid, (pid, p) ∈ r.processHash.chain pid := by
  constructor
  · intro ht
    exact ⟨_, ht⟩
  · rintro ⟨pid, hp⟩
    have hk := (h.keyed pid p hp).1
    rw [Registry.Tracked, hk]
    exact hp

theorem tracked_lt (h : Linked r) (hp : r.Tracked p) : p < r.nextProc := (h.keyed _ _ hp).2.1

theorem tracked_unreaped (h : Linked r) (hp : r.Tracked p) :
    (r.procs p).pPid ∈ r.kernel.unreaped := (h.keyed _ _ hp).2.2

/-- Two processes of the table differ in their pids. -/
theorem tracked_inj (h : Linked r) (hp : r.Tracked p) (hq : r.Tracked q)
    (he : (r.procs p).pPid = (r.procs q).pPid) : p = q := by
  rw [Registry.Tracked] at hp hq
  rw [← he] at hq
  have hs := h.single (r.procs p).pPid
  obtain ⟨x, hx⟩ : ∃ x, r.processHash.chain (r.procs p).pPid = [x] := by
    apply List.length_eq_one_iff.mp
    have := List.length_pos_of_mem hp
    omega
  rw [hx, List.mem_singleton] at hp hq
  exact (Prod.mk.inj (hp.trans hq.symm)).2

theorem find_pid (h : Linked r) (hf : r.processFindByPid pid = some p) :
    r.Tracked p ∧ (r.procs p).pPid = pid := by
  rw [Registry.processFindByPid, uvhashFind_chain, Option.map_eq_some_iff] at hf
  obtain ⟨⟨k, q⟩, hh, rfl⟩ := hf
  have hm := List.mem_of_mem_head? hh
  have hk : k = pid := (BucketTable.mem_chain.mp hm).2
  subst hk
  exact ⟨h.tracked_iff.mpr ⟨k, hm⟩, (h.keyed k q hm).1⟩

theorem find_pid_none (hf : r.processFindByPid pid = none) (hp : r.Tracked p) :
    (r.procs p).pPid ≠ pid := by
  rintro rfl
  rw [Registry.processFindByPid, uvhashFind_chain, Option.map_eq_none_iff,
    List.head?_eq_none_iff] at hf
  rw [Registry.Tracked, hf] at hp
  cases hp

theorem find_name (h : Linked r) {n : CStr} (hf : r.childConfigFindByName n = some g) :
    g ∈ r.childConfigList ∧ (r.groups g).ccName = n := by
  rw [Registry.childConfigFindByName, uvstrhashFind_chain, h.names, List.head?_map] at hf
  simp only [Option.map_map, Option.map_eq_some_iff, Function.comp_apply] at hf
  obtain ⟨g', hh, rfl⟩ := hf
  simpa using List.mem_of_mem_head? hh

theorem cell_lt (h : Linked r) (hs : InSlot r g i p) : (i : ℤ) < (r.groups g).ccInstances := by
  rw [← h.cells g hs.1]
  have := (List.getElem?_eq_some_iff.mp hs.2).1
  omega

/-- What supervision is for: a partial bijection between instances and processes. -/
def supervision (h : Linked r) : (GroupId × ℕ) ≃. ProcId where
  toFun a := slotProc r a.1 a.2
  invFun p := ownedSlot r p
  inv a p := by
    obtain ⟨g, i⟩ := a
    exact ownedSlot_eq_some.trans ((h.placed g i p).symm.trans slotProc_eq_some.symm)

end Linked

section Operations

variable {r : Registry} {g g' : GroupId} {i j n : ℕ} {p q : ProcId} {k : Kernel} {c : Cell}

theorem setGroup_of_ne {f : ChildConfig → ChildConfig} (h : g' ≠ g) :
    (r.setGroup g f).groups g' = r.groups g' := Function.update_of_ne h ..

@[simp] theorem setGroup_self {f : ChildConfig → ChildConfig} :
    (r.setGroup g f).groups g = f (r.groups g) := Function.update_self ..

theorem setCell_of_ne (h : g' ≠ g) : (r.setCell g i c).groups g' = r.groups g' :=
  setGroup_of_ne h

theorem setCell_self : (r.setCell g i c).groups g =
    { r.groups g with ccChilds := (r.groups g).ccChilds.set i c } := setGroup_self

theorem setGroup_keeps {α : Type*} (get : ChildConfig → α) {f : ChildConfig → ChildConfig}
    (hf : ∀ cc, get (f cc) = get cc) (g' : GroupId) :
    get ((r.setGroup g f).groups g') = get (r.groups g') := by
  by_cases hg : g' = g
  · subst hg
    rw [setGroup_self, hf]
  · rw [setGroup_of_ne hg]

theorem Named.setGroup (h : Named r) {f : ChildConfig → ChildConfig}
    (hf : ∀ cc, (f cc).ccName = cc.ccName) : Named (r.setGroup g f) where
  nodup := h.nodup
  listed := h.listed
  names m := by
    simp only [setGroup_keeps ChildConfig.ccName hf]
    exact h.names m

theorem Named.setCell (h : Named r) : Named (r.setCell g i c) := h.setGroup fun _ => rfl

theorem inSlot_setCell :
    InSlot (r.setCell g i c) g' j q ↔
      if g' = g ∧ j = i then g ∈ r.childConfigList ∧ i < (r.groups g).ccChilds.length ∧ c = .proc q
      else InSlot r g' j q := by
  unfold InSlot Registry.setCell
  by_cases hg : g' = g
  · subst hg
    simp only [setGroup_self, List.getElem?_set, true_and]
    by_cases hj : j = i
    · subst hj
      by_cases hl : j < (r.groups g').ccChilds.length <;>
        simp [hl, Registry.setGroup]
    · simp [Ne.symm hj, hj, Registry.setGroup]
  · rw [setGroup_of_ne hg, if_neg (by tauto)]
    rfl

/-- The slots are as many as the instances. -/
def Sized (r : Registry) : Prop :=
  ∀ g ∈ r.childConfigList, ((r.groups g).ccChilds.length : ℤ) = (r.groups g).ccInstances

theorem Sized.setCell (h : Sized r) : Sized (r.setCell g i c) := by
  intro g' hg'
  have hl := setGroup_keeps (r := r) (g := g) (fun cc => cc.ccChilds.length)
    (f := fun cc => { cc with ccChilds := cc.ccChilds.set i c }) (by simp) g'
  have hi := setGroup_keeps (r := r) (g := g) ChildConfig.ccInstances
    (f := fun cc => { cc with ccChilds := cc.ccChilds.set i c }) (fun _ => rfl) g'
  rw [Registry.setCell, hl, hi]
  exact h g' hg'

/-- Settings other than the name, the count and the slots do not matter. -/
theorem Linked.setGroup (h : Linked r) {f : ChildConfig → ChildConfig}
    (hn : ∀ cc, (f cc).ccName = cc.ccName) (hi : ∀ cc, (f cc).ccInstances = cc.ccInstances)
    (hc : ∀ cc, (f cc).ccChilds = cc.ccChilds) : Linked (r.setGroup g f) where
  toNamed := h.toNamed.setGroup hn
  toHashed := ⟨h.single, h.keyed⟩
  placed g' j q := by
    simp only [InSlot, setGroup_keeps ChildConfig.ccChilds hc]
    exact h.placed g' j q
  cells g' hg' := by
    rw [setGroup_keeps ChildConfig.ccChilds hc, setGroup_keeps ChildConfig.ccInstances hi]
    exact h.cells g' hg'

theorem setProc_keeps {α : Type*} (get : Process → α) {f : Process → Process}
    (hf : ∀ pr, get (f pr) = get pr) (q : ProcId) :
    get ((r.setProc p f).procs q) = get (r.procs q) := by
  by_cases hq : q = p
  · subst hq
    simp [Registry.setProc, hf]
  · simp [Registry.setProc, Function.update_of_ne hq]

theorem tracked_setProc {f : Process → Process} (hf : ∀ pr, (f pr).pPid = pr.pPid) :
    (r.setProc p f).Tracked q ↔ r.Tracked q := by
  unfold Registry.Tracked
  rw [setProc_keeps Process.pPid hf]
  rfl

theorem Hashed.setProc (h : Hashed r) {f : Process → Process}
    (hf : ∀ pr, (f pr).pPid = pr.pPid) : Hashed (r.setProc p f) where
  single := h.single
  keyed pid q hq := by
    rw [setProc_keeps Process.pPid hf]
    exact h.keyed pid q hq

/-- Neither do the fields of a process other than its pid and its place. -/
theorem Linked.setProc (h : Linked r) {f : Process → Process}
    (hp : ∀ pr, (f pr).pPid = pr.pPid) (hg : ∀ pr, (f pr).pChildConfig = pr.pChildConfig)
    (hi : ∀ pr, (f pr).pInstance = pr.pInstance) : Linked (r.setProc p f) where
  toNamed := ⟨h.nodup, h.listed, h.names⟩
  toHashed := h.toHashed.setProc hp
  placed g' j q := by
    simp only [Owns, tracked_setProc hp, setProc_keeps Process.pChildConfig hg,
      setProc_keeps Process.pInstance hi]
    exact h.placed g' j q
  cells := h.cells

theorem Linked.setKernel (h : Linked r)
    (hk : ∀ p, r.Tracked p → (r.procs p).pPid ∈ k.unreaped) : Linked (r.setKernel k) where
  toNamed := ⟨h.nodup, h.listed, h.names⟩
  single := h.single
  keyed pid p hp := by
    obtain ⟨h₁, h₂, -⟩ := h.keyed pid p hp
    have := hk p (h.tracked_iff.mpr ⟨pid, hp⟩)
    exact ⟨h₁, h₂, h₁ ▸ this⟩
  placed := h.placed
  cells := h.cells

/-- A cell that holds no process may be emptied. -/
theorem Linked.clear (h : Linked r) (hc : ∀ q, ¬ InSlot r g i q) :
    Linked (r.setCell g i .null) where
  toNamed := h.toNamed.setGroup fun _ => rfl
  toHashed := ⟨h.single, h.keyed⟩
  placed g' j q := by
    rw [inSlot_setCell]
    split
    · rename_i he
      obtain ⟨rfl, rfl⟩ := he
      constructor
      · rintro ⟨-, -, hq⟩; cases hq
      · intro ho; exact absurd ((h.placed _ _ _).mpr ho) (hc q)
    · exact h.placed g' j q
  cells := Sized.setCell h.cells

theorem tracked_orphan : (r.orphan p).Tracked q ↔ r.Tracked q := tracked_setProc fun _ => rfl

theorem owns_orphan : Owns (r.orphan p) q g i ↔ q ≠ p ∧ Owns r q g i := by
  unfold Owns
  rw [tracked_orphan]
  by_cases hq : q = p
  · subst hq
    simp [Registry.orphan, Registry.setProc]
  · simp [Registry.orphan, Registry.setProc, hq]

theorem inSlot_inj (hp : InSlot r g i p) (hq : InSlot r g i q) : p = q := by
  have := hp.2.symm.trans hq.2
  simpa using this

theorem Linked.place_inj (h : Linked r) (hp : InSlot r g i p) (hq : InSlot r g' j p) :
    g = g' ∧ i = j := by
  have ho := (h.placed _ _ _).mp hp
  have ho' := (h.placed _ _ _).mp hq
  exact ⟨Option.some.inj (ho.2.1.symm.trans ho'.2.1), ho.2.2.symm.trans ho'.2.2⟩

/-- A slot may be given up together with the back pointer of its process. -/
theorem Linked.giveUp (h : Linked r) (hp : InSlot r g i p) :
    Linked ((r.orphan p).setCell g i .null) where
  toNamed := Named.setGroup (r := r.orphan p) ⟨h.nodup, h.listed, h.names⟩ fun _ => rfl
  toHashed :=
    have ho : Hashed (r.orphan p) := h.toHashed.setProc fun _ => rfl
    ⟨ho.single, ho.keyed⟩
  placed g' j q := by
    rw [inSlot_setCell]
    change _ ↔ Owns (r.orphan p) q g' j
    rw [owns_orphan, ← h.placed]
    split
    · rename_i he
      obtain ⟨rfl, rfl⟩ := he
      constructor
      · rintro ⟨-, -, hq⟩; cases hq
      · rintro ⟨hne, hs⟩
        exact absurd (inSlot_inj hs hp) hne
    · rename_i he
      constructor
      · intro hs
        refine ⟨?_, hs⟩
        rintro rfl
        obtain ⟨rfl, rfl⟩ := h.place_inj hp hs
        exact he ⟨rfl, rfl⟩
      · exact fun hs => hs.2
  cells := Sized.setCell (r := r.orphan p) h.cells

theorem getElem?_reallocCells {l : List Cell} :
    (reallocCells l n)[j]? = some (.proc q) ↔ j < n ∧ l[j]? = some (.proc q) := by
  unfold reallocCells
  rw [List.getElem?_append, List.length_take]
  split
  · rename_i hj
    rw [List.getElem?_take_of_lt (by omega)]
    constructor
    · intro h; exact ⟨by omega, h⟩
    · exact fun h => h.2
  · rename_i hj
    rw [List.getElem?_replicate]
    constructor
    · intro h; split at h <;> cases h
    · rintro ⟨hn, h⟩
      have := (List.getElem?_eq_some_iff.mp h).1
      omega

/-- The slots beyond the new count must have been given up before. -/
theorem Linked.resize (h : Linked r) {n : ℤ} (h0 : 0 ≤ n)
    (hn : ∀ i q, n.toNat ≤ i → ¬ InSlot r g i q) :
    Linked (r.setGroup g fun cc =>
      { cc with ccInstances := n, ccChilds := reallocCells cc.ccChilds n.toNat }) where
  toNamed := h.toNamed.setGroup fun _ => rfl
  toHashed := ⟨h.single, h.keyed⟩
  placed g' j q := by
    change _ ↔ Owns r q g' j
    rw [← h.placed]
    by_cases hg : g' = g
    · subst hg
      have hj : InSlot r g' j q → j < n.toNat := fun hs => by
        by_contra hge
        exact hn j q (by omega) hs
      simp only [InSlot, setGroup_self, getElem?_reallocCells] at hj ⊢
      constructor
      · rintro ⟨hl, -, hc⟩; exact ⟨hl, hc⟩
      · rintro ⟨hl, hc⟩; exact ⟨hl, hj ⟨hl, hc⟩, hc⟩
    · simp only [InSlot, setGroup_of_ne hg]
      rfl
  cells g' hg' := by
    by_cases hg : g' = g
    · subst hg
      rw [setGroup_self]
      simp only [reallocCells, List.length_append, List.length_take, List.length_replicate]
      omega
    · rw [setGroup_of_ne hg]
      exact h.cells g' hg'

/-! The tables of groups and processes grow and shrink. -/

theorem insert_of_ne {cc : ChildConfig} (h : g ≠ r.nextGroup) :
    (r.childConfigInsert cc).groups g = r.groups g := Function.update_of_ne h ..

@[simp] theorem insert_self {cc : ChildConfig} :
    (r.childConfigInsert cc).groups r.nextGroup = cc := Function.update_self ..

theorem Linked.insert (h : Linked r) {cc : ChildConfig}
    (hl : (cc.ccChilds.length : ℤ) = cc.ccInstances) (hc : ∀ c ∈ cc.ccChilds, c = .null) :
    Linked (r.childConfigInsert cc) where
  nodup := List.nodup_cons.mpr ⟨fun hg => absurd (h.listed _ hg) (lt_irrefl _), h.nodup⟩
  listed g hg := by
    rcases List.mem_cons.mp hg with rfl | hg
    · exact Nat.lt_succ_self _
    · exact Nat.lt_succ_of_lt (h.listed g hg)
  names m := by
    have hold : ∀ g ∈ r.childConfigList,
        ((r.childConfigInsert cc).groups g).ccName = (r.groups g).ccName := fun g hg => by
      rw [insert_of_ne (h.listed g hg).ne]
    have hfilter : (r.childConfigList.filter fun g =>
        ((r.childConfigInsert cc).groups g).ccName = m) =
        r.childConfigList.filter fun g => (r.groups g).ccName = m :=
      List.filter_congr fun g hg => by rw [hold g hg]
    have hchain : (r.childConfigInsert cc).childConfigHash.chain m =
        if cc.ccName = m then (⟨r.nextGroup, cc.ccName⟩, r.nextGroup) :: r.childConfigHash.chain m
        else r.childConfigHash.chain m := BucketTable.chain_insert ..
    have hlist : (r.childConfigInsert cc).childConfigList = r.nextGroup :: r.childConfigList := rfl
    rw [hchain, h.names m, hlist, List.filter_cons, insert_self, hfilter]
    by_cases hm : cc.ccName = m <;> simp [hm]
  single := h.single
  keyed := h.keyed
  placed g j q := by
    change _ ↔ Owns r q g j
    rw [← h.placed]
    by_cases hg : g = r.nextGroup
    · subst hg
      simp only [InSlot, insert_self]
      constructor
      · rintro ⟨-, hs⟩
        have := hc _ (List.mem_of_getElem? hs)
        cases this
      · rintro ⟨hl, -⟩
        exact absurd (h.listed _ hl) (lt_irrefl _)
    · simp only [InSlot, insert_of_ne hg]
      have : g ∈ (r.childConfigInsert cc).childConfigList ↔ g ∈ r.childConfigList := by
        simp [Registry.childConfigInsert, hg]
      rw [this]
  cells g hg := by
    by_cases hn : g = r.nextGroup
    · subst hn
      rw [insert_self]
      exact hl
    · rw [insert_of_ne hn]
      exact h.cells g ((List.mem_cons.mp hg).resolve_left hn)

theorem insertProc_of_ne {pr : Process} (h : q ≠ r.nextProc) :
    (r.processInsert pr).procs q = r.procs q := Function.update_of_ne h ..

@[simp] theorem insertProc_self {pr : Process} :
    (r.processInsert pr).procs r.nextProc = pr := Function.update_self ..

theorem tracked_processInsert {pr : Process} :
    (r.processInsert pr).Tracked q ↔ q = r.nextProc ∨ r.Tracked q := by
  unfold Registry.Tracked
  by_cases hq : q = r.nextProc
  · subst hq
    simp [Registry.processInsert, uvhashInsert, BucketTable.chain_insert]
  · rw [insertProc_of_ne hq]
    simp only [Registry.processInsert, uvhashInsert, BucketTable.chain_insert, hq, false_or]
    split <;> simp [hq]

theorem startProcess_of_ne {pr : Process} (h : g' ≠ g) :
    (r.startProcess k pr g i).groups g' = r.groups g' := Function.update_of_ne h ..

theorem startProcess_self {pr : Process} : (r.startProcess k pr g i).groups g =
    { r.groups g with ccChilds := (r.groups g).ccChilds.set i (.proc r.nextProc) } :=
  Function.update_self ..

/-- The kernel gives out a pid that the table does not have. -/
theorem Hashed.chain_free (h : Hashed r) {pid : Pid}
    (hf : r.kernel.fork (some pid) = some (pid, k)) : r.processHash.chain pid = [] := by
  have hfree : pid ∉ r.kernel.unreaped := (Kernel.fork_eq_some hf).2.2.1
  rw [List.eq_nil_iff_forall_not_mem]
  rintro ⟨pid', p⟩ hp
  have hk : pid' = pid := (BucketTable.mem_chain.mp hp).2
  subst hk
  exact hfree (h.keyed _ _ hp).2.2

theorem chain_processInsert {pr : Process} (pid : Pid) :
    (r.processInsert pr).processHash.chain pid =
      if pr.pPid = pid then (pr.pPid, r.nextProc) :: r.processHash.chain pid
      else r.processHash.chain pid :=
  BucketTable.chain_insert r.processHash pr.pPid r.nextProc pid

/-- The table of processes with a new one. -/
theorem Hashed.fork (h : Hashed r) {pid : Pid} {pr : Process}
    (hf : r.kernel.fork (some pid) = some (pid, k)) (hpid : pr.pPid = pid) :
    Hashed ((r.setKernel k).processInsert pr) where
  single pid' := by
    rw [chain_processInsert]
    split
    · rename_i he
      rw [hpid] at he
      change ((pr.pPid, r.nextProc) :: r.processHash.chain pid').length ≤ 1
      rw [← he, h.chain_free hf]
      exact Nat.le_refl 1
    · exact h.single pid'
  keyed pid' p hp := by
    have hold : (pid', p) ∈ r.processHash.chain pid' →
        (((r.setKernel k).processInsert pr).procs p).pPid = pid' ∧ p < r.nextProc + 1 ∧
          pid' ∈ k.unreaped := by
      intro hp
      obtain ⟨h₁, h₂, h₃⟩ := h.keyed pid' p hp
      refine ⟨?_, Nat.lt_succ_of_lt h₂, (Kernel.mem_unreaped_fork hf pid').mpr (.inr h₃)⟩
      rw [insertProc_of_ne (r := r.setKernel k) h₂.ne]
      exact h₁
    rw [chain_processInsert] at hp
    split at hp
    · rename_i he
      rcases List.mem_cons.mp hp with hp | hp
      · obtain ⟨-, rfl⟩ := Prod.mk.inj hp
        rw [hpid] at he
        refine ⟨?_, Nat.lt_succ_self _, (Kernel.mem_unreaped_fork hf pid').mpr (.inl he.symm)⟩
        rw [insertProc_self, hpid, he]
      · exact hold hp
    · exact hold hp

/-- The new process has its slot, and the others keep theirs. -/
theorem owns_startProcess {pr : Process} (hcfg : pr.pChildConfig = some g)
    (hinst : pr.pInstance = i) : Owns (r.startProcess k pr g i) q g' j ↔
      if q = r.nextProc then g' = g ∧ j = i else Owns r q g' j := by
  have htracked : (r.startProcess k pr g i).Tracked q ↔ q = r.nextProc ∨ r.Tracked q :=
    tracked_processInsert (r := r.setKernel k)
  have hprocs : (r.startProcess k pr g i).procs = Function.update r.procs r.nextProc pr := rfl
  unfold Owns
  rw [htracked, hprocs]
  split
  · rename_i hq
    subst hq
    rw [Function.update_self, hcfg, hinst]
    simp [eq_comm]
  · rename_i hq
    rw [Function.update_of_ne hq]
    simp [hq]

/-- A new process with a pid that was free gets a slot that was empty. -/
theorem Linked.startProcess (h : Linked r) {pid : Pid} {pr : Process}
    (hf : r.kernel.fork (some pid) = some (pid, k)) (hpid : pr.pPid = pid)
    (hcfg : pr.pChildConfig = some g) (hinst : pr.pInstance = i)
    (hg : g ∈ r.childConfigList) (hi : i < (r.groups g).ccChilds.length)
    (hc : ∀ q, ¬ InSlot r g i q) : Linked (r.startProcess k pr g i) where
  toNamed := Named.setCell (r := (r.setKernel k).processInsert pr) ⟨h.nodup, h.listed, h.names⟩
  toHashed := ⟨(h.toHashed.fork hf hpid).single, (h.toHashed.fork hf hpid).keyed⟩
  placed g' j q := by
    have hnew : ¬ r.Tracked r.nextProc := fun ht => lt_irrefl _ (h.tracked_lt ht)
    rw [owns_startProcess hcfg hinst]
    change InSlot (((r.setKernel k).processInsert pr).setCell g i _) g' j q ↔ _
    rw [inSlot_setCell]
    change (if _ then g ∈ r.childConfigList ∧ i < (r.groups g).ccChilds.length ∧ _
      else InSlot r g' j q) ↔ _
    by_cases hq : q = r.nextProc
    · subst hq
      rw [if_pos rfl]
      split
      · rename_i he
        simp [he, hg, hi]
      · rename_i he
        exact ⟨fun hs => absurd ((h.placed _ _ _).mp hs).1 hnew, fun h => absurd h he⟩
    · rw [if_neg hq, ← h.placed]
      split
      · rename_i he
        obtain ⟨rfl, rfl⟩ := he
        constructor
        · rintro ⟨-, -, hp⟩
          exact absurd (Cell.proc.inj hp).symm hq
        · intro hs
          exact absurd hs (hc q)
      · rfl
  cells := Sized.setCell (r := (r.setKernel k).processInsert pr) h.cells

theorem Hashed.chain_processRemove (h : Hashed r) (pid : Pid) :
    (r.processRemove p).processHash.chain pid =
      if pid = (r.procs p).pPid then [] else r.processHash.chain pid := by
  rw [Registry.processRemove, chain_uvhashRemove]
  split
  · have := h.single (r.procs p).pPid
    rw [← List.length_eq_zero_iff, List.length_tail]
    omega
  · rfl

theorem tracked_processRemove (h : Linked r) (hp : r.Tracked p) :
    (r.processRemove p).Tracked q ↔ q ≠ p ∧ r.Tracked q := by
  change ((r.procs q).pPid, q) ∈ (r.processRemove p).processHash.chain (r.procs q).pPid ↔ _
  rw [h.chain_processRemove]
  split
  · rename_i he
    constructor
    · intro h; cases h
    · rintro ⟨hne, ht⟩; exact absurd (h.tracked_inj ht hp he) hne
  · rename_i he
    constructor
    · intro ht
      refine ⟨?_, ht⟩
      rintro rfl
      exact he rfl
    · exact fun ht => ht.2

/-- The table of processes when the kernel has given one of them back. -/
theorem Linked.hashed_reap (h : Linked r)
    (hk : ∀ q, r.Tracked q → q ≠ p → (r.procs q).pPid ∈ k.unreaped) :
    Hashed ((r.setKernel k).processRemove p) where
  single pid := by
    change ((r.processRemove p).processHash.chain pid).length ≤ 1
    rw [h.chain_processRemove]
    split
    · exact Nat.zero_le 1
    · exact h.single pid
  keyed pid q hq := by
    change (pid, q) ∈ (r.processRemove p).processHash.chain pid at hq
    rw [h.chain_processRemove] at hq
    split at hq
    · cases hq
    · rename_i he
      obtain ⟨h₁, h₂, -⟩ := h.keyed pid q hq
      have hne : q ≠ p := by rintro rfl; exact he h₁.symm
      exact ⟨h₁, h₂, h₁ ▸ hk q (h.tracked_iff.mpr ⟨pid, hq⟩) hne⟩

theorem Linked.reapOrphan (h : Linked r) (hp : r.Tracked p)
    (hcfg : (r.procs p).pChildConfig = none)
    (hk : ∀ q, r.Tracked q → q ≠ p → (r.procs q).pPid ∈ k.unreaped) :
    Linked ((r.setKernel k).processRemove p) where
  toNamed := ⟨h.nodup, h.listed, h.names⟩
  toHashed := h.hashed_reap hk
  placed g j q := by
    change InSlot r g j q ↔ (r.processRemove p).Tracked q ∧ _ ∧ _
    rw [tracked_processRemove h hp, h.placed, Owns]
    constructor
    · rintro ⟨ht, hc, hi⟩
      refine ⟨⟨?_, ht⟩, hc, hi⟩
      rintro rfl
      rw [hcfg] at hc
      cases hc
    · rintro ⟨⟨-, ht⟩, hc, hi⟩; exact ⟨ht, hc, hi⟩
  cells := h.cells

/-- The slot of a process that has ended is emptied. -/
theorem Linked.reapOwned (h : Linked r) (hs : InSlot r g i p)
    (hk : ∀ q, r.Tracked q → q ≠ p → (r.procs q).pPid ∈ k.unreaped) :
    Linked (((r.setKernel k).processRemove p).setCell g i .null) where
  toNamed := Named.setCell (r := (r.setKernel k).processRemove p) ⟨h.nodup, h.listed, h.names⟩
  toHashed :=
    have hr := h.hashed_reap hk
    ⟨hr.single, hr.keyed⟩
  placed g' j q := by
    have hp := ((h.placed _ _ _).mp hs).1
    rw [inSlot_setCell]
    change (if _ then _ else InSlot r g' j q) ↔ (r.processRemove p).Tracked q ∧ _ ∧ _
    rw [tracked_processRemove h hp, and_assoc]
    change _ ↔ q ≠ p ∧ Owns r q g' j
    rw [← h.placed]
    split
    · rename_i he
      obtain ⟨rfl, rfl⟩ := he
      constructor
      · rintro ⟨-, -, hq⟩; cases hq
      · rintro ⟨hne, hq⟩; exact absurd (inSlot_inj hq hs) hne
    · rename_i he
      constructor
      · intro hq
        refine ⟨?_, hq⟩
        rintro rfl
        obtain ⟨rfl, rfl⟩ := h.place_inj hs hq
        exact he ⟨rfl, rfl⟩
      · exact fun hq => hq.2
  cells := Sized.setCell (r := (r.setKernel k).processRemove p) h.cells

theorem mem_slotProcs {cc : ChildConfig} (hc : (cc.ccChilds.length : ℤ) = cc.ccInstances) :
    p ∈ cc.slotProcs ↔ ∃ i : ℕ, cc.ccChilds[i]? = some (Cell.proc p) := by
  unfold ChildConfig.slotProcs ChildConfig.cell
  rw [List.mem_filterMap]
  constructor
  · rintro ⟨i, hi, hp⟩
    refine ⟨i, ?_⟩
    rw [List.getD_eq_getElem?_getD] at hp
    cases hx : cc.ccChilds[i]? with
    | none => simp [hx] at hp
    | some c => cases c <;> simp_all
  · rintro ⟨i, hi⟩
    have hlt := (List.getElem?_eq_some_iff.mp hi).1
    refine ⟨i, by rw [List.mem_range]; omega, ?_⟩
    simp [List.getD_eq_getElem?_getD, hi]

theorem orphanAll_procs (ps : List ProcId) (r : Registry) :
    (r.orphanAll ps).procs q =
      if q ∈ ps then { r.procs q with pChildConfig := none } else r.procs q := by
  induction ps generalizing r with
  | nil => simp [Registry.orphanAll]
  | cons p ps ih =>
    change ((r.orphan p).orphanAll ps).procs q = _
    rw [ih]
    by_cases hq : q = p
    · subst hq
      simp [Registry.orphan, Registry.setProc]
    · simp [Registry.orphan, Registry.setProc, hq]

theorem orphanAll_keeps (ps : List ProcId) (r : Registry) :
    r.orphanAll ps = { r with procs := (r.orphanAll ps).procs } := by
  induction ps generalizing r with
  | nil => rfl
  | cons p ps ih =>
    change (r.orphan p).orphanAll ps = _
    rw [ih]
    rfl

theorem Named.remove (h : Named r) (hg : g ∈ r.childConfigList) :
    Named (r.childConfigRemove g) where
  nodup := h.nodup.erase g
  listed g' hg' := h.listed g' (List.mem_of_mem_erase hg')
  names m := by
    have hkey : ∀ e ∈ r.childConfigHash.entries,
        (e.1.addr == g) = true → e.1.str = (r.groups g).ccName := by
      rintro ⟨⟨a, n⟩, v⟩ he ha
      rw [BucketTable.mem_entries, h.names, List.mem_map] at he
      obtain ⟨g', hg', heq⟩ := he
      simp only [Prod.mk.injEq, StrPtr.mk.injEq, List.mem_filter, decide_eq_true_eq] at heq hg'
      have : a = g := by simpa using ha
      rw [← this, ← heq.1.1, hg'.2]
    have hchain : (r.childConfigRemove g).childConfigHash.chain m =
        if m = (r.groups g).ccName then
          (r.childConfigHash.chain (r.groups g).ccName).eraseP fun e => e.1.addr == g
        else r.childConfigHash.chain m :=
      BucketTable.chain_remove (p := fun x : StrPtr => x.addr == g) _ hkey m
    have hlist : (r.childConfigRemove g).childConfigList = r.childConfigList.erase g := rfl
    have hgroups : (r.childConfigRemove g).groups = r.groups := rfl
    rw [hchain, hlist, hgroups]
    split
    · rename_i hm
      have herase : ∀ l : List GroupId, l.Nodup →
          (l.map fun g' => ((⟨g', m⟩ : StrPtr), g')).eraseP (fun e => e.1.addr == g) =
            (l.erase g).map fun g' => (⟨g', m⟩, g') := by
        intro l hl
        rw [List.eraseP_map, List.erase_eq_eraseP']
        rfl
      rw [← hm, h.names, herase _ (h.nodup.filter _), (h.nodup.filter _).erase_eq_filter,
        h.nodup.erase_eq_filter, List.filter_comm]
    · rename_i hm
      have hne : ∀ g' ∈ r.childConfigList, (r.groups g').ccName = m → g' ≠ g := by
        rintro g' - hn rfl
        exact hm hn.symm
      rw [h.names, h.nodup.erase_eq_filter, List.filter_filter]
      congr 1
      apply List.filter_congr
      intro g' hg'
      by_cases hn : (r.groups g').ccName = m
      · simp [hn, hne g' hg' hn]
      · simp [hn]

/-- Deleting a group cuts its processes loose. -/
theorem Linked.delete (h : Linked r) (hg : g ∈ r.childConfigList) :
    Linked ((r.childConfigRemove g).orphanAll (r.groups g).slotProcs) := by
  have hmem : ∀ p, p ∈ (r.groups g).slotProcs ↔ ∃ i, InSlot r g i p := fun p => by
    rw [mem_slotProcs (h.cells g hg)]
    exact exists_congr fun i => (and_iff_right hg).symm
  have hprocs := fun q => orphanAll_procs (q := q) (r.groups g).slotProcs (r.childConfigRemove g)
  have hpid : ∀ q, (((r.childConfigRemove g).orphanAll (r.groups g).slotProcs).procs q).pPid =
      (r.procs q).pPid := fun q => by
    rw [hprocs]
    split <;> rfl
  have htr : ∀ q, ((r.childConfigRemove g).orphanAll (r.groups g).slotProcs).Tracked q ↔
      r.Tracked q := fun q => by
    unfold Registry.Tracked
    rw [hpid, orphanAll_keeps]
    rfl
  have howns : ∀ q g' j, Owns ((r.childConfigRemove g).orphanAll (r.groups g).slotProcs) q g' j ↔
      q ∉ (r.groups g).slotProcs ∧ Owns r q g' j := fun q g' j => by
    unfold Owns
    rw [htr, hprocs]
    by_cases hq : q ∈ (r.groups g).slotProcs <;> simp [hq, Registry.childConfigRemove]
  have hslot : ∀ g' j q, InSlot ((r.childConfigRemove g).orphanAll (r.groups g).slotProcs) g' j q ↔
      g' ≠ g ∧ InSlot r g' j q := fun g' j q => by
    rw [orphanAll_keeps]
    change g' ∈ r.childConfigList.erase g ∧ _ ↔ _
    rw [h.nodup.mem_erase_iff, and_assoc]
    rfl
  exact {
    toNamed := by
      rw [orphanAll_keeps]
      have := h.toNamed.remove hg
      exact ⟨this.nodup, this.listed, this.names⟩
    single := by
      rw [orphanAll_keeps]
      exact h.single
    keyed := by
      intro pid q hq
      rw [hpid]
      rw [orphanAll_keeps] at hq ⊢
      exact h.keyed pid q hq
    placed := by
      intro g' j q
      rw [howns, hslot, ← h.placed, hmem]
      constructor
      · rintro ⟨hne, hs⟩
        refine ⟨?_, hs⟩
        rintro ⟨i, hi⟩
        exact hne (h.place_inj hs hi).1
      · rintro ⟨hno, hs⟩
        refine ⟨?_, hs⟩
        rintro rfl
        exact hno ⟨j, hs⟩
    cells := by
      rw [orphanAll_keeps]
      intro g' hg'
      exact h.cells g' (List.mem_of_mem_erase hg') }

end Operations

end UbervisorSupervision
