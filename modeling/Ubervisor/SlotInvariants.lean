import Ubervisor.GroupSteps
import Ubervisor.JsonC

/-! # What the slots hold along a run

Slots and processes stay in bijection, slots hold defined values as long as no start of an
added instance fails, and a running group has a process for every instance as long as no
start fails at all. -/
namespace UbervisorSlotInvariants

open UbervisorBucketTable
open UbervisorRuns
open UbervisorValues
open UbervisorChildConfigs
open UbervisorKernel
open UbervisorRegistry
open UbervisorServer
open UbervisorCommands
open UbervisorEvents
open UbervisorSupervision
open UbervisorSlots
open UbervisorUpdates
open UbervisorExits
open UbervisorEffects
open UbervisorGroupSteps
open UbervisorJsonC

variable {P : Platform} {s u : Server} {e : Event} {g : GroupId}

/-- The entry tells of a `spawn` from a site in `K` that failed. -/
def FailedAt (K : SpawnSite → Prop) : Hist → Prop
  | .spawnFailed site _ _ => K site
  | _ => False

instance (K : SpawnSite → Prop) [DecidablePred K] : DecidablePred (FailedAt K)
  | .spawnFailed site _ _ => inferInstanceAs (Decidable (K site))
  | .created _ | .deleted _ | .spawned .. | .exited .. | .orphanExited .. | .broken .. | .fatal _
  | .resized .. | .statusSet .. => inferInstanceAs (Decidable False)

/-- No `spawn` called from a site in `K` has failed. -/
def Unfailed (K : SpawnSite → Prop) (h : List Hist) : Prop := ∀ x ∈ h, ¬ FailedAt K x

instance (K : SpawnSite → Prop) [DecidablePred K] (h : List Hist) : Decidable (Unfailed K h) :=
  inferInstanceAs (Decidable (∀ x ∈ h, ¬ FailedAt K x))

/-- No `spawn` called from a site in `K` fails in this step. -/
def Succeeds (K : SpawnSite → Prop) (s : Server) (_ : Event) (u : Server) : Prop :=
  Unfailed K (newHist s u)

instance (K : SpawnSite → Prop) [DecidablePred K] (s : Server) (e : Event) (u : Server) :
    Decidable (Succeeds K s e u) := inferInstanceAs (Decidable (Unfailed K _))

def AnySite : SpawnSite → Prop := fun _ => True

instance : DecidablePred AnySite := fun _ => isTrue trivial

theorem Unfailed.of_le {K : SpawnSite → Prop} {h h' : List Hist} (hf : Unfailed K h')
    (hle : h <+: h') : Unfailed K h := fun x hx => hf x (hle.subset hx)

theorem step_unfailed {K : SpawnSite → Prop} (hl : Linked s.reg) (h : Step P s e u)
    (hs : Unfailed K s.hist) (hq : Succeeds K s e u) : Unfailed K u.hist := by
  intro x hx
  rw [step_hist hl h] at hx
  rcases List.mem_append.mp hx with hx | hx
  · exact hs x hx
  · exact hq x hx

/-- An invariant that every effect keeps when nothing in `K` fails holds along all runs in
which nothing in `K` fails. -/
theorem ReachableBy.invariant {K : SpawnSite → Prop} {I : Server → Prop}
    (hinit : ∀ a b t, I (initial a b t)) (hcalm : ∀ s x, Calm s x → I s → I x)
    (keep : ∀ s e u, Linked s.reg → Linked u.reg → Unfailed K u.hist → Effect P s e u → I s → I u)
    (h : ReachableBy P (Succeeds K) s) : I s := by
  obtain ⟨a, b, t, h⟩ := h
  have hall : (Linked s.reg ∧ Unfailed K s.hist) ∧ I s := by
    refine h.invariant (P := fun s => (Linked s.reg ∧ Unfailed K s.hist) ∧ I s) ?_ ?_
    · rintro s e u ⟨⟨hl, hf⟩, hi⟩ hstep hq
      have hl' := step_linked hl hstep
      have hf' := step_unfailed hl hstep hf hq
      obtain ⟨x, hx, he⟩ := step_effect hl hstep
      exact ⟨⟨hl', hf'⟩, keep x e u (by rw [hx.reg]; exact hl) hl' hf' he (hcalm s x hx hi)⟩
    · refine ⟨⟨Registry.linked_init, fun _ hx => ?_⟩, hinit a b t⟩
      cases hx
  exact hall.2

/-- Every slot holds a defined value. -/
def Defined (s : Server) : Prop :=
  ∀ g ∈ s.reg.childConfigList, ∀ i, cellAt s g i ≠ some .unset

/-- A running group has a process in every slot. -/
def Complete (s : Server) : Prop :=
  ∀ g ∈ s.reg.childConfigList, (s.reg.groups g).ccStatus = statusRunning →
    ∀ i : ℕ, i < (s.reg.groups g).ccInstances → ∃ p, cellAt s g i = some (.proc p)

theorem cellAt_congr (h : u.reg.groups g = s.reg.groups g) (i : ℕ) :
    cellAt u g i = cellAt s g i := by
  rw [cellAt, h, cellAt]

theorem cellAt_none (hl : Linked s.reg) (hg : g ∈ s.reg.childConfigList) {i : ℕ}
    (hi : (s.reg.groups g).ccInstances ≤ i) : cellAt s g i = none := by
  have := hl.cells g hg
  exact List.getElem?_eq_none (by omega)

section Cells

variable {site : SpawnSite} {j : ℕ} {h : List Hist} {o o' : Option Cell}

theorem filled_defined (hf : Filled site g j h o o') (ho : o ≠ some .unset) :
    o' ≠ some .unset := by
  rcases hf with ⟨p, rfl⟩ | ⟨rfl, -⟩
  · simp
  · exact ho

/-- A start that was not recorded as failed has filled the slot. -/
theorem filled_proc {K : SpawnSite → Prop} (hf : Filled site g j h o o') (ho : o ≠ none)
    (hu : Unfailed K h) (hk : K site) : ∃ p, o' = some (.proc p) := by
  rcases hf with hp | ⟨-, hfail⟩
  · exact hp
  · exact absurd hk (hu _ (hfail ho))

theorem started_defined (hs : Started g j h o o') (ho : o ≠ some .unset) : o' ≠ some .unset := by
  by_cases hn : o = some .null
  · exact filled_defined (hs.1 hn) ho
  · rw [hs.2 hn]
    exact ho

end Cells

/-- The cells of an updated group, when no start of an added instance failed. -/
theorem updated_defined {cc : ChildConfig} (h : Updated cc g s u) (hl : Linked u.reg)
    (hg : g ∈ u.reg.childConfigList) (hf : Unfailed (· = .grow) u.hist)
    (hd : ∀ i, cellAt s g i ≠ some .unset) (i : ℕ) : cellAt u g i ≠ some .unset := by
  by_cases hi : (u.reg.groups g).ccInstances ≤ i
  · rw [cellAt_none hl hg hi]
    simp
  · obtain ⟨mid, hold, hnew, hturn⟩ := h.cells i (by omega)
    have hmid : mid ≠ some .unset := by
      by_cases hk : (i : ℤ) < (s.reg.groups g).ccInstances
      · rw [hold hk]
        exact hd i
      · have hgrown := hnew (by omega)
        by_cases hr : (s.reg.groups g).ccStatus = statusRunning
        · obtain ⟨p, hp⟩ := filled_proc (hgrown.1 hr) (by simp) hf rfl
          rw [hp]
          simp
        · rw [hgrown.2 hr]
          simp
    by_cases hr : Restarts cc (s.reg.groups g).ccStatus
    · exact started_defined (hturn.1 hr) hmid
    · rw [hturn.2 hr]
      exact hmid

theorem created_defined {site : SpawnSite} {cc : ChildConfig} (h : Created site cc s u)
    (hd : Defined s) (hl : Linked s.reg) : Defined u := by
  intro g hg i
  rw [h.list, List.mem_cons] at hg
  rcases hg with rfl | hg
  · by_cases hi : (u.reg.groups s.reg.nextGroup).ccInstances ≤ i
    · rw [cellAt_none h.linked (by rw [h.list]; simp) hi]
      simp
    · have hinst := h.instances
      by_cases hr : cc.ccStatus = statusRunning
      · exact filled_defined (h.started hr i (by omega)) (by simp)
      · rw [h.empty hr i (by omega)]
        simp
  · rw [cellAt_congr (h.groups g (hl.listed g hg).ne)]
    exact hd g hg i

theorem effect_defined (hl : Linked s.reg) (hl' : Linked u.reg)
    (hf : Unfailed (· = .grow) u.hist) (h : Effect P s e u) (hd : Defined s) : Defined u := by
  cases h with
  | kernel _ hr _ _ =>
    intro g hg i
    rw [cellAt, hr]
    rw [hr] at hg
    exact hd g hg i
  | process _ _ hr _ _ _ _ =>
    intro g hg i
    rw [cellAt, hr]
    rw [hr] at hg
    exact hd g hg i
  | orphanExit _ _ _ _ hr _ _ =>
    intro g hg i
    rw [cellAt, hr]
    rw [hr] at hg
    exact hd g hg i
  | deleted _ g' _ _ hr _ =>
    intro g hg i
    rw [orphanAll_keeps] at hr
    rw [cellAt, hr]
    rw [hr] at hg
    exact hd g (List.mem_of_mem_erase hg) i
  | created cc _ h => exact created_defined h hd hl
  | loaded _ _ h =>
    have hboth : Defined u ∧ Linked u.reg := by
      clear hl' hf
      induction h with
      | refl => exact ⟨hd, hl⟩
      | tail _ hstep ih =>
        rcases hstep with hc | ⟨cc, -, hc⟩
        · refine ⟨?_, by rw [hc.reg]; exact ih.2⟩
          intro g hg i
          rw [cellAt, hc.reg]
          rw [hc.reg] at hg
          exact ih.1 g hg i
        · exact ⟨created_defined hc ih.1 ih.2, hc.linked⟩
    exact hboth.1
  | updated cc g' _ hlisted h =>
    intro g hg i
    rw [h.list] at hg
    by_cases hgg : g = g'
    · subst hgg
      exact updated_defined h hl' (by rw [h.list]; exact hg) hf (hd g hg) i
    · rw [cellAt_congr (h.concerns.groups g hgg)]
      exact hd g hg i
  | exited g' i' p ret _ h =>
    intro g hg i
    rw [h.list] at hg
    by_cases hgg : g = g'
    · subst hgg
      by_cases hi : i = i'
      · subst hi
        by_cases hr : (counted ret s.clock (s.reg.groups g)).ccStatus = statusRunning
        · exact filled_defined (h.restarted hr) (by simp)
        · rw [h.stays hr]
          simp
      · rw [h.others i hi]
        exact hd g hg i
    · rw [cellAt_congr (h.groups g hgg)]
      exact hd g hg i

/-- The cells of an updated group that runs, when no start failed. -/
theorem updated_complete {cc : ChildConfig} (h : Updated cc g s u) (hl : Linked s.reg)
    (hg : g ∈ s.reg.childConfigList) (hf : Unfailed AnySite u.hist) (hd : Defined s)
    (hc : Complete s) (hr : (u.reg.groups g).ccStatus = statusRunning) (i : ℕ)
    (hi : i < (u.reg.groups g).ccInstances) : ∃ p, cellAt u g i = some (.proc p) := by
  obtain ⟨mid, hold, hnew, hturn⟩ := h.cells i hi
  have hst := h.status
  by_cases hs : (s.reg.groups g).ccStatus = statusRunning
  · rw [hturn.2 fun hre => hre.1 hs]
    by_cases hk : (i : ℤ) < (s.reg.groups g).ccInstances
    · rw [hold hk]
      exact hc g hg hs i hk
    · exact filled_proc ((hnew (by omega)).1 hs) (by simp) hf trivial
  · have hre : Restarts cc (s.reg.groups g).ccStatus := by
      refine ⟨hs, ?_⟩
      rw [hst, intOr] at hr
      split at hr
      · exact hr
      · exact absurd hr hs
    have hmid : mid = some .null ∨ ∃ p, mid = some (.proc p) := by
      by_cases hk : (i : ℤ) < (s.reg.groups g).ccInstances
      · rw [hold hk]
        have hlen := hl.cells g hg
        have hsome : ∃ c, cellAt s g i = some c :=
          ⟨_, List.getElem?_eq_getElem (by omega : i < (s.reg.groups g).ccChilds.length)⟩
        obtain ⟨c, hcell⟩ := hsome
        cases c with
        | unset => exact absurd hcell (hd g hg i)
        | null => exact .inl hcell
        | proc p => exact .inr ⟨p, hcell⟩
      · have hgrown := (hnew (by omega)).2 hs
        exact .inl hgrown
    rcases hmid with hmid | ⟨p, hmid⟩
    · exact filled_proc ((hturn.1 hre).1 hmid) (by rw [hmid]; simp) hf trivial
    · rw [(hturn.1 hre).2 (by rw [hmid]; simp), hmid]
      exact ⟨p, rfl⟩

theorem created_complete {site : SpawnSite} {cc : ChildConfig} (h : Created site cc s u)
    (hl : Linked s.reg) (hf : Unfailed AnySite u.hist) (hc : Complete s) : Complete u := by
  intro g hg hr i hi
  rw [h.list, List.mem_cons] at hg
  rcases hg with rfl | hg
  · have hinst := h.instances
    exact filled_proc (h.started (by rw [← h.status]; exact hr) i (by omega)) (by simp) hf trivial
  · have hold := h.groups g (hl.listed g hg).ne
    rw [hold] at hr hi
    rw [cellAt_congr hold]
    exact hc g hg hr i hi

theorem loading_complete {R : List ChildConfig}
    (h : Relation.ReflTransGen (Loading R) s u) (hl : Linked s.reg)
    (hf : Unfailed AnySite u.hist) (hc : Complete s) : Complete u := by
  induction h with
  | refl => exact hc
  | @tail v w hrun hstep ih =>
    have hv : Linked v.reg := loading_linked hrun hl
    rcases hstep with hcalm | ⟨cc, -, hcr⟩
    · have hiv := ih (by rw [← hcalm.hist]; exact hf)
      intro g hg hr i hi
      rw [hcalm.reg] at hg hr hi
      rw [cellAt, hcalm.reg]
      exact hiv g hg hr i hi
    · have hle : v.hist <+: w.hist := by
        obtain ⟨l, hl, -⟩ := hcr.hist
        exact ⟨l, hl.symm⟩
      exact created_complete hcr hv hf (ih (hf.of_le hle))

/-- Only a group that was running can run on after the end of one of its processes. -/
theorem counted_running {ret : WaitStatus} {t : ℤ} {cc : ChildConfig}
    (h : (counted ret t cc).ccStatus = statusRunning) : cc.ccStatus = statusRunning := by
  unfold counted at h
  split at h
  · cases h
  · split at h
    · exact h
    · exact h

theorem effect_complete (hl : Linked s.reg) (hf : Unfailed AnySite u.hist) (h : Effect P s e u)
    (hd : Defined s) (hc : Complete s) : Complete u := by
  cases h with
  | kernel _ hr _ _ =>
    intro g hg hst i hi
    rw [hr] at hg hst hi
    rw [cellAt, hr]
    exact hc g hg hst i hi
  | process _ _ hr _ _ _ _ =>
    intro g hg hst i hi
    rw [hr] at hg hst hi
    rw [cellAt, hr]
    exact hc g hg hst i hi
  | orphanExit _ _ _ _ hr _ _ =>
    intro g hg hst i hi
    rw [hr] at hg hst hi
    rw [cellAt, hr]
    exact hc g hg hst i hi
  | deleted _ g' _ _ hr _ =>
    intro g hg hst i hi
    rw [orphanAll_keeps] at hr
    rw [hr] at hg hst hi
    rw [cellAt, hr]
    exact hc g (List.mem_of_mem_erase hg) hst i hi
  | created cc _ h => exact created_complete h hl hf hc
  | loaded _ _ h => exact loading_complete h hl hf hc
  | updated cc g' _ hlisted h =>
    intro g hg hst i hi
    rw [h.list] at hg
    by_cases hgg : g = g'
    · subst hgg
      exact updated_complete h hl hg hf hd hc hst i hi
    · rw [h.concerns.groups g hgg] at hst hi
      rw [cellAt_congr (h.concerns.groups g hgg)]
      exact hc g hg hst i hi
  | exited g' i' p ret _ h =>
    intro g hg hst i hi
    rw [h.list] at hg
    by_cases hgg : g = g'
    · subst hgg
      have hrun : (counted ret s.clock (s.reg.groups g)).ccStatus = statusRunning :=
        h.status.symm.trans hst
      by_cases hii : i = i'
      · subst hii
        exact filled_proc (h.restarted hrun) (by simp) hf trivial
      · rw [h.others i hii]
        exact hc g hg (counted_running hrun) i (by rw [← h.instances]; exact hi)
    · rw [h.groups g hgg] at hst hi
      rw [cellAt_congr (h.groups g hgg)]
      exact hc g hg hst i hi

theorem Calm.defined {x : Server} (h : Calm s x) (hd : Defined s) : Defined x := by
  intro g hg i
  rw [h.reg] at hg
  rw [cellAt, h.reg]
  exact hd g hg i

theorem Calm.complete {x : Server} (h : Calm s x) (hc : Complete s) : Complete x := by
  intro g hg hr i hi
  rw [h.reg] at hg hr hi
  rw [cellAt, h.reg]
  exact hc g hg hr i hi

theorem initial_defined (a b : Bool) (t : ℤ) : Defined (initial a b t) := by
  intro g hg
  cases hg

theorem initial_complete (a b : Bool) (t : ℤ) : Complete (initial a b t) := by
  intro g hg
  cases hg

theorem ReachableBy.defined (h : ReachableBy P (Succeeds (· = .grow)) s) : Defined s :=
  ReachableBy.invariant initial_defined (fun _ _ hc hd => Calm.defined hc hd)
    (fun _ _ _ hl hl' hf he hd => effect_defined hl hl' hf he hd) h

theorem Unfailed.mono {K L : SpawnSite → Prop} {h : List Hist} (hkl : ∀ site, L site → K site)
    (hf : Unfailed K h) : Unfailed L h := by
  intro x hx hfail
  apply hf x hx
  cases x <;> first | exact hfail.elim | exact hkl _ hfail

theorem ReachableBy.complete (h : ReachableBy P (Succeeds AnySite) s) :
    Defined s ∧ Complete s := by
  refine ReachableBy.invariant (I := fun s => Defined s ∧ Complete s)
    (fun a b t => ⟨initial_defined a b t, initial_complete a b t⟩)
    (fun _ _ hc hd => ⟨Calm.defined hc hd.1, Calm.complete hc hd.2⟩) ?_ h
  rintro s e u hl hl' hf he ⟨hd, hc⟩
  exact ⟨effect_defined hl hl' (hf.mono fun _ _ => trivial) he hd, effect_complete hl hf he hd hc⟩

section Bijection

/-- The table of processes and the slots of the listed groups describe the same supervision. -/
structure SlotBijection (r : Registry) : Prop where
  distinct : (r.processHash.entries.map fun e => (r.procs e.2).pPid).Nodup
  owned : ∀ e ∈ r.processHash.entries, (r.procs e.2).pChildConfig = none ∨
    ∃ g ∈ r.childConfigList, (r.procs e.2).pChildConfig = some g ∧
      ((r.procs e.2).pInstance : ℤ) < (r.groups g).ccInstances ∧
      (r.groups g).ccChilds[(r.procs e.2).pInstance]? = some (.proc e.2)
  filled : ∀ g ∈ r.childConfigList, ∀ i : ℕ, i < (r.groups g).ccInstances →
    (r.groups g).ccChilds[i]? = some .null ∨
    ∃ e ∈ r.processHash.entries, (r.groups g).ccChilds[i]? = some (.proc e.2) ∧
      (r.procs e.2).pChildConfig = some g ∧ (r.procs e.2).pInstance = i
  single : ∀ e ∈ r.processHash.entries, ∀ e' ∈ r.processHash.entries,
    (r.procs e.2).pChildConfig = (r.procs e'.2).pChildConfig →
    (r.procs e.2).pChildConfig ≠ none →
    (r.procs e.2).pInstance = (r.procs e'.2).pInstance → e = e'

theorem entry_tracked {r : Registry} (h : Linked r) {e : UInt32 × ProcId}
    (he : e ∈ r.processHash.entries) : r.Tracked e.2 ∧ e.1 = (r.procs e.2).pPid := by
  have hc := BucketTable.mem_entries.mp he
  exact ⟨h.tracked_iff.mpr ⟨_, hc⟩, (h.keyed _ _ hc).1.symm⟩

theorem tracked_entry {r : Registry} {p : ProcId} (h : r.Tracked p) :
    ((r.procs p).pPid, p) ∈ r.processHash.entries := BucketTable.mem_entries.mpr h

/-- A slot with a defined value is empty or holds a process that points back to it. -/
theorem Defined.cell (hd : Defined s) (hl : Linked s.reg) (hg : g ∈ s.reg.childConfigList) {i : ℕ}
    (hi : (i : ℤ) < (s.reg.groups g).ccInstances) :
    cellAt s g i = some .null ∨ ∃ p, cellAt s g i = some (.proc p) ∧ Owns s.reg p g i := by
  have hlen := hl.cells g hg
  have hsome : ∃ c, cellAt s g i = some c :=
    ⟨_, List.getElem?_eq_getElem (by omega : i < (s.reg.groups g).ccChilds.length)⟩
  obtain ⟨c, hc⟩ := hsome
  cases c with
  | unset => exact absurd hc (hd g hg i)
  | null => exact .inl hc
  | proc p => exact .inr ⟨p, hc, (hl.placed g i p).mp ⟨hg, hc⟩⟩

theorem slotBijection (hl : Linked s.reg) (hd : Defined s) : SlotBijection s.reg where
  distinct := by
    have hkeys := BucketTable.entries_nodup_keys hl.single
    rwa [List.map_congr_left fun e he => (entry_tracked hl he).2] at hkeys
  owned e he := by
    obtain ⟨ht, -⟩ := entry_tracked hl he
    cases hc : (s.reg.procs e.2).pChildConfig with
    | none => exact .inl rfl
    | some g =>
      have hs := (hl.placed g _ e.2).mpr ⟨ht, hc, rfl⟩
      exact .inr ⟨g, hs.1, rfl, hl.cell_lt hs, hs.2⟩
  filled g hg i hi := by
    rcases hd.cell hl hg hi with hn | ⟨p, hp, ht, hc, hinst⟩
    · exact .inl hn
    · exact .inr ⟨_, tracked_entry ht, hp, hc, hinst⟩
  single e he e' he' hc hn hi := by
    obtain ⟨ht, hk⟩ := entry_tracked hl he
    obtain ⟨ht', hk'⟩ := entry_tracked hl he'
    obtain ⟨g, hg⟩ := Option.ne_none_iff_exists'.mp hn
    have hs := (hl.placed g _ e.2).mpr ⟨ht, hg, rfl⟩
    have hs' := (hl.placed g _ e'.2).mpr ⟨ht', hc ▸ hg, rfl⟩
    rw [← hi] at hs'
    have hp := inSlot_inj hs hs'
    exact Prod.ext (by rw [hk, hk', hp]) hp

/-- Along runs in which every `spawn` succeeds, slots and processes are in bijection. -/
theorem reachable_slotBijection (h : ReachableBy P (Succeeds AnySite) s) :
    SlotBijection s.reg :=
  slotBijection (ReachableBy.linked h) (ReachableBy.complete h).1

end Bijection

section Runs

/-- A group of two instances is created and one of its processes fails. -/
def pairRequest : Json :=
  .object [(text "name", .string (text "web")), (text "args", .array [.string (text "/bin/web")]),
    (text "instances", .int 2), (text "status", .int 1)]

def pairRun : List Event :=
  [connecting, asking "SPWN" pairRequest [100, 101], .childExit 100 (.exited 1) 0] ++
    signalled 2 [102]

def pairPlatform : Platform := sample [printed pairRequest]

theorem pairRun_admitted :
    Admits Enabled (next pairPlatform) (Succeeds AnySite) (initial false false 100) pairRun := by
  decide +kernel

theorem pairRun_slotBijection :
    SlotBijection (stateAfter (next pairPlatform) (initial false false 100) pairRun).reg :=
  reachable_slotBijection ⟨false, false, 100, pairRun_admitted.execution⟩

/-- Along such runs a running group has a process for every instance. -/
theorem reachable_supervised (h : ReachableBy P (Succeeds AnySite) s) :
    ∀ g ∈ s.reg.childConfigList, (s.reg.groups g).ccStatus = statusRunning →
      ∀ i : ℕ, i < (s.reg.groups g).ccInstances →
        ∃ p, (s.reg.groups g).ccChilds[i]? = some (.proc p) :=
  (ReachableBy.complete h).2

theorem pairRun_supervised :
    ∃ p, ((stateAfter (next pairPlatform) (initial false false 100) pairRun).reg.groups
      0).ccChilds[0]? = some (.proc p) :=
  reachable_supervised ⟨false, false, 100, pairRun_admitted.execution⟩ 0 (by decide +kernel)
    (by decide +kernel) 0 (by decide +kernel)

/-- What the loops over the slots of a group read is NULL or a live process. -/
def ReadsDefined (s : Server) : Prop :=
  ∀ g ∈ s.reg.childConfigList, (s.reg.groups g).hasUnset = false ∧
    ∀ i : ℕ, i < (s.reg.groups g).ccInstances → (s.reg.groups g).cell i = .null ∨
      ∃ p, (s.reg.groups g).cell i = .proc p ∧ s.reg.Tracked p

theorem Defined.reads (hd : Defined s) (hl : Linked s.reg) : ReadsDefined s := by
  intro g hg
  have hcell : ∀ i : ℕ, (i : ℤ) < (s.reg.groups g).ccInstances →
      (s.reg.groups g).cell i = .null ∨
        ∃ p, (s.reg.groups g).cell i = .proc p ∧ s.reg.Tracked p := by
    intro i hi
    unfold ChildConfig.cell
    rw [List.getD_eq_getElem?_getD]
    rcases hd.cell hl hg hi with hn | ⟨p, hp, ht, -⟩
    · exact .inl (by rw [cellAt] at hn; rw [hn]; rfl)
    · exact .inr ⟨p, by rw [cellAt] at hp; rw [hp]; rfl, ht⟩
  refine ⟨?_, hcell⟩
  unfold ChildConfig.hasUnset
  rw [List.any_eq_false]
  intro i hi
  rw [List.mem_range] at hi
  rcases hcell i (by omega) with hn | ⟨p, hp, -⟩
  · simp [hn]
  · simp [hp]

/-- Slots are read as defined values as long as no start of an added instance fails. -/
theorem reachable_readsDefined (h : ReachableBy P (Succeeds (· = .grow)) s) : ReadsDefined s :=
  (ReachableBy.defined h).reads (ReachableBy.linked h)

/-- One instance, then two, but the second cannot be started. -/
def growRequests : Json × Json :=
  (.object [(text "name", .string (text "web")), (text "args", .array [.string (text "/bin/web")]),
    (text "status", .int 1)],
   .object [(text "name", .string (text "web")), (text "instances", .int 2)])

def growPlatform : Platform := sample [printed growRequests.1, printed growRequests.2]

def growRun (pids : List Pid) : List Event :=
  [connecting, asking "SPWN" growRequests.1 [100], asking "UPDT" growRequests.2 pids]

theorem growRun_readsDefined :
    ReadsDefined (stateAfter (next growPlatform) (initial false false 100) (growRun [101])) :=
  have h : Admits Enabled (next growPlatform) (Succeeds (· = .grow)) (initial false false 100)
    (growRun [101]) := by decide +kernel
  reachable_readsDefined ⟨false, false, 100, h.execution⟩

/-- A failed start of an added instance leaves its slot as `realloc` handed it out. -/
theorem growRun_readsUnset :
    ¬ ∀ (P : Platform) (s : Server), Reachable P s → ReadsDefined s := by
  intro hall
  have h : Admits Enabled (next growPlatform) Always (initial false false 100) (growRun []) := by
    decide +kernel
  have hrun := hall growPlatform _ ⟨false, false, 100, h.execution⟩
  have hlisted : 0 ∈ (stateAfter (next growPlatform) (initial false false 100)
      (growRun [])).reg.childConfigList := by decide +kernel
  have hunset : ((stateAfter (next growPlatform) (initial false false 100)
      (growRun [])).reg.groups 0).hasUnset = true := by decide +kernel
  rw [(hrun 0 hlisted).1] at hunset
  cases hunset

end Runs

end UbervisorSlotInvariants
