import Ubervisor.Effects

/-! # What a step does to one group

The effects of a step, seen from a single group: it is left alone, deleted, updated, or one of
its processes has ended. Histories only grow, and a step adds entries about one group at most
that existed before. -/
namespace UbervisorGroupSteps

open UbervisorRuns
open UbervisorValues
open UbervisorChildConfigs
open UbervisorKernel
open UbervisorRegistry
open UbervisorReadCallback (Command findCommand)
open UbervisorServer
open UbervisorCommands
open UbervisorEvents
open UbervisorSupervision
open UbervisorSlots
open UbervisorUpdates
open UbervisorExits
open UbervisorEffects

variable {P : Platform} {s u x : Server} {e : Event} {g : GroupId}

section Histories

theorem loading_hist {R : List ChildConfig} (h : Relation.ReflTransGen (Loading R) s u) :
    s.hist <+: u.hist := by
  induction h with
  | refl => exact List.prefix_rfl
  | tail _ hstep ih =>
    rcases hstep with hc | ⟨cc, -, hc⟩
    · rw [hc.hist]
      exact ih
    · obtain ⟨l, hl, -⟩ := hc.hist
      rw [hl]
      exact ih.trans (List.prefix_append _ _)

theorem effect_hist (h : Effect P s e u) : s.hist <+: u.hist := by
  cases h with
  | kernel _ _ hh _ => exact ⟨[], by rw [hh, List.append_nil]⟩
  | process _ _ _ hh _ _ _ => exact ⟨[], by rw [hh, List.append_nil]⟩
  | orphanExit _ _ _ _ _ hh _ => exact ⟨_, hh.symm⟩
  | deleted _ _ _ _ _ hh => exact ⟨_, hh.symm⟩
  | created _ _ h =>
    obtain ⟨l, hl, -⟩ := h.hist
    exact ⟨l, hl.symm⟩
  | loaded _ _ h => exact loading_hist h
  | updated _ _ _ _ h => exact h.concerns.le_hist
  | exited _ _ _ _ _ h =>
    obtain ⟨l, hl, -⟩ := h.hist
    exact ⟨_, hl.symm⟩

theorem step_hist (hl : Linked s.reg) (h : Step P s e u) : u.hist = s.hist ++ newHist s u := by
  obtain ⟨x, hx, he⟩ := step_effect hl h
  obtain ⟨l, hl⟩ := effect_hist he
  rw [newHist_eq (l := l) (by rw [← hx.hist]; exact hl.symm), ← hx.hist, hl]

end Histories

section Groups

theorem updated_after {cc : ChildConfig} (hx : Calm s x) (h : Updated cc g x u) :
    Updated cc g s u := by
  obtain ⟨hr, hh, hc, ht⟩ := hx
  have hcell : ∀ j, cellAt x g j = cellAt s g j := fun j => by rw [cellAt, hr, cellAt]
  obtain ⟨hk, hl, hs, hlinked, hset, hcells, hstarts⟩ := h
  have hnew : newHist x u = newHist s u := newHist_congr hh rfl
  rw [hr] at hk hl hs hset
  refine ⟨Concerns.trans (.of_eq hr hh hc ht) hk, hl, hs, hlinked, ?_, ?_, ?_⟩
  · rw [hnew] at hset
    exact hset
  · rw [hr] at hcells
    simpa only [hcell] using hcells
  · rw [hr, hnew] at hstarts
    exact hstarts

theorem exited_after {i : ℕ} {p : ProcId} {ret : WaitStatus} (hx : Calm s x)
    (h : Exited g i p ret x u) : Exited g i p ret s u := by
  obtain ⟨hr, hh, hc, ht⟩ := hx
  have hcell : ∀ j, cellAt x g j = cellAt s g j := fun j => by rw [cellAt, hr, cellAt]
  have hnew : newHist x u = newHist s u := newHist_congr hh rfl
  obtain ⟨ho, hclock, hturn, hg, hl, hf, hlinked, hs, hhist, hb, honce, hothers, hre, hst⟩ := h
  rw [hr] at ho hg hl hf
  rw [hr, hc] at hs hb hre hst
  rw [hr, hc, hh] at hhist
  rw [hnew] at hb
  rw [hr, hc, hnew] at honce
  simp only [hcell] at hothers
  exact ⟨ho, hclock.trans hc, hturn.trans ht, hg, hl, hf, hlinked, hs, hhist, hb, honce, hothers,
    hre, hst⟩

/-- A group that was listed once and is not any more. -/
structure Absent (g : GroupId) (s : Server) : Prop where
  unlisted : g ∉ s.reg.childConfigList
  old : g < s.reg.nextGroup

/-- A step seen from a group that is listed before it. -/
inductive GroupStep (P : Platform) (s : Server) (e : Event) (u : Server) (g : GroupId) : Prop where
  | untouched (listed : g ∈ u.reg.childConfigList) (same : u.reg.groups g = s.reg.groups g)
      (quiet : ∀ h ∈ newHist s u, h.group ≠ some g)
  | deleted (accepted : ∃ obj, requested P s .dele e = some (obj, g)) (gone : Absent g u)
      (entry : newHist s u = [.deleted g])
  | updated (cc : ChildConfig) (accepted : acceptedUpdt P s e = some (cc, g))
      (h : Updated cc g s u)
  | exited (i : ℕ) (p : ProcId) (ret : WaitStatus) (reap : reaped s e = some (p, ret))
      (h : Exited g i p ret s u)

theorem createEntry_group {h : Hist} (hc : CreateEntry g h) : h.group = some g := by
  cases hc with
  | created => rfl
  | start hs => exact hs.1

theorem updateEntry_group {cc : ChildConfig} {st : ℤ} {h : Hist} (hc : UpdateEntry cc st g h) :
    h.group = some g := by
  cases hc with
  | start _ hs => exact hs.1
  | resized => rfl
  | statusSet => rfl

theorem exitEntry_group {t n : ℤ} {breaks running : Prop} {h : Hist}
    (hc : ExitEntry g t n breaks running h) : h.group = some g := by
  cases hc with
  | start _ hs => exact hs.1
  | broken => rfl
  | fatal => rfl

/-- A dump creates new groups and leaves the others alone. -/
theorem loading_untouched {R : List ChildConfig} (h : Relation.ReflTransGen (Loading R) s u)
    (hl : Linked s.reg) (hg : g ∈ s.reg.childConfigList) :
    g ∈ u.reg.childConfigList ∧ u.reg.groups g = s.reg.groups g ∧
      ∃ l, u.hist = s.hist ++ l ∧ ∀ h ∈ l, h.group ≠ some g := by
  induction h with
  | refl => exact ⟨hg, rfl, [], by simp, by simp⟩
  | @tail v w hrun hstep ih =>
    obtain ⟨hgv, hsame, l, hhist, hquiet⟩ := ih
    have hlv : Linked v.reg := loading_linked hrun hl
    rcases hstep with hc | ⟨cc, -, hc⟩
    · rw [hc.reg, hc.hist]
      exact ⟨hgv, hsame, l, hhist, hquiet⟩
    · have hne := (hlv.listed g hgv).ne
      obtain ⟨m, hm, hentries⟩ := hc.hist
      refine ⟨?_, (hc.groups g hne).trans hsame, l ++ m, ?_, ?_⟩
      · rw [hc.list]
        exact List.mem_cons_of_mem _ hgv
      · rw [hm, hhist, List.append_assoc]
      · intro h hh
        rcases List.mem_append.mp hh with hh | hh
        · exact hquiet h hh
        · rw [createEntry_group (hentries h hh)]
          exact fun he => hne (Option.some.inj he).symm

theorem effect_group (hl : Linked s.reg) (hx : Calm s x) (h : Effect P x e u)
    (hg : g ∈ s.reg.childConfigList) : GroupStep P s e u g := by
  have hlx : Linked x.reg := by
    rw [hx.reg]
    exact hl
  have hgx : g ∈ x.reg.childConfigList := by
    rw [hx.reg]
    exact hg
  have hlt : g < x.reg.nextGroup := hlx.listed g hgx
  have hnew : ∀ {l : List Hist}, u.hist = x.hist ++ l → newHist s u = l := fun h =>
    newHist_eq (by rw [← hx.hist]; exact h)
  have hquiet : ∀ {l : List Hist}, u.hist = x.hist ++ l → (∀ h ∈ l, h.group ≠ some g) →
      ∀ h ∈ newHist s u, h.group ≠ some g := by
    intro l hh hk
    rw [hnew hh]
    exact hk
  cases h with
  | kernel k hr hh _ =>
    refine .untouched (by rw [hr]; exact hgx) (by rw [hr, ← hx.reg]; rfl) ?_
    exact hquiet (l := []) (by simpa using hh) (by simp)
  | process p f hr hh _ _ _ =>
    refine .untouched (by rw [hr]; exact hgx) (by rw [hr, ← hx.reg]; rfl) ?_
    exact hquiet (l := []) (by simpa using hh) (by simp)
  | orphanExit p k _ _ hr hh _ =>
    refine .untouched (by rw [hr]; exact hgx) (by rw [hr, ← hx.reg]; rfl) (hquiet hh ?_)
    simp [Hist.group]
  | deleted obj g' ha hg' hr hh =>
    rw [orphanAll_keeps] at hr
    by_cases hgg : g = g'
    · refine .deleted ⟨obj, ?_⟩ ⟨?_, ?_⟩ ((hnew hh).trans (by rw [hgg]))
      · rw [hgg, ← requested_of_reg hx.reg]
        exact ha
      · rw [hr, hgg]
        exact hlx.nodup.not_mem_erase
      · rw [hr]
        exact hlt
    · refine .untouched ?_ (by rw [hr, ← hx.reg]; rfl) (hquiet hh ?_)
      · rw [hr]
        exact (List.mem_erase_of_ne hgg).mpr hgx
      · simpa [Hist.group] using Ne.symm hgg
  | created cc ha h =>
    obtain ⟨l, hh, hentries⟩ := h.hist
    refine .untouched ?_ (by rw [h.groups g hlt.ne, hx.reg]) (hquiet hh ?_)
    · rw [h.list]
      exact List.mem_cons_of_mem _ hgx
    · intro h hh
      rw [createEntry_group (hentries h hh)]
      exact fun he => hlt.ne (Option.some.inj he).symm
  | loaded file he h =>
    obtain ⟨hgu, hsame, l, hh, hk⟩ := loading_untouched h hlx hgx
    exact .untouched hgu (by rw [hsame, hx.reg]) (hquiet hh hk)
  | updated cc g' ha hg' h =>
    by_cases hgg : g = g'
    · subst hgg
      rw [acceptedUpdt_of_reg hx.reg] at ha
      exact .updated cc ha (updated_after hx h)
    · obtain ⟨l, hh, hentries⟩ := h.concerns.hist
      refine .untouched (by rw [h.list]; exact hgx) ?_ (hquiet hh ?_)
      · rw [h.concerns.groups g hgg, hx.reg]
      · intro h hh
        rw [updateEntry_group (hentries h hh)]
        exact fun he => hgg (Option.some.inj he).symm
  | exited g' i p ret hr h =>
    by_cases hgg : g = g'
    · subst hgg
      refine .exited i p ret ?_ (exited_after hx h)
      unfold reaped at hr ⊢
      rwa [hx.reg] at hr
    · obtain ⟨l, hh, hentries⟩ := h.hist
      refine .untouched (by rw [h.list]; exact hgx) ?_ (hquiet hh ?_)
      · rw [h.groups g hgg, hx.reg]
      · intro h hh
        have hgroup : h.group = some g' := by
          rcases List.mem_cons.mp hh with rfl | hh
          · rfl
          · exact exitEntry_group (hentries h hh)
        rw [hgroup]
        exact fun he => hgg (Option.some.inj he).symm

theorem step_group (hl : Linked s.reg) (h : Step P s e u) (hg : g ∈ s.reg.childConfigList) :
    GroupStep P s e u g := by
  obtain ⟨x, hx, he⟩ := step_effect hl h
  exact effect_group hl hx he hg

/-- A group keeps its name. -/
theorem step_name (hl : Linked s.reg) (h : Step P s e u) (hg : g ∈ s.reg.childConfigList)
    (hu : g ∈ u.reg.childConfigList) : (u.reg.groups g).ccName = (s.reg.groups g).ccName := by
  cases step_group hl h hg with
  | untouched _ hsame _ => rw [hsame]
  | deleted _ hgone _ => exact absurd hu hgone.unlisted
  | updated cc _ hup => exact hup.name
  | exited i p ret _ hex => exact hex.name

/-- The record a group is created from. -/
def Born (P : Platform) (s : Server) (e : Event) (cc : ChildConfig) : Prop :=
  acceptedSpwn P s e = some cc ∨
    ∃ file, e.loads = some file ∧ cc ∈ dumpRecords P file

theorem loading_born {R : List ChildConfig} (h : Relation.ReflTransGen (Loading R) s u)
    (hl : Linked s.reg) (hg : g ∈ u.reg.childConfigList) : g ∈ s.reg.childConfigList ∨
      ∃ cc ∈ R, settings (u.reg.groups g) = settings (withSlots cc cc.ccInstances) := by
  induction h with
  | refl => exact .inl hg
  | @tail v w hrun hstep ih =>
    have hlv : Linked v.reg := loading_linked hrun hl
    rcases hstep with hc | ⟨cc, hcc, hc⟩
    · rw [hc.reg] at hg ⊢
      exact ih hg
    · rw [hc.list, List.mem_cons] at hg
      rcases hg with rfl | hg
      · exact .inr ⟨cc, hcc, hc.settings⟩
      · rw [hc.groups g (hlv.listed g hg).ne]
        exact ih hg

/-- Where a group that is listed after a step comes from. -/
theorem step_born (hl : Linked s.reg) (h : Step P s e u) (hg : g ∈ u.reg.childConfigList) :
    g ∈ s.reg.childConfigList ∨ ∃ cc n, Born P s e cc ∧
      settings (u.reg.groups g) = settings (withSlots cc n) := by
  obtain ⟨x, hx, he⟩ := step_effect hl h
  have hlx : Linked x.reg := by
    rw [hx.reg]
    exact hl
  rw [← hx.reg]
  cases he with
  | kernel k hr _ _ =>
    rw [hr] at hg
    exact .inl hg
  | process p f hr _ _ _ _ =>
    rw [hr] at hg
    exact .inl hg
  | orphanExit p k _ _ hr _ _ =>
    rw [hr] at hg
    exact .inl hg
  | deleted _ g' _ _ hr _ =>
    rw [orphanAll_keeps] at hr
    rw [hr] at hg
    exact .inl (List.mem_of_mem_erase hg)
  | created cc ha h =>
    rw [h.list, List.mem_cons] at hg
    rcases hg with rfl | hg
    · rw [acceptedSpwn_of_reg hx.reg] at ha
      exact .inr ⟨cc, _, .inl ha, h.settings⟩
    · exact .inl hg
  | loaded file he h =>
    rcases loading_born h hlx hg with hg | ⟨cc, hcc, hset⟩
    · exact .inl hg
    · exact .inr ⟨cc, _, .inr ⟨file, he, hcc⟩, hset⟩
  | updated cc g' _ _ h =>
    rw [h.list] at hg
    exact .inl hg
  | exited g' i p ret _ h =>
    rw [h.list] at hg
    exact .inl hg

theorem loading_entry {R : List ChildConfig} (h : Relation.ReflTransGen (Loading R) s u) :
    s.reg.nextGroup ≤ u.reg.nextGroup ∧ ∃ l, u.hist = s.hist ++ l ∧
      ∀ h ∈ l, ∃ g, s.reg.nextGroup ≤ g ∧ CreateEntry g h := by
  induction h with
  | refl => exact ⟨Nat.le_refl _, [], by simp, by simp⟩
  | @tail v w _ hstep ih =>
    obtain ⟨hle, l, hhist, hentries⟩ := ih
    rcases hstep with hc | ⟨cc, -, hc⟩
    · rw [hc.reg]
      exact ⟨hle, l, hc.hist.trans hhist, hentries⟩
    · obtain ⟨m, hm, hk⟩ := hc.hist
      refine ⟨?_, l ++ m, ?_, ?_⟩
      · rw [hc.next]
        exact hle.trans (Nat.le_succ _)
      · rw [hm, hhist, List.append_assoc]
      · intro h hh
        rcases List.mem_append.mp hh with hh | hh
        · exact hentries h hh
        · exact ⟨_, hle, hk h hh⟩

/-- An entry is about a group that is listed, or tells of the creation of a new one. -/
theorem effect_entry (h : Effect P s e u) : ∃ l, u.hist = s.hist ++ l ∧
    ∀ x ∈ l, ∀ g, x.group = some g → g ∈ s.reg.childConfigList ∨
      s.reg.nextGroup ≤ g ∧ CreateEntry g x := by
  cases h with
  | kernel _ _ hh _ => exact ⟨[], by simpa using hh, by simp⟩
  | process _ _ _ hh _ _ _ => exact ⟨[], by simpa using hh, by simp⟩
  | orphanExit p _ _ _ _ hh _ => exact ⟨_, hh, by simp [Hist.group]⟩
  | deleted _ g' _ hg' _ hh =>
    refine ⟨_, hh, ?_⟩
    intro x hx g hg
    rw [List.mem_singleton.mp hx] at hg
    rw [← Option.some.inj hg]
    exact .inl hg'
  | created cc _ h =>
    obtain ⟨l, hh, hentries⟩ := h.hist
    refine ⟨l, hh, ?_⟩
    intro x hx g hg
    have hc := hentries x hx
    rw [createEntry_group hc] at hg
    rw [← Option.some.inj hg]
    exact .inr ⟨Nat.le_refl _, hc⟩
  | loaded _ _ h =>
    obtain ⟨-, l, hh, hentries⟩ := loading_entry h
    refine ⟨l, hh, ?_⟩
    intro x hx g hg
    obtain ⟨g', hle, hc⟩ := hentries x hx
    rw [createEntry_group hc] at hg
    rw [← Option.some.inj hg]
    exact .inr ⟨hle, hc⟩
  | updated cc g' _ hg' h =>
    obtain ⟨l, hh, hentries⟩ := h.concerns.hist
    refine ⟨l, hh, ?_⟩
    intro x hx g hg
    rw [updateEntry_group (hentries x hx)] at hg
    rw [← Option.some.inj hg]
    exact .inl hg'
  | exited g' i p ret _ h =>
    obtain ⟨l, hh, hentries⟩ := h.hist
    refine ⟨_, hh, ?_⟩
    intro x hx g hg
    have hgroup : x.group = some g' := by
      rcases List.mem_cons.mp hx with rfl | hx
      · rfl
      · exact exitEntry_group (hentries x hx)
    rw [← Option.some.inj (hgroup.symm.trans hg)]
    exact .inl h.owned.1

theorem loading_absent {R : List ChildConfig} (h : Relation.ReflTransGen (Loading R) s u)
    (ha : Absent g s) : Absent g u := by
  induction h with
  | refl => exact ha
  | tail _ hstep ih =>
    rcases hstep with hc | ⟨cc, -, hc⟩
    · constructor
      · rw [hc.reg]
        exact ih.unlisted
      · rw [hc.reg]
        exact ih.old
    · constructor
      · rw [hc.list, List.mem_cons]
        rintro (he | hv)
        · exact ih.old.ne he
        · exact ih.unlisted hv
      · rw [hc.next]
        exact ih.old.trans (Nat.lt_succ_self _)

/-- A group that is gone does not come back. -/
theorem effect_absent (h : Effect P s e u) (ha : Absent g s) : Absent g u := by
  cases h with
  | kernel k hr _ _ =>
    constructor
    · rw [hr]
      exact ha.unlisted
    · rw [hr]
      exact ha.old
  | process p f hr _ _ _ _ =>
    constructor
    · rw [hr]
      exact ha.unlisted
    · rw [hr]
      exact ha.old
  | orphanExit p k _ _ hr _ _ =>
    constructor
    · rw [hr]
      exact ha.unlisted
    · rw [hr]
      exact ha.old
  | deleted _ g' _ _ hr _ =>
    rw [orphanAll_keeps] at hr
    constructor
    · rw [hr]
      exact fun hm => ha.unlisted (List.mem_of_mem_erase hm)
    · rw [hr]
      exact ha.old
  | created cc _ h =>
    constructor
    · rw [h.list, List.mem_cons]
      rintro (he | hm)
      · exact ha.old.ne he
      · exact ha.unlisted hm
    · rw [h.next]
      exact ha.old.trans (Nat.lt_succ_self _)
  | loaded _ _ h => exact loading_absent h ha
  | updated cc g' _ _ h =>
    constructor
    · rw [h.list]
      exact ha.unlisted
    · rw [h.concerns.fresh]
      exact ha.old
  | exited g' i p ret _ h =>
    constructor
    · rw [h.list]
      exact ha.unlisted
    · rw [h.fresh]
      exact ha.old

theorem step_entry (hl : Linked s.reg) (h : Step P s e u) {y : Hist} (hy : y ∈ newHist s u)
    (hg : y.group = some g) :
    g ∈ s.reg.childConfigList ∨ s.reg.nextGroup ≤ g ∧ CreateEntry g y := by
  obtain ⟨x, hx, he⟩ := step_effect hl h
  obtain ⟨l, hh, hentries⟩ := effect_entry he
  rw [newHist_eq (l := l) (by rw [← hx.hist]; exact hh)] at hy
  rw [← hx.reg]
  exact hentries y hy g hg

theorem step_absent (hl : Linked s.reg) (h : Step P s e u) (ha : Absent g s) :
    Absent g u ∧ ∀ y ∈ newHist s u, y.group ≠ some g := by
  constructor
  · obtain ⟨x, hx, he⟩ := step_effect hl h
    apply effect_absent he
    constructor
    · rw [hx.reg]
      exact ha.unlisted
    · rw [hx.reg]
      exact ha.old
  · intro y hy hg
    rcases step_entry hl h hy hg with hlisted | ⟨hle, -⟩
    · exact ha.unlisted hlisted
    · exact absurd ha.old (Nat.not_lt.mpr hle)

end Groups

section Runs

variable {Q : Server → Event → Server → Prop}

/-- The history of a run continues the one it started with. -/
theorem run_hist (h : Execution (Step P) Q s u) (hl : Linked s.reg) :
    Linked u.reg ∧ s.hist <+: u.hist := by
  induction h with
  | refl => exact ⟨hl, List.prefix_rfl⟩
  | tail _ hstep _ ih =>
    obtain ⟨hlv, hle⟩ := ih
    exact ⟨step_linked hlv hstep, hle.trans ⟨_, (step_hist hlv hstep).symm⟩⟩

theorem run_newHist {v : Server} (h : Execution (Step P) Q s v) (hl : Linked s.reg)
    (hstep : Step P v e u) : newHist s u = newHist s v ++ newHist v u := by
  obtain ⟨hlv, hle⟩ := run_hist h hl
  exact newHist_append hle ⟨_, (step_hist hlv hstep).symm⟩

/-- After a run a group is still listed, or gone for good. -/
theorem run_listed (h : Execution (Step P) Q s u) (hl : Linked s.reg)
    (hg : g ∈ s.reg.childConfigList) : g ∈ u.reg.childConfigList ∨ Absent g u := by
  induction h with
  | refl => exact .inl hg
  | @tail v u _ hrun hstep _ ih =>
    have hlv := (run_hist hrun hl).1
    rcases ih with hgv | hav
    · cases step_group hlv hstep hgv with
      | untouched hgu _ _ => exact .inl hgu
      | deleted _ hgone _ => exact .inr hgone
      | updated cc _ h =>
        left
        rw [h.list]
        exact hgv
      | exited i p ret _ h =>
        left
        rw [h.list]
        exact hgv
    · exact .inr (step_absent hlv hstep hav).1

/-- A group that is listed after a step was listed before it, unless it is new. -/
theorem run_listed_before {v : Server} (h : Execution (Step P) Q s v) (hl : Linked s.reg)
    (hg : g ∈ s.reg.childConfigList) (hstep : Step P v e u) (hu : g ∈ u.reg.childConfigList) :
    g ∈ v.reg.childConfigList := by
  rcases run_listed h hl hg with hv | hv
  · exact hv
  · exact absurd hu (step_absent (run_hist h hl).1 hstep hv).1.unlisted

end Runs

section Accepted

variable {cc : ChildConfig}

theorem created_after {site : SpawnSite} (hx : Calm s x) (h : Created site cc x u) :
    Created site cc s u := by
  obtain ⟨hr, hh, hc, ht⟩ := hx
  obtain ⟨hclock, hturn, hgroups, hlist, hnext, hlinked, hhist, hset, hstart, hempty, hquiet⟩ := h
  rw [hr] at hgroups hlist hnext hhist hset hstart hempty hquiet
  rw [hh] at hhist hquiet
  exact ⟨hclock.trans hc, hturn.trans ht, hgroups, hlist, hnext, hlinked, hhist, hset, hstart,
    hempty, hquiet⟩

/-- A request does what its handler does, apart from some output. -/
theorem request_calm (con : ClientId) (cid : UInt16) (o : Oracle) {payload : Bytes} {c : Command}
    (h : findCommand payload = some c) : ∃ x, Calm s x ∧
      Calm (runCommand P c x con (CStr.ofBytes (payload.drop 4))).1
        (next P s (.callback (.request con cid payload) o)) := by
  have hi : Calm s (install s o) := ⟨rfl, rfl, rfl, rfl⟩
  refine ⟨(install s o).withIo (setCid con cid), hi.trans .withIo, ?_⟩
  have hrun : Calm (runCommand P c ((install s o).withIo (setCid con cid)) con
      (CStr.ofBytes (payload.drop 4))).1
      (runServerCommand P ((install s o).withIo (setCid con cid)) con payload) := by
    unfold runServerCommand
    rw [h]
    dsimp only
    split
    · exact .refl
    · exact .withIo
  exact hrun.trans .withIo

/-- An accepted UPDT is carried out. -/
theorem step_updated (hl : Linked s.reg) (h : Step P s e u)
    (ha : acceptedUpdt P s e = some (cc, g)) : Updated cc g s u := by
  obtain ⟨-, rfl⟩ := h
  obtain ⟨con, cid, payload, o, rfl, hc, hcc, hg, hok⟩ := acceptedUpdt_request ha
  obtain ⟨x, hx, hcalm⟩ := request_calm (P := P) (s := s) con cid o hc
  rw [← hx.reg] at hl hg
  exact updated_after hx (updated_of_calm (cUpdt_updated P hl hcc hg hok) hcalm)

/-- An accepted SPWN is carried out. -/
theorem step_created (hl : Linked s.reg) (h : Step P s e u)
    (ha : acceptedSpwn P s e = some cc) :
    Created .spwn (withSlots cc (if cc.ccInstances = -1 then 1 else cc.ccInstances)) s u := by
  obtain ⟨-, rfl⟩ := h
  obtain ⟨con, cid, payload, o, rfl, hc, hcc, hok⟩ := acceptedSpwn_request ha
  obtain ⟨x, hx, hcalm⟩ := request_calm (P := P) (s := s) con cid o hc
  rw [← hx.reg] at hl hok
  exact created_after hx ((cSpwn_created P hl hcc hok rfl).of_calm hcalm)

/-- A DELE that names a group is carried out. -/
theorem step_deleted {obj : Json} (h : Step P s e u) (ha : requested P s .dele e = some (obj, g)) :
    u.reg = (s.reg.childConfigRemove g).orphanAll (s.reg.groups g).slotProcs ∧
      u.hist = s.hist ++ [.deleted g] := by
  obtain ⟨-, rfl⟩ := h
  obtain ⟨con, cid, payload, o, rfl, hc, hn⟩ := requested_request ha
  obtain ⟨x, hx, hcalm⟩ := request_calm (P := P) (s := s) con cid o hc
  rw [← hx.reg] at hn
  have hdele : (cDele P x con (CStr.ofBytes (payload.drop 4))).1.reg =
      (x.reg.childConfigRemove g).orphanAll (x.reg.groups g).slotProcs ∧
      (cDele P x con (CStr.ofBytes (payload.drop 4))).1.hist = x.hist ++ [.deleted g] := by
    rw [cDele, withNamedGroup_found hn]
    exact ⟨rfl, rfl⟩
  rw [hcalm.reg, hcalm.hist, ← hx.reg, ← hx.hist]
  exact hdele

/-- Only a turn of `sigchld_cb` reaps. -/
theorem reaped_waitpid {x : ProcId × WaitStatus} (h : reaped s e = some x) :
    ∃ o, e = .callback .waitpid o := by
  unfold reaped at h
  split at h
  · rename_i o
    exact ⟨o, rfl⟩
  · cases h

/-- A turn of `sigchld_cb` that reaps a process of a group deals with the group. -/
theorem step_exited {p : ProcId} {ret : WaitStatus} (hl : Linked s.reg) (h : Step P s e u)
    (hr : reaped s e = some (p, ret)) (hcfg : (s.reg.procs p).pChildConfig = some g) :
    Exited g (s.reg.procs p).pInstance p ret s u := by
  obtain ⟨o, rfl⟩ := reaped_waitpid hr
  obtain ⟨-, rfl⟩ := h
  have hcalm : Calm s (install s o) := ⟨rfl, rfl, rfl, rfl⟩
  exact exited_after hcalm (sigchldTurn_exited (P := P) (s := install s o) (o := o) hl hr hcfg)

end Accepted

end UbervisorGroupSteps
