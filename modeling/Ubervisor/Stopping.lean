import Ubervisor.ErrorWindows
import Mathlib.Data.Finset.Card

/-! # Stopped groups

`sigchld_cb` counts errors in a stopped group too. A stopped group starts no processes, so the
processes it still has bound the errors to come, and it is not broken unless its bound is
lowered by an UPDT of the number of instances. -/
namespace UbervisorStopping

open UbervisorErrorCounters
open UbervisorRuns
open UbervisorValues
open UbervisorChildConfigs
open UbervisorKernel
open UbervisorRegistry
open UbervisorServer
open UbervisorCommands
open UbervisorEvents
open UbervisorSupervision
open UbervisorSlots
open UbervisorUpdates
open UbervisorExits
open UbervisorEffects
open UbervisorGroupSteps
open UbervisorGroupCounters
open UbervisorErrorWindows
open UbervisorJsonC

variable {P : Platform} {s u v : Server} {e : Event} {g : GroupId} {cc : ChildConfig} {i : ℕ}
  {p : ProcId} {ret : WaitStatus} {n m : ℤ}

/-- The slot holds a process. -/
def occupied (s : Server) (g : GroupId) (i : ℕ) : Bool :=
  match cellAt s g i with
  | some (.proc _) => true
  | _ => false

/-- How many of the first `n` slots of the group hold a process. -/
def live (s : Server) (g : GroupId) (n : ℤ) : ℕ :=
  ((Finset.range n.toNat).filter fun i => occupied s g i).card

/-- The errors counted and the processes in the first `n` slots stay below the bound of a
group of `n` instances, or there is no process left in these slots. -/
def Spare (s : Server) (g : GroupId) (n : ℤ) : Prop :=
  live s g n = 0 ∨ (s.reg.groups g).ccError + live s g n < errorMax * n

instance : Decidable (Spare s g n) := inferInstanceAs (Decidable (_ ∨ _))

/-- No UPDT changes the status of the group, and one that takes slots away leaves the group
below its new bound. -/
def Careful (g : GroupId) (s : Server) (e : Event) (u : Server) : Prop :=
  KeepsStatus g s e u ∧ ((u.reg.groups g).ccInstances < (s.reg.groups g).ccInstances →
    Spare s g (u.reg.groups g).ccInstances)

instance (s u : Server) : Decidable (Careful g s e u) := inferInstanceAs (Decidable (_ ∧ _))

/-- A stopped group that its processes cannot break. -/
structure Resting (g : GroupId) (s : Server) : Prop where
  status : (s.reg.groups g).ccStatus = statusStopped
  error : 0 ≤ (s.reg.groups g).ccError
  spare : Spare s g (s.reg.groups g).ccInstances

section Slots

theorem occupied_iff : occupied s g i = true ↔ ∃ p, cellAt s g i = some (.proc p) := by
  unfold occupied
  constructor
  · intro h
    split at h
    · rename_i p hp
      exact ⟨p, hp⟩
    · cases h
  · rintro ⟨p, hp⟩
    rw [hp]

theorem occupied_congr (h : cellAt u g i = cellAt s g i) : occupied u g i = occupied s g i := by
  rw [occupied, h, occupied]

theorem not_occupied {o : Option Cell} (h : cellAt s g i = o) (ho : o = none ∨ o = some .null) :
    occupied s g i = false := by
  rw [occupied, h]
  rcases ho with rfl | rfl <;> rfl

theorem live_le (h : 0 ≤ n) : (live s g n : ℤ) ≤ n := by
  have hc := Finset.card_filter_le (Finset.range n.toNat) fun i => occupied s g i = true
  rw [Finset.card_range] at hc
  unfold live
  omega

theorem live_congr (h : ∀ i, i < n.toNat → occupied u g i = occupied s g i) :
    live u g n = live s g n := by
  unfold live
  congr 1
  apply Finset.filter_congr
  intro i hi
  rw [h i (Finset.mem_range.mp hi)]

/-- Slots the group does not have hold nothing. -/
theorem live_beyond (hl : Linked s.reg) (hg : g ∈ s.reg.childConfigList)
    (hn : (s.reg.groups g).ccInstances ≤ n) :
    live s g n = live s g (s.reg.groups g).ccInstances := by
  have hlen := hl.cells g hg
  unfold live
  congr 1
  ext i
  simp only [Finset.mem_filter, Finset.mem_range]
  constructor
  · rintro ⟨_, ho⟩
    obtain ⟨p, hp⟩ := occupied_iff.mp ho
    have hlt := (List.getElem?_eq_some_iff.mp hp).1
    exact ⟨by omega, ho⟩
  · rintro ⟨hi, ho⟩
    exact ⟨by omega, ho⟩

/-- The end of a process leaves one less. -/
theorem exited_live (h : Exited g i p ret s u) (hl : Linked s.reg)
    (hs : (u.reg.groups g).ccStatus ≠ statusRunning) :
    live u g (s.reg.groups g).ccInstances + 1 = live s g (s.reg.groups g).ccInstances := by
  have hlt := hl.cell_lt h.owned
  have hcell : cellAt s g i = some (.proc p) := h.owned.2
  rw [h.status] at hs
  have hmem : i ∈ (Finset.range (s.reg.groups g).ccInstances.toNat).filter
      fun j => occupied s g j := by
    rw [Finset.mem_filter, Finset.mem_range]
    exact ⟨by omega, occupied_iff.mpr ⟨p, hcell⟩⟩
  have herase : (Finset.range (s.reg.groups g).ccInstances.toNat).filter (fun j => occupied u g j) =
      ((Finset.range (s.reg.groups g).ccInstances.toNat).filter fun j =>
        occupied s g j).erase i := by
    ext j
    simp only [Finset.mem_erase, Finset.mem_filter]
    by_cases hj : j = i
    · subst hj
      rw [not_occupied (h.stays hs) (.inr rfl)]
      simp
    · rw [occupied_congr (h.others j hj)]
      simp [hj]
  unfold live
  rw [herase, Finset.card_erase_of_mem hmem]
  have hpos := Finset.card_pos.mpr ⟨i, hmem⟩
  omega

/-- An update that does not start the group keeps the processes of the slots it keeps. -/
theorem updated_live (h : Updated cc g s u) (hl : Linked s.reg) (hg : g ∈ s.reg.childConfigList)
    (hs : (s.reg.groups g).ccStatus ≠ statusRunning)
    (hc : ¬ intChanges cc.ccStatus (s.reg.groups g).ccStatus = true) :
    live u g (u.reg.groups g).ccInstances = live s g (u.reg.groups g).ccInstances := by
  have hlen := hl.cells g hg
  apply live_congr
  intro j hj
  obtain ⟨mid, hold, hnew, hturn⟩ := h.cells j (by omega)
  have hmid := hturn.2 fun hr => hc hr.changes
  by_cases hk : (j : ℤ) < (s.reg.groups g).ccInstances
  · rw [hold hk] at hmid
    exact occupied_congr hmid
  · have hnull : mid = some .null := (hnew (by omega)).2 hs
    rw [hnull] at hmid
    have hnone : cellAt s g j = none := List.getElem?_eq_none (by omega)
    rw [not_occupied hmid (.inr rfl), not_occupied hnone (.inl rfl)]

end Slots

section Steps

theorem updated_resting (h : Updated cc g s u) (hl : Linked s.reg)
    (hg : g ∈ s.reg.childConfigList) (hr : Resting g s) (hq : Careful g s e u) :
    Resting g u ∧ ∀ x ∈ newHist s u, x.isBreak = false := by
  have hc : ¬ intChanges cc.ccStatus (s.reg.groups g).ccStatus = true := by
    intro hc
    obtain ⟨x, hx⟩ := List.exists_mem_of_ne_nil _ ((updated_marks h).mpr hc)
    apply hq.1
    rw [← (updated_reset h x hx).1]
    exact hx
  have hidle : (s.reg.groups g).ccStatus ≠ statusRunning := by
    rw [hr.status]
    decide
  have hstatus : (u.reg.groups g).ccStatus = (s.reg.groups g).ccStatus := by
    rw [h.status, intOr_same (Bool.eq_false_iff.mpr hc)]
  have herror : (u.reg.groups g).ccError = (s.reg.groups g).ccError := by
    rw [h.error, if_neg hc]
  have hlive := updated_live h hl hg hidle hc
  refine ⟨⟨hstatus.trans hr.status, herror ▸ hr.error, ?_⟩, ?_⟩
  · unfold Spare
    rw [herror, hlive]
    by_cases hn : (u.reg.groups g).ccInstances < (s.reg.groups g).ccInstances
    · exact hq.2 hn
    · rw [live_beyond hl hg (Int.not_lt.mp hn)]
      rcases hr.spare with hz | hs
      · exact .inl hz
      · right
        unfold errorMax at hs ⊢
        omega
  · obtain ⟨l, hhist, hk⟩ := h.concerns.hist
    rw [newHist_eq hhist]
    intro x hx
    cases hk x hx with
    | start _ hs => cases x <;> first | rfl | cases hs.2
    | resized _ _ => rfl
    | statusSet _ => rfl

/-- The end of a process cannot break the group: one error more, but one process less. -/
theorem exited_resting (h : Exited g i p ret s u) (hl : Linked s.reg) (hr : Resting g s) :
    Resting g u ∧ ∀ x ∈ newHist s u, x.isBreak = false := by
  have hlt := hl.cell_lt h.owned
  have hcounter := exit_counter ret s.clock (s.reg.groups g)
  have hcarried : (counter (s.reg.groups g)).carried errorPeriod s.clock ≤
      (s.reg.groups g).ccError ∧ 0 ≤ (counter (s.reg.groups g)).carried errorPeriod s.clock := by
    unfold Counter.carried
    split
    · exact ⟨hr.error, Int.le_refl 0⟩
    · exact ⟨Int.le_refl _, hr.error⟩
  have hpos : live s g (s.reg.groups g).ccInstances ≠ 0 := by
    unfold live
    rw [Finset.card_ne_zero]
    refine ⟨i, Finset.mem_filter.mpr ⟨Finset.mem_range.mpr (by omega), ?_⟩⟩
    exact occupied_iff.mpr ⟨p, h.owned.2⟩
  have hspare := hr.spare.resolve_left hpos
  have hb : ¬ Breaks ret s.clock (s.reg.groups g) := by
    rintro ⟨-, hmany⟩
    have hcount : errorMax * (s.reg.groups g).ccInstances ≤
      (counter (s.reg.groups g)).carried errorPeriod s.clock + 1 := hmany
    omega
  have hstatus : (u.reg.groups g).ccStatus = statusStopped := by
    rw [h.status, counted_status, if_neg hb, hr.status]
  have hidle : (u.reg.groups g).ccStatus ≠ statusRunning := by
    rw [hstatus]
    decide
  have hlive := exited_live h hl hidle
  have hinst := (exited_undisturbed h).instances
  have herror : (u.reg.groups g).ccError ≤ (s.reg.groups g).ccError + 1 ∧
      0 ≤ (u.reg.groups g).ccError := by
    have hcount := congrArg Counter.count (exited_counter h)
    rw [exited_marks h] at hcount
    change (u.reg.groups g).ccError = _ at hcount
    rw [hcount]
    split
    · change _ + 1 ≤ _ ∧ 0 ≤ _ + 1
      omega
    · change (s.reg.groups g).ccError ≤ _ ∧ 0 ≤ (s.reg.groups g).ccError
      have := hr.error
      omega
  refine ⟨⟨hstatus, herror.2, ?_⟩, ?_⟩
  · right
    rw [hinst]
    omega
  · obtain ⟨l, hnew, hk⟩ := exited_newHist h
    rw [hnew]
    intro x hx
    rcases List.mem_cons.mp hx with rfl | hx
    · rfl
    · cases hk x hx with
      | start _ hs => cases x <;> first | rfl | cases hs.2
      | broken hbreaks => exact absurd hbreaks hb
      | fatal hbreaks => exact absurd hbreaks hb

theorem step_resting (h : GroupStep P s e u g) (hl : Linked s.reg)
    (hg : g ∈ s.reg.childConfigList) (hr : Resting g s) (hq : Careful g s e u) :
    (g ∈ u.reg.childConfigList → Resting g u) ∧
      ∀ x ∈ newHist s u, x.group = some g → x.isBreak = false := by
  cases h with
  | untouched _ hsame hquiet =>
    refine ⟨fun _ => ?_, fun x hx hgroup => absurd hgroup (hquiet x hx)⟩
    have hlive : live u g (s.reg.groups g).ccInstances = live s g (s.reg.groups g).ccInstances := by
      apply live_congr
      intro j _
      apply occupied_congr
      rw [cellAt, hsame, cellAt]
    refine ⟨by rw [hsame]; exact hr.status, by rw [hsame]; exact hr.error, ?_⟩
    unfold Spare
    rw [hsame, hlive]
    exact hr.spare
  | deleted _ hgone hentry =>
    refine ⟨fun hu => absurd hu hgone.unlisted, ?_⟩
    intro x hx _
    rw [hentry, List.mem_singleton] at hx
    subst hx
    rfl
  | updated cc _ hx =>
    obtain ⟨hu, hbreak⟩ := updated_resting hx hl hg hr hq
    exact ⟨fun _ => hu, fun x hx _ => hbreak x hx⟩
  | exited i p ret _ hx =>
    obtain ⟨hu, hbreak⟩ := exited_resting hx hl hr
    exact ⟨fun _ => hu, fun x hx _ => hbreak x hx⟩

theorem run_resting (h : Execution (Step P) (Careful g) s u) (hl : Linked s.reg)
    (hg : g ∈ s.reg.childConfigList) (hr : Resting g s) :
    (g ∈ u.reg.childConfigList → Resting g u) ∧
      ∀ x ∈ newHist s u, x.group = some g → x.isBreak = false := by
  induction h with
  | refl => exact ⟨fun _ => hr, by simp [newHist]⟩
  | @tail v u e hrun hstep hq ih =>
    obtain ⟨hv, hnone⟩ := ih
    have hlv := (run_hist hrun hl).1
    rw [run_newHist hrun hl hstep]
    rcases run_listed hrun hl hg with hgv | hgone
    · obtain ⟨hu, hnew⟩ := step_resting (step_group hlv hstep hgv) hlv hgv (hv hgv) hq
      refine ⟨hu, ?_⟩
      intro x hx
      rcases List.mem_append.mp hx with hx | hx
      · exact hnone x hx
      · exact hnew x hx
    · obtain ⟨hgone', hquiet⟩ := step_absent hlv hstep hgone
      refine ⟨fun hu => absurd hu hgone'.unlisted, ?_⟩
      intro x hx hgroup
      rcases List.mem_append.mp hx with hx | hx
      · exact hnone x hx hgroup
      · exact absurd hgroup (hquiet x hx)

/-- An UPDT that stops a group leaves it resting. -/
theorem stopped_resting {old : ℤ} (hl : Linked s.reg) (h : Step P s e u)
    (hstop : .statusSet g old statusStopped ∈ newHist s u) :
    g ∈ u.reg.childConfigList ∧ Resting g u := by
  have hg : g ∈ s.reg.childConfigList := by
    rcases step_entry hl h hstop rfl with hg | ⟨-, hc⟩
    · exact hg
    · cases hc with
      | start hs => cases hs.2
  cases step_group hl h hg with
  | untouched _ _ hquiet => exact absurd rfl (hquiet _ hstop)
  | deleted _ _ hentry =>
    rw [hentry] at hstop
    cases List.mem_singleton.mp hstop
  | updated cc _ hx =>
    obtain ⟨l, hhist, hk⟩ := hx.concerns.hist
    rw [newHist_eq hhist] at hstop
    have hset : cc.ccStatus = statusStopped ∧
        intChanges cc.ccStatus (s.reg.groups g).ccStatus = true := by
      generalize hy : Hist.statusSet g old statusStopped = y at hstop
      cases hk y hstop with
      | start _ hs =>
        rw [← hy] at hs
        cases hs.2
      | resized _ _ => cases hy
      | statusSet hc =>
        obtain ⟨-, -, hnew⟩ := Hist.statusSet.inj hy
        exact ⟨hnew.symm, hc⟩
    have hu : g ∈ u.reg.childConfigList := by
      rw [hx.list]
      exact hg
    have hstatus : (u.reg.groups g).ccStatus = statusStopped := by
      rw [hx.status, intOr_changes hset.2, hset.1]
    have herror : (u.reg.groups g).ccError = 0 := by
      rw [hx.error, if_pos hset.2]
    have hlen := hx.linked.cells g hu
    have hlive := live_le (s := u) (g := g) (n := (u.reg.groups g).ccInstances) (by omega)
    refine ⟨hu, hstatus, by omega, ?_⟩
    unfold Spare errorMax
    omega
  | exited i p ret _ hx =>
    obtain ⟨l, hnew, hk⟩ := exited_newHist hx
    rw [hnew, List.mem_cons] at hstop
    rcases hstop with hstop | hstop
    · cases hstop
    · cases hk _ hstop with
      | start _ hs => cases hs.2

/-- A stopped group stays stopped, and neither breaks nor runs its fatal command, as long as no
UPDT takes away more slots than it can spare. -/
theorem stopped_stays {old : ℤ} (h : Reachable P s) (hstep : Step P s e u)
    (hstop : .statusSet g old statusStopped ∈ newHist s u)
    (hrun : Execution (Step P) (Careful g) u v) :
    (g ∈ v.reg.childConfigList → (v.reg.groups g).ccStatus = statusStopped) ∧
      ∀ x ∈ newHist u v, x.group = some g → x.isBreak = false := by
  have hl : Linked s.reg := ReachableBy.linked h
  obtain ⟨hu, hr⟩ := stopped_resting hl hstep hstop
  obtain ⟨hv, hbreak⟩ := run_resting hrun (step_linked hl hstep) hu hr
  exact ⟨fun hg => (hv hg).status, hbreak⟩

/-- Six processes. -/
def packRequest : Json :=
  .object [(text "name", .string (text "web")), (text "args", .array [.string (text "/bin/web")]),
    (text "instances", .int 6), (text "status", .int 1)]

def sizeRequest (n : ℤ) : Json :=
  .object [(text "name", .string (text "web")), (text "instances", .int n)]

def packPlatform : Platform :=
  sample [printed packRequest, printed stopRequest, printed (sizeRequest 1),
    printed (sizeRequest 2)]

def packState : Server := stateAfter (next packPlatform) (initial false false 100)
  [connecting, asking "SPWN" packRequest [100, 101, 102, 103, 104, 105]]

def stopping : Event := asking "UPDT" stopRequest []

def packStopped : Server := next packPlatform packState stopping

/-- Five processes end in an error, the group shrinks to `n` instances, and the process in the
first slot ends in an error as well. -/
def shrinking (n : ℤ) : List Event :=
  [101, 102, 103, 104, 105].flatMap (crash (.exited 1)) ++
    asking "UPDT" (sizeRequest n) [] :: crash (.exited 1) 100

theorem packState_reachable : Reachable packPlatform packState := by
  have h : Admits Enabled (next packPlatform) Always (initial false false 100)
    [connecting, asking "SPWN" packRequest [100, 101, 102, 103, 104, 105]] := by decide +kernel
  exact ⟨false, false, 100, h.execution⟩

theorem packStopped_stays :
    let v := stateAfter (next packPlatform) packStopped (shrinking 2)
    (0 ∈ v.reg.childConfigList → (v.reg.groups 0).ccStatus = statusStopped) ∧
      ∀ x ∈ newHist packStopped v, x.group = some 0 → x.isBreak = false := by
  have hrun : Admits Enabled (next packPlatform) (Careful 0) packStopped (shrinking 2) ∧
      Enabled packState stopping ∧
      .statusSet 0 1 statusStopped ∈ newHist packState packStopped := by
    decide +kernel
  obtain ⟨h, henabled, hstop⟩ := hrun
  exact stopped_stays packState_reachable ⟨henabled, rfl⟩ hstop h.execution

/-- With one instance left, the sixth error breaks the stopped group. -/
theorem packStopped_broken : ¬ ∀ (P : Platform) (s u v : Server) (e : Event) (g : GroupId)
    (old : ℤ), Reachable P s → Step P s e u → .statusSet g old statusStopped ∈ newHist s u →
      Execution (Step P) (KeepsStatus g) u v →
        (g ∈ v.reg.childConfigList → (v.reg.groups g).ccStatus = statusStopped) ∧
          ∀ x ∈ newHist u v, x.group = some g → x.isBreak = false := by
  intro hall
  generalize hlast : stateAfter (next packPlatform) packStopped (shrinking 1) = v
  have hrun : Admits Enabled (next packPlatform) (KeepsStatus 0) packStopped (shrinking 1) ∧
      Enabled packState stopping ∧
      .statusSet 0 1 statusStopped ∈ newHist packState packStopped ∧
      0 ∈ v.reg.childConfigList ∧ (v.reg.groups 0).ccStatus = statusBroken := by
    rw [← hlast]
    decide +kernel
  obtain ⟨h, henabled, hstop, hlisted, hbroken⟩ := hrun
  have hstays := hall packPlatform packState packStopped v stopping 0 1 packState_reachable
    ⟨henabled, rfl⟩ hstop (hlast ▸ h.execution)
  rw [hstays.1 hlisted] at hbroken
  exact absurd hbroken (by decide)

end Steps

end UbervisorStopping
