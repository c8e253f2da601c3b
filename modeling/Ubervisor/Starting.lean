import Ubervisor.SlotInvariants
import Ubervisor.StatusNotes

/-! # Processes are started for running groups

A group that does not run gets no new processes. `c_updt` starts the processes of added slots
while the group still has its old status, so an update that adds slots to a running group and
stops it at once starts them all the same. -/
namespace UbervisorStarting

open UbervisorRuns
open UbervisorValues
open UbervisorChildConfigs
open UbervisorKernel
open UbervisorRegistry
open UbervisorServer
open UbervisorCommands
open UbervisorEvents
open UbervisorSupervision
open UbervisorSlots
open UbervisorUpdates
open UbervisorExits
open UbervisorEffects
open UbervisorGroupSteps
open UbervisorSlotInvariants
open UbervisorDumps
open UbervisorJsonC

variable {P : Platform} {s u x : Server} {e : Event} {g : GroupId} {cc : ChildConfig}

/-- All groups for which the step has called `spawn` run at its end. -/
def StartsRunning (s u : Server) : Prop :=
  ∀ y ∈ newHist s u, ∀ g, Starts g y → (u.reg.groups g).ccStatus = statusRunning

/-- An accepted UPDT adds slots to a running group and takes it out of `STATUS_RUNNING`. -/
def GrowsStopping (P : Platform) (s : Server) (e : Event) : Prop :=
  ∃ cc g, acceptedUpdt P s e = some (cc, g) ∧ Grows cc (s.reg.groups g) ∧
    cc.ccStatus ≠ -1 ∧ cc.ccStatus ≠ statusRunning

section Steps

theorem startsRunning_single {y : Hist} (hy : y.isSpawn = false) (h : newHist s u = [y]) :
    StartsRunning s u := by
  intro z hz g hs
  rw [h, List.mem_singleton] at hz
  rw [hz, Starts, hy] at hs
  cases hs.2

/-- The entries of one group. -/
theorem startsRunning_of_group (hg : ∀ y ∈ newHist s u, y.group = some g)
    (h : ∀ y ∈ newHist s u, Starts g y → (u.reg.groups g).ccStatus = statusRunning) :
    StartsRunning s u := by
  intro y hy g' hs
  have he : g = g' := Option.some.inj ((hg y hy).symm.trans hs.1)
  subst he
  exact h y hy hs

theorem created_startsRunning {site : SpawnSite} (h : Created site cc s u) :
    StartsRunning s u := by
  by_cases hr : cc.ccStatus = statusRunning
  · obtain ⟨l, hl, hk⟩ := h.hist
    apply startsRunning_of_group (g := s.reg.nextGroup)
    · intro y hy
      rw [newHist_eq hl] at hy
      exact createEntry_group (hk y hy)
    · intro y _ _
      exact h.status.trans hr
  · exact startsRunning_single rfl (newHist_eq (h.quiet hr))

theorem grows_unrestarted {up : ChildConfig} (h : Grows cc up) : ¬ Restarts cc up.ccStatus :=
  fun hr => hr.1 h.1

theorem updated_startsRunning (h : Updated cc g s u) : StartsRunning s u ↔
    ¬ (Grows cc (s.reg.groups g) ∧ cc.ccStatus ≠ -1 ∧ cc.ccStatus ≠ statusRunning) := by
  have hstatus := h.status
  constructor
  · rintro hall ⟨hgrows, hset, hne⟩
    obtain ⟨y, hy, hs⟩ := (h.starts (grows_unrestarted hgrows)).mpr hgrows
    have hrun := hall y hy g hs
    rw [hstatus, intOr, if_pos hset] at hrun
    exact hne hrun
  · intro hno
    obtain ⟨l, hl, hk⟩ := h.concerns.hist
    apply startsRunning_of_group (g := g)
    · intro y hy
      rw [newHist_eq hl] at hy
      exact updateEntry_group (hk y hy)
    · intro y hy hs
      rw [hstatus]
      by_cases hre : Restarts cc (s.reg.groups g).ccStatus
      · rw [intOr, hre.2, if_pos (by decide)]
      · have hgrows : Grows cc (s.reg.groups g) := (h.starts hre).mp ⟨y, hy, hs⟩
        unfold intOr
        split
        · rename_i hset
          by_contra hne
          exact hno ⟨hgrows, hset, hne⟩
        · exact hgrows.1

/-- A process is restarted only if its group runs after the exit was counted. -/
theorem exited_startsRunning {i : ℕ} {p : ProcId} {ret : WaitStatus} (h : Exited g i p ret s u) :
    StartsRunning s u := by
  obtain ⟨l, hl, hk⟩ := h.hist
  have hentry : ∀ y ∈ newHist s u, y = .exited g i ret s.clock (exitIsError ret (s.reg.groups g)) ∨
      ExitEntry g s.clock (s.reg.groups g).ccInstances (Breaks ret s.clock (s.reg.groups g))
        ((counted ret s.clock (s.reg.groups g)).ccStatus = statusRunning) y := by
    intro y hy
    rw [newHist_eq hl] at hy
    exact (List.mem_cons.mp hy).imp_right (hk y)
  apply startsRunning_of_group (g := g)
  · intro y hy
    rcases hentry y hy with rfl | hy
    · rfl
    · exact exitEntry_group hy
  · intro y hy hs
    rcases hentry y hy with rfl | hy
    · cases hs.2
    · cases hy with
      | start hr _ => exact h.status.trans hr
      | broken _ => cases hs.2
      | fatal _ => cases hs.2

theorem loads_startsRunning {ccs : List ChildConfig} (h : Loads ccs s u) : StartsRunning s u := by
  intro y hy g hs
  obtain ⟨g', -, hg', hr⟩ := h.starts y hy hs.2
  have he : g = g' := Option.some.inj (hs.1.symm.trans hg')
  rw [he]
  exact hr

/-- Apart from updates, a step starts processes of running groups only. -/
theorem step_startsRunning (hl : Linked s.reg) (h : Step P s e u)
    (hupdt : acceptedUpdt P s e = none) : StartsRunning s u := by
  obtain ⟨x, hx, he⟩ := step_effect hl h
  have hnew : newHist s u = newHist x u := newHist_congr hx.hist.symm rfl
  have hsame : StartsRunning x u → StartsRunning s u := by
    intro hxu y hy
    rw [hnew] at hy
    exact hxu y hy
  have hquiet : u.hist = x.hist → StartsRunning s u := by
    intro hh y hy
    rw [hnew, newHist_nil hh] at hy
    cases hy
  cases he with
  | kernel k _ hh _ => exact hquiet hh
  | process p f _ hh _ _ _ => exact hquiet hh
  | orphanExit p k _ _ _ hh _ => exact hsame (startsRunning_single rfl (newHist_eq hh))
  | deleted obj g _ _ _ hh => exact hsame (startsRunning_single rfl (newHist_eq hh))
  | created cc _ hc => exact hsame (created_startsRunning hc)
  | loaded file hf _ => exact loads_startsRunning (step_loads hl h hf)
  | updated cc g ha _ _ =>
    rw [acceptedUpdt_of_reg hx.reg, hupdt] at ha
    cases ha
  | exited g i p ret _ hex => exact hsame (exited_startsRunning hex)

end Steps

section Runs

/-- Every step of every run starts processes of running groups only, unless it is an update
that grows a running group and stops it. -/
theorem reachable_startsRunning_iff (h : Reachable P s) (hs : Step P s e u) :
    StartsRunning s u ↔ ¬ GrowsStopping P s e := by
  have hl : Linked s.reg := ReachableBy.linked h
  cases ha : acceptedUpdt P s e with
  | none =>
    refine iff_of_true (step_startsRunning hl hs ha) ?_
    rintro ⟨cc, g, ha', -⟩
    rw [ha] at ha'
    cases ha'
  | some x =>
    obtain ⟨cc, g⟩ := x
    rw [updated_startsRunning (step_updated hl hs ha), not_iff_not]
    constructor
    · intro hgrows
      exact ⟨cc, g, ha, hgrows⟩
    · rintro ⟨cc', g', ha', hgrows⟩
      rw [ha] at ha'
      cases ha'
      exact hgrows

def growStopRequest : Json :=
  .object [(text "name", .string (text "web")), (text "instances", .int 3), (text "status", .int 2)]

def growPlatform : Platform :=
  sample [printed pairRequest, printed growRequest, printed growStopRequest]

/-- A running group of two. -/
def growState : Server := stateAfter (next growPlatform) (initial false false 100)
  [connecting, asking "SPWN" pairRequest [100, 101]]

theorem growState_reachable : Reachable growPlatform growState := by
  have h : Admits Enabled (next growPlatform) Always (initial false false 100)
    [connecting, asking "SPWN" pairRequest [100, 101]] := by decide +kernel
  exact ⟨false, false, 100, h.execution⟩

theorem growState_startsRunning_iff :
    StartsRunning growState (next growPlatform growState (asking "UPDT" growRequest [102])) ↔
      ¬ GrowsStopping growPlatform growState (asking "UPDT" growRequest [102]) := by
  have hen : Enabled growState (asking "UPDT" growRequest [102]) := by decide +kernel
  exact reachable_startsRunning_iff growState_reachable ⟨hen, rfl⟩

/-- A third process is started for a group that is stopped by the same request. -/
theorem growState_startsStopped : ¬ ∀ (P : Platform) (s u : Server) (e : Event), Reachable P s →
    Step P s e u → StartsRunning s u := by
  intro h
  have hen : Enabled growState (asking "UPDT" growStopRequest [102]) := by decide +kernel
  have hmem : Hist.spawned .grow 0 2 2 102 ∈
      newHist growState (next growPlatform growState (asking "UPDT" growStopRequest [102])) := by
    decide +kernel
  have hrun := h growPlatform growState _ _ growState_reachable ⟨hen, rfl⟩ _ hmem 0 ⟨rfl, rfl⟩
  revert hrun
  decide +kernel

end Runs

end UbervisorStarting
