import Ubervisor.ErrorCounters
import Ubervisor.GroupSteps

/-! # The error count of a group

The fields `cc_error` and `cc_errtime` as an error counter. The history of a run tells the
marks that the counter of a group has received. -/
namespace UbervisorGroupCounters

open UbervisorErrorCounters
open UbervisorRuns
open UbervisorValues
open UbervisorChildConfigs
open UbervisorKernel
open UbervisorRegistry
open UbervisorServer
open UbervisorCommands
open UbervisorEvents
open UbervisorSupervision
open UbervisorSlots
open UbervisorUpdates
open UbervisorExits
open UbervisorEffects
open UbervisorGroupSteps

variable {P : Platform} {Q : Server → Event → Server → Prop} {s u v : Server} {e : Event}
  {g : GroupId} {cc : ChildConfig} {i : ℕ} {p : ProcId} {ret : WaitStatus} {t : ℤ}

def counter (cc : ChildConfig) : Counter := ⟨cc.ccError, cc.ccErrtime⟩

/-- What an entry means for the error count of the group. -/
def markOf (g : GroupId) : Hist → Option Mark
  | .exited g' _ _ t isError => if g' = g ∧ isError then some (.error t) else none
  | .statusSet g' _ _ => if g' = g then some .reset else none
  | _ => none

def marks (g : GroupId) (h : List Hist) : List Mark := h.filterMap (markOf g)

/-- When processes of the group ended in an error. -/
def errorTimes (g : GroupId) (h : List Hist) : List ℤ := times (marks g h)

/-- No UPDT changes the status of the group in this step. -/
def KeepsStatus (g : GroupId) (s : Server) (_ : Event) (u : Server) : Prop :=
  Mark.reset ∉ marks g (newHist s u)

instance (s : Server) (u : Server) : Decidable (KeepsStatus g s e u) :=
  inferInstanceAs (Decidable (_ ∉ _))

theorem marks_append (h k : List Hist) : marks g (h ++ k) = marks g h ++ marks g k :=
  List.filterMap_append

theorem errorTimes_append (h k : List Hist) :
    errorTimes g (h ++ k) = errorTimes g h ++ errorTimes g k := by
  rw [errorTimes, marks_append, times_append, errorTimes, errorTimes]

theorem markOf_group {h : Hist} (hg : h.group ≠ some g) : markOf g h = none := by
  cases h with
  | exited g' _ _ _ _ =>
    have hne : g' ≠ g := fun he => hg (by rw [he]; rfl)
    simp [markOf, hne]
  | statusSet g' _ _ =>
    have hne : g' ≠ g := fun he => hg (by rw [he]; rfl)
    simp [markOf, hne]
  | _ => rfl

theorem marks_quiet {l : List Hist} (h : ∀ x ∈ l, x.group ≠ some g) : marks g l = [] := by
  apply List.filterMap_eq_nil_iff.mpr
  intro x hx
  exact markOf_group (h x hx)

theorem spawn_mark {h : Hist} (hs : h.isSpawn = true) : markOf g h = none := by
  cases h <;> first | rfl | cases hs

/-- Without a change of the status all marks are errors. -/
theorem marks_errors {h : List Hist} (hn : Mark.reset ∉ marks g h) :
    marks g h = (errorTimes g h).map .error := by
  unfold errorTimes
  generalize marks g h = l at hn
  induction l with
  | nil => rfl
  | cons x l ih =>
    rw [List.mem_cons, not_or] at hn
    cases x with
    | reset => exact absurd rfl hn.1
    | error t =>
      have hl := ih hn.2
      rw [times] at hl ⊢
      rw [List.filterMap_cons, List.map_cons, ← hl]

section Steps

theorem exit_counter (ret : WaitStatus) (t : ℤ) (cc : ChildConfig) :
    counter (counted ret t cc) = if exitIsError ret cc then
      (counter cc).mark errorPeriod (.error t) else counter cc := by
  unfold counted
  split
  · rename_i hb
    rw [if_pos hb.1]
    rfl
  · split
    · rfl
    · rfl

theorem exited_newHist (h : Exited g i p ret s u) : ∃ l,
    newHist s u = .exited g i ret s.clock (exitIsError ret (s.reg.groups g)) :: l ∧
    ∀ x ∈ l, ExitEntry g s.clock (s.reg.groups g).ccInstances (Breaks ret s.clock (s.reg.groups g))
      ((counted ret s.clock (s.reg.groups g)).ccStatus = statusRunning) x := by
  obtain ⟨l, hl, hk⟩ := h.hist
  exact ⟨l, newHist_eq hl, hk⟩

theorem exited_marks (h : Exited g i p ret s u) : marks g (newHist s u) =
    if exitIsError ret (s.reg.groups g) then [.error s.clock] else [] := by
  obtain ⟨l, hl, hk⟩ := exited_newHist h
  have hrest : marks g l = [] := by
    apply List.filterMap_eq_nil_iff.mpr
    intro x hx
    cases hk x hx with
    | start _ hs => exact spawn_mark hs.2
    | broken _ => rfl
    | fatal _ => rfl
  rw [hl]
  unfold marks at hrest ⊢
  rw [List.filterMap_cons, hrest]
  cases exitIsError ret (s.reg.groups g) <;> simp [markOf]

theorem updated_reset (h : Updated cc g s u) : ∀ x ∈ marks g (newHist s u), x = .reset ∧
    intChanges cc.ccStatus (s.reg.groups g).ccStatus = true := by
  obtain ⟨l, hl, hk⟩ := h.concerns.hist
  rw [newHist_eq hl]
  intro x hx
  obtain ⟨y, hy, hmark⟩ := List.mem_filterMap.mp hx
  cases hk y hy with
  | start _ hs =>
    rw [spawn_mark hs.2] at hmark
    cases hmark
  | resized _ _ => cases hmark
  | statusSet hc =>
    rw [markOf, if_pos rfl] at hmark
    exact ⟨(Option.some.inj hmark).symm, hc⟩

/-- An update sets the count back exactly if it changes the status. -/
theorem updated_marks (h : Updated cc g s u) : marks g (newHist s u) ≠ [] ↔
    intChanges cc.ccStatus (s.reg.groups g).ccStatus = true := by
  constructor
  · intro hne
    obtain ⟨x, hx⟩ := List.exists_mem_of_ne_nil _ hne
    exact (updated_reset h x hx).2
  · intro hc
    have hmem : Mark.reset ∈ marks g (newHist s u) :=
      List.mem_filterMap.mpr ⟨_, h.statusSet hc, if_pos rfl⟩
    exact List.ne_nil_of_mem hmem

theorem updated_counter (h : Updated cc g s u) : counter (u.reg.groups g) =
    (counter (s.reg.groups g)).after errorPeriod (marks g (newHist s u)) := by
  have hset : counter (u.reg.groups g) = counter (updated cc (settings (s.reg.groups g))) := by
    have h₁ := congrArg counter h.settings
    exact h₁
  by_cases hc : intChanges cc.ccStatus (s.reg.groups g).ccStatus = true
  · rw [hset, after_resets (fun x hx => (updated_reset h x hx).1) ((updated_marks h).mpr hc)]
    change Counter.mk (if intChanges cc.ccStatus (s.reg.groups g).ccStatus then 0 else _) _ = _
    rw [if_pos hc]
    rfl
  · have hnil : marks g (newHist s u) = [] := by
      by_contra hne
      exact hc ((updated_marks h).mp hne)
    rw [hset, hnil]
    change Counter.mk (if intChanges cc.ccStatus (s.reg.groups g).ccStatus then 0 else _) _ = _
    rw [if_neg hc]
    rfl

theorem exited_counter (h : Exited g i p ret s u) : counter (u.reg.groups g) =
    (counter (s.reg.groups g)).after errorPeriod (marks g (newHist s u)) := by
  have hset : counter (u.reg.groups g) = counter (counted ret s.clock (s.reg.groups g)) := by
    have h₁ := congrArg counter h.record
    exact h₁
  rw [hset, exit_counter, exited_marks h]
  split
  · rfl
  · rfl

/-- The counter of a group is changed by the marks of a step and by nothing else. -/
theorem step_counter (h : GroupStep P s e u g) (hu : g ∈ u.reg.childConfigList) :
    counter (u.reg.groups g) =
      (counter (s.reg.groups g)).after errorPeriod (marks g (newHist s u)) := by
  cases h with
  | untouched _ hsame hquiet =>
    rw [hsame, marks_quiet hquiet]
    rfl
  | deleted _ hgone _ => exact absurd hu hgone.unlisted
  | updated cc _ h => exact updated_counter h
  | exited i p ret _ h => exact exited_counter h

end Steps

section Runs

/-- The counter after a run is the one before it with the marks of the run. -/
theorem run_counter (h : Execution (Step P) Q s u) (hl : Linked s.reg)
    (hg : g ∈ s.reg.childConfigList) (hu : g ∈ u.reg.childConfigList) :
    counter (u.reg.groups g) =
      (counter (s.reg.groups g)).after errorPeriod (marks g (newHist s u)) := by
  induction h with
  | refl => simp [newHist, marks]
  | tail hrun hstep _ ih =>
    have hv := run_listed_before hrun hl hg hstep hu
    have hlv := (run_hist hrun hl).1
    rw [step_counter (step_group hlv hstep hv) hu, ih hv, run_newHist hrun hl hstep,
      marks_append, after_append]

theorem step_unmarked (hl : Linked s.reg) (h : Step P s e u) (hg : g ∉ s.reg.childConfigList) :
    marks g (newHist s u) = [] := by
  apply List.filterMap_eq_nil_iff.mpr
  intro x hx
  by_cases hgroup : x.group = some g
  · rcases step_entry hl h hx hgroup with hlisted | ⟨-, hc⟩
    · exact absurd hlisted hg
    · cases hc with
      | created => rfl
      | start hs => exact spawn_mark hs.2
  · exact markOf_group hgroup

/-- A group that does not exist yet has no marks. -/
theorem step_unborn (hl : Linked s.reg) (h : Step P s e u)
    (hs : ∀ g, s.reg.nextGroup ≤ g → marks g s.hist = []) (hg : u.reg.nextGroup ≤ g) :
    marks g u.hist = [] := by
  have hle : s.reg.nextGroup ≤ g := by
    by_contra hlt
    rw [Nat.not_le] at hlt
    by_cases hlisted : g ∈ s.reg.childConfigList
    · rcases run_listed (.single h (Q := Always) trivial) hl hlisted with hu | hu
      · exact absurd ((step_linked hl h).listed g hu) (Nat.not_lt.mpr hg)
      · exact absurd hu.old (Nat.not_lt.mpr hg)
    · exact absurd (step_absent hl h ⟨hlisted, hlt⟩).1.old (Nat.not_lt.mpr hg)
  have hunlisted : g ∉ s.reg.childConfigList := fun hm =>
    absurd (hl.listed g hm) (Nat.not_lt.mpr hle)
  rw [step_hist hl h, marks_append, hs g hle, step_unmarked hl h hunlisted, List.append_nil]

theorem fromJson_errtime {j : Json} (h : childConfigFromJson j = some cc) : cc.ccErrtime = 0 := by
  unfold childConfigFromJson at h
  iterate 17 obtain ⟨_, -, h⟩ := Option.bind_eq_some_iff.mp h
  cases h
  rfl

/-- A group is created with time stamp 0. -/
theorem born_errtime (h : Born P s e cc) : cc.ccErrtime = 0 := by
  rcases h with h | ⟨file, -, hcc⟩
  · obtain ⟨con, cid, payload, o, -, -, hcc, -⟩ := acceptedSpwn_request h
    unfold childConfigUnserialize at hcc
    split at hcc
    · exact fromJson_errtime hcc
    · cases hcc
  · unfold dumpRecords at hcc
    split at hcc
    · obtain ⟨j, -, hj⟩ := List.mem_filterMap.mp hcc
      obtain ⟨c, hc, rfl⟩ := Option.map_eq_some_iff.mp hj
      have hzero : c.ccErrtime = 0 := fromJson_errtime hc
      exact hzero
    · cases hcc

end Runs

end UbervisorGroupCounters
