import Mathlib.Algebra.Group.Prod
import Ubervisor.SlotInvariants
import Ubervisor.StatusNotes

/-! # How often a broken group calls its fatal command

The branch of `sigchld_cb` that sets `STATUS_BROKEN` sends the notification and calls
`run_fatal_cb`. It does not ask whether the group is broken already, so a process that ends
later may take it again. -/
namespace UbervisorFatalCommands

open UbervisorRuns
open UbervisorValues
open UbervisorChildConfigs
open UbervisorKernel
open UbervisorServer
open UbervisorEvents
open UbervisorSupervision
open UbervisorExits
open UbervisorEffects
open UbervisorGroupSteps
open UbervisorSlotInvariants
open UbervisorTranscripts
open UbervisorStatusNotes
open UbervisorJsonC

variable {P : Platform} {s u : Server} {e : Event} {g : GroupId}

section Steps

/-- The group whose process a turn of `sigchld_cb` has reaped. -/
def exitGroup (s : Server) (e : Event) : Option GroupId :=
  (reaped s e).bind fun x => (s.reg.procs x.1).pChildConfig

/-- The calls of `run_fatal_cb` for the group. -/
def fatalCalls (g : GroupId) (s u : Server) : ℕ := (newHist s u).count (.fatal g)

/-- The `STATUS_BROKEN` notifications that `sigchld_cb` sends for the group. -/
def brokenNotices (g : GroupId) (s : Server) (e : Event) (u : Server) : ℕ :=
  if exitGroup s e = some g then
    ((newOut s u).filterMap statusOf).count ((s.reg.groups g).ccName, statusBroken)
  else 0

/-- How often a step calls `run_fatal_cb` for the group and announces that it is broken. -/
def issued (g : GroupId) (s : Server) (e : Event) (u : Server) : ℕ × ℕ :=
  (fatalCalls g s u, brokenNotices g s e u)

/-- `sigchld_cb` changes the status of the group to `STATUS_BROKEN`. -/
def Transition (g : GroupId) (s : Server) (e : Event) (u : Server) : Prop :=
  exitGroup s e = some g ∧ (s.reg.groups g).ccStatus ≠ statusBroken ∧
    (u.reg.groups g).ccStatus = statusBroken

instance : Decidable (Transition g s e u) := inferInstanceAs (Decidable (_ ∧ _ ∧ _))

/-- An error of a process of the group, when the group is broken already, starts a new count or
stays below the threshold. -/
def Rests (g : GroupId) (s : Server) (e : Event) (_ : Server) : Prop :=
  ∀ x ∈ reaped s e, (s.reg.procs x.1).pChildConfig = some g →
    (s.reg.groups g).ccStatus = statusBroken → exitIsError x.2 (s.reg.groups g) = true →
      (if (s.reg.groups g).ccErrtime + errorPeriod < s.clock then 1
        else (s.reg.groups g).ccError + 1) < errorMax * (s.reg.groups g).ccInstances

instance : Decidable (Rests g s e u) := inferInstanceAs (Decidable (∀ _ ∈ _, _))

theorem brokenBy_exit (h : brokenBy s e = some g) : exitGroup s e = some g := by
  obtain ⟨p, ret, hr, hcfg, -⟩ := brokenBy_eq_some.mp h
  exact Option.bind_eq_some_iff.mpr ⟨(p, ret), hr, hcfg⟩

theorem step_fatalCalls (hl : Linked s.reg) (h : Step P s e u) :
    fatalCalls g s u = if brokenBy s e = some g then 1 else 0 := by
  by_cases hby : brokenBy s e = some g
  · obtain ⟨p, ret, hr, hcfg, hb⟩ := brokenBy_eq_some.mp hby
    rw [if_pos hby, fatalCalls, (step_exited hl h hr hcfg).once, if_pos hb]
  · rw [if_neg hby]
    apply List.count_eq_zero.mpr
    intro hx
    by_cases hg : g ∈ s.reg.childConfigList
    · cases step_group hl h hg with
      | untouched _ _ hquiet => exact hquiet _ hx rfl
      | deleted _ _ hentry =>
        rw [hentry] at hx
        cases List.mem_singleton.mp hx
      | updated cc _ hup =>
        obtain ⟨l, hh, hentries⟩ := hup.concerns.hist
        rw [newHist_eq hh] at hx
        cases hentries _ hx with
        | start _ hs => cases hs.2
      | exited i p ret hr hex =>
        have hcfg := ((hl.placed g i p).mp hex.owned).2.1
        have hb : ¬ Breaks ret s.clock (s.reg.groups g) := by
          intro hb
          exact hby (brokenBy_eq_some.mpr ⟨p, ret, hr, hcfg, hb⟩)
        have hcount := hex.once
        rw [if_neg hb] at hcount
        exact List.count_eq_zero.mp hcount hx
    · rcases step_entry hl h hx rfl with hlisted | ⟨-, hnew⟩
      · exact hg hlisted
      · cases hnew with
        | start hs => cases hs.2

theorem step_brokenNotices (hl : Linked s.reg) (h : Step P s e u) :
    brokenNotices g s e u = if brokenBy s e = some g then 1 else 0 := by
  unfold brokenNotices
  by_cases hexit : exitGroup s e = some g
  · rw [if_pos hexit, (step_notes hl h).newOut]
    obtain ⟨⟨p, ret⟩, hr, hcfg⟩ := Option.bind_eq_some_iff.mp hexit
    have hnotes : statusNotes P s e = (brokenBy s e).elim [] fun g =>
        [((s.reg.groups g).ccName, statusBroken)] := by
      obtain ⟨o, rfl⟩ := reaped_waitpid hr
      unfold statusNotes
      cases brokenBy s (.callback .waitpid o) <;> rfl
    rw [hnotes]
    cases hby : brokenBy s e with
    | none => rfl
    | some g' =>
      have hgg : g' = g := Option.some.inj ((brokenBy_exit hby).symm.trans hexit)
      rw [hgg, if_pos rfl]
      exact List.count_singleton_self ..
  · rw [if_neg hexit, if_neg]
    exact fun hby => hexit (brokenBy_exit hby)

/-- A step calls the fatal command as often as it announces that the group is broken. -/
theorem step_issued (hl : Linked s.reg) (h : Step P s e u) :
    issued g s e u = if brokenBy s e = some g then (1, 1) else 0 := by
  unfold issued
  rw [step_fatalCalls hl h, step_brokenNotices hl h]
  split <;> rfl

theorem transition_brokenBy (hl : Linked s.reg) (h : Step P s e u) (ht : Transition g s e u) :
    brokenBy s e = some g := by
  obtain ⟨hexit, hold, hnew⟩ := ht
  obtain ⟨⟨p, ret⟩, hr, hcfg⟩ := Option.bind_eq_some_iff.mp hexit
  have hex := step_exited hl h hr hcfg
  refine brokenBy_eq_some.mpr ⟨p, ret, hr, hcfg, ?_⟩
  by_contra hb
  rw [hex.status, counted_status, if_neg hb] at hnew
  exact hold hnew

/-- If the group is not broken yet, the branch changes its status. -/
theorem brokenBy_transition (hl : Linked s.reg) (h : Step P s e u) (hby : brokenBy s e = some g)
    (hst : (s.reg.groups g).ccStatus ≠ statusBroken) : Transition g s e u := by
  obtain ⟨p, ret, hr, hcfg, hb⟩ := brokenBy_eq_some.mp hby
  refine ⟨brokenBy_exit hby, hst, ?_⟩
  rw [(step_exited hl h hr hcfg).status, counted_status, if_pos hb]

/-- The branch is not taken without a transition, unless the group does not rest. -/
theorem rests_brokenBy (hl : Linked s.reg) (h : Step P s e u) (hno : ¬ Transition g s e u)
    (hq : Rests g s e u) : brokenBy s e ≠ some g := by
  intro hby
  obtain ⟨p, ret, hr, hcfg, herr, hmany⟩ := brokenBy_eq_some.mp hby
  by_cases hst : (s.reg.groups g).ccStatus = statusBroken
  · have hfew := hq (p, ret) hr hcfg hst herr
    have hcount : errorMax * (s.reg.groups g).ccInstances ≤
        (if (s.reg.groups g).ccErrtime + errorPeriod < s.clock then 0
          else (s.reg.groups g).ccError) + 1 := hmany
    split at hcount <;> rename_i hold
    · rw [if_pos hold] at hfew
      omega
    · rw [if_neg hold] at hfew
      omega
  · exact hno (brokenBy_transition hl h hby hst)

end Steps

section Runs

/-- Steps between two transitions during which the group rests. -/
def Between (g : GroupId) (s : Server) (e : Event) (u : Server) : Prop :=
  ¬ Transition g s e u ∧ Rests g s e u

instance : Decidable (Between g s e u) := inferInstanceAs (Decidable (_ ∧ _))

/-- After a transition and up to the next one, `run_fatal_cb` is called once and the
notification is sent once. -/
theorem transition_issued_once {a b c : Server} {n : ℕ × ℕ} (h : Reachable P a)
    (hstep : Step P a e b) (ht : Transition g a e b)
    (hrun : Totals (Step P) (Between g) (issued g) b c n) : issued g a e b + n = (1, 1) := by
  have hl : Linked a.reg := ReachableBy.linked h
  have hfirst : issued g a e b = (1, 1) := by
    rw [step_issued hl hstep, if_pos (transition_brokenBy hl hstep ht)]
  have hrest : n = 0 := by
    refine hrun.eq_zero (I := fun s => Linked s.reg) ?_ (step_linked hl hstep)
    intro s e u hl hs hq
    refine ⟨step_linked hl hs, ?_⟩
    rw [step_issued hl hs, if_neg (rests_brokenBy hl hs hq.1 hq.2)]
  rw [hfirst, hrest, add_zero]

/-- Each process of the list fails in turn, and the next one takes its place. -/
def failing : List Pid → List Event
  | pid :: next :: l => .childExit pid (.exited 1) 0 :: .callback .waitpid (starting [next]) ::
      failing (next :: l)
  | _ => []

/-- A group of two: eleven errors of the first instance. -/
def crashRun : List Event :=
  [connecting, asking "SPWN" pairRequest [100, 101], .callback .sigchld (starting [])] ++
    failing [100, 102, 103, 104, 105, 106, 107, 108, 109, 110, 111, 112] ++
    [.childExit 112 (.exited 1) 0]

def crashState : Server := stateAfter (next pairPlatform) (initial false false 100) crashRun

def reapEvent : Event := .callback .waitpid (starting [])

def brokenState : Server := next pairPlatform crashState reapEvent

theorem crashState_reachable : Reachable pairPlatform crashState := by
  have h : Admits Enabled (next pairPlatform) Always (initial false false 100) crashRun := by
    decide +kernel
  exact ⟨false, false, 100, h.execution⟩

/-- The second process fails a minute later. -/
def lateRun : List Event := [.clock 160, .childExit 101 (.exited 1) 0, reapEvent]

theorem crashState_issued_once : issued 0 crashState reapEvent brokenState +
    totalFrom (next pairPlatform) (issued 0) brokenState 0 lateRun = (1, 1) := by
  have hrun : Admits Enabled (next pairPlatform) (Between 0) brokenState lateRun ∧
      Enabled crashState reapEvent ∧ Transition 0 crashState reapEvent brokenState := by
    decide +kernel
  obtain ⟨hlate, henabled, hbroken⟩ := hrun
  exact transition_issued_once crashState_reachable ⟨henabled, rfl⟩ hbroken hlate.totals

/-- It fails at once: the fatal command is called again. -/
theorem crashState_issued_twice : ¬ ∀ (P : Platform) (g : GroupId) (a b c : Server) (e : Event)
    (n : ℕ × ℕ), Reachable P a → Step P a e b → Transition g a e b →
      Totals (Step P) (fun s e u => ¬ Transition g s e u) (issued g) b c n →
        issued g a e b + n = (1, 1) := by
  intro h
  generalize htotal : totalFrom (next pairPlatform) (issued 0) brokenState 0
    [.childExit 101 (.exited 1) 0, reapEvent] = n
  have hrun : Admits Enabled (next pairPlatform) (fun s e u => ¬ Transition 0 s e u) brokenState
        [.childExit 101 (.exited 1) 0, reapEvent] ∧
      Enabled crashState reapEvent ∧ Transition 0 crashState reapEvent brokenState ∧
      issued 0 crashState reapEvent brokenState + n ≠ (1, 1) := by
    rw [← htotal]
    decide +kernel
  obtain ⟨hlate, henabled, hbroken, htwice⟩ := hrun
  exact htwice (h pairPlatform 0 crashState brokenState _ reapEvent n crashState_reachable
    ⟨henabled, rfl⟩ hbroken (htotal ▸ hlate.totals))

end Runs

end UbervisorFatalCommands
