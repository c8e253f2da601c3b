import Ubervisor.GroupCounters
import Ubervisor.JsonC

/-! # When errors break a group

A group is broken when its error count reaches the bound. How the count relates to the errors,
and to the deaths, of a window of `ERROR_PERIOD` seconds. -/
namespace UbervisorErrorWindows

open UbervisorErrorCounters
open UbervisorRuns
open UbervisorValues
open UbervisorChildConfigs
open UbervisorKernel
open UbervisorRegistry
open UbervisorServer
open UbervisorCommands
open UbervisorEvents
open UbervisorSupervision
open UbervisorSlots
open UbervisorUpdates
open UbervisorExits
open UbervisorEffects
open UbervisorGroupSteps
open UbervisorGroupCounters
open UbervisorJsonC

variable {P : Platform} {Q : Server → Event → Server → Prop} {s u v : Server} {e : Event}
  {g : GroupId} {cc : ChildConfig} {i : ℕ} {p : ProcId} {ret : WaitStatus} {t n : ℤ}

section Exits

theorem exited_breaks_iff (h : Exited g i p ret s u)
    (he : exitIsError ret (s.reg.groups g) = true) :
    Breaks ret s.clock (s.reg.groups g) ↔
      errorMax * (s.reg.groups g).ccInstances ≤ (counter (u.reg.groups g)).count := by
  rw [exited_counter h, exited_marks h, if_pos he]
  constructor
  · intro hb
    exact hb.2
  · intro hc
    exact ⟨he, hc⟩

/-- A process is replaced only in a group that runs on. -/
theorem exited_idle (h : Exited g i p ret s u) (hs : (u.reg.groups g).ccStatus ≠ statusRunning) :
    ∀ x ∈ newHist s u, ¬ Starts g x := by
  obtain ⟨l, hl, hk⟩ := exited_newHist h
  rw [h.status] at hs
  intro x hx hstart
  rw [hl] at hx
  rcases List.mem_cons.mp hx with rfl | hx
  · cases hstart.2
  · cases hk x hx with
    | start hr _ => exact hs hr
    | broken _ => cases hstart.2
    | fatal _ => cases hstart.2

/-- A step in which a process of the group ends in an error. -/
theorem step_error (h : GroupStep P s e u g) (hne : errorTimes g (newHist s u) ≠ []) :
    ∃ i p ret, Exited g i p ret s u ∧ exitIsError ret (s.reg.groups g) = true := by
  cases h with
  | untouched _ _ hquiet =>
    rw [errorTimes, marks_quiet hquiet] at hne
    exact absurd rfl hne
  | deleted _ _ hentry =>
    rw [hentry] at hne
    exact absurd rfl hne
  | updated cc _ h =>
    obtain ⟨t, ht⟩ := List.exists_mem_of_ne_nil _ hne
    obtain ⟨x, hx, hmark⟩ := List.mem_filterMap.mp ht
    rw [(updated_reset h x hx).1] at hmark
    cases hmark
  | exited i p ret _ h =>
    refine ⟨i, p, ret, h, ?_⟩
    rw [errorTimes, exited_marks h] at hne
    by_contra he
    rw [if_neg he] at hne
    exact hne rfl

theorem step_errorTimes (h : GroupStep P s e u g) (ht : t ∈ errorTimes g (newHist s u)) :
    t = s.clock := by
  obtain ⟨i, p, ret, hx, he⟩ := step_error h (List.ne_nil_of_mem ht)
  rw [errorTimes, exited_marks hx, if_pos he] at ht
  exact List.mem_singleton.mp ht

end Exits

section Bursts

/-- The clock does not go back, and it has passed `ERROR_PERIOD`. -/
def Timely (s : Server) (_ : Event) (u : Server) : Prop :=
  errorPeriod < s.clock ∧ s.clock ≤ u.clock

instance (s u : Server) : Decidable (Timely s e u) := inferInstanceAs (Decidable (_ ∧ _))

/-- The group has `n` instances, and no UPDT changes its status. -/
def Steady (g : GroupId) (n : ℤ) (s : Server) (e : Event) (u : Server) : Prop :=
  ((s.reg.groups g).ccInstances = n ∧ (u.reg.groups g).ccInstances = n) ∧ KeepsStatus g s e u

instance (s u : Server) : Decidable (Steady g n s e u) := inferInstanceAs (Decidable (_ ∧ _))

theorem born_last (h : Born P s e cc)
    (hs : settings (u.reg.groups g) = settings (withSlots cc n)) :
    (counter (u.reg.groups g)).last = 0 := by
  have hlast := congrArg ChildConfig.ccErrtime hs
  have hzero : cc.ccErrtime = 0 := born_errtime h
  exact hlast.trans hzero

/-- No error count is negative once errors are counted. -/
theorem reachable_settled (h : ReachableBy P Timely s) (hg : g ∈ s.reg.childConfigList) :
    Settled 0 (counter (s.reg.groups g)) := by
  obtain ⟨a, b, t, h⟩ := h
  have hall : ∀ g ∈ s.reg.childConfigList, Settled 0 (counter (s.reg.groups g)) := by
    refine h.invariant_under (I := fun s => Linked s.reg)
      (P := fun s => ∀ g ∈ s.reg.childConfigList, Settled 0 (counter (s.reg.groups g)))
      (fun _ _ _ hl hstep _ => step_linked hl hstep) ?_ Registry.linked_init (fun g hg => ?_)
    · intro s e u hl hi hstep hq g hu
      rcases step_born hl hstep hu with hg | ⟨cc, n, hborn, hset⟩
      · have hs := step_group hl hstep hg
        rw [step_counter hs hu]
        apply (hi g hg).after
        intro t ht
        rw [step_errorTimes hs ht, Int.zero_add]
        exact hq.1
      · exact .inr (born_last hborn hset)
    · cases hg
  exact hall g hg

/-- The errors of a run lie between its first and its last state. -/
theorem run_errorTimes (h : Execution (Step P) Q s u) (hq : ∀ s e u, Q s e u → Timely s e u)
    (hl : Linked s.reg) (hg : g ∈ s.reg.childConfigList) : s.clock ≤ u.clock ∧
      ∀ t ∈ errorTimes g (newHist s u), errorPeriod < t ∧ s.clock ≤ t ∧ t ≤ u.clock := by
  induction h with
  | refl => exact ⟨Int.le_refl _, by simp [newHist, errorTimes, marks, times]⟩
  | @tail v u e hrun hstep hqv ih =>
    obtain ⟨hle, htimes⟩ := ih
    obtain ⟨hlate, hmono⟩ := hq v e u hqv
    refine ⟨hle.trans hmono, ?_⟩
    intro t ht
    rw [run_newHist hrun hl hstep, errorTimes_append, List.mem_append] at ht
    rcases ht with ht | ht
    · obtain ⟨h₁, h₂, h₃⟩ := htimes t ht
      exact ⟨h₁, h₂, h₃.trans hmono⟩
    · rcases run_listed hrun hl hg with hv | hv
      · rw [step_errorTimes (step_group (run_hist hrun hl).1 hstep hv) ht]
        exact ⟨hlate, hle, hmono⟩
      · rw [errorTimes, marks_quiet (step_absent (run_hist hrun hl).1 hstep hv).2] at ht
        cases ht

theorem run_keepsStatus (h : Execution (Step P) Q s u) (hl : Linked s.reg)
    (hq : ∀ s e u, Q s e u → KeepsStatus g s e u) : Mark.reset ∉ marks g (newHist s u) := by
  induction h with
  | refl => simp [newHist, marks]
  | tail hrun hstep hqv ih =>
    rw [run_newHist hrun hl hstep, marks_append, List.mem_append, not_or]
    exact ⟨ih, hq _ _ _ hqv⟩

/-- A burst of errors in a steady group breaks it, and the last of them starts no process. -/
theorem burst_breaks (h : ReachableBy P Timely s) (hg : g ∈ s.reg.childConfigList)
    (hrun : Execution (Step P) (fun s e u => Timely s e u ∧ Steady g n s e u) s v)
    (hstep : Step P v e u) (hlast : Timely v e u ∧ Steady g n v e u)
    (herror : errorTimes g (newHist v u) ≠ []) (hperiod : v.clock ≤ s.clock + errorPeriod)
    (hcount : errorMax * n ≤ (errorTimes g (newHist s u)).length) :
    (u.reg.groups g).ccStatus = statusBroken ∧ ∀ x ∈ newHist v u, ¬ Starts g x := by
  have hl : Linked s.reg := ReachableBy.linked h
  have hwhole := hrun.tail hstep hlast
  have hv : g ∈ v.reg.childConfigList := by
    rcases run_listed hrun hl hg with hv | hv
    · exact hv
    · rw [errorTimes, marks_quiet (step_absent (run_hist hrun hl).1 hstep hv).2] at herror
      exact absurd rfl herror
  have hgroup := step_group (run_hist hrun hl).1 hstep hv
  obtain ⟨i, p, ret, hx, he⟩ := step_error hgroup herror
  have hu : g ∈ u.reg.childConfigList := by
    rw [hx.list]
    exact hv
  have hcounter := run_counter hwhole hl hg hu
  rw [marks_errors (run_keepsStatus hwhole hl fun _ _ _ hq => hq.2.2)] at hcounter
  -- all errors of the window are at most `ERROR_PERIOD` apart, so none of them starts anew
  have htimes : ∀ t ∈ errorTimes g (newHist s u),
      errorPeriod < t ∧ s.clock ≤ t ∧ t ≤ s.clock + errorPeriod := by
    intro t ht
    have hwide := (run_errorTimes hwhole (fun _ _ _ hq => hq.1) hl hg).2 t ht
    refine ⟨hwide.1, hwide.2.1, ?_⟩
    rw [run_newHist hrun hl hstep, errorTimes_append, List.mem_append] at ht
    rcases ht with ht | ht
    · have hbefore := ((run_errorTimes hrun (fun _ _ _ hq => hq.1) hl hg).2 t ht).2.2
      exact hbefore.trans hperiod
    · rw [step_errorTimes hgroup ht]
      exact hperiod
  have hreach : errorMax * n ≤ (counter (u.reg.groups g)).count := by
    cases hts : errorTimes g (newHist s u) with
    | nil =>
      rw [run_newHist hrun hl hstep, errorTimes_append, List.append_eq_nil_iff] at hts
      exact absurd hts.2 herror
    | cons t ts =>
      rw [hts] at hcounter htimes hcount
      have hlate : 0 + errorPeriod < t := by
        have := (htimes t (by simp)).1
        omega
      have hcarried := (reachable_settled h hg).carried_nonneg hlate
      rw [hcounter, after_burst fun t' ht' => (htimes t' ht').2]
      rw [List.length_cons] at hcount
      push_cast at hcount
      omega
  have hbreaks : Breaks ret v.clock (v.reg.groups g) := by
    apply (exited_breaks_iff hx he).mpr
    rw [hlast.2.1.1]
    exact hreach
  have hbroken : (u.reg.groups g).ccStatus = statusBroken := by
    rw [hx.status, counted_status, if_pos hbreaks]
  refine ⟨hbroken, exited_idle hx ?_⟩
  rw [hbroken]
  decide

/-- A group of one process, created with some errors. -/
def loopRequest : Json :=
  .object [(text "name", .string (text "web")), (text "args", .array [.string (text "/bin/web")]),
    (text "killsig", .int 15), (text "status", .int 1), (text "error", .int (-3))]

def loopPlatform : Platform := sample [printed loopRequest]

def loopStart : List Event := [connecting, asking "SPWN" loopRequest [100]]

/-- The process `pid` ends and is replaced. -/
def crash (ret : WaitStatus) (pid : Pid) : List Event :=
  .childExit pid ret 0 :: signalled 2 [pid + 1]

/-- The signal of the end of `pid` has been delivered. -/
def crashed (ret : WaitStatus) (pid : Pid) : List Event :=
  [.childExit pid ret 0, .callback .sigchld (starting [])]

def crashTurn (pid : Pid) : Event := .callback .waitpid (starting [pid + 1])

/-- Five processes of the group have ended one after the other, and the sixth has ended. -/
def crashLoop (ret : WaitStatus) : List Event :=
  [100, 101, 102, 103, 104].flatMap (crash ret) ++ crashed ret 105

def loopState : Server := stateAfter (next loopPlatform) (initial false false 100) loopStart

def loopEnd (ret : WaitStatus) : Server :=
  stateAfter (next loopPlatform) loopState (crashLoop ret)

theorem loopState_timely : ReachableBy loopPlatform Timely loopState := by
  have h : Admits Enabled (next loopPlatform) Timely (initial false false 100) loopStart := by
    decide +kernel
  exact ⟨false, false, 100, h.execution⟩

theorem loopEnd_breaks :
    ((next loopPlatform (loopEnd (.exited 1)) (crashTurn 105)).reg.groups 0).ccStatus =
        statusBroken ∧
      ∀ x ∈ newHist (loopEnd (.exited 1))
        (next loopPlatform (loopEnd (.exited 1)) (crashTurn 105)), ¬ Starts 0 x := by
  generalize hlast : next loopPlatform (loopEnd (.exited 1)) (crashTurn 105) = u
  have hrun : Admits Enabled (next loopPlatform) (fun s e u => Timely s e u ∧ Steady 0 1 s e u)
        loopState (crashLoop (.exited 1)) ∧
      Enabled (loopEnd (.exited 1)) (crashTurn 105) ∧ 0 ∈ loopState.reg.childConfigList ∧
      (Timely (loopEnd (.exited 1)) (crashTurn 105) u ∧
        Steady 0 1 (loopEnd (.exited 1)) (crashTurn 105) u) ∧
      errorTimes 0 (newHist (loopEnd (.exited 1)) u) ≠ [] ∧
      (loopEnd (.exited 1)).clock ≤ loopState.clock + errorPeriod ∧
      errorMax * 1 ≤ (errorTimes 0 (newHist loopState u)).length := by
    rw [← hlast]
    decide +kernel
  obtain ⟨h, henabled, hg, hsteady, herror, hperiod, hcount⟩ := hrun
  exact burst_breaks loopState_timely hg h.execution ⟨henabled, hlast.symm⟩ hsteady herror hperiod
    hcount

end Bursts

section Series

/-- The errors of the group since its status was set or more than `ERROR_PERIOD` seconds
passed between two of them, newest first. -/
def errorSeries (g : GroupId) (h : List Hist) : List ℤ := series errorPeriod (marks g h)

/-- How many of the times lie in the `ERROR_PERIOD` seconds that end at `t`. -/
def within (t : ℤ) (ts : List ℤ) : ℕ := ts.countP fun t' => t - errorPeriod ≤ t' ∧ t' ≤ t

/-- A series that is long enough to break the group, with an error at `t`, has as many errors
in the last `ERROR_PERIOD` seconds. A group without errors so far was given none, or the clock
has passed `ERROR_PERIOD`. -/
def Dense (cc : ChildConfig) (S : List ℤ) (t : ℤ) : Prop :=
  (S = [] → cc.ccError ≤ 0 ∨ errorPeriod < t) ∧
  (errorMax * cc.ccInstances ≤ (extend errorPeriod t S).length →
    errorMax * cc.ccInstances ≤ within t (extend errorPeriod t S))

instance (S : List ℤ) : Decidable (Dense cc S t) := inferInstanceAs (Decidable (_ ∧ _))

/-- What an entry of a step from `s` must satisfy. -/
def DenseEntry (s : Server) : Hist → Prop
  | .exited g _ _ t true => Dense (s.reg.groups g) (errorSeries g s.hist) t
  | _ => True

instance : ∀ h, Decidable (DenseEntry s h)
  | .exited _ _ _ _ true => inferInstanceAs (Decidable (Dense _ _ _))
  | .exited _ _ _ _ false | .created _ | .deleted _ | .spawned .. | .spawnFailed ..
  | .orphanExited .. | .broken .. | .fatal _ | .resized .. | .statusSet .. =>
    inferInstanceAs (Decidable True)

/-- Errors that may break a group are dense. -/
def DenseStep (s : Server) (_ : Event) (u : Server) : Prop := ∀ x ∈ newHist s u, DenseEntry s x

instance (s u : Server) : Decidable (DenseStep s e u) :=
  inferInstanceAs (Decidable (∀ x ∈ _, DenseEntry s x))

/-- Whenever the history says that a group was broken at `t`, enough errors precede. -/
def BrokenByBurst (h : List Hist) : Prop := ∀ l m g t n, h = l ++ .broken g t n :: m →
  errorMax * n ≤ within t (errorTimes g l)

/-- The series is a part of the errors so far. -/
theorem within_series {l : List Mark} : within t (series errorPeriod l) ≤ within t (times l) := by
  have hle : within t (series errorPeriod l) ≤ within t (times l).reverse :=
    series_sublist.countP_le
  rw [within, within, List.countP_reverse] at hle
  exact hle

/-- What the counters mean along a run of dense errors. -/
structure Measured (s : Server) : Prop where
  linked : Linked s.reg
  unborn : ∀ g, s.reg.nextGroup ≤ g → marks g s.hist = []
  bounded : ∀ g ∈ s.reg.childConfigList,
    Bounded 0 (counter (s.reg.groups g)) (errorSeries g s.hist)

theorem errorSeries_hist (hl : Linked s.reg) (h : Step P s e u) :
    errorSeries g u.hist = series errorPeriod (marks g s.hist ++ marks g (newHist s u)) := by
  rw [errorSeries, step_hist hl h, marks_append]

theorem exited_bounded (hm : Measured s) (h : Step P s e u) (hx : Exited g i p ret s u)
    (hd : ∀ x ∈ newHist s u, DenseEntry s x) :
    Bounded 0 (counter (u.reg.groups g)) (errorSeries g u.hist) := by
  have hb := hm.bounded g hx.owned.1
  rw [errorSeries_hist hm.linked h, exited_counter hx, exited_marks hx]
  split
  · rename_i he
    obtain ⟨l, hl, -⟩ := exited_newHist hx
    have hentry := hd _ (by rw [hl]; exact List.mem_cons_self)
    rw [he] at hentry
    rw [series_error]
    apply hb.error
    intro hS
    rw [Int.zero_add]
    exact hentry.1 hS
  · rw [List.append_nil]
    exact hb

theorem updated_bounded (hm : Measured s) (h : Step P s e u) (hg : g ∈ s.reg.childConfigList)
    (hx : Updated cc g s u) : Bounded 0 (counter (u.reg.groups g)) (errorSeries g u.hist) := by
  have hreset := fun x hx' => (updated_reset hx x hx').1
  rw [errorSeries_hist hm.linked h, updated_counter hx]
  by_cases hn : marks g (newHist s u) = []
  · rw [hn, List.append_nil]
    exact hm.bounded g hg
  · rw [series_resets hreset hn, after_resets hreset hn]
    exact .inl (Int.le_refl 0)

theorem step_measured (hm : Measured s) (h : Step P s e u) (hd : DenseStep s e u) :
    Measured u where
  linked := step_linked hm.linked h
  unborn _ hg := step_unborn hm.linked h hm.unborn hg
  bounded g hu := by
    by_cases hg : g ∈ s.reg.childConfigList
    · cases step_group hm.linked h hg with
      | untouched _ hsame hquiet =>
        rw [errorSeries_hist hm.linked h, hsame, marks_quiet hquiet, List.append_nil]
        exact hm.bounded g hg
      | deleted _ hgone _ => exact absurd hu hgone.unlisted
      | updated cc _ hx => exact updated_bounded hm h hg hx
      | exited i p ret _ hx => exact exited_bounded hm h hx hd
    · have hnew : s.reg.nextGroup ≤ g := by
        by_contra hlt
        exact (step_absent hm.linked h ⟨hg, Nat.not_le.mp hlt⟩).1.unlisted hu
      rcases step_born hm.linked h hu with hg' | ⟨cc, n, hborn, hset⟩
      · exact absurd hg' hg
      · rw [errorSeries_hist hm.linked h, hm.unborn g hnew, step_unmarked hm.linked h hg]
        exact .inr (born_last hborn hset)

theorem step_broken (hl : Linked s.reg) (h : Step P s e u)
    (hb : .broken g t n ∈ newHist s u) : ∃ i p ret, Exited g i p ret s u ∧
      Breaks ret s.clock (s.reg.groups g) ∧ t = s.clock ∧ n = (s.reg.groups g).ccInstances := by
  have hg : g ∈ s.reg.childConfigList := by
    rcases step_entry hl h hb rfl with hg | ⟨-, hc⟩
    · exact hg
    · cases hc with
      | start hs => cases hs.2
  cases step_group hl h hg with
  | untouched _ _ hquiet => exact absurd rfl (hquiet _ hb)
  | deleted _ _ hentry =>
    rw [hentry] at hb
    cases List.mem_singleton.mp hb
  | updated cc _ hx =>
    obtain ⟨l, hl, hk⟩ := hx.concerns.hist
    rw [newHist_eq hl] at hb
    cases hk _ hb with
    | start _ hs => cases hs.2
  | exited i p ret _ hx =>
    obtain ⟨l, hl, hk⟩ := exited_newHist hx
    rw [hl, List.mem_cons] at hb
    rcases hb with hb | hb
    · cases hb
    · cases hk _ hb with
      | start _ hs => cases hs.2
      | broken hbreaks => exact ⟨i, p, ret, hx, hbreaks, rfl, rfl⟩

/-- The step that breaks a group follows as many errors. -/
theorem step_brokenByBurst (hm : Measured s) (h : Step P s e u) (hd : DenseStep s e u)
    {l m : List Hist} (hsplit : newHist s u = l ++ .broken g t n :: m) :
    errorMax * n ≤ within t (errorTimes g (s.hist ++ l)) := by
  have hmem : .broken g t n ∈ newHist s u := by
    rw [hsplit]
    exact List.mem_append_right _ List.mem_cons_self
  obtain ⟨i, p, ret, hx, hb, rfl, rfl⟩ := step_broken hm.linked h hmem
  obtain ⟨k, hk, -⟩ := exited_newHist hx
  rw [hb.1] at hk
  have hdense : Dense (s.reg.groups g) (errorSeries g s.hist) s.clock :=
    hd (.exited g i ret s.clock true) (by rw [hk]; exact List.mem_cons_self)
  have hseries : errorSeries g u.hist = extend errorPeriod s.clock (errorSeries g s.hist) := by
    rw [errorSeries_hist hm.linked h, exited_marks hx, if_pos hb.1, series_error]
    rfl
  have hcount := exited_bounded hm h hx hd
  rw [hseries] at hcount
  have hlong := ((exited_breaks_iff hx hb.1).mp hb).trans
    (hcount.count_le (by cases errorSeries g s.hist <;> simp [extend]; split <;> simp))
  have hwithin := hdense.2 hlong
  rw [← hseries, errorSeries_hist hm.linked h] at hwithin
  -- the exit itself is the first entry of the step, so it precedes the break
  have hfirst : ∃ l', l = .exited g i ret s.clock true :: l' := by
    rw [hk] at hsplit
    cases l with
    | nil => cases hsplit
    | cons x l' => exact ⟨l', by rw [(List.cons.inj hsplit).1]⟩
  obtain ⟨l', rfl⟩ := hfirst
  have hmarks : marks g (.exited g i ret s.clock true :: l') = .error s.clock :: marks g l' := by
    simp [marks, markOf]
  have hmore : errorTimes g (s.hist ++ .exited g i ret s.clock true :: l') =
      times (marks g s.hist ++ marks g (newHist s u)) ++ errorTimes g l' := by
    rw [errorTimes, marks_append, hmarks, exited_marks hx, if_pos hb.1, List.append_cons,
      times_append]
    rfl
  rw [hmore, within, List.countP_append]
  have hle := within_series (t := s.clock) (l := marks g s.hist ++ marks g (newHist s u))
  rw [within, within] at hle
  rw [within] at hwithin
  push_cast
  omega

theorem initial_measured (a b : Bool) (t : ℤ) : Measured (initial a b t) where
  linked := Registry.linked_init
  unborn _ _ := rfl
  bounded g hg := by cases hg

/-- In a run of dense errors a group is only broken by a burst. -/
theorem dense_brokenByBurst (h : ReachableBy P DenseStep s) : BrokenByBurst s.hist := by
  obtain ⟨a, b, t₀, h⟩ := h
  refine h.invariant_under (I := Measured) (P := fun s => BrokenByBurst s.hist)
    (fun _ _ _ hm hstep hd => step_measured hm hstep hd) ?_ (initial_measured a b t₀) ?_
  · intro s e u hm hs hstep hd l m g t n hsplit
    rw [step_hist hm.linked hstep] at hsplit
    rcases List.append_eq_append_iff.mp hsplit with ⟨k, rfl, hnew⟩ | ⟨k, hold, hnew⟩
    · exact step_brokenByBurst hm hstep hd hnew
    · cases k with
      | nil =>
        rw [List.append_nil] at hold
        rw [← hold, ← List.append_nil s.hist]
        exact step_brokenByBurst hm hstep hd hnew.symm
      | cons x k =>
        rw [List.cons_append] at hnew
        rw [← (List.cons.inj hnew).1] at hold
        exact hs l k g t n hold
  · intro l m g t n hsplit
    simp [initial] at hsplit

theorem loopEnd_brokenByBurst :
    BrokenByBurst (next loopPlatform (loopEnd (.exited 1)) (crashTurn 105)).hist := by
  have hstart : Admits Enabled (next loopPlatform) DenseStep (initial false false 100)
    loopStart := by decide +kernel
  have hloop : Admits Enabled (next loopPlatform) DenseStep loopState (crashLoop (.exited 1)) := by
    decide +kernel
  have hrun := hstart.execution.trans hloop.execution
  exact dense_brokenByBurst ⟨false, false, 100, hrun.tail ⟨by decide +kernel, rfl⟩
    (by decide +kernel)⟩

/-- The clock does not go back. -/
def Onward (s : Server) (_ : Event) (u : Server) : Prop := s.clock ≤ u.clock

instance (s u : Server) : Decidable (Onward s e u) := inferInstanceAs (Decidable (_ ≤ _))

/-- An error every ten seconds. -/
def slowLoop : List Event :=
  loopStart ++ [(100, 100), (110, 101), (120, 102), (130, 103), (140, 104), (150, 105)].flatMap
    fun d => .clock d.1 :: crash (.exited 1) d.2

/-- The sixth error breaks the group, although only two of them are in the window. -/
theorem slowLoop_broken : ¬ ∀ (P : Platform) (s : Server),
    ReachableBy P Onward s → BrokenByBurst s.hist := by
  intro hall
  have h : Admits Enabled (next loopPlatform) Onward (initial false false 100) slowLoop := by
    decide +kernel
  have hburst := hall loopPlatform _ ⟨false, false, 100, h.execution⟩
  generalize hhist : (stateAfter (next loopPlatform) (initial false false 100) slowLoop).hist =
    k at hburst
  have hsplit : k = k.take 13 ++ .broken 0 150 1 :: k.drop 14 := by
    rw [← hhist]
    decide +kernel
  have hfew : within 150 (errorTimes 0 (k.take 13)) = 2 := by
    rw [← hhist]
    decide +kernel
  have hmany := hburst _ _ 0 150 1 hsplit
  rw [hfew] at hmany
  exact absurd hmany (by decide)

end Series

section Idle

/-- A group that does not run is not started until an UPDT changes its status. -/
theorem step_idle (h : GroupStep P s e u g) (hk : KeepsStatus g s e u)
    (hs : (s.reg.groups g).ccStatus ≠ statusRunning) :
    (g ∈ u.reg.childConfigList → (u.reg.groups g).ccStatus ≠ statusRunning) ∧
      ∀ x ∈ newHist s u, ¬ Starts g x := by
  cases h with
  | untouched _ hsame hquiet =>
    constructor
    · intro _
      rw [hsame]
      exact hs
    · intro x hx hstart
      exact hquiet x hx hstart.1
  | deleted _ hgone hentry =>
    constructor
    · intro hu
      exact absurd hu hgone.unlisted
    · intro x hx hstart
      rw [hentry, List.mem_singleton] at hx
      subst hx
      cases hstart.2
  | updated cc _ h =>
    have hc : ¬ intChanges cc.ccStatus (s.reg.groups g).ccStatus = true := by
      intro hc
      obtain ⟨x, hx⟩ := List.exists_mem_of_ne_nil _ ((updated_marks h).mpr hc)
      apply hk
      rw [← (updated_reset h x hx).1]
      exact hx
    constructor
    · intro _
      rw [h.status, intOr_same (Bool.eq_false_iff.mpr hc)]
      exact hs
    · obtain ⟨l, hl, hentries⟩ := h.concerns.hist
      rw [newHist_eq hl]
      intro x hx hstart
      cases hentries x hx with
      | start hr _ =>
        rcases hr with hr | hr
        · exact hs hr
        · exact hc hr.changes
      | resized _ _ => cases hstart.2
      | statusSet _ => cases hstart.2
  | exited i p ret _ h =>
    have hidle : (u.reg.groups g).ccStatus ≠ statusRunning := by
      rw [h.status, counted_status]
      split
      · decide
      · exact hs
    exact ⟨fun _ => hidle, exited_idle h hidle⟩

theorem run_idle (h : Execution (Step P) (KeepsStatus g) s u) (hl : Linked s.reg)
    (hg : g ∈ s.reg.childConfigList) (hs : (s.reg.groups g).ccStatus ≠ statusRunning) :
    (g ∈ u.reg.childConfigList → (u.reg.groups g).ccStatus ≠ statusRunning) ∧
      ∀ x ∈ newHist s u, ¬ Starts g x := by
  induction h with
  | refl => exact ⟨fun _ => hs, by simp [newHist]⟩
  | @tail v u e hrun hstep hk ih =>
    obtain ⟨hv, hnone⟩ := ih
    have hlv := (run_hist hrun hl).1
    rw [run_newHist hrun hl hstep]
    rcases run_listed hrun hl hg with hgv | hgone
    · obtain ⟨hu, hnew⟩ := step_idle (step_group hlv hstep hgv) hk (hv hgv)
      refine ⟨hu, ?_⟩
      intro x hx
      rcases List.mem_append.mp hx with hx | hx
      · exact hnone x hx
      · exact hnew x hx
    · obtain ⟨hgone', hquiet⟩ := step_absent hlv hstep hgone
      refine ⟨fun hu => absurd hu hgone'.unlisted, ?_⟩
      intro x hx hstart
      rcases List.mem_append.mp hx with hx | hx
      · exact hnone x hx hstart
      · exact hquiet x hx hstart.1

end Idle

section Deaths

/-- A nonzero exit code, or a signal. -/
def abnormal : WaitStatus → Bool
  | .exited code => code ≠ 0
  | .signaled _ => true

def deathOf (g : GroupId) : Hist → Option (WaitStatus × ℤ)
  | .exited g' _ ret t _ => if g' = g ∧ abnormal ret then some (ret, t) else none
  | _ => none

/-- How and when processes of the group died. -/
def deaths (g : GroupId) (h : List Hist) : List (WaitStatus × ℤ) := h.filterMap (deathOf g)

/-- The times of the deaths by an exit code, or by the signal `killsig`. -/
def noticed (killsig : ℤ) (l : List (WaitStatus × ℤ)) : List ℤ :=
  l.filterMap fun d => match d.1 with
    | .exited _ => some d.2
    | .signaled sig => if (sig : ℤ) = killsig then some d.2 else none

/-- The errors of a window, with the count the group enters it with, reach the bound. -/
def Reaches (cc : ChildConfig) : List ℤ → Prop
  | [] => False
  | t :: ts => errorMax * cc.ccInstances ≤
      (if cc.ccErrtime + errorPeriod < t then 0 else cc.ccError) + (ts.length + 1)

/-- Whether deaths within `ERROR_PERIOD` seconds leave the group broken. -/
def Enough (cc : ChildConfig) (l : List (WaitStatus × ℤ)) : Prop :=
  cc.ccStatus = statusBroken ∨ Reaches cc (noticed cc.ccKillsig l)

/-- The step is not an UPDT of the group. -/
def NoUpdate (P : Platform) (g : GroupId) (s : Server) (e : Event) (_ : Server) : Prop :=
  (acceptedUpdt P s e).map Prod.snd ≠ some g

instance (s u : Server) : Decidable (NoUpdate P g s e u) := inferInstanceAs (Decidable (_ ≠ _))

/-- After the step from `v` to `u` the group is broken, and from then on no process of it is
started until an UPDT changes its status. -/
structure StaysDown (P : Platform) (g : GroupId) (v u : Server) : Prop where
  broken : (u.reg.groups g).ccStatus = statusBroken
  last : ∀ x ∈ newHist v u, ¬ Starts g x
  later : ∀ w, Execution (Step P) (KeepsStatus g) u w → ∀ x ∈ newHist u w, ¬ Starts g x

theorem deaths_append (h k : List Hist) : deaths g (h ++ k) = deaths g h ++ deaths g k :=
  List.filterMap_append

theorem noticed_append {k : ℤ} (l m : List (WaitStatus × ℤ)) :
    noticed k (l ++ m) = noticed k l ++ noticed k m := List.filterMap_append

theorem deaths_quiet {l : List Hist} (h : ∀ x ∈ l, x.group ≠ some g) : deaths g l = [] := by
  apply List.filterMap_eq_nil_iff.mpr
  intro x hx
  have hg := h x hx
  cases x with
  | exited g' _ _ _ _ =>
    have hne : g' ≠ g := fun he => hg (by rw [he]; rfl)
    simp [deathOf, hne]
  | _ => rfl

theorem exited_deaths (h : Exited g i p ret s u) : deaths g (newHist s u) =
    if abnormal ret then [(ret, s.clock)] else [] := by
  obtain ⟨l, hl, hk⟩ := exited_newHist h
  have hrest : deaths g l = [] := by
    apply List.filterMap_eq_nil_iff.mpr
    intro x hx
    cases hk x hx with
    | start _ hs => cases x <;> first | rfl | cases hs.2
    | broken _ => rfl
    | fatal _ => rfl
  rw [hl]
  unfold deaths at hrest ⊢
  rw [List.filterMap_cons, hrest]
  cases ha : abnormal ret <;> simp [deathOf, ha]

/-- `exit_is_error` notices these deaths and no others. -/
theorem noticed_death (ret : WaitStatus) (t : ℤ) (cc : ChildConfig) :
    noticed cc.ccKillsig (if abnormal ret then [(ret, t)] else []) =
      if exitIsError ret cc then [t] else [] := by
  cases ret with
  | exited code =>
    by_cases hc : code = 0 <;> simp [noticed, abnormal, exitIsError, hc]
  | signaled sig =>
    by_cases hs : (sig : ℤ) = cc.ccKillsig <;> simp [noticed, abnormal, exitIsError, hs]

/-- What a run without an UPDT of the group leaves as it is. -/
structure Undisturbed (g : GroupId) (s u : Server) : Prop where
  instances : (u.reg.groups g).ccInstances = (s.reg.groups g).ccInstances
  killsig : (u.reg.groups g).ccKillsig = (s.reg.groups g).ccKillsig
  errors : marks g (newHist s u) = (errorTimes g (newHist s u)).map .error
  noticed : errorTimes g (newHist s u) =
    noticed (s.reg.groups g).ccKillsig (deaths g (newHist s u))

theorem exited_undisturbed (h : Exited g i p ret s u) : Undisturbed g s u where
  instances := h.instances
  killsig := by
    have hk := congrArg ChildConfig.ccKillsig h.record
    refine hk.trans ?_
    unfold counted
    split
    · rfl
    · split <;> rfl
  errors := by
    rw [errorTimes, exited_marks h]
    split <;> rfl
  noticed := by
    rw [exited_deaths h, noticed_death, errorTimes, exited_marks h]
    split <;> rfl

theorem step_undisturbed (h : GroupStep P s e u g) (hu : g ∈ u.reg.childConfigList)
    (hq : NoUpdate P g s e u) : Undisturbed g s u := by
  cases h with
  | untouched _ hsame hquiet =>
    refine ⟨by rw [hsame], by rw [hsame], ?_, ?_⟩
    · rw [errorTimes, marks_quiet hquiet]
      rfl
    · rw [errorTimes, marks_quiet hquiet, deaths_quiet hquiet]
      rfl
  | deleted _ hgone _ => exact absurd hu hgone.unlisted
  | updated cc ha _ =>
    apply absurd _ hq
    rw [ha]
    rfl
  | exited i p ret _ h => exact exited_undisturbed h

theorem run_undisturbed (h : Execution (Step P) (NoUpdate P g) s u) (hl : Linked s.reg)
    (hg : g ∈ s.reg.childConfigList) (hu : g ∈ u.reg.childConfigList) : Undisturbed g s u := by
  induction h with
  | refl =>
    exact ⟨rfl, rfl, by simp [newHist, marks, errorTimes, times],
      by simp [newHist, marks, errorTimes, times, deaths, noticed]⟩
  | @tail v u e hrun hstep hq ih =>
    have hv := run_listed_before hrun hl hg hstep hu
    have h₁ := ih hv
    have h₂ := step_undisturbed (step_group (run_hist hrun hl).1 hstep hv) hu hq
    have hnew := run_newHist hrun hl hstep
    refine ⟨h₂.instances.trans h₁.instances, h₂.killsig.trans h₁.killsig, ?_, ?_⟩
    · rw [hnew, marks_append, errorTimes_append, List.map_append, ← h₁.errors, ← h₂.errors]
    · have hkill := h₂.noticed
      rw [h₁.killsig] at hkill
      rw [hnew, errorTimes_append, deaths_append, noticed_append, ← h₁.noticed, ← hkill]

theorem reaches_iff {a : ℤ} {ts : List ℤ} (hts : ∀ t ∈ ts, a ≤ t ∧ t ≤ a + errorPeriod) :
    Reaches cc ts ↔ ts ≠ [] ∧ errorMax * cc.ccInstances ≤
      ((counter cc).after errorPeriod (ts.map .error)).count := by
  cases ts with
  | nil => simp [Reaches]
  | cons t ts =>
    rw [after_burst hts]
    constructor
    · intro hr
      exact ⟨by simp, hr⟩
    · rintro ⟨-, hr⟩
      exact hr

theorem Reaches.append {ts : List ℤ} (h : Reaches cc ts) (t : ℤ) : Reaches cc (ts ++ [t]) := by
  cases ts with
  | nil => exact h.elim
  | cons t' ts =>
    simp only [Reaches, List.cons_append, List.length_append, List.length_singleton] at h ⊢
    push_cast at h ⊢
    omega

/-- The status after a window of errors. -/
theorem run_broken_iff {a : ℤ} (h : Execution (Step P) (NoUpdate P g) s u) (hl : Linked s.reg)
    (hg : g ∈ s.reg.childConfigList) (hu : g ∈ u.reg.childConfigList)
    (hts : ∀ t ∈ errorTimes g (newHist s u), a ≤ t ∧ t ≤ a + errorPeriod) :
    (u.reg.groups g).ccStatus = statusBroken ↔ (s.reg.groups g).ccStatus = statusBroken ∨
      Reaches (s.reg.groups g) (errorTimes g (newHist s u)) := by
  induction h with
  | refl => simp [newHist, errorTimes, marks, times, Reaches]
  | @tail v u e hrun hstep hq ih =>
    have hv := run_listed_before hrun hl hg hstep hu
    have hwhole := hrun.tail hstep hq
    have hcounter := run_counter hwhole hl hg hu
    rw [(run_undisturbed hwhole hl hg hu).errors] at hcounter
    have hnew : errorTimes g (newHist s u) =
        errorTimes g (newHist s v) ++ errorTimes g (newHist v u) := by
      rw [run_newHist hrun hl hstep, errorTimes_append]
    have hbefore := ih hv fun t ht => hts t (by rw [hnew]; exact List.mem_append_left _ ht)
    have hgroup := step_group (run_hist hrun hl).1 hstep hv
    by_cases hne : errorTimes g (newHist v u) = []
    · rw [hnew, hne, List.append_nil, ← hbefore]
      cases hgroup with
      | untouched _ hsame _ => rw [hsame]
      | deleted _ hgone _ => exact absurd hu hgone.unlisted
      | updated cc ha _ =>
        apply absurd _ hq
        rw [ha]
        rfl
      | exited i p ret _ hx =>
        rw [hx.status, counted_status, if_neg]
        intro hb
        rw [errorTimes, exited_marks hx, if_pos hb.1] at hne
        cases hne
    · obtain ⟨i, p, ret, hx, he⟩ := step_error hgroup hne
      have hlast : errorTimes g (newHist v u) = [v.clock] := by
        rw [errorTimes, exited_marks hx, if_pos he]
        rfl
      have hreach : Breaks ret v.clock (v.reg.groups g) ↔
          Reaches (s.reg.groups g) (errorTimes g (newHist s u)) := by
        rw [exited_breaks_iff hx he, reaches_iff hts, ← hcounter,
          (run_undisturbed hrun hl hg hv).instances]
        constructor
        · intro hc
          refine ⟨?_, hc⟩
          rw [hnew, hlast]
          simp
        · rintro ⟨-, hc⟩
          exact hc
      have hmono : Reaches (s.reg.groups g) (errorTimes g (newHist s v)) →
          Reaches (s.reg.groups g) (errorTimes g (newHist s u)) := by
        intro hr
        rw [hnew, hlast]
        exact hr.append v.clock
      rw [hx.status, counted_status, ← hreach]
      rw [← hreach] at hmono
      split
      · rename_i hb
        exact ⟨fun _ => .inr hb, fun _ => rfl⟩
      · rename_i hb
        rw [hbefore]
        constructor
        · rintro (hs | hr)
          · exact .inl hs
          · exact .inr (hmono hr)
        · rintro (hs | hr)
          · exact .inl hs
          · exact absurd hr hb

/-- A step in which a process of the group dies. -/
theorem step_death (h : GroupStep P s e u g) (hq : NoUpdate P g s e u)
    (hd : deaths g (newHist s u) ≠ []) : ∃ i p ret, Exited g i p ret s u := by
  cases h with
  | untouched _ _ hquiet => exact absurd (deaths_quiet hquiet) hd
  | deleted _ _ hentry =>
    rw [hentry] at hd
    exact absurd rfl hd
  | updated cc ha _ =>
    apply absurd _ hq
    rw [ha]
    rfl
  | exited i p ret _ h => exact ⟨i, p, ret, h⟩

/-- Deaths within `ERROR_PERIOD` seconds stop a group exactly if enough of them are by an exit
code or by the signal the group is killed with. -/
theorem deaths_stop_iff {a : ℤ} (h : Reachable P s) (hg : g ∈ s.reg.childConfigList)
    (hrun : Execution (Step P) (NoUpdate P g) s v) (hstep : Step P v e u)
    (hq : NoUpdate P g v e u) (hdeath : deaths g (newHist v u) ≠ [])
    (hperiod : ∀ d ∈ deaths g (newHist s u), a ≤ d.2 ∧ d.2 ≤ a + errorPeriod) :
    StaysDown P g v u ↔ Enough (s.reg.groups g) (deaths g (newHist s u)) := by
  have hl : Linked s.reg := ReachableBy.linked h
  have hlv := (run_hist hrun hl).1
  have hwhole := hrun.tail hstep hq
  have hv : g ∈ v.reg.childConfigList := by
    rcases run_listed hrun hl hg with hv | hv
    · exact hv
    · exact absurd (deaths_quiet (step_absent hlv hstep hv).2) hdeath
  obtain ⟨i, p, ret, hx⟩ := step_death (step_group hlv hstep hv) hq hdeath
  have hu : g ∈ u.reg.childConfigList := by
    rw [hx.list]
    exact hv
  have hnoticed := (run_undisturbed hwhole hl hg hu).noticed
  have htimes : ∀ t ∈ errorTimes g (newHist s u), a ≤ t ∧ t ≤ a + errorPeriod := by
    rw [hnoticed]
    intro t ht
    obtain ⟨d, hd, hsome⟩ := List.mem_filterMap.mp ht
    have ht : d.2 = t := by
      split at hsome
      · exact Option.some.inj hsome
      · split at hsome
        · exact Option.some.inj hsome
        · cases hsome
    rw [← ht]
    exact hperiod d hd
  have hbroken := run_broken_iff hwhole hl hg hu htimes
  rw [hnoticed] at hbroken
  constructor
  · intro hdown
    exact hbroken.mp hdown.broken
  · intro henough
    have hb := hbroken.mpr henough
    have hidle : (u.reg.groups g).ccStatus ≠ statusRunning := by
      rw [hb]
      decide
    exact ⟨hb, exited_idle hx hidle, fun w hw => (run_idle hw hx.linked hu hidle).2⟩

theorem loopEnd_stops_iff :
    StaysDown loopPlatform 0 (loopEnd (.exited 1))
        (next loopPlatform (loopEnd (.exited 1)) (crashTurn 105)) ↔
      Enough (loopState.reg.groups 0) (deaths 0 (newHist loopState
        (next loopPlatform (loopEnd (.exited 1)) (crashTurn 105)))) := by
  generalize hlast : next loopPlatform (loopEnd (.exited 1)) (crashTurn 105) = u
  have hrun : Admits Enabled (next loopPlatform) (NoUpdate loopPlatform 0) loopState
        (crashLoop (.exited 1)) ∧
      Enabled (loopEnd (.exited 1)) (crashTurn 105) ∧ 0 ∈ loopState.reg.childConfigList ∧
      NoUpdate loopPlatform 0 (loopEnd (.exited 1)) (crashTurn 105) u ∧
      deaths 0 (newHist (loopEnd (.exited 1)) u) ≠ [] ∧
      ∀ d ∈ deaths 0 (newHist loopState u), 100 ≤ d.2 ∧ d.2 ≤ 100 + errorPeriod := by
    rw [← hlast]
    decide +kernel
  obtain ⟨h, henabled, hg, hquiet, hdeath, hperiod⟩ := hrun
  exact deaths_stop_iff loopState_timely.reachable hg h.execution ⟨henabled, hlast.symm⟩ hquiet
    hdeath hperiod

/-- Six processes in a row die from a segmentation fault, and the seventh is started. -/
theorem faultLoop_runs : ¬ ∀ (P : Platform) (s v u : Server) (e : Event) (g : GroupId) (a : ℤ),
    Reachable P s → g ∈ s.reg.childConfigList → Execution (Step P) (NoUpdate P g) s v →
      Step P v e u → NoUpdate P g v e u → deaths g (newHist v u) ≠ [] →
        (∀ d ∈ deaths g (newHist s u), a ≤ d.2 ∧ d.2 ≤ a + errorPeriod) →
          errorMax * (s.reg.groups g).ccInstances ≤ (deaths g (newHist s u)).length →
            StaysDown P g v u := by
  intro hall
  generalize hlast : next loopPlatform (loopEnd (.signaled 11)) (crashTurn 105) = u
  have hrun : Admits Enabled (next loopPlatform) (NoUpdate loopPlatform 0) loopState
        (crashLoop (.signaled 11)) ∧
      Enabled (loopEnd (.signaled 11)) (crashTurn 105) ∧ 0 ∈ loopState.reg.childConfigList ∧
      NoUpdate loopPlatform 0 (loopEnd (.signaled 11)) (crashTurn 105) u ∧
      deaths 0 (newHist (loopEnd (.signaled 11)) u) ≠ [] ∧
      (∀ d ∈ deaths 0 (newHist loopState u), 100 ≤ d.2 ∧ d.2 ≤ 100 + errorPeriod) ∧
      errorMax * (loopState.reg.groups 0).ccInstances ≤
        (deaths 0 (newHist loopState u)).length ∧
      (u.reg.groups 0).ccStatus = statusRunning := by
    rw [← hlast]
    decide +kernel
  obtain ⟨h, henabled, hg, hquiet, hdeath, hperiod, hcount, hrunning⟩ := hrun
  have hdown := hall loopPlatform loopState (loopEnd (.signaled 11)) u (crashTurn 105) 0 100
    loopState_timely.reachable hg h.execution ⟨henabled, hlast.symm⟩ hquiet hdeath hperiod hcount
  rw [hdown.broken] at hrunning
  cases hrunning

end Deaths

end UbervisorErrorWindows
