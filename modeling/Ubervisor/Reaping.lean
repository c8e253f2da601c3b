import Ubervisor.Outputs
import Ubervisor.JsonC

/-! # Terminated children and `sigchld_cb`

When `sigchld_cb` returns, and which of the children that had terminated are then reaped. -/
namespace UbervisorReaping

open UbervisorRuns
open UbervisorValues
open UbervisorChildConfigs
open UbervisorKernel
open UbervisorRegistry
open UbervisorServer
open UbervisorCommands
open UbervisorEvents
open UbervisorSupervision
open UbervisorSlots
open UbervisorExits
open UbervisorEffects
open UbervisorOutputs
open UbervisorJsonC

variable {P : Platform} {Q : Server → Event → Server → Prop} {s u v : Server} {e : Event}
  {g : GroupId} {p : ProcId} {pid : Pid}

/-- The pids of the children that have terminated and were not waited for. -/
def unwaited (s : Server) : List Pid := s.reg.kernel.zombies.map Prod.fst

/-- `sigchld_cb` returns in this step. -/
def Returns (s u : Server) : Prop := s.inSigchld = true ∧ u.inSigchld = false

instance (s u : Server) : Decidable (Returns s u) := inferInstanceAs (Decidable (_ ∧ _))

/-- If the child that `waitpid` returns is not in the table, no other child has terminated. -/
def UnknownLast (s : Server) : Event → Prop
  | .callback .waitpid _ =>
    match s.reg.kernel.waitpid with
    | none => True
    | some (pid, _, k) => s.reg.processFindByPid pid = none → k.zombies = []
  | _ => True

/-- What `sigchld_cb` owes when it returns in `u`, for the children terminated in `s`. -/
structure Drained (s u : Server) : Prop where
  reaped : u.reg.kernel.zombies = []
  running : ∀ p, u.reg.Tracked p → (u.reg.procs p).pPid ∈ u.reg.kernel.running
  slots : ∀ g i p, InSlot u.reg g i p → (u.reg.procs p).pPid ∈ u.reg.kernel.running
  removed : ∀ p, s.reg.Tracked p → (s.reg.procs p).pPid ∈ unwaited s →
    ¬ u.reg.Tracked p ∧ ∀ g i, ¬ InSlot u.reg g i p

section Turns

theorem noteError_turn : (noteError P s g).inSigchld = s.inSigchld := by
  unfold noteError
  dsimp only
  split
  · exact (runFatalCb_forked P _ g).1.turn
  · rfl

theorem respawn_turn (i : ℕ) : (respawn P s g i).inSigchld = s.inSigchld := by
  unfold respawn
  dsimp only
  split
  · exact (spawn_concerns P .sigchld s g i).turn
  · rfl

theorem groupExit_turn (i : ℕ) (ret : WaitStatus) :
    (groupExit P s g i ret).inSigchld = s.inSigchld := by
  unfold groupExit
  dsimp only
  rw [respawn_turn]
  split
  · exact noteError_turn
  · rfl

theorem processExit_turn (ret : WaitStatus) : (processExit P s p ret).inSigchld = s.inSigchld := by
  unfold processExit
  dsimp only
  cases (s.reg.procs p).pChildConfig with
  | none => rfl
  | some g => exact groupExit_turn _ ret

/-- `sigchld_cb` returns when `waitpid` has nothing, or a child nobody knows. -/
theorem returns_cases (h : Step P s e u) (hr : Returns s u) : ∃ o, e = .callback .waitpid o ∧
    ((s.reg.kernel.zombies = [] ∧ u.reg = s.reg) ∨
      ∃ pid ret k, s.reg.kernel.waitpid = some (pid, ret, k) ∧
        s.reg.processFindByPid pid = none ∧ u.reg = s.reg.setKernel k) := by
  obtain ⟨hen, rfl⟩ := h
  obtain ⟨hin, hout⟩ := hr
  cases e with
  | clock t =>
    rw [show (next P s (.clock t)).inSigchld = s.inSigchld from rfl, hin] at hout
    cases hout
  | childExit pid ret pos =>
    rw [show (next P s (.childExit pid ret pos)).inSigchld = s.inSigchld from rfl, hin] at hout
    cases hout
  | callback c o =>
    have hturn : c.isTurn = true := hen.2.1.symm.trans hin
    cases c <;> try cases hturn
    refine ⟨o, rfl, ?_⟩
    change (sigchldTurn P (install s o)).inSigchld = false at hout
    change (_ ∧ (sigchldTurn P (install s o)).reg = s.reg) ∨ ∃ pid ret k, _ ∧ _ ∧
      (sigchldTurn P (install s o)).reg = s.reg.setKernel k
    unfold sigchldTurn at hout ⊢
    have hreg : (install s o).reg = s.reg := rfl
    rw [hreg] at hout ⊢
    split
    · rename_i hw
      exact .inl ⟨Kernel.waitpid_eq_none.mp hw, rfl⟩
    · rename_i pid ret k hw
      rw [hw] at hout
      dsimp only at hout ⊢
      split
      · rename_i hnone
        exact .inr ⟨pid, ret, k, hw, hnone, rfl⟩
      · rename_i q hq
        rw [hq] at hout
        dsimp only at hout
        rw [processExit_turn] at hout
        exact absurd (hout.symm.trans hin) (by decide)

/-- No terminated child is left exactly if the callback did not stop at an unknown one. -/
theorem returns_zombies (h : Step P s e u) (hr : Returns s u) :
    u.reg.kernel.zombies = [] ↔ UnknownLast s e := by
  obtain ⟨o, rfl, ⟨hz, hreg⟩ | ⟨pid, ret, k, hw, hnone, hreg⟩⟩ := returns_cases h hr
  · rw [hreg]
    have hw := Kernel.waitpid_eq_none.mpr hz
    simp [UnknownLast, hw, hz]
  · rw [hreg]
    simp only [UnknownLast, hw, hnone, true_implies]
    rfl

end Turns

section Runs

theorem mem_exit_zombies {k : Kernel} {q : Pid} {ret : WaitStatus} {pos : ℕ}
    (h : q ∈ k.zombies.map Prod.fst) : q ∈ (k.exit pid ret pos).zombies.map Prod.fst := by
  unfold Kernel.exit
  split
  · have hsplit : k.zombies = k.zombies.take pos ++ k.zombies.drop pos := by simp
    rw [hsplit, List.map_append] at h
    simp only [List.map_append, List.map_cons, List.mem_append, List.mem_cons] at h ⊢
    tauto
  · exact h

/-- A terminated process stays so until the turn that takes it out of the table. -/
theorem step_unwaited (hl : Linked s.reg) (h : Step P s e u) (hp : p < s.reg.nextProc)
    (hz : s.reg.Tracked p → (s.reg.procs p).pPid ∈ unwaited s) (hu : u.reg.Tracked p) :
    (u.reg.procs p).pPid ∈ unwaited u := by
  have ho := step_outputs hl h
  have ht := ho.older.tracked p hp hu
  have hmem := hz ht
  rw [ho.older.pids p hp]
  unfold unwaited at hmem ⊢
  rw [ho.zombies]
  cases e with
  | clock t => exact hmem
  | childExit pid ret pos => exact mem_exit_zombies hmem
  | callback c o =>
    cases c <;> try exact hmem
    simp only [zombiesAfter]
    cases hw : s.reg.kernel.waitpid with
    | none =>
      rw [Kernel.waitpid_eq_none.mp hw] at hmem
      cases hmem
    | some r =>
      obtain ⟨pid, ret, k⟩ := r
      obtain ⟨hzs, -⟩ := Kernel.waitpid_eq_some hw
      rw [hzs, List.map_cons, List.mem_cons] at hmem
      rcases hmem with hpid | hmem
      · have hfind : s.reg.processFindByPid pid = some p := by
          cases hf : s.reg.processFindByPid pid with
          | none => exact absurd hpid (Linked.find_pid_none hf ht)
          | some q =>
            obtain ⟨htq, hpq⟩ := hl.find_pid hf
            rw [hl.tracked_inj ht htq (hpid.trans hpq.symm)]
        exact absurd hu (ho.gone p ret (by simp [reaped, hw, hfind]))
      · rw [hzs, List.tail_cons]
        exact hmem

theorem run_unwaited (h : Execution (Step P) Q s u) (hl : Linked s.reg) (ht : s.reg.Tracked p)
    (hz : (s.reg.procs p).pPid ∈ unwaited s) (hu : u.reg.Tracked p) :
    (u.reg.procs p).pPid ∈ unwaited u := by
  have hall : (Linked u.reg ∧ p < u.reg.nextProc) ∧
      (u.reg.Tracked p → (u.reg.procs p).pPid ∈ unwaited u) := by
    refine h.invariant (P := fun v => (Linked v.reg ∧ p < v.reg.nextProc) ∧
      (v.reg.Tracked p → (v.reg.procs p).pPid ∈ unwaited v)) ?_
      ⟨⟨hl, hl.tracked_lt ht⟩, fun _ => hz⟩
    rintro v e w ⟨⟨hlv, hp⟩, hv⟩ hstep -
    have ho := step_outputs hlv hstep
    exact ⟨⟨step_linked hlv hstep, hp.trans_le ho.older.fresh⟩, step_unwaited hlv hstep hp hv⟩
  exact hall.2 hu

/-- Whenever `sigchld_cb` returns, all is done for the children that have terminated, exactly
if it has not stopped at a child that is not in the table while others were waiting. -/
theorem returns_drained_iff (h : Reachable P s) (hrun : Execution (Step P) Always s v)
    (hstep : Step P v e u) (hr : Returns v u) : Drained s u ↔ UnknownLast v e := by
  rw [← returns_zombies hstep hr]
  have hl : Linked s.reg := ReachableBy.linked h
  have hlu : Linked u.reg := ReachableBy.linked (Q := Always) (by
    obtain ⟨a, b, t, h⟩ := h
    exact ⟨a, b, t, (h.trans hrun).tail hstep trivial⟩)
  constructor
  · intro hd
    exact hd.reaped
  · intro hz
    have hrunning : ∀ p, u.reg.Tracked p → (u.reg.procs p).pPid ∈ u.reg.kernel.running := by
      intro p hp
      have := hlu.tracked_unreaped hp
      rw [Kernel.unreaped, hz] at this
      simpa using this
    refine ⟨hz, hrunning, ?_, ?_⟩
    · intro g i p hs
      exact hrunning p ((hlu.placed g i p).mp hs).1
    · intro p ht hp
      have hgone : ¬ u.reg.Tracked p := by
        intro hu
        have hmem := run_unwaited (hrun.tail hstep (Q := Always) trivial) hl ht hp hu
        rw [unwaited, hz] at hmem
        cases hmem
      exact ⟨hgone, fun g i hs => hgone ((hlu.placed g i p).mp hs).1⟩

/-- A group with a heartbeat command. -/
def heartbeatRequest : Json :=
  .object [(text "name", .string (text "web")), (text "args", .array [.string (text "/bin/web")]),
    (text "heartbeat", .string (text "/bin/beat")), (text "status", .int 1)]

def heartbeatPlatform : Platform := sample [printed heartbeatRequest]

/-- The process and its heartbeat command have terminated, and the signal was delivered. -/
def heartbeatRun : List Event :=
  [connecting, asking "SPWN" heartbeatRequest [100], .callback (.heartbeat 0) (starting [200]),
    .childExit 100 (.exited 1) 0, .childExit 200 (.exited 0) 0, .callback .sigchld (starting [])]

def heartbeatState : Server :=
  stateAfter (next heartbeatPlatform) (initial false false 100) heartbeatRun

def heartbeatTurn : Event := .callback .waitpid (starting [101])

theorem heartbeatState_reachable : Reachable heartbeatPlatform heartbeatState := by
  have h : Admits Enabled (next heartbeatPlatform) Always (initial false false 100)
    heartbeatRun := by decide +kernel
  exact ⟨false, false, 100, h.execution⟩

theorem heartbeatTurn_step : Step heartbeatPlatform heartbeatState heartbeatTurn
    (next heartbeatPlatform heartbeatState heartbeatTurn) := ⟨by decide +kernel, rfl⟩

theorem heartbeatTurn_returns :
    Returns heartbeatState (next heartbeatPlatform heartbeatState heartbeatTurn) := by
  decide +kernel

theorem heartbeatTurn_drained_iff :
    Drained heartbeatState (next heartbeatPlatform heartbeatState heartbeatTurn) ↔
      UnknownLast heartbeatState heartbeatTurn :=
  returns_drained_iff heartbeatState_reachable (.refl _) heartbeatTurn_step heartbeatTurn_returns

/-- The callback returns at the heartbeat command and leaves the process. -/
theorem heartbeatTurn_undrained : ¬ ∀ (P : Platform) (s v u : Server) (e : Event),
    Reachable P s → Execution (Step P) Always s v → Step P v e u → Returns v u →
      Drained s u := by
  intro h
  have hd := h heartbeatPlatform heartbeatState heartbeatState _ heartbeatTurn
    heartbeatState_reachable (.refl _) heartbeatTurn_step heartbeatTurn_returns
  have hleft : (next heartbeatPlatform heartbeatState heartbeatTurn).reg.kernel.zombies.length =
      1 := by decide +kernel
  rw [hd.reaped] at hleft
  cases hleft

end Runs

end UbervisorReaping
