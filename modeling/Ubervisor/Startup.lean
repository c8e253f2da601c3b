import Ubervisor.Answers
import Ubervisor.Reaping

/-! # Startup

`cmd_server` loads a dump, and so starts processes, before it registers the handler of
`SIGCHLD`. Here the loops of `load_dump` go turn by turn, and children may terminate between
any two turns. -/
namespace UbervisorStartup

open UbervisorRuns
open UbervisorValues
open UbervisorChildConfigs
open UbervisorKernel
open UbervisorRegistry
open UbervisorReadCallback (Command findCommand)
open UbervisorServer
open UbervisorCommands
open UbervisorEvents
open UbervisorSupervision
open UbervisorSlots
open UbervisorUpdates
open UbervisorEffects
open UbervisorOutputs
open UbervisorReaping
open UbervisorAnswers
open UbervisorJsonC

section Turns

variable {P : Platform} {s u : Server} {g : GroupId} {newest : Bool}

/-- How far `cmd_server` has come. In `load_dump` there are elements of the array left, and in
its inner loop there is a group whose processes are started from a slot on. -/
inductive Phase where
  | loading (newest : Bool) (cursor : Option (GroupId × ℕ)) (elements : List Json)
  | loaded
  | serving

def Phase.loads : Phase → Bool
  | .loading .. => true
  | _ => false

def Phase.waits : Phase → Bool
  | .loaded => true
  | _ => false

def Phase.serves : Phase → Bool
  | .serving => true
  | _ => false

/-- `load_dump` fails, and `cmd_server` with it if it was the caller. -/
def abandon (newest : Bool) (s : Server) : Server × Phase :=
  (if newest then s else { s with halted := true }, .loaded)

/-- `load_dump` up to its loops. -/
def openDump (P : Platform) (newest : Bool) (s : Server) : Option Bytes → Server × Phase
  | none => abandon newest s
  | some [] => (s, .loaded)
  | some buf =>
    match P.jsonParse (CStr.ofBytes buf).bytes with
    | some (.array l) => (s, .loading newest none l)
    | _ => abandon newest s

/-- The inner loop of `load_dump`. -/
def slotTurn (P : Platform) (newest : Bool) (s : Server) (g : GroupId) (j : ℕ) (ts : List Json) :
    Server × Phase :=
  if (j : ℤ) < (s.reg.groups g).ccInstances then
    (spawn P .loadDump s g j, .loading newest (some (g, j + 1)) ts)
  else (s, .loading newest none ts)

/-- The outer loop of `load_dump`, up to its inner loop. -/
def elementTurn (P : Platform) (newest : Bool) (s : Server) (ts : List Json) :
    Json → Server × Phase
  | .object l =>
    match childConfigFromJson (.object l) with
    | none => abandon newest s
    | some cc =>
      if cc.ccCommand = none then abandon newest s
      else
        let s := slog P s (text "load: " ++ cc.ccName.bytes ++ text "\n")
        let cc := dumpDefaults cc
        if cc.ccInstances < 0 then ({ s with halted := true }, .loaded)
        else
          let g := s.reg.nextGroup
          (insertGroup s (withSlots cc cc.ccInstances),
            .loading newest (if cc.ccStatus = statusRunning then some (g, 0) else none) ts)
  | _ => abandon newest s

def loadTurn (P : Platform) (newest : Bool) (s : Server) :
    Option (GroupId × ℕ) → List Json → Server × Phase
  | some (g, j), ts => slotTurn P newest s g j ts
  | none, [] => (s, .loaded)
  | none, t :: ts => elementTurn P newest s ts t

/-- What the slots from the cursor on are like. -/
def Resumable (s : Server) : Phase → Prop
  | .loading _ (some (g, j)) _ => g ∈ s.reg.childConfigList ∧
      ∀ i, j ≤ i → (i : ℤ) < (s.reg.groups g).ccInstances → cellAt s g i = some .null
  | _ => True

/-- A turn starts processes at most. -/
structure Resumed (s : Server) (r : Server × Phase) : Prop where
  linked : Linked r.1.reg
  resumable : Resumable r.1 r.2
  zombies : r.1.reg.kernel.zombies = s.reg.kernel.zombies
  turn : r.1.inSigchld = s.inSigchld
  serves : r.2.serves = false

theorem abandon_resumed (hl : Linked s.reg) : Resumed s (abandon newest s) := by
  cases newest with
  | true => exact ⟨hl, trivial, rfl, rfl, rfl⟩
  | false => exact ⟨hl, trivial, rfl, rfl, rfl⟩

theorem openDump_resumed (newest : Bool) (hl : Linked s.reg) (file : Option Bytes) :
    Resumed s (openDump P newest s file) := by
  unfold openDump
  split
  · exact abandon_resumed hl
  · exact ⟨hl, trivial, rfl, rfl, rfl⟩
  · split
    · exact ⟨hl, trivial, rfl, rfl, rfl⟩
    · exact abandon_resumed hl

theorem spawn_zombies (site : SpawnSite) (s : Server) (g : GroupId) (i : ℕ) :
    (spawn P site s g i).reg.kernel.zombies = s.reg.kernel.zombies := by
  rcases spawn_result P site s g i with ⟨hr, -⟩ | ⟨pid, k, pr, hf, -, -, -, hr, -⟩
  · rw [hr]
  · obtain ⟨-, -, -, -, hz⟩ := Kernel.fork_eq_some hf
    rw [hr]
    exact hz

theorem spawn_instances (site : SpawnSite) (s : Server) (g : GroupId) (i : ℕ) :
    ((spawn P site s g i).reg.groups g).ccInstances = (s.reg.groups g).ccInstances :=
  settings_instances (spawn_filled P site s g i).settings

theorem slotTurn_resumed (hl : Linked s.reg) {j : ℕ} {ts : List Json}
    (h : Resumable s (.loading newest (some (g, j)) ts)) :
    Resumed s (slotTurn P newest s g j ts) := by
  obtain ⟨hg, hcells⟩ := h
  unfold slotTurn
  by_cases hj : (j : ℤ) < (s.reg.groups g).ccInstances
  · rw [if_pos hj]
    have hfilled := spawn_filled P .loadDump s g j
    refine ⟨spawn_linked P .loadDump hl hg (hcells j le_rfl hj) (by simp), ⟨?_, ?_⟩,
      spawn_zombies _ _ _ _, hfilled.concerns.turn, rfl⟩
    · rw [hfilled.list]
      exact hg
    · intro i hi hlt
      rw [spawn_instances] at hlt
      rw [hfilled.outside i (by omega)]
      exact hcells i (by omega) hlt
  · rw [if_neg hj]
    exact ⟨hl, trivial, rfl, rfl, rfl⟩

theorem elementTurn_resumed (hl : Linked s.reg) (ts : List Json) (t : Json) :
    Resumed s (elementTurn P newest s ts t) := by
  cases t with
  | object l =>
    cases hcc : childConfigFromJson (.object l) with
    | none =>
      simp only [elementTurn, hcc]
      exact abandon_resumed hl
    | some cc =>
      simp only [elementTurn, hcc]
      by_cases hcmd : cc.ccCommand = none
      · rw [if_pos hcmd]
        exact abandon_resumed hl
      · rw [if_neg hcmd]
        generalize dumpDefaults cc = cc
        by_cases hneg : cc.ccInstances < 0
        · rw [if_pos hneg]
          exact ⟨hl, trivial, rfl, rfl, rfl⟩
        · rw [if_neg hneg]
          refine ⟨hl.insert ?_ ?_, ?_, rfl, rfl, rfl⟩
          · simp only [withSlots, List.length_replicate]
            omega
          · intro c hc
            exact List.eq_of_mem_replicate hc
          · by_cases hrun : cc.ccStatus = statusRunning
            · rw [if_pos hrun]
              refine ⟨List.mem_cons_self, fun i _ hi => ?_⟩
              have hself : ∀ x : Server, (insertGroup x (withSlots cc cc.ccInstances)).reg.groups
                  x.reg.nextGroup = withSlots cc cc.ccInstances := fun x => insert_self
              rw [hself] at hi
              rw [cellAt, hself]
              exact withSlots_cells hi
            · rw [if_neg hrun]
              trivial
  | _ => exact abandon_resumed hl

theorem loadTurn_resumed (hl : Linked s.reg) {cursor : Option (GroupId × ℕ)} {ts : List Json}
    (h : Resumable s (.loading newest cursor ts)) :
    Resumed s (loadTurn P newest s cursor ts) := by
  rcases cursor with _ | ⟨g, j⟩
  · rcases ts with _ | ⟨t, ts⟩
    · exact ⟨hl, trivial, rfl, rfl, rfl⟩
    · exact elementTurn_resumed hl ts t
  · exact slotTurn_resumed hl h

/-- A turn that nothing comes between. -/
def Turn (P : Platform) (newest : Bool) (a b : Server × Phase) : Prop :=
  ∃ cursor ts, a.2 = .loading newest cursor ts ∧ b = loadTurn P newest a.1 cursor ts

/-- What `cmd_server` makes of the result of `load_dump`. -/
def concluded (newest : Bool) (r : Server × Bool) : Server × Phase :=
  if r.2 then (r.1, .loaded) else abandon newest r.1

theorem slotTurns (newest : Bool) (g : GroupId) (ts : List Json) (n j : ℕ) (s : Server)
    (h : (s.reg.groups g).ccInstances = (j + n : ℕ)) :
    Relation.ReflTransGen (Turn P newest) (s, .loading newest (some (g, j)) ts)
      (spawnRange P .loadDump s g j n, .loading newest none ts) := by
  induction n generalizing j s with
  | zero =>
    refine .single ⟨_, _, rfl, ?_⟩
    have hend : ¬ (j : ℤ) < (s.reg.groups g).ccInstances := by omega
    exact (if_neg hend).symm
  | succ n ih =>
    have hturn : Turn P newest (s, .loading newest (some (g, j)) ts)
        (spawn P .loadDump s g j, .loading newest (some (g, j + 1)) ts) := by
      have hj : (j : ℤ) < (s.reg.groups g).ccInstances := by omega
      exact ⟨_, _, rfl, (if_pos hj).symm⟩
    refine .head hturn ?_
    have hrest := ih (j + 1) (spawn P .loadDump s g j) (by rw [spawn_instances, h]; omega)
    exact hrest

/-- Turns that nothing comes between are a call of `load_dump`. -/
theorem loadTurns (ts : List Json) (s : Server) :
    Relation.ReflTransGen (Turn P newest) (s, .loading newest none ts)
      (concluded newest (loadGroups P ts s)) := by
  fun_induction loadGroups P ts s with
  | case1 s => exact .single ⟨_, _, rfl, rfl⟩
  | case2 s l ts hcc =>
    refine .single ⟨_, _, rfl, ?_⟩
    simp only [loadTurn, elementTurn, hcc]
    rfl
  | case3 s l ts cc hcc hcmd =>
    refine .single ⟨_, _, rfl, ?_⟩
    simp only [loadTurn, elementTurn, hcc, if_pos hcmd]
    rfl
  | case4 s l ts cc hcc hcmd s' cc' hneg =>
    refine .single ⟨_, _, rfl, ?_⟩
    simp only [loadTurn, elementTurn, hcc, if_neg hcmd]
    cases newest with
    | true => exact (if_pos hneg).symm
    | false => exact (if_pos hneg).symm
  | case5 fields ts s cc hcc hcmd s' cc' hneg ih =>
    have hturn : Turn P newest (s, .loading newest none (.object fields :: ts))
        (insertGroup s' (withSlots cc' cc'.ccInstances), .loading newest
          (if cc'.ccStatus = statusRunning then some (s'.reg.nextGroup, 0) else none) ts) := by
      refine ⟨_, _, rfl, ?_⟩
      simp only [loadTurn, elementTurn, hcc, if_neg hcmd]
      exact (if_neg hneg).symm
    refine .head hturn ?_
    by_cases hrun : cc'.ccStatus = statusRunning
    · rw [if_pos hrun]
      have hself : ((insertGroup s' (withSlots cc' cc'.ccInstances)).reg.groups
          s'.reg.nextGroup).ccInstances = (0 + cc'.ccInstances.toNat : ℕ) := by
        have hinsert : (insertGroup s' (withSlots cc' cc'.ccInstances)).reg.groups
            s'.reg.nextGroup = withSlots cc' cc'.ccInstances := insert_self
        rw [hinsert, Nat.zero_add, Int.toNat_of_nonneg (Int.not_lt.mp hneg)]
        rfl
      have hstarts := slotTurns (P := P) newest s'.reg.nextGroup ts
        cc'.ccInstances.toNat 0 _ hself
      have hsame : loadGroup P s' (withSlots cc' cc'.ccInstances) =
          spawnRange P .loadDump (insertGroup s' (withSlots cc' cc'.ccInstances))
            s'.reg.nextGroup 0 cc'.ccInstances.toNat := if_pos hrun
      rw [← hsame] at hstarts
      exact hstarts.trans ih
    · rw [if_neg hrun]
      have hsame : loadGroup P s' (withSlots cc' cc'.ccInstances) =
          insertGroup s' (withSlots cc' cc'.ccInstances) := if_neg hrun
      rw [← hsame]
      exact ih
  | case6 t ts s hno =>
    refine .single ⟨_, _, rfl, ?_⟩
    cases t with
    | object l => exact (hno l rfl).elim
    | _ => rfl

theorem openDump_turns (newest : Bool) (file : Option Bytes) (s : Server) :
    Relation.ReflTransGen (Turn P newest) (openDump P newest s file)
      (concluded newest (loadDump P s file)) := by
  rcases file with _ | _ | ⟨b, bs⟩
  · exact .refl
  · exact .refl
  · simp only [openDump, loadDump]
    generalize P.jsonParse _ = r
    rcases r with _ | j
    · exact .refl
    · cases j with
      | array l => exact loadTurns l s
      | _ => exact .refl

/-- Without an interruption the turns are the one event of a load. -/
theorem openDump_loaded (file : Option Bytes) (s : Server) (o : Oracle) :
    Relation.ReflTransGen (Turn P newest) (openDump P newest (install s o) file)
      (next P s (.callback (if newest then .loadNewest file else .loadDump file) o), .loaded) := by
  have hturns := openDump_turns (P := P) newest file (install s o)
  have hlast : concluded newest (loadDump P (install s o) file) =
      (next P s (.callback (if newest then .loadNewest file else .loadDump file) o), .loaded) := by
    cases newest with
    | true =>
      change concluded true _ = ((loadDump P (install s o) file).1, .loaded)
      generalize loadDump P (install s o) file = r
      obtain ⟨u, _ | _⟩ := r
      · rfl
      · rfl
    | false =>
      change concluded false _ = (loadDumpCb P (install s o) file, .loaded)
      unfold loadDumpCb
      generalize loadDump P (install s o) file = r
      obtain ⟨u, _ | _⟩ := r
      · rfl
      · rfl
  rw [← hlast]
  exact hturns

end Turns

section Machine

variable {P : Platform} {s u : Server} {e : Event}

/-- What `cmd_server` is told to load. -/
inductive Source where
  | nothing
  | dump (file : Option Bytes)
  | newest (file : Option Bytes)

/-- The server with the calls of `sigchld_cb` that are due, and whether children have
terminated before the handler was registered, and since. -/
structure Boot where
  server : Server
  phase : Phase
  pending : ℕ
  early : Bool
  late : Bool

def boot (P : Platform) (autoDump allowExit : Bool) (t : ℤ) (o : Oracle) : Source → Boot
  | .nothing => ⟨initial autoDump allowExit t, .loaded, 0, false, false⟩
  | .dump file =>
    let r := openDump P false (install (initial autoDump allowExit t) o) file
    ⟨r.1, r.2, 0, false, false⟩
  | .newest file =>
    let r := openDump P true (install (initial autoDump allowExit t) o) file
    ⟨r.1, r.2, 0, false, false⟩

inductive BootMove where
  | load
  | register
  | childExit (pid : Pid) (ret : WaitStatus) (pos : ℕ) (merged : Bool)
  | callback (c : Callback) (o : Oracle)
  | clock (t : ℤ)

def isSignal : Callback → Bool
  | .sigchld => true
  | _ => false

def CanBoot (b : Boot) : BootMove → Prop
  | .load => Alive b.server ∧ b.phase.loads = true
  | .register => Alive b.server ∧ b.phase.waits = true
  | .childExit pid _ _ _ => pid ∈ b.server.reg.kernel.running
  | .callback c o => b.phase.serves = true ∧ (Event.callback c o).loads = none ∧
      Enabled b.server (.callback c o) ∧ (isSignal c = true → 0 < b.pending)
  | .clock _ => True

instance (b : Boot) (m : BootMove) : Decidable (CanBoot b m) := by
  cases m <;> simp only [CanBoot] <;> infer_instance

/-- `SIGCHLD` without a handler is discarded. One that is raised while another is pending may be
merged with it. -/
def terminated (b : Boot) (s : Server) (merged : Bool) : Boot :=
  if b.phase.serves then
    { b with
      server := s
      pending := if merged then max b.pending 1 else b.pending + 1
      late := true }
  else { b with server := s, early := true }

def bootStep (P : Platform) (b : Boot) : BootMove → Boot
  | .load =>
    match b.phase with
    | .loading newest cursor ts =>
      let r := loadTurn P newest b.server cursor ts
      { b with server := r.1, phase := r.2 }
    | _ => b
  | .register => { b with phase := .serving }
  | .childExit pid ret pos merged => terminated b (next P b.server (.childExit pid ret pos)) merged
  | .callback c o =>
    { b with
      server := next P b.server (.callback c o)
      pending := if isSignal c then b.pending - 1 else b.pending }
  | .clock t => { b with server := next P b.server (.clock t) }

/-- There are no other children: all are in `process_hash`. -/
def OnlySpawned (s : Server) : Prop :=
  ∀ pid ∈ s.reg.kernel.unreaped, s.reg.processFindByPid pid ≠ none

instance (s : Server) : Decidable (OnlySpawned s) :=
  List.decidableBAll (fun pid => s.reg.processFindByPid pid ≠ none) s.reg.kernel.unreaped

/-- The event loop waits, and no `SIGCHLD` is pending. -/
def Idle (b : Boot) : Prop :=
  b.phase.serves = true ∧ b.server.inSigchld = false ∧ b.pending = 0

instance (b : Boot) : Decidable (Idle b) := inferInstanceAs (Decidable (_ ∧ _))

/-- A termination is only forgotten when it comes early and no later one follows. -/
structure Attentive (b : Boot) : Prop where
  linked : Linked b.server.reg
  resumable : Resumable b.server b.phase
  unserved : b.phase.serves = false → b.late = false
  early : b.late = false → b.pending = 0 ∧ b.server.inSigchld = false ∧
    (unwaited b.server = [] ↔ b.early = false)
  late : b.late = true → unwaited b.server ≠ [] → 0 < b.pending ∨ b.server.inSigchld = true

theorem exit_zombies_ne {k : Kernel} {pid : Pid} (ret : WaitStatus) (pos : ℕ)
    (h : pid ∈ k.running) : (k.exit pid ret pos).zombies.map Prod.fst ≠ [] := by
  rw [Kernel.exit, dif_pos h]
  simp

/-- Only `SIGCHLD` and the end of `sigchld_cb` enter and leave it. -/
theorem callback_turn {c : Callback} {o : Oracle} (hs : isSignal c = false)
    (ht : c.isTurn = false) (hload : (Event.callback c o).loads = none) :
    (next P s (.callback c o)).inSigchld = s.inSigchld := by
  have hinstall : (install s o).inSigchld = s.inSigchld := rfl
  cases c with
  | accept a => cases a <;> rfl
  | request con cid payload =>
    change (runServerCommand P ((install s o).withIo (setCid con cid)) con payload).inSigchld = _
    unfold runServerCommand
    split
    · rename_i c _
      have hrun := runCommand_turn (P := P) c ((install s o).withIo (setCid con cid)) con
        (CStr.ofBytes (payload.drop 4))
      dsimp only
      split
      · exact hrun
      · exact hrun
    · rfl
  | badLength con tooLarge => rfl
  | error con => rfl
  | loadDump file => cases hload
  | loadNewest file => cases hload
  | sigchld => cases hs
  | waitpid => cases ht
  | sighup reopened => exact (sighupCb_silently (install s o) reopened).flags.turn
  | heartbeat p => exact (heartbeatCb_silently (P := P) (install s o) p).flags.turn
  | childRead p buf => rfl
  | childError p => exact (childErrorCb_silently (P := P) (install s o) p).flags.turn

theorem callback_zombies {c : Callback} {o : Oracle} (hl : Linked s.reg)
    (hen : Enabled s (.callback c o)) (ht : c.isTurn = false) :
    unwaited (next P s (.callback c o)) = unwaited s := by
  have hout := (step_outputs (P := P) hl ⟨hen, rfl⟩).zombies
  unfold unwaited
  rw [hout]
  cases c with
  | waitpid => cases ht
  | _ => rfl

/-- With no other children `sigchld_cb` returns when all are reaped. -/
theorem returns_unwaited (hspawned : OnlySpawned s) (h : Step P s e u) (hr : Returns s u) :
    unwaited u = [] := by
  have hlast : UnknownLast s e := by
    obtain ⟨o, rfl, -⟩ := returns_cases h hr
    unfold UnknownLast
    cases hw : s.reg.kernel.waitpid with
    | none => trivial
    | some r =>
      obtain ⟨pid, ret, k⟩ := r
      intro hnone
      obtain ⟨hz, -⟩ := Kernel.waitpid_eq_some hw
      have hmem : pid ∈ s.reg.kernel.unreaped := by
        rw [Kernel.unreaped, hz]
        simp
      exact absurd hnone (hspawned pid hmem)
  rw [unwaited, (returns_zombies h hr).mpr hlast, List.map_nil]

theorem boot_attentive (autoDump allowExit : Bool) (t : ℤ) (o : Oracle) (src : Source) :
    Attentive (boot P autoDump allowExit t o src) := by
  have hopen : ∀ (newest : Bool) (file : Option Bytes),
      Attentive ⟨(openDump P newest (install (initial autoDump allowExit t) o) file).1,
        (openDump P newest (install (initial autoDump allowExit t) o) file).2, 0, false,
        false⟩ := by
    intro newest file
    have hl : Linked (install (initial autoDump allowExit t) o).reg := Registry.linked_init
    have h := openDump_resumed (P := P) newest hl file
    refine ⟨h.linked, h.resumable, fun _ => rfl, fun _ => ⟨rfl, h.turn, ?_⟩,
      fun h => absurd h Bool.false_ne_true⟩
    refine iff_of_true ?_ rfl
    rw [unwaited, h.zombies]
    rfl
  cases src with
  | nothing =>
    have hnone : Attentive ⟨initial autoDump allowExit t, .loaded, 0, false, false⟩ :=
      ⟨Registry.linked_init, trivial, fun _ => rfl, fun _ => ⟨rfl, rfl, iff_of_true rfl rfl⟩,
        fun h => absurd h Bool.false_ne_true⟩
    exact hnone
  | dump file => exact hopen false file
  | newest file => exact hopen true file

variable {b : Boot} {m : BootMove}

/-- The tables do not depend on the kernel and on the clock. -/
theorem Resumable.congr {ph : Phase} (h : Resumable s ph)
    (hg : u.reg.groups = s.reg.groups) (hl : u.reg.childConfigList = s.reg.childConfigList) :
    Resumable u ph := by
  rcases ph with ⟨newest, _ | ⟨g, j⟩, ts⟩ | _ | _
  · trivial
  · obtain ⟨hlist, hcells⟩ := h
    refine ⟨by rw [hl]; exact hlist, fun i hi hlt => ?_⟩
    rw [hg] at hlt
    rw [cellAt, hg]
    exact hcells i hi hlt
  · trivial
  · trivial

theorem terminated_attentive (h : Attentive b) {pid : Pid} {ret : WaitStatus} {pos : ℕ}
    {merged : Bool} (hrun : pid ∈ b.server.reg.kernel.running) :
    Attentive (terminated b (next P b.server (.childExit pid ret pos)) merged) := by
  have hstep : Step P b.server (.childExit pid ret pos) _ := ⟨hrun, rfl⟩
  have hl := step_linked h.linked hstep
  have hleft : unwaited (next P b.server (.childExit pid ret pos)) ≠ [] :=
    exit_zombies_ne ret pos hrun
  have hres : Resumable (next P b.server (.childExit pid ret pos)) b.phase :=
    h.resumable.congr rfl rfl
  unfold terminated
  by_cases hs : b.phase.serves = true
  · rw [if_pos hs]
    refine ⟨hl, hres, fun hno => absurd (hs.symm.trans hno) (by decide),
      fun h => absurd h.symm Bool.false_ne_true, fun _ _ => .inl ?_⟩
    dsimp only
    split
    · omega
    · omega
  · rw [if_neg hs]
    have hlate := h.unserved (Bool.eq_false_iff.mpr hs)
    obtain ⟨hpending, hturn, -⟩ := h.early hlate
    refine ⟨hl, hres, fun _ => hlate, fun _ => ⟨hpending, hturn, ?_⟩, fun hl' => ?_⟩
    · exact iff_of_false hleft fun h => absurd h.symm Bool.false_ne_true
    · exact absurd (hlate.symm.trans hl') (by decide)

theorem callback_attentive {c : Callback} {o : Oracle} (h : Attentive b)
    (hspawned : OnlySpawned b.server) (hm : CanBoot b (.callback c o)) :
    Attentive (bootStep P b (.callback c o)) := by
  obtain ⟨hs, hload, hen, hsig⟩ := hm
  have hstep : Step P b.server (.callback c o) (next P b.server (.callback c o)) := ⟨hen, rfl⟩
  have hl := step_linked h.linked hstep
  obtain ⟨server, phase, pending, early, late⟩ := b
  dsimp only at hs hsig hen hstep hl hspawned
  have hres : ∀ u : Server, Resumable u phase := by
    intro u
    cases phase with
    | serving => trivial
    | loading => cases hs
    | loaded => cases hs
  have hunserved : ∀ x : Bool, phase.serves = false → x = false :=
    fun x hno => absurd (hs.symm.trans hno) (by decide)
  generalize hu : next P server (.callback c o) = u at hstep hl
  have hnext : bootStep P ⟨server, phase, pending, early, late⟩ (.callback c o) =
      ⟨u, phase, if isSignal c then pending - 1 else pending, early, late⟩ := by
    rw [← hu]
    rfl
  rw [hnext]
  refine ⟨hl, hres u, hunserved late, fun hl' => ?_, fun hl' hleft => ?_⟩
  · -- no call of `sigchld_cb` is due, and none is in progress
    obtain ⟨hpending, hturn, hearly⟩ := h.early hl'
    dsimp only at hpending hturn hearly
    have hc : isSignal c = false := by
      by_contra hc
      have hpos := hsig (Bool.eq_true_of_not_eq_false hc)
      omega
    have ht : c.isTurn = false := hen.2.1.symm.trans hturn
    have hsame := callback_turn (P := P) (s := server) hc ht hload
    have hzombies := callback_zombies (P := P) h.linked hen ht
    dsimp only at hzombies ⊢
    rw [hu] at hsame hzombies
    rw [hc, if_neg Bool.false_ne_true, hsame, hzombies]
    exact ⟨hpending, hturn, hearly⟩
  · dsimp only at hleft ⊢
    by_cases hc : isSignal c = true
    · right
      cases c with
      | sigchld =>
        rw [← hu]
        rfl
      | _ => cases hc
    · rw [if_neg hc]
      by_cases ht : c.isTurn = true
      · right
        by_contra hout
        have hin : server.inSigchld = true := hen.2.1.trans ht
        exact hleft (returns_unwaited hspawned hstep ⟨hin, Bool.eq_false_iff.mpr hout⟩)
      · have ht' := Bool.eq_false_iff.mpr ht
        have hsame := callback_turn (P := P) (s := server) (Bool.eq_false_iff.mpr hc) ht' hload
        have hzombies := callback_zombies (P := P) h.linked hen ht'
        dsimp only at hzombies
        rw [hu] at hsame hzombies
        rw [hzombies] at hleft
        rw [hsame]
        exact h.late hl' hleft

theorem bootStep_attentive (h : Attentive b) (hspawned : OnlySpawned b.server)
    (hm : CanBoot b m) : Attentive (bootStep P b m) := by
  cases m with
  | load =>
    obtain ⟨server, phase, pending, early, late⟩ := b
    cases phase with
    | loading newest cursor ts =>
      have hturn := loadTurn_resumed (P := P) h.linked h.resumable
      have hlate := h.unserved rfl
      obtain ⟨hpending, hin, hearly⟩ := h.early hlate
      refine ⟨hturn.linked, hturn.resumable, fun _ => hlate, fun _ => ?_, ?_⟩
      · refine ⟨hpending, hturn.turn.trans hin, ?_⟩
        have hsame : unwaited (loadTurn P newest server cursor ts).1 = unwaited server := by
          rw [unwaited, hturn.zombies, unwaited]
        change unwaited (loadTurn P newest server cursor ts).1 = [] ↔ early = false
        rw [hsame]
        exact hearly
      · intro hl
        exact absurd (hlate.symm.trans hl) (by decide)
    | loaded => cases hm.2
    | serving => cases hm.2
  | register =>
    exact ⟨h.linked, trivial, fun h => absurd h.symm Bool.false_ne_true, h.early, h.late⟩
  | childExit pid ret pos merged => exact terminated_attentive h hm
  | callback c o => exact callback_attentive h hspawned hm
  | clock t => exact ⟨h.linked, h.resumable.congr rfl rfl, h.unserved, h.early, h.late⟩

/-- When the event loop is idle, no terminated child is left exactly if none has terminated
before the handler of `SIGCHLD` was registered, or another one has since. -/
theorem idle_reaped_iff {autoDump allowExit : Bool} {t : ℤ} {o : Oracle} {src : Source}
    (h : Execution (Guarded CanBoot (bootStep P)) (fun a _ _ => OnlySpawned a.server)
      (boot P autoDump allowExit t o src) b) (hidle : Idle b) :
    unwaited b.server = [] ↔ b.early = false ∨ b.late = true := by
  have hb : Attentive b := by
    refine h.invariant (P := Attentive) ?_ (boot_attentive _ _ _ _ _)
    rintro a m c ha ⟨hm, rfl⟩ hspawned
    exact bootStep_attentive ha hspawned hm
  obtain ⟨-, hturn, hpending⟩ := hidle
  by_cases hl : b.late = true
  · refine iff_of_true ?_ (.inr hl)
    by_contra hleft
    rcases hb.late hl hleft with hpos | hin
    · omega
    · exact absurd (hturn.symm.trans hin) (by decide)
  · obtain ⟨-, -, hearly⟩ := hb.early (Bool.eq_false_iff.mpr hl)
    rw [hearly]
    exact ⟨.inl, fun h => h.resolve_right hl⟩

end Machine

section Lost

/-- A dump with one group of one process. -/
def webDump : Json := .array
  [.object [(text "name", .string (text "web")), (text "args", .array [.string (text "/bin/web")])]]

def webPlatform : Platform := sample [printed webDump]

def webStart : Boot :=
  boot webPlatform false false 100 (starting [100]) (.dump (some (printJson webDump)))

/-- The process terminates as soon as it is started. -/
def hastyMoves : List BootMove :=
  [.load, .load, .childExit 100 (.exited 0) 0 false, .load, .load, .register]

def hastyBoot : Boot := stateAfter (bootStep webPlatform) webStart hastyMoves

theorem hastyBoot_reached : Execution (Guarded CanBoot (bootStep webPlatform))
    (fun a _ _ => OnlySpawned a.server) webStart hastyBoot := by
  have h : Admits CanBoot (bootStep webPlatform) (fun a _ _ => OnlySpawned a.server) webStart
      hastyMoves := by decide +kernel
  exact h.execution

theorem hastyBoot_reaped_iff : unwaited hastyBoot.server = [] ↔
    hastyBoot.early = false ∨ hastyBoot.late = true :=
  idle_reaped_iff hastyBoot_reached (by decide +kernel)

/-- Nothing calls `sigchld_cb` for the process. -/
theorem hastyBoot_unreaped : ¬ ∀ (P : Platform) (autoDump allowExit : Bool) (t : ℤ) (o : Oracle)
    (src : Source) (b : Boot), Execution (Guarded CanBoot (bootStep P))
      (fun a _ _ => OnlySpawned a.server) (boot P autoDump allowExit t o src) b → Idle b →
    unwaited b.server = [] := by
  intro h
  have hnone := h webPlatform false false 100 _ _ hastyBoot hastyBoot_reached (by decide +kernel)
  have hone : unwaited hastyBoot.server = [100] := by decide +kernel
  rw [hone] at hnone
  cases hnone

end Lost

end UbervisorStartup
