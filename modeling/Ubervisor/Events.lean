import Ubervisor.Commands
import Ubervisor.Runs

/-! # Callbacks and runs of the server

The callbacks libevent calls, and the server as a transition system. `sigchld_cb` is split
into its turns, one for each call of `waitpid`: between two turns no other callback runs, but
children may terminate and time may pass. -/
namespace UbervisorEvents

open UbervisorRuns
open UbervisorValues
open UbervisorChildConfigs
open UbervisorKernel
open UbervisorRegistry
open UbervisorChunks
open UbervisorServer
open UbervisorCommands

def errorMax : ℤ := 6
def errorPeriod : ℤ := 10
def sigterm : ℤ := 15
def sigkill : ℤ := 9

/-- `exit_is_error`. -/
def exitIsError (ret : WaitStatus) (cc : ChildConfig) : Bool :=
  match ret with
  | .exited code => code ≠ 0
  | .signaled sig => (sig : ℤ) = cc.ccKillsig

/-- The assignments to `cc_error` and `cc_errtime` on an error at time `t`. -/
def countError (t : ℤ) (cc : ChildConfig) : ChildConfig :=
  { cc with
    ccError := (if cc.ccErrtime + errorPeriod < t then 0 else cc.ccError) + 1
    ccErrtime := t }

/-- The product is exact here. In C it overflows an `int` from 357913942 slots on. -/
def tooManyErrors (cc : ChildConfig) : Prop := errorMax * cc.ccInstances ≤ cc.ccError

instance (cc : ChildConfig) : Decidable (tooManyErrors cc) := inferInstanceAs (Decidable (_ ≤ _))

section Callbacks

variable (P : Platform) (s : Server)

/-- Every call is recorded, also for a group without a fatal command. -/
def runFatalCb (g : GroupId) : Server :=
  let s := s.record (.fatal g)
  let cc := s.reg.groups g
  match cc.ccFatalCb with
  | none => s
  | some cmd =>
    match forkCommand s with
    | (false, s) =>
      slog P s (text "fork failed when running fatal_cb for " ++ cc.ccName.bytes ++ text "\n")
    | (true, s) =>
      let s := slog P s (text "running fatal_cb \"" ++ cmd.bytes ++ text "\" for " ++
        cc.ccName.bytes ++ text " ...\n")
      emit s (.exec [cmd.bytes, cc.ccName.bytes])

/-- The branch of `sigchld_cb` for an exit that is an error. -/
def noteError (g : GroupId) : Server :=
  let s := s.withReg fun r => r.setGroup g (countError s.clock)
  let cc := s.reg.groups g
  if tooManyErrors cc then
    let s := s.withReg fun r => r.setGroup g fun cc => { cc with ccStatus := statusBroken }
    let s := s.record (.broken g s.clock cc.ccInstances)
    let s := slog P s (text "spawn failures. setting broken on " ++ cc.ccName.bytes ++ text "\n")
    let s := sendStatusUpdateNotification P s cc.ccName statusBroken
    runFatalCb P s g
  else s

/-- `if (inst < cc->cc_instances) cc->cc_childs[inst] = NULL`. -/
def clearSlot (r : Registry) (g : GroupId) (inst : ℕ) : Registry :=
  if (inst : ℤ) < (r.groups g).ccInstances then r.setCell g inst .null else r

/-- `if (inst < cc->cc_instances && cc->cc_status == STATUS_RUNNING) spawn(cc, inst)`. -/
def respawn (g : GroupId) (inst : ℕ) : Server :=
  let cc := s.reg.groups g
  if (inst : ℤ) < cc.ccInstances ∧ cc.ccStatus = statusRunning then spawn P .sigchld s g inst
  else s

/-- What `sigchld_cb` does for the group of the process that ended. -/
def groupExit (g : GroupId) (inst : ℕ) (ret : WaitStatus) : Server :=
  let isError := exitIsError ret (s.reg.groups g)
  let s := s.record (.exited g inst ret s.clock isError)
  let s := s.withReg fun r => clearSlot r g inst
  let s := if isError then noteError P s g else s
  respawn P s g inst

/-- The body of the loop of `sigchld_cb` for a process of `process_hash`. -/
def processExit (p : ProcId) (ret : WaitStatus) : Server :=
  let pr := s.reg.procs p
  let ccName := pr.pChildConfig.map fun g => (s.reg.groups g).ccName
  let s := slog P s (text "[process_exit] " ++ optText ccName ++ text " pid: " ++
    natText pr.pPid.toNat ++ text "\n")
  let s := s.withReg fun r => r.processRemove p
  let s := { s with timers := s.timers.filter (· ≠ p) }
  let s := s.withIo fun io => if pr.pChildSockbuf then io.emit (.close pr.pChildSock) else io
  match pr.pChildConfig with
  | none => s.record (.orphanExited p pr.pPid)
  | some g => groupExit P s g pr.pInstance ret

/-- One turn of the loop of `sigchld_cb`. -/
def sigchldTurn : Server :=
  match s.reg.kernel.waitpid with
  | none => { s with inSigchld := false }
  | some (pid, ret, k) =>
    let s := s.withReg fun r => r.setKernel k
    match s.reg.processFindByPid pid with
    | none => { s with inSigchld := false }
    | some p => processExit P s p ret

/-- The buffers of the pid and the instance take eight bytes. -/
def heartbeatArgs (cmd name : CStr) (pr : Process) : List Bytes :=
  [cmd.bytes, name.bytes, (natText pr.pPid.toNat).take 7, (natText pr.pInstance).take 7]

/-- `schedule_heartbeat` comes first, so the timer stays pending. -/
def heartbeatCb (p : ProcId) : Server :=
  let pr := s.reg.procs p
  let pidText := text "pid " ++ natText pr.pPid.toNat
  if pr.pAge > 0 ∧ s.clock - pr.pStart > pr.pAge then
    if pr.pTerminated then
      emit (slog P s (pidText ++ text " exceeded uptime. Sending KILL\n")) (.kill pr.pPid sigkill)
    else
      let s := slog P s (pidText ++ text " exceeded uptime. Sending kill signal\n")
      let sig := (pr.pChildConfig.map fun g => (s.reg.groups g).ccKillsig).getD sigterm
      (emit s (.kill pr.pPid sig)).withReg fun r =>
        r.setProc p fun pr => { pr with pTerminated := true }
  else
    match pr.pChildConfig with
    | none => s
    | some g =>
      let cc := s.reg.groups g
      match cc.ccHeartbeat with
      | none => s
      | some cmd =>
        match forkCommand s with
        | (false, s) =>
          slog P s (text "heartbeat spawn error in group " ++ cc.ccName.bytes ++ text ".\n")
        | (true, s) => emit s (.exec (heartbeatArgs cmd cc.ccName pr))

def childErrorCb (p : ProcId) : Server :=
  let pr := s.reg.procs p
  if pr.pChildSockbuf then
    (emit s (.close pr.pChildSock)).withReg fun r =>
      r.setProc p fun pr => { pr with pChildSockbuf := false }
  else s

def sighupCb (reopened : Bool) : Server :=
  let s := slog P s (text "got SIGHUP. reopening logfile.\n")
  if reopened then s else slog P s (text "reopen failed.\n")

end Callbacks

section Connections

variable (P : Platform) (s : Server)

/-- How `accept_cb` ends. -/
inductive Accept where
  | again
  | failed
  | noBuffer
  | noEnable
  | connected (con : ClientId)
  deriving DecidableEq

def acceptCb (a : Accept) : Server :=
  match a with
  | .again => s
  | .failed => slog P s (text "Failed to accept a connection.\n")
  | .noBuffer => slog P s (text "bufferevent_new failed.\n")
  | .noEnable => slog P s (text "bufferevent_enable failed.\n")
  | .connected con => s.withIo fun io => { io with clients := ⟨con, 0, []⟩ :: io.clients }

def setCid (con : ClientId) (cid : UInt16) (io : Io) : Io :=
  { io with clients := io.clients.map fun c => if c.cId = con then { c with cCid := cid } else c }

/-- `read_cb` hands over a request. -/
def request (con : ClientId) (cid : UInt16) (payload : Bytes) : Server :=
  (runServerCommand P (s.withIo (setCid con cid)) con payload).withIo (setCid con 0)

/-- `read_cb` refuses a length field. -/
def badLength (con : ClientId) (tooLarge : Bool) : Server :=
  let msg := if tooLarge then text "command payload too large.\n"
    else text "command payload too small.\n"
  dropClientConnection (slog P s msg) con

end Connections

inductive Callback where
  | accept (a : Accept)
  | request (con : ClientId) (cid : UInt16) (payload : Bytes)
  | badLength (con : ClientId) (tooLarge : Bool)
  | error (con : ClientId)
  | loadDump (file : Option Bytes)
  | loadNewest (file : Option Bytes)
  | sigchld
  | waitpid
  | sighup (reopened : Bool)
  | heartbeat (p : ProcId)
  | childRead (p : ProcId) (buf : Bytes)
  | childError (p : ProcId)

/-- What the system calls of a callback return. -/
structure Oracle where
  spawns : List SpawnOutcome
  files : List Bool
  logs : CStr → Option LogFile

/-- A callback of the server, the end of a child, or the passing of time. -/
inductive Event where
  | callback (c : Callback) (o : Oracle)
  | childExit (pid : Pid) (ret : WaitStatus) (pos : ℕ)
  | clock (t : ℤ)

/-- The file that `load_dump` reads in an event, if it does. -/
def Event.loads : Event → Option (Option Bytes)
  | .callback (.loadDump file) _ => some file
  | .callback (.loadNewest file) _ => some file
  | _ => none

/-- Neither exited nor in undefined behaviour. -/
def Alive (s : Server) : Prop := s.halted = false ∧ Output.wild ∉ s.io.out

instance (s : Server) : Decidable (Alive s) := inferInstanceAs (Decidable (_ ∧ _))

def Connected (s : Server) (con : ClientId) : Prop := con ∈ s.io.clients.map ClientCon.cId

instance (s : Server) (con : ClientId) : Decidable (Connected s con) :=
  inferInstanceAs (Decidable (_ ∈ _))

/-- The condition of a callback, apart from the server's being able to run one. A dump is
loaded before all others. -/
def Ready (s : Server) : Callback → Prop
  | .accept (.connected con) => ¬ Connected s con
  | .accept _ => True
  | .request con cid payload =>
    Connected s con ∧ cid ≠ 0 ∧ 4 ≤ payload.length ∧ payload.length ≤ chunkSiz
  | .badLength con _ => Connected s con
  | .error con => Connected s con
  | .loadDump _ => s.started = false
  | .loadNewest _ => s.started = false
  | .sigchld => True
  | .waitpid => True
  | .sighup _ => True
  | .heartbeat p => p ∈ s.timers
  | .childRead p buf => s.reg.Tracked p ∧ (s.reg.procs p).pChildSockbuf ∧ buf.length < 1024
  | .childError p => s.reg.Tracked p ∧ (s.reg.procs p).pChildSockbuf

instance (s : Server) (c : Callback) : Decidable (Ready s c) := by
  rcases c with (_ | _ | _ | _ | _) | _ | _ | _ | _ | _ | _ | _ | _ | _ | _ | _ <;>
    simp only [Ready] <;> infer_instance

def Callback.isTurn : Callback → Bool
  | .waitpid => true
  | _ => false

def Enabled (s : Server) : Event → Prop
  | .callback c _ => Alive s ∧ s.inSigchld = c.isTurn ∧ Ready s c
  | .childExit pid _ _ => pid ∈ s.reg.kernel.running
  | .clock _ => True

instance (s : Server) (e : Event) : Decidable (Enabled s e) := by
  cases e <;> simp only [Enabled] <;> infer_instance

/-- A failed `load_dump` ends the server. `load_newest_dump` does not care. -/
def loadDumpCb (P : Platform) (s : Server) (file : Option Bytes) : Server :=
  match loadDump P s file with
  | (s, true) => s
  | (s, false) => { s with halted := true }

def runCallback (P : Platform) (s : Server) : Callback → Server
  | .accept a => acceptCb P s a
  | .request con cid payload => request P s con cid payload
  | .badLength con tooLarge => badLength P s con tooLarge
  | .error con => dropClientConnection s con
  | .loadDump file => loadDumpCb P s file
  | .loadNewest file => (loadDump P s file).1
  | .sigchld => { s with inSigchld := true }
  | .waitpid => sigchldTurn P s
  | .sighup reopened => sighupCb P s reopened
  | .heartbeat p => heartbeatCb P s p
  | .childRead _ buf => slog P s (CStr.ofBytes buf).bytes
  | .childError p => childErrorCb s p

def install (s : Server) (o : Oracle) : Server :=
  { s with
    spawns := o.spawns
    started := true
    io := { s.io with fileResults := o.files, logFiles := o.logs } }

def next (P : Platform) (s : Server) : Event → Server
  | .callback c o => runCallback P (install s o) c
  | .childExit pid ret pos => s.withReg fun r => r.setKernel (r.kernel.exit pid ret pos)
  | .clock t => { s with clock := t }

abbrev Step (P : Platform) : Server → Event → Server → Prop := Guarded Enabled (next P)

/-- The server when its event loop starts, or when it starts to load a dump. -/
def initial (autoDump allowExit : Bool) (t : ℤ) : Server where
  reg := .init
  hist := []
  io := ⟨[], [], [], 0, [], fun _ => none⟩
  clock := t
  spawns := []
  timers := []
  inSigchld := false
  started := false
  halted := false
  autoDump := autoDump
  allowExit := allowExit

/-- Runs from the start whose steps all satisfy `Q`. -/
def ReachableBy (P : Platform) (Q : Server → Event → Server → Prop) (s : Server) : Prop :=
  ∃ autoDump allowExit t, Execution (Step P) Q (initial autoDump allowExit t) s

def Reachable (P : Platform) (s : Server) : Prop := ReachableBy P Always s

/-- The entries that the steps from `u` to `v` have added to the history. -/
def newHist (u v : Server) : List Hist := v.hist.drop u.hist.length

section Histories

variable {s u v : Server}

theorem newHist_eq {l : List Hist} (h : u.hist = s.hist ++ l) : newHist s u = l := by
  rw [newHist, h, List.drop_left]

theorem newHist_self : newHist s s = [] := List.drop_length

theorem newHist_nil (h : u.hist = s.hist) : newHist s u = [] := by
  rw [newHist, h, List.drop_length]

theorem newHist_congr {s' u' : Server} (hs : s'.hist = s.hist) (hu : u'.hist = u.hist) :
    newHist s' u' = newHist s u := by
  rw [newHist, newHist, hs, hu]

theorem newHist_of_le (h : s.hist <+: v.hist) : newHist v u ⊆ newHist s u := by
  unfold newHist
  have := h.length_le
  exact List.drop_subset_drop_left _ this

theorem newHist_append (h : s.hist <+: v.hist) (k : v.hist <+: u.hist) :
    newHist s u = newHist s v ++ newHist v u := by
  obtain ⟨l, hl⟩ := h
  obtain ⟨m, hm⟩ := k
  rw [newHist_eq (s := s) (l := l ++ m) (by rw [← hm, ← hl, List.append_assoc]),
    newHist_eq hl.symm, newHist_eq hm.symm]

end Histories

theorem ReachableBy.reachable {P : Platform} {Q : Server → Event → Server → Prop} {s : Server}
    (h : ReachableBy P Q s) : Reachable P s := by
  obtain ⟨a, e, t, h⟩ := h
  exact ⟨a, e, t, h.always⟩

theorem ReachableBy.step {P : Platform} {Q : Server → Event → Server → Prop} {s u : Server}
    {e : Event} (h : ReachableBy P Q s) (hs : Step P s e u) (hq : Q s e u) :
    ReachableBy P Q u := by
  obtain ⟨a, b, t, h⟩ := h
  exact ⟨a, b, t, .tail h hs hq⟩

end UbervisorEvents
