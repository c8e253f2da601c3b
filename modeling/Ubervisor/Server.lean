import Ubervisor.Chunks
import Ubervisor.Registry

/-! # Server state

The state of the server process, what it writes to clients and files, the notifications it
sends, and `spawn`. Results of system calls that the program does not control are read
from the oracle lists `spawns` and `fileResults`; a list that has run out stands for calls
that fail. `timers` holds the processes whose heartbeat timer is pending. `hist` records what
happens to groups and processes, for the statements only. -/
namespace UbervisorServer

open UbervisorValues
open UbervisorChildConfigs
open UbervisorKernel
open UbervisorRegistry
open UbervisorChunks

abbrev ClientId := ℕ
abbrev Fd := ℕ

def bufferSiz : ℕ := 2048
def pathMax : ℕ := 4096

def subsServer : UInt16 := 1
def subsStatus : UInt16 := 2
def subsGroupCfg : UInt16 := 4

structure Subscription where
  sClient : ClientId
  sIdent : UInt16
  sCid : UInt16
  deriving DecidableEq

/-- A connected client: the cid of its current request and its unflushed output. -/
structure ClientCon where
  cId : ClientId
  cCid : UInt16
  output : Bytes
  deriving DecidableEq

inductive Notification where
  | log (msg : Bytes)
  | status (name : CStr) (status : ℤ)
  | groupCfg (cc : ChildConfig)
  deriving DecidableEq

namespace Notification

def ident : Notification → UInt16
  | .log _ => subsServer
  | .status _ _ => subsStatus
  | .groupCfg _ => subsGroupCfg

def json : Notification → Json
  | .log msg => .object [(text "msg", .string msg)]
  | .status name st => .object [(text "name", .string name.bytes), (text "status", .int st)]
  | .groupCfg cc => childConfigSerialize cc

def payload (P : Platform) (n : Notification) : Bytes := P.jsonPrint n.json

end Notification

inductive Reply where
  | status (code : Bool) (msg : Bytes)
  | pids (l : List Pid)
  | names (l : List CStr)
  | config (cc : ChildConfig)
  | helo (version : Bytes)
  | log (log : CStr) (offset fsize : ℤ)
  deriving DecidableEq

def Reply.json : Reply → Json
  | .status code msg => .object [(text "code", .boolean code), (text "msg", .string msg)]
  | .pids l => .object [(text "code", .boolean true),
      (text "pids", .array (l.map fun pid => .int pid.toNat))]
  | .names l => .array (l.map fun n => .string n.bytes)
  | .config cc => childConfigSerialize cc
  | .helo version => .object [(text "code", .boolean true), (text "msg", .string (text "ok")),
      (text "version", .string version)]
  | .log l offset fsize => .object [(text "code", .boolean true),
      (text "log", .string l.bytes), (text "offset", .double offset),
      (text "fsize", .double fsize)]

/-- What the server does to the world outside its tables. `wild` marks a read of a value that
was never assigned: no step of the server is modelled after it. -/
inductive Output where
  | reply (con : ClientId) (cid : UInt16) (msg : Reply)
  | notify (n : Notification)
  | logWrite (b : Bytes)
  | kill (pid : Pid) (sig : ℤ)
  | exec (args : List Bytes)
  | socketpair (a b : Fd)
  | close (fd : Fd)
  | fopen (name : Bytes)
  | fprintf (ok : Bool) (b : Bytes)
  | fclose
  | link (src dst : Bytes)
  | unlink (name : Bytes)
  | dropped (con : ClientId)
  | wild
  deriving DecidableEq

/-- A log file as `open` finds it: one that can be read, or one that cannot. -/
inductive LogFile where
  | regular (content : Bytes)
  | unreadable
  deriving DecidableEq

structure Io where
  clients : List ClientCon
  subscriptions : List Subscription
  out : List Output
  dumpCnt : ℕ
  fileResults : List Bool
  logFiles : CStr → Option LogFile

namespace Io

def emit (io : Io) (o : Output) : Io := { io with out := io.out ++ [o] }

/-- `bufferevent_write` to the connection of a client. -/
def write (io : Io) (con : ClientId) (b : Bytes) : Io :=
  { io with clients := io.clients.map fun c =>
      if c.cId = con then { c with output := c.output ++ b } else c }

def cid (io : Io) (con : ClientId) : UInt16 :=
  ((io.clients.find? fun c => c.cId == con).map ClientCon.cCid).getD 0

/-- `send_message` of a reply. -/
def reply (P : Platform) (con : ClientId) (r : Reply) (io : Io) : Io :=
  (io.emit (.reply con (io.cid con) r)).write con
    (messageBytes (io.cid con) (P.jsonPrint r.json))

/-- `send_notification`: one frame for every subscription that shares a bit with the kind. -/
def notify (P : Platform) (n : Notification) (io : Io) : Io :=
  (io.subscriptions.filter fun s => s.sIdent &&& n.ident ≠ 0).foldl
    (fun io s => io.write s.sClient (notificationFrame s.sCid (n.payload P)))
    (io.emit (.notify n))

def tooBig : Bytes := text "too big log message is being truncated.\n"

def logLine (P : Platform) (t : ℤ) (msg : Bytes) : Bytes :=
  P.logTime t ++ text " -- " ++ msg.take (bufferSiz - 1)

/-- `slog`. A line that does not fit is announced by a call of the function itself and
then cut to `BUFFER_SIZ` bytes, of which the last is the terminating NUL. -/
def slog (P : Platform) (t : ℤ) : ℕ → Bytes → Io → Io
  | 0, _, io => io.emit .wild
  | depth + 1, msg, io =>
    if bufferSiz ≤ (logLine P t msg).length then
      let line := (logLine P t msg).take (bufferSiz - 2) ++ [10]
      ((slog P t depth tooBig io).emit (.logWrite (line ++ [0]))).notify P (.log line)
    else (io.emit (.logWrite (logLine P t msg))).notify P (.log (logLine P t msg))

/-- The result of the next `fopen`, `fprintf` or `link`. -/
def fileResult (io : Io) : Bool × Io :=
  (io.fileResults.headD false, { io with fileResults := io.fileResults.tail })

def fprintf (io : Io) (b : Bytes) : Bool × Io :=
  let (ok, io) := io.fileResult
  (ok, io.emit (.fprintf ok b))

def sendStatusMsg (P : Platform) (con : ClientId) (code : Bool) (msg : String) (io : Io) : Io :=
  io.reply P con (.status code (text msg))

/-- The loop of `c_dump` over the group list. -/
def dumpGroups (P : Platform) : List ChildConfig → Io → Bool × Io
  | [], io => (true, io)
  | cc :: l, io =>
    let (ok, io) := io.fprintf (P.jsonPrint (childConfigSerialize cc) ++ text ",\n")
    if ok then dumpGroups P l io else (false, io)

def cDump (P : Platform) (t : ℤ) (groups : List ChildConfig) (con : ClientId) (io : Io) : Io :=
  let io := { io with dumpCnt := io.dumpCnt + 1 }
  let fname := text "uberdump_" ++ natText io.dumpCnt ++ text "_" ++ intText P.euid ++
    text "_" ++ P.dumpTime t
  let fnameTmp := text "tmp." ++ fname
  if pathMax ≤ fname.length then io.sendStatusMsg P con false "failure"
  else if pathMax ≤ fnameTmp.length then io.sendStatusMsg P con false "failure"
  else
    let (ok, io) := io.fileResult
    if !ok then io.sendStatusMsg P con false "failure"
    else
      let io := io.emit (.fopen fnameTmp)
      let (_, io) := io.fprintf (text "[\n")
      let (ok, io) := io.dumpGroups P groups
      if !ok then (io.emit .fclose).sendStatusMsg P con false "failure"
      else
        let (ok, io) := io.fprintf (text "]\n")
        -- the failure branch of the last fprintf does not return
        let io := if ok then io else (io.emit .fclose).sendStatusMsg P con false "failure"
        let io := io.emit .fclose
        let (ok, io) := io.fileResult
        if !ok then io.sendStatusMsg P con false "failure."
        else
          ((io.emit (.link fnameTmp fname)).emit (.unlink fnameTmp)).sendStatusMsg P con true
            "dump successful."

/-- `drop_client_connection`. -/
def dropClientConnection (con : ClientId) (io : Io) : Io :=
  { io with
    clients := io.clients.filter fun c => c.cId ≠ con
    subscriptions := io.subscriptions.filter fun s => s.sClient ≠ con
    out := io.out ++ [.dropped con] }

end Io

/-- The call of `spawn` in the source. -/
inductive SpawnSite where
  | spwn
  | grow
  | status
  | sigchld
  | loadDump
  deriving DecidableEq

inductive Hist where
  | created (g : GroupId)
  | deleted (g : GroupId)
  | spawned (site : SpawnSite) (g : GroupId) (i : ℕ) (p : ProcId) (pid : Pid)
  | spawnFailed (site : SpawnSite) (g : GroupId) (i : ℕ)
  | exited (g : GroupId) (i : ℕ) (ret : WaitStatus) (t : ℤ) (isError : Bool)
  | orphanExited (p : ProcId) (pid : Pid)
  | broken (g : GroupId) (t : ℤ) (instances : ℤ)
  | fatal (g : GroupId)
  | resized (g : GroupId) (old new : ℤ)
  | statusSet (g : GroupId) (old new : ℤ)
  deriving DecidableEq

/-- The group an entry is about. -/
def Hist.group : Hist → Option GroupId
  | created g | deleted g | spawned _ g .. | spawnFailed _ g _ | exited g .. | broken g ..
  | fatal g | resized g .. | statusSet g .. => some g
  | orphanExited .. => none

/-- The entries of a start of a process, successful or not. -/
def Hist.isSpawn : Hist → Bool
  | spawned .. | spawnFailed .. => true
  | _ => false

/-- The entries that follow the end of a process. -/
def Hist.isBreak : Hist → Bool
  | broken .. | fatal .. => true
  | _ => false

/-- The results of the calls that one `spawn` makes. -/
structure SpawnOutcome where
  socketpair : Option (Fd × Fd)
  fork : Option Pid
  bufNew : Bool
  bufEnable : Bool
  deriving DecidableEq

def SpawnOutcome.failed : SpawnOutcome := ⟨none, none, false, false⟩

structure Server where
  reg : Registry
  hist : List Hist
  io : Io
  clock : ℤ
  spawns : List SpawnOutcome
  timers : List ProcId
  inSigchld : Bool
  started : Bool
  halted : Bool
  autoDump : Bool
  allowExit : Bool

namespace Server

def withReg (s : Server) (f : Registry → Registry) : Server := { s with reg := f s.reg }
def withIo (s : Server) (f : Io → Io) : Server := { s with io := f s.io }
def record (s : Server) (h : Hist) : Server := { s with hist := s.hist ++ [h] }

section Frame

variable (s : Server) (f : Registry → Registry) (k : Io → Io) (h : Hist)

@[simp] theorem withReg_reg : (s.withReg f).reg = f s.reg := rfl
@[simp] theorem withReg_hist : (s.withReg f).hist = s.hist := rfl
@[simp] theorem withReg_io : (s.withReg f).io = s.io := rfl
@[simp] theorem withReg_clock : (s.withReg f).clock = s.clock := rfl
@[simp] theorem withReg_inSigchld : (s.withReg f).inSigchld = s.inSigchld := rfl
@[simp] theorem withReg_halted : (s.withReg f).halted = s.halted := rfl
@[simp] theorem withReg_autoDump : (s.withReg f).autoDump = s.autoDump := rfl
@[simp] theorem withIo_reg : (s.withIo k).reg = s.reg := rfl
@[simp] theorem withIo_hist : (s.withIo k).hist = s.hist := rfl
@[simp] theorem withIo_io : (s.withIo k).io = k s.io := rfl
@[simp] theorem withIo_clock : (s.withIo k).clock = s.clock := rfl
@[simp] theorem withIo_inSigchld : (s.withIo k).inSigchld = s.inSigchld := rfl
@[simp] theorem withIo_halted : (s.withIo k).halted = s.halted := rfl
@[simp] theorem withIo_autoDump : (s.withIo k).autoDump = s.autoDump := rfl
@[simp] theorem record_reg : (s.record h).reg = s.reg := rfl
@[simp] theorem record_hist : (s.record h).hist = s.hist ++ [h] := rfl
@[simp] theorem record_io : (s.record h).io = s.io := rfl
@[simp] theorem record_clock : (s.record h).clock = s.clock := rfl
@[simp] theorem record_inSigchld : (s.record h).inSigchld = s.inSigchld := rfl
@[simp] theorem record_halted : (s.record h).halted = s.halted := rfl
@[simp] theorem record_autoDump : (s.record h).autoDump = s.autoDump := rfl

end Frame

end Server

section Effects

variable (P : Platform)

/-- The depth bounds the calls of `slog` by itself: one is enough. -/
abbrev slog (s : Server) (msg : Bytes) : Server := s.withIo (Io.slog P s.clock 2 msg)

abbrev emit (s : Server) (o : Output) : Server := s.withIo fun io => io.emit o

abbrev sendStatusMsg (s : Server) (con : ClientId) (code : Bool) (msg : String) : Server :=
  s.withIo (Io.sendStatusMsg P con code msg)

abbrev sendReply (s : Server) (con : ClientId) (r : Reply) : Server := s.withIo (Io.reply P con r)

abbrev sendStatusUpdateNotification (s : Server) (name : CStr) (status : ℤ) : Server :=
  s.withIo (Io.notify P (.status name status))

abbrev sendGroupCfgUpdateNotification (s : Server) (cc : ChildConfig) : Server :=
  s.withIo (Io.notify P (.groupCfg cc))

abbrev cDump (s : Server) (con : ClientId) : Server :=
  s.withIo (Io.cDump P s.clock (s.reg.childConfigList.map s.reg.groups) con)

/-- The reply of SPWN and UPDT: a dump when the server runs with `auto_dump`. -/
abbrev sendSuccess (s : Server) (con : ClientId) (msg : String) : Server :=
  s.withIo fun io =>
    if s.autoDump then io.cDump P s.clock (s.reg.childConfigList.map s.reg.groups) con
    else io.sendStatusMsg P con true msg

abbrev dropClientConnection (s : Server) (con : ClientId) : Server :=
  s.withIo (Io.dropClientConnection con)

def takeOutcome (s : Server) : SpawnOutcome × Server :=
  (s.spawns.headD .failed, { s with spawns := s.spawns.tail })

/-- `fork` for a heartbeat or fatal command: a child that no table keeps track of. -/
def forkCommand (s : Server) : Bool × Server :=
  let (o, s) := takeOutcome s
  match s.reg.kernel.fork o.fork with
  | none => (false, s)
  | some (_, k) => (true, s.withReg fun r => r.setKernel k)

/-- `spawn`, in the parent. -/
def spawn (site : SpawnSite) (s : Server) (g : GroupId) (i : ℕ) : Server :=
  let (o, s) := takeOutcome s
  match o.socketpair with
  | none => s.record (.spawnFailed site g i)
  | some (a, b) =>
    let s := emit s (.socketpair a b)
    match s.reg.kernel.fork o.fork with
    | none => s.record (.spawnFailed site g i)
    | some (pid, k) =>
      let cc := s.reg.groups g
      let pr : Process :=
        { pPid := pid, pStart := s.clock, pAge := cc.ccAge, pTerminated := false
          pChildConfig := some g, pInstance := i
          pChildSockbuf := o.bufNew && o.bufEnable, pChildSock := a }
      let s := emit s (.close b)
      let s := s.withIo fun io => if o.bufNew && !o.bufEnable then io.emit (.close a) else io
      let s := { s with timers := s.reg.nextProc :: s.timers }
      let s := s.record (.spawned site g i s.reg.nextProc pid)
      let s := s.withReg fun r => r.startProcess k pr g i
      slog P s (text "[process_start] " ++ cc.ccName.bytes ++ text " pid: " ++
        natText pid.toNat ++ text "\n")

/-- `for (i = a; i < a + n; i++) spawn(cc, i)`. -/
def spawnRange (site : SpawnSite) (s : Server) (g : GroupId) (a n : ℕ) : Server :=
  (List.range' a n).foldl (fun s i => spawn P site s g i) s

end Effects

end UbervisorServer
