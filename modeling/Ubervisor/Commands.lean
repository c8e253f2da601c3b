import Ubervisor.ReadCallback
import Ubervisor.Server

/-! # Command handlers

The handlers of the twelve requests and the loader of dumps, as they act on the server. A
handler returns whether the connection is kept. -/
namespace UbervisorCommands

open UbervisorValues
open UbervisorChildConfigs
open UbervisorKernel
open UbervisorRegistry
open UbervisorChunks
open UbervisorReadCallback (Command findCommand)
open UbervisorServer

variable (P : Platform)

section Requests

variable (s : Server) (con : ClientId) (buf : CStr)

def parseObject : Option Json :=
  match P.jsonParse buf.bytes with
  | some (.object l) => some (.object l)
  | _ => none

/-- The field `name` of a request, which must be a string. -/
def nameField (obj : Json) : Option CStr :=
  match obj.objectGet "name" with
  | some (.string n) => some (CStr.ofBytes n)
  | _ => none

/-- The field as an `int`, when it is one. -/
def intField (obj : Json) (key : String) : Option ℤ :=
  match obj.objectGet key with
  | some (.int i) => some (clampInt i)
  | _ => none

/-- The common part of KILL, DELE, GETC and PIDS: parse, find the group by its name. The
handlers differ in what they return when the name is missing or not a string. -/
def withNamedGroup (badName : Bool) (handle : Json → GroupId → Server × Bool) : Server × Bool :=
  match parseObject P buf with
  | none => (sendStatusMsg P s con false "failure", false)
  | some obj =>
    match nameField obj with
    | none => (sendStatusMsg P s con false "failure", badName)
    | some n =>
      match s.reg.childConfigFindByName n with
      | none => (sendStatusMsg P s con false "name not found", true)
      | some g => handle obj g

def pidOf (p : ProcId) : Pid := (s.reg.procs p).pPid

/-- Reading a cell that was never assigned. -/
def noteUnset (unset : Bool) : Server := s.withIo fun io => if unset then io.emit .wild else io

def cList : Server × Bool :=
  (sendReply P s con (.names (s.reg.childConfigList.map fun g => (s.reg.groups g).ccName)), true)

def cHelo : Server × Bool := (sendReply P s con (.helo P.uvVersion), true)

def cExit : Server × Bool :=
  if !s.allowExit then (sendStatusMsg P s con false "prohibited", true)
  else
    let s := sendSuccess P s con "exiting"
    let s := slog P s (text "server exiting due to exit command.\n")
    ({ s with halted := true }, true)

def cGetc : Server × Bool :=
  withNamedGroup P s con buf false fun _ g => (sendReply P s con (.config (s.reg.groups g)), true)

def cPids : Server × Bool :=
  withNamedGroup P s con buf false fun _ g =>
    let cc := s.reg.groups g
    (sendReply P (noteUnset s cc.hasUnset) con (.pids (cc.slotProcs.map (pidOf s))), true)

/-- The processes KILL signals: those in all slots, or the one in the slot `idx`. -/
def killTargets (cc : ChildConfig) (idx : ℤ) : List ProcId :=
  if idx = -1 then cc.slotProcs
  else if 0 ≤ idx ∧ idx < cc.ccInstances then
    match cc.cell idx.toNat with
    | .proc p => [p]
    | _ => []
  else []

/-- KILL reads a cell that was never assigned. -/
def killReadsUnset (cc : ChildConfig) (idx : ℤ) : Bool :=
  if idx = -1 then cc.hasUnset
  else 0 ≤ idx ∧ idx < cc.ccInstances ∧ cc.cell idx.toNat = .unset

def killAll (sig : ℤ) (pids : List Pid) : Server :=
  s.withIo fun io => pids.foldl (fun io pid => io.emit (.kill pid sig)) io

def cKill : Server × Bool :=
  withNamedGroup P s con buf true fun obj g =>
    let cc := s.reg.groups g
    let s := slog P s (text "[kill] " ++ cc.ccName.bytes ++ text " signal " ++
      intText cc.ccKillsig ++ text "\n")
    let sig := (intField obj "sig").getD cc.ccKillsig
    let idx := (intField obj "index").getD (-1)
    let pids := (killTargets cc idx).map (pidOf s)
    let s := noteUnset s (killReadsUnset cc idx)
    (sendReply P (killAll s sig pids) con (.pids pids), true)

def cDele : Server × Bool :=
  withNamedGroup P s con buf true fun _ g =>
    let cc := s.reg.groups g
    let s := s.withReg fun r => r.childConfigRemove g
    let s := slog P s (text "[dele] " ++ cc.ccName.bytes ++ text "\n")
    let s := noteUnset s cc.hasUnset
    let s := s.withReg fun r => r.orphanAll cc.slotProcs
    let s := sendStatusUpdateNotification P s cc.ccName statusDelete
    let s := s.record (.deleted g)
    (sendReply P s con (.pids (cc.slotProcs.map (pidOf s))), true)

def cSubs : Server × Bool :=
  match parseObject P buf with
  | none => (sendStatusMsg P s con false "failure", false)
  | some obj =>
    match intField obj "ident" with
    | none => (sendStatusMsg P s con false "failure", false)
    | some ident =>
      let sub : Subscription := ⟨con, UInt16.ofNat (ident % 65536).toNat, s.io.cid con⟩
      let s := s.withIo fun io => { io with subscriptions := sub :: io.subscriptions }
      (sendStatusMsg P s con true "success", true)

end Requests

section Read

/-- `replace_str`: the first occurrence of `a` becomes `b`, unless `b` is longer. -/
def replaceStr (a b : Bytes) : Bytes → Bytes
  | [] => []
  | c :: l =>
    if b.length ≤ a.length ∧ a <+: c :: l then b ++ (c :: l).drop a.length
    else c :: replaceStr a b l

/-- `read_buf` is 16384 bytes; one of them is for the terminating NUL. -/
def readMax : ℤ := 16383

def numMarker : Bytes := text "%(NUM)"

/-- `snprintf` into the five bytes of `instance_str`. -/
def instanceStr (instance_ : ℕ) : Bytes := (natText instance_).take 4

/-- The seeks and the read of `c_read`: what was read, the reported offset and the size.
A seek to a negative position fails and leaves the position at the end. -/
def readLog (content : Bytes) (off bytes : ℤ) : CStr × ℤ × ℤ :=
  let fsize : ℤ := content.length
  if off < 0 then
    if fsize - bytes < 0 then (CStr.ofBytes [], -1, fsize)
    else (CStr.ofBytes ((content.drop (fsize - bytes).toNat).take bytes.toNat),
      fsize - bytes, fsize)
  else (CStr.ofBytes ((content.drop off.toNat).take bytes.toNat), off, fsize)

def doubleField (obj : Json) (key : String) : Option ℤ :=
  match obj.objectGet key with
  | some (.double x) => some (x.num.tdiv x.den)
  | _ => none

def cRead (s : Server) (con : ClientId) (buf : CStr) : Server × Bool :=
  let fail := (sendStatusMsg P s con false "failure", false)
  match parseObject P buf with
  | none => fail
  | some obj =>
    match nameField obj, intField obj "stream", doubleField obj "offset",
      intField obj "bytes", intField obj "instance" with
    | some n, some stream, some off, some bytes, some inst =>
      if (stream < 1 ∨ stream > 2) ∨ (bytes < 0 ∨ bytes > readMax) then
        (sendStatusMsg P s con false "parameters out of bounds.", false)
      else
        match s.reg.childConfigFindByName n with
        | none => (sendStatusMsg P s con false "no such group.", true)
        | some g =>
          let cc := s.reg.groups g
          if inst < 0 ∨ cc.ccInstances ≤ inst then
            (sendStatusMsg P s con false "instance out of bounds.", true)
          else
            match (if stream = 1 then cc.ccStdout else cc.ccStderr) with
            | none => (sendStatusMsg P s con false "stream is not logged.", true)
            | some fn =>
              let path := replaceStr numMarker (instanceStr inst.toNat) fn.bytes
              match s.io.logFiles (CStr.ofBytes path) with
              | none => (sendStatusMsg P s con false "can't open logfile.", true)
              | some .unreadable => (sendStatusMsg P s con false "read failed.", true)
              | some (.regular content) =>
                let (log, offset, fsize) := readLog content off bytes
                (sendReply P s con (.log log offset fsize), true)
    | _, _, _, _, _ => fail

end Read

section Start

/-- The checks of SPWN, with the message of the first one that fails. -/
def spwnRefusal (r : Registry) (cc : ChildConfig) : Option String :=
  let n := if cc.ccInstances = -1 then 1 else cc.ccInstances
  if cc.ccCommand = none then some "need command"
  else if r.childConfigFindByName cc.ccName ≠ none then some "name exists"
  else if n < 1 then some "instances > 0 required."
  else if n > maxInstances then some "too many instances."
  else none

/-- The record with its slots allocated and zeroed. -/
def withSlots (cc : ChildConfig) (n : ℤ) : ChildConfig :=
  { cc with ccInstances := n, ccChilds := List.replicate n.toNat .null }

/-- `child_config_insert`. -/
def insertGroup (s : Server) (cc : ChildConfig) : Server :=
  (s.withReg fun r => r.childConfigInsert cc).record (.created s.reg.nextGroup)

def cSpwn (s : Server) (con : ClientId) (buf : CStr) : Server × Bool :=
  match childConfigUnserialize P buf with
  | none => (sendStatusMsg P s con false "failure", false)
  | some cc =>
    -- `need name` is dead code: a record from JSON has a name
    match spwnRefusal s.reg cc with
    | some msg => (sendStatusMsg P s con false msg, true)
    | none =>
      let cc := withSlots cc (if cc.ccInstances = -1 then 1 else cc.ccInstances)
      let g := s.reg.nextGroup
      let s := insertGroup s cc
      let s := sendSuccess P s con "success"
      let s := slog P s (text "[start] creating group " ++ cc.ccName.bytes ++ text "\n")
      let s := sendStatusUpdateNotification P s cc.ccName statusCreate
      let s := sendStatusUpdateNotification P s cc.ccName cc.ccStatus
      if cc.ccStatus ≠ statusRunning then (s, true)
      else (spawnRange P .spwn s g 0 cc.ccInstances.toNat, true)

end Start

section Update

/-- A string field that UPDT may change. -/
structure StrField where
  label : String
  get : ChildConfig → Option CStr
  set : CStr → ChildConfig → ChildConfig

def fieldDir : StrField := ⟨"dir", ChildConfig.ccDir, fun v cc => { cc with ccDir := v }⟩
def fieldHeartbeat : StrField :=
  ⟨"heartbeat", ChildConfig.ccHeartbeat, fun v cc => { cc with ccHeartbeat := v }⟩
def fieldFatalCb : StrField :=
  ⟨"fatal_cb", ChildConfig.ccFatalCb, fun v cc => { cc with ccFatalCb := v }⟩
def fieldStdout : StrField :=
  ⟨"stdout", ChildConfig.ccStdout, fun v cc => { cc with ccStdout := v }⟩
def fieldStderr : StrField :=
  ⟨"stderr", ChildConfig.ccStderr, fun v cc => { cc with ccStderr := v }⟩

variable (cc : ChildConfig) (g : GroupId)

def updateText (s : Server) (label : String) (old new : Bytes) : Bytes :=
  text "[update] " ++ (s.reg.groups g).ccName.bytes ++ text " " ++ text label ++ text " " ++
    old ++ text " -> " ++ new ++ text "\n"

def quoted (b : Bytes) : Bytes := text "\"" ++ b ++ text "\""

/-- Replace a string when the request has one that `xstrcmp` tells from the present one.
The flag is `changed`. -/
def updateStr (fld : StrField) (u : Server × Bool) : Server × Bool :=
  match fld.get cc with
  | none => u
  | some v =>
    if fld.get (u.1.reg.groups g) = some v then u
    else
      let s := slog P u.1 (updateText g u.1 fld.label
        (quoted (optText (fld.get (u.1.reg.groups g)))) (quoted v.bytes))
      (s.withReg fun r => r.setGroup g (fld.set v), true)

def updateKillsig (u : Server × Bool) : Server × Bool :=
  let up := u.1.reg.groups g
  if cc.ccKillsig ≠ -1 ∧ cc.ccKillsig ≠ up.ccKillsig then
    let s := slog P u.1 (updateText g u.1 "killsig" (intText up.ccKillsig) (intText cc.ccKillsig))
    (s.withReg fun r => r.setGroup g fun up => { up with ccKillsig := cc.ccKillsig }, true)
  else u

/-- Reallocate the slots and set the count. -/
def resizeGroup (s : Server) (n : ℤ) : Server :=
  (s.withReg fun r => r.setGroup g fun up =>
    { up with ccInstances := n, ccChilds := reallocCells up.ccChilds n.toNat }).record
      (.resized g (s.reg.groups g).ccInstances n)

/-- One turn of the loop that fills new slots. -/
def growSlot (s : Server) (i : ℕ) : Server :=
  if (s.reg.groups g).ccStatus = statusRunning then spawn P .grow s g i
  else s.withReg fun r => r.setCell g i .null

/-- One turn of the loop that gives up slots. -/
def shrinkSlot (s : Server) (i : ℕ) : Server :=
  match (s.reg.groups g).cell i with
  | .proc p => s.withReg fun r => (r.orphan p).setCell g i .null
  | .null => s.withReg fun r => r.setCell g i .null
  | .unset => (emit s .wild).withReg fun r => r.setCell g i .null

def updateInstances (u : Server × Bool) : Server × Bool :=
  let up := u.1.reg.groups g
  if cc.ccInstances ≠ -1 ∧ cc.ccInstances ≠ up.ccInstances then
    let s := slog P u.1 (updateText g u.1 "instances" (intText up.ccInstances)
      (intText cc.ccInstances))
    if cc.ccInstances > up.ccInstances then
      let s := resizeGroup g s cc.ccInstances
      ((List.range' up.ccInstances.toNat
        (cc.ccInstances.toNat - up.ccInstances.toNat)).foldl (growSlot P g) s, true)
    else
      let s := (List.range' cc.ccInstances.toNat
        (up.ccInstances.toNat - cc.ccInstances.toNat)).foldl (shrinkSlot g) s
      (resizeGroup g s cc.ccInstances, true)
  else u

/-- One turn of the loop that starts what a group lacks. -/
def startSlot (s : Server) (i : ℕ) : Server :=
  match s.reg.processFindInstance g i with
  | .null => spawn P .status s g i
  | .proc _ => s
  | .unset => emit s .wild

def updateStatus (u : Server × Bool) : Server × Bool :=
  let up := u.1.reg.groups g
  if cc.ccStatus ≠ -1 ∧ cc.ccStatus ≠ up.ccStatus then
    let s := slog P u.1 (updateText g u.1 "status" (intText up.ccStatus) (intText cc.ccStatus))
    let s := s.withReg fun r => r.setGroup g fun up => { up with ccError := 0 }
    let s :=
      if up.ccStatus ≠ statusRunning ∧ cc.ccStatus = statusRunning then
        (List.range up.ccInstances.toNat).foldl (startSlot P g) s
      else s
    let s := s.withReg fun r => r.setGroup g fun up => { up with ccStatus := cc.ccStatus }
    let s := s.record (.statusSet g up.ccStatus cc.ccStatus)
    (sendStatusUpdateNotification P s up.ccName cc.ccStatus, true)
  else u

def updateAge (u : Server × Bool) : Server × Bool :=
  let up := u.1.reg.groups g
  if cc.ccAge > 0 ∧ cc.ccAge ≠ up.ccAge then
    let s := slog P u.1 (updateText g u.1 "age" (intText up.ccAge) (intText cc.ccAge))
    (s.withReg fun r => r.setGroup g fun up => { up with ccAge := cc.ccAge }, true)
  else u

/-- The checks of UPDT, with the code and message of the first one that refuses. -/
def updtRefusal : Option (Bool × String) :=
  if cc.ccUid ≠ -1 then some (true, "cannot update uid")
  else if cc.ccGid ≠ -1 then some (true, "cannot update gid")
  else if cc.ccCommand ≠ none then some (false, "command cannot be updated")
  else if cc.ccInstances ≠ -1 ∧ cc.ccInstances < 1 then some (false, "instances > 0 required.")
  else if cc.ccInstances > maxInstances then some (false, "too many instances.")
  else none

/-- The assignments of UPDT up to the slots, then slots, status and age. -/
def updateStrings (u : Server × Bool) : Server × Bool :=
  let u := updateStr P cc g fieldDir u
  let u := updateStr P cc g fieldHeartbeat u
  let u := updateStr P cc g fieldFatalCb u
  let u := updateStr P cc g fieldStdout u
  updateStr P cc g fieldStderr u

def updateGroup (s : Server) : Server × Bool :=
  let u := updateStrings P cc g (s, false)
  let u := updateKillsig P cc g u
  let u := updateInstances P cc g u
  let u := updateStatus P cc g u
  updateAge P cc g u

def cUpdt (s : Server) (con : ClientId) (buf : CStr) : Server × Bool :=
  match childConfigUnserialize P buf with
  | none => (sendStatusMsg P (slog P s (text "[update] parse error\n")) con false "failure", false)
  | some cc =>
    match s.reg.childConfigFindByName cc.ccName with
    | none => (sendStatusMsg P s con false "not found", false)
    | some g =>
      match updtRefusal cc with
      | some (code, msg) => (sendStatusMsg P s con code msg, true)
      | none =>
        let (s, changed) := updateGroup P cc g s
        let s := if changed then sendGroupCfgUpdateNotification P s (s.reg.groups g) else s
        (sendSuccess P s con "success", true)

end Update

section Dispatch

def runCommand (c : Command) (s : Server) (con : ClientId) (buf : CStr) : Server × Bool :=
  match c with
  | .dele => cDele P s con buf
  | .dump => (cDump P s con, true)
  | .exit => cExit P s con
  | .getc => cGetc P s con buf
  | .helo => cHelo P s con
  | .kill => cKill P s con buf
  | .list => cList P s con
  | .pids => cPids P s con buf
  | .read => cRead P s con buf
  | .spwn => cSpwn P s con buf
  | .subs => cSubs P s con buf
  | .updt => cUpdt P s con buf

/-- `run_server_command` of the server. -/
def runServerCommand (s : Server) (con : ClientId) (buf : Bytes) : Server :=
  match findCommand buf with
  | some c =>
    let (s, cr) := runCommand P c s con (CStr.ofBytes (buf.drop 4))
    if cr then s else dropClientConnection s con
  | none => dropClientConnection s con

end Dispatch

section Dumps

/-- The defaults `load_dump` sets. -/
def dumpDefaults (cc : ChildConfig) : ChildConfig :=
  { cc with
    ccKillsig := if cc.ccKillsig = -1 then 15 else cc.ccKillsig
    ccInstances := if cc.ccInstances = -1 then 1 else cc.ccInstances
    ccStatus := if cc.ccStatus = -1 then statusRunning else cc.ccStatus }

/-- Register one group of a dump and start its processes. -/
def loadGroup (s : Server) (cc : ChildConfig) : Server :=
  let g := s.reg.nextGroup
  let s := insertGroup s cc
  if cc.ccStatus = statusRunning then spawnRange P .loadDump s g 0 cc.ccInstances.toNat else s

/-- The loop of `load_dump` over the elements of the array. -/
def loadGroups : List Json → Server → Server × Bool
  | [], s => (s, true)
  | .object l :: ts, s =>
    match childConfigFromJson (.object l) with
    | none => (s, false)
    | some cc =>
      if cc.ccCommand = none then (s, false)
      else
        let s := slog P s (text "load: " ++ cc.ccName.bytes ++ text "\n")
        let cc := dumpDefaults cc
        -- `xmalloc` of a negative count is one of nearly 2^64 bytes: the server dies
        if cc.ccInstances < 0 then ({ s with halted := true }, false)
        else loadGroups ts (loadGroup P s (withSlots cc cc.ccInstances))
  | _ :: _, s => (s, false)

/-- `load_dump`, given what `fopen` and `fread` find. -/
def loadDump (s : Server) (file : Option Bytes) : Server × Bool :=
  match file with
  | none => (s, false)
  | some [] => (s, true)
  | some buf =>
    match P.jsonParse (CStr.ofBytes buf).bytes with
    | some (.array l) => loadGroups P l s
    | _ => (s, false)

end Dumps

end UbervisorCommands
