import Ubervisor.Values

/-! # Process groups and their JSON form

The record of a process group, its defaults, and the two directions of its JSON form as
used by SPWN, UPDT, GETC, dumps and configuration notifications. -/
namespace UbervisorChildConfigs

open UbervisorValues

/-- Identities of allocated `struct child_config` and `struct process`. Never reused. -/
abbrev GroupId := ℕ
abbrev ProcId := ℕ

def statusRunning : ℤ := 1
def statusStopped : ℤ := 2
def statusBroken : ℤ := 3
def statusMax : ℤ := 3
/-- Used only for notification. -/
def statusCreate : ℤ := 4
/-- Used only for notification. -/
def statusDelete : ℤ := 5

/-- Maximum instances per group. -/
def maxInstances : ℤ := 1024

/-- One element of a `cc_childs` array. A cell that `malloc` or `realloc` handed out and
nobody wrote yet is `unset`: reading it is undefined. -/
inductive Cell where
  | unset
  | null
  | proc (p : ProcId)
  deriving DecidableEq

/-- `struct child_config`. A record always has a name: `childConfigFromJson` builds none
without, and no other function assigns the field. -/
structure ChildConfig where
  ccName : CStr
  ccCommand : Option (List CStr)
  ccStdout : Option CStr
  ccStderr : Option CStr
  ccDir : Option CStr
  ccHeartbeat : Option CStr
  ccFatalCb : Option CStr
  ccUsername : Option CStr
  ccGroupname : Option CStr
  ccInstances : ℤ
  ccStatus : ℤ
  ccKillsig : ℤ
  ccAge : ℤ
  ccUid : ℤ
  ccGid : ℤ
  ccError : ℤ
  ccErrtime : ℤ
  ccChilds : List Cell
  deriving DecidableEq

/-- The zeroed record with -1 as the unset value of numbers. -/
def childConfigNew (name : CStr) : ChildConfig where
  ccName := name
  ccCommand := none
  ccStdout := none
  ccStderr := none
  ccDir := none
  ccHeartbeat := none
  ccFatalCb := none
  ccUsername := none
  ccGroupname := none
  ccInstances := -1
  ccStatus := -1
  ccKillsig := -1
  ccAge := 0
  ccUid := -1
  ccGid := -1
  ccError := 0
  ccErrtime := 0
  ccChilds := []

/-- The macro `GET`: keep the old value when the field is absent, reject a wrong type. -/
def getField (obj : Json) (key : String) (old : Option CStr) : Option (Option CStr) :=
  match obj.objectGet key with
  | none => some old
  | some (.string s) => some (some (CStr.ofBytes s))
  | some _ => none

/-- The macro `GETINT`. -/
def getIntField (obj : Json) (key : String) (old : ℤ) : Option ℤ :=
  match obj.objectGet key with
  | none => some old
  | some (.int i) => some (clampInt i)
  | some _ => none

/-- The loop over the elements of `args`. -/
def getArgs : List Json → Option (List CStr)
  | [] => some []
  | .string s :: l => (getArgs l).map (CStr.ofBytes s :: ·)
  | _ :: _ => none

def getCommand (obj : Json) : Option (Option (List CStr)) :=
  match obj.objectGet "args" with
  | none => some none
  | some (.array l) => (getArgs l).map some
  | some _ => none

def childConfigFromJson (obj : Json) : Option ChildConfig := do
  let name ← getField obj "name" none
  -- a NULL cc_name is rejected at once
  let new := childConfigNew (← name)
  let stdout ← getField obj "stdout" new.ccStdout
  let stderr ← getField obj "stderr" new.ccStderr
  let dir ← getField obj "dir" new.ccDir
  let heartbeat ← getField obj "heartbeat" new.ccHeartbeat
  let fatalCb ← getField obj "fatal_cb" new.ccFatalCb
  let username ← getField obj "username" new.ccUsername
  let groupname ← getField obj "groupname" new.ccGroupname
  let instances ← getIntField obj "instances" new.ccInstances
  let status ← getIntField obj "status" new.ccStatus
  let killsig ← getIntField obj "killsig" new.ccKillsig
  let uid ← getIntField obj "uid" new.ccUid
  let gid ← getIntField obj "gid" new.ccGid
  let error ← getIntField obj "error" new.ccError
  let age ← getIntField obj "age" new.ccAge
  let command ← getCommand obj
  return { new with
    ccCommand := command, ccStdout := stdout, ccStderr := stderr, ccDir := dir
    ccHeartbeat := heartbeat, ccFatalCb := fatalCb, ccUsername := username
    ccGroupname := groupname, ccInstances := instances, ccStatus := status
    ccKillsig := killsig, ccUid := uid, ccGid := gid, ccError := error, ccAge := age }

def childConfigUnserialize (P : Platform) (buf : CStr) : Option ChildConfig :=
  match P.jsonParse buf.bytes with
  | some (.object l) => childConfigFromJson (.object l)
  | _ => none

/-- The macro `ADD`. -/
def addField (key : String) (v : Option CStr) : List (Bytes × Json) :=
  match v with
  | some s => [(text key, .string s.bytes)]
  | none => []

/-- The macro `ADDINT`. -/
def addIntField (key : String) (v : ℤ) : List (Bytes × Json) :=
  if v ≠ -1 then [(text key, .int v)] else []

def addCommand (v : Option (List CStr)) : List (Bytes × Json) :=
  match v with
  | some l => [(text "args", .array (l.map fun s => .string s.bytes))]
  | none => []

/-- The object `child_config_serialize` prints. -/
def childConfigSerialize (cc : ChildConfig) : Json := .object <|
  addField "name" (some cc.ccName) ++ addField "stdout" cc.ccStdout ++
  addField "stderr" cc.ccStderr ++ addField "dir" cc.ccDir ++
  addField "heartbeat" cc.ccHeartbeat ++ addField "fatal_cb" cc.ccFatalCb ++
  addField "username" cc.ccUsername ++ addField "groupname" cc.ccGroupname ++
  addIntField "instances" cc.ccInstances ++ addIntField "status" cc.ccStatus ++
  addIntField "killsig" cc.ccKillsig ++ addIntField "uid" cc.ccUid ++
  addIntField "gid" cc.ccGid ++ addIntField "error" cc.ccError ++
  addIntField "age" cc.ccAge ++ addCommand cc.ccCommand

/-- The cell a loop over `cc_childs` reads. Past the end there is nothing defined. -/
def ChildConfig.cell (cc : ChildConfig) (i : ℕ) : Cell := cc.ccChilds.getD i .unset

/-- `xrealloc` of `cc_childs` to `n` cells. -/
def reallocCells (l : List Cell) (n : ℕ) : List Cell :=
  l.take n ++ List.replicate (n - l.length) .unset

/-- The processes in the slots below `cc_instances`, in slot order. -/
def ChildConfig.slotProcs (cc : ChildConfig) : List ProcId :=
  (List.range cc.ccInstances.toNat).filterMap fun i =>
    match cc.cell i with
    | .proc p => some p
    | _ => none

/-- Some slot below `cc_instances` holds no defined value. -/
def ChildConfig.hasUnset (cc : ChildConfig) : Bool :=
  (List.range cc.ccInstances.toNat).any fun i => cc.cell i = .unset

end UbervisorChildConfigs
