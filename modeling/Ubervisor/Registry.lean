import Ubervisor.BucketTable
import Ubervisor.ChildConfigs
import Ubervisor.Kernel

/-! # The server's tables

The two hash tables of `uvhash.c` and the registry: the allocated groups and processes, the
group list, the tables by group name and by pid, and beside them the kernel's children. Struct
pointers are identities that are never reused, so a pointer to freed memory is an identity
that the list or the table no longer holds. -/
namespace UbervisorRegistry

open UbervisorBucketTable
open UbervisorValues
open UbervisorChildConfigs
open UbervisorKernel

def hashBsizeProcess : ℕ := 16
def hashBsizeChildConfig : ℕ := 16

instance : NeZero hashBsizeProcess := ⟨by decide⟩
instance : NeZero hashBsizeChildConfig := ⟨by decide⟩

def hashUint (x : UInt32) : ℕ := (x * 2654435761).toNat

/-- `char` is signed: a byte from 128 on is widened with its sign. -/
def signedChar (c : UInt8) : UInt32 := if c < 128 then c.toUInt32 else c.toUInt32 ||| 0xffffff00

def hashStr (x : CStr) : ℕ :=
  (x.bytes.foldl (fun hash c => ((hash <<< 5) + hash) ^^^ signedChar c) 5381 : UInt32).toNat

abbrev UvHash (V : Type) (size : ℕ) [NeZero size] :=
  BucketTable UInt32 V (fun k => k) hashUint size

/-- A `char *` key: the address and the string stored there. -/
structure StrPtr where
  addr : ℕ
  str : CStr
  deriving DecidableEq

abbrev UvStrHash (V : Type) (size : ℕ) [NeZero size] :=
  BucketTable StrPtr V StrPtr.str hashStr size

section Uvhash

variable {V : Type} {size : ℕ} [NeZero size]

def uvhashInsert (h : UvHash V size) (k : UInt32) (v : V) : UvHash V size := h.insert k v
def uvhashFind (h : UvHash V size) (k : UInt32) : Option V := h.find (fun x => x == k) k
def uvhashRemove (h : UvHash V size) (k : UInt32) : UvHash V size := h.remove (fun x => x == k) k

def uvstrhashInsert (h : UvStrHash V size) (k : StrPtr) (v : V) : UvStrHash V size := h.insert k v
/-- Keys are compared with `strcmp`. -/
def uvstrhashFind (h : UvStrHash V size) (k : CStr) : Option V := h.find (fun x => x.str == k) k
/-- Keys are compared as pointers. -/
def uvstrhashRemove (h : UvStrHash V size) (k : StrPtr) : UvStrHash V size :=
  h.remove (fun x => x.addr == k.addr) k.str

theorem uvhashFind_chain (h : UvHash V size) (k : UInt32) :
    uvhashFind h k = (h.chain k).head?.map Prod.snd :=
  h.find_chain fun x => by rw [beq_eq_decide]

theorem uvstrhashFind_chain (h : UvStrHash V size) (k : CStr) :
    uvstrhashFind h k = (h.chain k).head?.map Prod.snd :=
  h.find_chain fun x => by rw [beq_eq_decide]

/-- Removing a key drops its newest entry and keeps the chain of every other key. -/
theorem chain_uvhashRemove (h : UvHash V size) (k k' : UInt32) :
    (uvhashRemove h k).chain k' = if k' = k then (h.chain k).tail else h.chain k' :=
  h.chain_remove_class (fun x => by rw [beq_eq_decide]) k'

end Uvhash

/-- `struct process`. `pChildSockbuf` tells whether the bufferevent pointer is not NULL. -/
structure Process where
  pPid : Pid
  pStart : ℤ
  pAge : ℤ
  pTerminated : Bool
  pChildConfig : Option GroupId
  pInstance : ℕ
  pChildSockbuf : Bool
  pChildSock : ℕ
  deriving DecidableEq

structure Registry where
  groups : GroupId → ChildConfig
  procs : ProcId → Process
  nextGroup : GroupId
  nextProc : ProcId
  childConfigList : List GroupId
  childConfigHash : UvStrHash GroupId hashBsizeChildConfig
  processHash : UvHash ProcId hashBsizeProcess
  kernel : Kernel

namespace Registry

def childConfigInsert (r : Registry) (cc : ChildConfig) : Registry :=
  { r with
    groups := Function.update r.groups r.nextGroup cc
    nextGroup := r.nextGroup + 1
    childConfigList := r.nextGroup :: r.childConfigList
    childConfigHash := uvstrhashInsert r.childConfigHash ⟨r.nextGroup, cc.ccName⟩ r.nextGroup }

def childConfigFindByName (r : Registry) (n : CStr) : Option GroupId :=
  uvstrhashFind r.childConfigHash n

def childConfigRemove (r : Registry) (g : GroupId) : Registry :=
  { r with
    childConfigList := r.childConfigList.erase g
    childConfigHash := uvstrhashRemove r.childConfigHash ⟨g, (r.groups g).ccName⟩ }

/-- Assignments through a `struct child_config *`. -/
def setGroup (r : Registry) (g : GroupId) (f : ChildConfig → ChildConfig) : Registry :=
  { r with groups := Function.update r.groups g (f (r.groups g)) }

/-- `cc->cc_childs[i] = c`. -/
def setCell (r : Registry) (g : GroupId) (i : ℕ) (c : Cell) : Registry :=
  r.setGroup g fun cc => { cc with ccChilds := cc.ccChilds.set i c }

/-- Assignments through a `struct process *`. -/
def setProc (r : Registry) (p : ProcId) (f : Process → Process) : Registry :=
  { r with procs := Function.update r.procs p (f (r.procs p)) }

/-- `p->p_child_config = NULL`. -/
def orphan (r : Registry) (p : ProcId) : Registry :=
  r.setProc p fun pr => { pr with pChildConfig := none }

/-- The loop of `c_dele` over the processes of the group. -/
def orphanAll (r : Registry) (ps : List ProcId) : Registry := ps.foldl orphan r

def processInsert (r : Registry) (pr : Process) : Registry :=
  { r with
    procs := Function.update r.procs r.nextProc pr
    nextProc := r.nextProc + 1
    processHash := uvhashInsert r.processHash pr.pPid r.nextProc }

def processFindByPid (r : Registry) (pid : Pid) : Option ProcId := uvhashFind r.processHash pid

/-- `process_find_instance`, compared with NULL. -/
def processFindInstance (r : Registry) (g : GroupId) (i : ℕ) : Cell := (r.groups g).cell i

def processRemove (r : Registry) (p : ProcId) : Registry :=
  { r with processHash := uvhashRemove r.processHash (r.procs p).pPid }

def setKernel (r : Registry) (k : Kernel) : Registry := { r with kernel := k }

/-- The effect of a successful `spawn` on the tables. -/
def startProcess (r : Registry) (k : Kernel) (pr : Process) (g : GroupId) (i : ℕ) : Registry :=
  ((r.setKernel k).processInsert pr).setCell g i (.proc r.nextProc)

/-- The process is in `process_hash`, under its own pid. -/
def Tracked (r : Registry) (p : ProcId) : Prop :=
  ((r.procs p).pPid, p) ∈ r.processHash.chain (r.procs p).pPid

instance (r : Registry) (p : ProcId) : Decidable (r.Tracked p) :=
  inferInstanceAs (Decidable (_ ∈ _))

end Registry

def Registry.init : Registry where
  groups _ := childConfigNew (CStr.ofBytes [])
  procs _ := ⟨0, 0, 0, false, none, 0, false, 0⟩
  nextGroup := 0
  nextProc := 0
  childConfigList := []
  childConfigHash := .empty
  processHash := .empty
  kernel := .init

end UbervisorRegistry
