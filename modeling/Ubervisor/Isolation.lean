import Ubervisor.Outputs
import Ubervisor.SlotInvariants

/-! # Groups do not affect each other

A request, the end of a process and a heartbeat concern one group at most. All other groups
keep their records, their slots and the back pointers of their processes. A process that DELE
or UPDT has cut loose belongs to no group again, so its end concerns none. -/
namespace UbervisorIsolation

open UbervisorRuns
open UbervisorValues
open UbervisorChildConfigs
open UbervisorKernel
open UbervisorRegistry
open UbervisorReadCallback (Command findCommand)
open UbervisorServer
open UbervisorCommands
open UbervisorEvents
open UbervisorSupervision
open UbervisorSlots
open UbervisorUpdates
open UbervisorExits
open UbervisorEffects
open UbervisorGroupSteps
open UbervisorSlotInvariants
open UbervisorOutputs
open UbervisorJsonC

variable {P : Platform} {s u : Server} {e : Event} {g : GroupId} {p : ProcId} {i : ℕ}

section Frames

/-- The name in a request that is about one group. -/
def requestName (P : Platform) (buf : CStr) : Command → Option CStr
  | .spwn | .updt => (childConfigUnserialize P buf).map ChildConfig.ccName
  | .dele | .kill => (parseObject P buf).bind nameField
  | _ => none

/-- The group an event is about: the one a request names, or the one of the process that has
ended or whose timer has expired. -/
def concerned (P : Platform) (s : Server) : Event → Option GroupId
  | .callback (.request _ _ payload) _ => do
    let c ← findCommand payload
    let n ← requestName P (CStr.ofBytes (payload.drop 4)) c
    s.reg.childConfigFindByName n
  | .callback .waitpid o => do
    let (p, _) ← reaped s (.callback .waitpid o)
    (s.reg.procs p).pChildConfig
  | .callback (.heartbeat p) _ => (s.reg.procs p).pChildConfig
  | _ => none

/-- A group keeps its record with its slots, and the processes that point back to it. -/
structure Kept (g : GroupId) (s u : Server) : Prop where
  listed : g ∈ u.reg.childConfigList
  record : u.reg.groups g = s.reg.groups g
  owners : ∀ p i, Owns u.reg p g i ↔ Owns s.reg p g i

theorem concerned_dele {obj : Json} (h : requested P s .dele e = some (obj, g)) :
    concerned P s e = some g := by
  obtain ⟨con, cid, payload, o, rfl, hc, hn⟩ := requested_request h
  obtain ⟨obj', hobj, hn⟩ := Option.bind_eq_some_iff.mp hn
  obtain ⟨n, hname, hn⟩ := Option.bind_eq_some_iff.mp hn
  obtain ⟨g', hg, hn⟩ := Option.bind_eq_some_iff.mp hn
  cases hn
  simp [concerned, hc, requestName, hobj, hname, hg]

theorem concerned_updt {cc : ChildConfig} (h : acceptedUpdt P s e = some (cc, g)) :
    concerned P s e = some g := by
  obtain ⟨con, cid, payload, o, rfl, hc, hcc, hg, -⟩ := acceptedUpdt_request h
  simp [concerned, hc, requestName, hcc, hg]

theorem concerned_reaped {ret : WaitStatus} (hr : reaped s e = some (p, ret)) :
    concerned P s e = (s.reg.procs p).pChildConfig := by
  obtain ⟨o, rfl⟩ := reaped_waitpid hr
  change (reaped s (.callback .waitpid o)).bind (fun x => (s.reg.procs x.1).pChildConfig) = _
  rw [hr, Option.bind_some]

/-- Where the slots of a group stay the same, so do the processes that point back to it. -/
theorem owners_of_record (hl : Linked s.reg) (hu : Linked u.reg) (hs : g ∈ s.reg.childConfigList)
    (hg : g ∈ u.reg.childConfigList) (hr : u.reg.groups g = s.reg.groups g) :
    Owns u.reg p g i ↔ Owns s.reg p g i := by
  rw [← hl.placed, ← hu.placed]
  unfold InSlot
  rw [hr]
  simp only [hs, hg]

/-- A step leaves every group alone that it is not about. -/
theorem step_kept (hl : Linked s.reg) (h : Step P s e u) (hg : g ∈ s.reg.childConfigList)
    (hne : concerned P s e ≠ some g) : Kept g s u := by
  have hu : Linked u.reg := step_linked hl h
  cases step_group hl h hg with
  | untouched hlisted hsame _ =>
    exact ⟨hlisted, hsame, fun _ _ => owners_of_record hl hu hg hlisted hsame⟩
  | deleted ha _ _ =>
    obtain ⟨obj, hreq⟩ := ha
    exact absurd (concerned_dele hreq) hne
  | updated cc ha _ => exact absurd (concerned_updt ha) hne
  | exited i p ret hr hex =>
    have hcfg := ((hl.placed g i p).mp hex.owned).2.1
    exact absurd ((concerned_reaped hr).trans hcfg) hne

end Frames

section Strays

/-- A process that was started and belongs to no group any more. -/
structure Stray (r : Registry) (p : ProcId) : Prop where
  old : p < r.nextProc
  cfg : (r.procs p).pChildConfig = none

/-- It never belongs to one again. -/
theorem step_stray (hl : Linked s.reg) (h : Step P s e u) (hp : Stray s.reg p) :
    Stray u.reg p := by
  have hold := (step_outputs hl h).older
  constructor
  · exact hp.old.trans_le hold.fresh
  · rcases hold.cfg p hp.old with hc | hc
    · exact hc.trans hp.cfg
    · exact hc

theorem run_stray {Q : Server → Event → Server → Prop} (hl : Linked s.reg)
    (h : Execution (Step P) Q s u) (hp : Stray s.reg p) : Linked u.reg ∧ Stray u.reg p := by
  refine h.invariant (P := fun s => Linked s.reg ∧ Stray s.reg p) ?_ ⟨hl, hp⟩
  rintro s e u ⟨hl, hp⟩ hstep -
  exact ⟨step_linked hl hstep, step_stray hl hstep hp⟩

/-- A process of a group that is not in its slot after a step has been cut loose, if it has not
ended. -/
theorem stray_of_lost (hl : Linked s.reg) (h : Step P s e u) (hs : InSlot s.reg g i p)
    (hnot : ¬ InSlot u.reg g i p) (hreap : ∀ o, e ≠ .callback .waitpid o) : Stray u.reg p := by
  have hu : Linked u.reg := step_linked hl h
  have ho := step_outputs hl h
  obtain ⟨ht, hcfg, hinst⟩ := (hl.placed g i p).mp hs
  have hlt := hl.tracked_lt ht
  have htracked : u.reg.Tracked p := by
    apply ho.kept p ht
    intro ret hr
    obtain ⟨o, he⟩ := reaped_waitpid hr
    exact hreap o he
  constructor
  · exact hlt.trans_le ho.older.fresh
  · rcases ho.older.cfg p hlt with hc | hc
    · refine absurd ((hu.placed g i p).mpr ⟨htracked, ?_, ?_⟩) hnot
      · exact hc.trans hcfg
      · exact (ho.older.inst p hlt).trans hinst
    · exact hc

/-- DELE cuts all processes of the group loose. -/
theorem dele_stray {obj : Json} (hl : Linked s.reg) (h : Step P s e u)
    (hd : requested P s .dele e = some (obj, g)) (hs : InSlot s.reg g i p) : Stray u.reg p := by
  apply stray_of_lost hl h hs
  · intro hu
    have hlisted := hu.1
    rw [(step_deleted h hd).1, orphanAll_keeps] at hlisted
    exact hl.nodup.not_mem_erase hlisted
  · rintro o rfl
    cases hd

/-- UPDT cuts the processes beyond the new number of instances loose. -/
theorem updt_stray {cc : ChildConfig} (hl : Linked s.reg) (h : Step P s e u)
    (ha : acceptedUpdt P s e = some (cc, g)) (hn : cc.ccInstances ≠ -1) (hi : cc.ccInstances ≤ i)
    (hs : InSlot s.reg g i p) : Stray u.reg p := by
  apply stray_of_lost hl h hs
  · intro hu
    have hup := step_updated hl h ha
    have hlt := hup.linked.cell_lt hu
    rw [hup.instances, intOr, if_pos hn] at hlt
    omega
  · rintro o rfl
    cases ha

/-- The end of a process that was cut loose leaves all groups alone. -/
theorem stray_exit {Q : Server → Event → Server → Prop} {v w : Server} {ret : WaitStatus}
    (hl : Linked s.reg) (hp : Stray s.reg p) (hrun : Execution (Step P) Q s v)
    (h : Step P v e w) (hr : reaped v e = some (p, ret)) (hg : g ∈ v.reg.childConfigList) :
    Kept g v w := by
  obtain ⟨hlv, hpv⟩ := run_stray hl hrun hp
  apply step_kept hlv h hg
  rw [concerned_reaped hr, hpv.cfg]
  intro hne
  cases hne

end Strays

section Runs

/-- What a step about one group leaves alone, and what becomes of the processes it cuts loose. -/
structure Isolated (P : Platform) (s : Server) (e : Event) (u : Server) : Prop where
  others : ∀ g ∈ s.reg.childConfigList, concerned P s e ≠ some g → Kept g s u
  deleted : ∀ obj g i p, requested P s .dele e = some (obj, g) → InSlot s.reg g i p →
    Stray u.reg p
  shrunk : ∀ cc g (i : ℕ) p, acceptedUpdt P s e = some (cc, g) → cc.ccInstances ≠ -1 →
    cc.ccInstances ≤ i → InSlot s.reg g i p → Stray u.reg p
  strays : ∀ p, Stray u.reg p → ∀ v e' w ret, Execution (Step P) (Succeeds AnySite) u v →
    Step P v e' w → reaped v e' = some (p, ret) → ∀ g ∈ v.reg.childConfigList, Kept g v w

/-- Groups are isolated from steps about other groups and from processes cut loose. -/
theorem reachable_isolated (h : ReachableBy P (Succeeds AnySite) s) (hs : Step P s e u) :
    Isolated P s e u := by
  have hl : Linked s.reg := ReachableBy.linked h
  constructor
  · intro g hg hne
    exact step_kept hl hs hg hne
  · intro obj g i p hd hslot
    exact dele_stray hl hs hd hslot
  · intro cc g i p ha hn hi hslot
    exact updt_stray hl hs ha hn hi hslot
  · intro p hp v e' w ret hrun hstep hr g hg
    exact stray_exit (step_linked hl hs) hp hrun hstep hr hg

def otherRequest : Json :=
  .object [(text "name", .string (text "db")), (text "args", .array [.string (text "/bin/db")]),
    (text "status", .int 1)]

def deleRequest : Json := .object [(text "name", .string (text "web"))]

def farmPlatform : Platform :=
  sample [printed pairRequest, printed otherRequest, printed deleRequest]

/-- Two groups, one of which is deleted. -/
def farmState : Server := stateAfter (next farmPlatform) (initial false false 100)
  [connecting, asking "SPWN" pairRequest [100, 101], asking "SPWN" otherRequest [102]]

theorem farmState_isolated : Isolated farmPlatform farmState (asking "DELE" deleRequest [])
    (next farmPlatform farmState (asking "DELE" deleRequest [])) := by
  have hrun : Admits Enabled (next farmPlatform) (Succeeds AnySite) (initial false false 100)
    [connecting, asking "SPWN" pairRequest [100, 101], asking "SPWN" otherRequest [102]] := by
      decide +kernel
  have hen : Enabled farmState (asking "DELE" deleRequest []) := by decide +kernel
  exact reachable_isolated ⟨false, false, 100, hrun.execution⟩ ⟨hen, rfl⟩

end Runs

end UbervisorIsolation
