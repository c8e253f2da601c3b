import Ubervisor.SlotInvariants
import Ubervisor.Transcripts

/-! # Whom the server signals

Signals go to processes of the table of processes, whose pids `waitpid` has not returned since
they were forked. KILL, PIDS and DELE are about the processes in the slots of the named group. -/
namespace UbervisorSignalling

open UbervisorRuns
open UbervisorValues
open UbervisorChildConfigs
open UbervisorKernel
open UbervisorRegistry
open UbervisorReadCallback (Command findCommand)
open UbervisorServer
open UbervisorCommands
open UbervisorEvents
open UbervisorSupervision
open UbervisorSlots
open UbervisorEffects
open UbervisorGroupSteps
open UbervisorSlotInvariants
open UbervisorOutputs
open UbervisorTranscripts
open UbervisorJsonC

variable {P : Platform} {s u : Server} {e : Event} {p : ProcId} {g : GroupId}

section Children

/-- The pid that `waitpid` returns in an event, whether it is known or not. -/
def returned (s : Server) : Event → Option Pid
  | .callback .waitpid _ => s.reg.kernel.waitpid.map Prod.fst
  | _ => none

/-- The process was started in some step, and `waitpid` has not returned its pid since. -/
def Unreturned (P : Platform) (s : Server) (p : ProcId) : Prop :=
  ∃ a e b, Reachable P a ∧ Step P a e b ∧
    (∃ site g i, .spawned site g i p (s.reg.procs p).pPid ∈ newHist a b) ∧
    Execution (Step P) (fun x e _ => returned x e ≠ some (s.reg.procs p).pPid) b s

/-- A turn that gets the pid of a process of the table reaps this process. -/
theorem returned_reaped (hl : Linked s.reg) (ht : s.reg.Tracked p)
    (hr : returned s e = some (s.reg.procs p).pPid) : ∃ ret, reaped s e = some (p, ret) := by
  cases e with
  | clock t => cases hr
  | childExit pid ret pos => cases hr
  | callback c o =>
    cases c <;> try cases hr
    rw [returned, Option.map_eq_some_iff] at hr
    obtain ⟨⟨pid, ret, k⟩, hw, hpid⟩ := hr
    have hpid' : pid = (s.reg.procs p).pPid := hpid
    have hfind : s.reg.processFindByPid pid = some p := by
      cases hf : s.reg.processFindByPid pid with
      | none => exact absurd hpid'.symm (Linked.find_pid_none hf ht)
      | some q =>
        obtain ⟨htq, hpq⟩ := hl.find_pid hf
        rw [hl.tracked_inj htq ht (hpq.trans hpid')]
    exact ⟨ret, by simp [reaped, hw, hfind]⟩

theorem step_unreturned (hs : Reachable P s) (hstep : Step P s e u)
    (h : ∀ p, s.reg.Tracked p → Unreturned P s p) (ht : u.reg.Tracked p) : Unreturned P u p := by
  have hl : Linked s.reg := ReachableBy.linked hs
  have ho := step_outputs hl hstep
  rcases Nat.lt_or_ge p s.reg.nextProc with hlt | hge
  · have hts := ho.older.tracked p hlt ht
    obtain ⟨a, e', b, ha, hb, hspawned, hrun⟩ := h p hts
    unfold Unreturned
    rw [ho.older.pids p hlt]
    refine ⟨a, e', b, ha, hb, hspawned, hrun.tail hstep fun hr => ?_⟩
    obtain ⟨ret, hreap⟩ := returned_reaped hl hts hr
    exact ho.gone p ret hreap ht
  · obtain ⟨site, g, i, hm⟩ := ho.spawned p hge ((step_linked hl hstep).tracked_lt ht)
    exact ⟨s, e, u, hs, hstep, ⟨site, g, i, hm⟩, .refl u⟩

theorem reachable_unreturned (h : Reachable P s) : ∀ p, s.reg.Tracked p → Unreturned P s p := by
  obtain ⟨a, b, t, h⟩ := h
  have hall : Reachable P s ∧ ∀ p, s.reg.Tracked p → Unreturned P s p := by
    refine h.invariant (P := fun s => Reachable P s ∧ ∀ p, s.reg.Tracked p → Unreturned P s p)
      ?_ ⟨⟨a, b, t, .refl _⟩, ?_⟩
    · rintro s e u ⟨hs, hu⟩ hstep -
      exact ⟨hs.step hstep trivial, fun p => step_unreturned hs hstep hu⟩
    · intro p hp
      cases hp
  exact hall.2

/-- A pending heartbeat timer belongs to a process of the table. -/
theorem reachable_timers (h : Reachable P s) : ∀ p ∈ s.timers, s.reg.Tracked p := by
  obtain ⟨a, b, t, h⟩ := h
  refine h.invariant_under (I := fun s => Linked s.reg)
    (P := fun s => ∀ p ∈ s.timers, s.reg.Tracked p) (fun _ _ _ hl hs _ => step_linked hl hs)
    ?_ Registry.linked_init ?_
  · intro s e u hl hs hstep _ p hp
    have ho := step_outputs hl hstep
    rcases ho.timers p hp with ⟨hold, hkept⟩ | hu
    · exact ho.kept p (hs p hold) hkept
    · exact hu
  · intro p hp
    cases hp

end Children

section Targets

variable {r : Registry} {l : List ProcId} {i : ℕ}

/-- `l` holds the processes in the slots of the group, each once and in the order of their
instances, and no process of another group. -/
structure Lists (r : Registry) (g : GroupId) (l : List ProcId) : Prop where
  mem : ∀ p, p ∈ l ↔ ∃ i, InSlot r g i p
  placed : ∀ p ∈ l, InSlot r g (r.procs p).pInstance p
  own : ∀ p ∈ l, (r.procs p).pChildConfig = some g
  ordered : l.Pairwise fun p q => (r.procs p).pInstance < (r.procs q).pInstance
  distinct : (l.map fun p => (r.procs p).pPid).Nodup

/-- Whom KILL is for: the whole group, or the process in one slot, if there is one. -/
def Targets (r : Registry) (g : GroupId) (l : List ProcId) : Option ℤ → Prop
  | none => Lists r g l
  | some k => l.length ≤ 1 ∧ ∀ p, p ∈ l ↔ ∃ i : ℕ, (i : ℤ) = k ∧ InSlot r g i p

theorem inSlot_instance (hl : Linked r) (hs : InSlot r g i p) : (r.procs p).pInstance = i :=
  ((hl.placed g i p).mp hs).2.2

/-- Slots are read in order, and two of them never hold the same process. -/
theorem slotProcs_lists (hl : Linked r) (hg : g ∈ r.childConfigList) :
    Lists r g (r.groups g).slotProcs := by
  have hmem : ∀ p, p ∈ (r.groups g).slotProcs ↔ ∃ i, InSlot r g i p := by
    intro p
    rw [mem_slotProcs (hl.cells g hg)]
    exact exists_congr fun i => (and_iff_right hg).symm
  have hordered : (r.groups g).slotProcs.Pairwise fun p q =>
      (r.procs p).pInstance < (r.procs q).pInstance := by
    refine List.pairwise_filterMap.mpr (List.pairwise_lt_range.imp ?_)
    intro i j hij p hp q hq
    split at hp
    · rename_i p' hp'
      split at hq
      · rename_i q' hq'
        cases hp
        cases hq
        have hi : InSlot r g i p := ⟨hg, cell_eq_proc.mp hp'⟩
        have hj : InSlot r g j q := ⟨hg, cell_eq_proc.mp hq'⟩
        rw [inSlot_instance hl hi, inSlot_instance hl hj]
        exact hij
      · cases hq
    · cases hp
  refine ⟨hmem, ?_, ?_, hordered, ?_⟩
  · intro p hp
    obtain ⟨i, hi⟩ := (hmem p).mp hp
    rwa [inSlot_instance hl hi]
  · intro p hp
    obtain ⟨i, hi⟩ := (hmem p).mp hp
    exact ((hl.placed g i p).mp hi).2.1
  · refine List.pairwise_map.mpr (hordered.imp_of_mem ?_)
    intro p q hp hq hlt heq
    obtain ⟨i, hi⟩ := (hmem p).mp hp
    obtain ⟨j, hj⟩ := (hmem q).mp hq
    have hpq := hl.tracked_inj ((hl.placed g i p).mp hi).1 ((hl.placed g j q).mp hj).1 heq
    rw [hpq] at hlt
    exact lt_irrefl _ hlt

/-- The slot a KILL is for. The value -1 stands for none. -/
def slotIndex (obj : Json) : Option ℤ := if killIndex obj = -1 then none else some (killIndex obj)

/-- One slot, when it is named by a number that is not negative. -/
theorem killTargets_slot (hl : Linked r) (hg : g ∈ r.childConfigList) (i : ℕ) :
    killTargets (r.groups g) i = (slotProc r g i).toList := by
  have hneg : ¬ (i : ℤ) = -1 := by omega
  rw [killTargets, if_neg hneg]
  have hslot : ∀ p, (r.groups g).cell i = .proc p ↔ slotProc r g i = some p := fun p => by
    rw [slotProc_eq_some, InSlot, and_iff_right hg, cell_eq_proc]
  by_cases hi : (i : ℤ) < (r.groups g).ccInstances
  · rw [if_pos ⟨Int.natCast_nonneg i, hi⟩, Int.toNat_natCast]
    split
    · rename_i p hp
      rw [(hslot p).mp hp]
      rfl
    · rename_i hno
      cases hp : slotProc r g i with
      | none => rfl
      | some p => exact absurd ((hslot p).mpr hp) (hno p)
  · rw [if_neg fun h => hi h.2]
    cases hp : slotProc r g i with
    | none => rfl
    | some p => exact absurd (hl.cell_lt (slotProc_eq_some.mp hp)) hi

theorem killTargets_targets (hl : Linked r) (hg : g ∈ r.childConfigList) (obj : Json) :
    Targets r g (killTargets (r.groups g) (killIndex obj)) (slotIndex obj) := by
  unfold slotIndex
  generalize killIndex obj = k
  by_cases hk : k = -1
  · rw [if_pos hk, killTargets, if_pos hk]
    exact slotProcs_lists hl hg
  · rw [if_neg hk]
    by_cases hneg : k < 0
    · -- no slot has a negative number
      rw [killTargets, if_neg hk, if_neg fun h => absurd h.1 (by omega)]
      refine ⟨Nat.zero_le 1, fun p => ?_⟩
      constructor
      · intro hp
        cases hp
      · rintro ⟨i, rfl, -⟩
        exact absurd (Int.natCast_nonneg i) (by omega)
    · obtain ⟨i, rfl⟩ := Int.eq_ofNat_of_zero_le (Int.not_lt.mp hneg)
      rw [killTargets_slot hl hg]
      refine ⟨Option.length_toList_le, fun p => ?_⟩
      rw [Option.mem_toList, slotProc_eq_some]
      constructor
      · intro hi
        exact ⟨i, rfl, hi⟩
      · rintro ⟨j, hj, hi⟩
        rwa [← Int.ofNat.inj hj]

theorem targets_tracked {k : Option ℤ} (hl : Linked r) (h : Targets r g l k) (hp : p ∈ l) :
    r.Tracked p := by
  cases k with
  | none => exact ((hl.placed _ _ _).mp (h.placed p hp)).1
  | some k =>
    obtain ⟨i, -, hi⟩ := (h.2 p).mp hp
    exact ((hl.placed _ _ _).mp hi).1

end Targets

section Readings

/-- The signals among the output, and the lists of pids. -/
def signalOf : Output → Option (Pid × ℤ)
  | .kill pid sig => some (pid, sig)
  | _ => none

def pidsOf : Output → Option (List Pid)
  | .reply _ _ (.pids l) => some l
  | _ => none

theorem signalOf_permits : Permits (Silent signalOf) where
  plain o ho := by cases o <;> first | rfl | cases ho
  log _ _ := rfl

theorem pidsOf_permits : Permits (Silent pidsOf) where
  plain o ho := by
    cases o with
    | reply con cid r => cases r <;> first | rfl | cases ho
    | _ => rfl
  log _ _ := rfl

theorem newOut_mem {O : Output → Prop} {o : Output} (h : IoOutputs O s.io u.io)
    (ho : o ∈ newOut s u) : O o := by
  obtain ⟨l, hl, hO⟩ := h
  rw [newOut, hl, List.drop_left] at ho
  exact hO o ho

end Readings

section Requests

variable {α : Type} {f : Output → Option α} {A : List Pid → List α} {obj : Json}

/-- The pids that a group shows to clients. -/
def pidsIn (r : Registry) (l : List ProcId) : List Pid := l.map fun p => (r.procs p).pPid

theorem kill_reads (hp : Permits (Silent f)) (hA : ∀ con cid pids, answered f con cid pids = A pids)
    (hstep : Step P s e u) (h : requested P s .kill e = some (obj, g)) :
    let pids := pidsIn s.reg (killTargets (s.reg.groups g) (killIndex obj))
    Reads f ((pids.flatMap fun pid =>
      (f (.kill pid (killSig (s.reg.groups g) obj))).toList) ++ A pids) s.io u.io := by
  obtain ⟨con, cid, payload, o, rfl, hc, hn⟩ := requested_request h
  obtain ⟨-, rfl⟩ := hstep
  refine request_reads hp hc fun x hx _ => ?_
  rw [← hx] at hn ⊢
  obtain ⟨cid', hr⟩ := cKill_reads con hp hn rfl
  rw [hA] at hr
  exact hr

theorem pids_reads (hp : Permits (Silent f)) (hA : ∀ con cid pids, answered f con cid pids = A pids)
    (hstep : Step P s e u) (h : requested P s .pids e = some (obj, g)) :
    Reads f (A (pidsIn s.reg (s.reg.groups g).slotProcs)) s.io u.io := by
  obtain ⟨con, cid, payload, o, rfl, hc, hn⟩ := requested_request h
  obtain ⟨-, rfl⟩ := hstep
  refine request_reads hp hc fun x hx _ => ?_
  rw [← hx] at hn ⊢
  obtain ⟨cid', hr⟩ := cPids_reads con hp hn
  rw [hA] at hr
  exact hr

theorem dele_reads (hp : Permits (Silent f)) (hA : ∀ con cid pids, answered f con cid pids = A pids)
    (hstep : Step P s e u) (h : requested P s .dele e = some (obj, g)) :
    Reads f (noted f (.status (s.reg.groups g).ccName statusDelete) ++
      A (pidsIn s.reg (s.reg.groups g).slotProcs)) s.io u.io := by
  obtain ⟨con, cid, payload, o, rfl, hc, hn⟩ := requested_request h
  obtain ⟨-, rfl⟩ := hstep
  refine request_reads hp hc fun x hx _ => ?_
  rw [← hx] at hn ⊢
  obtain ⟨cid', hr⟩ := cDele_reads con hp hn
  rw [hA] at hr
  exact hr

theorem signals_map (pids : List Pid) (sig : ℤ) :
    (pids.flatMap fun pid => (signalOf (.kill pid sig)).toList) =
      pids.map fun pid => (pid, sig) := by
  induction pids with
  | nil => rfl
  | cons pid pids ih =>
    rw [List.flatMap_cons, List.map_cons, ih]
    rfl

theorem pids_silent (pids : List Pid) (sig : ℤ) :
    (pids.flatMap fun pid => (pidsOf (.kill pid sig)).toList) = [] :=
  List.flatMap_eq_nil_iff.mpr fun _ _ => rfl

/-- What a step signals and which pids it reports, when `index` tells the slot of a KILL. -/
structure Directed (P : Platform) (index : Json → Option ℤ) (s : Server) (e : Event) (u : Server) :
    Prop where
  child : ∀ pid sig, .kill pid sig ∈ newOut s u → pid ∈ s.reg.kernel.unreaped ∧
    ∃ p, s.reg.Tracked p ∧ (s.reg.procs p).pPid = pid ∧ Unreturned P s p
  kill : ∀ obj g, requested P s .kill e = some (obj, g) → ∃ l, Targets s.reg g l (index obj) ∧
    (newOut s u).filterMap signalOf =
      (pidsIn s.reg l).map (fun pid => (pid, killSig (s.reg.groups g) obj)) ∧
    (newOut s u).filterMap pidsOf = [pidsIn s.reg l]
  pids : ∀ obj g, requested P s .pids e = some (obj, g) →
    ∃ l, Lists s.reg g l ∧ (newOut s u).filterMap pidsOf = [pidsIn s.reg l]
  dele : ∀ obj g, requested P s .dele e = some (obj, g) →
    ∃ l, Lists s.reg g l ∧ (newOut s u).filterMap pidsOf = [pidsIn s.reg l]

/-- Whom a step signals is in the table of processes. -/
theorem step_child (h : Reachable P s) (hstep : Step P s e u) {pid : Pid} {sig : ℤ}
    (hk : .kill pid sig ∈ newOut s u) : ∃ p, s.reg.Tracked p ∧ (s.reg.procs p).pPid = pid := by
  have hl : Linked s.reg := ReachableBy.linked h
  have hsent := newOut_mem (step_outputs hl hstep).out hk
  cases hsent.signals pid sig rfl with
  | kill obj g p hn ht =>
    have hg := requested_listed hl hn
    exact ⟨p, targets_tracked hl (killTargets_targets hl hg obj) ht, rfl⟩
  | heartbeat p sig o he =>
    obtain ⟨hen, -⟩ := hstep
    rw [he] at hen
    exact ⟨p, reachable_timers h p hen.2.2, rfl⟩

/-- Signals reach children that `waitpid` has not returned, and KILL, PIDS and DELE are about
the processes in the slots of the group they name. -/
theorem reachable_directed (h : ReachableBy P (Succeeds AnySite) s) (hstep : Step P s e u) :
    Directed P slotIndex s e u := by
  have hreach := h.reachable
  have hl : Linked s.reg := ReachableBy.linked hreach
  constructor
  · intro pid sig hk
    obtain ⟨p, ht, hpid⟩ := step_child hreach hstep hk
    refine ⟨?_, p, ht, hpid, reachable_unreturned hreach p ht⟩
    rw [← hpid]
    exact hl.tracked_unreaped ht
  · intro obj g hn
    refine ⟨_, killTargets_targets hl (requested_listed hl hn) obj, ?_, ?_⟩
    · have hr := kill_reads signalOf_permits (A := fun _ => []) (fun _ _ _ => rfl) hstep hn
      dsimp only at hr
      rw [signals_map, List.append_nil] at hr
      exact hr.newOut
    · have hr := kill_reads pidsOf_permits (A := fun l => [l]) (fun _ _ _ => rfl) hstep hn
      dsimp only at hr
      rw [pids_silent, List.nil_append] at hr
      exact hr.newOut
  · intro obj g hn
    refine ⟨_, slotProcs_lists hl (requested_listed hl hn), ?_⟩
    exact (pids_reads pidsOf_permits (A := fun l => [l]) (fun _ _ _ => rfl) hstep hn).newOut
  · intro obj g hn
    refine ⟨_, slotProcs_lists hl (requested_listed hl hn), ?_⟩
    exact (dele_reads pidsOf_permits (A := fun l => [l]) (fun _ _ _ => rfl) hstep hn).newOut

end Requests

section Runs

def killRequest (index : ℤ) : Json :=
  .object [(text "name", .string (text "web")), (text "index", .int index)]

def killPlatform : Platform :=
  sample [printed pairRequest, printed (killRequest 0), printed (killRequest (-1))]

/-- A group of two, one process of which was replaced. -/
def killState : Server := stateAfter (next killPlatform) (initial false false 100) pairRun

def killEvent (index : ℤ) : Event := asking "KILL" (killRequest index) []

theorem killState_reachable : ReachableBy killPlatform (Succeeds AnySite) killState := by
  have h : Admits Enabled (next killPlatform) (Succeeds AnySite) (initial false false 100)
    pairRun := by decide +kernel
  exact ⟨false, false, 100, h.execution⟩

theorem killEvent_step (index : ℤ) (h : Enabled killState (killEvent index)) :
    Step killPlatform killState (killEvent index) (next killPlatform killState (killEvent index)) :=
  ⟨h, rfl⟩

theorem killState_directed : Directed killPlatform slotIndex killState (killEvent 0)
    (next killPlatform killState (killEvent 0)) :=
  reachable_directed killState_reachable (killEvent_step 0 (by decide +kernel))

/-- A KILL with the index -1 is for the whole group. -/
theorem killState_wholeGroup : ¬ ∀ (P : Platform) (s u : Server) (e : Event),
    ReachableBy P (Succeeds AnySite) s → Step P s e u →
      Directed P (fun obj => intField obj "index") s e u := by
  intro h
  have hd := h _ _ _ _ killState_reachable (killEvent_step (-1) (by decide +kernel))
  have hnamed : (requested killPlatform killState .kill (killEvent (-1))).map
      (fun x => intField x.1 "index") = some (some (-1)) := by decide +kernel
  obtain ⟨⟨obj, g⟩, hreq, hindex⟩ := Option.map_eq_some_iff.mp hnamed
  dsimp only at hindex
  obtain ⟨l, htargets, hsignals, -⟩ := hd.kill obj g hreq
  rw [hindex] at htargets
  have hlength := congrArg List.length hsignals
  rw [List.length_map, pidsIn, List.length_map] at hlength
  have htwo : ((newOut killState (next killPlatform killState (killEvent (-1)))).filterMap
      signalOf).length = 2 := by decide +kernel
  have hone : l.length ≤ 1 := htargets.1
  omega

end Runs

end UbervisorSignalling
