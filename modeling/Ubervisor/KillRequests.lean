import Ubervisor.Replies
import Ubervisor.Restoring
import Ubervisor.Signalling

/-! # Kill requests of the Python client

`UbervisorClient.kill` leaves out what Python takes for false, and `c_kill` takes what is absent
for the whole group and the signal of the group. -/
namespace UbervisorKillRequests

open UbervisorRuns
open UbervisorValues
open UbervisorChildConfigs
open UbervisorKernel
open UbervisorRegistry
open UbervisorReadCallback (Command findCommand)
open UbervisorServer
open UbervisorCommands
open UbervisorEvents
open UbervisorSupervision
open UbervisorSlots
open UbervisorUpdates
open UbervisorExits
open UbervisorEffects
open UbervisorGroupSteps
open UbervisorOutputs
open UbervisorTranscripts
open UbervisorDumps
open UbervisorRegistrations
open UbervisorSlotInvariants
open UbervisorReplies
open UbervisorStoredGroups (FitsInt FitInts)
open UbervisorRestoring (fitsInt_of_range clampInt_fits fromJson_fitInts acceptedSpwn_fitInts
  acceptedUpdt_fitInts intOr_fits)
open UbervisorSignalling
open UbervisorJsonC

/-- `if x:` of an optional number. -/
def truthy : Option ℕ → Option ℕ
  | some 0 => none
  | x => x

/-- `d[key] = int(x)`, where `x` is given. -/
def optEntry (key : String) (x : Option ℕ) : List (Bytes × Json) :=
  x.toList.map fun n => (text key, .int n)

/-- The argument of `UbervisorClient.kill`. -/
def killDict (name : CStr) (index sig : Option ℕ) : Json := .object <|
  (text "name", .string name.bytes) :: (optEntry "sig" (truthy sig) ++
    optEntry "index" (truthy index))

def killPayload (dumps : Json → Bytes) (name : CStr) (index sig : Option ℕ) : Bytes :=
  text "KILL" ++ dumps (killDict name index sig)

/-- The index as `c_kill` takes it from the request, where -1 is the whole group. -/
def sentIndex (index : Option ℕ) : ℤ := ((truthy index).map fun n : ℕ => clampInt n).getD (-1)

/-- Whom a call is for: the processes in all slots, or the one in the slot `index`. -/
def namedTargets (r : Registry) (g : GroupId) : Option ℕ → List ProcId
  | none => (r.groups g).slotProcs
  | some i => (slotProc r g i).toList

/-- The signal a call asks for. -/
def namedSig (cc : ChildConfig) (sig : Option ℕ) : ℤ := (sig.map Int.ofNat).getD cc.ccKillsig

/-- The signals a call asks for. There are none for a group that does not exist. -/
def intended (r : Registry) (name : CStr) (index sig : Option ℕ) : List (Pid × ℤ) :=
  match r.childConfigFindByName name with
  | none => []
  | some g => (pidsIn r (namedTargets r g index)).map fun pid =>
      (pid, namedSig (r.groups g) sig)

section Fields

variable {name : CStr} {index sig : Option ℕ} {n : ℕ}

theorem killDict_name : nameField (killDict name index sig) = some name := by
  have hget : (killDict name index sig).objectGet "name" = some (.string name.bytes) := by
    rcases index with _ | _ | i <;> rcases sig with _ | _ | v <;> rfl
  rw [nameField, hget]
  exact congrArg some (CStr.ofBytes_bytes name)

theorem killDict_index : killIndex (killDict name index sig) = sentIndex index := by
  rcases index with _ | _ | i <;> rcases sig with _ | _ | v <;> rfl

theorem killDict_sig (cc : ChildConfig) : killSig cc (killDict name index sig) =
    ((truthy sig).map fun n : ℕ => clampInt n).getD cc.ccKillsig := by
  rcases index with _ | _ | i <;> rcases sig with _ | _ | v <;> rfl

/-- The signal arrives unless it is 0, for which the group has another one, or too large. -/
theorem killSig_named (cc : ChildConfig) :
    killSig cc (killDict name index sig) = namedSig cc sig ↔
      (sig = some 0 → cc.ccKillsig = 0) ∧ ∀ v, sig = some v → v < 2147483648 := by
  rw [killDict_sig]
  rcases sig with _ | _ | v
  · simp [truthy, namedSig]
  · simp [truthy, namedSig]
  · have hclamp : clampInt ((v + 1 : ℕ) : ℤ) = ((v + 1 : ℕ) : ℤ) ↔ v + 1 < 2147483648 := by
      unfold clampInt
      omega
    simpa [truthy, namedSig] using hclamp

end Fields

section Slots

variable {P : Platform} {s : Server} {r : Registry} {g : GroupId} {i : ℕ} {p : ProcId}
  {l m : List ProcId}

theorem dumpElement_fits {j : Json} {cc : ChildConfig} (h : dumpElement j = some cc) :
    FitsInt cc.ccInstances := by
  have hone : FitsInt 1 := fitsInt_of_range (by decide) (by decide)
  cases j with
  | object l =>
    obtain ⟨c, hc, hd⟩ := Option.bind_eq_some_iff.mp h
    split at hd
    · cases hd
    · cases hd
      obtain ⟨hi, -⟩ := fromJson_fitInts hc
      change FitsInt (if c.ccInstances = -1 then 1 else c.ccInstances)
      split
      · exact hone
      · exact hi
  | _ => cases h

/-- The number of instances is always an `int`. -/
theorem reachable_instances_fit (h : Reachable P s) (hg : g ∈ s.reg.childConfigList) :
    FitsInt (s.reg.groups g).ccInstances := by
  have hset : FitsInt (settings (s.reg.groups g)).ccInstances := by
    have hone : FitsInt 1 := fitsInt_of_range (by decide) (by decide)
    refine reachable_settings (G := fun cc => FitsInt cc.ccInstances) ?_ ?_ ?_ h hg
    · intro s e u cc _ hreg
      cases hreg with
      | spwn cc ha =>
        obtain ⟨hi, -⟩ := acceptedSpwn_fitInts ha
        change FitsInt (startCount cc)
        unfold startCount
        split
        · exact hone
        · exact hi
      | dump cc hcc =>
        unfold loadedGroups at hcc
        split at hcc
        · obtain ⟨j, -, hj⟩ := mem_registeredGroups hcc
          have hfits : FitsInt cc.ccInstances := dumpElement_fits hj
          exact hfits
        · exact absurd hcc List.not_mem_nil
    · intro s e u cc g _ ha hold
      exact intOr_fits (acceptedUpdt_fitInts ha).1 hold
    · intro ret t cc hcc
      rwa [counted_instances]
  exact hset

theorem pidsIn_inj {l m : List ProcId}
    (hinj : ∀ p ∈ l, ∀ q ∈ m, (r.procs p).pPid = (r.procs q).pPid → p = q)
    (h : pidsIn r l = pidsIn r m) : l = m := by
  unfold pidsIn at h
  induction l generalizing m with
  | nil => exact (List.map_eq_nil_iff.mp h.symm).symm
  | cons p l ih =>
    cases m with
    | nil => cases h
    | cons q m =>
      obtain ⟨hpq, hrest⟩ := List.cons.inj h
      have hp := hinj p List.mem_cons_self q List.mem_cons_self hpq
      have hm := ih (fun x hx y hy => hinj x (List.mem_cons_of_mem _ hx) y
        (List.mem_cons_of_mem _ hy)) hrest
      rw [hp, hm]

/-- Two lists of signals are the same when they go to the same processes, and are the same
signal if there is one. -/
theorem signals_eq_iff {a b : ℤ}
    (hinj : ∀ p ∈ l, ∀ q ∈ m, (r.procs p).pPid = (r.procs q).pPid → p = q) :
    ((pidsIn r l).map fun pid => (pid, a)) = ((pidsIn r m).map fun pid => (pid, b)) ↔
      l = m ∧ (m ≠ [] → a = b) := by
  constructor
  · intro h
    have hpids := congrArg (List.map Prod.fst) h
    simp only [List.map_map, Function.comp_def, List.map_id'] at hpids
    have hlm := pidsIn_inj hinj hpids
    refine ⟨hlm, fun hne => ?_⟩
    obtain ⟨p, m, rfl⟩ := List.exists_cons_of_ne_nil hne
    rw [hlm] at h
    exact (Prod.mk.inj (List.cons.inj h).1).2
  · rintro ⟨rfl, hab⟩
    cases l with
    | nil => rfl
    | cons p l => rw [hab (List.cons_ne_nil p l)]

/-- The whole group is slot 0 when no other slot is occupied. -/
theorem slotProcs_first (hl : Linked r) (hg : g ∈ r.childConfigList) :
    (r.groups g).slotProcs = (slotProc r g 0).toList ↔ ∀ i p, InSlot r g i p → i = 0 := by
  have hlists := slotProcs_lists hl hg
  constructor
  · intro h i p hp
    have hmem := (hlists.mem p).mpr ⟨i, hp⟩
    rw [h, Option.mem_toList, slotProc_eq_some] at hmem
    exact (hl.place_inj hp hmem).2
  · intro hfirst
    have hplace : ∀ p ∈ (r.groups g).slotProcs, slotProc r g 0 = some p := by
      intro p hp
      obtain ⟨i, hi⟩ := (hlists.mem p).mp hp
      rw [hfirst i p hi] at hi
      exact slotProc_eq_some.mpr hi
    cases h : slotProc r g 0 with
    | none =>
      refine List.eq_nil_iff_forall_not_mem.mpr fun p hp => ?_
      rw [hplace p hp] at h
      cases h
    | some q =>
      have hmem : q ∈ (r.groups g).slotProcs := (hlists.mem q).mpr ⟨0, slotProc_eq_some.mp h⟩
      have hall : ∀ p ∈ (r.groups g).slotProcs, p = q := fun p hp =>
        Option.some.inj ((hplace p hp).symm.trans h)
      have hnodup : (r.groups g).slotProcs.Nodup :=
        hlists.ordered.imp fun hlt heq => absurd hlt (by rw [heq]; exact lt_irrefl _)
      by_contra hne
      rcases (hnodup.ne_singleton_iff q).mp hne with hnil | ⟨p, hp, hpq⟩
      · rw [hnil] at hmem
        exact absurd hmem List.not_mem_nil
      · exact hpq (hall p hp)

end Slots

section Requests

variable {P : Platform} {s u : Server} {r : Registry} {g : GroupId} {con : ClientId}
  {cid : UInt16} {o : Oracle} {dumps : Json → Bytes} {name : CStr} {index sig : Option ℕ}

/-- Slot 0 is not asked for unless it is the only one that is occupied, the signal is not 0 and
not too large, and every slot that is read was assigned. -/
structure Agrees (r : Registry) (g : GroupId) (index sig : Option ℕ) : Prop where
  slot : index = some 0 → ∀ i p, InSlot r g i p → i = 0
  signal : namedTargets r g index ≠ [] →
    (sig = some 0 → (r.groups g).ccKillsig = 0) ∧ ∀ v, sig = some v → v < 2147483648
  assigned : killReadsUnset (r.groups g) (sentIndex index) = false

/-- The processes that are signalled are the ones that are asked for. -/
theorem killTargets_named (hl : Linked r) (hg : g ∈ r.childConfigList)
    (hfits : FitsInt (r.groups g).ccInstances) :
    killTargets (r.groups g) (sentIndex index) = namedTargets r g index ↔
      (index = some 0 → ∀ i p, InSlot r g i p → i = 0) := by
  rcases index with _ | _ | i
  · exact iff_of_true (if_pos rfl) nofun
  · have hall : killTargets (r.groups g) (sentIndex (some 0)) = (r.groups g).slotProcs :=
      if_pos rfl
    rw [hall, namedTargets, slotProcs_first hl hg]
    exact ⟨fun h _ => h, fun h => h rfl⟩
  · refine iff_of_true ?_ (fun h => by cases h)
    have hsent : sentIndex (some (i + 1)) = clampInt ((i + 1 : ℕ) : ℤ) := rfl
    rw [hsent, namedTargets]
    by_cases hi : ((i + 1 : ℕ) : ℤ) ≤ 2147483647
    · have hsame : clampInt ((i + 1 : ℕ) : ℤ) = ((i + 1 : ℕ) : ℤ) := by
        unfold clampInt
        omega
      rw [hsame, killTargets_slot hl hg]
    · -- beyond the range of an `int` no group has a slot
      have hmax : (r.groups g).ccInstances ≤ 2147483647 := by
        unfold FitsInt clampInt at hfits
        omega
      have hlast : clampInt ((i + 1 : ℕ) : ℤ) = ((2147483647 : ℕ) : ℤ) := by
        unfold clampInt
        omega
      have hnone : ∀ j : ℕ, 2147483647 ≤ j → slotProc r g j = none := by
        intro j hj
        cases hp : slotProc r g j with
        | none => rfl
        | some p =>
          have hlt := hl.cell_lt (slotProc_eq_some.mp hp)
          omega
      rw [hlast, killTargets_slot hl hg, hnone _ le_rfl, hnone _ (by omega)]

theorem named_tracked (hl : Linked r) {p : ProcId} (hg : g ∈ r.childConfigList)
    (hp : p ∈ namedTargets r g index) : r.Tracked p := by
  cases index with
  | none => exact targets_tracked (k := none) hl (slotProcs_lists hl hg) hp
  | some i =>
    rw [namedTargets, Option.mem_toList, slotProc_eq_some] at hp
    exact ((hl.placed _ _ _).mp hp).1

/-- A request of the client as the server finds it. -/
theorem killPayload_named
    (hparsed : P.jsonParse (CStr.ofBytes (dumps (killDict name index sig))).bytes =
      some (killDict name index sig)) :
    namedGroup P r (CStr.ofBytes ((killPayload dumps name index sig).drop 4)) =
      (r.childConfigFindByName name).map fun g => (killDict name index sig, g) := by
  have hdrop : (killPayload dumps name index sig).drop 4 = dumps (killDict name index sig) := rfl
  have hobj : parseObject P (CStr.ofBytes (dumps (killDict name index sig))) =
      some (killDict name index sig) := by
    unfold parseObject
    rw [hparsed]
    rfl
  unfold namedGroup
  rw [hdrop, hobj]
  simp only [Option.bind_eq_bind, Option.bind_some, killDict_name]
  cases r.childConfigFindByName name <;> rfl

/-- The signals of a KILL of the client. -/
theorem killPayload_signals
    (hparsed : P.jsonParse (CStr.ofBytes (dumps (killDict name index sig))).bytes =
      some (killDict name index sig))
    (hs : Step P s (.callback (.request con cid (killPayload dumps name index sig)) o) u) :
    (newOut s u).filterMap signalOf = match s.reg.childConfigFindByName name with
      | none => []
      | some g => (pidsIn s.reg (killTargets (s.reg.groups g) (sentIndex index))).map fun pid =>
          (pid, killSig (s.reg.groups g) (killDict name index sig)) := by
  have hkill : findCommand (killPayload dumps name index sig) = some .kill := rfl
  have hnamed := killPayload_named (r := s.reg) hparsed
  cases hg : s.reg.childConfigFindByName name with
  | none =>
    rw [hg, Option.map_none] at hnamed
    obtain ⟨-, rfl⟩ := hs
    refine (request_reads signalOf_permits hkill fun x hx _ => ?_).newOut
    exact withNamedGroup_missing signalOf_permits (by rwa [hx])
  | some g =>
    rw [hg, Option.map_some] at hnamed
    have hreq : requested P s .kill (.callback (.request con cid
        (killPayload dumps name index sig)) o) = some (killDict name index sig, g) := by
      rw [requested, if_pos hkill, hnamed]
    have hr := kill_reads signalOf_permits (A := fun _ => []) (fun _ _ _ => rfl) hs hreq
    dsimp only at hr
    rw [signals_map, List.append_nil, killDict_index] at hr
    exact hr.newOut

/-- What a KILL of the client follows is uninitialised only in a slot that it asks for. -/
theorem killPayload_wild (hl : Linked s.reg)
    (hparsed : P.jsonParse (CStr.ofBytes (dumps (killDict name index sig))).bytes =
      some (killDict name index sig))
    (hs : Step P s (.callback (.request con cid (killPayload dumps name index sig)) o) u) :
    .wild ∉ newOut s u ↔ ∀ g, s.reg.childConfigFindByName name = some g →
      killReadsUnset (s.reg.groups g) (sentIndex index) = false := by
  have hkill : findCommand (killPayload dumps name index sig) = some .kill := rfl
  have hnamed := killPayload_named (r := s.reg) hparsed
  obtain ⟨-, -, hwild, -⟩ := step_replied hl hs hkill
  rw [hwild]
  cases hg : s.reg.childConfigFindByName name with
  | none =>
    rw [hg, Option.map_none] at hnamed
    exact iff_of_true (readsUnset_missing (by decide) hnamed) nofun
  | some g =>
    rw [hg, Option.map_some] at hnamed
    rw [(readsUnset_found hnamed).2.2, killDict_index, Bool.not_eq_true]
    constructor
    · rintro hread _ ⟨⟩
      exact hread
    · intro hread
      exact hread g rfl

/-- The signals a KILL of the client leads to are those the call asks for, when the values that
the client drops do not matter. -/
theorem kill_agrees_iff (h : Reachable P s)
    (hparsed : P.jsonParse (CStr.ofBytes (dumps (killDict name index sig))).bytes =
      some (killDict name index sig))
    (hs : Step P s (.callback (.request con cid (killPayload dumps name index sig)) o) u) :
    ((newOut s u).filterMap signalOf = intended s.reg name index sig ∧ .wild ∉ newOut s u) ↔
      ∀ g, s.reg.childConfigFindByName name = some g → Agrees s.reg g index sig := by
  have hl : Linked s.reg := ReachableBy.linked h
  rw [killPayload_wild hl hparsed hs, killPayload_signals hparsed hs, intended]
  cases hg : s.reg.childConfigFindByName name with
  | none => exact iff_of_true ⟨rfl, nofun⟩ nofun
  | some g =>
    have hlisted : g ∈ s.reg.childConfigList := (hl.find_name hg).1
    have hfits : FitsInt (s.reg.groups g).ccInstances := reachable_instances_fit h hlisted
    have hinj : ∀ p ∈ killTargets (s.reg.groups g) (sentIndex index),
        ∀ q ∈ namedTargets s.reg g index,
          (s.reg.procs p).pPid = (s.reg.procs q).pPid → p = q := by
      intro p hp q hq
      rw [← @killDict_index name index sig] at hp
      have htp := targets_tracked hl (killTargets_targets hl hlisted _) hp
      exact hl.tracked_inj htp (named_tracked hl hlisted hq)
    dsimp only
    rw [signals_eq_iff hinj, killTargets_named hl hlisted hfits, killSig_named]
    constructor
    · rintro ⟨⟨hslot, hsignal⟩, hread⟩ _ ⟨⟩
      exact ⟨hslot, hsignal, hread g rfl⟩
    · intro hagrees
      obtain ⟨hslot, hsignal, hread⟩ := hagrees g rfl
      refine ⟨⟨hslot, hsignal⟩, ?_⟩
      rintro _ ⟨⟩
      exact hread

end Requests

section Runs

def web : CStr := CStr.ofBytes (text "web")

def slotPlatform : Platform :=
  sample [printed pairRequest, printed (killDict web (some 1) none),
    printed (killDict web (some 0) none)]

/-- A group of two processes. -/
def pairState : Server := stateAfter (next slotPlatform) (initial false false 100) pairRun

theorem pairState_reachable : Reachable slotPlatform pairState := by
  have h : Admits Enabled (next slotPlatform) (fun _ _ _ => True) (initial false false 100)
    pairRun := by decide +kernel
  exact ⟨false, false, 100, h.execution⟩

theorem slot_parsed (i : ℕ) (hm : printed (killDict web (some i) none) ∈
      [printed pairRequest, printed (killDict web (some 1) none),
        printed (killDict web (some 0) none)])
    (hs : 0 ∉ printJson (killDict web (some i) none)) :
    slotPlatform.jsonParse (CStr.ofBytes (printJson (killDict web (some i) none))).bytes =
      some (killDict web (some i) none) := by
  rw [CStr.bytes_ofBytes hs]
  exact sample_parse (by decide +kernel) hm

def slotEvent (i : ℕ) : Event :=
  .callback (.request 0 1 (killPayload printJson web (some i) none)) (starting [])

/-- The second process of the group is asked for, and is the one that is signalled. -/
theorem pairState_agrees : ((newOut pairState (next slotPlatform pairState (slotEvent 1))).filterMap
      signalOf = intended pairState.reg web (some 1) none ∧
    .wild ∉ newOut pairState (next slotPlatform pairState (slotEvent 1))) ↔
      ∀ g, pairState.reg.childConfigFindByName web = some g →
        Agrees pairState.reg g (some 1) none :=
  kill_agrees_iff pairState_reachable
    (slot_parsed 1 (.tail _ (.head _)) (by decide +kernel)) ⟨by decide +kernel, rfl⟩

/-- The first process of the group is asked for, but both are signalled. -/
theorem pairState_wholeGroup : ¬ ∀ (P : Platform) (s u : Server) (con : ClientId) (cid : UInt16)
    (o : Oracle) (dumps : Json → Bytes) (name : CStr) (index sig : Option ℕ), Reachable P s →
    P.jsonParse (CStr.ofBytes (dumps (killDict name index sig))).bytes =
      some (killDict name index sig) →
    Step P s (.callback (.request con cid (killPayload dumps name index sig)) o) u →
    (newOut s u).filterMap signalOf = intended s.reg name index sig := by
  intro h
  have hsignals := h slotPlatform pairState _ 0 1 (starting []) printJson web (some 0) none
    pairState_reachable (slot_parsed 0 (.tail _ (.tail _ (.head _))) (by decide +kernel))
    ⟨by decide +kernel, rfl⟩
  have hdiffer : (newOut pairState (next slotPlatform pairState (slotEvent 0))).filterMap
      signalOf ≠ intended pairState.reg web (some 0) none := by decide +kernel
  exact hdiffer hsignals

end Runs

end UbervisorKillRequests
