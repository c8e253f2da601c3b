import Ubervisor.Exits

/-! # What a step can do to the tables

Every step of the server has one of the effects below. All invariants of runs are derived
from this list. -/
namespace UbervisorEffects

open UbervisorRuns
open UbervisorValues
open UbervisorChildConfigs
open UbervisorKernel
open UbervisorRegistry
open UbervisorReadCallback (Command findCommand)
open UbervisorServer
open UbervisorCommands
open UbervisorEvents
open UbervisorSupervision
open UbervisorSlots
open UbervisorUpdates
open UbervisorExits

/-- Entries of the creation of a group. -/
inductive CreateEntry (g : GroupId) : Hist → Prop where
  | created : CreateEntry g (.created g)
  | start {h} (hs : Starts g h) : CreateEntry g h

/-- A group is registered with empty slots, and its processes are started if it runs. -/
structure Created (site : SpawnSite) (cc : ChildConfig) (s u : Server) : Prop where
  clock : u.clock = s.clock
  turn : u.inSigchld = s.inSigchld
  groups : ∀ g, g ≠ s.reg.nextGroup → u.reg.groups g = s.reg.groups g
  list : u.reg.childConfigList = s.reg.nextGroup :: s.reg.childConfigList
  next : u.reg.nextGroup = s.reg.nextGroup + 1
  linked : Linked u.reg
  hist : ∃ l, u.hist = s.hist ++ l ∧ ∀ h ∈ l, CreateEntry s.reg.nextGroup h
  settings : settings (u.reg.groups s.reg.nextGroup) = settings cc
  started : cc.ccStatus = statusRunning → ∀ j : ℕ, j < cc.ccInstances →
    Filled site s.reg.nextGroup j u.hist (some .null) (cellAt u s.reg.nextGroup j)
  empty : cc.ccStatus ≠ statusRunning → ∀ j : ℕ, j < cc.ccInstances →
    cellAt u s.reg.nextGroup j = some .null
  quiet : cc.ccStatus ≠ statusRunning → u.hist = s.hist ++ [.created s.reg.nextGroup]

section Fields

variable {site : SpawnSite} {cc : ChildConfig} {s u : Server}

theorem Created.status (h : Created site cc s u) :
    (u.reg.groups s.reg.nextGroup).ccStatus = cc.ccStatus := settings_status h.settings

theorem Created.instances (h : Created site cc s u) :
    (u.reg.groups s.reg.nextGroup).ccInstances = cc.ccInstances := settings_instances h.settings

theorem Created.name (h : Created site cc s u) :
    (u.reg.groups s.reg.nextGroup).ccName = cc.ccName := settings_name h.settings

end Fields

/-- Neither the tables nor the history change. -/
structure Calm (s u : Server) : Prop where
  reg : u.reg = s.reg
  hist : u.hist = s.hist
  clock : u.clock = s.clock
  turn : u.inSigchld = s.inSigchld

theorem Calm.refl {s : Server} : Calm s s := ⟨rfl, rfl, rfl, rfl⟩

theorem Calm.trans {s u v : Server} (h : Calm s u) (k : Calm u v) : Calm s v :=
  ⟨k.reg.trans h.reg, k.hist.trans h.hist, k.clock.trans h.clock, k.turn.trans h.turn⟩

theorem Calm.withIo {s : Server} {k : Io → Io} : Calm s (s.withIo k) := ⟨rfl, rfl, rfl, rfl⟩

/-- The groups a dump describes, with the defaults of `load_dump`. -/
def dumpRecords (P : Platform) (file : Option Bytes) : List ChildConfig :=
  match P.jsonParse (CStr.ofBytes (file.getD [])).bytes with
  | some (.array l) => l.filterMap fun j => (childConfigFromJson j).map dumpDefaults
  | _ => []

/-- `load_dump` creates groups one after the other. -/
def Loading (R : List ChildConfig) (s u : Server) : Prop :=
  Calm s u ∨ ∃ cc ∈ R, Created .loadDump (withSlots cc cc.ccInstances) s u

theorem Created.of_calm {site : SpawnSite} {cc : ChildConfig} {s u v : Server}
    (h : Created site cc s u) (k : Calm u v) : Created site cc s v := by
  have hcell : ∀ g j, cellAt v g j = cellAt u g j := fun g j => by rw [cellAt, k.reg, cellAt]
  refine ⟨k.clock.trans h.clock, k.turn.trans h.turn, ?_, ?_, ?_, ?_, ?_, ?_, ?_, ?_, ?_⟩
  · rw [k.reg]; exact h.groups
  · rw [k.reg]; exact h.list
  · rw [k.reg]; exact h.next
  · rw [k.reg]; exact h.linked
  · rw [k.hist]; exact h.hist
  · rw [k.reg]; exact h.settings
  · intro hr j hj
    rw [k.hist, hcell]
    exact h.started hr j hj
  · intro hr j hj
    rw [hcell]
    exact h.empty hr j hj
  · rw [k.hist]; exact h.quiet

theorem withSlots_cells {cc : ChildConfig} {n : ℤ} {j : ℕ} (hj : (j : ℤ) < n) :
    (withSlots cc n).ccChilds[j]? = some .null := by
  unfold withSlots
  rw [List.getElem?_replicate, if_pos (by omega)]

/-- Registration, some output, and the loop that starts the processes. -/
theorem created_run (P : Platform) (site : SpawnSite) (cc : ChildConfig) {s x : Server} {n : ℤ}
    (hl : Linked s.reg) (hn : 0 ≤ n) (hx : Calm (insertGroup s (withSlots cc n)) x) :
    Created site (withSlots cc n) s
      (if cc.ccStatus = statusRunning then spawnRange P site x s.reg.nextGroup 0 n.toNat
        else x) := by
  have hreg : x.reg = s.reg.childConfigInsert (withSlots cc n) := hx.reg
  have hxg : x.reg.groups s.reg.nextGroup = withSlots cc n := by rw [hreg, insert_self]
  have hxl : Linked x.reg := by
    rw [hreg]
    refine hl.insert ?_ ?_
    · simp only [withSlots, List.length_replicate]
      omega
    · intro c hc
      exact List.eq_of_mem_replicate hc
  have hlist : x.reg.childConfigList = s.reg.nextGroup :: s.reg.childConfigList := by
    rw [hreg]
    rfl
  have hcell : ∀ j : ℕ, j < n → cellAt x s.reg.nextGroup j = some .null := by
    intro j hj
    rw [cellAt, hxg]
    exact withSlots_cells hj
  have hold : ∀ g, g ≠ s.reg.nextGroup → x.reg.groups g = s.reg.groups g := by
    intro g hg
    rw [hreg, insert_of_ne hg]
  have hhist : x.hist = s.hist ++ [.created s.reg.nextGroup] := hx.hist
  by_cases hr : cc.ccStatus = statusRunning
  · rw [if_pos hr]
    obtain ⟨hrun, hu⟩ := spawnRange_run P s.reg.nextGroup site x 0 n.toNat
      (by rw [hlist]; simp) hxl fun i _ hi => hcell i (by omega)
    rw [Nat.zero_add] at hrun
    obtain ⟨l, hl, hk⟩ := hrun.concerns.hist
    refine ⟨hrun.concerns.clock.trans hx.clock, hrun.concerns.turn.trans hx.turn, ?_,
      hrun.list.trans hlist, ?_, hu, ⟨.created s.reg.nextGroup :: l, ?_, ?_⟩, ?_, ?_, ?_, ?_⟩
    · intro g hg
      rw [hrun.concerns.groups g hg, hold g hg]
    · rw [hrun.concerns.fresh, hreg]
      rfl
    · rw [hl, hhist]
      simp
    · intro h hh
      rcases List.mem_cons.mp hh with rfl | hh
      · exact .created
      · exact .start (hk h hh)
    · rw [hrun.settings, hxg]
    · intro _ j hj
      have h := hrun.inside j (Nat.zero_le j) (by simp only [withSlots] at hj; omega)
      rwa [hcell j hj] at h
    · intro h
      exact absurd hr h
    · intro h
      exact absurd hr h
  · rw [if_neg hr]
    refine ⟨hx.clock, hx.turn, hold, hlist, ?_, hxl, ⟨_, hhist, ?_⟩, ?_, ?_, ?_, fun _ => hhist⟩
    · rw [hreg]
      rfl
    · intro h hh
      rw [List.mem_singleton] at hh
      rw [hh]
      exact .created
    · rw [hxg]
    · intro h
      exact absurd h hr
    · intro _ j hj
      exact hcell j hj

/-- The update a request asks for, when the server accepts it. -/
def acceptedUpdt (P : Platform) (s : Server) : Event → Option (ChildConfig × GroupId)
  | .callback (.request _ _ payload) _ =>
    if findCommand payload = some .updt then do
      let cc ← childConfigUnserialize P (CStr.ofBytes (payload.drop 4))
      let g ← s.reg.childConfigFindByName cc.ccName
      if updtRefusal cc = none then some (cc, g) else none
    else none
  | _ => none

/-- The group a request asks for, when the server accepts it. -/
def acceptedSpwn (P : Platform) (s : Server) : Event → Option ChildConfig
  | .callback (.request _ _ payload) _ =>
    if findCommand payload = some .spwn then do
      let cc ← childConfigUnserialize P (CStr.ofBytes (payload.drop 4))
      if spwnRefusal s.reg cc = none then some cc else none
    else none
  | _ => none

/-- The group that KILL, DELE, GETC or PIDS names, with the rest of the request. -/
def namedGroup (P : Platform) (r : Registry) (buf : CStr) : Option (Json × GroupId) := do
  let obj ← parseObject P buf
  let n ← nameField obj
  let g ← r.childConfigFindByName n
  return (obj, g)

/-- What the request `c` is about, if it is one of these four. -/
def requested (P : Platform) (s : Server) (c : Command) : Event → Option (Json × GroupId)
  | .callback (.request _ _ payload) _ =>
    if findCommand payload = some c then namedGroup P s.reg (CStr.ofBytes (payload.drop 4))
    else none
  | _ => none

section Requested

variable {P : Platform} {s x : Server} {e : Event} {g : GroupId} {c : Command} {obj : Json}
  {cc : ChildConfig}

/-- Whether a request is accepted depends on the registry only. -/
theorem acceptedSpwn_of_reg (hx : x.reg = s.reg) : acceptedSpwn P x e = acceptedSpwn P s e := by
  unfold acceptedSpwn
  rw [hx]

theorem acceptedUpdt_of_reg (hx : x.reg = s.reg) : acceptedUpdt P x e = acceptedUpdt P s e := by
  unfold acceptedUpdt
  rw [hx]

theorem requested_of_reg (hx : x.reg = s.reg) : requested P x c e = requested P s c e := by
  unfold requested
  rw [hx]

theorem acceptedSpwn_request (h : acceptedSpwn P s e = some cc) :
    ∃ con cid payload o, e = .callback (.request con cid payload) o ∧
      findCommand payload = some .spwn ∧
      childConfigUnserialize P (CStr.ofBytes (payload.drop 4)) = some cc ∧
      spwnRefusal s.reg cc = none := by
  unfold acceptedSpwn at h
  split at h
  · rename_i con cid payload o
    split at h
    · rename_i hc
      obtain ⟨raw, hraw, hif⟩ := Option.bind_eq_some_iff.mp h
      split at hif
      · rename_i hok
        cases hif
        exact ⟨con, cid, payload, o, rfl, hc, hraw, hok⟩
      · cases hif
    · cases h
  · cases h

theorem acceptedUpdt_request (h : acceptedUpdt P s e = some (cc, g)) :
    ∃ con cid payload o, e = .callback (.request con cid payload) o ∧
      findCommand payload = some .updt ∧
      childConfigUnserialize P (CStr.ofBytes (payload.drop 4)) = some cc ∧
      s.reg.childConfigFindByName cc.ccName = some g ∧ updtRefusal cc = none := by
  unfold acceptedUpdt at h
  split at h
  · rename_i con cid payload o
    split at h
    · rename_i hc
      obtain ⟨raw, hraw, hbind⟩ := Option.bind_eq_some_iff.mp h
      obtain ⟨g', hg, hif⟩ := Option.bind_eq_some_iff.mp hbind
      split at hif
      · rename_i hok
        cases hif
        exact ⟨con, cid, payload, o, rfl, hc, hraw, hg, hok⟩
      · cases hif
    · cases h
  · cases h

theorem requested_request (h : requested P s c e = some (obj, g)) :
    ∃ con cid payload o, e = .callback (.request con cid payload) o ∧
      findCommand payload = some c ∧
      namedGroup P s.reg (CStr.ofBytes (payload.drop 4)) = some (obj, g) := by
  unfold requested at h
  split at h
  · rename_i con cid payload o
    split at h
    · rename_i hc
      exact ⟨con, cid, payload, o, rfl, hc, h⟩
    · cases h
  · cases h

theorem namedGroup_listed {r : Registry} {buf : CStr} (hl : Linked r)
    (h : namedGroup P r buf = some (obj, g)) : g ∈ r.childConfigList := by
  unfold namedGroup at h
  obtain ⟨obj', -, h⟩ := Option.bind_eq_some_iff.mp h
  obtain ⟨n, -, h⟩ := Option.bind_eq_some_iff.mp h
  obtain ⟨g', hg, h⟩ := Option.bind_eq_some_iff.mp h
  cases h
  exact (hl.find_name hg).1

theorem requested_listed (hl : Linked s.reg)
    (h : requested P s c e = some (obj, g)) : g ∈ s.reg.childConfigList := by
  obtain ⟨con, cid, payload, o, -, -, hn⟩ := requested_request h
  exact namedGroup_listed hl hn

/-- A request that names a group is handled for that group. -/
theorem withNamedGroup_found {con : ClientId} {buf : CStr} {badName : Bool}
    {handle : Json → GroupId → Server × Bool} (h : namedGroup P s.reg buf = some (obj, g)) :
    withNamedGroup P s con buf badName handle = handle obj g := by
  unfold namedGroup at h
  obtain ⟨obj', hobj, h⟩ := Option.bind_eq_some_iff.mp h
  obtain ⟨n, hn, h⟩ := Option.bind_eq_some_iff.mp h
  obtain ⟨g', hg, h⟩ := Option.bind_eq_some_iff.mp h
  cases h
  unfold withNamedGroup
  rw [hobj]
  dsimp only
  rw [hn]
  dsimp only
  rw [hg]

section Outcomes

variable {con : ClientId} {buf : CStr} {msg : String} {n : ℤ} {code : Bool}

theorem cSpwn_unparsed (hcc : childConfigUnserialize P buf = none) :
    cSpwn P s con buf = (sendStatusMsg P s con false "failure", false) := by
  rw [cSpwn, hcc]

theorem cSpwn_refused (hcc : childConfigUnserialize P buf = some cc)
    (hno : spwnRefusal s.reg cc = some msg) :
    cSpwn P s con buf = (sendStatusMsg P s con false msg, true) := by
  rw [cSpwn, hcc]
  dsimp only
  rw [hno]

/-- The group is registered and announced, its processes are still to be started. -/
def announceGroup (P : Platform) (s : Server) (con : ClientId) (cc : ChildConfig) (n : ℤ) :
    Server :=
  let s := slog P (sendSuccess P (insertGroup s (withSlots cc n)) con "success")
    (text "[start] creating group " ++ cc.ccName.bytes ++ text "\n")
  sendStatusUpdateNotification P (sendStatusUpdateNotification P s cc.ccName statusCreate)
    cc.ccName cc.ccStatus

theorem cSpwn_accepted (hcc : childConfigUnserialize P buf = some cc)
    (hok : spwnRefusal s.reg cc = none)
    (hn : n = if cc.ccInstances = -1 then 1 else cc.ccInstances) :
    cSpwn P s con buf = (if cc.ccStatus = statusRunning then
      spawnRange P .spwn (announceGroup P s con cc n) s.reg.nextGroup 0 n.toNat
        else announceGroup P s con cc n, true) := by
  rw [cSpwn, hcc]
  dsimp only
  rw [hok]
  dsimp only
  rw [← hn]
  by_cases hr : cc.ccStatus = statusRunning
  · rw [if_pos hr]
    exact if_neg (not_not_intro hr)
  · rw [if_neg hr]
    exact if_pos hr

theorem cUpdt_unparsed (hcc : childConfigUnserialize P buf = none) : cUpdt P s con buf =
    (sendStatusMsg P (slog P s (text "[update] parse error\n")) con false "failure", false) := by
  rw [cUpdt, hcc]

theorem cUpdt_unknown (hcc : childConfigUnserialize P buf = some cc)
    (hg : s.reg.childConfigFindByName cc.ccName = none) :
    cUpdt P s con buf = (sendStatusMsg P s con false "not found", false) := by
  rw [cUpdt, hcc]
  dsimp only
  rw [hg]

theorem cUpdt_refused (hcc : childConfigUnserialize P buf = some cc)
    (hg : s.reg.childConfigFindByName cc.ccName = some g)
    (hno : updtRefusal cc = some (code, msg)) :
    cUpdt P s con buf = (sendStatusMsg P s con code msg, true) := by
  rw [cUpdt, hcc]
  dsimp only
  rw [hg]
  dsimp only
  rw [hno]

/-- An update of the group is announced if it has changed a setting. -/
def announceUpdate (P : Platform) (g : GroupId) (u : Server × Bool) : Server :=
  if u.2 then sendGroupCfgUpdateNotification P u.1 (u.1.reg.groups g) else u.1

theorem announceUpdate_io (g : GroupId) (u : Server × Bool) : announceUpdate P g u =
    u.1.withIo fun io => if u.2 then io.notify P (.groupCfg (u.1.reg.groups g)) else io := by
  unfold announceUpdate
  split <;> rfl

theorem cUpdt_accepted (hcc : childConfigUnserialize P buf = some cc)
    (hg : s.reg.childConfigFindByName cc.ccName = some g) (hok : updtRefusal cc = none) :
    cUpdt P s con buf =
      (sendSuccess P (announceUpdate P g (updateGroup P cc g s)) con "success", true) := by
  rw [cUpdt, hcc]
  dsimp only
  rw [hg]
  dsimp only
  rw [hok]
  rfl

end Outcomes

end Requested

/-- The child that one turn of `sigchld_cb` reaps, when it is in the table. -/
def reaped (s : Server) : Event → Option (ProcId × WaitStatus)
  | .callback .waitpid _ => do
    let (pid, ret, _) ← s.reg.kernel.waitpid
    let p ← s.reg.processFindByPid pid
    return (p, ret)
  | _ => none

inductive Effect (P : Platform) (s : Server) (e : Event) (u : Server) : Prop where
  /-- Output, an untracked child, the end of a child, or time. -/
  | kernel (k : Kernel) (reg : u.reg = s.reg.setKernel k) (hist : u.hist = s.hist)
      (kept : ∀ p, s.reg.Tracked p → (s.reg.procs p).pPid ∈ k.unreaped)
  /-- A field of a process that no table depends on. -/
  | process (p : ProcId) (f : Process → Process) (reg : u.reg = s.reg.setProc p f)
      (hist : u.hist = s.hist) (pid : ∀ pr, (f pr).pPid = pr.pPid)
      (cfg : ∀ pr, (f pr).pChildConfig = pr.pChildConfig)
      (inst : ∀ pr, (f pr).pInstance = pr.pInstance)
  | orphanExit (p : ProcId) (k : Kernel) (tracked : s.reg.Tracked p)
      (cfg : (s.reg.procs p).pChildConfig = none)
      (reg : u.reg = (s.reg.setKernel k).processRemove p)
      (hist : u.hist = s.hist ++ [.orphanExited p (s.reg.procs p).pPid])
      (kept : ∀ q, s.reg.Tracked q → q ≠ p → (s.reg.procs q).pPid ∈ k.unreaped)
  | deleted (obj : Json) (g : GroupId) (accepted : requested P s .dele e = some (obj, g))
      (listed : g ∈ s.reg.childConfigList)
      (reg : u.reg = (s.reg.childConfigRemove g).orphanAll (s.reg.groups g).slotProcs)
      (hist : u.hist = s.hist ++ [.deleted g])
  | created (cc : ChildConfig) (accepted : acceptedSpwn P s e = some cc)
      (h : Created .spwn (withSlots cc (if cc.ccInstances = -1 then 1 else cc.ccInstances)) s u)
  | loaded (file : Option Bytes) (load : e.loads = some file)
      (h : Relation.ReflTransGen (Loading (dumpRecords P file)) s u)
  | updated (cc : ChildConfig) (g : GroupId) (accepted : acceptedUpdt P s e = some (cc, g))
      (listed : g ∈ s.reg.childConfigList) (h : Updated cc g s u)
  | exited (g : GroupId) (i : ℕ) (p : ProcId) (ret : WaitStatus)
      (reap : reaped s e = some (p, ret)) (h : Exited g i p ret s u)

section Commands

variable {P : Platform} {s u : Server} {e : Event}

theorem Calm.effect (h : Calm s u) (hl : Linked s.reg) : Effect P s e u :=
  .kernel s.reg.kernel h.reg h.hist fun _ hp => hl.tracked_unreaped hp

theorem updated_of_calm {cc : ChildConfig} {g : GroupId} {v : Server} (h : Updated cc g s u)
    (k : Calm u v) : Updated cc g s v := by
  have hcell : ∀ g j, cellAt v g j = cellAt u g j := fun g j => by rw [cellAt, k.reg, cellAt]
  have hnew : newHist s v = newHist s u := newHist_congr rfl k.hist
  refine ⟨h.concerns.trans (.of_eq k.reg k.hist k.clock k.turn), ?_, ?_, ?_, ?_, ?_, ?_⟩
  · rw [k.reg]; exact h.list
  · rw [k.reg]; exact h.settings
  · rw [k.reg]; exact h.linked
  · rw [hnew]
    exact h.statusSet
  · intro j hj
    rw [k.reg] at hj
    obtain ⟨mid, h₁, h₂, h₃⟩ := h.cells j hj
    rw [k.hist, hcell]
    exact ⟨mid, h₁, h₂, h₃⟩
  · rw [hnew]
    exact h.starts

theorem exited_of_calm {g : GroupId} {i : ℕ} {p : ProcId} {ret : WaitStatus} {v : Server}
    (h : Exited g i p ret s u) (k : Calm u v) : Exited g i p ret s v := by
  have hcell : ∀ g j, cellAt v g j = cellAt u g j := fun g j => by rw [cellAt, k.reg, cellAt]
  have hnew : newHist s v = newHist s u := newHist_congr rfl k.hist
  refine ⟨h.owned, k.clock.trans h.clock, k.turn.trans h.turn, ?_, ?_, ?_, ?_, ?_, ?_, ?_, ?_, ?_,
    ?_, ?_⟩
  · rw [k.reg]; exact h.groups
  · rw [k.reg]; exact h.list
  · rw [k.reg]; exact h.fresh
  · rw [k.reg]; exact h.linked
  · rw [k.reg]; exact h.settings
  · rw [k.hist]; exact h.hist
  · rw [hnew]; exact h.broken
  · rw [hnew]; exact h.once
  · intro j hj; rw [hcell]; exact h.others j hj
  · rw [k.hist, hcell]; exact h.restarted
  · rw [hcell]; exact h.stays

theorem Effect.of_calm {v : Server} (h : Effect P s e u) (k : Calm u v) : Effect P s e v := by
  cases h with
  | kernel l hr hh hk => exact .kernel l (k.reg.trans hr) (k.hist.trans hh) hk
  | process p f hr hh h₁ h₂ h₃ =>
    exact .process p f (k.reg.trans hr) (k.hist.trans hh) h₁ h₂ h₃
  | orphanExit p l ht hc hr hh hk =>
    exact .orphanExit p l ht hc (k.reg.trans hr) (k.hist.trans hh) hk
  | deleted obj g ha hg hr hh => exact .deleted obj g ha hg (k.reg.trans hr) (k.hist.trans hh)
  | created cc ha h => exact .created cc ha (h.of_calm k)
  | loaded file he h => exact .loaded file he (h.tail (.inl k))
  | updated cc g ha hg h => exact .updated cc g ha hg (updated_of_calm h k)
  | exited g i p ret hr h => exact .exited g i p ret hr (exited_of_calm h k)

variable (P) (con : ClientId) (buf : CStr)

/-- What KILL, DELE, GETC and PIDS have in common. -/
theorem withNamedGroup_rule {badName : Bool} {handle : Json → GroupId → Server × Bool}
    {C : Server → Prop} (hl : Linked s.reg) (hcalm : ∀ u, Calm s u → C u)
    (hhandle : ∀ obj g, namedGroup P s.reg buf = some (obj, g) → g ∈ s.reg.childConfigList →
      C (handle obj g).1) :
    C (withNamedGroup P s con buf badName handle).1 := by
  unfold withNamedGroup
  split
  · exact hcalm _ .withIo
  · rename_i obj hobj
    split
    · exact hcalm _ .withIo
    · rename_i n hn
      split
      · exact hcalm _ .withIo
      · rename_i g hf
        exact hhandle obj g (by simp [namedGroup, hobj, hn, hf]) (hl.find_name hf).1

theorem cGetc_calm (hl : Linked s.reg) : Calm s (cGetc P s con buf).1 :=
  withNamedGroup_rule P con buf hl (fun _ h => h) fun _ _ _ _ => .withIo

theorem cPids_calm (hl : Linked s.reg) : Calm s (cPids P s con buf).1 :=
  withNamedGroup_rule P con buf hl (fun _ h => h) fun _ _ _ _ => Calm.withIo.trans .withIo

theorem cKill_calm (hl : Linked s.reg) : Calm s (cKill P s con buf).1 :=
  withNamedGroup_rule P con buf hl (fun _ h => h) fun _ _ _ _ =>
    ((Calm.withIo.trans .withIo).trans .withIo).trans .withIo

theorem cSubs_calm : Calm s (cSubs P s con buf).1 := by
  unfold cSubs
  split
  · exact .withIo
  · split
    · exact .withIo
    · exact Calm.withIo.trans .withIo

theorem cRead_calm : Calm s (cRead P s con buf).1 := by
  unfold cRead
  dsimp only
  split
  · exact .withIo
  · split
    · split
      · exact .withIo
      · split
        · exact .withIo
        · split
          · exact .withIo
          · split
            · exact .withIo
            · split
              · exact .withIo
              · exact .withIo
              · exact .withIo
    · exact .withIo

theorem cExit_calm : Calm s (cExit P s con).1 := by
  unfold cExit
  split
  · exact .withIo
  · exact ⟨rfl, rfl, rfl, rfl⟩

variable {payload : Bytes} {cid : UInt16} {o : Oracle} {con}

theorem cSpwn_created {cc : ChildConfig} {n : ℤ} {buf : CStr} (hl : Linked s.reg)
    (hcc : childConfigUnserialize P buf = some cc) (hok : spwnRefusal s.reg cc = none)
    (hn : n = if cc.ccInstances = -1 then 1 else cc.ccInstances) :
    Created .spwn (withSlots cc n) s (cSpwn P s con buf).1 := by
  have hpos : 0 ≤ n := by
    unfold spwnRefusal at hok
    dsimp only at hok
    rw [← hn] at hok
    split_ifs at hok
    omega
  rw [cSpwn_accepted hcc hok hn]
  have hcalm : Calm (insertGroup s (withSlots cc n)) (announceGroup P s con cc n) :=
    ((Calm.withIo.trans .withIo).trans .withIo).trans .withIo
  exact created_run P .spwn cc hl hpos hcalm

theorem cSpwn_effect (hl : Linked s.reg) (hc : findCommand payload = some .spwn) :
    Effect P s (.callback (.request con cid payload) o)
      (cSpwn P s con (CStr.ofBytes (payload.drop 4))).1 := by
  cases hcc : childConfigUnserialize P (CStr.ofBytes (payload.drop 4)) with
  | none =>
    rw [cSpwn_unparsed hcc]
    exact Calm.withIo.effect hl
  | some cc =>
    cases hok : spwnRefusal s.reg cc with
    | some msg =>
      rw [cSpwn_refused hcc hok]
      exact Calm.withIo.effect hl
    | none =>
      have ha : acceptedSpwn P s (.callback (.request con cid payload) o) = some cc := by
        simp [acceptedSpwn, hc, hcc, hok]
      exact .created cc ha (cSpwn_created P hl hcc hok rfl)

theorem cDele_effect (hl : Linked s.reg) (hc : findCommand payload = some .dele) :
    Effect P s (.callback (.request con cid payload) o)
      (cDele P s con (CStr.ofBytes (payload.drop 4))).1 := by
  refine withNamedGroup_rule P con _ hl (fun _ h => h.effect hl) fun obj g hn hg => ?_
  have ha : requested P s .dele (.callback (.request con cid payload) o) = some (obj, g) := by
    simp [requested, hc, hn]
  exact .deleted obj g ha hg rfl rfl

theorem cUpdt_updated {cc : ChildConfig} {g : GroupId} {buf : CStr} (hl : Linked s.reg)
    (hcc : childConfigUnserialize P buf = some cc)
    (hg : s.reg.childConfigFindByName cc.ccName = some g) (hok : updtRefusal cc = none) :
    Updated cc g s (cUpdt P s con buf).1 := by
  obtain ⟨hu, -⟩ := updateGroup_updated P cc g s hl (hl.find_name hg).1 hok
  have hannounced : Calm (updateGroup P cc g s).1
      (announceUpdate P g (updateGroup P cc g s)) := by
    rw [announceUpdate_io]
    exact .withIo
  have hreplied : Calm (announceUpdate P g (updateGroup P cc g s))
    (sendSuccess P (announceUpdate P g (updateGroup P cc g s)) con "success") := .withIo
  rw [cUpdt_accepted hcc hg hok]
  exact updated_of_calm hu (hannounced.trans hreplied)

theorem cUpdt_effect (hl : Linked s.reg) (hc : findCommand payload = some .updt) :
    Effect P s (.callback (.request con cid payload) o)
      (cUpdt P s con (CStr.ofBytes (payload.drop 4))).1 := by
  cases hcc : childConfigUnserialize P (CStr.ofBytes (payload.drop 4)) with
  | none =>
    rw [cUpdt_unparsed hcc]
    exact (Calm.withIo.trans .withIo).effect hl
  | some cc =>
    cases hg : s.reg.childConfigFindByName cc.ccName with
    | none =>
      rw [cUpdt_unknown hcc hg]
      exact Calm.withIo.effect hl
    | some g =>
      cases hok : updtRefusal cc with
      | some refusal =>
        rw [cUpdt_refused hcc hg hok]
        exact Calm.withIo.effect hl
      | none =>
        have ha : acceptedUpdt P s (.callback (.request con cid payload) o) = some (cc, g) := by
          simp [acceptedUpdt, hc, hcc, hg, hok]
        exact .updated cc g ha (hl.find_name hg).1 (cUpdt_updated P hl hcc hg hok)

theorem runCommand_effect {c : Command} (hl : Linked s.reg) (hc : findCommand payload = some c) :
    Effect P s (.callback (.request con cid payload) o)
      (runCommand P c s con (CStr.ofBytes (payload.drop 4))).1 := by
  cases c with
  | dele => exact cDele_effect P hl hc
  | dump => exact Calm.withIo.effect hl
  | exit => exact (cExit_calm P con).effect hl
  | getc => exact (cGetc_calm P con _ hl).effect hl
  | helo => exact Calm.withIo.effect hl
  | kill => exact (cKill_calm P con _ hl).effect hl
  | list => exact Calm.withIo.effect hl
  | pids => exact (cPids_calm P con _ hl).effect hl
  | read => exact (cRead_calm P con _).effect hl
  | spwn => exact cSpwn_effect P hl hc
  | subs => exact (cSubs_calm P con _).effect hl
  | updt => exact cUpdt_effect P hl hc

theorem runServerCommand_effect (hl : Linked s.reg) :
    Effect P s (.callback (.request con cid payload) o) (runServerCommand P s con payload) := by
  unfold runServerCommand
  split
  · rename_i c hc
    have h : Effect P s (.callback (.request con cid payload) o) _ := runCommand_effect P hl hc
    dsimp only
    split
    · exact h
    · exact h.of_calm .withIo
  · exact Calm.withIo.effect hl

theorem loadGroup_created {s : Server} (hl : Linked s.reg) (cc : ChildConfig) {n : ℤ}
    (hn : 0 ≤ n) : Created .loadDump (withSlots cc n) s (loadGroup P s (withSlots cc n)) :=
  created_run P .loadDump cc hl hn .refl

theorem loadGroups_loading {R : List ChildConfig} (l : List Json) {s : Server}
    (hl : Linked s.reg)
    (hR : ∀ j ∈ l, ∀ cc, childConfigFromJson j = some cc → dumpDefaults cc ∈ R) :
    Relation.ReflTransGen (Loading R) s (loadGroups P l s).1 ∧
      Linked (loadGroups P l s).1.reg := by
  fun_induction loadGroups P l s with
  | case1 s => exact ⟨.refl, hl⟩
  | case2 => exact ⟨.refl, hl⟩
  | case3 => exact ⟨.refl, hl⟩
  | case4 => exact ⟨.single (.inl ⟨rfl, rfl, rfl, rfl⟩), hl⟩
  | case5 fields ts s cc hcc hcmd s' cc' hneg ih =>
    have hlog : Calm s s' := .withIo
    have hl' : Linked s'.reg := hl
    have hmem : cc' ∈ R := hR _ (by simp) cc hcc
    have hcreated := loadGroup_created P hl' cc' (Int.not_lt.mp hneg)
    obtain ⟨hrest, hend⟩ := ih hcreated.linked fun j hj => hR j (List.mem_cons_of_mem _ hj)
    exact ⟨.head (.inl hlog) (.head (.inr ⟨cc', hmem, hcreated⟩) hrest), hend⟩
  | case6 => exact ⟨.refl, hl⟩

theorem loadDump_loading (file : Option Bytes) (hl : Linked s.reg) :
    Relation.ReflTransGen (Loading (dumpRecords P file)) s (loadDump P s file).1 := by
  unfold loadDump
  split
  · exact .refl
  · exact .refl
  · rename_i buf _
    split
    · rename_i l hparse
      refine (loadGroups_loading P l hl ?_).1
      intro j hj cc hcc
      simp only [dumpRecords, Option.getD_some, hparse]
      exact List.mem_filterMap.mpr ⟨j, hj, by rw [hcc]; rfl⟩
    · exact .refl

theorem loadDumpCb_effect (file : Option Bytes) (o : Oracle) (hl : Linked s.reg) :
    Effect P s (.callback (.loadDump file) o) (loadDumpCb P s file) := by
  have hload := loadDump_loading (P := P) file hl
  unfold loadDumpCb
  split
  · rename_i v hv
    rw [hv] at hload
    exact .loaded file rfl hload
  · rename_i v hv
    rw [hv] at hload
    exact .loaded file rfl (hload.tail (.inl ⟨rfl, rfl, rfl, rfl⟩))

end Commands

section Callbacks

variable {P : Platform} {s : Server} {e : Event}

theorem Forked.effect {u : Server} (h : Forked s u) (hh : u.hist = s.hist) (hl : Linked s.reg) :
    Effect P s e u := by
  obtain ⟨k, hr, hk⟩ := h.reg
  exact .kernel k hr hh fun p hp => hk _ (hl.tracked_unreaped hp)

theorem heartbeatCb_effect (hl : Linked s.reg) (p : ProcId) :
    Effect P s e (heartbeatCb P s p) := by
  have hf := forkCommand_forked s
  unfold heartbeatCb
  dsimp only
  split
  · split
    · exact Calm.effect ⟨rfl, rfl, rfl, rfl⟩ hl
    · exact .process p (fun pr => { pr with pTerminated := true }) rfl rfl (fun _ => rfl)
        (fun _ => rfl) fun _ => rfl
  · split
    · exact Calm.refl.effect hl
    · split
      · exact Calm.refl.effect hl
      · split
        · rename_i u hu
          rw [hu] at hf
          exact (Forked.effect hf.1 hf.2 hl).of_calm .withIo
        · rename_i u hu
          rw [hu] at hf
          exact (Forked.effect hf.1 hf.2 hl).of_calm .withIo

theorem childErrorCb_effect (hl : Linked s.reg) (p : ProcId) :
    Effect P s e (childErrorCb s p) := by
  unfold childErrorCb
  dsimp only
  split
  · exact .process p (fun pr => { pr with pChildSockbuf := false }) rfl rfl (fun _ => rfl)
      (fun _ => rfl) fun _ => rfl
  · exact Calm.refl.effect hl

theorem acceptCb_calm (P : Platform) (a : Accept) : Calm s (acceptCb P s a) := by
  cases a <;> exact ⟨rfl, rfl, rfl, rfl⟩

theorem sighupCb_calm (P : Platform) (reopened : Bool) : Calm s (sighupCb P s reopened) := by
  cases reopened <;> exact ⟨rfl, rfl, rfl, rfl⟩

/-- The pids of the other processes stay in use when one is reaped. -/
theorem waitpid_kept {p : ProcId} {pid : Pid} {ret : WaitStatus} {k : Kernel} (hl : Linked s.reg)
    (hw : s.reg.kernel.waitpid = some (pid, ret, k)) (hp : s.reg.processFindByPid pid = some p) :
    ∀ q, s.reg.Tracked q → q ≠ p → (s.reg.procs q).pPid ∈ k.unreaped := by
  obtain ⟨ht, hpid⟩ := hl.find_pid hp
  intro q hq hne
  refine (Kernel.mem_unreaped_waitpid hw _).mpr ⟨hl.tracked_unreaped hq, ?_⟩
  rw [← hpid]
  exact fun h => hne (hl.tracked_inj hq ht h)

/-- A turn of `sigchld_cb` that reaps a process of a group. -/
theorem sigchldTurn_exited {p : ProcId} {ret : WaitStatus} {g : GroupId} {o : Oracle}
    (hl : Linked s.reg) (hr : reaped s (.callback .waitpid o) = some (p, ret))
    (hcfg : (s.reg.procs p).pChildConfig = some g) :
    Exited g (s.reg.procs p).pInstance p ret s (sigchldTurn P s) := by
  obtain ⟨⟨pid, ret', k⟩, hw, hr⟩ := Option.bind_eq_some_iff.mp hr
  obtain ⟨p', hp, hr⟩ := Option.bind_eq_some_iff.mp hr
  cases hr
  have hs : InSlot s.reg g (s.reg.procs p).pInstance p :=
    (hl.placed _ _ _).mpr ⟨(hl.find_pid hp).1, hcfg, rfl⟩
  have hfind : (s.withReg fun r => r.setKernel k).reg.processFindByPid pid = some p := hp
  have hproc : (s.withReg fun r => r.setKernel k).reg.procs p = s.reg.procs p := rfl
  unfold sigchldTurn
  rw [hw]
  dsimp only
  rw [hfind]
  dsimp only
  unfold processExit
  dsimp only
  rw [hproc, hcfg]
  exact groupExit_exited P ret hl hs (waitpid_kept hl hw hp) rfl rfl rfl rfl

/-- One turn of `sigchld_cb`. -/
theorem sigchldTurn_effect (hl : Linked s.reg) (o : Oracle) :
    Effect P s (.callback .waitpid o) (sigchldTurn P s) := by
  cases hreap : reaped s (.callback .waitpid o) with
  | some x =>
    obtain ⟨p, ret⟩ := x
    cases hcfg : (s.reg.procs p).pChildConfig with
    | some g => exact .exited g _ p ret hreap (sigchldTurn_exited hl hreap hcfg)
    | none =>
      obtain ⟨⟨pid, ret', k⟩, hw, hr⟩ := Option.bind_eq_some_iff.mp hreap
      obtain ⟨p', hp, hr⟩ := Option.bind_eq_some_iff.mp hr
      cases hr
      have hfind : (s.withReg fun r => r.setKernel k).reg.processFindByPid pid = some p := hp
      have hproc : (s.withReg fun r => r.setKernel k).reg.procs p = s.reg.procs p := rfl
      unfold sigchldTurn
      rw [hw]
      dsimp only
      rw [hfind]
      dsimp only
      unfold processExit
      dsimp only
      rw [hproc, hcfg]
      exact .orphanExit p k (hl.find_pid hp).1 hcfg rfl rfl (waitpid_kept hl hw hp)
  | none =>
    unfold sigchldTurn
    split
    · exact Effect.kernel s.reg.kernel rfl rfl fun _ hp => hl.tracked_unreaped hp
    · rename_i pid ret k hw
      dsimp only
      split
      · rename_i hnone
        refine .kernel k rfl rfl fun p hp => ?_
        exact (Kernel.mem_unreaped_waitpid hw _).mpr
          ⟨hl.tracked_unreaped hp, Linked.find_pid_none hnone hp⟩
      · rename_i p hsome
        have hfind : s.reg.processFindByPid pid = some p := hsome
        simp [reaped, hw, hfind] at hreap

/-- Every step has one of the effects, apart from output that precedes it. -/
theorem step_effect {u : Server} (hl : Linked s.reg) (h : Step P s e u) :
    ∃ x, Calm s x ∧ Effect P x e u := by
  obtain ⟨-, rfl⟩ := h
  cases e with
  | clock t => exact ⟨s, .refl, .kernel s.reg.kernel rfl rfl fun _ hp => hl.tracked_unreaped hp⟩
  | childExit pid ret pos =>
    refine ⟨s, .refl, .kernel _ rfl rfl fun p hp => ?_⟩
    exact Kernel.mem_unreaped_exit.mpr (hl.tracked_unreaped hp)
  | callback c o =>
    have hi : Calm s (install s o) := ⟨rfl, rfl, rfl, rfl⟩
    have hli : Linked (install s o).reg := hl
    cases c with
    | accept a => exact ⟨_, hi, (acceptCb_calm P a).effect hli⟩
    | request con cid payload =>
      have hl' : Linked ((install s o).withIo (setCid con cid)).reg := hl
      refine ⟨(install s o).withIo (setCid con cid), hi.trans .withIo, ?_⟩
      exact (runServerCommand_effect P hl').of_calm .withIo
    | badLength con tooLarge => exact ⟨_, hi, (Calm.withIo.trans .withIo).effect hli⟩
    | error con => exact ⟨_, hi, Calm.withIo.effect hli⟩
    | loadDump file => exact ⟨_, hi, loadDumpCb_effect P file o hli⟩
    | loadNewest file => exact ⟨_, hi, .loaded file rfl (loadDump_loading P file hli)⟩
    | sigchld =>
      exact ⟨_, hi, .kernel s.reg.kernel rfl rfl fun _ hp => hl.tracked_unreaped hp⟩
    | waitpid => exact ⟨_, hi, sigchldTurn_effect hli o⟩
    | sighup reopened => exact ⟨_, hi, (sighupCb_calm P reopened).effect hli⟩
    | heartbeat p => exact ⟨_, hi, heartbeatCb_effect hli p⟩
    | childRead p buf => exact ⟨_, hi, Calm.withIo.effect hli⟩
    | childError p => exact ⟨_, hi, childErrorCb_effect hli p⟩

theorem loading_linked {R : List ChildConfig} {u : Server}
    (h : Relation.ReflTransGen (Loading R) s u) (hl : Linked s.reg) : Linked u.reg := by
  induction h with
  | refl => exact hl
  | tail _ hstep ih =>
    rcases hstep with hc | ⟨cc, -, hc⟩
    · rw [hc.reg]
      exact ih
    · exact hc.linked

theorem effect_linked {u : Server} (h : Effect P s e u) (hl : Linked s.reg) : Linked u.reg := by
  cases h with
  | kernel k hr _ hk =>
    rw [hr]
    exact hl.setKernel hk
  | process p f hr _ h₁ h₂ h₃ =>
    rw [hr]
    exact hl.setProc h₁ h₂ h₃
  | orphanExit p k ht hc hr _ hk =>
    rw [hr]
    exact hl.reapOrphan ht hc hk
  | deleted obj g _ hg hr _ =>
    rw [hr]
    exact hl.delete hg
  | created cc _ h => exact h.linked
  | loaded _ _ h => exact loading_linked h hl
  | updated cc g _ _ h => exact h.linked
  | exited g i p ret _ h => exact h.linked

theorem step_linked {u : Server} (hl : Linked s.reg) (h : Step P s e u) : Linked u.reg := by
  obtain ⟨x, hx, he⟩ := step_effect hl h
  exact effect_linked he (by rw [hx.reg]; exact hl)

/-- In every reachable state the tables are linked. -/
theorem ReachableBy.linked {Q : Server → Event → Server → Prop} (h : ReachableBy P Q s) :
    Linked s.reg := by
  obtain ⟨a, b, t, h⟩ := h
  exact h.invariant (P := fun s => Linked s.reg) (fun _ _ _ hl hs _ => step_linked hl hs)
    Registry.linked_init

end Callbacks

end UbervisorEffects
