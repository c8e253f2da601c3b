import Ubervisor.Outputs

/-! # Reading the output of a step

A reading picks some of what the server puts out. Most handlers put out nothing that a given
reading picks, and what a step adds to the transcript is read exactly. -/
namespace UbervisorTranscripts

open UbervisorRuns
open UbervisorValues
open UbervisorChildConfigs
open UbervisorKernel
open UbervisorRegistry
open UbervisorReadCallback (Command findCommand)
open UbervisorServer
open UbervisorCommands
open UbervisorEvents
open UbervisorSupervision
open UbervisorSlots
open UbervisorUpdates
open UbervisorExits
open UbervisorEffects
open UbervisorGroupSteps
open UbervisorOutputs

section Readings

variable {α : Type} {f : Output → Option α} {l l' : List α} {io io' io'' : Io} {P : Platform}

/-- Output that the reading passes over. -/
def Silent (f : Output → Option α) (o : Output) : Prop := f o = none

/-- From `io` to `io'` the reading picks `l`. -/
def Reads (f : Output → Option α) (l : List α) (io io' : Io) : Prop :=
  ∃ m, io'.out = io.out ++ m ∧ m.filterMap f = l

theorem Reads.trans (h : Reads f l io io') (k : Reads f l' io' io'') :
    Reads f (l ++ l') io io'' := by
  obtain ⟨m, hm, rfl⟩ := h
  obtain ⟨n, hn, rfl⟩ := k
  exact ⟨m ++ n, by rw [hn, hm, List.append_assoc], List.filterMap_append⟩

theorem Reads.silent (h : IoOutputs (Silent f) io io') : Reads f [] io io' := by
  obtain ⟨m, hm, hs⟩ := h
  exact ⟨m, hm, List.filterMap_eq_nil_iff.mpr hs⟩

theorem Reads.before (h : IoOutputs (Silent f) io io') (k : Reads f l io' io'') :
    Reads f l io io'' := (Reads.silent h).trans k

theorem Reads.after (h : Reads f l io io') (k : IoOutputs (Silent f) io' io'') :
    Reads f l io io'' := by
  have hk := h.trans (.silent k)
  rwa [List.append_nil] at hk

theorem Reads.emit (o : Output) : Reads f (f o).toList io (io.emit o) := by
  refine ⟨[o], rfl, ?_⟩
  cases hf : f o with
  | none => exact List.filterMap_cons_none hf
  | some a => exact List.filterMap_cons_some hf

theorem Reads.same (h : Reads f l io io') (he : io''.out = io'.out) : Reads f l io io'' := by
  obtain ⟨m, hm, hl⟩ := h
  exact ⟨m, he.trans hm, hl⟩

theorem Reads.notify (n : Notification) : Reads f (f (.notify n)).toList io (io.notify P n) :=
  (Reads.emit (.notify n)).same (notify_out io n)

theorem Reads.reply (con : ClientId) (r : Reply) :
    Reads f (f (.reply con (io.cid con) r)).toList io (io.reply P con r) :=
  (Reads.emit _).same rfl

/-- The output since an earlier state. -/
def newOut (s u : Server) : List Output := u.io.out.drop s.io.out.length

theorem Reads.newOut {s u : Server} (h : Reads f l s.io u.io) : (newOut s u).filterMap f = l := by
  obtain ⟨m, hm, hl⟩ := h
  rw [UbervisorTranscripts.newOut, hm, List.drop_left]
  exact hl

end Readings

section Requests

variable {α : Type} {f : Output → Option α} {l : List α} {P : Platform} {s : Server}
  {con : ClientId} {cid : UInt16} {payload : Bytes} {o : Oracle}

/-- What a request adds to the transcript is what its handler adds. -/
theorem command_reads {c : Command} (hp : Permits (Silent f)) (hc : findCommand payload = some c)
    {x : Server} (hx : (install s o).withIo (setCid con cid) = x)
    (h : Reads f l x.io (runCommand P c x con (CStr.ofBytes (payload.drop 4))).1.io) :
    Reads f l s.io (next P s (.callback (.request con cid payload) o)).io := by
  have hout : x.io.out = s.io.out := by
    rw [← hx]
    rfl
  have hnext : next P s (.callback (.request con cid payload) o) =
      (runServerCommand P x con payload).withIo (setCid con 0) := by
    rw [← hx]
    rfl
  have hrun : Reads f l s.io (runServerCommand P x con payload).io := by
    have hcmd := Reads.before (IoOutputs.refl.same hout) h
    unfold runServerCommand
    rw [hc]
    dsimp only
    split
    · exact hcmd
    · exact hcmd.after (drop_outputs .refl hp).out
  rw [hnext]
  exact hrun.same rfl

theorem request_reads {c : Command} (hp : Permits (Silent f)) (hc : findCommand payload = some c)
    (h : ∀ x : Server, x.reg = s.reg → x.clock = s.clock →
      Reads f l x.io (runCommand P c x con (CStr.ofBytes (payload.drop 4))).1.io) :
    Reads f l s.io (next P s (.callback (.request con cid payload) o)).io :=
  command_reads hp hc rfl (h _ rfl rfl)

/-- A request that names no group is only refused. -/
theorem withNamedGroup_missing {buf : CStr} {badName : Bool}
    {handle : Json → GroupId → Server × Bool} (hp : Permits (Silent f))
    (h : namedGroup P s.reg buf = none) :
    Reads f [] s.io (withNamedGroup P s con buf badName handle).1.io := by
  unfold withNamedGroup
  split
  · exact .silent (IoOutputs.refl.reply hp.writes rfl)
  · rename_i obj hobj
    split
    · exact .silent (IoOutputs.refl.reply hp.writes rfl)
    · rename_i n hn
      split
      · exact .silent (IoOutputs.refl.reply hp.writes rfl)
      · rename_i g hg
        simp [namedGroup, hobj, hn, hg] at h

section Handlers

variable (con) {buf : CStr} {obj : Json} {g : GroupId}

/-- What the reading picks of a notification. -/
def noted (f : Output → Option α) (n : Notification) : List α := (f (.notify n)).toList

/-- What the reading picks of a list of pids sent to a client. -/
def answered (f : Output → Option α) (con : ClientId) (cid : UInt16) (pids : List Pid) : List α :=
  (f (.reply con cid (.pids pids))).toList

theorem reply_reads {s u : Server} (con : ClientId) (pids : List Pid) (h : Reads f l s.io u.io) :
    ∃ cid, Reads f (l ++ answered f con cid pids) s.io (sendReply P u con (.pids pids)).io :=
  ⟨_, h.trans (.reply con (.pids pids))⟩

theorem cPids_reads (hp : Permits (Silent f)) (h : namedGroup P s.reg buf = some (obj, g)) :
    ∃ cid, Reads f
      (answered f con cid ((s.reg.groups g).slotProcs.map fun p => (s.reg.procs p).pPid))
      s.io (cPids P s con buf).1.io := by
  rw [cPids, withNamedGroup_found h]
  have hunset : Outputs (Silent f) s (noteUnset s (s.reg.groups g).hasUnset) :=
    Outputs.refl.unset hp
  exact reply_reads con _ (.silent hunset.out)

theorem killAll_reads (sig : ℤ) (pids : List Pid) :
    Reads f (pids.flatMap fun pid => (f (.kill pid sig)).toList) s.io (killAll s sig pids).io := by
  have hall : ∀ (l : List Pid) (io : Io), Reads f (l.flatMap fun pid => (f (.kill pid sig)).toList)
      io (l.foldl (fun io pid => io.emit (.kill pid sig)) io) := by
    intro l
    induction l with
    | nil => intro io; exact .silent .refl
    | cons pid l ih =>
      intro io
      rw [List.flatMap_cons]
      exact (Reads.emit _).trans (ih _)
  exact hall pids s.io

theorem cKill_reads (hp : Permits (Silent f)) (h : namedGroup P s.reg buf = some (obj, g))
    {pids : List Pid} (hpids : pids =
      (killTargets (s.reg.groups g) (killIndex obj)).map fun p => (s.reg.procs p).pPid) :
    ∃ cid, Reads f ((pids.flatMap fun pid =>
        (f (.kill pid (killSig (s.reg.groups g) obj))).toList) ++ answered f con cid pids)
      s.io (cKill P s con buf).1.io := by
  rw [cKill, withNamedGroup_found h]
  dsimp only
  generalize hx : noteUnset (slog P s _) _ = x
  have hsilent : Outputs (Silent f) s x := by
    rw [← hx]
    exact (Outputs.refl.slog hp).unset hp
  have hkilled := Reads.before hsilent.out
    (killAll_reads (f := f) (s := x) (killSig (s.reg.groups g) obj) pids)
  rw [hpids] at hkilled ⊢
  exact reply_reads con _ hkilled

theorem cDele_reads (hp : Permits (Silent f)) (h : namedGroup P s.reg buf = some (obj, g)) :
    ∃ cid, Reads f (noted f (.status (s.reg.groups g).ccName statusDelete) ++ answered f con cid
        ((s.reg.groups g).slotProcs.map fun p => (s.reg.procs p).pPid))
      s.io (cDele P s con buf).1.io := by
  rw [cDele, withNamedGroup_found h]
  dsimp only
  have hlog : Outputs (Silent f) s (slog P (s.withReg fun r => r.childConfigRemove g)
      (text "[dele] " ++ (s.reg.groups g).ccName.bytes ++ text "\n")) :=
    (Outputs.refl.withReg rfl (.of_eq rfl rfl rfl rfl rfl List.prefix_rfl)).slog hp
  have hsilent := (hlog.unset hp (b := (s.reg.groups g).hasUnset)).out
  generalize hy : noteUnset (slog P _ _) _ = y at hsilent ⊢
  generalize hz : Server.record (sendStatusUpdateNotification P _ _ _) _ = z
  have hnoted : Reads f (noted f (.status (s.reg.groups g).ccName statusDelete)) s.io z.io := by
    rw [← hz]
    exact Reads.before hsilent (.notify _)
  have hpids : (s.reg.groups g).slotProcs.map (pidOf z) =
      (s.reg.groups g).slotProcs.map fun p => (s.reg.procs p).pPid := by
    refine List.map_congr_left fun p _ => ?_
    have hreg : z.reg = (s.reg.childConfigRemove g).orphanAll (s.reg.groups g).slotProcs := by
      rw [← hz, ← hy]
      rfl
    rw [pidOf, hreg, orphanAll_procs]
    split <;> rfl
  rw [hpids]
  exact reply_reads con _ hnoted

/-- SPWN announces a group and its status. -/
theorem cSpwn_reads (hp : Permits (Silent f)) {cc : ChildConfig}
    (hcc : childConfigUnserialize P buf = some cc) (hok : spwnRefusal s.reg cc = none) :
    Reads f (noted f (.status cc.ccName statusCreate) ++ noted f (.status cc.ccName cc.ccStatus))
      s.io (cSpwn P s con buf).1.io := by
  rw [cSpwn_accepted hcc hok rfl]
  generalize (if cc.ccInstances = -1 then 1 else cc.ccInstances) = n
  have hnoted : Reads f (noted f (.status cc.ccName statusCreate) ++
      noted f (.status cc.ccName cc.ccStatus)) s.io (announceGroup P s con cc n).io :=
    (Reads.before (insertGroup_outputs hp cc n).out (.notify _)).trans (.notify _)
  split
  · exact hnoted.after (spawnRange_outputs hp).out
  · exact hnoted

theorem cSpwn_silent (hp : Permits (Silent f)) (hno : ∀ cc,
    childConfigUnserialize P buf = some cc → spwnRefusal s.reg cc ≠ none) :
    Reads f [] s.io (cSpwn P s con buf).1.io := by
  refine .silent (cSpwn_outputs hp fun cc hcc hok => ?_).out
  exact absurd hok (hno cc hcc)

/-- UPDT announces a new status, before all other changes. -/
theorem updateStatus_reads (hp : Permits (Silent f)) (cc : ChildConfig) (g : GroupId)
    (u : Server × Bool) : Reads f
      (if intChanges cc.ccStatus (u.1.reg.groups g).ccStatus then
        noted f (.status (u.1.reg.groups g).ccName cc.ccStatus) else [])
      u.1.io (updateStatus P cc g u).1.io := by
  by_cases hc : intChanges cc.ccStatus (u.1.reg.groups g).ccStatus = true
  · rw [if_pos hc]
    unfold updateStatus
    dsimp only
    rw [if_pos (of_decide_eq_true hc)]
    refine Reads.before ?_ (.notify _)
    generalize hx : Server.withReg (slog P u.1 _) _ = x
    have hreset : Outputs (Silent f) u.1 x := by
      rw [← hx]
      exact (Outputs.refl.slog hp).same rfl rfl (.of_eq rfl rfl rfl rfl rfl List.prefix_rfl)
    split
    · exact (Outputs.loop (fun _ _ => startSlot_outputs hp) _ hreset).out
    · exact hreset.out
  · rw [if_neg hc]
    refine .silent (updateStatus_outputs .refl hp fun h => absurd h hc).out

theorem updateGroup_reads (hp : Permits (Silent f)) {cc : ChildConfig} (hl : Linked s.reg)
    (hg : g ∈ s.reg.childConfigList) (hr : updtRefusal cc = none) : Reads f
      (if intChanges cc.ccStatus (s.reg.groups g).ccStatus then
        noted f (.status (s.reg.groups g).ccName cc.ccStatus) else [])
      s.io (updateGroup P cc g s).1.io := by
  obtain ⟨hsilent, hname, hstatus⟩ := updateSlots_outputs (O := Silent f) (P := P) hl hg hr hp
  unfold updateGroup
  dsimp only
  generalize updateInstances P cc g _ = x at hsilent hname hstatus ⊢
  have hset := updateStatus_reads (P := P) hp cc g x
  rw [hname, hstatus] at hset
  exact (Reads.before hsilent.out hset).after (updateAge_outputs .refl hp).out

theorem cUpdt_reads (hp : Permits (Silent f)) (hcfg : ∀ up, Silent f (.notify (.groupCfg up)))
    {cc : ChildConfig} (hl : Linked s.reg) (hcc : childConfigUnserialize P buf = some cc)
    (hg : s.reg.childConfigFindByName cc.ccName = some g) (hok : updtRefusal cc = none) : Reads f
      (if intChanges cc.ccStatus (s.reg.groups g).ccStatus then
        noted f (.status (s.reg.groups g).ccName cc.ccStatus) else [])
      s.io (cUpdt P s con buf).1.io := by
  have hgroup := updateGroup_reads (P := P) hp hl (hl.find_name hg).1 hok
  rw [cUpdt_accepted hcc hg hok]
  generalize updateGroup P cc g s = v at hgroup ⊢
  obtain ⟨v, changed⟩ := v
  dsimp only at hgroup
  refine hgroup.after (Outputs.success ?_ hp).out
  cases changed with
  | false => exact Outputs.refl.same rfl rfl (.of_eq rfl rfl rfl rfl rfl List.prefix_rfl)
  | true => exact Outputs.refl.notify (hcfg _)

/-- UPDT only announces what it accepts. -/
theorem cUpdt_silent (hp : Permits (Silent f)) (hno : ∀ cc g,
    childConfigUnserialize P buf = some cc → s.reg.childConfigFindByName cc.ccName = some g →
      updtRefusal cc ≠ none) : Reads f [] s.io (cUpdt P s con buf).1.io := by
  cases hcc : childConfigUnserialize P buf with
  | none =>
    rw [cUpdt_unparsed hcc]
    exact .silent ((IoOutputs.refl.slog hp.writes.logs).reply hp.writes rfl)
  | some cc =>
    cases hg : s.reg.childConfigFindByName cc.ccName with
    | none =>
      rw [cUpdt_unknown hcc hg]
      exact .silent (IoOutputs.refl.reply hp.writes rfl)
    | some g =>
      cases hok : updtRefusal cc with
      | some refusal =>
        rw [cUpdt_refused hcc hg hok]
        exact .silent (IoOutputs.refl.reply hp.writes rfl)
      | none => exact absurd hok (hno cc g hcc hg)

end Handlers

/-- A request of no known kind is not answered. -/
theorem unknown_reads (hp : Permits (Silent f)) (hc : findCommand payload = none) :
    Reads f [] s.io (next P s (.callback (.request con cid payload) o)).io := by
  generalize hx : (install s o).withIo (setCid con cid) = x
  have hout : x.io.out = s.io.out := by
    rw [← hx]
    rfl
  have hnext : next P s (.callback (.request con cid payload) o) =
      (UbervisorServer.dropClientConnection x con).withIo (setCid con 0) := by
    change (runServerCommand P ((install s o).withIo (setCid con cid)) con payload).withIo _ = _
    rw [hx, runServerCommand, hc]
  have hdrop : IoOutputs (Silent f) s.io (UbervisorServer.dropClientConnection x con).io :=
    (IoOutputs.refl.same hout).trans (drop_outputs .refl hp).out
  rw [hnext]
  exact Reads.same (.silent hdrop) rfl

end Requests

section Exits

variable {α : Type} {f : Output → Option α} {P : Platform} {s : Server} {g : GroupId} {i : ℕ}
  (ret : WaitStatus)

theorem clearSlot_self (r : Registry) (g : GroupId) (i : ℕ) :
    ∃ l, (clearSlot r g i).groups g = { r.groups g with ccChilds := l } := by
  by_cases hi : (i : ℤ) < (r.groups g).ccInstances
  · rw [clearSlot, if_pos hi]
    exact ⟨_, setCell_self⟩
  · rw [clearSlot, if_neg hi]
    exact ⟨_, rfl⟩

theorem noteError_reads (hp : Permits (Silent f)) : Reads f
    (if tooManyErrors (countError s.clock (s.reg.groups g)) then
      noted f (.status (s.reg.groups g).ccName statusBroken) else [])
    s.io (noteError P s g).io := by
  have hself : (s.withReg fun r => r.setGroup g (countError s.clock)).reg.groups g =
      countError s.clock (s.reg.groups g) := by
    rw [Server.withReg_reg, setGroup_self]
  unfold noteError
  dsimp only
  rw [hself]
  by_cases hm : tooManyErrors (countError s.clock (s.reg.groups g))
  · rw [if_pos hm, if_pos hm]
    generalize hx : Server.record _ (.broken g _ _) = x
    have hio : x.io = s.io := by
      rw [← hx]
      rfl
    have hlog : IoOutputs (Silent f) s.io (slog P x (text "spawn failures. setting broken on " ++
        (countError s.clock (s.reg.groups g)).ccName.bytes ++ text "\n")).io := by
      rw [← hio]
      exact IoOutputs.refl.slog hp.writes.logs
    have hnoted := Reads.before hlog
      (.notify (P := P) (.status (countError s.clock (s.reg.groups g)).ccName statusBroken))
    exact hnoted.after (runFatalCb_outputs hp).out
  · rw [if_neg hm, if_neg hm]
    exact .silent .refl

/-- The end of a process is announced exactly if it breaks the group. -/
theorem groupExit_reads (hp : Permits (Silent f)) : Reads f
    (if Breaks ret s.clock (s.reg.groups g) then
      noted f (.status (s.reg.groups g).ccName statusBroken) else [])
    s.io (groupExit P s g i ret).io := by
  unfold groupExit
  dsimp only
  generalize hx : Server.withReg (Server.record s _) _ = x
  have hio : x.io = s.io ∧ x.clock = s.clock := by
    rw [← hx]
    exact ⟨rfl, rfl⟩
  have hgroup : ∃ l, x.reg.groups g = { s.reg.groups g with ccChilds := l } := by
    rw [← hx]
    exact clearSlot_self s.reg g i
  obtain ⟨l, hl⟩ := hgroup
  by_cases he : exitIsError ret (s.reg.groups g) = true
  · rw [if_pos he]
    have hnoted := noteError_reads (P := P) (s := x) (g := g) hp
    rw [hl, hio.2, hio.1] at hnoted
    have hbreaks : Breaks ret s.clock (s.reg.groups g) ↔ tooManyErrors
        (countError s.clock { s.reg.groups g with ccChilds := l }) := by
      constructor
      · exact fun h => h.2
      · exact fun h => ⟨he, h⟩
    simp only [hbreaks]
    exact hnoted.after (respawn_outputs hp).out
  · rw [if_neg he, if_neg fun h : Breaks ret s.clock (s.reg.groups g) => he h.1]
    have hquiet : IoOutputs (Silent f) s.io x.io := IoOutputs.refl.same (by rw [hio.1])
    exact .silent (hquiet.trans (respawn_outputs hp).out)

/-- What a turn of `sigchld_cb` announces. -/
def brokenBy (s : Server) : Event → Option GroupId
  | .callback .waitpid o => do
    let (p, ret) ← reaped s (.callback .waitpid o)
    let g ← (s.reg.procs p).pChildConfig
    if Breaks ret s.clock (s.reg.groups g) then some g else none
  | _ => none

theorem processExit_reads (hp : Permits (Silent f)) {p : ProcId} {k : Kernel} : Reads f
    (match (s.reg.procs p).pChildConfig with
      | some g => if Breaks ret s.clock (s.reg.groups g) then
          noted f (.status (s.reg.groups g).ccName statusBroken) else []
      | none => [])
    s.io (processExit P (s.withReg fun r => r.setKernel k) p ret).io := by
  unfold processExit
  dsimp only
  generalize hy : Server.withIo _ _ = y
  have hquiet : IoOutputs (Silent f) s.io y.io := by
    rw [← hy]
    simp only [Server.withIo_io, Server.withReg_io]
    split
    · exact (IoOutputs.slog .refl hp.writes.logs).plain hp rfl
    · exact .slog .refl hp.writes.logs
  have hsame : y.reg.groups = s.reg.groups ∧ y.clock = s.clock := by
    rw [← hy]
    exact ⟨rfl, rfl⟩
  have hproc : (s.withReg fun r => r.setKernel k).reg.procs p = s.reg.procs p := rfl
  rw [hproc]
  cases (s.reg.procs p).pChildConfig with
  | none => exact .silent hquiet
  | some g =>
    have hexit := groupExit_reads (P := P) (s := y) (g := g) (i := (s.reg.procs p).pInstance)
      ret hp
    rw [hsame.1, hsame.2] at hexit
    exact Reads.before hquiet hexit

theorem turn_reads (hp : Permits (Silent f)) {o : Oracle} : Reads f
    ((brokenBy s (.callback .waitpid o)).elim [] fun g =>
      noted f (.status (s.reg.groups g).ccName statusBroken))
    s.io (sigchldTurn P s).io := by
  unfold sigchldTurn
  split
  · rename_i hw
    have hno : brokenBy s (.callback .waitpid o) = none := by simp [brokenBy, reaped, hw]
    rw [hno]
    exact .silent .refl
  · rename_i pid ret k hw
    dsimp only
    split
    · rename_i hnone
      have hfind : s.reg.processFindByPid pid = none := hnone
      have hno : brokenBy s (.callback .waitpid o) = none := by simp [brokenBy, reaped, hw, hfind]
      rw [hno]
      exact .silent .refl
    · rename_i p hsome
      have hfind : s.reg.processFindByPid pid = some p := hsome
      have hby : brokenBy s (.callback .waitpid o) = (s.reg.procs p).pChildConfig.bind fun g =>
          if Breaks ret s.clock (s.reg.groups g) then some g else none := by
        simp [brokenBy, reaped, hw, hfind]
      have hexit := processExit_reads (P := P) (s := s) ret (p := p) (k := k) hp
      rw [hby]
      cases hcfg : (s.reg.procs p).pChildConfig with
      | none =>
        rw [hcfg] at hexit
        exact hexit
      | some g =>
        rw [hcfg] at hexit
        dsimp only at hexit
        rw [Option.bind_some]
        by_cases hb : Breaks ret s.clock (s.reg.groups g)
        · rw [if_pos hb] at hexit ⊢
          exact hexit
        · rw [if_neg hb] at hexit ⊢
          exact hexit

end Exits

end UbervisorTranscripts
