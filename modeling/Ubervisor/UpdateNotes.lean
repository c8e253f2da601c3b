import Ubervisor.Delivery
import Ubervisor.GroupTable
import Ubervisor.Refusals
import Ubervisor.StatusNotes

/-! # Announced updates

The subscribers to configurations are told when an UPDT has changed a setting, and the same
request changes nothing the second time. -/
namespace UbervisorUpdateNotes

open UbervisorRuns
open UbervisorValues
open UbervisorChildConfigs
open UbervisorRegistry
open UbervisorReadCallback (Command findCommand)
open UbervisorServer
open UbervisorCommands
open UbervisorEvents
open UbervisorSupervision
open UbervisorSlots
open UbervisorUpdates
open UbervisorEffects
open UbervisorGroupSteps
open UbervisorOutputs
open UbervisorTranscripts
open UbervisorAnswers
open UbervisorReplies
open UbervisorDelivery (grown_cId setCid_ids)
open UbervisorStatusNotes
open UbervisorRefusals
open UbervisorGroupTable
open UbervisorJsonC

section Settings

variable {cc up : ChildConfig}

theorem or_of_strChanges {new old : Option CStr} (h : strChanges new old = false) :
    new.or old = old := by
  have hno := of_decide_eq_false h
  cases new with
  | none => rfl
  | some v =>
    by_contra hne
    exact hno ⟨Option.some_ne_none v, hne⟩

theorem configuration_of_changes (h : changes cc up = false) :
    configuration (updated cc up) = configuration up := by
  unfold changes at h
  simp only [Bool.or_eq_false_iff] at h
  obtain ⟨⟨⟨⟨⟨⟨⟨⟨hdir, hbeat⟩, hfatal⟩, hout⟩, herr⟩, hkill⟩, hinst⟩, hstatus⟩, hage⟩ := h
  have hages : ageOr cc.ccAge up.ccAge = up.ccAge := by
    have hno := of_decide_eq_false hage
    unfold ageOr
    by_cases hpos : cc.ccAge > 0
    · rw [if_pos hpos]
      by_contra hne
      exact hno ⟨hpos, hne⟩
    · rw [if_neg hpos]
  simp only [configuration, updated, or_of_strChanges hdir, or_of_strChanges hbeat,
    or_of_strChanges hfatal, or_of_strChanges hout, or_of_strChanges herr, intOr_same hkill,
    intOr_same hinst, intOr_same hstatus, hages]

theorem intOr_again (new old : ℤ) : intOr new (intOr new old) = intOr new old := by
  unfold intOr
  split <;> rfl

theorem ageOr_again (new old : ℤ) : ageOr new (ageOr new old) = ageOr new old := by
  unfold ageOr
  split <;> rfl

theorem or_again (new old : Option CStr) : new.or (new.or old) = new.or old := by
  cases new <;> rfl

/-- What a request has changed it does not change again. -/
theorem changes_updated (cc up : ChildConfig) : changes cc (updated cc up) = false := by
  apply changes_of_configuration
  simp only [configuration, updated, or_again, intOr_again, ageOr_again]

end Settings

section Requests

variable {P : Platform} {s u v : Server} {con : ClientId} {cid : UInt16} {payload : Bytes}
  {o : Oracle} {buf : CStr} {cc : ChildConfig} {g : GroupId} {e : Event}

/-- The configurations that the server announces. -/
def cfgOf : Output → Option ChildConfig
  | .notify (.groupCfg cc) => some cc
  | _ => none

theorem cfgOf_permits : Permits (Silent cfgOf) where
  plain o ho := by
    cases o with
    | notify n => cases n <;> first | rfl | cases ho
    | _ => rfl
  log _ _ := rfl

/-- An accepted request: the tables that it leaves, and the configuration that is announced. -/
theorem cUpdt_announces (con : ClientId) (hl : Linked s.reg)
    (hcc : childConfigUnserialize P buf = some cc)
    (hg : s.reg.childConfigFindByName cc.ccName = some g) (hok : updtRefusal cc = none) :
    (cUpdt P s con buf).1.reg = (updateGroup P cc g s).1.reg ∧
      Reads cfgOf (if changes cc (s.reg.groups g) then
        [(updateGroup P cc g s).1.reg.groups g] else []) s.io (cUpdt P s con buf).1.io := by
  obtain ⟨-, hflag⟩ := updateGroup_updated P cc g s hl (hl.find_name hg).1 hok
  have hgroup := updateGroup_reads (P := P) cfgOf_permits hl (hl.find_name hg).1 hok
  have hquiet : Reads cfgOf [] s.io (updateGroup P cc g s).1.io := by
    split at hgroup
    · exact hgroup
    · exact hgroup
  have hsame : changes cc (s.reg.groups g) = (updateGroup P cc g s).2 := hflag.symm
  rw [cUpdt_accepted hcc hg hok, hsame, announceUpdate_io]
  refine ⟨rfl, ?_⟩
  generalize updateGroup P cc g s = x at hquiet
  obtain ⟨x, changed⟩ := x
  cases changed with
  | false =>
    exact hquiet.after (Outputs.success (s := x) .refl cfgOf_permits).out
  | true =>
    have hnote := hquiet.trans (Reads.notify (P := P) (.groupCfg (x.reg.groups g)))
    exact hnote.after (Outputs.success (s := x.withIo _) .refl cfgOf_permits).out

/-- A request that changes nothing is only answered. -/
theorem cUpdt_same (hcc : childConfigUnserialize P buf = some cc)
    (hg : s.reg.childConfigFindByName cc.ccName = some g) (hok : updtRefusal cc = none)
    (hch : changes cc (s.reg.groups g) = false) :
    cUpdt P s con buf = (sendSuccess P s con "success", true) := by
  rw [cUpdt_accepted hcc hg hok, updateGroup_same hch]
  rfl

/-- The same groups have the same names. -/
theorem updated_find (h : Updated cc g s u) (hl : Linked s.reg) (n : CStr) :
    u.reg.childConfigFindByName n = s.reg.childConfigFindByName n := by
  have hname : ∀ g', (u.reg.groups g').ccName = (s.reg.groups g').ccName := by
    intro g'
    by_cases hg' : g' = g
    · rw [hg']
      have hset := congrArg ChildConfig.ccName h.settings
      exact hset
    · rw [h.concerns.groups g' hg']
  rw [find_list h.linked.toNamed, find_list hl.toNamed, h.list]
  simp only [hname]

/-- After the same request once more. Only what is sent to the client differs, and what a dump
leaves. -/
structure Repeats (o : Oracle) (s u : Server) : Prop where
  server : u = { install s o with io := u.io }
  subscriptions : u.io.subscriptions = s.io.subscriptions
  connections : u.io.clients.map ClientCon.cId = s.io.clients.map ClientCon.cId
  status : (newOut s u).filterMap statusOf = []
  cfg : (newOut s u).filterMap cfgOf = []

/-- A request that changes nothing. -/
theorem step_same (hs : Step P s (.callback (.request con cid payload) o) u)
    (ha : acceptedUpdt P s (.callback (.request con cid payload) o) = some (cc, g))
    (hch : changes cc (s.reg.groups g) = false) : Repeats o s u := by
  obtain ⟨_, _, _, _, he, hc, hcc, hg, hok⟩ := acceptedUpdt_request ha
  cases he
  obtain ⟨-, rfl⟩ := hs
  generalize hx : (install s o).withIo (setCid con cid) = x
  have hreg : x.reg = s.reg := by
    rw [← hx]
    rfl
  rw [← hreg] at hg hch
  have hrun : runCommand P .updt x con (CStr.ofBytes (payload.drop 4)) =
      (sendSuccess P x con "success", true) := cUpdt_same hcc hg hok hch
  have hnext : next P s (.callback (.request con cid payload) o) =
      (sendSuccess P x con "success").withIo (setCid con 0) := by
    have hserver : runServerCommand P x con payload = sendSuccess P x con "success" := by
      unfold runServerCommand
      rw [hc]
      dsimp only
      rw [hrun]
      rfl
    rw [← hserver, ← hx]
    rfl
  have hquiet : Quiet P False x.io x.io := .refl
  obtain ⟨l, hwrites, -⟩ := sendSuccess_answers hquiet rfl rfl con "success"
  have hsilent : ∀ {α : Type} {f : Output → Option α}, Permits (Silent f) →
      (newOut s (next P s (.callback (.request con cid payload) o))).filterMap f = [] := by
    intro α f hp
    refine (command_reads hp hc hx ?_).newOut
    rw [hrun]
    exact .silent (Outputs.success (s := x) .refl hp).out
  refine ⟨?_, ?_, ?_, hsilent statusOf_permits, hsilent cfgOf_permits⟩
  · rw [hnext, ← hx]
    unfold sendSuccess
    split
    · rfl
    · rfl
  · rw [hnext]
    refine hwrites.subs.trans ?_
    rw [← hx]
    rfl
  · rw [hnext, setCid_ids, hwrites.clients, grown_cId, ← hx]
    exact setCid_ids (install s o) con cid

/-- An accepted request: what becomes of the group, and what is announced. -/
theorem step_announces (hl : Linked s.reg)
    (hs : Step P s (.callback (.request con cid payload) o) u)
    (ha : acceptedUpdt P s (.callback (.request con cid payload) o) = some (cc, g)) :
    (∃ x, x.reg = s.reg ∧ ∃ y, y.reg = u.reg ∧ Updated cc g x y) ∧
      (newOut s u).filterMap cfgOf =
        if changes cc (s.reg.groups g) then [u.reg.groups g] else [] := by
  obtain ⟨_, _, _, _, he, hc, hcc, hg, hok⟩ := acceptedUpdt_request ha
  cases he
  obtain ⟨-, rfl⟩ := hs
  generalize hx : (install s o).withIo (setCid con cid) = x
  have hreg : x.reg = s.reg := by
    rw [← hx]
    rfl
  rw [← hreg] at hl hg
  obtain ⟨htables, hreads⟩ := cUpdt_announces con hl hcc hg hok
  have hnext : (next P s (.callback (.request con cid payload) o)).reg =
      (updateGroup P cc g x).1.reg := by
    rw [← htables, ← hx]
    change (runServerCommand P _ con payload).reg = _
    unfold runServerCommand
    rw [hc]
    dsimp only
    split
    · rfl
    · rfl
  refine ⟨⟨x, hreg, (updateGroup P cc g x).1, hnext.symm, ?_⟩, ?_⟩
  · exact (updateGroup_updated P cc g x hl (hl.find_name hg).1 hok).1
  · rw [hnext, ← hreg]
    exact (command_reads cfgOf_permits hc hx hreads).newOut

/-- The configuration of a group is announced if and only if a setting has changed, and the same
request again, whoever sends it, changes and announces nothing. -/
theorem reachable_updt_announced (h : Reachable P s)
    (hs : Step P s (.callback (.request con cid payload) o) u)
    (ha : acceptedUpdt P s (.callback (.request con cid payload) o) = some (cc, g)) :
    (newOut s u).filterMap cfgOf =
      (if configuration (u.reg.groups g) = configuration (s.reg.groups g) then []
        else [u.reg.groups g]) ∧
    ∀ con' cid' o' v, Step P u (.callback (.request con' cid' payload) o') v →
      Repeats o' u v := by
  have hl : Linked s.reg := ReachableBy.linked h
  obtain ⟨⟨x, hx, y, hy, hup⟩, hcfg⟩ := step_announces hl hs ha
  obtain ⟨_, _, _, _, he, hc, hcc, hg, hok⟩ := acceptedUpdt_request ha
  cases he
  have hset : settings (u.reg.groups g) = updated cc (settings (s.reg.groups g)) := by
    rw [← hx, ← hy]
    exact hup.settings
  have hsame : configuration (u.reg.groups g) = configuration (s.reg.groups g) ↔
      changes cc (s.reg.groups g) = false := by
    have hconf : configuration (u.reg.groups g) =
        configuration (updated cc (settings (s.reg.groups g))) := by
      rw [← hset]
      rfl
    rw [hconf]
    constructor
    · intro he
      have hch : changes cc (settings (s.reg.groups g)) = false := changes_of_configuration he
      exact hch
    · exact configuration_of_changes
  constructor
  · rw [hcfg]
    by_cases hch : changes cc (s.reg.groups g) = false
    · rw [if_pos (hsame.mpr hch), hch]
      rfl
    · rw [if_neg fun he => hch (hsame.mp he), if_pos (Bool.eq_true_of_not_eq_false hch)]
  · intro con' cid' o' v hs'
    have hfind : u.reg.childConfigFindByName cc.ccName = some g := by
      rw [← hg, ← hx, ← hy]
      exact updated_find hup (by rwa [hx]) _
    have ha' : acceptedUpdt P u (.callback (.request con' cid' payload) o') = some (cc, g) := by
      simp [acceptedUpdt, hc, hcc, hfind, hok]
    have hagain : changes cc (u.reg.groups g) = false := by
      have hch := changes_updated cc (settings (s.reg.groups g))
      rw [← hset] at hch
      exact hch
    exact step_same hs' ha' hagain

end Requests

section Runs

/-- A group with a running process. -/
def runningState : Server := stateAfter (next watchPlatform) (initial false false 100)
  [connecting, asking "SPWN" (statusRequest 1) [100]]

def halt : Event := asking "UPDT" stopRequest []

def haltedState : Server := next watchPlatform runningState halt

/-- The group is stopped, which is announced, and stopped again, which is not. -/
theorem runningState_announced :
    (newOut runningState haltedState).filterMap cfgOf = [haltedState.reg.groups 0] ∧
      Repeats (starting []) haltedState (next watchPlatform haltedState halt) := by
  have hrun : Admits Enabled (next watchPlatform) Always (initial false false 100)
    [connecting, asking "SPWN" (statusRequest 1) [100]] := by decide +kernel
  have hreach : Reachable watchPlatform runningState := ⟨false, false, 100, hrun.execution⟩
  have hfound : (acceptedUpdt watchPlatform runningState halt).map Prod.snd = some 0 := by
    decide +kernel
  obtain ⟨⟨cc, g⟩, ha, hg⟩ := Option.map_eq_some_iff.mp hfound
  obtain ⟨hcfg, hagain⟩ := reachable_updt_announced hreach ⟨by decide +kernel, rfl⟩ ha
  have hchanged : configuration (haltedState.reg.groups 0) ≠
    configuration (runningState.reg.groups 0) := by decide +kernel
  dsimp only at hg
  rw [hg] at hcfg
  refine ⟨hcfg.trans (if_neg hchanged), hagain 0 1 (starting []) _ ⟨?_, rfl⟩⟩
  decide +kernel

end Runs

end UbervisorUpdateNotes
