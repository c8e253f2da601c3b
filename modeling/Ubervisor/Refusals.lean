import Ubervisor.Replies

/-! # Refused changes

A refused SPWN, UPDT or DELE leaves the tables as they were. With `auto_dump` the reply is that
of the dump, which may fail when the request is carried out already. -/
namespace UbervisorRefusals

open UbervisorRuns
open UbervisorValues
open UbervisorChildConfigs
open UbervisorKernel
open UbervisorRegistry
open UbervisorReadCallback (Command findCommand)
open UbervisorServer
open UbervisorCommands
open UbervisorEvents
open UbervisorSupervision
open UbervisorSlots
open UbervisorUpdates
open UbervisorEffects
open UbervisorGroupSteps
open UbervisorTranscripts
open UbervisorAnswers
open UbervisorReplies
open UbervisorJsonC

section Unchanged

variable {P : Platform} {cc up : ChildConfig} {g : GroupId} {s : Server} {u : Server × Bool}

theorem updateStr_same {fld : StrField}
    (h : strChanges (fld.get cc) (fld.get (u.1.reg.groups g)) = false) :
    updateStr P cc g fld u = u := by
  have hno := of_decide_eq_false h
  unfold updateStr
  split
  · rfl
  · rename_i v hv
    by_cases he : fld.get (u.1.reg.groups g) = some v
    · rw [if_pos he]
    · refine absurd ⟨?_, ?_⟩ hno
      · rw [hv]
        exact Option.some_ne_none v
      · rw [hv]
        exact Ne.symm he

/-- A request that changes nothing leaves the server as it is. -/
theorem updateGroup_same (h : changes cc (s.reg.groups g) = false) :
    updateGroup P cc g s = (s, false) := by
  unfold changes at h
  simp only [Bool.or_eq_false_iff] at h
  obtain ⟨⟨⟨⟨⟨⟨⟨⟨hdir, hbeat⟩, hfatal⟩, hout⟩, herr⟩, hkill⟩, hinst⟩, hstatus⟩, hage⟩ := h
  have hfield : ∀ fld : StrField, strChanges (fld.get cc) (fld.get (s.reg.groups g)) = false →
      updateStr P cc g fld (s, false) = (s, false) := fun fld h => updateStr_same h
  have hstrings : updateStrings P cc g (s, false) = (s, false) := by
    unfold updateStrings
    dsimp only
    rw [hfield fieldDir hdir, hfield fieldHeartbeat hbeat, hfield fieldFatalCb hfatal,
      hfield fieldStdout hout, hfield fieldStderr herr]
  have hkillsig : updateKillsig P cc g (s, false) = (s, false) := if_neg (of_decide_eq_false hkill)
  have hslots : updateInstances P cc g (s, false) = (s, false) := if_neg (of_decide_eq_false hinst)
  have hst : updateStatus P cc g (s, false) = (s, false) := if_neg (of_decide_eq_false hstatus)
  have hages : updateAge P cc g (s, false) = (s, false) := if_neg (of_decide_eq_false hage)
  unfold updateGroup
  dsimp only
  rw [hstrings, hkillsig, hslots, hst, hages]

theorem strChanges_of_or {new old : Option CStr} (h : new.or old = old) :
    strChanges new old = false := by
  refine decide_eq_false ?_
  rintro ⟨hsome, hne⟩
  cases new with
  | none => exact hsome rfl
  | some v => exact hne h

theorem intChanges_of_intOr {new old : ℤ} (h : intOr new old = old) :
    intChanges new old = false := by
  refine decide_eq_false ?_
  rintro ⟨hset, hne⟩
  rw [intOr, if_pos hset] at h
  exact hne h

/-- The settings that UPDT can change. -/
structure Configuration where
  ccStdout : Option CStr
  ccStderr : Option CStr
  ccDir : Option CStr
  ccHeartbeat : Option CStr
  ccFatalCb : Option CStr
  ccInstances : ℤ
  ccStatus : ℤ
  ccKillsig : ℤ
  ccAge : ℤ
  deriving DecidableEq

def configuration (cc : ChildConfig) : Configuration :=
  ⟨cc.ccStdout, cc.ccStderr, cc.ccDir, cc.ccHeartbeat, cc.ccFatalCb, cc.ccInstances, cc.ccStatus,
    cc.ccKillsig, cc.ccAge⟩

/-- A request that changes some setting is seen in the settings. -/
theorem changes_of_configuration (h : configuration (updated cc up) = configuration up) :
    changes cc up = false := by
  simp only [configuration, Configuration.mk.injEq] at h
  obtain ⟨hout, herr, hdir, hbeat, hfatal, hinst, hstatus, hkill, hage⟩ := h
  unfold changes
  rw [strChanges_of_or hdir, strChanges_of_or hbeat, strChanges_of_or hfatal,
    strChanges_of_or hout, strChanges_of_or herr, intChanges_of_intOr hkill,
    intChanges_of_intOr hinst, intChanges_of_intOr hstatus]
  refine decide_eq_false ?_
  rintro ⟨hpos, hne⟩
  exact hne ((if_pos hpos).symm.trans hage)

theorem changes_of_updated (h : updated cc up = up) : changes cc up = false :=
  changes_of_configuration (congrArg configuration h)

end Unchanged

section Outcomes

variable {P : Platform} {s u : Server} {con : ClientId} {cid : UInt16} {payload : Bytes}
  {o : Oracle} {c : Command} {buf : CStr} {n m : ℕ}

/-- A SPWN or UPDT that is carried out and changes the tables, with the number of groups that
there are then. -/
inductive Mutates (P : Platform) (r : Registry) (buf : CStr) : Command → ℕ → Prop where
  | spwn {cc : ChildConfig} (parsed : childConfigUnserialize P buf = some cc)
      (accepted : spwnRefusal r cc = none) :
      Mutates P r buf .spwn (r.childConfigList.length + 1)
  | updt {cc : ChildConfig} {g : GroupId} (parsed : childConfigUnserialize P buf = some cc)
      (found : r.childConfigFindByName cc.ccName = some g) (accepted : updtRefusal cc = none)
      (changed : changes cc (r.groups g) = true) : Mutates P r buf .updt r.childConfigList.length

theorem Mutates.unique {r : Registry} (h : Mutates P r buf c n) (k : Mutates P r buf c m) :
    n = m := by
  cases h with
  | spwn =>
    cases k with
    | spwn => rfl
  | updt =>
    cases k with
    | updt => rfl

/-- How SPWN, UPDT and DELE end: without a change, with a change and the reply to it, or with a
change that is not answered by a failure. -/
inductive Outcome (P : Platform) (con : ClientId) (buf : CStr) (c : Command) (s u : Server)
    (rs : List Answer) : Prop where
  | unchanged (reg : u.reg = s.reg) (none : ∀ n, ¬ Mutates P s.reg buf c n)
  | mutated (n : ℕ) (mutates : Mutates P s.reg buf c n) (reg : u.reg ≠ s.reg)
      (replies : rs = statuses con (s.io.cid con) (successReplies P s n "success"))
  | deleted (none : ∀ n, ¬ Mutates P s.reg buf c n)
      (replies : ∀ x ∈ rs, ∀ msg, x.2.2 ≠ .status false msg)

theorem cSpwn_outcome (hl : Linked s.reg) :
    Outcome P con buf .spwn s (cSpwn P s con buf).1
      (statuses con (s.io.cid con) (spwnReplies P s buf)) := by
  cases hcc : childConfigUnserialize P buf with
  | none =>
    refine .unchanged ?_ fun n hn => ?_
    · rw [cSpwn_unparsed hcc]
      rfl
    · cases hn with
      | spwn parsed => cases hcc.symm.trans parsed
  | some cc =>
    cases hok : spwnRefusal s.reg cc with
    | some msg =>
      refine .unchanged ?_ fun n hn => ?_
      · rw [cSpwn_refused hcc hok]
        rfl
      · cases hn with
        | spwn parsed accepted =>
          cases hcc.symm.trans parsed
          cases hok.symm.trans accepted
    | none =>
      refine .mutated _ (.spwn hcc hok) ?_ ?_
      · have hcreated : Created .spwn _ s (cSpwn P s con buf).1 := cSpwn_created P hl hcc hok rfl
        intro he
        have hlen := congrArg List.length hcreated.list
        rw [he, List.length_cons] at hlen
        omega
      · rw [spwnReplies, hcc]
        dsimp only
        rw [hok]

theorem cUpdt_outcome (hl : Linked s.reg) :
    Outcome P con buf .updt s (cUpdt P s con buf).1
      (statuses con (s.io.cid con) (updtReplies P s buf)) := by
  cases hcc : childConfigUnserialize P buf with
  | none =>
    refine .unchanged ?_ fun n hn => ?_
    · rw [cUpdt_unparsed hcc]
      rfl
    · cases hn with
      | updt parsed => cases hcc.symm.trans parsed
  | some cc =>
    cases hg : s.reg.childConfigFindByName cc.ccName with
    | none =>
      refine .unchanged ?_ fun n hn => ?_
      · rw [cUpdt_unknown hcc hg]
        rfl
      · cases hn with
        | updt parsed found =>
          cases hcc.symm.trans parsed
          cases hg.symm.trans found
    | some g =>
      cases hok : updtRefusal cc with
      | some r =>
        refine .unchanged ?_ fun n hn => ?_
        · rw [cUpdt_refused hcc hg hok]
          rfl
        · cases hn with
          | updt parsed _ accepted =>
            cases hcc.symm.trans parsed
            cases hok.symm.trans accepted
      | none =>
        have hreg : (cUpdt P s con buf).1.reg = (updateGroup P cc g s).1.reg := by
          rw [cUpdt_accepted hcc hg hok, announceUpdate_io]
          rfl
        cases hch : changes cc (s.reg.groups g) with
        | false =>
          refine .unchanged ?_ fun n hn => ?_
          · rw [hreg, updateGroup_same hch]
          · cases hn with
            | updt parsed found _ changed =>
              cases hcc.symm.trans parsed
              cases hg.symm.trans found
              cases hch.symm.trans changed
        | true =>
          refine .mutated _ (.updt hcc hg hok hch) ?_ ?_
          · intro he
            have hup := (updateGroup_updated P cc g s hl (hl.find_name hg).1 hok).1.settings
            rw [← hreg, he] at hup
            have hno := changes_of_updated hup.symm
            cases hch.symm.trans hno
          · have hsome : s.reg.childConfigFindByName cc.ccName ≠ none := by
              rw [hg]
              exact Option.some_ne_none g
            rw [updtReplies, hcc]
            dsimp only
            rw [if_neg hsome, hok]

theorem withNamedGroup_unchanged {badName : Bool} {handle : Json → GroupId → Server × Bool}
    (hn : namedGroup P s.reg buf = none) :
    (withNamedGroup P s con buf badName handle).1.reg = s.reg := by
  unfold withNamedGroup
  split
  · rfl
  · rename_i obj hobj
    split
    · rfl
    · rename_i n hname
      split
      · rfl
      · rename_i g hg
        simp [namedGroup, hobj, hname, hg] at hn

/-- The requests that change the registry. -/
def IsMutation (c : Command) : Prop := c = .spwn ∨ c = .updt ∨ c = .dele

theorem runCommand_outcome (con : ClientId) (buf : CStr) (hl : Linked s.reg)
    (hm : IsMutation c) : ∃ rs,
    Answered P rs (ReadsUnset P s.reg buf c) s.io (runCommand P c s con buf).1.io ∧
      Outcome P con buf c s (runCommand P c s con buf).1 rs := by
  rcases hm with rfl | rfl | rfl
  · have hans := (cSpwn_replied (P := P) s con buf).congr
      (iff_of_false not_false (fun h => nomatch h : ¬ ReadsUnset P s.reg buf .spwn))
    exact ⟨_, Answers.answered hans, cSpwn_outcome hl⟩
  · exact ⟨_, Answers.answered (cUpdt_replied hl con buf), cUpdt_outcome hl⟩
  · have hno : ∀ n, ¬ Mutates P s.reg buf .dele n := nofun
    cases hn : namedGroup P s.reg buf with
    | none =>
      obtain ⟨r, hr⟩ : OneReply P con (ReadsUnset P s.reg buf .dele) s (cDele P s con buf).1 :=
        cDele_replied
      exact ⟨_, Answers.answered hr, .unchanged (withNamedGroup_unchanged hn) hno⟩
    | some x =>
      obtain ⟨obj, g⟩ := x
      obtain ⟨pids, hpids⟩ := cDele_found con hn
      refine ⟨_, Answers.answered hpids, .deleted hno fun x hx msg => ?_⟩
      rw [List.mem_singleton] at hx
      rw [hx]
      exact nofun

/-- The request changes the tables and is answered by a dump that is not written. -/
def FailsAfterwards (P : Platform) (s : Server) (buf : CStr) (c : Command) (files : List Bool) :
    Prop :=
  s.autoDump = true ∧ ∃ n, Mutates P s.reg buf c n ∧
    ¬ DumpWritten P s.clock (s.io.dumpCnt + 1) n files

theorem successReplies_failed {msg : String} :
    (∃ text, (false, text) ∈ successReplies P s n msg) ↔
      s.autoDump = true ∧ ¬ DumpWritten P s.clock (s.io.dumpCnt + 1) n s.io.fileResults := by
  unfold successReplies
  by_cases hd : s.autoDump = true
  · rw [if_pos hd, dumpReplies_failed]
    exact (and_iff_right hd).symm
  · rw [if_neg hd]
    refine iff_of_false ?_ fun h => hd h.1
    rintro ⟨_, h⟩
    cases List.mem_singleton.mp h

/-- A failure among the replies means that nothing was changed. -/
def Honest (con : ClientId) (cid : UInt16) (rs : List Answer) (s u : Server) : Prop :=
  (∃ msg, (con, cid, .status false msg) ∈ rs) → u.reg = s.reg

theorem Outcome.honest_iff {rs : List Answer} (h : Outcome P con buf c s u rs) :
    Honest con (s.io.cid con) rs s u ↔ ¬ FailsAfterwards P s buf c s.io.fileResults := by
  cases h with
  | unchanged reg none =>
    refine iff_of_true (fun _ => reg) ?_
    rintro ⟨-, n, hn, -⟩
    exact none n hn
  | mutated n mutates reg replies =>
    have hfailed : FailsAfterwards P s buf c s.io.fileResults ↔
        ∃ text, (false, text) ∈ successReplies P s n "success" := by
      rw [successReplies_failed]
      refine and_congr_right fun _ => ⟨?_, fun h => ⟨n, mutates, h⟩⟩
      rintro ⟨m, hm, h⟩
      rwa [mutates.unique hm]
    rw [hfailed, replies]
    constructor
    · rintro h ⟨msg, hmsg⟩
      exact reg (h ⟨_, List.mem_map.mpr ⟨_, hmsg, rfl⟩⟩)
    · rintro hno ⟨msg, hmsg⟩
      obtain ⟨⟨code, t⟩, ht, he⟩ := List.mem_map.mp hmsg
      have hcode : code = false := by
        have hr := congrArg (fun x : Answer => x.2.2) he
        exact (Reply.status.inj hr).1
      rw [hcode] at ht
      exact absurd ⟨t, ht⟩ hno
  | deleted none replies =>
    refine iff_of_true ?_ ?_
    · rintro ⟨msg, hmsg⟩
      exact absurd rfl (replies _ hmsg msg)
    · rintro ⟨-, n, hn, -⟩
      exact none n hn

/-- When a failure that answers SPWN, UPDT or DELE means that nothing has changed. -/
theorem reachable_honest_iff (h : Reachable P s)
    (hs : Step P s (.callback (.request con cid payload) o) u)
    (hc : findCommand payload = some c) (hm : IsMutation c) :
    Honest con cid (answersOf s u) s u ↔
      ¬ FailsAfterwards P s (CStr.ofBytes (payload.drop 4)) c o.files := by
  have hl : Linked s.reg := ReachableBy.linked h
  obtain ⟨⟨-, -, hcon, -⟩, rfl⟩ := hs
  generalize hx : (install s o).withIo (setCid con cid) = x
  have hreg : x.reg = s.reg := by
    rw [← hx]
    rfl
  have hcid : x.io.cid con = cid := by
    rw [← hx]
    exact setCid_cid hcon cid
  have hflags : x.autoDump = s.autoDump ∧ x.clock = s.clock ∧ x.io.dumpCnt = s.io.dumpCnt ∧
      x.io.fileResults = o.files := by
    rw [← hx]
    exact ⟨rfl, rfl, rfl, rfl⟩
  obtain ⟨hdump, hclock, hcnt, hfiles⟩ := hflags
  have hlx : Linked x.reg := by
    rw [hreg]
    exact hl
  obtain ⟨rs, hans, hout⟩ := runCommand_outcome (P := P) con (CStr.ofBytes (payload.drop 4)) hlx hm
  rw [← hx] at hans
  have hrs := (request_answered hc hans).1
  have hiff := hout.honest_iff
  rw [hcid] at hiff
  unfold FailsAfterwards at hiff ⊢
  rw [hdump, hclock, hcnt, hfiles, hreg] at hiff
  rw [hrs, ← hiff]
  have hsame : (next P s (.callback (.request con cid payload) o)).reg =
      (runCommand P c x con (CStr.ofBytes (payload.drop 4))).1.reg := by
    have hrun : (next P s (.callback (.request con cid payload) o)).reg =
        (runServerCommand P x con payload).reg := by
      rw [← hx]
      rfl
    rw [hrun, runServerCommand, hc]
    dsimp only
    split
    · rfl
    · rfl
  unfold Honest
  rw [hsame, hreg]

/-- A request with a value as its argument, and the results of its file operations. -/
def writing (name : String) (j : Json) (files : List Bool) : Event :=
  .callback (.request 0 1 (text name ++ printJson j)) ⟨[], files, fun _ => none⟩

def stoppedRequest : Json :=
  .object [(text "name", .string (text "web")), (text "args", .array [.string (text "/bin/web")]),
    (text "status", .int 2)]

def dumpingPlatform : Platform := sample [printed stoppedRequest]

/-- A server with `auto_dump` and a client. -/
def dumpingState : Server := next dumpingPlatform (initial true false 0) connecting

theorem dumpingState_reachable : Reachable dumpingPlatform dumpingState := by
  have h : Admits Enabled (next dumpingPlatform) Always (initial true false 0) [connecting] := by
    decide +kernel
  exact ⟨true, false, 0, h.execution⟩

theorem dumpingState_honest_iff :
    Honest 0 1 (answersOf dumpingState (next dumpingPlatform dumpingState
        (writing "SPWN" stoppedRequest [true, true, true, true, true])))
      dumpingState (next dumpingPlatform dumpingState
        (writing "SPWN" stoppedRequest [true, true, true, true, true])) ↔
      ¬ FailsAfterwards dumpingPlatform dumpingState
        (CStr.ofBytes ((text "SPWN" ++ printJson stoppedRequest).drop 4)) .spwn
        [true, true, true, true, true] := by
  have hen :
      Enabled dumpingState (writing "SPWN" stoppedRequest [true, true, true, true, true]) := by
    decide +kernel
  have hc : findCommand (text "SPWN" ++ printJson stoppedRequest) = some .spwn := by
    decide +kernel
  exact reachable_honest_iff dumpingState_reachable ⟨hen, rfl⟩ hc (.inl rfl)

/-- `fopen` fails: the group is there, and the reply is a failure. -/
theorem dumpingState_dishonest : ¬ ∀ (P : Platform) (s u : Server) (con : ClientId)
    (cid : UInt16) (payload : Bytes) (o : Oracle) (c : Command), Reachable P s →
    Step P s (.callback (.request con cid payload) o) u → findCommand payload = some c →
    IsMutation c → Honest con cid (answersOf s u) s u := by
  intro h
  have hen : Enabled dumpingState (writing "SPWN" stoppedRequest [false]) := by decide +kernel
  have hc : findCommand (text "SPWN" ++ printJson stoppedRequest) = some .spwn := by
    decide +kernel
  have hreg := h dumpingPlatform dumpingState _ 0 1 _ _ .spwn dumpingState_reachable ⟨hen, rfl⟩ hc
    (.inl rfl) ⟨text "failure", by decide +kernel⟩
  have hlist := congrArg Registry.childConfigList hreg
  revert hlist
  decide +kernel

end Outcomes

end UbervisorRefusals
