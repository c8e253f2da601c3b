import Ubervisor.Answers
import Ubervisor.JsonC

/-! # Replies

Which replies the handlers queue. Each queues one, apart from a dump whose closing line is not
written: it reports the failure and goes on. -/
namespace UbervisorReplies

open UbervisorRuns
open UbervisorValues
open UbervisorChildConfigs
open UbervisorKernel
open UbervisorRegistry
open UbervisorChunks
open UbervisorReadCallback (Command findCommand)
open UbervisorServer
open UbervisorCommands
open UbervisorEvents
open UbervisorSupervision
open UbervisorSlots
open UbervisorUpdates
open UbervisorEffects
open UbervisorOutputs
open UbervisorTranscripts
open UbervisorAnswers
open UbervisorJsonC

section Dumps

variable {P : Platform} {t : ℤ} {cnt n : ℕ} {fs : List Bool} {rs : List Answer} {w : Prop}
  {io io' io'' : Io} {con : ClientId}

/-- The next `n` file operations succeed. -/
def allOk : ℕ → List Bool → Bool
  | 0, _ => true
  | n + 1, fs => fs.headD false && allOk n fs.tail

def dumpTmpName (P : Platform) (t : ℤ) (cnt : ℕ) : Bytes :=
  text "tmp." ++ (text "uberdump_" ++ natText cnt ++ text "_" ++ intText P.euid ++ text "_" ++
    P.dumpTime t)

/-- The file of a dump of `n` groups is opened, and the groups are written to it. The results
are those of `fopen`, of the opening line, which is not looked at, and of the groups. -/
def GroupsWritten (P : Platform) (t : ℤ) (cnt n : ℕ) (fs : List Bool) : Prop :=
  (dumpTmpName P t cnt).length < pathMax ∧ fs.headD false = true ∧ allOk n (fs.drop 2) = true

instance : Decidable (GroupsWritten P t cnt n fs) := inferInstanceAs (Decidable (_ ∧ _))

/-- After the groups come the closing line and `link`. -/
def dumpReplies (P : Platform) (t : ℤ) (cnt n : ℕ) (fs : List Bool) : List (Bool × String) :=
  if GroupsWritten P t cnt n fs then
    (if (fs.drop (n + 2)).headD false then [] else [(false, "failure")]) ++
      [if (fs.drop (n + 3)).headD false then (true, "dump successful.") else (false, "failure.")]
  else [(false, "failure")]

/-- Replies to the request `cid` of a client. -/
def statuses (con : ClientId) (cid : UInt16) (l : List (Bool × String)) : List Answer :=
  l.map fun r => (con, cid, .status r.1 (text r.2))

theorem allOk_succ (n : ℕ) (fs : List Bool) :
    allOk (n + 1) fs = (allOk n fs && (fs.drop n).headD false) := by
  induction n generalizing fs with
  | zero => simp [allOk]
  | succ n ih =>
    rw [allOk, ih, allOk, Bool.and_assoc, List.drop_tail]

theorem drop_two (fs : List Bool) : fs.drop 2 = fs.tail.tail := by
  rcases fs with _ | ⟨_, _ | ⟨_, fs⟩⟩ <;> rfl

theorem dumpGroups_answers (l : List ChildConfig) (h : Answers P rs w io io') :
    Answers P rs w io (io'.dumpGroups P l).2 ∧
      (io'.dumpGroups P l).1 = allOk l.length io'.fileResults ∧
      ((io'.dumpGroups P l).1 = true →
        (io'.dumpGroups P l).2.fileResults = io'.fileResults.drop l.length) := by
  induction l generalizing io' with
  | nil => exact ⟨h, rfl, fun _ => rfl⟩
  | cons cc l ih =>
    have hline := h.fprintf (P.jsonPrint (childConfigSerialize cc) ++ text ",\n")
    obtain ⟨hl, hok, hfiles⟩ := ih hline
    unfold Io.dumpGroups
    rw [List.length_cons, allOk]
    cases hhead : io'.fileResults.headD false with
    | false =>
      have hfst : (io'.fprintf (P.jsonPrint (childConfigSerialize cc) ++ text ",\n")).1 = false :=
        hhead
      dsimp only
      rw [hfst]
      exact ⟨hline, rfl, fun h => absurd h Bool.false_ne_true⟩
    | true =>
      have hfst : (io'.fprintf (P.jsonPrint (childConfigSerialize cc) ++ text ",\n")).1 = true :=
        hhead
      dsimp only
      rw [hfst]
      refine ⟨hl, hok, fun hd => (hfiles hd).trans ?_⟩
      exact List.drop_tail

theorem statuses_append (con : ClientId) (cid : UInt16) (l m : List (Bool × String)) :
    statuses con cid (l ++ m) = statuses con cid l ++ statuses con cid m := List.map_append

/-- What is left of a dump once the groups are written. -/
theorem closing_answers (h : Answers P rs w io io') (con : ClientId) (src dst : Bytes) :
    let line := io'.fprintf (text "]\n")
    let io₁ := if line.1 then line.2 else (line.2.emit .fclose).sendStatusMsg P con false "failure"
    let linked := (io₁.emit .fclose).fileResult
    Answers P (rs ++ statuses con (io.cid con)
        ((if io'.fileResults.headD false then [] else [(false, "failure")]) ++
          [if io'.fileResults.tail.headD false then (true, "dump successful.")
            else (false, "failure.")]))
      w io (if !linked.1 then linked.2.sendStatusMsg P con false "failure."
        else ((linked.2.emit (.link src dst)).emit (.unlink src)).sendStatusMsg P con true
          "dump successful.") := by
  intro line io₁ linked
  have hline : Answers P rs w io line.2 := h.fprintf _
  have hfst : line.1 = io'.fileResults.headD false := rfl
  have hclosed : Answers P (rs ++ statuses con (io.cid con)
      (if io'.fileResults.headD false then [] else [(false, "failure")])) w io io₁ ∧
      io₁.fileResults = io'.fileResults.tail := by
    cases hok : io'.fileResults.headD false with
    | true =>
      have hsame : io₁ = line.2 := if_pos (hfst.trans hok)
      rw [hsame, if_pos rfl]
      refine ⟨?_, rfl⟩
      rw [statuses, List.map_nil, List.append_nil]
      exact hline
    | false =>
      have hfailed : io₁ = (line.2.emit .fclose).sendStatusMsg P con false "failure" :=
        if_neg (by rw [hfst, hok]; decide)
      rw [hfailed, if_neg (by decide)]
      exact ⟨(hline.emit .fclose rfl nofun).status con false "failure", rfl⟩
  obtain ⟨hclosed, hfiles⟩ := hclosed
  generalize (if io'.fileResults.headD false then ([] : List (Bool × String)) else
    [(false, "failure")]) = ls at hclosed ⊢
  have hlinked : Answers P _ w io linked.2 :=
    (hclosed.emit .fclose rfl nofun).same rfl rfl rfl
  have hlast : linked.1 = io'.fileResults.tail.headD false := by
    rw [← hfiles]
    rfl
  rw [statuses_append, ← List.append_assoc]
  rw [hlast]
  cases io'.fileResults.tail.headD false with
  | true =>
    exact ((hlinked.emit (.link src dst) rfl nofun).emit (.unlink src) rfl nofun).status con true
      "dump successful."
  | false => exact hlinked.status con false "failure."

theorem cDump_answers (h : Answers P rs w io io') (groups : List ChildConfig)
    (con : ClientId) : Answers P (rs ++ statuses con (io.cid con)
        (dumpReplies P t (io'.dumpCnt + 1) groups.length io'.fileResults))
      w io (io'.cDump P t groups con) := by
  have hlen : (dumpTmpName P t (io'.dumpCnt + 1)).length =
      (text "uberdump_" ++ natText (io'.dumpCnt + 1) ++ text "_" ++ intText P.euid ++ text "_" ++
        P.dumpTime t).length + 4 := by
    rw [dumpTmpName, List.length_append, Nat.add_comm]
    rfl
  have hcount : Answers P rs w io { io' with dumpCnt := io'.dumpCnt + 1 } := .same h rfl rfl rfl
  have hfailed : ¬ GroupsWritten P t (io'.dumpCnt + 1) groups.length io'.fileResults →
      dumpReplies P t (io'.dumpCnt + 1) groups.length io'.fileResults = [(false, "failure")] :=
    fun hno => if_neg hno
  have hunfold : text "tmp." ++ (text "uberdump_" ++ natText (io'.dumpCnt + 1) ++ text "_" ++
      intText P.euid ++ text "_" ++ P.dumpTime t) = dumpTmpName P t (io'.dumpCnt + 1) := rfl
  unfold Io.cDump
  dsimp only
  rw [hunfold]
  by_cases hname : pathMax ≤ (dumpTmpName P t (io'.dumpCnt + 1)).length
  · rw [hfailed fun hw => absurd hw.1 (not_lt.mpr hname)]
    split
    · exact hcount.status con false "failure"
    · exact hcount.status con false "failure"
  rw [if_neg (by omega), if_neg hname]
  generalize hopen : ({ io' with dumpCnt := io'.dumpCnt + 1 } : Io).fileResult = r
  obtain ⟨ok, x⟩ := r
  obtain ⟨hok, hx⟩ := Prod.mk.inj hopen
  have hopened : Answers P rs w io x := by
    rw [← hx]
    exact hcount.same rfl rfl rfl
  dsimp only
  cases ok with
  | false =>
    rw [hfailed fun hw => absurd (hok.symm.trans hw.2.1) (by decide)]
    exact hopened.status con false "failure"
  | true =>
    rw [if_neg (by decide : ¬ (!true) = true)]
    generalize hstart : ((x.emit _).fprintf (text "[\n")).2 = y
    have hstarted : Answers P rs w io y := by
      rw [← hstart]
      exact (hopened.emit (.fopen _) rfl nofun).fprintf _
    have hyfiles : y.fileResults = io'.fileResults.drop 2 := by
      rw [← hstart, ← hx, drop_two]
      rfl
    obtain ⟨hgroups, hall, hfiles⟩ := dumpGroups_answers groups hstarted
    generalize y.dumpGroups P groups = d at hgroups hall hfiles
    obtain ⟨ok, z⟩ := d
    dsimp only at hgroups hall hfiles ⊢
    rw [hyfiles] at hall hfiles
    cases ok with
    | false =>
      rw [hfailed fun hw => absurd (hall.trans hw.2.2) (by decide)]
      exact (hgroups.emit .fclose rfl nofun).status con false "failure"
    | true =>
      have hwritten : GroupsWritten P t (io'.dumpCnt + 1) groups.length io'.fileResults :=
        ⟨not_le.mp hname, hok, hall.symm⟩
      have hclose := closing_answers hgroups con
      rw [if_neg (by decide : ¬ (!true) = true), dumpReplies, if_pos hwritten]
      rw [hfiles rfl, List.drop_drop, List.tail_drop, Nat.add_comm 2] at hclose
      exact hclose _ _

/-- The closing line of a dump is not written, after all the groups were. -/
def ClosingFails (P : Platform) (t : ℤ) (cnt n : ℕ) (fs : List Bool) : Prop :=
  GroupsWritten P t cnt n fs ∧ (fs.drop (n + 2)).headD false = false

/-- The whole dump is written and linked under its name. -/
def DumpWritten (P : Platform) (t : ℤ) (cnt n : ℕ) (fs : List Bool) : Prop :=
  (dumpTmpName P t cnt).length < pathMax ∧ fs.headD false = true ∧
    allOk (n + 2) (fs.drop 2) = true

theorem dumpReplies_one : (dumpReplies P t cnt n fs).length = 1 ↔ ¬ ClosingFails P t cnt n fs := by
  unfold dumpReplies ClosingFails
  by_cases hw : GroupsWritten P t cnt n fs
  · rw [if_pos hw]
    cases (fs.drop (n + 2)).headD false with
    | true => simp
    | false => simp [hw]
  · rw [if_neg hw]
    simp [hw]

theorem dumpReplies_ne_nil : dumpReplies P t cnt n fs ≠ [] := by
  unfold dumpReplies
  split <;> simp

theorem dumpReplies_failed :
    (∃ msg, (false, msg) ∈ dumpReplies P t cnt n fs) ↔ ¬ DumpWritten P t cnt n fs := by
  have hlast : allOk (n + 2) (fs.drop 2) =
      (allOk n (fs.drop 2) && (fs.drop (n + 2)).headD false && (fs.drop (n + 3)).headD false) := by
    rw [allOk_succ, allOk_succ, List.drop_drop, List.drop_drop, Nat.add_comm 2, Nat.add_comm 2]
  unfold dumpReplies DumpWritten
  rw [hlast]
  by_cases hw : GroupsWritten P t cnt n fs
  · rw [if_pos hw]
    obtain ⟨hname, hopen, hgroups⟩ := hw
    rw [List.headD_eq_head?_getD] at hopen
    cases (fs.drop (n + 2)).headD false <;> cases (fs.drop (n + 3)).headD false <;>
      simp [hname, hopen, hgroups]
  · rw [if_neg hw]
    refine iff_of_true ⟨_, List.mem_singleton_self _⟩ ?_
    rintro ⟨hname, hopen, hall⟩
    rw [Bool.and_eq_true, Bool.and_eq_true] at hall
    exact hw ⟨hname, hopen, hall.1.1⟩

end Dumps

section Handlers

variable {P : Platform} {s u x : Server} {con : ClientId} {buf : CStr} {rs : List Answer}
  {w : Prop}

/-- The replies of SPWN, UPDT and EXIT once they are carried out, with `n` groups. -/
def successReplies (P : Platform) (s : Server) (n : ℕ) (msg : String) : List (Bool × String) :=
  if s.autoDump then dumpReplies P s.clock (s.io.dumpCnt + 1) n s.io.fileResults
  else [(true, msg)]

def exitReplies (P : Platform) (s : Server) : List (Bool × String) :=
  if s.allowExit then successReplies P s s.reg.childConfigList.length "exiting"
  else [(false, "prohibited")]

def spwnReplies (P : Platform) (s : Server) (buf : CStr) : List (Bool × String) :=
  match childConfigUnserialize P buf with
  | none => [(false, "failure")]
  | some cc =>
    match spwnRefusal s.reg cc with
    | some msg => [(false, msg)]
    | none => successReplies P s (s.reg.childConfigList.length + 1) "success"

def updtReplies (P : Platform) (s : Server) (buf : CStr) : List (Bool × String) :=
  match childConfigUnserialize P buf with
  | none => [(false, "failure")]
  | some cc =>
    if s.reg.childConfigFindByName cc.ccName = none then [(false, "not found")]
    else
      match updtRefusal cc with
      | some (code, msg) => [(code, msg)]
      | none => successReplies P s s.reg.childConfigList.length "success"

/-- A request that reads a slot which was never assigned. -/
inductive ReadsUnset (P : Platform) (r : Registry) (buf : CStr) : Command → Prop where
  | pids {obj : Json} {g : GroupId} (found : namedGroup P r buf = some (obj, g))
      (unset : (r.groups g).hasUnset = true) : ReadsUnset P r buf .pids
  | dele {obj : Json} {g : GroupId} (found : namedGroup P r buf = some (obj, g))
      (unset : (r.groups g).hasUnset = true) : ReadsUnset P r buf .dele
  | kill {obj : Json} {g : GroupId} (found : namedGroup P r buf = some (obj, g))
      (unset : killReadsUnset (r.groups g) (killIndex obj) = true) : ReadsUnset P r buf .kill
  | updt {cc : ChildConfig} {g : GroupId} (parsed : childConfigUnserialize P buf = some cc)
      (found : r.childConfigFindByName cc.ccName = some g) (accepted : updtRefusal cc = none)
      (unset : UpdtReadsUnset cc (r.groups g)) : ReadsUnset P r buf .updt

/-- One reply to the request in hand. -/
def OneReply (P : Platform) (con : ClientId) (w : Prop) (s u : Server) : Prop :=
  ∃ r, Answers P [(con, s.io.cid con, r)] w s.io u.io

theorem Quiet.replied (h : Quiet P w s.io u.io) (con : ClientId) (r : Reply) :
    Answers P [(con, s.io.cid con, r)] w s.io (sendReply P u con r).io := by
  have hreply : Answers P _ False u.io (sendReply P u con r).io := .reply con r
  have hall := Answers.before h hreply
  rwa [h.answers.cid] at hall

theorem refused (s : Server) (con : ClientId) (code : Bool) (msg : String) (hw : ¬ w) :
    Answers P [(con, s.io.cid con, .status code (text msg))] w s.io
      (sendStatusMsg P s con code msg).io :=
  (Answers.reply con _).congr (iff_of_false not_false hw)

theorem withNamedGroup_replied {badName : Bool} {handle : Json → GroupId → Server × Bool}
    (hfound : ∀ obj g, namedGroup P s.reg buf = some (obj, g) →
      OneReply P con w s (handle obj g).1)
    (hw : namedGroup P s.reg buf = none → ¬ w) :
    OneReply P con w s (withNamedGroup P s con buf badName handle).1 := by
  cases hn : namedGroup P s.reg buf with
  | some x =>
    obtain ⟨obj, g⟩ := x
    rw [withNamedGroup_found hn]
    exact hfound obj g hn
  | none =>
    have hno := hw hn
    unfold withNamedGroup
    split
    · exact ⟨_, refused s con false "failure" hno⟩
    · rename_i obj hobj
      split
      · exact ⟨_, refused s con false "failure" hno⟩
      · rename_i n hname
        split
        · exact ⟨_, refused s con false "name not found" hno⟩
        · rename_i g hg
          simp [namedGroup, hobj, hname, hg] at hn

theorem cGetc_replied : OneReply P con (ReadsUnset P s.reg buf .getc) s (cGetc P s con buf).1 := by
  refine withNamedGroup_replied (fun obj g _ => ?_) fun _ => nofun
  exact ⟨_, Quiet.replied (Quiet.refl.congr (iff_of_false not_false nofun)) con _⟩

theorem readsUnset_found {obj : Json} {g : GroupId}
    (hn : namedGroup P s.reg buf = some (obj, g)) :
    (ReadsUnset P s.reg buf .pids ↔ (s.reg.groups g).hasUnset = true) ∧
      (ReadsUnset P s.reg buf .dele ↔ (s.reg.groups g).hasUnset = true) ∧
      (ReadsUnset P s.reg buf .kill ↔
        killReadsUnset (s.reg.groups g) (killIndex obj) = true) := by
  refine ⟨⟨fun h => ?_, .pids hn⟩, ⟨fun h => ?_, .dele hn⟩, ⟨fun h => ?_, .kill hn⟩⟩
  · cases h with
    | pids found unset =>
      cases hn.symm.trans found
      exact unset
  · cases h with
    | dele found unset =>
      cases hn.symm.trans found
      exact unset
  · cases h with
    | kill found unset =>
      cases hn.symm.trans found
      exact unset

theorem readsUnset_missing {c : Command} (hc : c ≠ .updt) (hn : namedGroup P s.reg buf = none) :
    ¬ ReadsUnset P s.reg buf c := by
  intro h
  cases h with
  | pids found _ => cases hn.symm.trans found
  | dele found _ => cases hn.symm.trans found
  | kill found _ => cases hn.symm.trans found
  | updt => exact hc rfl

theorem cPids_replied : OneReply P con (ReadsUnset P s.reg buf .pids) s (cPids P s con buf).1 := by
  refine withNamedGroup_replied (fun obj g hn => ?_) (readsUnset_missing (by decide))
  exact ⟨_, Quiet.replied ((noteUnset_quiet s _).congr (readsUnset_found hn).1.symm) con _⟩

theorem logged_quiet (x : Server) (msg : Bytes) (unset : Bool) :
    Quiet P (unset = true) x.io (noteUnset (slog P x msg) unset).io :=
  (slog_quiet x msg).before (noteUnset_quiet _ unset)

theorem cKill_replied : OneReply P con (ReadsUnset P s.reg buf .kill) s (cKill P s con buf).1 := by
  refine withNamedGroup_replied (fun obj g hn => ?_) (readsUnset_missing (by decide))
  have hread := fun msg => logged_quiet (P := P) s msg
    (killReadsUnset (s.reg.groups g) (killIndex obj))
  exact ⟨_, Quiet.replied (((hread _).after (killAll_quiet _ _ _)).congr
    (readsUnset_found hn).2.2.symm) con _⟩

/-- DELE replies pids when it finds the group. -/
theorem cDele_found (con : ClientId) {obj : Json} {g : GroupId}
    (hn : namedGroup P s.reg buf = some (obj, g)) :
    ∃ pids, Answers P [(con, s.io.cid con, .pids pids)] (ReadsUnset P s.reg buf .dele) s.io
      (cDele P s con buf).1.io := by
  rw [cDele, withNamedGroup_found hn]
  have hread := fun msg => logged_quiet (P := P) (s.withReg fun r => r.childConfigRemove g) msg
    (s.reg.groups g).hasUnset
  have hnoted : ∀ (y : Server) (n : Notification), Quiet P False y.io (y.io.notify P n) :=
    fun y n => .notify n
  exact ⟨_, Quiet.replied (((hread _).after (hnoted _ _)).congr (readsUnset_found hn).2.1.symm)
    con _⟩

theorem cDele_replied : OneReply P con (ReadsUnset P s.reg buf .dele) s (cDele P s con buf).1 := by
  refine withNamedGroup_replied (fun obj g hn => ?_) (readsUnset_missing (by decide))
  obtain ⟨pids, hpids⟩ := cDele_found con hn
  rw [cDele, withNamedGroup_found hn] at hpids
  exact ⟨_, hpids⟩

theorem cRead_replied : OneReply P con (ReadsUnset P s.reg buf .read) s (cRead P s con buf).1 := by
  have hno : ¬ ReadsUnset P s.reg buf .read := nofun
  have hok : ∀ r, OneReply P con (ReadsUnset P s.reg buf .read) s (sendReply P s con r) :=
    fun r => ⟨r, Quiet.replied (Quiet.refl.congr (iff_of_false not_false hno)) con r⟩
  unfold cRead
  dsimp only
  split
  · exact hok _
  · split
    · split
      · exact hok _
      · split
        · exact hok _
        · split
          · exact hok _
          · split
            · exact hok _
            · split
              · exact hok _
              · exact hok _
              · exact hok _
    · exact hok _

theorem sendSuccess_answers (hq : Quiet P w s.io x.io) (hf : x.autoDump = s.autoDump)
    (hc : x.clock = s.clock) (con : ClientId) (msg : String) :
    Answers P (statuses con (s.io.cid con)
        (successReplies P s x.reg.childConfigList.length msg))
      w s.io (sendSuccess P x con msg).io := by
  unfold successReplies sendSuccess
  rw [Server.withIo_io, hf]
  split
  · have hdump := cDump_answers (t := x.clock) hq.answers
      (x.reg.childConfigList.map x.reg.groups) con
    rw [List.length_map, hc, hq.dumps, hq.files, List.nil_append] at hdump
    rw [hc]
    exact hdump
  · exact hq.answers.status con true msg

theorem cDump_replied (s : Server) (con : ClientId) :
    Answers P (statuses con (s.io.cid con) (dumpReplies P s.clock (s.io.dumpCnt + 1)
        s.reg.childConfigList.length s.io.fileResults))
      False s.io (UbervisorServer.cDump P s con).io := by
  have hstart : Answers P [] False s.io s.io := Quiet.refl.answers
  have hdump := cDump_answers (t := s.clock) hstart (s.reg.childConfigList.map s.reg.groups) con
  rw [List.length_map, List.nil_append] at hdump
  exact hdump

theorem cExit_replied (s : Server) (con : ClientId) :
    Answers P (statuses con (s.io.cid con) (exitReplies P s)) False s.io (cExit P s con).1.io := by
  unfold cExit exitReplies
  cases s.allowExit with
  | false => exact .reply con _
  | true => exact (sendSuccess_answers .refl rfl rfl con "exiting").after (slog_quiet _ _)

theorem cSpwn_replied (s : Server) (con : ClientId) (buf : CStr) :
    Answers P (statuses con (s.io.cid con) (spwnReplies P s buf)) False s.io
      (cSpwn P s con buf).1.io := by
  unfold spwnReplies
  cases hcc : childConfigUnserialize P buf with
  | none =>
    rw [cSpwn_unparsed hcc]
    exact .reply con _
  | some cc =>
    dsimp only
    cases hok : spwnRefusal s.reg cc with
    | some msg =>
      rw [cSpwn_refused hcc hok]
      exact .reply con _
    | none =>
      rw [cSpwn_accepted hcc hok rfl]
      dsimp only
      generalize (if cc.ccInstances = -1 then 1 else cc.ccInstances) = n
      generalize hx : insertGroup s (withSlots cc n) = x
      have hio : Quiet P False s.io x.io := by
        rw [← hx]
        exact .refl
      have hcount : x.reg.childConfigList.length = s.reg.childConfigList.length + 1 := by
        rw [← hx]
        rfl
      have hsame : x.autoDump = s.autoDump ∧ x.clock = s.clock := by
        rw [← hx]
        exact ⟨rfl, rfl⟩
      have hsent := sendSuccess_answers hio hsame.1 hsame.2 con "success"
      rw [hcount] at hsent
      have hnoted : Answers P (statuses con (s.io.cid con)
          (successReplies P s (s.reg.childConfigList.length + 1) "success")) False s.io
          (announceGroup P s con cc n).io := by
        unfold announceGroup
        rw [hx]
        exact ((hsent.after (slog_quiet _ _)).after (.notify _)).after (.notify _)
      split
      · exact hnoted.after (spawnRange_quiet .spwn _ s.reg.nextGroup 0 _)
      · exact hnoted

theorem cUpdt_replied (hl : Linked s.reg) (con : ClientId) (buf : CStr) :
    Answers P (statuses con (s.io.cid con) (updtReplies P s buf)) (ReadsUnset P s.reg buf .updt)
      s.io (cUpdt P s con buf).1.io := by
  unfold updtReplies
  cases hcc : childConfigUnserialize P buf with
  | none =>
    have hno : ¬ ReadsUnset P s.reg buf .updt := by
      intro h
      cases h with
      | updt parsed => cases hcc.symm.trans parsed
    have hlog := (slog_quiet (P := P) s (text "[update] parse error\n")).answers
    rw [cUpdt_unparsed hcc]
    exact (hlog.status con false "failure").congr (iff_of_false not_false hno)
  | some cc =>
    dsimp only
    cases hg : s.reg.childConfigFindByName cc.ccName with
    | none =>
      have hno : ¬ ReadsUnset P s.reg buf .updt := by
        intro h
        cases h with
        | updt parsed found =>
          cases hcc.symm.trans parsed
          cases hg.symm.trans found
      rw [if_pos rfl, cUpdt_unknown hcc hg]
      exact (Answers.reply con _).congr (iff_of_false not_false hno)
    | some g =>
      rw [if_neg nofun]
      cases hok : updtRefusal cc with
      | some r =>
        have hno : ¬ ReadsUnset P s.reg buf .updt := by
          intro h
          cases h with
          | updt parsed found accepted =>
            cases hcc.symm.trans parsed
            cases hok.symm.trans accepted
        rw [cUpdt_refused hcc hg hok]
        exact (Answers.reply con _).congr (iff_of_false not_false hno)
      | none =>
        have hread : UpdtReadsUnset cc (s.reg.groups g) ↔ ReadsUnset P s.reg buf .updt := by
          constructor
          · exact .updt hcc hg hok
          · intro h
            cases h with
            | updt parsed found accepted unset =>
              cases hcc.symm.trans parsed
              cases hg.symm.trans found
              exact unset
        have hgl := (hl.find_name hg).1
        have hquiet := (updateGroup_quiet (P := P) s hl hgl hok).congr hread
        have hflags := updateGroup_flags (P := P) cc g s
        have hup := (updateGroup_updated P cc g s hl hgl hok).1
        rw [cUpdt_accepted hcc hg hok, announceUpdate_io]
        generalize updateGroup P cc g s = v at hquiet hflags hup ⊢
        obtain ⟨v, changed⟩ := v
        dsimp only at hquiet hflags hup
        have hnoted : Quiet P (ReadsUnset P s.reg buf .updt) s.io (v.withIo fun io =>
            if changed then io.notify P (.groupCfg (v.reg.groups g)) else io).io := by
          cases changed with
          | false => exact hquiet
          | true => exact hquiet.after (.notify _)
        have hsent := sendSuccess_answers hnoted hflags.autoDump hup.concerns.clock con "success"
        change Answers P (statuses con (s.io.cid con)
          (successReplies P s v.reg.childConfigList.length "success")) _ _ _ at hsent
        rw [hup.list] at hsent
        exact hsent

/-- As `Answers`, for a handler that may change who is subscribed. -/
def Answered (P : Platform) (rs : List Answer) (w : Prop) (io io' : Io) : Prop :=
  ∃ l, io'.out = io.out ++ l ∧
    io'.clients = grown (fun con => l.flatMap (bytesTo P io.subscriptions con)) io.clients ∧
    l.filterMap answerOf = rs ∧ (.wild ∈ l ↔ w)

theorem Answers.answered (h : Answers P rs w s.io u.io) : Answered P rs w s.io u.io := by
  obtain ⟨l, hl, hrs, hw⟩ := h
  exact ⟨l, hl.out, hl.clients, hrs, hw⟩

theorem cSubs_replied (s : Server) (con : ClientId) (buf : CStr) :
    ∃ r, Answered P [(con, s.io.cid con, r)] (ReadsUnset P s.reg buf .subs) s.io
      (cSubs P s con buf).1.io := by
  have hno : ¬ ReadsUnset P s.reg buf .subs := nofun
  have hsent : ∀ (x : Server) (code : Bool) (msg : String), x.io.out = s.io.out →
      x.io.clients = s.io.clients → ∃ r, Answered P [(con, s.io.cid con, r)]
        (ReadsUnset P s.reg buf .subs) s.io (sendStatusMsg P x con code msg).io := by
    intro x code msg ho hc
    have hcid : x.io.cid con = s.io.cid con := by rw [Io.cid, hc, Io.cid]
    have hw : Writes P _ x.io (sendStatusMsg P x con code msg).io :=
      .reply con (.status code (text msg))
    have hclients := hw.clients
    rw [hc, hcid] at hclients
    have hout := hw.out
    rw [ho, hcid] at hout
    exact ⟨_, _, hout, hclients, rfl, iff_of_false (by simp) hno⟩
  unfold cSubs
  split
  · exact hsent s _ _ rfl rfl
  · split
    · exact hsent s _ _ rfl rfl
    · exact hsent (s.withIo _) _ _ rfl rfl

/-- The request ends with a dump of `n` groups. -/
inductive Dumps (P : Platform) (s : Server) (buf : CStr) : Command → ℕ → Prop where
  | dump : Dumps P s buf .dump s.reg.childConfigList.length
  | exit (allowed : s.allowExit = true) (dumps : s.autoDump = true) :
      Dumps P s buf .exit s.reg.childConfigList.length
  | spwn {cc : ChildConfig} (parsed : childConfigUnserialize P buf = some cc)
      (accepted : spwnRefusal s.reg cc = none) (dumps : s.autoDump = true) :
      Dumps P s buf .spwn (s.reg.childConfigList.length + 1)
  | updt {cc : ChildConfig} {g : GroupId} (parsed : childConfigUnserialize P buf = some cc)
      (found : s.reg.childConfigFindByName cc.ccName = some g) (accepted : updtRefusal cc = none)
      (dumps : s.autoDump = true) : Dumps P s buf .updt s.reg.childConfigList.length

/-- The request ends with a dump that is reported twice. -/
def DumpedTwice (P : Platform) (s : Server) (buf : CStr) (c : Command) (fs : List Bool) : Prop :=
  ∃ n, Dumps P s buf c n ∧ ClosingFails P s.clock (s.io.dumpCnt + 1) n fs

/-- The replies to the request in hand. They are two when its dump is reported twice. -/
structure Replied (P : Platform) (con : ClientId) (buf : CStr) (c : Command) (s u : Server)
    (rs : List Answer) : Prop where
  answered : Answered P rs (ReadsUnset P s.reg buf c) s.io u.io
  addressed : ∀ x ∈ rs, x.1 = con ∧ x.2.1 = s.io.cid con
  nonempty : rs ≠ []
  one : rs.length = 1 ↔ ¬ DumpedTwice P s buf c s.io.fileResults

theorem Replied.single {c : Command} {r : Reply}
    (h : Answered P [(con, s.io.cid con, r)] (ReadsUnset P s.reg buf c) s.io u.io)
    (hno : ∀ n, ¬ Dumps P s buf c n) : Replied P con buf c s u [(con, s.io.cid con, r)] where
  answered := h
  addressed x hx := by
    rw [List.mem_singleton] at hx
    rw [hx]
    exact ⟨rfl, rfl⟩
  nonempty := List.cons_ne_nil _ _
  one := iff_of_true rfl fun ⟨n, hn, _⟩ => hno n hn

theorem Replied.ofStatuses {c : Command} {l : List (Bool × String)}
    (h : Answers P (statuses con (s.io.cid con) l) (ReadsUnset P s.reg buf c) s.io u.io)
    (hne : l ≠ []) (hone : l.length = 1 ↔ ¬ DumpedTwice P s buf c s.io.fileResults) :
    Replied P con buf c s u (statuses con (s.io.cid con) l) where
  answered := Answers.answered h
  addressed x hx := by
    obtain ⟨r, -, rfl⟩ := List.mem_map.mp hx
    exact ⟨rfl, rfl⟩
  nonempty := by
    rwa [statuses, Ne, List.map_eq_nil_iff]
  one := by
    rw [statuses, List.length_map]
    exact hone

theorem successReplies_ne_nil {n : ℕ} {msg : String} : successReplies P s n msg ≠ [] := by
  unfold successReplies
  split
  · exact dumpReplies_ne_nil
  · exact List.cons_ne_nil _ _

theorem successReplies_one {n : ℕ} {msg : String} :
    (successReplies P s n msg).length = 1 ↔
      ¬ (s.autoDump = true ∧ ClosingFails P s.clock (s.io.dumpCnt + 1) n s.io.fileResults) := by
  unfold successReplies
  split
  · rename_i hd
    rw [dumpReplies_one]
    simp only [hd, true_and]
  · rename_i hd
    exact iff_of_true rfl fun h => hd h.1

theorem cDump_one (s : Server) (con : ClientId) (buf : CStr) :
    ∃ rs, Replied P con buf .dump s (UbervisorServer.cDump P s con) rs := by
  have hdump := cDump_replied (P := P) s con
  refine ⟨_, .ofStatuses (hdump.congr (iff_of_false not_false nofun)) dumpReplies_ne_nil ?_⟩
  rw [dumpReplies_one]
  refine not_congr ⟨fun h => ⟨_, .dump, h⟩, ?_⟩
  rintro ⟨n, hn, h⟩
  cases hn
  exact h

theorem cExit_one (s : Server) (con : ClientId) (buf : CStr) :
    ∃ rs, Replied P con buf .exit s (cExit P s con).1 rs := by
  have hexit := cExit_replied (P := P) s con
  unfold exitReplies at hexit
  by_cases ha : s.allowExit = true
  · rw [if_pos ha] at hexit
    refine ⟨_, .ofStatuses (hexit.congr (iff_of_false not_false nofun)) successReplies_ne_nil ?_⟩
    rw [successReplies_one]
    refine not_congr ⟨fun h => ⟨_, .exit ha h.1, h.2⟩, ?_⟩
    rintro ⟨n, hn, h⟩
    cases hn with
    | exit _ hd => exact ⟨hd, h⟩
  · rw [if_neg ha] at hexit
    have hno : ¬ ReadsUnset P s.reg buf .exit := nofun
    have hrefused := Answers.answered (hexit.congr (iff_of_false not_false hno))
    refine ⟨_, .single hrefused fun n hn => ?_⟩
    cases hn with
    | exit hallowed => exact ha hallowed

theorem cSpwn_one (s : Server) (con : ClientId) (buf : CStr) :
    ∃ rs, Replied P con buf .spwn s (cSpwn P s con buf).1 rs := by
  have hspwn := (cSpwn_replied (P := P) s con buf).congr
    (iff_of_false not_false (nofun : ¬ ReadsUnset P s.reg buf .spwn))
  unfold spwnReplies at hspwn
  cases hcc : childConfigUnserialize P buf with
  | none =>
    rw [hcc] at hspwn
    refine ⟨_, .single (Answers.answered hspwn) fun n hn => ?_⟩
    cases hn with
    | spwn parsed => cases hcc.symm.trans parsed
  | some cc =>
    rw [hcc] at hspwn
    dsimp only at hspwn
    cases hok : spwnRefusal s.reg cc with
    | some msg =>
      rw [hok] at hspwn
      refine ⟨_, .single (Answers.answered hspwn) fun n hn => ?_⟩
      cases hn with
      | spwn parsed accepted =>
        cases hcc.symm.trans parsed
        cases hok.symm.trans accepted
    | none =>
      rw [hok] at hspwn
      refine ⟨_, .ofStatuses hspwn successReplies_ne_nil ?_⟩
      rw [successReplies_one]
      refine not_congr ⟨fun h => ⟨_, .spwn hcc hok h.1, h.2⟩, ?_⟩
      rintro ⟨n, hn, h⟩
      cases hn with
      | spwn _ _ hd => exact ⟨hd, h⟩

theorem cUpdt_one (hl : Linked s.reg) (con : ClientId) (buf : CStr) :
    ∃ rs, Replied P con buf .updt s (cUpdt P s con buf).1 rs := by
  have hupdt := cUpdt_replied (P := P) hl con buf
  unfold updtReplies at hupdt
  cases hcc : childConfigUnserialize P buf with
  | none =>
    rw [hcc] at hupdt
    refine ⟨_, .single (Answers.answered hupdt) fun n hn => ?_⟩
    cases hn with
    | updt parsed => cases hcc.symm.trans parsed
  | some cc =>
    rw [hcc] at hupdt
    dsimp only at hupdt
    cases hg : s.reg.childConfigFindByName cc.ccName with
    | none =>
      rw [if_pos hg] at hupdt
      refine ⟨_, .single (Answers.answered hupdt) fun n hn => ?_⟩
      cases hn with
      | updt parsed found =>
        cases hcc.symm.trans parsed
        cases hg.symm.trans found
    | some g =>
      have hsome : s.reg.childConfigFindByName cc.ccName ≠ none := by
        rw [hg]
        exact Option.some_ne_none g
      rw [if_neg hsome] at hupdt
      cases hok : updtRefusal cc with
      | some r =>
        rw [hok] at hupdt
        refine ⟨_, .single (Answers.answered hupdt) fun n hn => ?_⟩
        cases hn with
        | updt parsed _ accepted =>
          cases hcc.symm.trans parsed
          cases hok.symm.trans accepted
      | none =>
        rw [hok] at hupdt
        refine ⟨_, .ofStatuses hupdt successReplies_ne_nil ?_⟩
        rw [successReplies_one]
        refine not_congr ⟨fun h => ⟨_, .updt hcc hg hok h.1, h.2⟩, ?_⟩
        rintro ⟨n, hn, h⟩
        cases hn with
        | updt _ _ _ hd => exact ⟨hd, h⟩

theorem OneReply.replied {c : Command} (h : OneReply P con (ReadsUnset P s.reg buf c) s u)
    (hno : ∀ n, ¬ Dumps P s buf c n) : ∃ rs, Replied P con buf c s u rs := by
  obtain ⟨r, hr⟩ := h
  exact ⟨_, .single (Answers.answered hr) hno⟩

theorem runCommand_replied (hl : Linked s.reg) (c : Command) (con : ClientId) (buf : CStr) :
    ∃ rs, Replied P con buf c s (runCommand P c s con buf).1 rs := by
  have hok : ∀ c r, ¬ ReadsUnset P s.reg buf c → OneReply P con (ReadsUnset P s.reg buf c) s
      (sendReply P s con r) :=
    fun c r hno => ⟨r, Quiet.replied (Quiet.refl.congr (iff_of_false not_false hno)) con r⟩
  cases c with
  | dele => exact cDele_replied.replied nofun
  | dump => exact cDump_one s con buf
  | exit => exact cExit_one s con buf
  | getc => exact cGetc_replied.replied nofun
  | helo => exact (hok .helo _ nofun).replied nofun
  | kill => exact cKill_replied.replied nofun
  | list => exact (hok .list _ nofun).replied nofun
  | pids => exact cPids_replied.replied nofun
  | read => exact cRead_replied.replied nofun
  | spwn => exact cSpwn_one s con buf
  | subs =>
    obtain ⟨r, hr⟩ := cSubs_replied (P := P) s con buf
    exact ⟨_, .single hr nofun⟩
  | updt => exact cUpdt_one hl con buf

end Handlers

section Steps

variable {P : Platform} {s u : Server} {con : ClientId} {cid : UInt16} {payload : Bytes}
  {o : Oracle} {c : Command} {rs : List Answer} {w : Prop}

/-- The answers a step adds. -/
def answersOf (s u : Server) : List Answer := (newOut s u).filterMap answerOf

/-- The request `cid` of the client is answered once, no other request is, and no value is read
that was never assigned. -/
structure AnsweredOnce (con : ClientId) (cid : UInt16) (s u : Server) : Prop where
  answer : ∃ r, answersOf s u = [(con, cid, r)]
  defined : .wild ∉ newOut s u

theorem setCid_cid {io : Io} (h : con ∈ io.clients.map ClientCon.cId) (cid : UInt16) :
    (setCid con cid io).cid con = cid := by
  have hfind : ∀ l : List ClientCon, con ∈ l.map ClientCon.cId →
      (((l.map fun c => if c.cId = con then { c with cCid := cid } else c).find?
        fun c => c.cId == con).map ClientCon.cCid).getD 0 = cid := by
    intro l
    induction l with
    | nil => exact fun h => absurd h List.not_mem_nil
    | cons c l ih =>
      intro h
      rw [List.map_cons]
      by_cases hc : c.cId = con
      · rw [if_pos hc, List.find?_cons_of_pos (by simp [hc])]
        rfl
      · rw [if_neg hc, List.find?_cons_of_neg (by simp [hc])]
        rw [List.map_cons] at h
        exact ih ((List.mem_cons.mp h).resolve_left (Ne.symm hc))
  exact hfind _ h

/-- What a request of a known kind adds to the output is what its handler adds. -/
theorem request_answered (hc : findCommand payload = some c)
    (h : Answered P rs w ((install s o).withIo (setCid con cid)).io
      (runCommand P c ((install s o).withIo (setCid con cid)) con
        (CStr.ofBytes (payload.drop 4))).1.io) :
    answersOf s (next P s (.callback (.request con cid payload) o)) = rs ∧
      (.wild ∈ newOut s (next P s (.callback (.request con cid payload) o)) ↔ w) := by
  obtain ⟨l, hl, -, hrs, hw⟩ := h
  have hrun : (next P s (.callback (.request con cid payload) o)).io.out =
      (runServerCommand P ((install s o).withIo (setCid con cid)) con payload).io.out := rfl
  unfold runServerCommand at hrun
  rw [hc] at hrun
  dsimp only at hrun
  have hstart : ((install s o).withIo (setCid con cid)).io.out = s.io.out := rfl
  rw [hstart] at hl
  split at hrun
  · rw [answersOf, newOut, hrun, hl, List.drop_left]
    exact ⟨hrs, hw⟩
  · have hdropped : newOut s (next P s (.callback (.request con cid payload) o)) =
        l ++ [.dropped con] := by
      rw [newOut, hrun]
      change ((runCommand P c _ con _).1.io.out ++ [Output.dropped con]).drop _ = _
      rw [hl, List.append_assoc, List.drop_left]
    rw [answersOf, hdropped]
    constructor
    · rw [List.filterMap_append, hrs]
      exact List.append_nil rs
    · rw [List.mem_append, hw]
      simp

theorem Dumps.of_same {x : Server} {buf : CStr} {n : ℕ} (h : Dumps P x buf c n)
    (hr : x.reg = s.reg) (he : x.allowExit = s.allowExit) (hd : x.autoDump = s.autoDump) :
    Dumps P s buf c n := by
  cases h with
  | dump =>
    rw [hr]
    exact .dump
  | exit allowed dumps =>
    rw [hr]
    exact .exit (he ▸ allowed) (hd ▸ dumps)
  | spwn parsed accepted dumps =>
    rw [hr] at accepted ⊢
    exact .spwn parsed accepted (hd ▸ dumps)
  | updt parsed found accepted dumps =>
    rw [hr] at found ⊢
    exact .updt parsed found accepted (hd ▸ dumps)

/-- Which answers a request of a known kind gets. -/
theorem step_replied (hl : Linked s.reg)
    (hs : Step P s (.callback (.request con cid payload) o) u)
    (hc : findCommand payload = some c) : ∃ rs,
      answersOf s u = rs ∧
      (.wild ∈ newOut s u ↔ ReadsUnset P s.reg (CStr.ofBytes (payload.drop 4)) c) ∧
      (∀ x ∈ rs, x.1 = con ∧ x.2.1 = cid) ∧ rs ≠ [] ∧
      (rs.length = 1 ↔ ¬ DumpedTwice P s (CStr.ofBytes (payload.drop 4)) c o.files) := by
  obtain ⟨⟨-, -, hcon, -⟩, rfl⟩ := hs
  generalize hx : (install s o).withIo (setCid con cid) = x
  have hreg : x.reg = s.reg := by
    rw [← hx]
    rfl
  obtain ⟨rs, hrs⟩ := runCommand_replied (P := P) (s := x) (by rw [hreg]; exact hl) c con
    (CStr.ofBytes (payload.drop 4))
  have hcid : x.io.cid con = cid := by
    rw [← hx]
    exact setCid_cid hcon cid
  have hans := hrs.answered
  have haddr := hrs.addressed
  rw [hcid] at haddr
  have hflags : x.allowExit = s.allowExit ∧ x.autoDump = s.autoDump ∧ x.clock = s.clock ∧
      x.io.dumpCnt = s.io.dumpCnt ∧ x.io.fileResults = o.files := by
    rw [← hx]
    exact ⟨rfl, rfl, rfl, rfl, rfl⟩
  obtain ⟨hexit, hdump, hclock, hcnt, hfiles⟩ := hflags
  rw [← hx] at hans
  obtain ⟨hanswers, hwild⟩ := request_answered hc hans
  refine ⟨rs, hanswers, hwild, haddr, hrs.nonempty, hrs.one.trans ?_⟩
  unfold DumpedTwice
  rw [hclock, hcnt, hfiles]
  refine not_congr (exists_congr fun n => and_congr_left fun _ => ?_)
  exact ⟨fun h => h.of_same hreg hexit hdump, fun h => h.of_same hreg.symm hexit.symm hdump.symm⟩

/-- When a request of a known kind is answered once. -/
theorem reachable_answeredOnce_iff (h : Reachable P s)
    (hs : Step P s (.callback (.request con cid payload) o) u)
    (hc : findCommand payload = some c) :
    AnsweredOnce con cid s u ↔
      ¬ ReadsUnset P s.reg (CStr.ofBytes (payload.drop 4)) c ∧
      ¬ DumpedTwice P s (CStr.ofBytes (payload.drop 4)) c o.files := by
  have hl : Linked s.reg := ReachableBy.linked h
  obtain ⟨rs, hrs, hw, haddr, hne, hone⟩ := step_replied hl hs hc
  rw [← hw, ← hone]
  constructor
  · rintro ⟨⟨r, hr⟩, hdef⟩
    refine ⟨hdef, ?_⟩
    rw [← hrs, hr]
    rfl
  · rintro ⟨hdef, hlen⟩
    obtain ⟨x, hx⟩ := List.length_eq_one_iff.mp hlen
    obtain ⟨hcon, hcid⟩ := haddr x (by rw [hx]; exact List.mem_singleton_self x)
    refine ⟨⟨x.2.2, ?_⟩, hdef⟩
    rw [hrs, hx, ← hcon, ← hcid]

/-- A DUMP, with the results of its file operations. -/
def dumping (files : List Bool) : Event :=
  .callback (.request 0 1 (text "DUMP")) ⟨[], files, fun _ => none⟩

/-- A stopped group with a long argument. -/
def wideRequest : Json :=
  .object [(text "name", .string (text "web")),
    (text "args", .array [.string (text "/bin/web"), .string (List.replicate 3994 97)]),
    (text "status", .int 2)]

def widePlatform : Platform := sample [printed wideRequest]

def wideState : Server := stateAfter (next widePlatform) (initial false false 0)
  [connecting, asking "SPWN" wideRequest []]

/-- The first two lines of a dump fill a buffer of 4096 bytes, so the closing one is where stdio
writes. -/
theorem wideState_facts :
    (text "[\n" ++ widePlatform.jsonPrint (childConfigSerialize (wideState.reg.groups 0)) ++
      text ",\n").length = 4096 ∧
    Admits Enabled (next widePlatform) Always (initial false false 0)
      [connecting, asking "SPWN" wideRequest []] ∧
    Enabled wideState (dumping [true, true, true, true, true]) ∧
    wideState.reg.childConfigList = [0] ∧
    Enabled wideState (dumping [true, true, true, false, true]) ∧
    (answersOf wideState
      (next widePlatform wideState (dumping [true, true, true, false, true]))).length = 2 := by
  decide +kernel

theorem wideState_reachable : Reachable widePlatform wideState :=
  ⟨false, false, 0, wideState_facts.2.1.execution⟩

theorem wideState_answeredOnce : AnsweredOnce 0 1 wideState
    (next widePlatform wideState (dumping [true, true, true, true, true])) := by
  obtain ⟨-, -, hen, hlist, -⟩ := wideState_facts
  have hc : findCommand (text "DUMP") = some .dump := by decide +kernel
  refine (reachable_answeredOnce_iff wideState_reachable ⟨hen, rfl⟩ hc).mpr ⟨nofun, ?_⟩
  rintro ⟨n, hn, -, hclosing⟩
  cases hn
  rw [hlist] at hclosing
  cases hclosing

/-- The closing line is not written: the failure is reported, and then the success. -/
theorem wideState_answeredTwice : ¬ ∀ (P : Platform) (s u : Server) (con : ClientId)
    (cid : UInt16) (payload : Bytes) (o : Oracle) (c : Command), Reachable P s →
    Step P s (.callback (.request con cid payload) o) u → findCommand payload = some c →
    AnsweredOnce con cid s u := by
  intro h
  obtain ⟨-, -, -, -, hen, htwo⟩ := wideState_facts
  have hc : findCommand (text "DUMP") = some .dump := by decide +kernel
  obtain ⟨⟨r, hr⟩, -⟩ := h widePlatform wideState _ 0 1 _ _ .dump wideState_reachable ⟨hen, rfl⟩ hc
  have hone := congrArg List.length hr
  rw [List.length_singleton] at hone
  exact absurd (htwo.symm.trans hone) (by decide)

end Steps

end UbervisorReplies
