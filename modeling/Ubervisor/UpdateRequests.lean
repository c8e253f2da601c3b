import Ubervisor.Refusals

/-! # What UPDT is asked for and what it does

Each field of a request and what becomes of it. A number of -1 stands for no request, and so does
an age that is not positive: the client sends an age of 0 with every update. -/
namespace UbervisorUpdateRequests

open UbervisorRuns
open UbervisorValues
open UbervisorChildConfigs
open UbervisorKernel
open UbervisorRegistry
open UbervisorReadCallback (Command findCommand)
open UbervisorServer
open UbervisorCommands
open UbervisorEvents
open UbervisorSupervision
open UbervisorSlots
open UbervisorUpdates
open UbervisorEffects
open UbervisorGroupSteps
open UbervisorTranscripts
open UbervisorAnswers
open UbervisorReplies
open UbervisorRefusals
open UbervisorJsonC

/-- A string of the request, as C reads it. -/
def textField (obj : Json) (key : String) : Option CStr :=
  match obj.objectGet key with
  | some (.string s) => some (CStr.ofBytes s)
  | _ => none

def updatableTexts : List (String × (ChildConfig → Option CStr)) :=
  [("stdout", ChildConfig.ccStdout), ("stderr", ChildConfig.ccStderr), ("dir", ChildConfig.ccDir),
    ("heartbeat", ChildConfig.ccHeartbeat), ("fatal_cb", ChildConfig.ccFatalCb)]

def updatableNumbers : List (String × (ChildConfig → ℤ)) :=
  [("instances", ChildConfig.ccInstances), ("status", ChildConfig.ccStatus),
    ("killsig", ChildConfig.ccKillsig)]

def fixedTexts : List (String × (ChildConfig → Option CStr)) :=
  [("username", ChildConfig.ccUsername), ("groupname", ChildConfig.ccGroupname)]

def fixedNumbers : List (String × (ChildConfig → ℤ)) :=
  [("uid", ChildConfig.ccUid), ("gid", ChildConfig.ccGid)]

/-- Every field of the request has its value afterwards, and the others are unchanged. -/
structure Literal (obj : Json) (old new : ChildConfig) : Prop where
  texts : ∀ f ∈ updatableTexts ++ fixedTexts, f.2 new = (textField obj f.1).or (f.2 old)
  numbers : ∀ f ∈ updatableNumbers ++ fixedNumbers ++ [("age", ChildConfig.ccAge)],
    f.2 new = (intField obj f.1).getD (f.2 old)

/-- The same for what the request asks for. Nothing is said about names that it asks for. -/
structure AsAsked (obj : Json) (old new : ChildConfig) : Prop where
  texts : ∀ f ∈ updatableTexts, f.2 new = (textField obj f.1).or (f.2 old)
  numbers : ∀ f ∈ updatableNumbers,
    f.2 new = ((intField obj f.1).filter (· ≠ -1)).getD (f.2 old)
  age : new.ccAge = ((intField obj "age").filter (0 < ·)).getD old.ccAge
  names : ∀ f ∈ fixedTexts, textField obj f.1 = none → f.2 new = f.2 old
  ids : ∀ f ∈ fixedNumbers, f.2 new = f.2 old

/-- The request asks for another user or group id. -/
def AsksIds (obj : Json) : Prop :=
  ∃ f ∈ fixedNumbers, ∃ i, intField obj f.1 = some i ∧ i ≠ -1

section Requests

variable {P : Platform} {obj : Json} {cc old new : ChildConfig} {key : String} {buf : CStr}

theorem getField_text {v : Option CStr} (h : getField obj key none = some v) :
    v = textField obj key := by
  unfold getField at h
  unfold textField
  split at h
  · rename_i hn
    rw [hn]
    exact (Option.some.inj h).symm
  · rename_i t ht
    rw [ht]
    exact (Option.some.inj h).symm
  · cases h

theorem getIntField_int {v unset : ℤ} (h : getIntField obj key unset = some v) :
    v = (intField obj key).getD unset := by
  unfold getIntField at h
  unfold intField
  split at h
  · rename_i hn
    rw [hn]
    exact (Option.some.inj h).symm
  · rename_i i hi
    rw [hi]
    exact (Option.some.inj h).symm
  · cases h

/-- The record that is read from a request holds its fields. -/
structure ReadFrom (obj : Json) (cc : ChildConfig) : Prop where
  name : nameField obj = some cc.ccName
  texts : ∀ f ∈ updatableTexts, f.2 cc = textField obj f.1
  numbers : ∀ f ∈ updatableNumbers ++ fixedNumbers, f.2 cc = (intField obj f.1).getD (-1)
  age : cc.ccAge = (intField obj "age").getD 0

theorem fromJson_read (h : childConfigFromJson obj = some cc) : ReadFrom obj cc := by
  unfold childConfigFromJson at h
  obtain ⟨name, hname, h⟩ := Option.bind_eq_some_iff.mp h
  obtain ⟨n, hn, h⟩ := Option.bind_eq_some_iff.mp h
  obtain ⟨stdout, hout, h⟩ := Option.bind_eq_some_iff.mp h
  obtain ⟨stderr, herr, h⟩ := Option.bind_eq_some_iff.mp h
  obtain ⟨dir, hdir, h⟩ := Option.bind_eq_some_iff.mp h
  obtain ⟨heartbeat, hbeat, h⟩ := Option.bind_eq_some_iff.mp h
  obtain ⟨fatalCb, hfatal, h⟩ := Option.bind_eq_some_iff.mp h
  obtain ⟨_, -, h⟩ := Option.bind_eq_some_iff.mp h
  obtain ⟨_, -, h⟩ := Option.bind_eq_some_iff.mp h
  obtain ⟨instances, hinst, h⟩ := Option.bind_eq_some_iff.mp h
  obtain ⟨status, hstatus, h⟩ := Option.bind_eq_some_iff.mp h
  obtain ⟨killsig, hkill, h⟩ := Option.bind_eq_some_iff.mp h
  obtain ⟨uid, huid, h⟩ := Option.bind_eq_some_iff.mp h
  obtain ⟨gid, hgid, h⟩ := Option.bind_eq_some_iff.mp h
  obtain ⟨_, -, h⟩ := Option.bind_eq_some_iff.mp h
  obtain ⟨age, hage, h⟩ := Option.bind_eq_some_iff.mp h
  obtain ⟨_, -, h⟩ := Option.bind_eq_some_iff.mp h
  cases h
  refine ⟨?_, ?_, ?_, getIntField_int hage⟩
  · have htext := getField_text hname
    rw [hn] at htext
    unfold textField at htext
    unfold nameField
    exact htext.symm
  · simp only [updatableTexts, List.forall_mem_cons]
    exact ⟨getField_text hout, getField_text herr, getField_text hdir, getField_text hbeat,
      getField_text hfatal, List.forall_mem_nil _⟩
  · simp only [updatableNumbers, fixedNumbers, List.cons_append, List.nil_append,
      List.forall_mem_cons]
    exact ⟨getIntField_int hinst, getIntField_int hstatus, getIntField_int hkill,
      getIntField_int huid, getIntField_int hgid, List.forall_mem_nil _⟩

theorem intOr_getD {x : Option ℤ} {v : ℤ} : intOr (x.getD (-1)) v = (x.filter (· ≠ -1)).getD v := by
  cases x with
  | none => rfl
  | some i =>
    rw [Option.getD_some, intOr, Option.filter_some]
    by_cases hi : i = -1
    · simp [hi]
    · simp [hi]

theorem ageOr_getD {x : Option ℤ} {v : ℤ} : ageOr (x.getD 0) v = (x.filter (0 < ·)).getD v := by
  cases x with
  | none => rfl
  | some i =>
    rw [Option.getD_some, ageOr, Option.filter_some]
    by_cases hi : 0 < i
    · simp [hi]
    · simp [hi]

theorem updated_asAsked (hr : ReadFrom obj cc) (hnew : settings new = updated cc (settings old)) :
    AsAsked obj old new := by
  have htexts := hr.texts
  have hnumbers := hr.numbers
  simp only [updatableTexts, List.forall_mem_cons] at htexts
  simp only [updatableNumbers, fixedNumbers, List.cons_append, List.nil_append,
    List.forall_mem_cons] at hnumbers
  obtain ⟨hout, herr, hdir, hbeat, hfatal, -⟩ := htexts
  obtain ⟨hinst, hstatus, hkill, -, -, -⟩ := hnumbers
  have hfield : ∀ {β : Type} (f : ChildConfig → β),
      f (settings new) = f (updated cc (settings old)) :=
    fun f => congrArg f hnew
  refine ⟨?_, ?_, ?_, ?_, ?_⟩
  · simp only [updatableTexts, List.forall_mem_cons]
    rw [← hout, ← herr, ← hdir, ← hbeat, ← hfatal]
    exact ⟨hfield ChildConfig.ccStdout, hfield ChildConfig.ccStderr, hfield ChildConfig.ccDir,
      hfield ChildConfig.ccHeartbeat, hfield ChildConfig.ccFatalCb, List.forall_mem_nil _⟩
  · simp only [updatableNumbers, List.forall_mem_cons, ← intOr_getD]
    rw [← hinst, ← hstatus, ← hkill]
    exact ⟨hfield ChildConfig.ccInstances, hfield ChildConfig.ccStatus,
      hfield ChildConfig.ccKillsig, List.forall_mem_nil _⟩
  · rw [← ageOr_getD, ← hr.age]
    exact hfield ChildConfig.ccAge
  · simp only [fixedTexts, List.forall_mem_cons]
    exact ⟨fun _ => hfield ChildConfig.ccUsername, fun _ => hfield ChildConfig.ccGroupname,
      List.forall_mem_nil _⟩
  · simp only [fixedNumbers, List.forall_mem_cons]
    exact ⟨hfield ChildConfig.ccUid, hfield ChildConfig.ccGid, List.forall_mem_nil _⟩

theorem unserialize_object (h : childConfigUnserialize P buf = some cc) :
    ∃ obj, parseObject P buf = some obj ∧ childConfigFromJson obj = some cc := by
  unfold childConfigUnserialize at h
  unfold parseObject
  cases hp : P.jsonParse buf.bytes with
  | none =>
    rw [hp] at h
    cases h
  | some j =>
    rw [hp] at h
    cases j with
    | object l => exact ⟨.object l, rfl, h⟩
    | null => cases h
    | boolean b => cases h
    | int i => cases h
    | double x => cases h
    | string t => cases h
    | array l => cases h

theorem not_asksIds (hr : ReadFrom obj cc) (h : ¬ AsksIds obj) : cc.ccUid = -1 ∧ cc.ccGid = -1 := by
  have hids : ∀ f ∈ fixedNumbers, f.2 cc = -1 := by
    intro f hf
    rw [hr.numbers f (List.mem_append_right _ hf)]
    cases hi : intField obj f.1 with
    | none => rfl
    | some i =>
      by_contra hne
      exact h ⟨f, hf, i, hi, hne⟩
  exact ⟨hids _ List.mem_cons_self, hids _ (List.mem_cons_of_mem _ List.mem_cons_self)⟩

/-- Only the ids are refused with a success. -/
theorem updtRefusal_code {msg : String} (hu : cc.ccUid = -1) (hg : cc.ccGid = -1) :
    updtRefusal cc ≠ some (true, msg) := by
  unfold updtRefusal
  rw [if_neg (not_not.mpr hu), if_neg (not_not.mpr hg)]
  split
  · simp
  · split
    · simp
    · split
      · simp
      · simp

end Requests

section Steps

variable {P : Platform} {s u : Server} {con : ClientId} {cid : UInt16} {payload : Bytes}
  {o : Oracle}

/-- The replies that an UPDT gets are those of its handler. -/
theorem updt_answers (hl : Linked s.reg)
    (hs : Step P s (.callback (.request con cid payload) o) u)
    (hc : findCommand payload = some .updt) :
    answersOf s u = statuses con cid (updtReplies P ((install s o).withIo (setCid con cid))
      (CStr.ofBytes (payload.drop 4))) := by
  obtain ⟨⟨-, -, hcon, -⟩, rfl⟩ := hs
  have hans := cUpdt_replied (P := P) (s := (install s o).withIo (setCid con cid)) hl con
    (CStr.ofBytes (payload.drop 4))
  have hcid : ((install s o).withIo (setCid con cid)).io.cid con = cid := setCid_cid hcon cid
  rw [hcid] at hans
  exact (request_answered hc (Answers.answered hans)).1

/-- An UPDT that is answered by a success does what it asks for. -/
theorem reachable_asAsked (h : Reachable P s)
    (hs : Step P s (.callback (.request con cid payload) o) u)
    (hc : findCommand payload = some .updt)
    (hok : ∃ msg, (con, cid, .status true msg) ∈ answersOf s u) :
    ∃ obj g, namedGroup P s.reg (CStr.ofBytes (payload.drop 4)) = some (obj, g) ∧
      (¬ AsksIds obj → AsAsked obj (s.reg.groups g) (u.reg.groups g)) := by
  have hl : Linked s.reg := ReachableBy.linked h
  obtain ⟨msg, hmsg⟩ := hok
  rw [updt_answers hl hs hc] at hmsg
  obtain ⟨⟨code, t⟩, ht, he⟩ := List.mem_map.mp hmsg
  have hcode : code = true := by
    have hr := congrArg (fun x : Answer => x.2.2) he
    exact (Reply.status.inj hr).1
  rw [hcode] at ht
  unfold updtReplies at ht
  cases hcc : childConfigUnserialize P (CStr.ofBytes (payload.drop 4)) with
  | none =>
    rw [hcc] at ht
    cases List.mem_singleton.mp ht
  | some cc =>
    rw [hcc] at ht
    dsimp only at ht
    obtain ⟨obj, hobj, hjson⟩ := unserialize_object hcc
    have hread := fromJson_read hjson
    cases hg : s.reg.childConfigFindByName cc.ccName with
    | none =>
      have hnone : ((install s o).withIo (setCid con cid)).reg.childConfigFindByName cc.ccName =
          none := hg
      rw [if_pos hnone] at ht
      cases List.mem_singleton.mp ht
    | some g =>
      have hsome : ((install s o).withIo (setCid con cid)).reg.childConfigFindByName cc.ccName ≠
          none := by
        intro hnone
        cases hg.symm.trans hnone
      rw [if_neg hsome] at ht
      refine ⟨obj, g, ?_, fun hids => ?_⟩
      · simp [namedGroup, hobj, hread.name, hg]
      · obtain ⟨huid, hgid⟩ := not_asksIds hread hids
        have haccepted : updtRefusal cc = none := by
          cases hr : updtRefusal cc with
          | none => rfl
          | some r =>
            obtain ⟨code', msg'⟩ := r
            rw [hr] at ht
            rw [← List.mem_singleton.mp ht] at hr
            exact absurd hr (updtRefusal_code huid hgid)
        have ha : acceptedUpdt P s (.callback (.request con cid payload) o) = some (cc, g) := by
          simp [acceptedUpdt, hc, hcc, hg, haccepted]
        exact updated_asAsked hread (step_updated hl hs ha).settings

def agedRequest : Json :=
  .object [(text "name", .string (text "web")), (text "args", .array [.string (text "/bin/web")]),
    (text "status", .int 2), (text "age", .int 5)]

/-- What `update -i 2 web` sends. -/
def clientUpdate : Json :=
  childConfigSerialize { childConfigNew (CStr.ofBytes (text "web")) with ccInstances := 2 }

def agedPlatform : Platform := sample [printed agedRequest, printed clientUpdate]

/-- A stopped group with an age. -/
def agedState : Server := stateAfter (next agedPlatform) (initial false false 0)
  [connecting, asking "SPWN" agedRequest []]

theorem agedState_reachable : Reachable agedPlatform agedState := by
  have h : Admits Enabled (next agedPlatform) Always (initial false false 0)
    [connecting, asking "SPWN" agedRequest []] := by decide +kernel
  exact ⟨false, false, 0, h.execution⟩

theorem agedState_answered : (0, 1, .status true (text "success")) ∈
    answersOf agedState (next agedPlatform agedState (asking "UPDT" clientUpdate [])) := by
  decide +kernel

theorem agedState_asAsked : ∃ obj g, namedGroup agedPlatform agedState.reg
      (CStr.ofBytes ((text "UPDT" ++ printJson clientUpdate).drop 4)) = some (obj, g) ∧
    AsAsked obj (agedState.reg.groups g)
      ((next agedPlatform agedState (asking "UPDT" clientUpdate [])).reg.groups g) := by
  have hen : Enabled agedState (asking "UPDT" clientUpdate []) := by decide +kernel
  have hc : findCommand (text "UPDT" ++ printJson clientUpdate) = some .updt := by decide +kernel
  obtain ⟨obj, g, hnamed, hasked⟩ :=
    reachable_asAsked agedState_reachable ⟨hen, rfl⟩ hc ⟨_, agedState_answered⟩
  refine ⟨obj, g, hnamed, hasked ?_⟩
  -- the client sends neither a user nor a group id
  have hunset : ∀ f ∈ fixedNumbers, ((namedGroup agedPlatform agedState.reg
      (CStr.ofBytes ((text "UPDT" ++ printJson clientUpdate).drop 4))).bind
        fun x => intField x.1 f.1) = none := by
    decide +kernel
  rintro ⟨f, hf, i, hi, -⟩
  have hnone := hunset f hf
  rw [hnamed, Option.bind_some, hi] at hnone
  cases hnone

/-- The client asks for an age of 0, and the group keeps its age. -/
theorem agedState_notLiteral : ¬ ∀ (P : Platform) (s u : Server) (con : ClientId) (cid : UInt16)
    (payload : Bytes) (o : Oracle), Reachable P s →
    Step P s (.callback (.request con cid payload) o) u → findCommand payload = some .updt →
    s.autoDump = false → (∃ msg, (con, cid, .status true msg) ∈ answersOf s u) →
    ∃ obj g, namedGroup P s.reg (CStr.ofBytes (payload.drop 4)) = some (obj, g) ∧
      Literal obj (s.reg.groups g) (u.reg.groups g) := by
  intro h
  have hen : Enabled agedState (asking "UPDT" clientUpdate []) := by decide +kernel
  have hc : findCommand (text "UPDT" ++ printJson clientUpdate) = some .updt := by decide +kernel
  obtain ⟨obj, g, hn, hliteral⟩ := h agedPlatform agedState _ 0 1 _ _ agedState_reachable
    ⟨hen, rfl⟩ hc rfl ⟨_, agedState_answered⟩
  have hfound : (namedGroup agedPlatform agedState.reg
      (CStr.ofBytes ((text "UPDT" ++ printJson clientUpdate).drop 4))).map
        (fun x => (intField x.1 "age", x.2)) = some (some 0, 0) := by
    decide +kernel
  rw [hn, Option.map_some, Option.some.injEq, Prod.mk.injEq] at hfound
  obtain ⟨hage, hg⟩ := hfound
  dsimp only at hage hg
  have hnew := hliteral.numbers ("age", ChildConfig.ccAge)
    (List.mem_append_right _ List.mem_cons_self)
  dsimp only at hnew
  rw [hage, hg, Option.getD_some] at hnew
  revert hnew
  decide +kernel

end Steps

end UbervisorUpdateRequests
