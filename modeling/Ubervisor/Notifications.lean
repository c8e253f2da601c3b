import Ubervisor.Outputs
import Ubervisor.GroupSteps
import Ubervisor.JsonC

/-! # The size of notifications

A notification is sent as a single chunk. Log lines always fit; whether status and
configuration notifications do depends on the strings that clients have put together. -/
namespace UbervisorNotifications

open UbervisorRuns
open UbervisorValues
open UbervisorChildConfigs
open UbervisorKernel
open UbervisorRegistry
open UbervisorChunks
open UbervisorServer
open UbervisorCommands
open UbervisorEvents
open UbervisorSupervision
open UbervisorSlots
open UbervisorUpdates
open UbervisorExits
open UbervisorEffects
open UbervisorGroupSteps
open UbervisorOutputs
open UbervisorJsonC

/-- json-c prints notifications as it documents. -/
def Prints (P : Platform) : Prop := ∀ n : Notification, (P.jsonPrint n.json).length = width n.json

section Widths

theorem width_log (line : Bytes) : width (Notification.log line).json = escapedWidth line + 13 := by
  have hkey : escapedWidth (text "msg") = 3 := by decide
  simp only [Notification.json, width, widthFields, hkey, List.isEmpty_nil, commaWidth]
  omega

theorem width_status (name : CStr) (st : ℤ) : width (Notification.status name st).json =
    escapedWidth name.bytes + (intText st).length + 26 := by
  have hname : escapedWidth (text "name") = 4 := by decide
  have hstatus : escapedWidth (text "status") = 6 := by decide
  simp only [Notification.json, width, widthFields, hname, hstatus, List.isEmpty_nil,
    List.isEmpty_cons, commaWidth]
  omega

/-- The length of the text of a configuration. -/
def configWidth (cc : ChildConfig) : ℕ := width (childConfigSerialize cc)

def fieldWidth (f : Bytes × Json) : ℕ := escapedWidth f.1 + 5 + width f.2

theorem widthFields_eq (l : List (Bytes × Json)) :
    widthFields l = (l.map fieldWidth).sum + (l.length - 1) := by
  induction l with
  | nil => rfl
  | cons f l ih =>
    obtain ⟨k, v⟩ := f
    rw [widthFields, ih]
    simp only [List.map_cons, List.sum_cons, fieldWidth, List.length_cons]
    cases l with
    | nil => simp [commaWidth]
    | cons g l =>
      simp only [List.isEmpty_cons, commaWidth, List.length_cons]
      omega

theorem widthFields_le {l l' : List (Bytes × Json)} (h : l.Sublist l') :
    widthFields l ≤ widthFields l' := by
  rw [widthFields_eq, widthFields_eq]
  have hsum : (l.map fieldWidth).sum ≤ (l'.map fieldWidth).sum :=
    (h.map fieldWidth).sum_le_sum fun _ _ => Nat.zero_le _
  have hlen := h.length_le
  omega

/-- A configuration contains what a status notification says. -/
theorem width_status_le (cc : ChildConfig) (h : cc.ccStatus ≠ -1) :
    width (Notification.status cc.ccName cc.ccStatus).json ≤ configWidth cc := by
  have hname : [(text "name", Json.string cc.ccName.bytes)].Sublist
      (addField "name" (some cc.ccName)) := .refl _
  have hstatus : [(text "status", Json.int cc.ccStatus)].Sublist
      (addIntField "status" cc.ccStatus) := by
    rw [addIntField, if_pos h]
  have hsub : ([(text "name", Json.string cc.ccName.bytes)] ++
      [(text "status", Json.int cc.ccStatus)]).Sublist
      (addField "name" (some cc.ccName) ++ addField "stdout" cc.ccStdout ++
      addField "stderr" cc.ccStderr ++ addField "dir" cc.ccDir ++
      addField "heartbeat" cc.ccHeartbeat ++ addField "fatal_cb" cc.ccFatalCb ++
      addField "username" cc.ccUsername ++ addField "groupname" cc.ccGroupname ++
      addIntField "instances" cc.ccInstances ++ addIntField "status" cc.ccStatus) := by
    refine List.Sublist.append ?_ hstatus
    repeat apply List.sublist_append_of_sublist_left
    exact hname
  have hall := hsub.trans (List.sublist_append_left _ (addIntField "killsig" cc.ccKillsig))
  have hall := hall.trans (List.sublist_append_left _ (addIntField "uid" cc.ccUid))
  have hall := hall.trans (List.sublist_append_left _ (addIntField "gid" cc.ccGid))
  have hall := hall.trans (List.sublist_append_left _ (addIntField "error" cc.ccError))
  have hall := hall.trans (List.sublist_append_left _ (addIntField "age" cc.ccAge))
  have hall := hall.trans (List.sublist_append_left _ (addCommand cc.ccCommand))
  have hle := widthFields_le hall
  simp only [configWidth, childConfigSerialize, Notification.json, width]
  exact Nat.add_le_add_right hle 3

end Widths

section Runs

variable {P : Platform} {s u : Server} {e : Event} {g : GroupId}

/-- A status notification with a code of one digit fits. -/
def NameFits (name : CStr) : Prop := escapedWidth name.bytes + 27 ≤ chunkSiz

instance (name : CStr) : Decidable (NameFits name) := inferInstanceAs (Decidable (_ ≤ _))

/-- The notifications about the creation of a group fit. -/
def SpwnFits (cc : ChildConfig) : Prop :=
  NameFits cc.ccName ∧ escapedWidth cc.ccName.bytes + (intText cc.ccStatus).length + 26 ≤ chunkSiz

instance (cc : ChildConfig) : Decidable (SpwnFits cc) := inferInstanceAs (Decidable (_ ∧ _))

/-- If the request changes the group, its new configuration fits. -/
def UpdtFits (cc up : ChildConfig) : Prop :=
  changes cc up = true → configWidth (updated cc up) ≤ chunkSiz

instance (cc up : ChildConfig) : Decidable (UpdtFits cc up) := inferInstanceAs (Decidable (_ → _))

def loadedRecords (P : Platform) (e : Event) : List ChildConfig :=
  match e.loads with
  | some file => dumpRecords P file
  | none => []

/-- The strings of a request or a dump stay short enough for the chunks they end up in. -/
def StaysShort (P : Platform) (s : Server) (e : Event) (_ : Server) : Prop :=
  (∀ cc ∈ acceptedSpwn P s e, SpwnFits cc) ∧
  (∀ cc ∈ loadedRecords P e, NameFits cc.ccName) ∧
  ∀ x ∈ acceptedUpdt P s e, UpdtFits x.1 (settings (s.reg.groups x.2))

instance : Decidable (StaysShort P s e u) := inferInstanceAs (Decidable (_ ∧ _ ∧ _))

/-- The payload is sent in a chunk that is read back as it is, whatever follows. -/
def FitsChunk (P : Platform) (n : Notification) : Prop :=
  (n.payload P).length ≤ chunkSiz ∧ ∀ (cid : UInt16) (rest : Bytes),
    readChunk (notificationFrame cid (n.payload P) ++ rest) =
      some (⟨false, cid, n.payload P⟩, rest)

theorem fitsChunk_of_width {n : Notification} (hP : Prints P) (h : width n.json ≤ chunkSiz) :
    FitsChunk P n := by
  have hlen : (n.payload P).length ≤ chunkSiz := by
    rw [Notification.payload, hP n]
    exact h
  exact ⟨hlen, fun cid rest => readChunk_notificationFrame hlen cid rest⟩

theorem log_fits {line : Bytes} (h : line.length < bufferSiz) :
    width (Notification.log line).json ≤ chunkSiz := by
  rw [width_log]
  have hle := escapedWidth_le line
  unfold bufferSiz at h
  unfold chunkSiz
  omega

theorem status_fits {name : CStr} {st : ℤ} (h : NameFits name) (hst : (intText st).length = 1) :
    width (Notification.status name st).json ≤ chunkSiz := by
  rw [width_status, hst]
  exact h

theorem step_names (hl : Linked s.reg) (h : Step P s e u) (hq : StaysShort P s e u)
    (hn : ∀ g ∈ s.reg.childConfigList, NameFits (s.reg.groups g).ccName) :
    ∀ g ∈ u.reg.childConfigList, NameFits (u.reg.groups g).ccName := by
  intro g hg
  rcases step_born hl h hg with hs | ⟨cc, n, hborn, hset⟩
  · rw [step_name hl h hs hg]
    exact hn g hs
  · rw [settings_name hset]
    rcases hborn with ha | ⟨file, hload, hcc⟩
    · exact (hq.1 cc ha).1
    · exact hq.2.1 cc (by rw [loadedRecords, hload]; exact hcc)

/-- What a step sends fits. -/
theorem step_fits (hP : Prints P) (hq : StaysShort P s e u)
    (hn : ∀ g ∈ s.reg.childConfigList, NameFits (s.reg.groups g).ccName) {n : Notification}
    (h : Sends P s e n) : FitsChunk P n := by
  apply fitsChunk_of_width hP
  cases h with
  | log line hs => exact log_fits hs
  | create cc ha => exact status_fits (hq.1 cc ha).1 (by decide)
  | start cc ha =>
    rw [width_status]
    exact (hq.1 cc ha).2
  | delete g hg => exact status_fits (hn g hg) (by decide)
  | broken g hg => exact status_fits (hn g hg) (by decide)
  | status cc g ha hc =>
    have hchanges : changes cc (settings (s.reg.groups g)) = true := by
      unfold changes
      have hc' : intChanges cc.ccStatus (settings (s.reg.groups g)).ccStatus = true := hc
      simp [hc']
    have hfits := hq.2.2 (cc, g) ha hchanges
    have hst : (updated cc (settings (s.reg.groups g))).ccStatus = cc.ccStatus :=
      intOr_changes hc
    have hne : cc.ccStatus ≠ -1 := by
      unfold intChanges at hc
      rw [decide_eq_true_iff] at hc
      exact hc.1
    have hle := width_status_le (updated cc (settings (s.reg.groups g))) (by rw [hst]; exact hne)
    rw [hst] at hle
    exact hle.trans hfits
  | config cc g up ha hc his =>
    have hfits := hq.2.2 (cc, g) ha hc
    have hjson : (Notification.groupCfg up).json =
        childConfigSerialize (updated cc (settings (s.reg.groups g))) := by
      rw [← his]
      rfl
    rw [hjson]
    exact hfits

/-- Along runs in which the strings stay short, every notification fits its chunk. -/
theorem reachable_notifications_fit (hP : Prints P) (h : ReachableBy P (StaysShort P) s) :
    ∀ n, .notify n ∈ s.io.out → FitsChunk P n := by
  obtain ⟨a, b, t, h⟩ := h
  have hall : (Linked s.reg ∧ ∀ g ∈ s.reg.childConfigList, NameFits (s.reg.groups g).ccName) ∧
      ∀ n, .notify n ∈ s.io.out → FitsChunk P n := by
    refine h.invariant (P := fun s => (Linked s.reg ∧ ∀ g ∈ s.reg.childConfigList,
      NameFits (s.reg.groups g).ccName) ∧ ∀ n, .notify n ∈ s.io.out → FitsChunk P n) ?_ ?_
    · rintro s e u ⟨⟨hl, hn⟩, ho⟩ hstep hq
      refine ⟨⟨step_linked hl hstep, step_names hl hstep hq hn⟩, ?_⟩
      obtain ⟨l, hout, hsent⟩ := (step_outputs hl hstep).out
      intro n hmem
      rw [hout] at hmem
      rcases List.mem_append.mp hmem with hmem | hmem
      · exact ho n hmem
      · exact step_fits hP hq hn ((hsent _ hmem).notes n rfl)
    · refine ⟨⟨Registry.linked_init, fun g hg => ?_⟩, fun n hn => ?_⟩
      · cases hg
      · cases hn
  exact hall.2

theorem sample_prints (texts : List (Bytes × Json)) : Prints (sample texts) :=
  fun n => length_printJson n.json

def subsRequest : Json := .object [(text "ident", .int 7)]

/-- A client that listens to everything, a group, and a change of it. -/
def shortRequests : Json × Json :=
  (.object [(text "name", .string (text "web")), (text "args", .array [.string (text "/bin/web")])],
   .object [(text "name", .string (text "web")), (text "dir", .string (text "/srv"))])

def shortPlatform : Platform :=
  sample [printed subsRequest, printed shortRequests.1, printed shortRequests.2]

def shortRun : List Event :=
  [connecting, asking "SUBS" subsRequest [], asking "SPWN" shortRequests.1 [],
    asking "UPDT" shortRequests.2 []]

def shortState : Server := stateAfter (next shortPlatform) (initial false false 100) shortRun

theorem shortRun_notifications_fit :
    FitsChunk shortPlatform (.status (CStr.ofBytes (text "web")) statusCreate) :=
  have h : Admits Enabled (next shortPlatform) (StaysShort shortPlatform)
    (initial false false 100) shortRun := by decide +kernel
  have hsent : .notify (.status (CStr.ofBytes (text "web")) statusCreate) ∈ shortState.io.out := by
    decide +kernel
  reachable_notifications_fit (sample_prints _) ⟨false, false, 100, h.execution⟩ _ hsent

section LongNames

theorem IoOutputs.mem {O : Output → Prop} {io io' : Io} {o : Output} (h : IoOutputs O io io')
    (ho : o ∈ io.out) : o ∈ io'.out := by
  obtain ⟨l, hl, -⟩ := h
  rw [hl]
  exact List.mem_append_left l ho

theorem notify_mem {P : Platform} {n : Notification} {io : Io} :
    .notify n ∈ (io.notify P n).out := by
  rw [notify_out]
  simp

/-- SPWN announces the group it creates. -/
theorem cSpwn_announces (con : ClientId) {buf : CStr} {cc : ChildConfig}
    (hcc : childConfigUnserialize P buf = some cc) (hok : spwnRefusal s.reg cc = none) :
    .notify (.status cc.ccName statusCreate) ∈ (cSpwn P s con buf).1.io.out ∧
      (cSpwn P s con buf).2 = true := by
  have hp : Permits fun _ => True := ⟨fun _ _ => trivial, fun _ _ => trivial⟩
  rw [cSpwn_accepted hcc hok rfl]
  generalize (if cc.ccInstances = -1 then 1 else cc.ccInstances) = n
  have hsent : .notify (.status cc.ccName statusCreate) ∈ (announceGroup P s con cc n).io.out :=
    IoOutputs.mem (O := fun _ => True) (IoOutputs.notify .refl trivial) notify_mem
  split
  · exact ⟨IoOutputs.mem (O := fun _ => True) (spawnRange_outputs hp).out hsent, rfl⟩
  · exact ⟨hsent, rfl⟩

/-- A request for a group without arguments, as a client writes it. -/
def nameRequest (name : Bytes) : Bytes × Json :=
  (text "\x7b\"name\":\"" ++ name ++ text "\",\"args\":[]\x7d",
   .object [(text "name", .string name), (text "args", .array [])])

def namePlatform (name : Bytes) : Platform := sample [nameRequest name]

def nameSpwn (name : Bytes) : Event :=
  .callback (.request 0 1 (text "SPWN" ++ (nameRequest name).1)) (starting [])

def nameConfig (name : Bytes) : ChildConfig :=
  { childConfigNew (CStr.ofBytes name) with ccCommand := some [] }

theorem nameRequest_parsed {name : Bytes} (h : 0 ∉ name) :
    childConfigUnserialize (namePlatform name) (CStr.ofBytes ((text "SPWN" ++
      (nameRequest name).1).drop 4)) = some (nameConfig name) := by
  have hclear : 0 ∉ (nameRequest name).1 := by
    simp only [nameRequest, List.mem_append, not_or]
    exact ⟨⟨by decide, h⟩, by decide⟩
  have hdrop : (text "SPWN" ++ (nameRequest name).1).drop 4 = (nameRequest name).1 := rfl
  have hparse : (namePlatform name).jsonParse (nameRequest name).1 = some (nameRequest name).2 := by
    simp [namePlatform, sample]
  rw [hdrop, childConfigUnserialize, CStr.bytes_ofBytes hclear, hparse]
  rfl

/-- A request with a long name is served, and the name is announced. -/
theorem nameSpwn_announced {name : Bytes} (h : 0 ∉ name) (hlen : name.length + 25 ≤ chunkSiz) :
    ∃ s, Reachable (namePlatform name) s ∧
      .notify (.status (CStr.ofBytes name) statusCreate) ∈ s.io.out := by
  have hopen : Execution (Step (namePlatform name)) Always (initial false false 100)
      (next (namePlatform name) (initial false false 100) connecting) := by
    refine .single ⟨?_, rfl⟩ trivial
    exact ⟨⟨rfl, by simp [initial]⟩, rfl, by simp [Ready, Connected, initial]⟩
  generalize hs : next (namePlatform name) (initial false false 100) connecting = s at hopen
  have hen : Enabled s (nameSpwn name) := by
    have hio : s.io.out = [] ∧ s.io.clients = [⟨0, 0, []⟩] := by
      rw [← hs]
      exact ⟨rfl, rfl⟩
    have hplain : s.halted = false ∧ s.inSigchld = false := by
      rw [← hs]
      exact ⟨rfl, rfl⟩
    have hsize : (text "SPWN" ++ (nameRequest name).1).length = name.length + 25 := by
      simp only [nameRequest, List.length_append]
      have h₁ : (text "SPWN").length = 4 := by decide
      have h₂ : (text "\x7b\"name\":\"").length = 9 := by decide
      have h₃ : (text "\",\"args\":[]\x7d").length = 12 := by decide
      omega
    refine ⟨⟨hplain.1, by simp [hio.1]⟩, hplain.2, ?_, by decide, by omega, by omega⟩
    simp [Connected, hio.2]
  have hok : spwnRefusal s.reg (nameConfig name) = none := by
    have hreg : s.reg = .init := by
      rw [← hs]
      rfl
    have hfind : s.reg.childConfigFindByName (nameConfig name).ccName = none := by
      rw [Registry.childConfigFindByName, uvstrhashFind_chain, hreg]
      rfl
    unfold spwnRefusal
    rw [hfind]
    rfl
  refine ⟨next (namePlatform name) s (nameSpwn name),
    ⟨false, false, 100, hopen.tail ⟨hen, rfl⟩ trivial⟩, ?_⟩
  generalize hx : (install s (starting [])).withIo (setCid 0 1) = x
  have hcmd : UbervisorReadCallback.findCommand (text "SPWN" ++ (nameRequest name).1) =
      some .spwn := rfl
  have hnext : next (namePlatform name) s (nameSpwn name) = (UbervisorCommands.runServerCommand
      (namePlatform name) x 0 (text "SPWN" ++ (nameRequest name).1)).withIo (setCid 0 0) := by
    rw [← hx]
    rfl
  obtain ⟨hsent, hkept⟩ := cSpwn_announces (s := x) (P := namePlatform name) 0
    (nameRequest_parsed h) (by rw [← hx]; exact hok)
  rw [hnext, UbervisorCommands.runServerCommand, hcmd]
  simp only [runCommand, hkept, if_true]
  exact hsent

/-- A name of slashes: a request may contain them as they are, json-c prints two bytes. -/
def longName (n : ℕ) : Bytes := List.replicate n 47

theorem longName_width (n : ℕ) : escapedWidth (longName n) = n * 2 := by
  have hslash : escapeWidth 47 = 2 := by decide
  rw [longName, escapedWidth, List.map_replicate, List.sum_replicate_nat, hslash]

/-- The status of a group with a long name does not fit a chunk. -/
theorem longName_overflows : ¬ ∀ (P : Platform) (s : Server), Prints P → Reachable P s →
    ∀ n, .notify n ∈ s.io.out → FitsChunk P n := by
  intro hall
  have hclear : 0 ∉ longName 8200 := fun h => by
    have := List.eq_of_mem_replicate h
    revert this
    decide
  have hlen : (longName 8200).length = 8200 := List.length_replicate
  obtain ⟨s, hs, hsent⟩ := nameSpwn_announced hclear (by rw [hlen]; decide)
  have hprints : Prints (namePlatform (longName 8200)) := sample_prints _
  have hfits := (hall _ s hprints hs _ hsent).1
  rw [Notification.payload, hprints, width_status, CStr.bytes_ofBytes hclear,
    longName_width] at hfits
  unfold chunkSiz at hfits
  omega

end LongNames

end Runs

end UbervisorNotifications
