import Ubervisor.Registrations
import Ubervisor.Transcripts

/-! # The registry as a subscriber sees it

Every change of the map from names to statuses is announced, in the order in which it happens.
A client that applies the notifications to the map it started from has the present map, unless
a request uses one of the two status codes that stand for the creation and the deletion of a
group. -/
namespace UbervisorStatusNotes

open UbervisorRuns
open UbervisorValues
open UbervisorChildConfigs
open UbervisorKernel
open UbervisorRegistry
open UbervisorChunks
open UbervisorReadCallback (Command findCommand)
open UbervisorServer
open UbervisorCommands
open UbervisorEvents
open UbervisorSupervision
open UbervisorSlots
open UbervisorUpdates
open UbervisorExits
open UbervisorEffects
open UbervisorGroupSteps
open UbervisorOutputs
open UbervisorTranscripts
open UbervisorRegistrations
open UbervisorJsonC

variable {P : Platform} {s u : Server} {e : Event} {g : GroupId} {sub : Subscription}

section Notes

/-- The status notifications among the output. -/
def statusOf : Output → Option (CStr × ℤ)
  | .notify (.status name st) => some (name, st)
  | _ => none

theorem statusOf_permits : Permits (Silent statusOf) where
  plain o ho := by cases o <;> first | rfl | cases ho
  log _ _ := rfl

/-- Those that a subscription gets. -/
def noteOf (sub : Subscription) (o : Output) : Option (CStr × ℤ) :=
  if sub.sIdent &&& subsStatus ≠ 0 then statusOf o else none

theorem noteOf_status (h : sub.sIdent &&& subsStatus ≠ 0) (l : List Output) :
    l.filterMap (noteOf sub) = l.filterMap statusOf :=
  List.filterMap_congr fun _ _ => if_pos h

/-- The frames of a notification for the subscriptions of a client. -/
def framesFor (P : Platform) (n : Notification) (con : ClientId) (subs : List Subscription) :
    Bytes :=
  (subs.filter fun sub => sub.sClient = con).flatMap fun sub =>
    notificationFrame sub.sCid (n.payload P)

/-- `send_notification` writes a frame to the client of each subscription to its kind. -/
theorem notify_clients (io : Io) (n : Notification) {subs : List Subscription}
    (hs : subs = io.subscriptions.filter fun sub => sub.sIdent &&& n.ident ≠ 0) :
    (io.notify P n).clients =
      io.clients.map fun c => { c with output := c.output ++ framesFor P n c.cId subs } := by
  have hfold : ∀ (l : List Subscription) (io : Io), (l.foldl (fun io sub =>
      io.write sub.sClient (notificationFrame sub.sCid (n.payload P))) io).clients =
        io.clients.map fun c => { c with output := c.output ++ framesFor P n c.cId l } := by
    intro l
    induction l with
    | nil =>
      intro io
      simp [framesFor]
    | cons sub l ih =>
      intro io
      rw [List.foldl_cons, ih, Io.write, List.map_map]
      refine List.map_congr_left fun c _ => ?_
      by_cases hc : c.cId = sub.sClient
      · simp [framesFor, hc, List.append_assoc]
      · have hne : sub.sClient ≠ c.cId := fun h => hc h.symm
        simp [framesFor, hc, hne]
  rw [hs]
  exact hfold _ _

/-- The status notifications of a step. -/
def statusNotes (P : Platform) (s : Server) (e : Event) : List (CStr × ℤ) :=
  match acceptedSpwn P s e, acceptedUpdt P s e, requested P s .dele e, brokenBy s e with
  | some cc, _, _, _ => [(cc.ccName, statusCreate), (cc.ccName, cc.ccStatus)]
  | _, some (cc, g), _, _ =>
    if intChanges cc.ccStatus (s.reg.groups g).ccStatus then
      [((s.reg.groups g).ccName, cc.ccStatus)] else []
  | _, _, some (_, g), _ => [((s.reg.groups g).ccName, statusDelete)]
  | _, _, _, some g => [((s.reg.groups g).ccName, statusBroken)]
  | _, _, _, _ => []

section Requests

variable {con : ClientId} {cid : UInt16} {payload : Bytes} {o : Oracle} {c : Command}

theorem acceptedSpwn_other (h : findCommand payload ≠ some .spwn) :
    acceptedSpwn P s (.callback (.request con cid payload) o) = none := if_neg h

theorem acceptedUpdt_other (h : findCommand payload ≠ some .updt) :
    acceptedUpdt P s (.callback (.request con cid payload) o) = none := if_neg h

theorem requested_other (h : findCommand payload ≠ some c) :
    requested P s c (.callback (.request con cid payload) o) = none := if_neg h

/-- Requests of other kinds change no status and announce none. -/
theorem otherRequest_notes (h : findCommand payload ≠ some .spwn)
    (h' : findCommand payload ≠ some .updt) (h'' : findCommand payload ≠ some .dele) :
    statusNotes P s (.callback (.request con cid payload) o) = [] := by
  unfold statusNotes
  rw [acceptedSpwn_other h, acceptedUpdt_other h', requested_other h'']
  rfl

theorem spwn_notes (hc : findCommand payload = some .spwn) :
    Reads statusOf (statusNotes P s (.callback (.request con cid payload) o)) s.io
      (next P s (.callback (.request con cid payload) o)).io := by
  have hp : Permits (Silent statusOf) := statusOf_permits
  have hupdt : findCommand payload ≠ some .updt := by
    rw [hc]
    decide
  have hdele : findCommand payload ≠ some .dele := by
    rw [hc]
    decide
  apply request_reads hp hc
  intro x hx _
  have ha : acceptedSpwn P s (.callback (.request con cid payload) o) =
      acceptedSpwn P x (.callback (.request con cid payload) o) := (acceptedSpwn_of_reg hx).symm
  unfold statusNotes
  rw [acceptedUpdt_other hupdt, requested_other hdele, ha]
  cases hspwn : acceptedSpwn P x (.callback (.request con cid payload) o) with
  | none =>
    refine cSpwn_silent con hp fun cc hcc hok => ?_
    simp [acceptedSpwn, hc, hcc, hok] at hspwn
  | some cc =>
    have hok := acceptedSpwn_ok hspwn
    have hcc : childConfigUnserialize P (CStr.ofBytes (payload.drop 4)) = some cc := by
      rw [acceptedSpwn, if_pos hc] at hspwn
      obtain ⟨cc', hcc, hif⟩ := Option.bind_eq_some_iff.mp hspwn
      split at hif
      · cases hif
        exact hcc
      · cases hif
    have hr := cSpwn_reads con hp hcc hok
    exact hr

theorem updt_notes (hl : Linked s.reg)
    (hc : findCommand payload = some .updt) :
    Reads statusOf (statusNotes P s (.callback (.request con cid payload) o)) s.io
      (next P s (.callback (.request con cid payload) o)).io := by
  have hp : Permits (Silent statusOf) := statusOf_permits
  have hspwn : findCommand payload ≠ some .spwn := by
    rw [hc]
    decide
  have hdele : findCommand payload ≠ some .dele := by
    rw [hc]
    decide
  apply request_reads hp hc
  intro x hx _
  unfold statusNotes
  rw [acceptedSpwn_other hspwn, requested_other hdele]
  cases hupdt : acceptedUpdt P s (.callback (.request con cid payload) o) with
  | none =>
    refine cUpdt_silent con hp fun cc g hcc hg hok => ?_
    rw [hx] at hg
    simp [acceptedUpdt, hc, hcc, hg, hok] at hupdt
  | some y =>
    obtain ⟨cc, g⟩ := y
    obtain ⟨hok, hg⟩ := acceptedUpdt_ok hupdt
    have hcc : childConfigUnserialize P (CStr.ofBytes (payload.drop 4)) = some cc := by
      rw [acceptedUpdt, if_pos hc] at hupdt
      obtain ⟨cc', hcc, hbind⟩ := Option.bind_eq_some_iff.mp hupdt
      obtain ⟨g', -, hif⟩ := Option.bind_eq_some_iff.mp hbind
      split at hif
      · cases hif
        exact hcc
      · cases hif
    rw [← hx] at hl hg ⊢
    have hr := cUpdt_reads con hp (fun _ => rfl) hl hcc hg hok
    exact hr

theorem dele_notes (hc : findCommand payload = some .dele) :
    Reads statusOf (statusNotes P s (.callback (.request con cid payload) o)) s.io
      (next P s (.callback (.request con cid payload) o)).io := by
  have hp : Permits (Silent statusOf) := statusOf_permits
  have hspwn : findCommand payload ≠ some .spwn := by
    rw [hc]
    decide
  have hupdt : findCommand payload ≠ some .updt := by
    rw [hc]
    decide
  apply request_reads hp hc
  intro x hx _
  unfold statusNotes
  rw [acceptedSpwn_other hspwn, acceptedUpdt_other hupdt]
  cases hdele : requested P s .dele (.callback (.request con cid payload) o) with
  | none =>
    rw [requested, if_pos hc, ← hx] at hdele
    exact withNamedGroup_missing hp hdele
  | some y =>
    obtain ⟨obj, g⟩ := y
    rw [requested, if_pos hc] at hdele
    rw [← hx] at hdele ⊢
    obtain ⟨cid', hr⟩ := cDele_reads con hp hdele
    exact hr

theorem request_notes (hl : Linked s.reg) :
    Reads statusOf (statusNotes P s (.callback (.request con cid payload) o)) s.io
      (next P s (.callback (.request con cid payload) o)).io := by
  have hp : Permits (Silent statusOf) := statusOf_permits
  cases hc : findCommand payload with
  | none =>
    rw [otherRequest_notes (by simp [hc]) (by simp [hc]) (by simp [hc])]
    exact unknown_reads hp hc
  | some c =>
    have hother : c ≠ .spwn → c ≠ .updt → c ≠ .dele →
        statusNotes P s (.callback (.request con cid payload) o) = [] := fun h₁ h₂ h₃ =>
      otherRequest_notes (by simpa [hc] using h₁) (by simpa [hc] using h₂) (by simpa [hc] using h₃)
    have hquiet : statusNotes P s (.callback (.request con cid payload) o) = [] →
        (∀ x : Server, x.reg = s.reg → IoOutputs (Silent statusOf) x.io
          (runCommand P c x con (CStr.ofBytes (payload.drop 4))).1.io) →
        Reads statusOf (statusNotes P s (.callback (.request con cid payload) o)) s.io
          (next P s (.callback (.request con cid payload) o)).io := by
      intro hnil h
      rw [hnil]
      exact request_reads hp hc fun x hx _ => .silent (h x hx)
    cases c with
    | spwn => exact spwn_notes hc
    | updt => exact updt_notes hl hc
    | dele => exact dele_notes hc
    | dump => exact hquiet (hother nofun nofun nofun) fun x _ => (cDump_outputs hp).out
    | exit => exact hquiet (hother nofun nofun nofun) fun x _ => (cExit_outputs hp).out
    | getc =>
      exact hquiet (hother nofun nofun nofun) fun x hx => (cGetc_outputs (by rwa [hx]) hp).out
    | helo => exact hquiet (hother nofun nofun nofun) fun x _ => IoOutputs.refl.reply hp.writes rfl
    | kill =>
      exact hquiet (hother nofun nofun nofun) fun x hx =>
        (cKill_outputs (by rwa [hx]) hp (fun _ _ => rfl) fun _ _ _ _ _ => rfl).out
    | list => exact hquiet (hother nofun nofun nofun) fun x _ => IoOutputs.refl.reply hp.writes rfl
    | pids =>
      exact hquiet (hother nofun nofun nofun) fun x hx =>
        (cPids_outputs (by rwa [hx]) hp fun _ _ => rfl).out
    | read => exact hquiet (hother nofun nofun nofun) fun x _ => (cRead_outputs hp).out
    | subs => exact hquiet (hother nofun nofun nofun) fun x _ => (cSubs_outputs hp).out

end Requests

/-- The status notifications of a step are exactly these. -/
theorem step_notes (hl : Linked s.reg) (h : Step P s e u) :
    Reads statusOf (statusNotes P s e) s.io u.io := by
  have hp : Permits (Silent statusOf) := statusOf_permits
  obtain ⟨-, rfl⟩ := h
  cases e with
  | clock t => exact .silent .refl
  | childExit pid ret pos => exact .silent .refl
  | callback c o =>
    by_cases hc : Callback.isMajor c = false
    · have hnil : statusNotes P s (.callback c o) = [] := by
        cases c <;> first | rfl | cases hc
      rw [hnil]
      have hminor : IoOutputs (Silent statusOf) (install s o).io
          (runCallback P (install s o) c).io := (minor_outputs hp hc fun _ _ _ => rfl).out
      exact .silent hminor
    · cases c with
      | request con cid payload => exact request_notes hl
      | waitpid =>
        have hturn := turn_reads (P := P) (s := install s o) (o := o) hp
        have hnotes : statusNotes P s (.callback .waitpid o) =
            (brokenBy (install s o) (.callback .waitpid o)).elim [] fun g =>
              noted statusOf (.status ((install s o).reg.groups g).ccName statusBroken) := by
          have hby : brokenBy (install s o) (.callback .waitpid o) =
              brokenBy s (.callback .waitpid o) := rfl
          rw [hby]
          unfold statusNotes
          cases brokenBy s (.callback .waitpid o) with
          | none => rfl
          | some g => rfl
        rw [hnotes]
        exact hturn
      | _ => exact absurd rfl hc

end Notes

section Views

/-- A map from names to statuses. A client that has only been told of the creation of a group
does not know its status yet. -/
abbrev View := CStr → Option (Option ℤ)

/-- A client adds, removes or sets the name of a notification. -/
def applyNote (v : View) (n : CStr × ℤ) : View :=
  if n.2 = statusCreate then Function.update v n.1 (some none)
  else if n.2 = statusDelete then Function.update v n.1 none
  else Function.update v n.1 (some (some n.2))

/-- The map of the registered groups. -/
def statusMap (r : Registry) : View := fun n =>
  (r.childConfigList.find? fun g => (r.groups g).ccName = n).map fun g =>
    some (r.groups g).ccStatus

variable {r r' : Registry} {v : View} {n : CStr} {st : ℤ}

theorem statusMap_listed (hu : UniqueNames r) (hg : g ∈ r.childConfigList) :
    statusMap r (r.groups g).ccName = some (some (r.groups g).ccStatus) := by
  unfold statusMap
  cases hf : r.childConfigList.find? fun g' => (r.groups g').ccName = (r.groups g).ccName with
  | none =>
    have hno := List.find?_eq_none.mp hf g hg
    simp at hno
  | some g' =>
    have hname := List.find?_some hf
    have hsame := hu g' (List.mem_of_find?_eq_some hf) g hg (of_decide_eq_true hname)
    rw [hsame]
    rfl

theorem statusMap_unlisted (h : ∀ g ∈ r.childConfigList, (r.groups g).ccName ≠ n) :
    statusMap r n = none := by
  unfold statusMap
  rw [Option.map_eq_none_iff, List.find?_eq_none]
  intro g hg
  simpa using h g hg

/-- A map that agrees with the list is the map of the registered groups. -/
theorem view_eq (hu : UniqueNames r)
    (hin : ∀ g ∈ r.childConfigList, v (r.groups g).ccName = some (some (r.groups g).ccStatus))
    (hout : ∀ n, (∀ g ∈ r.childConfigList, (r.groups g).ccName ≠ n) → v n = none) :
    v = statusMap r := by
  funext n
  by_cases hn : ∃ g ∈ r.childConfigList, (r.groups g).ccName = n
  · obtain ⟨g, hg, rfl⟩ := hn
    rw [hin g hg, statusMap_listed hu hg]
  · have hno : ∀ g ∈ r.childConfigList, (r.groups g).ccName ≠ n := fun g hg he => hn ⟨g, hg, he⟩
    rw [hout n hno, statusMap_unlisted hno]

/-- A status code that does not stand for the creation or the deletion of a group. -/
def NoCode (st : ℤ) : Prop := st ≠ statusCreate ∧ st ≠ statusDelete

instance (st : ℤ) : Decidable (NoCode st) := inferInstanceAs (Decidable (_ ∧ _))

theorem applyNote_set (h : NoCode st) :
    applyNote v (n, st) = Function.update v n (some (some st)) := by
  unfold applyNote
  rw [if_neg h.1, if_neg h.2]

theorem applyNote_create :
    applyNote v (n, statusCreate) = Function.update v n (some none) := if_pos rfl

theorem applyNote_delete : applyNote v (n, statusDelete) = Function.update v n none := rfl

/-- A new group with a name that is not in use. -/
theorem view_insert (hu : UniqueNames r) (hu' : UniqueNames r')
    (hlist : r'.childConfigList = g :: r.childConfigList)
    (hgroups : ∀ g' ∈ r.childConfigList, r'.groups g' = r.groups g')
    (hnew : ∀ g' ∈ r.childConfigList, (r.groups g').ccName ≠ (r'.groups g).ccName) :
    Function.update (statusMap r) (r'.groups g).ccName (some (some (r'.groups g).ccStatus)) =
      statusMap r' := by
  apply view_eq hu'
  · intro g' hg'
    rw [hlist, List.mem_cons] at hg'
    rcases hg' with rfl | hg'
    · exact Function.update_self ..
    · rw [hgroups g' hg', Function.update_of_ne (hnew g' hg'), statusMap_listed hu hg']
  · intro n hn
    rw [hlist] at hn
    rw [Function.update_of_ne (hn g List.mem_cons_self).symm]
    refine statusMap_unlisted fun g' hg' => ?_
    rw [← hgroups g' hg']
    exact hn g' (List.mem_cons_of_mem _ hg')

/-- A deleted group. -/
theorem view_erase (hn : r.childConfigList.Nodup) (hu : UniqueNames r) (hu' : UniqueNames r')
    (hg : g ∈ r.childConfigList) (hlist : r'.childConfigList = r.childConfigList.erase g)
    (hgroups : r'.groups = r.groups) :
    Function.update (statusMap r) (r.groups g).ccName none = statusMap r' := by
  apply view_eq hu'
  · intro g' hg'
    rw [hlist, hn.mem_erase_iff] at hg'
    have hne : (r.groups g').ccName ≠ (r.groups g).ccName := fun h => hg'.1 (hu g' hg'.2 g hg h)
    rw [hgroups, Function.update_of_ne hne, statusMap_listed hu hg'.2]
  · intro n hno
    by_cases hname : n = (r.groups g).ccName
    · rw [hname, Function.update_self]
    · rw [Function.update_of_ne hname]
      refine statusMap_unlisted fun g' hg' => ?_
      by_cases hgg : g' = g
      · rw [hgg]
        exact fun h => hname h.symm
      · rw [← hgroups]
        apply hno
        rw [hlist]
        exact (List.mem_erase_of_ne hgg).mpr hg'

/-- A group with a new status. -/
theorem view_set (hu : UniqueNames r) (hu' : UniqueNames r') (hg : g ∈ r.childConfigList)
    (hlist : r'.childConfigList = r.childConfigList)
    (hname : ∀ g' ∈ r.childConfigList, (r'.groups g').ccName = (r.groups g').ccName)
    (hsame : ∀ g' ∈ r.childConfigList, g' ≠ g → (r'.groups g').ccStatus = (r.groups g').ccStatus) :
    Function.update (statusMap r) (r.groups g).ccName (some (some (r'.groups g).ccStatus)) =
      statusMap r' := by
  apply view_eq hu'
  · intro g' hg'
    rw [hlist] at hg'
    rw [hname g' hg']
    by_cases hgg : g' = g
    · rw [hgg, Function.update_self]
    · have hne : (r.groups g').ccName ≠ (r.groups g).ccName := fun h => hgg (hu g' hg' g hg h)
      rw [Function.update_of_ne hne, statusMap_listed hu hg', hsame g' hg' hgg]
  · intro n hno
    rw [hlist] at hno
    have hne : n ≠ (r.groups g).ccName := by
      rw [← hname g hg]
      exact (hno g hg).symm
    rw [Function.update_of_ne hne]
    refine statusMap_unlisted fun g' hg' => ?_
    rw [← hname g' hg']
    exact hno g' hg'

/-- No group changes its status. -/
theorem view_same (hu : UniqueNames r) (hu' : UniqueNames r')
    (hlist : r'.childConfigList = r.childConfigList)
    (hname : ∀ g' ∈ r.childConfigList, (r'.groups g').ccName = (r.groups g').ccName)
    (hsame : ∀ g' ∈ r.childConfigList, (r'.groups g').ccStatus = (r.groups g').ccStatus) :
    statusMap r = statusMap r' := by
  apply view_eq hu'
  · intro g' hg'
    rw [hlist] at hg'
    rw [hname g' hg', statusMap_listed hu hg', hsame g' hg']
  · intro n hno
    rw [hlist] at hno
    refine statusMap_unlisted fun g' hg' => ?_
    rw [← hname g' hg']
    exact hno g' hg'

end Views

section Steps

/-- Requests set a status that does not stand for the creation or the deletion of a group. -/
def RealStatuses (P : Platform) (s : Server) (e : Event) (_ : Server) : Prop :=
  (∀ cc ∈ acceptedSpwn P s e, NoCode cc.ccStatus) ∧
  ∀ x ∈ acceptedUpdt P s e, intChanges x.1.ccStatus (s.reg.groups x.2).ccStatus = true →
    NoCode x.1.ccStatus

instance : Decidable (RealStatuses P s e u) := inferInstanceAs (Decidable (_ ∧ _))

theorem brokenBy_eq_some : brokenBy s e = some g ↔ ∃ p ret, reaped s e = some (p, ret) ∧
    (s.reg.procs p).pChildConfig = some g ∧ Breaks ret s.clock (s.reg.groups g) := by
  constructor
  · intro h
    unfold brokenBy at h
    split at h
    · obtain ⟨⟨p, ret⟩, hr, h⟩ := Option.bind_eq_some_iff.mp h
      obtain ⟨g', hcfg, h⟩ := Option.bind_eq_some_iff.mp h
      split at h
      · rename_i hb
        cases h
        exact ⟨p, ret, hr, hcfg, hb⟩
      · cases h
    · cases h
  · rintro ⟨p, ret, hr, hcfg, hb⟩
    obtain ⟨o, rfl⟩ := reaped_waitpid hr
    change (reaped s (.callback .waitpid o)).bind _ = some g
    rw [hr, Option.bind_some]
    change (s.reg.procs p).pChildConfig.bind _ = some g
    rw [hcfg, Option.bind_some, if_pos hb]

/-- A step that is no accepted SPWN, UPDT or DELE and loads no dump keeps the list. -/
theorem quiet_list (hl : Linked s.reg) (h : Step P s e u) (hspwn : acceptedSpwn P s e = none)
    (hupdt : acceptedUpdt P s e = none) (hdele : requested P s .dele e = none)
    (hload : e.loads = none) : u.reg.childConfigList = s.reg.childConfigList := by
  obtain ⟨x, hx, he⟩ := step_effect hl h
  have hxspwn : acceptedSpwn P x e = none := (acceptedSpwn_of_reg hx.reg).trans hspwn
  have hxupdt : acceptedUpdt P x e = none := (acceptedUpdt_of_reg hx.reg).trans hupdt
  have hxdele : requested P x .dele e = none := (requested_of_reg hx.reg).trans hdele
  rw [← hx.reg]
  cases he with
  | kernel k hr _ _ => rw [hr]; rfl
  | process p f hr _ _ _ _ => rw [hr]; rfl
  | orphanExit p k _ _ hr _ _ => rw [hr]; rfl
  | deleted obj g' ha _ _ _ => rw [hxdele] at ha; cases ha
  | created cc ha _ => rw [hxspwn] at ha; cases ha
  | loaded file hf _ => rw [hload] at hf; cases hf
  | updated cc g' ha _ _ => rw [hxupdt] at ha; cases ha
  | exited g' i p ret _ hex => exact hex.list

/-- In such a step only the end of a process changes a status. -/
theorem quiet_status (hl : Linked s.reg) (h : Step P s e u) (hupdt : acceptedUpdt P s e = none)
    (hdele : requested P s .dele e = none) (hg : g ∈ s.reg.childConfigList) :
    (u.reg.groups g).ccStatus =
      if brokenBy s e = some g then statusBroken else (s.reg.groups g).ccStatus := by
  cases step_group hl h hg with
  | untouched hlisted hsame hquiet =>
    have hno : brokenBy s e ≠ some g := by
      intro hb
      obtain ⟨p, ret, hr, hcfg, -⟩ := brokenBy_eq_some.mp hb
      obtain ⟨l, hh, -⟩ := (step_exited hl h hr hcfg).hist
      rw [newHist_eq hh] at hquiet
      exact hquiet _ List.mem_cons_self rfl
    rw [if_neg hno, hsame]
  | deleted ha _ _ =>
    obtain ⟨obj, ha⟩ := ha
    rw [hdele] at ha
    cases ha
  | updated cc ha _ =>
    rw [hupdt] at ha
    cases ha
  | exited i p ret hr hex =>
    have hcfg := ((hl.placed g i p).mp hex.owned).2.1
    rw [hex.status]
    by_cases hb : Breaks ret s.clock (s.reg.groups g)
    · have hby : brokenBy s e = some g := brokenBy_eq_some.mpr ⟨p, ret, hr, hcfg, hb⟩
      rw [if_pos hby, counted, if_pos hb]
    · have hby : brokenBy s e ≠ some g := by
        intro hby
        obtain ⟨p', ret', hr', -, hb'⟩ := brokenBy_eq_some.mp hby
        rw [hr] at hr'
        obtain ⟨-, rfl⟩ := Prod.mk.inj (Option.some.inj hr')
        exact hb hb'
      rw [if_neg hby, counted, if_neg hb]
      split <;> rfl

theorem started_noLoad (hs : s.started = true) (h : Step P s e u) : e.loads = none := by
  cases hload : e.loads with
  | none => rfl
  | some file =>
    have hno := load_unstarted h hload
    rw [hs] at hno
    cases hno

theorem started_unique (hl : Linked s.reg) (hs : s.started = true) (h : Step P s e u)
    (hu : UniqueNames s.reg) : UniqueNames u.reg := by
  refine step_unique hl (fun hno => ?_) h ?_ hu
  · rw [hs] at hno
    cases hno
  · rw [LoadsDistinct, loadedGroups, started_noLoad hs h]
    exact List.nodup_nil

/-- The notifications of a step turn the map before it into the map after it. -/
theorem step_view (hl : Linked s.reg) (hs : s.started = true) (hu : UniqueNames s.reg)
    (h : Step P s e u) (hq : RealStatuses P s e u) :
    (statusNotes P s e).foldl applyNote (statusMap s.reg) = statusMap u.reg := by
  have hload := started_noLoad hs h
  have hu' := started_unique hl hs h hu
  unfold statusNotes
  cases hspwn : acceptedSpwn P s e with
  | some cc =>
    have hc := step_created hl h hspwn
    have hname : (u.reg.groups s.reg.nextGroup).ccName = cc.ccName := hc.name
    have hstatus : (u.reg.groups s.reg.nextGroup).ccStatus = cc.ccStatus := hc.status
    have hinsert := view_insert hu hu' hc.list
      (fun g' hg' => hc.groups g' (hl.listed g' hg').ne) fun g' hg' => by
        rw [hname]
        exact find_name_none hl (accepted_new_name hspwn) hg'
    rw [hname, hstatus] at hinsert
    change applyNote (applyNote (statusMap s.reg) (cc.ccName, statusCreate))
      (cc.ccName, cc.ccStatus) = _
    rw [applyNote_create, applyNote_set (hq.1 cc hspwn), Function.update_idem]
    exact hinsert
  | none =>
    cases hupdt : acceptedUpdt P s e with
    | some x =>
      obtain ⟨cc, g⟩ := x
      have hup := step_updated hl h hupdt
      have hg : g ∈ s.reg.childConfigList := (hl.find_name (acceptedUpdt_ok hupdt).2).1
      have hstatus := hup.status
      have hnames : ∀ g' ∈ s.reg.childConfigList,
          (u.reg.groups g').ccName = (s.reg.groups g').ccName := by
        intro g' hg'
        exact step_name hl h hg' (by rw [hup.list]; exact hg')
      have hothers : ∀ g' ∈ s.reg.childConfigList, g' ≠ g →
          (u.reg.groups g').ccStatus = (s.reg.groups g').ccStatus := by
        intro g' _ hne
        rw [hup.concerns.groups g' hne]
      dsimp only
      by_cases hc : intChanges cc.ccStatus (s.reg.groups g).ccStatus = true
      · have hset := view_set hu hu' hg hup.list hnames hothers
        rw [hstatus, intOr_changes hc] at hset
        rw [if_pos hc, List.foldl_cons, List.foldl_nil, applyNote_set (hq.2 _ hupdt hc)]
        exact hset
      · rw [if_neg hc]
        refine view_same hu hu' hup.list hnames fun g' hg' => ?_
        by_cases hgg : g' = g
        · rw [hgg, hstatus, intOr_same (Bool.eq_false_iff.mpr hc)]
        · exact hothers g' hg' hgg
    | none =>
      cases hdele : requested P s .dele e with
      | some x =>
        obtain ⟨obj, g⟩ := x
        obtain ⟨hreg, -⟩ := step_deleted h hdele
        rw [orphanAll_keeps] at hreg
        have hlist : u.reg.childConfigList = s.reg.childConfigList.erase g := by
          rw [hreg]
          rfl
        have hgroups : u.reg.groups = s.reg.groups := by
          rw [hreg]
          rfl
        change applyNote (statusMap s.reg) ((s.reg.groups g).ccName, statusDelete) = _
        rw [applyNote_delete]
        exact view_erase hl.nodup hu hu' (requested_listed hl hdele) hlist hgroups
      | none =>
        have hlist := quiet_list hl h hspwn hupdt hdele hload
        have hnames : ∀ g' ∈ s.reg.childConfigList,
            (u.reg.groups g').ccName = (s.reg.groups g').ccName := by
          intro g' hg'
          exact step_name hl h hg' (by rw [hlist]; exact hg')
        cases hby : brokenBy s e with
        | none =>
          refine view_same hu hu' hlist hnames fun g' hg' => ?_
          rw [quiet_status hl h hupdt hdele hg', hby, if_neg nofun]
        | some g =>
          obtain ⟨p, ret, hr, hcfg, -⟩ := brokenBy_eq_some.mp hby
          have hg : g ∈ s.reg.childConfigList := (step_exited hl h hr hcfg).owned.1
          have hset := view_set hu hu' hg hlist hnames fun g' hg' hne => by
            rw [quiet_status hl h hupdt hdele hg', hby,
              if_neg fun he => hne (Option.some.inj he).symm]
          rw [quiet_status hl h hupdt hdele hg, if_pos hby] at hset
          have hreal : NoCode statusBroken := by decide
          change applyNote (statusMap s.reg) ((s.reg.groups g).ccName, statusBroken) = _
          rw [applyNote_set hreal]
          exact hset

end Steps

section Runs

/-- The client is subscribed to status notifications. -/
def Subscribed (sub : Subscription) (s : Server) : Prop :=
  sub ∈ s.io.subscriptions ∧ sub.sIdent &&& subsStatus ≠ 0

instance : Decidable (Subscribed sub s) := inferInstanceAs (Decidable (_ ∧ _))

/-- Nobody is subscribed before the first callback. -/
theorem subscribed_started (h : Reachable P s) (hsub : Subscribed sub s) : s.started = true := by
  obtain ⟨a, b, t, h⟩ := h
  have hall : s.started = false → s.io.subscriptions = [] := by
    refine h.invariant_under (I := fun s => Linked s.reg)
      (P := fun s => s.started = false → s.io.subscriptions = [])
      (fun _ _ _ hl hs _ => step_linked hl hs) ?_ Registry.linked_init fun _ => rfl
    intro s e u hl hs hstep _ hu
    have ho := step_outputs hl hstep
    obtain ⟨-, rfl⟩ := hstep
    cases e with
    | clock t => exact hs hu
    | childExit pid ret pos => exact hs hu
    | callback c o =>
      rw [ho.started c o rfl] at hu
      cases hu
  by_contra hno
  have hnil := hall (Bool.eq_false_iff.mpr hno)
  have hmem := hsub.1
  rw [hnil] at hmem
  cases hmem

/-- The view of a client that started from the map in `s` and has seen everything up to `u`. -/
def viewAfter (sub : Subscription) (s u : Server) : View :=
  ((newOut s u).filterMap (noteOf sub)).foldl applyNote (statusMap s.reg)

/-- Runs without the two notification codes, during which the client stays subscribed. -/
def Watched (P : Platform) (sub : Subscription) (s : Server) (e : Event) (u : Server) : Prop :=
  RealStatuses P s e u ∧ Subscribed sub u

instance : Decidable (Watched P sub s e u) := inferInstanceAs (Decidable (_ ∧ _))

/-- A subscriber's view is the map of the registered groups after every step. -/
theorem run_mirrored (h : Reachable P s) (hsub : Subscribed sub s) (hu : UniqueNames s.reg)
    (hrun : Execution (Step P) (Watched P sub) s u) : viewAfter sub s u = statusMap u.reg := by
  have hs := subscribed_started h hsub
  have hall : (Linked u.reg ∧ u.started = true ∧ UniqueNames u.reg) ∧
      ∃ l, Reads statusOf l s.io u.io ∧ l.foldl applyNote (statusMap s.reg) = statusMap u.reg := by
    induction hrun with
    | refl => exact ⟨⟨ReachableBy.linked h, hs, hu⟩, [], .silent .refl, rfl⟩
    | tail _ hstep hq ih =>
      obtain ⟨⟨hl, hstarted, hunique⟩, l, hreads, hview⟩ := ih
      have hnotes := step_notes hl hstep
      have hnext := step_view hl hstarted hunique hstep hq.1
      refine ⟨⟨step_linked hl hstep, step_started hl hstep hstarted,
        started_unique hl hstarted hstep hunique⟩, _, hreads.trans hnotes, ?_⟩
      rw [List.foldl_append, hview, hnext]
  obtain ⟨-, l, hreads, hview⟩ := hall
  rw [viewAfter, noteOf_status hsub.2, hreads.newOut]
  exact hview

def statusRequest (status : ℤ) : Json :=
  .object [(text "name", .string (text "web")), (text "args", .array [.string (text "/bin/web")]),
    (text "status", .int status)]

def watchRequest : Json := .object [(text "ident", .int 2)]

def watchPlatform : Platform := sample
  [printed watchRequest, printed (statusRequest 1), printed (statusRequest 5), printed stopRequest]

/-- A client that is subscribed to status notifications. -/
def watchState : Server := stateAfter (next watchPlatform) (initial false false 100)
  [connecting, asking "SUBS" watchRequest []]

def watcher : Subscription := ⟨0, 2, 1⟩

theorem watchState_reachable : Reachable watchPlatform watchState := by
  have h : Admits Enabled (next watchPlatform) Always (initial false false 100)
    [connecting, asking "SUBS" watchRequest []] := by decide +kernel
  exact ⟨false, false, 100, h.execution⟩

/-- A group is started and stopped. -/
def watchedRun : List Event := [asking "SPWN" (statusRequest 1) [100], asking "UPDT" stopRequest []]

theorem watchedRun_mirrored : viewAfter watcher watchState
    (stateAfter (next watchPlatform) watchState watchedRun) =
      statusMap (stateAfter (next watchPlatform) watchState watchedRun).reg := by
  have hrun : Admits Enabled (next watchPlatform) (Watched watchPlatform watcher) watchState
    watchedRun := by decide +kernel
  exact run_mirrored watchState_reachable (by decide +kernel) (by decide +kernel) hrun.execution

/-- A group that is started with `STATUS_DELETE` looks like a deleted one. -/
theorem deadStart_unmirrored : ¬ ∀ (P : Platform) (sub : Subscription) (s u : Server),
    Reachable P s → Subscribed sub s → UniqueNames s.reg →
      Execution (Step P) (fun _ _ u => Subscribed sub u) s u →
        viewAfter sub s u = statusMap u.reg := by
  intro h
  have hrun : Admits Enabled (next watchPlatform) (fun _ _ u => Subscribed watcher u) watchState
    [asking "SPWN" (statusRequest 5) []] := by decide +kernel
  have hview := congrFun (h watchPlatform watcher watchState _ watchState_reachable
    (by decide +kernel) (by decide +kernel) hrun.execution) (CStr.ofBytes (text "web"))
  revert hview
  decide +kernel

end Runs

end UbervisorStatusNotes
