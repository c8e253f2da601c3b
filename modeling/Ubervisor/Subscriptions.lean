import Ubervisor.Delivery
import Ubervisor.StatusNotes

/-! # Subscriptions and connections

Every path that closes a connection takes the client's subscriptions with it, so that
`send_notification` only ever writes to connected clients. -/
namespace UbervisorSubscriptions

open UbervisorRuns
open UbervisorValues
open UbervisorKernel
open UbervisorRegistry
open UbervisorChunks
open UbervisorReadCallback (Command findCommand)
open UbervisorServer
open UbervisorCommands
open UbervisorEvents
open UbervisorSupervision
open UbervisorEffects
open UbervisorAnswers
open UbervisorReplies
open UbervisorDelivery
open UbervisorStatusNotes

/-- `send_notification`. `n` is the `int` by its bits, and `s_ident` is widened to it. -/
def sendNotification (n : UInt32) (ret : Bytes) (io : Io) : Io :=
  (io.subscriptions.filter fun s => s.sIdent.toUInt32 &&& n ≠ 0).foldl
    (fun io s => io.write s.sClient (notificationFrame s.sCid ret)) io

section Sending

variable {P : Platform} {io : Io} {con : ClientId}

theorem ident_and (a b : UInt16) : a.toUInt32 &&& b.toUInt32 ≠ 0 ↔ a &&& b ≠ 0 := by
  rw [← UInt16.toUInt32_and, not_iff_not]
  constructor
  · intro h
    exact UInt16.toUInt32_inj.mp h
  · intro h
    rw [h]
    rfl

/-- The notifications of the server are sent by this function. -/
theorem notify_sends (n : Notification) : io.notify P n =
    sendNotification n.ident.toUInt32 (n.payload P) (io.emit (.notify n)) := by
  simp only [Io.notify, sendNotification, ident_and, Io.emit]

/-- The frames of one call for a client. -/
def framesOf (n : UInt32) (ret : Bytes) (subs : List Subscription) (con : ClientId) : Bytes :=
  (subs.filter fun s => s.sClient = con ∧ s.sIdent.toUInt32 &&& n ≠ 0).flatMap fun s =>
    notificationFrame s.sCid ret

theorem sendNotification_clients (n : UInt32) (ret : Bytes) (io : Io) :
    (sendNotification n ret io).clients = grown (framesOf n ret io.subscriptions) io.clients := by
  rw [sendNotification, foldl_write]
  refine congrArg (grown · _) (funext fun con => ?_)
  unfold framesOf
  induction io.subscriptions with
  | nil => rfl
  | cons s l ih =>
    simp only [List.filter_cons, decide_eq_true_eq]
    by_cases hn : s.sIdent.toUInt32 &&& n ≠ 0
    · rw [if_pos hn, List.flatMap_cons, ih]
      by_cases hc : s.sClient = con
      · rw [if_pos hc.symm, if_pos ⟨hc, hn⟩, List.flatMap_cons]
      · rw [if_neg (Ne.symm hc), if_neg fun h => hc h.1, List.nil_append]
    · rw [if_neg hn, if_neg fun h => hn h.2, ih]

/-- Only the outputs of clients change. -/
theorem foldl_write_frame (subs : List Subscription) (frame : Subscription → Bytes) (io : Io) :
    subs.foldl (fun io s => io.write s.sClient (frame s)) io = { io with clients :=
      (subs.foldl (fun io s => io.write s.sClient (frame s)) io).clients } := by
  induction subs generalizing io with
  | nil => rfl
  | cons s subs ih =>
    rw [List.foldl_cons, ih]
    rfl

end Sending

/-- Clients are told apart, and every subscription belongs to one of them. -/
structure Attached (io : Io) : Prop where
  distinct : (io.clients.map ClientCon.cId).Nodup
  connected : ∀ s ∈ io.subscriptions, s.sClient ∈ io.clients.map ClientCon.cId

/-- Neither who is connected nor who is subscribed changes. -/
structure Unmoved (io io' : Io) : Prop where
  ids : io'.clients.map ClientCon.cId = io.clients.map ClientCon.cId
  subs : io'.subscriptions = io.subscriptions

section Preservation

variable {P : Platform} {s u x : Server} {io io' io'' : Io} {con : ClientId} {cid : UInt16}
  {payload : Bytes} {o : Oracle} {e : Event} {rs : List Answer} {w : Prop} {buf : CStr}
  {c : Command}

theorem Unmoved.refl : Unmoved io io := ⟨rfl, rfl⟩

theorem Unmoved.trans (h : Unmoved io io') (k : Unmoved io' io'') : Unmoved io io'' :=
  ⟨k.ids.trans h.ids, k.subs.trans h.subs⟩

theorem Attached.unmoved (ha : Attached io) (h : Unmoved io io') : Attached io' where
  distinct := by
    rw [h.ids]
    exact ha.distinct
  connected s hs := by
    rw [h.subs] at hs
    rw [h.ids]
    exact ha.connected s hs

theorem Answers.unmoved (h : Answers P rs w io io') : Unmoved io io' := by
  obtain ⟨l, hl, -, -⟩ := h
  refine ⟨?_, hl.subs⟩
  rw [hl.clients, grown_cId]

theorem OneReply.unmoved (h : OneReply P con w s u) : Unmoved s.io u.io := by
  obtain ⟨r, hr⟩ := h
  exact Answers.unmoved hr

theorem setCid_unmoved (con : ClientId) (cid : UInt16) :
    Unmoved s.io (s.withIo (setCid con cid)).io :=
  ⟨setCid_ids s con cid, rfl⟩

/-- A connection is dropped with all its subscriptions. -/
theorem Attached.drop (ha : Attached io) (con : ClientId) :
    Attached (io.dropClientConnection con) where
  distinct := ha.distinct.sublist (List.filter_sublist.map _)
  connected s hs := by
    obtain ⟨hmem, hne⟩ := List.mem_filter.mp hs
    obtain ⟨c, hc, hid⟩ := List.mem_map.mp (ha.connected s hmem)
    refine List.mem_map.mpr ⟨c, List.mem_filter.mpr ⟨hc, ?_⟩, hid⟩
    rw [hid]
    exact hne

theorem Attached.accept (ha : Attached io) (hcon : con ∉ io.clients.map ClientCon.cId) :
    Attached { io with clients := ⟨con, 0, []⟩ :: io.clients } where
  distinct := List.nodup_cons.mpr ⟨hcon, ha.distinct⟩
  connected s hs := List.mem_cons_of_mem _ (ha.connected s hs)

theorem Attached.subscribe (ha : Attached io) {sub : Subscription}
    (hcon : sub.sClient ∈ io.clients.map ClientCon.cId) :
    Attached { io with subscriptions := sub :: io.subscriptions } where
  distinct := ha.distinct
  connected s hs := by
    rcases List.mem_cons.mp hs with rfl | hs
    · exact hcon
    · exact ha.connected s hs

theorem cSubs_attached (ha : Attached s.io) (hcon : Connected s con) :
    Attached (cSubs P s con buf).1.io := by
  have hsent : ∀ (x : Server) (code : Bool) (msg : String), Attached x.io →
      Attached (sendStatusMsg P x con code msg).io := fun x code msg hx =>
    hx.unmoved (Answers.unmoved (.reply con (.status code (text msg))))
  unfold cSubs
  cases parseObject P buf with
  | none => exact hsent s _ _ ha
  | some obj =>
    cases hident : intField obj "ident" with
    | none =>
      simp only [hident]
      exact hsent s _ _ ha
    | some ident =>
      simp only [hident]
      exact hsent _ _ _ (ha.subscribe hcon)

/-- Apart from SUBS no command changes who is subscribed. -/
theorem runCommand_attached (hl : Linked s.reg) (ha : Attached s.io) (hcon : Connected s con) :
    Attached (runCommand P c s con buf).1.io := by
  have hreply : ∀ r, Attached (sendReply P s con r).io := fun r =>
    ha.unmoved (Answers.unmoved (.reply con r))
  cases c with
  | subs => exact cSubs_attached ha hcon
  | helo => exact hreply _
  | list => exact hreply _
  | dele => exact ha.unmoved (OneReply.unmoved cDele_replied)
  | getc => exact ha.unmoved (OneReply.unmoved cGetc_replied)
  | kill => exact ha.unmoved (OneReply.unmoved cKill_replied)
  | pids => exact ha.unmoved (OneReply.unmoved cPids_replied)
  | read => exact ha.unmoved (OneReply.unmoved cRead_replied)
  | dump => exact ha.unmoved (Answers.unmoved (cDump_replied s con))
  | exit => exact ha.unmoved (Answers.unmoved (cExit_replied s con))
  | spwn => exact ha.unmoved (Answers.unmoved (cSpwn_replied s con buf))
  | updt => exact ha.unmoved (Answers.unmoved (cUpdt_replied hl con buf))

theorem request_attached (hl : Linked s.reg) (ha : Attached s.io) (hcon : Connected s con) :
    Attached (request P s con cid payload).io := by
  have hset := ha.unmoved (setCid_unmoved con cid)
  have hreset : ∀ x : Server, Attached x.io → Attached (x.withIo (setCid con 0)).io :=
    fun x hx => hx.unmoved (setCid_unmoved con 0)
  have hcon' : Connected (s.withIo (setCid con cid)) con := (setCid_keeps con cid hcon).1
  apply hreset
  unfold runServerCommand
  cases findCommand payload with
  | none => exact hset.drop con
  | some c =>
    have hrun : Attached (runCommand P c (s.withIo (setCid con cid)) con
        (CStr.ofBytes (payload.drop 4))).1.io := runCommand_attached hl hset hcon'
    dsimp only
    split
    · exact hrun
    · exact hrun.drop con

theorem acceptCb_attached {a : Accept} (ha : Attached s.io) (hr : Ready s (.accept a)) :
    Attached (acceptCb P s a).io := by
  have hlog : ∀ msg, Attached (slog P s msg).io := fun msg =>
    ha.unmoved (Answers.unmoved (slog_quiet s msg).answers)
  cases a with
  | again => exact ha
  | failed => exact hlog _
  | noBuffer => exact hlog _
  | noEnable => exact hlog _
  | connected con => exact ha.accept hr

theorem runCallback_attached {c : Callback} (hl : Linked s.reg) (ha : Attached s.io)
    (hnew : ∀ a, c = .accept a → Ready s (.accept a))
    (hcon : ∀ con cid payload, c = .request con cid payload → Connected s con) :
    Attached (runCallback P s c).io := by
  have hsilent : ∀ u : Server, Silently P s u → Attached u.io := fun u h =>
    ha.unmoved (Answers.unmoved h.quiet.answers)
  cases c with
  | accept a => exact acceptCb_attached ha (hnew a rfl)
  | request con cid payload => exact request_attached hl ha (hcon con cid payload rfl)
  | badLength con tooLarge =>
    have hlog : ∀ msg, Attached (slog P s msg).io := fun msg =>
      ha.unmoved (Answers.unmoved (slog_quiet s msg).answers)
    exact (hlog _).drop con
  | error con => exact ha.drop con
  | loadDump file => exact ha.unmoved (Answers.unmoved (loadDumpCb_quiet s file).answers)
  | loadNewest file => exact ha.unmoved (Answers.unmoved (loadDump_quiet s file).answers)
  | sigchld => exact ha
  | waitpid => exact ha.unmoved (Answers.unmoved (sigchldTurn_quiet s).1.answers)
  | sighup reopened => exact hsilent _ (sighupCb_silently s reopened)
  | heartbeat p => exact hsilent _ (heartbeatCb_silently s p)
  | childRead p buf => exact hsilent _ (Silently.refl.slog _)
  | childError p => exact hsilent _ (childErrorCb_silently s p)

theorem step_attached (hl : Linked s.reg) (ha : Attached s.io) (h : Step P s e u) :
    Attached u.io := by
  obtain ⟨hen, rfl⟩ := h
  cases e with
  | clock t => exact ha
  | childExit pid ret pos => exact ha
  | callback c o =>
    have hinstall : Attached (install s o).io := ha.unmoved ⟨rfl, rfl⟩
    obtain ⟨-, -, hready⟩ := hen
    refine runCallback_attached (s := install s o) hl hinstall ?_ ?_
    · rintro a rfl
      cases a <;> exact hready
    · rintro con cid payload rfl
      exact hready.1

end Preservation

section Runs

variable {P : Platform} {s : Server}

theorem initial_attached (a b : Bool) (t : ℤ) : Attached (initial a b t).io where
  distinct := List.nodup_nil
  connected _ h := absurd h List.not_mem_nil

theorem reachable_attached (h : Reachable P s) : Attached s.io := by
  obtain ⟨a, b, t, h⟩ := h
  exact h.invariant_under (I := fun s => Linked s.reg) (P := fun s => Attached s.io)
    (fun _ _ _ hl hs _ => step_linked hl hs) (fun _ _ _ hl ha hs _ => step_attached hl ha hs)
    Registry.linked_init (initial_attached a b t)

/-- Subscriptions belong to connected clients. One call of `send_notification` appends to the
output of each client one frame for each of its subscriptions that shares a bit with `n`, in the
order of the list, and changes nothing else. -/
theorem reachable_subscriptions (h : Reachable P s) (n : UInt32) (ret : Bytes) :
    (s.io.clients.map ClientCon.cId).Nodup ∧
    (∀ sub ∈ s.io.subscriptions, Connected s sub.sClient) ∧
    (sendNotification n ret s.io).clients = s.io.clients.map (fun c =>
      { c with output := c.output ++ (s.io.subscriptions.filter fun sub =>
          sub.sClient = c.cId ∧ sub.sIdent.toUInt32 &&& n ≠ 0).flatMap fun sub =>
            notificationFrame sub.sCid ret }) ∧
    (∀ c ∈ s.io.clients, (∀ sub ∈ s.io.subscriptions,
        sub.sClient = c.cId → sub.sIdent.toUInt32 &&& n = 0) →
      c ∈ (sendNotification n ret s.io).clients) ∧
    sendNotification n ret s.io =
      { s.io with clients := (sendNotification n ret s.io).clients } := by
  have ha := reachable_attached h
  have hclients := sendNotification_clients n ret s.io
  refine ⟨ha.distinct, ha.connected, hclients, fun c hc hno => ?_, ?_⟩
  · rw [hclients]
    refine List.mem_map.mpr ⟨c, hc, ?_⟩
    have hnone : (s.io.subscriptions.filter fun sub =>
        sub.sClient = c.cId ∧ sub.sIdent.toUInt32 &&& n ≠ 0) = [] := by
      rw [List.filter_eq_nil_iff]
      intro sub hsub hboth
      simp only [decide_eq_true_eq] at hboth
      exact hboth.2 (hno sub hsub hboth.1)
    rw [framesOf, hnone]
    simp
  · exact foldl_write_frame _ _ _

/-- One subscriber to status notifications, and a call for two of the kinds. -/
theorem watchState_subscriptions : Connected watchState watcher.sClient ∧
    (sendNotification 6 (text "x") watchState.io).clients.map ClientCon.output =
      watchState.io.clients.map fun c => c.output ++ notificationFrame 1 (text "x") := by
  obtain ⟨-, hconnected, hclients, -⟩ :=
    reachable_subscriptions watchState_reachable 6 (text "x")
  refine ⟨hconnected watcher (by decide +kernel), ?_⟩
  have hsubs : ∀ c ∈ watchState.io.clients, (watchState.io.subscriptions.filter fun sub =>
      sub.sClient = c.cId ∧ sub.sIdent.toUInt32 &&& 6 ≠ 0) = [watcher] := by decide +kernel
  rw [hclients, List.map_map]
  refine List.map_congr_left fun c hc => ?_
  simp only [Function.comp_apply, hsubs c hc, List.flatMap_singleton]
  rfl

end Runs

end UbervisorSubscriptions
