import Ubervisor.ChunkFormat
import Ubervisor.Connections
import Ubervisor.Pipes
import Ubervisor.Subscriptions

/-! # Conversations

What a client is sent while it is connected: the replies to its requests, in their order, and
notifications between them. Each is written in one piece, so that a client can read them back
one after the other. -/
namespace UbervisorConversations

open UbervisorRuns
open UbervisorValues
open UbervisorRegistry
open UbervisorChunks
open UbervisorReadCallback (Command findCommand)
open UbervisorServer
open UbervisorCommands
open UbervisorEvents
open UbervisorSupervision
open UbervisorEffects
open UbervisorTranscripts
open UbervisorAnswers
open UbervisorReplies
open UbervisorDelivery
open UbervisorJsonC (connecting)
open UbervisorConnections (accepted requestIn lonePlatform)
open UbervisorPipes
open UbervisorSockets
open UbervisorPythonClient

/-- A reply or a notification, as it is sent to one client. -/
structure Message where
  note : Bool
  cid : UInt16
  text : Bytes
  deriving DecidableEq

def Message.bytes (m : Message) : Bytes :=
  if m.note then notificationFrame m.cid m.text else messageBytes m.cid m.text

/-- The messages of an output for a client. -/
def messagesTo (P : Platform) (subs : List Subscription) (con : ClientId) : Output → List Message
  | .reply con' cid r => if con = con' then [⟨false, cid, P.jsonPrint r.json⟩] else []
  | .notify n => (subs.filter fun s => s.sIdent &&& n.ident ≠ 0).flatMap fun s =>
      if con = s.sClient then [⟨true, s.sCid, n.payload P⟩] else []
  | _ => []

/-- The server, and for each client what it was sent since it is connected, which of that has
been flushed, and the ids of the requests of a known kind it has made. -/
structure Conversation where
  server : Server
  sent : ClientId → List Message
  flushed : ClientId → Bytes
  asked : ClientId → List UInt16

/-- Buffers are flushed between callbacks. -/
def CanTalk (d : Conversation) : Move → Prop
  | .server e => Enabled d.server e
  | .flush con n => Alive d.server ∧ d.server.inSigchld = false ∧ Connected d.server con ∧
      n ≤ (outputIn d.server.io.clients con).length

instance (d : Conversation) : (m : Move) → Decidable (CanTalk d m)
  | .server e => inferInstanceAs (Decidable (Enabled d.server e))
  | .flush _ _ => inferInstanceAs (Decidable (_ ∧ _ ∧ _ ∧ _))

def askedBy (d : ClientId → List UInt16) (e : Event) : ClientId → List UInt16 :=
  match requestIn e with
  | some (con, cid, payload) =>
    if findCommand payload = none then d else Function.update d con (d con ++ [cid])
  | none => d

def talk (P : Platform) (d : Conversation) : Move → Conversation
  | .server e =>
    let u := next P d.server e
    match accepted e with
    | some con =>
      { server := u
        sent := Function.update d.sent con []
        flushed := Function.update d.flushed con []
        asked := Function.update d.asked con [] }
    | none =>
      { server := u
        sent := fun con => d.sent con ++
          (newOut d.server u).flatMap (messagesTo P d.server.io.subscriptions con)
        flushed := d.flushed
        asked := askedBy d.asked e }
  | .flush con n =>
    { d with
      server := d.server.withIo (flush con n)
      flushed := Function.update d.flushed con
        (d.flushed con ++ (outputIn d.server.io.clients con).take n) }

abbrev Talk (P : Platform) : Conversation → Move → Conversation → Prop := Guarded CanTalk (talk P)

def silence (s : Server) : Conversation := ⟨s, fun _ => [], fun _ => [], fun _ => []⟩

def wireOf (l : List Message) : Bytes := l.flatMap Message.bytes

section Steps

variable {P : Platform} {s u v : Server} {e : Event} {con con' : ClientId} {o : Output}
  {subs : List Subscription} {rs rs' : List Answer} {w : Prop}

/-- An output goes to a client message by message. -/
theorem bytesTo_messages (subs : List Subscription) (con : ClientId) (o : Output) :
    bytesTo P subs con o = wireOf (messagesTo P subs con o) := by
  cases o with
  | reply con' cid r =>
    by_cases hcon : con = con'
    · simp [bytesTo, messagesTo, wireOf, Message.bytes, hcon]
    · simp [bytesTo, messagesTo, wireOf, hcon]
  | notify n =>
    unfold bytesTo messagesTo wireOf
    dsimp only
    rw [List.flatMap_assoc]
    refine List.flatMap_congr fun s _ => ?_
    split
    · simp [Message.bytes]
    · rfl
  | _ => rfl

/-- The answers among the outputs are `rs`, and what a client that is connected in the end holds
has grown by its share of the outputs. -/
def Appends (P : Platform) (subs : List Subscription) (rs : List Answer) (s u : Server) : Prop :=
  ∃ l, u.io.out = s.io.out ++ l ∧ l.filterMap answerOf = rs ∧
    ∀ con, Connected u con → Connected s con ∧
      outputIn u.io.clients con = outputIn s.io.clients con ++ l.flatMap (bytesTo P subs con)

theorem Appends.refl : Appends P subs [] s s :=
  ⟨[], (List.append_nil _).symm, rfl, fun _ h => ⟨h, (List.append_nil _).symm⟩⟩

theorem Appends.trans (h : Appends P subs rs s u) (k : Appends P subs rs' u v) :
    Appends P subs (rs ++ rs') s v := by
  obtain ⟨l, hl, hrs, hcon⟩ := h
  obtain ⟨m, hm, hrs', hcon'⟩ := k
  refine ⟨l ++ m, ?_, ?_, fun con hv => ?_⟩
  · rw [hm, hl, List.append_assoc]
  · rw [List.filterMap_append, hrs, hrs']
  · obtain ⟨hu, hout'⟩ := hcon' con hv
    obtain ⟨hs, hout⟩ := hcon con hu
    refine ⟨hs, ?_⟩
    rw [hout', hout, List.flatMap_append, List.append_assoc]

/-- Neither outputs nor what the clients hold change. -/
theorem Appends.same (ho : u.io.out = s.io.out)
    (hc : ∀ con, Connected u con → Connected s con ∧
      outputIn u.io.clients con = outputIn s.io.clients con) : Appends P subs [] s u := by
  refine ⟨[], by rw [ho, List.append_nil], rfl, fun con hu => ?_⟩
  obtain ⟨hs, hout⟩ := hc con hu
  exact ⟨hs, by rw [hout, List.flatMap_nil, List.append_nil]⟩

theorem Appends.io (h : u.io = s.io) : Appends P subs [] s u := by
  refine .same (by rw [h]) fun con hu => ?_
  unfold Connected at hu ⊢
  rw [h] at hu ⊢
  exact ⟨hu, rfl⟩

theorem Appends.install (s : Server) (o : Oracle) : Appends P subs [] s (install s o) :=
  .same rfl fun _ h => ⟨h, rfl⟩

theorem Appends.setCid (s : Server) (con : ClientId) (cid : UInt16) :
    Appends P subs [] s (s.withIo (setCid con cid)) := by
  refine .same rfl fun con' hu => ?_
  have hs : Connected s con' := by
    rw [Connected, setCid_ids] at hu
    exact hu
  exact ⟨hs, (setCid_keeps con cid hs).2⟩

/-- A connection that is dropped loses what it holds. -/
theorem Appends.drop (s : Server) (con : ClientId) :
    Appends P subs [] s (dropClientConnection s con) := by
  refine ⟨[.dropped con], rfl, rfl, fun con' hu => ?_⟩
  have hne : con' ≠ con := by
    rintro rfl
    exact not_connected_drop s con' hu
  obtain ⟨c, hc, hid⟩ := List.mem_map.mp hu
  refine ⟨List.mem_map.mpr ⟨c, List.mem_of_mem_filter hc, hid⟩, ?_⟩
  have hsame : outputIn (dropClientConnection s con).io.clients con' =
      outputIn s.io.clients con' := outputIn_filter hne
  rw [hsame]
  exact (List.append_nil _).symm

theorem Appends.answered (h : Answered P rs w s.io u.io) :
    Appends P s.io.subscriptions rs s u := by
  obtain ⟨l, hl, hclients, hrs, -⟩ := h
  refine ⟨l, hl, hrs, fun con hu => ?_⟩
  have hs : Connected s con := by
    rw [Connected, hclients, grown_cId] at hu
    exact hu
  rw [hclients]
  exact ⟨hs, outputIn_grown hs⟩

theorem Appends.quiet (h : Quiet P False s.io u.io) : Appends P s.io.subscriptions [] s u :=
  .answered (Answers.answered h.answers)

/-- The request of a known kind is answered, and nobody else is. -/
theorem request_appends (hl : Linked s.reg) {cid : UInt16} {payload : Bytes} {o : Oracle}
    {c : Command} (hcon : Connected s con) (hc : findCommand payload = some c) :
    ∃ rs, rs ≠ [] ∧ (∀ x ∈ rs, x.1 = con ∧ x.2.1 = cid) ∧
      Appends P s.io.subscriptions rs s (next P s (.callback (.request con cid payload) o)) := by
  obtain ⟨rs, hr⟩ := runCommand_replied (P := P)
    (s := (UbervisorEvents.install s o).withIo (UbervisorEvents.setCid con cid)) hl c con
    (CStr.ofBytes (payload.drop 4))
  refine ⟨rs, hr.nonempty, fun x hx => ?_, ?_⟩
  · obtain ⟨hto, hcid⟩ := hr.addressed x hx
    exact ⟨hto, hcid.trans (setCid_cid hcon cid)⟩
  · have hbefore : Appends P s.io.subscriptions [] s
        ((UbervisorEvents.install s o).withIo (UbervisorEvents.setCid con cid)) :=
      (Appends.install s o).trans (.setCid _ con cid)
    have hrun : Appends P s.io.subscriptions rs
        ((UbervisorEvents.install s o).withIo (UbervisorEvents.setCid con cid))
        (runCommand P c ((UbervisorEvents.install s o).withIo (UbervisorEvents.setCid con cid))
          con (CStr.ofBytes (payload.drop 4))).1 := .answered hr.answered
    change Appends P s.io.subscriptions rs s ((UbervisorCommands.runServerCommand P
      ((UbervisorEvents.install s o).withIo (UbervisorEvents.setCid con cid)) con payload).withIo
        (UbervisorEvents.setCid con 0))
    rw [runServerCommand, hc]
    dsimp only
    generalize runCommand P c _ con (CStr.ofBytes (payload.drop 4)) = r at hrun
    obtain ⟨x, cr⟩ := r
    cases cr with
    | true =>
      have hall := (hbefore.trans hrun).trans (.setCid x con 0)
      rw [List.append_nil, List.nil_append] at hall
      exact hall
    | false =>
      have hall := ((hbefore.trans hrun).trans (.drop x con)).trans (.setCid _ con 0)
      rw [List.append_nil, List.append_nil, List.nil_append] at hall
      exact hall

/-- Which answers the step must give, and to whom. -/
def AnswersTo (e : Event) (rs : List Answer) : Prop :=
  match requestIn e with
  | some (con, cid, payload) =>
    if findCommand payload = none then rs = []
    else rs ≠ [] ∧ ∀ x ∈ rs, x.1 = con ∧ x.2.1 = cid
  | none => rs = []

theorem quiet_appends {x : Server} {o : Oracle}
    (h : Quiet P False (UbervisorEvents.install s o).io x.io) :
    Appends P s.io.subscriptions [] s x := by
  have hquiet : Appends P s.io.subscriptions [] (UbervisorEvents.install s o) x := .quiet h
  exact (Appends.install s o).trans hquiet

/-- A step sends each client its share of the outputs, and answers the request it handles. -/
theorem step_appends (hl : Linked s.reg) (h : Step P s e u) (hacc : accepted e = none) :
    ∃ rs, AnswersTo e rs ∧ Appends P s.io.subscriptions rs s u := by
  obtain ⟨hen, rfl⟩ := h
  cases e with
  | clock t => exact ⟨[], rfl, .io rfl⟩
  | childExit pid ret pos => exact ⟨[], rfl, .io rfl⟩
  | callback c o =>
    obtain ⟨-, -, hready⟩ := hen
    cases c with
    | accept a =>
      refine ⟨[], rfl, ?_⟩
      cases a with
      | connected con => cases hacc
      | again => exact .install s o
      | _ => exact quiet_appends (slog_quiet _ _)
    | request con cid payload =>
      cases hc : findCommand payload with
      | some c =>
        obtain ⟨rs, hne, hto, ha⟩ := request_appends (P := P) (o := o) hl hready.1 hc
        refine ⟨rs, ?_, ha⟩
        simp only [AnswersTo, requestIn, hc]
        exact ⟨hne, hto⟩
      | none =>
        refine ⟨[], ?_, ?_⟩
        · simp only [AnswersTo, requestIn, hc]
          trivial
        · rw [next_unknown hc]
          exact ((Appends.install s o).trans (.setCid _ con cid)).trans
            ((Appends.drop _ con).trans (.setCid _ con 0))
    | badLength con tooLarge =>
      exact ⟨[], rfl, (quiet_appends (o := o) (slog_quiet _ _)).trans (.drop _ con)⟩
    | error con => exact ⟨[], rfl, (Appends.install s o).trans (.drop _ con)⟩
    | loadDump file => exact ⟨[], rfl, quiet_appends (loadDumpCb_quiet _ file)⟩
    | loadNewest file => exact ⟨[], rfl, quiet_appends (loadDump_quiet _ file)⟩
    | sigchld => exact ⟨[], rfl, (Appends.install s o).trans (.io rfl)⟩
    | waitpid => exact ⟨[], rfl, quiet_appends (sigchldTurn_quiet _).1⟩
    | sighup reopened => exact ⟨[], rfl, quiet_appends (sighupCb_silently _ reopened).quiet⟩
    | heartbeat p => exact ⟨[], rfl, quiet_appends (heartbeatCb_silently _ p).quiet⟩
    | childRead p buf => exact ⟨[], rfl, quiet_appends (slog_quiet _ _)⟩
    | childError p => exact ⟨[], rfl, quiet_appends (childErrorCb_silently _ p).quiet⟩

/-- A client that is accepted holds nothing, and the others hold what they held. -/
theorem accept_holds (h : Step P s e u) (hacc : accepted e = some con) (hu : Connected u con') :
    (con' = con ∧ outputIn u.io.clients con' = []) ∨
      (con' ≠ con ∧ Connected s con' ∧
        outputIn u.io.clients con' = outputIn s.io.clients con') := by
  obtain ⟨-, rfl⟩ := h
  cases e with
  | callback c o =>
    cases c with
    | accept a =>
      cases a with
      | connected k =>
        obtain rfl := Option.some.inj hacc
        change con' ∈ k :: s.io.clients.map ClientCon.cId at hu
        change _ ∧ outputIn (⟨k, 0, []⟩ :: s.io.clients) con' = _ ∨
          _ ∧ _ ∧ outputIn (⟨k, 0, []⟩ :: s.io.clients) con' = _
        by_cases hc : con' = k
        · refine .inl ⟨hc, ?_⟩
          rw [outputIn, List.find?_cons_of_pos (by simp [hc])]
          rfl
        · refine .inr ⟨hc, (List.mem_cons.mp hu).resolve_left hc, ?_⟩
          rw [outputIn, List.find?_cons_of_neg (by simpa using Ne.symm hc)]
          rfl
      | _ => cases hacc
    | _ => cases hacc
  | _ => cases hacc

end Steps

section Order

variable {P : Platform} {subs : List Subscription} {con : ClientId} {l : List Output}
  {rs : List Answer} {cids : List UInt16} {ms ns : List Message}

def replies (ms : List Message) : List Message := ms.filter fun m => !m.note

/-- To each request, in their order, there is at least one reply, and there are no others. -/
inductive InOrder : List UInt16 → List Message → Prop where
  | nil : InOrder [] []
  | snoc {cids ms cid ns} (before : InOrder cids ms) (answered : ns ≠ [])
      (ids : ∀ m ∈ ns, m.cid = cid) : InOrder (cids ++ [cid]) (ms ++ ns)

theorem replies_append (ms ns : List Message) : replies (ms ++ ns) = replies ms ++ replies ns :=
  List.filter_append ..

def replyMessage (P : Platform) (x : Answer) : Message := ⟨false, x.2.1, P.jsonPrint x.2.2.json⟩

/-- The replies a client is sent are the answers to its requests. -/
theorem replies_messagesTo (subs : List Subscription) (con : ClientId) (l : List Output) :
    replies (l.flatMap (messagesTo P subs con)) =
      ((l.filterMap answerOf).filter fun x => x.1 = con).map (replyMessage P) := by
  induction l with
  | nil => rfl
  | cons o l ih =>
    rw [List.flatMap_cons, replies_append, ih]
    cases o with
    | reply con' cid r =>
      by_cases hcon : con = con'
      · simp [messagesTo, replies, answerOf, hcon, replyMessage]
      · simp [messagesTo, replies, answerOf, hcon, Ne.symm hcon]
    | notify n =>
      have hnone : replies (messagesTo P subs con (.notify n)) = [] := by
        refine List.filter_eq_nil_iff.mpr fun m hm => ?_
        obtain ⟨s, -, hs⟩ := List.mem_flatMap.mp hm
        split at hs
        · rw [List.mem_singleton.mp hs]
          exact Bool.false_ne_true
        · exact absurd hs List.not_mem_nil
      rw [hnone]
      rfl
    | _ => rfl

/-- What a step adds for a client. -/
theorem order_step {e : Event} {d : ClientId → List UInt16} (h : InOrder (d con) (replies ms))
    (hto : AnswersTo e (l.filterMap answerOf)) :
    InOrder (askedBy d e con) (replies (ms ++ l.flatMap (messagesTo P subs con))) := by
  rw [replies_append, replies_messagesTo]
  have hnone : l.filterMap answerOf = [] → askedBy d e con = d con →
      InOrder (askedBy d e con) (replies ms ++
        ((l.filterMap answerOf).filter fun x => x.1 = con).map (replyMessage P)) := by
    intro hrs hd
    rw [hrs, hd]
    simpa using h
  cases he : requestIn e with
  | none =>
    simp only [AnswersTo, he] at hto
    exact hnone hto (by simp only [askedBy, he])
  | some r =>
    obtain ⟨who, cid, payload⟩ := r
    simp only [AnswersTo, he] at hto
    by_cases hc : findCommand payload = none
    · rw [if_pos hc] at hto
      exact hnone hto (by simp only [askedBy, he, if_pos hc])
    · rw [if_neg hc] at hto
      obtain ⟨hne, hall⟩ := hto
      have hasked : askedBy d e = Function.update d who (d who ++ [cid]) := by
        simp only [askedBy, he, if_neg hc]
      rw [hasked]
      by_cases hcon : con = who
      · subst hcon
        have hkeep : (l.filterMap answerOf).filter (fun x => x.1 = con) =
            l.filterMap answerOf :=
          List.filter_eq_self.mpr fun x hx => by simpa using (hall x hx).1
        rw [hkeep, Function.update_self]
        refine .snoc h ?_ fun m hm => ?_
        · simpa using hne
        · obtain ⟨x, hx, rfl⟩ := List.mem_map.mp hm
          exact (hall x hx).2
      · have hdrop : (l.filterMap answerOf).filter (fun x => x.1 = con) = [] :=
          List.filter_eq_nil_iff.mpr fun x hx => by
            simpa [(hall x hx).1] using Ne.symm hcon
        rw [hdrop, Function.update_of_ne hcon]
        simpa using h

end Order

section Runs

variable {P : Platform} {d : Conversation} {m : Move} {con : ClientId}

/-- What holds of every client that is connected. -/
structure Coherent (d : Conversation) : Prop where
  linked : Linked d.server.reg
  carried : ∀ con, Connected d.server con →
    Carried (wireOf (d.sent con)) (d.flushed con) [outputIn d.server.io.clients con]
  ordered : ∀ con, Connected d.server con → InOrder (d.asked con) (replies (d.sent con))

theorem flatMap_bytesTo (subs : List Subscription) (con : ClientId) (l : List Output) :
    l.flatMap (bytesTo P subs con) = wireOf (l.flatMap (messagesTo P subs con)) := by
  rw [wireOf, List.flatMap_assoc]
  exact List.flatMap_congr fun o _ => bytesTo_messages subs con o

theorem wireOf_append (ms ns : List Message) : wireOf (ms ++ ns) = wireOf ms ++ wireOf ns :=
  List.flatMap_append ..

theorem silence_coherent (autoDump allowExit : Bool) (t : ℤ) :
    Coherent (silence (initial autoDump allowExit t)) where
  linked := Registry.linked_init
  carried _ h := absurd h List.not_mem_nil
  ordered _ h := absurd h List.not_mem_nil

theorem flush_coherent {n : ℕ} (h : Coherent d) :
    Coherent (talk P d (.flush con n)) := by
  have hids : (flush con n d.server.io).clients.map ClientCon.cId =
      d.server.io.clients.map ClientCon.cId :=
    map_cId (ite_cId (k := fun c => { c with output := c.output.drop n }) (fun _ => rfl) con)
  refine ⟨h.linked, fun con' hcon => ?_, fun con' hcon => ?_⟩
  · have hcon' : con' ∈ d.server.io.clients.map ClientCon.cId := hids ▸ hcon
    have hbefore := h.carried con' hcon'
    change Carried _ (Function.update d.flushed con _ con')
      [outputIn (flush con n d.server.io).clients con']
    by_cases he : con' = con
    · subst he
      have hout : outputIn (flush con' n d.server.io).clients con' =
          (outputIn d.server.io.clients con').drop n :=
        outputIn_map (F := fun b => b.drop n)
          (ite_cId (k := fun c => { c with output := c.output.drop n }) (fun _ => rfl) con')
          (fun c hc => by rw [if_pos hc]) hcon'
      rw [Function.update_self, hout]
      exact hbefore.take n
    · have hout : outputIn (flush con n d.server.io).clients con' =
          outputIn d.server.io.clients con' :=
        outputIn_map (F := id)
          (ite_cId (k := fun c => { c with output := c.output.drop n }) (fun _ => rfl) con)
          (fun c hc => by rw [if_neg (hc ▸ he)]; rfl) hcon'
      rw [Function.update_of_ne he, hout]
      exact hbefore
  · have hcon' : con' ∈ d.server.io.clients.map ClientCon.cId := hids ▸ hcon
    exact h.ordered con' hcon'

theorem server_coherent {e : Event} (h : Coherent d) (he : Enabled d.server e) :
    Coherent (talk P d (.server e)) := by
  have hstep : Step P d.server e (next P d.server e) := ⟨he, rfl⟩
  have hl := step_linked h.linked hstep
  unfold talk
  dsimp only
  cases hacc : accepted e with
  | none =>
    obtain ⟨rs, hto, l, hout, hrs, hcon⟩ := step_appends h.linked hstep hacc
    have hnew : newOut d.server (next P d.server e) = l := by
      rw [newOut, hout, List.drop_left]
    subst hrs
    refine ⟨hl, fun con hu => ?_, fun con hu => ?_⟩
    · obtain ⟨hs, hgrown⟩ := hcon con hu
      dsimp only
      rw [hnew, wireOf_append, hgrown, flatMap_bytesTo]
      exact (h.carried con hs).put (p := []) _
    · obtain ⟨hs, -⟩ := hcon con hu
      dsimp only
      rw [hnew]
      exact order_step (h.ordered con hs) hto
  | some k =>
    refine ⟨hl, fun con hu => ?_, fun con hu => ?_⟩
    · rcases accept_holds hstep hacc hu with ⟨rfl, hout⟩ | ⟨hne, hs, hout⟩
      · dsimp only
        rw [Function.update_self, Function.update_self, hout]
        exact .start fun b hb => List.mem_singleton.mp hb
      · dsimp only
        rw [Function.update_of_ne hne, Function.update_of_ne hne, hout]
        exact h.carried con hs
    · rcases accept_holds hstep hacc hu with ⟨rfl, -⟩ | ⟨hne, hs, -⟩
      · dsimp only
        rw [Function.update_self, Function.update_self]
        exact .nil
      · dsimp only
        rw [Function.update_of_ne hne, Function.update_of_ne hne]
        exact h.ordered con hs

theorem talk_coherent (h : Coherent d) (hm : CanTalk d m) : Coherent (talk P d m) := by
  cases m with
  | server e => exact server_coherent h hm
  | flush con n => exact flush_coherent h

theorem talks_coherent {autoDump allowExit : Bool} {t : ℤ}
    (h : Execution (Talk P) Always (silence (initial autoDump allowExit t)) d) : Coherent d :=
  h.invariant (fun _ _ _ hd ⟨hcan, he⟩ _ => he ▸ talk_coherent hd hcan)
    (silence_coherent autoDump allowExit t)

/-- Messages are read back one by one, if the notifications among them fit a chunk. -/
theorem waits_messages (ms : List Message) (rest : Bytes)
    (hfit : ∀ m ∈ ms, m.note = true → m.text.length ≤ chunkSiz) {sizes : List ℕ}
    (hpos : ∀ k ∈ sizes, 0 < k)
    (hfull : HeadersFull [4] (ms.flatMap fun m => messageSizes m.text) sizes) :
    waits some ms.length ⟨wireOf ms ++ rest, sizes⟩ =
      ms.map fun m => .ok (m.cid.toNat, m.text) := by
  induction ms generalizing sizes with
  | nil => rfl
  | cons m ms ih =>
    rw [List.flatMap_cons, headersFull_append] at hfull
    obtain ⟨hfirst, hothers⟩ := hfull
    have hbytes : m.bytes = messageBytes m.cid m.text := by
      unfold Message.bytes
      split
      · rename_i hnote
        exact @note_bytes _ id ⟨m.cid, m.text, hfit m List.mem_cons_self hnote⟩
      · rfl
    have hwire : wireOf (m :: ms) ++ rest = messageBytes m.cid m.text ++ (wireOf ms ++ rest) := by
      rw [wireOf, List.flatMap_cons, hbytes, List.append_assoc]
      rfl
    have hheard := (@wait_heard _ sizes some id (fun _ => rfl) m.cid m.text
      (wireOf ms ++ rest) hpos).1 hfirst
    rw [hwire, List.length_cons, waits]
    change wait some ⟨messageBytes m.cid m.text ++ (wireOf ms ++ rest), sizes⟩ = _ at hheard
    rw [hheard, List.map_cons]
    have hrest := ih (fun m' hm' => hfit m' (List.mem_cons_of_mem m hm')) (afterFrames_pos _ hpos)
      hothers
    exact congrArg (List.cons (.ok (m.cid.toNat, m.text))) hrest

/-- What has been flushed to a client and what it still holds are the messages it was sent, and
the client reads back those that have been flushed whole. -/
theorem conversation_read {autoDump allowExit : Bool} {t : ℤ}
    (h : Execution (Talk P) Always (silence (initial autoDump allowExit t)) d)
    (hcon : Connected d.server con) :
    d.flushed con ++ outputIn d.server.io.clients con = wireOf (d.sent con) ∧
    ∀ (ms : List Message) (sizes : List ℕ), ms <+: d.sent con → wireOf ms <+: d.flushed con →
      (∀ m ∈ ms, m.note = true → m.text.length ≤ chunkSiz) → (∀ k ∈ sizes, 0 < k) →
      HeadersFull [4] (ms.flatMap fun m => messageSizes m.text) sizes →
      waits some ms.length ⟨d.flushed con, sizes⟩ = ms.map fun m => .ok (m.cid.toNat, m.text) := by
  have hcarried := (talks_coherent h).carried con hcon
  refine ⟨?_, fun ms sizes _ hwhole hfit hpos hfull => ?_⟩
  · rw [hcarried, List.flatten_cons, List.flatten_nil, List.append_nil]
  · obtain ⟨rest, hrest⟩ := hwhole
    rw [← hrest]
    exact waits_messages ms rest hfit hpos hfull

/-- The replies a client is sent come in the order of its requests. -/
theorem conversation_ordered {autoDump allowExit : Bool} {t : ℤ}
    (h : Execution (Talk P) Always (silence (initial autoDump allowExit t)) d)
    (hcon : Connected d.server con) : InOrder (d.asked con) (replies (d.sent con)) :=
  (talks_coherent h).ordered con hcon

end Runs

section Example

/-- Two LISTs. The first reply has been flushed, and a part of the second one. -/
def chat : List Move :=
  [.server connecting, .server (.callback (.request 0 9 (text "LIST")) ⟨[], [], fun _ => none⟩),
    .server (.callback (.request 0 8 (text "LIST")) ⟨[], [], fun _ => none⟩), .flush 0 12]

def chatted : Conversation :=
  stateAfter (talk lonePlatform) (silence (initial false false 0)) chat

theorem chat_admitted :
    Admits CanTalk (talk lonePlatform) Always (silence (initial false false 0)) chat ∧
      Connected chatted.server 0 := by decide +kernel

theorem chatted_read : chatted.flushed 0 ++ outputIn chatted.server.io.clients 0 =
      wireOf (chatted.sent 0) ∧
    ∀ (ms : List Message) (sizes : List ℕ), ms <+: chatted.sent 0 →
      wireOf ms <+: chatted.flushed 0 →
      (∀ m ∈ ms, m.note = true → m.text.length ≤ chunkSiz) → (∀ k ∈ sizes, 0 < k) →
      HeadersFull [4] (ms.flatMap fun m => messageSizes m.text) sizes →
      waits some ms.length ⟨chatted.flushed 0, sizes⟩ =
        ms.map fun m => .ok (m.cid.toNat, m.text) :=
  conversation_read chat_admitted.1.execution chat_admitted.2

/-- The text of the first reply comes in two parts. -/
example : waits some 1 ⟨chatted.flushed 0, [4, 2, 1]⟩ = [.ok (9, text "[ ]")] := by
  decide +kernel

theorem chatted_ordered : InOrder (chatted.asked 0) (replies (chatted.sent 0)) :=
  conversation_ordered chat_admitted.1.execution chat_admitted.2

end Example

end UbervisorConversations
