import Mathlib.Data.List.DropRight
import Ubervisor.Refusals

/-! # Delivery of replies

Replies wait in the output buffer of their connection until the event loop has flushed them. A
handler that gives up the connection, or exits, loses the reply it has queued itself, and what
else is in the buffers that are given up. -/
namespace UbervisorDelivery

open UbervisorRuns
open UbervisorValues
open UbervisorChildConfigs
open UbervisorKernel
open UbervisorRegistry
open UbervisorChunks
open UbervisorReadCallback (Command findCommand)
open UbervisorServer
open UbervisorCommands
open UbervisorEvents
open UbervisorSupervision
open UbervisorSlots
open UbervisorUpdates
open UbervisorEffects
open UbervisorTranscripts
open UbervisorOutputs
open UbervisorAnswers
open UbervisorReplies
open UbervisorJsonC

section Buffers

variable {cs : List ClientCon} {con : ClientId} {f : ClientCon → ClientCon}

/-- The output buffer of a connection. -/
def outputIn (cs : List ClientCon) (con : ClientId) : Bytes :=
  ((cs.find? fun c => c.cId == con).map ClientCon.output).getD []

/-- libevent writes `n` bytes of a buffer to the socket. -/
def flush (con : ClientId) (n : ℕ) (io : Io) : Io :=
  { io with clients := io.clients.map fun c =>
      if c.cId = con then { c with output := c.output.drop n } else c }

/-- A change of one connection, if there is it. -/
theorem ite_cId {k : ClientCon → ClientCon} (hk : ∀ c, (k c).cId = c.cId) (con : ClientId)
    (c : ClientCon) : (if c.cId = con then k c else c).cId = c.cId := by
  split
  · exact hk c
  · rfl

theorem map_cId (hid : ∀ c, (f c).cId = c.cId) :
    (cs.map f).map ClientCon.cId = cs.map ClientCon.cId := by
  rw [List.map_map]
  exact List.map_congr_left fun c _ => hid c

/-- A change of what each connection holds, in the buffer of one. -/
theorem outputIn_map {F : Bytes → Bytes} (hid : ∀ c, (f c).cId = c.cId)
    (hout : ∀ c, c.cId = con → (f c).output = F c.output) (h : con ∈ cs.map ClientCon.cId) :
    outputIn (cs.map f) con = F (outputIn cs con) := by
  induction cs with
  | nil => exact absurd h List.not_mem_nil
  | cons c cs ih =>
    unfold outputIn at ih ⊢
    rw [List.map_cons]
    by_cases hc : c.cId = con
    · rw [List.find?_cons_of_pos (by simp [hid, hc]), List.find?_cons_of_pos (by simp [hc])]
      exact hout c hc
    · rw [List.find?_cons_of_neg (by simp [hid, hc]), List.find?_cons_of_neg (by simp [hc])]
      rw [List.map_cons] at h
      exact ih ((List.mem_cons.mp h).resolve_left (Ne.symm hc))

theorem grown_cId {b : ClientId → Bytes} :
    (grown b cs).map ClientCon.cId = cs.map ClientCon.cId := map_cId fun _ => rfl

theorem outputIn_grown {b : ClientId → Bytes} (h : con ∈ cs.map ClientCon.cId) :
    outputIn (grown b cs) con = outputIn cs con ++ b con := by
  refine outputIn_map (F := fun out => out ++ b con) (fun _ => rfl) (fun c hc => ?_) h
  dsimp only
  rw [hc]

theorem outputIn_filter {con' : ClientId} (hne : con' ≠ con) :
    outputIn (cs.filter fun c => c.cId ≠ con) con' = outputIn cs con' := by
  unfold outputIn
  induction cs with
  | nil => rfl
  | cons c cs ih =>
    by_cases hc : c.cId = con
    · have hother : ¬ c.cId = con' := by
        rw [hc]
        exact Ne.symm hne
      rw [List.filter_cons_of_neg (by simp [hc]), List.find?_cons_of_neg (by simp [hother]), ih]
    · rw [List.filter_cons_of_pos (by simp [hc])]
      by_cases ho : c.cId = con'
      · rw [List.find?_cons_of_pos (by simp [ho]), List.find?_cons_of_pos (by simp [ho])]
      · rw [List.find?_cons_of_neg (by simp [ho]), List.find?_cons_of_neg (by simp [ho]), ih]

end Buffers

section Handlers

variable {P : Platform} {s : Server} {con : ClientId} {buf : CStr} {c : Command}

/-- What READ needs, within its bounds. -/
def Readable (obj : Json) : Prop :=
  ∃ n stream off bytes inst, nameField obj = some n ∧ intField obj "stream" = some stream ∧
    doubleField obj "offset" = some off ∧ intField obj "bytes" = some bytes ∧
    intField obj "instance" = some inst ∧
    ¬ ((stream < 1 ∨ stream > 2) ∨ bytes < 0 ∨ bytes > readMax)

/-- The handler queues a reply and has the connection dropped, or exits. -/
inductive GivesUp (P : Platform) (s : Server) (buf : CStr) : Command → Prop where
  | record {c : Command} (hc : c = .spwn ∨ c = .updt)
      (parse : childConfigUnserialize P buf = none) : GivesUp P s buf c
  | unknown {cc : ChildConfig} (parse : childConfigUnserialize P buf = some cc)
      (find : s.reg.childConfigFindByName cc.ccName = none) : GivesUp P s buf .updt
  | object {c : Command}
      (hc : c = .kill ∨ c = .dele ∨ c = .getc ∨ c = .pids ∨ c = .subs ∨ c = .read)
      (parse : parseObject P buf = none) : GivesUp P s buf c
  | unnamed {c : Command} {obj : Json} (hc : c = .getc ∨ c = .pids)
      (parse : parseObject P buf = some obj) (name : nameField obj = none) : GivesUp P s buf c
  | ident {obj : Json} (parse : parseObject P buf = some obj)
      (ident : intField obj "ident" = none) : GivesUp P s buf .subs
  | parameters {obj : Json} (parse : parseObject P buf = some obj) (bad : ¬ Readable obj) :
      GivesUp P s buf .read
  | exit (allowed : s.allowExit = true) : GivesUp P s buf .exit

theorem withNamedGroup_kept {badName : Bool} {handle : Json → GroupId → Server × Bool}
    (hhandle : ∀ obj g, (handle obj g).2 = true) (hparse : parseObject P buf ≠ none)
    (hname : badName = true ∨ ∀ obj, parseObject P buf = some obj → nameField obj ≠ none) :
    (withNamedGroup P s con buf badName handle).2 = true := by
  unfold withNamedGroup
  cases hobj : parseObject P buf with
  | none => exact absurd hobj hparse
  | some obj =>
    dsimp only
    cases hn : nameField obj with
    | none =>
      rcases hname with hbad | hname
      · exact hbad
      · exact absurd hn (hname obj hobj)
    | some n =>
      dsimp only
      split
      · rfl
      · exact hhandle obj _

theorem cRead_kept (h : ¬ GivesUp P s buf .read) : (cRead P s con buf).2 = true := by
  unfold cRead
  dsimp only
  cases hobj : parseObject P buf with
  | none => exact absurd (.object (by simp) hobj) h
  | some obj =>
    dsimp only
    split
    · rename_i n stream off bytes inst hn hstream hoff hbytes hinst
      by_cases hbounds : (stream < 1 ∨ stream > 2) ∨ bytes < 0 ∨ bytes > readMax
      · refine absurd (.parameters hobj ?_) h
        rintro ⟨n', stream', off', bytes', inst', -, hstream', -, hbytes', -, hok⟩
        rw [hstream] at hstream'
        rw [hbytes] at hbytes'
        cases hstream'
        cases hbytes'
        exact hok hbounds
      · rw [if_neg hbounds]
        split
        · rfl
        · split
          · rfl
          · split
            · rfl
            · split
              · rfl
              · rfl
              · rfl
    · rename_i hmissing
      refine absurd (.parameters hobj ?_) h
      rintro ⟨n, stream, off, bytes, inst, hn, hstream, hoff, hbytes, hinst, -⟩
      exact hmissing n stream off bytes inst hn hstream hoff hbytes hinst

theorem cSpwn_kept (h : ¬ GivesUp P s buf .spwn) : (cSpwn P s con buf).2 = true := by
  cases hcc : childConfigUnserialize P buf with
  | none => exact absurd (.record (.inl rfl) hcc) h
  | some cc =>
    cases hok : spwnRefusal s.reg cc with
    | some msg => rw [cSpwn_refused hcc hok]
    | none => rw [cSpwn_accepted hcc hok rfl]

theorem cUpdt_kept (h : ¬ GivesUp P s buf .updt) : (cUpdt P s con buf).2 = true := by
  cases hcc : childConfigUnserialize P buf with
  | none => exact absurd (.record (.inr rfl) hcc) h
  | some cc =>
    cases hg : s.reg.childConfigFindByName cc.ccName with
    | none => exact absurd (.unknown hcc hg) h
    | some g =>
      cases hok : updtRefusal cc with
      | some r => rw [cUpdt_refused hcc hg hok]
      | none => rw [cUpdt_accepted hcc hg hok]

/-- A handler that does not give up keeps the connection. -/
theorem runCommand_kept (con : ClientId) (h : ¬ GivesUp P s buf c) :
    (runCommand P c s con buf).2 = true := by
  have hparse : (c = .kill ∨ c = .dele ∨ c = .getc ∨ c = .pids ∨ c = .subs ∨ c = .read) →
      parseObject P buf ≠ none := fun hc hnone => h (.object hc hnone)
  have hname : (c = .getc ∨ c = .pids) → ∀ obj, parseObject P buf = some obj →
      nameField obj ≠ none := fun hc obj hobj hnone => h (.unnamed hc hobj hnone)
  cases c with
  | dele => exact withNamedGroup_kept (fun _ _ => rfl) (hparse (by decide)) (.inl rfl)
  | dump => rfl
  | exit =>
    change (cExit P s con).2 = true
    unfold cExit
    split
    · rfl
    · rfl
  | getc =>
    exact withNamedGroup_kept (fun _ _ => rfl) (hparse (by decide)) (.inr (hname (by decide)))
  | helo => rfl
  | kill => exact withNamedGroup_kept (fun _ _ => rfl) (hparse (by decide)) (.inl rfl)
  | list => rfl
  | pids =>
    exact withNamedGroup_kept (fun _ _ => rfl) (hparse (by decide)) (.inr (hname (by decide)))
  | read => exact cRead_kept h
  | spwn => exact cSpwn_kept h
  | subs =>
    change (cSubs P s con buf).2 = true
    unfold cSubs
    cases hobj : parseObject P buf with
    | none => exact absurd hobj (hparse (by decide))
    | some obj =>
      dsimp only
      cases hi : intField obj "ident" with
      | none => exact absurd (.ident hobj hi) h
      | some i => rfl
  | updt => exact cUpdt_kept h

/-- A handler that does not give up leaves the server running. -/
theorem runCommand_running (con : ClientId) (h : ¬ GivesUp P s buf c) :
    (runCommand P c s con buf).1.halted = s.halted := by
  by_cases hc : c = .exit
  · subst hc
    have hallow : s.allowExit = false := Bool.eq_false_iff.mpr fun ha => h (.exit ha)
    change (cExit P s con).1.halted = s.halted
    unfold cExit
    rw [hallow]
    rfl
  · exact (runCommand_flags hc).halted

theorem GivesUp.of_same {x : Server} (h : GivesUp P x buf c) (hr : x.reg = s.reg)
    (he : x.allowExit = s.allowExit) : GivesUp P s buf c := by
  cases h with
  | record hc parse => exact .record hc parse
  | unknown parse find => exact .unknown parse (hr ▸ find)
  | object hc parse => exact .object hc parse
  | unnamed hc parse name => exact .unnamed hc parse name
  | ident parse ident => exact .ident parse ident
  | parameters parse bad => exact .parameters parse bad
  | exit allowed => exact .exit (he ▸ allowed)

theorem withNamedGroup_unparsed {badName : Bool} {handle : Json → GroupId → Server × Bool}
    (h : parseObject P buf = none) : (withNamedGroup P s con buf badName handle).2 = false := by
  rw [withNamedGroup, h]

theorem withNamedGroup_unnamed {badName : Bool} {handle : Json → GroupId → Server × Bool}
    {obj : Json} (hobj : parseObject P buf = some obj) (hn : nameField obj = none) :
    (withNamedGroup P s con buf badName handle).2 = badName := by
  rw [withNamedGroup, hobj]
  dsimp only
  rw [hn]

theorem cRead_gaveUp {obj : Json} (hobj : parseObject P buf = some obj) (h : ¬ Readable obj) :
    (cRead P s con buf).2 = false := by
  unfold cRead
  dsimp only
  rw [hobj]
  dsimp only
  split
  · rename_i n stream off bytes inst hn hstream hoff hbytes hinst
    by_cases hbounds : (stream < 1 ∨ stream > 2) ∨ bytes < 0 ∨ bytes > readMax
    · rw [if_pos hbounds]
    · exact absurd ⟨n, stream, off, bytes, inst, hn, hstream, hoff, hbytes, hinst, hbounds⟩ h
  · rfl

/-- A handler that gives up has the connection dropped, or exits. -/
theorem runCommand_gaveUp (con : ClientId) (h : GivesUp P s buf c) :
    (runCommand P c s con buf).2 = false ∨ (runCommand P c s con buf).1.halted = true := by
  cases h with
  | record hc parse =>
    left
    rcases hc with rfl | rfl
    · change (cSpwn P s con buf).2 = false
      rw [cSpwn_unparsed parse]
    · change (cUpdt P s con buf).2 = false
      rw [cUpdt_unparsed parse]
  | unknown parse find =>
    left
    change (cUpdt P s con buf).2 = false
    rw [cUpdt_unknown parse find]
  | object hc parse =>
    left
    rcases hc with rfl | rfl | rfl | rfl | rfl | rfl
    · exact withNamedGroup_unparsed parse
    · exact withNamedGroup_unparsed parse
    · exact withNamedGroup_unparsed parse
    · exact withNamedGroup_unparsed parse
    · change (cSubs P s con buf).2 = false
      rw [cSubs, parse]
    · change (cRead P s con buf).2 = false
      rw [cRead, parse]
  | unnamed hc parse name =>
    left
    rcases hc with rfl | rfl
    · exact withNamedGroup_unnamed parse name
    · exact withNamedGroup_unnamed parse name
  | ident parse ident =>
    left
    change (cSubs P s con buf).2 = false
    rw [cSubs, parse]
    dsimp only
    rw [ident]
  | parameters parse bad => exact .inl (cRead_gaveUp parse bad)
  | exit allowed =>
    right
    change (cExit P s con).1.halted = true
    unfold cExit
    rw [allowed]
    rfl

end Handlers

section System

variable {P : Platform} {s u v : Server} {con : ClientId} {X Y : ClientId → Prop}

def isReplyTo (con : ClientId) : Output → Bool
  | .reply con' _ _ => con' == con
  | _ => false

/-- What is put out up to the last reply to the client. -/
def upToReply (con : ClientId) (l : List Output) : List Output :=
  l.rdropWhile fun o => !isReplyTo con o

/-- A reply is due with all that is before it in the buffer. -/
def dueAfter (P : Platform) (s u : Server) (con : ClientId) (due : ℕ) : ℕ :=
  if (newOut s u).any (isReplyTo con) then
    (outputIn s.io.clients con).length +
      ((upToReply con (newOut s u)).flatMap (bytesTo P s.io.subscriptions con)).length
  else due

/-- The server, and for each connection the number of bytes in its buffer up to the end of its
last reply. -/
structure Delivery where
  server : Server
  due : ClientId → ℕ

inductive Move where
  | server (e : Event)
  | flush (con : ClientId) (n : ℕ)

/-- Buffers are flushed between callbacks. -/
def CanMove (d : Delivery) : Move → Prop
  | .server e => Enabled d.server e
  | .flush con n => Alive d.server ∧ d.server.inSigchld = false ∧ Connected d.server con ∧
      n ≤ (outputIn d.server.io.clients con).length

instance (d : Delivery) (m : Move) : Decidable (CanMove d m) := by
  cases m <;> simp only [CanMove] <;> infer_instance

def move (P : Platform) (d : Delivery) : Move → Delivery
  | .server e =>
    ⟨next P d.server e, fun con => dueAfter P d.server (next P d.server e) con (d.due con)⟩
  | .flush con n => ⟨d.server.withIo (flush con n), Function.update d.due con (d.due con - n)⟩

/-- The server when its event loop starts. -/
def quietStart (autoDump allowExit : Bool) (t : ℤ) : Delivery :=
  ⟨initial autoDump allowExit t, fun _ => 0⟩

/-- Every reply that is not flushed yet is in the buffer of an open connection, and the server
runs. -/
def Waiting (d : Delivery) : Prop :=
  ∀ con, 0 < d.due con → d.server.halted = false ∧ Connected d.server con ∧
    d.due con ≤ (outputIn d.server.io.clients con).length

/-- The request is not given up, and no other connection is closed before its replies are out. -/
def Spares (P : Platform) (d : Delivery) : Move → Prop
  | .server (.callback (.request con _ payload) _) =>
    match findCommand payload with
    | some c => ¬ GivesUp P d.server (CStr.ofBytes (payload.drop 4)) c
    | none => d.due con = 0
  | .server (.callback (.badLength con _) _) => d.due con = 0
  | .server (.callback (.error con) _) => d.due con = 0
  | _ => True

/-- From `s` to `u` nobody is answered, and only connections in `X` lose what they hold. -/
structure Unanswered (X : ClientId → Prop) (s u : Server) : Prop where
  silent : ∃ l, u.io.out = s.io.out ++ l ∧ ∀ o ∈ l, answerOf o = none
  kept : ∀ con, ¬ X con → Connected s con → Connected u con ∧
    (outputIn s.io.clients con).length ≤ (outputIn u.io.clients con).length

theorem Unanswered.trans (h : Unanswered X s u) (k : Unanswered X u v) : Unanswered X s v where
  silent := by
    obtain ⟨l, hl, hs⟩ := h.silent
    obtain ⟨m, hm, ht⟩ := k.silent
    refine ⟨l ++ m, by rw [hm, hl, List.append_assoc], ?_⟩
    intro o ho
    rcases List.mem_append.mp ho with ho | ho
    · exact hs o ho
    · exact ht o ho
  kept con hx hc := by
    obtain ⟨hu, hle⟩ := h.kept con hx hc
    obtain ⟨hv, hle'⟩ := k.kept con hx hu
    exact ⟨hv, hle.trans hle'⟩

/-- Nothing is put out, and every connection holds at least what it held. -/
theorem Unanswered.same (ho : u.io.out = s.io.out) (hc : u.io.clients = s.io.clients) :
    Unanswered X s u where
  silent := ⟨[], by rw [ho, List.append_nil], fun _ h => absurd h List.not_mem_nil⟩
  kept con _ h := by
    rw [Connected, hc]
    exact ⟨h, le_rfl⟩

theorem Unanswered.of_quiet (h : Quiet P False s.io u.io) : Unanswered X s u := by
  obtain ⟨l, hl, hrs, -⟩ := h.answers
  refine ⟨⟨l, hl.out, List.filterMap_eq_nil_iff.mp hrs⟩, fun con _ hc => ?_⟩
  rw [Connected, hl.clients, outputIn_grown hc, List.length_append]
  refine ⟨?_, Nat.le_add_right _ _⟩
  rw [grown_cId]
  exact hc

theorem setCid_ids (s : Server) (con : ClientId) (cid : UInt16) :
    (s.withIo (setCid con cid)).io.clients.map ClientCon.cId = s.io.clients.map ClientCon.cId :=
  map_cId (ite_cId (k := fun c => { c with cCid := cid }) (fun _ => rfl) con)

theorem Unanswered.install (s : Server) (o : Oracle) : Unanswered X s (install s o) :=
  .same rfl rfl

/-- The cid of a request is no part of what a connection holds. -/
theorem setCid_keeps (con : ClientId) (cid : UInt16) {con' : ClientId} (h : Connected s con') :
    Connected (s.withIo (setCid con cid)) con' ∧
      outputIn (s.withIo (setCid con cid)).io.clients con' = outputIn s.io.clients con' := by
  have hout : ∀ c : ClientCon, c.cId = con' →
      (if c.cId = con then { c with cCid := cid } else c).output = id c.output := by
    intro c _
    split
    · rfl
    · rfl
  have hsame : outputIn (s.withIo (setCid con cid)).io.clients con' =
      id (outputIn s.io.clients con') := outputIn_map
        (ite_cId (k := fun c => { c with cCid := cid }) (fun _ => rfl) con) hout h
  rw [Connected, setCid_ids]
  exact ⟨h, hsame⟩

theorem Unanswered.setCid (con : ClientId) (cid : UInt16) :
    Unanswered X s (s.withIo (setCid con cid)) where
  silent := ⟨[], (List.append_nil _).symm, fun _ h => absurd h List.not_mem_nil⟩
  kept con' _ h := by
    obtain ⟨hcon, hout⟩ := setCid_keeps con cid h
    rw [hout]
    exact ⟨hcon, le_rfl⟩

theorem Unanswered.drop (con : ClientId) : Unanswered (· = con) s (dropClientConnection s con) where
  silent := ⟨[.dropped con], rfl, fun o ho => by rw [List.mem_singleton.mp ho]; rfl⟩
  kept con' hne h := by
    have hsame : outputIn (dropClientConnection s con).io.clients con' =
        outputIn s.io.clients con' := outputIn_filter hne
    rw [hsame]
    refine ⟨?_, le_rfl⟩
    obtain ⟨c, hc, rfl⟩ := List.mem_map.mp h
    refine List.mem_map.mpr ⟨c, ?_, rfl⟩
    exact List.mem_filter.mpr ⟨hc, by simpa using hne⟩

theorem any_isReplyTo {l : List Output} (h : l.any (isReplyTo con) = true) :
    ∃ x ∈ l.filterMap answerOf, x.1 = con := by
  obtain ⟨o, ho, hr⟩ := List.any_eq_true.mp h
  cases o with
  | reply con' cid r =>
    exact ⟨(con', cid, r), List.mem_filterMap.mpr ⟨_, ho, rfl⟩, by simpa [isReplyTo] using hr⟩
  | _ => cases hr

theorem Unanswered.due (h : Unanswered X s u) (con : ClientId) (n : ℕ) :
    dueAfter P s u con n = n := by
  obtain ⟨l, hl, hs⟩ := h.silent
  have hnew : newOut s u = l := by rw [newOut, hl, List.drop_left]
  have hany : ¬ l.any (isReplyTo con) = true := by
    intro hany
    obtain ⟨x, hx, -⟩ := any_isReplyTo hany
    obtain ⟨o, ho, he⟩ := List.mem_filterMap.mp hx
    rw [hs o ho] at he
    cases he
  rw [dueAfter, hnew, if_neg hany]

variable {d : Delivery} {m : Move}

theorem Waiting.unanswered (hw : Waiting d) (h : Unanswered X d.server u)
    (hX : ∀ con, X con → d.due con = 0) (hh : u.halted = d.server.halted) :
    Waiting ⟨u, fun con => dueAfter P d.server u con (d.due con)⟩ := by
  intro con hdue
  dsimp only at hdue ⊢
  rw [h.due] at hdue ⊢
  obtain ⟨hrun, hcon, hle⟩ := hw con hdue
  obtain ⟨hcon', hle'⟩ := h.kept con (fun hx => absurd (hX con hx) (by omega)) hcon
  exact ⟨hh.trans hrun, hcon', hle.trans hle'⟩

/-- Buffers are flushed from their start. -/
theorem flush_waiting {n : ℕ} (hw : Waiting d) (con : ClientId) :
    Waiting (move P d (.flush con n)) := by
  intro con' hdue
  have hid : ∀ c : ClientCon,
      (if c.cId = con then { c with output := c.output.drop n } else c).cId = c.cId :=
    ite_cId (k := fun c => { c with output := c.output.drop n }) (fun _ => rfl) con
  have hids : (flush con n d.server.io).clients.map ClientCon.cId =
      d.server.io.clients.map ClientCon.cId := map_cId hid
  change 0 < Function.update d.due con (d.due con - n) con' at hdue
  change d.server.halted = false ∧ con' ∈ (flush con n d.server.io).clients.map ClientCon.cId ∧
    Function.update d.due con (d.due con - n) con' ≤
      (outputIn (flush con n d.server.io).clients con').length
  rw [hids]
  by_cases hc : con' = con
  · subst hc
    rw [Function.update_self] at hdue ⊢
    obtain ⟨hrun, hcon, hle⟩ := hw con' (by omega)
    have hout : outputIn (flush con' n d.server.io).clients con' =
        (outputIn d.server.io.clients con').drop n :=
      outputIn_map (F := fun out => out.drop n) hid (fun c hc => by rw [if_pos hc]) hcon
    rw [hout, List.length_drop]
    exact ⟨hrun, hcon, by omega⟩
  · rw [Function.update_of_ne hc] at hdue ⊢
    obtain ⟨hrun, hcon, hle⟩ := hw con' hdue
    have hout : outputIn (flush con n d.server.io).clients con' =
        id (outputIn d.server.io.clients con') :=
      outputIn_map hid (fun c he => by rw [if_neg (by rw [he]; exact hc)]; rfl) hcon
    rw [hout]
    exact ⟨hrun, hcon, hle⟩

theorem accept_unanswered {a : Accept} (h : Ready s (.accept a)) :
    Unanswered X s (acceptCb P s a) := by
  cases a with
  | again => exact .same rfl rfl
  | failed => exact .of_quiet (slog_quiet s _)
  | noBuffer => exact .of_quiet (slog_quiet s _)
  | noEnable => exact .of_quiet (slog_quiet s _)
  | connected con =>
    refine ⟨⟨[], (List.append_nil _).symm, fun _ h => absurd h List.not_mem_nil⟩, ?_⟩
    intro con' _ hcon
    have hne : ¬ con = con' := fun he => h (he ▸ hcon)
    refine ⟨List.mem_cons_of_mem _ hcon, ?_⟩
    have hsame : outputIn (acceptCb P s (.connected con)).io.clients con' =
        outputIn s.io.clients con' := by
      unfold outputIn
      change (((⟨con, 0, []⟩ :: s.io.clients : List ClientCon).find? _).map _).getD [] = _
      rw [List.find?_cons_of_neg (by simpa using hne)]
    rw [hsame]

/-- What a request that is not given up adds to the output and to the buffers. -/
theorem request_kept {cid : UInt16} {payload : Bytes} {o : Oracle} {c : Command}
    (hl : Linked s.reg) (hc : findCommand payload = some c)
    (h : ¬ GivesUp P s (CStr.ofBytes (payload.drop 4)) c)
    (hu : u = next P s (.callback (.request con cid payload) o)) :
    u.halted = s.halted ∧ ∃ l, newOut s u = l ∧ (∀ x ∈ l.filterMap answerOf, x.1 = con) ∧
      ∀ con', Connected s con' → Connected u con' ∧ outputIn u.io.clients con' =
        outputIn s.io.clients con' ++ l.flatMap (bytesTo P s.io.subscriptions con') := by
  generalize hx : (install s o).withIo (setCid con cid) = x
  have hreg : x.reg = s.reg ∧ x.allowExit = s.allowExit ∧ x.halted = s.halted ∧
      x.io.out = s.io.out ∧ x.io.subscriptions = s.io.subscriptions := by
    rw [← hx]
    exact ⟨rfl, rfl, rfl, rfl, rfl⟩
  obtain ⟨hreg, hexit, hhalt, hout, hsubs⟩ := hreg
  have hxset : ∀ con', Connected s con' → Connected x con' ∧
      outputIn x.io.clients con' = outputIn s.io.clients con' := by
    intro con' h'
    rw [← hx]
    exact setCid_keeps (s := install s o) con cid h'
  have hno : ¬ GivesUp P x (CStr.ofBytes (payload.drop 4)) c := fun hg => h (hg.of_same hreg hexit)
  have hkept := runCommand_kept con hno
  have hrunning := runCommand_running con hno
  obtain ⟨rs, hrs⟩ := runCommand_replied (P := P) (s := x) (by rw [hreg]; exact hl) c con
    (CStr.ofBytes (payload.drop 4))
  have hrun : u =
      (runCommand P c x con (CStr.ofBytes (payload.drop 4))).1.withIo (setCid con 0) := by
    rw [hu]
    change (runServerCommand P ((install s o).withIo (setCid con cid)) con payload).withIo _ = _
    rw [hx, runServerCommand, hc]
    dsimp only
    rw [if_pos hkept]
  generalize runCommand P c x con (CStr.ofBytes (payload.drop 4)) = r at hrunning hrs hrun
  obtain ⟨l, hl, hclients, hanswers, -⟩ := hrs.answered
  refine ⟨?_, l, ?_, ?_, ?_⟩
  · rw [hrun, ← hhalt]
    exact hrunning
  · rw [hrun, newOut]
    change r.1.io.out.drop _ = l
    rw [hl, hout, List.drop_left]
  · rw [hanswers]
    exact fun x hx => (hrs.addressed x hx).1
  · intro con' h'
    obtain ⟨hxcon, hxout⟩ := hxset con' h'
    have hgrown : Connected r.1 con' ∧ outputIn r.1.io.clients con' =
        outputIn s.io.clients con' ++ l.flatMap (bytesTo P s.io.subscriptions con') := by
      rw [Connected, hclients, grown_cId, outputIn_grown hxcon, hxout, hsubs]
      exact ⟨hxcon, rfl⟩
    rw [hrun]
    obtain ⟨hlast, hsame⟩ := setCid_keeps con 0 hgrown.1
    exact ⟨hlast, hsame.trans hgrown.2⟩

theorem request_waiting {cid : UInt16} {payload : Bytes} {o : Oracle} {c : Command}
    (hl : Linked d.server.reg) (hw : Waiting d) (hcon : Connected d.server con)
    (hrun : d.server.halted = false) (hc : findCommand payload = some c)
    (h : ¬ GivesUp P d.server (CStr.ofBytes (payload.drop 4)) c) :
    Waiting (move P d (.server (.callback (.request con cid payload) o))) := by
  intro con' hdue
  generalize hu : next P d.server (.callback (.request con cid payload) o) = u
  have hmove : move P d (.server (.callback (.request con cid payload) o)) =
      ⟨u, fun con => dueAfter P d.server u con (d.due con)⟩ := by
    rw [← hu]
    rfl
  rw [hmove] at hdue ⊢
  dsimp only at hdue ⊢
  obtain ⟨hhalt, l, hnew, haddr, hout⟩ := request_kept hl hc h hu.symm
  refine ⟨hhalt.trans hrun, ?_⟩
  unfold dueAfter at hdue ⊢
  rw [hnew] at hdue ⊢
  by_cases hany : l.any (isReplyTo con') = true
  · -- only the client that asked is answered
    have hcon' : Connected d.server con' := by
      obtain ⟨x, hx, hx'⟩ := any_isReplyTo hany
      rw [← hx', haddr x hx]
      exact hcon
    obtain ⟨hucon, huout⟩ := hout con' hcon'
    rw [if_pos hany]
    refine ⟨hucon, ?_⟩
    have hprefix : upToReply con' l <+: l := List.rdropWhile_prefix _ l
    obtain ⟨rest, hrest⟩ := hprefix
    have hlen : (l.flatMap (bytesTo P d.server.io.subscriptions con')).length =
        ((upToReply con' l).flatMap (bytesTo P d.server.io.subscriptions con')).length +
          (rest.flatMap (bytesTo P d.server.io.subscriptions con')).length := by
      rw [← List.length_append, ← List.flatMap_append, hrest]
    rw [huout, List.length_append, hlen]
    omega
  · rw [if_neg hany] at hdue ⊢
    obtain ⟨-, hwcon, hle⟩ := hw con' hdue
    obtain ⟨hucon, huout⟩ := hout con' hwcon
    rw [huout, List.length_append]
    exact ⟨hucon, hle.trans (Nat.le_add_right _ _)⟩

/-- The sender of an unknown command is disconnected. -/
theorem next_unknown {cid : UInt16} {payload : Bytes} {o : Oracle}
    (hc : findCommand payload = none) :
    next P s (.callback (.request con cid payload) o) =
      (dropClientConnection ((install s o).withIo (setCid con cid)) con).withIo (setCid con 0) := by
  change (runServerCommand P ((install s o).withIo (setCid con cid)) con payload).withIo _ = _
  rw [runServerCommand, hc]

/-- Events that close a connection whatever is in its buffer. -/
inductive Closes (con : ClientId) : Event → Prop where
  | unknown {cid : UInt16} {payload : Bytes} {o : Oracle} (hc : findCommand payload = none) :
      Closes con (.callback (.request con cid payload) o)
  | badLength {tooLarge : Bool} {o : Oracle} : Closes con (.callback (.badLength con tooLarge) o)
  | error {o : Oracle} : Closes con (.callback (.error con) o)

structure Closed (con : ClientId) (s u : Server) : Prop where
  unanswered : Unanswered (· = con) s u
  disconnected : ¬ Connected u con
  halted : u.halted = s.halted

theorem not_connected_drop (s : Server) (con : ClientId) :
    ¬ Connected (dropClientConnection s con) con := by
  intro h
  obtain ⟨c, hc, hid⟩ := List.mem_map.mp h
  have hne := (List.mem_filter.mp hc).2
  rw [hid] at hne
  simp at hne

theorem next_closed {e : Event} (h : Closes con e) : Closed con s (next P s e) := by
  cases h with
  | @unknown cid payload o hc =>
    rw [next_unknown hc]
    have hset : Unanswered (· = con) s ((install s o).withIo (setCid con cid)) :=
      (Unanswered.install s o).trans (.setCid con cid)
    refine ⟨(hset.trans (.drop con)).trans (.setCid con 0), ?_, rfl⟩
    rw [Connected, setCid_ids]
    exact not_connected_drop _ con
  | @badLength tooLarge o =>
    have hlog : ∀ msg, Unanswered (· = con) s (slog P (install s o) msg) := fun msg =>
      (Unanswered.install s o).trans (.of_quiet (slog_quiet _ msg))
    exact ⟨(hlog _).trans (.drop con), not_connected_drop _ con, rfl⟩
  | @error o =>
    exact ⟨(Unanswered.install s o).trans (.drop con), not_connected_drop _ con, rfl⟩

theorem closing_waiting {e : Event} (hw : Waiting d) (h : Closes con e) (hdue : d.due con = 0) :
    Waiting (move P d (.server e)) := by
  have hclosed := next_closed (P := P) (s := d.server) h
  refine hw.unanswered hclosed.unanswered (fun con' he => ?_) hclosed.halted
  rw [he]
  exact hdue

/-- Nobody is answered, and nothing is closed. -/
theorem muted_waiting {e : Event} (hw : Waiting d)
    (h : Unanswered (fun _ => False) d.server (next P d.server e))
    (hh : (next P d.server e).halted = d.server.halted) : Waiting (move P d (.server e)) :=
  hw.unanswered h (fun _ h => h.elim) hh

theorem silent_waiting {c : Callback} {o : Oracle} (hw : Waiting d)
    (h : Silently P (install d.server o) (runCallback P (install d.server o) c)) :
    Waiting (move P d (.server (.callback c o))) :=
  muted_waiting hw ((Unanswered.install d.server o).trans (.of_quiet h.quiet)) h.flags.halted

/-- Before the event loop runs, nobody is connected. -/
theorem load_waiting {c : Callback} {o : Oracle} (hz : ∀ con, d.due con = 0)
    (h : Quiet P False (install d.server o).io (runCallback P (install d.server o) c).io) :
    Waiting (move P d (.server (.callback c o))) := by
  have hun : Unanswered (fun _ => False) d.server (next P d.server (.callback c o)) :=
    (Unanswered.install d.server o).trans (.of_quiet h)
  intro con hdue
  change 0 < dueAfter P d.server (next P d.server (.callback c o)) con (d.due con) at hdue
  rw [hun.due, hz con] at hdue
  exact absurd hdue (lt_irrefl 0)

theorem loadDumpCb_quiet (s : Server) (file : Option Bytes) :
    Quiet P False s.io (loadDumpCb P s file).io := by
  have hquiet := loadDump_quiet (P := P) s file
  unfold loadDumpCb
  generalize loadDump P s file = r at hquiet
  obtain ⟨x, b⟩ := r
  cases b with
  | true => exact hquiet
  | false => exact hquiet

/-- A move that spares the connections loses no reply. -/
theorem move_waiting (hl : Linked d.server.reg)
    (hstart : d.server.started = false → ∀ con, d.due con = 0) (hw : Waiting d)
    (hm : CanMove d m) (hq : Spares P d m) : Waiting (move P d m) := by
  cases m with
  | flush con n => exact flush_waiting hw con
  | server e =>
    cases e with
    | clock t => exact muted_waiting hw (.same rfl rfl) rfl
    | childExit pid ret pos => exact muted_waiting hw (.same rfl rfl) rfl
    | callback c o =>
      obtain ⟨⟨hrun, -⟩, -, hready⟩ := hm
      cases c with
      | accept a =>
        have hready' : Ready (install d.server o) (.accept a) := by
          cases a <;> exact hready
        refine muted_waiting hw ((Unanswered.install _ o).trans (accept_unanswered hready')) ?_
        cases a <;> rfl
      | request con cid payload =>
        simp only [Spares] at hq
        cases hc : findCommand payload with
        | some c =>
          rw [hc] at hq
          exact request_waiting hl hw hready.1 hrun hc hq
        | none =>
          rw [hc] at hq
          exact closing_waiting hw (.unknown hc) hq
      | badLength con tooLarge => exact closing_waiting hw .badLength hq
      | error con => exact closing_waiting hw .error hq
      | loadDump file => exact load_waiting (hstart hready) (loadDumpCb_quiet _ file)
      | loadNewest file => exact load_waiting (hstart hready) (loadDump_quiet _ file)
      | sigchld => exact muted_waiting hw (.same rfl rfl) rfl
      | waitpid =>
        obtain ⟨hturn, hhalt⟩ := sigchldTurn_quiet (P := P) (install d.server o)
        exact muted_waiting hw ((Unanswered.install d.server o).trans (.of_quiet hturn)) hhalt
      | sighup reopened => exact silent_waiting hw (sighupCb_silently _ reopened)
      | heartbeat p => exact silent_waiting hw (heartbeatCb_silently _ p)
      | childRead p buf => exact silent_waiting hw (Silently.refl.slog _)
      | childError p => exact silent_waiting hw (childErrorCb_silently _ p)

/-- The chunk of an empty message has a header too. -/
theorem messageBytes_pos (cid : UInt16) (ret : Bytes) : 0 < (messageBytes cid ret).length := by
  unfold messageBytes messageChunks
  split
  · rw [List.flatMap_cons, List.length_append]
    exact Nat.add_pos_left (Nat.succ_pos _) _
  · rw [List.flatMap_cons, List.length_append]
    exact Nat.add_pos_left (Nat.succ_pos _) _

/-- A client that is answered has a reply due. -/
theorem dueAfter_pos {n : ℕ} (h : (newOut s u).any (isReplyTo con) = true) :
    0 < dueAfter P s u con n := by
  rw [dueAfter, if_pos h]
  refine Nat.add_pos_right _ ?_
  have hne : upToReply con (newOut s u) ≠ [] := by
    intro hnil
    obtain ⟨o, ho, hr⟩ := List.any_eq_true.mp h
    have hno := List.rdropWhile_eq_nil_iff.mp hnil o ho
    rw [hr] at hno
    cases hno
  have hlast := List.rdropWhile_last_not _ _ hne
  have hmem := List.getLast_mem hne
  change ¬ (!isReplyTo con ((upToReply con (newOut s u)).getLast hne)) = true at hlast
  generalize (upToReply con (newOut s u)).getLast hne = o at hlast hmem
  cases o with
  | reply con' cid r =>
    have hcon : con' = con := by simpa [isReplyTo] using hlast
    have hbytes : bytesTo P s.io.subscriptions con (.reply con' cid r) =
        messageBytes cid (P.jsonPrint r.json) := if_pos hcon.symm
    have hpos := messageBytes_pos cid (P.jsonPrint r.json)
    refine List.length_pos_of_mem (a := (messageBytes cid (P.jsonPrint r.json)).head
      (List.ne_nil_of_length_pos hpos)) ?_
    refine List.mem_flatMap.mpr ⟨_, hmem, ?_⟩
    rw [hbytes]
    exact List.head_mem _
  | _ => exact absurd rfl hlast

/-- The reply to a request that is given up is lost. -/
theorem request_lost {cid : UInt16} {payload : Bytes} {o : Oracle} {c : Command}
    (hl : Linked d.server.reg) (hc : findCommand payload = some c)
    (h : GivesUp P d.server (CStr.ofBytes (payload.drop 4)) c) :
    ¬ Waiting (move P d (.server (.callback (.request con cid payload) o))) := by
  generalize hx : (install d.server o).withIo (setCid con cid) = x
  have hreg : x.reg = d.server.reg ∧ x.allowExit = d.server.allowExit := by
    rw [← hx]
    exact ⟨rfl, rfl⟩
  have hgave := runCommand_gaveUp (s := x) con (h.of_same hreg.1.symm hreg.2.symm)
  obtain ⟨rs, hrs⟩ := runCommand_replied (P := P) (s := x) (by rw [hreg.1]; exact hl) c con
    (CStr.ofBytes (payload.drop 4))
  have hans := hrs.answered
  rw [← hx] at hans
  have hnew := (request_answered hc hans).1
  generalize hu : next P d.server (.callback (.request con cid payload) o) = u at hnew
  have hany : (newOut d.server u).any (isReplyTo con) = true := by
    obtain ⟨r, hr⟩ := List.exists_mem_of_ne_nil rs hrs.nonempty
    have hr' : r ∈ answersOf d.server u := by
      rw [hnew]
      exact hr
    obtain ⟨out, hout, he⟩ := List.mem_filterMap.mp hr'
    refine List.any_eq_true.mpr ⟨out, hout, ?_⟩
    cases out with
    | reply con' cid' r' =>
      cases he
      exact decide_eq_true (hrs.addressed _ hr).1
    | _ => cases he
  intro hw
  have hwait := hw con
  have hmove : move P d (.server (.callback (.request con cid payload) o)) =
      ⟨u, fun con => dueAfter P d.server u con (d.due con)⟩ := by
    rw [← hu]
    rfl
  rw [hmove] at hwait
  obtain ⟨hrun, hcon, -⟩ := hwait (dueAfter_pos hany)
  dsimp only at hrun hcon
  have hserver : u = (runServerCommand P x con payload).withIo (setCid con 0) := by
    rw [← hu, ← hx]
    rfl
  rw [runServerCommand, hc] at hserver
  dsimp only at hserver
  rcases hgave with hdrop | hhalt
  · rw [hdrop, if_neg Bool.false_ne_true] at hserver
    rw [hserver, Connected, setCid_ids] at hcon
    exact not_connected_drop _ con hcon
  · rw [hserver] at hrun
    split at hrun
    · exact Bool.false_ne_true (hrun.symm.trans hhalt)
    · exact Bool.false_ne_true (hrun.symm.trans hhalt)

/-- A connection with a reply due is closed. -/
theorem closing_lost {e : Event} (h : Closes con e) (hdue : ¬ d.due con = 0) :
    ¬ Waiting (move P d (.server e)) := by
  intro hw
  have hclosed := next_closed (P := P) (s := d.server) h
  have hwait := hw con
  change 0 < dueAfter P d.server (next P d.server e) con (d.due con) → _ at hwait
  rw [hclosed.unanswered.due] at hwait
  exact hclosed.disconnected (hwait (Nat.pos_of_ne_zero hdue)).2.1

/-- A move that does not spare the connections loses a reply. -/
theorem move_lost (hl : Linked d.server.reg) (hq : ¬ Spares P d m) : ¬ Waiting (move P d m) := by
  cases m with
  | flush con n => exact absurd trivial hq
  | server e =>
    cases e with
    | callback c o =>
      cases c with
      | request con cid payload =>
        simp only [Spares] at hq
        cases hc : findCommand payload with
        | some c =>
          rw [hc] at hq
          exact request_lost hl hc (not_not.mp hq)
        | none =>
          rw [hc] at hq
          exact closing_lost (.unknown hc) hq
      | badLength con tooLarge => exact closing_lost .badLength hq
      | error con => exact closing_lost .error hq
      | _ => exact absurd trivial hq
    | _ => exact absurd trivial hq

/-- Nothing is due before the event loop runs. -/
structure Settled (d : Delivery) : Prop where
  linked : Linked d.server.reg
  unstarted : d.server.started = false → ∀ con, d.due con = 0

theorem quietStart_settled (autoDump allowExit : Bool) (t : ℤ) :
    Settled (quietStart autoDump allowExit t) := ⟨Registry.linked_init, fun _ _ => rfl⟩

theorem move_settled (h : Settled d) (hm : CanMove d m) : Settled (move P d m) := by
  cases m with
  | flush con n =>
    refine ⟨h.linked, fun hs con' => ?_⟩
    have hzero := h.unstarted hs
    change Function.update d.due con (d.due con - n) con' = 0
    by_cases hc : con' = con
    · rw [hc, Function.update_self, hzero con, Nat.zero_sub]
    · rw [Function.update_of_ne hc, hzero con']
  | server e =>
    have hstep : Step P d.server e (next P d.server e) := ⟨hm, rfl⟩
    refine ⟨step_linked h.linked hstep, fun hs con => ?_⟩
    have hsame : ∀ u : Server, u.io = d.server.io → u.started = false → d.server.started = false →
        dueAfter P d.server u con (d.due con) = 0 := by
      intro u hio _ hs
      have hun : Unanswered (fun _ => False) d.server u := .same (by rw [hio]) (by rw [hio])
      rw [hun.due, h.unstarted hs]
    cases e with
    | callback c o =>
      have hon := (step_outputs h.linked hstep).started c o rfl
      exact absurd (hon.symm.trans hs) (by decide)
    | clock t => exact hsame _ rfl hs hs
    | childExit pid ret pos => exact hsame _ rfl hs hs

/-- Which moves lose a reply, and that none is lost before there is such a move. -/
theorem reachable_waiting_iff {autoDump allowExit : Bool} {t : ℤ}
    (h : Execution (Guarded CanMove (move P)) (fun d m _ => Spares P d m)
      (quietStart autoDump allowExit t) d) (hm : CanMove d m) :
    Waiting d ∧ (Waiting (move P d m) ↔ Spares P d m) := by
  have hboth : Settled d ∧ Waiting d := by
    refine h.invariant (P := fun d => Settled d ∧ Waiting d) ?_ ⟨quietStart_settled _ _ _, ?_⟩
    · rintro a m b ⟨hset, hw⟩ ⟨hcan, rfl⟩ hq
      exact ⟨move_settled hset hcan, move_waiting hset.linked hset.unstarted hw hcan hq⟩
    · exact fun con hdue => absurd hdue (lt_irrefl 0)
  obtain ⟨hset, hw⟩ := hboth
  refine ⟨hw, ?_, move_waiting hset.linked hset.unstarted hw hm⟩
  intro hmoved
  by_contra hq
  exact move_lost hset.linked hq hmoved

end System

section Lost

/-- A request for a group that does not exist. -/
def nosuchRequest : Json := .object [(text "name", .string (text "nosuch"))]

def nosuchPlatform : Platform := sample [printed nosuchRequest]

/-- A server with a client to which nothing is due. -/
def attended : Delivery := move nosuchPlatform (quietStart false false 0) (.server connecting)

theorem attended_reached : Execution (Guarded CanMove (move nosuchPlatform))
    (fun d m _ => Spares nosuchPlatform d m) (quietStart false false 0) attended :=
  .single ⟨by decide +kernel, rfl⟩ trivial

theorem attended_waiting_iff : Waiting attended ∧
    (Waiting (move nosuchPlatform attended (.server (asking "KILL" nosuchRequest []))) ↔
      Spares nosuchPlatform attended (.server (asking "KILL" nosuchRequest []))) :=
  reachable_waiting_iff attended_reached (by decide +kernel)

/-- UPDT of an unknown group closes the connection: the reply `"not found"` is lost. -/
theorem attended_lost : ¬ ∀ (P : Platform) (autoDump allowExit : Bool) (t : ℤ) (d : Delivery)
    (con : ClientId) (cid : UInt16) (payload : Bytes) (o : Oracle) (c : Command),
    Execution (Guarded CanMove (move P)) (fun d m _ => Spares P d m)
      (quietStart autoDump allowExit t) d →
    CanMove d (.server (.callback (.request con cid payload) o)) → findCommand payload = some c →
    Waiting (move P d (.server (.callback (.request con cid payload) o))) := by
  intro h
  have hcan : CanMove attended (.server (asking "UPDT" nosuchRequest [])) := by decide +kernel
  have hc : findCommand (text "UPDT" ++ printJson nosuchRequest) = some .updt := by decide +kernel
  have hw := h nosuchPlatform false false 0 attended 0 1 _ _ .updt attended_reached hcan hc
  have hdue :
      0 < (move nosuchPlatform attended (.server (asking "UPDT" nosuchRequest []))).due 0 := by
    decide +kernel
  have hconnected := (hw 0 hdue).2.1
  revert hconnected
  decide +kernel

end Lost

end UbervisorDelivery
