import Ubervisor.Conversations
import Ubervisor.Proxy

/-! # A client behind a proxy

The proxy, the socket, the server with its decoders and the buffers of the way back. What is
typed at the proxy is decoded at the server, and the replies come back in the order of the
requests. -/
namespace UbervisorTunnel

open UbervisorRuns
open UbervisorTraces
open UbervisorValues
open UbervisorReadCallback (findCommand acceptedConn)
open UbervisorServer
open UbervisorEvents
open UbervisorSupervision (Linked)
open UbervisorEffects
open UbervisorDelivery
open UbervisorJsonC (connecting)
open UbervisorDecoding (keepAll)
open UbervisorSegmentation (Follows)
open UbervisorConnections
open UbervisorConversations
open UbervisorPipes
open UbervisorProxy

/-- `up` and `down` are the bytes in the socket between the proxy and the server. -/
structure Tunnel where
  net : Net
  relay : Relay
  up : Bytes
  down : Bytes
  attached : Bool

inductive Action where
  | proxy (s : Signal)
  | net (i : Input)
  | flush (con : ClientId) (n : ℕ)

/-- The socket of the proxy is accepted once, as `con`. Only what was written to a socket is
read from it. -/
def CanCarry (con : ClientId) (t : Tunnel) : Action → Prop
  | .proxy s => CanRelay t.relay s ∧ s.takes .beSock <+: t.down
  | .net i => CanTake t.net i ∧ i.takes con <+: t.up ∧ (i.accepts = some con → t.attached = false)
  | .flush con' n => Alive t.net.server ∧ t.net.server.inSigchld = false ∧
      Connected t.net.server con' ∧ n ≤ (outputIn t.net.server.io.clients con').length

instance (con : ClientId) (t : Tunnel) (a : Action) : Decidable (CanCarry con t a) := by
  cases a <;> simp only [CanCarry] <;> infer_instance

def carry (P : Platform) (con : ClientId) (t : Tunnel) : Action → Tunnel
  | .proxy s =>
    { t with
      relay := relay t.relay s
      up := t.up ++ s.gives t.relay .beSock
      down := t.down.drop (s.takes .beSock).length }
  | .net i =>
    { t with
      net := take P t.net i
      up := t.up.drop (i.takes con).length
      attached := t.attached || decide (i.accepts = some con) }
  | .flush con' n =>
    { t with
      net := { t.net with server := t.net.server.withIo (flush con' n) }
      down := t.down ++
        if con' = con then (outputIn t.net.server.io.clients con').take n else [] }

abbrev Carry (P : Platform) (con : ClientId) : Tunnel → Action → Tunnel → Prop :=
  Guarded (CanCarry con) (carry P con)

def Tunnel.start (s : Server) : Tunnel := ⟨.start s, .start, [], [], false⟩

/-- The ids of the requests on a connection. -/
def idsOn (con : ClientId) (l : List Occurrence) : List UInt16 :=
  l.filterMap fun
    | .request con' cid _ => if con = con' then some cid else none
    | .accepted _ => none

/-- What a move of the conversation shows. -/
def shown : Move → Option Occurrence
  | .server e => occurrence e
  | .flush _ _ => none

/-- The conversation goes on by moves that show what the net records meanwhile. -/
abbrev Spoken (P : Platform) : Tunnel × Conversation → Tunnel × Conversation → Prop :=
  Simulated (Talk P) Prod.snd (fun x => x.1.net.log) shown

section Asked

variable {P : Platform} {con con' : ClientId} {s u : Server} {e : Event} {es : List Event}
  {d : Conversation} {l m : List (UInt16 × Bytes)}

theorem idsOn_append (con : ClientId) (k l : List Occurrence) :
    idsOn con (k ++ l) = idsOn con k ++ idsOn con l := List.filterMap_append

theorem idsOn_requestsOn (con : ClientId) (l : List (UInt16 × Bytes)) :
    idsOn con (requestsOn con l) = l.map Prod.fst := by
  induction l with
  | nil => rfl
  | cons r l ih =>
    have hfirst : idsOn con (requestsOn con (r :: l)) = r.1 :: idsOn con (requestsOn con l) := by
      simp [idsOn, requestsOn]
    rw [hfirst, ih, List.map_cons]

theorem idsOn_other (h : con ≠ con') {k : List Occurrence}
    (hk : ∀ o ∈ k, ∃ cid payload, o = .request con' cid payload) : idsOn con k = [] := by
  refine List.filterMap_eq_nil_iff.mpr fun o ho => ?_
  obtain ⟨cid, payload, rfl⟩ := hk o ho
  exact if_neg h

theorem shown_server (es : List Event) :
    (es.map Move.server).filterMap shown = es.filterMap occurrence := by
  rw [List.filterMap_map]
  rfl

/-- What a callback serves are requests of its connection. -/
theorem Served.ids (h : Served P con' (s, l) (u, m)) : ∃ es, Trace (Step P) s es u ∧
    es.filterMap occurrence = requestsOn con' (m.drop l.length) ∧
    (∀ o ∈ es.filterMap occurrence, ∃ cid payload, o = .request con' cid payload) ∧
    m.map Prod.fst = l.map Prod.fst ++ idsOn con' (es.filterMap occurrence) := by
  obtain ⟨es, ht, hseen⟩ := h
  have hlog : requestsOn con' m = requestsOn con' l ++ es.filterMap occurrence := hseen
  refine ⟨es, ht, requestsOn_drop hlog, fun o ho => ?_, ?_⟩
  · have hmem : o ∈ requestsOn con' m := hlog ▸ List.mem_append_right _ ho
    obtain ⟨r, -, rfl⟩ := List.mem_map.mp hmem
    exact ⟨r.1, r.2, rfl⟩
  · rw [← idsOn_requestsOn con' m, hlog, idsOn_append, idsOn_requestsOn]

/-- The sender of an unknown command is disconnected. -/
theorem unknown_disconnects {cid : UInt16} {payload : Bytes} {o : Oracle}
    (hc : findCommand payload = none) :
    ¬ Connected (next P s (.callback (.request con cid payload) o)) con := by
  intro hu
  rw [next_unknown hc] at hu
  unfold Connected at hu
  rw [setCid_ids] at hu
  exact not_connected_drop _ con hu

theorem occurrence_accepted (h : accepted e = some con) : occurrence e = some (.accepted con) := by
  cases e with
  | callback c o =>
    cases c with
    | accept a =>
      cases a with
      | connected k => exact congrArg some (congrArg _ (Option.some.inj h))
      | _ => cases h
    | _ => cases h
  | _ => cases h

theorem occurrence_request (h : accepted e = none) :
    occurrence e = (requestIn e).map fun r => .request r.1 r.2.1 r.2.2 := by
  cases e with
  | callback c o =>
    cases c with
    | accept a =>
      cases a with
      | connected k => cases h
      | _ => rfl
    | _ => rfl
  | _ => rfl

/-- A step asks for its connection what it shows. -/
theorem talk_asked (hl : Linked d.server.reg) (h : Step P d.server e u)
    (hne : occurrence e ≠ some (.accepted con)) (hu : Connected u con) :
    Connected d.server con ∧
      (talk P d (.server e)).asked con = d.asked con ++ idsOn con (occurrence e).toList ∧
      (talk P d (.server e)).flushed con = d.flushed con := by
  unfold talk
  dsimp only
  cases hacc : accepted e with
  | some k =>
    have hoc := occurrence_accepted hacc
    have hk : con ≠ k := fun he => hne (he ▸ hoc)
    obtain ⟨he, -⟩ | ⟨-, hs, -⟩ := accept_holds h hacc hu
    · exact absurd he hk
    · dsimp only
      rw [Function.update_of_ne hk, Function.update_of_ne hk, hoc]
      exact ⟨hs, (List.append_nil _).symm, rfl⟩
  | none =>
    obtain ⟨rs, -, l, -, -, hcon⟩ := step_appends hl h hacc
    refine ⟨(hcon con hu).1, ?_, rfl⟩
    dsimp only
    rw [occurrence_request hacc]
    unfold askedBy
    cases hr : requestIn e with
    | none => exact (List.append_nil _).symm
    | some r =>
      obtain ⟨who, cid, payload⟩ := r
      dsimp only
      by_cases hw : con = who
      · subst hw
        have hknown : findCommand payload ≠ none := by
          intro hc
          cases e with
          | callback c o =>
            cases c with
            | request k i b =>
              obtain ⟨rfl, rfl, rfl⟩ := Prod.mk.injEq .. ▸ Option.some.inj hr
              exact unknown_disconnects hc (h.2 ▸ hu)
            | _ => cases hr
          | _ => cases hr
        rw [if_neg hknown, Function.update_self]
        simp [idsOn]
      · split
        · simp [idsOn, hw]
        · rw [Function.update_of_ne hw]
          simp [idsOn, hw]

/-- And so does a run of the server that does not accept the connection again. -/
theorem talk_trace (con : ClientId) (hd : Coherent d) (h : Trace (Step P) d.server es u)
    (hne : ∀ o ∈ es.filterMap occurrence, o ≠ .accepted con) :
    ∃ d', Trace (Talk P) d (es.map .server) d' ∧ Coherent d' ∧ d'.server = u ∧
      (Connected u con → Connected d.server con ∧
        d'.asked con = d.asked con ++ idsOn con (es.filterMap occurrence) ∧
        d'.flushed con = d.flushed con) := by
  induction h with
  | nil => exact ⟨d, .nil d, hd, rfl, fun hu => ⟨hu, (List.append_nil _).symm, rfl⟩⟩
  | @snoc u v es e ht hstep ih =>
    rw [List.filterMap_append] at hne
    obtain ⟨d', hrun, hd', hu, hthen⟩ := ih fun o ho => hne o (List.mem_append_left _ ho)
    subst hu
    have hlast : occurrence e ≠ some (.accepted con) := by
      intro he
      refine hne (.accepted con) (List.mem_append_right _ ?_) rfl
      simp [he]
    rw [List.map_append]
    refine ⟨talk P d' (.server e), hrun.snoc ⟨hstep.1, rfl⟩, talk_coherent hd' hstep.1, ?_,
      fun hv => ?_⟩
    · rw [hstep.2]
      unfold talk
      dsimp only
      split <;> rfl
    · obtain ⟨hcon, hasked, hflushed⟩ := talk_asked hd'.linked hstep hlast hv
      obtain ⟨hcon', hasked', hflushed'⟩ := hthen hcon
      refine ⟨hcon', ?_, hflushed.trans hflushed'⟩
      rw [hasked, hasked', List.filterMap_append, idsOn_append, List.append_assoc]
      simp only [List.filterMap_cons, List.filterMap_nil]
      cases occurrence e <;> rfl

end Asked

section Steps

variable {P : Platform} {con con' : ClientId} {t : Tunnel} {d : Conversation} {u : Server}
  {e : Event} {i : Input}

/-- The server runs, and has the connection. -/
def Live (con : ClientId) (s : Server) : Prop := Alive s ∧ Connected s con

instance (con : ClientId) (s : Server) : Decidable (Live con s) :=
  inferInstanceAs (Decidable (_ ∧ _))

theorem alive_before {s : Server} (h : Step P s e u) (hu : Alive u) : Alive s := by
  obtain ⟨hen, rfl⟩ := h
  cases e with
  | callback c o => exact hen.1
  | _ => exact hu

/-- The connection is gone, or the server is. -/
theorem hangUp_ends (s : Server) (con : ClientId) (c : UbervisorReadCallback.Conn) :
    ¬ Live con (hangUp P s con c) := by
  rintro ⟨halive, hcon⟩
  unfold hangUp at halive hcon
  cases hlen : UbervisorReadCallback.readLen c with
  | drop =>
    rw [hlen] at hcon
    exact not_connected_drop _ con hcon
  | _ =>
    rw [hlen] at halive hcon
    dsimp only at halive hcon
    split at hcon
    · exact not_connected_drop _ con hcon
    · rename_i hnot
      rw [if_neg hnot] at halive
      exact hnot ⟨halive, hcon⟩

/-- Each part of the way holds what it was given and has not handed on, and the server asks and
answers what was decoded. -/
structure Joined (con : ClientId) (t : Tunnel) (d : Conversation) : Prop where
  server : d.server = t.net.server
  coherent : Coherent d
  sound : Sound t.net
  streams : Streams t.net
  held : Held t.relay
  fresh : t.attached = false → ¬ Connected t.net.server con ∧
    t.up = t.relay.written .beSock ∧ t.down = [] ∧ t.relay.read .beSock = []
  up : Live con t.net.server →
    Carried (t.relay.written .beSock) (t.net.received con) [t.up]
  down : Live con t.net.server →
    Carried (d.flushed con) (t.relay.read .beSock) [t.down]
  asked : Live con t.net.server → d.asked con = (t.net.dispatched con).map Prod.fst

theorem Carried.taken {α : Type*} {given taken h x : List α} (c : Carried given taken [h])
    (hx : x <+: h) : Carried given (taken ++ x) [h.drop x.length] := by
  have htaken := c.take x.length
  rw [← List.prefix_iff_eq_take.mp hx] at htaken
  exact htaken

theorem Joined.proxy {s : Signal} (h : Joined con t d) (hc : CanCarry con t (.proxy s)) :
    Joined con (carry P con t (.proxy s)) d where
  server := h.server
  coherent := h.coherent
  sound := h.sound
  streams := h.streams
  held := relay_held h.held hc.1
  fresh ha := by
    obtain ⟨hcon, hup, hdown, hread⟩ := h.fresh ha
    have htakes : s.takes .beSock = [] := List.prefix_nil.mp (hdown ▸ hc.2)
    simp [carry, relay_written, relay_read, hcon, hup, hdown, hread, htakes]
  up hl := by
    have hput := (h.up hl).put (p := []) (s.gives t.relay .beSock)
    simpa [carry, relay_written] using hput
  down hl := by
    have htake := Carried.taken (h.down hl) hc.2
    simpa [carry, relay_read] using htake
  asked := h.asked

theorem Joined.flush {n : ℕ} (h : Joined con t d) (hc : CanCarry con t (.flush con' n)) :
    Joined con (carry P con t (.flush con' n)) (talk P d (.flush con' n)) := by
  have hids : (UbervisorDelivery.flush con' n t.net.server.io).clients.map ClientCon.cId =
      t.net.server.io.clients.map ClientCon.cId :=
    map_cId (ite_cId (k := fun c => { c with output := c.output.drop n }) (fun _ => rfl) con')
  have hconn : ∀ k, Connected (t.net.server.withIo (UbervisorDelivery.flush con' n)) k →
      Connected t.net.server k := by
    intro k hk
    unfold Connected at hk ⊢
    rw [← hids]
    exact hk
  have hlive : Live con (t.net.server.withIo (UbervisorDelivery.flush con' n)) →
      Live con t.net.server := fun ⟨halive, hcon⟩ => ⟨halive, hconn con hcon⟩
  have hcoherent : Coherent (talk P d (.flush con' n)) := flush_coherent h.coherent
  have hserver := congrArg (fun s => s.withIo (UbervisorDelivery.flush con' n)) h.server
  refine ⟨hserver, hcoherent,
    ⟨h.sound.linked, fun k hk => ?_, h.sound.settled⟩,
    ⟨h.streams.follows, h.streams.dropped⟩, h.held, fun ha => ?_, fun hl => h.up (hlive hl),
    fun hl => ?_, fun hl => h.asked (hlive hl)⟩
  · exact h.sound.started k (hconn k hk)
  · obtain ⟨hcon, hup, hdown, hread⟩ := h.fresh ha
    have hne : con' ≠ con := fun he => hcon (he ▸ hc.2.2.1)
    refine ⟨fun hk => hcon (hconn con hk), hup, ?_, hread⟩
    simp [carry, hne, hdown]
  · have hbefore := h.down (hlive hl)
    by_cases he : con' = con
    · subst he
      have hput := hbefore.put (p := []) ((outputIn t.net.server.io.clients con').take n)
      simpa [carry, talk, h.server] using hput
    · simpa [carry, talk, he, Ne.symm he] using hbefore

/-- The connection is made. -/
theorem Joined.attach (h : Joined con t d) (hc : CanCarry con t (.net (.server e)))
    (hacc : accepted e = some con) :
    Joined con (carry P con t (.net (.server e))) (talk P d (.server e)) := by
  obtain ⟨htake, -, honce⟩ := hc
  obtain ⟨-, hup, hdown, hread⟩ := h.fresh (honce hacc)
  have hcoherent := server_coherent (P := P) h.coherent (h.server ▸ htake.1)
  refine ⟨?_, hcoherent, take_sound h.sound htake, take_streams h.sound h.streams htake,
    h.held, fun ha => ?_, fun _ => ?_, fun _ => ?_, fun _ => ?_⟩
  · simp [carry, talk, take, hacc, h.server, Net.fresh]
  · simp [carry, Input.accepts, hacc] at ha
  · simp [carry, take, hacc, Net.fresh, Input.takes, hup, Carried]
  · simp [carry, talk, hacc, hread, hdown, Carried]
  · simp [carry, talk, take, hacc, Net.fresh]

/-- A step of the server that neither reads bytes nor makes the connection. -/
theorem Joined.serverStep (h : Joined con t d) (hc : CanCarry con t (.net (.server e)))
    (hacc : accepted e ≠ some con) :
    Joined con (carry P con t (.net (.server e))) (talk P d (.server e)) := by
  obtain ⟨htake, -, -⟩ := hc
  have hstep : Step P d.server e (next P t.net.server e) := ⟨h.server ▸ htake.1, h.server ▸ rfl⟩
  have hcoherent := server_coherent (P := P) h.coherent hstep.1
  have hserver : (take P t.net (.server e)).server = next P t.net.server e :=
    (take_server t.net htake.2).1
  have hne : occurrence e ≠ some (.accepted con) := by
    rw [occurrence_fromWire htake.2]
    cases ha : accepted e with
    | none => exact nofun
    | some k =>
      intro hk
      have hk' : k = con := by simpa using hk
      exact hacc (hk' ▸ ha)
  have hids : idsOn con (occurrence e).toList = [] := by
    rw [occurrence_fromWire htake.2]
    cases accepted e <;> rfl
  -- nothing is recorded of the connection
  have hsame : (take P t.net (.server e)).received con = t.net.received con ∧
      (take P t.net (.server e)).dispatched con = t.net.dispatched con := by
    unfold take
    dsimp only
    cases ha : accepted e with
    | none => exact ⟨rfl, rfl⟩
    | some k =>
      have hk : con ≠ k := fun he => hacc (he ▸ ha)
      exact ⟨Function.update_of_ne hk _ _, Function.update_of_ne hk _ _⟩
  have hbefore : Live con (next P t.net.server e) → Live con t.net.server ∧
      (talk P d (.server e)).asked con = d.asked con ∧
      (talk P d (.server e)).flushed con = d.flushed con := by
    rintro ⟨halive, hcon⟩
    obtain ⟨hcon', hasked, hflushed⟩ := talk_asked h.coherent.linked hstep hne hcon
    rw [hids, List.append_nil] at hasked
    exact ⟨⟨h.server ▸ alive_before hstep halive, h.server ▸ hcon'⟩, hasked, hflushed⟩
  have hdone : (carry P con t (.net (.server e))).net = take P t.net (.server e) := rfl
  refine ⟨?_, hcoherent, take_sound h.sound htake, take_streams h.sound h.streams htake,
    h.held, fun ha => ?_, fun hl => ?_, fun hl => ?_, fun hl => ?_⟩
  · rw [hdone, hserver, ← h.server]
    unfold talk
    dsimp only
    split <;> rfl
  · have ha' : t.attached = false := by
      simpa [carry, Input.accepts, hacc] using ha
    obtain ⟨hcon, hup, hdown, hread⟩ := h.fresh ha'
    refine ⟨fun hk => hcon ?_, ?_, hdown, hread⟩
    · rw [hdone, hserver] at hk
      exact h.server ▸ (talk_asked h.coherent.linked hstep hne hk).1
    · simpa [carry, Input.takes] using hup
  · rw [hdone, hserver] at hl
    have hcarried := h.up (hbefore hl).1
    rw [← hsame.1] at hcarried
    simpa [carry, Input.takes] using hcarried
  · rw [hdone, hserver] at hl
    obtain ⟨hlive, -, hflushed⟩ := hbefore hl
    rw [hflushed]
    exact h.down hlive
  · rw [hdone, hserver] at hl
    obtain ⟨hlive, hasked, -⟩ := hbefore hl
    rw [hasked, h.asked hlive]
    exact congrArg _ hsame.2.symm

/-- What a callback has done to the server is seen by the conversation. -/
theorem served_talk (con : ClientId) {l m : List (UInt16 × Bytes)} (hd : Coherent d)
    (h : Served P con' (d.server, l) (u, m)) :
    ∃ d' ms, Trace (Talk P) d ms d' ∧ ms.filterMap shown = requestsOn con' (m.drop l.length) ∧
      Coherent d' ∧ d'.server = u ∧ (Connected u con → Connected d.server con ∧
      d'.flushed con = d.flushed con ∧ (con ≠ con' → d'.asked con = d.asked con) ∧
      (con = con' → d.asked con = l.map Prod.fst → d'.asked con = m.map Prod.fst)) := by
  obtain ⟨es, ht, hlog, hreq, hids⟩ := Served.ids h
  obtain ⟨d', hrun, hd', hu, hthen⟩ := talk_trace con hd ht fun o ho he => by
    obtain ⟨cid, payload, rfl⟩ := hreq o ho
    cases he
  refine ⟨d', _, hrun, (shown_server es).trans hlog, hd', hu, fun hcon => ?_⟩
  obtain ⟨hcon', hasked, hflushed⟩ := hthen hcon
  refine ⟨hcon', hflushed, fun hne => ?_, fun he hbefore => ?_⟩
  · rw [hasked, idsOn_other hne hreq, List.append_nil]
  · subst he
    rw [hasked, hbefore, hids]

section Arrival

variable {seg : Bytes} {plan : List Slice} {n : Net} {m : List (UInt16 × Bytes)}

/-- Bytes that arrive are taken from the socket, and the requests in them are asked. -/
theorem Joined.settle (h : Joined con t d) (hc : CanCarry con t (.net (.bytes con' seg plan)))
    (hn : take P t.net (.bytes con' seg plan) = n)
    (hserved : Served P con' (t.net.server, t.net.dispatched con') (n.server, m))
    (hself : con = con' → Live con n.server →
      n.received con = t.net.received con ++ seg ∧ n.dispatched con = m)
    (hother : con ≠ con' →
      n.received con = t.net.received con ∧ n.dispatched con = t.net.dispatched con)
    (hlog : n.log = t.net.log ++ requestsOn con' (m.drop (t.net.dispatched con').length)) :
    ∃ d', Joined con (carry P con t (.net (.bytes con' seg plan))) d' ∧
      Spoken P (t, d) (carry P con t (.net (.bytes con' seg plan)), d') := by
  obtain ⟨htake, hpre, -⟩ := hc
  rw [← h.server] at hserved
  obtain ⟨d', ms, hrun, hshown, hd', hu, hthen⟩ := served_talk con h.coherent hserved
  rw [h.server] at hthen
  have hlive : Live con n.server → Live con t.net.server :=
    fun ⟨_, hcon⟩ => ⟨htake.1, (hthen hcon).1⟩
  have hdone : (carry P con t (.net (.bytes con' seg plan))).net = n := hn
  have hspoken : Spoken P (t, d) (carry P con t (.net (.bytes con' seg plan)), d') := by
    refine ⟨ms, hrun, ?_⟩
    rw [hshown, ← hlog]
    exact congrArg Net.log hdone
  refine ⟨d', ⟨hu.trans (congrArg Net.server hdone.symm), hd', take_sound h.sound htake,
    take_streams h.sound h.streams htake, h.held, fun ha => ?_, fun hl => ?_, fun hl => ?_,
    fun hl => ?_⟩, hspoken⟩
  · have ha' : t.attached = false := by simpa [carry, Input.accepts] using ha
    obtain ⟨hcon, hup, hdown, hread⟩ := h.fresh ha'
    have hne : con ≠ con' := fun he => hcon (he ▸ htake.2.2)
    refine ⟨fun hk => ?_, ?_, hdown, hread⟩
    · rw [hdone] at hk
      exact hcon (hthen hk).1
    · simpa [carry, Input.takes, hne] using hup
  · rw [hdone] at hl ⊢
    have hbefore := h.up (hlive hl)
    by_cases he : con = con'
    · have htaken := Carried.taken hbefore hpre
      simp only [Input.takes, if_pos he] at htaken
      rw [← (hself he hl).1] at htaken
      simpa [carry, Input.takes, he] using htaken
    · rw [← (hother he).1] at hbefore
      simpa [carry, Input.takes, he] using hbefore
  · rw [hdone] at hl
    rw [(hthen hl.2).2.1]
    exact h.down (hlive hl)
  · rw [hdone] at hl ⊢
    obtain ⟨-, -, hsame, hmore⟩ := hthen hl.2
    have hbefore := h.asked (hlive hl)
    by_cases he : con = con'
    · rw [(hself he hl).2]
      exact hmore he (he ▸ hbefore)
    · rw [(hother he).2, hsame he, hbefore]

theorem Joined.arrives (h : Joined con t d)
    (hc : CanCarry con t (.net (.bytes con' seg plan))) :
    ∃ d', Joined con (carry P con t (.net (.bytes con' seg plan))) d' ∧
      Spoken P (t, d) (carry P con t (.net (.bytes con' seg plan)), d') := by
  rcases readable_cases (P := P) h.sound hc.1 with ⟨st, l, -, -, hserved, -, -, hr⟩ |
    ⟨l, -, hserved, hr⟩
  · refine h.settle hc hr hserved (fun he _ => ?_) (fun he => ?_) rfl
    · subst he
      exact ⟨Function.update_self .., Function.update_self ..⟩
    · exact ⟨Function.update_of_ne he _ _, Function.update_of_ne he _ _⟩
  · refine h.settle hc hr hserved (fun he hl => ?_) (fun he => ?_) rfl
    · subst he
      exact absurd hl (hangUp_ends _ _ _)
    · exact ⟨Function.update_of_ne he _ _, Function.update_of_ne he _ _⟩

end Arrival

theorem flush_spoken {n : ℕ} (h : Joined con t d) (hc : CanCarry con t (.flush con' n)) :
    Spoken P (t, d) (carry P con t (.flush con' n), talk P d (.flush con' n)) := by
  have hcan : CanTalk d (.flush con' n) := by
    rw [CanTalk, h.server]
    exact hc
  exact ⟨[.flush con' n], .single ⟨hcan, rfl⟩, (List.append_nil _).symm⟩

theorem server_spoken (h : Joined con t d) (hc : CanCarry con t (.net (.server e))) :
    Spoken P (t, d) (carry P con t (.net (.server e)), talk P d (.server e)) := by
  have hcan : CanTalk d (.server e) := by
    rw [CanTalk, h.server]
    exact hc.1.1
  refine ⟨[.server e], .single ⟨hcan, rfl⟩, ?_⟩
  have hlog : (take P t.net (.server e)).log = t.net.log ++ (occurrence e).toList :=
    (take_server t.net hc.1.2).2
  refine hlog.trans (congrArg _ ?_)
  rw [List.filterMap_cons, shown]
  cases occurrence e <;> rfl

theorem carry_joined {a : Action} (h : Joined con t d) (hc : CanCarry con t a) :
    ∃ d', Joined con (carry P con t a) d' ∧ Spoken P (t, d) (carry P con t a, d') := by
  cases a with
  | proxy s => exact ⟨d, h.proxy hc, [], .nil d, (List.append_nil _).symm⟩
  | flush con' n => exact ⟨_, h.flush hc, flush_spoken h hc⟩
  | net i =>
    cases i with
    | bytes con' seg plan => exact h.arrives hc
    | server e =>
      by_cases hacc : accepted e = some con
      · exact ⟨_, h.attach hc hacc, server_spoken h hc⟩
      · exact ⟨_, h.serverStep hc hacc, server_spoken h hc⟩

theorem start_joined (con : ClientId) (autoDump allowExit : Bool) (c : ℤ) :
    Joined con (.start (initial autoDump allowExit c))
      (silence (initial autoDump allowExit c)) where
  server := rfl
  coherent := silence_coherent autoDump allowExit c
  sound := start_sound autoDump allowExit c
  streams := start_streams _
  held := start_held
  fresh _ := ⟨List.not_mem_nil, rfl, rfl, rfl⟩
  up h := absurd h.2 List.not_mem_nil
  down h := absurd h.2 List.not_mem_nil
  asked h := absurd h.2 List.not_mem_nil

end Steps

section Runs

variable {P : Platform} {con : ClientId} {t : Tunnel}

/-- While the connection lives, what is typed at the proxy has been decoded by the server or is
on its way, and the requests in it are answered in their order. The server has come to its state
by a conversation with its clients in which the accepts and requests are those of the net: what it
sends the client there has been written by the proxy or is on its way back. -/
theorem tunnel_carries {autoDump allowExit : Bool} {c : ℤ}
    (h : Execution (Carry P con) Always (.start (initial autoDump allowExit c)) t)
    (hlive : Live con t.net.server) :
    Carried (t.relay.read .beIn) (t.net.received con)
      [t.up, (t.relay.proxy.bufs .beSock).output, t.relay.lost .beIn] ∧
    t.net.dispatched con = requestsOf (t.net.received con) ∧
    ∃ d ms, Trace (Talk P) (silence (initial autoDump allowExit c)) ms d ∧
      ms.filterMap shown = t.net.log ∧ d.server = t.net.server ∧
      InOrder ((t.net.dispatched con).map Prod.fst) (replies (d.sent con)) ∧
      Carried (wireOf (d.sent con)) (t.relay.written .beOut)
        [(t.relay.proxy.bufs .beOut).output, t.relay.lost .beSock, t.down,
          outputIn t.net.server.io.clients con] := by
  obtain ⟨d, hd, ms, hrun, hshown⟩ : ∃ d, Joined con t d ∧
      Spoken P (.start (initial autoDump allowExit c), silence (initial autoDump allowExit c))
        (t, d) := by
    refine h.invariant (P := fun t => ∃ d, Joined con t d ∧
      Spoken P (.start (initial autoDump allowExit c), silence (initial autoDump allowExit c))
        (t, d)) ?_ ⟨_, start_joined con autoDump allowExit c, .refl _⟩
    rintro t a t' ⟨d, hd, hspoken⟩ ⟨hcan, rfl⟩ -
    obtain ⟨d', hd', hmore⟩ := carry_joined (P := P) hd hcan
    exact ⟨d', hd', hspoken.trans hmore⟩
  obtain ⟨rs, hf⟩ := hd.streams.follows con
  have hcon : Connected d.server con := hd.server ▸ hlive.2
  have hin := hd.held.carried .beIn nofun
  have hout := hd.held.carried .beSock nofun
  have hsent := hd.coherent.carried con hcon
  have hback := (hsent.comp (hd.down hlive)).comp hout
  rw [hd.server] at hback
  refine ⟨hin.comp (hd.up hlive), follows_requests hf, d, ms, hrun,
    (hshown.trans (List.nil_append _)).symm, hd.server, ?_, hback⟩
  rw [← hd.asked hlive]
  exact hd.coherent.ordered con hcon

/-- A LIST that is typed at the proxy, before the server has accepted its socket. -/
def typed : List Action :=
  [.proxy (.readable .beIn ([0, 4, 0, 9] ++ text "LI") true), .proxy (.writable .beSock 6),
    .net (.server connecting), .net (.bytes 0 ([0, 4, 0, 9] ++ text "LI") []),
    .proxy (.readable .beIn (text "ST") true), .proxy (.writable .beSock 2),
    .net (.bytes 0 (text "ST") []), .flush 0 6, .proxy (.readable .beSock [0, 3, 0] true),
    .proxy (.writable .beOut 2)]

def typedTunnel : Tunnel :=
  stateAfter (carry lonePlatform 0) (.start (initial false false 0)) typed

theorem typed_admitted : Admits (CanCarry 0) (carry lonePlatform 0) Always
      (.start (initial false false 0)) typed ∧ Live 0 typedTunnel.net.server := by
  decide +kernel

theorem typed_carries : Carried (typedTunnel.relay.read .beIn) (typedTunnel.net.received 0)
      [typedTunnel.up, (typedTunnel.relay.proxy.bufs .beSock).output,
        typedTunnel.relay.lost .beIn] ∧
    typedTunnel.net.dispatched 0 = requestsOf (typedTunnel.net.received 0) ∧
    ∃ d ms, Trace (Talk lonePlatform) (silence (initial false false 0)) ms d ∧
      ms.filterMap shown = typedTunnel.net.log ∧ d.server = typedTunnel.net.server ∧
      InOrder ((typedTunnel.net.dispatched 0).map Prod.fst) (replies (d.sent 0)) ∧
      Carried (wireOf (d.sent 0)) (typedTunnel.relay.written .beOut)
        [(typedTunnel.relay.proxy.bufs .beOut).output, typedTunnel.relay.lost .beSock,
          typedTunnel.down, outputIn typedTunnel.net.server.io.clients 0] :=
  tunnel_carries typed_admitted.1.execution typed_admitted.2

end Runs

end UbervisorTunnel
