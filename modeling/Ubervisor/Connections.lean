import Ubervisor.ClientCommands
import Ubervisor.Delivery
import Ubervisor.ReadLoop
import Ubervisor.Registrations
import Ubervisor.Segmentation
import Ubervisor.Traces

/-! # Connections

The server with its connections as streams of bytes. One callback may hand over many requests,
of one connection. Every connection has a decoder of its own, and what the decoders hand over
is a run of the server that takes whole requests. -/
namespace UbervisorConnections

open UbervisorRuns
open UbervisorTraces
open UbervisorValues
open UbervisorChunks
open UbervisorServer
open UbervisorReadCallback
open UbervisorCommands (runCommand)
open UbervisorEvents
open UbervisorSupervision (Linked)
open UbervisorEffects
open UbervisorAnswers
open UbervisorReplies
open UbervisorJsonC (sample connecting)
open UbervisorDelivery (next_unknown not_connected_drop setCid_keeps grown_cId)
open UbervisorRegistrations (step_started)
open UbervisorReadLoop (Settled readLen_go readCid_go)
open UbervisorDecoding (keepAll)
open UbervisorSegmentation

/-- What happens until the next handler runs, and what the system calls of the handler return. -/
structure Slice where
  before : List Event
  oracle : Oracle

/-- While `read_cb` runs no other callback does, but children may end and time may pass. -/
def pass (P : Platform) (s : Server) : Event → Server
  | .callback .. => s
  | .childExit pid ret pos =>
    if Enabled s (.childExit pid ret pos) then next P s (.childExit pid ret pos) else s
  | .clock t => next P s (.clock t)

def elapse (P : Platform) (s : Server) (l : List Event) : Server := l.foldl (pass P) s

/-- The server while `read_cb` runs, and what is to come. -/
structure Serving where
  server : Server
  plan : List Slice

def Slice.idle : Slice := ⟨[], [], [], fun _ => none⟩

/-- The handlers of the server, on one of its connections. A server that has exited answers
nothing any more. -/
def serve (P : Platform) (con : ClientId) : Handler Serving := fun c x cid buf =>
  let slice := x.plan.headD .idle
  let s := install (elapse P x.server slice.before) slice.oracle
  let (s, cr) := runCommand P c (s.withIo (setCid con cid)) con (CStr.ofBytes buf)
  let s := (if cr then s else dropClientConnection s con).withIo (setCid con 0)
  (cr && decide (Alive s), ⟨s, x.plan.tail⟩)

/-- The length field at the front of the buffer. -/
def lengthField (c : Conn) : ℕ :=
  match c.input with
  | hi :: lo :: _ => (readBe16 hi lo).toNat
  | _ => 0

/-- `read_cb` returns early. A connection whose handler returned 0 is dropped by then, one with
an unknown command is not. -/
def hangUp (P : Platform) (s : Server) (con : ClientId) (c : Conn) : Server :=
  match readLen c with
  | .drop => badLength P s con (decide (chunkSiz < lengthField c))
  | _ => if Alive s ∧ Connected s con then dropClientConnection s con else s

/-- What the clients do, as the server sees it. -/
inductive Occurrence where
  | accepted (con : ClientId)
  | request (con : ClientId) (cid : UInt16) (payload : Bytes)
  deriving DecidableEq

def requestsOn (con : ClientId) (l : List (UInt16 × Bytes)) : List Occurrence :=
  l.map fun r => .request con r.1 r.2

/-- The server and the decoders of its connections. What has arrived and what was handed over
on each connection, the same of those that `read_cb` has dropped, and all that the clients did
so far are recorded for the statements only. -/
structure Net where
  server : Server
  conns : ClientId → Conn
  received : ClientId → Bytes
  dispatched : ClientId → List (UInt16 × Bytes)
  dropped : List (Bytes × List (UInt16 × Bytes))
  log : List Occurrence

/-- A connection that has just been made. -/
def Net.fresh (n : Net) (con : ClientId) : Net :=
  { n with
    conns := Function.update n.conns con acceptedConn
    received := Function.update n.received con []
    dispatched := Function.update n.dispatched con [] }

inductive Input where
  | bytes (con : ClientId) (seg : Bytes) (plan : List Slice)
  | server (e : Event)

/-- The bytes that arrive on a connection. -/
def Input.takes (con : ClientId) : Input → Bytes
  | .bytes con' seg _ => if con = con' then seg else []
  | .server _ => []

/-- The callbacks that only come of bytes. -/
def fromWire : Event → Bool
  | .callback (.request ..) _ => true
  | .callback (.badLength ..) _ => true
  | _ => false

def accepted : Event → Option ClientId
  | .callback (.accept (.connected con)) _ => some con
  | _ => none

def Input.accepts : Input → Option ClientId
  | .server e => accepted e
  | .bytes .. => none

def CanTake (n : Net) : Input → Prop
  | .bytes con _ _ => Alive n.server ∧ n.server.inSigchld = false ∧ Connected n.server con
  | .server e => Enabled n.server e ∧ fromWire e = false

instance (n : Net) (i : Input) : Decidable (CanTake n i) := by
  cases i <;> simp only [CanTake] <;> infer_instance

/-- Bytes arrive on a connection: libevent calls `read_cb`, or waits for more. -/
def readable (P : Platform) (n : Net) (con : ClientId) (seg : Bytes) (plan : List Slice) : Net :=
  let (st, l) := arrive (serve P con)
    (.waiting, ⟨n.conns con, ⟨n.server, plan⟩, n.dispatched con, []⟩) seg
  let n := { n with log := n.log ++ requestsOn con (l.dispatched.drop (n.dispatched con).length) }
  if st = .dropped then
    { n.fresh con with
      server := hangUp P l.server.server con l.conn
      dropped := (n.received con ++ seg, l.dispatched) :: n.dropped }
  else
    { n with
      server := l.server.server
      conns := Function.update n.conns con l.conn
      received := Function.update n.received con (n.received con ++ seg)
      dispatched := Function.update n.dispatched con l.dispatched }

def take (P : Platform) (n : Net) : Input → Net
  | .bytes con seg plan => readable P n con seg plan
  | .server e =>
    let n := { n with server := next P n.server e }
    match accepted e with
    | none => n
    | some con => { n.fresh con with log := n.log ++ [.accepted con] }

abbrev Take (P : Platform) : Net → Input → Net → Prop := Guarded CanTake (take P)

/-- Before any connection is made. -/
def Net.start (s : Server) : Net := ⟨s, fun _ => acceptedConn, fun _ => [], fun _ => [], [], []⟩

/-- The request a step of the server handles. -/
def requestIn : Event → Option (ClientId × UInt16 × Bytes)
  | .callback (.request con cid payload) _ => some (con, cid, payload)
  | _ => none

def occurrence : Event → Option Occurrence
  | .callback (.request con cid payload) _ => some (.request con cid payload)
  | .callback (.accept (.connected con)) _ => some (.accepted con)
  | _ => none

section Turns

variable {σ : Type*} {handler : Handler σ} {l l' : Link σ}

/-- What a turn of a settled decoder does. Without a payload it changes nothing but the
decoder. -/
theorem turn_kinds (handler : Handler σ) (h : Settled l.conn) :
    (∃ c, turn handler l = .wait { l with conn := c } ∧ Settled c) ∨
    (turn handler l = .stop l ∧ readLen l.conn = .drop) ∨
    (∃ c, turn handler l = .next { l with conn := c } ∧ Settled c) ∨
    ∃ c, turn handler l = handOver handler l c ∧ 4 ≤ c.cLen ∧ c.cLen ≤ chunkSiz ∧
      c.cCid ≠ 0 ∧ c.cLen ≤ c.input.length := by
  unfold turn
  cases hlen : readLen l.conn with
  | wait => exact .inl ⟨l.conn, rfl, h⟩
  | drop => exact .inr (.inl ⟨rfl, rfl⟩)
  | go c =>
    obtain ⟨hmin, hmax, -⟩ := readLen_go h hlen
    dsimp only
    unfold cidTurn
    cases hcid : readCid c with
    | wait => exact .inl ⟨c, rfl, .inr ⟨hmin, hmax⟩⟩
    | drop =>
      unfold readCid at hcid
      split at hcid
      · split at hcid <;> cases hcid
      · cases hcid
    | go d =>
      obtain ⟨hkept, -⟩ := readCid_go hcid
      have hd : Settled d := .inr ⟨hkept ▸ hmin, hkept ▸ hmax⟩
      dsimp only
      unfold readPayload
      split
      · rename_i hready
        split
        · exact .inl ⟨d, rfl, hd⟩
        · rename_i hfull
          exact .inr (.inr (.inr ⟨d, rfl, hkept ▸ hmin, hkept ▸ hmax, hready.2, by omega⟩))
      · exact .inr (.inr (.inl ⟨d, rfl, hd⟩))

end Turns

section World

variable {P : Platform} {s : Server}

/-- The children and the clock leave the callbacks alone. -/
structure Untouched (s u : Server) : Prop where
  io : u.io = s.io
  turn : u.inSigchld = s.inSigchld
  started : u.started = s.started
  halted : u.halted = s.halted

theorem Untouched.alive {u : Server} (h : Untouched s u) : Alive u ↔ Alive s := by
  unfold Alive
  rw [h.io, h.halted]

theorem pass_untouched (P : Platform) (s : Server) (e : Event) : Untouched s (pass P s e) := by
  cases e with
  | callback c o => exact ⟨rfl, rfl, rfl, rfl⟩
  | childExit pid ret pos =>
    unfold pass
    dsimp only
    split <;> exact ⟨rfl, rfl, rfl, rfl⟩
  | clock t => exact ⟨rfl, rfl, rfl, rfl⟩

theorem elapse_untouched (P : Platform) (s : Server) (l : List Event) :
    Untouched s (elapse P s l) := by
  induction l generalizing s with
  | nil => exact ⟨rfl, rfl, rfl, rfl⟩
  | cons e l ih =>
    have h := pass_untouched P s e
    have k := ih (pass P s e)
    exact ⟨k.io.trans h.io, k.turn.trans h.turn, k.started.trans h.started,
      k.halted.trans h.halted⟩

/-- What passes between two requests are steps of the server that handle no request and accept
nobody. -/
theorem pass_trace (P : Platform) (s : Server) (e : Event) :
    ∃ es, Trace (Step P) s es (pass P s e) ∧ es.filterMap occurrence = [] := by
  cases e with
  | callback c o => exact ⟨[], .nil s, rfl⟩
  | childExit pid ret pos =>
    unfold pass
    dsimp only
    split
    · rename_i h
      exact ⟨_, .single ⟨h, rfl⟩, rfl⟩
    · exact ⟨[], .nil s, rfl⟩
  | clock t =>
    have hon : Enabled s (.clock t) := trivial
    exact ⟨[.clock t], .single ⟨hon, rfl⟩, rfl⟩

theorem elapse_trace (P : Platform) (s : Server) (l : List Event) :
    ∃ es, Trace (Step P) s es (elapse P s l) ∧ es.filterMap occurrence = [] := by
  induction l generalizing s with
  | nil => exact ⟨[], .nil s, rfl⟩
  | cons e l ih =>
    obtain ⟨es, ht, hes⟩ := pass_trace P s e
    obtain ⟨fs, kt, hfs⟩ := ih (pass P s e)
    refine ⟨es ++ fs, ht.append kt, ?_⟩
    rw [List.filterMap_append, hes, hfs, List.append_nil]

theorem Trace.linked {u : Server} {es : List Event} (h : Trace (Step P) s es u)
    (hl : Linked s.reg) : Linked u.reg := by
  induction h with
  | nil => exact hl
  | snoc _ hs ih => exact step_linked ih hs

end World

section Serving

variable {P : Platform} {con : ClientId} {l l' : Link Serving} {c : Conn} {cmd : Command}
  {buf : Bytes} {cid : UInt16} {x : Serving}

/-- A server that can run a handler for the connection. -/
structure Serves (con : ClientId) (s : Server) : Prop where
  linked : Linked s.reg
  alive : Alive s
  turn : s.inSigchld = false
  started : s.started = true
  connected : Connected s con

theorem Serves.elapse {s : Server} (h : Serves con s) (l : List Event) :
    Serves con (elapse P s l) := by
  have hu := elapse_untouched P s l
  obtain ⟨es, ht, -⟩ := elapse_trace P s l
  refine ⟨Trace.linked ht h.linked, hu.alive.mpr h.alive, hu.turn.trans h.turn,
    hu.started.trans h.started, ?_⟩
  unfold Connected
  rw [hu.io]
  exact h.connected

/-- The request is one that the server can take. -/
theorem Serves.enabled {s : Server} (h : Serves con s) (hcid : cid ≠ 0) (hmin : 4 ≤ buf.length)
    (hmax : buf.length ≤ chunkSiz) (o : Oracle) :
    Enabled s (.callback (.request con cid buf) o) :=
  ⟨h.alive, h.turn, h.connected, hcid, hmin, hmax⟩

/-- A handler of the server takes the step of its request. -/
theorem serve_next (hc : findCommand buf = some cmd) :
    (serve P con cmd x cid (buf.drop 4)).2.server =
      next P (elapse P x.server (x.plan.headD .idle).before)
        (.callback (.request con cid buf) (x.plan.headD .idle).oracle) := by
  unfold serve next runCallback
  dsimp only
  rw [request, UbervisorCommands.runServerCommand, hc]

/-- A handler drops its connection exactly if it returns 0. -/
theorem runCommand_connected {s : Server} (hl : Linked s.reg) (con : ClientId) (b : CStr) :
    Connected (runCommand P cmd s con b).1 con ↔ Connected s con := by
  obtain ⟨rs, hr⟩ := runCommand_replied (P := P) hl cmd con b
  obtain ⟨out, -, hclients, -, -⟩ := hr.answered
  unfold Connected
  rw [hclients, grown_cId]

/-- After a request that is answered the server can take the next one. -/
theorem serve_serves (hs : Serves con x.server) (hc : findCommand buf = some cmd) (hcid : cid ≠ 0)
    (hmin : 4 ≤ buf.length) (hmax : buf.length ≤ chunkSiz)
    (hk : (serve P con cmd x cid (buf.drop 4)).1 = true) :
    Serves con (serve P con cmd x cid (buf.drop 4)).2.server := by
  have hs' := hs.elapse (P := P) (x.plan.headD .idle).before
  have hstep : Step P _ _ _ :=
    ⟨hs'.enabled hcid hmin hmax (x.plan.headD .idle).oracle, (serve_next hc)⟩
  refine ⟨step_linked hs'.linked hstep, ?_, ?_, ?_, ?_⟩
  · unfold serve at hk
    simp only [Bool.and_eq_true, decide_eq_true_eq] at hk
    exact hk.2
  · unfold serve at hk ⊢
    simp only [Bool.and_eq_true, decide_eq_true_eq] at hk
    dsimp only
    rw [if_pos hk.1]
    exact (runCommand_turn _ _ _ _).trans hs'.turn
  · exact (UbervisorOutputs.step_outputs hs'.linked hstep).started _ _ rfl
  · unfold serve at hk ⊢
    simp only [Bool.and_eq_true, decide_eq_true_eq] at hk
    dsimp only
    rw [if_pos hk.1]
    refine (setCid_keeps con 0 ?_).1
    refine (runCommand_connected (s := (install _ _).withIo _) hs'.linked con _).mpr ?_
    exact (setCid_keeps con cid (s := install _ _) hs'.connected).1

/-- After one that is not, the server has exited or the connection is gone. -/
theorem serve_refused (hk : (serve P con cmd x cid (buf.drop 4)).1 = false) :
    ¬ (Alive (serve P con cmd x cid (buf.drop 4)).2.server ∧
      Connected (serve P con cmd x cid (buf.drop 4)).2.server con) := by
  rintro ⟨halive, hcon⟩
  unfold serve at hk halive hcon
  dsimp only at hk halive hcon
  rw [decide_eq_true halive, Bool.and_true] at hk
  rw [hk, if_neg Bool.false_ne_true] at hcon
  unfold Connected at hcon
  rw [UbervisorDelivery.setCid_ids] at hcon
  exact not_connected_drop _ con hcon

/-- What the requests on the connection have done to the server. -/
abbrev Served (P : Platform) (con : ClientId) :
    Server × List (UInt16 × Bytes) → Server × List (UInt16 × Bytes) → Prop :=
  Simulated (Step P) Prod.fst (fun x => requestsOn con x.2) occurrence

def view (l : Link Serving) : Server × List (UInt16 × Bytes) := (l.server.server, l.dispatched)

/-- A handler serves the request it is called with. -/
theorem serve_served (hs : Serves con x.server) (hc : findCommand buf = some cmd) (hcid : cid ≠ 0)
    (hmin : 4 ≤ buf.length) (hmax : buf.length ≤ chunkSiz) (d : List (UInt16 × Bytes)) :
    Served P con (x.server, d)
      ((serve P con cmd x cid (buf.drop 4)).2.server, d ++ [(cid, buf)]) := by
  have hs' := hs.elapse (P := P) (x.plan.headD .idle).before
  obtain ⟨es, ht, hes⟩ := elapse_trace P x.server (x.plan.headD .idle).before
  have hstep : Step P _ _ _ :=
    ⟨hs'.enabled hcid hmin hmax (x.plan.headD .idle).oracle, serve_next hc⟩
  refine ⟨_, .snoc ht hstep, ?_⟩
  rw [List.filterMap_append, hes]
  exact List.map_append

/-- The cid of a connection is dropped with it. -/
theorem setCid_dropped (a b : UInt16) (io : Io) :
    setCid con b (Io.dropClientConnection con (setCid con a io)) =
      Io.dropClientConnection con io := by
  unfold setCid Io.dropClientConnection
  dsimp only
  congr 1
  induction io.clients with
  | nil => rfl
  | cons c cs ih =>
    by_cases hc : c.cId = con
    · simpa [hc] using ih
    · simpa [hc] using ih

/-- The sender of an unknown command is dropped, which is the step of its request. -/
theorem unknown_served {s : Server} (hs : Serves con s) (hc : findCommand buf = none)
    (hcid : cid ≠ 0)
    (hmin : 4 ≤ buf.length) (hmax : buf.length ≤ chunkSiz) (d : List (UInt16 × Bytes)) :
    Served P con (s, d) (dropClientConnection s con, d ++ [(cid, buf)]) := by
  let o : Oracle := ⟨s.spawns, s.io.fileResults, s.io.logFiles⟩
  have hinstall : install s o = s := by
    have hon := hs.started
    unfold install
    rw [← hon]
  have hnext : next P s (.callback (.request con cid buf) o) = dropClientConnection s con := by
    rw [next_unknown hc, hinstall]
    exact congrArg (fun io => { s with io := io }) (setCid_dropped cid 0 s.io)
  refine ⟨_, .single ⟨hs.enabled hcid hmin hmax o, hnext.symm⟩, ?_⟩
  exact List.map_append

/-- How the callback leaves the server: it goes on, or it is through with the connection. -/
inductive Leaves (P : Platform) (con : ClientId) (l : Link Serving) :
    Status × Link Serving → Prop where
  | stays (st : Status) (l' : Link Serving) (ne : st ≠ .dropped)
      (served : Served P con (view l) (view l')) (settled : Settled l'.conn)
      (serves : Serves con l'.server.server) : Leaves P con l (st, l')
  | gone (l' : Link Serving) (served : Served P con (view l)
      (hangUp P l'.server.server con l'.conn, l'.dispatched)) : Leaves P con l (.dropped, l')

theorem Served.leaves {r : Status × Link Serving} (h : Served P con (view l) (view l'))
    (k : Leaves P con l' r) : Leaves P con l r := by
  cases k with
  | stays st l'' ne served settled serves => exact .stays st l'' ne (h.trans served) settled serves
  | gone l'' served => exact .gone l'' (h.trans served)

/-- A payload that is complete is served, or ends the callback. -/
theorem handOver_served (hs : Serves con l.server.server) (hmin : 4 ≤ c.cLen)
    (hmax : c.cLen ≤ chunkSiz) (hcid : c.cCid ≠ 0) (hin : c.cLen ≤ c.input.length) :
    (∃ l', handOver (serve P con) l c = .next l' ∧ Served P con (view l) (view l') ∧
      Settled l'.conn ∧ Serves con l'.server.server) ∨
    ∃ l', handOver (serve P con) l c = .stop l' ∧ Served P con (view l)
      (hangUp P l'.server.server con l'.conn, l'.dispatched) := by
  have hlen : (c.input.take c.cLen).length = c.cLen := List.length_take_of_le hin
  have hbuf : 4 ≤ (c.input.take c.cLen).length := by omega
  have hfit : (c.input.take c.cLen).length ≤ chunkSiz := by omega
  -- the id of the request is still there when the callback returns early
  have hup : ∀ s, hangUp P s con { c with cLen := 0, input := c.input.drop c.cLen, low := 2 } =
      if Alive s ∧ Connected s con then dropClientConnection s con else s := by
    intro s
    have hgo : readLen { c with cLen := 0, input := c.input.drop c.cLen, low := 2 } =
        .go { c with cLen := 0, input := c.input.drop c.cLen, low := 2 } :=
      if_neg fun h => hcid h.2
    rw [hangUp, hgo]
  unfold handOver runServerCommand
  dsimp only
  cases hc : findCommand (c.input.take c.cLen) with
  | none =>
    refine .inr ⟨_, rfl, ?_⟩
    dsimp only
    rw [hup, if_pos ⟨hs.alive, hs.connected⟩]
    exact unknown_served hs hc hcid hbuf hfit _
  | some cmd =>
    dsimp only
    have hserved := serve_served (P := P) hs hc hcid hbuf hfit l.dispatched
    cases hk : (serve P con cmd l.server c.cCid ((c.input.take c.cLen).drop 4)).1 with
    | true => exact .inl ⟨_, rfl, hserved, .inl ⟨rfl, rfl⟩, serve_serves hs hc hcid hbuf hfit hk⟩
    | false =>
      refine .inr ⟨_, rfl, ?_⟩
      dsimp only
      rw [hup, if_neg (serve_refused hk)]
      exact hserved

theorem badLength_served (hs : Serves con l.server.server) (hdrop : readLen l.conn = .drop) :
    Served P con (view l) (hangUp P l.server.server con l.conn, l.dispatched) := by
  let o : Oracle := ⟨l.server.server.spawns, l.server.server.io.fileResults,
    l.server.server.io.logFiles⟩
  have hinstall : install l.server.server o = l.server.server := by
    have hon := hs.started
    unfold install
    rw [← hon]
  have hstep : Step P l.server.server (.callback (.badLength con
      (decide (chunkSiz < lengthField l.conn))) o) (hangUp P l.server.server con l.conn) := by
    refine ⟨⟨hs.alive, hs.turn, hs.connected⟩, ?_⟩
    unfold next runCallback
    dsimp only
    rw [hinstall, hangUp, hdrop]
  exact ⟨_, .single hstep, (List.append_nil _).symm⟩

/-- One callback, whatever is in the buffer. -/
theorem readCb_leaves (fuel : ℕ) (hc : Settled l.conn) (hs : Serves con l.server.server) :
    Leaves P con l (readCb (serve P con) fuel l) := by
  induction fuel generalizing l with
  | zero => exact .stays .spinning l nofun (.refl _) hc hs
  | succ fuel ih =>
    rw [readCb_succ]
    rcases turn_kinds (serve P con) hc with ⟨c, h, hset⟩ | ⟨h, hdrop⟩ | ⟨c, h, hset⟩ |
      ⟨c, h, hmin, hmax, hcid, hin⟩
    · rw [h]
      exact .stays .waiting _ nofun (.refl _) hset hs
    · rw [h]
      exact .gone l (badLength_served hs hdrop)
    · rw [h]
      have hsame : Served P con (view l) (view { l with conn := c }) := .refl (view l)
      exact Served.leaves hsame (ih hset hs)
    · rcases handOver_served hs hmin hmax hcid hin with ⟨l', hn, hserved, hset, hs'⟩ |
        ⟨l', hn, hserved⟩
      · rw [h, hn]
        exact Served.leaves hserved (ih hset hs')
      · rw [h, hn]
        exact .gone l' hserved

end Serving

section Runs

variable {P : Platform} {n n' : Net} {con : ClientId} {seg : Bytes} {plan : List Slice} {i : Input}

/-- What holds between two callbacks. -/
structure Sound (n : Net) : Prop where
  linked : Linked n.server.reg
  started : ∀ con, Connected n.server con → n.server.started = true
  settled : ∀ con, Settled (n.conns con)

theorem settled_update {conns : ClientId → Conn} {c : Conn} (h : ∀ con, Settled (conns con))
    (hc : Settled c) (con' : ClientId) : Settled (Function.update conns con c con') := by
  by_cases he : con' = con
  · rw [he, Function.update_self]
    exact hc
  · rw [Function.update_of_ne he]
    exact h con'

def linkOf (n : Net) (con : ClientId) (plan : List Slice) : Link Serving :=
  ⟨n.conns con, ⟨n.server, plan⟩, n.dispatched con, []⟩

theorem Sound.serves (h : Sound n) (hi : CanTake n (.bytes con seg plan)) :
    Serves con n.server :=
  ⟨h.linked, hi.1, hi.2.1, h.started con hi.2.2, hi.2.2⟩

/-- Below the low watermark the callback does not run. -/
theorem arrive_leaves (h : Sound n) (hi : CanTake n (.bytes con seg plan)) :
    Leaves P con (linkOf n con plan)
      (arrive (serve P con) (.waiting, linkOf n con plan) seg) := by
  have hset : Settled { n.conns con with input := (n.conns con).input ++ seg } := h.settled con
  unfold arrive
  dsimp only
  split
  · exact .stays .waiting _ nofun (.refl _) hset (h.serves hi)
  · have hrun := readCb_leaves (P := P) (l := { linkOf n con plan with
      conn := { n.conns con with input := (n.conns con).input ++ seg } })
      (((n.conns con).input ++ seg).length + 1) hset (h.serves hi)
    have hsame : Served P con (view (linkOf n con plan)) (view { linkOf n con plan with
      conn := { n.conns con with input := (n.conns con).input ++ seg } }) := .refl _
    exact Served.leaves hsame hrun

theorem started_trace {s u : Server} {es : List Event} (h : Trace (Step P) s es u)
    (hl : Linked s.reg) (hs : s.started = true) : u.started = true := by
  induction h with
  | nil => exact hs
  | snoc ht hstep ih => exact step_started (Trace.linked ht hl) hstep ih

theorem requestsOn_drop {d d' : List (UInt16 × Bytes)} {k : List Occurrence}
    (h : requestsOn con d' = requestsOn con d ++ k) : k = requestsOn con (d'.drop d.length) := by
  have hdrop : requestsOn con (d'.drop d.length) = (requestsOn con d').drop d.length :=
    List.map_drop
  have hlen : (requestsOn con d).length = d.length := List.length_map _
  rw [hdrop, h, List.drop_left' hlen]

/-- Requests that a callback has added to those of its connection. -/
theorem Served.log {s u : Server} {d d' : List (UInt16 × Bytes)}
    (h : Served P con (s, d) (u, d')) : ∃ es, Trace (Step P) s es u ∧
      es.filterMap occurrence = requestsOn con (d'.drop d.length) := by
  obtain ⟨es, ht, hseen⟩ := h
  exact ⟨es, ht, requestsOn_drop hseen⟩

/-- What a callback makes of a connection that stays. -/
def kept (n : Net) (con : ClientId) (seg : Bytes) (l : Link Serving) : Net :=
  { n with
    log := n.log ++ requestsOn con (l.dispatched.drop (n.dispatched con).length)
    server := l.server.server
    conns := Function.update n.conns con l.conn
    received := Function.update n.received con (n.received con ++ seg)
    dispatched := Function.update n.dispatched con l.dispatched }

/-- What it makes of one that it drops. -/
def gone (P : Platform) (n : Net) (con : ClientId) (seg : Bytes) (l : Link Serving) : Net :=
  { n.fresh con with
    log := n.log ++ requestsOn con (l.dispatched.drop (n.dispatched con).length)
    server := hangUp P l.server.server con l.conn
    dropped := (n.received con ++ seg, l.dispatched) :: n.dropped }

theorem readable_cases (h : Sound n) (hi : CanTake n (.bytes con seg plan)) :
    (∃ st l, arrive (serve P con) (.waiting, linkOf n con plan) seg = (st, l) ∧ st ≠ .dropped ∧
      Served P con (n.server, n.dispatched con) (l.server.server, l.dispatched) ∧
      Settled l.conn ∧ Serves con l.server.server ∧
      readable P n con seg plan = kept n con seg l) ∨
    ∃ l, arrive (serve P con) (.waiting, linkOf n con plan) seg = (.dropped, l) ∧
      Served P con (n.server, n.dispatched con)
        (hangUp P l.server.server con l.conn, l.dispatched) ∧
      readable P n con seg plan = gone P n con seg l := by
  have hread : readable P n con seg plan =
      if (arrive (serve P con) (.waiting, linkOf n con plan) seg).1 = .dropped then
        gone P n con seg (arrive (serve P con) (.waiting, linkOf n con plan) seg).2
      else kept n con seg (arrive (serve P con) (.waiting, linkOf n con plan) seg).2 := rfl
  have hleaves := arrive_leaves (P := P) h hi
  rw [hread]
  generalize arrive (serve P con) (.waiting, linkOf n con plan) seg = r at hleaves
  cases hleaves with
  | stays st l hne hserved hset hserves =>
    exact .inl ⟨st, l, rfl, hne, hserved, hset, hserves, if_neg hne⟩
  | gone l hserved => exact .inr ⟨l, rfl, hserved, if_pos rfl⟩

theorem occurrence_fromWire {e : Event} (h : fromWire e = false) :
    occurrence e = (accepted e).map .accepted := by
  cases e with
  | callback c o =>
    cases c with
    | accept a => cases a <;> rfl
    | request con cid payload => cases h
    | _ => rfl
  | _ => rfl

theorem take_server (n : Net) {e : Event} (h : fromWire e = false) :
    (take P n (.server e)).server = next P n.server e ∧
      (take P n (.server e)).log = n.log ++ (occurrence e).toList := by
  rw [occurrence_fromWire h]
  unfold take
  dsimp only
  cases accepted e with
  | none => exact ⟨rfl, (List.append_nil _).symm⟩
  | some con => exact ⟨rfl, rfl⟩

/-- What the net takes is a run of the server, with the same requests. -/
theorem take_simulated (h : Sound n) (hi : CanTake n i) :
    Simulated (Step P) Net.server Net.log occurrence n (take P n i) := by
  cases i with
  | server e =>
    obtain ⟨hserver, hlog⟩ := take_server (P := P) n hi.2
    refine ⟨[e], .single ⟨hi.1, hserver⟩, ?_⟩
    rw [hlog, List.filterMap_cons]
    cases occurrence e <;> rfl
  | bytes con seg plan =>
    change Simulated _ _ _ _ n (readable P n con seg plan)
    rcases readable_cases (P := P) h hi with ⟨st, l, -, -, hserved, -, -, hr⟩ | ⟨l, -, hserved, hr⟩
    · obtain ⟨es, ht, hes⟩ := Served.log hserved
      rw [hr]
      exact ⟨es, ht, by rw [hes]; rfl⟩
    · obtain ⟨es, ht, hes⟩ := Served.log hserved
      rw [hr]
      exact ⟨es, ht, by rw [hes]; rfl⟩

theorem take_sound (h : Sound n) (hi : CanTake n i) : Sound (take P n i) := by
  obtain ⟨es, ht, -⟩ := take_simulated (P := P) h hi
  refine ⟨Trace.linked ht h.linked, ?_, ?_⟩
  · cases i with
    | server e =>
      intro con' hcon
      obtain ⟨hserver, -⟩ := take_server (P := P) n hi.2
      rw [hserver] at hcon ⊢
      cases e with
      | callback c o =>
        have hstep : Step P n.server (.callback c o) (next P n.server (.callback c o)) :=
          ⟨hi.1, rfl⟩
        exact (UbervisorOutputs.step_outputs h.linked hstep).started c o rfl
      | childExit pid ret pos => exact h.started con' hcon
      | clock t => exact h.started con' hcon
    | bytes con seg plan =>
      intro _ _
      exact started_trace ht h.linked (h.started con hi.2.2)
  · cases i with
    | server e =>
      unfold take
      dsimp only
      cases accepted e with
      | none => exact h.settled
      | some con => exact fun con' => settled_update h.settled (.inl ⟨rfl, rfl⟩) con'
    | bytes con seg plan =>
      change ∀ con', Settled ((readable P n con seg plan).conns con')
      rcases readable_cases (P := P) h hi with ⟨st, l, -, -, -, hset, -, hr⟩ | ⟨l, -, -, hr⟩
      · rw [hr]
        exact settled_update h.settled hset
      · rw [hr]
        exact settled_update h.settled (.inl ⟨rfl, rfl⟩)

theorem start_sound (autoDump allowExit : Bool) (t : ℤ) :
    Sound (.start (initial autoDump allowExit t)) where
  linked := UbervisorSupervision.Registry.linked_init
  started con h := by simp [Net.start, Connected, initial] at h
  settled _ := .inl ⟨rfl, rfl⟩

/-- The server that decodes the bytes of its connections runs as the one that takes whole
requests, and handles the requests that were handed over, in their order. -/
theorem net_refines {autoDump allowExit : Bool} {t : ℤ}
    (h : Execution (Take P) Always (.start (initial autoDump allowExit t)) n) :
    ∃ es, Trace (Step P) (initial autoDump allowExit t) es n.server ∧
      n.log = es.filterMap occurrence := by
  obtain ⟨es, ht, hes⟩ := Execution.simulated h
    (fun _ _ _ hs ⟨hcan, he⟩ _ => he ▸ take_sound hs hcan)
    (fun _ _ _ hs ⟨hcan, he⟩ _ => he ▸ take_simulated hs hcan) (start_sound autoDump allowExit t)
  exact ⟨es, ht, hes.trans (List.nil_append _)⟩

/-- Two clients, and a LIST of the first one that arrives in pieces. -/
def listing : List Input :=
  [.server connecting, .bytes 0 [0, 4, 0] [], .bytes 0 ([9] ++ text "LI") [],
    .server (.callback (.accept (.connected 1)) ⟨[], [], fun _ => none⟩), .bytes 1 [0, 2, 0, 0] [],
    .bytes 0 (text "ST") []]

def lonePlatform : Platform := sample []

def listingNet : Net := stateAfter (take lonePlatform) (.start (initial false false 0)) listing

theorem listing_admitted :
    Admits CanTake (take lonePlatform) Always (.start (initial false false 0)) listing := by
  decide +kernel

theorem listing_refines : ∃ es, Trace (Step lonePlatform) (initial false false 0) es
    listingNet.server ∧ listingNet.log = es.filterMap occurrence :=
  net_refines listing_admitted.execution

end Runs

section Decoding

variable {σ : Type*} {handler : Handler σ} {l l' : Link σ} {rs : List Bool}

/-- The requests in the bytes of a connection whose handlers all keep it. -/
def requestsOf (b : Bytes) : List (UInt16 × Bytes) := (feed keepAll () [b]).2.dispatched

/-- A connection without the server behind it. -/
def bare (l : Link σ) (rs : List Bool) : Link Unit := ⟨l.conn, (), l.dispatched, rs⟩

/-- As long as the handlers keep the connection it is decoded as if all did. -/
theorem handOver_bare (handler : Handler σ) (l : Link σ) (rs : List Bool) (c : Conn) :
    match handOver handler l c with
    | .wait _ => False
    | .next l' => ∃ rs', handOver keepAll (bare l rs) c = .next (bare l' rs')
    | .stop l' => l'.dispatched <+: (handOver keepAll (bare l rs) c).state.dispatched := by
  unfold handOver runServerCommand
  dsimp only
  cases findCommand (c.input.take c.cLen) with
  | none => exact List.prefix_rfl
  | some cmd =>
    dsimp only
    cases (handler cmd l.server c.cCid ((c.input.take c.cLen).drop 4)).1 with
    | true => exact ⟨_, rfl⟩
    | false => exact List.prefix_rfl

theorem turn_bare (handler : Handler σ) (l : Link σ) (rs : List Bool) :
    match turn handler l with
    | .wait l' => turn keepAll (bare l rs) = .wait (bare l' rs)
    | .next l' => ∃ rs', turn keepAll (bare l rs) = .next (bare l' rs')
    | .stop l' => l'.dispatched <+: (turn keepAll (bare l rs)).state.dispatched := by
  unfold turn
  rw [show (bare l rs).conn = l.conn from rfl]
  cases readLen l.conn with
  | wait => rfl
  | drop => exact List.prefix_rfl
  | go c =>
    dsimp only
    unfold cidTurn
    cases readCid c with
    | wait => rfl
    | drop => exact List.prefix_rfl
    | go c =>
      dsimp only
      unfold readPayload
      by_cases hready : 0 < c.cLen ∧ c.cCid ≠ 0
      · rw [if_pos hready, if_pos hready]
        by_cases hshort : c.input.length < c.cLen
        · rw [if_pos hshort, if_pos hshort]
          rfl
        · rw [if_neg hshort, if_neg hshort]
          have h := handOver_bare handler l rs c
          generalize handOver handler l c = r at h
          cases r with
          | wait _ => exact h.elim
          | next _ => exact h
          | stop _ => exact h
      · rw [if_neg hready, if_neg hready]
        exact ⟨rs, rfl⟩

/-- What a callback makes of a connection, next to what it makes of one that is kept. -/
def Decodes (x : Status × Link σ) (y : Status × Link Unit) : Prop :=
  match x with
  | (.dropped, l) => l.dispatched <+: y.2.dispatched
  | (st, l) => ∃ rs, y = (st, bare l rs)

theorem readCb_dispatched (fuel : ℕ) (l : Link Unit) :
    l.dispatched <+: (readCb keepAll fuel l).2.dispatched := by
  induction fuel generalizing l with
  | zero => exact List.prefix_rfl
  | succ fuel ih =>
    rw [readCb_succ]
    have h : l.dispatched <+: (turn keepAll l).state.dispatched :=
      UbervisorClientCommands.turn_dispatched l
    generalize turn keepAll l = r at h
    cases r with
    | wait _ => exact h
    | stop _ => exact h
    | next l' => exact h.trans (ih l')

theorem readCb_decodes (fuel : ℕ) (l : Link σ) (rs : List Bool) :
    Decodes (readCb handler fuel l) (readCb keepAll fuel (bare l rs)) := by
  induction fuel generalizing l rs with
  | zero => exact ⟨rs, rfl⟩
  | succ fuel ih =>
    rw [readCb_succ, readCb_succ]
    have h := turn_bare handler l rs
    generalize turn handler l = r at h
    cases r with
    | wait l' =>
      rw [h]
      exact ⟨rs, rfl⟩
    | next l' =>
      obtain ⟨rs', h⟩ := h
      rw [h]
      exact ih l' rs'
    | stop l' =>
      generalize turn keepAll (bare l rs) = q at h
      cases q with
      | wait _ => exact h
      | stop _ => exact h
      | next m => exact h.trans (readCb_dispatched fuel m)

theorem arrive_decodes (handler : Handler σ) (l : Link σ) (rs : List Bool) (seg : Bytes) :
    Decodes (arrive handler (.waiting, l) seg) (arrive keepAll (.waiting, bare l rs) seg) := by
  unfold arrive
  dsimp only
  rw [show (bare l rs).conn = l.conn from rfl]
  split
  · exact ⟨rs, rfl⟩
  · exact readCb_decodes _ { l with conn := { l.conn with input := l.conn.input ++ seg } } rs

/-- Two decoders that have been given the same bytes show the same. -/
theorem follows_agree {s : σ} {b : Bytes} {x y : Status × Link σ} (hx : Follows handler s b x)
    (hy : Follows handler s b y) : y.1 = x.1 ∧ SameView x.2 y.2 := by
  by_cases hb : b.length < 4
  · rw [hx.few hb, hy.few hb]
    exact ⟨rfl, rfl, rfl, rfl⟩
  · obtain ⟨r, hr⟩ : ∃ r, UbervisorSuspension.Runs (turn handler) (arrivedAt s b) r :=
      link_runs (.inl ⟨rfl, rfl⟩)
    have hb' := Nat.not_lt.mp hb
    obtain ⟨hst, hview, -⟩ := shows_agree (follows_shows hx hb' hr) (follows_shows hy hb' hr)
    exact ⟨hst, hview⟩

theorem follows_requests {b : Bytes} {x : Status × Link Unit} (h : Follows keepAll () b x) :
    x.2.dispatched = requestsOf b := by
  have hfeed : Follows keepAll () b (feed keepAll () [b]) := by
    simpa using feed_follows [b]
  exact (follows_agree hfeed h).2.dispatched

end Decoding

section Streams

variable {P : Platform} {n : Net} {con : ClientId} {seg : Bytes} {plan : List Slice} {i : Input}

/-- Each decoder stands where the bytes of its connection have brought it. -/
structure Streams (n : Net) : Prop where
  follows : ∀ con, ∃ rs, Follows keepAll () (n.received con)
    (.waiting, ⟨n.conns con, (), n.dispatched con, rs⟩)
  dropped : ∀ x ∈ n.dropped, x.2 <+: requestsOf x.1

theorem fresh_follows : Follows keepAll () [] (.waiting, ⟨acceptedConn, (), [], []⟩) :=
  feed_follows []

theorem Streams.update (h : Streams n) {b : Bytes} {c : Conn} {d : List (UInt16 × Bytes)}
    {rs : List Bool} (hc : Follows keepAll () b (.waiting, ⟨c, (), d, rs⟩)) (con con' : ClientId) :
    ∃ rs, Follows keepAll () (Function.update n.received con b con')
      (.waiting, ⟨Function.update n.conns con c con', (),
        Function.update n.dispatched con d con', rs⟩) := by
  by_cases he : con' = con
  · subst he
    rw [Function.update_self, Function.update_self, Function.update_self]
    exact ⟨rs, hc⟩
  · rw [Function.update_of_ne he, Function.update_of_ne he, Function.update_of_ne he]
    exact h.follows con'

theorem take_streams (hn : Sound n) (h : Streams n) (hi : CanTake n i) :
    Streams (take P n i) := by
  cases i with
  | server e =>
    unfold take
    dsimp only
    cases accepted e with
    | none => exact ⟨h.follows, h.dropped⟩
    | some con => exact ⟨fun con' => h.update fresh_follows con con', h.dropped⟩
  | bytes con seg plan =>
    change Streams (readable P n con seg plan)
    obtain ⟨rs, hf⟩ := h.follows con
    have harr := arrive_follows hf seg
    have hdec := arrive_decodes (serve P con) (linkOf n con plan) rs seg
    rcases readable_cases (P := P) hn hi with ⟨st, l, ha, hne, -, -, -, hr⟩ | ⟨l, ha, -, hr⟩
    · rw [hr]
      rw [ha] at hdec
      cases st with
      | dropped => exact absurd rfl hne
      | spinning =>
        obtain ⟨rs', hst⟩ := hdec
        rw [show bare (linkOf n con plan) rs = ⟨n.conns con, (), n.dispatched con, rs⟩ from rfl]
          at hst
        rw [hst] at harr
        exact harr.elim
      | waiting =>
        obtain ⟨rs', hst⟩ := hdec
        rw [show bare (linkOf n con plan) rs = ⟨n.conns con, (), n.dispatched con, rs⟩ from rfl]
          at hst
        rw [hst] at harr
        exact ⟨fun con' => h.update harr con con', h.dropped⟩
    · rw [hr]
      rw [ha] at hdec
      refine ⟨fun con' => h.update fresh_follows con con', fun x hx => ?_⟩
      rcases List.mem_cons.mp hx with rfl | hx
      · rw [← follows_requests harr]
        exact hdec
      · exact h.dropped x hx

theorem start_streams (s : Server) : Streams (.start s) :=
  ⟨fun _ => ⟨[], fresh_follows⟩, nofun⟩

/-- What is handed over on a connection are the requests in its own bytes, whatever arrives on
the others and in which pieces. Of a connection that `read_cb` has dropped it is the first of
them. -/
theorem net_decodes {autoDump allowExit : Bool} {t : ℤ}
    (h : Execution (Take P) Always (.start (initial autoDump allowExit t)) n) :
    (∀ con, n.dispatched con = requestsOf (n.received con)) ∧
      ∀ x ∈ n.dropped, x.2 <+: requestsOf x.1 := by
  obtain ⟨-, hs⟩ := h.invariant (P := fun n => Sound n ∧ Streams n)
    (fun _ _ _ ⟨hn, hs⟩ ⟨hcan, he⟩ _ => he ▸ ⟨take_sound hn hcan, take_streams hn hs hcan⟩)
    ⟨start_sound autoDump allowExit t, start_streams _⟩
  refine ⟨fun con => ?_, hs.dropped⟩
  obtain ⟨rs, hf⟩ := hs.follows con
  exact follows_requests hf

theorem listing_decodes :
    (∀ con, listingNet.dispatched con = requestsOf (listingNet.received con)) ∧
      ∀ x ∈ listingNet.dropped, x.2 <+: requestsOf x.1 :=
  net_decodes listing_admitted.execution

example : listingNet.log = [.accepted 0, .accepted 1, .request 0 9 (text "LIST")] ∧
    listingNet.dropped = [([0, 2, 0, 0], [])] := by decide +kernel

end Streams

end UbervisorConnections
