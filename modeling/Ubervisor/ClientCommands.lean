import Ubervisor.Segmentation
import Ubervisor.Sockets

/-! # Commands of the client

`sock_send_command` and what `read_cb` makes of the bytes it writes. The length of a command
goes through a `uint16_t`. -/
namespace UbervisorClientCommands

open UbervisorValues
open UbervisorChunks
open UbervisorReadCallback
open UbervisorDecoding
open UbervisorSockets
open UbervisorSuspension
open UbervisorSegmentation

/-- `htons` and `ntohs`. -/
def htons (bigEndian : Bool) (n : UInt16) : UInt16 :=
  if bigEndian then n else UInt16.ofNat (n.toNat % 256 * 256 + n.toNat / 256)

/-- A `uint16_t` in memory. -/
def memory (bigEndian : Bool) (n : UInt16) : Bytes :=
  if bigEndian then be16 n else (be16 n).reverse

def sockWrite (msg : CStr) (sock : Sink UInt8) : ℤ × Sink UInt8 :=
  let (r, sock) := sock.write msg.bytes
  if r ≠ msg.bytes.length then (-1, sock) else (1, sock)

def sockWriteLen (bigEndian : Bool) (len : UInt16) (sock : Sink UInt8) : ℤ × Sink UInt8 :=
  let len := htons bigEndian len
  let (r, sock) := sock.write (memory bigEndian len)
  if r ≠ 2 then (-1, sock) else (1, sock)

/-- The cid of every command of the client. -/
def clientCid (bigEndian : Bool) : UInt16 := htons bigEndian 1

/-- The `uint16_t` that the length of a command is added up in. -/
def commandLen (cmd : CStr) (pl : Option CStr) : UInt16 :=
  let len := UInt16.ofNat cmd.bytes.length
  match pl with
  | some pl => UInt16.ofNat (len.toNat + pl.bytes.length)
  | none => len

def sockSendCommand (bigEndian : Bool) (cmd : CStr) (pl : Option CStr) (sock : Sink UInt8) :
    ℤ × Sink UInt8 :=
  let cid := clientCid bigEndian
  let (r, sock) := sockWriteLen bigEndian (commandLen cmd pl) sock
  if r = -1 then (-1, sock)
  else
    let (r, sock) := sockWriteLen bigEndian cid sock
    if r = -1 then (-1, sock)
    else
      let (r, sock) := sockWrite cmd sock
      if r = -1 then (-1, sock)
      else
        match pl with
        | none => (0, sock)
        | some pl =>
          let (r, sock) := sockWrite pl sock
          if r = -1 then (-1, sock) else (0, sock)

/-- A command with its payload. -/
def requestOf (cmd : CStr) (pl : Option CStr) : Bytes :=
  cmd.bytes ++ (pl.map CStr.bytes).getD []

section Writing

variable {bigEndian : Bool} {msg cmd : CStr} {pl : Option CStr} {n : UInt16}
  {sock sock' : Sink UInt8} {r : ℤ}

theorem memory_htons : memory bigEndian (htons bigEndian n) = be16 n := by
  cases bigEndian with
  | true => rfl
  | false =>
    have hn := n.toNat_lt
    have hswap : (htons false n).toNat = n.toNat % 256 * 256 + n.toNat / 256 := by
      rw [htons, if_neg Bool.false_ne_true, UInt16.toNat_ofNat']
      omega
    have hhi : (n.toNat % 256 * 256 + n.toNat / 256) / 256 = n.toNat % 256 := by omega
    have hlo : (n.toNat % 256 * 256 + n.toNat / 256) % 256 = n.toNat / 256 := by omega
    rw [memory, if_neg Bool.false_ne_true, be16, hswap, hhi, hlo]
    rfl

theorem clientCid_ne_zero : clientCid bigEndian ≠ 0 := by
  cases bigEndian <;> decide

theorem sockWrite_wrote (h : sockWrite msg sock = (r, sock')) (hr : r ≠ -1) :
    sock'.written = sock.written ++ msg.bytes := by
  unfold sockWrite at h
  dsimp only at h
  split at h
  · cases h
    exact absurd rfl hr
  · rename_i hall
    cases h
    exact write_all (not_not.mp hall)

theorem sockWriteLen_wrote (h : sockWriteLen bigEndian n sock = (r, sock')) (hr : r ≠ -1) :
    sock'.written = sock.written ++ be16 n := by
  unfold sockWriteLen at h
  dsimp only at h
  rw [memory_htons] at h
  split at h
  · cases h
    exact absurd rfl hr
  · rename_i hall
    cases h
    exact write_all (not_not.mp hall)

theorem commandLen_eq : commandLen cmd pl = UInt16.ofNat (requestOf cmd pl).length := by
  cases pl with
  | none =>
    have hreq : requestOf cmd none = cmd.bytes := List.append_nil _
    rw [hreq]
    rfl
  | some pl =>
    have hreq : requestOf cmd (some pl) = cmd.bytes ++ pl.bytes := rfl
    apply UInt16.toNat_inj.mp
    rw [hreq, List.length_append, commandLen]
    simp only [UInt16.toNat_ofNat']
    omega

/-- What a call that returns 0 has written: a frame whose length is cut to 16 bits. -/
theorem sockSendCommand_wrote (h : sockSendCommand bigEndian cmd pl sock = (0, sock')) :
    sock'.written = sock.written ++
      frame (UInt16.ofNat (requestOf cmd pl).length) (clientCid bigEndian) (requestOf cmd pl) := by
  unfold sockSendCommand at h
  rw [commandLen_eq] at h
  dsimp only at h
  generalize h₁ : sockWriteLen bigEndian _ sock = w₁ at h
  obtain ⟨r₁, sock₁⟩ := w₁
  dsimp only at h
  split at h
  · cases h
  rename_i hr₁
  generalize h₂ : sockWriteLen bigEndian _ sock₁ = w₂ at h
  obtain ⟨r₂, sock₂⟩ := w₂
  dsimp only at h
  split at h
  · cases h
  rename_i hr₂
  generalize h₃ : sockWrite cmd sock₂ = w₃ at h
  obtain ⟨r₃, sock₃⟩ := w₃
  dsimp only at h
  split at h
  · cases h
  rename_i hr₃
  have hhead : sock₃.written = sock.written ++
      frame (UInt16.ofNat (requestOf cmd pl).length) (clientCid bigEndian) cmd.bytes := by
    rw [sockWrite_wrote h₃ hr₃, sockWriteLen_wrote h₂ hr₂, sockWriteLen_wrote h₁ hr₁, frame]
    simp only [List.append_assoc]
  cases pl with
  | none =>
    cases h
    rw [hhead, requestOf, Option.map_none, Option.getD_none, List.append_nil]
  | some pl =>
    dsimp only at h
    generalize h₄ : sockWrite pl sock₃ = w₄ at h
    obtain ⟨r₄, sock₄⟩ := w₄
    dsimp only at h
    split at h
    · cases h
    rename_i hr₄
    cases h
    rw [sockWrite_wrote h₄ hr₄, hhead, requestOf, Option.map_some, Option.getD_some, frame, frame]
    simp only [List.append_assoc]

end Writing

section Delivery

variable {σ : Type*} {handler : Handler σ} {l l' : Link σ} {c : Conn} {len cid : UInt16} {p : Bytes}

/-- All requests that were begun have been handed over. -/
def Between (c : Conn) : Prop := AtStart c ∧ c.input = []

theorem runServerCommand_dispatched (handler : Handler σ) (l : Link σ) (buf : Bytes) :
    (runServerCommand handler l buf).2.dispatched = l.dispatched ++ [(l.conn.cCid, buf)] ∧
      (runServerCommand handler l buf).2.conn = l.conn := by
  unfold runServerCommand
  dsimp only
  split <;> exact ⟨rfl, rfl⟩

theorem handOver_dispatched : (handOver handler l c).state.dispatched =
    l.dispatched ++ [(c.cCid, c.input.take c.cLen)] := by
  have hrun := (runServerCommand_dispatched handler { l with conn :=
    { c with cLen := 0, input := c.input.drop c.cLen, low := 2 } } (c.input.take c.cLen)).1
  unfold handOver
  split
  · rename_i h
    rw [h] at hrun
    exact hrun
  · rename_i h
    rw [h] at hrun
    exact hrun

theorem handOver_between (h : handOver handler l c = .next l') (hc : c.input.length = c.cLen) :
    Between l'.conn := by
  have hrun := (runServerCommand_dispatched handler { l with conn :=
    { c with cLen := 0, input := c.input.drop c.cLen, low := 2 } } (c.input.take c.cLen)).2
  unfold handOver at h
  split at h
  · cases h
  · rename_i hr
    rw [hr] at hrun
    cases h
    dsimp only at hrun ⊢
    rw [hrun, ← hc, List.drop_length]
    exact ⟨⟨rfl, rfl⟩, rfl⟩

/-- What has been handed over stays so. -/
theorem turn_dispatched (l : Link σ) : l.dispatched <+: (turn handler l).state.dispatched := by
  have hpay : ∀ d, l.dispatched <+: (readPayload handler l d).state.dispatched := by
    intro d
    unfold readPayload
    split
    · split
      · exact List.prefix_rfl
      · rw [handOver_dispatched]
        exact List.prefix_append _ _
    · exact List.prefix_rfl
  unfold turn
  split
  · exact List.prefix_rfl
  · exact List.prefix_rfl
  · unfold cidTurn
    split
    · exact List.prefix_rfl
    · exact List.prefix_rfl
    · exact hpay _

/-- The length phase of the turn that meets a request. -/
theorem readLen_request (hl : Between l.conn) : readLen (more l (frame len cid p)).conn =
    if chunkSiz < len.toNat then .drop
    else if len.toNat < 4 then .drop
    else .go ⟨len.toNat, 0, be16 cid ++ p, 2⟩ := by
  obtain ⟨hstart, hin⟩ := hl
  have hzero : (more l (frame len cid p)).conn.cLen = 0 ∧
      (more l (frame len cid p)).conn.cCid = 0 := hstart
  have hinput : (more l (frame len cid p)).conn.input = be16 len ++ (be16 cid ++ p) := by
    rw [more, addInput, hin, List.nil_append, frame, List.append_assoc]
  rw [readLen, if_pos hzero, hinput, hzero.2]
  dsimp only [be16, List.cons_append, List.nil_append]
  rw [readBe16_be16]

/-- A length that `read_cb` does not take. -/
theorem request_refused (hl : Between l.conn) (hbad : chunkSiz < len.toNat ∨ len.toNat < 4) :
    Refused (more l (frame len cid p)).conn := by
  rw [Refused, readLen_request hl]
  by_cases hbig : chunkSiz < len.toNat
  · exact if_pos hbig
  · rw [if_neg hbig]
    exact if_pos (hbad.resolve_left hbig)

/-- A length that it takes: as many bytes are handed over, if they are there. -/
theorem turn_request (hl : Between l.conn) (hcid : cid ≠ 0) (hfour : 4 ≤ len.toNat)
    (hle : len.toNat ≤ chunkSiz) (hp : len.toNat ≤ p.length) :
    turn handler (more l (frame len cid p)) =
      handOver handler (more l (frame len cid p)) ⟨len.toNat, cid, p, len.toNat⟩ := by
  have hread : readCid ⟨len.toNat, 0, be16 cid ++ p, 2⟩ = .go ⟨len.toNat, cid, p, len.toNat⟩ := by
    have hlen : 0 < len.toNat ∧ (0 : UInt16) = 0 := ⟨by omega, rfl⟩
    rw [readCid, if_pos hlen]
    dsimp only [be16, List.cons_append, List.nil_append]
    rw [readBe16_be16]
  have hpay : 0 < len.toNat ∧ cid ≠ 0 := ⟨by omega, hcid⟩
  rw [turn, readLen_request hl, if_neg (by omega), if_neg (by omega)]
  dsimp only
  rw [cidTurn, hread]
  dsimp only
  rw [readPayload, if_pos hpay, if_neg (Nat.not_lt.mpr hp)]

/-- A decoder between two requests waits for the next one. -/
theorem between_waits (handler : Handler σ) (hl : Between l.conn) : turn handler l = .wait l := by
  have hzero : l.conn.cLen = 0 ∧ l.conn.cCid = 0 := hl.1
  rw [turn, readLen, if_pos hzero, hl.2]

/-- What has been handed over when a request was met. -/
theorem request_handed {r : End (Link σ)} (hl : Between l.conn) (hcid : cid ≠ 0)
    (hfour : 4 ≤ len.toNat) (hle : len.toNat ≤ chunkSiz) (hp : len.toNat ≤ p.length)
    (hr : Runs (turn handler) (more l (frame len cid p)) r) :
    l.dispatched ++ [(cid, p.take len.toNat)] <+: r.state.dispatched ∧
      (p.length = len.toNat → r.state.dispatched = l.dispatched ++ [(cid, p)]) := by
  have hturn : turn handler (more l (frame len cid p)) =
      handOver handler (more l (frame len cid p)) ⟨len.toNat, cid, p, len.toNat⟩ :=
    turn_request hl hcid hfour hle hp
  have hover : (turn handler (more l (frame len cid p))).state.dispatched =
      l.dispatched ++ [(cid, p.take len.toNat)] := by
    rw [hturn]
    exact handOver_dispatched
  have hall : p.length = len.toNat → p.take len.toNat = p := fun h => by
    rw [← h, List.take_length]
  have hend : ∀ u : Link σ, u.dispatched = l.dispatched ++ [(cid, p.take len.toNat)] →
      l.dispatched ++ [(cid, p.take len.toNat)] <+: u.dispatched ∧
        (p.length = len.toNat → u.dispatched = l.dispatched ++ [(cid, p)]) := by
    intro u hu
    rw [hu]
    exact ⟨List.prefix_rfl, fun h => by rw [hall h]⟩
  cases hr with
  | wait h =>
    rw [h] at hover
    exact hend _ hover
  | stop h =>
    rw [h] at hover
    exact hend _ hover
  | next h k =>
    rw [h] at hover
    have hgrown := k.related (R := fun a b => a.dispatched <+: b.dispatched) turn_dispatched
      fun _ _ _ => List.IsPrefix.trans
    refine ⟨hover ▸ hgrown, fun hp' => ?_⟩
    -- nothing is left, so that the next turn waits
    have hwait := between_waits handler (handOver_between (hturn.symm.trans h) hp')
    obtain rfl := k.deterministic (.wait hwait)
    exact (hend _ hover).2 hp'

/-- A request that is sent is handed over as it is when the server takes its length, and
otherwise the server hangs up. -/
def Delivered (handler : Handler σ) (s : σ) (pre segs : List Bytes) (cid : UInt16)
    (req : Bytes) : Prop :=
  if req.length ≤ chunkSiz then
    (feed handler s (pre ++ segs)).2.dispatched =
      (feed handler s pre).2.dispatched ++ [(cid, req)]
  else
    DroppedForLength (feed handler s (pre ++ segs)) ∧
      (feed handler s (pre ++ segs)).2.dispatched = (feed handler s pre).2.dispatched

variable {s : σ} {pre segs : List Bytes} {req : Bytes}

/-- What comes of the bytes of a request after others. -/
theorem request_shows {r : End (Link σ)} (hpre : feed handler s pre = (.waiting, l))
    (hsegs : segs.flatten = frame len cid req)
    (hr : Runs (turn handler) (more l (frame len cid req)) r) :
    Shows r (feed handler s (pre ++ segs)) := by
  have hlen : 4 ≤ segs.flatten.length := by
    rw [hsegs, frame, List.length_append, List.length_append, length_be16, length_be16]
    omega
  refine resumed_shows hpre hlen ?_
  rw [hsegs]
  exact hr

/-- The server hands a request over that has as many bytes as its length field says, or more. -/
theorem request_taken (hpre : feed handler s pre = (.waiting, l)) (hl : Between l.conn)
    (hcid : cid ≠ 0) (hfour : 4 ≤ len.toNat) (hle : len.toNat ≤ chunkSiz)
    (hp : len.toNat ≤ req.length) (hsegs : segs.flatten = frame len cid req) :
    l.dispatched ++ [(cid, req.take len.toNat)] <+: (feed handler s (pre ++ segs)).2.dispatched ∧
      (req.length = len.toNat →
        (feed handler s (pre ++ segs)).2.dispatched = l.dispatched ++ [(cid, req)]) := by
  obtain ⟨r, hr⟩ : ∃ r, Runs (turn handler) (more l (frame len cid req)) r := link_runs (.inl hl.1)
  rw [(request_shows hpre hsegs hr).view.dispatched]
  exact request_handed hl hcid hfour hle hp hr

theorem request_dropped (hpre : feed handler s pre = (.waiting, l)) (hl : Between l.conn)
    (hbad : chunkSiz < len.toNat ∨ len.toNat < 4) (hsegs : segs.flatten = frame len cid req) :
    DroppedForLength (feed handler s (pre ++ segs)) ∧
      (feed handler s (pre ++ segs)).2.dispatched = l.dispatched := by
  have href : Refused (more l (frame len cid req)).conn := request_refused hl hbad
  have hturn : turn handler (more l (frame len cid req)) = .stop (more l (frame len cid req)) := by
    rw [turn, href]
  have hshows := request_shows hpre hsegs (.stop hturn)
  exact ⟨⟨hshows.1, hshows.2.2.mpr href⟩, hshows.2.1.dispatched⟩

/-- A length that wraps around to one that the server takes. -/
theorem wrapped_not_delivered (hpre : feed handler s pre = (.waiting, l)) (hl : Between l.conn)
    (hcid : cid ≠ 0) (hlong : 65536 ≤ req.length) (hfour : 4 ≤ req.length % 65536)
    (hle : req.length % 65536 ≤ chunkSiz)
    (hsegs : segs.flatten = frame (UInt16.ofNat req.length) cid req) :
    ¬ Delivered handler s pre segs cid req := by
  have hlen : (UInt16.ofNat req.length).toNat = req.length % 65536 := UInt16.toNat_ofNat'
  have htaken := (request_taken hpre hl hcid (by omega) (by omega) (by omega) hsegs).1
  have hbig : ¬ req.length ≤ chunkSiz := by
    unfold chunkSiz
    omega
  intro h
  rw [Delivered, if_neg hbig, hpre] at h
  have hsame : (feed handler s (pre ++ segs)).2.dispatched = l.dispatched := h.2
  have hless := htaken.length_le
  rw [hsame, List.length_append, List.length_singleton] at hless
  omega

/-- The server gets what the client sends exactly if the length of the request does not wrap
around to one that the server takes. -/
theorem sent_delivered_iff (handler : Handler σ) (s : σ) {bigEndian : Bool} {cmd : CStr}
    {pl : Option CStr} {results : List (Option ℕ)} {sock : Sink UInt8}
    (hcmd : cmd.bytes.length = 4)
    (hret : sockSendCommand bigEndian cmd pl ⟨[], results⟩ = (0, sock))
    {pre segs : List Bytes} {l : Link σ} (hpre : feed handler s pre = (.waiting, l))
    (hl : Between l.conn) (hsegs : segs.flatten = sock.written) :
    Delivered handler s pre segs (clientCid bigEndian) (requestOf cmd pl) ↔
      ((requestOf cmd pl).length < 65536 ∨ (requestOf cmd pl).length % 65536 < 4 ∨
        chunkSiz < (requestOf cmd pl).length % 65536) := by
  have hwrote := sockSendCommand_wrote hret
  rw [List.nil_append, ← hsegs] at hwrote
  have hcid : clientCid bigEndian ≠ 0 := clientCid_ne_zero
  have hfour : 4 ≤ (requestOf cmd pl).length := by
    rw [requestOf, List.length_append]
    omega
  generalize requestOf cmd pl = req at hwrote hfour ⊢
  have hlen : (UInt16.ofNat req.length).toNat = req.length % 65536 := UInt16.toNat_ofNat'
  constructor
  · intro h
    by_contra hwrap
    rw [not_or, not_or] at hwrap
    exact wrapped_not_delivered hpre hl hcid (by omega) (by omega) (by omega) hwrote h
  · intro h
    rw [Delivered]
    by_cases hle : req.length ≤ chunkSiz
    · have hmod : req.length % 65536 = req.length := Nat.mod_eq_of_lt (by
        unfold chunkSiz at hle
        omega)
      rw [if_pos hle, hpre]
      exact (request_taken hpre hl hcid (by omega) (by omega) (by omega) hwrote).2 (by omega)
    · have hbad : chunkSiz < (UInt16.ofNat req.length).toNat ∨
          (UInt16.ofNat req.length).toNat < 4 := by
        rcases h with hsmall | hfew | hmany
        · rw [hlen, Nat.mod_eq_of_lt hsmall]
          exact .inl (Nat.not_le.mp hle)
        · exact .inr (hlen ▸ hfew)
        · exact .inl (hlen ▸ hmany)
      rw [if_neg hle, hpre]
      exact request_dropped hpre hl hbad hwrote

theorem list_delivered_iff :
    Delivered keepAll () [] [frame 4 256 (text "LIST")] (clientCid false)
        (requestOf (CStr.ofBytes (text "LIST")) none) ↔
      ((requestOf (CStr.ofBytes (text "LIST")) none).length < 65536 ∨
        (requestOf (CStr.ofBytes (text "LIST")) none).length % 65536 < 4 ∨
        chunkSiz < (requestOf (CStr.ofBytes (text "LIST")) none).length % 65536) := by
  have hret : sockSendCommand false (CStr.ofBytes (text "LIST")) none ⟨[], []⟩ =
      (0, ⟨frame 4 256 (text "LIST"), []⟩) := by decide
  exact sent_delivered_iff keepAll () (by decide) hret rfl ⟨⟨rfl, rfl⟩, rfl⟩ (List.append_nil _)

/-- A payload of so many letters. -/
def letters (n : ℕ) : CStr := ⟨List.replicate n 120, by simp⟩

/-- No write falls short. -/
theorem sockSendCommand_full (bigEndian : Bool) (cmd pl : CStr) :
    (sockSendCommand bigEndian cmd (some pl) ⟨[], []⟩).1 = 0 := by
  have hwrite : ∀ b x : Bytes, Sink.write x ⟨b, []⟩ = ((x.length : ℤ), ⟨b ++ x, []⟩) := by
    intro b x
    simp [Sink.write]
  have hmemory : ∀ n, (memory bigEndian n).length = 2 := by
    cases bigEndian <;> exact fun _ => rfl
  simp [sockSendCommand, sockWriteLen, sockWrite, hwrite, hmemory]

/-- A LIST with 65536 letters behind it is taken for a LIST without. -/
theorem longList_truncated : ¬ ∀ (bigEndian : Bool) (cmd : CStr) (pl : Option CStr)
    (results : List (Option ℕ)) (sock : Sink UInt8) (segs : List Bytes) (handler : Handler Unit),
    cmd.bytes.length = 4 → sockSendCommand bigEndian cmd pl ⟨[], results⟩ = (0, sock) →
      segs.flatten = sock.written →
        Delivered handler () [] segs (clientCid bigEndian) (requestOf cmd pl) := by
  intro h
  obtain ⟨pl, hpl⟩ : ∃ pl : CStr, pl.bytes.length = 65536 := ⟨letters 65536, List.length_replicate⟩
  have hret := sockSendCommand_full false (CStr.ofBytes (text "LIST")) pl
  generalize hsock : sockSendCommand false _ _ _ = x at hret
  obtain ⟨r, sock⟩ := x
  obtain rfl : r = 0 := hret
  have hlen : (requestOf (CStr.ofBytes (text "LIST")) (some pl)).length = 65540 := by
    rw [requestOf, List.length_append, Option.map_some, Option.getD_some, hpl]
    rfl
  have hsegs : [sock.written].flatten = sock.written := List.append_nil _
  have hall := h false _ _ [] sock [sock.written] keepAll (by decide) hsock hsegs
  have hle : 65540 % 65536 ≤ chunkSiz := by decide
  exact wrapped_not_delivered (l := ⟨acceptedConn, (), [], []⟩) rfl ⟨⟨rfl, rfl⟩, rfl⟩
    clientCid_ne_zero (by omega) (by omega) (by omega)
    (hsegs.trans (sockSendCommand_wrote hsock)) hall

end Delivery

end UbervisorClientCommands
