import Ubervisor.ReplyReading

/-! # The Python client

`UbervisorClient` on one connection: command ids, `wait`, and the calls that wait for their
reply. The JSON reader is a parameter, and what it is given comes from the server's writer. -/
namespace UbervisorPythonClient

open UbervisorValues
open UbervisorChunks
open UbervisorSockets
open UbervisorReplyReading

/-- The exceptions, and a loop that would not end. -/
inductive Failure where
  | replyError
  | jsonError (x : Bytes)
  | cidMismatch
  | packError
  | endless
  deriving DecidableEq

/-- `cid` and `_inuse_cids`, and what was sent. -/
structure Client where
  cid : ℕ
  inuseCids : List ℕ
  sent : Bytes
  deriving DecidableEq

/-- `_increment_cid`. After 65535 turns every cid has been tried. -/
def incrementCid (inuseCids : List ℕ) : ℕ → ℕ → Option ℕ
  | 0, _ => none
  | fuel + 1, cid =>
    let cid := if cid + 1 > 65535 then 1 else cid + 1
    if cid ∈ inuseCids then incrementCid inuseCids fuel cid else some cid

/-- `_send`. -/
def send (d p : Bytes) (c : Client) : Except Failure ℕ × Client :=
  match incrementCid c.inuseCids 65535 c.cid with
  | none => (.error .endless, c)
  | some cid =>
    let c := { c with cid := cid }
    if d.length + p.length > 65535 then (.error .packError, c)
    else
      let f := frame (UInt16.ofNat (d.length + p.length)) (UInt16.ofNat cid) (d ++ p)
      (.ok cid, { c with sent := c.sent ++ f })

/-- The loop of `wait`. A turn takes at least four bytes, so that the fuel suffices. -/
def waitChunks : ℕ → Socket UInt8 → Bytes → Except Failure (ℕ × Bytes) × Socket UInt8
  | 0, s, _ => (.error .replyError, s)
  | fuel + 1, s, x =>
    match s.read 4 with
    | ([l₁, l₀, c₁, c₀], s) =>
      let l := (readBe16 l₁ l₀).toNat
      let r := l &&& chunkSiz
      -- `_recv_chunk`
      let (p, s) := s.collect r r
      if l &&& chunkExt = 0 then (.ok ((readBe16 c₁ c₀).toNat, x ++ p), s)
      else waitChunks fuel s (x ++ p)
    | (_, s) => (.error .replyError, s)

variable {J : Type*}

/-- `wait`: a `ValueError` of `loads` becomes an error of its own. -/
def wait (loads : Bytes → Option J) (s : Socket UInt8) : Except Failure (ℕ × J) × Socket UInt8 :=
  match waitChunks (s.pending.length + 1) s [] with
  | (.error e, s) => (.error e, s)
  | (.ok (cid, x), s) =>
    match loads x with
    | some v => (.ok (cid, v), s)
    | none => (.error (.jsonError x), s)

/-- `_reply`. -/
def reply (loads : Bytes → Option J) (expCid : ℕ) (s : Socket UInt8) :
    Except Failure J × Socket UInt8 :=
  match wait loads s with
  | (.error e, s) => (.error e, s)
  | (.ok (cid, d), s) => if cid ≠ expCid then (.error .cidMismatch, s) else (.ok d, s)

/-- Calls of `wait`, one after the other. -/
def waits (loads : Bytes → Option J) : ℕ → Socket UInt8 → List (Except Failure (ℕ × J))
  | 0, _ => []
  | n + 1, s => (wait loads s).1 :: waits loads n (wait loads s).2

section Exchanges

/-- A notification of a length that the assertion of `send_notification` lets through. -/
structure Note (print : J → Bytes) where
  cid : UInt16
  value : J
  fits : (print value).length ≤ chunkSiz

/-- A call that waits for its reply: what is sent, the notifications that the server writes
since the last reply, and the reply. `subs` reserves its cid. -/
structure Exchange (print : J → Bytes) where
  cmd : Bytes
  payload : Bytes
  subs : Bool
  notes : List (Note print)
  reply : J

variable {print : J → Bytes}

def Note.bytes (n : Note print) : Bytes := notificationFrame n.cid (print n.value)

/-- What the server writes up to the reply to the request with the cid `x`. -/
def Exchange.wire (e : Exchange print) (x : ℕ) : Bytes :=
  e.notes.flatMap Note.bytes ++ messageBytes (UInt16.ofNat x) (print e.reply)

/-- The part of a call before the reply. -/
def issue (e : Exchange print) (c : Client) : Except Failure ℕ × Client :=
  match send e.cmd e.payload c with
  | (.error f, c) => (.error f, c)
  | (.ok x, c) => (.ok x, if e.subs then { c with inuseCids := c.inuseCids ++ [x] } else c)

/-- A call with `wait = True`. -/
def sync (loads : Bytes → Option J) (e : Exchange print) (c : Client) (s : Socket UInt8) :
    Except Failure J × Client × Socket UInt8 :=
  match issue e c with
  | (.error f, c) => (.error f, c, s)
  | (.ok x, c) =>
    let (r, s) := reply loads x { s with pending := s.pending ++ e.wire x }
    (r, c, s)

/-- Calls one after the other: what they return, and the stream after them. -/
def syncAll (loads : Bytes → Option J) :
    List (Exchange print) → Client → Socket UInt8 → List (Except Failure J) × Socket UInt8
  | [], _, s => ([], s)
  | e :: es, c, s =>
    let (r, c, s) := sync loads e c s
    let (rs, s) := syncAll loads es c s
    (r :: rs, s)

/-- The commands can be sent, and the notifications belong to subscriptions. -/
def Issued : List (Exchange print) → Client → Prop
  | [], _ => True
  | e :: es, c => (∀ n ∈ e.notes, n.cid.toNat ∈ c.inuseCids) ∧
      ∃ x c', issue e c = (.ok x, c') ∧ Issued es c'

/-- All notifications of a run, the last ones after the last reply. -/
def allNotes (es : List (Exchange print)) (after : List (Note print)) : List (Note print) :=
  es.flatMap Exchange.notes ++ after

/-- Every call returns its own reply, and calls of `wait` then return all notifications. -/
def OwnReplies (loads : Bytes → Option J) (es : List (Exchange print)) (after : List (Note print))
    (c : Client) (s : Socket UInt8) : Prop :=
  (syncAll loads es c s).1 = es.map (fun e => .ok e.reply) ∧
    waits loads (allNotes es after).length
        { (syncAll loads es c s).2 with
          pending := (syncAll loads es c s).2.pending ++ after.flatMap Note.bytes } =
      (allNotes es after).map fun n => .ok (n.cid.toNat, n.value)

end Exchanges

section Waiting

variable {sizes : List ℕ} {m : Bytes} {cid : UInt16}

theorem waitChunks_short {fuel : ℕ} {p x : Bytes} (h : ¬ 4 ≤ sizes.headD 4) :
    ∃ s, waitChunks fuel ⟨p, sizes⟩ x = (.error .replyError, s) := by
  cases fuel with
  | zero => exact ⟨_, rfl⟩
  | succ fuel =>
    have hshort := read_short (p := p) h
    rw [waitChunks]
    generalize Socket.read 4 ⟨p, sizes⟩ = k at hshort
    obtain ⟨b, s⟩ := k
    rcases b with _ | ⟨_, _ | ⟨_, _ | ⟨_, _ | ⟨_, b⟩⟩⟩⟩
    · exact ⟨s, rfl⟩
    · exact ⟨s, rfl⟩
    · exact ⟨s, rfl⟩
    · exact ⟨s, rfl⟩
    · simp only [List.length_cons] at hshort
      omega

/-- One turn of the loop. -/
theorem waitChunks_turn {more : Bool} {b : Bytes} (cid : UInt16) (fuel : ℕ) (x rest : Bytes)
    (hc : Fits (more, b)) (hpos : ∀ k ∈ sizes, 0 < k) (hfull : Full [4] sizes) :
    waitChunks (fuel + 1) ⟨frame (chunkHeader more b) cid b ++ rest, sizes⟩ x =
      if more then waitChunks fuel ⟨rest, afterLoop b.length (sizes.drop 1)⟩ (x ++ b)
      else (.ok (cid.toNat, x ++ b), ⟨rest, afterLoop b.length (sizes.drop 1)⟩) := by
  have hread : Socket.read 4 ⟨frame (chunkHeader more b) cid b ++ rest, sizes⟩ =
      (be16 (chunkHeader more b) ++ be16 cid, ⟨b ++ rest, sizes.tail⟩) := by
    rw [frame, List.append_assoc]
    exact read_full (x := be16 (chunkHeader more b) ++ be16 cid) hfull.1
  have hloop : Socket.collect b.length b.length ⟨b ++ rest, sizes.tail⟩ =
      (b, ⟨rest, afterLoop b.length sizes.tail⟩) :=
    collect_eq le_rfl fun k hk => hpos k (List.mem_of_mem_tail hk)
  have hext : (chunkHeader more b).toNat &&& chunkExt = 0 ↔ more = false := by
    rw [chunkHeader_bit hc]
    cases more <;> decide
  rw [waitChunks, hread]
  dsimp only [be16, List.cons_append, List.nil_append]
  rw [readBe16_be16, readBe16_be16, chunkHeader_size hc, hloop, List.drop_one]
  dsimp only
  simp only [hext]
  cases more <;> rfl

/-- What a run of the loop comes to. -/
def Heard (ns sizes : List ℕ) (rest : Bytes) {α : Type*} (a : α)
    (r : Except Failure α × Socket UInt8) : Prop :=
  (HeadersFull [4] ns sizes → r = (.ok a, ⟨rest, afterFrames [4] ns sizes⟩)) ∧
    (¬ HeadersFull [4] ns sizes → ∃ s, r = (.error .replyError, s))

theorem heard_short {ns : List ℕ} {rest p x : Bytes} {fuel : ℕ} {a : ℕ × Bytes} {n : ℕ}
    (h : ¬ Full [4] sizes) : Heard (n :: ns) sizes rest a (waitChunks fuel ⟨p, sizes⟩ x) := by
  refine ⟨fun hf => absurd hf.1 h, fun _ => waitChunks_short fun hs => h ⟨hs, trivial⟩⟩

theorem waitChunks_heard {n fuel : ℕ} (cid : UInt16) (rest x : Bytes) (hn : m.length < n)
    (hpos : ∀ k ∈ sizes, 0 < k) (hfuel : (messageChunks n m).length ≤ fuel) :
    Heard (chunkSizes (messageChunks n m)) sizes rest (cid.toNat, x ++ m)
      (waitChunks fuel ⟨chunksBytes cid (messageChunks n m) ++ rest, sizes⟩ x) := by
  induction n generalizing m sizes x fuel with
  | zero => omega
  | succ n ih =>
    have hfits := messageChunks_fits hn
    unfold messageChunks at hfits hfuel ⊢
    split at hfits
    · rename_i hlong
      rw [if_pos hlong] at hfuel ⊢
      by_cases hfull : Full [4] sizes
      · cases fuel with
        | zero => simp at hfuel
        | succ fuel =>
          have hlen : (m.take chunkSiz).length = chunkSiz := by
            rw [List.length_take]
            omega
          have hless : (m.drop chunkSiz).length < n := by
            have : 0 < chunkSiz := by decide
            rw [List.length_drop]
            omega
          have hpos' : ∀ k ∈ afterLoop chunkSiz (sizes.drop 1), 0 < k :=
            afterLoop_pos fun k hk => hpos k (List.mem_of_mem_drop hk)
          have hrest := ih (x ++ m.take chunkSiz) hless hpos' (by simpa using hfuel)
          have hturn := waitChunks_turn cid fuel x
            (chunksBytes cid (messageChunks n (m.drop chunkSiz)) ++ rest)
            (hfits _ List.mem_cons_self) hpos hfull
          rw [if_pos rfl, hlen] at hturn
          rw [List.append_assoc, List.take_append_drop] at hrest
          rw [chunksBytes, List.flatMap_cons, List.append_assoc, chunkSizes, List.map_cons, hlen]
          change Heard _ _ _ _ (waitChunks (fuel + 1) ⟨_ ++ (chunksBytes cid _ ++ rest), sizes⟩ x)
          rw [hturn]
          exact ⟨fun h => hrest.1 h.2, fun h => hrest.2 fun hr => h ⟨hfull, hr⟩⟩
      · exact heard_short hfull
    · rename_i hshort
      rw [if_neg hshort] at hfuel ⊢
      by_cases hfull : Full [4] sizes
      · cases fuel with
        | zero => simp at hfuel
        | succ fuel =>
          have hturn := waitChunks_turn cid fuel x rest (hfits _ List.mem_cons_self) hpos hfull
          rw [if_neg Bool.false_ne_true] at hturn
          rw [chunksBytes, List.flatMap_cons, List.flatMap_nil, List.append_nil, hturn]
          exact ⟨fun _ => rfl, fun h => absurd ⟨hfull, trivial⟩ h⟩
      · exact heard_short hfull

/-- The sizes of the chunks of a message. -/
def messageSizes (m : Bytes) : List ℕ := chunkSizes (messageChunks (m.length + 1) m)

variable {loads : Bytes → Option J} {print : J → Bytes}

/-- The next message on the stream is the one that is heard. -/
theorem wait_heard (hloads : ∀ v, loads (print v) = some v) (cid : UInt16) (v : J) (rest : Bytes)
    (hpos : ∀ k ∈ sizes, 0 < k) :
    Heard (messageSizes (print v)) sizes rest (cid.toNat, v)
      (wait loads ⟨messageBytes cid (print v) ++ rest, sizes⟩) := by
  have hlen := chunksBytes_length cid (messageChunks ((print v).length + 1) (print v))
  have hfuel : (messageChunks ((print v).length + 1) (print v)).length ≤
      (messageBytes cid (print v) ++ rest).length + 1 := by
    rw [List.length_append]
    change _ ≤ (chunksBytes cid _).length + _ + 1
    omega
  have hchunks : Heard (messageSizes (print v)) sizes rest (cid.toNat, print v)
      (waitChunks ((messageBytes cid (print v) ++ rest).length + 1)
        ⟨messageBytes cid (print v) ++ rest, sizes⟩ []) :=
    waitChunks_heard cid rest [] (Nat.lt_succ_self _) hpos hfuel
  constructor
  · intro h
    rw [wait]
    dsimp only
    rw [hchunks.1 h]
    dsimp only
    rw [hloads]
  · intro h
    obtain ⟨s, hs⟩ := hchunks.2 h
    rw [wait]
    dsimp only
    rw [hs]
    exact ⟨s, rfl⟩

end Waiting

section Replies

variable {loads : Bytes → Option J} {print : J → Bytes} {e : Exchange print} {c c' : Client}
  {sizes : List ℕ} {x : ℕ}

theorem incrementCid_free {inuseCids : List ℕ} {fuel cid : ℕ}
    (h : incrementCid inuseCids fuel cid = some x) : x ∉ inuseCids ∧ x ≤ 65535 := by
  induction fuel generalizing cid with
  | zero => cases h
  | succ fuel ih =>
    unfold incrementCid at h
    generalize hk : (if cid + 1 > 65535 then 1 else cid + 1) = k at h
    dsimp only at h
    by_cases hin : k ∈ inuseCids
    · rw [if_pos hin] at h
      exact ih h
    · rw [if_neg hin] at h
      obtain rfl := Option.some.inj h
      refine ⟨hin, ?_⟩
      split at hk
      · omega
      · omega

theorem issue_free (h : issue e c = (.ok x, c')) : x ∉ c.inuseCids ∧ x ≤ 65535 := by
  unfold issue send at h
  generalize hcid : incrementCid c.inuseCids 65535 c.cid = r at h
  cases r with
  | none => cases h
  | some cid =>
    dsimp only at h
    split at h
    · rename_i hsend
      cases h
    · rename_i hsend
      split at hsend
      · cases hsend
      · cases hsend
        cases h
        exact incrementCid_free hcid

/-- A notification is one chunk of a message. -/
theorem note_bytes (n : Note print) : n.bytes = messageBytes n.cid (print n.value) := by
  have hshort : ¬ (print n.value).length > chunkSiz := Nat.not_lt.mpr n.fits
  rw [messageBytes, messageChunks, if_neg hshort, List.flatMap_cons, List.flatMap_nil,
    List.append_nil]
  rfl

theorem syncAll_cons (es : List (Exchange print)) {s s' : Socket UInt8} {y : Except Failure J}
    (h : sync loads e c s = (y, c', s')) : syncAll loads (e :: es) c s =
      (y :: (syncAll loads es c' s').1, (syncAll loads es c' s').2) := by
  rw [syncAll, h]

theorem sync_issued (h : issue e c = (.ok x, c')) : sync loads e c ⟨[], sizes⟩ =
    ((reply loads x ⟨e.wire x, sizes⟩).1, c', (reply loads x ⟨e.wire x, sizes⟩).2) := by
  rw [sync, h]
  rfl

/-- Without notifications before it a reply is heard. -/
theorem sync_quiet (hloads : ∀ v, loads (print v) = some v) (hpos : ∀ k ∈ sizes, 0 < k)
    (h : issue e c = (.ok x, c')) (hnotes : e.notes = [])
    (hfull : HeadersFull [4] (messageSizes (print e.reply)) sizes) :
    sync loads e c ⟨[], sizes⟩ =
      (.ok e.reply, c', ⟨[], afterFrames [4] (messageSizes (print e.reply)) sizes⟩) := by
  have hle := (issue_free h).2
  have hcid : (UInt16.ofNat x).toNat = x := by
    rw [UInt16.toNat_ofNat']
    omega
  have hwait := (wait_heard hloads (UInt16.ofNat x) e.reply [] hpos).1 hfull
  rw [sync_issued h, Exchange.wire, hnotes, List.flatMap_nil, List.nil_append]
  rw [List.append_nil, hcid] at hwait
  rw [reply, hwait]
  dsimp only
  rw [if_neg fun hne => hne rfl]

/-- A notification before the reply is taken for it, and refused. -/
theorem sync_failed (hloads : ∀ v, loads (print v) = some v) (hpos : ∀ k ∈ sizes, 0 < k)
    (h : issue e c = (.ok x, c')) (hcids : ∀ n ∈ e.notes, n.cid.toNat ∈ c.inuseCids)
    (hbad : ¬ (e.notes = [] ∧ HeadersFull [4] (messageSizes (print e.reply)) sizes)) :
    ∃ f, (sync loads e c ⟨[], sizes⟩).1 = .error f := by
  have hfree := (issue_free h).1
  have hshort : ∀ r s, wait loads ⟨e.wire x, sizes⟩ = (.error r, s) →
      ∃ f, (sync loads e c ⟨[], sizes⟩).1 = .error f := by
    intro r s hr
    rw [sync_issued h, reply, hr]
    exact ⟨r, rfl⟩
  cases hnotes : e.notes with
  | nil =>
    have hwire : e.wire x = messageBytes (UInt16.ofNat x) (print e.reply) ++ [] := by
      rw [Exchange.wire, hnotes, List.append_nil]
      rfl
    obtain ⟨s, hs⟩ := (wait_heard hloads (UInt16.ofNat x) e.reply [] hpos).2
      fun hf => hbad ⟨hnotes, hf⟩
    rw [← hwire] at hs
    exact hshort _ s hs
  | cons n ns =>
    have hwire : e.wire x = messageBytes n.cid (print n.value) ++
        (ns.flatMap Note.bytes ++ messageBytes (UInt16.ofNat x) (print e.reply)) := by
      rw [Exchange.wire, hnotes, List.flatMap_cons, note_bytes, List.append_assoc]
    have hheard := wait_heard hloads n.cid n.value
      (ns.flatMap Note.bytes ++ messageBytes (UInt16.ofNat x) (print e.reply)) hpos
    rw [← hwire] at hheard
    by_cases hfull : HeadersFull [4] (messageSizes (print n.value)) sizes
    · have hin := hcids n (by rw [hnotes]; exact List.mem_cons_self)
      have hne : n.cid.toNat ≠ x := fun heq => hfree (heq ▸ hin)
      rw [sync_issued h, reply, hheard.1 hfull]
      dsimp only
      rw [if_pos hne]
      exact ⟨_, rfl⟩
    · obtain ⟨s, hs⟩ := hheard.2 hfull
      exact hshort _ s hs

theorem waits_notes (hloads : ∀ v, loads (print v) = some v) (ns : List (Note print))
    (hpos : ∀ k ∈ sizes, 0 < k) :
    waits loads ns.length ⟨ns.flatMap Note.bytes, sizes⟩ =
        ns.map (fun n => .ok (n.cid.toNat, n.value)) ↔
      HeadersFull [4] (ns.flatMap fun n => messageSizes (print n.value)) sizes := by
  induction ns generalizing sizes with
  | nil => exact iff_of_true rfl trivial
  | cons n ns ih =>
    have hheard := wait_heard hloads n.cid n.value (ns.flatMap Note.bytes) hpos
    rw [← note_bytes] at hheard
    rw [List.flatMap_cons, List.flatMap_cons, headersFull_append, List.length_cons, waits,
      List.map_cons, List.cons_eq_cons]
    by_cases hfull : HeadersFull [4] (messageSizes (print n.value)) sizes
    · rw [hheard.1 hfull, ih (afterFrames_pos _ hpos)]
      exact and_congr_left fun _ => iff_of_true rfl hfull
    · obtain ⟨s, hs⟩ := hheard.2 hfull
      refine iff_of_false (fun h => ?_) fun h => hfull h.1
      rw [hs] at h
      cases h.1

/-- The sizes of the chunks on the wire, up to the last notification. -/
def frameSizes (es : List (Exchange print)) (after : List (Note print)) : List ℕ :=
  es.flatMap (fun e => messageSizes (print e.reply)) ++
    after.flatMap fun n => messageSizes (print n.value)

/-- Calls get their own replies and no notification is lost exactly if no notification is on
the wire before a reply, and no header is cut. -/
theorem ownReplies_iff (hloads : ∀ v, loads (print v) = some v) {es : List (Exchange print)}
    {after : List (Note print)} {c : Client} (hissued : Issued es c) {sizes : List ℕ}
    (hpos : ∀ k ∈ sizes, 0 < k) :
    OwnReplies loads es after c ⟨[], sizes⟩ ↔
      (∀ e ∈ es, e.notes = []) ∧ HeadersFull [4] (frameSizes es after) sizes := by
  induction es generalizing c sizes with
  | nil =>
    have hwaits := waits_notes hloads after hpos
    constructor
    · exact fun h => ⟨fun _ he => absurd he List.not_mem_nil, hwaits.mp h.2⟩
    · exact fun h => ⟨rfl, hwaits.mpr h.2⟩
  | cons e es ih =>
    obtain ⟨hcids, x, c', hx, hrest⟩ := hissued
    have hsizes : frameSizes (e :: es) after =
        messageSizes (print e.reply) ++ frameSizes es after := by
      rw [frameSizes, List.flatMap_cons, List.append_assoc]
      rfl
    rw [List.forall_mem_cons, hsizes, headersFull_append]
    by_cases hgood : e.notes = [] ∧ HeadersFull [4] (messageSizes (print e.reply)) sizes
    · obtain ⟨hnotes, hfull⟩ := hgood
      have hsync := sync_quiet hloads hpos hx hnotes hfull
      have hpos' : ∀ k ∈ afterFrames [4] (messageSizes (print e.reply)) sizes, 0 < k :=
        afterFrames_pos _ hpos
      have hown : OwnReplies loads (e :: es) after c ⟨[], sizes⟩ ↔ OwnReplies loads es after c'
          ⟨[], afterFrames [4] (messageSizes (print e.reply)) sizes⟩ := by
        have hall := syncAll_cons es hsync
        have hsame : allNotes (e :: es) after = allNotes es after := by
          rw [allNotes, List.flatMap_cons, hnotes]
          rfl
        rw [OwnReplies, hall, hsame, List.map_cons, List.cons_eq_cons]
        exact and_congr_left fun _ => and_iff_right rfl
      rw [hown, ih hrest hpos']
      exact ⟨fun h => ⟨⟨hnotes, h.1⟩, hfull, h.2⟩, fun h => ⟨h.1.2, h.2.2⟩⟩
    · obtain ⟨f, hf⟩ := sync_failed hloads hpos hx hcids hgood
      refine iff_of_false (fun h => ?_) fun h => ?_
      · have hfirst := h.1
        generalize hs : sync loads e c ⟨[], sizes⟩ = y at hf
        obtain ⟨z, c'', s⟩ := y
        rw [syncAll_cons _ hs, List.map_cons] at hfirst
        obtain rfl : z = .error f := hf
        cases (List.cons.inj hfirst).1
      · exact hgood ⟨h.1.1, h.2.1⟩

/-- Two texts of the server, and what is read from them. -/
def sampleText (b : Bool) : Bytes :=
  if b then text "\x7b \"code\": true, \"msg\": \"ok\" \x7d"
  else text "\x7b \"name\": \"web\", \"status\": 1 \x7d"

def sampleLoads (x : Bytes) : Option Bool :=
  if x = sampleText true then some true else if x = sampleText false then some false else none

/-- An UPDT whose reply follows the notifications `ns`. -/
def updtCall (ns : List (Note sampleText)) : Exchange sampleText :=
  ⟨text "UPDT", text "\x7b \"name\": \"web\" \x7d", false, ns, true⟩

def statusNote : Note sampleText := ⟨2, false, by decide⟩

/-- Two calls, and a notification after them. -/
theorem quietCalls_iff :
    OwnReplies sampleLoads [updtCall [], updtCall []] [statusNote] ⟨2, [2], []⟩ ⟨[], []⟩ ↔
      (∀ e ∈ [updtCall [], updtCall []], e.notes = []) ∧
        HeadersFull [4] (frameSizes [updtCall [], updtCall []] [statusNote]) [] := by
  have hissued : Issued [updtCall [], updtCall []] ⟨2, [2], []⟩ :=
    ⟨by decide, 3, _, rfl, by decide, 4, _, rfl, trivial⟩
  exact ownReplies_iff (by decide) hissued fun _ hk => nomatch hk

/-- A status notification before the reply of an UPDT. -/
theorem updtCall_failed : ¬ ∀ (es : List (Exchange sampleText)) (after : List (Note sampleText))
    (c : Client) (sizes : List ℕ), Issued es c → (∀ k ∈ sizes, 0 < k) →
      OwnReplies sampleLoads es after c ⟨[], sizes⟩ := by
  intro h
  have hcids : ∀ n ∈ (updtCall [statusNote]).notes, n.cid.toNat ∈ [2] := by decide
  obtain ⟨x, c', hx⟩ : ∃ x c', issue (updtCall [statusNote]) ⟨2, [2], []⟩ = (.ok x, c') :=
    ⟨3, _, rfl⟩
  obtain ⟨f, hf⟩ : ∃ f, (sync sampleLoads (updtCall [statusNote]) ⟨2, [2], []⟩ ⟨[], []⟩).1 =
      .error f :=
    sync_failed (by decide) (fun _ hk => nomatch hk) hx hcids fun hgood => by cases hgood.1
  have hown := (h [updtCall [statusNote]] [] ⟨2, [2], []⟩ [] ⟨hcids, x, c', hx, trivial⟩
    fun _ hk => nomatch hk).1
  generalize hs : sync sampleLoads (updtCall [statusNote]) ⟨2, [2], []⟩ ⟨[], []⟩ = y at hf
  obtain ⟨z, c'', s⟩ := y
  rw [syncAll_cons _ hs] at hown
  obtain rfl : z = .error f := hf
  cases (List.cons.inj hown).1

end Replies

end UbervisorPythonClient
