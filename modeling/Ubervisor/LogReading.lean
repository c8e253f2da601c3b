import Ubervisor.Delivery

/-! # Reading logs

READ of a log that exists: what the reply holds, where it says that it starts, and a client that
asks again from where the last reply ended. -/
namespace UbervisorLogReading

open UbervisorRuns
open UbervisorValues
open UbervisorChildConfigs
open UbervisorKernel
open UbervisorRegistry
open UbervisorChunks
open UbervisorReadCallback (Command findCommand)
open UbervisorServer
open UbervisorCommands
open UbervisorEvents
open UbervisorEffects
open UbervisorTranscripts
open UbervisorAnswers
open UbervisorReplies
open UbervisorDelivery
open UbervisorJsonC

/-- The content of the log of an instance, when there is one that can be read. -/
def openLog (r : Registry) (logs : CStr → Option LogFile) (n : CStr) (stream inst : ℤ) :
    Option Bytes :=
  match r.childConfigFindByName n with
  | none => none
  | some g =>
    let cc := r.groups g
    if inst < 0 ∨ cc.ccInstances ≤ inst then none
    else
      match (if stream = 1 then cc.ccStdout else cc.ccStderr) with
      | none => none
      | some fn =>
        match logs (CStr.ofBytes (replaceStr numMarker (instanceStr inst.toNat) fn.bytes)) with
        | some (.regular content) => some content
        | _ => none

/-- A READ from `x` of at most `bytes` bytes, of a log that holds `content`. -/
structure ReadsLog (P : Platform) (r : Registry) (logs : CStr → Option LogFile) (buf : CStr)
    (x : ℚ) (bytes : ℤ) (content : Bytes) : Prop where
  request : ∃ obj n stream inst, parseObject P buf = some obj ∧ nameField obj = some n ∧
    intField obj "stream" = some stream ∧ obj.objectGet "offset" = some (.double x) ∧
    intField obj "bytes" = some bytes ∧ intField obj "instance" = some inst ∧
    1 ≤ stream ∧ stream ≤ 2 ∧ openLog r logs n stream inst = some content
  bounds : 0 ≤ bytes ∧ bytes ≤ readMax

/-- The cast of a `double` to an `off_t`. -/
def truncated (x : ℚ) : ℤ := x.num.tdiv x.den

def logReply (content : Bytes) (off bytes : ℤ) : Reply :=
  .log (readLog content off bytes).1 (readLog content off bytes).2.1
    (readLog content off bytes).2.2

section Requests

variable {P : Platform} {s u : Server} {con : ClientId} {cid : UInt16} {payload : Bytes}
  {o : Oracle} {buf : CStr} {x : ℚ} {bytes : ℤ} {content : Bytes}

theorem cRead_log (h : ReadsLog P s.reg s.io.logFiles buf x bytes content) :
    cRead P s con buf = (sendReply P s con (logReply content (truncated x) bytes), true) := by
  obtain ⟨⟨obj, n, stream, inst, hobj, hn, hstream, hx, hbytes, hinst, hlow, hhigh, hlog⟩,
    hbounds⟩ := h
  have hoff : doubleField obj "offset" = some (truncated x) := by
    unfold doubleField
    rw [hx]
    rfl
  have hok : ¬ ((stream < 1 ∨ stream > 2) ∨ (bytes < 0 ∨ bytes > readMax)) := by omega
  simp only [cRead, hobj, hn, hstream, hoff, hbytes, hinst]
  rw [if_neg hok]
  unfold openLog at hlog
  cases hg : s.reg.childConfigFindByName n with
  | none =>
    rw [hg] at hlog
    cases hlog
  | some g =>
    simp only [hg] at hlog ⊢
    by_cases hi : inst < 0 ∨ (s.reg.groups g).ccInstances ≤ inst
    · rw [if_pos hi] at hlog
      cases hlog
    · rw [if_neg hi] at hlog ⊢
      cases hfn : (if stream = 1 then (s.reg.groups g).ccStdout else (s.reg.groups g).ccStderr) with
      | none =>
        rw [hfn] at hlog
        cases hlog
      | some fn =>
        simp only [hfn] at hlog ⊢
        cases hfile : s.io.logFiles
            (CStr.ofBytes (replaceStr numMarker (instanceStr inst.toNat) fn.bytes)) with
        | none =>
          rw [hfile] at hlog
          cases hlog
        | some file =>
          rw [hfile] at hlog
          cases file with
          | unreadable => cases hlog
          | regular c =>
            cases hlog
            rfl

/-- The state after such a request: the reply is in the buffer of the client. -/
theorem next_read (hc : findCommand payload = some .read)
    (h : ReadsLog P s.reg o.logs (CStr.ofBytes (payload.drop 4)) x bytes content) :
    next P s (.callback (.request con cid payload) o) =
      (sendReply P ((install s o).withIo (setCid con cid)) con
        (logReply content (truncated x) bytes)).withIo (setCid con 0) := by
  have hread : cRead P ((install s o).withIo (setCid con cid)) con
      (CStr.ofBytes (payload.drop 4)) = _ := cRead_log h
  change (runServerCommand P ((install s o).withIo (setCid con cid)) con payload).withIo _ = _
  unfold runServerCommand
  rw [hc]
  dsimp only
  rw [runCommand, hread]
  rfl

theorem read_answered (hcon : Connected s con) (hc : findCommand payload = some .read)
    (h : ReadsLog P s.reg o.logs (CStr.ofBytes (payload.drop 4)) x bytes content) :
    answersOf s (next P s (.callback (.request con cid payload) o)) =
      [(con, cid, logReply content (truncated x) bytes)] := by
  rw [next_read hc h]
  have hcid : ((install s o).withIo (setCid con cid)).io.cid con = cid := setCid_cid hcon cid
  have hout : ((install s o).withIo (setCid con cid)).io.out = s.io.out := rfl
  generalize (install s o).withIo (setCid con cid) = v at hcid hout
  have hsent : ((sendReply P v con (logReply content (truncated x) bytes)).withIo
      (setCid con 0)).io.out =
        v.io.out ++ [.reply con (v.io.cid con) (logReply content (truncated x) bytes)] := rfl
  rw [answersOf, newOut, hsent, hout, List.drop_left, hcid]
  rfl

end Requests

section Tails

variable {P : Platform} {s u : Server} {con : ClientId} {cid : UInt16} {payload : Bytes}
  {o : Oracle} {x : ℚ} {bytes : ℤ} {content : Bytes}

/-- An offset of -1 or less counts from the end. One above is cut to 0. -/
theorem truncated_neg (h : x ≤ -1) : truncated x < 0 := by
  have hle : x.num ≤ -x.den := by
    have := (Rat.le_iff x (-1)).mp h
    simpa using this
  have hden : 0 < (x.den : ℤ) := by exact_mod_cast x.den_pos
  have hquot : 1 ≤ (-x.num) / x.den := Int.le_ediv_of_mul_le hden (by omega)
  have hneg : truncated x = -((-x.num) / x.den) := by
    rw [truncated, ← Int.tdiv_eq_ediv_of_nonneg (by omega), Int.neg_tdiv, neg_neg]
  omega

theorem truncated_zero (hx : x < 0) (h : -1 < x) : truncated x = 0 := by
  have hnum : x.num < 0 := Rat.num_neg.mpr hx
  have hlt : -x.num < x.den := by
    have := (Rat.lt_iff (-1) x).mp h
    have hone : (-1 : ℚ).num = -1 := rfl
    have hden : (-1 : ℚ).den = 1 := rfl
    rw [hone, hden] at this
    omega
  have hneg : truncated x = -((-x.num).tdiv x.den) := by
    rw [truncated, Int.neg_tdiv, neg_neg]
  rw [hneg, Int.tdiv_eq_zero_of_lt (by omega) hlt, neg_zero]

/-- The last `bytes` bytes of the content, or all of it, and where they start. -/
def IsTail (content : Bytes) (bytes : ℤ) (r : Reply) : Prop :=
  ∃ log : CStr, log.bytes = content.drop (content.length - min bytes.toNat content.length) ∧
    r = .log log ((content.length - min bytes.toNat content.length : ℕ) : ℤ) content.length

theorem logReply_tail (h0 : 0 ≤ bytes) (hx : x < 0) (hnul : 0 ∉ content) :
    IsTail content bytes (logReply content (truncated x) bytes) ↔
      (x ≤ -1 ∧ bytes ≤ content.length) ∨ (-1 < x ∧ (content.length : ℤ) ≤ bytes) := by
  have hclean : ∀ n m, (CStr.ofBytes ((content.drop n).take m)).bytes = (content.drop n).take m :=
    fun n m => CStr.bytes_ofBytes fun h => hnul (List.mem_of_mem_drop (List.mem_of_mem_take h))
  obtain ⟨b, rfl⟩ := Int.eq_ofNat_of_zero_le h0
  have hstart : content.length - min b content.length = content.length - b := by omega
  unfold IsTail logReply readLog
  rw [Int.toNat_natCast, hstart]
  by_cases hle : x ≤ -1
  · have hneg := truncated_neg hle
    have hno : ¬ -1 < x := not_lt.mpr hle
    by_cases hb : (content.length : ℤ) - b < 0
    · -- the seek fails: nothing is read, and the offset is the error code
      rw [if_pos hneg, if_pos hb]
      refine iff_of_false ?_ ?_
      · rintro ⟨log, -, h⟩
        simp only [Reply.log.injEq] at h
        omega
      · rintro (⟨-, h⟩ | ⟨h, -⟩)
        · omega
        · exact hno h
    · have hpos : (content.length : ℤ) - b = (content.length - b : ℕ) := by omega
      rw [if_pos hneg, if_neg hb, hpos, Int.toNat_natCast]
      refine iff_of_true ⟨_, (hclean _ _).trans ?_, rfl⟩ (Or.inl ⟨hle, by omega⟩)
      exact List.take_of_length_le (by rw [List.length_drop]; omega)
  · have hlt : -1 < x := not_le.mp hle
    rw [truncated_zero hx hlt, if_neg (lt_irrefl 0), Int.toNat_zero, List.drop_zero]
    by_cases hb : content.length ≤ b
    · have hall : content.length - b = 0 := by omega
      rw [hall]
      refine iff_of_true ⟨_, (hclean 0 b).trans ?_, rfl⟩ (Or.inr ⟨hlt, by omega⟩)
      exact List.take_of_length_le (by rw [List.length_drop]; omega)
    · refine iff_of_false ?_ ?_
      · rintro ⟨log, -, h⟩
        simp only [Reply.log.injEq] at h
        omega
      · rintro (⟨h, -⟩ | ⟨-, h⟩)
        · exact hle h
        · omega

/-- A READ with a negative offset returns the end of the log unless it asks for more than there
is; one between -1 and 0 is taken for 0. -/
theorem read_tail_iff
    (hs : Step P s (.callback (.request con cid payload) o) u)
    (hc : findCommand payload = some .read)
    (hr : ReadsLog P s.reg o.logs (CStr.ofBytes (payload.drop 4)) x bytes content) (hx : x < 0)
    (hnul : 0 ∉ content) :
    (∃ r, answersOf s u = [(con, cid, r)] ∧ IsTail content bytes r) ↔
      (x ≤ -1 ∧ bytes ≤ content.length) ∨ (-1 < x ∧ (content.length : ℤ) ≤ bytes) := by
  obtain ⟨⟨-, -, hready⟩, rfl⟩ := hs
  rw [read_answered hready.1 hc hr, ← logReply_tail hr.bounds.1 hx hnul]
  constructor
  · rintro ⟨r, hr, htail⟩
    injection hr with hr
    injection hr with _ hr
    injection hr with _ hr
    rwa [hr]
  · exact fun h => ⟨_, rfl, h⟩

end Tails

section Following

/-- A client that reads the log of an instance from the beginning. `dumps` is its JSON writer. -/
structure LogReader where
  dumps : Json → Bytes
  con : ClientId
  cids : ℕ → UInt16
  name : CStr
  stream : ℤ
  inst : ℤ
  bytes : ℕ

namespace LogReader

/-- The argument of `UbervisorClient.read`. The offset is sent as a `float`. -/
def readDict (q : LogReader) (off : ℤ) : Json := .object
  [(text "name", .string q.name.bytes), (text "stream", .int q.stream),
    (text "offset", .double off), (text "bytes", .int q.bytes), (text "instance", .int q.inst)]

def readPayload (q : LogReader) (off : ℤ) : Bytes := text "READ" ++ q.dumps (q.readDict off)

/-- One turn: the request, and the log files as the server finds them. -/
def ask (q : LogReader) (logs : CStr → Option LogFile) (k : ℕ) (off : ℤ) : Event :=
  .callback (.request q.con (q.cids k) (q.readPayload off)) ⟨[], [], logs⟩

/-- After `k` turns: the server, the offset to go on from and what was read. -/
def follow (q : LogReader) (P : Platform) (logs : CStr → Option LogFile) (s : Server) :
    ℕ → Server × ℤ × Bytes
  | 0 => (s, 0, [])
  | k + 1 =>
    let (u, off, acc) := q.follow P logs s k
    let v := next P u (q.ask logs k off)
    match answersOf u v with
    | [(_, _, .log log off _)] => (v, off + log.bytes.length, acc ++ log.bytes)
    | _ => (v, off, acc)

end LogReader

/-- The client may read the log, which holds `content` all the time. -/
structure LogReadable (logs : CStr → Option LogFile) (content : Bytes) (q : LogReader)
    (s : Server) : Prop where
  alive : Alive s
  idle : s.inSigchld = false
  connected : Connected s q.con
  log : openLog s.reg logs q.name q.stream q.inst = some content

/-- What the client asks for is in range, and json-c reads what it writes. -/
structure WellAsked (P : Platform) (content : Bytes) (q : LogReader) : Prop where
  stream : 1 ≤ q.stream ∧ q.stream ≤ 2
  inst : q.inst ≤ 2147483647
  bytes : 1 ≤ q.bytes ∧ (q.bytes : ℤ) ≤ readMax
  cids : ∀ k, q.cids k ≠ 0
  fits : ∀ off : ℕ, off ≤ content.length → (q.readPayload off).length ≤ chunkSiz
  parsed : ∀ off : ℕ, off ≤ content.length →
    P.jsonParse (CStr.ofBytes (q.dumps (q.readDict off))).bytes = some (q.readDict off)

variable {P : Platform} {logs : CStr → Option LogFile} {content : Bytes} {q : LogReader}
  {s u : Server} {k off n : ℕ}

/-- The part of the log a reader of C strings can reach. -/
def reached (content : Bytes) : Bytes := content.takeWhile (· ≠ 0)

theorem takeWhile_take {α : Type*} (p : α → Bool) (l : List α) (n : ℕ) :
    (l.take n).takeWhile p = (l.takeWhile p).take n := by
  induction l generalizing n with
  | nil => simp
  | cons a l ih =>
    cases n with
    | zero => simp
    | succ n =>
      by_cases ha : p a = true
      · simp [ha, ih]
      · simp [ha]

theorem takeWhile_drop {α : Type*} (p : α → Bool) (l : List α) {i : ℕ}
    (h : i ≤ (l.takeWhile p).length) : (l.drop i).takeWhile p = (l.takeWhile p).drop i := by
  induction l generalizing i with
  | nil => simp
  | cons a l ih =>
    cases i with
    | zero => rfl
    | succ i =>
      by_cases ha : p a = true
      · rw [List.takeWhile_cons_of_pos ha] at h ⊢
        exact ih (Nat.le_of_succ_le_succ h)
      · rw [List.takeWhile_cons_of_neg ha] at h
        exact absurd h (Nat.not_succ_le_zero i)

/-- What a read from a position before the first NUL hands out. -/
theorem read_reached (content : Bytes) (n : ℕ) (h : off ≤ (reached content).length) :
    ∃ log : CStr, log.bytes = ((reached content).drop off).take n ∧
      logReply content off n = .log log off content.length := by
  refine ⟨CStr.ofBytes ((content.drop off).take n), ?_, ?_⟩
  · have hread := takeWhile_take (fun b : UInt8 => decide (b ≠ 0)) (content.drop off) n
    rw [takeWhile_drop _ _ h] at hread
    exact hread
  · rw [logReply, readLog, if_neg (by omega), Int.toNat_natCast, Int.toNat_natCast]

theorem reached_le : (reached content).length ≤ content.length :=
  (List.takeWhile_prefix _).length_le

theorem payload_parts (q : LogReader) (off : ℤ) :
    findCommand (q.readPayload off) = some .read ∧
      (q.readPayload off).drop 4 = q.dumps (q.readDict off) := by
  constructor
  · rfl
  · rfl

theorem truncated_int (off : ℤ) : truncated off = off := by
  rw [truncated, Rat.num_intCast, Rat.den_intCast]
  simp

theorem openLog_instance {r : Registry} {name : CStr} {stream inst : ℤ}
    (h : openLog r logs name stream inst = some content) : 0 ≤ inst := by
  by_contra hneg
  unfold openLog at h
  cases hg : r.childConfigFindByName name with
  | none =>
    rw [hg] at h
    cases h
  | some g =>
    rw [hg] at h
    dsimp only at h
    rw [if_pos (Or.inl (by omega))] at h
    cases h

theorem ask_readsLog {off : ℤ} (hq : WellAsked P content q) (h : LogReadable logs content q s)
    (hparsed : P.jsonParse (CStr.ofBytes (q.dumps (q.readDict off))).bytes =
      some (q.readDict off)) :
    ReadsLog P s.reg logs (CStr.ofBytes ((q.readPayload off).drop 4)) off q.bytes content := by
  have hinst := openLog_instance h.log
  have hmax : (q.bytes : ℤ) ≤ 16383 := hq.bytes.2
  obtain ⟨hlow, hhigh⟩ := hq.stream
  have hlast := hq.inst
  have hclamp : ∀ n : ℤ, 0 ≤ n → n ≤ 2147483647 → clampInt n = n := fun n _ _ => by
    unfold clampInt
    omega
  refine ⟨⟨q.readDict off, q.name, q.stream, q.inst, ?_, ?_, ?_, rfl, ?_, ?_, hlow, hhigh, h.log⟩,
    by omega, hq.bytes.2⟩
  · unfold parseObject
    rw [(payload_parts q off).2, hparsed]
    rfl
  · exact congrArg some (CStr.ofBytes_bytes q.name)
  · exact congrArg some (hclamp q.stream (by omega) (by omega))
  · exact congrArg some (hclamp q.bytes (by omega) (by omega))
  · exact congrArg some (hclamp q.inst hinst hlast)

theorem take_step {α : Type*} (l : List α) (m n : ℕ) :
    l.take m ++ ((l.drop (l.take m).length).take n) = l.take (m + n) := by
  by_cases hm : m ≤ l.length
  · rw [List.length_take_of_le hm, List.take_add]
  · have hall : l.take m = l := List.take_of_length_le (by omega)
    rw [hall, List.drop_length, List.take_nil, List.append_nil,
      List.take_of_length_le (by omega)]

/-- A turn of the loop from a position before the first NUL. -/
theorem turn_read (hq : WellAsked P content q) (h : LogReadable logs content q s) (k : ℕ)
    (hoff : off ≤ (reached content).length) :
    Step P s (q.ask logs k off) (next P s (q.ask logs k off)) ∧
      LogReadable logs content q (next P s (q.ask logs k off)) ∧
      ∃ log : CStr, log.bytes = ((reached content).drop off).take q.bytes ∧
        answersOf s (next P s (q.ask logs k off)) =
          [(q.con, q.cids k, .log log off content.length)] := by
  have hle : off ≤ content.length := hoff.trans reached_le
  have hreads := ask_readsLog hq h (hq.parsed off hle)
  obtain ⟨hread, hdrop⟩ := payload_parts q off
  have hanswer : answersOf s (next P s (q.ask logs k off)) = _ :=
    read_answered h.connected hread hreads
  have hnext : next P s (q.ask logs k off) = _ := next_read hread hreads
  obtain ⟨log, hlog, hreply⟩ := read_reached content q.bytes hoff
  rw [truncated_int, hreply] at hanswer hnext
  refine ⟨⟨⟨h.alive, h.idle, h.connected, hq.cids k, ?_, hq.fits off hle⟩, rfl⟩, ?_,
    log, hlog, hanswer⟩
  · rw [LogReader.readPayload, List.length_append]
    exact Nat.le_add_right 4 _
  · rw [hnext]
    have hset := setCid_keeps (s := install s ⟨[], [], logs⟩) q.con (q.cids k) h.connected
    have hout : ((install s ⟨[], [], logs⟩).withIo (setCid q.con (q.cids k))).io.out = s.io.out :=
      rfl
    generalize hv : (install s ⟨[], [], logs⟩).withIo (setCid q.con (q.cids k)) = v at hset hout
    have hsame : v.halted = s.halted ∧ v.inSigchld = s.inSigchld ∧ v.reg = s.reg := by
      rw [← hv]
      exact ⟨rfl, rfl, rfl⟩
    obtain ⟨hhalted, hturn, hreg⟩ := hsame
    have hsent : Answers P [(q.con, v.io.cid q.con, .log log off content.length)] False v.io
        (sendReply P v q.con (.log log off content.length)).io := .reply q.con _
    refine ⟨⟨hhalted.trans h.alive.1, ?_⟩, hturn.trans h.idle, ?_, ?_⟩
    · change Output.wild ∉ v.io.out ++ [.reply _ _ _]
      rw [hout, List.mem_append, List.mem_singleton]
      rintro (hw | hw)
      · exact h.alive.2 hw
      · cases hw
    · obtain ⟨l, hl, -, -⟩ := hsent
      refine (setCid_keeps q.con 0 ?_).1
      rw [Connected, hl.clients, grown_cId]
      exact hset.1
    · change openLog v.reg logs q.name q.stream q.inst = some content
      rw [hreg]
      exact h.log

/-- After `k` turns the client has read the part it can reach up to `k` times `bytes`. -/
theorem follow_read (hs : Reachable P s) (hq : WellAsked P content q)
    (h : LogReadable logs content q s) (k : ℕ) :
    Reachable P (q.follow P logs s k).1 ∧ LogReadable logs content q (q.follow P logs s k).1 ∧
      (q.follow P logs s k).2 =
        ((((reached content).take (k * q.bytes)).length : ℤ),
          (reached content).take (k * q.bytes)) := by
  induction k with
  | zero =>
    rw [Nat.zero_mul, List.take_zero]
    exact ⟨hs, h, rfl⟩
  | succ k ih =>
    obtain ⟨hreach, hread, hpos⟩ := ih
    rw [LogReader.follow]
    generalize q.follow P logs s k = f at hreach hread hpos
    obtain ⟨u, off, acc⟩ := f
    obtain ⟨rfl, rfl⟩ := Prod.mk.inj hpos
    dsimp only at hreach hread ⊢
    obtain ⟨hstep, hnext, log, hlog, hanswer⟩ :=
      turn_read hq hread k (List.length_take_le' (k * q.bytes) (reached content))
    rw [hanswer]
    refine ⟨hreach.step hstep trivial, hnext, ?_⟩
    have htake := take_step (reached content) (k * q.bytes) q.bytes
    rw [← hlog] at htake
    rw [Nat.succ_mul, ← htake, List.length_append]
    push_cast
    rfl

/-- The loop reads the whole log if and only if there is no NUL in it: behind one it does not
get on. -/
theorem follow_complete_iff (hs : Reachable P s) (hq : WellAsked P content q)
    (h : LogReadable logs content q s) :
    (∀ k, Reachable P (q.follow P logs s k).1) ∧
    ((∃ k, (q.follow P logs s k).2.1 = content.length ∧ (q.follow P logs s k).2.2 = content) ↔
      0 ∉ content) := by
  have hpos : ∀ k, (q.follow P logs s k).2.2 = (reached content).take (k * q.bytes) := fun k => by
    rw [(follow_read hs hq h k).2.2]
  refine ⟨fun k => (follow_read hs hq h k).1, ?_⟩
  constructor
  · rintro ⟨k, -, hall⟩ hnul
    rw [hpos] at hall
    rw [← hall] at hnul
    have hzero := List.mem_takeWhile_imp (List.mem_of_mem_take hnul)
    simp at hzero
  · intro hnul
    have hreached : reached content = content := by
      rw [reached, List.takeWhile_eq_self_iff]
      intro b hb
      rw [decide_eq_true_eq]
      rintro rfl
      exact hnul hb
    have hlong : content.length ≤ content.length * q.bytes :=
      Nat.le_mul_of_pos_right _ hq.bytes.1
    have hwhole : (reached content).take (content.length * q.bytes) = content := by
      rw [hreached, List.take_of_length_le hlong]
    refine ⟨content.length, ?_, ?_⟩
    · rw [(follow_read hs hq h content.length).2.2]
      dsimp only
      rw [hwhole]
    · rw [hpos, hwhole]

end Following

section Witnesses

/-- A stopped group with a log. -/
def loggedRequest : Json :=
  .object [(text "name", .string (text "web")), (text "args", .array [.string (text "/bin/web")]),
    (text "stdout", .string (text "/log")), (text "status", .int 2)]

def logReader : LogReader := ⟨printJson, 0, fun _ => 1, CStr.ofBytes (text "web"), 1, 0, 2⟩

def logOffsets : List ℤ := [-1, 0, 1, 2, 3]

def logPlatform : Platform :=
  sample (printed loggedRequest :: logOffsets.map fun off => printed (logReader.readDict off))

def logState : Server := stateAfter (next logPlatform) (initial false false 100)
  [connecting, asking "SPWN" loggedRequest []]

theorem logState_reachable : Reachable logPlatform logState := by
  have h : Admits Enabled (next logPlatform) Always (initial false false 100)
    [connecting, asking "SPWN" loggedRequest []] := by decide +kernel
  exact ⟨false, false, 100, h.execution⟩

/-- The only log file there is. -/
def onlyLog (content : Bytes) (path : CStr) : Option LogFile :=
  if path = CStr.ofBytes (text "/log") then some (.regular content) else none

theorem logPlatform_parse {off : ℤ} (h : off ∈ logOffsets) :
    logPlatform.jsonParse (CStr.ofBytes (printJson (logReader.readDict off))).bytes =
      some (logReader.readDict off) := by
  have hnul : ∀ off ∈ logOffsets, 0 ∉ printJson (logReader.readDict off) := by decide +kernel
  rw [CStr.bytes_ofBytes (hnul off h)]
  exact sample_parse (by decide +kernel)
    (List.mem_cons_of_mem _ (List.mem_map.mpr ⟨off, h, rfl⟩))

theorem logOffsets_fit : ∀ off ∈ logOffsets,
    (logReader.readPayload off).length ≤ chunkSiz ∧ 4 ≤ (logReader.readPayload off).length := by
  decide +kernel

theorem logReader_asks {content : Bytes} (h : content.length ≤ 3) :
    WellAsked logPlatform content logReader := by
  have hmem : ∀ off : ℕ, off ≤ content.length → (off : ℤ) ∈ logOffsets := by
    intro off hoff
    simp only [logOffsets, List.mem_cons, List.not_mem_nil, or_false]
    omega
  refine ⟨by decide, by decide, by decide, fun _ => (by decide : (1 : UInt16) ≠ 0),
    fun off hoff => ?_, fun off hoff => ?_⟩
  · exact (logOffsets_fit _ (hmem off hoff)).1
  · exact logPlatform_parse (hmem off hoff)

theorem logState_readable (content : Bytes) :
    LogReadable (onlyLog content) content logReader logState := by
  have hopen : openLog logState.reg (onlyLog content) logReader.name logReader.stream
      logReader.inst = some content := rfl
  exact ⟨by decide +kernel, by decide +kernel, by decide +kernel, hopen⟩

/-- The request for the last two bytes. -/
theorem logState_asked (content : Bytes) (h : content.length ≤ 3) :
    Step logPlatform logState (logReader.ask (onlyLog content) 0 (-1))
        (next logPlatform logState (logReader.ask (onlyLog content) 0 (-1))) ∧
      ReadsLog logPlatform logState.reg (onlyLog content)
        (CStr.ofBytes ((logReader.readPayload (-1)).drop 4)) ((-1 : ℤ) : ℚ) 2 content := by
  have hr := logState_readable content
  have hmem : (-1 : ℤ) ∈ logOffsets := by decide
  obtain ⟨hmax, hmin⟩ := logOffsets_fit (-1) hmem
  refine ⟨⟨⟨hr.alive, hr.idle, hr.connected, by decide, hmin, hmax⟩, rfl⟩, ?_⟩
  exact ask_readsLog (logReader_asks h) hr (logPlatform_parse hmem)

/-- The end of a log of three bytes. -/
theorem logState_tail : ∃ r, answersOf logState (next logPlatform logState
    (logReader.ask (onlyLog (text "abc")) 0 (-1))) = [(0, 1, r)] ∧ IsTail (text "abc") 2 r := by
  obtain ⟨hstep, hreads⟩ := logState_asked (text "abc") (by decide)
  exact (read_tail_iff hstep rfl hreads (by norm_num) (by decide)).mpr
    (Or.inl ⟨by norm_num, by decide⟩)

/-- A log of one byte: nothing is returned, from offset -1. -/
theorem logState_noTail : ¬ ∀ (P : Platform) (s u : Server) (con : ClientId) (cid : UInt16)
    (payload : Bytes) (o : Oracle) (x : ℚ) (bytes : ℤ) (content : Bytes),
    Step P s (.callback (.request con cid payload) o) u → findCommand payload = some .read →
    ReadsLog P s.reg o.logs (CStr.ofBytes (payload.drop 4)) x bytes content → x < 0 →
    0 ∉ content → ∃ r, answersOf s u = [(con, cid, r)] ∧ IsTail content bytes r := by
  intro h
  obtain ⟨hstep, hreads⟩ := logState_asked (text "a") (by decide)
  obtain ⟨r, hr, htail⟩ := h _ _ _ _ _ _ _ _ _ _ hstep rfl hreads (by norm_num) (by decide)
  have hanswer : answersOf logState (next logPlatform logState
      (logReader.ask (onlyLog (text "a")) 0 (-1))) =
        [(0, 1, logReply (text "a") (truncated ((-1 : ℤ) : ℚ)) 2)] :=
    read_answered (logState_readable (text "a")).connected rfl hreads
  rw [hanswer] at hr
  injection hr with hr
  injection hr with _ hr
  injection hr with _ hr
  rw [← hr, logReply_tail (by decide) (by norm_num) (by decide)] at htail
  rcases htail with ⟨-, hlen⟩ | ⟨hlow, -⟩
  · exact absurd hlen (by decide)
  · norm_num at hlow

theorem logState_followed :
    ∃ k, (logReader.follow logPlatform (onlyLog (text "abc")) logState k).2.1 = 3 ∧
      (logReader.follow logPlatform (onlyLog (text "abc")) logState k).2.2 = text "abc" :=
  (follow_complete_iff logState_reachable (logReader_asks (by decide))
    (logState_readable (text "abc"))).2.mpr (by decide)

/-- A log with a NUL is never read beyond it. -/
theorem logState_stuck : ¬ ∀ (P : Platform) (logs : CStr → Option LogFile) (content : Bytes)
    (q : LogReader) (s : Server), Reachable P s → WellAsked P content q →
    LogReadable logs content q s → ∃ k, (q.follow P logs s k).2.1 = content.length ∧
      (q.follow P logs s k).2.2 = content := by
  intro h
  have hq : WellAsked logPlatform [97, 0, 98] logReader := logReader_asks (by decide)
  have hr := logState_readable [97, 0, 98]
  obtain ⟨k, -, hall⟩ := h _ _ _ _ _ logState_reachable hq hr
  rw [(follow_read logState_reachable hq hr k).2.2] at hall
  have hshort := congrArg List.length hall
  have hone : (reached [97, 0, 98]).length = 1 := by decide
  rw [List.length_take, hone] at hshort
  have hthree : ([97, 0, 98] : Bytes).length = 3 := rfl
  omega

end Witnesses

end UbervisorLogReading
