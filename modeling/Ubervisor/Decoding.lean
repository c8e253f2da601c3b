import Ubervisor.ReadCallback
import Mathlib.Data.List.Induction

/-! # Decoding of requests

`read_cb` on a stream of well-formed frames that arrives in any number of pieces. A phase of
the decoder stands for the bytes of the current frame it has taken off the buffer. -/
namespace UbervisorDecoding

open UbervisorValues
open UbervisorChunks
open UbervisorReadCallback

/-- A well-formed request on the wire. -/
structure Frame where
  cid : UInt16
  payload : Bytes
  four_le : 4 ≤ payload.length
  le_chunk : payload.length ≤ chunkSiz
  known : (findCommand payload).isSome

namespace Frame

def bytes (f : Frame) : Bytes := frame (UInt16.ofNat f.payload.length) f.cid f.payload

/-- What `run_server_command` gets to see. -/
def request (f : Frame) : UInt16 × Bytes := (f.cid, f.payload)

theorem length_bytes (f : Frame) : f.bytes.length = 4 + f.payload.length := by
  unfold bytes frame
  simp
  omega

theorem len_toNat (f : Frame) : (UInt16.ofNat f.payload.length).toNat = f.payload.length := by
  have := f.le_chunk
  unfold chunkSiz at this
  rw [UInt16.toNat_ofNat']
  omega

end Frame

def stream (fs : List Frame) : Bytes := fs.flatMap Frame.bytes

@[simp] theorem stream_nil : stream [] = [] := rfl

@[simp] theorem stream_cons (f : Frame) (fs : List Frame) :
    stream (f :: fs) = f.bytes ++ stream fs := rfl

@[simp] theorem stream_append (fs gs : List Frame) :
    stream (fs ++ gs) = stream fs ++ stream gs := List.flatMap_append

/-- The frames whose last byte is among the first `n` bytes of the stream. -/
def arrived : List Frame → ℕ → List Frame
  | [], _ => []
  | f :: fs, n => if f.bytes.length ≤ n then f :: arrived fs (n - f.bytes.length) else []

theorem arrived_append (fs gs : List Frame) (n : ℕ) :
    arrived (fs ++ gs) ((stream fs).length + n) = fs ++ arrived gs n := by
  induction fs with
  | nil => simp [stream]
  | cons f fs ih =>
    have hle : f.bytes.length ≤ (stream (f :: fs)).length + n := by
      simp
      omega
    have hsub : (stream (f :: fs)).length + n - f.bytes.length = (stream fs).length + n := by
      simp
      omega
    rw [List.cons_append, arrived, if_pos hle, hsub, ih, List.cons_append]

/-- As long as no handler has asked to drop the connection, exactly the frames that have
arrived were handed over, each with its own cid. -/
def Decodes {σ : Type*} (handler : Handler σ) (s : σ) (fs : List Frame)
    (segs : List Bytes) : Prop :=
  ∀ k, false ∉ (feed handler s (segs.take k)).2.returns →
    (feed handler s (segs.take k)).2.dispatched =
      (arrived fs (segs.take k).flatten.length).map Frame.request

theorem be16_append_inj {a b : UInt16} {x y : Bytes} (h : be16 a ++ x = be16 b ++ y) :
    a = b ∧ x = y := by
  obtain ⟨hb, hxy⟩ := List.append_inj h rfl
  refine ⟨?_, hxy⟩
  simp only [be16, List.cons.injEq, and_true] at hb
  have hread := readBe16_be16 a
  rw [hb.1, hb.2, readBe16_be16] at hread
  exact hread.symm

/-- Two bytes at the front of a buffer are the field that the stream has there. -/
theorem be16_field {hi lo : UInt8} {a : UInt16} {x y : Bytes}
    (h : hi :: lo :: x = be16 a ++ y) : readBe16 hi lo = a ∧ x = y := by
  simp only [be16, List.cons_append, List.nil_append, List.cons.injEq] at h
  obtain ⟨rfl, rfl, rfl⟩ := h
  exact ⟨readBe16_be16 a, rfl⟩

section Phases

/-- The bytes of the current frame that the decoder has taken off the buffer. -/
def consumed (c : Conn) : Bytes :=
  if c.cLen = 0 then []
  else be16 (UInt16.ofNat c.cLen) ++ if c.cCid = 0 then [] else be16 c.cCid

/-- The decoder is somewhere in the first of the frames `rest`; the bytes `fut` are yet to
arrive. -/
structure Synced (c : Conn) (fut : Bytes) (rest : List Frame) : Prop where
  bytes : consumed c ++ c.input ++ fut = stream rest
  len : c.cLen ≤ chunkSiz
  cid : c.cLen = 0 → c.cCid = 0

/-- With fewer bytes in the buffer no frame is complete. -/
def need (c : Conn) : ℕ := if c.cLen = 0 then 4 else if c.cCid = 0 then 2 else c.cLen

variable {c : Conn} {fut : Bytes} {rest : List Frame}

/-- Once the length is read, the frame is known to be there. -/
theorem Synced.head (h : Synced c fut rest) (hlen : 0 < c.cLen) :
    ∃ f rest', rest = f :: rest' ∧ f.payload.length = c.cLen ∧
      (if c.cCid = 0 then [] else be16 c.cCid) ++ c.input ++ fut =
        be16 f.cid ++ (f.payload ++ stream rest') := by
  have hb := h.bytes
  have hl := h.len
  unfold chunkSiz at hl
  rw [consumed, if_neg (by omega)] at hb
  cases rest with
  | nil => simp [be16] at hb
  | cons f rest' =>
    refine ⟨f, rest', rfl, ?_⟩
    rw [stream_cons, Frame.bytes, frame] at hb
    simp only [List.append_assoc] at hb
    obtain ⟨he, htail⟩ := be16_append_inj hb
    have hn := congrArg UInt16.toNat he
    rw [f.len_toNat, UInt16.toNat_ofNat'] at hn
    constructor
    · omega
    · simpa using htail

theorem readLen_synced (h : Synced c fut rest) :
    (readLen c = .wait ∧ c.cLen = 0 ∧ c.input.length < 2) ∨
    ∃ c', readLen c = .go c' ∧ Synced c' fut rest ∧ 0 < c'.cLen ∧
      c'.input.length ≤ c.input.length ∧ (c.low ≤ need c → c'.low ≤ need c') := by
  by_cases hz : c.cLen = 0
  · have hc := h.cid hz
    unfold readLen
    rw [if_pos ⟨hz, hc⟩]
    have hb := h.bytes
    rw [consumed, if_pos hz, List.nil_append] at hb
    cases hin : c.input with
    | nil => exact .inl ⟨rfl, hz, by simp⟩
    | cons hi l =>
      cases l with
      | nil => exact .inl ⟨rfl, hz, by simp⟩
      | cons lo input =>
        rw [hin] at hb
        cases rest with
        | nil => simp at hb
        | cons f rest' =>
          rw [stream_cons, Frame.bytes, frame] at hb
          simp only [List.append_assoc, List.cons_append] at hb
          obtain ⟨hread, htail⟩ := be16_field hb
          have hn := f.len_toNat
          have h4 := f.four_le
          have hle := f.le_chunk
          dsimp only
          rw [hread, hn, if_neg (by omega), if_neg (by omega)]
          refine .inr ⟨_, rfl, ⟨?_, hle, fun h0 => absurd h0 ?_⟩, ?_, ?_, fun _ => ?_⟩
          · simp only [consumed]
            rw [if_neg (by omega), hc, if_pos rfl, stream_cons, Frame.bytes, frame]
            simp [htail]
          · dsimp only
            omega
          · dsimp only
            omega
          · simp only [List.length_cons]
            omega
          · rw [need, if_neg (by dsimp only; omega), if_pos hc]
  · unfold readLen
    rw [if_neg fun hp => hz hp.1]
    exact .inr ⟨c, rfl, h, by omega, le_rfl, id⟩

theorem readCid_synced (h : Synced c fut rest) (hlen : 0 < c.cLen)
    (hcids : ∀ f ∈ rest, f.cid ≠ 0) (hlow : c.low ≤ need c) :
    (readCid c = .wait ∧ c.cCid = 0 ∧ c.input.length < 2) ∨
    ∃ c', readCid c = .go c' ∧ Synced c' fut rest ∧ c'.cLen = c.cLen ∧ c'.cCid ≠ 0 ∧
      c'.input.length ≤ c.input.length ∧ c'.low ≤ need c' := by
  unfold readCid
  by_cases hz : c.cCid = 0
  · rw [if_pos ⟨hlen, hz⟩]
    obtain ⟨f, rest', hrest, hpay, hb⟩ := h.head hlen
    rw [if_pos hz, List.nil_append] at hb
    cases hin : c.input with
    | nil => exact .inl ⟨rfl, hz, by simp⟩
    | cons hi l =>
      cases l with
      | nil => exact .inl ⟨rfl, hz, by simp⟩
      | cons lo input =>
        rw [hin] at hb
        simp only [List.cons_append] at hb
        obtain ⟨hread, htail⟩ := be16_field hb
        have hf : f.cid ≠ 0 := hcids f (by rw [hrest]; simp)
        dsimp only
        rw [hread]
        refine .inr ⟨_, rfl, ⟨?_, h.len, fun h0 => absurd h0 ?_⟩, rfl, hf, ?_, ?_⟩
        · simp only [consumed]
          rw [if_neg (by omega), if_neg hf, hrest, stream_cons, Frame.bytes, frame, hpay]
          simp [htail]
        · dsimp only
          omega
        · simp
          omega
        · rw [need, if_neg (by dsimp only; omega), if_neg hf]
  · rw [if_neg fun hp => hz hp.2]
    exact .inr ⟨c, rfl, h, rfl, hz, le_rfl, hlow⟩

/-- A complete payload is that of the current frame. -/
theorem payload_synced (h : Synced c fut rest) (hlen : 0 < c.cLen) (hcid : c.cCid ≠ 0)
    (hin : c.cLen ≤ c.input.length) : ∃ f rest', rest = f :: rest' ∧
      f.request = (c.cCid, c.input.take c.cLen) ∧
      Synced { c with cLen := 0, cCid := 0, input := c.input.drop c.cLen, low := 2 } fut rest' := by
  obtain ⟨f, rest', hrest, hpay, hb⟩ := h.head hlen
  rw [if_neg hcid, List.append_assoc] at hb
  obtain ⟨hc, htail⟩ := be16_append_inj hb
  have htake : c.input.take c.cLen = f.payload := by
    have := congrArg (List.take c.cLen) htail
    rwa [List.take_append_of_le_length hin, ← hpay, List.take_left, hpay] at this
  have hdrop : c.input.drop c.cLen ++ fut = stream rest' := by
    have := congrArg (List.drop c.cLen) htail
    rwa [List.drop_append_of_le_length hin, ← hpay, List.drop_left, hpay] at this
  refine ⟨f, rest', hrest, ?_, ?_, Nat.zero_le _, fun _ => rfl⟩
  · rw [htake, hc]
    rfl
  · simpa [consumed] using hdrop

/-- No frame is complete while the buffer is short. -/
theorem Synced.arrived_nil (h : Synced c fut rest) (hneed : c.input.length < need c) :
    arrived rest ((consumed c).length + c.input.length) = [] := by
  cases rest with
  | nil => rfl
  | cons f rest' =>
    have hlen := f.length_bytes
    have h4 := f.four_le
    unfold need at hneed
    have hshort : (consumed c).length + c.input.length < f.bytes.length := by
      by_cases hz : c.cLen = 0
      · rw [if_pos hz] at hneed
        rw [consumed, if_pos hz, List.length_nil]
        omega
      · obtain ⟨f', rest'', hrest, hpay, -⟩ := h.head (by omega)
        obtain ⟨rfl, -⟩ := List.cons.inj hrest
        rw [if_neg hz] at hneed
        rw [consumed, if_neg hz, List.length_append, length_be16]
        split at hneed
        · rename_i hc
          rw [if_pos hc, List.length_nil]
          omega
        · rename_i hc
          rw [if_neg hc, length_be16]
          omega
    rw [arrived, if_neg (by omega)]

end Phases

section Runs

variable {σ : Type*} (handler : Handler σ)

/-- What holds between two arrivals: a handler has given the connection up, or the frames
`done` are handled and the decoder waits inside the first of the others. -/
def Progress (fs : List Frame) (fut : Bytes) (x : Status × Link σ) : Prop :=
  (x.1 = .dropped ∧ false ∈ x.2.returns) ∨
  (x.1 = .waiting ∧ ∃ done rest, fs = done ++ rest ∧ x.2.dispatched = done.map Frame.request ∧
    Synced x.2.conn fut rest ∧ x.2.conn.low ≤ need x.2.conn ∧
    x.2.conn.input.length < need x.2.conn)

/-- One callback. Every turn of its loop that goes on has handled a frame. -/
theorem readCb_progress {fs : List Frame} {fut : Bytes} (hcids : ∀ f ∈ fs, f.cid ≠ 0)
    (fuel : ℕ) (l : Link σ) (done rest : List Frame) (hfs : fs = done ++ rest)
    (hd : l.dispatched = done.map Frame.request) (hs : Synced l.conn fut rest)
    (hlow : l.conn.low ≤ need l.conn) (hfuel : l.conn.input.length < fuel) :
    Progress fs fut (readCb handler fuel l) := by
  induction fuel generalizing l done rest with
  | zero => omega
  | succ fuel ih =>
    unfold readCb
    rcases readLen_synced hs with ⟨hw, hz, hin⟩ | ⟨c, hgo, hs', hlen, hle, hl⟩
    · rw [hw]
      refine .inr ⟨rfl, done, rest, hfs, hd, hs, hlow, ?_⟩
      rw [need, if_pos hz]
      dsimp only
      omega
    · rw [hgo]
      dsimp only
      have hrest : ∀ f ∈ rest, f.cid ≠ 0 := fun f hf => hcids f (by rw [hfs]; simp [hf])
      rcases readCid_synced hs' hlen hrest (hl hlow) with
        ⟨hw, hz, hin⟩ | ⟨c', hgo', hs'', hlen', hcid, hle', hl'⟩
      · rw [hw]
        refine .inr ⟨rfl, done, rest, hfs, hd, hs', hl hlow, ?_⟩
        rw [need, if_neg (by dsimp only; omega), if_pos hz]
        exact hin
      · rw [hgo']
        dsimp only
        rw [if_pos ⟨by omega, hcid⟩]
        split
        · rename_i hshort
          refine .inr ⟨rfl, done, rest, hfs, hd, hs'', hl', ?_⟩
          rw [need, if_neg (by dsimp only; omega), if_neg hcid]
          exact hshort
        · rename_i hfull
          obtain ⟨f, rest', hrest', hreq, hsync⟩ :=
            payload_synced hs'' (by omega) hcid (by omega)
          have hknown : (findCommand (c'.input.take c'.cLen)).isSome := by
            have hp := congrArg Prod.snd hreq
            dsimp only [Frame.request] at hp
            rw [← hp]
            exact f.known
          obtain ⟨cmd, hcmd⟩ := Option.isSome_iff_exists.mp hknown
          unfold runServerCommand
          rw [hcmd]
          dsimp only
          generalize handler cmd l.server c'.cCid ((c'.input.take c'.cLen).drop 4) = r
          obtain ⟨cr, s⟩ := r
          cases cr with
          | false => exact .inl ⟨rfl, by simp⟩
          | true =>
            refine ih _ (done ++ [f]) rest' (by rw [hfs, hrest']; simp) ?_ hsync ?_ ?_
            · simp [hd, hreq]
            · rw [need, if_pos rfl]
              dsimp only
              omega
            · simp only [List.length_drop]
              omega

theorem feed_concat (s : σ) (segs : List Bytes) (seg : Bytes) :
    feed handler s (segs ++ [seg]) = arrive handler (feed handler s segs) seg := by
  simp [feed]

theorem feed_progress {fs : List Frame} (hcids : ∀ f ∈ fs, f.cid ≠ 0) (s : σ)
    (segs : List Bytes) : ∀ fut, segs.flatten ++ fut = stream fs →
      Progress fs fut (feed handler s segs) := by
  induction segs using List.reverseRecOn with
  | nil =>
    intro fut hfut
    have hstart : Synced acceptedConn fut fs :=
      ⟨by simpa [consumed, acceptedConn] using hfut, Nat.zero_le _, fun _ => rfl⟩
    have hneed : acceptedConn.input.length < need acceptedConn := by decide
    exact .inr ⟨rfl, [], fs, rfl, rfl, hstart, le_rfl, hneed⟩
  | append_singleton segs seg ih =>
    intro fut hfut
    rw [List.flatten_append, List.append_assoc] at hfut
    simp only [List.flatten_cons, List.flatten_nil, List.append_nil] at hfut
    rw [feed_concat]
    have hp := ih (seg ++ fut) hfut
    generalize feed handler s segs = x at hp
    obtain ⟨st, l⟩ := x
    rcases hp with ⟨rfl, hr⟩ | ⟨rfl, done, rest, hfs, hd, hs, hlow, hneed⟩
    · exact .inl ⟨rfl, hr⟩
    · have hs' : Synced { l.conn with input := l.conn.input ++ seg } fut rest :=
        ⟨by simpa [consumed] using hs.bytes, hs.len, hs.cid⟩
      simp only [arrive]
      split
      · rename_i hshort
        exact .inr ⟨rfl, done, rest, hfs, hd, hs', hlow, Nat.lt_of_lt_of_le hshort hlow⟩
      · exact readCb_progress handler hcids _ _ done rest hfs hd hs' hlow
          (Nat.lt_succ_self _)

/-- Frames whose cids are not zero are decoded, whatever the arrivals. -/
theorem decodes_of_cids {fs : List Frame} {segs : List Bytes}
    (hsegs : segs.flatten = stream fs) (hcids : ∀ f ∈ fs, f.cid ≠ 0) (s : σ) :
    Decodes handler s fs segs := by
  intro k hr
  have hfut : (segs.take k).flatten ++ (segs.drop k).flatten = stream fs := by
    rw [← List.flatten_append, List.take_append_drop, hsegs]
  rcases feed_progress handler hcids s (segs.take k) _ hfut with
    ⟨-, hf⟩ | ⟨-, done, rest, hfs, hd, hs, -, hneed⟩
  · exact absurd hf hr
  · have hb := hs.bytes
    have hlen : (segs.take k).flatten.length = (stream done).length +
        ((consumed (feed handler s (segs.take k)).2.conn).length +
          (feed handler s (segs.take k)).2.conn.input.length) := by
      have h₁ := congrArg List.length hfut
      have h₂ := congrArg List.length hb
      rw [hfs, stream_append] at h₁
      simp only [List.length_append] at h₁ h₂
      omega
    rw [hd, hlen, hfs, arrived_append, hs.arrived_nil hneed, List.append_nil]

/-- The rule of the loop: what the phases ignore and every command keeps. -/
theorem readCb_rule {I : Link σ → Prop} (hconn : ∀ l c, I l → I { l with conn := c })
    (hrun : ∀ l buf, l.conn.cCid ≠ 0 → I l → I (runServerCommand handler l buf).2)
    (fuel : ℕ) (l : Link σ) (h : I l) : I (readCb handler fuel l).2 := by
  induction fuel generalizing l with
  | zero => exact h
  | succ fuel ih =>
    unfold readCb
    cases readLen l.conn with
    | wait => exact h
    | drop => exact h
    | go c =>
      dsimp only
      cases readCid c with
      | wait => exact hconn l c h
      | drop => exact hconn l c h
      | go c' =>
        dsimp only
        split
        · rename_i hc
          split
          · exact hconn l c' h
          · have hd := hrun { l with conn :=
              { c' with cLen := 0, input := c'.input.drop c'.cLen, low := 2 } }
              (c'.input.take c'.cLen) hc.2 (hconn l _ h)
            split
            · rename_i l' heq
              rw [heq] at hd
              exact hd
            · rename_i l' heq
              rw [heq] at hd
              exact ih _ (hconn l' _ hd)
        · exact ih _ (hconn l c' h)

theorem feed_rule {I : Link σ → Prop} (hconn : ∀ l c, I l → I { l with conn := c })
    (hrun : ∀ l buf, l.conn.cCid ≠ 0 → I l → I (runServerCommand handler l buf).2) (s : σ)
    (segs : List Bytes) (h : I ⟨acceptedConn, s, [], []⟩) : I (feed handler s segs).2 := by
  induction segs using List.reverseRecOn with
  | nil => exact h
  | append_singleton segs seg ih =>
    rw [feed_concat]
    generalize feed handler s segs = x at ih
    obtain ⟨st, l⟩ := x
    cases st with
    | waiting =>
      simp only [arrive]
      split
      · exact hconn l _ ih
      · exact readCb_rule handler hconn hrun _ _ (hconn l _ ih)
    | dropped => exact ih
    | spinning => exact ih

/-- A command is only run with a cid other than zero. -/
theorem feed_cids (s : σ) (segs : List Bytes) :
    ∀ x ∈ (feed handler s segs).2.dispatched, x.1 ≠ 0 := by
  apply feed_rule handler (I := fun l => ∀ x ∈ l.dispatched, x.1 ≠ 0)
  · intro l c h
    exact h
  · intro l buf hc h x hx
    have hx' : x ∈ l.dispatched ++ [(l.conn.cCid, buf)] := by
      unfold runServerCommand at hx
      dsimp only at hx
      split at hx
      · exact hx
      · exact hx
    rcases List.mem_append.mp hx' with hx' | hx'
    · exact h x hx'
    · rw [List.mem_singleton] at hx'
      rw [hx']
      exact hc
  · simp

/-- Handlers that keep every connection. -/
def keepAll : Handler σ := fun _ s _ _ => (true, s)

theorem feed_keepAll (s : σ) (segs : List Bytes) : false ∉ (feed keepAll s segs).2.returns := by
  apply feed_rule keepAll (I := fun l => false ∉ l.returns)
  · intro l c h
    exact h
  · intro l buf _ h
    unfold runServerCommand
    dsimp only
    split
    · simpa [keepAll] using h
    · exact h
  · simp

/-- Requests are decoded for all handlers exactly if no client uses the cid 0, which the
decoder takes for a cid it has not read. -/
theorem decodes_iff_cids (fs : List Frame) (segs : List Bytes)
    (hsegs : segs.flatten = stream fs) (s : σ) :
    (∀ handler : Handler σ, Decodes handler s fs segs) ↔ ∀ f ∈ fs, f.cid ≠ 0 := by
  constructor
  · intro h f hf
    have hd := h keepAll segs.length (feed_keepAll s _)
    have hall : arrived fs (stream fs).length = fs := by
      simpa [arrived] using arrived_append fs [] 0
    rw [List.take_length, hsegs, hall] at hd
    apply feed_cids keepAll s segs f.request
    rw [hd]
    exact List.mem_map_of_mem hf
  · intro hcids handler
    exact decodes_of_cids handler hsegs hcids s

def listFrame (cid : UInt16) : Frame := ⟨cid, text "LIST", by decide, by decide, by decide⟩

theorem listFrame_decodes :
    (∀ handler : Handler Unit,
      Decodes handler () [listFrame 7, listFrame 8] [[0], [4, 0, 7, 76, 73, 83], [84, 0, 4],
        [0, 8, 76, 73, 83, 84]]) ↔ ∀ f ∈ [listFrame 7, listFrame 8], f.cid ≠ 0 :=
  decodes_iff_cids _ _ (by decide) ()

/-- A request with the cid 0 is not handed over when it has arrived. -/
theorem listFrame_lost : ¬ ∀ (fs : List Frame) (segs : List Bytes) (handler : Handler Unit),
    segs.flatten = stream fs → Decodes handler () fs segs := by
  intro h
  have hd := h [listFrame 0] [stream [listFrame 0]] keepAll (by decide) 1 (by decide)
  revert hd
  decide

end Runs

end UbervisorDecoding
