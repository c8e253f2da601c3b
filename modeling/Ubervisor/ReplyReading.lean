import Ubervisor.Chunks
import Ubervisor.Sockets
import Mathlib.Data.Nat.Bitwise

/-! # Reading replies

`read_reply` of the client, against the chunks that `send_message` writes. The header of a
chunk is read by two calls of `read`, its payload by a loop. -/
namespace UbervisorReplyReading

open UbervisorValues
open UbervisorChunks
open UbervisorSockets

/-- The loop of `read_reply`, with what it has stored so far and `*buf_siz`. A turn of the
loop takes at least four bytes, so that the fuel suffices. -/
def readChunks : ℕ → Socket UInt8 → Bytes → ℕ → Option (Bytes × ℕ × Socket UInt8)
  | 0, _, _, _ => none
  | fuel + 1, sock, ret, bufSiz =>
    match sock.read 2 with
    | ([l₁, l₀], sock) =>
      match sock.read 2 with
      -- the cid is not looked at
      | ([_, _], sock) =>
        let len := (readBe16 l₁ l₀).toNat
        if len = 0 then none
        else
          let cont := len &&& chunkExt = chunkExt
          let len := if cont then len - chunkExt else len
          let (data, sock) := sock.collect len len
          if data.length < len then none
          else if cont then readChunks fuel sock (ret ++ data) (bufSiz + len)
          else some (ret ++ data, bufSiz + len, sock)
      | _ => none
    | _ => none

/-- `read_reply`: the buffer, its size and what is left on the socket, or `NULL`. -/
def readReply (sock : Socket UInt8) : Option (Bytes × ℕ × Socket UInt8) :=
  readChunks (sock.pending.length + 1) sock [] 0

/-- The bytes of a list of chunks. -/
def chunksBytes (cid : UInt16) (cs : List (Bool × Bytes)) : Bytes :=
  cs.flatMap fun c => frame (chunkHeader c.1 c.2) cid c.2

/-- The sizes of the payloads of the chunks. -/
def chunkSizes (cs : List (Bool × Bytes)) : List ℕ := cs.map fun c => c.2.length

/-- A message cut into chunks as the format documents it: all but the last one are marked as
continued, none is empty and none has the reserved bit set. -/
structure Chunked (m : Bytes) (cs : List (Bool × Bytes)) : Prop where
  whole : (cs.map Prod.snd).flatten = m
  marks : cs.map Prod.fst = List.replicate (cs.length - 1) true ++ [false]
  nonempty : ∀ c ∈ cs, c.2 ≠ []
  small : ∀ c ∈ cs, c.2.length ≤ chunkSiz
  size : ∀ c ∈ cs, (chunkHeader c.1 c.2).toNat &&& chunkSiz = c.2.length
  ext : ∀ c ∈ cs, ((chunkHeader c.1 c.2).toNat &&& chunkExt = chunkExt ↔ c.1 = true)
  reserved : ∀ c ∈ cs, (chunkHeader c.1 c.2).toNat &&& chunkReserved = 0

section Headers

variable {more : Bool} {b : Bytes}

/-- No chunk is too long, and one that is continued is full. -/
def Fits (c : Bool × Bytes) : Prop :=
  c.2.length ≤ chunkSiz ∧ (c.1 = true → c.2.length = chunkSiz)

theorem chunkHeader_toNat (h : Fits (more, b)) :
    (chunkHeader more b).toNat = (if more then chunkExt else 0) + b.length := by
  obtain ⟨hle, hfull⟩ := h
  unfold chunkSiz at hle hfull
  unfold chunkHeader
  rw [UInt16.toNat_ofNat']
  cases more with
  | true =>
    have hlen := hfull rfl
    dsimp only at hlen
    rw [hlen]
    decide
  | false =>
    dsimp only at hle
    simp only [Bool.false_eq_true, if_false]
    omega

theorem chunkHeader_bit (h : Fits (more, b)) :
    (chunkHeader more b).toNat &&& chunkExt = more.toNat * chunkExt := by
  have hle := h.1
  unfold chunkSiz at hle
  dsimp only at hle
  have hbit : ((chunkHeader more b).toNat).testBit 15 = more := by
    rw [chunkHeader_toNat h, Nat.testBit_eq_decide_div_mod_eq, chunkExt]
    cases more with
    | true =>
      rw [if_pos rfl]
      exact decide_eq_true (by omega)
    | false =>
      rw [if_neg Bool.false_ne_true]
      exact decide_eq_false (by omega)
  change _ &&& 2 ^ 15 = _ * 2 ^ 15
  rw [Nat.and_two_pow, hbit]

theorem chunkHeader_ext (h : Fits (more, b)) :
    (chunkHeader more b).toNat &&& chunkExt = chunkExt ↔ more = true := by
  rw [chunkHeader_bit h]
  cases more <;> decide

theorem chunkHeader_size (h : Fits (more, b)) :
    (chunkHeader more b).toNat &&& chunkSiz = b.length := by
  have hle := h.1
  unfold chunkSiz at hle
  dsimp only at hle
  rw [chunkHeader_toNat h, and_chunkSiz, chunkExt]
  split <;> omega

theorem chunkHeader_reserved (h : Fits (more, b)) :
    (chunkHeader more b).toNat &&& chunkReserved = 0 := by
  have hle := h.1
  unfold chunkSiz at hle
  dsimp only at hle
  have hbit : ((chunkHeader more b).toNat).testBit 14 = false := by
    rw [chunkHeader_toNat h, Nat.testBit_eq_decide_div_mod_eq, chunkExt]
    refine decide_eq_false ?_
    split <;> omega
  change _ &&& 2 ^ 14 = 0
  rw [Nat.and_two_pow, hbit]
  rfl

end Headers

section Messages

variable {m : Bytes} {fuel : ℕ}

theorem messageChunks_whole (h : m.length < fuel) :
    ((messageChunks fuel m).map Prod.snd).flatten = m := by
  induction fuel generalizing m with
  | zero => omega
  | succ fuel ih =>
    unfold messageChunks
    split
    · rename_i hlong
      have hrest := ih (m := m.drop chunkSiz) (by
        rw [List.length_drop]
        unfold chunkSiz at hlong ⊢
        omega)
      rw [List.map_cons, List.flatten_cons, hrest, List.take_append_drop]
    · simp

theorem messageChunks_fits (h : m.length < fuel) : ∀ c ∈ messageChunks fuel m, Fits c := by
  induction fuel generalizing m with
  | zero => omega
  | succ fuel ih =>
    unfold messageChunks
    split
    · rename_i hlong
      have hlen : (m.take chunkSiz).length = chunkSiz := by
        rw [List.length_take]
        omega
      have hpos : 0 < chunkSiz := by decide
      intro c hc
      rcases List.mem_cons.mp hc with rfl | hc
      · exact ⟨hlen.le, fun _ => hlen⟩
      · refine ih (m := m.drop chunkSiz) ?_ c hc
        rw [List.length_drop]
        omega
    · rename_i hshort
      intro c hc
      rw [List.mem_singleton] at hc
      subst hc
      exact ⟨Nat.not_lt.mp hshort, fun hf => absurd hf Bool.false_ne_true⟩

theorem messageChunks_nonempty (hm : m ≠ []) : ∀ c ∈ messageChunks fuel m, c.2 ≠ [] := by
  induction fuel generalizing m with
  | zero => exact fun _ hc => nomatch hc
  | succ fuel ih =>
    unfold messageChunks
    split
    · rename_i hlong
      have hpos : 0 < chunkSiz := by decide
      intro c hc
      rcases List.mem_cons.mp hc with rfl | hc
      · intro he
        rcases List.take_eq_nil_iff.mp he with hz | he
        · omega
        · exact hm he
      · refine ih (m := m.drop chunkSiz) (fun he => ?_) c hc
        have := List.drop_eq_nil_iff.mp he
        omega
    · intro c hc
      rw [List.mem_singleton] at hc
      subst hc
      exact hm

theorem messageChunks_marks (h : m.length < fuel) : (messageChunks fuel m).map Prod.fst =
    List.replicate ((messageChunks fuel m).length - 1) true ++ [false] := by
  induction fuel generalizing m with
  | zero => omega
  | succ fuel ih =>
    unfold messageChunks
    split
    · rename_i hlong
      have hrest := ih (m := m.drop chunkSiz) (by
        rw [List.length_drop]
        unfold chunkSiz at hlong ⊢
        omega)
      have hne : (messageChunks fuel (m.drop chunkSiz)).length ≠ 0 := by
        intro he
        rw [List.length_eq_zero_iff.mp he] at hrest
        simp at hrest
      rw [List.map_cons, hrest, List.length_cons, Nat.add_sub_cancel, ← List.cons_append,
        ← List.replicate_succ, Nat.sub_add_cancel (by omega)]
    · rfl

theorem messageChunks_chunked (hm : m ≠ []) : Chunked m (messageChunks (m.length + 1) m) where
  whole := messageChunks_whole (Nat.lt_succ_self _)
  marks := messageChunks_marks (Nat.lt_succ_self _)
  nonempty := messageChunks_nonempty hm
  small c hc := (messageChunks_fits (Nat.lt_succ_self _) c hc).1
  size c hc := chunkHeader_size (messageChunks_fits (Nat.lt_succ_self _) c hc)
  ext c hc := chunkHeader_ext (messageChunks_fits (Nat.lt_succ_self _) c hc)
  reserved c hc := chunkHeader_reserved (messageChunks_fits (Nat.lt_succ_self _) c hc)

end Messages

section Reading

variable {sizes : List ℕ} {rest ret b m : Bytes} {cid : UInt16} {more : Bool} {fuel siz : ℕ}

/-- A two-byte field at the front of the stream. -/
theorem read_field (n : UInt16) (rest : Bytes) (h : 2 ≤ sizes.headD 2) :
    Socket.read 2 ⟨be16 n ++ rest, sizes⟩ = (be16 n, ⟨rest, sizes.tail⟩) :=
  read_full (x := be16 n) h

theorem readChunks_short {sock : Socket UInt8} (h : ¬ Full [2, 2] sock.sizes) :
    readChunks fuel sock ret siz = none := by
  cases fuel with
  | zero => rfl
  | succ fuel =>
    obtain ⟨p, sizes⟩ := sock
    unfold readChunks
    dsimp only at h ⊢
    split
    · rename_i l₁ l₀ sock' hlen
      have hfirst : 2 ≤ sizes.headD 2 := by
        by_contra hs
        have := read_short (p := p) hs
        rw [hlen] at this
        simp at this
      have hsizes : sock'.sizes = sizes.tail := by
        rw [show sock' = (Socket.read 2 ⟨p, sizes⟩).2 by rw [hlen]]
        rfl
      split
      · rename_i c₁ c₀ sock'' hcid
        refine absurd ⟨hfirst, ?_, trivial⟩ h
        by_contra hs
        obtain ⟨p', sizes'⟩ := sock'
        dsimp only at hsizes
        rw [← hsizes] at hs
        have := read_short (p := p') hs
        rw [hcid] at this
        simp at this
      · rfl
    · rfl

/-- One turn of the loop. -/
theorem readChunks_turn (cid : UInt16) (fuel : ℕ) (ret : Bytes) (siz : ℕ) (rest : Bytes)
    (hc : Fits (more, b)) (hb : b ≠ []) (hpos : ∀ k ∈ sizes, 0 < k)
    (hfull : Full [2, 2] sizes) :
    readChunks (fuel + 1) ⟨frame (chunkHeader more b) cid b ++ rest, sizes⟩ ret siz =
      if more then
        readChunks fuel ⟨rest, afterLoop b.length (sizes.drop 2)⟩ (ret ++ b) (siz + b.length)
      else some (ret ++ b, siz + b.length, ⟨rest, afterLoop b.length (sizes.drop 2)⟩) := by
  have hlen := chunkHeader_toNat hc
  have hext := chunkHeader_ext hc
  have hbpos := List.length_pos_iff.mpr hb
  have hdrop : sizes.tail.tail = sizes.drop 2 := by rcases sizes with _ | ⟨_, _ | _⟩ <;> rfl
  have hloop : Socket.collect b.length b.length ⟨b ++ rest, sizes.drop 2⟩ =
      (b, ⟨rest, afterLoop b.length (sizes.drop 2)⟩) :=
    collect_eq le_rfl fun k hk => hpos k (List.mem_of_mem_drop hk)
  have h₁ := read_field (chunkHeader more b) (be16 cid ++ (b ++ rest)) hfull.1
  have h₂ := read_field cid (b ++ rest) hfull.2.1
  have hsize : (if (chunkHeader more b).toNat &&& chunkExt = chunkExt then
      (chunkHeader more b).toNat - chunkExt else (chunkHeader more b).toNat) = b.length := by
    rw [hlen] at hext ⊢
    cases more with
    | true =>
      rw [if_pos (hext.mpr rfl), if_pos rfl, Nat.add_sub_cancel_left]
    | false =>
      rw [if_neg fun h => Bool.false_ne_true (hext.mp h), if_neg Bool.false_ne_true, Nat.zero_add]
  rw [readChunks, frame, List.append_assoc, List.append_assoc, h₁]
  dsimp only [be16] at h₂ ⊢
  rw [h₂, readBe16_be16]
  dsimp only
  rw [hsize, if_neg (by omega), hdrop, hloop]
  dsimp only
  rw [if_neg (lt_irrefl _)]
  simp only [hext]

theorem readChunks_eq (cid : UInt16) (rest ret : Bytes) (siz : ℕ) (hm : m ≠ []) {n : ℕ}
    (hn : m.length < n) (hpos : ∀ k ∈ sizes, 0 < k) (hfuel : (messageChunks n m).length ≤ fuel) :
    readChunks fuel ⟨chunksBytes cid (messageChunks n m) ++ rest, sizes⟩ ret siz =
      if HeadersFull [2, 2] (chunkSizes (messageChunks n m)) sizes then
        some (ret ++ m, siz + m.length,
          ⟨rest, afterFrames [2, 2] (chunkSizes (messageChunks n m)) sizes⟩)
      else none := by
  induction n generalizing m sizes ret siz fuel with
  | zero => omega
  | succ n ih =>
    have hfits := messageChunks_fits hn
    have hnonempty : ∀ c ∈ messageChunks (n + 1) m, c.2 ≠ [] := messageChunks_nonempty hm
    unfold messageChunks at hfits hnonempty hfuel ⊢
    split at hfits
    · rename_i hlong
      rw [if_pos hlong] at hfuel hnonempty ⊢
      have hlen : (m.take chunkSiz).length = chunkSiz := by
        rw [List.length_take]
        omega
      have hpos' : 0 < chunkSiz := by decide
      have hne : m.drop chunkSiz ≠ [] := fun he => by
        have := List.drop_eq_nil_iff.mp he
        omega
      by_cases hfull : Full [2, 2] sizes
      · cases fuel with
        | zero => simp at hfuel
        | succ fuel =>
          have hless : (m.drop chunkSiz).length < n := by
            rw [List.length_drop]
            omega
          have hpos'' : ∀ k ∈ afterLoop chunkSiz (sizes.drop 2), 0 < k :=
            afterLoop_pos fun k hk => hpos k (List.mem_of_mem_drop hk)
          have hturn := readChunks_turn cid fuel ret siz
            (chunksBytes cid (messageChunks n (m.drop chunkSiz)) ++ rest)
            (hfits _ List.mem_cons_self) (hnonempty _ List.mem_cons_self) hpos hfull
          rw [if_pos rfl, hlen, ih _ _ hne hless hpos'' (by simpa using hfuel)] at hturn
          have hsizes : chunkSizes ((true, m.take chunkSiz) :: messageChunks n (m.drop chunkSiz)) =
              chunkSiz :: chunkSizes (messageChunks n (m.drop chunkSiz)) := by
            rw [chunkSizes, List.map_cons, hlen]
            rfl
          have hiff : ∀ sizes', HeadersFull [2, 2] sizes' (afterLoop chunkSiz (sizes.drop 2)) ↔
              HeadersFull [2, 2] (chunkSiz :: sizes') sizes :=
            fun _ => ⟨fun h => ⟨hfull, h⟩, fun h => h.2⟩
          have hsiz : siz + chunkSiz + (m.drop chunkSiz).length = siz + m.length := by
            rw [List.length_drop]
            omega
          rw [hsizes, chunksBytes, List.flatMap_cons, List.append_assoc]
          change readChunks (fuel + 1) ⟨_ ++ (chunksBytes cid _ ++ rest), sizes⟩ ret siz = _
          rw [hturn, hsiz, List.append_assoc ret, List.take_append_drop]
          simp only [hiff]
          rfl
      · rw [readChunks_short hfull, if_neg fun h => hfull h.1]
    · rename_i hshort
      rw [if_neg hshort] at hfuel hnonempty ⊢
      by_cases hfull : Full [2, 2] sizes
      · cases fuel with
        | zero => simp at hfuel
        | succ fuel =>
          have hturn := readChunks_turn cid fuel ret siz rest (hfits _ List.mem_cons_self)
            (hnonempty _ List.mem_cons_self) hpos hfull
          rw [if_neg Bool.false_ne_true] at hturn
          rw [chunksBytes, List.flatMap_cons, List.flatMap_nil, List.append_nil, hturn]
          rw [if_pos ⟨hfull, trivial⟩]
          rfl
      · rw [readChunks_short hfull, if_neg fun h => hfull h.1]

theorem chunksBytes_length (cid : UInt16) (cs : List (Bool × Bytes)) :
    cs.length ≤ (chunksBytes cid cs).length := by
  induction cs with
  | nil => exact Nat.zero_le _
  | cons c cs ih =>
    have hframe : (frame (chunkHeader c.1 c.2) cid c.2).length = 2 + 2 + c.2.length := by
      rw [frame, List.length_append, List.length_append, length_be16, length_be16]
    rw [chunksBytes, List.flatMap_cons, List.length_append, List.length_cons, hframe]
    rw [chunksBytes] at ih
    omega

/-- A reply is read back if its headers are, and not at all otherwise. -/
theorem readReply_eq (hm : m ≠ []) (hpos : ∀ k ∈ sizes, 0 < k) :
    readReply ⟨messageBytes cid m ++ rest, sizes⟩ =
      if HeadersFull [2, 2] (chunkSizes (messageChunks (m.length + 1) m)) sizes then
        some (m, m.length,
          ⟨rest, afterFrames [2, 2] (chunkSizes (messageChunks (m.length + 1) m)) sizes⟩)
      else none := by
  have hlen := chunksBytes_length cid (messageChunks (m.length + 1) m)
  have hfuel :
      (messageChunks (m.length + 1) m).length ≤ (messageBytes cid m ++ rest).length + 1 := by
    rw [List.length_append]
    change _ ≤ (chunksBytes cid _).length + _ + 1
    omega
  have hread := readChunks_eq cid rest [] 0 hm (Nat.lt_succ_self _) hpos hfuel
  rw [List.nil_append, Nat.zero_add] at hread
  exact hread

/-- An empty message is one chunk of length 0, which the client takes for a failure. -/
theorem readReply_empty : readReply ⟨messageBytes cid [] ++ rest, sizes⟩ = none := by
  have hbytes : messageBytes cid [] = be16 0 ++ be16 cid := by
    simp [messageBytes, messageChunks, chunkHeader, frame]
  unfold readReply
  by_cases hfull : Full [2, 2] sizes
  · have h₁ := read_field 0 (be16 cid ++ rest) hfull.1
    have h₂ := read_field cid rest hfull.2.1
    rw [readChunks, hbytes, List.append_assoc, h₁]
    dsimp only [be16] at h₂ ⊢
    rw [h₂]
    rfl
  · exact readChunks_short hfull

/-- A reply is well chunked, and `read_reply` gives it back with its size and leaves the bytes
after it, however the payloads of the chunks are cut. -/
theorem reply_roundTrip (cid : UInt16) {m : Bytes} (hm : m ≠ []) :
    ∃ cs, messageBytes cid m = chunksBytes cid cs ∧ Chunked m cs ∧
      ∀ (rest : Bytes) (sizes : List ℕ), (∀ k ∈ sizes, 0 < k) →
        HeadersFull [2, 2] (chunkSizes cs) sizes → ∃ left,
          readReply ⟨messageBytes cid m ++ rest, sizes⟩ = some (m, m.length, ⟨rest, left⟩) := by
  refine ⟨messageChunks (m.length + 1) m, rfl, messageChunks_chunked hm, ?_⟩
  intro rest sizes hpos hfull
  exact ⟨_, (readReply_eq hm hpos).trans (if_pos hfull)⟩

theorem okReply_roundTrip : ∃ cs, messageBytes 7 (text "ok") = chunksBytes 7 cs ∧
    Chunked (text "ok") cs ∧
      ∀ (rest : Bytes) (sizes : List ℕ), (∀ k ∈ sizes, 0 < k) →
        HeadersFull [2, 2] (chunkSizes cs) sizes → ∃ left,
          readReply ⟨messageBytes 7 (text "ok") ++ rest, sizes⟩ =
            some (text "ok", (text "ok").length, ⟨rest, left⟩) :=
  reply_roundTrip 7 (by decide)

/-- Two calls of `read_reply` return the same message. -/
def SameReply (x y : Option (Bytes × ℕ × Socket UInt8)) : Prop :=
  ∃ m siz, (∃ left, x = some (m, siz, left)) ∧ ∃ left, y = some (m, siz, left)

/-- The client reads the same reply in two ways exactly if both give it the headers whole. -/
theorem sameReply_iff (cid : UInt16) (m rest : Bytes) {sizes₁ sizes₂ : List ℕ}
    (hpos₁ : ∀ k ∈ sizes₁, 0 < k) (hpos₂ : ∀ k ∈ sizes₂, 0 < k) :
    SameReply (readReply ⟨messageBytes cid m ++ rest, sizes₁⟩)
        (readReply ⟨messageBytes cid m ++ rest, sizes₂⟩) ↔
      m ≠ [] ∧ HeadersFull [2, 2] (chunkSizes (messageChunks (m.length + 1) m)) sizes₁ ∧
        HeadersFull [2, 2] (chunkSizes (messageChunks (m.length + 1) m)) sizes₂ := by
  by_cases hm : m = []
  · subst hm
    constructor
    · rintro ⟨m, siz, ⟨left, hx⟩, -⟩
      rw [readReply_empty] at hx
      cases hx
    · exact fun h => absurd rfl h.1
  · rw [readReply_eq hm hpos₁, readReply_eq hm hpos₂]
    constructor
    · rintro ⟨m', siz, ⟨left₁, hx⟩, ⟨left₂, hy⟩⟩
      refine ⟨hm, ?_, ?_⟩
      · by_contra hshort
        rw [if_neg hshort] at hx
        cases hx
      · by_contra hshort
        rw [if_neg hshort] at hy
        cases hy
    · rintro ⟨-, h₁, h₂⟩
      rw [if_pos h₁, if_pos h₂]
      exact ⟨m, m.length, ⟨_, rfl⟩, ⟨_, rfl⟩⟩

theorem okReply_same_iff :
    SameReply (readReply ⟨messageBytes 7 (text "ok") ++ [], [2, 2, 1]⟩)
        (readReply ⟨messageBytes 7 (text "ok") ++ [], [1]⟩) ↔
      text "ok" ≠ [] ∧
        HeadersFull [2, 2] (chunkSizes (messageChunks ((text "ok").length + 1) (text "ok")))
          [2, 2, 1] ∧
        HeadersFull [2, 2] (chunkSizes (messageChunks ((text "ok").length + 1) (text "ok"))) [1] :=
  sameReply_iff 7 (text "ok") [] (by decide) (by decide)

/-- A length field that arrives in two pieces makes the client give up. -/
theorem okReply_split : ¬ ∀ (cid : UInt16) (m rest : Bytes) (sizes₁ sizes₂ : List ℕ), m ≠ [] →
    (∀ k ∈ sizes₁, 0 < k) → (∀ k ∈ sizes₂, 0 < k) →
      SameReply (readReply ⟨messageBytes cid m ++ rest, sizes₁⟩)
        (readReply ⟨messageBytes cid m ++ rest, sizes₂⟩) := by
  intro h
  obtain ⟨m, siz, -, left, hy⟩ := h 7 (text "ok") [] [] [1] (by decide) (by decide) (by decide)
  have hnone : readReply ⟨messageBytes 7 (text "ok") ++ [], [1]⟩ = none := by decide
  rw [hnone] at hy
  cases hy

end Reading

end UbervisorReplyReading
