import Ubervisor.Values

/-! # The chunk format

Length field, command id and payload, as sent in both directions. The two most significant
bits of the length field do not count towards the size of a chunk. -/
namespace UbervisorChunks

open UbervisorValues

def chunkExt : ℕ := 0x8000
def chunkReserved : ℕ := 0x4000
def chunkSiz : ℕ := 0x3fff

/-- Length field, `cid` and payload on the wire. -/
def frame (len : UInt16) (cid : UInt16) (payload : Bytes) : Bytes :=
  be16 len ++ be16 cid ++ payload

/-- The pieces `send_message` cuts a message into, with their `CHUNKEXT` flag: a `do while`
loop, so that an empty message is one empty chunk. -/
def messageChunks : ℕ → Bytes → List (Bool × Bytes)
  | 0, _ => []
  | fuel + 1, ret =>
    if ret.length > chunkSiz then
      (true, ret.take chunkSiz) :: messageChunks fuel (ret.drop chunkSiz)
    else [(false, ret)]

def chunkHeader (more : Bool) (payload : Bytes) : UInt16 :=
  UInt16.ofNat (if more then chunkExt ||| chunkSiz else payload.length)

/-- The bytes `send_message` appends to the output buffer of a connection. -/
def messageBytes (cid : UInt16) (ret : Bytes) : Bytes :=
  (messageChunks (ret.length + 1) ret).flatMap fun c => frame (chunkHeader c.1 c.2) cid c.2

/-- The frame `send_notification` writes: the length is cut to 16 bits. -/
def notificationFrame (cid : UInt16) (ret : Bytes) : Bytes :=
  frame (UInt16.ofNat ret.length) cid ret

/-- A chunk as the format documents it. -/
structure Chunk where
  more : Bool
  cid : UInt16
  payload : Bytes
  deriving DecidableEq

/-- Split one documented chunk off a byte stream. -/
def readChunk : Bytes → Option (Chunk × Bytes)
  | l₁ :: l₀ :: c₁ :: c₀ :: rest =>
    let len := (readBe16 l₁ l₀).toNat
    let size := len &&& chunkSiz
    if rest.length < size then none
    else some (⟨len &&& chunkExt ≠ 0, readBe16 c₁ c₀, rest.take size⟩, rest.drop size)
  | _ => none

theorem and_chunkSiz (n : ℕ) : n &&& chunkSiz = n % 16384 := Nat.and_two_pow_sub_one_eq_mod n 14

theorem and_chunkExt_of_lt {n : ℕ} (h : n < 32768) : n &&& chunkExt = 0 := by
  have : n &&& 2 ^ 15 = 0 := by
    apply Nat.eq_of_testBit_eq
    intro i
    rw [Nat.testBit_and, Nat.testBit_two_pow, Nat.zero_testBit]
    by_cases hi : 15 = i
    · subst hi
      simp [Nat.testBit_lt_two_pow (show n < 2 ^ 15 from h)]
    · simp [hi]
  exact this

theorem readChunk_frame (len cid : UInt16) (b : Bytes) :
    readChunk (frame len cid b) =
      if b.length < len.toNat &&& chunkSiz then none
      else some (⟨len.toNat &&& chunkExt ≠ 0, cid, b.take (len.toNat &&& chunkSiz)⟩,
        b.drop (len.toNat &&& chunkSiz)) := by
  simp only [frame, be16, List.cons_append, List.nil_append, readChunk]
  rw [readBe16_be16, readBe16_be16]

/-- A payload of at most `CHUNKSIZ` bytes is read back from its frame, whatever follows. -/
theorem readChunk_notificationFrame {ret : Bytes} (h : ret.length ≤ chunkSiz) (cid : UInt16)
    (rest : Bytes) :
    readChunk (notificationFrame cid ret ++ rest) = some (⟨false, cid, ret⟩, rest) := by
  unfold chunkSiz at h
  have hl : (UInt16.ofNat ret.length).toNat = ret.length := by
    rw [UInt16.toNat_ofNat']
    omega
  have hs : ret.length &&& chunkSiz = ret.length := by
    rw [and_chunkSiz]
    omega
  have he : ret.length &&& chunkExt = 0 := and_chunkExt_of_lt (by omega)
  have hf : notificationFrame cid ret ++ rest =
      frame (UInt16.ofNat ret.length) cid (ret ++ rest) := List.append_assoc ..
  rw [hf, readChunk_frame, hl, hs, he]
  simp

end UbervisorChunks
