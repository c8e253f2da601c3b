import Ubervisor.PythonClient

/-! # The format of the chunks, as the clients read it

A length field has fourteen bits of size, a reserved bit that has no meaning yet, and the bit that
says that the message goes on. Both clients read messages of such chunks. -/
namespace UbervisorChunkFormat

open UbervisorValues
open UbervisorChunks
open UbervisorSockets
open UbervisorReplyReading
open UbervisorPythonClient

section Format

/-- A chunk on the wire, with any length field. -/
structure WireChunk where
  lengthField : UInt16
  cid : UInt16
  payload : Bytes
  size : payload.length = lengthField.toNat &&& chunkSiz

def continues (n : UInt16) : Prop := n.toNat &&& chunkExt ≠ 0

instance (n : UInt16) : Decidable (continues n) := inferInstanceAs (Decidable (_ ≠ 0))

def WireChunk.bytes (c : WireChunk) : Bytes := frame c.lengthField c.cid c.payload

def stream (cs : List WireChunk) : Bytes := cs.flatMap WireChunk.bytes

def message (cs : List WireChunk) : Bytes := cs.flatMap WireChunk.payload

/-- The length fields of a message, up to the first that does not continue it. -/
inductive IsMessage : List UInt16 → Prop where
  | last {n} : ¬ continues n → IsMessage [n]
  | more {n ns} : continues n → IsMessage ns → IsMessage (n :: ns)

/-- Both clients get the message, and leave what follows it on the socket. -/
def Recovered (cs : List WireChunk) (rest : Bytes) : Prop :=
  readReply ⟨stream cs ++ rest, []⟩ = some (message cs, (message cs).length, ⟨rest, []⟩) ∧
    ∃ cid, wait some ⟨stream cs ++ rest, []⟩ = (.ok (cid, message cs), ⟨rest, []⟩)

/-- No reserved bit is set, and the last chunk is not empty. -/
def Plain (ns : List UInt16) : Prop :=
  (∀ n ∈ ns, n.toNat &&& chunkReserved = 0) ∧ ns.getLast? ≠ some 0

end Format

section Fields

variable {n : UInt16}

theorem and_reserved (m : ℕ) : m &&& chunkReserved = m / 16384 % 2 * 16384 := by
  change m &&& 2 ^ 14 = m / 2 ^ 14 % 2 * 2 ^ 14
  rw [Nat.and_two_pow, Nat.toNat_testBit]

theorem and_ext (m : ℕ) : m &&& chunkExt = m / 32768 % 2 * 32768 := by
  change m &&& 2 ^ 15 = m / 2 ^ 15 % 2 * 2 ^ 15
  rw [Nat.and_two_pow, Nat.toNat_testBit]

/-- The length that the C client takes a field for. -/
def lengthOf (n : UInt16) : ℕ :=
  if n.toNat &&& chunkExt = chunkExt then n.toNat - chunkExt else n.toNat

theorem ext_iff : n.toNat &&& chunkExt = chunkExt ↔ continues n := by
  have hn := n.toNat_lt
  rw [continues, and_ext, chunkExt]
  omega

/-- The reserved bit counts. -/
theorem lengthOf_eq (n : UInt16) :
    lengthOf n = (n.toNat &&& chunkSiz) + (n.toNat &&& chunkReserved) := by
  have hn := n.toNat_lt
  rw [lengthOf, and_ext, and_reserved, and_chunkSiz, chunkExt]
  split <;> omega

end Fields

section Reading

variable {fuel siz : ℕ} {p ret m : Bytes}

theorem collect_complete {α : Type*} {k n : ℕ} (x : List α) (hk : n ≤ k) :
    Socket.collect k n ⟨x, []⟩ = (x.take n, ⟨x.drop n, []⟩) := by
  by_cases hn : n ≤ x.length
  · have hlen : (x.take n).length = n := List.length_take_of_le hn
    have hloop : Socket.collect k (x.take n).length ⟨x.take n ++ x.drop n, []⟩ =
        (x.take n, ⟨x.drop n, []⟩) := collect_eq (by omega) nofun
    rwa [hlen, List.take_append_drop] at hloop
  · -- the second read comes back empty
    have hread : Socket.read n ⟨x, []⟩ = (x, ⟨[], []⟩) := by
      simp only [Socket.read, List.headD_nil, min_self, List.tail_nil]
      rw [List.take_of_length_le (by omega), List.drop_of_length_le (by omega)]
    have hempty : ∀ j i, Socket.collect j i (⟨[], []⟩ : Socket α) = ([], ⟨[], []⟩) := by
      intro j i
      cases j with
      | zero => rfl
      | succ j => simp [Socket.collect, Socket.read]
    rw [List.take_of_length_le (by omega), List.drop_of_length_le (by omega)]
    cases k with
    | zero => omega
    | succ k =>
      rw [Socket.collect, if_neg (by omega), hread]
      dsimp only
      split
      · rename_i hx
        rw [hx]
      · rw [hempty, List.append_nil]

theorem read_whole (n : UInt16) (p : Bytes) :
    Socket.read 2 ⟨be16 n ++ p, []⟩ = (be16 n, ⟨p, []⟩) := read_field n p le_rfl

/-- A turn of the loop of `read_reply`. -/
theorem readChunks_header (n cid : UInt16) (hn : n ≠ 0) :
    readChunks (fuel + 1) ⟨be16 n ++ (be16 cid ++ p), []⟩ ret siz =
      if p.length < lengthOf n then none
      else if continues n then
        readChunks fuel ⟨p.drop (lengthOf n), []⟩ (ret ++ p.take (lengthOf n)) (siz + lengthOf n)
      else some (ret ++ p.take (lengthOf n), siz + lengthOf n, ⟨p.drop (lengthOf n), []⟩) := by
  have h₁ := read_whole n (be16 cid ++ p)
  have h₂ := read_whole cid p
  have hpos : n.toNat ≠ 0 := fun hz => hn (UInt16.toNat_inj.mp hz)
  have hlength : (if n.toNat &&& chunkExt = chunkExt then n.toNat - chunkExt else n.toNat) =
      lengthOf n := rfl
  rw [readChunks, h₁]
  dsimp only [be16] at h₂ ⊢
  rw [h₂, readBe16_be16]
  dsimp only
  rw [if_neg hpos, hlength, collect_complete p le_rfl]
  simp only [ext_iff, List.length_take]
  have hshort : min (lengthOf n) p.length < lengthOf n ↔ p.length < lengthOf n := by omega
  simp only [hshort]

theorem readChunks_zero (cid : UInt16) :
    readChunks fuel ⟨be16 0 ++ (be16 cid ++ p), []⟩ ret siz = none := by
  cases fuel with
  | zero => rfl
  | succ fuel =>
    have h₁ := read_whole 0 (be16 cid ++ p)
    have h₂ := read_whole cid p
    rw [readChunks, h₁]
    dsimp only [be16] at h₂ ⊢
    rw [h₂, readBe16_be16]
    rfl

/-- What has been stored stays in front. -/
theorem readChunks_stored {sock : Socket UInt8} {k : ℕ} {sock' : Socket UInt8}
    (h : readChunks fuel sock ret siz = some (m, k, sock')) : ret <+: m := by
  induction fuel generalizing sock ret siz with
  | zero => cases h
  | succ fuel ih =>
    unfold readChunks at h
    split at h
    · split at h
      · dsimp only at h
        split at h
        · cases h
        · split at h
          · split at h
            · cases h
            · exact (List.prefix_append _ _).trans (ih h)
          · split at h
            · cases h
            · cases h
              exact List.prefix_append _ _
      · cases h
    · cases h

end Reading

section Recovery

variable {c : WireChunk} {cs : List WireChunk} {ns : List UInt16} {fuel siz : ℕ}
variable {p rest ret m : Bytes}

theorem chunk_bytes (c : WireChunk) (rest : Bytes) :
    c.bytes ++ rest = be16 c.lengthField ++ (be16 c.cid ++ (c.payload ++ rest)) := by
  simp only [WireChunk.bytes, frame, List.append_assoc]

theorem stream_length (cs : List WireChunk) : cs.length ≤ (stream cs).length := by
  induction cs with
  | nil => exact le_rfl
  | cons c cs ih =>
    have hlen : (c.bytes ++ stream cs).length = 4 + c.payload.length + (stream cs).length := by
      simp only [chunk_bytes, List.length_append, length_be16]
      omega
    change cs.length + 1 ≤ (c.bytes ++ stream cs).length
    omega

theorem plain_cons {n : UInt16} (h : Plain (n :: ns)) (hns : ns ≠ []) :
    n.toNat &&& chunkReserved = 0 ∧ Plain ns := by
  refine ⟨h.1 n List.mem_cons_self, fun m hm => h.1 m (List.mem_cons_of_mem n hm), ?_⟩
  have hlast := h.2
  rwa [List.getLast?_cons_of_ne_nil hns] at hlast

theorem IsMessage.ne_nil (h : IsMessage ns) : ns ≠ [] := by
  cases h <;> simp

theorem continues_ne_zero {n : UInt16} (h : continues n) : n ≠ 0 := by
  rintro rfl
  exact h rfl

/-- The length of a field whose reserved bit is clear. -/
theorem lengthOf_plain (h : c.lengthField.toNat &&& chunkReserved = 0) :
    lengthOf c.lengthField = c.payload.length := by
  rw [lengthOf_eq, h, c.size, Nat.add_zero]

/-- A turn of either loop is left for each chunk. -/
theorem fuel_left (h : (c :: cs).length ≤ fuel) : ∃ k, fuel = k + 1 ∧ cs.length ≤ k := by
  rw [List.length_cons] at h
  exact ⟨fuel - 1, by omega, by omega⟩

theorem readChunks_plain (hm : IsMessage ns) (h : Plain ns)
    (hcs : cs.map WireChunk.lengthField = ns)
    (hfuel : cs.length ≤ fuel) :
    readChunks fuel ⟨stream cs ++ rest, []⟩ ret siz =
      some (ret ++ message cs, siz + (message cs).length, ⟨rest, []⟩) := by
  induction hm generalizing cs fuel ret siz with
  | @last n hn =>
    obtain ⟨c, rfl, rfl⟩ := List.map_eq_singleton_iff.mp hcs
    have hne : c.lengthField ≠ 0 := fun hz => h.2 (by rw [hz]; rfl)
    have hlen := lengthOf_plain (h.1 _ List.mem_cons_self)
    obtain ⟨fuel, rfl, -⟩ := fuel_left hfuel
    rw [stream, List.flatMap_singleton, chunk_bytes, readChunks_header _ _ hne, if_neg hn, hlen,
      if_neg (by simp), List.take_left, List.drop_left, message, List.flatMap_singleton]
  | @more n ns hn hm ih =>
    obtain ⟨c, cs, rfl, rfl, htail⟩ := List.map_eq_cons_iff.mp hcs
    obtain ⟨hreserved, hplain⟩ := plain_cons h hm.ne_nil
    have hlen := lengthOf_plain hreserved
    obtain ⟨fuel, rfl, hleft⟩ := fuel_left hfuel
    have hstep : readChunks fuel ⟨stream cs ++ rest, []⟩ (ret ++ c.payload)
        (siz + c.payload.length) = some (ret ++ c.payload ++ message cs,
          siz + c.payload.length + (message cs).length, ⟨rest, []⟩) :=
      ih hplain htail hleft
    change readChunks (fuel + 1) ⟨c.bytes ++ stream cs ++ rest, []⟩ ret siz = _
    rw [List.append_assoc, chunk_bytes, readChunks_header _ _ (continues_ne_zero hn), if_pos hn,
      hlen, if_neg (by simp), List.take_left, List.drop_left, hstep]
    simp only [message, List.flatMap_cons, List.append_assoc, List.length_append, Nat.add_assoc]

/-- A turn of the loop of `wait`. -/
theorem waitChunks_chunk (c : WireChunk) :
    waitChunks (fuel + 1) ⟨c.bytes ++ rest, []⟩ ret =
      if continues c.lengthField then waitChunks fuel ⟨rest, []⟩ (ret ++ c.payload)
      else (.ok (c.cid.toNat, ret ++ c.payload), ⟨rest, []⟩) := by
  have hread : Socket.read 4 ⟨c.bytes ++ rest, []⟩ =
      (be16 c.lengthField ++ be16 c.cid, ⟨c.payload ++ rest, []⟩) := by
    rw [chunk_bytes, ← List.append_assoc]
    exact read_full (x := be16 c.lengthField ++ be16 c.cid) le_rfl
  have hloop : Socket.collect c.payload.length c.payload.length ⟨c.payload ++ rest, []⟩ =
      (c.payload, ⟨rest, []⟩) := by
    rw [collect_complete _ le_rfl, List.take_left, List.drop_left]
  rw [waitChunks, hread]
  dsimp only [be16, List.cons_append, List.nil_append]
  rw [readBe16_be16, readBe16_be16, ← c.size, hloop]
  by_cases hc : continues c.lengthField
  · rw [if_pos hc, if_neg hc]
  · rw [if_neg hc, if_pos (not_not.mp hc)]

/-- `wait` reads every message, also one with reserved bits or an empty last chunk. -/
theorem waitChunks_message (hm : IsMessage ns) (hcs : cs.map WireChunk.lengthField = ns)
    (hfuel : cs.length ≤ fuel) :
    ∃ cid, waitChunks fuel ⟨stream cs ++ rest, []⟩ ret =
      (.ok (cid, ret ++ message cs), ⟨rest, []⟩) := by
  induction hm generalizing cs fuel ret with
  | @last n hn =>
    obtain ⟨c, rfl, rfl⟩ := List.map_eq_singleton_iff.mp hcs
    obtain ⟨fuel, rfl, -⟩ := fuel_left hfuel
    refine ⟨c.cid.toNat, ?_⟩
    rw [stream, List.flatMap_singleton, waitChunks_chunk, if_neg hn, message,
      List.flatMap_singleton]
  | @more n ns hn hm ih =>
    obtain ⟨c, cs, rfl, rfl, htail⟩ := List.map_eq_cons_iff.mp hcs
    obtain ⟨fuel, rfl, hleft⟩ := fuel_left hfuel
    have hrest : ∃ cid, waitChunks fuel ⟨stream cs ++ rest, []⟩ (ret ++ c.payload) =
        (.ok (cid, ret ++ c.payload ++ message cs), ⟨rest, []⟩) := ih htail hleft
    obtain ⟨cid, hstep⟩ := hrest
    refine ⟨cid, ?_⟩
    change waitChunks (fuel + 1) ⟨c.bytes ++ stream cs ++ rest, []⟩ ret = _
    rw [List.append_assoc, waitChunks_chunk, if_pos hn, hstep, message, message,
      List.flatMap_cons, List.append_assoc]

theorem wait_message (hm : IsMessage ns) (hcs : cs.map WireChunk.lengthField = ns) :
    ∃ cid, wait some ⟨stream cs ++ rest, []⟩ = (.ok (cid, message cs), ⟨rest, []⟩) := by
  have hlen := stream_length cs
  have hchunks : ∃ cid, waitChunks ((stream cs ++ rest).length + 1) ⟨stream cs ++ rest, []⟩ [] =
      (.ok (cid, [] ++ message cs), ⟨rest, []⟩) :=
    waitChunks_message hm hcs (by rw [List.length_append]; omega)
  obtain ⟨cid, hwait⟩ := hchunks
  exact ⟨cid, by rw [wait, hwait]; rfl⟩

end Recovery

section Failures

variable {ns : List UInt16} {fuel siz k : ℕ} {ret m : Bytes} {sock : Socket UInt8}

/-- A chunk of NULs with the highest id. -/
def nulChunk (n : UInt16) : WireChunk :=
  ⟨n, 0xffff, List.replicate (n.toNat &&& chunkSiz) 0, List.length_replicate⟩

theorem nulMessage (ns : List UInt16) : ∀ b ∈ message (ns.map nulChunk), b = 0 := by
  intro b hb
  obtain ⟨c, hc, hb⟩ := List.mem_flatMap.mp hb
  obtain ⟨n, -, rfl⟩ := List.mem_map.mp hc
  exact List.eq_of_mem_replicate hb

theorem nulChunk_bytes (n : UInt16) (rest : Bytes) : (nulChunk n).bytes ++ rest =
    be16 n ++ (be16 0xffff ++ (List.replicate (n.toNat &&& chunkSiz) 0 ++ rest)) :=
  chunk_bytes _ _

/-- A read that goes past a chunk of NULs gets the id of the next one. -/
theorem overread (hns : ns ≠ []) {size extra : ℕ} (hextra : 4 ≤ extra) :
    255 ∈ (List.replicate size (0 : UInt8) ++ stream (ns.map nulChunk)).take (size + extra) := by
  obtain ⟨n', ns', rfl⟩ := List.exists_cons_of_ne_nil hns
  have hid : be16 0xffff = [255, 255] := by decide
  rw [List.take_append, List.length_replicate, Nat.add_sub_cancel_left]
  refine List.mem_append_right _ ?_
  rw [List.map_cons, stream, List.flatMap_cons, nulChunk_bytes, hid]
  obtain ⟨j, rfl⟩ := Nat.exists_eq_add_of_le' hextra
  simp [be16, List.take_succ_cons]

/-- With the reserved bit the C client asks for 16384 bytes more than there are. -/
theorem lengthOf_reserved {n : UInt16} (h : n.toNat &&& chunkReserved ≠ 0) :
    lengthOf n = (n.toNat &&& chunkSiz) + 16384 := by
  rw [lengthOf_eq]
  rw [and_reserved] at h ⊢
  omega

theorem plain_last {n : UInt16} (hn : n ≠ 0) (h : n.toNat &&& chunkReserved = 0) : Plain [n] := by
  refine ⟨fun m hm => ?_, fun hl => hn (Option.some.inj hl)⟩
  rwa [List.mem_singleton.mp hm]

theorem plain_more {n : UInt16} (hns : ns ≠ []) (h : n.toNat &&& chunkReserved = 0)
    (hp : Plain ns) : Plain (n :: ns) := by
  refine ⟨fun m hm => ?_, ?_⟩
  · rcases List.mem_cons.mp hm with rfl | hm
    · exact h
    · exact hp.1 m hm
  · rw [List.getLast?_cons_of_ne_nil hns]
    exact hp.2

/-- Where the C client gets through at all, it takes the id of a chunk for a part of a payload. -/
theorem readChunks_nul (hm : IsMessage ns) (h : ¬ Plain ns)
    (hread : readChunks fuel ⟨stream (ns.map nulChunk), []⟩ ret siz = some (m, k, sock)) :
    255 ∈ m := by
  induction hm generalizing fuel ret siz with
  | @last n hn =>
    rw [List.map_singleton, stream, List.flatMap_singleton, ← List.append_nil (nulChunk n).bytes,
      nulChunk_bytes, List.append_nil] at hread
    by_cases hz : n = 0
    · rw [hz, readChunks_zero] at hread
      cases hread
    · have hlen := lengthOf_reserved fun hr => h (plain_last hz hr)
      cases fuel with
      | zero => cases hread
      | succ fuel =>
        rw [readChunks_header _ _ hz, if_pos (by rw [List.length_replicate]; omega)] at hread
        cases hread
  | @more n ns hn hm ih =>
    rw [List.map_cons, stream, List.flatMap_cons, nulChunk_bytes] at hread
    cases fuel with
    | zero => cases hread
    | succ fuel =>
      rw [readChunks_header _ _ (continues_ne_zero hn), if_pos hn] at hread
      split at hread
      · cases hread
      · by_cases hr : n.toNat &&& chunkReserved = 0
        · rw [lengthOf_eq, hr, Nat.add_zero] at hread
          have hdrop : (List.replicate (n.toNat &&& chunkSiz) (0 : UInt8) ++
              stream (ns.map nulChunk)).drop (n.toNat &&& chunkSiz) = stream (ns.map nulChunk) :=
            List.drop_left' List.length_replicate
          change readChunks fuel ⟨List.drop _ (_ ++ stream (ns.map nulChunk)), []⟩ _ _ = _ at hread
          rw [hdrop] at hread
          exact ih (fun hp => h (plain_more hm.ne_nil hr hp)) hread
        · refine (readChunks_stored hread).subset (List.mem_append_right _ ?_)
          rw [lengthOf_reserved hr]
          exact overread hm.ne_nil (by decide)

end Failures

section Clients

/-- The clients agree on a message, whatever it says, as long as no reserved bit is set and the
last chunk is not empty. -/
theorem clients_agree_iff {ns : List UInt16} (hm : IsMessage ns) :
    (∀ (cs : List WireChunk) (rest : Bytes), cs.map WireChunk.lengthField = ns →
      Recovered cs rest) ↔ Plain ns := by
  constructor
  · intro h
    by_contra hplain
    have hnul := (h (ns.map nulChunk) [] (by simp [nulChunk, Function.comp_def])).1
    rw [List.append_nil] at hnul
    have hid := nulMessage ns 255 (readChunks_nul hm hplain hnul)
    cases hid
  · intro h cs rest hcs
    have hlen := stream_length cs
    have hread : readChunks ((stream cs ++ rest).length + 1) ⟨stream cs ++ rest, []⟩ [] 0 =
        some ([] ++ message cs, 0 + (message cs).length, ⟨rest, []⟩) :=
      readChunks_plain hm h hcs (by rw [List.length_append]; omega)
    rw [Nat.zero_add] at hread
    exact ⟨hread, wait_message hm hcs⟩

def reservedChunk : WireChunk := ⟨0x4001, 1, [123], by decide⟩

theorem oneByte_agree : (∀ (cs : List WireChunk) (rest : Bytes),
    cs.map WireChunk.lengthField = [1] → Recovered cs rest) ↔ Plain [1] :=
  clients_agree_iff (.last (by decide))

theorem reserved_lost : IsMessage [0x4001] ∧ ¬ Recovered [reservedChunk] [] := by
  refine ⟨.last (by decide), fun h => ?_⟩
  have hnone : readReply ⟨stream [reservedChunk] ++ [], []⟩ = none := by decide +kernel
  have hread := h.1
  rw [hnone] at hread
  cases hread

end Clients

end UbervisorChunkFormat
