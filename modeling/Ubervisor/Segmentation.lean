import Ubervisor.Decoding
import Ubervisor.Suspension

/-! # Arrivals do not matter

`read_cb` as a decoder that waits for more input. What it hands over and whether it drops the
connection depends on the bytes that have arrived and not on the pieces they arrived in,
although the low watermark keeps the callback from running on some of them. -/
namespace UbervisorSegmentation

open UbervisorValues
open UbervisorChunks
open UbervisorReadCallback
open UbervisorDecoding
open UbervisorSuspension

def addInput (c : Conn) (x : Bytes) : Conn := { c with input := c.input ++ x }

@[simp] theorem addInput_nil (c : Conn) : addInput c [] = c := by
  rw [addInput, List.append_nil]

/-- The decoder is at the start of a frame. -/
def AtStart (c : Conn) : Prop := c.cLen = 0 ∧ c.cCid = 0

/-- The cid is to be read next. -/
def AtCid (c : Conn) : Prop := 0 < c.cLen ∧ c.cCid = 0

/-- What the length phase comes to, whatever arrives later. -/
inductive LenPhase (c : Conn) : Prop where
  | known (h : ¬ AtStart c) (go : ∀ x, readLen (addInput c x) = .go (addInput c x))
  | short (h : AtStart c) (few : c.input.length < 2) (wait : readLen c = .wait)
  | bad (h : AtStart c) (field : 2 ≤ c.input.length) (drop : ∀ x, readLen (addInput c x) = .drop)
  | read (h : AtStart c) (len : ℕ) (rest : Bytes) (four_le : 4 ≤ len)
      (fewer : c.input.length = rest.length + 2)
      (go : ∀ x, readLen (addInput c x) = .go (addInput ⟨len, c.cCid, rest, 2⟩ x))

/-- What the cid phase comes to, whatever arrives later. -/
inductive CidPhase (c : Conn) : Prop where
  | known (h : ¬ AtCid c) (go : ∀ x, readCid (addInput c x) = .go (addInput c x))
  | short (h : AtCid c) (few : c.input.length < 2) (wait : readCid c = .wait)
  | read (h : AtCid c) (cid : UInt16) (rest : Bytes) (fewer : c.input.length = rest.length + 2)
      (go : ∀ x, readCid (addInput c x) = .go (addInput ⟨c.cLen, cid, rest, c.cLen⟩ x))

theorem lenPhase (c : Conn) : LenPhase c := by
  by_cases h : AtStart c
  · have hzero : c.cLen = 0 ∧ c.cCid = 0 := h
    rcases hin : c.input with _ | ⟨hi, _ | ⟨lo, rest⟩⟩
    · refine .short h (by simp [hin]) ?_
      rw [readLen, if_pos hzero, hin]
    · refine .short h (by simp [hin]) ?_
      rw [readLen, if_pos hzero, hin]
    · have hphase : ∀ x, readLen (addInput c x) =
          if (readBe16 hi lo).toNat > chunkSiz then .drop
          else if (readBe16 hi lo).toNat < 4 then .drop
          else .go (addInput ⟨(readBe16 hi lo).toNat, c.cCid, rest, 2⟩ x) := by
        intro x
        rw [readLen, addInput, if_pos hzero, hin]
        rfl
      by_cases hbig : (readBe16 hi lo).toNat > chunkSiz
      · exact .bad h (by simp [hin]) fun x => by rw [hphase, if_pos hbig]
      · by_cases hsmall : (readBe16 hi lo).toNat < 4
        · exact .bad h (by simp [hin]) fun x => by rw [hphase, if_neg hbig, if_pos hsmall]
        · refine .read h _ rest (Nat.not_lt.mp hsmall) (by simp [hin]) fun x => ?_
          rw [hphase, if_neg hbig, if_neg hsmall]
  · exact .known h fun x => if_neg h

theorem cidPhase (c : Conn) : CidPhase c := by
  by_cases h : AtCid c
  · have hzero : 0 < c.cLen ∧ c.cCid = 0 := h
    rcases hin : c.input with _ | ⟨hi, _ | ⟨lo, rest⟩⟩
    · refine .short h (by simp [hin]) ?_
      rw [readCid, if_pos hzero, hin]
    · refine .short h (by simp [hin]) ?_
      rw [readCid, if_pos hzero, hin]
    · refine .read h (readBe16 hi lo) rest (by simp [hin]) fun x => ?_
      rw [readCid, addInput, if_pos hzero, hin]
      rfl
  · exact .known h fun x => if_neg h

section Turns

variable {σ : Type*} (handler : Handler σ)

/-- Hand a complete payload over. -/
def handOver (l : Link σ) (c : Conn) : Turn (Link σ) :=
  match runServerCommand handler { l with conn :=
      { c with cLen := 0, input := c.input.drop c.cLen, low := 2 } } (c.input.take c.cLen) with
  | (false, l) => .stop l
  | (true, l) => .next { l with conn := { l.conn with cCid := 0 } }

/-- The last phase of a turn. -/
def readPayload (l : Link σ) (c : Conn) : Turn (Link σ) :=
  if 0 < c.cLen ∧ c.cCid ≠ 0 then
    if c.input.length < c.cLen then .wait { l with conn := c } else handOver handler l c
  else .next { l with conn := c }

/-- A turn from the cid on. -/
def cidTurn (l : Link σ) (c : Conn) : Turn (Link σ) :=
  match readCid c with
  | .wait => .wait { l with conn := c }
  | .drop => .stop { l with conn := c }
  | .go c => readPayload handler l c

/-- One turn of the loop of `read_cb`. -/
def turn (l : Link σ) : Turn (Link σ) :=
  match readLen l.conn with
  | .wait => .wait l
  | .drop => .stop l
  | .go c => cidTurn handler l c

def more (l : Link σ) (x : Bytes) : Link σ := { l with conn := addInput l.conn x }

theorem more_nil (l : Link σ) : more l [] = l := by rw [more, addInput_nil]

theorem more_more (l : Link σ) (x y : Bytes) : more (more l x) y = more l (x ++ y) := by
  rw [more, more, more, addInput, addInput, addInput]
  dsimp only
  rw [List.append_assoc]

theorem readCb_succ (fuel : ℕ) (l : Link σ) : readCb handler (fuel + 1) l =
    match turn handler l with
    | .wait l => (.waiting, l)
    | .stop l => (.dropped, l)
    | .next l => readCb handler fuel l := by
  rw [readCb, turn]
  cases readLen l.conn with
  | wait => rfl
  | drop => rfl
  | go c =>
    dsimp only
    rw [cidTurn]
    cases readCid c with
    | wait => rfl
    | drop => rfl
    | go c =>
      dsimp only
      rw [readPayload]
      split
      · split
        · rfl
        · rw [handOver]
          dsimp only
          generalize runServerCommand handler _ _ = r
          obtain ⟨cr, l'⟩ := r
          cases cr <;> rfl
      · rfl

end Turns

section Laws

variable {σ : Type*} {handler : Handler σ} {l l' : Link σ} {c : Conn} {x : Bytes}

/-- A turn that does not wait ends in the same way when more input is there. -/
def Carries (x : Bytes) : Turn (Link σ) → Turn (Link σ) → Prop
  | .next l, t => t = .next (more l x)
  | .stop l, t => t = .stop (more l x)
  | .wait _, _ => True

theorem payload_carries : Carries x (readPayload handler l c)
    (readPayload handler l (addInput c x)) := by
  unfold readPayload
  by_cases hc : 0 < c.cLen ∧ c.cCid ≠ 0
  · rw [if_pos hc, if_pos (show 0 < (addInput c x).cLen ∧ (addInput c x).cCid ≠ 0 from hc)]
    by_cases hin : c.input.length < c.cLen
    · rw [if_pos hin]
      trivial
    · have hle := Nat.not_lt.mp hin
      have hlong : ¬ (addInput c x).input.length < (addInput c x).cLen := by
        rw [addInput]
        dsimp only
        rw [List.length_append]
        omega
      rw [if_neg hin, if_neg hlong, handOver, handOver, addInput]
      dsimp only
      rw [List.take_append_of_le_length hle, List.drop_append_of_le_length hle]
      unfold runServerCommand
      dsimp only
      cases findCommand (c.input.take c.cLen) with
      | none => rfl
      | some cmd =>
        dsimp only
        cases (handler cmd l.server c.cCid ((c.input.take c.cLen).drop 4)).1 <;> rfl
  · rw [if_neg hc, if_neg (show ¬ (0 < (addInput c x).cLen ∧ (addInput c x).cCid ≠ 0) from hc)]
    rfl

theorem cid_carries : Carries x (cidTurn handler l c) (cidTurn handler l (addInput c x)) := by
  unfold cidTurn
  rcases cidPhase c with ⟨h, go⟩ | ⟨h, few, hwait⟩ | ⟨h, cid, rest, fewer, go⟩
  · have hgo := go []
    rw [addInput_nil] at hgo
    rw [hgo, go]
    exact payload_carries
  · rw [hwait]
    trivial
  · have hgo := go []
    rw [addInput_nil, addInput_nil] at hgo
    rw [hgo, go]
    exact payload_carries

theorem turn_carries : Carries x (turn handler l) (turn handler (more l x)) := by
  unfold turn
  rw [show (more l x).conn = addInput l.conn x from rfl]
  rcases lenPhase l.conn with ⟨h, go⟩ | ⟨h, few, hwait⟩ | ⟨h, field, drop⟩ |
    ⟨h, len, rest, hlen, fewer, go⟩
  · have hgo := go []
    rw [addInput_nil] at hgo
    rw [hgo, go]
    exact cid_carries
  · rw [hwait]
    trivial
  · have hdrop := drop []
    rw [addInput_nil] at hdrop
    rw [hdrop, drop]
    rfl
  · have hgo := go []
    rw [addInput_nil, addInput_nil] at hgo
    rw [hgo, go]
    exact cid_carries

/-- A turn that waits can be taken up where it is. -/
theorem cid_wait (hc : ¬ AtStart c) (h : cidTurn handler l c = .wait l') :
    ∃ c', l' = { l with conn := c' } ∧ ¬ AtStart c' ∧
      ∀ x, cidTurn handler l (addInput c' x) = cidTurn handler l (addInput c x) := by
  have hpay : ∀ d, readPayload handler l d = .wait l' →
      l' = { l with conn := d } ∧ 0 < d.cLen ∧ d.cCid ≠ 0 := by
    intro d hd
    unfold readPayload at hd
    split at hd
    · rename_i hd'
      split at hd
      · exact ⟨(Turn.wait.inj hd).symm, hd'⟩
      · unfold handOver at hd
        split at hd <;> cases hd
    · cases hd
  unfold cidTurn at h
  rcases cidPhase c with ⟨hk, go⟩ | ⟨hk, few, hwait⟩ | ⟨hk, cid, rest, fewer, go⟩
  · have hgo := go []
    rw [addInput_nil] at hgo
    rw [hgo] at h
    exact ⟨c, (hpay c h).1, hc, fun _ => rfl⟩
  · rw [hwait] at h
    exact ⟨c, (Turn.wait.inj h).symm, hc, fun _ => rfl⟩
  · have hgo := go []
    rw [addInput_nil, addInput_nil] at hgo
    rw [hgo] at h
    obtain ⟨hl', hlen, hcid⟩ := hpay _ h
    refine ⟨_, hl', fun hs => hcid hs.2, fun x => ?_⟩
    have hknown : ¬ AtCid (addInput ⟨c.cLen, cid, rest, c.cLen⟩ x) := fun ha => hcid ha.2
    rw [cidTurn, cidTurn, go]
    rw [show readCid (addInput ⟨c.cLen, cid, rest, c.cLen⟩ x) = .go _ from if_neg hknown]

theorem turn_wait (h : turn handler l = .wait l') :
    turn handler (more l x) = turn handler (more l' x) := by
  have hcid : ∀ c, ¬ AtStart c → cidTurn handler l c = .wait l' →
      cidTurn handler l (addInput c x) = turn handler (more l' x) := by
    intro c hc hw
    obtain ⟨c', rfl, hc', heq⟩ := cid_wait hc hw
    rw [← heq, turn, show readLen (more { l with conn := c' } x).conn = .go _ from if_neg hc']
    rfl
  have hturn := h
  rw [turn] at h
  rw [turn, show (more l x).conn = addInput l.conn x from rfl]
  rcases lenPhase l.conn with ⟨hk, go⟩ | ⟨hk, few, hwait⟩ | ⟨hk, field, drop⟩ |
    ⟨hk, len, rest, hlen, fewer, go⟩
  · have hgo := go []
    rw [addInput_nil] at hgo
    rw [hgo] at h
    rw [go]
    exact hcid _ hk h
  · rw [hwait] at h
    cases h
    rfl
  · have hdrop := drop []
    rw [addInput_nil] at hdrop
    rw [hdrop] at h
    cases h
  · have hgo := go []
    rw [addInput_nil, addInput_nil] at hgo
    rw [hgo] at h
    rw [go]
    refine hcid _ (fun hs => ?_) h
    have hz : len = 0 := hs.1
    omega

theorem turn_resumable : Resumable (turn handler) more where
  append := more_more
  nil := more_nil
  next l l' x h := by
    have hc : Carries x (turn handler l) (turn handler (more l x)) := turn_carries
    rw [h] at hc
    exact hc
  stop l l' x h := by
    have hc : Carries x (turn handler l) (turn handler (more l x)) := turn_carries
    rw [h] at hc
    exact hc
  wait _ _ _ h := turn_wait h

end Laws

section Outcomes

variable {σ : Type*} {handler : Handler σ} {l l' : Link σ} {c : Conn} {x : Bytes}

/-- Between two turns the decoder is at the start of a frame or knows a length it accepts. -/
def Wf (c : Conn) : Prop := AtStart c ∨ 4 ≤ c.cLen

/-- The low watermark is no larger than what the next phase needs. -/
def LowFits (c : Conn) : Prop := c.low ≤ max 2 c.cLen

/-- The next turn sets the watermark, or it fits already. -/
def Ready (c : Conn) : Prop := LowFits c ∨ AtStart c ∧ 2 ≤ c.input.length

/-- The decoder has refused the length field at the front of the buffer. -/
def Refused (c : Conn) : Prop := readLen c = .drop

/-- What a turn of a well-formed decoder can do. -/
inductive Outcome (l : Link σ) : Turn (Link σ) → Prop where
  | wait (c : Conn) (wf : Wf c) (low : Ready l.conn → LowFits c) :
      Outcome l (.wait { l with conn := c })
  | bad (start : AtStart l.conn) (refused : Refused l.conn) (field : 2 ≤ l.conn.input.length) :
      Outcome l (.stop l)
  | zero (c : Conn) (four_le : 4 ≤ c.cLen) (low : c.low = c.cLen)
      (fewer : c.input.length + 2 ≤ l.conn.input.length)
      (len : ¬ AtStart l.conn → c.cLen = l.conn.cLen) : Outcome l (.next { l with conn := c })
  | ran (t : Turn (Link σ)) (field : AtStart l.conn → 2 ≤ l.conn.input.length)
      (full : ¬ AtStart l.conn → l.conn.cLen ≤ l.conn.input.length)
      (kept : ∀ l', t = .next l' → AtStart l'.conn ∧ l'.conn.low = 2 ∧
        l'.conn.input.length < l.conn.input.length)
      (gone : ∀ l', t = .stop l' → ¬ AtStart l'.conn) (ends : ∀ l', t ≠ .wait l') : Outcome l t

theorem handOver_outcome (hlen : 4 ≤ c.cLen) (hcid : c.cCid ≠ 0) (hin : c.cLen ≤ c.input.length)
    (hle : c.input.length ≤ l.conn.input.length) (hfield : AtStart l.conn → 2 ≤ l.conn.input.length)
    (hfull : ¬ AtStart l.conn → c.cLen = l.conn.cLen) : Outcome l (handOver handler l c) := by
  have hrun : ∀ (k : Link σ) (buf : Bytes), (runServerCommand handler k buf).2.conn = k.conn := by
    intro k buf
    unfold runServerCommand
    dsimp only
    split <;> rfl
  have hconn := hrun { l with conn :=
    { c with cLen := 0, input := c.input.drop c.cLen, low := 2 } } (c.input.take c.cLen)
  refine .ran _ hfield (fun hs => ?_) (fun l' h => ?_) (fun l' h => ?_) fun l' h => ?_
  · rw [← hfull hs]
    exact hin.trans hle
  · unfold handOver at h
    generalize runServerCommand handler _ _ = r at h hconn
    obtain ⟨cr, k⟩ := r
    dsimp only at hconn
    cases cr with
    | false => cases h
    | true =>
      cases h
      dsimp only
      rw [hconn]
      refine ⟨⟨rfl, rfl⟩, rfl, ?_⟩
      dsimp only
      rw [List.length_drop]
      omega
  · unfold handOver at h
    generalize runServerCommand handler _ _ = r at h hconn
    obtain ⟨cr, k⟩ := r
    dsimp only at hconn
    cases cr with
    | true => cases h
    | false =>
      cases h
      rw [hconn]
      exact fun hs => hcid hs.2
  · unfold handOver at h
    generalize runServerCommand handler _ _ = r at h
    obtain ⟨cr, k⟩ := r
    cases cr <;> cases h

theorem cid_outcome (hlen : 4 ≤ c.cLen) (hlow : Ready l.conn → c.low ≤ c.cLen)
    (hle : c.input.length ≤ l.conn.input.length) (hfield : AtStart l.conn → 2 ≤ l.conn.input.length)
    (hfull : ¬ AtStart l.conn → c.cLen = l.conn.cLen) : Outcome l (cidTurn handler l c) := by
  have hpay : ∀ d : Conn, d.cLen = c.cLen → (Ready l.conn → d.low ≤ d.cLen) → d.cCid ≠ 0 →
      d.input.length ≤ c.input.length → Outcome l (readPayload handler l d) := by
    intro d hd hdlow hcid hdle
    rw [readPayload, if_pos ⟨by omega, hcid⟩]
    by_cases hin : d.input.length < d.cLen
    · rw [if_pos hin]
      exact .wait d (.inr (by omega)) fun hr => le_max_of_le_right (hdlow hr)
    · rw [if_neg hin]
      exact handOver_outcome (by omega) hcid (Nat.not_lt.mp hin) (hdle.trans hle) hfield
        fun hs => hd.trans (hfull hs)
  unfold cidTurn
  rcases cidPhase c with ⟨h, go⟩ | ⟨h, few, hwait⟩ | ⟨h, cid, rest, fewer, go⟩
  · have hgo := go []
    rw [addInput_nil] at hgo
    rw [hgo]
    exact hpay c rfl hlow (fun hz => h ⟨by omega, hz⟩) le_rfl
  · rw [hwait]
    exact .wait c (.inr hlen) fun hr => le_max_of_le_right (hlow hr)
  · have hgo := go []
    rw [addInput_nil, addInput_nil] at hgo
    rw [hgo]
    by_cases hz : cid = 0
    · subst hz
      dsimp only
      rw [readPayload, if_neg fun hc => hc.2 rfl]
      refine .zero _ hlen rfl ?_ hfull
      dsimp only
      omega
    · exact hpay ⟨c.cLen, cid, rest, c.cLen⟩ rfl (fun _ => le_rfl) hz (by
        dsimp only
        omega)

theorem turn_outcome (hw : Wf l.conn) : Outcome l (turn handler l) := by
  unfold turn
  rcases lenPhase l.conn with ⟨h, go⟩ | ⟨h, few, hwait⟩ | ⟨h, field, drop⟩ |
    ⟨h, len, rest, hlen, fewer, go⟩
  · have hgo := go []
    rw [addInput_nil] at hgo
    rw [hgo]
    rcases hw with hs | hlen
    · exact absurd hs h
    · refine cid_outcome hlen (fun hr => ?_) le_rfl (fun hs => absurd hs h) fun _ => rfl
      rcases hr with hr | hr
      · exact hr.trans (max_le (by omega) le_rfl)
      · exact absurd hr.1 h
  · rw [hwait]
    refine .wait l.conn hw fun hr => ?_
    rcases hr with hr | hr
    · exact hr
    · omega
  · have hdrop := drop []
    rw [addInput_nil] at hdrop
    rw [hdrop]
    exact .bad h hdrop field
  · have hgo := go []
    rw [addInput_nil, addInput_nil] at hgo
    rw [hgo]
    refine cid_outcome hlen (fun _ => ?_) ?_ (fun _ => by omega) fun hs => absurd h hs
    · dsimp only
      omega
    · dsimp only
      omega

end Outcomes

section Callbacks

variable {σ : Type*} {handler : Handler σ} {l l' : Link σ} {fuel : ℕ}

theorem next_wf (hw : Wf l.conn) (h : turn handler l = .next l') :
    Wf l'.conn ∧ LowFits l'.conn ∧ l'.conn.input.length < l.conn.input.length := by
  have ho : Outcome l (turn handler l) := turn_outcome hw
  rw [h] at ho
  cases ho with
  | zero c four_le low fewer _ =>
    refine ⟨.inr four_le, ?_, ?_⟩
    · rw [LowFits, low]
      exact le_max_right _ _
    · dsimp only
      omega
  | ran _ _ _ kept _ _ =>
    obtain ⟨hs, hlow, hless⟩ := kept l' rfl
    refine ⟨.inl hs, ?_, hless⟩
    rw [LowFits, hlow]
    exact le_max_left _ _

theorem link_runs (hw : Wf l.conn) : ∃ r, Runs (turn handler) l r :=
  exists_runs (I := fun l => Wf l.conn) (m := fun l => l.conn.input.length)
    (fun _ _ hw h => (next_wf hw h).1) (fun _ _ hw h => (next_wf hw h).2.2) hw

/-- The callback runs the decoder, and ends. -/
theorem readCb_runs (hw : Wf l.conn) (hfuel : l.conn.input.length < fuel) :
    (∃ l', readCb handler fuel l = (.waiting, l') ∧ Runs (turn handler) l (.waiting l')) ∨
      ∃ l', readCb handler fuel l = (.dropped, l') ∧ Runs (turn handler) l (.stopped l') := by
  induction fuel generalizing l with
  | zero => omega
  | succ fuel ih =>
    rw [readCb_succ]
    cases ht : turn handler l with
    | wait l' => exact .inl ⟨l', rfl, .wait ht⟩
    | stop l' => exact .inr ⟨l', rfl, .stop ht⟩
    | next l' =>
      obtain ⟨hw', -, hless⟩ := next_wf hw ht
      rcases ih hw' (by omega) with ⟨u, hu, hr⟩ | ⟨u, hu, hr⟩
      · exact .inl ⟨u, hu, .next ht hr⟩
      · exact .inr ⟨u, hu, .next ht hr⟩

/-- A decoder that waits is well formed and has set the watermark. -/
theorem waiting_fits (hw : Wf l.conn) (hr : Ready l.conn)
    (h : Runs (turn handler) l (.waiting l')) :
    Wf l'.conn ∧ LowFits l'.conn := by
  obtain ⟨t, ⟨hwt, hrt⟩, ⟨u, hu, he⟩ | ⟨u, hu, he⟩⟩ := h.last
    (I := fun l => Wf l.conn ∧ Ready l.conn)
    (fun _ _ hi hn => ⟨(next_wf hi.1 hn).1, .inl (next_wf hi.1 hn).2.1⟩) ⟨hw, hr⟩
  · cases he
    have ho : Outcome t (turn handler t) := turn_outcome hwt
    rw [hu] at ho
    cases ho with
    | wait c wf low => exact ⟨wf, low hrt⟩
    | ran _ _ _ _ _ ends => exact absurd rfl (ends l')
  · cases he

/-- A connection that is dropped has a length refused or a request in hand. -/
theorem stopped_cause (hw : Wf l.conn) (h : Runs (turn handler) l (.stopped l')) :
    Refused l'.conn ∨ ¬ AtStart l'.conn := by
  obtain ⟨t, hwt, ⟨u, hu, he⟩ | ⟨u, hu, he⟩⟩ := h.last (I := fun l => Wf l.conn)
    (fun _ _ hi hn => (next_wf hi hn).1) hw
  · cases he
  · cases he
    have ho : Outcome t (turn handler t) := turn_outcome hwt
    rw [hu] at ho
    cases ho with
    | bad start refused field => exact .inl refused
    | ran _ _ _ _ gone _ => exact .inr (gone l' rfl)

/-- Below the watermark the callback would not hand anything over. -/
theorem quiet_runs (hw : Wf l.conn) (hl : LowFits l.conn)
    (hlow : l.conn.input.length < l.conn.low) :
    ∃ c, Runs (turn handler) l (.waiting { l with conn := c }) := by
  induction hn : l.conn.input.length using Nat.strongRecOn generalizing l with
  | _ n ih =>
    subst hn
    unfold LowFits at hl
    have hstart : AtStart l.conn → l.conn.cLen = 0 := And.left
    generalize ht : turn handler l = t
    have ho : Outcome l (turn handler l) := turn_outcome hw
    rw [ht] at ho
    cases ho with
    | wait c wf low => exact ⟨c, .wait ht⟩
    | bad start refused field =>
      have := hstart start
      omega
    | zero c four_le low fewer len =>
      have hns : ¬ AtStart l.conn := fun hs => by
        have := hstart hs
        omega
      have hlen := len hns
      obtain ⟨c', hc'⟩ := ih c.input.length (by omega) (l := { l with conn := c }) (.inr four_le)
        (by rw [LowFits, low]; exact le_max_right _ _) (by dsimp only; omega) rfl
      exact ⟨c', .next ht hc'⟩
    | ran _ field full _ _ _ =>
      rcases hw with hs | hlen
      · have := hstart hs
        have := field hs
        omega
      · have hns : ¬ AtStart l.conn := fun hs => by
          have := hstart hs
          omega
        have := full hns
        omega

end Callbacks

section Feeding

variable {σ : Type*} (handler : Handler σ) (s : σ)

/-- A fresh connection on which the bytes `b` have arrived. -/
def arrivedAt (b : Bytes) : Link σ := more ⟨acceptedConn, s, [], []⟩ b

/-- What is seen of a connection from outside: the server, the requests and the answers. -/
structure SameView (l l' : Link σ) : Prop where
  server : l'.server = l.server
  dispatched : l'.dispatched = l.dispatched
  returns : l'.returns = l.returns

/-- How the decoder stands after the arrivals of `b`, compared with one that has been given
all of `b` at once. -/
def Follows (b : Bytes) : Status × Link σ → Prop
  | (.waiting, l) =>
    (b.length < 4 ∧ l = arrivedAt s b) ∨
    (4 ≤ b.length ∧ Wf l.conn ∧ LowFits l.conn ∧
      (∃ c, Runs (turn handler) l (.waiting { l with conn := c })) ∧
      ∀ y r, Runs (turn handler) (more l y) r → Runs (turn handler) (arrivedAt s (b ++ y)) r)
  | (.dropped, l) => 4 ≤ b.length ∧ ∃ y, Runs (turn handler) (arrivedAt s b) (.stopped (more l y)) ∧
      (Refused l.conn ∨ ¬ AtStart l.conn)
  | (.spinning, _) => False

variable {handler s}

/-- A callback on all that has arrived. -/
theorem follows_callback {b : Bytes} {l : Link σ} (hb : 4 ≤ b.length) (hw : Wf l.conn)
    (hr : Ready l.conn)
    (hall : ∀ y r, Runs (turn handler) (more l y) r →
      Runs (turn handler) (arrivedAt s (b ++ y)) r) :
    Follows handler s b (readCb handler (l.conn.input.length + 1) l) := by
  have hself : ∀ r, Runs (turn handler) l r → Runs (turn handler) (arrivedAt s b) r := by
    intro r h
    have := hall [] r
    rw [more_nil, List.append_nil] at this
    exact this h
  have hruns : (∃ u, readCb handler (l.conn.input.length + 1) l = (.waiting, u) ∧
        Runs (turn handler) l (.waiting u)) ∨
      ∃ u, readCb handler (l.conn.input.length + 1) l = (.dropped, u) ∧
        Runs (turn handler) l (.stopped u) := readCb_runs hw (Nat.lt_succ_self _)
  rcases hruns with ⟨u, hu, hrun⟩ | ⟨u, hu, hrun⟩
  · rw [hu]
    obtain ⟨hwu, hlu⟩ := waiting_fits hw hr hrun
    refine .inr ⟨hb, hwu, hlu, ⟨u.conn, .wait (hrun.idle turn_resumable)⟩, fun y r h => ?_⟩
    exact hall y r (hrun.resume turn_resumable h)
  · rw [hu]
    refine ⟨hb, [], ?_, stopped_cause hw hrun⟩
    rw [more_nil]
    exact hself _ hrun

theorem arrive_follows {b : Bytes} {x : Status × Link σ} (h : Follows handler s b x)
    (seg : Bytes) : Follows handler s (b ++ seg) (arrive handler x seg) := by
  obtain ⟨st, l⟩ := x
  have hlen : (b ++ seg).length = b.length + seg.length := List.length_append
  cases st with
  | spinning => exact h
  | dropped =>
    obtain ⟨hb, y, hrun, hcause⟩ := h
    refine ⟨by omega, y ++ seg, ?_, hcause⟩
    rw [← more_more l, show arrivedAt s (b ++ seg) = more (arrivedAt s b) seg from
      (more_more _ _ _).symm]
    exact hrun.stopped_more turn_resumable
  | waiting =>
    change Follows handler s (b ++ seg)
      (if (more l seg).conn.input.length < (more l seg).conn.low then (.waiting, more l seg)
      else readCb handler ((more l seg).conn.input.length + 1) (more l seg))
    rcases h with ⟨hb, rfl⟩ | ⟨hb, hw, hl, -, hall⟩
    · have hstart : more (arrivedAt s b) seg = arrivedAt s (b ++ seg) := more_more _ _ _
      have hlow : (arrivedAt s (b ++ seg)).conn.input.length = (b ++ seg).length := rfl
      have hfour : (arrivedAt s (b ++ seg)).conn.low = 4 := rfl
      rw [hstart]
      split
      · rename_i hshort
        exact .inl ⟨by omega, rfl⟩
      · rename_i hshort
        refine follows_callback (by omega) (.inl ⟨rfl, rfl⟩)
          (.inr ⟨⟨rfl, rfl⟩, by omega⟩) fun y r h => ?_
        have hy : more (arrivedAt s (b ++ seg)) y = arrivedAt s (b ++ seg ++ y) := more_more _ _ _
        rw [hy] at h
        exact h
    · have hmore : ∀ y r, Runs (turn handler) (more (more l seg) y) r →
          Runs (turn handler) (arrivedAt s (b ++ seg ++ y)) r := by
        intro y r h
        rw [List.append_assoc]
        rw [more_more] at h
        exact hall _ r h
      split
      · rename_i hlow
        exact .inr ⟨by omega, hw, hl, quiet_runs hw hl hlow, hmore⟩
      · exact follows_callback (by omega) hw (.inl hl) hmore

theorem feed_follows (segs : List Bytes) :
    Follows handler s segs.flatten (feed handler s segs) := by
  induction segs using List.reverseRecOn with
  | nil => exact .inl ⟨by decide, rfl⟩
  | append_singleton segs seg ih =>
    rw [feed_concat, List.flatten_concat]
    exact arrive_follows ih seg

/-- A decoder that waits goes on where it is. -/
theorem follows_more {b y : Bytes} {l : Link σ} {r : End (Link σ)}
    (h : Follows handler s b (.waiting, l)) (hr : Runs (turn handler) (more l y) r) :
    Runs (turn handler) (arrivedAt s (b ++ y)) r := by
  rcases h with ⟨-, rfl⟩ | ⟨-, -, -, -, hmore⟩
  · rw [show more (arrivedAt s b) y = arrivedAt s (b ++ y) from more_more _ _ _] at hr
    exact hr
  · exact hmore y r hr

/-- The connection was dropped because `read_cb` would not take a length. -/
def DroppedForLength (x : Status × Link σ) : Prop := x.1 = .dropped ∧ Refused x.2.conn

theorem refused_more {c : Conn} {y : Bytes} (h : Refused c ∨ ¬ AtStart c) :
    Refused (addInput c y) ↔ Refused c := by
  rcases lenPhase c with ⟨hk, go⟩ | ⟨hk, few, hwait⟩ | ⟨hk, field, drop⟩ |
    ⟨hk, len, rest, hlen, fewer, go⟩
  · have hgo := go []
    rw [addInput_nil] at hgo
    rw [Refused, Refused, go, hgo]
    exact iff_of_false nofun nofun
  · rcases h with h | h
    · rw [Refused, hwait] at h
      cases h
    · exact absurd hk h
  · have hdrop := drop []
    rw [addInput_nil] at hdrop
    exact iff_of_true (drop y) hdrop
  · have hgo := go []
    rw [addInput_nil, addInput_nil] at hgo
    rw [Refused, Refused, go, hgo]
    exact iff_of_false nofun nofun

/-- The callback has not run yet. -/
theorem Follows.few {b : Bytes} {x : Status × Link σ} (h : Follows handler s b x)
    (hb : b.length < 4) : x = (.waiting, arrivedAt s b) := by
  obtain ⟨st, l⟩ := x
  cases st with
  | spinning => exact h.elim
  | waiting =>
    rcases h with ⟨-, rfl⟩ | ⟨hlong, -⟩
    · rfl
    · omega
  | dropped =>
    have := h.1
    omega

/-- How a connection looks to which a run of the decoder has happened, piece by piece or not. -/
def Shows : End (Link σ) → Status × Link σ → Prop
  | .waiting u, x => x.1 = .waiting ∧ SameView u x.2
  | .stopped u, x => x.1 = .dropped ∧ SameView u x.2 ∧ (Refused x.2.conn ↔ Refused u.conn)

theorem Shows.view {x : Status × Link σ} {r : End (Link σ)} (h : Shows r x) :
    SameView r.state x.2 := by
  cases r with
  | waiting u => exact h.2
  | stopped u => exact h.2.1

/-- The decoder that is given all bytes at once decides what is seen of one that follows it. -/
theorem follows_shows {b : Bytes} {x : Status × Link σ} {r : End (Link σ)}
    (hx : Follows handler s b x) (hb : 4 ≤ b.length)
    (hr : Runs (turn handler) (arrivedAt s b) r) : Shows r x := by
  obtain ⟨st, l⟩ := x
  cases st with
  | spinning => exact hx.elim
  | waiting =>
    rcases hx with ⟨hshort, -⟩ | ⟨-, -, -, ⟨c, hc⟩, hmore⟩
    · omega
    · have hrun := hmore [] (.waiting { l with conn := c })
      rw [more_nil, List.append_nil] at hrun
      obtain rfl := hr.deterministic (hrun hc)
      exact ⟨rfl, rfl, rfl, rfl⟩
  | dropped =>
    obtain ⟨-, z, hrun, hcause⟩ := hx
    obtain rfl := hr.deterministic hrun
    exact ⟨rfl, ⟨rfl, rfl, rfl⟩, (refused_more hcause).symm⟩

/-- A connection that has waited shows what the decoder does with the bytes that follow. -/
theorem resumed_shows {pre segs : List Bytes} {l : Link σ} {r : End (Link σ)}
    (hpre : feed handler s pre = (.waiting, l)) (hlen : 4 ≤ segs.flatten.length)
    (hr : Runs (turn handler) (more l segs.flatten) r) :
    Shows r (feed handler s (pre ++ segs)) := by
  have hfollows : Follows handler s pre.flatten (feed handler s pre) := feed_follows pre
  have hall : Follows handler s (pre ++ segs).flatten (feed handler s (pre ++ segs)) :=
    feed_follows (pre ++ segs)
  rw [hpre] at hfollows
  rw [List.flatten_append] at hall
  have hfour : 4 ≤ (pre.flatten ++ segs.flatten).length := by
    rw [List.length_append]
    omega
  exact follows_shows hall hfour (follows_more hfollows hr)

theorem shows_agree {x y : Status × Link σ} {r : End (Link σ)} (hx : Shows r x) (hy : Shows r y) :
    y.1 = x.1 ∧ SameView x.2 y.2 ∧ (DroppedForLength y ↔ DroppedForLength x) := by
  have hview : SameView x.2 y.2 :=
    ⟨hy.view.server.trans hx.view.server.symm, hy.view.dispatched.trans hx.view.dispatched.symm,
      hy.view.returns.trans hx.view.returns.symm⟩
  cases r with
  | waiting u =>
    have hst : y.1 = x.1 := hy.1.trans hx.1.symm
    refine ⟨hst, hview, iff_of_false (fun h => ?_) fun h => ?_⟩
    · cases hy.1.symm.trans h.1
    · cases hx.1.symm.trans h.1
  | stopped u =>
    obtain ⟨hxst, -, hxr⟩ := hx
    obtain ⟨hyst, -, hyr⟩ := hy
    exact ⟨hyst.trans hxst.symm, hview,
      and_congr (by rw [hxst, hyst]) (hyr.trans hxr.symm)⟩

/-- What is handed over on a connection, with which answers, and whether the connection is
dropped, and for a bad length, does not depend on the pieces in which its bytes arrive. -/
theorem arrivals_agree (handler : Handler σ) (s : σ) (segs segs' : List Bytes)
    (h : segs'.flatten = segs.flatten) :
    (feed handler s segs').1 = (feed handler s segs).1 ∧
      SameView (feed handler s segs).2 (feed handler s segs').2 ∧
      (DroppedForLength (feed handler s segs') ↔ DroppedForLength (feed handler s segs)) := by
  have hfollows : Follows handler s segs'.flatten (feed handler s segs') := feed_follows segs'
  have hfollows' : Follows handler s segs.flatten (feed handler s segs) := feed_follows segs
  rw [h] at hfollows
  by_cases hb : segs.flatten.length < 4
  · rw [hfollows.few hb, hfollows'.few hb]
    exact ⟨rfl, ⟨rfl, rfl, rfl⟩, Iff.rfl⟩
  · obtain ⟨r, hr⟩ : ∃ r, Runs (turn handler) (arrivedAt s segs.flatten) r :=
      link_runs (.inl ⟨rfl, rfl⟩)
    have hb' := Nat.not_lt.mp hb
    exact shows_agree (follows_shows hfollows' hb' hr) (follows_shows hfollows hb' hr)

/-- A length of 3 after a good frame, byte by byte and at once. -/
theorem badLength_agree :
    (feed keepAll () ([[0], [4], [0], [1], text "LI", text "ST", [0], [3], [7]])).1 =
        (feed keepAll () [[0, 4, 0, 1] ++ text "LIST" ++ [0, 3, 7]]).1 ∧
      SameView (feed keepAll () [[0, 4, 0, 1] ++ text "LIST" ++ [0, 3, 7]]).2
        (feed keepAll () ([[0], [4], [0], [1], text "LI", text "ST", [0], [3], [7]])).2 ∧
      (DroppedForLength
          (feed keepAll () [[0], [4], [0], [1], text "LI", text "ST", [0], [3], [7]]) ↔
        DroppedForLength (feed keepAll () [[0, 4, 0, 1] ++ text "LIST" ++ [0, 3, 7]])) :=
  arrivals_agree keepAll () _ _ (by decide)

end Feeding

end UbervisorSegmentation
