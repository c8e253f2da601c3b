import Mathlib.Data.List.Induction
import Ubervisor.Loops
import Ubervisor.ReadCallback

/-! # The loop of the read callback

`c_len` and `c_cid` encode how far the connection is in a request. A length without the id of the
request is a phase of its own; an id without a length is none. -/
namespace UbervisorReadLoop

open UbervisorValues
open UbervisorChunks
open UbervisorReadCallback
open UbervisorLoops

variable {σ : Type*}

/-- The body of the loop of `read_cb`. -/
def turn (handler : Handler σ) (l : Link σ) : (Status × Link σ) ⊕ Link σ :=
  match readLen l.conn with
  | .wait => .inl (.waiting, l)
  | .drop => .inl (.dropped, l)
  | .go c =>
    match readCid c with
    | .wait => .inl (.waiting, { l with conn := c })
    | .drop => .inl (.dropped, { l with conn := c })
    | .go c =>
      if 0 < c.cLen ∧ c.cCid ≠ 0 then
        if c.input.length < c.cLen then .inl (.waiting, { l with conn := c })
        else
          let buf := c.input.take c.cLen
          let l := { l with conn :=
            { c with cLen := 0, input := c.input.drop c.cLen, low := 2 } }
          match runServerCommand handler l buf with
          | (false, l) => .inl (.dropped, l)
          | (true, l) => .inr { l with conn := { l.conn with cCid := 0 } }
      else .inr { l with conn := c }

theorem readCb_succ (handler : Handler σ) (n : ℕ) (l : Link σ) :
    readCb handler (n + 1) l =
      match turn handler l with
      | .inl x => x
      | .inr l => readCb handler n l := by
  rw [readCb, turn]
  cases readLen l.conn with
  | wait => rfl
  | drop => rfl
  | go c =>
    dsimp only
    cases readCid c with
    | wait => rfl
    | drop => rfl
    | go c =>
      dsimp only
      split
      · split
        · rfl
        · split <;> simp only [*]
      · rfl

/-- The callback is the loop, and spins when the loop does not return. -/
theorem readCb_run (handler : Handler σ) (n : ℕ) (l : Link σ) :
    match run (turn handler) n l with
    | some x => readCb handler n l = x
    | none => (readCb handler n l).1 = .spinning := by
  induction n generalizing l with
  | zero => rfl
  | succ n ih =>
    rw [readCb_succ, run]
    cases turn handler l with
    | inl x => rfl
    | inr l => exact ih l

section Phases

/-- The phases of a request: nothing is known of it, or its length is. -/
def Settled (c : Conn) : Prop :=
  c.cLen = 0 ∧ c.cCid = 0 ∨ 4 ≤ c.cLen ∧ c.cLen ≤ chunkSiz

/-- The payloads that were copied leave room for the NUL behind them. -/
structure InBounds (l : Link σ) : Prop where
  phase : Settled l.conn
  copies : ∀ x ∈ l.dispatched, 4 ≤ x.2.length ∧ x.2.length ≤ chunkSiz

variable {c c' : Conn} {l l' : Link σ} {handler : Handler σ}

theorem readLen_go (h : Settled c) (hgo : readLen c = .go c') :
    4 ≤ c'.cLen ∧ c'.cLen ≤ chunkSiz ∧
      (c' = c ∨ c'.input.length + 2 = c.input.length) := by
  unfold readLen at hgo
  split at hgo
  · split at hgo
    · rename_i hi lo rest hin
      dsimp only at hgo
      split at hgo
      · cases hgo
      · split at hgo
        · cases hgo
        · rename_i hmax hmin
          cases hgo
          refine ⟨Nat.not_lt.mp hmin, Nat.not_lt.mp hmax, .inr ?_⟩
          rw [hin]
          rfl
    · cases hgo
  · rename_i hz
    cases hgo
    rcases h with h | h
    · exact absurd h hz
    · exact ⟨h.1, h.2, .inl rfl⟩

theorem readCid_go (hgo : readCid c = .go c') :
    c'.cLen = c.cLen ∧ (c' = c ∧ ¬ (0 < c.cLen ∧ c.cCid = 0) ∨
      c'.input.length + 2 = c.input.length) := by
  unfold readCid at hgo
  split at hgo
  · split at hgo
    · rename_i hi lo rest hin
      cases hgo
      refine ⟨rfl, .inr ?_⟩
      rw [hin]
      rfl
    · cases hgo
  · rename_i hz
    cases hgo
    exact ⟨rfl, .inl ⟨rfl, hz⟩⟩

/-- The command and whether it is answered leave the connection alone. -/
theorem runServerCommand_link (handler : Handler σ) (l : Link σ) (buf : Bytes) :
    (runServerCommand handler l buf).2.conn = l.conn ∧
      (runServerCommand handler l buf).2.dispatched =
        l.dispatched ++ [(l.conn.cCid, buf)] := by
  unfold runServerCommand
  dsimp only
  split <;> exact ⟨rfl, rfl⟩

/-- What a turn does in a settled phase: it returns before the payload, it skips an id that is 0,
or it copies a payload and runs the command. -/
theorem turn_cases (handler : Handler σ) (h : Settled l.conn) :
    (∃ st c, turn handler l = .inl (st, { l with conn := c }) ∧ st ≠ .spinning ∧ Settled c) ∨
    (∃ c, turn handler l = .inr { l with conn := c } ∧ Settled c ∧
      c.input.length + 2 ≤ l.conn.input.length) ∨
    ∃ c buf, 4 ≤ buf.length ∧ buf.length ≤ chunkSiz ∧ c.cLen = 0 ∧
      c.input.length + 2 ≤ l.conn.input.length ∧
      turn handler l =
        match runServerCommand handler { l with conn := c } buf with
        | (false, l) => .inl (.dropped, l)
        | (true, l) => .inr { l with conn := { l.conn with cCid := 0 } } := by
  unfold turn
  cases hlen : readLen l.conn with
  | wait => exact .inl ⟨.waiting, l.conn, rfl, nofun, h⟩
  | drop => exact .inl ⟨.dropped, l.conn, rfl, nofun, h⟩
  | go c =>
    obtain ⟨hmin, hmax, htaken⟩ := readLen_go h hlen
    have hc : Settled c := .inr ⟨hmin, hmax⟩
    have hle : c.input.length ≤ l.conn.input.length := by
      rcases htaken with rfl | htaken
      · exact le_rfl
      · omega
    dsimp only
    cases hcid : readCid c with
    | wait => exact .inl ⟨.waiting, c, rfl, nofun, hc⟩
    | drop => exact .inl ⟨.dropped, c, rfl, nofun, hc⟩
    | go d =>
      obtain ⟨hkept, hcidTaken⟩ := readCid_go hcid
      have hd : Settled d := .inr ⟨hkept ▸ hmin, hkept ▸ hmax⟩
      have hled : d.input.length ≤ c.input.length := by
        rcases hcidTaken with ⟨rfl, -⟩ | hcidTaken
        · exact le_rfl
        · omega
      dsimp only
      split
      · split
        · exact .inl ⟨.waiting, d, rfl, nofun, hd⟩
        · rename_i hpayload
          refine .inr (.inr ⟨_, d.input.take d.cLen, ?_, ?_, rfl, ?_, rfl⟩)
          · rw [List.length_take]
            omega
          · rw [List.length_take]
            omega
          · rw [List.length_drop]
            omega
      · -- the id was 0, so that it has just been read
        rename_i hnone
        refine .inr (.inl ⟨d, rfl, hd, ?_⟩)
        rcases hcidTaken with ⟨rfl, hread⟩ | hcidTaken
        · exact absurd ⟨by omega, fun hz => hread ⟨by omega, hz⟩⟩ hnone
        · omega

theorem InBounds.copied (h : InBounds l) {buf : Bytes} (hmin : 4 ≤ buf.length)
    (hmax : buf.length ≤ chunkSiz) {l' : Link σ}
    (hd : l'.dispatched = l.dispatched ++ [(c.cCid, buf)]) :
    ∀ x ∈ l'.dispatched, 4 ≤ x.2.length ∧ x.2.length ≤ chunkSiz := by
  intro x hx
  rw [hd] at hx
  rcases List.mem_append.mp hx with hx | hx
  · exact h.copies x hx
  · rw [List.mem_singleton.mp hx]
    exact ⟨hmin, hmax⟩

/-- A turn that comes back to the head of the loop has taken two bytes at least. -/
theorem turn_again (h : InBounds l) (ht : turn handler l = .inr l') :
    InBounds l' ∧ l'.conn.input.length + 2 ≤ l.conn.input.length := by
  rcases turn_cases handler h.phase with ⟨st, c, hturn, -, -⟩ | ⟨c, hturn, hc, htaken⟩ |
    ⟨c, buf, hmin, hmax, hzero, htaken, hturn⟩
  · cases ht.symm.trans hturn
  · cases ht.symm.trans hturn
    exact ⟨⟨hc, h.copies⟩, htaken⟩
  · obtain ⟨hconn, hdispatched⟩ := runServerCommand_link handler { l with conn := c } buf
    rw [ht] at hturn
    split at hturn
    · cases hturn
    · rename_i l₁ hrun
      cases hturn
      rw [hrun] at hconn hdispatched
      dsimp only at hconn
      refine ⟨⟨.inl ⟨?_, rfl⟩, h.copied hmin hmax hdispatched⟩, ?_⟩
      · dsimp only
        rw [hconn, hzero]
      · dsimp only
        rw [hconn]
        exact htaken

/-- How the callback returns. -/
structure Returned (x : Status × Link σ) : Prop where
  ends : x.1 ≠ .spinning
  waits : x.1 = .waiting → Settled x.2.conn
  copies : ∀ y ∈ x.2.dispatched, 4 ≤ y.2.length ∧ y.2.length ≤ chunkSiz

theorem turn_returned {x : Status × Link σ} (h : InBounds l) (ht : turn handler l = .inl x) :
    Returned x := by
  rcases turn_cases handler h.phase with ⟨st, c, hturn, hst, hc⟩ | ⟨c, hturn, -, -⟩ |
    ⟨c, buf, hmin, hmax, -, -, hturn⟩
  · cases ht.symm.trans hturn
    exact ⟨hst, fun _ => hc, h.copies⟩
  · cases ht.symm.trans hturn
  · obtain ⟨-, hdispatched⟩ := runServerCommand_link handler { l with conn := c } buf
    rw [ht] at hturn
    split at hturn
    · rename_i l₁ hrun
      cases hturn
      rw [hrun] at hdispatched
      exact ⟨nofun, nofun, h.copied hmin hmax hdispatched⟩
    · cases hturn

/-- From a settled phase the callback returns, whatever is in the buffer. -/
theorem readCb_returned (handler : Handler σ) (h : InBounds l) {n : ℕ}
    (hn : l.conn.input.length < n) : Returned (readCb handler n l) := by
  have hloop := readCb_run handler n l
  have hturn : ∀ a b : Link σ, InBounds a → turn handler a = .inr b →
      InBounds b ∧ b.conn.input.length < a.conn.input.length := by
    intro a b ha hb
    obtain ⟨hbounds, hshorter⟩ := turn_again ha hb
    exact ⟨hbounds, by omega⟩
  obtain ⟨x, hx⟩ := run_returns hturn h hn
  rw [hx] at hloop
  rw [hloop]
  exact run_post (fun a b ha hb => (turn_again ha hb).1) (fun a x ha hx => turn_returned ha hx) h hx

end Phases

section Activations

/-- A connection when the callback is activated, with anything in its buffer. -/
def buffered (l : Link σ) (input : Bytes) (s : σ) : Link σ :=
  { l with conn := { l.conn with input := input }, server := s }

/-- The connections that are still there after some activations. Between two of them the buffer
and the server may change in any way. -/
inductive Reached : Link σ → Prop where
  | accepted (s : σ) : Reached ⟨acceptedConn, s, [], []⟩
  | activated {handler : Handler σ} {n : ℕ} {l l' : Link σ} (input : Bytes) (s : σ) :
    Reached l → readCb handler n (buffered l input s) = (.waiting, l') → Reached l'

theorem Reached.inBounds {l : Link σ} (h : Reached l) : InBounds l := by
  induction h with
  | accepted s => exact ⟨.inl ⟨rfl, rfl⟩, nofun⟩
  | @activated handler n l l' input s _ hread ih =>
    have hstart : InBounds (buffered l input s) := ⟨ih.phase, ih.copies⟩
    have hloop := readCb_run handler n (buffered l input s)
    split at hloop
    · rename_i x hx
      rw [hread] at hloop
      have hret := run_post (fun a b ha hb => (turn_again ha hb).1)
        (fun a x ha hx => turn_returned ha hx) hstart hx
      rw [← hloop] at hret
      exact ⟨hret.waits rfl, hret.copies⟩
    · rw [hread] at hloop
      cases hloop

theorem arrive_reached {handler : Handler σ} {l l' : Link σ} {input : Bytes} {s : σ} {seg : Bytes}
    (h : Reached l) (ha : arrive handler (.waiting, buffered l input s) seg = (.waiting, l')) :
    ∃ l₁ input₁ s₁, Reached l₁ ∧ l' = buffered l₁ input₁ s₁ := by
  unfold arrive at ha
  dsimp only at ha
  split at ha
  · cases ha
    exact ⟨l, input ++ seg, s, h, rfl⟩
  · exact ⟨l', l'.conn.input, l'.server, h.activated (input ++ seg) s ha, rfl⟩

/-- The connections that a stream of bytes leads to are among them. -/
theorem feed_reached {handler : Handler σ} {s : σ} {segs : List Bytes} {l : Link σ}
    (h : feed handler s segs = (.waiting, l)) :
    ∃ l₁ input₁ s₁, Reached l₁ ∧ l = buffered l₁ input₁ s₁ := by
  induction segs using List.reverseRecOn generalizing l with
  | nil =>
    cases h
    exact ⟨_, [], s, .accepted s, rfl⟩
  | append_singleton segs seg ih =>
    have hstep : feed handler s (segs ++ [seg]) = arrive handler (feed handler s segs) seg := by
      simp only [feed, List.foldl_append, List.foldl_cons, List.foldl_nil]
    rw [hstep] at h
    generalize hx : feed handler s segs = x at h ih
    obtain ⟨st, l₀⟩ := x
    cases st with
    | waiting =>
      obtain ⟨l₁, input₁, s₁, h₁, rfl⟩ := ih rfl
      exact arrive_reached h₁ h
    | dropped => cases h
    | spinning => cases h

/-- `read_cb` returns, in bounds, and no turn of its loop is idle. -/
theorem readCb_bounded {l : Link σ} (h : Reached l) (handler : Handler σ) (input : Bytes)
    (s : σ) :
    (∃ st l', readCb handler (input.length + 1) (buffered l input s) = (st, l') ∧
      st ≠ .spinning ∧
      (∀ x ∈ l'.dispatched, x.2.length ≤ chunkSiz) ∧
      (st = .waiting → l'.conn.cCid = 0 ∨
        l'.conn.cCid ≠ 0 ∧ 4 ≤ l'.conn.cLen ∧ l'.conn.cLen ≤ chunkSiz)) ∧
    ∀ l₁ l₂, Head (turn handler) (buffered l input s) l₁ → turn handler l₁ = .inr l₂ →
      l₂.conn.input.length + 2 ≤ l₁.conn.input.length := by
  have hstart : InBounds (buffered l input s) := ⟨h.inBounds.phase, h.inBounds.copies⟩
  have hret := readCb_returned handler hstart (n := input.length + 1) (Nat.lt_succ_self _)
  refine ⟨⟨_, _, rfl, hret.ends, fun x hx => (hret.copies x hx).2, fun hw => ?_⟩, ?_⟩
  · rcases hret.waits hw with ⟨-, hcid⟩ | hlen
    · exact .inl hcid
    · by_cases hcid : (readCb handler (input.length + 1) (buffered l input s)).2.conn.cCid = 0
      · exact .inl hcid
      · exact .inr ⟨hcid, hlen⟩
  · intro l₁ l₂ hhead hturn
    have hi : InBounds l₁ := hhead.keeps (fun a b ha hb => (turn_again ha hb).1) hstart
    exact (turn_again hi hturn).2

/-- An id of a request whose payload is yet to come. -/
theorem heloStart_bounded : ∃ st l', readCb (fun _ s _ _ => (true, s)) 5
    (buffered ⟨acceptedConn, (), [], []⟩ [0, 4, 0, 1] ()) = (st, l') ∧ st ≠ .spinning := by
  obtain ⟨⟨st, l', hread, hst, -⟩, -⟩ := readCb_bounded (.accepted ())
    (fun _ s _ _ => (true, s)) [0, 4, 0, 1] ()
  exact ⟨st, l', hread, hst⟩

end Activations

end UbervisorReadLoop
