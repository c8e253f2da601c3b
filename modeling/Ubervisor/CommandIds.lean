import Ubervisor.IdCircle
import Ubervisor.PythonClient

/-! # Command ids

The cids that `connect`, `_send` and `subs` of one `UbervisorClient` use, in any order of calls.
The counter runs around 1..65535 and skips the cids of the subscriptions. -/
namespace UbervisorCommandIds

open UbervisorIdCircle
open UbervisorValues
open UbervisorPythonClient

/-- Calls. `raised` tells how much `sendall` writes before it raises, if it does. -/
inductive Call where
  | connect
  | send (d p : Bytes) (raised : Option ℕ)
  | subs (p : Bytes) (raised : Option ℕ)

/-- `connect` leaves `_inuse_cids` as it is. -/
def connect (c : Client) : Client := { c with cid := 1, sent := [] }

/-- `_send`: what it returns, nothing after an exception. There is no result of a search that
does not end. -/
def sendRaising (d p : Bytes) (raised : Option ℕ) (c : Client) : Option (Option ℕ × Client) :=
  match send d p c with
  | (.error .endless, _) => none
  | (.error _, c') => some (none, c')
  | (.ok x, c') =>
    match raised with
    | none => some (some x, c')
    | some n => some (none, { c' with sent := c'.sent.take (c.sent.length + n) })

/-- A call to its end, and the cid that it has taken. -/
def perform : Call → Client → Option (Option ℕ × Client)
  | .connect, c => some (none, connect c)
  | .send d p raised, c => (sendRaising d p raised c).map fun (_, c) => (some c.cid, c)
  | .subs p raised, c => (sendRaising (text "SUBS") p raised c).map fun (x, c) =>
    (some c.cid, { c with inuseCids := c.inuseCids ++ x.toList })

/-- The clients that calls lead to. -/
inductive Reached : Client → Prop where
  | new : Reached (connect ⟨0, [], []⟩)
  | tail {c k x c'} : Reached c → perform k c = some (x, c') → Reached c'

/-- Calls on one connection, and the cids that they take. -/
inductive Conversation (c : Client) : List ℕ → Client → Prop where
  | refl : Conversation c [] c
  | tail {l c' k x c''} : Conversation c l c' → perform k c' = some (some x, c'') →
      Conversation c (l ++ [x]) c''

/-- The next cid of a client, and those after it. -/
structure Allocates (c : Client) : Prop where
  ends : (∃ y, IsId 65535 y ∧ y ∉ c.inuseCids) →
    ∃ x, ∀ fuel, 65535 ≤ fuel → incrementCid c.inuseCids fuel c.cid = some x
  free : ∀ fuel x, incrementCid c.inuseCids fuel c.cid = some x →
    IsId 65535 x ∧ UInt16.ofNat x ≠ 0 ∧ x ∉ c.inuseCids
  taken : ∀ k x c', perform k c = some (some x, c') →
    incrementCid c.inuseCids 65535 c.cid = some x ∧ c'.cid = x
  reuse : ∀ k x c₁ l c₂ k' c₃, perform k c = some (some x, c₁) → Conversation c₁ l c₂ →
    perform k' c₂ = some (some x, c₃) → ∀ y, IsId 65535 y → y ∉ c₂.inuseCids → y = x ∨ y ∈ l

variable {c c' c₁ c₂ c₃ : Client} {k k' : Call} {x fuel cid : ℕ} {l inuseCids : List ℕ}

theorem incrementCid_eq (inuseCids : List ℕ) (fuel cid : ℕ) :
    incrementCid inuseCids fuel cid = search 65535 inuseCids fuel cid := by
  induction fuel generalizing cid with
  | zero => rfl
  | succ fuel ih =>
    unfold incrementCid search
    rw [← ih]
    rfl

theorem sendRaising_taken {d p : Bytes} {raised r : Option ℕ}
    (h : sendRaising d p raised c = some (r, c')) :
    incrementCid c.inuseCids 65535 c.cid = some c'.cid ∧ c'.inuseCids = c.inuseCids := by
  unfold sendRaising send at h
  generalize incrementCid c.inuseCids 65535 c.cid = i at h ⊢
  cases i with
  | none => cases h
  | some cid =>
    by_cases hlen : d.length + p.length > 65535
    · simp only [if_pos hlen] at h
      cases h
      exact ⟨rfl, rfl⟩
    · simp only [if_neg hlen] at h
      cases raised with
      | none =>
        cases h
        exact ⟨rfl, rfl⟩
      | some n =>
        cases h
        exact ⟨rfl, rfl⟩

theorem perform_taken (h : perform k c = some (some x, c')) :
    incrementCid c.inuseCids 65535 c.cid = some x ∧ c'.cid = x ∧ c.inuseCids ⊆ c'.inuseCids := by
  cases k with
  | connect => cases h
  | send d p raised =>
    obtain ⟨⟨r, c₁⟩, hsend, heq⟩ := Option.map_eq_some_iff.mp h
    obtain ⟨htaken, hsame⟩ := sendRaising_taken hsend
    cases heq
    exact ⟨htaken, rfl, hsame ▸ List.Subset.refl _⟩
  | subs p raised =>
    obtain ⟨⟨r, c₁⟩, hsend, heq⟩ := Option.map_eq_some_iff.mp h
    obtain ⟨htaken, hsame⟩ := sendRaising_taken hsend
    cases heq
    exact ⟨htaken, rfl, hsame ▸ List.subset_append_left _ _⟩

theorem connect_isId (c : Client) : IsId 65535 (connect c).cid :=
  ⟨le_rfl, Nat.le_add_left 1 65534⟩

theorem incrementCid_nearest (hc : IsId 65535 cid) (h : incrementCid inuseCids fuel cid = some x) :
    IsId 65535 x ∧ x ∉ inuseCids := by
  rw [incrementCid_eq] at h
  exact ⟨(search_nearest hc h).1, (search_nearest hc h).2.1⟩

/-- Only `connect` takes no cid. -/
theorem perform_none (h : perform k c = some (none, c')) : c' = connect c := by
  cases k with
  | connect =>
    cases h
    rfl
  | send d p raised =>
    obtain ⟨_, _, heq⟩ := Option.map_eq_some_iff.mp h
    cases heq
  | subs p raised =>
    obtain ⟨_, _, heq⟩ := Option.map_eq_some_iff.mp h
    cases heq

theorem perform_isId {r : Option ℕ} (hc : IsId 65535 c.cid) (h : perform k c = some (r, c')) :
    IsId 65535 c'.cid := by
  cases r with
  | none =>
    rw [perform_none h]
    exact connect_isId c
  | some x =>
    obtain ⟨hx, hcid, -⟩ := perform_taken h
    rw [hcid]
    exact (incrementCid_nearest hc hx).1

theorem reached_isId (h : Reached c) : IsId 65535 c.cid := by
  induction h with
  | new => exact connect_isId _
  | tail _ hk ih => exact perform_isId ih hk

/-- A conversation grants ids around the circle. -/
theorem conversation_grants (h : Conversation c l c') :
    Grants 65535 c.cid c.inuseCids l c'.cid c'.inuseCids := by
  induction h with
  | refl => exact .refl
  | tail _ hk ih =>
    obtain ⟨hx, hcid, hsub⟩ := perform_taken hk
    rw [incrementCid_eq] at hx
    rw [hcid]
    exact .tail ih hx hsub

theorem incrementCid_ends {y : ℕ} (hc : IsId 65535 cid) (hy : IsId 65535 y)
    (hfree : y ∉ inuseCids) :
    ∃ x, ∀ fuel, 65535 ≤ fuel → incrementCid inuseCids fuel cid = some x := by
  obtain ⟨x, hx⟩ := search_isSome hc hy hfree (ahead_le hc hy)
  refine ⟨x, fun fuel hfuel => ?_⟩
  rw [incrementCid_eq]
  exact search_mono hx hfuel

theorem cid_ne_zero (hx : IsId 65535 x) : UInt16.ofNat x ≠ 0 := by
  intro h
  have hnat := congrArg UInt16.toNat h
  obtain ⟨hpos, hle⟩ := hx
  rw [UInt16.toNat_ofNat', UInt16.toNat_zero] at hnat
  omega

theorem conversation_reuse (hc : IsId 65535 c.cid) (hk : perform k c = some (some x, c₁))
    (hconv : Conversation c₁ l c₂) (hk' : perform k' c₂ = some (some x, c₃)) {y : ℕ}
    (hy : IsId 65535 y) (hfree : y ∉ c₂.inuseCids) : y = x ∨ y ∈ l := by
  obtain ⟨hx, hcid, -⟩ := perform_taken hk
  obtain ⟨hagain, -, -⟩ := perform_taken hk'
  have hgrants := conversation_grants hconv
  rw [hcid] at hgrants
  rw [incrementCid_eq] at hagain
  exact hgrants.granted (incrementCid_nearest hc hx).1 hagain hy hfree

/-- After any calls the next cid is found and free, and no cid comes again before the others. -/
theorem reached_allocates (h : Reached c) : Allocates c where
  ends := by
    rintro ⟨y, hy, hfree⟩
    exact incrementCid_ends (reached_isId h) hy hfree
  free fuel x hx := by
    obtain ⟨hid, hfree⟩ := incrementCid_nearest (reached_isId h) hx
    exact ⟨hid, cid_ne_zero hid, hfree⟩
  taken k x c' hk := by
    obtain ⟨hx, hcid, -⟩ := perform_taken hk
    exact ⟨hx, hcid⟩
  reuse _ _ _ _ _ _ _ hk hconv hk' _ hy hfree :=
    conversation_reuse (reached_isId h) hk hconv hk' hy hfree

/-- A subscription, a `sendall` that raises, and a new connection. -/
theorem reconnected_allocates : Allocates ⟨1, [3], []⟩ := by
  have hsubs : Reached _ :=
    .tail (k := .subs [] none) (.tail (k := .send (text "HELO") [] none) .new rfl) rfl
  have hraised : Reached _ := .tail (k := .send [] [] (some 3)) hsubs rfl
  exact reached_allocates (.tail (k := .connect) hraised rfl)

end UbervisorCommandIds
