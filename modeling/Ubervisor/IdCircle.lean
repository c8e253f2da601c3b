import Mathlib.Data.Nat.Basic
import Mathlib.Tactic.ByContra

/-! # Ids given out around a circle

The ids 1..n, and a search that goes on from the last id until one is not busy. -/
namespace UbervisorIdCircle

def IsId (n x : ℕ) : Prop := 1 ≤ x ∧ x ≤ n

def next (n c : ℕ) : ℕ := if c + 1 > n then 1 else c + 1

/-- The steps from `c` to `y`; once around from `c` to itself. -/
def ahead (n c y : ℕ) : ℕ := if c < y then y - c else n + y - c

def search (n : ℕ) (busy : List ℕ) : ℕ → ℕ → Option ℕ
  | 0, _ => none
  | fuel + 1, c =>
    if next n c ∈ busy then search n busy fuel (next n c) else some (next n c)

/-- Ids granted one after the other from the id `c` on, while the busy ones become more: what has
been granted, the last id and the busy ones. -/
inductive Grants (n c : ℕ) (busy : List ℕ) : List ℕ → ℕ → List ℕ → Prop where
  | refl : Grants n c busy [] c busy
  | tail {l c' x fuel busy' busy''} : Grants n c busy l c' busy' →
      search n busy' fuel c' = some x → busy' ⊆ busy'' → Grants n c busy (l ++ [x]) x busy''

variable {n c x y fuel : ℕ} {busy : List ℕ}

theorem isId_next (hc : IsId n c) : IsId n (next n c) := by
  unfold next
  split
  · exact ⟨le_rfl, le_trans hc.1 hc.2⟩
  · exact ⟨by omega, by omega⟩

theorem ahead_pos (hc : IsId n c) (hy : IsId n y) : 0 < ahead n c y := by
  obtain ⟨hc, hcn⟩ := hc
  obtain ⟨hy, hyn⟩ := hy
  unfold ahead
  split <;> omega

theorem ahead_le (hc : IsId n c) (hy : IsId n y) : ahead n c y ≤ n := by
  obtain ⟨hc, hcn⟩ := hc
  obtain ⟨hy, hyn⟩ := hy
  unfold ahead
  split <;> omega

theorem ahead_self : ahead n c (next n c) ≤ 1 := by
  unfold ahead next
  split <;> split <;> omega

/-- A step brings every other id one nearer. -/
theorem ahead_next (hc : IsId n c) (hy : IsId n y) (hne : y ≠ next n c) :
    ahead n c y = ahead n (next n c) y + 1 := by
  obtain ⟨hc, hcn⟩ := hc
  obtain ⟨hy, hyn⟩ := hy
  unfold ahead next at *
  split at hne <;> split <;> split <;> omega

/-- The nearest id that is not busy is found. -/
theorem search_nearest (hc : IsId n c) (h : search n busy fuel c = some x) :
    IsId n x ∧ x ∉ busy ∧ ∀ y, IsId n y → y ∉ busy → ahead n c x ≤ ahead n c y := by
  induction fuel generalizing c with
  | zero => cases h
  | succ fuel ih =>
    have hnext := isId_next hc
    unfold search at h
    by_cases hb : next n c ∈ busy
    · rw [if_pos hb] at h
      obtain ⟨hx, hfree, hmin⟩ := ih hnext h
      refine ⟨hx, hfree, fun y hy hyb => ?_⟩
      have hxn : x ≠ next n c := fun he => hfree (he ▸ hb)
      have hyn : y ≠ next n c := fun he => hyb (he ▸ hb)
      rw [ahead_next hc hx hxn, ahead_next hc hy hyn]
      exact Nat.succ_le_succ (hmin y hy hyb)
    · rw [if_neg hb] at h
      obtain rfl := Option.some.inj h
      exact ⟨hnext, hb, fun y hy _ => le_trans ahead_self (ahead_pos hc hy)⟩

/-- The distance of an id that is not busy bounds the search. -/
theorem search_isSome (hc : IsId n c) (hy : IsId n y) (hfree : y ∉ busy)
    (hfuel : ahead n c y ≤ fuel) : ∃ x, search n busy fuel c = some x := by
  induction fuel generalizing c with
  | zero => exact absurd hfuel (Nat.not_le.mpr (ahead_pos hc hy))
  | succ fuel ih =>
    unfold search
    by_cases hb : next n c ∈ busy
    · rw [if_pos hb]
      have hne : y ≠ next n c := fun he => hfree (he ▸ hb)
      have hstep := ahead_next hc hy hne
      exact ih (isId_next hc) (by omega)
    · exact ⟨_, if_neg hb⟩

theorem search_mono {fuel' : ℕ} (h : search n busy fuel c = some x) (hle : fuel ≤ fuel') :
    search n busy fuel' c = some x := by
  induction fuel generalizing c fuel' with
  | zero => cases h
  | succ fuel ih =>
    obtain ⟨k, rfl⟩ := Nat.exists_eq_add_of_le' hle
    change search n busy ((k + fuel) + 1) c = some x
    unfold search at h ⊢
    by_cases hb : next n c ∈ busy
    · rw [if_pos hb] at h ⊢
      exact ih h (Nat.le_add_left fuel k)
    · rw [if_neg hb] at h ⊢
      exact h

section Runs

variable {c' : ℕ} {busy' l : List ℕ}

theorem Grants.isId (h : Grants n c busy l c' busy') (hc : IsId n c) : IsId n c' := by
  induction h with
  | refl => exact hc
  | tail _ hx _ ih => exact (search_nearest ih hx).1

/-- An id that stays free and is not granted stays ahead, and comes nearer. -/
theorem Grants.ahead_le (h : Grants n c busy l c' busy') (hc : IsId n c) (hy : IsId n y)
    (hfree : y ∉ busy') (hl : y ∉ l) (hne : y ≠ c) :
    y ≠ c' ∧ ahead n c' y ≤ ahead n c y := by
  induction h with
  | refl => exact ⟨hne, le_rfl⟩
  | @tail l c' x fuel busy' busy'' hrun hx hsub ih =>
    rw [List.mem_append, List.mem_singleton, not_or] at hl
    have hfree' : y ∉ busy' := fun hb => hfree (hsub hb)
    obtain ⟨hne', hle⟩ := ih hfree' hl.1
    obtain ⟨hc₁, hcn⟩ := hrun.isId hc
    obtain ⟨⟨hx₁, hxn⟩, -, hmin⟩ := search_nearest (hrun.isId hc) hx
    have hnear := hmin y hy hfree'
    obtain ⟨hy₁, hyn⟩ := hy
    refine ⟨hl.2, le_trans ?_ hle⟩
    have hyx := hl.2
    unfold UbervisorIdCircle.ahead at hnear ⊢
    split at hnear <;> split at hnear <;> split <;> omega

/-- Between two grants of an id every id that stays free is granted. -/
theorem Grants.granted (h : Grants n x busy l c' busy') (hx : IsId n x)
    (hagain : search n busy' fuel c' = some x) (hy : IsId n y) (hfree : y ∉ busy') :
    y = x ∨ y ∈ l := by
  by_contra hnot
  rw [not_or] at hnot
  obtain ⟨hne, hle⟩ := h.ahead_le hx hy hfree hnot.2 hnot.1
  have hnear := (search_nearest (h.isId hx) hagain).2.2 y hy hfree
  have hyx := hnot.1
  obtain ⟨hc₁, hcn⟩ := h.isId hx
  obtain ⟨hx₁, hxn⟩ := hx
  obtain ⟨hy₁, hyn⟩ := hy
  unfold ahead at hle hnear
  split at hle <;> split at hle <;> split at hnear <;> omega

end Runs

end UbervisorIdCircle
