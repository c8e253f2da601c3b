import Mathlib.Order.Basic

/-! # Loops

A `while (1)` whose body returns or comes back to the head of the loop. -/
namespace UbervisorLoops

variable {α β : Type*}

/-- At most `n` turns. -/
def run (body : α → β ⊕ α) : ℕ → α → Option β
  | 0, _ => none
  | n + 1, a =>
    match body a with
    | .inl b => some b
    | .inr a => run body n a

/-- The states in which a loop that starts in `a` is at its head. -/
inductive Head (body : α → β ⊕ α) (a : α) : α → Prop where
  | start : Head body a a
  | again {b c} : Head body a b → body b = .inr c → Head body a c

section Rules

variable {body : α → β ⊕ α} {I : α → Prop} {Q : β → Prop} {a b : α}

theorem Head.keeps (hI : ∀ a b, I a → body a = .inr b → I b) (ha : I a) (h : Head body a b) :
    I b := by
  induction h with
  | start => exact ha
  | again _ hb ih => exact hI _ _ ih hb

/-- A loop whose turns take at least one from `μ` returns. -/
theorem run_returns {μ : α → ℕ} (hI : ∀ a b, I a → body a = .inr b → I b ∧ μ b < μ a)
    (ha : I a) {n : ℕ} (hn : μ a < n) : ∃ x, run body n a = some x := by
  induction n generalizing a with
  | zero => exact absurd hn (Nat.not_lt_zero _)
  | succ n ih =>
    unfold run
    split
    · exact ⟨_, rfl⟩
    · rename_i b hb
      obtain ⟨hi, hlt⟩ := hI a b ha hb
      exact ih hi (by omega)

theorem run_post (hI : ∀ a b, I a → body a = .inr b → I b)
    (hQ : ∀ a x, I a → body a = .inl x → Q x) (ha : I a) {n : ℕ} {x : β}
    (h : run body n a = some x) : Q x := by
  induction n generalizing a with
  | zero => cases h
  | succ n ih =>
    unfold run at h
    split at h
    · rename_i hb
      cases h
      exact hQ a _ ha hb
    · rename_i b hb
      exact ih (hI a b ha hb) h

end Rules

end UbervisorLoops
