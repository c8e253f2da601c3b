import Mathlib.Algebra.Group.Defs
import Mathlib.Data.List.Basic
import Mathlib.Logic.Relation

/-! # Executions of a labelled transition system

A step relation over arbitrary states and labels, the executions whose steps all meet a
side condition, and the induction rules that safety arguments over whole runs use. -/
namespace UbervisorRuns

variable {σ ε : Type*} {step : σ → ε → σ → Prop} {Q R : σ → ε → σ → Prop}

/-- Finite executions from `s`, every step of which satisfies `Q`. -/
inductive Execution (step Q : σ → ε → σ → Prop) : σ → σ → Prop where
  | refl (s) : Execution step Q s s
  | tail {s u v e} : Execution step Q s u → step u e v → Q u e v → Execution step Q s v

/-- The side condition that every step meets. -/
def Always : σ → ε → σ → Prop := fun _ _ _ => True

instance (s : σ) (e : ε) (u : σ) : Decidable (Always s e u) := isTrue trivial

theorem Execution.single {u v : σ} {e : ε} (h : step u e v) (hq : Q u e v) :
    Execution step Q u v := .tail (.refl u) h hq

theorem Execution.trans {s u v : σ} (h : Execution step Q s u)
    (k : Execution step Q u v) : Execution step Q s v := by
  induction k with
  | refl => exact h
  | tail _ hs hq ih => exact .tail ih hs hq

theorem Execution.mono {s u : σ} (hqr : ∀ a e b, Q a e b → R a e b)
    (h : Execution step Q s u) : Execution step R s u := by
  induction h with
  | refl => exact .refl _
  | tail _ hs hq ih => exact .tail ih hs (hqr _ _ _ hq)

theorem Execution.always {s u : σ} (h : Execution step Q s u) :
    Execution step Always s u := h.mono fun _ _ _ _ => trivial

/-- The invariant rule: what the first state has and every admissible step keeps,
the last state has. -/
theorem Execution.invariant {P : σ → Prop} {s u : σ} (h : Execution step Q s u)
    (keep : ∀ a e b, P a → step a e b → Q a e b → P b) (hs : P s) : P u := by
  induction h with
  | refl => exact hs
  | tail _ hst hq ih => exact keep _ _ _ ih hst hq

/-- An invariant rule that may use an invariant proved before. -/
theorem Execution.invariant_under {I P : σ → Prop} {s u : σ} (h : Execution step Q s u)
    (inv : ∀ a e b, I a → step a e b → Q a e b → I b)
    (keep : ∀ a e b, I a → P a → step a e b → Q a e b → P b)
    (hi : I s) (hs : P s) : P u := by
  have both : I u ∧ P u := h.invariant (P := fun a => I a ∧ P a)
    (fun a e b ⟨ia, pa⟩ hst hq => ⟨inv a e b ia hst hq, keep a e b ia pa hst hq⟩) ⟨hi, hs⟩
  exact both.2

section Totals

variable {M : Type*} [AddMonoid M] {w : σ → ε → σ → M}

/-- Executions together with the sum of a weight of their steps. -/
inductive Totals (step Q : σ → ε → σ → Prop) (w : σ → ε → σ → M) : σ → σ → M → Prop where
  | refl (s) : Totals step Q w s s 0
  | tail {s u v e m} : Totals step Q w s u m → step u e v → Q u e v →
      Totals step Q w s v (m + w u e v)

/-- Steps that weigh nothing add up to nothing. -/
theorem Totals.eq_zero {I : σ → Prop} {s u : σ} {m : M} (h : Totals step Q w s u m)
    (inv : ∀ a e b, I a → step a e b → Q a e b → I b ∧ w a e b = 0) (hs : I s) : m = 0 := by
  have both : I u ∧ m = 0 := by
    induction h with
    | refl => exact ⟨hs, rfl⟩
    | tail _ hst hq ih =>
      obtain ⟨hi, hzero⟩ := inv _ _ _ ih.1 hst hq
      refine ⟨hi, ?_⟩
      rw [ih.2, hzero, add_zero]
  exact both.2

end Totals

section Deterministic

variable {Enabled : σ → ε → Prop} {next : σ → ε → σ}

/-- A guarded deterministic step. -/
def Guarded (Enabled : σ → ε → Prop) (next : σ → ε → σ) (s : σ) (e : ε) (u : σ) : Prop :=
  Enabled s e ∧ u = next s e

/-- The state after a list of labels. -/
def stateAfter (next : σ → ε → σ) : σ → List ε → σ := List.foldl next

/-- Every label of the list is enabled when its turn comes, and its step satisfies `Q`. -/
def Admits (Enabled : σ → ε → Prop) (next : σ → ε → σ) (Q : σ → ε → σ → Prop) :
    σ → List ε → Prop
  | _, [] => True
  | s, e :: es => Enabled s e ∧ Q s e (next s e) ∧ Admits Enabled next Q (next s e) es

instance admitsDecidable [∀ s e, Decidable (Enabled s e)] [∀ s e u, Decidable (Q s e u)] :
    ∀ (s : σ) (es : List ε), Decidable (Admits Enabled next Q s es)
  | _, [] => isTrue trivial
  | s, e :: es =>
    have := admitsDecidable (next s e) es
    inferInstanceAs (Decidable (_ ∧ _ ∧ _))

theorem Admits.execution {s : σ} {es : List ε} (h : Admits Enabled next Q s es) :
    Execution (Guarded Enabled next) Q s (stateAfter next s es) := by
  induction es generalizing s with
  | nil => exact .refl s
  | cons e es ih => exact (Execution.single ⟨h.1, rfl⟩ h.2.1).trans (ih h.2.2)

end Deterministic

section Weighed

variable {M : Type*} [AddMonoid M] {w : σ → ε → σ → M} {Enabled : σ → ε → Prop}
  {next : σ → ε → σ}

/-- The sum of the weights of the steps that a list of labels makes, on top of `m`. -/
def totalFrom (next : σ → ε → σ) (w : σ → ε → σ → M) (s : σ) (m : M) : List ε → M
  | [] => m
  | e :: es => totalFrom next w (next s e) (m + w s e (next s e)) es

theorem Admits.totals {s : σ} {es : List ε} (h : Admits Enabled next Q s es) :
    Totals (Guarded Enabled next) Q w s (stateAfter next s es) (totalFrom next w s 0 es) := by
  have from_start : ∀ (es : List ε) (u : σ) (m : M), Totals (Guarded Enabled next) Q w s u m →
      Admits Enabled next Q u es → Totals (Guarded Enabled next) Q w s (stateAfter next u es)
        (totalFrom next w u m es) := by
    intro es
    induction es with
    | nil => exact fun u m ht _ => ht
    | cons e es ih => exact fun u m ht ha => ih _ _ (.tail ht ⟨ha.1, rfl⟩ ha.2.1) ha.2.2
  exact from_start es s 0 (.refl s) h

end Weighed

/-- The rule of a counting loop: an invariant indexed by the counter. -/
theorem foldl_range_rule {I : ℕ → σ → Prop} {f : σ → ℕ → σ} {s : σ} {a n : ℕ}
    (start : I a s) (turn : ∀ i u, a ≤ i → i < a + n → I i u → I (i + 1) (f u i)) :
    I (a + n) ((List.range' a n).foldl f s) := by
  induction n with
  | zero => exact start
  | succ n ih =>
    rw [List.range'_concat, List.foldl_append, Nat.one_mul]
    have hn := ih fun i u ha hi hu => turn i u ha (by omega) hu
    exact turn (a + n) _ (by omega) (by omega) hn

end UbervisorRuns
