import Mathlib.Algebra.Order.Group.Int
import Mathlib.Data.List.Basic
import Mathlib.Data.List.Infix

/-! # Error counters with one time stamp

A counter of errors that is set back when an error comes more than a period after the last
one, or from outside. Its count is compared with the errors of a window of the length of the
period, and with the series of errors it really counts. -/
namespace UbervisorErrorCounters

/-- A number of errors and the time of the last one. -/
structure Counter where
  count : ℤ
  last : ℤ
  deriving DecidableEq

inductive Mark where
  | error (t : ℤ)
  | reset
  deriving DecidableEq

/-- The count an error at time `t` is added to. -/
def Counter.carried (period : ℤ) (c : Counter) (t : ℤ) : ℤ :=
  if c.last + period < t then 0 else c.count

def Counter.mark (period : ℤ) (c : Counter) : Mark → Counter
  | .error t => ⟨c.carried period t + 1, t⟩
  | .reset => { c with count := 0 }

def Counter.after (period : ℤ) (c : Counter) (l : List Mark) : Counter :=
  l.foldl (Counter.mark period) c

/-- The times of the errors. -/
def times (l : List Mark) : List ℤ :=
  l.filterMap fun
    | .error t => some t
    | .reset => none

variable {period z a t : ℤ} {c : Counter} {l m : List Mark} {ts : List ℤ}

@[simp] theorem after_nil : c.after period [] = c := rfl

@[simp] theorem after_cons {x : Mark} : c.after period (x :: l) =
    (c.mark period x).after period l := rfl

theorem after_append : c.after period (l ++ m) = (c.after period l).after period m :=
  List.foldl_append

@[simp] theorem times_append : times (l ++ m) = times l ++ times m := List.filterMap_append

theorem after_resets (h : ∀ x ∈ l, x = Mark.reset) (hl : l ≠ []) :
    c.after period l = { c with count := 0 } := by
  induction l generalizing c with
  | nil => exact absurd rfl hl
  | cons x l ih =>
    rw [h x (by simp), after_cons]
    by_cases hn : l = []
    · subst hn
      rfl
    · rw [ih (fun y hy => h y (List.mem_cons_of_mem _ hy)) hn]
      rfl

section Windows

/-- Errors inside a window that the last one does not precede are all counted. -/
theorem after_within (hts : ∀ t ∈ ts, a ≤ t ∧ t ≤ a + period) (hc : a ≤ c.last) :
    (c.after period (ts.map .error)).count = c.count + ts.length := by
  induction ts generalizing c with
  | nil => simp
  | cons t ts ih =>
    obtain ⟨h₁, h₂⟩ := hts t (by simp)
    have hcarried : c.carried period t = c.count := if_neg (by omega)
    have hrest := ih (c := c.mark period (.error t))
      (fun t' h => hts t' (List.mem_cons_of_mem _ h)) h₁
    rw [List.map_cons, after_cons, hrest, Counter.mark, hcarried, List.length_cons]
    push_cast
    omega

/-- The count after a burst of errors. -/
theorem after_burst (hts : ∀ t' ∈ t :: ts, a ≤ t' ∧ t' ≤ a + period) :
    (c.after period ((t :: ts).map .error)).count = c.carried period t + (ts.length + 1) := by
  have hrest := after_within (c := c.mark period (.error t))
    (fun t' h => hts t' (List.mem_cons_of_mem _ h)) (hts t (by simp)).1
  rw [List.map_cons, after_cons, hrest]
  simp only [Counter.mark]
  omega

/-- The counter is not behind, unless it still stands at its first time `z`. -/
def Settled (z : ℤ) (c : Counter) : Prop := 0 ≤ c.count ∨ c.last = z

theorem Settled.carried_nonneg (h : Settled z c) (ht : z + period < t) :
    0 ≤ c.carried period t := by
  unfold Counter.carried
  split
  · exact Int.le_refl 0
  · rename_i hlast
    rcases h with hc | hz
    · exact hc
    · omega

theorem Settled.mark {x : Mark} (h : Settled z c) (hx : ∀ t, x = .error t → z + period < t) :
    Settled z (c.mark period x) := by
  left
  cases x with
  | reset => exact Int.le_refl 0
  | error t =>
    have hn := h.carried_nonneg (hx t rfl)
    simp only [Counter.mark]
    omega

theorem Settled.after (h : Settled z c) (hl : ∀ t ∈ times l, z + period < t) :
    Settled z (c.after period l) := by
  induction l generalizing c with
  | nil => exact h
  | cons x l ih =>
    apply ih
    · apply h.mark
      intro t hx
      apply hl
      simp [times, hx]
    · intro t ht
      apply hl
      rw [times, List.filterMap_cons]
      split
      · exact ht
      · exact List.mem_cons_of_mem _ ht

end Windows

section Series

/-- An error at time `t` continues a series, newest first, or begins a new one. -/
def extend (period t : ℤ) : List ℤ → List ℤ
  | [] => [t]
  | r :: l => if r + period < t then [t] else t :: r :: l

/-- The last errors of which no two in succession are more than a period apart, newest first. -/
def series (period : ℤ) (l : List Mark) : List ℤ :=
  l.foldl (fun S x => match x with
    | .error t => extend period t S
    | .reset => []) []

theorem series_error : series period (l ++ [.error t]) = extend period t (series period l) := by
  rw [series, List.foldl_append]
  rfl

theorem series_resets (h : ∀ x ∈ m, x = Mark.reset) (hm : m ≠ []) :
    series period (l ++ m) = [] := by
  induction m using List.reverseRecOn with
  | nil => exact absurd rfl hm
  | append_singleton m x _ =>
    rw [h x (by simp), ← List.append_assoc, series, List.foldl_append]
    rfl

theorem extend_sublist {S : List ℤ} (h : S.Sublist ts) :
    (extend period t S).Sublist (t :: ts) := by
  cases S with
  | nil => exact (List.nil_sublist ts).cons_cons t
  | cons r S =>
    rw [extend]
    split
    · exact (List.nil_sublist ts).cons_cons t
    · exact h.cons_cons t

theorem series_sublist : (series period l).Sublist (times l).reverse := by
  induction l using List.reverseRecOn with
  | nil => exact List.Sublist.refl _
  | append_singleton l x ih =>
    cases x with
    | error t =>
      rw [series_error, times_append, List.reverse_append]
      exact extend_sublist ih
    | reset =>
      rw [series_resets (by simp) (by simp)]
      exact List.nil_sublist _

/-- The counter counts no more than the series, which may still be empty at time `z`. -/
def Bounded (z : ℤ) (c : Counter) : List ℤ → Prop
  | [] => c.count ≤ 0 ∨ c.last = z
  | t :: S => c.last = t ∧ c.count ≤ S.length + 1

theorem Bounded.error {S : List ℤ} (h : Bounded z c S)
    (ht : S = [] → c.count ≤ 0 ∨ z + period < t) :
    Bounded z (c.mark period (.error t)) (extend period t S) := by
  cases S with
  | nil =>
    refine ⟨rfl, ?_⟩
    simp only [Counter.mark, Counter.carried, List.length_nil]
    rcases h with hc | hz
    · split <;> omega
    · rcases ht rfl with hc | ht
      · split <;> omega
      · rw [if_pos (by omega)]
        omega
  | cons r S =>
    obtain ⟨hlast, hcount⟩ := h
    rw [extend, Counter.mark, Counter.carried, hlast]
    split
    · exact ⟨rfl, by simp⟩
    · refine ⟨rfl, ?_⟩
      rw [List.length_cons]
      push_cast
      omega

theorem Bounded.count_le {S : List ℤ} (h : Bounded z c S) (hS : S ≠ []) : c.count ≤ S.length := by
  cases S with
  | nil => exact absurd rfl hS
  | cons t S =>
    rw [List.length_cons]
    push_cast
    exact h.2

end Series

end UbervisorErrorCounters
