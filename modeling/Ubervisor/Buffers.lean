import Mathlib.Data.List.Infix

/-! # Buffers

Loads, stores and moves in a buffer of fixed length, which fail out of its bounds, and the first
occurrence of one list in another. -/
namespace UbervisorBuffers

variable {α : Type*}

def load (m : List α) (i n : ℕ) : Option (List α) :=
  if i + n ≤ m.length then some ((m.drop i).take n) else none

def store (m : List α) (i : ℕ) (x : List α) : Option (List α) :=
  if i + x.length ≤ m.length then some (m.take i ++ x ++ m.drop (i + x.length)) else none

/-- The ranges may overlap: what is stored is what was there before. -/
def move (m : List α) (dst src n : ℕ) : Option (List α) := (load m src n).bind (store m dst)

section Rules

variable {l x y r : List α}

theorem load_append (l x r : List α) : load (l ++ x ++ r) l.length x.length = some x := by
  unfold load
  rw [if_pos (by simp), List.append_assoc, List.drop_left, List.take_left]

theorem store_append (h : y.length = x.length) :
    store (l ++ x ++ r) l.length y = some (l ++ y ++ r) := by
  unfold store
  rw [if_pos (by simp [h]), List.append_assoc l x r, List.take_left, List.drop_append, h]
  simp

/-- `y` is moved down over `x`. -/
theorem move_down (l x y r : List α) : move (l ++ x ++ y ++ r) l.length (l.length + x.length)
    y.length = some (l ++ y ++ ((x ++ y).drop y.length ++ r)) := by
  have hload : load (l ++ x ++ y ++ r) (l.length + x.length) y.length = some y := by
    rw [← List.length_append]
    exact load_append (l ++ x) y r
  have hstore : store (l ++ (x ++ y).take y.length ++ ((x ++ y).drop y.length ++ r)) l.length y =
      some (l ++ y ++ ((x ++ y).drop y.length ++ r)) := by
    refine store_append ?_
    simp
  have hsplit : l ++ x ++ y ++ r =
      l ++ (x ++ y).take y.length ++ ((x ++ y).drop y.length ++ r) := by
    calc l ++ x ++ y ++ r = l ++ (x ++ y) ++ r := by simp only [List.append_assoc]
      _ = l ++ ((x ++ y).take y.length ++ (x ++ y).drop y.length) ++ r := by
        rw [List.take_append_drop]
      _ = _ := by simp only [List.append_assoc]
  rw [move, hload, Option.bind_some, hsplit, hstore]

end Rules

section Occurrences

variable {a s pre suf : List α}

/-- `a` is found in `s` behind `pre`, and not before. -/
structure FirstAt (a s pre suf : List α) : Prop where
  whole : s = pre ++ a ++ suf
  first : ∀ k < pre.length, ¬ a <+: s.drop k

/-- The place of the first occurrence of `a`. -/
def position [DecidableEq α] (a : List α) : List α → Option ℕ
  | [] => if a = [] then some 0 else none
  | c :: s => if a <+: c :: s then some 0 else (position a s).map (· + 1)

theorem FirstAt.cons {c : α} (h : FirstAt a s pre suf) (hc : ¬ a <+: c :: s) :
    FirstAt a (c :: s) (c :: pre) suf where
  whole := by rw [h.whole]; rfl
  first k hk := by
    cases k with
    | zero => exact hc
    | succ k => exact h.first k (Nat.lt_of_succ_lt_succ hk)

theorem FirstAt.tail {c : α} (h : FirstAt a (c :: s) (c :: pre) suf) : FirstAt a s pre suf where
  whole := (List.cons.inj h.whole).2
  first k hk := h.first (k + 1) (Nat.succ_lt_succ hk)

variable [DecidableEq α]

theorem position_some {p : ℕ} (h : position a s = some p) :
    ∃ pre suf, FirstAt a s pre suf ∧ pre.length = p := by
  induction s generalizing p with
  | nil =>
    unfold position at h
    split at h
    · rename_i ha
      cases h
      exact ⟨[], [], ⟨by simp [ha], nofun⟩, rfl⟩
    · cases h
  | cons c s ih =>
    unfold position at h
    split at h
    · rename_i ha
      cases h
      obtain ⟨suf, hsuf⟩ := ha
      exact ⟨[], suf, ⟨hsuf.symm, nofun⟩, rfl⟩
    · rename_i ha
      obtain ⟨q, hq, rfl⟩ := Option.map_eq_some_iff.mp h
      obtain ⟨pre, suf, hfirst, hlen⟩ := ih hq
      exact ⟨c :: pre, suf, hfirst.cons ha, by rw [List.length_cons, hlen]⟩

theorem position_none (h : position a s = none) : ¬ a <:+: s := by
  induction s with
  | nil =>
    unfold position at h
    split at h
    · cases h
    · rename_i ha
      rwa [List.infix_nil]
  | cons c s ih =>
    unfold position at h
    split at h
    · cases h
    · rename_i ha
      rw [List.infix_cons_iff]
      rintro (hp | hi)
      · exact ha hp
      · exact ih (Option.map_eq_none_iff.mp h) hi

/-- There is only one first occurrence. -/
theorem FirstAt.position (h : FirstAt a s pre suf) : position a s = some pre.length := by
  induction pre generalizing s with
  | nil =>
    have hp : a <+: s := ⟨suf, h.whole.symm⟩
    cases s with
    | nil =>
      rw [UbervisorBuffers.position, if_pos (List.prefix_nil.mp hp)]
      rfl
    | cons c s =>
      rw [UbervisorBuffers.position, if_pos hp]
      rfl
  | cons c pre ih =>
    obtain ⟨d, s, rfl⟩ := List.exists_cons_of_ne_nil (l := s) fun he => by
      have hw := h.whole
      rw [he] at hw
      cases hw
    cases (List.cons.inj h.whole).1
    have hc : ¬ a <+: c :: s := h.first 0 (Nat.succ_pos _)
    rw [UbervisorBuffers.position, if_neg hc, ih h.tail]
    rfl

end Occurrences

end UbervisorBuffers
