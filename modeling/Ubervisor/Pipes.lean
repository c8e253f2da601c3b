import Mathlib.Data.List.Basic

/-! # Buffers in a row

What is put into a row of buffers comes out of it in order, and what has not come out yet is in
the buffers. Rows are put behind one another. -/
namespace UbervisorPipes

variable {α : Type*} {given taken mid x : List α} {held p q : List (List α)} {b h : List α}

/-- Of what was given, the first part was taken, and the buffers hold the rest. The buffer that
is emptied by the taker comes first. -/
def Carried (given taken : List α) (held : List (List α)) : Prop :=
  given = taken ++ held.flatten

theorem Carried.start (h : ∀ b ∈ held, b = []) : Carried ([] : List α) [] held :=
  (List.flatten_eq_nil_iff.mpr h).symm

/-- Something is put into a buffer, and those after it are empty. -/
theorem Carried.fill (c : Carried given taken (p ++ b :: q)) (x : List α)
    (h : ∀ a ∈ q, a = []) : Carried (given ++ x) taken (p ++ (b ++ x) :: q) := by
  unfold Carried at c ⊢
  rw [c]
  simp [List.flatten_eq_nil_iff.mpr h]

/-- Something is put into the last buffer. -/
theorem Carried.put (c : Carried given taken (p ++ [b])) (x : List α) :
    Carried (given ++ x) taken (p ++ [b ++ x]) :=
  c.fill x fun _ h => absurd h List.not_mem_nil

/-- The front of the first buffer is taken. -/
theorem Carried.take (c : Carried given taken (h :: held)) (k : ℕ) :
    Carried given (taken ++ h.take k) (h.drop k :: held) := by
  unfold Carried at c ⊢
  rw [c]
  simp only [List.flatten_cons, List.append_assoc]
  rw [← List.append_assoc (h.take k), List.take_append_drop]

/-- What one row yields is given to the next. -/
theorem Carried.comp (c : Carried given mid held) (d : Carried mid taken p) :
    Carried given taken (p ++ held) := by
  unfold Carried at c d ⊢
  rw [c, d, List.flatten_append, List.append_assoc]

end UbervisorPipes
