import Mathlib.Data.Nat.Notation
import Mathlib.Data.Option.Basic
import Mathlib.Logic.Function.Basic

/-! # Tables of file descriptors

What the numbers of a process refer to, and which of them `exec` closes. A table is copied by
`fork`. -/
namespace UbervisorDescriptors

variable {ο : Type*}

/-- An open descriptor. -/
structure Entry (ο : Type*) where
  obj : ο
  cloexec : Bool
  deriving DecidableEq

abbrev Table (ο : Type*) := ℕ → Option (Entry ο)

/-- A new descriptor. It is kept by `exec`. -/
def put (t : Table ο) (n : ℕ) (o : ο) : Table ο := Function.update t n (some ⟨o, false⟩)

def close (t : Table ο) (n : ℕ) : Table ο := Function.update t n none

def setCloexec (t : Table ο) (n : ℕ) : Table ο :=
  Function.update t n ((t n).map fun e => { e with cloexec := true })

/-- The copy is kept by `exec`. -/
def dup2 (t : Table ο) (a b : ℕ) : Table ο :=
  match t a with
  | none => t
  | some e => if a = b then t else Function.update t b (some ⟨e.obj, false⟩)

/-- All descriptors of some objects are closed. -/
def closeAll (t : Table ο) (p : ο → Bool) : Table ο := fun n => (t n).filter fun e => !p e.obj

/-- The descriptors that a program finds open when it is executed. -/
def exec (t : Table ο) : Table ο := fun n => (t n).filter fun e => !e.cloexec

/-- The number that `open` returns. -/
def Lowest (t : Table ο) (n : ℕ) : Prop := t n = none ∧ ∀ m < n, t m ≠ none

/-- An object is opened, and becomes the stream `std`. Nothing happens if it cannot be opened. -/
def redirect (t : Table ο) (std : ℕ) (o : ο) (r : Option ℕ) : Table ο :=
  match r with
  | some n => close (dup2 (put t n o) n std) n
  | none => t

section Lookups

variable {t : Table ο} {n m : ℕ} {o : ο} {e : Entry ο}

@[simp] theorem put_self : put t n o n = some ⟨o, false⟩ := Function.update_self ..

theorem put_of_ne (h : m ≠ n) : put t n o m = t m := Function.update_of_ne h _ _

@[simp] theorem close_self : close t n n = none := Function.update_self ..

theorem close_of_ne (h : m ≠ n) : close t n m = t m := Function.update_of_ne h _ _

theorem setCloexec_of_ne (h : m ≠ n) : setCloexec t n m = t m := Function.update_of_ne h _ _

theorem setCloexec_self (h : setCloexec t n n = some e) :
    ∃ e', t n = some e' ∧ e.obj = e'.obj ∧ e.cloexec = true := by
  unfold setCloexec at h
  rw [Function.update_self] at h
  obtain ⟨e', he', rfl⟩ := Option.map_eq_some_iff.mp h
  exact ⟨e', he', rfl, rfl⟩

theorem closeAll_some {p : ο → Bool} :
    closeAll t p n = some e ↔ t n = some e ∧ p e.obj = false := by
  simp [closeAll, Option.filter_eq_some_iff]

theorem exec_some : exec t n = some e ↔ t n = some e ∧ e.cloexec = false := by
  simp [exec, Option.filter_eq_some_iff]

theorem ne_of_open (hn : t n = some e) (hm : t m = none) : n ≠ m := by
  rintro rfl
  cases hn.symm.trans hm

theorem exec_none (h : t n = none) : exec t n = none := by simp [exec, h]

end Lookups

section Entries

variable {t : Table ο} {n : ℕ} {o : ο} {I : ℕ → Entry ο → Prop}

/-- What holds of all entries. -/
def Each (I : ℕ → Entry ο → Prop) (t : Table ο) : Prop := ∀ n e, t n = some e → I n e

theorem Each.put (h : Each I t) (hn : I n ⟨o, false⟩) : Each I (put t n o) := by
  intro m e he
  by_cases hm : m = n
  · subst hm
    rw [put_self] at he
    exact Option.some.inj he ▸ hn
  · rw [put_of_ne hm] at he
    exact h m e he

theorem Each.close (h : Each I t) : Each I (close t n) := by
  intro m e he
  by_cases hm : m = n
  · subst hm
    rw [close_self] at he
    cases he
  · rw [close_of_ne hm] at he
    exact h m e he

theorem Each.setCloexec (h : Each I t) (hI : ∀ e e', I n e' → e.obj = e'.obj → e.cloexec = true →
    I n e) : Each I (setCloexec t n) := by
  intro m e he
  by_cases hm : m = n
  · subst hm
    obtain ⟨e', he', hobj, hc⟩ := setCloexec_self he
    exact hI e e' (h m e' he') hobj hc
  · rw [setCloexec_of_ne hm] at he
    exact h m e he

theorem Each.closeAll (h : Each I t) (p : ο → Bool) : Each I (closeAll t p) := fun m e he =>
  h m e (closeAll_some.mp he).1

end Entries

section Streams

variable {t : Table ο} {std n m : ℕ} {o : ο}

/-- The stream has been replaced, and nothing else is open that was not before. -/
theorem redirect_opened (hn : t n = none) (hne : n ≠ std) :
    redirect t std o (some n) = Function.update t std (some ⟨o, false⟩) := by
  have hdup : dup2 (put t n o) n std = Function.update (put t n o) std (some ⟨o, false⟩) := by
    rw [dup2, put_self]
    exact if_neg hne
  funext m
  change close (dup2 (put t n o) n std) n m = _
  rw [hdup]
  by_cases hmn : m = n
  · subst hmn
    rw [close_self, Function.update_of_ne hne, hn]
  · rw [close_of_ne hmn]
    by_cases hms : m = std
    · subst hms
      rw [Function.update_self, Function.update_self]
    · rw [Function.update_of_ne hms, Function.update_of_ne hms, put_of_ne hmn]

/-- Other numbers are left alone, if the new one is free. -/
theorem redirect_other {r : Option ℕ} (hr : ∀ n, r = some n → t n = none ∧ n ≠ std)
    (hm : m ≠ std) : redirect t std o r m = t m := by
  cases r with
  | none => rfl
  | some n =>
    obtain ⟨hn, hne⟩ := hr n rfl
    rw [redirect_opened hn hne, Function.update_of_ne hm]

/-- The stream is what has been opened, or what it was before. -/
theorem redirect_std {r : Option ℕ} (hr : ∀ n, r = some n → t n = none ∧ n ≠ std) :
    redirect t std o r std = (r.map fun _ => ⟨o, false⟩).or (t std) := by
  cases r with
  | none => rfl
  | some n =>
    obtain ⟨hn, hne⟩ := hr n rfl
    rw [redirect_opened hn hne, Function.update_self]
    rfl

end Streams

end UbervisorDescriptors
