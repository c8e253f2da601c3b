import Mathlib.Data.List.Perm.Basic

/-! # Handles

Handles that are acquired and released, as a trace of uses. The handles that are held after a trace
are a ledger of it: a trace that releases what is not held has none. -/
namespace UbervisorHandles

inductive Use (α : Type*) where
  | acquire (a : α)
  | release (a : α)
  deriving DecidableEq

variable {α : Type*} [DecidableEq α]

/-- The handles that are held after the uses, when `l` are held before. -/
def held : List α → List (Use α) → Option (List α)
  | l, [] => some l
  | l, .acquire a :: us => held (a :: l) us
  | l, .release a :: us => if a ∈ l then held (l.erase a) us else none

/-- No handle is handed out while it is held. -/
def Fresh : List α → List (Use α) → Prop
  | _, [] => True
  | l, .acquire a :: us => a ∉ l ∧ Fresh (a :: l) us
  | l, .release a :: us => Fresh (l.erase a) us

instance freshDecidable : ∀ (l : List α) (us : List (Use α)), Decidable (Fresh l us)
  | _, [] => isTrue trivial
  | l, .acquire a :: us =>
    have := freshDecidable (a :: l) us
    inferInstanceAs (Decidable (a ∉ l ∧ _))
  | l, .release a :: us => freshDecidable (l.erase a) us

/-- How often a handle is released before it is handed out again. -/
def releases (a : α) : List (Use α) → ℕ
  | [] => 0
  | .acquire b :: us => if b = a then 0 else releases a us
  | .release b :: us => (if b = a then 1 else 0) + releases a us

section Rules

variable {a : α} {l l' m : List α} {us vs : List (Use α)}

theorem held_append : held l (us ++ vs) = (held l us).bind (held · vs) := by
  induction us generalizing l with
  | nil => rfl
  | cons u us ih =>
    cases u with
    | acquire a => exact ih
    | release a =>
      rw [List.cons_append, held, held]
      split
      · exact ih
      · rfl

theorem releases_missing (ha : a ∉ l) (h : held l us = some m) : releases a us = 0 := by
  induction us generalizing l with
  | nil => rfl
  | cons u us ih =>
    cases u with
    | acquire b =>
      rw [releases]
      split
      · rfl
      · rename_i hb
        refine ih (fun hm => ?_) h
        rcases List.mem_cons.mp hm with rfl | hm
        · exact hb rfl
        · exact ha hm
    | release b =>
      rw [held] at h
      split at h
      · rename_i hb
        rw [releases, if_neg (fun he : b = a => ha (he ▸ hb)), Nat.zero_add]
        exact ih (fun hm => ha (List.mem_of_mem_erase hm)) h
      · cases h

/-- A handle that is held is released once, or is still held. -/
theorem releases_held (hn : l.Nodup) (hf : Fresh l us) (ha : a ∈ l) (h : held l us = some m) :
    releases a us = 1 ∨ releases a us = 0 ∧ a ∈ m := by
  induction us generalizing l with
  | nil =>
    cases h
    exact .inr ⟨rfl, ha⟩
  | cons u us ih =>
    cases u with
    | acquire b =>
      have hne : b ≠ a := fun he : b = a => hf.1 (he ▸ ha)
      rw [releases, if_neg hne]
      exact ih (List.nodup_cons.mpr ⟨hf.1, hn⟩) hf.2 (List.mem_cons_of_mem _ ha) h
    | release b =>
      rw [held] at h
      split at h
      · rw [releases]
        by_cases hb : b = a
        · subst hb
          rw [if_pos rfl, releases_missing hn.not_mem_erase h]
          exact .inl rfl
        · rw [if_neg hb, Nat.zero_add]
          exact ih (hn.erase b) hf ((List.mem_erase_of_ne (Ne.symm hb)).mpr ha) h
      · cases h

theorem Fresh.nodup (hn : l.Nodup) (hf : Fresh l us) (h : held l us = some m) : m.Nodup := by
  induction us generalizing l with
  | nil =>
    cases h
    exact hn
  | cons u us ih =>
    cases u with
    | acquire b => exact ih (List.nodup_cons.mpr ⟨hf.1, hn⟩) hf.2 h
    | release b =>
      rw [held] at h
      split at h
      · exact ih (hn.erase b) hf h
      · cases h

theorem Fresh.drop (hf : Fresh l (us ++ vs)) (h : held l us = some m) : Fresh m vs := by
  induction us generalizing l with
  | nil =>
    cases h
    exact hf
  | cons u us ih =>
    cases u with
    | acquire b => exact ih hf.2 h
    | release b =>
      rw [held] at h
      split at h
      · exact ih hf h
      · cases h

theorem Fresh.take (hf : Fresh l (us ++ vs)) : Fresh l us := by
  induction us generalizing l with
  | nil => trivial
  | cons u us ih =>
    cases u with
    | acquire b => exact ⟨hf.1, ih hf.2⟩
    | release b => exact ih hf

/-- Every handle that has been handed out is released once from then on, or is still held. -/
theorem released_once (hf : Fresh [] (us ++ .acquire a :: vs))
    (h : held [] (us ++ .acquire a :: vs) = some m) :
    releases a vs = 1 ∨ releases a vs = 0 ∧ a ∈ m := by
  rw [held_append] at h
  obtain ⟨l, hl, hv⟩ := Option.bind_eq_some_iff.mp h
  have hrest : Fresh l (.acquire a :: vs) := hf.drop hl
  have hn : l.Nodup := hf.take.nodup List.nodup_nil hl
  exact releases_held (List.nodup_cons.mpr ⟨hrest.1, hn⟩) hrest.2 List.mem_cons_self hv

end Rules

end UbervisorHandles
