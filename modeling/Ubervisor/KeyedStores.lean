import Mathlib.Data.List.Nodup
import Mathlib.Logic.Function.Basic

/-! # Stores by key

A store maps keys to records. A list of items, each with a record, describes a store when the
keys of the records are distinct. Putting, modifying and erasing a record correspond to changes
of the list. -/
namespace UbervisorKeyedStores

variable {κ α ι : Type*} [DecidableEq κ] {st st' : κ → Option α} {items : List ι} {val : ι → α}
  {key : α → κ} {k : κ} {a : α} {i j : ι}

def put (key : α → κ) (st : κ → Option α) (a : α) : κ → Option α :=
  Function.update st (key a) (some a)

def modify (st : κ → Option α) (k : κ) (f : α → α) : κ → Option α :=
  Function.update st k ((st k).map f)

def erase (st : κ → Option α) (k : κ) : κ → Option α := Function.update st k none

/-- The records of the items are what the store holds, and it holds nothing else. -/
structure Holds (items : List ι) (val : ι → α) (key : α → κ) (st : κ → Option α) : Prop where
  found : ∀ i ∈ items, st (key (val i)) = some (val i)
  only : ∀ k, (∀ i ∈ items, key (val i) ≠ k) → st k = none

omit [DecidableEq κ] in
theorem Holds.unique (h : Holds items val key st) (k : Holds items val key st') : st = st' := by
  funext x
  by_cases hx : ∃ i ∈ items, key (val i) = x
  · obtain ⟨i, hi, rfl⟩ := hx
    rw [h.found i hi, k.found i hi]
  · have hnone : ∀ i ∈ items, key (val i) ≠ x := fun i hi he => hx ⟨i, hi, he⟩
    rw [h.only x hnone, k.only x hnone]

omit [DecidableEq κ] in
/-- The records of the items are exactly those in the store. -/
theorem Holds.mem_iff (h : Holds items val key st) :
    a ∈ items.map val ↔ st (key a) = some a := by
  constructor
  · intro ha
    obtain ⟨i, hi, rfl⟩ := List.mem_map.mp ha
    exact h.found i hi
  · intro ha
    by_contra hno
    have hnone : st (key a) = none := by
      apply h.only
      intro i hi he
      have hfound := h.found i hi
      rw [he, ha] at hfound
      exact hno (List.mem_map.mpr ⟨i, hi, (Option.some.inj hfound).symm⟩)
    cases ha.symm.trans hnone

omit [DecidableEq κ] in
/-- Only the items and their records matter. -/
theorem Holds.congr (h : Holds items val key st) {items' : List ι} {val' : ι → α}
    (hitems : ∀ i, i ∈ items' ↔ i ∈ items) (hval : ∀ i ∈ items, val' i = val i) :
    Holds items' val' key st where
  found i hi := by
    have hi' := (hitems i).mp hi
    rw [hval i hi']
    exact h.found i hi'
  only k hk := by
    apply h.only k
    intro i hi
    rw [← hval i hi]
    exact hk i ((hitems i).mpr hi)

/-- A new item with a new key. -/
theorem Holds.put (h : Holds items val key st) (j : ι) (val' : ι → α)
    (hval : ∀ i ∈ items, val' i = val i) (hnew : ∀ i ∈ items, key (val i) ≠ key (val' j)) :
    Holds (j :: items) val' key (put key st (val' j)) where
  found i hi := by
    rcases List.mem_cons.mp hi with rfl | hi
    · exact Function.update_self ..
    · rw [hval i hi]
      exact (Function.update_of_ne (hnew i hi) _ _).trans (h.found i hi)
  only k hk := by
    have hj : key (val' j) ≠ k := hk j List.mem_cons_self
    have hothers : ∀ i ∈ items, key (val i) ≠ k := by
      intro i hi
      rw [← hval i hi]
      exact hk i (List.mem_cons_of_mem _ hi)
    exact (Function.update_of_ne (Ne.symm hj) _ _).trans (h.only k hothers)

/-- An item whose record changes keeps its key. -/
theorem Holds.modify (h : Holds items val key st) (val' : ι → α) {f : α → α} (hj : j ∈ items)
    (hdistinct : ∀ i ∈ items, key (val i) = key (val j) → i = j)
    (hval : ∀ i ∈ items, i ≠ j → val' i = val i) (hself : val' j = f (val j))
    (hkey : key (f (val j)) = key (val j)) :
    Holds items val' key (modify st (key (val j)) f) where
  found i hi := by
    by_cases he : i = j
    · subst he
      rw [hself, hkey, UbervisorKeyedStores.modify, Function.update_self, h.found i hi]
      rfl
    · have hne : key (val i) ≠ key (val j) := fun hk => he (hdistinct i hi hk)
      rw [hval i hi he]
      exact (Function.update_of_ne hne _ _).trans (h.found i hi)
  only k hk := by
    have hsame : ∀ i ∈ items, key (val' i) = key (val i) := by
      intro i hi
      by_cases he : i = j
      · rw [he, hself, hkey]
      · rw [hval i hi he]
    have hothers : ∀ i ∈ items, key (val i) ≠ k := by
      intro i hi
      rw [← hsame i hi]
      exact hk i hi
    exact (Function.update_of_ne (Ne.symm (hothers j hj)) _ _).trans (h.only k hothers)

/-- An item that is taken out of the list. -/
theorem Holds.erase (h : Holds items val key st) (items' : List ι)
    (hdistinct : ∀ i ∈ items, key (val i) = key (val j) → i = j)
    (hitems : ∀ i, i ∈ items' ↔ i ∈ items ∧ i ≠ j) :
    Holds items' val key (erase st (key (val j))) where
  found i hi := by
    obtain ⟨hi', hne⟩ := (hitems i).mp hi
    have hkey : key (val i) ≠ key (val j) := fun hk => hne (hdistinct i hi' hk)
    exact (Function.update_of_ne hkey _ _).trans (h.found i hi')
  only k hk := by
    by_cases he : k = key (val j)
    · rw [he]
      exact Function.update_self ..
    · refine (Function.update_of_ne he _ _).trans (h.only k fun i hi hki => ?_)
      by_cases hij : i = j
      · exact he (hki.symm.trans (congrArg _ (congrArg _ hij)))
      · exact hk i ((hitems i).mpr ⟨hi, hij⟩) hki

/-- A list of records with distinct keys, put into an empty store one after the other. -/
theorem foldl_put (l : List α) (hd : (l.map key).Nodup) (k : κ) :
    l.foldl (put key) (fun _ => none) k = l.find? fun a => key a = k := by
  have hstep : ∀ (l : List α) (st : κ → Option α), (l.map key).Nodup →
      l.foldl (put key) st k = (l.find? fun a => key a = k).or (st k) := by
    intro l
    induction l with
    | nil => exact fun st _ => rfl
    | cons a l ih =>
      intro st hd
      obtain ⟨ha, hl⟩ := List.nodup_cons.mp hd
      rw [List.foldl_cons, ih _ hl]
      by_cases he : key a = k
      · have hnone : (l.find? fun b => key b = k) = none := by
          rw [List.find?_eq_none]
          intro b hb hk
          exact ha (List.mem_map.mpr ⟨b, hb, (of_decide_eq_true hk).trans he.symm⟩)
        simp [hnone, he, UbervisorKeyedStores.put]
      · simp [he, UbervisorKeyedStores.put, Ne.symm he]
  rw [hstep l _ hd, Option.or_none]

/-- Items that come with the records of such a list. -/
theorem Holds.of_list {l : List α} (hd : (l.map key).Nodup)
    (hitems : ∀ a, a ∈ l ↔ ∃ i ∈ items, val i = a) :
    Holds items val key (l.foldl (UbervisorKeyedStores.put key) fun _ => none) where
  found i hi := by
    have hl : val i ∈ l := (hitems _).mpr ⟨i, hi, rfl⟩
    rw [foldl_put l hd]
    cases hf : l.find? fun a => key a = key (val i) with
    | none =>
      rw [List.find?_eq_none] at hf
      exact absurd (decide_eq_true rfl) (hf _ hl)
    | some a =>
      have hkey : key a = key (val i) := by simpa using List.find?_some hf
      rw [List.inj_on_of_nodup_map hd (List.mem_of_find?_eq_some hf) hl hkey]
  only k hk := by
    rw [foldl_put l hd, List.find?_eq_none]
    intro a ha hak
    obtain ⟨i, hi, rfl⟩ := (hitems a).mp ha
    exact hk i hi (of_decide_eq_true hak)

end UbervisorKeyedStores
