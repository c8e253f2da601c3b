import Mathlib.Algebra.GroupWithZero.Nat
import Mathlib.Data.List.Induction
import Mathlib.Data.List.Nodup
import Mathlib.Data.Fin.Basic
import Mathlib.Logic.Function.Basic
import Mathlib.Tactic.Push

/-! # Chained hash tables

A fixed number of buckets, each a list with the newest entry first. Keys of one class
share a bucket. The abstract content of a table is, for every class, the chain of its
entries, newest first: what the buckets and the hash function do beyond that is invisible. -/
namespace UbervisorBucketTable

variable {K V C : Type*}

/-- A table of `size` buckets. Every entry lies in the bucket its class hashes to. -/
structure BucketTable (K V : Type*) {C : Type*} (cls : K → C) (hash : C → ℕ)
    (size : ℕ) [NeZero size] where
  buckets : Fin size → List (K × V)
  own : ∀ b, ∀ e ∈ buckets b, Fin.ofNat size (hash (cls e.1)) = b

namespace BucketTable

variable {cls : K → C} {hash : C → ℕ} {size : ℕ} [NeZero size]

def slot (hash : C → ℕ) (size : ℕ) [NeZero size] (c : C) : Fin size := Fin.ofNat size (hash c)

def empty : BucketTable K V cls hash size := ⟨fun _ => [], by simp⟩

def insert (t : BucketTable K V cls hash size) (k : K) (v : V) :
    BucketTable K V cls hash size where
  buckets := Function.update t.buckets (slot hash size (cls k))
    ((k, v) :: t.buckets (slot hash size (cls k)))
  own := by
    intro b e he
    by_cases hb : b = slot hash size (cls k)
    · subst hb
      simp only [Function.update_self, List.mem_cons] at he
      rcases he with rfl | he
      · rfl
      · exact t.own _ e he
    · rw [Function.update_of_ne hb] at he
      exact t.own b e he

/-- The first entry of the class's bucket whose key satisfies `p`. -/
def find (t : BucketTable K V cls hash size) (p : K → Bool) (c : C) : Option V :=
  ((t.buckets (slot hash size c)).find? fun e => p e.1).map Prod.snd

/-- Unlink the first entry of the class's bucket whose key satisfies `p`. -/
def remove (t : BucketTable K V cls hash size) (p : K → Bool) (c : C) :
    BucketTable K V cls hash size where
  buckets := Function.update t.buckets (slot hash size c)
    ((t.buckets (slot hash size c)).eraseP fun e => p e.1)
  own := by
    intro b e he
    by_cases hb : b = slot hash size c
    · subst hb
      rw [Function.update_self] at he
      exact t.own _ e (List.mem_of_mem_eraseP he)
    · rw [Function.update_of_ne hb] at he
      exact t.own b e he

theorem remove_missing {t : BucketTable K V cls hash size} {p : K → Bool} {c : C}
    (h : t.find p c = none) : t.remove p c = t := by
  have hsame : (t.buckets (slot hash size c)).eraseP (fun e => p e.1) =
      t.buckets (slot hash size c) := by
    rw [find, Option.map_eq_none_iff, List.find?_eq_none] at h
    exact List.eraseP_of_forall_not h
  cases t
  simp only [remove, hsame, Function.update_eq_self]

def entries (t : BucketTable K V cls hash size) : List (K × V) :=
  (List.finRange size).flatMap t.buckets

variable [DecidableEq C]

/-- The entries of one class, newest first. -/
def chain (t : BucketTable K V cls hash size) (c : C) : List (K × V) :=
  (t.buckets (slot hash size c)).filter fun e => cls e.1 = c

@[simp] theorem chain_empty (c : C) :
    (empty : BucketTable K V cls hash size).chain c = [] := rfl

theorem mem_chain {t : BucketTable K V cls hash size} {c : C} {e : K × V} :
    e ∈ t.chain c ↔ e ∈ t.entries ∧ cls e.1 = c := by
  simp only [chain, entries, List.mem_filter, List.mem_flatMap, List.mem_finRange, true_and,
    decide_eq_true_eq]
  constructor
  · rintro ⟨he, hc⟩; exact ⟨⟨_, he⟩, hc⟩
  · rintro ⟨⟨b, he⟩, hc⟩
    have hb := t.own b e he
    rw [hc] at hb
    exact ⟨by rw [slot, hb]; exact he, hc⟩

theorem mem_entries {t : BucketTable K V cls hash size} {e : K × V} :
    e ∈ t.entries ↔ e ∈ t.chain (cls e.1) := by simp [mem_chain]

theorem chain_insert (t : BucketTable K V cls hash size) (k : K) (v : V) (c : C) :
    (t.insert k v).chain c = if cls k = c then (k, v) :: t.chain c else t.chain c := by
  unfold chain insert
  by_cases hs : slot hash size c = slot hash size (cls k)
  · simp only [hs, Function.update_self, List.filter_cons, decide_eq_true_eq]
  · have hc : cls k ≠ c := fun h => hs (by rw [h])
    simp only [Function.update_of_ne hs, if_neg hc]

/-- A lookup that compares keys by their class returns the newest entry of the chain. -/
theorem find_chain (t : BucketTable K V cls hash size) {p : K → Bool} {c : C}
    (hp : ∀ k, p k = decide (cls k = c)) :
    t.find p c = (t.chain c).head?.map Prod.snd := by
  have hf : (fun e : K × V => p e.1) = fun e => decide (cls e.1 = c) := by
    funext e; exact hp e.1
  simp only [find, chain, hf, List.head?_filter]

private theorem filter_eraseP_other {l : List (K × V)} {p q : K × V → Bool}
    (h : ∀ e ∈ l, p e = true → q e = false) : (l.eraseP p).filter q = l.filter q := by
  induction l with
  | nil => rfl
  | cons e l ih =>
    have ih := ih fun x hx => h x (List.mem_cons_of_mem _ hx)
    by_cases hp : p e = true
    · simp [hp, h e (by simp) hp]
    · simp only [Bool.not_eq_true] at hp
      simp [hp, List.filter_cons, ih]

private theorem filter_eraseP_same {l : List (K × V)} {p q : K × V → Bool}
    (h : ∀ e ∈ l, p e = true → q e = true) : (l.eraseP p).filter q = (l.filter q).eraseP p := by
  induction l with
  | nil => rfl
  | cons e l ih =>
    have ih := ih fun x hx => h x (List.mem_cons_of_mem _ hx)
    by_cases hp : p e = true
    · simp [hp, h e (by simp) hp]
    · simp only [Bool.not_eq_true] at hp
      by_cases hq : q e = true <;> simp [hp, hq, ih]

/-- Removal unlinks from the chain of the class and leaves every other chain alone,
provided the entries it can match belong to the class. -/
theorem chain_remove (t : BucketTable K V cls hash size) {p : K → Bool} {c : C}
    (hp : ∀ e ∈ t.entries, p e.1 = true → cls e.1 = c) (c' : C) :
    (t.remove p c).chain c' =
      if c' = c then (t.chain c).eraseP (fun e => p e.1) else t.chain c' := by
  have hin : ∀ e ∈ t.buckets (slot hash size c), p e.1 = true → cls e.1 = c := by
    intro e he
    exact hp e (List.mem_flatMap.mpr ⟨_, List.mem_finRange _, he⟩)
  unfold chain remove
  by_cases hc : c' = c
  · subst hc
    simp only [Function.update_self, if_pos]
    exact filter_eraseP_same fun e he h => by simpa using hin e he h
  · rw [if_neg hc]
    by_cases hs : slot hash size c' = slot hash size c
    · simp only [hs, Function.update_self]
      refine filter_eraseP_other fun e he h => ?_
      simp only [decide_eq_false_iff_not]
      intro h'
      exact hc (h'.symm.trans (hin e he h))
    · simp only [Function.update_of_ne hs]

/-- Removing by the class drops its newest entry. -/
theorem chain_remove_class (t : BucketTable K V cls hash size) {p : K → Bool} {c : C}
    (hp : ∀ k, p k = decide (cls k = c)) (c' : C) :
    (t.remove p c).chain c' = if c' = c then (t.chain c).tail else t.chain c' := by
  rw [t.chain_remove fun e _ he => by simpa [hp] using he]
  split
  · have hall : ∀ e ∈ t.chain c, p e.1 = true := fun e he => by
      simpa [hp] using (mem_chain.mp he).2
    cases hl : t.chain c with
    | nil => rfl
    | cons e l => simp [hall e (by simp [hl])]
  · rfl

private theorem flatMap_single {α β : Type*} {l : List α} {f : α → List β} {a : α} (hl : l.Nodup)
    (ha : a ∈ l) (hf : ∀ b ∈ l, b ≠ a → f b = []) : l.flatMap f = f a := by
  induction l with
  | nil => exact absurd ha List.not_mem_nil
  | cons b l ih =>
    obtain ⟨hb, hl⟩ := List.nodup_cons.mp hl
    rw [List.flatMap_cons]
    by_cases hba : b = a
    · have hrest : l.flatMap f = [] := by
        rw [List.flatMap_eq_nil_iff]
        intro c hc
        exact hf c (List.mem_cons_of_mem _ hc) fun h => hb (hba ▸ h ▸ hc)
      rw [hrest, List.append_nil, hba]
    · rw [hf b (by simp) hba, List.nil_append]
      refine ih hl ((List.mem_cons.mp ha).resolve_left (Ne.symm hba)) fun c hc => ?_
      exact hf c (List.mem_cons_of_mem _ hc)

/-- All entries of a class lie in its chain, in the order of the chain. -/
theorem filter_entries (t : BucketTable K V cls hash size) (c : C) :
    (t.entries.filter fun e => cls e.1 = c) = t.chain c := by
  rw [entries, List.filter_flatMap,
    flatMap_single (List.nodup_finRange size) (List.mem_finRange (slot hash size c))]
  · rfl
  · intro b _ hb
    rw [List.filter_eq_nil_iff]
    intro e he
    simp only [decide_eq_true_eq]
    intro hc
    exact hb (by rw [slot, ← hc, t.own b e he])

/-- A table whose chains are the classes of a list holds what the list holds. -/
theorem entries_perm {t : BucketTable K V cls hash size} {l : List (K × V)}
    (h : ∀ c, t.chain c = l.filter fun e => cls e.1 = c) : t.entries.Perm l := by
  classical
  rw [List.perm_iff_count]
  intro e
  have hcount : ∀ m : List (K × V),
      m.count e = (m.filter fun x => cls x.1 = cls e.1).count e := fun m => by
    rw [List.count_filter (by simp)]
  rw [hcount t.entries, filter_entries, h, ← hcount]

/-- Chains of at most one entry mean that no key occurs twice in the whole table. -/
theorem entries_nodup_keys {t : BucketTable K V cls hash size}
    (h : ∀ c, (t.chain c).length ≤ 1) : (t.entries.map fun e => cls e.1).Nodup := by
  classical
  rw [entries, List.map_flatMap, List.nodup_flatMap]
  refine ⟨fun b _ => ?_, ?_⟩
  · rw [List.nodup_iff_count_le_one]
    intro c
    by_cases hb : slot hash size c = b
    · have := h c
      rw [chain, hb] at this
      rwa [List.count, List.countP_map, List.countP_eq_length_filter]
    · have : c ∉ (t.buckets b).map fun e => cls e.1 := by
        rw [List.mem_map]
        rintro ⟨e, he, rfl⟩
        exact hb (t.own b e he)
      rw [List.count_eq_zero_of_not_mem this]
      exact Nat.zero_le 1
  · refine List.Pairwise.imp_of_mem ?_ (List.nodup_finRange size)
    intro a b _ _ hab
    apply List.disjoint_left.mpr
    intro c hca hcb
    obtain ⟨x, hx, rfl⟩ := List.mem_map.mp hca
    obtain ⟨y, hy, hxy⟩ := List.mem_map.mp hcb
    exact hab ((t.own a x hx).symm.trans (by rw [← hxy]; exact t.own b y hy))

/-- The values under a class, newest first. -/
def values (t : BucketTable K V cls hash size) (c : C) : List V := (t.chain c).map Prod.snd

theorem find_values (t : BucketTable K V cls hash size) {p : K → Bool} {c : C}
    (hp : ∀ k, p k = decide (cls k = c)) : t.find p c = (t.values c).head? := by
  rw [t.find_chain hp, values, List.head?_map]

@[simp] theorem values_insert (t : BucketTable K V cls hash size) (k : K) (v : V) :
    (t.insert k v).values = Function.update t.values (cls k) (v :: t.values (cls k)) := by
  funext c
  rw [values, chain_insert]
  by_cases hc : cls k = c
  · subst hc
    simp [values]
  · rw [if_neg hc, Function.update_of_ne (Ne.symm hc), values]

/-- No entry, or one whose key satisfies `p` and that has the value of all newer ones. -/
def TakesNewest (p : K → Bool) (l : List (K × V)) : Prop :=
  l = [] ∨ ∃ newer e older, l = newer ++ e :: older ∧ p e.1 = true ∧ ∀ x ∈ newer, x.2 = e.2

private theorem append_shift {m n : List V} {a b : V} :
    b :: (m ++ n) = m ++ a :: n ↔ b = a ∧ ∀ x ∈ m, x = a := by
  induction m generalizing b with
  | nil => simp
  | cons c m ih =>
    rw [List.cons_append, List.cons_append, List.cons_eq_cons, ih, List.forall_mem_cons]
    constructor
    · rintro ⟨rfl, rfl, h⟩; exact ⟨rfl, rfl, h⟩
    · rintro ⟨rfl, rfl, h⟩; exact ⟨rfl, rfl, h⟩

private theorem map_eraseP_newest {p : K → Bool} {e : K × V} {newer older : List (K × V)}
    (hp : p e.1 = true) (h : ∀ x ∈ newer, x.2 = e.2) :
    ((newer ++ e :: older).eraseP fun x => p x.1).map Prod.snd =
      ((newer ++ e :: older).map Prod.snd).tail := by
  induction newer with
  | nil => simp [hp]
  | cons x newer ih =>
    obtain ⟨hx, h⟩ := List.forall_mem_cons.mp h
    by_cases hpx : p x.1 = true
    · simp [hpx]
    · -- the chain behind `x` starts with the value of `x` again
      have hhead : ((newer ++ e :: older).map Prod.snd).head? = some x.2 := by
        cases newer with
        | nil => simp [hx]
        | cons y newer => simp [hx, h y List.mem_cons_self]
      rw [List.cons_append, List.eraseP_cons_of_neg (by exact hpx), List.map_cons, ih h,
        List.map_cons, List.tail_cons]
      exact List.cons_head?_tail hhead

/-- Unlinking the first match is as good as unlinking the newest entry. -/
theorem map_eraseP_iff {p : K → Bool} {l : List (K × V)} :
    (l.eraseP fun x => p x.1).map Prod.snd = (l.map Prod.snd).tail ↔ TakesNewest p l := by
  constructor
  · intro h
    by_cases hnone : ∀ x ∈ l, ¬ p x.1 = true
    · rw [List.eraseP_of_forall_not hnone] at h
      have hlen := congrArg List.length h
      rw [List.length_tail, List.length_map] at hlen
      exact .inl (List.length_eq_zero_iff.mp (by omega))
    · push Not at hnone
      obtain ⟨y, hy, hpy⟩ := hnone
      obtain ⟨e, newer, older, -, hpe, rfl, herase⟩ :=
        List.exists_of_eraseP (p := fun x : K × V => p x.1) hy hpy
      refine .inr ⟨newer, e, older, rfl, hpe, ?_⟩
      rw [herase] at h
      cases newer with
      | nil => exact fun x hx => nomatch hx
      | cons x newer =>
        have hshift : x.2 :: (newer.map Prod.snd ++ older.map Prod.snd) =
            newer.map Prod.snd ++ e.2 :: older.map Prod.snd := by simpa using h
        obtain ⟨hx, hnewer⟩ := append_shift.mp hshift
        rw [List.forall_mem_cons]
        exact ⟨hx, fun y hy => hnewer _ (List.mem_map_of_mem hy)⟩
  · rintro (rfl | ⟨newer, e, older, rfl, hp, h⟩)
    · rfl
    · exact map_eraseP_newest hp h

/-- Removal keeps the values of every other class, and takes the newest value of its own class
exactly if what it unlinks has that value. -/
theorem values_remove_iff (t : BucketTable K V cls hash size) {p : K → Bool} {c : C}
    (hp : ∀ e ∈ t.entries, p e.1 = true → cls e.1 = c) :
    (t.remove p c).values = Function.update t.values c (t.values c).tail ↔
      TakesNewest p (t.chain c) := by
  have hown : (t.remove p c).values c = ((t.chain c).eraseP fun x => p x.1).map Prod.snd := by
    rw [values, t.chain_remove hp, if_pos rfl]
  rw [← map_eraseP_iff, ← hown]
  constructor
  · intro h
    rw [h, Function.update_self, values]
  · intro h
    funext c'
    by_cases hc : c' = c
    · subst hc
      rw [h, Function.update_self, values]
    · rw [values, t.chain_remove hp, if_neg hc, Function.update_of_ne hc, values]

theorem values_remove (t : BucketTable K V cls hash size) {p : K → Bool} {c : C}
    (hp : ∀ k, p k = decide (cls k = c)) :
    (t.remove p c).values = Function.update t.values c (t.values c).tail := by
  funext c'
  rw [values, t.chain_remove_class hp]
  by_cases hc : c' = c
  · subst hc
    rw [if_pos rfl, Function.update_self, values, List.map_tail]
  · rw [if_neg hc, Function.update_of_ne hc, values]

/-- The entry that a lookup by the class finds is the one that removal takes out. -/
theorem entries_remove (t : BucketTable K V cls hash size) {p : K → Bool} {c : C}
    (hp : ∀ k, p k = decide (cls k = c)) {e : K × V} (he : (t.chain c).head? = some e) :
    t.entries.Perm (e :: (t.remove p c).entries) := by
  apply entries_perm
  intro c'
  have hcls : cls e.1 = c := (mem_chain.mp (List.mem_of_mem_head? he)).2
  rw [List.filter_cons, filter_entries, t.chain_remove_class hp]
  by_cases hc : c' = c
  · subst hc
    rw [if_pos rfl, if_pos (by simp [hcls])]
    exact (List.cons_head?_tail he).symm
  · rw [if_neg hc, if_neg (by simpa [hcls] using Ne.symm hc)]

end BucketTable

section Operations

/-- The operations on a table, by their keys. -/
inductive Op (K V : Type*) where
  | insert (k : K) (v : V)
  | remove (k : K)
  | find (k : K)

namespace Op

def key : Op K V → K
  | .insert k _ => k
  | .remove k => k
  | .find k => k

def map (f : K → C) : Op K V → Op C V
  | .insert k v => .insert (f k) v
  | .remove k => .remove (f k)
  | .find k => .find (f k)

@[simp] theorem map_id : (map fun k => k) = (id : Op K V → Op K V) := by
  funext op
  cases op <;> rfl

variable [DecidableEq C]

/-- A map that keeps what is shadowed: an insertion pushes, a removal pops. -/
def apply (m : C → List V) : Op C V → C → List V
  | .insert c v => Function.update m c (v :: m c)
  | .remove c => Function.update m c (m c).tail
  | .find _ => m

/-- The values that have been inserted under a key and not been removed, newest first. -/
def contents (ops : List (Op C V)) : C → List V := ops.foldl apply fun _ => []

theorem contents_snoc (ops : List (Op C V)) (op : Op C V) :
    contents (ops ++ [op]) = apply (contents ops) op := by simp [contents]

end Op

namespace BucketTable

variable {cls : K → C} {hash : C → ℕ} {size : ℕ} [NeZero size]

/-- An operation of a table that compares keys with `same`. -/
def apply (same : K → K → Bool) (t : BucketTable K V cls hash size) :
    Op K V → BucketTable K V cls hash size
  | .insert k v => t.insert k v
  | .remove k => t.remove (same k) (cls k)
  | .find _ => t

def run (same : K → K → Bool) (ops : List (Op K V)) : BucketTable K V cls hash size :=
  ops.foldl (apply same) empty

theorem run_snoc (same : K → K → Bool) (ops : List (Op K V)) (op : Op K V) :
    (run same (ops ++ [op]) : BucketTable K V cls hash size) =
      apply same (run same ops) op := by simp [run]

variable [DecidableEq C]

/-- Comparing keys by their classes makes a table a map of the classes. -/
theorem values_run {same : K → K → Bool} (hsame : ∀ k x, same k x = decide (cls x = cls k))
    (ops : List (Op K V)) :
    (run same ops : BucketTable K V cls hash size).values = Op.contents (ops.map (Op.map cls)) := by
  induction ops using List.reverseRecOn with
  | nil => rfl
  | append_singleton ops op ih =>
    rw [run_snoc, List.map_append, List.map_singleton, Op.contents_snoc, ← ih]
    cases op with
    | insert k v => exact values_insert _ k v
    | remove k => exact values_remove _ (hsame k)
    | find k => rfl

end BucketTable

end Operations

end UbervisorBucketTable
