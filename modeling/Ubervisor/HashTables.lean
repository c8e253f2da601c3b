import Ubervisor.Registry

/-! # The hash tables as maps

A run of operations of `uvhash.c` against a map from keys to the values inserted and not
removed. Integer keys are compared by value throughout. String keys are compared by contents in
`uvstrhash_find` and by address in `uvstrhash_remove`. -/
namespace UbervisorHashTables

open UbervisorValues
open UbervisorBucketTable
open UbervisorRegistry

variable {V : Type}

section Integers

def uvhashApply {size : ℕ} [NeZero size] (h : UvHash V size) : Op UInt32 V → UvHash V size
  | .insert k v => uvhashInsert h k v
  | .remove k => uvhashRemove h k
  | .find _ => h

/-- `uvhash_new(size)` and operations on the table. -/
def uvhashRun (size : ℕ) [NeZero size] (ops : List (Op UInt32 V)) : UvHash V size :=
  ops.foldl uvhashApply BucketTable.empty

/-- The table after the operations is a map, and the one that any hash function gives. -/
structure IsMap (size : ℕ) [NeZero size] (ops : List (Op UInt32 V)) : Prop where
  finds : ∀ k, uvhashFind (uvhashRun size ops) k = (Op.contents ops k).head?
  holds : (uvhashRun size ops).values = Op.contents ops
  takes : ∀ k v, uvhashFind (uvhashRun size ops) k = some v →
    (uvhashRun size ops).entries.Perm ((k, v) :: (uvhashRemove (uvhashRun size ops) k).entries)
  missing : ∀ k, uvhashFind (uvhashRun size ops) k = none →
    uvhashRemove (uvhashRun size ops) k = uvhashRun size ops
  others : ∀ k k', k' ≠ k → uvhashFind (uvhashRemove (uvhashRun size ops) k) k' =
    uvhashFind (uvhashRun size ops) k'
  anyHash : ∀ (hash : UInt32 → ℕ) (size' : ℕ) [NeZero size'] (k : UInt32),
    (BucketTable.run (fun k x => x == k) ops : BucketTable UInt32 V (fun k => k) hash size').find
      (fun x => x == k) k = uvhashFind (uvhashRun size ops) k

variable {size : ℕ} [NeZero size]

theorem uvhashRun_eq (ops : List (Op UInt32 V)) :
    uvhashRun size ops = BucketTable.run (fun k x => x == k) ops := by
  unfold uvhashRun BucketTable.run
  congr 1
  funext h op
  cases op <;> rfl

/-- Whatever the hash function is. -/
theorem values_intRun {hash : UInt32 → ℕ} (ops : List (Op UInt32 V)) :
    (BucketTable.run (fun k x => x == k) ops :
      BucketTable UInt32 V (fun k => k) hash size).values = Op.contents ops := by
  rw [BucketTable.values_run (fun k x => by rw [beq_eq_decide]), Op.map_id, List.map_id]

theorem uvhashFind_values (h : UvHash V size) (k : UInt32) :
    uvhashFind h k = (h.values k).head? :=
  h.find_values fun x => by rw [beq_eq_decide]

/-- What a lookup finds is what removal takes out. -/
theorem entries_uvhashRemove {h : UvHash V size} {k : UInt32} {v : V}
    (hv : uvhashFind h k = some v) : h.entries.Perm ((k, v) :: (uvhashRemove h k).entries) := by
  rw [uvhashFind_chain, Option.map_eq_some_iff] at hv
  obtain ⟨⟨k', v'⟩, he, rfl⟩ := hv
  obtain rfl : k' = k := (BucketTable.mem_chain.mp (List.mem_of_mem_head? he)).2
  exact h.entries_remove (fun x => by rw [beq_eq_decide]) he

theorem uvhashFind_removed (h : UvHash V size) {k k' : UInt32} (hk : k' ≠ k) :
    uvhashFind (uvhashRemove h k) k' = uvhashFind h k' := by
  rw [uvhashFind_chain, chain_uvhashRemove, if_neg hk, uvhashFind_chain]

/-- The integer table is a map for every number of buckets and every run. -/
theorem uvhash_isMap (size : ℕ) [NeZero size] (ops : List (Op UInt32 V)) : IsMap size ops where
  finds k := by rw [uvhashFind_values, uvhashRun_eq, values_intRun]
  holds := by rw [uvhashRun_eq, values_intRun]
  takes _ _ hv := entries_uvhashRemove hv
  missing _ hk := BucketTable.remove_missing hk
  others _ _ hk := uvhashFind_removed _ hk
  anyHash hash size' _ k := by
    rw [uvhashFind_values, uvhashRun_eq, values_intRun,
      BucketTable.find_values _ (fun x => by rw [beq_eq_decide]), values_intRun]

/-- Two entries under one key, and one under another, in one bucket. -/
theorem shadowed_isMap :
    IsMap 1 [.insert 7 "old", .insert 7 "new", .insert 8 "other", .remove 7, .find 7] :=
  uvhash_isMap 1 _

end Integers

section Strings

def uvstrhashApply {size : ℕ} [NeZero size] (h : UvStrHash V size) :
    Op StrPtr V → UvStrHash V size
  | .insert k v => uvstrhashInsert h k v
  | .remove k => uvstrhashRemove h k
  | .find _ => h

/-- `uvstrhash_new(size)` and operations on the table. -/
def uvstrhashRun (size : ℕ) [NeZero size] (ops : List (Op StrPtr V)) : UvStrHash V size :=
  ops.foldl uvstrhashApply BucketTable.empty

/-- The string of a stored key is still there when its address is used again. -/
def Coherent (size : ℕ) [NeZero size] (ops : List (Op StrPtr V)) : Prop :=
  ∀ done op rest, ops = done ++ op :: rest → ∀ e ∈ (uvstrhashRun size done).entries,
    e.1.addr = op.key.addr → e.1.str = op.key.str

/-- At every point of the run the table is the map of the operations on the contents. -/
def ContentKeyed (size : ℕ) [NeZero size] (ops : List (Op StrPtr V)) : Prop :=
  ∀ done rest, ops = done ++ rest →
    (uvstrhashRun size done).values = Op.contents (done.map (Op.map StrPtr.str)) ∧
    ∀ k : StrPtr, uvstrhashFind (uvstrhashRun size done) k.str =
      (Op.contents (done.map (Op.map StrPtr.str)) k.str).head?

/-- A key is removed through the pointer of its newest entry, or of one that has the same
value as all newer ones, or there is none. -/
def RemovesNewest (size : ℕ) [NeZero size] (ops : List (Op StrPtr V)) : Prop :=
  ∀ done k rest, ops = done ++ .remove k :: rest →
    BucketTable.TakesNewest (fun x => x.addr == k.addr) ((uvstrhashRun size done).chain k.str)

variable {size : ℕ} [NeZero size] {ops done : List (Op StrPtr V)} {k : StrPtr}

theorem uvstrhashFind_values (h : UvStrHash V size) (k : CStr) :
    uvstrhashFind h k = (h.values k).head? :=
  h.find_values fun x => by rw [beq_eq_decide]

theorem uvstrhashRun_snoc (done : List (Op StrPtr V)) (op : Op StrPtr V) :
    uvstrhashRun size (done ++ [op]) = uvstrhashApply (uvstrhashRun size done) op := by
  simp [uvstrhashRun]

/-- Removal by address is removal by contents exactly if it takes the newest entry. -/
theorem removeStep_iff (hown : ∀ e ∈ (uvstrhashRun size done).entries,
      e.1.addr = k.addr → e.1.str = k.str)
    (hdone : (uvstrhashRun size done).values = Op.contents (done.map (Op.map StrPtr.str))) :
    (uvstrhashRun size (done ++ [Op.remove k])).values =
        Op.contents ((done ++ [Op.remove k]).map (Op.map StrPtr.str)) ↔
      BucketTable.TakesNewest (fun x => x.addr == k.addr)
        ((uvstrhashRun size done).chain k.str) := by
  rw [uvstrhashRun_snoc, List.map_append, List.map_singleton, Op.contents_snoc, ← hdone]
  exact BucketTable.values_remove_iff (p := fun x => x.addr == k.addr) _ fun e he h =>
    hown e he (beq_iff_eq.mp h)

theorem removesNewest_run (hcoh : Coherent size ops) (h : RemovesNewest size ops)
    (rest : List (Op StrPtr V)) (hops : ops = done ++ rest) :
    (uvstrhashRun size done).values = Op.contents (done.map (Op.map StrPtr.str)) := by
  induction done using List.reverseRecOn generalizing rest with
  | nil => rfl
  | append_singleton done op ih =>
    rw [List.append_assoc, List.singleton_append] at hops
    have hdone := ih (op :: rest) hops
    cases op with
    | insert k v =>
      rw [uvstrhashRun_snoc, List.map_append, List.map_singleton, Op.contents_snoc, ← hdone]
      exact BucketTable.values_insert _ k v
    | remove k => exact (removeStep_iff (hcoh done _ rest hops) hdone).mpr (h done k rest hops)
    | find k =>
      rw [uvstrhashRun_snoc, List.map_append, List.map_singleton, Op.contents_snoc]
      exact hdone

/-- The string table is a map of the contents exactly if every removal takes the value of the
newest entry. -/
theorem contentKeyed_iff (hcoh : Coherent size ops) :
    ContentKeyed size ops ↔ RemovesNewest size ops := by
  constructor
  · intro h done k rest hops
    have hnext : ops = (done ++ [.remove k]) ++ rest := by simp [hops]
    exact (removeStep_iff (hcoh done _ rest hops) (h done _ hops).1).mp (h _ rest hnext).1
  · intro h done rest hops
    have hvalues := removesNewest_run hcoh h rest hops
    refine ⟨hvalues, fun k => ?_⟩
    rw [uvstrhashFind_values, hvalues]

/-- A string is stored, and removed through a copy of it. -/
def copyOps : List (Op StrPtr ℕ) :=
  [.insert ⟨1, ⟨text "web", by decide⟩⟩ 5, .remove ⟨2, ⟨text "web", by decide⟩⟩]

theorem copyOps_coherent : Coherent 16 copyOps := by
  intro done op rest hops
  rcases done with _ | ⟨x, _ | ⟨y, done⟩⟩
  · exact fun e he => nomatch he
  · simp only [copyOps, List.cons_append, List.nil_append, List.cons.injEq] at hops
    obtain ⟨rfl, rfl, -⟩ := hops
    decide +kernel
  · simp [copyOps] at hops

theorem copyOps_contentKeyed_iff : ContentKeyed 16 copyOps ↔ RemovesNewest 16 copyOps :=
  contentKeyed_iff copyOps_coherent

/-- The entry is still found. -/
theorem copyOps_found : ¬ ∀ (size : ℕ) [NeZero size] (ops : List (Op StrPtr ℕ)),
    Coherent size ops → ContentKeyed size ops := by
  intro h
  have hfind := (h 16 copyOps copyOps_coherent copyOps [] (List.append_nil _).symm).2
    ⟨2, ⟨text "web", by decide⟩⟩
  revert hfind
  decide +kernel

end Strings

end UbervisorHashTables
