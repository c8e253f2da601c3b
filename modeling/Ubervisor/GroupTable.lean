import Ubervisor.Registrations

/-! # The group list and the table of names

Both hold the same groups in every reachable state, also when a dump names two of them alike.
A name finds the newest group that has it, and a deletion takes one group out of both. -/
namespace UbervisorGroupTable

open UbervisorRuns
open UbervisorBucketTable
open UbervisorValues
open UbervisorChildConfigs
open UbervisorKernel
open UbervisorRegistry
open UbervisorServer
open UbervisorEvents
open UbervisorSupervision
open UbervisorSlots
open UbervisorUpdates
open UbervisorEffects
open UbervisorRegistrations

section Tables

variable {r : Registry} {g : GroupId} {n : CStr}

/-- The key of a group: the address of its name, and the name. -/
def groupKey (r : Registry) (g : GroupId) : StrPtr := ⟨g, (r.groups g).ccName⟩

/-- The entries of the table are the listed groups under their own keys. -/
theorem entries_list (h : Named r) :
    r.childConfigHash.entries.Perm (r.childConfigList.map fun g => (groupKey r g, g)) := by
  apply BucketTable.entries_perm
  intro n
  rw [h.names, List.filter_map]
  have hkey : ∀ g ∈ r.childConfigList.filter fun g => (r.groups g).ccName = n,
      ((⟨g, n⟩, g) : StrPtr × GroupId) = (groupKey r g, g) := by
    intro g hg
    have hn := (List.mem_filter.mp hg).2
    rw [decide_eq_true_eq] at hn
    rw [groupKey, hn]
  exact List.map_congr_left hkey

theorem values_list (h : Named r) :
    (r.childConfigHash.entries.map Prod.snd).Perm r.childConfigList := by
  have hmap := (entries_list h).map Prod.snd
  rw [List.map_map] at hmap
  have hid : r.childConfigList.map (Prod.snd ∘ fun g => (groupKey r g, g)) = r.childConfigList :=
    List.map_id _
  rwa [hid] at hmap

/-- Every entry is a listed group in the bucket of its own name. -/
theorem bucket_entry (h : Named r) {b : Fin hashBsizeChildConfig} {e : StrPtr × GroupId}
    (he : e ∈ r.childConfigHash.buckets b) : e.2 ∈ r.childConfigList ∧
      e.1 = groupKey r e.2 ∧
        Fin.ofNat hashBsizeChildConfig (hashStr (r.groups e.2).ccName) = b := by
  have hmem : e ∈ r.childConfigHash.entries :=
    List.mem_flatMap.mpr ⟨b, List.mem_finRange b, he⟩
  obtain ⟨g, hg, rfl⟩ := List.mem_map.mp ((entries_list h).mem_iff.mp hmem)
  exact ⟨hg, rfl, r.childConfigHash.own b _ he⟩

/-- A name finds the first group of the list that has it. -/
theorem find_list (h : Named r) (n : CStr) :
    r.childConfigFindByName n = r.childConfigList.find? fun g => (r.groups g).ccName = n := by
  rw [Registry.childConfigFindByName, uvstrhashFind_chain, h.names, List.head?_map,
    Option.map_map, List.head?_filter]
  exact Option.map_id.symm ▸ rfl

/-- The groups are listed from the newest to the oldest: identities are given out in order. -/
def NewestFirst (r : Registry) : Prop := r.childConfigList.Pairwise (· > ·)

theorem find?_newest {l : List GroupId} {p : GroupId → Bool} (hl : l.Pairwise (· > ·)) :
    l.find? p = some g ↔ g ∈ l ∧ p g = true ∧ ∀ g' ∈ l, p g' = true → g' ≤ g := by
  induction l with
  | nil => simp
  | cons a l ih =>
    obtain ⟨ha, hl⟩ := List.pairwise_cons.mp hl
    by_cases hp : p a = true
    · rw [List.find?_cons_of_pos hp]
      constructor
      · intro he
        cases he
        refine ⟨by simp, hp, fun g' hg' _ => ?_⟩
        rcases List.mem_cons.mp hg' with rfl | hg'
        · exact le_rfl
        · exact (ha g' hg').le
      · rintro ⟨hg, -, hmax⟩
        rcases List.mem_cons.mp hg with rfl | hg
        · rfl
        · have hlt : g < a := ha g hg
          have hle : a ≤ g := hmax a (by simp) hp
          exact absurd hle hlt.not_ge
    · rw [List.find?_cons_of_neg hp, ih hl]
      constructor
      · rintro ⟨hg, hpg, hmax⟩
        refine ⟨List.mem_cons_of_mem _ hg, hpg, fun g' hg' hp' => ?_⟩
        rcases List.mem_cons.mp hg' with rfl | hg'
        · exact absurd hp' hp
        · exact hmax g' hg' hp'
      · rintro ⟨hg, hpg, hmax⟩
        rcases List.mem_cons.mp hg with rfl | hg
        · exact absurd hpg hp
        · exact ⟨hg, hpg, fun g' hg' => hmax g' (List.mem_cons_of_mem _ hg')⟩

/-- A name finds the newest group that has it. -/
theorem find_newest (h : Named r) (hn : NewestFirst r) : r.childConfigFindByName n = some g ↔
    g ∈ r.childConfigList ∧ (r.groups g).ccName = n ∧
      ∀ g' ∈ r.childConfigList, (r.groups g').ccName = n → g' ≤ g := by
  rw [find_list h, find?_newest hn]
  simp only [decide_eq_true_eq]

theorem find_listed (h : Named r) (n : CStr) : r.childConfigFindByName n ≠ none ↔
    ∃ g ∈ r.childConfigList, (r.groups g).ccName = n := by
  rw [find_list h, ← Option.isSome_iff_ne_none, List.find?_isSome]
  simp only [decide_eq_true_eq]

/-- What `child_config_remove` leaves: the entries of all other groups. -/
theorem remove_entries (h : Named r) (hg : g ∈ r.childConfigList) :
    ((groupKey r g, g) :: (r.childConfigRemove g).childConfigHash.entries).Perm
      r.childConfigHash.entries := by
  have hrest := entries_list (h.remove hg)
  have herase : (r.childConfigRemove g).childConfigList = r.childConfigList.erase g := rfl
  have hkeys : ∀ g', groupKey (r.childConfigRemove g) g' = groupKey r g' := fun _ => rfl
  simp only [herase, hkeys] at hrest
  have hperm := (List.perm_cons_erase hg).map fun g => (groupKey r g, g)
  rw [List.map_cons] at hperm
  exact ((hrest.cons _).trans hperm.symm).trans (entries_list h).symm

/-- Other names find what they found. -/
theorem remove_find (h : Named r) (hg : g ∈ r.childConfigList) (hn : n ≠ (r.groups g).ccName) :
    (r.childConfigRemove g).childConfigFindByName n = r.childConfigFindByName n := by
  have hchain : (r.childConfigRemove g).childConfigHash.chain n = r.childConfigHash.chain n := by
    rw [(h.remove hg).names n, h.names n]
    have herase : (r.childConfigRemove g).childConfigList = r.childConfigList.erase g := rfl
    have hgroups : (r.childConfigRemove g).groups = r.groups := rfl
    rw [herase, hgroups, h.nodup.erase_eq_filter, List.filter_filter]
    refine congrArg _ (List.filter_congr fun g' _ => ?_)
    by_cases hg' : (r.groups g').ccName = n
    · have hne : g' ≠ g := fun he => hn (by rw [← hg', he])
      simp [hg', hne]
    · simp [hg']
  rw [Registry.childConfigFindByName, uvstrhashFind_chain, hchain, ← uvstrhashFind_chain]
  rfl

end Tables

section Runs

variable {P : Platform} {s u x : Server} {e : Event} {g : GroupId} {n : CStr}

theorem NewestFirst.of_list (h : NewestFirst s.reg)
    (hl : u.reg.childConfigList = s.reg.childConfigList) : NewestFirst u.reg := by
  rw [NewestFirst, hl]
  exact h

theorem NewestFirst.created {site : SpawnSite} {cc : ChildConfig} (hl : Linked s.reg)
    (h : NewestFirst s.reg) (hc : Created site cc s u) : NewestFirst u.reg := by
  rw [NewestFirst, hc.list]
  exact List.pairwise_cons.mpr ⟨fun g hg => hl.listed g hg, h⟩

theorem loading_newest {R : List ChildConfig} (h : Relation.ReflTransGen (Loading R) s u)
    (hl : Linked s.reg) (hn : NewestFirst s.reg) : Linked u.reg ∧ NewestFirst u.reg := by
  induction h with
  | refl => exact ⟨hl, hn⟩
  | tail _ hlast ih =>
    obtain ⟨hx, hnx⟩ := ih
    rcases hlast with hcalm | ⟨cc, -, hcreated⟩
    · refine ⟨by rw [hcalm.reg]; exact hx, hnx.of_list (by rw [hcalm.reg])⟩
    · exact ⟨hcreated.linked, hnx.created hx hcreated⟩

theorem effect_newest (hl : Linked s.reg) (hn : NewestFirst s.reg) (h : Effect P s e u) :
    NewestFirst u.reg := by
  cases h with
  | kernel k reg => exact hn.of_list (by rw [reg]; rfl)
  | process p f reg => exact hn.of_list (by rw [reg]; rfl)
  | orphanExit p k _ _ reg => exact hn.of_list (by rw [reg]; rfl)
  | deleted obj g _ _ reg =>
    have hlist : u.reg.childConfigList = s.reg.childConfigList.erase g := by
      rw [reg, orphanAll_keeps]
      rfl
    rw [NewestFirst, hlist]
    exact hn.sublist List.erase_sublist
  | created cc _ hc => exact hn.created hl hc
  | loaded file _ hload => exact (loading_newest hload hl hn).2
  | updated cc g _ _ hu => exact hn.of_list hu.list
  | exited g i p ret _ hx => exact hn.of_list hx.list

theorem init_newest : NewestFirst Registry.init := List.Pairwise.nil

theorem reachable_newest (h : Reachable P s) : NewestFirst s.reg := by
  obtain ⟨a, b, t, h⟩ := h
  refine h.invariant_under (I := fun s => Linked s.reg) (P := fun s => NewestFirst s.reg)
    (fun _ _ _ hl hs _ => step_linked hl hs) ?_ Registry.linked_init
    init_newest
  intro s e u hl hn hs _
  obtain ⟨x, hx, he⟩ := step_effect hl hs
  refine effect_newest ?_ ?_ he
  · rw [hx.reg]
    exact hl
  · exact hn.of_list (by rw [hx.reg])

/-- The list and the table of names agree in every reachable state, and stay in agreement
when a group is removed. -/
theorem reachable_tables_agree (h : Reachable P s) :
    (s.reg.childConfigHash.entries.map Prod.snd).Perm s.reg.childConfigList ∧
    (∀ b, ∀ e ∈ s.reg.childConfigHash.buckets b, e.1 = groupKey s.reg e.2 ∧
      Fin.ofNat hashBsizeChildConfig (hashStr (s.reg.groups e.2).ccName) = b) ∧
    (∀ n, s.reg.childConfigFindByName n ≠ none ↔
      ∃ g ∈ s.reg.childConfigList, (s.reg.groups g).ccName = n) ∧
    (∀ n g, s.reg.childConfigFindByName n = some g ↔
      g ∈ s.reg.childConfigList ∧ (s.reg.groups g).ccName = n ∧
        ∀ g' ∈ s.reg.childConfigList, (s.reg.groups g').ccName = n → g' ≤ g) ∧
    ∀ g ∈ s.reg.childConfigList,
      (g :: (s.reg.childConfigRemove g).childConfigList).Perm s.reg.childConfigList ∧
      ((groupKey s.reg g, g) :: (s.reg.childConfigRemove g).childConfigHash.entries).Perm
        s.reg.childConfigHash.entries ∧
      ∀ n, n ≠ (s.reg.groups g).ccName →
        (s.reg.childConfigRemove g).childConfigFindByName n = s.reg.childConfigFindByName n := by
  have hnamed : Named s.reg := (ReachableBy.linked h).toNamed
  refine ⟨values_list hnamed, fun b e he => (bucket_entry hnamed he).2, find_listed hnamed,
    fun n g => find_newest hnamed (reachable_newest h), fun g hg => ?_⟩
  exact ⟨(List.perm_cons_erase hg).symm, remove_entries hnamed hg,
    fun n hn => remove_find hnamed hg hn⟩

/-- Two groups of one name: the newer one is found. -/
theorem twinsState_tables :
    twinsState.reg.childConfigList = [1, 0] ∧
      twinsState.reg.childConfigFindByName (CStr.ofBytes (text "web")) = some 1 := by
  have hrun : Admits Enabled (next twinsPlatform) Always (initial false false 100)
      [loading twinsDump [100, 101]] := by decide +kernel
  have hlist : twinsState.reg.childConfigList = [1, 0] := by decide +kernel
  have hname : ∀ g ∈ twinsState.reg.childConfigList,
      (twinsState.reg.groups g).ccName = CStr.ofBytes (text "web") := by decide +kernel
  have hagree := reachable_tables_agree (s := twinsState) ⟨false, false, 100, hrun.execution⟩
  refine ⟨hlist, (hagree.2.2.2.1 _ 1).mpr ⟨by rw [hlist]; simp, ?_, ?_⟩⟩
  · exact hname 1 (by rw [hlist]; simp)
  · intro g hg _
    rw [hlist] at hg
    simp only [List.mem_cons, List.not_mem_nil, or_false] at hg
    rcases hg with rfl | rfl
    · exact le_rfl
    · exact Nat.zero_le 1

end Runs

end UbervisorGroupTable
