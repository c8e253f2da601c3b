import Ubervisor.Events
import Ubervisor.Supervision

/-! # What the server's loops over slots do

A frame relation for server functions, `spawn` as one of two outcomes, and the loops that
start processes in a range of slots or give a range of slots up. -/
namespace UbervisorSlots

open UbervisorRuns
open UbervisorValues
open UbervisorChildConfigs
open UbervisorKernel
open UbervisorRegistry
open UbervisorServer
open UbervisorCommands
open UbervisorEvents
open UbervisorSupervision

/-- From `s` to `u` only groups in `X` are touched, and the history only grows, by entries
that satisfy `K`. -/
structure Concerns (X : GroupId → Prop) (K : Hist → Prop) (s u : Server) : Prop where
  clock : u.clock = s.clock
  turn : u.inSigchld = s.inSigchld
  hist : ∃ l, u.hist = s.hist ++ l ∧ ∀ h ∈ l, K h
  groups : ∀ g, ¬ X g → u.reg.groups g = s.reg.groups g
  list : ∀ g, ¬ X g → (g ∈ u.reg.childConfigList ↔ g ∈ s.reg.childConfigList)
  fresh : u.reg.nextGroup = s.reg.nextGroup

namespace Concerns

variable {X Y : GroupId → Prop} {K L : Hist → Prop} {s u v : Server} {g : GroupId}

/-- Neither the tables nor the history change. -/
theorem of_eq (hr : u.reg = s.reg) (hh : u.hist = s.hist) (hc : u.clock = s.clock)
    (ht : u.inSigchld = s.inSigchld) : Concerns X K s u :=
  ⟨hc, ht, ⟨[], by simp [hh], by simp⟩, fun _ _ => by rw [hr], fun _ _ => by rw [hr],
    by rw [hr]⟩

theorem refl : Concerns X K s s := of_eq rfl rfl rfl rfl

theorem trans (h : Concerns X K s u) (k : Concerns X K u v) : Concerns X K s v where
  clock := k.clock.trans h.clock
  turn := k.turn.trans h.turn
  hist := by
    obtain ⟨l, hl, hx⟩ := h.hist
    obtain ⟨m, hm, hy⟩ := k.hist
    refine ⟨l ++ m, by rw [hm, hl, List.append_assoc], ?_⟩
    intro e he
    rcases List.mem_append.mp he with he | he
    · exact hx e he
    · exact hy e he
  groups g hg := (k.groups g hg).trans (h.groups g hg)
  list g hg := (k.list g hg).trans (h.list g hg)
  fresh := k.fresh.trans h.fresh

theorem mono (hxy : ∀ g, X g → Y g) (hkl : ∀ h, K h → L h) (h : Concerns X K s u) :
    Concerns Y L s u where
  clock := h.clock
  turn := h.turn
  hist := by
    obtain ⟨l, hl, hx⟩ := h.hist
    exact ⟨l, hl, fun e he => hkl e (hx e he)⟩
  groups g hg := h.groups g fun hx => hg (hxy g hx)
  list g hg := h.list g fun hx => hg (hxy g hx)
  fresh := h.fresh

theorem le_hist (h : Concerns X K s u) : s.hist <+: u.hist := by
  obtain ⟨l, hl, -⟩ := h.hist
  exact ⟨l, hl.symm⟩

theorem withIo {k : Io → Io} : Concerns X K s (s.withIo k) := of_eq rfl rfl rfl rfl

theorem record {h : Hist} (hk : K h) : Concerns X K s (s.record h) where
  clock := rfl
  turn := rfl
  hist := ⟨[h], rfl, by simpa using hk⟩
  groups _ _ := rfl
  list _ _ := Iff.rfl
  fresh := rfl

/-- A change of the registry that keeps the list and writes only to groups in `X`. -/
theorem withReg {f : Registry → Registry} (hg : ∀ g, ¬ X g → (f s.reg).groups g = s.reg.groups g)
    (hl : (f s.reg).childConfigList = s.reg.childConfigList)
    (hn : (f s.reg).nextGroup = s.reg.nextGroup) : Concerns X K s (s.withReg f) where
  clock := rfl
  turn := rfl
  hist := ⟨[], by simp, by simp⟩
  groups := hg
  list g _ := by rw [Server.withReg_reg, hl]
  fresh := hn

theorem setGroup {f : ChildConfig → ChildConfig} :
    Concerns (· = g) K s (s.withReg fun r => r.setGroup g f) :=
  withReg (fun _ hg => setGroup_of_ne hg) rfl rfl

theorem setCell {i : ℕ} {c : Cell} : Concerns (· = g) K s (s.withReg fun r => r.setCell g i c) :=
  setGroup

end Concerns

/-- Starts of processes of the group. -/
def Starts (g : GroupId) (h : Hist) : Prop := h.group = some g ∧ h.isSpawn = true

/-- The record without its slots. -/
def settings (cc : ChildConfig) : ChildConfig := { cc with ccChilds := [] }

section Spawn

inductive SpawnResult (site : SpawnSite) (g : GroupId) (i : ℕ) (s u : Server) : Prop where
  | failed (reg : u.reg = s.reg) (hist : u.hist = s.hist ++ [.spawnFailed site g i])
  | started (pid : Pid) (k : Kernel) (pr : Process)
      (fork : s.reg.kernel.fork (some pid) = some (pid, k)) (pPid : pr.pPid = pid)
      (cfg : pr.pChildConfig = some g) (inst : pr.pInstance = i)
      (reg : u.reg = s.reg.startProcess k pr g i)
      (hist : u.hist = s.hist ++ [.spawned site g i s.reg.nextProc pid])

variable (P : Platform) (site : SpawnSite) (s : Server) (g : GroupId) (i : ℕ)

theorem spawn_result : SpawnResult site g i s (spawn P site s g i) := by
  unfold spawn takeOutcome
  dsimp only
  split
  · exact .failed rfl rfl
  · split
    · exact .failed rfl rfl
    · rename_i pid k hf
      obtain ⟨hw, -⟩ := Kernel.fork_eq_some hf
      rw [hw] at hf
      exact .started pid k _ hf rfl rfl rfl rfl rfl

theorem spawn_concerns : Concerns (· = g) (Starts g) s (spawn P site s g i) := by
  have hframe : (spawn P site s g i).clock = s.clock ∧
      (spawn P site s g i).inSigchld = s.inSigchld := by
    unfold spawn takeOutcome
    dsimp only
    split
    · exact ⟨rfl, rfl⟩
    · split <;> exact ⟨rfl, rfl⟩
  rcases spawn_result P site s g i with ⟨hr, hh⟩ | ⟨pid, k, pr, -, -, -, -, hr, hh⟩
  · exact ⟨hframe.1, hframe.2, ⟨_, hh, by simp [Starts, Hist.group, Hist.isSpawn]⟩,
      by rw [hr]; simp, by rw [hr]; simp, by rw [hr]⟩
  · refine ⟨hframe.1, hframe.2, ⟨_, hh, by simp [Starts, Hist.group, Hist.isSpawn]⟩, ?_, ?_, ?_⟩
    · intro g' hg'
      rw [hr]
      exact startProcess_of_ne hg'
    · intro g' _
      rw [hr]
      rfl
    · rw [hr]
      rfl

end Spawn

section Loops

variable {site : SpawnSite} {s u v : Server} {g : GroupId} {a b c : ℕ}
  {K : Hist → Prop} {T : ℕ → List Hist → Option Cell → Option Cell → Prop}

/-- The cell at `i` of a group, if there is one. -/
def cellAt (s : Server) (g : GroupId) (i : ℕ) : Option Cell := (s.reg.groups g).ccChilds[i]?

/-- A loop over the slots of `g` from `a` up to `b`, with entries that satisfy `K`. The cell
at `j` turns from the old to the new value as `T j` says, given the history at the end. -/
structure SlotLoop (K : Hist → Prop) (T : ℕ → List Hist → Option Cell → Option Cell → Prop)
    (g : GroupId) (a b : ℕ) (s u : Server) : Prop where
  concerns : Concerns (· = g) K s u
  list : u.reg.childConfigList = s.reg.childConfigList
  settings : settings (u.reg.groups g) = settings (s.reg.groups g)
  outside : ∀ j, ¬ (a ≤ j ∧ j < b) → cellAt u g j = cellAt s g j
  inside : ∀ j, a ≤ j → j < b → T j u.hist (cellAt s g j) (cellAt u g j)

/-- What is true of a cell stays true when the history grows. -/
def Persistent (T : ℕ → List Hist → Option Cell → Option Cell → Prop) : Prop :=
  ∀ j h h' o o', h <+: h' → T j h o o' → T j h' o o'

theorem SlotLoop.refl : SlotLoop K T g a a s s where
  concerns := .refl
  list := rfl
  settings := rfl
  outside _ _ := rfl
  inside _ h₁ h₂ := absurd h₂ (Nat.not_lt.mpr h₁)

theorem SlotLoop.trans (hT : Persistent T) (hab : a ≤ b) (hbc : b ≤ c)
    (h : SlotLoop K T g a b s u) (k : SlotLoop K T g b c u v) : SlotLoop K T g a c s v where
  concerns := h.concerns.trans k.concerns
  list := k.list.trans h.list
  settings := k.settings.trans h.settings
  outside j hj := (k.outside j (by omega)).trans (h.outside j (by omega))
  inside j h₁ h₂ := by
    by_cases hj : j < b
    · rw [k.outside j (by omega)]
      exact hT j _ _ _ _ k.concerns.le_hist (h.inside j h₁ hj)
    · rw [← h.outside j (by omega)]
      exact k.inside j (by omega) h₂

/-- The rule for such loops. The turns may rely on the settings of the group, and a turn that
keeps the tables linked may rely on its own cell to be the one the loop started with. -/
theorem SlotLoop.run (hT : Persistent T) {turn : Server → ℕ → Server} (a n : ℕ) (s : Server)
    (hturn : ∀ u i, UbervisorSlots.settings (u.reg.groups g) =
      UbervisorSlots.settings (s.reg.groups g) → SlotLoop K T g i (i + 1) u (turn u i))
    (hlink : ∀ u i, a ≤ i → i < a + n → g ∈ u.reg.childConfigList →
      UbervisorSlots.settings (u.reg.groups g) = UbervisorSlots.settings (s.reg.groups g) →
      cellAt u g i = cellAt s g i → Linked u.reg → Linked (turn u i).reg)
    (hg : g ∈ s.reg.childConfigList) (hl : Linked s.reg) :
    SlotLoop K T g a (a + n) s ((List.range' a n).foldl turn s) ∧
      Linked ((List.range' a n).foldl turn s).reg := by
  refine foldl_range_rule (I := fun i u => SlotLoop K T g a i s u ∧ Linked u.reg) ⟨.refl, hl⟩ ?_
  rintro i u ha hi ⟨h, hu⟩
  refine ⟨h.trans hT ha (Nat.le_succ i) (hturn u i h.settings), ?_⟩
  exact hlink u i ha hi (by rw [h.list]; exact hg) h.settings (h.outside i (by omega)) hu

theorem cellAt_set {l : List Cell} {c : Cell} {i j : ℕ} : (l.set i c)[j]? =
    if j = i then l[j]?.map fun _ => c else l[j]? := by
  rw [List.getElem?_set]
  by_cases hj : j = i
  · subst hj
    by_cases hl : j < l.length <;> simp [hl]
  · simp [hj, Ne.symm hj]

/-- `spawn` fills the slot, or is recorded as failed. -/
def Filled (site : SpawnSite) (g : GroupId) (j : ℕ) (h : List Hist) (o o' : Option Cell) : Prop :=
  (∃ p, o' = some (.proc p)) ∨ o' = o ∧ (o ≠ none → .spawnFailed site g j ∈ h)

theorem filled_persistent : Persistent (Filled site g) := by
  intro j h h' o o' hh hf
  rcases hf with hp | ⟨he, hf⟩
  · exact .inl hp
  · exact .inr ⟨he, fun ho => hh.subset (hf ho)⟩

theorem spawn_filled (P : Platform) (site : SpawnSite) (s : Server) (g : GroupId) (i : ℕ) :
    SlotLoop (Starts g) (Filled site g) g i (i + 1) s (spawn P site s g i) := by
  have hc := spawn_concerns P site s g i
  rcases spawn_result P site s g i with ⟨hr, hh⟩ | ⟨pid, k, pr, -, -, -, -, hr, hh⟩
  · refine ⟨hc, by rw [hr], by rw [hr], fun j _ => by rw [cellAt, hr, cellAt], ?_⟩
    intro j h₁ h₂
    have hj : j = i := by omega
    subst hj
    refine .inr ⟨by rw [cellAt, hr, cellAt], fun _ => ?_⟩
    rw [hh]
    simp
  · have hself : (spawn P site s g i).reg.groups g = { s.reg.groups g with
        ccChilds := (s.reg.groups g).ccChilds.set i (.proc s.reg.nextProc) } := by
      rw [hr, startProcess_self]
    refine ⟨hc, by rw [hr]; rfl, by rw [hself]; rfl, ?_, ?_⟩
    · intro j hj
      rw [cellAt, hself, cellAt_set, if_neg (by omega)]
      rfl
    · intro j h₁ h₂
      have hj : j = i := by omega
      subst hj
      rw [cellAt, cellAt, hself, cellAt_set, if_pos rfl]
      cases ho : (s.reg.groups g).ccChilds[j]? with
      | none => exact .inr ⟨rfl, fun h => absurd rfl h⟩
      | some c => exact .inl ⟨_, rfl⟩

/-- A slot that holds no process may be filled. -/
theorem spawn_linked (P : Platform) (site : SpawnSite) {s : Server} {g : GroupId} {i : ℕ}
    {c : Cell} (hl : Linked s.reg) (hg : g ∈ s.reg.childConfigList)
    (hi : cellAt s g i = some c) (hc : ∀ q, c ≠ .proc q) : Linked (spawn P site s g i).reg := by
  rcases spawn_result P site s g i with ⟨hr, -⟩ | ⟨pid, k, pr, hf, hp, hcfg, hinst, hr, -⟩
  · rw [hr]
    exact hl
  · rw [hr]
    refine hl.startProcess hf hp hcfg hinst hg (List.getElem?_eq_some_iff.mp hi).1 ?_
    rintro q ⟨-, hq⟩
    rw [cellAt] at hi
    exact hc q (Option.some.inj (hi.symm.trans hq))

end Loops

section Turns

variable (P : Platform) (g : GroupId)

/-- The loop of a start and of `load_dump`. -/
theorem spawnRange_run (site : SpawnSite) (s : Server) (a n : ℕ)
    (hg : g ∈ s.reg.childConfigList) (hl : Linked s.reg)
    (hempty : ∀ i, a ≤ i → i < a + n → cellAt s g i = some .null) :
    SlotLoop (Starts g) (Filled site g) g a (a + n) s (spawnRange P site s g a n) ∧
      Linked (spawnRange P site s g a n).reg := by
  refine SlotLoop.run filled_persistent a n s (fun u i _ => spawn_filled P site u g i) ?_ hg hl
  intro u i ha hi hg' _ he hu
  exact spawn_linked P site hu hg' (he.trans (hempty i ha hi)) (by simp)

/-- A slot that is given up or kept empty. -/
def Emptied (_ : ℕ) (_ : List Hist) (o o' : Option Cell) : Prop := o' = o.map fun _ => .null

theorem emptied_persistent : Persistent Emptied := fun _ _ _ _ _ _ h => h

/-- One turn of the loop that fills new slots of a group. -/
def Grown (running : Prop) (g : GroupId) (j : ℕ) (h : List Hist) (o o' : Option Cell) : Prop :=
  (running → Filled .grow g j h o o') ∧ (¬ running → Emptied j h o o')

theorem grown_persistent (running : Prop) : Persistent (Grown running g) :=
  fun j h h' o o' hh hf => ⟨fun hr => filled_persistent j h h' o o' hh (hf.1 hr), hf.2⟩

theorem setCell_emptied {K : Hist → Prop} (s : Server) (i : ℕ) :
    SlotLoop K Emptied g i (i + 1) s (s.withReg fun r => r.setCell g i .null) := by
  have hself : (s.withReg fun r => r.setCell g i .null).reg.groups g = { s.reg.groups g with
      ccChilds := (s.reg.groups g).ccChilds.set i .null } := setCell_self
  refine ⟨.setCell, rfl, by rw [hself]; rfl, ?_, ?_⟩
  · intro j hj
    rw [cellAt, hself, cellAt_set, if_neg (by omega)]
    rfl
  · intro j h₁ h₂
    have hj : j = i := by omega
    subst hj
    rw [cellAt, cellAt, hself, cellAt_set, if_pos rfl]
    rfl

theorem growSlot_grown (running : Prop) (s : Server) (i : ℕ)
    (hr : running ↔ (s.reg.groups g).ccStatus = statusRunning) :
    SlotLoop (fun h => running ∧ Starts g h) (Grown running g) g i (i + 1) s
      (growSlot P g s i) := by
  unfold growSlot
  split
  · rename_i h
    have hs := spawn_filled P .grow s g i
    exact { hs with
      concerns := hs.concerns.mono (fun _ hx => hx) fun _ hk => ⟨hr.mpr h, hk⟩
      inside := fun j h₁ h₂ =>
        ⟨fun _ => hs.inside j h₁ h₂, fun hn => absurd (hr.mpr h) hn⟩ }
  · rename_i h
    have hs := setCell_emptied (K := fun h => running ∧ Starts g h) g s i
    exact { hs with inside := fun j h₁ h₂ =>
      ⟨fun hn => absurd (hr.mp hn) h, fun _ => hs.inside j h₁ h₂⟩ }

theorem settings_status {cc cc' : ChildConfig} (h : settings cc = settings cc') :
    cc.ccStatus = cc'.ccStatus := by
  have hs := congrArg ChildConfig.ccStatus h
  exact hs

theorem settings_instances {cc cc' : ChildConfig} (h : settings cc = settings cc') :
    cc.ccInstances = cc'.ccInstances := by
  have hi := congrArg ChildConfig.ccInstances h
  exact hi

theorem settings_name {cc cc' : ChildConfig} (h : settings cc = settings cc') :
    cc.ccName = cc'.ccName := by
  have hn := congrArg ChildConfig.ccName h
  exact hn

theorem grow_run (s : Server) (a n : ℕ) (hg : g ∈ s.reg.childConfigList) (hl : Linked s.reg)
    (hempty : ∀ i q, a ≤ i → i < a + n → cellAt s g i ≠ some (.proc q))
    (hin : ∀ i, a ≤ i → i < a + n → cellAt s g i ≠ none) :
    SlotLoop (fun h => (s.reg.groups g).ccStatus = statusRunning ∧ Starts g h)
        (Grown ((s.reg.groups g).ccStatus = statusRunning) g) g a (a + n) s
        ((List.range' a n).foldl (growSlot P g) s) ∧
      Linked ((List.range' a n).foldl (growSlot P g) s).reg := by
  refine SlotLoop.run (grown_persistent g _) a n s ?_ ?_ hg hl
  · intro u i he
    exact growSlot_grown P g _ u i (by rw [settings_status he])
  · intro u i ha hi hg' _ he hu
    obtain ⟨c, hc⟩ := Option.ne_none_iff_exists'.mp (hin i ha hi)
    have hu' : cellAt u g i = some c := he.trans hc
    have hq : ∀ q, c ≠ .proc q := by
      rintro q rfl
      exact hempty i q ha hi hc
    unfold growSlot
    split
    · exact spawn_linked P .grow hu hg' hu' hq
    · refine hu.clear ?_
      rintro q ⟨-, hs⟩
      rw [cellAt] at hu'
      exact hq q (Option.some.inj (hu'.symm.trans hs))

theorem growLoop_hist (l : List ℕ) (s : Server) : s.hist <+: (l.foldl (growSlot P g) s).hist := by
  induction l generalizing s with
  | nil => exact List.prefix_rfl
  | cons i l ih =>
    have h := growSlot_grown P g ((s.reg.groups g).ccStatus = statusRunning) s i Iff.rfl
    exact h.concerns.le_hist.trans (ih _)

theorem spawn_entry (site : SpawnSite) (s : Server) (i : ℕ) :
    ∃ h, Starts g h ∧ (spawn P site s g i).hist = s.hist ++ [h] := by
  rcases spawn_result P site s g i with ⟨-, hh⟩ | ⟨pid, k, pr, -, -, -, -, -, hh⟩
  · exact ⟨_, ⟨rfl, rfl⟩, hh⟩
  · exact ⟨_, ⟨rfl, rfl⟩, hh⟩

/-- The first turn of the loop starts a process, if the group runs. -/
theorem growLoop_first {s : Server} {a n : ℕ} (hr : (s.reg.groups g).ccStatus = statusRunning)
    (hn : 0 < n) :
    ∃ h ∈ newHist s ((List.range' a n).foldl (growSlot P g) s), Starts g h := by
  obtain ⟨m, rfl⟩ : ∃ m, n = m + 1 := ⟨n - 1, by omega⟩
  rw [List.range'_succ, List.foldl_cons]
  have hfirst : growSlot P g s a = spawn P .grow s g a := if_pos hr
  obtain ⟨h, hs, hh⟩ := spawn_entry P g .grow s a
  obtain ⟨l, hl⟩ := growLoop_hist P g (List.range' (a + 1) m) (growSlot P g s a)
  refine ⟨h, ?_, hs⟩
  rw [newHist, ← hl, hfirst, hh, List.append_assoc, List.drop_left]
  exact List.mem_cons_self

/-- One turn of the loop that starts what a group lacks. -/
def Started (g : GroupId) (j : ℕ) (h : List Hist) (o o' : Option Cell) : Prop :=
  (o = some .null → Filled .status g j h o o') ∧ (o ≠ some .null → o' = o)

theorem started_persistent : Persistent (Started g) :=
  fun j h h' o o' hh hf => ⟨fun ho => filled_persistent j h h' o o' hh (hf.1 ho), hf.2⟩

theorem processFindInstance_null {s : Server} {i : ℕ} :
    s.reg.processFindInstance g i = .null ↔ cellAt s g i = some .null := by
  unfold Registry.processFindInstance ChildConfig.cell cellAt
  rw [List.getD_eq_getElem?_getD]
  cases h : (s.reg.groups g).ccChilds[i]? <;> simp

theorem idle_started {s u : Server} {i : ℕ} (hn : cellAt s g i ≠ some .null)
    (hr : u.reg = s.reg) (hc : Concerns (· = g) (Starts g) s u) :
    SlotLoop (Starts g) (Started g) g i (i + 1) s u where
  concerns := hc
  list := by rw [hr]
  settings := by rw [hr]
  outside j _ := by rw [cellAt, hr, cellAt]
  inside j h₁ h₂ := by
    have hj : j = i := by omega
    subst hj
    exact ⟨fun h => absurd h hn, fun _ => by rw [cellAt, hr, cellAt]⟩

theorem startSlot_started (s : Server) (i : ℕ) :
    SlotLoop (Starts g) (Started g) g i (i + 1) s (startSlot P g s i) := by
  have hnull := processFindInstance_null g (s := s) (i := i)
  unfold startSlot
  split
  · rename_i h
    have hs := spawn_filled P .status s g i
    refine { hs with inside := fun j h₁ h₂ => ⟨fun _ => hs.inside j h₁ h₂, fun hn => ?_⟩ }
    have hj : j = i := by omega
    subst hj
    exact absurd (hnull.mp h) hn
  · rename_i q h
    exact idle_started g (fun hn => by rw [hnull.mpr hn] at h; cases h) rfl .refl
  · rename_i h
    exact idle_started g (fun hn => by rw [hnull.mpr hn] at h; cases h) rfl .withIo

theorem start_run (s : Server) (n : ℕ) (hg : g ∈ s.reg.childConfigList) (hl : Linked s.reg) :
    SlotLoop (Starts g) (Started g) g 0 n s ((List.range n).foldl (startSlot P g) s) ∧
      Linked ((List.range n).foldl (startSlot P g) s).reg := by
  rw [List.range_eq_range']
  have h := SlotLoop.run (started_persistent g) 0 n s
    (fun u i _ => startSlot_started P g u i) ?_ hg hl
  · rwa [Nat.zero_add] at h
  · intro u i _ _ hg' _ _ hu
    unfold startSlot
    split
    · rename_i h
      exact spawn_linked P .status hu hg' ((processFindInstance_null g).mp h) (by simp)
    · exact hu
    · exact hu

theorem shrinkSlot_emptied {K : Hist → Prop} (s : Server) (i : ℕ) :
    SlotLoop K Emptied g i (i + 1) s (shrinkSlot g s i) := by
  unfold shrinkSlot
  split
  · rename_i p _
    have ho : Concerns (· = g) K s (s.withReg fun r => r.orphan p) :=
      .withReg (fun _ _ => rfl) rfl rfl
    have hs := setCell_emptied (K := K) g (s.withReg fun r => r.orphan p) i
    exact ⟨ho.trans hs.concerns, hs.list, hs.settings, hs.outside, hs.inside⟩
  · exact setCell_emptied g s i
  · have hs := setCell_emptied (K := K) g (emit s .wild) i
    exact ⟨Concerns.withIo.trans hs.concerns, hs.list, hs.settings, hs.outside, hs.inside⟩

theorem cell_eq_proc {cc : ChildConfig} {i : ℕ} {p : ProcId} :
    cc.cell i = .proc p ↔ cc.ccChilds[i]? = some (.proc p) := by
  unfold ChildConfig.cell
  rw [List.getD_eq_getElem?_getD]
  cases h : cc.ccChilds[i]? <;> simp

theorem shrink_run {K : Hist → Prop} (s : Server) (a n : ℕ) (hg : g ∈ s.reg.childConfigList)
    (hl : Linked s.reg) :
    SlotLoop K Emptied g a (a + n) s ((List.range' a n).foldl (shrinkSlot g) s) ∧
      Linked ((List.range' a n).foldl (shrinkSlot g) s).reg := by
  refine SlotLoop.run emptied_persistent a n s (fun u i _ => shrinkSlot_emptied g u i) ?_ hg hl
  intro u i _ _ hg' _ _ hu
  unfold shrinkSlot
  split
  · rename_i p h
    exact hu.giveUp ⟨hg', cell_eq_proc.mp h⟩
  · rename_i h
    refine hu.clear ?_
    rintro q ⟨-, hq⟩
    rw [cell_eq_proc.mpr hq] at h
    cases h
  · rename_i h
    refine hu.clear ?_
    rintro q ⟨-, hq⟩
    rw [cell_eq_proc.mpr hq] at h
    cases h

end Turns

end UbervisorSlots
