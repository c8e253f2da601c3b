import Ubervisor.Slots

/-! # What UPDT does to a group

The body of `c_updt` is a sequence of stages. Each stage changes the settings of the group by
a function of the request and tells whether it changed anything; two of them also change
slots. -/
namespace UbervisorUpdates

open UbervisorRuns
open UbervisorValues
open UbervisorChildConfigs
open UbervisorKernel
open UbervisorRegistry
open UbervisorServer
open UbervisorCommands
open UbervisorEvents
open UbervisorSupervision
open UbervisorSlots

/-- A number of the request, if it has one. -/
def intOr (new old : ℤ) : ℤ := if new ≠ -1 then new else old

def ageOr (new old : ℤ) : ℤ := if new > 0 then new else old

/-- The request names a string other than the present one. -/
def strChanges (new old : Option CStr) : Bool := new ≠ none ∧ new ≠ old

def intChanges (new old : ℤ) : Bool := new ≠ -1 ∧ new ≠ old

/-- The settings of a group after an accepted UPDT. -/
def updated (cc up : ChildConfig) : ChildConfig :=
  { up with
    ccDir := cc.ccDir.or up.ccDir
    ccHeartbeat := cc.ccHeartbeat.or up.ccHeartbeat
    ccFatalCb := cc.ccFatalCb.or up.ccFatalCb
    ccStdout := cc.ccStdout.or up.ccStdout
    ccStderr := cc.ccStderr.or up.ccStderr
    ccKillsig := intOr cc.ccKillsig up.ccKillsig
    ccInstances := intOr cc.ccInstances up.ccInstances
    ccStatus := intOr cc.ccStatus up.ccStatus
    ccError := if intChanges cc.ccStatus up.ccStatus then 0 else up.ccError
    ccAge := ageOr cc.ccAge up.ccAge }

/-- The request changes some setting of the group. -/
def changes (cc up : ChildConfig) : Bool :=
  strChanges cc.ccDir up.ccDir || strChanges cc.ccHeartbeat up.ccHeartbeat ||
  strChanges cc.ccFatalCb up.ccFatalCb || strChanges cc.ccStdout up.ccStdout ||
  strChanges cc.ccStderr up.ccStderr || intChanges cc.ccKillsig up.ccKillsig ||
  intChanges cc.ccInstances up.ccInstances || intChanges cc.ccStatus up.ccStatus ||
  (cc.ccAge > 0 ∧ cc.ccAge ≠ up.ccAge : Bool)

/-- The status of a group changes to `STATUS_RUNNING`. -/
def Restarts (cc : ChildConfig) (st : ℤ) : Prop := st ≠ statusRunning ∧ cc.ccStatus = statusRunning

/-- The update `cc` adds slots to a running group. -/
def Grows (cc up : ChildConfig) : Prop :=
  up.ccStatus = statusRunning ∧ up.ccInstances < intOr cc.ccInstances up.ccInstances

/-- Entries of an update `cc` of the group, whose status was `st`. -/
inductive UpdateEntry (cc : ChildConfig) (st : ℤ) (g : GroupId) : Hist → Prop where
  | start {h} (hr : st = statusRunning ∨ Restarts cc st) (hs : Starts g h) : UpdateEntry cc st g h
  | resized (old new : ℤ) : UpdateEntry cc st g (.resized g old new)
  | statusSet (hc : intChanges cc.ccStatus st = true) :
      UpdateEntry cc st g (.statusSet g st cc.ccStatus)

/-- One stage: the settings change by `f`, and the flag is raised when `test` says so. -/
structure Stage (cc : ChildConfig) (st : ℤ) (g : GroupId) (f : ChildConfig → ChildConfig)
    (test : ChildConfig → Bool) (u v : Server × Bool) : Prop where
  concerns : Concerns (· = g) (UpdateEntry cc st g) u.1 v.1
  list : v.1.reg.childConfigList = u.1.reg.childConfigList
  settings : settings (v.1.reg.groups g) = f (settings (u.1.reg.groups g))
  flag : v.2 = (u.2 || test (UbervisorSlots.settings (u.1.reg.groups g)))

/-- A stage that leaves the slots and the history alone. -/
structure TextStage (cc : ChildConfig) (st : ℤ) (g : GroupId) (f : ChildConfig → ChildConfig)
    (test : ChildConfig → Bool) (u v : Server × Bool) : Prop
    extends Stage cc st g f test u v where
  hist : v.1.hist = u.1.hist
  cells : (v.1.reg.groups g).ccChilds = (u.1.reg.groups g).ccChilds
  linked : Linked u.1.reg → Linked v.1.reg

section Stages

variable {g : GroupId} {f f' : ChildConfig → ChildConfig} {test test' : ChildConfig → Bool}
  {u v w : Server × Bool} {P : Platform} {cc : ChildConfig} {st : ℤ}

theorem Stage.trans (h : Stage cc st g f test u v) (k : Stage cc st g f' test' v w) :
    Stage cc st g (f' ∘ f) (fun up => test up || test' (f up)) u w where
  concerns := h.concerns.trans k.concerns
  list := k.list.trans h.list
  settings := by rw [k.settings, h.settings]; rfl
  flag := by rw [k.flag, h.flag, h.settings, Bool.or_assoc]

theorem TextStage.trans (h : TextStage cc st g f test u v) (k : TextStage cc st g f' test' v w) :
    TextStage cc st g (f' ∘ f) (fun up => test up || test' (f up)) u w where
  toStage := h.toStage.trans k.toStage
  hist := k.hist.trans h.hist
  cells := k.cells.trans h.cells
  linked hl := k.linked (h.linked hl)

/-- Nothing to change. -/
theorem TextStage.same (hf : f (settings (u.1.reg.groups g)) = settings (u.1.reg.groups g))
    (ht : test (settings (u.1.reg.groups g)) = false) : TextStage cc st g f test u u where
  concerns := .refl
  list := rfl
  settings := hf.symm
  flag := by rw [ht, Bool.or_false]
  hist := rfl
  cells := rfl
  linked hl := hl

/-- A log line and an assignment to a setting. -/
theorem TextStage.assign {k : Io → Io} {set : ChildConfig → ChildConfig}
    (hf : settings (set (u.1.reg.groups g)) = f (settings (u.1.reg.groups g)))
    (hn : ∀ up, (set up).ccName = up.ccName) (hi : ∀ up, (set up).ccInstances = up.ccInstances)
    (hc : ∀ up, (set up).ccChilds = up.ccChilds)
    (ht : test (settings (u.1.reg.groups g)) = true) :
    TextStage cc st g f test u ((u.1.withIo k).withReg fun r => r.setGroup g set, true) where
  concerns := Concerns.withIo.trans .setGroup
  list := rfl
  settings := by
    rw [← hf]
    exact congrArg UbervisorSlots.settings setGroup_self
  flag := by rw [ht, Bool.or_true]
  hist := rfl
  cells := (congrArg ChildConfig.ccChilds setGroup_self).trans (hc _)
  linked hl := hl.setGroup hn hi hc

/-- A string field is one field of the record, and not the name. -/
structure Lawful (fld : StrField) : Prop where
  get_set : ∀ v up, fld.get up = some v → fld.set v up = up
  get_settings : ∀ up, fld.get (settings up) = fld.get up
  set_settings : ∀ v up, settings (fld.set v up) = fld.set v (settings up)
  name : ∀ v up, (fld.set v up).ccName = up.ccName
  instances : ∀ v up, (fld.set v up).ccInstances = up.ccInstances
  childs : ∀ v up, (fld.set v up).ccChilds = up.ccChilds

theorem lawful_dir : Lawful fieldDir :=
  ⟨by rintro v ⟨⟩ h; cases h; rfl, fun _ => rfl, fun _ _ => rfl, fun _ _ => rfl, fun _ _ => rfl,
    fun _ _ => rfl⟩

theorem lawful_heartbeat : Lawful fieldHeartbeat :=
  ⟨by rintro v ⟨⟩ h; cases h; rfl, fun _ => rfl, fun _ _ => rfl, fun _ _ => rfl, fun _ _ => rfl,
    fun _ _ => rfl⟩

theorem lawful_fatalCb : Lawful fieldFatalCb :=
  ⟨by rintro v ⟨⟩ h; cases h; rfl, fun _ => rfl, fun _ _ => rfl, fun _ _ => rfl, fun _ _ => rfl,
    fun _ _ => rfl⟩

theorem lawful_stdout : Lawful fieldStdout :=
  ⟨by rintro v ⟨⟩ h; cases h; rfl, fun _ => rfl, fun _ _ => rfl, fun _ _ => rfl, fun _ _ => rfl,
    fun _ _ => rfl⟩

theorem lawful_stderr : Lawful fieldStderr :=
  ⟨by rintro v ⟨⟩ h; cases h; rfl, fun _ => rfl, fun _ _ => rfl, fun _ _ => rfl, fun _ _ => rfl,
    fun _ _ => rfl⟩

/-- The effect of a string of the request on the settings. -/
def merge (fld : StrField) (cc up : ChildConfig) : ChildConfig :=
  match fld.get cc with
  | none => up
  | some v => fld.set v up

theorem updateStr_stage {fld : StrField} (hf : Lawful fld) :
    TextStage cc st g (merge fld cc) (fun up => strChanges (fld.get cc) (fld.get up)) u
      (updateStr P cc g fld u) := by
  unfold updateStr
  split
  · rename_i hn
    apply TextStage.same
    · rw [merge, hn]
    · simp [strChanges, hn]
  · rename_i v hv
    split
    · rename_i he
      apply TextStage.same
      · rw [merge, hv]
        exact hf.get_set _ _ (by rw [hf.get_settings, he])
      · simp [strChanges, hf.get_settings, hv, he]
    · rename_i hne
      apply TextStage.assign
      · rw [merge, hv]
        exact hf.set_settings _ _
      · exact hf.name v
      · exact hf.instances v
      · exact hf.childs v
      · simp [strChanges, hf.get_settings, hv, Ne.symm hne]

theorem intOr_changes {new old : ℤ} (h : intChanges new old = true) : intOr new old = new := by
  unfold intChanges at h
  rw [decide_eq_true_iff] at h
  rw [intOr, if_pos h.1]

theorem intOr_same {new old : ℤ} (h : intChanges new old = false) : intOr new old = old := by
  unfold intChanges at h
  rw [decide_eq_false_iff_not] at h
  unfold intOr
  split
  · rename_i hn
    by_contra hne
    exact h ⟨hn, hne⟩
  · rfl

theorem updateKillsig_stage :
    TextStage cc st g (fun up => { up with ccKillsig := intOr cc.ccKillsig up.ccKillsig })
      (fun up => intChanges cc.ccKillsig up.ccKillsig) u (updateKillsig P cc g u) := by
  unfold updateKillsig
  dsimp only
  split
  · rename_i h
    have hc : intChanges cc.ccKillsig (u.1.reg.groups g).ccKillsig = true := decide_eq_true h
    apply TextStage.assign
    · simp only [settings, intOr_changes hc]
    · exact fun _ => rfl
    · exact fun _ => rfl
    · exact fun _ => rfl
    · exact hc
  · rename_i h
    have hc : intChanges cc.ccKillsig (u.1.reg.groups g).ccKillsig = false :=
      decide_eq_false h
    apply TextStage.same
    · simp only [settings, intOr_same hc]
    · exact hc

theorem updateAge_stage :
    TextStage cc st g (fun up => { up with ccAge := ageOr cc.ccAge up.ccAge })
      (fun up => decide (cc.ccAge > 0 ∧ cc.ccAge ≠ up.ccAge)) u (updateAge P cc g u) := by
  unfold updateAge
  dsimp only
  split
  · rename_i h
    apply TextStage.assign
    · simp only [settings, ageOr, if_pos h.1]
    · exact fun _ => rfl
    · exact fun _ => rfl
    · exact fun _ => rfl
    · exact decide_eq_true h
  · rename_i h
    apply TextStage.same
    · simp only [settings, ageOr]
      split
      · rename_i hp
        have he : cc.ccAge = (u.1.reg.groups g).ccAge := by
          by_contra hne
          exact h ⟨hp, hne⟩
        rw [he]
      · rfl
    · exact decide_eq_false h

end Stages

section SlotStages

variable {g : GroupId} {u : Server × Bool} {P : Platform} {cc : ChildConfig} {s : Server}

theorem concerns_starts {u : Server} {R : Prop} {st : ℤ}
    (h : Concerns (· = g) (fun h => R ∧ Starts g h) s u)
    (hr : R → st = statusRunning ∨ Restarts cc st) : Concerns (· = g) (UpdateEntry cc st g) s u :=
  h.mono (fun _ hx => hx) fun _ hs => .start (hr hs.1) hs.2

theorem resizeGroup_concerns (st n : ℤ) :
    Concerns (· = g) (UpdateEntry cc st g) s (resizeGroup g s n) :=
  Concerns.setGroup.trans (.record (.resized _ _))

theorem resizeGroup_self (n : ℤ) : (resizeGroup g s n).reg.groups g = { s.reg.groups g with
    ccInstances := n, ccChilds := reallocCells (s.reg.groups g).ccChilds n.toNat } := by
  unfold resizeGroup
  rw [Server.record_reg, Server.withReg_reg, setGroup_self]

theorem resizeGroup_settings (n : ℤ) : settings ((resizeGroup g s n).reg.groups g) =
    { settings (s.reg.groups g) with ccInstances := n } := by
  rw [resizeGroup_self]
  rfl

theorem reallocCells_get {l : List Cell} {n j : ℕ} (hj : j < n) :
    (reallocCells l n)[j]? = if j < l.length then l[j]? else some .unset := by
  unfold reallocCells
  rw [List.getElem?_append, List.length_take]
  split
  · rw [List.getElem?_take_of_lt hj, if_pos (by omega)]
  · rw [if_neg (by omega), List.getElem?_replicate, if_pos (by omega)]

theorem resizeGroup_cells {n : ℤ} {j : ℕ} (hj : j < n.toNat) :
    cellAt (resizeGroup g s n) g j =
      if j < (s.reg.groups g).ccChilds.length then cellAt s g j else some .unset := by
  rw [cellAt, resizeGroup_self]
  exact reallocCells_get hj

/-- The slots of a group after its count was set to `n`: kept ones and added ones. -/
structure Reslotted (g : GroupId) (n : ℤ) (s u : Server) : Prop where
  linked : Linked u.reg
  kept : ∀ j, j < n.toNat → (j : ℤ) < (s.reg.groups g).ccInstances → cellAt u g j = cellAt s g j
  added : ∀ j, j < n.toNat → (s.reg.groups g).ccInstances ≤ j →
    Grown ((s.reg.groups g).ccStatus = statusRunning) g j u.hist (some .unset) (cellAt u g j)
  starts : (∃ y ∈ newHist s u, Starts g y) ↔
    (s.reg.groups g).ccStatus = statusRunning ∧ (s.reg.groups g).ccInstances < n

theorem Reslotted.same (hl : Linked s.reg) : Reslotted g (s.reg.groups g).ccInstances s s where
  linked := hl
  kept _ _ _ := rfl
  added j h₁ h₂ := absurd h₂ (by omega)
  starts := by
    constructor
    · rintro ⟨y, hy, -⟩
      rw [newHist_self] at hy
      cases hy
    · rintro ⟨-, hn⟩
      omega

/-- More slots. -/
theorem grow_stage (P : Platform) (cc : ChildConfig) {st n : ℤ} (hl : Linked s.reg)
    (hg : g ∈ s.reg.childConfigList) (hst : (s.reg.groups g).ccStatus = st)
    (hn : (s.reg.groups g).ccInstances < n) :
    let v := (List.range' (s.reg.groups g).ccInstances.toNat
      (n.toNat - (s.reg.groups g).ccInstances.toNat)).foldl (growSlot P g) (resizeGroup g s n)
    Concerns (· = g) (UpdateEntry cc st g) s v ∧
      v.reg.childConfigList = s.reg.childConfigList ∧
      settings (v.reg.groups g) = { settings (s.reg.groups g) with ccInstances := n } ∧
      Reslotted g n s v := by
  intro v
  have hlen := hl.cells g hg
  have hlinked : Linked (resizeGroup g s n).reg := by
    refine hl.resize (by omega) ?_
    rintro i q hi ⟨-, hq⟩
    have := (List.getElem?_eq_some_iff.mp hq).1
    omega
  have hnew : ∀ j : ℕ, (s.reg.groups g).ccInstances ≤ (j : ℤ) → j < n.toNat →
      cellAt (resizeGroup g s n) g j = some .unset := by
    intro j h₁ h₂
    rw [resizeGroup_cells h₂, if_neg (by omega)]
  have hrange : (s.reg.groups g).ccInstances.toNat +
      (n.toNat - (s.reg.groups g).ccInstances.toNat) = n.toNat := by omega
  obtain ⟨hrun, hv⟩ := grow_run P g (resizeGroup g s n) (s.reg.groups g).ccInstances.toNat
    (n.toNat - (s.reg.groups g).ccInstances.toNat) hg hlinked
    (fun i q h₁ h₂ => by rw [hnew i (by omega) (by omega)]; simp)
    (fun i h₁ h₂ => by rw [hnew i (by omega) (by omega)]; simp)
  rw [hrange] at hrun
  have hsame : ((resizeGroup g s n).reg.groups g).ccStatus = (s.reg.groups g).ccStatus := by
    rw [resizeGroup_self]
  have hstarts : ((resizeGroup g s n).reg.groups g).ccStatus = statusRunning →
      st = statusRunning ∨ Restarts cc st := fun h => .inl (hst.symm.trans (hsame.symm.trans h))
  refine ⟨(resizeGroup_concerns st n).trans (concerns_starts hrun.concerns hstarts), hrun.list,
    hrun.settings.trans (resizeGroup_settings n), ⟨hv, ?_, ?_, ?_⟩⟩
  · intro j h₁ h₂
    rw [hrun.outside j (by omega), resizeGroup_cells h₁, if_pos (by omega)]
  · intro j h₁ h₂
    have := hrun.inside j (by omega) h₁
    rwa [hnew j h₂ h₁, hsame] at this
  · obtain ⟨l, hl, hk⟩ := hrun.concerns.hist
    constructor
    · rintro ⟨y, hy, hs⟩
      refine ⟨?_, hn⟩
      have he : newHist s v = .resized g (s.reg.groups g).ccInstances n :: l := by
        change v.hist.drop s.hist.length = _
        rw [hl]
        change ((s.hist ++ [_]) ++ l).drop s.hist.length = _
        rw [List.append_assoc, List.drop_left]
        rfl
      rw [he] at hy
      rcases List.mem_cons.mp hy with rfl | hy
      · cases hs.2
      · exact hsame.symm.trans (hk y hy).1
    · rintro ⟨hr, -⟩
      obtain ⟨y, hy, hs⟩ := growLoop_first P g (hsame.trans hr)
        (by omega : 0 < n.toNat - (s.reg.groups g).ccInstances.toNat)
      exact ⟨y, newHist_of_le ⟨[_], rfl⟩ hy, hs⟩

/-- Fewer slots. -/
theorem shrink_stage (cc : ChildConfig) (st : ℤ) {n : ℤ} (hl : Linked s.reg)
    (hg : g ∈ s.reg.childConfigList) (h0 : 0 ≤ n) (hn : n ≤ (s.reg.groups g).ccInstances) :
    let v := resizeGroup g ((List.range' n.toNat
      ((s.reg.groups g).ccInstances.toNat - n.toNat)).foldl (shrinkSlot g) s) n
    Concerns (· = g) (UpdateEntry cc st g) s v ∧
      v.reg.childConfigList = s.reg.childConfigList ∧
      settings (v.reg.groups g) = { settings (s.reg.groups g) with ccInstances := n } ∧
      Reslotted g n s v := by
  intro v
  have hlen := hl.cells g hg
  have hrange : n.toNat + ((s.reg.groups g).ccInstances.toNat - n.toNat) =
      (s.reg.groups g).ccInstances.toNat := by omega
  obtain ⟨hrun, hmid⟩ := shrink_run (K := fun _ => False) g s n.toNat
    ((s.reg.groups g).ccInstances.toNat - n.toNat) hg hl
  rw [hrange] at hrun
  generalize hw : (List.range' n.toNat ((s.reg.groups g).ccInstances.toNat - n.toNat)).foldl
    (shrinkSlot g) s = w at hrun hmid
  have hv : v = resizeGroup g w n := by rw [← hw]
  have hg' : g ∈ w.reg.childConfigList := by rw [hrun.list]; exact hg
  have hlen' := hmid.cells g hg'
  have hinst : (w.reg.groups g).ccInstances = (s.reg.groups g).ccInstances :=
    settings_instances hrun.settings
  have hempty : ∀ j q, n.toNat ≤ j → ¬ InSlot w.reg g j q := by
    rintro j q hj ⟨-, hq⟩
    have hlt := (List.getElem?_eq_some_iff.mp hq).1
    have he := hrun.inside j hj (by omega)
    rw [Emptied] at he
    change cellAt w g j = _ at hq
    rw [he, Option.map_eq_some_iff] at hq
    obtain ⟨_, -, h⟩ := hq
    cases h
  rw [hv]
  have hquiet : Concerns (· = g) (UpdateEntry cc st g) s w :=
    hrun.concerns.mono (fun _ hx => hx) fun _ hf => hf.elim
  refine ⟨hquiet.trans (resizeGroup_concerns st n), hrun.list, ?_,
    ⟨hmid.resize h0 hempty, ?_, ?_, ?_⟩⟩
  · rw [resizeGroup_settings, hrun.settings]
  · intro j h₁ h₂
    rw [resizeGroup_cells h₁, if_pos (by omega)]
    exact hrun.outside j (by omega)
  · intro j h₁ h₂
    omega
  · constructor
    · rintro ⟨y, hy, hs⟩
      obtain ⟨l, hl, hk⟩ := hrun.concerns.hist
      have he : newHist s (resizeGroup g w n) =
          l ++ [.resized g (w.reg.groups g).ccInstances n] := by
        change ((w.hist ++ [_]).drop s.hist.length) = _
        rw [hl, List.append_assoc, List.drop_left]
      rw [he] at hy
      rcases List.mem_append.mp hy with hy | hy
      · exact (hk y hy).elim
      · rw [List.mem_singleton] at hy
        rw [hy] at hs
        cases hs.2
    · rintro ⟨-, hlt⟩
      omega

theorem updateInstances_stage (P : Platform) (cc : ChildConfig) {st : ℤ} (u : Server × Bool)
    (hl : Linked u.1.reg) (hg : g ∈ u.1.reg.childConfigList)
    (hst : (u.1.reg.groups g).ccStatus = st)
    (hn : cc.ccInstances = -1 ∨ 1 ≤ cc.ccInstances) :
    Stage cc st g (fun up => { up with ccInstances := intOr cc.ccInstances up.ccInstances })
      (fun up => intChanges cc.ccInstances up.ccInstances) u (updateInstances P cc g u) ∧
    Reslotted g (intOr cc.ccInstances (u.1.reg.groups g).ccInstances) u.1
      (updateInstances P cc g u).1 := by
  unfold updateInstances
  dsimp only
  split
  · rename_i h
    have hc : intChanges cc.ccInstances (u.1.reg.groups g).ccInstances = true :=
      decide_eq_true h
    have hn := hn.resolve_left h.1
    rw [intOr_changes hc]
    have hio : ∀ {k : Io → Io}, Concerns (· = g) (UpdateEntry cc st g) u.1 (u.1.withIo k) :=
      .withIo
    have hc' : intChanges cc.ccInstances (settings (u.1.reg.groups g)).ccInstances = true := hc
    have hset : { settings (u.1.reg.groups g) with ccInstances := cc.ccInstances } =
        { settings (u.1.reg.groups g) with
          ccInstances := intOr cc.ccInstances (settings (u.1.reg.groups g)).ccInstances } := by
      simp only [settings, intOr_changes hc]
    split
    · rename_i hgt
      obtain ⟨h₁, h₂, h₃, h₄⟩ := grow_stage P cc (s := u.1.withIo _) hl hg hst hgt
      refine ⟨⟨hio.trans h₁, h₂, h₃.trans hset, ?_⟩,
        ⟨h₄.linked, h₄.kept, h₄.added, h₄.starts⟩⟩
      · rw [hc', Bool.or_true]
    · rename_i hle
      obtain ⟨h₁, h₂, h₃, h₄⟩ := shrink_stage (s := u.1.withIo _) cc st hl hg
        (by omega : 0 ≤ cc.ccInstances) (Int.not_lt.mp hle)
      refine ⟨⟨hio.trans h₁, h₂, h₃.trans hset, ?_⟩,
        ⟨h₄.linked, h₄.kept, h₄.added, h₄.starts⟩⟩
      · rw [hc', Bool.or_true]
  · rename_i h
    have hc : intChanges cc.ccInstances (u.1.reg.groups g).ccInstances = false :=
      decide_eq_false h
    rw [intOr_same hc]
    refine ⟨⟨.refl, rfl, ?_, ?_⟩, .same hl⟩
    · simp only [settings, intOr_same hc]
    · have hc' : intChanges cc.ccInstances (settings (u.1.reg.groups g)).ccInstances = false := hc
      rw [hc', Bool.or_false]

theorem Restarts.changes {cc : ChildConfig} {st : ℤ} (h : Restarts cc st) :
    intChanges cc.ccStatus st = true := by
  unfold intChanges
  rw [decide_eq_true_iff, h.2]
  exact ⟨by decide, h.1.symm⟩

/-- What the change of the status does to a cell. -/
def Turned (cc : ChildConfig) (st : ℤ) (g : GroupId) (j : ℕ) (h : List Hist)
    (o o' : Option Cell) : Prop :=
  (Restarts cc st → Started g j h o o') ∧ (¬ Restarts cc st → o' = o)

/-- The loop that starts what the group lacks, when its status changes to running. -/
theorem restart_run (P : Platform) (cc : ChildConfig) (st : ℤ) (s : Server) (n : ℕ)
    (hl : Linked s.reg) (hg : g ∈ s.reg.childConfigList) :
    let v := if st ≠ statusRunning ∧ cc.ccStatus = statusRunning then
      (List.range n).foldl (startSlot P g) s else s
    SlotLoop (fun h => Restarts cc st ∧ Starts g h) (Turned cc st g) g 0 n s v ∧
      Linked v.reg := by
  intro v
  by_cases hr : Restarts cc st
  · have hv : v = (List.range n).foldl (startSlot P g) s := if_pos hr
    obtain ⟨hrun, hl'⟩ := start_run P g s n hg hl
    rw [hv]
    exact ⟨{ hrun with
      concerns := hrun.concerns.mono (fun _ hx => hx) fun _ hs => ⟨hr, hs⟩
      inside := fun j h₁ h₂ => ⟨fun _ => hrun.inside j h₁ h₂, fun hn => absurd hr hn⟩ }, hl'⟩
  · have hv : v = s := if_neg hr
    rw [hv]
    exact ⟨⟨.refl, rfl, rfl, fun _ _ => rfl, fun j _ _ => ⟨fun h => absurd h hr, fun _ => rfl⟩⟩,
      hl⟩

theorem Turned.persistent {cc : ChildConfig} {st : ℤ} : Persistent (Turned cc st g) :=
  fun j h h' o o' hh ht => ⟨fun hr => started_persistent g j h h' o o' hh (ht.1 hr), ht.2⟩

/-- `up->cc_error = 0`. -/
def resetError (g : GroupId) (s : Server) : Server :=
  s.withReg fun r => r.setGroup g fun up => { up with ccError := 0 }

/-- `up->cc_status` is assigned. -/
def giveStatus (g : GroupId) (old new : ℤ) (s : Server) : Server :=
  (s.withReg fun r => r.setGroup g fun up => { up with ccStatus := new }).record
    (.statusSet g old new)

theorem resetError_self : (resetError g s).reg.groups g = { s.reg.groups g with ccError := 0 } := by
  rw [resetError, Server.withReg_reg, setGroup_self]

theorem resetError_linked (hl : Linked s.reg) : Linked (resetError g s).reg :=
  hl.setGroup (f := fun up => { up with ccError := 0 }) (fun _ => rfl) (fun _ => rfl) fun _ => rfl

theorem giveStatus_self (old new : ℤ) : (giveStatus g old new s).reg.groups g =
    { s.reg.groups g with ccStatus := new } := by
  rw [giveStatus, Server.record_reg, Server.withReg_reg, setGroup_self]

theorem giveStatus_linked (old new : ℤ) (hl : Linked s.reg) :
    Linked (giveStatus g old new s).reg :=
  hl.setGroup (f := fun up => { up with ccStatus := new }) (fun _ => rfl) (fun _ => rfl)
    fun _ => rfl

/-- The slots and the history after the stage of the status. -/
structure Restatused (cc : ChildConfig) (st : ℤ) (g : GroupId) (s u : Server) : Prop where
  linked : Linked u.reg
  turned : ∀ j : ℕ, j < (s.reg.groups g).ccInstances →
    Turned cc st g j u.hist (cellAt s g j) (cellAt u g j)
  statusSet : intChanges cc.ccStatus st = true → .statusSet g st cc.ccStatus ∈ newHist s u
  starts : ∀ y ∈ newHist s u, Starts g y → Restarts cc st

theorem Restatused.same {st : ℤ} (hc : intChanges cc.ccStatus st = false) (hl : Linked s.reg) :
    Restatused cc st g s s where
  linked := hl
  turned j _ := by
    refine ⟨fun hr => ?_, fun _ => rfl⟩
    have hchanges := hr.changes
    rw [hc] at hchanges
    cases hchanges
  statusSet h := by
    rw [hc] at h
    cases h
  starts y hy := by
    rw [newHist_self] at hy
    cases hy

/-- The loop runs between the two assignments. -/
theorem restart_restatused {st : ℤ} {w : Server}
    (hrun : SlotLoop (fun h => Restarts cc st ∧ Starts g h) (Turned cc st g) g 0
      (s.reg.groups g).ccInstances.toNat (resetError g s) w) (hl : Linked w.reg) :
    Restatused cc st g s (giveStatus g st cc.ccStatus w) := by
  obtain ⟨l, hhist, hstarts⟩ := hrun.concerns.hist
  have hnew : newHist s (giveStatus g st cc.ccStatus w) = l ++ [.statusSet g st cc.ccStatus] := by
    change (w.hist ++ [_]).drop s.hist.length = _
    rw [hhist]
    change ((s.hist ++ l) ++ [_]).drop s.hist.length = _
    rw [List.append_assoc, List.drop_left]
  constructor
  · exact giveStatus_linked _ _ hl
  · intro j hj
    have hturned := hrun.inside j (Nat.zero_le j) (by omega)
    rw [cellAt, resetError_self] at hturned
    rw [cellAt, cellAt, giveStatus_self]
    exact Turned.persistent j _ _ _ _ (List.prefix_append _ _) hturned
  · intro _
    rw [hnew]
    exact List.mem_append_right _ List.mem_cons_self
  · intro y hy hs
    rw [hnew] at hy
    rcases List.mem_append.mp hy with hy | hy
    · exact (hstarts y hy).1
    · rw [List.mem_singleton.mp hy] at hs
      cases hs.2

/-- The settings after the loop and the two assignments. -/
theorem restart_settings (st n : ℤ) {w : Server}
    (h : settings (w.reg.groups g) = settings ((resetError g s).reg.groups g)) :
    settings ((giveStatus g st n w).reg.groups g) =
      { settings (s.reg.groups g) with ccStatus := n, ccError := 0 } := by
  rw [resetError_self] at h
  rw [giveStatus_self]
  have hset : settings { w.reg.groups g with ccStatus := n } =
      { settings (w.reg.groups g) with ccStatus := n } := rfl
  rw [hset, h]
  rfl

theorem updateStatus_changed
    (hc : intChanges cc.ccStatus (u.1.reg.groups g).ccStatus = true) :
    ∃ k k', updateStatus P cc g u =
      ((giveStatus g (u.1.reg.groups g).ccStatus cc.ccStatus
        (if (u.1.reg.groups g).ccStatus ≠ statusRunning ∧ cc.ccStatus = statusRunning then
          (List.range (u.1.reg.groups g).ccInstances.toNat).foldl (startSlot P g)
            (resetError g (u.1.withIo k))
        else resetError g (u.1.withIo k))).withIo k', true) := by
  unfold updateStatus
  dsimp only
  rw [if_pos (of_decide_eq_true hc)]
  exact ⟨_, _, rfl⟩

theorem updateStatus_same
    (hc : intChanges cc.ccStatus (u.1.reg.groups g).ccStatus = false) :
    updateStatus P cc g u = u := if_neg (of_decide_eq_false hc)

theorem updateStatus_stage (P : Platform) (cc : ChildConfig) {st : ℤ} (u : Server × Bool)
    (hl : Linked u.1.reg) (hg : g ∈ u.1.reg.childConfigList)
    (hst : (u.1.reg.groups g).ccStatus = st) :
    Stage cc st g (fun up => { up with
        ccStatus := intOr cc.ccStatus up.ccStatus
        ccError := if intChanges cc.ccStatus up.ccStatus then 0 else up.ccError })
      (fun up => intChanges cc.ccStatus up.ccStatus) u (updateStatus P cc g u) ∧
    Restatused cc st g u.1 (updateStatus P cc g u).1 := by
  have hold : (settings (u.1.reg.groups g)).ccStatus = st := hst
  cases hc : intChanges cc.ccStatus st with
  | true =>
    obtain ⟨k, k', hv⟩ := updateStatus_changed (P := P) (hst ▸ hc)
    obtain ⟨hrun, hlw⟩ := restart_run P cc st (resetError g (u.1.withIo k))
      (u.1.reg.groups g).ccInstances.toNat (resetError_linked hl) hg
    rw [hst] at hv
    rw [hv]
    generalize (if st ≠ statusRunning ∧ cc.ccStatus = statusRunning then _ else _) = w at hrun hlw
    have hre : Restatused cc st g (u.1.withIo k) (giveStatus g st cc.ccStatus w) :=
      restart_restatused hrun hlw
    have hloop : Concerns (· = g) (UpdateEntry cc st g) u.1 w :=
      (Concerns.withIo.trans .setGroup).trans (concerns_starts hrun.concerns .inr)
    refine ⟨⟨?_, hrun.list, ?_, ?_⟩, ⟨hre.linked, hre.turned, hre.statusSet, hre.starts⟩⟩
    · exact (hloop.trans (Concerns.setGroup.trans (.record (.statusSet hc)))).trans .withIo
    · rw [hold, hc, intOr_changes hc]
      exact restart_settings st _ hrun.settings
    · rw [hold, hc, Bool.or_true]
  | false =>
    rw [updateStatus_same (hst ▸ hc)]
    refine ⟨⟨.refl, rfl, ?_, ?_⟩, .same hc hl⟩
    · rw [hold, intOr_same hc, hc, ← hold]
      rfl
    · rw [hold, hc, Bool.or_false]

end SlotStages

/-- What an accepted UPDT with the record `cc` does to the group `g`. -/
structure Updated (cc : ChildConfig) (g : GroupId) (s u : Server) : Prop where
  concerns : Concerns (· = g) (UpdateEntry cc (s.reg.groups g).ccStatus g) s u
  list : u.reg.childConfigList = s.reg.childConfigList
  settings : settings (u.reg.groups g) = updated cc (settings (s.reg.groups g))
  linked : Linked u.reg
  statusSet : intChanges cc.ccStatus (s.reg.groups g).ccStatus = true →
    .statusSet g (s.reg.groups g).ccStatus cc.ccStatus ∈ newHist s u
  cells : ∀ j : ℕ, j < (u.reg.groups g).ccInstances → ∃ mid,
    (j < (s.reg.groups g).ccInstances → mid = cellAt s g j) ∧
    ((s.reg.groups g).ccInstances ≤ j →
      Grown ((s.reg.groups g).ccStatus = statusRunning) g j u.hist (some .unset) mid) ∧
    Turned cc (s.reg.groups g).ccStatus g j u.hist mid (cellAt u g j)
  starts : ¬ Restarts cc (s.reg.groups g).ccStatus →
    ((∃ y ∈ newHist s u, Starts g y) ↔ Grows cc (s.reg.groups g))

theorem Updated.withIo {cc : ChildConfig} {g : GroupId} {s u : Server} (h : Updated cc g s u)
    (k : Io → Io) : Updated cc g s (u.withIo k) :=
  ⟨h.concerns.trans .withIo, h.list, h.settings, h.linked, h.statusSet, h.cells, h.starts⟩

section Fields

variable {cc : ChildConfig} {g : GroupId} {s u : Server}

theorem Updated.status (h : Updated cc g s u) :
    (u.reg.groups g).ccStatus = intOr cc.ccStatus (s.reg.groups g).ccStatus := by
  have hs := congrArg ChildConfig.ccStatus h.settings
  exact hs

theorem Updated.instances (h : Updated cc g s u) :
    (u.reg.groups g).ccInstances = intOr cc.ccInstances (s.reg.groups g).ccInstances := by
  have hi := congrArg ChildConfig.ccInstances h.settings
  exact hi

theorem Updated.name (h : Updated cc g s u) :
    (u.reg.groups g).ccName = (s.reg.groups g).ccName := by
  have hn := congrArg ChildConfig.ccName h.settings
  exact hn

theorem Updated.error (h : Updated cc g s u) : (u.reg.groups g).ccError =
    if intChanges cc.ccStatus (s.reg.groups g).ccStatus then 0 else (s.reg.groups g).ccError := by
  have he := congrArg ChildConfig.ccError h.settings
  exact he

end Fields

section Whole

variable (P : Platform) (cc : ChildConfig) (g : GroupId) (st : ℤ) (u : Server × Bool)

theorem merge_eq {fld : StrField} {f : Option CStr → ChildConfig → ChildConfig}
    (hn : ∀ up, f none up = up) (hs : ∀ v up, f (some v) up = fld.set v up) :
    merge fld cc = f (fld.get cc) := by
  funext up
  unfold merge
  cases fld.get cc with
  | none => exact (hn up).symm
  | some v => exact (hs v up).symm

theorem merge_dir : merge fieldDir cc =
    fun up => { up with ccDir := cc.ccDir.or up.ccDir } :=
  merge_eq cc (f := fun o up => { up with ccDir := o.or up.ccDir }) (fun _ => rfl) fun _ _ => rfl

theorem merge_heartbeat : merge fieldHeartbeat cc =
    fun up => { up with ccHeartbeat := cc.ccHeartbeat.or up.ccHeartbeat } :=
  merge_eq cc (f := fun o up => { up with ccHeartbeat := o.or up.ccHeartbeat }) (fun _ => rfl)
    fun _ _ => rfl

theorem merge_fatalCb : merge fieldFatalCb cc =
    fun up => { up with ccFatalCb := cc.ccFatalCb.or up.ccFatalCb } :=
  merge_eq cc (f := fun o up => { up with ccFatalCb := o.or up.ccFatalCb }) (fun _ => rfl)
    fun _ _ => rfl

theorem merge_stdout : merge fieldStdout cc =
    fun up => { up with ccStdout := cc.ccStdout.or up.ccStdout } :=
  merge_eq cc (f := fun o up => { up with ccStdout := o.or up.ccStdout }) (fun _ => rfl)
    fun _ _ => rfl

theorem merge_stderr : merge fieldStderr cc =
    fun up => { up with ccStderr := cc.ccStderr.or up.ccStderr } :=
  merge_eq cc (f := fun o up => { up with ccStderr := o.or up.ccStderr }) (fun _ => rfl)
    fun _ _ => rfl

/-- The strings and the signal of an update. -/
def texts (cc up : ChildConfig) : ChildConfig :=
  { up with
    ccDir := cc.ccDir.or up.ccDir
    ccHeartbeat := cc.ccHeartbeat.or up.ccHeartbeat
    ccFatalCb := cc.ccFatalCb.or up.ccFatalCb
    ccStdout := cc.ccStdout.or up.ccStdout
    ccStderr := cc.ccStderr.or up.ccStderr
    ccKillsig := intOr cc.ccKillsig up.ccKillsig }

def textChanges (cc up : ChildConfig) : Bool :=
  strChanges cc.ccDir up.ccDir || strChanges cc.ccHeartbeat up.ccHeartbeat ||
  strChanges cc.ccFatalCb up.ccFatalCb || strChanges cc.ccStdout up.ccStdout ||
  strChanges cc.ccStderr up.ccStderr || intChanges cc.ccKillsig up.ccKillsig

theorem texts_stage : TextStage cc st g (texts cc) (textChanges cc) u
    (updateKillsig P cc g (updateStrings P cc g u)) := by
  have h₁ : TextStage cc st g _ _ u (updateStr P cc g fieldDir u) := updateStr_stage lawful_dir
  have h₂ := h₁.trans (updateStr_stage (P := P) lawful_heartbeat)
  have h₃ := h₂.trans (updateStr_stage (P := P) lawful_fatalCb)
  have h₄ := h₃.trans (updateStr_stage (P := P) lawful_stdout)
  have h₅ := h₄.trans (updateStr_stage (P := P) lawful_stderr)
  have h₆ := h₅.trans (updateKillsig_stage (P := P))
  rw [merge_dir, merge_heartbeat, merge_fatalCb, merge_stdout, merge_stderr] at h₆
  exact h₆

/-- The whole of UPDT, with its flag. -/
theorem updateGroup_updated (s : Server) (hl : Linked s.reg) (hg : g ∈ s.reg.childConfigList)
    (hr : updtRefusal cc = none) :
    Updated cc g s (updateGroup P cc g s).1 ∧
      (updateGroup P cc g s).2 = changes cc (settings (s.reg.groups g)) := by
  have hn : cc.ccInstances = -1 ∨ 1 ≤ cc.ccInstances := by
    unfold updtRefusal at hr
    split_ifs at hr with _ _ _ h
    omega
  have ht := texts_stage P cc g (s.reg.groups g).ccStatus (s, false)
  generalize hu : updateKillsig P cc g (updateStrings P cc g (s, false)) = u₁ at ht
  have hg₁ : g ∈ u₁.1.reg.childConfigList := by rw [ht.list]; exact hg
  have hstatus : (u₁.1.reg.groups g).ccStatus = (s.reg.groups g).ccStatus := by
    have h := congrArg ChildConfig.ccStatus ht.settings
    exact h
  obtain ⟨hi, hslots⟩ := updateInstances_stage P cc u₁ (ht.linked hl) hg₁ hstatus hn
  generalize hu₂ : updateInstances P cc g u₁ = u₂ at hi hslots
  have hst : (u₂.1.reg.groups g).ccStatus = (s.reg.groups g).ccStatus := by
    have h₁ := congrArg ChildConfig.ccStatus hi.settings
    exact h₁.trans hstatus
  obtain ⟨hs, hre⟩ := updateStatus_stage P cc u₂ hslots.linked (by rw [hi.list]; exact hg₁) hst
  generalize hu₃ : updateStatus P cc g u₂ = u₃ at hs hre
  have ha : TextStage cc (s.reg.groups g).ccStatus g _ _ u₃ (updateAge P cc g u₃) :=
    updateAge_stage
  have hv : updateGroup P cc g s = updateAge P cc g u₃ := by
    rw [← hu₃, ← hu₂, ← hu]
    rfl
  rw [hv]
  have hall := ((ht.toStage.trans hi).trans hs).trans ha.toStage
  have hinst : (u₁.1.reg.groups g).ccInstances = (s.reg.groups g).ccInstances := by
    have h := congrArg ChildConfig.ccInstances ht.settings
    exact h
  have hcells₁ : ∀ j, cellAt u₁.1 g j = cellAt s g j := fun j => by
    rw [cellAt, ht.cells, cellAt]
  have hcells₄ : ∀ j, cellAt (updateAge P cc g u₃).1 g j = cellAt u₃.1 g j := fun j => by
    rw [cellAt, ha.cells, cellAt]
  have hinst₂ : ((updateAge P cc g u₃).1.reg.groups g).ccInstances =
      (u₂.1.reg.groups g).ccInstances := by
    have h₁ := congrArg ChildConfig.ccInstances ha.settings
    have h₂ := congrArg ChildConfig.ccInstances hs.settings
    exact h₁.trans h₂
  have hcount : (u₂.1.reg.groups g).ccInstances =
      intOr cc.ccInstances (u₁.1.reg.groups g).ccInstances := by
    have h := congrArg ChildConfig.ccInstances hi.settings
    exact h
  have hle₃ : u₃.1.hist <+: (updateAge P cc g u₃).1.hist := ha.concerns.le_hist
  have hnew : newHist s (updateAge P cc g u₃).1 = newHist u₁.1 u₂.1 ++ newHist u₂.1 u₃.1 := by
    have hsplit := newHist_append hi.concerns.le_hist hs.concerns.le_hist
    rw [← hsplit]
    exact newHist_congr ht.hist.symm ha.hist
  refine ⟨⟨hall.concerns, hall.list, hall.settings, ha.linked hre.linked, ?_, ?_, ?_⟩, ?_⟩
  · intro hc
    have hle : s.hist <+: u₂.1.hist := ht.concerns.le_hist.trans hi.concerns.le_hist
    have hmem := newHist_of_le hle (hre.statusSet hc)
    rw [newHist_congr rfl ha.hist]
    exact hmem
  · intro j hj
    rw [hinst₂] at hj
    refine ⟨cellAt u₂.1 g j, ?_, ?_, ?_⟩
    · intro hk
      rw [hslots.kept j (by rw [← hcount]; omega) (by rw [hinst]; exact hk), hcells₁]
    · intro hk
      have h := hslots.added j (by rw [← hcount]; omega) (by rw [hinst]; exact hk)
      rw [hstatus] at h
      exact grown_persistent g _ j _ _ _ _ (hs.concerns.le_hist.trans hle₃) h
    · rw [hcells₄]
      exact Turned.persistent j _ _ _ _ hle₃ (hre.turned j hj)
  · intro hno
    have hgrows := hslots.starts
    rw [hstatus, hinst] at hgrows
    rw [Grows, ← hgrows, hnew]
    constructor
    · rintro ⟨y, hy, hy'⟩
      rcases List.mem_append.mp hy with hy | hy
      · exact ⟨y, hy, hy'⟩
      · exact absurd (hre.starts y hy hy') hno
    · rintro ⟨y, hy, hy'⟩
      exact ⟨y, List.mem_append_left _ hy, hy'⟩
  · rw [hall.flag]
    rfl

end Whole

end UbervisorUpdates
