import Ubervisor.Updates

/-! # What the end of a process does

One turn of `sigchld_cb` for a process of the table: the slot is emptied, an error is counted
and may break the group, and a running group gets a new process for the instance. -/
namespace UbervisorExits

open UbervisorValues
open UbervisorChildConfigs
open UbervisorKernel
open UbervisorServer
open UbervisorEvents
open UbervisorSupervision
open UbervisorSlots

/-- The end of a process breaks the group. -/
def Breaks (ret : WaitStatus) (t : ℤ) (cc : ChildConfig) : Prop :=
  exitIsError ret cc = true ∧ tooManyErrors (countError t cc)

instance (ret : WaitStatus) (t : ℤ) (cc : ChildConfig) : Decidable (Breaks ret t cc) :=
  inferInstanceAs (Decidable (_ ∧ _))

/-- The settings of a group after the end of one of its processes. -/
def counted (ret : WaitStatus) (t : ℤ) (cc : ChildConfig) : ChildConfig :=
  if Breaks ret t cc then { countError t cc with ccStatus := statusBroken }
  else if exitIsError ret cc then countError t cc
  else cc

/-- What else a turn of `sigchld_cb` notes about the group. -/
inductive ExitEntry (g : GroupId) (t n : ℤ) (breaks running : Prop) : Hist → Prop where
  | start {h} (hr : running) (hs : Starts g h) : ExitEntry g t n breaks running h
  | broken (hb : breaks) : ExitEntry g t n breaks running (.broken g t n)
  | fatal (hb : breaks) : ExitEntry g t n breaks running (.fatal g)

theorem starts_uncalled {l : List Hist} {g : GroupId} (h : ∀ x ∈ l, Starts g x) :
    l.count (.fatal g) = 0 := by
  apply List.count_eq_zero.mpr
  intro hx
  cases (h _ hx).2

/-- The tables stay as they are, apart from children that no table keeps track of. -/
structure Forked (s u : Server) : Prop where
  reg : ∃ k, u.reg = s.reg.setKernel k ∧ ∀ q ∈ s.reg.kernel.unreaped, q ∈ k.unreaped
  clock : u.clock = s.clock
  turn : u.inSigchld = s.inSigchld

theorem Forked.same {s u : Server} (hr : u.reg = s.reg) (hc : u.clock = s.clock)
    (ht : u.inSigchld = s.inSigchld) : Forked s u :=
  ⟨⟨s.reg.kernel, hr, fun _ h => h⟩, hc, ht⟩

theorem Forked.linked {s u : Server} (h : Forked s u) (hl : Linked s.reg) : Linked u.reg := by
  obtain ⟨k, hr, hk⟩ := h.reg
  rw [hr]
  exact hl.setKernel fun p hp => hk _ (hl.tracked_unreaped hp)

theorem Forked.groups {s u : Server} (h : Forked s u) : u.reg.groups = s.reg.groups := by
  obtain ⟨k, hr, -⟩ := h.reg
  rw [hr]
  rfl

theorem Forked.list {s u : Server} (h : Forked s u) :
    u.reg.childConfigList = s.reg.childConfigList := by
  obtain ⟨k, hr, -⟩ := h.reg
  rw [hr]
  rfl

theorem Forked.concerns {s u : Server} {X : GroupId → Prop} {K : Hist → Prop} (h : Forked s u)
    {l : List Hist} (hh : u.hist = s.hist ++ l) (hk : ∀ e ∈ l, K e) : Concerns X K s u := by
  refine ⟨h.clock, h.turn, ⟨l, hh, hk⟩, fun g _ => by rw [h.groups], fun g _ => by rw [h.list], ?_⟩
  obtain ⟨k, hr, -⟩ := h.reg
  rw [hr]
  rfl

theorem forkCommand_forked (s : Server) :
    Forked s (forkCommand s).2 ∧ (forkCommand s).2.hist = s.hist := by
  unfold forkCommand takeOutcome
  dsimp only
  split
  · exact ⟨.same rfl rfl rfl, rfl⟩
  · rename_i pid k hf
    obtain ⟨hw, -⟩ := Kernel.fork_eq_some hf
    exact ⟨⟨⟨k, rfl, fun q hq => (Kernel.mem_unreaped_fork hf q).mpr (.inr hq)⟩, rfl, rfl⟩, rfl⟩

theorem runFatalCb_forked (P : Platform) (s : Server) (g : GroupId) :
    Forked s (runFatalCb P s g) ∧ (runFatalCb P s g).hist = s.hist ++ [.fatal g] := by
  have hf := forkCommand_forked (s.record (.fatal g))
  unfold runFatalCb
  dsimp only
  split
  · exact ⟨.same rfl rfl rfl, rfl⟩
  · split
    · rename_i u hu
      rw [hu] at hf
      exact ⟨⟨hf.1.reg, hf.1.clock, hf.1.turn⟩, hf.2⟩
    · rename_i u hu
      rw [hu] at hf
      exact ⟨⟨hf.1.reg, hf.1.clock, hf.1.turn⟩, hf.2⟩

/-- The state of a group after an error was counted, before a new process is started. -/
structure Noted (g : GroupId) (ret : WaitStatus) (s u : Server) : Prop where
  concerns : Concerns (· = g) (ExitEntry g s.clock (s.reg.groups g).ccInstances
    (Breaks ret s.clock (s.reg.groups g)) False) s u
  list : u.reg.childConfigList = s.reg.childConfigList
  group : u.reg.groups g = counted ret s.clock (s.reg.groups g)
  linked : Linked s.reg → Linked u.reg
  broken : Breaks ret s.clock (s.reg.groups g) →
    .broken g s.clock (s.reg.groups g).ccInstances ∈ newHist s u
  once : (newHist s u).count (.fatal g) = if Breaks ret s.clock (s.reg.groups g) then 1 else 0

/-- The assignments of the branch that breaks a group. -/
def breakGroup (g : GroupId) (s : Server) : Server :=
  ((s.withReg fun r => r.setGroup g (countError s.clock)).withReg fun r =>
    r.setGroup g fun cc => { cc with ccStatus := statusBroken }).record
      (.broken g s.clock (s.reg.groups g).ccInstances)

section Break

variable {s : Server} {g : GroupId} {ret : WaitStatus}

theorem breakGroup_self : (breakGroup g s).reg.groups g =
    { countError s.clock (s.reg.groups g) with ccStatus := statusBroken } := by
  rw [breakGroup, Server.record_reg, Server.withReg_reg, setGroup_self, Server.withReg_reg,
    setGroup_self]

theorem breakGroup_linked (hl : Linked s.reg) : Linked (breakGroup g s).reg := by
  have hcounted := hl.setGroup (g := g) (f := countError s.clock) (fun _ => rfl) (fun _ => rfl)
    fun _ => rfl
  exact hcounted.setGroup (f := fun cc => { cc with ccStatus := statusBroken }) (fun _ => rfl)
    (fun _ => rfl) fun _ => rfl

theorem breakGroup_concerns {breaks running : Prop} (hb : breaks) :
    Concerns (· = g) (ExitEntry g s.clock (s.reg.groups g).ccInstances breaks running) s
      (breakGroup g s) :=
  (Concerns.setGroup.trans .setGroup).trans (.record (.broken hb))

theorem noteError_breaks (P : Platform)
    (hm : tooManyErrors (countError s.clock (s.reg.groups g))) :
    ∃ k, noteError P s g = runFatalCb P ((breakGroup g s).withIo k) g := by
  have hself : (s.withReg fun r => r.setGroup g (countError s.clock)).reg.groups g =
      countError s.clock (s.reg.groups g) := by
    rw [Server.withReg_reg, setGroup_self]
  unfold noteError
  dsimp only
  rw [hself, if_pos hm]
  exact ⟨fun io => Io.notify P (.status (s.reg.groups g).ccName statusBroken)
    (Io.slog P s.clock 2 (text "spawn failures. setting broken on " ++
      (s.reg.groups g).ccName.bytes ++ text "\n") io), rfl⟩

theorem noteError_counts (P : Platform)
    (hm : ¬ tooManyErrors (countError s.clock (s.reg.groups g))) :
    noteError P s g = s.withReg fun r => r.setGroup g (countError s.clock) := by
  have hself : (s.withReg fun r => r.setGroup g (countError s.clock)).reg.groups g =
      countError s.clock (s.reg.groups g) := by
    rw [Server.withReg_reg, setGroup_self]
  unfold noteError
  dsimp only
  rw [hself, if_neg hm]

/-- The notification, and the call of the fatal command. -/
theorem breakGroup_noted (P : Platform) (hb : Breaks ret s.clock (s.reg.groups g)) (k : Io → Io) :
    Noted g ret s (runFatalCb P ((breakGroup g s).withIo k) g) := by
  obtain ⟨hf, hh⟩ := runFatalCb_forked P ((breakGroup g s).withIo k) g
  have hnew : newHist s (runFatalCb P ((breakGroup g s).withIo k) g) =
      [.broken g s.clock (s.reg.groups g).ccInstances, .fatal g] := by
    unfold newHist
    rw [hh]
    change ((s.hist ++ [_]) ++ [_]).drop s.hist.length = _
    rw [List.append_assoc, List.drop_left]
    rfl
  have hcalled : ∀ h ∈ [Hist.fatal g], ExitEntry g s.clock (s.reg.groups g).ccInstances
      (Breaks ret s.clock (s.reg.groups g)) False h := by
    intro h hm
    rw [List.mem_singleton.mp hm]
    exact .fatal hb
  constructor
  · exact ((breakGroup_concerns hb).trans .withIo).trans (hf.concerns hh hcalled)
  · exact hf.list
  · rw [hf.groups, Server.withIo_reg, breakGroup_self, counted, if_pos hb]
  · exact fun hl => hf.linked (breakGroup_linked hl)
  · intro _
    rw [hnew]
    exact List.mem_cons_self
  · rw [hnew, if_pos hb]
    simp

end Break

theorem noteError_noted (P : Platform) (s : Server) (g : GroupId) (ret : WaitStatus)
    (he : exitIsError ret (s.reg.groups g) = true) : Noted g ret s (noteError P s g) := by
  by_cases hm : tooManyErrors (countError s.clock (s.reg.groups g))
  · obtain ⟨k, hk⟩ := noteError_breaks P hm
    rw [hk]
    exact breakGroup_noted P ⟨he, hm⟩ k
  · have hb : ¬ Breaks ret s.clock (s.reg.groups g) := fun h => hm h.2
    rw [noteError_counts P hm]
    refine ⟨.setGroup, rfl, ?_, ?_, fun h => absurd h hb, ?_⟩
    · rw [Server.withReg_reg, setGroup_self, counted, if_neg hb, if_pos he]
    · intro hl
      exact hl.setGroup (f := countError s.clock) (fun _ => rfl) (fun _ => rfl) fun _ => rfl
    · rw [if_neg hb]
      simp [newHist]

theorem noted_refl {s : Server} {g : GroupId} {ret : WaitStatus}
    (he : exitIsError ret (s.reg.groups g) = false) : Noted g ret s s := by
  have hb : ¬ Breaks ret s.clock (s.reg.groups g) := by
    rintro ⟨h, -⟩
    rw [he] at h
    cases h
  refine ⟨.refl, rfl, ?_, fun h => h, fun h => absurd h hb, ?_⟩
  · rw [counted, if_neg hb, if_neg (by simp [he])]
  · rw [if_neg hb]
    simp [newHist]

theorem counted_settings (ret : WaitStatus) (t : ℤ) (cc : ChildConfig) :
    settings (counted ret t cc) = counted ret t (settings cc) := by
  have he : exitIsError ret (settings cc) = exitIsError ret cc := by cases ret <;> rfl
  have hb : Breaks ret t (settings cc) ↔ Breaks ret t cc := by
    unfold Breaks
    rw [he]
    rfl
  unfold counted
  simp only [hb, he]
  split
  · rfl
  · split <;> rfl

theorem counted_instances (ret : WaitStatus) (t : ℤ) (cc : ChildConfig) :
    (counted ret t cc).ccInstances = cc.ccInstances := by
  unfold counted
  split
  · rfl
  · split <;> rfl

theorem counted_name (ret : WaitStatus) (t : ℤ) (cc : ChildConfig) :
    (counted ret t cc).ccName = cc.ccName := by
  unfold counted
  split
  · rfl
  · split <;> rfl

theorem counted_status (ret : WaitStatus) (t : ℤ) (cc : ChildConfig) :
    (counted ret t cc).ccStatus = if Breaks ret t cc then statusBroken else cc.ccStatus := by
  unfold counted
  split
  · rfl
  · split <;> rfl

theorem counted_childs (ret : WaitStatus) (t : ℤ) (cc : ChildConfig) :
    (counted ret t cc).ccChilds = cc.ccChilds := by
  unfold counted
  split
  · rfl
  · split <;> rfl

/-- One turn of `sigchld_cb` for the process `p`, instance `inst` of the group `g`. -/
structure Exited (g : GroupId) (inst : ℕ) (p : ProcId) (ret : WaitStatus) (s u : Server) :
    Prop where
  owned : InSlot s.reg g inst p
  clock : u.clock = s.clock
  turn : u.inSigchld = s.inSigchld
  groups : ∀ g', g' ≠ g → u.reg.groups g' = s.reg.groups g'
  list : u.reg.childConfigList = s.reg.childConfigList
  fresh : u.reg.nextGroup = s.reg.nextGroup
  linked : Linked u.reg
  settings : settings (u.reg.groups g) = counted ret s.clock (settings (s.reg.groups g))
  hist : ∃ l, u.hist =
      s.hist ++ .exited g inst ret s.clock (exitIsError ret (s.reg.groups g)) :: l ∧
    ∀ h ∈ l, ExitEntry g s.clock (s.reg.groups g).ccInstances (Breaks ret s.clock (s.reg.groups g))
      ((counted ret s.clock (s.reg.groups g)).ccStatus = statusRunning) h
  broken : Breaks ret s.clock (s.reg.groups g) →
    .broken g s.clock (s.reg.groups g).ccInstances ∈ newHist s u
  once : (newHist s u).count (.fatal g) = if Breaks ret s.clock (s.reg.groups g) then 1 else 0
  others : ∀ j, j ≠ inst → cellAt u g j = cellAt s g j
  restarted : (counted ret s.clock (s.reg.groups g)).ccStatus = statusRunning →
    Filled .sigchld g inst u.hist (some .null) (cellAt u g inst)
  stays : (counted ret s.clock (s.reg.groups g)).ccStatus ≠ statusRunning →
    cellAt u g inst = some .null

section Fields

variable {s u : Server} {g : GroupId} {i : ℕ} {p : ProcId} {ret : WaitStatus}

theorem Exited.record (h : Exited g i p ret s u) : UbervisorSlots.settings (u.reg.groups g) =
    UbervisorSlots.settings (counted ret s.clock (s.reg.groups g)) :=
  h.settings.trans (counted_settings ret s.clock (s.reg.groups g)).symm

theorem Exited.status (h : Exited g i p ret s u) : (u.reg.groups g).ccStatus =
    (counted ret s.clock (s.reg.groups g)).ccStatus := settings_status h.record

theorem Exited.instances (h : Exited g i p ret s u) :
    (u.reg.groups g).ccInstances = (s.reg.groups g).ccInstances :=
  (settings_instances h.record).trans (counted_instances ret s.clock (s.reg.groups g))

theorem Exited.name (h : Exited g i p ret s u) :
    (u.reg.groups g).ccName = (s.reg.groups g).ccName :=
  (settings_name h.record).trans (counted_name ret s.clock (s.reg.groups g))

end Fields

/-- The restart at the end of a turn. -/
theorem respawn_run (P : Platform) (s : Server) (g : GroupId) (i : ℕ) (hl : Linked s.reg)
    (hg : g ∈ s.reg.childConfigList) (hi : cellAt s g i = some .null) :
    let u := respawn P s g i
    let running := (s.reg.groups g).ccStatus = statusRunning
    Linked u.reg ∧ SlotLoop (fun h => running ∧ Starts g h) (fun j h o o' =>
      (running → Filled .sigchld g j h o o') ∧ (¬ running → o' = o)) g i (i + 1) s u := by
  intro u running
  have hlt : (i : ℤ) < (s.reg.groups g).ccInstances := by
    rw [← hl.cells g hg]
    have := (List.getElem?_eq_some_iff.mp hi).1
    omega
  by_cases hr : running
  · have hu : u = spawn P .sigchld s g i := if_pos ⟨hlt, hr⟩
    have hs := spawn_filled P .sigchld s g i
    rw [hu]
    refine ⟨spawn_linked P .sigchld hl hg hi (by simp), ?_⟩
    exact { hs with
      concerns := hs.concerns.mono (fun _ hx => hx) fun _ hk => ⟨hr, hk⟩
      inside := fun j h₁ h₂ => ⟨fun _ => hs.inside j h₁ h₂, fun h => absurd hr h⟩ }
  · have hu : u = s := if_neg fun h => hr h.2
    rw [hu]
    exact ⟨hl, ⟨.refl, rfl, rfl, fun _ _ => rfl, fun _ _ _ =>
      ⟨fun h => absurd h hr, fun _ => rfl⟩⟩⟩

/-- The process is gone from its slot, and an error is not counted yet. -/
structure Vacated (g : GroupId) (i : ℕ) (ret : WaitStatus) (s x : Server) : Prop where
  linked : Linked x.reg
  list : x.reg.childConfigList = s.reg.childConfigList
  fresh : x.reg.nextGroup = s.reg.nextGroup
  clock : x.clock = s.clock
  turn : x.inSigchld = s.inSigchld
  hist : x.hist = s.hist ++ [.exited g i ret s.clock (exitIsError ret (s.reg.groups g))]
  group : x.reg.groups g =
    { s.reg.groups g with ccChilds := (s.reg.groups g).ccChilds.set i .null }
  groups : ∀ g', g' ≠ g → x.reg.groups g' = s.reg.groups g'

section Turn

variable {s w x y : Server} {g : GroupId} {i : ℕ} {p : ProcId} {ret : WaitStatus} {k : Kernel}

theorem clearSlot_vacated (hl : Linked s.reg) (hs : InSlot s.reg g i p)
    (hk : ∀ q, s.reg.Tracked q → q ≠ p → (s.reg.procs q).pPid ∈ k.unreaped)
    (hr : w.reg = (s.reg.setKernel k).processRemove p) (hh : w.hist = s.hist)
    (hc : w.clock = s.clock) (ht : w.inSigchld = s.inSigchld) :
    Vacated g i ret s ((w.record (.exited g i ret s.clock
      (exitIsError ret (s.reg.groups g)))).withReg fun r => clearSlot r g i) := by
  have hgroup : w.reg.groups = s.reg.groups := by
    rw [hr]
    rfl
  generalize hx : Server.withReg _ _ = x
  have hxr : x.reg = ((s.reg.setKernel k).processRemove p).setCell g i .null := by
    rw [← hx, Server.withReg_reg, Server.record_reg, clearSlot, hgroup, if_pos (hl.cell_lt hs), hr]
  constructor
  · rw [hxr]
    exact hl.reapOwned hs hk
  · rw [hxr]
    rfl
  · rw [hxr]
    rfl
  · rw [← hx]
    exact hc
  · rw [← hx]
    exact ht
  · rw [← hx, Server.withReg_hist, Server.record_hist, hh]
  · rw [hxr, setCell_self]
    rfl
  · intro g' hg'
    rw [hxr, setCell_of_ne hg']
    rfl

theorem Vacated.settings (h : Vacated g i ret s x) :
    settings (x.reg.groups g) = UbervisorSlots.settings (s.reg.groups g) := by
  rw [h.group]
  rfl

theorem Vacated.isError (h : Vacated g i ret s x) :
    exitIsError ret (x.reg.groups g) = exitIsError ret (s.reg.groups g) := by
  rw [h.group]
  cases ret <;> rfl

theorem Vacated.breaks (h : Vacated g i ret s x) (t : ℤ) :
    Breaks ret t (x.reg.groups g) ↔ Breaks ret t (s.reg.groups g) := by
  rw [h.group]
  cases ret <;> rfl

theorem Vacated.cells (h : Vacated g i ret s x) (hs : InSlot s.reg g i p) (j : ℕ) :
    cellAt x g j = if j = i then some .null else cellAt s g j := by
  have hcell : cellAt s g i = some (.proc p) := hs.2
  rw [cellAt, h.group, cellAt_set]
  split
  · rename_i hj
    subst hj
    change (cellAt s g j).map _ = _
    rw [hcell]
    rfl
  · rfl

/-- The branch that counts an error. -/
theorem Vacated.noted (P : Platform) (h : Vacated g i ret s x) :
    Noted g ret x (if exitIsError ret (s.reg.groups g) then noteError P x g else x) := by
  split
  · rename_i he
    exact noteError_noted P x g ret (h.isError.trans he)
  · rename_i he
    exact noted_refl (by rw [h.isError]; simpa using he)

theorem Vacated.status (h : Vacated g i ret s x) (hy : Noted g ret x y) :
    (y.reg.groups g).ccStatus = (counted ret s.clock (s.reg.groups g)).ccStatus := by
  have hset := congrArg UbervisorSlots.settings hy.group
  rw [h.clock, counted_settings, h.settings, ← counted_settings] at hset
  exact settings_status hset

/-- The restart ends the turn. -/
theorem Vacated.exited (P : Platform) (h : Vacated g i ret s x) (hy : Noted g ret x y)
    (hs : InSlot s.reg g i p) : Exited g i p ret s (respawn P y g i) := by
  have hlist : y.reg.childConfigList = s.reg.childConfigList := hy.list.trans h.list
  have hinst : (x.reg.groups g).ccInstances = (s.reg.groups g).ccInstances := by rw [h.group]
  have hcell : ∀ j, cellAt y g j = if j = i then some .null else cellAt s g j := by
    intro j
    rw [← h.cells hs j, cellAt, hy.group, counted_childs, cellAt]
  have hnote := hy.concerns
  have hnew := hy.broken
  have honce := hy.once
  rw [h.clock, hinst, h.breaks] at hnote hnew
  simp only [h.clock, h.breaks] at honce
  obtain ⟨l, hyh, hkinds⟩ := hnote.hist
  obtain ⟨hul, hrun⟩ := respawn_run P y g i (hy.linked h.linked) (by rw [hlist]; exact hs.1)
    (by rw [hcell, if_pos rfl])
  rw [h.status hy] at hrun
  obtain ⟨m, hm, hmk⟩ := hrun.concerns.hist
  have hhist : (respawn P y g i).hist = s.hist ++
      .exited g i ret s.clock (exitIsError ret (s.reg.groups g)) :: (l ++ m) := by
    rw [hm, hyh, h.hist]
    simp
  refine ⟨hs, ?_, ?_, ?_, hrun.list.trans hlist,
    (hrun.concerns.fresh.trans hnote.fresh).trans h.fresh, hul, ?_, ⟨l ++ m, hhist, ?_⟩,
    ?_, ?_, ?_, ?_, ?_⟩
  · rw [hrun.concerns.clock, hnote.clock, h.clock]
  · rw [hrun.concerns.turn, hnote.turn, h.turn]
  · intro g' hg'
    rw [hrun.concerns.groups g' hg', hnote.groups g' hg', h.groups g' hg']
  · rw [hrun.settings, hy.group, counted_settings, h.clock, h.settings]
  · intro e he
    rcases List.mem_append.mp he with he | he
    · cases hkinds e he with
      | start hf => exact hf.elim
      | broken hb => exact .broken hb
      | fatal hb => exact .fatal hb
    · obtain ⟨hr, hstarts⟩ := hmk e he
      exact .start hr hstarts
  · intro hb
    have hmem := hnew hb
    rw [newHist_eq hyh] at hmem
    rw [newHist_eq hhist]
    simp [hmem]
  · rw [newHist_eq hyh] at honce
    have hstarts := starts_uncalled fun e he => (hmk e he).2
    rw [newHist_eq hhist, List.count_cons_of_ne (by simp), List.count_append, hstarts, Nat.add_zero,
      honce]
  · intro j hj
    rw [hrun.outside j (by omega), hcell, if_neg hj]
  · intro hr
    have hfilled := (hrun.inside i (Nat.le_refl i) (Nat.lt_succ_self i)).1 hr
    rwa [hcell, if_pos rfl] at hfilled
  · intro hr
    have hnull := (hrun.inside i (Nat.le_refl i) (Nat.lt_succ_self i)).2 hr
    rwa [hcell, if_pos rfl] at hnull

theorem groupExit_exited (P : Platform) (ret : WaitStatus) (hl : Linked s.reg)
    (hs : InSlot s.reg g i p)
    (hk : ∀ q, s.reg.Tracked q → q ≠ p → (s.reg.procs q).pPid ∈ k.unreaped)
    (hr : w.reg = (s.reg.setKernel k).processRemove p) (hh : w.hist = s.hist)
    (hc : w.clock = s.clock) (ht : w.inSigchld = s.inSigchld) :
    Exited g i p ret s (groupExit P w g i ret) := by
  have hgroup : w.reg.groups = s.reg.groups := by
    rw [hr]
    rfl
  have hvacated : Vacated g i ret s _ := clearSlot_vacated hl hs hk hr hh hc ht
  unfold groupExit
  dsimp only
  rw [hgroup, hc]
  exact hvacated.exited P (hvacated.noted P) hs

end Turn

end UbervisorExits
