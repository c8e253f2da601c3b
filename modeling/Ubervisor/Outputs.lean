import Ubervisor.GroupSteps

/-! # What a step puts out

Every handler only appends to the output, and apart from `waitpid` none takes a terminated
child from the kernel. The notifications that are not log lines come from four places. -/
namespace UbervisorOutputs

open UbervisorRuns
open UbervisorValues
open UbervisorChildConfigs
open UbervisorKernel
open UbervisorRegistry
open UbervisorChunks
open UbervisorReadCallback (Command findCommand)
open UbervisorServer
open UbervisorCommands
open UbervisorEvents
open UbervisorSupervision
open UbervisorSlots
open UbervisorUpdates
open UbervisorExits
open UbervisorEffects
open UbervisorGroupSteps

section Io

variable {O : Output → Prop} {P : Platform} {io io' io'' : Io}

def notificationOf : Output → Option Notification
  | .notify n => some n
  | _ => none

/-- The output grows by elements of `O`. -/
def IoOutputs (O : Output → Prop) (io io' : Io) : Prop :=
  ∃ l, io'.out = io.out ++ l ∧ ∀ o ∈ l, O o

def repliesPids : Reply → Bool
  | .pids _ => true
  | _ => false

/-- Output that no statement about notifications, signals or replied pids is about. -/
def isPlain : Output → Bool
  | .notify _ | .kill _ _ => false
  | .reply _ _ r => !repliesPids r
  | _ => true

/-- `O` says nothing against plain output, and nothing against log lines. -/
structure Permits (O : Output → Prop) : Prop where
  plain : ∀ o, isPlain o = true → O o
  log : ∀ line : Bytes, line.length < bufferSiz → O (.notify (.log line))

/-- What `slog` puts out. -/
def isLog : Output → Bool
  | .logWrite _ | .wild => true
  | .notify (.log line) => line.length < bufferSiz
  | _ => false

/-- Logs, dumps and replies. -/
def isWritten : Output → Bool
  | .fopen _ | .fprintf .. | .fclose | .link .. | .unlink _ => true
  | .reply _ _ r => !repliesPids r
  | o => isLog o

/-- `O` says nothing against them. -/
def Writes (O : Output → Prop) : Prop := ∀ o, isWritten o = true → O o

theorem Permits.writes (hp : Permits O) : Writes O := by
  intro o ho
  cases o with
  | notify n =>
    cases n with
    | log line => exact hp.log line (of_decide_eq_true ho)
    | _ => cases ho
  | reply con cid r => exact hp.plain _ ho
  | kill pid sig => cases ho
  | _ => exact hp.plain _ rfl

theorem Writes.logs (hw : Writes O) (o : Output) (ho : isLog o = true) : O o := by
  refine hw o ?_
  cases o <;> first | exact ho | cases ho

theorem IoOutputs.refl : IoOutputs O io io := ⟨[], by simp, by simp⟩

theorem IoOutputs.trans (h : IoOutputs O io io') (k : IoOutputs O io' io'') :
    IoOutputs O io io'' := by
  obtain ⟨l, hl, hx⟩ := h
  obtain ⟨m, hm, hy⟩ := k
  refine ⟨l ++ m, by rw [hm, hl, List.append_assoc], ?_⟩
  intro o ho
  rcases List.mem_append.mp ho with ho | ho
  · exact hx o ho
  · exact hy o ho

theorem IoOutputs.mono {O' : Output → Prop} (h : IoOutputs O io io') (ho : ∀ o, O o → O' o) :
    IoOutputs O' io io' := by
  obtain ⟨l, hl, hx⟩ := h
  exact ⟨l, hl, fun o hm => ho o (hx o hm)⟩

/-- Nothing more is put out. -/
theorem IoOutputs.same (h : IoOutputs O io io') (he : io''.out = io'.out) :
    IoOutputs O io io'' := by
  obtain ⟨l, hl, hx⟩ := h
  exact ⟨l, he.trans hl, hx⟩

theorem IoOutputs.emit (h : IoOutputs O io io') {o : Output} (ho : O o) :
    IoOutputs O io (io'.emit o) := h.trans ⟨[o], rfl, by simpa using ho⟩

theorem IoOutputs.plain (h : IoOutputs O io io') (hp : Permits O) {o : Output}
    (ho : isPlain o = true) : IoOutputs O io (io'.emit o) := h.emit (hp.plain o ho)

theorem IoOutputs.written (h : IoOutputs O io io') (hw : Writes O) {o : Output}
    (ho : isWritten o = true) : IoOutputs O io (io'.emit o) := h.emit (hw o ho)

theorem notify_out (io : Io) (n : Notification) :
    (io.notify P n).out = io.out ++ [.notify n] := by
  have hw : ∀ (l : List Subscription) (io : Io), (l.foldl (fun io s =>
      io.write s.sClient (notificationFrame s.sCid (n.payload P))) io).out = io.out := by
    intro l
    induction l with
    | nil => intro io; rfl
    | cons s l ih => intro io; exact ih _
  exact hw _ _

theorem IoOutputs.notify (h : IoOutputs O io io') {n : Notification} (hn : O (.notify n)) :
    IoOutputs O io (io'.notify P n) := (h.emit hn).same (notify_out io' n)

theorem IoOutputs.replied (h : IoOutputs O io io') {con : ClientId} {r : Reply}
    (hr : ∀ cid, O (.reply con cid r)) : IoOutputs O io (io'.reply P con r) :=
  (h.emit (hr _)).same rfl

theorem IoOutputs.reply (h : IoOutputs O io io') (hw : Writes O) {con : ClientId} {r : Reply}
    (hr : repliesPids r = false) : IoOutputs O io (io'.reply P con r) :=
  h.replied fun _ => hw _ (by rw [isWritten, hr, Bool.not_false])

theorem IoOutputs.slog (h : IoOutputs O io io') (hO : ∀ o, isLog o = true → O o) {t : ℤ}
    {depth : ℕ} {msg : Bytes} : IoOutputs O io (Io.slog P t depth msg io') := by
  induction depth generalizing msg io' with
  | zero => exact h.emit (hO _ rfl)
  | succ depth ih =>
    unfold Io.slog
    split
    · have hline : ((Io.logLine P t msg).take (bufferSiz - 2) ++ [10]).length < bufferSiz := by
        rw [List.length_append, List.length_take]
        simp only [bufferSiz, List.length_singleton]
        omega
      exact ((ih h).emit (hO _ rfl)).notify (hO _ (decide_eq_true hline))
    · rename_i hlt
      exact (h.emit (hO _ rfl)).notify (hO _ (decide_eq_true (Nat.not_le.mp hlt)))

theorem IoOutputs.fileResult (h : IoOutputs O io io') : IoOutputs O io io'.fileResult.2 :=
  h.same rfl

theorem IoOutputs.fprintf (h : IoOutputs O io io') (hw : Writes O) {b : Bytes} :
    IoOutputs O io (io'.fprintf b).2 := h.fileResult.written hw rfl

theorem IoOutputs.dumpGroups (h : IoOutputs O io io') (hw : Writes O) (l : List ChildConfig) :
    IoOutputs O io (io'.dumpGroups P l).2 := by
  induction l generalizing io' with
  | nil => exact h
  | cons cc l ih =>
    unfold Io.dumpGroups
    dsimp only
    split
    · exact ih (h.fprintf hw)
    · exact h.fprintf hw

theorem IoOutputs.cDump (h : IoOutputs O io io') (hw : Writes O) {t : ℤ}
    {groups : List ChildConfig} {con : ClientId} :
    IoOutputs O io (io'.cDump P t groups con) := by
  have hcount : IoOutputs O io { io' with dumpCnt := io'.dumpCnt + 1 } := h.same rfl
  have hclose : ∀ {x : Io}, IoOutputs O io x → IoOutputs O io (x.emit .fclose).fileResult.2 :=
    fun hx => (hx.written hw rfl).fileResult
  have hfail : ∀ {x : Io}, IoOutputs O io x →
      IoOutputs O io (Io.sendStatusMsg P con false "failure" (x.emit .fclose)) :=
    fun hx => (hx.written hw rfl).reply hw rfl
  have hlink : ∀ {x : Io} {a b : Bytes}, IoOutputs O io x →
      IoOutputs O io ((x.emit (.link a b)).emit (.unlink a)) :=
    fun hx => (hx.written hw rfl).written hw rfl
  unfold Io.cDump
  dsimp only
  split
  · exact hcount.reply hw rfl
  · split
    · exact hcount.reply hw rfl
    · split
      · exact hcount.fileResult.reply hw rfl
      · have hopen := fun fn => hcount.fileResult.written hw (o := .fopen fn) rfl
        have hbody := fun fn =>
          ((hopen fn).fprintf (b := text "[\n") hw).dumpGroups (P := P) hw groups
        have hlast := fun fn => (hbody fn).fprintf (b := text "]\n") hw
        split
        · exact hfail (hbody _)
        · split
          · split
            · exact (hclose (hlast _)).reply hw rfl
            · exact (hlink (hclose (hlast _))).reply hw rfl
          · split
            · exact (hclose (hfail (hlast _))).reply hw rfl
            · exact (hlink (hclose (hfail (hlast _)))).reply hw rfl

end Io

section Processes

variable {r r' r'' : Registry} {p : ProcId} {g : GroupId} {i : ℕ} {k : Kernel}

/-- Processes keep their pids and instances and point to another group at no time, and none
that is known enters the table again. -/
structure Older (r r' : Registry) : Prop where
  fresh : r.nextProc ≤ r'.nextProc
  pids : ∀ p, p < r.nextProc → (r'.procs p).pPid = (r.procs p).pPid
  cfg : ∀ p, p < r.nextProc → (r'.procs p).pChildConfig = (r.procs p).pChildConfig ∨
    (r'.procs p).pChildConfig = none
  inst : ∀ p, p < r.nextProc → (r'.procs p).pInstance = (r.procs p).pInstance
  tracked : ∀ p, p < r.nextProc → r'.Tracked p → r.Tracked p

theorem Older.refl : Older r r :=
  ⟨le_rfl, fun _ _ => rfl, fun _ _ => .inl rfl, fun _ _ => rfl, fun _ _ h => h⟩

theorem Older.trans (h : Older r r') (k : Older r' r'') : Older r r'' where
  fresh := h.fresh.trans k.fresh
  pids p hp := (k.pids p (hp.trans_le h.fresh)).trans (h.pids p hp)
  cfg p hp := by
    rcases k.cfg p (hp.trans_le h.fresh) with he | hn
    · rw [he]
      exact h.cfg p hp
    · exact .inr hn
  inst p hp := (k.inst p (hp.trans_le h.fresh)).trans (h.inst p hp)
  tracked p hp ht := h.tracked p hp (k.tracked p (hp.trans_le h.fresh) ht)

/-- The table of processes stays as it is. -/
theorem Older.of_eq (hn : r'.nextProc = r.nextProc) (hp : r'.procs = r.procs)
    (hh : r'.processHash = r.processHash) : Older r r' where
  fresh := by rw [hn]
  pids p _ := by rw [hp]
  cfg p _ := .inl (by rw [hp])
  inst p _ := by rw [hp]
  tracked p _ ht := by
    unfold Registry.Tracked at ht ⊢
    rwa [hp, hh] at ht

theorem Older.setProc {f : Process → Process} (hf : ∀ pr, (f pr).pPid = pr.pPid)
    (hc : ∀ pr, (f pr).pChildConfig = pr.pChildConfig ∨ (f pr).pChildConfig = none)
    (hi : ∀ pr, (f pr).pInstance = pr.pInstance) : Older r (r.setProc p f) where
  fresh := le_rfl
  pids q _ := setProc_keeps Process.pPid hf q
  cfg q _ := by
    by_cases hq : q = p
    · subst hq
      simp only [Registry.setProc, Function.update_self]
      exact hc _
    · simp only [Registry.setProc, Function.update_of_ne hq]
      exact .inl trivial
  inst q _ := setProc_keeps Process.pInstance hi q
  tracked _ _ ht := (tracked_setProc hf).mp ht

theorem Older.orphan : Older r (r.orphan p) :=
  .setProc (fun _ => rfl) (fun _ => .inr rfl) fun _ => rfl

theorem Older.orphanAll (ps : List ProcId) : Older r (r.orphanAll ps) := by
  induction ps generalizing r with
  | nil => exact .refl
  | cons p ps ih =>
    have horphan : Older r (r.orphan p) := .orphan
    exact horphan.trans ih

theorem Older.startProcess {pr : Process} : Older r (r.startProcess k pr g i) where
  fresh := Nat.le_succ _
  pids q hq := by
    change ((r.processInsert pr).procs q).pPid = _
    rw [insertProc_of_ne hq.ne]
  cfg q hq := by
    change ((r.processInsert pr).procs q).pChildConfig = _ ∨ _
    rw [insertProc_of_ne hq.ne]
    exact .inl rfl
  inst q hq := by
    change ((r.processInsert pr).procs q).pInstance = _
    rw [insertProc_of_ne hq.ne]
  tracked q hq ht := by
    have ht' : ((r.setKernel k).processInsert pr).Tracked q := ht
    rcases tracked_processInsert.mp ht' with he | ht'
    · rw [he] at hq
      exact absurd hq (lt_irrefl _)
    · exact ht'

theorem Older.processRemove (h : Linked r) (hp : r.Tracked p) : Older r (r.processRemove p) where
  fresh := le_rfl
  pids _ _ := rfl
  cfg _ _ := .inl rfl
  inst _ _ := rfl
  tracked _ _ ht := ((tracked_processRemove h hp).mp ht).2

end Processes

section Server

variable {O : Output → Prop} {P : Platform} {s u v : Server} {site : SpawnSite} {g : GroupId}
  {i : ℕ} {con : ClientId}

/-- The processes that are started are recorded, and none is taken out of the table. Only
they get a timer. -/
structure Keeps (s u : Server) : Prop where
  older : Older s.reg u.reg
  kept : ∀ p, p < s.reg.nextProc → s.reg.Tracked p → u.reg.Tracked p
  timers : ∀ p ∈ u.timers, p ∈ s.timers ∨ p < u.reg.nextProc ∧ u.reg.Tracked p
  started : s.started = true → u.started = true
  hist : s.hist <+: u.hist
  spawned : ∀ p, s.reg.nextProc ≤ p → p < u.reg.nextProc → ∃ site g i,
    .spawned site g i p (u.reg.procs p).pPid ∈ newHist s u

theorem Keeps.trans (h : Keeps s u) (k : Keeps u v) : Keeps s v where
  older := h.older.trans k.older
  kept p hp ht := k.kept p (hp.trans_le h.older.fresh) (h.kept p hp ht)
  timers p hp := by
    rcases k.timers p hp with hu | hv
    · rcases h.timers p hu with hs | ⟨hlt, ht⟩
      · exact .inl hs
      · exact .inr ⟨hlt.trans_le k.older.fresh, k.kept p hlt ht⟩
    · exact .inr hv
  started hs := k.started (h.started hs)
  hist := h.hist.trans k.hist
  spawned p hp hv := by
    rw [newHist_append h.hist k.hist]
    rcases Nat.lt_or_ge p u.reg.nextProc with hu | hu
    · obtain ⟨site, g, i, hm⟩ := h.spawned p hp hu
      rw [k.older.pids p hu]
      exact ⟨site, g, i, List.mem_append_left _ hm⟩
    · obtain ⟨site, g, i, hm⟩ := k.spawned p hu hv
      exact ⟨site, g, i, List.mem_append_right _ hm⟩

/-- No process is started, and the pids in the table stay as they are. -/
theorem Keeps.of_older (hr : Older s.reg u.reg) (hn : u.reg.nextProc = s.reg.nextProc)
    (hk : ∀ p, s.reg.Tracked p → u.reg.Tracked p) (ht : u.timers = s.timers)
    (hs : u.started = s.started) (hh : s.hist <+: u.hist) : Keeps s u where
  older := hr
  kept p _ := hk p
  timers p hp := .inl (ht ▸ hp)
  started := hs.trans
  hist := hh
  spawned p hp hu := by
    rw [hn] at hu
    exact absurd hu (Nat.not_lt.mpr hp)

/-- The table of processes stays as it is. -/
theorem Keeps.of_eq (hn : u.reg.nextProc = s.reg.nextProc) (hp : u.reg.procs = s.reg.procs)
    (hh : u.reg.processHash = s.reg.processHash) (ht : u.timers = s.timers)
    (hs : u.started = s.started) (hx : s.hist <+: u.hist) : Keeps s u := by
  refine .of_older (.of_eq hn hp hh) hn (fun p h => ?_) ht hs hx
  unfold Registry.Tracked at h ⊢
  rwa [hp, hh]

theorem Keeps.refl : Keeps s s := .of_eq rfl rfl rfl rfl rfl List.prefix_rfl

theorem Keeps.setProc {p : ProcId} {f : Process → Process} (hf : ∀ pr, (f pr).pPid = pr.pPid)
    (hc : ∀ pr, (f pr).pChildConfig = pr.pChildConfig ∨ (f pr).pChildConfig = none)
    (hi : ∀ pr, (f pr).pInstance = pr.pInstance) : Keeps s (s.withReg fun r => r.setProc p f) :=
  .of_older (.setProc hf hc hi) rfl (fun _ => (tracked_setProc hf).mpr) rfl rfl List.prefix_rfl

theorem Keeps.start {k : Kernel} {pr : Process} (hr : u.reg = s.reg.startProcess k pr g i)
    (ht : u.timers = s.reg.nextProc :: s.timers) (hs : u.started = s.started)
    (hh : u.hist = s.hist ++ [.spawned site g i s.reg.nextProc pr.pPid]) : Keeps s u where
  older := by
    rw [hr]
    exact .startProcess
  kept p _ hp := by
    rw [hr]
    exact tracked_processInsert.mpr (.inr hp)
  timers p hp := by
    rw [ht, List.mem_cons] at hp
    rcases hp with rfl | hp
    · rw [hr]
      exact .inr ⟨Nat.lt_succ_self _, tracked_processInsert.mpr (.inl rfl)⟩
    · exact .inl hp
  started := hs.trans
  hist := ⟨_, hh.symm⟩
  spawned p hp hu := by
    rw [hr] at hu
    have hlt : p < s.reg.nextProc + 1 := hu
    have he : p = s.reg.nextProc := Nat.le_antisymm (Nat.lt_succ_iff.mp hlt) hp
    have hpid : (u.reg.procs p).pPid = pr.pPid := by
      rw [hr, he]
      exact congrArg Process.pPid insertProc_self
    rw [newHist_eq hh, hpid, he]
    exact ⟨site, g, i, List.mem_singleton_self _⟩

theorem tracked_orphanAll {r : Registry} {p : ProcId} (ps : List ProcId) (h : r.Tracked p) :
    (r.orphanAll ps).Tracked p := by
  induction ps generalizing r with
  | nil => exact h
  | cons q ps ih => exact ih (tracked_orphan.mpr h)

structure Outputs (O : Output → Prop) (s u : Server) : Prop extends Keeps s u where
  out : IoOutputs O s.io u.io
  zombies : u.reg.kernel.zombies = s.reg.kernel.zombies

theorem Outputs.refl : Outputs O s s := ⟨.refl, .refl, rfl⟩

theorem Outputs.trans (h : Outputs O s u) (k : Outputs O u v) : Outputs O s v :=
  ⟨h.toKeeps.trans k.toKeeps, h.out.trans k.out, k.zombies.trans h.zombies⟩

theorem Outputs.mono {O' : Output → Prop} (h : Outputs O s u) (ho : ∀ o, O o → O' o) :
    Outputs O' s u := ⟨h.toKeeps, h.out.mono ho, h.zombies⟩

/-- Other fields of the server do not matter. -/
theorem Outputs.same (h : Outputs O s u) (ho : v.io.out = u.io.out)
    (hz : v.reg.kernel.zombies = u.reg.kernel.zombies) (hk : Keeps u v) : Outputs O s v :=
  ⟨h.toKeeps.trans hk, h.out.same ho, hz.trans h.zombies⟩

theorem Outputs.io (h : Outputs O s u) {k : Io → Io} (ho : IoOutputs O s.io (k u.io)) :
    Outputs O s (u.withIo k) :=
  ⟨h.toKeeps.trans (.of_eq rfl rfl rfl rfl rfl List.prefix_rfl), ho, h.zombies⟩

theorem Outputs.record (h : Outputs O s u) {x : Hist} : Outputs O s (u.record x) :=
  h.same rfl rfl (.of_eq rfl rfl rfl rfl rfl (List.prefix_append _ _))

theorem Outputs.withReg (h : Outputs O s u) {f : Registry → Registry}
    (hz : (f u.reg).kernel = u.reg.kernel) (hk : Keeps u (u.withReg f)) :
    Outputs O s (u.withReg f) := h.same rfl (congrArg Kernel.zombies hz) hk

theorem Outputs.slog (h : Outputs O s u) (hp : Permits O) {msg : Bytes} :
    Outputs O s (UbervisorServer.slog P u msg) := h.io (h.out.slog hp.writes.logs)

theorem Outputs.emit (h : Outputs O s u) (hp : Permits O) {o : Output}
    (ho : isPlain o = true) : Outputs O s (UbervisorServer.emit u o) := h.io (h.out.plain hp ho)

theorem Outputs.reply (h : Outputs O s u) (hp : Permits O) {r : Reply}
    (hr : repliesPids r = false) : Outputs O s (sendReply P u con r) :=
  h.io (h.out.reply hp.writes hr)

theorem Outputs.success (h : Outputs O s u) (hp : Permits O) {msg : String} :
    Outputs O s (sendSuccess P u con msg) := by
  apply h.io
  split
  · exact h.out.cDump hp.writes
  · exact h.out.reply hp.writes rfl

theorem Outputs.notify (h : Outputs O s u) {n : Notification} (hn : O (.notify n)) :
    Outputs O s (u.withIo (Io.notify P n)) := h.io (h.out.notify hn)

theorem Outputs.unset (h : Outputs O s u) (hp : Permits O) {b : Bool} :
    Outputs O s (noteUnset u b) := by
  apply h.io
  split
  · exact h.out.plain hp rfl
  · exact h.out

/-- A loop each turn of which only puts out. -/
theorem Outputs.loop {f : Server → ℕ → Server} (hf : ∀ s i, Outputs O s (f s i)) (l : List ℕ)
    (h : Outputs O s u) : Outputs O s (l.foldl f u) := by
  induction l generalizing u with
  | nil => exact h
  | cons i l ih => exact ih (h.trans (hf u i))

theorem forkCommand_outputs : Outputs O s (forkCommand s).2 := by
  unfold forkCommand takeOutcome
  dsimp only
  split
  · exact Outputs.refl.same rfl rfl (.of_eq rfl rfl rfl rfl rfl List.prefix_rfl)
  · rename_i pid k hf
    obtain ⟨hw, -⟩ := Kernel.fork_eq_some hf
    rw [hw] at hf
    obtain ⟨-, -, -, -, hz⟩ := Kernel.fork_eq_some hf
    exact Outputs.refl.same rfl hz (.of_eq rfl rfl rfl rfl rfl List.prefix_rfl)

theorem spawn_outputs (hp : Permits O) : Outputs O s (spawn P site s g i) := by
  unfold spawn takeOutcome
  dsimp only
  split
  · exact Outputs.refl.same rfl rfl (.of_eq rfl rfl rfl rfl rfl (List.prefix_append _ _))
  · rename_i a b _
    have hpair : Outputs O s (emit s (.socketpair a b)) := Outputs.refl.emit hp rfl
    split
    · exact hpair.same rfl rfl (.of_eq rfl rfl rfl rfl rfl (List.prefix_append _ _))
    · rename_i pid k hf
      obtain ⟨hw, -⟩ := Kernel.fork_eq_some hf
      rw [hw] at hf
      obtain ⟨-, -, -, -, hz⟩ := Kernel.fork_eq_some hf
      have hclose := hpair.emit hp (o := .close b) rfl
      refine Outputs.slog ?_ hp
      split
      · exact (hclose.emit hp (o := .close a) rfl).same rfl hz (.start rfl rfl rfl rfl)
      · exact hclose.same rfl hz (.start rfl rfl rfl rfl)

theorem spawnRange_outputs (hp : Permits O) {a n : ℕ} :
    Outputs O s (spawnRange P site s g a n) :=
  Outputs.loop (fun _ _ => spawn_outputs hp) _ .refl

theorem runFatalCb_outputs (hp : Permits O) : Outputs O s (runFatalCb P s g) := by
  have hcalled : Outputs O s (s.record (.fatal g)) := Outputs.refl.record
  have hf : Outputs O s (forkCommand (s.record (.fatal g))).2 := hcalled.trans forkCommand_outputs
  unfold runFatalCb
  dsimp only
  split
  · exact hcalled
  · split
    · rename_i u hu
      rw [hu] at hf
      exact hf.slog hp
    · rename_i u hu
      rw [hu] at hf
      exact (hf.slog hp).emit hp rfl

theorem noteError_outputs (hp : Permits O)
    (hb : O (.notify (.status (s.reg.groups g).ccName statusBroken))) :
    Outputs O s (noteError P s g) := by
  have hname : ((s.withReg fun r => r.setGroup g (countError s.clock)).reg.groups g).ccName =
      (s.reg.groups g).ccName := by
    rw [Server.withReg_reg, setGroup_self]
    rfl
  unfold noteError
  dsimp only
  split
  · generalize hx : Server.record _ (.broken g _ _) = x
    have hbroken : Outputs O s x := by
      rw [← hx]
      exact Outputs.refl.same rfl rfl (.of_eq rfl rfl rfl rfl rfl (List.prefix_append _ _))
    refine Outputs.trans ((hbroken.slog hp).notify ?_) (runFatalCb_outputs hp)
    rw [hname]
    exact hb
  · exact Outputs.refl.same rfl rfl (.of_eq rfl rfl rfl rfl rfl List.prefix_rfl)

theorem respawn_outputs (hp : Permits O) : Outputs O s (respawn P s g i) := by
  unfold respawn
  dsimp only
  split
  · exact spawn_outputs hp
  · exact .refl

theorem clearSlot_keeps (r : Registry) (g : GroupId) (i : ℕ) :
    (clearSlot r g i).nextProc = r.nextProc ∧ (clearSlot r g i).procs = r.procs ∧
      (clearSlot r g i).processHash = r.processHash ∧ (clearSlot r g i).kernel = r.kernel := by
  unfold clearSlot
  split <;> exact ⟨rfl, rfl, rfl, rfl⟩

theorem groupExit_outputs (hp : Permits O) {ret : WaitStatus}
    (hb : O (.notify (.status (s.reg.groups g).ccName statusBroken))) :
    Outputs O s (groupExit P s g i ret) := by
  unfold groupExit
  dsimp only
  generalize hx : Server.withReg (Server.record s _) _ = x
  have hclear : Outputs O s x := by
    rw [← hx]
    obtain ⟨hn, hprocs, hhash, hk⟩ := clearSlot_keeps s.reg g i
    exact Outputs.refl.record.withReg hk (.of_eq hn hprocs hhash rfl rfl List.prefix_rfl)
  have hname : (x.reg.groups g).ccName = (s.reg.groups g).ccName := by
    rw [← hx]
    simp only [Server.withReg_reg, clearSlot]
    split
    · exact setGroup_keeps ChildConfig.ccName
        (f := fun cc => { cc with ccChilds := cc.ccChilds.set i .null }) (fun _ => rfl) g
    · rfl
  refine Outputs.trans ?_ (respawn_outputs hp)
  split
  · exact hclear.trans (noteError_outputs hp (by rw [hname]; exact hb))
  · exact hclear

end Server

section Commands

variable {O : Output → Prop} {P : Platform} {s : Server} {con : ClientId} {buf : CStr}
  {g : GroupId} {i : ℕ}

theorem withNamedGroup_outputs {badName : Bool} {handle : Json → GroupId → Server × Bool}
    (hl : Linked s.reg) (hp : Permits O)
    (hhandle : ∀ obj g, namedGroup P s.reg buf = some (obj, g) → g ∈ s.reg.childConfigList →
      Outputs O s (handle obj g).1) :
    Outputs O s (withNamedGroup P s con buf badName handle).1 := by
  unfold withNamedGroup
  split
  · exact Outputs.refl.reply hp rfl
  · rename_i obj hobj
    split
    · exact Outputs.refl.reply hp rfl
    · rename_i n hn
      split
      · exact Outputs.refl.reply hp rfl
      · rename_i g hf
        exact hhandle obj g (by simp [namedGroup, hobj, hn, hf]) (hl.find_name hf).1

theorem cGetc_outputs (hl : Linked s.reg) (hp : Permits O) :
    Outputs O s (cGetc P s con buf).1 :=
  withNamedGroup_outputs hl hp fun _ _ _ _ => Outputs.refl.reply hp rfl

theorem cPids_outputs (hl : Linked s.reg) (hp : Permits O)
    (hr : ∀ cid l, O (.reply con cid (.pids l))) : Outputs O s (cPids P s con buf).1 := by
  refine withNamedGroup_outputs hl hp fun _ g _ _ => ?_
  have hunset : Outputs O s (noteUnset s (s.reg.groups g).hasUnset) := Outputs.refl.unset hp
  exact hunset.io (hunset.out.replied fun cid => hr cid _)

theorem killAll_outputs {u : Server} (h : Outputs O s u) {sig : ℤ} {pids : List Pid}
    (hk : ∀ pid ∈ pids, O (.kill pid sig)) : Outputs O s (killAll u sig pids) := by
  have hall : ∀ (l : List Pid) (io : Io), (∀ pid ∈ l, O (.kill pid sig)) → IoOutputs O s.io io →
      IoOutputs O s.io (l.foldl (fun io pid => io.emit (.kill pid sig)) io) := by
    intro l
    induction l with
    | nil => intro io _ hio; exact hio
    | cons pid l ih =>
      intro io hl hio
      exact ih _ (fun q hq => hl q (List.mem_cons_of_mem _ hq))
        (hio.emit (hl pid List.mem_cons_self))
  exact h.io (hall pids _ hk h.out)

/-- The signal that KILL sends, and the slot it is for. -/
def killSig (cc : ChildConfig) (obj : Json) : ℤ := (intField obj "sig").getD cc.ccKillsig

def killIndex (obj : Json) : ℤ := (intField obj "index").getD (-1)

theorem cKill_outputs (hl : Linked s.reg) (hp : Permits O)
    (hr : ∀ cid l, O (.reply con cid (.pids l)))
    (hk : ∀ obj g, namedGroup P s.reg buf = some (obj, g) →
      ∀ p ∈ killTargets (s.reg.groups g) (killIndex obj),
        O (.kill (s.reg.procs p).pPid (killSig (s.reg.groups g) obj))) :
    Outputs O s (cKill P s con buf).1 := by
  refine withNamedGroup_outputs hl hp fun obj g hn _ => ?_
  dsimp only
  generalize hx : noteUnset (slog P s _) _ = x
  have hunset : Outputs O s x := by
    rw [← hx]
    exact (Outputs.refl.slog hp).unset hp
  have hkilled : Outputs O s (killAll x (killSig (s.reg.groups g) obj)
      ((killTargets (s.reg.groups g) (killIndex obj)).map (pidOf s))) := by
    refine killAll_outputs hunset fun pid hpid => ?_
    obtain ⟨p, hp, rfl⟩ := List.mem_map.mp hpid
    exact hk obj g hn p hp
  exact hkilled.io (hkilled.out.replied fun cid => hr cid _)

theorem cDele_outputs (hl : Linked s.reg) (hp : Permits O)
    (hr : ∀ cid l, O (.reply con cid (.pids l)))
    (hd : ∀ g ∈ s.reg.childConfigList, O (.notify (.status (s.reg.groups g).ccName statusDelete))) :
    Outputs O s (cDele P s con buf).1 := by
  refine withNamedGroup_outputs hl hp fun _ g _ hg => ?_
  have hlog : Outputs O s (slog P (s.withReg fun r => r.childConfigRemove g)
      (text "[dele] " ++ (s.reg.groups g).ccName.bytes ++ text "\n")) :=
    (Outputs.refl.withReg rfl (.of_eq rfl rfl rfl rfl rfl List.prefix_rfl)).slog hp
  have horphan := (hlog.unset hp (b := (s.reg.groups g).hasUnset)).withReg
    (f := fun r => r.orphanAll (s.reg.groups g).slotProcs) (by rw [orphanAll_keeps])
    (.of_older (.orphanAll _) (by rw [Server.withReg_reg, orphanAll_keeps])
      (fun _ => tracked_orphanAll _) rfl rfl List.prefix_rfl)
  have hdone := (horphan.notify (P := P) (hd g hg)).record (x := .deleted g)
  exact hdone.io (hdone.out.replied fun cid => hr cid _)

theorem cSubs_outputs (hp : Permits O) : Outputs O s (cSubs P s con buf).1 := by
  unfold cSubs
  split
  · exact Outputs.refl.reply hp rfl
  · split
    · exact Outputs.refl.reply hp rfl
    · refine Outputs.reply ?_ hp rfl
      exact Outputs.refl.same rfl rfl (.of_eq rfl rfl rfl rfl rfl List.prefix_rfl)

theorem cRead_outputs (hp : Permits O) : Outputs O s (cRead P s con buf).1 := by
  unfold cRead
  dsimp only
  split
  · exact Outputs.refl.reply hp rfl
  · split
    · split
      · exact Outputs.refl.reply hp rfl
      · split
        · exact Outputs.refl.reply hp rfl
        · split
          · exact Outputs.refl.reply hp rfl
          · split
            · exact Outputs.refl.reply hp rfl
            · split
              · exact Outputs.refl.reply hp rfl
              · exact Outputs.refl.reply hp rfl
              · exact Outputs.refl.reply hp rfl
    · exact Outputs.refl.reply hp rfl

theorem cDump_outputs (hp : Permits O) : Outputs O s (UbervisorServer.cDump P s con) :=
  Outputs.refl.io (.cDump .refl hp.writes)

theorem cExit_outputs (hp : Permits O) : Outputs O s (cExit P s con).1 := by
  unfold cExit
  split
  · exact Outputs.refl.reply hp rfl
  · exact ((Outputs.refl.success hp).slog hp).same rfl rfl
      (.of_eq rfl rfl rfl rfl rfl List.prefix_rfl)

/-- The new group is registered, and the client answered. -/
theorem insertGroup_outputs (hp : Permits O) (cc : ChildConfig) (n : ℤ) :
    Outputs O s (slog P (sendSuccess P (insertGroup s (withSlots cc n)) con "success")
      (text "[start] creating group " ++ cc.ccName.bytes ++ text "\n")) := by
  have hinsert : Outputs O s (insertGroup s (withSlots cc n)) :=
    Outputs.refl.same rfl rfl (.of_eq rfl rfl rfl rfl rfl (List.prefix_append _ _))
  exact (hinsert.success hp).slog hp

theorem cSpwn_outputs (hp : Permits O) (hn : ∀ cc, childConfigUnserialize P buf = some cc →
      spwnRefusal s.reg cc = none → O (.notify (.status cc.ccName statusCreate)) ∧
        O (.notify (.status cc.ccName cc.ccStatus))) :
    Outputs O s (cSpwn P s con buf).1 := by
  cases hcc : childConfigUnserialize P buf with
  | none =>
    rw [cSpwn_unparsed hcc]
    exact Outputs.refl.reply hp rfl
  | some cc =>
    cases hok : spwnRefusal s.reg cc with
    | some msg =>
      rw [cSpwn_refused hcc hok]
      exact Outputs.refl.reply hp rfl
    | none =>
      obtain ⟨h₁, h₂⟩ := hn cc hcc hok
      rw [cSpwn_accepted hcc hok rfl]
      generalize (if cc.ccInstances = -1 then 1 else cc.ccInstances) = n
      have hsent : Outputs O s (announceGroup P s con cc n) :=
        ((insertGroup_outputs hp cc n).notify h₁).notify h₂
      split
      · exact hsent.trans (spawnRange_outputs hp)
      · exact hsent

theorem updateStr_outputs {cc : ChildConfig} {fld : StrField} {u : Server × Bool}
    (h : Outputs O s u.1) (hp : Permits O) : Outputs O s (updateStr P cc g fld u).1 := by
  unfold updateStr
  split
  · exact h
  · split
    · exact h
    · exact (h.slog hp).same rfl rfl (.of_eq rfl rfl rfl rfl rfl List.prefix_rfl)

theorem updateKillsig_outputs {cc : ChildConfig} {u : Server × Bool}
    (h : Outputs O s u.1) (hp : Permits O) : Outputs O s (updateKillsig P cc g u).1 := by
  unfold updateKillsig
  dsimp only
  split
  · exact (h.slog hp).same rfl rfl (.of_eq rfl rfl rfl rfl rfl List.prefix_rfl)
  · exact h

theorem updateAge_outputs {cc : ChildConfig} {u : Server × Bool}
    (h : Outputs O s u.1) (hp : Permits O) : Outputs O s (updateAge P cc g u).1 := by
  unfold updateAge
  dsimp only
  split
  · exact (h.slog hp).same rfl rfl (.of_eq rfl rfl rfl rfl rfl List.prefix_rfl)
  · exact h

theorem growSlot_outputs (hp : Permits O) : Outputs O s (growSlot P g s i) := by
  unfold growSlot
  split
  · exact spawn_outputs hp
  · exact Outputs.refl.same rfl rfl (.of_eq rfl rfl rfl rfl rfl List.prefix_rfl)

theorem shrinkSlot_outputs (hp : Permits O) : Outputs O s (shrinkSlot g s i) := by
  unfold shrinkSlot
  split
  · rename_i p _
    have horphan : Keeps s (s.withReg fun r => r.orphan p) :=
      .setProc (fun _ => rfl) (fun _ => .inr rfl) fun _ => rfl
    exact Outputs.refl.same rfl rfl (horphan.trans (.of_eq rfl rfl rfl rfl rfl List.prefix_rfl))
  · exact Outputs.refl.same rfl rfl (.of_eq rfl rfl rfl rfl rfl List.prefix_rfl)
  · exact (Outputs.refl.emit hp rfl).same rfl rfl (.of_eq rfl rfl rfl rfl rfl List.prefix_rfl)

theorem startSlot_outputs (hp : Permits O) : Outputs O s (startSlot P g s i) := by
  unfold startSlot
  split
  · exact spawn_outputs hp
  · exact .refl
  · exact Outputs.refl.emit hp rfl

theorem updateInstances_outputs {cc : ChildConfig} {u : Server × Bool}
    (h : Outputs O s u.1) (hp : Permits O) : Outputs O s (updateInstances P cc g u).1 := by
  unfold updateInstances
  dsimp only
  split
  · split
    · refine Outputs.loop (fun _ _ => growSlot_outputs hp) _ ?_
      exact (h.slog hp).same rfl rfl (.of_eq rfl rfl rfl rfl rfl (List.prefix_append _ _))
    · refine (Outputs.loop (fun _ _ => shrinkSlot_outputs hp) _ (h.slog hp)).same rfl rfl ?_
      exact .of_eq rfl rfl rfl rfl rfl (List.prefix_append _ _)
  · exact h

theorem updateStatus_outputs {cc : ChildConfig} {u : Server × Bool}
    (h : Outputs O s u.1) (hp : Permits O)
    (hn : intChanges cc.ccStatus (u.1.reg.groups g).ccStatus = true →
      O (.notify (.status (u.1.reg.groups g).ccName cc.ccStatus))) :
    Outputs O s (updateStatus P cc g u).1 := by
  unfold updateStatus
  dsimp only
  split
  · rename_i hc
    refine Outputs.notify ?_ (hn (decide_eq_true hc))
    generalize hx : Server.withReg (slog P u.1 _) _ = x
    have hreset : Outputs O s x := by
      rw [← hx]
      exact (h.slog hp).same rfl rfl (.of_eq rfl rfl rfl rfl rfl List.prefix_rfl)
    split
    · refine (Outputs.loop (fun _ _ => startSlot_outputs hp) _ hreset).same rfl rfl ?_
      exact .of_eq rfl rfl rfl rfl rfl (List.prefix_append _ _)
    · exact hreset.same rfl rfl (.of_eq rfl rfl rfl rfl rfl (List.prefix_append _ _))
  · exact h

/-- UPDT up to the slots: the name and the status of the group are still the old ones. -/
theorem updateSlots_outputs {cc : ChildConfig} (hl : Linked s.reg)
    (hg : g ∈ s.reg.childConfigList) (hr : updtRefusal cc = none) (hp : Permits O) :
    let x := updateInstances P cc g (updateKillsig P cc g (updateStrings P cc g (s, false)))
    Outputs O s x.1 ∧ (x.1.reg.groups g).ccName = (s.reg.groups g).ccName ∧
      (x.1.reg.groups g).ccStatus = (s.reg.groups g).ccStatus := by
  have hi : cc.ccInstances = -1 ∨ 1 ≤ cc.ccInstances := by
    unfold updtRefusal at hr
    split_ifs at hr with _ _ _ h
    omega
  have hstage := texts_stage P cc g 0 (s, false)
  have hslots := (updateInstances_stage P cc _ (hstage.linked hl)
    (by rw [hstage.list]; exact hg) rfl hi).1
  have htexts : Outputs O s (updateStrings P cc g (s, false)).1 :=
    updateStr_outputs (updateStr_outputs (updateStr_outputs (updateStr_outputs
      (updateStr_outputs .refl hp) hp) hp) hp) hp
  have hsettings := hslots.settings
  rw [hstage.settings] at hsettings
  dsimp only
  refine ⟨updateInstances_outputs (updateKillsig_outputs htexts hp) hp, ?_, ?_⟩
  · have h := congrArg ChildConfig.ccName hsettings
    exact h
  · have h := congrArg ChildConfig.ccStatus hsettings
    exact h

theorem updateGroup_outputs {cc : ChildConfig} (hl : Linked s.reg)
    (hg : g ∈ s.reg.childConfigList) (hr : updtRefusal cc = none) (hp : Permits O)
    (hn : intChanges cc.ccStatus (s.reg.groups g).ccStatus = true →
      O (.notify (.status (s.reg.groups g).ccName cc.ccStatus))) :
    Outputs O s (updateGroup P cc g s).1 := by
  obtain ⟨hslots, hname, hstatus⟩ := updateSlots_outputs (P := P) hl hg hr hp
  unfold updateGroup
  dsimp only
  refine updateAge_outputs (updateStatus_outputs hslots hp ?_) hp
  rw [hname, hstatus]
  exact hn

end Commands

/-- The notifications a step may send, and where they come from. -/
inductive Sends (P : Platform) (s : Server) (e : Event) : Notification → Prop where
  | log (line : Bytes) (short : line.length < bufferSiz) : Sends P s e (.log line)
  | create (cc : ChildConfig) (accepted : acceptedSpwn P s e = some cc) :
      Sends P s e (.status cc.ccName statusCreate)
  | start (cc : ChildConfig) (accepted : acceptedSpwn P s e = some cc) :
      Sends P s e (.status cc.ccName cc.ccStatus)
  | delete (g : GroupId) (listed : g ∈ s.reg.childConfigList) :
      Sends P s e (.status (s.reg.groups g).ccName statusDelete)
  | broken (g : GroupId) (listed : g ∈ s.reg.childConfigList) :
      Sends P s e (.status (s.reg.groups g).ccName statusBroken)
  | status (cc : ChildConfig) (g : GroupId) (accepted : acceptedUpdt P s e = some (cc, g))
      (changed : intChanges cc.ccStatus (s.reg.groups g).ccStatus = true) :
      Sends P s e (.status (s.reg.groups g).ccName cc.ccStatus)
  | config (cc : ChildConfig) (g : GroupId) (up : ChildConfig)
      (accepted : acceptedUpdt P s e = some (cc, g))
      (changed : changes cc (settings (s.reg.groups g)) = true)
      (is : settings up = updated cc (settings (s.reg.groups g))) : Sends P s e (.groupCfg up)

/-- The signals a step may send: to the targets of KILL, and to a process whose heartbeat
timer has expired. -/
inductive Signals (P : Platform) (s : Server) (e : Event) : Pid → ℤ → Prop where
  | kill (obj : Json) (g : GroupId) (p : ProcId) (named : requested P s .kill e = some (obj, g))
      (target : p ∈ killTargets (s.reg.groups g) (killIndex obj)) :
      Signals P s e (s.reg.procs p).pPid (killSig (s.reg.groups g) obj)
  | heartbeat (p : ProcId) (sig : ℤ) (o : Oracle) (beat : e = .callback (.heartbeat p) o) :
      Signals P s e (s.reg.procs p).pPid sig

/-- Outputs of a step: notifications only as `Sends` says, signals only as `Signals` says. -/
structure SentBy (P : Platform) (s : Server) (e : Event) (o : Output) : Prop where
  notes : ∀ n, notificationOf o = some n → Sends P s e n
  signals : ∀ pid sig, o = .kill pid sig → Signals P s e pid sig

section Steps

variable {P : Platform} {s u : Server} {e : Event}

theorem sentBy_notify {n : Notification} (h : Sends P s e n) : SentBy P s e (.notify n) where
  notes := by
    rintro m ⟨⟩
    exact h
  signals _ _ h := by cases h

theorem sentBy_kill {pid : Pid} {sig : ℤ} (h : Signals P s e pid sig) :
    SentBy P s e (.kill pid sig) where
  notes _ h := by cases h
  signals := by
    rintro _ _ ⟨⟩
    exact h

theorem sentBy_reply (con : ClientId) (cid : UInt16) (r : Reply) :
    SentBy P s e (.reply con cid r) where
  notes _ h := by cases h
  signals _ _ h := by cases h

theorem sends_of_reg {x : Server} (hr : x.reg = s.reg) {n : Notification} (h : Sends P x e n) :
    Sends P s e n := by
  have hspwn : acceptedSpwn P x e = acceptedSpwn P s e := acceptedSpwn_of_reg hr
  have hupdt : acceptedUpdt P x e = acceptedUpdt P s e := acceptedUpdt_of_reg hr
  cases h with
  | log line hs => exact .log line hs
  | create cc ha => exact .create cc (hspwn ▸ ha)
  | start cc ha => exact .start cc (hspwn ▸ ha)
  | delete g hg =>
    rw [hr] at hg ⊢
    exact .delete g hg
  | broken g hg =>
    rw [hr] at hg ⊢
    exact .broken g hg
  | status cc g ha hc =>
    rw [hr] at hc ⊢
    exact .status cc g (hupdt ▸ ha) hc
  | config cc g up ha hc hs =>
    rw [hr] at hc hs
    exact .config cc g up (hupdt ▸ ha) hc hs

theorem signals_of_reg {x : Server} (hr : x.reg = s.reg) {pid : Pid} {sig : ℤ}
    (h : Signals P x e pid sig) : Signals P s e pid sig := by
  cases h with
  | kill obj g p hn ht =>
    rw [requested_of_reg hr] at hn
    rw [hr] at ht ⊢
    exact .kill obj g p hn ht
  | heartbeat p sig o he =>
    rw [hr]
    exact .heartbeat p sig o he

theorem sentBy_of_reg {x : Server} (hr : x.reg = s.reg) {o : Output} (h : SentBy P x e o) :
    SentBy P s e o where
  notes n hn := sends_of_reg hr (h.notes n hn)
  signals pid sig ho := signals_of_reg hr (h.signals pid sig ho)

theorem sentBy_permits : Permits (SentBy P s e) where
  plain o ho := by
    constructor
    · intro n hn
      cases o <;> cases hn
      cases ho
    · rintro pid sig rfl
      cases ho
  log line h := sentBy_notify (.log line h)

variable {con : ClientId} {cid : UInt16} {payload : Bytes} {o : Oracle}

theorem cUpdt_outputs (hl : Linked s.reg) (hc : findCommand payload = some .updt) :
    Outputs (SentBy P s (.callback (.request con cid payload) o)) s
      (cUpdt P s con (CStr.ofBytes (payload.drop 4))).1 := by
  have hp : Permits (SentBy P s (.callback (.request con cid payload) o)) := sentBy_permits
  cases hcc : childConfigUnserialize P (CStr.ofBytes (payload.drop 4)) with
  | none =>
    rw [cUpdt_unparsed hcc]
    exact (Outputs.refl.slog hp).reply hp rfl
  | some cc =>
    cases hg : s.reg.childConfigFindByName cc.ccName with
    | none =>
      rw [cUpdt_unknown hcc hg]
      exact Outputs.refl.reply hp rfl
    | some g =>
      cases hok : updtRefusal cc with
      | some refusal =>
        rw [cUpdt_refused hcc hg hok]
        exact Outputs.refl.reply hp rfl
      | none =>
        have ha : acceptedUpdt P s (.callback (.request con cid payload) o) = some (cc, g) := by
          simp [acceptedUpdt, hc, hcc, hg, hok]
        have hlisted := (hl.find_name hg).1
        have hgroup := updateGroup_outputs (P := P) hl hlisted hok hp fun hch =>
          sentBy_notify (.status cc g ha hch)
        obtain ⟨hu, hflag⟩ := updateGroup_updated P cc g s hl hlisted hok
        rw [cUpdt_accepted hcc hg hok]
        generalize updateGroup P cc g s = v at hgroup hu hflag
        obtain ⟨v, changed⟩ := v
        dsimp only at hgroup hu hflag
        refine Outputs.success ?_ hp
        cases changed with
        | false => exact hgroup.same rfl rfl (.of_eq rfl rfl rfl rfl rfl List.prefix_rfl)
        | true => exact hgroup.notify (sentBy_notify (.config cc g _ ha hflag.symm hu.settings))

theorem runCommand_outputs {c : Command} (hl : Linked s.reg) (hc : findCommand payload = some c) :
    Outputs (SentBy P s (.callback (.request con cid payload) o)) s
      (runCommand P c s con (CStr.ofBytes (payload.drop 4))).1 := by
  have hp : Permits (SentBy P s (.callback (.request con cid payload) o)) := sentBy_permits
  cases c with
  | dele =>
    exact cDele_outputs hl hp (fun _ _ => sentBy_reply ..) fun g hg => sentBy_notify (.delete g hg)
  | dump => exact cDump_outputs hp
  | exit => exact cExit_outputs hp
  | getc => exact cGetc_outputs hl hp
  | helo => exact Outputs.refl.reply hp rfl
  | kill =>
    refine cKill_outputs hl hp (fun _ _ => sentBy_reply ..) fun obj g hn p hp => sentBy_kill ?_
    exact .kill obj g p (by simp [requested, hc, hn]) hp
  | list => exact Outputs.refl.reply hp rfl
  | pids => exact cPids_outputs hl hp fun _ _ => sentBy_reply ..
  | read => exact cRead_outputs hp
  | spwn =>
    refine cSpwn_outputs hp fun cc hcc hok => ?_
    have ha : acceptedSpwn P s (.callback (.request con cid payload) o) = some cc := by
      simp [acceptedSpwn, hc, hcc, hok]
    exact ⟨sentBy_notify (.create cc ha), sentBy_notify (.start cc ha)⟩
  | subs => exact cSubs_outputs hp
  | updt => exact cUpdt_outputs hl hc

theorem drop_outputs {O : Output → Prop} (h : Outputs O s u) (hp : Permits O) :
    Outputs O s (UbervisorServer.dropClientConnection u con) :=
  (h.emit hp (o := .dropped con) rfl).same rfl rfl (.of_eq rfl rfl rfl rfl rfl List.prefix_rfl)

theorem runServerCommand_outputs (hl : Linked s.reg) :
    Outputs (SentBy P s (.callback (.request con cid payload) o)) s
      (UbervisorCommands.runServerCommand P s con payload) := by
  unfold UbervisorCommands.runServerCommand
  split
  · rename_i c hc
    have h : Outputs (SentBy P s (.callback (.request con cid payload) o)) s
        (runCommand P c s con (CStr.ofBytes (payload.drop 4))).1 := runCommand_outputs hl hc
    dsimp only
    split
    · exact h
    · exact drop_outputs h sentBy_permits
  · exact drop_outputs .refl sentBy_permits

theorem loadGroups_outputs {O : Output → Prop} (hp : Permits O) (l : List Json) (s : Server) :
    Outputs O s (loadGroups P l s).1 := by
  fun_induction loadGroups P l s with
  | case1 s => exact .refl
  | case2 => exact .refl
  | case3 => exact .refl
  | case4 => exact (Outputs.refl.slog hp).same rfl rfl (.of_eq rfl rfl rfl rfl rfl List.prefix_rfl)
  | case5 fields ts s cc hcc hcmd s' cc' hneg ih =>
    have hlog : Outputs O s s' := Outputs.refl.slog hp
    refine (hlog.trans ?_).trans ih
    have hinsert : Outputs O s' (insertGroup s' (withSlots cc' cc'.ccInstances)) :=
      Outputs.refl.same rfl rfl (.of_eq rfl rfl rfl rfl rfl (List.prefix_append _ _))
    unfold loadGroup
    dsimp only
    split
    · exact hinsert.trans (spawnRange_outputs hp)
    · exact hinsert
  | case6 => exact .refl

theorem loadDump_outputs {O : Output → Prop} (hp : Permits O) (file : Option Bytes) :
    Outputs O s (loadDump P s file).1 := by
  unfold loadDump
  split
  · exact .refl
  · exact .refl
  · split
    · exact loadGroups_outputs hp _ s
    · exact .refl

theorem loadDumpCb_outputs {O : Output → Prop} (hp : Permits O) (file : Option Bytes) :
    Outputs O s (loadDumpCb P s file) := by
  have hload : Outputs O s (loadDump P s file).1 := loadDump_outputs hp file
  unfold loadDumpCb
  split
  · rename_i v hv
    rw [hv] at hload
    exact hload
  · rename_i v hv
    rw [hv] at hload
    exact hload.same rfl rfl (.of_eq rfl rfl rfl rfl rfl List.prefix_rfl)

theorem heartbeatCb_outputs {O : Output → Prop} (hp : Permits O) (p : ProcId)
    (hk : ∀ sig, O (.kill (s.reg.procs p).pPid sig)) : Outputs O s (heartbeatCb P s p) := by
  have hf : Outputs O s (forkCommand s).2 := forkCommand_outputs
  have hkill : ∀ {u : Server} {sig : ℤ}, Outputs O s u →
      Outputs O s (emit u (.kill (s.reg.procs p).pPid sig)) := fun h => h.io (h.out.emit (hk _))
  unfold heartbeatCb
  dsimp only
  split
  · split
    · exact hkill (Outputs.refl.slog hp)
    · refine (hkill (Outputs.refl.slog hp)).withReg rfl ?_
      exact .setProc (fun _ => rfl) (fun _ => .inl rfl) fun _ => rfl
  · split
    · exact .refl
    · split
      · exact .refl
      · split
        · rename_i v hv
          rw [hv] at hf
          exact hf.slog hp
        · rename_i v hv
          rw [hv] at hf
          exact hf.emit hp rfl

theorem childErrorCb_outputs {O : Output → Prop} (hp : Permits O) (p : ProcId) :
    Outputs O s (childErrorCb s p) := by
  unfold childErrorCb
  dsimp only
  split
  · refine (Outputs.refl.emit hp rfl).withReg rfl ?_
    exact .setProc (fun _ => rfl) (fun _ => .inl rfl) fun _ => rfl
  · exact .refl

/-- The terminated children that are left after an event. -/
def zombiesAfter (s : Server) : Event → List (Pid × WaitStatus)
  | .childExit pid ret pos => (s.reg.kernel.exit pid ret pos).zombies
  | .callback .waitpid _ => s.reg.kernel.zombies.tail
  | _ => s.reg.kernel.zombies

/-- What a step puts out, which terminated children it leaves, and what becomes of the table
of processes and the timers. -/
structure StepOutputs (P : Platform) (s : Server) (e : Event) (u : Server) : Prop where
  out : IoOutputs (SentBy P s e) s.io u.io
  zombies : u.reg.kernel.zombies = zombiesAfter s e
  older : Older s.reg u.reg
  gone : ∀ p ret, reaped s e = some (p, ret) → ¬ u.reg.Tracked p
  kept : ∀ p, s.reg.Tracked p → (∀ ret, reaped s e ≠ some (p, ret)) → u.reg.Tracked p
  timers : ∀ p ∈ u.timers, (p ∈ s.timers ∧ ∀ ret, reaped s e ≠ some (p, ret)) ∨ u.reg.Tracked p
  spawned : ∀ p, s.reg.nextProc ≤ p → p < u.reg.nextProc → ∃ site g i,
    .spawned site g i p (u.reg.procs p).pPid ∈ newHist s u
  started : ∀ c o, e = .callback c o → u.started = true

/-- Steps that take no process out of the table. -/
theorem StepOutputs.of_keeps (hl : Linked s.reg) (hr : reaped s e = none)
    (hout : IoOutputs (SentBy P s e) s.io u.io)
    (hz : u.reg.kernel.zombies = zombiesAfter s e) (hk : Keeps s u)
    (hs : ∀ c o, e = .callback c o → u.started = true) : StepOutputs P s e u where
  out := hout
  zombies := hz
  older := hk.older
  gone p ret h := by
    rw [hr] at h
    cases h
  kept p ht _ := hk.kept p (hl.tracked_lt ht) ht
  timers p hp := by
    rcases hk.timers p hp with hs | ⟨-, hu⟩
    · refine .inl ⟨hs, fun ret h => ?_⟩
      rw [hr] at h
      cases h
    · exact .inr hu
  spawned := hk.spawned
  started := hs

/-- The turn up to the point where the process is forgotten. -/
theorem processExit_outputs (hl : Linked s.reg) {p : ProcId} (ret : WaitStatus) {k : Kernel}
    (ht : s.reg.Tracked p) : ∃ y : Server,
      IoOutputs (SentBy P s e) s.io y.io ∧ y.reg = (s.reg.setKernel k).processRemove p ∧
      y.timers = s.timers.filter (· ≠ p) ∧ y.hist = s.hist ∧ y.started = s.started ∧
      Outputs (SentBy P s e) y (processExit P (s.withReg fun r => r.setKernel k) p ret) := by
  have hp : Permits (SentBy P s e) := sentBy_permits
  generalize hx : (s.withReg fun r => r.setKernel k) = x
  have hreg : x.reg = s.reg.setKernel k := by rw [← hx]; rfl
  have hrest : x.io = s.io ∧ x.timers = s.timers ∧ x.hist = s.hist ∧ x.started = s.started := by
    rw [← hx]
    exact ⟨rfl, rfl, rfl, rfl⟩
  unfold processExit
  dsimp only
  generalize hy : Server.withIo _ _ = y
  refine ⟨y, ?_, ?_, ?_, ?_, ?_, ?_⟩
  · rw [← hy, ← hrest.1]
    simp only [Server.withIo_io, Server.withReg_io]
    split
    · exact (IoOutputs.slog .refl hp.writes.logs).plain hp rfl
    · exact .slog .refl hp.writes.logs
  · rw [← hy, ← hreg]
    rfl
  · rw [← hy, ← hrest.2.1]
    rfl
  · rw [← hy, ← hrest.2.2.1]
    rfl
  · rw [← hy, ← hrest.2.2.2]
    rfl
  · split
    · exact Outputs.refl.record
    · rename_i g hcfg
      have hcfg' : (s.reg.procs p).pChildConfig = some g := by
        rw [hreg] at hcfg
        exact hcfg
      have hlisted := ((hl.placed g _ p).mpr ⟨ht, hcfg', rfl⟩).1
      have hgroups : y.reg.groups = s.reg.groups := by
        rw [← hy]
        change x.reg.groups = _
        rw [hreg]
        rfl
      refine groupExit_outputs hp ?_
      rw [hgroups]
      exact sentBy_notify (.broken g hlisted)

theorem sigchldTurn_outputs (hl : Linked s.reg) (hs : s.started = true) :
    StepOutputs P s (.callback .waitpid o) (sigchldTurn P s) := by
  unfold sigchldTurn
  split
  · rename_i hw
    have hz := Kernel.waitpid_eq_none.mp hw
    refine .of_keeps hl (by simp [reaped, hw]) .refl ?_
      (.of_eq rfl rfl rfl rfl rfl List.prefix_rfl) fun _ _ _ => hs
    simp [zombiesAfter, hz]
  · rename_i pid ret k hw
    obtain ⟨hz, -⟩ := Kernel.waitpid_eq_some hw
    have htail : k.zombies = s.reg.kernel.zombies.tail := by rw [hz, List.tail_cons]
    dsimp only
    split
    · rename_i hnone
      have hfind : s.reg.processFindByPid pid = none := hnone
      exact .of_keeps hl (by simp [reaped, hw, hfind]) .refl htail
        (.of_eq rfl rfl rfl rfl rfl List.prefix_rfl) fun _ _ _ => hs
    · rename_i p hfind
      have hfind' : s.reg.processFindByPid pid = some p := hfind
      have hreap : reaped s (.callback .waitpid o) = some (p, ret) := by
        simp [reaped, hw, hfind']
      have ht := (hl.find_pid hfind').1
      obtain ⟨y, hout, hreg, htimers, hhist, hstarted, hv⟩ :=
        processExit_outputs (P := P) (e := .callback .waitpid o) hl ret (k := k) ht
      generalize processExit P (s.withReg fun r => r.setKernel k) p ret = v at hv
      have hnext : y.reg.nextProc = s.reg.nextProc := by rw [hreg]; rfl
      have hremoved : ∀ q, y.reg.Tracked q ↔ q ≠ p ∧ s.reg.Tracked q := by
        intro q
        have h : (s.reg.processRemove p).Tracked q ↔ q ≠ p ∧ s.reg.Tracked q :=
          tracked_processRemove hl ht
        rw [hreg]
        exact h
      have hold : Older s.reg y.reg := by
        have h : Older s.reg (s.reg.processRemove p) := .processRemove hl ht
        rw [hreg]
        exact ⟨h.fresh, h.pids, h.cfg, h.inst, h.tracked⟩
      refine ⟨hout.trans hv.out, ?_, hold.trans hv.older, ?_, ?_, ?_, ?_,
        fun _ _ _ => hv.started (hstarted.trans hs)⟩
      · rw [hv.zombies, hreg]
        exact htail
      · intro q ret' hq hu
        rw [hreap] at hq
        obtain ⟨rfl, -⟩ := Prod.mk.inj (Option.some.inj hq)
        have hlt : p < y.reg.nextProc := by
          rw [hnext]
          exact hl.tracked_lt ht
        exact ((hremoved p).mp (hv.older.tracked p hlt hu)).1 rfl
      · intro q hq hne
        have hqp : q ≠ p := by
          rintro rfl
          exact hne ret hreap
        refine hv.kept q ?_ ((hremoved q).mpr ⟨hqp, hq⟩)
        rw [hnext]
        exact hl.tracked_lt hq
      · intro q hq
        rcases hv.timers q hq with hy | ⟨-, hu⟩
        · rw [htimers, List.mem_filter, decide_eq_true_eq] at hy
          refine .inl ⟨hy.1, fun ret' hr => hy.2 ?_⟩
          rw [hreap] at hr
          exact (Prod.mk.inj (Option.some.inj hr)).1.symm
        · exact .inr hu
      · intro q hq hu
        rw [← hnext] at hq
        have h := hv.spawned q hq hu
        rw [newHist_congr hhist rfl] at h
        exact h

/-- The system calls of a callback do not matter here. -/
theorem install_outputs {O : Output → Prop} : Outputs O s (install s o) where
  out := IoOutputs.refl.same rfl
  zombies := rfl
  older := .refl
  kept _ _ ht := ht
  timers _ hp := .inl hp
  started _ := rfl
  hist := List.prefix_rfl
  spawned _ hp hu := absurd hu (Nat.not_lt.mpr hp)

/-- Callbacks that reap no child. -/
theorem StepOutputs.of_outputs {c : Callback} (hl : Linked s.reg) (hc : c.isTurn = false)
    (h : Outputs (SentBy P s (.callback c o)) (install s o) u) :
    StepOutputs P s (.callback c o) u := by
  have hs : Outputs (SentBy P s (.callback c o)) s u := install_outputs.trans h
  refine .of_keeps hl ?_ hs.out ?_ hs.toKeeps fun _ _ _ => h.started rfl
  · cases c <;> first | rfl | cases hc
  · rw [hs.zombies]
    cases c <;> first | rfl | cases hc

/-- A request or a turn of `sigchld_cb`. -/
def Callback.isMajor : Callback → Bool
  | .request .. | .waitpid => true
  | _ => false

/-- What the other callbacks put out. -/
theorem minor_outputs {O : Output → Prop} {c : Callback} (hp : Permits O)
    (hc : Callback.isMajor c = false)
    (hk : ∀ p sig, c = .heartbeat p → O (.kill (s.reg.procs p).pPid sig)) :
    Outputs O s (runCallback P s c) := by
  cases c with
  | accept a =>
    cases a with
    | again => exact .refl
    | failed => exact Outputs.refl.slog hp
    | noBuffer => exact Outputs.refl.slog hp
    | noEnable => exact Outputs.refl.slog hp
    | connected con =>
      exact Outputs.refl.same rfl rfl (.of_eq rfl rfl rfl rfl rfl List.prefix_rfl)
  | request con cid payload => cases hc
  | badLength con tooLarge => exact drop_outputs (Outputs.refl.slog hp) hp
  | error con => exact drop_outputs .refl hp
  | loadDump file => exact loadDumpCb_outputs hp file
  | loadNewest file => exact loadDump_outputs hp file
  | sigchld => exact Outputs.refl.same rfl rfl (.of_eq rfl rfl rfl rfl rfl List.prefix_rfl)
  | waitpid => cases hc
  | sighup reopened =>
    cases reopened with
    | true => exact Outputs.refl.slog hp
    | false => exact (Outputs.refl.slog hp).slog hp
  | heartbeat p => exact heartbeatCb_outputs hp p fun sig => hk p sig rfl
  | childRead p buf => exact Outputs.refl.slog hp
  | childError p => exact childErrorCb_outputs hp p

theorem minor_turn {c : Callback} (hc : Callback.isMajor c = false) : c.isTurn = false := by
  cases c <;> first | rfl | cases hc

theorem step_outputs (hl : Linked s.reg) (h : Step P s e u) : StepOutputs P s e u := by
  obtain ⟨-, rfl⟩ := h
  have hp : Permits (SentBy P s e) := sentBy_permits
  cases e with
  | clock t =>
    exact .of_keeps hl rfl .refl rfl (.of_eq rfl rfl rfl rfl rfl List.prefix_rfl) fun _ _ h => by
      cases h
  | childExit pid ret pos =>
    exact .of_keeps hl rfl .refl rfl (.of_eq rfl rfl rfl rfl rfl List.prefix_rfl) fun _ _ h => by
      cases h
  | callback c o =>
    have hli : Linked (install s o).reg := hl
    by_cases hc : Callback.isMajor c = false
    · refine .of_outputs hl (minor_turn hc) (minor_outputs hp hc fun p sig he => ?_)
      exact sentBy_kill (.heartbeat p sig o (by rw [he]))
    · cases c with
      | request con cid payload =>
        generalize hx : (install s o).withIo (setCid con cid) = x
        have hreg : x.reg = s.reg := by rw [← hx]; rfl
        have hset : Outputs (SentBy P s (.callback (.request con cid payload) o)) (install s o)
            x := by
          rw [← hx]
          have hsame : IoOutputs (SentBy P s (.callback (.request con cid payload) o))
              (install s o).io (setCid con cid (install s o).io) := IoOutputs.refl.same rfl
          exact Outputs.refl.io hsame
        have hrun : Outputs (SentBy P x (.callback (.request con cid payload) o)) x
            (UbervisorCommands.runServerCommand P x con payload) :=
          runServerCommand_outputs (by rw [hreg]; exact hl)
        have hnext : next P s (.callback (.request con cid payload) o) =
            (UbervisorCommands.runServerCommand P x con payload).withIo (setCid con 0) := by
          rw [← hx]
          rfl
        rw [hnext]
        have hsent := hset.trans (hrun.mono fun _ => sentBy_of_reg hreg)
        exact .of_outputs hl rfl (hsent.io (hsent.out.same rfl))
      | waitpid =>
        have hreg : (install s o).reg = s.reg := rfl
        have hturn := sigchldTurn_outputs (P := P) (o := o) hli rfl
        exact ⟨hturn.out.mono fun _ => sentBy_of_reg hreg, hturn.zombies, hturn.older, hturn.gone,
          hturn.kept, hturn.timers, hturn.spawned, hturn.started⟩
      | _ => exact absurd rfl hc

end Steps

end UbervisorOutputs
