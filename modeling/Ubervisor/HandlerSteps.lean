import Ubervisor.Handles
import Ubervisor.Outputs

/-! # What handlers do to processes

A handler writes, runs commands and changes groups, it gives up processes of a group, and it starts
processes. Only the last two change the table of processes, and only the last one uses
descriptors. -/
namespace UbervisorHandlerSteps

open UbervisorValues
open UbervisorChildConfigs
open UbervisorKernel
open UbervisorRegistry
open UbervisorReadCallback (Command findCommand)
open UbervisorServer
open UbervisorCommands
open UbervisorEvents
open UbervisorSupervision
open UbervisorEffects
open UbervisorOutputs
open UbervisorHandles

section Descriptors

/-- What an output does with the descriptors of sockets between the server and a child. -/
def fdUse : Output → List (Use Fd)
  | .socketpair a b => [.acquire a, .acquire b]
  | .close fd => [.release fd]
  | _ => []

/-- The descriptors are not concerned. -/
def Other (o : Output) : Prop := fdUse o = []

theorem log_other (o : Output) (h : isLog o = true) : Other o := by
  cases o <;> first | rfl | cases h

theorem other_writes : Writes Other := by
  intro o h
  cases o <;> first | rfl | cases h

end Descriptors

section Relations

/-- Entries of a process that was started. -/
def isStart : Hist → Bool
  | .spawned .. => true
  | _ => false

/-- Results of system calls are taken in turn, and the children there are were there before, or have
been forked with these results. -/
def Consumes (s u : Server) : Prop := ∃ l, s.spawns = l ++ u.spawns ∧
  ∀ pid ∈ u.reg.kernel.unreaped, pid ∈ s.reg.kernel.unreaped ∨ pid ∈ l.filterMap SpawnOutcome.fork

/-- Neither the processes nor their descriptors are concerned. -/
structure Same (s u : Server) : Prop where
  procs : u.reg.procs = s.reg.procs
  next : u.reg.nextProc = s.reg.nextProc
  table : u.reg.processHash = s.reg.processHash
  clock : u.clock = s.clock
  consumes : Consumes s u
  hist : ∃ l, u.hist = s.hist ++ l ∧ ∀ h ∈ l, isStart h = false
  out : IoOutputs Other s.io u.io

/-- What handlers do. -/
inductive Does (P : Platform) : Server → Server → Prop where
  | same {s u} : Same s u → Does P s u
  | orphan (s p) : Does P s (s.withReg fun r => r.orphan p)
  | spawn (site s g i) : Does P s (spawn P site s g i)
  | trans {s u v} : Does P s u → Does P u v → Does P s v

variable {P : Platform} {s u v : Server} {con : ClientId} {g : GroupId} {i : ℕ} {site : SpawnSite}

theorem Consumes.none (hk : ∀ pid ∈ u.reg.kernel.unreaped, pid ∈ s.reg.kernel.unreaped)
    (ho : u.spawns = s.spawns) : Consumes s u := ⟨[], ho.symm, fun pid hp => .inl (hk pid hp)⟩

theorem Consumes.trans (h : Consumes s u) (k : Consumes u v) : Consumes s v := by
  obtain ⟨l, hl, hx⟩ := h
  obtain ⟨m, hm, hy⟩ := k
  refine ⟨l ++ m, by rw [hl, hm, List.append_assoc], fun pid hp => ?_⟩
  rw [List.filterMap_append, List.mem_append]
  rcases hy pid hp with hu | hmem
  · exact (hx pid hu).imp_right .inl
  · exact .inr (.inr hmem)

/-- One result is taken, and may be the pid of a new child. -/
theorem Consumes.head {k : Kernel} {pid : Pid} (hk : u.reg.kernel = k)
    (hf : s.reg.kernel.fork (s.spawns.headD .failed).fork = some (pid, k))
    (ho : u.spawns = s.spawns.tail) : Consumes s u := by
  cases hs : s.spawns with
  | nil =>
    rw [hs] at hf
    cases hf
  | cons x l =>
    rw [hs] at hf
    obtain ⟨hwant, -⟩ := Kernel.fork_eq_some hf
    refine ⟨[x], by rw [ho, hs]; rfl, fun q hq => ?_⟩
    rw [hk, Kernel.mem_unreaped_fork hf] at hq
    rcases hq with rfl | hq
    · exact .inr (List.mem_filterMap.mpr ⟨x, List.mem_singleton_self x, hwant⟩)
    · exact .inl hq

theorem Consumes.tail (hk : u.reg.kernel = s.reg.kernel) (ho : u.spawns = s.spawns.tail) :
    Consumes s u := by
  have hkept : ∀ pid ∈ u.reg.kernel.unreaped, pid ∈ s.reg.kernel.unreaped := fun pid hp => hk ▸ hp
  cases hs : s.spawns with
  | nil => exact .none hkept (by rw [ho, hs]; rfl)
  | cons x l => exact ⟨[x], by rw [ho, hs]; rfl, fun pid hp => .inl (hkept pid hp)⟩

/-- Other fields of the server do not matter. -/
theorem Same.rest (hr : u.reg = s.reg) (hc : u.clock = s.clock) (ho : u.spawns = s.spawns)
    (hh : u.hist = s.hist) (hi : u.io = s.io) : Same s u where
  procs := by rw [hr]
  next := by rw [hr]
  table := by rw [hr]
  clock := hc
  consumes := .none (fun _ hp => hr ▸ hp) ho
  hist := ⟨[], by rw [hh, List.append_nil], nofun⟩
  out := by
    rw [hi]
    exact .refl

theorem Same.refl : Same s s := .rest rfl rfl rfl rfl rfl

theorem Same.trans (h : Same s u) (k : Same u v) : Same s v where
  procs := k.procs.trans h.procs
  next := k.next.trans h.next
  table := k.table.trans h.table
  clock := k.clock.trans h.clock
  consumes := h.consumes.trans k.consumes
  hist := by
    obtain ⟨l, hl, hx⟩ := h.hist
    obtain ⟨m, hm, hy⟩ := k.hist
    refine ⟨l ++ m, by rw [hm, hl, List.append_assoc], fun x hxm => ?_⟩
    rcases List.mem_append.mp hxm with hxl | hxm
    · exact hx x hxl
    · exact hy x hxm
  out := h.out.trans k.out

theorem Same.withIo {k : Io → Io} (h : IoOutputs Other s.io (k s.io)) : Same s (s.withIo k) :=
  ⟨rfl, rfl, rfl, rfl, .none (fun _ hp => hp) rfl, ⟨[], by simp, by simp⟩, h⟩

theorem Same.withReg {f : Registry → Registry} (hp : (f s.reg).procs = s.reg.procs)
    (hn : (f s.reg).nextProc = s.reg.nextProc)
    (ht : (f s.reg).processHash = s.reg.processHash) (hk : (f s.reg).kernel = s.reg.kernel) :
    Same s (s.withReg f) :=
  ⟨hp, hn, ht, rfl, .none (fun _ hp => hk ▸ hp) rfl, ⟨[], by simp, by simp⟩, .refl⟩

theorem Same.record {x : Hist} (hx : isStart x = false) : Same s (s.record x) :=
  ⟨rfl, rfl, rfl, rfl, .none (fun _ hp => hp) rfl, ⟨[x], rfl, by simpa using hx⟩, .refl⟩

theorem Does.refl : Does P s s := .same .refl

/-- A loop each turn of which is something a handler does. -/
theorem Does.loop {f : Server → ℕ → Server} (hf : ∀ s i, Does P s (f s i)) (l : List ℕ)
    (h : Does P s u) : Does P s (l.foldl f u) := by
  induction l generalizing u with
  | nil => exact h
  | cons i l ih => exact ih (h.trans (hf u i))

theorem Does.then (h : Does P s u) (k : Same u v) : Does P s v := h.trans (.same k)

theorem Does.io (h : Does P s u) {k : Io → Io} (hk : IoOutputs Other u.io (k u.io)) :
    Does P s (u.withIo k) := h.then (.withIo hk)

theorem Does.slog (h : Does P s u) {msg : Bytes} : Does P s (UbervisorServer.slog P u msg) :=
  h.io (.slog .refl log_other)

theorem Does.emit (h : Does P s u) {o : Output} (ho : Other o) :
    Does P s (UbervisorServer.emit u o) := h.io (.emit .refl ho)

theorem Does.reply (h : Does P s u) {r : Reply} : Does P s (sendReply P u con r) :=
  h.io (.replied .refl fun _ => rfl)

theorem Does.notify (h : Does P s u) {n : Notification} : Does P s (u.withIo (Io.notify P n)) :=
  h.io (IoOutputs.notify .refl rfl)

theorem Does.success (h : Does P s u) {msg : String} : Does P s (sendSuccess P u con msg) := by
  apply h.io
  split
  · exact .cDump .refl other_writes
  · exact .replied .refl fun _ => rfl

theorem Does.unset (h : Does P s u) {b : Bool} : Does P s (noteUnset u b) := by
  apply h.io
  split
  · exact IoOutputs.emit .refl rfl
  · exact .refl

theorem Does.drop (h : Does P s u) : Does P s (UbervisorServer.dropClientConnection u con) :=
  h.io ⟨[.dropped con], rfl, by simp [Other, fdUse]⟩

/-- Assignments to a group. -/
theorem Does.group (h : Does P s u) {f : ChildConfig → ChildConfig} :
    Does P s (u.withReg fun r => r.setGroup g f) := h.then (.withReg rfl rfl rfl rfl)

theorem Does.record (h : Does P s u) {x : Hist} (hx : isStart x = false) :
    Does P s (u.record x) := h.then (.record hx)

end Relations

section Processes

variable {P : Platform} {s u : Server} {g : GroupId} {i : ℕ} {site : SpawnSite}

theorem forkCommand_same (s : Server) : Same s (forkCommand s).2 := by
  unfold forkCommand takeOutcome
  dsimp only
  split
  · exact ⟨rfl, rfl, rfl, rfl, .tail rfl rfl, ⟨[], by simp, by simp⟩, .refl⟩
  · rename_i pid k hf
    exact ⟨rfl, rfl, rfl, rfl, .head rfl hf rfl, ⟨[], by simp, by simp⟩, .refl⟩

theorem spawnRange_does {a n : ℕ} : Does P s (spawnRange P site s g a n) :=
  Does.loop (fun s i => .spawn site s g i) _ .refl

theorem runFatalCb_does : Does P s (runFatalCb P s g) := by
  have hcalled : Does P s (s.record (.fatal g)) := Does.refl.record rfl
  have hf := hcalled.trans (Does.same (forkCommand_same (s.record (.fatal g))))
  unfold runFatalCb
  dsimp only
  split
  · exact hcalled
  · split
    · rename_i u hu
      rw [hu] at hf
      exact hf.slog
    · rename_i u hu
      rw [hu] at hf
      exact hf.slog.emit (by rfl)

theorem noteError_does : Does P s (noteError P s g) := by
  unfold noteError
  dsimp only
  split
  · exact ((Does.refl.group.group.record rfl).slog.notify).trans runFatalCb_does
  · exact Does.refl.group

theorem respawn_does : Does P s (respawn P s g i) := by
  unfold respawn
  dsimp only
  split
  · exact .spawn ..
  · exact .refl

theorem groupExit_does {ret : WaitStatus} : Does P s (groupExit P s g i ret) := by
  unfold groupExit
  dsimp only
  generalize hx : Server.withReg (Server.record s _) _ = x
  have hclear : Does P s x := by
    rw [← hx]
    obtain ⟨hn, hprocs, hhash, hkernel⟩ := clearSlot_keeps s.reg g i
    exact (Does.refl.record rfl).then (.withReg hprocs hn hhash hkernel)
  refine Does.trans ?_ respawn_does
  split
  · exact hclear.trans noteError_does
  · exact hclear

end Processes

section Commands

variable {P : Platform} {s : Server} {con : ClientId} {buf : CStr} {g : GroupId} {i : ℕ}
  {cc : ChildConfig}

theorem withNamedGroup_does {badName : Bool} {handle : Json → GroupId → Server × Bool}
    (h : ∀ obj g, Does P s (handle obj g).1) :
    Does P s (withNamedGroup P s con buf badName handle).1 := by
  unfold withNamedGroup
  split
  · exact Does.refl.reply
  · split
    · exact Does.refl.reply
    · split
      · exact Does.refl.reply
      · exact h _ _

theorem orphanAll_does (ps : List ProcId) :
    Does P s (s.withReg fun r => r.orphanAll ps) := by
  induction ps generalizing s with
  | nil => exact .refl
  | cons p ps ih => exact (Does.orphan s p).trans ih

theorem cKill_does : Does P s (cKill P s con buf).1 := by
  refine withNamedGroup_does fun obj g => ?_
  dsimp only
  refine Does.reply (Does.io (Does.unset Does.refl.slog) ?_)
  have hkill : ∀ (sig : ℤ) (l : List Pid) (a b : Io), IoOutputs Other a b →
      IoOutputs Other a (l.foldl (fun io pid => io.emit (.kill pid sig)) b) := by
    intro sig l
    induction l with
    | nil => exact fun _ _ h => h
    | cons pid l ih => exact fun a b h => ih _ _ (h.emit rfl)
  exact hkill _ _ _ _ .refl

theorem cDele_does : Does P s (cDele P s con buf).1 := by
  refine withNamedGroup_does fun obj g => ?_
  have hremoved : Does P s (s.withReg fun r => r.childConfigRemove g) :=
    .same (.withReg rfl rfl rfl rfl)
  exact ((hremoved.slog.unset.trans (orphanAll_does _)).notify.record rfl).reply

theorem cSubs_does : Does P s (cSubs P s con buf).1 := by
  unfold cSubs
  split
  · exact Does.refl.reply
  · split
    · exact Does.refl.reply
    · exact Does.reply (Does.io .refl (IoOutputs.same .refl rfl))

theorem cRead_does : Does P s (cRead P s con buf).1 := by
  unfold cRead
  dsimp only
  split
  · exact Does.refl.reply
  · split
    · split
      · exact Does.refl.reply
      · split
        · exact Does.refl.reply
        · split
          · exact Does.refl.reply
          · split
            · exact Does.refl.reply
            · split
              · exact Does.refl.reply
              · exact Does.refl.reply
              · exact Does.refl.reply
    · exact Does.refl.reply

theorem cExit_does : Does P s (cExit P s con).1 := by
  unfold cExit
  split
  · exact Does.refl.reply
  · have hslog : Does P s (slog P (sendSuccess P s con "exiting")
        (text "server exiting due to exit command.\n")) := Does.refl.success.slog
    exact hslog.then (.rest rfl rfl rfl rfl rfl)

theorem insertGroup_does (cc : ChildConfig) : Does P s (insertGroup s cc) :=
  (Does.refl.then (.withReg rfl rfl rfl rfl)).record rfl

theorem announceGroup_does (cc : ChildConfig) (n : ℤ) :
    Does P s (announceGroup P s con cc n) :=
  (insertGroup_does (withSlots cc n)).success.slog.notify.notify

theorem cSpwn_does : Does P s (cSpwn P s con buf).1 := by
  cases hcc : childConfigUnserialize P buf with
  | none =>
    rw [cSpwn_unparsed hcc]
    exact Does.refl.reply
  | some cc =>
    cases hok : spwnRefusal s.reg cc with
    | some msg =>
      rw [cSpwn_refused hcc hok]
      exact Does.refl.reply
    | none =>
      rw [cSpwn_accepted hcc hok rfl]
      dsimp only
      split
      · exact (announceGroup_does cc _).trans spawnRange_does
      · exact announceGroup_does cc _

theorem updateStr_does {fld : StrField} {u : Server × Bool} (h : Does P s u.1) :
    Does P s (updateStr P cc g fld u).1 := by
  unfold updateStr
  split
  · exact h
  · split
    · exact h
    · exact h.slog.group

theorem updateKillsig_does {u : Server × Bool} (h : Does P s u.1) :
    Does P s (updateKillsig P cc g u).1 := by
  unfold updateKillsig
  dsimp only
  split
  · exact h.slog.group
  · exact h

theorem updateAge_does {u : Server × Bool} (h : Does P s u.1) :
    Does P s (updateAge P cc g u).1 := by
  unfold updateAge
  dsimp only
  split
  · exact h.slog.group
  · exact h

theorem growSlot_does : Does P s (growSlot P g s i) := by
  unfold growSlot
  split
  · exact .spawn ..
  · exact Does.refl.group

theorem shrinkSlot_does : Does P s (shrinkSlot g s i) := by
  unfold shrinkSlot
  split
  · rename_i p _
    exact (Does.orphan s p).group
  · exact Does.refl.group
  · exact (Does.refl.emit (o := .wild) rfl).group

theorem startSlot_does : Does P s (startSlot P g s i) := by
  unfold startSlot
  split
  · exact .spawn ..
  · exact .refl
  · exact Does.refl.emit (o := .wild) rfl

theorem updateInstances_does {u : Server × Bool} (h : Does P s u.1) :
    Does P s (updateInstances P cc g u).1 := by
  unfold updateInstances resizeGroup
  dsimp only
  split
  · split
    · exact Does.loop (fun _ _ => growSlot_does) _ (h.slog.group.record rfl)
    · exact (Does.loop (fun _ _ => shrinkSlot_does) _ h.slog).group.record rfl
  · exact h

theorem updateStatus_does {u : Server × Bool} (h : Does P s u.1) :
    Does P s (updateStatus P cc g u).1 := by
  unfold updateStatus
  dsimp only
  split
  · refine Does.notify (Does.record (Does.group ?_) rfl)
    split
    · exact Does.loop (fun _ _ => startSlot_does) _ h.slog.group
    · exact h.slog.group
  · exact h

theorem updateGroup_does : Does P s (updateGroup P cc g s).1 := by
  have htexts : Does P s (updateStrings P cc g (s, false)).1 :=
    updateStr_does (updateStr_does (updateStr_does (updateStr_does (updateStr_does .refl))))
  exact updateAge_does (updateStatus_does (updateInstances_does (updateKillsig_does htexts)))

theorem cUpdt_does : Does P s (cUpdt P s con buf).1 := by
  unfold cUpdt
  split
  · exact Does.refl.slog.reply
  · split
    · exact Does.refl.reply
    · split
      · exact Does.refl.reply
      · dsimp only
        refine Does.success ?_
        split
        · exact updateGroup_does.notify
        · exact updateGroup_does

theorem runCommand_does {c : Command} : Does P s (runCommand P c s con buf).1 := by
  cases c with
  | dele => exact cDele_does
  | dump => exact Does.io .refl (.cDump .refl other_writes)
  | exit => exact cExit_does
  | getc => exact withNamedGroup_does fun _ _ => Does.refl.reply
  | helo => exact Does.refl.reply
  | kill => exact cKill_does
  | list => exact Does.refl.reply
  | pids => exact withNamedGroup_does fun _ _ => Does.refl.unset.reply
  | read => exact cRead_does
  | spwn => exact cSpwn_does
  | subs => exact cSubs_does
  | updt => exact cUpdt_does

theorem runServerCommand_does {payload : Bytes} :
    Does P s (UbervisorCommands.runServerCommand P s con payload) := by
  unfold UbervisorCommands.runServerCommand
  split
  · dsimp only
    split
    · exact runCommand_does
    · exact runCommand_does.drop
  · exact Does.refl.drop

theorem loadGroups_does (l : List Json) (s : Server) : Does P s (loadGroups P l s).1 := by
  fun_induction loadGroups P l s with
  | case1 s => exact .refl
  | case2 => exact .refl
  | case3 => exact .refl
  | case4 => exact Does.refl.slog.then (.rest rfl rfl rfl rfl rfl)
  | case5 fields ts s cc hcc hcmd s' cc' hneg ih =>
    have hlog : Does P s s' := Does.refl.slog
    refine (hlog.trans ?_).trans ih
    unfold loadGroup
    dsimp only
    split
    · exact (insertGroup_does _).trans spawnRange_does
    · exact insertGroup_does _
  | case6 => exact .refl

theorem loadDump_does (file : Option Bytes) : Does P s (loadDump P s file).1 := by
  unfold loadDump
  split
  · exact .refl
  · exact .refl
  · split
    · exact loadGroups_does _ s
    · exact .refl

end Commands

section Starts

variable {P : Platform} {s u : Server} {site : SpawnSite} {g : GroupId} {i : ℕ}

/-- What `spawn` comes to, by the results `o` of its calls. -/
inductive SpawnResult (site : SpawnSite) (g : GroupId) (i : ℕ) (o : SpawnOutcome)
    (s u : Server) : Prop where
  | failed (none : o.socketpair = none ∨ s.reg.kernel.fork o.fork = none) (reg : u.reg = s.reg)
      (hist : u.hist = s.hist ++ [.spawnFailed site g i])
      (out : u.io.out = s.io.out ++ (o.socketpair.map fun ab => .socketpair ab.1 ab.2).toList)
  | started (a b : Fd) (k : Kernel) (pr : Process) (l : List Output)
      (pair : o.socketpair = some (a, b)) (reg : u.reg = s.reg.startProcess k pr g i)
      (age : pr.pAge = (s.reg.groups g).ccAge) (start : pr.pStart = s.clock)
      (terminated : pr.pTerminated = false) (sockbuf : pr.pChildSockbuf = (o.bufNew && o.bufEnable))
      (sock : pr.pChildSock = a)
      (hist : u.hist = s.hist ++ [.spawned site g i s.reg.nextProc pr.pPid])
      (out : u.io.out = s.io.out ++ ([.socketpair a b, .close b] ++
        (if o.bufNew && !o.bufEnable then [.close a] else []) ++ l))
      (log : ∀ x ∈ l, isLog x = true)

theorem spawn_result (P : Platform) (site : SpawnSite) (s : Server) (g : GroupId) (i : ℕ) :
    SpawnResult site g i (s.spawns.headD .failed) s (spawn P site s g i) ∧
      Consumes s (spawn P site s g i) := by
  unfold spawn takeOutcome
  dsimp only
  split
  · rename_i hpair
    exact ⟨.failed (.inl hpair) rfl rfl (by rw [hpair]; exact (List.append_nil _).symm),
      .tail rfl rfl⟩
  · rename_i a b hpair
    split
    · rename_i hf
      exact ⟨.failed (.inr hf) rfl rfl (by rw [hpair]; rfl), .tail rfl rfl⟩
    · rename_i pid k hf
      refine ⟨?_, .head rfl hf rfl⟩
      have hslog : ∀ (msg : Bytes) (io : Io),
          IoOutputs (fun x => isLog x = true) io (Io.slog P s.clock 2 msg io) :=
        fun _ _ => .slog .refl fun _ h => h
      obtain ⟨l, hl, hlog⟩ := hslog (text "[process_start] " ++ (s.reg.groups g).ccName.bytes ++
          text " pid: " ++ natText pid.toNat ++ text "\n")
        (if (s.spawns.headD .failed).bufNew && !(s.spawns.headD .failed).bufEnable
          then ((s.io.emit (.socketpair a b)).emit (.close b)).emit (.close a)
          else (s.io.emit (.socketpair a b)).emit (.close b))
      refine .started a b k _ l hpair rfl rfl rfl rfl rfl rfl rfl ?_ hlog
      refine hl.trans ?_
      split <;> simp [Io.emit]

end Starts

section Ticks

variable {P : Platform} {s u : Server}

theorem Same.slog (h : Same s u) {msg : Bytes} : Same s (UbervisorServer.slog P u msg) :=
  h.trans (.withIo (.slog .refl log_other))

theorem Same.emit (h : Same s u) {o : Output} (ho : Other o) :
    Same s (UbervisorServer.emit u o) := h.trans (.withIo (.emit .refl ho))

/-- A tick changes nothing of the processes, or that the process has been signalled. -/
theorem heartbeatCb_same (P : Platform) (s : Server) (p : ProcId) :
    ∃ x, Same s x ∧
      (heartbeatCb P s p = x ∧ ((s.reg.procs p).pAge > 0 ∧
          s.clock - (s.reg.procs p).pStart > (s.reg.procs p).pAge →
          (s.reg.procs p).pTerminated = true) ∨
        heartbeatCb P s p =
          x.withReg (fun r => r.setProc p fun pr => { pr with pTerminated := true }) ∧
          (s.reg.procs p).pAge > 0 ∧
          s.clock - (s.reg.procs p).pStart > (s.reg.procs p).pAge) := by
  have hfork := forkCommand_same s
  unfold heartbeatCb
  dsimp only
  split
  · rename_i hlate
    cases hterm : (s.reg.procs p).pTerminated with
    | true => exact ⟨_, Same.refl.slog.emit (o := .kill ..) rfl, .inl ⟨rfl, fun _ => rfl⟩⟩
    | false => exact ⟨_, Same.refl.slog.emit (o := .kill ..) rfl, .inr ⟨rfl, hlate⟩⟩
  · rename_i hyoung
    split
    · exact ⟨s, .refl, .inl ⟨rfl, fun h => absurd h hyoung⟩⟩
    · split
      · exact ⟨s, .refl, .inl ⟨rfl, fun h => absurd h hyoung⟩⟩
      · split
        · rename_i v hv
          rw [hv] at hfork
          exact ⟨_, hfork.slog, .inl ⟨rfl, fun h => absurd h hyoung⟩⟩
        · rename_i v hv
          rw [hv] at hfork
          exact ⟨_, hfork.emit (o := .exec _) rfl, .inl ⟨rfl, fun h => absurd h hyoung⟩⟩

end Ticks

section Steps

variable {P : Platform} {s u : Server} {e : Event} {p : ProcId}

/-- Time passes, or a child terminates. -/
structure Idle (s u : Server) : Prop where
  procs : u.reg.procs = s.reg.procs
  next : u.reg.nextProc = s.reg.nextProc
  table : u.reg.processHash = s.reg.processHash
  hist : u.hist = s.hist
  out : u.io.out = s.io.out

/-- `sigchld_cb` up to the point where the process is freed. -/
def forgotten (P : Platform) (s : Server) (p : ProcId) : Server :=
  let pr := s.reg.procs p
  let ccName := pr.pChildConfig.map fun g => (s.reg.groups g).ccName
  let s := slog P s (text "[process_exit] " ++ optText ccName ++ text " pid: " ++
    natText pr.pPid.toNat ++ text "\n")
  let s := s.withReg fun r => r.processRemove p
  let s := { s with timers := s.timers.filter (· ≠ p) }
  s.withIo fun io => if pr.pChildSockbuf then io.emit (.close pr.pChildSock) else io

theorem processExit_does (P : Platform) (s : Server) (p : ProcId) (ret : WaitStatus) :
    Does P (forgotten P s p) (processExit P s p ret) := by
  unfold processExit
  dsimp only
  split
  · exact Does.refl.record rfl
  · exact groupExit_does

/-- The process is out of the table, and its descriptor is closed if it was open. -/
structure Forgets (p : ProcId) (k : Kernel) (s u : Server) : Prop where
  kernel : u.reg.kernel = k
  procs : u.reg.procs = s.reg.procs
  next : u.reg.nextProc = s.reg.nextProc
  tracked : ∀ q, u.reg.Tracked q ↔ q ≠ p ∧ s.reg.Tracked q
  spawns : u.spawns = s.spawns
  hist : u.hist = s.hist
  out : ∃ l, u.io.out = s.io.out ++ l ∧ l.flatMap fdUse =
    if (s.reg.procs p).pChildSockbuf then [.release (s.reg.procs p).pChildSock] else []

theorem flatMap_other {l : List Output} (h : ∀ o ∈ l, Other o) : l.flatMap fdUse = [] :=
  List.flatMap_eq_nil_iff.mpr h

theorem forgotten_forgets (hl : Linked s.reg) (ht : s.reg.Tracked p) (k : Kernel) :
    Forgets p k s (forgotten P (s.withReg fun r => r.setKernel k) p) := by
  generalize hx : (s.withReg fun r => r.setKernel k) = x
  have hprocs : x.reg.procs = s.reg.procs := by rw [← hx]; rfl
  have hio : x.io = s.io := by rw [← hx]; rfl
  refine ⟨by rw [← hx]; rfl, hprocs, by rw [← hx]; rfl, fun q => ?_, by rw [← hx]; rfl,
    by rw [← hx]; rfl, ?_⟩
  · have h : (s.reg.processRemove p).Tracked q ↔ q ≠ p ∧ s.reg.Tracked q :=
      tracked_processRemove hl ht
    rw [← hx]
    exact h
  · obtain ⟨msg, hmsg⟩ : ∃ msg, (forgotten P x p).io =
        (if (x.reg.procs p).pChildSockbuf then
          (Io.slog P x.clock 2 msg x.io).emit (.close (x.reg.procs p).pChildSock)
        else Io.slog P x.clock 2 msg x.io) := ⟨_, rfl⟩
    have hslog : IoOutputs Other x.io (Io.slog P x.clock 2 msg x.io) := .slog .refl log_other
    obtain ⟨l, hlog, hother⟩ := hslog
    have hnone := flatMap_other hother
    rw [hmsg, hprocs]
    split
    · refine ⟨l ++ [.close (s.reg.procs p).pChildSock], ?_, ?_⟩
      · rw [Io.emit, hlog, hio, List.append_assoc]
      · rw [List.flatMap_append, hnone]
        rfl
    · exact ⟨l, by rw [hlog, hio], hnone⟩

/-- The process whose timer or socket a callback belongs to. -/
def owner : Event → Option ProcId
  | .callback (.heartbeat p) _ | .callback (.childError p) _ => some p
  | _ => none

/-- What a step does to processes. -/
inductive Move (P : Platform) (s : Server) (e : Event) (u : Server) : Prop where
  | idle (he : owner e = none) (h : Idle s u)
  | handler (c : Callback) (o : Oracle) (he : e = .callback c o) (hc : owner e = none)
      (hw : c.isTurn = false) (h : Does P (install s o) u)
  | heartbeat (p : ProcId) (o : Oracle) (he : e = .callback (.heartbeat p) o)
      (h : u = heartbeatCb P (install s o) p)
  | childError (p : ProcId) (o : Oracle) (he : e = .callback (.childError p) o)
      (h : u = childErrorCb (install s o) p)
  | reap (p : ProcId) (pid : Pid) (ret : WaitStatus) (k : Kernel) (o : Oracle)
      (he : e = .callback .waitpid o) (ht : s.reg.Tracked p)
      (hw : s.reg.kernel.waitpid = some (pid, ret, k)) (x : Server)
      (hx : Forgets p k (install s o) x) (h : Does P x u)

theorem sigchldTurn_move {o : Oracle} (hl : Linked s.reg) :
    Move P s (.callback .waitpid o) (sigchldTurn P (install s o)) := by
  unfold sigchldTurn
  split
  · exact .idle rfl ⟨rfl, rfl, rfl, rfl, rfl⟩
  · rename_i pid ret k hw
    dsimp only
    split
    · exact .idle rfl ⟨rfl, rfl, rfl, rfl, rfl⟩
    · rename_i p hfind
      have ht : (install s o).reg.Tracked p := (hl.find_pid hfind).1
      have hl' : Linked (install s o).reg := hl
      exact .reap p pid ret k o rfl ht hw _ (forgotten_forgets hl' ht k)
        (processExit_does P _ p ret)

theorem step_move (hl : Linked s.reg) (h : Step P s e u) : Move P s e u := by
  obtain ⟨-, rfl⟩ := h
  cases e with
  | clock t => exact .idle rfl ⟨rfl, rfl, rfl, rfl, rfl⟩
  | childExit pid ret pos => exact .idle rfl ⟨rfl, rfl, rfl, rfl, rfl⟩
  | callback c o =>
    have hdoes : owner (.callback c o) = none → c.isTurn = false → ∀ {v : Server},
        Does P (install s o) v → Move P s (.callback c o) v :=
      fun hc hw _ hv => .handler c o rfl hc hw hv
    cases c with
    | accept a =>
      refine hdoes rfl rfl ?_
      cases a with
      | again => exact .refl
      | failed => exact Does.refl.slog
      | noBuffer => exact Does.refl.slog
      | noEnable => exact Does.refl.slog
      | connected con =>
        exact Does.io (k := fun io => { io with clients := ⟨con, 0, []⟩ :: io.clients }) .refl
          (IoOutputs.same .refl rfl)
    | request con cid payload =>
      refine hdoes rfl rfl ?_
      have hcid : Does P (install s o) ((install s o).withIo (setCid con cid)) :=
        Does.io .refl (IoOutputs.same .refl rfl)
      exact Does.io (k := setCid con 0) (hcid.trans runServerCommand_does)
        (IoOutputs.same .refl rfl)
    | badLength con tooLarge => exact hdoes rfl rfl Does.refl.slog.drop
    | error con => exact hdoes rfl rfl Does.refl.drop
    | loadDump file =>
      refine hdoes rfl rfl ?_
      have hload : Does P (install s o) (loadDump P (install s o) file).1 := loadDump_does file
      change Does P _ (loadDumpCb P _ file)
      unfold loadDumpCb
      split
      · rename_i v hv
        rw [hv] at hload
        exact hload
      · rename_i v hv
        rw [hv] at hload
        exact hload.then (.rest rfl rfl rfl rfl rfl)
    | loadNewest file => exact hdoes rfl rfl (loadDump_does file)
    | sigchld => exact hdoes rfl rfl (.same (.rest rfl rfl rfl rfl rfl))
    | waitpid => exact sigchldTurn_move hl
    | sighup reopened =>
      refine hdoes rfl rfl ?_
      cases reopened with
      | true => exact Does.refl.slog
      | false => exact Does.refl.slog.slog
    | heartbeat p => exact .heartbeat p o rfl rfl
    | childRead p buf => exact hdoes rfl rfl Does.refl.slog
    | childError p => exact .childError p o rfl rfl

end Steps

end UbervisorHandlerSteps
