import Ubervisor.HandlerSteps
import Ubervisor.Signalling

/-! # The age of processes

`heartbeat_cb` ends processes that are older than the limit of their group was when they were
started: first with the signal of the group, then with SIGKILL. -/
namespace UbervisorAgeLimits

open UbervisorRuns
open UbervisorValues
open UbervisorChildConfigs
open UbervisorKernel
open UbervisorRegistry
open UbervisorServer
open UbervisorEvents
open UbervisorSupervision
open UbervisorEffects
open UbervisorOutputs
open UbervisorTranscripts
open UbervisorSignalling
open UbervisorJsonC
open UbervisorHandlerSteps

section Limits

def uptime (s : Server) (p : ProcId) : ℤ := s.clock - (s.reg.procs p).pStart

/-- The process has a limit and is older. -/
def Late (s : Server) (p : ProcId) : Prop :=
  0 < (s.reg.procs p).pAge ∧ (s.reg.procs p).pAge < uptime s p

instance (s : Server) (p : ProcId) : Decidable (Late s p) := inferInstanceAs (Decidable (_ ∧ _))

/-- The signal of the group of the process, while it has one. -/
def groupSignal (s : Server) (p : ProcId) : ℤ :=
  ((s.reg.procs p).pChildConfig.map fun g => (s.reg.groups g).ccKillsig).getD sigterm

/-- A tick of the heartbeat timer of the process. -/
def tick (p : ProcId) (o : Oracle) : Event := .callback (.heartbeat p) o

/-- The process whose timer ticks. -/
def ticking : Event → Option ProcId
  | .callback (.heartbeat p) _ => some p
  | _ => none

/-- The number of ticks at which the process is too old. -/
def lateTicks (p : ProcId) (s : Server) (e : Event) (_ : Server) : ℕ :=
  if ticking e = some p ∧ Late s p then 1 else 0

/-- The clock is not set back. -/
def Forward (s : Server) (_ : Event) (u : Server) : Prop := s.clock ≤ u.clock

instance (s : Server) (e : Event) (u : Server) : Decidable (Forward s e u) :=
  inferInstanceAs (Decidable (_ ≤ _))

/-- What is due of a process after `n` ticks at which it was too old. -/
structure Enforced (P : Platform) (p : ProcId) (s : Server) (n : ℕ) : Prop where
  young : ∀ o u, Step P s (tick p o) u → uptime s p ≤ (s.reg.procs p).pAge →
    (newOut s u).filterMap signalOf = []
  first : ∀ o u, Step P s (tick p o) u → (s.reg.procs p).pAge < uptime s p → n = 0 →
    (newOut s u).filterMap signalOf = [((s.reg.procs p).pPid, groupSignal s p)]
  later : ∀ o u, Step P s (tick p o) u → 0 < n → (s.reg.procs p).pAge < uptime s p ∧
    (newOut s u).filterMap signalOf = [((s.reg.procs p).pPid, sigkill)]
  silent : ∀ o u, Step P s (tick p o) u → (s.reg.procs p).pAge < uptime s p →
    ∀ args, .exec args ∉ newOut s u
  kept : s.reg.Tracked p → ∀ v, Execution (Step P) Always s v →
    (v.reg.procs p).pAge = (s.reg.procs p).pAge ∧ (v.reg.procs p).pStart = (s.reg.procs p).pStart
  reaped : ∀ e u ret, Step P s e u → reaped s e = some (p, ret) →
    ∀ v, Execution (Step P) Always u v → ∀ o w, ¬ Step P v (tick p o) w

end Limits

section Lasting

variable {P : Platform} {s u v : Server} {e : Event} {p : ProcId}

/-- Processes keep their start and their limit, and new ones have not been signalled. -/
structure Lasting (s u : Server) : Prop where
  next : s.reg.nextProc ≤ u.reg.nextProc
  age : ∀ q < s.reg.nextProc, (u.reg.procs q).pAge = (s.reg.procs q).pAge
  start : ∀ q < s.reg.nextProc, (u.reg.procs q).pStart = (s.reg.procs q).pStart
  terminated : ∀ q < s.reg.nextProc, (u.reg.procs q).pTerminated = (s.reg.procs q).pTerminated
  new : ∀ q < u.reg.nextProc, s.reg.nextProc ≤ q → (u.reg.procs q).pTerminated = false

theorem Lasting.of_eq (hp : u.reg.procs = s.reg.procs) (hn : u.reg.nextProc = s.reg.nextProc) :
    Lasting s u where
  next := hn.ge
  age q _ := by rw [hp]
  start q _ := by rw [hp]
  terminated q _ := by rw [hp]
  new q hq hs := absurd (hn ▸ hq) (Nat.not_lt.mpr hs)

theorem Lasting.trans (h : Lasting s u) (k : Lasting u v) : Lasting s v where
  next := h.next.trans k.next
  age q hq := (k.age q (hq.trans_le h.next)).trans (h.age q hq)
  start q hq := (k.start q (hq.trans_le h.next)).trans (h.start q hq)
  terminated q hq := (k.terminated q (hq.trans_le h.next)).trans (h.terminated q hq)
  new q hv hs := by
    rcases Nat.lt_or_ge q u.reg.nextProc with hu | hu
    · exact (k.terminated q hu).trans (h.new q hu hs)
    · exact k.new q hv hu

theorem setProc_lasting {f : Process → Process} (ha : ∀ pr, (f pr).pAge = pr.pAge)
    (hs : ∀ pr, (f pr).pStart = pr.pStart) (ht : ∀ pr, (f pr).pTerminated = pr.pTerminated)
    (s : Server) (p : ProcId) : Lasting s (s.withReg fun r => r.setProc p f) where
  next := le_rfl
  age q _ := setProc_keeps (r := s.reg) Process.pAge ha q
  start q _ := setProc_keeps (r := s.reg) Process.pStart hs q
  terminated q _ := setProc_keeps (r := s.reg) Process.pTerminated ht q
  new _ hq hn := absurd hq (Nat.not_lt.mpr hn)

theorem spawn_lasting (site : SpawnSite) (s : Server) (g : GroupId) (i : ℕ) :
    Lasting s (spawn P site s g i) := by
  obtain ⟨hr, -⟩ := spawn_result P site s g i
  cases hr with
  | failed _ reg _ _ => exact .of_eq (by rw [reg]) (by rw [reg])
  | started a b k pr l _ reg _ _ terminated _ _ _ _ _ =>
    have hother : ∀ q < s.reg.nextProc,
        (spawn P site s g i).reg.procs q = s.reg.procs q := by
      intro q hq
      rw [reg]
      exact insertProc_of_ne hq.ne
    have hnext : (spawn P site s g i).reg.nextProc = s.reg.nextProc + 1 := by
      rw [reg]
      rfl
    refine ⟨hnext ▸ Nat.le_succ _, fun q hq => by rw [hother q hq], fun q hq => by rw [hother q hq],
      fun q hq => by rw [hother q hq], fun q hq hs => ?_⟩
    have he : q = s.reg.nextProc := by
      rw [hnext] at hq
      exact Nat.le_antisymm (Nat.lt_succ_iff.mp hq) hs
    rw [reg, he]
    exact (congrArg Process.pTerminated insertProc_self).trans terminated

/-- The limit of a new process is the one of its group. -/
theorem spawn_age {site : SpawnSite} {g : GroupId} {i : ℕ}
    (h : s.reg.nextProc < (spawn P site s g i).reg.nextProc) :
    ((spawn P site s g i).reg.procs s.reg.nextProc).pAge = (s.reg.groups g).ccAge ∧
      ((spawn P site s g i).reg.procs s.reg.nextProc).pStart = s.clock := by
  obtain ⟨hr, -⟩ := spawn_result P site s g i
  cases hr with
  | failed _ reg _ _ =>
    rw [reg] at h
    exact absurd h (lt_irrefl _)
  | started a b k pr l _ reg age start _ _ _ _ _ _ =>
    rw [reg]
    exact ⟨(congrArg Process.pAge insertProc_self).trans age,
      (congrArg Process.pStart insertProc_self).trans start⟩

theorem does_lasting (h : Does P s u) : Lasting s u := by
  induction h with
  | same h => exact .of_eq h.procs h.next
  | orphan s p => refine setProc_lasting ?_ ?_ ?_ s p <;> exact fun _ => rfl
  | spawn site s g i => exact spawn_lasting site s g i
  | trans _ _ ih₁ ih₂ => exact ih₁.trans ih₂

end Lasting

section Ticks

variable {P : Platform} {s u : Server} {p q : ProcId}

/-- A tick at which the process is too old: one signal, and lines of the log. -/
theorem heartbeatCb_late (h : Late s p) : ∃ l,
    (heartbeatCb P s p).io.out = s.io.out ++ (l ++ [.kill (s.reg.procs p).pPid
      (if (s.reg.procs p).pTerminated then sigkill else groupSignal s p)]) ∧
    ∀ o ∈ l, isLog o = true := by
  obtain ⟨msg, hout⟩ : ∃ msg, (heartbeatCb P s p).io.out =
      (Io.slog P s.clock 2 msg s.io).out ++ [.kill (s.reg.procs p).pPid
        (if (s.reg.procs p).pTerminated then sigkill else groupSignal s p)] := by
    unfold heartbeatCb
    dsimp only
    have hlate : (s.reg.procs p).pAge > 0 ∧
      s.clock - (s.reg.procs p).pStart > (s.reg.procs p).pAge := h
    rw [if_pos hlate]
    split
    · exact ⟨_, rfl⟩
    · exact ⟨_, rfl⟩
  have hslog : IoOutputs (fun o => isLog o = true) s.io (Io.slog P s.clock 2 msg s.io) :=
    .slog .refl fun _ h => h
  obtain ⟨l, hl, hlog⟩ := hslog
  exact ⟨l, by rw [hout, hl, List.append_assoc], hlog⟩

theorem heartbeatCb_young (h : ¬ Late s p) :
    IoOutputs (Silent signalOf) s.io (heartbeatCb P s p).io := by
  have hyoung : ¬ ((s.reg.procs p).pAge > 0 ∧
    s.clock - (s.reg.procs p).pStart > (s.reg.procs p).pAge) := h
  have hf : Outputs (Silent signalOf) s (forkCommand s).2 := forkCommand_outputs
  unfold heartbeatCb
  dsimp only
  rw [if_neg hyoung]
  split
  · exact .refl
  · split
    · exact .refl
    · split
      · rename_i v hv
        rw [hv] at hf
        exact (hf.slog signalOf_permits).out
      · rename_i v hv
        rw [hv] at hf
        exact (hf.emit signalOf_permits rfl).out

/-- A tick changes nothing of the processes, or that the process has been signalled. -/
theorem heartbeatCb_procs (P : Platform) (s : Server) (p : ProcId) :
    (heartbeatCb P s p).reg.nextProc = s.reg.nextProc ∧
      ((heartbeatCb P s p).reg.procs = s.reg.procs ∧
          (Late s p → (s.reg.procs p).pTerminated = true) ∨
        (heartbeatCb P s p).reg.procs =
          (s.reg.setProc p fun pr => { pr with pTerminated := true }).procs ∧ Late s p) := by
  obtain ⟨x, hx, ⟨hu, hterm⟩ | ⟨hu, hlate⟩⟩ := heartbeatCb_same P s p
  · rw [hu]
    exact ⟨hx.next, .inl ⟨hx.procs, hterm⟩⟩
  · rw [hu]
    refine ⟨hx.next, .inr ⟨?_, hlate⟩⟩
    exact congrArg (fun procs => Function.update procs p { procs p with pTerminated := true })
      hx.procs

end Ticks

section Steps

variable {P : Platform} {s u : Server} {e : Event} {p : ProcId} {n : ℕ}

/-- What a step does to the limit of a process. -/
structure StepLimits (p : ProcId) (s : Server) (e : Event) (u : Server) : Prop where
  next : s.reg.nextProc ≤ u.reg.nextProc
  age : p < s.reg.nextProc → (u.reg.procs p).pAge = (s.reg.procs p).pAge
  start : p < s.reg.nextProc → (u.reg.procs p).pStart = (s.reg.procs p).pStart
  terminated : p < s.reg.nextProc → ((u.reg.procs p).pTerminated = true ↔
    (s.reg.procs p).pTerminated = true ∨ ticking e = some p ∧ Late s p)
  new : p < u.reg.nextProc → s.reg.nextProc ≤ p → (u.reg.procs p).pTerminated = false

theorem StepLimits.of_lasting (h : Lasting s u) (he : ticking e ≠ some p) :
    StepLimits p s e u where
  next := h.next
  age := h.age p
  start := h.start p
  terminated hp := by
    rw [h.terminated p hp]
    exact (or_iff_left fun ht => he ht.1).symm
  new := h.new p

theorem heartbeat_limits (q : ProcId) (o : Oracle) :
    StepLimits p s (tick q o) (heartbeatCb P (install s o) q) := by
  obtain ⟨hnext, hprocs⟩ := heartbeatCb_procs P (install s o) q
  have hlate : Late (install s o) q ↔ Late s q := Iff.rfl
  have hold : ∀ {u : Server}, u.reg.nextProc = s.reg.nextProc → p < u.reg.nextProc →
      s.reg.nextProc ≤ p → (u.reg.procs p).pTerminated = false :=
    fun hu hp hs => absurd (hu ▸ hp) (Nat.not_lt.mpr hs)
  generalize heartbeatCb P (install s o) q = u at hnext hprocs
  rcases hprocs with ⟨hprocs, hterm⟩ | ⟨hprocs, hl⟩
  · have hsame : u.reg.procs p = s.reg.procs p := congrFun hprocs p
    refine ⟨hnext.ge, fun _ => by rw [hsame], fun _ => by rw [hsame], fun _ => ?_, hold hnext⟩
    rw [hsame]
    refine (or_iff_left_of_imp fun ht => ?_).symm
    obtain rfl : q = p := Option.some.inj ht.1
    exact hterm ht.2
  · have hkeeps : ∀ {α : Type} (get : Process → α),
        (∀ pr : Process, get { pr with pTerminated := true } = get pr) →
        get (u.reg.procs p) = get (s.reg.procs p) := by
      intro α get hget
      rw [hprocs]
      exact setProc_keeps (r := s.reg) get hget p
    refine ⟨hnext.ge, fun _ => hkeeps Process.pAge fun _ => rfl,
      fun _ => hkeeps Process.pStart fun _ => rfl, fun _ => ?_, hold hnext⟩
    by_cases hq : q = p
    · subst hq
      have hset : (u.reg.procs q).pTerminated = true := by
        rw [hprocs]
        exact congrArg Process.pTerminated (Function.update_self q _ s.reg.procs)
      exact iff_of_true hset (.inr ⟨rfl, hl⟩)
    · have hne : u.reg.procs p = s.reg.procs p := by
        rw [hprocs]
        exact Function.update_of_ne (Ne.symm hq) _ s.reg.procs
      rw [hne]
      exact (or_iff_left fun ht => hq (Option.some.inj ht.1)).symm

theorem ticking_owner (h : ticking e = some p) : owner e = some p := by
  unfold ticking at h
  split at h
  · exact h
  · cases h

theorem step_limits (hl : Linked s.reg) (h : Step P s e u) : StepLimits p s e u := by
  cases step_move hl h with
  | idle he hi =>
    exact .of_lasting (.of_eq hi.procs hi.next) fun ht => nomatch he.symm.trans (ticking_owner ht)
  | handler c o he hc hw hd =>
    have hinstall : Lasting s (install s o) := .of_eq rfl rfl
    exact .of_lasting (hinstall.trans (does_lasting hd)) fun ht =>
      nomatch hc.symm.trans (ticking_owner ht)
  | heartbeat q o he hu =>
    subst he hu
    exact heartbeat_limits q o
  | childError q o he hu =>
    subst he hu
    refine .of_lasting ?_ nofun
    unfold childErrorCb
    dsimp only
    split
    · have hclose : Lasting s
          (emit (install s o) (.close ((install s o).reg.procs q).pChildSock)) :=
        .of_eq rfl rfl
      refine hclose.trans (setProc_lasting ?_ ?_ ?_ _ q) <;> exact fun _ => rfl
    · exact .of_eq rfl rfl
  | reap q pid ret k o he ht hw x hx hd =>
    subst he
    have hforgets : Lasting s x := .of_eq hx.procs hx.next
    exact .of_lasting (hforgets.trans (does_lasting hd)) nofun

end Steps

section Runs

variable {P : Platform} {s u v : Server} {e : Event} {p : ProcId} {n : ℕ} {o : Oracle}

/-- A process has been signalled at the first tick at which it was too old, and stays too old. -/
structure Counted (p : ProcId) (s : Server) (n : ℕ) : Prop where
  fresh : s.reg.nextProc ≤ p → n = 0
  terminated : p < s.reg.nextProc → ((s.reg.procs p).pTerminated = true ↔ 0 < n)
  late : 0 < n → 0 < (s.reg.procs p).pAge → Late s p

theorem tick_known (h : Reachable P s) (hstep : Step P s (tick p o) u) : p < s.reg.nextProc := by
  have hl : Linked s.reg := ReachableBy.linked h
  exact hl.tracked_lt (reachable_timers h p hstep.1.2.2)

theorem ticking_known (h : Reachable P s) (hstep : Step P s e u) (ht : ticking e = some p) :
    p < s.reg.nextProc := by
  cases e with
  | clock t => cases ht
  | childExit pid ret pos => cases ht
  | callback c o =>
    cases c <;> try cases ht
    exact tick_known h hstep

theorem step_counted (h : Reachable P s) (hstep : Step P s e u) (hf : Forward s e u)
    (hc : Counted p s n) : Counted p u (n + lateTicks p s e u) := by
  have hl : Linked s.reg := ReachableBy.linked h
  have hlim := step_limits (p := p) hl hstep
  have hticks : 0 < lateTicks p s e u ↔ ticking e = some p ∧ Late s p := by
    unfold lateTicks
    split <;> simp [*]
  have hzero : s.reg.nextProc ≤ p → n + lateTicks p s e u = 0 := fun hp => by
    have hno : ¬ 0 < lateTicks p s e u := fun ht =>
      Nat.not_lt.mpr hp (ticking_known h hstep (hticks.mp ht).1)
    rw [hc.fresh hp, Nat.zero_add]
    omega
  refine ⟨fun hp => hzero (hlim.next.trans hp), fun hp => ?_, fun hn hage => ?_⟩
  · rcases Nat.lt_or_ge p s.reg.nextProc with hs | hs
    · rw [hlim.terminated hs, hc.terminated hs, ← hticks]
      omega
    · rw [hlim.new hp hs, hzero hs]
      simp
  · have hs : p < s.reg.nextProc := by
      by_contra hge
      rw [hzero (Nat.not_lt.mp hge)] at hn
      exact absurd hn (lt_irrefl 0)
    rw [hlim.age hs] at hage
    have hlate : Late s p := by
      rcases Nat.eq_zero_or_pos n with rfl | hpos
      · rw [Nat.zero_add] at hn
        exact (hticks.mp hn).2
      · exact hc.late hpos hage
    have hclock : s.clock ≤ u.clock := hf
    refine ⟨by rwa [hlim.age hs], ?_⟩
    have hup := hlate.2
    unfold uptime at hup ⊢
    rw [hlim.age hs, hlim.start hs]
    omega

theorem totals_counted {a b : Bool} {t : ℤ}
    (h : Totals (Step P) Forward (lateTicks p) (initial a b t) s n) :
    Reachable P s ∧ Counted p s n := by
  generalize hs₀ : initial a b t = s₀ at h
  induction h with
  | refl =>
    subst hs₀
    refine ⟨⟨a, b, t, .refl _⟩, fun _ => rfl, fun hp => ?_, fun hn => absurd hn (lt_irrefl 0)⟩
    exact absurd hp (Nat.not_lt_zero p)
  | tail _ hstep hf ih =>
    obtain ⟨hr, hc⟩ := ih
    exact ⟨hr.step hstep trivial, step_counted hr hstep hf hc⟩

/-- Processes keep their limits as long as the server runs. -/
theorem run_limits (h : Reachable P s) (hp : p < s.reg.nextProc)
    (hrun : Execution (Step P) Always s v) :
    (v.reg.procs p).pAge = (s.reg.procs p).pAge ∧
      (v.reg.procs p).pStart = (s.reg.procs p).pStart := by
  have hl : Linked s.reg := ReachableBy.linked h
  have hkept := hrun.invariant_under (I := fun x => Linked x.reg)
    (P := fun x => p < x.reg.nextProc ∧ (x.reg.procs p).pAge = (s.reg.procs p).pAge ∧
      (x.reg.procs p).pStart = (s.reg.procs p).pStart)
    (fun _ _ _ hl hs _ => step_linked hl hs) (fun x e y hl ⟨hlt, hage, hstart⟩ hs _ => by
      have hlim := step_limits (p := p) hl hs
      exact ⟨hlt.trans_le hlim.next, (hlim.age hlt).trans hage, (hlim.start hlt).trans hstart⟩)
    hl ⟨hp, rfl, rfl⟩
  exact hkept.2

/-- A process that has left the table does not come back. -/
theorem run_forgotten (h : Reachable P s) (hp : p < s.reg.nextProc) (ht : ¬ s.reg.Tracked p)
    (hrun : Execution (Step P) Always s v) : Reachable P v ∧ ¬ v.reg.Tracked p := by
  have hkept := hrun.invariant
    (P := fun x => Reachable P x ∧ p < x.reg.nextProc ∧ ¬ x.reg.Tracked p)
    (fun x e y ⟨hr, hlt, hnot⟩ hs _ => by
      have ho := step_outputs (ReachableBy.linked hr) hs
      exact ⟨hr.step hs trivial, hlt.trans_le ho.older.fresh,
        fun hy => hnot (ho.older.tracked p hlt hy)⟩)
    ⟨h, hp, ht⟩
  exact ⟨hkept.1, hkept.2.2⟩

theorem reaped_tracked {ret : WaitStatus} (hl : Linked s.reg) (h : reaped s e = some (p, ret)) :
    s.reg.Tracked p := by
  unfold reaped at h
  split at h
  · obtain ⟨⟨pid, ret', k⟩, -, hfind⟩ := Option.bind_eq_some_iff.mp h
    obtain ⟨q, hq, he⟩ := Option.bind_eq_some_iff.mp hfind
    cases he
    exact (hl.find_pid hq).1
  · cases h

theorem tick_late (hlate : Late s p) (hstep : Step P s (tick p o) u) : ∃ l,
    newOut s u = l ++ [.kill (s.reg.procs p).pPid
      (if (s.reg.procs p).pTerminated then sigkill else groupSignal s p)] ∧
    ∀ o ∈ l, isLog o = true := by
  obtain ⟨-, rfl⟩ := hstep
  obtain ⟨l, hl, hlog⟩ := heartbeatCb_late (P := P) (s := install s o) hlate
  refine ⟨l, ?_, hlog⟩
  exact (congrArg (List.drop _) hl).trans List.drop_left

theorem tick_signals (hlate : Late s p) (hstep : Step P s (tick p o) u) :
    (newOut s u).filterMap signalOf = [((s.reg.procs p).pPid,
      if (s.reg.procs p).pTerminated then sigkill else groupSignal s p)] := by
  obtain ⟨l, hl, hlog⟩ := tick_late hlate hstep
  have hnone : l.filterMap signalOf = [] := by
    refine List.filterMap_eq_nil_iff.mpr fun x hx => ?_
    have hx' := hlog x hx
    cases x <;> first | rfl | nomatch hx'
  rw [hl, List.filterMap_append, hnone]
  rfl

/-- Ticks end a process that is too old, and none follows its end. -/
theorem reachable_enforced {a b : Bool} {t : ℤ}
    (h : Totals (Step P) Forward (lateTicks p) (initial a b t) s n)
    (hage : 0 < (s.reg.procs p).pAge) : Enforced P p s n := by
  obtain ⟨hr, hc⟩ := totals_counted h
  have hl : Linked s.reg := ReachableBy.linked hr
  refine ⟨fun o u hstep hup => ?_, fun o u hstep hup hn => ?_, fun o u hstep hn => ?_,
    fun o u hstep hup args hexec => ?_, fun ht v hrun => run_limits hr (hl.tracked_lt ht) hrun,
    fun e u ret hstep hreap v hrun o w hw => ?_⟩
  · obtain ⟨-, rfl⟩ := hstep
    have hyoung : ¬ Late (install s o) p := fun hlate => absurd hlate.2 (Int.not_lt.mpr hup)
    exact Reads.newOut (.silent ((heartbeatCb_young hyoung (P := P)).mono fun _ h => h))
  · have hterm : (s.reg.procs p).pTerminated = false := by
      rw [← Bool.not_eq_true, hc.terminated (tick_known hr hstep)]
      omega
    rw [tick_signals ⟨hage, hup⟩ hstep, hterm]
    rfl
  · have hlate := hc.late hn hage
    have hterm := (hc.terminated (tick_known hr hstep)).mpr hn
    refine ⟨hlate.2, ?_⟩
    rw [tick_signals hlate hstep, hterm]
    rfl
  · obtain ⟨l, hl, hlog⟩ := tick_late ⟨hage, hup⟩ hstep
    rw [hl] at hexec
    rcases List.mem_append.mp hexec with hm | hm
    · have hx := hlog _ hm
      cases hx
    · cases List.mem_singleton.mp hm
  · have ho := step_outputs hl hstep
    have hlt := hl.tracked_lt (reaped_tracked hl hreap)
    obtain ⟨hv, hnot⟩ := run_forgotten (hr.step hstep trivial) (hlt.trans_le ho.older.fresh)
      (ho.gone p ret hreap) hrun
    exact hnot (reachable_timers hv p hw.1.2.2)

/-- A group whose processes may run for a minute. -/
def limitRequest : Json :=
  .object [(text "name", .string (text "web")), (text "args", .array [.string (text "/bin/web")]),
    (text "status", .int 1), (text "age", .int 60)]

def limitPlatform : Platform := sample [printed limitRequest]

/-- The process is too old at the second tick. -/
def limitRun : List Event :=
  [connecting, asking "SPWN" limitRequest [100], .clock 160, tick 0 (starting []), .clock 165,
    tick 0 (starting [])]

theorem limitRun_enforced : Enforced limitPlatform 0
    (stateAfter (next limitPlatform) (initial false false 100) limitRun)
    (totalFrom (next limitPlatform) (lateTicks 0) (initial false false 100) 0 limitRun) := by
  have h : Admits Enabled (next limitPlatform) Forward (initial false false 100) limitRun := by
    decide +kernel
  exact reachable_enforced h.totals (by decide +kernel)

example :
    totalFrom (next limitPlatform) (lateTicks 0) (initial false false 100) 0 limitRun = 1 := by
  decide +kernel

end Runs

end UbervisorAgeLimits
