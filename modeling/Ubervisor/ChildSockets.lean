import Ubervisor.HandlerSteps
import Ubervisor.JsonC

/-! # The sockets of the children

`spawn` makes a pair of sockets, closes the end of the child, and leaves its own end to the process.
`child_error_cb` and `sigchld_cb` close it, whichever comes first. -/
namespace UbervisorChildSockets

open UbervisorRuns
open UbervisorValues
open UbervisorChildConfigs
open UbervisorKernel
open UbervisorRegistry
open UbervisorServer
open UbervisorEvents
open UbervisorSupervision
open UbervisorEffects
open UbervisorHandles
open UbervisorHandlerSteps
open UbervisorJsonC

section Sockets

/-- What the server has done with the descriptors of the sockets. -/
def fdUses (s : Server) : List (Use Fd) := s.io.out.flatMap fdUse

/-- The process can still write to the server through the socket. -/
def Holds (r : Registry) (p : ProcId) : Prop := r.Tracked p ∧ (r.procs p).pChildSockbuf = true

/-- Every descriptor has been closed once since it was made, or belongs to a process that has not
been handled. None is closed that is not open. -/
structure ClosedOnce (s : Server) : Prop where
  open' : ∃ l, held [] (fdUses s) = some l
  once : ∀ pre a post, fdUses s = pre ++ .acquire a :: post → releases a post = 1 ∨
    releases a post = 0 ∧ ∃ p, Holds s.reg p ∧ (s.reg.procs p).pChildSock = a

/-- The results of the system calls that a callback gets. -/
def resultsOf : Event → List SpawnOutcome
  | .callback _ o => o.spawns
  | _ => []

/-- The children there are when the calls are made. `waitpid` comes before. -/
def childrenAt (s : Server) : Event → Kernel
  | .callback .waitpid _ => (s.reg.kernel.waitpid.map fun w => w.2.2).getD s.reg.kernel
  | _ => s.reg.kernel

/-- Once there are sockets, `fork` succeeds and `bufferevent_new` as well. `fork` hands out no pid
twice. -/
def Succeeding (k : Kernel) (l : List SpawnOutcome) : Prop :=
  (∀ x ∈ l, x.socketpair ≠ none → (k.fork x.fork).isSome = true ∧ x.bufNew = true) ∧
    (l.filterMap SpawnOutcome.fork).Nodup

instance (k : Kernel) (l : List SpawnOutcome) : Decidable (Succeeding k l) :=
  inferInstanceAs (Decidable ((∀ x ∈ l, _) ∧ _))

def Tidy (s : Server) (e : Event) (_ : Server) : Prop :=
  Succeeding (childrenAt s e) (resultsOf e)

instance (s : Server) (e : Event) (u : Server) : Decidable (Tidy s e u) :=
  inferInstanceAs (Decidable (Succeeding _ _))

end Sockets

section Ledgers

variable {P : Platform} {s u v : Server} {p q : ProcId}

/-- The descriptors that are open are those of the processes. -/
structure Ledger (s : Server) (ps : List ProcId) (l : List Fd) : Prop where
  nodup : ps.Nodup
  holders : ∀ p, p ∈ ps ↔ Holds s.reg p
  ledger : held [] (fdUses s) = some l
  fds : l.Perm (ps.map fun p => (s.reg.procs p).pChildSock)

structure Owned (s : Server) : Prop where
  known : ∀ p, s.reg.Tracked p → p < s.reg.nextProc
  ledger : ∃ ps l, Ledger s ps l

/-- The same processes hold the same sockets. -/
theorem Owned.same (h : Owned s) (hk : ∀ q, u.reg.Tracked q → q < u.reg.nextProc)
    (hh : ∀ q, Holds u.reg q ↔ Holds s.reg q)
    (hs : ∀ q, (u.reg.procs q).pChildSock = (s.reg.procs q).pChildSock)
    (hf : fdUses u = fdUses s) : Owned u := by
  obtain ⟨ps, l, hl⟩ := h.ledger
  refine ⟨hk, ps, l, hl.nodup, fun q => ?_, ?_, ?_⟩
  · rw [hl.holders, hh]
  · rw [hf]
    exact hl.ledger
  · simp only [hs]
    exact hl.fds

theorem Owned.setProc (h : Owned s) {f : Process → Process} (hp : ∀ pr, (f pr).pPid = pr.pPid)
    (hb : ∀ pr, (f pr).pChildSockbuf = pr.pChildSockbuf)
    (hs : ∀ pr, (f pr).pChildSock = pr.pChildSock) (p : ProcId) :
    Owned (s.withReg fun r => r.setProc p f) := by
  have htracked : ∀ q, (s.reg.setProc p f).Tracked q ↔ s.reg.Tracked q :=
    fun _ => tracked_setProc hp
  refine h.same (fun q hq => h.known q ((htracked q).mp hq)) (fun q => ?_)
    (setProc_keeps (r := s.reg) Process.pChildSock hs) rfl
  exact and_congr (htracked q)
    (by rw [← setProc_keeps (r := s.reg) (p := p) Process.pChildSockbuf hb q]; rfl)

/-- Nothing but other fields changes. -/
theorem Owned.fields (h : Owned s) (hp : u.reg.procs = s.reg.procs)
    (hn : u.reg.nextProc = s.reg.nextProc) (ht : u.reg.processHash = s.reg.processHash)
    (hf : fdUses u = fdUses s) : Owned u := by
  have htracked : ∀ q, u.reg.Tracked q ↔ s.reg.Tracked q := fun q => by
    rw [Registry.Tracked, Registry.Tracked, hp, ht]
  refine h.same (fun q hq => ?_) (fun q => ?_) (fun q => by rw [hp]) hf
  · rw [hn]
    exact h.known q ((htracked q).mp hq)
  · rw [Holds, Holds, htracked, hp]

/-- The socket of a process is closed, and the process does not hold it any more. -/
theorem Owned.release (h : Owned s) (hp : Holds s.reg p)
    (hk : ∀ q, u.reg.Tracked q → q < u.reg.nextProc)
    (hh : ∀ q, Holds u.reg q ↔ q ≠ p ∧ Holds s.reg q)
    (hs : ∀ q, (u.reg.procs q).pChildSock = (s.reg.procs q).pChildSock)
    (hf : fdUses u = fdUses s ++ [.release (s.reg.procs p).pChildSock]) : Owned u := by
  obtain ⟨ps, l, hl⟩ := h.ledger
  have hmem : p ∈ ps := (hl.holders p).mpr hp
  have hperm : l.Perm ((s.reg.procs p).pChildSock ::
      (ps.erase p).map fun q => (s.reg.procs q).pChildSock) :=
    hl.fds.trans ((List.perm_cons_erase hmem).map fun q => (s.reg.procs q).pChildSock)
  have hopen : (s.reg.procs p).pChildSock ∈ l := hperm.mem_iff.mpr List.mem_cons_self
  refine ⟨hk, ps.erase p, l.erase (s.reg.procs p).pChildSock, hl.nodup.erase p, fun q => ?_, ?_, ?_⟩
  · rw [hl.nodup.mem_erase_iff, hh, hl.holders]
  · rw [hf, held_append, hl.ledger, Option.bind_some, held, if_pos hopen, held]
  · simp only [hs]
    have herase := hperm.erase (s.reg.procs p).pChildSock
    rwa [List.erase_cons_head] at herase

/-- The sockets of a new process: one is closed at once, and the other one belongs to the process or
is closed as well. -/
theorem Owned.start (h : Owned s) {a b : Fd} (hn : u.reg.nextProc = s.reg.nextProc + 1)
    (ht : ∀ q, u.reg.Tracked q ↔ q = s.reg.nextProc ∨ s.reg.Tracked q)
    (hp : ∀ q, q ≠ s.reg.nextProc → u.reg.procs q = s.reg.procs q)
    (ha : (u.reg.procs s.reg.nextProc).pChildSock = a)
    (hf : fdUses u = fdUses s ++ ([.acquire a, .acquire b, .release b] ++
      if (u.reg.procs s.reg.nextProc).pChildSockbuf = true then [] else [.release a])) :
    Owned u := by
  obtain ⟨ps, l, hl⟩ := h.ledger
  have hnew : ¬ s.reg.Tracked s.reg.nextProc := fun hmem => absurd (h.known _ hmem) (lt_irrefl _)
  have hnone : s.reg.nextProc ∉ ps := fun hmem => hnew ((hl.holders _).mp hmem).1
  have hold : ∀ q, q ≠ s.reg.nextProc → (Holds u.reg q ↔ q ∈ ps) := fun q hq => by
    rw [hl.holders, Holds, Holds, ht, hp q hq, or_iff_right hq]
  have hsocks : ps.map (fun p => (u.reg.procs p).pChildSock) =
      ps.map fun p => (s.reg.procs p).pChildSock :=
    List.map_congr_left fun q hq => by rw [hp q fun he => hnone (he ▸ hq)]
  have hknown : ∀ q, u.reg.Tracked q → q < u.reg.nextProc := fun q hq => by
    rw [hn]
    rcases (ht q).mp hq with rfl | hq
    · exact Nat.lt_succ_self _
    · exact (h.known q hq).trans (Nat.lt_succ_self _)
  have hpair : held l [.acquire a, .acquire b, .release b] = some (a :: l) := by
    simp [held]
  refine ⟨hknown, ?_⟩
  by_cases hb : (u.reg.procs s.reg.nextProc).pChildSockbuf = true
  · rw [if_pos hb, List.append_nil] at hf
    refine ⟨s.reg.nextProc :: ps, a :: l, List.nodup_cons.mpr ⟨hnone, hl.nodup⟩, fun q => ?_,
      ?_, ?_⟩
    · by_cases hq : q = s.reg.nextProc
      · subst hq
        exact iff_of_true List.mem_cons_self ⟨(ht _).mpr (.inl rfl), hb⟩
      · rw [List.mem_cons, or_iff_right hq, hold q hq]
    · rw [hf, held_append, hl.ledger, Option.bind_some, hpair]
    · rw [List.map_cons, ha, hsocks]
      exact hl.fds.cons a
  · rw [if_neg hb] at hf
    refine ⟨ps, l, hl.nodup, fun q => ?_, ?_, ?_⟩
    · by_cases hq : q = s.reg.nextProc
      · subst hq
        exact iff_of_false hnone fun hh => hb hh.2
      · rw [hold q hq]
    · rw [hf, held_append, hl.ledger, Option.bind_some, held_append, hpair]
      simp [held]
    · rw [hsocks]
      exact hl.fds

end Ledgers

section Handlers

variable {P : Platform} {s u v : Server} {p : ProcId}

theorem fdUses_append {l : List Output} (h : u.io.out = s.io.out ++ l) :
    fdUses u = fdUses s ++ l.flatMap fdUse := by
  rw [fdUses, h, List.flatMap_append, fdUses]

theorem Succeeding.consumes (h : Succeeding s.reg.kernel s.spawns) (hc : Consumes s u) :
    Succeeding u.reg.kernel u.spawns := by
  obtain ⟨hall, hnodup⟩ := h
  obtain ⟨l, hl, hk⟩ := hc
  rw [hl] at hall hnodup
  rw [List.filterMap_append, List.nodup_append] at hnodup
  obtain ⟨-, hrest, hdisjoint⟩ := hnodup
  refine ⟨fun x hx hpair => ?_, hrest⟩
  obtain ⟨hfork, hnew⟩ := hall x (List.mem_append_right l hx) hpair
  obtain ⟨⟨pid, k⟩, hsome⟩ := Option.isSome_iff_exists.mp hfork
  obtain ⟨hwant, hvalid, hunused, -⟩ := Kernel.fork_eq_some hsome
  refine ⟨?_, hnew⟩
  have hfree : pid ∉ u.reg.kernel.unreaped := fun hmem => by
    rcases hk pid hmem with hold | hnew
    · exact hunused hold
    · exact hdisjoint pid hnew pid (List.mem_filterMap.mpr ⟨x, hx, hwant⟩) rfl
  rw [hwant, Kernel.fork, dif_pos ⟨hvalid, hfree⟩]
  rfl

/-- What handlers do to the ledger. -/
structure Accounts (s u : Server) : Prop where
  consumes : Consumes s u
  owned : Succeeding s.reg.kernel s.spawns → Owned s → Owned u

theorem Accounts.trans (h : Accounts s u) (k : Accounts u v) : Accounts s v where
  consumes := h.consumes.trans k.consumes
  owned hs ho := k.owned (hs.consumes h.consumes) (h.owned hs ho)

theorem Owned.of_same (ho : Owned s) (h : Same s u) : Owned u := by
  obtain ⟨m, hm, hout⟩ := h.out
  have huses := fdUses_append hm
  rw [flatMap_other hout, List.append_nil] at huses
  exact ho.fields h.procs h.next h.table huses

theorem Owned.orphan (ho : Owned s) (p : ProcId) : Owned (s.withReg fun r => r.orphan p) := by
  refine ho.setProc ?_ ?_ ?_ p <;> exact fun _ => rfl

theorem spawn_accounts (site : SpawnSite) (s : Server) (g : GroupId) (i : ℕ) :
    Accounts s (spawn P site s g i) := by
  obtain ⟨hresult, hconsumes⟩ := spawn_result P site s g i
  refine ⟨hconsumes, fun hs ho => ?_⟩
  have hhead : ∀ a, (s.spawns.headD .failed).socketpair = some a →
      s.spawns.headD .failed ∈ s.spawns := by
    cases s.spawns with
    | nil => nofun
    | cons x l => exact fun _ _ => List.mem_cons_self
  generalize s.spawns.headD .failed = x at hresult hhead
  cases hresult with
  | failed none reg hist out =>
    have hpair : x.socketpair = Option.none := by
      by_contra hne
      obtain ⟨ab, hab⟩ := Option.ne_none_iff_exists'.mp hne
      obtain ⟨hfork, -⟩ := hs.1 x (hhead ab hab) hne
      rw [none.resolve_left hne] at hfork
      cases hfork
    have huses := fdUses_append out
    rw [hpair] at huses
    exact ho.fields (by rw [reg]) (by rw [reg]) (by rw [reg]) (huses.trans (List.append_nil _))
  | started a b k pr l pair reg age start terminated sockbuf sock hist out log =>
    obtain ⟨-, hnew⟩ := hs.1 x (hhead _ pair) (by rw [pair]; nofun)
    have hself : (spawn P site s g i).reg.procs s.reg.nextProc = pr := by
      rw [reg]
      exact insertProc_self (r := s.reg.setKernel k)
    have huses := fdUses_append out
    rw [hnew, Bool.true_and] at huses sockbuf
    refine ho.start (a := a) (b := b) (by rw [reg]; rfl) (fun q => ?_) (fun q hq => ?_)
      (by rw [hself, sock]) ?_
    · rw [reg]
      exact tracked_processInsert (r := s.reg.setKernel k)
    · rw [reg]
      exact insertProc_of_ne (r := s.reg.setKernel k) hq
    · rw [huses, hself, sockbuf, List.flatMap_append, List.flatMap_append,
        flatMap_other fun o ho => log_other o (log o ho), List.append_nil]
      cases x.bufEnable <;> rfl

theorem does_accounts (h : Does P s u) : Accounts s u := by
  induction h with
  | same h => exact ⟨h.consumes, fun _ ho => ho.of_same h⟩
  | orphan s p => exact ⟨.none (fun _ hp => hp) rfl, fun _ ho => ho.orphan p⟩
  | spawn site s g i => exact spawn_accounts site s g i
  | trans _ _ ih₁ ih₂ => exact ih₁.trans ih₂

end Handlers

section Steps

variable {P : Platform} {s u : Server} {e : Event} {o : Oracle} {p : ProcId} {k : Kernel}

theorem heartbeatCb_owned (ho : Owned s) : Owned (heartbeatCb P s p) := by
  obtain ⟨x, hx, ⟨hu, -⟩ | ⟨hu, -⟩⟩ := heartbeatCb_same P s p
  · rw [hu]
    exact ho.of_same hx
  · rw [hu]
    refine (ho.of_same hx).setProc ?_ ?_ ?_ p <;> exact fun _ => rfl

def freed (pr : Process) : Process := { pr with pChildSockbuf := false }

theorem childErrorCb_owned (hp : Holds s.reg p) (ho : Owned s) : Owned (childErrorCb s p) := by
  have hclose : childErrorCb s p =
      (emit s (.close (s.reg.procs p).pChildSock)).withReg fun r => r.setProc p freed := by
    unfold childErrorCb
    exact if_pos hp.2
  have huses : fdUses (emit s (.close (s.reg.procs p).pChildSock)) =
      fdUses s ++ [.release (s.reg.procs p).pChildSock] :=
    fdUses_append (l := [.close (s.reg.procs p).pChildSock]) rfl
  have htracked : ∀ q, (s.reg.setProc p freed).Tracked q ↔ s.reg.Tracked q :=
    fun _ => tracked_setProc fun _ => rfl
  have hsocks : ∀ q, ((s.reg.setProc p freed).procs q).pChildSock = (s.reg.procs q).pChildSock :=
    setProc_keeps Process.pChildSock fun _ => rfl
  rw [hclose]
  refine ho.release hp (fun q hq => ho.known q ((htracked q).mp hq)) (fun q => ?_) hsocks huses
  refine (and_congr_left fun _ => htracked q).trans ?_
  by_cases hq : q = p
  · subst hq
    have hself : (s.reg.setProc q freed).procs q = freed (s.reg.procs q) := Function.update_self ..
    have hfreed : ((s.reg.setProc q freed).procs q).pChildSockbuf = false := by
      rw [hself]
      rfl
    refine iff_of_false (fun h => ?_) fun h => h.1 rfl
    exact absurd (hfreed.symm.trans h.2) Bool.false_ne_true
  · have hother : (s.reg.setProc p freed).procs q = s.reg.procs q := Function.update_of_ne hq ..
    exact (and_congr_right fun _ => by rw [← hother]; rfl).trans (and_iff_right hq).symm

/-- The socket of a process that is forgotten is closed, unless it was closed before. -/
theorem Owned.forget (ho : Owned s) (ht : s.reg.Tracked p) (hx : Forgets p k s u) : Owned u := by
  obtain ⟨l, hl, huses⟩ := hx.out
  have hf : fdUses u = fdUses s ++ l.flatMap fdUse := fdUses_append hl
  have hknown : ∀ q, u.reg.Tracked q → q < u.reg.nextProc := fun q hq => by
    rw [hx.next]
    exact ho.known q ((hx.tracked q).mp hq).2
  have hholds : ∀ q, Holds u.reg q ↔ q ≠ p ∧ Holds s.reg q := fun q => by
    rw [Holds, Holds, hx.tracked, hx.procs, and_assoc]
  have hsocks : ∀ q, (u.reg.procs q).pChildSock = (s.reg.procs q).pChildSock :=
    fun q => by rw [hx.procs]
  rw [huses] at hf
  by_cases hb : (s.reg.procs p).pChildSockbuf = true
  · rw [if_pos hb] at hf
    exact ho.release ⟨ht, hb⟩ hknown hholds hsocks hf
  · rw [if_neg hb, List.append_nil] at hf
    refine ho.same hknown (fun q => ?_) hsocks hf
    rw [hholds]
    exact and_iff_right_of_imp fun hq he => hb (he ▸ hq.2)

theorem step_owned (hl : Linked s.reg) (h : Step P s e u) (ht : Tidy s e u) (ho : Owned s) :
    Owned u := by
  have hinstall : ∀ o, Owned (install s o) := fun _ => ho.fields rfl rfl rfl rfl
  cases step_move hl h with
  | idle he hi =>
    refine ho.fields hi.procs hi.next hi.table ?_
    rw [fdUses, hi.out, fdUses]
  | handler c o he hc hw hd =>
    subst he
    have hsucceeding : Succeeding (install s o).reg.kernel (install s o).spawns := by
      cases c <;> first | exact ht | cases hw
    exact (does_accounts hd).owned hsucceeding (hinstall o)
  | heartbeat p o he hu =>
    subst he hu
    exact heartbeatCb_owned (hinstall o)
  | childError p o he hu =>
    subst he hu
    have hp : Holds s.reg p := h.1.2.2
    exact childErrorCb_owned hp (hinstall o)
  | reap p pid ret k o he hp hw x hx hd =>
    subst he
    have hchildren : childrenAt s (.callback .waitpid o) = k := by
      rw [childrenAt, hw]
      rfl
    have hsucceeding : Succeeding x.reg.kernel x.spawns := by
      rw [hx.kernel, hx.spawns, ← hchildren]
      exact ht
    exact (does_accounts hd).owned hsucceeding ((hinstall o).forget hp hx)

theorem initial_owned {a b : Bool} {t : ℤ} : Owned (initial a b t) where
  known _ h := by cases h
  ledger := ⟨[], [], List.nodup_nil, fun _ => iff_of_false List.not_mem_nil fun h => (by cases h.1),
    rfl, List.Perm.nil⟩

theorem reachable_owned (h : ReachableBy P Tidy s) : Owned s := by
  obtain ⟨a, b, t, hrun⟩ := h
  exact hrun.invariant_under (I := fun s => Linked s.reg) (fun _ _ _ hl hs _ => step_linked hl hs)
    (fun _ _ _ hl ho hs ht => step_owned hl hs ht ho) Registry.linked_init initial_owned

/-- In a run in which no call of a start fails once there are sockets, these are closed once. -/
theorem child_sockets_closed (h : ReachableBy P Tidy s) (hf : Fresh [] (fdUses s)) :
    ClosedOnce s := by
  obtain ⟨-, ps, l, hl⟩ := reachable_owned h
  refine ⟨⟨l, hl.ledger⟩, fun pre a post hsplit => ?_⟩
  have hledger := hl.ledger
  rw [hsplit] at hf hledger
  refine (released_once hf hledger).imp_right fun ⟨hzero, ha⟩ => ⟨hzero, ?_⟩
  obtain ⟨p, hp, hsock⟩ := List.mem_map.mp (hl.fds.mem_iff.mp ha)
  exact ⟨p, (hl.holders p).mp hp, hsock⟩

/-- A group with one process. -/
def sockRequest : Json :=
  .object [(text "name", .string (text "web")), (text "args", .array [.string (text "/bin/web")]),
    (text "status", .int 1)]

def sockPlatform : Platform := sample [printed sockRequest]

/-- The first process closes its end of the sockets before it exits, the second one does not. -/
def sockRun : List Event :=
  [connecting, asking "SPWN" sockRequest [100], .callback (.childError 0) (starting []),
    .childExit 100 (.exited 1) 0] ++ signalled 1 [101] ++ [.callback .waitpid (starting []),
    .childExit 101 (.exited 1) 0] ++ signalled 1 []

theorem sockRun_closed :
    ClosedOnce (stateAfter (next sockPlatform) (initial false false 0) sockRun) := by
  have h : Admits Enabled (next sockPlatform) Tidy (initial false false 0) sockRun := by
    decide +kernel
  exact child_sockets_closed ⟨false, false, 0, h.execution⟩ (by decide +kernel)

/-- The `fork` fails. -/
def leakRun : List Event :=
  [connecting, .callback (.request 0 1 (text "SPWN" ++ printJson sockRequest))
    ⟨[⟨some (3, 4), none, true, true⟩], [], fun _ => none⟩]

theorem leakRun_open : ¬ ∀ (P : Platform) (s : Server), Reachable P s → Fresh [] (fdUses s) →
    ClosedOnce s := by
  intro h
  have hr : Admits Enabled (next sockPlatform) Always (initial false false 0) leakRun := by
    decide +kernel
  have huses : fdUses (stateAfter (next sockPlatform) (initial false false 0) leakRun) =
      [.acquire 3, .acquire 4] := by decide +kernel
  have hnone : (stateAfter (next sockPlatform) (initial false false 0) leakRun).reg.nextProc =
      0 := by decide +kernel
  have hreach : Reachable sockPlatform _ := ⟨false, false, 0, hr.execution⟩
  have hl : Linked _ := ReachableBy.linked hreach
  obtain ⟨-, hclosed⟩ := h sockPlatform _ hreach (by decide +kernel)
  rcases hclosed [] 3 [.acquire 4] huses with hone | ⟨-, p, hp, -⟩
  · exact absurd hone (by decide)
  · have hlt := hl.tracked_lt hp.1
    rw [hnone] at hlt
    exact absurd hlt (Nat.not_lt_zero p)

end Steps

end UbervisorChildSockets
