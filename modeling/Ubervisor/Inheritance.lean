import Ubervisor.ChildSockets
import Ubervisor.Descriptors
import Ubervisor.ReadResources
import Ubervisor.Registrations
import Ubervisor.Transcripts

/-! # What a program inherits

The server on top of its table of descriptors. `spawn_child` closes the standard streams, opens the
logs in their place and executes the command, which finds what is not closed on the way. -/
namespace UbervisorInheritance

open UbervisorRuns
open UbervisorValues
open UbervisorChildConfigs
open UbervisorKernel
open UbervisorRegistry
open UbervisorReadCallback (findCommand)
open UbervisorServer
open UbervisorCommands
open UbervisorEvents
open UbervisorSupervision
open UbervisorEffects
open UbervisorTranscripts
open UbervisorHandles
open UbervisorHandlerSteps
open UbervisorChildSockets
open UbervisorReadResources
open UbervisorRegistrations (step_unstarted load_unstarted loading)
open UbervisorDescriptors
open UbervisorJsonC

/-- What a descriptor refers to. An end of a pair is `unused` if no child could be forked for it.
The file that a dump is written to is left out: it is open only while nothing is started. -/
inductive Obj where
  | terminal (n : ℕ)
  | loop
  | listening
  | log
  | client (con : ClientId)
  | pair
  | unused
  | dumpFile
  | directory
  | reading
  | file (path : Bytes)
  deriving DecidableEq

section Children

variable {t : Table Obj} {a b : Fd} {cc : ChildConfig} {i : ℕ} {r r₁ r₂ : Option ℕ}
  {std : ℕ}

/-- The child up to the point where it opens its logs. -/
def childTable (t : Table Obj) (a b : Fd) : Table Obj :=
  close (close (close (setCloexec (close t a) b) 0) 1) 2

theorem childTable_zero : childTable t a b 0 = none := by
  unfold childTable
  rw [close_of_ne (by decide), close_of_ne (by decide), close_self]

/-- `stdout` or `stderr` of an instance. -/
def logPath (path : Option CStr) (i : ℕ) : Option Bytes :=
  path.map fun p => replaceStr numMarker (instanceStr i) p.bytes

/-- A stream is opened and put in its place. What `open` returns is `r`. -/
def withStream (t : Table Obj) (std : ℕ) (path : Option Bytes) (r : Option ℕ) : Table Obj :=
  match path with
  | none => t
  | some p => redirect t std (.file p) r

/-- `spawn_child` with the descriptors of its pair. -/
def spawnChild (t : Table Obj) (a b : Fd) (cc : ChildConfig) (i : ℕ) (r₁ r₂ : Option ℕ) :
    Table Obj :=
  withStream (withStream (childTable t a b) 1 (logPath cc.ccStdout i) r₁) 2
    (logPath cc.ccStderr i) r₂

/-- `open` returns the lowest number that is free, or fails. -/
structure Opening (t : Table Obj) (a b : Fd) (cc : ChildConfig) (i : ℕ) (r₁ r₂ : Option ℕ) :
    Prop where
  stdout : ∀ n, r₁ = some n → Lowest (childTable t a b) n
  stderr : ∀ n, r₂ = some n →
    Lowest (withStream (childTable t a b) 1 (logPath cc.ccStdout i) r₁) n

/-- The stream of a program: its log, if it has one that can be opened. -/
def stream (path : Option Bytes) (r : Option ℕ) : Option (Entry Obj) :=
  match path, r with
  | some p, some _ => some ⟨.file p, false⟩
  | _, _ => none

theorem withStream_spec (path : Option Bytes) (hzero : t 0 = none) (hstd : std ≠ 0)
    (hr : ∀ n, r = some n → Lowest t n) :
    withStream t std path r 0 = none ∧
      withStream t std path r std = (stream path r).or (t std) ∧
      ∀ m, m ≠ std → withStream t std path r m = t m := by
  cases path with
  | none => exact ⟨hzero, rfl, fun _ _ => rfl⟩
  | some p =>
    have hfree : ∀ n, r = some n → t n = none ∧ n ≠ std := by
      intro n hn
      obtain ⟨hnone, hlow⟩ := hr n hn
      have hn0 : n = 0 := by
        by_contra hne
        exact hlow 0 (Nat.pos_of_ne_zero hne) hzero
      subst hn0
      exact ⟨hnone, hstd.symm⟩
    have hother : ∀ m, m ≠ std → withStream t std (some p) r m = t m := fun m hm =>
      redirect_other hfree hm
    refine ⟨(hother 0 hstd.symm).trans hzero, ?_, hother⟩
    have hself : withStream t std (some p) r std = (r.map fun _ => ⟨.file p, false⟩).or (t std) :=
      redirect_std hfree
    rw [hself]
    cases r <;> rfl

/-- What the command finds: no standard input, its logs, and what the server has open apart from
its own streams and the pair. -/
theorem spawnChild_spec (ha : 3 ≤ a) (hb : 3 ≤ b) (ho : Opening t a b cc i r₁ r₂) :
    exec (spawnChild t a b cc i r₁ r₂) 0 = none ∧
      exec (spawnChild t a b cc i r₁ r₂) 1 = stream (logPath cc.ccStdout i) r₁ ∧
      exec (spawnChild t a b cc i r₁ r₂) 2 = stream (logPath cc.ccStderr i) r₂ ∧
      ∀ n, 3 ≤ n → exec (spawnChild t a b cc i r₁ r₂) n =
        if n = a ∨ n = b then none else exec t n := by
  have hone : childTable t a b 1 = none := by
    unfold childTable
    rw [close_of_ne (by decide), close_self]
  have htwo : childTable t a b 2 = none := close_self
  obtain ⟨hzero₁, hone₁, hrest₁⟩ := withStream_spec (logPath cc.ccStdout i)
    childTable_zero (by decide : (1 : ℕ) ≠ 0) ho.stdout
  obtain ⟨hzero₂, htwo₂, hrest₂⟩ := withStream_spec (logPath cc.ccStderr i) hzero₁
    (by decide : (2 : ℕ) ≠ 0) ho.stderr
  have hkept : ∀ path r, ((stream path r).filter fun e => !e.cloexec) = stream path r := by
    intro path r
    cases path <;> cases r <;> rfl
  refine ⟨exec_none hzero₂, ?_, ?_, ?_⟩
  · unfold exec spawnChild
    rw [hrest₂ 1 (by decide), hone₁, hone, Option.or_none]
    exact hkept _ _
  · unfold exec spawnChild
    rw [htwo₂, hrest₁ 2 (by decide), htwo, Option.or_none]
    exact hkept _ _
  · intro n hn
    have hn₁ : n ≠ 1 := by omega
    have hn₂ : n ≠ 2 := by omega
    have hn₀ : n ≠ 0 := by omega
    unfold exec spawnChild
    rw [hrest₂ n hn₂, hrest₁ n hn₁]
    unfold childTable
    rw [close_of_ne hn₂, close_of_ne hn₁, close_of_ne hn₀]
    by_cases hnb : n = b
    · subst hnb
      rw [if_pos (.inr rfl)]
      cases hentry : setCloexec (close t a) n n with
      | none => rfl
      | some e =>
        obtain ⟨-, -, -, hc⟩ := setCloexec_self hentry
        simp [hc]
    · rw [setCloexec_of_ne hnb]
      by_cases hna : n = a
      · subst hna
        rw [close_self, if_pos (.inl rfl)]
        rfl
      · rw [close_of_ne hna, if_neg (not_or.mpr ⟨hna, hnb⟩)]

end Children

section Tables

/-- A child of the server, with the table that it gets: one that executes the command of a group,
or one that executes a heartbeat or a fatal command. -/
inductive Fork where
  | child (t : Table Obj) (a b : Fd)
  | command (t : Table Obj)

variable {t t' x : Table Obj} {l l' : List Output} {fs : List Fork} {K K' : Fd → Prop}
  {kept kept' : Obj → Prop}

/-- Outputs that are neither about sockets nor about programs. -/
def plain : Output → Bool
  | .socketpair _ _ => false
  | .close _ => false
  | .dropped _ => false
  | .exec _ => false
  | _ => true

/-- The outputs of a step as calls, and the children that are forked meanwhile. The end of a child
is closed when it has been forked. -/
inductive Calls : Table Obj → List Output → Table Obj → List Fork → Prop where
  | done (t : Table Obj) : Calls t [] t []
  | started (t t' : Table Obj) (a b : Fd) (l : List Output) (fs : List Fork) (ha : t a = none)
      (hb : t b = none) (hne : a ≠ b)
      (h : Calls (setCloexec (close (put (put t a .pair) b .pair) b) a) l t' fs) :
      Calls t (.socketpair a b :: .close b :: l) t' (.child (put (put t a .pair) b .pair) a b :: fs)
  | failed (t t' : Table Obj) (a b : Fd) (l : List Output) (fs : List Fork) (ha : t a = none)
      (hb : t b = none) (hne : a ≠ b) (hl : l.head? ≠ some (.close b))
      (h : Calls (put (put t a .unused) b .unused) l t' fs) : Calls t (.socketpair a b :: l) t' fs
  | closed (t t' : Table Obj) (fd : Fd) (l : List Output) (fs : List Fork)
      (h : Calls (close t fd) l t' fs) : Calls t (.close fd :: l) t' fs
  | dropped (t t' : Table Obj) (con : ClientId) (l : List Output) (fs : List Fork)
      (h : Calls (closeAll t (· = .client con)) l t' fs) : Calls t (.dropped con :: l) t' fs
  | executed (t t' : Table Obj) (args : List Bytes) (l : List Output) (fs : List Fork)
      (h : Calls t l t' fs) : Calls t (.exec args :: l) t' (.command t :: fs)
  | other (t t' : Table Obj) (o : Output) (l : List Output) (fs : List Fork) (ho : plain o = true)
      (h : Calls t l t' fs) : Calls t (o :: l) t' fs

/-- What is closed is in `K`, or comes from a pair that was made before. -/
def Closes : (Fd → Prop) → List Output → Prop
  | _, [] => True
  | K, .socketpair a b :: l => Closes (fun n => K n ∨ n = a ∨ n = b) l
  | K, .close fd :: l => K fd ∧ Closes K l
  | K, _ :: l => Closes K l

/-- Each pair that is made is used for a child. -/
def Paired : List Output → Prop
  | [] => True
  | .socketpair _ b :: .close c :: l => b = c ∧ Paired l
  | .socketpair _ _ :: _ => False
  | _ :: l => Paired l

theorem Closes.mono (hK : ∀ n, K n → K' n) (h : Closes K l) : Closes K' l := by
  induction l generalizing K K' with
  | nil => trivial
  | cons o l ih =>
    cases o with
    | socketpair a b => exact ih (fun n hn => hn.imp_left (hK n)) h
    | close fd => exact ⟨hK fd h.1, ih hK h.2⟩
    | _ => exact ih hK h

theorem Closes.append (h : Closes K l) (h' : Closes K l') : Closes K (l ++ l') := by
  induction l generalizing K with
  | nil => exact h'
  | cons o l ih =>
    cases o with
    | socketpair a b => exact ih h (h'.mono fun n hn => .inl hn)
    | close fd => exact ⟨h.1, ih h.2 h'⟩
    | _ => exact ih h h'

theorem Paired.append (h : Paired l) (h' : Paired l') : Paired (l ++ l') := by
  fun_induction Paired l with
  | case1 => exact h'
  | case2 a b c l ih => exact ⟨h.1, ih h.2⟩
  | case3 => exact h.elim
  | case4 o l hpair hone ih =>
    cases o with
    | socketpair a b => exact absurd rfl (hone a b)
    | _ => exact ih h

/-- Nothing but ends of children's sockets is closed. -/
theorem releases_closes (h : ∀ x ∈ l.flatMap fdUse, ∃ fd, x = .release fd ∧ K fd) :
    Closes K l ∧ Paired l := by
  induction l with
  | nil => exact ⟨trivial, trivial⟩
  | cons o l ih =>
    rw [List.flatMap_cons] at h
    obtain ⟨hcloses, hpaired⟩ := ih fun x hx => h x (List.mem_append_right _ hx)
    cases o with
    | socketpair a b =>
      obtain ⟨fd, hfd, -⟩ := h (.acquire a) (List.mem_append_left _ List.mem_cons_self)
      cases hfd
    | close fd =>
      obtain ⟨fd', hfd, hK⟩ := h (.release fd) (List.mem_append_left _ List.mem_cons_self)
      cases hfd
      exact ⟨⟨hK, hcloses⟩, hpaired⟩
    | _ => exact ⟨hcloses, hpaired⟩

theorem other_closes (h : ∀ o ∈ l, Other o) : Closes K l ∧ Paired l := by
  refine releases_closes fun x hx => ?_
  rw [flatMap_other h] at hx
  cases hx

/-- The server has its own streams, and `exec` keeps nothing else but some objects. -/
structure Safe (kept : Obj → Prop) (t : Table Obj) : Prop where
  std : ∀ n < 3, t n = some ⟨.terminal n, false⟩
  each : Each (fun n e => 3 ≤ n → e.cloexec = true ∨ kept e.obj) t

theorem Safe.free (h : Safe kept t) {n : ℕ} (hn : t n = none) : 3 ≤ n := by
  by_contra hlt
  rw [h.std n (by omega)] at hn
  cases hn

theorem Safe.mono (h : Safe kept t) (hk : ∀ o, kept o → kept' o) : Safe kept' t where
  std := h.std
  each n e he hn := (h.each n e he hn).imp_right (hk _)

theorem Safe.close (h : Safe kept t) {n : ℕ} (hn : 3 ≤ n) : Safe kept (close t n) where
  std m hm := (close_of_ne (by omega)).trans (h.std m hm)
  each := h.each.close

theorem Safe.put (h : Safe kept t) {n : ℕ} {o : Obj} (hn : 3 ≤ n) (ho : kept o) :
    Safe kept (put t n o) where
  std m hm := (put_of_ne (by omega)).trans (h.std m hm)
  each := h.each.put fun _ => .inr ho

theorem Safe.setCloexec (h : Safe kept t) {n : ℕ} (hn : 3 ≤ n) : Safe kept (setCloexec t n) where
  std m hm := (setCloexec_of_ne (by omega)).trans (h.std m hm)
  each := h.each.setCloexec fun _ _ _ _ hc _ => .inl hc

/-- A descriptor that `exec` closes may refer to anything. -/
theorem Safe.hidden (h : Safe kept t) {n : ℕ} {o : Obj} (hn : 3 ≤ n) :
    Safe kept (UbervisorDescriptors.setCloexec (UbervisorDescriptors.put t n o) n) where
  std m hm := by
    have hne : m ≠ n := by omega
    rw [setCloexec_of_ne hne, put_of_ne hne]
    exact h.std m hm
  each := by
    intro m e he hm
    by_cases hmn : m = n
    · subst hmn
      obtain ⟨-, -, -, hc⟩ := setCloexec_self he
      exact .inl hc
    · rw [setCloexec_of_ne hmn, put_of_ne hmn] at he
      exact h.each m e he hm

theorem Safe.closeAll (h : Safe kept t) {p : Obj → Bool} (hp : ∀ n, p (.terminal n) = false) :
    Safe kept (closeAll t p) where
  std n hn := closeAll_some.mpr ⟨h.std n hn, hp n⟩
  each := h.each.closeAll p

/-- What is known of the table of a child when it is forked. -/
def ForkSafe (kept : Obj → Prop) : Fork → Prop
  | .child t a b => 3 ≤ a ∧ 3 ≤ b ∧
      ∀ n e, 3 ≤ n → n ≠ a → n ≠ b → t n = some e → e.cloexec = true ∨ kept e.obj
  | .command t => Safe kept t

/-- A pair whose child has been forked: one end is closed, and `exec` closes the other one. -/
theorem Safe.started (h : Safe kept t) {a b : ℕ} (ha : 3 ≤ a) (hb : 3 ≤ b) (hne : a ≠ b) :
    Safe kept (UbervisorDescriptors.setCloexec
      (UbervisorDescriptors.close (UbervisorDescriptors.put (UbervisorDescriptors.put t a .pair) b
        .pair) b) a) where
  std m hm := by
    have hma : m ≠ a := by omega
    have hmb : m ≠ b := by omega
    rw [setCloexec_of_ne hma, close_of_ne hmb, put_of_ne hmb, put_of_ne hma]
    exact h.std m hm
  each := by
    intro m e he hm
    by_cases hma : m = a
    · subst hma
      obtain ⟨-, -, -, hc⟩ := setCloexec_self he
      exact .inl hc
    · rw [setCloexec_of_ne hma] at he
      by_cases hmb : m = b
      · subst hmb
        rw [close_self] at he
        cases he
      · rw [close_of_ne hmb, put_of_ne hmb, put_of_ne hma] at he
        exact h.each m e he hm

/-- A call that makes no pair. -/
theorem pair_of_cons {o : Output} {x y : Fd} (ho : ∀ a b, o ≠ .socketpair a b)
    (h : .socketpair x y ∈ o :: l) : .socketpair x y ∈ l :=
  (List.mem_cons.mp h).resolve_left fun heq => ho x y heq.symm

/-- The calls of a step. Unless each pair is used, pairs may be kept. -/
theorem calls_safe (hc : Calls t l t' fs) (h : Safe kept t) (hl : Closes K l)
    (hK : ∀ n, K n → 3 ≤ n) (hp : Paired l ∨ kept .unused) :
    Safe kept t' ∧ (∀ f ∈ fs, ForkSafe kept f) ∧ ∀ a b, .socketpair a b ∈ l → 3 ≤ a := by
  induction hc generalizing K with
  | done t => exact ⟨h, nofun, nofun⟩
  | started t t' a b l fs ha hb hne _ ih =>
    have ha3 := h.free ha
    have hb3 := h.free hb
    obtain ⟨hsafe, hforks, hpairs⟩ := ih (h.started ha3 hb3 hne) hl.2
      (fun n hn => hn.elim (hK n) (by rintro (rfl | rfl) <;> assumption)) (hp.imp_left And.right)
    refine ⟨hsafe, ?_, ?_⟩
    · intro f hf
      rcases List.mem_cons.mp hf with rfl | hf
      · refine ⟨ha3, hb3, fun n e hn hna hnb he => ?_⟩
        rw [put_of_ne hnb, put_of_ne hna] at he
        exact h.each n e he hn
      · exact hforks f hf
    · intro x y hxy
      rcases List.mem_cons.mp hxy with heq | hxy
      · cases heq
        exact ha3
      · exact hpairs x y (pair_of_cons (fun _ _ heq => by cases heq) hxy)
  | failed t t' a b l fs ha hb hne hhead _ ih =>
    have ha3 := h.free ha
    have hb3 := h.free hb
    have hkept : kept .unused := by
      rcases hp with hp | hp
      · cases l with
        | nil => exact hp.elim
        | cons o l =>
          cases o with
          | close fd =>
            obtain ⟨rfl, -⟩ := hp
            exact absurd rfl hhead
          | _ => exact hp.elim
      · exact hp
    obtain ⟨hsafe, hforks, hpairs⟩ := ih ((h.put ha3 hkept).put hb3 hkept) hl
      (fun n hn => hn.elim (hK n) (by rintro (rfl | rfl) <;> assumption)) (.inr hkept)
    refine ⟨hsafe, hforks, fun x y hxy => ?_⟩
    rcases List.mem_cons.mp hxy with heq | hxy
    · cases heq
      exact ha3
    · exact hpairs x y hxy
  | closed t t' fd l fs _ ih =>
    obtain ⟨hsafe, hforks, hpairs⟩ := ih (h.close (hK fd hl.1)) hl.2 hK hp
    exact ⟨hsafe, hforks, fun x y hxy =>
      hpairs x y (pair_of_cons (fun _ _ heq => by cases heq) hxy)⟩
  | dropped t t' con l fs _ ih =>
    obtain ⟨hsafe, hforks, hpairs⟩ := ih (h.closeAll fun n => decide_eq_false nofun) hl hK hp
    exact ⟨hsafe, hforks, fun x y hxy =>
      hpairs x y (pair_of_cons (fun _ _ heq => by cases heq) hxy)⟩
  | executed t t' args l fs _ ih =>
    obtain ⟨hsafe, hforks, hpairs⟩ := ih h hl hK hp
    refine ⟨hsafe, ?_, fun x y hxy =>
      hpairs x y (pair_of_cons (fun _ _ heq => by cases heq) hxy)⟩
    intro f hf
    rcases List.mem_cons.mp hf with rfl | hf
    · exact h
    · exact hforks f hf
  | other t t' o l fs ho _ ih =>
    have hrest : Closes K l ∧ (Paired l ∨ kept .unused) := by
      cases o with
      | socketpair a b => cases ho
      | close fd => cases ho
      | _ => exact ⟨hl, hp⟩
    obtain ⟨hsafe, hforks, hpairs⟩ := ih h hrest.1 hK hrest.2
    refine ⟨hsafe, hforks, fun x y hxy => hpairs x y (pair_of_cons ?_ hxy)⟩
    rintro a b rfl
    cases ho

end Tables

section Handlers

variable {P : Platform} {s u v : Server} {p : ProcId} {l : List Output}

/-- A process that has a socket had it before, or its socket comes from one of the new pairs. -/
def Plugged (s u : Server) (l : List Output) : Prop := ∀ p, Holds u.reg p →
  (Holds s.reg p ∧ (u.reg.procs p).pChildSock = (s.reg.procs p).pChildSock) ∨
    ∃ b, .socketpair (u.reg.procs p).pChildSock b ∈ l

/-- What handlers do with sockets. -/
structure Plugs (s u : Server) : Prop where
  consumes : Consumes s u
  out : ∃ l, u.io.out = s.io.out ++ l ∧ Closes (fun _ => False) l ∧ Plugged s u l ∧
    (Succeeding s.reg.kernel s.spawns → Paired l)

theorem Plugged.nil (hp : u.reg.procs = s.reg.procs) (ht : u.reg.processHash = s.reg.processHash)
    (l : List Output) : Plugged s u l := by
  intro p hp'
  refine .inl ⟨?_, by rw [hp]⟩
  unfold Holds Registry.Tracked at hp' ⊢
  rw [hp, ht] at hp'
  exact hp'

theorem Plugs.trans (h : Plugs s u) (k : Plugs u v) : Plugs s v := by
  refine ⟨h.consumes.trans k.consumes, ?_⟩
  obtain ⟨l, hl, hcloses, hplugged, hpaired⟩ := h.out
  obtain ⟨l', hl', hcloses', hplugged', hpaired'⟩ := k.out
  refine ⟨l ++ l', by rw [hl', hl, List.append_assoc], hcloses.append hcloses', ?_, fun hs =>
    (hpaired hs).append (hpaired' (hs.consumes h.consumes))⟩
  intro p hp
  rcases hplugged' p hp with ⟨hu, hsock⟩ | ⟨b, hb⟩
  · rcases hplugged p hu with ⟨hs, hsock'⟩ | ⟨b, hb⟩
    · exact .inl ⟨hs, hsock.trans hsock'⟩
    · rw [← hsock] at hb
      exact .inr ⟨b, List.mem_append_left _ hb⟩
  · exact .inr ⟨b, List.mem_append_right _ hb⟩

theorem Same.plugs (h : Same s u) : Plugs s u := by
  obtain ⟨l, hl, hother⟩ := h.out
  obtain ⟨hcloses, hpaired⟩ := other_closes hother
  exact ⟨h.consumes, l, hl, hcloses, .nil h.procs h.table l, fun _ => hpaired⟩

/-- Fields that are not about the socket do not matter. -/
theorem setProc_holds {r : Registry} {f : Process → Process} {p q : ProcId}
    (hpid : ∀ pr, (f pr).pPid = pr.pPid) (hsock : ∀ pr, (f pr).pChildSock = pr.pChildSock)
    (hbuf : ∀ pr, (f pr).pChildSockbuf = true → pr.pChildSockbuf = true)
    (h : Holds (r.setProc p f) q) :
    Holds r q ∧ ((r.setProc p f).procs q).pChildSock = (r.procs q).pChildSock := by
  refine ⟨⟨(tracked_setProc hpid).mp h.1, ?_⟩, setProc_keeps Process.pChildSock hsock q⟩
  obtain ⟨-, hq⟩ := h
  by_cases hqp : q = p
  · subst hqp
    rw [show (r.setProc q f).procs q = f (r.procs q) from Function.update_self ..] at hq
    exact hbuf _ hq
  · rw [show (r.setProc p f).procs q = r.procs q from Function.update_of_ne hqp ..] at hq
    exact hq

/-- A process is changed in nothing that is about its socket. -/
theorem setProc_plugs (s : Server) {f : Process → Process} (p : ProcId)
    (hpid : ∀ pr, (f pr).pPid = pr.pPid) (hsock : ∀ pr, (f pr).pChildSock = pr.pChildSock)
    (hbuf : ∀ pr, (f pr).pChildSockbuf = true → pr.pChildSockbuf = true) :
    Plugs s (s.withReg fun r => r.setProc p f) := by
  refine ⟨.none (fun _ hp => hp) rfl, [], (List.append_nil _).symm, trivial, ?_, fun _ => trivial⟩
  exact fun q hq => .inl (setProc_holds hpid hsock hbuf hq)

theorem spawn_plugs (site : SpawnSite) (s : Server) (g : GroupId) (i : ℕ) :
    Plugs s (spawn P site s g i) := by
  obtain ⟨hresult, hconsumes⟩ := spawn_result P site s g i
  refine ⟨hconsumes, ?_⟩
  have hhead : ∀ a, (s.spawns.headD .failed).socketpair = some a →
      s.spawns.headD .failed ∈ s.spawns := by
    cases s.spawns with
    | nil => nofun
    | cons x l => exact fun _ _ => List.mem_cons_self
  generalize s.spawns.headD .failed = x at hresult hhead
  cases hresult with
  | failed none reg hist out =>
    refine ⟨_, out, ?_, .nil (by rw [reg]) (by rw [reg]) _, fun hs => ?_⟩
    · cases x.socketpair <;> exact trivial
    · cases hpair : x.socketpair with
      | none => trivial
      | some ab =>
        obtain ⟨hfork, -⟩ := hs.1 x (hhead ab hpair) (by rw [hpair]; nofun)
        rw [none.resolve_left (by rw [hpair]; nofun)] at hfork
        cases hfork
  | started a b k pr l pair reg age start terminated sockbuf sock hist out log =>
    have hlog : ∀ o ∈ l, Other o := fun o ho => log_other o (log o ho)
    refine ⟨_, out, ?_, ?_, fun _ => ?_⟩
    · refine ⟨.inr (.inr rfl), ?_⟩
      have hrest := (other_closes (K := fun n => False ∨ n = a ∨ n = b) hlog).1
      cases x.bufNew && !x.bufEnable with
      | false => exact hrest
      | true => exact ⟨.inr (.inl rfl), hrest⟩
    · intro q hq
      by_cases he : q = s.reg.nextProc
      · subst he
        have hself : (spawn P site s g i).reg.procs s.reg.nextProc = pr := by
          rw [reg]
          exact insertProc_self (r := s.reg.setKernel k)
        rw [hself, sock]
        exact .inr ⟨b, List.mem_append_left _ (List.mem_append_left _ List.mem_cons_self)⟩
      · have hother : (spawn P site s g i).reg.procs q = s.reg.procs q := by
          rw [reg]
          exact insertProc_of_ne (r := s.reg.setKernel k) he
        have htracked : (spawn P site s g i).reg.Tracked q ↔
            q = s.reg.nextProc ∨ s.reg.Tracked q := by
          rw [reg]
          exact tracked_processInsert (r := s.reg.setKernel k)
        refine .inl ⟨⟨(htracked.mp hq.1).resolve_left he, ?_⟩, by rw [hother]⟩
        rw [← hother]
        exact hq.2
    · have hrest := (other_closes (K := fun _ => False) hlog).2
      cases x.bufNew && !x.bufEnable with
      | false => exact ⟨rfl, hrest⟩
      | true => exact ⟨rfl, hrest⟩

theorem does_plugs (h : Does P s u) : Plugs s u := by
  induction h with
  | same h => exact Same.plugs h
  | orphan s p => exact setProc_plugs s p (fun _ => rfl) (fun _ => rfl) fun _ h => h
  | spawn site s g i => exact spawn_plugs site s g i
  | trans _ _ ih₁ ih₂ => exact ih₁.trans ih₂

/-- The sockets of the processes. -/
def SockOf (s : Server) (n : Fd) : Prop := ∃ p, Holds s.reg p ∧ (s.reg.procs p).pChildSock = n

/-- What a step does with sockets. -/
structure Wires (s : Server) (e : Event) (u : Server) : Prop where
  closes : Closes (SockOf s) (newOut s u)
  plugged : Plugged s u (newOut s u)
  paired : Tidy s e u → Paired (newOut s u)

theorem newOut_eq (h : u.io.out = s.io.out ++ l) : newOut s u = l := by
  rw [newOut, h, List.drop_left]

theorem Plugs.wires {c : Callback} {o : Oracle} (hc : c ≠ .waitpid)
    (h : Plugs (install s o) u) : Wires s (.callback c o) u := by
  obtain ⟨-, l, hout, hcloses, hplugged, hpaired⟩ := h
  have hnew : newOut s u = l := newOut_eq hout
  constructor
  · rw [hnew]
    exact hcloses.mono fun _ => False.elim
  · rw [hnew]
    exact hplugged
  · intro ht
    rw [hnew]
    refine hpaired ?_
    cases c <;> first | exact ht | exact absurd rfl hc

theorem heartbeat_plugs (s : Server) (p : ProcId) : Plugs s (heartbeatCb P s p) := by
  obtain ⟨x, hx, ⟨he, -⟩ | ⟨he, -⟩⟩ := heartbeatCb_same P s p
  · rw [he]
    exact Same.plugs hx
  · rw [he]
    exact (Same.plugs hx).trans (setProc_plugs x p (fun _ => rfl) (fun _ => rfl) fun _ h => h)

/-- The socket of a process is closed, and the process has it no more. -/
theorem childError_wires {o : Oracle} (hp : Holds s.reg p) :
    Wires s (.callback (.childError p) o) (childErrorCb (install s o) p) := by
  have hclose : childErrorCb (install s o) p =
      (emit (install s o) (.close (s.reg.procs p).pChildSock)).withReg
        fun r => r.setProc p freed := by
    unfold childErrorCb
    exact if_pos hp.2
  have hnew : newOut s (childErrorCb (install s o) p) = [.close (s.reg.procs p).pChildSock] := by
    rw [hclose]
    exact newOut_eq rfl
  have hbuf : ∀ pr, (freed pr).pChildSockbuf = true → pr.pChildSockbuf = true := by
    intro pr h
    cases h
  constructor
  · rw [hnew]
    exact ⟨⟨p, hp, rfl⟩, trivial⟩
  · intro q hq
    rw [hclose] at hq ⊢
    exact .inl (setProc_holds (r := s.reg) (fun _ => rfl) (fun _ => rfl) hbuf hq)
  · intro _
    rw [hnew]
    trivial

/-- A process that has ended is forgotten with its socket, and may be started again. -/
theorem reap_wires {x : Server} {pid : Pid} {ret : WaitStatus} {k : Kernel} {o : Oracle}
    (hp : s.reg.Tracked p) (hw : s.reg.kernel.waitpid = some (pid, ret, k))
    (hx : Forgets p k (install s o) x) (hd : Does P x u) :
    Wires s (.callback .waitpid o) u := by
  obtain ⟨m, hm, huses⟩ := hx.out
  obtain ⟨-, l, hout, hcloses, hplugged, hpaired⟩ := does_plugs hd
  have hfirst : Closes (SockOf s) m ∧ Paired m := by
    refine releases_closes fun y hy => ?_
    rw [huses] at hy
    split at hy
    · rename_i hbuf
      obtain rfl := List.mem_singleton.mp hy
      exact ⟨_, rfl, p, ⟨hp, hbuf⟩, rfl⟩
    · cases hy
  have hnew : newOut s u = m ++ l := by
    refine newOut_eq ?_
    rw [hout, hm, List.append_assoc]
    rfl
  constructor
  · rw [hnew]
    exact hfirst.1.append (hcloses.mono fun _ => False.elim)
  · intro q hq
    rw [hnew]
    rcases hplugged q hq with ⟨⟨ht, hbuf⟩, hsock⟩ | ⟨b, hb⟩
    · rw [hx.procs] at hbuf hsock
      exact .inl ⟨⟨((hx.tracked q).mp ht).2, hbuf⟩, hsock⟩
    · exact .inr ⟨b, List.mem_append_right _ hb⟩
  · intro ht
    have hchildren : childrenAt s (.callback .waitpid o) = k := by
      rw [childrenAt, hw]
      rfl
    rw [hnew]
    refine hfirst.2.append (hpaired ?_)
    rw [hx.kernel, hx.spawns, ← hchildren]
    exact ht

theorem step_wires {e : Event} (hl : Linked s.reg) (h : Step P s e u) : Wires s e u := by
  cases step_move hl h with
  | idle he hi =>
    have hnew : newOut s u = [] := newOut_eq (by rw [hi.out, List.append_nil])
    constructor
    · rw [hnew]
      trivial
    · exact .nil hi.procs hi.table _
    · intro _
      rw [hnew]
      trivial
  | handler c o he hc hw hd =>
    subst he
    refine (does_plugs hd).wires ?_
    rintro rfl
    cases hw
  | heartbeat p o he hu =>
    subst he hu
    exact (heartbeat_plugs _ p).wires nofun
  | childError p o he hu =>
    subst he hu
    exact childError_wires h.1.2.2
  | reap p pid ret k o he hp hw x hx hd =>
    subst he
    exact reap_wires hp hw hx hd

end Handlers

section Worlds

structure World where
  server : Server
  fds : Table Obj

variable {P : Platform} {w w' w₀ : World} {e : Event} {fs : List Fork} {t : Table Obj}
  {kept : Obj → Prop}

/-- `setcloseonexec` for the listening socket, which comes after the load of a dump. -/
def sealed (t : Table Obj) : Table Obj := fun n =>
  (t n).map fun e => if e.obj = .listening then { e with cloexec := true } else e

/-- What is opened before a callback. A dump is open while it is loaded, and so is the directory in
which it was searched, which libc closes on `exec`. -/
inductive Before (t : Table Obj) : Event → Table Obj → Prop where
  | loadDump (file : Bytes) (o : Oracle) (n : ℕ) (hn : t n = none) :
      Before t (.callback (.loadDump (some file)) o) (put t n .dumpFile)
  | unread (o : Oracle) : Before t (.callback (.loadDump none) o) t
  | loadNewest (file : Bytes) (o : Oracle) (m n : ℕ) (hm : t m = none) (hn : t n = none)
      (hne : n ≠ m) : Before t (.callback (.loadNewest (some file)) o)
        (put (setCloexec (put t m .directory) m) n .dumpFile)
  | unreadNewest (o : Oracle) (m : ℕ) (hm : t m = none) :
      Before t (.callback (.loadNewest none) o) (setCloexec (put t m .directory) m)
  | callback (c : Callback) (o : Oracle) (hc : (Event.callback c o).loads = none) :
      Before t (.callback c o) (sealed t)
  | childExit (pid : Pid) (ret : WaitStatus) (pos : ℕ) : Before t (.childExit pid ret pos) t
  | clock (c : ℤ) : Before t (.clock c) t

def useTable (t : Table Obj) : Use Resource → Table Obj
  | .acquire (.fd n) => put t n .reading
  | .release (.fd n) => close t n
  | _ => t

/-- What a load has closed. A dump that is refused stays open. -/
def loadTable (P : Platform) (s : Server) (file : Option Bytes) (o : Oracle) (t : Table Obj) :
    Table Obj :=
  let read := (loadDump P (install s o) file).2
  sealed (closeAll t fun x => x = .directory ∨ read ∧ x = .dumpFile)

/-- What `c_read` leaves of the descriptors when `open` returns `n`. -/
def readTable (P : Platform) (s : Server) (payload : Bytes) (o : Oracle) (n : ℕ) (t : Table Obj) :
    Table Obj :=
  (cReadCalls P s.reg (CStr.ofBytes (payload.drop 4)) (fileCalls o.logs n)).uses.foldl useTable t

/-- Callbacks that open something of their own. -/
def opens : Callback → Bool
  | .accept (.connected _) => true
  | .request _ _ payload => findCommand payload = some .read
  | .loadDump _ => true
  | .loadNewest _ => true
  | _ => false

/-- What has become of the table when a callback returns. -/
inductive After (P : Platform) (s : Server) (t : Table Obj) : Event → Table Obj → Prop where
  | load (c : Callback) (o : Oracle) (file : Option Bytes)
      (hc : (Event.callback c o).loads = some file) :
      After P s t (.callback c o) (loadTable P s file o t)
  | accept (con : ClientId) (o : Oracle) (n : ℕ) (hn : t n = none) :
      After P s t (.callback (.accept (.connected con)) o) (setCloexec (put t n (.client con)) n)
  | read (con : ClientId) (cid : UInt16) (payload : Bytes) (o : Oracle) (n : ℕ) (hn : t n = none)
      (hc : findCommand payload = some .read) :
      After P s t (.callback (.request con cid payload) o) (readTable P s payload o n t)
  | reopened (o : Oracle) (n : ℕ) (hn : t n = none) : After P s t (.callback (.sighup true) o)
      (setCloexec (put (closeAll t (· = .log)) n .log) n)
  | callback (c : Callback) (o : Oracle) (hc : opens c = false) : After P s t (.callback c o) t
  | childExit (pid : Pid) (ret : WaitStatus) (pos : ℕ) : After P s t (.childExit pid ret pos) t
  | clock (c : ℤ) : After P s t (.clock c) t

/-- A step of the server with its table, and the children that it forks. -/
inductive Turn (P : Platform) (w : World) (e : Event) : World → List Fork → Prop where
  | mk (u : Server) (x y z : Table Obj) (fs : List Fork) (step : Step P w.server e u)
      (before : Before w.fds e x) (calls : Calls x (newOut w.server u) y fs)
      (after : After P w.server y e z) : Turn P w e ⟨u, z⟩ fs

def Turns (P : Platform) (w : World) (e : Event) (w' : World) : Prop := ∃ fs, Turn P w e w' fs

/-- A server that has opened its socket and its log. -/
structure Begun (w : World) : Prop where
  server : ∃ autoDump allowExit t, w.server = initial autoDump allowExit t
  std : ∀ n < 3, w.fds n = some ⟨.terminal n, false⟩
  others : ∀ n e, 3 ≤ n → w.fds n = some e → e.cloexec = true ∨ e.obj = .listening

/-- Ends of sockets whose child could not be forked, logs that READ could not read, and a dump that
was refused. -/
def Stray (o : Obj) : Prop := o = .unused ∨ o = .reading ∨ o = .dumpFile

/-- Every log that is opened can be read, and a dump is not refused. -/
def Readable (P : Platform) (s : Server) (e : Event) : Prop := ∀ c o, e = .callback c o →
  (∀ path, o.logs path ≠ some .unreadable) ∧
    ∀ file, e.loads = some file → (loadDump P (install s o) file).2 = true

theorem stray_reads : Stray .reading ∧ Stray .dumpFile := ⟨.inr (.inl rfl), .inr (.inr rfl)⟩

theorem Safe.sealed (h : Safe (fun o => kept o ∨ o = .listening) t) : Safe kept (sealed t) where
  std n hn := by
    rw [UbervisorInheritance.sealed, h.std n hn]
    rfl
  each := by
    intro n e he hn
    obtain ⟨e', he', rfl⟩ := Option.map_eq_some_iff.mp he
    by_cases hlisten : e'.obj = .listening
    · rw [if_pos hlisten]
      exact .inl rfl
    · rw [if_neg hlisten]
      exact (h.each n e' he' hn).imp_right fun hk => hk.resolve_right hlisten

theorem readTable_cases (P : Platform) (s : Server) (payload : Bytes) (o : Oracle) (n : ℕ)
    (t : Table Obj) :
    readTable P s payload o n t = t ∨
      readTable P s payload o n t = close (put t n .reading) n ∨
      readTable P s payload o n t = put t n .reading ∧ ∃ path, o.logs path = some .unreadable := by
  have hfile : ∀ (path : CStr) (q : ReadRequest),
      (readFile path q (fileCalls o.logs n)).uses.foldl useTable t = t ∨
      (readFile path q (fileCalls o.logs n)).uses.foldl useTable t = close (put t n .reading) n ∨
      (readFile path q (fileCalls o.logs n)).uses.foldl useTable t = put t n .reading ∧
        ∃ path, o.logs path = some .unreadable := by
    intro path q
    unfold readFile fileCalls
    cases hlog : o.logs path with
    | none => exact .inl rfl
    | some f =>
      cases f with
      | unreadable => exact .inr (.inr ⟨rfl, path, hlog⟩)
      | regular content => exact .inr (.inl rfl)
  unfold readTable cReadCalls
  split
  · exact .inl rfl
  · exact .inl rfl
  · split
    · exact .inl rfl
    · rename_i q _
      unfold readStream
      split
      · exact .inl rfl
      · split
        · exact .inl rfl
        · dsimp only
          split
          · exact .inl rfl
          · split
            · exact .inl rfl
            · exact hfile _ q
  · exact .inl rfl

/-- What a step may leave open for its children. -/
def Meanwhile (kept : Obj → Prop) (e : Event) (o : Obj) : Prop :=
  kept o ∨ e.loads ≠ none ∧ (o = .listening ∨ o = .dumpFile)

/-- What holds between two steps. -/
structure Sound (kept : Obj → Prop) (w : World) : Prop where
  linked : Linked w.server.reg
  safe : Safe (fun o => kept o ∨ w.server.started = false ∧ o = .listening) w.fds
  socks : ∀ n, SockOf w.server n → 3 ≤ n

theorem before_safe {c : Callback} {o : Oracle} (hw : Sound kept w)
    (h : Before w.fds (.callback c o) t) : Safe (Meanwhile kept (.callback c o)) t := by
  have hload : (Event.callback c o).loads ≠ none → Safe (Meanwhile kept (.callback c o)) w.fds :=
    fun hl => hw.safe.mono fun o ho => ho.imp_right fun hlisten => ⟨hl, .inl hlisten.2⟩
  cases h with
  | loadDump file o n hn =>
    have hsafe := hload nofun
    exact hsafe.put (hsafe.free hn) (.inr ⟨nofun, .inr rfl⟩)
  | unread o => exact hload nofun
  | loadNewest file o m n hm hn hne =>
    have hsafe := hload nofun
    have hdir := hsafe.hidden (o := .directory) (hsafe.free hm)
    exact hdir.put (hsafe.free hn) (.inr ⟨nofun, .inr rfl⟩)
  | unreadNewest o m hm =>
    have hsafe := hload nofun
    exact hsafe.hidden (hsafe.free hm)
  | callback c o hc =>
    have hsealed := Safe.sealed (hw.safe.mono fun o ho => ho.imp_right And.right)
    exact hsealed.mono fun o ho => .inl ho

/-- A child that terminates and time that passes are no calls. -/
theorem idle_sound {u : Server} {x y z : Table Obj} (hw : Sound kept w)
    (hi : ∀ c o, e ≠ .callback c o) (step : Step P w.server e u) (before : Before w.fds e x)
    (calls : Calls x (newOut w.server u) y fs) (after : After P w.server y e z) :
    Sound kept ⟨u, z⟩ ∧ fs = [] := by
  have hl := step_linked hw.linked step
  obtain ⟨-, hplugged, -⟩ := step_wires hw.linked step
  have hout : newOut w.server u = [] ∧ u.started = w.server.started := by
    rw [step.2]
    cases e with
    | callback c o => exact absurd rfl (hi c o)
    | _ => exact ⟨List.drop_length, rfl⟩
  rw [hout.1] at calls hplugged
  have hsame : z = w.fds ∧ fs = [] := by
    cases calls
    cases before with
    | childExit pid ret pos =>
      cases after
      exact ⟨rfl, rfl⟩
    | clock c =>
      cases after
      exact ⟨rfl, rfl⟩
    | _ => exact absurd rfl (hi _ _)
  rw [hsame.1]
  refine ⟨⟨hl, ?_, ?_⟩, hsame.2⟩
  · rw [hout.2]
    exact hw.safe
  · rintro n ⟨p, hp, rfl⟩
    rcases hplugged p hp with ⟨hold, hsock⟩ | ⟨b, hb⟩
    · exact hw.socks _ ⟨p, hold, hsock.symm⟩
    · cases hb

theorem after_safe {c : Callback} {o : Oracle} {s : Server} {y z : Table Obj}
    (h : Safe (Meanwhile kept (.callback c o)) y) (ha : After P s y (.callback c o) z)
    (hr : kept .reading ∧ kept .dumpFile ∨ Readable P s (.callback c o)) : Safe kept z := by
  have hquiet : (Event.callback c o).loads = none → Safe kept y := fun hl =>
    h.mono fun o ho => ho.resolve_right fun hload => hload.1 hl
  cases ha with
  | load c o file hload =>
    refine Safe.sealed ⟨fun n hn => closeAll_some.mpr ⟨h.std n hn, decide_eq_false ?_⟩, ?_⟩
    · rintro (hbad | ⟨-, hbad⟩) <;> cases hbad
    · intro n e he hn
      obtain ⟨he', hobj⟩ := closeAll_some.mp he
      refine (h.each n e he' hn).imp_right fun hk => ?_
      rcases hk with hk | ⟨-, hlisten | hdump⟩
      · exact .inl hk
      · exact .inr hlisten
      · rcases hr with ⟨-, hkept⟩ | hall
        · rw [hdump]
          exact .inl hkept
        · have hread := (hall c o rfl).2 file hload
          exact absurd (.inr ⟨hread, hdump⟩) (of_decide_eq_false hobj)
  | accept con o n hn =>
    have hsafe := hquiet rfl
    exact hsafe.hidden (hsafe.free hn)
  | read con cid payload o n hn hread =>
    have hsafe := hquiet rfl
    have hn3 := hsafe.free hn
    rcases readTable_cases P s payload o n y with he | he | ⟨he, path, hpath⟩
    · rw [he]
      exact hsafe
    · rw [he]
      have hclosed : close (put y n .reading) n = close y n := by
        funext m
        by_cases hm : m = n
        · rw [hm, close_self, close_self]
        · rw [close_of_ne hm, close_of_ne hm, put_of_ne hm]
      rw [hclosed]
      exact hsafe.close hn3
    · rw [he]
      rcases hr with ⟨hkept, -⟩ | hall
      · exact hsafe.put hn3 hkept
      · exact absurd hpath ((hall _ o rfl).1 path)
  | reopened o n hn =>
    have hsafe := hquiet rfl
    have hlog : Safe kept (closeAll y (· = .log)) := hsafe.closeAll fun m => decide_eq_false nofun
    exact hlog.hidden (hsafe.free hn)
  | callback c o hopens =>
    refine hquiet ?_
    cases c <;> first | rfl | cases hopens

/-- What a step keeps, and what its children find. -/
theorem turn_sound (hw : Sound kept w) (h : Turn P w e w' fs)
    (hp : Tidy w.server e w'.server ∨ kept .unused)
    (hr : kept .reading ∧ kept .dumpFile ∨ Readable P w.server e) :
    Sound kept w' ∧ ∀ f ∈ fs, ForkSafe (Meanwhile kept e) f := by
  cases h with
  | mk u x y z fs step before calls after =>
    cases e with
    | callback c o =>
      obtain ⟨hcloses, hplugged, hpaired⟩ := step_wires hw.linked step
      obtain ⟨hy, hforks, hpairs⟩ := calls_safe calls (before_safe hw before) hcloses hw.socks
        (hp.imp (hpaired ·) .inl)
      have hz := after_safe hy after hr
      refine ⟨⟨step_linked hw.linked step, hz.mono fun o ho => .inl ho, ?_⟩, hforks⟩
      rintro n ⟨p, hp, rfl⟩
      rcases hplugged p hp with ⟨hold, hsock⟩ | ⟨b, hb⟩
      · exact hw.socks _ ⟨p, hold, hsock.symm⟩
      · exact hpairs _ b hb
    | childExit pid ret pos =>
      obtain ⟨hsound, rfl⟩ := idle_sound hw (fun _ _ h => by cases h) step before calls after
      exact ⟨hsound, nofun⟩
    | clock c =>
      obtain ⟨hsound, rfl⟩ := idle_sound hw (fun _ _ h => by cases h) step before calls after
      exact ⟨hsound, nofun⟩

theorem begun_sound (hw : Begun w) : Sound kept w := by
  obtain ⟨a, b, t, hs⟩ := hw.server
  refine ⟨by rw [hs]; exact Registry.linked_init, ⟨hw.std, fun n e he hn => ?_⟩, ?_⟩
  · refine (hw.others n e hn he).imp_right fun ho => .inr ⟨?_, ho⟩
    rw [hs]
    rfl
  · rintro n ⟨p, ⟨ht, -⟩, -⟩
    rw [hs] at ht
    exact absurd ht (by unfold Registry.Tracked; simp [initial, Registry.init])

end Worlds

section Programs

variable {P : Platform} {w₀ w w' : World} {e : Event} {fs : List Fork} {t : Table Obj} {a b : Fd}
  {cc : ChildConfig} {i : ℕ} {r₁ r₂ : Option ℕ} {kept : Obj → Prop}

/-- What a program finds open: its streams, and nothing else apart from some objects. -/
structure Inherits (kept : Obj → Prop) (streams : ℕ → Option (Entry Obj)) (t : Table Obj) : Prop
    where
  streams : ∀ n < 3, t n = streams n
  rest : ∀ n e, 3 ≤ n → t n = some e → kept e.obj

/-- The streams of the process of a group. -/
def logged (cc : ChildConfig) (i : ℕ) (r₁ r₂ : Option ℕ) (n : ℕ) : Option (Entry Obj) :=
  if n = 1 then stream (logPath cc.ccStdout i) r₁
  else if n = 2 then stream (logPath cc.ccStderr i) r₂
  else none

theorem fork_inherits (hf : ForkSafe kept (.child t a b)) (ho : Opening t a b cc i r₁ r₂) :
    Inherits kept (logged cc i r₁ r₂) (exec (spawnChild t a b cc i r₁ r₂)) := by
  obtain ⟨ha, hb, hall⟩ := hf
  obtain ⟨hzero, hone, htwo, hrest⟩ := spawnChild_spec ha hb ho
  constructor
  · intro n hn
    interval_cases n
    · exact hzero
    · exact hone
    · exact htwo
  · intro n e hn he
    rw [hrest n hn] at he
    split at he
    · cases he
    · rename_i hne
      rw [not_or] at hne
      obtain ⟨he, hc⟩ := exec_some.mp he
      refine (hall n e hn hne.1 hne.2 he).resolve_left ?_
      rw [hc]
      exact Bool.false_ne_true

theorem calls_plain {x y : Table Obj} {l l' : List Output} (hl : l.all plain = true)
    (h : Calls x l' y fs) : Calls x (l ++ l') y fs := by
  induction l with
  | nil => exact h
  | cons o l ih =>
    rw [List.all_cons, Bool.and_eq_true] at hl
    exact .other _ _ _ _ _ hl.1 (ih hl.2)

/-- A step that starts one process. -/
theorem calls_one {x : Table Obj} {l l' : List Output} {a b : Fd} (hl : l.all plain = true)
    (hl' : l'.all plain = true) (ha : x a = none) (hb : x b = none) (hne : a ≠ b) :
    Calls x (l ++ ([.socketpair a b, .close b] ++ l'))
      (setCloexec (close (put (put x a .pair) b .pair) b) a)
      [.child (put (put x a .pair) b .pair) a b] := by
  refine calls_plain hl (.started _ _ _ _ _ _ ha hb hne ?_)
  have h := calls_plain hl' (Calls.done (setCloexec (close (put (put x a .pair) b .pair) b) a))
  rw [List.append_nil] at h
  exact h

/-- A group whose output is logged. -/
def logRequest : Json :=
  .object [(text "name", .string (text "web")), (text "args", .array [.string (text "/bin/web")]),
    (text "stdout", .string (text "/log/%(NUM)")), (text "status", .int 1)]

def logPlatform : Platform := sample [printed logRequest, printed (.array [logRequest])]

/-- A server that has just been started: its streams and its socket. -/
def startFds (n : ℕ) : Option (Entry Obj) :=
  if n < 3 then some ⟨.terminal n, false⟩ else if n = 5 then some ⟨.listening, false⟩ else none

def startWorld : World := ⟨initial false false 100, startFds⟩

theorem startWorld_begun : Begun startWorld := by
  refine ⟨⟨false, false, 100, rfl⟩, fun n hn => if_pos hn, fun n e hn he => ?_⟩
  have hfds : startFds n = some e := he
  rw [startFds, if_neg (by omega)] at hfds
  split at hfds
  · cases hfds
    exact .inr rfl
  · cases hfds

def clientFds : Table Obj := setCloexec (put (sealed startFds) 7 (.client 0)) 7

@[irreducible] def clientState : Server := next logPlatform (initial false false 100) connecting

@[irreducible] def webState : Server :=
  next logPlatform clientState (asking "SPWN" logRequest [100])

/-- A client connects and starts a process, which gets the numbers 3 and 4 for its pair. -/
theorem webState_facts :
    Enabled (initial false false 100) connecting ∧
      newOut (initial false false 100) clientState = [] ∧
      Enabled clientState (asking "SPWN" logRequest [100]) ∧
      newOut clientState webState = (newOut clientState webState).take 5 ++
        ([.socketpair 3 4, .close 4] ++ (newOut clientState webState).drop 7) ∧
      ((newOut clientState webState).take 5).all plain = true ∧
      ((newOut clientState webState).drop 7).all plain = true ∧
      opens (.request 0 1 (text "SPWN" ++ printJson logRequest)) = false := by
  decide +kernel

theorem clientState_step : Step logPlatform (initial false false 100) connecting clientState := by
  obtain ⟨hen, -⟩ := webState_facts
  unfold clientState
  exact ⟨hen, rfl⟩

theorem clientWorld_turn : Turn logPlatform startWorld connecting ⟨clientState, clientFds⟩ [] := by
  obtain ⟨-, hout, -⟩ := webState_facts
  have hcalls : Calls (sealed startFds) (newOut (initial false false 100) clientState)
      (sealed startFds) [] := by
    rw [hout]
    exact .done _
  exact .mk _ _ _ _ _ clientState_step (.callback _ _ rfl) hcalls (.accept 0 _ 7 rfl)

theorem webState_step :
    Step logPlatform clientState (asking "SPWN" logRequest [100]) webState := by
  obtain ⟨-, -, hen, -⟩ := webState_facts
  unfold webState
  exact ⟨hen, rfl⟩

/-- What the process gets from `fork`. -/
def webFds : Table Obj := put (put (sealed clientFds) 3 .pair) 4 .pair

theorem webWorld_turn : Turn logPlatform ⟨clientState, clientFds⟩
    (asking "SPWN" logRequest [100]) ⟨webState, setCloexec (close webFds 4) 3⟩
      [.child webFds 3 4] := by
  obtain ⟨-, -, -, hout, hfirst, hlast, hclosed⟩ := webState_facts
  have hcalls := calls_one (x := sealed clientFds) hfirst hlast (a := 3) (b := 4) rfl rfl
    (by decide)
  rw [← hout] at hcalls
  exact .mk _ _ _ _ _ webState_step (.callback _ _ rfl) hcalls (.callback _ _ hclosed)

/-- The first stream that is opened gets the number 0. -/
theorem first_opening : Opening t a b cc i (some 0) none := by
  refine ⟨?_, nofun⟩
  rintro n ⟨⟩
  exact ⟨childTable_zero, nofun⟩

theorem turn_stray (hw : Sound Stray w) (hs : w.server.started = false → w.server.reg = .init)
    (h : Turn P w e w' fs) :
    Sound Stray w' ∧ (w'.server.started = false → w'.server.reg = .init) := by
  refine ⟨(turn_sound hw h (.inr (.inl rfl)) (.inl stray_reads)).1, ?_⟩
  obtain ⟨u, x, y, z, fs, step, before, calls, after⟩ := h
  exact step_unstarted hw.linked step hs

/-- A run of the server, which has no groups before it loads a dump. -/
theorem run_stray (hb : Begun w₀) (h : Execution (Turns P) Always w₀ w) :
    Sound Stray w ∧ (w.server.started = false → w.server.reg = .init) := by
  refine h.invariant (P := fun w => Sound Stray w ∧
    (w.server.started = false → w.server.reg = .init)) ?_ ⟨begun_sound hb, ?_⟩
  · rintro w e w' ⟨hw, hs⟩ ⟨fs, ht⟩ -
    exact turn_stray hw hs ht
  · obtain ⟨a, b, t, hs⟩ := hb.server
    rw [hs]
    exact fun _ => rfl

/-- Whatever happened before: the process of a group starts without a standard input, with its logs
as its other streams, and with nothing that belongs to a client, to the log of the server or to a
process that runs. -/
theorem child_inherits (hb : Begun w₀) (h : Execution (Turns P) Always w₀ w)
    (ht : Turn P w e w' fs) (hf : .child t a b ∈ fs) (ho : Opening t a b cc i r₁ r₂) :
    Inherits (Meanwhile Stray e) (logged cc i r₁ r₂) (exec (spawnChild t a b cc i r₁ r₂)) := by
  obtain ⟨hw, -⟩ := run_stray hb h
  obtain ⟨-, hforks⟩ := turn_sound hw ht (.inr (.inl rfl)) (.inl stray_reads)
  exact fork_inherits (hforks _ hf) ho

theorem webChild_inherits :
    Inherits (Meanwhile Stray (asking "SPWN" logRequest [100]))
      (logged (webState.reg.groups 0) 0 (some 0) none)
      (exec (spawnChild webFds 3 4 (webState.reg.groups 0) 0 (some 0) none)) :=
  child_inherits startWorld_begun (.single ⟨[], clientWorld_turn⟩ trivial) webWorld_turn
    List.mem_cons_self first_opening

/-- The streams of the server. -/
def terminals (n : ℕ) : Option (Entry Obj) := some ⟨.terminal n, false⟩

/-- No call of a start fails, and all files can be read. -/
def NeatTurn (P : Platform) (w : World) (e : Event) (w' : World) : Prop :=
  Tidy w.server e w'.server ∧ Readable P w.server e

/-- As long as no start, no READ and no load fails, a process finds nothing else, unless it is
started from a dump, and commands find the streams of the server. -/
theorem neat_inherits (hb : Begun w₀) (h : Execution (Turns P) (NeatTurn P) w₀ w)
    (ht : Turn P w e w' fs) (hq : NeatTurn P w e w') :
    (∀ t a b cc i r₁ r₂, .child t a b ∈ fs → Opening t a b cc i r₁ r₂ →
      Inherits (fun o => e.loads ≠ none ∧ (o = .listening ∨ o = .dumpFile)) (logged cc i r₁ r₂)
        (exec (spawnChild t a b cc i r₁ r₂))) ∧
    ∀ t, .command t ∈ fs →
      Inherits (fun o => e.loads ≠ none ∧ (o = .listening ∨ o = .dumpFile)) terminals
        (exec t) := by
  have hw : Sound (fun _ => False) w := by
    refine h.invariant (P := Sound fun _ => False) ?_ (begun_sound hb)
    rintro w e w' hw ⟨fs, ht⟩ ⟨htidy, hread⟩
    exact (turn_sound hw ht (.inl htidy) (.inr hread)).1
  obtain ⟨-, hforks⟩ := turn_sound hw ht (.inl hq.1) (.inr hq.2)
  have hkept : ∀ o, Meanwhile (fun _ => False) e o →
      e.loads ≠ none ∧ (o = .listening ∨ o = .dumpFile) := fun o ho => ho.resolve_left id
  refine ⟨fun t a b cc i r₁ r₂ hf ho => ?_, fun t hf => ?_⟩
  · obtain ⟨hstreams, hrest⟩ := fork_inherits (hforks _ hf) ho
    exact ⟨hstreams, fun n x hn hx => hkept _ (hrest n x hn hx)⟩
  · obtain ⟨hstd, heach⟩ : Safe (Meanwhile (fun _ => False) e) t := hforks _ hf
    refine ⟨fun n hn => ?_, fun n x hn hx => ?_⟩
    · rw [exec, hstd n hn]
      rfl
    · obtain ⟨hx, hc⟩ := exec_some.mp hx
      refine hkept _ ((heach n x hx hn).resolve_left ?_)
      rw [hc]
      exact Bool.false_ne_true

theorem quiet_readable {s : Server} {c : Callback} {pids : List Pid}
    (hc : (Event.callback c (starting pids)).loads = none) :
    Readable P s (.callback c (starting pids)) := by
  rintro c' o' ⟨⟩
  refine ⟨fun path => nofun, fun file hfile => ?_⟩
  cases hc.symm.trans hfile

/-- The process of a client finds its log and nothing else. -/
theorem webChild_neat :
    Inherits (fun o => (asking "SPWN" logRequest [100]).loads ≠ none ∧
        (o = .listening ∨ o = .dumpFile))
      (logged (webState.reg.groups 0) 0 (some 0) none)
      (exec (spawnChild webFds 3 4 (webState.reg.groups 0) 0 (some 0) none)) := by
  have hclient : Tidy (initial false false 100) connecting clientState := by decide +kernel
  have hweb : Tidy clientState (asking "SPWN" logRequest [100]) webState := by decide +kernel
  exact (neat_inherits startWorld_begun
    (.single ⟨[], clientWorld_turn⟩ ⟨hclient, quiet_readable rfl⟩) webWorld_turn
    ⟨hweb, quiet_readable rfl⟩).1 _ _ _ _ _ _ _ List.mem_cons_self first_opening

/-- The table of a child when it is forked. -/
def Fork.table : Fork → Table Obj
  | .child t _ _ => t
  | .command t => t

/-- A descriptor that is neither closed nor a client's stays open, and new ones have other
numbers. -/
theorem calls_keep {x y : Table Obj} {l : List Output} {K : Fd → Prop} {n : ℕ} {en : Entry Obj}
    (hc : Calls x l y fs) (hl : Closes K l) (hK : ¬ K n) (hn : x n = some en)
    (hcl : ∀ con, en.obj ≠ .client con) :
    ∀ f ∈ fs, f.table n = some en ∧ ∀ t a b, f = .child t a b → n ≠ a ∧ n ≠ b := by
  induction hc generalizing K with
  | done t => nofun
  | started t t' a b l fs ha hb hne _ ih =>
    have hna := ne_of_open hn ha
    have hnb := ne_of_open hn hb
    have hpair : put (put t a .pair) b .pair n = some en := by
      rw [put_of_ne hnb, put_of_ne hna]
      exact hn
    intro f hf
    rcases List.mem_cons.mp hf with rfl | hf
    · refine ⟨hpair, fun t a b he => ?_⟩
      cases he
      exact ⟨hna, hnb⟩
    · refine ih hl.2 ?_ ?_ f hf
      · rintro (hbad | rfl | rfl)
        · exact hK hbad
        · exact hna rfl
        · exact hnb rfl
      · rw [setCloexec_of_ne hna, close_of_ne hnb]
        exact hpair
  | failed t t' a b l fs ha hb hne _ _ ih =>
    have hna := ne_of_open hn ha
    have hnb := ne_of_open hn hb
    refine ih hl ?_ ?_
    · rintro (hbad | rfl | rfl)
      · exact hK hbad
      · exact hna rfl
      · exact hnb rfl
    · rw [put_of_ne hnb, put_of_ne hna]
      exact hn
  | closed t t' fd l fs _ ih =>
    have hne : n ≠ fd := by
      rintro rfl
      exact hK hl.1
    exact ih hl.2 hK ((close_of_ne hne).trans hn)
  | dropped t t' con l fs _ ih =>
    exact ih hl hK (closeAll_some.mpr ⟨hn, decide_eq_false (hcl con)⟩)
  | executed t t' args l fs _ ih =>
    intro f hf
    rcases List.mem_cons.mp hf with rfl | hf
    · exact ⟨hn, nofun⟩
    · exact ih hl hK hn f hf
  | other t t' o l fs ho _ ih =>
    have hrest : Closes K l := by
      cases o with
      | socketpair a b => cases ho
      | close fd => cases ho
      | _ => exact hl
    exact ih hrest hK hn

/-- What is opened before a load has other numbers. -/
theorem before_keeps {x : Table Obj} {n : ℕ} {en : Entry Obj} (h : Before t e x)
    (hload : e.loads ≠ none) (hn : t n = some en) : x n = some en := by
  cases h with
  | loadDump file o m hm => exact (put_of_ne (ne_of_open hn hm)).trans hn
  | unread o => exact hn
  | loadNewest file o m k hm hk hkm =>
    rw [put_of_ne (ne_of_open hn hk), setCloexec_of_ne (ne_of_open hn hm),
      put_of_ne (ne_of_open hn hm)]
    exact hn
  | unreadNewest o m hm =>
    rw [setCloexec_of_ne (ne_of_open hn hm), put_of_ne (ne_of_open hn hm)]
    exact hn
  | callback c o hc => exact absurd hc hload
  | childExit pid ret pos => exact absurd rfl hload
  | clock c => exact absurd rfl hload

@[irreducible] def loadState : Server :=
  next logPlatform (initial false false 100) (loading [logRequest] [100])

/-- The process of a dump gets the same numbers. -/
theorem loadState_facts :
    Enabled (initial false false 100) (loading [logRequest] [100]) ∧
      newOut (initial false false 100) loadState =
        (newOut (initial false false 100) loadState).take 2 ++
          ([.socketpair 3 4, .close 4] ++ (newOut (initial false false 100) loadState).drop 4) ∧
      ((newOut (initial false false 100) loadState).take 2).all plain = true ∧
      ((newOut (initial false false 100) loadState).drop 4).all plain = true := by
  decide +kernel

theorem loadState_step :
    Step logPlatform (initial false false 100) (loading [logRequest] [100]) loadState := by
  obtain ⟨hen, -⟩ := loadState_facts
  unfold loadState
  exact ⟨hen, rfl⟩

/-- What the process of a dump gets from `fork`. -/
def loadFds : Table Obj := put (put (put startFds 6 .dumpFile) 3 .pair) 4 .pair

theorem loadWorld_turn : ∃ w, Turn logPlatform startWorld (loading [logRequest] [100]) w
    [.child loadFds 3 4] := by
  obtain ⟨-, hout, hfirst, hlast⟩ := loadState_facts
  have hcalls := calls_one (x := put startFds 6 .dumpFile) hfirst hlast (a := 3) (b := 4) rfl rfl
    (by decide)
  rw [← hout] at hcalls
  exact ⟨_, .mk _ _ _ _ _ loadState_step (.loadDump _ _ 6 rfl) hcalls (.load _ _ _ rfl)⟩

/-- Until a dump is loaded time passes, and nothing is opened or closed. -/
theorem unstarted_fds (hb : Begun w₀) (h : Execution (Turns P) Always w₀ w)
    (hs : w.server.started = false) : w.fds = w₀.fds := by
  refine h.invariant_under
    (I := fun w => Sound Stray w ∧ (w.server.started = false → w.server.reg = .init))
    (P := fun w => w.server.started = false → w.fds = w₀.fds) ?_ ?_
    (run_stray (P := P) hb (.refl _))
    (fun _ => rfl) hs
  · rintro w e w' ⟨hw, hinit⟩ ⟨fs, ht⟩ -
    exact turn_stray hw hinit ht
  · rintro w e w' ⟨hw, -⟩ hfds ⟨fs, ht⟩ - hu
    obtain ⟨u, x, y, z, fs, step, before, calls, after⟩ := ht
    cases e with
    | callback c o =>
      have hstarted : u.started = true :=
        (UbervisorOutputs.step_outputs hw.linked step).started c o rfl
      exact absurd (hu.symm.trans hstarted) nofun
    | _ =>
      have hout : newOut w.server u = [] := by
        rw [step.2]
        exact List.drop_length
      rw [hout] at calls
      cases calls
      cases before
      cases after
      rw [step.2] at hu
      exact hfds hu

/-- What listens when a dump is loaded has been opened by `cmd_server`, and every child gets it. -/
theorem load_keeps {f : Fork} {n : ℕ} (hb : Begun w₀) (h : Execution (Turns P) Always w₀ w)
    (ht : Turn P w e w' fs) (hload : e.loads ≠ none)
    (hn : w₀.fds n = some ⟨.listening, false⟩) (hf : f ∈ fs) :
    3 ≤ n ∧ f.table n = some ⟨.listening, false⟩ ∧
      ∀ t a b, f = .child t a b → n ≠ a ∧ n ≠ b := by
  obtain ⟨hsound, hinit⟩ := run_stray hb h
  obtain ⟨u, x, y, z, fs, step, before, calls, after⟩ := ht
  have hstart : w.server.started = false := by
    cases hfile : e.loads with
    | none => exact absurd hfile hload
    | some file => exact load_unstarted step hfile
  rw [← unstarted_fds hb h hstart] at hn
  have hn3 : 3 ≤ n := by
    by_contra hlt
    rw [hsound.safe.std n (by omega)] at hn
    cases hn
  obtain ⟨hcloses, -, -⟩ := step_wires hsound.linked step
  have hnone : ¬ SockOf w.server n := by
    rintro ⟨p, ⟨hp, -⟩, -⟩
    rw [hinit hstart] at hp
    exact absurd hp (by unfold Registry.Tracked; simp [Registry.init])
  have hclient : ∀ con, Obj.listening ≠ .client con := by
    intro con h
    cases h
  exact ⟨hn3, calls_keep calls hcloses hnone (before_keeps before hload hn) hclient f hf⟩

/-- Processes that are started from a dump get the listening socket of the server: it is closed on
`exec` only after the load. -/
theorem loaded_inherits {n : ℕ} (hb : Begun w₀) (h : Execution (Turns P) Always w₀ w)
    (ht : Turn P w e w' fs) (hload : e.loads ≠ none)
    (hn : w₀.fds n = some ⟨.listening, false⟩) (hf : .child t a b ∈ fs)
    (ho : Opening t a b cc i r₁ r₂) :
    exec (spawnChild t a b cc i r₁ r₂) n = some ⟨.listening, false⟩ := by
  obtain ⟨hn3, htable, hother⟩ := load_keeps hb h ht hload hn hf
  obtain ⟨hna, hnb⟩ := hother t a b rfl
  obtain ⟨hsound, -⟩ := run_stray hb h
  obtain ⟨-, hforks⟩ := turn_sound hsound ht (.inr (.inl rfl)) (.inl stray_reads)
  obtain ⟨ha, hb, -⟩ := hforks _ hf
  obtain ⟨-, -, -, hrest⟩ := spawnChild_spec ha hb ho
  rw [hrest n hn3, if_neg (not_or.mpr ⟨hna, hnb⟩)]
  exact exec_some.mpr ⟨htable, rfl⟩

theorem logChild_inherits :
    exec (spawnChild loadFds 3 4 (loadState.reg.groups 0) 0 (some 0) none) 5 =
      some ⟨.listening, false⟩ := by
  obtain ⟨w, hw⟩ := loadWorld_turn
  exact loaded_inherits startWorld_begun (.refl _) hw nofun rfl List.mem_cons_self first_opening

end Programs

end UbervisorInheritance
