import Mathlib.Data.Fintype.Basic
import Ubervisor.Runs

/-! # Instances of the server

`cmd_server` asks at the path of the socket whether a server runs, deletes the socket if none
answers, and binds its own. Several starts may be under way at once, and each asks before it calls
`chdir`, but deletes and binds after it. The socket is inherited by the processes that `load_dump`
starts, for `setcloseonexec` is only called after it. -/
namespace UbervisorInstances

open UbervisorRuns

variable {ι κ : Type*} [DecidableEq ι]

/-- What is at a path. Sockets are numbered as they are made. -/
inductive Node where
  | socket (i : ℕ)
  | file
  deriving DecidableEq

/-- Where the path of the socket leads to before `chdir`, and where it leads to after it. -/
structure Start (κ : Type*) where
  asks : κ
  binds : κ

/-- How far `cmd_server` has come: before `sock_connect`, connected but not accepted, waiting for
the reply to HELO, before `stat`, `unlink`, `bind` and `listen`, in `load_dump`, and in the event
loop. -/
inductive Stage where
  | fresh
  | queued (i : ℕ)
  | accepted (i : ℕ)
  | looking
  | deleting
  | binding
  | bound (i : ℕ)
  | loading (i : ℕ)
  | serving (i : ℕ)
  | ended
  deriving DecidableEq

/-- The server that made a socket keeps it until it ends, and `heirs` counts the other processes
that have it. Which sockets listened when a start called `connect`, whether that failed although
somebody may listen, and who has deleted which socket, is recorded for the statements only. -/
structure World (ι κ : Type*) where
  stage : ι → Stage
  path : κ → Option Node
  made : ℕ
  listening : ℕ → Bool
  keeper : ℕ → Option ι
  heirs : ℕ → ℕ
  known : ι → ℕ → Bool
  missed : ι → Bool
  deleted : List (ι × ℕ)

def World.move (w : World ι κ) (p : ι) (st : Stage) : World ι κ :=
  { w with stage := Function.update w.stage p st }

def World.recall (w : World ι κ) (p : ι) : World ι κ :=
  { w with known := Function.update w.known p w.listening }

def World.miss (w : World ι κ) (p : ι) : World ι κ :=
  { w with missed := Function.update w.missed p true }

/-- `connect` succeeds if somebody has a socket that listens. -/
def Reachable (w : World ι κ) (i : ℕ) : Prop :=
  w.listening i = true ∧ (w.keeper i ≠ none ∨ 0 < w.heirs i)

instance (w : World ι κ) (i : ℕ) : Decidable (Reachable w i) :=
  inferInstanceAs (Decidable (_ ∧ _))

/-- The event loop of its server runs. -/
def Answered (w : World ι κ) (i : ℕ) : Prop :=
  match w.keeper i with
  | some q => w.stage q = .serving i
  | none => False

instance (w : World ι κ) (i : ℕ) : Decidable (Answered w i) := by
  unfold Answered
  cases w.keeper i <;> infer_instance

/-- In `unreached` there is no `socket`, or `connect` fails for another reason than that nobody
listens. In `unread` what comes is no reply, and in `unseen` it is `stat` that fails. -/
inductive Event (ι : Type*) where
  | connect (p : ι)
  | unreached (p : ι)
  | denied (p : ι)
  | accept (p : ι)
  | reply (p : ι)
  | unread (p : ι)
  | hangup (p : ι)
  | stat (p : ι)
  | unseen (p : ι)
  | unlink (p : ι)
  | bind (p : ι)
  | listen (p : ι)
  | spawn (p : ι)
  | serve (p : ι)
  | die (p : ι)
  | heirForks (i : ℕ)
  | heirEnds (i : ℕ)
  deriving DecidableEq

/-- A connection that was not accepted is reset when nobody has the socket any more, and one that
was accepted when its server ends. -/
def Enabled (w : World ι κ) : Event ι → Prop
  | .connect p | .unreached p | .denied p => w.stage p = .fresh
  | .accept p => match w.stage p with
    | .queued i => Answered w i
    | _ => False
  | .reply p | .unread p => match w.stage p with
    | .accepted i => Answered w i
    | _ => False
  | .hangup p => match w.stage p with
    | .queued i => w.keeper i = none ∧ w.heirs i = 0
    | .accepted i => w.keeper i = none
    | _ => False
  | .stat p | .unseen p => w.stage p = .looking
  | .unlink p => w.stage p = .deleting
  | .bind p => w.stage p = .binding
  | .listen p => match w.stage p with
    | .bound _ => True
    | _ => False
  | .spawn p | .serve p => match w.stage p with
    | .loading _ => True
    | _ => False
  | .die p => w.stage p ≠ .ended
  | .heirForks i | .heirEnds i => 0 < w.heirs i

instance (w : World ι κ) (e : Event ι) : Decidable (Enabled w e) := by
  cases e <;> simp only [Enabled] <;> (try split) <;> infer_instance

/-- `cmd_server` goes on if there is no reply, and exits if there is one. -/
def connected (w : World ι κ) (p : ι) (k : κ) : World ι κ :=
  match w.path k with
  | some (.socket i) => (w.recall p).move p (if Reachable w i then .queued i else .looking)
  | _ => (w.recall p).move p .looking

def next [DecidableEq κ] (s : ι → Start κ) (w : World ι κ) : Event ι → World ι κ
  | .connect p => connected w p (s p).asks
  | .unreached p => ((w.recall p).miss p).move p .looking
  | .denied p => w.move p .ended
  | .accept p => match w.stage p with
    | .queued i => w.move p (.accepted i)
    | _ => w
  | .reply p => w.move p .ended
  | .unread p => (w.miss p).move p .looking
  | .hangup p => w.move p .looking
  | .stat p => match w.path (s p).binds with
    | none => w.move p .binding
    | some (.socket _) => w.move p .deleting
    -- "Refusing to delete non-socket"
    | some .file => w.move p .ended
  | .unseen p => w.move p .binding
  | .unlink p => match w.path (s p).binds with
    | none => w.move p .ended
    | some (.socket i) =>
      { w.move p .binding with
        path := Function.update w.path (s p).binds none
        deleted := (p, i) :: w.deleted }
    | some .file =>
      { w.move p .binding with path := Function.update w.path (s p).binds none }
  | .bind p => match w.path (s p).binds with
    | none =>
      { w.move p (.bound w.made) with
        path := Function.update w.path (s p).binds (some (.socket w.made))
        keeper := Function.update w.keeper w.made (some p)
        made := w.made + 1 }
    | some _ => w.move p .ended
  | .listen p => match w.stage p with
    | .bound i =>
      { w.move p (.loading i) with listening := Function.update w.listening i true }
    | _ => w
  | .spawn p => match w.stage p with
    | .loading i => { w with heirs := Function.update w.heirs i (w.heirs i + 1) }
    | _ => w
  | .serve p => match w.stage p with
    | .loading i => w.move p (.serving i)
    | _ => w
  | .die p =>
    { w.move p .ended with keeper := fun i => if w.keeper i = some p then none else w.keeper i }
  | .heirForks i => { w with heirs := Function.update w.heirs i (w.heirs i + 1) }
  | .heirEnds i => { w with heirs := Function.update w.heirs i (w.heirs i - 1) }

abbrev Step [DecidableEq κ] (s : ι → Start κ) : World ι κ → Event ι → World ι κ → Prop :=
  Guarded Enabled (next s)

/-- What earlier servers have left: a socket may still listen, if processes that were started from a
dump have it. -/
structure Left (κ : Type*) where
  path : κ → Option Node
  made : ℕ
  listening : ℕ → Bool
  heirs : ℕ → ℕ
  path_made : ∀ k i, path k = some (.socket i) → i < made
  listening_made : ∀ i, listening i = true → i < made

def World.start (l : Left κ) : World ι κ where
  stage _ := .fresh
  path := l.path
  made := l.made
  listening := l.listening
  keeper _ := none
  heirs := l.heirs
  known _ _ := false
  missed _ := false
  deleted := []

/-- A server that has the socket. -/
def Holds (st : Stage) (i : ℕ) : Prop := st = .bound i ∨ st = .loading i ∨ st = .serving i

/-- A server that listens. -/
def Up (st : Stage) (i : ℕ) : Prop := st = .loading i ∨ st = .serving i

def Asks (st : Stage) (i : ℕ) : Prop := st = .queued i ∨ st = .accepted i

/-- A start that has found no server. -/
def Cleared (st : Stage) : Prop := st = .looking ∨ st = .deleting ∨ st = .binding

/-- A start that has called `connect`. -/
def Asked (st : Stage) : Prop := Cleared st ∨ ∃ i, Asks st i

section Sound

variable {s : ι → Start κ} {w : World ι κ} {p q : ι} {i j : ℕ} {st : Stage} {e : Event ι}

/-- A start that may have missed the server of a socket: the socket did not listen when it called
`connect`, or it asked at another path than it binds, or its call failed. -/
def Misses (s : ι → Start κ) (w : World ι κ) (p : ι) (i : ℕ) : Prop :=
  w.known p i = false ∨ (s p).asks ≠ (s p).binds ∨ w.missed p = true

/-- A socket has its server, and it is at its path unless a start has deleted it that may have
missed the server. -/
structure Sound (s : ι → Start κ) (w : World ι κ) : Prop where
  kept : ∀ i p, w.keeper i = some p ↔ Holds (w.stage p) i
  keeper_made : ∀ i, w.keeper i ≠ none → i < w.made
  listening_made : ∀ i, w.listening i = true → i < w.made
  path_made : ∀ k i, w.path k = some (.socket i) → i < w.made
  known_made : ∀ p i, w.known p i = true → i < w.made
  asks_made : ∀ p i, Asks (w.stage p) i → i < w.made
  seen : ∀ p i, Asked (w.stage p) → w.path (s p).binds = some (.socket i) → Misses s w p i ∨
    w.keeper i = none ∨ Asks (w.stage p) i
  spent : ∀ x ∈ w.deleted, w.stage x.1 ≠ .fresh
  reached : ∀ i p, w.keeper i = some p → w.path (s p).binds = some (.socket i) ∨
    ∃ q, (q, i) ∈ w.deleted ∧ Misses s w q i

@[simp] theorem move_self : (w.move p st).stage p = st := Function.update_self ..

theorem move_of_ne (h : q ≠ p) : (w.move p st).stage q = w.stage q :=
  Function.update_of_ne h _ _

theorem misses_recall (h : q ≠ p) : Misses s (w.recall p) q i ↔ Misses s w q i := by
  simp [Misses, World.recall, h]

theorem Misses.miss (h : Misses s w q i) : Misses s (w.miss p) q i := by
  refine h.imp_right fun h => h.imp_right fun hq => ?_
  by_cases he : q = p
  · simp [World.miss, he]
  · simpa [World.miss, he] using hq

omit [DecidableEq ι] in
theorem start_sound (l : Left κ) : Sound s (.start l : World ι κ) where
  kept i p := by simp [World.start, Holds]
  keeper_made i h := absurd rfl h
  listening_made := l.listening_made
  path_made := l.path_made
  known_made p i h := by cases h
  asks_made p i h := by simp [World.start, Asks] at h
  seen p i h := by simp [World.start, Asked, Cleared, Asks] at h
  spent x h := absurd h List.not_mem_nil
  reached i p h := by cases h

/-- A process that moves on without a socket of its own. -/
theorem Sound.move (h : Sound s w) (hold : ∀ i, Holds st i ↔ Holds (w.stage p) i)
    (hfresh : st ≠ .fresh) (hmade : ∀ i, Asks st i → i < w.made)
    (hseen : ∀ i, Asked st → w.path (s p).binds = some (.socket i) → Misses s w p i ∨
      w.keeper i = none ∨ Asks st i) :
    Sound s (w.move p st) where
  kept i q := by
    by_cases hq : q = p
    · subst hq
      rw [move_self, hold]
      exact h.kept i q
    · rw [move_of_ne hq]
      exact h.kept i q
  keeper_made := h.keeper_made
  listening_made := h.listening_made
  path_made := h.path_made
  known_made := h.known_made
  asks_made q i := by
    by_cases hq : q = p
    · subst hq
      rw [move_self]
      exact hmade i
    · rw [move_of_ne hq]
      exact h.asks_made q i
  seen q i := by
    by_cases hq : q = p
    · subst hq
      rw [move_self]
      exact hseen i
    · rw [move_of_ne hq]
      exact h.seen q i
  spent x hx := by
    by_cases hq : x.1 = p
    · rw [hq, move_self]
      exact hfresh
    · rw [move_of_ne hq]
      exact h.spent x hx
  reached := h.reached

omit [DecidableEq ι] in
/-- A process without a socket stays so. -/
theorem hold_none {a b : Stage} (ha : ∀ i, ¬ Holds a i) (hb : ∀ i, ¬ Holds b i) (i : ℕ) :
    Holds a i ↔ Holds b i := iff_of_false (ha i) (hb i)

theorem Sound.ended (h : Sound s w) (hp : ∀ i, ¬ Holds (w.stage p) i) :
    Sound s (w.move p .ended) :=
  h.move (hold_none (by simp [Holds]) hp) nofun (by simp [Asks]) (by simp [Asked, Cleared, Asks])

/-- `connect` is called once, so what has been said of the others is still true. -/
theorem Sound.recall (h : Sound s w) (hp : w.stage p = .fresh) : Sound s (w.recall p) where
  kept := h.kept
  keeper_made := h.keeper_made
  listening_made := h.listening_made
  path_made := h.path_made
  known_made q i hq := by
    by_cases he : q = p
    · subst he
      exact h.listening_made i (by simpa [World.recall] using hq)
    · exact h.known_made q i (by simpa [World.recall, he] using hq)
  asks_made := h.asks_made
  seen q i hst hpath := by
    have he : q ≠ p := by
      rintro rfl
      simp [World.recall, hp, Asked, Cleared, Asks] at hst
    rw [misses_recall he]
    exact h.seen q i hst hpath
  spent := h.spent
  reached i r hr := by
    rcases h.reached i r hr with hpath | ⟨q, hq, hmisses⟩
    · exact .inl hpath
    · have he : q ≠ p := fun he => h.spent _ hq (he ▸ hp)
      exact .inr ⟨q, hq, (misses_recall he).mpr hmisses⟩

theorem Sound.miss (h : Sound s w) : Sound s (w.miss p) where
  kept := h.kept
  keeper_made := h.keeper_made
  listening_made := h.listening_made
  path_made := h.path_made
  known_made := h.known_made
  asks_made := h.asks_made
  seen q i hst hpath := (h.seen q i hst hpath).imp_left Misses.miss
  spent := h.spent
  reached i r hr := by
    rcases h.reached i r hr with hpath | ⟨q, hq, hmisses⟩
    · exact .inl hpath
    · exact .inr ⟨q, hq, hmisses.miss⟩

/-- A start whose call fails goes on. -/
theorem Sound.goesOn (h : Sound s w) (hp : ∀ i, ¬ Holds (w.stage p) i) :
    Sound s ((w.miss p).move p .looking) :=
  h.miss.move (hold_none (by simp [Holds]) hp) nofun (by simp [Asks]) fun _ _ _ =>
    .inl (.inr (.inr (Function.update_self ..)))

variable [DecidableEq κ]

theorem Sound.connect (h : Sound s w) (hp : w.stage p = .fresh) :
    Sound s (next s w (.connect p)) := by
  have hold : ∀ st, (∀ i, ¬ Holds st i) → ∀ i, Holds st i ↔ Holds (w.stage p) i :=
    fun st hst => hold_none hst (by simp [hp, Holds])
  have hr := h.recall hp
  -- what is asked matters only if it is bound
  have hseen : ∀ st, (∀ i, w.path (s p).asks = some (.socket i) → Misses s (w.recall p) p i ∨
        w.keeper i = none ∨ Asks st i) →
      ∀ i, Asked st → (w.recall p).path (s p).binds = some (.socket i) →
        Misses s (w.recall p) p i ∨ w.keeper i = none ∨ Asks st i := by
    intro st hasks i _ hpath
    by_cases hab : (s p).asks = (s p).binds
    · exact hasks i (hab ▸ hpath)
    · exact .inl (.inr (.inl hab))
  change Sound s (connected w p (s p).asks)
  unfold connected
  split
  · rename_i i hpath
    by_cases hreach : Reachable w i
    · rw [if_pos hreach]
      refine hr.move (hold _ (by simp [Holds])) nofun (fun j hj => ?_)
        (hseen _ fun j hj => .inr (.inr ?_))
      · obtain rfl : i = j := by simpa [Asks] using hj
        exact h.path_made _ i hpath
      · obtain rfl : i = j := by simpa using hpath.symm.trans hj
        exact .inl rfl
    · rw [if_neg hreach]
      refine hr.move (hold _ (by simp [Holds])) nofun (by simp [Asks]) (hseen _ fun j hj => ?_)
      obtain rfl : i = j := by simpa using hpath.symm.trans hj
      by_cases hk : w.keeper i = none
      · exact .inr (.inl hk)
      · -- somebody has it, so it does not listen
        refine .inl (.inl ?_)
        have hdeaf : w.listening i ≠ true := fun hlistens => hreach ⟨hlistens, .inl hk⟩
        simpa [World.recall] using hdeaf
  · rename_i hpath
    exact hr.move (hold _ (by simp [Holds])) nofun (by simp [Asks])
      (hseen _ fun j hj => absurd hj (hpath j))

omit [DecidableEq ι] [DecidableEq κ] in
/-- A connection is reset when its server is gone. -/
theorem hangup_asks (hen : Enabled w (.hangup p)) :
    ∃ j, Asks (w.stage p) j ∧ w.keeper j = none := by
  unfold Enabled at hen
  dsimp only at hen
  cases hst : w.stage p with
  | queued j =>
    rw [hst] at hen
    exact ⟨j, .inl rfl, hen.1⟩
  | accepted j =>
    rw [hst] at hen
    exact ⟨j, .inr rfl, hen⟩
  | _ => simp [hst] at hen

theorem Sound.hangup (h : Sound s w) (hen : Enabled w (.hangup p)) :
    Sound s (next s w (.hangup p)) := by
  obtain ⟨j, hasks, hnone⟩ := hangup_asks hen
  have hp : ∀ i, ¬ Holds (w.stage p) i := by
    rcases hasks with hst | hst <;> simp [hst, Holds]
  refine h.move (hold_none (by simp [Holds]) hp) nofun (by simp [Asks]) fun i _ hpath => ?_
  rcases h.seen p i (.inr ⟨j, hasks⟩) hpath with hmisses | hk | hi
  · exact .inl hmisses
  · exact .inr (.inl hk)
  · obtain rfl : i = j := by
      rcases hasks with hst | hst <;> simpa [hst, Asks, eq_comm] using hi
    exact .inr (.inl hnone)

omit [DecidableEq κ] in
/-- A start that has found no server takes its next step. -/
theorem Sound.clear (h : Sound s w) (hp : Cleared (w.stage p)) (hst : Cleared st) :
    Sound s (w.move p st) := by
  have hnone : ∀ {a : Stage}, Cleared a → ∀ i, ¬ Holds a i ∧ ¬ Asks a i := by
    rintro a (rfl | rfl | rfl) i <;> simp [Holds, Asks]
  refine h.move (hold_none (fun i => (hnone hst i).1) fun i => (hnone hp i).1) ?_
    (fun i hi => absurd hi (hnone hst i).2) fun i _ hpath => ?_
  · rintro rfl
    simp [Cleared] at hst
  · refine (h.seen p i (.inl hp) hpath).imp_right fun hk => ?_
    exact .inl (hk.resolve_right (hnone hp i).2)

theorem Sound.stat (h : Sound s w) (hp : w.stage p = .looking) : Sound s (next s w (.stat p)) := by
  have hclear : Cleared (w.stage p) := .inl hp
  unfold next
  dsimp only
  split
  · exact h.clear hclear (.inr (.inr rfl))
  · exact h.clear hclear (.inr (.inl rfl))
  · exact h.ended (by simp [hp, Holds])

omit [DecidableEq ι] in
/-- What is at a path is deleted. -/
theorem Sound.erase (h : Sound s w) {k : κ} {d : List (ι × ℕ)}
    (hd : ∀ x ∈ d, w.stage x.1 ≠ .fresh) (hmore : ∀ x ∈ w.deleted, x ∈ d)
    (hlost : ∀ i p, w.keeper i = some p → (s p).binds = k → w.path k = some (.socket i) →
      ∃ q, (q, i) ∈ d ∧ Misses s w q i) :
    Sound s { w with path := Function.update w.path k none, deleted := d } where
  kept := h.kept
  keeper_made := h.keeper_made
  listening_made := h.listening_made
  path_made k' i hi := by
    by_cases hk : k' = k
    · simp [hk] at hi
    · exact h.path_made k' i (by simpa [hk] using hi)
  known_made := h.known_made
  asks_made := h.asks_made
  seen q i hst hpath := by
    by_cases hk : (s q).binds = k
    · simp [hk] at hpath
    · exact h.seen q i hst (by simpa [hk] using hpath)
  spent := hd
  reached i r hr := by
    rcases h.reached i r hr with hpath | ⟨q, hq, hmisses⟩
    · by_cases hk : (s r).binds = k
      · exact .inr (hlost i r hr hk (hk ▸ hpath))
      · exact .inl (by simpa [hk] using hpath)
    · exact .inr ⟨q, hmore _ hq, hmisses⟩

/-- Whoever deletes a socket that has its server may have missed it. -/
theorem Sound.unlink (h : Sound s w) (hp : w.stage p = .deleting) :
    Sound s (next s w (.unlink p)) := by
  have hclear : Cleared (w.stage p) := .inr (.inl hp)
  unfold next
  dsimp only
  split
  · exact h.ended (by simp [hp, Holds])
  · rename_i i hpath
    refine Sound.clear (h.erase (fun x hx => ?_) (fun x hx => List.mem_cons_of_mem _ hx)
      fun j r hr _ hj => ?_) hclear (.inr (.inr rfl))
    · rcases List.mem_cons.mp hx with rfl | hx
      · rw [hp]
        nofun
      · exact h.spent x hx
    · obtain rfl : i = j := by simpa using hpath.symm.trans hj
      refine ⟨p, List.mem_cons_self, (h.seen p i (.inl hclear) hpath).resolve_right ?_⟩
      simp [hr, hp, Asks]
  · rename_i hpath
    refine Sound.clear (h.erase h.spent (fun _ hx => hx) fun j r _ _ hj => ?_) hclear
      (.inr (.inr rfl))
    exact absurd (hpath.symm.trans hj) nofun

/-- A new socket is made, which nobody can know. -/
theorem Sound.bind (h : Sound s w) (hp : w.stage p = .binding) : Sound s (next s w (.bind p)) := by
  have hold : ∀ i, ¬ Holds (w.stage p) i := by simp [hp, Holds]
  unfold next
  dsimp only
  split
  · rename_i hpath
    have hnew : w.keeper w.made = none := by
      by_contra hk
      exact absurd (h.keeper_made _ hk) (Nat.lt_irrefl _)
    refine ⟨fun i q => ?_, fun i hi => ?_, fun i hi => Nat.lt_succ_of_lt (h.listening_made i hi),
      fun k i hi => ?_, fun q i hi => Nat.lt_succ_of_lt (h.known_made q i hi), fun q i hi => ?_,
      fun q i hst hq => ?_, fun x hx => ?_, fun i r hr => ?_⟩
    · by_cases hq : q = p
      · subst hq
        by_cases hi : i = w.made
        · simp [hi, World.move, Holds]
        · have hkeep := h.kept i q
          simp [hold i] at hkeep
          simp [hi, World.move, Holds, hkeep, Ne.symm hi]
      · by_cases hi : i = w.made
        · have hkeep := h.kept w.made q
          simp [hnew] at hkeep
          simp [hi, World.move, hq, Ne.symm hq, hkeep]
        · simpa [hi, World.move, hq] using h.kept i q
    · by_cases he : i = w.made
      · rw [he]
        exact Nat.lt_succ_self _
      · exact Nat.lt_succ_of_lt (h.keeper_made i (by simpa [he] using hi))
    · by_cases hk : k = (s p).binds
      · obtain rfl : w.made = i := by simpa [hk] using hi
        exact Nat.lt_succ_self _
      · exact Nat.lt_succ_of_lt (h.path_made k i (by simpa [hk] using hi))
    · by_cases hq : q = p
      · simp [World.move, hq, Asks] at hi
      · exact Nat.lt_succ_of_lt (h.asks_made q i (by simpa [World.move, hq] using hi))
    · have hqp : q ≠ p := by
        rintro rfl
        simp [World.move, Asked, Cleared, Asks] at hst
      have hst' : Asked (w.stage q) := by simpa [World.move, hqp] using hst
      by_cases hk : (s q).binds = (s p).binds
      · obtain rfl : w.made = i := by simpa [hk] using hq
        have hunknown : w.known q w.made ≠ true := fun hknown =>
          absurd (h.known_made q w.made hknown) (Nat.lt_irrefl _)
        exact .inl (.inl (by simpa [World.move] using hunknown))
      · have hold : w.path (s q).binds = some (.socket i) := by simpa [hk] using hq
        have hne : i ≠ w.made := Nat.ne_of_lt (h.path_made _ i hold)
        simpa [World.move, hqp, hne, Misses] using h.seen q i hst' hold
    · by_cases hq : x.1 = p
      · simp [World.move, hq]
      · simpa [World.move, hq] using h.spent x hx
    · by_cases he : i = w.made
      · obtain rfl : p = r := by simpa [he] using hr
        exact .inl (by simp [he])
      · have hkeep : w.keeper i = some r := by simpa [he] using hr
        rcases h.reached i r hkeep with hpath' | hdel
        · have hk : (s r).binds ≠ (s p).binds := by
            intro hk
            rw [hk, hpath] at hpath'
            cases hpath'
          exact .inl (by simpa [hk] using hpath')
        · exact .inr hdel
  · exact h.ended hold

theorem Sound.listen (h : Sound s w) (hp : w.stage p = .bound i) :
    Sound s (next s w (.listen p)) := by
  have hkeep : w.keeper i = some p := (h.kept i p).mpr (.inl hp)
  have hheard : Sound s { w with listening := Function.update w.listening i true } := by
    refine ⟨h.kept, h.keeper_made, fun j hj => ?_, h.path_made, h.known_made, h.asks_made,
      h.seen, h.spent, h.reached⟩
    by_cases he : j = i
    · exact he ▸ h.keeper_made i (by simp [hkeep])
    · exact h.listening_made j (by simpa [he] using hj)
  unfold next
  dsimp only
  rw [hp]
  refine hheard.move (fun j => ?_) nofun (by simp [Asks]) (by simp [Asked, Cleared, Asks])
  simp [hp, Holds]

omit [DecidableEq ι] [DecidableEq κ] in
theorem Sound.heirs (h : Sound s w) (f : ℕ → ℕ) : Sound s { w with heirs := f } :=
  ⟨h.kept, h.keeper_made, h.listening_made, h.path_made, h.known_made, h.asks_made, h.seen,
    h.spent, h.reached⟩

/-- Of a server that ends nothing is left but the file at the path. -/
theorem Sound.die (h : Sound s w) : Sound s (next s w (.die p)) := by
  have hless : ∀ {i r}, (next s w (.die p)).keeper i = some r → w.keeper i = some r := by
    intro i r hr
    change (if w.keeper i = some p then none else w.keeper i) = some r at hr
    split at hr
    · cases hr
    · exact hr
  refine ⟨fun i q => ?_, fun i hi => ?_, h.listening_made, h.path_made, h.known_made,
    fun q i hi => ?_, fun q i hst hpath => ?_, fun x hx => ?_,
    fun i r hr => h.reached i r (hless hr)⟩
  · have hkeep := h.kept i q
    by_cases hq : q = p
    · subst hq
      simp only [next, World.move, Function.update_self]
      split
      · simp [Holds]
      · rename_i hne
        simp [Holds, hne]
    · simp only [next, World.move, Function.update_of_ne hq]
      split
      · rename_i he
        simp only [reduceCtorEq, false_iff]
        intro hholds
        rw [he] at hkeep
        exact hq (Option.some.inj (hkeep.mpr hholds)).symm
      · exact hkeep
  · obtain ⟨r, hr⟩ := Option.ne_none_iff_exists'.mp hi
    exact h.keeper_made i (by simp [hless hr])
  · by_cases hq : q = p
    · simp [next, World.move, hq, Asks] at hi
    · exact h.asks_made q i (by simpa [next, World.move, hq] using hi)
  · by_cases hq : q = p
    · subst hq
      simp [next, World.move, Asked, Cleared, Asks] at hst
    · rw [show (next s w (.die p)).stage q = w.stage q from move_of_ne hq] at hst ⊢
      rcases h.seen q i hst hpath with hmisses | hk | hasks
      · exact .inl hmisses
      · exact .inr (.inl (by simp [next, hk]))
      · exact .inr (.inr hasks)
  · by_cases hq : x.1 = p
    · simp [next, World.move, hq]
    · simpa [next, World.move, hq] using h.spent x hx

theorem next_sound (h : Sound s w) (hen : Enabled w e) : Sound s (next s w e) := by
  cases e with
  | connect p => exact h.connect hen
  | unreached p =>
    have hp : w.stage p = .fresh := hen
    exact (h.recall hp).goesOn (by simp [World.recall, hp, Holds])
  | denied p => exact h.ended (by simp [show w.stage p = .fresh from hen, Holds])
  | accept p =>
    unfold Enabled at hen
    unfold next
    dsimp only at hen ⊢
    cases hst : w.stage p with
    | queued i =>
      have hmade := h.asks_made p i (.inl hst)
      refine h.move (hold_none (by simp [Holds]) (by simp [hst, Holds])) nofun
        (by simpa [Asks] using hmade) fun j _ hpath => ?_
      have hseen := h.seen p j (.inr ⟨i, .inl hst⟩) hpath
      simpa [hst, Asks] using hseen
    | _ => simp [hst] at hen
  | reply p =>
    unfold Enabled at hen
    dsimp only at hen
    cases hst : w.stage p with
    | accepted i => exact h.ended (by simp [hst, Holds])
    | _ => simp [hst] at hen
  | unread p =>
    unfold Enabled at hen
    dsimp only at hen
    cases hst : w.stage p with
    | accepted i => exact h.goesOn (by simp [hst, Holds])
    | _ => simp [hst] at hen
  | hangup p => exact h.hangup hen
  | stat p => exact h.stat hen
  | unseen p => exact h.clear (.inl hen) (.inr (.inr rfl))
  | unlink p => exact h.unlink hen
  | bind p => exact h.bind hen
  | listen p =>
    unfold Enabled at hen
    dsimp only at hen
    cases hst : w.stage p with
    | bound i => exact h.listen hst
    | _ => simp [hst] at hen
  | spawn p =>
    unfold next
    dsimp only
    split
    · exact h.heirs _
    · exact h
  | serve p =>
    unfold next
    dsimp only
    split
    · rename_i i hst
      exact h.move (fun j => by simp [hst, Holds]) nofun (by simp [Asks])
        (by simp [Asked, Cleared, Asks])
    · exact h
  | die p => exact h.die
  | heirForks i => exact h.heirs _
  | heirEnds i => exact h.heirs _

theorem reached_sound {l : Left κ} (h : Execution (Step s) Always (.start l) w) : Sound s w :=
  h.invariant (fun _ _ _ hw ⟨hen, he⟩ _ => he ▸ next_sound hw hen) (start_sound l)

/-- A server that runs is found at its path, unless its socket was deleted by a start that had
called `connect` before the server listened, or at another path, or whose call had failed. -/
theorem server_found {l : Left κ} (h : Execution (Step s) Always (.start l) w)
    (hk : w.keeper i = some p) : w.path (s p).binds = some (.socket i) ∨
      ∃ q, (q, i) ∈ w.deleted ∧
        (w.known q i = false ∨ (s q).asks ≠ (s q).binds ∨ w.missed q = true) :=
  (reached_sound h).reached i p hk

/-- No server has run before. -/
def nothing : Left κ where
  path _ := none
  made := 1
  listening _ := false
  heirs _ := 0
  path_made := nofun
  listening_made := nofun

/-- An absolute path leads all starts to one file. -/
def absolute (_ : ι) : Start Unit := ⟨(), ()⟩

/-- Of two starts the second one calls `connect` before the first one listens. -/
def race : List (Event Bool) :=
  [.connect false, .stat false, .bind false, .connect true, .listen false, .serve false,
    .stat true, .unlink true, .bind true, .listen true, .serve true]

def raced : World Bool Unit := stateAfter (next absolute) (.start nothing) race

theorem race_admitted : Admits Enabled (next absolute) Always (.start nothing) race ∧
    raced.keeper 1 = some false := by decide +kernel

theorem raced_found : raced.path () = some (.socket 1) ∨
    ∃ q, (q, 1) ∈ raced.deleted ∧
      (raced.known q 1 = false ∨ (absolute q).asks ≠ (absolute q).binds ∨
        raced.missed q = true) :=
  server_found race_admitted.1.execution race_admitted.2

/-- After the race two servers run. -/
example : Up (raced.stage false) 1 ∧ Up (raced.stage true) 2 ∧
    raced.path () = some (.socket 2) := ⟨.inr rfl, .inr rfl, rfl⟩

end Sound

section Frames

variable [DecidableEq κ] {s : ι → Start κ} {w : World ι κ} {p q : ι} {i : ℕ} {k : κ} {e : Event ι}

/-- The process whose step it is. -/
def Event.actor : Event ι → Option ι
  | .connect p | .unreached p | .denied p | .accept p | .reply p | .unread p | .hangup p | .stat p
  | .unseen p | .unlink p | .bind p | .listen p | .spawn p | .serve p | .die p => some p
  | .heirForks _ | .heirEnds _ => none

theorem next_stage (h : e.actor ≠ some p) : (next s w e).stage p = w.stage p := by
  have hmove : ∀ {v : World ι κ} {q st}, some q ≠ some p → (v.move q st).stage p = v.stage p :=
    fun hq => move_of_ne fun he => hq (congrArg some he.symm)
  cases e with
  | connect q =>
    change (connected w q (s q).asks).stage p = w.stage p
    unfold connected
    split <;> exact hmove h
  | accept q | stat q | unlink q | bind q | listen q | spawn q | serve q =>
    unfold next
    dsimp only
    split <;> first | exact hmove h | rfl
  | unreached q | unread q => exact hmove h
  | denied q | reply q | hangup q | unseen q | die q => exact hmove h
  | heirForks | heirEnds => rfl

/-- Only what a start binds is changed. -/
theorem next_path (h : ∀ p, e.actor = some p → (s p).binds ≠ k) :
    (next s w e).path k = w.path k := by
  cases e with
  | connect q =>
    change (connected w q (s q).asks).path k = w.path k
    unfold connected
    split <;> rfl
  | unlink q | bind q =>
    have hk : k ≠ (s q).binds := (h q rfl).symm
    unfold next
    dsimp only
    split <;> first | rfl | exact Function.update_of_ne hk _ _
  | accept | stat | listen | spawn | serve =>
    unfold next
    dsimp only
    split <;> rfl
  | _ => rfl

theorem next_listening (h : w.listening i = true) : (next s w e).listening i = true := by
  cases e with
  | connect q =>
    change (connected w q (s q).asks).listening i = true
    unfold connected
    split <;> exact h
  | listen q =>
    unfold next
    dsimp only
    split
    · rename_i j _
      by_cases he : i = j
      · exact he ▸ Function.update_self ..
      · exact (Function.update_of_ne he _ _).trans h
    · exact h
  | accept | stat | unlink | bind | spawn | serve =>
    unfold next
    dsimp only
    split <;> exact h
  | _ => exact h

/-- A socket without a server gets none. -/
theorem next_keeper (h : i < w.made) (hk : w.keeper i = none) :
    (next s w e).keeper i = none := by
  cases e with
  | connect q =>
    change (connected w q (s q).asks).keeper i = none
    unfold connected
    split <;> exact hk
  | bind q =>
    unfold next
    dsimp only
    split
    · exact (Function.update_of_ne (Nat.ne_of_lt h) _ _).trans hk
    · exact hk
  | die q => simp [next, hk]
  | accept | stat | unlink | listen | spawn | serve =>
    unfold next
    dsimp only
    split <;> exact hk
  | _ => exact hk

end Frames

section Blocked

variable [DecidableEq κ] {s : ι → Start κ} {w u : World ι κ} {p q : ι} {i : ℕ} {e : Event ι}

omit [DecidableEq ι] [DecidableEq κ] in
/-- What a start waits for: that its connection is accepted or reset. -/
theorem queued_waits (hp : w.stage p = .queued i) (hk : w.keeper i = none) (hh : 0 < w.heirs i)
    (hen : Enabled w e) (hd : e ≠ .die p) : e.actor ≠ some p := by
  intro ha
  cases e with
  | die q => exact hd (congrArg _ (Option.some.inj ha))
  | heirForks | heirEnds => cases ha
  | accept q =>
    obtain rfl := Option.some.inj ha
    simp [Enabled, hp, Answered, hk] at hen
  | hangup q =>
    obtain rfl := Option.some.inj ha
    simp only [Enabled, hp] at hen
    omega
  | _ =>
    obtain rfl := Option.some.inj ha
    simp [Enabled, hp] at hen

/-- Somebody has the socket, and the start is not killed. -/
def Kept (p : ι) (i : ℕ) (w : World ι κ) (e : Event ι) (_ : World ι κ) : Prop :=
  0 < w.heirs i ∧ e ≠ .die p

instance (p : ι) (i : ℕ) (w : World ι κ) (e : Event ι) (u : World ι κ) :
    Decidable (Kept p i w e u) := inferInstanceAs (Decidable (_ ∧ _))

/-- A start that has connected to a socket whose server is gone waits for a reply, as long as a
process that `load_dump` has started, or one of its own children, has the socket. -/
theorem blocked_start {l : Left κ} (h : Execution (Step s) Always (.start l) w)
    (hp : w.stage p = .queued i) (hk : w.keeper i = none)
    (k : Execution (Step s) (Kept p i) w u) :
    u.stage p = .queued i ∧ u.keeper i = none := by
  have hall : Sound s u ∧ u.stage p = .queued i ∧ u.keeper i = none :=
    k.invariant (P := fun v => Sound s v ∧ v.stage p = .queued i ∧ v.keeper i = none)
      (fun v e _ ⟨hs, hst, hnone⟩ ⟨hen, he⟩ ⟨hheir, hdie⟩ => by
        subst he
        have hactor := queued_waits hst hnone hheir hen hdie
        have hmade := hs.asks_made p i (.inl hst)
        exact ⟨next_sound hs hen, (next_stage hactor).trans hst, next_keeper hmade hnone⟩)
      ⟨reached_sound h, hp, hk⟩
  exact hall.2

/-- A server has been killed, and no process has its socket. -/
def killed : Left Unit where
  path _ := some (.socket 0)
  made := 1
  listening i := decide (i = 0)
  heirs _ := 0
  path_made _ i h := by
    obtain rfl : 0 = i := by simpa using h
    exact Nat.one_pos
  listening_made i h := by
    obtain rfl : i = 0 := by simpa using h
    exact Nat.one_pos

/-- A server that has loaded a dump ends, and another one is started. -/
def restart : List (Event Bool) :=
  [.connect false, .stat false, .unlink false, .bind false, .listen false, .spawn false,
    .serve false, .die false, .connect true]

def restarted : World Bool Unit := stateAfter (next absolute) (.start killed) restart

theorem restart_admitted :
    Admits Enabled (next absolute) Always (.start killed) restart ∧
      restarted.stage true = .queued 1 ∧ restarted.keeper 1 = none ∧
      Admits Enabled (next absolute) (Kept true 1) restarted [.heirForks 1, .heirEnds 1] := by
  decide +kernel

theorem restarted_blocked :
    (stateAfter (next absolute) restarted [.heirForks 1, .heirEnds 1]).stage true = .queued 1 ∧
      (stateAfter (next absolute) restarted [.heirForks 1, .heirEnds 1]).keeper 1 = none :=
  blocked_start restart_admitted.1.execution restart_admitted.2.1 restart_admitted.2.2.1
    restart_admitted.2.2.2.execution

end Blocked

end UbervisorInstances
