import Ubervisor.Instances

/-! # Starts one after the other

As long as no start of the server begins while another one is under way, `sock_connect` finds the
server that runs, and there is never a second one at the same path. -/
namespace UbervisorSerialStarts

open UbervisorRuns
open UbervisorInstances

variable {ι κ : Type*} [DecidableEq ι]

section Serial

variable {s : ι → Start κ} {w : World ι κ} {p q : ι} {i j : ℕ} {k : κ} {st : Stage} {e : Event ι}

/-- From `connect` up to `listen`. -/
def Starting (st : Stage) : Prop := Asked st ∨ ∃ i, st = .bound i

instance (st : Stage) : Decidable (Starting st) := by
  cases st with
  | queued i => exact isTrue (.inl (.inr ⟨i, .inl rfl⟩))
  | accepted i => exact isTrue (.inl (.inr ⟨i, .inr rfl⟩))
  | looking => exact isTrue (.inl (.inl (.inl rfl)))
  | deleting => exact isTrue (.inl (.inl (.inr (.inl rfl))))
  | binding => exact isTrue (.inl (.inl (.inr (.inr rfl))))
  | bound i => exact isTrue (.inr ⟨i, rfl⟩)
  | _ => exact isFalse (by simp [Starting, Asked, Asks, Cleared])

/-- No start begins while another one at the same place is under way, and none fails to ask. -/
def Serial (s : ι → Start κ) (w : World ι κ) (e : Event ι) (_ : World ι κ) : Prop :=
  match e with
  | .connect p => ∀ q, (s q).binds = (s p).binds → ¬ Starting (w.stage q)
  | .unreached _ | .unread _ => False
  | _ => True

instance [DecidableEq κ] [Fintype ι] (w : World ι κ) (e : Event ι) (u : World ι κ) :
    Decidable (Serial s w e u) :=
  match e with
  | .connect p => inferInstanceAs
      (Decidable (∀ q, (s q).binds = (s p).binds → ¬ Starting (w.stage q)))
  | .unreached _ | .unread _ => isFalse id
  | .denied _ | .accept _ | .reply _ | .hangup _ | .stat _ | .unseen _ | .unlink _ | .bind _
  | .listen _ | .spawn _ | .serve _ | .die _ | .heirForks _ | .heirEnds _ => isTrue trivial

/-- One start at a time at a path. Once it has found no server there is none. -/
structure Alone (s : ι → Start κ) (k : κ) (w : World ι κ) : Prop where
  one : ∀ p q, (s p).binds = k → (s q).binds = k → Starting (w.stage p) → Starting (w.stage q) →
    p = q
  asks : ∀ p i, (s p).binds = k → Asks (w.stage p) i → w.path k = some (.socket i)
  bound : ∀ p i, (s p).binds = k → w.stage p = .bound i → w.path k = some (.socket i)
  up : ∀ p i, (s p).binds = k → Up (w.stage p) i →
    w.path k = some (.socket i) ∧ w.listening i = true
  clear : ∀ p q i, (s p).binds = k → (s q).binds = k →
    Cleared (w.stage p) ∨ (∃ j, w.stage p = .bound j) → ¬ Up (w.stage q) i

omit [DecidableEq ι] in
theorem start_alone (l : Left κ) : Alone s k (.start l : World ι κ) := by
  constructor <;> simp [World.start, Starting, Asked, Asks, Cleared, Up]

omit [DecidableEq ι] in
/-- What happens elsewhere does not matter. -/
theorem Alone.elsewhere {u : World ι κ} (h : Alone s k w)
    (hstage : ∀ q, (s q).binds = k → u.stage q = w.stage q) (hpath : u.path k = w.path k)
    (hlistens : ∀ i, w.listening i = true → u.listening i = true) : Alone s k u where
  one a b ha hb := by
    rw [hstage a ha, hstage b hb]
    exact h.one a b ha hb
  asks a i ha := by
    rw [hstage a ha, hpath]
    exact h.asks a i ha
  bound a i ha := by
    rw [hstage a ha, hpath]
    exact h.bound a i ha
  up a i ha hu := by
    rw [hstage a ha] at hu
    rw [hpath]
    exact (h.up a i ha hu).imp_right (hlistens i)
  clear a b i ha hb := by
    rw [hstage a ha, hstage b hb]
    exact h.clear a b i ha hb

/-- One process moves on, and neither begins nor makes anything up. -/
theorem Alone.move (h : Alone s k w) (hp : (s p).binds = k)
    (hst : Starting st → ∀ q ≠ p, (s q).binds = k → ¬ Starting (w.stage q))
    (hasks : ∀ i, Asks st i → w.path k = some (.socket i)) (hclear : ¬ Cleared st)
    (hbound : ∀ i, st ≠ .bound i) (hup : ∀ i, Up st i → Up (w.stage p) i) :
    Alone s k (w.move p st) where
  one a b hka hkb ha hb := by
    by_cases hap : a = p
    · by_cases hbp : b = p
      · rw [hap, hbp]
      · rw [hap, move_self] at ha
        rw [move_of_ne hbp] at hb
        exact absurd hb (hst ha b hbp hkb)
    · rw [move_of_ne hap] at ha
      by_cases hbp : b = p
      · rw [hbp, move_self] at hb
        exact absurd ha (hst hb a hap hka)
      · rw [move_of_ne hbp] at hb
        exact h.one a b hka hkb ha hb
  asks a i hka ha := by
    by_cases hap : a = p
    · rw [hap, move_self] at ha
      exact hasks i ha
    · rw [move_of_ne hap] at ha
      exact h.asks a i hka ha
  bound a i hka ha := by
    by_cases hap : a = p
    · rw [hap, move_self] at ha
      exact absurd ha (hbound i)
    · rw [move_of_ne hap] at ha
      exact h.bound a i hka ha
  up a i hka ha := by
    by_cases hap : a = p
    · rw [hap, move_self] at ha
      exact h.up p i hp (hup i ha)
    · rw [move_of_ne hap] at ha
      exact h.up a i hka ha
  clear a b i hka hkb ha hb := by
    by_cases hap : a = p
    · rw [hap, move_self] at ha
      rcases ha with ha | ⟨j, ha⟩
      · exact hclear ha
      · exact hbound j ha
    · rw [move_of_ne hap] at ha
      by_cases hbp : b = p
      · rw [hbp, move_self] at hb
        exact h.clear a p i hka hp ha (hup i hb)
      · rw [move_of_ne hbp] at hb
        exact h.clear a b i hka hkb ha hb

theorem Alone.ended (h : Alone s k w) (hp : (s p).binds = k) : Alone s k (w.move p .ended) :=
  h.move hp (by simp [Starting, Asked, Asks, Cleared]) (by simp [Asks]) (by simp [Cleared]) nofun
    (by simp [Up])

omit [DecidableEq ι] in
/-- No other process starts or runs. -/
theorem Alone.sole {u : World ι κ} (hp : (s p).binds = k)
    (others : ∀ q ≠ p, (s q).binds = k → ¬ Starting (u.stage q) ∧ ∀ i, ¬ Up (u.stage q) i)
    (hasks : ∀ i, ¬ Asks (u.stage p) i)
    (hbound : ∀ i, u.stage p = .bound i → u.path k = some (.socket i))
    (hup : ∀ i, Up (u.stage p) i → u.path k = some (.socket i) ∧ u.listening i = true) :
    Alone s k u := by
  have hself : ∀ a, (s a).binds = k → Starting (u.stage a) → a = p := fun a hka ha => by
    by_contra hne
    exact (others a hne hka).1 ha
  have hruns : ∀ a i, (s a).binds = k → Up (u.stage a) i → a = p := fun a i hka ha => by
    by_contra hne
    exact (others a hne hka).2 i ha
  refine ⟨fun a b hka hkb ha hb => (hself a hka ha).trans (hself b hkb hb).symm,
    fun a i hka ha => ?_, fun a i hka ha => ?_, fun a i hka ha => ?_,
    fun a b i hka hkb ha hb => ?_⟩
  · obtain rfl := hself a hka (.inl (.inr ⟨i, ha⟩))
    exact absurd ha (hasks i)
  · obtain rfl := hself a hka (.inr ⟨i, ha⟩)
    exact hbound i ha
  · obtain rfl := hruns a i hka ha
    exact hup i ha
  · obtain rfl := hruns b i hkb hb
    obtain rfl := hself a hka (ha.imp_left .inl)
    rcases hb with hst | hst <;> simp [hst, Cleared] at ha

omit [DecidableEq ι] in
/-- A start that has found no server is by itself. -/
theorem Alone.others (h : Alone s k w) (hk : (s p).binds = k)
    (hp : Cleared (w.stage p) ∨ ∃ j, w.stage p = .bound j) :
    ∀ q ≠ p, (s q).binds = k → ¬ Starting (w.stage q) ∧ ∀ i, ¬ Up (w.stage q) i := by
  intro q hq hkq
  exact ⟨fun hs => hq (h.one q p hkq hk hs (hp.imp_left .inl)),
    fun i hu => h.clear p q i hk hkq hp hu⟩

omit [DecidableEq ι] in
/-- Such a start takes its next step. -/
theorem Alone.goesOn {u : World ι κ} (h : Alone s k w) (hk : (s p).binds = k)
    (hp : Cleared (w.stage p) ∨ ∃ j, w.stage p = .bound j)
    (hothers : ∀ q ≠ p, u.stage q = w.stage q) (hasks : ∀ i, ¬ Asks (u.stage p) i)
    (hbound : ∀ i, u.stage p = .bound i → u.path k = some (.socket i))
    (hup : ∀ i, Up (u.stage p) i → u.path k = some (.socket i) ∧ u.listening i = true) :
    Alone s k u :=
  .sole hk (fun q hq hkq => hothers q hq ▸ h.others hk hp q hq hkq) hasks hbound hup

variable [DecidableEq κ]

/-- A server that runs would have been reached. -/
theorem Alone.connect (hs : Sound s w) (h : Alone s k w) (hk : (s p).binds = k)
    (hasks : (s p).asks = k) (hq : ∀ q, (s q).binds = k → ¬ Starting (w.stage q)) :
    Alone s k (next s w (.connect p)) := by
  have hr : Alone s k (w.recall p) := ⟨h.one, h.asks, h.bound, h.up, h.clear⟩
  have hlooks : (∀ i, w.path k = some (.socket i) → ¬ Reachable w i) →
      Alone s k ((w.recall p).move p .looking) := by
    intro hno
    refine .sole (p := p) hk (fun q hne hkq => ?_) (by simp [Asks]) (by simp) (by simp [Up])
    rw [move_of_ne hne]
    refine ⟨hq q hkq, fun i hu => ?_⟩
    obtain ⟨hpath, hlistens⟩ := h.up q i hkq hu
    have hkeep : w.keeper i = some q := (hs.kept i q).mpr (.inr hu)
    exact hno i hpath ⟨hlistens, .inl (by simp [hkeep])⟩
  change Alone s k (connected w p (s p).asks)
  unfold connected
  rw [hasks]
  split
  · rename_i i hpath
    by_cases hreach : Reachable w i
    · rw [if_pos hreach]
      refine hr.move hk (fun _ q _ => hq q) (fun j hj => ?_) (by simp [Cleared]) nofun
        (by simp [Up])
      obtain rfl : i = j := by simpa [Asks] using hj
      exact hpath
    · rw [if_neg hreach]
      refine hlooks fun j hj => ?_
      obtain rfl : i = j := by simpa using hpath.symm.trans hj
      exact hreach
  · rename_i hpath
    exact hlooks fun j hj => absurd hj (hpath j)

theorem Alone.accept (h : Alone s k w) (hk : (s p).binds = k) (hen : Enabled w (.accept p)) :
    Alone s k (next s w (.accept p)) := by
  unfold Enabled at hen
  unfold next
  dsimp only at hen ⊢
  cases hst : w.stage p with
  | queued i =>
    have hpath := h.asks p i hk (.inl hst)
    have hstarts : Starting (w.stage p) := .inl (.inr ⟨i, .inl hst⟩)
    refine h.move hk (fun _ q hne hkq hq => hne (h.one q p hkq hk hq hstarts)) (fun j hj => ?_)
      (by simp [Cleared]) nofun (by simp [Up])
    obtain rfl : i = j := by simpa [Asks] using hj
    exact hpath
  | _ => simp [hst] at hen

theorem Alone.hangup (hs : Sound s w) (h : Alone s k w) (hk : (s p).binds = k)
    (hen : Enabled w (.hangup p)) : Alone s k (next s w (.hangup p)) := by
  obtain ⟨j, hasks, hnone⟩ := hangup_asks hen
  change Alone s k (w.move p .looking)
  refine .sole (p := p) hk (fun q hne hkq => ?_) (by simp [Asks]) (by simp) (by simp [Up])
  rw [move_of_ne hne]
  refine ⟨fun hst => hne (h.one q p hkq hk hst (.inl (.inr ⟨j, hasks⟩))), fun i hu => ?_⟩
  obtain rfl : j = i := by
    simpa using (h.asks p j hk hasks).symm.trans (h.up q i hkq hu).1
  have hkeep : w.keeper j = some q := (hs.kept j q).mpr (.inr hu)
  exact absurd (hkeep.symm.trans hnone) nofun

theorem Alone.stat (h : Alone s k w) (hk : (s p).binds = k) (hp : w.stage p = .looking) :
    Alone s k (next s w (.stat p)) := by
  have hgoes : ∀ st, Cleared st → Alone s k (w.move p st) := by
    rintro st (rfl | rfl | rfl) <;>
      exact h.goesOn hk (.inl (.inl hp)) (fun q hq => move_of_ne hq) (by simp [Asks]) (by simp)
        (by simp [Up])
  unfold next
  dsimp only
  split
  · exact hgoes _ (.inr (.inr rfl))
  · exact hgoes _ (.inr (.inl rfl))
  · exact h.ended hk

theorem Alone.unlink (h : Alone s k w) (hk : (s p).binds = k) (hp : w.stage p = .deleting) :
    Alone s k (next s w (.unlink p)) := by
  have hclear : Cleared (w.stage p) := .inr (.inl hp)
  unfold next
  dsimp only
  split
  · exact h.ended hk
  · exact h.goesOn hk (.inl hclear) (fun q hq => move_of_ne hq) (by simp [Asks]) (by simp)
      (by simp [Up])
  · exact h.goesOn hk (.inl hclear) (fun q hq => move_of_ne hq) (by simp [Asks]) (by simp)
      (by simp [Up])

theorem Alone.bind (h : Alone s k w) (hk : (s p).binds = k) (hp : w.stage p = .binding) :
    Alone s k (next s w (.bind p)) := by
  have hclear : Cleared (w.stage p) := .inr (.inr hp)
  unfold next
  dsimp only
  split
  · exact h.goesOn hk (.inl hclear) (fun q hq => move_of_ne hq) (by simp [Asks]) (by simp [hk])
      (by simp [Up])
  · exact h.ended hk

theorem Alone.listen (h : Alone s k w) (hk : (s p).binds = k) (hen : Enabled w (.listen p)) :
    Alone s k (next s w (.listen p)) := by
  unfold Enabled at hen
  unfold next
  dsimp only at hen ⊢
  cases hst : w.stage p with
  | bound i =>
    have hpath := h.bound p i hk hst
    refine h.goesOn (p := p) hk (.inr ⟨i, hst⟩) (fun q hq => move_of_ne hq) (by simp [Asks])
      (by simp) fun j hj => ?_
    obtain rfl : i = j := by simpa [Up] using hj
    exact ⟨hpath, Function.update_self ..⟩
  | _ => simp [hst] at hen

theorem Alone.serve (h : Alone s k w) (hk : (s p).binds = k) :
    Alone s k (next s w (.serve p)) := by
  unfold next
  dsimp only
  split
  · rename_i i hst
    refine h.move hk (by simp [Starting, Asked, Asks, Cleared]) (by simp [Asks])
      (by simp [Cleared]) (by simp) fun j hj => .inl ?_
    obtain rfl : i = j := by simpa [Up] using hj
    exact hst
  · exact h

theorem next_alone (hs : Sound s w) (h : Alone s k w) (hsame : ∀ p, (s p).asks = (s p).binds)
    (hen : Enabled w e) (hserial : Serial s w e (next s w e)) : Alone s k (next s w e) := by
  by_cases hactor : ∀ p, e.actor = some p → (s p).binds ≠ k
  · refine h.elsewhere (fun q hq => next_stage fun he => hactor q he hq) (next_path hactor)
      fun i => next_listening
  · push Not at hactor
    obtain ⟨p, hp, hk⟩ := hactor
    cases e with
    | connect q =>
      obtain rfl := Option.some.inj hp
      exact h.connect hs hk ((hsame q).trans hk) fun r hr => hserial r (hr.trans hk.symm)
    | unreached | unread => exact hserial.elim
    | denied q | reply q =>
      obtain rfl := Option.some.inj hp
      exact h.ended hk
    | accept q =>
      obtain rfl := Option.some.inj hp
      exact h.accept hk hen
    | hangup q =>
      obtain rfl := Option.some.inj hp
      exact h.hangup hs hk hen
    | stat q =>
      obtain rfl := Option.some.inj hp
      exact h.stat hk hen
    | unseen q =>
      obtain rfl := Option.some.inj hp
      exact h.goesOn hk (.inl (.inl hen)) (fun r hr => move_of_ne hr) (by simp [next, Asks])
        (by simp [next]) (by simp [next, Up])
    | unlink q =>
      obtain rfl := Option.some.inj hp
      exact h.unlink hk hen
    | bind q =>
      obtain rfl := Option.some.inj hp
      exact h.bind hk hen
    | listen q =>
      obtain rfl := Option.some.inj hp
      exact h.listen hk hen
    | spawn q =>
      refine h.elsewhere (fun r _ => ?_) ?_ fun i => next_listening <;>
        (unfold next; dsimp only; split <;> rfl)
    | serve q =>
      obtain rfl := Option.some.inj hp
      exact h.serve hk
    | die q =>
      obtain rfl := Option.some.inj hp
      have hmoved := h.ended hk
      exact ⟨hmoved.one, hmoved.asks, hmoved.bound, hmoved.up, hmoved.clear⟩
    | heirForks | heirEnds => cases hp

/-- If the starts come one after the other, and ask where they bind, there is at most one server at
a path, and it is the one that is found there. -/
theorem serial_unique {l : Left κ} (hsame : ∀ p, (s p).asks = (s p).binds)
    (h : Execution (Step s) (Serial s) (.start l) w) (hk : (s p).binds = (s q).binds)
    (hp : Up (w.stage p) i) (hq : Up (w.stage q) j) :
    p = q ∧ w.path (s p).binds = some (.socket i) := by
  obtain ⟨hs, ha⟩ := h.invariant (P := fun w => Sound s w ∧ Alone s (s p).binds w)
    (fun _ _ _ ⟨hs, ha⟩ ⟨hen, he⟩ hq => by
      subst he
      exact ⟨next_sound hs hen, next_alone hs ha hsame hen hq⟩)
    ⟨start_sound l, start_alone l⟩
  have hpath := (ha.up p i rfl hp).1
  obtain rfl : i = j := by simpa using hpath.symm.trans (ha.up q j hk.symm hq).1
  have hkp := (hs.kept i p).mpr (.inr hp)
  have hkq := (hs.kept i q).mpr (.inr hq)
  exact ⟨Option.some.inj (hkp.symm.trans hkq), hpath⟩

/-- The second start finds the first server, and exits. -/
def orderly : List (Event Bool) :=
  [.connect false, .stat false, .bind false, .listen false, .serve false, .connect true,
    .accept true, .reply true]

theorem orderly_admitted :
    Admits Enabled (next absolute) (Serial absolute) (.start nothing) orderly ∧
      Up ((stateAfter (next absolute) (.start nothing) orderly).stage false) 1 :=
  ⟨by decide +kernel, .inr rfl⟩

theorem orderly_unique : false = false ∧
    (stateAfter (next absolute) (.start nothing) orderly).path () = some (.socket 1) :=
  serial_unique (fun _ => rfl) orderly_admitted.1.execution rfl orderly_admitted.2
    orderly_admitted.2

/-- A path that leads elsewhere after `chdir`. -/
def relative (_ : Bool) : Start Bool := ⟨false, true⟩

/-- The second start asks where nobody is. -/
def overtaking : List (Event Bool) :=
  [.connect false, .stat false, .bind false, .listen false, .serve false, .connect true,
    .stat true, .unlink true, .bind true, .listen true, .serve true]

/-- Then two servers run. -/
example : Admits Enabled (next relative) (Serial relative) (.start nothing) overtaking ∧
    (stateAfter (next relative) (.start nothing) overtaking).stage false = .serving 1 ∧
    (stateAfter (next relative) (.start nothing) overtaking).stage true = .serving 2 := by
  decide +kernel

end Serial

end UbervisorSerialStarts
