import Ubervisor.Inheritance
import Ubervisor.Instances
import Ubervisor.Traces

/-! # Who inherits the socket

One of the servers that are started at a path, with its table of descriptors. What finds the socket
among the programs that it executes are those that it starts while it loads a dump. -/
namespace UbervisorHeirs

open UbervisorRuns
open UbervisorTraces
open UbervisorValues
open UbervisorChildConfigs
open UbervisorServer
open UbervisorEvents
open UbervisorTranscripts
open UbervisorDescriptors
open UbervisorInheritance
open UbervisorRegistrations (load_unstarted)
open UbervisorInstances (Start Stage)

section Programs

variable {P : Platform} {w₀ w w' : World} {e : Event} {fs : List Fork} {f : Fork} {n : ℕ}

/-- What the program of a child finds open. -/
inductive Finds : Fork → Table Obj → Prop where
  | child (t : Table Obj) (a b : Fd) (cc : ChildConfig) (i : ℕ) (r₁ r₂ : Option ℕ)
      (ho : Opening t a b cc i r₁ r₂) :
      Finds (.child t a b) (exec (spawnChild t a b cc i r₁ r₂))
  | command (t : Table Obj) : Finds (.command t) (exec t)

/-- Its program finds the socket of the server. -/
def Heir (f : Fork) : Prop := ∃ t n x, Finds f t ∧ t n = some x ∧ x.obj = .listening

/-- `setcloseonexec` comes too late for what is started from a dump. -/
theorem load_heirs (hb : Begun w₀) (h : Execution (Turns P) Always w₀ w)
    (ht : Turn P w e w' fs) (hload : e.loads ≠ none)
    (hn : w₀.fds n = some ⟨.listening, false⟩) (hf : f ∈ fs) : Heir f := by
  obtain ⟨hn3, htable, hother⟩ := load_keeps hb h ht hload hn hf
  obtain ⟨hsound, -⟩ := run_stray hb h
  obtain ⟨-, hforks⟩ := turn_sound hsound ht (.inr (.inl rfl)) (.inl stray_reads)
  cases f with
  | child t a b =>
    have ho : Opening t a b (childConfigNew (CStr.ofBytes [])) 0 none none := ⟨nofun, nofun⟩
    obtain ⟨ha, hb, -⟩ := hforks _ hf
    obtain ⟨-, -, -, hrest⟩ := spawnChild_spec ha hb ho
    refine ⟨_, n, ⟨.listening, false⟩, .child t a b _ _ _ _ ho, ?_, rfl⟩
    rw [hrest n hn3, if_neg (not_or.mpr (hother t a b rfl))]
    exact exec_some.mpr ⟨htable, rfl⟩
  | command t => exact ⟨_, n, ⟨.listening, false⟩, .command t, exec_some.mpr ⟨htable, rfl⟩, rfl⟩

/-- Later on no program finds it. -/
theorem later_strangers (hb : Begun w₀) (h : Execution (Turns P) Always w₀ w)
    (ht : Turn P w e w' fs) (hload : e.loads = none) (hf : f ∈ fs) : ¬ Heir f := by
  rintro ⟨t, n, x, hfinds, hx, hobj⟩
  obtain ⟨hsound, -⟩ := run_stray hb h
  obtain ⟨-, hforks⟩ := turn_sound hsound ht (.inr (.inl rfl)) (.inl stray_reads)
  have hkept : ¬ Meanwhile Stray e x.obj := by
    rw [hobj]
    rintro ((h | h | h) | ⟨hl, -⟩)
    · cases h
    · cases h
    · cases h
    · exact hl hload
  cases hfinds with
  | child t a b cc i r₁ r₂ ho =>
    obtain ⟨hstreams, hrest⟩ := fork_inherits (hforks _ hf) ho
    by_cases hn : n < 3
    · have hstream : ∀ path r, stream path r = some x → x.obj ≠ .listening := by
        intro path r hs
        cases path <;> cases r <;> cases hs
        nofun
      rw [hstreams n hn, logged] at hx
      split at hx
      · exact hstream _ _ hx hobj
      · split at hx
        · exact hstream _ _ hx hobj
        · cases hx
    · exact hkept (hrest n x (by omega) hx)
  | command t =>
    obtain ⟨hstd, heach⟩ : Safe (Meanwhile Stray e) t := hforks _ hf
    obtain ⟨hx, hc⟩ := exec_some.mp hx
    by_cases hn : n < 3
    · rw [hstd n hn] at hx
      cases hx
      cases hobj
    · refine hkept ((heach n x hx (by omega)).resolve_left ?_)
      rw [hc]
      exact Bool.false_ne_true

end Programs

section Lives

variable {ι κ : Type*} [DecidableEq ι] [DecidableEq κ] {s : ι → Start κ} {p : ι} {i : ℕ}
  {W : UbervisorInstances.World ι κ} {P : Platform} {w₀ : World} {e : Event}

/-- A server, and the children it has forked whose programs find its socket. -/
structure Life where
  world : World
  heirs : List Fork

open Classical in
/-- A turn of its life. -/
def Lives (P : Platform) (x : Life) (e : Event) (y : Life) : Prop :=
  ∃ fs, Turn P x.world e y.world fs ∧ y.heirs = x.heirs ++ fs.filter Heir

/-- What the other starts see of a server that has called `listen`. -/
def Life.shown (W : UbervisorInstances.World ι κ) (p : ι) (i : ℕ) (x : Life) :
    UbervisorInstances.World ι κ :=
  { W.move p (if x.world.server.started then .serving i else .loading i) with
    heirs := Function.update W.heirs i (W.heirs i + x.heirs.length) }

/-- Each of these children has been started in `load_dump`. -/
def Life.spawns (p : ι) (x : Life) : List ι := List.replicate x.heirs.length p

def spawned : UbervisorInstances.Event ι → Option ι
  | .spawn p => some p
  | _ => none

omit [DecidableEq κ] in
theorem shown_begun (hb : Begun w₀) (hp : W.stage p = .loading i) :
    Life.shown W p i ⟨w₀, []⟩ = W := by
  obtain ⟨a, b, t, hs⟩ := hb.server
  have hstage : Function.update W.stage p (.loading i) = W.stage := by
    rw [← hp, Function.update_eq_self]
  simp [Life.shown, UbervisorInstances.World.move, hs, initial, hstage]

theorem spawns_trace (hp : W.stage p = .loading i) (k : ℕ) :
    Trace (UbervisorInstances.Step s) W (List.replicate k (.spawn p))
      { W with heirs := Function.update W.heirs i (W.heirs i + k) } := by
  induction k with
  | zero =>
    have hsame : Function.update W.heirs i (W.heirs i + 0) = W.heirs := Function.update_eq_self ..
    rw [hsame]
    exact .nil W
  | succ k ih =>
    rw [List.replicate_succ']
    refine .snoc ih ⟨?_, ?_⟩
    · unfold UbervisorInstances.Enabled
      simp [hp]
    · unfold UbervisorInstances.next
      simp [hp, Nat.add_assoc]

/-- The turn in which a dump is loaded, or the first one without a dump. -/
theorem first_shown {x y : Life} {hs : List Fork} (hx : x.world.server.started = false)
    (hy : y.world.server.started = true) (hheirs : y.heirs = x.heirs ++ hs) :
    Simulated (UbervisorInstances.Step s) (Life.shown W p i) (Life.spawns p)
      spawned x y := by
  have hloading : (x.shown W p i).stage p = .loading i := by
    simp [Life.shown, hx]
  refine ⟨List.replicate hs.length (.spawn p) ++ [.serve p],
    (spawns_trace hloading hs.length).append (.single ⟨?_, ?_⟩), ?_⟩
  · unfold UbervisorInstances.Enabled
    simp [hloading]
  · unfold UbervisorInstances.next
    simp [Life.shown, UbervisorInstances.World.move, hx, hy, hheirs, Nat.add_assoc]
  · have hspawned : spawned (.spawn p) = some p := rfl
    have hserved : [UbervisorInstances.Event.serve p].filterMap spawned = [] := rfl
    rw [List.filterMap_append, List.filterMap_replicate_of_some hspawned, hserved, Life.spawns,
      Life.spawns, hheirs, List.length_append, List.append_nil, List.replicate_add]

theorem turn_step {w w' : World} {fs : List Fork} (h : Turn P w e w' fs) :
    Step P w.server e w'.server := by
  cases h
  assumption

theorem lives_shown {x y : Life} (hw : Begun w₀) (h : Execution (Turns P) Always w₀ x.world)
    (hl : Lives P x e y) :
    Simulated (UbervisorInstances.Step s) (Life.shown W p i) (Life.spawns p)
      spawned x y := by
  obtain ⟨fs, ht, hheirs⟩ := hl
  have hsame : y.world.server.started = x.world.server.started → y.heirs = x.heirs →
      Simulated (UbervisorInstances.Step s) (Life.shown W p i) (Life.spawns p)
        spawned x y := by
    intro hstarted hh
    have hshown : y.shown W p i = x.shown W p i := by
      rw [Life.shown, Life.shown, hstarted, hh]
    refine ⟨[], ?_, by simp [Life.spawns, hh]⟩
    rw [hshown]
    exact .nil _
  have hnone : e.loads = none → y.heirs = x.heirs := by
    intro hload
    have hstrangers : ∀ f ∈ fs, ¬ Heir f := fun f => later_strangers hw h ht hload
    rw [hheirs]
    simpa using hstrangers
  obtain ⟨hsound, -⟩ := run_stray hw h
  have hstep := turn_step ht
  cases e with
  | callback c o =>
    have hy : y.world.server.started = true :=
      (UbervisorOutputs.step_outputs hsound.linked hstep).started c o rfl
    cases hx : x.world.server.started with
    | false => exact first_shown hx hy hheirs
    | true =>
      refine hsame (hy.trans hx.symm) (hnone ?_)
      by_contra hload
      obtain ⟨file, hfile⟩ := Option.ne_none_iff_exists'.mp hload
      exact absurd (hx.symm.trans (load_unstarted hstep hfile)) nofun
  | _ => exact hsame (by rw [hstep.2]; rfl) (hnone rfl)

/-- The other starts see a server that starts processes and then serves, and what inherits its
socket from the processes it starts are the programs that find it. -/
theorem server_shown {x : Life} (hb : Begun w₀) (hp : W.stage p = .loading i)
    (h : Execution (Lives P) Always ⟨w₀, []⟩ x) :
    ∃ es, Trace (UbervisorInstances.Step s) W es (x.shown W p i) ∧
      es.filterMap spawned = x.spawns p := by
  have hsim : Simulated (UbervisorInstances.Step s) (Life.shown W p i)
      (Life.spawns p) spawned ⟨w₀, []⟩ x :=
    Execution.simulated h (I := fun x => Execution (Turns P) Always w₀ x.world)
      (fun _ _ _ hw ⟨fs, ht, _⟩ _ => .tail hw ⟨fs, ht⟩ trivial)
      (fun _ _ _ hw hl _ => lives_shown hb hw hl) (.refl w₀)
  obtain ⟨es, htrace, hspawned⟩ := hsim
  rw [shown_begun hb hp] at htrace
  exact ⟨es, htrace, hspawned.symm⟩

end Lives

end UbervisorHeirs
