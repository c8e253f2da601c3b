import Ubervisor.Runs

/-! # Traces and simulation

The labels of an execution in order, and the rule by which a machine is simulated by a more
abstract one: each of its steps is a list of abstract steps. Some abstract labels can be
observed, and the concrete state records what has been observed. -/
namespace UbervisorTraces

open UbervisorRuns

variable {σ ε : Type*} {step : σ → ε → σ → Prop}

/-- From the first state the labels lead to the last one. -/
inductive Trace (step : σ → ε → σ → Prop) : σ → List ε → σ → Prop where
  | nil (s) : Trace step s [] s
  | snoc {s u v es e} : Trace step s es u → step u e v → Trace step s (es ++ [e]) v

theorem Trace.single {s u : σ} {e : ε} (h : step s e u) : Trace step s [e] u :=
  .snoc (.nil s) h

theorem Trace.append {s u v : σ} {es fs : List ε} (h : Trace step s es u)
    (k : Trace step u fs v) : Trace step s (es ++ fs) v := by
  induction k with
  | nil => simpa using h
  | snoc _ hs ih =>
    rw [← List.append_assoc]
    exact .snoc ih hs

theorem Trace.execution {s u : σ} {es : List ε} (h : Trace step s es u) :
    Execution step Always s u := by
  induction h with
  | nil => exact .refl _
  | snoc _ hs ih => exact .tail ih hs trivial

section Simulation

variable {γ δ ω : Type*} {move : γ → δ → γ → Prop} {Q : γ → δ → γ → Prop} {abs : γ → σ}
  {seen : γ → List ω} {observe : ε → Option ω}

/-- The concrete machine goes from `c` to `d` by abstract steps, and records what they show. -/
def Simulated (step : σ → ε → σ → Prop) (abs : γ → σ) (seen : γ → List ω)
    (observe : ε → Option ω) (c d : γ) : Prop :=
  ∃ es, Trace step (abs c) es (abs d) ∧ seen d = seen c ++ es.filterMap observe

theorem Simulated.refl (c : γ) : Simulated step abs seen observe c c :=
  ⟨[], .nil _, by simp⟩

theorem Simulated.trans {c d e : γ} (h : Simulated step abs seen observe c d)
    (k : Simulated step abs seen observe d e) : Simulated step abs seen observe c e := by
  obtain ⟨es, ht, hs⟩ := h
  obtain ⟨fs, kt, ks⟩ := k
  refine ⟨es ++ fs, ht.append kt, ?_⟩
  rw [ks, hs, List.filterMap_append, List.append_assoc]

/-- The rule of simulation: what is matched step by step is matched over whole runs. -/
theorem Execution.simulated {I : γ → Prop} {c d : γ} (h : Execution move Q c d)
    (inv : ∀ a m b, I a → move a m b → Q a m b → I b)
    (sim : ∀ a m b, I a → move a m b → Q a m b → Simulated step abs seen observe a b)
    (hc : I c) : Simulated step abs seen observe c d := by
  refine h.invariant_under (P := Simulated step abs seen observe c) inv ?_ hc (.refl c)
  intro a m b hi ha hm hq
  exact ha.trans (sim a m b hi hm hq)

end Simulation

end UbervisorTraces
