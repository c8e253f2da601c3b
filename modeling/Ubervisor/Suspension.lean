import Mathlib.Data.List.Basic

/-! # Decoders that wait for more input

A decoder takes turns on a state that holds its unread input. A turn goes on, stops for good,
or waits until more input has been added. What a run comes to does not depend on when input
is added, as long as it is added at the end. -/
namespace UbervisorSuspension

/-- The end of a turn. -/
inductive Turn (σ : Type*) where
  | wait (s : σ)
  | stop (s : σ)
  | next (s : σ)

/-- The end of a run. -/
inductive End (σ : Type*) where
  | waiting (s : σ)
  | stopped (s : σ)

variable {σ β : Type*}

def Turn.state : Turn σ → σ
  | .wait s | .stop s | .next s => s

def End.state : End σ → σ
  | .waiting s | .stopped s => s

/-- Turns up to the first that does not go on. -/
inductive Runs (turn : σ → Turn σ) : σ → End σ → Prop where
  | wait {s s'} (h : turn s = .wait s') : Runs turn s (.waiting s')
  | stop {s s'} (h : turn s = .stop s') : Runs turn s (.stopped s')
  | next {s s' r} (h : turn s = .next s') (k : Runs turn s' r) : Runs turn s r

/-- Input that is added at the end does not matter to a turn that can do without it. -/
structure Resumable (turn : σ → Turn σ) (more : σ → List β → σ) : Prop where
  append : ∀ s x y, more (more s x) y = more s (x ++ y)
  nil : ∀ s, more s [] = s
  next : ∀ s s' x, turn s = .next s' → turn (more s x) = .next (more s' x)
  stop : ∀ s s' x, turn s = .stop s' → turn (more s x) = .stop (more s' x)
  wait : ∀ s s' x, turn s = .wait s' → turn (more s x) = turn (more s' x)

variable {turn : σ → Turn σ} {more : σ → List β → σ} {s s' : σ} {r : End σ} {x : List β}

theorem Runs.deterministic {r' : End σ} (h : Runs turn s r) (k : Runs turn s r') : r = r' := by
  induction h with
  | wait h =>
    cases k with
    | wait k => rw [Turn.wait.inj (h.symm.trans k)]
    | stop k => cases h.symm.trans k
    | next k _ => cases h.symm.trans k
  | stop h =>
    cases k with
    | wait k => cases h.symm.trans k
    | stop k => rw [Turn.stop.inj (h.symm.trans k)]
    | next k _ => cases h.symm.trans k
  | next h _ ih =>
    cases k with
    | wait k => cases h.symm.trans k
    | stop k => cases h.symm.trans k
    | next k k' =>
      obtain rfl := Turn.next.inj (h.symm.trans k)
      exact ih k'

/-- The rule of a run: what every turn that goes on keeps holds when the last one begins. -/
theorem Runs.last {I : σ → Prop} (h : Runs turn s r)
    (keep : ∀ a b, I a → turn a = .next b → I b) (hs : I s) :
    ∃ t, I t ∧ ((∃ u, turn t = .wait u ∧ r = .waiting u) ∨
      ∃ u, turn t = .stop u ∧ r = .stopped u) := by
  induction h with
  | wait h => exact ⟨_, hs, .inl ⟨_, h, rfl⟩⟩
  | stop h => exact ⟨_, hs, .inr ⟨_, h, rfl⟩⟩
  | next h _ ih => exact ih (keep _ _ hs h)

/-- What every turn leaves related, a run does. -/
theorem Runs.related {R : σ → σ → Prop} (h : Runs turn s r) (step : ∀ a, R a (turn a).state)
    (trans : ∀ a b c, R a b → R b c → R a c) : R s r.state := by
  induction h with
  | @wait a b h =>
    have hstep := step a
    rw [h] at hstep
    exact hstep
  | @stop a b h =>
    have hstep := step a
    rw [h] at hstep
    exact hstep
  | @next a b _ h _ ih =>
    have hstep := step a
    rw [h] at hstep
    exact trans a b _ hstep ih

/-- A run ends when every turn that goes on makes the state smaller. -/
theorem exists_runs {I : σ → Prop} {m : σ → ℕ} (keep : ∀ a b, I a → turn a = .next b → I b)
    (less : ∀ a b, I a → turn a = .next b → m b < m a) (hs : I s) : ∃ r, Runs turn s r := by
  induction hn : m s using Nat.strongRecOn generalizing s with
  | _ n ih =>
    subst hn
    cases ht : turn s with
    | wait u => exact ⟨_, .wait ht⟩
    | stop u => exact ⟨_, .stop ht⟩
    | next u =>
      obtain ⟨r, hr⟩ := ih (m u) (less s u hs ht) (keep s u hs ht) rfl
      exact ⟨r, .next ht hr⟩

section Input

variable (hm : Resumable turn more)
include hm

/-- A run that waits is continued, not begun again. -/
theorem Runs.resume (h : Runs turn s (.waiting s')) (k : Runs turn (more s' x) r) :
    Runs turn (more s x) r := by
  generalize he : End.waiting s' = e at h
  induction h with
  | wait h =>
    obtain rfl := End.waiting.inj he
    have hw := hm.wait _ _ x h
    cases k with
    | wait k => exact .wait (hw.trans k)
    | stop k => exact .stop (hw.trans k)
    | next k k' => exact .next (hw.trans k) k'
  | stop h => cases he
  | next h _ ih => exact .next (hm.next _ _ x h) (ih he)

/-- A run that has stopped does not read on. -/
theorem Runs.stopped_more (h : Runs turn s (.stopped s')) :
    Runs turn (more s x) (.stopped (more s' x)) := by
  generalize he : End.stopped s' = e at h
  induction h with
  | wait h => cases he
  | stop h =>
    obtain rfl := End.stopped.inj he
    exact .stop (hm.stop _ _ x h)
  | next h _ ih => exact .next (hm.next _ _ x h) (ih he)

/-- A state that waits goes on waiting. -/
theorem Runs.idle (h : Runs turn s (.waiting s')) : turn s' = .wait s' := by
  generalize he : End.waiting s' = e at h
  induction h with
  | wait h =>
    obtain rfl := End.waiting.inj he
    have hw := hm.wait _ _ [] h
    rw [hm.nil, hm.nil] at hw
    exact hw.symm.trans h
  | stop h => cases he
  | next _ _ ih => exact ih he

end Input

end UbervisorSuspension
