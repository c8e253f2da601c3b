import Mathlib.Data.List.Basic
import Mathlib.Tactic.Cases

/-! # Buffered files

What is written to a stream goes to the file when the buffer is full and when the stream is closed.
Each write to the file may fail, and what it leaves of the buffer is lost. -/
namespace UbervisorBufferedFiles

/-- A stream with a buffer of `size + 1` elements. -/
structure Stream (α : Type) (size : ℕ) where
  file : List α
  buffer : List α
  fits : buffer.length ≤ size + 1

/-- How the writes to the file end, in their order: well, or with an error after so many elements.
Later ones end well. -/
abbrev Writes := List (Option ℕ)

variable {α : Type} {size : ℕ}

namespace Stream

def empty : Stream α size := ⟨[], [], Nat.zero_le _⟩

/-- What the file would hold after a write. -/
def content (s : Stream α size) : List α := s.file ++ s.buffer

/-- A write fails only with something left. -/
def flush (s : Stream α size) (ws : Writes) : Bool × Stream α size × Writes :=
  if s.buffer = [] then (true, s, ws)
  else
    match ws.headD none with
    | none => (true, ⟨s.content, [], Nat.zero_le _⟩, ws.tail)
    | some k =>
      (false, ⟨s.file ++ s.buffer.take (min k (s.buffer.length - 1)), [], Nat.zero_le _⟩, ws.tail)

def put (a : α) (s : Stream α size) (ws : Writes) : Bool × Stream α size × Writes :=
  if h : s.buffer.length < size + 1 then
    (true, ⟨s.file, s.buffer ++ [a], by simpa [Nat.lt_succ_iff] using h⟩, ws)
  else
    let (ok, s, ws) := s.flush ws
    if ok then (true, ⟨s.file, [a], Nat.le_add_left 1 size⟩, ws) else (false, s, ws)

/-- The rest of a text is not printed after an error. -/
def fprintf : List α → Stream α size → Writes → Bool × Stream α size × Writes
  | [], s, ws => (true, s, ws)
  | a :: l, s, ws =>
    let (ok, s, ws) := s.put a ws
    if ok then fprintf l s ws else (false, s, ws)

/-- Texts are printed until there is an error. -/
def printAll : List (List α) → Stream α size → Writes → List Bool × Stream α size × Writes
  | [], s, ws => ([], s, ws)
  | l :: ls, s, ws =>
    let (ok, s, ws) := s.fprintf l ws
    if ok then
      let (rs, s, ws) := printAll ls s ws
      (true :: rs, s, ws)
    else ([false], s, ws)

def fclose (s : Stream α size) (ws : Writes) : Bool × Stream α size :=
  ((s.flush ws).1, (s.flush ws).2.1)

variable {s : Stream α size} {ws : Writes} {a : α} {l : List α} {ls : List (List α)}

/-- After a flush without an error the file holds everything, and after one with an error it does
not. -/
theorem flush_spec (s : Stream α size) (ws : Writes) :
    (s.flush ws).2.1.buffer = [] ∧
      ((s.flush ws).1 = true → (s.flush ws).2.1.file = s.content) ∧
      ((s.flush ws).1 = false → (s.flush ws).2.1.file.length < s.content.length) := by
  unfold flush
  by_cases hb : s.buffer = []
  · rw [if_pos hb]
    refine ⟨hb, fun _ => ?_, nofun⟩
    rw [content, hb, List.append_nil]
  · rw [if_neg hb]
    split
    · exact ⟨rfl, fun _ => rfl, nofun⟩
    · refine ⟨rfl, nofun, fun _ => ?_⟩
      have hpos := List.length_pos_iff.mpr hb
      simp only [content, List.length_append, List.length_take]
      omega

theorem put_spec (a : α) (s : Stream α size) (ws : Writes) :
    ((put a s ws).1 = true → (put a s ws).2.1.content = s.content ++ [a]) ∧
      ((put a s ws).1 = false → (put a s ws).2.1.content.length < s.content.length + 1) := by
  unfold put
  by_cases h : s.buffer.length < size + 1
  · rw [dif_pos h]
    exact ⟨fun _ => (List.append_assoc ..).symm, nofun⟩
  · rw [dif_neg h]
    obtain ⟨hempty, hdone, hfailed⟩ := flush_spec s ws
    generalize s.flush ws = r at hempty hdone hfailed
    obtain ⟨ok, s', ws'⟩ := r
    cases ok with
    | true => exact ⟨fun _ => congrArg (· ++ [a]) (hdone rfl), nofun⟩
    | false =>
      refine ⟨nofun, fun _ => ?_⟩
      have hlost := hfailed rfl
      dsimp only at hempty hlost
      change s'.content.length < _
      rw [content, hempty, List.append_nil]
      omega

/-- What is printed without an error is added to the content, and after an error some of it is
missing. -/
theorem fprintf_spec (l : List α) (s : Stream α size) (ws : Writes) :
    ((fprintf l s ws).1 = true → (fprintf l s ws).2.1.content = s.content ++ l) ∧
      ((fprintf l s ws).1 = false →
        (fprintf l s ws).2.1.content.length < s.content.length + l.length) := by
  induction l generalizing s ws with
  | nil => exact ⟨fun _ => (List.append_nil _).symm, nofun⟩
  | cons a l ih =>
    obtain ⟨hdone, hfailed⟩ := put_spec a s ws
    unfold fprintf
    generalize put a s ws = r at hdone hfailed
    obtain ⟨ok, s', ws'⟩ := r
    cases ok with
    | true =>
      obtain ⟨hrest, hlost⟩ := ih s' ws'
      have hadded : s'.content = s.content ++ [a] := hdone rfl
      rw [hadded] at hrest hlost
      refine ⟨fun h => (hrest h).trans (List.append_assoc ..), fun h => ?_⟩
      have hlt := hlost h
      rw [List.length_append, List.length_singleton] at hlt
      change (fprintf l s' ws').2.1.content.length < s.content.length + (l.length + 1)
      omega
    | false =>
      refine ⟨nofun, fun _ => ?_⟩
      have hlt := hfailed rfl
      change s'.content.length < s.content.length + (l.length + 1)
      dsimp only at hlt
      omega

theorem printAll_spec (ls : List (List α)) (s : Stream α size) (ws : Writes)
    (h : (printAll ls s ws).1.all id = true) :
    (printAll ls s ws).2.1.content = s.content ++ ls.flatten := by
  induction ls generalizing s ws with
  | nil => exact (List.append_nil _).symm
  | cons l ls ih =>
    obtain ⟨hdone, -⟩ := fprintf_spec l s ws
    unfold printAll at h ⊢
    generalize fprintf l s ws = r at hdone h ⊢
    obtain ⟨ok, s', ws'⟩ := r
    cases ok with
    | true =>
      have hrest := ih s' ws' h
      have hadded : s'.content = s.content ++ l := hdone rfl
      rw [hadded, List.append_assoc] at hrest
      exact hrest
    | false => cases h

/-- What a flush adds to the file is a beginning of the buffer, or all of it. -/
theorem flush_written (s : Stream α size) (ws : Writes) :
    ∃ c, (s.flush ws).2.1.file = s.file ++ c ∧ c <+: s.buffer ∧
      ((s.flush ws).1 = true → c = s.buffer) := by
  unfold flush
  by_cases hb : s.buffer = []
  · rw [if_pos hb]
    exact ⟨[], (List.append_nil _).symm, List.nil_prefix, fun _ => hb.symm⟩
  · rw [if_neg hb]
    split
    · exact ⟨s.buffer, rfl, List.prefix_refl _, fun _ => rfl⟩
    · exact ⟨_, rfl, List.take_prefix _ _, nofun⟩

/-- What is printed goes to the file or to the buffer, or a part of it after an error. -/
theorem put_written (a : α) (s : Stream α size) (ws : Writes) :
    ∃ c, (put a s ws).2.1.file = s.file ++ c ∧
      ((put a s ws).1 = true → c ++ (put a s ws).2.1.buffer = s.buffer ++ [a]) ∧
      ((put a s ws).1 = false → c ++ (put a s ws).2.1.buffer <+: s.buffer) := by
  unfold put
  by_cases h : s.buffer.length < size + 1
  · rw [dif_pos h]
    exact ⟨[], (List.append_nil _).symm, fun _ => rfl, nofun⟩
  · rw [dif_neg h]
    obtain ⟨hempty, -, -⟩ := flush_spec s ws
    obtain ⟨c, hfile, hpart, hall⟩ := flush_written s ws
    generalize s.flush ws = r at hempty hfile hall
    obtain ⟨ok, s', ws'⟩ := r
    cases ok with
    | true => exact ⟨c, hfile, fun _ => congrArg (· ++ [a]) (hall rfl), nofun⟩
    | false =>
      refine ⟨c, hfile, nofun, fun _ => ?_⟩
      have hbuffer : s'.buffer = [] := hempty
      change c ++ s'.buffer <+: s.buffer
      rw [hbuffer, List.append_nil]
      exact hpart

theorem fprintf_written (l : List α) (s : Stream α size) (ws : Writes) :
    ∃ c, (fprintf l s ws).2.1.file = s.file ++ c ∧
      ((fprintf l s ws).1 = true → c ++ (fprintf l s ws).2.1.buffer = s.buffer ++ l) ∧
      ((fprintf l s ws).1 = false → c ++ (fprintf l s ws).2.1.buffer <+: s.buffer ++ l) := by
  induction l generalizing s ws with
  | nil => exact ⟨[], (List.append_nil _).symm, fun _ => (List.append_nil _).symm, nofun⟩
  | cons a l ih =>
    obtain ⟨c, hfile, hdone, hfailed⟩ := put_written a s ws
    unfold fprintf
    generalize put a s ws = r at hfile hdone hfailed
    obtain ⟨ok, s', ws'⟩ := r
    cases ok with
    | true =>
      obtain ⟨c', hfile', hdone', hfailed'⟩ := ih s' ws'
      have hadded : c ++ s'.buffer = s.buffer ++ [a] := hdone rfl
      have hkept : s'.file = s.file ++ c := hfile
      have hall : s.buffer ++ a :: l = c ++ (s'.buffer ++ l) := by
        rw [← List.append_assoc, hadded, List.append_assoc]
        rfl
      refine ⟨c ++ c', ?_, fun h => ?_, fun h => ?_⟩
      · change (fprintf l s' ws').2.1.file = _
        rw [hfile', hkept, List.append_assoc]
      · rw [hall, List.append_assoc]
        exact congrArg (c ++ ·) (hdone' h)
      · rw [hall, List.append_assoc]
        exact (List.prefix_append_right_inj c).mpr (hfailed' h)
    | false =>
      refine ⟨c, hfile, nofun, fun h => ?_⟩
      exact (hfailed rfl).trans (List.prefix_append _ _)

/-- A closed file holds the content if no error was reported, and less otherwise. -/
theorem fclose_spec (s : Stream α size) (ws : Writes) :
    ((s.fclose ws).1 = true → (s.fclose ws).2.file = s.content) ∧
      ((s.fclose ws).1 = false → (s.fclose ws).2.file.length < s.content.length) :=
  (flush_spec s ws).2

end Stream

end UbervisorBufferedFiles
