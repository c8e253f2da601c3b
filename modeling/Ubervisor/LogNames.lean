import Ubervisor.Buffers
import Ubervisor.Commands

/-! # The names of the logs

`replace_str` puts the number of an instance into the path of a log, in the memory of the path. -/
namespace UbervisorLogNames

open UbervisorValues
open UbervisorBuffers
open UbervisorChildConfigs
open UbervisorCommands

section Memory

/-- The string at `p`, with its NUL inside the buffer. -/
def stringAt (m : Bytes) (p : ℕ) : Option Bytes :=
  if 0 ∈ m.drop p then some (CStr.ofBytes (m.drop p)).bytes else none

/-- `replace_str` on the buffer of the string `in`; nothing when it goes out of the buffer. -/
def replaceStrIn (m a b : Bytes) : Option Bytes :=
  (stringAt m 0).bind fun in_ =>
    match position a in_ with
    | none => some m
    | some p =>
      let aLen := a.length
      let bLen := b.length
      if bLen > aLen then some m
      else
        (stringAt m p).bind fun inPtr =>
          let inLen := inPtr.length
          (store m p b).bind fun m => move m (p + bLen) (p + aLen) (inLen - aLen + 1)

/-- A path of the configuration, and what follows it in its memory. -/
def pathBuffer (path : CStr) (rest : Bytes) : Bytes := path.bytes ++ 0 :: rest

/-- What `spawn_child` makes of the buffer. -/
def instancePath (path : CStr) (rest : Bytes) (instance_ : ℕ) : Option Bytes :=
  replaceStrIn (pathBuffer path rest) numMarker (instanceStr instance_)

end Memory

section Replacing

variable {a b s pre suf rest : Bytes} {path : CStr}

theorem stringAt_append {l s r : Bytes} (h : 0 ∉ s) :
    stringAt (l ++ (s ++ 0 :: r)) l.length = some s := by
  have htake : (s ++ 0 :: r).takeWhile (· ≠ 0) = s := by
    rw [List.takeWhile_append_of_pos]
    · simp
    · intro c hc
      simpa using fun (e : c = 0) => h (e ▸ hc)
  rw [stringAt, List.drop_left, if_pos (by simp)]
  exact congrArg some htake

theorem stringAt_zero {s r : Bytes} (h : 0 ∉ s) : stringAt (s ++ 0 :: r) 0 = some s :=
  stringAt_append (l := []) h

/-- The number of bytes that the marker is longer than what replaces it. -/
def gap (a b suf : Bytes) : Bytes := (a.drop b.length ++ (suf ++ [0])).drop (suf ++ [0]).length

theorem gap_length (h : b.length ≤ a.length) : (gap a b suf).length = a.length - b.length := by
  simp only [gap, List.length_drop, List.length_append]
  omega

/-- The tail of the string is moved as a whole, with its NUL, and nothing behind the string is
touched. -/
theorem replaceStrIn_found (h : FirstAt a path.bytes pre suf) (hb : b.length ≤ a.length) :
    replaceStrIn (pathBuffer path rest) a b =
      some (pre ++ b ++ suf ++ 0 :: (gap a b suf ++ rest)) := by
  have hwhole : pathBuffer path rest = pre ++ ((a ++ suf) ++ 0 :: rest) := by
    simp only [pathBuffer, h.whole, List.append_assoc]
  have hnul : 0 ∉ a ++ suf := fun hz => path.noNul (by
    rw [h.whole, List.append_assoc]
    exact List.mem_append_right pre hz)
  have hstore : store (pathBuffer path rest) pre.length b =
      some (pre ++ b ++ (a.drop b.length ++ (suf ++ 0 :: rest))) := by
    have hsplit : pathBuffer path rest =
        pre ++ a.take b.length ++ (a.drop b.length ++ (suf ++ 0 :: rest)) := by
      rw [hwhole]
      simp only [List.append_assoc, ← List.append_assoc (a.take _), List.take_append_drop]
    rw [hsplit]
    exact store_append (by rw [List.length_take, min_eq_left hb])
  have hstring : stringAt (pathBuffer path rest) pre.length = some (a ++ suf) := by
    rw [hwhole]
    exact stringAt_append hnul
  have hmove := move_down (pre ++ b) (a.drop b.length) (suf ++ [0]) rest
  have hwholeString : stringAt (pathBuffer path rest) 0 = some path.bytes :=
    stringAt_zero path.noNul
  unfold replaceStrIn
  rw [hwholeString, Option.bind_some, h.position]
  change (if b.length > a.length then _ else _) = _
  rw [if_neg (by omega)]
  rw [hstring, Option.bind_some]
  change (store (pathBuffer path rest) pre.length b).bind _ = _
  rw [hstore, Option.bind_some]
  have hlen : pre.length + a.length = (pre ++ b).length + (a.drop b.length).length := by
    simp only [List.length_append, List.length_drop]
    omega
  have hcount : (a ++ suf).length - a.length + 1 = (suf ++ [0]).length := by
    simp only [List.length_append, List.length_singleton]
    omega
  rw [hlen, hcount, ← List.length_append]
  simpa only [gap, List.append_assoc, List.cons_append, List.nil_append] using hmove

theorem replaceStrIn_missing (h : ¬ a <:+: path.bytes) :
    replaceStrIn (pathBuffer path rest) a b = some (pathBuffer path rest) := by
  have hnone : position a path.bytes = none := by
    cases hp : position a path.bytes with
    | none => rfl
    | some p =>
      obtain ⟨pre, suf, hfirst, -⟩ := position_some hp
      exact absurd ⟨pre, suf, hfirst.whole.symm⟩ h
  unfold replaceStrIn
  rw [pathBuffer, stringAt_zero path.noNul, Option.bind_some, hnone]

end Replacing

section Refinement

variable {a b s pre suf rest : Bytes} {path : CStr}

theorem replaceStr_found (h : FirstAt a s pre suf) (ha : a ≠ []) (hb : b.length ≤ a.length) :
    replaceStr a b s = pre ++ b ++ suf := by
  induction pre generalizing s with
  | nil =>
    obtain ⟨c, s, rfl⟩ := List.exists_cons_of_ne_nil (l := s) fun he => by
      have hw := h.whole
      rw [he] at hw
      exact ha (List.append_eq_nil_iff.mp hw.symm).1
    have hp : a <+: c :: s := ⟨suf, h.whole.symm⟩
    rw [replaceStr, if_pos ⟨hb, hp⟩, h.whole]
    simp
  | cons d pre ih =>
    obtain ⟨c, s, rfl⟩ := List.exists_cons_of_ne_nil (l := s) fun he => by
      have hw := h.whole
      rw [he] at hw
      cases hw
    cases (List.cons.inj h.whole).1
    have hc : ¬ a <+: d :: s := h.first 0 (Nat.succ_pos _)
    rw [replaceStr, if_neg (fun hn => hc hn.2), ih h.tail]
    rfl

theorem replaceStr_missing (h : ¬ a <:+: s) : replaceStr a b s = s := by
  induction s with
  | nil => rfl
  | cons c s ih =>
    rw [List.infix_cons_iff, not_or] at h
    rw [replaceStr, if_neg (fun hn => h.1 hn.2), ih h.2]

end Refinement

section Instances

variable {pre suf : Bytes} {path : CStr} {i j : ℕ}

theorem instanceStr_eq (h : (i : ℤ) < maxInstances) : instanceStr i = natText i := by
  refine List.take_of_length_le (natText_length ?_)
  unfold maxInstances at h
  omega

theorem instanceStr_length (i : ℕ) : (instanceStr i).length ≤ numMarker.length :=
  (List.length_take_le 4 _).trans (by decide)

theorem named_noNul (h : FirstAt numMarker path.bytes pre suf) (i : ℕ) :
    0 ∉ pre ++ instanceStr i ++ suf := by
  have hpath := path.noNul
  rw [h.whole] at hpath
  have hnum : 0 ∉ instanceStr i := fun hz => natText_noNul i (List.mem_of_mem_take hz)
  simp only [List.mem_append, not_or] at hpath ⊢
  exact ⟨⟨hpath.1.1, hnum⟩, hpath.2⟩

/-- The path that the handlers compute is the string that `replace_str` leaves in the memory. -/
theorem instancePath_string (path : CStr) (rest : Bytes) (i : ℕ) :
    (instancePath path rest i).bind (stringAt · 0) =
      some (replaceStr numMarker (instanceStr i) path.bytes) := by
  have hlen := instanceStr_length i
  cases hp : position numMarker path.bytes with
  | none =>
    have hno := position_none hp
    rw [instancePath, replaceStrIn_missing hno, replaceStr_missing hno, Option.bind_some]
    exact stringAt_zero path.noNul
  | some p =>
    obtain ⟨pre, suf, hfirst, -⟩ := position_some hp
    rw [instancePath, replaceStrIn_found hfirst hlen, replaceStr_found hfirst (by decide) hlen,
      Option.bind_some]
    exact stringAt_zero (named_noNul hfirst i)

/-- The buffer keeps its length: what the number is shorter than the marker stays behind the
string. -/
theorem instancePath_found (h : FirstAt numMarker path.bytes pre suf)
    (hi : (i : ℤ) < maxInstances) (rest : Bytes) :
    ∃ left, instancePath path rest i = some (pre ++ natText i ++ suf ++ 0 :: (left ++ rest)) ∧
      (natText i).length + left.length = numMarker.length := by
  have hnum := instanceStr_eq hi
  have hlen := instanceStr_length i
  refine ⟨gap numMarker (instanceStr i) suf, ?_, ?_⟩
  · rw [instancePath, replaceStrIn_found h hlen, hnum]
  · rw [gap_length hlen, ← hnum]
    omega

theorem named_inj (h : pre ++ natText i ++ suf = pre ++ natText j ++ suf) : i = j :=
  natText_injective (List.append_cancel_left (List.append_cancel_right h))

/-- Two instances never share a log, and a path without the marker is left as it is. -/
theorem instance_paths (path : CStr) (rest : Bytes) :
    (¬ numMarker <:+: path.bytes →
      ∀ i, instancePath path rest i = some (pathBuffer path rest)) ∧
    (numMarker <:+: path.bytes →
      ∃ pre suf, FirstAt numMarker path.bytes pre suf ∧
        (∀ i : ℕ, (i : ℤ) < maxInstances → ∃ left,
          instancePath path rest i = some (pre ++ natText i ++ suf ++ 0 :: (left ++ rest)) ∧
          0 ∉ pre ++ natText i ++ suf ∧
          (pre ++ natText i ++ suf ++ 0 :: (left ++ rest)).length =
            (pathBuffer path rest).length) ∧
        ∀ i j : ℕ, (i : ℤ) < maxInstances → (j : ℤ) < maxInstances → i ≠ j →
          (instancePath path rest i).bind (stringAt · 0) ≠
            (instancePath path rest j).bind (stringAt · 0)) := by
  refine ⟨fun h i => replaceStrIn_missing h, fun h => ?_⟩
  obtain ⟨pre, suf, hfirst⟩ : ∃ pre suf, FirstAt numMarker path.bytes pre suf := by
    cases hp : position numMarker path.bytes with
    | none => exact absurd h (position_none hp)
    | some p =>
      obtain ⟨pre, suf, hfirst, -⟩ := position_some hp
      exact ⟨pre, suf, hfirst⟩
  refine ⟨pre, suf, hfirst, ?_, ?_⟩
  · intro i hi
    obtain ⟨left, hbuffer, hleft⟩ := instancePath_found hfirst hi rest
    refine ⟨left, hbuffer, ?_, ?_⟩
    · have hnul := named_noNul hfirst i
      rwa [instanceStr_eq hi] at hnul
    · simp only [pathBuffer, hfirst.whole, List.length_append, List.length_cons]
      omega
  · intro i j hi hj hne he
    have hlen := fun i => instanceStr_length i
    simp only [instancePath_string, replaceStr_found hfirst (by decide) (hlen _)] at he
    rw [instanceStr_eq hi, instanceStr_eq hj] at he
    exact hne (named_inj (Option.some.inj he))

def webLog : CStr := ⟨text "web_%(NUM).log", by decide⟩

theorem webLog_paths : (instancePath webLog [] 3).bind (stringAt · 0) ≠
    (instancePath webLog [] 10).bind (stringAt · 0) := by
  obtain ⟨pre, suf, -, -, h⟩ := (instance_paths webLog []).2 (by decide)
  exact h 3 10 (by decide) (by decide) (by decide)

example : instancePath webLog [] 3 = some (text "web_3.log" ++ 0 :: text ".log" ++ [0]) := by
  decide +kernel

end Instances

end UbervisorLogNames
