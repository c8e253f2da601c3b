import Ubervisor.ChildConfigs

/-! # Status arguments

`child_config_status_from_string` of the command line tools, with `strtol` for a 64-bit `long`. A
libc may report `EINVAL` for a string without digits. -/
namespace UbervisorStatusArguments

open UbervisorValues
open UbervisorChildConfigs

section Strtol

def eInval : ℤ := 22
def eRange : ℤ := 34
def longMin : ℤ := -9223372036854775808
def longMax : ℤ := 9223372036854775807

/-- `isspace`. -/
def isBlank (c : UInt8) : Bool := c = 32 ∨ (9 ≤ c ∧ c ≤ 13)

def isDigit (c : UInt8) : Bool := 48 ≤ c ∧ c ≤ 57

def digitsValue (b : Bytes) : ℕ := b.foldl (fun n c => 10 * n + (c.toNat - 48)) 0

/-- What `strtol` converts: whether there is a minus sign, and the digits. -/
def subject (b : Bytes) : Bool × Bytes :=
  match b.dropWhile isBlank with
  | 45 :: l => (true, l.takeWhile isDigit)
  | 43 :: l => (false, l.takeWhile isDigit)
  | l => (false, l.takeWhile isDigit)

/-- The number a string begins with. -/
def leadingNumber (b : Bytes) : ℤ :=
  if (subject b).1 then -(digitsValue (subject b).2 : ℤ) else digitsValue (subject b).2

/-- `strtol(str, NULL, 10)`: the result, and `errno` after it. -/
def strtol (reports : Bool) (str : Bytes) (errno : ℤ) : ℤ × ℤ :=
  if longMax < leadingNumber str then (longMax, eRange)
  else if leadingNumber str < longMin then (longMin, eRange)
  else if (subject str).2 = [] ∧ reports then (0, eInval)
  else (leadingNumber str, errno)

end Strtol

/-- `!strncmp(a, b, n)`. -/
def startsAs (n : ℕ) (a b : Bytes) : Bool := a.take n == b.take n

/-- A `long` that is stored in an `int`. -/
def intOfLong (n : ℤ) : ℤ := n.bmod 4294967296

def childConfigStatusFromString (reports : Bool) (str : CStr) (errno : ℤ) : ℤ :=
  if startsAs 5 str.bytes (text "start") then statusRunning
  else if startsAs 4 str.bytes (text "stop") then statusStopped
  else if startsAs 5 str.bytes (text "fatal") then statusBroken
  else
    let (long, errno) := strtol reports str.bytes errno
    let ret := intOfLong long
    if errno = eInval then -1
    else if ret > statusMax then -1
    else ret

/-- The documented spellings. -/
def spellings : List (Bytes × ℤ) :=
  [(text "start", statusRunning), (text "stop", statusStopped), (text "fatal", statusBroken),
    (text "1", statusRunning), (text "2", statusStopped), (text "3", statusBroken)]

/-- A documented word, or an extension of one. -/
def Word (b : Bytes) : Prop := text "start" <+: b ∨ text "stop" <+: b ∨ text "fatal" <+: b

/-- A decimal number from 1 to `STATUS_MAX`. -/
def Decimal (b : Bytes) : Prop :=
  b ≠ [] ∧ (∀ c ∈ b, isDigit c = true) ∧ 1 ≤ digitsValue b ∧ digitsValue b ≤ 3

/-- What a status argument should be taken for. -/
structure Understood (b : Bytes) (status : ℤ) : Prop where
  code : status = statusRunning ∨ status = statusStopped ∨ status = statusBroken ∨ status = -1
  spelled : ∀ n, (b, n) ∈ spellings → status = n
  refused : ¬ Word b → ¬ Decimal b → status = -1

/-- A number that is too large, or an `errno` that `strtol` does not clear, or a number whose
lower 32 bits are too large or -1. -/
def Refusable (reports : Bool) (b : Bytes) (errno : ℤ) : Prop :=
  longMax < leadingNumber b ∨ (longMin ≤ leadingNumber b ∧ (errno = eInval ∨
    ((subject b).2 = [] ∧ reports = true) ∨ statusMax < intOfLong (leadingNumber b) ∨
      intOfLong (leadingNumber b) = -1))

/-- A word; or a number from 1 to 3, and `errno` is not `EINVAL` where it has one digit; or a
string that is refused. -/
def WellTaken (reports : Bool) (b : Bytes) (errno : ℤ) : Prop :=
  Word b ∨ (Decimal b ∧ (b.length = 1 → errno ≠ eInval)) ∨
    (¬ Decimal b ∧ Refusable reports b errno)

instance (b : Bytes) : Decidable (Word b) := inferInstanceAs (Decidable (_ ∨ _))

instance (b : Bytes) : Decidable (Decimal b) := inferInstanceAs (Decidable (_ ∧ _))

section Numbers

variable {b : Bytes} {n : ℤ}

/-- A string of digits is converted as a whole. -/
theorem subject_digits (hb : b ≠ []) (hd : ∀ c ∈ b, isDigit c = true) : subject b = (false, b) := by
  obtain ⟨c, l, rfl⟩ := List.exists_cons_of_ne_nil hb
  have hc : isDigit c = true := hd c List.mem_cons_self
  have hbounds : 48 ≤ c ∧ c ≤ 57 := of_decide_eq_true hc
  have hblank : isBlank c = false := by
    have h48 : 48 ≤ c.toNat := UInt8.le_iff_toNat_le.mp hbounds.1
    refine decide_eq_false ?_
    rintro (rfl | ⟨-, h13⟩)
    · exact absurd h48 (by decide)
    · have h13 : c.toNat ≤ 13 := UInt8.le_iff_toNat_le.mp h13
      omega
  have hplus : c ≠ 43 := by
    rintro rfl
    exact absurd hbounds.1 (by decide)
  have hminus : c ≠ 45 := by
    rintro rfl
    exact absurd hbounds.1 (by decide)
  have hall : (c :: l).takeWhile isDigit = c :: l := List.takeWhile_eq_self_iff.mpr hd
  unfold subject
  rw [List.dropWhile_cons_of_neg (by rw [hblank]; exact Bool.false_ne_true)]
  split
  · rename_i h
    exact absurd (List.cons.inj h).1 hminus
  · rename_i h
    exact absurd (List.cons.inj h).1 hplus
  · rw [hall]

theorem decimal_number (h : Decimal b) :
    leadingNumber b = digitsValue b ∧ (subject b).2 ≠ [] := by
  obtain ⟨hb, hd, -⟩ := h
  unfold leadingNumber
  rw [subject_digits hb hd]
  exact ⟨rfl, hb⟩

theorem intOfLong_small (h : 0 ≤ n) (hn : n ≤ 3) : intOfLong n = n := by
  unfold intOfLong
  rw [Int.bmod_def]
  omega

/-- A decimal number of one digit is one of the codes. -/
theorem decimal_code (h : Decimal b) (hlen : b.length = 1) :
    (b, (digitsValue b : ℤ)) ∈ spellings := by
  obtain ⟨c, rfl⟩ := List.length_eq_one_iff.mp hlen
  obtain ⟨-, hd, hone, hthree⟩ := h
  have hvalue : digitsValue [c] = c.toNat - 48 := by simp [digitsValue]
  rw [hvalue] at hone hthree ⊢
  have hc : c.toNat = 49 ∨ c.toNat = 50 ∨ c.toNat = 51 := by omega
  rcases hc with hc | hc | hc
  · rw [show c = 49 from UInt8.toNat_inj.mp hc]
    decide
  · rw [show c = 50 from UInt8.toNat_inj.mp hc]
    decide
  · rw [show c = 51 from UInt8.toNat_inj.mp hc]
    decide

end Numbers

section Statuses

variable {reports : Bool} {str : CStr} {errno n : ℤ}

theorem startsAs_iff {k : ℕ} {a w : Bytes} (hw : w.length = k) :
    startsAs k a w = true ↔ w <+: a := by
  rw [startsAs, beq_iff_eq, ← hw, List.take_length, List.prefix_iff_eq_take, eq_comm]

/-- The branch for what is no word. -/
theorem status_number (hw : ¬ Word str.bytes) :
    childConfigStatusFromString reports str errno =
      if (strtol reports str.bytes errno).2 = eInval then -1
      else if intOfLong (strtol reports str.bytes errno).1 > statusMax then -1
      else intOfLong (strtol reports str.bytes errno).1 := by
  unfold Word at hw
  push Not at hw
  obtain ⟨hstart, hstop, hfatal⟩ := hw
  have hstart' : ¬ startsAs 5 str.bytes (text "start") = true := fun h =>
    hstart ((startsAs_iff rfl).mp h)
  have hstop' : ¬ startsAs 4 str.bytes (text "stop") = true := fun h =>
    hstop ((startsAs_iff rfl).mp h)
  have hfatal' : ¬ startsAs 5 str.bytes (text "fatal") = true := fun h =>
    hfatal ((startsAs_iff rfl).mp h)
  unfold childConfigStatusFromString
  rw [if_neg hstart', if_neg hstop', if_neg hfatal']

/-- What is no word is refused exactly for one of these reasons. -/
theorem status_refused (hw : ¬ Word str.bytes) (reports : Bool) (errno : ℤ) :
    childConfigStatusFromString reports str errno = -1 ↔ Refusable reports str.bytes errno := by
  have hmax : intOfLong longMax = -1 := by decide
  have hmin : intOfLong longMin = 0 := by decide
  have hrange : ¬ eRange = eInval := by decide
  have hthree : statusMax = 3 := rfl
  rw [status_number hw]
  unfold strtol Refusable
  by_cases hover : longMax < leadingNumber str.bytes
  · rw [if_pos hover]
    simp [hover, hrange, hmax]
  · by_cases hunder : leadingNumber str.bytes < longMin
    · rw [if_neg hover, if_pos hunder]
      simp [hover, hrange, hmin, not_le.mpr hunder, hthree]
    · rw [if_neg hover, if_neg hunder]
      by_cases hnone : (subject str.bytes).2 = [] ∧ reports = true
      · rw [if_pos hnone]
        simp [hover, hnone, not_lt.mp hunder]
      · rw [if_neg hnone]
        have hle := not_lt.mp hunder
        by_cases he : errno = eInval
        · simp [he, hle]
        · by_cases hbig : statusMax < intOfLong (leadingNumber str.bytes)
          · simp [hbig, hle]
          · simp [he, hbig, hle, hover, hnone]

theorem status_word (hw : Word str.bytes) (reports : Bool) (errno : ℤ) :
    ∃ w ∈ [statusRunning, statusStopped, statusBroken],
      childConfigStatusFromString reports str errno = w := by
  unfold childConfigStatusFromString
  split
  · exact ⟨_, by simp, rfl⟩
  · rename_i hstart
    split
    · exact ⟨_, by simp, rfl⟩
    · rename_i hstop
      split
      · exact ⟨_, by simp, rfl⟩
      · rename_i hfatal
        rcases hw with h | h | h
        · exact absurd ((startsAs_iff rfl).mpr h) hstart
        · exact absurd ((startsAs_iff rfl).mpr h) hstop
        · exact absurd ((startsAs_iff rfl).mpr h) hfatal

theorem status_spelled (hw : Word str.bytes) (hn : (str.bytes, n) ∈ spellings) :
    childConfigStatusFromString reports str errno = n := by
  obtain ⟨b, hb⟩ := str
  dsimp only at hw hn
  simp only [spellings, List.mem_cons, Prod.mk.injEq, List.not_mem_nil, or_false] at hn
  rcases hn with ⟨rfl, rfl⟩ | ⟨rfl, rfl⟩ | ⟨rfl, rfl⟩ | ⟨rfl, rfl⟩ | ⟨rfl, rfl⟩ | ⟨rfl, rfl⟩
  · rfl
  · rfl
  · rfl
  · exact absurd hw (by decide)
  · exact absurd hw (by decide)
  · exact absurd hw (by decide)

/-- The spellings that are no words are the codes. -/
theorem spelled_code {b : Bytes} (hw : ¬ Word b) (hn : (b, n) ∈ spellings) :
    b.length = 1 ∧ (digitsValue b : ℤ) = n ∧ Decimal b := by
  simp only [spellings, List.mem_cons, Prod.mk.injEq, List.not_mem_nil, or_false] at hn
  rcases hn with ⟨rfl, rfl⟩ | ⟨rfl, rfl⟩ | ⟨rfl, rfl⟩ | ⟨rfl, rfl⟩ | ⟨rfl, rfl⟩ | ⟨rfl, rfl⟩
  · exact absurd (by decide) hw
  · exact absurd (by decide) hw
  · exact absurd (by decide) hw
  · exact ⟨rfl, rfl, by decide +kernel⟩
  · exact ⟨rfl, rfl, by decide +kernel⟩
  · exact ⟨rfl, rfl, by decide +kernel⟩

theorem status_decimal (hw : ¬ Word str.bytes) (hd : Decimal str.bytes) (reports : Bool)
    (errno : ℤ) :
    childConfigStatusFromString reports str errno =
      if errno = eInval then -1 else (digitsValue str.bytes : ℤ) := by
  obtain ⟨hnumber, hdigits⟩ := decimal_number hd
  obtain ⟨-, -, hone, hthree⟩ := hd
  have hlong : strtol reports str.bytes errno = ((digitsValue str.bytes : ℤ), errno) := by
    unfold strtol longMax longMin
    rw [hnumber, if_neg (by omega), if_neg (by omega), if_neg fun h => hdigits h.1]
  rw [status_number hw, hlong, intOfLong_small (by omega) (by omega)]
  have hmax : ¬ (digitsValue str.bytes : ℤ) > statusMax := by
    unfold statusMax
    omega
  rw [if_neg hmax]

/-- A status argument is taken for what it means exactly if it is a word, or a code while
`errno` is not `EINVAL`, or refused. -/
theorem status_understood_iff (reports : Bool) (str : CStr) (errno : ℤ) :
    Understood str.bytes (childConfigStatusFromString reports str errno) ↔
      WellTaken reports str.bytes errno := by
  by_cases hw : Word str.bytes
  · refine iff_of_true ⟨?_, ?_, fun h => absurd hw h⟩ (.inl hw)
    · obtain ⟨w, hmem, hs⟩ := status_word hw reports errno
      simp only [List.mem_cons, List.not_mem_nil, or_false] at hmem
      rw [hs]
      tauto
    · exact fun n hn => status_spelled hw hn
  · by_cases hd : Decimal str.bytes
    · have hstatus := status_decimal hw hd reports errno
      have hvalue : (digitsValue str.bytes : ℤ) = statusRunning ∨
          (digitsValue str.bytes : ℤ) = statusStopped ∨
          (digitsValue str.bytes : ℤ) = statusBroken := by
        obtain ⟨-, -, hone, hthree⟩ := hd
        unfold statusRunning statusStopped statusBroken
        omega
      constructor
      · intro h
        refine .inr (.inl ⟨hd, fun hlen he => ?_⟩)
        have hcode := h.spelled _ (decimal_code hd hlen)
        rw [hstatus, if_pos he] at hcode
        omega
      · rintro (h | ⟨-, hcode⟩ | ⟨h, -⟩)
        · exact absurd h hw
        · refine ⟨?_, ?_, fun _ h => absurd hd h⟩
          · rw [hstatus]
            split
            · exact .inr (.inr (.inr rfl))
            · tauto
          · intro n hn
            obtain ⟨hlen, hn, -⟩ := spelled_code hw hn
            rw [hstatus, if_neg (hcode hlen), hn]
        · exact absurd hd h
    · have hrefused := status_refused hw reports errno
      constructor
      · intro h
        exact .inr (.inr ⟨hd, hrefused.mp (h.refused hw hd)⟩)
      · rintro (h | ⟨h, -⟩ | ⟨-, h⟩)
        · exact absurd h hw
        · exact absurd h hd
        · have hs := hrefused.mpr h
          refine ⟨.inr (.inr (.inr hs)), fun n hn => ?_, fun _ _ => hs⟩
          exact absurd (spelled_code hw hn).2.2 hd

/-- Text that is no status is taken for the status 0. -/
theorem zero_misunderstood : ¬ ∀ (reports : Bool) (str : CStr) (errno : ℤ),
    Understood str.bytes (childConfigStatusFromString reports str errno) := by
  intro h
  have hzero := (h false (CStr.ofBytes (text "running")) 0).code
  revert hzero
  decide

end Statuses

end UbervisorStatusArguments
