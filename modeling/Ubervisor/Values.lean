import Mathlib.Data.List.TakeWhile
import Mathlib.Data.Nat.Digits.Lemmas
import Mathlib.Data.Rat.Defs

/-! # Bytes, C strings and JSON values

The server handles NUL-terminated strings, 16-bit fields in network byte order and JSON
objects. The JSON library and `strftime` are not part of the program: they enter as the
fields of a `Platform`, and only as functions of what the program passes to them. -/
namespace UbervisorValues

abbrev Bytes := List UInt8

/-- The bytes of a string constant of the source. All of them are ASCII. -/
def text (s : String) : Bytes := s.toList.map fun c => UInt8.ofNat c.toNat

/-- A C string: the bytes before the terminating NUL. -/
@[ext] structure CStr where
  bytes : Bytes
  noNul : 0 ∉ bytes
  deriving DecidableEq

/-- What `strlen`, `strdup` and `%s` see of a buffer. -/
def CStr.ofBytes (b : Bytes) : CStr where
  bytes := b.takeWhile (· ≠ 0)
  noNul h := by simpa using List.mem_takeWhile_imp h

theorem CStr.bytes_ofBytes {b : Bytes} (h : 0 ∉ b) : (CStr.ofBytes b).bytes = b :=
  List.takeWhile_eq_self_iff.mpr fun x hx => by
    simpa using fun (e : x = 0) => h (e ▸ hx)

@[simp] theorem CStr.ofBytes_bytes (s : CStr) : CStr.ofBytes s.bytes = s :=
  CStr.ext (CStr.bytes_ofBytes s.noNul)

/-- `printf("%s", NULL)`. -/
def nullText : Bytes := text "(null)"

def optText (s : Option CStr) : Bytes := (s.map CStr.bytes).getD nullText

def natText (n : ℕ) : Bytes :=
  if n = 0 then [48] else (Nat.digits 10 n).reverse.map fun d => UInt8.ofNat (48 + d)

theorem natText_length {i : ℕ} (h : i < 10000) : (natText i).length ≤ 4 := by
  unfold natText
  split
  · simp
  · rw [List.length_map, List.length_reverse]
    exact (Nat.digits_length_le_iff (by decide) i).mpr (by omega)

theorem toNat_digit {d : ℕ} (h : d < 10) : (UInt8.ofNat (48 + d)).toNat = 48 + d := by
  rw [UInt8.toNat_ofNat']
  omega

theorem natText_noNul (n : ℕ) : 0 ∉ natText n := by
  unfold natText
  split
  · decide
  · intro h
    obtain ⟨d, hd, he⟩ := List.mem_map.mp h
    have hlt : d < 10 := Nat.digits_lt_base' (List.mem_reverse.mp hd)
    have hd' := toNat_digit hlt
    rw [he] at hd'
    have hzero : UInt8.toNat 0 = 0 := rfl
    omega

theorem natText_injective : Function.Injective natText := by
  have hread : ∀ n, (natText n).map (fun c => c.toNat - 48) =
      if n = 0 then [0] else (Nat.digits 10 n).reverse := by
    intro n
    unfold natText
    split
    · rfl
    · rw [List.map_map]
      refine List.map_congr_left (g := id) (fun d hd => ?_) |>.trans (List.map_id _)
      have hlt : d < 10 := Nat.digits_lt_base' (List.mem_reverse.mp hd)
      simp only [Function.comp_apply, toNat_digit hlt, id]
      omega
  intro n m h
  have hnm := (hread n).symm.trans ((congrArg _ h).trans (hread m))
  have hzero : ∀ k, k ≠ 0 → (Nat.digits 10 k).reverse ≠ [0] := fun k hk he => by
    have hk' := Nat.getLast_digit_ne_zero 10 hk
    rw [List.reverse_eq_iff] at he
    exact hk' (by simp only [he]; rfl)
  split at hnm <;> split at hnm
  · omega
  · rename_i hm
    exact absurd hnm.symm (hzero m hm)
  · rename_i hn _
    exact absurd hnm (hzero n hn)
  · exact Nat.digits_inj_iff.mp (List.reverse_injective hnm)

/-- `printf("%d", n)`. -/
def intText (n : ℤ) : Bytes := if n < 0 then 45 :: natText n.natAbs else natText n.natAbs

/-- A 16-bit field in network byte order. -/
def be16 (n : UInt16) : Bytes := [UInt8.ofNat (n.toNat / 256), UInt8.ofNat (n.toNat % 256)]

def readBe16 (hi lo : UInt8) : UInt16 := UInt16.ofNat (hi.toNat * 256 + lo.toNat)

@[simp] theorem length_be16 (n : UInt16) : (be16 n).length = 2 := rfl

theorem readBe16_be16 (n : UInt16) :
    readBe16 (UInt8.ofNat (n.toNat / 256)) (UInt8.ofNat (n.toNat % 256)) = n := by
  have hn := n.toNat_lt
  apply UInt16.toNat_inj.mp
  simp only [readBe16, UInt16.toNat_ofNat', UInt8.toNat_ofNat']
  omega

/-- A parsed JSON value. Keys and strings are byte strings; a string may contain NUL. -/
inductive Json where
  | null
  | boolean (b : Bool)
  | int (i : ℤ)
  | double (x : ℚ)
  | string (s : Bytes)
  | array (l : List Json)
  | object (l : List (Bytes × Json))

/-- `json_object_object_get`: a later field replaces an earlier one of the same name, and
a field that is `null` cannot be told from a missing one. -/
def Json.objectGet (j : Json) (key : String) : Option Json :=
  match j with
  | .object fields =>
    match fields.reverse.find? fun f => f.1 == text key with
    | some (_, .null) => none
    | some (_, v) => some v
    | none => none
  | _ => none

/-- `json_object_get_int` clamps to the range of a 32-bit `int`. -/
def clampInt (i : ℤ) : ℤ := max (-2147483648) (min 2147483647 i)

/-- What the server takes from json-c and libc. -/
structure Platform where
  /-- `json_tokener_parse`; a failed parse and `null` are both a NULL or an error object. -/
  jsonParse : Bytes → Option Json
  /-- `json_object_to_json_string`. -/
  jsonPrint : Json → Bytes
  /-- `strftime` of `gmtime` with `LOG_TS_FORMAT` into the 64 bytes of `ts_buf`. -/
  logTime : ℤ → Bytes
  logTime_lt : ∀ t, (logTime t).length < 64
  /-- `strftime` of `gmtime` with the format of dump names. -/
  dumpTime : ℤ → Bytes
  /-- `geteuid`. -/
  euid : ℤ
  /-- `UV_VERSION DEBUG_VERSION`. -/
  uvVersion : Bytes

end UbervisorValues
