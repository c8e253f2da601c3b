import Ubervisor.Events
import Mathlib.Algebra.BigOperators.Group.List.Basic
import Mathlib.Algebra.Order.BigOperators.Group.List

/-! # The text json-c prints

`json_object_to_json_string` as json-c documents it, the length of its result, a platform that
prints so and parses the texts of a given list of values, and events on this platform. -/
namespace UbervisorJsonC

open UbervisorValues
open UbervisorKernel
open UbervisorServer
open UbervisorEvents

def hexDigit (n : ℕ) : UInt8 := UInt8.ofNat (if n < 10 then 48 + n else 87 + n)

/-- `json_escape_str`, one byte. -/
def escapeByte (b : UInt8) : Bytes :=
  if b = 8 then text "\\b"
  else if b = 10 then text "\\n"
  else if b = 13 then text "\\r"
  else if b = 9 then text "\\t"
  else if b = 34 then text "\\\""
  else if b = 92 then text "\\\\"
  else if b = 47 then text "\\/"
  else if b < 32 then text "\\u00" ++ [hexDigit (b.toNat / 16), hexDigit (b.toNat % 16)]
  else [b]

def escape (s : Bytes) : Bytes := s.flatMap escapeByte

/-- `%f` of a value with no digits after the point. -/
def doubleText (x : ℚ) : Bytes := intText (x.num.tdiv x.den) ++ text ".000000"

/-- What stands between two elements. -/
def comma : Bool → Bytes
  | true => []
  | false => [44]

mutual

def printJson : Json → Bytes
  | .null => text "null"
  | .boolean b => if b then text "true" else text "false"
  | .int i => intText i
  | .double x => doubleText x
  | .string s => [34] ++ escape s ++ [34]
  | .array l => text "[" ++ printItems l ++ text " ]"
  | .object l => text "\x7b" ++ printFields l ++ text " \x7d"

def printItems : List Json → Bytes
  | [] => []
  | j :: rest => text " " ++ printJson j ++ comma rest.isEmpty ++ printItems rest

def printFields : List (Bytes × Json) → Bytes
  | [] => []
  | (k, v) :: rest =>
    text " \"" ++ escape k ++ text "\": " ++ printJson v ++ comma rest.isEmpty ++ printFields rest

end

def escapeWidth (b : UInt8) : ℕ := (escapeByte b).length

def escapedWidth (s : Bytes) : ℕ := (s.map escapeWidth).sum

def commaWidth : Bool → ℕ
  | true => 0
  | false => 1

mutual

/-- The length of the printed text. -/
def width : Json → ℕ
  | .null => 4
  | .boolean b => if b then 4 else 5
  | .int i => (intText i).length
  | .double x => (doubleText x).length
  | .string s => escapedWidth s + 2
  | .array l => widthItems l + 3
  | .object l => widthFields l + 3

def widthItems : List Json → ℕ
  | [] => 0
  | j :: rest => 1 + width j + commaWidth rest.isEmpty + widthItems rest

def widthFields : List (Bytes × Json) → ℕ
  | [] => 0
  | (k, v) :: rest =>
    escapedWidth k + 5 + width v + commaWidth rest.isEmpty + widthFields rest

end

theorem length_escape (s : Bytes) : (escape s).length = escapedWidth s := by
  rw [escape, List.length_flatMap]
  rfl

theorem length_comma (b : Bool) : (comma b).length = commaWidth b := by cases b <;> rfl

mutual

theorem length_printJson : ∀ j : Json, (printJson j).length = width j
  | .null => rfl
  | .boolean b => by cases b <;> rfl
  | .int i => rfl
  | .double x => rfl
  | .string s => by simp [printJson, width, length_escape]
  | .array l => by
    have h := length_printItems l
    simp [printJson, width, h, text]
  | .object l => by
    have h := length_printFields l
    simp [printJson, width, h, text]

theorem length_printItems : ∀ l : List Json, (printItems l).length = widthItems l
  | [] => rfl
  | j :: rest => by
    have h₁ := length_printJson j
    have h₂ := length_printItems rest
    simp [printItems, widthItems, h₁, h₂, length_comma, text]
    omega

theorem length_printFields : ∀ l : List (Bytes × Json), (printFields l).length = widthFields l
  | [] => rfl
  | (k, v) :: rest => by
    have h₁ := length_printJson v
    have h₂ := length_printFields rest
    simp [printFields, widthFields, h₁, h₂, length_escape, length_comma, text]
    omega

end

/-- A byte takes at most six. -/
theorem escapeWidth_le (b : UInt8) : escapeWidth b ≤ 6 := by
  unfold escapeWidth escapeByte
  split_ifs <;> simp [text]

theorem escapedWidth_le (s : Bytes) : escapedWidth s ≤ 6 * s.length := by
  unfold escapedWidth
  have h := List.sum_le_card_nsmul (s.map escapeWidth) 6 fun w hw => by
    obtain ⟨b, -, rfl⟩ := List.mem_map.mp hw
    exact escapeWidth_le b
  simp at h
  omega

/-- Two decimal digits. -/
def twoDigits (n : ℕ) : Bytes := [UInt8.ofNat (48 + n / 10 % 10), UInt8.ofNat (48 + n % 10)]

/-- `LOG_TS_FORMAT` on the first day of the epoch. -/
def firstDay (t : ℤ) : Bytes :=
  let n := t.toNat
  text "Jan 01 " ++ twoDigits (n / 3600) ++ text ":" ++ twoDigits (n / 60 % 60) ++ text ":" ++
    twoDigits (n % 60)

/-- A value and the text json-c prints for it, which it also parses. -/
def printed (j : Json) : Bytes × Json := (printJson j, j)

/-- json-c on the given texts, each with the value it stands for. -/
def sample (texts : List (Bytes × Json)) : Platform where
  jsonParse b := (texts.find? fun t => t.1 == b).map Prod.snd
  jsonPrint := printJson
  logTime := firstDay
  logTime_lt t := by simp [firstDay, twoDigits, text]
  dumpTime _ := text "Jan_01_00_00_00"
  euid := 0
  uvVersion := text "1.0"

/-- Texts that differ are told apart. -/
theorem sample_parse {texts : List (Bytes × Json)} {j : Json} (hd : (texts.map Prod.fst).Nodup)
    (hj : printed j ∈ texts) : (sample texts).jsonParse (printJson j) = some j := by
  change ((texts.find? fun t => t.1 == printJson j).map Prod.snd) = some j
  induction texts with
  | nil => exact absurd hj List.not_mem_nil
  | cons t texts ih =>
    rw [List.map_cons, List.nodup_cons] at hd
    rcases List.mem_cons.mp hj with rfl | hj
    · rw [List.find?_cons_of_pos (by simp [printed])]
      rfl
    · have hne : t.1 ≠ printJson j := fun h =>
        hd.1 (List.mem_map.mpr ⟨printed j, hj, h.symm⟩)
      rw [List.find?_cons_of_neg (by simpa using hne)]
      exact ih hd.2 hj

/-- Every `spawn` and `fork` of the callback succeeds, in turn with these pids. -/
def starting (pids : List Pid) : Oracle :=
  ⟨pids.map fun pid => ⟨some (3, 4), some pid, true, true⟩, [], fun _ => none⟩

def connecting : Event := .callback (.accept (.connected 0)) (starting [])

/-- A request with a value as its argument. -/
def asking (name : String) (j : Json) (pids : List Pid) : Event :=
  .callback (.request 0 1 (text name ++ printJson j)) (starting pids)

/-- Two updates of the group `web`: a third instance, and `STATUS_STOPPED`. -/
def growRequest : Json :=
  .object [(text "name", .string (text "web")), (text "instances", .int 3)]

def stopRequest : Json :=
  .object [(text "name", .string (text "web")), (text "status", .int 2)]

/-- `SIGCHLD` arrives, and `sigchld_cb` makes as many turns. -/
def signalled (turns : ℕ) (pids : List Pid) : List Event :=
  .callback .sigchld (starting []) ::
    List.replicate turns (.callback .waitpid (starting pids))

end UbervisorJsonC
