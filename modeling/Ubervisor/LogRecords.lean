import Ubervisor.Answers
import Ubervisor.JsonC
import Ubervisor.Outputs

/-! # The records of the log

A call of `slog` leaves a record in the log and sends its text to the subscribers. A line that is
cut is announced by a record of its own. -/
namespace UbervisorLogRecords

open UbervisorValues
open UbervisorServer
open UbervisorAnswers
open UbervisorOutputs
open UbervisorJsonC

structure Record where
  written : Bytes
  sent : Bytes

def Record.outputs (r : Record) : List Output := [.logWrite r.written, .notify (.log r.sent)]

/-- The subscribers get what is in the log: a line that fits the buffer with its NUL. -/
structure Record.Exact (r : Record) : Prop where
  same : r.written = r.sent
  noNul : 0 ∉ r.written
  short : r.written.length ≤ bufferSiz - 1
  line : r.written.getLast? = some 10

/-- A call of `slog` is exact in all its records, and calls itself at most once. -/
def ExactCall (P : Platform) (t : ℤ) (depth : ℕ) (msg : Bytes) (io : Io) : Prop :=
  ∃ records : List Record, records.length ≤ 2 ∧
    (Io.slog P t depth msg io).out = io.out ++ records.flatMap Record.outputs ∧
    ∀ r ∈ records, r.Exact

section Records

variable {P : Platform} {t : ℤ} {msg : CStr} {io : Io} {depth : ℕ}

theorem logLine_length (P : Platform) (t : ℤ) (b : Bytes) :
    (Io.logLine P t b).length = (P.logTime t).length + 4 + min (bufferSiz - 1) b.length := by
  have hsep : (text " -- ").length = 4 := by decide
  rw [Io.logLine, List.length_append, List.length_append, List.length_take, hsep]

theorem logLine_fits : (Io.logLine P t msg.bytes).length < bufferSiz ↔
    (P.logTime t).length + 4 + msg.bytes.length < bufferSiz := by
  rw [logLine_length, bufferSiz]
  omega

theorem slog_whole {b : Bytes} (h : (Io.logLine P t b).length < bufferSiz) :
    (Io.slog P t (depth + 1) b io).out =
      io.out ++ (Record.mk (Io.logLine P t b) (Io.logLine P t b)).outputs := by
  rw [Io.slog, if_neg (Nat.not_le.mpr h), notify_out]
  exact List.append_assoc _ _ _

/-- The record in the log ends with the NUL of the buffer. -/
theorem slog_cut {b : Bytes} (h : bufferSiz ≤ (Io.logLine P t b).length) (depth : ℕ) (io : Io) :
    ∃ line, (Io.slog P t (depth + 2) b io).out = io.out ++
      ([Record.mk (Io.logLine P t Io.tooBig) (Io.logLine P t Io.tooBig),
        Record.mk (line ++ [0]) line].flatMap Record.outputs) := by
  have hfits := Nat.not_le.mp (tooBig_fits (P := P) t)
  refine ⟨(Io.logLine P t b).take (bufferSiz - 2) ++ [10], ?_⟩
  rw [Io.slog, if_pos h, notify_out]
  change (Io.slog P t (depth + 1) Io.tooBig io).out ++ _ ++ _ = _
  rw [slog_whole hfits]
  simp only [List.flatMap_cons, List.flatMap_nil, List.append_assoc, List.append_nil]
  rfl

theorem logLine_exact (hts : 0 ∉ P.logTime t) (hline : msg.bytes.getLast? = some 10)
    (h : (P.logTime t).length + 4 + msg.bytes.length < bufferSiz) :
    (Record.mk (Io.logLine P t msg.bytes) (Io.logLine P t msg.bytes)).Exact := by
  have hshort := logLine_fits.mpr h
  have htake : msg.bytes.take (bufferSiz - 1) = msg.bytes :=
    List.take_of_length_le (by omega)
  have hsep : 0 ∉ text " -- " := by decide
  refine ⟨rfl, ?_, Nat.le_sub_one_of_lt hshort, ?_⟩
  · simp only [Io.logLine, htake, List.mem_append, not_or]
    exact ⟨⟨hts, hsep⟩, msg.noNul⟩
  · simp only [Io.logLine, htake, List.getLast?_append, hline, Option.some_or]

/-- A line that is cut is written with a NUL. -/
theorem cut_inexact {b : Bytes} (h : bufferSiz ≤ (Io.logLine P t b).length) :
    ¬ ExactCall P t (depth + 2) b io := by
  rintro ⟨records, -, hout, hexact⟩
  obtain ⟨line, hcut⟩ := slog_cut h depth io
  have hrecords := List.append_cancel_left (hout.symm.trans hcut)
  have hmem : Output.logWrite (line ++ [0]) ∈ records.flatMap Record.outputs := by
    rw [hrecords]
    simp [Record.outputs]
  obtain ⟨r, hr, hw⟩ := List.mem_flatMap.mp hmem
  have hwritten : r.written = line ++ [0] := by
    simpa [Record.outputs, eq_comm] using hw
  have hnul := (hexact r hr).noNul
  rw [hwritten] at hnul
  exact hnul (List.mem_append_right line (List.mem_singleton_self 0))

/-- The records are exact as long as the line fits the buffer. -/
theorem slog_exact_iff (hts : ∀ t, 0 ∉ P.logTime t) (t : ℤ) (msg : CStr)
    (hline : msg.bytes.getLast? = some 10) (depth : ℕ) (io : Io) :
    ExactCall P t (depth + 2) msg.bytes io ↔
      (P.logTime t).length + 4 + msg.bytes.length < bufferSiz := by
  constructor
  · intro h
    by_contra hlong
    rw [← logLine_fits, Nat.not_lt] at hlong
    exact cut_inexact hlong h
  · intro h
    refine ⟨[⟨Io.logLine P t msg.bytes, Io.logLine P t msg.bytes⟩], by simp, ?_, ?_⟩
    · rw [slog_whole (logLine_fits.mpr h), List.flatMap_singleton]
    · intro r hr
      rw [List.mem_singleton.mp hr]
      exact logLine_exact (hts t) hline h

end Records

section Lines

/-- The line about the deletion of a group with a name of `n` bytes. -/
def deleMessage (n : ℕ) : CStr :=
  ⟨text "[dele] " ++ List.replicate n 97 ++ [10], by simp [List.mem_replicate, text]⟩

theorem deleMessage_line (n : ℕ) : (deleMessage n).bytes.getLast? = some 10 := by
  simp [deleMessage]

theorem twoDigits_noNul (n : ℕ) : 0 ∉ twoDigits n := by
  have hdigit : ∀ d < 10, (0 : UInt8) ≠ UInt8.ofNat (48 + d) := fun d hd he => by
    have hzero : UInt8.toNat 0 = 0 := rfl
    have hd' := toNat_digit hd
    rw [← he] at hd'
    omega
  intro h
  rcases List.mem_cons.mp h with h | h
  · exact hdigit _ (Nat.mod_lt _ (by decide)) h
  · exact hdigit _ (Nat.mod_lt _ (by decide)) (List.mem_singleton.mp h)

theorem firstDay_noNul (t : ℤ) : 0 ∉ (sample []).logTime t := by
  change 0 ∉ firstDay t
  have htext : 0 ∉ text "Jan 01 " ∧ 0 ∉ text ":" := by decide
  simp only [firstDay, List.mem_append, not_or]
  exact ⟨⟨⟨⟨⟨htext.1, twoDigits_noNul _⟩, htext.2⟩, twoDigits_noNul _⟩, htext.2⟩,
    twoDigits_noNul _⟩

def quietIo : Io := ⟨[], [], [], 0, [], fun _ => none⟩

theorem shortName_exact : ExactCall (sample []) 0 2 (deleMessage 5).bytes quietIo ↔
    ((sample []).logTime 0).length + 4 + (deleMessage 5).bytes.length < bufferSiz :=
  slog_exact_iff firstDay_noNul 0 _ (deleMessage_line 5) 0 _

/-- The deletion of a group with a name that nearly fills the buffer. -/
theorem longName_inexact : (deleMessage 2040).bytes.getLast? = some 10 ∧
    ¬ ExactCall (sample []) 0 2 (deleMessage 2040).bytes quietIo := by
  refine ⟨deleMessage_line 2040, cut_inexact ?_⟩
  rw [← Nat.not_lt, logLine_fits]
  have hlen : (deleMessage 2040).bytes.length = 2048 := by
    simp only [deleMessage, List.length_append, List.length_replicate]
    rfl
  rw [hlen, bufferSiz]
  omega

end Lines

end UbervisorLogRecords
