import Ubervisor.Handles
import Ubervisor.JsonC

/-! # What READ holds

`c_read` with the object of the request, the copy of the file's name, the descriptor and the object
of the reply, for every result of `open`, `lseek` and `read`. -/
namespace UbervisorReadResources

open UbervisorValues
open UbervisorRegistry
open UbervisorServer
open UbervisorCommands
open UbervisorEvents
open UbervisorHandles
open UbervisorJsonC

inductive Resource where
  | request
  | path
  | fd (n : Fd)
  | reply
  deriving DecidableEq

/-- The results of `open`, of both `lseek`s and of `read`. -/
structure LogCalls where
  opened : Option Fd
  fsize : ℤ
  off : ℤ
  got : Option Bytes

/-- The fields of a READ. -/
structure ReadRequest where
  name : CStr
  stream : ℤ
  off : ℤ
  bytes : ℤ
  inst : ℤ

/-- What is left when `c_read` returns. -/
structure ReadExit where
  uses : List (Use Resource)
  reply : Reply
  ret : Bool

section Command

def readRequest (obj : Json) : Option ReadRequest :=
  match nameField obj, intField obj "stream", doubleField obj "offset", intField obj "bytes",
    intField obj "instance" with
  | some name, some stream, some off, some bytes, some inst => some ⟨name, stream, off, bytes, inst⟩
  | _, _, _, _, _ => none

def ReadRequest.OutOfBounds (q : ReadRequest) : Prop :=
  (q.stream < 1 ∨ q.stream > 2) ∨ (q.bytes < 0 ∨ q.bytes > readMax)

instance (q : ReadRequest) : Decidable q.OutOfBounds := inferInstanceAs (Decidable (_ ∨ _))

def refusal (uses : List (Use Resource)) (msg : String) (ret : Bool) : ReadExit :=
  ⟨uses, .status false (text msg), ret⟩

/-- The object of the request is held for as long as its fields are read. -/
def parsed : List (Use Resource) := [.acquire .request, .release .request]

/-- `c_read` from `open` on. -/
def readFile (path : CStr) (q : ReadRequest) (calls : CStr → ℤ → ℤ → LogCalls) : ReadExit :=
  let c := calls path q.off q.bytes
  match c.opened with
  | none => refusal (parsed ++ [.acquire .path, .release .path]) "can't open logfile." true
  | some fd =>
    let uses := parsed ++ [.acquire .path, .acquire (.fd fd), .release .path]
    match c.got with
    -- the descriptor stays open
    | none => refusal uses "read failed." true
    | some got => ⟨uses ++ [.release (.fd fd), .acquire .reply, .release .reply],
        .log (CStr.ofBytes got) c.off c.fsize, true⟩

/-- `c_read`, once all fields are there. -/
def readStream (r : Registry) (q : ReadRequest) (calls : CStr → ℤ → ℤ → LogCalls) : ReadExit :=
  -- both return without `json_object_put`
  if q.OutOfBounds then refusal [.acquire .request] "parameters out of bounds." false
  else
    match r.childConfigFindByName q.name with
    | none => refusal [.acquire .request] "no such group." true
    | some g =>
      let cc := r.groups g
      if q.inst < 0 ∨ cc.ccInstances ≤ q.inst then refusal parsed "instance out of bounds." true
      else
        match (if q.stream = 1 then cc.ccStdout else cc.ccStderr) with
        | none => refusal parsed "stream is not logged." true
        | some fn =>
          readFile (CStr.ofBytes (replaceStr numMarker (instanceStr q.inst.toNat) fn.bytes)) q calls

/-- `c_read`. The parser has no object for `null`. -/
def cReadCalls (P : Platform) (r : Registry) (buf : CStr) (calls : CStr → ℤ → ℤ → LogCalls) :
    ReadExit :=
  match P.jsonParse buf.bytes with
  | none | some .null => refusal [] "failure" false
  | some (.object l) =>
    match readRequest (.object l) with
    | none => refusal parsed "failure" false
    | some q => readStream r q calls
  | some _ => refusal parsed "failure" false

/-- The calls on a file of which all can be read, or nothing. -/
def fileCalls (logs : CStr → Option LogFile) (fd : Fd) (path : CStr) (off bytes : ℤ) : LogCalls :=
  match logs path with
  | none => ⟨none, -1, -1, none⟩
  | some .unreadable => ⟨some fd, 0, off, none⟩
  | some (.regular content) =>
    let (log, off, fsize) := readLog content off bytes
    ⟨some fd, fsize, off, some log.bytes⟩

end Command

section Refinement

variable {P : Platform} {s : Server} {con : ClientId} {buf : CStr} {fd : Fd} {obj : Json}

theorem readRequest_eq_some {q : ReadRequest} : readRequest obj = some q ↔
    nameField obj = some q.name ∧ intField obj "stream" = some q.stream ∧
      doubleField obj "offset" = some q.off ∧ intField obj "bytes" = some q.bytes ∧
      intField obj "instance" = some q.inst := by
  unfold readRequest
  constructor
  · intro h
    split at h
    · rename_i hn hstream hoff hbytes hinst
      cases h
      exact ⟨hn, hstream, hoff, hbytes, hinst⟩
    · cases h
  · rintro ⟨hn, hstream, hoff, hbytes, hinst⟩
    simp only [hn, hstream, hoff, hbytes, hinst]

theorem readFile_files {path : CStr} {q : ReadRequest} {logs : CStr → Option LogFile} :
    (match logs path with
      | none => (sendStatusMsg P s con false "can't open logfile.", true)
      | some .unreadable => (sendStatusMsg P s con false "read failed.", true)
      | some (.regular content) =>
        let (log, offset, fsize) := readLog content q.off q.bytes
        (sendReply P s con (.log log offset fsize), true)) =
    (sendReply P s con (readFile path q (fileCalls logs fd)).reply,
      (readFile path q (fileCalls logs fd)).ret) := by
  unfold readFile fileCalls
  cases logs path with
  | none => rfl
  | some file =>
    cases file with
    | unreadable => rfl
    | regular content =>
      dsimp only
      rw [CStr.ofBytes_bytes]

/-- On such files this is the command of the server. -/
theorem cRead_calls : cRead P s con buf =
    (sendReply P s con (cReadCalls P s.reg buf (fileCalls s.io.logFiles fd)).reply,
      (cReadCalls P s.reg buf (fileCalls s.io.logFiles fd)).ret) := by
  unfold cRead parseObject cReadCalls
  cases P.jsonParse buf.bytes with
  | none => rfl
  | some j =>
    cases j with
    | object l =>
      dsimp only
      cases hq : readRequest (.object l) with
      | none =>
        dsimp only
        split
        · rename_i n stream off bytes inst hn hstream hoff hbytes hinst
          have hsome := readRequest_eq_some (q := ⟨n, stream, off, bytes, inst⟩).mpr
            ⟨hn, hstream, hoff, hbytes, hinst⟩
          rw [hq] at hsome
          cases hsome
        · rfl
      | some q =>
        obtain ⟨hn, hstream, hoff, hbytes, hinst⟩ := readRequest_eq_some.mp hq
        simp only [hn, hstream, hoff, hbytes, hinst]
        unfold readStream
        by_cases hbad : q.OutOfBounds
        · have hbad' : (q.stream < 1 ∨ q.stream > 2) ∨ q.bytes < 0 ∨ q.bytes > readMax := hbad
          rw [if_pos hbad, if_pos hbad']
          rfl
        · have hok : ¬ ((q.stream < 1 ∨ q.stream > 2) ∨ q.bytes < 0 ∨ q.bytes > readMax) := hbad
          rw [if_neg hbad, if_neg hok]
          cases s.reg.childConfigFindByName q.name with
          | none => rfl
          | some g =>
            dsimp only
            by_cases hi : q.inst < 0 ∨ (s.reg.groups g).ccInstances ≤ q.inst
            · rw [if_pos hi, if_pos hi]
              rfl
            · rw [if_neg hi, if_neg hi]
              cases (if q.stream = 1 then (s.reg.groups g).ccStdout
                else (s.reg.groups g).ccStderr) with
              | none => rfl
              | some fn => exact readFile_files
    | _ => rfl

end Refinement

section Release

variable {P : Platform} {r : Registry} {buf : CStr} {calls : CStr → ℤ → ℤ → LogCalls}
  {q : ReadRequest} {path : CStr} {fd : Fd} {us : List (Use Resource)}

/-- Everything that is acquired is released once, and nothing else is. -/
structure Released (us : List (Use Resource)) : Prop where
  ledger : held [] us = some []
  once : ∀ pre a post, us = pre ++ .acquire a :: post → releases a post = 1

/-- The file that a request is about. -/
def logPath (r : Registry) (q : ReadRequest) : Option CStr :=
  (r.childConfigFindByName q.name).bind fun g =>
    let cc := r.groups g
    if q.inst < 0 ∨ cc.ccInstances ≤ q.inst then none
    else (if q.stream = 1 then cc.ccStdout else cc.ccStderr).map fun fn =>
      CStr.ofBytes (replaceStr numMarker (instanceStr q.inst.toNat) fn.bytes)

/-- The payload has the fields of a READ. -/
def Asks (P : Platform) (buf : CStr) (q : ReadRequest) : Prop :=
  ∃ obj, parseObject P buf = some obj ∧ readRequest obj = some q

/-- The bounds are not met, there is no such group, or the file can be opened and not read. -/
inductive Unreadable (P : Platform) (r : Registry) (buf : CStr) (calls : CStr → ℤ → ℤ → LogCalls) :
    Prop where
  | bounds {q : ReadRequest} (asks : Asks P buf q) (bad : q.OutOfBounds)
  | group {q : ReadRequest} (asks : Asks P buf q) (find : r.childConfigFindByName q.name = none)
  | file {q : ReadRequest} {path : CStr} {fd : Fd} (asks : Asks P buf q)
      (found : logPath r q = some path) (opened : (calls path q.off q.bytes).opened = some fd)
      (unread : (calls path q.off q.bytes).got = none)

theorem released_ledger (hf : Fresh [] us) (h : held [] us = some []) : Released us where
  ledger := h
  once pre a post hsplit := by
    rw [hsplit] at hf h
    rcases released_once hf h with hone | ⟨-, hmem⟩
    · exact hone
    · cases hmem

theorem leaked {x : Resource} {l : List Resource} (h : held [] us = some (x :: l)) :
    ¬ Released us := fun hr => by
  have hledger := hr.ledger
  rw [h] at hledger
  cases hledger

theorem refusal_released (msg : String) (ret : Bool) : Released (refusal parsed msg ret).uses :=
  released_ledger (by decide : Fresh [] parsed) (by decide : held [] parsed = some [])

theorem readFile_released_iff : Released (readFile path q calls).uses ↔ ¬ ∃ fd,
    (calls path q.off q.bytes).opened = some fd ∧ (calls path q.off q.bytes).got = none := by
  unfold readFile
  dsimp only
  cases hopen : (calls path q.off q.bytes).opened with
  | none =>
    refine iff_of_true (released_ledger ?_ ?_) (by rintro ⟨fd, h, -⟩; cases h)
    · exact (by decide : Fresh [] (parsed ++ [.acquire .path, .release .path]))
    · exact (by decide : held [] (parsed ++ [.acquire .path, .release .path]) = some [])
  | some fd =>
    cases hgot : (calls path q.off q.bytes).got with
    | none =>
      refine iff_of_false (leaked (x := .fd fd) (l := []) ?_) (not_not.mpr ⟨fd, rfl, rfl⟩)
      simp [refusal, parsed, held]
    | some got =>
      refine iff_of_true (released_ledger ?_ ?_) (by rintro ⟨fd, -, h⟩; cases h)
      · simp [parsed, Fresh]
      · simp [parsed, held]

theorem readStream_file (hok : ¬ q.OutOfBounds) (hpath : logPath r q = some path) :
    readStream r q calls = readFile path q calls := by
  unfold logPath at hpath
  unfold readStream
  rw [if_neg hok]
  obtain ⟨g, hg, hpath⟩ := Option.bind_eq_some_iff.mp hpath
  rw [hg]
  dsimp only at hpath ⊢
  split at hpath
  · cases hpath
  · rename_i hinst
    rw [if_neg hinst]
    obtain ⟨fn, hfn, rfl⟩ := Option.map_eq_some_iff.mp hpath
    rw [hfn]

theorem readStream_refused (hok : ¬ q.OutOfBounds) (hg : r.childConfigFindByName q.name ≠ none)
    (hpath : logPath r q = none) (calls : CStr → ℤ → ℤ → LogCalls) :
    ∃ msg, readStream r q calls = refusal parsed msg true := by
  obtain ⟨g, hg⟩ := Option.ne_none_iff_exists'.mp hg
  unfold logPath at hpath
  unfold readStream
  rw [if_neg hok]
  rw [hg, Option.bind_some] at hpath
  rw [hg]
  dsimp only at hpath ⊢
  split
  · exact ⟨_, rfl⟩
  · rename_i hinst
    rw [if_neg hinst] at hpath
    rw [Option.map_eq_none_iff.mp hpath]
    exact ⟨_, rfl⟩

theorem unparsed (hasks : ∀ q, ¬ Asks P buf q) : ¬ Unreadable P r buf calls := by
  intro h
  cases h with
  | bounds asks _ => exact hasks _ asks
  | group asks _ => exact hasks _ asks
  | file asks _ _ _ => exact hasks _ asks

/-- Within the bounds, and with a group, all depends on the file. -/
theorem unreadable_iff (hq : ∀ x, Asks P buf x ↔ x = q) (hok : ¬ q.OutOfBounds)
    (hfound : r.childConfigFindByName q.name ≠ none) : Unreadable P r buf calls ↔
      ∃ path fd, logPath r q = some path ∧ (calls path q.off q.bytes).opened = some fd ∧
        (calls path q.off q.bytes).got = none := by
  constructor
  · intro h
    cases h with
    | bounds asks bad =>
      obtain rfl := (hq _).mp asks
      exact absurd bad hok
    | group asks find =>
      obtain rfl := (hq _).mp asks
      exact absurd find hfound
    | file asks found opened unread =>
      obtain rfl := (hq _).mp asks
      exact ⟨_, _, found, opened, unread⟩
  · rintro ⟨path, fd, hpath, hopen, hread⟩
    exact .file ((hq q).mpr rfl) hpath hopen hread

theorem readStream_released_iff (hq : ∀ x, Asks P buf x ↔ x = q) :
    Released (readStream r q calls).uses ↔ ¬ Unreadable P r buf calls := by
  have hasks : Asks P buf q := (hq q).mpr rfl
  have hrequest : ¬ Released [.acquire .request] := leaked (x := .request) (l := []) (by decide)
  by_cases hbad : q.OutOfBounds
  · have hbounds : Unreadable P r buf calls := .bounds hasks hbad
    refine iff_of_false ?_ (not_not.mpr hbounds)
    rw [readStream, if_pos hbad]
    exact hrequest
  · cases hfind : r.childConfigFindByName q.name with
    | none =>
      have hgroup : Unreadable P r buf calls := .group hasks hfind
      refine iff_of_false ?_ (not_not.mpr hgroup)
      rw [readStream, if_neg hbad, hfind]
      exact hrequest
    | some g =>
      have hfound : r.childConfigFindByName q.name ≠ none := by
        rw [hfind]
        nofun
      rw [unreadable_iff hq hbad hfound]
      cases hpath : logPath r q with
      | none =>
        obtain ⟨msg, hrefused⟩ := readStream_refused hbad hfound hpath calls
        rw [hrefused]
        refine iff_of_true (refusal_released msg true) ?_
        rintro ⟨path, fd, h, -⟩
        cases h
      | some path =>
        rw [readStream_file hbad hpath, readFile_released_iff]
        refine not_congr ⟨fun ⟨fd, h⟩ => ⟨path, fd, rfl, h⟩, ?_⟩
        rintro ⟨path', fd, h, hfd⟩
        cases h
        exact ⟨fd, hfd⟩

/-- READ releases what it acquires, unless the request is for something that cannot be read. -/
theorem cRead_released_iff (P : Platform) (r : Registry) (buf : CStr)
    (calls : CStr → ℤ → ℤ → LogCalls) :
    Released (cReadCalls P r buf calls).uses ↔ ¬ Unreadable P r buf calls := by
  have hnone : parseObject P buf = none → ∀ q, ¬ Asks P buf q := by
    rintro h q ⟨obj, hobj, -⟩
    rw [h] at hobj
    cases hobj
  have hempty : Released [] := released_ledger trivial rfl
  unfold cReadCalls
  cases hparse : P.jsonParse buf.bytes with
  | none => exact iff_of_true hempty (unparsed (hnone (by rw [parseObject, hparse])))
  | some j =>
    cases j with
    | null => exact iff_of_true hempty (unparsed (hnone (by rw [parseObject, hparse])))
    | object l =>
      have hobj : parseObject P buf = some (.object l) := by rw [parseObject, hparse]
      dsimp only
      cases hreq : readRequest (.object l) with
      | none =>
        refine iff_of_true (refusal_released _ _) (unparsed ?_)
        rintro q ⟨obj, hobj', hq⟩
        rw [hobj] at hobj'
        cases hobj'
        rw [hreq] at hq
        cases hq
      | some q =>
        refine readStream_released_iff fun x => ⟨?_, fun hx => ⟨_, hobj, hx ▸ hreq⟩⟩
        rintro ⟨obj, hobj', hx⟩
        rw [hobj] at hobj'
        cases hobj'
        rw [hreq] at hx
        exact (Option.some.inj hx).symm
    | _ => exact iff_of_true (refusal_released _ _) (unparsed (hnone (by rw [parseObject, hparse])))

/-- A READ of a group that does not exist. -/
def unknownRequest : Json :=
  .object [(text "name", .string (text "web")), (text "stream", .int 1), (text "offset", .double 0),
    (text "bytes", .int 10), (text "instance", .int 0)]

theorem unknownRequest_leaks : ¬ ∀ (P : Platform) (s : Server) (buf : CStr)
    (calls : CStr → ℤ → ℤ → LogCalls), Reachable P s →
    Released (cReadCalls P s.reg buf calls).uses := by
  intro h
  have hreach : Reachable (sample [printed unknownRequest]) (initial false false 0) :=
    ⟨false, false, 0, .refl _⟩
  have hreleased := h _ _ (CStr.ofBytes (printJson unknownRequest))
    (fun _ _ _ => ⟨none, -1, -1, none⟩) hreach
  have hheld : held [] (cReadCalls (sample [printed unknownRequest]) (initial false false 0).reg
      (CStr.ofBytes (printJson unknownRequest)) fun _ _ _ => ⟨none, -1, -1, none⟩).uses =
      some [.request] := by decide +kernel
  exact leaked hheld hreleased

end Release

end UbervisorReadResources
