import Ubervisor.BufferedFiles
import Ubervisor.Replies
import Ubervisor.StoredGroups

/-! # The files of dumps

`c_dump` on a buffered stream: what it publishes under the name of a dump, and how often it closes
what it opens. -/
namespace UbervisorDumpFiles

open UbervisorValues
open UbervisorChildConfigs
open UbervisorServer
open UbervisorTranscripts
open UbervisorReplies (dumpTmpName)
open UbervisorStoredGroups (dumpLine dumpText written_append)
open UbervisorBufferedFiles
open UbervisorJsonC (sample)

section Files

/-- The file system as `c_dump` meets it: whether `fopen` and `link` succeed, the size of the buffer
and how the writes to the file end. -/
structure Disk where
  opens : Bool
  size : ℕ
  writes : Writes
  links : Bool

/-- What `fprintf` and `fclose` report of a dump, and what is in the file in the end. The last
line is only printed when the others were printed well. -/
structure DumpFile where
  first : Bool
  lines : List Bool
  closing : Bool
  close : Bool
  file : Bytes

def dumpFile (P : Platform) (d : Disk) (groups : List ChildConfig) : DumpFile :=
  let s : Stream UInt8 d.size := .empty
  let (first, s, ws) := s.fprintf (text "[\n") d.writes
  let (lines, s, ws) := s.printAll (groups.map (dumpLine P)) ws
  let (closing, s, ws) := if lines.all id then s.fprintf (text "]\n") ws else (false, s, ws)
  let (close, s) := s.fclose ws
  ⟨first, lines, closing, close, s.file⟩

/-- The results of `fopen`, of the calls of `fprintf` and of `link`, in their order. -/
def fileResults (P : Platform) (d : Disk) (groups : List ChildConfig) : List Bool :=
  d.opens :: (dumpFile P d groups).first :: ((dumpFile P d groups).lines ++
    [(dumpFile P d groups).closing, d.links])

/-- The server before a dump on this file system. -/
def onDisk (P : Platform) (d : Disk) (groups : List ChildConfig) (io : Io) : Io :=
  { io with fileResults := fileResults P d groups }

end Files

section Calls

/-- What `c_dump` does to its file, and whether it answers with a success. -/
inductive Call where
  | opened
  | printed (ok : Bool) (b : Bytes)
  | closed
  | linked
  | answered (code : Bool)
  deriving DecidableEq

def callOf : Output → Option Call
  | .fopen _ => some .opened
  | .fprintf ok b => some (.printed ok b)
  | .fclose => some .closed
  | .link _ _ => some .linked
  | .reply _ _ (.status code _) => some (.answered code)
  | _ => none

def calls (io io' : Io) : List Call := (io'.out.drop io.out.length).filterMap callOf

theorem calls_of_reads {io io' : Io} {l : List Call} (h : Reads callOf l io io') :
    calls io io' = l := by
  obtain ⟨m, hm, hl⟩ := h
  rw [calls, hm, List.drop_left]
  exact hl

def printed (rs : List Bool) (ls : List Bytes) : List Call := List.zipWith .printed rs ls

/-- From the closing of the file. -/
def linkCalls (links : Bool) : List Call :=
  .closed :: if links then [.linked, .answered true] else [.answered false]

/-- After an error of the closing line the file is closed twice. -/
def closingCalls (closing links : Bool) : List Call :=
  .printed closing (text "]\n") :: if closing then linkCalls links
    else .closed :: .answered false :: linkCalls links

def dumpCalls (P : Platform) (t : ℤ) (cnt : ℕ) (d : Disk) (groups : List ChildConfig) :
    List Call :=
  let f := dumpFile P d groups
  if pathMax ≤ (dumpTmpName P t cnt).length ∨ d.opens = false then [.answered false]
  else
    .opened :: .printed f.first (text "[\n") :: (printed f.lines (groups.map (dumpLine P)) ++
      if f.lines.all id then closingCalls f.closing d.links else [.closed, .answered false])

variable {P : Platform} {io : Io}

/-- The loop over the groups prints lines until there is an error. -/
theorem dumpGroups_calls {size : ℕ} (groups : List ChildConfig) (io : Io)
    (s : Stream UInt8 size) (ws : Writes) (rest : List Bool)
    (h : io.fileResults = (s.printAll (groups.map (dumpLine P)) ws).1 ++ rest) :
    Reads callOf (printed (s.printAll (groups.map (dumpLine P)) ws).1 (groups.map (dumpLine P)))
        io (io.dumpGroups P groups).2 ∧
      (io.dumpGroups P groups).1 = (s.printAll (groups.map (dumpLine P)) ws).1.all id ∧
      (io.dumpGroups P groups).2.fileResults = rest := by
  induction groups generalizing io s ws with
  | nil => exact ⟨⟨[], (List.append_nil _).symm, rfl⟩, rfl, h⟩
  | cons cc groups ih =>
    rw [List.map_cons] at h ⊢
    unfold Stream.printAll at h ⊢
    unfold Io.dumpGroups
    generalize hline : s.fprintf (dumpLine P cc) ws = r at h ⊢
    obtain ⟨ok, s', ws'⟩ := r
    have hone : Reads callOf [.printed (io.fprintf (dumpLine P cc)).1 (dumpLine P cc)] io
        (io.fprintf (dumpLine P cc)).2 := ⟨[_], rfl, rfl⟩
    cases ok with
    | true =>
      have hok : (io.fprintf (dumpLine P cc)).1 = true := by
        change io.fileResults.headD false = true
        rw [h]
        rfl
      have hfiles : (io.fprintf (dumpLine P cc)).2.fileResults =
          (s'.printAll (groups.map (dumpLine P)) ws').1 ++ rest := by
        change io.fileResults.tail = _
        rw [h]
        rfl
      obtain ⟨hreads, hall, hrest⟩ := ih _ s' ws' hfiles
      have hif : (io.fprintf (P.jsonPrint (childConfigSerialize cc) ++ text ",\n")).1 = true := hok
      rw [hok] at hone
      dsimp only
      rw [hif]
      exact ⟨hone.trans hreads, hall, hrest⟩
    | false =>
      have hok : (io.fprintf (dumpLine P cc)).1 = false := by
        change io.fileResults.headD false = false
        rw [h]
        rfl
      have hfiles : (io.fprintf (dumpLine P cc)).2.fileResults = rest := by
        change io.fileResults.tail = _
        rw [h]
        rfl
      have hif : (io.fprintf (P.jsonPrint (childConfigSerialize cc) ++ text ",\n")).1 = false := hok
      rw [hok] at hone
      dsimp only
      rw [hif]
      exact ⟨hone, rfl, hfiles⟩

theorem linked_calls (io : Io) (con : ClientId) (src dst : Bytes) (links : Bool) (rest : List Bool)
    (h : io.fileResults = links :: rest) :
    let r := (io.emit .fclose).fileResult
    Reads callOf (linkCalls links) io
      (if !r.1 then r.2.sendStatusMsg P con false "failure."
        else ((r.2.emit (.link src dst)).emit (.unlink src)).sendStatusMsg P con true
          "dump successful.") := by
  intro r
  have hlink : r.1 = links := by
    change io.fileResults.headD false = links
    rw [h]
    rfl
  have hclose : Reads callOf [.closed] io r.2 := (Reads.emit .fclose).same rfl
  rw [hlink]
  cases links with
  | true =>
    have hnames : Reads callOf [.linked] r.2 ((r.2.emit (.link src dst)).emit (.unlink src)) :=
      ⟨[.link src dst, .unlink src], List.append_assoc .., rfl⟩
    exact (hclose.trans hnames).trans (.reply con (.status true (text "dump successful.")))
  | false => exact hclose.trans (.reply con (.status false (text "failure.")))

theorem closing_calls (io : Io) (con : ClientId) (src dst : Bytes) (closing links : Bool)
    (h : io.fileResults = [closing, links]) :
    let line := io.fprintf (text "]\n")
    let io₁ := if line.1 then line.2 else (line.2.emit .fclose).sendStatusMsg P con false "failure"
    let r := (io₁.emit .fclose).fileResult
    Reads callOf (closingCalls closing links) io
      (if !r.1 then r.2.sendStatusMsg P con false "failure."
        else ((r.2.emit (.link src dst)).emit (.unlink src)).sendStatusMsg P con true
          "dump successful.") := by
  intro line io₁ r
  have hok : line.1 = closing := by
    change io.fileResults.headD false = closing
    rw [h]
    rfl
  have hfiles : line.2.fileResults = [links] := by
    change io.fileResults.tail = [links]
    rw [h]
    rfl
  have hline : Reads callOf [.printed closing (text "]\n")] io line.2 := by
    rw [← hok]
    exact ⟨[_], rfl, rfl⟩
  cases hc : closing with
  | true =>
    have hsame : io₁ = line.2 := if_pos (hok.trans hc)
    have hrest := linked_calls (P := P) io₁ con src dst links [] (by rw [hsame, hfiles])
    rw [hc] at hline
    rw [hsame] at hrest
    have hall := hline.trans hrest
    rw [← hsame] at hall
    exact hall
  | false =>
    have hfailed : io₁ = (line.2.emit .fclose).sendStatusMsg P con false "failure" :=
      if_neg (by rw [hok, hc]; decide)
    have hclosed : Reads callOf [.closed, .answered false] line.2 io₁ := by
      rw [hfailed]
      exact (Reads.emit .fclose).trans (.reply con (.status false (text "failure")))
    have hrest := linked_calls (P := P) io₁ con src dst links [] (by rw [hfailed]; exact hfiles)
    rw [hc] at hline
    exact (hline.trans hclosed).trans hrest

/-- `c_dump` on a file system that reports what the stream does. -/
theorem cDump_calls (P : Platform) (t : ℤ) (groups : List ChildConfig) (con : ClientId) (d : Disk)
    (io : Io) (h : io.fileResults = fileResults P d groups) :
    Reads callOf (dumpCalls P t (io.dumpCnt + 1) d groups) io (io.cDump P t groups con) := by
  have hlen : (dumpTmpName P t (io.dumpCnt + 1)).length =
      (text "uberdump_" ++ natText (io.dumpCnt + 1) ++ text "_" ++ intText P.euid ++ text "_" ++
        P.dumpTime t).length + 4 := by
    rw [dumpTmpName, List.length_append, Nat.add_comm]
    rfl
  have hunfold : text "tmp." ++ (text "uberdump_" ++ natText (io.dumpCnt + 1) ++ text "_" ++
      intText P.euid ++ text "_" ++ P.dumpTime t) = dumpTmpName P t (io.dumpCnt + 1) := rfl
  have hrefused : ∀ {x : Io} {msg : String}, x.out = io.out → Reads callOf [.answered false] io
      (x.sendStatusMsg P con false msg) := by
    intro x msg hx
    have hstart : Reads callOf [] io x := ⟨[], by rw [hx, List.append_nil], rfl⟩
    exact hstart.trans (.reply con (.status false (text msg)))
  unfold Io.cDump dumpCalls
  dsimp only
  rw [hunfold]
  by_cases hname : pathMax ≤ (dumpTmpName P t (io.dumpCnt + 1)).length
  · rw [if_pos (Or.inl hname)]
    split
    · exact hrefused rfl
    · exact hrefused rfl
  rw [if_neg (by omega : ¬ pathMax ≤ _), if_neg hname]
  have hopens : (Io.fileResult { io with dumpCnt := io.dumpCnt + 1 }).1 = d.opens := by
    change io.fileResults.headD false = d.opens
    rw [h]
    rfl
  rw [hopens]
  cases ho : d.opens with
  | false =>
    rw [if_pos (Or.inr rfl)]
    exact hrefused rfl
  | true =>
    rw [if_neg (by rintro (hn | hn); exacts [hname hn, Bool.noConfusion hn]),
      if_neg (by decide : ¬ (!true) = true)]
    generalize hx : Io.emit _ (.fopen _) = x
    have hopened : Reads callOf [.opened] io x := by
      rw [← hx]
      exact (Reads.emit (.fopen (dumpTmpName P t (io.dumpCnt + 1)))).same rfl
    have hxfiles : x.fileResults = (dumpFile P d groups).first ::
        ((dumpFile P d groups).lines ++ [(dumpFile P d groups).closing, d.links]) := by
      rw [← hx]
      change io.fileResults.tail = _
      rw [h]
      rfl
    have hfirst : Reads callOf [.printed (dumpFile P d groups).first (text "[\n")] x
        (x.fprintf (text "[\n")).2 := by
      have hok : (x.fprintf (text "[\n")).1 = (dumpFile P d groups).first := by
        change x.fileResults.headD false = _
        rw [hxfiles]
        rfl
      rw [← hok]
      exact ⟨[_], rfl, rfl⟩
    have hyfiles : (x.fprintf (text "[\n")).2.fileResults =
        (dumpFile P d groups).lines ++ [(dumpFile P d groups).closing, d.links] := by
      change x.fileResults.tail = _
      rw [hxfiles]
      rfl
    obtain ⟨hlines, hall, hrest⟩ := dumpGroups_calls groups _
      ((Stream.empty : Stream UInt8 d.size).fprintf (text "[\n") d.writes).2.1 _ _ hyfiles
    have hprinted := (hopened.trans hfirst).trans hlines
    have hall : (Io.dumpGroups P groups (x.fprintf (text "[\n")).2).1 =
      (dumpFile P d groups).lines.all id := hall
    generalize Io.dumpGroups P groups (x.fprintf (text "[\n")).2 = z at hprinted hall hrest ⊢
    obtain ⟨ok, z⟩ := z
    dsimp only at hprinted hall hrest ⊢
    rw [hall]
    cases (dumpFile P d groups).lines.all id with
    | false =>
      have hclosed : Reads callOf [.closed, .answered false] z
          ((z.emit .fclose).sendStatusMsg P con false "failure") :=
        (Reads.emit .fclose).trans (.reply con (.status false (text "failure")))
      exact hprinted.trans hclosed
    | true => exact hprinted.trans (closing_calls z con _ _ _ _ hrest)

end Calls

section Published

variable {P : Platform} {t : ℤ} {cnt : ℕ} {d : Disk} {groups : List ChildConfig}

/-- A dump that is printed well, except perhaps for its first line, is complete when no error of
the first line or of `fclose` is overlooked. -/
theorem dumpFile_complete (hlines : (dumpFile P d groups).lines.all id = true)
    (hclosing : (dumpFile P d groups).closing = true) :
    (dumpFile P d groups).file = dumpText P groups ↔
      (dumpFile P d groups).first = true ∧ (dumpFile P d groups).close = true := by
  obtain ⟨hfirst, hfirst'⟩ :=
    Stream.fprintf_spec (text "[\n") (.empty : Stream UInt8 d.size) d.writes
  unfold dumpFile at hlines hclosing ⊢
  dsimp only at hlines hclosing ⊢
  rw [if_pos hlines] at hclosing
  rw [if_pos hlines]
  generalize (Stream.empty : Stream UInt8 d.size).fprintf (text "[\n") d.writes = r at *
  obtain ⟨first, s, ws⟩ := r
  dsimp only at *
  have hgroups := Stream.printAll_spec _ s ws hlines
  generalize s.printAll (groups.map (dumpLine P)) ws = r at *
  obtain ⟨lines, s', ws'⟩ := r
  dsimp only at *
  have hend := (Stream.fprintf_spec (text "]\n") s' ws').1 hclosing
  generalize s'.fprintf (text "]\n") ws' = r at *
  obtain ⟨closing, s'', ws''⟩ := r
  dsimp only at *
  rw [hgroups] at hend
  obtain ⟨hclose, hclose'⟩ := Stream.fclose_spec s'' ws''
  have hall : dumpText P groups =
      text "[\n" ++ (groups.map (dumpLine P)).flatten ++ text "]\n" := by
    rw [dumpText, List.flatMap_def]
  have hlen := congrArg List.length hend
  simp only [List.length_append] at hlen
  have htotal := congrArg List.length hall
  simp only [List.length_append] at htotal
  cases first with
  | true =>
    have hstart : s.content = text "[\n" := hfirst rfl
    rw [hstart, ← hall] at hend
    cases hc : (s''.fclose ws'').1 with
    | true => exact iff_of_true ((hclose hc).trans hend) ⟨rfl, rfl⟩
    | false =>
      refine iff_of_false (fun he => ?_) (fun h => Bool.noConfusion h.2)
      have hlost := hclose' hc
      rw [he, hend] at hlost
      exact lt_irrefl _ hlost
  | false =>
    refine iff_of_false (fun he => ?_) (fun h => Bool.noConfusion h.1)
    have hlost : s.content.length < (text "[\n").length := by
      have hlt := hfirst' rfl
      have hnil : (Stream.empty : Stream UInt8 d.size).content.length = 0 := rfl
      omega
    have hshort : (s''.fclose ws'').2.file.length ≤ s''.content.length := by
      cases hc : (s''.fclose ws'').1 with
      | true => exact (congrArg List.length (hclose hc)).le
      | false => exact (hclose' hc).le
    rw [he] at hshort
    omega

theorem printed_mem {rs : List Bool} {ls : List Bytes} {c : Call} (h : c ∈ printed rs ls) :
    ∃ ok b, c = .printed ok b := by
  induction rs generalizing ls with
  | nil => cases h
  | cons r rs ih =>
    cases ls with
    | nil => cases h
    | cons l ls =>
      rcases List.mem_cons.mp h with rfl | h
      · exact ⟨r, l, rfl⟩
      · exact ih h

/-- The closing line is printed when the others are, and of a dump that is published no line was
lost. -/
def Undisturbed (P : Platform) (t : ℤ) (cnt : ℕ) (d : Disk) (groups : List ChildConfig) : Prop :=
  (dumpTmpName P t cnt).length < pathMax → d.opens = true →
    (dumpFile P d groups).lines.all id = true → (dumpFile P d groups).closing = true ∧
      (d.links = true → (dumpFile P d groups).first = true ∧ (dumpFile P d groups).close = true)

/-- A file gets the name of a dump, or a client is told so. -/
def Published (l : List Call) : Prop := .linked ∈ l ∨ .answered true ∈ l

/-- A dump that is published is complete, and its file is closed once. -/
def Complete (P : Platform) (d : Disk) (groups : List ChildConfig) (l : List Call) : Prop :=
  (Published l → (dumpFile P d groups).file = dumpText P groups) ∧
    l.count .closed = l.count .opened

theorem linkCalls_counts (links : Bool) :
    (linkCalls links).count .closed = 1 ∧ (linkCalls links).count .opened = 0 := by
  cases links with
  | true => decide
  | false => decide

theorem complete_iff : Complete P d groups (dumpCalls P t cnt d groups) ↔
    Undisturbed P t cnt d groups := by
  have hother : ∀ c, (∀ ok b, c ≠ .printed ok b) →
      c ∉ printed (dumpFile P d groups).lines (groups.map (dumpLine P)) := by
    intro c hc h
    obtain ⟨ok, b, he⟩ := printed_mem h
    exact hc ok b he
  have hclosed := List.count_eq_zero.mpr (hother .closed nofun)
  have hopened := List.count_eq_zero.mpr (hother .opened nofun)
  have hlinked := hother .linked nofun
  have hanswered := hother (.answered true) nofun
  unfold Complete Published Undisturbed dumpCalls
  dsimp only
  generalize printed (dumpFile P d groups).lines (groups.map (dumpLine P)) = l at *
  by_cases hfits : pathMax ≤ (dumpTmpName P t cnt).length
  · rw [if_pos (Or.inl hfits)]
    refine iff_of_true ⟨by simp, by decide⟩ fun h => ?_
    omega
  cases ho : d.opens with
  | false =>
    rw [if_pos (Or.inr rfl)]
    exact iff_of_true ⟨by simp, by decide⟩ nofun
  | true =>
    rw [if_neg (by simpa using hfits)]
    cases hl : (dumpFile P d groups).lines.all id with
    | false =>
      refine iff_of_true ⟨?_, ?_⟩ nofun
      · simp [hlinked, hanswered]
      · simp [hclosed, hopened]
    | true =>
      cases hc : (dumpFile P d groups).closing with
      | false =>
        refine iff_of_false (fun h => ?_) (fun h => ?_)
        · have hcount := h.2
          simp [closingCalls, linkCalls_counts, hclosed, hopened] at hcount
        · exact Bool.noConfusion (h (not_le.mp hfits) rfl rfl).1
      | true =>
        rw [dumpFile_complete hl hc]
        cases hk : d.links with
        | false =>
          refine iff_of_true ⟨?_, ?_⟩ fun _ _ _ => ⟨rfl, nofun⟩
          · simp [closingCalls, linkCalls, hlinked, hanswered]
          · simp [closingCalls, linkCalls, hclosed, hopened]
        | true =>
          constructor
          · intro h _ _ _
            refine ⟨rfl, fun _ => h.1 (Or.inl ?_)⟩
            simp [closingCalls, linkCalls]
          · intro h
            refine ⟨fun _ => (h (not_le.mp hfits) rfl rfl).2 rfl, ?_⟩
            simp [closingCalls, linkCalls, hclosed, hopened]

theorem cDump_dumpCalls (P : Platform) (t : ℤ) (groups : List ChildConfig) (con : ClientId)
    (d : Disk) (io : Io) : calls io (Io.cDump P t groups con (onDisk P d groups io)) =
      dumpCalls P t (io.dumpCnt + 1) d groups := by
  have hreads := cDump_calls P t groups con d (onDisk P d groups io) rfl
  exact calls_of_reads hreads

/-- What `c_dump` publishes is complete, and closed once, if and only if no error of the lines that
it does not check, or checks without returning, occurs. -/
theorem cDump_complete_iff (P : Platform) (t : ℤ) (groups : List ChildConfig) (con : ClientId)
    (d : Disk) (io : Io) :
    Complete P d groups (calls io (Io.cDump P t groups con (onDisk P d groups io))) ↔
      Undisturbed P t (io.dumpCnt + 1) d groups := by
  rw [cDump_dumpCalls]
  exact complete_iff

end Published

section Runs

/-- A full file system: the one write, at the closing of the file, fails. -/
def fullDisk : Disk := ⟨true, 4095, [some 0], true⟩

/-- An empty file is published as a dump. -/
theorem fullDisk_incomplete : ¬ ∀ (P : Platform) (t : ℤ) (groups : List ChildConfig)
    (con : ClientId) (d : Disk) (io : Io), Complete P d groups
      (calls io (Io.cDump P t groups con (onDisk P d groups io))) := by
  intro h
  have hcomplete := h (sample []) 0 [] 0 fullDisk ⟨[], [], [], 0, [], fun _ => none⟩
  rw [cDump_dumpCalls] at hcomplete
  have hpublished : Published (dumpCalls (sample []) 0 1 fullDisk []) := by
    left
    decide +kernel
  have hempty : (dumpFile (sample []) fullDisk []).file = [] := by decide +kernel
  have hfull := hcomplete.1 hpublished
  rw [hempty] at hfull
  exact absurd hfull (by decide +kernel)

end Runs

end UbervisorDumpFiles
