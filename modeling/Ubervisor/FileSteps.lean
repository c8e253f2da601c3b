import Ubervisor.Directories
import Ubervisor.DumpFiles

/-! # What a step does to the files of dumps

Dumps are written by DUMP, and by SPWN, UPDT and EXIT when the server runs with `auto_dump`.
Nothing else touches a file of a dump. -/
namespace UbervisorFileSteps

open UbervisorValues
open UbervisorChildConfigs
open UbervisorKernel
open UbervisorRegistry
open UbervisorReadCallback (Command findCommand)
open UbervisorServer
open UbervisorCommands
open UbervisorEvents
open UbervisorSupervision
open UbervisorSlots
open UbervisorUpdates
open UbervisorEffects
open UbervisorOutputs
open UbervisorTranscripts
open UbervisorReplies (dumpTmpName allOk)
open UbervisorStoredGroups (dumpLine dumpText)
open UbervisorBufferedFiles
open UbervisorDumpFiles (Disk dumpFile fileResults)
open UbervisorDirectories

/-- An operation on the directory. -/
abbrev FileOp := Op Bytes UInt8

def fileOp : Output → Option FileOp
  | .fopen n => some (.create n)
  | .fprintf ok b => some (.print ok b)
  | .fclose => some .close
  | .link src dst => some (.link src dst)
  | .unlink n => some (.unlink n)
  | _ => none

section Dumps

/-- `printf` of the groups, up to the first error. -/
def lineOps : List Bytes → List Bool → List FileOp
  | [], _ => []
  | b :: bs, fs =>
    .print (fs.headD false) b :: if fs.headD false then lineOps bs fs.tail else []

def dumpName (P : Platform) (t : ℤ) (cnt : ℕ) : Bytes :=
  text "uberdump_" ++ natText cnt ++ text "_" ++ intText P.euid ++ text "_" ++ P.dumpTime t

/-- From the closing line on. An error of it is reported, and the file is closed twice. -/
def endOps (tmp name : Bytes) (fs : List Bool) : List FileOp :=
  .print (fs.headD false) (text "]\n") :: ((if fs.headD false then [] else [.close]) ++
    .close :: if fs.tail.headD false then [.link tmp name, .unlink tmp] else [])

/-- What `c_dump` does to the directory, given the results of the calls. -/
def dumpOps (P : Platform) (t : ℤ) (cnt : ℕ) (lines : List Bytes) (fs : List Bool) : List FileOp :=
  if pathMax ≤ (dumpTmpName P t cnt).length ∨ fs.headD false = false then []
  else
    .create (dumpTmpName P t cnt) :: .print (fs.tail.headD false) (text "[\n") ::
      (lineOps lines fs.tail.tail ++
        if allOk lines.length fs.tail.tail then
          endOps (dumpTmpName P t cnt) (dumpName P t cnt) (fs.tail.tail.drop lines.length)
        else [.close])

variable {P : Platform} {io io' : Io} {t : ℤ} {l : List FileOp} {con : ClientId}

theorem fprintf_ops (h : Reads fileOp l io io') (b : Bytes) :
    Reads fileOp (l ++ [.print (io'.fileResults.headD false) b]) io (io'.fprintf b).2 :=
  h.trans ⟨[.fprintf (io'.fileResults.headD false) b], rfl, rfl⟩

theorem emit_ops (h : Reads fileOp l io io') (o : Output) :
    Reads fileOp (l ++ (fileOp o).toList) io (io'.emit o) := h.trans (.emit o)

theorem status_ops (h : Reads fileOp l io io') (con : ClientId) (code : Bool) (msg : String) :
    Reads fileOp l io (io'.sendStatusMsg P con code msg) :=
  h.after (IoOutputs.refl.replied fun _ => rfl)

theorem dumpGroups_ops (ccs : List ChildConfig) (h : Reads fileOp l io io') :
    Reads fileOp (l ++ lineOps (ccs.map (dumpLine P)) io'.fileResults) io
        (io'.dumpGroups P ccs).2 ∧
      (io'.dumpGroups P ccs).1 = allOk ccs.length io'.fileResults ∧
      ((io'.dumpGroups P ccs).1 = true →
        (io'.dumpGroups P ccs).2.fileResults = io'.fileResults.drop ccs.length) := by
  induction ccs generalizing io' l with
  | nil =>
    refine ⟨?_, rfl, fun _ => rfl⟩
    rw [List.map_nil, lineOps, List.append_nil]
    exact h
  | cons cc ccs ih =>
    have hline := fprintf_ops h (dumpLine P cc)
    obtain ⟨hlines, hok, hfiles⟩ := ih hline
    rw [List.append_assoc] at hlines
    unfold Io.dumpGroups
    rw [List.map_cons, lineOps, List.length_cons, allOk]
    cases hhead : io'.fileResults.headD false with
    | false =>
      have hfst : (io'.fprintf (P.jsonPrint (childConfigSerialize cc) ++ text ",\n")).1 = false :=
        hhead
      rw [hhead] at hline
      dsimp only
      rw [hfst]
      exact ⟨hline, rfl, fun h => absurd h Bool.false_ne_true⟩
    | true =>
      have hfst : (io'.fprintf (P.jsonPrint (childConfigSerialize cc) ++ text ",\n")).1 = true :=
        hhead
      rw [hhead] at hlines
      dsimp only
      rw [hfst]
      refine ⟨hlines, hok, fun hd => (hfiles hd).trans ?_⟩
      exact List.drop_tail

/-- What is left of a dump once the groups are written. -/
theorem closing_ops (h : Reads fileOp l io io') (con : ClientId) (src dst : Bytes) :
    let line := io'.fprintf (text "]\n")
    let io₁ := if line.1 then line.2 else (line.2.emit .fclose).sendStatusMsg P con false "failure"
    let linked := (io₁.emit .fclose).fileResult
    Reads fileOp (l ++ endOps src dst io'.fileResults) io
      (if !linked.1 then linked.2.sendStatusMsg P con false "failure."
        else ((linked.2.emit (.link src dst)).emit (.unlink src)).sendStatusMsg P con true
          "dump successful.") := by
  intro line io₁ linked
  have hline := fprintf_ops h (text "]\n")
  have hfst : line.1 = io'.fileResults.headD false := rfl
  have hclosed : Reads fileOp (l ++ .print (io'.fileResults.headD false) (text "]\n") ::
      (if io'.fileResults.headD false then [] else [.close])) io io₁ ∧
      io₁.fileResults = io'.fileResults.tail := by
    cases hok : io'.fileResults.headD false with
    | true =>
      have hsame : io₁ = line.2 := if_pos (hfst.trans hok)
      rw [hok] at hline
      rw [hsame]
      exact ⟨hline, rfl⟩
    | false =>
      have hfailed : io₁ = (line.2.emit .fclose).sendStatusMsg P con false "failure" :=
        if_neg (by rw [hfst, hok]; decide)
      rw [hok] at hline
      rw [hfailed]
      have hclose := status_ops (P := P) (emit_ops hline .fclose) con false "failure"
      rw [List.append_assoc] at hclose
      exact ⟨hclose, rfl⟩
  obtain ⟨hclosed, hfiles⟩ := hclosed
  have hlinked : Reads fileOp _ io linked.2 := (emit_ops hclosed .fclose).same rfl
  have hlast : linked.1 = io'.fileResults.tail.headD false := by
    rw [← hfiles]
    rfl
  rw [hlast, endOps]
  rw [List.append_assoc, List.cons_append] at hlinked
  cases io'.fileResults.tail.headD false with
  | true =>
    have hend := status_ops (P := P) (emit_ops (emit_ops hlinked (.link src dst)) (.unlink src)) con
      true "dump successful."
    rw [List.append_assoc, List.append_assoc, List.cons_append, List.append_assoc] at hend
    exact hend
  | false => exact status_ops hlinked con false "failure."

theorem cDump_ops (groups : List ChildConfig) (io : Io) (con : ClientId) :
    Reads fileOp (dumpOps P t (io.dumpCnt + 1) (groups.map (dumpLine P)) io.fileResults) io
      (io.cDump P t groups con) := by
  have hlen : (dumpTmpName P t (io.dumpCnt + 1)).length =
      (dumpName P t (io.dumpCnt + 1)).length + 4 := by
    rw [dumpTmpName, List.length_append, Nat.add_comm]
    rfl
  have hcount : Reads fileOp [] io { io with dumpCnt := io.dumpCnt + 1 } :=
    .silent (.same .refl rfl)
  have hname : text "uberdump_" ++ natText (io.dumpCnt + 1) ++ text "_" ++ intText P.euid ++
      text "_" ++ P.dumpTime t = dumpName P t (io.dumpCnt + 1) := rfl
  have hunfold : text "tmp." ++ dumpName P t (io.dumpCnt + 1) =
      dumpTmpName P t (io.dumpCnt + 1) := rfl
  have hnone : pathMax ≤ (dumpTmpName P t (io.dumpCnt + 1)).length ∨
      io.fileResults.headD false = false →
      dumpOps P t (io.dumpCnt + 1) (groups.map (dumpLine P)) io.fileResults = [] :=
    fun h => if_pos h
  unfold Io.cDump
  dsimp only
  rw [hname, hunfold]
  by_cases hlong : pathMax ≤ (dumpTmpName P t (io.dumpCnt + 1)).length
  · rw [hnone (.inl hlong)]
    split
    · exact status_ops hcount con false "failure"
    · exact status_ops hcount con false "failure"
  rw [if_neg (by omega), if_neg hlong]
  generalize hopen : ({ io with dumpCnt := io.dumpCnt + 1 } : Io).fileResult = r
  obtain ⟨ok, x⟩ := r
  obtain ⟨hok, hx⟩ := Prod.mk.inj hopen
  have hopened : Reads fileOp [] io x := by
    rw [← hx]
    exact hcount.same rfl
  dsimp only
  cases ok with
  | false =>
    have hhead : io.fileResults.headD false = false := hok
    rw [hnone (.inr hhead)]
    exact status_ops hopened con false "failure"
  | true =>
    have hhead : io.fileResults.headD false = true := hok
    have hgo : ¬ (pathMax ≤ (dumpTmpName P t (io.dumpCnt + 1)).length ∨
        io.fileResults.headD false = false) := by
      rintro (h | h)
      · exact hlong h
      · cases hhead.symm.trans h
    rw [if_neg (by decide : ¬ (!true) = true), dumpOps, if_neg hgo]
    have hstart := fprintf_ops (emit_ops hopened (.fopen (dumpTmpName P t (io.dumpCnt + 1))))
      (text "[\n")
    have hxfiles : (x.emit (.fopen (dumpTmpName P t (io.dumpCnt + 1)))).fileResults =
        io.fileResults.tail := by
      rw [← hx]
      rfl
    rw [hxfiles] at hstart
    have hyfiles : ((x.emit (.fopen (dumpTmpName P t (io.dumpCnt + 1)))).fprintf
        (text "[\n")).2.fileResults = io.fileResults.tail.tail := by
      rw [← hx]
      rfl
    generalize ((x.emit _).fprintf (text "[\n")).2 = y at hstart hyfiles ⊢
    obtain ⟨hgroups, hall, hfiles⟩ := dumpGroups_ops (P := P) groups hstart
    generalize y.dumpGroups P groups = d at hgroups hall hfiles
    obtain ⟨ok, z⟩ := d
    dsimp only at hgroups hall hfiles ⊢
    rw [hyfiles] at hgroups hall hfiles
    rw [List.length_map, ← hall]
    cases ok with
    | false =>
      rw [if_neg (by decide : ¬ false = true)]
      have hend := status_ops (P := P) (emit_ops hgroups .fclose) con false "failure"
      rw [List.append_assoc] at hend
      exact hend
    | true =>
      rw [if_neg (by decide : ¬ (!true) = true), if_pos rfl]
      have hclose := closing_ops (P := P) hgroups con
      rw [hfiles rfl] at hclose
      have hend := hclose (dumpTmpName P t (io.dumpCnt + 1)) (dumpName P t (io.dumpCnt + 1))
      rw [List.append_assoc] at hend
      exact hend

end Dumps

section Disks

variable {P : Platform} {t : ℤ} {cnt size i : ℕ} {k : Disk} {groups : List ChildConfig}
  {d : Dir Bytes UInt8 ℤ} {s : Stream UInt8 size}

theorem lineOps_exec (ls : List Bytes) (ws : Writes) (rest : List Bool)
    (h : Attached d t i s) :
    ∃ d', Execs t true d (lineOps ls ((s.printAll ls ws).1 ++ rest)) d' ∧
      Attached d' t i (s.printAll ls ws).2.1 ∧ d'.names = d.names := by
  induction ls generalizing s ws d with
  | nil => exact ⟨d, .nil d, h, rfl⟩
  | cons l ls ih =>
    obtain ⟨x, hx, hholds, hnames⟩ := fprintf_exec l ws h
    unfold Stream.printAll
    generalize s.fprintf l ws = r at hx hholds ⊢
    obtain ⟨ok, s', ws'⟩ := r
    cases ok with
    | true =>
      obtain ⟨d', hd', hlast, hsame⟩ := ih ws' hholds
      exact ⟨d', .cons hx hd', hlast, hsame.trans hnames⟩
    | false => exact ⟨x, .cons hx (.nil x), hholds, hnames⟩

theorem printAll_ok (ls : List Bytes) (s : Stream UInt8 size) (ws : Writes) (rest : List Bool)
    (h : (s.printAll ls ws).1.all id = true) :
    allOk ls.length ((s.printAll ls ws).1 ++ rest) = true ∧
      ((s.printAll ls ws).1 ++ rest).drop ls.length = rest := by
  induction ls generalizing s ws with
  | nil => exact ⟨rfl, rfl⟩
  | cons l ls ih =>
    unfold Stream.printAll at h ⊢
    generalize s.fprintf l ws = r at h ⊢
    obtain ⟨ok, s', ws'⟩ := r
    cases ok with
    | true => exact ih s' ws' h
    | false => cases h

/-- The end of a dump. If its last line is not printed the file is closed twice. -/
theorem endOps_exec {tmp name : Bytes} (ws : Writes) (h : Attached d t i s)
    (hne : name ≠ tmp) (htmp : d.names tmp = some i) (hname : d.names name = none) :
    ∃ d', Execs t true d (endOps tmp name [(s.fprintf (text "]\n") ws).1, true]) d' ∧
      d'.names name = some i ∧ d'.files i =
        ⟨((s.fprintf (text "]\n") ws).2.1.fclose (s.fprintf (text "]\n") ws).2.2).2.file, t⟩ := by
  obtain ⟨x, hx, hholds, hnames⟩ := fprintf_exec (text "]\n") ws h
  obtain ⟨y, hy, hclosed, hfile, hsame⟩ :=
    fclose_exec (s.fprintf (text "]\n") ws).2.2 hholds
  rw [← hnames, ← hsame] at htmp hname
  have hlinked : Execs t true y [.link tmp name, .unlink tmp]
      { y with names := Function.update (Function.update y.names name (some i)) tmp none } :=
    .cons (.link y tmp name i htmp hname) (.cons (.unlink _ tmp) (.nil _))
  refine ⟨{ y with names := Function.update (Function.update y.names name (some i)) tmp none },
    ?_, ?_, hfile⟩
  · unfold endOps
    cases hok : (s.fprintf (text "]\n") ws).1 with
    | true =>
      rw [hok] at hx
      exact .cons hx (.cons hy hlinked)
    | false =>
      rw [hok] at hx
      exact .cons hx (.cons hy (.cons (.closed y hclosed) hlinked))
  · change Function.update (Function.update y.names name (some i)) tmp none name = some i
    rw [Function.update_of_ne hne, Function.update_self]

theorem dumpName_ne : dumpName P t cnt ≠ dumpTmpName P t cnt := by
  intro he
  have hlength := congrArg List.length he
  change _ = (text "tmp." ++ dumpName P t cnt).length at hlength
  rw [List.length_append, show (text "tmp.").length = 4 by rfl] at hlength
  omega

/-- What is known of the file that `c_dump` publishes on a file system is known of the file that
gets the name of a dump in the directory. -/
theorem dumpOps_exec (hlen : (dumpTmpName P t cnt).length < pathMax) (hopens : k.opens = true)
    (hlinks : k.links = true) (hlines : (dumpFile P k groups).lines.all id = true)
    (htmp : d.names (dumpTmpName P t cnt) = none) (hname : d.names (dumpName P t cnt) = none) :
    ∃ d', Execs t true d
        (dumpOps P t cnt (groups.map (dumpLine P)) (fileResults P k groups)) d' ∧
      d'.names (dumpName P t cnt) = some d.next ∧
      d'.files d.next = ⟨(dumpFile P k groups).file, t⟩ := by
  obtain ⟨c, hcreate, hempty, hcnames⟩ : ∃ c, Exec t true d (.create (dumpTmpName P t cnt)) c ∧
      Attached c t d.next (.empty : Stream UInt8 k.size) ∧
      c.names = Function.update d.names (dumpTmpName P t cnt) (some d.next) := create_attached htmp
  generalize hr₁ : (Stream.empty : Stream UInt8 k.size).fprintf (text "[\n") k.writes = r₁
  obtain ⟨x, hfirst, hx, hxnames⟩ := fprintf_exec (text "[\n") k.writes hempty
  rw [hr₁] at hfirst hx
  generalize hr₂ : r₁.2.1.printAll (groups.map (dumpLine P)) r₁.2.2 = r₂
  obtain ⟨y, hbody, hy, hynames⟩ := lineOps_exec (groups.map (dumpLine P)) r₁.2.2
    [(r₂.2.1.fprintf (text "]\n") r₂.2.2).1, true] hx
  rw [hr₂] at hbody hy
  have hsame : y.names = Function.update d.names (dumpTmpName P t cnt) (some d.next) :=
    (hynames.trans hxnames).trans hcnames
  have hold : y.names (dumpName P t cnt) = none := by
    rw [hsame, Function.update_of_ne dumpName_ne, hname]
  obtain ⟨d', hlast, hlinked, hfile⟩ := endOps_exec r₂.2.2 hy dumpName_ne
    (by rw [hsame, Function.update_self]) hold
  have hall : r₂.1.all id = true := by
    rw [← hr₂, ← hr₁]
    exact hlines
  have hend : (dumpFile P k groups).closing = (r₂.2.1.fprintf (text "]\n") r₂.2.2).1 ∧
      (dumpFile P k groups).file =
        ((r₂.2.1.fprintf (text "]\n") r₂.2.2).2.1.fclose
          (r₂.2.1.fprintf (text "]\n") r₂.2.2).2.2).2.file := by
    unfold dumpFile
    dsimp only
    rw [hr₁, hr₂, if_pos hall]
    exact ⟨rfl, rfl⟩
  have hresults : fileResults P k groups =
      true :: r₁.1 :: (r₂.1 ++ [(r₂.2.1.fprintf (text "]\n") r₂.2.2).1, true]) := by
    rw [fileResults, hopens, hlinks, hend.1, ← hr₂, ← hr₁]
    rfl
  obtain ⟨hok, hdrop⟩ := printAll_ok (groups.map (dumpLine P)) r₁.2.1 r₁.2.2
    [(r₂.2.1.fprintf (text "]\n") r₂.2.2).1, true] (by rw [hr₂]; exact hall)
  rw [hr₂] at hok hdrop
  have hgo : ¬ (pathMax ≤ (dumpTmpName P t cnt).length ∨
      (fileResults P k groups).headD false = false) := by
    rw [hresults]
    rintro (hlong | hno)
    · omega
    · cases hno
  refine ⟨d', ?_, hlinked, hfile.trans (by rw [hend.2])⟩
  rw [dumpOps, if_neg hgo, hresults]
  refine .cons hcreate (.cons hfirst ?_)
  change Execs t true x (lineOps _ (r₂.1 ++ _) ++ if allOk _ (r₂.1 ++ _) = true then
    endOps _ _ ((r₂.1 ++ _).drop _) else [.close]) d'
  rw [hok, if_pos rfl, hdrop]
  exact hbody.append hlast

end Disks

section Sparing

variable {P : Platform} {s u v : Server} {g : GroupId} {i : ℕ} {site : SpawnSite} {con : ClientId}
  {buf : CStr}

/-- No file of a dump is touched. -/
def Spares (s u : Server) : Prop := IoOutputs (Silent fileOp) s.io u.io

theorem Spares.refl : Spares s s := IoOutputs.refl

theorem Spares.trans (h : Spares s u) (k : Spares u v) : Spares s v := IoOutputs.trans h k

theorem Spares.same (h : Spares s u) (ho : v.io.out = u.io.out) : Spares s v := IoOutputs.same h ho

theorem Spares.emit (h : Spares s u) {o : Output} (ho : fileOp o = none) :
    Spares s (UbervisorServer.emit u o) := IoOutputs.emit h ho

theorem Spares.slog (h : Spares s u) (msg : Bytes) : Spares s (slog P u msg) := by
  refine IoOutputs.slog h fun o ho => ?_
  cases o <;> first | rfl | cases ho

theorem Spares.notify (h : Spares s u) (n : Notification) :
    Spares s (u.withIo (Io.notify P n)) := IoOutputs.notify h rfl

theorem Spares.reply (h : Spares s u) (con : ClientId) (r : Reply) :
    Spares s (sendReply P u con r) := IoOutputs.replied h fun _ => rfl

theorem Spares.unset (h : Spares s u) (b : Bool) : Spares s (noteUnset u b) := by
  cases b with
  | false => exact h
  | true => exact IoOutputs.emit h rfl

/-- Turns that touch no file. -/
theorem Spares.loop {f : Server → ℕ → Server} (hf : ∀ s i, Spares s (f s i)) (l : List ℕ)
    (h : Spares s u) : Spares s (l.foldl f u) := by
  induction l generalizing u with
  | nil => exact h
  | cons i l ih => exact ih (h.trans (hf u i))

theorem spawn_spares : Spares s (spawn P site s g i) := by
  unfold spawn takeOutcome
  dsimp only
  split
  · exact Spares.refl.same rfl
  · rename_i a b _
    have hpair : Spares s (UbervisorServer.emit s (.socketpair a b)) := Spares.refl.emit rfl
    split
    · exact hpair.same rfl
    · refine Spares.slog ?_ _
      have hclose := hpair.emit (o := .close b) rfl
      unfold Spares
      simp only [Server.withReg_io, Server.record_io, Server.withIo_io]
      split
      · exact IoOutputs.emit hclose rfl
      · exact hclose

theorem spawnRange_spares {a n : ℕ} : Spares s (spawnRange P site s g a n) :=
  .loop (fun _ _ => spawn_spares) _ .refl

theorem forkCommand_spares : Spares s (forkCommand s).2 := by
  unfold forkCommand takeOutcome
  dsimp only
  split
  · exact Spares.refl.same rfl
  · exact Spares.refl.same rfl

theorem runFatalCb_spares : Spares s (runFatalCb P s g) := by
  have hcalled : Spares s (s.record (.fatal g)) := Spares.refl.same rfl
  have hfork := hcalled.trans forkCommand_spares
  unfold runFatalCb
  dsimp only
  split
  · exact hcalled
  · split
    · rename_i hu
      rw [hu] at hfork
      exact hfork.slog _
    · rename_i hu
      rw [hu] at hfork
      exact (hfork.slog _).emit rfl

theorem noteError_spares : Spares s (noteError P s g) := by
  unfold noteError
  dsimp only
  split
  · refine Spares.trans ?_ runFatalCb_spares
    refine Spares.notify (Spares.slog ?_ _) _
    exact Spares.refl.same rfl
  · exact Spares.refl.same rfl

theorem respawn_spares : Spares s (respawn P s g i) := by
  unfold respawn
  dsimp only
  split
  · exact spawn_spares
  · exact .refl

theorem groupExit_spares {ret : WaitStatus} : Spares s (groupExit P s g i ret) := by
  unfold groupExit
  dsimp only
  refine Spares.trans ?_ respawn_spares
  split
  · exact Spares.trans (.same .refl rfl) noteError_spares
  · exact Spares.refl.same rfl

theorem processExit_spares {p : ProcId} {ret : WaitStatus} : Spares s (processExit P s p ret) := by
  unfold processExit
  dsimp only
  generalize hx : Server.withIo _ _ = x
  have hclosed : Spares s x := by
    rw [← hx]
    have hlog := Spares.slog (P := P) (s := s) .refl
      (text "[process_exit] " ++ optText ((s.reg.procs p).pChildConfig.map fun g =>
        (s.reg.groups g).ccName) ++ text " pid: " ++ natText (s.reg.procs p).pPid.toNat ++
          text "\n")
    unfold Spares
    simp only [Server.withIo_io, Server.withReg_io]
    split
    · exact IoOutputs.emit hlog rfl
    · exact hlog
  split
  · exact hclosed.same rfl
  · exact hclosed.trans groupExit_spares

theorem sigchldTurn_spares : Spares s (sigchldTurn P s) := by
  unfold sigchldTurn
  split
  · exact Spares.refl.same rfl
  · dsimp only
    split
    · exact Spares.refl.same rfl
    · exact Spares.trans (.same .refl rfl) processExit_spares

theorem heartbeatCb_spares {p : ProcId} : Spares s (heartbeatCb P s p) := by
  unfold heartbeatCb
  dsimp only
  split
  · split
    · exact (Spares.refl.slog _).emit rfl
    · exact ((Spares.refl.slog _).emit rfl).same rfl
  · split
    · exact .refl
    · split
      · exact .refl
      · have hfork := forkCommand_spares (s := s)
        split
        · rename_i hu
          rw [hu] at hfork
          exact hfork.slog _
        · rename_i hu
          rw [hu] at hfork
          exact hfork.emit rfl

theorem childErrorCb_spares {p : ProcId} : Spares s (childErrorCb s p) := by
  unfold childErrorCb
  dsimp only
  split
  · exact (Spares.refl.emit rfl).same rfl
  · exact .refl

theorem sighupCb_spares {reopened : Bool} : Spares s (sighupCb P s reopened) := by
  unfold sighupCb
  dsimp only
  split
  · exact Spares.refl.slog _
  · exact (Spares.refl.slog _).slog _

theorem acceptCb_spares {a : Accept} : Spares s (acceptCb P s a) := by
  unfold acceptCb
  cases a with
  | again => exact .refl
  | connected con => exact Spares.refl.same rfl
  | _ => exact Spares.refl.slog _

theorem drop_spares (h : Spares s u) (con : ClientId) :
    Spares s (UbervisorServer.dropClientConnection u con) := by
  have hone : Spares s (UbervisorServer.emit u (.dropped con)) := h.emit rfl
  exact hone.same rfl

theorem loadGroups_spares (l : List Json) : Spares s (loadGroups P l s).1 := by
  induction l generalizing s with
  | nil => exact .refl
  | cons j l ih =>
    cases j with
    | object fields =>
      unfold loadGroups
      cases childConfigFromJson (.object fields) with
      | none => exact .refl
      | some cc =>
        dsimp only
        split
        · exact .refl
        · have hlog := Spares.slog (P := P) (s := s) .refl
            (text "load: " ++ cc.ccName.bytes ++ text "\n")
          split
          · exact hlog.same rfl
          · refine Spares.trans ?_ ih
            unfold loadGroup
            dsimp only
            split
            · exact (hlog.same rfl).trans spawnRange_spares
            · exact hlog.same rfl
    | _ => exact .refl

theorem loadDump_spares {file : Option Bytes} : Spares s (loadDump P s file).1 := by
  unfold loadDump
  split
  · exact .refl
  · exact .refl
  · split
    · exact loadGroups_spares _
    · exact .refl

theorem updateStr_spares {cc : ChildConfig} {fld : StrField} {u : Server × Bool}
    (h : Spares s u.1) : Spares s (updateStr P cc g fld u).1 := by
  unfold updateStr
  split
  · exact h
  · split
    · exact h
    · exact h.slog _

theorem updateStrings_spares {cc : ChildConfig} {u : Server × Bool} (h : Spares s u.1) :
    Spares s (updateStrings P cc g u).1 := by
  unfold updateStrings
  dsimp only
  exact updateStr_spares (updateStr_spares (updateStr_spares (updateStr_spares
    (updateStr_spares h))))

theorem updateKillsig_spares {cc : ChildConfig} {u : Server × Bool} (h : Spares s u.1) :
    Spares s (updateKillsig P cc g u).1 := by
  unfold updateKillsig
  dsimp only
  split
  · exact h.slog _
  · exact h

theorem updateAge_spares {cc : ChildConfig} {u : Server × Bool} (h : Spares s u.1) :
    Spares s (updateAge P cc g u).1 := by
  unfold updateAge
  dsimp only
  split
  · exact h.slog _
  · exact h

theorem growSlot_spares : Spares s (growSlot P g s i) := by
  unfold growSlot
  split
  · exact spawn_spares
  · exact Spares.refl.same rfl

theorem shrinkSlot_spares : Spares s (shrinkSlot g s i) := by
  unfold shrinkSlot
  split
  · exact Spares.refl.same rfl
  · exact Spares.refl.same rfl
  · exact (Spares.refl.emit rfl).same rfl

theorem startSlot_spares : Spares s (startSlot P g s i) := by
  unfold startSlot
  split
  · exact spawn_spares
  · exact .refl
  · exact Spares.refl.emit rfl

theorem updateInstances_spares {cc : ChildConfig} {u : Server × Bool} (h : Spares s u.1) :
    Spares s (updateInstances P cc g u).1 := by
  unfold updateInstances
  dsimp only
  split
  · split
    · refine Spares.loop (fun _ _ => growSlot_spares) _ ?_
      exact (h.slog _).same rfl
    · exact (Spares.loop (fun _ _ => shrinkSlot_spares) _ (h.slog _)).same rfl
  · exact h

theorem updateStatus_spares {cc : ChildConfig} {u : Server × Bool} (h : Spares s u.1) :
    Spares s (updateStatus P cc g u).1 := by
  unfold updateStatus
  dsimp only
  split
  · refine Spares.notify (P := P) ?_ _
    generalize hx : Server.withReg (slog P u.1 _) _ = x
    have hreset : Spares s x := by
      rw [← hx]
      exact (h.slog _).same rfl
    split
    · exact (Spares.loop (fun _ _ => startSlot_spares) _ hreset).same rfl
    · exact hreset.same rfl
  · exact h

theorem updateGroup_spares {cc : ChildConfig} : Spares s (updateGroup P cc g s).1 := by
  unfold updateGroup
  dsimp only
  exact updateAge_spares (updateStatus_spares (updateInstances_spares (updateKillsig_spares
    (updateStrings_spares .refl))))

theorem withNamedGroup_spares {badName : Bool} {handle : Json → GroupId → Server × Bool}
    (hhandle : ∀ obj g, Spares s (handle obj g).1) :
    Spares s (withNamedGroup P s con buf badName handle).1 := by
  unfold withNamedGroup
  split
  · exact Spares.refl.reply con _
  · split
    · exact Spares.refl.reply con _
    · split
      · exact Spares.refl.reply con _
      · exact hhandle _ _

theorem cKill_spares : Spares s (cKill P s con buf).1 := by
  refine withNamedGroup_spares fun obj g => ?_
  dsimp only
  refine Spares.reply (P := P) ?_ con _
  have hall : ∀ (l : List Pid) (sig : ℤ) (io : Io), IoOutputs (Silent fileOp) s.io io →
      IoOutputs (Silent fileOp) s.io (l.foldl (fun io pid => io.emit (.kill pid sig)) io) := by
    intro l sig
    induction l with
    | nil => exact fun _ h => h
    | cons pid l ih => exact fun io h => ih _ (h.emit rfl)
  exact hall _ _ _ ((Spares.refl.slog _).unset _)

theorem cDele_spares : Spares s (cDele P s con buf).1 := by
  refine withNamedGroup_spares fun obj g => ?_
  dsimp only
  refine Spares.reply (P := P) ?_ con _
  refine Spares.same (Spares.notify (P := P) (u := Server.withReg _ _) ?_ _) rfl
  refine Spares.same (Spares.unset (Spares.slog ?_ _) _) rfl
  exact Spares.refl.same rfl

theorem cSubs_spares : Spares s (cSubs P s con buf).1 := by
  unfold cSubs
  split
  · exact Spares.refl.reply con _
  · split
    · exact Spares.refl.reply con _
    · exact Spares.reply (P := P) (.same .refl rfl) con _

theorem cRead_spares : Spares s (cRead P s con buf).1 := by
  unfold cRead
  dsimp only
  split
  · exact Spares.refl.reply con _
  · split
    · split
      · exact Spares.refl.reply con _
      · split
        · exact Spares.refl.reply con _
        · split
          · exact Spares.refl.reply con _
          · split
            · exact Spares.refl.reply con _
            · split
              · exact Spares.refl.reply con _
              · exact Spares.refl.reply con _
              · exact Spares.refl.reply con _
    · exact Spares.refl.reply con _

end Sparing

section Handlers

variable {P : Platform} {s u x : Server} {con : ClientId} {buf : CStr} {l : List FileOp}
  {cc up : ChildConfig} {g : GroupId} {c : Command}

/-- The lines of a dump of all groups. -/
def groupLines (P : Platform) (r : Registry) : List Bytes :=
  r.childConfigList.map fun g => dumpLine P (r.groups g)

/-- What a dump of the groups of `r` does to the directory when `s` handles a request. -/
def stepDump (P : Platform) (s : Server) (r : Registry) : List FileOp :=
  dumpOps P s.clock (s.io.dumpCnt + 1) (groupLines P r) s.io.fileResults

/-- The slots of a group are not dumped. -/
theorem dumpLine_settings (h : settings cc = settings up) : dumpLine P cc = dumpLine P up := by
  have hserialize : childConfigSerialize cc = childConfigSerialize up := by
    change childConfigSerialize (settings cc) = childConfigSerialize (settings up)
    rw [h]
  rw [dumpLine, dumpLine, hserialize]

theorem cDump_files (s : Server) (con : ClientId) :
    Reads fileOp (stepDump P s s.reg) s.io (UbervisorServer.cDump P s con).io := by
  have h := cDump_ops (P := P) (t := s.clock) (s.reg.childConfigList.map s.reg.groups) s.io con
  rw [List.map_map] at h
  exact h

/-- The reply of SPWN, UPDT and EXIT. -/
theorem sendSuccess_files (hx : Spares s x) (hauto : x.autoDump = s.autoDump)
    (hclock : x.clock = s.clock) (hcnt : x.io.dumpCnt = s.io.dumpCnt)
    (hfiles : x.io.fileResults = s.io.fileResults) (con : ClientId) (msg : String) :
    Reads fileOp (if s.autoDump then stepDump P s x.reg else []) s.io
      (sendSuccess P x con msg).io := by
  have hio : (sendSuccess P x con msg).io =
      if x.autoDump then (UbervisorServer.cDump P x con).io
      else x.io.sendStatusMsg P con true msg := rfl
  have hsame : stepDump P x x.reg = stepDump P s x.reg := by
    rw [stepDump, hclock, hcnt, hfiles, stepDump]
  rw [hio, hauto]
  split
  · rw [← hsame]
    exact Reads.before hx (cDump_files x con)
  · exact .silent (Spares.reply hx con _)

/-- What is read of a handler: nothing, or a dump of the groups that there are when it returns. -/
def Dumps (P : Platform) (s u : Server) : Prop :=
  ∃ l, Reads fileOp l s.io u.io ∧ (l = [] ∨ l = stepDump P s u.reg)

theorem Dumps.of_spares (h : Spares s u) : Dumps P s u := ⟨[], .silent h, .inl rfl⟩

theorem Dumps.of_success (h : Reads fileOp (if s.autoDump then stepDump P s u.reg else [])
    s.io u.io) : Dumps P s u := by
  refine ⟨_, h, ?_⟩
  split
  · exact .inr rfl
  · exact .inl rfl

/-- The settings of the groups decide what is dumped. -/
theorem groupLines_congr {r r' : Registry} (hlist : r'.childConfigList = r.childConfigList)
    (h : ∀ g ∈ r.childConfigList, settings (r'.groups g) = settings (r.groups g)) :
    groupLines P r' = groupLines P r := by
  rw [groupLines, hlist]
  exact List.map_congr_left fun g hg => dumpLine_settings (h g hg)

/-- An accepted SPWN dumps the groups when the new one is among them. -/
theorem cSpwn_files (con : ClientId) (hl : Linked s.reg)
    (hcc : childConfigUnserialize P buf = some cc) (hok : spwnRefusal s.reg cc = none) :
    Reads fileOp (if s.autoDump then stepDump P s (cSpwn P s con buf).1.reg else []) s.io
      (cSpwn P s con buf).1.io := by
  have hcreated : Created .spwn (withSlots cc _) s (cSpwn P s con buf).1 :=
    cSpwn_created P hl hcc hok rfl
  rw [cSpwn_accepted hcc hok rfl] at hcreated ⊢
  dsimp only at hcreated ⊢
  generalize (if cc.ccInstances = -1 then 1 else cc.ccInstances) = n at hcreated ⊢
  have hsuccess := sendSuccess_files (P := P) (s := s) (x := insertGroup s (withSlots cc n))
    (.same .refl rfl) rfl rfl rfl rfl con "success"
  have hnoted : Spares (sendSuccess P (insertGroup s (withSlots cc n)) con "success")
      (announceGroup P s con cc n) := ((Spares.refl.slog _).notify _).notify _
  generalize hu : (if cc.ccStatus = statusRunning then
    spawnRange P .spwn (announceGroup P s con cc n) s.reg.nextGroup 0 n.toNat
      else announceGroup P s con cc n) = u at hcreated ⊢
  have hstarted : Spares (announceGroup P s con cc n) u := by
    rw [← hu]
    split
    · exact spawnRange_spares
    · exact .refl
  have hlines : groupLines P (insertGroup s (withSlots cc n)).reg = groupLines P u.reg := by
    refine groupLines_congr hcreated.list.symm fun g _ => ?_
    by_cases hg : g = s.reg.nextGroup
    · rw [hg, hcreated.settings]
      exact congrArg settings insert_self
    · rw [hcreated.groups g hg]
      exact congrArg settings (insert_of_ne hg)
  rw [stepDump, hlines] at hsuccess
  exact (hsuccess.after hnoted).after hstarted

theorem cSpwn_dumps (hl : Linked s.reg) : Dumps P s (cSpwn P s con buf).1 := by
  cases hcc : childConfigUnserialize P buf with
  | none =>
    rw [cSpwn_unparsed hcc]
    exact .of_spares (Spares.refl.reply con _)
  | some cc =>
    cases hok : spwnRefusal s.reg cc with
    | some msg =>
      rw [cSpwn_refused hcc hok]
      exact .of_spares (Spares.refl.reply con _)
    | none => exact .of_success (cSpwn_files con hl hcc hok)

theorem cUpdt_files (con : ClientId) (hl : Linked s.reg)
    (hcc : childConfigUnserialize P buf = some cc)
    (hg : s.reg.childConfigFindByName cc.ccName = some g) (hok : updtRefusal cc = none) :
    Reads fileOp (if s.autoDump then stepDump P s (cUpdt P s con buf).1.reg else []) s.io
      (cUpdt P s con buf).1.io := by
  have hgl := (hl.find_name hg).1
  have hquiet := UbervisorAnswers.updateGroup_quiet (P := P) s hl hgl hok
  have hflags := UbervisorAnswers.updateGroup_flags (P := P) cc g s
  have hup := (updateGroup_updated P cc g s hl hgl hok).1
  have hspares : Spares s (updateGroup P cc g s).1 := updateGroup_spares
  rw [cUpdt_accepted hcc hg hok, announceUpdate_io]
  generalize updateGroup P cc g s = v at hquiet hflags hup hspares ⊢
  obtain ⟨v, changed⟩ := v
  dsimp only at hquiet hflags hup hspares
  generalize hio : (fun io : Io =>
    if changed then io.notify P (.groupCfg (v.reg.groups g)) else io) = announce
  have hnoted : Spares s (v.withIo announce) ∧
      (v.withIo announce).io.dumpCnt = s.io.dumpCnt ∧
      (v.withIo announce).io.fileResults = s.io.fileResults := by
    subst hio
    cases changed with
    | false => exact ⟨hspares, hquiet.dumps, hquiet.files⟩
    | true =>
      have hq := hquiet.after (.notify (.groupCfg (v.reg.groups g)))
      exact ⟨hspares.notify _, hq.dumps, hq.files⟩
  exact sendSuccess_files hnoted.1 hflags.autoDump hup.concerns.clock hnoted.2.1 hnoted.2.2 con
    "success"

theorem cUpdt_dumps (hl : Linked s.reg) : Dumps P s (cUpdt P s con buf).1 := by
  cases hcc : childConfigUnserialize P buf with
  | none =>
    rw [cUpdt_unparsed hcc]
    exact .of_spares ((Spares.refl.slog _).reply con _)
  | some cc =>
    cases hg : s.reg.childConfigFindByName cc.ccName with
    | none =>
      rw [cUpdt_unknown hcc hg]
      exact .of_spares (Spares.refl.reply con _)
    | some g =>
      cases hok : updtRefusal cc with
      | some r =>
        rw [cUpdt_refused hcc hg hok]
        exact .of_spares (Spares.refl.reply con _)
      | none => exact .of_success (cUpdt_files con hl hcc hg hok)

theorem cExit_allowed (hexit : s.allowExit = true) : (cExit P s con).1 =
    { slog P (sendSuccess P s con "exiting") (text "server exiting due to exit command.\n") with
      halted := true } := by
  unfold cExit
  rw [hexit]
  rfl

theorem cExit_files (P : Platform) (con : ClientId) (hexit : s.allowExit = true) :
    Reads fileOp (if s.autoDump then stepDump P s (cExit P s con).1.reg else []) s.io
      (cExit P s con).1.io := by
  have hsuccess := sendSuccess_files (P := P) (s := s) .refl rfl rfl rfl rfl con "exiting"
  have hlog : Spares (sendSuccess P s con "exiting") (slog P (sendSuccess P s con "exiting")
      (text "server exiting due to exit command.\n")) := Spares.refl.slog _
  rw [cExit_allowed hexit]
  exact hsuccess.after hlog

theorem cExit_dumps : Dumps P s (cExit P s con).1 := by
  cases hexit : s.allowExit with
  | true => exact .of_success (cExit_files P con hexit)
  | false =>
    unfold cExit
    rw [if_pos (by rw [hexit]; rfl)]
    exact .of_spares (Spares.refl.reply con _)

/-- A request that ends with a dump carries it out, for the groups that there are then. -/
theorem dumping_files {n : ℕ} (con : ClientId) (hl : Linked s.reg)
    (hd : UbervisorReplies.Dumps P s buf c n) :
    Reads fileOp (stepDump P s (runCommand P c s con buf).1.reg) s.io
        (runCommand P c s con buf).1.io ∧
      (runCommand P c s con buf).1.reg.childConfigList.length = n := by
  cases hd with
  | dump => exact ⟨cDump_files s con, rfl⟩
  | exit hexit hauto =>
    have hfiles := cExit_files P con hexit
    rw [hauto, if_pos rfl] at hfiles
    refine ⟨hfiles, ?_⟩
    change (cExit P s con).1.reg.childConfigList.length = _
    rw [cExit_allowed hexit]
    rfl
  | spwn hcc hok hauto =>
    have hfiles := cSpwn_files con hl hcc hok
    rw [hauto, if_pos rfl] at hfiles
    refine ⟨hfiles, ?_⟩
    have hcreated : Created .spwn _ s (cSpwn P s con buf).1 := cSpwn_created P hl hcc hok rfl
    change (cSpwn P s con buf).1.reg.childConfigList.length = _
    rw [hcreated.list, List.length_cons]
  | @updt cc g hcc hg hok hauto =>
    have hfiles := cUpdt_files con hl hcc hg hok
    rw [hauto, if_pos rfl] at hfiles
    refine ⟨hfiles, ?_⟩
    have hup := (updateGroup_updated P cc g s hl (hl.find_name hg).1 hok).1
    have hreg : (cUpdt P s con buf).1.reg = (updateGroup P cc g s).1.reg := by
      rw [cUpdt_accepted hcc hg hok]
      generalize updateGroup P cc g s = v
      obtain ⟨v, _ | _⟩ := v
      · rfl
      · rfl
    change (cUpdt P s con buf).1.reg.childConfigList.length = _
    rw [hreg, hup.list]

/-- What a request does to the directory. -/
theorem runCommand_dumps (hl : Linked s.reg) (c : Command) :
    Dumps P s (runCommand P c s con buf).1 := by
  cases c with
  | dele => exact .of_spares cDele_spares
  | dump => exact ⟨_, cDump_files s con, .inr rfl⟩
  | exit => exact cExit_dumps
  | getc => exact .of_spares (withNamedGroup_spares fun _ _ => Spares.refl.reply con _)
  | helo => exact .of_spares (Spares.refl.reply con _)
  | kill => exact .of_spares cKill_spares
  | list => exact .of_spares (Spares.refl.reply con _)
  | pids =>
    exact .of_spares (withNamedGroup_spares fun _ _ => Spares.reply (Spares.refl.unset _) con _)
  | read => exact .of_spares cRead_spares
  | spwn => exact cSpwn_dumps hl
  | subs => exact .of_spares cSubs_spares
  | updt => exact cUpdt_dumps hl

end Handlers

section Steps

variable {P : Platform} {s u : Server} {e : Event} {con : ClientId} {cid : UInt16}
  {payload : Bytes} {o : Oracle}

/-- What a step does to the directory. -/
def opsOf (s u : Server) : List FileOp := (newOut s u).filterMap fileOp

/-- What a step of the server does to the directory: nothing, or a request is answered by a dump
of the groups that there are after it. -/
def StepDump (P : Platform) (s : Server) (e : Event) (u : Server) : Prop :=
  opsOf s u = [] ∨ ∃ con cid payload o, e = .callback (.request con cid payload) o ∧
    opsOf s u = stepDump P (install s o) u.reg

/-- The server when it handles a request. -/
def handling (s : Server) (con : ClientId) (cid : UInt16) (o : Oracle) : Server :=
  (install s o).withIo (setCid con cid)

/-- A request does to the directory what its handler does. -/
theorem command_files {c : Command} {l : List FileOp} (hc : findCommand payload = some c)
    (h : Reads fileOp l (handling s con cid o).io
      (runCommand P c (handling s con cid o) con (CStr.ofBytes (payload.drop 4))).1.io) :
    opsOf s (next P s (.callback (.request con cid payload) o)) = l ∧
      (next P s (.callback (.request con cid payload) o)).reg =
        (runCommand P c (handling s con cid o) con (CStr.ofBytes (payload.drop 4))).1.reg := by
  have hnext : next P s (.callback (.request con cid payload) o) =
      (runServerCommand P (handling s con cid o) con payload).withIo (setCid con 0) := rfl
  unfold runServerCommand at hnext
  rw [hc] at hnext
  dsimp only at hnext
  generalize runCommand P c _ con _ = v at hnext h
  obtain ⟨v, cr⟩ := v
  dsimp only at hnext h
  cases cr with
  | true =>
    have hall : Reads fileOp l s.io (next P s (.callback (.request con cid payload) o)).io := by
      rw [hnext]
      exact h.same rfl
    exact ⟨hall.newOut, by rw [hnext]; rfl⟩
  | false =>
    have hall : Reads fileOp l s.io (next P s (.callback (.request con cid payload) o)).io := by
      rw [hnext]
      exact (h.after (drop_spares .refl con)).same rfl
    exact ⟨hall.newOut, by rw [hnext]; rfl⟩

theorem request_files (hl : Linked s.reg)
    (h : Step P s (.callback (.request con cid payload) o) u) :
    StepDump P s (.callback (.request con cid payload) o) u := by
  obtain ⟨-, rfl⟩ := h
  cases hc : findCommand payload with
  | none =>
    have hnext : next P s (.callback (.request con cid payload) o) =
        (runServerCommand P (handling s con cid o) con payload).withIo (setCid con 0) := rfl
    unfold runServerCommand at hnext
    rw [hc] at hnext
    have hdrop : Spares s (next P s (.callback (.request con cid payload) o)) := by
      rw [hnext]
      exact (drop_spares (Spares.same .refl rfl) con).same rfl
    exact .inl (Reads.silent hdrop).newOut
  | some c =>
    have hlx : Linked (handling s con cid o).reg := hl
    have hdumps : Dumps P (handling s con cid o) (runCommand P c (handling s con cid o) con
        (CStr.ofBytes (payload.drop 4))).1 := runCommand_dumps hlx c
    obtain ⟨l, hreads, hcase⟩ := hdumps
    obtain ⟨hops, hreg⟩ := command_files hc hreads
    rcases hcase with rfl | rfl
    · exact .inl hops
    · refine .inr ⟨con, cid, payload, o, rfl, ?_⟩
      rw [hreg]
      exact hops

theorem step_files (hl : Linked s.reg) (h : Step P s e u) : StepDump P s e u := by
  have hquiet : Spares s u → StepDump P s e u := fun hs => .inl (Reads.silent hs).newOut
  obtain ⟨hen, hu⟩ := h
  cases e with
  | clock t =>
    rw [hu] at hquiet ⊢
    exact hquiet (.same .refl rfl)
  | childExit pid ret pos =>
    rw [hu] at hquiet ⊢
    exact hquiet (.same .refl rfl)
  | callback c o =>
    have hstart : Spares s (install s o) := .same .refl rfl
    cases c with
    | request con cid payload => exact request_files hl ⟨hen, hu⟩
    | accept a =>
      rw [hu] at hquiet ⊢
      exact hquiet (hstart.trans acceptCb_spares)
    | badLength con tooLarge =>
      rw [hu] at hquiet ⊢
      exact hquiet (drop_spares (hstart.slog _) con)
    | error con =>
      rw [hu] at hquiet ⊢
      exact hquiet (drop_spares hstart con)
    | loadDump file =>
      rw [hu] at hquiet ⊢
      refine hquiet (hstart.trans ?_)
      have hload : Spares (install s o) (loadDump P (install s o) file).1 := loadDump_spares
      change Spares _ (loadDumpCb P (install s o) file)
      unfold loadDumpCb
      split
      · rename_i hv
        rwa [hv] at hload
      · rename_i hv
        rw [hv] at hload
        exact hload.same rfl
    | loadNewest file =>
      rw [hu] at hquiet ⊢
      exact hquiet (hstart.trans loadDump_spares)
    | sigchld =>
      rw [hu] at hquiet ⊢
      exact hquiet (hstart.same rfl)
    | waitpid =>
      rw [hu] at hquiet ⊢
      exact hquiet (hstart.trans sigchldTurn_spares)
    | sighup reopened =>
      rw [hu] at hquiet ⊢
      exact hquiet (hstart.trans sighupCb_spares)
    | heartbeat p =>
      rw [hu] at hquiet ⊢
      exact hquiet (hstart.trans heartbeatCb_spares)
    | childRead p buf =>
      rw [hu] at hquiet ⊢
      exact hquiet (hstart.slog _)
    | childError p =>
      rw [hu] at hquiet ⊢
      exact hquiet (hstart.trans childErrorCb_spares)

end Steps

end UbervisorFileSteps
