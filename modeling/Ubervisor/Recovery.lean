import Ubervisor.FileSteps
import Ubervisor.Restoring

/-! # Restarts from the newest dump

A server that was killed at any point, even while it wrote a dump, is started again with
`--loadlatest`. It finds the last dump that got its name, and the groups that were dumped. -/
namespace UbervisorRecovery

open UbervisorRuns
open UbervisorValues
open UbervisorChildConfigs
open UbervisorRegistry
open UbervisorReadCallback (Command findCommand)
open UbervisorServer
open UbervisorCommands
open UbervisorEvents
open UbervisorSupervision
open UbervisorSlots
open UbervisorExits
open UbervisorEffects
open UbervisorDumps
open UbervisorRegistrations
open UbervisorStoredGroups
open UbervisorRestoring
open UbervisorJsonC
open UbervisorReplies hiding Dumps DumpWritten
open UbervisorDirectories
open UbervisorFileSteps

section Names

variable {P : Platform} {t : ℤ} {cnt : ℕ}

/-- A name that `load_newest_dump` takes into account. -/
def Candidate (n : Bytes) : Prop := text "uberdump" <+: n ∧ n.length < pathMax

instance (n : Bytes) : Decidable (Candidate n) := inferInstanceAs (Decidable (_ ∧ _))

theorem dumpName_candidate (h : (dumpTmpName P t cnt).length < pathMax) :
    Candidate (dumpName P t cnt) := by
  constructor
  · have hname : dumpName P t cnt = text "uberdump" ++ (text "_" ++ natText cnt ++ text "_" ++
        intText P.euid ++ text "_" ++ P.dumpTime t) := by
      rw [dumpName, show text "uberdump_" = text "uberdump" ++ text "_" by rfl]
      simp
    rw [hname]
    exact List.prefix_append _ _
  · have htmp : dumpTmpName P t cnt = text "tmp." ++ dumpName P t cnt := rfl
    rw [htmp, List.length_append] at h
    omega

/-- A dump that is not complete is not found. -/
theorem dumpTmpName_hidden : ¬ Candidate (dumpTmpName P t cnt) := by
  rintro ⟨⟨l, hl⟩, -⟩
  have hhead := congrArg List.head? hl
  revert hhead
  have hu : text "uberdump" = 117 :: (text "uberdump").tail := by decide
  have ht : text "tmp." = 116 :: (text "tmp.").tail := by decide
  rw [dumpTmpName, hu, ht]
  simp

end Names

section Shape

variable {P : Platform} {t : ℤ} {cnt : ℕ} {lines : List Bytes} {fs : List Bool} {full : Bool}
  {d x : Dir Bytes UInt8 ℤ} {ops : List FileOp}

/-- A dump gets its name. -/
def publishes (ops : List FileOp) : Bool := ops.any fun op =>
  match op with
  | .link _ _ => true
  | _ => false

theorem publishes_append (ops ops' : List FileOp) :
    publishes (ops ++ ops') = (publishes ops || publishes ops') := List.any_append

theorem writes_private (h : ∀ op ∈ ops, Op.writes op) : publishes ops = false := by
  refine List.any_eq_false.mpr fun op hop => ?_
  have hw := h op hop
  cases op with
  | link => exact absurd hw (by simp [Op.writes])
  | _ => simp

theorem attempt_private {tmp : Bytes} (h : Attempt tmp ops) : publishes ops = false := by
  rcases h with rfl | ⟨body, rfl, hw⟩
  · rfl
  · have hbody : publishes body = false := writes_private hw
    rw [publishes, List.any_cons, Bool.false_or]
    exact hbody

theorem linking_publishes (tmp dst : Bytes) (body : List FileOp) :
    publishes (linking tmp dst body) = true := by
  unfold linking
  rw [publishes, List.any_cons, List.any_append]
  simp

theorem lineOps_writes : ∀ op ∈ lineOps lines fs, Op.writes op := by
  induction lines generalizing fs with
  | nil => simp [lineOps]
  | cons b bs ih =>
    intro op hop
    rcases List.mem_cons.mp hop with rfl | hop
    · trivial
    · split at hop
      · exact ih op hop
      · cases hop

theorem lineOps_ok (h : allOk lines.length fs = true) :
    lineOps lines fs = lines.map (.print true) := by
  induction lines generalizing fs with
  | nil => rfl
  | cons b bs ih =>
    simp only [List.length_cons, allOk, Bool.and_eq_true] at h
    obtain ⟨hhead, hrest⟩ := h
    rw [lineOps, hhead, if_pos rfl, ih hrest, List.map_cons]

def dumpLines (lines : List Bytes) : List Bytes := text "[\n" :: (lines ++ [text "]\n"])

/-- What is written of a dump whose groups are printed well. -/
def endWrites (first : Bool) (lines : List Bytes) (last : Bool) : List FileOp :=
  .print first (text "[\n") :: (lines.map (.print true) ++
    (.print last (text "]\n") :: ((if last then [] else [.close]) ++ [.close])))

theorem endWrites_writes {first last : Bool} : ∀ op ∈ endWrites first lines last, Op.writes op := by
  intro op hop
  simp only [endWrites, List.mem_cons, List.mem_append, List.mem_map] at hop
  rcases hop with rfl | ⟨b, -, rfl⟩ | rfl | hop | hop
  · trivial
  · trivial
  · trivial
  · split at hop
    · cases hop
    · cases List.mem_singleton.mp hop
      trivial
  · rcases hop with rfl | hop
    · trivial
    · cases hop

theorem endWrites_printing {first last : Bool}
    (h : ∀ b, .print false b ∉ endWrites first lines last) :
    endWrites first lines last = printing (dumpLines lines) := by
  cases first with
  | false => exact absurd List.mem_cons_self (h _)
  | true =>
    cases last with
    | false => exact absurd (by simp [endWrites]) (h (text "]\n"))
    | true => simp [endWrites, printing, dumpLines]

/-- A dump is given up before it gets its name, or it is complete if everything is printed well: an
error of the first line is not looked at, and that of the last one is only reported. -/
theorem dumpOps_shape :
    Attempt (dumpTmpName P t cnt) (dumpOps P t cnt lines fs) ∨
      (dumpTmpName P t cnt).length < pathMax ∧ ∃ body,
        dumpOps P t cnt lines fs = publication (dumpTmpName P t cnt) (dumpName P t cnt) body ∧
        (∀ op ∈ body, Op.writes op) ∧
        ((∀ b, .print false b ∉ body) → body = printing (dumpLines lines)) := by
  unfold dumpOps
  split
  · exact .inl (.inl rfl)
  · rename_i hgo
    split
    · rename_i hall
      rw [lineOps_ok hall]
      generalize fs.tail.tail.drop lines.length = ends
      have hwrites : ∀ op ∈ endWrites (fs.tail.headD false) lines (ends.headD false),
          Op.writes op := endWrites_writes
      unfold endOps
      cases ends.tail.headD false with
      | true =>
        rw [not_or, Nat.not_le] at hgo
        refine .inr ⟨hgo.1, _, ?_, hwrites, endWrites_printing⟩
        simp [publication, linking, endWrites]
      | false =>
        refine .inl (.inr ⟨_, ?_, hwrites⟩)
        simp [endWrites]
    · refine .inl (.inr ⟨_, rfl, ?_⟩)
      intro op hop
      rcases List.mem_cons.mp hop with rfl | hop
      · trivial
      · rcases List.mem_append.mp hop with hop | hop
        · exact lineOps_writes op hop
        · cases List.mem_singleton.mp hop
          trivial

/-- What is carried out of a dump finds room in the directory: its file is a new one, and if it gets
its name the disk is not full and it is newer than the dumps that are there. -/
structure Room (d : Dir Bytes UInt8 ℤ) (t : ℤ) (full : Bool) (ops : List FileOp) : Prop where
  fresh : ∀ n, .create n ∈ ops → d.names n = none
  written : publishes ops = true → full = false
  positive : publishes ops = true → 0 < t
  later : publishes ops = true → ∀ m j, d.names m = some j → Candidate m → (d.files j).time < t

theorem room_idle : Room d t full [] := ⟨nofun, nofun, nofun, nofun⟩

/-- However much of a dump is carried out: it is the newest one if it got its name, and none is
touched if it did not. -/
theorem dump_execs (hd : Numbered d) (hpre : ops <+: dumpOps P t cnt lines fs)
    (hroom : Room d t full ops) (h : Execs t full d ops x) :
    Numbered x ∧ if publishes ops then Current Candidate x ⟨(dumpLines lines).flatten, t⟩
      else ∀ f, Current Candidate d f → Current Candidate x f := by
  have hattempt : Attempt (dumpTmpName P t cnt) ops →
      Numbered x ∧ if publishes ops then Current Candidate x ⟨(dumpLines lines).flatten, t⟩
        else ∀ f, Current Candidate d f → Current Candidate x f := by
    intro ha
    rw [attempt_private ha]
    rcases ha with rfl | ⟨body, rfl, hw⟩
    · cases h
      exact ⟨hd, fun f hf => hf⟩
    · have hnew := hroom.fresh _ List.mem_cons_self
      have ha : Attempt (dumpTmpName P t cnt) (.create (dumpTmpName P t cnt) :: body) :=
        .inr ⟨body, rfl, hw⟩
      exact ⟨attempt_numbered hd hnew ha h,
        fun f hf => attempt_current hd hnew dumpTmpName_hidden ha h hf⟩
  rcases (dumpOps_shape : Attempt (dumpTmpName P t cnt) (dumpOps P t cnt lines fs) ∨ _) with
    ha | ⟨hlen, body, hpub, hw, hbody⟩
  · exact hattempt (ha.pre hpre)
  · have hlinking : ∀ y, d.names (dumpTmpName P t cnt) = none →
        (∀ m j, d.names m = some j → Candidate m → (d.files j).time < t) → Execs t false d
        (linking (dumpTmpName P t cnt) (dumpName P t cnt) body) y →
        Numbered y ∧ Current Candidate y ⟨(dumpLines lines).flatten, t⟩ := by
      intro y hnew hlater hy
      have hprinted : ∀ b, .print false b ∉ body := fun b hb =>
        execs_printed hy (List.mem_cons_of_mem _ (List.mem_append_left _ hb))
      rw [hbody hprinted] at hy
      exact linking_current hd hnew dumpTmpName_hidden (dumpName_candidate hlen) hlater hy
    rw [hpub] at hpre
    rcases publication_prefix hw hpre with ha | rfl | rfl
    · exact hattempt ha
    · have hpublished := linking_publishes (dumpTmpName P t cnt) (dumpName P t cnt) body
      obtain rfl := hroom.written hpublished
      rw [hpublished, if_pos rfl]
      exact hlinking x (hroom.fresh _ List.mem_cons_self) (hroom.later hpublished) h
    · have hpublished : publishes (publication (dumpTmpName P t cnt) (dumpName P t cnt) body) =
          true := by
        rw [publication, publishes_append, linking_publishes, Bool.true_or]
      obtain rfl := hroom.written hpublished
      rw [hpublished, if_pos rfl]
      obtain ⟨y, hy, hend⟩ := execs_append.mp h
      obtain ⟨hnum, hcur⟩ := hlinking y (hroom.fresh _ (List.mem_append_left _ List.mem_cons_self))
        (hroom.later hpublished) hy
      cases hend with
      | cons hun hnil =>
        cases hnil
        exact ⟨unlink_numbered hun hnum, unlink_current dumpTmpName_hidden hun hcur⟩

end Shape

section Scan

variable {stat : Bytes → Option (File UInt8 ℤ)} {d : Dir Bytes UInt8 ℤ} {f : File UInt8 ℤ}
  {dumpFile : Option Bytes} {order : List Bytes}

/-- One entry of the directory: the newest file so far is replaced by a newer one. -/
def scanEntry (stat : Bytes → Option (File UInt8 ℤ)) (best : ℤ × Bytes) (n : Bytes) : ℤ × Bytes :=
  if text "uberdump" <+: n then
    match stat n with
    | none => best
    | some f => if best.1 < f.time then if n.length < pathMax then (f.time, n) else best else best
  else best

/-- The file that `load_newest_dump` loads: the file it is given, or a newer dump. -/
def loadNewestDump (stat : Bytes → Option (File UInt8 ℤ)) (dumpFile : Option Bytes)
    (order : List Bytes) : Option Bytes :=
  let start : ℤ × Bytes :=
    match dumpFile with
    | some n =>
      match stat n with
      | some f => if n.length < pathMax then (f.time, n) else (0, [])
      | none => (0, [])
    | none => (0, [])
  let best := order.foldl (scanEntry stat) start
  if best.2 = [] then none else some best.2

/-- The entries of a directory are read, in any order. -/
structure Listing (d : Dir Bytes UInt8 ℤ) (stat : Bytes → Option (File UInt8 ℤ))
    (order : List Bytes) : Prop where
  entries : ∀ n, d.names n ≠ none → n ∈ order
  stats : ∀ n ∈ order, stat n = (d.names n).map d.files

/-- The file that is given is older, if there is one. -/
def Older (stat : Bytes → Option (File UInt8 ℤ)) (dumpFile : Option Bytes) (t : ℤ) : Prop :=
  ∀ n g, dumpFile = some n → stat n = some g → g.time < t

/-- An entry that is not newer changes nothing. -/
theorem scanEntry_keeps {best : ℤ × Bytes} {m : Bytes}
    (h : Candidate m → ∀ g, stat m = some g → g.time ≤ best.1) : scanEntry stat best m = best := by
  unfold scanEntry
  split
  · rename_i hpre
    split
    · rfl
    · rename_i g hg
      split
      · rename_i hlt
        split
        · rename_i hlen
          exact absurd (h ⟨hpre, hlen⟩ g hg) (not_le.mpr hlt)
        · rfl
      · rfl
  · rfl

theorem scanEntry_older {best : ℤ × Bytes} {m : Bytes} {t : ℤ} (hbest : best.1 < t)
    (h : Candidate m → ∀ g, stat m = some g → g.time < t) : (scanEntry stat best m).1 < t := by
  unfold scanEntry
  split
  · rename_i hpre
    split
    · exact hbest
    · rename_i g hg
      split
      · split
        · rename_i hlen
          exact h ⟨hpre, hlen⟩ g hg
        · exact hbest
      · exact hbest
  · exact hbest

theorem scanEntry_newest {best : ℤ × Bytes} {n : Bytes} (hn : stat n = some f) (hc : Candidate n)
    (hbest : best.1 < f.time) : scanEntry stat best n = (f.time, n) := by
  unfold scanEntry
  rw [if_pos hc.1, hn]
  dsimp only
  rw [if_pos hbest, if_pos hc.2]

/-- The newest of the candidates is found, wherever it stands among them. -/
theorem scan_newest {n : Bytes} (hn : stat n = some f) (hc : Candidate n) (hmem : n ∈ order)
    (hall : ∀ m ∈ order, Candidate m → m = n ∨ ∀ g, stat m = some g → g.time < f.time)
    {best : ℤ × Bytes} (hbest : best.1 < f.time) :
    order.foldl (scanEntry stat) best = (f.time, n) := by
  have hlast : ∀ l : List Bytes, (∀ m ∈ l, m ∈ order) →
      l.foldl (scanEntry stat) (f.time, n) = (f.time, n) := by
    intro l hl
    induction l with
    | nil => rfl
    | cons m l ih =>
      have hkeep : scanEntry stat (f.time, n) m = (f.time, n) := by
        refine scanEntry_keeps fun hcm g hg => ?_
        rcases hall m (hl m List.mem_cons_self) hcm with rfl | hold
        · rw [hn] at hg
          cases hg
          exact le_refl _
        · exact (hold g hg).le
      rw [List.foldl_cons, hkeep]
      exact ih fun m hm => hl m (List.mem_cons_of_mem _ hm)
  obtain ⟨l, l', rfl, hfirst⟩ := List.eq_append_cons_of_mem hmem
  have hbefore : (l.foldl (scanEntry stat) best).1 < f.time := by
    have holder : ∀ m ∈ l, Candidate m → ∀ g, stat m = some g → g.time < f.time := by
      intro m hm hcm
      refine (hall m (List.mem_append_left _ hm) hcm).resolve_left ?_
      rintro rfl
      exact hfirst hm
    clear hlast hmem hall hfirst
    induction l generalizing best with
    | nil => exact hbest
    | cons m l ih =>
      exact ih (scanEntry_older hbest (holder m List.mem_cons_self))
        fun k hk => holder k (List.mem_cons_of_mem _ hk)
  rw [List.foldl_append, List.foldl_cons, scanEntry_newest hn hc hbefore]
  exact hlast l' fun m hm => List.mem_append_right _ (List.mem_cons_of_mem _ hm)

/-- In whatever order the directory is read, the newest dump is found. -/
theorem loadNewestDump_current (hc : Current Candidate d f) (ht : 0 < f.time)
    (hr : Listing d stat order) (hold : Older stat dumpFile f.time) :
    ∃ n, loadNewestDump stat dumpFile order = some n ∧ stat n = some f := by
  obtain ⟨n, i, hn, hf, hcand, -, hall⟩ := hc
  have hmem : n ∈ order := by
    refine hr.entries n ?_
    rw [hn]
    nofun
  have hstat : stat n = some f := by
    rw [hr.stats n hmem, hn, ← hf]
    rfl
  have hothers : ∀ m ∈ order, Candidate m → m = n ∨ ∀ g, stat m = some g → g.time < f.time := by
    intro m hm hcm
    by_cases he : m = n
    · exact .inl he
    · refine .inr fun g hg => ?_
      rw [hr.stats m hm] at hg
      obtain ⟨j, hj, rfl⟩ := Option.map_eq_some_iff.mp hg
      exact (hall m j hj hcm).resolve_left he
  refine ⟨n, ?_, hstat⟩
  unfold loadNewestDump
  dsimp only
  generalize hs : (match dumpFile with
    | some n => match stat n with
      | some f => if n.length < pathMax then (f.time, n) else (0, [])
      | none => (0, [])
    | none => ((0, []) : ℤ × Bytes)) = start
  have hstart : start.1 < f.time := by
    rw [← hs]
    split
    · rename_i n'
      split
      · rename_i g hg
        split
        · exact hold n' g rfl hg
        · exact ht
      · exact ht
    · exact ht
  have hne : n ≠ [] := by
    rintro rfl
    exact absurd (List.prefix_nil.mp hcand.1) (by decide)
  rw [scan_newest hstat hcand hmem hothers hstart, if_neg hne]

end Scan

section Worlds

/-- The groups of a dump, and when it was written. -/
structure Published where
  groups : List ChildConfig
  time : ℤ

/-- The working directory, the server, if one runs, and the last dump that got its name. -/
structure World where
  dir : Dir Bytes UInt8 ℤ
  server : Option Server
  published : Option Published

/-- A server is started, loads a dump, makes a step or is killed in the middle of one. While the
disk is full a write may fail. -/
inductive Turn where
  | boot (autoDump allowExit : Bool) (t : ℤ)
  | load (newest : Bool) (dumpFile : Option Bytes) (order : List Bytes)
      (stat : Bytes → Option (File UInt8 ℤ)) (o : Oracle)
  | serve (e : Event) (full : Bool)
  | crash (e : Event) (k : ℕ) (full : Bool)

variable {P : Platform} {s u : Server} {e : Event} {g : GroupId} {w w' : World} {a : Turn}

/-- The file that the server loads before it serves clients. -/
def startFile (stat : Bytes → Option (File UInt8 ℤ)) (newest : Bool) (dumpFile : Option Bytes)
    (order : List Bytes) : Option Bytes :=
  if newest then loadNewestDump stat dumpFile order else dumpFile

def loadEvent (newest : Bool) (file : Option Bytes) (o : Oracle) : Event :=
  .callback (if newest then .loadNewest file else .loadDump file) o

/-- The last dump that got its name, after some operations of a step. -/
def publish (w : World) (s u : Server) (ops : List FileOp) : Option Published :=
  if publishes ops then some ⟨u.reg.childConfigList.map u.reg.groups, s.clock⟩ else w.published

inductive Turns (P : Platform) : World → Turn → World → Prop where
  | boot (w : World) (autoDump allowExit : Bool) (t : ℤ) (down : w.server = none) :
      Turns P w (.boot autoDump allowExit t)
        { w with server := some (initial autoDump allowExit t) }
  | load (w : World) (s u : Server) (newest : Bool) (dumpFile : Option Bytes) (order : List Bytes)
      (stat : Bytes → Option (File UInt8 ℤ)) (o : Oracle) (n : Bytes) (up : w.server = some s)
      (listing : Listing w.dir stat order) (found : startFile stat newest dumpFile order = some n)
      (step : Step P s (loadEvent newest ((stat n).map File.content) o) u) :
      Turns P w (.load newest dumpFile order stat o) { w with server := some u }
  | serve (w : World) (s u : Server) (e : Event) (full : Bool) (d : Dir Bytes UInt8 ℤ)
      (up : w.server = some s) (unloaded : e.loads = none) (step : Step P s e u)
      (ops : Execs s.clock full w.dir (opsOf s u) d) :
      Turns P w (.serve e full) ⟨d, some u, publish w s u (opsOf s u)⟩
  | crash (w : World) (s u : Server) (e : Event) (k : ℕ) (full : Bool)
      (x d : Dir Bytes UInt8 ℤ) (up : w.server = some s) (unloaded : e.loads = none)
      (step : Step P s e u) (ops : Execs s.clock full w.dir ((opsOf s u).take k) x)
      (lost : Lost x d) :
      Turns P w (.crash e k full) ⟨d, none, publish w s u ((opsOf s u).take k)⟩

/-- There is room for the dumps that are written, and a file that is loaded asks for numbers of
instances that SPWN would accept. -/
def Careful (P : Platform) (w : World) : Turn → World → Prop
  | .boot _ _ _, _ => True
  | .load newest dumpFile order stat o, _ => ∀ s n, w.server = some s →
      startFile stat newest dumpFile order = some n →
      LoadsInRange P s (loadEvent newest ((stat n).map File.content) o) s
  | .serve e full, _ => ∀ s, w.server = some s →
      Room w.dir s.clock full (opsOf s (next P s e))
  | .crash e k full, _ => ∀ s, w.server = some s →
      Room w.dir s.clock full ((opsOf s (next P s e)).take k)

theorem dumpElement_fits {j : Json} {cc : ChildConfig} (h : dumpElement j = some cc) :
    cc.ccCommand ≠ none ∧ FitInts cc := by
  cases j with
  | object l =>
    obtain ⟨c, hc, hrest⟩ := Option.bind_eq_some_iff.mp h
    split at hrest
    · cases hrest
    · rename_i hok
      cases hrest
      rw [not_or] at hok
      obtain ⟨hi, hst, hk, hu, hg, ha⟩ := fromJson_fitInts hc
      have hdefault : ∀ v d : ℤ, FitsInt v → FitsInt d → FitsInt (if v = -1 then d else v) := by
        intro v d hv hd
        split
        · exact hd
        · exact hv
      have hone : FitsInt 1 := fitsInt_of_range (by omega) (by omega)
      have hsignal : FitsInt 15 := fitsInt_of_range (by omega) (by omega)
      exact ⟨hok.1, hdefault _ _ hi hone, hdefault _ _ hst hone, hdefault _ _ hk hsignal, hu, hg,
        ha⟩
  | _ => cases h

/-- Every group of a server whose dumps keep to the range can be described by a dump. -/
theorem ranged_storable (h : ReachableBy P (LoadsInRange P) s) (hg : g ∈ s.reg.childConfigList) :
    Storable (s.reg.groups g) := by
  have hset : (settings (s.reg.groups g)).ccCommand ≠ none ∧
      FitInts (settings (s.reg.groups g)) := by
    refine reachable_settings (G := fun cc => cc.ccCommand ≠ none ∧ FitInts cc) ?_ ?_ ?_ h hg
    · intro s e u cc hq hreg
      cases hreg with
      | spwn cc ha =>
        obtain ⟨hi, hrest⟩ := acceptedSpwn_fitInts ha
        have hcount := accepted_instances ha
        unfold maxInstances at hcount
        have hn : FitsInt (startCount cc) := fitsInt_of_range (by omega) (by omega)
        have hcmd : cc.ccCommand ≠ none := accepted_command ha
        exact ⟨hcmd, hn, hrest⟩
      | dump cc hcc =>
        unfold loadedGroups at hcc
        split at hcc
        · obtain ⟨j, -, hj⟩ := mem_registeredGroups hcc
          have hfits : cc.ccCommand ≠ none ∧ FitInts cc := dumpElement_fits hj
          exact hfits
        · cases hcc
    · rintro s e u cc g - ha ⟨hcmd, hints⟩
      exact ⟨hcmd, updated_fitInts (acceptedUpdt_fitInts ha) hints⟩
    · rintro ret t cc ⟨hcmd, hints⟩
      refine ⟨?_, counted_fitInts ret t hints⟩
      unfold counted
      split
      · exact hcmd
      · split <;> exact hcmd
  exact ⟨hset.1, (reachable_inRange h hg).1, hset.2⟩

theorem stepDump_text (P : Platform) (r : Registry) : (dumpLines (groupLines P r)).flatten =
    dumpText P (r.childConfigList.map r.groups) := by
  simp [dumpLines, groupLines, dumpText, List.flatMap_def, List.map_map, Function.comp_def]

/-- The dump that was published last is the newest candidate, and describes groups that can be
described. -/
structure Stands (P : Platform) (d : Dir Bytes UInt8 ℤ) (p : Published) : Prop where
  positive : 0 < p.time
  current : Current Candidate d ⟨dumpText P p.groups, p.time⟩
  storable : ∀ cc ∈ p.groups, Storable cc

structure Sound (P : Platform) (w : World) : Prop where
  numbered : Numbered w.dir
  server : ∀ s, w.server = some s → ReachableBy P (LoadsInRange P) s
  stands : ∀ p, w.published = some p → Stands P w.dir p

theorem reachableBy_step {Q : Server → Event → Server → Prop} (h : ReachableBy P Q s)
    (hs : Step P s e u) (hq : Q s e u) : ReachableBy P Q u := by
  obtain ⟨a, b, t, h⟩ := h
  exact ⟨a, b, t, h.tail hs hq⟩

theorem unloaded_range (h : e.loads = none) : LoadsInRange P s e u := by
  intro cc hcc
  rw [loadedGroups_none h] at hcc
  cases hcc

/-- Whatever part of its operations a step carries out, the last dump stands. -/
theorem ops_stand {x : Dir Bytes UInt8 ℤ} {ops : List FileOp} {full : Bool} (hw : Sound P w)
    (up : w.server = some s) (unloaded : e.loads = none) (h : Step P s e u)
    (hroom : Room w.dir s.clock full ops) (hpre : ops <+: opsOf s u)
    (hx : Execs s.clock full w.dir ops x) :
    Numbered x ∧ ∀ p, publish w s u ops = some p → Stands P x p := by
  have hs := hw.server s up
  have hu : ReachableBy P (LoadsInRange P) u := reachableBy_step hs h (unloaded_range unloaded)
  have hidle : ops = [] → Numbered x ∧ ∀ p, publish w s u ops = some p → Stands P x p := by
    rintro rfl
    cases hx
    exact ⟨hw.numbered, hw.stands⟩
  rcases step_files (ReachableBy.linked hs) h with hnone | ⟨con, cid, payload, o, -, hops⟩
  · rw [hnone] at hpre
    exact hidle (List.prefix_nil.mp hpre)
  · rw [hops] at hpre
    obtain ⟨hnum, hcur⟩ := dump_execs hw.numbered hpre hroom hx
    refine ⟨hnum, fun p hp => ?_⟩
    unfold publish at hp
    cases hpub : publishes ops with
    | true =>
      rw [hpub] at hcur hp
      cases hp
      refine ⟨hroom.positive hpub, ?_, ?_⟩
      · rw [stepDump_text] at hcur
        exact hcur
      · intro cc hcc
        obtain ⟨g, hg, rfl⟩ := List.mem_map.mp hcc
        exact ranged_storable hu hg
    | false =>
      rw [hpub] at hcur hp
      have hold := hw.stands p hp
      exact ⟨hold.positive, hcur _ hold.current, hold.storable⟩

theorem turn_sound (hw : Sound P w) (h : Turns P w a w') (hq : Careful P w a w') :
    Sound P w' := by
  cases h with
  | boot autoDump allowExit t down =>
    refine ⟨hw.numbered, fun s hs => ?_, hw.stands⟩
    cases hs
    exact ⟨autoDump, allowExit, t, .refl _⟩
  | load s u newest dumpFile order stat o n up listing found step =>
    refine ⟨hw.numbered, fun v hv => ?_, hw.stands⟩
    cases hv
    exact reachableBy_step (hw.server s up) step (hq s n up found)
  | serve s u e full d up unloaded step ops =>
    have hroom := hq s up
    rw [← step.2] at hroom
    obtain ⟨hnum, hstands⟩ := ops_stand hw up unloaded step hroom (List.prefix_refl _) ops
    refine ⟨hnum, fun v hv => ?_, hstands⟩
    cases hv
    exact reachableBy_step (hw.server s up) step (unloaded_range unloaded)
  | crash s u e k full x d up unloaded step ops lost =>
    have hroom := hq s up
    rw [← step.2] at hroom
    obtain ⟨hnum, hstands⟩ := ops_stand hw up unloaded step hroom (List.take_prefix _ _) ops
    refine ⟨lost_numbered lost hnum, nofun, fun p hp => ?_⟩
    obtain ⟨hpos, hcur, hstor⟩ := hstands p hp
    exact ⟨hpos, lost_current lost hcur, hstor⟩

/-- A directory in which no server runs yet. -/
structure Idle (w : World) : Prop where
  numbered : Numbered w.dir
  down : w.server = none
  unpublished : w.published = none

theorem run_sound (hw : Idle w) (h : Execution (Turns P) (Careful P) w w') : Sound P w' := by
  refine h.invariant (P := Sound P) (fun _ _ _ hs hst hq => turn_sound hs hst hq) ?_
  refine ⟨hw.numbered, fun s hs => ?_, fun p hp => ?_⟩
  · cases hw.down.symm.trans hs
  · cases hw.unpublished.symm.trans hp

end Worlds

section Acknowledgements

variable {P : Platform} {s u : Server} {con : ClientId} {cid : UInt16} {payload : Bytes}
  {o : Oracle} {c : Command} {t : ℤ} {cnt n : ℕ} {lines : List Bytes} {fs : List Bool}

theorem dumpReplies_success {r : Bool × String} (h : r ∈ dumpReplies P t cnt n fs)
    (hok : r.1 = true) : r = (true, "dump successful.") := by
  have hcases : r = (false, "failure") ∨ r = (true, "dump successful.") ∨
      r = (false, "failure.") := by
    unfold dumpReplies at h
    split at h
    · rcases List.mem_append.mp h with h | h
      · split at h
        · cases h
        · exact .inl (List.mem_singleton.mp h)
      · rw [List.mem_singleton] at h
        split at h
        · exact .inr (.inl h)
        · exact .inr (.inr h)
    · exact .inl (List.mem_singleton.mp h)
  rcases hcases with rfl | rfl | rfl
  · cases hok
  · rfl
  · cases hok

/-- Success is reported for a dump that got its name. -/
theorem dumpOps_publishes
    (h : (true, "dump successful.") ∈ dumpReplies P t cnt lines.length fs) :
    publishes (dumpOps P t cnt lines fs) = true := by
  unfold dumpReplies at h
  split at h
  · rename_i hw
    obtain ⟨hlen, hhead, hall⟩ := hw
    have hlink : (fs.drop (lines.length + 3)).headD false = true := by
      by_contra hno
      rw [Bool.not_eq_true] at hno
      rw [hno] at h
      split at h <;> simp at h
    have hgo : ¬ (pathMax ≤ (dumpTmpName P t cnt).length ∨ fs.headD false = false) := by
      rintro (hlong | hno)
      · omega
      · cases hhead.symm.trans hno
    rw [drop_two] at hall
    have hends : (fs.tail.tail.drop lines.length).tail = fs.drop (lines.length + 3) := by
      rw [← drop_two, List.drop_drop, List.tail_drop]
      congr 1
      omega
    have hend : publishes (endOps (dumpTmpName P t cnt) (dumpName P t cnt)
        (fs.tail.tail.drop lines.length)) = true := by
      unfold endOps
      rw [hends, hlink, if_pos rfl]
      simp [publishes]
    unfold dumpOps
    rw [if_neg hgo, if_pos hall, publishes, List.any_cons, List.any_cons]
    change (false || (false || publishes (_ ++ _))) = true
    rw [publishes_append, hend]
    simp
  · simp at h

/-- The answers to a request that ends with a dump. -/
theorem dumping_answers {buf : CStr} (con : ClientId) (hl : Linked s.reg)
    (hd : UbervisorReplies.Dumps P s buf c n) : ∃ w, Answered P (statuses con (s.io.cid con)
      (dumpReplies P s.clock (s.io.dumpCnt + 1) n s.io.fileResults)) w s.io
        (runCommand P c s con buf).1.io := by
  cases hd with
  | dump =>
    have h := cDump_replied (P := P) s con
    exact ⟨_, Answers.answered h⟩
  | exit hexit hauto =>
    have h := cExit_replied (P := P) s con
    rw [exitReplies, if_pos hexit, successReplies, if_pos hauto] at h
    exact ⟨_, Answers.answered h⟩
  | spwn hcc hok hauto =>
    have h := cSpwn_replied (P := P) s con buf
    unfold spwnReplies at h
    rw [hcc] at h
    dsimp only at h
    rw [hok] at h
    dsimp only at h
    rw [successReplies, if_pos hauto] at h
    exact ⟨_, Answers.answered h⟩
  | updt hcc hg hok hauto =>
    have h := cUpdt_replied (P := P) hl con buf
    unfold updtReplies at h
    rw [hcc] at h
    dsimp only at h
    rw [hg, if_neg nofun, hok] at h
    dsimp only at h
    rw [successReplies, if_pos hauto] at h
    exact ⟨_, Answers.answered h⟩

/-- A client that is told of a successful dump has one: its file has got its name. -/
theorem acknowledged_publishes (hl : Linked s.reg)
    (h : Step P s (.callback (.request con cid payload) o) u) (hc : findCommand payload = some c)
    (hd : UbervisorReplies.Dumps P s (CStr.ofBytes (payload.drop 4)) c n)
    (hack : (con, cid, .status true (text "dump successful.")) ∈ answersOf s u) :
    publishes (opsOf s u) = true := by
  obtain ⟨hen, rfl⟩ := h
  have hcon : con ∈ s.io.clients.map ClientCon.cId := hen.2.2.1
  have hcid : (handling s con cid o).io.cid con = cid := setCid_cid hcon cid
  have hx : UbervisorReplies.Dumps P (handling s con cid o)
    (CStr.ofBytes (payload.drop 4)) c n := hd.of_same rfl rfl rfl
  have hlx : Linked (handling s con cid o).reg := hl
  obtain ⟨w, hanswered⟩ := dumping_answers con hlx hx
  obtain ⟨hreads, hlen⟩ := dumping_files con hlx hx
  obtain ⟨hans, -⟩ := request_answered hc hanswered
  obtain ⟨hops, hreg⟩ := command_files hc hreads
  rw [hans, hcid] at hack
  obtain ⟨r, hr, hsame⟩ := List.mem_map.mp hack
  have hok : r.1 = true := by
    simp only [Prod.mk.injEq, Reply.status.injEq, true_and] at hsame
    exact hsame.1
  rw [dumpReplies_success hr hok] at hr
  rw [hops]
  refine dumpOps_publishes ?_
  rw [groupLines, List.length_map, hlen]
  exact hr

end Acknowledgements

section Restarts

variable {P : Platform} {s u : Server} {w w₀ w₁ w₂ w₃ w₄ w₅ : World} {p : Published}
  {a b : Bool} {t : ℤ} {dumpFile : Option Bytes} {order : List Bytes}
  {stat : Bytes → Option (File UInt8 ℤ)} {o o' : Oracle}

/-- A server that is started again finds the last dump, and registers its groups. -/
theorem sound_restart (hw : Sound P w₁) (hp : w₁.published = some p)
    (hboot : Turns P w₁ (.boot a b t) w₂) (hload : Turns P w₂ (.load true dumpFile order stat o) w₃)
    (hold : Older stat dumpFile p.time) (hb : ReadsBack P p.groups) :
    ∃ v, w₃.server = some v ∧
      configs v.reg = (p.groups.map fun cc => restored (config cc)).reverse := by
  obtain ⟨hpos, hcur, hstor⟩ := hw.stands p hp
  cases hboot with
  | boot _ _ _ down =>
    cases hload with
    | load s u _ _ _ _ _ n up listing found step =>
      cases up
      obtain ⟨m, hm, hfile⟩ := loadNewestDump_current hcur hpos listing hold
      have hsame : n = m := Option.some.inj (found.symm.trans hm)
      subst hsame
      rw [hfile] at step
      have hu : u = (loadDump P (fresh a b t o) (some (dumpText P p.groups))).1 := step.2
      obtain ⟨-, rs, hloads, hrs⟩ := restored_groups (a := a) (b := b) (t := t) (o := o) hstor hb
      rw [← hu] at hloads
      refine ⟨u, rfl, ?_⟩
      rw [loads_configs hloads rfl, hrs]

def emptyDir : Dir Bytes UInt8 ℤ := ⟨fun _ => none, fun _ => ⟨[], 0⟩, 0, none⟩

def emptyWorld : World := ⟨emptyDir, none, none⟩

def saving : Event := dumping (List.replicate 5 true)

/-- A server before it has a group, and with one group before and after a dump. -/
@[irreducible] def clientState : Server :=
  next (dumpPlatform fullRequest) (initial false false 100) connecting
@[irreducible] def groupState : Server := dumpState fullRequest
@[irreducible] def savedState : Server := next (dumpPlatform fullRequest) groupState saving

@[irreducible] def savedDir : Dir Bytes UInt8 ℤ :=
  (execs groupState.clock emptyDir (opsOf groupState savedState)).getD emptyDir

def savedDump : Published :=
  ⟨savedState.reg.childConfigList.map savedState.reg.groups, groupState.clock⟩

/-- The next second, in which a second dump is not finished. -/
@[irreducible] def laterState : Server := next (dumpPlatform fullRequest) savedState (.clock 101)
@[irreducible] def tornState : Server := next (dumpPlatform fullRequest) laterState saving

@[irreducible] def tornOps : List FileOp := (opsOf laterState tornState).take 3

@[irreducible] def tornDir : Dir Bytes UInt8 ℤ :=
  (execs laterState.clock savedDir tornOps).getD emptyDir

def lostDir : Dir Bytes UInt8 ℤ := tornDir.torn 1 1

def lostStat (n : Bytes) : Option (File UInt8 ℤ) := (lostDir.names n).map lostDir.files

def lostOrder : List Bytes :=
  (opsOf groupState savedState).flatMap Op.brings ++ tornOps.flatMap Op.brings

@[irreducible] def foundDump : Bytes := (loadNewestDump lostStat none lostOrder).getD []

/-- The file that the new server finds. -/
@[irreducible] def foundEvent : Event :=
  loadEvent true ((lostStat foundDump).map File.content) (starting [])

@[irreducible] def restoredState : Server :=
  next (dumpPlatform fullRequest) (initial false false 200) foundEvent

theorem groupState_facts :
    Enabled (initial false false 100) connecting ∧
      Enabled clientState (asking "SPWN" fullRequest []) ∧
      opsOf (initial false false 100) clientState = [] ∧ opsOf clientState groupState = [] := by
  decide +kernel

/-- The first dump is finished, and its client is told so. -/
theorem savedState_facts :
    Enabled groupState saving ∧ 0 < groupState.clock ∧
      (execs groupState.clock emptyDir (opsOf groupState savedState)).isSome ∧
      publishes (opsOf groupState savedState) = true ∧
      (0, 1, .status true (text "dump successful.")) ∈ answersOf groupState savedState ∧
      savedDump.groups = [createdGroup fullRequest] ∧ opsOf savedState laterState = [] := by
  decide +kernel

/-- The second one is not finished, and its file is open when the server is killed. -/
theorem tornState_facts :
    Enabled laterState saving ∧
      (execs laterState.clock savedDir tornOps).isSome ∧ (tornDir.stream.map Opened.file) = some 1 ∧
      ¬ publishes tornOps = true ∧
      (tornOps.all fun op =>
        match op with
        | .create n => savedDir.names n = none
        | _ => true) = true := by
  decide +kernel

theorem restoredState_facts : (loadNewestDump lostStat none lostOrder).isSome ∧
    Enabled (initial false false 200) foundEvent := by
  decide +kernel

theorem emptyWorld_idle : Idle emptyWorld := ⟨nofun, rfl, rfl⟩

theorem some_getD {α : Type*} {x : Option α} {d : α} (h : x.isSome) : x = some (x.getD d) := by
  obtain ⟨y, rfl⟩ := Option.isSome_iff_exists.mp h
  rfl

/-- A step that leaves the directory alone. -/
theorem idle_serve {P : Platform} {w : World} {s u : Server} {e : Event} (up : w.server = some s)
    (unloaded : e.loads = none) (h : Step P s e u) (hops : opsOf s u = []) :
    Turns P w (.serve e false) ⟨w.dir, some u, w.published⟩ ∧
      Careful P w (.serve e false) ⟨w.dir, some u, w.published⟩ := by
  constructor
  · have hexecs : Execs s.clock false w.dir (opsOf s u) w.dir := by
      rw [hops]
      exact .nil _
    have hturn := Turns.serve w s u e false w.dir up unloaded h hexecs
    rw [hops] at hturn
    exact hturn
  · intro v hv
    obtain rfl : s = v := Option.some.inj (up.symm.trans hv)
    rw [← h.2, hops]
    exact room_idle

theorem savedState_step : Step (dumpPlatform fullRequest) groupState saving savedState := by
  obtain ⟨hen, -⟩ := savedState_facts
  unfold savedState
  exact ⟨hen, rfl⟩

theorem laterState_step : Step (dumpPlatform fullRequest) savedState (.clock 101) laterState := by
  unfold laterState
  exact ⟨trivial, rfl⟩

theorem tornState_step : Step (dumpPlatform fullRequest) laterState saving tornState := by
  obtain ⟨hen, -⟩ := tornState_facts
  unfold tornState
  exact ⟨hen, rfl⟩

theorem savedDir_execs :
    Execs groupState.clock false emptyDir (opsOf groupState savedState) savedDir := by
  obtain ⟨-, -, hsome, -⟩ := savedState_facts
  unfold savedDir
  exact execs_sound (some_getD hsome)

theorem tornDir_execs : Execs laterState.clock true savedDir tornOps tornDir := by
  obtain ⟨-, hsome, -⟩ := tornState_facts
  unfold tornDir
  exact execs_sound (some_getD hsome)

theorem lostDir_lost : Lost tornDir lostDir := by
  obtain ⟨-, -, hopen, -⟩ := tornState_facts
  obtain ⟨o, ho, hfile⟩ := Option.map_eq_some_iff.mp hopen
  have hlost := Lost.torn tornDir o 1 ho
  rw [hfile] at hlost
  exact hlost

theorem clientState_step :
    Step (dumpPlatform fullRequest) (initial false false 100) connecting clientState := by
  obtain ⟨hen, -⟩ := groupState_facts
  unfold clientState
  exact ⟨hen, rfl⟩

theorem groupState_step : Step (dumpPlatform fullRequest) clientState
    (asking "SPWN" fullRequest []) groupState := by
  obtain ⟨-, hen, -⟩ := groupState_facts
  refine ⟨hen, ?_⟩
  unfold groupState clientState
  rfl

theorem groupState_run :
    Execution (Turns (dumpPlatform fullRequest)) (Careful (dumpPlatform fullRequest)) emptyWorld
      ⟨emptyDir, some groupState, none⟩ := by
  have hboot : Turns (dumpPlatform fullRequest) emptyWorld (.boot false false 100)
    ⟨emptyDir, some (initial false false 100), none⟩ := .boot emptyWorld _ _ _ rfl
  obtain ⟨-, -, hquiet, hsilent⟩ := groupState_facts
  obtain ⟨hconnect, hcq⟩ := idle_serve (w := ⟨emptyDir, some (initial false false 100), none⟩)
    rfl rfl clientState_step hquiet
  obtain ⟨hspwn, hsq⟩ := idle_serve (w := ⟨emptyDir, some clientState, none⟩)
    rfl rfl groupState_step hsilent
  exact ((Execution.single hboot trivial).tail hconnect hcq).tail hspwn hsq

theorem savedState_turn : Turns (dumpPlatform fullRequest) ⟨emptyDir, some groupState, none⟩
    (.serve saving false) ⟨savedDir, some savedState, some savedDump⟩ := by
  obtain ⟨-, -, -, hlink, -⟩ := savedState_facts
  have hpub : publish ⟨emptyDir, some groupState, none⟩ groupState savedState
      (opsOf groupState savedState) = some savedDump := if_pos hlink
  rw [← hpub]
  exact .serve _ _ _ _ _ _ rfl rfl savedState_step savedDir_execs

theorem savedState_careful : Careful (dumpPlatform fullRequest) ⟨emptyDir, some groupState, none⟩
    (.serve saving false) ⟨savedDir, some savedState, some savedDump⟩ := by
  intro s hs
  obtain rfl : groupState = s := Option.some.inj hs
  obtain ⟨-, hpos, -⟩ := savedState_facts
  rw [← savedState_step.2]
  exact ⟨fun _ _ => rfl, fun _ => rfl, fun _ => hpos, fun _ => nofun⟩

theorem laterState_turn : Turns (dumpPlatform fullRequest)
      ⟨savedDir, some savedState, some savedDump⟩ (.serve (.clock 101) false)
      ⟨savedDir, some laterState, some savedDump⟩ ∧
    Careful (dumpPlatform fullRequest) ⟨savedDir, some savedState, some savedDump⟩
      (.serve (.clock 101) false) ⟨savedDir, some laterState, some savedDump⟩ := by
  obtain ⟨-, -, -, -, -, -, hquiet⟩ := savedState_facts
  exact idle_serve (w := ⟨savedDir, some savedState, some savedDump⟩) rfl rfl laterState_step
    hquiet

theorem tornOps_take : (opsOf laterState tornState).take 3 = tornOps := by
  unfold tornOps
  rfl

theorem tornState_turn : Turns (dumpPlatform fullRequest)
    ⟨savedDir, some laterState, some savedDump⟩ (.crash saving 3 true)
      ⟨lostDir, none, some savedDump⟩ := by
  obtain ⟨-, -, -, hlink, -⟩ := tornState_facts
  have hpub : publish ⟨savedDir, some laterState, some savedDump⟩ laterState tornState
      ((opsOf laterState tornState).take 3) = some savedDump := by
    rw [tornOps_take]
    exact if_neg hlink
  have hexecs := tornDir_execs
  rw [← tornOps_take] at hexecs
  have hturn := Turns.crash ⟨savedDir, some laterState, some savedDump⟩ laterState tornState saving
    3 true tornDir lostDir rfl rfl tornState_step hexecs lostDir_lost
  rw [hpub] at hturn
  exact hturn

theorem tornState_careful :
    Careful (dumpPlatform fullRequest) ⟨savedDir, some laterState, some savedDump⟩
      (.crash saving 3 true) ⟨lostDir, none, some savedDump⟩ := by
  intro s hs
  obtain rfl : laterState = s := Option.some.inj hs
  obtain ⟨-, -, -, hlink, hall⟩ := tornState_facts
  rw [← tornState_step.2, tornOps_take]
  refine ⟨fun n hn => ?_, fun hpub => absurd hpub hlink, fun hpub => absurd hpub hlink,
    fun hpub => absurd hpub hlink⟩
  have hone := List.all_eq_true.mp hall _ hn
  exact of_decide_eq_true hone

theorem lostDir_listing : Listing lostDir lostStat lostOrder := by
  refine ⟨fun n hn => ?_, fun _ _ => rfl⟩
  have hsame : lostDir.names = tornDir.names := rfl
  rw [hsame] at hn
  rcases execs_names tornDir_execs hn with hsaved | hnew
  · rcases execs_names savedDir_execs hsaved with hold | hnew
    · exact absurd rfl hold
    · exact List.mem_append_left _ hnew
  · exact List.mem_append_right _ hnew

theorem restoredState_turn : Turns (dumpPlatform fullRequest)
    ⟨lostDir, some (initial false false 200), some savedDump⟩
    (.load true none lostOrder lostStat (starting []))
      ⟨lostDir, some restoredState, some savedDump⟩ := by
  obtain ⟨hsome, hen⟩ := restoredState_facts
  have hfound : startFile lostStat true none lostOrder = some foundDump := by
    rw [startFile, if_pos rfl]
    unfold foundDump
    exact some_getD hsome
  have hstep : Step (dumpPlatform fullRequest) (initial false false 200)
      (loadEvent true ((lostStat foundDump).map File.content) (starting [])) restoredState := by
    unfold restoredState
    unfold foundEvent at hen ⊢
    exact ⟨hen, rfl⟩
  exact .load _ _ _ _ _ _ _ _ _ rfl lostDir_listing hfound hstep

theorem savedDump_readsBack : ReadsBack (dumpPlatform fullRequest) savedDump.groups := by
  obtain ⟨-, -, -, -, -, hgroups, -⟩ := savedState_facts
  rw [hgroups]
  exact ⟨by decide +kernel, dumpPlatform_parses fullRequest⟩

/-- No dump gets its name. -/
def Undumped (P : Platform) (w : World) (a : Turn) (w' : World) : Prop :=
  Careful P w a w' ∧ w'.published = w.published

/-- What a client was told to be dumped is there after a crash, as long as no other dump takes
its place. -/
theorem acknowledged_restored {con : ClientId} {cid : UInt16} {payload : Bytes} {c : Command}
    {n : ℕ} {full : Bool} (hw : Idle w₀) (h : Execution (Turns P) (Careful P) w₀ w₁)
    (hs : w₁.server = some s)
    (hserve : Turns P w₁ (.serve (.callback (.request con cid payload) o) full) w₂)
    (hq : Careful P w₁ (.serve (.callback (.request con cid payload) o) full) w₂)
    (hu : w₂.server = some u) (hc : findCommand payload = some c)
    (hd : UbervisorReplies.Dumps P s (CStr.ofBytes (payload.drop 4)) c n)
    (hack : (con, cid, .status true (text "dump successful.")) ∈ answersOf s u)
    (hrest : Execution (Turns P) (Undumped P) w₂ w₃)
    (hboot : Turns P w₃ (.boot a b t) w₄)
    (hload : Turns P w₄ (.load true dumpFile order stat o') w₅)
    (hold : Older stat dumpFile s.clock)
    (hb : ReadsBack P (u.reg.childConfigList.map u.reg.groups)) :
    ∃ v, w₅.server = some v ∧ configs v.reg = ((configs u.reg).map restored).reverse := by
  have hw₁ := run_sound hw h
  have hw₂ := turn_sound hw₁ hserve hq
  have hpub : w₂.published = some ⟨u.reg.childConfigList.map u.reg.groups, s.clock⟩ := by
    cases hserve with
    | serve s' u' _ _ d up unloaded step ops =>
      cases hs.symm.trans up
      cases hu
      have hl : Linked s.reg := ReachableBy.linked (hw₁.server s hs)
      exact if_pos (acknowledged_publishes hl step hc hd hack)
  have hlast : Sound P w₃ ∧ w₃.published = w₂.published := by
    refine hrest.invariant (P := fun w => Sound P w ∧ w.published = w₂.published) ?_ ⟨hw₂, rfl⟩
    rintro w a w' ⟨hsound, hsame⟩ hturn ⟨hcareful, hkept⟩
    exact ⟨turn_sound hsound hturn hcareful, hkept.trans hsame⟩
  obtain ⟨v, hv, hconfigs⟩ :=
    sound_restart hlast.1 (hlast.2.trans hpub) hboot hload hold hb
  refine ⟨v, hv, hconfigs.trans ?_⟩
  rw [configs, List.map_map, List.map_map]
  rfl

theorem savedState_restored :
    ∃ v, (⟨lostDir, some restoredState, some savedDump⟩ : World).server = some v ∧
      configs v.reg = ((configs savedState.reg).map restored).reverse := by
  have hlater : Execution (Turns (dumpPlatform fullRequest)) (Undumped (dumpPlatform fullRequest))
      ⟨savedDir, some savedState, some savedDump⟩ ⟨savedDir, some laterState, some savedDump⟩ :=
    .single laterState_turn.1 ⟨laterState_turn.2, rfl⟩
  have hcrashed := hlater.tail tornState_turn
    ⟨tornState_careful, rfl⟩
  have hold : Older lostStat none groupState.clock := nofun
  obtain ⟨-, -, -, -, htold, -⟩ := savedState_facts
  exact acknowledged_restored emptyWorld_idle groupState_run rfl savedState_turn
    savedState_careful rfl (c := .dump) (by decide +kernel) .dump htold hcrashed
    (.boot _ false false 200 rfl) restoredState_turn hold savedDump_readsBack

end Restarts

end UbervisorRecovery
