import Ubervisor.Transcripts

/-! # Answers

What a step writes to the connections, in full, and which of it answers the request in hand.
The functions that notify, log, signal and spawn answer nothing. A dump may answer twice. -/
namespace UbervisorAnswers

open UbervisorRuns
open UbervisorValues
open UbervisorChildConfigs
open UbervisorKernel
open UbervisorRegistry
open UbervisorChunks
open UbervisorReadCallback (Command findCommand)
open UbervisorServer
open UbervisorCommands
open UbervisorEvents
open UbervisorSupervision
open UbervisorSlots
open UbervisorUpdates
open UbervisorEffects
open UbervisorOutputs
open UbervisorTranscripts

abbrev Answer := ClientId × UInt16 × Reply

def answerOf : Output → Option Answer
  | .reply con cid r => some (con, cid, r)
  | _ => none

def isSent : Output → Bool
  | .reply .. | .notify _ => true
  | _ => false

/-- The bytes of an output that go to a connection. -/
def bytesTo (P : Platform) (subs : List Subscription) (con : ClientId) : Output → Bytes
  | .reply con' cid r => if con = con' then messageBytes cid (P.jsonPrint r.json) else []
  | .notify n => (subs.filter fun s => s.sIdent &&& n.ident ≠ 0).flatMap fun s =>
      if con = s.sClient then notificationFrame s.sCid (n.payload P) else []
  | _ => []

/-- Bytes are appended to the output buffers of connections. -/
def grown (b : ClientId → Bytes) (cs : List ClientCon) : List ClientCon :=
  cs.map fun c => { c with output := c.output ++ b c.cId }

/-- The outputs `l` are put out, and each connection is sent its share of them. -/
structure Writes (P : Platform) (l : List Output) (io io' : Io) : Prop where
  out : io'.out = io.out ++ l
  subs : io'.subscriptions = io.subscriptions
  clients : io'.clients =
    grown (fun con => l.flatMap (bytesTo P io.subscriptions con)) io.clients

/-- The answers in what is written, and whether a value is read that was never assigned. -/
def Answers (P : Platform) (rs : List Answer) (w : Prop) (io io' : Io) : Prop :=
  ∃ l, Writes P l io io' ∧ l.filterMap answerOf = rs ∧ (.wild ∈ l ↔ w)

/-- Nothing is answered, and no file is touched. -/
structure Quiet (P : Platform) (w : Prop) (io io' : Io) : Prop where
  answers : Answers P [] w io io'
  files : io'.fileResults = io.fileResults
  dumps : io'.dumpCnt = io.dumpCnt

section Relations

variable {P : Platform} {l l' : List Output} {rs rs' : List Answer} {w w' : Prop}
  {io io' io'' : Io} {con : ClientId}

theorem grown_grown (b b' : ClientId → Bytes) (cs : List ClientCon) :
    grown b' (grown b cs) = grown (fun con => b con ++ b' con) cs := by
  rw [grown, grown, grown, List.map_map]
  refine List.map_congr_left fun c _ => ?_
  rw [Function.comp_apply]
  dsimp only
  rw [List.append_assoc]

theorem grown_nil (cs : List ClientCon) : grown (fun _ => []) cs = cs := by
  simp [grown]

theorem Writes.refl : Writes P [] io io where
  out := (List.append_nil _).symm
  subs := rfl
  clients := (grown_nil _).symm

theorem Writes.trans (h : Writes P l io io') (k : Writes P l' io' io'') :
    Writes P (l ++ l') io io'' where
  out := by rw [k.out, h.out, List.append_assoc]
  subs := k.subs.trans h.subs
  clients := by
    rw [k.clients, h.clients, h.subs, grown_grown]
    simp only [List.flatMap_append]

/-- An output that no connection is sent. -/
theorem Writes.emit {o : Output} (ho : ∀ con, bytesTo P io.subscriptions con o = []) :
    Writes P [o] io (io.emit o) where
  out := rfl
  subs := rfl
  clients := by
    simp only [List.flatMap_singleton, ho]
    exact (grown_nil _).symm

theorem write_clients (io : Io) (con : ClientId) (b : Bytes) : (io.write con b).clients =
    grown (fun c => if c = con then b else []) io.clients := by
  refine List.map_congr_left fun c _ => ?_
  by_cases hc : c.cId = con
  · simp only [if_pos hc]
  · simp only [if_neg hc, List.append_nil]

theorem Writes.reply (con : ClientId) (r : Reply) :
    Writes P [.reply con (io.cid con) r] io (io.reply P con r) where
  out := rfl
  subs := rfl
  clients := by
    rw [Io.reply, write_clients]
    simp only [List.flatMap_singleton]
    rfl

/-- What is written to each of the subscribers. -/
theorem foldl_write (subs : List Subscription) (frame : Subscription → Bytes) (io : Io) :
    (subs.foldl (fun io s => io.write s.sClient (frame s)) io).clients =
      grown (fun con => subs.flatMap fun s => if con = s.sClient then frame s else [])
        io.clients := by
  induction subs generalizing io with
  | nil => exact (grown_nil _).symm
  | cons s subs ih =>
    rw [List.foldl_cons, ih, write_clients, grown_grown]
    rfl

theorem foldl_write_keeps (subs : List Subscription) (frame : Subscription → Bytes) (io : Io) :
    (subs.foldl (fun io s => io.write s.sClient (frame s)) io).subscriptions =
        io.subscriptions ∧
      (subs.foldl (fun io s => io.write s.sClient (frame s)) io).fileResults = io.fileResults ∧
      (subs.foldl (fun io s => io.write s.sClient (frame s)) io).dumpCnt = io.dumpCnt := by
  induction subs generalizing io with
  | nil => exact ⟨rfl, rfl, rfl⟩
  | cons s subs ih => exact ih _

theorem Writes.notify (n : Notification) : Writes P [.notify n] io (io.notify P n) where
  out := notify_out io n
  subs := (foldl_write_keeps _ _ _).1
  clients := by
    rw [Io.notify, foldl_write]
    simp only [List.flatMap_singleton]
    rfl

theorem Answers.trans (h : Answers P rs w io io') (k : Answers P rs' w' io' io'') :
    Answers P (rs ++ rs') (w ∨ w') io io'' := by
  obtain ⟨l, hl, rfl, hw⟩ := h
  obtain ⟨m, hm, rfl, hw'⟩ := k
  exact ⟨l ++ m, hl.trans hm, List.filterMap_append, by rw [List.mem_append, hw, hw']⟩

theorem Answers.congr (h : Answers P rs w io io') (hw : w ↔ w') : Answers P rs w' io io' := by
  obtain ⟨l, hl, hrs, hwild⟩ := h
  exact ⟨l, hl, hrs, hwild.trans hw⟩

theorem Answers.reply (con : ClientId) (r : Reply) :
    Answers P [(con, io.cid con, r)] False io (io.reply P con r) :=
  ⟨_, .reply con r, rfl, by simp⟩

/-- Which cid a connection has does not change. -/
theorem Writes.cid (h : Writes P l io io') (con : ClientId) : io'.cid con = io.cid con := by
  rw [Io.cid, Io.cid, h.clients, grown, List.find?_map, Option.map_map]
  rfl

theorem Answers.cid (h : Answers P rs w io io') (con : ClientId) : io'.cid con = io.cid con := by
  obtain ⟨l, hl, -⟩ := h
  exact hl.cid con

theorem Quiet.refl : Quiet P False io io :=
  ⟨⟨[], .refl, rfl, by simp⟩, rfl, rfl⟩

theorem Quiet.trans (h : Quiet P w io io') (k : Quiet P w' io' io'') :
    Quiet P (w ∨ w') io io'' :=
  ⟨h.answers.trans k.answers, k.files.trans h.files, k.dumps.trans h.dumps⟩

theorem Quiet.congr (h : Quiet P w io io') (hw : w ↔ w') : Quiet P w' io io' :=
  ⟨h.answers.congr hw, h.files, h.dumps⟩

theorem Quiet.before (h : Quiet P False io io') (k : Quiet P w io' io'') : Quiet P w io io'' :=
  (h.trans k).congr (by rw [false_or])

theorem Quiet.after (h : Quiet P w io io') (k : Quiet P False io' io'') : Quiet P w io io'' :=
  (h.trans k).congr (by rw [or_false])

theorem Answers.before (h : Quiet P w io io') (k : Answers P rs False io' io'') :
    Answers P rs w io io'' := (h.answers.trans k).congr (by rw [or_false])

theorem Answers.after (h : Answers P rs False io io') (k : Quiet P w io' io'') :
    Answers P rs w io io'' := by
  have hk := (h.trans k.answers).congr (by rw [false_or])
  rwa [List.append_nil] at hk

/-- An output that no connection is sent. -/
theorem Quiet.emit {o : Output} (ho : isSent o = false) (hw : .wild = o ↔ w) :
    Quiet P w io (io.emit o) := by
  have hbytes : ∀ con, bytesTo P io.subscriptions con o = [] := by
    intro con
    cases o <;> first | rfl | cases ho
  have ha : answerOf o = none := by
    cases o <;> first | rfl | cases ho
  exact ⟨⟨[o], .emit hbytes, List.filterMap_cons_none ha, by simpa using hw⟩, rfl, rfl⟩

theorem Quiet.plain (o : Output) (ho : isSent o = false) (hw : .wild ≠ o) :
    Quiet P False io (io.emit o) := .emit ho (iff_false_intro hw)

theorem Answers.emit (h : Answers P rs w io io') (o : Output) (ho : isSent o = false)
    (hw : .wild ≠ o) : Answers P rs w io (io'.emit o) := by
  have hplain : Quiet P False io' (io'.emit o) := .plain o ho hw
  have he := (h.trans hplain.answers).congr (by rw [or_false])
  rwa [List.append_nil] at he

/-- Neither output nor connections change. -/
theorem Answers.same (h : Answers P rs w io io') (ho : io''.out = io'.out)
    (hs : io''.subscriptions = io'.subscriptions) (hc : io''.clients = io'.clients) :
    Answers P rs w io io'' := by
  obtain ⟨l, hl, hrs, hw⟩ := h
  exact ⟨l, ⟨ho.trans hl.out, hs.trans hl.subs, hc.trans hl.clients⟩, hrs, hw⟩

/-- One more reply, to the request in hand. -/
theorem Answers.status (h : Answers P rs w io io') (con : ClientId) (code : Bool) (msg : String) :
    Answers P (rs ++ [(con, io.cid con, .status code (text msg))]) w io
      (io'.sendStatusMsg P con code msg) := by
  have hreply := (h.trans (.reply con (.status code (text msg)))).congr (by rw [or_false])
  rwa [h.cid] at hreply

theorem Answers.fprintf (h : Answers P rs w io io') (b : Bytes) :
    Answers P rs w io (io'.fprintf b).2 := by
  have hfile : Answers P rs w io io'.fileResult.2 := h.same rfl rfl rfl
  exact hfile.emit (.fprintf io'.fileResult.1 b) rfl nofun

theorem Quiet.notify (n : Notification) : Quiet P False io (io.notify P n) where
  answers := ⟨_, .notify n, rfl, by simp⟩
  files := (foldl_write_keeps _ _ _).2.1
  dumps := (foldl_write_keeps _ _ _).2.2

/-- The announcement of a line that is too long is not too long. -/
theorem tooBig_fits (t : ℤ) : ¬ bufferSiz ≤ (Io.logLine P t Io.tooBig).length := by
  have ht := P.logTime_lt t
  have hlen : (text " -- " ++ Io.tooBig.take (bufferSiz - 1)).length = 44 := by decide
  rw [Io.logLine, List.append_assoc, List.length_append, hlen, bufferSiz]
  omega

theorem Quiet.slog (t : ℤ) (msg : Bytes) (io : Io) : Quiet P False io (Io.slog P t 2 msg io) := by
  have hline : ∀ (b line : Bytes) (x : Io),
      Quiet P False x ((x.emit (.logWrite b)).notify P (.log line)) := by
    intro b line x
    have hwrite : Quiet P False x (x.emit (.logWrite b)) := .plain _ rfl nofun
    exact hwrite.after (.notify _)
  unfold Io.slog
  split
  · refine Quiet.before ?_ (hline _ _ _)
    unfold Io.slog
    rw [if_neg (tooBig_fits t)]
    exact hline _ _ _
  · exact hline _ _ _

end Relations

section Processes

variable {P : Platform} {s : Server} {g : GroupId} {i : ℕ} {site : SpawnSite}

theorem slog_quiet (s : Server) (msg : Bytes) : Quiet P False s.io (slog P s msg).io :=
  .slog s.clock msg s.io

theorem noteUnset_quiet (s : Server) (unset : Bool) :
    Quiet P (unset = true) s.io (noteUnset s unset).io := by
  cases unset with
  | false => exact Quiet.refl.congr (by decide)
  | true => exact .emit rfl (iff_of_true rfl rfl)

theorem killAll_quiet (s : Server) (sig : ℤ) (pids : List Pid) :
    Quiet P False s.io (killAll s sig pids).io := by
  have hall : ∀ (l : List Pid) (io : Io),
      Quiet P False io (l.foldl (fun io pid => io.emit (.kill pid sig)) io) := by
    intro l
    induction l with
    | nil => exact fun _ => .refl
    | cons pid l ih =>
      intro io
      have hkill : Quiet P False io (io.emit (.kill pid sig)) := .plain _ rfl nofun
      exact hkill.before (ih _)
  exact hall pids s.io

theorem spawn_quiet (site : SpawnSite) (s : Server) (g : GroupId) (i : ℕ) :
    Quiet P False s.io (spawn P site s g i).io := by
  unfold spawn takeOutcome
  dsimp only
  split
  · exact .refl
  · rename_i a b _
    have hpair : Quiet P False s.io (s.io.emit (.socketpair a b)) := .plain _ rfl nofun
    split
    · exact hpair
    · refine Quiet.before ?_ (slog_quiet _ _)
      have hclose := hpair.before (.plain (.close b) rfl nofun)
      simp only [Server.withReg_io, Server.record_io, Server.withIo_io]
      split
      · exact hclose.before (.plain (.close a) rfl nofun)
      · exact hclose

/-- Turns that answer nothing. -/
theorem loop_quiet {f : Server → ℕ → Server} (hf : ∀ s i, Quiet P False s.io (f s i).io)
    (l : List ℕ) (s : Server) : Quiet P False s.io (l.foldl f s).io := by
  induction l generalizing s with
  | nil => exact .refl
  | cons i l ih => exact (hf s i).before (ih _)

theorem spawnRange_quiet (site : SpawnSite) (s : Server) (g : GroupId) (a n : ℕ) :
    Quiet P False s.io (spawnRange P site s g a n).io :=
  loop_quiet (fun s i => spawn_quiet site s g i) _ s

theorem growSlot_quiet (s : Server) (i : ℕ) : Quiet P False s.io (growSlot P g s i).io := by
  unfold growSlot
  split
  · exact spawn_quiet _ _ _ _
  · exact .refl

theorem shrinkSlot_quiet (s : Server) (i : ℕ) :
    Quiet P ((s.reg.groups g).cell i = .unset) s.io (shrinkSlot g s i).io := by
  unfold shrinkSlot
  split
  · rename_i h
    exact Quiet.refl.congr (by simp [h])
  · rename_i h
    exact Quiet.refl.congr (by simp [h])
  · rename_i h
    exact .emit rfl (iff_of_true rfl h)

theorem startSlot_quiet (s : Server) (i : ℕ) :
    Quiet P ((s.reg.groups g).cell i = .unset) s.io (startSlot P g s i).io := by
  unfold startSlot
  split
  · rename_i h
    have hcell : (s.reg.groups g).cell i = .null := h
    exact (spawn_quiet _ _ _ _).congr (by simp [hcell])
  · rename_i p h
    have hcell : (s.reg.groups g).cell i = .proc p := h
    exact Quiet.refl.congr (by simp [hcell])
  · rename_i h
    exact .emit rfl (iff_of_true rfl h)

theorem cell_of_cellAt {s u : Server} {j : ℕ} (h : cellAt u g j = cellAt s g j) :
    (u.reg.groups g).cell j = (s.reg.groups g).cell j := by
  unfold cellAt at h
  rw [ChildConfig.cell, ChildConfig.cell, List.getD_eq_getElem?_getD, List.getD_eq_getElem?_getD, h]

/-- Turns each of which reads one slot and leaves the others alone. -/
theorem slotLoop_quiet {f : Server → ℕ → Server}
    (hf : ∀ s i, Quiet P ((s.reg.groups g).cell i = .unset) s.io (f s i).io)
    (hkeep : ∀ s i j, j ≠ i → cellAt (f s i) g j = cellAt s g j) {l : List ℕ} (hl : l.Nodup)
    (s : Server) :
    Quiet P (∃ i ∈ l, (s.reg.groups g).cell i = .unset) s.io (l.foldl f s).io := by
  induction l generalizing s with
  | nil => exact Quiet.refl.congr (by simp)
  | cons i l ih =>
    obtain ⟨hi, hl⟩ := List.nodup_cons.mp hl
    refine ((hf s i).trans (ih hl (f s i))).congr ?_
    rw [List.exists_mem_cons_iff]
    refine or_congr_right (exists_congr fun j => and_congr_right fun hj => ?_)
    rw [cell_of_cellAt (hkeep s i j fun he => hi (he ▸ hj))]

end Processes

section Updating

variable {P : Platform} {cc : ChildConfig} {g : GroupId} {s : Server} {u : Server × Bool}

theorem updateStr_quiet {fld : StrField} (u : Server × Bool) :
    Quiet P False u.1.io (updateStr P cc g fld u).1.io := by
  unfold updateStr
  split
  · exact .refl
  · split
    · exact .refl
    · exact slog_quiet _ _

theorem updateKillsig_quiet (cc : ChildConfig) (g : GroupId) (u : Server × Bool) :
    Quiet P False u.1.io (updateKillsig P cc g u).1.io := by
  unfold updateKillsig
  dsimp only
  split
  · exact slog_quiet _ _
  · exact .refl

theorem updateAge_quiet (cc : ChildConfig) (g : GroupId) (u : Server × Bool) :
    Quiet P False u.1.io (updateAge P cc g u).1.io := by
  unfold updateAge
  dsimp only
  split
  · exact slog_quiet _ _
  · exact .refl

theorem updateStrings_quiet (cc : ChildConfig) (g : GroupId) (u : Server × Bool) :
    Quiet P False u.1.io (updateStrings P cc g u).1.io := by
  have hfield : ∀ (fld : StrField) (v : Server × Bool), Quiet P False u.1.io v.1.io →
      Quiet P False u.1.io (updateStr P cc g fld v).1.io :=
    fun fld v hv => hv.before (updateStr_quiet v)
  unfold updateStrings
  dsimp only
  apply hfield
  apply hfield
  apply hfield
  apply hfield
  apply hfield
  exact .refl

theorem shrinkSlot_keeps (s : Server) (i j : ℕ) (hj : j ≠ i) :
    cellAt (shrinkSlot g s i) g j = cellAt s g j := by
  have h := shrinkSlot_emptied (K := fun _ => True) g s i
  exact h.outside j (by omega)

theorem startSlot_keeps (s : Server) (i j : ℕ) (hj : j ≠ i) :
    cellAt (startSlot P g s i) g j = cellAt s g j :=
  (startSlot_started P g s i).outside j (by omega)

theorem growLoop_quiet (l : List ℕ) (s : Server) :
    Quiet P False s.io (l.foldl (growSlot P g) s).io :=
  loop_quiet (fun s i => growSlot_quiet s i) l s

theorem shrinkLoop_quiet {l : List ℕ} (hl : l.Nodup) (s : Server) :
    Quiet P (∃ i ∈ l, (s.reg.groups g).cell i = .unset) s.io (l.foldl (shrinkSlot g) s).io :=
  slotLoop_quiet (fun s i => shrinkSlot_quiet s i) shrinkSlot_keeps hl s

theorem startLoop_quiet {l : List ℕ} (hl : l.Nodup) (s : Server) :
    Quiet P (∃ i ∈ l, (s.reg.groups g).cell i = .unset) s.io (l.foldl (startSlot P g) s).io :=
  slotLoop_quiet (fun s i => startSlot_quiet s i) startSlot_keeps hl s

/-- UPDT reads the slots that it gives up. -/
theorem updateInstances_quiet (cc : ChildConfig) (g : GroupId) (u : Server × Bool) :
    Quiet P (∃ i : ℕ, (i : ℤ) < (u.1.reg.groups g).ccInstances ∧
        intOr cc.ccInstances (u.1.reg.groups g).ccInstances ≤ i ∧
        (u.1.reg.groups g).cell i = .unset)
      u.1.io (updateInstances P cc g u).1.io := by
  unfold updateInstances
  dsimp only
  by_cases hc : cc.ccInstances ≠ -1 ∧ cc.ccInstances ≠ (u.1.reg.groups g).ccInstances
  · rw [if_pos hc, intOr, if_pos hc.1]
    generalize hx : slog P u.1 _ = x
    have hlog : Quiet P False u.1.io x.io := by
      rw [← hx]
      exact slog_quiet _ _
    have hreg : x.reg = u.1.reg := by
      rw [← hx]
      rfl
    by_cases hmore : cc.ccInstances > (u.1.reg.groups g).ccInstances
    · rw [if_pos hmore]
      have hgrow : Quiet P False u.1.io (resizeGroup g x cc.ccInstances).io := hlog
      refine (hgrow.before (growLoop_quiet _ _)).congr (iff_of_false not_false ?_)
      rintro ⟨i, hi, hle, -⟩
      omega
    · rw [if_neg hmore]
      have hshrink := hlog.before (shrinkLoop_quiet (P := P) (g := g)
        (List.nodup_range' (s := cc.ccInstances.toNat)
          (n := (u.1.reg.groups g).ccInstances.toNat - cc.ccInstances.toNat)) x)
      rw [hreg] at hshrink
      refine Quiet.congr (hshrink : Quiet P _ _ (resizeGroup g _ _).io)
        (exists_congr fun i => ?_)
      rw [List.mem_range'_1, ← and_assoc]
      refine and_congr_left fun _ => ?_
      omega
  · rw [if_neg hc]
    refine Quiet.refl.congr (iff_of_false not_false ?_)
    rintro ⟨i, hi, hle, -⟩
    rw [intOr_same (decide_eq_false hc)] at hle
    omega

/-- UPDT reads the slots of a group that it starts. -/
theorem updateStatus_quiet (cc : ChildConfig) (g : GroupId) (u : Server × Bool) :
    Quiet P (Restarts cc (u.1.reg.groups g).ccStatus ∧
        ∃ i ∈ List.range (u.1.reg.groups g).ccInstances.toNat,
          (u.1.reg.groups g).cell i = .unset)
      u.1.io (updateStatus P cc g u).1.io := by
  unfold updateStatus
  dsimp only
  by_cases hc : cc.ccStatus ≠ -1 ∧ cc.ccStatus ≠ (u.1.reg.groups g).ccStatus
  · rw [if_pos hc]
    refine Quiet.after ?_ (.notify _)
    generalize hx : Server.withReg (slog P u.1 _) _ = x
    have hlog : Quiet P False u.1.io x.io := by
      rw [← hx]
      exact slog_quiet _ _
    have hcell : ∀ i, (x.reg.groups g).cell i = (u.1.reg.groups g).cell i := by
      intro i
      rw [← hx, Server.withReg_reg, setGroup_self]
      rfl
    simp only [Server.record_io, Server.withReg_io]
    by_cases hr : (u.1.reg.groups g).ccStatus ≠ statusRunning ∧ cc.ccStatus = statusRunning
    · rw [if_pos hr]
      refine (hlog.before (startLoop_quiet List.nodup_range x)).congr ?_
      simp only [hcell]
      exact (and_iff_right hr).symm
    · rw [if_neg hr]
      exact hlog.congr (iff_of_false not_false fun h => hr h.1)
  · rw [if_neg hc]
    exact Quiet.refl.congr (iff_of_false not_false fun h => hc ⟨by rw [h.1.2]; decide,
      h.1.2.trans_ne h.1.1.symm⟩)

/-- The slots that an accepted UPDT gives up or, when it starts the group, fills: it reads one
of them that was never assigned. -/
def UpdtReadsUnset (cc up : ChildConfig) : Prop :=
  ∃ i : ℕ, (i : ℤ) < up.ccInstances ∧ up.cell i = .unset ∧
    (intOr cc.ccInstances up.ccInstances ≤ i ∨ Restarts cc up.ccStatus)

/-- A group that is started again has a defined value in each slot that was added. -/
theorem reslotted_cell {n : ℤ} {v : Server} (h : Reslotted g n s v)
    (hr : (s.reg.groups g).ccStatus ≠ statusRunning) {i : ℕ} (hi : i < n.toNat) :
    (v.reg.groups g).cell i = .unset ↔
      (i : ℤ) < (s.reg.groups g).ccInstances ∧ (s.reg.groups g).cell i = .unset := by
  by_cases hold : (i : ℤ) < (s.reg.groups g).ccInstances
  · rw [cell_of_cellAt (h.kept i hi hold)]
    exact (and_iff_right hold).symm
  · have hadded := (h.added i hi (not_lt.mp hold)).2 hr
    have hcell : (v.reg.groups g).cell i = .null := by
      rw [ChildConfig.cell, List.getD_eq_getElem?_getD]
      change (cellAt v g i).getD _ = _
      rw [hadded]
      rfl
    rw [hcell]
    exact iff_of_false nofun fun h => hold h.1

theorem updateGroup_quiet (s : Server) (hl : Linked s.reg) (hg : g ∈ s.reg.childConfigList)
    (hr : updtRefusal cc = none) :
    Quiet P (UpdtReadsUnset cc (s.reg.groups g)) s.io (updateGroup P cc g s).1.io := by
  have hn : cc.ccInstances = -1 ∨ 1 ≤ cc.ccInstances := by
    unfold updtRefusal at hr
    split_ifs at hr with _ _ _ h
    omega
  have htexts := (updateStrings_quiet (P := P) cc g (s, false)).before
    (updateKillsig_quiet cc g _)
  have ht := texts_stage P cc g (s.reg.groups g).ccStatus (s, false)
  generalize hu : updateKillsig P cc g (updateStrings P cc g (s, false)) = u at ht htexts
  have hg' : g ∈ u.1.reg.childConfigList := by
    rw [ht.list]
    exact hg
  have hold : (u.1.reg.groups g).ccStatus = (s.reg.groups g).ccStatus ∧
      (u.1.reg.groups g).ccInstances = (s.reg.groups g).ccInstances := by
    have hs := congrArg ChildConfig.ccStatus ht.settings
    have hi := congrArg ChildConfig.ccInstances ht.settings
    exact ⟨hs, hi⟩
  have hcell : ∀ i, (u.1.reg.groups g).cell i = (s.reg.groups g).cell i := by
    intro i
    rw [ChildConfig.cell, ht.cells, ChildConfig.cell]
  have hslots := htexts.before (updateInstances_quiet cc g u)
  obtain ⟨hi, hre⟩ := updateInstances_stage P cc u (ht.linked hl) hg' rfl hn
  generalize hv : updateInstances P cc g u = v at hslots hi hre
  have hnew : (v.1.reg.groups g).ccStatus = (s.reg.groups g).ccStatus ∧
      (v.1.reg.groups g).ccInstances =
        intOr cc.ccInstances (s.reg.groups g).ccInstances := by
    have hs := congrArg ChildConfig.ccStatus hi.settings
    have hc := congrArg ChildConfig.ccInstances hi.settings
    rw [← hold.2]
    exact ⟨hs.trans hold.1, hc⟩
  have hstatus := (hslots.trans (updateStatus_quiet cc g v)).after
    (updateAge_quiet cc g _)
  have hgroup : updateGroup P cc g s = updateAge P cc g (updateStatus P cc g v) := by
    rw [← hv, ← hu]
    rfl
  rw [hgroup]
  refine hstatus.congr ?_
  rw [hnew.1, hnew.2, hold.2]
  simp only [hcell, List.mem_range]
  constructor
  · rintro (⟨i, hi, hle, hunset⟩ | ⟨hr, i, hi, hunset⟩)
    · exact ⟨i, hi, hunset, .inl hle⟩
    · rw [← hold.2] at hi
      have hkeep := (reslotted_cell hre (by rw [hold.1]; exact hr.1) hi).mp hunset
      rw [hold.2, hcell] at hkeep
      exact ⟨i, hkeep.1, hkeep.2, .inr hr⟩
  · rintro ⟨i, hi, hunset, hgiven⟩
    by_cases hle : intOr cc.ccInstances (s.reg.groups g).ccInstances ≤ i
    · exact .inl ⟨i, hi, hle, hunset⟩
    · have hr := hgiven.resolve_left hle
      have hlt : i < (intOr cc.ccInstances (s.reg.groups g).ccInstances).toNat := by omega
      refine .inr ⟨hr, i, hlt, ?_⟩
      rw [← hold.2] at hlt
      rw [reslotted_cell hre (by rw [hold.1]; exact hr.1) hlt, hold.2, hcell]
      exact ⟨hi, hunset⟩

end Updating

section Flags

variable {P : Platform} {cc : ChildConfig} {g : GroupId} {s u v : Server}

/-- The options of the server, whether it runs, and whether it is in `sigchld_cb`. -/
structure SameFlags (s u : Server) : Prop where
  autoDump : u.autoDump = s.autoDump
  allowExit : u.allowExit = s.allowExit
  halted : u.halted = s.halted
  turn : u.inSigchld = s.inSigchld

theorem SameFlags.refl : SameFlags s s := ⟨rfl, rfl, rfl, rfl⟩

theorem SameFlags.trans (h : SameFlags s u) (k : SameFlags u v) : SameFlags s v :=
  ⟨k.autoDump.trans h.autoDump, k.allowExit.trans h.allowExit, k.halted.trans h.halted,
    k.turn.trans h.turn⟩

theorem SameFlags.withIo {k : Io → Io} : SameFlags s (s.withIo k) := ⟨rfl, rfl, rfl, rfl⟩

theorem sendSuccess_flags {con : ClientId} {msg : String} :
    SameFlags s (sendSuccess P s con msg) := by
  unfold sendSuccess
  split
  · exact .withIo
  · exact .withIo

theorem spawn_flags (site : SpawnSite) (s : Server) (g : GroupId) (i : ℕ) :
    SameFlags s (spawn P site s g i) := by
  unfold spawn takeOutcome
  dsimp only
  split
  · exact ⟨rfl, rfl, rfl, rfl⟩
  · split
    · exact ⟨rfl, rfl, rfl, rfl⟩
    · exact ⟨rfl, rfl, rfl, rfl⟩

theorem loop_flags {f : Server → ℕ → Server} (hf : ∀ s i, SameFlags s (f s i)) (l : List ℕ)
    (s : Server) : SameFlags s (l.foldl f s) := by
  induction l generalizing s with
  | nil => exact ⟨rfl, rfl, rfl, rfl⟩
  | cons i l ih => exact (hf s i).trans (ih _)

theorem spawnRange_flags (site : SpawnSite) (s : Server) (g : GroupId) (a n : ℕ) :
    SameFlags s (spawnRange P site s g a n) :=
  loop_flags (fun s i => spawn_flags site s g i) _ s

theorem growSlot_flags (s : Server) (i : ℕ) : SameFlags s (growSlot P g s i) := by
  unfold growSlot
  split
  · exact spawn_flags _ _ _ _
  · exact ⟨rfl, rfl, rfl, rfl⟩

theorem shrinkSlot_flags (s : Server) (i : ℕ) : SameFlags s (shrinkSlot g s i) := by
  unfold shrinkSlot
  split
  · exact ⟨rfl, rfl, rfl, rfl⟩
  · exact ⟨rfl, rfl, rfl, rfl⟩
  · exact ⟨rfl, rfl, rfl, rfl⟩

theorem startSlot_flags (s : Server) (i : ℕ) : SameFlags s (startSlot P g s i) := by
  unfold startSlot
  split
  · exact spawn_flags _ _ _ _
  · exact ⟨rfl, rfl, rfl, rfl⟩
  · exact ⟨rfl, rfl, rfl, rfl⟩

theorem updateStr_flags (fld : StrField) (u : Server × Bool) :
    SameFlags u.1 (updateStr P cc g fld u).1 := by
  unfold updateStr
  split
  · exact ⟨rfl, rfl, rfl, rfl⟩
  · split
    · exact ⟨rfl, rfl, rfl, rfl⟩
    · exact ⟨rfl, rfl, rfl, rfl⟩

theorem updateStrings_flags (cc : ChildConfig) (g : GroupId) (u : Server × Bool) :
    SameFlags u.1 (updateStrings P cc g u).1 := by
  have hfield : ∀ (fld : StrField) (v : Server × Bool), SameFlags u.1 v.1 →
      SameFlags u.1 (updateStr P cc g fld v).1 :=
    fun fld v hv => hv.trans (updateStr_flags fld v)
  unfold updateStrings
  dsimp only
  apply hfield
  apply hfield
  apply hfield
  apply hfield
  apply hfield
  exact ⟨rfl, rfl, rfl, rfl⟩

theorem updateKillsig_flags (cc : ChildConfig) (g : GroupId) (u : Server × Bool) :
    SameFlags u.1 (updateKillsig P cc g u).1 := by
  unfold updateKillsig
  dsimp only
  split
  · exact ⟨rfl, rfl, rfl, rfl⟩
  · exact ⟨rfl, rfl, rfl, rfl⟩

theorem updateInstances_flags (cc : ChildConfig) (g : GroupId) (u : Server × Bool) :
    SameFlags u.1 (updateInstances P cc g u).1 := by
  unfold updateInstances
  dsimp only
  split
  · split
    · generalize hx : resizeGroup g _ cc.ccInstances = x
      have hresize : SameFlags u.1 x := by
        rw [← hx]
        exact ⟨rfl, rfl, rfl, rfl⟩
      exact hresize.trans (loop_flags growSlot_flags _ _)
    · generalize hx : slog P u.1 _ = x
      have hlog : SameFlags u.1 x := by
        rw [← hx]
        exact ⟨rfl, rfl, rfl, rfl⟩
      have hshrink := hlog.trans (loop_flags (f := shrinkSlot g) shrinkSlot_flags
        (List.range' cc.ccInstances.toNat
          ((u.1.reg.groups g).ccInstances.toNat - cc.ccInstances.toNat)) x)
      exact ⟨hshrink.autoDump, hshrink.allowExit, hshrink.halted, hshrink.turn⟩
  · exact ⟨rfl, rfl, rfl, rfl⟩

theorem updateStatus_flags (cc : ChildConfig) (g : GroupId) (u : Server × Bool) :
    SameFlags u.1 (updateStatus P cc g u).1 := by
  unfold updateStatus
  dsimp only
  split
  · generalize hx : Server.withReg (slog P u.1 _) _ = x
    have hlog : SameFlags u.1 x := by
      rw [← hx]
      exact ⟨rfl, rfl, rfl, rfl⟩
    split
    · have hstart := hlog.trans (loop_flags (f := startSlot P g) startSlot_flags
        (List.range (u.1.reg.groups g).ccInstances.toNat) x)
      exact ⟨hstart.autoDump, hstart.allowExit, hstart.halted, hstart.turn⟩
    · exact ⟨hlog.autoDump, hlog.allowExit, hlog.halted, hlog.turn⟩
  · exact ⟨rfl, rfl, rfl, rfl⟩

theorem updateAge_flags (cc : ChildConfig) (g : GroupId) (u : Server × Bool) :
    SameFlags u.1 (updateAge P cc g u).1 := by
  unfold updateAge
  dsimp only
  split
  · exact ⟨rfl, rfl, rfl, rfl⟩
  · exact ⟨rfl, rfl, rfl, rfl⟩

theorem updateGroup_flags (cc : ChildConfig) (g : GroupId) (s : Server) :
    SameFlags s (updateGroup P cc g s).1 := by
  have htexts := (updateStrings_flags (P := P) cc g (s, false)).trans
    (updateKillsig_flags (P := P) cc g _)
  have hslots := htexts.trans (updateInstances_flags (P := P) cc g _)
  have hstatus := hslots.trans (updateStatus_flags (P := P) cc g _)
  exact hstatus.trans (updateAge_flags cc g _)

end Flags

section Handlers

variable {P : Platform} {s : Server} {con : ClientId} {buf : CStr}

theorem withNamedGroup_flags {badName : Bool} {handle : Json → GroupId → Server × Bool}
    (hhandle : ∀ obj g, SameFlags s (handle obj g).1) :
    SameFlags s (withNamedGroup P s con buf badName handle).1 := by
  unfold withNamedGroup
  split
  · exact ⟨rfl, rfl, rfl, rfl⟩
  · split
    · exact ⟨rfl, rfl, rfl, rfl⟩
    · split
      · exact ⟨rfl, rfl, rfl, rfl⟩
      · exact hhandle _ _

theorem cRead_flags : SameFlags s (cRead P s con buf).1 := by
  unfold cRead
  dsimp only
  split
  · exact ⟨rfl, rfl, rfl, rfl⟩
  · split
    · split
      · exact ⟨rfl, rfl, rfl, rfl⟩
      · split
        · exact ⟨rfl, rfl, rfl, rfl⟩
        · split
          · exact ⟨rfl, rfl, rfl, rfl⟩
          · split
            · exact ⟨rfl, rfl, rfl, rfl⟩
            · split
              · exact ⟨rfl, rfl, rfl, rfl⟩
              · exact ⟨rfl, rfl, rfl, rfl⟩
              · exact ⟨rfl, rfl, rfl, rfl⟩
    · exact ⟨rfl, rfl, rfl, rfl⟩

theorem cSpwn_flags : SameFlags s (cSpwn P s con buf).1 := by
  cases hcc : childConfigUnserialize P buf with
  | none =>
    rw [cSpwn_unparsed hcc]
    exact .withIo
  | some cc =>
    cases hok : spwnRefusal s.reg cc with
    | some msg =>
      rw [cSpwn_refused hcc hok]
      exact .withIo
    | none =>
      rw [cSpwn_accepted hcc hok rfl]
      generalize (if cc.ccInstances = -1 then 1 else cc.ccInstances) = n
      have hinsert : SameFlags s (insertGroup s (withSlots cc n)) := ⟨rfl, rfl, rfl, rfl⟩
      have hflags : SameFlags s (announceGroup P s con cc n) :=
        (((hinsert.trans sendSuccess_flags).trans .withIo).trans .withIo).trans .withIo
      split
      · exact hflags.trans (spawnRange_flags _ _ _ _ _)
      · exact hflags

theorem cUpdt_flags : SameFlags s (cUpdt P s con buf).1 := by
  cases hcc : childConfigUnserialize P buf with
  | none =>
    rw [cUpdt_unparsed hcc]
    exact SameFlags.withIo.trans .withIo
  | some cc =>
    cases hg : s.reg.childConfigFindByName cc.ccName with
    | none =>
      rw [cUpdt_unknown hcc hg]
      exact .withIo
    | some g =>
      cases hok : updtRefusal cc with
      | some refusal =>
        rw [cUpdt_refused hcc hg hok]
        exact .withIo
      | none =>
        have hannounced : SameFlags (updateGroup P cc g s).1
            (announceUpdate P g (updateGroup P cc g s)) := by
          rw [announceUpdate_io]
          exact .withIo
        rw [cUpdt_accepted hcc hg hok]
        exact ((updateGroup_flags cc g s).trans hannounced).trans sendSuccess_flags

/-- Only EXIT changes the flags. -/
theorem runCommand_flags {c : Command} (hc : c ≠ .exit) :
    SameFlags s (runCommand P c s con buf).1 := by
  cases c with
  | dele => exact withNamedGroup_flags fun _ _ => ⟨rfl, rfl, rfl, rfl⟩
  | dump => exact .withIo
  | exit => exact absurd rfl hc
  | getc => exact withNamedGroup_flags fun _ _ => ⟨rfl, rfl, rfl, rfl⟩
  | helo => exact ⟨rfl, rfl, rfl, rfl⟩
  | kill => exact withNamedGroup_flags fun _ _ => ⟨rfl, rfl, rfl, rfl⟩
  | list => exact ⟨rfl, rfl, rfl, rfl⟩
  | pids => exact withNamedGroup_flags fun _ _ => ⟨rfl, rfl, rfl, rfl⟩
  | read => exact cRead_flags
  | spwn => exact cSpwn_flags
  | subs =>
    change SameFlags s (cSubs P s con buf).1
    unfold cSubs
    split
    · exact ⟨rfl, rfl, rfl, rfl⟩
    · split
      · exact ⟨rfl, rfl, rfl, rfl⟩
      · exact ⟨rfl, rfl, rfl, rfl⟩
  | updt => exact cUpdt_flags

theorem runCommand_turn (c : Command) (s : Server) (con : ClientId) (buf : CStr) :
    (runCommand P c s con buf).1.inSigchld = s.inSigchld := by
  by_cases hc : c = .exit
  · subst hc
    change (cExit P s con).1.inSigchld = s.inSigchld
    unfold cExit
    split
    · rfl
    · rfl
  · exact (runCommand_flags hc).turn

end Handlers

section Callbacks

variable {P : Platform} {s u v : Server} {g : GroupId}

/-- Neither an answer nor a change of the flags. -/
structure Silently (P : Platform) (s u : Server) : Prop where
  quiet : Quiet P False s.io u.io
  flags : SameFlags s u

theorem Silently.refl : Silently P s s := ⟨.refl, .refl⟩

theorem Silently.trans (h : Silently P s u) (k : Silently P u v) : Silently P s v :=
  ⟨h.quiet.before k.quiet, h.flags.trans k.flags⟩

theorem Silently.same (h : Silently P s u) (hio : v.io = u.io) (hf : SameFlags u v) :
    Silently P s v := ⟨by rw [hio]; exact h.quiet, h.flags.trans hf⟩

theorem Silently.slog (h : Silently P s u) (msg : Bytes) : Silently P s (slog P u msg) :=
  ⟨h.quiet.before (slog_quiet u msg), h.flags.trans ⟨rfl, rfl, rfl, rfl⟩⟩

theorem Silently.notify (h : Silently P s u) (n : Notification) :
    Silently P s (u.withIo (Io.notify P n)) :=
  ⟨h.quiet.before (.notify n), h.flags.trans ⟨rfl, rfl, rfl, rfl⟩⟩

theorem Silently.emit (h : Silently P s u) (o : Output) (ho : isSent o = false)
    (hw : .wild ≠ o) : Silently P s (emit u o) :=
  ⟨h.quiet.before (.plain o ho hw), h.flags.trans ⟨rfl, rfl, rfl, rfl⟩⟩

theorem spawn_silently (site : SpawnSite) (s : Server) (g : GroupId) (i : ℕ) :
    Silently P s (spawn P site s g i) := ⟨spawn_quiet site s g i, spawn_flags site s g i⟩

theorem forkCommand_silently (s : Server) : Silently P s (forkCommand s).2 := by
  have hsame : Silently P s (takeOutcome s).2 := Silently.refl.same rfl ⟨rfl, rfl, rfl, rfl⟩
  unfold forkCommand
  dsimp only
  split
  · exact hsame
  · exact hsame.same rfl ⟨rfl, rfl, rfl, rfl⟩

theorem runFatalCb_silently (s : Server) (g : GroupId) : Silently P s (runFatalCb P s g) := by
  have hcalled : Silently P s (s.record (.fatal g)) := Silently.refl.same rfl ⟨rfl, rfl, rfl, rfl⟩
  have hf := hcalled.trans (forkCommand_silently (s.record (.fatal g)))
  unfold runFatalCb
  dsimp only
  split
  · exact hcalled
  · rename_i cmd _
    split
    · rename_i x hx
      rw [hx] at hf
      exact hf.slog _
    · rename_i x hx
      rw [hx] at hf
      exact (hf.slog (text "running fatal_cb \"" ++ cmd.bytes ++ text "\" for " ++
        (s.reg.groups g).ccName.bytes ++ text " ...\n")).emit
          (.exec [cmd.bytes, (s.reg.groups g).ccName.bytes]) rfl nofun

theorem noteError_silently (s : Server) (g : GroupId) : Silently P s (noteError P s g) := by
  unfold noteError
  dsimp only
  split
  · refine Silently.trans ?_ (runFatalCb_silently _ g)
    refine Silently.notify ?_ _
    refine Silently.slog ?_ _
    exact Silently.refl.same rfl ⟨rfl, rfl, rfl, rfl⟩
  · exact Silently.refl.same rfl ⟨rfl, rfl, rfl, rfl⟩

theorem respawn_silently (s : Server) (g : GroupId) (i : ℕ) :
    Silently P s (respawn P s g i) := by
  unfold respawn
  dsimp only
  split
  · exact spawn_silently _ _ _ _
  · exact .refl

theorem groupExit_silently (s : Server) (g : GroupId) (i : ℕ) (ret : WaitStatus) :
    Silently P s (groupExit P s g i ret) := by
  unfold groupExit
  dsimp only
  refine Silently.trans ?_ (respawn_silently _ g i)
  generalize hx : Server.withReg (Server.record s _) _ = x
  have hclear : Silently P s x := by
    rw [← hx]
    exact Silently.refl.same rfl ⟨rfl, rfl, rfl, rfl⟩
  split
  · exact hclear.trans (noteError_silently x g)
  · exact hclear

theorem processExit_silently (s : Server) (p : ProcId) (ret : WaitStatus) :
    Silently P s (processExit P s p ret) := by
  unfold processExit
  dsimp only
  generalize hy : Server.withIo _ _ = y
  have hclosed : Silently P s y := by
    have hlog := fun msg => (Silently.refl (P := P) (s := s)).slog msg
    rw [← hy]
    split
    · exact ((hlog _).emit (.close _) rfl nofun).same rfl ⟨rfl, rfl, rfl, rfl⟩
    · exact (hlog _).same rfl ⟨rfl, rfl, rfl, rfl⟩
  split
  · exact hclosed.same rfl ⟨rfl, rfl, rfl, rfl⟩
  · exact hclosed.trans (groupExit_silently y _ _ ret)

/-- A turn of `sigchld_cb` may be its last. -/
theorem sigchldTurn_quiet (s : Server) :
    Quiet P False s.io (sigchldTurn P s).io ∧ (sigchldTurn P s).halted = s.halted := by
  unfold sigchldTurn
  split
  · exact ⟨.refl, rfl⟩
  · rename_i pid ret k _
    dsimp only
    split
    · exact ⟨.refl, rfl⟩
    · rename_i p _
      have hwait : Silently P s (s.withReg fun r => r.setKernel k) :=
        Silently.refl.same rfl ⟨rfl, rfl, rfl, rfl⟩
      have hexit := hwait.trans (processExit_silently _ p ret)
      exact ⟨hexit.quiet, hexit.flags.halted⟩

theorem heartbeatCb_silently (s : Server) (p : ProcId) : Silently P s (heartbeatCb P s p) := by
  have hf := forkCommand_silently (P := P) s
  have hlog := fun msg => (Silently.refl (P := P) (s := s)).slog msg
  unfold heartbeatCb
  dsimp only
  split
  · split
    · exact (hlog _).emit (.kill _ _) rfl nofun
    · exact ((hlog _).emit (.kill _ _) rfl nofun).same rfl ⟨rfl, rfl, rfl, rfl⟩
  · split
    · exact .refl
    · split
      · exact .refl
      · split
        · rename_i x hx
          rw [hx] at hf
          exact hf.slog _
        · rename_i x hx
          rw [hx] at hf
          exact hf.emit (.exec _) rfl nofun

theorem childErrorCb_silently (s : Server) (p : ProcId) :
    Silently P s (childErrorCb s p) := by
  unfold childErrorCb
  dsimp only
  split
  · exact (Silently.refl.emit (.close _) rfl nofun).same rfl ⟨rfl, rfl, rfl, rfl⟩
  · exact .refl

theorem sighupCb_silently (s : Server) (reopened : Bool) :
    Silently P s (sighupCb P s reopened) := by
  unfold sighupCb
  dsimp only
  split
  · exact Silently.refl.slog _
  · exact (Silently.refl.slog _).slog _

/-- Loading a dump may end the server. -/
theorem loadGroups_quiet (l : List Json) (s : Server) :
    Quiet P False s.io (loadGroups P l s).1.io := by
  induction l generalizing s with
  | nil => exact .refl
  | cons j l ih =>
    cases j with
    | object fields =>
      unfold loadGroups
      split
      · exact .refl
      · rename_i cc _
        split
        · exact .refl
        · dsimp only
          split
          · exact slog_quiet s _
          · generalize hx : slog P s _ = x
            have hlog : Quiet P False s.io x.io := by
              rw [← hx]
              exact slog_quiet s _
            refine (hlog.before ?_).before (ih _)
            unfold loadGroup
            dsimp only
            split
            · exact spawnRange_quiet .loadDump (insertGroup x _) x.reg.nextGroup 0 _
            · exact .refl
    | null => exact .refl
    | boolean b => exact .refl
    | int i => exact .refl
    | double x => exact .refl
    | string b => exact .refl
    | array a => exact .refl

theorem loadDump_quiet (s : Server) (file : Option Bytes) :
    Quiet P False s.io (loadDump P s file).1.io := by
  unfold loadDump
  split
  · exact .refl
  · exact .refl
  · split
    · exact loadGroups_quiet _ s
    · exact .refl

end Callbacks

end UbervisorAnswers
