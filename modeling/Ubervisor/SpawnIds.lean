import Ubervisor.Credentials
import Ubervisor.StoredGroups

/-! # The ids of a process

`spawn_child_setids`, from the credentials that a child inherits from the server. The databases
behind `getpwnam` and `getgrnam` are parameters. -/
namespace UbervisorSpawnIds

open UbervisorValues
open UbervisorChildConfigs
open UbervisorCredentials
open UbervisorStoredGroups (FitsInt)

/-- An `uid_t` that is stored in an `int`. -/
def intOfId (n : UInt32) : ℤ := if n.toNat < 2147483648 then n.toNat else n.toNat - 4294967296

/-- An `int` that is passed as an `uid_t`. -/
def idOfInt (n : ℤ) : UInt32 := UInt32.ofNat (n % 4294967296).toNat

abbrev Database := CStr → Option UInt32

/-- The child exits and logs which call has failed. -/
abbrev Exits := Except String

def lookup (call : String) (db : Database) (name : Option CStr) (old : ℤ) : Exits ℤ :=
  match name with
  | none => .ok old
  | some n =>
    match db n with
    | none => .error call
    | some id => .ok (intOfId id)

def attempt (call : String) : Option Credentials → Exits Credentials
  | some c => .ok c
  | none => .error call

/-- A call that must fail. -/
def refuse (call : String) (r : Option Credentials) (c : Credentials) : Exits Credentials :=
  match r with
  | some _ => .error call
  | none => .ok c

def takeGid (gid : ℤ) (c : Credentials) : Exits Credentials :=
  if gid ≠ -1 then do
    let c ← attempt "setgid" (c.setgid (idOfInt gid))
    attempt "setegid" (c.setegid (idOfInt gid))
  else .ok c

def takeUid (uid : ℤ) (c : Credentials) : Exits Credentials :=
  if uid ≠ -1 then do
    let c ← attempt "setuid" (c.setuid (idOfInt uid))
    let c ← attempt "seteuid" (c.seteuid (idOfInt uid))
    if uid ≠ 0 then refuse "setuid" (c.setuid 0) c else .ok c
  else .ok c

def checkGid (gid : ℤ) (c : Credentials) : Exits Credentials :=
  if 0 < gid then refuse "setgid" (c.setgid 0) c else .ok c

def spawnChildSetids (pw gr : Database) (cc : ChildConfig) (c : Credentials) :
    Exits (ChildConfig × Credentials) := do
  let uid ← lookup "getpwnam" pw cc.ccUsername cc.ccUid
  let gid ← lookup "getgrnam" gr cc.ccGroupname cc.ccGid
  let c ← takeGid gid c
  let c ← takeUid uid c
  let c ← checkGid gid c
  return ({ cc with ccUid := uid, ccGid := gid }, c)

/-- The number that a name, if there is one, and an old number come to. -/
def Resolves (db : Database) (name : Option CStr) (old new : ℤ) : Prop :=
  match name with
  | none => new = old
  | some n => ∃ id, db n = some id ∧ new = intOfId id

section Stages

variable {pw gr db : Database} {call : String} {name : Option CStr} {cc cc' : ChildConfig}
  {c d c' : Credentials} {old new uid gid : ℤ}

theorem attempt_ok {r : Option Credentials} : attempt call r = .ok c ↔ r = some c := by
  cases r with
  | none => simp [attempt]
  | some d => simp [attempt]

theorem refuse_ok {r : Option Credentials} : refuse call r c = .ok d ↔ c = d ∧ r = none := by
  cases r with
  | none => simp [refuse]
  | some d => simp [refuse]

theorem bind_ok {α β : Type} {x : Exits α} {f : α → Exits β} {b : β} :
    (x >>= f) = .ok b ↔ ∃ a, x = .ok a ∧ f a = .ok b := by
  cases x with
  | error e => simp [bind, Except.bind]
  | ok a => simp [bind, Except.bind]

theorem lookup_ok : lookup call db name old = .ok new ↔ Resolves db name old new := by
  unfold lookup Resolves
  cases name with
  | none => simp [eq_comm]
  | some n =>
    dsimp only
    cases db n with
    | none => simp
    | some id => simp [eq_comm]

theorem takeGid_ok : takeGid gid c = .ok d ↔
    (gid = -1 → c = d) ∧ (gid ≠ -1 → c.setgid (idOfInt gid) = some d) := by
  unfold takeGid
  by_cases hg : gid = -1
  · simp [hg]
  · rw [if_pos hg, bind_ok]
    simp only [attempt_ok, hg, false_implies, ne_eq, not_false_eq_true, true_implies, true_and]
    constructor
    · rintro ⟨b, hb, hd⟩
      rw [setgid_again hb, Option.some_inj] at hd
      rw [hb, hd]
    · intro h
      exact ⟨d, h, setgid_again h⟩

theorem takeUid_ok : takeUid uid c = .ok d ↔ (uid = -1 → c = d) ∧ (uid ≠ -1 →
    c.setuid (idOfInt uid) = some d ∧ (uid ≠ 0 → ¬ d.uid.Holds root)) := by
  unfold takeUid
  by_cases hu : uid = -1
  · simp [hu]
  · rw [if_pos hu, bind_ok]
    simp only [attempt_ok, hu, false_implies, ne_eq, not_false_eq_true, true_implies, true_and]
    have hprobe : ∀ b, (if ¬ uid = 0 then refuse "setuid" (b.setuid 0) b else .ok b) = .ok d ↔
        b = d ∧ (¬ uid = 0 → ¬ d.uid.Holds root) := by
      intro b
      by_cases h0 : uid = 0
      · simp [h0]
      · rw [if_pos h0, refuse_ok]
        constructor
        · rintro ⟨rfl, hb⟩
          exact ⟨rfl, fun _ => setuid_root_none.mp hb⟩
        · rintro ⟨rfl, hb⟩
          exact ⟨rfl, setuid_root_none.mpr (hb h0)⟩
    constructor
    · rintro ⟨b, hb, hd⟩
      obtain ⟨b', hb', hd⟩ := bind_ok.mp hd
      rw [attempt_ok, setuid_again hb, Option.some_inj] at hb'
      obtain ⟨rfl, hd⟩ := (hprobe b').mp hd
      exact ⟨hb' ▸ hb, hd⟩
    · rintro ⟨h, hd⟩
      refine ⟨d, h, bind_ok.mpr ⟨d, ?_, (hprobe d).mpr ⟨rfl, hd⟩⟩⟩
      rw [attempt_ok]
      exact setuid_again h

theorem checkGid_ok : checkGid gid c = .ok d ↔ c = d ∧ (0 < gid → c.setgid 0 = none) := by
  unfold checkGid
  by_cases hg : 0 < gid
  · rw [if_pos hg, refuse_ok]
    simp [hg]
  · rw [if_neg hg]
    simp [hg]

/-- The stages that a child has to pass. -/
theorem setids_ok : spawnChildSetids pw gr cc c = .ok (cc', c') ↔ ∃ uid gid d,
    Resolves pw cc.ccUsername cc.ccUid uid ∧ Resolves gr cc.ccGroupname cc.ccGid gid ∧
      takeGid gid c = .ok d ∧ takeUid uid d = .ok c' ∧ (0 < gid → c'.setgid 0 = none) ∧
        cc' = { cc with ccUid := uid, ccGid := gid } := by
  unfold spawnChildSetids
  simp only [bind_ok, lookup_ok]
  constructor
  · rintro ⟨uid, huid, gid, hgid, d, hd, e, he, f, hf, hout⟩
    obtain ⟨rfl, hcheck⟩ := checkGid_ok.mp hf
    cases hout
    exact ⟨uid, gid, d, huid, hgid, hd, he, hcheck, rfl⟩
  · rintro ⟨uid, gid, d, huid, hgid, hd, he, hf, rfl⟩
    exact ⟨uid, huid, gid, hgid, d, hd, c', he, c', checkGid_ok.mpr ⟨rfl, hf⟩, rfl⟩

end Stages

/-- Who runs with the ids it was given, and can get no id 0 back. -/
structure Dropped (cc : ChildConfig) (c : Credentials) : Prop where
  user : cc.ccUid ≠ -1 → c.uid.effective.val = idOfInt cc.ccUid
  group : cc.ccGid ≠ -1 → c.gid.effective.val = idOfInt cc.ccGid
  noUser : cc.ccUid ≠ -1 → cc.ccUid ≠ 0 → ¬ RegainsUid c
  noGroup : 0 < cc.ccGid → ¬ RegainsGid c

/-- The ids of the record are those of its names, where it has names. -/
structure Replaced (pw gr : Database) (cc cc' : ChildConfig) : Prop where
  user : Resolves pw cc.ccUsername cc.ccUid cc'.ccUid
  group : Resolves gr cc.ccGroupname cc.ccGid cc'.ccGid
  rest : cc' = { cc with ccUid := cc'.ccUid, ccGid := cc'.ccGid }

/-- No user id is asked for, the server has 0 among its user ids but is not privileged, and its
group ids let `setgid` pass and the test of `setgid(0)` fail. -/
structure KeepsRoot (pw gr : Database) (cc : ChildConfig) (c : Credentials) (gid : ℤ) : Prop where
  noUser : Resolves pw cc.ccUsername cc.ccUid (-1)
  group : Resolves gr cc.ccGroupname cc.ccGid gid
  positive : 0 < gid
  unprivileged : c.uid.effective ≠ root
  holds : c.uid.real = root ∨ c.uid.saved = root
  allowed : c.gid.real.val = idOfInt gid ∨ c.gid.saved.val = idOfInt gid
  noRoot : c.gid.real ≠ root ∧ c.gid.saved ≠ root

section Dropping

variable {pw gr : Database} {cc cc' : ChildConfig} {c d c' : Credentials} {uid gid : ℤ}

/-- What has become of the ids of a child that goes on. -/
theorem passed_uid (h : takeUid uid d = .ok c') (hu : uid ≠ -1) :
    c'.uid.effective.val = idOfInt uid ∧ (uid ≠ 0 → ¬ c'.uid.Holds root) ∧ c'.gid = d.gid := by
  obtain ⟨-, hset⟩ := takeUid_ok.mp h
  obtain ⟨hset, hprobe⟩ := hset hu
  obtain ⟨x, i, hx, hi, rfl⟩ := change_eq_some.mp hset
  refine ⟨?_, hprobe, rfl⟩
  rw [Ids.set_effective hi]
  exact ofNumber_some hx

theorem passed_gid (h : takeGid gid c = .ok d) (hg : gid ≠ -1) :
    d.gid.effective.val = idOfInt gid ∧
      (d.gid.real = d.gid.effective ∨ d.gid.saved = d.gid.effective) ∧ d.uid = c.uid := by
  obtain ⟨-, hset⟩ := takeGid_ok.mp h
  obtain ⟨x, i, hx, hi, rfl⟩ := change_eq_some.mp (hset hg)
  have heff := Ids.set_effective hi
  refine ⟨?_, ?_, rfl⟩
  · rw [heff]
    exact ofNumber_some hx
  · rw [heff]
    exact Ids.set_other hi

theorem takeUid_gid (h : takeUid uid d = .ok c') : c'.gid = d.gid := by
  by_cases hu : uid = -1
  · rw [(takeUid_ok.mp h).1 hu]
  · exact (passed_uid h hu).2.2

/-- A child that can get the group id 0 back has not been given a user id. -/
theorem passed_keepsRoot (hd : takeGid gid c = .ok d) (hc : takeUid uid d = .ok c')
    (hg : 0 < gid) (hcheck : c'.setgid 0 = none) (hr : RegainsGid c') :
    uid = -1 ∧ c.uid.effective ≠ root ∧ (c.uid.real = root ∨ c.uid.saved = root) ∧
      c'.gid.real ≠ root ∧ c'.gid.saved ≠ root := by
  have hgne : gid ≠ -1 := by omega
  obtain ⟨-, hother, huid⟩ := passed_gid hd hgne
  obtain ⟨hpriv, hreal, hsaved⟩ := setgid_root_none.mp hcheck
  have hgid : ¬ c'.gid.Holds root := by
    rintro (h | h | h)
    · exact hreal h
    · rw [← takeUid_gid hc] at hother
      rcases hother with ho | ho
      · exact hreal (ho.trans h)
      · exact hsaved (ho.trans h)
    · exact hsaved h
  have hholds : c'.uid.Holds root := (regainsGid_iff.mp hr).resolve_right hgid
  have hu : uid = -1 := by
    by_contra hu
    obtain ⟨heff, hprobe, -⟩ := passed_uid hc hu
    by_cases h0 : uid = 0
    · rw [h0] at heff
      exact hpriv (Subtype.ext heff)
    · exact hprobe h0 hholds
  have hsame : c'.uid = c.uid := by rw [← (takeUid_ok.mp hc).1 hu, huid]
  rw [hsame] at hholds hpriv
  refine ⟨hu, hpriv, ?_, hreal, hsaved⟩
  rcases hholds with h | h | h
  · exact .inl h
  · exact absurd h hpriv
  · exact .inr h

/-- Without privileges `setgid` takes one of the group ids that the process has. -/
theorem setgid_unprivileged (hp : c.uid.effective ≠ root) {n : UInt32} :
    c.setgid n = some d ↔ ∃ x : Id, x.val = n ∧ (x = c.gid.real ∨ x = c.gid.saved) ∧
      { c with gid := { c.gid with effective := x } } = d := by
  have hpriv : c.privileged = false := privileged_false.mpr hp
  constructor
  · intro h
    obtain ⟨x, i, hx, hi, rfl⟩ := change_eq_some.mp h
    rw [hpriv] at hi
    obtain ⟨hor, rfl⟩ := Ids.set_unprivileged.mp hi
    exact ⟨x, ofNumber_some hx, hor, rfl⟩
  · rintro ⟨x, rfl, hor, rfl⟩
    have hset : c.gid.set c.privileged x = some { c.gid with effective := x } := by
      rw [hpriv]
      exact Ids.set_unprivileged.mpr ⟨hor, rfl⟩
    exact change_of_some (f := c.gid.set c.privileged) hset fun i => { c with gid := i }

/-- Such a child goes on, and can get the group id 0 back by way of its user id. -/
theorem keepsRoot_regains (k : KeepsRoot pw gr cc c gid) : ∃ c',
    spawnChildSetids pw gr cc c = .ok ({ cc with ccUid := -1, ccGid := gid }, c') ∧
      RegainsGid c' := by
  have hgne : gid ≠ -1 := by
    have := k.positive
    omega
  obtain ⟨x, hx, hmem⟩ : ∃ x : Id, x.val = idOfInt gid ∧ (x = c.gid.real ∨ x = c.gid.saved) := by
    rcases k.allowed with h | h
    · exact ⟨_, h, .inl rfl⟩
    · exact ⟨_, h, .inr rfl⟩
  have hset := (setgid_unprivileged k.unprivileged).mpr ⟨x, hx, hmem, rfl⟩
  refine ⟨_, setids_ok.mpr ⟨-1, gid, _, k.noUser, k.group,
    takeGid_ok.mpr ⟨fun h => absurd h hgne, fun _ => hset⟩,
    takeUid_ok.mpr ⟨fun _ => rfl, fun h => absurd rfl h⟩, fun _ => ?_, rfl⟩, ?_⟩
  · exact setgid_root_none.mpr ⟨k.unprivileged, k.noRoot.1, k.noRoot.2⟩
  · exact regainsGid_iff.mpr (.inl (k.holds.imp id .inr))

/-- A child that goes on has the ids of its group and has given up those of the server, unless
only a group id was asked for from a server that can become privileged. -/
theorem setids_drops_iff (pw gr : Database) (cc : ChildConfig) (c : Credentials) :
    (∀ cc' c', spawnChildSetids pw gr cc c = .ok (cc', c') →
      Replaced pw gr cc cc' ∧ Dropped cc' c') ↔ ¬ ∃ gid, KeepsRoot pw gr cc c gid := by
  constructor
  · rintro hall ⟨gid, k⟩
    obtain ⟨c', hrun, hr⟩ := keepsRoot_regains k
    exact (hall _ _ hrun).2.noGroup k.positive hr
  · intro hno cc' c' hrun
    obtain ⟨uid, gid, d, huid, hgid, hd, hc, hcheck, rfl⟩ := setids_ok.mp hrun
    refine ⟨⟨huid, hgid, rfl⟩, ?_, ?_, ?_, ?_⟩
    · exact fun hu => (passed_uid hc hu).1
    · intro hg
      rw [takeUid_gid hc]
      exact (passed_gid hd hg).1
    · intro hu h0 hr
      exact (passed_uid hc hu).2.1 h0 (regainsUid_iff.mp hr)
    · intro hg hr
      have hgne : gid ≠ -1 := by
        have : 0 < gid := hg
        omega
      obtain ⟨hu, hpriv, hholds, hnoRoot⟩ := passed_keepsRoot hd hc hg (hcheck hg) hr
      rw [takeUid_gid hc] at hnoRoot
      obtain ⟨x, hx, hmem, rfl⟩ := (setgid_unprivileged hpriv).mp ((takeGid_ok.mp hd).2 hgne)
      refine hno ⟨gid, hu ▸ huid, hgid, hg, hpriv, hholds, ?_, hnoRoot⟩
      rw [← hx]
      exact hmem.imp (congrArg Subtype.val ∘ Eq.symm) (congrArg Subtype.val ∘ Eq.symm)

def user : Id := ⟨1000, by decide⟩

/-- Root has started a server that belongs to another user, for whom it runs. -/
def borrowed : Credentials := ⟨⟨root, user, user⟩, .all user⟩

/-- A group that is given only a group id. -/
def gidConfig : ChildConfig := { childConfigNew (CStr.ofBytes (text "web")) with ccGid := 1000 }

/-- The process can become root, and have the group id 0. -/
theorem borrowed_regains : ¬ ∀ (pw gr : Database) (cc : ChildConfig) (c : Credentials) cc' c',
    spawnChildSetids pw gr cc c = .ok (cc', c') → Replaced pw gr cc cc' ∧ Dropped cc' c' := by
  intro h
  have hkeeps : KeepsRoot (fun _ => none) (fun _ => none) gidConfig borrowed 1000 :=
    ⟨rfl, rfl, by decide, by decide, .inl rfl, .inl (by decide), by decide, by decide⟩
  obtain ⟨c', hrun, hr⟩ := keepsRoot_regains hkeeps
  exact (h _ _ _ _ _ _ hrun).2.noGroup (by decide) hr

end Dropping

section Root

variable {pw gr : Database} {cc : ChildConfig} {c : Credentials} {uid gid n : ℤ} {i : Ids}

def rootCredentials : Credentials := ⟨.all root, .all root⟩

/-- The ids of a process of root that asks for `n`. -/
def wanted (n : ℤ) : Ids :=
  if n = -1 then .all root else ((ofNumber (idOfInt n)).map .all).getD (.all root)

theorem intOfId_fits (n : UInt32) : FitsInt (intOfId n) := by
  have hn := n.toNat_lt
  unfold FitsInt clampInt intOfId
  split <;> omega

theorem resolves_fits {db : Database} {name : Option CStr} {old new : ℤ}
    (h : Resolves db name old new) (ho : FitsInt old) : FitsInt new := by
  cases name with
  | none =>
    rw [show new = old from h]
    exact ho
  | some n =>
    obtain ⟨id, -, rfl⟩ := h
    exact intOfId_fits id

theorem idOfInt_toNat (n : ℤ) : ((idOfInt n).toNat : ℤ) = n % 4294967296 := by
  unfold idOfInt
  rw [UInt32.toNat_ofNat']
  omega

/-- An `int` that is not -1 is an id, and 0 is the only one for 0. -/
theorem ofNumber_fits (hf : FitsInt n) (hn : n ≠ -1) :
    ∃ x, ofNumber (idOfInt n) = some x ∧ (x = root ↔ n = 0) := by
  have hid := idOfInt_toNat n
  unfold FitsInt clampInt at hf
  have hne : idOfInt n ≠ noId := by
    intro h
    rw [h] at hid
    have hno : noId.toNat = 4294967295 := rfl
    omega
  refine ⟨⟨idOfInt n, hne⟩, dif_pos hne, ?_⟩
  rw [Subtype.ext_iff, ← UInt32.toNat_inj]
  change (idOfInt n).toNat = 0 ↔ _
  omega

theorem wanted_holds (hf : FitsInt n) {x : Id} (hx : (wanted n).effective = x) :
    wanted n = .all x ∧ (x = root ↔ n = -1 ∨ n = 0) := by
  unfold wanted at hx ⊢
  by_cases hn : n = -1
  · rw [if_pos hn] at hx ⊢
    rw [← hx]
    exact ⟨rfl, iff_of_true rfl (.inl hn)⟩
  · obtain ⟨y, hy, hroot⟩ := ofNumber_fits hf hn
    rw [if_neg hn, hy, Option.map_some, Option.getD_some] at hx ⊢
    rw [← hx]
    refine ⟨rfl, hroot.trans ?_⟩
    simp [hn]

theorem takeGid_root (hf : FitsInt gid) (hp : c.uid.effective = root) (hg : c.gid = .all root) :
    takeGid gid c = .ok { c with gid := wanted gid } := by
  rw [takeGid_ok]
  constructor
  · rintro rfl
    rw [wanted, if_pos rfl, ← hg]
  · intro hn
    obtain ⟨x, hx, -⟩ := ofNumber_fits hf hn
    refine change_eq_some.mpr ⟨x, .all x, hx, ?_, ?_⟩
    · rw [privileged_iff.mpr hp, Ids.set_privileged]
    · rw [wanted, if_neg hn, hx]
      rfl

theorem takeUid_root (hf : FitsInt uid) (hp : c.uid = .all root) :
    takeUid uid c = .ok { c with uid := wanted uid } := by
  rw [takeUid_ok]
  constructor
  · rintro rfl
    rw [wanted, if_pos rfl, ← hp]
  · intro hn
    obtain ⟨x, hx, hroot⟩ := ofNumber_fits hf hn
    have hwanted : wanted uid = .all x := by
      rw [wanted, if_neg hn, hx]
      rfl
    rw [hwanted]
    constructor
    · refine change_eq_some.mpr ⟨x, .all x, hx, ?_, rfl⟩
      rw [privileged_iff.mpr (by rw [hp]; rfl), Ids.set_privileged]
    · intro h0 hholds
      have hxr : x = root := by
        rcases hholds with h | h | h
        · exact h
        · exact h
        · exact h
      exact h0 (hroot.mp hxr)

/-- For a server of root a start with ids that exist goes on with these ids, unless a group id
is asked for that is not 0 while the user id stays 0. -/
theorem setids_root_iff (hfu : FitsInt cc.ccUid) (hfg : FitsInt cc.ccGid)
    (hu : Resolves pw cc.ccUsername cc.ccUid uid) (hg : Resolves gr cc.ccGroupname cc.ccGid gid) :
    spawnChildSetids pw gr cc rootCredentials =
        .ok ({ cc with ccUid := uid, ccGid := gid }, ⟨wanted uid, wanted gid⟩) ↔
      ¬ (0 < gid ∧ (uid = -1 ∨ uid = 0)) := by
  have hfu := resolves_fits hu hfu
  have hfg := resolves_fits hg hfg
  have hgid : takeGid gid rootCredentials = .ok ⟨.all root, wanted gid⟩ :=
    takeGid_root hfg rfl rfl
  have huid : takeUid uid ⟨.all root, wanted gid⟩ = .ok ⟨wanted uid, wanted gid⟩ :=
    takeUid_root hfu rfl
  obtain ⟨-, hroot⟩ := wanted_holds hfu rfl
  obtain ⟨hall, hzero⟩ := wanted_holds hfg rfl
  have hcheck : (0 < gid → (⟨wanted uid, wanted gid⟩ : Credentials).setgid 0 = none) ↔
      ¬ (0 < gid ∧ (uid = -1 ∨ uid = 0)) := by
    rw [not_and, ← hroot]
    refine forall_congr' fun hpos => ?_
    have hne : (wanted gid).effective ≠ root := fun h => by
      have := hzero.mp h
      omega
    refine setgid_root_none.trans ⟨fun h => h.1, fun h => ⟨h, ?_, ?_⟩⟩
    · change (wanted gid).real ≠ root
      rw [hall]
      exact hne
    · change (wanted gid).saved ≠ root
      rw [hall]
      exact hne
  rw [← hcheck]
  constructor
  · intro hrun
    obtain ⟨uid', gid', d, -, -, -, -, hlast, hout⟩ := setids_ok.mp hrun
    have hgids : gid = gid' := congrArg ChildConfig.ccGid hout
    exact fun hpos => hlast (hgids ▸ hpos)
  · intro hlast
    exact setids_ok.mpr ⟨uid, gid, _, hu, hg, hgid, huid, hlast, rfl⟩

/-- Both ids are given, and taken. -/
theorem bothIds_start : spawnChildSetids (fun _ => none) (fun _ => none)
      { gidConfig with ccUid := 1000 } rootCredentials =
        .ok ({ gidConfig with ccUid := 1000 }, ⟨wanted 1000, wanted 1000⟩) ↔
      ¬ ((0 : ℤ) < 1000 ∧ ((1000 : ℤ) = -1 ∨ (1000 : ℤ) = 0)) :=
  setids_root_iff rfl rfl rfl rfl

/-- Root asks for a group id. -/
theorem gidConfig_exits : ¬ ∀ (pw gr : Database) (cc : ChildConfig) (uid gid : ℤ),
    FitsInt cc.ccUid → FitsInt cc.ccGid → Resolves pw cc.ccUsername cc.ccUid uid →
    Resolves gr cc.ccGroupname cc.ccGid gid →
    spawnChildSetids pw gr cc rootCredentials =
      .ok ({ cc with ccUid := uid, ccGid := gid }, ⟨wanted uid, wanted gid⟩) := by
  intro h
  have hrun := h (fun _ => none) (fun _ => none) gidConfig (-1) 1000 rfl rfl rfl rfl
  have hexits : ∀ x, spawnChildSetids (fun _ => none) (fun _ => none) gidConfig rootCredentials ≠
      .ok x := by
    intro x hx
    have hfail : spawnChildSetids (fun _ => none) (fun _ => none) gidConfig rootCredentials =
      .error "setgid" := rfl
    rw [hfail] at hx
    cases hx
  exact hexits _ hrun

end Root

end UbervisorSpawnIds
