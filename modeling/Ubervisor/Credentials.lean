import Mathlib.Logic.Relation
import Mathlib.Tactic.ByContra
import Mathlib.Tactic.Tauto

/-! # Process credentials

The real, the effective and the saved user and group id of a process, and the POSIX calls that
change them. A process is privileged while its effective user id is 0. -/
namespace UbervisorCredentials

/-- The value of `uid_t` and `gid_t` that is no id. -/
def noId : UInt32 := 0xffffffff

abbrev Id := { n : UInt32 // n ≠ noId }

def root : Id := ⟨0, by decide⟩

def ofNumber (n : UInt32) : Option Id := if h : n ≠ noId then some ⟨n, h⟩ else none

theorem ofNumber_val (x : Id) : ofNumber x.val = some x := dif_pos x.property

theorem ofNumber_some {n : UInt32} {x : Id} (h : ofNumber n = some x) : x.val = n := by
  unfold ofNumber at h
  split at h
  · cases h
    rfl
  · cases h

structure Ids where
  real : Id
  effective : Id
  saved : Id
  deriving DecidableEq

namespace Ids

def all (x : Id) : Ids := ⟨x, x, x⟩

def Holds (i : Ids) (x : Id) : Prop := i.real = x ∨ i.effective = x ∨ i.saved = x

/-- `setuid` and `setgid`: all three ids of a privileged process, the effective one of
another. -/
def set (privileged : Bool) (x : Id) (i : Ids) : Option Ids :=
  if privileged then some (.all x)
  else if x = i.real ∨ x = i.saved then some { i with effective := x }
  else none

/-- `seteuid` and `setegid`. -/
def setEffective (privileged : Bool) (x : Id) (i : Ids) : Option Ids :=
  if privileged ∨ x = i.real ∨ x = i.saved then some { i with effective := x } else none

section Rules

variable {i j : Ids} {x y : Id} {p : Bool}

theorem set_none : i.set p x = none ↔ p = false ∧ i.real ≠ x ∧ i.saved ≠ x := by
  unfold set
  cases p with
  | true => simp
  | false => simp [eq_comm]

theorem set_effective (h : i.set p x = some j) : j.effective = x := by
  unfold set at h
  split at h
  · cases h
    rfl
  · split at h
    · cases h
      rfl
    · cases h

/-- The effective id is one of the other two, so that it can be set once more. -/
theorem set_again (h : i.set p x = some j) (q : Bool) : j.setEffective q x = some j := by
  unfold set at h
  split at h
  · cases h
    exact if_pos (.inr (.inl rfl))
  · split at h
    · rename_i hx
      cases h
      exact if_pos (.inr hx)
    · cases h

theorem set_other (h : i.set p x = some j) : j.real = x ∨ j.saved = x := by
  unfold set at h
  split at h
  · cases h
    exact .inl rfl
  · split at h
    · rename_i hx
      cases h
      exact hx.imp Eq.symm Eq.symm
    · cases h

theorem set_privileged (x : Id) (i : Ids) : i.set true x = some (.all x) := rfl

theorem set_unprivileged : i.set false x = some j ↔
    (x = i.real ∨ x = i.saved) ∧ { i with effective := x } = j := by
  unfold set
  rw [if_neg Bool.false_ne_true]
  split
  · rename_i hx
    rw [Option.some_inj, and_iff_right hx]
  · rename_i hx
    exact iff_of_false nofun fun h => hx h.1

/-- Without privileges no id is new. -/
theorem set_holds (h : i.set false x = some j) (hy : j.Holds y) : i.Holds y := by
  obtain ⟨hx, rfl⟩ := set_unprivileged.mp h
  rcases hy with hy | rfl | hy
  · exact .inl hy
  · rcases hx with hx | hx
    · exact .inl hx.symm
    · exact .inr (.inr hx.symm)
  · exact .inr (.inr hy)

theorem setEffective_holds (h : i.setEffective false x = some j) (hy : j.Holds y) :
    i.Holds y := by
  refine set_holds (x := x) (j := j) ?_ hy
  unfold setEffective at h
  unfold set
  rw [if_neg Bool.false_ne_true]
  simpa using h

/-- An id that a process has can be made the effective one. -/
theorem setEffective_of_holds (h : i.Holds x) : i.effective = x ∨
    ∃ j, i.setEffective p x = some j ∧ j.effective = x := by
  rcases h with h | h | h
  · exact .inr ⟨_, if_pos (.inr (.inl h.symm)), rfl⟩
  · exact .inl h
  · exact .inr ⟨_, if_pos (.inr (.inr h.symm)), rfl⟩

end Rules

end Ids

structure Credentials where
  uid : Ids
  gid : Ids
  deriving DecidableEq

inductive Call where
  | setuid (n : UInt32)
  | seteuid (n : UInt32)
  | setgid (n : UInt32)
  | setegid (n : UInt32)

namespace Credentials

variable (c : Credentials)

def privileged : Bool := c.uid.effective == root

/-- A call that sets ids to `n`, if that is an id and the process may have it. -/
def change (n : UInt32) (f : Id → Option Ids) (k : Ids → Credentials) : Option Credentials :=
  (ofNumber n).bind fun x => (f x).map k

def setuid (n : UInt32) : Option Credentials :=
  change n (c.uid.set c.privileged) fun i => { c with uid := i }

def seteuid (n : UInt32) : Option Credentials :=
  change n (c.uid.setEffective c.privileged) fun i => { c with uid := i }

def setgid (n : UInt32) : Option Credentials :=
  change n (c.gid.set c.privileged) fun i => { c with gid := i }

def setegid (n : UInt32) : Option Credentials :=
  change n (c.gid.setEffective c.privileged) fun i => { c with gid := i }

def run : Call → Option Credentials
  | .setuid n => c.setuid n
  | .seteuid n => c.seteuid n
  | .setgid n => c.setgid n
  | .setegid n => c.setegid n

end Credentials

/-- What a process can turn its credentials into. -/
def Reaches : Credentials → Credentials → Prop :=
  Relation.ReflTransGen fun c d => ∃ call, c.run call = some d

/-- Some calls make 0 the effective user id. -/
def RegainsUid (c : Credentials) : Prop := ∃ d, Reaches c d ∧ d.uid.effective = root

def RegainsGid (c : Credentials) : Prop := ∃ d, Reaches c d ∧ d.gid.effective = root

section Calls

variable {c d : Credentials} {n : UInt32} {x : Id}

theorem privileged_iff : c.privileged = true ↔ c.uid.effective = root := beq_iff_eq

theorem privileged_false : c.privileged = false ↔ c.uid.effective ≠ root := by
  rw [← Bool.not_eq_true, privileged_iff]

theorem change_eq_some {f : Id → Option Ids} {k : Ids → Credentials} :
    Credentials.change n f k = some d ↔ ∃ x i, ofNumber n = some x ∧ f x = some i ∧ k i = d := by
  unfold Credentials.change
  rw [Option.bind_eq_some_iff]
  constructor
  · rintro ⟨x, hx, hd⟩
    obtain ⟨i, hi, hk⟩ := Option.map_eq_some_iff.mp hd
    exact ⟨x, i, hx, hi, hk⟩
  · rintro ⟨x, i, hx, hi, hk⟩
    exact ⟨x, hx, Option.map_eq_some_iff.mpr ⟨i, hi, hk⟩⟩

theorem change_of_some {f : Id → Option Ids} {i : Ids} (h : f x = some i) (k : Ids → Credentials) :
    Credentials.change x.val f k = some (k i) := change_eq_some.mpr ⟨x, i, ofNumber_val x, h, rfl⟩

theorem change_eq_none {f : Id → Option Ids} {k : Ids → Credentials} :
    Credentials.change x.val f k = none ↔ f x = none := by
  rw [Credentials.change, ofNumber_val, Option.bind_some, Option.map_eq_none_iff]

/-- What `setuid` has set, `seteuid` leaves. -/
theorem setuid_again (h : c.setuid n = some d) : d.seteuid n = some d := by
  obtain ⟨x, i, hx, hi, rfl⟩ := change_eq_some.mp h
  exact change_eq_some.mpr ⟨x, i, hx, Ids.set_again hi _, rfl⟩

theorem setgid_again (h : c.setgid n = some d) : d.setegid n = some d := by
  obtain ⟨x, i, hx, hi, rfl⟩ := change_eq_some.mp h
  exact change_eq_some.mpr ⟨x, i, hx, Ids.set_again hi _, rfl⟩

/-- `setuid(0)` fails for a process none of whose user ids is 0, and for no other. -/
theorem setuid_root_none : c.setuid root.val = none ↔ ¬ c.uid.Holds root := by
  rw [Credentials.setuid, change_eq_none, Ids.set_none, privileged_false, Ids.Holds]
  tauto

/-- `setgid(0)` fails for a process that is not privileged and can not go back to 0. -/
theorem setgid_root_none : c.setgid root.val = none ↔
    c.uid.effective ≠ root ∧ c.gid.real ≠ root ∧ c.gid.saved ≠ root := by
  rw [Credentials.setgid, change_eq_none, Ids.set_none, privileged_false]

end Calls

section Regaining

variable {c d : Credentials} {x : Id}

/-- Without a user id 0, no call leads to one, nor to a group id that is new. -/
theorem change_unprivileged {call : Call} (h : c.run call = some d) (hu : ¬ c.uid.Holds root) :
    ¬ d.uid.Holds root ∧ ∀ x, d.gid.Holds x → c.gid.Holds x := by
  have hp : c.privileged = false := privileged_false.mpr fun he => hu (.inr (.inl he))
  cases call with
  | setuid n =>
    obtain ⟨x, i, -, hi, rfl⟩ := change_eq_some.mp h
    rw [hp] at hi
    exact ⟨fun hr => hu (Ids.set_holds hi hr), fun _ hg => hg⟩
  | seteuid n =>
    obtain ⟨x, i, -, hi, rfl⟩ := change_eq_some.mp h
    rw [hp] at hi
    exact ⟨fun hr => hu (Ids.setEffective_holds hi hr), fun _ hg => hg⟩
  | setgid n =>
    obtain ⟨x, i, -, hi, rfl⟩ := change_eq_some.mp h
    rw [hp] at hi
    exact ⟨hu, fun _ hg => Ids.set_holds hi hg⟩
  | setegid n =>
    obtain ⟨x, i, -, hi, rfl⟩ := change_eq_some.mp h
    rw [hp] at hi
    exact ⟨hu, fun _ hg => Ids.setEffective_holds hi hg⟩

theorem reaches_unprivileged (h : Reaches c d) (hu : ¬ c.uid.Holds root) :
    ¬ d.uid.Holds root ∧ ∀ x, d.gid.Holds x → c.gid.Holds x := by
  induction h with
  | refl => exact ⟨hu, fun _ hg => hg⟩
  | tail _ hstep ih =>
    obtain ⟨call, hcall⟩ := hstep
    obtain ⟨hd, hg⟩ := change_unprivileged hcall ih.1
    exact ⟨hd, fun x hx => ih.2 x (hg x hx)⟩

theorem regainsUid_iff : RegainsUid c ↔ c.uid.Holds root := by
  constructor
  · rintro ⟨d, hd, he⟩
    by_contra hu
    exact (reaches_unprivileged hd hu).1 (.inr (.inl he))
  · intro hu
    rcases Ids.setEffective_of_holds (p := c.privileged) hu with he | ⟨i, hi, he⟩
    · exact ⟨c, .refl, he⟩
    · refine ⟨{ c with uid := i }, .single ⟨.seteuid root.val, ?_⟩, he⟩
      exact change_of_some (f := c.uid.setEffective c.privileged) hi fun i => { c with uid := i }

/-- Who can become privileged can have any group id. -/
theorem regainsGid_iff : RegainsGid c ↔ c.uid.Holds root ∨ c.gid.Holds root := by
  constructor
  · rintro ⟨d, hd, he⟩
    by_contra hno
    obtain ⟨hu, hg⟩ := not_or.mp hno
    exact hg ((reaches_unprivileged hd hu).2 root (.inr (.inl he)))
  · rintro (hu | hg)
    · obtain ⟨d, hd, he⟩ := regainsUid_iff.mpr hu
      refine ⟨{ d with gid := .all root }, .tail hd ⟨.setgid root.val, ?_⟩, rfl⟩
      have hset : d.gid.set d.privileged root = some (.all root) := by
        rw [privileged_iff.mpr he, Ids.set_privileged]
      exact change_of_some (f := d.gid.set d.privileged) hset fun i => { d with gid := i }
    · rcases Ids.setEffective_of_holds (p := c.privileged) hg with he | ⟨i, hi, he⟩
      · exact ⟨c, .refl, he⟩
      · refine ⟨{ c with gid := i }, .single ⟨.setegid root.val, ?_⟩, he⟩
        exact change_of_some (f := c.gid.setEffective c.privileged) hi fun i => { c with gid := i }

end Regaining

end UbervisorCredentials
