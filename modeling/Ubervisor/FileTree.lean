import Mathlib.Logic.Function.Iterate
import Mathlib.Tactic.Push

/-! # File trees

Directories with the names in them, and how a path is found from a working directory. A symbolic
link is an entry that holds what it leads to. -/
namespace UbervisorFileTree

inductive Component (ν : Type) where
  | here
  | up
  | name (n : ν)
  deriving DecidableEq

/-- What is between the slashes. A relative path without components is the empty one; after a
slash at the end a path is for directories only. -/
structure Path (ν : Type) where
  fromRoot : Bool
  steps : List (Component ν)
  dirOnly : Bool

inductive Node (δ : Type) where
  | dir (d : δ)
  | file (f : ℕ)

/-- `next` is the number of the file that is created next. -/
structure FileTree (δ ν : Type) where
  root : δ
  parent : δ → δ
  entry : δ → ν → Option (Node δ)
  next : ℕ
  root_parent : parent root = root
  rooted : ∀ d, ∃ k, parent^[k] d = root
  used : ∀ d n f, entry d n = some (.file f) → f < next

variable {δ ν : Type}

namespace FileTree

section Lookup

variable (T : FileTree δ ν)

def enter (d : δ) : Component ν → Option δ
  | .here => some d
  | .up => some (T.parent d)
  | .name n =>
    match T.entry d n with
    | some (.dir e) => some e
    | _ => none

def walk : δ → List (Component ν) → Option δ
  | d, [] => some d
  | d, c :: cs => (T.enter d c).bind fun e => walk e cs

def start (w : δ) (p : Path ν) : δ := if p.fromRoot then T.root else w

/-- The new working directory. -/
def chdir (w : δ) (p : Path ν) : Option δ :=
  if p.fromRoot = false ∧ p.steps = [] then none else T.walk (T.start w p) p.steps

/-- The directory and the name in it that a path of a file stands for. -/
def place (w : δ) (p : Path ν) : Option (δ × ν) :=
  match p.steps.getLast? with
  | some (.name n) =>
    if p.dirOnly then none
    else (T.walk (T.start w p) p.steps.dropLast).map fun d => (d, n)
  | _ => none

def fileAt (x : δ × ν) : Option ℕ :=
  match T.entry x.1 x.2 with
  | some (.file f) => some f
  | _ => none

/-- The file that `open` finds. -/
def fileOf (w : δ) (p : Path ν) : Option ℕ := (T.place w p).bind T.fileAt

end Lookup

section Creation

variable [DecidableEq δ] [DecidableEq ν] (T : FileTree δ ν)

def create (x : δ × ν) : FileTree δ ν where
  root := T.root
  parent := T.parent
  entry d n := if (d, n) = x then some (.file T.next) else T.entry d n
  next := T.next + 1
  root_parent := T.root_parent
  rooted := T.rooted
  used := by
    intro d n f h
    by_cases hx : (d, n) = x
    · rw [if_pos hx] at h
      cases h
      exact Nat.lt_succ_self _
    · rw [if_neg hx] at h
      exact Nat.lt_succ_of_lt (T.used d n f h)

def openAt (x : δ × ν) : Option (ℕ × FileTree δ ν) :=
  match T.entry x.1 x.2 with
  | some (.file f) => some (f, T)
  | some (.dir _) => none
  | none => some (T.next, T.create x)

/-- `open` for writing, with `O_CREAT`. -/
def openCreate (w : δ) (p : Path ν) : Option (ℕ × FileTree δ ν) := (T.place w p).bind T.openAt

end Creation

/-- `U` has the directories of `T`, and its files. -/
structure Extends (T U : FileTree δ ν) : Prop where
  root : U.root = T.root
  parent : U.parent = T.parent
  kept : ∀ d n x, T.entry d n = some x → U.entry d n = some x
  dirs : ∀ d n e, U.entry d n = some (.dir e) → T.entry d n = some (.dir e)

section Lookup

variable {T U V : FileTree δ ν} {w d e : δ} {p : Path ν} {cs cs' : List (Component ν)} {f : ℕ}

theorem Extends.refl : Extends T T := ⟨rfl, rfl, fun _ _ _ h => h, fun _ _ _ h => h⟩

theorem Extends.trans (h : Extends T U) (k : Extends U V) : Extends T V :=
  ⟨k.root.trans h.root, k.parent.trans h.parent, fun d n x hx => k.kept d n x (h.kept d n x hx),
    fun d n e he => h.dirs d n e (k.dirs d n e he)⟩

theorem walk_append : T.walk d (cs ++ cs') = (T.walk d cs).bind fun e => T.walk e cs' := by
  induction cs generalizing d with
  | nil => rfl
  | cons c cs ih =>
    rw [List.cons_append, walk, walk]
    cases T.enter d c with
    | none => rfl
    | some e => exact ih

theorem walk_here (h : ∀ c ∈ cs, c = .here) : T.walk d cs = some d := by
  induction cs with
  | nil => rfl
  | cons c cs ih =>
    rw [h c List.mem_cons_self]
    exact ih fun c hc => h c (List.mem_cons_of_mem _ hc)

theorem enter_dir {n : ν} : T.enter d (.name n) = some e ↔ T.entry d n = some (.dir e) := by
  rw [enter]
  constructor
  · intro h
    split at h
    · rename_i hd
      cases h
      exact hd
    · cases h
  · intro h
    rw [h]

theorem Extends.enter (h : Extends T U) (d : δ) (c : Component ν) : U.enter d c = T.enter d c := by
  cases c with
  | here => rfl
  | up => exact congrArg some (congrFun h.parent d)
  | name n =>
    refine Option.ext fun e => ?_
    rw [enter_dir, enter_dir]
    exact ⟨h.dirs d n e, h.kept d n _⟩

theorem Extends.walk (h : Extends T U) (cs : List (Component ν)) (d : δ) :
    U.walk d cs = T.walk d cs := by
  induction cs generalizing d with
  | nil => rfl
  | cons c cs ih =>
    rw [FileTree.walk, FileTree.walk, h.enter]
    exact congrArg _ (funext ih)

theorem Extends.place (h : Extends T U) (w : δ) (p : Path ν) : U.place w p = T.place w p := by
  have hstart : U.start w p = T.start w p := by
    unfold start
    rw [h.root]
  unfold FileTree.place
  rw [hstart, h.walk]

theorem fileAt_some {x : δ × ν} : T.fileAt x = some f ↔ T.entry x.1 x.2 = some (.file f) := by
  unfold fileAt
  constructor
  · intro h
    split at h
    · rename_i hf
      cases h
      exact hf
    · cases h
  · intro h
    rw [h]

/-- What a path stands for stays what it is. -/
theorem Extends.fileOf (h : Extends T U) (hf : T.fileOf w p = some f) :
    U.fileOf w p = some f := by
  obtain ⟨x, hx, hfile⟩ := Option.bind_eq_some_iff.mp hf
  refine Option.bind_eq_some_iff.mpr ⟨x, ?_, ?_⟩
  · rw [h.place, hx]
  · exact fileAt_some.mpr (h.kept _ _ _ (fileAt_some.mp hfile))

theorem place_name {n : ν} (hd : p.dirOnly = false) (hn : p.steps.getLast? = some (.name n)) :
    T.place w p = (T.walk (T.start w p) p.steps.dropLast).map fun d => (d, n) := by
  unfold place
  rw [hn]
  exact if_neg (by rw [hd]; exact Bool.false_ne_true)

/-- The working directory does not matter to a path from the root. -/
theorem place_start (h : p.fromRoot = true ∨ d = w) : T.place d p = T.place w p := by
  have hstart : T.start d p = T.start w p := by
    unfold start
    rcases h with h | h
    · rw [if_pos h, if_pos h]
    · rw [h]
  unfold place
  rw [hstart]

end Lookup

section Creation

variable [DecidableEq δ] [DecidableEq ν] {T U : FileTree δ ν} {w : δ} {p : Path ν} {f : ℕ}
  {x : δ × ν}

theorem create_extends (h : T.entry x.1 x.2 = none) : Extends T (T.create x) := by
  refine ⟨rfl, rfl, ?_, ?_⟩
  · intro d n y hy
    have hne : (d, n) ≠ x := by
      rintro rfl
      cases h.symm.trans hy
    exact (if_neg hne).trans hy
  · intro d n e he
    change (if (d, n) = x then some (.file T.next) else T.entry d n) = _ at he
    by_cases hx : (d, n) = x
    · rw [if_pos hx] at he
      cases he
    · rwa [if_neg hx] at he

/-- An opened file is the one that its path stands for. -/
theorem openCreate_opens (h : T.openCreate w p = some (f, U)) :
    Extends T U ∧ U.fileOf w p = some f := by
  obtain ⟨x, hx, ho⟩ := Option.bind_eq_some_iff.mp h
  have hat : Extends T U ∧ U.fileAt x = some f := by
    unfold openAt at ho
    split at ho
    · rename_i g hg
      cases ho
      exact ⟨.refl, fileAt_some.mpr hg⟩
    · cases ho
    · rename_i hnone
      cases ho
      exact ⟨create_extends hnone, fileAt_some.mpr (if_pos rfl)⟩
  refine ⟨hat.1, Option.bind_eq_some_iff.mpr ⟨x, ?_, hat.2⟩⟩
  rw [hat.1.place, hx]

/-- Where no directory is in the way, a file can be opened. -/
theorem openCreate_succeeds (hx : T.place w p = some x)
    (hno : ∀ e, T.entry x.1 x.2 ≠ some (.dir e)) : ∃ f U, T.openCreate w p = some (f, U) := by
  unfold openCreate
  rw [hx, Option.bind_some, openAt]
  split
  · exact ⟨_, _, rfl⟩
  · rename_i e he
    exact absurd he (hno e)
  · exact ⟨_, _, rfl⟩

end Creation

end FileTree

namespace Path

variable {p : Path ν}

/-- A path that leads nowhere else, from any working directory. -/
def Stationary (p : Path ν) : Prop := p.fromRoot = false ∧ ∀ c ∈ p.steps, c = .here

/-- A path that can be the path of a file. -/
def NamesFile (p : Path ν) : Prop := p.dirOnly = false ∧ ∃ n, p.steps.getLast? = some (.name n)

theorem Stationary.chdir {T : FileTree δ ν} {w d : δ} (h : p.Stationary)
    (hd : T.chdir w p = some d) : d = w := by
  unfold FileTree.chdir at hd
  split at hd
  · cases hd
  · rw [FileTree.start, h.1, FileTree.walk_here h.2] at hd
    cases hd
    rfl

theorem namesFile_of_place {T : FileTree δ ν} {w : δ} {x : δ × ν} (h : T.place w p = some x) :
    p.NamesFile := by
  unfold FileTree.place at h
  split at h
  · rename_i n hn
    split at h
    · cases h
    · rename_i hd
      exact ⟨Bool.not_eq_true _ ▸ hd, n, hn⟩
  · cases h

end Path

section Ladders

variable {cs cs' : List (Component ν)} {K : ℕ} {d e : Option (ℕ × ℕ)} {i k : ℕ}

/-- A directory other than the root has a rank and a depth: a name leads up by one rank, and
`..` leads to the next directory of the same rank, the last of which is the root. -/
abbrev Rung := Option (ℕ × ℕ)

def below : Rung → Rung
  | none => none
  | some (_, 0) => none
  | some (i, k + 1) => some (i, k)

def above (K : ℕ) : Rung → Rung
  | none => some (0, K)
  | some (i, k) => some (i + 1, k)

theorem below_root (d : Rung) : ∃ n, below^[n] d = none := by
  rcases d with _ | ⟨i, k⟩
  · exact ⟨0, rfl⟩
  · induction k with
    | zero => exact ⟨1, rfl⟩
    | succ k ih =>
      obtain ⟨n, hn⟩ := ih
      exact ⟨n + 1, hn⟩

/-- Directories in which every name is that of a directory, except one. -/
def ladder [DecidableEq ν] (K : ℕ) (hole : Rung × ν) : FileTree Rung ν where
  root := none
  parent := below
  entry d n := if (d, n) = hole then none else some (.dir (above K d))
  next := 0
  root_parent := rfl
  rooted := below_root
  used := by
    intro d n f h
    by_cases hx : (d, n) = hole
    · rw [if_pos hx] at h
      cases h
    · rw [if_neg hx] at h
      cases h

def move (K : ℕ) (d : Rung) : Component ν → Rung
  | .here => d
  | .up => below d
  | .name _ => above K d

def target (K : ℕ) (d : Rung) (cs : List (Component ν)) : Rung := cs.foldl (move K) d

def names : List (Component ν) → ℕ
  | [] => 0
  | .name _ :: cs => names cs + 1
  | _ :: cs => names cs

def ups : List (Component ν) → ℕ
  | [] => 0
  | .up :: cs => ups cs + 1
  | _ :: cs => ups cs

theorem names_append : names (cs ++ cs') = names cs + names cs' := by
  induction cs with
  | nil => exact (Nat.zero_add _).symm
  | cons c cs ih =>
    cases c with
    | name n =>
      change names (cs ++ cs') + 1 = names cs + 1 + names cs'
      omega
    | _ => exact ih

theorem ups_append : ups (cs ++ cs') = ups cs + ups cs' := by
  induction cs with
  | nil => exact (Nat.zero_add _).symm
  | cons c cs ih =>
    cases c with
    | up =>
      change ups (cs ++ cs') + 1 = ups cs + 1 + ups cs'
      omega
    | _ => exact ih

theorem names_cons (c : Component ν) (cs : List (Component ν)) :
    names (c :: cs) = names [c] + names cs := @names_append ν [c] cs

theorem ups_cons (c : Component ν) (cs : List (Component ν)) :
    ups (c :: cs) = ups [c] + ups cs := @ups_append ν [c] cs

theorem all_here (hn : names cs = 0) (hu : ups cs = 0) : ∀ c ∈ cs, c = .here := by
  induction cs with
  | nil => exact nofun
  | cons c cs ih =>
    cases c with
    | here =>
      intro c hc
      rcases List.mem_cons.mp hc with rfl | hc
      · rfl
      · exact ih hn hu c hc
    | up => cases hu
    | name n => cases hn

def rank : Rung → ℕ
  | none => 0
  | some (i, _) => i + 1

def depth (K : ℕ) : Rung → ℕ
  | none => K
  | some (_, k) => k

/-- On a ladder that is deep enough, names and `..` never cancel. -/
theorem target_some (h : ups cs ≤ k) :
    target K (some (i, k)) cs = some (i + names cs, k - ups cs) := by
  induction cs generalizing i k with
  | nil => rfl
  | cons c cs ih =>
    cases c with
    | here => exact ih h
    | up =>
      have hk : ups cs + 1 ≤ k := h
      obtain ⟨m, rfl⟩ := Nat.exists_eq_add_of_lt hk
      have hstep := ih (i := i) (k := ups cs + m) (by omega)
      change target K (some (i, ups cs + m)) cs = _
      rw [hstep]
      simp only [names, ups]
      congr 2
      omega
    | name n =>
      have hstep := ih (i := i + 1) h
      change target K (some (i + 1, k)) cs = _
      rw [hstep]
      simp only [names, ups]
      congr 2
      omega

theorem rank_move (c : Component ν) (h : ups [c] ≤ depth K d) :
    rank (move K d c) = rank d + names [c] ∧ depth K d - ups [c] ≤ depth K (move K d c) := by
  rcases d with _ | ⟨i, k⟩
  · cases c with
    | here => exact ⟨rfl, Nat.sub_le _ _⟩
    | up => exact ⟨rfl, Nat.sub_le _ _⟩
    | name n => exact ⟨rfl, Nat.sub_le _ _⟩
  · cases c with
    | here => exact ⟨rfl, Nat.sub_le _ _⟩
    | up =>
      have hk : 1 ≤ k := h
      obtain ⟨m, rfl⟩ := Nat.exists_eq_add_of_lt hk
      exact ⟨rfl, by change _ - _ ≤ 0 + m; simp only [depth, ups]; omega⟩
    | name n => exact ⟨rfl, Nat.sub_le _ _⟩

theorem rank_target (h : ups cs ≤ depth K d) : rank (target K d cs) = rank d + names cs := by
  induction cs generalizing d with
  | nil => rfl
  | cons c cs ih =>
    have hups := ups_cons c cs
    have hnames := names_cons c cs
    obtain ⟨hrank, hdepth⟩ := rank_move (K := K) (d := d) c (by omega)
    change rank (target K (move K d c) cs) = _
    rw [ih (by omega), hrank]
    omega

variable [DecidableEq ν] {hole : Rung × ν} {p q : Path ν} {n : ν}

theorem ladder_entry {d : Rung} (h : (d, n) ≠ hole) :
    (ladder K hole).entry d n = some (.dir (above K d)) := if_neg h

theorem ladder_hole {x : Rung × ν} : (ladder K x).entry x.1 x.2 = none := if_pos rfl

/-- A walk that does not stop at the hole gets to its target. -/
theorem walk_target (h : (ladder K hole).walk d cs = some e) : e = target K d cs := by
  induction cs generalizing d with
  | nil => exact (Option.some.inj h).symm
  | cons c cs ih =>
    obtain ⟨d', hd, hw⟩ := Option.bind_eq_some_iff.mp h
    have hmove : d' = move K d c := by
      cases c with
      | name n =>
        have hentry := FileTree.enter_dir.mp hd
        by_cases hx : (d, n) = hole
        · rw [← hx] at hentry
          cases ladder_hole.symm.trans hentry
        · rw [ladder_entry hx] at hentry
          cases hentry
          rfl
      | _ => exact (Option.some.inj hd).symm
    rw [hmove] at hw
    exact ih hw

/-- No walk below the hole is stopped. -/
theorem walk_reaches (hu : ups cs ≤ depth K d) (hr : rank d + names cs ≤ rank hole.1) :
    (ladder K hole).walk d cs = some (target K d cs) := by
  induction cs generalizing d with
  | nil => rfl
  | cons c cs ih =>
    have hups := ups_cons c cs
    have hnames := names_cons c cs
    obtain ⟨hrank, hdepth⟩ := rank_move (K := K) (d := d) c (by omega)
    have henter : (ladder K hole).enter d c = some (move K d c) := by
      cases c with
      | name n =>
        refine FileTree.enter_dir.mpr (ladder_entry fun hx => ?_)
        rw [← hx] at hr
        change rank d + (names cs + 1) ≤ rank d at hr
        omega
      | _ => rfl
    rw [FileTree.walk, henter, Option.bind_some]
    exact ih (by omega) (by omega)

/-- Whenever a working directory is left, there are directories in which a relative path of a file
stands for another place than before. Nothing else than this place is free. -/
theorem moved_apart (hm : ¬ p.Stationary) (hr : q.fromRoot = false) (hf : q.NamesFile) :
    ∃ (T : FileTree Rung ν) (w d : Rung) (x : Rung × ν), T.chdir w p = some d ∧
      T.place d q = some x ∧ T.place w q ≠ some x ∧ T.entry x.1 x.2 = none ∧
      ∀ y, y ≠ x → ∃ e, T.entry y.1 y.2 = some (.dir e) := by
  obtain ⟨hd, n, hn⟩ := hf
  have hrel : ∀ (T : FileTree Rung ν) w, T.start w q = w := fun T w => by
    rw [FileTree.start, hr]
    rfl
  generalize hinner : q.steps.dropLast = inner
  obtain ⟨K, hK⟩ : ∃ K, K = ups (p.steps ++ inner) := ⟨_, rfl⟩
  obtain ⟨w, hw⟩ : ∃ w : Rung, w = some (names p.steps, K) := ⟨_, rfl⟩
  obtain ⟨b, hb⟩ : ∃ b : Rung, b = if p.fromRoot then none else w := ⟨_, rfl⟩
  have hdepth : depth K b = K := by
    rw [hb, hw]
    split
    · rfl
    · rfl
  obtain ⟨e, he⟩ : ∃ e, e = target K b (p.steps ++ inner) := ⟨_, rfl⟩
  have hups : ups (p.steps ++ inner) = ups p.steps + ups inner := ups_append
  have hnames : names (p.steps ++ inner) = names p.steps + names inner := names_append
  have hrank : rank e = rank b + (names p.steps + names inner) := by
    rw [he, rank_target (by omega), hnames]
  have hall : (ladder K (e, n)).walk b (p.steps ++ inner) = some e := by
    have hbelow : rank b + names (p.steps ++ inner) ≤ rank e := by omega
    rw [he]
    exact walk_reaches (by omega) (he ▸ hbelow)
  rw [FileTree.walk_append] at hall
  obtain ⟨d, hwalk, hrest⟩ := Option.bind_eq_some_iff.mp hall
  refine ⟨ladder K (e, n), w, d, (e, n), ?_, ?_, ?_, ladder_hole, ?_⟩
  · have hstart : (ladder K (e, n)).start w p = b := hb.symm
    unfold FileTree.chdir
    rw [hstart, if_neg, hwalk]
    rintro ⟨hroot, hnil⟩
    refine hm ⟨hroot, ?_⟩
    rw [hnil]
    exact nofun
  · rw [FileTree.place_name hd hn, hrel, hinner, hrest]
    rfl
  · rw [FileTree.place_name hd hn, hrel, hinner]
    intro hplace
    obtain ⟨e', hwalk', hpair⟩ := Option.map_eq_some_iff.mp hplace
    cases hpair
    -- the two walks end at the same rank and depth only when the first one moved nowhere
    have htarget := walk_target hwalk'
    have hsame : e = some (names p.steps + names inner, K - ups inner) := by
      rw [htarget, hw]
      exact target_some (by omega)
    rw [hsame] at hrank
    change names p.steps + names inner + 1 = _ at hrank
    cases hroot : p.fromRoot with
    | true =>
      rw [hroot, if_pos rfl] at hb
      rw [hb] at hrank
      change _ = 0 + _ at hrank
      omega
    | false =>
      rw [hroot, if_neg Bool.false_ne_true] at hb
      rw [hb, hw, target_some (by omega), hsame] at he
      rw [hb, hw] at hrank
      change _ = names p.steps + 1 + _ at hrank
      have hcoords := Prod.mk.inj (Option.some.inj he)
      refine hm ⟨hroot, all_here (by omega) (by omega)⟩
  · intro y hy
    exact ⟨_, ladder_entry hy⟩

end Ladders

end UbervisorFileTree
