import Mathlib.Data.List.Basic
import Mathlib.Logic.Function.Basic
import Mathlib.Order.Defs.LinearOrder
import Ubervisor.BufferedFiles

/-! # Directories with hard links

Names that lead to files, and one file that is open for writing. A text that is written to a
file of another name, which is then linked to its own, is found under it as a whole or not at
all, whatever happens in between. -/
namespace UbervisorDirectories

variable {ν α τ : Type*} [DecidableEq ν]

/-- A file, with the time of its last write. -/
structure File (α τ : Type*) where
  content : List α
  time : τ

/-- A file that is open for writing, and what was printed but not written to it yet. -/
structure Opened (α : Type*) where
  file : ℕ
  buffer : List α

structure Dir (ν α τ : Type*) where
  names : ν → Option ℕ
  files : ℕ → File α τ
  next : ℕ
  stream : Option (Opened α)

inductive Op (ν α : Type*) where
  | create (n : ν)
  | print (ok : Bool) (b : List α)
  | close
  | link (src dst : ν)
  | unlink (n : ν)
  deriving DecidableEq

def Dir.write (d : Dir ν α τ) (t : τ) (i : ℕ) (c : List α) (o : Option (Opened α)) : Dir ν α τ :=
  { d with files := Function.update d.files i ⟨(d.files i).content ++ c, t⟩, stream := o }

/-- The operations that a file system can carry out at the time `t`. What is printed is written when
the buffer is full, or at last when the file is closed. If the disk is full, any part of it may be
written; an error in printing is reported, but closing tells nothing. -/
inductive Exec (t : τ) (full : Bool) : Dir ν α τ → Op ν α → Dir ν α τ → Prop where
  | create (d : Dir ν α τ) (n : ν) (new : d.names n = none) : Exec t full d (.create n)
      { names := Function.update d.names n (some d.next)
        files := Function.update d.files d.next ⟨[], t⟩
        next := d.next + 1
        stream := some ⟨d.next, []⟩ }
  | truncate (d : Dir ν α τ) (n : ν) (i : ℕ) (old : d.names n = some i) : Exec t full d (.create n)
      { d with files := Function.update d.files i ⟨[], t⟩, stream := some ⟨i, []⟩ }
  | print (d : Dir ν α τ) (o : Opened α) (b c r : List α) (opened : d.stream = some o)
      (all : c ++ r = o.buffer ++ b) :
      Exec t full d (.print true b) (d.write t o.file c (some ⟨o.file, r⟩))
  | fail (d : Dir ν α τ) (o : Opened α) (b c r : List α) (opened : d.stream = some o)
      (error : full = true) (part : c ++ r <+: o.buffer ++ b) :
      Exec t full d (.print false b) (d.write t o.file c (some ⟨o.file, r⟩))
  | close (d : Dir ν α τ) (o : Opened α) (opened : d.stream = some o) :
      Exec t full d .close (d.write t o.file o.buffer none)
  | lose (d : Dir ν α τ) (o : Opened α) (c : List α) (opened : d.stream = some o)
      (error : full = true) (part : c <+: o.buffer) :
      Exec t full d .close (d.write t o.file c none)
  | closed (d : Dir ν α τ) (closed : d.stream = none) : Exec t full d .close d
  | link (d : Dir ν α τ) (src dst : ν) (i : ℕ) (found : d.names src = some i)
      (free : d.names dst = none) : Exec t full d (.link src dst)
        { d with names := Function.update d.names dst (some i) }
  | unlink (d : Dir ν α τ) (n : ν) :
      Exec t full d (.unlink n) { d with names := Function.update d.names n none }

inductive Execs (t : τ) (full : Bool) : Dir ν α τ → List (Op ν α) → Dir ν α τ → Prop where
  | nil (d : Dir ν α τ) : Execs t full d [] d
  | cons {d x d' : Dir ν α τ} {op : Op ν α} {ops : List (Op ν α)} (h : Exec t full d op x)
      (k : Execs t full x ops d') : Execs t full d (op :: ops) d'

/-- An operation that is carried out, if it can be: what is printed is written when the file is
closed, and no write fails. -/
def exec (t : τ) (d : Dir ν α τ) : Op ν α → Option (Dir ν α τ)
  | .create n =>
    match d.names n with
    | none => some
      { names := Function.update d.names n (some d.next)
        files := Function.update d.files d.next ⟨[], t⟩
        next := d.next + 1
        stream := some ⟨d.next, []⟩ }
    | some i => some
      { d with files := Function.update d.files i ⟨[], t⟩, stream := some ⟨i, []⟩ }
  | .print ok b =>
    match ok, d.stream with
    | true, some o => some (d.write t o.file [] (some ⟨o.file, o.buffer ++ b⟩))
    | _, _ => none
  | .close =>
    match d.stream with
    | some o => some (d.write t o.file o.buffer none)
    | none => some d
  | .link src dst =>
    match d.names src, d.names dst with
    | some i, none => some { d with names := Function.update d.names dst (some i) }
    | _, _ => none
  | .unlink n => some { d with names := Function.update d.names n none }

def execs (t : τ) : Dir ν α τ → List (Op ν α) → Option (Dir ν α τ)
  | d, [] => some d
  | d, op :: ops => (exec t d op).bind fun x => execs t x ops

/-- The first `k` symbols of a file that is no longer open. -/
def Dir.torn (d : Dir ν α τ) (i k : ℕ) : Dir ν α τ :=
  { d with
    files := Function.update d.files i ⟨(d.files i).content.take k, (d.files i).time⟩
    stream := none }

/-- The stream is lost with its buffer, and an end of what was written to its file. -/
inductive Lost : Dir ν α τ → Dir ν α τ → Prop where
  | idle (d : Dir ν α τ) (closed : d.stream = none) : Lost d d
  | torn (d : Dir ν α τ) (o : Opened α) (k : ℕ) (opened : d.stream = some o) :
      Lost d (d.torn o.file k)

/-- File numbers in use are smaller than the next one. -/
def Numbered (d : Dir ν α τ) : Prop := ∀ n i, d.names n = some i → i < d.next

/-- The file `i` is open. -/
def Dir.Open (d : Dir ν α τ) (i : ℕ) : Prop := ∃ b, d.stream = some ⟨i, b⟩

/-- Printing and closing. -/
def Op.writes : Op ν α → Prop
  | .print _ _ => True
  | .close => True
  | _ => False

section Frames

variable {t : τ} {full : Bool} {d d' x : Dir ν α τ} {ops : List (Op ν α)} {n tmp dst : ν}
  {b : List α}

theorem exec_sound {op : Op ν α} (h : exec t d op = some x) : Exec t full d op x := by
  cases op with
  | create n =>
    cases hn : d.names n with
    | none =>
      simp only [exec, hn, Option.some.injEq] at h
      exact h ▸ .create d n hn
    | some i =>
      simp only [exec, hn, Option.some.injEq] at h
      exact h ▸ .truncate d n i hn
  | print ok b =>
    cases ok with
    | false => simp [exec] at h
    | true =>
      cases hs : d.stream with
      | none => simp [exec, hs] at h
      | some o =>
        simp only [exec, hs, Option.some.injEq] at h
        exact h ▸ .print d o b [] (o.buffer ++ b) hs rfl
  | close =>
    cases hs : d.stream with
    | none =>
      simp only [exec, hs, Option.some.injEq] at h
      exact h ▸ .closed d hs
    | some o =>
      simp only [exec, hs, Option.some.injEq] at h
      exact h ▸ .close d o hs
  | link src dst =>
    cases hsrc : d.names src with
    | none => simp [exec, hsrc] at h
    | some i =>
      cases hdst : d.names dst with
      | none =>
        simp only [exec, hsrc, hdst, Option.some.injEq] at h
        exact h ▸ .link d src dst i hsrc hdst
      | some j => simp [exec, hsrc, hdst] at h
  | unlink n =>
    cases h
    exact .unlink d n

theorem execs_sound (h : execs t d ops = some x) : Execs t full d ops x := by
  induction ops generalizing d with
  | nil =>
    cases h
    exact .nil _
  | cons op ops ih =>
    obtain ⟨y, hy, hops⟩ := Option.bind_eq_some_iff.mp h
    exact .cons (exec_sound hy) (ih hops)

theorem Execs.append {ops' : List (Op ν α)} (h : Execs t full d ops x)
    (k : Execs t full x ops' d') :
    Execs t full d (ops ++ ops') d' := by
  induction h with
  | nil => exact k
  | cons h _ ih => exact .cons h (ih k)

theorem execs_append {ops' : List (Op ν α)} :
    Execs t full d (ops ++ ops') d' ↔ ∃ x, Execs t full d ops x ∧ Execs t full x ops' d' := by
  constructor
  · intro h
    induction ops generalizing d with
    | nil => exact ⟨d, .nil d, h⟩
    | cons op ops ih =>
      cases h with
      | cons h k =>
        obtain ⟨y, hy, hk⟩ := ih k
        exact ⟨y, .cons h hy, hk⟩
  · rintro ⟨x, h, k⟩
    exact h.append k

/-- The names that an operation may bring in. -/
def Op.brings : Op ν α → List ν
  | .create n => [n]
  | .link _ dst => [dst]
  | _ => []

theorem exec_names {op : Op ν α} (h : Exec t full d op x) (hn : x.names n ≠ none) :
    d.names n ≠ none ∨ n ∈ op.brings := by
  cases h with
  | create m new =>
    by_cases he : n = m
    · exact .inr (he ▸ List.mem_singleton_self m)
    · exact .inl fun hnone => hn ((Function.update_of_ne he _ _).trans hnone)
  | link src dst i found free =>
    by_cases he : n = dst
    · exact .inr (he ▸ List.mem_singleton_self dst)
    · exact .inl fun hnone => hn ((Function.update_of_ne he _ _).trans hnone)
  | unlink m =>
    by_cases he : n = m
    · subst he
      exact absurd (Function.update_self _ _ _) hn
    · exact .inl fun hnone => hn ((Function.update_of_ne he _ _).trans hnone)
  | _ => exact .inl hn

theorem execs_names (h : Execs t full d ops d') (hn : d'.names n ≠ none) :
    d.names n ≠ none ∨ n ∈ ops.flatMap Op.brings := by
  induction h with
  | nil => exact .inl hn
  | @cons d x d' op ops h _ ih =>
    rw [List.flatMap_cons, List.mem_append]
    rcases ih hn with hx | hrest
    · exact (exec_names h hx).imp_right .inl
    · exact .inr (.inr hrest)

/-- Only the file `j` may have been written, and only it may be open. -/
structure Touches (j : ℕ) (d d' : Dir ν α τ) : Prop where
  names : d'.names = d.names
  next : d'.next = d.next
  files : ∀ i, i ≠ j → d'.files i = d.files i
  stream : ∀ i, d'.Open i → i = j

omit [DecidableEq ν] in
theorem Touches.trans {j : ℕ} (h : Touches j d x) (k : Touches j x d') : Touches j d d' where
  names := k.names.trans h.names
  next := k.next.trans h.next
  files i hi := (k.files i hi).trans (h.files i hi)
  stream := k.stream

omit [DecidableEq ν] in
/-- What is written to the open file. -/
theorem write_touches {j : ℕ} {o : Opened α} {c : List α} {o' : Option (Opened α)}
    (hs : ∀ i, d.Open i → i = j) (opened : d.stream = some o)
    (hsame : ∀ p, o' = some p → p.file = o.file) : Touches j d (d.write t o.file c o') := by
  obtain rfl : o.file = j := hs o.file ⟨o.buffer, opened⟩
  refine ⟨rfl, rfl, fun k hk => Function.update_of_ne hk _ _, ?_⟩
  rintro i ⟨b, hb⟩
  exact hsame _ hb

theorem writes_touches {j : ℕ} (hs : ∀ i, d.Open i → i = j)
    (hw : ∀ op ∈ ops, Op.writes op) (h : Execs t full d ops d') : Touches j d d' := by
  induction h with
  | nil d => exact ⟨rfl, rfl, fun _ _ => rfl, hs⟩
  | @cons d x d' op ops h k ih =>
    have hone : Touches j d x := by
      have hop := hw op List.mem_cons_self
      cases h with
      | print o b c r opened _ => exact write_touches hs opened fun p hp => by cases hp; rfl
      | fail o b c r opened _ _ => exact write_touches hs opened fun p hp => by cases hp; rfl
      | close o opened => exact write_touches hs opened nofun
      | lose o c opened _ _ => exact write_touches hs opened nofun
      | closed _ => exact ⟨rfl, rfl, fun _ _ => rfl, hs⟩
      | create => exact absurd hop (by simp [Op.writes])
      | truncate => exact absurd hop (by simp [Op.writes])
      | link => exact absurd hop (by simp [Op.writes])
      | unlink => exact absurd hop (by simp [Op.writes])
    exact hone.trans (ih hone.stream fun op hop => hw op (List.mem_cons_of_mem _ hop))

/-- As long as the disk is not full everything is printed well. -/
theorem execs_printed (h : Execs t false d ops d') : .print false b ∉ ops := by
  intro hb
  induction h with
  | nil => cases hb
  | cons h _ ih =>
    rcases List.mem_cons.mp hb with rfl | hb
    · cases h
      contradiction
    · exact ih hb

end Frames

section Streams

open UbervisorBufferedFiles

variable {α : Type} {size i : ℕ} {t : τ} {d : Dir ν α τ} {s : Stream α size}

/-- The stream `s` is open, with the file `i`. -/
def Attached (d : Dir ν α τ) (t : τ) (i : ℕ) (s : Stream α size) : Prop :=
  d.stream = some ⟨i, s.buffer⟩ ∧ d.files i = ⟨s.file, t⟩

theorem create_attached {n : ν} {full : Bool} (h : d.names n = none) :
    ∃ x, Exec t full d (.create n) x ∧ Attached x t d.next (.empty : Stream α size) ∧
      x.names = Function.update d.names n (some d.next) :=
  ⟨_, .create d n h, ⟨rfl, Function.update_self ..⟩, rfl⟩

omit [DecidableEq ν] in
theorem write_attached {c : List α} {s' : Stream α size} (h : Attached d t i s)
    (hc : s'.file = s.file ++ c) : Attached (d.write t i c (some ⟨i, s'.buffer⟩)) t i s' := by
  refine ⟨rfl, ?_⟩
  simp [Dir.write, h.2, hc]

/-- A stream whose writes fail as they like prints and closes as it is possible on a full disk. -/
theorem fprintf_exec (l : List α) (ws : Writes) (h : Attached d t i s) :
    ∃ d', Exec t true d (.print (s.fprintf l ws).1 l) d' ∧ Attached d' t i (s.fprintf l ws).2.1 ∧
      d'.names = d.names := by
  obtain ⟨c, hfile, hdone, hfailed⟩ := s.fprintf_written l ws
  refine ⟨_, ?_, write_attached h hfile, rfl⟩
  cases hok : (s.fprintf l ws).1 with
  | true => exact .print d ⟨i, s.buffer⟩ l c _ h.1 (hdone hok)
  | false => exact .fail d ⟨i, s.buffer⟩ l c _ h.1 rfl (hfailed hok)

theorem fclose_exec (ws : Writes) (h : Attached d t i s) :
    ∃ d', Exec t true d .close d' ∧ d'.stream = none ∧ d'.files i = ⟨(s.fclose ws).2.file, t⟩ ∧
      d'.names = d.names := by
  obtain ⟨c, hfile, hpart, -⟩ := s.flush_written ws
  refine ⟨_, .lose d ⟨i, s.buffer⟩ c h.1 rfl hpart, rfl, ?_, rfl⟩
  have hclosed : (s.fclose ws).2.file = s.file ++ c := hfile
  simp [Dir.write, h.2, hclosed]

end Streams

section Publications

variable {t : τ} {full : Bool} {d d' x : Dir ν α τ} {body ops : List (Op ν α)} {n tmp dst : ν}
  {bs : List (List α)} {f : File α τ} {pub : ν → Prop}

/-- An attempt to write a file under the name `tmp`. It may be over before it begins. -/
def Attempt (tmp : ν) (ops : List (Op ν α)) : Prop :=
  ops = [] ∨ ∃ body, ops = .create tmp :: body ∧ ∀ op ∈ body, Op.writes op

/-- What is written under the name `tmp` is linked to `dst`. -/
def linking (tmp dst : ν) (body : List (Op ν α)) : List (Op ν α) :=
  .create tmp :: (body ++ [.link tmp dst])

def publication (tmp dst : ν) (body : List (Op ν α)) : List (Op ν α) :=
  linking tmp dst body ++ [.unlink tmp]

/-- The texts are printed, and the file is closed. -/
def printing (bs : List (List α)) : List (Op ν α) := bs.map (.print true) ++ [.close]

omit [DecidableEq ν] in
theorem printing_writes : ∀ op ∈ (printing bs : List (Op ν α)), op.writes := by
  intro op hop
  rcases List.mem_append.mp hop with hop | hop
  · obtain ⟨b, -, rfl⟩ := List.mem_map.mp hop
    trivial
  · cases List.mem_singleton.mp hop
    trivial

omit [DecidableEq ν] in
theorem Attempt.pre {ops' : List (Op ν α)} (h : Attempt tmp ops) (hp : ops' <+: ops) :
    Attempt tmp ops' := by
  rcases h with rfl | ⟨body, rfl, hw⟩
  · exact .inl (List.prefix_nil.mp hp)
  · cases ops' with
    | nil => exact .inl rfl
    | cons op ops' =>
      obtain ⟨rfl, htail⟩ := List.cons_prefix_cons.mp hp
      exact .inr ⟨ops', rfl, fun op hop => hw op (htail.subset hop)⟩

omit [DecidableEq ν] in
/-- What has been carried out of a publication: the link is there or not. -/
theorem publication_prefix (hw : ∀ op ∈ body, Op.writes op)
    (h : ops <+: publication tmp dst body) :
    Attempt tmp ops ∨ ops = linking tmp dst body ∨ ops = publication tmp dst body := by
  rcases List.prefix_concat_iff.mp h with h | h
  · exact .inr (.inr h)
  · have hlink : linking tmp dst body = (Op.create tmp :: body) ++ [.link tmp dst] := rfl
    rw [hlink] at h
    rcases List.prefix_concat_iff.mp h with h | h
    · exact .inr (.inl (h.trans hlink.symm))
    · exact .inl (Attempt.pre (.inr ⟨_, rfl, hw⟩) h)

/-- The file `f` stands under a public name, and is newer than all others that do. -/
def Current (pub : ν → Prop) [LT τ] (d : Dir ν α τ) (f : File α τ) : Prop :=
  ∃ n i, d.names n = some i ∧ d.files i = f ∧ pub n ∧ ¬ d.Open i ∧
    ∀ m j, d.names m = some j → pub m → m = n ∨ (d.files j).time < f.time

/-- A file that is created has a number of its own. -/
theorem create_exec (hnew : d.names tmp = none) (h : Exec t full d (.create tmp) x) :
    x = { names := Function.update d.names tmp (some d.next)
          files := Function.update d.files d.next ⟨[], t⟩
          next := d.next + 1
          stream := some ⟨d.next, []⟩ } := by
  cases h with
  | create => rfl
  | truncate _ i old => cases hnew.symm.trans old

/-- An attempt leaves the files under all other names alone. -/
theorem attempt_spec (hnew : d.names tmp = none) (ha : Attempt tmp ops)
    (h : Execs t full d ops d') : d' = d ∨
      d'.names = Function.update d.names tmp (some d.next) ∧ d'.next = d.next + 1 ∧
        (∀ i, i ≠ d.next → d'.files i = d.files i) ∧ ∀ i, d'.Open i → i = d.next := by
  rcases ha with rfl | ⟨body, rfl, hw⟩
  · cases h
    exact .inl rfl
  · cases h with
    | cons h k =>
      rw [create_exec hnew h] at k
      have hopen : ∀ i, Dir.Open { names := Function.update d.names tmp (some d.next)
                                   files := Function.update d.files d.next ⟨[], t⟩
                                   next := d.next + 1
                                   stream := some ⟨d.next, []⟩ } i → i = d.next := by
        rintro i ⟨b, hb⟩
        cases hb
        rfl
      have ht := writes_touches hopen hw k
      refine .inr ⟨ht.names, ht.next, fun i hi => ?_, ht.stream⟩
      rw [ht.files i hi]
      exact Function.update_of_ne hi _ _

theorem attempt_numbered (hd : Numbered d) (hnew : d.names tmp = none) (ha : Attempt tmp ops)
    (h : Execs t full d ops d') : Numbered d' := by
  rcases attempt_spec hnew ha h with rfl | ⟨hnames, hnext, -, -⟩
  · exact hd
  · intro m i hm
    rw [hnames] at hm
    rw [hnext]
    by_cases he : m = tmp
    · subst he
      rw [Function.update_self] at hm
      cases hm
      exact Nat.lt_succ_self _
    · rw [Function.update_of_ne he] at hm
      exact Nat.lt_succ_of_lt (hd m i hm)

theorem attempt_current [LT τ] (hd : Numbered d) (hnew : d.names tmp = none) (hpub : ¬ pub tmp)
    (ha : Attempt tmp ops) (h : Execs t full d ops d') (hc : Current pub d f) :
    Current pub d' f := by
  rcases attempt_spec hnew ha h with rfl | ⟨hnames, hnext, hfiles, hstream⟩
  · exact hc
  · obtain ⟨n, i, hn, hf, hp, -, hall⟩ := hc
    have hother : ∀ m, pub m → d'.names m = d.names m := by
      intro m hm
      rw [hnames]
      have hne : m ≠ tmp := fun he => hpub (he ▸ hm)
      exact Function.update_of_ne hne _ _
    have hlt : i ≠ d.next := Nat.ne_of_lt (hd n i hn)
    refine ⟨n, i, (hother n hp).trans hn, (hfiles i hlt).trans hf, hp, ?_, ?_⟩
    · exact fun hs => hlt (hstream i hs)
    · intro m j hm hpm
      rw [hother m hpm] at hm
      rw [hfiles j (Nat.ne_of_lt (hd m j hm))]
      exact hall m j hm hpm

omit [DecidableEq ν] in
theorem lost_numbered (h : Lost d d') (hd : Numbered d) : Numbered d' := by
  cases h with
  | idle => exact hd
  | torn i k opened => exact hd

omit [DecidableEq ν] in
theorem lost_current [LT τ] (h : Lost d d') (hc : Current pub d f) : Current pub d' f := by
  cases h with
  | idle => exact hc
  | torn o k opened =>
    obtain ⟨n, i, hn, hf, hp, hs, hall⟩ := hc
    have hne : i ≠ o.file := fun he => hs ⟨o.buffer, he ▸ opened⟩
    have hclosed : ¬ (d.torn o.file k).Open i := by
      rintro ⟨b, hb⟩
      cases hb
    refine ⟨n, i, hn, (Function.update_of_ne hne _ _).trans hf, hp, hclosed, ?_⟩
    intro m l hm hpm
    rcases hall m l hm hpm with he | hlt
    · exact .inl he
    · refine .inr ?_
      by_cases hl : l = o.file
      · subst hl
        simpa [Dir.torn] using hlt
      · simpa [Dir.torn, Function.update_of_ne hl] using hlt

theorem unlink_current [LT τ] (hpub : ¬ pub tmp) (h : Exec t full d (.unlink tmp) d')
    (hc : Current pub d f) : Current pub d' f := by
  cases h with
  | unlink =>
    obtain ⟨n, i, hn, hf, hp, hs, hall⟩ := hc
    have hself : n ≠ tmp := fun he => hpub (he ▸ hp)
    refine ⟨n, i, (Function.update_of_ne hself _ _).trans hn, hf, hp, hs, ?_⟩
    intro m j hm hpm
    have hne : m ≠ tmp := fun he => hpub (he ▸ hpm)
    exact hall m j ((Function.update_of_ne hne _ _).symm.trans hm) hpm

theorem unlink_numbered (h : Exec t full d (.unlink tmp) d') (hd : Numbered d) : Numbered d' := by
  cases h with
  | unlink =>
    intro m i hm
    change Function.update d.names tmp none m = some i at hm
    by_cases he : m = tmp
    · subst he
      rw [Function.update_self] at hm
      cases hm
    · exact hd m i ((Function.update_of_ne he _ _).symm.trans hm)

/-- What is printed well is in the file or in its buffer. -/
theorem print_content {i : ℕ} {c r : List α} (hs : d.stream = some ⟨i, r⟩)
    (hf : d.files i = ⟨c, t⟩) (h : Execs t full d (bs.map (.print true)) d') :
    ∃ c' r', d'.stream = some ⟨i, r'⟩ ∧ d'.files i = ⟨c', t⟩ ∧
      c' ++ r' = c ++ r ++ bs.flatten := by
  induction bs generalizing d c r with
  | nil =>
    cases h
    exact ⟨c, r, hs, hf, (List.append_nil _).symm⟩
  | cons b bs ih =>
    cases h with
    | cons h k =>
      cases h with
      | print o b e r₁ opened all =>
        cases opened.symm.trans hs
        have hwritten : (d.write t i e (some ⟨i, r₁⟩)).files i = ⟨c ++ e, t⟩ := by
          simp [Dir.write, hf]
        obtain ⟨c', r', hstream, hfile, hcontent⟩ := ih rfl hwritten k
        refine ⟨c', r', hstream, hfile, ?_⟩
        rw [hcontent, List.append_assoc c, all, List.flatten_cons]
        simp only [List.append_assoc]

/-- On a disk that is not full the file holds all texts when it is closed. -/
theorem printing_content {i : ℕ} {c : List α} (hs : d.stream = some ⟨i, []⟩)
    (hf : d.files i = ⟨c, t⟩) (h : Execs t false d (printing bs) d') :
    d'.files i = ⟨c ++ bs.flatten, t⟩ ∧ d'.stream = none := by
  obtain ⟨x, hprints, hend⟩ := execs_append.mp h
  obtain ⟨c', r', hstream, hfile, hcontent⟩ := print_content hs hf hprints
  cases hend with
  | cons hclose hnil =>
    cases hnil
    cases hclose with
    | close o opened =>
      cases opened.symm.trans hstream
      rw [List.append_nil] at hcontent
      refine ⟨?_, rfl⟩
      simp [Dir.write, hfile, hcontent]
    | lose o c opened error _ => cases error
    | closed closed => cases closed.symm.trans hstream

/-- When the link is there, the file is complete. -/
theorem linking_spec (hnew : d.names tmp = none) (hne : dst ≠ tmp)
    (h : Execs t false d (linking tmp dst (printing bs)) d') : d.names dst = none ∧
      d'.names = Function.update (Function.update d.names tmp (some d.next)) dst (some d.next) ∧
      d'.next = d.next + 1 ∧ d'.files d.next = ⟨bs.flatten, t⟩ ∧
      (∀ i, i ≠ d.next → d'.files i = d.files i) ∧ d'.stream = none := by
  cases h with
  | cons h k =>
    rw [create_exec hnew h] at k
    obtain ⟨y, hprints, hend⟩ := execs_append.mp k
    have hopen : ∀ i, Dir.Open { names := Function.update d.names tmp (some d.next)
                                 files := Function.update d.files d.next ⟨[], t⟩
                                 next := d.next + 1
                                 stream := some ⟨d.next, []⟩ } i → i = d.next := by
      rintro i ⟨b, hb⟩
      cases hb
      rfl
    have ht := writes_touches hopen printing_writes hprints
    obtain ⟨hcontent, hclosed⟩ := printing_content (c := []) rfl (by simp) hprints
    cases hend with
    | cons hlink hnil =>
      cases hnil
      cases hlink with
      | link _ _ i found free =>
        have hnames : y.names = Function.update d.names tmp (some d.next) := ht.names
        rw [hnames, Function.update_self] at found
        cases found
        rw [hnames, Function.update_of_ne hne] at free
        refine ⟨free, by simp [hnames], ht.next, hcontent, ?_, hclosed⟩
        intro i hi
        exact (ht.files i hi).trans (Function.update_of_ne hi _ _)

/-- A file that is linked to a public name is the current one from then on. -/
theorem linking_current [LT τ] (hd : Numbered d) (hnew : d.names tmp = none) (hpub : ¬ pub tmp)
    (hdst : pub dst) (hold : ∀ m j, d.names m = some j → pub m → (d.files j).time < t)
    (h : Execs t false d (linking tmp dst (printing bs)) d') :
    Numbered d' ∧ Current pub d' ⟨bs.flatten, t⟩ := by
  have hne : dst ≠ tmp := fun he => hpub (he ▸ hdst)
  obtain ⟨-, hnames, hnext, hfile, hfiles, hstream⟩ := linking_spec hnew hne h
  constructor
  · intro m i hm
    rw [hnames] at hm
    rw [hnext]
    by_cases hd' : m = dst
    · rw [hd', Function.update_self] at hm
      cases hm
      exact Nat.lt_succ_self _
    · rw [Function.update_of_ne hd'] at hm
      by_cases ht : m = tmp
      · rw [ht, Function.update_self] at hm
        cases hm
        exact Nat.lt_succ_self _
      · rw [Function.update_of_ne ht] at hm
        exact Nat.lt_succ_of_lt (hd m i hm)
  · have hclosed : ¬ d'.Open d.next := by
      rintro ⟨b, hb⟩
      cases hstream.symm.trans hb
    refine ⟨dst, d.next, ?_, hfile, hdst, hclosed, ?_⟩
    · rw [hnames, Function.update_self]
    · intro m j hm hpm
      by_cases he : m = dst
      · exact .inl he
      · have ht : m ≠ tmp := fun ht => hpub (ht ▸ hpm)
        rw [hnames, Function.update_of_ne he, Function.update_of_ne ht] at hm
        rw [hfiles j (Nat.ne_of_lt (hd m j hm))]
        exact .inr (hold m j hm hpm)

end Publications

end UbervisorDirectories
