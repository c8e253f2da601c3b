import Mathlib.Data.List.Basic
import Mathlib.Data.Int.Notation

/-! # The ends of a stream

A stream whose reader is given as much per call as the other side and the kernel please. A
short read is a size below the number asked for; an empty one is the end of the stream or an
error. The calls of the writer take as much as the kernel pleases, or fail. -/
namespace UbervisorSockets

/-- What is still to come, and how much each of the next calls is given. A call that no size
is left for is given all that it asks for. -/
structure Socket (α : Type*) where
  pending : List α
  sizes : List ℕ
  deriving DecidableEq

namespace Socket

variable {α : Type*}

/-- `read` of up to `n` elements. -/
def read (n : ℕ) (k : Socket α) : List α × Socket α :=
  (k.pending.take (min n (k.sizes.headD n)),
    ⟨k.pending.drop (min n (k.sizes.headD n)), k.sizes.tail⟩)

/-- The loop that reads `n` elements, or up to the first empty read. -/
def collect : ℕ → ℕ → Socket α → List α × Socket α
  | 0, _, k => ([], k)
  | fuel + 1, n, k =>
    if n = 0 then ([], k)
    else
      let (x, k) := k.read n
      if x = [] then ([], k)
      else
        let (y, k) := collect fuel (n - x.length) k
        (x ++ y, k)

end Socket

/-- What has been written, and how the next calls go: they fail, or take up to so many
elements. A call that no result is left for takes all. -/
structure Sink (α : Type*) where
  written : List α
  results : List (Option ℕ)
  deriving DecidableEq

/-- `write`, with its return value. -/
def Sink.write {α : Type*} (x : List α) (k : Sink α) : ℤ × Sink α :=
  match k.results.headD (some x.length) with
  | none => (-1, { k with results := k.results.tail })
  | some n => (min x.length n, ⟨k.written ++ x.take n, k.results.tail⟩)

/-- The sizes that are left when `n` elements have been collected. -/
def afterLoop : ℕ → List ℕ → List ℕ
  | _, [] => []
  | n, m :: l => if n = 0 then m :: l else afterLoop (n - m) l

/-- The reads of the sizes `hs` are given what they ask for. -/
def Full : List ℕ → List ℕ → Prop
  | [], _ => True
  | h :: hs, sizes => h ≤ sizes.headD h ∧ Full hs sizes.tail

instance fullDecidable : ∀ hs sizes, Decidable (Full hs sizes)
  | [], _ => isTrue trivial
  | h :: hs, sizes =>
    have := fullDecidable hs sizes.tail
    inferInstanceAs (Decidable (h ≤ sizes.headD h ∧ _))

/-- The sizes that are left after frames of the lengths `ns`, each read as a header by one
call for each of `hs`, and then its body by the loop. -/
def afterFrames (hs : List ℕ) : List ℕ → List ℕ → List ℕ
  | [], sizes => sizes
  | n :: ns, sizes => afterFrames hs ns (afterLoop n (sizes.drop hs.length))

/-- Every header of frames of the lengths `ns` is read in full. -/
def HeadersFull (hs : List ℕ) : List ℕ → List ℕ → Prop
  | [], _ => True
  | n :: ns, sizes => Full hs sizes ∧ HeadersFull hs ns (afterLoop n (sizes.drop hs.length))

instance headersFullDecidable (hs : List ℕ) : ∀ ns sizes, Decidable (HeadersFull hs ns sizes)
  | [], _ => isTrue trivial
  | n :: ns, sizes =>
    have := headersFullDecidable hs ns (afterLoop n (sizes.drop hs.length))
    inferInstanceAs (Decidable (Full hs sizes ∧ _))

section Rules

variable {α : Type*} {n fuel : ℕ} {sizes : List ℕ} {p x y : List α}

@[simp] theorem afterLoop_zero : afterLoop 0 sizes = sizes := by
  cases sizes <;> rfl

/-- Sizes that are left are sizes that were there. -/
theorem afterLoop_suffix (n : ℕ) (sizes : List ℕ) : afterLoop n sizes <:+ sizes := by
  induction sizes generalizing n with
  | nil => exact List.suffix_rfl
  | cons m l ih =>
    unfold afterLoop
    split
    · exact List.suffix_rfl
    · exact (ih (n - m)).trans (List.suffix_cons m l)

theorem afterLoop_pos (h : ∀ m ∈ sizes, 0 < m) : ∀ m ∈ afterLoop n sizes, 0 < m :=
  fun m hm => h m ((afterLoop_suffix n sizes).subset hm)

theorem headersFull_append {hs ns ms sizes : List ℕ} :
    HeadersFull hs (ns ++ ms) sizes ↔
      HeadersFull hs ns sizes ∧ HeadersFull hs ms (afterFrames hs ns sizes) := by
  induction ns generalizing sizes with
  | nil => simp [HeadersFull, afterFrames]
  | cons n ns ih => simp [HeadersFull, afterFrames, ih, and_assoc]

theorem afterFrames_pos {hs : List ℕ} (ns : List ℕ) (h : ∀ m ∈ sizes, 0 < m) :
    ∀ m ∈ afterFrames hs ns sizes, 0 < m := by
  induction ns generalizing sizes with
  | nil => exact h
  | cons n ns ih => exact ih (afterLoop_pos fun m hm => h m (List.mem_of_mem_drop hm))

/-- A read that is given in full. -/
theorem read_full (h : x.length ≤ sizes.headD x.length) :
    Socket.read x.length ⟨x ++ p, sizes⟩ = (x, ⟨p, sizes.tail⟩) := by
  have hm : min x.length (sizes.headD x.length) = x.length := Nat.min_eq_left h
  unfold Socket.read
  dsimp only
  rw [hm, List.take_left, List.drop_left]

/-- A read that is not, is short. -/
theorem read_short (h : ¬ n ≤ sizes.headD n) : (Socket.read n ⟨p, sizes⟩).1.length < n := by
  unfold Socket.read
  dsimp only
  rw [List.length_take]
  omega

/-- A write that returns the length has taken all. -/
theorem write_all {k : Sink α} (h : (k.write x).1 = x.length) :
    (k.write x).2.written = k.written ++ x := by
  unfold Sink.write at h ⊢
  split at h
  · dsimp only at h
    omega
  · rename_i n _
    dsimp only at h ⊢
    rw [List.take_of_length_le (by omega)]

/-- The loop gets what it asks for when that is there and no call is given nothing. -/
theorem collect_eq (hfuel : x.length ≤ fuel) (hpos : ∀ m ∈ sizes, 0 < m) :
    Socket.collect fuel x.length ⟨x ++ p, sizes⟩ = (x, ⟨p, afterLoop x.length sizes⟩) := by
  induction fuel generalizing x sizes with
  | zero =>
    rw [List.length_eq_zero_iff.mp (Nat.le_zero.mp hfuel)]
    simp [Socket.collect]
  | succ fuel ih =>
    unfold Socket.collect
    by_cases hx : x = []
    · subst hx
      simp
    · have hlen := List.length_pos_iff.mpr hx
      rw [if_neg (by omega)]
      generalize hm : min x.length (sizes.headD x.length) = m
      have hle : m ≤ x.length := by omega
      have hmpos : 0 < m := by
        cases sizes with
        | nil =>
          simp only [List.headD_nil] at hm
          omega
        | cons k l =>
          have := hpos k List.mem_cons_self
          simp only [List.headD_cons] at hm
          omega
      have hread : Socket.read x.length ⟨x ++ p, sizes⟩ =
          (x.take m, ⟨x.drop m ++ p, sizes.tail⟩) := by
        unfold Socket.read
        dsimp only
        rw [hm, List.take_append_of_le_length hle, List.drop_append_of_le_length hle]
      have htake : (x.take m).length = m := by
        rw [List.length_take]
        omega
      have hne : x.take m ≠ [] := by
        intro he
        rw [he] at htake
        simp only [List.length_nil] at htake
        omega
      have hrest : x.length - m = (x.drop m).length := List.length_drop.symm
      have hstep : Socket.collect fuel (x.drop m).length ⟨x.drop m ++ p, sizes.tail⟩ =
          (x.drop m, ⟨p, afterLoop (x.drop m).length sizes.tail⟩) :=
        ih (by rw [← hrest]; omega) fun k hk => hpos k (List.mem_of_mem_tail hk)
      rw [hread]
      dsimp only
      rw [if_neg hne, htake, hrest, hstep, List.take_append_drop]
      refine congrArg (fun l => (x, (⟨p, l⟩ : Socket α))) ?_
      cases sizes with
      | nil => rfl
      | cons k l =>
        simp only [List.headD_cons] at hm
        rw [afterLoop, if_neg (by omega), List.tail_cons, ← hrest]
        by_cases hk : k ≤ x.length
        · rw [show m = k by omega]
        · rw [show x.length - m = 0 by omega, show x.length - k = 0 by omega]

end Rules

end UbervisorSockets
