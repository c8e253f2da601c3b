import Ubervisor.Values

/-! # The kernel's view of the server's children

Which children run, which have terminated and wait to be reaped, and the calls `fork` and
`waitpid` on this state. A pid stays in use until `waitpid` has returned it. -/
namespace UbervisorKernel

/-- A process id. `fork` returns positive ones that fit a 32-bit `int`. -/
abbrev Pid := UInt32

def validPid (pid : Pid) : Prop := 0 < pid.toNat ∧ pid.toNat < 2147483648

instance (pid : Pid) : Decidable (validPid pid) := inferInstanceAs (Decidable (_ ∧ _))

/-- How a child ended, as `WIFEXITED`/`WEXITSTATUS` and `WIFSIGNALED`/`WTERMSIG` read it. -/
inductive WaitStatus where
  | exited (code : ℕ)
  | signaled (sig : ℕ)
  deriving DecidableEq

/-- The server's children: those still running, and those terminated but not yet waited
for, in the order in which `waitpid(-1)` returns them. No pid is in use twice. -/
structure Kernel where
  running : List Pid
  zombies : List (Pid × WaitStatus)
  nodup : (running ++ zombies.map Prod.fst).Nodup

namespace Kernel

def init : Kernel := ⟨[], [], by simp⟩

def unreaped (k : Kernel) : List Pid := k.running ++ k.zombies.map Prod.fst

/-- `fork`, where the caller of the model proposes the pid of the child. A pid that is not
valid or still in use is never handed out: the call fails then, as it may at any time. -/
def fork (k : Kernel) (want : Option Pid) : Option (Pid × Kernel) :=
  match want with
  | none => none
  | some pid =>
    if h : validPid pid ∧ pid ∉ k.unreaped then
      some (pid, ⟨pid :: k.running, k.zombies, List.nodup_cons.mpr ⟨h.2, k.nodup⟩⟩)
    else none

private theorem exit_perm {running : List Pid} {zombies : List (Pid × WaitStatus)} {pid : Pid}
    (ret : WaitStatus) (pos : ℕ) (h : pid ∈ running) :
    (running.erase pid ++
      (zombies.take pos ++ (pid, ret) :: zombies.drop pos).map Prod.fst).Perm
    (running ++ zombies.map Prod.fst) := by
  have hz : ((zombies.take pos ++ (pid, ret) :: zombies.drop pos).map Prod.fst).Perm
      (pid :: zombies.map Prod.fst) := by
    have hm : (zombies.take pos ++ (pid, ret) :: zombies.drop pos).Perm
        ((pid, ret) :: (zombies.take pos ++ zombies.drop pos)) := List.perm_middle
    simpa using hm.map Prod.fst
  refine (hz.append_left _).trans ?_
  refine List.perm_middle.trans ?_
  exact ((List.perm_cons_erase h).symm.append_right _)

/-- A running child terminates. It may turn up anywhere in the order of `waitpid`. -/
def exit (k : Kernel) (pid : Pid) (ret : WaitStatus) (pos : ℕ) : Kernel :=
  if h : pid ∈ k.running then
    ⟨k.running.erase pid, k.zombies.take pos ++ (pid, ret) :: k.zombies.drop pos,
      (exit_perm ret pos h).nodup_iff.mpr k.nodup⟩
  else k

/-- `waitpid(-1, &ret, WNOHANG)`. -/
def waitpid (k : Kernel) : Option (Pid × WaitStatus × Kernel) :=
  match h : k.zombies with
  | [] => none
  | (pid, ret) :: rest =>
    some (pid, ret, ⟨k.running, rest, by
      have := k.nodup
      rw [h, List.map_cons] at this
      exact (List.nodup_cons.mp (List.perm_middle.nodup_iff.mp this)).2⟩)

theorem mem_unreaped_exit {k : Kernel} {pid : Pid} {ret : WaitStatus} {pos : ℕ} {q : Pid} :
    q ∈ (k.exit pid ret pos).unreaped ↔ q ∈ k.unreaped := by
  unfold exit
  split
  · rename_i h
    exact (exit_perm ret pos h).mem_iff
  · rfl

theorem fork_eq_some {k k' : Kernel} {want : Option Pid} {pid : Pid}
    (h : k.fork want = some (pid, k')) :
    want = some pid ∧ validPid pid ∧ pid ∉ k.unreaped ∧ k'.running = pid :: k.running ∧
      k'.zombies = k.zombies := by
  cases want with
  | none => simp [fork] at h
  | some w =>
    simp only [fork] at h
    split at h
    · rename_i hw
      obtain ⟨rfl, rfl⟩ := Prod.mk.inj (Option.some.inj h)
      exact ⟨rfl, hw.1, hw.2, rfl, rfl⟩
    · cases h

theorem mem_unreaped_fork {k k' : Kernel} {want : Option Pid} {pid : Pid}
    (h : k.fork want = some (pid, k')) (q : Pid) :
    q ∈ k'.unreaped ↔ q = pid ∨ q ∈ k.unreaped := by
  obtain ⟨_, _, _, hr, hz⟩ := fork_eq_some h
  simp [unreaped, hr, hz]

theorem waitpid_eq_none {k : Kernel} : k.waitpid = none ↔ k.zombies = [] := by
  unfold waitpid
  split <;> simp_all

theorem waitpid_eq_some {k k' : Kernel} {pid : Pid} {ret : WaitStatus}
    (h : k.waitpid = some (pid, ret, k')) :
    k.zombies = (pid, ret) :: k'.zombies ∧ k'.running = k.running := by
  unfold waitpid at h
  split at h
  · cases h
  · rename_i hz
    simp only [Option.some.injEq, Prod.mk.injEq] at h
    obtain ⟨rfl, rfl, rfl⟩ := h
    exact ⟨hz, rfl⟩

/-- The pid that `waitpid` returned is free again; the others stay in use. -/
theorem mem_unreaped_waitpid {k k' : Kernel} {pid : Pid} {ret : WaitStatus}
    (h : k.waitpid = some (pid, ret, k')) (q : Pid) :
    q ∈ k'.unreaped ↔ q ∈ k.unreaped ∧ q ≠ pid := by
  obtain ⟨hz, hr⟩ := waitpid_eq_some h
  have hn := k.nodup
  rw [hz, List.map_cons] at hn
  have hnot := (List.nodup_cons.mp (List.perm_middle.nodup_iff.mp hn)).1
  simp only [unreaped, hr, hz, List.map_cons]
  constructor
  · intro hq
    refine ⟨?_, fun e => hnot (e ▸ hq)⟩
    simp only [List.mem_append, List.mem_cons] at hq ⊢
    tauto
  · rintro ⟨hq, hne⟩
    simp only [List.mem_append, List.mem_cons] at hq ⊢
    tauto

end Kernel

end UbervisorKernel
