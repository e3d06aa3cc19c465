import AndroidKernel.Lib.Int32
import AndroidKernel.Lib.Runs

/-! System-call failure injection: `sys_fail.c`, and the hook that `entry-common.S` puts into
`vector_swi`. The threshold `n` and the flag `sys_fail_ran` are globals; the counter `hw2_count`
is a field of every `task_struct`. -/

namespace AndroidKernel.Fail
open Lts

def EINVAL : ℤ := 22

structure Kernel (τ : Type) where
  n : Int32
  sysFailRan : Int32
  hw2Count : τ → Int32

/-- A system call: entry 378 of the table, or any other number with what its routine answers. -/
inductive Call
  | sysFail (N : Int32)
  | other (ret : ℤ)
deriving DecidableEq, Repr

inductive Outcome
  | ran (ret : ℤ)
  | failed (ret : ℤ)
deriving DecidableEq, Repr

variable {τ : Type} [DecidableEq τ]

def sysFail (current : τ) (N : Int32) (s : Kernel τ) : Kernel τ × ℤ :=
  let s := { s with n := N }
  if s.n > 0 ∧ s.sysFailRan = 0 then
    ({ s with hw2Count := Function.update s.hw2Count current 0, sysFailRan := 1 }, 0)
  else if s.n ≤ 0 ∧ s.sysFailRan = 0 then (s, -EINVAL)
  else if s.n = 0 ∧ s.sysFailRan = 1 then ({ s with sysFailRan := 0 }, 0)
  else if s.n > 0 ∧ s.sysFailRan = 1 then
    ({ s with hw2Count := Function.update s.hw2Count current 0 }, 0)
  else (s, 0)

def shouldFail (current : τ) (s : Kernel τ) : Kernel τ × ℤ :=
  if s.sysFailRan = 1 then
    let s := { s with hw2Count := Function.update s.hw2Count current (s.hw2Count current + 1) }
    if s.hw2Count current < s.n then (s, 0) else (s, 1)
  else (s, 0)

def failSyscall (s : Kernel τ) : Kernel τ × ℤ := ({ s with sysFailRan := 0 }, -EINVAL)

/-- `no_failure`: the jump through `sys_call_table`. -/
def dispatch (current : τ) (s : Kernel τ) : Call → Kernel τ × Outcome
  | .sysFail N => ((sysFail current N s).1, .ran (sysFail current N s).2)
  | .other ret => (s, .ran ret)

/-- The entry from user space. A traced task branches to `__sys_trace` before the hook. -/
def vectorSwi (current : τ) (traced : Bool) (s : Kernel τ) (c : Call) : Kernel τ × Outcome :=
  if traced then dispatch current s c
  else
    let r := shouldFail current s
    if r.2 = 0 then dispatch current r.1 c
    else ((failSyscall r.1).1, .failed (failSyscall r.1).2)

/-- The calls of all tasks in the order in which they enter the kernel, none of them traced. -/
def enter (s : Kernel τ) (x : τ × Call) : Kernel τ × Outcome := vectorSwi x.1 false s x.2

variable {s : Kernel τ} {t : τ}

theorem shouldFail_disarmed (h : s.sysFailRan ≠ 1) : shouldFail t s = (s, 0) := if_neg h

def Kernel.counted (s : Kernel τ) (t : τ) : Kernel τ :=
  { s with hw2Count := Function.update s.hw2Count t (s.hw2Count t + 1) }

theorem shouldFail_armed (h : s.sysFailRan = 1) :
    shouldFail t s = (s.counted t, if s.hw2Count t + 1 < s.n then 0 else 1) := by
  simp only [shouldFail, if_pos h, Function.update_self, Kernel.counted]
  split_ifs <;> rfl

theorem vectorSwi_disarmed (h : s.sysFailRan ≠ 1) (c : Call) :
    vectorSwi t false s c = dispatch t s c := by
  simp only [vectorSwi, shouldFail_disarmed h, Bool.false_eq_true, if_false, if_true]

theorem vectorSwi_armed (h : s.sysFailRan = 1) (c : Call) : vectorSwi t false s c =
    if s.hw2Count t + 1 < s.n then dispatch t (s.counted t) c
    else ({ s.counted t with sysFailRan := 0 }, .failed (-EINVAL)) := by
  simp only [vectorSwi, shouldFail_armed h, Bool.false_eq_true, if_false]
  by_cases hn : s.hw2Count t + 1 < s.n
  · simp only [hn, if_true]
  · simp only [hn, if_false, one_ne_zero, failSyscall]

theorem sysFail_pos {N : Int32} (hN : 0 < N) (h : s.sysFailRan = 0 ∨ s.sysFailRan = 1) :
    sysFail t N s =
      ({ n := N, sysFailRan := 1, hw2Count := Function.update s.hw2Count t 0 }, 0) := by
  have h0 : ¬ N ≤ 0 := fun hle => absurd (Int32.lt_iff_toInt_lt.mp hN)
    (not_lt.mpr (Int32.le_iff_toInt_le.mp hle))
  have hz : N ≠ 0 := fun he => h0 (he ▸ Int32.le_refl 0)
  rcases h with h | h <;>
    simp [sysFail, h, hN, h0, hz]

theorem sysFail_zero_disarmed (h : s.sysFailRan = 0) :
    sysFail t 0 s = ({ s with n := 0 }, -EINVAL) := by simp [sysFail, h]

theorem sysFail_zero_armed (h : s.sysFailRan = 1) :
    sysFail t 0 s = ({ s with n := 0, sysFailRan := 0 }, 0) := by simp [sysFail, h]

end AndroidKernel.Fail
