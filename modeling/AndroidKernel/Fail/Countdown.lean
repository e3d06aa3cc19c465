import AndroidKernel.Fail.Inject

/-! For one task, failure injection is a countdown: an abstract automaton that is disarmed or has
a number of calls left, and that the two globals and the counter of the task implement. -/

namespace AndroidKernel.Fail
open Lts

inductive Injection
  | disarmed
  | armed (r : ℕ)
deriving DecidableEq, Repr

def countdown : Injection → Call → Injection × Outcome
  | .disarmed, .sysFail N =>
    if 0 < N then (.armed N.toInt.toNat, .ran 0) else (.disarmed, .ran (-EINVAL))
  | .disarmed, .other ret => (.disarmed, .ran ret)
  | .armed r, c =>
    if r - 1 = 0 then (.disarmed, .failed (-EINVAL))
    else match c with
      | .sysFail N => if 0 < N then (.armed N.toInt.toNat, .ran 0) else (.disarmed, .ran 0)
      | .other ret => (.armed (r - 1), .ran ret)

variable {τ : Type} {s : Kernel τ} {t : τ} {i : Injection}

/-- The state of the automaton that the kernel keeps for task `t`. -/
def Pending (t : τ) (s : Kernel τ) : Injection → Prop
  | .disarmed => s.sysFailRan = 0
  | .armed r => s.sysFailRan = 1 ∧ 0 ≤ (s.hw2Count t).toInt ∧
      (s.hw2Count t).toInt < s.n.toInt ∧ (r : ℤ) = s.n.toInt - (s.hw2Count t).toInt

theorem Pending.count_lt (h : Pending t s i) (hr : s.sysFailRan = 1) :
    0 ≤ s.hw2Count t ∧ s.hw2Count t < s.n := by
  cases i with
  | disarmed => exact absurd (h.symm.trans hr) (by decide)
  | armed r =>
    refine ⟨?_, Int32.lt_iff_toInt_lt.mpr h.2.2.1⟩
    rw [Int32.le_iff_toInt_le]
    exact h.2.1

theorem nonpos_eq_zero {N : Int32} (h : 0 ≤ N) (hN : ¬ 0 < N) : N = 0 := by
  rw [Int32.le_iff_toInt_le] at h
  rw [Int32.lt_iff_toInt_lt] at hN
  rw [← Int32.toInt_inj]
  omega

variable [DecidableEq τ]

theorem pending_armed {N : Int32} (hN : 0 < N) (s : Kernel τ) (t : τ) :
    Pending t { n := N, sysFailRan := 1, hw2Count := Function.update s.hw2Count t 0 }
      (.armed N.toInt.toNat) := by
  have h := Int32.lt_iff_toInt_lt.mp hN
  rw [Int32.toInt_zero] at h
  refine ⟨rfl, ?_, ?_, ?_⟩ <;> simp only [Function.update_self, Int32.toInt_zero] <;> omega

theorem Pending.disarmed_step (h : s.sysFailRan = 0) {c : Call}
    (hc : ∀ N, c = .sysFail N → 0 ≤ N) :
    (vectorSwi t false s c).2 = (countdown .disarmed c).2 ∧
      Pending t (vectorSwi t false s c).1 (countdown .disarmed c).1 := by
  rw [vectorSwi_disarmed (by rw [h]; decide)]
  cases c with
  | other ret => exact ⟨rfl, h⟩
  | sysFail N =>
    by_cases hN : 0 < N
    · simp only [dispatch, countdown, sysFail_pos hN (Or.inl h), if_pos hN]
      exact ⟨trivial, pending_armed hN s t⟩
    · obtain rfl := nonpos_eq_zero (hc N rfl) hN
      simp only [dispatch, countdown, sysFail_zero_disarmed h, if_neg hN]
      exact ⟨trivial, h⟩

theorem Pending.armed_step {r : ℕ} (h : Pending t s (.armed r)) {c : Call}
    (hc : ∀ N, c = .sysFail N → 0 ≤ N) :
    (vectorSwi t false s c).2 = (countdown (.armed r) c).2 ∧
      Pending t (vectorSwi t false s c).1 (countdown (.armed r) c).1 := by
  obtain ⟨hr, h0, hlt, hreq⟩ := h
  have hinc : (s.hw2Count t + 1).toInt = (s.hw2Count t).toInt + 1 :=
    Int32.toInt_add_one (Int32.lt_iff_toInt_lt.mpr hlt)
  have hfire : s.hw2Count t + 1 < s.n ↔ r - 1 ≠ 0 := by
    rw [Int32.lt_iff_toInt_lt, hinc]
    omega
  rw [vectorSwi_armed hr]
  simp only [hfire]
  by_cases hz : r - 1 = 0
  · simp only [countdown, hz, ne_eq, not_true_eq_false, if_false, if_true]
    exact ⟨trivial, rfl⟩
  · simp only [ne_eq, hz, not_false_eq_true, if_true]
    cases c with
    | other ret =>
      simp only [countdown, dispatch, if_neg hz]
      refine ⟨trivial, hr, ?_, ?_, ?_⟩ <;>
        simp only [Kernel.counted, Function.update_self, hinc] <;> omega
    | sysFail N =>
      have hr' : (s.counted t).sysFailRan = 1 := hr
      by_cases hN : 0 < N
      · simp only [dispatch, countdown, if_neg hz, if_pos hN, sysFail_pos hN (Or.inr hr')]
        exact ⟨trivial, pending_armed hN _ t⟩
      · obtain rfl := nonpos_eq_zero (hc N rfl) hN
        simp only [dispatch, countdown, if_neg hz, if_neg hN, sysFail_zero_armed hr']
        exact ⟨trivial, rfl⟩

theorem Pending.step (h : Pending t s i) {c : Call} (hc : ∀ N, c = .sysFail N → 0 ≤ N) :
    (vectorSwi t false s c).2 = (countdown i c).2 ∧
      Pending t (vectorSwi t false s c).1 (countdown i c).1 := by
  cases i with
  | disarmed => exact Pending.disarmed_step h hc
  | armed r => exact h.armed_step hc

theorem Pending.run (h : Pending t s i) (cs : List Call) (hcs : ∀ N, .sysFail N ∈ cs → 0 ≤ N) :
    trace (vectorSwi t false) cs s = trace countdown cs i ∧
      Pending t (final (vectorSwi t false) cs s) (final countdown cs i) :=
  trace_eq (A := fun c => ∀ N, c = .sysFail N → 0 ≤ N) (fun _ _ _ hp hc => hp.step hc)
    (fun _ hc N hN => hcs N (hN ▸ hc)) h

theorem trace_countdown_disarmed (rs : List ℤ) : trace countdown (rs.map .other) .disarmed =
    rs.map fun ret => (.other ret, .ran ret) := by
  induction rs with
  | nil => rfl
  | cons ret rs ih => simp only [List.map_cons, trace, countdown, ih]

theorem trace_countdown_armed (rs : List ℤ) {r : ℕ} (hr : 0 < r) :
    trace countdown (rs.map .other) (.armed r) = rs.mapIdx fun k ret =>
      (.other ret, if k + 1 = r then .failed (-EINVAL) else .ran ret) := by
  induction rs generalizing r with
  | nil => rfl
  | cons ret rs ih =>
    rw [List.map_cons, List.mapIdx_cons]
    by_cases hz : r - 1 = 0
    · obtain rfl : r = 1 := by omega
      simp only [trace, countdown, if_true, trace_countdown_disarmed, zero_add,
        Nat.add_eq_right, Nat.add_eq_zero_iff, one_ne_zero, and_false, if_false]
      congr 1
      exact List.ext_getElem (by simp) (by simp)
    · have h1 : ¬ 0 + 1 = r := by omega
      simp only [trace, countdown, if_neg hz, if_neg h1, ih (r := r - 1) (by omega)]
      congr 2
      funext k x
      exact congrArg (Prod.mk _) (if_congr (by omega) rfl rfl)

theorem countdown_sysFail {N : Int32} (hN : 0 < N)
    (h : (countdown i (.sysFail N)).2 = .ran 0) :
    (countdown i (.sysFail N)).1 = .armed N.toInt.toNat := by
  cases i with
  | disarmed => simp only [countdown, if_pos hN]
  | armed r =>
    by_cases hz : r - 1 = 0
    · simp [countdown, hz] at h
    · simp only [countdown, if_neg hz, if_pos hN]

/-- Failure injection seen by one task is the countdown automaton. In every state the task can
get into, a pending counter stays within the threshold and its increment does not overflow, and
a `sys_fail(N)` that succeeds there fails exactly the `N`-th of the ordinary calls after it. -/
theorem injection_countdown (t : τ) (s : Kernel τ) (hs : s.sysFailRan = 0) (cs : List Call)
    (hcs : ∀ N, .sysFail N ∈ cs → 0 ≤ N) :
    trace (vectorSwi t false) cs s = trace countdown cs .disarmed ∧
      (let s' := final (vectorSwi t false) cs s
       s'.sysFailRan = 1 → s'.hw2Count t < s'.n ∧
        ((shouldFail t s').1.hw2Count t).toInt = (s'.hw2Count t).toInt + 1 ∧
        (shouldFail t s').1.hw2Count t ≤ s'.n) ∧
      (let s' := final (vectorSwi t false) cs s
       ∀ N, 0 < N → (vectorSwi t false s' (.sysFail N)).2 = .ran 0 → ∀ rs : List ℤ,
        trace (vectorSwi t false) (rs.map .other) (vectorSwi t false s' (.sysFail N)).1 =
          rs.mapIdx fun k ret => (.other ret,
            if k + 1 = N.toInt.toNat then .failed (-EINVAL) else .ran ret)) := by
  obtain ⟨htrace, hp⟩ := Pending.run (t := t) (i := .disarmed) hs cs hcs
  refine ⟨htrace, fun hr => ?_, fun N hN hran rs => ?_⟩
  · have hlt := (hp.count_lt hr).2
    have hinc := Int32.toInt_add_one hlt
    rw [shouldFail_armed hr]
    simp only [Kernel.counted, Function.update_self]
    refine ⟨hlt, hinc, ?_⟩
    rw [Int32.le_iff_toInt_le, hinc]
    exact Int32.lt_iff_toInt_lt.mp hlt
  · have hpos : 0 < N.toInt.toNat := by
      have := Int32.lt_iff_toInt_lt.mp hN
      rw [Int32.toInt_zero] at this
      omega
    obtain ⟨hout, hp'⟩ := hp.step (c := .sysFail N)
      fun M hM => Int32.le_of_lt (Call.sysFail.inj hM ▸ hN)
    rw [countdown_sysFail hN (hout.symm.trans hran)] at hp'
    rw [(hp'.run (rs.map .other) (by simp)).1, trace_countdown_armed rs hpos]

theorem injection_countdown_five :
    trace (vectorSwi () false) (.sysFail 5 :: List.replicate 6 (.other 0)) ⟨0, 0, fun _ => 0⟩ =
      (.sysFail 5, .ran 0) :: List.replicate 4 (.other 0, .ran 0) ++
        [(.other 0, .failed (-EINVAL)), (.other 0, .ran 0)] := by
  rw [(injection_countdown () ⟨0, 0, fun _ => 0⟩ rfl _ (by simp)).1]
  rfl

end AndroidKernel.Fail
