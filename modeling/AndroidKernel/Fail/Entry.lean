import AndroidKernel.Fail.Countdown

/-! The two entry paths, and requests that `sys_fail` rejects. `__sys_trace` dispatches without a
call of `should_fail`, so a traced call does not move the countdown. `sys_fail` stores its
argument before it looks at the sign, which nobody sees while no injection is pending. -/

namespace AndroidKernel.Fail
open Lts
variable {τ : Type} [DecidableEq τ] {s : Kernel τ} {t : τ}

def enterAs (t : τ) (s : Kernel τ) (x : Bool × ℤ) : Kernel τ × Outcome :=
  vectorSwi t x.1 s (.other x.2)

/-- The outcomes when exactly call number `e` is failed by injection. -/
def failedAt (e : ℕ) (cs : List (Bool × ℤ)) : List ((Bool × ℤ) × Outcome) :=
  cs.mapIdx fun k x => (x, if k + 1 = e then .failed (-EINVAL) else .ran x.2)

theorem failedAt_one (x : Bool × ℤ) (cs : List (Bool × ℤ)) :
    failedAt 1 (x :: cs) = (x, .failed (-EINVAL)) :: cs.map fun x => (x, .ran x.2) := by
  simp only [failedAt, List.mapIdx_cons, zero_add, if_true]
  congr 1
  exact List.ext_getElem (by simp) (by simp)

theorem failedAt_succ {e : ℕ} (he : 0 < e) (x : Bool × ℤ) (cs : List (Bool × ℤ)) :
    failedAt (e + 1) (x :: cs) = (x, .ran x.2) :: failedAt e cs := by
  simp only [failedAt, List.mapIdx_cons, Nat.add_right_cancel_iff, if_neg he.ne]

theorem enterAs_traced (s : Kernel τ) (ret : ℤ) : enterAs t s (true, ret) = (s, .ran ret) := rfl

theorem trace_enterAs_disarmed (h : s.sysFailRan = 0) (cs : List (Bool × ℤ)) :
    trace (enterAs t) cs s = cs.map fun x => (x, .ran x.2) := by
  induction cs with
  | nil => rfl
  | cons x cs ih =>
    have hx : enterAs t s x = (s, .ran x.2) := by
      obtain ⟨traced, ret⟩ := x
      cases traced with
      | true => rfl
      | false => exact vectorSwi_disarmed (by rw [h]; decide) _
    simp only [trace, hx, List.map_cons, ih]

theorem Pending.untraced {r : ℕ} (h : Pending t s (.armed r)) (hr : 1 < r) (ret : ℤ) :
    (enterAs t s (false, ret)).2 = .ran ret ∧
      Pending t (enterAs t s (false, ret)).1 (.armed (r - 1)) := by
  have hz : r - 1 ≠ 0 := by omega
  have hstep := h.step (c := .other ret) (by simp)
  simp only [countdown, if_neg hz] at hstep
  exact hstep

/-- Once a traced call has been missed, the call that should fail is dispatched. -/
theorem trace_lagging {r e : ℕ} (h : Pending t s (.armed r)) (he : 0 < e) (her : e < r)
    (cs : List (Bool × ℤ)) :
    trace (enterAs t) cs s = failedAt e cs ↔ cs.length < e := by
  induction cs generalizing s r e with
  | nil => simpa [trace, failedAt] using he
  | cons x cs ih =>
    -- whichever path it takes, the call is dispatched and the countdown stays behind
    obtain ⟨r', hran, hp, hlt⟩ : ∃ r', (enterAs t s x).2 = .ran x.2 ∧
        Pending t (enterAs t s x).1 (.armed r') ∧ e - 1 < r' := by
      obtain ⟨traced, ret⟩ := x
      cases traced with
      | true => exact ⟨r, rfl, h, by omega⟩
      | false => exact ⟨r - 1, (h.untraced (by omega) ret).1, (h.untraced (by omega) ret).2, by omega⟩
    obtain rfl | ⟨d, hd, rfl⟩ : e = 1 ∨ ∃ d, 0 < d ∧ e = d + 1 := by
      rcases Nat.lt_or_ge 1 e with h1 | h1
      · exact Or.inr ⟨e - 1, by omega, by omega⟩
      · exact Or.inl (by omega)
    · rw [failedAt_one, trace, hran]
      simp
    · rw [failedAt_succ hd, trace, hran, List.cons.injEq, List.length_cons,
        Nat.add_lt_add_iff_right]
      simpa using ih hp hd hlt

/-- With `r` calls left, exactly the `r`-th call is failed if and only if there is no such call or
none of the calls up to it is traced. -/
theorem trace_enterAs_armed {r : ℕ} (h : Pending t s (.armed r)) (hr : 0 < r)
    (cs : List (Bool × ℤ)) :
    trace (enterAs t) cs s = failedAt r cs ↔
      cs.length < r ∨ ∀ x ∈ cs.take r, x.1 = false := by
  induction cs generalizing s r with
  | nil => simp [trace, failedAt]
  | cons x cs ih =>
    obtain ⟨traced, ret⟩ := x
    obtain rfl | ⟨d, hd, rfl⟩ : r = 1 ∨ ∃ d, 0 < d ∧ r = d + 1 := by
      rcases Nat.lt_or_ge 1 r with h1 | h1
      · exact Or.inr ⟨r - 1, by omega, by omega⟩
      · exact Or.inl (by omega)
    · rw [failedAt_one, trace]
      cases traced with
      | true => simp [enterAs_traced]
      | false =>
        have hstep := h.step (c := .other ret) (by simp)
        simp only [countdown, Nat.sub_self, if_true] at hstep
        have hfail : (enterAs t s (false, ret)).2 = .failed (-EINVAL) := hstep.1
        have hdis : (enterAs t s (false, ret)).1.sysFailRan = 0 := hstep.2
        simp [hfail, trace_enterAs_disarmed hdis]
    · rw [failedAt_succ hd, trace, List.take_succ_cons, List.length_cons,
        Nat.add_lt_add_iff_right]
      cases traced with
      | true =>
        rw [enterAs_traced, List.cons.injEq, trace_lagging h hd (by omega)]
        simp
      | false =>
        obtain ⟨hran, hp⟩ := h.untraced (by omega) ret
        rw [Nat.add_sub_cancel] at hp
        rw [hran, List.cons.injEq, ih hp hd]
        simp

/-- After a dispatched `sys_fail(N)` exactly the `N`-th ordinary call is failed by injection, if
and only if fewer calls follow or the first `N` of them are untraced. -/
theorem traced_counted_iff (t : τ) (s : Kernel τ) (hs : s.sysFailRan = 0 ∨ s.sysFailRan = 1)
    (N : Int32) (hN : 0 < N) (cs : List (Bool × ℤ)) :
    trace (enterAs t) cs (dispatch t s (.sysFail N)).1 = failedAt N.toInt.toNat cs ↔
      cs.length < N.toInt.toNat ∨ ∀ x ∈ cs.take N.toInt.toNat, x.1 = false := by
  have hpos : 0 < N.toInt.toNat := by
    have := Int32.lt_iff_toInt_lt.mp hN
    rw [Int32.toInt_zero] at this
    omega
  simp only [dispatch, sysFail_pos hN hs]
  exact trace_enterAs_armed (pending_armed hN s t) hpos cs

theorem traced_counted_last : trace (enterAs ()) [(false, 5), (false, 6), (true, 7)]
      (dispatch () ⟨0, 0, fun _ => 0⟩ (.sysFail 2)).1 =
    [((false, 5), .ran 5), ((false, 6), .failed (-EINVAL)), ((true, 7), .ran 7)] :=
  (traced_counted_iff () ⟨0, 0, fun _ => 0⟩ (Or.inl rfl) 2 (by decide)
    [(false, 5), (false, 6), (true, 7)]).mpr (Or.inr (by decide))

/-- The second call after `sys_fail(2)` is dispatched because the first was traced. -/
theorem traced_not_counted : trace (enterAs ()) [(true, 5), (false, 6), (false, 7)]
      (dispatch () ⟨0, 0, fun _ => 0⟩ (.sysFail 2)).1 =
        [((true, 5), .ran 5), ((false, 6), .ran 6), ((false, 7), .failed (-EINVAL))] ∧
    trace (enterAs ()) [(true, 5), (false, 6), (false, 7)]
      (dispatch () ⟨0, 0, fun _ => 0⟩ (.sysFail 2)).1 ≠
        failedAt 2 [(true, 5), (false, 6), (false, 7)] := by decide

theorem disarmed_threshold (x : Int32) (h : s.sysFailRan ≠ 1) (c : Call) :
    (vectorSwi t false { s with n := x } c).2 = (vectorSwi t false s c).2 ∧
      ((vectorSwi t false { s with n := x } c).1 = (vectorSwi t false s c).1 ∨
        (vectorSwi t false s c).1.sysFailRan ≠ 1 ∧
          (vectorSwi t false { s with n := x } c).1 =
            { (vectorSwi t false s c).1 with n := x }) := by
  rw [vectorSwi_disarmed h, vectorSwi_disarmed (s := { s with n := x }) h]
  cases c with
  | sysFail N => exact ⟨rfl, Or.inl rfl⟩
  | other ret => exact ⟨rfl, Or.inr ⟨h, rfl⟩⟩

theorem sysFail_neg {N : Int32} (hN : N < 0) (s : Kernel τ) (t : τ) :
    sysFail t N s = ({ s with n := N }, if s.sysFailRan = 0 then -EINVAL else 0) := by
  have hp : ¬ 0 < N := fun h => absurd (Int32.lt_trans h hN) Int32.lt_irrefl
  have hle : N ≤ 0 := Int32.le_of_lt hN
  have hz : N ≠ 0 := fun h => absurd (h ▸ hN) Int32.lt_irrefl
  by_cases h : s.sysFailRan = 0
  · simp [sysFail, h, hp, hle]
  · simp [sysFail, h, hp, hz]

/-- A negative argument is answered `-EINVAL` and leaves every continuation as an ordinary call
would, if and only if no injection is pending. -/
theorem rejected_iff_disarmed (t : τ) (s : Kernel τ) (N : Int32) (hN : N < 0) :
    ((dispatch t s (.sysFail N)).2 = .ran (-EINVAL) ∧ ∀ (ret : ℤ) (cs : List Call),
      trace (vectorSwi t false) cs (dispatch t s (.sysFail N)).1 =
        trace (vectorSwi t false) cs (dispatch t s (.other ret)).1) ↔ s.sysFailRan = 0 := by
  constructor
  · rintro ⟨h, -⟩
    by_contra hne
    simp only [dispatch, sysFail_neg hN, if_neg hne] at h
    exact absurd h (by decide)
  · intro h
    simp only [dispatch, sysFail_neg hN, if_pos h]
    refine ⟨trivial, fun _ cs => ?_⟩
    refine (trace_eq (R := fun a b : Kernel τ => a = b ∨ b.sysFailRan ≠ 1 ∧ a = { b with n := N })
      (A := fun _ => True) ?_ (fun _ _ => trivial) (Or.inr ⟨by rw [h]; decide, rfl⟩)).1
    rintro a b c (rfl | ⟨hb, rfl⟩) -
    · exact ⟨rfl, Or.inl rfl⟩
    · exact disarmed_threshold N hb c

theorem rejected_disarmed_five :
    (dispatch () ⟨5, 0, fun _ => 3⟩ (.sysFail (-1))).2 = .ran (-EINVAL) :=
  ((rejected_iff_disarmed () ⟨5, 0, fun _ => 3⟩ (-1) (by decide)).mpr rfl).1

/-- While an injection is pending the request is accepted, and the very next call is failed. -/
theorem rejected_request_fires :
    (dispatch () ⟨5, 1, fun _ => 0⟩ (.sysFail (-1))).2 = .ran 0 ∧
      trace (vectorSwi () false) [.other 7] (dispatch () ⟨5, 1, fun _ => 0⟩ (.sysFail (-1))).1 =
        [(.other 7, .failed (-EINVAL))] ∧
      trace (vectorSwi () false) [.other 7] (dispatch () ⟨5, 1, fun _ => 0⟩ (.other 7)).1 =
        [(.other 7, .ran 7)] := by decide

end AndroidKernel.Fail
