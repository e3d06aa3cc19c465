import AndroidKernel.Lib.Flow
import AndroidKernel.Sched.Bandwidth

/-! What a group can use of its quota: no runtime comes into being but by a refill. -/

namespace AndroidKernel.Bandwidth
open Lts Flow

variable {n : ℕ} {s t : State n} {i : Fin n} {q : CfsRq} {tickNsec now clock : BitVec 64}
  {hand : Hand} {quota minAmount amount slice : ℕ} {a : Action n} {as : List (Action n)}

def heldRuntime : Option Hand → ℤ
  | none => 0
  | some hand => hand.runtime

def State.budget (s : State n) : ℤ :=
  s.bandwidth.runtime + heldRuntime s.periodTimer + heldRuntime s.slackTimer +
    ∑ i, (s.rq i).runtimeRemaining

def Event.supply : Event n → ℤ
  | .charged _ delta => -delta
  | .refilled quota => quota
  | .granted amount => amount
  | .expired | .waited => 0

def Budgeted (s t : State n) : Prop := Bounded State.log (fun _ => True) State.budget Event.supply s t

theorem budget_setRq : (s.setRq i q).budget =
    s.budget - (s.rq i).runtimeRemaining + q.runtimeRemaining := by
  have hsum : ∑ j, (Function.update s.rq i q j).runtimeRemaining + (s.rq i).runtimeRemaining =
      ∑ j, (s.rq j).runtimeRemaining + q.runtimeRemaining := by
    rw [← Finset.add_sum_erase _ _ (Finset.mem_univ i),
      ← Finset.add_sum_erase _ (fun j => (s.rq j).runtimeRemaining) (Finset.mem_univ i),
      Function.update_self, Finset.sum_congr rfl fun j hj => by
        rw [Function.update_of_ne (Finset.ne_of_mem_erase hj)]]
    ring
  simp only [State.budget, State.setRq]
  linarith

@[simp] theorem budget_setPhase (p : Phase) : (s.setPhase i p).budget = s.budget := rfl

@[simp] theorem budget_emit (e : Event n) : (s.emit e).budget = s.budget := rfl

theorem budgeted_refill : Budgeted s (refillCfsBandwidthRuntime s now) := by
  unfold refillCfsBandwidthRuntime
  cases hq : s.bandwidth.quota with
  | none => exact .refl s
  | some quota =>
    refine .emits rfl trivial ?_
    simp only [State.budget, State.emit, Event.supply]
    linarith [Int.natCast_nonneg s.bandwidth.runtime]

theorem expireCfsRqRuntime_le (b : CfsBandwidth n) :
    (expireCfsRqRuntime tickNsec b q clock).runtimeRemaining ≤ q.runtimeRemaining := by
  unfold expireCfsRqRuntime
  split_ifs
  · exact le_rfl
  · exact le_rfl
  · exact le_rfl
  · change 0 ≤ q.runtimeRemaining
    omega

theorem budgeted_account (deltaExec : ℕ) :
    Budgeted s (accountCfsRqRuntime tickNsec s i deltaExec clock) := by
  refine .emits rfl trivial ?_
  let q : CfsRq := { s.rq i with runtimeRemaining := (s.rq i).runtimeRemaining - deltaExec }
  have hle : (expireCfsRqRuntime tickNsec s.bandwidth q clock).runtimeRemaining ≤
      (s.rq i).runtimeRemaining - deltaExec := expireCfsRqRuntime_le s.bandwidth
  simp only [accountCfsRqRuntime, budget_setPhase, budget_emit, budget_setRq, Event.supply]
  linarith

theorem budget_addRuntime : (addRuntime s i amount).budget = s.budget + amount := by
  simp only [addRuntime, budget_setPhase, budget_setRq]
  ring

theorem budgeted_takeRuntime : Budgeted s (takeRuntime s i minAmount) := by
  unfold takeRuntime
  split_ifs
  · refine .silent rfl ?_
    have hle := Nat.min_le_left s.bandwidth.runtime minAmount
    rw [budget_addRuntime]
    simp only [State.budget]
    push_cast [hle]
    linarith
  · exact .silent rfl (by rw [budget_addRuntime, Nat.cast_zero, add_zero])

theorem budgeted_assign (busy : Bool) : Budgeted s (assignCfsRqRuntime s i slice now busy) := by
  unfold assignCfsRqRuntime
  split_ifs
  · exact .emits rfl trivial (by rw [budget_addRuntime, budget_emit]; exact le_rfl)
  · exact budgeted_takeRuntime
  · exact budgeted_refill.trans (.emits rfl trivial (by simp [Event.supply]))
  · exact budgeted_refill.trans budgeted_takeRuntime

theorem budget_throttle : (throttleCfsRq s i).budget = s.budget := by
  change (s.setRq i _).budget = s.budget
  rw [budget_setRq]
  ring

theorem budget_unthrottle : (unthrottleCfsRq s i).budget = s.budget := by
  change (s.setRq i _).budget = s.budget
  rw [budget_setRq]
  ring

theorem budgeted_return : Budgeted s (returnCfsRqRuntime s i) := by
  unfold returnCfsRqRuntime
  dsimp only
  split_ifs with hs hq
  · exact .refl s
  · refine .silent rfl ?_
    rw [budget_setRq]
    simp only [State.budget]
    push_cast
    rw [Int.toNat_of_nonneg (by omega)]
    linarith
  · refine .silent rfl ?_
    rw [budget_setRq]
    linarith

theorem distribute_account (hand : Hand) : (distribute s hand i).1.log = s.log ∧
    (distribute s hand i).1.periodTimer = s.periodTimer ∧
    (distribute s hand i).1.slackTimer = s.slackTimer ∧
    (distribute s hand i).1.budget + (distribute s hand i).2.runtime =
      s.budget + hand.runtime := by
  unfold distribute
  dsimp only
  split_ifs with ht hr
  · refine ⟨rfl, rfl, rfl, ?_⟩
    have hle : payment (s.rq i) hand.runtime ≤ hand.runtime := min_le_right ..
    rw [budget_unthrottle, budget_setRq]
    push_cast [hle]
    ring
  · refine ⟨rfl, rfl, rfl, ?_⟩
    have hle : payment (s.rq i) hand.runtime ≤ hand.runtime := min_le_right ..
    rw [budget_setRq]
    push_cast [hle]
    ring
  · exact ⟨rfl, rfl, rfl, rfl⟩

theorem budgeted_periodTimerStart (h : s.periodTimer = none) :
    Budgeted s (periodTimerStart s now) := by
  have hexp : Budgeted s (s.emit .expired) := .emits rfl trivial (by simp [Event.supply])
  unfold periodTimerStart
  dsimp only
  split_ifs
  · exact hexp.trans (.silent rfl le_rfl)
  · exact (hexp.trans budgeted_refill).trans (.silent rfl le_rfl)
  · refine (hexp.trans budgeted_refill).trans (.silent rfl ?_)
    have hnone : (refillCfsBandwidthRuntime (s.emit .expired) now).periodTimer = none := by
      unfold refillCfsBandwidthRuntime
      split <;> exact h
    simp only [State.budget, hnone, heldRuntime]
    push_cast
    linarith

theorem budgeted_setBandwidth (period : BitVec 64) (quota : Option ℕ) :
    Budgeted s (tgSetCfsBandwidth s period quota now) := by
  have hset : Budgeted s { s with
      bandwidth := { s.bandwidth with period := period, quota := quota } } := .silent rfl le_rfl
  exact (hset.trans budgeted_refill).trans (.silent rfl le_rfl)

theorem budgeted_grant (amount : ℤ)
    (hq : q.runtimeRemaining = amount) : Budgeted s
      ((s.setRq i q).emit (.granted (amount - (s.rq i).runtimeRemaining).toNat)) := by
  refine .emits rfl trivial ?_
  rw [budget_emit, budget_setRq, hq]
  simp only [Event.supply]
  linarith [Int.self_le_toNat (amount - (s.rq i).runtimeRemaining)]

theorem budgeted_setCfsRq : Budgeted s (setCfsRq s i) := by
  have hset := budgeted_grant (s := s) (i := i) (q := { s.rq i with
    runtimeEnabled := s.bandwidth.quota.isSome, runtimeRemaining := 0 }) 0 rfl
  rw [zero_sub] at hset
  unfold setCfsRq
  dsimp only
  split_ifs
  · exact hset.trans (.silent rfl budget_unthrottle.le)
  · exact hset

theorem budgeted_offline (used : Bool) : Budgeted s (unthrottleOfflineCfsRq s i used) := by
  have hset := budgeted_grant (s := s) (i := i) (q := { s.rq i with
    runtimeRemaining := signedQuota s.bandwidth.quota }) (signedQuota s.bandwidth.quota) rfl
  unfold unthrottleOfflineCfsRq
  dsimp only
  split_ifs
  · exact hset.trans (.silent rfl budget_unthrottle.le)
  · exact hset

theorem next_budgeted (h : next tickNsec s a = some t) : Budgeted s t := by
  cases moves_of_next h with
  | account i deltaExec clock => exact budgeted_account deltaExec
  | assign i slice now busy => exact budgeted_assign busy
  | started i minAmount => exact Bounded.trans (.silent rfl le_rfl) budgeted_takeRuntime
  | throttle i => exact .silent rfl budget_throttle.le
  | giveBack i => exact budgeted_return
  | periodStart now hp => exact budgeted_periodTimerStart hp
  | periodGive i hand hp =>
    obtain ⟨hlog, hperiod, hslack, hb⟩ := distribute_account (s := s) (i := i) hand
    refine .silent hlog ?_
    simp only [State.budget, hperiod, hslack, hp, heldRuntime] at hb ⊢
    linarith
  | periodEnd hand hp =>
    refine .silent rfl ?_
    simp only [State.budget, periodTimerEnd, hp, heldRuntime]
    linarith [Int.natCast_nonneg s.bandwidth.runtime]
  | slackStart slice hs =>
    unfold slackTimerStart
    split_ifs
    · refine .silent rfl ?_
      simp only [State.budget, hs, heldRuntime]
      push_cast
      linarith
    · exact .refl s
  | slackGive i hand hs =>
    obtain ⟨hlog, hperiod, hslack, hb⟩ := distribute_account (s := s) (i := i) hand
    refine .silent hlog ?_
    simp only [State.budget, hperiod, hslack, hs, heldRuntime] at hb ⊢
    linarith
  | slackEnd hand hs =>
    refine .silent rfl ?_
    simp only [State.budget, slackTimerEnd, hs, heldRuntime]
    split_ifs
    · linarith [Int.natCast_nonneg s.bandwidth.runtime]
    · linarith [Int.natCast_nonneg hand.runtime]
  | setBandwidth period quota now => exact budgeted_setBandwidth period quota
  | restart => exact .silent rfl le_rfl
  | setCfsRq i todo => exact Bounded.trans budgeted_setCfsRq (.silent rfl le_rfl)
  | offline i used => exact budgeted_offline used

def Action.regular : Action n → Bool
  | .setBandwidth _ _ _ | .setCfsRq | .offline _ _ => false
  | _ => true

def Event.Regular (quota : ℕ) : Event n → Prop
  | .granted _ => False
  | .refilled q => q = quota
  | _ => True

def State.due (s : State n) : ℤ := if s.bandwidth.timerActive then 0 else 1

def Event.renewal : Event n → ℤ
  | .expired | .waited => 1
  | .refilled _ => -1
  | .charged _ _ | .granted _ => 0

def Renewed (quota : ℕ) (s t : State n) : Prop :=
  t.bandwidth.quota = some quota ∧
    Bounded State.log (Event.Regular quota) State.due Event.renewal s t

theorem Renewed.silent (hq : s.bandwidth.quota = some quota) (hlog : t.log = s.log)
    (ht : t.bandwidth.quota = s.bandwidth.quota)
    (hactive : t.bandwidth.timerActive = s.bandwidth.timerActive) : Renewed quota s t :=
  ⟨ht.trans hq, Bounded.silent hlog (by rw [State.due, State.due, hactive])⟩

theorem Renewed.trans {u : State n} (hst : Renewed quota s t) (htu : Renewed quota t u) :
    Renewed quota s u := ⟨htu.1, hst.2.trans htu.2⟩

theorem renewed_refill (now : BitVec 64) (hq : s.bandwidth.quota = some quota) :
    (refillCfsBandwidthRuntime s now).bandwidth.quota = some quota ∧
      (refillCfsBandwidthRuntime s now).bandwidth.timerActive = s.bandwidth.timerActive ∧
      (refillCfsBandwidthRuntime s now).log = s.log ++ [.refilled quota] := by
  simp only [refillCfsBandwidthRuntime, hq, State.emit, and_self]

theorem due_nonneg : 0 ≤ s.due := by
  unfold State.due
  split_ifs <;> decide

theorem renewed_start (hq : s.bandwidth.quota = some quota) :
    Renewed quota s (startCfsBandwidth s) := ⟨hq, Bounded.silent rfl due_nonneg⟩

theorem renewed_takeRuntime (hq : s.bandwidth.quota = some quota) :
    Renewed quota s (takeRuntime s i minAmount) := by
  unfold takeRuntime
  split_ifs <;> exact .silent hq rfl rfl rfl

theorem renewed_assign (hq : s.bandwidth.quota = some quota) (busy : Bool) :
    Renewed quota s (assignCfsRqRuntime s i slice now busy) := by
  obtain ⟨hrq, hractive, hrlog⟩ := renewed_refill now hq
  unfold assignCfsRqRuntime
  dsimp only
  rw [if_neg (by rw [hq]; exact Option.some_ne_none quota)]
  split_ifs with hactive hbusy
  · exact renewed_takeRuntime hq
  · -- the refill is paid for by the wait
    refine ⟨hrq, [.refilled quota, .waited], ?_, ?_, ?_⟩
    · change (refillCfsBandwidthRuntime s now).log ++ [Event.waited] = _
      rw [hrlog, List.append_assoc]
      rfl
    · simp [Event.Regular]
    · change (if (refillCfsBandwidthRuntime s now).bandwidth.timerActive then (0 : ℤ) else 1) ≤ _
      rw [hractive]
      exact (add_zero _).ge
  · -- and here by the start of the timer
    have hdue : s.due = 1 := if_neg hactive
    have hstart : Renewed quota s (startCfsBandwidth (refillCfsBandwidthRuntime s now)) :=
      ⟨hrq, Bounded.emits hrlog rfl (by rw [hdue]; exact le_rfl)⟩
    exact hstart.trans (renewed_takeRuntime hrq)

theorem renewed_periodTimerStart (hq : s.bandwidth.quota = some quota) :
    Renewed quota s (periodTimerStart s now) := by
  obtain ⟨hrq, hractive, hrlog⟩ := renewed_refill (s := s.emit .expired) now hq
  have hrenew : Renewed quota s (refillCfsBandwidthRuntime (s.emit .expired) now) := by
    refine ⟨hrq, [.expired, .refilled quota], ?_, ?_, ?_⟩
    · rw [hrlog]
      exact List.append_assoc ..
    · simp [Event.Regular]
    · rw [State.due, hractive]
      exact (add_zero _).ge
  unfold periodTimerStart
  dsimp only
  split_ifs
  · refine ⟨hq, Bounded.emits rfl trivial ?_⟩
    change (1 : ℤ) ≤ s.due + 1
    linarith [due_nonneg (s := s)]
  · exact hrenew.trans (.silent hrq rfl rfl rfl)
  · exact hrenew.trans (.silent hrq rfl rfl rfl)

theorem distribute_bandwidth : (distribute s hand i).1.bandwidth.quota = s.bandwidth.quota ∧
    (distribute s hand i).1.bandwidth.timerActive = s.bandwidth.timerActive := by
  unfold distribute
  dsimp only
  split_ifs <;> exact ⟨rfl, rfl⟩

theorem next_renewed (hq : s.bandwidth.quota = some quota) (ha : a.regular = true)
    (h : next tickNsec s a = some t) : Renewed quota s t := by
  cases moves_of_next h with
  | account i deltaExec clock => exact ⟨hq, Bounded.emits rfl trivial (add_zero _).ge⟩
  | assign i slice now busy => exact renewed_assign hq busy
  | started i minAmount => exact (renewed_start hq).trans (renewed_takeRuntime hq)
  | throttle i => exact .silent hq rfl rfl rfl
  | giveBack i =>
    unfold returnCfsRqRuntime
    dsimp only
    split_ifs <;> exact .silent hq rfl rfl rfl
  | periodStart now => exact renewed_periodTimerStart hq
  | periodGive i hand =>
    exact .silent hq (distribute_account hand).1 distribute_bandwidth.1 distribute_bandwidth.2
  | periodEnd hand => exact .silent hq rfl rfl rfl
  | slackStart slice =>
    unfold slackTimerStart
    split_ifs <;> exact .silent hq rfl rfl rfl
  | slackGive i hand =>
    exact .silent hq (distribute_account hand).1 distribute_bandwidth.1 distribute_bandwidth.2
  | slackEnd hand =>
    unfold slackTimerEnd
    refine .silent hq rfl ?_ ?_ <;> dsimp only <;> split_ifs <;> rfl
  | restart => exact renewed_start hq
  | setBandwidth | setCfsRq | offline => cases ha

def State.unused (s : State n) : ℤ :=
  s.bandwidth.runtime + heldRuntime s.periodTimer + heldRuntime s.slackTimer +
    ∑ i, max (s.rq i).runtimeRemaining 0

def State.overrun (s : State n) : ℤ := ∑ i, max (-(s.rq i).runtimeRemaining) 0

theorem budget_eq (s : State n) : s.budget = s.unused - s.overrun := by
  rw [State.unused, State.overrun, add_sub_assoc, ← Finset.sum_sub_distrib, State.budget]
  congr 1
  refine Finset.sum_congr rfl fun i _ => ?_
  omega

def Event.used : Event n → ℤ
  | .charged _ delta => delta
  | _ => 0

def charged (w : List (Event n)) : ℤ := total Event.used w

def expirations (w : List (Event n)) : ℕ := w.count .expired

def waits (w : List (Event n)) : ℕ := w.count .waited

def Event.ticks : Event n → ℤ
  | .expired | .waited => 1
  | _ => 0

theorem total_ticks (w : List (Event n)) : total Event.ticks w = expirations w + waits w := by
  induction w with
  | nil => rfl
  | cons e w ih =>
    change e.ticks + total Event.ticks w = _
    rw [ih, expirations, waits, expirations, waits, List.count_cons, List.count_cons]
    cases e <;> simp [Event.ticks] <;> ring

theorem total_supply {w : List (Event n)} (h : ∀ e ∈ w, e.Regular quota) : total Event.supply w =
    quota * (expirations w + waits w - total Event.renewal w) - charged w := by
  have hsupply : ∀ e ∈ w, e.supply =
      quota * (e.ticks + -1 * e.renewal) + -1 * e.used := by
    intro e he
    have hreg := h e he
    cases e with
    | charged i delta => simp [Event.supply, Event.ticks, Event.renewal, Event.used]
    | expired => simp [Event.supply, Event.ticks, Event.renewal, Event.used]
    | waited => simp [Event.supply, Event.ticks, Event.renewal, Event.used]
    | refilled q =>
      obtain rfl : q = quota := hreg
      simp [Event.supply, Event.ticks, Event.renewal, Event.used]
    | granted amount => exact hreg.elim
  rw [total_congr hsupply, total_add, total_mul, total_add, total_mul, total_mul, total_ticks,
    charged]
  ring

/-- What the group uses while its timer expires so often is bounded by its quota, whatever its CPUs
and the two timers do in between. -/
theorem run_charged (hq : s.bandwidth.quota = some quota) (has : ∀ a ∈ as, a.regular = true)
    (h : exec (next tickNsec) as s = some t) : ∃ w, t.log = s.log ++ w ∧
      charged w + t.unused + s.overrun ≤
        quota * (expirations w + waits w + 1) + s.unused + t.overrun := by
  obtain ⟨w, hw, -, hb⟩ : Budgeted s t := Bounded.exec (I := fun _ => True) (A := fun _ => True)
    (fun s a t _ _ hn => ⟨trivial, next_budgeted hn⟩) (fun _ _ => trivial) trivial h
  obtain ⟨w', hw', hreg, hdue⟩ :
      Bounded State.log (Event.Regular quota) State.due Event.renewal s t :=
    Bounded.exec (I := fun s => s.bandwidth.quota = some quota)
      (fun s a t hs ha hn => next_renewed hs ha hn) has hq h
  obtain rfl : w = w' := List.append_cancel_left (hw.symm.trans hw')
  refine ⟨w, hw, ?_⟩
  have hs : s.due ≤ 1 := by
    unfold State.due
    split_ifs <;> decide
  have ht : 0 ≤ t.due := due_nonneg
  have hrefills : expirations w + waits w - total Event.renewal w ≤ expirations w + waits w + 1 := by
    linarith
  have hsupply := total_supply hreg
  have hmul := mul_le_mul_of_nonneg_left hrefills (Int.natCast_nonneg quota)
  rw [budget_eq, budget_eq] at hb
  linarith

def limited : State 2 :=
  (exec (next 10000000)
    [.setBandwidth 100000000 (some 20000000) 0, .setCfsRq, .setCfsRq] (initState 0)).getD (initState 0)

def overrunSteps : List (Action 2) :=
  [.account firstCpu 4000000 1, .assign firstCpu 5000000 1 false, .account firstCpu 25000000 2,
    .assign firstCpu 5000000 2 false, .account secondCpu 0 3, .assign secondCpu 5000000 3 false,
    .throttle firstCpu, .throttle secondCpu, .periodStart 100000000, .periodGive firstCpu,
    .periodGive secondCpu, .periodEnd]

theorem run_charged_limited : ∃ t w, exec (next 10000000) overrunSteps limited = some t ∧
    t.log = limited.log ++ w ∧ charged w + t.unused + limited.overrun ≤
      (20000000 : ℕ) * (expirations w + waits w + 1) + limited.unused + t.overrun := by
  have hrun : (exec (next 10000000) overrunSteps limited).isSome = true := by decide
  obtain ⟨t, ht⟩ := Option.isSome_iff_exists.mp hrun
  have hq : limited.bandwidth.quota = some 20000000 := by decide
  obtain ⟨w, hw⟩ := run_charged hq (by decide) ht
  exact ⟨t, w, ht, hw⟩

end AndroidKernel.Bandwidth
