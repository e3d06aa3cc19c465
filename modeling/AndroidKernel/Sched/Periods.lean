import AndroidKernel.Lib.Arrears
import AndroidKernel.Sched.Throttled

/-! Periods of a group in which nothing but the period timer runs: it pays the overrun of the
throttled `cfs_rq`s in the order in which they were throttled. -/

namespace AndroidKernel.Bandwidth
open Lts Arrears

variable {n : ℕ} {s t : State n} {i : Fin n} {tickNsec now : BitVec 64} {hand : Hand} {quota : ℕ}
  {l : List (Fin n)}

def distributeCfsRuntime : State n → Hand → List (Fin n) → State n × Hand
  | s, hand, [] => (s, hand)
  | s, hand, i :: l =>
    let (s, hand) := distribute s hand i
    if hand.runtime = 0 then (s, hand) else distributeCfsRuntime s hand l

/-- `do_sched_cfs_period_timer`, which comes to its end after one round at the latest. -/
def doSchedCfsPeriodTimer (s : State n) (now : BitVec 64) : State n :=
  let s := periodTimerStart s now
  match s.periodTimer with
  | none => s
  | some hand =>
    let (s, hand) := distributeCfsRuntime s hand s.bandwidth.throttledCfsRq
    periodTimerEnd s hand

structure Owing (s : State n) : Prop where
  nodup : s.bandwidth.throttledCfsRq.Nodup
  listed : ∀ i, i ∈ s.bandwidth.throttledCfsRq ↔ (s.rq i).throttled = true
  range : ∀ i ∈ s.bandwidth.throttledCfsRq,
    -2 ^ 63 ≤ (s.rq i).runtimeRemaining ∧ (s.rq i).runtimeRemaining ≤ 0

def CfsRq.debt (q : CfsRq) : ℕ := (1 - q.runtimeRemaining).toNat

def State.arrears (s : State n) : List (Fin n × ℕ) :=
  s.bandwidth.throttledCfsRq.map fun i => (i, (s.rq i).debt)

theorem Owing.debt_pos (h : Owing s) : ∀ p ∈ s.arrears, 0 < p.2 := by
  intro p hp
  obtain ⟨i, hi, rfl⟩ := List.mem_map.mp hp
  have hr := (h.range i hi).2
  change 0 < (1 - (s.rq i).runtimeRemaining).toNat
  omega

theorem Owing.payment_eq (h : Owing s) (hi : i ∈ s.bandwidth.throttledCfsRq) (remaining : ℕ) :
    payment (s.rq i) remaining = min (s.rq i).debt remaining := by
  obtain ⟨hlo, hhi⟩ := h.range i hi
  unfold payment CfsRq.debt
  rw [Int.emod_eq_of_lt (by omega) (by omega), neg_add_eq_sub]

theorem Owing.distribute_enough (h : Owing s) (hl : s.bandwidth.throttledCfsRq = i :: l)
    (hd : (s.rq i).debt ≤ hand.runtime) :
    (distribute s hand i).2.runtime = hand.runtime - (s.rq i).debt ∧
      (distribute s hand i).1.bandwidth.throttledCfsRq = l ∧
      ((distribute s hand i).1.rq i).throttled = false ∧
      (∀ j, j ≠ i → (distribute s hand i).1.rq j = s.rq j) ∧
      (distribute s hand i).1.bandwidth.quota = s.bandwidth.quota := by
  have hi : i ∈ s.bandwidth.throttledCfsRq := hl ▸ List.mem_cons_self ..
  have hpay : payment (s.rq i) hand.runtime = (s.rq i).debt := by
    rw [h.payment_eq hi, min_eq_left hd]
  have hr := (h.range i hi).2
  have hdebt : ((s.rq i).debt : ℤ) = 1 - (s.rq i).runtimeRemaining :=
    Int.toNat_of_nonneg (by omega)
  have hpos : 0 < (s.rq i).runtimeRemaining + ((s.rq i).debt : ℤ) := by omega
  unfold distribute
  simp only [(h.listed i).mp hi, if_true, hpay, hpos]
  refine ⟨trivial, ?_, ?_, fun j hj => ?_, rfl⟩
  · change s.bandwidth.throttledCfsRq.erase i = l
    rw [hl, List.erase_cons_head]
  · rw [unthrottle_self]
  · rw [unthrottle_rq _ i j hj]
    exact Function.update_of_ne hj ..

theorem Owing.distribute_rest (h : Owing s) (hi : i ∈ s.bandwidth.throttledCfsRq)
    (hd : hand.runtime < (s.rq i).debt) :
    (distribute s hand i).2.runtime = 0 ∧
      (distribute s hand i).1.bandwidth = s.bandwidth ∧
      (distribute s hand i).1.rq = Function.update s.rq i { s.rq i with
        runtimeRemaining := (s.rq i).runtimeRemaining + hand.runtime
        runtimeExpires := hand.expires } := by
  have hpay : payment (s.rq i) hand.runtime = hand.runtime := by
    rw [h.payment_eq hi, min_eq_right hd.le]
  have hneg : ¬ 0 < (s.rq i).runtimeRemaining + (hand.runtime : ℤ) := by
    unfold CfsRq.debt at hd
    omega
  unfold distribute
  simp only [(h.listed i).mp hi, if_true, hpay, hneg, if_false]
  exact ⟨Nat.sub_self _, rfl, rfl⟩

def debts (s : State n) (l : List (Fin n)) : List (Fin n × ℕ) := l.map fun i => (i, (s.rq i).debt)

theorem debts_congr (h : ∀ j ∈ l, t.rq j = s.rq j) : debts t l = debts s l :=
  List.map_congr_left fun j hj => by rw [h j hj]

theorem arrears_cons (hl : s.bandwidth.throttledCfsRq = i :: l) :
    s.arrears = (i, (s.rq i).debt) :: debts s l := by
  rw [State.arrears, hl]
  rfl

theorem Owing.enough (h : Owing s) (hl : s.bandwidth.throttledCfsRq = i :: l)
    (hd : (s.rq i).debt ≤ hand.runtime) : Owing (distribute s hand i).1 ∧
      s.arrears = (i, (s.rq i).debt) :: (distribute s hand i).1.arrears := by
  obtain ⟨-, hlist, ht, hrq, -⟩ := h.distribute_enough hl hd
  obtain ⟨hi, hnodup⟩ := List.nodup_cons.mp (hl ▸ h.nodup)
  have hne : ∀ j ∈ l, j ≠ i := by
    rintro j hj rfl
    exact hi hj
  refine ⟨⟨hlist ▸ hnodup, fun j => ?_, fun j hj => ?_⟩, ?_⟩
  · rw [hlist]
    rcases eq_or_ne j i with rfl | hji
    · exact iff_of_false hi (by rw [ht]; exact Bool.false_ne_true)
    · rw [hrq j hji, ← h.listed j, hl, List.mem_cons, or_iff_right hji]
  · rw [hlist] at hj
    rw [hrq j (hne j hj)]
    exact h.range j (hl ▸ List.mem_cons_of_mem i hj)
  · rw [arrears_cons hl, State.arrears, hlist]
    exact congrArg _ (debts_congr fun j hj => hrq j (hne j hj)).symm

theorem Owing.rest (h : Owing s) (hl : s.bandwidth.throttledCfsRq = i :: l)
    (hd : hand.runtime < (s.rq i).debt) : Owing (distribute s hand i).1 ∧
      (distribute s hand i).1.arrears = (i, (s.rq i).debt - hand.runtime) :: debts s l := by
  have hmem : i ∈ s.bandwidth.throttledCfsRq := hl ▸ List.mem_cons_self ..
  obtain ⟨-, hb, hrq⟩ := h.distribute_rest hmem hd
  obtain ⟨hi, -⟩ := List.nodup_cons.mp (hl ▸ h.nodup)
  obtain ⟨hlo, hhi⟩ := h.range i hmem
  have hother : ∀ j, j ≠ i → (distribute s hand i).1.rq j = s.rq j := by
    intro j hj
    rw [hrq, Function.update_of_ne hj]
  have hself : (distribute s hand i).1.rq i = { s.rq i with
      runtimeRemaining := (s.rq i).runtimeRemaining + hand.runtime
      runtimeExpires := hand.expires } := by rw [hrq, Function.update_self]
  unfold CfsRq.debt at hd ⊢
  refine ⟨⟨hb ▸ h.nodup, fun j => ?_, fun j hj => ?_⟩, ?_⟩
  · rw [hb, h.listed]
    rcases eq_or_ne j i with rfl | hji
    · rw [hself]
    · rw [hother j hji]
  · rw [hb] at hj
    rcases eq_or_ne j i with rfl | hji
    · rw [hself]
      dsimp only
      omega
    · rw [hother j hji]
      exact h.range j hj
  · rw [arrears_cons (hb ▸ hl)]
    refine congrArg₂ List.cons (Prod.ext rfl ?_) (debts_congr fun j hj => hother j ?_)
    · change ((distribute s hand i).1.rq i).debt = _
      rw [hself, CfsRq.debt]
      dsimp only
      omega
    · rintro rfl
      exact hi hj

/-- What a call that nothing interrupts does to the list: it pays what it holds. -/
structure Paid (s t : State n) (amount : ℕ) : Prop where
  owing : Owing t
  arrears : t.arrears = pay amount s.arrears
  quota : t.bandwidth.quota = s.bandwidth.quota
  phase : t.phase = s.phase

theorem distribute_phase : (distribute s hand i).1.phase = s.phase := by
  unfold distribute
  dsimp only
  split_ifs <;> rfl

theorem Owing.distributed (hand : Hand) (h : Owing s) (hl : s.bandwidth.throttledCfsRq = l) :
    Paid s (distributeCfsRuntime s hand l).1 hand.runtime ∧
      ((distributeCfsRuntime s hand l).1.bandwidth.throttledCfsRq = [] ∨
        (distributeCfsRuntime s hand l).2.runtime = 0) := by
  induction l generalizing s hand with
  | nil =>
    refine ⟨⟨h, ?_, rfl, rfl⟩, Or.inl hl⟩
    change s.arrears = pay hand.runtime s.arrears
    rw [State.arrears, hl]
    rfl
  | cons i l ih =>
    rw [distributeCfsRuntime]
    by_cases hd : (s.rq i).debt ≤ hand.runtime
    · obtain ⟨hleft, hlist, -, -, hq⟩ := h.distribute_enough hl hd
      obtain ⟨ho, ha⟩ := h.enough hl hd
      have hpay : pay hand.runtime s.arrears =
          pay (distribute s hand i).2.runtime (distribute s hand i).1.arrears := by
        rw [ha, pay, if_pos hd, hleft]
      dsimp only
      split_ifs with hz
      · refine ⟨⟨ho, ?_, hq, distribute_phase⟩, Or.inr hz⟩
        rw [hpay, hz, pay_zero ho.debt_pos]
      · obtain ⟨⟨ho', ha', hq', hph⟩, hend⟩ := ih (distribute s hand i).2 ho hlist
        exact ⟨⟨ho', ha'.trans hpay.symm, hq'.trans hq, hph.trans distribute_phase⟩, hend⟩
    · have hlt : hand.runtime < (s.rq i).debt := not_le.mp hd
      obtain ⟨hz, hb, -⟩ := h.distribute_rest (hl ▸ List.mem_cons_self ..) hlt
      obtain ⟨ho, ha⟩ := h.rest hl hlt
      dsimp only
      rw [if_pos hz]
      refine ⟨⟨ho, ?_, congrArg _ hb, distribute_phase⟩, Or.inr hz⟩
      rw [ha, arrears_cons hl, pay, if_neg hd]

theorem Owing.congr (h : Owing s) (hlist : t.bandwidth.throttledCfsRq = s.bandwidth.throttledCfsRq)
    (hrq : t.rq = s.rq) : Owing t ∧ t.arrears = s.arrears := by
  refine ⟨⟨hlist ▸ h.nodup, fun i => ?_, fun i hi => ?_⟩, ?_⟩
  · rw [hlist, hrq, h.listed]
  · rw [hrq]
    exact h.range i (hlist ▸ hi)
  · rw [State.arrears, State.arrears, hlist, hrq]

theorem periodTimerStart_spec (now : BitVec 64) (hp : s.periodTimer = none) (hq : s.bandwidth.quota = some quota) :
    (periodTimerStart s now).bandwidth.throttledCfsRq = s.bandwidth.throttledCfsRq ∧
      (periodTimerStart s now).rq = s.rq ∧
      (periodTimerStart s now).phase = s.phase ∧
      (periodTimerStart s now).bandwidth.quota = some quota ∧
      (s.bandwidth.throttledCfsRq = [] → (periodTimerStart s now).periodTimer = none) ∧
      (s.bandwidth.throttledCfsRq ≠ [] → ∃ expires,
        (periodTimerStart s now).periodTimer = some ⟨quota, expires⟩) := by
  by_cases hl : s.bandwidth.throttledCfsRq = []
  · by_cases hidle : s.bandwidth.idle = true
    · simp [periodTimerStart, State.emit, hq, hl, hidle, hp]
    · simp [periodTimerStart, State.emit, refillCfsBandwidthRuntime, hq, hl, hidle, hp]
  · simp [periodTimerStart, State.emit, refillCfsBandwidthRuntime, hq, hl]

theorem Owing.period (h : Owing s) (hp : s.periodTimer = none)
    (hq : s.bandwidth.quota = some quota) (now : BitVec 64) :
    Paid s (doSchedCfsPeriodTimer s now) quota ∧
      (doSchedCfsPeriodTimer s now).periodTimer = none := by
  obtain ⟨hlist, hrq, hphase, hquota, hnil, hcons⟩ := periodTimerStart_spec now hp hq
  obtain ⟨ho, ha⟩ := h.congr hlist hrq
  rw [doSchedCfsPeriodTimer]
  by_cases hl : s.bandwidth.throttledCfsRq = []
  · have hnone := hnil hl
    dsimp only
    rw [hnone]
    refine ⟨⟨ho, ?_, hquota.trans hq.symm, hphase⟩, hnone⟩
    rw [ha, State.arrears, hl]
    rfl
  · obtain ⟨expires, hhand⟩ := hcons hl
    dsimp only
    rw [hhand]
    obtain ⟨⟨ho', ha', hq', hph⟩, -⟩ := ho.distributed ⟨quota, expires⟩ rfl
    obtain ⟨ho'', ha''⟩ := ho'.congr (t := periodTimerEnd _ _) rfl rfl
    exact ⟨⟨ho'', (ha''.trans ha').trans (congrArg _ ha), (hq'.trans hquota).trans hq.symm,
      hph.trans hphase⟩, rfl⟩

/-- With 10 ms in each period the first of two CPUs overruns its runtime by 15 ms, and the second
one finds nothing left. -/
def overdrawnSteps : List (Action 2) :=
  [.setBandwidth 100000000 (some 10000000) 0, .setCfsRq, .setCfsRq, .account firstCpu 4000000 1,
    .assign firstCpu 6000000 1 false, .account firstCpu 21000000 2,
    .assign firstCpu 5000000 2 false, .throttle firstCpu, .account secondCpu 0 3,
    .assign secondCpu 5000000 3 false, .throttle secondCpu]

def overdrawn : State 2 :=
  (exec (next 10000000) overdrawnSteps (initState 0)).getD (initState 0)

end AndroidKernel.Bandwidth
