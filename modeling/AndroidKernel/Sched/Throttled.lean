import AndroidKernel.Sched.Bandwidth

/-! The list of the throttled `cfs_rq`s of a group. -/

namespace AndroidKernel.Bandwidth
open Lts

variable {n : ℕ} {s t : State n} {i : Fin n} {q : CfsRq} {tickNsec now clock : BitVec 64}
  {hand : Hand} {minAmount amount slice : ℕ} {a : Action n}

/-- The list holds the throttled `cfs_rq`s, once each, and only those that a quota binds. -/
structure Inv (s : State n) : Prop where
  nodup : s.bandwidth.throttledCfsRq.Nodup
  listed : ∀ i, i ∈ s.bandwidth.throttledCfsRq ↔ (s.rq i).throttled = true
  enabled : ∀ i, i ∉ s.todo → (s.rq i).runtimeEnabled = s.bandwidth.quota.isSome
  bound : ∀ i, (s.rq i).throttled = true → (s.rq i).runtimeEnabled = true

theorem inv_init (period : BitVec 64) : Inv (initState period : State n) where
  nodup := List.nodup_nil
  listed _ := iff_of_false List.not_mem_nil Bool.false_ne_true
  enabled _ _ := rfl
  bound _ h := absurd h Bool.false_ne_true

structure Same (s t : State n) : Prop where
  list : t.bandwidth.throttledCfsRq = s.bandwidth.throttledCfsRq
  quota : t.bandwidth.quota = s.bandwidth.quota
  todo : t.todo = s.todo
  throttled : ∀ j, (t.rq j).throttled = (s.rq j).throttled
  enabled : ∀ j, (t.rq j).runtimeEnabled = (s.rq j).runtimeEnabled

theorem Same.refl (s : State n) : Same s s := ⟨rfl, rfl, rfl, fun _ => rfl, fun _ => rfl⟩

theorem Same.trans {u : State n} (h : Same s t) (h' : Same t u) : Same s u :=
  ⟨h'.list.trans h.list, h'.quota.trans h.quota, h'.todo.trans h.todo,
    fun j => (h'.throttled j).trans (h.throttled j), fun j => (h'.enabled j).trans (h.enabled j)⟩

theorem Inv.same (h : Inv s) (hst : Same s t) : Inv t where
  nodup := hst.list ▸ h.nodup
  listed j := by rw [hst.list, hst.throttled, h.listed]
  enabled j hj := by rw [hst.enabled, hst.quota, h.enabled j (hst.todo ▸ hj)]
  bound j hj := by rw [hst.enabled, h.bound j (hst.throttled j ▸ hj)]

theorem same_setRq (ht : q.throttled = (s.rq i).throttled)
    (he : q.runtimeEnabled = (s.rq i).runtimeEnabled) : Same s (s.setRq i q) := by
  refine ⟨rfl, rfl, rfl, fun j => ?_, fun j => ?_⟩
  all_goals
    rcases eq_or_ne j i with rfl | hj
    · simp only [State.setRq, Function.update_self, ht, he]
    · simp only [State.setRq, Function.update_of_ne hj]

theorem same_setRuntime (s : State n) (i : Fin n) (remaining : ℤ) (expires : BitVec 64) :
    Same s (s.setRq i { s.rq i with runtimeRemaining := remaining, runtimeExpires := expires }) :=
  same_setRq rfl rfl

theorem Same.setPhase (h : Same s t) (p : Phase) : Same s (t.setPhase i p) :=
  ⟨h.list, h.quota, h.todo, h.throttled, h.enabled⟩

theorem Same.emit (h : Same s t) (e : Event n) : Same s (t.emit e) :=
  ⟨h.list, h.quota, h.todo, h.throttled, h.enabled⟩

theorem Same.setPool (h : Same s t) {b : CfsBandwidth n}
    (hl : b.throttledCfsRq = t.bandwidth.throttledCfsRq) (hq : b.quota = t.bandwidth.quota) :
    Same s { t with bandwidth := b } :=
  ⟨hl.trans h.list, hq.trans h.quota, h.todo, h.throttled, h.enabled⟩

theorem same_refill (s : State n) (now : BitVec 64) : Same s (refillCfsBandwidthRuntime s now) := by
  unfold refillCfsBandwidthRuntime
  split
  · exact .refl s
  · exact ⟨rfl, rfl, rfl, fun _ => rfl, fun _ => rfl⟩

theorem expireCfsRqRuntime_flags (b : CfsBandwidth n) :
    (expireCfsRqRuntime tickNsec b q clock).throttled = q.throttled ∧
      (expireCfsRqRuntime tickNsec b q clock).runtimeEnabled = q.runtimeEnabled := by
  unfold expireCfsRqRuntime
  split_ifs <;> exact ⟨rfl, rfl⟩

theorem same_account (deltaExec : ℕ) : Same s (accountCfsRqRuntime tickNsec s i deltaExec clock) := by
  let q : CfsRq := { s.rq i with runtimeRemaining := (s.rq i).runtimeRemaining - deltaExec }
  obtain ⟨ht, he⟩ : (expireCfsRqRuntime tickNsec s.bandwidth q clock).throttled = q.throttled ∧
      (expireCfsRqRuntime tickNsec s.bandwidth q clock).runtimeEnabled = q.runtimeEnabled :=
    expireCfsRqRuntime_flags s.bandwidth
  exact ((same_setRq ht he).emit _).setPhase _

theorem same_addRuntime (s : State n) (i : Fin n) (amount : ℕ) : Same s (addRuntime s i amount) :=
  (same_setRuntime s i _ _).setPhase .out

theorem same_takeRuntime : Same s (takeRuntime s i minAmount) := by
  unfold takeRuntime
  split_ifs
  · refine Same.trans ?_ (same_addRuntime _ i _)
    exact (Same.refl s).setPool rfl rfl
  · exact same_addRuntime s i 0

theorem same_start (s : State n) : Same s (startCfsBandwidth s) := (Same.refl s).setPool rfl rfl

theorem same_assign (busy : Bool) : Same s (assignCfsRqRuntime s i slice now busy) := by
  unfold assignCfsRqRuntime
  split_ifs
  · exact ((Same.refl s).emit _).trans (same_addRuntime _ i _)
  · exact same_takeRuntime
  · exact ((same_refill s now).emit .waited).setPhase _
  · exact ((same_refill s now).trans (same_start _)).trans same_takeRuntime

theorem same_return : Same s (returnCfsRqRuntime s i) := by
  unfold returnCfsRqRuntime
  dsimp only
  split_ifs
  · exact .refl s
  · refine Same.trans ?_ (same_setRuntime _ i _ _)
    exact (Same.refl s).setPool rfl rfl
  · exact same_setRuntime s i _ _

theorem Inv.throttle (h : Inv s) (ht : (s.rq i).throttled = false)
    (he : (s.rq i).runtimeEnabled = true) : Inv (throttleCfsRq s i) := by
  have hi : i ∉ s.bandwidth.throttledCfsRq := by
    rw [h.listed, ht]
    exact Bool.false_ne_true
  refine ⟨?_, fun j => ?_, fun j hj => ?_, fun j hj => ?_⟩
  · exact h.nodup.append (List.nodup_singleton i) (List.disjoint_singleton.mpr hi)
  · change j ∈ s.bandwidth.throttledCfsRq ++ [i] ↔ (Function.update s.rq i _ j).throttled = true
    rw [List.mem_append, List.mem_singleton, h.listed]
    rcases eq_or_ne j i with rfl | hji
    · simp only [Function.update_self, or_true]
    · simp only [Function.update_of_ne hji, hji, or_false]
  · change (Function.update s.rq i _ j).runtimeEnabled = _
    rcases eq_or_ne j i with rfl | hji
    · rw [Function.update_self]
      exact h.enabled j hj
    · rw [Function.update_of_ne hji]
      exact h.enabled j hj
  · change (Function.update s.rq i _ j).runtimeEnabled = true
    change (Function.update s.rq i _ j).throttled = true at hj
    rcases eq_or_ne j i with rfl | hji
    · rw [Function.update_self]
      exact he
    · rw [Function.update_of_ne hji] at hj ⊢
      exact h.bound j hj

theorem Inv.release (h : Inv s) (hlist : t.bandwidth.throttledCfsRq = s.bandwidth.throttledCfsRq.erase i)
    (hrq : ∀ j, j ≠ i → t.rq j = s.rq j) (ht : (t.rq i).throttled = false)
    (he : i ∉ t.todo → (t.rq i).runtimeEnabled = t.bandwidth.quota.isSome)
    (hq : t.bandwidth.quota = s.bandwidth.quota) (htodo : ∀ j, j ≠ i → j ∉ t.todo → j ∉ s.todo) :
    Inv t := by
  refine ⟨hlist ▸ h.nodup.erase i, fun j => ?_, fun j hj => ?_, fun j hj => ?_⟩
  · rw [hlist, h.nodup.mem_erase_iff, h.listed]
    rcases eq_or_ne j i with rfl | hji
    · simp only [ne_eq, not_true_eq_false, false_and, ht, Bool.false_eq_true]
    · simp only [ne_eq, hji, not_false_eq_true, true_and, hrq j hji]
  · rcases eq_or_ne j i with rfl | hji
    · exact he hj
    · rw [hrq j hji, hq, h.enabled j (htodo j hji hj)]
  · rcases eq_or_ne j i with rfl | hji
    · rw [ht] at hj
      cases hj
    · rw [hrq j hji] at hj ⊢
      exact h.bound j hj

theorem unthrottle_rq (s : State n) (i j : Fin n) (hj : j ≠ i) :
    (unthrottleCfsRq s i).rq j = s.rq j := Function.update_of_ne hj ..

theorem unthrottle_self (s : State n) (i : Fin n) :
    (unthrottleCfsRq s i).rq i = { s.rq i with throttled := false } := Function.update_self ..

theorem Inv.unthrottle (h : Inv s) : Inv (unthrottleCfsRq s i) := by
  refine h.release rfl (unthrottle_rq s i) ?_ ?_ rfl fun _ _ hj => hj
  · rw [unthrottle_self]
  · intro hi
    rw [unthrottle_self]
    exact h.enabled i hi

theorem Inv.distribute (h : Inv s) : Inv (distribute s hand i).1 := by
  unfold Bandwidth.distribute
  dsimp only
  split_ifs
  · exact (h.same (same_setRuntime s i _ _)).unthrottle
  · exact h.same (same_setRuntime s i _ _)
  · exact h

theorem same_periodTimerStart : Same s (periodTimerStart s now) := by
  unfold periodTimerStart
  dsimp only
  split_ifs
  · exact ((Same.refl s).emit .expired).setPool rfl rfl
  · exact (((Same.refl s).emit .expired).trans (same_refill _ now)).setPool rfl rfl
  · exact Same.trans (((Same.refl s).emit .expired).trans (same_refill _ now))
      ⟨rfl, rfl, rfl, fun _ => rfl, fun _ => rfl⟩

theorem Inv.setBandwidth (h : Inv s) (period : BitVec 64) (quota : Option ℕ) :
    Inv (tgSetCfsBandwidth s period quota now) := by
  let u : State n := { s with bandwidth := { s.bandwidth with period := period, quota := quota } }
  have hr : Same u (refillCfsBandwidthRuntime u now) := same_refill u now
  refine ⟨?_, fun j => ?_, fun j hj => ?_, fun j hj => ?_⟩
  · exact (hr.list ▸ h.nodup : (refillCfsBandwidthRuntime u now).bandwidth.throttledCfsRq.Nodup)
  · exact (by rw [hr.list, hr.throttled]; exact h.listed j :
      j ∈ (refillCfsBandwidthRuntime u now).bandwidth.throttledCfsRq ↔
        ((refillCfsBandwidthRuntime u now).rq j).throttled = true)
  · exact absurd (List.mem_finRange j) hj
  · have hj' : ((refillCfsBandwidthRuntime u now).rq j).throttled = true := hj
    rw [hr.throttled] at hj'
    exact (hr.enabled j).trans (h.bound j hj')

theorem Inv.setCfsRq (h : Inv s) {todo : List (Fin n)} (htodo : s.todo = i :: todo) :
    Inv { setCfsRq s i with todo := todo } := by
  have hlist : (Bandwidth.setCfsRq s i).bandwidth.throttledCfsRq =
      s.bandwidth.throttledCfsRq.erase i := by
    unfold Bandwidth.setCfsRq
    dsimp only
    split_ifs with ht
    · rfl
    · exact (List.erase_of_not_mem fun hi => ht ((h.listed i).mp hi)).symm
  refine h.release hlist (fun j hj => ?_) ?_ (fun _ => ?_) ?_ fun j hj hjt => ?_
  · change (Bandwidth.setCfsRq s i).rq j = s.rq j
    unfold Bandwidth.setCfsRq
    dsimp only
    split_ifs
    · rw [unthrottle_rq _ i j hj]
      exact Function.update_of_ne hj ..
    · exact Function.update_of_ne hj ..
  · change ((Bandwidth.setCfsRq s i).rq i).throttled = false
    unfold Bandwidth.setCfsRq
    dsimp only
    split_ifs with ht
    · rw [unthrottle_self]
    · change (Function.update s.rq i _ i).throttled = false
      rw [Function.update_self]
      exact Bool.eq_false_iff.mpr ht
  · change ((Bandwidth.setCfsRq s i).rq i).runtimeEnabled = (Bandwidth.setCfsRq s i).bandwidth.quota.isSome
    unfold Bandwidth.setCfsRq
    dsimp only
    split_ifs
    · rw [unthrottle_self]
      change (Function.update s.rq i _ i).runtimeEnabled = _
      rw [Function.update_self]
      rfl
    · change (Function.update s.rq i _ i).runtimeEnabled = _
      rw [Function.update_self]
      rfl
  · change (Bandwidth.setCfsRq s i).bandwidth.quota = s.bandwidth.quota
    unfold Bandwidth.setCfsRq
    dsimp only
    split_ifs <;> rfl
  · rw [htodo, List.mem_cons]
    exact not_or.mpr ⟨hj, hjt⟩

theorem Inv.offline (h : Inv s) (used : Bool) : Inv (unthrottleOfflineCfsRq s i used) := by
  unfold unthrottleOfflineCfsRq
  dsimp only
  split_ifs
  · exact (h.same ((same_setRuntime s i _ _).emit _)).unthrottle
  · exact h.same ((same_setRuntime s i _ _).emit _)

theorem Inv.step (h : Inv s) (hn : next tickNsec s a = some t) : Inv t := by
  cases moves_of_next hn with
  | account i deltaExec clock => exact h.same (same_account deltaExec)
  | assign i slice now busy => exact h.same (same_assign busy)
  | started i minAmount => exact h.same ((same_start s).trans same_takeRuntime)
  | throttle i hout he hr ht => exact h.throttle ht he
  | giveBack i => exact h.same same_return
  | periodStart now => exact h.same same_periodTimerStart
  | periodGive i hand | slackGive i hand =>
    exact Inv.same h.distribute ⟨rfl, rfl, rfl, fun _ => rfl, fun _ => rfl⟩
  | periodEnd hand => exact h.same ⟨rfl, rfl, rfl, fun _ => rfl, fun _ => rfl⟩
  | slackStart slice =>
    unfold slackTimerStart
    split_ifs
    · exact h.same ⟨rfl, rfl, rfl, fun _ => rfl, fun _ => rfl⟩
    · exact h
  | slackEnd hand =>
    refine h.same ⟨?_, ?_, rfl, fun _ => rfl, fun _ => rfl⟩
    all_goals
      unfold slackTimerEnd
      dsimp only
      split_ifs <;> rfl
  | setBandwidth period quota now => exact h.setBandwidth period quota
  | restart => exact h.same ⟨rfl, rfl, rfl, fun _ => rfl, fun _ => rfl⟩
  | setCfsRq i todo htodo => exact h.setCfsRq htodo
  | offline i used => exact h.offline used

end AndroidKernel.Bandwidth
