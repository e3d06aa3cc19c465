import AndroidKernel.Sched.Classes

/-! The priorities that a policy can be used with, as `sched_get_priority_min` and
`sched_get_priority_max` advertise them and as `__sched_setscheduler` accepts them. -/

namespace AndroidKernel.Sched

def EINVAL : ℤ := 22

def Policy.number : Policy → BitVec 32
  | .normal => 0
  | .fifo => 1
  | .rr => 2
  | .batch => 3
  | .idle => 5
  | .mycfs => 6

def schedGetPriorityMax (policy : BitVec 32) : ℤ :=
  if policy = Policy.number .fifo ∨ policy = Policy.number .rr then MAX_USER_RT_PRIO - 1
  else if policy = Policy.number .normal ∨ policy = Policy.number .mycfs ∨
      policy = Policy.number .batch ∨ policy = Policy.number .idle then 0
  else -EINVAL

def schedGetPriorityMin (policy : BitVec 32) : ℤ :=
  if policy = Policy.number .fifo ∨ policy = Policy.number .mycfs ∨
      policy = Policy.number .rr then 1
  else if policy = Policy.number .normal ∨ policy = Policy.number .batch ∨
      policy = Policy.number .idle then 0
  else -EINVAL

/-- The head of `__sched_setscheduler`, up to the permission checks: an error, or the policy that
the rest of the function works with. -/
def checkParams (t : Task) (policy : BitVec 32) (prio : ℤ) : Except ℤ Policy :=
  match if policy.slt 0 then some t.policy else Policy.ofInt (policy &&& ~~~SCHED_RESET_ON_FORK) with
  | none => .error (-EINVAL)
  | some policy => if paramsValid t policy prio then .ok policy else .error (-EINVAL)

/-- The policy that the argument stands for: a negative one keeps the policy of the task, and
`SCHED_RESET_ON_FORK` is a flag beside the policy. -/
def requested (t : Task) (policy : BitVec 32) : BitVec 32 :=
  if policy.slt 0 then t.policy.number else policy &&& ~~~SCHED_RESET_ON_FORK

/-- Both system calls succeed and the priority is between their answers. -/
def Advertised (policy : BitVec 32) (prio : ℤ) : Prop :=
  schedGetPriorityMin policy ≠ -EINVAL ∧ schedGetPriorityMax policy ≠ -EINVAL ∧
    schedGetPriorityMin policy ≤ prio ∧ prio ≤ schedGetPriorityMax policy

def Accepted (t : Task) (policy : BitVec 32) (prio : ℤ) : Prop :=
  ∃ q, checkParams t policy prio = .ok q

variable {t : Task} {policy : BitVec 32} {prio : ℤ} {q : Policy}

theorem Policy.ofInt_number (q : Policy) : Policy.ofInt q.number = some q := by
  cases q <;> rfl

theorem Policy.eq_number (h : Policy.ofInt policy = some q) : policy = q.number := by
  unfold Policy.ofInt at h
  split_ifs at h <;> · cases h; assumption

theorem schedGetPriorityMax_number (q : Policy) :
    schedGetPriorityMax q.number = if rtPolicy q then MAX_USER_RT_PRIO - 1 else 0 := by
  cases q <;> rfl

theorem schedGetPriorityMin_number (q : Policy) :
    schedGetPriorityMin q.number = if rtPolicy q ∨ q = .mycfs then 1 else 0 := by
  cases q <;> rfl

theorem schedGetPriority_unknown (h : Policy.ofInt policy = none) :
    schedGetPriorityMin policy = -EINVAL ∧ schedGetPriorityMax policy = -EINVAL := by
  have hne : ∀ q : Policy, policy ≠ q.number := by
    rintro q rfl
    rw [Policy.ofInt_number] at h
    cases h
  simp only [schedGetPriorityMin, schedGetPriorityMax, hne, or_self, if_false, and_self]

theorem schedGetPriority_known (q : Policy) :
    schedGetPriorityMin q.number ≠ -EINVAL ∧ schedGetPriorityMax q.number ≠ -EINVAL := by
  cases q <;> exact ⟨by decide, by decide⟩

/-- The minimum of MYCFS is above its maximum, so no priority is advertised for it. -/
theorem not_advertised_mycfs (prio : ℤ) : ¬ Advertised (Policy.number .mycfs) prio := by
  rintro ⟨-, -, hmin, hmax⟩
  rw [schedGetPriorityMin_number] at hmin
  rw [schedGetPriorityMax_number] at hmax
  exact absurd (hmin.trans hmax) (by decide)

theorem advertised_number (h : q ≠ .mycfs ∨ prio ≠ 0) :
    Advertised q.number prio ↔
      (if rtPolicy q then 1 else 0) ≤ prio ∧
        prio ≤ if rtPolicy q then MAX_USER_RT_PRIO - 1 else 0 := by
  by_cases hq : q = .mycfs
  · subst hq
    refine iff_of_false (not_advertised_mycfs prio) ?_
    rintro ⟨hmin, hmax⟩
    exact h.resolve_left (fun h => h rfl) (le_antisymm hmax hmin)
  · obtain ⟨hmin, hmax⟩ := schedGetPriority_known q
    unfold Advertised
    rw [and_iff_right hmin, and_iff_right hmax, schedGetPriorityMin_number,
      schedGetPriorityMax_number]
    simp only [hq, or_false]

theorem checkParams_eq (t : Task) (policy : BitVec 32) (prio : ℤ) :
    checkParams t policy prio = match Policy.ofInt (requested t policy) with
      | none => .error (-EINVAL)
      | some q => if paramsValid t q prio then .ok q else .error (-EINVAL) := by
  unfold checkParams requested
  split_ifs
  · rw [Policy.ofInt_number]
  · rfl

theorem accepted_iff (h : Policy.ofInt (requested t policy) = some q) :
    Accepted t policy prio ↔ paramsValid t q prio = true := by
  rw [Accepted, checkParams_eq, h]
  by_cases hv : paramsValid t q prio = true <;> simp [hv]

theorem paramsValid_user (ht : t.mm = true) :
    paramsValid t q prio = true ↔
      (if rtPolicy q then 1 else 0) ≤ prio ∧
        prio ≤ if rtPolicy q then MAX_USER_RT_PRIO - 1 else 0 := by
  have hrange : paramsValid t q prio = true ↔
      (0 ≤ prio ∧ prio ≤ MAX_USER_RT_PRIO - 1) ∧ rtPolicy q = decide (prio ≠ 0) := by
    simp [paramsValid, ht]
  rw [hrange]
  unfold MAX_USER_RT_PRIO
  cases rtPolicy q with
  | true =>
    rw [eq_comm, decide_eq_true_iff, if_pos rfl, if_pos rfl]
    omega
  | false =>
    rw [eq_comm, decide_eq_false_iff_not, if_neg Bool.false_ne_true, if_neg Bool.false_ne_true]
    omega

/-- Arguments that the checks refuse change nothing. -/
theorem schedSetscheduler_refused {rq : Rq} {p : Tid} {e : ℤ}
    (h : checkParams (rq.task p) policy prio = .error e) (waiter : Option ℤ) (permitted : Bool) :
    schedSetscheduler rq p policy prio waiter permitted = rq := by
  simp only [checkParams] at h
  simp only [schedSetscheduler]
  generalize (if policy.slt 0 then some (rq.task p).policy
    else Policy.ofInt (policy &&& ~~~SCHED_RESET_ON_FORK)) = known at h ⊢
  cases known with
  | none => rfl
  | some q =>
    have hv : paramsValid (rq.task p) q prio = false := by
      by_contra hv
      rw [Bool.not_eq_false] at hv
      simp only [hv, if_true, reduceCtorEq] at h
    simp only [hv, Bool.false_and, Bool.false_eq_true, if_false]

/-- A policy that one of the three does not know is refused by all three, and every other can be
used with exactly the priorities that are advertised for it, but for the priority 0 of MYCFS. -/
theorem advertised_iff_accepted (t : Task) (ht : t.mm = true) (policy : BitVec 32) (prio : ℤ) :
    (requested t policy ≠ Policy.number .mycfs ∨ prio ≠ 0 →
      (Accepted t policy prio ↔ Advertised (requested t policy) prio)) ∧
    ((Policy.ofInt (requested t policy) = none ∨
        schedGetPriorityMin (requested t policy) = -EINVAL ∨
        schedGetPriorityMax (requested t policy) = -EINVAL) →
      checkParams t policy prio = .error (-EINVAL) ∧
        schedGetPriorityMin (requested t policy) = -EINVAL ∧
        schedGetPriorityMax (requested t policy) = -EINVAL) := by
  cases hk : Policy.ofInt (requested t policy) with
  | none =>
    have hr : checkParams t policy prio = .error (-EINVAL) := by rw [checkParams_eq, hk]
    obtain ⟨hmin, hmax⟩ := schedGetPriority_unknown hk
    refine ⟨fun _ => iff_of_false ?_ ?_, fun _ => ⟨hr, hmin, hmax⟩⟩
    · rintro ⟨q, hq⟩
      rw [hr] at hq
      cases hq
    · intro ha
      exact ha.1 hmin
  | some q =>
    have hq := Policy.eq_number hk
    have hknown := schedGetPriority_known q
    rw [← hq] at hknown
    constructor
    · intro hne
      have hm : q ≠ .mycfs ∨ prio ≠ 0 := by
        refine hne.imp_left ?_
        rintro hne rfl
        exact hne hq
      rw [accepted_iff hk, paramsValid_user ht, hq, advertised_number hm]
    · rintro (h | h | h)
      · cases h
      · exact absurd h hknown.1
      · exact absurd h hknown.2

def userTask : Task :=
  ⟨.normal, 0, 120, 120, 120, .fair, true, .running, false, true⟩

theorem userTask_priorities :
    userTask.mm = true ∧
      (Accepted userTask (Policy.number .rr) 99 ↔ Advertised (Policy.number .rr) 99) ∧
      (Accepted userTask SCHED_RESET_ON_FORK 0 ↔ Advertised (Policy.number .normal) 0) ∧
      (Accepted userTask (Policy.number .mycfs) 1 ↔ Advertised (Policy.number .mycfs) 1) ∧
      checkParams userTask 4 0 = .error (-EINVAL) :=
  ⟨rfl, (advertised_iff_accepted userTask rfl (Policy.number .rr) 99).1 (by decide),
    (advertised_iff_accepted userTask rfl SCHED_RESET_ON_FORK 0).1 (by decide),
    (advertised_iff_accepted userTask rfl (Policy.number .mycfs) 1).1 (by decide),
    ((advertised_iff_accepted userTask rfl 4 0).2 (Or.inl (by decide))).1⟩

/-- The argument itself is not what is advertised for: a flag beside the policy and a negative
policy are accepted where the two system calls know no policy. Priority 0 of MYCFS is accepted
where the advertised range is empty. -/
theorem accepted_not_advertised :
    userTask.mm = true ∧
      (Accepted userTask SCHED_RESET_ON_FORK 0 ∧ ¬ Advertised SCHED_RESET_ON_FORK 0) ∧
      (Accepted userTask (-1) 0 ∧ ¬ Advertised (-1) 0 ∧ schedGetPriorityMin (-1) = -EINVAL) ∧
      (Accepted userTask (Policy.number .mycfs) 0 ∧ ¬ Advertised (Policy.number .mycfs) 0) := by
  refine ⟨rfl, ⟨⟨.normal, rfl⟩, ?_⟩, ⟨⟨.normal, rfl⟩, ?_, rfl⟩, ⟨.mycfs, rfl⟩,
    not_advertised_mycfs 0⟩
  · exact fun h => h.1 rfl
  · exact fun h => h.1 rfl

end AndroidKernel.Sched
