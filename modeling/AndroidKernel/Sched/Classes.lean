import AndroidKernel.Sched.WorkConservation

/-! The class of a task against its policy and priority. The functions that assign `sched_class`
each decide for themselves: `__setscheduler` puts every SCHED_MYCFS task into the MYCFS class,
`rt_mutex_setprio` and `sched_fork` know the rt and the fair class only. -/

namespace AndroidKernel.Sched
open Lts
variable {rq rq' rq'' : Rq} {p q : Tid}

def Task.key (t : Task) : Policy × ℤ × Class := (t.policy, t.prio, t.schedClass)

def Task.Follows (t : Task) : Prop :=
  t.schedClass = if rtPrio t.prio then .rt else if t.policy = .mycfs then .mycfs else .fair

instance (t : Task) : Decidable t.Follows := inferInstanceAs (Decidable (_ = _))

def Rq.ordinary (rq : Rq) (p : Tid) : Prop := p ∈ rq.alive ∧ p ≠ rq.idle ∧ rq.stop ≠ some p

/-- Every task but the idle and the stop task is in the class of its policy and priority. -/
def Classed (rq : Rq) : Prop := ∀ p, rq.ordinary p → (rq.task p).Follows

theorem Task.Follows.congr {t t' : Task} (h : t.Follows) (hk : t'.key = t.key) : t'.Follows := by
  simp only [Task.key, Prod.mk.injEq] at hk
  obtain ⟨hpolicy, hprio, hclass⟩ := hk
  rw [Task.Follows, hpolicy, hprio, hclass]
  exact h

structure Same (rq rq' : Rq) : Prop where
  idle : rq'.idle = rq.idle
  stop : rq'.stop = rq.stop
  alive : rq'.alive = rq.alive
  key : ∀ q, (rq'.task q).key = (rq.task q).key

theorem Same.refl (rq : Rq) : Same rq rq := ⟨rfl, rfl, rfl, fun _ => rfl⟩

theorem Same.trans (h : Same rq rq') (h' : Same rq' rq'') : Same rq rq'' where
  idle := h'.idle.trans h.idle
  stop := h'.stop.trans h.stop
  alive := h'.alive.trans h.alive
  key := fun q => (h'.key q).trans (h.key q)

theorem same_modify {f : Task → Task} (h : (f (rq.task p)).key = (rq.task p).key) :
    Same rq (rq.modify p f) := by
  refine ⟨rfl, rfl, rfl, fun q => ?_⟩
  unfold Rq.modify
  by_cases hqp : q = p
  · subst hqp
    simpa using h
  · simp [hqp]

theorem same_setOnRq (b : Bool) : Same rq (rq.setOnRq p b) := same_modify rfl

theorem same_setState (st : TaskState) : Same rq (rq.setState p st) := same_modify rfl

theorem same_enqueueTask : Same rq (enqueueTask rq p) := by
  unfold enqueueTask
  split
  · exact ⟨rfl, rfl, rfl, fun _ => rfl⟩
  · exact ⟨rfl, rfl, rfl, fun _ => rfl⟩
  · exact ⟨rfl, rfl, rfl, fun _ => rfl⟩
  · exact same_setOnRq true
  · exact Same.refl rq

theorem same_dequeueTask : Same rq (dequeueTask rq p) := by
  unfold dequeueTask
  split
  · exact ⟨rfl, rfl, rfl, fun _ => rfl⟩
  · exact ⟨rfl, rfl, rfl, fun _ => rfl⟩
  · exact ⟨rfl, rfl, rfl, fun _ => rfl⟩
  · exact same_setOnRq false
  · exact Same.refl rq

theorem same_checkClassChanged (c : Class) : Same rq (checkClassChanged rq p c) := by
  unfold checkClassChanged
  split
  · have hs : Same rq (rq.setState rq.curr .dead) := same_setState .dead
    exact ⟨hs.idle, hs.stop, hs.alive, hs.key⟩
  · exact Same.refl rq

theorem same_tryToWakeUp : Same rq (tryToWakeUp rq p) := by
  unfold tryToWakeUp
  split
  · exact Same.refl rq
  · split
    · exact same_setState .running
    · exact (same_enqueueTask.trans (same_setOnRq true)).trans (same_setState .running)

theorem same_deschedule (preempt signal : Bool) (wakeup : Option Tid) (group : List Tid) :
    Same rq (deschedule rq preempt signal wakeup group) := by
  have hprev : ∀ r : Rq, Same rq r →
      Same rq { (if (r.task rq.curr).schedClass = .fair then setThrottled r group true else r)
        with picking := true } := by
    intro r hr
    split
    · exact ⟨hr.idle, hr.stop, hr.alive, hr.key⟩
    · exact ⟨hr.idle, hr.stop, hr.alive, hr.key⟩
  apply hprev
  split
  · split
    · exact same_setState .running
    · have hoff : Same rq ((dequeueTask rq rq.curr).setOnRq rq.curr false) :=
        same_dequeueTask.trans (same_setOnRq false)
      cases wakeup with
      | none => exact hoff
      | some p => exact hoff.trans same_tryToWakeUp
  · exact Same.refl rq

structure Alters (p : Tid) (t : Task) (rq rq' : Rq) : Prop where
  idle : rq'.idle = rq.idle
  stop : rq'.stop = rq.stop
  alive : ∀ q, q ∈ rq'.alive ↔ q = p ∨ q ∈ rq.alive
  self : (rq'.task p).key = t.key
  other : ∀ q, q ≠ p → (rq'.task q).key = (rq.task q).key

theorem Alters.same {t : Task} (h : Alters p t rq rq') (hs : Same rq' rq'') : Alters p t rq rq'' where
  idle := hs.idle.trans h.idle
  stop := hs.stop.trans h.stop
  alive := fun q => by rw [hs.alive, h.alive]
  self := (hs.key p).trans h.self
  other := fun q hq => (hs.key q).trans (h.other q hq)

theorem alters_modify (hp : p ∈ rq.alive) {f : Task → Task} {t : Task}
    (h : (f (rq.task p)).key = t.key) : Alters p t rq (rq.modify p f) := by
  refine ⟨rfl, rfl, fun q => ⟨Or.inr, ?_⟩, ?_, fun q hq => ?_⟩
  · rintro (rfl | hq)
    · exact hp
    · exact hq
  · simpa [Rq.modify] using h
  · simp [Rq.modify, hq]

theorem alters_requeue (hp : p ∈ rq.alive) {f : Task → Task}
    (hf : ∀ t b, (f { t with onRq := b }).key = (f t).key) :
    Alters p (f (rq.task p)) rq (requeue rq p f) := by
  unfold requeue
  split
  · have hd : Same rq (dequeueTask rq p) := same_dequeueTask
    have ht : ∃ b, (dequeueTask rq p).task p = { rq.task p with onRq := b } := by
      unfold dequeueTask
      split
      · exact ⟨_, rfl⟩
      · exact ⟨_, rfl⟩
      · exact ⟨_, rfl⟩
      · exact ⟨false, by simp [Rq.setOnRq, Rq.modify]⟩
      · exact ⟨_, rfl⟩
    obtain ⟨b, hb⟩ := ht
    have hm : Alters p (f (rq.task p)) (dequeueTask rq p) ((dequeueTask rq p).modify p f) :=
      alters_modify (hd.alive ▸ hp) (by rw [hb, hf])
    have hall := hm.same (same_enqueueTask (p := p))
    exact ⟨hall.idle.trans hd.idle, hall.stop.trans hd.stop, fun q => by rw [hall.alive, hd.alive],
      hall.self, fun q hq => (hall.other q hq).trans (hd.key q)⟩
  · exact alters_modify hp rfl

def accepted (rq : Rq) (p : Tid) (policy : BitVec 32) (prio : ℤ) (permitted : Bool) :
    Option (Policy × Bool) :=
  let t := rq.task p
  let keep := policy.slt 0
  let reset := if keep then t.schedResetOnFork else policy &&& SCHED_RESET_ON_FORK != 0
  match if keep then some t.policy else Policy.ofInt (policy &&& ~~~SCHED_RESET_ON_FORK) with
  | none => none
  | some policy =>
    if paramsValid t policy prio && permitted && rq.stop != some p then
      if policy = t.policy ∧ (¬ rtPolicy policy ∨ prio = t.rtPriority) then none
      else some (policy, reset)
    else none

theorem schedSetscheduler_eq (rq : Rq) (p : Tid) (policy : BitVec 32) (prio : ℤ)
    (waiter : Option ℤ) (permitted : Bool) :
    schedSetscheduler rq p policy prio waiter permitted =
      match accepted rq p policy prio permitted with
      | none => rq
      | some (policy, reset) => checkClassChanged (requeue rq p fun t =>
          setscheduler policy prio waiter { t with schedResetOnFork := reset }) p
          (rq.task p).schedClass := by
  simp only [schedSetscheduler, accepted]
  generalize (if policy.slt 0 = true then some (rq.task p).policy
    else Policy.ofInt (policy &&& ~~~SCHED_RESET_ON_FORK)) = known
  cases known with
  | none => rfl
  | some policy =>
    dsimp only
    split_ifs <;> rfl

def rtMutexGetprio (waiter : Option ℤ) (normalPrio : ℤ) : ℤ :=
  match waiter with
  | none => normalPrio
  | some w => min w normalPrio

theorem setscheduler_key (policy : Policy) (prio : ℤ) (waiter : Option ℤ) (t : Task) :
    (setscheduler policy prio waiter t).key =
      let prio := rtMutexGetprio waiter
        (if rtPolicy policy then MAX_RT_PRIO - 1 - prio else t.staticPrio)
      (policy, prio, if policy = .mycfs then .mycfs else if rtPrio prio then .rt else .fair) := by
  cases policy <;> rfl

def renice (nice : ℤ) (t : Task) : Task :=
  let t := { t with staticPrio := niceToPrio nice }
  if rtPolicy t.policy then t
  else
    let t := { t with normalPrio := normalPrio t }
    { t with prio := if rtPrio t.prio then t.prio else t.normalPrio }

/-- The task that a step changes or creates, and what it is after that but for its place on the
runqueue. -/
def change (rq : Rq) : Act → Option (Tid × Task)
  | .fork child => some (child, schedFork (rq.task rq.curr))
  | .setscheduler p policy prio waiter permitted =>
    (accepted rq p policy prio permitted).map fun x =>
      (p, setscheduler x.1 prio waiter { rq.task p with schedResetOnFork := x.2 })
  | .setprio p prio =>
    if p = rq.idle then none
    else some (p, { rq.task p with schedClass := if rtPrio prio then .rt else .fair, prio := prio })
  | .nice p nice =>
    if niceToPrio nice = (rq.task p).staticPrio ∨ nice < -20 ∨ nice > 19 then none
    else some (p, renice nice (rq.task p))
  | .normalize p waiter => some (p, setscheduler .normal 0 waiter (rq.task p))
  | .wakeUpNew _ | .wake _ | .setState _ | .enqueue _ | .dequeue _ | .unthrottle _
  | .deschedule .. | .pick => none

theorem alters_setUserNice (hp : p ∈ rq.alive) {nice : ℤ}
    (hn : ¬ (niceToPrio nice = (rq.task p).staticPrio ∨ nice < -20 ∨ nice > 19)) :
    Alters p (renice nice (rq.task p)) rq (setUserNice rq p nice) := by
  simp only [setUserNice, if_neg hn]
  split
  · rename_i hrt
    exact alters_modify hp (by simp [renice, hrt])
  · rename_i hrt
    have ht := alters_requeue hp (f := fun t =>
      let t := { t with staticPrio := niceToPrio nice }
      let t := { t with normalPrio := normalPrio t }
      { t with prio := if rtPrio t.prio then t.prio else t.normalPrio }) fun _ _ => rfl
    simpa [renice, hrt] using ht

theorem perform_change (k : Picks) {a : Act} (he : enabled rq a = true) :
    match change rq a with
    | none => Same rq (perform k rq a)
    | some (p, t) => Alters p t rq (perform k rq a) := by
  have hmem : ∀ p, a.target = some p → p ∈ rq.alive := fun p hp => (target_of_enabled he hp).1
  cases a with
  | fork child =>
    refine ⟨rfl, rfl, fun q => List.mem_cons, by simp [perform], fun q hq => ?_⟩
    simp [perform, hq]
  | wakeUpNew p => exact same_enqueueTask.trans (same_setOnRq true)
  | wake p => exact same_tryToWakeUp
  | setState st => exact same_setState st
  | enqueue p => exact same_enqueueTask
  | dequeue p => exact same_dequeueTask
  | setscheduler p policy prio waiter permitted =>
    simp only [change, perform, schedSetscheduler_eq]
    cases accepted rq p policy prio permitted with
    | none => exact Same.refl rq
    | some x =>
      exact (alters_requeue (hmem p rfl) (f := fun t =>
        setscheduler x.1 prio waiter { t with schedResetOnFork := x.2 })
        fun t b => by simp only [setscheduler_key]).same (same_checkClassChanged _)
  | setprio p prio =>
    simp only [change, perform, rtMutexSetprio]
    by_cases hp : p = rq.idle
    · simp only [if_pos hp]
      exact Same.refl rq
    · simp only [if_neg hp]
      exact (alters_requeue (hmem p rfl) (f := fun t =>
        { t with schedClass := if rtPrio prio then .rt else .fair, prio := prio })
        fun _ _ => rfl).same (same_checkClassChanged _)
  | nice p nice =>
    simp only [change, perform]
    by_cases hn : niceToPrio nice = (rq.task p).staticPrio ∨ nice < -20 ∨ nice > 19
    · simp only [if_pos hn, setUserNice]
      exact Same.refl rq
    · simp only [if_neg hn]
      exact alters_setUserNice (hmem p rfl) hn
  | normalize p waiter =>
    exact (alters_requeue (hmem p rfl) (f := setscheduler .normal 0 waiter)
      fun _ _ => rfl).same (same_checkClassChanged _)
  | unthrottle group => exact ⟨rfl, rfl, rfl, fun _ => rfl⟩
  | deschedule preempt signal wakeup group => exact same_deschedule preempt signal wakeup group
  | pick => exact ⟨rfl, rfl, rfl, fun _ => rfl⟩

/-- A step keeps the classes in order exactly if the task that it changes is in order. -/
theorem classed_next {k : Picks} {a : Act} (hc : Classed rq) (h : next k rq a = some rq') :
    Classed rq' ↔ ∀ p t, change rq a = some (p, t) → p ≠ rq.idle → rq.stop ≠ some p →
      t.Follows := by
  obtain ⟨he, rfl⟩ := next_eq_some.mp h
  have hp := perform_change k he
  cases hch : change rq a with
  | none =>
    rw [hch] at hp
    refine ⟨fun _ p t ht => by simp at ht, fun _ q hq => ?_⟩
    rw [Rq.ordinary, hp.alive, hp.idle, hp.stop] at hq
    exact (hc q hq).congr (hp.key q)
  | some x =>
    obtain ⟨p, t⟩ := x
    rw [hch] at hp
    simp only [Option.some.injEq, Prod.mk.injEq]
    constructor
    · rintro hc' _ _ ⟨rfl, rfl⟩ hidle hstop
      refine (hc' p ⟨(hp.alive p).mpr (Or.inl rfl), ?_, ?_⟩).congr hp.self.symm
      · rwa [hp.idle]
      · rwa [hp.stop]
    · intro ht q hq
      rw [Rq.ordinary, hp.alive, hp.idle, hp.stop] at hq
      obtain ⟨hmem, hidle, hstop⟩ := hq
      by_cases hqp : q = p
      · subst hqp
        exact (ht q t ⟨rfl, rfl⟩ hidle hstop).congr hp.self
      · exact (hc q ⟨hmem.resolve_left hqp, hidle, hstop⟩).congr (hp.other q hqp)

/-- The step is about a task other than the idle and the stop task, or creates one and is made by
one. -/
def Ordinary (rq : Rq) : Act → Prop
  | .fork child => rq.ordinary rq.curr ∧ child ≠ rq.idle ∧ rq.stop ≠ some child
  | .setscheduler p .. | .setprio p _ | .nice p _ | .normalize p _ => rq.ordinary p
  | _ => True

/-- A task that is boosted to a real-time priority does not get the policy SCHED_MYCFS, a
SCHED_MYCFS task is not set to another priority, and it does not fork. Nor does a task fork that
has a real-time policy without a real-time priority. -/
def Conforms (rq : Rq) : Act → Prop
  | .setscheduler p policy prio waiter permitted =>
    ∀ reset, accepted rq p policy prio permitted = some (.mycfs, reset) →
      rtPrio (rtMutexGetprio waiter (rq.task p).staticPrio) = false
  | .setprio p prio => (rq.task p).policy = .mycfs → rtPrio prio = true
  | .fork _ =>
    if (rq.task rq.curr).schedResetOnFork = false ∧ rtPrio (rq.task rq.curr).normalPrio = true then
      rtPrio (rq.task rq.curr).prio = true
    else (rq.task rq.curr).policy ≠ .mycfs
  | _ => True

theorem follows_setscheduler (policy : Policy) (prio : ℤ) (waiter : Option ℤ) (t : Task) :
    (setscheduler policy prio waiter t).Follows ↔
      (policy = .mycfs → rtPrio (rtMutexGetprio waiter t.staticPrio) = false) := by
  have hk := setscheduler_key policy prio waiter t
  simp only [Task.key, Prod.mk.injEq] at hk
  obtain ⟨hpolicy, hprio, hclass⟩ := hk
  rw [Task.Follows, hpolicy, hprio, hclass]
  by_cases hm : policy = .mycfs
  · subst hm
    simp [rtPolicy]
  · simp [hm]

theorem rtPrio_niceToPrio {nice : ℤ} (h : ¬ nice < -20) : rtPrio (niceToPrio nice) = false := by
  apply decide_eq_false
  simp only [niceToPrio, MAX_RT_PRIO]
  omega

theorem follows_renice {nice : ℤ} (hn : ¬ nice < -20) {t : Task} (h : t.Follows) :
    (renice nice t).Follows := by
  by_cases hrt : rtPolicy t.policy = true
  · simp only [renice, hrt, if_true]
    exact h
  · have hnice := rtPrio_niceToPrio hn
    by_cases hp : rtPrio t.prio = true
    · simpa [renice, hrt, hp, Task.Follows] using h
    · simpa [renice, hrt, hp, hnice, normalPrio, Task.Follows] using h

theorem follows_schedFork {t : Task} (h : t.Follows) : (schedFork t).Follows ↔
    if t.schedResetOnFork = false ∧ rtPrio t.normalPrio = true then rtPrio t.prio = true
    else t.policy ≠ .mycfs := by
  have hzero : rtPrio (niceToPrio 0) = false := rtPrio_niceToPrio (by decide)
  cases hreset : t.schedResetOnFork with
  | false =>
    by_cases hn : rtPrio t.normalPrio = true
    · have hclass : t.schedClass = .rt ↔ rtPrio t.prio = true := by
        rw [h]
        split_ifs <;> simp_all
      simp [schedFork, hreset, hn, Task.Follows, hclass]
    · simp [schedFork, hreset, hn, Task.Follows]
  | true =>
    -- the static priority of a child that is reset is that of nice 0 or of a larger nice value
    by_cases hrt : rtPolicy t.policy = true
    · have hpolicy : t.policy ≠ .mycfs := fun he => by simp [he, rtPolicy] at hrt
      simp [schedFork, hreset, hrt, hzero, hpolicy, Task.Follows]
    · have hstatic : ¬ t.staticPrio < niceToPrio 0 → rtPrio t.staticPrio = false := by
        intro hs
        apply decide_eq_false
        simp only [niceToPrio, MAX_RT_PRIO] at hs ⊢
        omega
      by_cases hs : t.staticPrio < niceToPrio 0
      · simp [schedFork, hreset, hrt, hs, hzero, Task.Follows]
      · simp [schedFork, hreset, hrt, hs, hstatic hs, Task.Follows]

theorem changed_follows_iff {t : Task} (hidle : p ≠ rq.idle) (hstop : rq.stop ≠ some p) :
    (∀ q t', some (p, t) = some (q, t') → q ≠ rq.idle → rq.stop ≠ some q → t'.Follows) ↔
      t.Follows := by
  constructor
  · intro h
    exact h p t rfl hidle hstop
  · rintro h q t' heq - -
    obtain ⟨-, rfl⟩ := Prod.mk.inj (Option.some_inj.mp heq)
    exact h

theorem conforms_iff {a : Act} (hc : Classed rq) (ho : Ordinary rq a) :
    (∀ p t, change rq a = some (p, t) → p ≠ rq.idle → rq.stop ≠ some p → t.Follows) ↔
      Conforms rq a := by
  cases a with
  | fork child =>
    obtain ⟨hcurr, hidle, hstop⟩ := ho
    simp only [change, changed_follows_iff hidle hstop, follows_schedFork (hc _ hcurr)]
    exact Iff.rfl
  | setscheduler p policy prio waiter permitted =>
    simp only [change, Conforms]
    cases accepted rq p policy prio permitted with
    | none => simp
    | some x =>
      obtain ⟨known, reset⟩ := x
      simp only [Option.map_some, changed_follows_iff ho.2.1 ho.2.2, follows_setscheduler]
      simp
  | setprio p prio =>
    have ht : Task.Follows { rq.task p with
        schedClass := if rtPrio prio then .rt else .fair, prio := prio } ↔
        ((rq.task p).policy = .mycfs → rtPrio prio = true) := by
      unfold Task.Follows
      by_cases hr : rtPrio prio = true
      · simp [hr]
      · by_cases hm : (rq.task p).policy = .mycfs <;> simp [hr, hm]
    simp only [change, if_neg ho.2.1, changed_follows_iff ho.2.1 ho.2.2, ht]
    exact Iff.rfl
  | nice p nice =>
    simp only [change, Conforms, iff_true]
    split_ifs with hn
    · simp
    · rw [changed_follows_iff ho.2.1 ho.2.2]
      exact follows_renice (fun h => hn (Or.inr (Or.inl h))) (hc p ho)
  | normalize p waiter =>
    simp only [change, Conforms, iff_true]
    rw [changed_follows_iff ho.2.1 ho.2.2]
    exact (follows_setscheduler ..).mpr fun h => by cases h
  | wakeUpNew | wake | setState | enqueue | dequeue | unthrottle | deschedule | pick =>
    simp [change, Conforms]

/-- In a run over ordinary tasks every task is at all times in the class of its policy and
priority, if and only if every step conforms. -/
theorem class_follows_iff (k : Picks) (rq : Rq) (hc : Classed rq) (as : List Act) (rq' : Rq)
    (ho : Meets (next k) Ordinary as rq) (h : exec (next k) as rq = some rq') :
    (∀ pre post r, as = pre ++ post → exec (next k) pre rq = some r → Classed r) ↔
      Meets (next k) Conforms as rq := by
  refine prefixes_iff_meets (I := fun _ => True) (fun _ _ _ _ _ _ => trivial)
    (fun u a v _ _ hord hcu hv => ?_) trivial hc ho h
  rw [classed_next hcu hv, conforms_iff hcu hord]

instance (rq : Rq) (p : Tid) : Decidable (rq.ordinary p) :=
  inferInstanceAs (Decidable (p ∈ rq.alive ∧ p ≠ rq.idle ∧ rq.stop ≠ some p))

instance (rq : Rq) (a : Act) : Decidable (Ordinary rq a) := match a with
  | .fork child => inferInstanceAs (Decidable
    (rq.ordinary rq.curr ∧ child ≠ rq.idle ∧ rq.stop ≠ some child))
  | .setscheduler p .. | .setprio p _ | .nice p _ | .normalize p _ =>
    inferInstanceAs (Decidable (rq.ordinary p))
  | .wakeUpNew _ | .wake _ | .setState _ | .enqueue _ | .dequeue _ | .unthrottle _
  | .deschedule .. | .pick => inferInstanceAs (Decidable True)

instance (rq : Rq) (a : Act) : Decidable (Conforms rq a) := match a with
  | .setscheduler p policy prio waiter permitted => inferInstanceAs (Decidable
    (∀ reset, accepted rq p policy prio permitted = some (.mycfs, reset) →
      rtPrio (rtMutexGetprio waiter (rq.task p).staticPrio) = false))
  | .setprio p prio => inferInstanceAs (Decidable
    ((rq.task p).policy = .mycfs → rtPrio prio = true))
  | .fork _ => inferInstanceAs (Decidable
    (if (rq.task rq.curr).schedResetOnFork = false ∧ rtPrio (rq.task rq.curr).normalPrio = true
      then rtPrio (rq.task rq.curr).prio = true else (rq.task rq.curr).policy ≠ .mycfs))
  | .wakeUpNew _ | .wake _ | .setState _ | .enqueue _ | .dequeue _ | .nice .. | .normalize ..
  | .unthrottle _ | .deschedule .. | .pick => inferInstanceAs (Decidable True)

theorem classed_boot : Classed (boot 0 none [1, 2] fun _ => sleeper) := by
  rintro p ⟨-, hidle, -⟩
  have hp : p ≠ 0 := hidle
  simp [boot, hp, sleeper, Task.Follows, rtPrio, MAX_RT_PRIO]

def policies : List Act :=
  [.wake 1, .deschedule false false none [], .pick, .fork 3, .setscheduler 3 1 50 none true,
    .setprio 3 10, .nice 1 5, .setprio 3 49, .normalize 3 none]

theorem class_follows_policies : ∃ rq, exec (next heads) policies
    (boot 0 none [1, 2] fun _ => sleeper) = some rq ∧ 3 ∈ rq.alive ∧ Classed rq := by
  obtain ⟨rq, hrq, hv⟩ := Option.map_eq_some_iff.mp (show (exec (next heads) policies
    (boot 0 none [1, 2] fun _ => sleeper)).map (fun rq => decide (3 ∈ rq.alive)) = some true
    by decide)
  refine ⟨rq, hrq, of_decide_eq_true hv, ?_⟩
  exact (class_follows_iff heads _ classed_boot policies rq (by decide) hrq).mpr (by decide)
    policies [] rq (List.append_nil _).symm hrq

/-- Task 2 gets SCHED_MYCFS, is boosted, forks task 3, and loses the boost. Both end up in the
fair class. -/
theorem mycfs_class_lost : ∃ rq, exec (next heads)
    (toMycfs 2 ++ [.setprio 2 50, .deschedule false false none [], .pick, .fork 3, .setprio 2 120])
      (boot 0 none [1, 2] fun _ => sleeper) = some rq ∧
    Meets (next heads) Ordinary (toMycfs 2 ++
      [.setprio 2 50, .deschedule false false none [], .pick, .fork 3, .setprio 2 120])
      (boot 0 none [1, 2] fun _ => sleeper) ∧
    (rq.task 2).key = (.mycfs, 120, .fair) ∧ (rq.task 3).key = (.mycfs, 120, .fair) ∧
      ¬ Classed rq := by
  obtain ⟨rq, hrq, hv⟩ := Option.map_eq_some_iff.mp (show (exec (next heads)
    (toMycfs 2 ++ [.setprio 2 50, .deschedule false false none [], .pick, .fork 3, .setprio 2 120])
      (boot 0 none [1, 2] fun _ => sleeper)).map (fun rq => decide (
        (rq.task 2).key = (.mycfs, 120, .fair) ∧ (rq.task 3).key = (.mycfs, 120, .fair) ∧
          rq.ordinary 2)) = some true by decide)
  obtain ⟨h2, h3, hord⟩ := of_decide_eq_true hv
  refine ⟨rq, hrq, by decide, h2, h3, fun hc => ?_⟩
  have hf := hc 2 hord
  simp only [Task.key, Prod.mk.injEq] at h2
  simp [Task.Follows, h2, rtPrio, MAX_RT_PRIO] at hf

end AndroidKernel.Sched
