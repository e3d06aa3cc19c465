import AndroidKernel.Sched.Runqueue

/-! Whether a queued MYCFS task gets the CPU when no other class has one. The class remembers its
tasks only through `rq->curr`, so the answer is in that field alone. -/

namespace AndroidKernel.Sched
open Lts
variable {rq rq' rq'' : Rq} {p q : Tid} {P : Tid → Prop}

structure Keeps (P : Tid → Prop) (rq rq' : Rq) : Prop where
  idle : rq'.idle = rq.idle
  alive : ∀ q ∈ rq.alive, q ∈ rq'.alive
  schedClass : ∀ q, ¬ P q → (rq'.task q).schedClass = (rq.task q).schedClass

theorem Keeps.refl (P : Tid → Prop) (rq : Rq) : Keeps P rq rq :=
  ⟨rfl, fun _ h => h, fun _ _ => rfl⟩

theorem Keeps.trans (h : Keeps P rq rq') (h' : Keeps P rq' rq'') : Keeps P rq rq'' where
  idle := h'.idle.trans h.idle
  alive := fun q hq => h'.alive q (h.alive q hq)
  schedClass := fun q hq => (h'.schedClass q hq).trans (h.schedClass q hq)

theorem keeps_modify {f : Task → Task} (h : ¬ P p → (f (rq.task p)).schedClass =
    (rq.task p).schedClass) : Keeps P rq (rq.modify p f) where
  idle := rfl
  alive := fun _ hq => hq
  schedClass := fun q hq => by
    unfold Rq.modify
    by_cases hqp : q = p
    · subst hqp
      simpa using h hq
    · simp [hqp]

theorem keeps_setOnRq (b : Bool) : Keeps P rq (rq.setOnRq p b) := keeps_modify fun _ => rfl

theorem keeps_setState (st : TaskState) : Keeps P rq (rq.setState p st) := keeps_modify fun _ => rfl

theorem keeps_enqueueTask : Keeps P rq (enqueueTask rq p) := by
  unfold enqueueTask
  split
  · exact ⟨rfl, fun _ h => h, fun _ _ => rfl⟩
  · exact ⟨rfl, fun _ h => h, fun _ _ => rfl⟩
  · exact ⟨rfl, fun _ h => h, fun _ _ => rfl⟩
  · exact keeps_setOnRq true
  · exact Keeps.refl P rq

theorem keeps_dequeueTask : Keeps P rq (dequeueTask rq p) := by
  unfold dequeueTask
  split
  · exact ⟨rfl, fun _ h => h, fun _ _ => rfl⟩
  · exact ⟨rfl, fun _ h => h, fun _ _ => rfl⟩
  · exact ⟨rfl, fun _ h => h, fun _ _ => rfl⟩
  · exact keeps_setOnRq false
  · exact Keeps.refl P rq

theorem keeps_requeue (hp : P p) (f : Task → Task) : Keeps P rq (requeue rq p f) := by
  unfold requeue
  split
  · exact (keeps_dequeueTask.trans (keeps_modify fun h => absurd hp h)).trans keeps_enqueueTask
  · exact keeps_modify fun h => absurd hp h

theorem keeps_checkClassChanged (c : Class) : Keeps P rq (checkClassChanged rq p c) := by
  unfold checkClassChanged
  split
  · have hs : Keeps P rq (rq.setState rq.curr .dead) := keeps_setState .dead
    exact ⟨hs.idle, hs.alive, hs.schedClass⟩
  · exact Keeps.refl P rq

theorem keeps_tryToWakeUp : Keeps P rq (tryToWakeUp rq p) := by
  unfold tryToWakeUp
  split
  · exact Keeps.refl P rq
  · split
    · exact keeps_setState .running
    · exact (keeps_enqueueTask.trans (keeps_setOnRq true)).trans (keeps_setState .running)

theorem keeps_schedSetscheduler (hp : P p) (policy : BitVec 32) (prio : ℤ) (waiter : Option ℤ)
    (permitted : Bool) : Keeps P rq (schedSetscheduler rq p policy prio waiter permitted) := by
  simp only [schedSetscheduler]
  split
  · exact Keeps.refl P rq
  · split
    · split
      · exact Keeps.refl P rq
      · exact (keeps_requeue hp _).trans (keeps_checkClassChanged _)
    · exact Keeps.refl P rq

theorem keeps_setUserNice (hp : P p) (nice : ℤ) : Keeps P rq (setUserNice rq p nice) := by
  simp only [setUserNice]
  split
  · exact Keeps.refl P rq
  · split
    · exact keeps_modify fun _ => rfl
    · exact keeps_requeue hp _

theorem keeps_deschedule (preempt signal : Bool) (wakeup : Option Tid) (group : List Tid) :
    Keeps P rq (deschedule rq preempt signal wakeup group) := by
  -- the two halves: what happens to the previous task, and what its class throttles
  have hprev : ∀ r : Rq, Keeps P rq r →
      Keeps P rq { (if (r.task rq.curr).schedClass = .fair then setThrottled r group true else r)
        with picking := true } := by
    intro r hr
    split
    · exact ⟨hr.idle, hr.alive, hr.schedClass⟩
    · exact ⟨hr.idle, hr.alive, hr.schedClass⟩
  apply hprev
  split
  · split
    · exact keeps_setState .running
    · have hoff : Keeps P rq ((dequeueTask rq rq.curr).setOnRq rq.curr false) :=
        keeps_dequeueTask.trans (keeps_setOnRq false)
      cases wakeup with
      | none => exact hoff
      | some p => exact hoff.trans keeps_tryToWakeUp
  · exact Keeps.refl P rq

theorem keeps_perform (k : Picks) {a : Act} (ht : ∀ p, a.target = some p → P p)
    (hf : ∀ child, a = .fork child → P child) : Keeps P rq (perform k rq a) := by
  cases a with
  | fork child =>
    refine ⟨rfl, fun q hq => List.mem_cons_of_mem _ hq, fun q hq => ?_⟩
    have hne : q ≠ child := fun h => hq (h ▸ hf child rfl)
    simp [perform, hne]
  | wakeUpNew p => exact keeps_enqueueTask.trans (keeps_setOnRq true)
  | wake p => exact keeps_tryToWakeUp
  | setState st => exact keeps_setState st
  | enqueue p => exact keeps_enqueueTask
  | dequeue p => exact keeps_dequeueTask
  | setscheduler p policy prio waiter permitted =>
    exact keeps_schedSetscheduler (ht p rfl) policy prio waiter permitted
  | setprio p prio =>
    simp only [perform, rtMutexSetprio]
    split
    · exact Keeps.refl P rq
    · exact (keeps_requeue (ht p rfl) _).trans (keeps_checkClassChanged _)
  | nice p nice => exact keeps_setUserNice (ht p rfl) nice
  | normalize p waiter => exact (keeps_requeue (ht p rfl) _).trans (keeps_checkClassChanged _)
  | unthrottle group => exact ⟨rfl, fun _ h => h, fun _ _ => rfl⟩
  | deschedule preempt signal wakeup group => exact keeps_deschedule preempt signal wakeup group
  | pick => exact ⟨rfl, fun _ h => h, fun _ _ => rfl⟩

def IdleOk (rq : Rq) : Prop := rq.idle ∈ rq.alive ∧ (rq.task rq.idle).schedClass = .idle

theorem IdleOk.next {k : Picks} {a : Act} (hi : IdleOk rq) (h : next k rq a = some rq') :
    IdleOk rq' := by
  obtain ⟨he, rfl⟩ := next_eq_some.mp h
  have hk : Keeps (fun q => q ≠ rq.idle) rq (perform k rq a) := by
    apply keeps_perform
    · intro p hp
      exact (target_of_enabled he hp).2
    · rintro child rfl heq
      exact child_of_enabled he (heq ▸ hi.1)
  refine ⟨?_, ?_⟩
  · rw [hk.idle]
    exact hk.alive _ hi.1
  · rw [hk.idle, hk.schedClass _ fun h => h rfl]
    exact hi.2

theorem idleOk_boot (idle : Tid) (stop : Option Tid) (alive : List Tid) (task : Tid → Task) :
    IdleOk (boot idle stop alive task) := by
  unfold IdleOk
  simp [boot]

theorem pickNextTask_of_quiet (k : Picks) (hs : rq.stopTasks = []) (hr : rq.rtTasks = [])
    (hf : rq.runnableFair = []) :
    pickNextTask k rq = if (rq.task rq.curr).onRq then rq.curr else rq.idle := by
  have hloop : forEachClass k rq = if (rq.task rq.curr).onRq then rq.curr else rq.idle := by
    unfold forEachClass classes
    simp only [List.findSome?_cons, Picks.hook, k.stop_nil rq hs, k.rt_nil rq hr,
      k.fair_nil rq hf, pickNextTaskMycfs]
    by_cases hq : (rq.task rq.curr).onRq = true
    · simp [hq]
    · simp [hq]
  unfold pickNextTask
  rw [k.fair_nil rq hf, hloop]
  simp

def Rq.queuedMycfs (rq : Rq) (p : Tid) : Prop :=
  (rq.task p).schedClass = .mycfs ∧ (rq.task p).onRq = true

/-- A MYCFS task is queued and no task of another class can run. -/
structure OnlyMycfs (rq : Rq) : Prop where
  queued : ∃ p ∈ rq.alive, rq.queuedMycfs p
  stop : rq.stopTasks = []
  rt : rq.rtTasks = []
  fair : rq.runnableFair = []

/-- In every reachable state in which only MYCFS tasks can run, `pick_next_task` returns one of
them exactly if the task in `rq->curr` is one. -/
theorem pick_mycfs_iff_curr (k : Picks) (idle : Tid) (stop : Option Tid) (alive : List Tid)
    (task : Tid → Task) (as : List Act) (rq : Rq)
    (h : exec (next k) as (boot idle stop alive task) = some rq) (ho : OnlyMycfs rq) :
    (rq.queuedMycfs (pickNextTask k rq) ∧ pickNextTask k rq ≠ rq.idle) ↔
      rq.queuedMycfs rq.curr := by
  have hi : IdleOk rq := exec_invariant (fun _ _ _ hs hn => hs.next hn)
    (idleOk_boot idle stop alive task) h
  have hne : ∀ p, rq.queuedMycfs p → p ≠ rq.idle := by
    rintro p hp rfl
    have hc := hp.1
    rw [hi.2] at hc
    cases hc
  rw [pickNextTask_of_quiet k ho.stop ho.rt ho.fair]
  constructor
  · rintro ⟨hq, hn⟩
    split at hq
    · exact hq
    · rename_i hoff
      simp [hoff] at hn
  · intro hq
    rw [if_pos hq.2]
    exact ⟨hq, hne _ hq⟩

def heads : Picks where
  stop := fun rq => rq.stopTasks.head?
  rt := fun rq => rq.rtTasks.head?
  fair := fun rq => rq.runnableFair.head?
  stop_nil := fun _ h => by rw [h]; rfl
  rt_nil := fun _ h => by rw [h]; rfl
  fair_nil := fun _ h => by rw [h]; rfl

def sleeper : Task where
  policy := .normal
  rtPriority := 0
  staticPrio := 120
  normalPrio := 120
  prio := 120
  schedClass := .fair
  onRq := false
  state := .interruptible
  schedResetOnFork := false
  mm := true

def toMycfs (p : Tid) : List Act :=
  [.wake 1, .deschedule false false none [], .pick, .wake 2, .setscheduler p 6 0 none true]

/-- A task that changes its own policy is still the one in `rq->curr`. -/
theorem pick_mycfs_self : ∃ rq, exec (next heads)
    (toMycfs 1 ++ [.dequeue 2]) (boot 0 none [1, 2] fun _ => sleeper) = some rq ∧
    rq.queuedMycfs (pickNextTask heads rq) ∧ pickNextTask heads rq ≠ rq.idle := by
  obtain ⟨rq, hrq, hp⟩ := Option.map_eq_some_iff.mp
    (show (exec (next heads) (toMycfs 1 ++ [.dequeue 2])
      (boot 0 none [1, 2] fun _ => sleeper)).map (fun rq => decide (1 ∈ rq.alive ∧ rq.curr = 1 ∧
        (rq.task 1).schedClass = .mycfs ∧ (rq.task 1).onRq = true ∧ rq.stopTasks = [] ∧
        rq.rtTasks = [] ∧ rq.runnableFair = [])) = some true by decide)
  obtain ⟨halive, hcurr, hclass, hon, hstop, hrt, hfair⟩ := of_decide_eq_true hp
  have hq : rq.queuedMycfs 1 := ⟨hclass, hon⟩
  have ho : OnlyMycfs rq := ⟨⟨1, halive, hq⟩, hstop, hrt, hfair⟩
  refine ⟨rq, hrq, ?_⟩
  apply (pick_mycfs_iff_curr heads 0 none [1, 2] _ _ rq hrq ho).mpr
  rw [hcurr]
  exact hq

/-- Task 2 is moved to MYCFS by task 1, which does not survive the call. Then task 2 is queued,
nothing else can run, and the idle task is picked. -/
theorem mycfs_passed_over : ∃ rq, exec (next heads)
    (toMycfs 2 ++ [.deschedule false false none []]) (boot 0 none [1, 2] fun _ => sleeper) =
      some rq ∧ OnlyMycfs rq ∧ pickNextTask heads rq = rq.idle := by
  obtain ⟨rq, hrq, hp⟩ := Option.map_eq_some_iff.mp
    (show (exec (next heads) (toMycfs 2 ++ [.deschedule false false none []])
      (boot 0 none [1, 2] fun _ => sleeper)).map (fun rq => decide (2 ∈ rq.alive ∧
        (rq.task 2).schedClass = .mycfs ∧ (rq.task 2).onRq = true ∧ rq.stopTasks = [] ∧
        rq.rtTasks = [] ∧ rq.runnableFair = [] ∧ pickNextTask heads rq = rq.idle)) =
        some true by decide)
  obtain ⟨halive, hclass, hon, hstop, hrt, hfair, hpick⟩ := of_decide_eq_true hp
  exact ⟨rq, hrq, ⟨⟨2, halive, hclass, hon⟩, hstop, hrt, hfair⟩, hpick⟩

end AndroidKernel.Sched
