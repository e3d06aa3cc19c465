import AndroidKernel.Sched.Queued

/-! Runs in which a task is activated only where it is not queued and deactivated only where it is.
They keep the lists in order, whatever the classes of the tasks are. -/

namespace AndroidKernel.Sched
open Lts
variable {rq rq' : Rq} {p q : Tid} {k : Picks} {f : Task → Task} {a : Act}

/-- The mark of a task tells whether it is queued on this runqueue. It does not for a task that
has been moved to another CPU: the steps about that task are taken there. -/
def Rq.settled (rq : Rq) (p : Tid) : Prop := rq.queued p ↔ (rq.task p).onRq = true

/-- A task is activated where it is not queued and deactivated where it is, the other steps are about
tasks of this runqueue, and no group is throttled. -/
def Orderly (rq : Rq) : Act → Prop
  | .enqueue p | .wakeUpNew p => ¬ rq.queued p
  | .dequeue p => rq.queued p
  | .wake p | .setscheduler p .. | .setprio p _ | .nice p _ | .normalize p _ => rq.settled p
  | .deschedule preempt signal wakeup group =>
    (Sleeps rq preempt signal → rq.queued rq.curr) ∧ (∀ p, wakeup = some p → rq.settled p) ∧
      group = []
  | .fork _ | .setState _ | .unthrottle _ | .pick => True

theorem Tidy.not_mem_of_not_queued (h : Tidy rq) (hq : ¬ rq.queued p) (c : Class) :
    p ∉ rq.list c := by
  intro hp
  exact hq (h.queued_iff.mpr (Or.inl (mem_listed.mpr ⟨c, hp⟩)))

theorem Tidy.requeue (h : Tidy rq) (hp : p ∈ rq.alive) (hs : rq.settled p) (f : Task → Task) :
    Tidy (requeue rq p f) := by
  unfold Sched.requeue
  split
  · rename_i hon
    have hd : Tidy (Sched.dequeueTask rq p) := h.dequeueTask (hs.mpr hon)
    have hsame : Same rq (Sched.dequeueTask rq p) := same_dequeueTask
    have hoff : ∀ c, p ∉ (Sched.dequeueTask rq p).list c := fun c => h.not_mem_dequeueTask c
    have hm : Tidy ((Sched.dequeueTask rq p).modify p f) :=
      hd.modify fun c hc => absurd hc (hoff c)
    refine hm.enqueueTask ?_ fun c => ?_
    · rw [← hsame.alive] at hp
      exact hp
    · rw [list_modify]
      exact hoff c
  · rename_i hon
    have hq : ¬ rq.queued p := fun hq => hon (hs.mp hq)
    exact h.modify fun c hc => absurd hc (h.not_mem_of_not_queued hq c)

theorem Tidy.checkClassChanged (h : Tidy rq) (p : Tid) (c : Class) :
    Tidy (checkClassChanged rq p c) := by
  unfold Sched.checkClassChanged
  split
  · have hs := h.setState rq.curr .dead
    exact ⟨hs.alive, hs.schedClass, hs.nodup, hs.throttled, hs.nrRunning⟩
  · exact h

theorem Tidy.tryToWakeUp (h : Tidy rq) (hp : p ∈ rq.alive) (hs : rq.settled p) :
    Tidy (tryToWakeUp rq p) := by
  unfold Sched.tryToWakeUp
  split
  · exact h
  · split
    · exact h.setState p .running
    · rename_i hon
      have hq : ¬ rq.queued p := fun hq => hon (hs.mp hq)
      have he := h.enqueueTask hp (h.not_mem_of_not_queued hq)
      exact (he.setOnRq p true).setState p .running

theorem Tidy.fork (h : Tidy rq) {child : Tid} (hc : child ∉ rq.alive) (t : Task) :
    Tidy { rq with task := Function.update rq.task child t, alive := child :: rq.alive } where
  alive := fun c p hp => List.mem_cons_of_mem _ (h.alive c p hp)
  schedClass := fun c p hp => by
    have hne : p ≠ child := by
      rintro rfl
      exact hc (h.alive c p hp)
    have htask : Function.update rq.task child t p = rq.task p := Function.update_of_ne hne ..
    exact (congrArg Task.schedClass htask).trans (h.schedClass c p hp)
  nodup := h.nodup
  throttled := h.throttled
  nrRunning := h.nrRunning

theorem setThrottled_eq_self {group : List Tid} {b : Bool}
    (h : ∀ p, (if group.contains p then b else rq.throttled p) = rq.throttled p) :
    setThrottled rq group b = rq := by
  unfold setThrottled Rq.runnableFair
  simp only [h, sub_self, add_zero]

theorem Tidy.unthrottle (h : Tidy rq) (group : List Tid) : setThrottled rq group false = rq := by
  apply setThrottled_eq_self
  intro p
  split
  · exact (h.throttled p).symm
  · rfl

theorem deschedule_nil (rq : Rq) (preempt signal : Bool) (wakeup : Option Tid) :
    deschedule rq preempt signal wakeup [] =
      { deactivatePrev rq preempt signal wakeup with picking := true } := by
  have hnone : setThrottled (deactivatePrev rq preempt signal wakeup) [] true =
      deactivatePrev rq preempt signal wakeup := setThrottled_eq_self fun p => rfl
  rw [deschedule_eq, hnone, ite_self]

theorem dequeueTask_task_of_ne (rq : Rq) (h : q ≠ p) : (dequeueTask rq p).task q = rq.task q := by
  unfold dequeueTask
  split
  · rfl
  · rfl
  · rfl
  · exact modify_task_of_ne rq _ h
  · rfl

theorem mem_list_dequeueTask_of_ne (rq : Rq) (h : q ≠ p) (c : Class) :
    q ∈ (dequeueTask rq p).list c ↔ q ∈ rq.list c := by
  rw [list_dequeueTask]
  split
  · exact List.mem_erase_of_ne h
  · exact Iff.rfl

theorem settled_deactivate (h : Tidy rq) (hs : rq.settled q) :
    ((dequeueTask rq p).setOnRq p false).settled q := by
  by_cases hqp : q = p
  · subst hqp
    have hoff : (((dequeueTask rq q).setOnRq q false).task q).onRq = false := by
      unfold Rq.setOnRq
      rw [modify_task_self]
    refine iff_of_false ?_ (by rw [hoff]; exact Bool.false_ne_true)
    intro hq
    by_cases hm : (((dequeueTask rq q).setOnRq q false).task q).schedClass = .mycfs
    · rw [Rq.queued, hm, queuedIn_mycfs, hoff] at hq
      cases hq
    · rw [Rq.queued, queuedIn_of_ne hm, Rq.setOnRq, list_modify] at hq
      exact h.not_mem_dequeueTask _ hq
  · have htask : ((dequeueTask rq p).setOnRq p false).task q = rq.task q := by
      unfold Rq.setOnRq
      rw [modify_task_of_ne _ _ hqp, dequeueTask_task_of_ne rq hqp]
    unfold Rq.settled Rq.queued at hs ⊢
    rw [htask]
    by_cases hm : (rq.task q).schedClass = .mycfs
    · rw [hm, queuedIn_mycfs, htask]
    · rw [queuedIn_of_ne hm] at hs ⊢
      rw [Rq.setOnRq, list_modify, mem_list_dequeueTask_of_ne rq hqp]
      exact hs

theorem Tidy.deactivatePrev (h : Tidy rq) {preempt signal : Bool} {wakeup : Option Tid}
    (hw : ∀ p, wakeup = some p → p ∈ rq.alive ∧ rq.settled p)
    (hq : Sleeps rq preempt signal → rq.queued rq.curr) :
    Tidy (deactivatePrev rq preempt signal wakeup) := by
  by_cases hs : Sleeps rq preempt signal
  · have hoff : Tidy ((Sched.dequeueTask rq rq.curr).setOnRq rq.curr false) :=
      (h.dequeueTask (hq hs)).setOnRq rq.curr false
    have hsame : Same rq ((Sched.dequeueTask rq rq.curr).setOnRq rq.curr false) :=
      same_dequeueTask.trans (same_setOnRq false)
    rw [deactivatePrev_of_sleeps hs]
    cases wakeup with
    | none => exact hoff
    | some p =>
      obtain ⟨halive, hset⟩ := hw p rfl
      rw [← hsame.alive] at halive
      exact hoff.tryToWakeUp halive (settled_deactivate h hset)
  · rcases deactivatePrev_of_stays hs wakeup with he | he
    · rw [he]
      exact h
    · rw [he]
      exact h.setState rq.curr .running

theorem Tidy.next (h : Tidy rq) (ho : Orderly rq a) (hn : next k rq a = some rq') : Tidy rq' := by
  obtain ⟨he, rfl⟩ := next_eq_some.mp hn
  have hmem : ∀ p, a.target = some p → p ∈ rq.alive := fun p hp => (target_of_enabled he hp).1
  cases a with
  | fork child => exact h.fork (child_of_enabled he) _
  | wakeUpNew p =>
    exact (h.enqueueTask (hmem p rfl) (h.not_mem_of_not_queued ho)).setOnRq p true
  | wake p => exact h.tryToWakeUp (hmem p rfl) ho
  | setState st => exact h.setState rq.curr st
  | enqueue p => exact h.enqueueTask (hmem p rfl) (h.not_mem_of_not_queued ho)
  | dequeue p => exact h.dequeueTask ho
  | setscheduler p policy prio waiter permitted =>
    simp only [perform, schedSetscheduler_eq]
    split
    · exact h
    · exact (h.requeue (hmem p rfl) ho _).checkClassChanged p _
  | setprio p prio =>
    simp only [perform, rtMutexSetprio]
    split
    · exact h
    · exact (h.requeue (hmem p rfl) ho _).checkClassChanged p _
  | nice p nice =>
    simp only [perform, setUserNice]
    split
    · exact h
    · split
      · exact h.modify fun c hc => h.schedClass c p hc
      · exact h.requeue (hmem p rfl) ho _
  | normalize p waiter => exact (h.requeue (hmem p rfl) ho _).checkClassChanged p _
  | unthrottle group =>
    simp only [perform, h.unthrottle]
    exact h
  | deschedule preempt signal wakeup group =>
    obtain ⟨hq, hw, rfl⟩ := ho
    have hd : Tidy (Sched.deactivatePrev rq preempt signal wakeup) :=
      h.deactivatePrev (fun p hp => ⟨hmem p hp, hw p hp⟩) hq
    simp only [perform, deschedule_nil]
    exact ⟨hd.alive, hd.schedClass, hd.nodup, hd.throttled, hd.nrRunning⟩
  | pick => exact ⟨h.alive, h.schedClass, h.nodup, h.throttled, h.nrRunning⟩

end AndroidKernel.Sched
