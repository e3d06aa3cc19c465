import AndroidKernel.Sched.Orderly

/-! The steps by which a task comes to be queued in MYCFS, where nobody counts it. -/

namespace AndroidKernel.Sched
open Lts
variable {rq rq' : Rq} {p q : Tid} {k : Picks} {f : Task → Task} {a : Act}

def WakesMycfs (rq : Rq) (p : Tid) : Prop :=
  (rq.task p).schedClass = .mycfs ∧ (rq.task p).state ≠ .running ∧ (rq.task p).state ≠ .dead

/-- The step queues a task in MYCFS: it enqueues or wakes up a task of the class, or gives
SCHED_MYCFS to a queued task. -/
def EntersMycfs (rq : Rq) : Act → Prop
  | .enqueue p | .wakeUpNew p => (rq.task p).schedClass = .mycfs
  | .wake p => WakesMycfs rq p
  | .setscheduler p policy prio _ permitted => (rq.task p).onRq = true ∧
    ∃ reset, accepted rq p policy prio permitted = some (.mycfs, reset)
  | .deschedule preempt signal wakeup _ => Sleeps rq preempt signal ∧
    ∃ p, wakeup = some p ∧ WakesMycfs rq p
  | _ => False

theorem NoMycfs.iff_not_queued (h : NoMycfs rq) (hp : p ∈ rq.alive) (ha : rq'.alive = rq.alive)
    (ho : ∀ q, q ≠ p → rq'.task q = rq.task q) : NoMycfs rq' ↔ ¬ rq'.queuedMycfs p := by
  constructor
  · intro hno
    rw [← ha] at hp
    exact hno p hp
  · intro hno q hq
    by_cases hqp : q = p
    · rw [hqp]
      exact hno
    · rw [ha] at hq
      rw [Rq.queuedMycfs, ho q hqp]
      exact h q hq

theorem SamePlace.queuedMycfs_iff (h : SamePlace p rq rq') :
    rq'.queuedMycfs p ↔ rq.queuedMycfs p := by
  rw [Rq.queuedMycfs, Rq.queuedMycfs, h.onRq, h.schedClass]

theorem noMycfs_congr (h : ∀ q, SamePlace q rq rq') (ha : rq'.alive = rq.alive) :
    NoMycfs rq' ↔ NoMycfs rq := by
  unfold NoMycfs
  rw [ha]
  exact forall₂_congr fun q _ => not_congr (h q).queuedMycfs_iff

theorem noMycfs_setState (p : Tid) (st : TaskState) : NoMycfs (rq.setState p st) ↔ NoMycfs rq :=
  noMycfs_congr (fun _ => samePlace_modify p rfl rfl) rfl

theorem noMycfs_checkClassChanged (p : Tid) (c : Class) :
    NoMycfs (checkClassChanged rq p c) ↔ NoMycfs rq := by
  have hs : Same rq (checkClassChanged rq p c) := same_checkClassChanged c
  exact noMycfs_congr (fun _ => samePlace_checkClassChanged p c) hs.alive

theorem noMycfs_enqueueTask (h : NoMycfs rq) (hp : p ∈ rq.alive) :
    NoMycfs (enqueueTask rq p) ↔ (rq.task p).schedClass ≠ .mycfs := by
  have hs : Same rq (enqueueTask rq p) := same_enqueueTask
  rw [h.iff_not_queued hp hs.alive fun q hq => enqueueTask_task_of_ne rq hq, Rq.queuedMycfs,
    hs.schedClass, task_enqueueTask]
  by_cases hm : (rq.task p).schedClass = .mycfs
  · simp [hm]
  · simp [hm]

theorem noMycfs_activate (h : NoMycfs rq) (hp : p ∈ rq.alive) :
    NoMycfs ((enqueueTask rq p).setOnRq p true) ↔ (rq.task p).schedClass ≠ .mycfs := by
  have hs : Same rq ((enqueueTask rq p).setOnRq p true) := same_enqueueTask.trans (same_setOnRq true)
  have ho : ∀ q, q ≠ p → ((enqueueTask rq p).setOnRq p true).task q = rq.task q := by
    intro q hq
    unfold Rq.setOnRq
    rw [modify_task_of_ne _ _ hq, enqueueTask_task_of_ne rq hq]
  have hon : (((enqueueTask rq p).setOnRq p true).task p).onRq = true := by
    unfold Rq.setOnRq
    rw [modify_task_self]
  rw [h.iff_not_queued hp hs.alive ho, Rq.queuedMycfs, hs.schedClass, hon]
  simp

theorem noMycfs_tryToWakeUp (h : NoMycfs rq) (hp : p ∈ rq.alive) :
    NoMycfs (tryToWakeUp rq p) ↔ ¬ WakesMycfs rq p := by
  unfold tryToWakeUp WakesMycfs
  split
  · rename_i hst
    exact iff_of_true h fun hw => hst.elim hw.2.1 hw.2.2
  · rename_i hst
    rw [not_or] at hst
    split
    · rename_i hon
      rw [noMycfs_setState]
      exact iff_of_true h fun hw => h p hp ⟨hw.1, hon⟩
    · unfold activate
      rw [noMycfs_setState, noMycfs_activate h hp]
      simp [hst]

theorem task_deactivate (rq : Rq) (p q : Tid) : ∃ b, (b = true → (rq.task q).onRq = true) ∧
    ((dequeueTask rq p).setOnRq p false).task q = { rq.task q with onRq := b } := by
  unfold Rq.setOnRq
  by_cases hqp : q = p
  · subst hqp
    refine ⟨false, (fun h => by cases h), ?_⟩
    rw [modify_task_self, task_dequeueTask]
    split
    · rfl
    · rfl
  · refine ⟨(rq.task q).onRq, fun h => h, ?_⟩
    rw [modify_task_of_ne _ _ hqp, dequeueTask_task_of_ne rq hqp]

theorem NoMycfs.dequeueTask (h : NoMycfs rq) (p : Tid) : NoMycfs (dequeueTask rq p) := by
  have hs : Same rq (Sched.dequeueTask rq p) := same_dequeueTask
  intro q hq
  rw [hs.alive] at hq
  by_cases hqp : q = p
  · subst hqp
    rw [Rq.queuedMycfs, hs.schedClass, task_dequeueTask]
    rintro ⟨hm, hon⟩
    rw [if_pos hm] at hon
    cases hon
  · rw [Rq.queuedMycfs, dequeueTask_task_of_ne rq hqp]
    exact h q hq

theorem NoMycfs.deactivate (h : NoMycfs rq) (p : Tid) :
    NoMycfs ((Sched.dequeueTask rq p).setOnRq p false) := by
  have hs : Same rq ((Sched.dequeueTask rq p).setOnRq p false) :=
    same_dequeueTask.trans (same_setOnRq false)
  intro q hq
  obtain ⟨b, hb, htask⟩ := task_deactivate rq p q
  rw [hs.alive] at hq
  rw [Rq.queuedMycfs, htask]
  rintro ⟨hm, hon⟩
  exact h q hq ⟨hm, hb hon⟩

theorem noMycfs_deactivatePrev (h : NoMycfs rq) {preempt signal : Bool} {wakeup : Option Tid}
    (hw : ∀ p, wakeup = some p → p ∈ rq.alive) :
    NoMycfs (deactivatePrev rq preempt signal wakeup) ↔
      ¬ (Sleeps rq preempt signal ∧ ∃ p, wakeup = some p ∧ WakesMycfs rq p) := by
  by_cases hs : Sleeps rq preempt signal
  · have hoff := h.deactivate rq.curr
    have hsame : Same rq ((dequeueTask rq rq.curr).setOnRq rq.curr false) :=
      same_dequeueTask.trans (same_setOnRq false)
    rw [deactivatePrev_of_sleeps hs]
    cases wakeup with
    | none => exact iff_of_true hoff fun ⟨_, _, hp, _⟩ => by cases hp
    | some p =>
      have halive := hw p rfl
      rw [← hsame.alive] at halive
      obtain ⟨b, -, htask⟩ := task_deactivate rq rq.curr p
      rw [noMycfs_tryToWakeUp hoff halive]
      unfold WakesMycfs
      rw [htask]
      simp [hs]
  · have hno : NoMycfs (deactivatePrev rq preempt signal wakeup) := by
      rcases deactivatePrev_of_stays hs wakeup with he | he
      · rw [he]
        exact h
      · rw [he, noMycfs_setState]
        exact h
    exact iff_of_true hno fun hx => hs hx.1

theorem noMycfs_deschedule (rq : Rq) (preempt signal : Bool) (wakeup : Option Tid)
    (group : List Tid) : NoMycfs (deschedule rq preempt signal wakeup group) ↔
      NoMycfs (deactivatePrev rq preempt signal wakeup) := by
  rw [deschedule_eq]
  split
  · exact Iff.rfl
  · exact Iff.rfl

theorem requeue_task_of_ne (rq : Rq) (f : Task → Task) (h : q ≠ p) :
    (requeue rq p f).task q = rq.task q := by
  unfold requeue
  split
  · rw [enqueueTask_task_of_ne _ h, modify_task_of_ne _ _ h, dequeueTask_task_of_ne rq h]
  · exact modify_task_of_ne rq f h

theorem alive_requeue (rq : Rq) (p : Tid) (f : Task → Task) : (requeue rq p f).alive = rq.alive := by
  have hd : Same rq (dequeueTask rq p) := same_dequeueTask
  unfold requeue
  split
  · have he : Same ((dequeueTask rq p).modify p f) (enqueueTask ((dequeueTask rq p).modify p f) p) :=
      same_enqueueTask
    exact he.alive.trans hd.alive
  · rfl

theorem noMycfs_requeue (h : NoMycfs rq) (hp : p ∈ rq.alive) (hf : Reclasses f) :
    NoMycfs (requeue rq p f) ↔
      ¬ ((rq.task p).onRq = true ∧ (f (rq.task p)).schedClass = .mycfs) := by
  rw [h.iff_not_queued hp (alive_requeue rq p f) fun q hq => requeue_task_of_ne rq f hq,
    Rq.queuedMycfs]
  cases hon : (rq.task p).onRq with
  | false =>
    have hreq : requeue rq p f = rq.modify p f := if_neg (by rw [hon]; exact Bool.false_ne_true)
    rw [hreq, modify_task_self, hf.onRq, hon]
    simp
  | true =>
    obtain ⟨hclass, hmark⟩ := requeue_task hf hon
    rw [hclass, hmark]
    by_cases hm : (f (rq.task p)).schedClass = .mycfs
    · simp [hm]
    · simp [hm]

theorem noMycfs_schedSetscheduler (h : NoMycfs rq) (hp : p ∈ rq.alive) (policy : BitVec 32)
    (prio : ℤ) (waiter : Option ℤ) (permitted : Bool) :
    NoMycfs (schedSetscheduler rq p policy prio waiter permitted) ↔
      ¬ EntersMycfs rq (.setscheduler p policy prio waiter permitted) := by
  rw [schedSetscheduler_eq]
  unfold EntersMycfs
  cases ha : accepted rq p policy prio permitted with
  | none =>
    refine iff_of_true h ?_
    rintro ⟨-, reset, hx⟩
    rw [ha] at hx
    cases hx
  | some x =>
    obtain ⟨known, reset⟩ := x
    dsimp only
    rw [noMycfs_checkClassChanged,
      noMycfs_requeue h hp (reclasses_setscheduler_reset known prio waiter reset),
      setscheduler_mycfs, ha]
    simp

theorem NoMycfs.rtMutexSetprio (h : NoMycfs rq) (hp : p ∈ rq.alive) (prio : ℤ) :
    NoMycfs (rtMutexSetprio rq p prio) := by
  unfold Sched.rtMutexSetprio
  split
  · exact h
  · apply (noMycfs_checkClassChanged ..).mpr
    apply (noMycfs_requeue h hp ?_).mpr
    · rintro ⟨-, hm⟩
      simp only at hm
      split at hm <;> cases hm
    · exact ⟨fun _ => rfl, fun _ _ => rfl⟩

theorem NoMycfs.setUserNice (h : NoMycfs rq) (hp : p ∈ rq.alive) (nice : ℤ) :
    NoMycfs (setUserNice rq p nice) := by
  unfold Sched.setUserNice
  dsimp only
  split
  · exact h
  · split
    · have hs : ∀ q, SamePlace q rq (rq.modify p fun t => { t with staticPrio := niceToPrio nice }) :=
        fun q => samePlace_modify p rfl rfl
      exact (noMycfs_congr hs rfl).mpr h
    · apply (noMycfs_requeue h hp ?_).mpr
      · rintro ⟨hon, hm⟩
        exact h p hp ⟨hm, hon⟩
      · exact ⟨fun _ => rfl, fun _ _ => rfl⟩

theorem NoMycfs.normalizeTask (h : NoMycfs rq) (hp : p ∈ rq.alive) (waiter : Option ℤ) :
    NoMycfs (normalizeTask rq p waiter) := by
  apply (noMycfs_checkClassChanged ..).mpr
  apply (noMycfs_requeue h hp (reclasses_setscheduler .normal 0 waiter)).mpr
  rintro ⟨-, hm⟩
  cases setscheduler_mycfs.mp hm

theorem NoMycfs.fork (h : NoMycfs rq) (child : Tid) :
    NoMycfs (perform k rq (.fork child)) := by
  intro q hq
  by_cases hqc : q = child
  · subst hqc
    rintro ⟨-, hon⟩
    simp only [perform, Function.update_self] at hon
    have hoff : (schedFork (rq.task rq.curr)).onRq = false := by
      unfold schedFork
      dsimp only
      split_ifs <;> rfl
    rw [hoff] at hon
    cases hon
  · have htask : (perform k rq (.fork child)).task q = rq.task q := Function.update_of_ne hqc ..
    rw [Rq.queuedMycfs, htask]
    exact h q ((List.mem_cons.mp hq).resolve_left hqc)

/-- Where no MYCFS task is queued, a step queues one exactly if it puts one there. -/
theorem noMycfs_next (h : NoMycfs rq) (hn : next k rq a = some rq') :
    NoMycfs rq' ↔ ¬ EntersMycfs rq a := by
  obtain ⟨he, rfl⟩ := next_eq_some.mp hn
  have hmem : ∀ p, a.target = some p → p ∈ rq.alive := fun p hp => (target_of_enabled he hp).1
  cases a with
  | fork child => exact iff_of_true (h.fork child) fun hx => hx
  | wakeUpNew p => exact noMycfs_activate h (hmem p rfl)
  | wake p => exact noMycfs_tryToWakeUp h (hmem p rfl)
  | setState st => exact iff_of_true ((noMycfs_setState _ st).mpr h) fun hx => hx
  | enqueue p => exact noMycfs_enqueueTask h (hmem p rfl)
  | dequeue p => exact iff_of_true (h.dequeueTask p) fun hx => hx
  | setscheduler p policy prio waiter permitted =>
    exact noMycfs_schedSetscheduler h (hmem p rfl) policy prio waiter permitted
  | setprio p prio => exact iff_of_true (h.rtMutexSetprio (hmem p rfl) prio) fun hx => hx
  | nice p nice => exact iff_of_true (h.setUserNice (hmem p rfl) nice) fun hx => hx
  | normalize p waiter =>
    exact iff_of_true (h.normalizeTask (hmem p rfl) waiter) fun hx => hx
  | unthrottle group => exact iff_of_true h fun hx => hx
  | deschedule preempt signal wakeup group =>
    simp only [perform, noMycfs_deschedule]
    exact noMycfs_deactivatePrev h hmem
  | pick => exact iff_of_true h fun hx => hx

end AndroidKernel.Sched
