import AndroidKernel.Sched.Hooks
import AndroidKernel.Sched.OwnTasks

/-! What a change of class or priority does to the place of a task on the runqueue. The callers
remember `p->on_rq`, dequeue the task from its old class and enqueue it with its new one. The MYCFS
hooks write `p->on_rq` themselves, the others do not, so a queued task that leaves MYCFS is queued
with its new class and no longer marked. -/

namespace AndroidKernel.Sched
open Lts
variable {rq rq' : Rq} {p q : Tid} {k : Picks} {f : Task → Task}

def Rq.list (rq : Rq) : Class → List Tid
  | .stop => rq.stopTasks
  | .rt => rq.rtTasks
  | .fair => rq.fairTasks
  | .mycfs | .idle => []

/-- The task is enqueued in a class. MYCFS has nothing but the mark `on_rq`. -/
def Rq.queuedIn (rq : Rq) (p : Tid) : Class → Prop
  | .mycfs => (rq.task p).onRq = true
  | c => p ∈ rq.list c

/-- A task is marked `on_rq` exactly if it is enqueued in its class, and it is in the list of no
other class. A running or a runnable task is marked, a sleeping one is not. -/
structure Consistent (rq : Rq) (p : Tid) : Prop where
  own : rq.queuedIn p (rq.task p).schedClass ↔ (rq.task p).onRq = true
  only : ∀ c, c ≠ (rq.task p).schedClass → p ∉ rq.list c

/-- The task keeps its mark, and is enqueued in the class it now has exactly if it is marked. -/
structure KeepsQueued (p : Tid) (rq rq' : Rq) : Prop where
  onRq : (rq'.task p).onRq = (rq.task p).onRq
  queued : rq'.queuedIn p (rq'.task p).schedClass ↔ (rq'.task p).onRq = true

theorem queuedIn_mycfs : rq.queuedIn p .mycfs ↔ (rq.task p).onRq = true := Iff.rfl

theorem queuedIn_of_ne {c : Class} (h : c ≠ .mycfs) : rq.queuedIn p c ↔ p ∈ rq.list c := by
  cases c with
  | mycfs => exact absurd rfl h
  | stop | rt | fair | idle => exact Iff.rfl

theorem list_dequeueTask (rq : Rq) (p : Tid) (c : Class) : (dequeueTask rq p).list c =
    if c = (rq.task p).schedClass then (rq.list c).erase p else rq.list c := by
  unfold dequeueTask
  split <;> rename_i hc <;> rw [hc] <;> cases c <;> rfl

theorem list_enqueueTask (rq : Rq) (p : Tid) {c : Class} (hm : c ≠ .mycfs) (hi : c ≠ .idle) :
    (enqueueTask rq p).list c =
      if c = (rq.task p).schedClass then rq.list c ++ [p] else rq.list c := by
  unfold enqueueTask
  split <;> rename_i hc <;> rw [hc] <;> cases c <;>
    first | rfl | exact absurd rfl hm | exact absurd rfl hi

theorem list_modify (rq : Rq) (p : Tid) (f : Task → Task) : (rq.modify p f).list = rq.list := by
  funext c
  cases c <;> rfl

theorem task_dequeueTask (rq : Rq) (p : Tid) : (dequeueTask rq p).task p =
    if (rq.task p).schedClass = .mycfs then { rq.task p with onRq := false } else rq.task p := by
  unfold dequeueTask
  split <;> rename_i hc <;> rw [hc]
  · rfl
  · rfl
  · rfl
  · exact modify_task_self ..
  · rfl

theorem task_enqueueTask (rq : Rq) (p : Tid) : (enqueueTask rq p).task p =
    if (rq.task p).schedClass = .mycfs then { rq.task p with onRq := true } else rq.task p := by
  unfold enqueueTask
  split <;> rename_i hc <;> rw [hc]
  · rfl
  · rfl
  · rfl
  · exact modify_task_self ..
  · rfl

/-- What the callers do to a task between the two hooks: neither its mark nor, by way of the mark,
its class. -/
structure Reclasses (f : Task → Task) : Prop where
  onRq : ∀ t, (f t).onRq = t.onRq
  schedClass : ∀ t b, (f { t with onRq := b }).schedClass = (f t).schedClass

theorem Consistent.not_mem_list (hc : Consistent rq p) (hoff : (rq.task p).onRq = false)
    (c : Class) : p ∉ rq.list c := by
  by_cases hcl : c = (rq.task p).schedClass
  · by_cases hm : c = .mycfs
    · rw [hm]
      exact List.not_mem_nil
    · intro hmem
      have hq := hc.own.mp (by rw [← hcl]; exact (queuedIn_of_ne hm).mpr hmem)
      rw [hoff] at hq
      cases hq
  · exact hc.only c hcl

theorem requeue_keeps_of_off (hc : Consistent rq p) (hf : Reclasses f)
    (hoff : (rq.task p).onRq = false) : KeepsQueued p rq (requeue rq p f) := by
  have hreq : requeue rq p f = rq.modify p f := if_neg (by rw [hoff]; exact Bool.false_ne_true)
  have htask : ((rq.modify p f).task p).onRq = (rq.task p).onRq := by
    rw [modify_task_self, hf.onRq]
  rw [hreq]
  refine ⟨htask, ?_⟩
  by_cases hm : ((rq.modify p f).task p).schedClass = .mycfs
  · rw [hm]
    exact queuedIn_mycfs
  · rw [queuedIn_of_ne hm, list_modify, htask, hoff]
    exact iff_of_false (hc.not_mem_list hoff _) Bool.false_ne_true

theorem requeue_task (hf : Reclasses f) (hon : (rq.task p).onRq = true) :
    ((requeue rq p f).task p).schedClass = (f (rq.task p)).schedClass ∧
      ((requeue rq p f).task p).onRq =
        (decide ((f (rq.task p)).schedClass = .mycfs) ||
          decide ((rq.task p).schedClass ≠ .mycfs)) := by
  have hreq : requeue rq p f = enqueueTask ((dequeueTask rq p).modify p f) p := if_pos hon
  have hmid : ((dequeueTask rq p).modify p f).task p = f ((dequeueTask rq p).task p) :=
    modify_task_self ..
  have hdeq := task_dequeueTask rq p
  have hclass : (((dequeueTask rq p).modify p f).task p).schedClass =
      (f (rq.task p)).schedClass := by
    rw [hmid, hdeq]
    split
    · exact hf.schedClass ..
    · rfl
  have hmark : (((dequeueTask rq p).modify p f).task p).onRq =
      decide ((rq.task p).schedClass ≠ .mycfs) := by
    rw [hmid, hf.onRq, hdeq]
    split
    · rename_i hm
      simp [hm]
    · rename_i hm
      simp [hm, hon]
  have henq := task_enqueueTask ((dequeueTask rq p).modify p f) p
  rw [hreq, henq]
  split
  · rename_i hm
    rw [hclass] at hm
    exact ⟨hclass, by simp [hm]⟩
  · rename_i hm
    refine ⟨hclass, ?_⟩
    rw [hclass] at hm
    rw [hmark]
    simp [hm]

theorem requeue_queuedIn (hf : Reclasses f) (hon : (rq.task p).onRq = true)
    (hidle : (f (rq.task p)).schedClass ≠ .idle) :
    (requeue rq p f).queuedIn p ((requeue rq p f).task p).schedClass := by
  obtain ⟨hclass, hmark⟩ := requeue_task hf hon
  rw [hclass]
  by_cases hm : (f (rq.task p)).schedClass = .mycfs
  · rw [hm, queuedIn_mycfs, hmark, hm]
    rfl
  · have hreq : requeue rq p f = enqueueTask ((dequeueTask rq p).modify p f) p := if_pos hon
    have hsame : (((dequeueTask rq p).modify p f).task p).schedClass =
        (f (rq.task p)).schedClass := by
      rw [modify_task_self, task_dequeueTask]
      split
      · exact hf.schedClass ..
      · rfl
    rw [queuedIn_of_ne hm, hreq, list_enqueueTask _ _ hm hidle, if_pos hsame.symm]
    exact List.mem_append_right _ (List.mem_singleton.mpr rfl)

/-- A task keeps its place on the runqueue exactly if it is not a queued MYCFS task that leaves the
class. -/
theorem requeue_keeps_iff (hc : Consistent rq p) (hf : Reclasses f)
    (hidle : (f (rq.task p)).schedClass = .idle → (rq.task p).schedClass = .idle) :
    KeepsQueued p rq (requeue rq p f) ↔
      ¬ (rq.queuedMycfs p ∧ (f (rq.task p)).schedClass ≠ .mycfs) := by
  unfold Rq.queuedMycfs
  cases hon : (rq.task p).onRq with
  | false => exact iff_of_true (requeue_keeps_of_off hc hf hon) fun h => Bool.false_ne_true h.1.2
  | true =>
    obtain ⟨-, hmark⟩ := requeue_task hf hon
    have hnotidle : (f (rq.task p)).schedClass ≠ .idle := by
      intro hi
      -- the idle class has no queue, so a task of it is not marked
      have hq := hc.own.mpr hon
      rw [hidle hi] at hq
      exact absurd hq List.not_mem_nil
    have hq := requeue_queuedIn hf hon hnotidle
    have hkeeps : KeepsQueued p rq (requeue rq p f) ↔ ((requeue rq p f).task p).onRq = true := by
      constructor
      · intro h
        rw [h.onRq, hon]
      · intro h
        exact ⟨by rw [h, hon], iff_of_true hq h⟩
    rw [hkeeps, hmark]
    by_cases hm : (rq.task p).schedClass = .mycfs
    · simp [hm]
    · simp [hm]

structure SamePlace (p : Tid) (rq rq' : Rq) : Prop where
  onRq : (rq'.task p).onRq = (rq.task p).onRq
  schedClass : (rq'.task p).schedClass = (rq.task p).schedClass
  list : rq'.list = rq.list

theorem samePlace_modify {f : Task → Task} (q : Tid)
    (hon : (f (rq.task q)).onRq = (rq.task q).onRq)
    (hclass : (f (rq.task q)).schedClass = (rq.task q).schedClass) :
    SamePlace p rq (rq.modify q f) := by
  by_cases hpq : p = q
  · subst hpq
    refine ⟨?_, ?_, list_modify ..⟩
    · rw [modify_task_self, hon]
    · rw [modify_task_self, hclass]
  · refine ⟨?_, ?_, list_modify ..⟩
    · rw [modify_task_of_ne rq f hpq]
    · rw [modify_task_of_ne rq f hpq]

theorem SamePlace.queuedIn (h : SamePlace p rq rq') (c : Class) :
    rq'.queuedIn p c ↔ rq.queuedIn p c := by
  by_cases hm : c = .mycfs
  · rw [hm, queuedIn_mycfs, queuedIn_mycfs, h.onRq]
  · rw [queuedIn_of_ne hm, queuedIn_of_ne hm, h.list]

theorem samePlace_checkClassChanged (q : Tid) (c : Class) :
    SamePlace p rq (checkClassChanged rq q c) := by
  unfold checkClassChanged
  split
  · have hs : SamePlace p rq (rq.setState rq.curr .dead) := samePlace_modify _ rfl rfl
    exact ⟨hs.onRq, hs.schedClass, hs.list⟩
  · exact ⟨rfl, rfl, rfl⟩

theorem SamePlace.keepsQueued_iff {r : Rq} (h : SamePlace p rq rq') :
    KeepsQueued p r rq' ↔ KeepsQueued p r rq := by
  constructor
  · rintro ⟨hon, hq⟩
    rw [h.onRq] at hon hq
    rw [h.schedClass, h.queuedIn] at hq
    exact ⟨hon, hq⟩
  · rintro ⟨hon, hq⟩
    refine ⟨by rw [h.onRq, hon], ?_⟩
    rw [h.schedClass, h.queuedIn, h.onRq]
    exact hq

theorem Consistent.keepsQueued (hc : Consistent rq p) (h : SamePlace p rq rq') :
    KeepsQueued p rq rq' := h.keepsQueued_iff.mpr ⟨rfl, hc.own⟩

def Act.sets : Act → Option Tid
  | .setscheduler p .. | .setprio p _ | .nice p _ | .normalize p _ => some p
  | _ => none

/-- The step takes a task out of MYCFS that is queued there: `__sched_setscheduler` with a policy
other than SCHED_MYCFS, and `rt_mutex_setprio` and `normalize_task` always. -/
def LeavesMycfs (rq : Rq) : Act → Prop
  | .setscheduler p policy prio _ permitted => rq.queuedMycfs p ∧
    ∃ x, accepted rq p policy prio permitted = some x ∧ x.1 ≠ .mycfs
  | .setprio p _ => rq.queuedMycfs p ∧ p ≠ rq.idle
  | .normalize p _ => rq.queuedMycfs p
  | _ => False

theorem setscheduler_schedClass_ne_idle (policy : Policy) (prio : ℤ) (waiter : Option ℤ)
    (t : Task) : (setscheduler policy prio waiter t).schedClass ≠ .idle := by
  have hk := setscheduler_key policy prio waiter t
  simp only [Task.key, Prod.mk.injEq] at hk
  rw [hk.2.2]
  split_ifs <;> intro h <;> cases h

theorem reclasses_setscheduler (policy : Policy) (prio : ℤ) (waiter : Option ℤ) :
    Reclasses (setscheduler policy prio waiter) where
  onRq := fun _ => by cases policy <;> rfl
  schedClass := fun _ _ => by cases policy <;> rfl

theorem reclasses_setscheduler_reset (policy : Policy) (prio : ℤ) (waiter : Option ℤ)
    (reset : Bool) :
    Reclasses fun t => setscheduler policy prio waiter { t with schedResetOnFork := reset } where
  onRq := fun _ => (reclasses_setscheduler policy prio waiter).onRq _
  schedClass := fun _ _ => by cases policy <;> rfl

/-- The frame of the callers with the hooks around the change: what is left to know of the change
is the class that it gives the task. -/
theorem frame_keeps_iff (hc : Consistent rq p) (hf : Reclasses f)
    (hidle : (f (rq.task p)).schedClass ≠ .idle) (c : Class) :
    KeepsQueued p rq (checkClassChanged (requeue rq p f) p c) ↔
      ¬ (rq.queuedMycfs p ∧ (f (rq.task p)).schedClass ≠ .mycfs) := by
  rw [(samePlace_checkClassChanged p c).keepsQueued_iff]
  exact requeue_keeps_iff hc hf fun h => absurd h hidle

theorem schedSetscheduler_keeps_iff (hc : Consistent rq p) (policy : BitVec 32) (prio : ℤ)
    (waiter : Option ℤ) (permitted : Bool) :
    KeepsQueued p rq (schedSetscheduler rq p policy prio waiter permitted) ↔
      ¬ LeavesMycfs rq (.setscheduler p policy prio waiter permitted) := by
  rw [schedSetscheduler_eq]
  unfold LeavesMycfs
  cases ha : accepted rq p policy prio permitted with
  | none =>
    refine iff_of_true ⟨rfl, hc.own⟩ ?_
    rintro ⟨-, x, hx, -⟩
    rw [ha] at hx
    cases hx
  | some x =>
    obtain ⟨known, reset⟩ := x
    have hidle := setscheduler_schedClass_ne_idle known prio waiter
      { rq.task p with schedResetOnFork := reset }
    have hframe := frame_keeps_iff hc (reclasses_setscheduler_reset known prio waiter reset) hidle
      (rq.task p).schedClass
    rw [Ne, setscheduler_mycfs] at hframe
    rw [hframe]
    simp [ha]

theorem rtMutexSetprio_keeps_iff (hc : Consistent rq p) (prio : ℤ) :
    KeepsQueued p rq (rtMutexSetprio rq p prio) ↔ ¬ LeavesMycfs rq (.setprio p prio) := by
  unfold rtMutexSetprio LeavesMycfs
  by_cases hp : p = rq.idle
  · rw [if_pos hp]
    exact iff_of_true ⟨rfl, hc.own⟩ fun h => h.2 hp
  · have hclass : ∀ c, c = (if rtPrio prio then Class.rt else .fair) → c ≠ .idle ∧ c ≠ .mycfs := by
      rintro c rfl
      split <;> exact ⟨by decide, by decide⟩
    have hf : Reclasses fun t =>
        { t with schedClass := if rtPrio prio then .rt else .fair, prio := prio } :=
      ⟨fun _ => rfl, fun _ _ => rfl⟩
    have hne := (hclass _ rfl).2
    rw [if_neg hp, frame_keeps_iff hc hf (hclass _ rfl).1]
    simp only [hne, hp, ne_eq, not_false_eq_true, and_true]

theorem setUserNice_keeps (hc : Consistent rq p) (nice : ℤ) :
    KeepsQueued p rq (setUserNice rq p nice) := by
  unfold setUserNice
  dsimp only
  split
  · exact ⟨rfl, hc.own⟩
  · split
    · exact hc.keepsQueued (samePlace_modify p rfl rfl)
    · apply (requeue_keeps_iff hc ?_ ?_).mpr
      · rintro ⟨⟨hclass, -⟩, hne⟩
        exact hne hclass
      · exact ⟨fun _ => rfl, fun _ _ => rfl⟩
      · exact fun h => h

theorem normalizeTask_keeps_iff (hc : Consistent rq p) (waiter : Option ℤ) :
    KeepsQueued p rq (normalizeTask rq p waiter) ↔ ¬ LeavesMycfs rq (.normalize p waiter) := by
  unfold normalizeTask LeavesMycfs
  rw [frame_keeps_iff hc (reclasses_setscheduler ..) (setscheduler_schedClass_ne_idle _ _ _ _), Ne,
    setscheduler_mycfs]
  simp

/-- Setting the class or the priority of a task keeps its queued status exactly if the task is not
taken out of MYCFS while it is queued there. -/
theorem queued_status_kept_iff (k : Picks) (rq : Rq) (a : Act) (p : Tid) (ha : a.sets = some p)
    (hc : Consistent rq p) : KeepsQueued p rq (perform k rq a) ↔ ¬ LeavesMycfs rq a := by
  cases a with
  | setscheduler q policy prio waiter permitted =>
    obtain rfl := Option.some_inj.mp ha
    exact schedSetscheduler_keeps_iff hc policy prio waiter permitted
  | setprio q prio =>
    obtain rfl := Option.some_inj.mp ha
    exact rtMutexSetprio_keeps_iff hc prio
  | nice q nice =>
    obtain rfl := Option.some_inj.mp ha
    exact iff_of_true (setUserNice_keeps hc nice) fun h => h
  | normalize q waiter =>
    obtain rfl := Option.some_inj.mp ha
    exact normalizeTask_keeps_iff hc waiter
  | fork | wakeUpNew | wake | setState | enqueue | dequeue | unthrottle | deschedule | pick =>
    cases ha

instance (rq : Rq) (p : Tid) (c : Class) : Decidable (rq.queuedIn p c) := match c with
  | .mycfs => inferInstanceAs (Decidable ((rq.task p).onRq = true))
  | .stop | .rt | .fair | .idle => inferInstanceAs (Decidable (p ∈ rq.list _))

theorem mem_classes (c : Class) : c ∈ classes := by cases c <;> decide

instance (rq : Rq) (p : Tid) : Decidable (Consistent rq p) :=
  decidable_of_iff ((rq.queuedIn p (rq.task p).schedClass ↔ (rq.task p).onRq = true) ∧
      ∀ c ∈ classes, c ≠ (rq.task p).schedClass → p ∉ rq.list c)
    ⟨fun h => ⟨h.1, fun c => h.2 c (mem_classes c)⟩, fun h => ⟨h.own, fun c _ => h.only c⟩⟩

/-- Task 2, queued as a fair task, gets SCHED_FIFO. -/
theorem queued_status_kept_fifo : ∃ rq, exec (next heads) ((toMycfs 2).take 4)
      (boot 0 none [1, 2] fun _ => sleeper) = some rq ∧ (rq.task 2).onRq = true ∧
    KeepsQueued 2 rq (perform heads rq (.setscheduler 2 1 50 none true)) := by
  obtain ⟨rq, hrq, hv⟩ := Option.map_eq_some_iff.mp (show (exec (next heads) ((toMycfs 2).take 4)
      (boot 0 none [1, 2] fun _ => sleeper)).map (fun rq => decide ((rq.task 2).onRq = true ∧
        (rq.task 2).schedClass = .fair ∧ Consistent rq 2)) = some true by decide)
  obtain ⟨hon, hclass, hc⟩ := of_decide_eq_true hv
  refine ⟨rq, hrq, hon, (queued_status_kept_iff heads rq _ 2 rfl hc).mpr ?_⟩
  rintro ⟨⟨hmycfs, -⟩, -⟩
  rw [hclass] at hmycfs
  cases hmycfs

/-- Task 2 has been moved to MYCFS, at the cost of task 1, and is moved back by task 3. It is queued
as a fair task, and not marked. -/
theorem mark_lost : ∃ rq, exec (next heads)
      (toMycfs 2 ++ [.wake 3, .deschedule false false none [], .pick])
      (boot 0 none [1, 2, 3] fun _ => sleeper) = some rq ∧
    enabled rq (.setscheduler 2 0 0 none true) = true ∧ Consistent rq 2 ∧
    (rq.task 2).onRq = true ∧
    ((perform heads rq (.setscheduler 2 0 0 none true)).task 2).onRq = false ∧
    (perform heads rq (.setscheduler 2 0 0 none true)).queuedIn 2 .fair ∧
    ¬ KeepsQueued 2 rq (perform heads rq (.setscheduler 2 0 0 none true)) := by
  obtain ⟨rq, hrq, hv⟩ := Option.map_eq_some_iff.mp (show (exec (next heads)
      (toMycfs 2 ++ [.wake 3, .deschedule false false none [], .pick])
      (boot 0 none [1, 2, 3] fun _ => sleeper)).map (fun rq => decide (
        enabled rq (.setscheduler 2 0 0 none true) = true ∧ Consistent rq 2 ∧
        (rq.task 2).onRq = true ∧
        ((perform heads rq (.setscheduler 2 0 0 none true)).task 2).onRq = false ∧
        (perform heads rq (.setscheduler 2 0 0 none true)).queuedIn 2 .fair)) = some true by decide)
  obtain ⟨he, hc, hon, hoff, hq⟩ := of_decide_eq_true hv
  refine ⟨rq, hrq, he, hc, hon, hoff, hq, fun hkeep => ?_⟩
  have hmark := hkeep.onRq
  rw [hoff, hon] at hmark
  cases hmark

end AndroidKernel.Sched
