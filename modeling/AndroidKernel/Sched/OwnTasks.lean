import AndroidKernel.Sched.Classes

/-! Whose task MYCFS picks. `pick_next_task_mycfs` returns `rq->curr` if that is marked `on_rq`,
whatever its class: a fair task that `put_prev_task_fair` has just throttled keeps the mark, and no
other class returns a task. -/

namespace AndroidKernel.Sched
open Lts
variable {rq rq' : Rq} {p q : Tid} {k : Picks} {D : Rq → Prop}

def OwnTask (rq : Rq) : Prop := ∀ p, pickNextTaskMycfs rq = some p → rq.queuedMycfs p

def Declined (k : Picks) (rq : Rq) : Prop :=
  k.stop rq = none ∧ k.rt rq = none ∧ k.fair rq = none

theorem ownTask_iff (rq : Rq) :
    OwnTask rq ↔ ((rq.task rq.curr).onRq = true → (rq.task rq.curr).schedClass = .mycfs) := by
  unfold OwnTask pickNextTaskMycfs
  by_cases hon : (rq.task rq.curr).onRq = true
  · rw [if_pos hon]
    constructor
    · intro h _
      exact (h rq.curr rfl).1
    · intro h p hp
      obtain rfl := Option.some_inj.mp hp
      exact ⟨h hon, hon⟩
  · rw [if_neg hon]
    exact iff_of_true (fun p hp => by cases hp) fun h => absurd h hon

structure Apart (rq rq' : Rq) : Prop where
  curr : rq'.curr = rq.curr
  picking : rq'.picking = rq.picking

theorem Apart.trans {rq'' : Rq} (h : Apart rq rq') (h' : Apart rq' rq'') : Apart rq rq'' :=
  ⟨h'.curr.trans h.curr, h'.picking.trans h.picking⟩

theorem apart_enqueueTask : Apart rq (enqueueTask rq p) := by
  unfold enqueueTask
  split <;> exact ⟨rfl, rfl⟩

theorem apart_dequeueTask : Apart rq (dequeueTask rq p) := by
  unfold dequeueTask
  split <;> exact ⟨rfl, rfl⟩

theorem apart_requeue (f : Task → Task) : Apart rq (requeue rq p f) := by
  unfold requeue
  split
  · have hd : Apart rq (dequeueTask rq p) := apart_dequeueTask
    have hm : Apart rq ((dequeueTask rq p).modify p f) := ⟨hd.curr, hd.picking⟩
    exact hm.trans apart_enqueueTask
  · exact ⟨rfl, rfl⟩

theorem apart_checkClassChanged (c : Class) : Apart rq (checkClassChanged rq p c) := by
  unfold checkClassChanged
  split
  · exact ⟨rfl, rfl⟩
  · exact ⟨rfl, rfl⟩

theorem apart_tryToWakeUp : Apart rq (tryToWakeUp rq p) := by
  unfold tryToWakeUp
  split
  · exact ⟨rfl, rfl⟩
  · split
    · exact ⟨rfl, rfl⟩
    · have he : Apart rq (enqueueTask rq p) := apart_enqueueTask
      exact ⟨he.curr, he.picking⟩

theorem apart_schedSetscheduler (policy : BitVec 32) (prio : ℤ) (waiter : Option ℤ)
    (permitted : Bool) : Apart rq (schedSetscheduler rq p policy prio waiter permitted) := by
  rw [schedSetscheduler_eq]
  split
  · exact ⟨rfl, rfl⟩
  · exact (apart_requeue _).trans (apart_checkClassChanged _)

def Act.isDeschedule : Act → Bool
  | .deschedule .. => true
  | _ => false

theorem picking_perform (k : Picks) (a : Act) (h : rq.picking = false) :
    (perform k rq a).picking = a.isDeschedule := by
  have hsame : ∀ {r : Rq}, Apart rq r → r.picking = false := fun hr => hr.picking.trans h
  cases a with
  | fork child => exact h
  | wakeUpNew p =>
    have he : Apart rq (enqueueTask rq p) := apart_enqueueTask
    exact he.picking.trans h
  | wake p => exact hsame apart_tryToWakeUp
  | setState st => exact h
  | enqueue p => exact hsame apart_enqueueTask
  | dequeue p => exact hsame apart_dequeueTask
  | setscheduler p policy prio waiter permitted =>
    exact hsame (apart_schedSetscheduler policy prio waiter permitted)
  | setprio p prio =>
    simp only [perform, rtMutexSetprio]
    split
    · exact h
    · exact hsame ((apart_requeue _).trans (apart_checkClassChanged _))
  | nice p nice =>
    simp only [perform, setUserNice]
    split
    · exact h
    · split
      · exact h
      · exact hsame (apart_requeue _)
  | normalize p waiter => exact hsame ((apart_requeue _).trans (apart_checkClassChanged _))
  | unthrottle group => exact h
  | deschedule preempt signal wakeup group => rfl
  | pick => rfl

theorem modify_task_of_ne (rq : Rq) (f : Task → Task) (h : q ≠ p) :
    (rq.modify p f).task q = rq.task q := Function.update_of_ne h _ _

theorem modify_task_self (rq : Rq) (p : Tid) (f : Task → Task) :
    (rq.modify p f).task p = f (rq.task p) := Function.update_self ..

theorem enqueueTask_task_of_ne (rq : Rq) (h : q ≠ p) : (enqueueTask rq p).task q = rq.task q := by
  unfold enqueueTask
  split
  · rfl
  · rfl
  · rfl
  · exact modify_task_of_ne rq _ h
  · rfl

theorem tryToWakeUp_task_of_ne (rq : Rq) (h : q ≠ p) : (tryToWakeUp rq p).task q = rq.task q := by
  unfold tryToWakeUp
  split
  · rfl
  · split
    · exact modify_task_of_ne rq _ h
    · unfold activate Rq.setState Rq.setOnRq
      rw [modify_task_of_ne _ _ h, modify_task_of_ne _ _ h, enqueueTask_task_of_ne rq h]

theorem tryToWakeUp_onRq (hoff : (rq.task p).onRq = false) : ((tryToWakeUp rq p).task p).onRq = true ↔
    (rq.task p).state ≠ .running ∧ (rq.task p).state ≠ .dead := by
  unfold tryToWakeUp
  rw [hoff, if_neg Bool.false_ne_true]
  split
  · rename_i hst
    rw [hoff]
    exact iff_of_false Bool.false_ne_true fun h => hst.elim h.1 h.2
  · rename_i hst
    unfold activate Rq.setState Rq.setOnRq
    rw [modify_task_self, modify_task_self]
    exact iff_of_true rfl (not_or.mp hst)

def Sleeps (rq : Rq) (preempt signal : Bool) : Prop :=
  (rq.task rq.curr).state ≠ .running ∧ preempt = false ∧
    ¬ (signal = true ∧ (rq.task rq.curr).state = .interruptible)

def StaysOn (rq : Rq) (preempt signal : Bool) (wakeup : Option Tid) : Prop :=
  (¬ Sleeps rq preempt signal ∧ (rq.task rq.curr).onRq = true) ∨
    (Sleeps rq preempt signal ∧ wakeup = some rq.curr ∧ (rq.task rq.curr).state ≠ .dead)

def deactivatePrev (rq : Rq) (preempt signal : Bool) (wakeup : Option Tid) : Rq :=
  let prev := rq.curr
  if (rq.task prev).state ≠ .running ∧ ¬ preempt then
    if signal ∧ (rq.task prev).state = .interruptible then rq.setState prev .running
    else
      let rq := (dequeueTask rq prev).setOnRq prev false
      match wakeup with
      | none => rq
      | some p => tryToWakeUp rq p
  else rq

theorem deactivatePrev_of_sleeps {preempt signal : Bool} (hs : Sleeps rq preempt signal)
    (wakeup : Option Tid) : deactivatePrev rq preempt signal wakeup =
      match wakeup with
      | none => (dequeueTask rq rq.curr).setOnRq rq.curr false
      | some p => tryToWakeUp ((dequeueTask rq rq.curr).setOnRq rq.curr false) p := by
  obtain ⟨hst, hpre, hsig⟩ := hs
  unfold deactivatePrev
  dsimp only
  rw [if_pos ⟨hst, by simp [hpre]⟩, if_neg hsig]

theorem deactivatePrev_of_stays {preempt signal : Bool} (hs : ¬ Sleeps rq preempt signal)
    (wakeup : Option Tid) : deactivatePrev rq preempt signal wakeup = rq ∨
      deactivatePrev rq preempt signal wakeup = rq.setState rq.curr .running := by
  unfold deactivatePrev
  dsimp only
  split
  · rename_i hgo
    have hsig : signal = true ∧ (rq.task rq.curr).state = .interruptible := by
      by_contra hno
      exact hs ⟨hgo.1, by simpa using hgo.2, hno⟩
    rw [if_pos hsig]
    exact Or.inr rfl
  · exact Or.inl rfl

theorem deschedule_eq (rq : Rq) (preempt signal : Bool) (wakeup : Option Tid)
    (group : List Tid) : deschedule rq preempt signal wakeup group =
      { (if ((deactivatePrev rq preempt signal wakeup).task rq.curr).schedClass = .fair then
          setThrottled (deactivatePrev rq preempt signal wakeup) group true
        else deactivatePrev rq preempt signal wakeup) with picking := true } := rfl

theorem deschedule_task (rq : Rq) (preempt signal : Bool) (wakeup : Option Tid)
    (group : List Tid) : (deschedule rq preempt signal wakeup group).task =
      (deactivatePrev rq preempt signal wakeup).task := by
  rw [deschedule_eq]
  dsimp only
  split
  · rfl
  · rfl

theorem apart_deactivatePrev (preempt signal : Bool) (wakeup : Option Tid) :
    Apart rq (deactivatePrev rq preempt signal wakeup) := by
  unfold deactivatePrev
  dsimp only
  split
  · split
    · exact ⟨rfl, rfl⟩
    · have hd : Apart rq (dequeueTask rq rq.curr) := apart_dequeueTask
      have hoff : Apart rq ((dequeueTask rq rq.curr).setOnRq rq.curr false) :=
        ⟨hd.curr, hd.picking⟩
      cases wakeup with
      | none => exact hoff
      | some p => exact hoff.trans apart_tryToWakeUp
  · exact ⟨rfl, rfl⟩

theorem deschedule_curr (rq : Rq) (preempt signal : Bool) (wakeup : Option Tid)
    (group : List Tid) : (deschedule rq preempt signal wakeup group).curr = rq.curr := by
  have hprev : Apart rq (deactivatePrev rq preempt signal wakeup) :=
    apart_deactivatePrev preempt signal wakeup
  have hcurr := hprev.curr
  rw [deschedule_eq]
  dsimp only
  split
  · exact hcurr
  · exact hcurr

theorem dequeueTask_state (rq : Rq) (p q : Tid) :
    ((dequeueTask rq p).task q).state = (rq.task q).state := by
  unfold dequeueTask
  split
  · rfl
  · rfl
  · rfl
  · by_cases h : q = p
    · subst h
      unfold Rq.setOnRq
      rw [modify_task_self]
    · unfold Rq.setOnRq
      rw [modify_task_of_ne _ _ h]
  · rfl

theorem deschedule_onRq (rq : Rq) (preempt signal : Bool) (wakeup : Option Tid)
    (group : List Tid) :
    ((deschedule rq preempt signal wakeup group).task rq.curr).onRq = true ↔
      StaysOn rq preempt signal wakeup := by
  rw [deschedule_task]
  unfold StaysOn
  by_cases hs : Sleeps rq preempt signal
  · have hoff : (((dequeueTask rq rq.curr).setOnRq rq.curr false).task rq.curr).onRq = false := by
      unfold Rq.setOnRq
      rw [modify_task_self]
    have hstate : (((dequeueTask rq rq.curr).setOnRq rq.curr false).task rq.curr).state =
        (rq.task rq.curr).state := by
      unfold Rq.setOnRq
      rw [modify_task_self]
      exact dequeueTask_state ..
    rw [deactivatePrev_of_sleeps hs]
    simp only [hs, not_true_eq_false, false_and, true_and, false_or]
    cases wakeup with
    | none => simp [hoff]
    | some p =>
      dsimp only
      by_cases hp : p = rq.curr
      · subst hp
        rw [tryToWakeUp_onRq hoff, hstate]
        simp [hs.1]
      · rw [tryToWakeUp_task_of_ne _ (Ne.symm hp), hoff]
        simp [hp]
  · have hon : ((deactivatePrev rq preempt signal wakeup).task rq.curr).onRq =
        (rq.task rq.curr).onRq := by
      rcases deactivatePrev_of_stays hs wakeup with h | h
      · rw [h]
      · rw [h]
        unfold Rq.setState
        rw [modify_task_self]
    simp [hs, hon]

theorem ownTask_deschedule (rq : Rq) (preempt signal : Bool) (wakeup : Option Tid)
    (group : List Tid) : OwnTask (deschedule rq preempt signal wakeup group) ↔
      (StaysOn rq preempt signal wakeup → (rq.task rq.curr).schedClass = .mycfs) := by
  have hsame : Same rq (deschedule rq preempt signal wakeup group) :=
    same_deschedule preempt signal wakeup group
  have hkey := hsame.key rq.curr
  simp only [Task.key, Prod.mk.injEq] at hkey
  rw [ownTask_iff, deschedule_curr, deschedule_onRq, hkey.2.2]

/-- A running task that stays on the runqueue when `__schedule` is called is a MYCFS task, at least
where MYCFS is asked for a task. -/
def HandsOver (D : Rq → Prop) (rq : Rq) : Act → Prop
  | .deschedule preempt signal wakeup group =>
    D (deschedule rq preempt signal wakeup group) → StaysOn rq preempt signal wakeup →
      (rq.task rq.curr).schedClass = .mycfs
  | _ => True

theorem ownTask_of_handsOver {a : Act} (hn : next k rq a = some rq') (hp : rq'.picking = true)
    (hd : D rq') (hc : HandsOver D rq a) : OwnTask rq' := by
  obtain ⟨he, rfl⟩ := next_eq_some.mp hn
  cases hpick : rq.picking with
  | true =>
    -- between the two halves of `__schedule` only the second can follow
    cases a with
    | pick => cases hp
    | fork | wakeUpNew | wake | setState | enqueue | dequeue | setscheduler | setprio | nice
    | normalize | unthrottle | deschedule => simp [enabled, hpick] at he
  | false =>
    rw [picking_perform k a hpick] at hp
    cases a with
    | deschedule preempt signal wakeup group =>
      exact (ownTask_deschedule ..).mpr (hc hd)
    | fork | wakeUpNew | wake | setState | enqueue | dequeue | setscheduler | setprio | nice
    | normalize | unthrottle | pick => cases hp

/-- In the states of a run in which MYCFS is asked for a task it returns its own, if and only if
every call of `__schedule` that leads there hands over. -/
theorem ownTask_run_iff (D : Rq → Prop) {as : List Act} (h : exec (next k) as rq = some rq')
    (hp : rq.picking = false) :
    (∀ pre post r, as = pre ++ post → exec (next k) pre rq = some r → r.picking = true → D r →
      OwnTask r) ↔ Meets (next k) (HandsOver D) as rq := by
  constructor
  · intro hall
    refine meets_of_steps h fun pre a post u v has hu hv => ?_
    cases a with
    | deschedule preempt signal wakeup group =>
      intro hd
      obtain ⟨-, rfl⟩ := next_eq_some.mp hv
      refine (ownTask_deschedule ..).mp (hall (pre ++ [.deschedule preempt signal wakeup group])
        post _ ?_ ?_ rfl hd)
      · rw [has, List.append_assoc]
        rfl
      · exact exec_snoc hu hv
    | fork | wakeUpNew | wake | setState | enqueue | dequeue | setscheduler | setprio | nice
    | normalize | unthrottle | pick => trivial
  · intro hm pre post r has hr hpick hd
    rcases List.eq_nil_or_concat pre with rfl | ⟨pre', a, rfl⟩
    · obtain rfl := Option.some_inj.mp hr
      rw [hp] at hpick
      cases hpick
    · rw [List.concat_eq_append] at has hr
      obtain ⟨u, hu, hstep⟩ := exec_append_eq_some.mp hr
      obtain ⟨v, hv, hend⟩ := exec_cons_eq_some.mp hstep
      obtain rfl := Option.some_inj.mp hend
      rw [List.append_assoc] at has
      exact ownTask_of_handsOver hv hpick hd (hm.at_step has hu)

/-- In every run MYCFS returns only queued tasks of its own after `put_prev_task`, if and only if
every task that `__schedule` leaves on the runqueue is a MYCFS task. Where the hook is reached
through `pick_next_task` this is asked only of the calls of `__schedule` after which the other
classes have nothing to run; then no throttled fair task gets the CPU through MYCFS. -/
theorem own_tasks_iff (k : Picks) (idle : Tid) (stop : Option Tid) (alive : List Tid)
    (task : Tid → Task) (as : List Act) (rq : Rq)
    (h : exec (next k) as (boot idle stop alive task) = some rq) :
    ((∀ pre post r, as = pre ++ post → exec (next k) pre (boot idle stop alive task) = some r →
        r.picking = true → OwnTask r) ↔
      Meets (next k) (HandsOver fun _ => True) as (boot idle stop alive task)) ∧
    ((∀ pre post r, as = pre ++ post → exec (next k) pre (boot idle stop alive task) = some r →
        r.picking = true → Declined k r → OwnTask r) ↔
      Meets (next k) (HandsOver (Declined k)) as (boot idle stop alive task)) ∧
    (Meets (next k) (HandsOver (Declined k)) as (boot idle stop alive task) →
      ∀ pre post r, as = pre ++ post → exec (next k) pre (boot idle stop alive task) = some r →
        r.picking = true → Declined k r → ∀ p, (r.task p).schedClass = .fair →
          pickNextTaskMycfs r ≠ some p) := by
  have hdeclined := ownTask_run_iff (Declined k) h rfl
  refine ⟨?_, hdeclined, fun hm pre post r has hr hpick hd p hp hpicked => ?_⟩
  · rw [← ownTask_run_iff (fun _ => True) h rfl]
    simp only [forall_const]
  · have hown := (hdeclined.mpr hm pre post r has hr hpick hd p hpicked).1
    rw [hp] at hown
    cases hown

instance (rq : Rq) (preempt signal : Bool) : Decidable (Sleeps rq preempt signal) :=
  inferInstanceAs (Decidable (_ ≠ _ ∧ _ ∧ ¬ (_ ∧ _)))

instance (rq : Rq) (preempt signal : Bool) (wakeup : Option Tid) :
    Decidable (StaysOn rq preempt signal wakeup) :=
  inferInstanceAs (Decidable ((¬ Sleeps rq preempt signal ∧ _) ∨ Sleeps rq preempt signal ∧ _ ∧ _))

instance (k : Picks) : DecidablePred (Declined k) := fun rq =>
  inferInstanceAs (Decidable (k.stop rq = none ∧ k.rt rq = none ∧ k.fair rq = none))

instance [DecidablePred D] (rq : Rq) (a : Act) : Decidable (HandsOver D rq a) := match a with
  | .deschedule preempt signal wakeup group => inferInstanceAs (Decidable
    (D (deschedule rq preempt signal wakeup group) → StaysOn rq preempt signal wakeup →
      (rq.task rq.curr).schedClass = .mycfs))
  | .fork _ | .wakeUpNew _ | .wake _ | .setState _ | .enqueue _ | .dequeue _ | .setscheduler ..
  | .setprio .. | .nice .. | .normalize .. | .unthrottle _ | .pick =>
    inferInstanceAs (Decidable True)

/-- Task 1 has moved itself to MYCFS and is preempted. -/
theorem own_tasks_iff_self : ∃ rq, exec (next heads)
    (toMycfs 1 ++ [.dequeue 2, .deschedule true false none []])
      (boot 0 none [1, 2] fun _ => sleeper) = some rq ∧
    Declined heads rq ∧ pickNextTaskMycfs rq = some 1 ∧ rq.queuedMycfs 1 := by
  obtain ⟨rq, hrq, hv⟩ := Option.map_eq_some_iff.mp (show (exec (next heads)
    (toMycfs 1 ++ [.dequeue 2, .deschedule true false none []])
      (boot 0 none [1, 2] fun _ => sleeper)).map (fun rq => decide (rq.picking = true ∧
        Declined heads rq ∧ pickNextTaskMycfs rq = some 1)) = some true by decide)
  obtain ⟨hpick, hd, hmycfs⟩ := of_decide_eq_true hv
  obtain ⟨-, hiff, -⟩ := own_tasks_iff heads 0 none [1, 2] _ _ rq hrq
  have hown : OwnTask rq :=
    hiff.mpr (by decide) _ [] rq (List.append_nil _).symm hrq hpick hd
  exact ⟨rq, hrq, hd, hmycfs, hown 1 hmycfs⟩

/-- Task 1 is a fair task, preempted as the only runnable one when its group runs out of bandwidth.
No other class has a task, and MYCFS hands it the CPU again. -/
theorem throttled_picked : ∃ rq, exec (next heads)
    [.wake 1, .deschedule false false none [], .pick, .deschedule true false none [1]]
      (boot 0 none [1, 2] fun _ => sleeper) = some rq ∧ rq.picking = true ∧
    (rq.task 1).schedClass = .fair ∧ rq.throttled 1 = true ∧ Declined heads rq ∧
    pickNextTaskMycfs rq = some 1 ∧ pickNextTask heads rq = 1 ∧ ¬ OwnTask rq := by
  obtain ⟨rq, hrq, hv⟩ := Option.map_eq_some_iff.mp (show (exec (next heads)
    [.wake 1, .deschedule false false none [], .pick, .deschedule true false none [1]]
      (boot 0 none [1, 2] fun _ => sleeper)).map (fun rq => decide (rq.picking = true ∧
        (rq.task 1).schedClass = .fair ∧ rq.throttled 1 = true ∧ Declined heads rq ∧
        pickNextTaskMycfs rq = some 1 ∧ pickNextTask heads rq = 1)) = some true by decide)
  obtain ⟨hpick, hclass, hthr, hd, hmycfs, hnext⟩ := of_decide_eq_true hv
  refine ⟨rq, hrq, hpick, hclass, hthr, hd, hmycfs, hnext, fun hown => ?_⟩
  have hq := (hown 1 hmycfs).1
  rw [hclass] at hq
  cases hq

end AndroidKernel.Sched
