import AndroidKernel.Sched.Classes

/-! The hooks of the scheduling classes that `hw4/kernel/sched/core.c` calls without a test for
NULL, step by step, against the hooks that `fair.c` and `mycfs.c` define. `mycfs_sched_class` has
no `switched_to`, which `check_class_changed` calls on the class that a task has come to. -/

namespace AndroidKernel.Sched
open Lts
variable {rq rq' : Rq} {p q : Tid}

/-- The fields of `struct sched_class`, with CONFIG_SMP and CONFIG_FAIR_GROUP_SCHED. -/
inductive Hook
  | enqueueTask | dequeueTask | yieldTask | yieldToTask | checkPreemptCurr | pickNextTask
  | putPrevTask | selectTaskRq | preSchedule | postSchedule | taskWaking | taskWoken
  | setCpusAllowed | rqOnline | rqOffline | setCurrTask | taskTick | taskFork | switchedFrom
  | switchedTo | prioChanged | getRrInterval | taskMoveGroup
deriving DecidableEq, Repr

def mycfsSchedClass : List Hook :=
  [.dequeueTask, .pickNextTask, .enqueueTask, .putPrevTask, .yieldTask, .checkPreemptCurr,
    .selectTaskRq, .setCurrTask, .getRrInterval, .prioChanged, .taskTick, .taskFork]

def fairSchedClass : List Hook :=
  [.enqueueTask, .dequeueTask, .yieldTask, .yieldToTask, .checkPreemptCurr, .pickNextTask,
    .putPrevTask, .selectTaskRq, .rqOnline, .rqOffline, .taskWaking, .setCurrTask, .taskTick,
    .taskFork, .prioChanged, .switchedFrom, .switchedTo, .getRrInterval, .taskMoveGroup]

inductive Event
  | act (a : Act)
  | tick
  | yield
deriving DecidableEq, Repr

/-- Neither the tick nor the `yield_task` hooks change what is modelled of the runqueue; the
`schedule` that follows a yield is a step of its own. -/
def nextEvent (k : Picks) (rq : Rq) : Event → Option Rq
  | .act a => next k rq a
  | .tick => if rq.picking then none else some rq
  | .yield => if rq.picking ∨ rq.curr = rq.idle then none else some rq

abbrev HookCall := Class × Hook

def Rq.schedClass (rq : Rq) (p : Tid) : Class := (rq.task p).schedClass

def checkPreemptCurrCalls (rq : Rq) (p : Tid) : List HookCall :=
  if rq.schedClass p = rq.schedClass rq.curr then [(rq.schedClass rq.curr, .checkPreemptCurr)]
  else []

/-- `switched_from` is tested before it is called. -/
def checkClassChangedCalls (t t' : Task) : List HookCall :=
  if t.schedClass ≠ t'.schedClass then [(t'.schedClass, .switchedTo)]
  else if t.prio ≠ t'.prio then [(t'.schedClass, .prioChanged)] else []

def requeueCalls (rq : Rq) (p : Tid) (t' : Task) (running : Bool) : List HookCall :=
  (if (rq.task p).onRq then [(rq.schedClass p, .dequeueTask)] else []) ++
  (if running then [(rq.schedClass p, .putPrevTask), (t'.schedClass, .setCurrTask)] else []) ++
  (if (rq.task p).onRq then [(t'.schedClass, .enqueueTask)] else [])

/-- `select` are the calls before a task that has left its runqueue is queued again. -/
def tryToWakeUpCalls (rq : Rq) (p : Tid) (select : List HookCall) : List HookCall :=
  if (rq.task p).state = .running ∨ (rq.task p).state = .dead then []
  else if (rq.task p).onRq then checkPreemptCurrCalls rq p
  else select ++ (rq.schedClass p, .enqueueTask) :: checkPreemptCurrCalls rq p

def descheduleCalls (rq : Rq) (preempt signal : Bool) (wakeup : Option Tid) : List HookCall :=
  (if (rq.task rq.curr).state ≠ .running ∧ ¬ preempt ∧
      ¬ (signal ∧ (rq.task rq.curr).state = .interruptible) then
    (rq.schedClass rq.curr, .dequeueTask) ::
      (match wakeup with
      | none => []
      -- `try_to_wake_up_local` does not select a runqueue
      | some p => tryToWakeUpCalls ((dequeueTask rq rq.curr).setOnRq rq.curr false) p [])
  else []) ++ [(rq.schedClass rq.curr, .putPrevTask)]

def forEachClassCalls (k : Picks) (rq : Rq) : List Class → List HookCall
  | [] => []
  | c :: cs => (c, .pickNextTask) :: if (k.hook rq c).isSome then [] else forEachClassCalls k rq cs

def pickNextTaskCalls (k : Picks) (rq : Rq) : List HookCall :=
  if rq.nrRunning = rq.hNrRunning then
    (.fair, .pickNextTask) ::
      if (k.fair rq).isSome then [] else forEachClassCalls k rq classes
  else forEachClassCalls k rq classes

/-- The hooks that a step calls without a test, on which class, in order. -/
def calls (k : Picks) (rq : Rq) : Event → List HookCall
  | .tick => [(rq.schedClass rq.curr, .taskTick)]
  | .yield => [(rq.schedClass rq.curr, .yieldTask)]
  -- `task_fork` is tested
  | .act (.fork _) => []
  | .act (.wakeUpNew p) =>
    (rq.schedClass p, .selectTaskRq) :: (rq.schedClass p, .enqueueTask) ::
      checkPreemptCurrCalls rq p
  | .act (.wake p) => tryToWakeUpCalls rq p [(rq.schedClass p, .selectTaskRq)]
  | .act (.setState _) | .act (.unthrottle _) => []
  | .act (.enqueue p) => [(rq.schedClass p, .enqueueTask)]
  | .act (.dequeue p) => [(rq.schedClass p, .dequeueTask)]
  | .act (.deschedule preempt signal wakeup _) => descheduleCalls rq preempt signal wakeup
  | .act .pick => pickNextTaskCalls k rq
  | .act (.setscheduler p policy prio waiter permitted) =>
    match change rq (.setscheduler p policy prio waiter permitted) with
    | none => []
    | some (_, t') => requeueCalls rq p t' (rq.curr = p) ++ checkClassChangedCalls (rq.task p) t'
  | .act (.setprio p prio) =>
    match change rq (.setprio p prio) with
    | none => []
    | some (_, t') => requeueCalls rq p t' (rq.curr = p) ++ checkClassChangedCalls (rq.task p) t'
  | .act (.normalize p waiter) =>
    -- a running task is neither put nor set here
    let t' := setscheduler .normal 0 waiter (rq.task p)
    requeueCalls rq p t' false ++ checkClassChangedCalls (rq.task p) t'
  | .act (.nice p nice) =>
    match change rq (.nice p nice) with
    | none => []
    | some (_, t') => if rtPolicy (rq.task p).policy then [] else requeueCalls rq p t' false

/-- `other` says what the classes define whose files are not embedded. -/
def defines (other : Class → Hook → Bool) : Class → Hook → Bool
  | .mycfs, h => mycfsSchedClass.contains h
  | .fair, h => fairSchedClass.contains h
  | c, h => other c h

def mandatory : List Hook :=
  [.enqueueTask, .dequeueTask, .yieldTask, .checkPreemptCurr, .pickNextTask, .putPrevTask,
    .selectTaskRq, .setCurrTask, .taskTick, .prioChanged]

variable {other : Class → Hook → Bool} {k : Picks}

theorem defines_mandatory (hrt : ∀ h, other .rt h = true) {c : Class} (hs : c ≠ .stop)
    (hi : c ≠ .idle) {h : Hook} (hh : h ∈ mandatory) : defines other c h = true := by
  cases c with
  | stop => exact absurd rfl hs
  | idle => exact absurd rfl hi
  | rt => exact hrt h
  | fair =>
    have hall : ∀ h ∈ mandatory, fairSchedClass.contains h = true := by decide
    exact hall h hh
  | mycfs =>
    have hall : ∀ h ∈ mandatory, mycfsSchedClass.contains h = true := by decide
    exact hall h hh

theorem mandatory_checkPreemptCurr {x : HookCall} (hx : x ∈ checkPreemptCurrCalls rq p) :
    x.2 ∈ mandatory := by
  unfold checkPreemptCurrCalls at hx
  split at hx
  · obtain rfl := List.mem_singleton.mp hx
    simp [mandatory]
  · cases hx

theorem mandatory_requeue {t' : Task} {running : Bool} {x : HookCall}
    (hx : x ∈ requeueCalls rq p t' running) : x.2 ∈ mandatory := by
  simp only [requeueCalls, List.mem_append] at hx
  rcases hx with (hx | hx) | hx
  · split at hx
    · obtain rfl := List.mem_singleton.mp hx
      simp [mandatory]
    · cases hx
  · split at hx
    · simp only [List.mem_cons, List.not_mem_nil, or_false] at hx
      rcases hx with rfl | rfl <;> simp [mandatory]
    · cases hx
  · split at hx
    · obtain rfl := List.mem_singleton.mp hx
      simp [mandatory]
    · cases hx

theorem mandatory_tryToWakeUp {select : List HookCall} (hs : ∀ x ∈ select, x.2 ∈ mandatory)
    {x : HookCall} (hx : x ∈ tryToWakeUpCalls rq p select) : x.2 ∈ mandatory := by
  unfold tryToWakeUpCalls at hx
  split at hx
  · cases hx
  · split at hx
    · exact mandatory_checkPreemptCurr hx
    · rcases List.mem_append.mp hx with hx | hx
      · exact hs x hx
      · rcases List.mem_cons.mp hx with rfl | hx
        · simp [mandatory]
        · exact mandatory_checkPreemptCurr hx

theorem mandatory_deschedule {preempt signal : Bool} {wakeup : Option Tid} {x : HookCall}
    (hx : x ∈ descheduleCalls rq preempt signal wakeup) : x.2 ∈ mandatory := by
  rcases List.mem_append.mp hx with hx | hx
  · split at hx
    · rcases List.mem_cons.mp hx with rfl | hx
      · simp [mandatory]
      · cases wakeup with
        | none => cases hx
        | some p => exact mandatory_tryToWakeUp (by simp) hx
    · cases hx
  · obtain rfl := List.mem_singleton.mp hx
    simp [mandatory]

theorem mandatory_forEachClass {cs : List Class} {x : HookCall}
    (hx : x ∈ forEachClassCalls k rq cs) : x.2 ∈ mandatory := by
  induction cs with
  | nil => cases hx
  | cons c cs ih =>
    rcases List.mem_cons.mp hx with rfl | hx
    · simp [mandatory]
    · split at hx
      · cases hx
      · exact ih hx

theorem mandatory_pickNextTask {x : HookCall} (hx : x ∈ pickNextTaskCalls k rq) :
    x.2 ∈ mandatory := by
  unfold pickNextTaskCalls at hx
  split at hx
  · rcases List.mem_cons.mp hx with rfl | hx
    · simp [mandatory]
    · split at hx
      · cases hx
      · exact mandatory_forEachClass hx
  · exact mandatory_forEachClass hx

/-- The calls of a step on the classes under consideration go to hooks that exist. -/
def HooksExist (other : Class → Hook → Bool) (cs : List HookCall) : Prop :=
  ∀ x ∈ cs, x.1 ≠ .stop → x.1 ≠ .idle → defines other x.1 x.2 = true

theorem hooksExist_of_mandatory (hrt : ∀ h, other .rt h = true) {cs : List HookCall}
    (h : ∀ x ∈ cs, x.2 ∈ mandatory) : HooksExist other cs :=
  fun x hx hs hi => defines_mandatory hrt hs hi (h x hx)

theorem HooksExist.append {cs ds : List HookCall} (hc : HooksExist other cs)
    (hd : HooksExist other ds) : HooksExist other (cs ++ ds) := by
  intro x hx
  rcases List.mem_append.mp hx with hx | hx
  · exact hc x hx
  · exact hd x hx

theorem hooksExist_checkClassChanged (hrt : ∀ h, other .rt h = true) {t t' : Task}
    (h : t'.schedClass = .mycfs → t.schedClass = .mycfs) :
    HooksExist other (checkClassChangedCalls t t') := by
  intro x hx hs hi
  unfold checkClassChangedCalls at hx
  split at hx
  · rename_i hne
    obtain rfl := List.mem_singleton.mp hx
    cases hc : t'.schedClass with
    | stop => exact absurd hc hs
    | idle => exact absurd hc hi
    | rt => exact hrt _
    | fair => simp [defines, fairSchedClass]
    | mycfs => exact absurd ((h hc).trans hc.symm) hne
  · split at hx
    · obtain rfl := List.mem_singleton.mp hx
      exact defines_mandatory hrt hs hi (by simp [mandatory])
    · cases hx

/-- `__sched_setscheduler` goes on to give SCHED_MYCFS to a task outside the MYCFS class. -/
def JoinsMycfs (rq : Rq) : Event → Prop
  | .act (.setscheduler p policy prio _ permitted) => rq.schedClass p ≠ .mycfs ∧
    ∃ reset, accepted rq p policy prio permitted = some (.mycfs, reset)
  | _ => False

theorem setscheduler_mycfs {policy : Policy} {prio : ℤ} {waiter : Option ℤ} {t : Task} :
    (setscheduler policy prio waiter t).schedClass = .mycfs ↔ policy = .mycfs := by
  have hk := setscheduler_key policy prio waiter t
  simp only [Task.key, Prod.mk.injEq] at hk
  rw [hk.2.2]
  by_cases hm : policy = .mycfs
  · simp [hm]
  · rw [if_neg hm]
    refine iff_of_false (fun hc => ?_) hm
    split_ifs at hc

theorem hooksExist_setscheduler (hrt : ∀ h, other .rt h = true) {policy : BitVec 32} {prio : ℤ}
    {waiter : Option ℤ} {permitted : Bool}
    (hj : ¬ JoinsMycfs rq (.act (.setscheduler p policy prio waiter permitted))) :
    HooksExist other (calls k rq (.act (.setscheduler p policy prio waiter permitted))) := by
  simp only [calls, change]
  cases ha : accepted rq p policy prio permitted with
  | none => exact fun x hx => by cases hx
  | some y =>
    obtain ⟨known, reset⟩ := y
    refine (hooksExist_of_mandatory hrt fun x hx => mandatory_requeue hx).append
      (hooksExist_checkClassChanged hrt fun hm => ?_)
    by_contra hne
    obtain rfl := setscheduler_mycfs.mp hm
    exact hj ⟨hne, reset, ha⟩

theorem hooksExist_of_not_joins (hrt : ∀ h, other .rt h = true) {e : Event}
    (hj : ¬ JoinsMycfs rq e) : HooksExist other (calls k rq e) := by
  have hmand : ∀ cs : List HookCall, (∀ x ∈ cs, x.2 ∈ mandatory) → HooksExist other cs :=
    fun cs => hooksExist_of_mandatory hrt
  cases e with
  | tick | yield => exact hmand _ (by simp [calls, mandatory])
  | act a =>
    cases a with
    | fork | setState | unthrottle => exact fun x hx => by cases hx
    | enqueue p | dequeue p => exact hmand _ (by simp [calls, mandatory])
    | wakeUpNew p =>
      refine hmand _ fun x hx => ?_
      rcases List.mem_cons.mp hx with rfl | hx
      · simp [mandatory]
      · rcases List.mem_cons.mp hx with rfl | hx
        · simp [mandatory]
        · exact mandatory_checkPreemptCurr hx
    | wake p => exact hmand _ fun x hx => mandatory_tryToWakeUp (by simp [mandatory]) hx
    | deschedule preempt signal wakeup group => exact hmand _ fun x hx => mandatory_deschedule hx
    | pick => exact hmand _ fun x hx => mandatory_pickNextTask hx
    | setscheduler p policy prio waiter permitted => exact hooksExist_setscheduler hrt hj
    | setprio p prio =>
      simp only [calls, change]
      by_cases hp : p = rq.idle
      · simp only [if_pos hp]
        exact fun x hx => by cases hx
      · simp only [if_neg hp]
        refine (hmand _ fun x hx => mandatory_requeue hx).append
          (hooksExist_checkClassChanged hrt fun hm => ?_)
        simp only at hm
        split at hm <;> cases hm
    | normalize p waiter =>
      refine (hmand _ fun x hx => mandatory_requeue hx).append
        (hooksExist_checkClassChanged hrt fun hm => ?_)
      cases setscheduler_mycfs.mp hm
    | nice p nice =>
      simp only [calls]
      split
      · exact fun x hx => by cases hx
      · split
        · exact fun x hx => by cases hx
        · exact hmand _ fun x hx => mandatory_requeue hx

theorem joins_calls_switchedTo {e : Event} (hj : JoinsMycfs rq e) :
    (.mycfs, .switchedTo) ∈ calls k rq e := by
  cases e with
  | tick | yield => exact hj.elim
  | act a =>
    cases a with
    | setscheduler p policy prio waiter permitted =>
      obtain ⟨hne, reset, ha⟩ := hj
      have hclass : (setscheduler .mycfs prio waiter
          { rq.task p with schedResetOnFork := reset }).schedClass = .mycfs :=
        setscheduler_mycfs.mpr rfl
      have hne' : (rq.task p).schedClass ≠ .mycfs := hne
      simp [calls, change, ha, checkClassChangedCalls, hclass, hne']
    | fork | wakeUpNew | wake | setState | enqueue | dequeue | setprio | nice | normalize
    | unthrottle | deschedule | pick => exact hj.elim

/-- A run calls no hook that is NULL if and only if no task comes to the MYCFS class in it. -/
theorem hooks_exist_iff (other : Class → Hook → Bool) (hrt : ∀ h, other .rt h = true) (k : Picks)
    (rq : Rq) (es : List Event) (rq' : Rq) (h : exec (nextEvent k) es rq = some rq') :
    (∀ pre e post u v, es = pre ++ e :: post → exec (nextEvent k) pre rq = some u →
        nextEvent k u e = some v → HooksExist other (calls k u e)) ↔
      Meets (nextEvent k) (fun rq e => ¬ JoinsMycfs rq e) es rq := by
  constructor
  · intro hp
    refine meets_of_steps h fun pre e post u v hes hu hv hj => ?_
    have hd := hp pre e post u v hes hu hv _ (joins_calls_switchedTo hj) (by simp) (by simp)
    simp [defines, mycfsSchedClass] at hd
  · intro hm pre e post u v hes hu hv
    have he : ¬ JoinsMycfs u e := hm.at_step hes hu
    exact hooksExist_of_not_joins hrt he

instance (rq : Rq) (e : Event) : Decidable (JoinsMycfs rq e) := match e with
  | .act (.setscheduler p policy prio _ permitted) => inferInstanceAs (Decidable
    (rq.schedClass p ≠ .mycfs ∧
      ∃ reset, accepted rq p policy prio permitted = some (.mycfs, reset)))
  | .tick | .yield | .act (.fork _) | .act (.wakeUpNew _) | .act (.wake _) | .act (.setState _)
  | .act (.enqueue _) | .act (.dequeue _) | .act (.setprio ..) | .act (.nice ..)
  | .act (.normalize ..) | .act (.unthrottle _) | .act (.deschedule ..) | .act .pick =>
    inferInstanceAs (Decidable False)

def toFifo : List Event :=
  [.act (.wake 1), .act (.deschedule false false none []), .act .pick, .tick, .yield,
    .act (.setscheduler 1 1 50 none true)]

theorem hooks_exist_toFifo : ∃ rq, exec (nextEvent heads) (toFifo.take 5)
      (boot 0 none [1, 2] fun _ => sleeper) = some rq ∧
    calls heads rq (.act (.setscheduler 1 1 50 none true)) = [(.fair, .dequeueTask),
      (.fair, .putPrevTask), (.rt, .setCurrTask), (.rt, .enqueueTask), (.rt, .switchedTo)] ∧
    HooksExist (fun _ _ => true) (calls heads rq (.act (.setscheduler 1 1 50 none true))) := by
  obtain ⟨rq, hrq, hv⟩ := Option.map_eq_some_iff.mp (show (exec (nextEvent heads) (toFifo.take 5)
    (boot 0 none [1, 2] fun _ => sleeper)).map (fun rq => decide
      (calls heads rq (.act (.setscheduler 1 1 50 none true)) = [(.fair, .dequeueTask),
        (.fair, .putPrevTask), (.rt, .setCurrTask), (.rt, .enqueueTask), (.rt, .switchedTo)] ∧
      (nextEvent heads rq (.act (.setscheduler 1 1 50 none true))).isSome)) = some true by decide)
  obtain ⟨hcalls, hsome⟩ := of_decide_eq_true hv
  obtain ⟨rq', hrq'⟩ := Option.isSome_iff_exists.mp hsome
  have hrun : exec (nextEvent heads) (toFifo.take 5 ++ toFifo.drop 5)
      (boot 0 none [1, 2] fun _ => sleeper) = some rq' :=
    exec_snoc hrq hrq'
  refine ⟨rq, hrq, hcalls, ?_⟩
  exact (hooks_exist_iff (fun _ _ => true) (fun _ => rfl) heads _ toFifo rq' hrun).mpr
    (by decide) (toFifo.take 5) _ [] rq rq' rfl hrq hrq'

/-- Task 1 gives task 2 the policy SCHED_MYCFS: `check_class_changed` calls through NULL. -/
theorem switched_to_missing : ∃ rq rq', exec (next heads) ((toMycfs 2).take 4)
      (boot 0 none [1, 2] fun _ => sleeper) = some rq ∧
    nextEvent heads rq (.act (.setscheduler 2 6 0 none true)) = some rq' ∧
    (.mycfs, .switchedTo) ∈ calls heads rq (.act (.setscheduler 2 6 0 none true)) ∧
    ¬ HooksExist (fun _ _ => true) (calls heads rq (.act (.setscheduler 2 6 0 none true))) := by
  obtain ⟨rq, hrq, hv⟩ := Option.map_eq_some_iff.mp (show (exec (next heads) ((toMycfs 2).take 4)
    (boot 0 none [1, 2] fun _ => sleeper)).map (fun rq => decide
      ((.mycfs, .switchedTo) ∈ calls heads rq (.act (.setscheduler 2 6 0 none true)) ∧
      (nextEvent heads rq (.act (.setscheduler 2 6 0 none true))).isSome)) = some true by decide)
  obtain ⟨hmem, hsome⟩ := of_decide_eq_true hv
  obtain ⟨rq', hrq'⟩ := Option.isSome_iff_exists.mp hsome
  refine ⟨rq, rq', hrq, hrq', hmem, fun he => ?_⟩
  have hd := he _ hmem (by simp) (by simp)
  simp [defines, mycfsSchedClass] at hd

end AndroidKernel.Sched
