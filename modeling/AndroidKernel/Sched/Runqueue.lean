import AndroidKernel.Lib.Runs

/-! One runqueue of `hw4/kernel/sched/core.c` with the MYCFS class of `mycfs.c`. The stop, rt and
fair classes keep the lists of the tasks that are queued with them; which of these their
`pick_next_task` returns is a parameter. MYCFS keeps no list: its hooks only write `p->on_rq`, and
its pick looks at `rq->curr`. `__schedule` is cut in two at the call of `pick_next_task`. -/

namespace AndroidKernel.Sched
open Lts

abbrev Tid := ℕ

inductive Class
  | stop | rt | fair | mycfs | idle
deriving DecidableEq, Repr

inductive Policy
  | normal | fifo | rr | batch | idle | mycfs
deriving DecidableEq, Repr

inductive TaskState
  | running | interruptible | uninterruptible | dead
deriving DecidableEq, Repr

def MAX_RT_PRIO : ℤ := 100

def MAX_USER_RT_PRIO : ℤ := 100

def SCHED_RESET_ON_FORK : BitVec 32 := 0x40000000

def Policy.ofInt (policy : BitVec 32) : Option Policy :=
  if policy = 0 then some .normal
  else if policy = 1 then some .fifo
  else if policy = 2 then some .rr
  else if policy = 3 then some .batch
  else if policy = 5 then some .idle
  else if policy = 6 then some .mycfs
  else none

def rtPolicy : Policy → Bool
  | .fifo | .rr => true
  | _ => false

def rtPrio (prio : ℤ) : Bool := prio < MAX_RT_PRIO

def niceToPrio (nice : ℤ) : ℤ := MAX_RT_PRIO + nice + 20

structure Task where
  policy : Policy
  rtPriority : ℤ
  staticPrio : ℤ
  normalPrio : ℤ
  prio : ℤ
  schedClass : Class
  onRq : Bool
  state : TaskState
  schedResetOnFork : Bool
  mm : Bool
deriving DecidableEq, Repr

/-- `throttled` are the tasks in a group that is out of bandwidth here: they stay in the list of
the fair class but are not counted and cannot be picked. `alive` are the tasks that exist,
`nullHook` records a call through a hook that the class does not define, and `picking` stands for
the lock of the runqueue between the two halves of `__schedule`. -/
structure Rq where
  task : Tid → Task
  alive : List Tid
  curr : Tid
  idle : Tid
  stop : Option Tid
  stopTasks : List Tid
  rtTasks : List Tid
  fairTasks : List Tid
  throttled : Tid → Bool
  nrRunning : ℤ
  hNrRunning : ℤ
  nullHook : Bool
  picking : Bool

def Rq.modify (rq : Rq) (p : Tid) (f : Task → Task) : Rq :=
  { rq with task := Function.update rq.task p (f (rq.task p)) }

def Rq.setOnRq (rq : Rq) (p : Tid) (b : Bool) : Rq := rq.modify p fun t => { t with onRq := b }

def Rq.setState (rq : Rq) (p : Tid) (st : TaskState) : Rq :=
  rq.modify p fun t => { t with state := st }

def Rq.runnableFair (rq : Rq) : List Tid := rq.fairTasks.filter fun p => !rq.throttled p

def normalPrio (t : Task) : ℤ :=
  if rtPolicy t.policy then MAX_RT_PRIO - 1 - t.rtPriority else t.staticPrio

/-- `p->sched_class->enqueue_task`. The idle class has no task to enqueue. -/
def enqueueTask (rq : Rq) (p : Tid) : Rq :=
  match (rq.task p).schedClass with
  | .stop => { rq with stopTasks := rq.stopTasks ++ [p], nrRunning := rq.nrRunning + 1 }
  | .rt => { rq with rtTasks := rq.rtTasks ++ [p], nrRunning := rq.nrRunning + 1 }
  | .fair =>
    let n : ℤ := if rq.throttled p then 0 else 1
    { rq with
      fairTasks := rq.fairTasks ++ [p]
      hNrRunning := rq.hNrRunning + n
      nrRunning := rq.nrRunning + n }
  | .mycfs => rq.setOnRq p true
  | .idle => rq

def dequeueTask (rq : Rq) (p : Tid) : Rq :=
  match (rq.task p).schedClass with
  | .stop => { rq with stopTasks := rq.stopTasks.erase p, nrRunning := rq.nrRunning - 1 }
  | .rt => { rq with rtTasks := rq.rtTasks.erase p, nrRunning := rq.nrRunning - 1 }
  | .fair =>
    let n : ℤ := if rq.throttled p then 0 else 1
    { rq with
      fairTasks := rq.fairTasks.erase p
      hNrRunning := rq.hNrRunning - n
      nrRunning := rq.nrRunning - n }
  | .mycfs => rq.setOnRq p false
  | .idle => rq

/-- Calling a hook that is NULL kills the task that made the call. -/
def Rq.oops (rq : Rq) : Rq := { rq.setState rq.curr .dead with nullHook := true }

/-- `check_class_changed`: every class but MYCFS defines `switched_to`. -/
def checkClassChanged (rq : Rq) (p : Tid) (prevClass : Class) : Rq :=
  if prevClass ≠ (rq.task p).schedClass ∧ (rq.task p).schedClass = .mycfs then rq.oops else rq

/-- The frame that `__sched_setscheduler`, `rt_mutex_setprio`, `set_user_nice` and
`normalize_task` share: take the task off its class, change it, put it back. -/
def requeue (rq : Rq) (p : Tid) (f : Task → Task) : Rq :=
  if (rq.task p).onRq then enqueueTask ((dequeueTask rq p).modify p f) p else rq.modify p f

/-- `__setscheduler`; `waiter` is the priority of the first task that waits for a mutex of this
one, by which `rt_mutex_getprio` may boost it. -/
def setscheduler (policy : Policy) (prio : ℤ) (waiter : Option ℤ) (t : Task) : Task :=
  let t := { t with policy := policy, rtPriority := prio }
  let t := { t with normalPrio := normalPrio t }
  let t := { t with prio := match waiter with
    | none => t.normalPrio
    | some w => min w t.normalPrio }
  let t := { t with schedClass := if rtPrio t.prio then .rt else .fair }
  if policy = .mycfs then { t with schedClass := .mycfs } else t

def paramsValid (t : Task) (policy : Policy) (prio : ℤ) : Bool :=
  !(decide (prio < 0) || (t.mm && decide (prio > MAX_USER_RT_PRIO - 1)) ||
    (!t.mm && decide (prio > MAX_RT_PRIO - 1))) && rtPolicy policy == decide (prio ≠ 0)

/-- `__sched_setscheduler`; `permitted` is the answer of the permission checks. -/
def schedSetscheduler (rq : Rq) (p : Tid) (policy : BitVec 32) (prio : ℤ) (waiter : Option ℤ)
    (permitted : Bool) : Rq :=
  let t := rq.task p
  let keep := policy.slt 0
  let reset := if keep then t.schedResetOnFork else policy &&& SCHED_RESET_ON_FORK != 0
  match if keep then some t.policy else Policy.ofInt (policy &&& ~~~SCHED_RESET_ON_FORK) with
  | none => rq
  | some policy =>
    if paramsValid t policy prio && permitted && rq.stop != some p then
      if policy = t.policy ∧ (¬ rtPolicy policy ∨ prio = t.rtPriority) then rq
      else
        checkClassChanged (requeue rq p fun t =>
          setscheduler policy prio waiter { t with schedResetOnFork := reset }) p t.schedClass
    else rq

def rtMutexSetprio (rq : Rq) (p : Tid) (prio : ℤ) : Rq :=
  if p = rq.idle then rq
  else
    checkClassChanged (requeue rq p fun t =>
      { t with schedClass := if rtPrio prio then .rt else .fair, prio := prio })
      p (rq.task p).schedClass

def setUserNice (rq : Rq) (p : Tid) (nice : ℤ) : Rq :=
  let t := rq.task p
  if niceToPrio nice = t.staticPrio ∨ nice < -20 ∨ nice > 19 then rq
  else if rtPolicy t.policy then rq.modify p fun t => { t with staticPrio := niceToPrio nice }
  else requeue rq p fun t =>
    let t := { t with staticPrio := niceToPrio nice }
    let t := { t with normalPrio := normalPrio t }
    { t with prio := if rtPrio t.prio then t.prio else t.normalPrio }

def normalizeTask (rq : Rq) (p : Tid) (waiter : Option ℤ) : Rq :=
  checkClassChanged (requeue rq p (setscheduler .normal 0 waiter)) p (rq.task p).schedClass

def schedFork (t : Task) : Task :=
  let t := { t with onRq := false, state := .running, prio := t.normalPrio }
  let t := if t.schedResetOnFork then
      let t := if rtPolicy t.policy then
          { t with policy := .normal, staticPrio := niceToPrio 0, rtPriority := 0 }
        else if t.staticPrio < niceToPrio 0 then { t with staticPrio := niceToPrio 0 } else t
      { t with prio := t.staticPrio, normalPrio := t.staticPrio, schedResetOnFork := false }
    else t
  if rtPrio t.prio then t else { t with schedClass := .fair }

def activate (rq : Rq) (p : Tid) : Rq :=
  ((enqueueTask rq p).setOnRq p true).setState p .running

/-- `try_to_wake_up` and `try_to_wake_up_local`: a task that is still on the runqueue only changes
its state. -/
def tryToWakeUp (rq : Rq) (p : Tid) : Rq :=
  if (rq.task p).state = .running ∨ (rq.task p).state = .dead then rq
  else if (rq.task p).onRq then rq.setState p .running
  else activate rq p

def setThrottled (rq : Rq) (group : List Tid) (b : Bool) : Rq :=
  let throttled := fun p => if group.contains p then b else rq.throttled p
  let delta : ℤ := (rq.fairTasks.filter fun p => !throttled p).length - rq.runnableFair.length
  { rq with
    throttled := throttled
    hNrRunning := rq.hNrRunning + delta
    nrRunning := rq.nrRunning + delta }

/-- `__schedule` up to the call of `pick_next_task`. `signal` is `signal_pending_state`, `wakeup`
the worker that a sleeping worker wakes, `group` what `put_prev_task_fair` throttles. -/
def deschedule (rq : Rq) (preempt signal : Bool) (wakeup : Option Tid) (group : List Tid) : Rq :=
  let prev := rq.curr
  let rq :=
    if (rq.task prev).state ≠ .running ∧ ¬ preempt then
      if signal ∧ (rq.task prev).state = .interruptible then rq.setState prev .running
      else
        let rq := (dequeueTask rq prev).setOnRq prev false
        match wakeup with
        | none => rq
        | some p => tryToWakeUp rq p
    else rq
  { (if (rq.task prev).schedClass = .fair then setThrottled rq group true else rq) with
    picking := true }

/-- The `pick_next_task` hooks of the classes that are not embedded. They return NULL when their
class has no task to run. -/
structure Picks where
  stop : Rq → Option Tid
  rt : Rq → Option Tid
  fair : Rq → Option Tid
  stop_nil : ∀ rq, rq.stopTasks = [] → stop rq = none
  rt_nil : ∀ rq, rq.rtTasks = [] → rt rq = none
  fair_nil : ∀ rq, rq.runnableFair = [] → fair rq = none

def pickNextTaskMycfs (rq : Rq) : Option Tid :=
  if (rq.task rq.curr).onRq then some rq.curr else none

def Picks.hook (k : Picks) (rq : Rq) : Class → Option Tid
  | .stop => k.stop rq
  | .rt => k.rt rq
  | .fair => k.fair rq
  | .mycfs => pickNextTaskMycfs rq
  | .idle => some rq.idle

def classes : List Class := [.stop, .rt, .fair, .mycfs, .idle]

def forEachClass (k : Picks) (rq : Rq) : Tid := (classes.findSome? (k.hook rq)).getD rq.idle

def pickNextTask (k : Picks) (rq : Rq) : Tid :=
  if rq.nrRunning = rq.hNrRunning then (k.fair rq).getD (forEachClass k rq)
  else forEachClass k rq

def switchTo (k : Picks) (rq : Rq) : Rq :=
  { rq with curr := pickNextTask k rq, picking := false }

inductive Act
  | fork (child : Tid)
  | wakeUpNew (p : Tid)
  | wake (p : Tid)
  | setState (st : TaskState)
  | enqueue (p : Tid)
  | dequeue (p : Tid)
  | setscheduler (p : Tid) (policy : BitVec 32) (prio : ℤ) (waiter : Option ℤ) (permitted : Bool)
  | setprio (p : Tid) (prio : ℤ)
  | nice (p : Tid) (nice : ℤ)
  | normalize (p : Tid) (waiter : Option ℤ)
  | unthrottle (group : List Tid)
  | deschedule (preempt signal : Bool) (wakeup : Option Tid) (group : List Tid)
  | pick
deriving DecidableEq, Repr

def Act.target : Act → Option Tid
  | .wakeUpNew p | .wake p | .enqueue p | .dequeue p | .setscheduler p .. | .setprio p _
  | .nice p _ | .normalize p _ => some p
  | .deschedule _ _ wakeup _ => wakeup
  | .fork _ | .setState _ | .unthrottle _ | .pick => none

def perform (k : Picks) (rq : Rq) : Act → Rq
  | .fork child =>
    { rq with
      task := Function.update rq.task child (schedFork (rq.task rq.curr))
      alive := child :: rq.alive }
  | .wakeUpNew p => (enqueueTask rq p).setOnRq p true
  | .wake p => tryToWakeUp rq p
  | .setState st => rq.setState rq.curr st
  | .enqueue p => enqueueTask rq p
  | .dequeue p => dequeueTask rq p
  | .setscheduler p policy prio waiter permitted =>
    schedSetscheduler rq p policy prio waiter permitted
  | .setprio p prio => rtMutexSetprio rq p prio
  | .nice p nice => setUserNice rq p nice
  | .normalize p waiter => normalizeTask rq p waiter
  | .unthrottle group => setThrottled rq group false
  | .deschedule preempt signal wakeup group => deschedule rq preempt signal wakeup group
  | .pick => switchTo k rq

/-- A step names a task that exists and is not the idle task. The idle task itself makes no system
call and does not sleep. Between the halves of `__schedule` nothing else happens. -/
def enabled (rq : Rq) (a : Act) : Bool :=
  (match a.target with
    | none => true
    | some p => rq.alive.contains p && p != rq.idle) &&
  match a with
  | .pick => rq.picking
  | .fork child => !rq.picking && !rq.alive.contains child && rq.curr != rq.idle
  | .setState _ | .setscheduler .. => !rq.picking && rq.curr != rq.idle
  | _ => !rq.picking

def next (k : Picks) (rq : Rq) (a : Act) : Option Rq :=
  if enabled rq a then some (perform k rq a) else none

theorem next_eq_some {k : Picks} {rq rq' : Rq} {a : Act} :
    next k rq a = some rq' ↔ enabled rq a = true ∧ perform k rq a = rq' := by
  unfold next
  split
  · rename_i he
    simp only [he, Option.some.injEq, true_and]
  · rename_i he
    simp only [he, reduceCtorEq, false_and]

theorem target_of_enabled {rq : Rq} {a : Act} {p : Tid} (he : enabled rq a = true)
    (hp : a.target = some p) : p ∈ rq.alive ∧ p ≠ rq.idle := by
  simp only [enabled, hp, Bool.and_eq_true, List.contains_eq_mem, decide_eq_true_eq,
    bne_iff_ne] at he
  exact he.1

theorem child_of_enabled {rq : Rq} {child : Tid} (he : enabled rq (.fork child) = true) :
    child ∉ rq.alive := by
  simp only [enabled, Bool.and_eq_true, Bool.not_eq_true', List.contains_eq_mem,
    decide_eq_false_iff_not] at he
  exact he.2.1.2

/-- The runqueue at boot: the idle task runs, and the other tasks, in any class but MYCFS, are not
queued. -/
def boot (idle : Tid) (stop : Option Tid) (alive : List Tid) (task : Tid → Task) : Rq where
  task := fun p =>
    let t := task p
    { t with
      onRq := false
      schedClass := if p = idle then .idle
        else if t.schedClass = .mycfs ∨ t.schedClass = .idle then .fair else t.schedClass
      state := if p = idle then .running else t.state }
  alive := idle :: alive
  curr := idle
  idle := idle
  stop := stop
  stopTasks := []
  rtTasks := []
  fairTasks := []
  throttled := fun _ => false
  nrRunning := 0
  hNrRunning := 0
  nullHook := false
  picking := false

end AndroidKernel.Sched
