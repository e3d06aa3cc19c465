import AndroidKernel.Lib.Runs

/-! Completions of `hw4/kernel/sched/core.c`. A call runs under `x->wait.lock` from one call of
`schedule_timeout` to the next; in between the caller is an entry of the wait queue. -/

namespace AndroidKernel.Completions

inductive Mode
  | uninterruptible | interruptible | killable
deriving DecidableEq, Repr

structure Signal where
  pending : Bool
  fatal : Bool
deriving DecidableEq, Repr

def signalPendingState : Mode → Signal → Bool
  | .uninterruptible, _ => false
  | .interruptible, s => s.pending
  | .killable, s => s.pending && s.fatal

/-- A `wait_queue_t` with what `do_wait_for_common` keeps on its stack. The task is asleep from
`__set_current_state` on until somebody wakes it. -/
structure Waiter (τ : Type) where
  task : τ
  exclusive : Bool
  mode : Mode
  timeout : ℕ
  awake : Bool
deriving DecidableEq, Repr

/-- A history of the completion: what was added to `done`, and what the waits answered. -/
inductive Event (τ : Type)
  | signalled (n : ℕ)
  | returned (task : τ) (mode : Mode) (timeout : ℕ) (value : ℤ)
deriving DecidableEq, Repr

structure Completion (τ : Type) where
  done : ℕ
  taskList : List (Waiter τ)
  log : List (Event τ)
deriving DecidableEq, Repr

def maxScheduleTimeout : ℕ := 2 ^ 31 - 1

def eRestartSys : ℤ := 512

def uintMax : ℕ := 2 ^ 32 - 1

variable {τ : Type}

def initCompletion : Completion τ := ⟨0, [], []⟩

/-- `__wake_up_common` with `default_wake_function`, which answers whether the task was asleep. -/
def wakeUpCommon : ℤ → List (Waiter τ) → List (Waiter τ)
  | _, [] => []
  | nrExclusive, curr :: q =>
    if curr.awake then curr :: wakeUpCommon nrExclusive q
    else if curr.exclusive then
      if nrExclusive - 1 = 0 then { curr with awake := true } :: q
      else { curr with awake := true } :: wakeUpCommon (nrExclusive - 1) q
    else { curr with awake := true } :: wakeUpCommon nrExclusive q

def signal (x : Completion τ) (n : ℕ) (nrExclusive : ℤ) : Completion τ where
  done := (x.done + n) % 2 ^ 32
  taskList := wakeUpCommon nrExclusive x.taskList
  log := x.log ++ [.signalled n]

def complete (x : Completion τ) : Completion τ := signal x 1 1

def completeAll (x : Completion τ) : Completion τ := signal x (uintMax / 2) 0

def orOne (timeout : ℕ) : ℤ := if timeout = 0 then 1 else timeout

def Completion.ret (x : Completion τ) (task : τ) (mode : Mode) (timeout : ℕ) (value : ℤ) :
    Completion τ :=
  { x with log := x.log ++ [.returned task mode timeout value] }

def tryWaitForCompletion (x : Completion τ) (task : τ) : Completion τ :=
  if x.done = 0 then x
  else { x with done := x.done - 1 }.ret task .uninterruptible maxScheduleTimeout 1

def waitForCommon (x : Completion τ) (task : τ) (mode : Mode) (timeout : ℕ) (s : Signal) :
    Completion τ :=
  if x.done = 0 then
    if signalPendingState mode s then x.ret task mode timeout (-eRestartSys)
    else { x with taskList := x.taskList ++ [⟨task, true, mode, timeout, false⟩] }
  else { x with done := x.done - 1 }.ret task mode timeout (orOne timeout)

variable [DecidableEq τ]

def removeWaitQueue (x : Completion τ) (task : τ) : Completion τ :=
  { x with taskList := x.taskList.eraseP (·.task = task) }

def updateWaiter (x : Completion τ) (task : τ) (f : Waiter τ → Waiter τ) : Completion τ :=
  { x with taskList := x.taskList.map fun w => if w.task = task then f w else w }

/-- From the return of `schedule_timeout` with `left` on, round the loop or out of it. -/
def resume (x : Completion τ) (w : Waiter τ) (left : ℕ) (s : Signal) : Completion τ :=
  if x.done = 0 ∧ left ≠ 0 then
    if signalPendingState w.mode s then
      (removeWaitQueue x w.task).ret w.task w.mode w.timeout (-eRestartSys)
    else updateWaiter x w.task fun w => { w with awake := false, timeout := left }
  else if x.done = 0 then (removeWaitQueue x w.task).ret w.task w.mode w.timeout left
  else { removeWaitQueue x w.task with done := x.done - 1 }.ret w.task w.mode w.timeout (orOne left)

inductive Action (τ : Type)
  | complete
  | completeAll
  | tryWait (task : τ)
  | wait (task : τ) (mode : Mode) (timeout : ℕ) (s : Signal)
  | resume (task : τ) (left : ℕ) (s : Signal)
  | wake (task : τ)
deriving DecidableEq, Repr

def Left (timeout left : ℕ) : Prop :=
  left ≤ timeout ∧ (timeout = maxScheduleTimeout → left = maxScheduleTimeout)

instance (timeout left : ℕ) : Decidable (Left timeout left) := inferInstanceAs (Decidable (_ ∧ _))

/-- A task that waits runs again once it is awake. Timers, signals and others may wake it at any
time. -/
def next (x : Completion τ) : Action τ → Option (Completion τ)
  | .complete => some (complete x)
  | .completeAll => some (completeAll x)
  | .tryWait task => some (tryWaitForCompletion x task)
  | .wait task mode timeout s =>
    if x.taskList.any (·.task = task) ∨ maxScheduleTimeout < timeout then none
    else some (waitForCommon x task mode timeout s)
  | .resume task left s =>
    match x.taskList.find? (·.task = task) with
    | none => none
    | some w => if w.awake ∧ Left w.timeout left then some (resume x w left s) else none
  | .wake task => some (updateWaiter x task fun w => { w with awake := true })

def Event.added : Event τ → ℕ
  | .signalled n => n
  | .returned _ _ _ _ => 0

def Event.taken : Event τ → ℕ
  | .signalled _ => 0
  | .returned _ _ _ value => if 0 < value then 1 else 0

def added (log : List (Event τ)) : ℕ := (log.map Event.added).sum

def taken (log : List (Event τ)) : ℕ := (log.map Event.taken).sum

/-- A call that does not take a completion was interrupted where its mode allows it, or was given a
timeout. -/
def Event.Fair : Event τ → Prop
  | .signalled _ => True
  | .returned _ mode timeout value => 0 < value ∨ value = 0 ∧ timeout ≠ maxScheduleTimeout ∨
      value = -eRestartSys ∧ mode ≠ .uninterruptible

end AndroidKernel.Completions
