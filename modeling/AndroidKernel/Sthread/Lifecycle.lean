import AndroidKernel.Sthread.Model

/-! Threads of `hw3/sthread.c` from `sthread_create` to `thread_dealloc`. Tasks of the kernel, known
by their pid, run on a `struct sthread_struct` each; they may suspend themselves, wake any thread,
use semaphores, create threads and return from their main routine at any time. The manager collects
a thread in `reap_children` or when it reads its `MSG_THREAD_EXIT`. A section under `list_lock`, and
one under `flag`, is one step. An access to a struct that is not allocated, or to the pipe of a
struct that has none, answers `none`. Threads do not die by signals, the main thread does not
return, and the stores to `errno` are left out. -/

namespace AndroidKernel.Sthread.Lifecycle
open Sync

inductive Msg
  | create (caller thread : Thr)
  | exit (caller : Thr)
deriving DecidableEq, Repr

/-- A message in the manager's pipe, and whether a struct that it refers to was freed before it was
sent, or since. -/
structure Letter where
  msg : Msg
  stale : Bool
deriving DecidableEq, Repr

def Msg.refers : Msg → List Thr
  | .create caller thread => [caller, thread]
  | .exit caller => [caller]

/-- The loop of `manager_main`: `reap_children`, one message, and what it asks for. `dealloc` is in
the call of `thread_dealloc`, after either of the two `waitpid`s. -/
inductive ManagerPc
  | reap
  | read
  | create (stage : Stage) (caller thread : Thr)
  | wakeExit (thread : Thr)
  | wait (thread : Thr)
  | dealloc (thread : Thr)
deriving DecidableEq, Repr

/-- Where a task is: in a semaphore call, in `sthread_suspend`, in `sthread_create`, or at the end
of `start_thread`. `self` is what `sthread_self()` answered earlier in the call. -/
inductive Pc (κ : Type)
  | idle
  | spin (op : Op) (k : κ)
  | body (op : Op) (k : κ)
  | unlock (after : After Thr)
  | after (after : After Thr)
  | suspended (self : Thr)
  | malloc (self : Thr)
  | send (self newthr : Thr)
  | awaitReply (self newthr : Thr)
  | replied (self newthr : Thr)
  | exitSend
  | exitWait
deriving DecidableEq, Repr

inductive Task (κ : Type)
  | none
  | running (thread : Thr) (pc : Pc κ)
  | zombie (thread : Thr)
deriving DecidableEq, Repr

def Task.unused {κ : Type} : Task κ → Bool
  | .none => true
  | .running _ _ | .zombie _ => false

/-- What decides over the life of the structs. The last three fields are a history: the structs
whose creation failed and that were not freed yet, the calls of `thread_dealloc` since a struct was
allocated, and whether a stale message was handled. -/
structure Life (κ : Type) where
  managerPid : ℤ
  allocated : Finset Thr
  list : List Thr
  pid : Thr → ℤ
  letters : List Letter
  manager : ManagerPc
  task : ℤ → Task κ
  refused : List Thr
  deallocs : Thr → ℕ
  staleHandled : Bool

/-- `pipe` counts the wake tokens in the pipe of a struct. -/
structure State (κ : Type) extends Life κ where
  flag : Bool
  sem : κ → Sem
  heap : LinkedList.Heap Addr Thr
  pipe : Thr → Option ℕ
  status : Thr → ℤ

/-- `malloc` in `sthread_create` fails, or answers a block that still has `pid` at the place of
that field. In a step of the manager `ok` tells whether its system call succeeds, and `pid` is what
`clone` or `waitpid(-1)` answers. -/
inductive Act (κ : Type)
  | call (p : ℤ) (op : Op) (k : κ)
  | suspend (p : ℤ)
  | wake (p : ℤ) (w : Thr)
  | create (p : ℤ)
  | malloc (p : ℤ) (block : Option (Addr × ℤ))
  | finish (p : ℤ) (retval : ℤ)
  | step (p : ℤ) (a : Addr)
  | manage (ok : Bool) (pid : ℤ)

variable {κ : Type}

def State.cell (s : State κ) (k : κ) : Cell Thr := ⟨s.sem k, s.heap⟩

def Life.letter (s : Life κ) (msg : Msg) : Letter :=
  ⟨msg, msg.refers.any fun t => decide (t ∉ s.allocated)⟩

def Life.sthreadSelf (s : Life κ) (p : ℤ) : Option Thr := threadlistFindbypid s.pid p s.list

def State.goto (s : State κ) (p : ℤ) (t : Thr) (pc : Pc κ) : State κ :=
  { s with task := Function.update s.task p (.running t pc) }

def State.sthreadWake (s : State κ) (t : Thr) : Option (State κ) :=
  if t ∈ s.allocated then
    (s.pipe t).map fun n => { s with pipe := Function.update s.pipe t (some (n + 1)) }
  else none

/-- `_sthread_self_suspend(self)`, which blocks while the pipe is empty. -/
def State.selfSuspend (s : State κ) (self : Thr) : Option (State κ) :=
  if self ∈ s.allocated then
    match s.pipe self with
    | some (n + 1) => some { s with pipe := Function.update s.pipe self (some n) }
    | _ => none
  else none

def Letter.freed (t : Thr) (l : Letter) : Letter :=
  { l with stale := l.stale || l.msg.refers.contains t }

def State.free (s : State κ) (t : Thr) : State κ :=
  { s with
    allocated := s.allocated.erase t
    letters := s.letters.map (Letter.freed t)
    refused := s.refused.erase t }

def State.threadDealloc (s : State κ) (t : Thr) : Option (State κ) :=
  if t ∈ s.allocated then do
    let list ← threadlistDel s.pid t s.list
    some { s.free t with list := list, pipe := Function.update s.pipe t none }
  else none

def State.callDealloc (s : State κ) (t : Thr) : State κ :=
  { s with
    manager := .dealloc t
    deallocs := Function.update s.deallocs t (s.deallocs t + 1) }

def State.createOut (s : State κ) (caller t : Thr) : State κ :=
  { s with
    status := Function.update s.status caller (-1)
    refused := t :: s.refused
    manager := .create .wake caller t }

def doCreate (s : State κ) (caller t : Thr) (ok : Bool) (p : ℤ) : Stage → Option (State κ)
  | .mmap =>
    let s := { s with status := Function.update (Function.update s.status caller 0) t 0 }
    some (if ok then { s with manager := .create .pipe caller t } else s.createOut caller t)
  | .pipe =>
    some (if ok then
      { s with pipe := Function.update s.pipe t (some 0), manager := .create .malloc caller t }
    else s.createOut caller t)
  | .malloc =>
    some (if ok then { s with manager := .create .add caller t }
    else { s with pipe := Function.update s.pipe t none }.createOut caller t)
  -- `t->pid` is not yet assigned here
  | .add => some { s with list := t :: s.list, manager := .create .clone caller t }
  | .clone =>
    if ok then
      if 0 < p ∧ p ≠ s.managerPid ∧ (s.task p).unused then
        some { s with
          pid := Function.update s.pid t p
          task := Function.update s.task p (.running t .idle)
          manager := .create .wake caller t }
      else none
    else some { s with pid := Function.update s.pid t (-1), manager := .create .listdel caller t }
  | .listdel =>
    (threadlistDel s.pid t s.list).map fun list =>
      { s with list := list, pipe := Function.update s.pipe t none }.createOut caller t
  | .wake => (s.sthreadWake caller).map fun s => { s with manager := .reap }

def managerMain (s : State κ) (ok : Bool) (p : ℤ) : Option (State κ) :=
  match s.manager with
  | .reap =>
    if ok then
      match s.task p with
      | .zombie _ => do
        let t ← threadlistFindbypid s.pid p s.list
        some ({ s with task := Function.update s.task p .none }.callDealloc t)
      | _ => none
    -- `waitpid` answers 0 or -1
    else some { s with manager := .read }
  | .read => match s.letters with
    | [] => none
    | l :: letters =>
      let s := { s with letters := letters, staleHandled := s.staleHandled || l.stale }
      match l.msg with
      | .create caller t => some { s with manager := .create .mmap caller t }
      | .exit t => some { s with manager := .wakeExit t }
  | .create stage caller t =>
    if caller ∈ s.allocated ∧ t ∈ s.allocated then doCreate s caller t ok p stage else none
  | .wakeExit t => (s.sthreadWake t).map fun s => { s with manager := .wait t }
  | .wait t =>
    if t ∈ s.allocated then
      match s.task (s.pid t) with
      | .zombie _ => some ({ s with task := Function.update s.task (s.pid t) .none }.callDealloc t)
      -- `waitpid` blocks while the thread runs
      | .running _ _ => none
      -- no such child: `waitpid` fails, which is only reported
      | .none => some (s.callDealloc t)
    else none
  | .dealloc t => (s.threadDealloc t).map fun s => { s with manager := .reap }

variable [DecidableEq κ]

def threadStep (s : State κ) (p : ℤ) (t : Thr) (a : Addr) : Pc κ → Option (State κ)
  | .idle => none
  | .spin op k => some (if s.flag then s else { s.goto p t (.body op k) with flag := true })
  | .body op k =>
    if (s.heap a).isSome then none
    else do
      let self ← s.sthreadSelf p
      let (c, e) ← crit op self a (s.cell k)
      some { s.goto p t (.unlock e.after) with
        sem := Function.update s.sem k c.sem, heap := c.heap }
  | .unlock after => some { s.goto p t (.after after) with flag := false }
  | .after .ret => some (s.goto p t .idle)
  | .after .suspend => do
    let self ← s.sthreadSelf p
    some (s.goto p t (.suspended self))
  | .after (.wake w) => (s.sthreadWake w).map fun s => s.goto p t .idle
  | .suspended self => (s.selfSuspend self).map fun s => s.goto p t .idle
  | .malloc _ => none
  | .send self newthr =>
    some { s.goto p t (.awaitReply self newthr) with
      letters := s.letters ++ [s.letter (.create self newthr)] }
  | .awaitReply self newthr => (s.selfSuspend self).map fun s => s.goto p t (.replied self newthr)
  | .replied self newthr =>
    if s.status self = 0 then some (s.goto p t .idle)
    else if newthr ∈ s.allocated then some ((s.goto p t .idle).free newthr)
    else none
  | .exitSend =>
    some { s.goto p t .exitWait with letters := s.letters ++ [s.letter (.exit t)] }
  | .exitWait => (s.selfSuspend t).map fun s =>
    { s with task := Function.update s.task p (.zombie t) }

def next (s : State κ) : Act κ → Option (State κ)
  | .call p op k => match s.task p with
    | .running t .idle => some (s.goto p t (.spin op k))
    | _ => none
  | .suspend p => match s.task p with
    | .running t .idle => do
      let self ← s.sthreadSelf p
      some (s.goto p t (.suspended self))
    | _ => none
  | .wake p w => match s.task p with
    | .running _ .idle => s.sthreadWake w
    | _ => none
  | .create p => match s.task p with
    | .running t .idle => do
      let self ← s.sthreadSelf p
      some (s.goto p t (.malloc self))
    | _ => none
  | .malloc p block => match s.task p with
    | .running t (.malloc self) => match block with
      | none => some (s.goto p t .idle)
      | some (a, old) =>
        if .worker a ∈ s.allocated then none
        else some { s.goto p t (.send self (.worker a)) with
          allocated := insert (.worker a) s.allocated
          pid := Function.update s.pid (.worker a) old
          deallocs := Function.update s.deallocs (.worker a) 0 }
    | _ => none
  | .finish p retval => match s.task p with
    | .running (.worker a) .idle =>
      some { s.goto p (.worker a) .exitSend with
        status := Function.update s.status (.worker a) retval }
    | _ => none
  | .step p a => match s.task p with
    | .running t pc => threadStep s p t a pc
    | _ => none
  | .manage ok p => managerMain s ok p

/-- After `sthread_init` by a process whose main and manager thread have these pids, with the
semaphores initialised. -/
def start (count : κ → ℤ) (mainPid managerPid : ℤ) : State κ where
  managerPid := managerPid
  allocated := {.main, .manager}
  list := [.manager, .main]
  pid := fun t => if t = .main then mainPid else if t = .manager then managerPid else 0
  letters := []
  manager := .reap
  task := fun p => if p = mainPid then .running .main .idle else .none
  refused := []
  deallocs := fun _ => 0
  staleHandled := false
  flag := false
  sem := fun k => (sthreadSemInit (count k) ⟨⟨0, 0, none, none⟩, fun _ : Addr => none⟩ :
    Cell Thr × ℤ).1.sem
  heap := fun _ => none
  pipe := fun t => match t with
    | .main => some 0
    | _ => none
  status := fun _ => 0

end AndroidKernel.Sthread.Lifecycle
