import AndroidKernel.Lib.Runs

/-! The network lock of `hw3/netlock.c`, with any number of tasks. Both system calls declare a local
`DEFINE_WAIT(wait_queue)` that hides the global of that name, so a release examines a list head that
it has just initialised itself. The kernel's list primitives act on a memory of `struct list_head`.
Here `kmalloc` succeeds and leaves arbitrary bytes in the block, which pass for a
`wait_queue_head_t`; `Netlock.Faults` drops both assumptions. A sleeping task stays `TASK_RUNNING`:
`schedule()` may return to it at any time, and `wake_up` does not touch it. -/

namespace AndroidKernel.Netlock
open Lts

abbrev Addr := ℕ

structure ListHead where
  next : Addr
  prev : Addr
deriving DecidableEq, Repr

abbrev Lists := Addr → ListHead

def NET_LOCK_N : ℤ := 0
def NET_LOCK_R : ℤ := 1
def NET_LOCK_E : ℤ := 2

inductive Kind
  | regular | exclusive
deriving DecidableEq, Repr

def Kind.flag : Kind → Int32
  | .regular => 0
  | .exclusive => 1

/-- Where a task is. `wait` is the address of its own `wait_queue`, `head` of a block it has from
`kmalloc`; `temp` is the local copy that `netlock_release` keeps of the list it found. -/
inductive Pc
  | idle
  | acquireSpin (type : ℤ) (wait : Addr)
  | acquire (type : ℤ) (wait : Addr)
  | sleeping (k : Kind) (wait head : Addr)
  | releaseSpin (k : Kind) (wait : Addr)
  | release (k : Kind) (wait : Addr)
  | scan (k : Kind) (wait head : Addr) (temp : Option ListHead)
  | ret (r : ℤ)
deriving DecidableEq, Repr

/-- The variables of the file, its memory, and the tasks. The last fields are history: the holders
of either lock, whether a release has woken the task since it began to wait, and the tasks whose
acquire returned from a waiting branch without that. -/
structure State (τ : Type) where
  lock : Bool
  readLockAvailable : Int32
  writeLockAvailable : Int32
  readerCount : Int32
  list : Lists
  netlockFlag : Addr → Int32
  live : Finset Addr
  pc : τ → Pc
  regular : List τ
  exclusive : List τ
  handed : τ → Bool
  early : List τ

/-- A call with the stack address of its `wait_queue`, or the next step of a task; `head` and the
other arguments are the block that a `kmalloc` in this step answers and what it contains. A
release is labelled with the kind of lock that its caller means to give back. -/
inductive Act (τ : Type)
  | acquire (t : τ) (type : ℤ) (wait : Addr)
  | release (t : τ) (k : Kind) (wait : Addr)
  | step (t : τ) (head : Addr) (task_list : ListHead) (flag : Int32)

def setNext (l : Lists) (a b : Addr) : Lists := Function.update l a { l a with next := b }

def setPrev (l : Lists) (a b : Addr) : Lists := Function.update l a { l a with prev := b }

def listAdd (l : Lists) (new head : Addr) : Lists :=
  let next := (l head).next
  setNext (setPrev (setNext (setPrev l next new) new next) new head) head new

def listDel (l : Lists) (entry : Addr) : Lists :=
  setNext (setPrev l (l entry).next (l entry).prev) (l entry).prev (l entry).next

def listEmpty (l : Lists) (head : Addr) : Bool := (l head).next = head

def Pc.isSleeping : Pc → Bool
  | .sleeping .. => true
  | _ => false

variable {τ : Type}

def State.holders (s : State τ) : Kind → List τ
  | .regular => s.regular
  | .exclusive => s.exclusive

def State.addHolder (s : State τ) (t : τ) : Kind → State τ
  | .regular => { s with regular := t :: s.regular }
  | .exclusive => { s with exclusive := t :: s.exclusive }

variable [DecidableEq τ]

def State.dropHolder (s : State τ) (t : τ) : Kind → State τ
  | .regular => { s with regular := s.regular.erase t }
  | .exclusive => { s with exclusive := s.exclusive.erase t }

def State.goto (s : State τ) (t : τ) (pc : Pc) : State τ :=
  { s with pc := Function.update s.pc t pc }

def State.defineWait (s : State τ) (wait : Addr) : State τ :=
  { s with list := Function.update s.list wait ⟨wait, wait⟩, live := insert wait s.live }

def State.leave (s : State τ) (t : τ) (wait : Addr) (r : ℤ) : State τ :=
  { s.goto t (.ret r) with live := s.live.erase wait }

/-- The waiting branches, up to `schedule()`: mark the new head with the kind, add the local entry
to it. -/
def State.enqueue (s : State τ) (t : τ) (k : Kind) (wait head : Addr) (task_list : ListHead) :
    State τ :=
  { s.goto t (.sleeping k wait head) with
    list := listAdd (Function.update s.list head task_list) wait head
    netlockFlag := Function.update s.netlockFlag head k.flag
    live := insert head s.live
    lock := false
    handed := Function.update s.handed t false }

def State.wait (s : State τ) (t : τ) (k : Kind) (wait head : Addr) (task_list : ListHead) :
    Option (State τ) :=
  -- `kmalloc` only answers a block that is not in use
  if head ∈ s.live then none else some (s.enqueue t k wait head task_list)

/-- `schedule()` returns and the waiting branch goes on to `return 0`. -/
def State.resume (s : State τ) (t : τ) (k : Kind) (wait : Addr) : State τ :=
  { (s.addHolder t k).leave t wait 0 with
    early := if s.handed t then s.early else t :: s.early }

def State.wakeUp (s : State τ) : State τ :=
  { s with handed := fun t => s.handed t || (s.pc t).isSleeping }

def netlockAcquire (s : State τ) (t : τ) (type : ℤ) (wait head : Addr) (task_list : ListHead) :
    Option (State τ) :=
  if type = NET_LOCK_R then
    if s.writeLockAvailable = 1 then
      -- the reader is counted, `read_lock_available` stays as it is
      some (({ s with readerCount := s.readerCount + 1, lock := false }.addHolder t
        .regular).leave t wait 0)
    else s.wait t .regular wait head task_list
  else if type = NET_LOCK_E then
    if s.writeLockAvailable = 1 ∧ s.readLockAvailable = 1 then
      some (({ s with writeLockAvailable := 0, lock := false }.addHolder t
        .exclusive).leave t wait 0)
    else s.wait t .exclusive wait head task_list
  else if type = NET_LOCK_N then some ({ s with lock := false }.leave t wait (-1))
  -- any other integer from user space falls through with the spinlock held
  else some (s.leave t wait 0)

def netlockRelease (s : State τ) (t : τ) (k : Kind) (wait head : Addr) (flag : Int32) :
    Option (State τ) :=
  -- the queue of this call itself, whatever other calls wait on
  if listEmpty s.list wait then
    let s := if s.readerCount ≤ 1 then
        { s with readerCount := 0, readLockAvailable := 1, writeLockAvailable := 1 }
      else { s with readerCount := s.readerCount - 1 }
    some (({ s with lock := false }.dropHolder t k).leave t wait 0)
  else if head ∈ s.live then none
  else
    -- `head->task_list` is first a copy of the local head, then of the entry behind it
    let l := Function.update s.list head (s.list wait)
    some { s.goto t (.scan k wait head none) with
      list := Function.update l head (l (l wait).next)
      netlockFlag := Function.update s.netlockFlag head flag
      live := insert head s.live }

/-- The loop of `netlock_release`, one test and one iteration at a time. `pos` stays the block
`head`, whose list is overwritten by that of the next entry. -/
def netlockScan (s : State τ) (t : τ) (k : Kind) (wait head : Addr) (temp : Option ListHead) :
    State τ :=
  let pos := s.list head
  if pos.next ≠ (s.list wait).next ∧ pos.prev ≠ (s.list wait).prev then
    let temp' := if s.netlockFlag head = 1 ∧ temp.isNone then some pos else temp
    { s.goto t (.scan k wait head temp') with
      readerCount := if s.netlockFlag head = 0 then s.readerCount + 1 else s.readerCount
      list := Function.update s.list head (s.list pos.next) }
  else
    let s := { s with live := s.live.erase head, lock := false }
    if temp.isSome then
      let s := { s with writeLockAvailable := 0, list := listDel s.list wait }
      (s.wakeUp.dropHolder t k).leave t wait 0
    else if s.readerCount > 0 then
      ({ s.wakeUp with readLockAvailable := 0 }.dropHolder t k).leave t wait 0
    else (s.dropHolder t k).leave t wait 0

def next (s : State τ) : Act τ → Option (State τ)
  | .acquire t type wait =>
    if s.pc t = .idle ∧ wait ∉ s.live then
      some ((s.defineWait wait).goto t (.acquireSpin type wait))
    else none
  | .release t k wait =>
    if s.pc t = .idle ∧ wait ∉ s.live then some ((s.defineWait wait).goto t (.releaseSpin k wait))
    else none
  | .step t head task_list flag => match s.pc t with
    | .idle => none
    | .acquireSpin type wait =>
      some (if s.lock then s else { s.goto t (.acquire type wait) with lock := true })
    | .acquire type wait => netlockAcquire s t type wait head task_list
    | .sleeping k wait _ => some (s.resume t k wait)
    | .releaseSpin k wait =>
      some (if s.lock then s else { s.goto t (.release k wait) with lock := true })
    | .release k wait => netlockRelease s t k wait head flag
    | .scan k wait head' temp => some (netlockScan s t k wait head' temp)
    | .ret _ => some (s.goto t .idle)

def start (list : Lists) (netlockFlag : Addr → Int32) : State τ where
  lock := false
  readLockAvailable := 1
  writeLockAvailable := 1
  readerCount := 0
  list := list
  netlockFlag := netlockFlag
  live := ∅
  pc := fun _ => .idle
  regular := []
  exclusive := []
  handed := fun _ => false
  early := []

end AndroidKernel.Netlock
