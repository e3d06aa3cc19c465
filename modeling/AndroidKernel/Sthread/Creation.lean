import AndroidKernel.Lib.Runs
import AndroidKernel.Sthread.Model

/-! What `sthread_create` and `do_create` of `hw3/sthread.c` acquire and give back: heap blocks,
mapped regions, descriptors and the place in the list. The caller runs `sthread_create`, the manager
serves its request, and the new thread frees the `start_struct`. The handling of the request is one
step: the caller alone could run meanwhile, and it waits for the reply. Nobody else uses the library
in between. -/

namespace AndroidKernel.Sthread.Creation
open Lts

structure Resources where
  blocks : Finset ℕ
  regions : Finset ℕ
  fds : Finset ℕ
  list : List Thr
deriving DecidableEq

inductive Ptr
  | block (a : ℕ)
  | region (a : ℕ)
deriving DecidableEq, Repr

/-- An access to a freed struct, a `free` of what is no heap block, the `abort()` of
`threadlist_del`, or a wait for a lock that the waiting thread holds. -/
inductive Fault
  | dangling | invalidFree | abort | deadlock
deriving DecidableEq, Repr

inductive Syscall
  | newthr | mmap | pipe | malloc | clone
deriving DecidableEq, Repr

inductive CallerPc
  | malloc
  | send (newthr : ℕ)
  | suspended (newthr : ℕ)
  | woken (newthr : ℕ)
  | returned (ret : ℤ)
deriving DecidableEq, Repr

/-- `token` counts the wake tokens in the pipe of the caller and `status` is its field of that
name. `request` is the `MSG_CREATE` in the pipe of the manager, `child` the `start_struct` that the
new thread has still to free. -/
structure State where
  res : Resources
  pid : Thr → ℤ
  listLock : Bool
  token : ℕ
  status : ℤ
  request : Option ℕ
  caller : CallerPc
  child : Option ℕ
  fault : Option Fault

structure Answers where
  stack : ℕ
  pipe : ℕ × ℕ
  ss : ℕ
  pid : ℤ
deriving DecidableEq, Repr

def Answers.Fresh (ans : Answers) (r : Resources) : Prop :=
  ans.stack ∉ r.regions ∧ ans.pipe.1 ∉ r.fds ∧ ans.pipe.2 ∉ r.fds ∧ ans.pipe.1 ≠ ans.pipe.2 ∧
    ans.ss ∉ r.blocks ∧ 0 < ans.pid

instance (ans : Answers) (r : Resources) : Decidable (ans.Fresh r) :=
  inferInstanceAs (Decidable (_ ∧ _))

def State.malloc (s : State) (a : ℕ) : State :=
  { s with res := { s.res with blocks := insert a s.res.blocks } }

theorem State.malloc_blocks (s : State) (a : ℕ) : a ∈ (s.malloc a).res.blocks :=
  Finset.mem_insert_self ..

theorem State.malloc_erase (s : State) {a : ℕ} (ha : a ∉ s.res.blocks) :
    { (s.malloc a).res with blocks := (s.malloc a).res.blocks.erase a } = s.res := by
  change { s.res with blocks := (insert a s.res.blocks).erase a } = s.res
  rw [Finset.erase_insert ha]

def State.free (s : State) : Ptr → Except Fault State
  | .block a =>
    if a ∈ s.res.blocks then .ok { s with res := { s.res with blocks := s.res.blocks.erase a } }
    else .error .invalidFree
  | .region _ => .error .invalidFree

def State.mmap (s : State) (a : ℕ) : State :=
  { s with res := { s.res with regions := insert a s.res.regions } }

def State.munmap (s : State) (a : ℕ) : State :=
  { s with res := { s.res with regions := s.res.regions.erase a } }

def State.openPipe (s : State) (p : ℕ × ℕ) : State :=
  { s with res := { s.res with fds := insert p.1 (insert p.2 s.res.fds) } }

def State.closePipe (s : State) (p : ℕ × ℕ) : State :=
  { s with res := { s.res with fds := (s.res.fds.erase p.1).erase p.2 } }

def threadlistLock (s : State) : Except Fault State :=
  if s.listLock then .error .deadlock else .ok { s with listLock := true }

def threadlistUnlock (s : State) : State := { s with listLock := false }

/-- `__errno_location`, through which a failing call stores its error: it looks the manager up. -/
def errnoLocation (s : State) : Except Fault State := do
  let s ← threadlistLock s
  .ok (threadlistUnlock s)

def threadlistAdd (s : State) (t : ℕ) : Except Fault State := do
  let s ← threadlistLock s
  .ok (threadlistUnlock { s with res := { s.res with list := .worker t :: s.res.list } })

def threadlistDel (s : State) (t : ℕ) : Except Fault State := do
  let s ← threadlistLock s
  match Sthread.threadlistDel s.pid (.worker t) s.res.list with
  | none => .error .abort
  | some list => .ok (threadlistUnlock { s with res := { s.res with list := list } })

theorem threadlistDel_eq {s : State} {t : ℕ} {list : List Thr} (hl : s.listLock = false)
    (hdel : Sthread.threadlistDel s.pid (.worker t) s.res.list = some list) :
    threadlistDel s t = .ok { s with res := { s.res with list := list } } := by
  obtain ⟨res, pid, lock, token, status, request, caller, child, fault⟩ := s
  obtain rfl : lock = false := hl
  change (match Sthread.threadlistDel pid (.worker t) res.list with
    | none => Except.error Fault.abort
    | some list => _) = _
  rw [hdel]
  rfl

def createOut (s : State) : State := { s with status := -1 }

def createFreestack (ans : Answers) (s : State) : Except Fault State := do
  let s ← s.free (.region ans.stack)
  .ok (createOut s)

def createClosepipe (ans : Answers) (s : State) : Except Fault State :=
  createFreestack ans (s.closePipe ans.pipe)

def createFreess (ans : Answers) (s : State) : Except Fault State := do
  let s ← s.free (.block ans.ss)
  createClosepipe ans s

def createListdel (ans : Answers) (t : ℕ) (s : State) : Except Fault State := do
  let s ← threadlistDel s t
  createFreess ans s

def cloneThread (fails : Bool) (ans : Answers) (t : ℕ) (s : State) : Except Fault State := do
  let s ← threadlistLock s
  if fails then do
    let s ← errnoLocation s
    .ok (threadlistUnlock { s with pid := Function.update s.pid (.worker t) (-1) })
  else
    .ok (threadlistUnlock { s with
      pid := Function.update s.pid (.worker t) ans.pid
      child := some ans.ss })

def doCreate (fail : Option Syscall) (ans : Answers) (t : ℕ) (s : State) : Except Fault State :=
  -- `t->main = main` and the stores after it
  if t ∉ s.res.blocks then .error .dangling
  else
    let s := { s with status := 0 }
    if fail = some .mmap then do
      let s ← errnoLocation s
      .ok (createOut s)
    else
      let s := s.mmap ans.stack
      if fail = some .pipe then do
        let s ← errnoLocation s
        createFreestack ans s
      else
        let s := s.openPipe ans.pipe
        if fail = some .malloc then do
          let s ← errnoLocation s
          createClosepipe ans s
        else do
          let s ← threadlistAdd (s.malloc ans.ss) t
          let s ← cloneThread (fail = some .clone) ans t s
          if s.pid (.worker t) = -1 then createListdel ans t s else .ok s

def threadDealloc (ans : Answers) (t : ℕ) (s : State) : Except Fault State := do
  let s ← threadlistDel s t
  ((s.munmap ans.stack).closePipe ans.pipe).free (.block t)

def State.settle (s : State) : Except Fault State → State
  | .ok s => s
  | .error e => { s with fault := some e }

/-- `sthread_create`; `a` is where `malloc` would place the struct. -/
def sthreadCreate (fail : Option Syscall) (a : ℕ) (s : State) : Option State :=
  match s.caller with
  | .malloc =>
    if fail = some .newthr then some { s with caller := .returned (-1) }
    else if a ∈ s.res.blocks then none
    else some { s.malloc a with caller := .send a }
  | .send newthr => some { s with request := some newthr, caller := .suspended newthr }
  | .suspended newthr => match s.token with
    | 0 => none
    | n + 1 => some { s with token := n, caller := .woken newthr }
  | .woken newthr =>
    some (if s.status ≠ 0 then
      s.settle ((s.free (.block newthr)).map fun s => { s with caller := .returned s.status })
    else { s with caller := .returned s.status })
  | .returned _ => none

def managerMain (fail : Option Syscall) (ans : Answers) (s : State) : Option State :=
  match s.request with
  | none => none
  | some t =>
    if ans.Fresh s.res then
      some (s.settle ((doCreate fail ans t { s with request := none }).map fun s =>
        { s with token := s.token + 1 }))
    else none

def startThread (s : State) : Option State :=
  s.child.map fun ss => s.settle ((s.free (.block ss)).map fun s => { s with child := none })

inductive Act
  | caller (a : ℕ)
  | manager (ans : Answers)
  | child
deriving DecidableEq, Repr

def next (fail : Option Syscall) (s : State) (act : Act) : Option State :=
  if s.fault.isSome then none
  else match act with
    | .caller a => sthreadCreate fail a s
    | .manager ans => managerMain fail ans s
    | .child => startThread s

/-- A call of `sthread_create` begins while the manager has nothing to do. Which resources there
are, and what the caller's `status` and pipe hold, is open. -/
structure Begins (s : State) : Prop where
  caller : s.caller = .malloc
  request : s.request = none
  child : s.child = none
  listLock : s.listLock = false
  fault : s.fault = none

def Created (r r' : Resources) : Prop :=
  ∃ t stack, ∃ p : ℕ × ℕ, r'.list = .worker t :: r.list ∧
    stack ∉ r.regions ∧ r'.regions = insert stack r.regions ∧
    p.1 ∉ r.fds ∧ p.2 ∉ r.fds ∧ p.1 ≠ p.2 ∧ r'.fds = insert p.1 (insert p.2 r.fds)

def Outcome (fail : Option Syscall) (r r' : Resources) (ret : ℤ) : Prop :=
  if fail = none then ret = 0 ∧ Created r r' else ret = -1 ∧ r' = r

/-- However the caller, the manager and the new thread take turns, nothing is freed that is no heap
block and no freed struct is used, the call can always come to its return, and what it returns is
true of the resources then and later. -/
def LeavesNothing (fail : Option Syscall) (s₀ : State) : Prop :=
  ∀ as u, exec (next fail) as s₀ = some u →
    u.fault = none ∧ (∀ ret, u.caller = .returned ret → Outcome fail s₀.res u.res ret) ∧
      ∃ bs v ret, exec (next fail) bs u = some v ∧ v.caller = .returned ret

end AndroidKernel.Sthread.Creation
