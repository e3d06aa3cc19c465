import AndroidKernel.Lib.Runs
import AndroidKernel.Sync.Semaphore

/-! The thread library of `hw3/sthread.c` under the semaphores of `hw3/sync.c`: client threads that
call the semaphores and `sthread_create`, and the manager thread that serves the creations. A
section under `list_lock`, and one under `flag`, is one step. A pipe holds the nine-byte wake
tokens written to it, with the reason each was written. Threads do not exit here, and the stores
to `errno` are left out. -/

namespace AndroidKernel.Sthread
open Sync

/-- A `struct sthread_struct`, and with it the thread that runs on it. -/
inductive Thr
  | main
  | manager
  | worker (a : Addr)
deriving DecidableEq, Repr

inductive Token (κ : Type)
  | sem (k : κ)
  | reply
deriving DecidableEq, Repr

inductive Stage
  | mmap | pipe | malloc | add | clone | listdel | wake
deriving DecidableEq, Repr

inductive ManagerPc
  | read
  | create (stage : Stage) (caller thread : Thr)
deriving DecidableEq, Repr

/-- Where a client is: in a semaphore call on `k`, or in `sthread_create`. `self` is what
`sthread_self()` answered earlier in the call. -/
inductive Pc (κ : Type)
  | idle
  | spin (op : Op) (k : κ)
  | body (op : Op) (k : κ)
  | unlock (k : κ) (after : After Thr)
  | after (k : κ) (after : After Thr)
  | suspended (k : κ) (self : Thr)
  | woken (k : κ)
  | malloc (self : Thr)
  | send (self newthr : Thr)
  | awaitReply (self newthr : Thr)
  | replied (self newthr : Thr)
deriving DecidableEq, Repr

/-- The fields `pid` and `status` of every struct, the list from `list_hd`, and the kernel's view:
the pid of each running thread, and all pids in use. -/
structure State (κ : Type) where
  flag : Bool
  sem : κ → Sem
  heap : LinkedList.Heap Addr Thr
  allocated : Finset Thr
  list : List Thr
  pid : Thr → ℤ
  status : Thr → ℤ
  running : Thr → Option ℤ
  pids : Finset ℤ
  pipe : Thr → List (Token κ)
  msgs : List (Thr × Thr)
  manager : ManagerPc
  pc : Thr → Pc κ

/-- `malloc` in `sthread_create` fails, or answers a block that still has `pid` at the place of
that field. In a step of the manager `ok` tells whether its system call succeeds. -/
inductive Act (κ : Type)
  | call (t : Thr) (op : Op) (k : κ)
  | create (t : Thr)
  | malloc (t : Thr) (block : Option (Addr × ℤ))
  | step (t : Thr) (a : Addr)
  | manage (ok : Bool) (pid : ℤ)

variable {κ : Type}

def threadlistFindbypid (pid : Thr → ℤ) (p : ℤ) (list : List Thr) : Option Thr :=
  list.find? (pid · = p)

/-- `abort()` answers `none`. -/
def threadlistDel (pid : Thr → ℤ) (t : Thr) : List Thr → Option (List Thr)
  | [] => none
  | x :: xs =>
    if x = .manager then none
    else if pid x = pid t then some xs
    else (threadlistDel pid t xs).map (x :: ·)

/-- The deletion goes by pid; it takes off `t` if nobody before the manager shares its pid. -/
theorem threadlistDel_eq_erase {pid : Thr → ℤ} {t : Thr} {xs rest : List Thr} (ht : t ∈ xs)
    (hm : ∀ x ∈ xs, x ≠ .manager) (hp : ∀ x ∈ xs, pid x = pid t → x = t) :
    threadlistDel pid t (xs ++ rest) = some (xs.erase t ++ rest) := by
  induction xs with
  | nil => cases ht
  | cons x xs ih =>
    have hx := hm x (List.mem_cons_self ..)
    simp only [List.cons_append, threadlistDel, if_neg hx]
    by_cases hxt : x = t
    · simp [hxt]
    · have hne : pid x ≠ pid t := fun he => hxt (hp x (List.mem_cons_self ..) he)
      have ht' : t ∈ xs := (List.mem_cons.mp ht).resolve_left (Ne.symm hxt)
      rw [if_neg hne, ih ht' (fun y hy => hm y (List.mem_cons_of_mem _ hy))
        fun y hy => hp y (List.mem_cons_of_mem _ hy), List.erase_cons_tail (by simpa using hxt)]
      rfl

def State.cell (s : State κ) (k : κ) : Cell Thr := ⟨s.sem k, s.heap⟩

def State.sthreadSelf (s : State κ) (t : Thr) : Option Thr :=
  (s.running t).bind fun p => threadlistFindbypid s.pid p s.list

def State.goto (s : State κ) (t : Thr) (pc : Pc κ) : State κ :=
  { s with pc := Function.update s.pc t pc }

def State.sthreadWake (s : State κ) (t : Thr) (why : Token κ) : State κ :=
  { s with pipe := Function.update s.pipe t (s.pipe t ++ [why]) }

def State.createOut (s : State κ) (caller t : Thr) : State κ :=
  { s with status := Function.update s.status caller (-1), manager := .create .wake caller t }

def doCreate (s : State κ) (caller t : Thr) (ok : Bool) (p : ℤ) : Stage → Option (State κ)
  | .mmap =>
    let s := { s with status := Function.update (Function.update s.status caller 0) t 0 }
    some (if ok then { s with manager := .create .pipe caller t } else s.createOut caller t)
  | .pipe =>
    some (if ok then
      { s with pipe := Function.update s.pipe t [], manager := .create .malloc caller t }
    else s.createOut caller t)
  | .malloc =>
    some (if ok then { s with manager := .create .add caller t } else s.createOut caller t)
  -- `t->pid` is not yet assigned here
  | .add => some { s with list := t :: s.list, manager := .create .clone caller t }
  | .clone =>
    if ok then
      if 0 < p ∧ p ∉ s.pids then
        some { s with
          pid := Function.update s.pid t p
          running := Function.update s.running t (some p)
          pids := insert p s.pids
          manager := .create .wake caller t }
      else none
    else some { s with pid := Function.update s.pid t (-1), manager := .create .listdel caller t }
  | .listdel =>
    (threadlistDel s.pid t s.list).map fun list => { s with list := list }.createOut caller t
  | .wake => some { s.sthreadWake caller .reply with manager := .read }

def managerMain (s : State κ) (ok : Bool) (p : ℤ) : Option (State κ) :=
  match s.manager with
  | .read => match s.msgs with
    | [] => none
    | (caller, t) :: msgs => some { s with msgs := msgs, manager := .create .mmap caller t }
  | .create stage caller t => doCreate s caller t ok p stage

variable [DecidableEq κ]

def State.selfSuspend (s : State κ) (self : Thr) : Option (State κ) :=
  match s.pipe self with
  | [] => none
  | _ :: rest => some { s with pipe := Function.update s.pipe self rest }

def threadStep (s : State κ) (t : Thr) (a : Addr) : Pc κ → Option (State κ)
  | .idle => none
  | .spin op k => some (if s.flag then s else { s.goto t (.body op k) with flag := true })
  | .body op k =>
    if (s.heap a).isSome then none
    else do
      -- evaluated by a `down` that enqueues; every running thread is on the list and gets an answer
      let self ← s.sthreadSelf t
      let (c, e) ← crit op self a (s.cell k)
      some { s.goto t (.unlock k e.after) with
        sem := Function.update s.sem k c.sem, heap := c.heap }
  | .unlock k after => some { s.goto t (.after k after) with flag := false }
  | .after _ .ret => some (s.goto t .idle)
  | .after k .suspend => do
    let self ← s.sthreadSelf t
    some (s.goto t (.suspended k self))
  | .after k (.wake w) => some ((s.sthreadWake w (.sem k)).goto t .idle)
  | .suspended k self => do
    let s ← s.selfSuspend self
    some (s.goto t (.woken k))
  | .woken _ => some (s.goto t .idle)
  | .malloc _ => none
  | .send self newthr =>
    some { s.goto t (.awaitReply self newthr) with msgs := s.msgs ++ [(self, newthr)] }
  | .awaitReply self newthr => do
    let s ← s.selfSuspend self
    some (s.goto t (.replied self newthr))
  | .replied self newthr =>
    some (if s.status self ≠ 0 then
      { s.goto t .idle with allocated := s.allocated.erase newthr }
    else s.goto t .idle)

def next (s : State κ) : Act κ → Option (State κ)
  | .call t op k =>
    if (s.running t).isSome ∧ t ≠ .manager ∧ s.pc t = .idle then some (s.goto t (.spin op k))
    else none
  | .create t =>
    if (s.running t).isSome ∧ t ≠ .manager ∧ s.pc t = .idle then do
      let self ← s.sthreadSelf t
      some (s.goto t (.malloc self))
    else none
  | .malloc t block => match s.pc t with
    | .malloc self => match block with
      | none => some (s.goto t .idle)
      | some (a, p) =>
        if .worker a ∈ s.allocated then none
        else some { s.goto t (.send self (.worker a)) with
          allocated := insert (.worker a) s.allocated
          pid := Function.update s.pid (.worker a) p }
    | _ => none
  | .step t a => threadStep s t a (s.pc t)
  | .manage ok p => managerMain s ok p

/-- After `sthread_init` by a process whose main and manager thread have these pids, with the
semaphores initialised. -/
def start (count : κ → ℤ) (mainPid managerPid : ℤ) : State κ where
  flag := false
  sem := fun k => (sthreadSemInit (count k) ⟨⟨0, 0, none, none⟩, fun _ : Addr => none⟩ :
    Cell Thr × ℤ).1.sem
  heap := fun _ => none
  allocated := {.main, .manager}
  list := [.manager, .main]
  pid := fun t => if t = .main then mainPid else if t = .manager then managerPid else 0
  status := fun _ => 0
  running := fun t =>
    if t = .main then some mainPid else if t = .manager then some managerPid else none
  pids := {mainPid, managerPid}
  pipe := fun _ => []
  msgs := []
  manager := .read
  pc := fun _ => .idle

end AndroidKernel.Sthread
