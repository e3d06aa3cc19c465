import AndroidKernel.Mlimit.Tasks

/-! The OOM killer of `hw5/mm/oom_kill.c` with the memory limit: choosing a task, killing it or a
child in its place, and taking its memory off its user. A call either returns, or follows a NULL
pointer, or panics. `log` records what the limit code compares, charges and takes off, and the
victims of `oom_kill_process`. -/

namespace AndroidKernel.Mlimit

inductive Halt
  | oops
  | noKillable
  | panicOnOom
deriving DecidableEq, Repr

inductive Event
  | compare (user : UserPtr) (limit : Long)
  | over (user : UserPtr)
  | charge (user : UserPtr) (amount : Long)
  | debit (user : UserPtr) (amount : Long)
  | kill (victim : Tid) (user : UserPtr) (amount : Long)
deriving DecidableEq, Repr

/-- The variables `user` and `start` of `set_mlimit.c`, the user database and the tasks. -/
structure Sys where
  users : Users
  user : Uid
  start : Bool
  tasks : Tasks
  log : List Event

inductive Constraint
  | none | cpuset | memoryPolicy | memcg
deriving DecidableEq, Repr

/-- What a call of `out_of_memory` finds: what the notifiers freed, the answers of
`constrained_alloc`, its own arguments, and the two settings. -/
structure OomEnv where
  freed : Long
  constraint : Constraint
  totalpages : Long
  nodemask : Option Nodemask
  forceKill : Bool
  panicOnOom : ℕ
  killAllocatingTask : Bool
deriving DecidableEq, Repr

inductive Selected
  | null
  | err
  | task (p : Tid)
deriving DecidableEq, Repr

def Selected.ofOption : Option Tid → Selected
  | none => .null
  | some p => .task p

def Sys.emit (s : Sys) (e : Event) : Sys := { s with log := e :: s.log }

def Sys.setTask (s : Sys) (p : Tid) (f : Task → Task) : Sys :=
  { s with tasks := { s.tasks with task := Function.update s.tasks.task p (f (s.tasks.task p)) } }

def Sys.setMemdie (s : Sys) (p : Tid) : Sys := s.setTask p fun t => { t with memdie := true }

def Sys.sendSigkill (s : Sys) (p : Tid) : Sys :=
  (s.tasks.ring p).foldl (fun s t => s.setTask t fun t => { t with sigkill := true }) s

def Sys.fatalSignalPending (s : Sys) (p : Tid) : Bool := (s.tasks.task p).sigkill

def rssBytes (w : Tasks) (p : Tid) : Long := (w.memory p).rss * PAGE_SIZE

/-- `p->real_cred->user->cumulative_mem -= get_mm_rss(p->mm)*PAGE_SIZE`. -/
def debit (s : Sys) (p : Tid) : Except Halt Sys :=
  let u := (s.tasks.task p).user
  if (s.tasks.task p).mm.isNone then .error .oops
  else .ok ({ s with users := s.users.modify u fun u =>
    { u with cumulativeMem := u.cumulativeMem - rssBytes s.tasks p } }.emit
      (.debit u (rssBytes s.tasks p)))

def selectBadProcess (s : Sys) (current : Tid) (totalpages : Long) (memcg : Option Memcg)
    (nodemask : Option Nodemask) (forceKill : Bool) : Except Halt (Selected × Long × Sys) :=
  if s.user ≠ 0 then
    match findUser s.users (s.tasks.task current).ns s.user with
    -- `printk` reads `this_user->uid`
    | (none, _) => .error .oops
    | (some u, us) =>
      let s := { s with users := us }
      if (us.obj u).memMax ≠ -1 then
        let best := scanUser s.tasks s.user
          (fun p => oomBadness us s.tasks current p memcg nodemask totalpages) s.tasks.processes
        .ok (.ofOption best.1, best.2, s)
      else .ok (.null, 0, s)
  else
    match scanThreads s.tasks current memcg nodemask forceKill
        (fun p => oomBadness s.users s.tasks current p memcg nodemask totalpages)
        s.tasks.threads (none, 0) with
    | none => .ok (.err, 0, s)
    | some best => .ok (.ofOption best.1, best.2, s)

def chooseVictim (s : Sys) (current p : Tid) (memcg : Option Memcg) (nodemask : Option Nodemask)
    (totalpages : Long) : Tid :=
  let w := s.tasks
  let children := (w.ring p).flatMap fun t => (w.task t).children
  let best := children.foldl (fun best c =>
    if (w.task c).mm = (w.task p).mm then best
    else better (fun c => oomBadness s.users w current c memcg nodemask totalpages) best c)
    ((none, 0) : Best)
  best.1.getD p

def killSharers (s : Sys) (victim : Tid) : Sys :=
  s.tasks.processes.foldl (fun r p =>
    let t := s.tasks.task p
    if t.mm = (s.tasks.task victim).mm ∧ t.tgid ≠ (s.tasks.task victim).tgid ∧ ¬ t.kthread ∧
        t.oomScoreAdj ≠ OOM_SCORE_ADJ_MIN then r.sendSigkill p else r) s

def oomKillProcess (s : Sys) (current p : Tid) (memcg : Option Memcg)
    (nodemask : Option Nodemask) (totalpages : Long) : Sys :=
  if (s.tasks.task p).exiting then s.setMemdie p
  else
    match findLockTaskMm s.tasks (chooseVictim s current p memcg nodemask totalpages) with
    | none => s
    | some v =>
      (((killSharers s v).setMemdie v).sendSigkill v).emit
        (.kill v (s.tasks.task v).user (rssBytes s.tasks v))

def checkPanicOnOom (env : OomEnv) (constraint : Constraint) : Except Halt Unit :=
  if env.panicOnOom = 0 then .ok ()
  else if env.panicOnOom ≠ 2 ∧ constraint ≠ .none then .ok ()
  else .error .panicOnOom

def debitIf (guard : Bool) (s : Sys) (p : Tid) : Except Halt Sys :=
  if guard then debit s p else .ok s

def killsCurrent (s : Sys) (current : Tid) (env : OomEnv) : Bool :=
  env.killAllocatingTask && !oomUnkillableTask s.tasks current current none env.nodemask &&
    (s.tasks.task current).mm.isSome

def mpolMask (env : OomEnv) : Option Nodemask :=
  if env.constraint = .memoryPolicy then env.nodemask else none

/-- `out_of_memory`. The task that is killed for its own request is debited after the kill, the
selected one before it, and both only if their uid is the one in `user`. -/
def outOfMemory (s : Sys) (current : Tid) (env : OomEnv) : Except Halt Sys :=
  if 0 < env.freed then .ok s
  else if s.fatalSignalPending current then .ok (s.setMemdie current)
  else do
    checkPanicOnOom env env.constraint
    if killsCurrent s current env then
      let s' := oomKillProcess s current current none env.nodemask env.totalpages
      debitIf ((s'.tasks.task current).uid = s'.user) s' current
    else
      match ← selectBadProcess s current env.totalpages none (mpolMask env) env.forceKill with
      | (.null, _, _) => .error .noKillable
      | (.err, _, s') => .ok s'
      | (.task p, _, s') =>
        let s' ← debitIf ((s'.tasks.task p).uid = s'.user) s' p
        .ok (oomKillProcess s' current p none env.nodemask env.totalpages)

/-- `mem_cgroup_out_of_memory`, which debits whatever user the selected task has. -/
def memCgroupOutOfMemory (s : Sys) (current : Tid) (memcg : Memcg) (limit : Long) (env : OomEnv) :
    Except Halt Sys :=
  if s.fatalSignalPending current then .ok (s.setMemdie current)
  else do
    checkPanicOnOom env .memcg
    match ← selectBadProcess s current limit (some memcg) none false with
    | (.null, _, s') | (.err, _, s') => .ok s'
    | (.task p, _, s') =>
      let s' ← debit s' p
      .ok (oomKillProcess s' current p (some memcg) none limit)

end AndroidKernel.Mlimit
