import AndroidKernel.Mlimit.Users

/-! The tasks as the OOM killer of `hw5/mm/oom_kill.c` sees them, and its scoring. `processes` is
the list that `for_each_process` walks; a thread group is a ring, so that `while_each_thread` from
a task visits the task itself and then its siblings. Memory control groups, node masks and cpusets
are only asked whether a task is concerned. -/

namespace AndroidKernel.Mlimit

abbrev Tid := ℕ

abbrev MmPtr := ℕ

abbrev Memcg := ℕ

abbrev Nodemask := ℕ

def PAGE_SIZE : Long := 4096

def OOM_SCORE_ADJ_MIN : Long := -1000

structure Mm where
  rss : Long
  nrPtes : Long
  swapents : Long
deriving DecidableEq, Repr

/-- `uid` and `user` are those of `real_cred`, `ns` is the namespace in which the task looks up
users. `traceExit` is the flag `PT_TRACE_EXIT` of the group leader, `sigkill` a pending SIGKILL. -/
structure Task where
  uid : Uid
  user : UserPtr
  ns : Ns
  tgid : Tid
  mm : Option MmPtr
  exiting : Bool
  kthread : Bool
  exitState : Bool
  memdie : Bool
  sigkill : Bool
  oomScoreAdj : Long
  sysAdmin : Bool
  traceExit : Bool
  children : List Tid
deriving DecidableEq, Repr

structure Tasks where
  task : Tid → Task
  mm : MmPtr → Mm
  processes : List Tid
  siblings : Tid → List Tid
  inMemcg : Tid → Memcg → Bool
  mempolicyIntersects : Tid → Nodemask → Bool
  cpusetIntersects : Tid → Tid → Bool

def Tasks.ring (w : Tasks) (p : Tid) : List Tid := p :: w.siblings p

def Tasks.threads (w : Tasks) : List Tid := w.processes.flatMap w.ring

def hasIntersectsMemsAllowed (w : Tasks) (current p : Tid) (mask : Option Nodemask) : Bool :=
  (w.ring p).any fun t => match mask with
    | some m => w.mempolicyIntersects t m
    | none => w.cpusetIntersects current t

def findLockTaskMm (w : Tasks) (p : Tid) : Option Tid :=
  (w.ring p).find? fun t => (w.task t).mm.isSome

def oomUnkillableTask (w : Tasks) (current p : Tid) (memcg : Option Memcg)
    (nodemask : Option Nodemask) : Bool :=
  p == 1 || (w.task p).kthread || (memcg.any fun g => !w.inMemcg p g) ||
    !hasIntersectsMemsAllowed w current p nodemask

def Tasks.memory (w : Tasks) (p : Tid) : Mm := ((w.task p).mm.map w.mm).getD ⟨0, 0, 0⟩

/-- The proportion of memory in use, in thousandths. The division is one of `unsigned long`. -/
def proportion (mm : Mm) (totalpages : Long) : Long :=
  (mm.rss + mm.nrPtes + mm.swapents) * 1000 / totalpages

/-- The end of `oom_badness`: an eligible task scores from 1 to 1000. -/
def clampPoints (points : Long) : Long :=
  if points.sle 0 then 1 else if points.slt 1000 then points else 1000

def badnessWith (points : Tid → Long → Long) (w : Tasks) (current p : Tid)
    (memcg : Option Memcg) (nodemask : Option Nodemask) (totalpages : Long) : Long :=
  if oomUnkillableTask w current p memcg nodemask then 0
  else match findLockTaskMm w p with
    | none => 0
    | some t =>
      if (w.task t).oomScoreAdj = OOM_SCORE_ADJ_MIN then 0
      else clampPoints (points t (if totalpages = 0 then 1 else totalpages))

def Ineligible (w : Tasks) (current p : Tid) (memcg : Option Memcg)
    (nodemask : Option Nodemask) : Prop :=
  oomUnkillableTask w current p memcg nodemask = true ∨ findLockTaskMm w p = none ∨
    ∃ t, findLockTaskMm w p = some t ∧ (w.task t).oomScoreAdj = OOM_SCORE_ADJ_MIN

theorem badnessWith_of_ineligible {w : Tasks} {current p : Tid} {memcg : Option Memcg}
    {nodemask : Option Nodemask} (h : Ineligible w current p memcg nodemask)
    (points : Tid → Long → Long) (totalpages : Long) :
    badnessWith points w current p memcg nodemask totalpages = 0 := by
  unfold badnessWith
  rcases h with hun | hnone | ⟨t, ht, hadj⟩
  · rw [if_pos hun]
  · rw [hnone]
    split
    · rfl
    · rfl
  · rw [ht]
    dsimp only
    rw [if_pos hadj]
    split
    · rfl
    · rfl

def bonus (t : Task) (points : Long) : Long := if t.sysAdmin then points - 30 else points

/-- The score of `oom_badness`: the user of a task with a limit is scored by `rss` alone. -/
def limitPoints (us : Users) (w : Tasks) (t : Tid) (totalpages : Long) : Long :=
  if (us.obj (w.task t).user).memMax ≠ -1 then bonus (w.task t) (w.memory t).rss
  else bonus (w.task t) (proportion (w.memory t) totalpages) + (w.task t).oomScoreAdj

def unpatchedPoints (w : Tasks) (t : Tid) (totalpages : Long) : Long :=
  bonus (w.task t) (proportion (w.memory t) totalpages) + (w.task t).oomScoreAdj

def oomBadness (us : Users) (w : Tasks) : Tid → Tid → Option Memcg → Option Nodemask → Long →
    Long := badnessWith (limitPoints us w) w

def unpatchedBadness (w : Tasks) : Tid → Tid → Option Memcg → Option Nodemask → Long → Long :=
  badnessWith (unpatchedPoints w) w

abbrev Best := Option Tid × Long

/-- `if (points > *ppoints)`, a comparison of `unsigned int`. -/
def better (score : Tid → Long) (best : Best) (p : Tid) : Best :=
  if best.2 < score p then (some p, score p) else best

def scanUser (w : Tasks) (user : Uid) (score : Tid → Long) (ps : List Tid) : Best :=
  ps.foldl (fun best p => if (w.task p).uid = user then better score best p else best) (none, 0)

/-- The loop over all threads; no answer stands for `ERR_PTR(-1UL)`. -/
def scanThreads (w : Tasks) (current : Tid) (memcg : Option Memcg) (nodemask : Option Nodemask)
    (forceKill : Bool) (score : Tid → Long) : List Tid → Best → Option Best
  | [], best => some best
  | p :: ps, best =>
    let t := w.task p
    if t.exitState || oomUnkillableTask w current p memcg nodemask then
      scanThreads w current memcg nodemask forceKill score ps best
    else if t.memdie && !forceKill then none
    else if t.mm.isNone then scanThreads w current memcg nodemask forceKill score ps best
    else if t.exiting && p != current && !forceKill && !t.traceExit then none
    else
      let best := if t.exiting && p == current then (some p, 1000) else best
      scanThreads w current memcg nodemask forceKill score ps (better score best p)

def plainTask (p : Tid) (uid : Uid) (user : UserPtr) : Task where
  uid := uid
  user := user
  ns := initUserNs
  tgid := p
  mm := some p
  exiting := false
  kthread := false
  exitState := false
  memdie := false
  sigkill := false
  oomScoreAdj := 0
  sysAdmin := false
  traceExit := false
  children := []

def plainTasks (processes : List Tid) (task : Tid → Task) (rss : Tid → Long) : Tasks where
  task := task
  mm := fun p => ⟨rss p, 0, 0⟩
  processes := processes
  siblings := fun _ => []
  inMemcg := fun _ _ => true
  mempolicyIntersects := fun _ _ => true
  cpusetIntersects := fun _ _ => true

end AndroidKernel.Mlimit
