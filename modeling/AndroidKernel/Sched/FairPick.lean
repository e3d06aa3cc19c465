import AndroidKernel.Sched.Runqueue

/-! `pick_next_task_fair` of `hw4/kernel/sched/fair.c` with everything that it writes. The
red-black tree of a `cfs_rq` is the list of its entities, leftmost first, and entities and
`cfs_rq`s are named by their addresses. The loops over the group hierarchy carry a bound on its
depth. An access through `NULL` answers `none`. -/

namespace AndroidKernel.Sched

abbrev Eid := ℕ

abbrev Qid := ℕ

structure LoadWeight where
  weight : ℕ
  invWeight : ℕ
deriving DecidableEq, Repr

structure Statistics where
  waitStart : BitVec 64
  waitMax : BitVec 64
  waitCount : BitVec 64
  waitSum : BitVec 64
  sliceMax : BitVec 64
deriving DecidableEq, Repr

/-- `struct sched_entity`; `task` is what `task_of` answers. -/
structure SchedEntity where
  load : LoadWeight
  onRq : Bool
  vruntime : BitVec 64
  execStart : BitVec 64
  sumExecRuntime : BitVec 64
  prevSumExecRuntime : BitVec 64
  statistics : Statistics
  parent : Option Eid
  cfsRq : Qid
  myQ : Option Qid
  task : Tid
deriving DecidableEq, Repr

inductive Buddy
  | last | next | skip
deriving DecidableEq, Repr

structure CfsRq where
  nrRunning : ℕ
  timeline : List Eid
  curr : Option Eid
  buddy : Buddy → Option Eid

structure CpuRq where
  rq : Rq
  cfs : Qid
  cfsRq : Qid → CfsRq
  se : Eid → SchedEntity
  clock : BitVec 64
  clockTask : BitVec 64
  loadWeight : ℕ

/-- What the build and `sysctl` settle: the wakeup granularity, `CONFIG_SCHEDSTATS`, the depth of
the group hierarchy, and what `hrtick_start_fair` does where the feature is on. -/
structure FairConfig where
  wakeupGranularity : ℕ
  schedstats : Bool
  depth : ℕ
  hrtick : CpuRq → Tid → CpuRq

def CpuRq.modifySe (s : CpuRq) (se : Eid) (f : SchedEntity → SchedEntity) : CpuRq :=
  { s with se := Function.update s.se se (f (s.se se)) }

def CpuRq.modifyCfs (s : CpuRq) (c : Qid) (f : CfsRq → CfsRq) : CpuRq :=
  { s with cfsRq := Function.update s.cfsRq c (f (s.cfsRq c)) }

theorem CpuRq.modifySe_self (s : CpuRq) (se : Eid) (f : SchedEntity → SchedEntity) :
    (s.modifySe se f).se se = f (s.se se) := Function.update_self ..

theorem CpuRq.modifySe_of_ne (s : CpuRq) {se e : Eid} (f : SchedEntity → SchedEntity)
    (h : e ≠ se) : (s.modifySe se f).se e = s.se e := Function.update_of_ne h ..

theorem CpuRq.modifyCfs_self (s : CpuRq) (c : Qid) (f : CfsRq → CfsRq) :
    (s.modifyCfs c f).cfsRq c = f (s.cfsRq c) := Function.update_self ..

theorem CpuRq.modifyCfs_of_ne (s : CpuRq) {c d : Qid} (f : CfsRq → CfsRq) (h : d ≠ c) :
    (s.modifyCfs c f).cfsRq d = s.cfsRq d := Function.update_of_ne h ..

def NICE_0_LOAD : ℕ := 1024

def WMULT_CONST : ℕ := 2 ^ 32 - 1

def LONG_MAX : ℕ := 2 ^ 31 - 1

def srr (x y : ℕ) : ℕ := (x + 2 ^ (y - 1)) % 2 ^ 64 / 2 ^ y

/-- `calc_delta_mine` where `long` has 32 bits. It leaves the inverse of the weight behind. -/
def calcDeltaMine (deltaExec weight : ℕ) (lw : LoadWeight) : ℕ × LoadWeight :=
  let tmp := if weight > 1 then deltaExec * weight % 2 ^ 64 else deltaExec
  let inv :=
    if lw.invWeight = 0 then if lw.weight = 0 then WMULT_CONST else WMULT_CONST / lw.weight
    else lw.invWeight
  let tmp :=
    if tmp > WMULT_CONST then srr (srr tmp 16 * inv % 2 ^ 64) 16 else srr (tmp * inv % 2 ^ 64) 32
  (min tmp LONG_MAX, { lw with invWeight := inv })

def calcDeltaFair (delta : ℕ) (lw : LoadWeight) : ℕ × LoadWeight :=
  if lw.weight ≠ NICE_0_LOAD then calcDeltaMine delta NICE_0_LOAD lw else (delta, lw)

def wakeupPreemptEntity (cfg : FairConfig) (s : CpuRq) (curr se : Eid) : ℤ × CpuRq :=
  let vdiff := ((s.se curr).vruntime - (s.se se).vruntime).toInt
  if vdiff ≤ 0 then (-1, s)
  else
    let (gran, load) := calcDeltaFair cfg.wakeupGranularity (s.se se).load
    (if vdiff > gran then 1 else 0, s.modifySe se fun e => { e with load := load })

def clearBuddy (b : Buddy) : ℕ → Option Eid → CpuRq → Option CpuRq
  | _, none, s => some s
  | 0, some _, _ => none
  | n + 1, some se, s =>
    let c := (s.se se).cfsRq
    if (s.cfsRq c).buddy b = some se then
      clearBuddy b n (s.se se).parent
        (s.modifyCfs c fun q => { q with buddy := Function.update q.buddy b none })
    else some s

def clearBuddiesLast (n : ℕ) (se : Eid) (s : CpuRq) : Option CpuRq := clearBuddy .last n (some se) s

def clearBuddiesNext (n : ℕ) (se : Eid) (s : CpuRq) : Option CpuRq := clearBuddy .next n (some se) s

def clearBuddiesSkip (n : ℕ) (se : Eid) (s : CpuRq) : Option CpuRq := clearBuddy .skip n (some se) s

def clearBuddies (n : ℕ) (s : CpuRq) (c : Qid) (se : Eid) : Option CpuRq :=
  (if (s.cfsRq c).buddy .last = some se then clearBuddiesLast n se s else some s).bind fun s =>
  (if (s.cfsRq c).buddy .next = some se then clearBuddiesNext n se s else some s).bind fun s =>
  if (s.cfsRq c).buddy .skip = some se then clearBuddiesSkip n se s else some s

/-- Take the buddy instead of `se`, if there is one and that is not unfair to the leftmost. -/
def preferBuddy (cfg : FairConfig) (s : CpuRq) (left : Eid) (buddy : Option Eid) (se : Eid) :
    Eid × CpuRq :=
  match buddy with
  | none => (se, s)
  | some b =>
    let (w, s) := wakeupPreemptEntity cfg s b left
    (if w < 1 then b else se, s)

/-- The first choice of `pick_next_entity`: the leftmost entity, or the one that follows it where
the leftmost is to be skipped. -/
def firstEntity (cfg : FairConfig) (s : CpuRq) (c : Qid) (left : Eid) : Eid × CpuRq :=
  if (s.cfsRq c).buddy .skip = some left then
    preferBuddy cfg s left (s.cfsRq c).timeline.tail.head? left
  else (left, s)

def chooseEntity (cfg : FairConfig) (s : CpuRq) (c : Qid) (left : Eid) : Eid × CpuRq :=
  let (se, s) := firstEntity cfg s c left
  let (se, s) := preferBuddy cfg s left ((s.cfsRq c).buddy .last) se
  preferBuddy cfg s left ((s.cfsRq c).buddy .next) se

def pickNextEntity (cfg : FairConfig) (s : CpuRq) (c : Qid) : Option (Eid × CpuRq) := do
  let left ← (s.cfsRq c).timeline.head?
  let (se, s) := chooseEntity cfg s c left
  let s ← clearBuddies cfg.depth s c se
  some (se, s)

def updateStatsWaitEnd (cfg : FairConfig) (clock : BitVec 64) (e : SchedEntity) : SchedEntity :=
  if cfg.schedstats then
    let st := e.statistics
    let waited := clock - st.waitStart
    { e with statistics := { st with
      waitMax := if st.waitMax < waited then waited else st.waitMax
      waitCount := st.waitCount + 1
      waitSum := st.waitSum + waited
      waitStart := 0 } }
  else e

def updateStatsCurrStart (clockTask : BitVec 64) (e : SchedEntity) : SchedEntity :=
  { e with execStart := clockTask }

/-- The longest slice, kept while the load is at least twice the entity's own. -/
def updateSliceMax (cfg : FairConfig) (loadWeight : ℕ) (e : SchedEntity) : SchedEntity :=
  if cfg.schedstats ∧ loadWeight ≥ 2 * e.load.weight % 2 ^ 32 then
    let ran := e.sumExecRuntime - e.prevSumExecRuntime
    { e with statistics := { e.statistics with
      sliceMax := if e.statistics.sliceMax < ran then ran else e.statistics.sliceMax } }
  else e

def setNextEntity (cfg : FairConfig) (s : CpuRq) (c : Qid) (se : Eid) : CpuRq :=
  let s :=
    if (s.se se).onRq then
      (s.modifySe se (updateStatsWaitEnd cfg s.clock)).modifyCfs c fun q =>
        { q with timeline := q.timeline.erase se }
    else s
  let s := s.modifySe se (updateStatsCurrStart s.clockTask)
  let s := s.modifyCfs c fun q => { q with curr := some se }
  let s := s.modifySe se (updateSliceMax cfg s.loadWeight)
  s.modifySe se fun e => { e with prevSumExecRuntime := e.sumExecRuntime }

/-- The loop of `pick_next_task_fair`, from the root of the hierarchy down to a task. -/
def pickTask (cfg : FairConfig) : ℕ → CpuRq → Qid → Option (Eid × CpuRq)
  | 0, _, _ => none
  | n + 1, s, c => do
    let (se, s) ← pickNextEntity cfg s c
    let s := setNextEntity cfg s c se
    match (s.se se).myQ with
    | none => some (se, s)
    | some c => pickTask cfg n s c

def pickNextTaskFair (cfg : FairConfig) (s : CpuRq) : Option (Option Tid × CpuRq) :=
  if (s.cfsRq s.cfs).nrRunning = 0 then some (none, s)
  else do
    let (se, s) ← pickTask cfg cfg.depth s s.cfs
    let p := (s.se se).task
    some (some p, cfg.hrtick s p)

end AndroidKernel.Sched
