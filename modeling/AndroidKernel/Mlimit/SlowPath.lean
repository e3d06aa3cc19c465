import AndroidKernel.Mlimit.Arithmetic

/-! `__alloc_pages_nodemask` and `__alloc_pages_slowpath` of `hw5/mm/page_alloc.c` with the
operations on their way that sleep. -/

namespace AndroidKernel.Mlimit
open Lts Outcome
variable {s s' : Sys} {u : UserPtr} {e : AllocEnv}

/-- The bits of a `gfp_t` that the allocator tests; `repeats` is `__GFP_REPEAT`. -/
structure Gfp where
  wait : Bool
  nofail : Bool
  fs : Bool
  noretry : Bool
  repeats : Bool
  nowarn : Bool
  thisnode : Bool
  noKswapd : Bool
deriving DecidableEq, Repr

/-- `gfp_mask &= gfp_allowed_mask`. -/
def Gfp.and (g m : Gfp) : Gfp where
  wait := g.wait && m.wait
  nofail := g.nofail && m.nofail
  fs := g.fs && m.fs
  noretry := g.noretry && m.noretry
  repeats := g.repeats && m.repeats
  nowarn := g.nowarn && m.nowarn
  thisnode := g.thisnode && m.thisnode
  noKswapd := g.noKswapd && m.noKswapd

/-- What can put the caller to sleep: `schedule_timeout_uninterruptible` and `out_of_memory`. -/
inductive Sleep
  | scheduleTimeout
  | outOfMemory (env : OomEnv)
deriving DecidableEq, Repr

def PAGE_ALLOC_COSTLY_ORDER : ℕ := 3

/-- What one pass of `__alloc_pages_slowpath` finds from `rebalance` on: the answers of the
functions that look for a page, the flags of `current` and of the zones, and what the OOM killer
would find. -/
structure Pass where
  freelist : Bool
  noWatermarks : Bool
  highPriority : Bool
  memalloc : Bool
  memdie : Bool
  compacted : Bool
  deferred : Bool
  reclaimed : Bool
  progress : ℕ
  oomDisabled : Bool
  dumpcore : Bool
  zonesFree : Bool
  parallel : Bool
  oom : OomEnv
  suspended : Bool
  compactedLast : Bool
deriving DecidableEq, Repr

/-- The request as the slow path sees it: `lowmem` is `high_zoneidx < ZONE_NORMAL`, `numa` is
`NUMA_BUILD`. -/
structure Request where
  gfp : Gfp
  order : ℕ
  lowmem : Bool
  numa : Bool
deriving DecidableEq, Repr

inductive Verdict
  | page
  | nopage
  | again
deriving DecidableEq, Repr

def shouldAllocRetry (q : Request) (progress pagesReclaimed : ℕ) (suspended : Bool) : Bool :=
  if q.gfp.noretry then false
  else if q.gfp.nofail then true
  else if progress = 0 && suspended then false
  else if q.order ≤ PAGE_ALLOC_COSTLY_ORDER then true
  else q.gfp.repeats && pagesReclaimed < 2 ^ q.order

/-- `__alloc_pages_may_oom`: what sleeps on the way, and whether there is a page. -/
def allocPagesMayOom (q : Request) (x : Pass) : List Sleep × Bool :=
  if !x.zonesFree then ([.scheduleTimeout], false)
  else if x.parallel then ([], true)
  else if !q.gfp.nofail && (q.order > PAGE_ALLOC_COSTLY_ORDER || q.lowmem || q.gfp.thisnode) then
    ([], false)
  else ([.outOfMemory x.oom], false)

def retryPass (q : Request) (x : Pass) (pagesReclaimed : ℕ) : Verdict :=
  if shouldAllocRetry q x.progress pagesReclaimed x.suspended then .again
  else if x.compactedLast then .page
  else .nopage

def oomPass (q : Request) (x : Pass) : List Sleep × Verdict :=
  if x.oomDisabled then ([], .nopage)
  else if x.dumpcore && !q.gfp.nofail then ([], .nopage)
  else
    let (ops, page) := allocPagesMayOom q x
    if page then (ops, .page)
    else if !q.gfp.nofail && (q.order > PAGE_ALLOC_COSTLY_ORDER || q.lowmem) then (ops, .nopage)
    else (ops, .again)

def slowPass (q : Request) (x : Pass) (pagesReclaimed : ℕ) : List Sleep × Verdict :=
  if x.freelist then ([], .page)
  -- `__alloc_pages_high_priority` only comes back without a page if that may fail
  else if x.noWatermarks && (x.highPriority || q.gfp.nofail) then ([], .page)
  else if !q.gfp.wait then ([], .nopage)
  else if x.memalloc then ([], .nopage)
  else if x.memdie && !q.gfp.nofail then ([], .nopage)
  else if x.compacted then ([], .page)
  else if x.deferred && q.gfp.noKswapd then ([], .nopage)
  else if x.reclaimed then ([], .page)
  else if x.progress = 0 && q.gfp.fs && !q.gfp.noretry then oomPass q x
  else ([], retryPass q x (pagesReclaimed + x.progress))

/-- The passes of `__alloc_pages_slowpath`; no answer stands for one that has not ended yet. -/
def slowPasses (q : Request) : List Pass → ℕ → List Sleep × Option Bool
  | [], _ => ([], none)
  | x :: xs, pagesReclaimed => match slowPass q x pagesReclaimed with
    | (ops, .page) => (ops, some true)
    | (ops, .nopage) => (ops, some false)
    | (ops, .again) =>
      let (ops', page) := slowPasses q xs (pagesReclaimed + x.progress)
      (ops ++ ops', page)

def allocPagesSlowpath (q : Request) (xs : List Pass) : List Sleep × Option Bool :=
  if q.order ≥ MAX_ORDER then ([], some false)
  else if q.numa && q.gfp.thisnode && q.gfp.noretry && q.gfp.nowarn then ([], some false)
  else slowPasses q xs 0

/-- One round of `__alloc_pages_nodemask` from `retry_cpuset` on: whether there is a preferred zone,
whether the first attempt finds a page, the passes of the slow path, and whether the allowed nodes
have stayed the same. -/
structure Round where
  zone : Bool
  first : Bool
  passes : List Pass
  sameMems : Bool
deriving DecidableEq, Repr

def allocRound (q : Request) (x : Round) : List Sleep × Option Bool :=
  if !x.zone then ([], some false)
  else if x.first then ([], some true)
  else allocPagesSlowpath q x.passes

def allocRounds (q : Request) : List Round → List Sleep × Option Bool
  | [] => ([], none)
  | x :: xs => match allocRound q x with
    | (ops, some false) =>
      if x.sameMems then (ops, some false)
      else
        let (ops', page) := allocRounds q xs
        (ops ++ ops', page)
    | (ops, page) => (ops, page)

/-- What a call of `__alloc_pages_nodemask` finds on its way: in the limit check, for the process
that the loop has come to, whether the zones can be locked and what the OOM killer finds; then
`gfp_allowed_mask` and the rest of the allocator. -/
structure Surroundings where
  zonesFree : Tid → Bool
  oom : Tid → OomEnv
  allowed : Gfp
  shouldFail : Bool
  emptyZonelist : Bool
  lowmem : Bool
  numa : Bool
  rounds : List Round

def Surroundings.allocate (x : Surroundings) (gfp : Gfp) (order : ℕ) : List Sleep × Option Bool :=
  if x.shouldFail || x.emptyZonelist then ([], some false)
  else allocRounds ⟨gfp.and x.allowed, order, x.lowmem, x.numa⟩ x.rounds

def Sleep.oom? : Sleep → Option OomEnv
  | .scheduleTimeout => none
  | .outOfMemory env => some env

def Surroundings.env (x : Surroundings) (current : Tid) (gfp : Gfp) (order : ℕ) : AllocEnv where
  current := current
  order := order
  zonesFree := x.zonesFree
  oom := x.oom
  slow := (x.allocate gfp order).1.filterMap Sleep.oom?
  page := (x.allocate gfp order).2 = some true

def limitRun (u : UserPtr) (e : AllocEnv) :
    List Tid → Sys → List Sleep × Except Halt (Sys × Bool)
  | [], s => ([], .ok (s, false))
  | p :: ps, s =>
    if (s.tasks.task p).uid = s.user then
      let r := s.emit (.compare u (s.users.obj u).memMax)
      if overLimit (s.users.obj u) e.order then
        if e.zonesFree p then
          match outOfMemory (r.emit (.over u)) e.current (e.oom p) with
          | .error h => ([.outOfMemory (e.oom p)], .error h)
          | .ok r => ((limitRun u e ps r).1.cons (.outOfMemory (e.oom p)), (limitRun u e ps r).2)
        else ([.scheduleTimeout], .ok (r.emit (.over u), true))
      else limitRun u e ps (charge r u (required e.order))
    else limitRun u e ps s

def limitCheckRun (s : Sys) (e : AllocEnv) : List Sleep × Except Halt (Sys × Bool) :=
  if s.start = true ∧ s.user ≠ 0 then
    match findUser s.users (s.tasks.task e.current).ns s.user with
    | (none, _) => ([], .ok (s, false))
    | (some u, us) =>
      let s := { s with users := us }
      if (us.obj u).memMax ≠ -1 then limitRun u e s.tasks.processes s else ([], .ok (s, false))
  else ([], .ok (s, false))

theorem limitRun_snd (u : UserPtr) (e : AllocEnv) (ps : List Tid) (s : Sys) :
    (limitRun u e ps s).2 = limitLoop u e ps s := by
  induction ps generalizing s with
  | nil => rfl
  | cons p ps ih =>
    unfold limitRun limitLoop
    split
    · split
      · split
        · dsimp only
          cases outOfMemory ((s.emit (.compare u (s.users.obj u).memMax)).emit (.over u))
            e.current (e.oom p) with
          | error h => rfl
          | ok r => exact ih r
        · rfl
      · exact ih _
    · exact ih s

theorem limitCheckRun_snd (s : Sys) (e : AllocEnv) :
    (limitCheckRun s e).2 = limitCheck s e := by
  unfold limitCheckRun limitCheck
  split
  · cases findUser s.users (s.tasks.task e.current).ns s.user with
    | mk found us =>
      cases found with
      | none => rfl
      | some u =>
        dsimp only
        split
        · exact limitRun_snd ..
        · rfl
  · rfl

def Surroundings.sleeps (x : Surroundings) (s : Sys) (current : Tid) (gfp : Gfp) (order : ℕ) :
    List Sleep :=
  match limitCheckRun s (x.env current gfp order) with
  | (ops, .ok (_, false)) => ops ++ (x.allocate gfp order).1
  | (ops, _) => ops

end AndroidKernel.Mlimit
