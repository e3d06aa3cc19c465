import AndroidKernel.Mlimit.Oom

/-! The system call `set_mlimit` and the limit check in `__alloc_pages_nodemask`. The check goes
over the processes of the user in `user`, whoever allocates, and then falls through to the
ordinary allocator, of which only the calls of `out_of_memory` in its slow path and the answer are
kept. -/

namespace AndroidKernel.Mlimit
open Lts

/-- The loop of `set_mlimit`; no answer stands for a process without memory. -/
def sumRss (w : Tasks) (uid : Uid) : List Tid → Long → Option Long
  | [], sum => some sum
  | p :: ps, sum =>
    if (w.task p).uid = uid then
      if (w.task p).mm.isNone then none else sumRss w uid ps (sum + rssBytes w p)
    else sumRss w uid ps sum

def setMlimit (s : Sys) (ns : Ns) (uid : Uid) (memMax : Long) : Except Halt (Sys × Long) :=
  match findUser s.users ns uid with
  | (none, _) => .error .oops
  | (some u, us) =>
    match sumRss s.tasks uid s.tasks.processes (us.obj u).cumulativeMem with
    | none => .error .oops
    | some sum =>
      .ok ({ s with
        users := us.modify u fun u => { u with cumulativeMem := sum, memMax := memMax }
        user := uid
        start := true }, sum)

def required (order : ℕ) : Long := ((1 : Long) <<< order) * PAGE_SIZE

/-- The test of the limit: `long` operands are converted to `unsigned long`. -/
def overLimit (u : User) (order : ℕ) : Bool := u.memMax < u.cumulativeMem + required order

/-- A call of `__alloc_pages_nodemask`: who calls, the order, for the process that the loop has
come to whether the zones can be locked and what `out_of_memory` finds, and then the calls of
`out_of_memory` from the slow path and whether there is a page. -/
structure AllocEnv where
  current : Tid
  order : ℕ
  zonesFree : Tid → Bool
  oom : Tid → OomEnv
  slow : List OomEnv
  page : Bool

def charge (s : Sys) (u : UserPtr) (amount : Long) : Sys :=
  { s with users := s.users.modify u fun u =>
    { u with cumulativeMem := u.cumulativeMem + amount } }.emit (.charge u amount)

/-- The loop of the limit check; the answer `true` is `return NULL`. -/
def limitLoop (u : UserPtr) (e : AllocEnv) : List Tid → Sys → Except Halt (Sys × Bool)
  | [], s => .ok (s, false)
  | p :: ps, s =>
    if (s.tasks.task p).uid = s.user then
      let r := s.emit (.compare u (s.users.obj u).memMax)
      if overLimit (s.users.obj u) e.order then
        if e.zonesFree p then do
          let r ← outOfMemory (r.emit (.over u)) e.current (e.oom p)
          limitLoop u e ps r
        else .ok (r.emit (.over u), true)
      else limitLoop u e ps (charge r u (required e.order))
    else limitLoop u e ps s

def limitCheck (s : Sys) (e : AllocEnv) : Except Halt (Sys × Bool) :=
  if s.start = true ∧ s.user ≠ 0 then
    match findUser s.users (s.tasks.task e.current).ns s.user with
    | (none, _) => .ok (s, false)
    | (some u, us) =>
      let s := { s with users := us }
      if (us.obj u).memMax ≠ -1 then limitLoop u e s.tasks.processes s else .ok (s, false)
  else .ok (s, false)

def slowPath (current : Tid) : List OomEnv → Sys → Except Halt Sys
  | [], s => .ok s
  | env :: envs, s => do
    let s ← outOfMemory s current env
    slowPath current envs s

/-- `__alloc_pages_nodemask`; the answer is whether it returned a page. -/
def allocPagesNodemask (s : Sys) (e : AllocEnv) : Except Halt (Sys × Bool) := do
  let (s, refused) ← limitCheck s e
  if refused then .ok (s, false)
  else do
    let s ← slowPath e.current e.slow s
    .ok (s, e.page)

inductive Call
  | setMlimit (ns : Ns) (uid : Uid) (memMax : Long)
  | alloc (e : AllocEnv)
  | outOfMemory (current : Tid) (env : OomEnv)
  | memCgroupOutOfMemory (current : Tid) (memcg : Memcg) (limit : Long) (env : OomEnv)
  | others (tasks : Tasks)

def perform (s : Sys) : Call → Option Sys
  | .setMlimit ns uid memMax => ((setMlimit s ns uid memMax).map Prod.fst).toOption
  | .alloc e => ((allocPagesNodemask s e).map Prod.fst).toOption
  | .outOfMemory current env => (outOfMemory s current env).toOption
  | .memCgroupOutOfMemory current memcg limit env =>
    (memCgroupOutOfMemory s current memcg limit env).toOption
  | .others tasks => some { s with tasks := tasks }

end AndroidKernel.Mlimit
