import AndroidKernel.Mlimit.Users

/-! References to `user_struct`s under any interleaving. A step is one critical section of
`uidhash_lock` or one operation on `__count`; `atomic_dec_and_lock` takes the last reference with
the lock held, so removing the entry belongs to that step. `refs` are the references that callers
of `alloc_uid` and `find_user` have not given back, `leaked` those that `set_mlimit`,
`__alloc_pages_nodemask` and `select_bad_process` take for themselves. -/

namespace AndroidKernel.Mlimit.Refs
open Lts

/-- Where a task is. `allocNew` and `allocInsert` are `alloc_uid` after its first lookup and with
the new structure; `dying` is `free_user` after it has left the lock; `limit` is `set_mlimit` with
the user that it has found, and `sum` what its loop over the processes adds up; `inAlloc` is
`__alloc_pages_nodemask` after its lookup. A task that has followed a NULL pointer is at `oops`. -/
inductive Pc
  | idle
  | allocNew (ns : Ns) (uid : Uid)
  | allocInsert (ns : Ns) (uid : Uid) (new : UserPtr)
  | dying (p : UserPtr)
  | limit (ns : Ns) (uid : Uid) (p : UserPtr) (memMax sum : Long)
  | inAlloc
  | oops
deriving DecidableEq, Repr

structure State (τ : Type) where
  users : Users
  user : Uid
  start : Bool
  pc : τ → Pc
  refs : UserPtr → ℕ
  leaked : UserPtr → ℕ

/-- A call by a task in namespace `ns`, or the next step of a task, in which `kmem_cache_zalloc`
answers `new`. -/
inductive Act (τ : Type)
  | allocUid (t : τ) (ns : Ns) (uid : Uid)
  | findUser (t : τ) (ns : Ns) (uid : Uid)
  | freeUid (t : τ) (p : UserPtr)
  | setMlimit (t : τ) (ns : Ns) (uid : Uid) (memMax sum : Long)
  | allocPages (t : τ) (ns : Ns)
  | selectBad (t : τ) (ns : Ns)
  | step (t : τ) (new : Option UserPtr)

variable {τ : Type} [DecidableEq τ]

def State.goto (s : State τ) (t : τ) (pc : Pc) : State τ :=
  { s with pc := Function.update s.pc t pc }

def State.hold (s : State τ) (p : UserPtr) : State τ :=
  { s with users := s.users.get p, refs := Function.update s.refs p (s.refs p + 1) }

def State.leak (s : State τ) (p : UserPtr) : State τ :=
  { s with users := s.users.get p, leaked := Function.update s.leaked p (s.leaked p + 1) }

/-- `atomic_dec_and_lock`, and `uid_hash_remove` if this was the last reference. -/
def freeUid (s : State τ) (t : τ) (p : UserPtr) : State τ :=
  let us := s.users.modify p fun u => { u with count := u.count - 1 }
  let s := { s with users := us, refs := Function.update s.refs p (s.refs p - 1) }
  if (us.obj p).count = 0 then { s.goto t (.dying p) with users := uidHashRemove us p } else s

def allocInsert (s : State τ) (t : τ) (ns : Ns) (uid : Uid) (new : UserPtr) : State τ :=
  match s.users.lookup ns uid with
  | some up =>
    let s := s.hold up
    { s.goto t .idle with users := s.users.release new }
  | none =>
    { s.goto t .idle with
      users := uidHashInsert s.users ns uid new
      refs := Function.update s.refs new 1 }

def setLimit (s : State τ) (t : τ) (uid : Uid) (p : UserPtr) (memMax sum : Long) : State τ :=
  { s.goto t .idle with
    users := s.users.modify p fun u =>
      { u with cumulativeMem := u.cumulativeMem + sum, memMax := memMax }
    user := uid
    start := true }

def stepAt (s : State τ) (t : τ) (new : Option UserPtr) : Pc → Option (State τ)
  | .idle | .oops => none
  | .allocNew ns uid =>
    match new with
    | none => some (s.goto t .idle)
    | some p =>
      if p ∈ s.users.live then none
      else
        let us := { s.users with
          obj := Function.update s.users.obj p (newUser ns uid)
          live := insert p s.users.live }
        some { s.goto t (.allocInsert ns uid p) with users := us }
  | .allocInsert ns uid p => some (allocInsert s t ns uid p)
  | .dying p => some { s.goto t .idle with users := s.users.release p }
  | .limit _ uid p memMax sum => some (setLimit s t uid p memMax sum)
  | .inAlloc => some (s.goto t .idle)

def next (s : State τ) : Act τ → Option (State τ)
  | .allocUid t ns uid =>
    if s.pc t = .idle then
      match s.users.lookup ns uid with
      | some p => some (s.hold p)
      | none => some (s.goto t (.allocNew ns uid))
    else none
  | .findUser t ns uid =>
    if s.pc t = .idle then
      match s.users.lookup ns uid with
      | some p => some (s.hold p)
      | none => some s
    else none
  -- callers release only references that were taken
  | .freeUid t p => if s.pc t = .idle ∧ 0 < s.refs p then some (freeUid s t p) else none
  | .setMlimit t ns uid memMax sum =>
    if s.pc t = .idle then
      match s.users.lookup ns uid with
      | some p => some ((s.leak p).goto t (.limit ns uid p memMax sum))
      | none => some (s.goto t .oops)
    else none
  | .allocPages t ns =>
    if s.pc t = .idle then
      if s.start = true ∧ s.user ≠ 0 then
        match s.users.lookup ns s.user with
        | some p => some ((s.leak p).goto t .inAlloc)
        | none => some (s.goto t .inAlloc)
      else some (s.goto t .inAlloc)
    else none
  -- also called from `out_of_memory` while the task allocates
  | .selectBad t ns =>
    if s.pc t = .idle ∨ s.pc t = .inAlloc then
      if s.user ≠ 0 then
        match s.users.lookup ns s.user with
        | some p => some (s.leak p)
        -- the lookup is followed by `this_user->uid`
        | none => some (s.goto t .oops)
      else some s
    else none
  | .step t new => stepAt s t new (s.pc t)

omit [DecidableEq τ] in
def Quiet (s : State τ) : Prop := ∀ t, s.pc t = .idle ∨ s.pc t = .oops

def boot : State τ where
  users := bootUsers
  user := 0
  start := false
  pc := fun _ => .idle
  refs := fun _ => 0
  leaked := fun _ => 0

end AndroidKernel.Mlimit.Refs
