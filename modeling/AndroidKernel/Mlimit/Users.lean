import AndroidKernel.Lib.Runs

/-! The user database of `hw5/kernel/user.c` with the two fields of the memory limit. `long` and
`uid_t` have 32 bits on this target. A `user_struct` is known by its address; `live` are the
addresses that `kmem_cache_zalloc` has given out, and the static `root_user`. -/

namespace AndroidKernel.Mlimit

abbrev Uid := BitVec 32

abbrev Long := BitVec 32

abbrev Ns := ℕ

abbrev UserPtr := ℕ

def initUserNs : Ns := 0

def rootUser : UserPtr := 0

structure User where
  uid : Uid
  userNs : Ns
  count : ℕ
  memMax : Long
  cumulativeMem : Long
deriving DecidableEq, Repr

structure Users where
  obj : UserPtr → User
  live : Finset UserPtr
  table : Ns → BitVec 32 → List UserPtr

def UIDHASH_BITS : ℕ := 7

def UIDHASH_MASK : BitVec 32 := 127

def uidhashfn (uid : Uid) : BitVec 32 := ((uid >>> UIDHASH_BITS) + uid) &&& UIDHASH_MASK

def Users.chain (us : Users) (ns : Ns) (uid : Uid) : List UserPtr := us.table ns (uidhashfn uid)

def Users.modify (us : Users) (p : UserPtr) (f : User → User) : Users :=
  { us with obj := Function.update us.obj p (f (us.obj p)) }

/-- `atomic_inc(&up->__count)`. -/
def Users.get (us : Users) (p : UserPtr) : Users :=
  us.modify p fun u => { u with count := u.count + 1 }

/-- The loop of `uid_hash_find`, before it takes its reference. -/
def Users.lookup (us : Users) (ns : Ns) (uid : Uid) : Option UserPtr :=
  (us.chain ns uid).find? fun p => (us.obj p).uid == uid

def findUser (us : Users) (ns : Ns) (uid : Uid) : Option UserPtr × Users :=
  match us.lookup ns uid with
  | none => (none, us)
  | some p => (some p, us.get p)

def uidHashInsert (us : Users) (ns : Ns) (uid : Uid) (p : UserPtr) : Users :=
  { us with
    table := Function.update us.table ns
      (Function.update (us.table ns) (uidhashfn uid) (p :: us.chain ns uid)) }

def uidHashRemove (us : Users) (p : UserPtr) : Users :=
  { us with table := fun ns h => (us.table ns h).erase p }

/-- `kmem_cache_free`. -/
def Users.release (us : Users) (p : UserPtr) : Users := { us with live := us.live.erase p }

def newUser (ns : Ns) (uid : Uid) : User where
  uid := uid
  userNs := ns
  count := 1
  memMax := -1
  cumulativeMem := 0

/-- The static initialiser of `root_user`, which does not mention the limit. -/
def rootUserStruct : User where
  uid := 0
  userNs := initUserNs
  count := 2
  memMax := 0
  cumulativeMem := 0

def bootUsers : Users where
  obj := fun _ => rootUserStruct
  live := {rootUser}
  table := fun ns h => if ns = initUserNs ∧ h = uidhashfn 0 then [rootUser] else []

end AndroidKernel.Mlimit
