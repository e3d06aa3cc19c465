import AndroidKernel.Lib.Chain
import AndroidKernel.Lib.Runs
import AndroidKernel.Sthread.Model

/-! The list from `list_hd` in memory, under the steps of the manager of `hw3/sthread.c`. Of a
`struct sthread_struct` only `pid` and `next` matter here. The manager alone changes the list, so
each of its steps is taken whole: a `do_create` that succeeds or fails at any of its system calls,
the handling of a `MSG_THREAD_EXIT`, and `reap_children`. The clients allocate the structs, with
any old contents, and free them where `sthread_create` finds a status other than 0. -/

namespace AndroidKernel.Sthread.ThreadList
open LinkedList Lts

structure Mem where
  listHd : Option Thr
  heap : Heap Thr ℤ
  structs : Finset Thr

/-- A loop over the list that has visited all the structs there are without an end never ends; that
answers `none`, as an access to memory that is not allocated does. -/
def find (heap : Heap Thr ℤ) (pid : ℤ) : ℕ → Option Thr → Option (Option Thr)
  | _, none => some none
  | 0, some _ => none
  | n + 1, some p => do
    let node ← heap p
    if node.data = pid then some (some p) else find heap pid n node.next

def threadlistFindbypid (m : Mem) (pid : ℤ) : Option (Option Thr) :=
  find m.heap pid m.structs.card m.listHd

def threadlistAdd (m : Mem) (t : Thr) : Option Mem := do
  let node ← m.heap t
  some { m with
    heap := Function.update m.heap t (some { node with next := m.listHd })
    listHd := some t }

def search (heap : Heap Thr ℤ) (pid : ℤ) : ℕ → Option Thr → Option Thr → Option (Option Thr × Thr)
  | _, _, none => none
  | 0, _, some _ => none
  | n + 1, prev, some p =>
    if p = .manager then some (prev, p)
    else do
      let node ← heap p
      if node.data = pid then some (prev, p) else search heap pid n (some p) node.next

def threadlistDel (m : Mem) (t : Thr) : Option Mem := do
  let self ← m.heap t
  let (prev, p) ← search m.heap self.data m.structs.card none m.listHd
  -- `abort()`
  if p = .manager then none
  else do
    let node ← m.heap p
    match prev with
    | some prev => do
      let before ← m.heap prev
      some { m with
        heap := Function.update m.heap prev (some { before with next := node.next }) }
    | none => some { m with listHd := node.next }

def Mem.setPid (m : Mem) (t : Thr) (pid : ℤ) : Option Mem := do
  let node ← m.heap t
  some { m with heap := Function.update m.heap t (some { node with data := pid }) }

def malloc (m : Mem) (t : Thr) (block : Node Thr ℤ) : Mem :=
  { m with heap := Function.update m.heap t (some block), structs := insert t m.structs }

def free (m : Mem) (t : Thr) : Mem :=
  { m with heap := Function.update m.heap t none, structs := m.structs.erase t }

def threadDealloc (m : Mem) (t : Thr) : Option Mem := do
  let m ← threadlistDel m t
  some (free m t)

inductive Outcome
  | mmap | pipe | malloc
  | clone (pid : ℤ)
deriving DecidableEq, Repr

/-- Also tells whether a thread was started. -/
def doCreate (m : Mem) (t : Thr) : Outcome → Option (Mem × Bool)
  | .mmap | .pipe | .malloc => some (m, false)
  | .clone pid => do
    let m ← threadlistAdd m t
    let m ← m.setPid t pid
    if pid = -1 then do
      let m ← threadlistDel m t
      some (m, false)
    else some (m, true)

/-- `children` are the threads cloned and not yet waited for, newest first. `requests` are the
structs in the creations the manager has still to serve, `refused` those of failed ones that their
caller has still to free. -/
structure State where
  mem : Mem
  children : List (Thr × ℤ)
  requests : List Thr
  refused : List Thr
  exited : Bool

/-- In `reap`, what `waitpid(-1)` answers: a pid, and whether the thread died by a signal. -/
inductive Act
  | malloc (t : Thr) (block : Node Thr ℤ)
  | create (t : Thr) (outcome : Outcome)
  | discard (t : Thr)
  | exit (t : Thr)
  | reap (statuses : List (ℤ × Bool))
deriving DecidableEq, Repr

def State.waitpid (s : State) (pid : ℤ) : State :=
  { s with children := s.children.filter (·.2 ≠ pid) }

def reapChildren : List (ℤ × Bool) → State → Option State
  | [], s => some s
  | (pid, signaled) :: statuses, s => do
    match ← threadlistFindbypid s.mem pid with
    | none => none
    | some p => do
      let mem ← threadDealloc s.mem p
      let s := { s.waitpid pid with mem := mem }
      -- a thread died by a signal: everyone gets that signal, and the manager exits
      if signaled then some { s with exited := true } else reapChildren statuses s

def next (s : State) : Act → Option State
  | .malloc t block =>
    some { s with mem := malloc s.mem t block, requests := t :: s.requests }
  | .create t outcome => do
    let (mem, started) ← doCreate s.mem t outcome
    let s := { s with mem := mem, requests := s.requests.erase t }
    match started, outcome with
    | true, .clone pid => some { s with children := (t, pid) :: s.children }
    | _, _ => some { s with refused := t :: s.refused }
  | .discard t => some { s with mem := free s.mem t, refused := s.refused.erase t }
  | .exit t => do
    let node ← s.mem.heap t
    let mem ← threadDealloc s.mem t
    some { s.waitpid node.data with mem := mem }
  | .reap statuses => reapChildren statuses s

/-- What the kernel, `malloc` and the clients guarantee: a block that is not in use, from `clone` a
pid that no child has, and each child that exited is waited for once. -/
def Allowed (s : State) : Act → Prop
  | .malloc t _ => t ≠ .main ∧ t ≠ .manager ∧ s.mem.heap t = none
  | .create t outcome => s.exited = false ∧ t ∈ s.requests ∧
      ∀ x ∈ s.children, outcome ≠ .clone x.2
  -- the status of the caller may still be that of an earlier creation
  | .discard t => t ∈ s.requests ∨ t ∈ s.refused ∨ t ∈ s.children.map Prod.fst
  | .exit t => s.exited = false ∧ t ∈ s.children.map Prod.fst
  | .reap statuses => s.exited = false ∧ (statuses.map Prod.fst).Nodup ∧
      ∀ x ∈ statuses, x.1 ∈ s.children.map Prod.snd

instance Allowed.decidable (s : State) : ∀ a, Decidable (Allowed s a)
  | .malloc t _ => inferInstanceAs (Decidable (t ≠ .main ∧ t ≠ .manager ∧ s.mem.heap t = none))
  | .create t outcome => inferInstanceAs (Decidable (s.exited = false ∧ t ∈ s.requests ∧
      ∀ x ∈ s.children, outcome ≠ .clone x.2))
  | .discard t => inferInstanceAs (Decidable (t ∈ s.requests ∨ t ∈ s.refused ∨
      t ∈ s.children.map Prod.fst))
  | .exit t => inferInstanceAs (Decidable (s.exited = false ∧ t ∈ s.children.map Prod.fst))
  | .reap statuses => inferInstanceAs (Decidable (s.exited = false ∧
      (statuses.map Prod.fst).Nodup ∧ ∀ x ∈ statuses, x.1 ∈ s.children.map Prod.snd))

/-- A struct is freed by its client only once the manager has refused its creation. -/
def FreesRefused (s : State) : Act → Prop
  | .discard t => t ∈ s.refused
  | _ => True

instance (s : State) : ∀ a, Decidable (FreesRefused s a)
  | .discard t => inferInstanceAs (Decidable (t ∈ s.refused))
  | .malloc .. | .create .. | .exit _ | .reap _ => inferInstanceAs (Decidable True)

def start (managerPid mainPid : ℤ) : State where
  mem := {
    listHd := some .manager
    heap := fun t => match t with
      | .manager => some ⟨managerPid, some .main⟩
      | .main => some ⟨mainPid, none⟩
      | .worker _ => none
    structs := {.manager, .main} }
  children := []
  requests := []
  refused := []
  exited := false

def Mem.list (m : Mem) : Option (List Thr) := follow m.heap m.structs.card m.listHd

section Functions
variable {m : Mem} {heap : Heap Thr ℤ} {p q : Option Thr} {xs ys : List (Thr × ℤ)} {y : Thr × ℤ}
  {pid : ℤ} {n : ℕ}

theorem find_eq (h : Chain heap p (xs ++ y :: ys) q) (hx : ∀ x ∈ xs, x.2 ≠ y.2)
    (hn : xs.length < n) : find heap y.2 n p = some (some y.1) := by
  induction xs generalizing p n with
  | nil =>
    obtain ⟨rfl, r, hr, -⟩ := h
    obtain ⟨n, rfl⟩ : ∃ k, n = k + 1 := ⟨n - 1, by rw [List.length_nil] at hn; omega⟩
    simp [find, hr]
  | cons x xs ih =>
    obtain ⟨rfl, r, hr, ht⟩ := h
    obtain ⟨n, rfl⟩ : ∃ k, n = k + 1 := ⟨n - 1, by omega⟩
    have hne : x.2 ≠ y.2 := hx x (List.mem_cons_self ..)
    simp only [find, hr, Option.bind_eq_bind, Option.bind_some, if_neg hne]
    exact ih ht (fun z hz => hx z (List.mem_cons_of_mem _ hz)) (Nat.lt_of_succ_lt_succ hn)

theorem search_eq {prev : Option Thr} (h : Chain heap p (xs ++ y :: ys) q)
    (hx : ∀ x ∈ xs, x.1 ≠ .manager ∧ x.2 ≠ y.2) (hy : y.1 ≠ .manager) (hn : xs.length < n) :
    search heap y.2 n prev p = some ((xs.getLast?.map Prod.fst).or prev, y.1) := by
  induction xs generalizing p prev n with
  | nil =>
    obtain ⟨rfl, r, hr, -⟩ := h
    obtain ⟨n, rfl⟩ : ∃ k, n = k + 1 := ⟨n - 1, by rw [List.length_nil] at hn; omega⟩
    simp [search, hr, hy]
  | cons x xs ih =>
    obtain ⟨rfl, r, hr, ht⟩ := h
    obtain ⟨n, rfl⟩ : ∃ k, n = k + 1 := ⟨n - 1, by omega⟩
    obtain ⟨hm, hne⟩ := hx x (List.mem_cons_self ..)
    simp only [search, if_neg hm, hr, Option.bind_eq_bind, Option.bind_some, if_neg hne]
    rw [ih ht (fun z hz => hx z (List.mem_cons_of_mem _ hz)) (Nat.lt_of_succ_lt_succ hn)]
    cases xs with
    | nil => simp
    | cons z zs => simp [List.getLast?_cons]

theorem threadlistDel_eq (h : Chain m.heap m.listHd (xs ++ y :: ys) none)
    (hd : ((xs ++ y :: ys).map Prod.fst).Nodup)
    (hx : ∀ x ∈ xs, x.1 ≠ .manager ∧ x.2 ≠ y.2) (hy : y.1 ≠ .manager)
    (hn : xs.length < m.structs.card) :
    ∃ m', threadlistDel m y.1 = some m' ∧ Chain m'.heap m'.listHd (xs ++ ys) none ∧
      m'.structs = m.structs ∧ (∀ b ∉ xs.map Prod.fst, m'.heap b = m.heap b) ∧
      ∀ b, (m'.heap b).isSome = (m.heap b).isSome := by
  obtain ⟨r, hself⟩ := h.allocated (x := y) (by simp)
  have hs : threadlistDel m y.1 = match xs.getLast?.map Prod.fst with
      | some prev => (m.heap prev).bind fun before => some { m with
          heap := Function.update m.heap prev (some { before with next := r }) }
      | none => some { m with listHd := r } := by
    simp only [threadlistDel, hself, Option.bind_eq_bind, Option.bind_some, search_eq h hx hy hn,
      Option.or_none, if_neg hy]
  rcases List.eq_nil_or_concat xs with rfl | ⟨zs, l, rfl⟩
  · obtain ⟨hp, r', hr', ht⟩ := h
    obtain rfl : r' = r := by simpa using hr'.symm.trans hself
    exact ⟨_, hs, ht, rfl, fun _ _ => rfl, fun _ => rfl⟩
  · rw [List.concat_eq_append] at h hd hs ⊢
    rw [List.append_assoc, List.singleton_append] at h hd
    obtain ⟨k, hl⟩ := h.allocated (x := l) (by simp)
    simp only [List.getLast?_append, List.getLast?_singleton, Option.some_or, Option.map_some, hl,
      Option.bind_some] at hs
    refine ⟨_, hs, ?_, rfl, fun b hb => Function.update_of_ne ?_ _ _, fun b => ?_⟩
    · rw [List.append_assoc, List.singleton_append]
      exact h.unlink hd hself
    · rintro rfl
      exact hb (by simp)
    · by_cases hb : b = l.1
      · subst hb
        simp [hl]
      · simp only [Function.update_of_ne hb]

theorem threadlistAdd_eq {k : Option Thr} (h : Chain m.heap m.listHd xs none) {t : Thr}
    (ht : t ∉ xs.map Prod.fst) (hk : m.heap t = some ⟨pid, k⟩) :
    ∃ m', threadlistAdd m t = some m' ∧ m'.heap t = some ⟨pid, m.listHd⟩ ∧
      Chain m'.heap m'.listHd ((t, pid) :: xs) none ∧ m'.structs = m.structs ∧
      ∀ b, b ≠ t → m'.heap b = m.heap b := by
  refine ⟨{ m with heap := Function.update m.heap t (some ⟨pid, m.listHd⟩), listHd := some t },
    ?_, Function.update_self .., h.push ht pid, rfl, fun b hb => Function.update_of_ne hb _ _⟩
  simp only [threadlistAdd, hk, Option.bind_eq_bind, Option.bind_some]

theorem length_le_card (h : Chain m.heap p xs q) (hd : (xs.map Prod.fst).Nodup)
    (hs : ∀ t, (m.heap t).isSome → t ∈ m.structs) : xs.length ≤ m.structs.card := by
  have hsub : (xs.map Prod.fst).toFinset ⊆ m.structs := by
    intro b hb
    obtain ⟨x, hx, rfl⟩ := List.mem_map.mp (List.mem_toFinset.mp hb)
    obtain ⟨k, hk⟩ := h.allocated hx
    exact hs x.1 (by simp [hk])
  have hcard := Finset.card_le_card hsub
  rwa [List.toFinset_card_of_nodup hd, List.length_map] at hcard

theorem setPid_eq (h : Chain m.heap m.listHd ((y.1, pid) :: ys) none)
    (hd : ((y :: ys).map Prod.fst).Nodup) :
    ∃ m', m.setPid y.1 y.2 = some m' ∧ Chain m'.heap m'.listHd (y :: ys) none ∧
      m'.structs = m.structs ∧ ∀ b, (m'.heap b).isSome = (m.heap b).isSome := by
  obtain ⟨hp, k, hk, ht⟩ := h
  refine ⟨{ m with heap := Function.update m.heap y.1 (some ⟨y.2, k⟩) }, ?_,
    ⟨hp, k, Function.update_self .., ht.frame fun b hb => Function.update_of_ne ?_ _ _⟩, rfl,
    fun b => ?_⟩
  · simp only [Mem.setPid, hk, Option.bind_eq_bind, Option.bind_some]
  · rintro rfl
    exact (List.nodup_cons.mp (by simpa only [List.map_cons] using hd)).1 hb
  · by_cases hb : b = y.1
    · subst hb
      simp [hk]
    · simp only [Function.update_of_ne hb]

end Functions

end AndroidKernel.Sthread.ThreadList
