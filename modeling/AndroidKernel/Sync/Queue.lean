import AndroidKernel.Lib.Chain

/-! The waiting queue that `hw3/sync.c` and `hw3/sync_ad.c` share word for word: a linked list of
`struct Node` with `start` at the oldest waiter and `head` at the newest. `malloc` is the address
`a` that the caller supplies, unallocated in every use. An access through `NULL` or to an
unallocated node answers `none`. -/

namespace AndroidKernel.Sync
open LinkedList

abbrev Addr := ℕ

/-- `struct sthread_sem_struct`. Neither counter overflows `int` in the runs considered. -/
structure Sem where
  count : ℤ
  sthreadCount : ℤ
  head : Option Addr
  start : Option Addr
deriving DecidableEq, Repr

structure Cell (τ : Type) where
  sem : Sem
  heap : Heap Addr τ

variable {τ : Type}

def insertNode (a : Addr) (data : τ) (c : Cell τ) : Option (Cell τ) :=
  if c.sem.sthreadCount = 0 then
    some {
      sem := { c.sem with head := some a, start := some a,
                          sthreadCount := c.sem.sthreadCount + 1 }
      heap := Function.update c.heap a (some ⟨data, none⟩) }
  else do
    let h ← c.sem.head
    let last ← c.heap h
    some {
      sem := { c.sem with head := some a, sthreadCount := c.sem.sthreadCount + 1 }
      heap := Function.update (Function.update c.heap h (some { last with next := some a }))
        a (some ⟨data, none⟩) }

def removeNode (c : Cell τ) : Option (Addr × Cell τ) := do
  let temp ← c.sem.start
  let node ← c.heap temp
  some (temp, { c with sem := { c.sem with start := node.next,
                                           sthreadCount := c.sem.sthreadCount - 1 } })

def free (a : Addr) (c : Cell τ) : Option (Cell τ) := do
  let _ ← c.heap a
  some { c with heap := Function.update c.heap a none }

def Cell.waiting (c : Cell τ) : List τ := walk c.heap c.sem.sthreadCount.toNat c.sem.start

/-- The representation invariant: `xs` lists the queued nodes, oldest first. Nothing is said of
`head` while the queue is empty, where it may still hold the address of a freed node. -/
structure Queued (c : Cell τ) (xs : List (Addr × τ)) : Prop where
  nodup : (xs.map Prod.fst).Nodup
  chain : Chain c.heap c.sem.start xs none
  length : c.sem.sthreadCount = xs.length
  last : ∀ x ∈ xs.getLast?, c.sem.head = some x.1

variable {c : Cell τ} {xs : List (Addr × τ)} {a : Addr}

theorem Queued.waiting_eq (h : Queued c xs) : c.waiting = xs.map Prod.snd := by
  rw [Cell.waiting, h.length, Int.toNat_natCast, h.chain.walk_eq]

theorem Queued.fresh (h : Queued c xs) (ha : c.heap a = none) : a ∉ xs.map Prod.fst :=
  h.chain.fresh_notMem ha

theorem Queued.nodup_snoc (h : Queued c xs) (ha : c.heap a = none) (d : τ) :
    ((xs ++ [(a, d)]).map Prod.fst).Nodup := by
  rw [List.map_append, List.map_cons, List.map_nil, List.nodup_append]
  refine ⟨h.nodup, List.nodup_singleton a, ?_⟩
  rintro b hb b' hb' rfl
  obtain rfl : b = a := by simpa using hb'
  exact h.fresh ha hb

theorem Queued.frame {heap' : Heap Addr τ} (h : Queued c xs)
    (he : ∀ b ∈ xs.map Prod.fst, heap' b = c.heap b) : Queued { c with heap := heap' } xs :=
  ⟨h.nodup, h.chain.frame he, h.length, h.last⟩

theorem insertNode_spec (h : Queued c xs) (ha : c.heap a = none) (d : τ) :
    ∃ c', insertNode a d c = some c' ∧ Queued c' (xs ++ [(a, d)]) ∧
      c'.sem.count = c.sem.count ∧ ∀ b ∉ xs.map Prod.fst, b ≠ a → c'.heap b = c.heap b := by
  rcases List.eq_nil_or_concat xs with rfl | ⟨ys, l, rfl⟩
  · have h0 : c.sem.sthreadCount = 0 := by simpa using h.length
    refine ⟨_, if_pos h0, ⟨by simp, ⟨rfl, none, Function.update_self .., rfl⟩, ?_, ?_⟩, rfl, ?_⟩
    · simp [h0]
    · simp
    · intro b _ hb
      exact Function.update_of_ne hb _ _
  · rw [List.concat_eq_append] at h ⊢
    have h0 : c.sem.sthreadCount ≠ 0 := by
      have := h.length
      simp only [List.length_append, List.length_singleton] at this
      omega
    have hh : c.sem.head = some l.1 := h.last l (by simp)
    obtain ⟨n, hn⟩ := h.chain.allocated (x := l) (by simp)
    have hi : insertNode a d c = some {
        sem := { c.sem with head := some a, sthreadCount := c.sem.sthreadCount + 1 }
        heap := Function.update (Function.update c.heap l.1 (some ⟨l.2, some a⟩))
          a (some ⟨d, none⟩) } := by
      simp only [insertNode, if_neg h0, hh, hn, Option.bind_eq_bind, Option.bind_some]
    refine ⟨_, hi, ⟨h.nodup_snoc ha d, h.chain.snoc h.nodup ha d, ?_, ?_⟩, rfl, ?_⟩
    · simp only [h.length, List.length_append, List.length_singleton, Nat.cast_add, Nat.cast_one]
    · simp
    · intro b hb hba
      have hbl : b ≠ l.1 := by
        rintro rfl
        exact hb (by simp)
      exact (Function.update_of_ne hba _ _).trans (Function.update_of_ne hbl _ _)

theorem removeNode_spec {x : Addr × τ} (h : Queued c (x :: xs)) :
    ∃ n c₁ c₂, removeNode c = some (x.1, c₁) ∧ c₁.heap x.1 = some ⟨x.2, n⟩ ∧
      free x.1 c₁ = some c₂ ∧ Queued c₂ xs ∧ c₂.sem.count = c.sem.count ∧
      ∀ b, b ≠ x.1 → c₂.heap b = c.heap b := by
  obtain ⟨hs, n, hn, -⟩ := h.chain
  have hr : removeNode c = some (x.1, { c with sem := { c.sem with
      start := n, sthreadCount := c.sem.sthreadCount - 1 } }) := by
    simp only [removeNode, hs, hn, Option.bind_eq_bind, Option.bind_some]
  have hf (sem : Sem) : free x.1 ⟨sem, c.heap⟩ =
      some ⟨sem, Function.update c.heap x.1 none⟩ := by
    simp only [free, hn, Option.bind_eq_bind, Option.bind_some]
  refine ⟨n, _, _, hr, hn, hf _, ⟨?_, ?_, ?_, ?_⟩, rfl, ?_⟩
  · exact (List.nodup_cons.mp (by simpa only [List.map_cons] using h.nodup)).2
  · exact h.chain.tail_free h.nodup hn
  · have := h.length
    simp only [List.length_cons, Nat.cast_add, Nat.cast_one] at this
    simp only
    omega
  · intro y hy
    apply h.last y
    cases xs with
    | nil => simp at hy
    | cons z zs => simpa [List.getLast?_cons_cons] using hy
  · intro b hb
    exact Function.update_of_ne hb _ _

end AndroidKernel.Sync
