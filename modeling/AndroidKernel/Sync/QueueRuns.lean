import AndroidKernel.Lib.Runs
import AndroidKernel.Sync.Semaphore

/-! Histories of the waiting queue. `malloc` places a node at any unallocated address, so the
address that `head` keeps after the last removal may come back in a later insertion. -/

namespace AndroidKernel.Sync
open LinkedList Lts
variable {τ : Type}

inductive QueueOp (τ : Type)
  | insert (a : Addr) (data : τ)
  | remove
deriving DecidableEq, Repr

structure QueueState (τ : Type) where
  cell : Cell τ
  taken : List τ

/-- `insertNode` as `sthread_sem_down` calls it, and `removeNode`, the copy of the data and `free`
as `sthread_sem_up` has them. -/
def queueStep (s : QueueState τ) : QueueOp τ → Option (QueueState τ)
  | .insert a data => (insertNode a data s.cell).map fun c => { s with cell := c }
  | .remove => do
    let (longestWaitingThread, c) ← removeNode s.cell
    let temp ← c.heap longestWaitingThread
    let c ← free longestWaitingThread c
    some ⟨c, s.taken ++ [temp.data]⟩

/-- What `malloc` and the test of `sthread_count` in `sthread_sem_up` guarantee. -/
def Permitted (s : QueueState τ) : QueueOp τ → Prop
  | .insert a _ => s.cell.heap a = none
  | .remove => 0 < s.cell.sem.sthreadCount

instance (s : QueueState τ) : ∀ op, Decidable (Permitted s op)
  | .insert a _ => inferInstanceAs (Decidable (s.cell.heap a = none))
  | .remove => inferInstanceAs (Decidable (0 < s.cell.sem.sthreadCount))

structure Line (τ : Type) where
  queue : List τ
  taken : List τ
deriving DecidableEq, Repr

def Line.apply (l : Line τ) : QueueOp τ → Line τ
  | .insert _ data => { l with queue := l.queue ++ [data] }
  | .remove => ⟨l.queue.tail, l.taken ++ l.queue.head?.toList⟩

def Line.history (ops : List (QueueOp τ)) : Line τ := ops.foldl Line.apply ⟨[], []⟩

structure Stands (s : QueueState τ) (xs : List (Addr × τ)) (l : Line τ) : Prop where
  queued : Queued s.cell xs
  queue : xs.map Prod.snd = l.queue
  taken : s.taken = l.taken

def queueInit (count : ℤ) (c : Cell τ) : QueueState τ := ⟨(sthreadSemInit count c).1, []⟩

variable {s : QueueState τ} {xs : List (Addr × τ)} {l : Line τ}

theorem queueInit_stands (count : ℤ) (c : Cell τ) : Stands (queueInit count c) [] ⟨[], []⟩ :=
  ⟨(sthreadSemInit_refines count c).2.queued, rfl, rfl⟩

theorem Stands.insert (h : Stands s xs l) {a : Addr} (ha : s.cell.heap a = none) (d : τ) :
    ∃ s', queueStep s (.insert a d) = some s' ∧
      Stands s' (xs ++ [(a, d)]) (l.apply (.insert a d)) := by
  obtain ⟨c', hi, hq, -, -⟩ := insertNode_spec h.queued ha d
  refine ⟨{ s with cell := c' }, ?_, hq, ?_, h.taken⟩
  · simp only [queueStep, hi, Option.map_some]
  · simp only [Line.apply, List.map_append, h.queue, List.map_cons, List.map_nil]

theorem Stands.remove (h : Stands s xs l) (hc : 0 < s.cell.sem.sthreadCount) :
    ∃ s', queueStep s .remove = some s' ∧ Stands s' xs.tail (l.apply .remove) := by
  cases xs with
  | nil =>
    have hlen := h.queued.length
    simp only [List.length_nil, Nat.cast_zero] at hlen
    omega
  | cons x xs =>
    obtain ⟨n, c₁, c₂, hr, hd, hf, hq, -, -⟩ := removeNode_spec h.queued
    have hqueue : l.queue = x.2 :: xs.map Prod.snd := by rw [← h.queue, List.map_cons]
    refine ⟨⟨c₂, s.taken ++ [x.2]⟩, ?_, hq, ?_, ?_⟩
    · simp only [queueStep, hr, hd, hf, Option.bind_eq_bind, Option.bind_some]
    · rw [Line.apply, hqueue, List.tail_cons, List.tail_cons]
    · rw [Line.apply, hqueue, h.taken]
      rfl

/-- One operation: it touches allocated nodes only and does to the nodes what the abstract queue
does to its list. -/
theorem Stands.step (h : Stands s xs l) {op : QueueOp τ} (hg : Permitted s op) :
    ∃ s' xs', queueStep s op = some s' ∧ Stands s' xs' (l.apply op) := by
  cases op with
  | insert a d =>
    obtain ⟨s', hs, hst⟩ := h.insert hg d
    exact ⟨s', _, hs, hst⟩
  | remove =>
    obtain ⟨s', hs, hst⟩ := h.remove hg
    exact ⟨s', _, hs, hst⟩

theorem Stands.run (h : Stands s xs l) {ops : List (QueueOp τ)}
    (hm : Meets queueStep Permitted ops s) :
    ∃ s' xs', exec queueStep ops s = some s' ∧ Stands s' xs' (ops.foldl Line.apply l) := by
  induction ops generalizing s xs l with
  | nil => exact ⟨s, xs, rfl, h⟩
  | cons op ops ih =>
    obtain ⟨hg, hrest⟩ := hm
    obtain ⟨u, ys, hu, hst⟩ := h.step hg
    obtain ⟨s', xs', hs', hst'⟩ := ih hst (hrest u hu)
    exact ⟨s', xs', exec_cons_eq_some.mpr ⟨u, hu, hs'⟩, hst'⟩

theorem Queued.head_eq {c : Cell τ} (h : Queued c xs) (hc : 0 < c.sem.sthreadCount) :
    ∃ x, xs.getLast? = some x ∧ c.sem.head = some x.1 := by
  have hne : xs ≠ [] := by
    rintro rfl
    have hlen := h.length
    simp only [List.length_nil, Nat.cast_zero] at hlen
    omega
  have hlast := List.getLast?_eq_getLast_of_ne_nil hne
  exact ⟨_, hlast, h.last _ hlast⟩

/-- A critical section of `sync.c` does one permitted operation on the queue or leaves it alone. -/
theorem crit_queue {op : Op} {t : τ} {a : Addr} {c c' : Cell τ} {e : Exit τ} (ha : c.heap a = none)
    (h : crit op t a c = some (c', e)) (taken : List τ) :
    (∃ n, c' = { c with sem := { c.sem with count := n } }) ∨
      ∃ o s', Permitted ⟨c, taken⟩ o ∧ queueStep ⟨c, taken⟩ o = some s' ∧ s'.cell = c' := by
  cases op with
  | down =>
    simp only [crit, sthreadSemDown] at h
    split at h
    · obtain ⟨rfl, -⟩ := Prod.mk.inj (Option.some_inj.mp h)
      exact Or.inl ⟨_, rfl⟩
    · obtain ⟨c₁, hi, he⟩ := Option.bind_eq_some_iff.mp h
      obtain ⟨rfl, -⟩ := Prod.mk.inj (Option.some_inj.mp he)
      refine Or.inr ⟨.insert a t, ⟨c₁, taken⟩, ha, ?_, rfl⟩
      simp only [queueStep, hi, Option.map_some]
  | tryDown =>
    simp only [crit, sthreadSemTryDown, Option.some_inj] at h
    split at h
    · obtain ⟨rfl, -⟩ := Prod.mk.inj h
      exact Or.inl ⟨_, rfl⟩
    · obtain ⟨rfl, -⟩ := Prod.mk.inj h
      exact Or.inl ⟨c.sem.count, rfl⟩
  | up =>
    simp only [crit, sthreadSemUp] at h
    split at h
    · obtain ⟨rfl, -⟩ := Prod.mk.inj (Option.some_inj.mp h)
      exact Or.inl ⟨_, rfl⟩
    next hc =>
      obtain ⟨⟨b, c₁⟩, hr, h⟩ := Option.bind_eq_some_iff.mp h
      obtain ⟨n, hn, h⟩ := Option.bind_eq_some_iff.mp h
      obtain ⟨c₂, hf, he⟩ := Option.bind_eq_some_iff.mp h
      obtain ⟨rfl, -⟩ := Prod.mk.inj (Option.some_inj.mp he)
      have hn' : c₁.heap b = some n := hn
      refine Or.inr ⟨.remove, ⟨c₂, taken ++ [n.data]⟩, not_le.mp hc, ?_, rfl⟩
      simp only [queueStep, hr, hn', hf, Option.bind_eq_bind, Option.bind_some]

/-- From `sthread_sem_init` on, every history of permitted operations is carried through: no read or
write goes to an unallocated node. In every state passed, the nodes from `start` to `NULL` are
`sthread_count` distinct allocated nodes with `head` the last of them, and their data is the
abstract queue of the operations so far. -/
theorem waiting_queue_refines_fifo (count : ℤ) (c : Cell τ) (ops pre post : List (QueueOp τ))
    (hm : Meets queueStep Permitted ops (queueInit count c)) (hops : ops = pre ++ post) :
    ∃ s xs, exec queueStep pre (queueInit count c) = some s ∧
      Chain s.cell.heap s.cell.sem.start xs none ∧
      s.cell.sem.sthreadCount = xs.length ∧ (xs.map Prod.fst).Nodup ∧
      (∀ x ∈ xs, ∃ next, s.cell.heap x.1 = some ⟨x.2, next⟩) ∧
      (0 < s.cell.sem.sthreadCount → ∃ x, xs.getLast? = some x ∧ s.cell.sem.head = some x.1) ∧
      xs.map Prod.snd = (Line.history pre).queue ∧ s.taken = (Line.history pre).taken := by
  rw [hops, meets_append] at hm
  obtain ⟨s, xs, hs, hst⟩ := (queueInit_stands count c).run hm.1
  refine ⟨s, xs, hs, hst.queued.chain, hst.queued.length, hst.queued.nodup, ?_, ?_, hst.queue,
    hst.taken⟩
  · intro x hx
    exact hst.queued.chain.allocated hx
  · intro hc
    exact hst.queued.head_eq hc

/-- Two waiters, the queue emptied, then refilled at the address that `head` still holds. -/
theorem waiting_queue_refilled :
    ∃ s xs, exec queueStep [.insert 5 'a', .insert 8 'b', .remove, .remove, .insert 8 'c']
        (queueInit 0 ⟨⟨0, 0, none, none⟩, fun _ => none⟩) = some s ∧
      Chain s.cell.heap s.cell.sem.start xs none ∧
      s.cell.sem.sthreadCount = xs.length ∧ (xs.map Prod.fst).Nodup ∧
      (∀ x ∈ xs, ∃ next, s.cell.heap x.1 = some ⟨x.2, next⟩) ∧
      (0 < s.cell.sem.sthreadCount → ∃ x, xs.getLast? = some x ∧ s.cell.sem.head = some x.1) ∧
      xs.map Prod.snd = ['c'] ∧ s.taken = ['a', 'b'] :=
  waiting_queue_refines_fifo 0 ⟨⟨0, 0, none, none⟩, fun _ => none⟩
    [.insert 5 'a', .insert 8 'b', .remove, .remove, .insert 8 'c'] _ []
    (by decide) (by simp)

end AndroidKernel.Sync
