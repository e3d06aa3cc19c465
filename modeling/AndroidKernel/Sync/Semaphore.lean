import AndroidKernel.Sync.Queue

/-! The critical sections of `hw3/sync.c`, and the counting semaphore with a FIFO of waiters that
they implement. A critical section ends at `unlock()`; its `Exit` records the value the call will
return and what the thread still does once `flag` is free. -/

namespace AndroidKernel.Sync

inductive Op
  | down | tryDown | up
deriving DecidableEq, Repr

inductive After (τ : Type)
  | ret
  | suspend
  | wake (t : τ)
deriving DecidableEq, Repr

structure Exit (τ : Type) where
  ret : ℤ
  after : After τ
deriving DecidableEq, Repr

variable {τ : Type}

def sthreadSemInit (count : ℤ) (c : Cell τ) : Cell τ × ℤ :=
  let sem : Sem := { count := count, head := none, start := none, sthreadCount := 0 }
  ({ c with sem := sem }, if sem.count = count ∧ sem.head = none then 0 else -1)

def sthreadSemDown (self : τ) (a : Addr) (c : Cell τ) : Option (Cell τ × Exit τ) :=
  if c.sem.count > 0 then
    some ({ c with sem := { c.sem with count := c.sem.count - 1 } }, ⟨0, .ret⟩)
  else do
    let c ← insertNode a self c
    some (c, ⟨-1, .suspend⟩)

def sthreadSemTryDown (c : Cell τ) : Cell τ × Exit τ :=
  if c.sem.count > 0 then
    ({ c with sem := { c.sem with count := c.sem.count - 1 } }, ⟨0, .ret⟩)
  else (c, ⟨-1, .ret⟩)

def sthreadSemUp (c : Cell τ) : Option (Cell τ × Exit τ) :=
  if c.sem.sthreadCount ≤ 0 then
    some ({ c with sem := { c.sem with count := c.sem.count + 1 } }, ⟨0, .ret⟩)
  else do
    let (longestWaitingThread, c) ← removeNode c
    let temp ← c.heap longestWaitingThread
    let c ← free longestWaitingThread c
    some (c, ⟨0, .wake temp.data⟩)

def crit : Op → τ → Addr → Cell τ → Option (Cell τ × Exit τ)
  | .down, self, a, c => sthreadSemDown self a c
  | .tryDown, _, _, c => some (sthreadSemTryDown c)
  | .up, _, _, c => sthreadSemUp c

/-- What the queue of nodes stands for: a count and the waiting threads, oldest first. -/
structure Fifo (τ : Type) where
  count : ℤ
  queue : List τ
deriving DecidableEq, Repr

/-- A semaphore that hands a unit over to the oldest waiter instead of counting it. -/
def Fifo.handOff : Op → τ → Fifo τ → Fifo τ × Exit τ
  | .down, t, f =>
    if 0 < f.count then ({ f with count := f.count - 1 }, ⟨0, .ret⟩)
    else ({ f with queue := f.queue ++ [t] }, ⟨-1, .suspend⟩)
  | .tryDown, _, f =>
    if 0 < f.count then ({ f with count := f.count - 1 }, ⟨0, .ret⟩) else (f, ⟨-1, .ret⟩)
  | .up, _, ⟨n, []⟩ => (⟨n + 1, []⟩, ⟨0, .ret⟩)
  | .up, _, ⟨n, w :: q⟩ => (⟨n, q⟩, ⟨0, .wake w⟩)

structure Refines (c : Cell τ) (xs : List (Addr × τ)) (f : Fifo τ) : Prop where
  queued : Queued c xs
  count : c.sem.count = f.count
  queue : xs.map Prod.snd = f.queue

structure Frame (c c' : Cell τ) (xs xs' : List (Addr × τ)) (a : Addr) : Prop where
  heap : ∀ b ∉ xs.map Prod.fst, b ≠ a → c'.heap b = c.heap b
  nodes : ∀ b ∈ xs'.map Prod.fst, b ∈ xs.map Prod.fst ∨ b = a

/-- Critical sections `body` that never fault and do what `spec` says. -/
def Implements (body : Op → τ → Addr → Cell τ → Option (Cell τ × Exit τ))
    (spec : Op → τ → Fifo τ → Fifo τ × Exit τ) : Prop :=
  ∀ c xs f op t a, Refines c xs f → c.heap a = none →
    ∃ c' xs', body op t a c = some (c', (spec op t f).2) ∧
      Refines c' xs' (spec op t f).1 ∧ Frame c c' xs xs' a

variable {c : Cell τ} {xs : List (Addr × τ)} {f : Fifo τ} {a : Addr}

theorem sthreadSemInit_refines (count : ℤ) (c : Cell τ) :
    (sthreadSemInit count c).2 = 0 ∧ Refines (sthreadSemInit count c).1 [] ⟨count, []⟩ := by
  refine ⟨by simp [sthreadSemInit], ⟨?_, rfl, rfl⟩⟩
  exact ⟨List.nodup_nil, rfl, rfl, by simp⟩

theorem Refines.waiting_eq (h : Refines c xs f) : c.waiting = f.queue :=
  h.queued.waiting_eq.trans h.queue

theorem Refines.withCount (h : Refines c xs f) (n : ℤ) :
    Refines { c with sem := { c.sem with count := n } } xs { f with count := n } :=
  ⟨⟨h.queued.nodup, h.queued.chain, h.queued.length, h.queued.last⟩, rfl, h.queue⟩

theorem Frame.refl (c : Cell τ) (sem : Sem) (xs : List (Addr × τ)) (a : Addr) :
    Frame c ⟨sem, c.heap⟩ xs xs a := ⟨fun _ _ _ => rfl, fun _ hb => Or.inl hb⟩

theorem insertNode_refines (h : Refines c xs f) (ha : c.heap a = none) (t : τ) :
    ∃ c', insertNode a t c = some c' ∧
      Refines c' (xs ++ [(a, t)]) { f with queue := f.queue ++ [t] } ∧
      Frame c c' xs (xs ++ [(a, t)]) a := by
  obtain ⟨c', hi, hq, hc, hh⟩ := insertNode_spec h.queued ha t
  refine ⟨c', hi, ⟨hq, hc.trans h.count, by simp [h.queue]⟩, ⟨hh, ?_⟩⟩
  intro b hb
  simpa using hb

theorem Refines.sthreadCount_le (h : Refines c xs f) :
    c.sem.sthreadCount ≤ 0 ↔ f.queue = [] := by
  rw [h.queued.length, ← h.queue]
  cases xs with
  | nil => simp
  | cons x xs => simp only [List.length_cons, List.map_cons, reduceCtorEq, iff_false]; omega

theorem removeNode_refines {n : ℤ} {w : τ} {q : List τ} (h : Refines c xs ⟨n, w :: q⟩)
    (a : Addr) : ∃ b m c₁ c₂ xs', removeNode c = some (b, c₁) ∧ c₁.heap b = some ⟨w, m⟩ ∧
      free b c₁ = some c₂ ∧ Refines c₂ xs' ⟨n, q⟩ ∧ Frame c c₂ xs xs' a := by
  cases xs with
  | nil => exact absurd h.queue (by simp)
  | cons x xs =>
    obtain ⟨hw, hq⟩ : x.2 = w ∧ xs.map Prod.snd = q := by simpa using h.queue
    obtain ⟨m, c₁, c₂, hr, hd, hf, hq₂, hc, hh⟩ := removeNode_spec h.queued
    refine ⟨x.1, m, c₁, c₂, xs, hr, hw ▸ hd, hf, ⟨hq₂, hc.trans h.count, hq⟩, ⟨?_, ?_⟩⟩
    · intro b hb _
      apply hh b
      rintro rfl
      exact hb (by simp)
    · intro b hb
      exact Or.inl (List.mem_cons_of_mem _ hb)

theorem sthreadSemDown_refines (h : Refines c xs f) (ha : c.heap a = none) (t : τ) :
    ∃ c' xs', sthreadSemDown t a c = some (c', (f.handOff .down t).2) ∧
      Refines c' xs' (f.handOff .down t).1 ∧ Frame c c' xs xs' a := by
  by_cases hc : 0 < f.count
  · simp only [sthreadSemDown, Fifo.handOff, h.count, if_pos hc]
    exact ⟨_, xs, rfl, h.withCount _, Frame.refl ..⟩
  · obtain ⟨c', hi, hr, hf⟩ := insertNode_refines h ha t
    simp only [sthreadSemDown, Fifo.handOff, h.count, if_neg hc, hi, Option.bind_eq_bind,
      Option.bind_some]
    exact ⟨c', _, rfl, hr, hf⟩

theorem sthreadSemTryDown_refines (h : Refines c xs f) (t : τ) :
    (sthreadSemTryDown c).2 = (f.handOff .tryDown t).2 ∧
      Refines (sthreadSemTryDown c).1 xs (f.handOff .tryDown t).1 ∧
      Frame c (sthreadSemTryDown c).1 xs xs a := by
  by_cases hc : 0 < f.count
  · simp only [sthreadSemTryDown, Fifo.handOff, h.count, if_pos hc]
    exact ⟨trivial, h.withCount _, Frame.refl ..⟩
  · simp only [sthreadSemTryDown, Fifo.handOff, h.count, if_neg hc]
    exact ⟨trivial, h, Frame.refl ..⟩

theorem sthreadSemUp_refines (h : Refines c xs f) (t : τ) :
    ∃ c' xs', sthreadSemUp c = some (c', (f.handOff .up t).2) ∧
      Refines c' xs' (f.handOff .up t).1 ∧ Frame c c' xs xs' a := by
  obtain ⟨n, _ | ⟨w, q⟩⟩ := f
  · have hc : c.sem.sthreadCount ≤ 0 := h.sthreadCount_le.mpr rfl
    simp only [sthreadSemUp, Fifo.handOff, if_pos hc, h.count]
    exact ⟨_, xs, rfl, h.withCount _, Frame.refl ..⟩
  · have hc : ¬ c.sem.sthreadCount ≤ 0 := fun hc => absurd (h.sthreadCount_le.mp hc) (by simp)
    obtain ⟨b, m, c₁, c₂, xs', hr, hd, hf, hq, hframe⟩ := removeNode_refines h a
    simp only [sthreadSemUp, Fifo.handOff, if_neg hc, hr, hd, hf, Option.bind_eq_bind,
      Option.bind_some]
    exact ⟨c₂, xs', rfl, hq, hframe⟩

theorem crit_implements : Implements (τ := τ) crit fun op t f => f.handOff op t := by
  intro c xs f op t a h ha
  cases op with
  | down => exact sthreadSemDown_refines h ha t
  | tryDown =>
    obtain ⟨he, hr, hf⟩ := sthreadSemTryDown_refines (a := a) h t
    exact ⟨_, xs, congrArg some (Prod.ext rfl he), hr, hf⟩
  | up => exact sthreadSemUp_refines h t

end AndroidKernel.Sync
