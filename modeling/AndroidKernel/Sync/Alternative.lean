import AndroidKernel.Sync.Conservation

/-! The alternative semaphore of `hw3/sync_ad.c`, which counts before it tests and encodes the
waiters as a negative count. Its queue, `lock`, `unlock` and `sthread_sem_init` are those of
`hw3/sync.c`. Its `try_down` tests `count >= 0`, so at `count = 0` it grants a unit that nobody
has given back; without such a call it is a safe semaphore. -/

namespace AndroidKernel.SyncAd
open Lts Ledger Sync
variable {τ : Type}

def sthreadSemDown (self : τ) (a : Addr) (c : Cell τ) : Option (Cell τ × Exit τ) :=
  let c : Cell τ := { c with sem := { c.sem with count := c.sem.count - 1 } }
  if c.sem.count ≥ 0 then some (c, ⟨0, .ret⟩)
  else do
    let c ← insertNode a self c
    some (c, ⟨0, .suspend⟩)

def sthreadSemTryDown (c : Cell τ) : Cell τ × Exit τ :=
  if c.sem.count ≥ 0 then
    ({ c with sem := { c.sem with count := c.sem.count - 1 } }, ⟨0, .ret⟩)
  else (c, ⟨-1, .ret⟩)

def sthreadSemUp (c : Cell τ) : Option (Cell τ × Exit τ) :=
  let c : Cell τ := { c with sem := { c.sem with count := c.sem.count + 1 } }
  if c.sem.sthreadCount ≤ 0 then some (c, ⟨0, .ret⟩)
  else do
    let (longestWaitingThread, c) ← removeNode c
    let temp ← c.heap longestWaitingThread
    let c ← free longestWaitingThread c
    some (c, ⟨0, .wake temp.data⟩)

def crit : Op → τ → Addr → Cell τ → Option (Cell τ × Exit τ)
  | .down, self, a, c => sthreadSemDown self a c
  | .tryDown, _, _, c => some (sthreadSemTryDown c)
  | .up, _, _, c => sthreadSemUp c

/-- A semaphore whose count falls below zero by one for every waiter. -/
def debt : Op → τ → Fifo τ → Fifo τ × Exit τ
  | .down, t, f =>
    if 0 ≤ f.count - 1 then ({ f with count := f.count - 1 }, ⟨0, .ret⟩)
    else (⟨f.count - 1, f.queue ++ [t]⟩, ⟨0, .suspend⟩)
  | .tryDown, _, f =>
    if 0 ≤ f.count then ({ f with count := f.count - 1 }, ⟨0, .ret⟩) else (f, ⟨-1, .ret⟩)
  | .up, _, ⟨n, []⟩ => (⟨n + 1, []⟩, ⟨0, .ret⟩)
  | .up, _, ⟨n, w :: q⟩ => (⟨n + 1, q⟩, ⟨0, .wake w⟩)

variable {c : Cell τ} {xs : List (Addr × τ)} {f f' : Fifo τ} {a : Addr}

theorem sthreadSemDown_refines (h : Refines c xs f) (ha : c.heap a = none) (t : τ) :
    ∃ c' xs', sthreadSemDown t a c = some (c', (debt .down t f).2) ∧
      Refines c' xs' (debt .down t f).1 ∧ Frame c c' xs xs' a := by
  have hw := h.withCount (f.count - 1)
  by_cases hc : 0 ≤ f.count - 1
  · simp only [sthreadSemDown, debt, h.count, ge_iff_le, if_pos hc]
    exact ⟨_, xs, rfl, hw, Frame.refl ..⟩
  · obtain ⟨c', hi, hr, hf⟩ := insertNode_refines hw ha t
    simp only [sthreadSemDown, debt, h.count, ge_iff_le, if_neg hc, hi, Option.bind_eq_bind,
      Option.bind_some]
    exact ⟨c', _, rfl, hr, hf.heap, hf.nodes⟩

theorem sthreadSemTryDown_refines (h : Refines c xs f) (t : τ) :
    (sthreadSemTryDown c).2 = (debt .tryDown t f).2 ∧
      Refines (sthreadSemTryDown c).1 xs (debt .tryDown t f).1 ∧
      Frame c (sthreadSemTryDown c).1 xs xs a := by
  by_cases hc : 0 ≤ f.count
  · simp only [sthreadSemTryDown, debt, h.count, ge_iff_le, if_pos hc]
    exact ⟨trivial, h.withCount _, Frame.refl ..⟩
  · simp only [sthreadSemTryDown, debt, h.count, ge_iff_le, if_neg hc]
    exact ⟨trivial, h, Frame.refl ..⟩

theorem sthreadSemUp_refines (h : Refines c xs f) (t : τ) :
    ∃ c' xs', sthreadSemUp c = some (c', (debt .up t f).2) ∧
      Refines c' xs' (debt .up t f).1 ∧ Frame c c' xs xs' a := by
  have hw := h.withCount (f.count + 1)
  obtain ⟨n, _ | ⟨w, q⟩⟩ := f
  · have hc : c.sem.sthreadCount ≤ 0 := h.sthreadCount_le.mpr rfl
    simp only [sthreadSemUp, debt, if_pos hc, h.count]
    exact ⟨_, xs, rfl, hw, Frame.refl ..⟩
  · have hc : ¬ c.sem.sthreadCount ≤ 0 := fun hc => absurd (h.sthreadCount_le.mp hc) (by simp)
    obtain ⟨b, m, c₁, c₂, xs', hr, hd, hf, hq, hframe⟩ := removeNode_refines hw a
    simp only [sthreadSemUp, debt, if_neg hc, h.count, hr, hd, hf, Option.bind_eq_bind,
      Option.bind_some]
    exact ⟨c₂, xs', rfl, hq, hframe.heap, hframe.nodes⟩

theorem crit_implements : Implements (τ := τ) crit debt := by
  intro c xs f op t a h ha
  cases op with
  | down => exact sthreadSemDown_refines h ha t
  | tryDown =>
    obtain ⟨he, hr, hf⟩ := sthreadSemTryDown_refines (a := a) h t
    exact ⟨_, xs, congrArg some (Prod.ext rfl he), hr, hf⟩
  | up => exact sthreadSemUp_refines h t

/-- A critical section other than a `try_down` that finds `count = 0`. -/
def Sound (e : Event τ) : Prop := e.op = .tryDown → e.before ≠ 0

/-- The units granted stayed within the initial count and the `up`s all along the log. -/
def Bounded (count : ℕ) (log : List (Event τ)) : Prop :=
  ∀ pre, pre <+: log → granted pre ≤ count + ups pre

theorem bounded_concat {count : ℕ} {log : List (Event τ)} {e : Event τ} :
    Bounded count (log ++ [e]) ↔
      Bounded count log ∧ granted (log ++ [e]) ≤ count + ups (log ++ [e]) := by
  constructor
  · intro h
    exact ⟨fun pre hp => h pre (hp.trans (List.prefix_append ..)), h _ List.prefix_rfl⟩
  · rintro ⟨h, he⟩ pre hp
    rcases List.prefix_concat_iff.mp hp with rfl | hp
    · exact he
    · exact h pre hp

structure Debt (count : ℕ) (f : Fifo τ) (log : List (Event τ)) : Prop where
  balance : f.count + f.queue.length + granted log = count + ups log
  shape : (∀ e ∈ log, Sound e) →
    f.count = -f.queue.length ∨ 0 ≤ f.count ∧ f.queue = []
  exact : Bounded count log ↔ ∀ e ∈ log, Sound e

variable {count : ℕ} {log : List (Event τ)}

theorem debt_init (count : ℕ) : Debt (τ := τ) count ⟨count, []⟩ [] := by
  refine ⟨rfl, fun _ => Or.inr ⟨Int.natCast_nonneg _, rfl⟩, ?_⟩
  simp [Bounded, granted, total]

/-- One critical section: it keeps the balance, and it breaks the bound exactly if unsound. -/
theorem Debt.concat (h : Debt count f log) {e : Event τ}
    (hb : f'.count + f'.queue.length + granted (log ++ [e]) = count + ups (log ++ [e]))
    (hgood : (∀ e ∈ log, Sound e) → Sound e →
      f'.count = -f'.queue.length ∨ 0 ≤ f'.count ∧ f'.queue = [])
    (hbad : (∀ e ∈ log, Sound e) → ¬ Sound e → f'.count + f'.queue.length < 0) :
    Debt count f' (log ++ [e]) := by
  have hall : (∀ d ∈ log ++ [e], Sound d) ↔ (∀ d ∈ log, Sound d) ∧ Sound e := by
    simp only [List.mem_append, List.mem_singleton, or_imp, forall_and, forall_eq]
  refine ⟨hb, fun hs => hgood (hall.mp hs).1 (hall.mp hs).2, ?_⟩
  rw [bounded_concat, h.exact, hall]
  refine and_congr_right fun hl => ⟨fun hle => ?_, fun he => ?_⟩
  · by_contra he
    have := hbad hl he
    omega
  · rcases hgood hl he with hq | ⟨hc, hq⟩ <;> omega

theorem Debt.down (h : Debt count f log) (t : τ) :
    Debt count (debt .down t f).1 (log ++ [record .down t f.count (debt .down t f).2]) := by
  have hb := h.balance
  have hs (x : Exit τ) : Sound (record .down t f.count x) := fun he => by cases he
  by_cases hc : 0 ≤ f.count - 1
  · simp only [debt, if_pos hc]
    refine h.concat ?_ (fun hl _ => ?_) fun _ hn => absurd (hs _) hn
    · simp only [granted_concat, ups_concat, record, grantee, Option.isSome_some, if_true,
        reduceCtorEq, if_false]
      push_cast
      omega
    · rcases h.shape hl with hq | ⟨_, hq⟩
      · omega
      · exact Or.inr ⟨hc, hq⟩
  · simp only [debt, if_neg hc]
    refine h.concat ?_ (fun hl _ => Or.inl ?_) fun _ hn => absurd (hs _) hn
    · simp only [granted_concat, ups_concat, record, grantee, Option.isSome_none, if_false,
        reduceCtorEq, Bool.false_eq_true, List.length_append, List.length_singleton]
      push_cast
      omega
    · simp only [List.length_append, List.length_singleton]
      push_cast
      rcases h.shape hl with hq | ⟨_, hq⟩
      · omega
      · simp only [hq, List.length_nil]
        omega

theorem Debt.tryDown (h : Debt count f log) (t : τ) :
    Debt count (debt .tryDown t f).1
      (log ++ [record .tryDown t f.count (debt .tryDown t f).2]) := by
  have hb := h.balance
  by_cases hc : 0 ≤ f.count
  · simp only [debt, if_pos hc]
    refine h.concat ?_ (fun hl he => ?_) fun hl he => ?_
    · simp only [granted_concat, ups_concat, record, grantee, Option.isSome_some, if_true,
        reduceCtorEq, if_false]
      push_cast
      omega
    · have h0 : f.count ≠ 0 := he rfl
      rcases h.shape hl with hq | ⟨_, hq⟩
      · omega
      · exact Or.inr ⟨by simp only; omega, hq⟩
    · have h0 : f.count = 0 := by
        by_contra h0
        exact he fun _ => h0
      rcases h.shape hl with hq | ⟨_, hq⟩
      · simp only
        omega
      · simp only [hq, List.length_nil]
        omega
  · simp only [debt, if_neg hc]
    refine h.concat ?_ (fun hl _ => h.shape hl) fun _ he => absurd (fun _ => ?_) he
    · simpa [granted_concat, ups_concat, record, grantee] using hb
    · simp only [record]
      omega

theorem Debt.up (h : Debt count f log) (t : τ) :
    Debt count (debt .up t f).1 (log ++ [record .up t f.count (debt .up t f).2]) := by
  have hb := h.balance
  have hs (x : Exit τ) (n : ℤ) : Sound (record .up t n x) := fun he => by cases he
  obtain ⟨n, _ | ⟨w, q⟩⟩ := f
  · refine h.concat ?_ (fun hl _ => Or.inr ⟨?_, rfl⟩) fun _ hn => absurd (hs _ n) hn
    · simp only [debt, granted_concat, ups_concat, record, grantee, Option.isSome_none,
        if_true, Bool.false_eq_true, if_false] at hb ⊢
      push_cast
      omega
    · have := h.shape hl
      simp only [debt, List.length_nil] at this ⊢
      omega
  · refine h.concat ?_ (fun hl _ => Or.inl ?_) fun _ hn => absurd (hs _ n) hn
    · simp only [debt, granted_concat, ups_concat, record, grantee, Option.isSome_some,
        if_true, List.length_cons] at hb ⊢
      push_cast at hb ⊢
      omega
    · have := h.shape hl
      simp only [debt, List.length_cons, reduceCtorEq, and_false, or_false] at this ⊢
      push_cast at this
      omega

theorem debt_step (h : Debt count f log) (op : Op) (t : τ) :
    Debt count (debt op t f).1 (log ++ [record op t f.count (debt op t f).2]) := by
  cases op with
  | down => exact h.down t
  | tryDown => exact h.tryDown t
  | up => exact h.up t

variable [DecidableEq τ]

/-- The grants of a run stay within its units exactly if no `try_down` of the run finds
`count = 0`, and then owners are never more than the initial count. -/
theorem units_bounded_iff (count : ℕ) (c : Cell τ) (s : State τ)
    (h : Reaches (next crit) (start count c) s) :
    (Bounded count s.log ↔ ∀ e ∈ s.log, e.op = .tryDown → e.before ≠ 0) ∧
      ((∀ e ∈ s.log, e.op = .tryDown → e.before ≠ 0) → OwnersUp s.log →
        ∀ S : Finset τ, (∀ t ∈ S, 0 < owned s.log t) → S.card ≤ count) := by
  obtain ⟨xs, f, -, hf⟩ := crit_implements.models (debt_init count)
    (fun _ _ op t hf => debt_step hf op t) h
  refine ⟨hf.exact, fun he ho S hS => ?_⟩
  have hcard : (S.card : ℤ) ≤ granted s.log - ups s.log := Covered.card_holders_le ho hS
  have hle := hf.exact.mpr he s.log List.prefix_rfl
  omega

/-- A refused `try_down`, taken while a thread waits. -/
theorem units_bounded_refused : ∃ s, exec (next crit)
      (callSteps 0 .down 0 5 ++ callSteps 1 .down 0 4 ++ callSteps 2 .tryDown 1 5)
      (start 1 ⟨⟨0, 0, none, none⟩, fun _ => none⟩) = some s ∧
    granted s.log = 1 ∧ Bounded 1 s.log := by
  obtain ⟨s, hs, hv⟩ := Option.map_eq_some_iff.mp (show (exec (next crit)
      (callSteps 0 .down 0 5 ++ callSteps 1 .down 0 4 ++ callSteps 2 .tryDown 1 5)
      (start 1 ⟨⟨0, 0, none, none⟩, fun _ => none⟩)).map (fun s => s.log) =
    some [⟨0, .down, 1, some 0⟩, ⟨1, .down, 0, none⟩, ⟨2, .tryDown, -1, none⟩] by decide)
  refine ⟨s, hs, by rw [hv]; rfl, ?_⟩
  exact (units_bounded_iff 1 _ s ⟨_, hs⟩).1.mpr (by rw [hv]; decide)

/-- Thread 0 owns the only unit, and the `try_down` of thread 1 still answers 0. -/
theorem try_down_overgrants : ∃ s, exec (next crit)
      (callSteps 0 .down 0 5 ++ callSteps 1 .tryDown 0 5)
      (start 1 ⟨⟨0, 0, none, none⟩, fun _ => none⟩) = some s ∧
    ¬ granted s.log ≤ 1 + ups s.log ∧ ups s.log = 0 ∧ 0 < owned s.log 0 ∧ 0 < owned s.log 1 := by
  obtain ⟨s, hs, hv⟩ := Option.map_eq_some_iff.mp (show (exec (next crit)
      (callSteps 0 .down 0 5 ++ callSteps 1 .tryDown 0 5)
      (start 1 ⟨⟨0, 0, none, none⟩, fun _ => none⟩)).map (fun s => s.log) =
    some [⟨0, .down, 1, some 0⟩, ⟨1, .tryDown, 0, some 1⟩] by decide)
  refine ⟨s, hs, ?_⟩
  rw [hv]
  decide

end AndroidKernel.SyncAd
