import AndroidKernel.Sync.Alternative

/-! `hw3/sync.c` against `hw3/sync_ad.c` on the same blocking calls. The critical sections that
threads execute under `flag` follow one another, so what two implementations do is compared on
sequences of critical sections; each implementation has its own heap and its own `malloc`. -/

namespace AndroidKernel.Sync
open Lts
variable {τ : Type}

structure Section (τ : Type) where
  op : Op
  thread : τ
  addr : Addr

def runSection (body : Op → τ → Addr → Cell τ → Option (Cell τ × Exit τ))
    (p : Cell τ × List (Event τ)) (x : Section τ) : Option (Cell τ × List (Event τ)) :=
  if (p.1.heap x.addr).isSome then none
  else (body x.op x.thread x.addr p.1).map fun r =>
    (r.1, p.2 ++ [record x.op x.thread p.1.sem.count r.2])

def SameCall (x y : Section τ) : Prop :=
  x.op = y.op ∧ x.thread = y.thread ∧ x.op ≠ .tryDown

/-- What a critical section decided: the call, its thread, and the thread granted a unit by it,
which for an `up` is the thread it wakes. -/
def Event.outcome (e : Event τ) : Op × τ × Option τ := (e.op, e.thread, e.grant)

structure Coupled (f g : Fifo τ) : Prop where
  nonneg : 0 ≤ f.count
  free : 0 < f.count → f.queue = []
  queue : g.queue = f.queue
  count : g.count = f.count - f.queue.length

variable {body : Op → τ → Addr → Cell τ → Option (Cell τ × Exit τ)}
  {spec : Op → τ → Fifo τ → Fifo τ × Exit τ}

theorem sections_run [DecidableEq τ] {s s' : State τ} (hl : Locked s)
    (h : Reaches (next body) s s') : ∃ xs log, s'.log = s.log ++ log ∧
      exec (runSection body) xs (s.cell, []) = some (s'.cell, log) := by
  refine (h.invariant (P := fun t => Locked t ∧ ∃ xs log, t.log = s.log ++ log ∧
    exec (runSection body) xs (s.cell, []) = some (t.cell, log)) (fun t a t' ht ha => ?_) ?_).2
  · obtain ⟨hl, xs, log, hlog, hx⟩ := ht
    refine ⟨hl.step (step_of_next ha), ?_⟩
    cases step_of_next ha with
    | spin | call | take | load | unlock | leave => exact ⟨xs, log, hlog, hx⟩
    | store u op d d' a e hp hfree hb =>
      obtain rfl := hl.current u op d hp
      refine ⟨xs ++ [⟨op, u, a⟩], log ++ [record op u t.cell.sem.count e], ?_, ?_⟩
      · simp only [hlog, List.append_assoc]
      · refine exec_append_eq_some.mpr ⟨_, hx, ?_⟩
        simp only [exec, runSection, hfree, hb, Option.isSome_none, Bool.false_eq_true, if_false,
          Option.map_some, Option.bind_some]
  · exact ⟨hl, [], [], (List.append_nil _).symm, rfl⟩

theorem sections_of_reaches [DecidableEq τ] {count : ℤ} {c : Cell τ} {s : State τ}
    (h : Reaches (next body) (start count c) s) :
    ∃ xs, exec (runSection body) xs ((sthreadSemInit count c).1, []) = some (s.cell, s.log) := by
  obtain ⟨xs, log, hlog, hx⟩ := sections_run (start_locked count c) h
  rw [hlog]
  exact ⟨xs, hx⟩

theorem Implements.runSection (himp : Implements body spec) {c : Cell τ}
    {xs : List (Addr × τ)} {f : Fifo τ} (h : Refines c xs f) (log : List (Event τ)) {x : Section τ}
    (ha : c.heap x.addr = none) : ∃ c' xs', Refines c' xs' (spec x.op x.thread f).1 ∧
      runSection body (c, log) x =
        some (c', log ++ [record x.op x.thread f.count (spec x.op x.thread f).2]) := by
  obtain ⟨c', xs', hb, hr, -⟩ := himp c xs f x.op x.thread x.addr h ha
  refine ⟨c', xs', hr, ?_⟩
  simp only [Sync.runSection, ha, hb, h.count, Option.isSome_none, Bool.false_eq_true, if_false,
    Option.map_some]

theorem addr_free {p q : Cell τ × List (Event τ)} {x : Section τ}
    (h : runSection body p x = some q) : p.1.heap x.addr = none := by
  by_contra hn
  rw [runSection, if_pos (Option.isSome_iff_ne_none.mpr hn)] at h
  cases h

/-- One blocking call on both semaphores: same decision, and the coupling survives. -/
theorem Coupled.step {f g : Fifo τ} (h : Coupled f g) {op : Op} (hop : op ≠ .tryDown) (t : τ) :
    Coupled (f.handOff op t).1 (SyncAd.debt op t g).1 ∧
      grantee op t (f.handOff op t).2 = grantee op t (SyncAd.debt op t g).2 := by
  obtain ⟨n, q⟩ := f
  obtain ⟨m, q'⟩ := g
  obtain ⟨h0, hfree, hq, hm⟩ := h
  simp only at h0 hfree hq hm
  subst hq hm
  cases op with
  | tryDown => exact absurd rfl hop
  | down =>
    by_cases hc : 0 < n
    · obtain rfl := hfree hc
      have hc' : 0 ≤ n - (0 : ℕ) - 1 := by omega
      simp only [Fifo.handOff, SyncAd.debt, List.length_nil, if_pos hc, if_pos hc']
      refine ⟨⟨?_, fun _ => rfl, rfl, ?_⟩, trivial⟩
      · simp only
        omega
      · simp only [List.length_nil]
        omega
    · have hc' : ¬ 0 ≤ n - (q'.length : ℤ) - 1 := by omega
      simp only [Fifo.handOff, SyncAd.debt, if_neg hc, if_neg hc']
      refine ⟨⟨h0, fun hp => absurd hp hc, rfl, ?_⟩, rfl⟩
      simp only [List.length_append, List.length_singleton]
      push_cast
      omega
  | up =>
    cases q' with
    | nil =>
      refine ⟨⟨?_, fun _ => rfl, rfl, ?_⟩, rfl⟩
      · simp only [Fifo.handOff]
        omega
      · simp only [Fifo.handOff, SyncAd.debt, List.length_nil]
        omega
    | cons w q =>
      refine ⟨⟨h0, fun hc => absurd (hfree hc) (by simp), rfl, ?_⟩, rfl⟩
      simp only [Fifo.handOff, SyncAd.debt, List.length_cons]
      push_cast
      omega

/-- The relation between the two implementations that every pair of critical sections keeps. -/
def Simulates (p q : Cell τ × List (Event τ)) : Prop :=
  ∃ xs ys f g, Refines p.1 xs f ∧ Refines q.1 ys g ∧ Coupled f g ∧
    q.2.map Event.outcome = p.2.map Event.outcome

theorem simulates_init (count : ℕ) (c d : Cell τ) :
    Simulates ((sthreadSemInit count c).1, []) ((sthreadSemInit count d).1, []) :=
  ⟨[], [], _, _, (sthreadSemInit_refines count c).2, (sthreadSemInit_refines count d).2,
    ⟨Int.natCast_nonneg count, fun _ => rfl, rfl, by simp⟩, rfl⟩

theorem Simulates.step {p q p' q' : Cell τ × List (Event τ)} {x y : Section τ}
    (h : Simulates p q) (hxy : SameCall x y) (hp : runSection crit p x = some p')
    (hq : runSection SyncAd.crit q y = some q') : Simulates p' q' := by
  obtain ⟨xs, ys, f, g, hf, hg, hc, hl⟩ := h
  obtain ⟨c, log⟩ := p
  obtain ⟨d, log'⟩ := q
  obtain ⟨op, t, a⟩ := x
  obtain ⟨op', t', b⟩ := y
  obtain ⟨rfl, rfl, hop⟩ := hxy
  obtain ⟨c', xs', hf', hc'⟩ := crit_implements.runSection hf log (addr_free hp)
  obtain ⟨d', ys', hg', hd'⟩ := SyncAd.crit_implements.runSection hg log' (addr_free hq)
  obtain rfl := Option.some.inj (hc'.symm.trans hp)
  obtain rfl := Option.some.inj (hd'.symm.trans hq)
  obtain ⟨hstep, hgrant⟩ := hc.step hop t
  refine ⟨xs', ys', _, _, hf', hg', hstep, ?_⟩
  simp only at hl
  simp only [List.map_append, List.map_cons, List.map_nil, hl, Event.outcome, record, hgrant]

/-- On every sequence of `down`s and `up`s the two semaphores keep `count_ad = count - waiters`
and the same queue, have granted and woken the same threads in the same order, and can both run
whichever critical section comes next. -/
theorem implementations_agree (count : ℕ) (c d : Cell τ) (xs ys : List (Section τ))
    (hxy : List.Forall₂ SameCall xs ys) (p q : Cell τ × List (Event τ))
    (hp : exec (runSection crit) xs ((sthreadSemInit count c).1, []) = some p)
    (hq : exec (runSection SyncAd.crit) ys ((sthreadSemInit count d).1, []) = some q) :
    q.1.sem.count = p.1.sem.count - p.1.waiting.length ∧ q.1.waiting = p.1.waiting ∧
      q.2.map Event.outcome = p.2.map Event.outcome ∧
      (∀ x : Section τ, p.1.heap x.addr = none → (runSection crit p x).isSome) ∧
      ∀ y : Section τ, q.1.heap y.addr = none → (runSection SyncAd.crit q y).isSome := by
  have hstep : ∀ (p q : Cell τ × List (Event τ)) x y p' q', Simulates p q → SameCall x y →
      runSection crit p x = some p' → runSection SyncAd.crit q y = some q' → Simulates p' q' :=
    fun _ _ _ _ _ _ h hl ha hb => h.step hl ha hb
  obtain ⟨us, vs, f, g, hf, hg, hc, hl⟩ :=
    exec_forall₂ hstep hxy (simulates_init count c d) hp hq
  rw [hf.waiting_eq, hg.waiting_eq, hf.count, hg.count]
  refine ⟨hc.count, hc.queue, hl, fun x hx => ?_, fun y hy => ?_⟩
  · obtain ⟨c', _, _, he⟩ := crit_implements.runSection hf p.2 hx
    exact Option.isSome_iff_exists.mpr ⟨_, he⟩
  · obtain ⟨d', _, _, he⟩ := SyncAd.crit_implements.runSection hg q.2 hy
    exact Option.isSome_iff_exists.mpr ⟨_, he⟩

theorem implementations_agree_contended : ∃ p q,
    exec (runSection crit) [⟨.down, 0, 0⟩, ⟨.down, 1, 1⟩, ⟨.down, 2, 2⟩, ⟨.up, 0, 3⟩]
      ((sthreadSemInit 1 ⟨⟨0, 0, none, none⟩, fun _ => none⟩).1, []) = some p ∧
    exec (runSection SyncAd.crit) [⟨.down, 0, 5⟩, ⟨.down, 1, 5⟩, ⟨.down, 2, 4⟩, ⟨.up, 0, 6⟩]
      ((sthreadSemInit 1 ⟨⟨0, 0, none, none⟩, fun _ => none⟩).1, []) = some q ∧
    p.1.waiting = [2] ∧ q.1.waiting = p.1.waiting ∧
    q.1.sem.count = p.1.sem.count - p.1.waiting.length := by
  obtain ⟨p, hp, hw⟩ := Option.map_eq_some_iff.mp (show (exec (runSection crit)
    [⟨.down, 0, 0⟩, ⟨.down, 1, 1⟩, ⟨.down, 2, 2⟩, ⟨.up, 0, 3⟩]
      ((sthreadSemInit 1 ⟨⟨0, 0, none, none⟩, fun _ => none⟩).1, [])).map
        (fun p => p.1.waiting) = some [2] by decide)
  obtain ⟨q, hq⟩ := Option.isSome_iff_exists.mp (show (exec (runSection SyncAd.crit)
    [⟨.down, 0, 5⟩, ⟨.down, 1, 5⟩, ⟨.down, 2, 4⟩, ⟨.up, 0, 6⟩]
      ((sthreadSemInit 1 ⟨⟨0, 0, none, none⟩, fun _ => none⟩).1, [])).isSome = true by decide)
  have h := implementations_agree 1 _ _ _ _ (by simp [SameCall]) p q hp hq
  exact ⟨p, q, hp, hq, hw, h.2.1, h.1⟩

end AndroidKernel.Sync
