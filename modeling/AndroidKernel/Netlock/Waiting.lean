import AndroidKernel.Netlock.Holders

/-! Tasks that wait for the network lock. The entry of such a task hangs on a head of its own,
while every release examines a queue that it declares itself and that is empty; so a release
serves the waiting tasks in the runs in which no task has to wait, and in no others. -/

namespace AndroidKernel.Netlock
open Lts
variable {τ : Type} {s s' : State τ} {a : Act τ}

def OnQueue (l : Lists) (head entry : Addr) : Prop :=
  entry ≠ head ∧ ∃ n, (fun a => (l a).next)^[n] head = entry

/-- The entry with its kind is on the queue that a release called now will examine, whatever free
address its `wait_queue` gets. -/
def Recorded (s : State τ) (k : Kind) (wait head : Addr) : Prop :=
  s.netlockFlag head = k.flag ∧ ∀ v ∉ s.live, OnQueue (s.defineWait v).list v wait

/-- A waiting task is recorded until it is handed the lock, no release finds its queue empty while
a task waits, and no acquire has returned from waiting before the hand-over. -/
structure Served (s : State τ) : Prop where
  recorded : ∀ t k wait head, s.pc t = .sleeping k wait head → s.handed t = false →
    Recorded s k wait head
  nonempty : ∀ t k wait, s.pc t = .release k wait → listEmpty s.list wait = true →
    ∀ u, (s.pc u).isSleeping = false
  handed : s.early = []

def BlockedAt (s : State τ) : Pc → Prop
  | .acquire type _ => Blocks s type .regular ∨ Blocks s type .exclusive
  | _ => False

def Blocked (s : State τ) : Act τ → Prop
  | .step t _ _ _ => BlockedAt s (s.pc t)
  | _ => False

instance (s : State τ) (p : Pc) : Decidable (BlockedAt s p) := match p with
  | .acquire type _ => inferInstanceAs (Decidable
    (type = NET_LOCK_R ∧ s.writeLockAvailable ≠ 1 ∨
      type = NET_LOCK_E ∧ ¬ (s.writeLockAvailable = 1 ∧ s.readLockAvailable = 1)))
  | .idle | .acquireSpin .. | .sleeping .. | .releaseSpin .. | .release .. | .scan .. | .ret _ =>
    inferInstanceAs (Decidable False)

instance (s : State τ) (a : Act τ) : Decidable (Blocked s a) := match a with
  | .step t _ _ _ => inferInstanceAs (Decidable (BlockedAt s (s.pc t)))
  | .acquire .. | .release .. => inferInstanceAs (Decidable False)

theorem not_recorded (s : State τ) (k : Kind) (wait head : Addr) : ¬ Recorded s k wait head := by
  rintro ⟨-, h⟩
  obtain ⟨v, hv⟩ := Infinite.exists_notMem_finset s.live
  obtain ⟨hne, n, hn⟩ := h v hv
  have hfix : Function.IsFixedPt (fun a => ((s.defineWait v).list a).next) v := by
    simp [Function.IsFixedPt, State.defineWait]
  exact hne (hn.symm.trans (hfix.iterate n))

def Unblocked (s : State τ) : Prop := (∀ t, (s.pc t).isSleeping = false) ∧ s.early = []

theorem Unblocked.served (hu : Unblocked s) : Served s := by
  refine ⟨fun t k wait head hp _ => ?_, fun _ _ _ _ _ => hu.1, hu.2⟩
  have := hu.1 t
  simp [hp, Pc.isSleeping] at this

variable [DecidableEq τ]

theorem next_of_blocked (hb : Blocked s a) (h : next s a = some s') :
    ∃ t k wait head l, s' = s.enqueue t k wait head l := by
  cases a with
  | acquire | release => exact hb.elim
  | step t head l f =>
    simp only [Blocked] at hb
    simp only [next] at h
    cases hp : s.pc t with
    | acquire type wait =>
      simp only [hp, BlockedAt] at hb
      simp only [hp, netlockAcquire, State.wait] at h
      obtain ⟨hR, hw⟩ | ⟨hE, hg⟩ := hb
      · simp only [hR, if_true, if_neg hw] at h
        split_ifs at h
        exact ⟨t, .regular, wait, head, l, (Option.some_inj.mp h).symm⟩
      · simp only [hE, show ¬ NET_LOCK_E = NET_LOCK_R by decide, if_true, if_false,
          if_neg hg] at h
        split_ifs at h
        exact ⟨t, .exclusive, wait, head, l, (Option.some_inj.mp h).symm⟩
    | idle | acquireSpin | sleeping | releaseSpin | release | scan | ret =>
      simp only [hp, BlockedAt] at hb

theorem not_served_enqueue (s : State τ) (t : τ) (k : Kind) (wait head : Addr) (l : ListHead) :
    ¬ Served (s.enqueue t k wait head l) := by
  intro h
  refine not_recorded _ k wait head (h.recorded t k wait head ?_ ?_)
  · simp [State.enqueue, State.goto]
  · simp [State.enqueue, State.goto]

theorem unblocked_step (hu : Unblocked s) (hb : ¬ Blocked s a)
    (h : Step s a s') : Unblocked s' := by
  have hgoto : ∀ t p, p.isSleeping = false →
      ∀ u, (Function.update s.pc t p u).isSleeping = false := by
    intro t p hp u
    by_cases hut : u = t
    · rw [hut, Function.update_self, hp]
    · rw [Function.update_of_ne hut]
      exact hu.1 u
  cases h with
  | acquire | release | takeAcquire | takeRelease | grantRegular | grantExclusive | refuse | ret =>
    exact ⟨hgoto _ _ rfl, hu.2⟩
  | spin => exact hu
  | wait t type k wait head l f hp hk =>
    refine absurd ?_ hb
    simp only [Blocked, hp, BlockedAt]
    cases k with
    | regular => exact Or.inl hk
    | exclusive => exact Or.inr hk
  | resume t k wait h' head l f hp =>
    have := hu.1 t
    simp [hp, Pc.isSleeping] at this
  | freeAll t k => cases k <;> exact ⟨hgoto _ _ rfl, hu.2⟩
  | countDown t k => cases k <;> exact ⟨hgoto _ _ rfl, hu.2⟩

/-- The waiting tasks of a run are served in all its states exactly if the run has none. -/
theorem waiters_served_iff (list : Lists) (flag : Addr → Int32) (as : List (Act τ)) (s : State τ)
    (h : exec next as (start list flag) = some s) :
    (∀ pre post s', as = pre ++ post → exec next pre (start list flag) = some s' → Served s') ↔
      Meets next (fun s a => ¬ Blocked s a) as (start list flag) := by
  refine ⟨fun hp => meets_of_prefixes (fun s a s' ha hs hb => ?_) h hp, ?_⟩
  · obtain ⟨t, k, wait, head, l, rfl⟩ := next_of_blocked hb ha
    exact not_served_enqueue s t k wait head l hs
  · rintro hm pre post s' rfl hs'
    have hpre := ((meets_append pre post _).mp hm).1
    exact (step_invariant (fun s a s' hu hb hstep => unblocked_step hu hb hstep)
      ⟨fun _ => rfl, rfl⟩ hpre hs').2.served

theorem waiters_served_mixed : ∃ s, exec next mixed (start (fun _ => ⟨0, 0⟩) fun _ => 0) = some s ∧
    ∀ pre post s', mixed = pre ++ post →
      exec next pre (start (fun _ => ⟨0, 0⟩) fun _ => 0) = some s' → Served s' := by
  obtain ⟨s, hs⟩ := Option.isSome_iff_exists.mp (show
    (exec next mixed (start (fun _ => ⟨0, 0⟩) fun _ => 0)).isSome = true by decide)
  exact ⟨s, hs, (waiters_served_iff _ _ _ s hs).mpr (by decide)⟩

/-- Task 1 waits for the exclusive lock; the release of task 0 finds its queue empty and makes the
lock available to everybody. -/
theorem release_misses_waiter : ∃ as : List (Act ℕ), ∃ s s',
    exec next as (start (fun _ => ⟨0, 0⟩) fun _ => 0) = some s ∧ ¬ Served s ∧
      (s.pc 1).isSleeping = true ∧ s.pc 0 = .release .exclusive 1 ∧
      listEmpty s.list 1 = true ∧ next s (.step 0 9 ⟨0, 0⟩ 0) = some s' ∧
      s'.writeLockAvailable = 1 ∧ (s'.pc 1).isSleeping = true := by
  have hrun : (exec next (.acquire 0 NET_LOCK_E 1 :: steps 0 3 ++
      .acquire 1 NET_LOCK_E 2 :: steps 1 2 ++ .release 0 .exclusive 1 :: steps 0 1)
      (start (fun _ => ⟨0, 0⟩) fun _ => 0)).map (fun s => ((s.pc 1).isSleeping, s.pc 0,
        listEmpty s.list 1, (next s (.step 0 9 ⟨0, 0⟩ 0)).map
          (fun s => (s.writeLockAvailable, (s.pc 1).isSleeping)))) =
    some (true, .release .exclusive 1, true, some (1, true)) := by decide
  obtain ⟨s, hs, hv⟩ := Option.map_eq_some_iff.mp hrun
  simp only [Prod.mk.injEq] at hv
  obtain ⟨h1, h0, he, hn⟩ := hv
  obtain ⟨s', hs', hv'⟩ := Option.map_eq_some_iff.mp hn
  refine ⟨_, s, s', hs, fun h => ?_, h1, h0, he, hs', congrArg Prod.fst hv', congrArg Prod.snd hv'⟩
  exact absurd (h1.symm.trans (h.nonempty 0 .exclusive 1 h0 he 1)) (by decide)

end AndroidKernel.Netlock
