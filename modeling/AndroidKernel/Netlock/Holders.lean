import AndroidKernel.Lib.Int32
import AndroidKernel.Netlock.Steps

/-! The holders of the network lock against its three variables. A task that is resumed by
`schedule()` counts itself a holder without any variable having changed; `netlock_acquire` never
clears `read_lock_available`; `netlock_release` cannot tell which kind of lock is given back. In
the runs that stay clear of these the variables describe the holders. -/

namespace AndroidKernel.Netlock
open Lts
variable {τ : Type}

def Disciplined (s : State τ) : Act τ → Prop
  | .release t k _ => t ∈ s.holders k
  | _ => True

def TrackedAt (s : State τ) : Pc → Prop
  | .sleeping .. => False
  | .acquire type _ =>
    type = NET_LOCK_R → s.writeLockAvailable = 1 → s.readerCount < Int32.maxValue
  | .release .regular _ => s.readerCount = 1 → s.writeLockAvailable = 1
  | .release .exclusive _ => s.readerCount = 0
  | _ => True

/-- No waiting task is resumed, the counter does not overflow, the last regular lock is not given
back while the exclusive one is out, nor the exclusive one while a regular one is. -/
def Tracked (s : State τ) : Act τ → Prop
  | .step t _ _ _ => TrackedAt s (s.pc t)
  | _ => True

structure Balanced (s : State τ) : Prop where
  readable : s.readLockAvailable = 1
  readers : s.readerCount.toInt = s.regular.length
  writer : (s.writeLockAvailable = 1 ∧ s.exclusive = []) ∨
    (s.writeLockAvailable = 0 ∧ ∃ t, s.exclusive = [t])
  releasing : ∀ t k, (s.pc t).releasing = some k → t ∈ s.holders k

theorem Balanced.exclusive_eq_nil {s : State τ} (h : Balanced s)
    (hw : s.writeLockAvailable = 1) : s.exclusive = [] := by
  obtain ⟨-, he⟩ | ⟨hz, -⟩ := h.writer
  · exact he
  · exact absurd (hz.symm.trans hw) (by decide)

theorem Balanced.writeLockAvailable_eq_zero {s : State τ} (h : Balanced s) :
    s.writeLockAvailable = 0 ↔ s.exclusive ≠ [] := by
  obtain ⟨hw, he⟩ | ⟨hw, t, he⟩ := h.writer
  · simp [hw, he]
  · simp [hw, he]

variable [DecidableEq τ] {s s' : State τ} {a : Act τ}

theorem Balanced.update (hb : Balanced s) {t : τ} {p : Pc}
    (hp : s'.pc = Function.update s.pc t p) (hrel : ∀ k, p.releasing = some k → t ∈ s'.holders k)
    (hother : ∀ u k, u ≠ t → u ∈ s.holders k → u ∈ s'.holders k)
    (hr : s'.readLockAvailable = 1) (hc : s'.readerCount.toInt = s'.regular.length)
    (hw : (s'.writeLockAvailable = 1 ∧ s'.exclusive = []) ∨
      (s'.writeLockAvailable = 0 ∧ ∃ t, s'.exclusive = [t])) : Balanced s' := by
  refine ⟨hr, hc, hw, fun u k hu => ?_⟩
  by_cases hut : u = t
  · subst hut
    rw [hp, Function.update_self] at hu
    exact hrel k hu
  · rw [hp, Function.update_of_ne hut] at hu
    exact hother u k hut (hb.releasing u k hu)

theorem Balanced.goto (hb : Balanced s) {t : τ} {p : Pc}
    (hp : s'.pc = Function.update s.pc t p) (hrel : ∀ k, p.releasing = some k → t ∈ s.holders k)
    (hh : s'.holders = s.holders) (hr : s'.readLockAvailable = s.readLockAvailable)
    (hw : s'.writeLockAvailable = s.writeLockAvailable)
    (hc : s'.readerCount = s.readerCount) : Balanced s' := by
  have hreg : s'.regular = s.regular := congrFun hh .regular
  have hexc : s'.exclusive = s.exclusive := congrFun hh .exclusive
  refine hb.update hp (fun k hk => hh ▸ hrel k hk) (fun u k _ hu => hh ▸ hu) ?_ ?_ ?_
  · rw [hr, hb.readable]
  · rw [hc, hreg, hb.readers]
  · rw [hw, hexc]
    exact hb.writer

theorem mem_holders_dropHolder {t u : τ} (k j : Kind) (hu : u ≠ t) (h : u ∈ s.holders j) :
    u ∈ (s.dropHolder t k).holders j := by
  cases k <;> cases j <;> simp_all [State.holders, State.dropHolder]

theorem Balanced.freeAll (hb : Balanced s) {t : τ} {k : Kind} {wait : Addr}
    (hp : s.pc t = .release k wait) (ht : TrackedAt s (s.pc t)) (hr : s.readerCount ≤ 1) :
    Balanced (({ s with
      readerCount := 0, readLockAvailable := 1, writeLockAvailable := 1,
      lock := false }.dropHolder t k).leave t wait 0) := by
  have hmem : t ∈ s.holders k := hb.releasing t k (by rw [hp]; rfl)
  have hle : s.readerCount.toInt ≤ 1 := Int32.le_iff_toInt_le.mp hr
  have hc := hb.readers
  rw [hp] at ht
  cases k with
  -- the last reader leaves: the reset of `write_lock_available` frees no writer
  | regular =>
    replace hmem : t ∈ s.regular := hmem
    have hlen : s.regular.length = 1 := by
      have := List.length_pos_of_mem hmem
      omega
    have hone : s.readerCount = 1 := Int32.toInt_inj.mp (by rw [hc, hlen]; rfl)
    have hnil : s.regular.erase t = [] := by
      rw [← List.length_eq_zero_iff, List.length_erase_of_mem hmem, hlen]
    refine hb.update rfl (fun k hk => by cases hk)
      (fun u j hu h => mem_holders_dropHolder .regular j hu h) rfl ?_
      (Or.inl ⟨rfl, hb.exclusive_eq_nil (ht hone)⟩)
    simp [State.leave, State.goto, State.dropHolder, hnil]
  | exclusive =>
    have hzero : s.readerCount = 0 := ht
    refine hb.update rfl (fun k hk => by cases hk)
      (fun u j hu h => mem_holders_dropHolder .exclusive j hu h) rfl ?_ (Or.inl ⟨rfl, ?_⟩)
    · rw [hzero] at hc
      exact hc
    · obtain ⟨-, he⟩ | ⟨-, u, he⟩ := hb.writer
      · simp [State.leave, State.goto, State.dropHolder, he]
      · have hu : t = u := by simpa [State.holders, he] using hmem
        simp [State.leave, State.goto, State.dropHolder, he, hu]

theorem Balanced.countDown (hb : Balanced s) {t : τ} {k : Kind} {wait : Addr}
    (hp : s.pc t = .release k wait) (ht : TrackedAt s (s.pc t)) (hr : ¬ s.readerCount ≤ 1) :
    Balanced (({ s with readerCount := s.readerCount - 1, lock := false }.dropHolder t k).leave
      t wait 0) := by
  have hmem : t ∈ s.holders k := hb.releasing t k (by rw [hp]; rfl)
  rw [hp] at ht
  cases k with
  | regular =>
    replace hmem : t ∈ s.regular := hmem
    refine hb.update rfl (fun k hk => by cases hk)
      (fun u j hu h => mem_holders_dropHolder .regular j hu h) hb.readable ?_ hb.writer
    have hlen := List.length_erase_of_mem hmem
    have hpos := List.length_pos_of_mem hmem
    have hc := hb.readers
    simp only [State.leave, State.goto, State.dropHolder]
    rw [Int32.toInt_sub_one (Int32.not_le.mp hr), hc, hlen]
    omega
  -- a writer never takes this branch, since no reader is counted
  | exclusive =>
    have hzero : s.readerCount = 0 := ht
    exact absurd (by rw [hzero]; decide) hr

theorem Balanced.step (hb : Balanced s) (hd : Disciplined s a) (ht : Tracked s a)
    (h : Step s a s') : Balanced s' := by
  cases h with
  | acquire t type wait hp hw =>
    exact hb.goto rfl (fun k hk => by cases hk) rfl rfl rfl rfl
  | release t k wait hp hw =>
    refine hb.goto rfl (fun j hj => ?_) rfl rfl rfl rfl
    obtain rfl : k = j := by simpa [Pc.releasing] using hj
    exact hd
  | spin => exact hb
  | takeAcquire t type wait head l f hp =>
    exact hb.goto rfl (fun k hk => by cases hk) rfl rfl rfl rfl
  | takeRelease t k wait head l f hp =>
    refine hb.goto rfl (fun j hj => hb.releasing t j ?_) rfl rfl rfl rfl
    rw [hp]
    exact hj
  | grantRegular t wait head l f hp hw =>
    refine hb.update rfl (fun k hk => by cases hk) (fun u k _ hu => ?_) hb.readable ?_ hb.writer
    · cases k <;> simp_all [State.holders, State.addHolder, State.leave, State.goto]
    · have hlt : s.readerCount < Int32.maxValue := by
        simp only [Tracked, hp, TrackedAt, forall_const] at ht
        exact ht hw
      have hc := hb.readers
      simp only [State.leave, State.goto, State.addHolder, List.length_cons]
      rw [Int32.toInt_add_one hlt, hc]
      push_cast
      rfl
  | grantExclusive t wait head l f hp hw hr =>
    refine hb.update rfl (fun k hk => by cases hk) (fun u k _ hu => ?_) hb.readable hb.readers
      (Or.inr ⟨rfl, t, ?_⟩)
    · cases k <;> simp_all [State.holders, State.addHolder, State.leave, State.goto]
    · simp [State.leave, State.goto, State.addHolder, hb.exclusive_eq_nil hw]
  | wait t type k wait head l f hp =>
    exact hb.goto rfl (fun k hk => by cases hk) rfl rfl rfl rfl
  | refuse t type wait head l f b r hp =>
    exact hb.goto rfl (fun k hk => by cases hk) rfl rfl rfl rfl
  | resume t k wait h' head l f hp =>
    simp only [Tracked, hp, TrackedAt] at ht
  | freeAll t k wait head l f hp hr => exact hb.freeAll hp ht hr
  | countDown t k wait head l f hp hr => exact hb.countDown hp ht hr
  | ret t r head l f hp => exact hb.goto rfl (fun k hk => by cases hk) rfl rfl rfl rfl

omit [DecidableEq τ] in
theorem start_balanced (list : Lists) (flag : Addr → Int32) :
    Balanced (start list flag : State τ) :=
  ⟨rfl, rfl, Or.inl ⟨rfl, rfl⟩, fun _ _ h => (by cases h)⟩

def OnceAt (s : State τ) (t : τ) : Pc → Prop
  | .acquire type _ => type = NET_LOCK_R → s.writeLockAvailable = 1 → t ∉ s.regular
  | _ => True

def Once (s : State τ) : Act τ → Prop
  | .step t _ _ _ => OnceAt s t (s.pc t)
  | _ => True

theorem nodup_step (hn : s.regular.Nodup) (ht : Tracked s a) (ho : Once s a) (h : Step s a s') :
    s'.regular.Nodup := by
  have hdrop : ∀ t k, (s.dropHolder t k).regular.Nodup := by
    intro t k
    cases k with
    | regular => exact hn.erase t
    | exclusive => exact hn
  cases h with
  | acquire | release | spin | takeAcquire | takeRelease | grantExclusive | wait | refuse | ret =>
    exact hn
  | grantRegular t wait head l f hp hw =>
    simp only [Once, hp, OnceAt, forall_const] at ho
    exact List.nodup_cons.mpr ⟨ho hw, hn⟩
  | resume t k wait h' head l f hp => simp only [Tracked, hp, TrackedAt] at ht
  | freeAll t k wait head l f hp hr =>
    cases k with
    | regular => exact hdrop t .regular
    | exclusive => exact hdrop t .exclusive
  | countDown t k wait head l f hp hr =>
    cases k with
    | regular => exact hdrop t .regular
    | exclusive => exact hdrop t .exclusive

/-- In every run whose steps can be tracked by the three variables, `reader_count` is the number of
tasks with the regular lock and `write_lock_available` tells whether the exclusive one is out. -/
theorem bookkeeping_exact (list : Lists) (flag : Addr → Int32) (as : List (Act τ)) (s : State τ)
    (hd : Meets next Disciplined as (start list flag))
    (ht : Meets next Tracked as (start list flag)) (ho : Meets next Once as (start list flag))
    (h : exec next as (start list flag) = some s) :
    s.readerCount.toInt = s.regular.toFinset.card ∧
      (s.writeLockAvailable = 0 ↔ ∃ t, t ∈ s.exclusive) := by
  obtain ⟨-, hb, hn⟩ := step_invariant (P := fun s => Balanced s ∧ s.regular.Nodup)
    (fun s a s' hs hc hstep => ⟨hs.1.step hc.1 hc.2.1 hstep, nodup_step hs.2 hc.2.1 hc.2.2 hstep⟩)
    ⟨start_balanced list flag, List.nodup_nil⟩ (hd.and (ht.and ho)) h
  refine ⟨?_, ?_⟩
  · rw [hb.readers, List.toFinset_card_of_nodup hn]
  · rw [hb.writeLockAvailable_eq_zero, Ne, List.eq_nil_iff_forall_not_mem,
      not_forall_not]

instance (s : State τ) (a : Act τ) : Decidable (Disciplined s a) := match a with
  | .release t k _ => inferInstanceAs (Decidable (t ∈ s.holders k))
  | .acquire .. | .step .. => inferInstanceAs (Decidable True)

instance (s : State τ) (p : Pc) : Decidable (TrackedAt s p) := match p with
  | .sleeping .. => inferInstanceAs (Decidable False)
  | .acquire type _ => inferInstanceAs (Decidable
    (type = NET_LOCK_R → s.writeLockAvailable = 1 → s.readerCount < Int32.maxValue))
  | .release .regular _ =>
    inferInstanceAs (Decidable (s.readerCount = 1 → s.writeLockAvailable = 1))
  | .release .exclusive _ => inferInstanceAs (Decidable (s.readerCount = 0))
  | .idle | .acquireSpin .. | .releaseSpin .. | .scan .. | .ret _ =>
    inferInstanceAs (Decidable True)

instance (s : State τ) (t : τ) (p : Pc) : Decidable (OnceAt s t p) := match p with
  | .acquire type _ => inferInstanceAs (Decidable
    (type = NET_LOCK_R → s.writeLockAvailable = 1 → t ∉ s.regular))
  | .idle | .acquireSpin .. | .sleeping .. | .releaseSpin .. | .release .. | .scan .. | .ret _ =>
    inferInstanceAs (Decidable True)

instance (s : State τ) (a : Act τ) : Decidable (Tracked s a) := match a with
  | .step t _ _ _ => inferInstanceAs (Decidable (TrackedAt s (s.pc t)))
  | .acquire .. | .release .. => inferInstanceAs (Decidable True)

instance (s : State τ) (a : Act τ) : Decidable (Once s a) := match a with
  | .step t _ _ _ => inferInstanceAs (Decidable (OnceAt s t (s.pc t)))
  | .acquire .. | .release .. => inferInstanceAs (Decidable True)

def steps (t : ℕ) (n : ℕ) : List (Act ℕ) := .replicate n (.step t 9 ⟨0, 0⟩ 0)

def mixed : List (Act ℕ) :=
  .acquire 0 NET_LOCK_R 1 :: steps 0 3 ++ .acquire 1 NET_LOCK_R 2 :: steps 1 3 ++
    .acquire 2 NET_LOCK_E 3 :: steps 2 3 ++ .release 0 .regular 1 :: steps 0 3

theorem bookkeeping_exact_mixed : ∃ s : State ℕ,
    exec next mixed (start (fun _ => ⟨0, 0⟩) fun _ => 0) = some s ∧
      s.readerCount.toInt = s.regular.toFinset.card ∧
      (s.writeLockAvailable = 0 ↔ ∃ t, t ∈ s.exclusive) := by
  obtain ⟨s, hs⟩ := Option.isSome_iff_exists.mp (show
    (exec next mixed (start (fun _ => ⟨0, 0⟩) fun _ => 0)).isSome = true by decide)
  exact ⟨s, hs, bookkeeping_exact _ _ _ s (by decide) (by decide) (by decide) hs⟩

/-- The last reader leaves and makes the exclusive lock of task 1 available. -/
theorem writer_forgotten : ∃ as : List (Act ℕ), ∃ s,
    exec next as (start (fun _ => ⟨0, 0⟩) fun _ => 0) = some s ∧
      Meets next Disciplined as (start (fun _ => ⟨0, 0⟩) fun _ => 0) ∧ s.lock = false ∧
      ¬ (s.writeLockAvailable = 0 ↔ ∃ t, t ∈ s.exclusive) := by
  refine ⟨.acquire 0 NET_LOCK_R 1 :: steps 0 3 ++ .acquire 1 NET_LOCK_E 2 :: steps 1 3 ++
    .release 0 .regular 1 :: steps 0 3, ?_⟩
  obtain ⟨s, hs, hv⟩ := Option.map_eq_some_iff.mp (show (exec next
      (.acquire 0 NET_LOCK_R 1 :: steps 0 3 ++ .acquire 1 NET_LOCK_E 2 :: steps 1 3 ++
        .release 0 .regular 1 :: steps 0 3)
      (start (fun _ => ⟨0, 0⟩) fun _ => 0)).map
        (fun s => (s.lock, s.writeLockAvailable, s.exclusive)) = some (false, 1, [1]) by decide)
  simp only [Prod.mk.injEq] at hv
  obtain ⟨hlock, hw, hexc⟩ := hv
  refine ⟨s, hs, by decide, hlock, fun h => ?_⟩
  exact absurd (hw.symm.trans (h.mpr ⟨1, by rw [hexc]; decide⟩)) (by decide)

end AndroidKernel.Netlock
