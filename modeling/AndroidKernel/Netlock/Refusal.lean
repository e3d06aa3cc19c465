import AndroidKernel.Netlock.Holders

/-! A release by a task that holds nothing. `netlock_release` is documented to return -1 on failure,
but it keeps no record of the holders and has no failing path: it takes the branch that any release
takes, and answers 0. -/

namespace AndroidKernel.Netlock
open Lts
variable {τ : Type}

structure Kept (s s' : State τ) : Prop where
  readerCount : s'.readerCount = s.readerCount
  readLockAvailable : s'.readLockAvailable = s.readLockAvailable
  writeLockAvailable : s'.writeLockAvailable = s.writeLockAvailable
  list : s'.list = s.list
  sleeping : ∀ t, (s'.pc t).isSleeping = (s.pc t).isSleeping

def Refused (t : τ) (s s' : State τ) : Prop := s'.pc t = .ret (-1) ∧ Kept s s'

variable [DecidableEq τ] {s s' : State τ} {t : τ} {k : Kind} {wait : Addr}

/-- The variables of the file after the branch of an empty queue. -/
def State.givenBack (s : State τ) : State τ :=
  if s.readerCount ≤ 1 then
    { s with readerCount := 0, readLockAvailable := 1, writeLockAvailable := 1 }
  else { s with readerCount := s.readerCount - 1 }

theorem Locals.netlockRelease_eq (hl : Locals s) (hp : s.pc t = .release k wait) (head : Addr)
    (l : ListHead) (f : Int32) : next s (.step t head l f) =
      some (({ s.givenBack with lock := false }.dropHolder t k).leave t wait 0) := by
  have he : (s.list wait).next = wait :=
    hl.empty t k wait (by rw [hp]; rfl) (by rw [hp]; rfl)
  simp only [next, hp, netlockRelease, listEmpty, he, decide_true, if_true, State.givenBack]

theorem isSleeping_leave (hp : (s.pc t).isSleeping = false) (wait : Addr) (r : ℤ) (u : τ) :
    ((s.leave t wait r).pc u).isSleeping = (s.pc u).isSleeping := by
  by_cases hu : u = t
  · subst hu
    simp only [State.leave, State.goto, Function.update_self, hp]
    rfl
  · simp only [State.leave, State.goto, Function.update_of_ne hu]

theorem kept_givenBack (hp : s.pc t = .release k wait) :
    Kept s (({ s.givenBack with lock := false }.dropHolder t k).leave t wait 0) ↔
      s.readerCount = 0 ∧ s.readLockAvailable = 1 ∧ s.writeLockAvailable = 1 := by
  have hsleep : (s.pc t).isSleeping = false := by rw [hp]; rfl
  by_cases hr : s.readerCount ≤ 1
  · have hs : s.givenBack =
        { s with readerCount := 0, readLockAvailable := 1, writeLockAvailable := 1 } := if_pos hr
    rw [hs]
    constructor
    · intro h
      have h₁ := h.readerCount
      have h₂ := h.readLockAvailable
      have h₃ := h.writeLockAvailable
      cases k <;> exact ⟨h₁.symm, h₂.symm, h₃.symm⟩
    · rintro ⟨h₁, h₂, h₃⟩
      cases k <;> exact ⟨h₁.symm, h₂.symm, h₃.symm, rfl, isSleeping_leave hsleep wait 0⟩
  · have hs : s.givenBack = { s with readerCount := s.readerCount - 1 } := if_neg hr
    rw [hs]
    constructor
    · intro h
      have h₁ : s.readerCount - 1 = s.readerCount := by
        have := h.readerCount
        cases k <;> exact this
      have h₂ := Int32.toInt_sub_one (Int32.not_le.mp hr)
      rw [h₁] at h₂
      omega
    · rintro ⟨h₁, -, -⟩
      rw [h₁] at hr
      exact absurd (by decide) hr

theorem holders_givenBack (hr : t ∉ s.regular) (he : t ∉ s.exclusive) :
    (({ s.givenBack with lock := false }.dropHolder t k).leave t wait 0).holders = s.holders := by
  have hreg : s.givenBack.regular = s.regular := by
    unfold State.givenBack
    split <;> rfl
  have hexc : s.givenBack.exclusive = s.exclusive := by
    unfold State.givenBack
    split <;> rfl
  funext j
  cases k <;> cases j <;>
    simp [State.leave, State.goto, State.dropHolder, State.holders, hreg, hexc,
      List.erase_of_not_mem, hr, he]

/-- In every reachable state the release of a task that holds neither lock answers 0 where -1 is
documented. Nobody stops holding a lock by it, and yet the variables are left alone only where
they already are as at the start. -/
theorem release_never_refused (list : Lists) (flag : Addr → Int32) (as : List (Act τ))
    (s : State τ) (h : exec next as (start list flag) = some s) (t : τ) (k : Kind) (wait : Addr)
    (hp : s.pc t = .release k wait) (hr : t ∉ s.regular) (he : t ∉ s.exclusive) (head : Addr)
    (l : ListHead) (f : Int32) :
    ∃ s', next s (.step t head l f) = some s' ∧ s'.pc t = .ret 0 ∧ ¬ Refused t s s' ∧
      s'.holders = s.holders ∧ (Kept s s' ↔
        s.readerCount = 0 ∧ s.readLockAvailable = 1 ∧ s.writeLockAvailable = 1) := by
  have hl : Locals s := exec_invariant (fun s a s' hs ha => hs.step (hs.step_of_next ha))
    (start_locals list flag) h
  have hret : ((({ s.givenBack with lock := false } : State τ).dropHolder t k).leave t wait 0).pc t
      = .ret 0 := by
    simp only [State.leave, State.goto, Function.update_self]
  refine ⟨_, hl.netlockRelease_eq hp head l f, hret, ?_, holders_givenBack hr he,
    kept_givenBack hp⟩
  rintro ⟨hneg, -⟩
  rw [hret] at hneg
  exact absurd hneg (by decide)

def intruder : List (Act ℕ) :=
  .acquire 0 NET_LOCK_E 1 :: steps 0 3 ++ .release 1 .exclusive 2 :: steps 1 1

theorem release_never_refused_intruder : ∃ s s' : State ℕ,
    exec next intruder (start (fun _ => ⟨0, 0⟩) fun _ => 0) = some s ∧
      s.pc 1 = .release .exclusive 2 ∧ 1 ∉ s.regular ∧ 1 ∉ s.exclusive ∧
      next s (.step 1 9 ⟨0, 0⟩ 0) = some s' ∧ s'.pc 1 = .ret 0 ∧ ¬ Refused 1 s s' := by
  obtain ⟨s, hs, hv⟩ := Option.map_eq_some_iff.mp (show
    (exec next intruder (start (fun _ => ⟨0, 0⟩) fun _ => 0)).map
      (fun s => (s.pc 1, s.regular, s.exclusive)) = some (.release .exclusive 2, [], [0]) by decide)
  simp only [Prod.mk.injEq] at hv
  obtain ⟨hp, hreg, hexc⟩ := hv
  have hr : 1 ∉ s.regular := by rw [hreg]; decide
  have he : 1 ∉ s.exclusive := by rw [hexc]; decide
  obtain ⟨s', hs', hret, hno, -⟩ := release_never_refused _ _ _ s hs 1 _ _ hp hr he 9 ⟨0, 0⟩ 0
  exact ⟨s, s', hs, hp, hr, he, hs', hret, hno⟩

/-- The release of task 1 makes the lock of task 0 available. -/
theorem intruder_frees_the_lock : ∃ s s' : State ℕ,
    exec next intruder (start (fun _ => ⟨0, 0⟩) fun _ => 0) = some s ∧ 1 ∉ s.regular ∧
      1 ∉ s.exclusive ∧ next s (.step 1 9 ⟨0, 0⟩ 0) = some s' ∧ 0 ∈ s'.exclusive ∧
      s.writeLockAvailable = 0 ∧ s'.writeLockAvailable = 1 ∧ ¬ Refused 1 s s' := by
  obtain ⟨s, hs, hv⟩ := Option.map_eq_some_iff.mp (show
    (exec next intruder (start (fun _ => ⟨0, 0⟩) fun _ => 0)).map
      (fun s => (s.regular, s.exclusive, s.writeLockAvailable)) = some ([], [0], 0) by decide)
  obtain ⟨s', hs', hv'⟩ := Option.map_eq_some_iff.mp (show
    (exec next (intruder ++ steps 1 1) (start (fun _ => ⟨0, 0⟩) fun _ => 0)).map
      (fun s => (s.pc 1, s.exclusive, s.writeLockAvailable)) = some (.ret 0, [0], 1) by decide)
  simp only [Prod.mk.injEq] at hv hv'
  obtain ⟨hreg, hexc, hw⟩ := hv
  obtain ⟨hret, hexc', hw'⟩ := hv'
  have hnext : next s (.step 1 9 ⟨0, 0⟩ 0) = some s' := by
    obtain ⟨u, hu, hv⟩ := exec_append_eq_some.mp hs'
    obtain rfl := Option.some_inj.mp (hs.symm.trans hu)
    obtain ⟨v, hv₁, hv₂⟩ := exec_cons_eq_some.mp hv
    exact hv₁.trans hv₂
  refine ⟨s, s', hs, by rw [hreg]; decide, by rw [hexc]; decide, hnext, by rw [hexc']; decide,
    hw, hw', fun hno => ?_⟩
  exact absurd (hret.symm.trans hno.1) (by decide)

end AndroidKernel.Netlock
