import AndroidKernel.Netlock.Spinlock
import AndroidKernel.Netlock.Steps

/-! The waiting branches of `netlock_acquire` with a memory that does not play along. The answer of
`kmalloc` is not checked, and the head in the block is not initialised, so that `add_wait_queue`
takes a spinlock and follows a pointer that are whatever the block held before. A call that does
not get through this is lost with the spinlock of the network lock held. -/

namespace AndroidKernel.Netlock
open Lts
variable {τ : Type}

/-- What `kmalloc` answers in a waiting branch: NULL, or a block in which the `lock` of the head
may read as taken. -/
structure Block where
  null : Bool
  locked : Bool
deriving DecidableEq, Repr

inductive Fault
  | null | spin | wild
deriving DecidableEq, Repr

/-- The store of `netlock_flag`, and `add_wait_queue` on the new head. -/
def addWaitQueue (writable : Addr → Bool) (b : Block) (task_list : ListHead) : Option Fault :=
  if b.null then some .null
  else if b.locked then some .spin
  else if writable task_list.next then none else some .wild

structure Machine (τ : Type) where
  state : State τ
  fault : τ → Option Fault

def State.waits (s : State τ) : Pc → Prop
  | .acquire type _ => Blocks s type .regular ∨ Blocks s type .exclusive
  | _ => False

instance (s : State τ) (type : ℤ) : ∀ k, Decidable (Blocks s type k)
  | .regular => inferInstanceAs (Decidable (type = NET_LOCK_R ∧ s.writeLockAvailable ≠ 1))
  | .exclusive => inferInstanceAs (Decidable (type = NET_LOCK_E ∧
      ¬ (s.writeLockAvailable = 1 ∧ s.readLockAvailable = 1)))

instance (s : State τ) (p : Pc) : Decidable (s.waits p) := match p with
  | .acquire type _ => inferInstanceAs (Decidable (Blocks s type .regular ∨ Blocks s type .exclusive))
  | .idle | .acquireSpin .. | .sleeping .. | .releaseSpin .. | .release .. | .scan .. | .ret _ =>
    inferInstanceAs (Decidable False)

def Machine.faultAt (writable : Addr → Bool) (m : Machine τ) (b : Block) : Act τ → Option Fault
  | .step t _ task_list _ =>
    if m.state.waits (m.state.pc t) then addWaitQueue writable b task_list else none
  | .acquire .. | .release .. => none

def Machine.inside (m : Machine τ) (t : τ) : Bool :=
  (m.state.pc t).inside && (m.fault t).isNone

structure Returns (m : Machine τ) (a : Act τ) (m' : Machine τ) : Prop where
  fault : m'.fault = m.fault
  unlocks : Unlocks m.state a m'.state

structure Intact (m : Machine τ) : Prop where
  held : Held m.state
  fault : ∀ t, m.fault t = none

/-- A `netlock_acquire` that waits gets a block, and what the block holds passes for a head. -/
def Usable (writable : Addr → Bool) (m : Machine τ) (b : Block) : Act τ → Prop
  | .step t _ task_list _ => m.state.waits (m.state.pc t) →
      b.null = false ∧ b.locked = false ∧ writable task_list.next = true
  | .acquire .. | .release .. => True

instance (writable : Addr → Bool) (m : Machine τ) (b : Block) (a : Act τ) :
    Decidable (Usable writable m b a) := match a with
  | .step t _ task_list _ => inferInstanceAs (Decidable (m.state.waits (m.state.pc t) →
      b.null = false ∧ b.locked = false ∧ writable task_list.next = true))
  | .acquire .. | .release .. => inferInstanceAs (Decidable True)

variable [DecidableEq τ]

def attempt (writable : Addr → Bool) (m : Machine τ) : Act τ × Block → Option (Machine τ)
  | (.step t head task_list flag, b) =>
    if (m.fault t).isSome then none
    else match m.faultAt writable b (.step t head task_list flag) with
      | some f => some { m with fault := Function.update m.fault t (some f) }
      | none => (next m.state (.step t head task_list flag)).map fun s => { m with state := s }
  | (a, _) => (next m.state a).map fun s => { m with state := s }

def boot (list : Lists) (flag : Addr → Int32) : Machine τ := ⟨start list flag, fun _ => none⟩

variable {writable : Addr → Bool} {m m' : Machine τ} {a : Act τ} {b : Block}

omit [DecidableEq τ] in
theorem faultAt_eq_none_iff : m.faultAt writable b a = none ↔ Usable writable m b a := by
  cases a with
  | acquire | release => simp [Machine.faultAt, Usable]
  | step t head l f =>
    unfold Machine.faultAt Usable addWaitQueue
    split_ifs <;> simp_all

theorem attempt_cases (h : attempt writable m (a, b) = some m') :
    (∃ t f, m.fault t = none ∧ m.faultAt writable b a = some f ∧
      m' = { m with fault := Function.update m.fault t (some f) }) ∨
    m.faultAt writable b a = none ∧
      ∃ s', next m.state a = some s' ∧ m' = { m with state := s' } := by
  have hmap : (next m.state a).map (fun s => { m with state := s }) = some m' →
      ∃ s', next m.state a = some s' ∧ m' = { m with state := s' } := by
    intro hn
    obtain ⟨s', hs, rfl⟩ := Option.map_eq_some_iff.mp hn
    exact ⟨s', hs, rfl⟩
  cases a with
  | acquire | release => exact Or.inr ⟨rfl, hmap h⟩
  | step t head l f =>
    simp only [attempt] at h
    split_ifs at h with hlost
    cases hf : m.faultAt writable b (.step t head l f) with
    | some e =>
      rw [hf] at h
      exact Or.inl ⟨t, e, Option.not_isSome_iff_eq_none.mp hlost, rfl, (Option.some_inj.mp h).symm⟩
    | none =>
      rw [hf] at h
      exact Or.inr ⟨rfl, hmap h⟩

theorem returns_of_usable (hk : KnownType m.state a) (hu : Usable writable m b a)
    (h : attempt writable m (a, b) = some m') : Returns m a m' := by
  obtain ⟨t, f, -, hf, -⟩ | ⟨-, s', hs, rfl⟩ := attempt_cases h
  · rw [faultAt_eq_none_iff.mpr hu] at hf
    cases hf
  · exact ⟨rfl, unlocks_of_knownType hk hs⟩

theorem usable_of_returns (h : attempt writable m (a, b) = some m') (hr : Returns m a m') :
    KnownType m.state a ∧ Usable writable m b a := by
  obtain ⟨t, f, hnone, -, rfl⟩ | ⟨hf, s', hs, rfl⟩ := attempt_cases h
  · have hfault := congrFun hr.fault t
    simp only [Function.update_self, hnone, reduceCtorEq] at hfault
  · exact ⟨knownType_of_unlocks hs hr.unlocks, faultAt_eq_none_iff.mp hf⟩

theorem Intact.attempt (hi : Intact m) (hk : KnownType m.state a) (hu : Usable writable m b a)
    (h : attempt writable m (a, b) = some m') : Intact m' := by
  have hf := (returns_of_usable hk hu h).fault
  obtain ⟨t, f, -, hfault, -⟩ | ⟨-, s', hs, rfl⟩ := attempt_cases h
  · rw [faultAt_eq_none_iff.mpr hu] at hfault
    cases hfault
  · exact ⟨hi.held.next hk hs, hi.fault⟩

def Proper (writable : Addr → Bool) (m : Machine τ) (l : Act τ × Block) : Prop :=
  KnownType m.state l.1 ∧ Usable writable m l.2 l.1

instance (writable : Addr → Bool) (m : Machine τ) (l : Act τ × Block) :
    Decidable (Proper writable m l) :=
  inferInstanceAs (Decidable (KnownType m.state l.1 ∧ Usable writable m l.2 l.1))

/-- The calls of a run return with the spinlock free on every path, leave it free whenever nobody is
in a critical section, and refuse what is neither regular nor exclusive, if and only if every
`netlock_acquire` gets one of the three constants and, where it waits, a block that passes for a
wait queue head. -/
theorem spinlock_released_iff (writable : Addr → Bool) (list : Lists) (flag : Addr → Int32)
    (as : List (Act τ × Block)) (m : Machine τ)
    (h : exec (attempt writable) as (boot list flag) = some m) :
    ((∀ pre a post u v, as = pre ++ a :: post →
        exec (attempt writable) pre (boot list flag) = some u →
        attempt writable u a = some v → Returns u a.1 v) ∧
      ∀ pre post u, as = pre ++ post → exec (attempt writable) pre (boot list flag) = some u →
        (∀ t, u.inside t = false) → u.state.lock = false) ↔
      Meets (attempt writable) (Proper writable) as (boot list flag) := by
  constructor
  · rintro ⟨hsteps, -⟩
    refine meets_of_steps h fun pre a post u v has hu hv => ?_
    exact usable_of_returns hv (hsteps pre a post u v has hu hv)
  · intro hm
    refine ⟨fun pre a post u v has hu hv => ?_, fun pre post u has hu hout => ?_⟩
    · obtain ⟨hk, hb⟩ := hm.at_step has hu
      exact returns_of_usable hk hb hv
    · have hintact : Intact u :=
        hm.everywhere (fun _ _ _ hs hc hn => hs.attempt hc.1 hc.2 hn)
          ⟨start_held list flag, fun _ => rfl⟩ has hu
      by_contra hlock
      obtain ⟨t, ht⟩ := hintact.held.owner (by simpa using hlock)
      have hin := hout t
      simp only [Machine.inside, ht, hintact.fault t, Option.isNone_none, Bool.and_true,
        Bool.true_eq_false] at hin

def withBlocks {τ : Type} (as : List (Act τ)) : List (Act τ × Block) :=
  as.map fun a => (a, ⟨false, false⟩)

def polite : List (Act ℕ × Block) :=
  withBlocks (.acquire 0 NET_LOCK_E 1 :: List.replicate 3 (.step 0 9 ⟨5, 5⟩ 0) ++
    .acquire 1 NET_LOCK_R 2 :: List.replicate 2 (.step 1 9 ⟨5, 5⟩ 0) ++
    .acquire 2 NET_LOCK_N 3 :: List.replicate 2 (.step 2 9 ⟨5, 5⟩ 0))

theorem spinlock_released_polite : ∃ m,
    exec (attempt (· == 5)) polite (boot (fun _ => ⟨0, 0⟩) fun _ => 0) = some m ∧
      m.state.pc 1 = .sleeping .regular 2 9 ∧ m.state.pc 2 = .ret (-1) ∧
      ((∀ t, m.inside t = false) → m.state.lock = false) := by
  obtain ⟨m, hm, hv⟩ := Option.map_eq_some_iff.mp (show
    (exec (attempt (· == 5)) polite (boot (fun _ => ⟨0, 0⟩) fun _ => 0)).map
      (fun m => (m.state.pc 1, m.state.pc 2)) =
      some (.sleeping .regular 2 9, .ret (-1)) by decide)
  obtain ⟨hone, htwo⟩ := Prod.mk.inj hv
  refine ⟨m, hm, hone, htwo, ?_⟩
  exact ((spinlock_released_iff _ _ _ polite m hm).mpr (by decide)).2 polite [] m
    (List.append_nil _).symm hm

def unknownType : List (Act Bool × Block) :=
  withBlocks [.acquire false 7 1, .step false 9 ⟨5, 5⟩ 0, .step false 9 ⟨5, 5⟩ 0]

def noMemory : List (Act Bool × Block) :=
  withBlocks [.acquire false NET_LOCK_E 1, .step false 9 ⟨5, 5⟩ 0, .step false 9 ⟨5, 5⟩ 0,
    .acquire true NET_LOCK_R 2, .step true 9 ⟨5, 5⟩ 0] ++
  [(.step true 9 ⟨5, 5⟩ 0, ⟨true, false⟩)]

/-- Both ways nobody is in a critical section any more, and no later call gets past `spin_lock`. -/
theorem spinlock_kept :
    (∃ m, exec (attempt (· == 5)) unknownType (boot (fun _ => ⟨0, 0⟩) fun _ => 0) = some m ∧
      m.state.pc false = .ret 0 ∧ (∀ t, m.inside t = false) ∧ m.state.lock = true) ∧
    ∃ m, exec (attempt (· == 5)) noMemory (boot (fun _ => ⟨0, 0⟩) fun _ => 0) = some m ∧
      m.fault true = some .null ∧ (∀ t, m.inside t = false) ∧ m.state.lock = true := by
  constructor
  · obtain ⟨m, hm, hv⟩ := Option.map_eq_some_iff.mp (show
      (exec (attempt (· == 5)) unknownType (boot (fun _ => ⟨0, 0⟩) fun _ => 0)).map (fun m => decide
        (m.state.pc false = .ret 0 ∧ (∀ t, m.inside t = false) ∧ m.state.lock = true)) =
        some true by decide)
    exact ⟨m, hm, of_decide_eq_true hv⟩
  · obtain ⟨m, hm, hv⟩ := Option.map_eq_some_iff.mp (show
      (exec (attempt (· == 5)) noMemory (boot (fun _ => ⟨0, 0⟩) fun _ => 0)).map (fun m => decide
        (m.fault true = some .null ∧ (∀ t, m.inside t = false) ∧ m.state.lock = true)) =
        some true by decide)
    exact ⟨m, hm, of_decide_eq_true hv⟩

end AndroidKernel.Netlock
