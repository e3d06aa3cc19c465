import AndroidKernel.Lib.SpinLock
import AndroidKernel.Netlock.Model

/-! The spinlock under the network lock. Every branch of the two system calls unlocks for itself;
the one that is missing is the branch of `netlock_acquire` for a type that is none of the three
constants, which falls through to `return ret` with the spinlock held. -/

namespace AndroidKernel.Netlock
open Lts SpinLock
variable {τ : Type}

def Pc.inside : Pc → Bool
  | .acquire .. | .release .. | .scan .. => true
  | .idle | .acquireSpin .. | .sleeping .. | .releaseSpin .. | .ret _ => false

/-- A step by which a call leaves its critical section frees the spinlock, and a request that is
neither regular nor exclusive is refused and changes none of the variables. -/
structure Unlocks (s : State τ) (a : Act τ) (s' : State τ) : Prop where
  free : ∀ t, (s.pc t).inside = true → (s'.pc t).inside = false → s'.lock = false
  refused : ∀ t head l f type wait, a = .step t head l f → s.pc t = .acquire type wait →
    type ≠ NET_LOCK_R → type ≠ NET_LOCK_E → s'.pc t = .ret (-1) ∧
      s'.readerCount = s.readerCount ∧ s'.readLockAvailable = s.readLockAvailable ∧
      s'.writeLockAvailable = s.writeLockAvailable

def KnownTypeAt : Pc → Prop
  | .acquire type _ => type = NET_LOCK_N ∨ type = NET_LOCK_R ∨ type = NET_LOCK_E
  | _ => True

/-- A `netlock_acquire` that has the spinlock was called with one of the three constants. -/
def KnownType (s : State τ) : Act τ → Prop
  | .step t _ _ _ => KnownTypeAt (s.pc t)
  | _ => True

instance (p : Pc) : Decidable (KnownTypeAt p) := match p with
  | .acquire type _ => inferInstanceAs (Decidable
    (type = NET_LOCK_N ∨ type = NET_LOCK_R ∨ type = NET_LOCK_E))
  | .idle | .acquireSpin .. | .sleeping .. | .releaseSpin .. | .release .. | .scan .. | .ret _ =>
    inferInstanceAs (Decidable True)

instance (s : State τ) (a : Act τ) : Decidable (KnownType s a) := match a with
  | .step t _ _ _ => inferInstanceAs (Decidable (KnownTypeAt (s.pc t)))
  | .acquire .. | .release .. => inferInstanceAs (Decidable True)

variable [DecidableEq τ]

inductive Crossing (s : State τ) (t : τ) (s' : State τ) : Prop
  | stay (p : Pc) (hp : s'.pc = Function.update s.pc t p) (hi : p.inside = (s.pc t).inside)
      (hl : s'.lock = s.lock)
  | enter (p : Pc) (hp : s'.pc = Function.update s.pc t p) (hi : p.inside = true)
      (hf : s.lock = false) (hl : s'.lock = true)
  | leave (p : Pc) (hp : s'.pc = Function.update s.pc t p) (hi : (s.pc t).inside = true)
      (ho : p.inside = false) (hl : s'.lock = false)

variable {s s' : State τ} {a : Act τ} {t : τ}

theorem crossing_acquire {type : ℤ} {wait head : Addr} {l : ListHead}
    (hp : s.pc t = .acquire type wait) (hk : KnownTypeAt (s.pc t))
    (h : netlockAcquire s t type wait head l = some s') : Crossing s t s' := by
  have hin : (s.pc t).inside = true := by rw [hp]; rfl
  simp only [hp, KnownTypeAt] at hk
  simp only [netlockAcquire, State.wait] at h
  split_ifs at h with hR hw hh hE hg hh hN
  · cases h
    exact .leave (.ret 0) rfl hin rfl rfl
  · cases h
    exact .leave (.sleeping .regular wait head) rfl hin rfl rfl
  · cases h
    exact .leave (.ret 0) rfl hin rfl rfl
  · cases h
    exact .leave (.sleeping .exclusive wait head) rfl hin rfl rfl
  · cases h
    exact .leave (.ret (-1)) rfl hin rfl rfl
  · rcases hk with hk | hk | hk
    · exact absurd hk hN
    · exact absurd hk hR
    · exact absurd hk hE

theorem crossing_drop (hin : (s.pc t).inside = true) {u : State τ} (hpc : u.pc = s.pc)
    (hl : u.lock = false) (k : Kind) (wait : Addr) :
    Crossing s t ((u.dropHolder t k).leave t wait 0) := by
  cases k with
  | regular => exact .leave (.ret 0) (by rw [← hpc]; rfl) hin rfl hl
  | exclusive => exact .leave (.ret 0) (by rw [← hpc]; rfl) hin rfl hl

theorem crossing_release {k : Kind} {wait head : Addr} {flag : Int32}
    (hp : s.pc t = .release k wait) (h : netlockRelease s t k wait head flag = some s') :
    Crossing s t s' := by
  have hin : (s.pc t).inside = true := by rw [hp]; rfl
  simp only [netlockRelease] at h
  split_ifs at h
  · cases h
    refine crossing_drop hin ?_ ?_ k wait <;> rfl
  · cases h
    refine crossing_drop hin ?_ ?_ k wait <;> rfl
  · cases h
    exact .stay (.scan k wait head none) rfl hin.symm rfl

theorem crossing_scan {k : Kind} {wait head : Addr} {temp : Option ListHead}
    (hp : s.pc t = .scan k wait head temp) : Crossing s t (netlockScan s t k wait head temp) := by
  have hin : (s.pc t).inside = true := by rw [hp]; rfl
  simp only [netlockScan]
  split
  · exact .stay _ rfl hin.symm rfl
  · split
    · refine crossing_drop hin ?_ ?_ k wait <;> rfl
    · split
      · refine crossing_drop hin ?_ ?_ k wait <;> rfl
      · refine crossing_drop hin ?_ ?_ k wait <;> rfl

theorem crossing_of_next (hk : KnownType s a) (h : next s a = some s') : ∃ t, Crossing s t s' := by
  have hspin : ∀ t p, p.inside = true → s' = (if s.lock then s
      else { s.goto t p with lock := true }) → Crossing s t s' := by
    rintro t p hp rfl
    split_ifs with hf
    · exact .stay (s.pc t) (Function.update_eq_self t s.pc).symm rfl rfl
    · exact .enter p rfl hp (by simpa using hf) rfl
  cases a with
  | acquire t type wait =>
    simp only [next] at h
    split_ifs at h with hg
    cases h
    exact ⟨t, .stay (.acquireSpin type wait) rfl (by rw [hg.1]; rfl) rfl⟩
  | release t k wait =>
    simp only [next] at h
    split_ifs at h with hg
    cases h
    exact ⟨t, .stay (.releaseSpin k wait) rfl (by rw [hg.1]; rfl) rfl⟩
  | step t head l f =>
    refine ⟨t, ?_⟩
    simp only [next] at h
    cases hp : s.pc t with
    | idle => simp [hp] at h
    | acquireSpin type wait =>
      simp only [hp, Option.some.injEq] at h
      exact hspin t (.acquire type wait) rfl h.symm
    | acquire type wait =>
      simp only [hp] at h
      exact crossing_acquire hp hk h
    | sleeping k wait head' =>
      simp only [hp, Option.some.injEq] at h
      subst h
      cases k with
      | regular => exact .stay (.ret 0) rfl (by rw [hp]; rfl) rfl
      | exclusive => exact .stay (.ret 0) rfl (by rw [hp]; rfl) rfl
    | releaseSpin k wait =>
      simp only [hp, Option.some.injEq] at h
      exact hspin t (.release k wait) rfl h.symm
    | release k wait =>
      simp only [hp] at h
      exact crossing_release hp h
    | scan k wait head' temp =>
      simp only [hp, Option.some.injEq] at h
      subst h
      exact crossing_scan hp
    | ret r =>
      simp only [hp, Option.some.injEq] at h
      subst h
      exact .stay .idle rfl (by rw [hp]; rfl) rfl

omit [DecidableEq τ] in
structure Held (s : State τ) : Prop where
  guarded : Guarded s.lock fun t => (s.pc t).inside = true
  owner : s.lock = true → ∃ t, (s.pc t).inside = true

theorem Held.crossing (h : Held s) (hc : Crossing s t s') : Held s' := by
  cases hc with
  | stay p hp hi hl =>
    have hin : ∀ u, (s'.pc u).inside = (s.pc u).inside := by
      intro u
      by_cases hut : u = t
      · rw [hut, hp, Function.update_self, hi]
      · rw [hp, Function.update_of_ne hut]
    refine ⟨?_, fun hlock => ?_⟩
    · rw [hl]
      exact h.guarded.congr fun u => by rw [hin u]
    · obtain ⟨u, hu⟩ := h.owner (hl ▸ hlock)
      exact ⟨u, (hin u).trans hu⟩
  | enter p hp hi hf hl =>
    refine ⟨?_, fun _ => ⟨t, by rw [hp, Function.update_self, hi]⟩⟩
    rw [hl]
    refine h.guarded.take hf (t := t) fun u hu => ?_
    rw [hp, Function.update_of_ne hu]
  | leave p hp hi ho hl =>
    refine ⟨?_, fun hlock => absurd (hl.symm.trans hlock) (by decide)⟩
    rw [hl]
    refine h.guarded.clear (t := t) hi ?_ fun u hu => ?_
    · simp [hp, ho]
    · rw [hp, Function.update_of_ne hu]

omit [DecidableEq τ] in
theorem start_held (list : Lists) (flag : Addr → Int32) : Held (start (τ := τ) list flag) :=
  ⟨⟨fun _ _ h => (by cases h), fun _ h => (by cases h)⟩, fun h => (by cases h)⟩

theorem Held.next (h : Held s) (hk : KnownType s a) (hs : next s a = some s') : Held s' := by
  obtain ⟨t, hc⟩ := crossing_of_next hk hs
  exact h.crossing hc

theorem unlocks_of_knownType (hk : KnownType s a) (h : Netlock.next s a = some s') :
    Unlocks s a s' := by
  refine ⟨fun t hin hout => ?_, ?_⟩
  · obtain ⟨u, hc⟩ := crossing_of_next hk h
    cases hc with
    | stay p hp hi hl | enter p hp hi hf hl =>
      by_cases hut : t = u
      · subst hut
        simp_all
      · rw [hp, Function.update_of_ne hut, hin] at hout
        cases hout
    | leave p hp hi ho hl => exact hl
  · rintro t head l f type wait rfl hp hR hE
    simp only [KnownType, hp, KnownTypeAt] at hk
    obtain rfl : type = NET_LOCK_N := by
      rcases hk with hk | hk | hk
      · exact hk
      · exact absurd hk hR
      · exact absurd hk hE
    simp only [Netlock.next, hp, netlockAcquire, if_neg hR, if_neg hE, if_true,
      Option.some.injEq] at h
    subst h
    exact ⟨Function.update_self .., rfl, rfl, rfl⟩

theorem knownType_of_unlocks (hs : Netlock.next s a = some s') (hu : Unlocks s a s') :
    KnownType s a := by
  cases a with
  | acquire | release => trivial
  | step t head l f =>
    simp only [KnownType]
    cases hp : s.pc t with
    | idle | acquireSpin | sleeping | releaseSpin | release | scan | ret => trivial
    | acquire type wait =>
      by_contra hk
      simp only [KnownTypeAt, not_or] at hk
      obtain ⟨hN, hR, hE⟩ := hk
      have hret := (hu.refused t head l f type wait rfl hp hR hE).1
      simp only [Netlock.next, hp, netlockAcquire, if_neg hR, if_neg hE, if_neg hN,
        Option.some.injEq] at hs
      subst hs
      have hzero : (s.leave t wait 0).pc t = .ret 0 := Function.update_self ..
      rw [hzero] at hret
      cases hret

end AndroidKernel.Netlock
