import Mathlib.Tactic

/-! Mutual exclusion by a flag that is taken with one atomic test-and-set. `inside` says which
threads are between taking the flag and clearing it. -/

namespace SpinLock
variable {τ : Type*} {flag : Bool} {inside inside' : τ → Prop} {t : τ}

structure Guarded (flag : Bool) (inside : τ → Prop) : Prop where
  unique : ∀ t u, inside t → inside u → t = u
  held : ∀ t, inside t → flag = true

theorem Guarded.congr (h : Guarded flag inside) (hi : ∀ u, inside' u ↔ inside u) :
    Guarded flag inside' :=
  ⟨fun t u ht hu => h.unique t u ((hi t).mp ht) ((hi u).mp hu), fun t ht => h.held t ((hi t).mp ht)⟩

theorem Guarded.take (h : Guarded flag inside) (hf : flag = false)
    (hi : ∀ u, u ≠ t → (inside' u ↔ inside u)) : Guarded true inside' := by
  have hout : ∀ u, inside' u → u = t := by
    intro u hu
    by_contra hne
    exact absurd (h.held u ((hi u hne).mp hu)) (by simp [hf])
  exact ⟨fun u v hu hv => (hout u hu).trans (hout v hv).symm, fun _ _ => rfl⟩

theorem Guarded.clear (h : Guarded flag inside) (ht : inside t) (ht' : ¬ inside' t)
    (hi : ∀ u, u ≠ t → (inside' u ↔ inside u)) : Guarded false inside' := by
  have hout : ∀ u, ¬ inside' u := by
    intro u hu
    by_cases hne : u = t
    · exact ht' (hne ▸ hu)
    · exact hne (h.unique u t ((hi u hne).mp hu) ht)
  exact ⟨fun u _ hu => absurd hu (hout u), fun u hu => absurd hu (hout u)⟩

end SpinLock
