import Mathlib

/-! Marks shared out among parties. The marked elements are the disjoint union of the sections
that the parties hold; a party may add a section of unmarked elements or give up its own. -/

namespace Sections
variable {ι ζ : Type*} {marked marked' : ζ → Prop} {sec sec' : ι → Set ζ} {i : ι}

structure Partition (marked : ζ → Prop) (sec : ι → Set ζ) : Prop where
  cover : ∀ z, marked z ↔ ∃ i, z ∈ sec i
  disjoint : ∀ i j, i ≠ j → Disjoint (sec i) (sec j)

theorem Partition.subset (h : Partition marked sec) (i : ι) : ∀ z ∈ sec i, marked z :=
  fun z hz => (h.cover z).mpr ⟨i, hz⟩

theorem partition_empty (hm : ∀ z, ¬ marked z) (hs : ∀ i, sec i = ∅) : Partition marked sec := by
  constructor
  · intro z
    simp [hm, hs]
  · intro i j _
    simp [hs]

/-- One party exchanges its section for one whose new elements were not marked, and the marks
follow. -/
theorem Partition.exchange (h : Partition marked sec) (hother : ∀ j, j ≠ i → sec' j = sec j)
    (hfree : ∀ z ∈ sec' i, marked z → z ∈ sec i)
    (hm : ∀ z, marked' z ↔ (marked z ∧ z ∉ sec i) ∨ z ∈ sec' i) : Partition marked' sec' := by
  have hdisj : ∀ j, j ≠ i → Disjoint (sec' i) (sec' j) := by
    intro j hj
    rw [hother j hj]
    apply Set.disjoint_left.mpr
    intro z hz hzj
    exact Set.disjoint_left.mp (h.disjoint j i hj) hzj (hfree z hz (h.subset j z hzj))
  constructor
  · intro z
    rw [hm, h.cover]
    constructor
    · rintro (⟨⟨j, hj⟩, hz⟩ | hz)
      · have hji : j ≠ i := by
          rintro rfl
          exact hz hj
        exact ⟨j, by rwa [hother j hji]⟩
      · exact ⟨i, hz⟩
    · rintro ⟨j, hj⟩
      by_cases hji : j = i
      · subst hji
        exact Or.inr hj
      · rw [hother j hji] at hj
        exact Or.inl ⟨⟨j, hj⟩, Set.disjoint_left.mp (h.disjoint j i hji) hj⟩
  · intro j k hjk
    by_cases hj : j = i
    · subst hj
      exact hdisj k hjk.symm
    · by_cases hk : k = i
      · subst hk
        exact (hdisj j hj).symm
      · rw [hother j hj, hother k hk]
        exact h.disjoint j k hjk

end Sections
