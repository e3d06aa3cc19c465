import AndroidKernel.Pages.Freed
import AndroidKernel.Pages.Rmqueue

/-! Splitting a block: `expand` gives back all of it but its first part of the order asked for, and
`__rmqueue_smallest` does so with the first block of the smallest order that is large enough. -/

namespace AndroidKernel.Pages
open DyadicBlocks

variable {c : Config} {z z₀ z' : Zone} {p q o low high : ℕ} {mt : Migratetype} {b b₀ : Block}

structure GivenBack (c : Config) (z : Zone) (mt : Migratetype) (b : Block) (z' : Zone) : Prop where
  tidy : Tidy c z'
  blocks : blocks c z' = insert b (blocks c z)
  lag : lag c z' = lag c z - 2 ^ b.order
  frame : Frame z z' {b.start}
  lists : ∀ q o t, q ∈ (z'.freeArea o).freeList t →
    q ∈ (z.freeArea o).freeList t ∨ q = b.start ∧ t = mt
  keeps : ∀ q o t, q ∈ (z.freeArea o).freeList t → q ∈ (z'.freeArea o).freeList t
  pageblock : z'.pageblock = z.pageblock
  guard : GuardKept c z z'

theorem link_givenBack (mt : Migratetype) (h : Tidy c z) (hl : Loose c z b)
    (ht : Tiling (c.maxOrder - 1) (insert b (blocks c z))) :
    GivenBack c z mt b (z.link b.start b.order mt (b.start :: (z.freeArea b.order).freeList mt)) := by
  have hm := mark_of_not_covered (hl.here _ b.start_mem) (hl.out _ b.start_mem)
  have hmem : ∀ q o t, q ∈ ((z.link b.start b.order mt
      (b.start :: (z.freeArea b.order).freeList mt)).freeArea o).freeList t ↔
      q ∈ (z.freeArea o).freeList t ∨ q = b.start ∧ o = b.order ∧ t = mt := by
    intro q o t
    rw [show ((z.link b.start b.order mt _).freeArea o).freeList t = _ from
      (congrFun (Zone.addNrFree_freeList 1 o) t).trans (Zone.setFreeList_freeList _ o t)]
    split_ifs with hc
    · rw [List.mem_cons, hc.1, hc.2]
      simp only [and_self, and_true]
      exact or_comm
    · simp only [hc, and_false, or_false]
      exact Iff.rfl
  refine ⟨h.link hl.here hm List.Perm.rfl ht, blocks_link hl.here hm _ _, ?_, ⟨fun x hx => ?_,
    fun x => ?_⟩, fun q o t hq => ?_, fun q o t hq => (hmem q o t).mpr (Or.inl hq), rfl,
    fun _ x hx => ?_⟩
  · simp only [lag, listedPages_link _ _ hl.order_lt]
    change z.nrFreePages - _ = _
    ring
  · exact (Zone.setPage_page _ x).trans (if_neg hx)
  · change ((z.setPageOrder b.start b.order).page x).count = _
    rw [Zone.setPageOrder, Zone.setPage_page]
    split_ifs with hx
    · rw [hx]
    · rfl
  · exact ((hmem q o t).mp hq).imp_right fun hq => ⟨hq.1, hq.2.2⟩
  · change ((z.setPageOrder b.start b.order).page x).guard = true at hx
    rw [Zone.setPageOrder, Zone.setPage_page] at hx
    split_ifs at hx with hxb
    · rw [hxb]
      exact hx
    · exact hx

theorem guard_givenBack (mt : Migratetype) (h : Tidy c z) (hl : Loose c z b)
    (ht : Tiling (c.maxOrder - 1) (insert b (blocks c z)))
    (hg : b.order < c.debugGuardpageMinorder) :
    GivenBack c z mt b
      (modZoneFreepageState c (z.putGuard b.start b.order) (-(1 <<< b.order : ℕ)) mt) := by
  have hm := mark_of_not_covered (hl.here _ b.start_mem) (hl.out _ b.start_mem)
  refine ⟨(h.putGuard hl.here hm ht).of_eq (modZoneFreepageState_page _)
      (modZoneFreepageState_freeArea _), ?_, ?_, ?_, ?_, ?_, modZoneFreepageState_pageblock _,
      fun h0 => by omega⟩
  · rw [blocks_of_eq (modZoneFreepageState_page _)]
    exact blocks_putGuard (hl.here _ b.start_mem) hm
  · simp only [lag, modZoneFreepageState_nrFreePages, Nat.one_shiftLeft]
    rw [listedPages_congr (z := z) fun o => by rw [modZoneFreepageState_freeArea]; rfl]
    change z.nrFreePages + _ - _ = _
    push_cast
    ring
  · have hput : Frame z (z.putGuard b.start b.order) {b.start} := by
      refine ⟨fun x hx => ?_, fun x => ?_⟩
      · rw [Set.mem_singleton_iff] at hx
        simp only [Zone.putGuard, Zone.setPagePrivate, Zone.setPageGuardFlag, Zone.setPage_page,
          if_neg hx]
      · simp only [Zone.putGuard, Zone.setPagePrivate, Zone.setPageGuardFlag, Zone.setPage_page]
        split_ifs with hx
        · rw [hx]
        · rfl
    exact hput.trans (T := ∅) (Frame.of_eq (modZoneFreepageState_page _)) (Set.empty_subset _)
  · intro q o t hq
    rw [modZoneFreepageState_freeArea] at hq
    exact Or.inl hq
  · intro q o t hq
    rw [modZoneFreepageState_freeArea]
    exact hq

/-- The state of the loop of `expand`, which still holds the block `b` of what was `b₀`. -/
structure Splitting (c : Config) (z₀ : Zone) (b₀ : Block) (mt : Migratetype) (z : Zone) (b : Block) :
    Prop where
  tidy : Tidy c z
  loose : Loose c z b
  sub : ∀ x ∈ b, x ∈ b₀
  union : ∀ x, x ∈ covered c z ∨ x ∈ b ↔ x ∈ covered c z₀ ∨ x ∈ b₀
  blocks : ∀ e ∈ blocks c z, e ∈ blocks c z₀ ∨ ∀ x ∈ e, x ∈ b₀
  lag : lag c z = lag c z₀ + 2 ^ b.order - 2 ^ b₀.order
  frame : Frame z₀ z {x | x ∈ b₀}
  lists : ∀ q o t, q ∈ (z.freeArea o).freeList t →
    q ∈ (z₀.freeArea o).freeList t ∨ q ∈ b₀ ∧ t = mt
  keeps : ∀ q o t, q ∈ (z₀.freeArea o).freeList t → q ∈ (z.freeArea o).freeList t
  pageblock : z.pageblock = z₀.pageblock
  guard : GuardKept c z₀ z

theorem Splitting.refl (h : Tidy c z) (hl : Loose c z b) : Splitting c z b mt z b where
  tidy := h
  loose := hl
  sub := fun _ hx => hx
  union := fun _ => Iff.rfl
  blocks := fun _ he => Or.inl he
  lag := by ring
  frame := Frame.refl ..
  lists := fun _ _ _ hq => Or.inl hq
  keeps := fun _ _ _ hq => hq
  pageblock := rfl
  guard := fun _ _ hx => hx

theorem Loose.halves (h : Tidy c z) (hl : Loose c z ⟨p, o + 1⟩) :
    Loose c z ⟨p + 2 ^ o, o⟩ ∧
      Tiling (c.maxOrder - 1) (insert (⟨p + 2 ^ o, o⟩ : Block) (blocks c z)) := by
  have hal := hl.aligned
  have hbud := hal.buddy_low_half
  have hoc : o + 1 < c.maxOrder := hl.order_lt
  have hin : ∀ x, x ∈ (⟨p, o⟩ : Block) ∨ x ∈ (⟨p + 2 ^ o, o⟩ : Block) →
      x ∈ (⟨p, o + 1⟩ : Block) := fun x hx => hal.mem_halves.mpr hx
  have hupper : Loose c z ⟨p + 2 ^ o, o⟩ :=
    ⟨hbud ▸ hal.low_half.buddy, by simp only; omega, fun x hx => hl.here x (hin x (Or.inr hx)),
      fun x hx => hl.out x (hin x (Or.inr hx))⟩
  refine ⟨hupper, h.tiling.insert hupper.aligned (by simp only; omega) hupper.out fun _ hmem => ?_⟩
  -- its buddy is the lower half, which nobody has linked
  rw [← hbud, hal.low_half.buddy_buddy] at hmem
  exact hl.out p (Block.start_mem _) ⟨_, hmem, Block.start_mem _⟩

theorem Splitting.step (h : Splitting c z₀ b₀ mt z ⟨p, o + 1⟩)
    (hg : GivenBack c z mt ⟨p + 2 ^ o, o⟩ z') : Splitting c z₀ b₀ mt z' ⟨p, o⟩ := by
  have hal := h.loose.aligned
  have hoc : o + 1 < c.maxOrder := h.loose.order_lt
  have hin : ∀ x, x ∈ (⟨p, o + 1⟩ : Block) ↔ x ∈ (⟨p, o⟩ : Block) ∨ x ∈ (⟨p + 2 ^ o, o⟩ : Block) :=
    fun x => hal.mem_halves
  have hcov : ∀ x, x ∈ covered c z' ↔ x ∈ (⟨p + 2 ^ o, o⟩ : Block) ∨ x ∈ covered c z := by
    intro x
    rw [covered, hg.blocks, mem_cover_insert]
    rfl
  have hbuddy := hal.buddy_low_half
  refine ⟨hg.tidy, ⟨hal.low_half, by simp only; omega, ?_, ?_⟩, ?_, ?_, ?_, ?_, ?_, ?_, ?_, ?_,
    h.guard.trans hg.guard⟩
  · exact fun x hx => h.loose.here x ((hin x).mpr (Or.inl hx))
  · intro x hx hc
    rcases (hcov x).mp hc with hu | hc
    · exact hal.low_half.not_mem_buddy hx (hbuddy ▸ hu)
    · exact h.loose.out x ((hin x).mpr (Or.inl hx)) hc
  · exact fun x hx => h.sub x ((hin x).mpr (Or.inl hx))
  · intro x
    rw [hcov, ← h.union, hin]
    constructor
    · rintro ((hx | hx) | hx)
      · exact Or.inr (Or.inr hx)
      · exact Or.inl hx
      · exact Or.inr (Or.inl hx)
    · rintro (hx | hx | hx)
      · exact Or.inl (Or.inr hx)
      · exact Or.inr hx
      · exact Or.inl (Or.inl hx)
  · intro e he
    rw [hg.blocks] at he
    rcases he with rfl | he
    · exact Or.inr fun x hx => h.sub x ((hin x).mpr (Or.inr hx))
    · exact h.blocks e he
  · rw [hg.lag, h.lag]
    simp only [pow_succ]
    ring
  · refine h.frame.trans hg.frame ?_
    rintro x rfl
    exact h.sub _ ((hin _).mpr (Or.inr (Block.start_mem _)))
  · intro q o' t hq
    rcases hg.lists q o' t hq with hq | ⟨rfl, rfl⟩
    · exact h.lists q o' t hq
    · exact Or.inr ⟨h.sub _ ((hin _).mpr (Or.inr (Block.start_mem _))), rfl⟩
  · exact fun q o' t hq => hg.keeps q o' t (h.keeps q o' t hq)
  · rw [hg.pageblock, h.pageblock]

theorem expand_spec (hle : low ≤ high) (h : Splitting c z₀ b₀ mt z ⟨p, high⟩) :
    Splitting c z₀ b₀ mt (expand c p low mt high (1 <<< high) z) ⟨p, low⟩ := by
  induction high generalizing z with
  | zero =>
    obtain rfl : low = 0 := Nat.le_zero.mp hle
    exact h
  | succ high ih =>
    rw [expand]
    by_cases hlt : low < high + 1
    · have hsize : (1 <<< (high + 1)) >>> 1 = 1 <<< high := by
        rw [Nat.shiftRight_eq_div_pow, Nat.one_shiftLeft, Nat.one_shiftLeft, pow_succ, pow_one,
          Nat.mul_div_cancel _ (by decide)]
      have hpow : p + 1 <<< high = p + 2 ^ high := by rw [Nat.one_shiftLeft]
      obtain ⟨hup, ht⟩ := Loose.halves h.tidy h.loose
      simp only [if_pos hlt, hsize]
      refine ih (by omega) (h.step ?_)
      split_ifs with hguard
      · have hgb := guard_givenBack mt h.tidy hup ht hguard
        rw [← hpow] at hgb ⊢
        exact hgb
      · have hgb := link_givenBack mt h.tidy hup ht
        rw [← hpow] at hgb ⊢
        exact hgb
    · obtain rfl : low = high + 1 := by omega
      rwa [if_neg hlt]

end AndroidKernel.Pages
