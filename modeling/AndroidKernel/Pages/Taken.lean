import AndroidKernel.Pages.Split

/-! What taking a block out of a zone does: it is cut from the front of a block on one of the lists,
and the rest of that goes back. -/

namespace AndroidKernel.Pages
open DyadicBlocks

def Near (c : Config) (B : Block) (i : ℕ) : Prop := ∃ x ∈ B, x >>> c.pageblockOrder = i

/-- A block `b` has been taken out of the zone, cut from the block `B` on a list of `t`; what was
regrouped goes to `mt`. -/
structure Taken (c : Config) (z : Zone) (mt : Migratetype) (b : Block) (z' : Zone) (B : Block)
    (t : Migratetype) : Prop where
  tidy : Tidy c z'
  loose : Loose c z' b
  sub : ∀ x ∈ b, x ∈ B
  source : B.start ∈ (z.freeArea B.order).freeList t
  covered : ∀ x, x ∈ covered c z ↔ x ∈ covered c z' ∨ x ∈ b
  blocks : ∀ e ∈ blocks c z', e ∈ Pages.blocks c z ∨ ∀ x ∈ e, x ∈ B
  lag : lag c z' = lag c z + 2 ^ b.order
  frame : Frame z z' {x | x ∈ B}
  lists : ∀ q o u, q ∈ (z'.freeArea o).freeList u →
    q ∈ (z.freeArea o).freeList u ∨ (u = mt ∨ u = t) ∧ Near c B (q >>> c.pageblockOrder)
  keeps : ∀ q o u, q ∈ (z.freeArea o).freeList u →
    q ∈ (z'.freeArea o).freeList u ∨ Near c B (q >>> c.pageblockOrder)
  pageblock : ∀ i, z'.pageblock i = z.pageblock i ∨
    z'.pageblock i = groupedMigratetype c mt ∧ Near c B i
  guard : GuardKept c z z'

variable {c : Config} {z z' z'' : Zone} {p q o low high order : ℕ} {mt t startMt : Migratetype}
  {b B : Block}

theorem near_of_mem (h : q ∈ B) : Near c B (q >>> c.pageblockOrder) := ⟨q, h, rfl⟩

theorem Tidy.loose_unlink (h : Tidy c z) (hB : B.start ∈ (z.freeArea B.order).freeList t) :
    Tidy c (z.unlink B.start B.order) ∧ Loose c (z.unlink B.start B.order) B ∧
      blocks c (z.unlink B.start B.order) = blocks c z \ {B} := by
  obtain ⟨hh, hb, ho⟩ := h.linked _ _ _ hB
  have hmem := h.mem_blocks_of_list hB
  have htidy := h.unlink hh hb
  have hblocks := h.blocks_unlink hh hb
  rw [ho] at htidy hblocks
  have hle := h.tiling.order_le _ hmem
  have hpos := c.maxOrder_pos
  change B.order ≤ c.maxOrder - 1 at hle
  refine ⟨htidy, ⟨h.tiling.aligned _ hmem, by omega, h.here _ hmem, fun x hx hc => ?_⟩, hblocks⟩
  rw [covered, hblocks] at hc
  exact ((h.tiling.mem_cover_erase hmem).mp hc).2 hx

theorem Tidy.covered_unlink (h : Tidy c z) (hB : B.start ∈ (z.freeArea B.order).freeList t)
    (x : ℕ) : x ∈ covered c z ↔ x ∈ covered c (z.unlink B.start B.order) ∨ x ∈ B := by
  have hmem := h.mem_blocks_of_list hB
  rw [covered, covered, (h.loose_unlink hB).2.2]
  constructor
  · intro hx
    by_cases hxB : x ∈ B
    · exact Or.inr hxB
    · exact Or.inl ((h.tiling.mem_cover_erase hmem).mpr ⟨hx, hxB⟩)
  · rintro (hx | hx)
    · exact ((h.tiling.mem_cover_erase hmem).mp hx).1
    · exact ⟨B, hmem, hx⟩

theorem Tidy.order_lt (h : Tidy c z) (hB : p ∈ (z.freeArea o).freeList t) : o < c.maxOrder := by
  have hle := h.tiling.order_le _ (h.mem_blocks_of_list hB)
  have hpos := c.maxOrder_pos
  change o ≤ c.maxOrder - 1 at hle
  omega

theorem Splitting.taken (h : Tidy c z) (hB : B.start ∈ (z.freeArea B.order).freeList t)
    (hmt : mt = startMt ∨ mt = t)
    (hs : Splitting c (z.unlink B.start B.order) B mt z' b) : Taken c z startMt b z' B t := by
  obtain ⟨hh, hbud, ho⟩ := h.linked _ _ _ hB
  have hlist : ∀ o u, ((z.unlink B.start B.order).freeArea o).freeList u =
      ((z.freeArea o).freeList u).erase B.start := fun o u =>
    congrFun (Zone.addNrFree_freeList (z := z.listDel B.start) (-1) o) u
  have hguard : GuardKept c z (z.unlink B.start B.order) := by
    intro _ x hx
    simp only [Zone.unlink, Zone.rmvPageOrder, Zone.setPage_page] at hx
    split_ifs at hx with hxB
    · rw [hxB]
      exact hx
    · exact hx
  refine ⟨hs.tidy, hs.loose, hs.sub, hB, ?_, ?_, ?_, ?_, ?_, ?_, ?_, hguard.trans hs.guard⟩
  · intro x
    rw [h.covered_unlink hB, ← hs.union]
  · intro e he
    refine (hs.blocks e he).imp_left fun he => ?_
    rw [(h.loose_unlink hB).2.2] at he
    exact he.1
  · have hl := listedPages_unlink (z := z) (p := B.start) (h.order_lt hB)
    have hlag := hs.lag
    simp only [Pages.lag, hl] at hlag ⊢
    change _ = z.nrFreePages - _ + _ - _ at hlag
    linarith
  · have hunlink : Frame z (z.unlink B.start B.order) {x | x ∈ B} := by
      refine ⟨fun x hx => ?_, fun x => ?_⟩
      · refine (Zone.setPage_page _ x).trans (if_neg ?_)
        rintro rfl
        exact hx B.start_mem
      · simp only [Zone.unlink, Zone.rmvPageOrder, Zone.setPage_page]
        split_ifs with hx
        · rw [hx]
          rfl
        · rfl
    exact hunlink.trans hs.frame fun _ hx => hx
  · intro q o u hq
    rcases hs.lists q o u hq with hq | ⟨hq, rfl⟩
    · rw [hlist] at hq
      exact Or.inl (List.mem_of_mem_erase hq)
    · exact Or.inr ⟨hmt, near_of_mem hq⟩
  · intro q o u hq
    by_cases hqB : q = B.start
    · exact Or.inr (hqB ▸ near_of_mem B.start_mem)
    · exact Or.inl (hs.keeps q o u (by rwa [hlist, List.mem_erase_of_ne hqB]))
  · intro i
    exact Or.inl (congrFun hs.pageblock i)

theorem expand_taken (h : Tidy c z) (hp : p ∈ (z.freeArea high).freeList t) (hle : low ≤ high)
    (hmt : mt = startMt ∨ mt = t) :
    Taken c z startMt ⟨p, low⟩ (expand c p low mt high (1 <<< high) (z.unlink p high))
      ⟨p, high⟩ t := by
  have hB : (⟨p, high⟩ : Block).start ∈ (z.freeArea (⟨p, high⟩ : Block).order).freeList t := hp
  obtain ⟨htidy, hloose, -⟩ := h.loose_unlink hB
  exact (expand_spec hle (Splitting.refl htidy hloose)).taken h hB hmt

end AndroidKernel.Pages
