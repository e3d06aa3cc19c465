import AndroidKernel.Pages.Merge

/-! Freeing a block into a zone keeps the zone tidy: `__free_one_page` puts the merged block on a
list, at its tail where the next merge is likely. -/

namespace AndroidKernel.Pages
open DyadicBlocks
variable {c : Config} {z z₀ z' z'' : Zone} {p o : ℕ} {mt : Migratetype} {b b₀ : Block} {S T : Set ℕ}

/-- What freeing a block does to the zone: it ends up in a block `d` on a list of `mt`. -/
structure Freed (c : Config) (z : Zone) (b : Block) (mt : Migratetype) (z' : Zone) (d : Block) :
    Prop where
  tidy : Tidy c z'
  grown : ∀ x ∈ b, x ∈ d
  blocks : ∀ e ∈ blocks c z', e ≠ d → e ∈ Pages.blocks c z
  covered : ∀ x, x ∈ covered c z' ↔ x ∈ covered c z ∨ x ∈ b
  lag : lag c z' = lag c z - 2 ^ b.order
  frame : Frame z z' {x | x ∈ Pages.covered c z ∨ x ∈ b}
  lists : ∀ q o t, q ∈ (z'.freeArea o).freeList t ↔ (⟨q, o⟩ : Block) = d ∧ t = mt ∨
    (⟨q, o⟩ : Block) ≠ d ∧ ⟨q, o⟩ ∈ Pages.blocks c z' ∧ q ∈ (z.freeArea o).freeList t
  pageblock : z'.pageblock = z.pageblock

theorem Merging.finish (h : Merging c z₀ b₀ z b)
    (hb : b.order + 1 < c.maxOrder → b.buddy ∉ blocks c z) {l : List ℕ}
    (hl : l.Perm (b.start :: (z.freeArea b.order).freeList mt)) :
    Freed c z₀ b₀ mt (z.link b.start b.order mt l) b := by
  have hm := mark_of_not_covered (h.loose.here _ b.start_mem) (h.loose.out _ b.start_mem)
  have hle : b.order ≤ c.maxOrder - 1 := by
    have := h.loose.order_lt
    omega
  have hblocks := blocks_link (o := b.order) h.loose.here hm mt l
  have hcov : ∀ x, x ∈ Pages.covered c (z.link b.start b.order mt l) ↔
      x ∈ Pages.covered c z₀ ∨ x ∈ b₀ := by
    intro x
    rw [Pages.covered, hblocks, mem_cover_insert, or_comm]
    exact h.union x
  have hout : b ∉ Pages.blocks c z := fun hmem => h.loose.out _ b.start_mem ⟨b, hmem, b.start_mem⟩
  refine ⟨?_, h.grown, ?_, hcov, ?_, ?_, ?_, h.pageblock⟩
  · refine h.tidy.link h.loose.here hm hl (h.tidy.tiling.insert h.loose.aligned hle h.loose.out ?_)
    intro hlt
    change b.order < c.maxOrder - 1 at hlt
    exact hb (by omega)
  · intro e he hne
    rw [hblocks] at he
    exact h.sub e (he.resolve_left hne)
  · have hlist := listedPages_link (z := z) (p := b.start) mt l h.loose.order_lt
    have hlag := h.lag
    simp only [Pages.lag] at hlag ⊢
    rw [hlist]
    change z.nrFreePages - _ = _
    linarith
  · refine h.frame.trans (T := {b.start}) ⟨fun x hx => ?_, fun x => ?_⟩ ?_
    · exact (Zone.setPage_page _ x).trans (if_neg hx)
    · change ((z.setPageOrder b.start b.order).page x).count = _
      rw [Zone.setPageOrder, Zone.setPage_page]
      split_ifs with hx
      · rw [hx]
      · rfl
    · rintro x rfl
      exact (h.union _).mp (Or.inr b.start_mem)
  · intro q o t
    have hlist : ((z.link b.start b.order mt l).freeArea o).freeList t =
        if o = b.order ∧ t = mt then l else (z.freeArea o).freeList t :=
      (congrFun (Zone.addNrFree_freeList 1 o) t).trans (Zone.setFreeList_freeList l o t)
    have hself : ∀ o t, b.start ∉ (z.freeArea o).freeList t := by
      intro o t hin
      have hbud := (h.tidy.linked o t _ hin).2.1
      exact absurd ((Page.mark_eq_none.mp hm).1.symm.trans hbud) (by decide)
    have hmem : q ∈ ((z.link b.start b.order mt l).freeArea o).freeList t ↔
        (q = b.start ∧ o = b.order) ∧ t = mt ∨ q ∈ (z.freeArea o).freeList t := by
      rw [hlist]
      split_ifs with hc
      · rw [hl.mem_iff, List.mem_cons, hc.1, hc.2]
        simp only [and_true]
      · refine ⟨Or.inr, ?_⟩
        rintro (⟨⟨-, ho⟩, ht⟩ | hin)
        · exact absurd ⟨ho, ht⟩ hc
        · exact hin
    have hqb : (⟨q, o⟩ : Block) = b ↔ q = b.start ∧ o = b.order := by
      obtain ⟨s, o'⟩ := b
      exact Block.mk.injEq .. ▸ Iff.rfl
    rw [hmem, hqb]
    refine or_congr_right ⟨fun hin => ?_, ?_⟩
    · obtain ⟨hblk, hin₀⟩ := (h.lists q o t).mp hin
      refine ⟨fun he => hself o t ((hqb.mp he).1 ▸ hin), ?_, hin₀⟩
      rw [hblocks]
      exact Or.inr hblk
    · rintro ⟨hne, hblk, hin⟩
      rw [hblocks] at hblk
      exact (h.lists q o t).mpr ⟨hblk.resolve_left hne, hin⟩

theorem Freed.guard {d : Block} (hf : Freed c z b mt z' d) (h : Tidy c z)
    (hb : ∀ x ∈ b, c.Here x) {x : ℕ} (hx : (z'.page x).guard = true) : (z.page x).guard = true := by
  by_cases hin : x ∈ Pages.covered c z ∨ x ∈ b
  · have hh : c.Here x := hin.elim (fun ⟨e, he, hxe⟩ => h.here e he x hxe) (hb x)
    have hbuddy := hf.tidy.excl x hh hx
    have hno : ∀ t o, x ∉ (z'.freeArea o).freeList t := by
      intro t o hin
      rw [(hf.tidy.linked o t x hin).2.1] at hbuddy
      cases hbuddy
    have hmem : (⟨x, (z'.page x).priv⟩ : Block) ∈ Pages.blocks c z' := ⟨hh, Page.mark_of_guard hx⟩
    by_cases hd : (⟨x, (z'.page x).priv⟩ : Block) = d
    · exact absurd ((hf.lists x _ mt).mpr (Or.inl ⟨hd, rfl⟩)) (hno mt _)
    · have hold := hf.blocks _ hmem hd
      obtain ⟨hbg, hpriv⟩ := Page.mark_eq_some.mp hold.2
      rcases hbg with hbg | hbg
      · -- a free block would still be on its list
        obtain ⟨t, ht⟩ := h.listed x hh hbg
        rw [hpriv] at ht
        exact absurd ((hf.lists x _ t).mpr (Or.inr ⟨hd, hmem, ht⟩)) (hno t _)
      · exact hbg
  · rwa [hf.frame.page x hin] at hx

theorem not_buddy_of_odd (hmark : ∀ p o, (z.page p).mark = some o → 2 ^ o ∣ p) (hal : b.Aligned)
    (hodd : b.index % 2 ≠ 0) (page : ℕ) {n : ℕ} (hn : 2 ^ (b.order + 1) ∣ n) :
    pageIsBuddy c z page (b.start + n - b.parent.start) (b.order + 1) = false := by
  have hlow : b.start = b.parent.start + 2 ^ b.order := by
    have hp := hal.parent_start
    have hi := hal.start_eq
    rw [show b.index % 2 = 1 by omega, Nat.mul_one] at hp
    have hle : 2 ^ b.order * 1 ≤ 2 ^ b.order * b.index := Nat.mul_le_mul_left _ (by omega)
    omega
  have hnd : ¬ 2 ^ (b.order + 1) ∣ b.start + n - b.parent.start := by
    intro hd
    rw [hlow, show b.parent.start + 2 ^ b.order + n - b.parent.start = 2 ^ b.order + n by omega] at hd
    have := Nat.le_of_dvd (Nat.two_pow_pos _) ((Nat.dvd_add_left hn).mp hd)
    rw [pow_succ] at this
    have := Nat.two_pow_pos b.order
    omega
  have hno : (z.page (b.start + n - b.parent.start)).mark ≠ some (b.order + 1) :=
    fun hm => hnd (hmark _ _ hm)
  rw [ne_eq, Page.mark_eq_some] at hno
  unfold pageIsBuddy
  split_ifs with hv hz hg
  · rfl
  · rfl
  · exact absurd ⟨Or.inr hg.1, hg.2⟩ hno
  · exact decide_eq_false fun hb => hno ⟨Or.inl hb.1, hb.2⟩

/-- When a freed block goes to the tail of its list: it is the lower half of the next block, whose
buddy is free. -/
def Hinted (c : Config) (z : Zone) (d : Block) : Prop :=
  d.order + 2 < c.maxOrder ∧ c.pfnValidWithin d.buddy.start = true ∧ d.index % 2 = 0 ∧
    d.parent.buddy ∈ blocks c z

theorem higherBuddyIsFree_iff (hmark : ∀ p o, (z.page p).mark = some o → 2 ^ o ∣ p)
    (hal : b.Aligned) (hh : c.Here b.start) {k : Cursor} (hk : k.At c b)
    (hs : b.order + 1 < c.maxOrder → k.Stuck c z' b) :
    higherBuddyIsFree c z k = true ↔ Hinted c z b := by
  obtain ⟨page, pageIdx, order, buddyIdx, buddy⟩ := k
  obtain ⟨rfl, rfl, rfl⟩ := hk
  unfold higherBuddyIsFree Hinted
  by_cases ho : b.order + 2 < c.maxOrder
  · obtain ⟨rfl, rfl, -⟩ := hs (by omega)
    by_cases hv : c.pfnValidWithin b.buddy.start = true
    · simp only [ho, hv, and_self, if_true, true_and]
      have hpal := b.parent_aligned
      have hplt : b.parent.order < c.maxOrder := by
        rw [Block.parent_order]
        omega
      have hlt : b.order < c.maxOrder := by omega
      have hflip := hpal.flip_start hplt
      have hmask := hal.mask_start hlt
      have hmod := hal.mask_mod hlt
      rw [hmod] at hmask
      simp only [findBuddyIndex, hmod, hmask]
      by_cases hodd : b.index % 2 = 0
      · have hstart : b.parent.start = b.start := by
          rw [hal.parent_start, hodd, Nat.mul_zero, Nat.sub_zero]
        rw [Block.parent_order] at hflip
        have hhigh : b.start + ((b.parent.start % 2 ^ c.maxOrder) ^^^ (1 <<< (b.order + 1))) -
            b.parent.start % 2 ^ c.maxOrder = b.parent.buddy.start := hstart ▸ hflip
        rw [hhigh, pageIsBuddy_iff (hstart.symm ▸ hh)]
        exact ⟨fun h => ⟨hodd, h⟩, fun h => h.2⟩
      · -- counted from the upper half, the index lands inside a block
        simp only [hodd, false_and, iff_false, Bool.not_eq_true]
        have hle := Nat.mod_le b.parent.start (2 ^ c.maxOrder)
        have hple : b.parent.start ≤ b.start := by
          rw [hal.parent_start]
          exact Nat.sub_le ..
        have hn : b.start + ((b.parent.start % 2 ^ c.maxOrder) ^^^ (1 <<< (b.order + 1))) -
            b.parent.start % 2 ^ c.maxOrder =
            b.start + b.parent.buddy.start - b.parent.start := by
          rw [Block.parent_order] at hflip
          rw [← hflip]
          omega
        rw [hn]
        exact not_buddy_of_odd hmark hal hodd _ hpal.buddy
    · simp only [hv, and_false, if_false, false_and, Bool.false_eq_true]
  · simp only [ho, false_and, if_false, Bool.false_eq_true]

structure Placed (c : Config) (z z' : Zone) (mt : Migratetype) (d : Block) : Prop where
  tail : Hinted c z' d →
    (z'.freeArea d.order).freeList mt = (z.freeArea d.order).freeList mt ++ [d.start]
  head : ¬ Hinted c z' d →
    (z'.freeArea d.order).freeList mt = d.start :: (z.freeArea d.order).freeList mt

def ForeignAligned (c : Config) (z : Zone) : Prop :=
  ∀ p o, ¬ c.Here p → (z.page p).mark = some o → 2 ^ o ∣ p

theorem link_freeList (l : List ℕ) : ((z.link p o mt l).freeArea o).freeList mt = l :=
  (congrFun (Zone.addNrFree_freeList 1 o) mt).trans
    ((Zone.setFreeList_freeList l o mt).trans (if_pos ⟨rfl, rfl⟩))

theorem freeOnePage'_spec (h : Tidy c z) (hl : Loose c z b) (mt : Migratetype) :
    ∃ d, Freed c z b mt (freeOnePage' c z b.start b.order mt) d ∧
      (ForeignAligned c z → Placed c z (freeOnePage' c z b.start b.order mt) mt d) := by
  have hat : Cursor.At c ⟨b.start, b.start &&& ((1 <<< c.maxOrder) - 1), b.order, 0, 0⟩ b :=
    ⟨rfl, by rw [Nat.one_shiftLeft, Nat.and_two_pow_sub_one_eq_mod], rfl⟩
  obtain ⟨d, hm, hk, hs⟩ := mergeBuddies_spec mt (c.maxOrder - 1 - b.order)
    (Merging.refl h hl) hat rfl
  unfold freeOnePage'
  dsimp only
  generalize mergeBuddies c mt (c.maxOrder - 1 - b.order) z _ = r at hm hk hs ⊢
  obtain ⟨z', k⟩ := r
  have hbuddy : d.order + 1 < c.maxOrder → d.buddy ∉ blocks c z' := fun ho => (hs ho).not_mem
  have hdh := hm.loose.here _ d.start_mem
  have hdm := mark_of_not_covered hdh (hm.loose.out _ d.start_mem)
  have hset : blocks c (z'.setPageOrder d.start d.order) = insert d (blocks c z') :=
    blocks_setPage_insert hdh hdm (Page.mark_of_buddy rfl)
  have habove := congrFun (hm.above d.order le_rfl) mt
  have hpage : k.page = d.start ∧ k.order = d.order := ⟨hk.page, hk.order⟩
  rw [hpage.1, hpage.2]
  have hhint : ForeignAligned c z →
      (higherBuddyIsFree c (z'.setPageOrder d.start d.order) k = true ↔
        Hinted c (z'.setPageOrder d.start d.order) d) := by
    intro hfor
    refine higherBuddyIsFree_iff (fun p o hpo => ?_) hm.loose.aligned hdh hk hs
    by_cases hp : c.Here p
    · have hmem : (⟨p, o⟩ : Block) ∈ insert d (blocks c z') := hset ▸ ⟨hp, hpo⟩
      rcases hmem with rfl | hmem
      · exact hm.loose.aligned
      · exact hm.tidy.tiling.aligned _ hmem
    · have hne : p ≠ d.start := fun he => hp (he ▸ hdh)
      rw [Zone.setPageOrder, Zone.setPage_page, if_neg hne, hm.frame.page] at hpo
      · exact hfor p o hp hpo
      · rintro (⟨e, he, hpe⟩ | hpb)
        · exact hp (h.here e he p hpe)
        · exact hp (hl.here p hpb)
  have hafter : ∀ l, Hinted c (z'.link d.start d.order mt l) d ↔
      Hinted c (z'.setPageOrder d.start d.order) d := by
    intro l
    unfold Hinted
    rw [hset, blocks_link hm.loose.here hdm]
  split_ifs with hc
  · refine ⟨d, hm.finish hbuddy (List.perm_append_singleton ..), fun hfor => ⟨fun _ => ?_, ?_⟩⟩
    · exact (link_freeList _).trans (congrArg (· ++ [d.start]) habove)
    · intro hno
      exact absurd ((hafter _).mpr ((hhint hfor).mp hc)) hno
  · refine ⟨d, hm.finish hbuddy List.Perm.rfl, fun hfor => ⟨?_, fun _ => ?_⟩⟩
    · intro hyes
      exact absurd ((hhint hfor).mpr ((hafter _).mp hyes)) hc
    · exact (link_freeList _).trans (congrArg (d.start :: ·) habove)

end AndroidKernel.Pages
