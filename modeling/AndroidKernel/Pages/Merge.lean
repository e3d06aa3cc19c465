import AndroidKernel.Pages.Tidy

/-! The loop of `__free_one_page`: the block in hand merges with its buddies for as long as they are
free. -/

namespace AndroidKernel.Pages
open DyadicBlocks

def lag (c : Config) (z : Zone) : ℤ := z.nrFreePages - listedPages c z

structure Loose (c : Config) (z : Zone) (b : Block) : Prop where
  aligned : b.Aligned
  order_lt : b.order < c.maxOrder
  here : ∀ x ∈ b, c.Here x
  out : ∀ x ∈ b, x ∉ covered c z

structure Frame (z z' : Zone) (S : Set ℕ) : Prop where
  page : ∀ x ∉ S, z'.page x = z.page x
  count : ∀ x, (z'.page x).count = (z.page x).count

/-- Without `CONFIG_DEBUG_PAGEALLOC` no guard pages come into being. -/
def GuardKept (c : Config) (z z' : Zone) : Prop :=
  c.debugGuardpageMinorder = 0 → ∀ x, (z'.page x).guard = true → (z.page x).guard = true

variable {c : Config} {z z₀ z' z'' : Zone} {p o : ℕ} {mt : Migratetype} {b b₀ : Block} {S T : Set ℕ}

theorem GuardKept.trans (h : GuardKept c z z') (h' : GuardKept c z' z'') : GuardKept c z z'' :=
  fun h0 x hx => h h0 x (h' h0 x hx)

theorem Frame.refl (z : Zone) (S : Set ℕ) : Frame z z S := ⟨fun _ _ => rfl, fun _ => rfl⟩

theorem Frame.trans (h : Frame z z' S) (h' : Frame z' z'' T) (hST : T ⊆ S) : Frame z z'' S where
  page := fun x hx => (h'.page x fun hT => hx (hST hT)).trans (h.page x hx)
  count := fun x => (h'.count x).trans (h.count x)

@[simp] theorem modZoneFreepageState_page (n : ℤ) : (modZoneFreepageState c z n mt).page = z.page := by
  unfold modZoneFreepageState
  split <;> rfl

@[simp] theorem modZoneFreepageState_freeArea (n : ℤ) :
    (modZoneFreepageState c z n mt).freeArea = z.freeArea := by
  unfold modZoneFreepageState
  split <;> rfl

@[simp] theorem modZoneFreepageState_pageblock (n : ℤ) :
    (modZoneFreepageState c z n mt).pageblock = z.pageblock := by
  unfold modZoneFreepageState
  split <;> rfl

@[simp] theorem modZoneFreepageState_nrFreePages (n : ℤ) :
    (modZoneFreepageState c z n mt).nrFreePages = z.nrFreePages + n := by
  unfold modZoneFreepageState
  split <;> rfl

theorem Tidy.of_eq (h : Tidy c z) (hp : z'.page = z.page) (ha : z'.freeArea = z.freeArea) :
    Tidy c z' := by
  refine h.congr ?_ ?_ ?_ ha
  all_goals
    intro p _
    rw [hp]

theorem blocks_of_eq (hp : z'.page = z.page) : blocks c z' = blocks c z :=
  blocks_congr fun p _ => by rw [hp]

theorem Frame.of_eq (hp : z'.page = z.page) : Frame z z' S :=
  ⟨fun x _ => congrFun hp x, fun x => by rw [hp]⟩

theorem Tidy.mem_blocks_of_list (h : Tidy c z) (hp : p ∈ (z.freeArea o).freeList mt) :
    ⟨p, o⟩ ∈ blocks c z := by
  obtain ⟨hh, hb, rfl⟩ := h.linked o mt p hp
  exact ⟨hh, Page.mark_of_buddy hb⟩

theorem order_unique {b' : Block} (hb : b ∈ blocks c z) (hb' : b' ∈ blocks c z)
    (hs : b.start = b'.start) : b = b' := by
  obtain ⟨s, o⟩ := b
  obtain ⟨s', o'⟩ := b'
  cases hs
  exact congrArg (Block.mk s) (Option.some.inj (hb.2.symm.trans hb'.2))

theorem pageIsBuddy_iff (hp : c.Here p) (buddy : ℕ) :
    pageIsBuddy c z p buddy o = true ↔ ⟨buddy, o⟩ ∈ blocks c z := by
  rw [mem_blocks, Page.mark_eq_some, pageIsBuddy, Config.Here]
  split_ifs with hv hz hg
  · simp only [Bool.not_eq_true'] at hv
    simp [hv]
  · simp only [false_iff, not_and]
    rintro ⟨-, hz'⟩
    exact absurd (hp.2.trans hz'.symm) hz
  · simp only [Bool.not_eq_true', Bool.not_eq_false, ne_eq, not_not] at hv hz
    simp [hv, ← hz, hp.2, hg.1, hg.2]
  · simp only [Bool.not_eq_true', Bool.not_eq_false, ne_eq, not_not] at hv hz
    simp only [hv, ← hz, hp.2, and_self, true_and, decide_eq_true_eq]
    constructor
    · rintro ⟨hb, ho⟩
      exact ⟨Or.inl hb, ho⟩
    · rintro ⟨hb | hb, ho⟩
      · exact ⟨hb, ho⟩
      · exact absurd ⟨hb, ho⟩ hg

/-- The state of the loop of `__free_one_page`, which holds a block in its hands. -/
structure Merging (c : Config) (z₀ : Zone) (b₀ : Block) (z : Zone) (b : Block) : Prop where
  tidy : Tidy c z
  loose : Loose c z b
  grown : ∀ x ∈ b₀, x ∈ b
  sub : ∀ d ∈ blocks c z, d ∈ blocks c z₀
  union : ∀ x, x ∈ covered c z ∨ x ∈ b ↔ x ∈ covered c z₀ ∨ x ∈ b₀
  lag : lag c z = lag c z₀ + 2 ^ b.order - 2 ^ b₀.order
  frame : Frame z₀ z {x | x ∈ covered c z₀ ∨ x ∈ b₀}
  lists : ∀ q o t, q ∈ (z.freeArea o).freeList t ↔
    ⟨q, o⟩ ∈ blocks c z ∧ q ∈ (z₀.freeArea o).freeList t
  above : ∀ o, b.order ≤ o → (z.freeArea o).freeList = (z₀.freeArea o).freeList
  pageblock : z.pageblock = z₀.pageblock

theorem Merging.refl (h : Tidy c z) (hl : Loose c z b) : Merging c z b z b where
  tidy := h
  loose := hl
  grown := fun _ hx => hx
  sub := fun _ hd => hd
  union := fun _ => Iff.rfl
  lag := by ring
  frame := Frame.refl ..
  lists := fun _ _ _ => (and_iff_right_of_imp h.mem_blocks_of_list).symm
  above := fun _ _ => rfl
  pageblock := rfl

structure Absorbed (c : Config) (z : Zone) (b : Block) (z' : Zone) : Prop where
  tidy : Tidy c z'
  blocks : blocks c z' = blocks c z \ {b.buddy}
  lag : Pages.lag c z' = Pages.lag c z + 2 ^ b.order
  frame : Frame z z' {x | x = b.start ∨ x = b.buddy.start}
  lists : ∀ q o t, q ∈ (z'.freeArea o).freeList t ↔
    q ≠ b.buddy.start ∧ q ∈ (z.freeArea o).freeList t
  other : ∀ o, o ≠ b.order → (z'.freeArea o).freeList = (z.freeArea o).freeList
  pageblock : z'.pageblock = z.pageblock

theorem absorbBuddy_guard (h : Tidy c z) (hl : Loose c z b) (hb : b.buddy ∈ blocks c z)
    (hg : (z.page b.buddy.start).guard = true) : Absorbed c z b
      (modZoneFreepageState c ((z.clearPageGuardFlag b.buddy.start).setPagePrivate b.start 0)
        (1 <<< b.order) mt) := by
  obtain ⟨hh, hm⟩ := hb
  have hstart := mark_of_not_covered (hl.here _ b.start_mem) (hl.out _ b.start_mem)
  have hblocks := h.blocks_clearGuard hh hg
  rw [(Page.mark_eq_some.mp hm).2] at hblocks
  have hne : b.start ≠ b.buddy.start := by
    intro he
    rw [he] at hstart
    rw [hstart] at hm
    cases hm
  have hclear : ((z.clearPageGuardFlag b.buddy.start).page b.start) = z.page b.start :=
    (Zone.setPage_page _ _).trans (if_neg hne)
  have hstart' : ((z.clearPageGuardFlag b.buddy.start).page b.start).mark = none := by
    rw [hclear, hstart]
  have hnone : (Page.mk (z.page b.start).buddy (z.page b.start).guard 0 (z.page b.start).count).mark
      = none := by
    rw [Page.mark_eq_none] at hstart ⊢
    exact hstart
  rw [← hclear] at hnone
  refine ⟨?_, ?_, ?_, ?_, ?_, ?_, ?_⟩
  · exact ((h.clearGuard hh hg).setPage hstart' hnone).of_eq (modZoneFreepageState_page _)
      (modZoneFreepageState_freeArea _)
  · rw [blocks_of_eq (modZoneFreepageState_page _)]
    exact (blocks_setPage_none hstart' hnone).trans hblocks
  · simp only [Pages.lag, modZoneFreepageState_nrFreePages, Nat.one_shiftLeft]
    rw [listedPages_congr (z := z) fun o => by rw [modZoneFreepageState_freeArea]; rfl]
    change z.nrFreePages + _ - _ = _
    push_cast
    ring
  · have hpage : Frame z ((z.clearPageGuardFlag b.buddy.start).setPagePrivate b.start 0)
        {x | x = b.start ∨ x = b.buddy.start} := by
      refine ⟨fun x hx => ?_, fun x => ?_⟩
      · rw [Set.mem_ofPred_eq, not_or] at hx
        simp only [Zone.setPagePrivate, Zone.clearPageGuardFlag, Zone.setPage_page, if_neg hx.1,
          if_neg hx.2]
      · simp only [Zone.setPagePrivate, Zone.clearPageGuardFlag, Zone.setPage_page]
        by_cases h1 : x = b.start
        · simp only [h1, if_true, if_neg hne]
        · simp only [h1, if_false]
          split_ifs with h2
          · rw [h2]
          · rfl
    exact hpage.trans (T := ∅) (Frame.of_eq (modZoneFreepageState_page _)) (Set.empty_subset _)
  · intro q o t
    rw [modZoneFreepageState_freeArea]
    refine ⟨fun hq => ⟨?_, hq⟩, fun hq => hq.2⟩
    -- a guard page is in no list
    rintro rfl
    have hbud := (h.linked o t _ hq).2.1
    exact absurd ((h.excl _ hh hg).symm.trans hbud) (by decide)
  · intro o _
    rw [modZoneFreepageState_freeArea]
    rfl
  · exact modZoneFreepageState_pageblock _

theorem absorbBuddy_free (h : Tidy c z) (ho : b.order < c.maxOrder) (hb : b.buddy ∈ blocks c z)
    (hg : (z.page b.buddy.start).guard = false) :
    Absorbed c z b (z.unlink b.buddy.start b.order) := by
  obtain ⟨hh, hm⟩ := hb
  obtain ⟨hkind, hpriv⟩ := Page.mark_eq_some.mp hm
  rw [Block.buddy_order] at hpriv
  have hbud : (z.page b.buddy.start).buddy = true := by
    simpa only [hg, Bool.false_eq_true, or_false] using hkind
  have hunlink := h.unlink hh hbud
  have hblocks := h.blocks_unlink hh hbud
  rw [hpriv] at hunlink hblocks
  have hlist : ∀ o t, ((z.unlink b.buddy.start b.order).freeArea o).freeList t =
      ((z.freeArea o).freeList t).erase b.buddy.start := fun o t =>
    congrFun (Zone.addNrFree_freeList (z := z.listDel b.buddy.start) (-1) o) t
  refine ⟨hunlink, hblocks, ?_, ⟨fun x hx => ?_, fun x => ?_⟩, fun q o t => ?_, fun o ho => ?_, rfl⟩
  · simp only [Pages.lag, listedPages_unlink (z := z) (p := b.buddy.start) ho]
    change z.nrFreePages - _ = _
    ring
  · rw [Set.mem_ofPred_eq, not_or] at hx
    exact (Zone.setPage_page _ _).trans (if_neg hx.2)
  · simp only [Zone.unlink, Zone.rmvPageOrder, Zone.setPage_page]
    split_ifs with hx
    · rw [hx]
      rfl
    · rfl
  · rw [hlist, (h.nodup o t).mem_erase_iff]
  · funext t
    rw [hlist]
    refine List.erase_of_not_mem fun hin => ho ?_
    exact (h.linked o t _ hin).2.2.symm.trans hpriv

theorem absorbBuddy_spec (mt : Migratetype) (h : Tidy c z) (hl : Loose c z b) (hb : b.buddy ∈ blocks c z) :
    Absorbed c z b (absorbBuddy c z b.start b.buddy.start b.order mt) := by
  unfold absorbBuddy
  split_ifs with hg
  · exact absorbBuddy_guard h hl hb hg
  · exact absorbBuddy_free h hl.order_lt hb (by simpa using hg)

theorem Merging.step (mt : Migratetype) (h : Merging c z₀ b₀ z b) (ho : b.order + 1 < c.maxOrder)
    (hb : b.buddy ∈ blocks c z) :
    Merging c z₀ b₀ (absorbBuddy c z b.start b.buddy.start b.order mt) b.parent := by
  have ha := absorbBuddy_spec mt h.tidy h.loose hb
  have hal := h.loose.aligned
  have hcov : ∀ x, x ∈ covered c (absorbBuddy c z b.start b.buddy.start b.order mt) ↔
      x ∈ covered c z ∧ x ∉ b.buddy := by
    intro x
    rw [covered, ha.blocks]
    exact h.tidy.tiling.mem_cover_erase hb
  have hbuddy : ∀ x ∈ b.buddy, x ∈ covered c z := fun x hx => ⟨_, hb, hx⟩
  refine ⟨ha.tidy, ⟨Block.parent_aligned b, ho, ?_, ?_⟩, ?_, ?_, ?_, ?_, ?_, ?_, ?_, ?_⟩
  · intro x hx
    rcases hal.mem_parent_iff.mp hx with hx | hx
    · exact h.loose.here x hx
    · exact h.tidy.here _ hb x hx
  · intro x hx hc
    rw [hcov] at hc
    rcases hal.mem_parent_iff.mp hx with hx | hx
    · exact h.loose.out x hx hc.1
    · exact hc.2 hx
  · exact fun x hx => hal.mem_parent_iff.mpr (Or.inl (h.grown x hx))
  · intro d hd
    rw [ha.blocks] at hd
    exact h.sub d hd.1
  · intro x
    rw [hcov, hal.mem_parent_iff, ← h.union]
    constructor
    · rintro (⟨hx, -⟩ | hx | hx)
      · exact Or.inl hx
      · exact Or.inr hx
      · exact Or.inl (hbuddy x hx)
    · rintro (hx | hx)
      · by_cases hxb : x ∈ b.buddy
        · exact Or.inr (Or.inr hxb)
        · exact Or.inl ⟨hx, hxb⟩
      · exact Or.inr (Or.inl hx)
  · rw [ha.lag, h.lag, Block.parent_order, pow_succ]
    ring
  · refine h.frame.trans ha.frame ?_
    rintro x (rfl | rfl)
    · exact (h.union _).mp (Or.inr b.start_mem)
    · exact (h.union _).mp (Or.inl (hbuddy _ (Block.start_mem _)))
  · intro q o t
    rw [ha.lists, h.lists, ha.blocks, Set.mem_sdiff, Set.mem_singleton_iff]
    constructor
    · rintro ⟨hne, hq, hin⟩
      exact ⟨⟨hq, fun he => hne (congrArg Block.start he)⟩, hin⟩
    · rintro ⟨⟨hq, hne⟩, hin⟩
      exact ⟨fun he => hne (order_unique hq hb he), hq, hin⟩
  · intro o hle
    rw [Block.parent_order] at hle
    rw [ha.other o (by omega), h.above o (by omega)]
  · rw [ha.pageblock, h.pageblock]

structure Cursor.At (c : Config) (k : Cursor) (b : Block) : Prop where
  page : k.page = b.start
  pageIdx : k.pageIdx = b.start % 2 ^ c.maxOrder
  order : k.order = b.order

structure Cursor.Stuck (c : Config) (z : Zone) (k : Cursor) (b : Block) : Prop where
  buddy : k.buddy = b.buddy.start
  buddyIdx : k.buddyIdx = findBuddyIndex (b.start % 2 ^ c.maxOrder) b.order
  not_mem : b.buddy ∉ blocks c z

theorem mergeBuddies_spec (mt : Migratetype) (fuel : ℕ) {k : Cursor} (h : Merging c z₀ b₀ z b) (hk : k.At c b)
    (hf : fuel = c.maxOrder - 1 - b.order) :
    ∃ b', Merging c z₀ b₀ (mergeBuddies c mt fuel z k).1 b' ∧
      (mergeBuddies c mt fuel z k).2.At c b' ∧
      (b'.order + 1 < c.maxOrder →
        (mergeBuddies c mt fuel z k).2.Stuck c (mergeBuddies c mt fuel z k).1 b') := by
  have hlt := h.loose.order_lt
  induction fuel generalizing z k b with
  | zero => exact ⟨b, h, hk, fun ho => absurd hf (by omega)⟩
  | succ fuel ih =>
    have hal := h.loose.aligned
    obtain ⟨page, pageIdx, order, buddyIdx, buddy⟩ := k
    obtain ⟨rfl, rfl, rfl⟩ := hk
    have hbud : b.start + findBuddyIndex (b.start % 2 ^ c.maxOrder) b.order -
        b.start % 2 ^ c.maxOrder = b.buddy.start := hal.flip_start hlt
    have hiff := pageIsBuddy_iff (z := z) (o := b.order)
      (h.loose.here _ b.start_mem) b.buddy.start
    simp only [mergeBuddies, hbud]
    split_ifs with hpb
    · have hmem : b.buddy ∈ blocks c z := hiff.mp hpb
      have hstep := h.step mt (by omega) hmem
      refine ih hstep ⟨hal.mask_start hlt, hal.mask_mod hlt, rfl⟩ ?_ hstep.loose.order_lt
      rw [Block.parent_order]
      omega
    · exact ⟨b, h, ⟨rfl, rfl, rfl⟩, fun _ => ⟨rfl, rfl, fun hmem => hpb (hiff.mpr hmem)⟩⟩

end AndroidKernel.Pages
