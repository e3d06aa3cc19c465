import AndroidKernel.Pages.Taken

/-! Free blocks that change their lists with their pageblock, and how `__rmqueue_fallback` steals
from a pageblock that it may regroup first. -/

namespace AndroidKernel.Pages
open DyadicBlocks
variable {c : Config} {z z' z'' : Zone} {p q o low high order : ℕ} {mt t startMt : Migratetype}
  {b B : Block}

/-- Free blocks in the pageblocks `N` have gone to other lists, and these pageblocks may be of
another type now. -/
structure Regrouped (c : Config) (z : Zone) (mt : Migratetype) (N : ℕ → Prop) (z' : Zone) : Prop where
  tidy : Tidy c z'
  page : z'.page = z.page
  nrFree : ∀ o, (z'.freeArea o).nrFree = (z.freeArea o).nrFree
  nrFreePages : z'.nrFreePages = z.nrFreePages
  lists : ∀ q o u, q ∈ (z'.freeArea o).freeList u →
    q ∈ (z.freeArea o).freeList u ∨ u = mt ∧ N (q >>> c.pageblockOrder)
  keeps : ∀ q o u, q ∈ (z.freeArea o).freeList u →
    q ∈ (z'.freeArea o).freeList u ∨ N (q >>> c.pageblockOrder)
  pageblock : ∀ i, z'.pageblock i = z.pageblock i ∨ z'.pageblock i = groupedMigratetype c mt ∧ N i

variable {N : ℕ → Prop}

theorem Regrouped.refl (h : Tidy c z) : Regrouped c z mt N z where
  tidy := h
  page := rfl
  nrFree := fun _ => rfl
  nrFreePages := rfl
  lists := fun _ _ _ hq => Or.inl hq
  keeps := fun _ _ _ hq => Or.inl hq
  pageblock := fun _ => Or.inl rfl

theorem Regrouped.trans (h : Regrouped c z mt N z') (h' : Regrouped c z' mt N z'') :
    Regrouped c z mt N z'' where
  tidy := h'.tidy
  page := h'.page.trans h.page
  nrFree := fun o => (h'.nrFree o).trans (h.nrFree o)
  nrFreePages := h'.nrFreePages.trans h.nrFreePages
  lists := fun q o u hq => (h'.lists q o u hq).elim (h.lists q o u) Or.inr
  keeps := fun q o u hq => (h.keeps q o u hq).elim (h'.keeps q o u) Or.inr
  pageblock := fun i => (h'.pageblock i).elim (fun he => he ▸ h.pageblock i) Or.inr

theorem Regrouped.mono {N' : ℕ → Prop} (h : Regrouped c z mt N z') (hN : ∀ i, N i → N' i) :
    Regrouped c z mt N' z' where
  tidy := h.tidy
  page := h.page
  nrFree := h.nrFree
  nrFreePages := h.nrFreePages
  lists := fun q o u hq => (h.lists q o u hq).imp_right (And.imp_right (hN _))
  keeps := fun q o u hq => (h.keeps q o u hq).imp_right (hN _)
  pageblock := fun i => (h.pageblock i).imp_right (And.imp_right (hN i))

theorem Regrouped.setPageblock (mt : Migratetype) (h : Tidy c z) (hN : N (p >>> c.pageblockOrder)) :
    Regrouped c z mt N (setPageblockMigratetype c z p mt) where
  tidy := h.of_eq rfl rfl
  page := rfl
  nrFree := fun _ => rfl
  nrFreePages := rfl
  lists := fun _ _ _ hq => Or.inl hq
  keeps := fun _ _ _ hq => Or.inl hq
  pageblock := by
    intro j
    by_cases hj : j = p >>> c.pageblockOrder
    · exact Or.inr ⟨hj ▸ Function.update_self .., hj ▸ hN⟩
    · exact Or.inl (Function.update_of_ne hj ..)

theorem listMove_eq (hb : (z.page p).buddy = true) (ho : (z.page p).priv = o) :
    z.listMove p o mt =
      (z.unlink p o).link p o mt (p :: ((z.unlink p o).freeArea o).freeList mt) := by
  have hlist : ∀ o', ((z.unlink p o).freeArea o').freeList =
      ((z.listDel p).freeArea o').freeList := fun o' => Zone.addNrFree_freeList (-1) o'
  refine Zone.ext ?_ (funext fun o' => FreeArea.ext (funext fun u => ?_) ?_) rfl rfl rfl
  · funext x
    change z.page x = ((z.unlink p o).setPageOrder p o).page x
    simp only [Zone.unlink, Zone.setPageOrder, Zone.rmvPageOrder, Zone.setPage_page, if_true]
    split_ifs with hx
    · subst hx
      rw [← hb, ← ho]
      rfl
    · rfl
  · have hl : (((z.unlink p o).link p o mt (p :: ((z.unlink p o).freeArea o).freeList mt)).freeArea
        o').freeList u = if o' = o ∧ u = mt then p :: ((z.unlink p o).freeArea o).freeList mt
          else ((z.unlink p o).freeArea o').freeList u :=
      (congrFun (Zone.addNrFree_freeList 1 o') u).trans (Zone.setFreeList_freeList _ o' u)
    rw [hl, hlist, hlist]
    exact Zone.setFreeList_freeList _ o' u
  · have hl := Zone.addNrFree_nrFree (z := ((z.unlink p o).setPageOrder p o).setFreeList o mt
      (p :: ((z.unlink p o).freeArea o).freeList mt)) (o := o) 1 o'
    have hu := Zone.addNrFree_nrFree (z := z.listDel p) (o := o) (-1) o'
    rw [Zone.setFreeList_nrFree] at hl
    change _ = ((z.unlink p o).freeArea o').nrFree + _ at hl
    change ((z.unlink p o).freeArea o').nrFree = (z.freeArea o').nrFree + _ at hu
    refine Eq.trans ?_ hl.symm
    rw [hu]
    refine (Zone.setFreeList_nrFree _ o').trans ?_
    change (z.freeArea o').nrFree = _
    split_ifs <;> ring

theorem Regrouped.listMove (mt : Migratetype) (h : Tidy c z) (hp : c.Here p) (hb : (z.page p).buddy = true)
    (ho : (z.page p).priv = o) (hN : N (p >>> c.pageblockOrder)) :
    Regrouped c z mt N (z.listMove p o mt) := by
  obtain ⟨t, hin⟩ := h.listed p hp hb
  rw [ho] at hin
  have hB : (⟨p, o⟩ : Block).start ∈ (z.freeArea (⟨p, o⟩ : Block).order).freeList t := hin
  obtain ⟨htidy, hloose, hblocks⟩ := h.loose_unlink hB
  have hmark := mark_of_not_covered hp (hloose.out p (Block.start_mem _))
  have hlist : ∀ o' u, ((z.listMove p o mt).freeArea o').freeList u =
      if o' = o ∧ u = mt then p :: ((z.freeArea o).freeList mt).erase p
        else ((z.freeArea o').freeList u).erase p := fun o' u => Zone.setFreeList_freeList _ o' u
  have hmem : ∀ q o' u, q ≠ p → (q ∈ ((z.listMove p o mt).freeArea o').freeList u ↔
      q ∈ (z.freeArea o').freeList u) := by
    intro q o' u hq
    rw [hlist]
    split_ifs with hc
    · rw [List.mem_cons, List.mem_erase_of_ne hq, hc.1, hc.2]
      simp only [hq, false_or]
    · exact List.mem_erase_of_ne hq
  refine ⟨?_, rfl, ?_, rfl, ?_, ?_, fun i => Or.inl rfl⟩
  · rw [listMove_eq hb ho]
    refine htidy.link hloose.here hmark List.Perm.rfl ?_
    rw [hblocks, Set.insert_sdiff_singleton, Set.insert_eq_of_mem (h.mem_blocks_of_list hin)]
    exact h.tiling
  · exact fun o' => Zone.setFreeList_nrFree _ o'
  · intro q o' u hq
    by_cases hqp : q = p
    · subst hqp
      rw [hlist] at hq
      split_ifs at hq with hc
      · exact Or.inr ⟨hc.2, hN⟩
      · exact absurd hq (h.nodup o' u).not_mem_erase
    · exact Or.inl ((hmem q o' u hqp).mp hq)
  · intro q o' u hq
    by_cases hqp : q = p
    · exact Or.inr (hqp ▸ hN)
    · exact Or.inl ((hmem q o' u hqp).mpr hq)

theorem moveFreepages_spec (mt : Migratetype) {endPage start : ℕ} (hr : ∀ x, start ≤ x → x ≤ endPage →
      N (x >>> c.pageblockOrder) ∧ (c.pfnValidWithin x = true → c.Here x))
    (fuel : ℕ) (h : Tidy c z) (hp : start ≤ p) :
    Regrouped c z mt N (moveFreepages c mt endPage fuel z p).1 := by
  induction fuel generalizing z p with
  | zero => exact Regrouped.refl h
  | succ fuel ih =>
    rw [moveFreepages]
    split_ifs with hend hv hb
    · exact Regrouped.refl h
    · exact ih h (by omega)
    · exact ih h (by omega)
    · obtain ⟨hN, hh⟩ := hr p hp (by omega)
      have hstep := Regrouped.listMove mt h (hh (by simpa using hv)) (by simpa using hb) rfl hN
      exact hstep.trans (ih hstep.tidy (hp.trans (Nat.le_add_right ..)))

theorem shiftRight_eq_iff {x : ℕ} : x >>> c.pageblockOrder = p >>> c.pageblockOrder ↔
    p - (p &&& (pageblockNrPages c - 1)) ≤ x ∧
      x ≤ p - (p &&& (pageblockNrPages c - 1)) + pageblockNrPages c - 1 := by
  have hpos := Nat.two_pow_pos c.pageblockOrder
  rw [pageblockNrPages, Nat.one_shiftLeft, Nat.and_two_pow_sub_one_eq_mod,
    Nat.shiftRight_eq_div_pow, Nat.shiftRight_eq_div_pow, Nat.div_eq_iff hpos]
  have hmod := Nat.div_add_mod p (2 ^ c.pageblockOrder)
  rw [Nat.mul_comm (p / 2 ^ c.pageblockOrder)]
  omega

theorem moveFreepagesBlock_spec (mt : Migratetype) (h : Tidy c z) (hp : c.Here p) :
    Regrouped c z mt (· = p >>> c.pageblockOrder) (moveFreepagesBlock c z p mt).1 := by
  have hspan := (c.span p hp.1).mp hp.2
  have hlow := (shiftRight_eq_iff (c := c) (p := p) (x := p)).mp rfl
  unfold moveFreepagesBlock
  dsimp only
  split_ifs with hend
  · exact Regrouped.refl h
  all_goals
    refine moveFreepages_spec mt (fun x hx hxe => ?_) _ h le_rfl
    refine ⟨shiftRight_eq_iff.mpr ⟨by omega, hxe⟩, fun hv => ⟨hv, (c.span x hv).mpr ?_⟩⟩
    omega

theorem changePageblockRange_spec (n : ℕ) (h : Tidy c z)
    (hN : ∀ k < n, N ((p + k * pageblockNrPages c) >>> c.pageblockOrder)) :
    Regrouped c z mt N (changePageblockRange c mt n z p) := by
  induction n generalizing z p with
  | zero => exact Regrouped.refl h
  | succ n ih =>
    have h0 := hN 0 (Nat.succ_pos n)
    rw [Nat.zero_mul, Nat.add_zero] at h0
    have hstep := Regrouped.setPageblock mt h h0
    refine hstep.trans (ih hstep.tidy fun k hk => ?_)
    have hk' := hN (k + 1) (Nat.succ_lt_succ hk)
    rwa [Nat.add_mul, Nat.one_mul, Nat.add_comm (k * _), ← Nat.add_assoc] at hk'

/-! The count of the block that is being stolen goes down first, which changes nothing about the
steps after it. -/

theorem listDel_addNrFree (n : ℤ) : (z.addNrFree o n).listDel p = (z.listDel p).addNrFree o n := by
  refine Zone.ext rfl (funext fun o' => FreeArea.ext ?_ ?_) rfl rfl rfl
  · rw [Zone.addNrFree_freeList]
    exact funext fun u => congrArg (List.erase · p) (congrFun (Zone.addNrFree_freeList n o') u)
  · rw [Zone.addNrFree_nrFree]
    exact Zone.addNrFree_nrFree n o'

theorem listMove_addNrFree (n : ℤ) :
    (z.addNrFree o n).listMove p q mt = (z.listMove p q mt).addNrFree o n := by
  refine Zone.ext rfl (funext fun o' => FreeArea.ext (funext fun u => ?_) ?_) rfl rfl rfl
  · rw [Zone.addNrFree_freeList, Zone.listMove, listDel_addNrFree, Zone.listAdd,
      Zone.setFreeList_freeList, Zone.addNrFree_freeList, Zone.addNrFree_freeList]
    exact (Zone.setFreeList_freeList _ o' u).symm
  · rw [Zone.addNrFree_nrFree, Zone.listMove, listDel_addNrFree, Zone.listAdd,
      Zone.setFreeList_nrFree, Zone.addNrFree_nrFree]
    exact congrArg (· + _) (Zone.setFreeList_nrFree _ o').symm

theorem moveFreepages_addNrFree {endPage : ℕ} (n : ℤ) (fuel : ℕ) :
    moveFreepages c mt endPage fuel (z.addNrFree o n) p =
      ((moveFreepages c mt endPage fuel z p).1.addNrFree o n,
        (moveFreepages c mt endPage fuel z p).2) := by
  induction fuel generalizing z p with
  | zero => rfl
  | succ fuel ih =>
    simp only [moveFreepages, Zone.addNrFree_page, listMove_addNrFree, ih]
    split_ifs <;> rfl

theorem moveFreepagesBlock_addNrFree (n : ℤ) :
    moveFreepagesBlock c (z.addNrFree o n) p mt =
      ((moveFreepagesBlock c z p mt).1.addNrFree o n, (moveFreepagesBlock c z p mt).2) := by
  unfold moveFreepagesBlock
  dsimp only
  split_ifs
  · rfl
  all_goals exact moveFreepages_addNrFree n _

theorem claimPageblock_addNrFree (n : ℤ) :
    claimPageblock c (z.addNrFree o n) startMt high t p =
      ((claimPageblock c z startMt high t p).1.addNrFree o n,
        (claimPageblock c z startMt high t p).2) := by
  simp only [claimPageblock, moveFreepagesBlock_addNrFree]
  split_ifs <;> rfl

theorem changePageblockRange_unlink (n : ℕ) : changePageblockRange c mt n (z.unlink p o) q =
    (changePageblockRange c mt n z q).unlink p o := by
  induction n generalizing z q with
  | zero => rfl
  | succ n ih => exact ih (z := setPageblockMigratetype c z q mt)

theorem claimPageblock_spec (startMt : Migratetype) (h : Tidy c z) (hp : p ∈ (z.freeArea high).freeList t) :
    Regrouped c z startMt (Near c ⟨p, high⟩) (claimPageblock c z startMt high t p).1 ∧
      ((claimPageblock c z startMt high t p).2 = startMt ∨
        (claimPageblock c z startMt high t p) = (z, t)) := by
  obtain ⟨hh, -, -⟩ := h.linked _ _ _ hp
  have hnear : Near c ⟨p, high⟩ (p >>> c.pageblockOrder) := near_of_mem (Block.start_mem _)
  have hmove := moveFreepagesBlock_spec startMt h hh
  have hmove' : Regrouped c z startMt (Near c ⟨p, high⟩) (moveFreepagesBlock c z p startMt).1 :=
    hmove.mono fun i hi => hi ▸ hnear
  unfold claimPageblock
  split_ifs
  · generalize moveFreepagesBlock c z p startMt = r at hmove'
    obtain ⟨z₁, pages⟩ := r
    dsimp only at hmove' ⊢
    split_ifs
    · exact ⟨hmove'.trans (Regrouped.setPageblock _ hmove'.tidy hnear), Or.inl rfl⟩
    · exact ⟨hmove', Or.inl rfl⟩
  · exact ⟨Regrouped.refl h, Or.inr rfl⟩

theorem listedPages_regrouped (h : Regrouped c z mt N z') : listedPages c z' = listedPages c z :=
  listedPages_congr h.nrFree

theorem Regrouped.taken (hr : Regrouped c z mt (Near c B) z') {t' : Migratetype}
    (hB : B.start ∈ (z.freeArea B.order).freeList t) (ht : t' = mt ∨ t' = t)
    (h : Taken c z' mt b z'' B t') : Taken c z mt b z'' B t where
  tidy := h.tidy
  loose := h.loose
  sub := h.sub
  source := hB
  covered := by
    intro x
    rw [← h.covered, Pages.covered, Pages.covered, blocks_of_eq hr.page]
  blocks := by
    intro e he
    rw [← blocks_of_eq hr.page]
    exact h.blocks e he
  lag := by
    rw [h.lag, Pages.lag, Pages.lag, listedPages_regrouped hr, hr.nrFreePages]
  frame := (Frame.of_eq (S := {x | x ∈ B}) hr.page).trans h.frame fun _ hx => hx
  lists := by
    intro q o u hq
    rcases h.lists q o u hq with hq | ⟨hu, hN⟩
    · exact (hr.lists q o u hq).imp_right fun hu => ⟨Or.inl hu.1, hu.2⟩
    · refine Or.inr ⟨?_, hN⟩
      rcases hu with hu | rfl
      · exact Or.inl hu
      · exact ht
  keeps := fun q o u hq => (hr.keeps q o u hq).elim (h.keeps q o u) Or.inr
  pageblock := fun i => (h.pageblock i).elim (fun he => he ▸ hr.pageblock i) Or.inr
  guard := fun h0 x hx => hr.page ▸ h.guard h0 x hx

theorem stealBlock_spec (h : Tidy c z) (hp : p ∈ (z.freeArea high).freeList t)
    (hle : order ≤ high) :
    Taken c z startMt ⟨p, order⟩ (stealBlock c z order startMt high t p) ⟨p, high⟩ t := by
  obtain ⟨hclaim, hmt⟩ := claimPageblock_spec startMt h hp
  unfold stealBlock
  rw [claimPageblock_addNrFree]
  generalize claimPageblock c z startMt high t p = r at hclaim hmt ⊢
  obtain ⟨zm, mt₁⟩ := r
  dsimp only at hclaim hmt ⊢
  have hunlink : ((zm.addNrFree high (-1)).listDel p).rmvPageOrder p = zm.unlink p high := by
    rw [listDel_addNrFree]
    rfl
  rw [hunlink, changePageblockRange_unlink]
  -- the pageblocks of the block change their type, or none does
  have hrange : Regrouped c zm startMt (Near c ⟨p, high⟩)
      (if c.pageblockOrder ≤ high ∧ !isMigrateCma c mt₁ then
        changePageblockRange c startMt (1 <<< (high - c.pageblockOrder)) zm p else zm) := by
    split_ifs with hc
    · refine changePageblockRange_spec _ hclaim.tidy fun k hk => near_of_mem ?_
      rw [Nat.one_shiftLeft] at hk
      rw [pageblockNrPages, Nat.one_shiftLeft]
      have hmul : k * 2 ^ c.pageblockOrder < 2 ^ high := by
        calc k * 2 ^ c.pageblockOrder
            < 2 ^ (high - c.pageblockOrder) * 2 ^ c.pageblockOrder :=
              Nat.mul_lt_mul_of_pos_right hk (Nat.two_pow_pos _)
          _ = 2 ^ high := by rw [← pow_add, Nat.sub_add_cancel hc.1]
      exact ⟨Nat.le_add_right .., Nat.add_lt_add_left hmul p⟩
    · exact Regrouped.refl hclaim.tidy
  have hif : (if c.pageblockOrder ≤ high ∧ !isMigrateCma c mt₁ then
        (changePageblockRange c startMt (1 <<< (high - c.pageblockOrder)) zm p).unlink p high
      else zm.unlink p high) =
      (if c.pageblockOrder ≤ high ∧ !isMigrateCma c mt₁ then
        changePageblockRange c startMt (1 <<< (high - c.pageblockOrder)) zm p
      else zm).unlink p high := by
    split_ifs <;> rfl
  have hcma : isMigrateCma c mt₁ = true →
      (if c.pageblockOrder ≤ high ∧ !isMigrateCma c mt₁ then
        changePageblockRange c startMt (1 <<< (high - c.pageblockOrder)) zm p else zm) = zm := by
    intro hm
    rw [if_neg]
    rintro ⟨-, hm'⟩
    rw [hm] at hm'
    cases hm'
  rw [hif]
  generalize (if c.pageblockOrder ≤ high ∧ !isMigrateCma c mt₁ then
    changePageblockRange c startMt (1 <<< (high - c.pageblockOrder)) zm p else zm) = zr at hrange hcma ⊢
  have hall := hclaim.trans hrange
  obtain ⟨hh, hb, ho⟩ := h.linked _ _ _ hp
  obtain ⟨t', ht'⟩ := hall.tidy.listed p hh (by rwa [hall.page])
  rw [hall.page, ho] at ht'
  have hB : (⟨p, high⟩ : Block).start ∈ (z.freeArea (⟨p, high⟩ : Block).order).freeList t := hp
  have htt : t' = startMt ∨ t' = t := by
    rcases hall.lists p high t' ht' with hin | hin
    · exact Or.inr (h.single _ _ _ _ hin hp)
    · exact Or.inl hin.1
  refine hall.taken hB htt (expand_taken hall.tidy ht' hle ?_)
  split_ifs with hm
  · rcases hmt with rfl | hmt
    · exact Or.inl rfl
    · obtain ⟨rfl, rfl⟩ := Prod.mk.inj hmt
      rw [hcma hm] at ht'
      exact Or.inr (h.single _ _ _ _ hp ht')
  · exact Or.inl rfl

end AndroidKernel.Pages
