import AndroidKernel.Pages.Available

/-! The calls that isolate a pageblock and take that back, and what `move_freepages_block` does for
them: it moves every free block of the pageblock, and counts them. -/

namespace AndroidKernel.Pages
open DyadicBlocks Migratetype Lts

/-- The loop of `__count_immobile_pages` over the pages of a pageblock; `lru` is `PageLRU`. -/
def countImmobileLoop (c : Config) (z : Zone) (lru : ℕ → Bool) (pfn count : ℕ) : ℕ → ℕ → ℕ → Bool
  | 0, _, _ => true
  | fuel + 1, iter, found =>
    if pageblockNrPages c ≤ iter then true
    else
      let check := pfn + iter
      if !c.pfnValidWithin check then countImmobileLoop c z lru pfn count fuel (iter + 1) found
      else if (z.page check).count = 0 then
        let iter := if (z.page check).buddy then iter + (1 <<< (z.page check).priv - 1) else iter
        countImmobileLoop c z lru pfn count fuel (iter + 1) found
      else
        let found := if lru check then found else found + 1
        if count < found then false else countImmobileLoop c z lru pfn count fuel (iter + 1) found

/-- `__count_immobile_pages`; `movable` says that the zone is `ZONE_MOVABLE`. -/
def countImmobilePages (c : Config) (z : Zone) (lru : ℕ → Bool) (movable : Bool) (page count : ℕ) :
    Bool :=
  if movable then true
  else
    let mt := getPageblockMigratetype c z page
    if mt = .movable ∨ isMigrateCma c mt then true
    else countImmobileLoop c z lru page count (pageblockNrPages c) 0 0

/-- `set_migratetype_isolate` up to the call of `drain_all_pages`. `notify` is the answer of the
notifiers: an error, or the number of pages that balloon drivers have. -/
def setMigratetypeIsolate (c : Config) (z : Zone) (lru : ℕ → Bool) (movable : Bool)
    (notify : Option ℕ) (page : ℕ) : Option Zone :=
  match notify with
  | none => none
  | some pagesFound =>
    if countImmobilePages c z lru movable page pagesFound then
      let mt := getPageblockMigratetype c z page
      let (z, nrPages) := moveFreepagesBlock c (setPageblockMigratetype c z page .isolate) page .isolate
      some (modZoneFreepageState c z (-nrPages) mt)
    else none

def unsetMigratetypeIsolate (c : Config) (z : Zone) (page : ℕ) (mt : Migratetype) : Zone :=
  if getPageblockMigratetype c z page ≠ .isolate then z
  else
    let (z, nrPages) := moveFreepagesBlock c z page mt
    setPageblockMigratetype c (modZoneFreepageState c z nrPages mt) page mt

variable {c : Config} {P Q : Policy c} {S M : Set ℕ} {z z' : Zone} {lists : Migratetype → List ℕ}
  {mt : Migratetype} {p q o endPage : ℕ} {s t : System}

theorem groupedMigratetype_eq (h : c.pageGroupByMobilityDisabled = false) :
    groupedMigratetype c mt = mt := by
  rw [groupedMigratetype, h]
  rfl

theorem freeBlocks_of_eq (h : z'.page = z.page) : freeBlocks c z' = freeBlocks c z := by
  ext b
  rw [freeBlocks, freeBlocks, Set.mem_ofPred_eq, Set.mem_ofPred_eq, blocks_of_eq h, h]

theorem freePagesSet_of_eq (h : z'.page = z.page) : freePagesSet c z' = freePagesSet c z := by
  rw [freePagesSet, freePagesSet, freeBlocks_of_eq h]

theorem mem_listMove (h : Tidy c z) {o' : ℕ} {u : Migratetype}
    (hq : p ∈ ((z.listMove p o mt).freeArea o').freeList u) : u = mt := by
  rw [Zone.listMove, Zone.listAdd, Zone.setFreeList_freeList] at hq
  split_ifs at hq with hc
  · exact hc.2
  · rw [Zone.listDel_freeList, (h.nodup o' u).mem_erase_iff] at hq
    exact absurd rfl hq.1

def freeBetween (c : Config) (z : Zone) (page endPage : ℕ) : Set ℕ :=
  {x | x ∈ freePagesSet c z ∧ page ≤ x ∧ x ≤ endPage}

theorem freeBetween_empty (h : endPage < p) : freeBetween c z p endPage = ∅ :=
  Set.eq_empty_of_forall_notMem fun x hx => by
    obtain ⟨-, hl, hu⟩ := hx
    omega

theorem freeBetween_finite : (freeBetween c z p endPage).Finite :=
  (Set.finite_Icc p endPage).subset fun _ hx => hx.2

theorem freeBetween_skip (h : p ∉ freePagesSet c z) :
    freeBetween c z p endPage = freeBetween c z (p + 1) endPage := by
  ext x
  constructor
  · rintro ⟨hx, hl, hu⟩
    have hne : x ≠ p := fun he => h (he ▸ hx)
    exact ⟨hx, by omega, hu⟩
  · rintro ⟨hx, hl, hu⟩
    exact ⟨hx, by omega, hu⟩

theorem freeBetween_block {b : Block} (hb : b ∈ freeBlocks c z)
    (hend : ∀ x ∈ b, x ≤ endPage) :
    (freeBetween c z b.start endPage).ncard =
      2 ^ b.order + (freeBetween c z (b.start + 2 ^ b.order) endPage).ncard := by
  have hset : freeBetween c z b.start endPage =
      {x | x ∈ b} ∪ freeBetween c z (b.start + 2 ^ b.order) endPage := by
    ext x
    constructor
    · rintro ⟨hx, hl, hu⟩
      by_cases hxb : x < b.start + 2 ^ b.order
      · exact Or.inl ⟨hl, hxb⟩
      · exact Or.inr ⟨hx, Nat.le_of_not_lt hxb, hu⟩
    · rintro (hx | ⟨hx, hl, hu⟩)
      · exact ⟨⟨b, hb, hx⟩, hx.1, hend x hx⟩
      · exact ⟨hx, (Nat.le_add_right ..).trans hl, hu⟩
  have hdisj : Disjoint {x | x ∈ b} (freeBetween c z (b.start + 2 ^ b.order) endPage) :=
    Set.disjoint_left.mpr fun x hx hx' => absurd hx'.2.1 (Nat.not_le_of_lt hx.2)
  have hfin : {x | x ∈ b}.Finite :=
    Set.finite_of_ncard_ne_zero (by rw [Block.ncard]; exact (Nat.two_pow_pos _).ne')
  rw [hset, Set.ncard_union_eq hdisj hfin freeBetween_finite, Block.ncard]

def Between (c : Config) (z : Zone) (page : ℕ) : Prop :=
  ∀ b ∈ freeBlocks c z, page ∈ b → b.start = page

theorem between_succ (hp : p ∉ freePagesSet c z) : Between c z (p + 1) := by
  intro b hb hmem
  obtain ⟨hl, hu⟩ := Block.mem_def.mp hmem
  by_contra hne
  exact hp ⟨b, hb, by omega, by omega⟩

theorem between_next (h : Tidy c z) {b : Block} (hb : b ∈ freeBlocks c z) :
    Between c z (b.start + 2 ^ b.order) := by
  intro d hd hmem
  obtain ⟨hl, hu⟩ := Block.mem_def.mp hmem
  have hpow := Nat.two_pow_pos b.order
  by_contra hne
  -- the last page of the block would be in both
  have he : b = d := h.tiling.disjoint b hb.1 d hd.1 (b.start + 2 ^ b.order - 1)
    ⟨by omega, by omega⟩ ⟨by omega, by omega⟩
  rw [he] at hu
  exact absurd hu (Nat.lt_irrefl _)

theorem Tidy.mem_of_list (h : Tidy c z) {u : Migratetype} (hq : q ∈ (z.freeArea o).freeList u) :
    q ∈ freePagesSet c z :=
  ⟨⟨q, o⟩, h.mem_freeBlocks.mpr ⟨u, hq⟩, Block.start_mem _⟩

theorem moveFreepages_all (mt : Migratetype) (endPage fuel : ℕ) (h : Tidy c z) (hfuel : endPage < p + fuel)
    (hbetween : Between c z p)
    (hr : ∀ x, p ≤ x → x ≤ endPage → c.pfnValidWithin x = true → c.Here x)
    (hend : ∀ b ∈ freeBlocks c z, b.start ≤ endPage → ∀ x ∈ b, x ≤ endPage) :
    (∀ q, p ≤ q → q ≤ endPage → ∀ o u,
      q ∈ ((moveFreepages c mt endPage fuel z p).1.freeArea o).freeList u → u = mt) ∧
    (moveFreepages c mt endPage fuel z p).2 = (freeBetween c z p endPage).ncard := by
  induction fuel generalizing z p with
  | zero =>
    refine ⟨fun q hq hqe => by omega, ?_⟩
    rw [freeBetween_empty (by omega), Set.ncard_empty]
    rfl
  | succ fuel ih =>
    rw [moveFreepages]
    by_cases hlt : endPage < p
    · rw [if_pos hlt, freeBetween_empty hlt, Set.ncard_empty]
      exact ⟨fun q hq hqe => by omega, rfl⟩
    rw [if_neg hlt]
    have hskip : p ∉ freePagesSet c z →
        (∀ q, p ≤ q → q ≤ endPage → ∀ o u,
          q ∈ ((moveFreepages c mt endPage fuel z (p + 1)).1.freeArea o).freeList u → u = mt) ∧
        (moveFreepages c mt endPage fuel z (p + 1)).2 = (freeBetween c z p endPage).ncard := by
      intro hp
      obtain ⟨hmoved, hcount⟩ := ih h (by omega) (between_succ hp)
        (fun x hx => hr x (by omega)) hend
      refine ⟨fun q hq hqe o u hmem => ?_, by rw [hcount, freeBetween_skip hp]⟩
      rcases Nat.lt_or_eq_of_le hq with hlt' | rfl
      · exact hmoved q hlt' hqe o u hmem
      · -- it was on no list before either
        have hreg := moveFreepages_spec mt (N := fun _ => True)
          (fun x hx hxe => ⟨trivial, hr x hx hxe⟩) fuel h (Nat.le_succ p)
        exact (hreg.lists p o u hmem).elim (fun hin => absurd (h.mem_of_list hin) hp) fun hu => hu.1
    by_cases hv : c.pfnValidWithin p = true
    · have hh := hr p le_rfl (Nat.le_of_not_lt hlt) hv
      by_cases hb : (z.page p).buddy = true
      · simp only [hv, hb, Bool.not_true, Bool.false_eq_true, if_false, Nat.one_shiftLeft]
        set b : Block := ⟨p, (z.page p).priv⟩ with hbdef
        have hbf : b ∈ freeBlocks c z := ⟨⟨hh, Page.mark_of_buddy hb⟩, hb⟩
        have hmove := Regrouped.listMove (N := fun _ => True) mt h hh hb rfl trivial
        have hfree := freeBlocks_of_eq (c := c) hmove.page
        have hpow := Nat.two_pow_pos b.order
        have hnext : Between c (z.listMove p b.order mt) (p + 2 ^ b.order) := by
          intro d hd
          rw [hfree] at hd
          exact between_next h hbf d hd
        obtain ⟨hmoved, hcount⟩ := ih hmove.tidy (by omega) hnext
          (fun x hx => hr x (by omega)) (by rwa [hfree])
        have hreg := moveFreepages_spec mt (N := fun _ => True) (z := z.listMove p b.order mt)
          (fun x hx hxe => ⟨trivial, hr x hx hxe⟩) fuel hmove.tidy (Nat.le_add_right p (2 ^ b.order))
        refine ⟨fun q hq hqe o u hmem => ?_, ?_⟩
        · by_cases hin : q < p + 2 ^ b.order
          · -- the head of this block, since there is no other head in it
            have hqb := hreg.tidy.mem_freeBlocks (b := ⟨q, o⟩).mpr ⟨u, hmem⟩
            rw [freeBlocks_of_eq hreg.page, hfree] at hqb
            have he := h.tiling.disjoint _ hqb.1 b hbf.1 q (Block.start_mem _) ⟨hq, hin⟩
            have hqp : q = p := congrArg Block.start he
            subst hqp
            exact (hreg.lists q o u hmem).elim (fun hin => mem_listMove h hin) fun hu => hu.1
          · exact hmoved q (Nat.le_of_not_lt hin) hqe o u hmem
        · have hsame : freeBetween c (z.listMove p b.order mt) (p + 2 ^ b.order) endPage =
              freeBetween c z (p + 2 ^ b.order) endPage := by
            rw [freeBetween, freeBetween, freePagesSet_of_eq hmove.page]
          have hblock := freeBetween_block hbf (hend b hbf (Nat.le_of_not_lt hlt))
          rw [hcount, hsame]
          exact (Nat.add_comm ..).trans hblock.symm
      · simp only [hv, hb, Bool.not_true, Bool.not_false, Bool.false_eq_true, if_false, if_true]
        refine hskip ?_
        rintro ⟨d, hd, hpd⟩
        have hdp := hbetween d hd hpd
        exact hb (hdp ▸ hd.2)
    · simp only [hv, Bool.not_false, if_true]
      refine hskip ?_
      rintro ⟨d, hd, hpd⟩
      exact hv (h.here d hd.1 p hpd).1

theorem Block.pageblock_eq {b : Block} (hb : b.Aligned) (ho : b.order ≤ c.pageblockOrder) {x y : ℕ}
    (hx : x ∈ b) (hy : y ∈ b) : x >>> c.pageblockOrder = y >>> c.pageblockOrder := by
  have hdiv : ∀ {x}, x ∈ b → x >>> c.pageblockOrder = b.index / 2 ^ (c.pageblockOrder - b.order) := by
    intro x hx
    have hpow : 2 ^ c.pageblockOrder = 2 ^ b.order * 2 ^ (c.pageblockOrder - b.order) := by
      rw [← pow_add, Nat.add_sub_cancel' ho]
    rw [← hb.mem_iff.mp hx, Nat.div_div_eq_div_mul, ← hpow, Nat.shiftRight_eq_div_pow]
  rw [hdiv hx, hdiv hy]

def Whole (c : Config) (p : ℕ) : Prop :=
  ∀ x, x >>> c.pageblockOrder = p >>> c.pageblockOrder →
    c.zoneStartPfn ≤ x ∧ x < c.zoneStartPfn + c.spannedPages

def freeInBlock (c : Config) (z : Zone) (p : ℕ) : Set ℕ :=
  {x | x ∈ freePagesSet c z ∧ x >>> c.pageblockOrder = p >>> c.pageblockOrder}

theorem moveFreepagesBlock_all (mt : Migratetype) (hpb : c.maxOrder ≤ c.pageblockOrder + 1) (h : Tidy c z)
    (hw : Whole c p) :
    (∀ q, q >>> c.pageblockOrder = p >>> c.pageblockOrder → ∀ o u,
      q ∈ ((moveFreepagesBlock c z p mt).1.freeArea o).freeList u → u = mt) ∧
    (moveFreepagesBlock c z p mt).2 = (freeInBlock c z p).ncard := by
  have hpos : 0 < pageblockNrPages c := by
    rw [pageblockNrPages, Nat.one_shiftLeft]
    exact Nat.two_pow_pos _
  have hiff := fun x => shiftRight_eq_iff (c := c) (p := p) (x := x)
  generalize hstart : p - (p &&& (pageblockNrPages c - 1)) = start at hiff
  generalize hend : start + pageblockNrPages c - 1 = endPfn at hiff
  have hlow := hw start ((hiff start).mpr (by omega))
  have hhigh := hw endPfn ((hiff endPfn).mpr (by omega))
  have hsame : ∀ b ∈ freeBlocks c z, ∀ x ∈ b, x >>> c.pageblockOrder = b.start >>> c.pageblockOrder := by
    intro b hb x hx
    have hle := h.tiling.order_le b hb.1
    exact Block.pageblock_eq (h.tiling.aligned b hb.1) (by omega) hx b.start_mem
  have hbetween : Between c z start := by
    intro b hb hmem
    have hb' := (hiff b.start).mp ((hsame b hb start hmem).symm.trans
      ((hiff start).mpr (by omega)))
    exact Nat.le_antisymm hmem.1 hb'.1
  have hall := moveFreepages_all mt endPfn (endPfn + 1 - start) h (by omega)
    hbetween (fun x hx hxe hv => ⟨hv, (c.span x hv).mpr (by omega)⟩) fun b hb hle x hx => ?_
  · have heq : moveFreepagesBlock c z p mt =
        moveFreepages c mt endPfn (endPfn + 1 - start) z start := by
      unfold moveFreepagesBlock
      dsimp only
      rw [hstart, hend, if_neg (by omega), if_neg (by omega)]
    have hset : freeBetween c z start endPfn = freeInBlock c z p := by
      ext x
      rw [freeBetween, freeInBlock, Set.mem_ofPred_eq, Set.mem_ofPred_eq, hiff]
    rw [heq, ← hset]
    exact ⟨fun q hq => hall.1 q ((hiff q).mp hq).1 ((hiff q).mp hq).2, hall.2⟩
  · by_cases hbs : start ≤ b.start
    · exact ((hiff x).mp ((hsame b hb x hx).trans ((hiff b.start).mpr ⟨hbs, hle⟩))).2
    · have hxs : x < start := by
        by_contra hxs
        have hin : start ∈ b := ⟨by omega, by have := hx.2; omega⟩
        have := hbetween b hb hin
        omega
      omega

end AndroidKernel.Pages
