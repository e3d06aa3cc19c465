import AndroidKernel.Pages.Zone

/-! What holds of a zone whenever its lock is free: the marked pages are the heads of a tiling of
the free memory, and the free lists hold the unguarded heads. -/

namespace AndroidKernel.Pages
open DyadicBlocks Finset

def Config.Here (c : Config) (p : ℕ) : Prop :=
  c.pfnValidWithin p = true ∧ c.pageZoneId p = c.zoneId

instance (c : Config) (p : ℕ) : Decidable (c.Here p) := inferInstanceAs (Decidable (_ ∧ _))

def Page.mark (pg : Page) : Option ℕ := if pg.buddy ∨ pg.guard then some pg.priv else none

def blocks (c : Config) (z : Zone) : Set Block :=
  {b | c.Here b.start ∧ (z.page b.start).mark = some b.order}

structure Tidy (c : Config) (z : Zone) : Prop where
  tiling : Tiling (c.maxOrder - 1) (blocks c z)
  here : ∀ b ∈ blocks c z, ∀ x ∈ b, c.Here x
  excl : ∀ p, c.Here p → (z.page p).guard = true → (z.page p).buddy = false
  linked : ∀ o mt, ∀ p ∈ (z.freeArea o).freeList mt,
    c.Here p ∧ (z.page p).buddy = true ∧ (z.page p).priv = o
  listed : ∀ p, c.Here p → (z.page p).buddy = true →
    ∃ mt, p ∈ (z.freeArea (z.page p).priv).freeList mt
  nodup : ∀ o mt, ((z.freeArea o).freeList mt).Nodup
  single : ∀ o mt mt' p, p ∈ (z.freeArea o).freeList mt → p ∈ (z.freeArea o).freeList mt' →
    mt = mt'
  nrFree : ∀ o, (z.freeArea o).nrFree = ∑ mt, (((z.freeArea o).freeList mt).length : ℤ)

def covered (c : Config) (z : Zone) : Set ℕ := cover (blocks c z)

def listedPages (c : Config) (z : Zone) : ℤ :=
  ∑ o ∈ range c.maxOrder, (z.freeArea o).nrFree * 2 ^ o

namespace Zone
variable (z : Zone) (p o : ℕ) (mt : Migratetype)

def unlink : Zone := ((z.listDel p).addNrFree o (-1)).rmvPageOrder p

def link (l : List ℕ) : Zone := ((z.setPageOrder p o).setFreeList o mt l).addNrFree o 1

def putGuard : Zone := (z.setPageGuardFlag p).setPagePrivate p o

variable {z p o mt}

theorem setPage_page (pg : Page) (q : ℕ) :
    (z.setPage p pg).page q = if q = p then pg else z.page q := Function.update_apply ..

@[simp] theorem setPage_freeArea (pg : Page) : (z.setPage p pg).freeArea = z.freeArea := rfl

@[simp] theorem addNrFree_page (n : ℤ) : (z.addNrFree o n).page = z.page := rfl

@[simp] theorem setFreeList_page (l : List ℕ) : (z.setFreeList o mt l).page = z.page := rfl

@[simp] theorem listDel_page : (z.listDel p).page = z.page := rfl

@[simp] theorem listDel_freeList (o' : ℕ) (mt' : Migratetype) :
    ((z.listDel p).freeArea o').freeList mt' = ((z.freeArea o').freeList mt').erase p := rfl

@[simp] theorem listDel_nrFree (o' : ℕ) :
    ((z.listDel p).freeArea o').nrFree = (z.freeArea o').nrFree := rfl

@[simp] theorem addNrFree_freeList (n : ℤ) (o' : ℕ) :
    ((z.addNrFree o n).freeArea o').freeList = (z.freeArea o').freeList := by
  simp only [addNrFree, setFreeArea, Function.update_apply]
  split_ifs with h
  · rw [h]
  · rfl

theorem addNrFree_nrFree (n : ℤ) (o' : ℕ) : ((z.addNrFree o n).freeArea o').nrFree =
    (z.freeArea o').nrFree + if o' = o then n else 0 := by
  simp only [addNrFree, setFreeArea, Function.update_apply]
  split_ifs with h
  · rw [h]
  · rw [add_zero]

@[simp] theorem setFreeList_nrFree (l : List ℕ) (o' : ℕ) :
    ((z.setFreeList o mt l).freeArea o').nrFree = (z.freeArea o').nrFree := by
  simp only [setFreeList, setFreeArea, Function.update_apply]
  split_ifs with h
  · rw [h]
  · rfl

theorem setFreeList_freeList (l : List ℕ) (o' : ℕ) (mt' : Migratetype) :
    ((z.setFreeList o mt l).freeArea o').freeList mt' =
      if o' = o ∧ mt' = mt then l else (z.freeArea o').freeList mt' := by
  simp only [setFreeList, setFreeArea, Function.update_apply]
  by_cases ho : o' = o
  · subst ho
    simp only [if_pos, true_and, Function.update_apply]
  · simp only [ho, false_and, if_false]

end Zone

variable {c : Config} {z z' : Zone} {p q o : ℕ} {mt : Migratetype} {b : Block}

theorem mem_blocks : b ∈ blocks c z ↔ c.Here b.start ∧ (z.page b.start).mark = some b.order :=
  Iff.rfl

theorem Page.mark_eq_none {pg : Page} : pg.mark = none ↔ pg.buddy = false ∧ pg.guard = false := by
  unfold Page.mark
  split_ifs with h
  · simp only [false_iff, not_and]
    intro hb
    simpa [hb] using h
  · simpa using h

theorem Page.mark_of_buddy {pg : Page} (h : pg.buddy = true) : pg.mark = some pg.priv :=
  if_pos (Or.inl h)

theorem Page.mark_of_guard {pg : Page} (h : pg.guard = true) : pg.mark = some pg.priv :=
  if_pos (Or.inr h)

theorem Page.mark_eq_some {pg : Page} : pg.mark = some o ↔
    (pg.buddy = true ∨ pg.guard = true) ∧ pg.priv = o := by
  unfold Page.mark
  split_ifs with h
  · simp [h]
  · simp [h]

theorem mark_of_not_covered (hp : c.Here p) (h : p ∉ covered c z) : (z.page p).mark = none := by
  by_contra hm
  obtain ⟨o, ho⟩ := Option.ne_none_iff_exists'.mp hm
  exact h ⟨⟨p, o⟩, ⟨hp, ho⟩, Block.start_mem _⟩

theorem blocks_congr (h : ∀ p, c.Here p → (z'.page p).mark = (z.page p).mark) :
    blocks c z' = blocks c z := by
  ext b
  constructor
  · rintro ⟨hb, hm⟩
    exact ⟨hb, (h _ hb).symm.trans hm⟩
  · rintro ⟨hb, hm⟩
    exact ⟨hb, (h _ hb).trans hm⟩

theorem Tidy.remark (h : Tidy c z) (ha : z'.freeArea = z.freeArea)
    (hb : ∀ p, c.Here p → (z'.page p).buddy = (z.page p).buddy)
    (hp : ∀ p, c.Here p → (z.page p).buddy = true → (z'.page p).priv = (z.page p).priv)
    (hg : ∀ p, c.Here p → (z'.page p).guard = true → (z.page p).buddy = false)
    (ht : Tiling (c.maxOrder - 1) (blocks c z'))
    (hh : ∀ b ∈ blocks c z', ∀ x ∈ b, c.Here x) : Tidy c z' where
  tiling := ht
  here := hh
  excl := fun p hpc hpg => (hb p hpc).trans (hg p hpc hpg)
  linked := by
    intro o mt p hmem
    rw [ha] at hmem
    obtain ⟨hpc, hbud, hpr⟩ := h.linked o mt p hmem
    exact ⟨hpc, (hb p hpc).trans hbud, (hp p hpc hbud).trans hpr⟩
  listed := by
    intro p hpc hbud
    rw [hb p hpc] at hbud
    rw [ha, hp p hpc hbud]
    exact h.listed p hpc hbud
  nodup := by
    rw [ha]
    exact h.nodup
  single := by
    rw [ha]
    exact h.single
  nrFree := by
    rw [ha]
    exact h.nrFree

theorem Tidy.congr (h : Tidy c z) (hm : ∀ p, c.Here p → (z'.page p).mark = (z.page p).mark)
    (hb : ∀ p, c.Here p → (z'.page p).buddy = (z.page p).buddy)
    (hg : ∀ p, c.Here p → (z'.page p).guard = (z.page p).guard)
    (ha : z'.freeArea = z.freeArea) : Tidy c z' := by
  have hpriv : ∀ p, c.Here p → (z.page p).buddy = true → (z'.page p).priv = (z.page p).priv := by
    intro p hp hbud
    have h1 := hm p hp
    rw [Page.mark_of_buddy hbud, Page.mark_of_buddy ((hb p hp).trans hbud)] at h1
    exact Option.some.inj h1
  refine h.remark ha hb hpriv (fun p hp hgd => h.excl p hp ((hg p hp).symm.trans hgd)) ?_ ?_
  · rw [blocks_congr hm]
    exact h.tiling
  · rw [blocks_congr hm]
    exact h.here

theorem Tidy.setPage (h : Tidy c z) {pg : Page} (hp : (z.page p).mark = none)
    (hpg : pg.mark = none) : Tidy c (z.setPage p pg) := by
  rw [Page.mark_eq_none] at hp
  have hpg' := Page.mark_eq_none.mp hpg
  refine h.congr (fun q _ => ?_) (fun q _ => ?_) (fun q _ => ?_) rfl
  all_goals
    rw [Zone.setPage_page]
    split_ifs with hq
    · subst hq
      simp only [hpg, hpg', hp, Page.mark_eq_none.mpr hp]
    · rfl

theorem blocks_setPage_none (hp : (z.page p).mark = none) {pg : Page} (hpg : pg.mark = none) :
    blocks c (z.setPage p pg) = blocks c z := by
  refine blocks_congr fun q _ => ?_
  rw [Zone.setPage_page]
  split_ifs with hq
  · rw [hpg, hq, hp]
  · rfl

theorem blocks_setPage_erase (hp : (z.page p).mark = some o) {pg : Page} (hpg : pg.mark = none) :
    blocks c (z.setPage p pg) = blocks c z \ {⟨p, o⟩} := by
  ext ⟨s, o'⟩
  simp only [mem_blocks, Zone.setPage_page, Set.mem_sdiff, Set.mem_singleton_iff, Block.mk.injEq]
  by_cases hs : s = p
  · subst hs
    simp only [if_true, hpg, hp, reduceCtorEq, and_false, false_iff, Option.some.injEq, true_and]
    rintro ⟨⟨-, rfl⟩, hne⟩
    exact hne rfl
  · simp only [hs, if_false, false_and, not_false_eq_true, and_true]

theorem blocks_setPage_insert (hh : c.Here p) (hp : (z.page p).mark = none) {pg : Page}
    (hpg : pg.mark = some o) : blocks c (z.setPage p pg) = insert ⟨p, o⟩ (blocks c z) := by
  ext ⟨s, o'⟩
  simp only [mem_blocks, Zone.setPage_page, Set.mem_insert_iff, Block.mk.injEq]
  by_cases hs : s = p
  · subst hs
    simp only [if_true, hpg, hp, hh, true_and, reduceCtorEq, and_false, or_false,
      Option.some.injEq]
    exact eq_comm
  · simp only [hs, if_false, false_and, false_or]

theorem listedPages_congr (h : ∀ o, (z'.freeArea o).nrFree = (z.freeArea o).nrFree) :
    listedPages c z' = listedPages c z :=
  Finset.sum_congr rfl fun o _ => by rw [h o]

theorem listedPages_addNrFree (n : ℤ) (h : ∀ o', (z'.freeArea o').nrFree =
    (z.freeArea o').nrFree + if o' = o then n else 0) (ho : o < c.maxOrder) :
    listedPages c z' = listedPages c z + n * 2 ^ o := by
  simp only [listedPages, h, add_mul, Finset.sum_add_distrib, ite_mul, zero_mul,
    Finset.sum_ite_eq', Finset.mem_range, if_pos ho]

section unlink
variable (h : Tidy c z) (hp : c.Here p) (hb : (z.page p).buddy = true)
include h hp hb

theorem Tidy.exists_list : ∃ mt, ∀ o mt', p ∈ (z.freeArea o).freeList mt' ↔
    o = (z.page p).priv ∧ mt' = mt := by
  obtain ⟨mt, hmt⟩ := h.listed p hp hb
  refine ⟨mt, fun o mt' => ⟨fun hmem => ?_, ?_⟩⟩
  · obtain ⟨-, -, rfl⟩ := h.linked o mt' p hmem
    exact ⟨rfl, h.single _ _ _ p hmem hmt⟩
  · rintro ⟨rfl, rfl⟩
    exact hmt

theorem Tidy.blocks_unlink : blocks c (z.unlink p (z.page p).priv) =
    blocks c z \ {⟨p, (z.page p).priv⟩} := by
  have hg : (z.page p).guard = false := by
    by_contra hg
    exact absurd ((h.excl p hp (by simpa using hg)).symm.trans hb) (by decide)
  exact blocks_setPage_erase (Page.mark_of_buddy hb) (Page.mark_eq_none.mpr ⟨rfl, hg⟩)

theorem Tidy.unlink : Tidy c (z.unlink p (z.page p).priv) := by
  set o := (z.page p).priv with ho
  have hblocks := h.blocks_unlink hp hb
  rw [← ho] at hblocks
  obtain ⟨mt, hmt⟩ := h.exists_list hp hb
  have hpage : ∀ q, q ≠ p → (z.unlink p o).page q = z.page q := by
    intro q hq
    exact (Zone.setPage_page _ q).trans (if_neg hq)
  have hself : (z.unlink p o).page p = { z.page p with buddy := false, priv := 0 } :=
    (Zone.setPage_page _ p).trans (if_pos rfl)
  have hlist : ∀ o' mt', ((z.unlink p o).freeArea o').freeList mt' =
      ((z.freeArea o').freeList mt').erase p := by
    intro o' mt'
    exact congrFun (Zone.addNrFree_freeList (-1) o') mt'
  have hmem : ∀ {q o' mt'}, q ∈ ((z.unlink p o).freeArea o').freeList mt' →
      q ≠ p ∧ q ∈ (z.freeArea o').freeList mt' := by
    intro q o' mt' hq
    rw [hlist, (h.nodup o' mt').mem_erase_iff] at hq
    exact hq
  refine ⟨?_, ?_, ?_, ?_, ?_, ?_, ?_, ?_⟩
  · rw [hblocks]
    exact h.tiling.erase _
  · intro b hb'
    rw [hblocks] at hb'
    exact h.here b hb'.1
  · intro q hq hg
    by_cases hqp : q = p
    · rw [hqp, hself]
    · rw [hpage q hqp] at hg ⊢
      exact h.excl q hq hg
  · intro o' mt' q hq
    obtain ⟨hqp, hq⟩ := hmem hq
    rw [hpage q hqp]
    exact h.linked o' mt' q hq
  · intro q hq hbud
    have hqp : q ≠ p := by
      rintro rfl
      rw [hself] at hbud
      cases hbud
    rw [hpage q hqp] at hbud ⊢
    obtain ⟨mt', hl⟩ := h.listed q hq hbud
    exact ⟨mt', by rw [hlist, (h.nodup _ _).mem_erase_iff]; exact ⟨hqp, hl⟩⟩
  · intro o' mt'
    rw [hlist]
    exact (h.nodup o' mt').erase p
  · intro o' mt' mt'' q hq hq'
    exact h.single o' mt' mt'' q (hmem hq).2 (hmem hq').2
  · intro o'
    have hlen : ∀ mt', ((((z.freeArea o').freeList mt').erase p).length : ℤ) =
        ((z.freeArea o').freeList mt').length + if mt' = mt then (if o' = o then -1 else 0) else 0 := by
      intro mt'
      by_cases hin : p ∈ (z.freeArea o').freeList mt'
      · obtain ⟨rfl, rfl⟩ := (hmt o' mt').mp hin
        have hpos := List.length_pos_of_mem hin
        rw [List.length_erase_of_mem hin, if_pos rfl, if_pos rfl]
        omega
      · rw [List.erase_of_not_mem hin]
        split_ifs with h1 h2
        · exact absurd ((hmt o' mt').mpr ⟨h2, h1⟩) hin
        · rw [add_zero]
        · rw [add_zero]
    have hnr := Zone.addNrFree_nrFree (z := z.listDel p) (o := o) (-1) o'
    simp only [hlist, hlen, Finset.sum_add_distrib, Finset.sum_ite_eq', Finset.mem_univ, if_true]
    rw [← h.nrFree o']
    exact hnr

end unlink

theorem listedPages_unlink (ho : o < c.maxOrder) :
    listedPages c (z.unlink p o) = listedPages c z - 2 ^ o := by
  have hnr : ∀ o', ((z.unlink p o).freeArea o').nrFree =
      (z.freeArea o').nrFree + if o' = o then -1 else 0 :=
    Zone.addNrFree_nrFree (z := z.listDel p) (-1)
  rw [listedPages_addNrFree (-1) hnr ho, neg_one_mul, sub_eq_add_neg]

section link
variable {l : List ℕ} (h : Tidy c z) (hh : ∀ x ∈ (⟨p, o⟩ : Block), c.Here x)
  (hm : (z.page p).mark = none)
include hh hm

theorem blocks_link (mt : Migratetype) (l : List ℕ) : blocks c (z.link p o mt l) = insert ⟨p, o⟩ (blocks c z) :=
  blocks_setPage_insert (hh p (Block.start_mem _)) hm (Page.mark_of_buddy rfl)

include h

theorem Tidy.link (hl : l.Perm (p :: (z.freeArea o).freeList mt))
    (ht : Tiling (c.maxOrder - 1) (insert ⟨p, o⟩ (blocks c z))) :
    Tidy c (z.link p o mt l) := by
  have hblocks := blocks_link hh hm mt l
  have hp := hh p (Block.start_mem _)
  rw [Page.mark_eq_none] at hm
  have hpage : ∀ q, q ≠ p → (z.link p o mt l).page q = z.page q := by
    intro q hq
    exact (Zone.setPage_page _ q).trans (if_neg hq)
  have hself : (z.link p o mt l).page p = { z.page p with buddy := true, priv := o } :=
    (Zone.setPage_page _ p).trans (if_pos rfl)
  have hlist : ∀ o' mt', ((z.link p o mt l).freeArea o').freeList mt' =
      if o' = o ∧ mt' = mt then l else (z.freeArea o').freeList mt' := by
    intro o' mt'
    exact (congrFun (Zone.addNrFree_freeList 1 o') mt').trans (Zone.setFreeList_freeList l o' mt')
  have hout : ∀ o' mt', p ∉ (z.freeArea o').freeList mt' := by
    intro o' mt' hin
    exact absurd ((h.linked o' mt' p hin).2.1.symm.trans hm.1) (by decide)
  have hmem : ∀ {q o' mt'}, q ∈ ((z.link p o mt l).freeArea o').freeList mt' ↔
      q = p ∧ o' = o ∧ mt' = mt ∨ q ∈ (z.freeArea o').freeList mt' := by
    intro q o' mt'
    rw [hlist]
    split_ifs with hc
    · rw [hl.mem_iff, List.mem_cons, hc.1, hc.2]
      simp only [and_self, and_true]
    · simp only [hc, and_false, false_or]
  refine ⟨?_, ?_, ?_, ?_, ?_, ?_, ?_, ?_⟩
  · rwa [hblocks]
  · intro b hb
    rw [hblocks] at hb
    rcases hb with rfl | hb
    · exact hh
    · exact h.here b hb
  · intro q hq hg
    by_cases hqp : q = p
    · rw [hqp, hself] at hg
      exact absurd (hg.symm.trans hm.2) (by decide)
    · rw [hpage q hqp] at hg ⊢
      exact h.excl q hq hg
  · intro o' mt' q hq
    rcases hmem.mp hq with ⟨rfl, rfl, rfl⟩ | hq
    · rw [hself]
      exact ⟨hp, rfl, rfl⟩
    · have hqp : q ≠ p := fun he => hout o' mt' (he ▸ hq)
      rw [hpage q hqp]
      exact h.linked o' mt' q hq
  · intro q hq hbud
    by_cases hqp : q = p
    · rw [hqp, hself]
      exact ⟨mt, hmem.mpr (Or.inl ⟨rfl, rfl, rfl⟩)⟩
    · rw [hpage q hqp] at hbud ⊢
      obtain ⟨mt', hin⟩ := h.listed q hq hbud
      exact ⟨mt', hmem.mpr (Or.inr hin)⟩
  · intro o' mt'
    rw [hlist]
    split_ifs with hc
    · rw [hl.nodup_iff, List.nodup_cons]
      exact ⟨hout o mt, h.nodup o mt⟩
    · exact h.nodup o' mt'
  · intro o' mt₁ mt₂ q h₁ h₂
    rcases hmem.mp h₁ with ⟨rfl, rfl, rfl⟩ | h₃
    · rcases hmem.mp h₂ with ⟨-, -, rfl⟩ | h₂
      · rfl
      · exact absurd h₂ (hout _ _)
    · rcases hmem.mp h₂ with ⟨rfl, -, -⟩ | h₂
      · exact absurd h₃ (hout o' mt₁)
      · exact h.single o' mt₁ mt₂ q h₃ h₂
  · intro o'
    have hlen : ∀ mt', ((((z.link p o mt l).freeArea o').freeList mt').length : ℤ) =
        ((z.freeArea o').freeList mt').length + if mt' = mt then (if o' = o then 1 else 0) else 0 := by
      intro mt'
      rw [hlist]
      split_ifs with h₁ h₂ h₃ h₄ h₅
      · rw [hl.length_eq, h₁.1, h₁.2, List.length_cons]
        push_cast
        rfl
      · exact absurd h₁.1 h₃
      · exact absurd h₁.2 h₂
      · exact absurd ⟨h₅, h₄⟩ h₁
      · rw [add_zero]
      · rw [add_zero]
    have hnr := Zone.addNrFree_nrFree (z := (z.setPageOrder p o).setFreeList o mt l) (o := o) 1 o'
    rw [Zone.setFreeList_nrFree] at hnr
    simp only [hlen, Finset.sum_add_distrib, Finset.sum_ite_eq', Finset.mem_univ, if_true]
    rw [← h.nrFree o']
    exact hnr

end link

theorem listedPages_link (mt : Migratetype) (l : List ℕ) (ho : o < c.maxOrder) :
    listedPages c (z.link p o mt l) = listedPages c z + 2 ^ o := by
  have hnr : ∀ o', ((z.link p o mt l).freeArea o').nrFree =
      (z.freeArea o').nrFree + if o' = o then 1 else 0 := by
    intro o'
    have h := Zone.addNrFree_nrFree (z := (z.setPageOrder p o).setFreeList o mt l) (o := o) 1 o'
    rwa [Zone.setFreeList_nrFree] at h
  rw [listedPages_addNrFree 1 hnr ho, one_mul]

theorem blocks_putGuard (hp : c.Here p) (hm : (z.page p).mark = none) :
    blocks c (z.putGuard p o) = insert ⟨p, o⟩ (blocks c z) := by
  have hpage : ∀ q, ((z.putGuard p o).page q).mark =
      ((z.setPage p { z.page p with guard := true, priv := o }).page q).mark := by
    intro q
    simp only [Zone.putGuard, Zone.setPagePrivate, Zone.setPageGuardFlag, Zone.setPage_page]
    split_ifs <;> rfl
  rw [blocks_congr fun q _ => hpage q]
  exact blocks_setPage_insert hp hm (Page.mark_of_guard rfl)

theorem Tidy.putGuard (h : Tidy c z) (hh : ∀ x ∈ (⟨p, o⟩ : Block), c.Here x)
    (hm : (z.page p).mark = none)
    (ht : Tiling (c.maxOrder - 1) (insert ⟨p, o⟩ (blocks c z))) : Tidy c (z.putGuard p o) := by
  have hp := hh p (Block.start_mem _)
  have hblocks := blocks_putGuard (o := o) hp hm
  have hno := Page.mark_eq_none.mp hm
  have hpage : ∀ q, (z.putGuard p o).page q =
      if q = p then { z.page p with guard := true, priv := o } else z.page q := by
    intro q
    simp only [Zone.putGuard, Zone.setPagePrivate, Zone.setPageGuardFlag, Zone.setPage_page]
    split_ifs <;> rfl
  refine h.remark rfl (fun q _ => ?_) (fun q _ hb => ?_) (fun q hq hg => ?_) ?_ ?_
  · rw [hpage]
    split_ifs with hq
    · rw [hq]
    · rfl
  · rw [hpage, if_neg]
    rintro rfl
    exact absurd (hb.symm.trans hno.1) (by decide)
  · rw [hpage] at hg
    split_ifs at hg with hqp
    · rw [hqp]
      exact hno.1
    · exact h.excl q hq hg
  · rwa [hblocks]
  · intro b hb
    rw [hblocks] at hb
    rcases hb with rfl | hb
    · exact hh
    · exact h.here b hb

theorem Tidy.blocks_clearGuard (h : Tidy c z) (hp : c.Here p) (hg : (z.page p).guard = true) :
    blocks c (z.clearPageGuardFlag p) = blocks c z \ {⟨p, (z.page p).priv⟩} :=
  blocks_setPage_erase (Page.mark_of_guard hg) (Page.mark_eq_none.mpr ⟨h.excl p hp hg, rfl⟩)

theorem Tidy.clearGuard (h : Tidy c z) (hp : c.Here p) (hg : (z.page p).guard = true) :
    Tidy c (z.clearPageGuardFlag p) := by
  have hblocks := h.blocks_clearGuard hp hg
  have hpage : ∀ q, (z.clearPageGuardFlag p).page q =
      if q = p then { z.page p with guard := false } else z.page q := Zone.setPage_page _
  refine h.remark rfl (fun q _ => ?_) (fun q _ _ => ?_) (fun q hq hgq => ?_) ?_ ?_
  · rw [hpage]
    split_ifs with hq
    · rw [hq]
    · rfl
  · rw [hpage]
    split_ifs with hq
    · rw [hq]
    · rfl
  · rw [hpage] at hgq
    split_ifs at hgq with hqp
    exact h.excl q hq hgq
  · rw [hblocks]
    exact h.tiling.erase _
  · intro b hb
    rw [hblocks] at hb
    exact h.here b hb.1

end AndroidKernel.Pages
