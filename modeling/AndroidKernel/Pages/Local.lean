import AndroidKernel.Pages.Answers
import AndroidKernel.Pages.Pcp

/-! A zone and the lists of one CPU share out a set of pages; the rest of the zone belongs to the
other CPUs and to the callers. Part of the zone may be isolated. -/

namespace AndroidKernel.Pages
open DyadicBlocks

/-- What is assumed about the migratetypes of the zone: the pages of `iso` are isolated, and of the
other types only the `kinds` occur. -/
structure Policy (c : Config) where
  iso : Set ℕ
  kinds : Migratetype → Prop
  block : ∀ b : Block, b.Aligned → b.order < c.maxOrder → ∀ x ∈ b, ∀ y ∈ b, x ∈ iso → y ∈ iso
  pageblock : ∀ x y, x >>> c.pageblockOrder = y >>> c.pageblockOrder → x ∈ iso → y ∈ iso
  pcp : ∀ mt, mt.isPcp = true → kinds mt
  reserve : kinds .reserve
  proper : ¬ kinds .isolate

/-- The pages of `S` are free in the zone or on one of the lists, and the isolated pages that are free
are those on the lists of isolated pages. -/
structure Local {c : Config} (P : Policy c) (S : Set ℕ) (z : Zone) (lists : Migratetype → List ℕ) :
    Prop where
  tidy : Tidy c z
  mem : ∀ x, x ∈ S ↔ x ∈ covered c z ∨ ∃ mt, x ∈ lists mt
  out : ∀ mt, ∀ x ∈ lists mt, x ∉ covered c z
  single : ∀ mt mt' x, x ∈ lists mt → x ∈ lists mt' → mt = mt'
  nodup : ∀ mt, (lists mt).Nodup
  typed : ∀ mt, mt.isPcp = false → lists mt = []
  here : ∀ x ∈ S, c.Here x
  zero : ∀ x ∈ S, (z.page x).count = 0
  isoFree : ∀ o t, ∀ p ∈ (z.freeArea o).freeList t, (p ∈ P.iso ↔ t = .isolate)
  isoBlock : ∀ x, x ∈ P.iso ↔ z.pageblock (x >>> c.pageblockOrder) = .isolate
  isoPcp : ∀ mt, ∀ x ∈ lists mt, x ∉ P.iso
  kindFree : ∀ o t, ∀ p ∈ (z.freeArea o).freeList t, t ≠ .isolate → P.kinds t
  kindBlock : ∀ i, z.pageblock i ≠ .isolate → P.kinds (z.pageblock i)
  kindPcp : ∀ mt, ∀ x ∈ lists mt, P.kinds (.ofCode (z.page x).priv)
  noGuard : c.debugGuardpageMinorder = 0 → ∀ x, c.Here x → (z.page x).guard = false

variable {c : Config} {P : Policy c} {S : Set ℕ} {z z' : Zone} {lists lists' : Migratetype → List ℕ}
  {mt t : Migratetype} {b B d : Block} {p : ℕ}

theorem Policy.ne_isolate (hk : P.kinds mt) : mt ≠ .isolate := by
  rintro rfl
  exact P.proper hk

theorem Policy.kinds_grouped (hk : P.kinds mt) : P.kinds (groupedMigratetype c mt) := by
  unfold groupedMigratetype
  split_ifs
  · exact P.pcp _ rfl
  · exact hk

theorem Local.congr (h : Local P S z lists)
    (hm : ∀ p, c.Here p → (z'.page p).mark = (z.page p).mark)
    (hb : ∀ p, c.Here p → (z'.page p).buddy = (z.page p).buddy)
    (hg : ∀ p, c.Here p → (z'.page p).guard = (z.page p).guard)
    (hz : ∀ p ∈ S, (z'.page p).count = (z.page p).count)
    (hq : ∀ mt, ∀ p ∈ lists mt, (z'.page p).priv = (z.page p).priv)
    (ha : z'.freeArea = z.freeArea) (hpb : z'.pageblock = z.pageblock) : Local P S z' lists := by
  have hcov : covered c z' = covered c z := by rw [covered, covered, blocks_congr hm]
  refine ⟨h.tidy.congr hm hb hg ha, ?_, ?_, h.single, h.nodup, h.typed, h.here, ?_, ?_, ?_,
    h.isoPcp, ?_, ?_, fun mt x hx => ?_, fun h0 x hx => (hg x hx).trans (h.noGuard h0 x hx)⟩
  · rw [hcov]
    exact h.mem
  · rw [hcov]
    exact h.out
  · exact fun x hx => (hz x hx).trans (h.zero x hx)
  · rw [ha]
    exact h.isoFree
  · rw [hpb]
    exact h.isoBlock
  · rw [ha]
    exact h.kindFree
  · rw [hpb]
    exact h.kindBlock
  · rw [hq mt x hx]
    exact h.kindPcp mt x hx

theorem Local.of_eq (h : Local P S z lists) (hp : z'.page = z.page)
    (ha : z'.freeArea = z.freeArea) (hpb : z'.pageblock = z.pageblock) : Local P S z' lists := by
  refine h.congr ?_ ?_ ?_ ?_ ?_ ha hpb
  all_goals
    intros
    rw [hp]

theorem Local.remove (h : Local P S z lists) (hp : p ∈ lists mt) :
    Local P (S \ {p}) z (Function.update lists mt ((lists mt).erase p)) := by
  have hmem : ∀ mt' x, x ∈ Function.update lists mt ((lists mt).erase p) mt' ↔
      x ∈ lists mt' ∧ x ≠ p := by
    intro mt' x
    by_cases hmt : mt' = mt
    · subst hmt
      rw [Function.update_self, (h.nodup mt').mem_erase_iff, and_comm]
    · rw [Function.update_of_ne hmt]
      exact ⟨fun hx => ⟨hx, fun he => hmt (h.single _ _ p (he ▸ hx) hp)⟩, fun hx => hx.1⟩
  refine ⟨h.tidy, ?_, ?_, ?_, ?_, ?_, fun x hx => h.here x hx.1, fun x hx => h.zero x hx.1,
    h.isoFree, h.isoBlock, fun mt' x hx => h.isoPcp mt' x ((hmem mt' x).mp hx).1, h.kindFree,
    h.kindBlock, fun mt' x hx => h.kindPcp mt' x ((hmem mt' x).mp hx).1, h.noGuard⟩
  · intro x
    simp only [Set.mem_sdiff, Set.mem_singleton_iff, h.mem, hmem]
    constructor
    · rintro ⟨hx | ⟨mt', hx⟩, hne⟩
      · exact Or.inl hx
      · exact Or.inr ⟨mt', hx, hne⟩
    · rintro (hx | ⟨mt', hx, hne⟩)
      · exact ⟨Or.inl hx, fun he => h.out mt p hp (he ▸ hx)⟩
      · exact ⟨Or.inr ⟨mt', hx⟩, hne⟩
  · exact fun mt' x hx => h.out mt' x ((hmem mt' x).mp hx).1
  · exact fun mt₁ mt₂ x h₁ h₂ => h.single mt₁ mt₂ x ((hmem _ x).mp h₁).1 ((hmem _ x).mp h₂).1
  · intro mt'
    by_cases hmt : mt' = mt
    · subst hmt
      rw [Function.update_self]
      exact (h.nodup mt').erase p
    · rw [Function.update_of_ne hmt]
      exact h.nodup mt'
  · intro mt' ht
    refine List.eq_nil_iff_forall_not_mem.mpr fun x hx => ?_
    have hnil := h.typed mt' ht
    have hin := ((hmem mt' x).mp hx).1
    rw [hnil] at hin
    exact absurd hin List.not_mem_nil

theorem Local.put (h : Local P S z lists) (hS : p ∉ S) (hh : c.Here p)
    (hz : (z.page p).count = 0) (hR : p ∉ P.iso) (hmt : mt.isPcp = true)
    (hk : P.kinds (.ofCode (z.page p).priv)) {l : List ℕ} (hl : l.Perm (p :: lists mt)) :
    Local P (insert p S) z (Function.update lists mt l) := by
  have hnot : p ∉ covered c z ∧ ∀ mt', p ∉ lists mt' := by
    rw [h.mem, not_or, not_exists] at hS
    exact hS
  have hmem : ∀ mt' x, x ∈ Function.update lists mt l mt' ↔
      x = p ∧ mt' = mt ∨ x ∈ lists mt' := by
    intro mt' x
    by_cases he : mt' = mt
    · subst he
      rw [Function.update_self, hl.mem_iff, List.mem_cons]
      simp only [and_true]
    · rw [Function.update_of_ne he]
      simp only [he, and_false, false_or]
  refine ⟨h.tidy, ?_, ?_, ?_, ?_, ?_, ?_, ?_, h.isoFree, h.isoBlock, ?_, h.kindFree, h.kindBlock, ?_,
    h.noGuard⟩
  · intro x
    simp only [Set.mem_insert_iff, h.mem, hmem]
    constructor
    · rintro (rfl | hx | ⟨mt', hx⟩)
      · exact Or.inr ⟨mt, Or.inl ⟨rfl, rfl⟩⟩
      · exact Or.inl hx
      · exact Or.inr ⟨mt', Or.inr hx⟩
    · rintro (hx | ⟨mt', ⟨rfl, -⟩ | hx⟩)
      · exact Or.inr (Or.inl hx)
      · exact Or.inl rfl
      · exact Or.inr (Or.inr ⟨mt', hx⟩)
  · intro mt' x hx
    rcases (hmem mt' x).mp hx with ⟨rfl, -⟩ | hx
    · exact hnot.1
    · exact h.out mt' x hx
  · intro mt₁ mt₂ x h₁ h₂
    rcases (hmem mt₁ x).mp h₁ with ⟨rfl, rfl⟩ | h₃
    · rcases (hmem mt₂ x).mp h₂ with ⟨-, rfl⟩ | h₄
      · rfl
      · exact absurd h₄ (hnot.2 mt₂)
    · rcases (hmem mt₂ x).mp h₂ with ⟨rfl, -⟩ | h₄
      · exact absurd h₃ (hnot.2 mt₁)
      · exact h.single mt₁ mt₂ x h₃ h₄
  · intro mt'
    by_cases he : mt' = mt
    · subst he
      rw [Function.update_self, hl.nodup_iff, List.nodup_cons]
      exact ⟨hnot.2 mt', h.nodup mt'⟩
    · rw [Function.update_of_ne he]
      exact h.nodup mt'
  · intro mt' ht
    have he : mt' ≠ mt := by
      rintro rfl
      rw [hmt] at ht
      cases ht
    rw [Function.update_of_ne he]
    exact h.typed mt' ht
  · rintro x (rfl | hx)
    · exact hh
    · exact h.here x hx
  · rintro x (rfl | hx)
    · exact hz
    · exact h.zero x hx
  · intro mt' x hx
    rcases (hmem mt' x).mp hx with ⟨rfl, -⟩ | hx
    · exact hR
    · exact h.isoPcp mt' x hx
  · intro mt' x hx
    rcases (hmem mt' x).mp hx with ⟨rfl, -⟩ | hx
    · exact hk
    · exact h.kindPcp mt' x hx

theorem Local.free (h : Local P S z lists) (hh : ∀ x ∈ b, c.Here x)
    (hz : ∀ x ∈ b, (z.page x).count = 0) (hS : ∀ x ∈ b, x ∉ S)
    (hR : b.start ∈ P.iso ↔ mt = .isolate) (hk : mt ≠ .isolate → P.kinds mt)
    (hf : Freed c z b mt z' d) :
    Local P {x | x ∈ S ∨ x ∈ b} z' lists := by
  have hlist : ∀ mt', ∀ x ∈ lists mt', x ∈ S := fun mt' x hx => (h.mem x).mpr (Or.inr ⟨mt', hx⟩)
  have hguard : c.debugGuardpageMinorder = 0 → ∀ x, c.Here x → (z'.page x).guard = false := by
    intro h0 x hx
    by_contra hg
    have hold := hf.guard h.tidy hh (by simpa using hg)
    rw [h.noGuard h0 x hx] at hold
    cases hold
  refine ⟨hf.tidy, ?_, ?_, h.single, h.nodup, h.typed, ?_, ?_, ?_, ?_, h.isoPcp, ?_, ?_, ?_, hguard⟩
  · intro x
    rw [Set.mem_ofPred_eq, h.mem, hf.covered]
    constructor
    · rintro ((hx | hx) | hx)
      · exact Or.inl (Or.inl hx)
      · exact Or.inr hx
      · exact Or.inl (Or.inr hx)
    · rintro ((hx | hx) | hx)
      · exact Or.inl (Or.inl hx)
      · exact Or.inr hx
      · exact Or.inl (Or.inr hx)
  · intro mt' x hx hc
    rcases (hf.covered x).mp hc with hc | hxb
    · exact h.out mt' x hx hc
    · exact hS x hxb (hlist mt' x hx)
  · rintro x (hx | hx)
    · exact h.here x hx
    · exact hh x hx
  · rintro x (hx | hx)
    · exact (hf.frame.count x).trans (h.zero x hx)
    · exact (hf.frame.count x).trans (hz x hx)
  · intro o u q hq
    rcases (hf.lists q o u).mp hq with ⟨rfl, rfl⟩ | ⟨-, -, hq⟩
    · -- the block it has grown to is isolated as a whole or not at all
      have hd := hf.tidy.mem_blocks_of_list hq
      have hda := hf.tidy.tiling.aligned _ hd
      have hb : b.start ∈ (⟨q, o⟩ : Block) := hf.grown _ b.start_mem
      have hwhole := P.block _ hda (hf.tidy.order_lt hq)
      exact ⟨fun hqR => hR.mp (hwhole q (Block.start_mem _) _ hb hqR),
        fun hu => hwhole _ hb q (Block.start_mem _) (hR.mpr hu)⟩
    · exact h.isoFree o u q hq
  · rw [hf.pageblock]
    exact h.isoBlock
  · intro o u q hq
    rcases (hf.lists q o u).mp hq with ⟨-, rfl⟩ | ⟨-, -, hq⟩
    · exact hk
    · exact h.kindFree o u q hq
  · rw [hf.pageblock]
    exact h.kindBlock
  · intro mt' x hx
    rw [hf.frame.page x]
    · exact h.kindPcp mt' x hx
    · rintro (hc | hxb)
      · exact h.out mt' x hx hc
      · exact hS x hxb (hlist mt' x hx)

theorem Local.regroup {N : ℕ → Prop} (h : Local P S z lists) (hr : Regrouped c z mt N z')
    (hk : P.kinds mt) (hN : ∀ x, N (x >>> c.pageblockOrder) → x ∉ P.iso) : Local P S z' lists := by
  have hcov : covered c z' = covered c z := by rw [covered, covered, blocks_of_eq hr.page]
  refine ⟨hr.tidy, hcov ▸ h.mem, hcov ▸ h.out, h.single, h.nodup, h.typed, h.here, ?_, ?_, ?_,
    h.isoPcp, ?_, fun i => ?_, ?_, hr.page ▸ h.noGuard⟩
  · rw [hr.page]
    exact h.zero
  · intro o u q hq
    rcases hr.lists q o u hq with hq | ⟨rfl, hNq⟩
    · exact h.isoFree o u q hq
    · exact iff_of_false (hN q hNq) (P.ne_isolate hk)
  · intro x
    rcases hr.pageblock (x >>> c.pageblockOrder) with he | ⟨he, hNx⟩
    · rw [he]
      exact h.isoBlock x
    · rw [he]
      exact iff_of_false (hN x hNx) (P.ne_isolate (P.kinds_grouped hk))
  · intro o u q hq hu
    rcases hr.lists q o u hq with hq | ⟨rfl, -⟩
    · exact h.kindFree o u q hq hu
    · exact hk
  · rcases hr.pageblock i with he | ⟨he, -⟩
    · rw [he]
      exact h.kindBlock i
    · exact fun _ => he ▸ P.kinds_grouped hk
  · rw [hr.page]
    exact h.kindPcp

theorem Local.unlink (h : Local P S z lists) (hB : B.start ∈ (z.freeArea B.order).freeList t) :
    Local P {x | x ∈ S ∧ x ∉ B} (z.unlink B.start B.order) lists := by
  have hlist : ∀ o u, ((z.unlink B.start B.order).freeArea o).freeList u =
      ((z.freeArea o).freeList u).erase B.start := fun o u =>
    congrFun (Zone.addNrFree_freeList (z := z.listDel B.start) (-1) o) u
  have hcov := h.tidy.covered_unlink hB
  have hsub : ∀ {o u q}, q ∈ ((z.unlink B.start B.order).freeArea o).freeList u →
      q ∈ (z.freeArea o).freeList u := by
    intro o u q hq
    rw [hlist] at hq
    exact List.mem_of_mem_erase hq
  have hcount : ∀ x, ((z.unlink B.start B.order).page x).count = (z.page x).count := by
    intro x
    simp only [Zone.unlink, Zone.rmvPageOrder, Zone.setPage_page]
    split_ifs with hx
    · rw [hx]
      rfl
    · rfl
  have hguard : ∀ x, ((z.unlink B.start B.order).page x).guard = (z.page x).guard := by
    intro x
    simp only [Zone.unlink, Zone.rmvPageOrder, Zone.setPage_page]
    split_ifs with hx
    · rw [hx]
      rfl
    · rfl
  obtain ⟨htidy, hloose, -⟩ := h.tidy.loose_unlink hB
  refine ⟨htidy, fun x => ?_, ?_, h.single, h.nodup, h.typed, fun x hx => h.here x hx.1,
    fun x hx => (hcount x).trans (h.zero x hx.1), fun o u q hq => h.isoFree o u q (hsub hq),
    h.isoBlock, h.isoPcp, fun o u q hq => h.kindFree o u q (hsub hq), h.kindBlock,
    fun mt x hx => ?_, fun h0 x hx => (hguard x).trans (h.noGuard h0 x hx)⟩
  · rw [Set.mem_ofPred_eq, h.mem, hcov]
    constructor
    · rintro ⟨(hx | hx) | hx, hxB⟩
      · exact Or.inl hx
      · exact absurd hx hxB
      · exact Or.inr hx
    · rintro (hx | ⟨mt, hx⟩)
      · exact ⟨Or.inl (Or.inl hx), fun hxB => hloose.out x hxB hx⟩
      · exact ⟨Or.inr ⟨mt, hx⟩, fun hxB => h.out mt x hx ((hcov x).mpr (Or.inr hxB))⟩
  · exact fun mt x hx hc => h.out mt x hx ((hcov x).mpr (Or.inl hc))
  · have hne : x ≠ B.start := by
      rintro rfl
      exact h.out mt _ hx ((hcov _).mpr (Or.inr B.start_mem))
    rw [show (z.unlink B.start B.order).page x = z.page x from
      (Zone.setPage_page _ x).trans (if_neg hne)]
    exact h.kindPcp mt x hx

theorem Local.take (h : Local P S z lists) (ht : t ≠ .isolate)
    (hmt : P.kinds mt) (hk : Taken c z mt b z' B t) :
    Local P {x | x ∈ S ∧ x ∉ b} z' lists ∧ ∀ x ∈ b, x ∈ S ∧ x ∉ P.iso ∧ (z'.page x).count = 0 := by
  have hBR : ∀ x ∈ B, x ∉ P.iso := by
    intro x hx hxR
    have hB := h.tidy.mem_blocks_of_list hk.source
    have hs := P.block B (h.tidy.tiling.aligned _ hB) (h.tidy.order_lt hk.source) x hx _
      B.start_mem hxR
    exact ht ((h.isoFree _ _ _ hk.source).mp hs)
  have hnear : ∀ x, Near c B (x >>> c.pageblockOrder) → x ∉ P.iso := by
    rintro x ⟨y, hy, hyx⟩ hxR
    exact hBR y hy (P.pageblock x y hyx.symm hxR)
  have hbS : ∀ x ∈ b, x ∈ S := fun x hx =>
    (h.mem x).mpr (Or.inl ((hk.covered x).mpr (Or.inr hx)))
  have hguard : c.debugGuardpageMinorder = 0 → ∀ x, c.Here x → (z'.page x).guard = false := by
    intro h0 x hx
    by_contra hg
    have hold := hk.guard h0 x (by simpa using hg)
    rw [h.noGuard h0 x hx] at hold
    cases hold
  refine ⟨⟨hk.tidy, ?_, ?_, h.single, h.nodup, h.typed, fun x hx => h.here x hx.1, ?_, ?_, ?_,
    h.isoPcp, ?_, fun i => ?_, fun mt' x hx => ?_, hguard⟩, fun x hx => ⟨hbS x hx, hBR x (hk.sub x hx), ?_⟩⟩
  · intro x
    rw [Set.mem_ofPred_eq, h.mem, hk.covered]
    constructor
    · rintro ⟨(hx | hx) | hx, hxb⟩
      · exact Or.inl hx
      · exact absurd hx hxb
      · exact Or.inr hx
    · rintro (hx | ⟨mt', hx⟩)
      · exact ⟨Or.inl (Or.inl hx), fun hxb => hk.loose.out x hxb hx⟩
      · refine ⟨Or.inr ⟨mt', hx⟩, fun hxb => ?_⟩
        exact h.out mt' x hx ((hk.covered x).mpr (Or.inr hxb))
  · exact fun mt' x hx hc => h.out mt' x hx ((hk.covered x).mpr (Or.inl hc))
  · exact fun x hx => (hk.frame.count x).trans (h.zero x hx.1)
  · intro o u q hq
    rcases hk.lists q o u hq with hq | ⟨rfl | rfl, hN⟩
    · exact h.isoFree o u q hq
    · exact iff_of_false (hnear q hN) (P.ne_isolate hmt)
    · exact iff_of_false (hnear q hN) ht
  · intro x
    rcases hk.pageblock (x >>> c.pageblockOrder) with he | ⟨he, hN⟩
    · rw [he]
      exact h.isoBlock x
    · rw [he]
      exact iff_of_false (hnear x hN) (P.ne_isolate (P.kinds_grouped hmt))
  · intro o u q hq hu
    rcases hk.lists q o u hq with hq | ⟨rfl | rfl, -⟩
    · exact h.kindFree o u q hq hu
    · exact hmt
    · exact h.kindFree _ _ _ hk.source hu
  · rcases hk.pageblock i with he | ⟨he, -⟩
    · rw [he]
      exact h.kindBlock i
    · exact fun _ => he ▸ P.kinds_grouped hmt
  · rw [hk.frame.page x]
    · exact h.kindPcp mt' x hx
    · exact fun hxB => h.out mt' x hx ⟨B, h.tidy.mem_blocks_of_list hk.source, hxB⟩
  · exact (hk.frame.count x).trans (h.zero x (hbS x hx))

end AndroidKernel.Pages
