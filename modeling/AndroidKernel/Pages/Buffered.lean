import AndroidKernel.Pages.Drain

/-! What an allocation on one CPU takes from the zone and the lists of the CPU. -/

namespace AndroidKernel.Pages
open DyadicBlocks Migratetype

variable {c : Config} {P : Policy c} {S U : Set ℕ} {z z' z'' : Zone} {lists lists' : Migratetype → List ℕ}
  {mt t : Migratetype} {p n order : ℕ} {g : Gfp}

theorem isolate_not_mem_usable (hmt : mt ≠ .isolate) : ∀ t ∈ usable c mt, t ≠ .isolate := by
  rintro t ht rfl
  cases hc : c.cma <;> cases mt <;>
    simp [usable, fallbacks, hc] at ht hmt

theorem rmqueueFor_answers (h : Tidy c z) (g : Gfp) (hmt : mt ≠ .isolate) (order : ℕ) :
    ∃ ts, (∀ t ∈ usable c mt, t ∈ ts) ∧ (∀ t ∈ ts, t ≠ .isolate) ∧
      Answers c z mt order ts (fun _ => True) (rmqueueFor c g z order mt) := by
  have husable := isolate_not_mem_usable (c := c) hmt
  unfold rmqueueFor
  split_ifs
  · refine ⟨_, ?_, ?_, rmqueueCma_answers h g.cmaAlloc⟩
    · intro t ht
      split_ifs
      · exact List.mem_cons_of_mem _ ht
      · exact ht
    · intro t ht
      split_ifs at ht
      · rcases List.mem_cons.mp ht with rfl | ht
        · decide
        · exact husable t ht
      · exact husable t ht
  · exact ⟨_, fun _ ht => ht, husable, rmqueue_answers mt order h⟩

structure TookBlock {c : Config} (P : Policy c) (S : Set ℕ) (z z' : Zone) (lists : Migratetype → List ℕ)
    (b : Block) : Prop where
  evolves : Evolves P S {x | x ∈ S ∧ x ∉ b} z z' lists (2 ^ b.order)
  loose : Loose c z' b
  mem : ∀ x ∈ b, x ∈ S ∧ x ∉ P.iso ∧ (z'.page x).count = 0

theorem rmqueueFor_took (h : Local P S z lists) (hmt : mt.isPcp = true)
    (hr : rmqueueFor c g z order mt = some (p, z')) : TookBlock P S z z' lists ⟨p, order⟩ := by
  have hne : mt ≠ .isolate := by
    rintro rfl
    cases hmt
  obtain ⟨ts, -, hts, hans⟩ := rmqueueFor_answers h.tidy g hne order
  rw [hr] at hans
  obtain ⟨high, -, -, t, ht, hk⟩ := hans
  obtain ⟨hlocal, hmem⟩ := h.take (hts t ht) (P.pcp mt hmt) hk
  refine ⟨⟨hlocal, hk.lag, fun x hx => hk.frame.page x fun hxB => hx ?_⟩, hk.loose, hmem⟩
  have hB := h.tidy.mem_blocks_of_list hk.source
  exact (h.mem x).mpr (Or.inl ⟨_, hB, hxB⟩)

theorem Local.setPage (h : Local P S z lists) (pg : Page) (hm : (z.page p).mark = none)
    (hb : pg.buddy = (z.page p).buddy) (hg : pg.guard = (z.page p).guard)
    (hz : p ∈ S → pg.count = (z.page p).count)
    (hq : ∀ mt, p ∈ lists mt → pg.priv = (z.page p).priv) : Local P S (z.setPage p pg) lists := by
  have hm' : pg.mark = none := by
    rw [Page.mark_eq_none, hb, hg]
    exact Page.mark_eq_none.mp hm
  refine h.congr (fun q _ => ?_) (fun q _ => ?_) (fun q _ => ?_) (fun q hqS => ?_)
    (fun mt q hql => ?_) rfl rfl
  all_goals
    rw [Zone.setPage_page]
    split_ifs with hqp
    · subst hqp
      first
        | rw [hm', hm]
        | exact hb
        | exact hg
        | exact hz hqS
        | exact hq mt hql
    · rfl

theorem Evolves.setPage {m : ℤ} (h : Evolves P U S z z' lists m) (pg : Page) (hp : p ∈ U)
    (hm : (z'.page p).mark = none) (hb : pg.buddy = (z'.page p).buddy)
    (hg : pg.guard = (z'.page p).guard) (hz : p ∉ S) :
    Evolves P U S z (z'.setPage p pg) lists m where
  isLocal := h.isLocal.setPage pg hm hb hg (fun hp => absurd hp hz)
    fun mt hp => absurd ((h.isLocal.mem p).mpr (Or.inr ⟨mt, hp⟩)) hz
  lag := h.lag
  frame := by
    intro x hx
    have hxp : x ≠ p := fun he => hx (he ▸ hp)
    rw [Zone.setPage_page, if_neg hxp, h.frame x hx]

theorem listAddAt_perm (p : ℕ) (pos : Option ℕ) (l : List ℕ) : (listAddAt p pos l).Perm (p :: l) := by
  cases pos with
  | none => rw [listAddAt]
  | some q =>
    induction l with
    | nil => exact List.Perm.rfl
    | cons x l ih =>
      rw [listAddAt]
      split_ifs
      · exact List.Perm.swap ..
      · exact (ih.cons x).trans (List.Perm.swap ..)

theorem listAddTailAt_perm (p : ℕ) (pos : Option ℕ) (l : List ℕ) :
    (listAddTailAt p pos l).Perm (p :: l) := by
  cases pos with
  | none =>
    rw [listAddTailAt]
    exact List.perm_append_singleton ..
  | some q =>
    induction l with
    | nil => exact List.Perm.rfl
    | cons x l ih =>
      rw [listAddTailAt]
      split_ifs
      · exact List.Perm.rfl
      · exact (ih.cons x).trans (List.Perm.swap ..)

theorem single_block (x : ℕ) : x ∈ (⟨p, 0⟩ : Block) ↔ x = p := by
  rw [Block.mem_def]
  dsimp only
  omega

theorem bulkStep_local (hmt : mt.isPcp = true) {l l' : List ℕ}
    (h : Local P S z (Function.update lists mt l))
    (hr : rmqueueFor c g z 0 mt = some (p, z')) (hl : l'.Perm (p :: l)) {k : ℕ}
    (hk : P.kinds (.ofCode k)) : Evolves P S S z (z'.setPagePrivate p k) (Function.update lists mt l') 1 := by
  have htook := rmqueueFor_took h hmt hr
  obtain ⟨hpS, hpR, hp0⟩ := htook.mem p (Block.start_mem _)
  have hph := htook.loose.here p (Block.start_mem _)
  have hmark := mark_of_not_covered hph (htook.loose.out p (Block.start_mem _))
  have hpS' : p ∉ {x | x ∈ S ∧ x ∉ (⟨p, 0⟩ : Block)} := fun hp => hp.2 (Block.start_mem _)
  have hset := htook.evolves.setPage { z'.page p with priv := k } hpS hmark rfl rfl hpS'
  have hl' : l'.Perm (p :: Function.update lists mt l mt) := by rwa [Function.update_self]
  have hput := hset.isLocal.put hpS' hph (by rw [Zone.setPage_page, if_pos rfl]; exact hp0) hpR hmt
    (by rw [Zone.setPage_page, if_pos rfl]; exact hk) hl'
  rw [Function.update_idem] at hput
  have hS : insert p {x | x ∈ S ∧ x ∉ (⟨p, 0⟩ : Block)} = S := by
    ext x
    rw [Set.mem_insert_iff, Set.mem_ofPred_eq, single_block]
    constructor
    · rintro (rfl | hx)
      · exact hpS
      · exact hx.1
    · intro hx
      by_cases hxp : x = p
      · exact Or.inl hxp
      · exact Or.inr ⟨hx, hxp⟩
  rw [hS] at hput
  exact ⟨hput, hset.lag.trans (by rw [pow_zero]), hset.frame⟩

theorem rmqueueBulkLoop_spec (hmt : mt.isPcp = true) (count : ℕ) {l : List ℕ}
    (pos : Option ℕ) (h : Local P S z (Function.update lists mt l)) :
    Evolves P S S z (rmqueueBulkLoop c g 0 mt count z l pos).1
        (Function.update lists mt (rmqueueBulkLoop c g 0 mt count z l pos).2.1)
        (rmqueueBulkLoop c g 0 mt count z l pos).2.2 ∧
      (rmqueueBulkLoop c g 0 mt count z l pos).2.1.length =
        l.length + (rmqueueBulkLoop c g 0 mt count z l pos).2.2 := by
  induction count generalizing z l pos with
  | zero => exact ⟨Evolves.refl h, rfl⟩
  | succ count ih =>
    rw [rmqueueBulkLoop]
    cases hr : rmqueueFor c g z 0 mt with
    | none => exact ⟨Evolves.refl h, rfl⟩
    | some r =>
      obtain ⟨page, z'⟩ := r
      dsimp only
      -- where the page goes and what is noted about it does not matter here
      generalize hl' : (if g.cold then listAddTailAt page pos l else listAddAt page pos l) = l'
      have hkind : P.kinds (bulkMigratetype c z' page mt) := by
        unfold bulkMigratetype
        dsimp only
        split_ifs
        · exact P.pcp mt hmt
        · have htook := rmqueueFor_took h hmt hr
          have hout := (htook.mem page (Block.start_mem _)).2.1
          exact htook.evolves.isLocal.kindBlock _
            fun he => hout ((htook.evolves.isLocal.isoBlock page).mpr he)
        · exact P.pcp mt hmt
      generalize bulkMigratetype c z' page mt = pageMt at hkind
      have hperm : l'.Perm (page :: l) := by
        rw [← hl']
        split_ifs
        · exact listAddTailAt_perm ..
        · exact listAddAt_perm ..
      have hstep := bulkStep_local (k := pageMt.code) hmt h hr hperm (by rwa [ofCode_code])
      have hstep' : Evolves P S S z
          (if isMigrateCma c pageMt then
            (z'.setPagePrivate page pageMt.code).modNrFreeCmaPages (-(1 <<< 0 : ℕ))
          else z'.setPagePrivate page pageMt.code) (Function.update lists mt l') 1 := by
        split_ifs
        · exact hstep.counters (k := 0) _ rfl rfl rfl (add_zero _).symm
        · exact hstep
      generalize (if isMigrateCma c pageMt then
          (z'.setPagePrivate page pageMt.code).modNrFreeCmaPages (-(1 <<< 0 : ℕ))
        else z'.setPagePrivate page pageMt.code) = z₁ at hstep' ⊢
      obtain ⟨hrest, hlen⟩ := ih (some page) hstep'.isLocal
      generalize rmqueueBulkLoop c g 0 mt count z₁ l' (some page) = r at hrest hlen
      obtain ⟨z₂, l₂, i⟩ := r
      dsimp only at hrest hlen ⊢
      refine ⟨?_, ?_⟩
      · have hall := hstep'.trans hrest
        rwa [show (1 : ℤ) + (i : ℤ) = ((i + 1 : ℕ) : ℤ) by push_cast; ring] at hall
      · have hlen' := hperm.length_eq
        rw [List.length_cons] at hlen'
        omega

theorem rmqueueBulk_spec (hmt : mt.isPcp = true) (count : ℕ)
    (h : Local P S z lists) :
    Evolves P S S z (rmqueueBulk c g z 0 count (lists mt) mt).1
        (Function.update lists mt (rmqueueBulk c g z 0 count (lists mt) mt).2.1) 0 ∧
      (rmqueueBulk c g z 0 count (lists mt) mt).2.1.length =
        (lists mt).length + (rmqueueBulk c g z 0 count (lists mt) mt).2.2 := by
  have hl : Local P S z (Function.update lists mt (lists mt)) := by
    rwa [Function.update_eq_self]
  obtain ⟨hev, hlen⟩ := rmqueueBulkLoop_spec (g := g) hmt count none hl
  unfold rmqueueBulk
  generalize rmqueueBulkLoop c g 0 mt count z (lists mt) none = r at hev hlen
  obtain ⟨z', l, i⟩ := r
  refine ⟨?_, hlen⟩
  have hc := hev.counters (z'.modNrFreePages (-(i <<< 0 : ℕ))) rfl rfl rfl rfl
  rwa [Nat.shiftLeft_zero, add_neg_cancel] at hc

structure PcpKept (pcp pcp' : Pcp) : Prop where
  high : pcp'.high = pcp.high
  batch : pcp'.batch = pcp.batch
  count : pcp'.count - total pcp'.lists = pcp.count - total pcp.lists

variable {pcp pcp' : Pcp} {b : Block}

theorem PcpKept.refl (pcp : Pcp) : PcpKept pcp pcp := ⟨rfl, rfl, rfl⟩

theorem PcpKept.trans {pcp'' : Pcp} (h : PcpKept pcp pcp') (h' : PcpKept pcp' pcp'') :
    PcpKept pcp pcp'' :=
  ⟨h'.high.trans h.high, h'.batch.trans h.batch, h'.count.trans h.count⟩

theorem refill_spec (hmt : mt.isPcp = true) (h : Local P S z pcp.lists) :
    Evolves P S S z (refill c g z pcp mt).1 (refill c g z pcp mt).2.lists 0 ∧
      PcpKept pcp (refill c g z pcp mt).2 := by
  obtain ⟨hev, hlen⟩ := rmqueueBulk_spec (g := g) hmt pcp.batch h
  unfold refill
  split_ifs
  · generalize rmqueueBulk c g z 0 pcp.batch (pcp.lists mt) mt = r at hev hlen
    obtain ⟨z', l, i⟩ := r
    refine ⟨hev, rfl, rfl, ?_⟩
    have htot := total_update pcp.lists mt l
    simp only at hlen
    change pcp.count + (i : ℤ) - (total (Function.update pcp.lists mt l) : ℤ) = _
    omega
  · exact ⟨Evolves.refl h, PcpKept.refl pcp⟩

open Classical in
noncomputable def Policy.weight (P : Policy c) (b : Block) : ℤ :=
  if b.start ∈ P.iso then 2 ^ b.order else 0

structure Allocated {c : Config} (P : Policy c) (S : Set ℕ) (z z' : Zone) (pcp pcp' : Pcp) (b : Block) : Prop where
  evolves : Evolves P S {x | x ∈ S ∧ x ∉ b} z z' pcp'.lists (P.weight b)
  aligned : b.Aligned
  order_lt : b.order < c.maxOrder
  mem : ∀ x ∈ b, x ∈ S
  head : (z'.page b.start).count = 1
  tail : ∀ x ∈ b, x ≠ b.start → (z'.page x).count = 0
  kept : PcpKept pcp pcp'

theorem prepNewPage_evolves (h : Evolves P S {x | x ∈ S ∧ x ∉ b} z z' lists 0)
    (hloose : Loose c z' b) (hS : ∀ x ∈ b, x ∈ S) :
    Evolves P S {x | x ∈ S ∧ x ∉ b} z (prepNewPage z' b.start) lists 0 :=
  h.setPage _ (hS _ b.start_mem)
    (mark_of_not_covered (hloose.here _ b.start_mem) (hloose.out _ b.start_mem)) rfl rfl
    fun hp => hp.2 b.start_mem

theorem TookBlock.allocated (h : TookBlock P S z z' pcp.lists b) (hz : z''.page = z'.page)
    (ha : z''.freeArea = z'.freeArea) (hb : z''.pageblock = z'.pageblock)
    (hn : z''.nrFreePages = z'.nrFreePages + -2 ^ b.order) :
    Allocated P S z (prepNewPage z'' b.start) pcp pcp b := by
  have hev := h.evolves.counters z'' hz ha hb hn
  rw [add_neg_cancel] at hev
  have hloose : Loose c z'' b :=
    { h.loose with out := fun x hx => by rw [covered, blocks_of_eq hz]; exact h.loose.out x hx }
  have hw : P.weight b = 0 := if_neg (h.mem _ b.start_mem).2.1
  refine ⟨hw ▸ prepNewPage_evolves hev hloose fun x hx => (h.mem x hx).1, h.loose.aligned,
    h.loose.order_lt, fun x hx => (h.mem x hx).1, ?_, fun x hx hne => ?_, PcpKept.refl pcp⟩
  · rw [prepNewPage, Zone.setPage_page, if_pos rfl]
  · rw [prepNewPage, Zone.setPage_page, if_neg hne, hz]
    exact (h.mem x hx).2.2

theorem popPage_allocated (h : Local P S z pcp.lists) (hp : p ∈ pcp.lists mt) :
    Allocated P S z (prepNewPage z p) pcp
      { pcp.setList mt ((pcp.lists mt).erase p) with count := pcp.count - 1 } ⟨p, 0⟩ := by
  have hpS : p ∈ S := (h.mem p).mpr (Or.inr ⟨mt, hp⟩)
  have hS : {x | x ∈ S ∧ x ∉ (⟨p, 0⟩ : Block)} = S \ {p} := by
    ext x
    rw [Set.mem_ofPred_eq, single_block, Set.mem_sdiff, Set.mem_singleton_iff]
  have hev : Evolves P S {x | x ∈ S ∧ x ∉ (⟨p, 0⟩ : Block)} z z
      (Function.update pcp.lists mt ((pcp.lists mt).erase p)) 0 := by
    rw [hS]
    exact Evolves.refl (h.remove hp)
  have hloose : Loose c z ⟨p, 0⟩ :=
    ⟨one_dvd _, c.maxOrder_pos, fun x hx => (single_block x).mp hx ▸ h.here p hpS,
      fun x hx => (single_block x).mp hx ▸ h.out mt p hp⟩
  have hw : P.weight ⟨p, 0⟩ = 0 := if_neg (h.isoPcp mt p hp)
  refine ⟨hw ▸ prepNewPage_evolves hev hloose fun x hx => (single_block x).mp hx ▸ hpS,
    hloose.aligned, hloose.order_lt, fun x hx => (single_block x).mp hx ▸ hpS, ?_,
    fun x hx hne => absurd ((single_block x).mp hx) hne, rfl, rfl, ?_⟩
  · rw [prepNewPage, Zone.setPage_page, if_pos rfl]
  · have htot := total_update pcp.lists mt ((pcp.lists mt).erase p)
    have hlen := List.length_erase_of_mem hp
    have hpos := List.length_pos_of_mem hp
    change pcp.count - 1 - (total (Function.update pcp.lists mt ((pcp.lists mt).erase p)) : ℤ) = _
    omega

theorem Allocated.of_evolves {z₁ : Zone} {pcp₁ : Pcp} (h : Evolves P S S z z₁ pcp₁.lists 0)
    (hk : PcpKept pcp pcp₁) (ha : Allocated P S z₁ z' pcp₁ pcp' b) :
    Allocated P S z z' pcp pcp' b :=
  { ha with evolves := by simpa using h.trans ha.evolves, kept := hk.trans ha.kept }

/-- `buffered_rmqueue` hands out a block of the order asked for that is not isolated, or everything
stays free. -/
def AllocOutcome {c : Config} (P : Policy c) (S : Set ℕ) (z : Zone) (pcp : Pcp) (order : ℕ) :
    Option ℕ × Zone × Pcp → Prop
  | (some p, z', pcp') =>
    Allocated P S z z' pcp pcp' ⟨p, order⟩ ∧ ∀ x ∈ (⟨p, order⟩ : Block), x ∉ P.iso
  | (none, z', pcp') => Evolves P S S z z' pcp'.lists 0 ∧ PcpKept pcp pcp'

theorem bufferedRmqueue_spec (g : Gfp) (order : ℕ) (hmt : mt.isPcp = true)
    (h : Local P S z pcp.lists) :
    AllocOutcome P S z pcp order (bufferedRmqueue c g z pcp order mt) := by
  unfold bufferedRmqueue
  by_cases ho : order = 0
  · subst ho
    rw [if_pos rfl]
    obtain ⟨hev, hk⟩ := refill_spec (g := g) hmt h
    generalize refill c g z pcp mt = r at hev hk ⊢
    obtain ⟨z₁, pcp₁⟩ := r
    dsimp only at hev hk ⊢
    cases hpage : pickPage g (pcp₁.lists mt) with
    | none => exact ⟨hev, hk⟩
    | some p =>
      have hp : p ∈ pcp₁.lists mt := by
        unfold pickPage at hpage
        split_ifs at hpage
        · exact List.mem_of_getLast? hpage
        · exact List.mem_of_head? hpage
      refine ⟨Allocated.of_evolves hev hk (popPage_allocated hev.isLocal hp), fun x hx => ?_⟩
      rw [(single_block x).mp hx]
      exact hev.isLocal.isoPcp mt p hp
  · rw [if_neg ho]
    cases hr : rmqueueFor c g z order mt with
    | none => exact ⟨Evolves.refl h, PcpKept.refl pcp⟩
    | some r =>
      obtain ⟨p, z₁⟩ := r
      have htook := rmqueueFor_took h hmt hr
      refine ⟨htook.allocated (modZoneFreepageState_page _) (modZoneFreepageState_freeArea _)
        (modZoneFreepageState_pageblock _) ?_, fun x hx => (htook.mem x hx).2.1⟩
      rw [modZoneFreepageState_nrFreePages, Nat.one_shiftLeft]
      push_cast
      rfl

theorem takeFreePage_allocated (h : Local P S z pcp.lists) (hh : c.Here p)
    (hb : (z.page p).buddy = true) :
    Allocated P S z (takeFreePage c z p) pcp pcp ⟨p, (z.page p).priv⟩ := by
  obtain ⟨t, ht⟩ := h.tidy.listed p hh hb
  set b : Block := ⟨p, (z.page p).priv⟩ with hbdef
  have hB : b.start ∈ (z.freeArea b.order).freeList t := ht
  obtain ⟨-, hloose, -⟩ := h.tidy.loose_unlink hB
  have hbS : ∀ x ∈ b, x ∈ S := fun x hx =>
    (h.mem x).mpr (Or.inl ((h.tidy.covered_unlink hB x).mpr (Or.inr hx)))
  have hpage : ∀ x, x ≠ p → (z.unlink p b.order).page x = z.page x :=
    fun x hx => (Zone.setPage_page _ x).trans (if_neg hx)
  have hev : Evolves P S {x | x ∈ S ∧ x ∉ b} z (z.unlink p b.order) pcp.lists (2 ^ b.order) := by
    refine ⟨h.unlink hB, ?_, fun x hx => hpage x fun hxp => hx (hxp ▸ hbS _ b.start_mem)⟩
    have hlisted := listedPages_unlink (z := z) (p := p) (h.tidy.order_lt hB)
    simp only [lag, hlisted]
    change z.nrFreePages - _ = _
    ring
  -- only pages that are counted are subtracted
  obtain ⟨z₁, hz₁, hev₁⟩ : ∃ z₁, takeFreePage c z p =
      z₁.setPage p { z₁.page p with count := 1 } ∧ z₁.page = (z.unlink p b.order).page ∧
      Evolves P S {x | x ∈ S ∧ x ∉ b} z z₁ pcp.lists (P.weight b) := by
    by_cases hiso : getPageblockMigratetype c z p = .isolate
    · have hw : P.weight b = 2 ^ b.order := if_pos ((h.isoBlock p).mpr hiso)
      refine ⟨z.unlink p b.order, ?_, rfl, hw ▸ hev⟩
      simp only [takeFreePage, hiso, ne_eq, not_true_eq_false, if_false]
      rfl
    · have hw : P.weight b = 0 := if_neg fun hp => hiso ((h.isoBlock p).mp hp)
      refine ⟨modZoneFreepageState c (z.unlink p b.order) (-(1 <<< b.order : ℕ))
        (getPageblockMigratetype c z p), ?_, modZoneFreepageState_page _, ?_⟩
      · simp only [takeFreePage, ne_eq, hiso, not_false_eq_true, if_true]
        rfl
      · generalize getPageblockMigratetype c z p = mt
        have hc := hev.counters (modZoneFreepageState c (z.unlink p b.order) _ mt)
          (modZoneFreepageState_page _) (modZoneFreepageState_freeArea _) (modZoneFreepageState_pageblock _)
          (modZoneFreepageState_nrFreePages (-(1 <<< b.order : ℕ)))
        rw [Nat.one_shiftLeft] at hc ⊢
        push_cast at hc ⊢
        rwa [add_neg_cancel, ← hw] at hc
  obtain ⟨hpage₁, hev₁⟩ := hev₁
  have hmark : (z₁.page p).mark = none := by
    rw [hpage₁]
    exact mark_of_not_covered hh (hloose.out _ b.start_mem)
  have hset := hev₁.setPage { z₁.page p with count := 1 } (hbS _ b.start_mem) hmark rfl rfl
    fun hp => hp.2 b.start_mem
  rw [hz₁]
  refine ⟨hset, hloose.aligned, hloose.order_lt, hbS, ?_, fun x hx hne => ?_, PcpKept.refl pcp⟩
  · exact congrArg Page.count ((Zone.setPage_page _ p).trans (if_pos rfl))
  · rw [Zone.setPage_page, if_neg hne, hpage₁, hpage x hne]
    exact h.zero x (hbS x hx)

end AndroidKernel.Pages
