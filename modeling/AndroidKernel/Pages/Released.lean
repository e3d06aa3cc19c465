import AndroidKernel.Pages.Buffered

/-! What giving a block back on one CPU does, and what `drain_pages` returns to the zone. -/

namespace AndroidKernel.Pages
open DyadicBlocks Migratetype

variable {c : Config} {P : Policy c} {S U : Set ℕ} {z z' z'' : Zone} {lists lists' : Migratetype → List ℕ}
  {mt t : Migratetype} {p n order : ℕ} {g : Gfp}
variable {pcp pcp' : Pcp} {b : Block}

structure Released {c : Config} (P : Policy c) (S : Set ℕ) (z z' : Zone) (pcp pcp' : Pcp) (b : Block) : Prop where
  evolves : Evolves P {x | x ∈ S ∨ x ∈ b} {x | x ∈ S ∨ x ∈ b} z z' pcp'.lists (-P.weight b)
  kept : PcpKept pcp pcp'

structure Owned (c : Config) (S : Set ℕ) (z : Zone) (b : Block) : Prop where
  aligned : b.Aligned
  order_lt : b.order < c.maxOrder
  here : ∀ x ∈ b, c.Here x
  out : ∀ x ∈ b, x ∉ S
  tail : ∀ x ∈ b, x ≠ b.start → (z.page x).count = 0

theorem Owned.loose (h : Owned c S z b) (hl : Local P S z lists) : Loose c z b :=
  ⟨h.aligned, h.order_lt, h.here, fun x hx hc => h.out x hx ((hl.mem x).mpr (Or.inl hc))⟩

theorem freeOnePage_released (h : Local P S z pcp.lists) (ho : Owned c S z b)
    (hz : (z.page b.start).count = 0)
    (hmt : mt = getPageblockMigratetype c z b.start) :
    Released P S z (freeOnePage c z b.start b.order mt) pcp pcp b := by
  have hloose := ho.loose h
  obtain ⟨d, hf, -⟩ := freeOnePage'_spec h.tidy hloose mt
  have hcount : ∀ x ∈ b, (z.page x).count = 0 := by
    intro x hx
    by_cases hxb : x = b.start
    · rw [hxb, hz]
    · exact ho.tail x hx hxb
  have hiso : b.start ∈ P.iso ↔ mt = .isolate := hmt ▸ h.isoBlock b.start
  have hlocal := h.free ho.here hcount ho.out hiso (hmt ▸ h.kindBlock _) hf
  have hev : Evolves P {x | x ∈ S ∨ x ∈ b} {x | x ∈ S ∨ x ∈ b} z
      (freeOnePage' c z b.start b.order mt) pcp.lists (-2 ^ b.order) := by
    refine ⟨hlocal, by rw [hf.lag, sub_eq_add_neg], fun x hx => hf.frame.page x fun hc => hx ?_⟩
    exact hc.imp_left fun hc => (h.mem x).mpr (Or.inl hc)
  refine ⟨?_, PcpKept.refl pcp⟩
  unfold freeOnePage
  dsimp only
  split_ifs with hne
  · have hc := hev.counters (modZoneFreepageState c (freeOnePage' c z b.start b.order mt) _ mt)
      (modZoneFreepageState_page _) (modZoneFreepageState_freeArea _) (modZoneFreepageState_pageblock _)
      (modZoneFreepageState_nrFreePages (1 <<< b.order : ℕ))
    rw [Nat.one_shiftLeft] at hc ⊢
    push_cast at hc ⊢
    have hw : P.weight b = 0 := if_neg fun hR => hne (hiso.mp hR)
    rwa [neg_add_cancel, ← neg_zero, ← hw] at hc
  · have hw : P.weight b = 2 ^ b.order := if_pos (hiso.mpr (not_not.mp hne))
    rwa [← hw] at hev

/-- The counter of a CPU is right, and a full batch is there when its lists are full. -/
structure CpuOk (pcp : Pcp) : Prop where
  count : pcp.count = total pcp.lists
  batch : pcp.batch = 1 ∨ (pcp.batch : ℤ) ≤ pcp.high
  batch_pos : 0 < pcp.batch

theorem CpuOk.of_kept (h : CpuOk pcp) (hk : PcpKept pcp pcp') : CpuOk pcp' where
  count := by
    have hc := hk.count
    rw [h.count, sub_self] at hc
    omega
  batch := by
    rw [hk.batch, hk.high]
    exact h.batch
  batch_pos := by
    rw [hk.batch]
    exact h.batch_pos

theorem setupPageset_ok (batch : ℕ) : CpuOk (setupPageset batch) where
  count := by
    have h0 : total (setupPageset batch).lists = 0 := total_eq_zero.mpr fun _ => rfl
    rw [h0]
    rfl
  batch := by
    simp only [setupPageset]
    omega
  batch_pos := by
    simp only [setupPageset]
    omega

theorem setupPagelistHighmark_ok (high : ℕ) (h : CpuOk pcp) :
    CpuOk (setupPagelistHighmark c pcp high) where
  count := h.count
  batch := by
    simp only [setupPagelistHighmark]
    split_ifs <;> omega
  batch_pos := by
    have := c.pageShift_pos
    simp only [setupPagelistHighmark]
    split_ifs <;> omega

theorem trimPcp_spec (pcp : Pcp) (h : Local P S z pcp.lists) (hok : CpuOk pcp)
    (hpos : 0 < pcp.count) : ∃ z' pcp', trimPcp c z pcp = some (z', pcp') ∧
      Evolves P S S z z' pcp'.lists 0 ∧ PcpKept pcp pcp' := by
  have hcount := hok.count
  have hbatch := hok.batch
  unfold trimPcp
  split_ifs with hfull
  · obtain ⟨z', lists', hb, hev, htot, -⟩ := freePcppagesBulk_spec pcp.batch h (by omega)
    refine ⟨z', { pcp with count := pcp.count - pcp.batch, lists := lists' }, ?_, hev, rfl, rfl, ?_⟩
    · simp only [hb, Option.bind_eq_bind, Option.bind_some]
    change pcp.count - (pcp.batch : ℤ) - (total lists' : ℤ) = _
    omega
  · exact ⟨z, pcp, rfl, Evolves.refl h, PcpKept.refl pcp⟩

theorem Released.of_note {z₁ : Zone} (h : Released P S z₁ z' pcp pcp' b)
    (hframe : ∀ x, x ∉ {x | x ∈ S ∨ x ∈ b} → z₁.page x = z.page x) (hlag : lag c z₁ = lag c z) :
    Released P S z z' pcp pcp' b := by
  obtain ⟨hev, hk⟩ := h
  exact ⟨⟨hev.isLocal, hlag ▸ hev.lag, fun x hx => (hev.frame x hx).trans (hframe x hx)⟩, hk⟩

theorem putPcp_released (h : Local P S z pcp.lists) (hok : CpuOk pcp)
    (ho : Owned c S z ⟨p, 0⟩) (hz : (z.page p).count = 0) (hR : p ∉ P.iso) (hmt : mt.isPcp = true)
    (hq : P.kinds (ofCode (z.page p).priv)) {l : List ℕ} (hl : l.Perm (p :: pcp.lists mt)) :
    ∃ z' pcp', trimPcp c z { pcp.setList mt l with count := pcp.count + 1 } = some (z', pcp') ∧
      Released P S z z' pcp pcp' ⟨p, 0⟩ := by
  have hput := h.put (ho.out p (Block.start_mem _)) (ho.here p (Block.start_mem _)) hz hR hmt hq hl
  have hS : insert p S = {x | x ∈ S ∨ x ∈ (⟨p, 0⟩ : Block)} := by
    ext x
    rw [Set.mem_insert_iff, Set.mem_ofPred_eq, single_block, or_comm]
  rw [hS] at hput
  have htot := total_update pcp.lists mt l
  have hlen := hl.length_eq
  rw [List.length_cons] at hlen
  have hcount := hok.count
  have hcount' : pcp.count + 1 = total (Function.update pcp.lists mt l) := by omega
  obtain ⟨z', pcp', ht, hev, hk⟩ := trimPcp_spec
    { pcp.setList mt l with count := pcp.count + 1 } hput
    ⟨hcount', hok.batch, hok.batch_pos⟩
    (by change 0 < pcp.count + 1; omega)
  have hw : P.weight ⟨p, 0⟩ = 0 := if_neg hR
  rw [← neg_zero, ← hw] at hev
  refine ⟨z', pcp', ht, hev, hk.high, hk.batch, hk.count.trans ?_⟩
  change pcp.count + 1 - (total (Function.update pcp.lists mt l) : ℤ) = _
  omega

theorem freeHotColdPage_spec (h : Local P S z pcp.lists) (hok : CpuOk pcp)
    (ho : Owned c S z ⟨p, 0⟩) (hz : (z.page p).count = 0) (cold : Bool) :
    ∃ z' pcp', freeHotColdPage c z pcp p cold = some (z', pcp') ∧
      Released P S z z' pcp pcp' ⟨p, 0⟩ := by
  have hmark := mark_of_not_covered (ho.here p (Block.start_mem _))
    ((ho.loose h).out p (Block.start_mem _))
  have hiso : p ∈ P.iso ↔ getPageblockMigratetype c z p = .isolate := h.isoBlock p
  unfold freeHotColdPage
  generalize hmt : getPageblockMigratetype c z p = mt at hiso
  dsimp only
  -- noting the migratetype in the page changes nothing else
  have hset : Local P S (z.setPagePrivate p mt.code) pcp.lists :=
    h.setPage { z.page p with priv := mt.code } hmark rfl rfl (fun _ => rfl)
      fun mt' hp => absurd ((h.mem p).mpr (Or.inr ⟨mt', hp⟩)) (ho.out p (Block.start_mem _))
  have hcountp : ((z.setPagePrivate p mt.code).page p).count = 0 := by
    rw [Zone.setPagePrivate, Zone.setPage_page, if_pos rfl]
    exact hz
  have hown : Owned c S (z.setPagePrivate p mt.code) ⟨p, 0⟩ :=
    { ho with tail := fun x hx hne => absurd ((single_block x).mp hx) hne }
  have hframe : ∀ x, x ∉ {x | x ∈ S ∨ x ∈ (⟨p, 0⟩ : Block)} →
      (z.setPagePrivate p mt.code).page x = z.page x := by
    intro x hx
    refine (Zone.setPage_page _ x).trans (if_neg ?_)
    rintro rfl
    exact hx (Or.inr (Block.start_mem _))
  by_cases hfree : !mt.isPcp ∧ (mt = .isolate ∨ isMigrateCma c mt)
  · -- pages of isolated and CMA pageblocks go to the zone
    rw [if_pos hfree]
    have hrel := freeOnePage_released hset hown hcountp hmt.symm
    exact ⟨_, pcp, rfl, hrel.of_note hframe rfl⟩
  · rw [if_neg hfree]
    have hpcp : (if mt.isPcp then mt else .movable).isPcp = true := by
      split_ifs with hm
      · exact hm
      · rfl
    have hne : mt ≠ .isolate := by
      rintro rfl
      exact hfree ⟨rfl, Or.inl rfl⟩
    have hkind : P.kinds (ofCode ((z.setPagePrivate p mt.code).page p).priv) := by
      rw [Zone.setPagePrivate, Zone.setPage_page, if_pos rfl, ofCode_code]
      rw [← hmt] at hne ⊢
      exact h.kindBlock _ hne
    have hR : p ∉ P.iso := fun hp => hne (hiso.mp hp)
    generalize (if mt.isPcp then mt else .movable) = mt' at hpcp
    have hperm : (if cold then pcp.lists mt' ++ [p] else p :: pcp.lists mt').Perm
        (p :: pcp.lists mt') := by
      split_ifs
      · exact List.perm_append_singleton ..
      · exact List.Perm.rfl
    obtain ⟨z', pcp', ht, hrel⟩ := putPcp_released hset hok hown hcountp hR hpcp hkind hperm
    exact ⟨z', pcp', ht, hrel.of_note hframe rfl⟩

theorem freePagesOk_spec (h : Local P S z pcp.lists) (hok : CpuOk pcp)
    (ho : Owned c S z b) (hz : (z.page b.start).count = 0) (cold : Bool) :
    ∃ z' pcp', freePagesOk c z pcp b.start b.order cold = some (z', pcp') ∧
      Released P S z z' pcp pcp' b := by
  unfold freePagesOk
  split_ifs with h0
  · have hb : b = ⟨b.start, 0⟩ := by rw [← h0]
    rw [hb] at ho ⊢
    exact freeHotColdPage_spec h hok ho hz cold
  · exact ⟨_, pcp, rfl, freeOnePage_released h ho hz rfl⟩

theorem drainPages_spec (h : Local P S z pcp.lists) (hok : CpuOk pcp) :
    ∃ z' pcp', drainPages c z pcp = some (z', pcp') ∧ Evolves P S S z z' pcp'.lists 0 ∧
      PcpKept pcp pcp' ∧ ∀ mt, pcp'.lists mt = [] := by
  have hcount := hok.count
  unfold drainPages
  split_ifs with h0
  · exact ⟨z, pcp, rfl, Evolves.refl h, PcpKept.refl pcp, total_eq_zero.mp (by omega)⟩
  · obtain ⟨z', lists', hb, hev, htot, -⟩ := freePcppagesBulk_spec pcp.count.toNat h
      (by omega)
    have hzero : total lists' = 0 := by omega
    refine ⟨z', { pcp with count := 0, lists := lists' }, ?_, hev, ⟨rfl, rfl, ?_⟩,
      total_eq_zero.mp hzero⟩
    · simp only [hb, Option.bind_eq_bind, Option.bind_some]
    · change 0 - (total lists' : ℤ) = _
      omega

theorem drainZonePages_spec (h : Local P S z pcp.lists) (hok : CpuOk pcp) :
    ∃ z' pcp', drainZonePages c z pcp = some (z', pcp') ∧ Evolves P S S z z' pcp'.lists 0 ∧
      PcpKept pcp pcp' := by
  have hcount := hok.count
  unfold drainZonePages
  dsimp only
  generalize hn : (if (pcp.batch : ℤ) ≤ pcp.count then (pcp.batch : ℤ) else pcp.count) = n
  have hle : 0 ≤ n ∧ n ≤ total pcp.lists := by
    rw [← hn]
    split_ifs <;> omega
  obtain ⟨z', lists', hb, hev, htot, -⟩ := freePcppagesBulk_spec n.toNat h (by omega)
  refine ⟨z', { pcp with count := pcp.count - n, lists := lists' }, ?_, hev, rfl, rfl, ?_⟩
  · simp only [hb, Option.bind_eq_bind, Option.bind_some]
  · change pcp.count - n - (total lists' : ℤ) = _
    omega

end AndroidKernel.Pages
