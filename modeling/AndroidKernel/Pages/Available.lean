import AndroidKernel.Pages.Counts

/-! When an allocation succeeds: whenever there is an aligned free block of its order, which is what
the watermarks are there to guarantee. -/

namespace AndroidKernel.Pages
open DyadicBlocks Migratetype Lts

variable {c : Config} {P : Policy c} {S M : Set ℕ} {z z' : Zone} {lists : Migratetype → List ℕ}
  {mt : Migratetype} {order p : ℕ} {g : Gfp} {pcp : Pcp} {s t : System} {other : ℕ → Page}
  {batch : ℕ → ℕ} {bs : List Block}

theorem Tidy.exists_freeBlock (h : Tidy c z) {b : Block} (hb : b.Aligned) (ho : b.order < c.maxOrder)
    (hf : ∀ x ∈ b, x ∈ freePagesSet c z) :
    ∃ d ∈ freeBlocks c z, b.order ≤ d.order ∧ b.start ∈ d := by
  have hcov : ∀ x ∈ b, x ∈ cover (blocks c z) := by
    intro x hx
    obtain ⟨d, hd, hxd⟩ := hf x hx
    exact ⟨d, hd.1, hxd⟩
  obtain ⟨d, hd, hle, hs⟩ := h.tiling.exists_of_covered hb (Nat.le_sub_one_of_lt ho) hcov
  obtain ⟨e, he, hse⟩ := hf b.start b.start_mem
  rw [h.tiling.disjoint d hd e he.1 b.start hs hse] at hle
  exact ⟨e, he, hle, hse⟩

theorem Tidy.freeBlock_sub (h : Tidy c z) {d : Block} (hd : d ∈ freeBlocks c z) {o : ℕ}
    (ho : o ≤ d.order) : (⟨d.start, o⟩ : Block).Aligned ∧
      ∀ x ∈ (⟨d.start, o⟩ : Block), x ∈ freePagesSet c z := by
  refine ⟨(pow_dvd_pow 2 ho).trans (h.tiling.aligned d hd.1), fun x hx => ⟨d, hd, ?_⟩⟩
  obtain ⟨hl, hu⟩ := Block.mem_def.mp hx
  exact ⟨hl, hu.trans_le (Nat.add_le_add_left (Nat.pow_le_pow_right Nat.two_pos ho) _)⟩

def Served (c : Config) (t : Migratetype) : Prop :=
  ∀ mt : Migratetype, mt.isPcp = true → t ∈ usable c mt

theorem served_of_plain {t : Migratetype} (h : t ≠ .isolate ∧ t ≠ .cma) : Served c t := by
  intro mt hmt
  obtain ⟨hi, hc⟩ := h
  cases hcma : c.cma <;> cases mt <;> cases t <;>
    first
    | exact absurd rfl hi
    | exact absurd rfl hc
    | simp [usable, fallbacks, hcma]; done
    | cases hmt

theorem rmqueueFor_none_iff (h : Local P S z lists) (hk : ∀ t, P.kinds t → Served c t) (g : Gfp)
    (hmt : mt.isPcp = true) (ho : order < c.maxOrder) : rmqueueFor c g z order mt = none ↔
      ∀ b : Block, b.Aligned → b.order = order → ∃ x ∈ b, x ∉ freePagesSet c z \ P.iso := by
  have hne : mt ≠ .isolate := by
    rintro rfl
    cases hmt
  obtain ⟨ts, husable, hts, hans⟩ := rmqueueFor_answers h.tidy g hne order
  constructor
  · intro hnone b hb hbo
    rw [hnone] at hans
    by_contra! hall
    obtain ⟨d, hd, hle, hs⟩ := h.tidy.exists_freeBlock hb (hbo ▸ ho) fun x hx => (hall x hx).1
    obtain ⟨t, ht⟩ := h.tidy.mem_freeBlocks.mp hd
    have hti : t ≠ .isolate := by
      intro hti
      have hwhole := P.block d (h.tidy.tiling.aligned d hd.1) (h.tidy.order_lt ht)
      exact (hall _ b.start_mem).2 (hwhole _ d.start_mem _ hs ((h.isoFree _ _ _ ht).mpr hti))
    have hnil := hans d.order trivial (hbo ▸ hle) t
      (husable t (hk t (h.kindFree _ _ _ ht hti) mt hmt))
    rw [hnil] at ht
    exact absurd ht List.not_mem_nil
  · intro hno
    cases hr : rmqueueFor c g z order mt with
    | none => rfl
    | some r =>
      obtain ⟨p, z'⟩ := r
      rw [hr] at hans
      obtain ⟨high, -, hle, t, ht, htaken⟩ := hans
      have hd : (⟨p, high⟩ : Block) ∈ freeBlocks c z := h.tidy.mem_freeBlocks.mpr ⟨t, htaken.source⟩
      obtain ⟨hal, hfree⟩ := h.tidy.freeBlock_sub hd hle
      obtain ⟨x, hx, hxf⟩ := hno _ hal rfl
      refine absurd ⟨hfree x hx, fun hxR => hts t ht ?_⟩ hxf
      have hwhole := P.block _ hal ho x hx p (Block.start_mem _) hxR
      exact (h.isoFree _ _ _ htaken.source).mp hwhole

theorem rmqueueBulk_empty_iff (hmt : mt.isPcp = true) {count : ℕ} (hc : 0 < count)
    (h : Local P S z lists) (hl : lists mt = []) :
    (rmqueueBulk c g z 0 count (lists mt) mt).2.1 = [] ↔ rmqueueFor c g z 0 mt = none := by
  have hlen := (rmqueueBulk_spec (g := g) hmt count h).2
  rw [hl] at hlen ⊢
  obtain ⟨n, rfl⟩ := Nat.exists_eq_succ_of_ne_zero hc.ne'
  rw [← List.length_eq_zero_iff, hlen, List.length_nil, Nat.zero_add]
  simp only [rmqueueBulk, rmqueueBulkLoop]
  cases hr : rmqueueFor c g z 0 mt with
  | none => simp only
  | some r => simp only [reduceCtorEq, Nat.succ_ne_zero]

/-- An allocation fails exactly if the list of the CPU cannot serve it and there is no aligned block
of its order all of whose pages are free and not isolated. -/
theorem bufferedRmqueue_none_iff (h : Local P S z pcp.lists) (hk : ∀ t, P.kinds t → Served c t)
    (hok : CpuOk pcp) (hmt : mt.isPcp = true) (ho : order < c.maxOrder) :
    (bufferedRmqueue c g z pcp order mt).1 = none ↔
      (order = 0 → pcp.lists mt = []) ∧
        ∀ b : Block, b.Aligned → b.order = order → ∃ x ∈ b, x ∉ freePagesSet c z \ P.iso := by
  have hnone := rmqueueFor_none_iff h hk g hmt ho
  unfold bufferedRmqueue
  by_cases h0 : order = 0
  · subst h0
    rw [if_pos rfl, ← hnone]
    have hpick : ∀ l : List ℕ, pickPage g l = none ↔ l = [] := by
      intro l
      unfold pickPage
      split_ifs
      · exact List.getLast?_eq_none_iff
      · exact List.head?_eq_none_iff
    have hrefill : (refill c g z pcp mt).2.lists mt = [] ↔
        pcp.lists mt = [] ∧ rmqueueFor c g z 0 mt = none := by
      unfold refill
      by_cases hl : pcp.lists mt = []
      · have hbulk := rmqueueBulk_empty_iff (g := g) hmt hok.batch_pos h hl
        rw [if_pos (by rw [hl]; rfl), ← hbulk]
        simp only [hl, true_and, Pcp.setList, Function.update_self]
      · rw [if_neg (by simpa using hl)]
        simp only [hl, false_and]
    rw [forall_prop_of_true rfl, ← hrefill, ← hpick]
    generalize refill c g z pcp mt = r
    obtain ⟨z₁, pcp₁⟩ := r
    dsimp only
    cases pickPage g (pcp₁.lists mt) with
    | none => simp only
    | some page => simp only [reduceCtorEq]
  · rw [if_neg h0]
    simp only [h0, false_implies, true_and, ← hnone]
    cases rmqueueFor c g z order mt with
    | none => simp only
    | some r => simp only [reduceCtorEq]

/-- In every run from boot an allocation on a CPU fails exactly if the CPU has no page for it and
nowhere in the zone are `2 ^ order` aligned pages free. -/
theorem run_alloc_none_iff (h : BootOk c bs) {as : List Action}
    (ht : Lts.exec (next c) as (boot c other batch bs) = some t) (g : Gfp) (cpu : ℕ)
    (hmt : mt.isPcp = true) (ho : order < c.maxOrder) :
    (bufferedRmqueue c g t.zone (t.pcp cpu) order mt).1 = none ↔
      (order = 0 → (t.pcp cpu).lists mt = []) ∧
        ∀ b : Block, b.Aligned → b.order = order → ∃ x ∈ b, x ∉ freePagesSet c t.zone := by
  have hs := (h.exec ht).sound
  have hnone := bufferedRmqueue_none_iff (g := g) (hs.share cpu) (fun _ ht => served_of_plain ht)
    (hs.ok cpu) hmt ho
  rwa [show (Policy.plain c).iso = ∅ from rfl, Set.sdiff_empty] at hnone

theorem run_alloc_none_iff_fourPages : ¬ ∀ b : Block, b.Aligned → b.order = 1 →
    ∃ x ∈ b, x ∉ freePagesSet fourPages fourPagesEnd.zone := by
  intro hall
  have hsome : (bufferedRmqueue fourPages ⟨false, false, false⟩ fourPagesEnd.zone
      (fourPagesEnd.pcp 0) 1 .movable).1 ≠ none := by decide
  exact hsome ((run_alloc_none_iff fourPages_bootOk fourPages_end ⟨false, false, false⟩ 0 rfl
    (by decide)).mpr ⟨by decide, hall⟩)

/-- In every run from boot the free blocks are the largest blocks of free pages. Once everything is
freed and drained they are the largest blocks of the memory handed over at boot, whatever the run was. -/
theorem run_coalesced (h : BootOk c bs) {as : List Action}
    (ht : Lts.exec (next c) as (boot c other batch bs) = some t) (b : Block) :
    (b ∈ blocks c t.zone ↔ b.Aligned ∧ b.order < c.maxOrder ∧ (∀ x ∈ b, x ∈ covered c t.zone) ∧
      (b.order + 1 < c.maxOrder → ∃ x ∈ b.parent, x ∉ covered c t.zone)) ∧
    (t.held = [] → (∀ cpu mt, (t.pcp cpu).lists mt = []) →
      (b ∈ blocks c t.zone ↔ b.Aligned ∧ b.order < c.maxOrder ∧ (∀ x ∈ b, inHeld bs x) ∧
        (b.order + 1 < c.maxOrder → ∃ x ∈ b.parent, ¬ inHeld bs x))) := by
  have hs := (h.exec ht).sound
  have hpos := c.maxOrder_pos
  have hle : b.order ≤ c.maxOrder - 1 ↔ b.order < c.maxOrder := by omega
  have hlt : b.order < c.maxOrder - 1 ↔ b.order + 1 < c.maxOrder := by omega
  have hmax := (hs.share 0).tidy.tiling.mem_iff (b := b)
  rw [hle, hlt] at hmax
  refine ⟨hmax, fun hheld hlists => ?_⟩
  have hcov : ∀ x, x ∈ covered c t.zone ↔ inHeld bs x := by
    intro x
    obtain ⟨hpl, -⟩ := hs.place x
    constructor
    · intro hx
      exact hpl.mp ⟨.free, hx⟩
    · intro hx
      obtain ⟨pl, hat⟩ := hpl.mpr hx
      cases pl with
      | free => exact hat
      | listed cpu mt =>
        change x ∈ (t.pcp cpu).lists mt at hat
        rw [hlists] at hat
        exact absurd hat List.not_mem_nil
      | held b =>
        obtain ⟨hb, -⟩ := hat
        rw [hheld] at hb
        exact absurd hb List.not_mem_nil
  have hcov' : ∀ x, x ∈ cover (blocks c t.zone) ↔ inHeld bs x := hcov
  simp only [hcov'] at hmax
  exact hmax

theorem run_coalesced_fourPages : 3 ∈ covered fourPages fourPagesEnd.zone := by
  have hb : (⟨2, 1⟩ : Block) ∈ blocks fourPages fourPagesEnd.zone :=
    ⟨fourPages_here.mpr (by decide), by decide⟩
  exact ((run_coalesced fourPages_bootOk fourPages_end ⟨2, 1⟩).1.mp hb).2.2.1 3 ⟨by decide, by decide⟩

theorem Tidy.nrFree_pos (h : Tidy c z) {o : ℕ} (hn : (z.freeArea o).nrFree ≠ 0) :
    ∃ d ∈ freeBlocks c z, d.order = o := by
  rw [h.nrFree_eq] at hn
  obtain ⟨d, hd, hdo⟩ := Set.nonempty_of_ncard_ne_zero (Nat.cast_ne_zero.mp hn)
  exact ⟨d, hd, hdo⟩

/-- In every run from boot an allocation that passes the watermark check succeeds, on whichever CPU
and for whichever migratetype, if the estimate of the free pages was not too high. -/
theorem run_watermark (h : BootOk c bs) {as : List Action}
    (ht : Lts.exec (next c) as (boot c other batch bs) = some t) {shift mark reserve : ℕ}
    {f : AllocFlags} {freePages : ℤ} (hest : freePages ≤ t.zone.nrFreePages)
    (ho : order < c.maxOrder)
    (hok : zoneWatermarkOk c t.zone shift order mark reserve f freePages = true) (g : Gfp) (cpu : ℕ)
    (hmt : mt.isPcp = true) :
    ∃ p z' pcp', bufferedRmqueue c g t.zone (t.pcp cpu) order mt = (some p, z', pcp') := by
  have hs := (h.exec ht).sound
  have htidy := (hs.share cpu).tidy
  have hcount := h.counted ht
  rw [← htidy.listedPages_eq] at hcount
  have hsome : (bufferedRmqueue c g t.zone (t.pcp cpu) order mt).1 ≠ none := by
    intro hnone
    rw [bufferedRmqueue_none_iff (hs.share cpu) (fun _ ht => served_of_plain ht) (hs.ok cpu) hmt ho]
      at hnone
    -- no list of a sufficient order has a block
    have hzero : ∀ o, order ≤ o → (t.zone.freeArea o).nrFree = 0 := by
      intro o hle
      by_contra hn
      obtain ⟨d, hd, rfl⟩ := htidy.nrFree_pos hn
      obtain ⟨hal, hfree⟩ := htidy.freeBlock_sub hd hle
      obtain ⟨x, hx, hxf⟩ := hnone.2 _ hal rfl
      exact hxf ⟨hfree x hx, Set.notMem_empty x⟩
    have hlisted : listedPages c t.zone =
        ∑ o ∈ Finset.range order, (t.zone.freeArea o).nrFree * 2 ^ o := by
      refine (Finset.sum_subset (Finset.range_subset_range.mpr ho.le) fun o _ hno => ?_).symm
      rw [hzero o (by simpa using hno), zero_mul]
    have hmany := zoneWatermarkOk_sound hok
    omega
  generalize bufferedRmqueue c g t.zone (t.pcp cpu) order mt = r at hsome
  match r, hsome with
  | (some p, z', pcp'), _ => exact ⟨p, z', pcp', rfl⟩
  | (none, z', pcp'), hsome => exact absurd rfl hsome

theorem run_watermark_fourPages : ∃ p z' pcp', bufferedRmqueue fourPages ⟨false, false, false⟩
    fourPagesEnd.zone (fourPagesEnd.pcp 3) 1 .unmovable = (some p, z', pcp') := by
  have hok : zoneWatermarkOk fourPages fourPagesEnd.zone 0 1 0 0 ⟨false, false, false⟩ 2 = true := by
    decide
  exact run_watermark fourPages_bootOk fourPages_end (by decide) (by decide) hok
    ⟨false, false, false⟩ 3 rfl

end AndroidKernel.Pages
