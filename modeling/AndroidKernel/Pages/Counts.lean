import Mathlib.Data.Set.Card
import AndroidKernel.Pages.Boot

/-! The counters of the zone count what they are there to count, in every run without isolated
pageblocks. -/

namespace AndroidKernel.Pages
open DyadicBlocks Lts

variable {c : Config} {z : Zone} {t : System} {o : ℕ}

def freeHeads (z : Zone) (o : ℕ) : Finset ℕ :=
  Finset.univ.biUnion fun mt => ((z.freeArea o).freeList mt).toFinset

theorem mem_freeHeads {p : ℕ} : p ∈ freeHeads z o ↔ ∃ mt, p ∈ (z.freeArea o).freeList mt := by
  simp only [freeHeads, Finset.mem_biUnion, Finset.mem_univ, true_and, List.mem_toFinset]

theorem Tidy.card_freeHeads (h : Tidy c z) : ((freeHeads z o).card : ℤ) = (z.freeArea o).nrFree := by
  have hdisj : ∀ mt ∈ (Finset.univ : Finset Migratetype), ∀ mt' ∈ Finset.univ, mt ≠ mt' →
      Disjoint ((z.freeArea o).freeList mt).toFinset ((z.freeArea o).freeList mt').toFinset := by
    intro mt _ mt' _ hne
    refine Finset.disjoint_left.mpr fun p hp hp' => hne ?_
    exact h.single o mt mt' p (List.mem_toFinset.mp hp) (List.mem_toFinset.mp hp')
  rw [freeHeads, Finset.card_biUnion hdisj, h.nrFree, Nat.cast_sum]
  exact Finset.sum_congr rfl fun mt _ => by rw [List.toFinset_card_of_nodup (h.nodup o mt)]

def freeBlocks (c : Config) (z : Zone) : Set Block :=
  {b | b ∈ blocks c z ∧ (z.page b.start).buddy = true}

theorem Tidy.mem_freeBlocks (h : Tidy c z) {b : Block} :
    b ∈ freeBlocks c z ↔ ∃ mt, b.start ∈ (z.freeArea b.order).freeList mt := by
  constructor
  · rintro ⟨⟨hh, hm⟩, hb⟩
    obtain ⟨mt, hmt⟩ := h.listed b.start hh hb
    rw [(Page.mark_eq_some.mp hm).2] at hmt
    exact ⟨mt, hmt⟩
  · rintro ⟨mt, hmt⟩
    exact ⟨h.mem_blocks_of_list hmt, (h.linked _ _ _ hmt).2.1⟩

theorem Tidy.nrFree_eq (h : Tidy c z) (o : ℕ) :
    (z.freeArea o).nrFree = ({b | b ∈ freeBlocks c z ∧ b.order = o}.ncard : ℤ) := by
  have hset : {b | b ∈ freeBlocks c z ∧ b.order = o} =
      (((freeHeads z o).image fun p => Block.mk p o : Finset Block) : Set Block) := by
    ext b
    rw [Set.mem_ofPred_eq, Finset.mem_coe, Finset.mem_image, h.mem_freeBlocks]
    constructor
    · rintro ⟨⟨mt, hmt⟩, rfl⟩
      exact ⟨b.start, mem_freeHeads.mpr ⟨mt, hmt⟩, rfl⟩
    · rintro ⟨p, hp, rfl⟩
      exact ⟨mem_freeHeads.mp hp, rfl⟩
  rw [hset, Set.ncard_coe_finset, Finset.card_image_of_injective _ fun p q hpq => by
    simpa using hpq, h.card_freeHeads]

def freePagesSet (c : Config) (z : Zone) : Set ℕ := cover (freeBlocks c z)

theorem Tidy.listedPages_eq (h : Tidy c z) : listedPages c z = ((freePagesSet c z).ncard : ℤ) := by
  have hset : freePagesSet c z = (((Finset.range c.maxOrder).biUnion fun o =>
      (freeHeads z o).biUnion fun p => Finset.Ico p (p + 2 ^ o) : Finset ℕ) : Set ℕ) := by
    ext x
    simp only [freePagesSet, mem_cover, h.mem_freeBlocks, Finset.coe_biUnion, Set.mem_iUnion,
      Finset.mem_coe, Finset.mem_range, Finset.mem_Ico, mem_freeHeads, exists_prop]
    constructor
    · rintro ⟨b, ⟨mt, hmt⟩, hx⟩
      exact ⟨b.order, h.order_lt hmt, b.start, ⟨mt, hmt⟩, hx⟩
    · rintro ⟨o, -, p, hp, hx⟩
      exact ⟨⟨p, o⟩, hp, hx⟩
  have hblock : ∀ {o p}, p ∈ freeHeads z o → (⟨p, o⟩ : Block) ∈ blocks c z := by
    intro o p hp
    obtain ⟨mt, hmt⟩ := mem_freeHeads.mp hp
    exact h.mem_blocks_of_list hmt
  have hsame : ∀ {o p o' p' x}, p ∈ freeHeads z o → p' ∈ freeHeads z o' →
      x ∈ Finset.Ico p (p + 2 ^ o) → x ∈ Finset.Ico p' (p' + 2 ^ o') → p = p' ∧ o = o' := by
    intro o p o' p' x hp hp' hx hx'
    have he := h.tiling.disjoint _ (hblock hp) _ (hblock hp') x (Finset.mem_Ico.mp hx)
      (Finset.mem_Ico.mp hx')
    exact ⟨congrArg Block.start he, congrArg Block.order he⟩
  rw [hset, Set.ncard_coe_finset, Finset.card_biUnion, listedPages, Nat.cast_sum]
  · refine Finset.sum_congr rfl fun o _ => ?_
    rw [Finset.card_biUnion]
    · simp only [Nat.card_Ico, Nat.add_sub_cancel_left, Finset.sum_const, smul_eq_mul]
      push_cast
      rw [h.card_freeHeads]
    · intro p hp p' hp' hne
      exact Finset.disjoint_left.mpr fun x hx hx' => hne (hsame hp hp' hx hx').1
  · intro o _ o' _ hne
    refine Finset.disjoint_left.mpr fun x hx hx' => hne ?_
    obtain ⟨p, hp, hx⟩ := Finset.mem_biUnion.mp hx
    obtain ⟨p', hp', hx'⟩ := Finset.mem_biUnion.mp hx'
    exact (hsame hp hp' hx hx').2

theorem boot_lag (other : ℕ → Page) (batch : ℕ → ℕ) (bs : List Block) :
    lag c (boot c other batch bs).zone = 0 := by
  obtain ⟨ha, -, hn⟩ := boot_rest (c := c) other batch bs
  have hl : listedPages c (boot c other batch bs).zone = 0 := by
    refine Finset.sum_eq_zero fun o _ => ?_
    rw [ha]
    exact zero_mul _
  rw [lag, hl, hn, sub_zero]

theorem uncounted_plain (M : Set ℕ) (held : List Block) : uncounted (Policy.plain c) M held = ∅ :=
  Set.eq_empty_of_forall_notMem fun _ hx => hx.2.1

theorem BootOk.counted {other : ℕ → Page} {batch : ℕ → ℕ} {bs : List Block} (h : BootOk c bs)
    {as : List Action} (ht : Lts.exec (next c) as (boot c other batch bs) = some t) :
    t.zone.nrFreePages = ((freePagesSet c t.zone).ncard : ℤ) := by
  have hstep := h.exec ht
  have hlag := hstep.lag
  rw [uncounted_plain, uncounted_plain, boot_lag, add_left_inj, lag, sub_eq_zero,
    (hstep.sound.share 0).tidy.listedPages_eq] at hlag
  exact hlag

/-- In every run from boot `NR_FREE_PAGES` is the number of pages in free blocks, and `nr_free` of
each order the number of free blocks of that order. -/
theorem run_counts {other : ℕ → Page} {batch : ℕ → ℕ} {bs : List Block} (h : BootOk c bs)
    {as : List Action} (ht : Lts.exec (next c) as (boot c other batch bs) = some t) :
    t.zone.nrFreePages = ((freePagesSet c t.zone).ncard : ℤ) ∧
      ∀ o, (t.zone.freeArea o).nrFree = ({b | b ∈ freeBlocks c t.zone ∧ b.order = o}.ncard : ℤ) := by
  have hstep := h.exec ht
  have htidy := (hstep.sound.share 0).tidy
  exact ⟨h.counted ht, htidy.nrFree_eq⟩

theorem run_counts_fourPages :
    (freePagesSet fourPages fourPagesEnd.zone).ncard = 2 ∧
      {b | b ∈ freeBlocks fourPages fourPagesEnd.zone ∧ b.order = 1}.ncard = 1 := by
  obtain ⟨hpages, hblocks⟩ := run_counts fourPages_bootOk fourPages_end
  have h2 : fourPagesEnd.zone.nrFreePages = 2 := by decide
  have h1 : (fourPagesEnd.zone.freeArea 1).nrFree = 1 := by decide
  rw [h2] at hpages
  have hblocks := hblocks 1
  rw [h1] at hblocks
  exact ⟨by exact_mod_cast hpages.symm, by exact_mod_cast hblocks.symm⟩

/-- In every run from boot `free_pcppages_bulk` ends exactly if there are as many pages on the lists of
the CPU as it is asked for. It then takes that many off the lists and puts these in the zone, and
nothing else changes hands. -/
theorem run_freePcppagesBulk {other : ℕ → Page} {batch : ℕ → ℕ} {bs : List Block} (h : BootOk c bs)
    {as : List Action} (ht : Lts.exec (next c) as (boot c other batch bs) = some t) (cpu count : ℕ) :
    ((∃ fuel, (freePcppages c fuel count
        ⟨t.zone, (t.pcp cpu).lists, .unmovable, 0, false⟩).isSome = true) ↔
      (count : ℤ) ≤ (t.pcp cpu).count) ∧
    ∀ z' pcp', freePcppagesBulk c t.zone count (t.pcp cpu) = some (z', pcp') →
      total pcp'.lists + count = total (t.pcp cpu).lists ∧
      z'.nrFreePages = listedPages c z' ∧
      ∀ x, x ∈ covered c z' ↔
        x ∈ covered c t.zone ∨ (∃ mt, x ∈ (t.pcp cpu).lists mt) ∧ ∀ mt, x ∉ pcp'.lists mt := by
  have hs := (h.exec ht).sound
  obtain ⟨hends, hdone⟩ := freePcppagesBulk_exact count (hs.share cpu)
  have hlag : lag c t.zone = 0 := by
    rw [lag, h.counted ht, (hs.share 0).tidy.listedPages_eq, sub_self]
  rw [(hs.ok cpu).count, Nat.cast_le]
  refine ⟨hends, fun z' pcp' hb => ?_⟩
  obtain ⟨htot, hl, hcov⟩ := hdone z' pcp' hb
  exact ⟨htot, sub_eq_zero.mp (hl.trans hlag), hcov⟩

theorem run_freePcppagesBulk_fourPages :
    ¬ (∃ fuel, (freePcppages fourPages fuel 2
      ⟨fourPagesEnd.zone, (fourPagesEnd.pcp 0).lists, .unmovable, 0, false⟩).isSome = true) := by
  rw [(run_freePcppagesBulk fourPages_bootOk fourPages_end 0 2).1]
  decide

end AndroidKernel.Pages
