import AndroidKernel.Pages.Calls

/-! The allocator from boot on: the boot memory allocator hands its blocks over one by one, and from
there every page of them has one place at any time. -/

namespace AndroidKernel.Pages
open DyadicBlocks Migratetype Lts

/-- `memmap_init_zone` and `zone_init_free_lists`; `other` are the pages of other zones. -/
def memmapInitZone (c : Config) (other : ℕ → Page) : Zone where
  page p := if c.Here p then ⟨false, false, 0, 1⟩ else other p
  freeArea _ := ⟨fun _ => [], 0⟩
  pageblock i := if c.Here (i <<< c.pageblockOrder) then .movable else .unmovable
  nrFreePages := 0
  nrFreeCmaPages := 0

/-- `__free_pages_bootmem` up to the call of `__free_pages`. -/
def freePagesBootmem (z : Zone) (b : Block) : Zone :=
  { z with page := fun p =>
      if p ∈ b then { z.page p with count := if p = b.start then 1 else 0 } else z.page p }

/-- The state in which the blocks of the boot memory allocator are about to be freed. -/
def boot (c : Config) (other : ℕ → Page) (batch : ℕ → ℕ) (blocks : List Block) : System where
  zone := blocks.foldr (fun b z => freePagesBootmem z b) (memmapInitZone c other)
  pcp cpu := setupPageset (batch cpu)
  held := blocks

/-- What the boot memory allocator hands over: blocks of the zone that do not overlap. -/
structure BootOk (c : Config) (blocks : List Block) : Prop where
  aligned : ∀ b ∈ blocks, b.Aligned
  order_lt : ∀ b ∈ blocks, b.order < c.maxOrder
  here : ∀ b ∈ blocks, ∀ x ∈ b, c.Here x
  apart : blocks.Pairwise fun b b' => ∀ x ∈ b, x ∉ b'

def Policy.plain (c : Config) : Policy c where
  iso := ∅
  kinds mt := mt ≠ .isolate ∧ mt ≠ .cma
  block := fun _ _ _ _ _ _ _ hx => hx
  pageblock := fun _ _ _ hx => hx
  pcp := by decide
  reserve := by decide
  proper := by decide

variable {c : Config} {other : ℕ → Page} {batch : ℕ → ℕ} {bs : List Block} {s t : System} {x : ℕ}

theorem freePagesBootmem_flags (z : Zone) (b : Block) (x : ℕ) :
    ((freePagesBootmem z b).page x).buddy = (z.page x).buddy ∧
      ((freePagesBootmem z b).page x).guard = (z.page x).guard := by
  simp only [freePagesBootmem]
  split_ifs <;> exact ⟨rfl, rfl⟩

theorem boot_flags (hx : c.Here x) (bs : List Block) :
    ((boot c other batch bs).zone.page x).buddy = false ∧
      ((boot c other batch bs).zone.page x).guard = false := by
  induction bs with
  | nil => exact ⟨congrArg Page.buddy (if_pos hx), congrArg Page.guard (if_pos hx)⟩
  | cons b bs ih =>
    obtain ⟨hb, hg⟩ := freePagesBootmem_flags (boot c other batch bs).zone b x
    exact ⟨hb.trans ih.1, hg.trans ih.2⟩

theorem boot_page_of_not_mem (hx : ¬ inHeld bs x) :
    (boot c other batch bs).zone.page x = (memmapInitZone c other).page x := by
  induction bs with
  | nil => rfl
  | cons b bs ih =>
    rw [inHeld_cons, not_or] at hx
    exact (if_neg hx.1).trans (ih hx.2)

theorem boot_rest (other : ℕ → Page) (batch : ℕ → ℕ) (bs : List Block) :
    (boot c other batch bs).zone.freeArea = (memmapInitZone c other).freeArea ∧
    (boot c other batch bs).zone.pageblock = (memmapInitZone c other).pageblock ∧
    (boot c other batch bs).zone.nrFreePages = 0 := by
  induction bs with
  | nil => exact ⟨rfl, rfl, rfl⟩
  | cons b bs ih => exact ih

theorem boot_count (hap : bs.Pairwise fun b b' => ∀ x ∈ b, x ∉ b') {b : Block} (hb : b ∈ bs)
    (hx : x ∈ b) :
    ((boot c other batch bs).zone.page x).count = if x = b.start then 1 else 0 := by
  induction bs with
  | nil => exact absurd hb List.not_mem_nil
  | cons d bs ih =>
    obtain ⟨hd, hrest⟩ := List.pairwise_cons.mp hap
    rcases List.mem_cons.mp hb with rfl | hb
    · exact congrArg Page.count (if_pos hx)
    · have hxd : x ∉ d := fun hxd => hd b hb x hxd hx
      exact (congrArg Page.count (if_neg hxd)).trans (ih hrest hb)

theorem boot_blocks (bs : List Block) : blocks c (boot c other batch bs).zone = ∅ := by
  refine Set.eq_empty_of_forall_notMem ?_
  rintro b ⟨hh, hm⟩
  rw [Page.mark_eq_none.mpr (boot_flags hh bs)] at hm
  cases hm

theorem boot_tidy (bs : List Block) : Tidy c (boot c other batch bs).zone := by
  obtain ⟨ha, -, -⟩ := boot_rest (c := c) other batch bs
  have hno : ∀ p, c.Here p → ((boot c other batch bs).zone.page p).buddy = false :=
    fun p hp => (boot_flags hp bs).1
  have hnil : ∀ o mt, ((boot c other batch bs).zone.freeArea o).freeList mt = [] := by
    intro o mt
    rw [ha]
    rfl
  refine ⟨?_, ?_, fun p hp _ => hno p hp, ?_, ?_, ?_, ?_, ?_⟩
  · rw [boot_blocks]
    exact tiling_empty
  · intro b hb
    rw [boot_blocks] at hb
    exact hb.elim
  · intro o mt p hp
    rw [hnil] at hp
    exact absurd hp List.not_mem_nil
  · intro p hp hb
    rw [hno p hp] at hb
    cases hb
  · intro o mt
    rw [hnil]
    exact List.nodup_nil
  · intro o mt mt' p hp
    rw [hnil] at hp
    exact absurd hp List.not_mem_nil
  · intro o
    simp only [hnil, List.length_nil, Nat.cast_zero, Finset.sum_const_zero]
    rw [ha]
    rfl

theorem BootOk.sound (h : BootOk c bs) (other : ℕ → Page) (batch : ℕ → ℕ) :
    Sound (Policy.plain c) {x | inHeld bs x} (boot c other batch bs) := by
  obtain ⟨ha, hpb, -⟩ := boot_rest (c := c) other batch bs
  have hshare : ∀ cpu, share {x | inHeld bs x} (boot c other batch bs).pcp bs cpu = ∅ :=
    fun cpu => Set.eq_empty_of_forall_notMem fun x hx => hx.2.1 hx.1
  have hcov : ∀ x, x ∉ covered c (boot c other batch bs).zone := by
    rintro x ⟨b, hb, -⟩
    rw [boot_blocks] at hb
    exact hb
  have hnil : ∀ o mt, ((boot c other batch bs).zone.freeArea o).freeList mt = [] := by
    intro o mt
    rw [ha]
    rfl
  refine ⟨fun cpu => ?_, fun cpu => setupPageset_ok (batch cpu), fun b hb => ?_, h.apart, ?_⟩
  · change Local (Policy.plain c) (share {x | inHeld bs x} (boot c other batch bs).pcp bs cpu) _ fun _ => []
    rw [hshare]
    have hkind : ∀ i, (Policy.plain c).kinds ((boot c other batch bs).zone.pageblock i) := by
      intro i
      rw [hpb, memmapInitZone]
      dsimp only
      split_ifs
      · exact (Policy.plain c).pcp _ rfl
      · exact (Policy.plain c).pcp _ rfl
    refine ⟨boot_tidy bs, fun x => ?_, ?_, ?_, fun _ => List.nodup_nil, fun _ _ => rfl,
      fun x hx => hx.elim, fun x hx => hx.elim, ?_, fun x => ?_, ?_, ?_, fun i _ => hkind i, ?_,
      fun _ x hx => (boot_flags hx bs).2⟩
    · simp only [Set.mem_empty_iff_false, hcov, List.not_mem_nil, exists_false, or_self]
    · exact fun mt x hx => absurd hx List.not_mem_nil
    · exact fun mt mt' x hx => absurd hx List.not_mem_nil
    · intro o mt p hp
      rw [hnil] at hp
      exact absurd hp List.not_mem_nil
    · exact iff_of_false (Set.notMem_empty x) (hkind _).1
    · exact fun mt x hx => absurd hx List.not_mem_nil
    · intro o mt p hp
      rw [hnil] at hp
      exact absurd hp List.not_mem_nil
    · exact fun mt x hx => absurd hx List.not_mem_nil
  · refine ⟨h.aligned b hb, h.order_lt b hb, fun x hx => ⟨b, hb, hx⟩, ?_, fun x hx hne => ?_⟩
    · rw [boot_count h.apart hb b.start_mem, if_pos rfl]
      exact Nat.one_pos
    · rw [boot_count h.apart hb hx, if_neg hne]
  · rintro x ⟨b, hb, hx⟩
    exact h.here b hb x hx

inductive Place
  | free
  | listed (cpu : ℕ) (mt : Migratetype)
  | held (b : Block)

def At (c : Config) (s : System) (x : ℕ) : Place → Prop
  | .free => x ∈ covered c s.zone
  | .listed cpu mt => x ∈ (s.pcp cpu).lists mt
  | .held b => b ∈ s.held ∧ x ∈ b

variable {P : Policy c} {M : Set ℕ}

/-- A page of `M` is in one place, and no other page is anywhere. -/
theorem Sound.place (h : Sound P M s) (x : ℕ) :
    ((∃ pl, At c s x pl) ↔ x ∈ M) ∧ ∀ pl pl', At c s x pl → At c s x pl' → pl = pl' := by
  have hfree : x ∈ covered c s.zone → ∀ cpu, x ∈ Pages.share M s.pcp s.held cpu :=
    fun hx cpu => ((h.share cpu).mem x).mpr (Or.inl hx)
  have hlisted : ∀ cpu mt, x ∈ (s.pcp cpu).lists mt → x ∈ Pages.share M s.pcp s.held cpu :=
    fun cpu mt hx => h.share_of_list hx
  have hheld : ∀ b, b ∈ s.held ∧ x ∈ b → ∀ cpu, x ∉ Pages.share M s.pcp s.held cpu :=
    fun b hb cpu => not_share hb.1 hb.2
  constructor
  · constructor
    · rintro ⟨pl, hpl⟩
      cases pl with
      | free => exact (hfree hpl 0).1
      | listed cpu mt => exact (hlisted cpu mt hpl).1
      | held b => exact (h.held b hpl.1).sub x hpl.2
    · intro hM
      by_cases hh : inHeld s.held x
      · obtain ⟨b, hb, hx⟩ := hh
        exact ⟨.held b, hb, hx⟩
      · by_cases hl : ∃ cpu mt, x ∈ (s.pcp cpu).lists mt
        · obtain ⟨cpu, mt, hx⟩ := hl
          exact ⟨.listed cpu mt, hx⟩
        · simp only [not_exists] at hl
          have hsh : x ∈ Pages.share M s.pcp s.held 0 := ⟨hM, hh, fun cpu _ mt => hl cpu mt⟩
          exact ⟨.free, (((h.share 0).mem x).mp hsh).resolve_right fun ⟨mt, hmt⟩ => hl 0 mt hmt⟩
  · have hfl : ∀ cpu mt, x ∈ covered c s.zone → x ∉ (s.pcp cpu).lists mt :=
      fun cpu mt hx hmt => (h.share cpu).out mt x hmt hx
    have hll : ∀ cpu mt cpu' mt', x ∈ (s.pcp cpu).lists mt → x ∈ (s.pcp cpu').lists mt' →
        cpu = cpu' ∧ mt = mt' := by
      intro cpu mt cpu' mt' hx hx'
      have hcpu : cpu = cpu' := by
        by_contra hne
        exact (hlisted cpu' mt' hx').2.2 cpu hne mt hx
      subst hcpu
      exact ⟨rfl, (h.share cpu).single mt mt' x hx hx'⟩
    intro pl pl' hp hp'
    cases pl with
    | free =>
      cases pl' with
      | free => rfl
      | listed cpu mt => exact absurd hp' (hfl cpu mt hp)
      | held b => exact absurd (hfree hp 0) (hheld b hp' 0)
    | listed cpu mt =>
      cases pl' with
      | free => exact absurd hp (hfl cpu mt hp')
      | listed cpu' mt' =>
        obtain ⟨rfl, rfl⟩ := hll cpu mt cpu' mt' hp hp'
        rfl
      | held b => exact absurd (hlisted cpu mt hp) (hheld b hp' cpu)
    | held b =>
      cases pl' with
      | free => exact absurd (hfree hp' 0) (hheld b hp 0)
      | listed cpu mt => exact absurd (hlisted cpu mt hp') (hheld b hp cpu)
      | held b' => rw [h.held_eq hp.1 hp'.1 hp.2 hp'.2]

theorem BootOk.exec (h : BootOk c bs) {as : List Action}
    (ht : Lts.exec (next c) as (boot c other batch bs) = some t) :
    Step (Policy.plain c) {x | inHeld bs x} (boot c other batch bs) t :=
  (h.sound other batch).exec ht

/-- In every run from boot each page that was handed over is free, on the list of one CPU, or in one
block that is held; the free blocks are aligned, apart and merged as far as they can be, and the free
lists hold exactly their heads. No call hangs. -/
theorem run_partition (h : BootOk c bs) {as : List Action}
    (ht : Lts.exec (next c) as (boot c other batch bs) = some t) :
    (∀ x, ((∃ pl, At c t x pl) ↔ inHeld bs x) ∧
      ∀ pl pl', At c t x pl → At c t x pl' → pl = pl') ∧
    Tidy c t.zone ∧ (∀ cpu, ((t.pcp cpu).count : ℤ) = total (t.pcp cpu).lists) ∧
    ∀ a : Action, a.Allowed c t → ∃ u, next c t a = some u := by
  have hs := (h.exec ht).sound
  exact ⟨hs.place, (hs.share 0).tidy, fun cpu => (hs.ok cpu).count, fun a ha => hs.exists_next ha⟩

def fourPages : Config where
  maxOrder := 2
  pageblockOrder := 1
  debugGuardpageMinorder := 0
  cma := false
  pageGroupByMobilityDisabled := false
  zoneStartPfn := 0
  spannedPages := 4
  zoneId := 0
  pfnValid p := decide (p < 4)
  pfnValidWithin p := decide (p < 4)
  pageZoneId _ := 0
  pageShift := 12
  maxOrder_pos := by decide
  pageShift_pos := by decide
  valid := fun _ h => h
  span := fun p h => iff_of_true rfl ⟨Nat.zero_le p, by simpa using h⟩

def fourPagesBoot : System :=
  boot fourPages (fun _ => ⟨false, false, 0, 0⟩) (fun _ => 1) [⟨0, 1⟩, ⟨2, 1⟩]

theorem fourPages_here : fourPages.Here x ↔ x < 4 :=
  ⟨fun h => of_decide_eq_true h.1, fun h => ⟨decide_eq_true h, rfl⟩⟩

theorem fourPages_bootOk : BootOk fourPages [⟨0, 1⟩, ⟨2, 1⟩] where
  aligned := by
    simp only [List.forall_mem_cons, List.not_mem_nil, false_implies, implies_true, and_true]
    exact ⟨⟨0, rfl⟩, ⟨1, rfl⟩⟩
  order_lt := by decide
  here := by
    simp only [List.forall_mem_cons, List.not_mem_nil, false_implies, implies_true, and_true,
      Block.mem_def, fourPages_here]
    constructor <;> intros <;> omega
  apart := by
    simp only [List.pairwise_cons, List.mem_singleton, forall_eq, Block.mem_def, List.not_mem_nil,
      false_implies, implies_true, List.Pairwise.nil, and_true]
    intros
    omega

def fourPagesRun : List Action :=
  [.free 0 ⟨0, 1⟩ false, .alloc 0 0 .movable ⟨false, false, false⟩, .free 0 ⟨2, 1⟩ false,
    .alloc 0 0 .movable ⟨false, false, false⟩, .free 0 ⟨0, 0⟩ false]

theorem fourPages_isSome : (Lts.exec (next fourPages) fourPagesRun fourPagesBoot).isSome = true := by
  decide

def fourPagesEnd : System :=
  (Lts.exec (next fourPages) fourPagesRun fourPagesBoot).get fourPages_isSome

theorem fourPages_end : Lts.exec (next fourPages) fourPagesRun fourPagesBoot = some fourPagesEnd :=
  (Option.some_get _).symm

theorem run_partition_fourPages : (∃ pl, At fourPages fourPagesEnd 3 pl) ∧
    ∃ u, next fourPages fourPagesEnd (.free 0 ⟨1, 0⟩ false) = some u := by
  obtain ⟨hplace, -, -, hnext⟩ := run_partition fourPages_bootOk fourPages_end
  refine ⟨(hplace 3).1.mpr ⟨⟨2, 1⟩, by decide, ⟨by decide, by decide⟩⟩, hnext _ ?_⟩
  change (⟨1, 0⟩ : Block) ∈ fourPagesEnd.held
  decide

def eightPages : Config where
  maxOrder := 4
  pageblockOrder := 2
  debugGuardpageMinorder := 0
  cma := false
  pageGroupByMobilityDisabled := false
  zoneStartPfn := 0
  spannedPages := 8
  zoneId := 0
  pfnValid p := decide (p < 8)
  pfnValidWithin p := decide (p < 8)
  pageZoneId _ := 0
  pageShift := 12
  maxOrder_pos := Nat.succ_pos 3
  pageShift_pos := by decide
  valid := fun _ h => h
  span := fun p h => iff_of_true rfl ⟨Nat.zero_le p, by simpa using h⟩

def eightPagesBoot : System := boot eightPages (fun _ => ⟨false, false, 0, 0⟩) (fun _ => 1) [⟨0, 3⟩]

theorem eightPages_here : eightPages.Here x ↔ x < 8 :=
  ⟨fun h => of_decide_eq_true h.1, fun h => ⟨decide_eq_true h, rfl⟩⟩

theorem eightPages_bootOk : BootOk eightPages [⟨0, 3⟩] where
  aligned := List.forall_mem_singleton.mpr ⟨0, rfl⟩
  order_lt := by decide
  here := by
    rintro b hb x hx
    obtain rfl := List.mem_singleton.mp hb
    obtain ⟨-, hu⟩ := Block.mem_def.mp hx
    exact eightPages_here.mpr hu
  apart := List.pairwise_singleton ..

end AndroidKernel.Pages
