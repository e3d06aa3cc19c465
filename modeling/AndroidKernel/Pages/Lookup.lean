import AndroidKernel.Pages.Counts

/-! The two ways in which the rest of the kernel asks which pages are free: `is_free_buddy_page`
looks at the marks, `mark_free_pages` goes through the lists. -/

namespace AndroidKernel.Pages
open DyadicBlocks Migratetype Lts

variable {c : Config} {z : Zone} {p o : ℕ} {t : System}

def isFreeBuddyPage (c : Config) (z : Zone) (p : ℕ) : Bool :=
  (List.range c.maxOrder).any fun order =>
    let pageHead := p - (p &&& ((1 <<< order) - 1))
    (z.page pageHead).buddy && decide (order ≤ (z.page pageHead).priv)

def allMigratetypes : List Migratetype := [.unmovable, .reclaimable, .movable, .reserve, .cma, .isolate]

def setPagesFree (order : ℕ) (free : ℕ → Bool) (head : ℕ) : ℕ → Bool :=
  fun p => if head ≤ p ∧ p < head + 1 <<< order then true else free p

def markFreePages (c : Config) (z : Zone) (pfnValid forbidden free : ℕ → Bool) : ℕ → Bool :=
  if c.spannedPages = 0 then free
  else
    let free := fun p =>
      if (c.zoneStartPfn ≤ p ∧ p < c.zoneStartPfn + c.spannedPages) ∧ pfnValid p ∧ !forbidden p then false
      else free p
    (List.range c.maxOrder).foldl (fun free order =>
      allMigratetypes.foldl (fun free mt =>
        ((z.freeArea order).freeList mt).foldl (setPagesFree order) free) free) free

/-- A block of another zone has no page of this one. -/
def ForeignApart (c : Config) (page : ℕ → Page) : Prop :=
  ∀ p, ¬ c.Here p → (page p).buddy = true → ∀ x ∈ (⟨p, (page p).priv⟩ : Block), ¬ c.Here x

theorem head_eq_around (p o : ℕ) : p - (p &&& ((1 <<< o) - 1)) = (Block.around p o).start := by
  rw [Nat.one_shiftLeft, Nat.and_two_pow_sub_one_eq_mod]
  exact Nat.sub_eq_of_eq_add (Nat.div_add_mod p (2 ^ o)).symm

theorem isFreeBuddyPage_iff (h : Tidy c z) (hf : ForeignApart c z.page) (hp : c.Here p) :
    isFreeBuddyPage c z p = true ↔ p ∈ freePagesSet c z := by
  simp only [isFreeBuddyPage, List.any_eq_true, List.mem_range, Bool.and_eq_true, decide_eq_true_eq,
    head_eq_around]
  constructor
  · rintro ⟨order, -, hb, hle⟩
    obtain ⟨hl, hu⟩ := Block.mem_def.mp (Block.mem_around p order)
    rw [Block.around_order] at hu
    generalize (Block.around p order).start = q at hb hle hl hu
    have hmem : p ∈ (⟨q, (z.page q).priv⟩ : Block) :=
      ⟨hl, hu.trans_le (Nat.add_le_add_left (Nat.pow_le_pow_right Nat.two_pos hle) _)⟩
    by_cases hh : c.Here q
    · exact ⟨⟨q, (z.page q).priv⟩, ⟨⟨hh, Page.mark_of_buddy hb⟩, hb⟩, hmem⟩
    · exact absurd hp (hf q hh hb p hmem)
  · rintro ⟨b, ⟨hb, hbud⟩, hx⟩
    have hlt := h.tiling.order_le b hb
    have hpos := c.maxOrder_pos
    have haround := (h.tiling.aligned b hb).eq_around hx
    have hpriv := (Page.mark_eq_some.mp hb.2).2
    refine ⟨b.order, by omega, ?_⟩
    rw [← haround]
    exact ⟨hbud, hpriv.ge⟩

theorem foldl_set_iff {ι : Type} {f : (ℕ → Bool) → ι → ℕ → Bool} {R : ι → Prop}
    (hstep : ∀ free i, f free i p = true ↔ free p = true ∨ R i) (l : List ι) (free : ℕ → Bool) :
    l.foldl f free p = true ↔ free p = true ∨ ∃ i ∈ l, R i := by
  induction l generalizing free with
  | nil => simp only [List.foldl_nil, List.not_mem_nil, false_and, exists_false, or_false]
  | cons i l ih => simp only [List.foldl_cons, ih, hstep, List.mem_cons, exists_eq_or_imp, or_assoc]

theorem mem_allMigratetypes (mt : Migratetype) : mt ∈ allMigratetypes := by
  cases mt <;> decide

theorem Tidy.mem_freePagesSet (h : Tidy c z) : p ∈ freePagesSet c z ↔
    ∃ order < c.maxOrder, ∃ mt, ∃ q ∈ (z.freeArea order).freeList mt, p ∈ (⟨q, order⟩ : Block) := by
  constructor
  · rintro ⟨b, hb, hx⟩
    obtain ⟨mt, hmt⟩ := h.mem_freeBlocks.mp hb
    exact ⟨b.order, h.order_lt hmt, mt, b.start, hmt, hx⟩
  · rintro ⟨order, -, mt, q, hq, hx⟩
    exact ⟨⟨q, order⟩, h.mem_freeBlocks.mpr ⟨mt, hq⟩, hx⟩

theorem markFreePages_iff (h : Tidy c z) {pfnValid forbidden free : ℕ → Bool} (hp : c.Here p)
    (hv : pfnValid p = true) (hf : forbidden p = false) :
    markFreePages c z pfnValid forbidden free p = true ↔ p ∈ freePagesSet c z := by
  have hspan := (c.span p hp.1).mp hp.2
  have hset : ∀ order (free : ℕ → Bool) head, setPagesFree order free head p = true ↔
      free p = true ∨ p ∈ (⟨head, order⟩ : Block) := by
    intro order free head
    rw [setPagesFree, Nat.one_shiftLeft, Block.mem_def]
    split_ifs with hin
    · simp only [hin, and_self, or_true]
    · simp only [hin, or_false]
  have hlist := fun order mt => foldl_set_iff (hset order) ((z.freeArea order).freeList mt)
  have htype := fun order => foldl_set_iff (fun free mt => hlist order mt free) allMigratetypes
  have hall := foldl_set_iff (fun free order => htype order free) (List.range c.maxOrder)
  unfold markFreePages
  rw [if_neg (by omega), hall, h.mem_freePagesSet, if_pos ⟨hspan, hv, by rw [hf]; rfl⟩]
  simp only [Bool.false_eq_true, false_or, List.mem_range, mem_allMigratetypes, true_and]

/-- In every run from boot `is_free_buddy_page` and `mark_free_pages` agree on which pages of the zone
are free, and what they say is true. -/
theorem run_free_pages {other : ℕ → Page} {batch : ℕ → ℕ} {bs : List Block} (h : BootOk c bs)
    (hother : ForeignApart c other) {as : List Action}
    (ht : Lts.exec (next c) as (boot c other batch bs) = some t) (hp : c.Here p)
    (pfnValid forbidden free : ℕ → Bool) (hv : pfnValid p = true) (hf : forbidden p = false) :
    (isFreeBuddyPage c t.zone p = true ↔ p ∈ freePagesSet c t.zone) ∧
      markFreePages c t.zone pfnValid forbidden free p = isFreeBuddyPage c t.zone p := by
  have hstep := h.exec ht
  have htidy := (hstep.sound.share 0).tidy
  have hforeign : ForeignApart c t.zone.page := by
    intro q hq hb
    have hout : ¬ inHeld bs q := fun ⟨b, hb, hqb⟩ => hq (h.here b hb q hqb)
    have hsame : t.zone.page q = other q := by
      rw [hstep.frame q hout, boot_page_of_not_mem hout]
      exact if_neg hq
    rw [hsame] at hb ⊢
    exact hother q hq hb
  have hbuddy := isFreeBuddyPage_iff htidy hforeign hp
  refine ⟨hbuddy, Bool.eq_iff_iff.mpr ?_⟩
  rw [markFreePages_iff htidy hp hv hf, hbuddy]

theorem run_free_pages_fourPages : 3 ∈ freePagesSet fourPages fourPagesEnd.zone ∧
    markFreePages fourPages fourPagesEnd.zone (fun _ => true) (fun _ => false) (fun _ => false) 3 =
      true := by
  have hother : ForeignApart fourPages fun _ => ⟨false, false, 0, 0⟩ := fun _ _ hb => by cases hb
  have hyes : isFreeBuddyPage fourPages fourPagesEnd.zone 3 = true := by decide
  obtain ⟨hfree, hmark⟩ := run_free_pages fourPages_bootOk hother fourPages_end
    (show fourPages.Here 3 from fourPages_here.mpr (by decide)) (fun _ => true) (fun _ => false)
    (fun _ => false) rfl rfl
  exact ⟨hfree.mp hyes, hmark.trans hyes⟩

/-- In every run from boot a block that is freed is merged into a block of the zone, which goes to the
tail of its list if the next merge only waits for its buddy and it is the lower half of what they make
up. An upper half always goes to the head, since its higher buddy is looked up in the wrong place. -/
theorem run_placement {other : ℕ → Page} {batch : ℕ → ℕ} {bs : List Block} (h : BootOk c bs)
    (hf : ∀ p o, ¬ c.Here p → (other p).mark = some o → 2 ^ o ∣ p) {as : List Action} {t : System}
    (ht : Lts.exec (next c) as (boot c other batch bs) = some t) {b : Block}
    (hb : Loose c t.zone b) (mt : Migratetype) :
    ∃ d ∈ blocks c (freeOnePage' c t.zone b.start b.order mt), (∀ x ∈ b, x ∈ d) ∧
      Placed c t.zone (freeOnePage' c t.zone b.start b.order mt) mt d := by
  have hstep := h.exec ht
  have hforeign : ForeignAligned c t.zone := by
    intro p o hp hm
    have hM : p ∉ {x | inHeld bs x} := fun ⟨e, he, hpe⟩ => hp (h.here e he p hpe)
    rw [hstep.frame p hM, boot_page_of_not_mem hM] at hm
    change (if c.Here p then _ else other p).mark = some o at hm
    rw [if_neg hp] at hm
    exact hf p o hp hm
  obtain ⟨d, hd, hplace⟩ := freeOnePage'_spec (hstep.sound.share 0).tidy hb mt
  have hin : d.start ∈ ((freeOnePage' c t.zone b.start b.order mt).freeArea d.order).freeList mt :=
    (hd.lists _ _ _).mpr (Or.inl ⟨rfl, rfl⟩)
  exact ⟨d, hd.tidy.mem_blocks_of_list hin, hd.grown, hplace hforeign⟩

def eightPagesRun : List Action :=
  [.split ⟨0, 3⟩, .free 0 ⟨2, 0⟩ false, .free 0 ⟨3, 0⟩ false, .free 0 ⟨4, 0⟩ false, .drain 0]

theorem eightPagesRun_isSome :
    (Lts.exec (next eightPages) eightPagesRun eightPagesBoot).isSome = true := by decide

def eightPagesHalf : System :=
  (Lts.exec (next eightPages) eightPagesRun eightPagesBoot).get eightPagesRun_isSome

/-- Page 0 is the lower half of the block next to that of 2 and 3, and page 1 the upper half. -/
theorem run_placement_eightPages :
    ((freeOnePage' eightPages eightPagesHalf.zone 0 0 .movable).freeArea 0).freeList .movable =
        (eightPagesHalf.zone.freeArea 0).freeList .movable ++ [0] ∧
      ((freeOnePage' eightPages eightPagesHalf.zone 1 0 .movable).freeArea 0).freeList .movable =
        1 :: (eightPagesHalf.zone.freeArea 0).freeList .movable := by
  have hs := (eightPages_bootOk.exec (Option.some_get eightPagesRun_isSome).symm).sound
  have hheld : ∀ p < 2, (⟨p, 0⟩ : Block) ∈ eightPagesHalf.held := by decide
  have hloose : ∀ p < 2, Loose eightPages eightPagesHalf.zone ⟨p, 0⟩ := by
    intro p hp
    refine ⟨⟨p, (Nat.one_mul p).symm⟩, show 0 < 4 by decide, fun x hx => eightPages_here.mpr ?_,
      fun x hx hc => ?_⟩
    · obtain ⟨-, hu⟩ := Block.mem_def.mp hx
      change x < p + 1 at hu
      omega
    · cases (hs.place x).2 .free (.held _) hc ⟨hheld p hp, hx⟩
  -- the freed page is not merged
  have hmark : ∀ p < 2, ∀ q < 2, ((freeOnePage' eightPages eightPagesHalf.zone p 0 .movable).page
      q).mark = if q = p then some 0 else none := by decide
  have hplaced : ∀ p < 2, Placed eightPages eightPagesHalf.zone
      (freeOnePage' eightPages eightPagesHalf.zone p 0 .movable) .movable ⟨p, 0⟩ := by
    intro p hp
    obtain ⟨⟨q, o⟩, hd, hsub, hpl⟩ := run_placement eightPages_bootOk (fun p o _ hm => by cases hm)
      (Option.some_get eightPagesRun_isSome).symm (hloose p hp) .movable
    obtain ⟨hle, -⟩ := Block.mem_def.mp (hsub p (Block.start_mem ⟨p, 0⟩))
    have hq : ((freeOnePage' eightPages eightPagesHalf.zone p 0 .movable).page q).mark = some o := hd.2
    rw [hmark p hp q (lt_of_le_of_lt hle hp)] at hq
    split_ifs at hq with hqp
    obtain rfl := Option.some.inj hq
    subst hqp
    exact hpl
  constructor
  · refine (hplaced 0 (by decide)).tail ⟨by decide, by decide, by decide, ?_⟩
    exact ⟨eightPages_here.mpr (by decide), by decide⟩
  · refine (hplaced 1 (by decide)).head ?_
    rintro ⟨-, -, hodd, -⟩
    exact absurd hodd (by decide)

end AndroidKernel.Pages
