import AndroidKernel.Pages.MoveFreepages

/-! Runs that isolate pageblocks. The free pages of an isolated pageblock are on the lists of
`MIGRATE_ISOLATE`, are not counted, and are handed out to nobody. -/

namespace AndroidKernel.Pages
open DyadicBlocks Migratetype Lts

variable {c : Config} {P Q : Policy c} {S M : Set ℕ} {z z' : Zone} {lists : Migratetype → List ℕ}
  {mt : Migratetype} {p q o endPage : ℕ} {s t : System}

def Policy.isolating (hpb : c.maxOrder ≤ c.pageblockOrder + 1) (I : Set ℕ) : Policy c where
  iso := {x | x >>> c.pageblockOrder ∈ I}
  kinds := (Policy.plain c).kinds
  block := by
    intro b hb ho x hx y hy hxI
    have he := Block.pageblock_eq (c := c) hb (by omega) hx hy
    exact (Set.mem_ofPred_eq ..).mpr (he ▸ hxI)
  pageblock := by
    intro x y he hx
    exact (Set.mem_ofPred_eq ..).mpr (he ▸ hx)
  pcp := (Policy.plain c).pcp
  reserve := (Policy.plain c).reserve
  proper := (Policy.plain c).proper

variable {hpb : c.maxOrder ≤ c.pageblockOrder + 1} {I J : Set ℕ}

theorem Local.reisolate (h : Local (Policy.isolating hpb I) S z lists)
    (hr : Regrouped c z mt (· = p >>> c.pageblockOrder) z')
    (hall : ∀ q, q >>> c.pageblockOrder = p >>> c.pageblockOrder → ∀ o u,
      q ∈ (z'.freeArea o).freeList u → u = mt)
    (hset : z'.pageblock (p >>> c.pageblockOrder) = mt)
    (hJ : ∀ i, i ∈ J ↔ if i = p >>> c.pageblockOrder then mt = .isolate else i ∈ I)
    (hk : mt ≠ .isolate → (Policy.plain c).kinds mt)
    (hlists : mt = .isolate → ∀ u, ∀ x ∈ lists u, x >>> c.pageblockOrder ≠ p >>> c.pageblockOrder) :
    Local (Policy.isolating hpb J) S z' lists := by
  have hcov : covered c z' = covered c z := by rw [covered, covered, blocks_of_eq hr.page]
  have hin : ∀ {x}, x >>> c.pageblockOrder = p >>> c.pageblockOrder →
      (x ∈ (Policy.isolating hpb J).iso ↔ mt = .isolate) := by
    intro x hx
    exact (hJ _).trans (by rw [if_pos hx])
  have hout : ∀ {x}, x >>> c.pageblockOrder ≠ p >>> c.pageblockOrder →
      (x ∈ (Policy.isolating hpb J).iso ↔ x ∈ (Policy.isolating hpb I).iso) := by
    intro x hx
    exact (hJ _).trans (by rw [if_neg hx]; exact Iff.rfl)
  have hold : ∀ {q o u}, q >>> c.pageblockOrder ≠ p >>> c.pageblockOrder →
      q ∈ (z'.freeArea o).freeList u → q ∈ (z.freeArea o).freeList u :=
    fun hq hmem => (hr.lists _ _ _ hmem).resolve_right fun hN => hq hN.2
  have hblock : ∀ {i}, i ≠ p >>> c.pageblockOrder → z'.pageblock i = z.pageblock i :=
    fun hi => (hr.pageblock _).resolve_right fun hN => hi hN.2
  refine ⟨hr.tidy, hcov ▸ h.mem, hcov ▸ h.out, h.single, h.nodup, h.typed, h.here, hr.page ▸ h.zero,
    ?_, ?_, ?_, ?_, ?_, hr.page ▸ h.kindPcp, hr.page ▸ h.noGuard⟩
  · intro o u q hq
    by_cases hqp : q >>> c.pageblockOrder = p >>> c.pageblockOrder
    · rw [hin hqp, hall q hqp o u hq]
    · rw [hout hqp]
      exact h.isoFree o u q (hold hqp hq)
  · intro x
    by_cases hxp : x >>> c.pageblockOrder = p >>> c.pageblockOrder
    · rw [hin hxp, hxp, hset]
    · rw [hout hxp, hblock hxp]
      exact h.isoBlock x
  · intro u x hx
    by_cases hxp : x >>> c.pageblockOrder = p >>> c.pageblockOrder
    · rw [hin hxp]
      exact fun hmt => hlists hmt u x hx hxp
    · rw [hout hxp]
      exact h.isoPcp u x hx
  · intro o u q hq hu
    by_cases hqp : q >>> c.pageblockOrder = p >>> c.pageblockOrder
    · obtain rfl := hall q hqp o u hq
      exact hk hu
    · exact h.kindFree o u q (hold hqp hq) hu
  · intro i hi
    by_cases hip : i = p >>> c.pageblockOrder
    · rw [hip, hset] at hi ⊢
      exact hk hi
    · rw [hblock hip] at hi ⊢
      exact h.kindBlock i hi

theorem Local.freePagesSet_eq (h : Local P S z lists) (h0 : c.debugGuardpageMinorder = 0) :
    freePagesSet c z = covered c z := by
  have hall : freeBlocks c z = blocks c z := by
    ext b
    refine ⟨fun hb => hb.1, fun hb => ⟨hb, ?_⟩⟩
    rcases (Page.mark_eq_some.mp hb.2).1 with hbud | hg
    · exact hbud
    · rw [h.noGuard h0 b.start hb.1] at hg
      cases hg
  rw [freePagesSet, hall]
  rfl

theorem Sound.freeInBlock_eq (h : Sound P M s) (h0 : c.debugGuardpageMinorder = 0)
    (hlists : ∀ cpu mt, ∀ x ∈ (s.pcp cpu).lists mt,
      x >>> c.pageblockOrder ≠ p >>> c.pageblockOrder) :
    freeInBlock c s.zone p =
      {x | x ∈ M ∧ x >>> c.pageblockOrder = p >>> c.pageblockOrder ∧ ¬ inHeld s.held x} := by
  ext x
  rw [freeInBlock, (h.share 0).freePagesSet_eq h0]
  obtain ⟨hpl, huniq⟩ := h.place x
  constructor
  · rintro ⟨hx, hxp⟩
    refine ⟨hpl.mp ⟨.free, hx⟩, hxp, ?_⟩
    rintro ⟨b, hb, hxb⟩
    cases huniq .free (.held b) hx ⟨hb, hxb⟩
  · rintro ⟨hM, hxp, hh⟩
    obtain ⟨pl, hat⟩ := hpl.mpr hM
    cases pl with
    | free => exact ⟨hat, hxp⟩
    | listed cpu mt => exact absurd hxp (hlists cpu mt x hat)
    | held b => exact absurd ⟨b, hat⟩ hh

theorem Sound.reisolate (h : Sound (Policy.isolating hpb I) M s)
    (hl : ∀ cpu, Local (Policy.isolating hpb J) (Pages.share M s.pcp s.held cpu) z' (s.pcp cpu).lists)
    (hp : z'.page = s.zone.page) : Sound (Policy.isolating hpb J) M ⟨z', s.pcp, s.held⟩ :=
  ⟨hl, h.ok, fun b hb => (h.held b hb).of_count fun x _ => by rw [hp], h.apart, h.here⟩

theorem ncard_uncounted_insert (hpb : c.maxOrder ≤ c.pageblockOrder + 1) (held : List Block) (hM : M.Finite)
    (hi : p >>> c.pageblockOrder ∉ I) :
    (uncounted (Policy.isolating hpb (insert (p >>> c.pageblockOrder) I)) M held).ncard =
      (uncounted (Policy.isolating hpb I) M held).ncard +
        {x | x ∈ M ∧ x >>> c.pageblockOrder = p >>> c.pageblockOrder ∧ ¬ inHeld held x}.ncard := by
  have hset : uncounted (Policy.isolating hpb (insert (p >>> c.pageblockOrder) I)) M held =
      uncounted (Policy.isolating hpb I) M held ∪
        {x | x ∈ M ∧ x >>> c.pageblockOrder = p >>> c.pageblockOrder ∧ ¬ inHeld held x} := by
    ext x
    constructor
    · rintro ⟨hx, hxi | hxI, hh⟩
      · exact Or.inr ⟨hx, hxi, hh⟩
      · exact Or.inl ⟨hx, hxI, hh⟩
    · rintro (⟨hx, hxI, hh⟩ | ⟨hx, hxi, hh⟩)
      · exact ⟨hx, Or.inr hxI, hh⟩
      · exact ⟨hx, Or.inl hxi, hh⟩
  rw [hset]
  refine Set.ncard_union_eq (Set.disjoint_left.mpr ?_) (hM.subset fun x hx => hx.1)
    (hM.subset fun x hx => hx.1)
  rintro x ⟨-, hxI, -⟩ ⟨-, hxi, -⟩
  change x >>> c.pageblockOrder ∈ I at hxI
  exact hi (hxi ▸ hxI)

theorem lag_of_regrouped {N : ℕ → Prop} (hr : Regrouped c z mt N z') {z'' : Zone} {n : ℤ}
    (ha : z''.freeArea = z'.freeArea) (hn : z''.nrFreePages = z'.nrFreePages + n) :
    lag c z'' = lag c z + n := by
  have hl : listedPages c z'' = listedPages c z' := listedPages_congr fun o => by rw [ha]
  have hl' := listedPages_regrouped hr
  simp only [lag, hl, hl', hn, hr.nrFreePages]
  ring

/-- What the state must be like for `set_migratetype_isolate` to isolate all of a pageblock: it lies
in the zone, it is not isolated yet, and no CPU has a page of it on its lists. -/
structure Isolatable (c : Config) (s : System) (p : ℕ) : Prop where
  here : c.Here p
  whole : Whole c p
  fresh : getPageblockMigratetype c s.zone p ≠ .isolate
  unlisted : ∀ cpu mt, ∀ x ∈ (s.pcp cpu).lists mt, x >>> c.pageblockOrder ≠ p >>> c.pageblockOrder

variable {lru : ℕ → Bool} {movable : Bool} {notify : Option ℕ}

theorem isolate_sound (h : Sound (Policy.isolating hpb I) M s) (h0 : c.debugGuardpageMinorder = 0)
    (hg : c.pageGroupByMobilityDisabled = false)
    (hi : Isolatable c s p) (hz : setMigratetypeIsolate c s.zone lru movable notify p = some z') :
    Sound (Policy.isolating hpb (insert (p >>> c.pageblockOrder) I)) M ⟨z', s.pcp, s.held⟩ ∧
      lag c z' + (uncounted (Policy.isolating hpb (insert (p >>> c.pageblockOrder) I)) M
        s.held).ncard = lag c s.zone + (uncounted (Policy.isolating hpb I) M s.held).ncard := by
  have htidy := (h.share 0).tidy
  have hset : Regrouped c s.zone .isolate (· = p >>> c.pageblockOrder)
      (setPageblockMigratetype c s.zone p .isolate) := Regrouped.setPageblock _ htidy rfl
  have hmove := moveFreepagesBlock_spec .isolate hset.tidy hi.here
  obtain ⟨hall, hcount⟩ := moveFreepagesBlock_all .isolate hpb hset.tidy hi.whole
  have hsame : freeInBlock c (setPageblockMigratetype c s.zone p .isolate) p =
      freeInBlock c s.zone p := by
    rw [freeInBlock, freeInBlock, freePagesSet_of_eq hset.page]
  rw [hsame] at hcount
  unfold setMigratetypeIsolate at hz
  generalize moveFreepagesBlock c (setPageblockMigratetype c s.zone p .isolate) p .isolate = r
    at hmove hall hcount hz
  obtain ⟨z₁, n⟩ := r
  dsimp only at hmove hall hcount hz
  have hr := hset.trans hmove
  have hz' : z' = modZoneFreepageState c z₁ (-n) (getPageblockMigratetype c s.zone p) := by
    cases notify with
    | none => cases hz
    | some pagesFound =>
      dsimp only at hz
      split_ifs at hz
      exact (Option.some.inj hz).symm
  have hblock : z₁.pageblock (p >>> c.pageblockOrder) = .isolate := by
    refine (hmove.pageblock _).elim (fun he => he.trans ?_) fun he => ?_
    · exact (Function.update_self ..).trans (groupedMigratetype_eq hg)
    · exact he.1.trans (groupedMigratetype_eq hg)
  have hI : p >>> c.pageblockOrder ∉ I :=
    fun hin => hi.fresh (((h.share 0).isoBlock p).mp hin)
  have hJ : ∀ i, i ∈ insert (p >>> c.pageblockOrder) I ↔
      if i = p >>> c.pageblockOrder then Migratetype.isolate = .isolate else i ∈ I := by
    intro i
    rw [Set.mem_insert_iff]
    split_ifs with hip
    · exact iff_of_true (Or.inl hip) rfl
    · exact or_iff_right hip
  subst hz'
  constructor
  · refine h.reisolate (fun cpu => ?_) ((modZoneFreepageState_page _).trans hr.page)
    have hloc := (h.share cpu).reisolate hr hall hblock hJ (fun hne => absurd rfl hne)
      fun _ mt x hx => hi.unlisted cpu mt x hx
    exact hloc.of_eq (modZoneFreepageState_page _) (modZoneFreepageState_freeArea _)
      (modZoneFreepageState_pageblock _)
  · rw [lag_of_regrouped hr (modZoneFreepageState_freeArea _) (modZoneFreepageState_nrFreePages _),
      ncard_uncounted_insert hpb s.held h.finite hI, ← h.freeInBlock_eq h0 hi.unlisted, ← hcount]
    push_cast
    ring

theorem unisolate_sound (h : Sound (Policy.isolating hpb I) M s)
    (h0 : c.debugGuardpageMinorder = 0) (hg : c.pageGroupByMobilityDisabled = false)
    (hh : c.Here p) (hw : Whole c p)
    (hmt : (Policy.plain c).kinds mt) :
    ∃ J, Sound (Policy.isolating hpb J) M ⟨unsetMigratetypeIsolate c s.zone p mt, s.pcp, s.held⟩ ∧
      lag c (unsetMigratetypeIsolate c s.zone p mt) +
        (uncounted (Policy.isolating hpb J) M s.held).ncard =
      lag c s.zone + (uncounted (Policy.isolating hpb I) M s.held).ncard := by
  have htidy := (h.share 0).tidy
  have hmove := moveFreepagesBlock_spec mt htidy hh
  obtain ⟨hall, hcount⟩ := moveFreepagesBlock_all mt hpb htidy hw
  unfold unsetMigratetypeIsolate
  by_cases hiso : getPageblockMigratetype c s.zone p = .isolate
  · rw [if_neg (not_not.mpr hiso)]
    generalize moveFreepagesBlock c s.zone p mt = r at hmove hall hcount
    obtain ⟨z₁, n⟩ := r
    dsimp only at hmove hall hcount ⊢
    have hset : Regrouped c z₁ mt (· = p >>> c.pageblockOrder) (setPageblockMigratetype c z₁ p mt) :=
      Regrouped.setPageblock _ hmove.tidy rfl
    have hr := hmove.trans hset
    have hI : p >>> c.pageblockOrder ∈ I := ((h.share 0).isoBlock p).mpr hiso
    have hJ : ∀ i, i ∈ I \ {p >>> c.pageblockOrder} ↔
        if i = p >>> c.pageblockOrder then mt = .isolate else i ∈ I := by
      intro i
      rw [Set.mem_sdiff, Set.mem_singleton_iff]
      split_ifs with hip
      · exact iff_of_false (fun hi => hi.2 hip) hmt.1
      · exact and_iff_left hip
    have hunlisted : ∀ cpu mt, ∀ x ∈ (s.pcp cpu).lists mt,
        x >>> c.pageblockOrder ≠ p >>> c.pageblockOrder := by
      intro cpu mt x hx hxp
      have hxI : x >>> c.pageblockOrder ∈ I := hxp ▸ hI
      exact (h.share cpu).isoPcp mt x hx hxI
    have hpage : (setPageblockMigratetype c (modZoneFreepageState c z₁ n mt) p mt).page = z₁.page :=
      modZoneFreepageState_page _
    have harea : (setPageblockMigratetype c (modZoneFreepageState c z₁ n mt) p mt).freeArea =
        z₁.freeArea := modZoneFreepageState_freeArea _
    have hcounter : (setPageblockMigratetype c (modZoneFreepageState c z₁ n mt) p mt).nrFreePages =
        z₁.nrFreePages + n := modZoneFreepageState_nrFreePages _
    have hpbl : (setPageblockMigratetype c (modZoneFreepageState c z₁ n mt) p mt).pageblock =
        (setPageblockMigratetype c z₁ p mt).pageblock := by
      simp only [setPageblockMigratetype, modZoneFreepageState_pageblock]
    refine ⟨I \ {p >>> c.pageblockOrder}, ?_, ?_⟩
    · refine h.reisolate (fun cpu => ?_) (hpage.trans hmove.page)
      have hloc := (h.share cpu).reisolate hr hall
        ((Function.update_self ..).trans (groupedMigratetype_eq hg)) hJ (fun _ => hmt) fun he => absurd he hmt.1
      exact hloc.of_eq hpage harea hpbl
    · have hins := ncard_uncounted_insert hpb s.held (I := I \ {p >>> c.pageblockOrder})
        h.finite fun hi => hi.2 rfl
      rw [Set.insert_sdiff_singleton, Set.insert_eq_of_mem hI, ← h.freeInBlock_eq h0 hunlisted,
        ← hcount] at hins
      rw [lag_of_regrouped hmove harea hcounter, hins]
      push_cast
      ring
  · rw [if_pos hiso]
    exact ⟨I, h, rfl⟩

inductive IsoAction
  | call (a : Action)
  | isolate (lru : ℕ → Bool) (movable : Bool) (notify : Option ℕ) (page : ℕ)
  | unisolate (page : ℕ) (mt : Migratetype)

def isoNext (c : Config) (s : System) : IsoAction → Option System
  | .call a => next c s a
  | .isolate lru movable notify page =>
    some { s with zone := (setMigratetypeIsolate c s.zone lru movable notify page).getD s.zone }
  | .unisolate page mt => some { s with zone := unsetMigratetypeIsolate c s.zone page mt }

/-- What is asked of a run: pageblocks are isolated as a whole, while no CPU has a page of them. -/
def IsoFit (c : Config) (s : System) : IsoAction → Prop
  | .call _ => True
  | .isolate _ _ _ page => Isolatable c s page
  | .unisolate page mt => c.Here page ∧ Whole c page ∧ (Policy.plain c).kinds mt

/-- Every page is in its place, and `NR_FREE_PAGES` counts the free pages that are not isolated. -/
def Isolating (hpb : c.maxOrder ≤ c.pageblockOrder + 1) (M : Set ℕ) (s : System) : Prop :=
  ∃ I, Sound (Policy.isolating hpb I) M s ∧
    lag c s.zone + (uncounted (Policy.isolating hpb I) M s.held).ncard = 0

theorem Isolating.next (h0 : c.debugGuardpageMinorder = 0)
    (hg : c.pageGroupByMobilityDisabled = false) (a : IsoAction) (h : Isolating hpb M s)
    (hf : IsoFit c s a) (ht : isoNext c s a = some t) : Isolating hpb M t := by
  obtain ⟨I, hs, hlag⟩ := h
  cases a with
  | call a =>
    have hstep := hs.step ht
    exact ⟨I, hstep.sound, hstep.lag.trans hlag⟩
  | isolate lru movable notify page =>
    simp only [isoNext, Option.some.injEq] at ht
    cases hz : setMigratetypeIsolate c s.zone lru movable notify page with
    | none =>
      rw [hz] at ht
      exact ht ▸ ⟨I, hs, hlag⟩
    | some z' =>
      rw [hz] at ht
      obtain ⟨hs', hlag'⟩ := isolate_sound hs h0 hg hf hz
      exact ht ▸ ⟨_, hs', hlag'.trans hlag⟩
  | unisolate page mt =>
    simp only [isoNext, Option.some.injEq] at ht
    obtain ⟨J, hs', hlag'⟩ := unisolate_sound hs h0 hg hf.1 hf.2.1 hf.2.2
    exact ht ▸ ⟨J, hs', hlag'.trans hlag⟩

variable {other : ℕ → Page} {batch : ℕ → ℕ} {bs : List Block}

theorem BootOk.isolating (h : BootOk c bs) (hpb : c.maxOrder ≤ c.pageblockOrder + 1) :
    Isolating hpb {x | inHeld bs x} (boot c other batch bs) := by
  have hP : Policy.isolating hpb ∅ = Policy.plain c := rfl
  refine ⟨∅, hP ▸ h.sound other batch, ?_⟩
  rw [hP, uncounted_plain, boot_lag, Set.ncard_empty]
  rfl

end AndroidKernel.Pages
