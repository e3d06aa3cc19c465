import AndroidKernel.Pages.System

/-! The blocks in the hands of callers. An allocation adds one, freeing the last reference to it
takes it away, and references and `split_page` change what its pages say. -/

namespace AndroidKernel.Pages
open DyadicBlocks Migratetype Lts

variable {c : Config} {P : Policy c} {M S : Set ℕ} {s t : System} {z z' : Zone} {pcp' : Pcp} {b b' : Block}
  {held' : List Block} {cpu cpu' x : ℕ} {mt : Migratetype}

theorem Sound.allocated (h : Sound P M s)
    (ha : Allocated P (Pages.share M s.pcp s.held cpu) s.zone z' (s.pcp cpu) pcp' b) :
    Step P M s ⟨z', Function.update s.pcp cpu pcp', b :: s.held⟩ := by
  have hM : ∀ x ∈ b, x ∈ M := fun x hx => (ha.mem x hx).1
  refine ⟨?_, fun x hx => ha.evolves.frame x fun hsh => hx hsh.1, ?_⟩
  case refine_2 =>
    have hcount := ncard_uncounted (P := P) h.finite ha.aligned ha.order_lt hM
      fun x hx => (ha.mem x hx).2.1
    rw [ha.evolves.lag]
    dsimp only
    linarith
  refine h.update ha.evolves.isLocal ((h.ok cpu).of_kept ha.kept) (fun x => ?_) (fun x hx => ?_)
    (fun _ hne _ _ hx => frame_list ha.evolves.frame hne hx) (fun d hd => ?_) ?_
  · rw [Pages.share, Pages.share, Set.mem_ofPred_eq, Set.mem_ofPred_eq, Set.mem_ofPred_eq,
      inHeld_cons, not_or]
    constructor
    · rintro ⟨⟨hM, hh, hno⟩, hxb⟩
      exact ⟨hM, ⟨hxb, hh⟩, hno⟩
    · rintro ⟨hM, ⟨hxb, hh⟩, hno⟩
      exact ⟨⟨hM, hh, hno⟩, hxb⟩
  · rcases inHeld_cons.mp hx with hx | hx
    · exact Or.inr (ha.mem x hx)
    · exact Or.inl hx
  · rcases List.mem_cons.mp hd with rfl | hd
    · exact ⟨ha.aligned, ha.order_lt, hM, by rw [ha.head]; exact one_pos, ha.tail⟩
    · exact (h.held d hd).of_count fun x hx => by rw [ha.evolves.frame x (not_share hd hx)]
  · exact List.pairwise_cons.mpr ⟨fun d hd x hx hxd => not_share hd hxd (ha.mem x hx), h.apart⟩

theorem Sound.recount (h : Sound P M s)
    (hp : ∀ x, (z'.page x).buddy = (s.zone.page x).buddy ∧
      (z'.page x).guard = (s.zone.page x).guard ∧ (z'.page x).priv = (s.zone.page x).priv)
    (ha : z'.freeArea = s.zone.freeArea) (hpb : z'.pageblock = s.zone.pageblock)
    (hc : ∀ x, ¬ inHeld s.held x → (z'.page x).count = (s.zone.page x).count)
    (hin : ∀ x, inHeld held' x ↔ inHeld s.held x) (hblocks : ∀ b ∈ held', HeldOk c M z' b)
    (hapart : held'.Pairwise fun b b' => ∀ x ∈ b, x ∉ b') (hn : z'.nrFreePages = s.zone.nrFreePages) :
    Step P M s ⟨z', s.pcp, held'⟩ := by
  have hmark : ∀ x, (z'.page x).mark = (s.zone.page x).mark := by
    intro x
    obtain ⟨hb, hg, hpr⟩ := hp x
    rw [Page.mark, Page.mark, hb, hg, hpr]
  have hl := (h.share 0).congr (fun p _ => hmark p) (fun p _ => (hp p).1) (fun p _ => (hp p).2.1)
    (fun p hps => hc p hps.2.1) (fun _ p _ => (hp p).2.2) ha hpb
  have hrest : ∀ x, ¬ inHeld s.held x → z'.page x = s.zone.page x := by
    intro x hx
    obtain ⟨hb, hg, hpr⟩ := hp x
    exact Page.ext hb hg hpr (hc x hx)
  have hshare : ∀ x, x ∈ Pages.share M s.pcp s.held 0 ↔ x ∈ Pages.share M s.pcp held' 0 := by
    intro x
    rw [Pages.share, Pages.share, Set.mem_ofPred_eq, Set.mem_ofPred_eq, hin]
  have hu := h.update hl (h.ok 0) hshare (fun x hx => Or.inl ((hin x).mp hx))
    (fun cpu' _ mt x hx => hrest x (h.share_of_list hx).2.1) hblocks hapart
  rw [Function.update_eq_self] at hu
  refine ⟨hu, fun x hx => hrest x fun hxh => ?_, ?_⟩
  · obtain ⟨b, hb, hxb⟩ := hxh
    exact hx ((h.held b hb).sub x hxb)
  · have hlisted : listedPages c z' = listedPages c s.zone := listedPages_congr fun o => by rw [ha]
    simp only [lag, hlisted, hn, uncounted_congr hin]

theorem Sound.held_eq (h : Sound P M s) (hb : b ∈ s.held) (hb' : b' ∈ s.held) (hx : x ∈ b)
    (hx' : x ∈ b') : b = b' := by
  by_contra hne
  have : Std.Symm fun b b' : Block => ∀ x ∈ b, x ∉ b' := ⟨fun _ _ hbb x hx hx' => hbb x hx' hx⟩
  exact h.apart.forall hb hb' hne x hx hx'

theorem Sound.setCount (h : Sound P M s) (hb : b ∈ s.held) {n : ℕ} (hn : 0 < n) :
    Step P M s
      ⟨s.zone.setPage b.start { s.zone.page b.start with count := n }, s.pcp, s.held⟩ := by
  refine h.recount (fun x => ?_) rfl rfl (fun x hx => ?_) (fun _ => Iff.rfl) (fun d hd => ?_)
    h.apart rfl
  · rw [Zone.setPage_page]
    split_ifs with hxb
    · rw [hxb]
      exact ⟨rfl, rfl, rfl⟩
    · exact ⟨rfl, rfl, rfl⟩
  · rw [Zone.setPage_page, if_neg]
    rintro rfl
    exact hx ⟨b, hb, b.start_mem⟩
  · have hd' := h.held d hd
    refine ⟨hd'.aligned, hd'.order_lt, hd'.sub, ?_, fun x hx hne => ?_⟩
    · rw [Zone.setPage_page]
      split_ifs
      · exact hn
      · exact hd'.head
    · rw [Zone.setPage_page, if_neg]
      · exact hd'.tail x hx hne
      · rintro rfl
        exact hne (congrArg Block.start (h.held_eq hd hb hx b.start_mem)).symm

theorem Sound.get (h : Sound P M s) (hb : b ∈ s.held) :
    Step P M s { s with zone := getPage s.zone b.start } :=
  h.setCount hb (Nat.succ_pos _)

theorem mem_pagesOf : b' ∈ pagesOf b ↔ ∃ i < 2 ^ b.order, b' = ⟨b.start + i, 0⟩ := by
  simp only [pagesOf, List.mem_map, List.mem_range]
  exact exists_congr fun i => and_congr_right fun _ => eq_comm

theorem inHeld_pagesOf : inHeld (pagesOf b) x ↔ x ∈ b := by
  constructor
  · rintro ⟨d, hd, hx⟩
    obtain ⟨i, hi, rfl⟩ := mem_pagesOf.mp hd
    rw [(single_block x).mp hx]
    exact ⟨Nat.le_add_right .., Nat.add_lt_add_left hi _⟩
  · intro hx
    obtain ⟨hl, hu⟩ := Block.mem_def.mp hx
    refine ⟨⟨x, 0⟩, mem_pagesOf.mpr ⟨x - b.start, by omega, ?_⟩, Block.start_mem _⟩
    rw [Nat.add_sub_cancel' hl]

theorem pagesOf_apart (b : Block) : (pagesOf b).Pairwise fun b b' => ∀ x ∈ b, x ∉ b' := by
  refine List.pairwise_map.mpr ((List.pairwise_lt_range (n := 2 ^ b.order)).imp ?_)
  intro i j hij x hx hx'
  rw [single_block] at hx hx'
  omega

theorem inHeld_append {l l' : List Block} : inHeld (l ++ l') x ↔ inHeld l x ∨ inHeld l' x := by
  simp only [inHeld, List.mem_append, or_and_right, exists_or]

theorem Sound.split (h : Sound P M s) (hb : b ∈ s.held) :
    Step P M s ⟨splitPage s.zone b.start b.order, s.pcp, pagesOf b ++ s.held.erase b⟩ := by
  have hbok := h.held b hb
  have hpage : ∀ x, (splitPage s.zone b.start b.order).page x =
      if b.start < x ∧ x < b.start + 1 <<< b.order then { s.zone.page x with count := 1 }
        else s.zone.page x := fun _ => rfl
  have hout : ∀ x, x ∉ b → (splitPage s.zone b.start b.order).page x = s.zone.page x := by
    intro x hx
    rw [hpage, if_neg]
    rintro ⟨hl, hu⟩
    rw [Nat.one_shiftLeft] at hu
    exact hx ⟨hl.le, hu⟩
  have hrest : ∀ d ∈ s.held.erase b, d ∈ s.held ∧ ∀ x ∈ d, x ∉ b := by
    intro d hd
    refine ⟨List.mem_of_mem_erase hd, fun x hx hxb => ?_⟩
    exact ((inHeld_erase h.apart hb).mp ⟨d, hd, hx⟩).2 hxb
  refine h.recount (fun x => ?_) rfl rfl (fun x hx => ?_) (fun x => ?_) (fun d hd => ?_) ?_ rfl
  · rw [hpage]
    split_ifs <;> exact ⟨rfl, rfl, rfl⟩
  · rw [hout x fun hxb => hx ⟨b, hb, hxb⟩]
  · rw [inHeld_append, inHeld_pagesOf, inHeld_erase h.apart hb]
    constructor
    · rintro (hx | hx)
      · exact ⟨b, hb, hx⟩
      · exact hx.1
    · intro hx
      by_cases hxb : x ∈ b
      · exact Or.inl hxb
      · exact Or.inr ⟨hx, hxb⟩
  · rcases List.mem_append.mp hd with hd | hd
    · obtain ⟨i, hi, rfl⟩ := mem_pagesOf.mp hd
      refine ⟨one_dvd _, c.maxOrder_pos, fun x hx => ?_, ?_, fun x hx hne =>
        absurd ((single_block x).mp hx) hne⟩
      · rw [(single_block x).mp hx]
        exact hbok.sub _ ⟨Nat.le_add_right .., Nat.add_lt_add_left hi _⟩
      · rw [hpage]
        split_ifs with hc
        · exact Nat.one_pos
        · rw [Nat.one_shiftLeft, not_and, not_lt] at hc
          dsimp only at hc
          have hi0 : i = 0 := by
            by_contra hne
            have := hc (by omega)
            omega
          rw [hi0]
          exact hbok.head
    · obtain ⟨hmem, hdisj⟩ := hrest d hd
      exact (h.held d hmem).of_count fun x hx => by rw [hout x (hdisj x hx)]
  · refine List.pairwise_append.mpr ⟨pagesOf_apart b, h.apart.sublist (List.erase_sublist ..), ?_⟩
    intro d hd d' hd' x hx hx'
    exact (hrest d' hd').2 x hx' (inHeld_pagesOf.mp ⟨d, hd, hx⟩)

theorem Sound.released (h : Sound P M s) (hb : b ∈ s.held)
    (hr : Released P (Pages.share M s.pcp s.held cpu) s.zone z' (s.pcp cpu) pcp' b) :
    Step P M s ⟨z', Function.update s.pcp cpu pcp', s.held.erase b⟩ := by
  obtain ⟨hev, hk⟩ := hr
  have hbsub := (h.held b hb).sub
  have herase : ∀ {x}, inHeld (s.held.erase b) x ↔ inHeld s.held x ∧ x ∉ b :=
    inHeld_erase h.apart hb
  refine ⟨?_, fun x hx => hev.frame x fun hxs => hx (hxs.elim (fun hs => hs.1) (hbsub x)), ?_⟩
  case refine_2 =>
    have hcount := ncard_uncounted (P := P) h.finite (h.held b hb).aligned (h.held b hb).order_lt
      hbsub fun x hx hxe => (herase.mp hxe).2 hx
    have hall : uncounted P M (b :: s.held.erase b) = uncounted P M s.held :=
      uncounted_congr fun x => inHeld_cons_erase hb
    rw [hall] at hcount
    rw [hev.lag]
    dsimp only
    linarith
  refine h.update hev.isLocal ((h.ok cpu).of_kept hk) (fun x => ?_)
    (fun x hx => Or.inl (herase.mp hx).1) (fun cpu' hne mt x hx => ?_) (fun d hd => ?_)
    (h.apart.sublist (List.erase_sublist ..))
  · rw [Set.mem_ofPred_eq, Pages.share, Pages.share, Set.mem_ofPred_eq, Set.mem_ofPred_eq, herase]
    constructor
    · rintro (⟨hM, hh, hno⟩ | hx)
      · exact ⟨hM, fun hc => hh hc.1, hno⟩
      · refine ⟨hbsub x hx, fun hc => hc.2 hx, fun cpu' _ mt hmt => ?_⟩
        exact (h.share_of_list hmt).2.1 ⟨b, hb, hx⟩
    · rintro ⟨hM, hh, hno⟩
      by_cases hxb : x ∈ b
      · exact Or.inr hxb
      · exact Or.inl ⟨hM, fun hc => hh ⟨hc, hxb⟩, hno⟩
  · rw [hev.frame]
    rintro (hsh | hxb)
    · exact hsh.2.2 cpu' hne mt hx
    · exact (h.share_of_list hx).2.1 ⟨b, hb, hxb⟩
  · have hdh := List.mem_of_mem_erase hd
    refine (h.held d hdh).of_count fun x hx => ?_
    rw [hev.frame]
    rintro (hsh | hxb)
    · exact not_share hdh hx hsh
    · exact (herase.mp ⟨d, hd, hx⟩).2 hxb

theorem putPage_owned (cpu : ℕ) (h : Sound P M s) (hb : b ∈ s.held) (h1 : (s.zone.page b.start).count = 1) :
    Local P (Pages.share M s.pcp s.held cpu) (putPage s.zone b.start) (s.pcp cpu).lists ∧
      Owned c (Pages.share M s.pcp s.held cpu) (putPage s.zone b.start) b ∧
      ((putPage s.zone b.start).page b.start).count = 0 := by
  have hbok := h.held b hb
  have hns : b.start ∉ Pages.share M s.pcp s.held cpu := not_share hb b.start_mem
  have hmark := mark_of_not_covered (h.here _ (hbok.sub _ b.start_mem)) fun hc =>
    hns (((h.share cpu).mem _).mpr (Or.inl hc))
  refine ⟨(h.share cpu).setPage { s.zone.page b.start with count := _ } hmark rfl rfl
    (fun hs => absurd hs hns) (fun mt hl => absurd (h.share_of_list hl) hns),
    ⟨hbok.aligned, hbok.order_lt, fun x hx => h.here x (hbok.sub x hx), fun x hx => not_share hb hx,
      fun x hx hne => ?_⟩, ?_⟩
  · rw [putPage, Zone.setPage_page, if_neg hne]
    exact hbok.tail x hx hne
  · rw [putPage, Zone.setPage_page, if_pos rfl, h1]

theorem putPage_frame (p : ℕ) : ∀ x, x ≠ p → (putPage z p).page x = z.page x :=
  fun x hx => (Zone.setPage_page _ x).trans (if_neg hx)

theorem freePages_sound (h : Sound P M s) (hb : b ∈ s.held) (cpu : ℕ) (cold : Bool) :
    ∃ z' pcp', freePages c s.zone (s.pcp cpu) b.start b.order cold = some (z', pcp') ∧
      Step P M s ⟨z', Function.update s.pcp cpu pcp',
        if (s.zone.page b.start).count = 1 then s.held.erase b else s.held⟩ ∧
      ∀ x, inHeld s.held x → x ∉ b → z'.page x = s.zone.page x := by
  have hpos := (h.held b hb).head
  have hcount : ((putPage s.zone b.start).page b.start).count = (s.zone.page b.start).count - 1 := by
    rw [putPage, Zone.setPage_page, if_pos rfl]
  unfold freePages
  dsimp only
  by_cases h1 : (s.zone.page b.start).count = 1
  · obtain ⟨hloc, hown, hz⟩ := putPage_owned cpu h hb h1
    obtain ⟨z', pcp', hf, hrel⟩ := freePagesOk_spec hloc (h.ok cpu) hown hz cold
    have hall := hrel.of_note (z := s.zone) (fun x hx => putPage_frame _ x ?_) rfl
    · refine ⟨z', pcp', by rw [if_pos hz, hf], ?_, fun x ⟨d, hd, hxd⟩ hxb => ?_⟩
      · rw [if_pos h1]
        exact h.released hb hall
      · exact hall.evolves.frame x fun hx => hx.elim (not_share hd hxd) hxb
    · rintro rfl
      exact hx (Or.inr b.start_mem)
  · refine ⟨_, _, if_neg (by omega), ?_, fun x _ hxb => putPage_frame _ x ?_⟩
    · rw [if_neg h1, Function.update_eq_self]
      exact h.setCount hb (by omega)
    · rintro rfl
      exact hxb b.start_mem

end AndroidKernel.Pages
