import AndroidKernel.Lib.Runs
import AndroidKernel.Pages.Released

/-! The page allocator of a zone as a system: its CPUs allocate, free, split and drain in any order,
callers free what they were given, and the settings of the zone change. -/

namespace AndroidKernel.Pages
open DyadicBlocks Migratetype Lts

structure System where
  zone : Zone
  pcp : ℕ → Pcp
  /-- The blocks that callers have allocated and not freed. -/
  held : List Block

/-- One call of the allocator, on a CPU where that matters. `get` is `get_page`, `splitFree` is
`split_free_page`; `highmark` comes from `percpu_pagelist_fraction`, `reserve` from
`min_free_kbytes`. -/
inductive Action
  | alloc (cpu order : ℕ) (mt : Migratetype) (g : Gfp)
  | free (cpu : ℕ) (b : Block) (cold : Bool)
  | get (b : Block)
  | split (b : Block)
  | drain (cpu : ℕ)
  | drainZone (cpu : ℕ)
  | splitFree (page lowWmark lowmemReserve : ℕ) (freePages : ℤ)
  | highmark (cpu high : ℕ)
  | reserve (otherNode pageReserved : ℕ → Bool) (minWmark : ℕ)

def pagesOf (b : Block) : List Block :=
  (List.range (2 ^ b.order)).map fun i => ⟨b.start + i, 0⟩

def getPage (z : Zone) (p : ℕ) : Zone :=
  z.setPage p { z.page p with count := (z.page p).count + 1 }

def next (c : Config) (s : System) : Action → Option System
  | .alloc cpu order mt g =>
    if mt.isPcp then
      match bufferedRmqueue c g s.zone (s.pcp cpu) order mt with
      | (some p, z, pcp) => some ⟨z, Function.update s.pcp cpu pcp, ⟨p, order⟩ :: s.held⟩
      | (none, z, pcp) => some ⟨z, Function.update s.pcp cpu pcp, s.held⟩
    else none
  | .free cpu b cold =>
    if b ∈ s.held then
      match freePages c s.zone (s.pcp cpu) b.start b.order cold with
      | some (z, pcp) => some ⟨z, Function.update s.pcp cpu pcp,
          if (s.zone.page b.start).count = 1 then s.held.erase b else s.held⟩
      | none => none
    else none
  | .get b => if b ∈ s.held then some { s with zone := getPage s.zone b.start } else none
  | .split b =>
    if b ∈ s.held then
      some { s with zone := splitPage s.zone b.start b.order, held := pagesOf b ++ s.held.erase b }
    else none
  | .drain cpu =>
    (drainPages c s.zone (s.pcp cpu)).map fun r => ⟨r.1, Function.update s.pcp cpu r.2, s.held⟩
  | .drainZone cpu =>
    (drainZonePages c s.zone (s.pcp cpu)).map fun r => ⟨r.1, Function.update s.pcp cpu r.2, s.held⟩
  | .splitFree page lowWmark lowmemReserve freePages =>
    if c.Here page ∧ (s.zone.page page).buddy then
      match splitFreePage c s.zone page lowWmark lowmemReserve freePages with
      | none => some s
      | some z => some { s with zone := z, held := pagesOf ⟨page, (s.zone.page page).priv⟩ ++ s.held }
    else none
  | .reserve otherNode pageReserved minWmark =>
    some { s with zone := setupZoneMigrateReserve c otherNode pageReserved minWmark s.zone }
  | .highmark cpu high =>
    some { s with pcp := Function.update s.pcp cpu (setupPagelistHighmark c (s.pcp cpu) high) }

def inHeld (held : List Block) (x : ℕ) : Prop := ∃ b ∈ held, x ∈ b

def share (M : Set ℕ) (pcp : ℕ → Pcp) (held : List Block) (cpu : ℕ) : Set ℕ :=
  {x | x ∈ M ∧ ¬ inHeld held x ∧ ∀ cpu', cpu' ≠ cpu → ∀ mt, x ∉ (pcp cpu').lists mt}

structure HeldOk (c : Config) (M : Set ℕ) (z : Zone) (b : Block) : Prop where
  aligned : b.Aligned
  order_lt : b.order < c.maxOrder
  sub : ∀ x ∈ b, x ∈ M
  head : 0 < (z.page b.start).count
  tail : ∀ x ∈ b, x ≠ b.start → (z.page x).count = 0

/-- Every page of `M` is free in the zone, on the list of one CPU, or part of one block that is
held. -/
structure Sound {c : Config} (P : Policy c) (M : Set ℕ) (s : System) : Prop where
  share : ∀ cpu, Local P (share M s.pcp s.held cpu) s.zone (s.pcp cpu).lists
  ok : ∀ cpu, CpuOk (s.pcp cpu)
  held : ∀ b ∈ s.held, HeldOk c M s.zone b
  apart : s.held.Pairwise fun b b' => ∀ x ∈ b, x ∉ b'
  here : ∀ x ∈ M, c.Here x

/-- The isolated pages that nobody holds, which `NR_FREE_PAGES` does not count. -/
def uncounted {c : Config} (P : Policy c) (M : Set ℕ) (held : List Block) : Set ℕ :=
  {x | x ∈ M ∧ x ∈ P.iso ∧ ¬ inHeld held x}

structure Step {c : Config} (P : Policy c) (M : Set ℕ) (s t : System) : Prop where
  sound : Sound P M t
  frame : ∀ x ∉ M, t.zone.page x = s.zone.page x
  lag : lag c t.zone + (uncounted P M t.held).ncard = lag c s.zone + (uncounted P M s.held).ncard

variable {c : Config} {P : Policy c} {M S : Set ℕ} {s t : System} {z z' : Zone} {pcp' : Pcp} {b b' : Block}
  {held' : List Block} {cpu cpu' x : ℕ} {mt : Migratetype}

theorem Step.refl (h : Sound P M s) : Step P M s s := ⟨h, fun _ _ => rfl, rfl⟩

theorem Step.trans {u : System} (h : Step P M s t) (h' : Step P M t u) : Step P M s u :=
  ⟨h'.sound, fun x hx => (h'.frame x hx).trans (h.frame x hx), h'.lag.trans h.lag⟩

theorem Sound.share_of_list (h : Sound P M s) (hx : x ∈ (s.pcp cpu).lists mt) :
    x ∈ Pages.share M s.pcp s.held cpu :=
  ((h.share cpu).mem x).mpr (Or.inr ⟨mt, hx⟩)

theorem Sound.update (h : Sound P M s) (hl : Local P S z' pcp'.lists) (hok : CpuOk pcp')
    (hS : ∀ x, x ∈ S ↔ x ∈ Pages.share M s.pcp held' cpu)
    (hheld : ∀ x, inHeld held' x → inHeld s.held x ∨ x ∈ Pages.share M s.pcp s.held cpu)
    (hpage : ∀ cpu', cpu' ≠ cpu → ∀ mt, ∀ x ∈ (s.pcp cpu').lists mt, z'.page x = s.zone.page x)
    (hblocks : ∀ b ∈ held', HeldOk c M z' b)
    (hapart : held'.Pairwise fun b b' => ∀ x ∈ b, x ∉ b') :
    Sound P M ⟨z', Function.update s.pcp cpu pcp', held'⟩ := by
  have hself : Pages.share M (Function.update s.pcp cpu pcp') held' cpu = S := by
    ext x
    rw [hS]
    refine and_congr_right fun _ => and_congr_right fun _ => forall_congr' fun cpu' => ?_
    refine forall_congr' fun hne => ?_
    rw [Function.update_of_ne hne]
  -- the lists of another CPU have nothing to do with the pages that have moved
  have hout : ∀ cpu', cpu' ≠ cpu → ∀ mt, ∀ x ∈ (s.pcp cpu').lists mt, x ∉ S ∧ ¬ inHeld held' x := by
    intro cpu' hne mt x hx
    have hsh := h.share_of_list hx
    refine ⟨fun hxS => ((hS x).mp hxS).2.2 cpu' hne mt hx, fun hin => ?_⟩
    rcases hheld x hin with hin | hin
    · exact hsh.2.1 hin
    · exact hin.2.2 cpu' hne mt hx
  refine ⟨fun cpu' => ?_, fun cpu' => ?_, hblocks, hapart, h.here⟩
  · by_cases hne : cpu' = cpu
    · subst hne
      dsimp only
      rw [hself, Function.update_self]
      exact hl
    · have hold := h.share cpu'
      dsimp only
      rw [Function.update_of_ne hne]
      have hmem : ∀ x, x ∈ Pages.share M (Function.update s.pcp cpu pcp') held' cpu' ↔
          x ∈ covered c z' ∨ ∃ mt, x ∈ (s.pcp cpu').lists mt := by
        intro x
        constructor
        · rintro ⟨hM, hh, hno⟩
          by_cases hlist : ∃ mt, x ∈ (s.pcp cpu').lists mt
          · exact Or.inr hlist
          · rw [not_exists] at hlist
            have hxS : x ∈ S := by
              refine (hS x).mpr ⟨hM, hh, fun cpu'' hne'' mt => ?_⟩
              by_cases hc : cpu'' = cpu'
              · rw [hc]
                exact hlist mt
              · have := hno cpu'' hc mt
                rwa [Function.update_of_ne hne''] at this
            refine Or.inl (((hl.mem x).mp hxS).resolve_right ?_)
            rintro ⟨mt, hmt⟩
            have := hno cpu (Ne.symm hne) mt
            rw [Function.update_self] at this
            exact this hmt
        · rintro (hx | ⟨mt, hx⟩)
          · have hxS := (hl.mem x).mpr (Or.inl hx)
            have hsh := (hS x).mp hxS
            refine ⟨hsh.1, hsh.2.1, fun cpu'' hc mt => ?_⟩
            by_cases hcc : cpu'' = cpu
            · subst hcc
              rw [Function.update_self]
              exact fun hmt => hl.out mt x hmt hx
            · rw [Function.update_of_ne hcc]
              exact hsh.2.2 cpu'' hcc mt
          · obtain ⟨hxS, hxh⟩ := hout cpu' hne mt x hx
            have hsh := h.share_of_list hx
            refine ⟨hsh.1, hxh, fun cpu'' hc mt' => ?_⟩
            by_cases hcc : cpu'' = cpu
            · subst hcc
              rw [Function.update_self]
              exact fun hmt => hxS ((hl.mem x).mpr (Or.inr ⟨mt', hmt⟩))
            · rw [Function.update_of_ne hcc]
              exact hsh.2.2 cpu'' hc mt'
      refine ⟨hl.tidy, hmem, fun mt x hx hc => ?_, hold.single, hold.nodup, hold.typed,
        fun x hx => h.here x hx.1, fun x hx => ?_, hl.isoFree, hl.isoBlock, hold.isoPcp,
        hl.kindFree, hl.kindBlock, fun mt x hx => ?_, hl.noGuard⟩
      · exact (hout cpu' hne mt x hx).1 ((hl.mem x).mpr (Or.inl hc))
      · rcases (hmem x).mp hx with hc | ⟨mt, hmt⟩
        · exact hl.zero x ((hl.mem x).mpr (Or.inl hc))
        · rw [hpage cpu' hne mt x hmt]
          exact hold.zero x (h.share_of_list hmt)
      · rw [hpage cpu' hne mt x hx]
        exact hold.kindPcp mt x hx
  · by_cases hne : cpu' = cpu
    · subst hne
      dsimp only
      rwa [Function.update_self]
    · dsimp only
      rw [Function.update_of_ne hne]
      exact h.ok cpu'

theorem inHeld_cons : inHeld (b :: held') x ↔ x ∈ b ∨ inHeld held' x := by
  simp only [inHeld, List.mem_cons, exists_eq_or_imp]

theorem inHeld_cons_erase {held : List Block} (hb : b ∈ held) :
    inHeld (b :: held.erase b) x ↔ inHeld held x :=
  exists_congr fun _ => and_congr_left fun _ => (List.perm_cons_erase hb).mem_iff.symm

theorem inHeld_erase {held : List Block}
    (h : held.Pairwise fun b b' => ∀ x ∈ b, x ∉ b') (hb : b ∈ held) :
    inHeld (held.erase b) x ↔ inHeld held x ∧ x ∉ b := by
  have hperm := List.perm_cons_erase hb
  have hpw := (hperm.pairwise_iff fun {b b'} hbb x hx hx' => hbb x hx' hx).mp h
  have hhead := (List.pairwise_cons.mp hpw).1
  rw [← inHeld_cons_erase hb, inHeld_cons]
  constructor
  · rintro ⟨d, hd, hx⟩
    exact ⟨Or.inr ⟨d, hd, hx⟩, fun hxb => hhead d hd x hxb hx⟩
  · rintro ⟨hx | hx, hne⟩
    · exact absurd hx hne
    · exact hx

theorem HeldOk.of_count (h : HeldOk c M z b)
    (hc : ∀ x ∈ b, (z'.page x).count = (z.page x).count) : HeldOk c M z' b where
  aligned := h.aligned
  order_lt := h.order_lt
  sub := h.sub
  head := by
    rw [hc _ b.start_mem]
    exact h.head
  tail := fun x hx hne => (hc x hx).trans (h.tail x hx hne)

theorem not_share (hb : b ∈ s.held) (hx : x ∈ b) : x ∉ share M s.pcp s.held cpu :=
  fun hsh => hsh.2.1 ⟨b, hb, hx⟩

theorem frame_list
    (hf : ∀ x ∉ share M s.pcp s.held cpu, z'.page x = s.zone.page x) (hne : cpu' ≠ cpu)
    (hx : x ∈ (s.pcp cpu').lists mt) : z'.page x = s.zone.page x :=
  hf x fun hsh => hsh.2.2 cpu' hne mt hx

theorem Sound.evolve (h : Sound P M s)
    (he : Evolves P (Pages.share M s.pcp s.held cpu) (Pages.share M s.pcp s.held cpu) s.zone z'
      pcp'.lists 0) (hok : CpuOk pcp') :
    Step P M s ⟨z', Function.update s.pcp cpu pcp', s.held⟩ := by
  refine ⟨?_, fun x hx => he.frame x fun hsh => hx hsh.1, by rw [he.lag, add_zero]⟩
  exact h.update he.isLocal hok (fun _ => Iff.rfl) (fun _ hx => Or.inl hx)
    (fun _ hne _ _ hx => frame_list he.frame hne hx)
    (fun b hb => (h.held b hb).of_count fun x hx => by rw [he.frame x (not_share hb hx)]) h.apart

theorem Sound.finite (h : Sound P M s) : M.Finite := by
  refine (Finset.finite_toSet (Finset.Ico c.zoneStartPfn (c.zoneStartPfn + c.spannedPages))).subset ?_
  intro x hx
  obtain ⟨hv, hz⟩ := h.here x hx
  exact Finset.mem_coe.mpr (Finset.mem_Ico.mpr ((c.span x hv).mp hz))

theorem Block.ncard (b : Block) : {x | x ∈ b}.ncard = 2 ^ b.order := by
  have hset : {x | x ∈ b} = (Finset.Ico b.start (b.start + 2 ^ b.order) : Finset ℕ) := by
    ext x
    rw [Finset.mem_coe, Finset.mem_Ico]
    exact Iff.rfl
  rw [hset, Set.ncard_coe_finset, Nat.card_Ico, Nat.add_sub_cancel_left]

theorem ncard_uncounted (hM : M.Finite) (hal : b.Aligned) (ho : b.order < c.maxOrder)
    (hsub : ∀ x ∈ b, x ∈ M) (hout : ∀ x ∈ b, ¬ inHeld held' x) :
    ((uncounted P M held').ncard : ℤ) = (uncounted P M (b :: held')).ncard + P.weight b := by
  have hin : ∀ {x}, x ∈ uncounted P M (b :: held') ↔ x ∈ uncounted P M held' ∧ x ∉ b := by
    intro x
    simp only [uncounted, Set.mem_ofPred_eq, inHeld_cons, not_or]
    constructor
    · rintro ⟨hx, hR, hxb, hh⟩
      exact ⟨⟨hx, hR, hh⟩, hxb⟩
    · rintro ⟨⟨hx, hR, hh⟩, hxb⟩
      exact ⟨hx, hR, hxb, hh⟩
  by_cases hR : b.start ∈ P.iso
  · have hw : P.weight b = 2 ^ b.order := if_pos hR
    have hset : uncounted P M held' = uncounted P M (b :: held') ∪ {x | x ∈ b} := by
      ext x
      rw [Set.mem_union, hin]
      constructor
      · intro hx
        by_cases hxb : x ∈ b
        · exact Or.inr hxb
        · exact Or.inl ⟨hx, hxb⟩
      · rintro (hx | hx)
        · exact hx.1
        · exact ⟨hsub x hx, P.block b hal ho _ b.start_mem x hx hR, hout x hx⟩
    have hfin : (uncounted P M (b :: held')).Finite := hM.subset fun x hx => hx.1
    have hdisj : Disjoint (uncounted P M (b :: held')) {x | x ∈ b} :=
      Set.disjoint_left.mpr fun x hx => (hin.mp hx).2
    have hblock := Block.ncard b
    have hbfin : {x | x ∈ b}.Finite :=
      Set.finite_of_ncard_ne_zero (by rw [hblock]; exact (Nat.two_pow_pos _).ne')
    rw [hset, Set.ncard_union_eq hdisj hfin hbfin, hblock, hw]
    push_cast
    rfl
  · have hw : P.weight b = 0 := if_neg hR
    have hset : uncounted P M held' = uncounted P M (b :: held') := by
      ext x
      rw [hin]
      refine ⟨fun hx => ⟨hx, fun hxb => hR ?_⟩, fun hx => hx.1⟩
      exact P.block b hal ho x hxb _ b.start_mem hx.2.1
    rw [hset, hw, add_zero]

theorem uncounted_congr {held : List Block} (h : ∀ x, inHeld held' x ↔ inHeld held x) :
    uncounted P M held' = uncounted P M held := by
  ext x
  rw [uncounted, uncounted, Set.mem_ofPred_eq, Set.mem_ofPred_eq, h]

end AndroidKernel.Pages
