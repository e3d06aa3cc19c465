import AndroidKernel.Pages.Boot
import Mathlib.Data.Nat.Log

/-! `alloc_pages_exact` hands out as many pages as were asked for and takes the rest back, and
`free_pages_exact` takes back the pages it handed out, from any CPU and at any time. -/

namespace AndroidKernel.Pages
open DyadicBlocks Migratetype Lts

/-- `get_order`, of a size in pages, which is undefined for `0`. -/
def getOrder (n : ℕ) : ℕ := Nat.clog 2 n

def freeEach (c : Config) (cpu page n : ℕ) (s : System) : Option System :=
  exec (next c) ((List.range n).map fun i => .free cpu ⟨page + i, 0⟩ false) s

def makeAllocExact (c : Config) (cpu : ℕ) (b : Block) (n : ℕ) (s : System) : Option System := do
  let s ← next c s (.split b)
  freeEach c cpu (b.start + n) (2 ^ b.order - n) s

/-- `alloc_pages_exact`, with the first page or `none` for NULL. -/
def allocPagesExact (c : Config) (cpu : ℕ) (mt : Migratetype) (g : Gfp) (n : ℕ) (s : System) :
    Option (Option ℕ × System) := do
  let t ← next c s (.alloc cpu (getOrder n) mt g)
  match (bufferedRmqueue c g s.zone (s.pcp cpu) (getOrder n) mt).1 with
  | none => some (none, t)
  | some page => (makeAllocExact c cpu ⟨page, getOrder n⟩ n t).map fun u => (some page, u)

def freePagesExact (c : Config) (cpu page n : ℕ) (s : System) : Option System :=
  freeEach c cpu page n s

variable {c : Config} {P : Policy c} {M : Set ℕ} {s t : System} {b : Block} {page n cpu : ℕ}
  {mt : Migratetype} {g : Gfp}

def HeldPages (s : System) (page n : ℕ) : Prop :=
  ∀ i < n, (⟨page + i, 0⟩ : Block) ∈ s.held ∧ (s.zone.page (page + i)).count = 1

theorem Sound.held_nodup (h : Sound P M s) : s.held.Nodup := by
  refine List.Pairwise.imp ?_ h.apart
  rintro b _ hbb rfl
  exact hbb b.start b.start_mem b.start_mem

theorem free_single (h : Sound P M s) (cpu : ℕ) (hb : b ∈ s.held)
    (h1 : (s.zone.page b.start).count = 1) :
    ∃ t, next c s (.free cpu b false) = some t ∧ Step P M s t ∧ t.held = s.held.erase b ∧
      ∀ x, inHeld s.held x → x ∉ b → t.zone.page x = s.zone.page x := by
  obtain ⟨z', pcp', hf, hstep, hframe⟩ := freePages_sound h hb cpu false
  rw [if_pos h1] at hstep
  refine ⟨_, ?_, hstep, rfl, hframe⟩
  simp only [next, if_pos hb, hf, if_pos h1]

theorem freeEach_spec (page : ℕ) (h : Sound P M s) (cpu : ℕ) (hp : HeldPages s page n) :
    ∃ t, freeEach c cpu page n s = some t ∧ Step P M s t ∧
      (∀ b, b ∈ t.held ↔ b ∈ s.held ∧ ∀ i < n, b ≠ ⟨page + i, 0⟩) ∧
      ∀ x, inHeld t.held x → t.zone.page x = s.zone.page x := by
  induction n with
  | zero => exact ⟨s, rfl, Step.refl h, fun b => by simp, fun _ _ => rfl⟩
  | succ n ih =>
    obtain ⟨t, ht, hstep, hheld, hpage⟩ := ih fun i hi => hp i (Nat.lt_succ_of_lt hi)
    obtain ⟨hin, hcount⟩ := hp n (Nat.lt_succ_self n)
    have hin' : (⟨page + n, 0⟩ : Block) ∈ t.held := by
      refine (hheld _).mpr ⟨hin, fun i hi he => ?_⟩
      have := congrArg Block.start he
      simp only at this
      omega
    have hsame := hpage (page + n) ⟨_, hin', Block.start_mem _⟩
    obtain ⟨u, hu, hstep', hheld', hpage'⟩ := free_single hstep.sound cpu hin' (by rw [hsame, hcount])
    have hmem : ∀ b, b ∈ u.held ↔ b ∈ t.held ∧ b ≠ ⟨page + n, 0⟩ := by
      intro b
      rw [hheld', hstep.sound.held_nodup.mem_erase_iff, and_comm]
    refine ⟨u, ?_, hstep.trans hstep', fun b => ?_, fun x ⟨d, hd, hx⟩ => ?_⟩
    · rw [freeEach, List.range_succ, List.map_append]
      exact exec_append_eq_some.mpr ⟨t, ht, exec_cons_eq_some.mpr ⟨u, hu, rfl⟩⟩
    · rw [hmem, hheld]
      constructor
      · rintro ⟨⟨hb, hall⟩, hne⟩
        refine ⟨hb, fun i hi => ?_⟩
        rcases Nat.lt_succ_iff_lt_or_eq.mp hi with hlt | rfl
        · exact hall i hlt
        · exact hne
      · rintro ⟨hb, hall⟩
        exact ⟨⟨hb, fun i hi => hall i (Nat.lt_succ_of_lt hi)⟩, hall n (Nat.lt_succ_self n)⟩
    · obtain ⟨hdt, hne⟩ := (hmem d).mp hd
      rw [hpage' x ⟨d, hdt, hx⟩ fun hxb => hne (hstep.sound.held_eq hdt hin' hx hxb)]
      exact hpage x ⟨d, hdt, hx⟩

theorem makeAllocExact_spec (h : Sound P M s) (cpu : ℕ) (hb : b ∈ s.held)
    (h1 : (s.zone.page b.start).count = 1) (hn : n ≤ 2 ^ b.order) :
    ∃ t, makeAllocExact c cpu b n s = some t ∧ Step P M s t ∧ HeldPages t b.start n ∧
      ∀ d, d ∈ t.held ↔ (d ∈ s.held ∧ d ≠ b) ∨ ∃ i < n, d = ⟨b.start + i, 0⟩ := by
  have hsplit := h.split hb
  set u : System := ⟨splitPage s.zone b.start b.order, s.pcp, pagesOf b ++ s.held.erase b⟩ with hu
  have hcount : ∀ x ∈ b, (u.zone.page x).count = 1 := by
    intro x hx
    obtain ⟨hl, hup⟩ := Block.mem_def.mp hx
    change (if b.start < x ∧ x < b.start + 1 <<< b.order then { s.zone.page x with count := 1 }
      else s.zone.page x).count = 1
    rw [Nat.one_shiftLeft]
    split_ifs with hc
    · rfl
    · have hxb : x = b.start := by omega
      rw [hxb, h1]
  have hpages : HeldPages u (b.start + n) (2 ^ b.order - n) := by
    intro i hi
    refine ⟨List.mem_append_left _ (mem_pagesOf.mpr ⟨n + i, by omega, by rw [Nat.add_assoc]⟩), ?_⟩
    exact hcount _ (Block.mem_def.mpr ⟨by omega, by omega⟩)
  obtain ⟨t, ht, hstep, hheld, hpage⟩ := freeEach_spec (b.start + n) (n := 2 ^ b.order - n) hsplit.sound cpu hpages
  have hmem : ∀ d, d ∈ t.held ↔ (d ∈ s.held ∧ d ≠ b) ∨ ∃ i < n, d = ⟨b.start + i, 0⟩ := by
    intro d
    rw [hheld, List.mem_append, mem_pagesOf, h.held_nodup.mem_erase_iff]
    constructor
    · rintro ⟨⟨i, hi, rfl⟩ | ⟨hne, hd⟩, hall⟩
      · refine Or.inr ⟨i, ?_, rfl⟩
        by_contra hin
        refine hall (i - n) (by omega) ?_
        congr 1
        omega
      · exact Or.inl ⟨hd, hne⟩
    · rintro (⟨hd, hne⟩ | ⟨i, hi, rfl⟩)
      · refine ⟨Or.inr ⟨hne, hd⟩, fun i hi he => hne ?_⟩
        refine h.held_eq hd hb d.start_mem ?_
        rw [he]
        exact ⟨by simp only; omega, by simp only; omega⟩
      · refine ⟨Or.inl ⟨i, by omega, rfl⟩, fun j hj he => ?_⟩
        have := congrArg Block.start he
        simp only at this
        omega
  refine ⟨t, ?_, hsplit.trans hstep, fun i hi => ?_, hmem⟩
  · have hnext : next c s (.split b) = some u := if_pos hb
    simp only [makeAllocExact, hnext, Option.bind_eq_bind, Option.bind_some]
    exact ht
  · have hin := (hmem ⟨b.start + i, 0⟩).mpr (Or.inr ⟨i, hi, rfl⟩)
    refine ⟨hin, ?_⟩
    rw [hpage (b.start + i) ⟨_, hin, Block.start_mem _⟩]
    exact hcount _ (Block.mem_def.mpr ⟨by omega, by omega⟩)

/-- In every run from boot `alloc_pages_exact` leaves the caller with exactly the pages that were asked
for, each with one reference, and everybody else with what they had. Whatever is done after it, while
these pages are held so `free_pages_exact` takes them back, on any CPU, and nothing else. -/
theorem run_alloc_pages_exact {other : ℕ → Page} {batch : ℕ → ℕ} {bs : List Block} (h : BootOk c bs)
    {as : List Action} (hs : Lts.exec (next c) as (boot c other batch bs) = some s) (cpu : ℕ)
    (hmt : mt.isPcp = true) (g : Gfp) {n : ℕ} (_hn : 0 < n) :
    ∃ r t, allocPagesExact c cpu mt g n s = some (r, t) ∧ (r = none → t.held = s.held) ∧
      ∀ page, r = some page → HeldPages t page n ∧
        (∀ d, d ∈ t.held ↔ d ∈ s.held ∨ ∃ i < n, d = ⟨page + i, 0⟩) ∧
        ∀ as' u cpu', Lts.exec (next c) as' t = some u → HeldPages u page n →
          ∃ v, freePagesExact c cpu' page n u = some v ∧
            (∀ d, d ∈ v.held ↔ d ∈ u.held ∧ ∀ i < n, d ≠ ⟨page + i, 0⟩) ∧
            ∀ x, (∃ pl, At c v x pl) ↔ inHeld bs x := by
  have h := (h.exec hs).sound
  have hout := bufferedRmqueue_spec g (getOrder n) hmt (h.share cpu)
  have hfree : ∀ {page t u} as' cpu', Step (Policy.plain c) {x | inHeld bs x} s t →
      Lts.exec (next c) as' t = some u → HeldPages u page n →
      ∃ v, freePagesExact c cpu' page n u = some v ∧
        (∀ d, d ∈ v.held ↔ d ∈ u.held ∧ ∀ i < n, d ≠ ⟨page + i, 0⟩) ∧
        ∀ x, (∃ pl, At c v x pl) ↔ inHeld bs x := by
    intro page t u as' cpu' ht hu hp
    obtain ⟨v, hv, hstep, hheld, -⟩ := freeEach_spec page (n := n) (ht.sound.exec hu).sound cpu' hp
    exact ⟨v, hv, hheld, fun x => (hstep.sound.place x).1⟩
  unfold allocPagesExact
  simp only [next, hmt, if_true]
  generalize bufferedRmqueue c g s.zone (s.pcp cpu) (getOrder n) mt = r at hout
  obtain ⟨r, z', pcp'⟩ := r
  cases r with
  | none => exact ⟨none, _, rfl, fun _ => rfl, fun _ hp => absurd hp (Option.some_ne_none _).symm⟩
  | some page =>
    obtain ⟨halloc, -⟩ := hout
    have hstep := h.allocated halloc
    have hle : n ≤ 2 ^ getOrder n := Nat.le_pow_clog one_lt_two n
    obtain ⟨t, ht, hstep', hpages, hmem⟩ := makeAllocExact_spec (b := ⟨page, getOrder n⟩)
      hstep.sound cpu (List.mem_cons_self ..) halloc.head hle
    refine ⟨some page, t, ?_, fun hr => absurd hr (Option.some_ne_none _), fun page' hp => ?_⟩
    · simp only [Option.bind_eq_bind, Option.bind_some, ht, Option.map_some]
    · obtain rfl := Option.some.inj hp
      refine ⟨hpages, fun d => ?_, fun as' u cpu' => hfree as' cpu' (hstep.trans hstep')⟩
      rw [hmem, List.mem_cons]
      have hnew : d ∈ s.held → d ≠ ⟨page, getOrder n⟩ := by
        rintro hd rfl
        exact not_share hd (Block.start_mem _) (halloc.mem page (Block.start_mem _))
      constructor
      · rintro (⟨rfl | hd, hne⟩ | hi)
        · exact absurd rfl hne
        · exact Or.inl hd
        · exact Or.inr hi
      · rintro (hd | hi)
        · exact Or.inl ⟨Or.inr hd, hnew hd⟩
        · exact Or.inr hi

theorem eightPagesFree_isSome :
    (Lts.exec (next eightPages) [.free 0 ⟨0, 3⟩ false] eightPagesBoot).isSome = true := by
  decide

def eightPagesFree : System :=
  (Lts.exec (next eightPages) [.free 0 ⟨0, 3⟩ false] eightPagesBoot).get eightPagesFree_isSome

/-- Of a block of four pages three are handed out and the fourth goes back; another CPU takes the
three back. -/
theorem run_alloc_pages_exact_eightPages : ∃ t v,
    allocPagesExact eightPages 0 .movable ⟨false, false, false⟩ 3 eightPagesFree = some (some 0, t) ∧
      HeldPages t 0 3 ∧ (∀ d, d ∈ t.held ↔ ∃ i < 3, d = ⟨0 + i, 0⟩) ∧
      freePagesExact eightPages 1 0 3 t = some v ∧ v.held = [] := by
  obtain ⟨r, t, ht, -, hsome⟩ := run_alloc_pages_exact eightPages_bootOk
    (Option.some_get eightPagesFree_isSome).symm 0 (show Migratetype.movable.isPcp = true from rfl)
    ⟨false, false, false⟩ (show 0 < 3 by decide)
  have hfirst : (allocPagesExact eightPages 0 .movable ⟨false, false, false⟩ 3
      eightPagesFree).map Prod.fst = some (some 0) := by decide
  have hnone : eightPagesFree.held = [] := by decide
  obtain rfl : r = some 0 := by
    change allocPagesExact _ _ _ _ _ eightPagesFree = _ at ht
    rw [ht] at hfirst
    exact Option.some.inj hfirst
  obtain ⟨hpages, hheld, hback⟩ := hsome 0 rfl
  have hheld' : ∀ d, d ∈ t.held ↔ ∃ i < 3, d = ⟨0 + i, 0⟩ := by
    intro d
    refine (hheld d).trans (or_iff_right fun hd => ?_)
    change d ∈ eightPagesFree.held at hd
    rw [hnone] at hd
    cases hd
  obtain ⟨v, hv, hleft, -⟩ := hback [] t 1 rfl hpages
  refine ⟨t, v, ht, hpages, hheld', hv, List.eq_nil_iff_forall_not_mem.mpr fun d hd => ?_⟩
  obtain ⟨hdt, hne⟩ := (hleft d).mp hd
  obtain ⟨i, hi, hdi⟩ := (hheld' d).mp hdt
  exact hne i hi hdi

end AndroidKernel.Pages
