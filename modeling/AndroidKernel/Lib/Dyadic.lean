import Mathlib.Tactic

/-! Blocks of `2 ^ order` consecutive numbers that start at a multiple of their length. Two such
blocks are nested or apart, and a set of disjoint blocks without a pair of buddies is determined by
the numbers it covers. -/

namespace DyadicBlocks

structure Block where
  start : ℕ
  order : ℕ
deriving DecidableEq, Repr

namespace Block

instance : Membership ℕ Block := ⟨fun b x => b.start ≤ x ∧ x < b.start + 2 ^ b.order⟩

def Aligned (b : Block) : Prop := 2 ^ b.order ∣ b.start

instance (b : Block) : Decidable b.Aligned := inferInstanceAs (Decidable (_ ∣ _))

instance (b : Block) (x : ℕ) : Decidable (x ∈ b) := inferInstanceAs (Decidable (_ ∧ _))

def index (b : Block) : ℕ := b.start / 2 ^ b.order

def around (x o : ℕ) : Block := ⟨2 ^ o * (x / 2 ^ o), o⟩

def buddy (b : Block) : Block :=
  ⟨if b.index % 2 = 0 then b.start + 2 ^ b.order else b.start - 2 ^ b.order, b.order⟩

def parent (b : Block) : Block := around b.start (b.order + 1)

variable {b c : Block} {x y o p : ℕ}

theorem mem_def : x ∈ b ↔ b.start ≤ x ∧ x < b.start + 2 ^ b.order := Iff.rfl

theorem start_mem (b : Block) : b.start ∈ b :=
  ⟨le_rfl, Nat.lt_add_of_pos_right (Nat.two_pow_pos b.order)⟩

theorem Aligned.start_eq (h : b.Aligned) : b.start = 2 ^ b.order * b.index :=
  (Nat.mul_div_cancel' h).symm

theorem Aligned.mem_iff (h : b.Aligned) : x ∈ b ↔ x / 2 ^ b.order = b.index := by
  have hpos := Nat.two_pow_pos b.order
  rw [mem_def, h.start_eq, Nat.div_eq_iff hpos, Nat.mul_comm b.index]
  omega

@[simp] theorem around_order (x o : ℕ) : (around x o).order = o := rfl

theorem around_aligned (x o : ℕ) : (around x o).Aligned := dvd_mul_right ..

@[simp] theorem around_index (x o : ℕ) : (around x o).index = x / 2 ^ o :=
  Nat.mul_div_cancel_left _ (Nat.two_pow_pos o)

theorem mem_around_iff : y ∈ around x o ↔ y / 2 ^ o = x / 2 ^ o := by
  rw [(around_aligned x o).mem_iff, around_order, around_index]

theorem mem_around (x o : ℕ) : x ∈ around x o := mem_around_iff.mpr rfl

theorem Aligned.eq_around (h : b.Aligned) (hx : x ∈ b) : b = around x b.order := by
  rw [h.mem_iff] at hx
  obtain ⟨start, order⟩ := b
  have hs := h.start_eq
  rw [← hx] at hs
  exact congrArg (fun s => Block.mk s order) hs

theorem Aligned.subset (hb : b.Aligned) (hc : c.Aligned) (hxb : x ∈ b) (hxc : x ∈ c)
    (ho : b.order ≤ c.order) (hy : y ∈ b) : y ∈ c := by
  rw [hb.mem_iff] at hxb hy
  rw [hc.mem_iff] at hxc ⊢
  have hdiv : ∀ z : ℕ, z / 2 ^ c.order = z / 2 ^ b.order / 2 ^ (c.order - b.order) := by
    intro z
    rw [Nat.div_div_eq_div_mul, ← pow_add, Nat.add_sub_cancel' ho]
  rw [hdiv, hy, ← hxb, ← hdiv, hxc]

theorem Aligned.eq_of_mem (hb : b.Aligned) (hc : c.Aligned) (hxb : x ∈ b) (hxc : x ∈ c)
    (ho : b.order = c.order) : b = c := by
  rw [hb.eq_around hxb, hc.eq_around hxc, ho]

@[simp] theorem buddy_order (b : Block) : b.buddy.order = b.order := rfl

@[simp] theorem parent_order (b : Block) : b.parent.order = b.order + 1 := rfl

theorem parent_aligned (b : Block) : b.parent.Aligned := around_aligned ..

theorem Aligned.buddy_start (h : b.Aligned) : b.buddy.start =
    2 ^ b.order * if b.index % 2 = 0 then b.index + 1 else b.index - 1 := by
  have hs := h.start_eq
  simp only [buddy]
  split
  · rw [Nat.mul_add, ← hs, Nat.mul_one]
  · rw [Nat.mul_sub, ← hs, Nat.mul_one]

theorem Aligned.buddy (h : b.Aligned) : b.buddy.Aligned := by
  rw [Aligned, h.buddy_start]
  exact dvd_mul_right ..

theorem Aligned.buddy_index (h : b.Aligned) :
    b.buddy.index = if b.index % 2 = 0 then b.index + 1 else b.index - 1 := by
  rw [index, h.buddy_start, buddy_order, Nat.mul_div_cancel_left _ (Nat.two_pow_pos _)]

theorem ext_index (hb : b.Aligned) (hc : c.Aligned) (ho : b.order = c.order)
    (hi : b.index = c.index) : b = c := by
  have hs : b.start = c.start := by rw [hb.start_eq, hc.start_eq, ho, hi]
  obtain ⟨bs, bo⟩ := b
  obtain ⟨cs, co⟩ := c
  cases hs
  cases ho
  rfl

theorem Aligned.buddy_buddy (h : b.Aligned) : b.buddy.buddy = b := by
  refine ext_index h.buddy.buddy h rfl ?_
  rw [h.buddy.buddy_index, h.buddy_index]
  split_ifs <;> omega

theorem Aligned.buddy_ne (h : b.Aligned) : b.buddy ≠ b := by
  intro he
  have hi := h.buddy_index
  rw [he] at hi
  split_ifs at hi <;> omega

theorem parent_index (b : Block) : b.parent.index = b.index / 2 := by
  rw [parent, around_index, index, Nat.div_div_eq_div_mul, pow_succ]

theorem mem_parent_iff_div : x ∈ b.parent ↔ x / 2 ^ b.order / 2 = b.index / 2 := by
  rw [b.parent_aligned.mem_iff, parent_index, parent_order, Nat.div_div_eq_div_mul, pow_succ]

theorem Aligned.mem_parent_iff (h : b.Aligned) : x ∈ b.parent ↔ x ∈ b ∨ x ∈ b.buddy := by
  rw [mem_parent_iff_div, h.mem_iff, h.buddy.mem_iff, h.buddy_index, buddy_order]
  split_ifs <;> omega

theorem Aligned.not_mem_buddy (h : b.Aligned) (hx : x ∈ b) : x ∉ b.buddy := by
  intro hy
  exact h.buddy_ne (h.buddy.eq_of_mem h hy hx rfl)

theorem Aligned.parent_buddy (h : b.Aligned) : b.buddy.parent = b.parent := by
  refine ext_index (parent_aligned _) (parent_aligned _) rfl ?_
  rw [parent_index, parent_index, h.buddy_index]
  split_ifs <;> omega

theorem around_parent (x o : ℕ) : (around x o).parent = around x (o + 1) := by
  refine ext_index (parent_aligned _) (around_aligned ..) rfl ?_
  rw [parent_index, around_index, around_index, Nat.div_div_eq_div_mul, pow_succ]

/-! The arithmetic of page indices: the number of the buddy is the number with one bit flipped. -/

theorem xor_one (n : ℕ) : n ^^^ 1 = if n % 2 = 0 then n + 1 else n - 1 := by
  have h := Nat.div_add_mod (n ^^^ 1) 2
  have h2 : (n ^^^ 1) % 2 = 1 - n % 2 := by
    rcases Nat.mod_two_eq_zero_or_one n with hn | hn
    · rw [hn, Nat.mod_two_eq_one_iff_testBit_zero, Nat.testBit_xor,
        Nat.mod_two_eq_zero_iff_testBit_zero.mp hn]
      rfl
    · rw [hn, Nat.mod_two_eq_zero_iff_testBit_zero, Nat.testBit_xor,
        Nat.mod_two_eq_one_iff_testBit_zero.mp hn]
      rfl
  rw [Nat.xor_div_two, h2, show 1 / 2 = 0 from rfl, Nat.xor_zero] at h
  split_ifs <;> omega

theorem xor_one_and (n : ℕ) : (n ^^^ 1) &&& n = n - n % 2 := by
  refine Nat.eq_of_testBit_eq fun i => ?_
  cases i with
  | zero =>
    have h : (n - n % 2) % 2 = 0 := by omega
    rw [Nat.mod_two_eq_zero_iff_testBit_zero.mp h, Nat.testBit_and, Nat.testBit_xor]
    cases n.testBit 0 <;> rfl
  | succ i =>
    have h : (n - n % 2) / 2 = n / 2 := by omega
    rw [← Nat.testBit_div_two, ← Nat.testBit_div_two, h, Nat.and_div_two, Nat.xor_div_two,
      show 1 / 2 = 0 from rfl, Nat.xor_zero, Nat.and_self]

section bits
variable {M : ℕ} (h : b.Aligned) (hM : b.order < M)
include h hM

theorem Aligned.start_mod :
    b.start % 2 ^ M = (b.index % 2 ^ (M - b.order)) <<< b.order := by
  rw [Nat.shiftLeft_eq, Nat.mul_comm, ← Nat.mul_mod_mul_left, ← pow_add,
    Nat.add_sub_cancel' hM.le, ← h.start_eq]

omit h in
theorem index_mod_two : b.index % 2 ^ (M - b.order) % 2 = b.index % 2 :=
  Nat.mod_mod_of_dvd _ (dvd_pow_self 2 (Nat.sub_ne_zero_of_lt hM))

theorem Aligned.flip_start :
    b.start + ((b.start % 2 ^ M) ^^^ (1 <<< b.order)) - b.start % 2 ^ M = b.buddy.start := by
  have hle := Nat.mod_le b.start (2 ^ M)
  rw [h.start_mod hM] at hle
  have hj := index_mod_two hM
  rw [h.start_mod hM, ← Nat.shiftLeft_xor_distrib, xor_one, hj]
  generalize b.index % 2 ^ (M - b.order) = j at hle hj ⊢
  rw [Nat.shiftLeft_eq] at hle
  simp only [Block.buddy, Nat.shiftLeft_eq]
  split_ifs with hi
  · rw [Nat.add_mul, Nat.one_mul]
    generalize 2 ^ b.order = m at hle ⊢
    omega
  · have hle' : 1 * 2 ^ b.order ≤ j * 2 ^ b.order := Nat.mul_le_mul_right _ (by omega)
    rw [Nat.sub_mul]
    generalize 2 ^ b.order = m at hle hle' ⊢
    omega

theorem Aligned.mask_eq : ((b.start % 2 ^ M) ^^^ (1 <<< b.order)) &&& (b.start % 2 ^ M) =
    b.start % 2 ^ M - 2 ^ b.order * (b.index % 2) := by
  rw [h.start_mod hM, ← Nat.shiftLeft_xor_distrib, ← Nat.shiftLeft_and_distrib, xor_one_and,
    index_mod_two hM, Nat.shiftLeft_eq, Nat.shiftLeft_eq, Nat.sub_mul, Nat.mul_comm (2 ^ b.order)]

omit hM in
theorem Aligned.parent_start : b.parent.start = b.start - 2 ^ b.order * (b.index % 2) := by
  have hp := (parent_aligned b).start_eq
  have hi := Nat.div_add_mod b.index 2
  rw [parent_order, parent_index, pow_succ, Nat.mul_assoc] at hp
  calc b.parent.start = 2 ^ b.order * (2 * (b.index / 2)) := hp
    _ = 2 ^ b.order * (b.index - b.index % 2) := congrArg _ (by omega)
    _ = b.start - 2 ^ b.order * (b.index % 2) := by rw [Nat.mul_sub, ← h.start_eq]

theorem Aligned.low_le : 2 ^ b.order * (b.index % 2) ≤ b.start % 2 ^ M := by
  rw [h.start_mod hM, Nat.shiftLeft_eq, Nat.mul_comm, ← index_mod_two hM]
  exact Nat.mul_le_mul_right _ (Nat.mod_le _ _)

theorem Aligned.mask_start : b.start +
    (((b.start % 2 ^ M) ^^^ (1 <<< b.order)) &&& (b.start % 2 ^ M)) - b.start % 2 ^ M =
      b.parent.start := by
  have hlow := h.low_le hM
  have hle := Nat.mod_le b.start (2 ^ M)
  rw [h.mask_eq hM, h.parent_start]
  omega

theorem Aligned.mask_mod :
    ((b.start % 2 ^ M) ^^^ (1 <<< b.order)) &&& (b.start % 2 ^ M) = b.parent.start % 2 ^ M := by
  have hlow := h.low_le hM
  have hlt := Nat.mod_lt b.start (Nat.two_pow_pos M)
  have hdiv := Nat.div_add_mod b.start (2 ^ M)
  rw [h.mask_eq hM, h.parent_start]
  generalize 2 ^ b.order * (b.index % 2) = low at hlow ⊢
  calc b.start % 2 ^ M - low = (b.start % 2 ^ M - low) % 2 ^ M :=
        (Nat.mod_eq_of_lt (by omega)).symm
    _ = (2 ^ M * (b.start / 2 ^ M) + (b.start % 2 ^ M - low)) % 2 ^ M :=
        (Nat.mul_add_mod ..).symm
    _ = (b.start - low) % 2 ^ M := by
        congr 1
        omega

end bits

/-! The halves of a block. -/

theorem Aligned.low_half (h : (⟨p, o + 1⟩ : Block).Aligned) : (⟨p, o⟩ : Block).Aligned :=
  (pow_dvd_pow 2 (Nat.le_succ o)).trans h

theorem Aligned.index_low_half (h : (⟨p, o + 1⟩ : Block).Aligned) :
    (⟨p, o⟩ : Block).index % 2 = 0 := by
  obtain ⟨n, hn⟩ := h
  change p = 2 ^ (o + 1) * n at hn
  change p / 2 ^ o % 2 = 0
  rw [hn, pow_succ, Nat.mul_assoc, Nat.mul_div_cancel_left _ (Nat.two_pow_pos o),
    Nat.mul_mod_right]

theorem Aligned.buddy_low_half (h : (⟨p, o + 1⟩ : Block).Aligned) :
    (⟨p, o⟩ : Block).buddy = ⟨p + 2 ^ o, o⟩ := by
  rw [Block.buddy, if_pos h.index_low_half]

theorem Aligned.parent_low_half (h : (⟨p, o + 1⟩ : Block).Aligned) :
    (⟨p, o⟩ : Block).parent = ⟨p, o + 1⟩ := by
  have hstart := h.low_half.parent_start
  rw [h.index_low_half, Nat.mul_zero, Nat.sub_zero] at hstart
  exact congrArg (fun s => Block.mk s (o + 1)) hstart

theorem Aligned.mem_halves (h : (⟨p, o + 1⟩ : Block).Aligned) :
    x ∈ (⟨p, o + 1⟩ : Block) ↔ x ∈ (⟨p, o⟩ : Block) ∨ x ∈ (⟨p + 2 ^ o, o⟩ : Block) := by
  rw [← h.parent_low_half, h.low_half.mem_parent_iff, h.buddy_low_half]

end Block

/-- Disjoint aligned blocks up to an order, no two of which could be put together. -/
structure Tiling (top : ℕ) (T : Set Block) : Prop where
  aligned : ∀ b ∈ T, b.Aligned
  order_le : ∀ b ∈ T, b.order ≤ top
  disjoint : ∀ b ∈ T, ∀ c ∈ T, ∀ x, x ∈ b → x ∈ c → b = c
  coalesced : ∀ b ∈ T, b.order < top → b.buddy ∉ T

def cover (T : Set Block) : Set ℕ := {x | ∃ b ∈ T, x ∈ b}

variable {top : ℕ} {T T' : Set Block} {b : Block} {x : ℕ}

theorem mem_cover : x ∈ cover T ↔ ∃ b ∈ T, x ∈ b := Iff.rfl

theorem Tiling.exists_of_covered (h : Tiling top T) (hb : b.Aligned) (ho : b.order ≤ top)
    (hc : ∀ x ∈ b, x ∈ cover T) : ∃ c ∈ T, b.order ≤ c.order ∧ b.start ∈ c := by
  obtain ⟨s, o⟩ := b
  induction o generalizing s with
  | zero =>
    obtain ⟨c, hcT, hs⟩ := hc s (Block.start_mem _)
    exact ⟨c, hcT, Nat.zero_le _, hs⟩
  | succ o ih =>
    have hs : (Block.around s o).parent = ⟨s, o + 1⟩ :=
      (Block.around_parent s o).trans (hb.eq_around (Block.start_mem _)).symm
    -- the two halves
    set l := Block.around s o with hl
    have hla : l.Aligned := Block.around_aligned ..
    have hmem : ∀ x, x ∈ l ∨ x ∈ l.buddy → x ∈ cover T := by
      intro x hx
      exact hc x (hs ▸ hla.mem_parent_iff.mpr hx)
    have hsl : s ∈ l := Block.mem_around ..
    have hlow : o ≤ top := Nat.le_of_succ_le ho
    obtain ⟨c, hcT, hco, hcs⟩ := ih l.start hla hlow fun x hx => hmem x (Or.inl hx)
    obtain ⟨d, hdT, hdo, hds⟩ := ih l.buddy.start hla.buddy hlow fun x hx => hmem x (Or.inr hx)
    have hca := h.aligned c hcT
    have hda := h.aligned d hdT
    have hcl : s ∈ c := hla.subset hca l.start_mem hcs hco hsl
    rcases hco.lt_or_eq with hlt | heq
    · exact ⟨c, hcT, hlt, hcl⟩
    · rcases hdo.lt_or_eq with hlt | heq'
      · have hbig : l.buddy.parent.Aligned := Block.parent_aligned _
        have hin : s ∈ l.buddy.parent := by
          rw [hla.parent_buddy]
          exact hla.mem_parent_iff.mpr (Or.inl hsl)
        have hstart : l.buddy.start ∈ l.buddy.parent :=
          hla.buddy.mem_parent_iff.mpr (Or.inl (Block.start_mem _))
        exact ⟨d, hdT, hlt, hbig.subset hda hstart hds hlt hin⟩
      · -- both halves are blocks of the set, which has no buddies
        have hcl : c = l := hca.eq_of_mem hla hcs l.start_mem heq.symm
        have hdl : d = l.buddy := hda.eq_of_mem hla.buddy hds (Block.start_mem _) heq'.symm
        rw [hcl] at hcT
        rw [hdl] at hdT
        exact absurd hdT (h.coalesced l hcT ho)

theorem Tiling.mem_iff (h : Tiling top T) : b ∈ T ↔
    b.Aligned ∧ b.order ≤ top ∧ (∀ x ∈ b, x ∈ cover T) ∧
      (b.order < top → ∃ x ∈ b.parent, x ∉ cover T) := by
  constructor
  · intro hb
    have ha := h.aligned b hb
    refine ⟨ha, h.order_le b hb, fun x hx => ⟨b, hb, hx⟩, fun ho => ?_⟩
    by_contra! hall
    obtain ⟨c, hc, hco, hcs⟩ := h.exists_of_covered b.parent_aligned ho hall
    have hsub := b.parent_aligned.subset (h.aligned c hc) (Block.start_mem _) hcs hco
      (ha.mem_parent_iff.mpr (Or.inl b.start_mem))
    have hbc := h.disjoint b hb c hc b.start b.start_mem hsub
    rw [← hbc, Block.parent_order] at hco
    exact absurd hco (Nat.not_succ_le_self _)
  · rintro ⟨ha, ho, hcov, hmax⟩
    obtain ⟨c, hc, hco, hcs⟩ := h.exists_of_covered ha ho hcov
    rcases hco.lt_or_eq with hlt | heq
    · obtain ⟨x, hx, hout⟩ := hmax (hlt.trans_le (h.order_le c hc))
      have hin : x ∈ c := b.parent_aligned.subset (h.aligned c hc)
        (ha.mem_parent_iff.mpr (Or.inl b.start_mem)) hcs hlt hx
      exact absurd ⟨c, hc, hin⟩ hout
    · rwa [ha.eq_of_mem (h.aligned c hc) b.start_mem hcs heq]

theorem Tiling.insert (h : Tiling top T) (hb : b.Aligned) (ho : b.order ≤ top)
    (hout : ∀ x ∈ b, x ∉ cover T) (hbuddy : b.order < top → b.buddy ∉ T) :
    Tiling top (insert b T) where
  aligned := by
    rintro c (rfl | hc)
    · exact hb
    · exact h.aligned c hc
  order_le := by
    rintro c (rfl | hc)
    · exact ho
    · exact h.order_le c hc
  disjoint := by
    rintro c (rfl | hc) d (rfl | hd) x hxc hxd
    · rfl
    · exact absurd ⟨d, hd, hxd⟩ (hout x hxc)
    · exact absurd ⟨c, hc, hxc⟩ (hout x hxd)
    · exact h.disjoint c hc d hd x hxc hxd
  coalesced := by
    rintro c (rfl | hc) hlt (heq | hmem)
    · exact hb.buddy_ne heq
    · exact hbuddy hlt hmem
    · refine hbuddy (heq ▸ hlt) ?_
      rw [← heq, (h.aligned c hc).buddy_buddy]
      exact hc
    · exact h.coalesced c hc hlt hmem

theorem Tiling.erase (h : Tiling top T) (b : Block) : Tiling top (T \ {b}) where
  aligned := fun c hc => h.aligned c hc.1
  order_le := fun c hc => h.order_le c hc.1
  disjoint := fun c hc d hd => h.disjoint c hc.1 d hd.1
  coalesced := fun c hc hlt hmem => h.coalesced c hc.1 hlt hmem.1

theorem mem_cover_insert : x ∈ cover (insert b T) ↔ x ∈ b ∨ x ∈ cover T := by
  constructor
  · rintro ⟨c, rfl | hc, hx⟩
    · exact Or.inl hx
    · exact Or.inr ⟨c, hc, hx⟩
  · rintro (hx | ⟨c, hc, hx⟩)
    · exact ⟨b, Or.inl rfl, hx⟩
    · exact ⟨c, Or.inr hc, hx⟩

theorem Tiling.mem_cover_erase (h : Tiling top T) (hb : b ∈ T) :
    x ∈ cover (T \ {b}) ↔ x ∈ cover T ∧ x ∉ b := by
  constructor
  · rintro ⟨c, ⟨hc, hne⟩, hx⟩
    exact ⟨⟨c, hc, hx⟩, fun hxb => hne (h.disjoint c hc b hb x hx hxb)⟩
  · rintro ⟨⟨c, hc, hx⟩, hxb⟩
    refine ⟨c, ⟨hc, ?_⟩, hx⟩
    rintro rfl
    exact hxb hx

theorem tiling_empty : Tiling top ∅ where
  aligned := fun _ h => h.elim
  order_le := fun _ h => h.elim
  disjoint := fun _ h => h.elim
  coalesced := fun _ h => h.elim

end DyadicBlocks
