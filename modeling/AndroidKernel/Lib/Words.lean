import Mathlib.Tactic

/-! Machine words read as signed integers: when a sum of words is the sum of the integers, and when
an unsigned comparison is one of the integers. -/

namespace Words
variable {w : ℕ}

theorem toInt_add_ofNat (x : BitVec w) (a : ℕ) :
    (x + BitVec.ofNat w a).toInt = (x.toInt + a).bmod (2 ^ w) := by
  have ha : (BitVec.ofNat w a).toInt = (a : ℤ).bmod (2 ^ w) := BitVec.toInt_ofNat a
  rw [BitVec.toInt_add, ha, Int.add_bmod_bmod]

/-- Adding `a` to a word adds `r` to the integer exactly if they agree modulo the word size and
the integer stays in range. -/
theorem toInt_add_ofNat_eq_iff (x : BitVec w) (a r : ℕ) :
    (x + BitVec.ofNat w a).toInt = x.toInt + r ↔
      a ≡ r [MOD 2 ^ w] ∧ 2 * (x.toInt + r) < 2 ^ w := by
  constructor
  · intro h
    have hlt := BitVec.two_mul_toInt_lt (x := x + BitVec.ofNat w a)
    rw [h] at hlt
    refine ⟨?_, hlt⟩
    have hmod : (x.toInt + a) % (2 ^ w : ℕ) = (x.toInt + r) % (2 ^ w : ℕ) := by
      rw [← h, toInt_add_ofNat, Int.bmod_emod]
    have hcancel : (a : ℤ) ≡ r [ZMOD (2 ^ w : ℕ)] := Int.ModEq.add_left_cancel' _ hmod
    exact Int.natCast_modEq_iff.mp hcancel
  · rintro ⟨hmod, hlt⟩
    have hx := BitVec.le_two_mul_toInt (x := x)
    have hcong : (x.toInt + a) % (2 ^ w : ℕ) = (x.toInt + r) % (2 ^ w : ℕ) :=
      (Int.natCast_modEq_iff.mpr hmod).add_left _
    rw [toInt_add_ofNat, ← Int.emod_bmod, hcong, Int.emod_bmod]
    apply Int.bmod_eq_of_le_mul_two
    · push_cast
      omega
    · push_cast
      omega

theorem toInt_sub_of_toNat_le {x y : BitVec w} (h : (y.toNat : ℤ) ≤ x.toInt) :
    (x - y).toInt = x.toInt - y.toNat := by
  have hx := BitVec.two_mul_toInt_lt (x := x)
  have hy : y.toInt = (y.toNat : ℤ).bmod (2 ^ w) := BitVec.toInt_eq_toNat_bmod y
  rw [BitVec.toInt_sub, hy, Int.sub_bmod_bmod]
  apply Int.bmod_eq_of_le_mul_two
  · push_cast
    have hpos : (0 : ℤ) ≤ 2 ^ w := by positivity
    omega
  · push_cast
    omega

theorem toInt_add_of_range {x y : BitVec w} (hlow : -2 ^ w ≤ 2 * (x.toInt + y.toInt))
    (hhigh : 2 * (x.toInt + y.toInt) < 2 ^ w) : (x + y).toInt = x.toInt + y.toInt := by
  rw [BitVec.toInt_add]
  apply Int.bmod_eq_of_le_mul_two
  · push_cast
    omega
  · push_cast
    omega

theorem toInt_sub_of_range {x y : BitVec w} (hlow : -2 ^ w ≤ 2 * (x.toInt - y.toInt))
    (hhigh : 2 * (x.toInt - y.toInt) < 2 ^ w) : (x - y).toInt = x.toInt - y.toInt := by
  rw [BitVec.toInt_sub]
  apply Int.bmod_eq_of_le_mul_two
  · push_cast
    omega
  · push_cast
    omega

theorem toInt_of_toNat_lt {x : BitVec w} (h : 2 * x.toNat < 2 ^ w) : x.toInt = x.toNat := by
  rw [BitVec.toInt_eq_toNat_cond, if_pos h]

theorem toInt_ofNat_of_lt {n : ℕ} (h : 2 * n < 2 ^ w) : (BitVec.ofNat w n).toInt = n := by
  have h' : (2 * n : ℤ) < 2 ^ w := by exact_mod_cast h
  rw [show (BitVec.ofNat w n).toInt = (n : ℤ).bmod (2 ^ w) from BitVec.toInt_ofNat n]
  apply Int.bmod_eq_of_le_mul_two
  · push_cast
    omega
  · push_cast
    omega

theorem add_ofNat_eq_self (x : BitVec w) (n : ℕ) :
    x + BitVec.ofNat w n = x ↔ n % 2 ^ w = 0 := by
  have hzero : BitVec.ofNat w n = 0#w ↔ n % 2 ^ w = 0 := by
    rw [← BitVec.toNat_inj, BitVec.toNat_ofNat, BitVec.toNat_ofNat, Nat.zero_mod]
  rw [← hzero]
  exact BitVec.add_right_eq_self

theorem toInt_add_ofNat_eq (x : BitVec w) (n : ℕ) :
    (x + BitVec.ofNat w n).toInt = n ↔ x = 0#w ∧ 2 * n < 2 ^ w := by
  constructor
  · intro h
    have hlt := BitVec.two_mul_toInt_lt (x := x + BitVec.ofNat w n)
    rw [h] at hlt
    have hn : 2 * n < 2 ^ w := by exact_mod_cast hlt
    have heq : x + BitVec.ofNat w n = BitVec.ofNat w n :=
      BitVec.eq_of_toInt_eq (h.trans (toInt_ofNat_of_lt hn).symm)
    exact ⟨BitVec.add_left_eq_self.mp heq, hn⟩
  · rintro ⟨rfl, hn⟩
    rw [BitVec.zero_add, toInt_ofNat_of_lt hn]

theorem toNat_add_ofNat (x : BitVec w) (a : ℕ) :
    ((x + BitVec.ofNat w a).toNat : ℤ) = (x.toInt + a) % 2 ^ w := by
  have hx : x.toInt = (x.toNat : ℤ).bmod (2 ^ w) := BitVec.toInt_eq_toNat_bmod x
  have hmod : (x.toInt + a) % (2 ^ w : ℕ) = ((x.toNat : ℤ) + a) % (2 ^ w : ℕ) := by
    rw [hx, Int.add_emod, Int.bmod_emod, ← Int.add_emod]
  rw [BitVec.toNat_add, BitVec.toNat_ofNat, Nat.add_mod_mod]
  push_cast at hmod ⊢
  exact hmod.symm

theorem toInt_of_nonneg {x : BitVec w} (h : 0 ≤ x.toInt) : x.toInt = x.toNat := by
  have hlt := x.isLt
  rw [BitVec.toInt_eq_toNat_cond] at h ⊢
  split at h
  · rename_i hx
    rw [if_pos hx]
  · omega

theorem lt_add_ofNat_iff {x m : BitVec w} {a : ℕ} (hm : 0 ≤ m.toInt) (ha : 2 * a ≤ 2 ^ w) :
    (m < x + BitVec.ofNat w a ↔ m.toInt < x.toInt + a) ↔ 0 ≤ x.toInt + a := by
  have hlow := BitVec.le_two_mul_toInt (x := x)
  have hhigh := BitVec.two_mul_toInt_lt (x := x)
  have hmax := BitVec.two_mul_toInt_lt (x := m)
  have hsum := toNat_add_ofNat x a
  have ha' : (2 * a : ℤ) ≤ 2 ^ w := by exact_mod_cast ha
  rw [BitVec.lt_def, ← Int.ofNat_lt, ← toInt_of_nonneg hm, hsum]
  by_cases hs : 0 ≤ x.toInt + a
  · rw [Int.emod_eq_of_lt hs (by omega)]
    exact iff_of_true Iff.rfl hs
  · have hwrap : (x.toInt + a) % 2 ^ w = x.toInt + a + 2 ^ w := by
      rw [← Int.add_emod_right, Int.emod_eq_of_lt (by omega) (by omega)]
    rw [hwrap]
    refine iff_of_false (fun h => ?_) hs
    have := h.mp (by omega)
    omega

end Words
