import Mathlib.Tactic

/-! Steps of a 32-bit counter that stay within its range. -/

namespace Int32

theorem toInt_add_one {x b : Int32} (h : x < b) : (x + 1).toInt = x.toInt + 1 := by
  have hlt := Int32.lt_iff_toInt_lt.mp h
  have hb := b.toInt_lt
  have hx := x.le_toInt
  rw [Int32.toInt_add, show (1 : Int32).toInt = 1 from rfl]
  exact Int.bmod_eq_of_le (by norm_num; omega) (by norm_num; omega)

theorem toInt_sub_one {x b : Int32} (h : b < x) : (x - 1).toInt = x.toInt - 1 := by
  have hlt := Int32.lt_iff_toInt_lt.mp h
  have hb := b.le_toInt
  have hx := x.toInt_lt
  rw [Int32.toInt_sub, show (1 : Int32).toInt = 1 from rfl]
  exact Int.bmod_eq_of_le (by norm_num; omega) (by norm_num; omega)

end Int32
