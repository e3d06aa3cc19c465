import Mathlib.Tactic

/-! Arrears: parties that owe something each, in the order in which they are paid for. Whoever is
paid for in full leaves the queue. -/

namespace Arrears
variable {ι : Type*}

def pay : ℕ → List (ι × ℕ) → List (ι × ℕ)
  | _, [] => []
  | amount, (i, d) :: l => if d ≤ amount then pay (amount - d) l else (i, d - amount) :: l

variable {l pre post : List (ι × ℕ)} {i : ι} {d amount : ℕ}

theorem pay_zero (h : ∀ p ∈ l, 0 < p.2) : pay 0 l = l := by
  cases l with
  | nil => rfl
  | cons p l =>
    have hp := h p (List.mem_cons_self ..)
    rw [pay, if_neg (by omega), Nat.sub_zero]

end Arrears
