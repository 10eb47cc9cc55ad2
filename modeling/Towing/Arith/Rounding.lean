import Mathlib.Algebra.Order.Floor.Div
import Mathlib.Tactic.Linarith
import Mathlib.Tactic.Ring
import Mathlib.Data.Int.Basic

namespace Towing.Arith

/-- `Math.round (n / d)`: to the nearest integer, halves upwards. -/
def roundDiv (n d : ℤ) : ℤ := (2 * n + d) / (2 * d)

variable {n m d : ℤ}

theorem roundDiv_le (hd : 0 < d) (h : n ≤ m * d) : roundDiv n d ≤ m := by
  have hlt : roundDiv n d < m + 1 := by
    apply Int.ediv_lt_of_lt_mul (by omega)
    linarith [add_mul m 1 (2 * d), mul_comm m (2 * d), mul_assoc 2 d m, mul_comm d m]
  omega

theorem le_roundDiv (hd : 0 < d) (h : m * d ≤ n) : m ≤ roundDiv n d := by
  apply Int.le_ediv_of_mul_le (by omega)
  linarith [mul_comm m (2 * d), mul_assoc 2 d m, mul_comm d m]

theorem roundDiv_nonneg (hd : 0 < d) (h : 0 ≤ n) : 0 ≤ roundDiv n d :=
  le_roundDiv hd (by simpa using h)

end Towing.Arith
