import Towing.Money.RupeeRoundTrip

namespace Towing.Money

open Towing.Db

variable {cs : List Char} {n : ℕ} {paise : ℤ}

/-! The grouping. -/

/-- The value is the exact hundredfold of the decimal, and writing it again gives the
decimal in its canonical form. -/
def Faithful (x : Decimal) (v : JsNumber) : Prop :=
  ∃ paise : ℤ, v = .int paise ∧ (paise : ℚ) = 100 * x.value ∧ ∃ s, paiseToRupeeString v = .ok s ∧
    ∃ y : Decimal, y.text = s.toList ∧ y.value = x.value ∧ y.Canonical

end Towing.Money
