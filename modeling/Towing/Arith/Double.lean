import Towing.Arith.Rounding
import Mathlib.Algebra.Order.Field.Power
import Mathlib.Algebra.Order.Ring.Abs
import Mathlib.Data.Nat.Log
import Mathlib.Data.Rat.Floor
import Mathlib.Tactic.FieldSimp
import Mathlib.Tactic.Linarith
import Mathlib.Tactic.Positivity
import Mathlib.Tactic.Ring

namespace Towing.Arith

/-! The doubles nearest to exact results, as far as no exponent runs out. -/

/-- To the nearest integer, halves to the even one. -/
def roundEven (x : ℚ) : ℤ :=
  if x - ⌊x⌋ < 1 / 2 then ⌊x⌋
  else if 1 / 2 < x - ⌊x⌋ then ⌊x⌋ + 1
  else if ⌊x⌋ % 2 = 0 then ⌊x⌋
  else ⌊x⌋ + 1

/-- A power of two. -/
def pow2 : ℤ → ℚ
  | .ofNat k => (2 ^ k : ℕ)
  | .negSucc k => 1 / (2 ^ (k + 1) : ℕ)

/-- The binary exponent of a number, by the lengths of its numerator and denominator. -/
def exponent (x : ℚ) : ℤ :=
  let k : ℤ := Nat.log2 x.num.natAbs - Nat.log2 x.den
  if pow2 k ≤ |x| then k else k - 1

/-- The unit in the last of 53 places. -/
def ulp (x : ℚ) : ℚ := pow2 (exponent x - 52)

/-- The double that an exact result is rounded to. -/
def double (x : ℚ) : ℚ := roundEven (x / ulp x) * ulp x

/-- `Math.round`: to the nearest integer, halves upwards. -/
def mathRound (x : ℚ) : ℤ := ⌊x + 1 / 2⌋

/-- `Math.round((n * pct) / 100)`. -/
def percentOf (n : ℤ) (pct : ℚ) : ℤ := mathRound (double (double (n * pct) / 100))

section roundEven

variable {x y : ℚ}

theorem floor_le_roundEven (x : ℚ) : ⌊x⌋ ≤ roundEven x := by
  unfold roundEven
  split_ifs <;> omega

theorem roundEven_le_floor (x : ℚ) : roundEven x ≤ ⌊x⌋ + 1 := by
  unfold roundEven
  split_ifs <;> omega

@[simp] theorem roundEven_intCast (n : ℤ) : roundEven n = n := by
  have hlt : (n : ℚ) - n < 1 / 2 := by
    rw [sub_self]
    norm_num
  rw [roundEven, Int.floor_intCast, if_pos hlt]

theorem roundEven_mono (h : x ≤ y) : roundEven x ≤ roundEven y := by
  rcases (Int.floor_mono h).lt_or_eq with hlt | heq
  · exact (roundEven_le_floor x).trans ((Int.add_one_le_iff.mpr hlt).trans (floor_le_roundEven y))
  · -- Within one unit the later case is never taken by the smaller number alone.
    unfold roundEven
    rw [heq]
    split_ifs <;> first | omega | (exfalso; linarith)

theorem abs_roundEven_sub_le (x : ℚ) : |(roundEven x : ℚ) - x| ≤ 1 / 2 := by
  have hfloor := Int.floor_le x
  have hnext := Int.lt_floor_add_one x
  unfold roundEven
  split_ifs <;> push_cast <;> rw [abs_le] <;> constructor <;> linarith

end roundEven

section exponent

variable {x y : ℚ} {k m : ℤ}

theorem pow2_eq (k : ℤ) : pow2 k = (2 : ℚ) ^ k := by
  cases k with
  | ofNat k => simp [pow2]
  | negSucc k => simp [pow2, zpow_negSucc]

theorem pow2_pos (k : ℤ) : 0 < pow2 k := by
  rw [pow2_eq]
  positivity

theorem pow2_add (j k : ℤ) : pow2 (j + k) = pow2 j * pow2 k := by
  rw [pow2_eq, pow2_eq, pow2_eq, zpow_add₀ two_ne_zero]

theorem pow2_le (h : k ≤ m) : pow2 k ≤ pow2 m := by
  rw [pow2_eq, pow2_eq]
  exact zpow_le_zpow_right₀ one_le_two h

theorem pow2_lt_iff : pow2 k < pow2 m ↔ k < m := by
  rw [pow2_eq, pow2_eq]
  exact zpow_lt_zpow_iff_right₀ one_lt_two

theorem log2_bounds {n : ℕ} (hn : n ≠ 0) : pow2 n.log2 ≤ n ∧ n < pow2 (n.log2 + 1) := by
  have hlow : 2 ^ n.log2 ≤ n := Nat.log2_self_le hn
  have hhigh : n < 2 ^ (n.log2 + 1) := Nat.lt_log2_self
  rw [pow2_eq, pow2_eq]
  exact ⟨by exact_mod_cast hlow, by exact_mod_cast hhigh⟩

theorem exponent_spec (hx : x ≠ 0) : pow2 (exponent x) ≤ |x| ∧ |x| < pow2 (exponent x + 1) := by
  obtain ⟨hn, hn'⟩ := log2_bounds (Int.natAbs_ne_zero.mpr (Rat.num_ne_zero.mpr hx))
  obtain ⟨hd, hd'⟩ := log2_bounds x.den_ne_zero
  have hden : (0 : ℚ) < x.den := by exact_mod_cast x.den_pos
  have habs : |x| * x.den = x.num.natAbs := by
    rw [Nat.cast_natAbs, Int.cast_abs, ← Rat.mul_den_eq_num x, abs_mul, Nat.abs_cast]
  unfold exponent
  dsimp only
  generalize (Nat.log2 x.num.natAbs : ℤ) = a at hn hn' ⊢
  generalize (Nat.log2 x.den : ℤ) = b at hd hd' ⊢
  have hbelow : |x| < pow2 (a - b + 1) := by
    refine lt_of_mul_lt_mul_right ?_ hden.le
    calc |x| * x.den < pow2 (a + 1) := by rw [habs]; exact hn'
      _ = pow2 (a - b + 1) * pow2 b := by rw [← pow2_add]; congr 1; ring
      _ ≤ pow2 (a - b + 1) * x.den := mul_le_mul_of_nonneg_left hd (pow2_pos _).le
  have habove : pow2 (a - b - 1) ≤ |x| := by
    refine le_of_mul_le_mul_right ?_ hden
    calc pow2 (a - b - 1) * x.den ≤ pow2 (a - b - 1) * pow2 (b + 1) :=
          mul_le_mul_of_nonneg_left hd'.le (pow2_pos _).le
      _ = pow2 a := by rw [← pow2_add]; congr 1; ring
      _ ≤ |x| * x.den := by rw [habs]; exact hn
  split_ifs with hk
  · exact ⟨hk, hbelow⟩
  · rw [sub_add_cancel]
    exact ⟨habove, not_le.mp hk⟩

theorem exponent_lt (hx : x ≠ 0) (h : |x| < pow2 k) : exponent x < k :=
  pow2_lt_iff.mp ((exponent_spec hx).1.trans_lt h)

theorem exponent_mono (hx : x ≠ 0) (h : |x| ≤ |y|) : exponent x ≤ exponent y := by
  have hy : y ≠ 0 := by
    rintro rfl
    exact hx (abs_eq_zero.mp (le_antisymm (by simpa using h) (abs_nonneg x)))
  exact Int.lt_add_one_iff.mp (exponent_lt hx (h.trans_lt (exponent_spec hy).2))

end exponent

section double

variable {x y : ℚ} {n k : ℤ}

theorem ulp_pos (x : ℚ) : 0 < ulp x := pow2_pos _

theorem pow2_exponent (x : ℚ) : pow2 (exponent x) = (2 ^ 52 : ℤ) * ulp x := by
  have h52 : ((2 ^ 52 : ℤ) : ℚ) = pow2 52 := by norm_num [pow2_eq]
  rw [h52, ulp, ← pow2_add]
  congr 1
  ring

theorem pow2_exponent_succ (x : ℚ) : pow2 (exponent x + 1) = (2 ^ 53 : ℤ) * ulp x := by
  have h53 : ((2 ^ 53 : ℤ) : ℚ) = pow2 53 := by norm_num [pow2_eq]
  rw [h53, ulp, ← pow2_add]
  congr 1
  ring

/-- What lies on the grid of a number bounds its double as it bounds the number. -/
theorem double_le (h : x ≤ n * ulp x) : double x ≤ n * ulp x := by
  have hround := roundEven_mono ((div_le_iff₀ (ulp_pos x)).mpr h)
  rw [roundEven_intCast] at hround
  exact mul_le_mul_of_nonneg_right (by exact_mod_cast hround) (ulp_pos x).le

theorem le_double (h : n * ulp x ≤ x) : n * ulp x ≤ double x := by
  have hround := roundEven_mono ((le_div_iff₀ (ulp_pos x)).mpr h)
  rw [roundEven_intCast] at hround
  exact mul_le_mul_of_nonneg_right (by exact_mod_cast hround) (ulp_pos x).le

theorem double_nonneg (h : 0 ≤ x) : 0 ≤ double x := by
  simpa using le_double (n := 0) (by simpa using h)

theorem double_nonpos (h : x ≤ 0) : double x ≤ 0 := by
  simpa using double_le (n := 0) (by simpa using h)

theorem double_mono (h : x ≤ y) : double x ≤ double y := by
  rcases lt_trichotomy x 0 with hx | rfl | hx
  · rcases le_or_gt 0 y with hy | hy
    · exact (double_nonpos hx.le).trans (double_nonneg hy)
    · -- Both are negative, and the greater one has the smaller exponent.
      have hexponent := exponent_mono hy.ne (y := x) (by rw [abs_of_neg hy, abs_of_neg hx]; linarith)
      rcases hexponent.lt_or_eq with hlt | heq
      · have hlow := (exponent_spec hx.ne).1
        have hhigh := (exponent_spec hy.ne).2
        rw [abs_of_neg hx, pow2_exponent] at hlow
        rw [abs_of_neg hy, pow2_exponent_succ] at hhigh
        have hgrid := pow2_le (Int.add_one_le_iff.mpr hlt)
        rw [pow2_exponent_succ, pow2_exponent] at hgrid
        calc double x ≤ (-2 ^ 52 : ℤ) * ulp x := double_le (by push_cast at hlow ⊢; linarith)
          _ ≤ (-2 ^ 53 : ℤ) * ulp y := by push_cast at hgrid ⊢; linarith
          _ ≤ double y := le_double (by push_cast at hhigh ⊢; linarith)
      · have hulp : ulp x = ulp y := by rw [ulp, ulp, heq]
        rw [double, double, hulp]
        refine mul_le_mul_of_nonneg_right ?_ (ulp_pos y).le
        exact_mod_cast roundEven_mono (div_le_div_of_nonneg_right h (ulp_pos y).le)
  · exact (double_nonpos le_rfl).trans (double_nonneg h)
  · have hy : 0 < y := hx.trans_le h
    have hexponent := exponent_mono hx.ne' (y := y) (by rwa [abs_of_pos hx, abs_of_pos hy])
    rcases hexponent.lt_or_eq with hlt | heq
    · have hhigh := (exponent_spec hx.ne').2
      have hlow := (exponent_spec hy.ne').1
      rw [abs_of_pos hx, pow2_exponent_succ] at hhigh
      rw [abs_of_pos hy, pow2_exponent] at hlow
      have hgrid := pow2_le (Int.add_one_le_iff.mpr hlt)
      rw [pow2_exponent_succ, pow2_exponent] at hgrid
      exact (double_le hhigh.le).trans (hgrid.trans (le_double hlow))
    · have hulp : ulp x = ulp y := by rw [ulp, ulp, heq]
      rw [double, double, hulp]
      refine mul_le_mul_of_nonneg_right ?_ (ulp_pos y).le
      exact_mod_cast roundEven_mono (div_le_div_of_nonneg_right h (ulp_pos y).le)

/-- A number of at most 53 places is a double. -/
theorem double_of_grid (hx : x = n * pow2 k) (hn : |n| ≤ 2 ^ 53) : double x = x := by
  have hgrid : ∃ m : ℤ, x = m * ulp x := by
    rcases eq_or_ne x 0 with rfl | hne
    · exact ⟨0, by simp⟩
    have hbound : |x| ≤ pow2 (53 + k) := by
      rw [hx, abs_mul, abs_of_pos (pow2_pos k), pow2_add]
      refine mul_le_mul_of_nonneg_right ?_ (pow2_pos k).le
      rw [pow2_eq, ← Int.cast_abs]
      exact_mod_cast hn
    have hexponent : exponent x ≤ 53 + k := by
      by_contra hlt
      have := pow2_lt_iff.mpr (not_le.mp hlt)
      linarith [(exponent_spec hne).1]
    rcases hexponent.lt_or_eq with hlt | heq
    · obtain ⟨j, hj⟩ := Int.eq_ofNat_of_zero_le (show 0 ≤ k - (exponent x - 52) by omega)
      refine ⟨n * 2 ^ j, ?_⟩
      have hk : pow2 k = 2 ^ j * ulp x := by
        rw [show (2 : ℚ) ^ j = pow2 j by rw [pow2_eq, zpow_natCast], ulp, ← pow2_add]
        congr 1
        omega
      push_cast
      rw [mul_assoc, ← hk]
      exact hx
    · -- Only the two numbers of 54 places whose last ones are all zeros come so far.
      have hsharp : |x| = pow2 (exponent x) := le_antisymm (heq ▸ hbound) (exponent_spec hne).1
      rw [pow2_exponent] at hsharp
      rcases abs_choice x with habs | habs
      · exact ⟨2 ^ 52, by rw [← hsharp, habs]⟩
      · exact ⟨-2 ^ 52, by push_cast at hsharp ⊢; linarith⟩
  obtain ⟨m, hm⟩ := hgrid
  exact le_antisymm ((double_le hm.le).trans hm.ge) (hm.le.trans (le_double hm.ge))

theorem double_intCast (hn : |n| ≤ 2 ^ 53) : double n = n :=
  double_of_grid (k := 0) (by simp [pow2]) hn

/-- The error is half a unit at most. -/
theorem abs_double_sub_le (x : ℚ) : |double x - x| ≤ ulp x / 2 := by
  have hscaled := abs_roundEven_sub_le (x / ulp x)
  have hpos := ulp_pos x
  have heq : double x - x = (roundEven (x / ulp x) - x / ulp x) * ulp x := by
    rw [double, sub_mul, div_mul_cancel₀ _ hpos.ne']
  rw [heq, abs_mul, abs_of_pos hpos]
  linarith [mul_le_mul_of_nonneg_right hscaled hpos.le]

theorem abs_double_sub_le_abs (x : ℚ) : |double x - x| * 2 ^ 53 ≤ |x| := by
  rcases eq_or_ne x 0 with rfl | hne
  · rw [double_of_grid (n := 0) (k := 0) (by simp) (by norm_num)]
    simp
  · have hlow := (exponent_spec hne).1
    rw [pow2_exponent] at hlow
    push_cast at hlow
    linarith [abs_double_sub_le x]

end double

section mathRound

variable {x y : ℚ} {n : ℤ}

theorem mathRound_mono (h : x ≤ y) : mathRound x ≤ mathRound y :=
  Int.floor_mono (by linarith)

@[simp] theorem mathRound_intCast (n : ℤ) : mathRound n = n := by
  rw [mathRound, Int.floor_eq_iff]
  constructor <;> linarith

theorem abs_mathRound_sub_le (x : ℚ) : |(mathRound x : ℚ) - x| ≤ 1 / 2 := by
  have hfloor := Int.floor_le (x + 1 / 2)
  have hnext := Int.lt_floor_add_one (x + 1 / 2)
  rw [abs_le, mathRound]
  constructor <;> linarith

/-- What is off an integer by less than a half is rounded to it. -/
theorem mathRound_eq (h : |x - n| < 1 / 2) : mathRound x = n := by
  obtain ⟨hlow, hhigh⟩ := abs_lt.mp h
  rw [mathRound, Int.floor_eq_iff]
  constructor <;> linarith

/-- A quotient of an exact integer by a hundred is rounded as it should be. -/
theorem mathRound_hundredth (hn : |n| < 2 ^ 53) : mathRound (double (n / 100)) = roundDiv n 100 := by
  obtain ⟨hlow, hhigh⟩ : 200 * roundDiv n 100 ≤ 2 * n + 100 ∧ 2 * n + 100 < 200 * roundDiv n 100 + 199 := by
    unfold roundDiv
    omega
  generalize roundDiv n 100 = r at hlow hhigh ⊢
  have hlow' : (r : ℚ) - 1 / 2 ≤ n / 100 := by
    have : (200 : ℚ) * r ≤ 2 * n + 100 := by exact_mod_cast hlow
    linarith
  have hhigh' : (n : ℚ) / 100 ≤ r + 1 / 2 - 1 / 100 := by
    have : (2 : ℚ) * n + 100 ≤ 200 * r + 198 := by exact_mod_cast (by omega : 2 * n + 100 ≤ 200 * r + 198)
    linarith
  rw [mathRound, Int.floor_eq_iff]
  constructor
  · -- The half below is a double itself.
    have hhalf : double ((r : ℚ) - 1 / 2) = r - 1 / 2 := by
      refine double_of_grid (n := 2 * r - 1) (k := -1) ?_ ?_
      · rw [pow2_eq]
        push_cast
        ring
      · rw [abs_lt] at hn
        rw [abs_le]
        omega
    linarith [double_mono hlow']
  · -- The half above is too far off to be reached by an error.
    have herror := abs_double_sub_le_abs ((n : ℚ) / 100)
    have hsize : |(n : ℚ) / 100| < 2 ^ 53 / 100 := by
      rw [abs_div, abs_of_pos (by norm_num : (0 : ℚ) < 100)]
      refine div_lt_div_of_pos_right ?_ (by norm_num)
      exact_mod_cast hn
    have hclose : |double ((n : ℚ) / 100) - n / 100| < 1 / 100 := by linarith
    linarith [(abs_lt.mp hclose).2]

end mathRound

section percentOf

variable {n m : ℤ} {pct : ℚ}

/-- Whole percentages of what is not too large are rounded exactly. -/
theorem percentOf_intCast (h : |n * m| < 2 ^ 53) : percentOf n m = roundDiv (n * m) 100 := by
  have hproduct : double ((n : ℚ) * m) = ((n * m : ℤ) : ℚ) := by
    rw [← Int.cast_mul]
    exact double_intCast h.le
  rw [percentOf, hproduct, mathRound_hundredth h]

/-- Between nothing and the whole, whatever is rounded on the way. -/
theorem percentOf_mem (hn : 0 ≤ n) (hmax : n * 100 ≤ 2 ^ 53) (h0 : 0 ≤ pct) (h1 : pct ≤ 100) :
    0 ≤ percentOf n pct ∧ percentOf n pct ≤ n := by
  have hn' : (0 : ℚ) ≤ n := by exact_mod_cast hn
  have hproduct : double (n * pct) ≤ n * 100 := by
    have hwhole : double ((n * 100 : ℤ) : ℚ) = ((n * 100 : ℤ) : ℚ) :=
      double_intCast (by rw [abs_of_nonneg (by omega)]; exact hmax)
    push_cast at hwhole
    exact (double_mono (mul_le_mul_of_nonneg_left h1 hn')).trans hwhole.le
  constructor
  · have hzero := mathRound_mono (double_nonneg (div_nonneg (double_nonneg (mul_nonneg hn' h0)) (by norm_num : (0 : ℚ) ≤ 100)))
    rwa [show (0 : ℚ) = ((0 : ℤ) : ℚ) by norm_num, mathRound_intCast] at hzero
  · have hquotient : double (n * pct) / 100 ≤ n := by linarith
    have hround := mathRound_mono ((double_mono hquotient).trans (double_intCast (by rw [abs_of_nonneg hn]; omega)).le)
    rwa [mathRound_intCast] at hround

theorem percentOf_mem_neg (hn : n ≤ 0) (hmin : -(2 ^ 53) ≤ n * 100) (h0 : 0 ≤ pct) (h1 : pct ≤ 100) :
    n ≤ percentOf n pct ∧ percentOf n pct ≤ 0 := by
  have hn' : (n : ℚ) ≤ 0 := by exact_mod_cast hn
  have hproduct : (n : ℚ) * 100 ≤ double (n * pct) := by
    have hwhole : double ((n * 100 : ℤ) : ℚ) = ((n * 100 : ℤ) : ℚ) :=
      double_intCast (by rw [abs_of_nonpos (by omega)]; omega)
    push_cast at hwhole
    exact hwhole.ge.trans (double_mono (mul_le_mul_of_nonpos_left h1 hn'))
  constructor
  · have hquotient : (n : ℚ) ≤ double (n * pct) / 100 := by linarith
    have hround := mathRound_mono ((double_intCast (by rw [abs_of_nonpos hn]; omega)).ge.trans (double_mono hquotient))
    rwa [mathRound_intCast] at hround
  · have hquotient : double (n * pct) / 100 ≤ 0 :=
      div_nonpos_of_nonpos_of_nonneg (double_nonpos (mul_nonpos_of_nonpos_of_nonneg hn' h0)) (by norm_num)
    have hzero := mathRound_mono (double_nonpos hquotient)
    rwa [show (0 : ℚ) = ((0 : ℤ) : ℚ) by norm_num, mathRound_intCast] at hzero

end percentOf

end Towing.Arith
