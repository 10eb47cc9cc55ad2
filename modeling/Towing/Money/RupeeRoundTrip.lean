import Towing.Money.RupeeStrings
import Mathlib.Tactic.NormNum
import Mathlib.Tactic.Ring
import Mathlib.Tactic.FieldSimp
import Mathlib.Tactic.Linarith

namespace Towing.Money

open Towing.Db

/-! The digits of a number. -/

variable {n : ℕ} {cs : List Char} {c : Char}

theorem digits_eq (n : ℕ) : digits n = Nat.toDigits 10 n := Nat.toList_repr

theorem digits_digit (hc : c ∈ digits n) : c.isDigit = true := by
  rw [digits_eq] at hc
  exact Nat.isDigit_of_mem_toDigits (by decide) (by decide) hc

theorem digits_ne_nil (n : ℕ) : digits n ≠ [] := by
  rw [digits_eq]
  exact Nat.toDigits_ne_nil

theorem digits_value (n : ℕ) : Nat.ofDigitChars 10 (digits n) 0 = n := by
  rw [digits_eq]
  exact Nat.ofDigitChars_ten_toDigits

theorem cents_digits (hn : n < 100) : ∃ a b : Char, padStart 2 '0' (digits n) = [a, b] ∧ a.isDigit = true ∧
    b.isDigit = true ∧ Nat.ofDigitChars 10 [a, b] 0 = n := by
  rw [digits_eq]
  rcases Nat.lt_or_ge n 10 with hlt | hge
  · refine ⟨'0', n.digitChar, ?_, rfl, by simpa using hlt, ?_⟩
    · rw [Nat.toDigits_of_lt_base hlt]
      rfl
    · have hvalue := Nat.ofDigitChars_ten_toDigits (n := n)
      rw [Nat.toDigits_of_lt_base hlt] at hvalue
      exact hvalue
  · have htens : n / 10 < 10 := by omega
    have hones : n % 10 < 10 := by omega
    refine ⟨(n / 10).digitChar, (n % 10).digitChar, ?_, by simpa using htens, by simpa using hones, ?_⟩
    · rw [Nat.toDigits_of_base_le (by decide) hge, Nat.toDigits_of_lt_base htens]
      rfl
    · have hvalue := Nat.ofDigitChars_ten_toDigits (n := n)
      rw [Nat.toDigits_of_base_le (by decide) hge, Nat.toDigits_of_lt_base htens] at hvalue
      exact hvalue

/-! Numbers that a double holds. -/

theorem nearestDouble_exact (hn : n < 2 ^ 53) : nearestDouble n = some n := by
  have hlog : n.log2 - 52 = 0 := by
    by_cases hzero : n = 0
    · rw [hzero]
      rfl
    · have := (Nat.log2_lt hzero).mpr hn
      omega
  have hfinite : n < 2 ^ 1024 := Nat.lt_of_lt_of_le hn (Nat.pow_le_pow_right (by decide) (by decide))
  have hround : (if (1 : ℕ) < 2 * 0 ∨ 2 * 0 = 1 ∧ n % 2 = 1 then n + 1 else n) = n := if_neg (by omega)
  rw [nearestDouble, hlog, pow_zero]
  simp only [Nat.mod_one, Nat.div_one, hround, Nat.mul_one]
  rw [if_pos hfinite]

/-! What the pattern takes apart. -/

/-- Digits, and what follows them. -/
theorem span_digits {ds rest : List Char} (hds : ∀ c ∈ ds, c.isDigit = true) (hrest : ∀ c ∈ rest.head?, c.isDigit = false) :
    (ds ++ rest).takeWhile Char.isDigit = ds ∧ (ds ++ rest).dropWhile Char.isDigit = rest := by
  have hstop : rest.takeWhile Char.isDigit = [] ∧ rest.dropWhile Char.isDigit = rest := by
    cases rest with
    | nil => exact ⟨rfl, rfl⟩
    | cons c rest =>
      have hc : c.isDigit = false := hrest c rfl
      exact ⟨List.takeWhile_cons_of_neg (by simp [hc]), List.dropWhile_cons_of_neg (by simp [hc])⟩
  rw [List.takeWhile_append_of_pos hds, List.dropWhile_append_of_pos hds, hstop.1, hstop.2, List.append_nil]
  exact ⟨rfl, rfl⟩

namespace Decimal

variable (x : Decimal)

/-- What stands behind the whole part. -/
def tail : List Char := if x.fraction = [] then [] else '.' :: x.fraction

theorem tail_head : ∀ c ∈ x.tail.head?, c.isDigit = false := by
  intro c hc
  unfold tail at hc
  split_ifs at hc
  · cases hc
  · cases hc
    rfl

theorem whole_digits : ∀ c ∈ x.whole, c.isDigit = true := fun c hc ↦ x.digits c (List.mem_append_left _ hc)

theorem fraction_digits : ∀ c ∈ x.fraction, c.isDigit = true := fun c hc ↦ x.digits c (List.mem_append_right _ hc)

theorem unsigned : decide (x.text.head? = some '-') = x.negative ∧
    (if x.text.head? = some '-' then x.text.tail else x.text) = x.whole ++ x.tail := by
  obtain ⟨c, cs, hwhole⟩ := List.exists_cons_of_ne_nil x.whole_ne
  have hc := x.whole_digits c (hwhole ▸ List.mem_cons_self)
  have hne : c ≠ '-' := by
    intro hminus
    rw [hminus] at hc
    cases hc
  cases hnegative : x.negative with
  | true => simp [text, hnegative, tail]
  | false => simp [text, hnegative, hwhole, hne, tail]

end Decimal

theorem matchRupees_decimal (x : Decimal) (hx : x.fraction.length ≤ 2) :
    matchRupees x.text = some ⟨x.negative, x.whole, x.fraction⟩ := by
  obtain ⟨hnegative, hunsigned⟩ := x.unsigned
  obtain ⟨htake, hdrop⟩ := span_digits x.whole_digits x.tail_head
  have hwhole : x.whole.isEmpty = false := by
    rw [List.isEmpty_eq_false_iff]
    exact x.whole_ne
  simp only [matchRupees, hnegative, hunsigned, htake, hdrop, hwhole, Bool.false_eq_true, if_false]
  cases hfraction : x.fraction with
  | nil => simp [Decimal.tail, hfraction]
  | cons c cs =>
    have hall : (c :: cs).all Char.isDigit = true := by
      rw [List.all_eq_true, ← hfraction]
      exact x.fraction_digits
    have hlength : (c :: cs).length = 1 ∨ (c :: cs).length = 2 := by
      rw [hfraction] at hx
      simp only [List.length_cons] at hx ⊢
      omega
    simp only [Decimal.tail, hfraction, reduceCtorEq, if_false]
    rw [if_pos ⟨trivial, hall, hlength⟩]

theorem Decimal.hundredfold (x : Decimal) (hx : x.fraction.length ≤ 2) :
    100 * x.value = ((if x.negative then -1 else 1) *
      (Nat.ofDigitChars 10 x.whole 0 * 100 + Nat.ofDigitChars 10 (padEnd 2 '0' x.fraction) 0 : ℕ) : ℤ) := by
  have hpad : Nat.ofDigitChars 10 (padEnd 2 '0' x.fraction) 0 =
      10 ^ (2 - x.fraction.length) * Nat.ofDigitChars 10 x.fraction 0 := by
    rw [padEnd, Nat.ofDigitChars_append, Nat.ofDigitChars_replicate_zero]
  have hscale : (100 : ℚ) / 10 ^ x.fraction.length = 10 ^ (2 - x.fraction.length) := by
    rw [div_eq_iff (by positivity), ← pow_add, Nat.sub_add_cancel hx]
    norm_num
  rw [hpad, Decimal.value]
  push_cast
  rw [← hscale]
  split_ifs <;> ring

theorem paise_exact {m : RupeeMatch}
    (h : Nat.ofDigitChars 10 m.whole 0 * 100 + Nat.ofDigitChars 10 (padEnd 2 '0' m.fraction) 0 < 2 ^ 53) :
    m.paise = some (Nat.ofDigitChars 10 m.whole 0 * 100 + Nat.ofDigitChars 10 (padEnd 2 '0' m.fraction) 0) := by
  have hwhole := nearestDouble_exact (n := Nat.ofDigitChars 10 m.whole 0) (by omega)
  have hrupees := nearestDouble_exact (n := Nat.ofDigitChars 10 m.whole 0 * 100) (by omega)
  have hfraction := nearestDouble_exact (n := Nat.ofDigitChars 10 (padEnd 2 '0' m.fraction) 0) (by omega)
  simp only [RupeeMatch.paise, digitsNumber, hwhole, hrupees, hfraction, Option.bind_eq_bind, Option.bind_some,
    nearestDouble_exact h]

/-! Reading. -/

theorem isDigit_not_space (hc : c.isDigit = true) : isJsSpace c = false := by
  have hnat : 48 ≤ c.toNat ∧ c.toNat ≤ 57 := Char.isDigit_iff_toNat.mp hc
  have hspaces : ∀ n ∈ [9, 10, 11, 12, 13, 32, 160, 5760, 8192, 8193, 8194, 8195, 8196, 8197, 8198, 8199, 8200, 8201,
      8202, 8232, 8233, 8239, 8287, 12288, 65279], n < 48 ∨ 57 < n := by decide
  refine decide_eq_false fun hmem ↦ ?_
  have := hspaces c.toNat hmem
  omega

theorem trim_ofList (hhead : ∀ c ∈ cs.head?, isJsSpace c = false) (hlast : ∀ c ∈ cs.getLast?, isJsSpace c = false) :
    trim (String.ofList cs) = cs := by
  have hstays {ds : List Char} (hds : ∀ c ∈ ds.head?, isJsSpace c = false) : ds.dropWhile isJsSpace = ds := by
    cases ds with
    | nil => rfl
    | cons d ds => exact List.dropWhile_cons_of_neg (by simp [hds d rfl])
  rw [trim, String.toList_ofList, hstays hhead, hstays, List.reverse_reverse]
  rw [List.head?_reverse]
  exact hlast

theorem Decimal.trim_text (x : Decimal) : trim (String.ofList x.text) = x.text := by
  refine trim_ofList (fun c hc ↦ ?_) fun c hc ↦ ?_
  · obtain ⟨d, ds, hwhole⟩ := List.exists_cons_of_ne_nil x.whole_ne
    have hd := x.whole_digits d (hwhole ▸ List.mem_cons_self)
    unfold Decimal.text at hc
    rw [hwhole] at hc
    split_ifs at hc
    all_goals
      simp at hc
      subst hc
    all_goals first | rfl | exact isDigit_not_space hd
  · have hlast : x.text.getLast? = (x.whole ++ x.fraction).getLast? := by
      unfold Decimal.text
      cases hfraction : x.fraction with
      | nil =>
        rw [if_pos rfl, List.append_nil, List.append_nil, List.getLast?_append_of_ne_nil _ x.whole_ne]
      | cons d ds =>
        rw [if_neg (List.cons_ne_nil _ _), List.getLast?_append_of_ne_nil _ (List.cons_ne_nil _ _),
          List.getLast?_append_of_ne_nil _ (List.cons_ne_nil _ _), List.getLast?_cons_cons]
    rw [hlast] at hc
    exact isDigit_not_space (x.digits c (List.mem_of_getLast? hc))

theorem rupeeStringToPaise_of_match {value : String} {m : RupeeMatch} (hm : matchRupees (trim value) = some m)
    (hn : m.paise = some n) : rupeeStringToPaise value = .ok (.int (if m.negative then -n else n)) := by
  unfold rupeeStringToPaise
  simp only [hm, hn]

/-- The decimal of an amount that is safe is read as the amount. -/
theorem rupeeStringToPaise_exact (x : Decimal) (hx : x.fraction.length ≤ 2) {value : String} (hvalue : trim value = x.text)
    {paise : ℤ} (hpaise : (paise : ℚ) = 100 * x.value) (hsafe : |paise| ≤ 2 ^ 53 - 1) :
    rupeeStringToPaise value = .ok (.int paise) := by
  have hhundredfold := x.hundredfold hx
  rw [← hpaise] at hhundredfold
  have hint := Int.cast_injective hhundredfold
  have hlt : Nat.ofDigitChars 10 x.whole 0 * 100 + Nat.ofDigitChars 10 (padEnd 2 '0' x.fraction) 0 < 2 ^ 53 := by
    rw [hint, abs_mul, Nat.abs_cast] at hsafe
    have hone : |(if x.negative = true then -1 else 1 : ℤ)| = 1 := by split_ifs <;> rfl
    rw [hone, one_mul] at hsafe
    omega
  have hmatch := matchRupees_decimal x hx
  rw [← hvalue] at hmatch
  rw [rupeeStringToPaise_of_match hmatch (paise_exact hlt), hint]
  split_ifs
  · rw [neg_one_mul]
  · rw [one_mul]

/-! Writing. -/

/-- The canonical decimal of an amount. -/
def Decimal.ofPaise (paise : ℤ) : Decimal where
  negative := paise < 0
  whole := Towing.Money.digits (paise.natAbs / 100)
  fraction := padStart 2 '0' (Towing.Money.digits (paise.natAbs % 100))
  whole_ne := digits_ne_nil _
  digits := by
    obtain ⟨a, b, hcents, ha, hb, -⟩ := cents_digits (Nat.mod_lt paise.natAbs (by decide : 0 < 100))
    rw [hcents]
    refine List.forall_mem_append.mpr ⟨fun c hc ↦ digits_digit hc, ?_⟩
    simp [ha, hb]

variable {paise : ℤ}

theorem ofPaise_fraction (paise : ℤ) : (Decimal.ofPaise paise).fraction.length = 2 := by
  obtain ⟨a, b, hcents, -⟩ := cents_digits (Nat.mod_lt paise.natAbs (by decide : 0 < 100))
  simp [Decimal.ofPaise, hcents]

theorem ofPaise_value (paise : ℤ) : (paise : ℚ) = 100 * (Decimal.ofPaise paise).value := by
  obtain ⟨a, b, hcents, -, -, hvalue⟩ := cents_digits (Nat.mod_lt paise.natAbs (by decide : 0 < 100))
  rw [Decimal.hundredfold _ (ofPaise_fraction paise).le, Int.cast_inj]
  simp only [Decimal.ofPaise, hcents, digits_value, padEnd, List.length_cons, List.length_nil, Nat.zero_add, Nat.sub_self,
    List.replicate_zero, List.append_nil, hvalue, decide_eq_true_eq]
  have := Nat.div_add_mod' paise.natAbs 100
  split_ifs <;> omega

end Towing.Money
