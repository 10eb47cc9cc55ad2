import Mathlib.Algebra.BigOperators.Group.List.Basic
import Mathlib.Algebra.Order.BigOperators.Group.List
import Mathlib.Data.List.Nodup
import Mathlib.Tactic.Linarith

namespace Towing.Arith

/-! Sharing out what rounding has left, one unit at a place. -/

/-- One more at each of the places, as often as it is named. -/
def addOnes (places : List ℕ) (legs : List ℤ) : List ℤ := places.foldl (fun legs i ↦ legs.modify i (· + 1)) legs

variable {legs : List ℤ} {places : List ℕ} {i : ℕ}

@[simp] theorem addOnes_nil : addOnes [] legs = legs := rfl

@[simp] theorem addOnes_cons : addOnes (i :: places) legs = addOnes places (legs.modify i (· + 1)) := rfl

@[simp] theorem length_addOnes : (addOnes places legs).length = legs.length := by
  induction places generalizing legs with
  | nil => rfl
  | cons j places ih => rw [addOnes_cons, ih, List.length_modify]

theorem getElem?_addOnes : (addOnes places legs)[i]? = legs[i]?.map (· + (places.count i : ℤ)) := by
  induction places generalizing legs with
  | nil => simp
  | cons j places ih =>
    rw [addOnes_cons, ih, List.getElem?_modify, List.count_cons]
    by_cases hij : j = i
    · subst hij
      cases legs[j]? with
      | none => rfl
      | some n =>
        simp
        omega
    · simp [hij]

theorem sum_modify_succ (hi : i < legs.length) : (legs.modify i (· + 1)).sum = legs.sum + 1 := by
  induction legs generalizing i with
  | nil => simp at hi
  | cons n legs ih =>
    cases i with
    | zero =>
      rw [List.modify_zero_cons, List.sum_cons, List.sum_cons]
      omega
    | succ i =>
      rw [List.modify_succ_cons, List.sum_cons, List.sum_cons, ih (Nat.lt_of_succ_lt_succ hi)]
      omega

theorem sum_addOnes (h : ∀ j ∈ places, j < legs.length) : (addOnes places legs).sum = legs.sum + places.length := by
  induction places generalizing legs with
  | nil => simp
  | cons j places ih =>
    have hj := h j List.mem_cons_self
    rw [addOnes_cons, ih fun k hk ↦ ?_, sum_modify_succ hj, List.length_cons]
    · push_cast
      omega
    · rw [List.length_modify]
      exact h k (List.mem_cons_of_mem _ hk)

/-! The remainders of a division of the parts of a whole. -/

section

variable {rs : List ℤ} {d u : ℤ}

theorem sum_le_countP_mul (hrs : ∀ r ∈ rs, 0 ≤ r ∧ r < d) : rs.sum ≤ rs.countP (· ≠ 0) * (d - 1) := by
  induction rs with
  | nil => simp
  | cons r rs ih =>
    have hrest := ih fun r' hr' ↦ hrs r' (List.mem_cons_of_mem _ hr')
    obtain ⟨hnonneg, hlt⟩ := hrs r List.mem_cons_self
    rw [List.sum_cons, List.countP_cons]
    by_cases hr : r = 0
    · simpa [hr] using hrest
    · have hone : (if decide (r ≠ 0) = true then 1 else 0) = 1 := if_pos (decide_eq_true hr)
      rw [hone, Nat.cast_add, Nat.cast_one, add_mul, one_mul]
      omega

/-- What the floors leave is less than there are remainders to give it to. -/
theorem shortfall_le_countP (hd : 0 < d) (hrs : ∀ r ∈ rs, 0 ≤ r ∧ r < d) (hsum : rs.sum = u * d) :
    0 ≤ u ∧ u ≤ rs.countP (· ≠ 0) := by
  constructor
  · have hnonneg : 0 ≤ rs.sum := List.sum_nonneg fun r hr ↦ (hrs r hr).1
    exact nonneg_of_mul_nonneg_left (hsum ▸ hnonneg) hd
  · by_contra hlt
    have hle := sum_le_countP_mul hrs
    have hmore : ((rs.countP (· ≠ 0) : ℤ) + 1) * d ≤ u * d := mul_le_mul_of_nonneg_right (by omega) (le_of_lt hd)
    rw [hsum] at hle
    have hcount : 0 ≤ (rs.countP (· ≠ 0) : ℤ) := Int.natCast_nonneg _
    linarith [add_mul (rs.countP (· ≠ 0) : ℤ) 1 d, mul_sub (rs.countP (· ≠ 0) : ℤ) d 1]

end

/-! The places in the order of their remainders. -/

section

variable {α : Type} (key : α → ℤ) {order : List α} {n : ℕ} {x y : α}

theorem taken_of_larger (hsorted : order.Pairwise fun x y ↦ key y ≤ key x) (hx : x ∈ order.take n) (hy : y ∈ order)
    (hlt : key x < key y) : y ∈ order.take n := by
  rw [← List.take_append_drop n order] at hsorted hy
  rcases List.mem_append.mp hy with hy | hy
  · exact hy
  · have := (List.pairwise_append.mp hsorted).2.2 x hx y hy
    omega

/-- Where enough of the keys are not zero, those of the first places are not. -/
theorem taken_ne_zero (hsorted : order.Pairwise fun x y ↦ key y ≤ key x) (hnonneg : ∀ x ∈ order, 0 ≤ key x)
    (hn : n ≤ order.countP fun x ↦ key x ≠ 0) (hx : x ∈ order.take n) : key x ≠ 0 := by
  intro hzero
  have hrest : ∀ y ∈ order.drop n, key y = 0 := by
    intro y hy
    rw [← List.take_append_drop n order] at hsorted
    have hle := (List.pairwise_append.mp hsorted).2.2 x hx y hy
    have := hnonneg y (List.mem_of_mem_drop hy)
    omega
  have hcount : order.countP (fun x ↦ key x ≠ 0) = (order.take n).countP fun x ↦ key x ≠ 0 := by
    conv_lhs => rw [← List.take_append_drop n order]
    rw [List.countP_append, Nat.add_eq_left, List.countP_eq_zero]
    intro y hy
    simp [hrest y hy]
  have hlt : (order.take n).countP (fun x ↦ key x ≠ 0) < (order.take n).length := by
    refine lt_of_le_of_ne List.countP_le_length fun hall ↦ ?_
    have := List.countP_eq_length.mp hall x hx
    simp [hzero] at this
  have := List.length_take_le n order
  omega

end

end Towing.Arith
