import Mathlib.Data.List.Nodup
import Mathlib.Data.List.Basic
import Mathlib.Order.Lattice

namespace Towing.Arith

/-! The place of an entry in a list, sifted or sorted by score. -/

variable {α β : Type} [LinearOrder β] {score : α → β} {xs : List α} {a : α} {n : ℕ}

def byBest (score : α → β) (xs : List α) : List α := xs.mergeSort fun a b ↦ score b ≤ score a

theorem byBest_pairwise (xs : List α) : (byBest score xs).Pairwise fun a b ↦ score b ≤ score a := by
  have h := @List.pairwise_mergeSort _ (fun a b : α ↦ decide (score b ≤ score a))
    (fun a b c hab hbc ↦ by
      simp only [decide_eq_true_eq] at *
      exact le_trans hbc hab)
    (fun a b ↦ by simpa using le_total (score b) (score a)) xs
  exact h.imp of_decide_eq_true

/-- Sorting one more entry puts it behind the better ones of the rest. -/
theorem byBest_cons (a : α) (xs : List α) : ∃ better others, byBest score (a :: xs) = better ++ a :: others ∧
    byBest score xs = better ++ others ∧ (∀ b ∈ better, score a < score b) ∧ ∀ b ∈ others, score b ≤ score a := by
  obtain ⟨better, others, hcons, hrest, hbetter⟩ := @List.mergeSort_cons _ (fun a b : α ↦ decide (score b ≤ score a))
    (fun a b c hab hbc ↦ by
      simp only [decide_eq_true_eq] at *
      exact le_trans hbc hab)
    (fun a b ↦ by simpa using le_total (score b) (score a)) a xs
  refine ⟨better, others, hcons, hrest, fun b hb ↦ by simpa using hbetter b hb, ?_⟩
  have hpairwise := @byBest_pairwise _ _ _ score (a :: xs)
  rw [byBest, hcons, List.pairwise_append] at hpairwise
  exact (List.pairwise_cons.mp hpairwise.2.1).1

variable [DecidableEq α]

/-- How many entries a stable sort by score, the best first, puts before this one. -/
def ahead (score : α → β) (xs : List α) (a : α) : ℕ :=
  xs.countP (score a < score ·) + (xs.takeWhile (· ≠ a)).countP (score · = score a)

theorem idxOf_byBest (hnodup : xs.Nodup) (ha : a ∈ xs) : (byBest score xs).idxOf a = ahead score xs a := by
  induction xs with
  | nil => cases ha
  | cons x xs ih =>
    obtain ⟨hx, hrest⟩ := List.nodup_cons.mp hnodup
    obtain ⟨better, others, hcons, hsorted, hbetter, hothers⟩ := @byBest_cons _ _ _ score x xs
    have hperm : (better ++ others).Perm xs := hsorted ▸ List.mergeSort_perm _ _
    by_cases hax : a = x
    · subst hax
      have hnot : a ∉ better := fun hmem ↦ hx (hperm.mem_iff.mp (List.mem_append_left _ hmem))
      have hcount : xs.countP (score a < score ·) = better.length := by
        rw [← hperm.countP_eq, List.countP_append, List.countP_eq_length.mpr (by simpa using hbetter),
          List.countP_eq_zero.mpr (by simpa using hothers), Nat.add_zero]
      rw [hcons, List.idxOf_append_of_notMem hnot, List.idxOf_cons_self, ahead, List.countP_cons_of_neg (by simp), hcount]
      simp
    · have hmem : a ∈ xs := (List.mem_cons.mp ha).resolve_left hax
      have hold := ih hrest hmem
      have hahead : ahead score (x :: xs) a = ahead score xs a + if score a ≤ score x then 1 else 0 := by
        rw [ahead, ahead, List.takeWhile_cons_of_pos (by simpa using Ne.symm hax), List.countP_cons, List.countP_cons]
        rcases lt_trichotomy (score a) (score x) with h | h | h
        · have hne : score x ≠ score a := ne_of_gt h
          simp only [h, le_of_lt h, hne, decide_true, decide_false, if_true, Bool.false_eq_true, if_false]
          omega
        · simp only [h.symm, lt_irrefl, le_refl, decide_true, decide_false, if_true, Bool.false_eq_true, if_false]
          omega
        · have hne : score x ≠ score a := ne_of_lt h
          have hnlt : ¬score a < score x := lt_asymm h
          have hnle : ¬score a ≤ score x := not_le_of_gt h
          simp only [hnlt, hnle, hne, decide_false, Bool.false_eq_true, if_false]
          omega
      rw [hahead, ← hold, hcons, hsorted]
      rcases List.mem_append.mp (hperm.mem_iff.mpr hmem) with hin | hin
      · rw [if_neg (not_le.mpr (hbetter a hin)), List.idxOf_append_of_mem hin, List.idxOf_append_of_mem hin, Nat.add_zero]
      · have hnot : a ∉ better := by
          intro hcontra
          have hdup := hperm.nodup_iff.mpr hrest
          exact (List.nodup_append.mp hdup).2.2 a hcontra a hin rfl
        rw [if_pos (hothers a hin), List.idxOf_append_of_notMem hnot, List.idxOf_append_of_notMem hnot,
          List.idxOf_cons_ne _ (Ne.symm hax)]
        omega

/-- An entry is among the best just where fewer are ahead of it. -/
theorem mem_take_byBest (hnodup : xs.Nodup) (ha : a ∈ xs) : a ∈ (byBest score xs).take n ↔ ahead score xs a < n := by
  have hmem : a ∈ byBest score xs := (List.mergeSort_perm _ _).mem_iff.mpr ha
  rw [List.mem_take_iff_idxOf_lt hmem, idxOf_byBest hnodup ha]

/-- An entry is among the first of those kept just where fewer kept ones come before it. -/
theorem mem_take_filter {p : α → Bool} :
    a ∈ (xs.filter p).take n ↔ a ∈ xs ∧ p a = true ∧ (xs.takeWhile (· ≠ a)).countP p < n := by
  induction xs generalizing n with
  | nil => simp
  | cons x xs ih =>
    by_cases hax : x = a
    · subst hax
      rw [List.filter_cons]
      cases hp : p x with
      | false => simp [ih, hp]
      | true => cases n <;> simp
    · have hne : a ≠ x := Ne.symm hax
      rw [List.filter_cons, List.takeWhile_cons_of_pos (by simpa using hax), List.countP_cons, List.mem_cons]
      cases hp : p x with
      | false => simp [ih, hne]
      | true =>
        cases n with
        | zero => simp
        | succ n => simp [ih, hne]

end Towing.Arith
