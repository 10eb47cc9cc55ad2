import Towing.Tracking.EtaMath
import Mathlib.Logic.Function.Iterate

namespace Towing.Tracking

/-! A constant target, followed by the smoothed value. -/

variable {p previous target : ℤ}

/-- The most that the value moves, in whole seconds. -/
def reach (previous : ℤ) : ℤ := (4 * previous + 5) / 10

theorem round_fifths (p : ℤ) : round (p * ETA_SMOOTHING_FACTOR) = reach p := by
  rw [round_eq, Int.floor_eq_iff, ETA_SMOOTHING_FACTOR, reach]
  have hdiv : (10 : ℚ) * ((4 * p + 5) / 10 : ℤ) ≤ 4 * p + 5 := by
    exact_mod_cast Int.mul_ediv_self_le (by norm_num)
  have hlt : (4 * p + 5 : ℚ) < 10 * ((4 * p + 5) / 10 : ℤ) + 10 := by
    have h := Int.lt_mul_ediv_self_add (x := 4 * p + 5) (by norm_num : (0 : ℤ) < 10)
    exact_mod_cast h
  constructor
  · linarith
  · linarith

/-- Below the value the bound rounds as it does above: two fifths are never a half. -/
theorem round_lower (p : ℤ) : round (p - p * ETA_SMOOTHING_FACTOR) = p - reach p := by
  rw [round_eq, Int.floor_eq_iff, ETA_SMOOTHING_FACTOR, reach]
  have hdiv : 10 * ((4 * p + 5) / 10) + 1 ≤ 4 * p + 5 := by omega
  have hlt : 4 * p + 5 < 10 * ((4 * p + 5) / 10) + 10 := by omega
  have hdiv' : (10 : ℚ) * ((4 * p + 5) / 10 : ℤ) + 1 ≤ 4 * p + 5 := by exact_mod_cast hdiv
  have hlt' : (4 * p + 5 : ℚ) + 1 ≤ 10 * ((4 * p + 5) / 10 : ℤ) + 10 := by exact_mod_cast hlt
  push_cast at *
  constructor
  · linarith
  · linarith

theorem round_le_round {x y : ℚ} (h : x ≤ y) : round x ≤ round y := by
  rw [round_eq, round_eq]
  exact Int.floor_le_floor (add_le_add h le_rfl)

theorem smoothEta_eq (hp : 0 < p) (target : ℤ) :
    smoothEta (some p) target = min (p + reach p) (max (p - reach p) target) := by
  have hfilter : (some p).filter (0 < ·) = some p := by simp [hp]
  have hupper : round ((p : ℚ) + p * ETA_SMOOTHING_FACTOR) = p + reach p := by
    rw [round_intCast_add, round_fifths]
  rw [smoothEta, hfilter]
  dsimp only
  have hmono : Monotone (round : ℚ → ℤ) := fun _ _ h ↦ round_le_round h
  rw [hmono.map_min, hmono.map_max, hupper, round_lower, round_intCast]
  have hreach : reach p ≤ p := by
    unfold reach
    omega
  have hnonneg : 0 ≤ reach p := by
    unfold reach
    omega
  exact max_eq_right (le_min (by omega) (le_max_of_le_left (by omega)))

theorem reach_pos (h : 2 ≤ p) : 1 ≤ reach p := by
  unfold reach
  omega

/-- The value after so many updates. -/
def followed (target previous : ℤ) (n : ℕ) : ℤ := (fun p ↦ smoothEta (some p) target)^[n] previous

theorem followed_succ (target previous : ℤ) (n : ℕ) :
    followed target previous (n + 1) = smoothEta (some (followed target previous n)) target :=
  Function.iterate_succ_apply' _ _ _

/-- Following the target: towards it, not beyond it, in bounded steps, and to it. -/
structure Converges (previous target : ℤ) : Prop where
  rising : previous ≤ target → ∀ n,
    followed target previous n ≤ followed target previous (n + 1) ∧ followed target previous (n + 1) ≤ target
  falling : target ≤ previous → ∀ n,
    target ≤ followed target previous (n + 1) ∧ followed target previous (n + 1) ≤ followed target previous n
  bounded : ∀ n, |followed target previous (n + 1) - followed target previous n| ≤
    round (followed target previous n * ETA_SMOOTHING_FACTOR)
  reaches : ∃ n, followed target previous n = target

theorem reach_nonneg (hp : 0 < p) : 0 ≤ reach p := by
  unfold reach
  omega

/-- One update, told by where the target is. -/
theorem smoothEta_step (hp : 0 < p) (ht : 0 < target) :
    (p ≤ target → p ≤ smoothEta (some p) target ∧ smoothEta (some p) target ≤ target) ∧
      (target ≤ p → target ≤ smoothEta (some p) target ∧ smoothEta (some p) target ≤ p) ∧
      |smoothEta (some p) target - p| ≤ reach p ∧ 0 < smoothEta (some p) target := by
  have hreach := reach_nonneg hp
  rw [smoothEta_eq hp target, abs_le]
  omega

theorem followed_pos (hp : 0 < previous) (ht : 0 < target) (n : ℕ) : 0 < followed target previous n := by
  induction n with
  | zero => exact hp
  | succ n ih =>
    rw [followed_succ]
    exact (smoothEta_step ih ht).2.2.2

theorem followed_rising (hp : 0 < previous) (ht : 0 < target) (h : previous ≤ target) (n : ℕ) :
    previous ≤ followed target previous n ∧ followed target previous n ≤ target := by
  induction n with
  | zero => exact ⟨le_refl _, h⟩
  | succ n ih =>
    rw [followed_succ]
    have hstep := (smoothEta_step (followed_pos hp ht n) ht).1 ih.2
    exact ⟨ih.1.trans hstep.1, hstep.2⟩

theorem followed_falling (hp : 0 < previous) (ht : 0 < target) (h : target ≤ previous) (n : ℕ) :
    target ≤ followed target previous n ∧ followed target previous n ≤ previous := by
  induction n with
  | zero => exact ⟨h, le_refl _⟩
  | succ n ih =>
    rw [followed_succ]
    have hstep := (smoothEta_step (followed_pos hp ht n) ht).2.1 ih.1
    exact ⟨hstep.1, hstep.2.trans ih.2⟩

/-- Away from the target the value gets a second nearer, unless it is one second. -/
theorem nearer (hp : 2 ≤ p) (hne : p ≠ target) :
    (smoothEta (some p) target - target).natAbs < (p - target).natAbs := by
  have hreach := reach_pos hp
  rw [smoothEta_eq (by omega) target]
  omega

theorem reaches_target (hp : 0 < previous) (ht : 0 < target) (h : previous ≠ 1 ∨ target = 1) :
    ∃ n, followed target previous n = target := by
  -- the distance to the target falls until it is nothing
  induction hd : (previous - target).natAbs using Nat.strong_induction_on generalizing previous with
  | _ d ih =>
    by_cases heq : previous = target
    · exact ⟨0, heq⟩
    · have htwo : 2 ≤ previous := by
        rcases h with h | h
        · omega
        · omega
      have hstep := smoothEta_step hp ht
      have hnext : smoothEta (some previous) target ≠ 1 ∨ target = 1 := by
        rcases le_total previous target with hle | hle
        · have := (hstep.1 hle).1
          omega
        · have := (hstep.2.1 hle).1
          omega
      obtain ⟨n, hn⟩ := ih _ (hd ▸ nearer htwo heq) hstep.2.2.2 hnext rfl
      exact ⟨n + 1, by rw [followed, Function.iterate_succ_apply]; exact hn⟩

/-- One second stays one second. -/
theorem followed_one (ht : 0 < target) (n : ℕ) : followed target 1 n = 1 := by
  induction n with
  | zero => rfl
  | succ n ih =>
    rw [followed_succ, ih, smoothEta_eq (by norm_num) target]
    have hreach : reach 1 = 0 := by decide
    omega

/-- The shown value converges to a constant target just where it is not one second, or is to
stay there. -/
theorem smoothEta_converges (previous target : ℤ) (hp : 0 < previous) (ht : 0 < target) :
    Converges previous target ↔ (previous ≠ 1 ∨ target = 1) := by
  constructor
  · intro h
    by_contra hstuck
    push Not at hstuck
    obtain ⟨rfl, hne⟩ := hstuck
    obtain ⟨n, hn⟩ := h.reaches
    rw [followed_one ht] at hn
    exact hne hn.symm
  · intro h
    refine ⟨fun hle n ↦ ?_, fun hle n ↦ ?_, fun n ↦ ?_, reaches_target hp ht h⟩
    · rw [followed_succ]
      exact (smoothEta_step (followed_pos hp ht n) ht).1 (followed_rising hp ht hle n).2
    · rw [followed_succ]
      exact (smoothEta_step (followed_pos hp ht n) ht).2.1 (followed_falling hp ht hle n).1
    · rw [followed_succ, round_fifths]
      exact (smoothEta_step (followed_pos hp ht n) ht).2.2.1

theorem smoothEta_converges_sample : Converges 480 1260 :=
  (smoothEta_converges 480 1260 (by norm_num) (by norm_num)).mpr (.inl (by norm_num))

theorem one_second_stuck : ¬Converges 1 30 := by
  intro h
  obtain ⟨n, hn⟩ := h.reaches
  rw [followed_one (by norm_num)] at hn
  exact absurd hn (by norm_num)

end Towing.Tracking
