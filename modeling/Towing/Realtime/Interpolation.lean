import Mathlib.Data.Rat.Floor
import Mathlib.Algebra.Order.Field.Rat
import Mathlib.Tactic.Linarith
import Mathlib.Tactic.NormNum
import Mathlib.Tactic.Ring
import Mathlib.Tactic.Positivity

namespace Towing.Realtime

/-! A marker's motion between the fixes that it is given. -/

def TWEEN_MS : ℚ := 1000

def TELEPORT_DEG : ℚ := 1 / 4

def easeOutCubic (t : ℚ) : ℚ := 1 - (1 - t) ^ 3

/-- The remainder of a division whose quotient is cut off towards zero. -/
def jsMod (a n : ℚ) : ℚ := a - n * (if 0 ≤ a / n then ⌊a / n⌋ else ⌈a / n⌉)

def shortestArc (fromDeg toDeg : ℚ) : ℚ := jsMod (jsMod (toDeg - fromDeg + 180) 360 + 360) 360 - 180

structure MotionTrack where
  fromLat : ℚ
  fromLng : ℚ
  fromHeading : ℚ
  toLat : ℚ
  toLng : ℚ
  toHeading : ℚ
  startedAt : ℚ

structure AnimatedFrame where
  lat : ℚ
  lng : ℚ
  heading : ℚ
  deriving DecidableEq

def progress (track : MotionTrack) (nowMs : ℚ) : ℚ := min 1 (max 0 ((nowMs - track.startedAt) / TWEEN_MS))

def frameFor (track : MotionTrack) (nowMs : ℚ) : AnimatedFrame :=
  let eased := easeOutCubic (progress track nowMs)
  { lat := track.fromLat + (track.toLat - track.fromLat) * eased
    lng := track.fromLng + (track.toLng - track.fromLng) * eased
    heading := track.fromHeading + shortestArc track.fromHeading track.toHeading * eased }

def seed (next : AnimatedFrame) (nowMs : ℚ) : MotionTrack where
  fromLat := next.lat
  fromLng := next.lng
  fromHeading := next.heading
  toLat := next.lat
  toLng := next.lng
  toHeading := next.heading
  startedAt := nowMs - TWEEN_MS

def jumped (existing : MotionTrack) (next : AnimatedFrame) : Bool :=
  TELEPORT_DEG < |next.lat - existing.toLat| || TELEPORT_DEG < |next.lng - existing.toLng|

def retarget (existing : Option MotionTrack) (next : AnimatedFrame) (nowMs : ℚ) : MotionTrack :=
  match existing with
  | none => seed next nowMs
  | some existing =>
    let current := if jumped existing next then next else frameFor existing nowMs
    { fromLat := current.lat
      fromLng := current.lng
      fromHeading := current.heading
      toLat := next.lat
      toLng := next.lng
      toHeading := next.heading
      startedAt := nowMs }

/-- A fix, at the instant that it is taken up. -/
structure Fix where
  frame : AnimatedFrame
  atMs : ℚ

/-- The track after the fixes, the first of which seeds it. -/
def follow (first : Fix) (fixes : List Fix) : MotionTrack :=
  fixes.foldl (fun track fix ↦ retarget (some track) fix.frame fix.atMs) (retarget none first.frame first.atMs)

/-! The parts of a tween. -/

variable {track : MotionTrack} {next : AnimatedFrame} {t now : ℚ}

theorem easeOutCubic_zero : easeOutCubic 0 = 0 := by norm_num [easeOutCubic]

theorem easeOutCubic_one : easeOutCubic 1 = 1 := by norm_num [easeOutCubic]

theorem easeOutCubic_bounds (h0 : 0 ≤ t) (h1 : t ≤ 1) : 0 ≤ easeOutCubic t ∧ easeOutCubic t ≤ 1 := by
  have hlow : 0 ≤ (1 - t) ^ 3 := pow_nonneg (by linarith) 3
  have hhigh : (1 - t) ^ 3 ≤ 1 := pow_le_one₀ (by linarith) (by linarith)
  unfold easeOutCubic
  constructor
  · linarith
  · linarith

theorem progress_bounds (track : MotionTrack) (nowMs : ℚ) : 0 ≤ progress track nowMs ∧ progress track nowMs ≤ 1 :=
  ⟨le_min (by norm_num) (le_max_left _ _), min_le_left _ _⟩

theorem progress_start (track : MotionTrack) : progress track track.startedAt = 0 := by
  rw [progress, sub_self, zero_div, max_self]
  norm_num

theorem progress_end (h : track.startedAt + TWEEN_MS ≤ now) : progress track now = 1 := by
  have hone : 1 ≤ (now - track.startedAt) / TWEEN_MS := by
    rw [le_div_iff₀ (by norm_num [TWEEN_MS])]
    linarith
  rw [progress, min_eq_left]
  exact le_max_of_le_right hone

/-- A value on its way lies between where it was and where it goes. -/
theorem between {a b lo hi : ℚ} (ha : lo ≤ a ∧ a ≤ hi) (hb : lo ≤ b ∧ b ≤ hi) (h0 : 0 ≤ t) (h1 : t ≤ 1) :
    lo ≤ a + (b - a) * t ∧ a + (b - a) * t ≤ hi := by
  have hmix : a + (b - a) * t = a * (1 - t) + b * t := by ring
  have hrest : 0 ≤ 1 - t := by linarith
  rw [hmix]
  constructor
  · have := mul_le_mul_of_nonneg_right ha.1 hrest
    have := mul_le_mul_of_nonneg_right hb.1 h0
    linarith
  · have := mul_le_mul_of_nonneg_right ha.2 hrest
    have := mul_le_mul_of_nonneg_right hb.2 h0
    linarith

/-- The cut-off remainder of a full turn has the sign of what was divided. -/
theorem jsMod_bounds (a : ℚ) : -360 < jsMod a 360 ∧ jsMod a 360 < 360 ∧ (0 ≤ a → 0 ≤ jsMod a 360) := by
  have hquot : a = 360 * (a / 360) := by ring
  unfold jsMod
  split_ifs with hsign
  · have hfloor := Int.floor_le (a / 360)
    have hnext := Int.lt_floor_add_one (a / 360)
    refine ⟨by linarith, by linarith, fun _ ↦ by linarith⟩
  · have hceil := Int.le_ceil (a / 360)
    have hprev := Int.ceil_lt_add_one (a / 360)
    refine ⟨by linarith, by linarith, fun ha ↦ absurd (by positivity) hsign⟩

theorem jsMod_turns (a : ℚ) : ∃ k : ℤ, jsMod a 360 = a - 360 * k := by
  unfold jsMod
  split_ifs
  · exact ⟨_, rfl⟩
  · exact ⟨_, rfl⟩

/-- The arc is no more than half a turn, and leads to the heading but for whole turns. -/
theorem shortestArc_spec (a b : ℚ) : -180 ≤ shortestArc a b ∧ shortestArc a b < 180 ∧
    ∃ k : ℤ, a + shortestArc a b = b + 360 * k := by
  obtain ⟨hlow, -, -⟩ := jsMod_bounds (b - a + 180)
  obtain ⟨-, hhigh, hnonneg⟩ := jsMod_bounds (jsMod (b - a + 180) 360 + 360)
  obtain ⟨k, hk⟩ := jsMod_turns (b - a + 180)
  obtain ⟨l, hl⟩ := jsMod_turns (jsMod (b - a + 180) 360 + 360)
  have hpos := hnonneg (by linarith)
  unfold shortestArc
  refine ⟨by linarith, by linarith, 1 - k - l, ?_⟩
  rw [hl, hk]
  push_cast
  ring

/-! The frames of a track. -/

theorem frame_start (track : MotionTrack) :
    frameFor track track.startedAt = ⟨track.fromLat, track.fromLng, track.fromHeading⟩ := by
  simp only [frameFor, progress_start, easeOutCubic_zero, mul_zero, add_zero]

theorem frame_end (h : track.startedAt + TWEEN_MS ≤ now) : frameFor track now =
    ⟨track.toLat, track.toLng, track.fromHeading + shortestArc track.fromHeading track.toHeading⟩ := by
  simp only [frameFor, progress_end h, easeOutCubic_one, mul_one, AnimatedFrame.mk.injEq]
  refine ⟨by ring, by ring, trivial⟩

/-- The heading has turned by no more than half a turn. -/
theorem frame_turned (track : MotionTrack) (now : ℚ) : |(frameFor track now).heading - track.fromHeading| ≤ 180 := by
  obtain ⟨hlow, hhigh, -⟩ := shortestArc_spec track.fromHeading track.toHeading
  obtain ⟨h0, h1⟩ := progress_bounds track now
  obtain ⟨he0, he1⟩ := easeOutCubic_bounds h0 h1
  have hturn : |shortestArc track.fromHeading track.toHeading| ≤ 180 := abs_le.mpr ⟨hlow, hhigh.le⟩
  have hsub : (frameFor track now).heading - track.fromHeading =
      shortestArc track.fromHeading track.toHeading * easeOutCubic (progress track now) := add_sub_cancel_left _ _
  rw [hsub, abs_mul, abs_of_nonneg he0]
  calc |shortestArc track.fromHeading track.toHeading| * easeOutCubic (progress track now)
      ≤ |shortestArc track.fromHeading track.toHeading| * 1 := mul_le_mul_of_nonneg_left he1 (abs_nonneg _)
    _ ≤ 180 := by rwa [mul_one]

/-- A retarget that is no jump leaves the marker where it is. -/
theorem frame_retarget (h : jumped track next = false) (now : ℚ) :
    frameFor (retarget (some track) next now) now = frameFor track now := by
  have hstart := frame_start (retarget (some track) next now)
  simp only [retarget, h, Bool.false_eq_true, if_false] at hstart ⊢
  exact hstart

end Towing.Realtime
