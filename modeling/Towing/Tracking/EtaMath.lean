import Mathlib.Algebra.Order.Round
import Mathlib.Data.Rat.Floor
import Mathlib.Algebra.Order.Field.Rat
import Mathlib.Tactic.Linarith
import Mathlib.Tactic.NormNum

namespace Towing.Tracking

/-! The arithmetic of the ETA. -/

def ETA_SMOOTHING_FACTOR : ℚ := 2 / 5

/-- The next value shown, which moves by no more than the smoothing factor of the one before. -/
def smoothEta (previousSeconds : Option ℤ) (nextSeconds : ℤ) : ℤ :=
  match previousSeconds.filter (0 < ·) with
  | none => max 0 nextSeconds
  | some previous =>
    let maxDelta := previous * ETA_SMOOTHING_FACTOR
    let lower := previous - maxDelta
    let upper := previous + maxDelta
    max 0 (round (min upper (max lower nextSeconds)))

/-- How distances are measured between points, and from a point to a segment. -/
structure Metric (P : Type) where
  haversineMeters : P → P → ℚ
  distanceToSegmentMeters : P → P → P → ℚ

namespace Metric

variable {P : Type} (g : Metric P)

def routeLengthMeters (path : List P) : ℚ := ((path.zip path.tail).map fun s ↦ g.haversineMeters s.1 s.2).sum

/-- The first of the nearest segments of the path, by its index. -/
def nearestIndex (position : P) (path : List P) : ℕ :=
  ((path.zip path.tail).zipIdx.foldl (fun (best : ℕ × Option ℚ) s ↦
    let d := g.distanceToSegmentMeters position s.1.1 s.1.2
    if best.2.all (d < ·) then (s.2, some d) else best) (0, none)).1

/-- What is left of the route from the segment that the position is nearest to. -/
def remainingRouteMeters (position destination : P) (path : List P) : ℚ :=
  if path.length < 2 then g.haversineMeters position destination
  else
    match path.drop (g.nearestIndex position path + 1) with
    | [] => 0
    | next :: rest => g.haversineMeters position next + g.routeLengthMeters (next :: rest)

/-- The distance to the nearest segment; without a limit where there is no point. -/
def distanceToPolylineMeters (position : P) : List P → WithTop ℚ
  | [] => ⊤
  | [a] => g.haversineMeters position a
  | a :: b :: path =>
    (((b :: path).zip path).map fun s ↦ g.distanceToSegmentMeters position s.1 s.2).foldl min
      (g.distanceToSegmentMeters position a b)

end Metric

def secondsForMeters (meters : ℚ) (routeMeters : Option ℚ) (routeSeconds : Option ℤ) (fallbackKph : ℚ) : ℤ :=
  let paceSecondsPerMeter : ℚ :=
    match routeMeters, routeSeconds with
    | some length, some seconds =>
      if length ≠ 0 ∧ seconds ≠ 0 ∧ 0 < length then seconds / length else 3600 / (fallbackKph * 1000)
    | _, _ => 3600 / (fallbackKph * 1000)
  max 30 (round (meters * paceSecondsPerMeter))

end Towing.Tracking
