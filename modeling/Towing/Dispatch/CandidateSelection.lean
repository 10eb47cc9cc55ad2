import Towing.Arith.Tally
import Towing.Trips.Eligibility

namespace Towing.Dispatch

open Towing.Arith Towing.Trips

/-! Choosing the drivers that a wave offers a booking to. -/

/-- Why a driver in range is not offered the job. -/
inductive ExclusionReason
  | alreadyOffered
  /-- A filter on the driver's row. -/
  | filter (reason : Trips.ExclusionReason)
  | holdsOffer
  deriving DecidableEq

/-- What is read of a driver: what the filters ask, and what the score is made of. -/
structure DriverRow extends DriverEligibilityRow where
  driverId : ℕ
  fleetId : Option ℕ
  truckId : Option ℕ
  rating : Option ℚ
  acceptanceRate : Option ℚ
  completionRate : Option ℚ

structure ScoreTerms where
  proximity : ℚ
  rating : ℚ
  acceptance : ℚ
  completion : ℚ
  deriving DecidableEq

abbrev ScoreWeights := ScoreTerms

structure ScoredCandidate where
  driverId : ℕ
  distanceMeters : ℚ
  score : ℚ
  terms : ScoreTerms
  fleetId : Option ℕ
  truckId : Option ℕ
  deriving DecidableEq

abbrev Excluded := List (TallyEntry ExclusionReason ℕ)

structure SelectionResult where
  candidates : List ScoredCandidate
  ranked : List ScoredCandidate
  eligible : ℕ
  weights : ScoreWeights
  degraded : Bool
  excluded : Excluded
  considered : ℕ

def PROXIMITY_CEILING_METERS : ℚ := 15000

def NEUTRAL : ℚ := 1 / 2

def WAVE_LOG_CANDIDATE_CAP : ℕ := 10

def EXCLUDED_ID_CAP : ℕ := 20

/-- A driver the search found, and how far from the pickup it is. -/
structure DriverCandidate where
  driverId : ℕ
  distanceMeters : ℚ
  deriving DecidableEq

/-- What a selection reads. -/
structure Selection where
  booking : DispatchBookingRow
  weights : ScoreWeights
  inRange : List DriverCandidate
  degraded : Bool
  rows : List DriverRow
  alreadyOffered : ℕ → Bool
  /-- The drivers that hold an offer's lock. -/
  locked : ℕ → Bool

def clamp01 (value : ℚ) : ℚ := min 1 (max 0 value)

def scoreTerms (row : DriverRow) (distanceMeters : ℚ) : ScoreTerms where
  proximity := max 0 (1 - distanceMeters / PROXIMITY_CEILING_METERS)
  rating := row.rating.elim NEUTRAL fun rating ↦ clamp01 (rating / 5)
  acceptance := row.acceptanceRate.elim NEUTRAL fun rate ↦ clamp01 (rate / 100)
  completion := row.completionRate.elim NEUTRAL fun rate ↦ clamp01 (rate / 100)

def total (terms : ScoreTerms) (weights : ScoreWeights) : ℚ :=
  terms.proximity * weights.proximity + terms.rating * weights.rating + terms.acceptance * weights.acceptance +
    terms.completion * weights.completion

def computeScore (row : DriverRow) (distanceMeters : ℚ) (weights : ScoreWeights) : ℚ × ScoreTerms :=
  let terms := scoreTerms row distanceMeters
  (total terms weights, terms)

structure Survivor where
  row : DriverRow
  distanceMeters : ℚ

/-- The drivers that are left, and why the others are not. -/
structure Sifted where
  excluded : Excluded
  survivors : List Survivor

namespace Selection

variable (s : Selection)

/-- The row of a driver: the last of them, as in a map that is filled in order. -/
def eligibility (driverId : ℕ) : Option DriverRow := s.rows.reverse.find? (·.driverId = driverId)

/-- One turn of the loop over the drivers in range. -/
def sift (sifted : Sifted) (candidate : DriverCandidate) : Sifted :=
  if s.alreadyOffered candidate.driverId then
    { sifted with excluded := note EXCLUDED_ID_CAP sifted.excluded .alreadyOffered candidate.driverId }
  else
    match s.eligibility candidate.driverId with
    | none => sifted
    | some row =>
      match exclusion s.booking row.toDriverEligibilityRow with
      | some reason => { sifted with excluded := note EXCLUDED_ID_CAP sifted.excluded (.filter reason) row.driverId }
      | none => { sifted with survivors := sifted.survivors ++ [⟨row, candidate.distanceMeters⟩] }

/-- One turn of the pass over the offer locks. -/
def free (sifted : Sifted) (survivor : Survivor) : Sifted :=
  if s.locked survivor.row.driverId then
    { sifted with excluded := note EXCLUDED_ID_CAP sifted.excluded .holdsOffer survivor.row.driverId }
  else { sifted with survivors := sifted.survivors ++ [survivor] }

def scored (survivor : Survivor) : ScoredCandidate :=
  let score := computeScore survivor.row survivor.distanceMeters s.weights
  { driverId := survivor.row.driverId
    distanceMeters := survivor.distanceMeters
    score := score.1
    terms := score.2
    fleetId := survivor.row.fleetId
    truckId := survivor.row.truckId }

def byScore (candidates : List ScoredCandidate) : List ScoredCandidate :=
  candidates.mergeSort fun a b ↦ b.score ≤ a.score

def select (limit : ℕ) : SelectionResult :=
  if s.inRange.isEmpty then ⟨[], [], 0, s.weights, s.degraded, [], 0⟩
  else
    let sifted := s.inRange.foldl s.sift ⟨[], []⟩
    let available := sifted.survivors.foldl s.free ⟨sifted.excluded, []⟩
    let scored := byScore (available.survivors.map s.scored)
    { candidates := scored.take limit
      ranked := scored.take WAVE_LOG_CANDIDATE_CAP
      eligible := scored.length
      weights := s.weights
      degraded := s.degraded
      excluded := available.excluded
      considered := s.inRange.length }

end Selection

end Towing.Dispatch
