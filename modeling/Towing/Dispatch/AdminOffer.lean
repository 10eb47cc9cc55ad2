import Towing.Dispatch.SelectionLaws
import Towing.Dispatch.DispatchConfig

namespace Towing.Dispatch

open Towing.Arith Towing.Trips Towing.Common

/-! Offering a job to the driver that an operator names. -/

/-- Drivers that a search found, each once. -/
structure Found where
  drivers : List DriverCandidate
  once : (drivers.map (·.driverId)).Nodup

/-- What the offer reads of a booking. -/
structure OfferBooking where
  searching : Bool
  row : DispatchBookingRow
  zoneId : Option ℕ
  searchWave : Option ℕ

/-- What there is when the operator asks. -/
structure Scene where
  booking : Option OfferBooking
  store : ConfigStore
  weights : ScoreWeights
  /-- The zone's set, by radius; nothing where there is no zone or it does not answer. -/
  inZone : ℚ → Option Found
  /-- The drivers that the database has within the radius, the nearest first. -/
  near : ℚ → Found
  rows : List DriverRow
  alreadyOffered : ℕ → Bool
  locked : ℕ → Bool
  /-- The drivers whose offer's lock is held when this one would be taken. -/
  taken : ℕ → Bool

structure AdminOfferAnswer where
  offered : Bool
  exclusion : Option String
  wave : ℕ
  radiusKm : ℚ
  deriving DecidableEq

/-- The offer that is made, and the time for which no other wave is due. -/
structure OfferMade where
  driverId : ℕ
  wave : ℕ
  radiusKm : ℚ
  ttlMs : ℕ
  nextWaveMs : ℕ
  deriving DecidableEq

def OFFER_LOCK_GRACE_MS : ℕ := 5000

def ADMIN_OFFER_LIMIT : ℕ := 50

def filterName : Trips.ExclusionReason → String
  | .notApproved => "not_approved"
  | .suspensionPending => "suspension_pending"
  | .fleetSuspended => "fleet_suspended"
  | .offline => "offline"
  | .wrongVehicleClass => "wrong_vehicle_class"
  | .serviceNotOffered => "service_not_offered"
  | .noLongDistance => "no_long_distance"
  | .zoneRestricted => "zone_restricted"
  | .truckNonCompliant => "truck_non_compliant"
  | .alreadyOnJob => "already_on_job"

def ExclusionReason.name : ExclusionReason → String
  | .alreadyOffered => "already_offered"
  | .filter reason => filterName reason
  | .holdsOffer => "holds_offer"

namespace Scene

variable (w : Scene)

def searchWithFallback (radiusKm : ℚ) (limit : ℕ) : List DriverCandidate × Bool :=
  match w.inZone radiusKm with
  | some found => (found.drivers, false)
  | none => ((w.near radiusKm).drivers.take limit, true)

/-- The drivers among whom a selection at the radius chooses. -/
def selection (row : DispatchBookingRow) (search : List DriverCandidate × Bool) : Selection where
  booking := row
  weights := w.weights
  inRange := search.1
  degraded := search.2
  rows := w.rows
  alreadyOffered := w.alreadyOffered
  locked := w.locked

def select (row : DispatchBookingRow) (radiusKm : ℚ) (limit : ℕ) : SelectionResult :=
  (w.selection row (w.searchWithFallback radiusKm (max (limit * 8) 40))).select limit

def ladderFor (booking : OfferBooking) : List ℚ :=
  let config := w.store.configFor booking.zoneId booking.row.serviceType
  if booking.row.longDistance then config.bandCRadiusLadderKm else config.radiusLadderKm

def widest (booking : OfferBooking) : ℚ := (w.ladderFor booking).getLast?.getD 0

/-- The lock decides whether the offer is real. -/
def offer (candidate : ScoredCandidate) (wave : ℕ) (radiusKm : ℚ) (timeoutSeconds : ℕ) : Option OfferMade :=
  if w.taken candidate.driverId then none
  else some ⟨candidate.driverId, wave, radiusKm, timeoutSeconds * 1000 + OFFER_LOCK_GRACE_MS, timeoutSeconds * 1000⟩

def adminOfferToDriver (driverId : ℕ) : AdminOfferAnswer × Option OfferMade :=
  match w.booking.filter (·.searching) with
  | none => (⟨false, some "not_searching", 0, 0⟩, none)
  | some booking =>
    let wave := booking.searchWave.getD 1
    let radiusKm := w.widest booking
    let selected := w.select booking.row radiusKm ADMIN_OFFER_LIMIT
    match selected.candidates.find? (·.driverId = driverId) with
    | none =>
      let entry := selected.excluded.find? fun entry ↦ entry.sample.contains driverId
      (⟨false, some (entry.elim "not_eligible" (·.kind.name)), wave, radiusKm⟩, none)
    | some candidate =>
      let made := w.offer candidate wave radiusKm
        (w.store.configFor booking.zoneId booking.row.serviceType).offerTimeoutSeconds
      (⟨made.isSome, if made.isSome then none else some "offer_locked", wave, radiusKm⟩, made)

end Scene

end Towing.Dispatch
