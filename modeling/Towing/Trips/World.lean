import Towing.Money.Steps

namespace Towing.Trips

open Towing.Money

/-- The columns of `bookings` that the money tables' model leaves out. -/
structure Trip where
  zoneId : Option ℕ := none
  truckId : Option ℕ := none
  distanceCharge : ℤ := 0
  nightCharge : ℤ := 0
  highwayCharge : ℤ := 0
  accidentCharge : ℤ := 0
  waitingCharge : ℤ := 0
  surgeAmount : ℤ := 0
  waitingFreeMinutes : Option ℕ := none
  waitingPerMinute : Option ℤ := none
  otpHash : Option String := none
  otpExpiresAt : ℕ := 0
  otpAttempts : ℕ := 0
  otpVerified : Bool := false
  scheduledAt : Option ℕ := none
  searchWave : Option ℕ := none
  dispatchDeadlineAt : Option ℕ := none
  arrivedAt : Option ℕ := none
  startedAt : Option ℕ := none
  completedAt : Option ℕ := none
  cancelledBy : Option String := none
  cancellationReason : Option String := none
  cancellationFee : ℤ := 0
  driverCompensation : ℤ := 0
  unableReason : Option String := none
  deriving DecidableEq, Repr

/-- A whole row of `bookings`. -/
structure Row where
  booking : Booking
  trip : Trip
  deriving DecidableEq, Repr

structure Driver where
  kycApproved : Bool
  isOnline : Bool
  fleetId : Option ℕ
  assignedTruckId : Option ℕ
  suspensionPending : Bool
  deriving DecidableEq, Repr

inductive AttemptOutcome
  | offered
  | accepted
  | rejected
  | expired
  | revoked
  | unable
  | reassigned
  deriving DecidableEq, Repr

/-- A row of `dispatch_attempts`. -/
structure Attempt where
  bookingId : ℕ
  driverId : ℕ
  wave : ℕ
  outcome : AttemptOutcome
  deriving DecidableEq, Repr

inductive DisputeResolution
  | completeAndCharge
  | cancelNoCharge
  | upholdCharge
  | fullRefund
  | partialRefund
  deriving DecidableEq, Repr

structure Dispute where
  id : ℕ
  bookingId : ℕ
  openedFrom : BookingStatus
  resolution : Option DisputeResolution
  deriving DecidableEq, Repr

inductive RevokeReason
  | cancelled
  | paused
  | fleetSuspended
  | reassigned
  deriving DecidableEq, Repr

inductive Payload
  | search (bookingId : ℕ)
  | offerTimeout (bookingId driverId wave : ℕ)
  | revoke (bookingId : ℕ) (reason : RevokeReason) (holderDriverId : Option ℕ)
  | applySuspension (driverId : ℕ)
  deriving DecidableEq, Repr

/-- The job ids, as `normalizeJobId` leaves them. -/
inductive JobId
  | dispatch (bookingId : ℕ)
  | retry (bookingId now : ℕ)
  | scheduled (bookingId : ℕ)
  | paused (bookingId : ℕ)
  | wave (bookingId n : ℕ)
  | redispatch (bookingId : ℕ) (reason : String)
  | adminOffer (bookingId : ℕ)
  | offerTimeout (bookingId driverId wave : ℕ)
  | revoke (bookingId : ℕ)
  | applySuspension (bookingId : ℕ)
  deriving DecidableEq, Repr

/-- `pending` is waiting or delayed until `readyAt`. -/
inductive JobState
  | pending (readyAt : ℕ)
  | active
  | completed (finishedAt : ℕ)
  | failed
  deriving DecidableEq, Repr

structure Job where
  id : JobId
  payload : Payload
  state : JobState
  deriving DecidableEq, Repr

structure World where
  money : Money.World
  /-- The bookings there are, oldest first. -/
  placed : List ℕ
  trips : ℕ → Trip
  drivers : ℕ → Option Driver
  fleetSuspended : ℕ → Bool
  attempts : List Attempt
  disputes : List Dispute
  /-- When the locks in Redis lapse, by driver and by booking. -/
  offerLocks : ℕ → Option ℕ
  searchLocks : ℕ → Option ℕ
  zonePaused : ℕ → Bool
  longDistanceDisabled : Bool
  /-- How far a driver's last fix is from a pickup. -/
  metersToPickup : ℕ → ℕ → Option ℕ
  jobs : List Job
  queueUp : Bool

def World.blank : World where
  money := Money.World.blank
  placed := []
  trips _ := {}
  drivers _ := none
  fleetSuspended _ := false
  attempts := []
  disputes := []
  offerLocks _ := none
  searchLocks _ := none
  zonePaused _ := false
  longDistanceDisabled := false
  metersToPickup _ _ := none
  jobs := []
  queueUp := true

namespace World

variable (w : World)

def now : ℕ := w.money.now

def row (b : ℕ) : Option Row := (w.money.bookings b).map fun r ↦ ⟨r, w.trips b⟩

def status (b : ℕ) : Option BookingStatus := (w.money.bookings b).map (·.status)

def driverOf (b : ℕ) : Option ℕ := (w.money.bookings b).bind (·.driverId)

def setRow (b : ℕ) (r : Row) : World :=
  { w with
    money := { w.money with bookings := Function.update w.money.bookings b (some r.booking) }
    trips := Function.update w.trips b r.trip }

def setTrip (b : ℕ) (f : Trip → Trip) : World :=
  { w with trips := Function.update w.trips b (f (w.trips b)) }

end World

end Towing.Trips
