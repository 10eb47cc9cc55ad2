import Towing.Money.Coupons
import Towing.Money.Cancellation
import Towing.Process.Lift
import Towing.Trips.World

namespace Towing.Trips

open Towing.Arith Towing.Process Towing.Money

/-- What the engine prices a booking at, with the rules it snapshots beside. -/
structure LockedFare where
  basePaise : ℤ
  nightPaise : ℤ
  highwayPaise : ℤ
  accidentPaise : ℤ
  surgePaise : ℤ
  totalPaise : ℤ
  band : Band
  commissionPct : Pct
  taxPct : Pct
  waitingFreeMinutes : ℕ
  waitingPerMinutePaise : ℤ
  zoneId : ℕ
  deriving DecidableEq, Repr

structure NewBooking where
  userId : ℕ
  locked : LockedFare
  couponCode : Option String
  scheduledAt : Option ℕ
  otpHash : String
  deriving DecidableEq, Repr

/-- What a cancellation reads before it decides. -/
structure CancellationInputs where
  status : BookingStatus
  createdAt : ℕ
  baseFare : ℤ
  driverId : Option ℕ
  couponId : Option ℕ
  now : ℕ
  deriving DecidableEq, Repr

def CancellationInputs.outcome (i : CancellationInputs) (charges : CancellationConfig) :
    CancellationOutcome :=
  cancellationPolicy i.status i.createdAt i.baseFare i.now charges i.driverId.isSome

inductive FeeMode
  | waive
  | applyPolicy
  deriving DecidableEq, Repr

/-- Who moves a booking, and what they had read of it. -/
inductive Cause
  | retrySearch
  | customerCancel (read : CancellationInputs)
  | adminCancel (read : CancellationInputs) (feeMode : FeeMode) (compensateDriver : Bool)
  | suspension
  | giveUp
  | accept (driverId : ℕ)
  | markEnRoute (driverId : ℕ)
  | arrived (driverId : ℕ)
  | start (driverId : ℕ)
  | complete (driverId : ℕ)
  | completeByAdmin
  | unable (driverId : ℕ)
  | reassign (driverId : ℕ)
  | override
  | openDispute
  deriving DecidableEq, Repr

/-- The columns a transition writes beside the status. -/
inductive Patch
  | nothing
  | resetSearch
  | assign (driverId : ℕ) (fleetId truckId : Option ℕ) (payModel : DriverPayModel) (sharePct : Option Pct)
  | arrivedAt (now : ℕ)
  | startedAt (now : ℕ) (otpVerified : Bool)
  | finalize (completedAt : ℕ) (waitingCharge total : ℤ)
  | unassign (unableReason : Option String)
  | cancellation (cancelledBy : String) (reason : Option String) (feePaise compensationPaise : ℤ)
  deriving DecidableEq, Repr

def Patch.apply (r : Row) : Patch → Row
  | .nothing => r
  | .resetSearch => { r with trip := { r.trip with searchWave := none, dispatchDeadlineAt := none } }
  | .assign driverId fleetId truckId payModel sharePct =>
    { booking := { r.booking with
        driverId := some driverId
        fleetId := fleetId
        driverPayModel := some payModel
        driverSharePct := sharePct }
      trip := { r.trip with truckId := truckId } }
  | .arrivedAt now => { r with trip := { r.trip with arrivedAt := some now } }
  | .startedAt now otpVerified =>
    { r with trip := { r.trip with
        startedAt := some now
        otpVerified := otpVerified || r.trip.otpVerified } }
  | .finalize completedAt waitingCharge total =>
    { booking := { r.booking with total := total }
      trip := { r.trip with completedAt := some completedAt, waitingCharge := waitingCharge } }
  | .unassign unableReason =>
    { booking := { r.booking with driverId := none, fleetId := none }
      trip := { r.trip with
        truckId := none
        arrivedAt := none
        unableReason := unableReason <|> r.trip.unableReason } }
  | .cancellation cancelledBy reason feePaise compensationPaise =>
    { r with trip := { r.trip with
        cancelledBy := some cancelledBy
        cancellationReason := reason
        cancellationFee := feePaise
        driverCompensation := compensationPaise } }

/-- A transaction around one call of the state machine. -/
structure Move where
  bookingId : ℕ
  target : BookingStatus
  patch : Patch
  releasesCoupon : Bool
  cause : Cause
  deriving DecidableEq, Repr

inductive Step
  | money (l : Money.Step)
  | read
  | create (b : ℕ) (p : NewBooking)
  | move (m : Move)
  | accept (b driverId : ℕ) (suspended : Option ℕ)
  | verifyOtp (b : ℕ)
  | setWaveState (b wave : ℕ) (deadlineAt : Option ℕ)
  | takeSearchLock (b ttlMs : ℕ)
  | releaseSearchLock (b : ℕ)
  | takeOfferLock (driverId ttlMs : ℕ)
  | releaseOfferLock (driverId : ℕ)
  | insertAttempt (a : Attempt)
  | resolveOffer (b driverId : ℕ) (outcome : AttemptOutcome)
  | revokeOutstanding (b exceptDriverId : ℕ)
  | enqueue (id : JobId) (payload : Payload) (delayMs : ℕ)
  | startJob (id : JobId)
  | endJob (id : JobId) (state : JobState)
  | openDispute (b : ℕ) (openedFrom : BookingStatus)
  | mintOtp (b : ℕ) (hash : String) (expiresAt : ℕ)
  | setDriver (driverId : ℕ) (driver : Option Driver)
  | setFleetSuspended (fleetId : ℕ) (suspended : Bool)
  | setZonePaused (zoneId : ℕ) (paused : Bool)
  | setLongDistanceDisabled (disabled : Bool)
  | setMetersToPickup (driverId b : ℕ) (meters : Option ℕ)
  | setQueueUp (up : Bool)

def activeForUser (s : BookingStatus) : Bool :=
  s = .searching || s = .assigned || s = .enRoute || s = .arrived || s = .inProgress

def activeForDriver (s : BookingStatus) : Bool :=
  s = .assigned || s = .enRoute || s = .arrived || s = .inProgress

/-- The `CHECK` constraints of `bookings`. -/
def rowError (r : Row) : Option Failure :=
  Money.World.bookingError r.booking <|>
    if r.booking.taxAmount < 0 ∨ r.trip.cancellationFee < 0 ∨ r.trip.driverCompensation < 0 then
      some (.checkViolation "ck_bookings_non_negative")
    else if r.trip.cancellationFee ≠ 0 ∧ r.trip.cancelledBy = none then
      some (.checkViolation "ck_bookings_cancellation_fee_needs_cancel")
    else none

def gone : Failure := .api ⟨409, "invalid_booking_state", "This job is no longer available", []⟩

namespace World

variable (w : World)

/-- The two partial unique indexes on the bookings under way. -/
def clash (b : ℕ) (r : Row) : Option Failure :=
  if activeForUser r.booking.status && w.placed.any fun b' ↦ b' ≠ b && (w.row b').any fun r' ↦
      activeForUser r'.booking.status && r'.booking.userId = r.booking.userId then
    some (.uniqueViolation "uq_bookings_one_active_per_user")
  else if activeForDriver r.booking.status && w.placed.any fun b' ↦ b' ≠ b && (w.row b').any fun r' ↦
      activeForDriver r'.booking.status && r.booking.driverId.isSome &&
        r'.booking.driverId = r.booking.driverId then
    some (.uniqueViolation "uq_bookings_one_active_per_driver")
  else none

def storeError (b : ℕ) (r : Row) : Option Failure := rowError r <|> w.clash b r

/-- The row as `create` first inserts it. -/
def insertedRow (p : NewBooking) : Row where
  booking :=
    { userId := p.userId
      status := .searching
      baseFare := p.locked.basePaise
      total := p.locked.totalPaise
      taxPct := p.locked.taxPct
      commissionBand := some p.locked.band
      commissionPct := some p.locked.commissionPct
      createdAt := w.now }
  trip :=
    { zoneId := some p.locked.zoneId
      nightCharge := p.locked.nightPaise
      highwayCharge := p.locked.highwayPaise
      accidentCharge := p.locked.accidentPaise
      surgeAmount := p.locked.surgePaise
      waitingFreeMinutes := some p.locked.waitingFreeMinutes
      waitingPerMinute := some p.locked.waitingPerMinutePaise
      otpHash := some p.otpHash
      scheduledAt := p.scheduledAt }

/-- The taxed fare less the discount, as the second update of `create` writes it. -/
def pricedRow (r : Row) (totalPaise discountPaise : ℤ) (couponId : Option ℕ) : Row :=
  let taxablePaise := totalPaise - discountPaise
  let taxAmountPaise := percentOf taxablePaise r.booking.taxPct.number
  if 0 < discountPaise ∨ 0 < taxAmountPaise then
    { r with booking := { r.booking with
        couponId := couponId
        discount := discountPaise
        taxAmount := taxAmountPaise
        total := taxablePaise + taxAmountPaise } }
  else { r with booking := { r.booking with couponId := couponId } }

/-- The transaction of `create`. -/
def place (b : ℕ) (p : NewBooking) : Except Failure World := do
  let inserted := w.insertedRow p
  if (w.row b).isSome then .error (.uniqueViolation "bookings_pkey")
  else match w.storeError b inserted with
    | some e => .error e
    | none =>
      let w' : World := { w.setRow b inserted with placed := w.placed ++ [b] }
      let (couponId, discountPaise, money) ← match p.couponCode with
        | none => .ok (none, 0, w'.money)
        | some code =>
          match w'.money.applyInTransaction p.userId b code p.locked.totalPaise with
          | .error e => .error e
          | .ok (id, discount, money) => .ok (some id, discount, money)
      let priced := pricedRow inserted p.locked.totalPaise discountPaise couponId
      match w'.storeError b priced with
      | some e => .error e
      | none => .ok ({ w' with money := money }.setRow b priced)

/-- The row as a move leaves it. -/
def movedRow (m : Move) (r : Row) : Row :=
  m.patch.apply { r with booking := { r.booking with status := m.target } }

def moveError (m : Move) : Option Failure :=
  match w.money.transitionError m.bookingId m.target {} with
  | some e => some e
  | none => (w.row m.bookingId).bind fun r ↦ w.storeError m.bookingId (movedRow m r)

def move (m : Move) : World :=
  match w.moveError m, w.row m.bookingId with
  | none, some r =>
    let released := if m.releasesCoupon then w.money.releaseForBooking m.bookingId else w.money
    { w with money := released }.setRow m.bookingId (movedRow m r)
  | _, _ => w

def payTermsForDriver (driverId : ℕ) (fleetId : Option ℕ) : DriverPayModel × Option Pct :=
  match fleetId with
  | none => (.independent, none)
  | some f =>
    match w.money.fleets f with
    | some ⟨.salary, _⟩ => (.salary, none)
    | fleet =>
      (.share, some (((w.money.fleetDriverShares f driverId) <|> fleet.map (·.driverSharePct)).getD 8000))

def isOffered (b driverId : ℕ) (a : Attempt) : Bool :=
  a.bookingId = b && a.driverId = driverId && a.outcome = .offered

def resolveOffer (b driverId : ℕ) (outcome : AttemptOutcome) : World :=
  { w with attempts := w.attempts.map fun a ↦
      if isOffered b driverId a then { a with outcome := outcome } else a }

/-- The state machine's part of an accept, from the driver's row. -/
def assignMove (b driverId : ℕ) (driver : Driver) : Move :=
  let terms := w.payTermsForDriver driverId driver.fleetId
  ⟨b, .assigned, .assign driverId driver.fleetId driver.assignedTruckId terms.1 terms.2, false,
    .accept driverId⟩

/-- The driver's fleet, where it is suspended. -/
def suspendedFleet (driverId : ℕ) : Option ℕ :=
  ((w.drivers driverId).bind (·.fleetId)).filter w.fleetSuspended

/-- The transaction of `accept`. The driver's row is locked and the fleet's is not:
`suspended` is what was read of it. -/
def acceptOffer (b driverId : ℕ) (suspended : Option ℕ) : Except Failure World :=
  if !w.attempts.any (isOffered b driverId) then .error gone
  else match w.drivers driverId with
    | none => .error (.api ⟨403, "driver_not_eligible", "You can no longer take this job", []⟩)
    | some driver =>
      if !driver.kycApproved || !driver.isOnline then
        .error (.api ⟨403, "driver_not_eligible", "You can no longer take this job", []⟩)
      else if driver.fleetId.any (some · = suspended) || driver.suspensionPending then
        .error (.api ⟨403, "driver_not_eligible", "Your account can no longer take this job", []⟩)
      else
        let m := w.assignMove b driverId driver
        match w.moveError m with
        | some e => .error e
        | none => .ok ((w.resolveOffer b driverId .accepted).move m)

/-- Whether `SET … PX … NX` takes the lock. -/
def lockFree (lock : Option ℕ) : Bool := lock.all (· ≤ w.now)

/-- Whether BullMQ still knows a job, and so ignores another under its id. -/
def knows (id : JobId) : Bool :=
  w.jobs.any fun j ↦ j.id = id && match j.state with
    | .completed finishedAt => w.now < finishedAt + 3600000
    | _ => true

/-- The work of a job that a worker may start. -/
def dueJob (id : JobId) : Option Payload :=
  (w.jobs.find? fun j ↦ j.id = id && match j.state with
    | .pending readyAt => decide (readyAt ≤ w.now)
    | _ => false).map (·.payload)

def setJob (id : JobId) (f : JobState → JobState) : World :=
  { w with jobs := w.jobs.map fun j ↦ if j.id = id then { j with state := f j.state } else j }

def openDisputeError (b : ℕ) : Option Failure :=
  if w.disputes.any fun d ↦ d.bookingId = b && d.resolution.isNone then
    some (.uniqueViolation "uq_disputes_open_per_booking")
  else w.moveError ⟨b, .disputed, .nothing, false, .openDispute⟩

def run : Step → World
  | .money l => { w with money := w.money.run l }
  | .read => w
  | .create b p => (w.place b p).toOption.getD w
  | .move m => w.move m
  | .accept b d suspended => (w.acceptOffer b d suspended).toOption.getD w
  | .verifyOtp b => w.setTrip b fun t ↦ { t with otpAttempts := t.otpAttempts + 1 }
  | .setWaveState b wave deadlineAt => w.setTrip b fun t ↦
      { t with searchWave := some wave, dispatchDeadlineAt := deadlineAt <|> t.dispatchDeadlineAt }
  | .takeSearchLock b ttlMs =>
    if w.lockFree (w.searchLocks b) then
      { w with searchLocks := Function.update w.searchLocks b (some (w.now + ttlMs)) }
    else w
  | .releaseSearchLock b => { w with searchLocks := Function.update w.searchLocks b none }
  | .takeOfferLock d ttlMs =>
    if w.lockFree (w.offerLocks d) then
      { w with offerLocks := Function.update w.offerLocks d (some (w.now + ttlMs)) }
    else w
  | .releaseOfferLock d => { w with offerLocks := Function.update w.offerLocks d none }
  | .insertAttempt a => { w with attempts := w.attempts ++ [a] }
  | .resolveOffer b d outcome => w.resolveOffer b d outcome
  | .revokeOutstanding b d =>
    { w with attempts := w.attempts.map fun a ↦
        if a.bookingId = b ∧ a.outcome = .offered ∧ a.driverId ≠ d then { a with outcome := .revoked }
        else a }
  | .enqueue id payload delayMs =>
    if w.queueUp && !w.knows id then
      { w with jobs := w.jobs.filter (·.id ≠ id) ++ [⟨id, payload, .pending (w.now + delayMs)⟩] }
    else w
  | .startJob id => w.setJob id fun s ↦ match s with
    | .pending readyAt => if readyAt ≤ w.now then .active else s
    | _ => s
  | .endJob id state => w.setJob id fun s ↦ if s = .active then state else s
  | .openDispute b openedFrom =>
    if (w.openDisputeError b).isSome then w
    else
      { w.move ⟨b, .disputed, .nothing, false, .openDispute⟩ with
        disputes := w.disputes ++ [⟨w.disputes.length, b, openedFrom, none⟩] }
  | .mintOtp b hash expiresAt => w.setTrip b fun t ↦
      { t with otpHash := some hash, otpExpiresAt := expiresAt, otpAttempts := 0 }
  | .setDriver d driver => { w with drivers := Function.update w.drivers d driver }
  | .setFleetSuspended f s => { w with fleetSuspended := Function.update w.fleetSuspended f s }
  | .setZonePaused z p => { w with zonePaused := Function.update w.zonePaused z p }
  | .setLongDistanceDisabled x => { w with longDistanceDisabled := x }
  | .setMetersToPickup d b m =>
    let fixes := Function.update (w.metersToPickup d) b m
    { w with metersToPickup := Function.update w.metersToPickup d fixes }
  | .setQueueUp up => { w with queueUp := up }

end World

instance : Store Step World where
  commit l w := w.run l

abbrev Request (α : Type) := Proc Step World Failure α

def read {α : Type} (f : World → α) : Request α := Proc.query .read f

def check {α : Type} (f : World → Except Failure α) : Request α := Proc.attempt .read f

theorem read_next {α β : Type} (f : World → α) (g : α → Request β) (w : World) :
    ((read f).bind g).exec w = (g (f w)).exec w := rfl

theorem check_next {α β : Type} {f : World → Except Failure α} {g : α → Request β} {a : α} {w : World}
    (h : f w = .ok a) : ((check f).bind g).exec w = (g a).exec w :=
  Proc.exec_next ((Proc.exec_attempt _ _ w).trans (Prod.ext_iff.mpr ⟨h, rfl⟩))

/-- A request of the money's side, made here. -/
def money {α : Type} (p : Money.Request α) : Request α := p.lift Step.money World.money

theorem moneyEmbeds : Embeds Step.money World.money fun (w : World) m ↦ { w with money := m } where
  commit _ _ := rfl
  view_put _ _ := rfl
  put_put _ _ _ := rfl
  put_view _ := rfl

end Towing.Trips
