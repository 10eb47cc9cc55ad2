import Towing.Trips.DispatchService

namespace Towing.Trips

open Towing.Process Towing.Money

namespace JobExecutionService

def arrivalRadiusMeters : ℕ := 500

def requireDriverJob (b driverId : ℕ) : Request Row :=
  check fun w ↦
    match w.row b with
    | none => .error (.api (.notFound "Job not found"))
    | some r =>
      if r.booking.driverId ≠ some driverId then
        .error (.api ⟨409, "not_assigned_driver", "This job is no longer yours", []⟩)
      else .ok r

/-- No fix at all is let through. -/
def requireNearPickup (b driverId : ℕ) : Request Unit :=
  check fun w ↦
    match w.metersToPickup driverId b with
    | none => .ok ()
    | some meters =>
      if meters ≤ arrivalRadiusMeters then .ok ()
      else .error (.api ⟨409, "invalid_booking_state",
        "You are too far from the pickup to mark arrival",
        [("distanceMeters", toString meters), ("radiusMeters", toString arrivalRadiusMeters)]⟩)

def markEnRoute (b driverId : ℕ) : Request Unit :=
  besteffort (transition ⟨b, .enRoute, .nothing, false, .markEnRoute driverId⟩)

def arrived (b driverId : ℕ) : Request Unit := do
  (requireDriverJob b driverId).ignore
  requireNearPickup b driverId
  let now ← read (·.now)
  transition ⟨b, .arrived, .arrivedAt now, false, .arrived driverId⟩

/-- `BookingOtpService.verify`: the count goes up with the guess, whatever it is. -/
def verifyOtp (env : Env) (b : ℕ) (code : String) : Request Bool :=
  Proc.query (.verifyOtp b) fun w ↦
    match w.row b with
    | none => false
    | some ⟨_, t⟩ =>
      t.otpHash.isSome && w.now < t.otpExpiresAt && t.otpAttempts + 1 ≤ env.otpMaxAttempts &&
        t.otpHash = some (env.sha256 code)

def start (env : Env) (b driverId : ℕ) (code : String) : Request Unit := do
  (requireDriverJob b driverId).ignore
  let ok ← verifyOtp env b code
  if !ok then do
    let attempts ← read fun w ↦ (w.trips b).otpAttempts
    throw (.api ⟨409, "invalid_booking_otp", "That code is not correct",
      [("attemptsRemaining", toString (env.otpMaxAttempts - attempts))]⟩)
  else do
    let now ← read (·.now)
    transition ⟨b, .inProgress, .startedAt now true, false, .start driverId⟩

/-- Free for the first minutes, then by the minute. -/
def waitingChargePaise (waitedMinutes freeMinutes : ℕ) (perMinutePaise : ℤ) : ℤ :=
  (waitedMinutes - freeMinutes : ℕ) * perMinutePaise

/-- The waiting a job is billed for, under the rules snapshotted on its row. -/
def waitingPaise (job : Row) (now : ℕ) : ℤ :=
  let waitedMinutes := match job.trip.arrivedAt with
    | some arrivedAt => (job.trip.startedAt.getD now - arrivedAt) / 60000
    | none => 0
  waitingChargePaise waitedMinutes (job.trip.waitingFreeMinutes.getD 15)
    (job.trip.waitingPerMinute.getD 500)

def finalizeTrip (b : ℕ) (job : Row) (cause : Cause) : Request Unit := do
  let now ← read (·.now)
  let waiting := waitingPaise job now
  transition ⟨b, .completed,
    .finalize now waiting (job.booking.total - job.trip.waitingCharge + waiting), false, cause⟩

def complete (b driverId : ℕ) : Request Unit := do
  let job ← requireDriverJob b driverId
  finalizeTrip b job (.complete driverId)

def completeByAdmin (b : ℕ) : Request Unit := do
  match ← readRow b with
  | none => throw notFound
  | some job =>
    Proc.when (job.booking.driverId = none)
      (throw (.api (.conflict "This booking has no driver to finish the trip" [])))
    finalizeTrip b job .completeByAdmin

/-- A new attempt row, on the rung the driver had accepted on. -/
def recordOutcome (b driverId : ℕ) (outcome : AttemptOutcome) : Request Unit := do
  let accepted ← read fun w ↦ w.attempts.find? fun a ↦
    a.bookingId = b && a.driverId = driverId && a.outcome = .accepted
  Proc.write (.insertAttempt ⟨b, driverId, (accepted.map (·.wave)).getD 1, outcome⟩)

def unable (env : Env) (b driverId : ℕ) (reason : String) : Request Unit := do
  (requireDriverJob b driverId).ignore
  transition ⟨b, .searching, .unassign (some reason), false, .unable driverId⟩
  recordOutcome b driverId .unable
  besteffort (DispatchService.redispatch env b ("unable_" ++ reason))

end JobExecutionService

end Towing.Trips
