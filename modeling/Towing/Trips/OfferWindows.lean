import Towing.Process.Moments
import Towing.Trips.Attempts
import Towing.Trips.Clock

namespace Towing.Trips

open Towing.Arith Towing.Process Towing.Money

/-- The trips, with the answer windows of the attempts, by their rows, and what drivers
are scored by. `insertFails` is the database refusing a new attempt. -/
structure Offering where
  trips : World
  windows : ℕ → Option (ℕ × ℕ)
  /-- `drivers.acceptance_rate`, in hundredths of a percent. -/
  acceptanceRate : ℕ → Option ℤ
  insertFails : Bool

inductive OfferingStep
  | trips (l : Step)
  | clock
  | recordOffer (a : Attempt) (expiresAt : ℕ)
  | selectAttempts (driverId : ℕ)
  | setAcceptanceRate (driverId : ℕ) (rate : ℤ)
  | setInsertFails (fails : Bool)

namespace Offering

variable (w : Offering)

def now : ℕ := w.trips.now

/-- The rows of the driver's offers since then, by outcome. -/
def countSince (driverId since : ℕ) (p : AttemptOutcome → Bool) : ℕ :=
  w.trips.attempts.zipIdx.countP fun row ↦
    row.1.driverId = driverId && p row.1.outcome && (w.windows row.2).any (since ≤ ·.1)

def isAccepted (outcome : AttemptOutcome) : Bool := outcome = .accepted

def isResolved (outcome : AttemptOutcome) : Bool :=
  outcome = .accepted || outcome = .rejected || outcome = .expired

def run : OfferingStep → Offering
  | .trips l => { w with trips := w.trips.run l }
  | .recordOffer a expiresAt =>
    if w.insertFails then w
    else
      { w with
        trips := w.trips.run (.insertAttempt a)
        windows := Function.update w.windows w.trips.attempts.length (some (w.now, expiresAt)) }
  | .setAcceptanceRate d rate =>
    { w with acceptanceRate := Function.update w.acceptanceRate d (some rate) }
  | .setInsertFails fails => { w with insertFails := fails }
  | .clock | .selectAttempts _ => w

end Offering

instance : Store OfferingStep Offering where
  commit l w := w.run l

abbrev OfferingRequest (α : Type) := Proc OfferingStep Offering Failure α

/-- A request that makes no offer, made here. -/
def besideOffers {α : Type} (q : Request α) : OfferingRequest α := q.lift OfferingStep.trips Offering.trips

namespace Offering

def windowDaysMs : ℕ := 30 * 24 * 60 * 60 * 1000

/-- `rate.toFixed(2)`, in hundredths. -/
def rateOf (accepted resolved : ℕ) : ℤ := roundDiv (accepted * 10000) resolved

def recomputeAcceptanceRate (driverId : ℕ) : OfferingRequest Unit := do
  let since ← Proc.query .clock fun w ↦ w.now - windowDaysMs
  let counts ← Proc.query (.selectAttempts driverId) fun w ↦
    (w.countSince driverId since isAccepted, w.countSince driverId since isResolved)
  Proc.when (counts.2 ≠ 0) (Proc.write (.setAcceptanceRate driverId (rateOf counts.1 counts.2)))

def releaseOfferLock (driverId : ℕ) : OfferingRequest Unit :=
  Proc.write (.trips (.releaseOfferLock driverId))

def recordOffer (a : Attempt) (expiresAt : ℕ) : OfferingRequest Unit :=
  Proc.attempt (.recordOffer a expiresAt) fun w ↦
    if w.insertFails then .error (.error "insert failed") else .ok ()

def offer (b driverId wave timeoutSeconds : ℕ) : OfferingRequest Bool := do
  let taken ← Proc.query (.trips (.takeOfferLock driverId
    (timeoutSeconds * 1000 + OfferService.offerLockGraceMs))) fun w ↦
      w.trips.lockFree (w.trips.offerLocks driverId)
  if !taken then pure false
  else do
    let expiresAt ← Proc.query .clock fun w ↦ w.now + timeoutSeconds * 1000
    tryCatch (recordOffer ⟨b, driverId, wave, .offered⟩ expiresAt) fun e ↦ do
      releaseOfferLock driverId
      throw e
    besideOffers (enqueue (.offerTimeout b driverId wave) (.offerTimeout b driverId wave)
      (timeoutSeconds * 1000))
    pure true

/-- An expiry or a decline, with what it makes of the driver's rate. -/
def resolve (b driverId : ℕ) (outcome : AttemptOutcome) : OfferingRequest Unit := do
  let moved ← besideOffers (OfferService.resolveOffer b driverId outcome)
  Proc.when moved do
    releaseOfferLock driverId
    recomputeAcceptanceRate driverId

def expire (b driverId : ℕ) : OfferingRequest Unit := resolve b driverId .expired

def reject (b driverId : ℕ) : OfferingRequest Unit := resolve b driverId .rejected

def accept (b driverId : ℕ) : OfferingRequest Unit := do
  besideOffers (OfferService.accept b driverId)
  recomputeAcceptanceRate driverId

end Offering

/-- Offers and their answers, at any time, among everything else that is done with the
bookings. -/
inductive Offers (env : Env) : OfferingRequest Unit → Prop
  | offer (b driverId wave timeoutSeconds : ℕ) :
      Offers env (Offering.offer b driverId wave timeoutSeconds).ignore
  | expire (b driverId : ℕ) : Offers env (Offering.expire b driverId)
  | reject (b driverId : ℕ) : Offers env (Offering.reject b driverId)
  | accept (b driverId : ℕ) : Offers env (Offering.accept b driverId)
  | revokeDrivers (b : ℕ) (driverIds : List ℕ) :
      Offers env (besideOffers (OfferService.revokeDrivers b driverIds))
  | revokeAll (b : ℕ) : Offers env (besideOffers (OfferService.revokeAll b))
  | giveUp (b : ℕ) : Offers env (besideOffers (DispatchService.giveUp b))
  | reassign (b : ℕ) (driverFault : Bool) :
      Offers env (besideOffers (AdminBookingsService.reassign env b .resumeSearch driverFault))
  | operates {q : Request Unit} (h : Operates env q) (hq : Avoids .settle q) (ha : Avoids .accept q)
      (ho : Avoids .offer q) :
      Offers env (besideOffers q)
  | setInsertFails (fails : Bool) : Offers env (Proc.write (.setInsertFails fails))

end Towing.Trips
