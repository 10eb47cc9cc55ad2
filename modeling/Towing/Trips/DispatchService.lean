import Towing.Trips.BookingsService

namespace Towing.Trips

open Towing.Process Towing.Money

def readRow (b : ℕ) : Request (Option Row) := read fun w ↦ w.row b

namespace OfferService

def offerLockGraceMs : ℕ := 5000

def offer (b driverId wave timeoutSeconds : ℕ) : Request Bool := do
  let taken ← Proc.query (.takeOfferLock driverId (timeoutSeconds * 1000 + offerLockGraceMs))
    fun w ↦ w.lockFree (w.offerLocks driverId)
  if !taken then pure false
  else do
    Proc.write (.insertAttempt ⟨b, driverId, wave, .offered⟩)
    enqueue (.offerTimeout b driverId wave) (.offerTimeout b driverId wave) (timeoutSeconds * 1000)
    pure true

/-- Whether an open offer was there to resolve. -/
def resolveOffer (b driverId : ℕ) (outcome : AttemptOutcome) : Request Bool :=
  Proc.query (.resolveOffer b driverId outcome) fun w ↦ w.attempts.any (World.isOffered b driverId)

def resolve (b driverId : ℕ) (outcome : AttemptOutcome) : Request Unit := do
  let moved ← resolveOffer b driverId outcome
  Proc.when moved (Proc.write (.releaseOfferLock driverId))

def expire (b driverId : ℕ) : Request Unit := resolve b driverId .expired

def reject (b driverId : ℕ) : Request Unit := resolve b driverId .rejected

def pendingOffers (b : ℕ) : Request (List ℕ) :=
  read fun w ↦ (w.attempts.filter fun a ↦ a.bookingId = b && a.outcome = .offered).map (·.driverId)

def revokeEach (b : ℕ) : List ℕ → Request Unit
  | [] => pure ()
  | d :: ds => do
    resolve b d .revoked
    revokeEach b ds

def revokeDrivers (b : ℕ) (driverIds : List ℕ) : Request Unit := do
  let pending ← pendingOffers b
  revokeEach b (pending.filter (· ∈ driverIds))

def revokeAll (b : ℕ) : Request Unit := do
  let pending ← pendingOffers b
  revokeDrivers b pending

def releaseEach : List ℕ → Request Unit
  | [] => pure ()
  | d :: ds => do
    Proc.write (.releaseOfferLock d)
    releaseEach ds

def afterAssign (b driverId : ℕ) : Request Unit := do
  let losers ← Proc.query (.revokeOutstanding b driverId) fun w ↦
    (w.attempts.filter fun a ↦
      a.bookingId = b && a.outcome = .offered && a.driverId ≠ driverId).map (·.driverId)
  releaseEach losers
  Proc.write (.releaseOfferLock driverId)

def accept (b driverId : ℕ) : Request Unit := do
  match ← readRow b with
  | none => throw (.api (.notFound "Job not found"))
  | some r =>
    Proc.when (r.booking.status ≠ .searching) (throw gone)
    let suspended ← read fun w ↦ w.suspendedFleet driverId
    Proc.attempt (.accept b driverId suspended) fun w ↦ (w.acceptOffer b driverId suspended).map fun _ ↦ ()
    afterAssign b driverId

end OfferService

namespace DispatchService

open OfferService

def searchLockTtlMs : ℕ := 15000

def emptyWaveDelayMs : ℕ := 2000

def reschedule (b : ℕ) (id : JobId) (delayMs : ℕ) : Request Unit := enqueue id (.search b) delayMs

def isPaused (r : Row) : Request Bool :=
  read fun w ↦ r.trip.zoneId.any w.zonePaused ||
    (decide (r.booking.commissionBand = some .C) && w.longDistanceDisabled)

def giveUp (b : ℕ) : Request Unit :=
  transition ⟨b, .noDriversFound, .nothing, false, .giveUp⟩

/-- The drivers never asked about this booking among those the selection ranks. -/
def select (b : ℕ) (ranked : List ℕ) : Request (List ℕ) :=
  read fun w ↦ ranked.filter fun d ↦ !w.attempts.any fun a ↦ a.bookingId = b && a.driverId = d

def offerEach (b wave timeoutSeconds : ℕ) : List ℕ → Request ℕ
  | [] => pure 0
  | d :: ds => do
    let offered ← offer b d wave timeoutSeconds
    let rest ← offerEach b wave timeoutSeconds ds
    pure (if offered then rest + 1 else rest)

/-- One rung of the search: the offers, and the wave after it. -/
def advance (b wave deadlineAt : ℕ) (config : DispatchConfig) (r : Row) (ranked : List ℕ) :
    Request Unit := do
  let candidates ← select b ranked
  Proc.write (.setWaveState b wave
    (if r.trip.dispatchDeadlineAt.isSome then none else some deadlineAt))
  let offered ← offerEach b wave config.offerTimeoutSeconds (candidates.take config.offersPerWave)
  reschedule b (.wave b wave)
    (if offered = 0 then emptyWaveDelayMs else config.offerTimeoutSeconds * 1000)

def runWaveLocked (env : Env) (b : ℕ) (ranked : List ℕ) : Request Unit := do
  match ← readRow b with
  | none => pure ()
  | some r =>
    if r.booking.status ≠ .searching then pure ()
    else do
      let now ← read (·.now)
      if r.trip.scheduledAt.any (now < ·) then
        enqueue (.scheduled b) (.search b) (r.trip.scheduledAt.getD 0 - now)
      else do
        let paused ← isPaused r
        if paused then do
          revokeAll b
          reschedule b (.paused b) 30000
        else do
          let config := env.configFor r.trip.zoneId
          let deadlineAt := r.trip.dispatchDeadlineAt.getD (now + config.maxSearchSeconds * 1000)
          if deadlineAt ≤ now then giveUp b
          else advance b (r.trip.searchWave.getD 0 + 1) deadlineAt config r ranked

def runWave (env : Env) (b : ℕ) (ranked : List ℕ) : Request Unit := do
  let taken ← Proc.query (.takeSearchLock b searchLockTtlMs) fun w ↦ w.lockFree (w.searchLocks b)
  Proc.when taken do
    tryCatch (runWaveLocked env b ranked) fun e ↦ do
      Proc.write (.releaseSearchLock b)
      throw e
    Proc.write (.releaseSearchLock b)

def redispatch (env : Env) (b : ℕ) (reason : String) : Request Unit := do
  match ← readRow b with
  | none => pure ()
  | some r =>
    if r.booking.status ≠ .searching then pure ()
    else do
      let config := env.configFor r.trip.zoneId
      let now ← read (·.now)
      Proc.write (.setWaveState b (r.trip.searchWave.getD 1)
        (some (now + config.maxSearchSeconds * 1000)))
      reschedule b (.redispatch b reason)
        (if env.redispatchFront then 0 else config.offerTimeoutSeconds * 1000)

/-- What keeps the operator's driver from the offer, if anything does. -/
def adminOfferToDriver (env : Env) (b driverId : ℕ) (ranked : List ℕ) : Request (Option String) := do
  match ← readRow b with
  | none => pure (some "not_searching")
  | some r =>
    if r.booking.status ≠ .searching then pure (some "not_searching")
    else do
      let config := env.configFor r.trip.zoneId
      let candidates ← select b ranked
      if driverId ∉ candidates.take 50 then pure (some "not_eligible")
      else do
        let offered ← offer b driverId (r.trip.searchWave.getD 1) config.offerTimeoutSeconds
        if offered then do
          reschedule b (.adminOffer b) (config.offerTimeoutSeconds * 1000)
          pure none
        else pure (some "offer_locked")

def process (env : Env) (ranked : List ℕ) : Payload → Request Unit
  | .search b => runWave env b ranked
  | .offerTimeout b driverId _ => expire b driverId
  | .revoke b _ _ => revokeAll b
  | .applySuspension _ => pure ()

/-- A worker on a job, which is tried again after `retryMs` or kept as failed when it throws. -/
def runJob (env : Env) (id : JobId) (ranked : List ℕ) (retryMs : Option ℕ) : Request Unit := do
  match ← Proc.query (.startJob id) fun w ↦ w.dueJob id with
  | none => pure ()
  | some payload =>
    tryCatch (do
        process env ranked payload
        let now ← read (·.now)
        Proc.write (.endJob id (.completed now))) fun _ ↦ do
      let now ← read (·.now)
      Proc.write (.endJob id ((retryMs.map fun ms ↦ JobState.pending (now + ms)).getD .failed))

end DispatchService

end Towing.Trips
