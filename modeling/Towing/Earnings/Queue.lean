import Towing.Money.EarningsProjector
import Towing.Money.Settlement
import Towing.Process.Moments
import Mathlib.Logic.Function.Basic

namespace Towing.Earnings

open Towing.Db Towing.Money Towing.Process

/-- A completed trip, its economics locked at acceptance. -/
structure CompletedTrip where
  fleetId : Option ℕ
  driverId : ℕ
  totalPaise : ℕ
  taxPaise : ℕ
  band : Band
  commissionPct : Option Pct
  driverSharePct : Pct

/-- On the taxable, never on the total. -/
def CompletedTrip.settlement (trip : CompletedTrip) : Except String Settlement :=
  computeSettlement ⟨trip.totalPaise - trip.taxPaise, trip.band, trip.commissionPct,
    trip.fleetId.map fun _ ↦ trip.driverSharePct⟩

/-- The id of a job, `earn:…` or the `earn:…:heal` of the audit. -/
structure ProjectJob where
  key : EarningsGrainKey
  heal : Bool
  deriving DecidableEq, Repr

/-- A worker holds the job that it has taken by a token of its own. -/
inductive JobState
  | waiting
  | active (token : ℕ)
  | completed (finishedAt : ℤ)
  deriving DecidableEq, Repr

/-- `jobs` are the jobs that the queue still knows, `tokens` the ones it has given out. The clock
is in microseconds. -/
structure World where
  db : EarningsDb
  paid : ℕ → Bool
  earnings : EarningsDaily
  jobs : OrderedMap ProjectJob JobState
  tokens : ℕ
  queueUp : Bool
  now : ℤ

inductive Step
  | look
  | post (bookingId : ℕ) (legs : List SettlementLeg)
  | enqueue (job : ProjectJob)
  | markPaid (bookingId commission : ℕ)
  | take (job : ProjectJob)
  | upsert (key : EarningsGrainKey)
  | deleteCell (key : EarningsGrainKey)
  | finish (job : ProjectJob) (token : ℕ)
  | stall (job : ProjectJob)
  | trim (job : ProjectJob)
  | tick (microseconds : ℕ)
  | queue (up : Bool)

/-- `KEEP_COMPLETED`, the age in microseconds. -/
def KEEP_COMPLETED_AGE : ℤ := 3_600_000_000

def KEEP_COMPLETED_COUNT : ℕ := 1000

def JobState.isCompleted : JobState → Bool
  | .completed _ => true
  | _ => false

/-- What the ledger holds after a post. -/
def posting (db : EarningsDb) (rows : List EarningsRow) : EarningsDb where
  transactions := db.transactions ++ rows
  bookings := db.bookings

/-- What `bookings` holds after the transition to `paid`. -/
def pricing (db : EarningsDb) (bookingId commission : ℕ) : EarningsDb where
  transactions := db.transactions
  bookings := Function.update db.bookings bookingId
    ((db.bookings bookingId).map fun b ↦ { b with commissionAmount := commission })

namespace World

variable (w : World)

def posted (bookingId : ℕ) : Bool := w.db.transactions.any fun t ↦ t.refId = some bookingId

def newRows (bookingId : ℕ) (legs : List SettlementLeg) : List EarningsRow :=
  legs.map fun leg ↦ ⟨leg.type, leg.amountPaise, some bookingId, w.now⟩

def grainKeysForBooking (bookingId : ℕ) : List EarningsGrainKey :=
  OrderedMap.firsts ((w.db.transactions.filter fun t ↦ t.refId = some bookingId).filterMap w.db.grain)

def run : Step → World
  | .look => w
  | .post bookingId legs =>
    if w.posted bookingId then w
    else { w with db := posting w.db (w.newRows bookingId legs) }
  | .enqueue job =>
    -- an id that the queue still knows is ignored
    if w.queueUp ∧ w.jobs.get? job = none then { w with jobs := w.jobs.set job .waiting } else w
  | .markPaid bookingId commission =>
    if w.paid bookingId then w
    else { w with
      paid := Function.update w.paid bookingId true
      db := pricing w.db bookingId commission }
  | .take job =>
    if w.jobs.get? job = some .waiting then
      { w with
        jobs := w.jobs.set job (.active w.tokens)
        tokens := w.tokens + 1 }
    else w
  | .upsert key => { w with
      earnings := (recomputed w.db key).elim w.earnings fun cell ↦ w.earnings.set key cell }
  | .deleteCell key => { w with earnings := w.earnings.erase key }
  | .finish job token =>
    -- who has lost the job to another worker cannot finish it
    if w.jobs.get? job = some (.active token) then { w with jobs := w.jobs.set job (.completed w.now) } else w
  | .stall job =>
    match w.jobs.get? job with
    | some (.active _) => { w with jobs := w.jobs.set job .waiting }
    | _ => w
  | .trim job =>
    match w.jobs.get? job with
    | some (.completed finishedAt) =>
      if finishedAt + KEEP_COMPLETED_AGE ≤ w.now ∨
          KEEP_COMPLETED_COUNT < w.jobs.countP (·.2.isCompleted) then
        { w with jobs := w.jobs.erase job }
      else w
    | _ => w
  | .tick microseconds => { w with now := w.now + microseconds }
  | .queue up => { w with queueUp := up }

/-- All the jobs there are have run. -/
def Quiet : Prop := ∀ x ∈ w.jobs, x.2.isCompleted = true

instance : Decidable w.Quiet := List.decidableBAll ..

/-- Nothing has been settled yet. -/
def blank (trips : ℕ → Option CompletedTrip) (now : ℤ) : World where
  db :=
    { transactions := []
      bookings := fun id ↦ (trips id).map fun trip ↦
        { fleetId := trip.fleetId, driverId := some trip.driverId, total := trip.totalPaise, commissionAmount := 0 } }
  paid := fun _ ↦ false
  earnings := []
  jobs := []
  tokens := 0
  queueUp := true
  now := now

end World

instance : Store Step World := ⟨fun l w ↦ w.run l⟩

abbrev Request := Proc Step World String

def enqueueAll : List ProjectJob → Request Unit
  | [] => pure ()
  | job :: jobs => do
    Proc.attempt (.enqueue job) fun w ↦ if w.queueUp then .ok () else .error "The queue is down"
    enqueueAll jobs

/-- After commit, and best effort. -/
def enqueueProjection (bookingId : ℕ) : Request Unit :=
  Proc.handle
    (do
      let keys ← Proc.query .look (·.grainKeysForBooking bookingId)
      enqueueAll (keys.map fun key ↦ ⟨key, false⟩))
    fun _ ↦ pure ()

/-- The legs, the projection of what was posted, and then the transition to `paid`. -/
def settle (trips : ℕ → Option CompletedTrip) (bookingId : ℕ) : Request Unit := do
  match trips bookingId with
  | none => throw "Booking not found"
  | some trip =>
    let paid ← Proc.query .look (·.paid bookingId)
    if paid then pure ()
    else
      match trip.settlement with
      | .error message => throw message
      | .ok settlement =>
        let replayed ← Proc.query (.post bookingId settlement.legs) (·.posted bookingId)
        Proc.when (replayed = false) (enqueueProjection bookingId)
        Proc.attempt (.markPaid bookingId settlement.commissionPaise.toNat) fun w ↦
          if w.paid bookingId then .error "A booking cannot go from paid to paid" else .ok ()

/-- The worker: `projectCell`, statement by statement. -/
def work (job : ProjectJob) : Request Unit := do
  let taken ← Proc.query (.take job) fun w ↦ if w.jobs.get? job = some .waiting then some w.tokens else none
  match taken with
  | none => pure ()
  | some token =>
    let made ← Proc.query (.upsert job.key) fun w ↦ (recomputed w.db job.key).isSome
    Proc.when (made = false) (Proc.write (.deleteCell job.key))
    Proc.write (.finish job token)

/-- The nightly audit re-enqueues what drifted. -/
def reconcile (days : Option ℤ) : Request Unit := do
  let stale ← Proc.query .look fun w ↦ projectionDrift w.db w.earnings days (w.now / 1000)
  enqueueAll (stale.map fun drift ↦ ⟨drift.key, true⟩)

/-- Settlements, workers and audits, a worker that dies in between and the queue that lets a job
go, forgets one or is down. -/
inductive Projects (trips : ℕ → Option CompletedTrip) : Request Unit → Prop
  | settle (bookingId : ℕ) : Projects trips (settle trips bookingId)
  | work (job : ProjectJob) : Projects trips (work job)
  | reconcile (days : Option ℤ) : Projects trips (reconcile days)
  | stall (job : ProjectJob) : Projects trips (Proc.write (.stall job))
  | trim (job : ProjectJob) : Projects trips (Proc.write (.trim job))
  | tick (microseconds : ℕ) : Projects trips (Proc.write (.tick microseconds))
  | queue (up : Bool) : Projects trips (Proc.write (.queue up))

end Towing.Earnings
