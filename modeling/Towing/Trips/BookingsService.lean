import Towing.Money.Channels
import Towing.Trips.Steps

namespace Towing.Trips

open Towing.Db Towing.Process Towing.Money

structure DispatchConfig where
  offersPerWave : ℕ
  offerTimeoutSeconds : ℕ
  maxSearchSeconds : ℕ
  deriving DecidableEq, Repr

/-- What the deployment fixes. `configFor` is a zone's resolved configuration. -/
structure Env extends Money.Env where
  configFor : Option ℕ → DispatchConfig
  redispatchFront : Bool
  otpMaxAttempts : ℕ

def sampleEnv : Env where
  toEnv := Money.sampleEnv
  configFor _ := ⟨3, 20, 180⟩
  redispatchFront := true
  otpMaxAttempts := 5

def tierLabel : CancellationTier → String
  | .free => "free"
  | .part => "partial"
  | .full => "full"

def notFound : Failure := .api (.notFound "Booking not found")

def transition (m : Move) : Request Unit :=
  Proc.attempt (.move m) fun w ↦
    match w.moveError m with
    | some e => .error e
    | none => .ok ()

theorem transition_next {β : Type} {m : Move} {g : Unit → Request β} {w : World}
    (h : w.moveError m = none) : ((transition m).bind g).exec w = (g ()).exec (w.move m) :=
  Proc.exec_next (by simp [transition, h]; rfl)

theorem transition_stop {β : Type} {m : Move} {g : Unit → Request β} {w : World} {e : Failure}
    (h : w.moveError m = some e) : ((transition m).bind g).exec w = (.error e, w) := by
  have hstay : w.move m = w := by simp [World.move, h]
  refine Proc.exec_stop ?_
  simp only [transition, Proc.exec_attempt, h]
  exact congrArg _ hstay

def enqueue (id : JobId) (payload : Payload) (delayMs : ℕ) : Request Unit :=
  Proc.attempt (.enqueue id payload delayMs) fun w ↦
    if w.queueUp then .ok () else .error (.error "the queue did not answer")

/-- What only logs its failures. -/
def besteffort (p : Request Unit) : Request Unit := tryCatch p fun _ ↦ pure ()

theorem besteffort_ok (p : Request Unit) (w : World) :
    (besteffort p).exec w = (.ok (), (p.exec w).2) := by
  rw [besteffort, Proc.tryCatch_eq, Proc.exec_handle]
  rcases h : p.exec w with ⟨_ | _, t⟩ <;> rfl

theorem enqueue_money (id : JobId) (payload : Payload) (delayMs : ℕ) (w : World) :
    ((enqueue id payload delayMs).exec w).2.money = w.money := by
  simp only [enqueue, Proc.exec_attempt]
  change (w.run (.enqueue id payload delayMs)).money = w.money
  simp only [World.run]
  split_ifs <;> rfl

namespace BookingsService

/-- `repo.detail`: somebody else's booking reads as absent. -/
def requireOwn (userId b : ℕ) : Request Row :=
  check fun w ↦
    match w.row b with
    | some r => if r.booking.userId = userId then .ok r else .error notFound
    | none => .error notFound

def create (b : ℕ) (p : NewBooking) : Request Unit := do
  let paused : Failure := .api ⟨409, "dispatch_paused",
    "New bookings are paused in this zone right now. Please try again later.",
    [("zoneId", toString p.locked.zoneId)]⟩
  let longDistance : Failure := .api ⟨409, "dispatch_paused",
    "Long-distance bookings are paused right now. Please try again later.",
    [("zoneId", toString p.locked.zoneId)]⟩
  let now ← read (·.now)
  Proc.when (p.scheduledAt.any (· ≤ now))
    (throw (.api ⟨422, "validation_failed", "A scheduled pickup must be in the future",
      [("scheduledAt", "must be in the future")]⟩))
  let zonePaused ← read fun w ↦ w.zonePaused p.locked.zoneId
  Proc.when zonePaused (throw paused)
  let disabled ← read (·.longDistanceDisabled)
  Proc.when (p.locked.band = .C ∧ disabled) (throw longDistance)
  Proc.attempt (.create b p) fun w ↦ (w.place b p).map fun _ ↦ ()
  let now ← read (·.now)
  besteffort (enqueue (.dispatch b) (.search b) ((p.scheduledAt.map (· - now)).getD 0))

def retrySearch (userId b : ℕ) : Request Unit := do
  (requireOwn userId b).ignore
  transition ⟨b, .searching, .resetSearch, false, .retrySearch⟩
  let now ← read (·.now)
  besteffort (enqueue (.retry b now) (.search b) 0)

/-- The row and the clock both routes below decide by. -/
def cancellationFor (userId b : ℕ) : Request CancellationInputs :=
  check fun w ↦
    match w.row b with
    | some ⟨r, _⟩ =>
      if r.userId = userId then .ok ⟨r.status, r.createdAt, r.baseFare, r.driverId, none, w.now⟩
      else .error notFound
    | none => .error notFound

structure CancellationQuote where
  tier : CancellationTier
  feePaise : ℤ
  reason : String
  driverCompensationPaise : ℤ
  chargeable : Bool
  deriving DecidableEq, Repr

def cancellationQuote (env : Env) (userId b : ℕ) : Request CancellationQuote := do
  let inputs ← cancellationFor userId b
  let outcome := inputs.outcome env.charges
  pure ⟨outcome.tier, outcome.feePaise, outcome.reason, outcome.driverCompensationPaise,
    outcome.tier = .free || inputs.driverId.isSome || 0 < outcome.feePaise⟩

structure BookingCancel where
  reason : Option String
  payment : Option PaymentCaptureRequest
  deriving DecidableEq, Repr

structure BookingCancelResponse where
  tier : CancellationTier
  feePaise : ℤ
  driverCompensationPaise : ℤ
  deriving DecidableEq, Repr

def compensationLeg (b driverId : ℕ) (amountPaise : ℤ) (reason : String) : LedgerLeg LedgerKey where
  owner := ⟨.driver, driverId⟩
  type := .adjustment
  amountPaise := .int amountPaise
  reason := reason
  refId := some (.booking b)
  idempotencyKey := .cancellationCompensation b

/-- What both cancellations do once the booking is cancelled. -/
def afterCancel (b : ℕ) (driverId : Option ℕ) (compensationPaise : ℤ) (reason : String) :
    Request Unit := do
  match driverId with
  | some d =>
    Proc.when (0 < compensationPaise)
      (money (ledgerPost [compensationLeg b d compensationPaise reason])).ignore
  | none => pure ()
  besteffort (enqueue (.revoke b) (.revoke b .cancelled driverId) 0)
  match driverId with
  | some d => besteffort (enqueue (.applySuspension b) (.applySuspension d) 0)
  | none => pure ()

def cancel (env : Env) (userId b : ℕ) (body : BookingCancel) : Request BookingCancelResponse := do
  let inputs ← cancellationFor userId b
  let outcome := inputs.outcome env.charges
  Proc.when (outcome.tier ≠ .free)
    (match body.payment with
    | none => throw (.api ⟨422, "cancellation_requires_payment",
        outcome.reason ++ " — the cancellation fee must be paid first",
        [("tier", tierLabel outcome.tier), ("feePaise", toString outcome.feePaise)]⟩)
    | some payment => money (CancellationFeeService.capture env.toEnv b payment outcome.feePaise))
  transition ⟨b, .cancelled,
    .cancellation "customer" body.reason outcome.feePaise outcome.driverCompensationPaise,
    outcome.tier = .free, .customerCancel inputs⟩
  afterCancel b inputs.driverId outcome.driverCompensationPaise
    ("Cancellation compensation (" ++ tierLabel outcome.tier ++ ")")
  pure ⟨outcome.tier, outcome.feePaise, outcome.driverCompensationPaise⟩

end BookingsService

end Towing.Trips
