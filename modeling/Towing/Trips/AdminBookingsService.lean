import Towing.Trips.JobExecutionService

namespace Towing.Trips

open Towing.Process Towing.Money

namespace AdminBookingsService

def cancellable (s : BookingStatus) : Bool :=
  s = .searching || s = .noDriversFound || s = .assigned || s = .enRoute || s = .arrived ||
    s = .inProgress

/-- The states that hold a driver. -/
def reassignable (s : BookingStatus) : Bool :=
  s = .assigned || s = .enRoute || s = .arrived || s = .inProgress

structure AdminBookingCancelBody where
  reason : String
  feeMode : FeeMode
  compensateDriver : Bool
  deriving DecidableEq, Repr

structure AdminBookingCancelResponse where
  feePaise : ℤ
  driverCompensationPaise : ℤ
  couponReleased : Bool
  deriving DecidableEq, Repr

/-- What an operator's cancellation charges, pays and gives back, by the policy's word. -/
def cancellationTerms (outcome : CancellationOutcome) (feeMode : FeeMode) (compensateDriver : Bool)
    (couponId : Option ℕ) : AdminBookingCancelResponse :=
  let feePaise := if feeMode = .applyPolicy then outcome.feePaise else 0
  ⟨feePaise, if feeMode = .applyPolicy ∨ compensateDriver then outcome.driverCompensationPaise else 0,
    feePaise = 0 && couponId.isSome⟩

def actionRow (b : ℕ) : Request Row :=
  check fun w ↦
    match w.row b with
    | some r => .ok r
    | none => .error notFound

def refuseCancel (s : BookingStatus) : Failure :=
  .api (.conflict
    (if s = .completed ∨ s = .paid ∨ s = .disputed then
      "A " ++ s.label ++ " booking is resolved through its dispute route, not by cancellation"
    else "A " ++ s.label ++ " booking cannot be cancelled") [("status", s.label)])

def cancel (env : Env) (b : ℕ) (body : AdminBookingCancelBody) :
    Request AdminBookingCancelResponse := do
  let inputs ← check fun w ↦
    match w.row b with
    | none => .error notFound
    | some ⟨r, _⟩ =>
      if !cancellable r.status then .error (refuseCancel r.status)
      else .ok (⟨r.status, r.createdAt, r.baseFare, r.driverId, r.couponId, w.now⟩ :
        CancellationInputs)
  let outcome := inputs.outcome env.charges
  let decided := cancellationTerms outcome body.feeMode body.compensateDriver inputs.couponId
  transition ⟨b, .cancelled,
    .cancellation "admin" (some body.reason) decided.feePaise decided.driverCompensationPaise,
    decided.couponReleased, .adminCancel inputs body.feeMode body.compensateDriver⟩
  BookingsService.afterCancel b inputs.driverId decided.driverCompensationPaise
    ("Cancellation compensation (admin, " ++ tierLabel outcome.tier ++ ")")
  pure decided

inductive ReassignMode
  | resumeSearch
  | offerToDriver (driverId : ℕ) (ranked : List ℕ)
  deriving DecidableEq, Repr

def reassign (env : Env) (b : ℕ) (mode : ReassignMode) (driverFault : Bool) : Request Unit := do
  let r ← actionRow b
  let refused : Failure := .api (.conflict
    ("Only a booking with an assigned driver can be reassigned (this one is " ++
      r.booking.status.label ++ ")") [("status", r.booking.status.label)])
  match r.booking.driverId with
  | none => throw refused
  | some previousDriverId =>
    Proc.when (!reassignable r.booking.status) (throw refused)
    OfferService.revokeAll b
    transition ⟨b, .searching, .unassign none, false, .reassign previousDriverId⟩
    JobExecutionService.recordOutcome b previousDriverId (if driverFault then .unable else .reassigned)
    match mode with
    | .offerToDriver driverId ranked =>
      match ← DispatchService.adminOfferToDriver env b driverId ranked with
      | some exclusion => throw (.api ⟨422, "validation_failed",
          "The chosen driver cannot take this offer (" ++ exclusion ++ ")",
          [("exclusion", exclusion)]⟩)
      | none => pure ()
    | .resumeSearch => DispatchService.redispatch env b "admin_reassign"

/-- `ADMIN_TRANSITION_EDGES`. -/
def adminTransitionEdges : BookingStatus → List BookingStatus
  | .assigned => [.arrived]
  | .enRoute => [.arrived]
  | .arrived => [.inProgress]
  | .inProgress => [.completed]
  | .noDriversFound => [.searching]
  | _ => []

def transitionOverride (b : ℕ) (target : BookingStatus) : Request Unit := do
  let r ← actionRow b
  Proc.when (target ∉ adminTransitionEdges r.booking.status)
    (throw (.api (.conflict ("A " ++ r.booking.status.label ++ " booking cannot be moved to " ++
      target.label ++ " by an operator") [("from", r.booking.status.label), ("to", target.label)])))
  if target = .completed then JobExecutionService.completeByAdmin b
  else do
    let now ← read (·.now)
    transition ⟨b, target,
      if target = .arrived then .arrivedAt now
      else if target = .inProgress then .startedAt now false
      else .nothing, false, .override⟩

end AdminBookingsService

/-- `AccountSuspensionService.cancelSearchingBookings`, for one booking. -/
def cancelSearching (userId b : ℕ) : Request Unit := do
  let found ← read fun w ↦ (w.row b).filter fun r ↦
    r.booking.userId = userId && r.booking.status = .searching
  match found with
  | none => pure ()
  | some r =>
    besteffort do
      transition ⟨b, .cancelled, .nothing, false, .suspension⟩
      enqueue (.revoke b) (.revoke b .cancelled r.booking.driverId) 0

end Towing.Trips
