import Towing.Money.Coupons
import Towing.Money.Gateway

namespace Towing.Money

open Towing.Db Towing.Process

/-- Who drives a settlement. -/
inductive Channel
  | route
  | wallet
  | cash
  | webhook
  | sweep
  | recheck
  | devSettle
  deriving DecidableEq, Repr

/-- The settlement a step belongs to. -/
structure Settling where
  bookingId : ℕ
  handle : PaymentHandle
  channel : Channel
  deriving DecidableEq, Repr

/-- The statements and vendor calls that write nothing here. -/
inductive Select
  | clock
  | booking (id : ℕ)
  | balanceOf (o : WalletOwner)
  | openIntent (bookingId : ℕ) (purpose : PaymentPurpose)
  | capturedFor (bookingId : ℕ) (purpose : PaymentPurpose)
  | latestForBooking (bookingId : ℕ) (purpose : PaymentPurpose)
  | reusableIntent (bookingId : ℕ) (purpose : PaymentPurpose) (totalPaise balancePaise : ℤ)
  | intentByKey (key : PaymentKey) (totalPaise balancePaise : ℤ)
  | byId (id : ℕ)
  | byGatewayRef (ref : Ref)
  | byOrderRef (ref : Ref)
  | capturedRow (ref : Ref) (on : Settling)
  | staleUncaptured
  | fetchPayment (gatewayRef orderRef : Option Ref)
  | verifyCheckout (body : PaymentCaptureRequest)
  | verifyWebhook (e : PaymentWebhookEvent)
  | settlementInputs (on : Settling)
  | refundByKey (key : RefundKey)
  | refundById (id : ℕ)
  | refundedSplit (paymentId : ℕ)
  | settlementCredits (bookingId : ℕ)
  | reversedByOwner (bookingId : ℕ)
  deriving DecidableEq, Repr

/-- Everything that is committed at once. A label names what is written; what it
carries beside that (the settlement, the pools a refund was checked against, the
total and the balance an intent is for) only says why. -/
inductive Step
  | select (q : Select)
  | createPayment (p : NewPayment)
  | setOrderRef (id : ℕ) (ref : Ref)
  | markCaptured (id : ℕ) (ref : Option Ref) (method : Option PaymentMethod) (on : Option Settling)
  | markFailed (id : ℕ) (reason : String)
  | post (legs : List (LedgerLeg LedgerKey))
  | transition (bookingId : ℕ) (target : BookingStatus) (patch : BookingPatch)
      (on : Option (Settling × Option ℕ))
  | alarm (key : AlarmKey)
  | insertWebhookEvent (eventId : String)
  | webhookProcessed (eventId : String)
  | webhookError (eventId : String) (reason : String)
  | applyCoupon (bookingId userId : ℕ) (code : String)
  | removeCoupon (bookingId userId : ℕ)
  | releaseCoupon (bookingId : ℕ)
  | acquireLock (bookingId : ℕ)
  | releaseLock (bookingId : ℕ)
  | randomUuid
  | createOrder (o : GatewayOrder)
  | gatewayRefund (r : GatewayRefund)
  | insertRefund (r : NewRefund) (seen : ℤ × ℤ)
  | refundAnswered (id : ℕ) (status : RefundStatus) (ref : Ref)
  | refundFailed (id : ℕ) (reason : String)
  | refundProcessed (id : ℕ)
  | refundConfirmed (ref : Ref)
  | applyRefund (paymentId : ℕ)
  | tick (ms : ℕ)
  | gatewayUp (up : Bool)
  | gatewayAttempt (p : GatewayPayment)
  | gatewayFinish (n : ℕ) (status : GatewayStatus)
  | redisUp (up : Bool)
  | placeBooking (id : ℕ) (b : Booking)
  | updateDriverPay (fleetId : ℕ) (pay : Fleet)
  | setShare (fleetId driverId : ℕ) (driverSharePct : Option Pct)

/-- What passes, or is done at the vendor, between a customer's requests. -/
def Step.outside : Step → Bool
  | .tick _ => true
  | .gatewayUp _ => true
  | .gatewayAttempt _ => true
  | .gatewayFinish _ _ => true
  | .redisUp _ => true
  | .releaseLock _ => true
  | _ => false

namespace World

variable (w : World)

def insertRefund (r : NewRefund) : Except Failure (Option ℕ) :=
  if r.amount ≤ 0 then .error (.checkViolation "ck_refunds_amount_positive")
  else if r.gatewayAmount < 0 ∨ r.walletAmount < 0 ∨ r.gatewayAmount + r.walletAmount ≠ r.amount then
    .error (.checkViolation "ck_refunds_split")
  else if r.providerShare.any fun s ↦ s < 0 || r.amount < s then
    .error (.checkViolation "ck_refunds_provider_share")
  else if w.refunds.any fun r' ↦ r'.idempotencyKey = r.idempotencyKey then .ok none
  else .ok (some w.refunds.length)

def newRefund (r : NewRefund) : RefundRow where
  id := w.refunds.length
  bookingId := r.bookingId
  paymentId := r.paymentId
  amount := r.amount
  gatewayAmount := r.gatewayAmount
  walletAmount := r.walletAmount
  reason := r.reason
  status := .pending
  idempotencyKey := r.idempotencyKey
  initiatedBy := r.initiatedBy
  kind := r.kind
  liability := r.liability
  disputeId := r.disputeId
  cause := r.cause
  delivery := r.delivery
  providerShare := r.providerShare
  bearerOverrideReason := r.bearerOverrideReason
  gatewayRef := none
  failureReason := none
  processedAt := none
  updatedAt := w.now

def createRefund (r : NewRefund) : World :=
  match w.insertRefund r with
  | .ok (some _) => { w with refunds := w.refunds ++ [w.newRefund r] }
  | _ => w

def setWebhookEvent (eventId : String) (f : WebhookEventRow → WebhookEventRow) : World :=
  { w with webhookEvents := w.webhookEvents.map fun e ↦ if e.eventId = eventId then f e else e }

def run : Step → World
  | .select _ => w
  | .createPayment p => w.createPayment p
  | .setOrderRef id ref => w.setOrderRef id ref
  | .markCaptured id ref method _ => w.markCaptured id ref method
  | .markFailed id reason => w.markFailed id reason
  | .post legs => w.post legs
  | .transition b target patch _ => w.transition b target patch
  | .alarm key => if key ∈ w.alarms then w else { w with alarms := w.alarms ++ [key] }
  | .insertWebhookEvent eventId =>
    if w.webhookEvents.any (·.eventId = eventId) then w
    else { w with webhookEvents := w.webhookEvents ++ [⟨eventId, none, none⟩] }
  | .webhookProcessed eventId =>
    w.setWebhookEvent eventId fun e ↦ { e with processedAt := some w.now }
  | .webhookError eventId reason => w.setWebhookEvent eventId fun e ↦ { e with error := some reason }
  | .applyCoupon b u code => (w.applyCoupon b u code).toOption.getD w
  | .removeCoupon b u => (w.removeCoupon b u).toOption.getD w
  | .releaseCoupon b => w.releaseForBooking b
  | .acquireLock b =>
    if w.redisUp && decide (b ∉ w.captureLocks) then { w with captureLocks := b :: w.captureLocks } else w
  | .releaseLock b => { w with captureLocks := w.captureLocks.filter (· ≠ b) }
  | .randomUuid => { w with uuids := w.uuids + 1 }
  | .createOrder o => { w with gateway := w.gateway.createOrder o }
  | .gatewayRefund r => { w with gateway := w.gateway.refund r }
  | .insertRefund r _ => w.createRefund r
  | .refundAnswered id status ref => w.updateRefund id fun r ↦
      { r with
        status := status
        gatewayRef := some ref
        processedAt := if status = .processed then some w.now else none
        updatedAt := w.now }
  | .refundFailed id reason => w.updateRefund id fun r ↦
      { r with status := .failed, failureReason := some reason, updatedAt := w.now }
  | .refundProcessed id => w.updateRefund id fun r ↦
      { r with status := .processed, processedAt := some w.now, updatedAt := w.now }
  | .refundConfirmed ref =>
    { w with refunds := w.refunds.map fun r ↦
        if r.gatewayRef = some ref ∧ r.status = .pending then
          { r with status := .processed, processedAt := some w.now, updatedAt := w.now }
        else r }
  | .applyRefund paymentId => w.applyRefund paymentId
  | .tick ms => { w with now := w.now + ms }
  | .gatewayUp up => { w with gateway := { w.gateway with up := up } }
  | .gatewayAttempt p => { w with gateway := w.gateway.attempt p }
  | .gatewayFinish n status => { w with gateway := w.gateway.finish n status }
  | .redisUp up => { w with redisUp := up }
  | .placeBooking id b =>
    if (w.bookings id).isSome then w else { w with bookings := Function.update w.bookings id (some b) }
  | .updateDriverPay fleetId pay =>
    { w with fleets := Function.update w.fleets fleetId ((w.fleets fleetId).map fun _ ↦ pay) }
  | .setShare fleetId driverId share =>
    let shares := Function.update (w.fleetDriverShares fleetId) driverId share
    { w with fleetDriverShares := Function.update w.fleetDriverShares fleetId shares }

end World

instance : Store Step World where
  commit l w := w.run l

abbrev Request (α : Type) := Proc Step World Failure α

def select {α : Type} (q : Select) (f : World → α) : Request α := Proc.query (.select q) f

def call {α : Type} (q : Select) (f : World → Except Failure α) : Request α :=
  Proc.attempt (.select q) f

end Towing.Money
