import Towing.Money.PaymentsService

namespace Towing.Money

open Towing.Db Towing.Process PaymentsRepo PaymentsService

/-! Everything else that records or settles a payment. -/

namespace CancellationFeeService

def createRow (env : Env) (b : ℕ) (amountPaise : ℤ) (gatewayRef : Ref) : Request PaymentRow :=
  tryCatch (create
      { bookingId := b
        amount := amountPaise
        walletApplied := 0
        taxAmount := 0
        purpose := .cancellationFee
        method := .upi
        idempotencyKey := ⟨b, .cancellationFee, env.sha256 gatewayRef.text⟩
        provider := .gateway }) fun e ↦
    if isUniqueViolation e then do
      match ← byGatewayRef gatewayRef with
      | none => throw e
      | some raced => pure raced
    else throw e

def feeRow (env : Env) (b : ℕ) (amountPaise : ℤ) (gatewayRef : Ref) : Request PaymentRow := do
  match ← openIntent b .cancellationFee with
  | some row => pure row
  | none => createRow env b amountPaise gatewayRef

def capture (env : Env) (b : ℕ) (body : PaymentCaptureRequest) (expectedPaise : ℤ) :
    Request Unit := do
  match ← capturedFor b .cancellationFee with
  | some _ => pure ()
  | none =>
    let handle ← collectedHandle body
    Proc.when (handle.amountPaise.any (· ≠ expectedPaise))
      (throw (.api ⟨409, "payment_amount_mismatch",
        "The amount paid does not match this cancellation fee", []⟩))
    let row ← feeRow env b expectedPaise body.gatewayRef
    markCaptured row.id (handle.gatewayRef <|> some body.gatewayRef) handle.method none

end CancellationFeeService

namespace PaymentCouponService

def closeOpenIntents (b : ℕ) : Request Unit := do
  match ← openIntent b .booking with
  | none => pure ()
  | some row => if row.provider ≠ .cash then markFailed row.id "Coupon changed" else pure ()

def apply (b userId : ℕ) (code : String) : Request Unit := do
  Proc.attempt (.applyCoupon b userId code) fun w ↦ (w.applyCoupon b userId code).map fun _ ↦ ()
  closeOpenIntents b

def remove (b userId : ℕ) : Request Unit := do
  Proc.attempt (.removeCoupon b userId) fun w ↦ (w.removeCoupon b userId).map fun _ ↦ ()
  closeOpenIntents b

end PaymentCouponService

namespace PaymentReconcileService

def graceMs : ℕ := 2 * 60000

/-- One payment of the sweep's list. -/
def reconcileOne (env : Env) (payment : PaymentRow) : Request Unit := do
  let handle ← fetchPayment payment.gatewayRef payment.gatewayOrderRef
  match handle.status with
  | .captured => settleCapturedPayment env ⟨payment.bookingId, handle, .sweep⟩
  | .failed =>
    markFailed payment.id
      (handle.failureReason.getD "The gateway reported this payment as failed")
  | _ => do
    let now ← select .clock (·.now)
    Proc.when (payment.updatedAt + env.paymentStuckMs ≤ now)
      (markFailed payment.id "The gateway never confirmed this payment")

/-- Payment by payment, so that one vendor error does not end the pass. -/
def reconcileAll (env : Env) : List PaymentRow → Request Unit
  | [] => pure ()
  | payment :: rest => do
    tryCatch (reconcileOne env payment) fun _ ↦ pure ()
    reconcileAll env rest

def reconcile (env : Env) : Request Unit := do
  let stale ← select .staleUncaptured fun w ↦ w.staleUncaptured graceMs
  reconcileAll env stale

def recheckBooking (env : Env) (b : ℕ) : Request (Option (ℕ × PaymentStatus × Bool)) := do
  match ← latestForBooking b .booking with
  | none => pure none
  | some payment =>
    if payment.status = .captured ∨ payment.status = .refunded then
      pure (some (payment.id, payment.status, decide (payment.status = .captured)))
    else do
      let handle ← fetchPayment payment.gatewayRef payment.gatewayOrderRef
      match handle.status with
      | .captured => do
        settleCapturedPayment env ⟨b, handle, .recheck⟩
        pure (some (payment.id, .captured, true))
      | .failed => do
        markFailed payment.id (handle.failureReason.getD "The gateway reported this payment as failed")
        pure (some (payment.id, .failed, false))
      | _ => pure (some (payment.id, payment.status, false))

/-- The dev gateway's delayed settle. -/
def devSettle (env : Env) (paymentId : ℕ) (gatewayRef : Ref) : Request Unit := do
  match ← byId paymentId with
  | none => pure ()
  | some row =>
    if row.status = .captured then pure ()
    else do
      let handle ← fetchPayment (some gatewayRef) row.gatewayOrderRef
      Proc.when (handle.status = .captured)
        (settleCapturedPayment env ⟨row.bookingId, handle, .devSettle⟩)

end PaymentReconcileService

namespace WebhooksController

def findForWebhook (gatewayRef orderRef : Option Ref) : Request (Option PaymentRow) :=
  orElse (match gatewayRef with
    | some ref => byGatewayRef ref
    | none => pure none)
    (match orderRef with
    | some ref => byOrderRef ref
    | none => pure none)

def resolvePaymentId (e : PaymentWebhookEvent) : Request (Option ℕ) :=
  match e.paymentId with
  | some id => pure (some id)
  | none => do
    let row ← findForWebhook e.gatewayRef e.orderRef
    pure (row.map (·.id))

def resolveBookingId (e : PaymentWebhookEvent) : Request (Option ℕ) :=
  match e.bookingId with
  | some id => pure (some id)
  | none => do
    match ← resolvePaymentId e with
    | none => pure none
    | some id => do
      let row ← byId id
      pure (row.map (·.bookingId))

def refText (ref : Option Ref) : String := (ref.map Ref.text).getD "null"

def applyPayment (env : Env) (e : PaymentWebhookEvent) : Request Unit :=
  match e.status with
  | .captured => do
    match ← resolveBookingId e with
    | none =>
      throw (.error ("no booking matches payment ref=" ++ refText e.gatewayRef ++
        " order=" ++ refText e.orderRef))
    | some b =>
      settleCapturedPayment env
        ⟨b, ⟨e.gatewayRef, e.orderRef, .captured, e.method, e.amountPaise, none⟩, .webhook⟩
  | .failed => do
    match ← resolvePaymentId e with
    | none => pure ()
    | some id =>
      markFailed id (e.failureReason.getD "The gateway reported this payment as failed")
  | .refunded =>
    match e.gatewayRef with
    | none => pure ()
    | some ref => Proc.write (.refundConfirmed ref)
  | .authorized => pure ()
  | .unknown => pure ()

/-- Verified, recorded once, applied, and acknowledged whatever comes of it. -/
def razorpay (env : Env) (e : PaymentWebhookEvent) : Request Unit := do
  let valid ← select (.verifyWebhook e) fun w ↦ w.gateway.verifyWebhook e
  Proc.when (!valid)
    (throw (.api ⟨401, "invalid_signature", "Webhook signature verification failed", []⟩))
  let inserted ← Proc.query (.insertWebhookEvent e.eventId) fun w ↦
    !(w.webhookEvents.any (·.eventId = e.eventId))
  Proc.when inserted
    (tryCatch (do
        applyPayment env e
        Proc.write (.webhookProcessed e.eventId)) fun err ↦
      Proc.write (.webhookError e.eventId err.text))

end WebhooksController

end Towing.Money
