import Towing.Money.Cancellation
import Towing.Money.Steps

namespace Towing.Money

open Towing.Db Towing.Process

/-- What the deployment fixes, and the order in which the database returns the
rows of a `group by`. -/
structure Env where
  sha256 : String → String
  charges : CancellationConfig
  paymentStuckMs : ℕ
  grouped : World → List (WalletOwner × ℤ) → List (WalletOwner × ℤ)
  grouped_perm : ∀ w l, (grouped w l).Perm l

def sampleEnv : Env where
  sha256 s := s
  charges := defaultCancellationConfig
  paymentStuckMs := 30 * 60000
  grouped _ l := l
  grouped_perm _ l := .refl l

structure PaymentIntentDto where
  paymentId : ℕ
  orderRef : Ref
  amountPaise : ℤ
  walletAppliedPaise : ℤ
  walletOnly : Bool
  deriving DecidableEq, Repr

structure PaymentResultDto where
  paymentId : Option ℕ
  bookingId : ℕ
  status : PaymentStatus
  bookingStatus : BookingStatus
  amountPaise : ℤ
  failureReason : Option String
  deriving DecidableEq, Repr

structure CashPaymentResponse where
  paymentId : ℕ
  bookingId : ℕ
  amountPaise : ℤ
  deriving DecidableEq, Repr

namespace PaymentsRepo

def openIntent (b : ℕ) (purpose : PaymentPurpose) : Request (Option PaymentRow) :=
  select (.openIntent b purpose) fun w ↦ w.openIntent b purpose

def capturedFor (b : ℕ) (purpose : PaymentPurpose) : Request (Option PaymentRow) :=
  select (.capturedFor b purpose) fun w ↦ w.capturedFor b purpose

def latestForBooking (b : ℕ) (purpose : PaymentPurpose) : Request (Option PaymentRow) :=
  select (.latestForBooking b purpose) fun w ↦ w.latestForBooking b purpose

def byId (id : ℕ) : Request (Option PaymentRow) := select (.byId id) fun w ↦ w.payment id

def byGatewayRef (ref : Ref) : Request (Option PaymentRow) :=
  select (.byGatewayRef ref) fun w ↦ w.byGatewayRef ref

def byOrderRef (ref : Ref) : Request (Option PaymentRow) :=
  select (.byOrderRef ref) fun w ↦ w.byOrderRef ref

def create (p : NewPayment) : Request PaymentRow :=
  Proc.attempt (.createPayment p) fun w ↦ w.insertPayment p

def setOrderRef (id : ℕ) (ref : Ref) : Request Unit :=
  Proc.attempt (.setOrderRef id ref) fun w ↦
    match w.setOrderRefError id ref with
    | some e => .error e
    | none => .ok ()

def markCaptured (id : ℕ) (ref : Option Ref) (method : Option PaymentMethod)
    (on : Option Settling) : Request Unit :=
  Proc.attempt (.markCaptured id ref method on) fun w ↦
    match w.markCapturedError id ref with
    | some e => .error e
    | none => .ok ()

def markFailed (id : ℕ) (reason : String) : Request Unit := Proc.write (.markFailed id reason)

end PaymentsRepo

def isUniqueViolation : Failure → Bool
  | .uniqueViolation _ => true
  | _ => false

/-- `p ?? q`. -/
def orElse {α : Type} (p q : Request (Option α)) : Request (Option α) := do
  match ← p with
  | some a => pure (some a)
  | none => q

def fetchPayment (gatewayRef orderRef : Option Ref) : Request PaymentHandle :=
  call (.fetchPayment gatewayRef orderRef) fun w ↦ w.gateway.fetchPayment gatewayRef orderRef

def verifyCheckout (body : PaymentCaptureRequest) : Request Bool :=
  select (.verifyCheckout body) fun w ↦ w.gateway.verifyCheckout body

def ledgerPost (legs : List (LedgerLeg LedgerKey)) : Request PostResult :=
  Proc.attempt (.post legs) fun w ↦
    match (w.postResult legs).1 with
    | .ok r => .ok r
    | .error e => .error (.ledger e)

def transition (b : ℕ) (target : BookingStatus) (patch : BookingPatch)
    (on : Option (Settling × Option ℕ)) : Request Unit :=
  Proc.attempt (.transition b target patch on) fun w ↦
    match w.transitionError b target patch with
    | some e => .error e
    | none => .ok ()

namespace PaymentsService

open PaymentsRepo

def conflict (message : String) (details : List (String × String)) : Failure :=
  .api (.conflict message details)

def payable (purpose : PaymentPurpose) (allowPaid : Bool) (status : BookingStatus) : Bool :=
  match purpose with
  | .booking => status = .completed || (allowPaid && status = .paid)
  | .cancellationFee =>
    status = .assigned || status = .enRoute || status = .arrived || status = .inProgress

def loadPayableBooking (b userId : ℕ) (purpose : PaymentPurpose) (allowPaid : Bool) :
    Request Booking :=
  call (.booking b) fun w ↦
    match w.bookings b with
    | none => .error (.api (.notFound "Booking not found"))
    | some row =>
      if row.userId ≠ userId then .error (.api (.notFound "Booking not found"))
      else if !payable purpose allowPaid row.status then
        .error (conflict ("This booking cannot be paid for while it is " ++ row.status.label)
          [("status", row.status.label)])
      else .ok row

def resultFor (b : ℕ) : Request PaymentResultDto :=
  call (.booking b) fun w ↦
    match w.bookings b with
    | none => .error (.api (.notFound "Booking not found"))
    | some row =>
      let captured := w.capturedFor b .booking
      .ok ⟨captured.map (·.id), b, (captured.map (·.status)).getD .pending, row.status, row.total,
        captured.bind (·.failureReason)⟩

/-- What the intent charges: the fare, or §3.5's fee as the policy has it now. -/
def totalPaise (env : Env) (purpose : PaymentPurpose) (booking : Booking) : Request ℤ :=
  match purpose with
  | .booking => pure booking.total
  | .cancellationFee => do
    let now ← select .clock (·.now)
    pure (cancellationPolicy booking.status booking.createdAt booking.baseFare now env.charges
      booking.driverId.isSome).feePaise

/-- The intent already open, unless the customer is switching away from cash. -/
def reusableIntent (b : ℕ) (purpose : PaymentPurpose) (totalPaise balancePaise : ℤ) :
    Request (Option PaymentRow) := do
  match ← select (.reusableIntent b purpose totalPaise balancePaise) fun w ↦
      w.openIntent b purpose with
  | none => pure none
  | some row =>
    if row.provider = .cash then
      markFailed row.id "Customer switched to online payment"
      pure none
    else pure (some row)

def intentDto (row : PaymentRow) (ref : Ref) : PaymentIntentDto :=
  ⟨row.id, ref, row.amount, row.walletApplied, row.provider = .wallet⟩

/-- Opens the order of an intent row that has none yet. -/
def openOrder (b : ℕ) (purpose : PaymentPurpose) (walletPaise gatewayPaise : ℤ) (row : PaymentRow) :
    Request PaymentIntentDto := do
  if gatewayPaise = 0 then
    setOrderRef row.id (.wallet row.id)
    pure ⟨row.id, .wallet row.id, 0, walletPaise, true⟩
  else
    let orderRef ← Proc.attempt (.createOrder ⟨row.id, b, purpose, gatewayPaise⟩) fun w ↦
      if w.gateway.up then .ok (Ref.order w.gateway.orders.length) else .error Gateway.unavailable
    setOrderRef row.id orderRef
    pure ⟨row.id, orderRef, gatewayPaise, walletPaise, false⟩

/-- The row of a new intent, or the one its key already made. -/
def createIntentRow (p : NewPayment) (totalPaise balancePaise : ℤ) : Request PaymentRow :=
  tryCatch (create p) fun e ↦
    if isUniqueViolation e then do
      match ← select (.intentByKey p.idempotencyKey totalPaise balancePaise) fun w ↦
          w.byIdempotencyKey p.idempotencyKey with
      | none => throw e
      | some existing => pure existing
    else throw e

/-- What the customer's balance can pay of it. -/
def spendable (purpose : PaymentPurpose) (userId : ℕ) : Request ℤ :=
  match purpose with
  | .booking => select (.balanceOf ⟨.user, userId⟩) fun w ↦ w.ledger.balanceOf ⟨.user, userId⟩
  | .cancellationFee => pure 0

def intentRow (b : ℕ) (purpose : PaymentPurpose) (totalPaise balancePaise : ℤ)
    (intent : NewPayment) : Request PaymentRow := do
  match ← reusableIntent b purpose totalPaise balancePaise with
  | some row => pure row
  | none => createIntentRow intent totalPaise balancePaise

def createIntent (env : Env) (b userId : ℕ) (purpose : PaymentPurpose) (clientKey : String) :
    Request PaymentIntentDto := do
  let booking ← loadPayableBooking b userId purpose false
  let total ← totalPaise env purpose booking
  Proc.when (total ≤ 0)
    (throw (.api ⟨422, "validation_failed", "There is nothing to pay for this booking", []⟩))
  let balance ← spendable purpose userId
  let walletPaise := max 0 (min balance total)
  let gatewayPaise := total - walletPaise
  let intent : NewPayment :=
    { bookingId := b
      amount := gatewayPaise
      walletApplied := walletPaise
      taxAmount := if purpose = .booking then booking.taxAmount else 0
      purpose := purpose
      method := if 0 < walletPaise ∧ gatewayPaise = 0 then .wallet else .upi
      idempotencyKey := ⟨b, purpose, env.sha256 clientKey⟩
      provider := if 0 < walletPaise ∧ gatewayPaise = 0 then .wallet else .gateway }
  let row ← intentRow b purpose total balance intent
  match row.gatewayOrderRef with
  | some ref => pure (intentDto row ref)
  | none => openOrder b purpose walletPaise gatewayPaise row

/-! Settlement. -/

/-- Runs `fn` under the booking's lock, unlocked when Redis is down, and not at
all while somebody else holds it. -/
def withLock (b : ℕ) (fn : Request Unit) : Request Unit := do
  let held ← Proc.query (.acquireLock b) fun w ↦
    if w.redisUp then some (decide (b ∉ w.captureLocks)) else none
  match held with
  | none => fn
  | some false => pure ()
  | some true => do
    tryCatch fn fun e ↦ do
      Proc.write (.releaseLock b)
      throw e
    Proc.write (.releaseLock b)

def byHandleRef (on : Settling) : Request (Option PaymentRow) :=
  match on.handle.gatewayRef with
  | some ref => select (.capturedRow ref on) fun w ↦ w.byGatewayRef ref
  | none => pure none

def byHandleOrder (on : Settling) : Request (Option PaymentRow) :=
  match on.handle.orderRef with
  | some ref => byOrderRef ref
  | none => pure none

/-- The row `ensureCapturedRow` settles on, if there is one. -/
def existingRow (on : Settling) : Request (Option PaymentRow) :=
  orElse (orElse (orElse (byHandleRef on) (byHandleOrder on)) (openIntent on.bookingId .booking))
    (capturedFor on.bookingId .booking)

def createCapturedRow (env : Env) (on : Settling) (booking : Booking) : Request (Option ℕ) :=
  let b := on.bookingId
  tryCatch (do
      let created ← create
        { bookingId := b
          amount := booking.total
          walletApplied := 0
          taxAmount := booking.taxAmount
          purpose := .booking
          method := on.handle.method.getD .upi
          idempotencyKey := ⟨b, .booking,
            env.sha256 ((on.handle.gatewayRef.map Ref.text).getD (toString b))⟩
          provider := .gateway }
      markCaptured created.id on.handle.gatewayRef on.handle.method (some on)
      pure (some created.id)) fun e ↦
    if isUniqueViolation e then do
      let raced ← byHandleRef on
      pure (raced.map (·.id))
    else throw e

def ensureCapturedRow (env : Env) (on : Settling) : Request (Option ℕ) := do
  match ← existingRow on with
  | some existing =>
    Proc.when (existing.status ≠ .captured)
      (markCaptured existing.id on.handle.gatewayRef on.handle.method (some on))
    pure (some existing.id)
  | none =>
    match ← select (.booking on.bookingId) fun w ↦ w.bookings on.bookingId with
    | none => pure none
    | some booking => createCapturedRow env on booking

structure SettlementInputs where
  status : BookingStatus
  userId : ℕ
  driverId : Option ℕ
  fleetId : Option ℕ
  driverSharePct : Option Pct
  band : Option Band
  commissionPct : Option Pct
  totalPaise : ℤ
  taxPaise : ℤ
  deriving DecidableEq, Repr

/-- 0042's resolution: the split locked at acceptance, then the owner's override
for this driver, then the fleet's own setting. -/
def resolvedShare (w : World) (b : Booking) : Option Pct :=
  match b.driverPayModel with
  | some .independent => none
  | some .salary => some 0
  | some .share => b.driverSharePct
  | none =>
    match b.fleetId with
    | none => none
    | some fleetId =>
      match w.fleets fleetId with
      | some ⟨.salary, _⟩ => some 0
      | fleet => (b.driverId.bind (w.fleetDriverShares fleetId)) <|> fleet.map (·.driverSharePct)

def settlementInputsOf (w : World) (b : Booking) : SettlementInputs :=
  ⟨b.status, b.userId, b.driverId, b.fleetId, resolvedShare w b, b.commissionBand, b.commissionPct,
    b.total, b.taxAmount⟩

def settlementInputs (on : Settling) : Request SettlementInputs :=
  call (.settlementInputs on) fun w ↦
    match w.bookings on.bookingId with
    | none => .error (.api (.notFound "Booking not found"))
    | some b => .ok (settlementInputsOf w b)

/-- The money after the legs the payment's provider adds: what was paid from the
wallet, and the cash the driver holds. -/
def spendLegs (b userId : ℕ) (walletAppliedPaise : ℤ) : List (LedgerLeg LedgerKey) :=
  [{ owner := ⟨.user, userId⟩
     type := .walletSpendDebit
     amountPaise := .int (-walletAppliedPaise)
     reason := "Paid towards booking TW-" ++ toString b
     refId := some (.booking b)
     idempotencyKey := .walletSpend b }]

def cashLegs (b driverId : ℕ) (totalPaise : ℤ) : List (LedgerLeg LedgerKey) :=
  [{ owner := ⟨.driver, driverId⟩
     type := .cashCollectedDebit
     amountPaise := .int (-totalPaise)
     reason := "Cash collected for booking TW-" ++ toString b
     refId := some (.booking b)
     idempotencyKey := .cashCollected b }]

def paymentLegsFor (id : Option ℕ) : Request (ℤ × Option Provider) :=
  match id with
  | none => pure (0, none)
  | some id => select (.byId id) fun w ↦
      (((w.payment id).map (·.walletApplied)).getD 0, (w.payment id).map (·.provider))

def creditBookingSettlement (input : SettlementCredit) : Request Unit :=
  match settlementLegs input with
  | .error message => throw (.error message)
  | .ok legs => (ledgerPost legs).ignore

def settlementOf (input : SettlementInput) : Request Settlement :=
  match computeSettlement input with
  | .error message => throw (.error message)
  | .ok settlement => pure settlement

/-- From the captured row on: the legs, then the status. -/
def settleOn (on : Settling) (inputs : SettlementInputs) (paymentId : Option ℕ) : Request Unit := do
  let b := on.bookingId
  match inputs.driverId, inputs.band with
  | some driverId, some band =>
    let (walletAppliedPaise, provider) ← paymentLegsFor paymentId
    Proc.when (0 < walletAppliedPaise)
      (ledgerPost (spendLegs b inputs.userId walletAppliedPaise)).ignore
    Proc.when (provider = some .cash) (ledgerPost (cashLegs b driverId inputs.totalPaise)).ignore
    let taxablePaise := inputs.totalPaise - inputs.taxPaise
    let fleet := inputs.fleetId.map fun id ↦ (⟨id, inputs.driverSharePct.getD 0⟩ : FleetShare)
    let settlement ← settlementOf
      ⟨taxablePaise, band, inputs.commissionPct, fleet.map (·.driverSharePct)⟩
    creditBookingSettlement ⟨b, taxablePaise, band, inputs.commissionPct, driverId, fleet⟩
    let now ← select .clock (·.now)
    transition b .paid
      { commissionAmount := some settlement.commissionPaise
        driverPayout := some settlement.poolPaise
        paidAt := some now
        paymentMethod := on.handle.method } (some (on, paymentId))
  | _, _ => throw (conflict
      "This booking has no driver or no locked commission band to settle against" [])

/-- Captured after cancellation: the money is recorded, ops is told once per
payment, and nothing is settled. -/
def recordSettlementConflict (env : Env) (on : Settling) : Request Unit := do
  let paymentId ← ensureCapturedRow env on
  Proc.write (.alarm (match paymentId, on.handle.gatewayRef with
    | some id, _ => .payment id
    | none, some ref => .ref ref
    | none, none => .booking on.bookingId))

def settleInner (env : Env) (on : Settling) : Request Unit := do
  let inputs ← settlementInputs on
  if inputs.status = .paid then pure ()
  else if inputs.status = .cancelled then recordSettlementConflict env on
  else if inputs.status ≠ .completed then
    throw (conflict ("A booking cannot be settled from " ++ inputs.status.label)
      [("from", inputs.status.label)])
  else do
    let paymentId ← ensureCapturedRow env on
    settleOn on inputs paymentId

def settleCapturedPayment (env : Env) (on : Settling) : Request Unit :=
  withLock on.bookingId (settleInner env on)

/-! The three ways a customer pays. -/

def payWithWallet (env : Env) (b userId : ℕ) : Request PaymentResultDto := do
  let booking ← loadPayableBooking b userId .booking true
  if booking.status = .paid then resultFor b
  else do
    let nothing : Failure :=
      conflict "There is no wallet payment to confirm — open the payment again" []
    match ← openIntent b .booking with
    | none => throw nothing
    | some row =>
      match row.provider, row.gatewayOrderRef with
      | .wallet, some ref => do
        let balance ← select (.balanceOf ⟨.user, userId⟩) fun w ↦ w.ledger.balanceOf ⟨.user, userId⟩
        Proc.when (balance < row.walletApplied) (do
          markFailed row.id "Wallet balance changed"
          throw (conflict "Your wallet balance changed — open the payment again" []))
        settleCapturedPayment env
          ⟨b, ⟨some ref, some ref, .captured, some .wallet, some 0, none⟩, .wallet⟩
        resultFor b
      | _, _ => throw nothing

def chooseCash (env : Env) (b userId : ℕ) : Request CashPaymentResponse := do
  let booking ← loadPayableBooking b userId .booking false
  let open? ← openIntent b .booking
  match open? with
  | some row =>
    if row.provider = .cash then pure ⟨row.id, b, row.amount⟩
    else do
      markFailed row.id "Customer chose to pay cash"
      createCash env b booking
  | none => createCash env b booking
where
  createCash (env : Env) (b : ℕ) (booking : Booking) : Request CashPaymentResponse := do
    let uuid ← Proc.query .randomUuid (·.uuids)
    let row ← create
      { bookingId := b
        amount := booking.total
        walletApplied := 0
        taxAmount := booking.taxAmount
        purpose := .booking
        method := .cash
        idempotencyKey := ⟨b, .booking, env.sha256 ("cash:" ++ toString uuid)⟩
        provider := .cash }
    pure ⟨row.id, b, booking.total⟩

def confirmCashCollected (env : Env) (b driverId : ℕ) : Request BookingStatus := do
  let row ← call (.booking b) fun w ↦
    match w.bookings b with
    | some row =>
      if row.driverId = some driverId then .ok row else .error (.api (.notFound "Job not found"))
    | none => .error (.api (.notFound "Job not found"))
  if row.status = .paid then pure .paid
  else if row.status ≠ .completed then
    throw (conflict "Cash can only be collected once the trip is completed"
      [("status", row.status.label)])
  else do
    let nothing : Failure := conflict "The customer has not chosen to pay cash" []
    match ← openIntent b .booking with
    | none => throw nothing
    | some intent =>
      Proc.when (intent.provider ≠ .cash) (throw nothing)
      settleCapturedPayment env
        ⟨b, ⟨some (.cash intent.id), none, .captured, some .cash, some row.total, none⟩, .cash⟩
      let after ← select (.booking b) fun w ↦ w.bookings b
      pure ((after.map (·.status)).getD .paid)

/-- The payment a checkout's triple stands for, once it is verified and collected. -/
def collectedHandle (body : PaymentCaptureRequest) : Request PaymentHandle := do
  let valid ← verifyCheckout body
  Proc.when (!valid)
    (throw (.api ⟨401, "invalid_payment_signature", "This payment could not be verified", []⟩))
  let handle ← fetchPayment (some body.gatewayRef) (some body.orderRef)
  Proc.when (handle.status ≠ .captured)
    (throw (.api ⟨422, "payment_not_captured",
      "We are still confirming this payment with your bank",
      [("gatewayStatus", handle.status.label)]⟩))
  pure handle

/-- A null amount means the gateway did not say. -/
def assertAmountMatches (handle : PaymentHandle) (expectedPaise : ℤ) : Except Failure Unit :=
  match handle.amountPaise with
  | none => .ok ()
  | some amount =>
    if amount = expectedPaise then .ok ()
    else .error (.api ⟨409, "payment_amount_mismatch",
      "The amount paid does not match this booking", []⟩)

def capture (env : Env) (b userId : ℕ) (body : PaymentCaptureRequest) : Request PaymentResultDto := do
  let booking ← loadPayableBooking b userId .booking true
  if booking.status = .paid then resultFor b
  else do
    let handle ← collectedHandle body
    let row ← byOrderRef body.orderRef
    Proc.done (assertAmountMatches handle (booking.total - (row.map (·.walletApplied)).getD 0))
    settleCapturedPayment env ⟨b, handle, .route⟩
    resultFor b

end PaymentsService

end Towing.Money
