import Towing.Money.World

namespace Towing.Money

open Towing.Db Towing.Arith

/-- §5.1's transition table. -/
def legalTransitions : BookingStatus → List BookingStatus
  | .searching => [.assigned, .noDriversFound, .cancelled]
  | .assigned => [.enRoute, .arrived, .searching, .cancelled]
  | .enRoute => [.arrived, .searching, .cancelled]
  | .arrived => [.inProgress, .searching, .cancelled]
  | .inProgress => [.completed, .disputed, .cancelled]
  | .completed => [.paid, .disputed]
  | .disputed => [.completed, .paid, .cancelled]
  | .paid => [.refunded, .disputed]
  | .cancelled => []
  | .noDriversFound => [.searching, .cancelled]
  | .refunded => []

def isLegal (a b : BookingStatus) : Bool := decide (b ∈ legalTransitions a)

/-- The columns a transition writes beside the status. -/
structure BookingPatch where
  commissionAmount : Option ℤ := none
  driverPayout : Option ℤ := none
  paidAt : Option ℕ := none
  paymentMethod : Option PaymentMethod := none
  deriving DecidableEq, Repr

structure NewPayment where
  bookingId : ℕ
  amount : ℤ
  walletApplied : ℤ
  taxAmount : ℤ
  purpose : PaymentPurpose
  method : PaymentMethod
  idempotencyKey : PaymentKey
  provider : Provider
  deriving DecidableEq, Repr

structure NewRefund where
  bookingId : ℕ
  paymentId : ℕ
  amount : ℤ
  gatewayAmount : ℤ
  walletAmount : ℤ
  reason : String
  idempotencyKey : RefundKey
  initiatedBy : String
  kind : RefundKind
  liability : Option RefundLiability
  disputeId : Option ℕ
  cause : Option RefundCause
  delivery : RefundDelivery
  providerShare : Option ℤ
  bearerOverrideReason : Option String
  deriving DecidableEq, Repr

def isSettlementCredit (t : WalletTxnType) : Bool :=
  t = .driverShareCredit || t = .fleetShareCredit || t = .fareCredit

namespace World

variable (w : World)

def payment (id : ℕ) : Option PaymentRow := w.payments.find? (·.id = id)

def refund (id : ℕ) : Option RefundRow := w.refunds.find? (·.id = id)

def updatePayment (id : ℕ) (f : PaymentRow → PaymentRow) : World :=
  { w with payments := w.payments.map fun row ↦ if row.id = id then f row else row }

def updateRefund (id : ℕ) (f : RefundRow → RefundRow) : World :=
  { w with refunds := w.refunds.map fun row ↦ if row.id = id then f row else row }

def updateBooking (id : ℕ) (f : Booking → Booking) : World :=
  { w with bookings := Function.update w.bookings id ((w.bookings id).map f) }

def isOpen (row : PaymentRow) : Bool := row.status = .pending || row.status = .authorized

/-- `order by created_at desc limit 1`: rows are stored oldest first. -/
def openIntent (bookingId : ℕ) (purpose : PaymentPurpose) : Option PaymentRow :=
  (w.payments.filter fun row ↦
    row.bookingId = bookingId && row.purpose = purpose && isOpen row).getLast?

def capturedFor (bookingId : ℕ) (purpose : PaymentPurpose) : Option PaymentRow :=
  w.payments.find? fun row ↦
    row.bookingId = bookingId && row.purpose = purpose && row.status = .captured

def latestForBooking (bookingId : ℕ) (purpose : PaymentPurpose) : Option PaymentRow :=
  (w.payments.filter fun row ↦ row.bookingId = bookingId && row.purpose = purpose).getLast?

def byIdempotencyKey (key : PaymentKey) : Option PaymentRow :=
  w.payments.find? (·.idempotencyKey = key)

def byGatewayRef (ref : Ref) : Option PaymentRow := w.payments.find? (·.gatewayRef = some ref)

def byOrderRef (ref : Ref) : Option PaymentRow := w.payments.find? (·.gatewayOrderRef = some ref)

/-- The sweep's list. -/
def staleUncaptured (graceMs : ℕ) : List PaymentRow :=
  let stale := w.payments.filter fun row ↦
    isOpen row && row.provider ≠ .cash && row.provider ≠ .wallet && row.updatedAt + graceMs < w.now &&
      match w.bookings row.bookingId with
      | some b => (row.purpose = .booking && b.status = .completed) ||
          (row.purpose = .cancellationFee && b.status ≠ .cancelled)
      | none => false
  (stale.insertionSort (·.updatedAt ≤ ·.updatedAt)).take 200

def insertPayment (p : NewPayment) : Except Failure PaymentRow :=
  if (w.payments.any fun row ↦ row.idempotencyKey = p.idempotencyKey) then
    .error (.uniqueViolation "uq_payments_idempotency_key")
  else if p.amount < 0 ∨ p.amount + p.walletApplied ≤ 0 then
    .error (.checkViolation "ck_payments_amount_positive")
  else if p.walletApplied < 0 then .error (.checkViolation "ck_payments_wallet_applied")
  else .ok
    { id := w.payments.length
      bookingId := p.bookingId
      amount := p.amount
      walletApplied := p.walletApplied
      taxAmount := p.taxAmount
      refundedAmount := 0
      status := .pending
      purpose := p.purpose
      method := p.method
      gatewayRef := none
      gatewayOrderRef := none
      provider := p.provider
      idempotencyKey := p.idempotencyKey
      failureReason := none
      capturedAt := none
      createdAt := w.now
      updatedAt := w.now }

def createPayment (p : NewPayment) : World :=
  match w.insertPayment p with
  | .ok row => { w with payments := w.payments ++ [row] }
  | .error _ => w

def setOrderRefError (id : ℕ) (ref : Ref) : Option Failure :=
  if w.payments.any fun row ↦ row.gatewayOrderRef = some ref && row.id ≠ id then
    some (.uniqueViolation "uq_payments_order_ref")
  else none

def setOrderRef (id : ℕ) (ref : Ref) : World :=
  if (w.setOrderRefError id ref).isSome then w
  else w.updatePayment id fun row ↦ { row with gatewayOrderRef := some ref, updatedAt := w.now }

/-- The row as `markCaptured` would leave it. -/
def capturedRow (row : PaymentRow) (ref : Option Ref) (method : Option PaymentMethod) : PaymentRow :=
  { row with
    status := .captured
    gatewayRef := ref <|> row.gatewayRef
    method := method.getD row.method
    capturedAt := some w.now
    failureReason := none
    updatedAt := w.now }

def markCapturedError (id : ℕ) (ref : Option Ref) : Option Failure :=
  match w.payment id with
  | none => none
  | some row =>
    if row.status = .captured then none
    else if row.purpose = .booking && (w.payments.any fun r ↦ r.id ≠ id &&
        r.bookingId = row.bookingId && r.purpose = .booking && r.status = .captured) then
      some (.uniqueViolation "uq_payments_one_captured_per_booking")
    else match ref <|> row.gatewayRef with
      | some r => if w.payments.any fun r' ↦ r'.id ≠ id && r'.gatewayRef = some r then
          some (.uniqueViolation "uq_payments_gateway_ref") else none
      | none => none

def markCaptured (id : ℕ) (ref : Option Ref) (method : Option PaymentMethod) : World :=
  if (w.markCapturedError id ref).isSome then w
  else w.updatePayment id fun row ↦
    if row.status = .captured then row else w.capturedRow row ref method

def markFailed (id : ℕ) (reason : String) : World :=
  w.updatePayment id fun row ↦
    if isOpen row then
      { row with status := .failed, failureReason := some reason, updatedAt := w.now }
    else row

def gatewayPool (row : PaymentRow) : ℤ :=
  if row.provider = .cash || row.provider = .wallet then 0 else row.amount

def walletPool (row : PaymentRow) : ℤ :=
  if row.provider = .cash then row.walletApplied + row.amount else row.walletApplied

/-- The refunds that count against a payment's pools. -/
def refundsOf (paymentId : ℕ) : List RefundRow :=
  w.refunds.filter fun r ↦ r.paymentId = paymentId && r.status ≠ .failed

def refundedGateway (paymentId : ℕ) : ℤ := ((w.refundsOf paymentId).map (·.gatewayAmount)).sum

def refundedWallet (paymentId : ℕ) : ℤ := ((w.refundsOf paymentId).map (·.walletAmount)).sum

def applyRefund (paymentId : ℕ) : World :=
  w.updatePayment paymentId fun row ↦
    { row with
      refundedAmount := min row.amount (w.refundedGateway paymentId)
      status := if gatewayPool row ≤ w.refundedGateway paymentId ∧
          walletPool row ≤ w.refundedWallet paymentId then .refunded else row.status
      updatedAt := w.now }

/-- `sum(amount) … group by` wallet over the booking's rows of the given types. -/
def sumByOwner (bookingId : ℕ) (p : WalletTxnType → Bool) : List (WalletOwner × ℤ) :=
  let rows := w.ledger.transactions.filter fun t ↦ t.refId = some (.booking bookingId) && p t.type
  ((rows.map (·.owner)).dedup).map fun o ↦ (o, ((rows.filter (·.owner = o)).map (·.amount)).sum)

/-- A captured payment and a settlement credit leg, A9's proof of a settlement. -/
def wasSettled (bookingId : ℕ) : Bool :=
  (w.capturedFor bookingId .booking).isSome && w.ledger.transactions.any fun t ↦
    t.refId = some (.booking bookingId) && isSettlementCredit t.type

def applyPatch (b : Booking) (target : BookingStatus) (patch : BookingPatch) : Booking :=
  { b with
    status := target
    commissionAmount := patch.commissionAmount.getD b.commissionAmount
    driverPayout := patch.driverPayout.getD b.driverPayout
    paidAt := patch.paidAt <|> b.paidAt
    paymentMethod := patch.paymentMethod <|> b.paymentMethod }

/-- The `CHECK` constraints of `bookings` that an update of the money columns can fail. -/
def bookingError (b : Booking) : Option Failure :=
  if b.total < 0 ∨ b.commissionAmount < 0 ∨ b.driverPayout < 0 ∨ b.discount < 0 then
    some (.checkViolation "ck_bookings_non_negative")
  else if b.total < b.commissionAmount + b.driverPayout + b.taxAmount then
    some (.checkViolation "ck_bookings_payout_within_total")
  else none

def transitionError (bookingId : ℕ) (target : BookingStatus) (patch : BookingPatch) : Option Failure :=
  match w.bookings bookingId with
  | none => some (.api (.notFound "Booking not found"))
  | some b =>
    if !isLegal b.status target then
      some (.api (.conflict
        ("A booking cannot go from " ++ b.status.label ++ " to " ++ target.label)
        [("from", b.status.label), ("to", target.label),
          ("allowed", String.intercalate "," ((legalTransitions b.status).map (·.label)))]))
    else if b.status = .disputed && target = .paid && !w.wasSettled bookingId then
      some (.api ⟨409, "dispute_not_settled",
        "Only a dispute opened from a paid booking can resolve back to paid: " ++
          "no captured payment and settlement legs were found for this booking",
        [("from", b.status.label), ("to", target.label)]⟩)
    else bookingError (applyPatch b target patch)

def transition (bookingId : ℕ) (target : BookingStatus) (patch : BookingPatch) : World :=
  if (w.transitionError bookingId target patch).isSome then w
  else w.updateBooking bookingId fun b ↦ applyPatch b target patch

/-- `LedgerService.post` with no precondition, as one transaction. -/
def postResult (legs : List (LedgerLeg LedgerKey)) :
    Except LedgerError PostResult × Ledger LedgerKey :=
  (LedgerService.post legs fun _ ↦ .ok ()).transact w.ledger

def post (legs : List (LedgerLeg LedgerKey)) : World := { w with ledger := (w.postResult legs).2 }

end World

end Towing.Money
