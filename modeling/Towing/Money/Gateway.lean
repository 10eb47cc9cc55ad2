import Towing.Money.Tables

namespace Towing.Money

inductive WebhookStatus
  | authorized
  | captured
  | failed
  | refunded
  | unknown
  deriving DecidableEq, Repr

/-- `paymentId` and `bookingId` are read back out of the order's notes. -/
structure PaymentWebhookEvent where
  eventId : String
  gatewayRef : Option Ref
  orderRef : Option Ref
  paymentId : Option ℕ
  bookingId : Option ℕ
  status : WebhookStatus
  amountPaise : Option ℤ
  method : Option PaymentMethod
  failureReason : Option String
  deriving DecidableEq, Repr

/-- The refs a checkout signature is over. -/
structure CheckoutSignature where
  orderRef : Ref
  gatewayRef : Ref
  deriving DecidableEq, Repr

structure PaymentCaptureRequest where
  gatewayRef : Ref
  orderRef : Ref
  signature : CheckoutSignature
  deriving DecidableEq, Repr

namespace Gateway

variable (g : Gateway)

def unavailable : Failure := .error "the gateway did not answer"

def handleOf (n : ℕ) (p : GatewayPayment) : PaymentHandle where
  gatewayRef := some (.pay n)
  orderRef := some (.order p.order)
  status := p.status
  method := p.method
  amountPaise := if g.reportsAmount then g.orders[p.order]?.map (·.amountPaise) else none
  failureReason := p.failureReason

/-- The attempts at an order, newest first. -/
def attempts (o : ℕ) : List (ℕ × GatewayPayment) :=
  (g.payments.zipIdx.filterMap fun (p, n) ↦ if p.order = o then some (n, p) else none).reverse

def fetchPayment (gatewayRef orderRef : Option Ref) : Except Failure PaymentHandle :=
  if !g.up then .error unavailable
  else match gatewayRef, orderRef with
    | some (.pay n), _ => match g.payments[n]? with
      | some p => .ok (g.handleOf n p)
      | none => .error unavailable
    | some _, _ => .error unavailable
    | none, none => .ok ⟨none, none, .pending, none, none, none⟩
    | none, some (.order o) =>
      let listed := g.attempts o
      match listed.find? (·.2.status = .captured) <|> listed.head? with
      | some (n, p) => .ok (g.handleOf n p)
      | none => .ok ⟨none, some (.order o), .pending, none, none, none⟩
    | none, some _ => .error unavailable

/-- The vendor signs a pair of refs it issued together, and nobody else can. -/
def verifyCheckout (body : PaymentCaptureRequest) : Bool :=
  body.signature = ⟨body.orderRef, body.gatewayRef⟩ &&
    match body.gatewayRef with
    | .pay n => g.payments[n]?.any fun p ↦ body.orderRef = .order p.order
    | _ => false

/-- The vendor signs the events that are true of its payments. The notes can be
missing; a refund event is about the payment that was refunded. -/
def verifyWebhook (e : PaymentWebhookEvent) : Bool :=
  match e.gatewayRef with
  | some (.pay n) => match g.payments[n]? with
    | none => false
    | some p => match g.orders[p.order]? with
      | none => false
      | some o => e.orderRef = some (.order p.order) &&
          (e.paymentId = none || e.paymentId = some o.paymentId) &&
          (e.bookingId = none || e.bookingId = some o.bookingId) &&
          e.amountPaise = (if g.reportsAmount then some o.amountPaise else none) &&
          match e.status with
          | .captured => p.status = .captured
          | .failed => p.status = .failed
          | _ => true
  | _ => false

def createOrder (o : GatewayOrder) : Gateway := if g.up then { g with orders := g.orders ++ [o] } else g

def isPaid (o : ℕ) : Bool := g.payments.any fun p ↦ p.order = o && p.status = .captured

/-- A customer's new attempt at an order; an order is collected once. -/
def attempt (p : GatewayPayment) : Gateway :=
  if g.orders.length ≤ p.order || (p.status = .captured && g.isPaid p.order) then g
  else { g with payments := g.payments ++ [p] }

/-- An unfinished attempt comes to its end. -/
def finish (n : ℕ) (status : GatewayStatus) : Gateway :=
  match g.payments[n]? with
  | none => g
  | some p =>
    if p.status = .captured ∨ p.status = .failed ∨ (status = .captured ∧ g.isPaid p.order) then g
    else { g with payments := g.payments.set n { p with status := status } }

/-- The vendor deduplicates refunds on the key it is handed. -/
def refund (r : GatewayRefund) : Gateway :=
  if g.up && !(g.refunds.any fun r' ↦ r'.idempotencyKey = r.idempotencyKey) then
    { g with refunds := g.refunds ++ [r] }
  else g

def refundRef (key : RefundKey) : Ref :=
  .refund ((g.refunds.findIdx? fun r ↦ r.idempotencyKey = key).getD g.refunds.length)

end Gateway

end Towing.Money
