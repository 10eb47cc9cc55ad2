import Towing.Money.Settlement
import Towing.Process.Basic
import Towing.Db.LedgerService

namespace Towing.Money

open Towing.Db

inductive BookingStatus
  | searching
  | noDriversFound
  | assigned
  | enRoute
  | arrived
  | inProgress
  | completed
  | paid
  | disputed
  | refunded
  | cancelled
  deriving DecidableEq, Repr

inductive PaymentPurpose
  | booking
  | cancellationFee
  deriving DecidableEq, Repr

inductive PaymentStatus
  | pending
  | authorized
  | captured
  | failed
  | refunded
  deriving DecidableEq, Repr

inductive PaymentMethod
  | upi
  | card
  | wallet
  | cash
  deriving DecidableEq, Repr

/-- `gateway` stands for the name of the bound adapter, `dev` or `razorpay`. -/
inductive Provider
  | cash
  | wallet
  | gateway
  deriving DecidableEq, Repr

/-- What the `gateway_ref` and `gateway_order_ref` columns hold: the vendor's
orders, payments and refunds, and the two references the service makes up. -/
inductive Ref
  | order (n : ℕ)
  | pay (n : ℕ)
  | refund (n : ℕ)
  | cash (paymentId : ℕ)
  | wallet (paymentId : ℕ)
  deriving DecidableEq, Repr

def Ref.text : Ref → String
  | order n => "order_" ++ toString n
  | pay n => "pay_" ++ toString n
  | refund n => "rfnd_" ++ toString n
  | cash id => "cash-" ++ toString id
  | wallet id => "wallet-" ++ toString id

inductive DriverPayModel
  | independent
  | salary
  | share
  deriving DecidableEq, Repr

structure Booking where
  userId : ℕ
  status : BookingStatus
  driverId : Option ℕ := none
  fleetId : Option ℕ := none
  baseFare : ℤ := 0
  discount : ℤ := 0
  taxPct : Pct := 0
  taxAmount : ℤ := 0
  total : ℤ
  commissionBand : Option Band := none
  commissionPct : Option Pct := none
  driverPayModel : Option DriverPayModel := none
  driverSharePct : Option Pct := none
  couponId : Option ℕ := none
  commissionAmount : ℤ := 0
  driverPayout : ℤ := 0
  paymentMethod : Option PaymentMethod := none
  createdAt : ℕ := 0
  paidAt : Option ℕ := none
  deriving DecidableEq, Repr

/-- `payments.idempotency_key`, as `paymentRowKey` builds it. -/
structure PaymentKey where
  bookingId : ℕ
  purpose : PaymentPurpose
  hashed : String
  deriving DecidableEq, Repr

structure PaymentRow where
  id : ℕ
  bookingId : ℕ
  amount : ℤ
  walletApplied : ℤ
  taxAmount : ℤ
  refundedAmount : ℤ
  status : PaymentStatus
  purpose : PaymentPurpose
  method : PaymentMethod
  gatewayRef : Option Ref
  gatewayOrderRef : Option Ref
  provider : Provider
  idempotencyKey : PaymentKey
  failureReason : Option String
  capturedAt : Option ℕ
  createdAt : ℕ
  updatedAt : ℕ
  deriving DecidableEq, Repr

/-- The vendor's word on a payment. -/
inductive GatewayStatus
  | pending
  | authorized
  | captured
  | failed
  deriving DecidableEq, Repr

structure PaymentHandle where
  gatewayRef : Option Ref
  orderRef : Option Ref
  status : GatewayStatus
  method : Option PaymentMethod
  amountPaise : Option ℤ
  failureReason : Option String
  deriving DecidableEq, Repr

/-- An order at the vendor, with the notes it carries; the n-th is `Ref.order n`. -/
structure GatewayOrder where
  paymentId : ℕ
  bookingId : ℕ
  purpose : PaymentPurpose
  amountPaise : ℤ
  deriving DecidableEq, Repr

/-- An attempt to pay an order; the n-th is `Ref.pay n`. -/
structure GatewayPayment where
  order : ℕ
  status : GatewayStatus
  method : Option PaymentMethod
  failureReason : Option String
  deriving DecidableEq, Repr

inductive RefundKind
  | full
  | part
  deriving DecidableEq, Repr

inductive RefundStatus
  | pending
  | processed
  | failed
  deriving DecidableEq, Repr

inductive RefundCause
  | fareError
  | platformError
  | goodwill
  | driverMisconduct
  deriving DecidableEq, Repr

inductive RefundBearer
  | shared
  | platform
  | provider
  deriving DecidableEq, Repr

/-- `driver` and `fleet` are on rows issued before bearers existed. -/
inductive RefundLiability
  | bearer (b : RefundBearer)
  | driver
  | fleet
  deriving DecidableEq, Repr

inductive RefundDelivery
  | original
  | wallet
  deriving DecidableEq, Repr

/-- `refunds.idempotency_key` under its two grammars. -/
inductive RefundKey
  | reason (bookingId : ℕ) (reason : String)
  | dispute (bookingId : ℕ) (kind : RefundKind) (disputeId : ℕ)
  | admin (bookingId : ℕ) (kind : RefundKind) (hashed : String)
  deriving DecidableEq, Repr

structure RefundRow where
  id : ℕ
  bookingId : ℕ
  paymentId : ℕ
  amount : ℤ
  gatewayAmount : ℤ
  walletAmount : ℤ
  reason : String
  status : RefundStatus
  idempotencyKey : RefundKey
  initiatedBy : String
  kind : RefundKind
  liability : Option RefundLiability
  disputeId : Option ℕ
  cause : Option RefundCause
  delivery : RefundDelivery
  providerShare : Option ℤ
  bearerOverrideReason : Option String
  gatewayRef : Option Ref
  failureReason : Option String
  processedAt : Option ℕ
  updatedAt : ℕ
  deriving DecidableEq, Repr

/-- A refund the vendor has made; the n-th is `Ref.refund n`. -/
structure GatewayRefund where
  idempotencyKey : RefundKey
  payment : Ref
  amountPaise : ℤ
  deriving DecidableEq, Repr

/-- The vendor's side. `reportsAmount` is whether it says what it collected, and
`refundReply` the status it answers a refund with. -/
structure Gateway where
  up : Bool
  reportsAmount : Bool
  refundReply : RefundStatus
  orders : List GatewayOrder
  payments : List GatewayPayment
  refunds : List GatewayRefund

inductive CouponKind
  | percent
  | flat
  deriving DecidableEq, Repr

structure Coupon where
  code : String
  kind : CouponKind
  value : ℤ
  maxDiscount : Option ℤ
  minOrder : ℤ
  maxUses : Option ℕ
  maxUsesPerUser : ℕ
  startsAt : Option ℕ
  expiresAt : Option ℕ
  isActive : Bool
  usedCount : ℕ
  deriving DecidableEq, Repr

structure CouponRedemption where
  couponId : ℕ
  userId : ℕ
  bookingId : ℕ
  discountAmount : ℤ
  deriving DecidableEq, Repr

structure Fleet where
  driverPayModel : DriverPayModel
  driverSharePct : Pct

structure WebhookEventRow where
  eventId : String
  processedAt : Option ℕ
  error : Option String
  deriving DecidableEq, Repr

/-- What the settlement-conflict alarm is deduplicated on. -/
inductive AlarmKey
  | payment (id : ℕ)
  | ref (r : Ref)
  | booking (id : ℕ)
  deriving DecidableEq, Repr

structure World where
  /-- Milliseconds. -/
  now : ℕ
  bookings : ℕ → Option Booking
  payments : List PaymentRow
  refunds : List RefundRow
  ledger : Ledger LedgerKey
  fleets : ℕ → Option Fleet
  fleetDriverShares : ℕ → ℕ → Option Pct
  coupons : List Coupon
  redemptions : List CouponRedemption
  webhookEvents : List WebhookEventRow
  gateway : Gateway
  captureLocks : List ℕ
  redisUp : Bool
  alarms : List AlarmKey
  uuids : ℕ

/-- Nothing recorded anywhere yet, and every service up. -/
def World.blank : World where
  now := 0
  bookings _ := none
  payments := []
  refunds := []
  ledger := Ledger.empty
  fleets _ := none
  fleetDriverShares _ _ := none
  coupons := []
  redemptions := []
  webhookEvents := []
  gateway := ⟨true, true, .processed, [], [], []⟩
  captureLocks := []
  redisUp := true
  alarms := []
  uuids := 0

structure ApiException where
  status : ℕ
  code : String
  message : String
  details : List (String × String)
  deriving DecidableEq, Repr

/-- What a call can throw. -/
inductive Failure
  | api (e : ApiException)
  | uniqueViolation (constraint : String)
  | checkViolation (constraint : String)
  | ledger (e : LedgerError)
  | error (message : String)
  deriving DecidableEq, Repr

def Failure.text : Failure → String
  | api e => e.message
  | uniqueViolation c => "duplicate key value violates unique constraint " ++ c
  | checkViolation c => "new row violates check constraint " ++ c
  | ledger (.error m) => m
  | ledger .numericOverflow => "numeric field overflow"
  | error m => m

def ApiException.notFound (message : String) : ApiException := ⟨404, "not_found", message, []⟩

def ApiException.conflict (message : String) (details : List (String × String)) : ApiException :=
  ⟨409, "invalid_booking_state", message, details⟩

def BookingStatus.label : BookingStatus → String
  | searching => "searching"
  | noDriversFound => "no_drivers_found"
  | assigned => "assigned"
  | enRoute => "en_route"
  | arrived => "arrived"
  | inProgress => "in_progress"
  | completed => "completed"
  | paid => "paid"
  | disputed => "disputed"
  | refunded => "refunded"
  | cancelled => "cancelled"

def GatewayStatus.label : GatewayStatus → String
  | pending => "pending"
  | authorized => "authorized"
  | captured => "captured"
  | failed => "failed"

end Towing.Money
