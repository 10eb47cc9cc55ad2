import Towing.Money.Channels

namespace Towing.Money

open Towing.Arith Towing.Db Towing.Process PaymentsRepo

structure PartialRefundTerms where
  cause : RefundCause
  bearer : Option RefundBearer
  delivery : RefundDelivery
  overrideReason : Option String
  deriving DecidableEq, Repr

def defaultBearerByCause : RefundCause → RefundBearer
  | .fareError => .shared
  | .platformError => .platform
  | .goodwill => .platform
  | .driverMisconduct => .provider

def bearerFor (terms : PartialRefundTerms) : RefundBearer :=
  terms.bearer.getD (defaultBearerByCause terms.cause)

inductive RefundKeySource
  | dispute (disputeId : ℕ)
  | admin (adminId : ℕ) (clientKey : String)
  deriving DecidableEq, Repr

def RefundKeySource.disputeId : RefundKeySource → Option ℕ
  | dispute id => some id
  | admin _ _ => none

structure RefundBooking where
  bookingId : ℕ
  reason : String
  initiatedBy : String
  transitionTo : Option BookingStatus
  keySource : Option RefundKeySource
  deriving DecidableEq, Repr

structure RefundPartial where
  bookingId : ℕ
  amountPaise : ℤ
  terms : PartialRefundTerms
  reason : String
  initiatedBy : String
  keySource : RefundKeySource
  deriving DecidableEq, Repr

structure RefundOutcome where
  refundId : ℕ
  replayed : Bool
  providerSharePaise : ℤ
  deriving DecidableEq, Repr

namespace RefundsService

open PaymentsService (conflict)

/-- Anything the vendor issued, as opposed to the service's own placeholders. -/
def isRealGatewayRef : Ref → Bool
  | .cash _ => false
  | .wallet _ => false
  | _ => true

def keyFromSource (env : Env) (b : ℕ) (kind : RefundKind) : RefundKeySource → RefundKey
  | .dispute id => .dispute b kind id
  | .admin id clientKey => .admin b kind (env.sha256 (toString id ++ ":" ++ clientKey))

def refundKey (env : Env) (p : RefundBooking) : RefundKey :=
  match p.keySource with
  | some source => keyFromSource env p.bookingId .full source
  | none => .reason p.bookingId p.reason

def providerShareFor (bearer : RefundBearer) (amountPaise providerCreditedPaise
    customerPaidPaise : ℤ) : ℤ :=
  match bearer with
  | .platform => 0
  | .provider => amountPaise
  | .shared =>
    if customerPaidPaise ≤ 0 then 0
    else roundDiv (amountPaise * providerCreditedPaise) customerPaidPaise

/-- Where the money is sent: to the gateway, and to the wallet. -/
def deliveredSplit (delivery : RefundDelivery) (gatewayPaise walletPaise : ℤ) : ℤ × ℤ :=
  match delivery with
  | .wallet => (0, gatewayPaise + walletPaise)
  | .original => (gatewayPaise, walletPaise)

def adjustmentLabel : Option RefundCause → String
  | some .fareError => "Fare adjusted: customer refund for a fare or route issue"
  | some .driverMisconduct => "Deducted: customer refund after a service complaint"
  | some .platformError => "Fare adjusted: customer refund"
  | some .goodwill => "Fare adjusted: customer refund"
  | none => "Fare adjusted: customer refund"

def existingRefund (key : RefundKey) : Request (Option ℕ) :=
  select (.refundByKey key) fun w ↦ (w.refunds.find? (·.idempotencyKey = key)).map (·.id)

/-- The newest booking-purpose row, whatever its status. -/
def paymentForResume (b : ℕ) : Request (Option PaymentRow) := latestForBooking b .booking

def gatewayRefund (r : GatewayRefund) : Request (Ref × RefundStatus) :=
  Proc.attempt (.gatewayRefund r) fun w ↦
    if w.gateway.up then .ok (w.gateway.refundRef r.idempotencyKey, w.gateway.refundReply)
    else .error Gateway.unavailable

def callGateway (id : ℕ) (key : RefundKey) (gatewayRef : Option Ref) (gatewayPaise : ℤ) :
    Request Unit :=
  if gatewayPaise ≤ 0 then pure ()
  else match gatewayRef with
    | none => pure ()
    | some ref =>
      if !isRealGatewayRef ref then pure ()
      else tryCatch (do
          let (refundRef, status) ← gatewayRefund ⟨key, ref, gatewayPaise⟩
          Proc.write (.refundAnswered id (if status = .processed then .processed else .pending)
            refundRef)) fun e ↦ do
        Proc.write (.refundFailed id e.text)
        throw e

def refundedSplit (paymentId : ℕ) : Request (ℤ × ℤ) :=
  select (.refundedSplit paymentId) fun w ↦ (w.refundedGateway paymentId, w.refundedWallet paymentId)

def userCredit (b userId refundId : ℕ) (amountPaise : ℤ) : LedgerLeg LedgerKey where
  owner := ⟨.user, userId⟩
  type := .refundCredit
  amountPaise := .int amountPaise
  reason := "Refund for booking TW-" ++ toString b
  refId := some (.booking b)
  idempotencyKey := .refundUserCredit refundId

def creditWallet (b refundId : ℕ) (amountPaise : ℤ) : Request Unit := do
  match ← select (.booking b) fun w ↦ w.bookings b with
  | none => pure ()
  | some booking => (ledgerPost [userCredit b booking.userId refundId amountPaise]).ignore

def settlementCredits (env : Env) (b : ℕ) : Request (List (WalletOwner × ℤ)) :=
  select (.settlementCredits b) fun w ↦ env.grouped w (w.sumByOwner b isSettlementCredit)

/-- What earlier refunds have taken back from an owner, as a positive amount. -/
def reversedByOwner (b : ℕ) : Request (WalletOwner → ℤ) :=
  select (.reversedByOwner b) fun w o ↦
    -((((w.sumByOwner b (· = .refundDebit)).find? (·.1 = o)).map (·.2)).getD 0)

def debit (b refundId : ℕ) (owner : WalletOwner) (amountPaise : ℤ) (reason : String) :
    LedgerLeg LedgerKey where
  owner := owner
  type := .refundDebit
  amountPaise := .int (-amountPaise)
  reason := reason
  refId := some (.booking b)
  idempotencyKey := match owner.ownerType with
    | .fleet => .refundFleetDebit refundId
    | _ => .refundDriverDebit refundId

def reversalLegs (b refundId : ℕ) (credits : List (WalletOwner × ℤ)) (reversed : WalletOwner → ℤ) :
    List (LedgerLeg LedgerKey) :=
  ((credits.map fun c ↦ (c.1, c.2 - reversed c.1)).filter (0 < ·.2)).map fun c ↦
    debit b refundId c.1 c.2 "Reversed — booking refunded"

/-- Reverses what is left of each settlement credit. -/
def reverseLedger (env : Env) (b refundId : ℕ) : Request Unit := do
  let credits ← settlementCredits env b
  if credits.isEmpty then pure ()
  else
    let reversed ← reversedByOwner b
    (ledgerPost (reversalLegs b refundId credits reversed)).ignore

/-- Each owner's part in proportion to what it still holds; the last takes the rest. -/
def shares (share pool : ℤ) : ℤ → List (WalletOwner × ℤ) → List (WalletOwner × ℤ)
  | _, [] => []
  | left, [c] => [(c.1, left)]
  | left, c :: cs =>
    let part := roundDiv (share * c.2) pool
    (c.1, part) :: shares share pool (left - part) cs

def isProvider (o : WalletOwner) : Bool := o.ownerType = .driver || o.ownerType = .fleet

/-- The driver side's credits, less what earlier refunds took back. -/
def providerOwners (credits : List (WalletOwner × ℤ)) (reversed : WalletOwner → ℤ) :
    List (WalletOwner × ℤ) :=
  (credits.filter fun c ↦ isProvider c.1).map fun c ↦ (c.1, max 0 (c.2 - reversed c.1))

def clawbackLegs (b refundId : ℕ) (share : ℤ) (cause : Option RefundCause)
    (owners : List (WalletOwner × ℤ)) : List (LedgerLeg LedgerKey) :=
  ((shares share (owners.map (·.2)).sum share (owners.filter (0 < ·.2))).filter (0 < ·.2)).map
    fun c ↦ debit b refundId c.1 c.2 (adjustmentLabel cause)

def clawback (env : Env) (b refundId : ℕ) (share : ℤ) (cause : Option RefundCause) :
    Request Unit :=
  if share ≤ 0 then pure ()
  else do
    let reversed ← reversedByOwner b
    let credits ← settlementCredits env b
    let owners := providerOwners credits reversed
    if (owners.map (·.2)).sum ≤ 0 then pure ()
    else
      let legs := clawbackLegs b refundId share cause owners
      Proc.when (!legs.isEmpty) (ledgerPost legs).ignore

/-- A refund from before bearers existed: the named party bore all of it. -/
def legacyClawback (env : Env) (b refundId : ℕ) (amountPaise : ℤ) (ownerType : WalletOwnerType)
    (liability : String) : Request Unit := do
  let credits ← settlementCredits env b
  match credits.find? (·.1.ownerType = ownerType) with
  | none => pure ()
  | some c =>
    (ledgerPost [debit b refundId c.1 amountPaise
      ("Partial refund clawback (" ++ liability ++ ")")]).ignore

/-- What the driver side was credited, and what it still holds of it. -/
def providerCredit (env : Env) (b : ℕ) : Request (ℤ × ℤ) := do
  let reversed ← reversedByOwner b
  let credits ← settlementCredits env b
  pure (((credits.filter fun c ↦ isProvider c.1).map (·.2)).sum,
    ((providerOwners credits reversed).map (·.2)).sum)

def storedProviderShare (id : ℕ) : Request ℤ :=
  select (.refundById id) fun w ↦ ((w.refund id).bind (·.providerShare)).getD 0

def markProcessed (id : ℕ) : Request Unit := Proc.write (.refundProcessed id)

def resumeLegs (env : Env) (b : ℕ) (row : RefundRow) : Request Unit :=
  match row.kind, row.providerShare, row.liability with
  | .full, _, _ => reverseLedger env b row.id
  | .part, some share, _ => clawback env b row.id share row.cause
  | .part, none, some .driver => legacyClawback env b row.id row.amount .driver "driver"
  | .part, none, some .fleet => legacyClawback env b row.id row.amount .fleet "fleet"
  | .part, none, _ => pure ()

def resumeTransition (b : ℕ) : Option BookingStatus → Request Unit
  | none => pure ()
  | some target => do
    match ← select (.booking b) fun w ↦ w.bookings b with
    | none => pure ()
    | some booking => Proc.when (booking.status ≠ target) (transition b target {} none)

/-- What a replayed key has left to do. -/
def resumeRefund (env : Env) (id b : ℕ) (transitionTo : Option BookingStatus) : Request Unit := do
  match ← select (.refundById id) fun w ↦ w.refund id with
  | none => pure ()
  | some row =>
    if row.status = .failed then pure ()
    else do
      let delivered := deliveredSplit row.delivery row.gatewayAmount row.walletAmount
      let payment ← paymentForResume b
      Proc.when (row.gatewayRef = none)
        (callGateway id row.idempotencyKey (payment.bind (·.gatewayRef)) delivered.1)
      Proc.when (0 < delivered.2) (creditWallet b id delivered.2)
      Proc.when (delivered.1 = 0 ∧ row.status = .pending) (markProcessed id)
      resumeLegs env b row
      Proc.when (row.kind = .full) (Proc.write (.releaseCoupon b))
      resumeTransition b transitionTo
      match payment with
      | none => pure ()
      | some payment => Proc.write (.applyRefund payment.id)

def insertRefund (r : NewRefund) (seen : ℤ × ℤ) : Request (Option ℕ) :=
  Proc.attempt (.insertRefund r seen) fun w ↦ w.insertRefund r

def changedInFlight : Failure :=
  .api (.conflict "The refund changed while this request was in flight" [])

def nothingCaptured : Failure :=
  conflict "There is no captured payment on this booking to refund" []

/-- Refuses an illegal landing before any money moves. -/
def landable (b : ℕ) : Option BookingStatus → Request Unit
  | none => pure ()
  | some target => call (.booking b) fun w ↦
    let status := (w.bookings b).map (·.status)
    if status.any fun s ↦ isLegal s target then .ok ()
    else
      let known := status.map (·.label)
      .error (conflict ("A booking cannot go from " ++ known.getD "unknown" ++ " to " ++ target.label)
        [("from", known.getD "null"), ("to", target.label)])

def land (b : ℕ) : Option BookingStatus → Request Unit
  | none => pure ()
  | some target => transition b target {} none

/-- The steps of a full refund after its row is in. -/
def finishFull (env : Env) (p : RefundBooking) (captured : PaymentRow) (id : ℕ)
    (gatewayPaise walletPaise : ℤ) : Request RefundOutcome := do
  callGateway id (refundKey env p) captured.gatewayRef gatewayPaise
  Proc.when (0 < walletPaise) (creditWallet p.bookingId id walletPaise)
  Proc.when (gatewayPaise = 0) (markProcessed id)
  reverseLedger env p.bookingId id
  land p.bookingId p.transitionTo
  Proc.write (.releaseCoupon p.bookingId)
  Proc.write (.applyRefund captured.id)
  pure ⟨id, false, 0⟩

def resumeFull (env : Env) (p : RefundBooking) (id : ℕ) : Request RefundOutcome := do
  resumeRefund env id p.bookingId p.transitionTo
  pure ⟨id, true, 0⟩

def fullRefundRow (env : Env) (p : RefundBooking) (paymentId : ℕ) (gatewayPaise walletPaise : ℤ) :
    NewRefund where
  bookingId := p.bookingId
  paymentId := paymentId
  amount := gatewayPaise + walletPaise
  gatewayAmount := gatewayPaise
  walletAmount := walletPaise
  reason := p.reason
  idempotencyKey := refundKey env p
  initiatedBy := p.initiatedBy
  kind := .full
  liability := none
  disputeId := p.keySource.bind (·.disputeId)
  cause := none
  delivery := .original
  providerShare := none
  bearerOverrideReason := none

def refundBooking (env : Env) (p : RefundBooking) : Request RefundOutcome := do
  match ← existingRefund (refundKey env p) with
  | some id => resumeFull env p id
  | none =>
    match ← capturedFor p.bookingId .booking with
    | none => throw nothingCaptured
    | some captured =>
      landable p.bookingId p.transitionTo
      let split ← refundedSplit captured.id
      let gatewayPaise := World.gatewayPool captured - split.1
      let walletPaise := World.walletPool captured - split.2
      Proc.when (gatewayPaise + walletPaise ≤ 0)
        (throw (conflict "This payment is already fully refunded" []))
      match ← insertRefund (fullRefundRow env p captured.id gatewayPaise walletPaise) split with
      | some id => finishFull env p captured id gatewayPaise walletPaise
      | none =>
        match ← existingRefund (refundKey env p) with
        | some id => resumeFull env p id
        | none => throw changedInFlight

/-- The steps of a partial refund after its row is in. -/
def finishPartial (env : Env) (p : RefundPartial) (captured : PaymentRow) (id : ℕ)
    (gatewayPaise walletPaise share : ℤ) : Request RefundOutcome := do
  let delivered := deliveredSplit p.terms.delivery gatewayPaise walletPaise
  callGateway id (keyFromSource env p.bookingId .part p.keySource) captured.gatewayRef delivered.1
  Proc.when (0 < delivered.2) (creditWallet p.bookingId id delivered.2)
  Proc.when (delivered.1 = 0) (markProcessed id)
  clawback env p.bookingId id share (some p.terms.cause)
  Proc.write (.applyRefund captured.id)
  pure ⟨id, false, share⟩

def resumePartial (env : Env) (p : RefundPartial) (id : ℕ) : Request RefundOutcome := do
  resumeRefund env id p.bookingId none
  let share ← storedProviderShare id
  pure ⟨id, true, share⟩

def partialRefundRow (env : Env) (p : RefundPartial) (paymentId : ℕ)
    (gatewayPaise walletPaise share : ℤ) : NewRefund where
  bookingId := p.bookingId
  paymentId := paymentId
  amount := p.amountPaise
  gatewayAmount := gatewayPaise
  walletAmount := walletPaise
  reason := p.reason
  idempotencyKey := keyFromSource env p.bookingId .part p.keySource
  initiatedBy := p.initiatedBy
  kind := .part
  liability := some (.bearer (bearerFor p.terms))
  disputeId := p.keySource.disputeId
  cause := some p.terms.cause
  delivery := p.terms.delivery
  providerShare := some share
  bearerOverrideReason := p.terms.overrideReason

def bearerLabel : RefundBearer → String
  | .shared => "shared"
  | .platform => "platform"
  | .provider => "provider"

def refundPartial (env : Env) (p : RefundPartial) : Request RefundOutcome := do
  let key := keyFromSource env p.bookingId .part p.keySource
  match ← existingRefund key with
  | some id => resumePartial env p id
  | none =>
    match ← capturedFor p.bookingId .booking with
    | none => throw nothingCaptured
    | some captured =>
      let split ← refundedSplit captured.id
      let gatewayPool := World.gatewayPool captured
      let walletPool := World.walletPool captured
      let remainingGateway := gatewayPool - split.1
      let remaining := remainingGateway + (walletPool - split.2)
      Proc.when (p.amountPaise ≤ 0 ∨ remaining < p.amountPaise)
        (throw (.api ⟨422, "validation_failed", "The refund exceeds what is left on this payment",
          [("amountPaise", toString p.amountPaise), ("remainingPaise", toString remaining)]⟩))
      let gatewayPaise := min p.amountPaise remainingGateway
      let walletPaise := p.amountPaise - gatewayPaise
      let bearer := bearerFor p.terms
      let credit ← providerCredit env p.bookingId
      let share := providerShareFor bearer p.amountPaise credit.1 (gatewayPool + walletPool)
      Proc.when (credit.2 < share)
        (throw (.api ⟨422, "validation_failed",
          "The driver cannot give back more than this trip paid them",
          [("bearer", bearerLabel bearer), ("amountPaise", toString p.amountPaise),
            ("providerSharePaise", toString share), ("remainingCreditPaise", toString credit.2)]⟩))
      match ← insertRefund (partialRefundRow env p captured.id gatewayPaise walletPaise share)
          split with
      | some id => finishPartial env p captured id gatewayPaise walletPaise share
      | none =>
        match ← existingRefund key with
        | some id => resumePartial env p id
        | none => throw changedInFlight

end RefundsService

end Towing.Money
