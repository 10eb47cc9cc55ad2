import Towing.Db.Keys
import Towing.Money.World

namespace Towing.Payouts

open Towing.Db Towing.Process

inductive PayoutStatus
  | requested
  | processing
  | paid
  | failed
  deriving DecidableEq, Repr

/-- Finance's gate, beside the vendor's lifecycle. -/
inductive PayoutApprovalState
  | autoApproved
  | pendingApproval
  | approved
  | rejected
  deriving DecidableEq, Repr

def PayoutApprovalState.label : PayoutApprovalState → String
  | autoApproved => "auto_approved"
  | pendingApproval => "pending_approval"
  | approved => "approved"
  | rejected => "rejected"

/-- `payoutRowKey`: the owner and the hash of the client's key. -/
structure PayoutKey where
  owner : WalletOwner
  hashedClientKey : String
  deriving DecidableEq, Repr

/-- A row of `payouts`. `routeRef` is the vendor's reference. -/
structure PayoutRow where
  id : ℕ
  owner : WalletOwner
  amount : ℤ
  status : PayoutStatus
  routeRef : Option ℕ
  failureReason : Option String
  idempotencyKey : PayoutKey
  requestedAt : ℕ
  paidAt : Option ℕ
  updatedAt : ℕ
  approvalState : PayoutApprovalState
  approvedBy : Option ℕ
  approvedAt : Option ℕ
  rejectionReason : Option String
  deriving DecidableEq, Repr

structure NewPayout where
  owner : WalletOwner
  amount : ℤ
  idempotencyKey : PayoutKey
  approvalState : PayoutApprovalState
  deriving DecidableEq, Repr

/-! The vendor. -/

inductive HandleStatus
  | processing
  | paid
  | failed
  deriving DecidableEq, Repr

/-- A payout the vendor has accepted, with the id it was sent. -/
structure VendorPayout where
  payoutId : ℕ
  idempotencyKey : PayoutKey
  amountPaise : ℤ
  destinationRef : String
  status : HandleStatus
  failureReason : Option String
  deriving DecidableEq, Repr

/-- How the vendor meets the next calls: it accepts a payout (which may be refused
at once, and the answer may be lost on the way), answers with an error, or is not
reached. -/
inductive Mood
  | accepts (status : HandleStatus) (failureReason : Option String) (lost : Bool)
  | refuses (message : String)
  | unreachable
  deriving DecidableEq, Repr

/-- Accepted payouts, oldest first: the reference of one is its place. -/
structure Vendor where
  payouts : List VendorPayout
  mood : Mood
  deriving DecidableEq, Repr

structure CreatePayoutParams where
  payoutId : ℕ
  amountPaise : ℤ
  destinationRef : String
  idempotencyKey : PayoutKey
  deriving DecidableEq, Repr

structure PayoutHandle where
  providerRef : ℕ
  status : HandleStatus
  failureReason : Option String
  deriving DecidableEq, Repr

inductive EventStatus
  | processing
  | paid
  | failed
  | unknown
  deriving DecidableEq, Repr

structure PayoutWebhookEvent where
  eventId : String
  providerRef : Option ℕ
  payoutId : Option ℕ
  status : EventStatus
  failureReason : Option String
  deriving DecidableEq, Repr

/-- What a call can throw. `name` is the error's own `name`. -/
inductive Thrown
  | api (e : Money.ApiException)
  | uniqueViolation (constraint : String)
  | ledger (e : LedgerError)
  | error (name message : String)
  deriving DecidableEq, Repr

def Thrown.message : Thrown → String
  | api e => e.message
  | uniqueViolation c => "duplicate key value violates unique constraint " ++ c
  | ledger (.error m) => m
  | ledger .numericOverflow => "numeric field overflow"
  | error _ m => m

/-- `AbortSignal.timeout` rejects with a `TimeoutError`. -/
def Thrown.isTimeout : Thrown → Bool
  | error name _ => name = "TimeoutError" || name = "AbortError"
  | _ => false

/-- What `ExternalCallPolicy` throws at its deadline. -/
def externalCallTimeout (timeoutMs : ℕ) : Thrown :=
  .error "ExternalCallTimeoutError" ("razorpay_route call exceeded " ++ toString timeoutMs ++ "ms")

namespace Vendor

variable (v : Vendor)

/-- The vendor deduplicates on the key it is handed. -/
def accept (p : CreatePayoutParams) : Vendor :=
  match v.mood with
  | .accepts status failureReason _ =>
    if v.payouts.any (·.idempotencyKey = p.idempotencyKey) then v
    else
      let accepted : VendorPayout :=
        ⟨p.payoutId, p.idempotencyKey, p.amountPaise, p.destinationRef, status, failureReason⟩
      { v with payouts := v.payouts ++ [accepted] }
  | _ => v

def handleOf (ref : ℕ) (p : VendorPayout) : PayoutHandle := ⟨ref, p.status, p.failureReason⟩

/-- What the caller of `createPayout` sees. -/
def answer (timeoutMs : ℕ) (p : CreatePayoutParams) : Except Thrown PayoutHandle :=
  match v.mood with
  | .accepts _ _ lost =>
    if lost then .error (externalCallTimeout timeoutMs)
    else
      let after := (v.accept p).payouts
      let ref := after.findIdx (·.idempotencyKey = p.idempotencyKey)
      match after[ref]? with
      | some accepted => .ok (handleOf ref accepted)
      | none => .error (externalCallTimeout timeoutMs)
  | .refuses message => .error (.error "Error" message)
  | .unreachable => .error (externalCallTimeout timeoutMs)

def fetchPayout (timeoutMs : ℕ) (ref : ℕ) : Except Thrown PayoutHandle :=
  match v.mood with
  | .accepts _ _ false =>
    match v.payouts[ref]? with
    | some p => .ok (handleOf ref p)
    | none => .error (.error "Error" "Razorpay GET /v1/payouts failed (404)")
  | .refuses message => .error (.error "Error" message)
  | _ => .error (externalCallTimeout timeoutMs)

/-- A payout in flight comes to its end. -/
def settle (ref : ℕ) (status : HandleStatus) (failureReason : Option String) : Vendor :=
  match v.payouts[ref]? with
  | none => v
  | some p =>
    if p.status = .processing then
      { v with payouts := v.payouts.set ref { p with status, failureReason } }
    else v

/-- The vendor signs the events that are true of its payouts. -/
def verifyWebhook (e : PayoutWebhookEvent) : Bool :=
  match e.providerRef with
  | none => false
  | some ref =>
    match v.payouts[ref]? with
    | none => false
    | some p => (e.payoutId = none || e.payoutId = some p.payoutId) &&
        match e.status with
        | .paid => p.status = .paid
        | .failed => p.status = .failed
        | _ => true

end Vendor

/-- The tables around payouts, with the vendor and the clock (in milliseconds).
`destinations` are the fund accounts of the active payout accounts. -/
structure World where
  now : ℕ
  payouts : List PayoutRow
  ledger : Ledger LedgerKey
  destinations : WalletOwner → Option String
  autoApproveMaxPaise : ℤ
  webhookEvents : List String
  vendor : Vendor

def isOpen (row : PayoutRow) : Bool := row.status = .requested || row.status = .processing

/-- Which branch takes a payout to its end. -/
inductive Cause
  | hold
  | answered
  | error
  | rejected
  | webhook
  | neverAcknowledged
  | polled
  deriving DecidableEq, Repr

/-- The hold: the leg that takes a payout's amount. -/
def debitLegs (id : ℕ) (owner : WalletOwner) (amountPaise : ℤ) : List (LedgerLeg LedgerKey) :=
  [{ owner := owner
     type := .payoutDebit
     amountPaise := .int (-amountPaise)
     reason := "Payout to bank (Razorpay Route)"
     refId := some (.payout id)
     idempotencyKey := .payoutDebit id }]

/-- The leg that returns it. -/
def reversalLegs (row : PayoutRow) : List (LedgerLeg LedgerKey) :=
  [{ owner := row.owner
     type := .adjustment
     amountPaise := .int row.amount
     reason := "Payout failed — funds returned"
     refId := some (.payout row.id)
     idempotencyKey := .payoutReversal row.id }]

def insufficientBalance : String := "Your wallet balance is lower than the requested payout"

/-- Checked under the wallet's row lock. -/
def balanceCovers (owner : WalletOwner) (amountPaise : ℤ) (balances : Balances) :
    Except LedgerError Unit :=
  if (balances owner).getD 0 < amountPaise then .error (.error insufficientBalance) else .ok ()

namespace World

variable (w : World)

def payout (id : ℕ) : Option PayoutRow := w.payouts.find? (·.id = id)

def byIdempotencyKey (key : PayoutKey) : Option PayoutRow :=
  w.payouts.find? (·.idempotencyKey = key)

/-- By the vendor's reference first, then by the id it echoes. -/
def byProviderRefOrId (providerRef payoutId : Option ℕ) : Option PayoutRow :=
  (providerRef.bind fun ref ↦ w.payouts.find? (·.routeRef = some ref)) <|> payoutId.bind w.payout

def insertPayout (p : NewPayout) : Except Thrown PayoutRow :=
  if !fitsNumeric p.amount then .error (.error "PostgresError" "numeric field overflow")
  else if w.payouts.any (·.idempotencyKey = p.idempotencyKey) then
    .error (.uniqueViolation "uq_payouts_idempotency_key")
  else if w.payouts.any fun row ↦ row.owner = p.owner && isOpen row then
    .error (.uniqueViolation "uq_payouts_one_open_per_owner")
  else .ok
    { id := w.payouts.length
      owner := p.owner
      amount := p.amount
      status := .requested
      routeRef := none
      failureReason := none
      idempotencyKey := p.idempotencyKey
      requestedAt := w.now
      paidAt := none
      updatedAt := w.now
      approvalState := p.approvalState
      approvedBy := none
      approvedAt := none
      rejectionReason := none }

def create (p : NewPayout) : World :=
  match w.insertPayout p with
  | .ok row => { w with payouts := w.payouts ++ [row] }
  | .error _ => w

def updatePayout (id : ℕ) (f : PayoutRow → PayoutRow) : World :=
  { w with payouts := w.payouts.map fun row ↦ if row.id = id then f row else row }

/-- The update of `uq_payouts_route_ref` that another row stands in the way of. -/
def refTaken (id : ℕ) (ref : Option ℕ) : Bool :=
  ref.isSome && w.payouts.any fun row ↦ row.id ≠ id && row.routeRef = ref

def terminalRow (row : PayoutRow) (target : PayoutStatus) (providerRef : Option ℕ)
    (failureReason : Option String) : PayoutRow :=
  { row with
    status := target
    paidAt := if target = .paid then some w.now else row.paidAt
    routeRef := providerRef <|> row.routeRef
    failureReason := failureReason
    updatedAt := w.now }

/-- The guarded update: the row as it is now, or none if it was over already. -/
def terminal (id : ℕ) (target : PayoutStatus) (providerRef : Option ℕ) (failureReason : Option String) :
    Except Thrown (Option PayoutRow) :=
  match w.payout id with
  | none => .ok none
  | some row =>
    if !isOpen row then .ok none
    else if w.refTaken id providerRef then .error (.uniqueViolation "uq_payouts_route_ref")
    else .ok (some (w.terminalRow row target providerRef failureReason))

def transitionToTerminal (id : ℕ) (target : PayoutStatus) (providerRef : Option ℕ)
    (failureReason : Option String) : World :=
  match w.terminal id target providerRef failureReason with
  | .ok (some row) => w.updatePayout id fun _ ↦ row
  | _ => w

def processingError (id providerRef : ℕ) : Option Thrown :=
  if (w.payout id).any (·.status = .requested) && w.refTaken id (some providerRef) then
    some (.uniqueViolation "uq_payouts_route_ref")
  else none

def markProcessing (id providerRef : ℕ) : World :=
  if (w.processingError id providerRef).isSome then w
  else w.updatePayout id fun row ↦
    if row.status = .requested then
      { row with status := .processing, routeRef := some providerRef, updatedAt := w.now }
    else row

/-- Finance's decision, or none if it was decided already. -/
def decided (id : ℕ) (target : PayoutApprovalState) (adminId : ℕ) (reason : Option String) :
    Option PayoutRow :=
  ((w.payout id).filter (·.approvalState = .pendingApproval)).map fun row ↦
    { row with
      approvalState := target
      approvedBy := some adminId
      approvedAt := some w.now
      rejectionReason := reason
      updatedAt := w.now }

def decideApproval (id : ℕ) (target : PayoutApprovalState) (adminId : ℕ) (reason : Option String) :
    World :=
  match w.decided id target adminId reason with
  | some row => w.updatePayout id fun _ ↦ row
  | none => w

/-- The sweep's list. -/
def staleNonTerminal (graceMs : ℕ) : List PayoutRow :=
  let stale := w.payouts.filter fun row ↦
    isOpen row && row.approvalState ≠ .pendingApproval && row.updatedAt + graceMs < w.now
  (stale.insertionSort (·.updatedAt ≤ ·.updatedAt)).take 200

def postResult (legs : List (LedgerLeg LedgerKey)) (pre : Balances → Except LedgerError Unit) :
    Except LedgerError PostResult × Ledger LedgerKey :=
  (LedgerService.post legs pre).transact w.ledger

def post (legs : List (LedgerLeg LedgerKey)) (pre : Balances → Except LedgerError Unit) : World :=
  { w with ledger := (w.postResult legs pre).2 }

end World

end Towing.Payouts
