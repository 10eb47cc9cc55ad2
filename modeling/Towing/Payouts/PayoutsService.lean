import Towing.Payouts.Tables

namespace Towing.Payouts

open Towing.Db Towing.Process

/-- What the deployment fixes. -/
structure Env where
  payoutMinPaise : ℤ
  payoutMaxPaise : ℤ
  min_pos : 0 < payoutMinPaise
  stuckMs : ℕ
  razorpayTimeoutMs : ℕ
  sha256 : String → String
  /-- `toLocaleString('en-IN')` of an amount in paise. -/
  enIN : ℤ → String

def sampleEnv : Env where
  payoutMinPaise := 100000
  payoutMaxPaise := 50000000
  min_pos := by decide
  stuckMs := 15 * 60000
  razorpayTimeoutMs := 10000
  sha256 s := s
  enIN n := toString (n / 100)

/-- The statements and vendor calls that write nothing here. -/
inductive Select
  | clock
  | activeDestination (owner : WalletOwner)
  | autoApproveMaxPaise
  | byId (id : ℕ)
  | byIdempotencyKey (key : PayoutKey)
  | byProviderRefOrId (providerRef payoutId : Option ℕ)
  | staleNonTerminal
  | fetchPayout (providerRef : ℕ)
  | verifyWebhook (e : PayoutWebhookEvent)
  deriving DecidableEq, Repr

/-- Legs of everything else that writes the ledger. -/
def Foreign (legs : List (LedgerLeg LedgerKey)) : Prop :=
  ∀ leg ∈ legs, (∀ id, leg.idempotencyKey ≠ .payoutDebit id ∧ leg.idempotencyKey ≠ .payoutReversal id) ∧
    ∀ id, leg.refId ≠ some (.payout id)

/-- Everything that is committed at once. The cause of a payout's end only says why. -/
inductive Step
  | select (q : Select)
  | create (p : NewPayout)
  | hold (id : ℕ) (owner : WalletOwner) (amountPaise : ℤ)
  | transitionToTerminal (id : ℕ) (target : PayoutStatus) (providerRef : Option ℕ)
      (failureReason : Option String) (cause : Cause)
  | reverse (row : PayoutRow)
  | markProcessing (id providerRef : ℕ)
  | decideApproval (id : ℕ) (target : PayoutApprovalState) (adminId : ℕ) (reason : Option String)
  | createPayout (params : CreatePayoutParams)
  | insertWebhookEvent (eventId : String)
  | post (legs : { legs : List (LedgerLeg LedgerKey) // Foreign legs })
  | link (owner : WalletOwner) (destination : Option String)
  | setAutoApproveMax (paise : ℤ)
  | tick (ms : ℕ)
  | vendorMood (mood : Mood)
  | vendorSettle (ref : ℕ) (status : HandleStatus) (failureReason : Option String)

namespace World

variable (w : World)

def run : Step → World
  | .select _ => w
  | .create p => w.create p
  | .hold id owner amount => w.post (debitLegs id owner amount) (balanceCovers owner amount)
  | .transitionToTerminal id target ref reason _ => w.transitionToTerminal id target ref reason
  | .reverse row => w.post (reversalLegs row) fun _ ↦ .ok ()
  | .markProcessing id ref => w.markProcessing id ref
  | .decideApproval id target adminId reason => w.decideApproval id target adminId reason
  | .createPayout params => { w with vendor := w.vendor.accept params }
  | .insertWebhookEvent eventId =>
    if eventId ∈ w.webhookEvents then w else { w with webhookEvents := w.webhookEvents ++ [eventId] }
  | .post legs => w.post legs.1 fun _ ↦ .ok ()
  | .link owner destination =>
    { w with destinations := Function.update w.destinations owner destination }
  | .setAutoApproveMax paise => { w with autoApproveMaxPaise := paise }
  | .tick ms => { w with now := w.now + ms }
  | .vendorMood mood => { w with vendor := { w.vendor with mood := mood } }
  | .vendorSettle ref status reason => { w with vendor := w.vendor.settle ref status reason }

end World

instance : Store Step World where
  commit l w := w.run l

abbrev Request (α : Type) := Proc Step World Thrown α

def select {α : Type} (q : Select) (f : World → α) : Request α := Proc.query (.select q) f

def api (status : ℕ) (code message : String) (details : List (String × String)) : Thrown :=
  .api ⟨status, code, message, details⟩

namespace World

variable (w : World)

def holdResult (id : ℕ) (owner : WalletOwner) (amountPaise : ℤ) : Except Thrown Unit :=
  match (w.postResult (debitLegs id owner amountPaise) (balanceCovers owner amountPaise)).1 with
  | .ok _ => .ok ()
  | .error e =>
    if e = .error insufficientBalance then
      .error (api 422 "insufficient_balance" insufficientBalance
        [("availablePaise", toString (w.ledger.balanceOf owner)),
          ("requestedPaise", toString amountPaise)])
    else .error (.ledger e)

def reverseResult (row : PayoutRow) : Except Thrown Unit :=
  match (w.postResult (reversalLegs row) fun _ ↦ .ok ()).1 with
  | .ok _ => .ok ()
  | .error e => .error (.ledger e)

end World

namespace PayoutsRepo

def byId (id : ℕ) : Request (Option PayoutRow) := select (.byId id) fun w ↦ w.payout id

def byIdempotencyKey (key : PayoutKey) : Request (Option PayoutRow) :=
  select (.byIdempotencyKey key) fun w ↦ w.byIdempotencyKey key

def create (p : NewPayout) : Request PayoutRow := Proc.attempt (.create p) fun w ↦ w.insertPayout p

def transitionToTerminal (id : ℕ) (target : PayoutStatus) (providerRef : Option ℕ)
    (failureReason : Option String) (cause : Cause) : Request (Option PayoutRow) :=
  Proc.attempt (.transitionToTerminal id target providerRef failureReason cause) fun w ↦
    w.terminal id target providerRef failureReason

def markProcessing (id providerRef : ℕ) : Request Unit :=
  Proc.attempt (.markProcessing id providerRef) fun w ↦
    match w.processingError id providerRef with
    | some e => .error e
    | none => .ok ()

def decideApproval (id : ℕ) (target : PayoutApprovalState) (adminId : ℕ) (reason : Option String) :
    Request (Option PayoutRow) :=
  Proc.query (.decideApproval id target adminId reason) fun w ↦ w.decided id target adminId reason

end PayoutsRepo

open PayoutsRepo

namespace PayoutsService

/-- The owner's money is taken out of the wallet, if it is there. -/
def hold (id : ℕ) (owner : WalletOwner) (amountPaise : ℤ) : Request Unit :=
  Proc.attempt (.hold id owner amountPaise) fun w ↦ w.holdResult id owner amountPaise

/-- The money of a failed payout is returned. -/
def reverse (row : PayoutRow) : Request Unit :=
  Proc.attempt (.reverse row) fun w ↦ w.reverseResult row

def markPaid (id : ℕ) (providerRef : Option ℕ) (cause : Cause) : Request Unit := do
  let _ ← transitionToTerminal id .paid providerRef none cause
  pure ()

def markFailed (id : ℕ) (reason : String) (cause : Cause) : Request Unit := do
  match ← transitionToTerminal id .failed none (some reason) cause with
  | none => pure ()
  | some row => reverse row

def holdFailure : Thrown → String
  | .api e => e.message
  | _ => "Could not reserve funds"

structure Created where
  row : PayoutRow
  replayed : Bool

/-- The new row, or the one its key already made. -/
def createRow (p : NewPayout) : Request Created :=
  tryCatch (do
      let row ← create p
      pure ⟨row, false⟩) fun e ↦
    match e with
    | .uniqueViolation constraint =>
      if constraint = "uq_payouts_one_open_per_owner" then
        throw (api 409 "payout_already_pending"
          "A payout is already in progress. Wait for it to settle before requesting another." [])
      else do
        match ← byIdempotencyKey p.idempotencyKey with
        | some existing => pure ⟨existing, true⟩
        | none => throw e
    | _ => throw e

/-- The row and the hold, each in its own transaction. A row whose hold failed must
not stay open. -/
def createWithHold (p : NewPayout) : Request Created := do
  let created ← createRow p
  if created.replayed then pure created
  else do
    tryCatch (hold created.row.id p.owner p.amount) fun e ↦ do
      let _ ← transitionToTerminal created.row.id .failed none (some (holdFailure e)) .hold
      throw e
    pure created

def reread (row : PayoutRow) : Request PayoutRow := do
  let after ← byId row.id
  pure (after.getD row)

def createPayout (env : Env) (params : CreatePayoutParams) : Request PayoutHandle :=
  Proc.attempt (.createPayout params) fun w ↦ w.vendor.answer env.razorpayTimeoutMs params

/-- The vendor call and its outcomes. -/
def submit (env : Env) (row : PayoutRow) (destinationRef : String) (storedKey : PayoutKey) :
    Request PayoutRow :=
  tryCatch (do
      let handle ← createPayout env ⟨row.id, row.amount, destinationRef, storedKey⟩
      if handle.status = .failed then
        markFailed row.id (handle.failureReason.getD "Provider rejected the payout") .answered
        reread row
      else do
        markProcessing row.id handle.providerRef
        reread row) fun e ↦
    if e.isTimeout then pure row
    else do
      markFailed row.id e.message .error
      reread row

def destination (owner : WalletOwner) : Request String := do
  match ← select (.activeDestination owner) fun w ↦ w.destinations owner with
  | none =>
    throw (api 409 "payout_account_not_linked" "Link a bank account before requesting a payout" [])
  | some ref => pure ref

def request (env : Env) (owner : WalletOwner) (amountPaise : ℤ) (clientKey : String) :
    Request PayoutRow :=
  if amountPaise < env.payoutMinPaise then
    throw (api 422 "payout_below_minimum" ("The minimum payout is ₹" ++ env.enIN env.payoutMinPaise)
      [("minPaise", toString env.payoutMinPaise)])
  else if env.payoutMaxPaise < amountPaise then
    throw (api 422 "payout_above_maximum" ("The maximum payout is ₹" ++ env.enIN env.payoutMaxPaise)
      [("maxPaise", toString env.payoutMaxPaise)])
  else do
    let destinationRef ← destination owner
    let storedKey : PayoutKey := ⟨owner, env.sha256 clientKey⟩
    let thresholdPaise ← select .autoApproveMaxPaise (·.autoApproveMaxPaise)
    let approvalState : PayoutApprovalState :=
      if amountPaise ≤ thresholdPaise then .autoApproved else .pendingApproval
    let payout ← createWithHold ⟨owner, amountPaise, storedKey, approvalState⟩
    if payout.replayed then pure payout.row
    else if approvalState = .pendingApproval then pure payout.row
    else submit env payout.row destinationRef storedKey

def submitApproved (env : Env) (row : PayoutRow) : Request PayoutRow := do
  let destinationRef ← destination row.owner
  submit env row destinationRef row.idempotencyKey

end PayoutsService

open PayoutsService

namespace AdminFinanceService

def alreadyDecided (state : Option PayoutApprovalState) : Thrown :=
  api 409 "payout_already_decided" "This payout has already been decided"
    [("approvalState", (state.map (·.label)).getD "null")]

def approve (env : Env) (adminId payoutId : ℕ) : Request PayoutRow := do
  let before ← byId payoutId
  match ← decideApproval payoutId .approved adminId none with
  | none => throw (alreadyDecided (before.map (·.approvalState)))
  | some row => submitApproved env row

def reject (adminId payoutId : ℕ) (reason : String) : Request PayoutApprovalState := do
  let before ← byId payoutId
  match ← decideApproval payoutId .rejected adminId (some reason) with
  | none => throw (alreadyDecided (before.map (·.approvalState)))
  | some _ => do
    markFailed payoutId ("Rejected by Finance: " ++ reason) .rejected
    let after ← byId payoutId
    pure ((after.map (·.approvalState)).getD .rejected)

end AdminFinanceService

namespace PayoutReconcileService

def graceMs : ℕ := 2 * 60000

/-- What the vendor says of one payout. An error leaves it for the next pass. -/
def poll (env : Env) (payout : PayoutRow) (ref : ℕ) : Request Unit :=
  tryCatch (do
      let handle ← Proc.attempt (.select (.fetchPayout ref)) fun w : World ↦
        w.vendor.fetchPayout env.razorpayTimeoutMs ref
      match handle.status with
      | .paid => markPaid payout.id (some handle.providerRef) .polled
      | .failed =>
        markFailed payout.id (handle.failureReason.getD "Provider reported a failure") .polled
      | .processing => pure ()) fun _ ↦ pure ()

/-- One payout of the list, as it was when the list was read. -/
def reconcileOne (env : Env) (payout : PayoutRow) : Request Unit :=
  match payout.routeRef with
  | none => do
    let now ← select .clock (·.now)
    Proc.when (payout.requestedAt + env.stuckMs ≤ now)
      (markFailed payout.id "Provider never acknowledged the payout" .neverAcknowledged)
  | some ref => poll env payout ref

def reconcileAll (env : Env) : List PayoutRow → Request Unit
  | [] => pure ()
  | payout :: rest => do
    reconcileOne env payout
    reconcileAll env rest

def reconcile (env : Env) : Request Unit := do
  let stale ← select .staleNonTerminal fun w ↦ w.staleNonTerminal graceMs
  reconcileAll env stale

end PayoutReconcileService

namespace WebhooksController

def apply (e : PayoutWebhookEvent) : Request Unit := do
  let payout ← select (.byProviderRefOrId e.providerRef e.payoutId) fun w ↦
    w.byProviderRefOrId e.providerRef e.payoutId
  match payout with
  | none =>
    throw (.error "Error" ("no payout matches ref=" ++ ((e.providerRef.map toString).getD "null") ++
      " id=" ++ ((e.payoutId.map toString).getD "null")))
  | some row =>
    match e.status with
    | .paid => markPaid row.id e.providerRef .webhook
    | .failed => markFailed row.id (e.failureReason.getD "Provider reported a failure") .webhook
    | _ => pure ()

/-- Verified, recorded once, applied, and acknowledged whatever comes of it. -/
def razorpay (e : PayoutWebhookEvent) : Request Unit := do
  let valid ← select (.verifyWebhook e) fun w ↦ w.vendor.verifyWebhook e
  Proc.when (!valid)
    (throw (api 401 "invalid_signature" "Webhook signature verification failed" []))
  let inserted ← Proc.query (.insertWebhookEvent e.eventId) fun w ↦
    decide (e.eventId ∉ w.webhookEvents)
  Proc.when inserted (tryCatch (apply e) fun _ ↦ pure ())

end WebhooksController

/-- What happens beside the payouts' own requests: money comes and goes, accounts are
linked, Finance sets its threshold, time passes, and the vendor goes its way. -/
inductive Step.Ambient : Step → Prop
  | post (legs : { legs : List (LedgerLeg LedgerKey) // Foreign legs }) : Step.Ambient (.post legs)
  | link (owner : WalletOwner) (destination : Option String) : Step.Ambient (.link owner destination)
  | setAutoApproveMax (paise : ℤ) : Step.Ambient (.setAutoApproveMax paise)
  | tick (ms : ℕ) : Step.Ambient (.tick ms)
  | vendorMood (mood : Mood) : Step.Ambient (.vendorMood mood)
  | vendorSettle (ref : ℕ) (status : HandleStatus) (failureReason : Option String) :
      Step.Ambient (.vendorSettle ref status failureReason)

/-- Everything that asks for, decides, sends and follows up a payout. -/
inductive Acts (env : Env) : Request Unit → Prop
  | request (owner : WalletOwner) (amountPaise : ℤ) (clientKey : String) :
      Acts env (request env owner amountPaise clientKey).ignore
  | approve (adminId payoutId : ℕ) : Acts env (AdminFinanceService.approve env adminId payoutId).ignore
  | reject (adminId payoutId : ℕ) (reason : String) :
      Acts env (AdminFinanceService.reject adminId payoutId reason).ignore
  | webhook (e : PayoutWebhookEvent) : Acts env (WebhooksController.razorpay e)
  | reconcile : Acts env (PayoutReconcileService.reconcile env)
  | ambient (l : Step) (h : l.Ambient) : Acts env (Proc.write l)

end Towing.Payouts
