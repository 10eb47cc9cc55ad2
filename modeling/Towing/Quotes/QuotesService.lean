import Towing.Money.Settlement
import Towing.Process.Calls

namespace Towing.Quotes

open Towing.Arith Towing.Money Towing.Process

inductive QuoteStatus
  | requested
  | quoted
  | accepted
  | rejected
  | expired
  deriving DecidableEq, Repr

def QuoteStatus.label : QuoteStatus → String
  | requested => "requested"
  | quoted => "quoted"
  | accepted => "accepted"
  | rejected => "rejected"
  | expired => "expired"

/-- A row of `quotes`; instants are in milliseconds. -/
structure QuoteRow where
  status : QuoteStatus := .requested
  totalPaise : Option ℕ := none
  commissionPct : Option Pct := none
  commissionPaise : Option ℤ := none
  driverPayoutPaise : Option ℤ := none
  validUntil : Option ℤ := none
  rejectionReason : Option String := none
  decidedAt : Option ℤ := none
  bookingId : Option ℕ := none
  deriving DecidableEq, Repr

/-- What a booking of the manual lane is created with. -/
structure ManualBooking where
  totalPaise : ℤ
  taxPaise : ℤ
  commissionPct : Pct
  deriving DecidableEq, Repr

/-- What becomes of `BookingsService.create`: it throws before it commits, it commits and comes
back, or it commits and the call fails all the same. -/
inductive Creation
  | refused (message : String)
  | created
  | lost (message : String)
  deriving DecidableEq, Repr

/-- One quote, the bookings created from it in their order, and the rates in force. -/
structure World where
  row : QuoteRow
  bookings : List ManualBooking
  taxPct : Pct
  commissionPctC : Pct
  now : ℤ
  deriving DecidableEq, Repr

/-- `claim` and `create` name the row that the call has read. -/
inductive Step
  | look
  | lapse
  | claim (read : QuoteRow)
  | create (read : QuoteRow) (taxPct : Pct) (creation : Creation)
  | link (bookingId : ℕ)
  | putBack
  | price (totalPaise : ℕ) (commissionPct : Pct) (validUntil : ℤ)
  | reject (reason : String)
  | expire
  | configure (taxPct commissionPctC : Pct)
  | tick (ms : ℕ)
  deriving DecidableEq, Repr

/-- The tax on top of the quoted total. -/
def taxOf (totalPaise : ℕ) (taxPct : Pct) : ℤ := percentOf totalPaise taxPct.number

/-- `lockManualQuote` and the insert: the quoted total is the base fare, taxed at the rate in force. -/
def QuoteRow.booking (read : QuoteRow) (taxPct : Pct) : ManualBooking where
  totalPaise := (read.totalPaise.getD 0 : ℕ) + taxOf (read.totalPaise.getD 0) taxPct
  taxPaise := taxOf (read.totalPaise.getD 0) taxPct
  commissionPct := read.commissionPct.getD 0

def World.run (w : World) : Step → World
  | .look => w
  | .lapse =>
    if w.row.status = .quoted then { w with row := { w.row with status := .expired, decidedAt := some w.now } }
    else w
  | .claim _ =>
    if w.row.status = .quoted then { w with row := { w.row with status := .accepted, decidedAt := some w.now } }
    else w
  | .create read taxPct _ => { w with bookings := w.bookings ++ [read.booking taxPct] }
  | .link bookingId => { w with row := { w.row with bookingId := some bookingId } }
  | .putBack => { w with row := { w.row with status := .quoted, decidedAt := none } }
  | .price totalPaise commissionPct validUntil =>
    let commissionPaise := commissionPaiseAtPct totalPaise commissionPct
    { w with row := { w.row with
        status := .quoted
        totalPaise := some totalPaise
        commissionPct := some commissionPct
        commissionPaise := some commissionPaise
        driverPayoutPaise := some (totalPaise - commissionPaise)
        validUntil := some validUntil
        rejectionReason := none } }
  | .reject reason =>
    { w with row := { w.row with status := .rejected, rejectionReason := some reason, decidedAt := some w.now } }
  | .expire => { w with row := { w.row with status := .expired, decidedAt := some w.now } }
  | .configure taxPct commissionPctC => { w with taxPct, commissionPctC }
  | .tick ms => { w with now := w.now + ms }

instance : Store Step World := ⟨fun l w ↦ w.run l⟩

abbrev Request := Proc Step World String

namespace QuotesService

/-- The catch of `accept`: the offer is put back, whatever the row says. -/
def undoing (message : String) : Request Unit := do
  Proc.write .putBack
  throw message

def linking (bookingId : ℕ) : Request Unit := Proc.write (.link bookingId)

def inserting (read : QuoteRow) (taxPct : Pct) (creation : Creation) : Request Unit := do
  let bookingId ← Proc.query (.create read taxPct creation) (·.bookings.length)
  match creation with
  | .lost message => undoing message
  | _ => linking bookingId

/-- What follows the claim. -/
def booking (read : QuoteRow) (creation : Creation) : Request Unit := do
  let taxPct ← Proc.query .look (·.taxPct)
  match creation with
  | .refused message => undoing message
  | _ => inserting read taxPct creation

/-- How an offer that is not open is refused. -/
def refusal (read : QuoteRow) : String :=
  if read.status = .requested ∧ read.validUntil = none then "This request has not been quoted yet"
  else "This quote cannot be accepted (it is " ++ read.status.label ++ ")"

def accept (creation : Creation) : Request Unit := do
  let read ← Proc.query .look (·.row)
  if read.status ≠ .quoted then throw (refusal read)
  else
    let now ← Proc.query .look (·.now)
    if read.validUntil.any (· ≤ now) then
      Proc.write .lapse
      throw "This quote has expired — request a new one"
    else
      let claimed ← Proc.query (.claim read) fun w ↦ decide (w.row.status = .quoted)
      if claimed then booking read creation else throw "This quote was already accepted"

def requireStatus : Request Unit :=
  Proc.attempt .look fun w ↦
    if w.row.status = .requested ∨ w.row.status = .quoted then .ok ()
    else .error ("This quote is " ++ w.row.status.label ++ "; that action needs one of requested, quoted")

def quotePrice (totalPaise : ℕ) (validHours : ℤ) : Request Unit := do
  requireStatus
  let commissionPct ← Proc.query .look (·.commissionPctC)
  let now ← Proc.query .look (·.now)
  Proc.write (.price totalPaise commissionPct (now + validHours * 3_600_000))

def reject (reason : String) : Request Unit := do
  requireStatus
  Proc.write (.reject reason)

def expire : Request Unit := do
  requireStatus
  Proc.write .expire

end QuotesService

/-- What the customer and the admins ask of one quote, while rates and time change. -/
inductive Handles : Request Unit → Prop
  | accept (creation : Creation) : Handles (QuotesService.accept creation)
  | quotePrice (totalPaise : ℕ) (validHours : ℤ) : Handles (QuotesService.quotePrice totalPaise validHours)
  | reject (reason : String) : Handles (QuotesService.reject reason)
  | expire : Handles QuotesService.expire
  | configure (taxPct commissionPctC : Pct) : Handles (Proc.write (.configure taxPct commissionPctC))
  | tick (ms : ℕ) : Handles (Proc.write (.tick ms))

/-- A request that nobody has priced. -/
def World.requested (taxPct commissionPctC : Pct) (now : ℤ) : World := ⟨{}, [], taxPct, commissionPctC, now⟩

end Towing.Quotes
