import Towing.Process.ReadCommitted
import Towing.Trips.Steps

namespace Towing.Trips

open Towing.Process Towing.Money Towing.Db

inductive BookingActor
  | customer
  | driver
  | fleetOwner
  | admin
  | system
  deriving DecidableEq, Repr

/-- A row of `booking_status_history`. `createdAt` is the column's default, the time
the transaction that inserts the row began. -/
structure HistoryLine where
  bookingId : ℕ
  status : BookingStatus
  actor : BookingActor
  actorId : Option ℕ
  note : Option String
  createdAt : ℕ
  deriving DecidableEq, Repr

inductive AnalyticsEventName
  | bookingCompleted
  | paymentSuccess
  | bookingCancelled
  deriving DecidableEq, Repr

/-- A row of `analytics_events`; `source` is the one property it carries. -/
structure AnalyticsEvent where
  name : AnalyticsEventName
  bookingId : ℕ
  source : BookingStatus
  deriving DecidableEq, Repr

structure TransitionParams where
  bookingId : ℕ
  target : BookingStatus
  actor : BookingActor
  actorId : Option ℕ := none
  note : Option String := none
  patch : Row → Row := id

structure TransitionResult where
  id : ℕ
  source : BookingStatus
  target : BookingStatus
  fleetId : Option ℕ
  zoneId : Option ℕ
  driverId : Option ℕ
  userId : ℕ
  deriving DecidableEq, Repr

/-- The tables with the two that only the state machine and `create` write, oldest
row first. -/
structure Recorded where
  world : World
  history : List HistoryLine
  events : List AnalyticsEvent

/-- A statement on these tables, as it stands in a transaction of its own or of a caller. -/
inductive MachineStatement
  | selectForUpdate (b : ℕ)
  | selectCaptured (b : ℕ)
  | selectCredit (b : ℕ)
  | updateBooking (b : ℕ) (source target : BookingStatus) (patch : Row → Row)
  | insertHistory (line : HistoryLine)
  | trackEvent (event : AnalyticsEvent)
  | insertBooking (b : ℕ) (row : Row)
  | updateColumns (b : ℕ) (patch : Row → Row)
  | select
  | writeMoney (payments : List PaymentRow) (ledger : Ledger LedgerKey)

/-- The row under a `set` that names its status. -/
def Row.withStatus (r : Row) (status : BookingStatus) : Row :=
  { r with booking := { r.booking with status := status } }

namespace Recorded

variable (T : Recorded)

def row (b : ℕ) : Option Row := T.world.row b

def status (b : ℕ) : Option BookingStatus := (T.row b).map (·.booking.status)

def setRow (b : ℕ) (r : Row) : Recorded := { T with world := T.world.setRow b r }

def writeMoney (payments : List PaymentRow) (ledger : Ledger LedgerKey) : Recorded :=
  { T with world := { T.world with
      money := { T.world.money with payments := payments, ledger := ledger } } }

def linesOf (b : ℕ) : List HistoryLine := T.history.filter (·.bookingId = b)

def eventsOf (b : ℕ) : List AnalyticsEvent := T.events.filter (·.bookingId = b)

def captured (b : ℕ) : Bool := (T.world.money.capturedFor b .booking).isSome

def credited (b : ℕ) : Bool := T.world.money.ledger.transactions.any fun t ↦
  t.refId = some (.booking b) && isSettlementCredit t.type

end Recorded

instance : Store MachineStatement Recorded where
  commit
    | .selectForUpdate _, T | .selectCaptured _, T | .selectCredit _, T | .select, T => T
    | .updateBooking b source target patch, T =>
      match T.row b with
      | some r =>
        if r.booking.status = source then T.setRow b ((patch r).withStatus target) else T
      | none => T
    | .insertHistory line, T => { T with history := T.history ++ [line] }
    | .trackEvent event, T => { T with events := T.events ++ [event] }
    | .insertBooking b row, T => if (T.row b).isNone then T.setRow b row else T
    | .updateColumns b patch, T =>
      match T.row b with
      | some r => T.setRow b ((patch r).withStatus r.booking.status)
      | none => T
    | .writeMoney payments ledger, T => T.writeMoney payments ledger

abbrev MachineProc (α : Type) := Proc MachineStatement Recorded Failure α

namespace BookingStateMachineService

def wasSettled (bookingId : ℕ) : MachineProc Bool := do
  let payment ← Proc.query (.selectCaptured bookingId) (·.captured bookingId)
  if payment then Proc.query (.selectCredit bookingId) (·.credited bookingId) else return false

def illegal (source target : BookingStatus) : Failure :=
  .api (.conflict ("A booking cannot go from " ++ source.label ++ " to " ++ target.label)
    [("from", source.label), ("to", target.label),
      ("allowed", String.intercalate "," ((legalTransitions source).map (·.label)))])

def notSettled (source target : BookingStatus) : Failure :=
  .api ⟨409, "dispute_not_settled",
    "Only a dispute opened from a paid booking can resolve back to paid: " ++
      "no captured payment and settlement legs were found for this booking",
    [("from", source.label), ("to", target.label)]⟩

/-- The tracker's event for a step, if the step has one. -/
def tracked (source target : BookingStatus) : Option AnalyticsEventName :=
  if target = .completed then some .bookingCompleted
  else if target = .cancelled then some .bookingCancelled
  else if target = .paid ∧ source = .completed then some .paymentSuccess
  else none

/-- A9: a dispute resolves to `paid` only if the booking settled before it. -/
def checkSettled (bookingId : ℕ) (source target : BookingStatus) : MachineProc Unit :=
  Proc.when (source = .disputed ∧ target = .paid) do
    let settled ← wasSettled bookingId
    if settled then return else throw (notSettled source target)

/-- The guarded update with the rows that record it. -/
def write (startedAt : ℕ) (p : TransitionParams) (source : BookingStatus) : MachineProc Unit := do
  let updated ← Proc.query (.updateBooking p.bookingId source p.target p.patch) fun T ↦
    decide (T.status p.bookingId = some source)
  if updated then do
    Proc.write (.insertHistory ⟨p.bookingId, p.target, p.actor, p.actorId, p.note, startedAt⟩)
    match tracked source p.target with
    | some name => Proc.write (.trackEvent ⟨name, p.bookingId, source⟩)
    | none => return
  else throw (.api (.conflict "The booking changed while this request was in flight" []))

/-- `transition`, in a transaction that began at `startedAt`. -/
def transition (startedAt : ℕ) (p : TransitionParams) : MachineProc TransitionResult := do
  let current ← Proc.query (.selectForUpdate p.bookingId) (·.row p.bookingId)
  match current with
  | none => throw (.api (.notFound "Booking not found"))
  | some r =>
    let source := r.booking.status
    if isLegal source p.target then do
      checkSettled p.bookingId source p.target
      write startedAt p source
      return ⟨p.bookingId, source, p.target, r.booking.fleetId, r.trip.zoneId, r.booking.driverId,
        r.booking.userId⟩
    else throw (illegal source p.target)

end BookingStateMachineService

/-- The rows that `create` inserts: the booking, its price in a second statement, and
the first line of its history. -/
def insertSearching (startedAt b : ℕ) (row : Row) (priced : Row → Row) (note : Option String) :
    MachineProc Unit := do
  let fresh ← Proc.query (.insertBooking b (row.withStatus .searching)) fun T ↦ (T.row b).isNone
  if fresh then do
    Proc.write (.updateColumns b priced)
    Proc.write (.insertHistory ⟨b, .searching, .customer, none, note, startedAt⟩)
  else throw (.uniqueViolation "bookings_pkey")

/-- What a transaction that calls the state machine does. It may catch what a call
throws, reads what it likes, and writes the other columns of `bookings` itself. -/
inductive Script
  | finish (r : Except Failure Unit)
  | transition (params : TransitionParams) (next : Except Failure TransitionResult → Script)
  | create (b : ℕ) (row : Row) (priced : Row → Row) (note : Option String)
      (next : Except Failure Unit → Script)
  | columns (b : ℕ) (patch : Row → Row) (next : Script)
  | read (next : Recorded → Script)

def Script.proc (startedAt : ℕ) : Script → MachineProc Unit
  | .finish r => .done r
  | .transition params next =>
    (BookingStateMachineService.transition startedAt params).follow fun r ↦
      (next r).proc startedAt
  | .create b row priced note next =>
    (insertSearching startedAt b row priced note).follow fun r ↦ (next r).proc startedAt
  | .columns b patch next => .step (.updateColumns b patch) fun _ ↦ next.proc startedAt
  | .read next => .step .select fun T ↦ (next T).proc startedAt

/-- A transaction: one that began at `startedAt` and moves bookings, or one that
leaves payments and the ledger as given. -/
inductive MachineCall
  | script (startedAt : ℕ) (s : Script)
  | money (payments : List PaymentRow) (ledger : Ledger LedgerKey)

def MachineCall.body : MachineCall → MachineProc Unit
  | .script startedAt s => s.proc startedAt
  | .money payments ledger => Proc.write (.writeMoney payments ledger)

end Towing.Trips
