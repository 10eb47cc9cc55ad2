import Towing.Process.Moments
import Mathlib.Data.Int.Notation
import Mathlib.Logic.Function.Basic

namespace Towing.Invoices

open Towing.Process

/-- What a trip costs, as the columns of its booking have it, in paise. -/
structure Fare where
  baseFare : ℤ
  distanceCharge : ℤ
  nightCharge : ℤ
  highwayCharge : ℤ
  accidentCharge : ℤ
  waitingCharge : ℤ
  surgeAmount : ℤ
  discount : ℤ
  taxAmount : ℤ
  total : ℤ
  deriving DecidableEq, Repr

structure Booking where
  userId : ℕ
  paid : Bool
  fare : Fare
  invoiceKey : Option ℕ := none
  deriving DecidableEq, Repr

/-- The money of a document; the names and addresses on it are not computed with. -/
structure InvoiceData where
  lines : List (String × ℤ)
  discountPaise : ℤ
  taxPaise : ℤ
  totalPaise : ℤ
  deriving DecidableEq, Repr

def Fare.invoice (fare : Fare) : InvoiceData where
  lines := [("Base fare", fare.baseFare), ("Distance", fare.distanceCharge), ("Night charge", fare.nightCharge),
    ("Highway pickup", fare.highwayCharge), ("Accident recovery", fare.accidentCharge),
    ("Waiting", fare.waitingCharge), ("Surge", fare.surgeAmount)]
  discountPaise := fare.discount
  taxPaise := fare.taxAmount
  totalPaise := fare.total

/-- Who a document is handed to. -/
inductive Viewer
  | customer (userId : ℕ)
  | admin
  | email
  deriving DecidableEq, Repr

/-- An object of the storage is known by its place, and lies in the folder of a booking. -/
structure World where
  bookings : ℕ → Option Booking
  documents : List (ℕ × InvoiceData)

/-- `serve` hands out an object, its bytes or a link to it. -/
inductive Step
  | look
  | put (bookingId : ℕ) (data : InvoiceData)
  | record (bookingId key : ℕ)
  | serve (bookingId key : ℕ) (viewer : Viewer)
  | book (bookingId userId : ℕ) (fare : Fare)
  | reprice (bookingId : ℕ) (fare : Fare)
  | setPaid (bookingId : ℕ) (paid : Bool)
  deriving DecidableEq

def World.set (w : World) (bookingId : ℕ) (f : Booking → Booking) : World :=
  { w with bookings := Function.update w.bookings bookingId ((w.bookings bookingId).map f) }

def World.run (w : World) : Step → World
  | .look | .serve _ _ _ => w
  | .put bookingId data => { w with documents := w.documents ++ [(bookingId, data)] }
  | .record bookingId key => w.set bookingId fun b ↦ { b with invoiceKey := b.invoiceKey.or (some key) }
  | .book bookingId userId fare =>
    let booking := (w.bookings bookingId).getD { userId, paid := false, fare }
    { w with bookings := Function.update w.bookings bookingId (some booking) }
  | .reprice bookingId fare => w.set bookingId fun b ↦ { b with fare }
  | .setPaid bookingId paid => w.set bookingId fun b ↦ { b with paid }

instance : Store Step World := ⟨fun l w ↦ w.run l⟩

abbrev Request := Proc Step World String

namespace InvoiceService

def find (bookingId : ℕ) : Request Booking :=
  Proc.attempt .look fun w ↦
    match w.bookings bookingId with
    | none => .error "Booking not found"
    | some booking => .ok booking

/-- The key is recorded where there is none, and who comes second serves the other's. -/
def recording (bookingId key : ℕ) : Request ℕ := do
  let updated ← Proc.query (.record bookingId key) fun w ↦ (w.bookings bookingId).any (·.invoiceKey.isNone)
  if updated then pure key
  else
    let row ← find bookingId
    match row.invoiceKey with
    | none => throw "no invoice key"
    | some key => pure key

def ensure (bookingId : ℕ) : Request ℕ := do
  let existing ← find bookingId
  match existing.invoiceKey with
  | some key => pure key
  | none =>
    let row ← find bookingId
    let key ← Proc.query (.put bookingId row.fare.invoice) (·.documents.length)
    recording bookingId key

def serving (bookingId : ℕ) (viewer : Viewer) : Request Unit := do
  let key ← ensure bookingId
  Proc.write (.serve bookingId key viewer)

def bytes (bookingId : ℕ) : Request Unit := serving bookingId .email

def link (bookingId userId : ℕ) : Request Unit := do
  let row ← find bookingId
  if row.userId ≠ userId then throw "Booking not found"
  else if row.paid then serving bookingId (.customer userId)
  else throw "An invoice is available once the trip is paid for"

def adminLink (bookingId : ℕ) : Request Unit := do
  let row ← find bookingId
  if row.paid || row.invoiceKey.isSome then serving bookingId .admin
  else throw "An invoice is available once the trip is paid for"

end InvoiceService

open InvoiceService

/-- The workers, customers, admins and emails that want an invoice, while trips are booked, priced and paid. -/
inductive Asks : Request Unit → Prop
  | generate (bookingId : ℕ) : Asks (ensure bookingId).ignore
  | bytes (bookingId : ℕ) : Asks (bytes bookingId)
  | link (bookingId userId : ℕ) : Asks (link bookingId userId)
  | adminLink (bookingId : ℕ) : Asks (adminLink bookingId)
  | book (bookingId userId : ℕ) (fare : Fare) : Asks (Proc.write (.book bookingId userId fare))
  | reprice (bookingId : ℕ) (fare : Fare) : Asks (Proc.write (.reprice bookingId fare))
  | setPaid (bookingId : ℕ) (paid : Bool) : Asks (Proc.write (.setPaid bookingId paid))

end Towing.Invoices
