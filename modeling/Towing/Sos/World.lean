import Towing.Process.Moments
import Mathlib.Data.Rat.Defs

namespace Towing.Sos

open Towing.Process

inductive SosSubjectType
  | user
  | driver
deriving DecidableEq

/-- Who an alert is about. -/
structure SosRequester where
  subjectType : SosSubjectType
  subjectId : ℕ
deriving DecidableEq

inductive SosStatus
  | triggered
  | acknowledged
  | resolved
  | cancelled
deriving DecidableEq

/-- What the index on open alerts counts. -/
def SosStatus.isOpen : SosStatus → Bool
  | .triggered | .acknowledged => true
  | .resolved | .cancelled => false

inductive SosSource
  | app
  | ops
deriving DecidableEq

structure Fix where
  lat : ℚ
  lng : ℚ
  accuracyM : Option ℚ

/-- A row of `sos_alerts`; it is known by its place. -/
structure Alert where
  subject : SosRequester
  bookingId : Option ℕ
  fix : Fix
  source : SosSource
  status : SosStatus
  acknowledgedBy : Option ℕ
  acknowledgedAt : Option ℕ
  resolvedBy : Option ℕ
  resolvedAt : Option ℕ
  resolution : Option String
  createdAt : ℕ
  updatedAt : ℕ

inductive Actor
  | subject (id : ℕ)
  | admin (id : ℕ)
  | system

/-- A line of the timeline, with the data its kind carries. -/
inductive EventKind
  | triggered (fix : Fix) (bookingId : Option ℕ) (source : SosSource)
  | duplicate (fix : Fix)
  | contactsNotified (contacts : ℕ)
  | opsAlerted
  | acknowledged
  | note (text : String)
  | contacted (contactId : Option ℕ)
  | broadcast (drivers : ℕ)
  | resolved (resolution : String)
  | cancelled (ageSeconds : ℤ)

/-- The status change that a line tells of; a repeated tap is none. -/
def EventKind.tells : EventKind → Option SosStatus
  | .triggered _ _ _ => some .triggered
  | .acknowledged => some .acknowledged
  | .resolved _ => some .resolved
  | .cancelled _ => some .cancelled
  | .duplicate _ | .contactsNotified _ | .opsAlerted | .note _ | .contacted _ | .broadcast _ => none

/-- A row of `sos_alert_events`. -/
structure AlertEvent where
  alertId : ℕ
  kind : EventKind
  actor : Actor

structure Contact where
  name : String
  phone : String
  relation : Option String
deriving DecidableEq

structure SubjectSnapshot where
  name : Option String
  mobile : Option String
  lat : Option ℚ
  lng : Option ℚ

/-- A booking, as far as an alert may cite it. -/
structure BookingRef where
  id : ℕ
  userId : ℕ
  driverId : Option ℕ
  active : Bool

/-- The input of `createIncident`. -/
structure Incident where
  requester : SosRequester
  source : SosSource
  bookingId : Option ℕ
  fix : Fix
  note : Option String
  noteActor : Option ℕ

structure World where
  now : ℕ
  subjects : SosRequester → Option SubjectSnapshot
  /-- The newest first. -/
  bookings : List BookingRef
  contacts : ℕ → List Contact
  standaloneEnabled : Bool
  alerts : List Alert
  /-- `sos_alert_contacts`, each by its alert; a row is known by its place. -/
  snapshots : List (ℕ × Contact)
  timeline : List AlertEvent
  /-- The `sos.triggered` events that the notifications have taken, by their dedupe key. -/
  messages : List (ℕ × List (ℕ × String))

/-- What an answer reports. -/
inductive Response
  | created (alertId : ℕ) (status : SosStatus) (createdAt : ℕ) (replayed : Bool)
  | cancelled (alertId : ℕ) (status : SosStatus) (cancelledAt : ℕ)
  | action (alertId : ℕ) (status : SosStatus) (at' : ℕ)
  /-- A call or a broadcast is recorded. -/
  | annotated (alertId : ℕ)

namespace Response

def alertId : Response → ℕ
  | .created id _ _ _ | .cancelled id _ _ | .action id _ _ | .annotated id => id

def status : Response → Option SosStatus
  | .created _ status _ _ | .cancelled _ status _ | .action _ status _ => some status
  | .annotated _ => none

end Response

inductive Refusal
  | accountNotFound
  | subjectNotFound
  | bookingNotFound
  | alertNotFound
  | contactNotFound
  | standaloneDisabled
  | locationUnknown
  | notCancellable
  | cancelExpired
  | alreadyClosed
  | wasCancelled
  /-- `uq_sos_alerts_open_per_subject`. -/
  | uniqueViolation
deriving DecidableEq

def Refusal.message : Refusal → String
  | .accountNotFound => "Account not found"
  | .subjectNotFound => "Subject not found"
  | .bookingNotFound => "Booking not found"
  | .alertNotFound => "Alert not found"
  | .contactNotFound => "Contact not found on this alert"
  | .standaloneDisabled => "Standalone SOS is currently disabled"
  | .locationUnknown => "No known location for this subject — pass the coordinates from the call"
  | .notCancellable => "This alert can no longer be cancelled"
  | .cancelExpired => "The cancel window has passed"
  | .alreadyClosed => "This alert is already closed"
  | .wasCancelled => "This alert was cancelled"
  | .uniqueViolation => "duplicate key value violates unique constraint"

inductive Step
  | selectSubject (subject : SosRequester)
  | selectBooking (subject : SosRequester) (bookingId : Option ℕ)
  | isSosStandaloneEnabled
  | selectOpen (subject : SosRequester)
  | selectAlert (id : ℕ)
  | selectContacts (id : ℕ)
  /-- The transaction of `createIncident`. -/
  | insertAlert (input : Incident)
  | insertEvent (event : AlertEvent)
  /-- The transactions of `cancel`, `acknowledge` and `resolve`, with the instant they carry. -/
  | cancel (id subjectId now : ℕ) (ageSeconds : ℤ)
  | acknowledge (id adminId now : ℕ)
  | resolve (id adminId now : ℕ) (resolution : String) (expected : SosStatus)
  | publish (id : ℕ) (status : SosStatus) (duplicate : Bool)
  | emitTriggered (id : ℕ) (contacts : List (ℕ × String)) (taken : Bool)
  | emitOpsAlert (id : ℕ)
  | audit
  | clock
  | respond (answer : Except Refusal Response)
  | tick (ms : ℕ)
  /-- Accounts, bookings, contacts and the switch change beside the alerts. -/
  | surroundings (subjects : SosRequester → Option SubjectSnapshot) (bookings : List BookingRef)
      (contacts : ℕ → List Contact) (standaloneEnabled : Bool)

namespace World

variable (w : World)

def status (id : ℕ) : Option SosStatus := (w.alerts[id]?).map (·.status)

/-- `openAlertForSubject`. -/
def openAlert (subject : SosRequester) : Option (ℕ × Alert) :=
  (w.alerts.zipIdx.find? fun a ↦ a.1.subject = subject && a.1.status.isOpen).map fun a ↦ (a.2, a.1)

/-- A driver has no emergency contacts. -/
def contactsOf (subject : SosRequester) : List Contact :=
  match subject.subjectType with
  | .user => w.contacts subject.subjectId
  | .driver => []

/-- The rows of the snapshot of an alert, as the fan-out names them. -/
def snapshotOf (id : ℕ) : List (ℕ × String) :=
  (w.snapshots.zipIdx.filter fun row ↦ row.1.1 = id).map fun row ↦ (row.2, row.1.2.name)

/-- The opening lines of the timeline. -/
def opening (id : ℕ) (input : Incident) (contacts : List Contact) : List AlertEvent :=
  let actorId := input.noteActor.getD input.requester.subjectId
  let raised : AlertEvent :=
    ⟨id, .triggered input.fix input.bookingId input.source,
      match input.source with
      | .ops => .admin actorId
      | .app => .subject actorId⟩
  let notified : List AlertEvent :=
    if contacts.isEmpty then [] else [⟨id, .contactsNotified contacts.length, .system⟩]
  let noted : List AlertEvent :=
    match input.note, input.noteActor with
    | some text, some admin => if text.isEmpty then [] else [⟨id, .note text, .admin admin⟩]
    | _, _ => []
  raised :: notified ++ ⟨id, .opsAlerted, .system⟩ :: noted

def insertAlert (input : Incident) : World :=
  let id := w.alerts.length
  let contacts := w.contactsOf input.requester
  { w with
    alerts := w.alerts ++ [⟨input.requester, input.bookingId, input.fix, input.source, .triggered,
      none, none, none, none, none, w.now, w.now⟩]
    snapshots := w.snapshots ++ contacts.map fun contact ↦ (id, contact)
    timeline := w.timeline ++ opening id input contacts }

def updateAlert (id : ℕ) (f : Alert → Alert) : World := { w with alerts := w.alerts.modify id f }

def insertEvent (event : AlertEvent) : World := { w with timeline := w.timeline ++ [event] }

def run : Step → World
  | .insertAlert input => if (w.openAlert input.requester).isSome then w else w.insertAlert input
  | .insertEvent event => w.insertEvent event
  | .cancel id subjectId now ageSeconds =>
    let updated :=
      if w.status id = some .triggered then
        w.updateAlert id fun a ↦ { a with status := .cancelled, updatedAt := now }
      else w
    updated.insertEvent ⟨id, .cancelled ageSeconds, .subject subjectId⟩
  | .acknowledge id adminId now =>
    if w.status id = some .triggered then
      (w.updateAlert id fun a ↦ { a with
        status := .acknowledged, acknowledgedBy := some adminId, acknowledgedAt := some now,
        updatedAt := now }).insertEvent ⟨id, .acknowledged, .admin adminId⟩
    else w
  | .resolve id adminId now resolution expected =>
    if w.status id = some expected then
      (w.updateAlert id fun a ↦ { a with
        status := .resolved, resolvedBy := some adminId, resolvedAt := some now,
        resolution := some resolution, updatedAt := now }).insertEvent
          ⟨id, .resolved resolution, .admin adminId⟩
    else w
  | .emitTriggered id contacts taken =>
    if taken && !w.messages.any (·.1 = id) then { w with messages := w.messages ++ [(id, contacts)] } else w
  | .tick ms => { w with now := w.now + ms }
  | .surroundings subjects bookings contacts standaloneEnabled =>
    { w with subjects, bookings, contacts, standaloneEnabled }
  | .selectSubject _ | .selectBooking _ _ | .isSosStandaloneEnabled | .selectOpen _ | .selectAlert _ | .selectContacts _
  | .publish _ _ _ | .emitOpsAlert _ | .audit | .clock | .respond _ => w

end World

instance : Store Step World where
  commit l w := w.run l

end Towing.Sos
