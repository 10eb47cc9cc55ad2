import Towing.Sos.World

namespace Towing.Sos

open Towing.Process

abbrev Request (α : Type) := Proc Step World Refusal α

structure SosCreateRequest where
  bookingId : Option ℕ
  fix : Fix

structure AdminSosCreateBody where
  subject : SosRequester
  bookingId : Option ℕ
  lat : Option ℚ
  lng : Option ℚ
  note : Option String

/-- Whether the notifications take the message to the contacts. -/
abbrev Notified := Bool

namespace SosRepo

def owns (subject : SosRequester) (booking : BookingRef) : Bool :=
  match subject.subjectType with
  | .user => booking.userId = subject.subjectId
  | .driver => booking.driverId = some subject.subjectId

def findSubject (subject : SosRequester) : Request (Option SubjectSnapshot) :=
  Proc.query (.selectSubject subject) (·.subjects subject)

def findOwnedBooking (subject : SosRequester) (bookingId : ℕ) : Request (Option BookingRef) :=
  Proc.query (.selectBooking subject (some bookingId))
    fun w ↦ w.bookings.find? fun b ↦ b.id = bookingId && owns subject b

def findActiveBooking (subject : SosRequester) : Request (Option BookingRef) :=
  Proc.query (.selectBooking subject none) fun w ↦ w.bookings.find? fun b ↦ owns subject b && b.active

def openAlertForSubject (subject : SosRequester) : Request (Option (ℕ × Alert)) :=
  Proc.query (.selectOpen subject) (·.openAlert subject)

def alertById (id : ℕ) : Request (Option Alert) := Proc.query (.selectAlert id) (·.alerts[id]?)

end SosRepo

namespace SosService

open SosRepo

def clock : Request ℕ := Proc.query .clock (·.now)

def resolveBooking (requester : SosRequester) : Option ℕ → Request (Option ℕ)
  | some bookingId => do
    let owned ← findOwnedBooking requester bookingId
    match owned with
    | none => throw .bookingNotFound
    | some booking => pure (some booking.id)
  | none => do
    let active ← findActiveBooking requester
    pure (active.map (·.id))

def requireSubject (requester : SosRequester) : Request SubjectSnapshot := do
  let subject ← findSubject requester
  match subject with
  | none => throw .accountNotFound
  | some subject => pure subject

/-- A repeat while the incident is open. -/
def replay (alertId : ℕ) (status : SosStatus) (createdAt : ℕ) (input : Incident) : Request Response := do
  let actor : Actor :=
    match input.noteActor with
    | some admin => .admin admin
    | none => .subject input.requester.subjectId
  Proc.write (.insertEvent ⟨alertId, .duplicate input.fix, actor⟩)
  Proc.write (.publish alertId status true)
  pure (.created alertId status createdAt true)

/-- A message that is not taken is logged, and the second is not tried. -/
def fanOut (alertId : ℕ) (contacts : List (ℕ × String)) (taken : Notified) : Request Unit := do
  Proc.write (.emitTriggered alertId contacts taken)
  Proc.when taken (Proc.write (.emitOpsAlert alertId))

/-- The transaction, with the id of the row, its instant and its contacts. -/
def insertAlert (input : Incident) : Request (ℕ × ℕ × List (ℕ × String)) :=
  Proc.attempt (.insertAlert input) fun w ↦
    if (w.openAlert input.requester).isSome then .error .uniqueViolation
    else .ok (w.alerts.length, w.now, (w.insertAlert input).snapshotOf w.alerts.length)

def raceReplay (input : Incident) (error : Refusal) : Request Response :=
  match error with
  | .uniqueViolation => do
    let raced ← openAlertForSubject input.requester
    match raced with
    | some raced => replay raced.1 raced.2.status raced.2.createdAt input
    | none => throw error
  | _ => throw error

def createIncident (input : Incident) (taken : Notified) : Request Response := do
  let existing ← openAlertForSubject input.requester
  match existing with
  | some existing => replay existing.1 existing.2.status existing.2.createdAt input
  | none =>
    tryCatch (do
      let created ← insertAlert input
      Proc.write (.publish created.1 .triggered false)
      fanOut created.1 created.2.2 taken
      pure (.created created.1 .triggered created.2.1 false)) (raceReplay input)

def raise (requester : SosRequester) (body : SosCreateRequest) (taken : Notified) : Request Response := do
  let _ ← requireSubject requester
  let bookingId ← resolveBooking requester body.bookingId
  Proc.when bookingId.isNone do
    let enabled ← Proc.query .isSosStandaloneEnabled (·.standaloneEnabled)
    Proc.when (!enabled) (throw .standaloneDisabled)
  createIncident ⟨requester, .app, bookingId, body.fix, none, none⟩ taken

def raiseByOps (adminId : ℕ) (body : AdminSosCreateBody) (taken : Notified) : Request Response := do
  let subject ← findSubject body.subject
  match subject with
  | none => throw .subjectNotFound
  | some subject =>
    match body.lat.or subject.lat, body.lng.or subject.lng with
    | some lat, some lng =>
      let bookingId ← resolveBooking body.subject body.bookingId
      let result ← createIncident
        ⟨body.subject, .ops, bookingId, ⟨lat, lng, none⟩, body.note, some adminId⟩ taken
      Proc.write .audit
      pure result
    | _, _ => throw .locationUnknown

/-- `Math.round` of the age in seconds. -/
def roundedSeconds (ageMs : ℤ) : ℤ := (ageMs + 500) / 1000

def cancel (graceSeconds : ℕ) (requester : SosRequester) (alertId : ℕ) : Request Response := do
  let alert ← alertById alertId
  match alert with
  | none => throw .alertNotFound
  | some alert =>
    if alert.subject ≠ requester then throw .alertNotFound
    else if alert.status = .cancelled then pure (.cancelled alertId .cancelled alert.updatedAt)
    else if alert.status ≠ .triggered then throw .notCancellable
    else do
      let readAt ← clock
      let ageMs : ℤ := readAt - alert.createdAt
      if (graceSeconds : ℤ) * 1000 < ageMs then throw .cancelExpired
      else do
        let now ← clock
        Proc.write (.cancel alertId requester.subjectId now (roundedSeconds ageMs))
        pure (.cancelled alertId .cancelled now)

def acknowledge (adminId id : ℕ) : Request Response := do
  let alert ← alertById id
  match alert with
  | none => throw .alertNotFound
  | some alert =>
    if alert.status = .acknowledged then
      pure (.action id .acknowledged (alert.acknowledgedAt.getD alert.updatedAt))
    else if alert.status ≠ .triggered then throw .alreadyClosed
    else do
      let now ← clock
      let updated ← Proc.query (.acknowledge id adminId now) fun w ↦ decide (w.status id = some .triggered)
      if updated then do
        Proc.write .audit
        pure (.action id .acknowledged now)
      else do
        let raced ← alertById id
        match raced with
        | none => throw .alertNotFound
        | some raced =>
          if raced.status = .acknowledged then
            pure (.action id .acknowledged (raced.acknowledgedAt.getD raced.updatedAt))
          else throw .alreadyClosed

def note (adminId id : ℕ) (text : String) : Request Response := do
  let alert ← alertById id
  match alert with
  | none => throw .alertNotFound
  | some alert =>
    if alert.status = .cancelled then throw .wasCancelled
    else do
      let now ← clock
      Proc.write (.insertEvent ⟨id, .note text, .admin adminId⟩)
      Proc.write .audit
      pure (.action id alert.status now)

/-- The call itself goes through the telephony port. -/
def contact (adminId id : ℕ) (contactId : Option ℕ) : Request Response := do
  let alert ← alertById id
  match alert with
  | none => throw .alertNotFound
  | some alert =>
    if alert.status = .cancelled then throw .wasCancelled
    else do
      let contacts ← Proc.query (.selectContacts id) (·.snapshotOf id)
      let selected := contactId.or (contacts.head?.map (·.1))
      if contactId.isSome && !contacts.any fun c ↦ some c.1 = contactId then throw .contactNotFound
      else do
        Proc.write (.insertEvent ⟨id, .contacted selected, .admin adminId⟩)
        Proc.write .audit
        pure (.annotated id)

/-- The drivers that the candidate search has found. -/
def broadcast (adminId id drivers : ℕ) : Request Response := do
  let alert ← alertById id
  match alert with
  | none => throw .alertNotFound
  | some alert =>
    if alert.status = .cancelled then throw .wasCancelled
    else do
      Proc.write (.insertEvent ⟨id, .broadcast drivers, .admin adminId⟩)
      Proc.write .audit
      pure (.annotated id)

def resolve (adminId id : ℕ) (resolution : String) : Request Response := do
  let alert ← alertById id
  match alert with
  | none => throw .alertNotFound
  | some alert =>
    if alert.status = .resolved then pure (.action id .resolved (alert.resolvedAt.getD alert.updatedAt))
    else if alert.status = .cancelled then throw .wasCancelled
    else do
      let now ← clock
      let updated ← Proc.query (.resolve id adminId now resolution alert.status)
        fun w ↦ decide (w.status id = some alert.status)
      if updated then do
        Proc.write .audit
        pure (.action id .resolved now)
      else do
        let raced ← alertById id
        match raced with
        | none => throw .alertNotFound
        | some raced =>
          if raced.status = .resolved then pure (.action id .resolved (raced.resolvedAt.getD raced.updatedAt))
          else throw .wasCancelled

end SosService

/-- The endpoints that report an alert. -/
inductive Endpoint : Request Response → Prop
  | raise (requester : SosRequester) (body : SosCreateRequest) (taken : Notified) :
      Endpoint (SosService.raise requester body taken)
  | raiseByOps (adminId : ℕ) (body : AdminSosCreateBody) (taken : Notified) :
      Endpoint (SosService.raiseByOps adminId body taken)
  | cancel (graceSeconds : ℕ) (requester : SosRequester) (alertId : ℕ) :
      Endpoint (SosService.cancel graceSeconds requester alertId)
  | acknowledge (adminId id : ℕ) : Endpoint (SosService.acknowledge adminId id)
  | note (adminId id : ℕ) (text : String) : Endpoint (SosService.note adminId id text)
  | contact (adminId id : ℕ) (contactId : Option ℕ) : Endpoint (SosService.contact adminId id contactId)
  | broadcast (adminId id drivers : ℕ) : Endpoint (SosService.broadcast adminId id drivers)
  | resolve (adminId id : ℕ) (resolution : String) : Endpoint (SosService.resolve adminId id resolution)

/-- The handler of an endpoint, as the interceptor calls it. -/
def handled (endpoint : Request Response) : Request (ℕ × Response) :=
  endpoint.follow fun answer ↦ Proc.attempt (.respond answer) fun _ ↦ answer.map fun body ↦ (200, body)

/-- What the alerts stand in. -/
inductive Beside : Request Unit → Prop
  | surroundings (subjects : SosRequester → Option SubjectSnapshot) (bookings : List BookingRef)
      (contacts : ℕ → List Contact) (standaloneEnabled : Bool) :
      Beside (Proc.write (.surroundings subjects bookings contacts standaloneEnabled))
  | tick (ms : ℕ) : Beside (Proc.write (.tick ms))

/-- The work of a request on the alerts. -/
inductive Works : Request Unit → Prop
  | endpoint {p : Request Response} : Endpoint p → Works (handled p).ignore
  | beside {p : Request Unit} : Beside p → Works p
  | idle : Works (pure ())

end Towing.Sos
