import Towing.Process.Moments

namespace Towing.Notifications

open Towing.Process

abbrev Text := List Char

inductive NotificationChannel
  | push
  | sms
  | whatsapp
  | email
  deriving DecidableEq, Repr

inductive NotificationCategory
  | transactional
  | safety
  | job
  | money
  | promotions
  | compliance
  deriving DecidableEq, Repr

inductive RecipientSubjectType
  | user
  | driver
  | fleet
  | contact
  | ops
  deriving DecidableEq, Repr

/-- `${subjectType}:${subjectId}`. -/
abbrev RecipientKey := RecipientSubjectType × ℕ

inductive PrefKey
  | promotions
  | weeklySummary
  | compliance
  | payouts
  | jobs
  | weekly
  deriving DecidableEq, Repr

/-- What is found of a recipient, its devices aside. -/
structure Contact where
  key : RecipientKey
  mobile : Option Text
  email : Option Text
  prefs : List (PrefKey × Bool)
  deriving DecidableEq, Repr

/-- A device with a live push token is known by its id. -/
structure Recipient extends Contact where
  pushTokens : List (ℕ × Text)
  deriving DecidableEq, Repr

/-- `resolve` reads the tables of the domain, and `rendered` is the template with the trigger's variables. -/
structure RegisteredTrigger (π δ : Type) where
  channels : List NotificationChannel
  category : NotificationCategory
  alwaysOn : Bool
  dedupeKey : Option (π → Text)
  resolve : π → δ → List Contact
  rendered : π → Recipient → Text
  otpPort : Bool := false

structure Env (π δ : Type) where
  trigger : Text → Option (RegisteredTrigger π δ)
  NOTIFY_ENABLED : Bool
  NOTIFY_STRANDED_MINUTES : ℕ

inductive DeviceSubjectType
  | user
  | driver
  deriving DecidableEq, Repr

structure Device where
  subjectType : DeviceSubjectType
  subjectId : ℕ
  installationId : ℕ
  pushToken : Option Text
  revoked : Bool := false
  deriving DecidableEq, Repr

structure EventRow (π : Type) where
  event : Text
  payload : π
  dedupeKey : Option Text
  fannedOutAt : Option ℕ := none
  createdAt : ℕ

/-- A row of the in-app centre. -/
structure InboxRow where
  eventId : ℕ
  key : RecipientKey
  body : Text
  deriving DecidableEq, Repr

inductive DeliveryStatus
  | queued
  | sending
  | sent
  | failed
  | skipped
  deriving DecidableEq, Repr

inductive SkipReason
  | noAddress
  | noPushTarget
  | suppressedByPref
  | notificationsDisabled
  deriving DecidableEq, Repr

inductive Vendor
  | log
  | expo
  | msg91
  | whatsappCloud
  | ses
  deriving DecidableEq, Repr

structure Delivery where
  eventId : ℕ
  recipientKey : RecipientKey
  channel : NotificationChannel
  deviceId : Option ℕ := none
  status : DeliveryStatus := .queued
  skipReason : Option SkipReason := none
  vendor : Option Vendor := none
  vendorRef : Option Text := none
  attempts : ℕ := 0
  lastError : Option Text := none
  createdAt : ℕ
  deriving DecidableEq, Repr

inductive Job
  | fanout (eventId : ℕ)
  | deliver (channel : NotificationChannel) (deliveryId : ℕ)
  | receipts (deliveryIds : List ℕ)
  deriving DecidableEq, Repr

/-- A tap marks the row of the centre that `notificationId` names. -/
structure ChannelSendParams where
  deliveryId : ℕ
  channel : NotificationChannel
  address : Text
  body : Text
  notificationId : Option ℕ
  deriving DecidableEq, Repr

inductive ChannelResult
  | ok (vendor : Vendor) (vendorRef : Option Text)
  | failed (vendor : Vendor) (retryable : Bool) (code message : Text)
  deriving DecidableEq, Repr

structure Receipt where
  failed : Bool
  error : Option Text
  message : Option Text
  deriving DecidableEq, Repr

/-- Rows are known by their places. A job that has once been enqueued stays in `jobs`: a queue that delivers
at least once may run it at any time, and again. -/
structure World (π δ : Type) where
  directory : δ
  devices : List Device
  events : List (EventRow π)
  inbox : List InboxRow
  deliveries : List Delivery
  jobs : List Job

/-- `fail` is written by who has claimed the delivery, and `bounce` by who reads its receipt. -/
inductive Step (π δ : Type)
  | look
  | record (event : Text) (payload : π) (dedupeKey : Option Text) (inbox : List (RecipientKey × Text)) (now : ℕ)
  | enqueue (job : Job)
  | insert (rows : List Delivery)
  | stamp (eventId now : ℕ)
  | claim (deliveryId : ℕ)
  | send (params : ChannelSendParams) (result : Except Text ChannelResult)
  | sent (deliveryId : ℕ) (vendor : Vendor) (vendorRef : Option Text)
  | fail (deliveryId : ℕ) (vendor : Option Vendor) (lastError : Text)
  | bounce (deliveryId : ℕ) (lastError : Text)
  | revokeDevice (deviceId : ℕ)
  | upsert (device : Device)
  | unregister (subjectType : DeviceSubjectType) (subjectId : ℕ) (installationId : Option ℕ)
  | move (directory : δ)

def DeviceSubjectType.recipient : DeviceSubjectType → RecipientSubjectType
  | .user => .user
  | .driver => .driver

namespace Device

def key (d : Device) : RecipientKey := (d.subjectType.recipient, d.subjectId)

def revoke (d : Device) : Device := { d with revoked := true, pushToken := none }

/-- Two live rows with one token, which `uq_devices_push_token` forbids. -/
def shares (d d' : Device) : Bool := !d.revoked && !d'.revoked && d.pushToken.isSome && d.pushToken = d'.pushToken

def same (d d' : Device) : Bool :=
  d.subjectType = d'.subjectType && d.subjectId = d'.subjectId && d.installationId = d'.installationId

/-- The rows of the other installations that hold the new row's token are revoked; the insert may still
meet a row of the same installation that holds it. -/
def upserted (devices : List Device) (new : Device) : Option (List Device) :=
  let freed := devices.map fun d ↦
    if new.pushToken ≠ some [] && d.shares new && d.installationId ≠ new.installationId then d.revoke else d
  let rows := match freed.findIdx? (·.same new) with
    | some i => freed.set i new
    | none => freed ++ [new]
  if rows.Pairwise fun d d' ↦ d.shares d' = false then some rows else none

end Device

/-- The four columns that name a delivery, `device_id` being null off push. -/
def Delivery.clashes (d d' : Delivery) : Bool :=
  d.eventId = d'.eventId && d.recipientKey = d'.recipientKey && d.channel = d'.channel && d.deviceId = d'.deviceId

def insertDelivery (rows : List Delivery) (row : Delivery) : List Delivery :=
  if rows.any (·.clashes row) then rows else rows ++ [row]

def Delivery.waits (row : Delivery) : Bool := row.status = .queued || row.status = .failed

def Delivery.claimed (row : Delivery) : Delivery :=
  if row.waits then { row with status := .sending, attempts := row.attempts + 1 } else row

namespace World

variable {π δ : Type} (w : World π δ)

def collapses (event : Text) (dedupeKey : Option Text) : Bool :=
  dedupeKey.isSome && w.events.any fun row ↦ row.event = event && row.dedupeKey = dedupeKey

def claimable (deliveryId : ℕ) : Option Delivery :=
  (w.deliveries[deliveryId]?).filter (·.waits)

def pushTokensFor (key : RecipientKey) : List (ℕ × Text) :=
  w.devices.zipIdx.filterMap fun (device, id) ↦
    if device.key = key && !device.revoked then (device.pushToken.filter (· ≠ [])).map (id, ·) else none

def queued (p : Delivery → Bool) : List (ℕ × NotificationChannel) :=
  w.deliveries.zipIdx.filterMap fun (row, id) ↦ if row.status = .queued && p row then some (id, row.channel) else none

def unfanned (cutoff : ℕ) : List ℕ :=
  w.events.zipIdx.filterMap fun (row, id) ↦ if row.fannedOutAt.isNone && row.createdAt < cutoff then some id else none

/-- The deliveries with a ticket, with the device each went to. -/
def ticketed (deliveryIds : List ℕ) : List (Text × ℕ × Option ℕ) :=
  w.deliveries.zipIdx.filterMap fun (row, id) ↦
    if id ∈ deliveryIds then (row.vendorRef.filter (· ≠ [])).map (·, id, row.deviceId) else none

def run : Step π δ → World π δ
  | .look | .send _ _ => w
  | .record event payload dedupeKey inbox now =>
    if w.collapses event dedupeKey then w
    else { w with
      events := w.events ++ [{ event, payload, dedupeKey, createdAt := now }]
      inbox := w.inbox ++ inbox.map fun (key, body) ↦ { eventId := w.events.length, key, body } }
  | .enqueue job => { w with jobs := w.jobs ++ [job] }
  | .insert rows => { w with deliveries := rows.foldl insertDelivery w.deliveries }
  | .stamp eventId now => { w with events := w.events.modify eventId fun row ↦ { row with fannedOutAt := some now } }
  | .claim deliveryId => { w with deliveries := w.deliveries.modify deliveryId Delivery.claimed }
  | .sent deliveryId vendor vendorRef =>
    let sent (row : Delivery) : Delivery := { row with status := .sent, vendor := some vendor, vendorRef }
    { w with deliveries := w.deliveries.modify deliveryId sent }
  | .fail deliveryId vendor lastError =>
    let failed (row : Delivery) : Delivery :=
      { row with status := .failed, vendor := vendor.or row.vendor, lastError := some lastError }
    { w with deliveries := w.deliveries.modify deliveryId failed }
  | .bounce deliveryId lastError =>
    let bounced (row : Delivery) : Delivery := { row with status := .failed, lastError := some lastError }
    { w with deliveries := w.deliveries.modify deliveryId bounced }
  | .revokeDevice deviceId => { w with devices := w.devices.modify deviceId Device.revoke }
  | .upsert device => { w with devices := (Device.upserted w.devices device).getD w.devices }
  | .unregister subjectType subjectId installationId =>
    { w with devices := w.devices.map fun d ↦
        if d.subjectType = subjectType && d.subjectId = subjectId && !d.revoked &&
            installationId.all (d.installationId = ·) then d.revoke
        else d }
  | .move directory => { w with directory }

end World

variable {π δ : Type}

instance : Store (Step π δ) (World π δ) := ⟨fun l w ↦ w.run l⟩

abbrev Request (π δ α : Type) := Proc (Step π δ) (World π δ) String α

namespace PreferenceService

def FLEET_PREF_KEY : NotificationCategory → Option PrefKey
  | .compliance => some .compliance
  | .money => some .payouts
  | .job => some .jobs
  | _ => none

def SUBJECT_PREF_KEY : NotificationCategory → Option PrefKey
  | .promotions => some .promotions
  | _ => none

def suppresses (recipient : Recipient) (trigger : RegisteredTrigger π δ) : Bool :=
  if trigger.alwaysOn then false
  else
    let key := if recipient.key.1 = .fleet then FLEET_PREF_KEY trigger.category else SUBJECT_PREF_KEY trigger.category
    key.any fun key ↦ recipient.prefs.lookup key = some false

end PreferenceService

def tokensFor : List Contact → Request π δ (List Recipient)
  | [] => pure []
  | contact :: contacts => do
    let pushTokens ← Proc.query .look (·.pushTokensFor contact.key)
    let recipients ← tokensFor contacts
    pure ({ contact with pushTokens } :: recipients)

def asResolve (trigger : RegisteredTrigger π δ) (payload : π) : Request π δ (List Recipient) := do
  let contacts ← Proc.query .look fun w ↦ trigger.resolve payload w.directory
  tokensFor contacts

def isInboxSubjectType : RecipientSubjectType → Bool
  | .user | .driver | .fleet => true
  | .contact | .ops => false

/-- The subject that stands for the operators and has no centre; ids start above it. -/
def OPS_PSEUDO_SUBJECT : ℕ := 0

def isInboxRecipient (recipient : Recipient) : Bool :=
  isInboxSubjectType recipient.key.1 && recipient.key.2 ≠ OPS_PSEUDO_SUBJECT

namespace NotificationService

def emit (env : Env π δ) (event : Text) (payload : π) (now : ℕ) : Request π δ (Option ℕ) :=
  match env.trigger event with
  | none => pure none
  | some trigger =>
    if trigger.otpPort then pure none
    else do
      let dedupeKey := trigger.dedupeKey.map (· payload)
      let recipients ← asResolve trigger payload
      let inbox := (recipients.filter isInboxRecipient).map fun r ↦ (r.key, trigger.rendered payload r)
      let eventId ← Proc.query (.record event payload dedupeKey inbox now) fun w ↦
        if w.collapses event dedupeKey then none else some w.events.length
      match eventId with
      | none => pure none
      | some eventId => do
        Proc.write (.enqueue (.fanout eventId))
        pure (some eventId)

end NotificationService

namespace NotificationDispatcherService

def rawDestination (channel : NotificationChannel) (deviceId : Option ℕ) (recipient : Recipient) : Option Text :=
  match channel with
  | .push => (recipient.pushTokens.find? fun d ↦ some d.1 = deviceId).map (·.2)
  | .email => recipient.email.filter (· ≠ [])
  | .sms | .whatsapp => recipient.mobile.filter (· ≠ [])

def deliveryRowsFor (env : Env π δ) (eventId now : ℕ) (trigger : RegisteredTrigger π δ) (recipient : Recipient) :
    List Delivery :=
  trigger.channels.flatMap fun channel ↦
    let base : Delivery := { eventId, recipientKey := recipient.key, channel, createdAt := now }
    let skipped (reason : SkipReason) : List Delivery := [{ base with status := .skipped, skipReason := some reason }]
    if PreferenceService.suppresses recipient trigger then skipped .suppressedByPref
    else if !env.NOTIFY_ENABLED then skipped .notificationsDisabled
    else if channel = .push then
      if recipient.pushTokens = [] then skipped .noPushTarget
      else recipient.pushTokens.map fun device ↦ { base with deviceId := some device.1 }
    else if (rawDestination channel none recipient).isNone then skipped .noAddress
    else [base]

def enqueueAll : List Job → Request π δ Unit
  | [] => pure ()
  | job :: jobs => do
    Proc.write (.enqueue job)
    enqueueAll jobs

def deliverJobs (rows : List (ℕ × NotificationChannel)) : List Job := rows.map fun (id, channel) ↦ .deliver channel id

/-- The jobs first and the stamp last, so that a crash between them leaves work that is found again. -/
def fanout (env : Env π δ) (eventId now : ℕ) : Request π δ Unit := do
  let event ← Proc.query .look fun w ↦ (w.events[eventId]?).filter (·.fannedOutAt.isNone)
  match event.bind fun event ↦ (env.trigger event.event).map (event, ·) with
  | none => pure ()
  | some (event, trigger) => do
    let recipients ← asResolve trigger event.payload
    let rows := recipients.flatMap (deliveryRowsFor env eventId now trigger)
    Proc.when (rows ≠ []) (Proc.write (.insert rows))
    let queued ← Proc.query .look (·.queued fun row ↦ row.eventId = eventId)
    enqueueAll (deliverJobs queued)
    Proc.write (.stamp eventId now)

def markFailed (deliveryId : ℕ) (reason : Text) : Request π δ Unit := Proc.write (.fail deliveryId none reason)

/-- `DeviceNotRegistered`. -/
def deviceNotRegistered : Text :=
  ['D', 'e', 'v', 'i', 'c', 'e', 'N', 'o', 't', 'R', 'e', 'g', 'i', 's', 't', 'e', 'r', 'e', 'd']

def revokeDevice (error : Option Text) (deviceId : Option ℕ) : Request π δ Unit :=
  match deviceId with
  | none => pure ()
  | some deviceId => Proc.when (error = some deviceNotRegistered) (Proc.write (.revokeDevice deviceId))

/-- What the vendor has answered is written down, and a failure that may pass is thrown for the queue to retry. -/
def settle (claimed : Delivery) (channel : NotificationChannel) (deliveryId : ℕ) :
    Except Text ChannelResult → Request π δ Unit
  | .error _ => throw "the send failed"
  | .ok (.ok vendor vendorRef) => do
    Proc.write (.sent deliveryId vendor vendorRef)
    Proc.when (channel = .push ∧ vendor = .expo ∧ vendorRef.any (· ≠ []))
      (Proc.write (.enqueue (.receipts [deliveryId])))
  | .ok (.failed vendor retryable code message) => do
    Proc.write (.fail deliveryId (some vendor) (code ++ [':', ' '] ++ message))
    revokeDevice (some code) claimed.deviceId
    Proc.when (retryable = true) (throw "the delivery failed")

def send (answer : ChannelSendParams → Except Text ChannelResult) (claimed : Delivery) (params : ChannelSendParams) :
    Request π δ Unit := do
  Proc.write (.send params (answer params))
  settle claimed params.channel params.deliveryId (answer params)

def deliver (env : Env π δ) (answer : ChannelSendParams → Except Text ChannelResult) (channel : NotificationChannel)
    (deliveryId : ℕ) : Request π δ Unit := do
  let claimed ← Proc.query (.claim deliveryId) (·.claimable deliveryId)
  match claimed with
  | none => pure ()
  | some claimed => do
    let event ← Proc.query .look fun w ↦ w.events[claimed.eventId]?
    match event.bind fun event ↦ (env.trigger event.event).map (event, ·) with
    | none => markFailed deliveryId "no registered trigger for this delivery".toList
    | some (event, trigger) => do
      let recipients ← asResolve trigger event.payload
      match recipients.find? (·.key = claimed.recipientKey) with
      | none => markFailed deliveryId "recipient no longer resolvable".toList
      | some recipient =>
        match rawDestination channel claimed.deviceId recipient with
        | none => markFailed deliveryId "address disappeared between fan-out and delivery".toList
        | some address => do
          let notificationId ← Proc.query .look fun w ↦
            w.inbox.findIdx? fun row ↦ row.eventId = claimed.eventId && row.key = recipient.key
          let body := trigger.rendered event.payload recipient
          send answer claimed { deliveryId, channel, address, body, notificationId }

def bounceAll (rows : List (Text × ℕ × Option ℕ)) : List (Text × Receipt) → Request π δ Unit
  | [] => pure ()
  | (ticket, receipt) :: receipts =>
    match (rows.reverse.find? (·.1 = ticket)).filter fun _ ↦ receipt.failed with
    | none => bounceAll rows receipts
    | some (_, deliveryId, deviceId) => do
      let error := receipt.error.getD "receipt_error".toList
      Proc.write (.bounce deliveryId (error ++ [':', ' '] ++ receipt.message.getD []))
      revokeDevice receipt.error deviceId
      bounceAll rows receipts

def reconcileReceipts (answer : List Text → List (Text × Receipt)) (deliveryIds : List ℕ) : Request π δ Unit := do
  let rows ← Proc.query .look (·.ticketed deliveryIds)
  let tickets := (rows.map (·.1)).eraseDups
  if tickets = [] then pure () else bounceAll rows (answer tickets)

def sweep (env : Env π δ) (now : ℕ) : Request π δ Unit := do
  let cutoff := now - env.NOTIFY_STRANDED_MINUTES * 60000
  let stranded ← Proc.query .look fun w ↦ (w.unfanned cutoff).take 200
  enqueueAll (stranded.map .fanout)
  let queued ← Proc.query .look fun w ↦ (w.queued fun row ↦ row.createdAt < cutoff).take 500
  enqueueAll (deliverJobs queued)

/-- A worker takes a job that has been enqueued. -/
def working (job : Job) (p : Request π δ Unit) : Request π δ Unit := do
  let enqueued ← Proc.query .look (·.jobs.contains job)
  Proc.when (enqueued = true) p

end NotificationDispatcherService

namespace DeviceRegistryService

def register (device : Device) : Request π δ Unit := do
  let upserted ← Proc.query (.upsert device) fun w ↦ (Device.upserted w.devices device).isSome
  Proc.when (upserted = false) (Proc.attempt (.upsert device) fun w ↦
    if (Device.upserted w.devices device).isSome then .ok ()
    else .error "This push token is registered to another account — re-mint it and register again")

def unregister (subjectType : DeviceSubjectType) (subjectId installationId : ℕ) : Request π δ Unit :=
  Proc.write (.unregister subjectType subjectId (some installationId))

def revokeAllForSubject (subjectType : DeviceSubjectType) (subjectId : ℕ) : Request π δ Unit :=
  Proc.write (.unregister subjectType subjectId none)

end DeviceRegistryService

open NotificationService NotificationDispatcherService DeviceRegistryService

/-- The producers, the workers of the queue and its clock, and the devices, while the domain moves on. A
vendor answers as it likes. -/
inductive Asks (env : Env π δ) : Request π δ Unit → Prop
  | emit (event : Text) (payload : π) (now : ℕ) : Asks env (emit env event payload now).ignore
  | fanout (eventId now : ℕ) : Asks env (working (.fanout eventId) (fanout env eventId now))
  | deliver (answer : ChannelSendParams → Except Text ChannelResult) (channel : NotificationChannel)
      (deliveryId : ℕ) : Asks env (working (.deliver channel deliveryId) (deliver env answer channel deliveryId))
  | receipts (answer : List Text → List (Text × Receipt)) (deliveryIds : List ℕ) :
      Asks env (working (.receipts deliveryIds) (reconcileReceipts answer deliveryIds))
  | sweep (now : ℕ) : Asks env (sweep env now)
  | register (device : Device) (hlive : device.revoked = false) : Asks env (register device)
  | unregister (subjectType : DeviceSubjectType) (subjectId installationId : ℕ) :
      Asks env (unregister subjectType subjectId installationId)
  | revokeAll (subjectType : DeviceSubjectType) (subjectId : ℕ) : Asks env (revokeAllForSubject subjectType subjectId)
  | move (directory : δ) : Asks env (Proc.write (.move directory))

end Towing.Notifications
