import Towing.Presence.Services
import Towing.Presence.Steps
import Towing.Process.Lift

namespace Towing.Handset

open Towing.Process Towing.Presence
open Towing.Money (Failure)

def MAX_BUFFERED : ℕ := 120

/-- A fix as the system hands it over, the speed in metres a second. -/
structure LocationObject where
  latitude : ℚ
  longitude : ℚ
  timestamp : ℕ
  accuracy : Option ℚ
  heading : Option ℚ
  speed : Option ℚ

def LocationObject.ping (location : LocationObject) (seq : ℕ) : DriverLocationPing where
  lat := location.latitude
  lng := location.longitude
  seq := seq
  sentAt := location.timestamp
  accuracyM := location.accuracy
  headingDeg := location.heading.filter (0 ≤ ·)
  speedKph := (location.speed.filter (0 ≤ ·)).map (· * 18 / 5)

/-- A fix with the session that it was taken in. A session begins where the counter is
set back; nothing that runs reads it. -/
structure Taken where
  session : ℕ
  ping : DriverLocationPing
deriving DecidableEq

structure Phone where
  /-- Whose token the requests carry. -/
  driver : Option ℕ
  /-- `location.buffer.v1`. -/
  buffer : List Taken
  /-- `location.seq.v1`. -/
  seq : ℕ
  session : ℕ
  /-- The flush that `flushing` stands for, by its number. -/
  awaiting : Option ℕ
  flushes : ℕ

/-- The phone and the server, and what has become of the fixes: those taken, in order, how
many of them a logout has dropped, those the server has applied, and of which session the
fix in a driver's hash is. -/
structure System where
  phone : Phone
  server : Presence.World
  taken : List Taken
  dropped : ℕ
  applied : List Taken
  origin : ℕ → Option ℕ

inductive Step
  | token
  /-- `nextSeq` and `bufferPing`. -/
  | enqueue (location : LocationObject)
  | startFlush
  /-- What the server does, for a flush of fixes of the session. -/
  | server (session : ℕ) (l : Presence.Step)
  /-- The server's answer arrives, and clears. -/
  | acknowledge (flush session seq : ℕ)
  | failed (flush : ℕ)
  /-- The app is killed, or the request times out. -/
  | giveUp
  | resetSeq (seq : ℕ)
  | clearLocationState
  | signIn (driver : ℕ)

/-- A flush that starts: its number, its fixes, and whose token it carries. -/
structure Batch where
  flush : ℕ
  driver : Option ℕ
  fixes : List Taken

/-- The session of a batch that has one. -/
def Batch.session (batch : Batch) : ℕ := (batch.fixes.head?.map (·.session)).getD 0

namespace Phone

variable (phone : Phone)

/-- What `flush` sends, where it sends anything. -/
def starts : Option Batch :=
  if phone.awaiting.isSome || phone.buffer.isEmpty then none
  else some ⟨phone.flushes, phone.driver, phone.buffer⟩

/-- Appends the fix, dropping the oldest when full. -/
def bufferPing (x : Taken) : Phone :=
  let pings := phone.buffer ++ [x]
  { phone with buffer := pings.drop (pings.length - MAX_BUFFERED) }

def clearBufferedUpTo (seq : ℕ) : Phone := { phone with buffer := phone.buffer.filter fun x ↦ seq < x.ping.seq }

end Phone

namespace System

variable (s : System)

/-- What the step of the server has applied. -/
def applies (session : ℕ) : Presence.Step → Option (ℕ × Taken)
  | .applyPing d p => if s.server.takes d p then some (d, ⟨session, p⟩) else none
  | _ => none

def run : Step → System
  | .enqueue location =>
    let x : Taken := ⟨s.phone.session, location.ping (s.phone.seq + 1)⟩
    { s with
      phone := { s.phone with seq := s.phone.seq + 1 }.bufferPing x
      taken := s.taken ++ [x] }
  | .startFlush =>
    match s.phone.starts with
    | none => s
    | some batch => { s with phone := { s.phone with awaiting := some batch.flush, flushes := s.phone.flushes + 1 } }
  | .server session l =>
    match s.applies session l with
    | none => { s with server := s.server.run l }
    | some (d, x) =>
      { s with
        server := s.server.run l
        applied := s.applied ++ [x]
        origin := Function.update s.origin d (some session) }
  | .acknowledge flush _ seq =>
    if s.phone.awaiting = some flush then
      { s with phone := { s.phone with awaiting := none }.clearBufferedUpTo seq }
    else s
  | .failed flush =>
    if s.phone.awaiting = some flush then { s with phone := { s.phone with awaiting := none } } else s
  | .giveUp => { s with phone := { s.phone with awaiting := none } }
  | .resetSeq seq => { s with phone := { s.phone with seq := seq, session := s.phone.session + 1 } }
  | .clearLocationState =>
    { s with
      phone := { s.phone with driver := none, buffer := [], seq := 0, session := s.phone.session + 1 }
      dropped := s.taken.length }
  | .signIn driver => { s with phone := { s.phone with driver := some driver } }
  | .token => s

end System

instance : Store Step System where
  commit l s := s.run l

abbrev Request (α : Type) := Proc Step System Failure α

/-- A request that the server works on, for fixes of the session. -/
def serve {α : Type} (session : ℕ) (p : Presence.Request α) : Request α := p.lift (Step.server session) System.server

def flush (task : ℕ) : Request Unit := do
  let started ← Proc.query .startFlush (·.phone.starts)
  match started with
  | none => pure ()
  | some batch =>
    match batch.driver with
    | none => Proc.write (.failed batch.flush)
    | some d =>
      (serve batch.session (LocationIngestService.ingest task d (batch.fixes.map (·.ping)))).follow fun
        | .ok accepted => Proc.write (.acknowledge batch.flush batch.session accepted.seq)
        | .error _ => Proc.write (.failed batch.flush)

def goOnline (point : GeoPoint) : Request Unit := do
  let driver ← Proc.query .token (·.phone.driver)
  match driver with
  | none => pure ()
  | some d => do
    let presence ← serve 0 (DriverPresenceService.goOnline d point)
    Proc.write (.resetSeq presence.seq)

def goOffline (task : ℕ) : Request Unit := do
  flush task
  let driver ← Proc.query .token (·.phone.driver)
  match driver with
  | none => pure ()
  | some d => (serve 0 (DriverPresenceService.goOffline task d)).ignore

/-- What the phone does, and what the server does beside it; only the phone streams. -/
inductive Streams (distanceKm haversineMeters : GeoPoint → GeoPoint → ℚ) : Request Unit → Prop
  | flush (task : ℕ) : Streams distanceKm haversineMeters (flush task)
  | goOnline (point : GeoPoint) : Streams distanceKm haversineMeters (goOnline point)
  | goOffline (task : ℕ) : Streams distanceKm haversineMeters (goOffline task)
  | enqueue (location : LocationObject) : Streams distanceKm haversineMeters (Proc.write (.enqueue location))
  | giveUp : Streams distanceKm haversineMeters (Proc.write .giveUp)
  | logout : Streams distanceKm haversineMeters (Proc.write .clearLocationState)
  | signIn (driver : ℕ) : Streams distanceKm haversineMeters (Proc.write (.signIn driver))
  | beside {p : Presence.Request Unit} : Presents distanceKm haversineMeters p →
      (p.Only fun l ↦ ∀ d ping, l ≠ .applyPing d ping) → Streams distanceKm haversineMeters (serve 0 p)

end Towing.Handset
