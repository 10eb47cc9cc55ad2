import Towing.Process.Moments
import Mathlib.Algebra.Order.Ring.Rat
import Mathlib.Data.List.AList
import Mathlib.Data.List.Sort
import Mathlib.Logic.Function.Basic

namespace Towing.Presence

open Towing.Process

structure GeoPoint where
  lat : ℚ
  lng : ℚ
deriving DecidableEq

/-- `GEOADD` refuses what lies beyond the map it keeps its members on. -/
def GeoPoint.onMap (q : GeoPoint) : Bool :=
  |q.lat| ≤ 85.05112878 && |q.lng| ≤ 180

structure DriverLocationPing extends GeoPoint where
  /-- Monotonic per driver. Resets only on go-online. -/
  seq : ℕ
  sentAt : ℕ
  headingDeg : Option ℚ
  speedKph : Option ℚ
  accuracyM : Option ℚ
deriving DecidableEq

structure DriverPresenceIdentity where
  zoneId : ℕ
  fleetId : Option ℕ
  truckId : Option ℕ
deriving DecidableEq

/-- A driver's hash. The script writes the fields of a fix all at once, so they are
there together or not at all. -/
structure DriverHash where
  identity : DriverPresenceIdentity
  vehicleClass : Option ℕ
  longDistance : Bool
  fix : Option DriverLocationPing
  expiresAt : ℕ
deriving DecidableEq

/-- What others than the driver decide about them. -/
structure Standing where
  kycApproved : Bool
  fleetId : Option ℕ
  truckId : Option ℕ
  vehicleClass : Option ℕ
  longDistance : Bool
  suspensionPending : Bool
  fleetSuspended : Bool
deriving DecidableEq

structure DriverRow where
  standing : Standing
  isOnline : Bool
  zoneId : Option ℕ
  currentLocation : Option GeoPoint
  lastPingAt : Option ℕ
deriving DecidableEq

/-- One buffered fix, ready for the batched flush. -/
structure FlushSample where
  point : GeoPoint
  sentAt : ℕ
deriving DecidableEq

inductive ApplyPingResult
  | applied (seq : ℕ) (identity : DriverPresenceIdentity)
  | discarded (seq : ℕ)
  | unknown
deriving DecidableEq

structure Fix where
  point : GeoPoint
  sentAt : Option ℕ
  headingDeg : Option ℚ
  speedKph : Option ℚ
deriving DecidableEq

structure Zone where
  id : ℕ
  name : String

structure DispatchConfig where
  stalePingSeconds : ℕ
  pingIdleMs : ℕ
  pingOnJobMs : ℕ

def driverHashTtlMs : ℕ := 30000

/-- `Number(raw)` of a hash field, `none` for `NaN`. A stored field is the text of a
finite number, and `Number(null)` is 0. -/
def Number (raw : Option ℚ) : Option ℚ := some (raw.getD 0)

structure DriverCandidate where
  driverId : ℕ
  point : GeoPoint
  sentAt : ℕ
  headingDeg : Option ℚ
  vehicleClass : Option ℕ
  longDistance : Bool
  fleetId : Option ℕ
  truckId : Option ℕ
deriving DecidableEq

/-- Redis and Postgres, as far as the presence of the drivers goes, and the buffers of
the server's processes. -/
structure World where
  now : ℕ
  drivers : ℕ → Option DriverRow
  hashes : ℕ → Option DriverHash
  /-- The members of each zone's GEO set. -/
  geo : ℕ → AList fun _ : ℕ ↦ GeoPoint
  /-- The fixes each process has buffered, by driver. -/
  pending : ℕ → AList fun _ : ℕ ↦ FlushSample
  flushing : ℕ → Bool
  destroyed : ℕ → Bool
  /-- `booking_location_path`. -/
  path : List (ℕ × FlushSample)
  activeBookings : ℕ → List ℕ
  zoneAt : GeoPoint → Option Zone
  config : DispatchConfig
  pickup : ℕ → Option GeoPoint

inductive Step
  | resolveZone (point : GeoPoint)
  | identity (driverId : ℕ)
  | goOnline (driverId zoneId : ℕ) (point : GeoPoint)
  | goOffline (driverId : ℕ)
  | putIdentity (driverId : ℕ) (identity : DriverPresenceIdentity) (vehicleClass : Option ℕ)
      (longDistance : Bool)
  | applyPing (driverId : ℕ) (ping : DriverLocationPing)
  | lastFix (driverId : ℕ)
  | currentSeq (driverId : ℕ)
  | zoneOf (driverId : ℕ)
  | del (driverId : ℕ)
  | geosearch (zoneId : ℕ) (centre : GeoPoint) (radiusKm : ℚ)
  | hgetall (driverId : ℕ)
  | zrem (zoneId : ℕ) (driverIds : List ℕ)
  /-- The candidates reach who has searched. -/
  | answer (zoneId : ℕ) (centre : GeoPoint) (radiusKm : ℚ) (candidates : List DriverCandidate)
  | loadConfig
  | publish (driverId : ℕ) (ping : DriverLocationPing) (identity : DriverPresenceIdentity)
  | publishFleet (driverId : ℕ) (ping : DriverLocationPing) (identity : DriverPresenceIdentity)
  | buffer (task driverId : ℕ) (sample : FlushSample)
  | drain (task : ℕ)
  | drainDriver (task driverId : ℕ)
  | destroy (task : ℕ)
  | flushed (task : ℕ)
  | flushPositions (batch : AList fun _ : ℕ ↦ FlushSample)
  | sampleBookingPath (batch : AList fun _ : ℕ ↦ FlushSample)
  | booking (bookingId : ℕ)
  /-- The arrival check measures from the point. -/
  | measure (bookingId driverId : ℕ) (point : GeoPoint)
  /-- The Directions call from the point. -/
  | route (bookingId driverId : ℕ) (point : GeoPoint)
  | tick (ms : ℕ)
  | setStanding (driverId : ℕ) (standing : Standing)
  | setActiveBookings (driverId : ℕ) (bookings : List ℕ)
  | setZones (zoneAt : GeoPoint → Option Zone)
  | setConfig (config : DispatchConfig)
  | setPickup (bookingId : ℕ) (point : Option GeoPoint)

namespace World

variable (w : World)

/-- An expired key is not there. -/
def hash (driverId : ℕ) : Option DriverHash := (w.hashes driverId).filter fun h ↦ w.now < h.expiresAt

def fix (driverId : ℕ) : Option DriverLocationPing := (w.hash driverId).bind (·.fix)

def member (zoneId driverId : ℕ) : Option GeoPoint := (w.geo zoneId).lookup driverId

/-- What `APPLY_PING_LUA` answers. -/
def applyPing (driverId : ℕ) (ping : DriverLocationPing) : ApplyPingResult :=
  match w.hash driverId with
  | none => .unknown
  | some h =>
    match h.fix with
    | none => .applied ping.seq h.identity
    | some stored =>
      if ping.seq ≤ stored.seq then .discarded stored.seq else .applied ping.seq h.identity

/-- What it writes when it does not discard the ping. A script that fails keeps what it
has written, which is the hash. -/
def store (driverId : ℕ) (ping : DriverLocationPing) : World :=
  match w.hash driverId with
  | none => w
  | some h =>
    { w with
      hashes := Function.update w.hashes driverId
        (some { h with fix := some ping, expiresAt := w.now + driverHashTtlMs })
      geo :=
        if ping.toGeoPoint.onMap then
          Function.update w.geo h.identity.zoneId
            ((w.geo h.identity.zoneId).insert driverId ping.toGeoPoint)
        else w.geo }

def lastFix (driverId : ℕ) : Option Fix :=
  let raw := w.fix driverId
  match Number (raw.map (·.lat)), Number (raw.map (·.lng)) with
  | some lat, some lng =>
    some ⟨⟨lat, lng⟩, raw.map (·.sentAt), raw.bind (·.headingDeg), raw.bind (·.speedKph)⟩
  | _, _ => none

def currentSeq (driverId : ℕ) : ℕ := ((w.fix driverId).map (·.seq)).getD 0

def zoneOf (driverId : ℕ) : Option ℕ := (w.hash driverId).map (·.identity.zoneId)

/-- The members within the radius, nearest first. -/
def geosearch (distanceKm : GeoPoint → GeoPoint → ℚ) (zoneId : ℕ) (centre : GeoPoint) (radiusKm : ℚ) :
    List ℕ :=
  (((w.geo zoneId).entries.filter fun m ↦ distanceKm centre m.2 ≤ radiusKm).mergeSort
    fun m n ↦ distanceKm centre m.2 ≤ distanceKm centre n.2).map (·.1)

/-- The guards of the timed flush. -/
def mayFlush (task : ℕ) : Bool :=
  !w.destroyed task && !w.flushing task && !(w.pending task).entries.isEmpty

def setRow (driverId : ℕ) (f : DriverRow → DriverRow) : World :=
  { w with drivers := Function.update w.drivers driverId ((w.drivers driverId).map f) }

def sampled (row : DriverRow) (sample : FlushSample) : DriverRow :=
  { row with currentLocation := some sample.point, lastPingAt := some sample.sentAt }

def run : Step → World
  | .goOnline d zoneId point => w.setRow d fun row ↦
      { row with
        isOnline := true
        zoneId := some zoneId
        currentLocation := some point
        lastPingAt := some w.now }
  | .goOffline d => w.setRow d fun row ↦ { row with isOnline := false, zoneId := none }
  | .putIdentity d identity vehicleClass longDistance =>
    { w with
      hashes := Function.update w.hashes d
        (some ⟨identity, vehicleClass, longDistance, w.fix d, w.now + driverHashTtlMs⟩) }
  | .applyPing d ping =>
    match w.applyPing d ping with
    | .applied _ _ => w.store d ping
    | _ => w
  | .del d => { w with hashes := Function.update w.hashes d none }
  | .zrem z ds => { w with geo := Function.update w.geo z (ds.foldl (fun m d ↦ m.erase d) (w.geo z)) }
  | .buffer task d sample =>
    if w.destroyed task then w
    else { w with pending := Function.update w.pending task ((w.pending task).insert d sample) }
  | .drain task =>
    if w.mayFlush task then
      { w with
        pending := Function.update w.pending task ∅
        flushing := Function.update w.flushing task true }
    else w
  | .drainDriver task d =>
    { w with pending := Function.update w.pending task ((w.pending task).erase d) }
  | .destroy task =>
    { w with
      pending := Function.update w.pending task ∅
      destroyed := Function.update w.destroyed task true }
  | .flushed task => { w with flushing := Function.update w.flushing task false }
  | .flushPositions batch =>
    { w with drivers := fun d ↦ (w.drivers d).map fun row ↦ ((batch.lookup d).map (sampled row)).getD row }
  | .sampleBookingPath batch =>
    { w with path := w.path ++
        batch.entries.flatMap fun sample ↦ (w.activeBookings sample.1).map fun b ↦ (b, sample.2) }
  | .tick ms => { w with now := w.now + ms }
  | .setStanding d standing =>
    { w with
      drivers := Function.update w.drivers d
        (some (((w.drivers d).map fun row ↦ { row with standing }).getD ⟨standing, false, none, none, none⟩)) }
  | .setActiveBookings d bookings => { w with activeBookings := Function.update w.activeBookings d bookings }
  | .setZones zoneAt => { w with zoneAt }
  | .setConfig config => { w with config }
  | .setPickup b point => { w with pickup := Function.update w.pickup b point }
  | .resolveZone _ | .identity _ | .lastFix _ | .currentSeq _ | .zoneOf _ | .geosearch _ _ _ | .hgetall _
  | .answer _ _ _ _ | .loadConfig | .publish _ _ _ | .publishFleet _ _ _ | .booking _ | .measure _ _ _ | .route _ _ _ => w

/-- Nobody has ever been online. -/
structure Fresh : Prop where
  hashes : ∀ d, w.hashes d = none
  geo : ∀ z, w.geo z = ∅
  pending : ∀ task, w.pending task = ∅
  offline : ∀ d row, w.drivers d = some row → row.isOnline = false

end World

instance : Store Step World where
  commit l w := w.run l

end Towing.Presence
