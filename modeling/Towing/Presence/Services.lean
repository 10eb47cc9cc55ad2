import Towing.Money.World
import Towing.Presence.World

namespace Towing.Presence

open Towing.Process
open Towing.Money (Failure)

abbrev Request (α : Type) := Proc Step World Failure α

def arrivalRadiusMeters : ℕ := 500

structure DriverPresenceResponse where
  isOnline : Bool
  zone : Option Zone
  /-- Nothing is captured while offline. -/
  pingIntervalMs : Option ℕ
  staleAfterMs : ℕ
  seq : ℕ

structure DriverLocationAccepted where
  accepted : ℕ
  discarded : ℕ
  seq : ℕ

namespace PresenceStore

def putIdentity (d : ℕ) (identity : DriverPresenceIdentity) (vehicleClass : Option ℕ)
    (longDistance : Bool) : Request Unit :=
  Proc.write (.putIdentity d identity vehicleClass longDistance)

/-- What the script comes back with: the error of its `GEOADD`, where that refuses the
point. -/
def reply (w : World) (d : ℕ) (ping : DriverLocationPing) : Except Failure ApplyPingResult :=
  match w.applyPing d ping with
  | .applied seq identity =>
    if ping.toGeoPoint.onMap then .ok (.applied seq identity)
    else .error (.error "invalid longitude,latitude pair")
  | result => .ok result

def applyPing (d : ℕ) (ping : DriverLocationPing) : Request ApplyPingResult :=
  Proc.attempt (.applyPing d ping) fun w ↦ reply w d ping

def lastFix (d : ℕ) : Request (Option Fix) := Proc.query (.lastFix d) fun w ↦ w.lastFix d

def currentSeq (d : ℕ) : Request ℕ := Proc.query (.currentSeq d) fun w ↦ w.currentSeq d

def zoneOf (d : ℕ) : Request (Option ℕ) := Proc.query (.zoneOf d) fun w ↦ w.zoneOf d

/-- Two commands in one pipeline; others' may fall between them. -/
def evict (d : ℕ) (zoneId : Option ℕ) : Request Unit :=
  match zoneId with
  | some zoneId => do
    Proc.write (.zrem zoneId [d])
    Proc.write (.del d)
  | none => Proc.write (.del d)

/-- The hash of each, `none` where it is gone. -/
def hgetalls : List ℕ → Request (List (ℕ × Option DriverHash))
  | [] => pure []
  | d :: ds => do
    let hash ← Proc.query (.hgetall d) fun w ↦ w.hash d
    let rest ← hgetalls ds
    pure ((d, hash) :: rest)

def readRepair (zoneId : ℕ) (driverIds : List ℕ) : Request Unit := Proc.write (.zrem zoneId driverIds)

/-- The members within the radius with their hashes; those without one are dropped
from the set. -/
def searchZone (distanceKm : GeoPoint → GeoPoint → ℚ) (zoneId : ℕ) (centre : GeoPoint) (radiusKm : ℚ) :
    Request (List (ℕ × DriverHash)) := do
  let ids ← Proc.query (.geosearch zoneId centre radiusKm) fun w ↦
    w.geosearch distanceKm zoneId centre radiusKm
  let results ← hgetalls ids
  let orphans := results.filterMap fun r ↦ if r.2.isNone then some r.1 else none
  Proc.when (orphans ≠ []) (readRepair zoneId orphans)
  pure (results.filterMap fun r ↦ r.2.map fun h ↦ (r.1, h))

end PresenceStore

namespace DriverPresenceRepo

def identity (d : ℕ) : Request (Option DriverRow) := Proc.query (.identity d) fun w ↦ w.drivers d

def goOnline (d zoneId : ℕ) (point : GeoPoint) : Request Unit := Proc.write (.goOnline d zoneId point)

def goOffline (d : ℕ) : Request Unit := Proc.write (.goOffline d)

end DriverPresenceRepo

namespace LocationFlushService

def write (batch : AList fun _ : ℕ ↦ FlushSample) : Request Unit :=
  if batch.entries.isEmpty then pure ()
  else do
    Proc.write (.flushPositions batch)
    Proc.write (.sampleBookingPath batch)

def buffer (task d : ℕ) (sample : FlushSample) : Request Unit := Proc.write (.buffer task d sample)

def flushDriver (task d : ℕ) : Request Unit := do
  let sample ← Proc.query (.drainDriver task d) fun w ↦ (w.pending task).lookup d
  match sample with
  | none => pure ()
  | some sample => write (AList.singleton d sample)

def flush (task : ℕ) : Request Unit := do
  let batch ← Proc.query (.drain task) fun w ↦ if w.mayFlush task then some (w.pending task) else none
  match batch with
  | none => pure ()
  | some batch => do
    write batch
    Proc.write (.flushed task)

def onModuleDestroy (task : ℕ) : Request Unit := do
  let batch ← Proc.query (.destroy task) fun w ↦ w.pending task
  write batch

end LocationFlushService

namespace DriverPresenceService

def presence (zone : Option Zone) (isOnline : Bool) (seq : ℕ) : Request DriverPresenceResponse := do
  let config ← Proc.query .loadConfig (·.config)
  pure ⟨isOnline, zone, if isOnline then some config.pingIdleMs else none, config.stalePingSeconds * 1000, seq⟩

def outsideZone : Failure :=
  .api ⟨422, "driver_outside_zone", "You are outside every service area we operate in", []⟩

def suspended : Failure :=
  .api ⟨403, "account_not_active", "Your account is suspended pending review. Please contact support.", []⟩

def fleetSuspended : Failure :=
  .api ⟨403, "account_not_active",
    "Your fleet is suspended. Please contact your fleet owner or support.", []⟩

def goOnline (d : ℕ) (point : GeoPoint) : Request DriverPresenceResponse := do
  let zone ← Proc.query (.resolveZone point) fun w ↦ w.zoneAt point
  match zone with
  | none => throw outsideZone
  | some zone =>
    let row ← DriverPresenceRepo.identity d
    match row with
    | none => throw (.api ⟨404, "not_found", "Driver not found", []⟩)
    | some row =>
      if row.standing.suspensionPending then throw suspended
      else if row.standing.fleetSuspended then throw fleetSuspended
      else
        DriverPresenceRepo.goOnline d zone.id point
        PresenceStore.putIdentity d ⟨zone.id, row.standing.fleetId, row.standing.truckId⟩
          row.standing.vehicleClass row.standing.longDistance
        presence (some zone) true 0

def goOffline (task d : ℕ) : Request DriverPresenceResponse := do
  LocationFlushService.flushDriver task d
  let cached ← PresenceStore.zoneOf d
  let zoneId ← match cached with
    | some zoneId => pure (some zoneId)
    | none => do
      let row ← DriverPresenceRepo.identity d
      pure (row.bind (·.zoneId))
  PresenceStore.evict d zoneId
  DriverPresenceRepo.goOffline d
  presence none false 0

def evictRevoked (d : ℕ) : Request Unit := do
  let zoneId ← PresenceStore.zoneOf d
  PresenceStore.evict d zoneId
  DriverPresenceRepo.goOffline d

end DriverPresenceService

namespace LocationIngestService

def notOnline : Failure := .api ⟨409, "driver_not_online", "Go online before streaming location", []⟩

/-- Whether the hash could be rebuilt from the row. -/
def rehydrate (d : ℕ) : Request Bool := do
  let row ← DriverPresenceRepo.identity d
  match row with
  | none => pure false
  | some row =>
    match row.zoneId with
    | none => pure false
    | some zoneId =>
      if row.isOnline && row.standing.kycApproved then do
        PresenceStore.putIdentity d ⟨zoneId, row.standing.fleetId, row.standing.truckId⟩
          row.standing.vehicleClass row.standing.longDistance
        pure true
      else pure false

/-- The ping goes out to who follows the driver, and to who follows the truck. -/
def fanOut (d : ℕ) (ping : DriverLocationPing) (identity : DriverPresenceIdentity) : Request Unit := do
  Proc.write (.publish d ping identity)
  Proc.when (identity.fleetId.isSome ∧ identity.truckId.isSome) (Proc.write (.publishFleet d ping identity))

/-- What follows the script, once it has answered. -/
def conclude (task d : ℕ) (ping : DriverLocationPing) : ApplyPingResult → Request Bool
  | .applied _ identity => do
    fanOut d ping identity
    LocationFlushService.buffer task d ⟨ping.toGeoPoint, ping.sentAt⟩
    pure true
  | _ => pure false

/-- Whether the ping is accepted. -/
def applyOne (task d : ℕ) (ping : DriverLocationPing) : Request Bool := do
  let result ← PresenceStore.applyPing d ping
  match result with
  | .unknown =>
    let rehydrated ← rehydrate d
    if rehydrated then do
      let result ← PresenceStore.applyPing d ping
      conclude task d ping result
    else throw notOnline
  | result => conclude task d ping result

/-- The pings in array order, on top of what has been counted so far. -/
def applyAll (task d : ℕ) : List DriverLocationPing → DriverLocationAccepted → Request DriverLocationAccepted
  | [], sofar => pure sofar
  | ping :: pings, sofar => do
    let accepted ← applyOne task d ping
    applyAll task d pings (if accepted then { sofar with accepted := sofar.accepted + 1, seq := ping.seq }
      else { sofar with discarded := sofar.discarded + 1 })

def ingest (task d : ℕ) (pings : List DriverLocationPing) : Request DriverLocationAccepted := do
  let counted ← applyAll task d pings ⟨0, 0, 0⟩
  if counted.accepted = 0 then do
    let seq ← PresenceStore.currentSeq d
    pure { counted with seq }
  else pure counted

end LocationIngestService

namespace DriverCandidatesRepo

/-- A hash without a fix has no `at`, and is passed over. -/
def candidate (now staleMs : ℕ) (member : ℕ × DriverHash) : Option DriverCandidate :=
  match member.2.fix with
  | none => none
  | some p =>
    if staleMs ≤ now - p.sentAt then none
    else some ⟨member.1, p.toGeoPoint, p.sentAt, p.headingDeg, member.2.vehicleClass, member.2.longDistance,
      member.2.identity.fleetId, member.2.identity.truckId⟩

def inZone (distanceKm : GeoPoint → GeoPoint → ℚ) (zoneId : ℕ) (centre : GeoPoint) (radiusKm : ℚ) :
    Request (List DriverCandidate) := do
  let (now, config) ← Proc.query .loadConfig fun w ↦ (w.now, w.config)
  let members ← PresenceStore.searchZone distanceKm zoneId centre radiusKm
  let candidates := members.filterMap (candidate now (config.stalePingSeconds * 1000))
  Proc.write (.answer zoneId centre radiusKm candidates)
  pure candidates

end DriverCandidatesRepo

namespace JobExecutionService

/-- Nothing to measure from, or to, is let through. -/
def requireNearPickup (haversineMeters : GeoPoint → GeoPoint → ℚ) (b d : ℕ) : Request Unit := do
  let fix ← PresenceStore.lastFix d
  let pickup ← Proc.query (.booking b) fun w ↦ w.pickup b
  match fix, pickup with
  | some fix, some pickup =>
    Proc.write (.measure b d fix.point)
    let metres := haversineMeters fix.point pickup
    if metres ≤ arrivalRadiusMeters then pure ()
    else throw (.api ⟨409, "invalid_booking_state", "You are too far from the pickup to mark arrival",
      [("distanceMeters", toString (metres + 1 / 2).floor), ("radiusMeters", toString arrivalRadiusMeters)]⟩)
  | _, _ => pure ()

end JobExecutionService

namespace OfferService

/-- What follows an assignment: the route from where the driver is, which without a fix
is where the row last had them. -/
def planRoute (b d : ℕ) : Request Unit := do
  let fix ← PresenceStore.lastFix d
  let pickup ← Proc.query (.booking b) fun w ↦ w.pickup b
  match pickup with
  | none => pure ()
  | some _ =>
    match fix with
    | some fix => Proc.write (.route b d fix.point)
    | none =>
      let row ← DriverPresenceRepo.identity d
      match row.bind (·.currentLocation) with
      | none => pure ()
      | some point => Proc.write (.route b d point)

end OfferService

/-- Who reads and writes the drivers' presence; what others decide meanwhile comes in
single steps. -/
inductive Presents (distanceKm haversineMeters : GeoPoint → GeoPoint → ℚ) : Request Unit → Prop
  | goOnline (d : ℕ) (point : GeoPoint) :
      Presents distanceKm haversineMeters (DriverPresenceService.goOnline d point).ignore
  | goOffline (task d : ℕ) :
      Presents distanceKm haversineMeters (DriverPresenceService.goOffline task d).ignore
  | evictRevoked (d : ℕ) : Presents distanceKm haversineMeters (DriverPresenceService.evictRevoked d)
  | ingest (task d : ℕ) (pings : List DriverLocationPing) :
      Presents distanceKm haversineMeters (LocationIngestService.ingest task d pings).ignore
  | flush (task : ℕ) : Presents distanceKm haversineMeters (LocationFlushService.flush task)
  | onModuleDestroy (task : ℕ) :
      Presents distanceKm haversineMeters (LocationFlushService.onModuleDestroy task)
  | inZone (zoneId : ℕ) (centre : GeoPoint) (radiusKm : ℚ) :
      Presents distanceKm haversineMeters
        (DriverCandidatesRepo.inZone distanceKm zoneId centre radiusKm).ignore
  | arrived (b d : ℕ) :
      Presents distanceKm haversineMeters (JobExecutionService.requireNearPickup haversineMeters b d)
  | planRoute (b d : ℕ) : Presents distanceKm haversineMeters (OfferService.planRoute b d)
  | tick (ms : ℕ) : Presents distanceKm haversineMeters (Proc.write (.tick ms))
  | setStanding (d : ℕ) (standing : Standing) :
      Presents distanceKm haversineMeters (Proc.write (.setStanding d standing))
  | setActiveBookings (d : ℕ) (bookings : List ℕ) :
      Presents distanceKm haversineMeters (Proc.write (.setActiveBookings d bookings))
  | setZones (zoneAt : GeoPoint → Option Zone) :
      Presents distanceKm haversineMeters (Proc.write (.setZones zoneAt))
  | setConfig (config : DispatchConfig) :
      Presents distanceKm haversineMeters (Proc.write (.setConfig config))
  | setPickup (b : ℕ) (point : Option GeoPoint) :
      Presents distanceKm haversineMeters (Proc.write (.setPickup b point))

end Towing.Presence
