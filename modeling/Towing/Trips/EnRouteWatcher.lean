import Towing.Process.Calls
import Towing.Trips.Footprints
import Mathlib.Data.Rat.Defs

namespace Towing.Trips

open Towing.Process Towing.Money

/-- A driver's booking, as `track:assign:` remembers it; none is remembered too. -/
abbrev DriverAssignment := Option (ℕ × BookingStatus)

/-- The trips, with what Redis remembers for the pings, each until it lapses. -/
structure Road (P : Type) where
  trips : World
  assignments : ℕ → Option (DriverAssignment × ℕ)
  anchors : ℕ → Option (P × ℕ)

inductive RoadStep (P : Type)
  | trips (l : Step)
  | readAssignment (driverId : ℕ)
  | selectAssignment (driverId : ℕ)
  | cacheAssignment (driverId : ℕ) (value : DriverAssignment)
  | invalidate (driverId : ℕ)
  | readAnchor (b : ℕ)
  | setAnchor (b : ℕ) (ping : P)
  | clearAnchor (b : ℕ)

variable {P α : Type}

def RoadStep.aboutTrips : RoadStep P → Bool
  | .trips _ => true
  | _ => false

namespace Road

variable (w : Road P)

def now : ℕ := w.trips.now

def redisUp : Bool := w.trips.money.redisUp

/-- What is kept under a key, before it lapses. -/
def live {β : Type} (entry : Option (β × ℕ)) : Option β :=
  (entry.filter fun kept ↦ w.redisUp && w.now < kept.2).map (·.1)

def cachedAssignment (driverId : ℕ) : Option DriverAssignment := w.live (w.assignments driverId)

def anchorOf (b : ℕ) : Option P := w.live (w.anchors b)

/-- `activeBookingForDriver`. -/
def assignmentOf (driverId : ℕ) : DriverAssignment :=
  (w.trips.placed.find? fun b ↦
      w.trips.driverOf b = some driverId && (w.trips.status b).any activeForDriver).bind fun b ↦
    (w.trips.status b).map fun s ↦ (b, s)

def run : RoadStep P → Road P
  | .trips l => { w with trips := w.trips.run l }
  | .cacheAssignment d value =>
    if w.redisUp then
      { w with assignments := Function.update w.assignments d (some (value, w.now + 15000)) }
    else w
  | .invalidate d =>
    if w.redisUp then { w with assignments := Function.update w.assignments d none } else w
  | .setAnchor b ping =>
    if w.redisUp ∧ w.anchorOf b = none then
      { w with anchors := Function.update w.anchors b (some (ping, w.now + 7200000)) }
    else w
  | .clearAnchor b =>
    if w.redisUp then { w with anchors := Function.update w.anchors b none } else w
  | .readAssignment _ | .selectAssignment _ | .readAnchor _ => w

end Road

instance : Store (RoadStep P) (Road P) where
  commit l w := w.run l

abbrev RoadRequest (P α : Type) := Proc (RoadStep P) (Road P) Failure α

/-- A request that has nothing to do with pings, made here. -/
def onTrips (q : Request α) : RoadRequest P α := q.lift RoadStep.trips Road.trips

namespace AssignmentCacheService

def forDriver (driverId : ℕ) : RoadRequest P DriverAssignment := do
  match ← Proc.query (.readAssignment driverId) (·.cachedAssignment driverId) with
  | some value => pure value
  | none => do
    let value ← Proc.query (.selectAssignment driverId) (·.assignmentOf driverId)
    Proc.write (.cacheAssignment driverId value)
    pure value

end AssignmentCacheService

namespace EnRouteWatcher

def enRouteMeters : ℚ := 150

/-- Where the booking's first ping was; the first ping itself has no answer. -/
def anchor (b : ℕ) (ping : P) : RoadRequest P (Option P) := do
  match ← Proc.query (.readAnchor b) (·.anchorOf b) with
  | some stored => pure (some stored)
  | none => do
    Proc.write (.setAnchor b ping)
    pure none

def markEnRoute (b driverId : ℕ) : RoadRequest P Unit :=
  tryCatch (do
    onTrips (transition ⟨b, .enRoute, .nothing, false, .markEnRoute driverId⟩)
    Proc.write (.invalidate driverId)) fun _ ↦ pure ()

/-- What a ping makes of a booking that its driver is assigned to. -/
def compare (haversineMeters : P → P → ℚ) (driverId b : ℕ) (ping : P) : RoadRequest P Unit := do
  match ← anchor b ping with
  | none => pure ()
  | some start =>
    if haversineMeters ping start < enRouteMeters then pure ()
    else do
      markEnRoute b driverId
      Proc.write (.clearAnchor b)

def onPing (haversineMeters : P → P → ℚ) (driverId : ℕ) (ping : P) : RoadRequest P Unit := do
  match ← AssignmentCacheService.forDriver driverId with
  | none => pure ()
  | some (b, status) =>
    if status = .assigned then compare haversineMeters driverId b ping else pure ()

end EnRouteWatcher

/-- The operations on the trips, the pings, and the answers that the transitions of
the former drop from the cache. -/
inductive Roams (env : Env) (haversineMeters : P → P → ℚ) : RoadRequest P Unit → Prop
  | operates {q : Request Unit} (h : Operates env q)
      (hq : ∀ b d, q ≠ JobExecutionService.markEnRoute b d) :
      Roams env haversineMeters (onTrips q)
  | ping (driverId : ℕ) (ping : P) :
      Roams env haversineMeters (EnRouteWatcher.onPing haversineMeters driverId ping)
  | invalidate (driverId : ℕ) : Roams env haversineMeters (Proc.write (.invalidate driverId))

/-! What a ping can write. -/

variable {Q : RoadStep P → Prop} {haversineMeters : P → P → ℚ} {b d : ℕ}

theorem forDriver_only (hQ : ∀ l : RoadStep P, l.aboutTrips = false → Q l) :
    (AssignmentCacheService.forDriver d : RoadRequest P DriverAssignment).Only Q := by
  refine Proc.Only.bind ⟨hQ _ rfl, fun _ ↦ trivial⟩ fun found ↦ ?_
  cases found with
  | some value => trivial
  | none =>
    refine Proc.Only.bind ⟨hQ _ rfl, fun _ ↦ trivial⟩ fun value ↦ ?_
    exact Proc.Only.bind ⟨hQ _ rfl, fun _ ↦ trivial⟩ fun _ ↦ trivial

theorem compare_only (ping : P) (hQ : ∀ l : RoadStep P, l.aboutTrips = false → Q l)
    (hmove : Q (.trips (.move ⟨b, .enRoute, .nothing, false, .markEnRoute d⟩))) :
    (EnRouteWatcher.compare haversineMeters d b ping).Only Q := by
  refine Proc.Only.bind ?_ fun start ↦ ?_
  · refine Proc.Only.bind ⟨hQ _ rfl, fun _ ↦ trivial⟩ fun stored ↦ ?_
    cases stored with
    | some stored => trivial
    | none => exact Proc.Only.bind ⟨hQ _ rfl, fun _ ↦ trivial⟩ fun _ ↦ trivial
  · cases start with
    | none => trivial
    | some start =>
      dsimp only
      split_ifs
      · trivial
      · refine Proc.Only.bind ?_ fun _ ↦ ⟨hQ _ rfl, fun _ ↦ trivial⟩
        refine Proc.Only.handle ?_ fun _ ↦ trivial
        exact Proc.Only.bind ⟨hmove, fun _ ↦ trivial⟩ fun _ ↦ ⟨hQ _ rfl, fun _ ↦ trivial⟩

end Towing.Trips
