import Towing.Process.OrderedMap
import Mathlib.Data.Rat.Defs

namespace Towing.Realtime

open Process

/-- `atMs` is what `Date.parse` makes of the timestamp. -/
structure TruckPosition where
  truckId : String
  lat : ℚ
  lng : ℚ
  heading : Option ℚ
  speedKph : Option ℚ
  atMs : ℤ
  deriving DecidableEq

structure LocationPing where
  fleetId : String
  position : TruckPosition
  deriving DecidableEq

/-- What came over the wire: the `fleetId` if it is a string, and what `truckPositionSchema` makes
of the payload. -/
structure RawPing where
  fleetId : Option String
  position : Option TruckPosition

abbrev PendingByTruck := OrderedMap String TruckPosition

structure LocationBatcher where
  pending : OrderedMap String PendingByTruck
  dropped : ℕ

def LocationBatcher.empty : LocationBatcher := ⟨[], 0⟩

/-- `none` is a payload that is not an object. -/
def RawPing.wellFormed : Option RawPing → Option LocationPing
  | none => none
  | some raw =>
    match raw.fleetId with
    | none => none
    | some fleetId => if fleetId.length = 0 then none else raw.position.map fun position ↦ ⟨fleetId, position⟩

abbrev Drained := OrderedMap String (List TruckPosition)

namespace LocationBatcher

def put (b : LocationBatcher) (p : LocationPing) : LocationBatcher :=
  let byTruck := (OrderedMap.get? p.fleetId b.pending).getD []
  match OrderedMap.get? p.position.truckId byTruck with
  | some existing =>
    if existing.atMs > p.position.atMs then
      { b with
        pending := OrderedMap.set p.fleetId byTruck b.pending
        dropped := b.dropped + 1 }
    else
      { b with
        pending := OrderedMap.set p.fleetId (OrderedMap.set p.position.truckId p.position byTruck) b.pending }
  | none =>
    { b with
      pending := OrderedMap.set p.fleetId (OrderedMap.set p.position.truckId p.position byTruck) b.pending }

def accept (b : LocationBatcher) (raw : Option RawPing) : Bool × LocationBatcher :=
  match RawPing.wellFormed raw with
  | none => (false, b)
  | some p => (true, b.put p)

def takeDroppedCount (b : LocationBatcher) : ℕ × LocationBatcher := (b.dropped, { b with dropped := 0 })

def drain (b : LocationBatcher) : Drained × LocationBatcher :=
  (b.pending.filterMap fun e ↦
    if 0 < e.2.length then some (e.1, e.2.map Prod.snd) else none, { b with pending := [] })

end LocationBatcher

inductive Op where
  | ping (raw : Option RawPing)
  | drain

structure Relayed where
  batcher : LocationBatcher
  batches : List Drained

def Relayed.step (r : Relayed) : Op → Relayed
  | .ping raw => { r with batcher := (r.batcher.accept raw).2 }
  | .drain =>
    let (batch, batcher) := r.batcher.takeDroppedCount.2.drain
    ⟨batcher, r.batches ++ [batch]⟩

def run (ops : List Op) : Relayed := ops.foldl Relayed.step ⟨.empty, []⟩

/-- The timestamps that leave for one truck in one batch. -/
def timesIn (truckId : String) (batch : Drained) : List ℤ :=
  batch.flatMap fun e ↦ (e.2.filter fun position ↦ position.truckId = truckId).map TruckPosition.atMs

def emitted (truckId : String) (ops : List Op) : List ℤ := (run ops).batches.flatMap (timesIn truckId)

/-! ### What was received, by the drains it lies between -/

structure Heard where
  closed : List (List LocationPing)
  current : List LocationPing

def Heard.step (h : Heard) : Op → Heard
  | .ping raw => { h with current := h.current ++ (RawPing.wellFormed raw).toList }
  | .drain => ⟨h.closed ++ [h.current], []⟩

def heard (ops : List Op) : Heard := ops.foldl Heard.step ⟨[], []⟩

def received (ops : List Op) : List LocationPing := (heard ops).closed.flatten ++ (heard ops).current

/-- The pings of one window, fleet by fleet. -/
def groups (window : List LocationPing) : List (List LocationPing) :=
  (OrderedMap.firsts (window.map LocationPing.fleetId)).map fun fleetId ↦
    window.filter fun p ↦ p.fleetId = fleetId

/-- Whenever a truck is heard again after a drain, it is heard with a ping newer than all before. -/
def OnlyForward (ops : List Op) : Prop :=
  ∀ truckId, ((heard ops).closed.flatMap groups).Pairwise fun g h ↦
    ∀ p ∈ g, p.position.truckId = truckId → ∀ q ∈ h, q.position.truckId = truckId →
      ∃ r ∈ h, r.position.truckId = truckId ∧ p.position.atMs < r.position.atMs

theorem run_concat (ops : List Op) (op : Op) : run (ops ++ [op]) = (run ops).step op := by
  rw [run, List.foldl_concat]
  rfl

theorem heard_concat (ops : List Op) (op : Op) : heard (ops ++ [op]) = (heard ops).step op := by
  rw [heard, List.foldl_concat]
  rfl

end Towing.Realtime
