import Towing.Arith.Rounding
import Towing.Money.RefundsService
import Towing.Trips.AdminBookingsService

namespace Towing.Trips

open Towing.Arith Towing.Db Towing.Process Towing.Money

namespace AdminDisputesService

open AdminBookingsService (actionRow)

def conflict (message : String) (details : List (String × String)) : Failure :=
  .api (.conflict message details)

def disputeOpenedFromStatuses : List BookingStatus := [.inProgress, .completed, .paid]

def openDispute (b : ℕ) : Request Unit := do
  let r ← actionRow b
  Proc.when (r.booking.status ∉ disputeOpenedFromStatuses)
    (throw (conflict ("A " ++ r.booking.status.label ++
      " booking has no dispute exit — disputes open from in_progress, completed, paid")
      [("status", r.booking.status.label)]))
  Proc.attempt (.openDispute b r.booking.status) fun w ↦
    match w.openDisputeError b with
    | some (.uniqueViolation _) =>
      .error (conflict "This booking already has an open dispute" [("bookingId", toString b)])
    | some e => .error e
    | none => .ok ()

end AdminDisputesService

end Towing.Trips
