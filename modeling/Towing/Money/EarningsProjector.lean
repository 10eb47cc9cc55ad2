import Mathlib.Algebra.BigOperators.Group.Finset.Basic
import Mathlib.Algebra.Order.BigOperators.Group.Finset
import Towing.Db.Ledger
import Towing.Process.OrderedMap

namespace Towing.Money

open Towing.Db Towing.Process

/-! The `earnings_daily` projection. Money is in paise, and an instant of the database in
microseconds. -/

/-- A row of `wallet_transactions`: what the projection reads of it. -/
structure EarningsRow where
  type : WalletTxnType
  amount : ℤ
  refId : Option ℕ
  createdAt : ℤ

/-- A row of `bookings`, whose money columns are kept non-negative by a `CHECK`. -/
structure EarningsBooking where
  fleetId : Option ℕ
  driverId : Option ℕ
  total : ℕ
  commissionAmount : ℕ

structure EarningsDb where
  transactions : List EarningsRow
  bookings : ℕ → Option EarningsBooking

/-- One cell of the projection: the grain is the identity. -/
structure EarningsGrainKey where
  fleetId : ℕ
  day : ℤ
  driverId : ℕ
  deriving DecidableEq, Repr

structure EarningsCell where
  jobs : ℕ
  gross : ℕ
  commission : ℕ
  pool : ℤ
  driverShare : ℤ
  fleetShare : ℤ
  deriving DecidableEq, Repr

/-- The table `earnings_daily`. -/
abbrev EarningsDaily := OrderedMap EarningsGrainKey EarningsCell

def earningTypes : List WalletTxnType := [.driverShareCredit, .fleetShareCredit, .fareCredit]

/-- `(at time zone 'Asia/Kolkata')::date`, five and a half hours ahead, as a day number. -/
def istDay (instant : ℤ) : ℤ := (instant + 19_800_000_000) / 86_400_000_000

namespace EarningsDb

variable (db : EarningsDb)

/-- The grain of an earning row whose booking has a fleet and a driver. -/
def grain (t : EarningsRow) : Option EarningsGrainKey :=
  if t.type ∈ earningTypes then
    (t.refId.bind db.bookings).bind fun b ↦
      b.fleetId.bind fun fleetId ↦ b.driverId.map fun driverId ↦
        { fleetId, day := istDay t.createdAt, driverId }
  else none

/-- The earning rows of a cell that are not older than `since`. -/
def earned (since : Option ℤ) (key : EarningsGrainKey) : List EarningsRow :=
  db.transactions.filter fun t ↦ since.all (· ≤ t.createdAt) && db.grain t = some key

def totalOf (bookingId : ℕ) : ℕ := (db.bookings bookingId).elim 0 (·.total)

def commissionOf (bookingId : ℕ) : ℕ := (db.bookings bookingId).elim 0 (·.commissionAmount)

end EarningsDb

/-- `group by b.id`: the bookings that some rows are about. -/
def bookingsOf (rows : List EarningsRow) : List ℕ := OrderedMap.firsts (rows.filterMap (·.refId))

/-- `sum(t.amount) filter (where t.type = …)` over the legs of one booking. -/
def sumOfType (rows : List EarningsRow) (type : WalletTxnType) (bookingId : ℕ) : ℤ :=
  ((rows.filter fun t ↦ t.type = type && t.refId = some bookingId).map (·.amount)).sum

/-- What `projectCell` selects, `none` where no leg is left. -/
def recomputed (db : EarningsDb) (key : EarningsGrainKey) : Option EarningsCell :=
  let rows := db.earned none key
  let legs := bookingsOf rows
  let driverShare := (legs.map (sumOfType rows .driverShareCredit)).sum
  let fleetShare := (legs.map (sumOfType rows .fleetShareCredit)).sum
  let netFare := (legs.map (sumOfType rows .fareCredit)).sum
  if legs = [] then none
  else some
    { jobs := legs.length
      gross := (legs.map db.totalOf).sum
      commission := (legs.map db.commissionOf).sum
      pool := driverShare + fleetShare + netFare
      driverShare := driverShare + netFare
      fleetShare }

/-- Recomputes one cell from the ledger, absolutely. -/
def projectCell (db : EarningsDb) (earnings : EarningsDaily) (key : EarningsGrainKey) :
    Bool × EarningsDaily :=
  match recomputed db key with
  | some cell => (true, earnings.set key cell)
  | none => (false, earnings.erase key)

/-- `now` is a `Date`, in milliseconds. -/
structure RebuildOptions where
  fleetId : Option ℕ := none
  sinceDays : Option ℤ := none
  now : ℤ

/-- The instant `days` before `now`. -/
def daysBefore (now days : ℤ) : ℤ := (now - days * 86_400_000) * 1000

/-- No window where `sinceDays` is missing or zero. -/
def RebuildOptions.since (options : RebuildOptions) : Option ℤ :=
  (options.sinceDays.filter (· ≠ 0)).map (daysBefore options.now)

def grainKeysSince (db : EarningsDb) (options : RebuildOptions) : List EarningsGrainKey :=
  OrderedMap.firsts (((db.transactions.filter fun t ↦ options.since.all (· ≤ t.createdAt)).filterMap
    db.grain).filter fun key ↦ options.fleetId.all (· = key.fleetId))

structure RebuildResult where
  cells : ℕ
  deleted : ℕ
  deriving DecidableEq, Repr

/-- `projectCell` over several keys, with the number of cells that then exist. -/
def projectCells (db : EarningsDb) (earnings : EarningsDaily) (keys : List EarningsGrainKey) :
    ℕ × EarningsDaily :=
  keys.foldl
    (fun done key ↦
      let (made, earnings) := projectCell db done.2 key
      (if made then done.1 + 1 else done.1, earnings))
    (0, earnings)

/-- The cold rebuild: the keys with activity in the window, and then the cells of the window
that no such key accounts for. -/
def rebuildEarnings (db : EarningsDb) (earnings : EarningsDaily) (options : RebuildOptions) :
    RebuildResult × EarningsDaily :=
  let keys := grainKeysSince db options
  let (cells, earnings) := projectCells db earnings keys
  let existing := earnings.keys.filter fun key ↦
    options.fleetId.all (· = key.fleetId) && options.since.all (istDay · ≤ key.day)
  let orphans := existing.filter (· ∉ keys)
  (⟨cells, orphans.length⟩, (projectCells db earnings orphans).2)

structure ProjectionDrift where
  key : EarningsGrainKey
  projectedGross : ℕ
  ledgerGross : ℕ
  deriving DecidableEq, Repr

/-- The cells whose gross disagrees with the ledger, one row for each booking before summing. -/
def projectionDrift (db : EarningsDb) (earnings : EarningsDaily) (sinceDays : Option ℤ) (now : ℤ) :
    List ProjectionDrift :=
  let since := daysBefore now (sinceDays.getD 7)
  let truth := OrderedMap.firsts ((db.transactions.filter fun t ↦ since ≤ t.createdAt).filterMap db.grain)
  -- the full outer join
  let keys := truth ++ earnings.keys.filter (· ∉ truth)
  keys.filterMap fun key ↦
    let projectedGross := (earnings.get? key).elim 0 (·.gross)
    let ledgerGross := ((bookingsOf (db.earned (some since) key)).map db.totalOf).sum
    if projectedGross ≠ ledgerGross ∧ istDay since ≤ key.day then
      some { key, projectedGross, ledgerGross }
    else none

end Towing.Money
