import Towing.Arith.Double
import Towing.Db.Keys

namespace Towing.Money

open Towing.Arith Towing.Db

inductive Band
  | A
  | B
  | C
  deriving DecidableEq, Repr

/-- A percentage in hundredths of a percent, as `numeric(5,2)` stores it. -/
abbrev Pct := ℤ

def Band.label : Band → String
  | .A => "A"
  | .B => "B"
  | .C => "C"

/-- How JavaScript prints the percentage. -/
def Pct.text (pct : Pct) : String :=
  let whole := toString (pct / 100)
  if pct % 100 = 0 then whole
  else if pct % 10 = 0 then whole ++ "." ++ toString (pct % 100 / 10)
  else if pct % 100 < 10 then whole ++ ".0" ++ toString (pct % 100)
  else whole ++ "." ++ toString (pct % 100)

def bandPct : Band → Pct
  | .A => 1000
  | .B => 800
  | .C => 500

/-- `Number` of a stored percentage. -/
def Pct.number (pct : Pct) : ℚ := double (pct / 100)

def commissionPaiseAtPct (totalPaise : ℤ) (pct : Pct) : ℤ := percentOf totalPaise pct.number

def commissionPaise (totalPaise : ℤ) (band : Band) : ℤ :=
  commissionPaiseAtPct totalPaise (bandPct band)

structure PoolSplit where
  driverPaise : ℤ
  fleetPaise : ℤ

def splitPool (poolPaise : ℤ) (driverSharePct : Pct) : PoolSplit :=
  let fleetPaise := percentOf poolPaise (double (100 - driverSharePct.number))
  ⟨poolPaise - fleetPaise, fleetPaise⟩

structure SettlementInput where
  totalPaise : ℤ
  band : Band
  commissionPct : Option Pct
  driverSharePct : Option Pct

inductive LegOwner
  | driver
  | fleet
  deriving DecidableEq, Repr

structure SettlementLeg where
  owner : LegOwner
  type : WalletTxnType
  amountPaise : ℤ
  deriving DecidableEq, Repr

structure Settlement where
  grossPaise : ℤ
  commissionPaise : ℤ
  poolPaise : ℤ
  fleetSharePaise : ℤ
  driverSharePaise : ℤ
  legs : List SettlementLeg
  deriving DecidableEq, Repr

/-- Gross → commission → pool → the legs to post. A zero leg is dropped. -/
def computeSettlement (input : SettlementInput) : Except String Settlement :=
  if ¬(0 ≤ input.totalPaise ∧ input.totalPaise ≤ 2 ^ 53 - 1) then
    .error ("Settlement needs a non-negative integer paise total, got " ++ toString input.totalPaise)
  else
    let commission := match input.commissionPct with
      | some pct => commissionPaiseAtPct input.totalPaise pct
      | none => commissionPaise input.totalPaise input.band
    let pool := input.totalPaise - commission
    match input.driverSharePct with
    | none => .ok
        { grossPaise := input.totalPaise
          commissionPaise := commission
          poolPaise := pool
          fleetSharePaise := 0
          driverSharePaise := pool
          legs := if 0 < pool then [⟨.driver, .fareCredit, pool⟩] else [] }
    | some share =>
      if share < 0 ∨ 10000 < share then
        .error ("driverSharePct must be 0..100, got " ++ toString share)
      else
        let split := splitPool pool share
        .ok
          { grossPaise := input.totalPaise
            commissionPaise := commission
            poolPaise := pool
            fleetSharePaise := split.fleetPaise
            driverSharePaise := split.driverPaise
            legs := (if 0 < split.driverPaise then
                [⟨.driver, .driverShareCredit, split.driverPaise⟩] else []) ++
              if 0 < split.fleetPaise then
                [⟨.fleet, .fleetShareCredit, split.fleetPaise⟩] else [] }

structure FleetShare where
  fleetId : ℕ
  driverSharePct : Pct

structure SettlementCredit where
  bookingId : ℕ
  totalPaise : ℤ
  band : Band
  commissionPct : Option Pct
  driverId : ℕ
  fleet : Option FleetShare

/-- The legs `creditBookingSettlement` posts. -/
def settlementLegs (input : SettlementCredit) : Except String (List (LedgerLeg LedgerKey)) :=
  match computeSettlement ⟨input.totalPaise, input.band, input.commissionPct,
      input.fleet.map (·.driverSharePct)⟩ with
  | .error e => .error e
  | .ok settlement => .ok <| settlement.legs.map fun leg ↦
    { owner := match leg.owner with
        | .driver => ⟨.driver, input.driverId⟩
        | .fleet => ⟨.fleet, (input.fleet.map (·.fleetId)).getD 0⟩
      type := leg.type
      amountPaise := .int leg.amountPaise
      reason := match leg.type, input.fleet with
        | .driverShareCredit, some fleet => "Net earning (Band " ++ input.band.label ++ ", " ++
            Pct.text fleet.driverSharePct ++ "% of pool)"
        | .fleetShareCredit, some fleet => "Fleet share (Band " ++ input.band.label ++ ", " ++
            Pct.text (10000 - fleet.driverSharePct) ++ "% of pool)"
        | _, _ => "Net fare after commission (Band " ++ input.band.label ++ ", independent)"
      refId := some (.booking input.bookingId)
      idempotencyKey := match leg.type with
        | .driverShareCredit => .bookingDriverShare input.bookingId
        | .fleetShareCredit => .bookingFleetShare input.bookingId
        | _ => .bookingNetFare input.bookingId }

end Towing.Money
