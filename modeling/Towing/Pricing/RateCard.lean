import Towing.Money.Settlement
import Towing.Trips.Eligibility
import Mathlib.Data.List.Sort
import Mathlib.Data.Rat.Defs

namespace Towing.Pricing

open Towing.Money Towing.Trips

inductive RuleKind
  | slab
  | longDistance
  | roadside
deriving DecidableEq

/-- A row of `pricing_rules`; fares in paise, distances in kilometres. -/
structure RuleRow where
  id : ℕ
  ruleKind : RuleKind
  serviceType : Option ServiceType
  vehicleClass : Option VehicleClass
  maxKm : Option ℚ
  pricePaise : ℤ
  priceMaxPaise : Option ℤ
  isActive : Bool

/-- The row of `charge_config`, and what is made of it. -/
structure ChargeConfigValues where
  nightPct : ℚ
  nightStartHour : ℕ
  nightEndHour : ℕ
  highwayChargePaise : ℤ
  accidentChargePaise : ℤ
  waitingFreeMinutes : ℕ
  waitingPerMinutePaise : ℤ
  surgePctHigh : ℚ
  surgePctPeak : ℚ
  haversineRoadFactor : ℚ
  taxPct : ℚ
  taxLabel : String
  cancelFreeMinutes : ℕ
  cancelPartialMinutes : ℕ
  cancelPartialFeePaise : ℤ
  cancelDriverCompPct : ℚ
  payoutAutoApproveMaxPaise : ℤ

/-- A row of `commission_config`. -/
structure CommissionRow where
  band : Band
  pct : Pct
deriving DecidableEq

structure DistanceBandRule where
  maxKm : ℚ
  pricePaise : ℤ
  priceMaxPaise : Option ℤ

structure PricingRuleSet where
  slabs : VehicleClass → List DistanceBandRule
  longDistance : List DistanceBandRule
  roadside : ServiceType → Option ℤ

structure RateCard where
  rules : PricingRuleSet
  charges : ChargeConfigValues
  commissionPct : Band → Pct

def WHEEL_LIFT_SLABS : List DistanceBandRule :=
  [⟨5, 99900, none⟩, ⟨10, 149900, none⟩, ⟨20, 219900, none⟩, ⟨40, 349900, none⟩, ⟨60, 499900, none⟩,
    ⟨80, 649900, none⟩, ⟨100, 799900, none⟩]

def FLATBED_SLABS : List DistanceBandRule :=
  [⟨5, 199900, none⟩, ⟨10, 299900, none⟩, ⟨20, 449900, none⟩, ⟨40, 649900, none⟩, ⟨60, 849900, none⟩,
    ⟨80, 1099900, none⟩, ⟨100, 1349900, none⟩]

def LONG_DISTANCE_RANGES : List DistanceBandRule :=
  [⟨150, 1600000, some 2000000⟩, ⟨250, 2200000, some 3000000⟩, ⟨400, 3500000, some 4800000⟩,
    ⟨600, 5500000, some 7500000⟩]

def ROADSIDE_FARE : ServiceType → Option ℤ
  | .battery => some 79900
  | .flatTyre => some 69900
  | .fuel => some 69900
  | .breakdown => some 99900
  | .lockout => some 79900
  | .tow | .accidentRecovery | .winchOut => none

def DEFAULT_PRICING_RULES : PricingRuleSet where
  slabs
    | .wheelLift => WHEEL_LIFT_SLABS
    | .flatbed => FLATBED_SLABS
  longDistance := LONG_DISTANCE_RANGES
  roadside := ROADSIDE_FARE

def DEFAULT_CHARGE_CONFIG : ChargeConfigValues where
  nightPct := 15
  nightStartHour := 22
  nightEndHour := 6
  highwayChargePaise := 50000
  accidentChargePaise := 150000
  waitingFreeMinutes := 15
  waitingPerMinutePaise := 500
  surgePctHigh := 10
  surgePctPeak := 25
  haversineRoadFactor := 13 / 10
  taxPct := 0
  taxLabel := "GST"
  cancelFreeMinutes := 2
  cancelPartialMinutes := 10
  cancelPartialFeePaise := 15000
  cancelDriverCompPct := 50
  payoutAutoApproveMaxPaise := 10000000

namespace RuleRow

/-- A slab or a range of the row, where it has a class and a distance. -/
def distanceBand (row : RuleRow) : Option (VehicleClass × DistanceBandRule) := do
  let vehicleClass ← row.vehicleClass
  let maxKm ← row.maxKm
  pure (vehicleClass, ⟨maxKm, row.pricePaise, row.priceMaxPaise⟩)

end RuleRow

def byMaxKm (bands : List DistanceBandRule) : List DistanceBandRule :=
  bands.insertionSort fun a b ↦ a.maxKm ≤ b.maxKm

def orDefault {α : Type} (rows fallback : List α) : List α := if rows.isEmpty then fallback else rows

def toRuleSet (rows : List RuleRow) : PricingRuleSet :=
  if rows.isEmpty then DEFAULT_PRICING_RULES
  else
    let fares := (rows.filter (·.ruleKind = .roadside)).filterMap fun row ↦ row.serviceType.map (·, row.pricePaise)
    let bands (kind : RuleKind) := (rows.filter (·.ruleKind = kind)).filterMap (·.distanceBand)
    { slabs := fun vehicleClass ↦
        orDefault (byMaxKm (((bands .slab).filter (·.1 = vehicleClass)).map (·.2))) (DEFAULT_PRICING_RULES.slabs vehicleClass)
      longDistance := orDefault (byMaxKm ((bands .longDistance).map (·.2))) DEFAULT_PRICING_RULES.longDistance
      roadside := fun service ↦
        if fares.isEmpty then DEFAULT_PRICING_RULES.roadside service
        else (fares.reverse.find? (·.1 = service)).map (·.2) }

def toChargeValues (row : Option ChargeConfigValues) : ChargeConfigValues := row.getD DEFAULT_CHARGE_CONFIG

/-- The last row of a band counts. -/
def toCommissionPct (rows : List CommissionRow) (band : Band) : Pct :=
  ((rows.reverse.find? (·.band = band)).map (·.pct)).getD (bandPct band)

end Towing.Pricing
