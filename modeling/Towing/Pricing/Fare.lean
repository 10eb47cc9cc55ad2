import Towing.Money.RupeeStrings
import Towing.Money.World
import Towing.Pricing.RateCard

namespace Towing.Pricing

open Towing.Money Towing.Trips

inductive SurgeBand
  | standard
  | high
  | peak
deriving DecidableEq

def LONG_DISTANCE_FLOOR_KM : ℚ := 100

def CUSTOM_QUOTE_ABOVE_KM : ℚ := 600

def OPTIONAL_SERVICE_TYPES : List ServiceType := [.battery, .flatTyre, .fuel, .breakdown, .lockout, .winchOut]

def isRoadsideService (service : ServiceType) : Bool := OPTIONAL_SERVICE_TYPES.contains service

def resolveBand (service : ServiceType) (distanceKm : ℚ) : Band :=
  if 100 < distanceKm then .C
  else if service = .accidentRecovery then .B
  else if 40 < distanceKm then .B
  else .A

inductive FareError
  | serviceNotPriced (service : ServiceType)
  | customQuoteRequired (distanceKm : ℚ)
  /-- The price of a row that is not there is read. -/
  | typeError
deriving DecidableEq

def DistanceBandRule.ceiling (band : DistanceBandRule) : ℤ := band.priceMaxPaise.getD band.pricePaise

/-- The first slab that reaches the distance, or the last one. -/
def slabAt (distanceKm : ℚ) (slabs : List DistanceBandRule) : Option DistanceBandRule :=
  slabs.find? (fun slab ↦ distanceKm ≤ slab.maxKm) <|> slabs.getLast?

/-- The first range whose upper bound `reaches`, with its lower bound. -/
def rangeWhere (reaches : ℚ → Bool) (lowerKm : ℚ) : List DistanceBandRule → Option (ℚ × DistanceBandRule)
  | [] => none
  | band :: bands => if reaches band.maxKm then some (lowerKm, band) else rangeWhere reaches band.maxKm bands

def rangeAt (distanceKm : ℚ) (bands : List DistanceBandRule) : Option (ℚ × DistanceBandRule) :=
  rangeWhere (distanceKm ≤ ·) LONG_DISTANCE_FLOOR_KM bands

def interpolated (lowerKm : ℚ) (band : DistanceBandRule) (distanceKm : ℚ) : ℚ :=
  let span := band.maxKm - lowerKm
  let t := if 0 < span then (distanceKm - lowerKm) / span else 0
  band.pricePaise + t * (band.ceiling - band.pricePaise)

/-- `Math.round(paise / 100) * 100`. -/
def wholeRupees (paise : ℚ) : ℤ := round (paise / 100) * 100

/-- The price in a range, or past all of them the last ceiling, before it is rounded. -/
def quotedPaise (distanceKm : ℚ) (bands : List DistanceBandRule) :
    Option (ℚ × DistanceBandRule) → Option ℚ
  | some (lowerKm, band) => some (interpolated lowerKm band distanceKm)
  | none => bands.getLast?.map fun last ↦ (last.ceiling : ℚ)

def longDistanceFarePaise (distanceKm : ℚ) (bands : List DistanceBandRule) : Except FareError ℤ :=
  match quotedPaise distanceKm bands (rangeAt distanceKm bands) with
  | some paise => .ok (wholeRupees paise)
  | none => .error .typeError

def baseFarePaise (service : ServiceType) (vehicleClass : VehicleClass) (distanceKm : ℚ) (rules : PricingRuleSet) :
    Except FareError ℤ :=
  match rules.roadside service with
  | some fare => .ok fare
  | none =>
    if isRoadsideService service then .error (.serviceNotPriced service)
    else if LONG_DISTANCE_FLOOR_KM < distanceKm then
      if CUSTOM_QUOTE_ABOVE_KM < distanceKm then .error (.customQuoteRequired distanceKm)
      else longDistanceFarePaise distanceKm rules.longDistance
    else
      match slabAt distanceKm (rules.slabs vehicleClass) with
      | some slab => .ok slab.pricePaise
      | none => .error .typeError

def isNightHour (hour startHour endHour : ℕ) : Bool :=
  if startHour ≤ endHour then startHour ≤ hour && hour < endHour else startHour ≤ hour || hour < endHour

def surgePctFor (band : SurgeBand) (charges : ChargeConfigValues) : ℚ :=
  match band with
  | .high => charges.surgePctHigh
  | .peak => charges.surgePctPeak
  | .standard => 0

def waitingChargePaise (waitedMinutes freeMinutes : ℕ) (perMinutePaise : ℤ) : ℤ :=
  max 0 ((waitedMinutes : ℤ) - freeMinutes) * perMinutePaise

structure FareInput where
  service : ServiceType
  vehicleClass : VehicleClass
  distanceKm : ℚ
  hourOfDay : ℕ
  isHighwayPickup : Bool
  surgeBand : SurgeBand
  waitingMinutes : ℕ := 0
  discountPaise : ℤ := 0
deriving DecidableEq

structure FareResult where
  basePaise : ℤ
  nightPaise : ℤ
  highwayPaise : ℤ
  accidentPaise : ℤ
  waitingPaise : ℤ
  surgePaise : ℤ
  discountPaise : ℤ
  totalPaise : ℤ
  band : Band
deriving DecidableEq

/-- `Math.round((paise * pct) / 100)`. -/
def pctOf (paise : ℤ) (pct : ℚ) : ℤ := round (paise * pct / 100)

/-- The formula, on the base fare. -/
def fareOn (charges : ChargeConfigValues) (input : FareInput) (basePaise : ℤ) : FareResult :=
  let nightPaise :=
    if isNightHour input.hourOfDay charges.nightStartHour charges.nightEndHour then pctOf basePaise charges.nightPct
    else 0
  let highwayPaise := if input.isHighwayPickup then charges.highwayChargePaise else 0
  let accidentPaise := if input.service = .accidentRecovery then charges.accidentChargePaise else 0
  let waitingPaise :=
    waitingChargePaise input.waitingMinutes charges.waitingFreeMinutes charges.waitingPerMinutePaise
  let preSurgePaise := basePaise + nightPaise + highwayPaise + accidentPaise + waitingPaise
  let surgePct := surgePctFor input.surgeBand charges
  let surgePaise := if 0 < surgePct then pctOf preSurgePaise surgePct else 0
  let discountPaise := min input.discountPaise (preSurgePaise + surgePaise)
  { basePaise, nightPaise, highwayPaise, accidentPaise, waitingPaise, surgePaise, discountPaise
    totalPaise := preSurgePaise + surgePaise - discountPaise
    band := resolveBand input.service input.distanceKm }

def computeFare (rules : PricingRuleSet) (charges : ChargeConfigValues) (input : FareInput) :
    Except FareError FareResult :=
  (baseFarePaise input.service input.vehicleClass input.distanceKm rules).map (fareOn charges input)

/-- What a request resolves to before the engine runs. -/
structure PricingContext where
  serviceSlug : String
  serviceType : ServiceType
  vehicleClass : VehicleClass
  /-- The billed road distance, as it was measured. -/
  distanceKm : ℚ
  isHighway : Bool
  surgeBand : SurgeBand
  hourOfDay : ℕ
  rateCard : RateCard

structure PricedRequest where
  vehicleClass : VehicleClass
  distanceKm : ℚ
  fare : FareResult
deriving DecidableEq

structure LockedFare extends PricedRequest where
  commissionPct : Pct
  commissionPaise : ℤ
  driverPayoutPaise : ℤ
deriving DecidableEq

/-- `Math.round(km * 100) / 100`. -/
def twoDecimals (distanceKm : ℚ) : ℚ := round (distanceKm * 100) / 100

/-- How a fare that cannot be computed is answered. -/
def FareError.answer (serviceSlug : String) : FareError → Failure
  | .customQuoteRequired distanceKm => .api ⟨422, "manual_quote_required",
      "This trip is long enough to need a manual quote",
      [("distanceKm", Pct.text (round (distanceKm * 100)))]⟩
  | .serviceNotPriced _ => .api ⟨422, "validation_failed", "Unknown service \"" ++ serviceSlug ++ "\"",
      [("serviceSlug", "not in the active catalogue")]⟩
  | .typeError => .error "Cannot read properties of undefined"

namespace PricingContext

variable (context : PricingContext)

def fareInput : FareInput where
  service := context.serviceType
  vehicleClass := context.vehicleClass
  distanceKm := context.distanceKm
  hourOfDay := context.hourOfDay
  isHighwayPickup := context.isHighway
  surgeBand := context.surgeBand

def price : Except Failure PricedRequest :=
  match computeFare context.rateCard.rules context.rateCard.charges context.fareInput with
  | .error e => .error (e.answer context.serviceSlug)
  | .ok fare => .ok
    { vehicleClass := if 100 < context.distanceKm then .flatbed else context.vehicleClass
      distanceKm := twoDecimals context.distanceKm
      fare }

/-- `commissionPaiseAtPct` over exact rationals, as the fares above it are. -/
def exactCommission (totalPaise : ℤ) (pct : Pct) : ℤ := Arith.roundDiv (totalPaise * pct) 10000

def lock : Except Failure LockedFare :=
  context.price.map fun priced ↦
    let pct := context.rateCard.commissionPct priced.fare.band
    let commission := exactCommission priced.fare.totalPaise pct
    { priced with
      commissionPct := pct
      commissionPaise := commission
      driverPayoutPaise := priced.fare.totalPaise - commission }

end PricingContext

end Towing.Pricing
