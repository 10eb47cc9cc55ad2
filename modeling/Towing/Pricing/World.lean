import Towing.Pricing.RateCard
import Towing.Process.Moments
import Mathlib.Logic.Function.Basic

namespace Towing.Pricing

open Towing.Money Towing.Trips Towing.Process

namespace RuleRow

/-- The `CHECK`s of `pricing_rules`. -/
def wellShaped (row : RuleRow) : Bool :=
  0 ≤ row.pricePaise && row.priceMaxPaise.all (row.pricePaise ≤ ·) && row.maxKm.all (0 < ·) &&
    match row.ruleKind with
    | .slab => row.vehicleClass.isSome && row.maxKm.isSome && row.serviceType.isNone && row.priceMaxPaise.isNone
    | .longDistance => row.vehicleClass.isSome && row.maxKm.isSome && row.serviceType.isNone && row.priceMaxPaise.isSome
    | .roadside => row.serviceType.isSome && row.vehicleClass.isNone && row.maxKm.isNone && row.priceMaxPaise.isNone

/-- The rows are not both active on one distance band or one roadside service. -/
def apart (row other : RuleRow) : Bool :=
  !(row.isActive && other.isActive && row.ruleKind = other.ruleKind && row.serviceType = other.serviceType &&
    row.vehicleClass = other.vehicleClass && row.maxKm = other.maxKm)

end RuleRow

/-- The rows are well shaped and no two of them, by their places, collide. -/
def rulesHold (rows : List RuleRow) : Bool :=
  rows.all (·.wellShaped) && decide (rows.Pairwise fun row other ↦ row.apart other = true)

/-- `ck_charge_config_ranges`. -/
def ChargeConfigValues.inRange (row : ChargeConfigValues) : Bool :=
  0 ≤ row.nightPct && row.nightPct ≤ 100 && row.nightStartHour ≤ 23 && row.nightEndHour ≤ 23 &&
    0 ≤ row.highwayChargePaise && 0 ≤ row.accidentChargePaise && row.waitingFreeMinutes ≤ 120 &&
    0 ≤ row.waitingPerMinutePaise && 0 ≤ row.surgePctHigh && row.surgePctHigh ≤ 100 &&
    0 ≤ row.surgePctPeak && row.surgePctPeak ≤ 100 && 1 ≤ row.haversineRoadFactor && row.haversineRoadFactor ≤ 3

/-- The row of `commission_guardrail`, with its `CHECK`. -/
structure Guardrail where
  floorPct : Pct
  capPct : Pct
  floor_pos : 0 < floorPct
  floor_lt_cap : floorPct < capPct
  cap_le : capPct ≤ 3000

inductive ProposalStatus
  | opened
  | applied
  | declined
deriving DecidableEq

/-- A row of `commission_proposals`. -/
structure CommissionProposal where
  band : Band
  pct : Pct
  status : ProposalStatus

/-- A field-by-field edit of `charge_config`, whichever form sends it. -/
structure ChargePatch where
  nightPct : Option ℚ
  nightStartHour : Option ℕ
  nightEndHour : Option ℕ
  highwayChargePaise : Option ℤ
  accidentChargePaise : Option ℤ
  waitingFreeMinutes : Option ℕ
  waitingPerMinutePaise : Option ℤ
  surgePctHigh : Option ℚ
  surgePctPeak : Option ℚ
  haversineRoadFactor : Option ℚ

def ChargePatch.apply (patch : ChargePatch) (row : ChargeConfigValues) : ChargeConfigValues :=
  { row with
    nightPct := patch.nightPct.getD row.nightPct
    nightStartHour := patch.nightStartHour.getD row.nightStartHour
    nightEndHour := patch.nightEndHour.getD row.nightEndHour
    highwayChargePaise := patch.highwayChargePaise.getD row.highwayChargePaise
    accidentChargePaise := patch.accidentChargePaise.getD row.accidentChargePaise
    waitingFreeMinutes := patch.waitingFreeMinutes.getD row.waitingFreeMinutes
    waitingPerMinutePaise := patch.waitingPerMinutePaise.getD row.waitingPerMinutePaise
    surgePctHigh := patch.surgePctHigh.getD row.surgePctHigh
    surgePctPeak := patch.surgePctPeak.getD row.surgePctPeak
    haversineRoadFactor := patch.haversineRoadFactor.getD row.haversineRoadFactor }

/-- `AdminFinanceConfigUpdate`. -/
structure FinancePatch where
  payoutAutoApproveMaxPaise : Option ℤ
  taxPct : Option ℚ
  taxLabel : Option String
  cancelFreeMinutes : Option ℕ
  cancelPartialMinutes : Option ℕ
  cancelPartialFeePaise : Option ℤ
  cancelDriverCompPct : Option ℚ

def FinancePatch.apply (patch : FinancePatch) (row : ChargeConfigValues) : ChargeConfigValues :=
  { row with
    payoutAutoApproveMaxPaise := patch.payoutAutoApproveMaxPaise.getD row.payoutAutoApproveMaxPaise
    taxPct := patch.taxPct.getD row.taxPct
    taxLabel := patch.taxLabel.getD row.taxLabel
    cancelFreeMinutes := patch.cancelFreeMinutes.getD row.cancelFreeMinutes
    cancelPartialMinutes := patch.cancelPartialMinutes.getD row.cancelPartialMinutes
    cancelPartialFeePaise := patch.cancelPartialFeePaise.getD row.cancelPartialFeePaise
    cancelDriverCompPct := patch.cancelDriverCompPct.getD row.cancelDriverCompPct }

def FinancePatch.isEmpty (patch : FinancePatch) : Bool :=
  patch.payoutAutoApproveMaxPaise.isNone && patch.taxPct.isNone && patch.taxLabel.isNone &&
    patch.cancelFreeMinutes.isNone && patch.cancelPartialMinutes.isNone && patch.cancelPartialFeePaise.isNone &&
    patch.cancelDriverCompPct.isNone

structure RulePatch where
  id : ℕ
  pricePaise : Option ℤ
  priceMaxPaise : Option (Option ℤ)
  isActive : Option Bool

def RulePatch.apply (patch : RulePatch) (row : RuleRow) : RuleRow :=
  if row.id = patch.id then
    { row with
      pricePaise := patch.pricePaise.getD row.pricePaise
      priceMaxPaise := patch.priceMaxPaise.getD row.priceMaxPaise
      isActive := patch.isActive.getD row.isActive }
  else row

/-- The tables of the rate card. -/
structure Rates where
  rules : List RuleRow
  charges : Option ChargeConfigValues
  commission : List CommissionRow

/-- The tables behind the prices, and the cache in front of them. -/
structure World where
  now : ℕ
  rates : Rates
  guardrail : Option Guardrail
  /-- A proposal is known by its place. -/
  proposals : List CommissionProposal
  cached : String → Option (RateCard × ℕ)

inductive Table
  | rules
  | charges
  | commission
deriving DecidableEq

/-- What a transaction writes to the tables of the rate card. -/
inductive RateWrite
  | pricing (charges : Option ChargePatch) (rules : List RulePatch)
  | createRule (row : RuleRow)
  | deactivateRule (id : ℕ)
  | insertCharges
  | finance (patch : FinancePatch)
  /-- The percentages, and the proposal they come from. -/
  | commission (bands : List (Band × Pct)) (proposal : Option ℕ)

inductive Step
  | redisGet (key : String) (reachable : Bool)
  | redisSet (key : String) (card : RateCard) (ttlSeconds : ℕ) (reachable : Bool)
  | redisDel (key : String) (reachable : Bool)
  | select (table : Table)
  | selectGuardrail
  | selectProposal (id : ℕ)
  | write (write : RateWrite)
  | upsertGuardrail (window : Guardrail)
  | insertProposal (band : Band) (pct : Pct)
  | decide (id : ℕ) (status : ProposalStatus)
  | audit
  /-- The card that a load answers with. -/
  | loaded (card : RateCard)
  /-- An admin's call answers. -/
  | returned
  | tick (ms : ℕ)

/-- One `UPDATE` per band, in the order of the body. -/
def setPct (rows : List CommissionRow) : List (Band × Pct) → List CommissionRow
  | [] => rows
  | (band, pct) :: bands => setPct (rows.map fun row ↦ if row.band = band then { row with pct } else row) bands

namespace Rates

variable (r : Rates)

/-- The tables after the write, or `none` where a constraint refuses it. -/
def after : RateWrite → Option Rates
  | .pricing charges rules =>
    let rows := rules.foldl (fun rows patch ↦ rows.map patch.apply) r.rules
    let row := (charges.map fun patch ↦ r.charges.map patch.apply).getD r.charges
    if rulesHold rows ∧ row.all (·.inRange) then some { r with rules := rows, charges := row } else none
  | .createRule row => if rulesHold (r.rules ++ [row]) then some { r with rules := r.rules ++ [row] } else none
  | .deactivateRule id => some { r with
      rules := r.rules.map fun row ↦ if row.id = id then { row with isActive := false } else row }
  | .insertCharges => some { r with charges := some (r.charges.getD DEFAULT_CHARGE_CONFIG) }
  | .finance patch => some { r with charges := r.charges.map patch.apply }
  | .commission bands _ => some { r with commission := setPct r.commission bands }

end Rates

namespace World

variable (w : World)

/-- An expired entry is not there. -/
def entry (key : String) : Option RateCard := ((w.cached key).filter fun e ↦ w.now < e.2).map (·.1)

/-- `uq_commission_proposals_open`. -/
def hasOpen (band : Band) : Bool := w.proposals.any fun p ↦ p.band = band && p.status = .opened

def run : Step → World
  | .redisSet key card ttlSeconds reachable =>
    if reachable then
      { w with cached := Function.update w.cached key (some (card, w.now + ttlSeconds * 1000)) }
    else w
  | .redisDel key reachable => if reachable then { w with cached := Function.update w.cached key none } else w
  | .write write => { w with rates := (w.rates.after write).getD w.rates }
  | .upsertGuardrail window => { w with guardrail := some window }
  | .insertProposal band pct =>
    if w.hasOpen band then w else { w with proposals := w.proposals ++ [⟨band, pct, .opened⟩] }
  | .decide id status => { w with proposals := w.proposals.modify id ({ · with status }) }
  | .tick ms => { w with now := w.now + ms }
  | .redisGet _ _ | .select _ | .selectGuardrail | .selectProposal _ | .audit | .loaded _ | .returned => w

end World

instance : Store Step World where
  commit l w := w.run l

end Towing.Pricing
