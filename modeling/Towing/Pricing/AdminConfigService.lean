import Towing.Pricing.World

namespace Towing.Pricing

open Towing.Money Towing.Trips Towing.Process

inductive Refusal
  | validation
  | conflict
  | notFound
  | unexpected

abbrev Request (α : Type) := Proc Step World Refusal α

/-- Whether Redis answers when it is read, filled and busted. -/
structure Redis where
  reads : Bool
  fills : Bool
  busts : Bool

namespace CacheService

def getOrSet (redis : Redis) (key : String) (ttlSeconds : ℕ) (produce : Request RateCard) : Request RateCard := do
  let hit ← Proc.query (.redisGet key redis.reads) fun w ↦ if redis.reads then w.entry key else none
  match hit with
  | some card => pure card
  | none => do
    let value ← produce
    Proc.write (.redisSet key value ttlSeconds redis.fills)
    pure value

def invalidate (redis : Redis) (key : String) : Request Unit := Proc.write (.redisDel key redis.busts)

end CacheService

def RATE_CARD_CACHE_KEY : String := "pricing:rate-card:v1"

def RATE_CARD_TTL_SECONDS : ℕ := 300

namespace PricingConfigRepo

/-- `ORDER BY max_km`, which has the rows without one last. -/
def inOrder (row other : RuleRow) : Bool :=
  match row.maxKm, other.maxKm with
  | _, none => true
  | none, some _ => false
  | some km, some km' => km ≤ km'

/-- What the queries see. -/
def seen (w : World) : Rates :=
  { w.rates with rules := (w.rates.rules.filter (·.isActive)).insertionSort (inOrder · ·) }

/-- One more of the queries has come back. -/
def take (w : World) (selected : Rates) : Table → Rates
  | .rules => { selected with rules := (seen w).rules }
  | .charges => { selected with charges := (seen w).charges }
  | .commission => { selected with commission := (seen w).commission }

def assemble (selected : Rates) : RateCard :=
  ⟨toRuleSet selected.rules, toChargeValues selected.charges, toCommissionPct selected.commission⟩

/-- The queries run side by side, so in any order. -/
def select : List Table → Rates → Request Rates
  | [], selected => pure selected
  | table :: tables, selected => .step (.select table) fun w ↦ select tables (take w selected table)

def read (order : List Table) : Request RateCard := do
  let selected ← select order ⟨[], none, []⟩
  pure (assemble selected)

def load (redis : Redis) (order : List Table) : Request RateCard := do
  let card ← CacheService.getOrSet redis RATE_CARD_CACHE_KEY RATE_CARD_TTL_SECONDS (read order)
  Proc.write (.loaded card)
  pure card

def invalidate (redis : Redis) : Request Unit := CacheService.invalidate redis RATE_CARD_CACHE_KEY

end PricingConfigRepo

namespace AdminConfigService

open PricingConfigRepo

/-- A transaction on the tables of the rate card. -/
def transact (write : RateWrite) (refusal : Refusal) : Request Unit :=
  Proc.attempt (.write write) fun w ↦ if (w.rates.after write).isSome then .ok () else .error refusal

def audit : Request Unit := Proc.write .audit

def returned : Request Unit := Proc.write .returned

def getPricing : Request Unit := do
  let charges ← Proc.query (.select .charges) (·.rates.charges)
  if charges.isNone then throw .conflict
  Proc.write (.select .rules)

def updatePricing (redis : Redis) (charges : Option ChargePatch) (rules : List RulePatch) : Request Unit := do
  getPricing
  transact (.pricing charges rules) .unexpected
  getPricing
  audit
  invalidate redis
  returned

def createPricingRule (redis : Redis) (row : RuleRow) : Request Unit := do
  transact (.createRule row) .conflict
  audit
  invalidate redis
  returned

def deactivatePricingRule (redis : Redis) (ruleId : ℕ) : Request Unit := do
  let existing ← Proc.query (.select .rules) fun w ↦ w.rates.rules.find? (·.id = ruleId)
  match existing with
  | none => throw .notFound
  | some row =>
    if !row.isActive then returned
    else do
      transact (.deactivateRule ruleId) .unexpected
      audit
      invalidate redis
      returned

def COMMISSION_PCT_FLOOR : Pct := 500

def COMMISSION_PCT_CAP : Pct := 1000

/-- The window of the row, or the one of the launch. -/
def window (row : Option Guardrail) : Pct × Pct :=
  (row.map fun g ↦ (g.floorPct, g.capPct)).getD (COMMISSION_PCT_FLOOR, COMMISSION_PCT_CAP)

def within (bounds : Pct × Pct) (pct : Pct) : Bool := bounds.1 ≤ pct && pct ≤ bounds.2

def guardrail : Request (Pct × Pct) := Proc.query .selectGuardrail fun w ↦ window w.guardrail

def getCommission : Request Unit := do
  Proc.write (.select .commission)
  Proc.write .selectGuardrail

def writeCommission (redis : Redis) (bands : List (Band × Pct)) (proposal : Option ℕ) : Request Unit := do
  let bounds ← guardrail
  if bands.any fun b ↦ !within bounds b.2 then do
    getCommission
    audit
    throw .validation
  else do
    getCommission
    audit
    transact (.commission bands proposal) .unexpected
    invalidate redis
    getCommission

def updateCommission (redis : Redis) (bands : List (Band × Pct)) : Request Unit := do
  writeCommission redis bands none
  returned

def updateGuardrail (body : Guardrail) : Request Unit := do
  Proc.write .selectGuardrail
  let live ← Proc.query (.select .commission) (·.rates.commission)
  if live.any fun row ↦ !within (body.floorPct, body.capPct) row.pct then do
    audit
    throw .validation
  else do
    Proc.write (.upsertGuardrail body)
    audit
    getCommission
    returned

def createCommissionProposal (band : Band) (pct : Pct) : Request Unit := do
  Proc.attempt (.insertProposal band pct) fun w ↦ if w.hasOpen band then .error .conflict else .ok ()
  audit

def openProposal (proposalId : ℕ) : Request CommissionProposal :=
  Proc.attempt (.selectProposal proposalId) fun w ↦
    match w.proposals[proposalId]? with
    | none => .error .notFound
    | some proposal => if proposal.status = .opened then .ok proposal else .error .conflict

def applyCommissionProposal (redis : Redis) (proposalId : ℕ) : Request Unit := do
  let proposal ← openProposal proposalId
  writeCommission redis [(proposal.band, proposal.pct)] (some proposalId)
  Proc.write (.decide proposalId .applied)
  audit
  returned

def declineCommissionProposal (proposalId : ℕ) : Request Unit := do
  let _ ← openProposal proposalId
  Proc.write (.decide proposalId .declined)
  audit

end AdminConfigService

namespace AdminFinanceService

open PricingConfigRepo AdminConfigService

def updateConfig (redis : Redis) (before after : List Table) (patch : FinancePatch) : Request Unit := do
  let _ ← load redis before
  if patch.isEmpty then throw .validation
  else do
    transact .insertCharges .unexpected
    transact (.finance patch) .unexpected
    invalidate redis
    let _ ← load redis after
    audit
    returned

end AdminFinanceService

/-- The queries are the three of `read`, each once. -/
def Queries (order : List Table) : Prop := order.Perm [.rules, .charges, .commission]

/-- Loads of the rate card, what admins change of it, and time going by. -/
inductive Configures : Request Unit → Prop
  | load (redis : Redis) (order : List Table) (h : Queries order) : Configures (PricingConfigRepo.load redis order).ignore
  | updatePricing (redis : Redis) (charges : Option ChargePatch) (rules : List RulePatch) :
      Configures (AdminConfigService.updatePricing redis charges rules)
  | createPricingRule (redis : Redis) (row : RuleRow) : Configures (AdminConfigService.createPricingRule redis row)
  | deactivatePricingRule (redis : Redis) (ruleId : ℕ) :
      Configures (AdminConfigService.deactivatePricingRule redis ruleId)
  | updateCommission (redis : Redis) (bands : List (Band × Pct)) :
      Configures (AdminConfigService.updateCommission redis bands)
  | updateGuardrail (body : Guardrail) : Configures (AdminConfigService.updateGuardrail body)
  | createCommissionProposal (band : Band) (pct : Pct) :
      Configures (AdminConfigService.createCommissionProposal band pct)
  | applyCommissionProposal (redis : Redis) (proposalId : ℕ) :
      Configures (AdminConfigService.applyCommissionProposal redis proposalId)
  | declineCommissionProposal (proposalId : ℕ) : Configures (AdminConfigService.declineCommissionProposal proposalId)
  | updateConfig (redis : Redis) (before after : List Table) (patch : FinancePatch) (hbefore : Queries before)
      (hafter : Queries after) : Configures (AdminFinanceService.updateConfig redis before after patch)
  | tick (ms : ℕ) : Configures (Proc.write (.tick ms))

end Towing.Pricing
