import Towing.Common.Schema
import Towing.Trips.Eligibility

namespace Towing.Dispatch

open Towing.Common Towing.Trips

/-! What a zone may say of how its bookings are dispatched, and what that comes to. -/

def ascending (ladder : List ℚ) : Bool := (ladder.zip ladder.tail).all fun p ↦ p.1 < p.2

/-- Radii in kilometres that a search walks up. -/
def IsLadder (km : List ℚ) : Prop :=
  1 ≤ km.length ∧ km.length ≤ 10 ∧ (∀ x ∈ km, 0 < x ∧ x ≤ 500) ∧ ascending km = true

instance (km : List ℚ) : Decidable (IsLadder km) := inferInstanceAs (Decidable (_ ∧ _ ∧ _ ∧ _))

abbrev RadiusLadder := {km : List ℚ // IsLadder km}

def radiusLadderSchema (json : Json) : Option RadiusLadder :=
  (arraySchema numberSchema json).bind fun km ↦ if h : IsLadder km then some ⟨km, h⟩ else none

structure ServiceOverride where
  radiusLadderKm : Option RadiusLadder
  offerTimeoutSeconds : Option (Within 5 120)
  offersPerWave : Option (Within 1 10)
  maxSearchSeconds : Option (Within 30 900)

structure DispatchConfigOverride where
  radiusLadderKm : Option RadiusLadder
  bandCRadiusLadderKm : Option RadiusLadder
  offerTimeoutSeconds : Option (Within 5 120)
  offersPerWave : Option (Within 1 10)
  maxSearchSeconds : Option (Within 30 900)
  perService : Option (List (ServiceType × ServiceOverride))

def serviceTypeName : ServiceType → String
  | .tow => "tow"
  | .battery => "battery"
  | .flatTyre => "flat_tyre"
  | .fuel => "fuel"
  | .breakdown => "breakdown"
  | .accidentRecovery => "accident_recovery"
  | .lockout => "lockout"
  | .winchOut => "winch_out"

def serviceTypeSchema (name : String) : Option ServiceType :=
  [.tow, .battery, .flatTyre, .fuel, .breakdown, .accidentRecovery, .lockout, .winchOut].find? fun s ↦
    serviceTypeName s = name

def serviceOverrideSchema (json : Json) : Option ServiceOverride :=
  match json with
  | .object _ => do
    let radiusLadderKm ← optional radiusLadderSchema (json.member "radiusLadderKm")
    let offerTimeoutSeconds ← optional (integerSchema 5 120) (json.member "offerTimeoutSeconds")
    let offersPerWave ← optional (integerSchema 1 10) (json.member "offersPerWave")
    let maxSearchSeconds ← optional (integerSchema 30 900) (json.member "maxSearchSeconds")
    return { radiusLadderKm, offerTimeoutSeconds, offersPerWave, maxSearchSeconds }
  | _ => none

def dispatchConfigOverrideSchema (json : Json) : Option DispatchConfigOverride :=
  match json with
  | .object _ => do
    let radiusLadderKm ← optional radiusLadderSchema (json.member "radiusLadderKm")
    let bandCRadiusLadderKm ← optional radiusLadderSchema (json.member "bandCRadiusLadderKm")
    let offerTimeoutSeconds ← optional (integerSchema 5 120) (json.member "offerTimeoutSeconds")
    let offersPerWave ← optional (integerSchema 1 10) (json.member "offersPerWave")
    let maxSearchSeconds ← optional (integerSchema 30 900) (json.member "maxSearchSeconds")
    let perService ← optional (partialRecord serviceTypeSchema serviceOverrideSchema) (json.member "perService")
    return { radiusLadderKm, bandCRadiusLadderKm, offerTimeoutSeconds, offersPerWave, maxSearchSeconds, perService }
  | _ => none

structure DispatchConfig where
  radiusLadderKm : List ℚ
  bandCRadiusLadderKm : List ℚ
  offerTimeoutSeconds : ℕ
  offersPerWave : ℚ
  maxSearchSeconds : ℕ
  deriving DecidableEq

def DISPATCH_CONFIG_DEFAULTS : DispatchConfig where
  radiusLadderKm := [2, 4, 7, 10, 15]
  bandCRadiusLadderKm := [10, 25, 50]
  offerTimeoutSeconds := 20
  offersPerWave := 3
  maxSearchSeconds := 180

/-- The platform's wave sizes, read from JSON without a schema. -/
abbrev PerServiceMaxOffers := ServiceType → Option ℚ

def perServiceOffer (offers : Option PerServiceMaxOffers) (service : Option ServiceType) : Option ℚ :=
  offers.bind fun offers ↦ service.bind offers

/-- The zone's overrides of the service and of all services, over the platform and the defaults. -/
def DispatchConfigOverride.resolve (zone : DispatchConfigOverride) (service : Option ServiceType)
    (globalPerServiceOffers : Option PerServiceMaxOffers) : DispatchConfig :=
  let perService := service.bind fun service ↦ zone.perService.bind (·.lookup service)
  { radiusLadderKm := ((perService.bind (·.radiusLadderKm)).or zone.radiusLadderKm).elim
      DISPATCH_CONFIG_DEFAULTS.radiusLadderKm (·.val)
    bandCRadiusLadderKm := zone.bandCRadiusLadderKm.elim DISPATCH_CONFIG_DEFAULTS.bandCRadiusLadderKm (·.val)
    offerTimeoutSeconds := ((perService.bind (·.offerTimeoutSeconds)).or zone.offerTimeoutSeconds).elim
      DISPATCH_CONFIG_DEFAULTS.offerTimeoutSeconds (·.val)
    offersPerWave := ((perService.bind (·.offersPerWave)).or zone.offersPerWave).elim
      ((perServiceOffer globalPerServiceOffers service).getD DISPATCH_CONFIG_DEFAULTS.offersPerWave) (·.val)
    maxSearchSeconds := ((perService.bind (·.maxSearchSeconds)).or zone.maxSearchSeconds).elim
      DISPATCH_CONFIG_DEFAULTS.maxSearchSeconds (·.val) }

def resolveDispatchConfig (raw : Option Json) (service : Option ServiceType)
    (globalPerServiceOffers : Option PerServiceMaxOffers) : DispatchConfig :=
  match raw with
  | none | some .null =>
    { DISPATCH_CONFIG_DEFAULTS with
      offersPerWave := (perServiceOffer globalPerServiceOffers service).getD DISPATCH_CONFIG_DEFAULTS.offersPerWave }
  | some raw =>
    match dispatchConfigOverrideSchema raw with
    | none => DISPATCH_CONFIG_DEFAULTS
    | some zone => zone.resolve service globalPerServiceOffers

/-- What is stored of the configuration: by zone, and for the platform. -/
structure ConfigStore where
  /-- `service_zones.dispatch_config`, of the zones that have a row. -/
  zones : ℕ → Option Json
  perServiceMaxOffers : Option PerServiceMaxOffers

def ConfigStore.configFor (store : ConfigStore) (zoneId : Option ℕ) (serviceType : ServiceType) : DispatchConfig :=
  resolveDispatchConfig (some ((zoneId.bind store.zones).getD .null)) (some serviceType) store.perServiceMaxOffers

end Towing.Dispatch
