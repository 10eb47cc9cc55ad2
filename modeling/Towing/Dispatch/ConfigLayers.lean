import Towing.Dispatch.DispatchConfig

namespace Towing.Dispatch

open Towing.Common Towing.Trips

/-! The layers of the configuration, each of which says what it overrides. -/

structure ConfigLayer where
  radiusLadderKm : Option (List ℚ)
  bandCRadiusLadderKm : Option (List ℚ)
  offerTimeoutSeconds : Option ℕ
  offersPerWave : Option ℚ
  maxSearchSeconds : Option ℕ

def ConfigLayer.empty : ConfigLayer := ⟨none, none, none, none, none⟩

def DispatchConfig.under (config : DispatchConfig) (layer : ConfigLayer) : DispatchConfig where
  radiusLadderKm := layer.radiusLadderKm.getD config.radiusLadderKm
  bandCRadiusLadderKm := layer.bandCRadiusLadderKm.getD config.bandCRadiusLadderKm
  offerTimeoutSeconds := layer.offerTimeoutSeconds.getD config.offerTimeoutSeconds
  offersPerWave := layer.offersPerWave.getD config.offersPerWave
  maxSearchSeconds := layer.maxSearchSeconds.getD config.maxSearchSeconds

def platformLayer (offers : Option PerServiceMaxOffers) (service : Option ServiceType) : ConfigLayer :=
  { ConfigLayer.empty with offersPerWave := perServiceOffer offers service }

def DispatchConfigOverride.layer (zone : DispatchConfigOverride) : ConfigLayer where
  radiusLadderKm := zone.radiusLadderKm.map (·.val)
  bandCRadiusLadderKm := zone.bandCRadiusLadderKm.map (·.val)
  offerTimeoutSeconds := zone.offerTimeoutSeconds.map (·.val)
  offersPerWave := zone.offersPerWave.map (·.val)
  maxSearchSeconds := zone.maxSearchSeconds.map (·.val)

def ServiceOverride.layer (service : ServiceOverride) : ConfigLayer where
  radiusLadderKm := service.radiusLadderKm.map (·.val)
  bandCRadiusLadderKm := none
  offerTimeoutSeconds := service.offerTimeoutSeconds.map (·.val)
  offersPerWave := service.offersPerWave.map (·.val)
  maxSearchSeconds := service.maxSearchSeconds.map (·.val)

/-- What the zone overrides; JSON that is invalid or null overrides nothing. -/
def zoneOverride (raw : Option Json) : Option DispatchConfigOverride := raw.bind dispatchConfigOverrideSchema

def DispatchConfigOverride.of (zone : DispatchConfigOverride) (service : Option ServiceType) : Option ServiceOverride :=
  service.bind fun service ↦ zone.perService.bind (·.lookup service)

/-- The defaults under the platform, the zone, and the zone's own word on the service. -/
def layered (raw : Option Json) (service : Option ServiceType) (offers : Option PerServiceMaxOffers) : DispatchConfig :=
  [platformLayer offers service, (zoneOverride raw).elim .empty (·.layer),
    ((zoneOverride raw).bind (·.of service)).elim .empty (·.layer)].foldl .under DISPATCH_CONFIG_DEFAULTS

/-- A ladder that the schema takes, each radius above the one before. -/
def Ascends (km : List ℚ) : Prop := IsLadder km ∧ km.Pairwise (· < ·)

/-- What the schema would take for the value. -/
structure DispatchConfig.InRange (config : DispatchConfig) : Prop where
  radiusLadderKm : Ascends config.radiusLadderKm
  bandCRadiusLadderKm : Ascends config.bandCRadiusLadderKm
  offerTimeoutSeconds : 5 ≤ config.offerTimeoutSeconds ∧ config.offerTimeoutSeconds ≤ 120
  offersPerWave : config.offersPerWave.den = 1 ∧ 1 ≤ config.offersPerWave ∧ config.offersPerWave ≤ 10
  maxSearchSeconds : 30 ≤ config.maxSearchSeconds ∧ config.maxSearchSeconds ≤ 900

theorem pairwise_of_ascending {km : List ℚ} (h : ascending km = true) : km.Pairwise (· < ·) := by
  rw [← List.isChain_iff_pairwise]
  induction km with
  | nil => exact List.isChain_nil
  | cons x km ih =>
    cases km with
    | nil => exact List.isChain_singleton x
    | cons y km =>
      simp only [ascending, List.tail_cons, List.zip_cons_cons, List.all_cons, Bool.and_eq_true, decide_eq_true_eq] at h
      exact List.isChain_cons_cons.mpr ⟨h.1, ih h.2⟩

theorem ascends (ladder : RadiusLadder) : Ascends ladder.val :=
  ⟨ladder.property, pairwise_of_ascending ladder.property.2.2.2⟩

theorem defaults_inRange : DISPATCH_CONFIG_DEFAULTS.InRange where
  radiusLadderKm := ascends ⟨[2, 4, 7, 10, 15], by decide +kernel⟩
  bandCRadiusLadderKm := ascends ⟨[10, 25, 50], by decide +kernel⟩
  offerTimeoutSeconds := by decide
  offersPerWave := by decide +kernel
  maxSearchSeconds := by decide

theorem or_getD_elim {α β : Type} (x y : Option α) (d : β) (f : α → β) :
    (x.or y).elim d f = (x.map f).getD ((y.map f).getD d) := by
  cases x <;> cases y <;> rfl

theorem elim_getD {α β : Type} (x : Option α) (d : β) (f : α → β) : x.elim d f = (x.map f).getD d := by
  cases x <;> rfl

theorem resolve_layer (zone : DispatchConfigOverride) (service : Option ServiceType) (offers : Option PerServiceMaxOffers) :
    zone.resolve service offers =
      [platformLayer offers service, zone.layer, (zone.of service).elim .empty (·.layer)].foldl .under
        DISPATCH_CONFIG_DEFAULTS := by
  rw [DispatchConfigOverride.resolve, DispatchConfigOverride.of]
  cases service.bind fun service ↦ zone.perService.bind (·.lookup service) with
  | none =>
    simp only [List.foldl_cons, List.foldl_nil, DispatchConfig.under, platformLayer, ConfigLayer.empty,
      DispatchConfigOverride.layer, or_getD_elim, Option.bind_none, Option.getD_none, Option.map_none, Option.elim_none]
    rw [elim_getD]
  | some own =>
    simp only [List.foldl_cons, List.foldl_nil, DispatchConfig.under, platformLayer, ConfigLayer.empty,
      DispatchConfigOverride.layer, ServiceOverride.layer, or_getD_elim, Option.bind_some, Option.getD_none,
      Option.elim_some]
    rw [elim_getD]

theorem resolve_valid {raw : Json} {zone : DispatchConfigOverride} (h : dispatchConfigOverrideSchema raw = some zone)
    (service : Option ServiceType) (offers : Option PerServiceMaxOffers) :
    resolveDispatchConfig (some raw) service offers = zone.resolve service offers := by
  cases raw with
  | object members => simp only [resolveDispatchConfig, h]
  | _ => cases h

theorem resolve_invalid {raw : Json} (hnull : raw ≠ .null) (h : dispatchConfigOverrideSchema raw = none)
    (service : Option ServiceType) (offers : Option PerServiceMaxOffers) :
    resolveDispatchConfig (some raw) service offers = DISPATCH_CONFIG_DEFAULTS := by
  cases raw with
  | null => exact absurd rfl hnull
  | _ => simp only [resolveDispatchConfig, h]

/-- A zone that overrides nothing is left with the platform's word. -/
theorem layered_invalid {raw : Option Json} (h : zoneOverride raw = none) (service : Option ServiceType)
    (offers : Option PerServiceMaxOffers) : layered raw service offers =
      { DISPATCH_CONFIG_DEFAULTS with
        offersPerWave := (perServiceOffer offers service).getD DISPATCH_CONFIG_DEFAULTS.offersPerWave } := by
  rw [layered, h]
  rfl

theorem layered_valid {raw : Json} {zone : DispatchConfigOverride} (h : dispatchConfigOverrideSchema raw = some zone)
    (service : Option ServiceType) (offers : Option PerServiceMaxOffers) :
    layered (some raw) service offers = zone.resolve service offers := by
  rw [resolve_layer, layered, zoneOverride, Option.bind_some, h]
  rfl

/-- The number of offers that the platform gives the service can stand. -/
def IsWaveSize (x : ℚ) : Prop := x.den = 1 ∧ 1 ≤ x ∧ x ≤ 10

/-- What the zone says on the number of offers. -/
def DispatchConfigOverride.waveSize (zone : DispatchConfigOverride) (service : Option ServiceType) : Option (Within 1 10) :=
  ((zone.of service).bind (·.offersPerWave)).or zone.offersPerWave

/-- The platform's number is a wave size, where nothing in the zone is before it; and JSON that
the schema refuses does not meet with one that is not the default. -/
def Settled (raw : Option Json) (service : Option ServiceType) (offers : Option PerServiceMaxOffers) : Prop :=
  ∀ x, perServiceOffer offers service = some x →
    match raw with
    | none | some .null => IsWaveSize x
    | some raw =>
      match dispatchConfigOverrideSchema raw with
      | none => x = DISPATCH_CONFIG_DEFAULTS.offersPerWave
      | some zone => zone.waveSize service = none → IsWaveSize x

theorem ladder_elim {x : Option RadiusLadder} {km : List ℚ} (h : Ascends km) : Ascends (x.elim km (·.val)) := by
  cases x with
  | none => exact h
  | some ladder => exact ascends ladder

theorem or_val {α : Type} {P : α → Prop} {x : Option {a // P a}} {d : α} (hd : x = none → P d) : P (x.elim d (·.val)) := by
  cases x with
  | none => exact hd rfl
  | some a => exact a.property

theorem waveSize_cast (n : Within 1 10) : IsWaveSize (n.val : ℚ) := by
  obtain ⟨n, hlow, hhigh⟩ := n
  refine ⟨Rat.den_natCast n, ?_, ?_⟩
  · exact_mod_cast hlow
  · exact_mod_cast hhigh

/-- What a valid zone comes to is in range, where the wave size is. -/
theorem resolve_inRange (zone : DispatchConfigOverride) (service : Option ServiceType)
    (offers : Option PerServiceMaxOffers) : (zone.resolve service offers).InRange ↔
      (zone.waveSize service = none → ∀ x, perServiceOffer offers service = some x → IsWaveSize x) := by
  have hdefault := defaults_inRange
  have hsize : (zone.resolve service offers).offersPerWave = (zone.waveSize service).elim
    ((perServiceOffer offers service).getD DISPATCH_CONFIG_DEFAULTS.offersPerWave) (·.val) := rfl
  constructor
  · intro h hnone x hx
    have hrange := h.offersPerWave
    rw [hsize, hnone, hx] at hrange
    exact hrange
  · intro h
    refine ⟨ladder_elim hdefault.radiusLadderKm, ladder_elim hdefault.bandCRadiusLadderKm,
      or_val (P := fun n ↦ 5 ≤ n ∧ n ≤ 120) fun _ ↦ hdefault.offerTimeoutSeconds, ?_,
      or_val (P := fun n ↦ 30 ≤ n ∧ n ≤ 900) fun _ ↦ hdefault.maxSearchSeconds⟩
    rw [hsize]
    cases hwave : zone.waveSize service with
    | some n => exact waveSize_cast n
    | none =>
      cases hx : perServiceOffer offers service with
      | none => exact hdefault.offersPerWave
      | some x => exact h hwave x hx

theorem defaults_wave {x : ℚ} : (({ DISPATCH_CONFIG_DEFAULTS with offersPerWave := x } : DispatchConfig) =
    DISPATCH_CONFIG_DEFAULTS) ↔ x = DISPATCH_CONFIG_DEFAULTS.offersPerWave := by
  constructor
  · intro h
    exact congrArg DispatchConfig.offersPerWave h
  · rintro rfl
    rfl

/-- Where the zone says nothing the platform's number has to be a wave size. -/
theorem unset_inRange (service : Option ServiceType) (offers : Option PerServiceMaxOffers) :
    ({ DISPATCH_CONFIG_DEFAULTS with
      offersPerWave := (perServiceOffer offers service).getD DISPATCH_CONFIG_DEFAULTS.offersPerWave } :
        DispatchConfig).InRange ↔ ∀ x, perServiceOffer offers service = some x → IsWaveSize x := by
  have hdefault := defaults_inRange
  cases perServiceOffer offers service with
  | none => exact ⟨fun _ _ h ↦ (by cases h), fun _ ↦ hdefault⟩
  | some n =>
    constructor
    · rintro h x ⟨⟩
      exact h.offersPerWave
    · intro h
      exact ⟨hdefault.radiusLadderKm, hdefault.bandCRadiusLadderKm, hdefault.offerTimeoutSeconds, h n rfl,
        hdefault.maxSearchSeconds⟩

theorem resolve_settled (raw : Option Json) (service : Option ServiceType) (offers : Option PerServiceMaxOffers) :
    resolveDispatchConfig raw service offers = layered raw service offers ∧
      (resolveDispatchConfig raw service offers).InRange ↔ Settled raw service offers := by
  have hunset := unset_inRange service offers
  cases raw with
  | none => exact ⟨fun h ↦ hunset.mp h.2, fun h ↦ ⟨rfl, hunset.mpr h⟩⟩
  | some raw =>
    by_cases hnull : raw = .null
    · subst hnull
      exact ⟨fun h ↦ hunset.mp h.2, fun h ↦ ⟨rfl, hunset.mpr h⟩⟩
    · have hsettled : Settled (some raw) service offers ↔ ∀ x, perServiceOffer offers service = some x →
          match dispatchConfigOverrideSchema raw with
          | none => x = DISPATCH_CONFIG_DEFAULTS.offersPerWave
          | some zone => zone.waveSize service = none → IsWaveSize x := by
        cases raw with
        | null => exact absurd rfl hnull
        | _ => exact Iff.rfl
      rw [hsettled]
      cases hzone : dispatchConfigOverrideSchema raw with
      | none =>
        rw [resolve_invalid hnull hzone, @layered_invalid (some raw) hzone, eq_comm, defaults_wave]
        cases perServiceOffer offers service with
        | none => exact ⟨fun _ x hx ↦ (by cases hx), fun _ ↦ ⟨rfl, defaults_inRange⟩⟩
        | some n => exact ⟨fun h x hx ↦ Option.some.inj hx ▸ h.1, fun h ↦ ⟨h n rfl, defaults_inRange⟩⟩
      | some zone =>
        rw [resolve_valid hzone, layered_valid hzone, resolve_inRange]
        exact ⟨fun h x hx hwave ↦ h.2 hwave x hx, fun h ↦ ⟨rfl, fun hwave x hx ↦ h x hx hwave⟩⟩

/-! Setting one key of a zone's JSON. -/

inductive ConfigField
  | radiusLadderKm
  | bandCRadiusLadderKm
  | offerTimeoutSeconds
  | offersPerWave
  | maxSearchSeconds

def ConfigField.key : ConfigField → String
  | .radiusLadderKm => "radiusLadderKm"
  | .bandCRadiusLadderKm => "bandCRadiusLadderKm"
  | .offerTimeoutSeconds => "offerTimeoutSeconds"
  | .offersPerWave => "offersPerWave"
  | .maxSearchSeconds => "maxSearchSeconds"

def DispatchConfig.get (config : DispatchConfig) : ConfigField → List ℚ ⊕ ℚ
  | .radiusLadderKm => .inl config.radiusLadderKm
  | .bandCRadiusLadderKm => .inl config.bandCRadiusLadderKm
  | .offerTimeoutSeconds => .inr config.offerTimeoutSeconds
  | .offersPerWave => .inr config.offersPerWave
  | .maxSearchSeconds => .inr config.maxSearchSeconds

/-- Where a zone has its own key, or that of a service. -/
def keyAt (service : Option ServiceType) (key : String) : List String :=
  service.elim [key] fun service ↦ ["perService", serviceTypeName service, key]

theorem serviceTypeSchema_name (service : ServiceType) : serviceTypeSchema (serviceTypeName service) = some service := by
  cases service <;> decide

theorem name_of_schema {name : String} {service : ServiceType} (h : serviceTypeSchema name = some service) :
    serviceTypeName service = name := by
  rw [serviceTypeSchema] at h
  have hfound := List.find?_some h
  exact of_decide_eq_true hfound

/-- What the schema reads of a zone's JSON. -/
structure ZoneRead (raw : Json) (zone : DispatchConfigOverride) : Prop where
  radiusLadderKm : zone.radiusLadderKm = (raw.path ["radiusLadderKm"]).bind radiusLadderSchema
  bandCRadiusLadderKm : zone.bandCRadiusLadderKm = (raw.path ["bandCRadiusLadderKm"]).bind radiusLadderSchema
  offerTimeoutSeconds : zone.offerTimeoutSeconds = (raw.path ["offerTimeoutSeconds"]).bind (integerSchema 5 120)
  offersPerWave : zone.offersPerWave = (raw.path ["offersPerWave"]).bind (integerSchema 1 10)
  maxSearchSeconds : zone.maxSearchSeconds = (raw.path ["maxSearchSeconds"]).bind (integerSchema 30 900)
  perService : zone.perService =
    (raw.path ["perService"]).bind (partialRecord serviceTypeSchema serviceOverrideSchema)
  taken : ∀ json, raw.path ["perService"] = some json → zone.perService.isSome = true

structure ServiceRead (raw : Json) (own : ServiceOverride) : Prop where
  radiusLadderKm : own.radiusLadderKm = (raw.path ["radiusLadderKm"]).bind radiusLadderSchema
  offerTimeoutSeconds : own.offerTimeoutSeconds = (raw.path ["offerTimeoutSeconds"]).bind (integerSchema 5 120)
  offersPerWave : own.offersPerWave = (raw.path ["offersPerWave"]).bind (integerSchema 1 10)
  maxSearchSeconds : own.maxSearchSeconds = (raw.path ["maxSearchSeconds"]).bind (integerSchema 30 900)

theorem path_key (json : Json) (key : String) : json.path [key] = json.member key := by
  rw [Json.path]
  cases json.member key <;> rfl

theorem zone_read {raw : Json} {zone : DispatchConfigOverride} (h : dispatchConfigOverrideSchema raw = some zone) :
    ZoneRead raw zone := by
  cases raw with
  | object members =>
    obtain ⟨a, ha, h⟩ := Option.bind_eq_some_iff.mp h
    obtain ⟨b, hb, h⟩ := Option.bind_eq_some_iff.mp h
    obtain ⟨c, hc, h⟩ := Option.bind_eq_some_iff.mp h
    obtain ⟨d, hd, h⟩ := Option.bind_eq_some_iff.mp h
    obtain ⟨e, he, h⟩ := Option.bind_eq_some_iff.mp h
    obtain ⟨f, hf, h⟩ := Option.bind_eq_some_iff.mp h
    cases h
    constructor
    · rw [path_key]
      exact optional_eq ha
    · rw [path_key]
      exact optional_eq hb
    · rw [path_key]
      exact optional_eq hc
    · rw [path_key]
      exact optional_eq hd
    · rw [path_key]
      exact optional_eq he
    · rw [path_key]
      exact optional_eq hf
    · intro json hjson
      rw [path_key] at hjson
      rw [hjson] at hf
      exact optional_some hf
  | _ => cases h

theorem service_read {raw : Json} {own : ServiceOverride} (h : serviceOverrideSchema raw = some own) :
    ServiceRead raw own := by
  cases raw with
  | object members =>
    obtain ⟨a, ha, h⟩ := Option.bind_eq_some_iff.mp h
    obtain ⟨b, hb, h⟩ := Option.bind_eq_some_iff.mp h
    obtain ⟨c, hc, h⟩ := Option.bind_eq_some_iff.mp h
    obtain ⟨d, hd, h⟩ := Option.bind_eq_some_iff.mp h
    cases h
    constructor
    · rw [path_key]
      exact optional_eq ha
    · rw [path_key]
      exact optional_eq hb
    · rw [path_key]
      exact optional_eq hc
    · rw [path_key]
      exact optional_eq hd
  | _ => cases h

theorem path_append (json : Json) (keys others : List String) :
    json.path (keys ++ others) = (json.path keys).bind (·.path others) := by
  induction keys generalizing json with
  | nil => rfl
  | cons key keys ih =>
    rw [List.cons_append, Json.path, Json.path]
    cases json.member key with
    | none => rfl
    | some inner => exact ih inner

/-- What the zone has for the service is what the schema reads under its name. -/
theorem own_read {raw : Json} {zone : DispatchConfigOverride} (h : dispatchConfigOverrideSchema raw = some zone)
    (service : ServiceType) :
    (zone.of (some service) = none ∧ raw.path ["perService", serviceTypeName service] = none) ∨
      ∃ own json, zone.of (some service) = some own ∧ raw.path ["perService", serviceTypeName service] = some json ∧
        ServiceRead json own := by
  have hread := zone_read h
  rw [show ["perService", serviceTypeName service] = ["perService"] ++ [serviceTypeName service] from rfl, path_append]
  rw [DispatchConfigOverride.of, Option.bind_some]
  cases hraw : raw.path ["perService"] with
  | none =>
    have hnone := hread.perService
    rw [hraw] at hnone
    exact .inl ⟨by rw [hnone]; rfl, rfl⟩
  | some services =>
    obtain ⟨record, hrecord⟩ := Option.isSome_iff_exists.mp (hread.taken services hraw)
    have hparse := hread.perService
    rw [hraw, hrecord, Option.bind_some] at hparse
    have hlookup := lookup_partialRecord hparse.symm (fun n n' k hn hn' ↦ (name_of_schema hn).symm.trans (name_of_schema hn'))
      (serviceTypeSchema_name service)
    rw [hrecord, Option.bind_some, Option.bind_some, path_key, hlookup]
    cases hjson : services.member (serviceTypeName service) with
    | none => exact .inl ⟨rfl, rfl⟩
    | some json =>
      obtain ⟨own, hown⟩ := Option.isSome_iff_exists.mp (partialRecord_value hparse.symm hjson)
      exact .inr ⟨own, json, hown, rfl, service_read hown⟩

/-- A field of what the zone has for the service, by the path to it. -/
theorem own_field {α : Type} {raw : Json} {zone : DispatchConfigOverride}
    (h : dispatchConfigOverrideSchema raw = some zone) {field : ServiceOverride → Option α} {schema : Json → Option α}
    {key : String} (hfield : ∀ json own, ServiceRead json own → field own = (json.path [key]).bind schema)
    (service : Option ServiceType) : (zone.of service).bind field =
      service.bind fun service ↦ (raw.path (keyAt (some service) key)).bind schema := by
  cases service with
  | none => rfl
  | some service =>
    rw [Option.bind_some, show keyAt (some service) key = ["perService", serviceTypeName service] ++ [key] from rfl,
      path_append]
    rcases own_read h service with ⟨hnone, hpath⟩ | ⟨own, json, hsome, hpath, hread⟩
    · rw [hnone, hpath]
      rfl
    · rw [hsome, hpath, Option.bind_some, Option.bind_some]
      exact hfield json own hread

/-- Two zones that agree on the paths to a field agree on the field. -/
theorem get_resolve {raw raw' : Json} {zone zone' : DispatchConfigOverride}
    (h : dispatchConfigOverrideSchema raw = some zone) (h' : dispatchConfigOverrideSchema raw' = some zone')
    {f : ConfigField} {service : Option ServiceType} (offers : Option PerServiceMaxOffers)
    (hkey : raw.path [f.key] = raw'.path [f.key])
    (hown : ∀ s, service = some s → raw.path (keyAt (some s) f.key) = raw'.path (keyAt (some s) f.key)) :
    (zone.resolve service offers).get f = (zone'.resolve service offers).get f := by
  have hread := zone_read h
  have hread' := zone_read h'
  have hsame {α : Type} (schema : Json → Option α) :
      (service.bind fun s ↦ (raw.path (keyAt (some s) f.key)).bind schema) =
        service.bind fun s ↦ (raw'.path (keyAt (some s) f.key)).bind schema := by
    cases service with
    | none => rfl
    | some s => rw [Option.bind_some, Option.bind_some, hown s rfl]
  have hwrite {α : Type} {field : ServiceOverride → Option α} {schema : Json → Option α}
      (hfield : ∀ json own, ServiceRead json own → field own = (json.path [f.key]).bind schema) :
      (zone.of service).bind field = (zone'.of service).bind field := by
    rw [own_field h hfield, own_field h' hfield, hsame]
  cases f with
  | radiusLadderKm =>
    have hfirst := hwrite fun _ _ hown ↦ hown.radiusLadderKm
    have hthen := hread.radiusLadderKm.trans ((congrArg (Option.bind · _) hkey).trans hread'.radiusLadderKm.symm)
    simp only [DispatchConfig.get, DispatchConfigOverride.resolve]
    rw [← DispatchConfigOverride.of, ← DispatchConfigOverride.of, hfirst, hthen]
  | bandCRadiusLadderKm =>
    have hthen := hread.bandCRadiusLadderKm.trans ((congrArg (Option.bind · _) hkey).trans hread'.bandCRadiusLadderKm.symm)
    simp only [DispatchConfig.get, DispatchConfigOverride.resolve]
    rw [hthen]
  | offerTimeoutSeconds =>
    have hfirst := hwrite fun _ _ hown ↦ hown.offerTimeoutSeconds
    have hthen := hread.offerTimeoutSeconds.trans ((congrArg (Option.bind · _) hkey).trans hread'.offerTimeoutSeconds.symm)
    simp only [DispatchConfig.get, DispatchConfigOverride.resolve]
    rw [← DispatchConfigOverride.of, ← DispatchConfigOverride.of, hfirst, hthen]
  | offersPerWave =>
    have hfirst := hwrite fun _ _ hown ↦ hown.offersPerWave
    have hthen := hread.offersPerWave.trans ((congrArg (Option.bind · _) hkey).trans hread'.offersPerWave.symm)
    simp only [DispatchConfig.get, DispatchConfigOverride.resolve]
    rw [← DispatchConfigOverride.of, ← DispatchConfigOverride.of, hfirst, hthen]
  | maxSearchSeconds =>
    have hfirst := hwrite fun _ _ hown ↦ hown.maxSearchSeconds
    have hthen := hread.maxSearchSeconds.trans ((congrArg (Option.bind · _) hkey).trans hread'.maxSearchSeconds.symm)
    simp only [DispatchConfig.get, DispatchConfigOverride.resolve]
    rw [← DispatchConfigOverride.of, ← DispatchConfigOverride.of, hfirst, hthen]

theorem key_ne (f : ConfigField) : f.key ≠ "perService" := by
  cases f <;> decide

/-- The key is not one that the field is resolved from. -/
structure Elsewhere (scope : Option ServiceType) (key : String) (service : Option ServiceType) (f : ConfigField) :
    Prop where
  whole : scope = none → key ≠ "perService"
  other : f.key ≠ key ∨ ∃ t, scope = some t ∧ service ≠ some t

theorem elsewhere_path {scope service : Option ServiceType} {key : String} {f : ConfigField}
    (h : Elsewhere scope key service f) (raw value : Json) :
    (raw.putAt (keyAt scope key) value).path [f.key] = raw.path [f.key] ∧
      ∀ s, service = some s →
        (raw.putAt (keyAt scope key) value).path (keyAt (some s) f.key) = raw.path (keyAt (some s) f.key) := by
  have hname {s t : ServiceType} (heq : serviceTypeName s = serviceTypeName t) : s = t := by
    have hs := serviceTypeSchema_name s
    rw [heq, serviceTypeSchema_name] at hs
    exact (Option.some.inj hs).symm
  have hper := key_ne f
  cases scope with
  | none =>
    have hkey : f.key ≠ key := h.other.resolve_right fun ⟨t, ht, _⟩ ↦ by cases ht
    have hwhole := h.whole rfl
    refine ⟨path_putAt _ _ ?_ ?_, fun s _ ↦ path_putAt _ _ ?_ ?_⟩ <;>
      simp [keyAt, hkey, hkey.symm, hwhole, hwhole.symm]
  | some t =>
    refine ⟨path_putAt _ _ ?_ ?_, fun s hs ↦ path_putAt _ _ ?_ ?_⟩
    · simp [keyAt]
    · simp [keyAt, hper]
    all_goals
      rcases h.other with hkey | ⟨u, hu, hother⟩
      · simp [keyAt, hkey, hkey.symm]
      · cases hu
        have hne : serviceTypeName s ≠ serviceTypeName t := fun heq ↦ hother (hs.trans (congrArg some (hname heq)))
        simp [keyAt, hne, hne.symm]

/-- The configuration is that of the layers, and in range, just where the zone's JSON does not
hide the platform's word and the platform's word can stand; and a key that is set changes
nothing but the field that it names. -/
theorem resolveDispatchConfig_layered (raw : Option Json) (service : Option ServiceType)
    (offers : Option PerServiceMaxOffers) :
    (resolveDispatchConfig raw service offers = layered raw service offers ∧
      (resolveDispatchConfig raw service offers).InRange ↔ Settled raw service offers) ∧
    ∀ json scope key value f, raw = some json → (dispatchConfigOverrideSchema json).isSome →
      (dispatchConfigOverrideSchema (json.putAt (keyAt scope key) value)).isSome → Elsewhere scope key service f →
      (resolveDispatchConfig (some (json.putAt (keyAt scope key) value)) service offers).get f =
        (resolveDispatchConfig raw service offers).get f := by
  refine ⟨resolve_settled raw service offers, ?_⟩
  rintro json scope key value f rfl hvalid hvalid' helse
  obtain ⟨zone, hzone⟩ := Option.isSome_iff_exists.mp hvalid
  obtain ⟨zone', hzone'⟩ := Option.isSome_iff_exists.mp hvalid'
  obtain ⟨hkey, hown⟩ := elsewhere_path helse json value
  rw [resolve_valid hzone, resolve_valid hzone']
  exact get_resolve hzone' hzone offers hkey hown

/-- A zone with five offers in a wave. -/
def fiveOffers : Json := .object [.mk "offersPerWave" (.number 5)]

theorem resolveDispatchConfig_layered_sample :
    resolveDispatchConfig (some fiveOffers) (some .fuel) (some fun _ ↦ some 1) =
        layered (some fiveOffers) (some .fuel) (some fun _ ↦ some 1) ∧
      (resolveDispatchConfig (some (fiveOffers.putAt ["perService", "fuel", "maxSearchSeconds"] (.number 90))) (some .fuel)
        none).get .offersPerWave = (resolveDispatchConfig (some fiveOffers) (some .fuel) none).get .offersPerWave := by
  constructor
  · refine ((resolveDispatchConfig_layered _ _ _).1.mpr ?_).1
    intro x hx hwave
    exact absurd hwave (by decide +kernel)
  · exact (resolveDispatchConfig_layered (some fiveOffers) (some .fuel) none).2 fiveOffers (some .fuel)
      "maxSearchSeconds" (.number 90) .offersPerWave rfl (by decide +kernel) (by decide +kernel)
      ⟨fun h ↦ (by cases h), .inl (by decide)⟩

/-- A ladder that descends, stored by hand. -/
def descending : Json := .object [.mk "radiusLadderKm" (.array [.number 5, .number 2])]

theorem platform_forgotten : ¬resolveDispatchConfig (some descending) (some .fuel) (some fun _ ↦ some 1) =
    layered (some descending) (some .fuel) (some fun _ ↦ some 1) := by
  decide +kernel

end Towing.Dispatch
