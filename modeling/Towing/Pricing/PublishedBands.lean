import Towing.Pricing.AdminConfigService
import Towing.Pricing.FareLaws

namespace Towing.Pricing

open Towing.Money Towing.Trips

/-! Tables that are looked up by distance: each row has a price at every distance, and past
the last row a price is given. -/

variable {value : ℚ → DistanceBandRule → ℚ → ℤ} {beyond : ℤ} {reaches : ℚ → Bool} {km km' lowerKm lowerKm' : ℚ}
  {bands : List DistanceBandRule} {band band' : DistanceBandRule}

def dueWhere (value : ℚ → DistanceBandRule → ℚ → ℤ) (beyond : ℤ) (reaches : ℚ → Bool) (lowerKm km : ℚ)
    (bands : List DistanceBandRule) : ℤ :=
  match rangeWhere reaches lowerKm bands with
  | some (lowerKm, band) => value lowerKm band km
  | none => beyond

theorem dueWhere_cons (value : ℚ → DistanceBandRule → ℚ → ℤ) (beyond : ℤ) (reaches : ℚ → Bool) (lowerKm km : ℚ) :
    dueWhere value beyond reaches lowerKm km (band :: bands) =
      if reaches band.maxKm then value lowerKm band km else dueWhere value beyond reaches band.maxKm km bands := by
  rw [dueWhere, rangeWhere]
  split_ifs <;> rfl

/-- Where no row hands over to a lower price, the price does not fall. -/
theorem dueWhere_mono (hvalue : ∀ lowerKm, ∀ band ∈ bands, ∀ km km', km ≤ km' → value lowerKm band km ≤ value lowerKm band km')
    (hm : Marks reaches km) (hkm : km ≤ km') (hless : ∀ m, km' ≤ m → reaches m = true)
    (hsteps : ∀ band ∈ bands, reaches band.maxKm = true → band.maxKm < km' →
      dueWhere value beyond (band.maxKm ≤ ·) lowerKm band.maxKm bands ≤
        dueWhere value beyond (band.maxKm < ·) lowerKm band.maxKm bands) :
    dueWhere value beyond reaches lowerKm km bands ≤ dueWhere value beyond (km' ≤ ·) lowerKm km' bands := by
  induction bands generalizing reaches km lowerKm with
  | nil => exact le_refl _
  | cons first bands ih =>
    have hvalue' : ∀ lowerKm, ∀ band ∈ bands, ∀ km km', km ≤ km' → value lowerKm band km ≤ value lowerKm band km' :=
      fun lowerKm band hmem ↦ hvalue lowerKm band (List.mem_cons_of_mem _ hmem)
    -- What the steps of the rest are in the whole table.
    have hrest {reaches' : ℚ → Bool} (hup : ∀ m, reaches' m = true → reaches m = true ∧ first.maxKm < m) :
        ∀ band ∈ bands, reaches' band.maxKm = true → band.maxKm < km' →
          dueWhere value beyond (band.maxKm ≤ ·) first.maxKm band.maxKm bands ≤
            dueWhere value beyond (band.maxKm < ·) first.maxKm band.maxKm bands := by
      intro band hmem hreach hlt
      obtain ⟨hreach', hfirst⟩ := hup _ hreach
      have hstep := hsteps band (List.mem_cons_of_mem _ hmem) hreach' hlt
      rwa [dueWhere_cons, dueWhere_cons, if_neg (by simpa using hfirst), if_neg (by simpa using hfirst.le)] at hstep
    rw [dueWhere_cons, dueWhere_cons]
    by_cases hreach : reaches first.maxKm = true
    · rw [if_pos hreach]
      by_cases hin : km' ≤ first.maxKm
      · rw [if_pos (decide_eq_true hin)]
        exact hvalue lowerKm first List.mem_cons_self km km' hkm
      · have hlt : first.maxKm < km' := not_le.mp hin
        rw [if_neg (by simpa using hin)]
        have hstep := hsteps first List.mem_cons_self hreach hlt
        rw [dueWhere_cons, dueWhere_cons, if_pos (by simp), if_neg (by simp)] at hstep
        have hnext := @ih (first.maxKm < ·) first.maxKm first.maxKm hvalue' (marks_past first.maxKm) hlt.le
          (fun m h ↦ decide_eq_true (hlt.trans_le h)) (hrest fun m h ↦ by
            have hup : first.maxKm < m := of_decide_eq_true h
            refine ⟨?_, hup⟩
            by_contra hdown
            have := hm.down m (by simpa using hdown)
            have := hm.up _ hreach
            linarith)
        calc value lowerKm first km ≤ value lowerKm first first.maxKm :=
              hvalue lowerKm first List.mem_cons_self _ _ (hm.up _ hreach)
          _ ≤ _ := hstep
          _ ≤ _ := hnext
    · have hin : ¬km' ≤ first.maxKm := fun h ↦ hreach (hless _ h)
      rw [if_neg hreach, if_neg (by simpa using hin)]
      refine ih hvalue' hm hkm hless (hrest fun m h ↦ ⟨h, ?_⟩)
      have hdown := hm.down _ (by simpa using hreach)
      refine lt_of_le_of_ne (hdown.trans (hm.up m h)) fun heq ↦ hreach ?_
      rw [heq]
      exact h

theorem rangeWhere_snd (reaches : ℚ → Bool) (lowerKm : ℚ) (bands : List DistanceBandRule) :
    (rangeWhere reaches lowerKm bands).map (·.2) = bands.find? fun band ↦ reaches band.maxKm := by
  induction bands generalizing lowerKm with
  | nil => rfl
  | cons first bands ih =>
    rw [rangeWhere, List.find?_cons]
    cases hreach : reaches first.maxKm with
    | true => simp
    | false => simpa using ih first.maxKm

/-! What is due for a distance. -/

def lastPrice (price : DistanceBandRule → ℤ) (bands : List DistanceBandRule) : ℤ := (bands.getLast?.map price).getD 0

def slabDue (reaches : ℚ → Bool) (km : ℚ) (slabs : List DistanceBandRule) : ℤ :=
  dueWhere (fun _ slab _ ↦ slab.pricePaise) (lastPrice (·.pricePaise) slabs) reaches 0 km slabs

def rangeDue (reaches : ℚ → Bool) (km : ℚ) (bands : List DistanceBandRule) : ℤ :=
  dueWhere (fun lowerKm band km ↦ wholeRupees (interpolated lowerKm band km))
    (lastPrice (fun last ↦ wholeRupees last.ceiling) bands) reaches LONG_DISTANCE_FLOOR_KM km bands

theorem slabDue_at (km : ℚ) (hne : bands ≠ []) : (slabAt km bands).map (·.pricePaise) = some (slabDue (km ≤ ·) km bands) := by
  have hfind : bands.find? (fun slab ↦ decide (km ≤ slab.maxKm)) = (rangeWhere (km ≤ ·) 0 bands).map (·.2) :=
    (rangeWhere_snd (km ≤ ·) 0 bands).symm
  rw [slabAt, slabDue, dueWhere, hfind, lastPrice, List.getLast?_eq_getLast_of_ne_nil hne]
  cases rangeWhere (km ≤ ·) 0 bands <;> rfl

theorem rangeDue_quoted (hne : bands ≠ []) : (quotedPaise km bands (rangeWhere reaches LONG_DISTANCE_FLOOR_KM bands)).map
    wholeRupees = some (rangeDue reaches km bands) := by
  rw [rangeDue, dueWhere, lastPrice, List.getLast?_eq_getLast_of_ne_nil hne]
  cases rangeWhere reaches LONG_DISTANCE_FLOOR_KM bands with
  | none => simp [quotedPaise, List.getLast?_eq_getLast_of_ne_nil hne]
  | some found => rfl

/-- The row that is used. -/
def bandWhere (reaches : ℚ → Bool) (bands : List DistanceBandRule) : Option DistanceBandRule :=
  bands.find? (fun band ↦ reaches band.maxKm) <|> bands.getLast?

variable {rules : PricingRuleSet} {service : ServiceType} {vehicleClass : VehicleClass} {base base' : ℤ}

/-- What the tables of the prices leave of a rate card. -/
structure PricingRuleSet.Shaped (rules : PricingRuleSet) : Prop where
  slabs_ne : ∀ vehicleClass, rules.slabs vehicleClass ≠ []
  ranges_ne : rules.longDistance ≠ []
  sorted : rules.longDistance.Pairwise fun a b ↦ a.maxKm ≤ b.maxKm
  ceilings : ∀ band ∈ rules.longDistance, band.pricePaise ≤ band.ceiling
  single : ∀ vehicleClass, ∀ slab ∈ rules.slabs vehicleClass, slab.ceiling = slab.pricePaise ∧ 0 < slab.maxKm

/-- What a tow of the class costs, by the rows. -/
def dueAt (rules : PricingRuleSet) (vehicleClass : VehicleClass) (km : ℚ) : ℤ :=
  if km ≤ LONG_DISTANCE_FLOOR_KM then slabDue (km ≤ ·) km (rules.slabs vehicleClass)
  else rangeDue (km ≤ ·) km rules.longDistance

/-- And what one that is a little longer costs. -/
def duePast (rules : PricingRuleSet) (vehicleClass : VehicleClass) (km : ℚ) : ℤ :=
  if km < LONG_DISTANCE_FLOOR_KM then slabDue (km < ·) km (rules.slabs vehicleClass)
  else rangeDue (km < ·) km rules.longDistance

/-- Every distance is priced, or it is refused for what it is: there is no price for a
roadside service, or the distance is one for a manual quote. -/
theorem baseFarePaise_answers (hrules : rules.Shaped) (service : ServiceType) (vehicleClass : VehicleClass) (km : ℚ) :
    baseFarePaise service vehicleClass km rules =
      match rules.roadside service with
      | some fare => .ok fare
      | none =>
        if isRoadsideService service then .error (.serviceNotPriced service)
        else if CUSTOM_QUOTE_ABOVE_KM < km then .error (.customQuoteRequired km)
        else .ok (dueAt rules vehicleClass km) := by
  unfold baseFarePaise
  cases rules.roadside service with
  | some fare => rfl
  | none =>
    dsimp only
    by_cases hroad : isRoadsideService service = true
    · rw [if_pos hroad, if_pos hroad]
    · rw [if_neg hroad, if_neg hroad]
      by_cases hkm : LONG_DISTANCE_FLOOR_KM < km
      · rw [if_pos hkm]
        by_cases hquote : CUSTOM_QUOTE_ABOVE_KM < km
        · rw [if_pos hquote, if_pos hquote]
        · rw [if_neg hquote, if_neg hquote, dueAt, if_neg (not_le.mpr hkm), longDistanceFarePaise_ok]
          exact rangeDue_quoted hrules.ranges_ne
      · have hquote : ¬CUSTOM_QUOTE_ABOVE_KM < km :=
          not_lt.mpr ((not_lt.mp hkm).trans LONG_DISTANCE_FLOOR_lt.le)
        obtain ⟨slab, hslab⟩ := slabAt_isSome km (hrules.slabs_ne vehicleClass)
        have hdue := slabDue_at km (hrules.slabs_ne vehicleClass)
        rw [hslab] at hdue
        rw [if_neg hkm, if_neg hquote, hslab, dueAt, if_pos (not_lt.mp hkm), ← Option.some.inj hdue]

/-- The bounds between the ranges, for distances that are priced. -/
def rangeBounds (rules : PricingRuleSet) : List ℚ :=
  (rules.longDistance.map (·.maxKm)).filter fun m ↦ LONG_DISTANCE_FLOOR_KM < m ∧ m < CUSTOM_QUOTE_ABOVE_KM

/-- The bounds at which one row hands over to another. -/
def handOvers (rules : PricingRuleSet) (vehicleClass : VehicleClass) : List ℚ :=
  LONG_DISTANCE_FLOOR_KM :: ((rules.slabs vehicleClass).map (·.maxKm)).filter (· < LONG_DISTANCE_FLOOR_KM) ++
    rangeBounds rules

theorem mem_rangeBounds : km ∈ rangeBounds rules ↔ (∃ band ∈ rules.longDistance, band.maxKm = km) ∧
    LONG_DISTANCE_FLOOR_KM < km ∧ km < CUSTOM_QUOTE_ABOVE_KM := by
  rw [rangeBounds, List.mem_filter, List.mem_map, decide_eq_true_eq]

/-- No row hands over to a lower price. -/
def NoDrop (rules : PricingRuleSet) (vehicleClass : VehicleClass) : Prop :=
  ∀ km ∈ handOvers rules vehicleClass, dueAt rules vehicleClass km ≤ duePast rules vehicleClass km

theorem slabDue_mono {slabs : List DistanceBandRule} (h : km ≤ km')
    (hsteps : ∀ slab ∈ slabs, slab.maxKm < km' → slabDue (slab.maxKm ≤ ·) slab.maxKm slabs ≤ slabDue (slab.maxKm < ·) slab.maxKm slabs) :
    slabDue (km ≤ ·) km slabs ≤ slabDue (km' ≤ ·) km' slabs :=
  dueWhere_mono (fun _ _ _ _ _ _ ↦ le_refl _) (marks_at km) h (fun _ hm ↦ decide_eq_true (h.trans hm))
    fun slab hmem _ hlt ↦ hsteps slab hmem hlt

theorem rangeDue_mono (hceilings : ∀ band ∈ bands, band.pricePaise ≤ band.ceiling) (hm : Marks reaches km)
    (h : km ≤ km') (hless : ∀ m, km' ≤ m → reaches m = true)
    (hsteps : ∀ band ∈ bands, reaches band.maxKm = true → band.maxKm < km' →
      rangeDue (band.maxKm ≤ ·) band.maxKm bands ≤ rangeDue (band.maxKm < ·) band.maxKm bands) :
    rangeDue reaches km bands ≤ rangeDue (km' ≤ ·) km' bands := by
  refine dueWhere_mono (fun lowerKm band hmem km km' hkm ↦ ?_) hm h hless hsteps
  exact wholeRupees_mono (interpolated_mono (hceilings band hmem) hkm)

theorem dueAt_mono (hrules : rules.Shaped) (hdrop : NoDrop rules vehicleClass) (h : km ≤ km')
    (hquote : km' ≤ CUSTOM_QUOTE_ABOVE_KM) : dueAt rules vehicleClass km ≤ dueAt rules vehicleClass km' := by
  have hslabs : ∀ slab ∈ rules.slabs vehicleClass, slab.maxKm < LONG_DISTANCE_FLOOR_KM →
      slabDue (slab.maxKm ≤ ·) slab.maxKm (rules.slabs vehicleClass) ≤ slabDue (slab.maxKm < ·) slab.maxKm (rules.slabs vehicleClass) := by
    intro slab hmem hlt
    have hstep := hdrop slab.maxKm (List.mem_append_left _ (List.mem_cons_of_mem _
      (List.mem_filter.mpr ⟨List.mem_map_of_mem hmem, decide_eq_true hlt⟩)))
    rwa [dueAt, if_pos hlt.le, duePast, if_pos hlt] at hstep
  have hranges : ∀ band ∈ rules.longDistance, LONG_DISTANCE_FLOOR_KM < band.maxKm → band.maxKm < CUSTOM_QUOTE_ABOVE_KM →
      rangeDue (band.maxKm ≤ ·) band.maxKm rules.longDistance ≤ rangeDue (band.maxKm < ·) band.maxKm rules.longDistance := by
    intro band hmem hlow hhigh
    have hstep := hdrop band.maxKm
      (List.mem_append_right _ (mem_rangeBounds.mpr ⟨⟨band, hmem, rfl⟩, hlow, hhigh⟩))
    rwa [dueAt, if_neg (not_le.mpr hlow), duePast, if_neg (not_lt.mpr hlow.le)] at hstep
  by_cases hkm' : km' ≤ LONG_DISTANCE_FLOOR_KM
  · rw [dueAt, if_pos (h.trans hkm'), dueAt, if_pos hkm']
    exact slabDue_mono h fun slab hmem hlt ↦ hslabs slab hmem (hlt.trans_le hkm')
  · have hfar : LONG_DISTANCE_FLOOR_KM < km' := not_le.mp hkm'
    by_cases hkm : km ≤ LONG_DISTANCE_FLOOR_KM
    · have hseam := hdrop LONG_DISTANCE_FLOOR_KM (List.mem_append_left _ List.mem_cons_self)
      rw [dueAt, if_pos (le_refl _), duePast, if_neg (lt_irrefl _)] at hseam
      rw [dueAt, if_pos hkm, dueAt, if_neg hkm']
      refine (slabDue_mono hkm hslabs).trans (hseam.trans ?_)
      refine rangeDue_mono hrules.ceilings (marks_past _) hfar.le (fun m hm ↦ decide_eq_true (hfar.trans_le hm)) ?_
      exact fun band hmem hlow hhigh ↦ hranges band hmem (of_decide_eq_true hlow) (hhigh.trans_le hquote)
    · rw [dueAt, if_neg hkm, dueAt, if_neg hkm']
      refine rangeDue_mono hrules.ceilings (marks_at km) h (fun m hm ↦ decide_eq_true (h.trans hm)) ?_
      intro band hmem hlow hhigh
      exact hranges band hmem ((not_le.mp hkm).trans_le (of_decide_eq_true hlow)) (hhigh.trans_le hquote)

/-- The price just past a hand-over is asked of a distance that is close enough. -/
theorem duePast_asked (vehicleClass : VehicleClass) (hrules : rules.Shaped) (hkm : km < CUSTOM_QUOTE_ABOVE_KM) : ∃ km', km < km' ∧
    km' ≤ CUSTOM_QUOTE_ABOVE_KM ∧ dueAt rules vehicleClass km' = duePast rules vehicleClass km := by
  by_cases hfloor : km < LONG_DISTANCE_FLOOR_KM
  · obtain ⟨km', hlt, hle, hdue⟩ : ∃ km', km < km' ∧ km' ≤ LONG_DISTANCE_FLOOR_KM ∧
        slabDue (km' ≤ ·) km' (rules.slabs vehicleClass) = slabDue (km < ·) km (rules.slabs vehicleClass) := by
      cases hr : rangeWhere (km < ·) 0 (rules.slabs vehicleClass) with
      | none =>
        refine ⟨LONG_DISTANCE_FLOOR_KM, hfloor, le_refl _, ?_⟩
        have hnone : rangeWhere (LONG_DISTANCE_FLOOR_KM ≤ ·) 0 (rules.slabs vehicleClass) = none :=
          rangeWhere_eq_none fun slab hmem ↦ decide_eq_false (not_le.mpr
            ((not_lt.mp (of_decide_eq_false (rangeWhere_none hr slab hmem))).trans_lt hfloor))
        rw [slabDue, slabDue, dueWhere, dueWhere, hr, hnone]
      | some found =>
        obtain ⟨lowerKm, slab⟩ := found
        have hreach : km < slab.maxKm := of_decide_eq_true (rangeWhere_mem hr).2
        have hlt : km < min slab.maxKm LONG_DISTANCE_FLOOR_KM := lt_min hreach hfloor
        refine ⟨min slab.maxKm LONG_DISTANCE_FLOOR_KM, hlt, min_le_right _ _, ?_⟩
        have hsame : rangeWhere (min slab.maxKm LONG_DISTANCE_FLOOR_KM ≤ ·) 0 (rules.slabs vehicleClass) =
            some (lowerKm, slab) := by
          refine rangeWhere_same (fun m hm ↦ ?_) hr (decide_eq_true (min_le_left _ _))
          exact decide_eq_true (hlt.trans_le (of_decide_eq_true hm))
        rw [slabDue, slabDue, dueWhere, dueWhere, hr, hsame]
    refine ⟨km', hlt, hle.trans LONG_DISTANCE_FLOOR_lt.le, ?_⟩
    rw [dueAt, if_pos hle, duePast, if_pos hfloor, hdue]
  · have hpast : pricePast km rules.longDistance = some (rangeDue (km < ·) km rules.longDistance) :=
      rangeDue_quoted hrules.ranges_ne
    obtain ⟨km', hlt, hle, -, hasked⟩ := pricePast_asked hrules.ceilings hkm hpast
    have hfar : LONG_DISTANCE_FLOOR_KM < km' := (not_lt.mp hfloor).trans_lt hlt
    rw [longDistanceFarePaise_ok, rangeAt, rangeDue_quoted hrules.ranges_ne] at hasked
    refine ⟨km', hlt, hle, ?_⟩
    rw [dueAt, if_neg (not_le.mpr hfar), duePast, if_neg hfloor, Option.some.inj hasked]

/-- A longer tow of the class never has a lower base fare. -/
def Monotonic (rules : PricingRuleSet) (service : ServiceType) (vehicleClass : VehicleClass) : Prop :=
  ∀ km km' base base', 0 ≤ km → km ≤ km' → baseFarePaise service vehicleClass km rules = .ok base →
    baseFarePaise service vehicleClass km' rules = .ok base' → base ≤ base'

theorem baseFarePaise_due (hrules : rules.Shaped) (hflat : flatRated rules service = false) :
    baseFarePaise service vehicleClass km rules = .ok base ↔
      km ≤ CUSTOM_QUOTE_ABOVE_KM ∧ dueAt rules vehicleClass km = base := by
  simp only [flatRated, Bool.or_eq_false_iff, Option.isSome_eq_false_iff, Option.isNone_iff_eq_none] at hflat
  rw [baseFarePaise_answers hrules, hflat.1, hflat.2]
  by_cases hquote : CUSTOM_QUOTE_ABOVE_KM < km
  · simp [hquote]
  · simp [hquote, not_lt.mp hquote]

theorem handOvers_bounds (hrules : rules.Shaped) (h : km ∈ handOvers rules vehicleClass) :
    0 ≤ km ∧ km < CUSTOM_QUOTE_ABOVE_KM := by
  have hfloor : (0 : ℚ) ≤ LONG_DISTANCE_FLOOR_KM := by norm_num [LONG_DISTANCE_FLOOR_KM]
  rcases List.mem_append.mp h with h | h
  · rcases List.mem_cons.mp h with rfl | h
    · exact ⟨hfloor, LONG_DISTANCE_FLOOR_lt⟩
    · obtain ⟨hmem, hlt⟩ := List.mem_filter.mp h
      obtain ⟨slab, hslab, rfl⟩ := List.mem_map.mp hmem
      exact ⟨(hrules.single vehicleClass slab hslab).2.le, (of_decide_eq_true hlt).trans LONG_DISTANCE_FLOOR_lt⟩
  · obtain ⟨-, hlow, hhigh⟩ := mem_rangeBounds.mp h
    exact ⟨hfloor.trans hlow.le, hhigh⟩

theorem monotonic_iff (hrules : rules.Shaped) : Monotonic rules service vehicleClass ↔
    flatRated rules service = true ∨ NoDrop rules vehicleClass := by
  cases hflat : flatRated rules service with
  | true =>
    refine ⟨fun _ ↦ .inl rfl, fun _ km km' base base' _ _ hbase hbase' ↦ ?_⟩
    rw [baseFarePaise_flat hflat vehicleClass vehicleClass km km', hbase'] at hbase
    cases hbase
    exact le_refl _
  | false =>
    constructor
    · intro hmono
      refine .inr fun km hmem ↦ ?_
      obtain ⟨h0, hquote⟩ := handOvers_bounds hrules hmem
      obtain ⟨km', hlt, hle, hdue⟩ := duePast_asked vehicleClass hrules hquote
      rw [← hdue]
      exact hmono km km' _ _ h0 hlt.le ((baseFarePaise_due hrules hflat).mpr ⟨hquote.le, rfl⟩)
        ((baseFarePaise_due hrules hflat).mpr ⟨hle, rfl⟩)
    · rintro (hcontra | hdrop) km km' base base' _ hkm hbase hbase'
      · cases hcontra
      · obtain ⟨-, rfl⟩ := (baseFarePaise_due hrules hflat).mp hbase
        obtain ⟨hquote, rfl⟩ := (baseFarePaise_due hrules hflat).mp hbase'
        exact dueAt_mono hrules hdrop hkm hquote

/-! The bounds that a row publishes. -/

def usedBand (rules : PricingRuleSet) (vehicleClass : VehicleClass) (km : ℚ) : Option DistanceBandRule :=
  bandWhere (km ≤ ·) (if km ≤ LONG_DISTANCE_FLOOR_KM then rules.slabs vehicleClass else rules.longDistance)

/-- The fare is the service's rate, or between the least and the most of the row that is used. -/
def Published (rules : PricingRuleSet) (service : ServiceType) (vehicleClass : VehicleClass) (km : ℚ) (base : ℤ) : Prop :=
  rules.roadside service = some base ∨
    ∃ band, usedBand rules vehicleClass km = some band ∧ band.pricePaise ≤ base ∧ base ≤ band.ceiling

def Inside (rules : PricingRuleSet) (service : ServiceType) (vehicleClass : VehicleClass) : Prop :=
  ∀ km base, 0 ≤ km → baseFarePaise service vehicleClass km rules = .ok base → Published rules service vehicleClass km base

/-- Where a range begins to be used its rounded price is not under the floor, and where it is
last used not over the ceiling. -/
def KeepsBounds (rules : PricingRuleSet) : Prop :=
  (∀ km ∈ LONG_DISTANCE_FLOOR_KM :: rangeBounds rules, ∀ band, bandWhere (km < ·) rules.longDistance = some band →
    band.pricePaise ≤ rangeDue (km < ·) km rules.longDistance) ∧
  ∀ km ∈ CUSTOM_QUOTE_ABOVE_KM :: rangeBounds rules, ∀ band, bandWhere (km ≤ ·) rules.longDistance = some band →
    rangeDue (km ≤ ·) km rules.longDistance ≤ band.ceiling

theorem bandWhere_found (h : rangeWhere reaches lowerKm bands = some (lowerKm', band)) : bandWhere reaches bands = some band := by
  have hfind : bands.find? (fun band ↦ reaches band.maxKm) = (rangeWhere reaches lowerKm bands).map (·.2) :=
    (rangeWhere_snd reaches lowerKm bands).symm
  rw [bandWhere, hfind, h]
  rfl

theorem bandWhere_last (h : rangeWhere reaches lowerKm bands = none) : bandWhere reaches bands = bands.getLast? := by
  have hfind : bands.find? (fun band ↦ reaches band.maxKm) = (rangeWhere reaches lowerKm bands).map (·.2) :=
    (rangeWhere_snd reaches lowerKm bands).symm
  rw [bandWhere, hfind, h]
  rfl

theorem rangeDue_found (h : rangeWhere reaches LONG_DISTANCE_FLOOR_KM bands = some (lowerKm, band)) :
    rangeDue reaches km bands = wholeRupees (interpolated lowerKm band km) := by
  rw [rangeDue, dueWhere, h]

theorem rangeDue_beyond (km : ℚ) (h : rangeWhere reaches LONG_DISTANCE_FLOOR_KM bands = none) :
    rangeDue reaches km bands = lastPrice (fun last ↦ wholeRupees last.ceiling) bands := by
  rw [rangeDue, dueWhere, h]

theorem rangeWhere_from (h : rangeWhere reaches lowerKm bands = some (lowerKm', band)) :
    lowerKm' = lowerKm ∨ ∃ below ∈ bands, below.maxKm = lowerKm' ∧ reaches lowerKm' = false := by
  induction bands generalizing lowerKm with
  | nil => cases h
  | cons first bands ih =>
    rw [rangeWhere] at h
    split_ifs at h with hreach
    · cases h
      exact .inl rfl
    · rcases ih h with rfl | ⟨below, hmem, hbelow⟩
      · exact .inr ⟨first, List.mem_cons_self, rfl, by simpa using hreach⟩
      · exact .inr ⟨below, List.mem_cons_of_mem _ hmem, hbelow⟩

theorem rangeWhere_ge (hsorted : bands.Pairwise fun a b ↦ a.maxKm ≤ b.maxKm) (hlow : ∀ band ∈ bands, lowerKm ≤ band.maxKm)
    (h : rangeWhere reaches lowerKm bands = some (lowerKm', band)) : lowerKm ≤ lowerKm' := by
  induction bands generalizing lowerKm with
  | nil => cases h
  | cons first bands ih =>
    obtain ⟨hfirst, hrest⟩ := List.pairwise_cons.mp hsorted
    rw [rangeWhere] at h
    split_ifs at h
    · cases h
      exact le_refl _
    · exact (hlow first List.mem_cons_self).trans (ih hrest hfirst h)

/-- Where a range is found, it is found from its lower bound on. -/
theorem rangeWhere_past (hsorted : bands.Pairwise fun a b ↦ a.maxKm ≤ b.maxKm) {start : ℚ}
    (h : rangeWhere (km ≤ ·) lowerKm bands = some (lowerKm', band)) (hstart : lowerKm' ≤ start) (hkm : start < km) :
    rangeWhere (start < ·) lowerKm bands = some (lowerKm', band) := by
  induction bands generalizing lowerKm with
  | nil => cases h
  | cons first bands ih =>
    obtain ⟨hfirst, hrest⟩ := List.pairwise_cons.mp hsorted
    rw [rangeWhere] at h
    split_ifs at h with hreach
    · cases h
      rw [rangeWhere, if_pos (decide_eq_true (hkm.trans_le (of_decide_eq_true hreach)))]
    · have hbelow := rangeWhere_ge hrest hfirst h
      rw [rangeWhere, if_neg (by simpa using hbelow.trans hstart)]
      exact ih hrest h

theorem inside_range (hrules : rules.Shaped) (hkeeps : KeepsBounds rules) (hkm : LONG_DISTANCE_FLOOR_KM < km)
    (hquote : km ≤ CUSTOM_QUOTE_ABOVE_KM) : ∃ band, bandWhere (km ≤ ·) rules.longDistance = some band ∧
      band.pricePaise ≤ rangeDue (km ≤ ·) km rules.longDistance ∧ rangeDue (km ≤ ·) km rules.longDistance ≤ band.ceiling := by
  obtain ⟨hstarts, hends⟩ := hkeeps
  cases hr : rangeWhere (km ≤ ·) LONG_DISTANCE_FLOOR_KM rules.longDistance with
  | some found =>
    obtain ⟨lowerKm, band⟩ := found
    obtain ⟨hmem, hreach⟩ := rangeWhere_mem hr
    have hmax : km ≤ band.maxKm := of_decide_eq_true hreach
    refine ⟨band, bandWhere_found hr, ?_, ?_⟩
    · have hstart : max lowerKm LONG_DISTANCE_FLOOR_KM < km ∧
          max lowerKm LONG_DISTANCE_FLOOR_KM ∈ LONG_DISTANCE_FLOOR_KM :: rangeBounds rules := by
        rcases rangeWhere_from hr with rfl | ⟨below, hbelow, rfl, hnot⟩
        · rw [max_self]
          exact ⟨hkm, List.mem_cons_self⟩
        · have hlt : below.maxKm < km := not_le.mp (of_decide_eq_false hnot)
          refine ⟨max_lt hlt hkm, ?_⟩
          by_cases hlow : below.maxKm ≤ LONG_DISTANCE_FLOOR_KM
          · rw [max_eq_right hlow]
            exact List.mem_cons_self
          · have hlow' := not_le.mp hlow
            rw [max_eq_left hlow'.le]
            exact List.mem_cons_of_mem _ (mem_rangeBounds.mpr ⟨⟨below, hbelow, rfl⟩, hlow', hlt.trans_le hquote⟩)
      have hpast := rangeWhere_past hrules.sorted hr (le_max_left _ _) hstart.1
      have hfloor := hstarts _ hstart.2 band (bandWhere_found hpast)
      rw [rangeDue_found hpast] at hfloor
      rw [rangeDue_found hr]
      exact hfloor.trans (wholeRupees_mono (interpolated_mono (hrules.ceilings band hmem) hstart.1.le))
    · have hend : min band.maxKm CUSTOM_QUOTE_ABOVE_KM ∈ CUSTOM_QUOTE_ABOVE_KM :: rangeBounds rules := by
        by_cases hover : CUSTOM_QUOTE_ABOVE_KM ≤ band.maxKm
        · rw [min_eq_right hover]
          exact List.mem_cons_self
        · have hunder := not_le.mp hover
          rw [min_eq_left hunder.le]
          exact List.mem_cons_of_mem _ (mem_rangeBounds.mpr ⟨⟨band, hmem, rfl⟩, hkm.trans_le hmax, hunder⟩)
      have hle : km ≤ min band.maxKm CUSTOM_QUOTE_ABOVE_KM := le_min hmax hquote
      have hat : rangeWhere (min band.maxKm CUSTOM_QUOTE_ABOVE_KM ≤ ·) LONG_DISTANCE_FLOOR_KM rules.longDistance =
          some (lowerKm, band) :=
        rangeWhere_same (fun m hm ↦ decide_eq_true (hle.trans (of_decide_eq_true hm))) hr
          (decide_eq_true (min_le_left _ _))
      have hceiling := hends _ hend band (bandWhere_found hat)
      rw [rangeDue_found hat] at hceiling
      rw [rangeDue_found hr]
      exact (wholeRupees_mono (interpolated_mono (hrules.ceilings band hmem) hle)).trans hceiling
  | none =>
    have hbelow : ∀ band ∈ rules.longDistance, band.maxKm < km := fun band hmem ↦
      not_le.mp (of_decide_eq_false (rangeWhere_none hr band hmem))
    obtain ⟨last, hlast⟩ : ∃ last, rules.longDistance.getLast? = some last :=
      ⟨_, List.getLast?_eq_getLast_of_ne_nil hrules.ranges_ne⟩
    refine ⟨last, (bandWhere_last hr).trans hlast, ?_, ?_⟩
    · have hmem := List.mem_of_getLast? hlast
      have hup : ∀ band ∈ rules.longDistance, band.maxKm ≤ last.maxKm := by
        intro band hband
        obtain ⟨front, hfront⟩ := List.getLast?_eq_some_iff.mp hlast
        rw [hfront] at hband
        rcases List.mem_append.mp hband with hband | hband
        · have hsorted := hrules.sorted
          rw [hfront] at hsorted
          exact (List.pairwise_append.mp hsorted).2.2 band hband last List.mem_cons_self
        · cases List.mem_singleton.mp hband
          exact le_refl _
      have hstart : max last.maxKm LONG_DISTANCE_FLOOR_KM ∈ LONG_DISTANCE_FLOOR_KM :: rangeBounds rules := by
        by_cases hlow : last.maxKm ≤ LONG_DISTANCE_FLOOR_KM
        · rw [max_eq_right hlow]
          exact List.mem_cons_self
        · have hlow' := not_le.mp hlow
          rw [max_eq_left hlow'.le]
          exact List.mem_cons_of_mem _
            (mem_rangeBounds.mpr ⟨⟨last, hmem, rfl⟩, hlow', (hbelow last hmem).trans_le hquote⟩)
      have hpast : rangeWhere (max last.maxKm LONG_DISTANCE_FLOOR_KM < ·) LONG_DISTANCE_FLOOR_KM rules.longDistance = none :=
        rangeWhere_eq_none fun band hband ↦
          decide_eq_false (not_lt.mpr ((hup band hband).trans (le_max_left _ _)))
      have hfloor := hstarts _ hstart last ((bandWhere_last hpast).trans hlast)
      rwa [rangeDue_beyond _ hpast, ← rangeDue_beyond km hr] at hfloor
    · have hat : rangeWhere (CUSTOM_QUOTE_ABOVE_KM ≤ ·) LONG_DISTANCE_FLOOR_KM rules.longDistance = none :=
        rangeWhere_eq_none fun band hband ↦ decide_eq_false (not_le.mpr ((hbelow band hband).trans_le hquote))
      have hceiling := hends _ List.mem_cons_self last ((bandWhere_last hat).trans hlast)
      rwa [rangeDue_beyond _ hat, ← rangeDue_beyond km hr] at hceiling

theorem published_flat (hflat : flatRated rules service = true)
    (hbase : baseFarePaise service vehicleClass km rules = .ok base) : Published rules service vehicleClass km base := by
  unfold baseFarePaise at hbase
  cases hroad : rules.roadside service with
  | some fare =>
    rw [hroad] at hbase
    cases hbase
    exact .inl hroad
  | none =>
    rw [flatRated, hroad] at hflat
    simp only [Option.isSome_none, Bool.false_or] at hflat
    rw [hroad] at hbase
    simp [hflat] at hbase

theorem inside_iff (hrules : rules.Shaped) : Inside rules service vehicleClass ↔
    flatRated rules service = true ∨ KeepsBounds rules := by
  cases hflat : flatRated rules service with
  | true => exact ⟨fun _ ↦ .inl rfl, fun _ km base _ hbase ↦ published_flat hflat hbase⟩
  | false =>
    have hroad : ∀ base, rules.roadside service ≠ some base := by
      intro base hroad
      simp [flatRated, hroad] at hflat
    -- What is published of a distance that the ranges price.
    have hfar {km : ℚ} (hkm : LONG_DISTANCE_FLOOR_KM < km) (hquote : km ≤ CUSTOM_QUOTE_ABOVE_KM)
        (hinside : Inside rules service vehicleClass) : ∃ band, bandWhere (km ≤ ·) rules.longDistance = some band ∧
          band.pricePaise ≤ rangeDue (km ≤ ·) km rules.longDistance ∧
          rangeDue (km ≤ ·) km rules.longDistance ≤ band.ceiling := by
      have h0 : (0 : ℚ) ≤ km := le_trans (by norm_num [LONG_DISTANCE_FLOOR_KM]) hkm.le
      have hpublished := hinside km _ h0 ((baseFarePaise_due hrules hflat).mpr ⟨hquote, rfl⟩)
      rw [dueAt, if_neg (not_le.mpr hkm)] at hpublished
      obtain ⟨band, hband, hbounds⟩ := hpublished.resolve_left (hroad _)
      rw [usedBand, if_neg (not_le.mpr hkm)] at hband
      exact ⟨band, hband, hbounds⟩
    constructor
    · refine fun hinside ↦ .inr ⟨fun km hmem band hband ↦ ?_, fun km hmem band hband ↦ ?_⟩
      · have hstart : LONG_DISTANCE_FLOOR_KM ≤ km ∧ km < CUSTOM_QUOTE_ABOVE_KM := by
          rcases List.mem_cons.mp hmem with rfl | hmem
          · exact ⟨le_refl _, LONG_DISTANCE_FLOOR_lt⟩
          · obtain ⟨-, hlow, hhigh⟩ := mem_rangeBounds.mp hmem
            exact ⟨hlow.le, hhigh⟩
        have hpast : pricePast km rules.longDistance = some (rangeDue (km < ·) km rules.longDistance) :=
          rangeDue_quoted hrules.ranges_ne
        obtain ⟨km', hlt, hle, hsame, hasked⟩ := pricePast_asked hrules.ceilings hstart.2 hpast
        obtain ⟨band', hband', hfloor, -⟩ := hfar (hstart.1.trans_lt hlt) hle hinside
        rw [longDistanceFarePaise_ok, rangeAt, rangeDue_quoted hrules.ranges_ne] at hasked
        rw [Option.some.inj hasked] at hfloor
        have hfind : bandWhere (km' ≤ ·) rules.longDistance = bandWhere (km < ·) rules.longDistance := by
          have hat := rangeWhere_snd (km' ≤ ·) LONG_DISTANCE_FLOOR_KM rules.longDistance
          have hpast' := rangeWhere_snd (km < ·) LONG_DISTANCE_FLOOR_KM rules.longDistance
          rw [← hsame] at hpast'
          rw [bandWhere, bandWhere, ← hat, ← hpast', rangeAt]
        rw [hfind, hband] at hband'
        cases hband'
        exact hfloor
      · have hend : LONG_DISTANCE_FLOOR_KM < km ∧ km ≤ CUSTOM_QUOTE_ABOVE_KM := by
          rcases List.mem_cons.mp hmem with rfl | hmem
          · exact ⟨LONG_DISTANCE_FLOOR_lt, le_refl _⟩
          · obtain ⟨-, hlow, hhigh⟩ := mem_rangeBounds.mp hmem
            exact ⟨hlow, hhigh.le⟩
        obtain ⟨band', hband', -, hceiling⟩ := hfar hend.1 hend.2 hinside
        rw [hband] at hband'
        cases hband'
        exact hceiling
    · rintro (hcontra | hkeeps) km base _ hbase
      · cases hcontra
      · obtain ⟨hquote, rfl⟩ := (baseFarePaise_due hrules hflat).mp hbase
        refine .inr ?_
        by_cases hkm : km ≤ LONG_DISTANCE_FLOOR_KM
        · obtain ⟨slab, hslab⟩ := slabAt_isSome km (hrules.slabs_ne vehicleClass)
          have hdue := slabDue_at km (hrules.slabs_ne vehicleClass)
          rw [hslab] at hdue
          refine ⟨slab, by rw [usedBand, if_pos hkm]; exact hslab, ?_⟩
          have hsingle := (hrules.single vehicleClass slab (slabAt_mem hslab)).1
          rw [dueAt, if_pos hkm, ← Option.some.inj hdue]
          exact ⟨le_refl _, hsingle.ge⟩
        · obtain ⟨band, hband, hbounds⟩ := inside_range hrules hkeeps (not_le.mp hkm) hquote
          rw [usedBand, dueAt, if_neg hkm, if_neg hkm]
          exact ⟨band, hband, hbounds⟩

/-! The rows that admins leave. -/

variable {rows : List RuleRow}

theorem byMaxKm_sorted (bands : List DistanceBandRule) : (byMaxKm bands).Pairwise fun a b ↦ a.maxKm ≤ b.maxKm := by
  have : Std.Total fun a b : DistanceBandRule ↦ a.maxKm ≤ b.maxKm := ⟨fun a b ↦ le_total a.maxKm b.maxKm⟩
  have : IsTrans DistanceBandRule fun a b ↦ a.maxKm ≤ b.maxKm := ⟨fun _ _ _ hab hbc ↦ le_trans hab hbc⟩
  exact List.pairwise_insertionSort _ _

theorem mem_byMaxKm : band ∈ byMaxKm bands ↔ band ∈ bands := List.mem_insertionSort _

/-- A band of the rows comes from one of them. -/
theorem mem_distanceBands {kind : RuleKind} {vehicleClass : VehicleClass}
    (h : (vehicleClass, band) ∈ (rows.filter (·.ruleKind = kind)).filterMap (·.distanceBand)) :
    ∃ row ∈ rows, row.ruleKind = kind ∧ row.maxKm = some band.maxKm ∧ row.pricePaise = band.pricePaise ∧
      row.priceMaxPaise = band.priceMaxPaise := by
  obtain ⟨row, hmem, hband⟩ := List.mem_filterMap.mp h
  obtain ⟨hrow, hkind⟩ := List.mem_filter.mp hmem
  unfold RuleRow.distanceBand at hband
  cases hclass : row.vehicleClass with
  | none => simp [hclass] at hband
  | some c =>
    cases hmax : row.maxKm with
    | none => simp [hclass, hmax] at hband
    | some m =>
      rw [hclass, hmax] at hband
      cases hband
      exact ⟨row, hrow, of_decide_eq_true hkind, hmax, rfl, rfl⟩

/-- A row that its `CHECK`s let in has its floor under its ceiling, and a slab has one price. -/
theorem wellShaped_band {row : RuleRow} (h : row.wellShaped = true) (hmax : row.maxKm = some band.maxKm)
    (hprice : row.pricePaise = band.pricePaise) (hceiling : row.priceMaxPaise = band.priceMaxPaise) :
    0 < band.maxKm ∧ band.pricePaise ≤ band.ceiling ∧ (row.ruleKind = .slab → band.ceiling = band.pricePaise) := by
  simp only [RuleRow.wellShaped, hmax, hprice, hceiling, Bool.and_eq_true, Option.all_some, decide_eq_true_eq] at h
  obtain ⟨⟨⟨-, hrange⟩, hpos⟩, hkind⟩ := h
  refine ⟨hpos, ?_, fun hslab ↦ ?_⟩
  · unfold DistanceBandRule.ceiling
    cases hmax : band.priceMaxPaise with
    | none => exact le_refl _
    | some ceiling => simpa [hmax] using hrange
  · rw [hslab] at hkind
    simp only [Bool.and_eq_true, Option.isNone_iff_eq_none] at hkind
    rw [DistanceBandRule.ceiling, hkind.2]
    rfl

theorem orDefault_forall {P : DistanceBandRule → Prop} {rows fallback : List DistanceBandRule} (h : ∀ band ∈ rows, P band)
    (h' : ∀ band ∈ fallback, P band) : ∀ band ∈ orDefault rows fallback, P band := by
  unfold orDefault
  split_ifs
  · exact h'
  · exact h

theorem orDefault_sorted {rows fallback : List DistanceBandRule} (h : rows.Pairwise fun a b ↦ a.maxKm ≤ b.maxKm)
    (h' : fallback.Pairwise fun a b ↦ a.maxKm ≤ b.maxKm) :
    (orDefault rows fallback).Pairwise fun a b ↦ a.maxKm ≤ b.maxKm := by
  unfold orDefault
  split_ifs
  · exact h'
  · exact h

theorem orDefault_ne {rows fallback : List DistanceBandRule} (h : fallback ≠ []) : orDefault rows fallback ≠ [] := by
  unfold orDefault
  split_ifs with hempty
  · exact h
  · simpa using hempty

theorem default_shaped : DEFAULT_PRICING_RULES.Shaped where
  slabs_ne vehicleClass := by cases vehicleClass <;> decide
  ranges_ne := by decide
  sorted := by decide
  ceilings := by decide
  single vehicleClass := by cases vehicleClass <;> decide

/-- What is made of rows that their `CHECK`s let in. -/
theorem toRuleSet_shaped (hrows : ∀ row ∈ rows, row.wellShaped = true) : (toRuleSet rows).Shaped := by
  have hranges : ∀ band ∈ byMaxKm (((rows.filter (·.ruleKind = .longDistance)).filterMap (·.distanceBand)).map (·.2)),
      band.pricePaise ≤ band.ceiling := by
    intro band hmem
    obtain ⟨⟨c, band⟩, hband, rfl⟩ := List.mem_map.mp (mem_byMaxKm.mp hmem)
    obtain ⟨row, hrow, -, hmax, hprice, hceiling⟩ := mem_distanceBands hband
    exact (wellShaped_band (hrows row hrow) hmax hprice hceiling).2.1
  have hslabs (vehicleClass : VehicleClass) : ∀ slab ∈ byMaxKm ((((rows.filter (·.ruleKind = .slab)).filterMap
      (·.distanceBand)).filter (·.1 = vehicleClass)).map (·.2)), slab.ceiling = slab.pricePaise ∧ 0 < slab.maxKm := by
    intro slab hmem
    obtain ⟨⟨c, slab⟩, hslab, rfl⟩ := List.mem_map.mp (mem_byMaxKm.mp hmem)
    obtain ⟨row, hrow, hkind, hmax, hprice, hceiling⟩ := mem_distanceBands (List.mem_filter.mp hslab).1
    obtain ⟨hpos, -, hsingle⟩ := wellShaped_band (hrows row hrow) hmax hprice hceiling
    exact ⟨hsingle hkind, hpos⟩
  unfold toRuleSet
  split_ifs with hempty
  · exact default_shaped
  · constructor
    · intro vehicleClass
      exact orDefault_ne (default_shaped.slabs_ne vehicleClass)
    · exact orDefault_ne default_shaped.ranges_ne
    · exact orDefault_sorted (byMaxKm_sorted _) default_shaped.sorted
    · exact orDefault_forall hranges default_shaped.ceilings
    · intro vehicleClass
      exact orDefault_forall (hslabs vehicleClass) (default_shaped.single vehicleClass)

/-- Switching a row off leaves the constraints as they are. -/
theorem rulesHold_deactivate (id : ℕ) (h : rulesHold rows = true) :
    rulesHold (rows.map fun row ↦ if row.id = id then { row with isActive := false } else row) = true := by
  simp only [rulesHold, Bool.and_eq_true, List.all_eq_true, decide_eq_true_eq] at h ⊢
  constructor
  · intro row hmem
    obtain ⟨row, hrow, rfl⟩ := List.mem_map.mp hmem
    split_ifs
    · exact h.1 row hrow
    · exact h.1 row hrow
  · rw [List.pairwise_map]
    refine h.2.imp fun {row other} hapart ↦ ?_
    unfold RuleRow.apart at hapart ⊢
    split_ifs <;> simp_all

theorem rulesHold_run (l : Step) {w : World} (h : rulesHold w.rates.rules = true) :
    rulesHold (w.run l).rates.rules = true := by
  cases l with
  | write write =>
    cases write with
    | pricing charges patches =>
      simp only [World.run, Rates.after]
      split_ifs with hcheck
      · exact hcheck.1
      · exact h
    | createRule row =>
      simp only [World.run, Rates.after]
      split_ifs with hcheck
      · exact hcheck
      · exact h
    | deactivateRule id => exact rulesHold_deactivate id h
    | insertCharges => exact h
    | finance patch => exact h
    | commission bands proposal => exact h
  | redisSet key card ttlSeconds reachable =>
    simp only [World.run]
    split_ifs <;> exact h
  | redisDel key reachable =>
    simp only [World.run]
    split_ifs <;> exact h
  | insertProposal band pct =>
    simp only [World.run]
    split_ifs <;> exact h
  | _ => exact h

theorem rulesHold_after (steps : List Step) {w : World} (h : rulesHold w.rates.rules = true) :
    rulesHold (steps.foldl World.run w).rates.rules = true := by
  induction steps generalizing w with
  | nil => exact h
  | cons l steps ih => exact ih (rulesHold_run l h)

/-- The fares that a load makes of the tables. -/
def fareTable (w : World) : PricingRuleSet := (PricingConfigRepo.assemble (PricingConfigRepo.seen w)).rules

theorem fareTable_shaped {w : World} (h : rulesHold w.rates.rules = true) : (fareTable w).Shaped := by
  refine toRuleSet_shaped fun row hmem ↦ ?_
  have hrow := (List.mem_filter.mp ((List.mem_insertionSort _).mp hmem)).1
  simp only [rulesHold, Bool.and_eq_true, List.all_eq_true] at h
  exact h.1 row hrow

/-- After any run of edits: a base fare is computed or refused for what it is, whatever the
distance; it is monotone where no row hands over to a lower price; and it is inside what the
rows publish where the rounding keeps their bounds. -/
theorem baseFare_bands (w : World) (steps : List Step) (h : rulesHold w.rates.rules = true) :
    let rules := fareTable (steps.foldl World.run w)
    (∀ service vehicleClass km, (∃ base, baseFarePaise service vehicleClass km rules = .ok base) ∨
      rules.roadside service = none ∧ isRoadsideService service = true ∧
        baseFarePaise service vehicleClass km rules = .error (.serviceNotPriced service) ∨
      CUSTOM_QUOTE_ABOVE_KM < km ∧ baseFarePaise service vehicleClass km rules = .error (.customQuoteRequired km)) ∧
    ∀ service vehicleClass,
      (Monotonic rules service vehicleClass ↔ flatRated rules service = true ∨ NoDrop rules vehicleClass) ∧
      (Inside rules service vehicleClass ↔ flatRated rules service = true ∨ KeepsBounds rules) := by
  have hshaped := fareTable_shaped (rulesHold_after steps h)
  refine ⟨fun service vehicleClass km ↦ ?_, fun service vehicleClass ↦ ⟨monotonic_iff hshaped, inside_iff hshaped⟩⟩
  rw [baseFarePaise_answers hshaped]
  cases hroad : (fareTable (steps.foldl World.run w)).roadside service with
  | some fare => exact .inl ⟨fare, rfl⟩
  | none =>
    dsimp only
    by_cases hservice : isRoadsideService service = true
    · rw [if_pos hservice]
      exact .inr (.inl ⟨rfl, hservice, rfl⟩)
    · rw [if_neg hservice]
      by_cases hquote : CUSTOM_QUOTE_ABOVE_KM < km
      · rw [if_pos hquote]
        exact .inr (.inr ⟨hquote, rfl⟩)
      · rw [if_neg hquote]
        exact .inl ⟨_, rfl⟩

def bareTables : World := ⟨0, ⟨[], none, []⟩, none, [], fun _ ↦ none⟩

/-- A slab of 5 km that is dearer than that of 10 km, and a range whose floor is no whole
number of rupees. -/
def sampleRows : List RuleRow :=
  [⟨1, .slab, none, some .flatbed, some 5, 300000, none, true⟩,
    ⟨2, .slab, none, some .flatbed, some 10, 299900, none, true⟩,
    ⟨3, .longDistance, none, some .flatbed, some 150, 1600001, some 2000000, true⟩]

def sampleEdits : List Step := sampleRows.map fun row ↦ .write (.createRule row)

theorem baseFare_bands_sample : Monotonic (fareTable (sampleEdits.foldl World.run bareTables)) .tow .wheelLift ↔
    flatRated (fareTable (sampleEdits.foldl World.run bareTables)) .tow = true ∨
      NoDrop (fareTable (sampleEdits.foldl World.run bareTables)) .wheelLift :=
  ((baseFare_bands bareTables sampleEdits (by decide +kernel)).2 .tow .wheelLift).1

/-- The edits are accepted one by one; six kilometres then cost less than five, and just past
100 km a tow costs less than the range's floor. -/
theorem bands_not_respected :
    (sampleRows.foldlM (fun r row ↦ Rates.after r (.createRule row)) bareTables.rates).isSome = true ∧
      ¬Monotonic (fareTable (sampleEdits.foldl World.run bareTables)) .tow .flatbed ∧
      ¬Inside (fareTable (sampleEdits.foldl World.run bareTables)) .tow .flatbed := by
  refine ⟨by decide +kernel, fun hmono ↦ ?_, fun hinside ↦ ?_⟩
  · have hfive : baseFarePaise .tow .flatbed 5 (fareTable (sampleEdits.foldl World.run bareTables)) = .ok 300000 := by
      decide +kernel
    have hsix : baseFarePaise .tow .flatbed 6 (fareTable (sampleEdits.foldl World.run bareTables)) = .ok 299900 := by
      decide +kernel
    exact absurd (hmono 5 6 _ _ (by norm_num) (by norm_num) hfive hsix) (by decide)
  · have hbase : baseFarePaise .tow .flatbed 100.001 (fareTable (sampleEdits.foldl World.run bareTables)) =
        .ok 1600000 := by decide +kernel
    have hroad : (fareTable (sampleEdits.foldl World.run bareTables)).roadside .tow = none := by decide +kernel
    have hused : (usedBand (fareTable (sampleEdits.foldl World.run bareTables)) .flatbed 100.001).map (·.pricePaise) =
        some 1600001 := by decide +kernel
    rcases hinside 100.001 _ (by decide +kernel) hbase with hcontra | ⟨band, hband, hfloor, -⟩
    · rw [hroad] at hcontra
      cases hcontra
    · rw [hband] at hused
      have : band.pricePaise = 1600001 := Option.some.inj hused
      omega

end Towing.Pricing
