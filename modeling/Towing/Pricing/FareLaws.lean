import Towing.Money.Payable
import Towing.Pricing.Fare
import Towing.Pricing.World

namespace Towing.Pricing

open Towing.Money Towing.Trips

/-! Rounding. -/

theorem round_mono {p q : ℚ} (h : p ≤ q) : round p ≤ round q := by
  rw [round_eq, round_eq]
  exact Int.floor_le_floor (by linarith)

theorem wholeRupees_mono {p q : ℚ} (h : p ≤ q) : wholeRupees p ≤ wholeRupees q := by
  unfold wholeRupees
  have := round_mono (div_le_div_of_nonneg_right h (by norm_num : (0 : ℚ) ≤ 100))
  omega

theorem pctOf_mono {m n : ℤ} {pct : ℚ} (hpct : 0 ≤ pct) (h : m ≤ n) : pctOf m pct ≤ pctOf n pct := by
  refine round_mono (div_le_div_of_nonneg_right ?_ (by norm_num))
  exact mul_le_mul_of_nonneg_right (by exact_mod_cast h) hpct

/-- Rounding stays the same for a little while. -/
theorem round_right (q : ℚ) : ∃ gap : ℚ, 0 < gap ∧ ∀ p, q ≤ p → p < q + gap → round p = round q := by
  refine ⟨round q + 1 - (q + 1 / 2), ?_, fun p hle hlt ↦ ?_⟩
  · have := Int.lt_floor_add_one (q + 1 / 2)
    rw [round_eq]
    linarith
  · refine le_antisymm ?_ (round_mono hle)
    have hfloor : p + 1 / 2 < (round q + 1 : ℤ) := by
      push_cast
      linarith
    have := Int.floor_lt.mpr hfloor
    rw [round_eq p]
    omega

/-! The ranges. -/

variable {rules : PricingRuleSet} {charges : ChargeConfigValues} {bands : List DistanceBandRule}
  {band band' : DistanceBandRule} {reaches reaches' : ℚ → Bool} {km km' lowerKm lowerKm' : ℚ}
  {service : ServiceType} {vehicleClass : VehicleClass}

/-- A fare table is ascending in distance and price. -/
structure PricingRuleSet.Ascending (rules : PricingRuleSet) : Prop where
  slabs : ∀ vehicleClass, (rules.slabs vehicleClass).Pairwise fun a b ↦ a.maxKm < b.maxKm ∧ a.pricePaise ≤ b.pricePaise
  slabs_ne : ∀ vehicleClass, rules.slabs vehicleClass ≠ []
  ranges : rules.longDistance.Pairwise fun a b ↦ a.maxKm < b.maxKm ∧ a.ceiling ≤ b.pricePaise
  ranges_ne : rules.longDistance ≠ []
  ceilings : ∀ band ∈ rules.longDistance, band.pricePaise ≤ band.ceiling
  prices : ∀ vehicleClass, ∀ slab ∈ rules.slabs vehicleClass, 0 ≤ slab.pricePaise
  above : ∀ vehicleClass, ∀ slab ∈ rules.slabs vehicleClass, ∀ band ∈ rules.longDistance,
    slab.pricePaise ≤ band.pricePaise

theorem interpolated_mono (hband : band.pricePaise ≤ band.ceiling) (h : km ≤ km') :
    interpolated lowerKm band km ≤ interpolated lowerKm band km' := by
  have hrise : (0 : ℚ) ≤ band.ceiling - band.pricePaise := by
    have : (band.pricePaise : ℚ) ≤ band.ceiling := by exact_mod_cast hband
    linarith
  simp only [interpolated]
  split_ifs with hspan
  · have ht : (km - lowerKm) / (band.maxKm - lowerKm) ≤ (km' - lowerKm) / (band.maxKm - lowerKm) :=
      div_le_div_of_nonneg_right (by linarith) hspan.le
    linarith [mul_le_mul_of_nonneg_right ht hrise]
  · exact le_refl _

/-- Inside a range the price is between its floor and its ceiling. -/
theorem interpolated_bounds (hband : band.pricePaise ≤ band.ceiling) (hlow : lowerKm ≤ km) (hhigh : km ≤ band.maxKm) :
    (band.pricePaise : ℚ) ≤ interpolated lowerKm band km ∧ interpolated lowerKm band km ≤ band.ceiling := by
  have hrise : (0 : ℚ) ≤ band.ceiling - band.pricePaise := by
    have : (band.pricePaise : ℚ) ≤ band.ceiling := by exact_mod_cast hband
    linarith
  simp only [interpolated]
  split_ifs with hspan
  · have h0 : 0 ≤ (km - lowerKm) / (band.maxKm - lowerKm) := div_nonneg (by linarith) hspan.le
    have h1 : (km - lowerKm) / (band.maxKm - lowerKm) ≤ 1 := (div_le_one hspan).mpr (by linarith)
    constructor
    · linarith [mul_nonneg h0 hrise]
    · linarith [mul_le_mul_of_nonneg_right h1 hrise]
  · constructor <;> linarith

/-- A distance that what `reaches` and what does not are told apart by. -/
structure Marks (reaches : ℚ → Bool) (km : ℚ) : Prop where
  up : ∀ m, reaches m = true → km ≤ m
  down : ∀ m, reaches m = false → m ≤ km

theorem marks_at (km : ℚ) : Marks (km ≤ ·) km where
  up m h := by simpa using h
  down m h := le_of_lt (by simpa using h)

theorem marks_past (km : ℚ) : Marks (km < ·) km where
  up m h := le_of_lt (by simpa using h)
  down m h := by simpa using h

theorem rangeWhere_mem (h : rangeWhere reaches lowerKm bands = some (lowerKm', band)) :
    band ∈ bands ∧ reaches band.maxKm = true := by
  induction bands generalizing lowerKm with
  | nil => cases h
  | cons first bands ih =>
    rw [rangeWhere] at h
    split_ifs at h with hreach
    · cases h
      exact ⟨List.mem_cons_self, hreach⟩
    · obtain ⟨hmem, hreach'⟩ := ih h
      exact ⟨List.mem_cons_of_mem _ hmem, hreach'⟩

theorem rangeWhere_lower (hm : Marks reaches km) (hlow : lowerKm ≤ km)
    (h : rangeWhere reaches lowerKm bands = some (lowerKm', band)) : lowerKm' ≤ km := by
  induction bands generalizing lowerKm with
  | nil => cases h
  | cons first bands ih =>
    rw [rangeWhere] at h
    split_ifs at h with hreach
    · cases h
      exact hlow
    · exact ih (hm.down _ (by simpa using hreach)) h

theorem rangeWhere_none (h : rangeWhere reaches lowerKm bands = none) : ∀ band ∈ bands, reaches band.maxKm = false := by
  induction bands generalizing lowerKm with
  | nil => simp
  | cons first bands ih =>
    rw [rangeWhere] at h
    split_ifs at h with hreach
    intro band hmem
    rcases List.mem_cons.mp hmem with rfl | hmem
    · simpa using hreach
    · exact ih h band hmem

/-- Where less is reached, the same range is found or one that comes later. -/
theorem rangeWhere_later (hless : ∀ m, reaches' m = true → reaches m = true)
    (h : rangeWhere reaches' lowerKm bands = some (lowerKm', band')) :
    rangeWhere reaches lowerKm bands = some (lowerKm', band') ∨
      ∃ l band, rangeWhere reaches lowerKm bands = some (l, band) ∧ [band, band'].Sublist bands := by
  induction bands generalizing lowerKm with
  | nil => cases h
  | cons first bands ih =>
    rw [rangeWhere] at h
    split_ifs at h with hreach
    · cases h
      exact .inl (by rw [rangeWhere, if_pos (hless _ hreach)])
    · by_cases hfirst : reaches first.maxKm = true
      · refine .inr ⟨lowerKm, first, by rw [rangeWhere, if_pos hfirst], ?_⟩
        exact List.Sublist.cons_cons first (List.singleton_sublist.mpr (rangeWhere_mem h).1)
      · rw [rangeWhere, if_neg hfirst]
        rcases ih h with hsame | ⟨l, band, hl, hsub⟩
        · exact .inl hsame
        · exact .inr ⟨l, band, hl, hsub.cons first⟩

/-- What reaches less still finds a range that it reaches itself. -/
theorem rangeWhere_same (hless : ∀ m, reaches' m = true → reaches m = true)
    (h : rangeWhere reaches lowerKm bands = some (lowerKm', band)) (hband : reaches' band.maxKm = true) :
    rangeWhere reaches' lowerKm bands = some (lowerKm', band) := by
  induction bands generalizing lowerKm with
  | nil => cases h
  | cons first bands ih =>
    rw [rangeWhere] at h
    split_ifs at h with hreach
    · cases h
      rw [rangeWhere, if_pos hband]
    · rw [rangeWhere, if_neg fun h' ↦ hreach (hless _ h')]
      exact ih h

theorem rangeWhere_eq_none (h : ∀ band ∈ bands, reaches band.maxKm = false) : rangeWhere reaches lowerKm bands = none := by
  induction bands generalizing lowerKm with
  | nil => rfl
  | cons first bands ih =>
    rw [rangeWhere, h first List.mem_cons_self]
    exact ih fun band hmem ↦ h band (List.mem_cons_of_mem _ hmem)

/-- The price never falls with the distance, within a range, from one to another and past the last. -/
theorem quotedPaise_mono (hranges : bands.Pairwise fun a b ↦ a.maxKm < b.maxKm ∧ a.ceiling ≤ b.pricePaise)
    (hceilings : ∀ band ∈ bands, band.pricePaise ≤ band.ceiling) (hm : Marks reaches km) (hm' : Marks reaches' km')
    (hless : ∀ m, reaches' m = true → reaches m = true) (hlow : lowerKm ≤ km) (hkm : km ≤ km') {p p' : ℚ}
    (hp : quotedPaise km bands (rangeWhere reaches lowerKm bands) = some p)
    (hp' : quotedPaise km' bands (rangeWhere reaches' lowerKm bands) = some p') : p ≤ p' := by
  have hbound {l : ℚ} {band : DistanceBandRule} {reaches : ℚ → Bool} {km : ℚ} (hm : Marks reaches km)
      (hlow : lowerKm ≤ km) (h : rangeWhere reaches lowerKm bands = some (l, band)) :
      (band.pricePaise : ℚ) ≤ interpolated l band km ∧ interpolated l band km ≤ band.ceiling := by
    obtain ⟨hmem, hreach⟩ := rangeWhere_mem h
    exact interpolated_bounds (hceilings band hmem) (rangeWhere_lower hm hlow h) (hm.up _ hreach)
  cases hr' : rangeWhere reaches' lowerKm bands with
  | some found' =>
    obtain ⟨l', band'⟩ := found'
    rw [hr'] at hp'
    cases hp'
    rcases rangeWhere_later hless hr' with hr | ⟨l, band, hr, hsub⟩
    · rw [hr] at hp
      cases hp
      exact interpolated_mono (hceilings band' (rangeWhere_mem hr).1) hkm
    · rw [hr] at hp
      cases hp
      have hstep : (band.ceiling : ℚ) ≤ band'.pricePaise := by
        exact_mod_cast (List.pairwise_iff_forall_sublist.mp hranges hsub).2
      linarith [(hbound hm hlow hr).2, (hbound hm' (hlow.trans hkm) hr').1]
  | none =>
    rw [hr'] at hp'
    obtain ⟨last, hlast, rfl⟩ := Option.map_eq_some_iff.mp hp'
    cases hr : rangeWhere reaches lowerKm bands with
    | none =>
      rw [hr] at hp
      obtain ⟨last', hlast', rfl⟩ := Option.map_eq_some_iff.mp hp
      cases hlast.symm.trans hlast'
      exact le_refl _
    | some found =>
      obtain ⟨l, band⟩ := found
      rw [hr] at hp
      cases hp
      refine (hbound hm hlow hr).2.trans ?_
      have hmem := (rangeWhere_mem hr).1
      obtain ⟨front, rfl⟩ := List.getLast?_eq_some_iff.mp hlast
      rcases List.mem_append.mp hmem with hfront | hback
      · have hstep := (List.pairwise_append.mp hranges).2.2 band hfront last List.mem_cons_self
        exact_mod_cast hstep.2.trans (hceilings last (List.mem_append_right _ List.mem_cons_self))
      · cases List.mem_singleton.mp hback
        exact le_refl _

/-! The base fare. -/

/-- The price just past a distance, in whole rupees. -/
def pricePast (km : ℚ) (bands : List DistanceBandRule) : Option ℤ :=
  (quotedPaise km bands (rangeWhere (km < ·) LONG_DISTANCE_FLOOR_KM bands)).map wholeRupees

/-- The price just past the distance where the ranges begin. -/
def pricePastFloor (bands : List DistanceBandRule) : Option ℤ := pricePast LONG_DISTANCE_FLOOR_KM bands

theorem LONG_DISTANCE_FLOOR_lt : LONG_DISTANCE_FLOOR_KM < CUSTOM_QUOTE_ABOVE_KM := by
  norm_num [LONG_DISTANCE_FLOOR_KM, CUSTOM_QUOTE_ABOVE_KM]

theorem quotedPaise_some (km : ℚ) (hne : bands ≠ []) (found : Option (ℚ × DistanceBandRule)) :
    ∃ p, quotedPaise km bands found = some p := by
  cases found with
  | some found => exact ⟨_, rfl⟩
  | none =>
    rw [quotedPaise, List.getLast?_eq_getLast_of_ne_nil hne]
    exact ⟨_, rfl⟩

theorem slabAt_mem {slabs : List DistanceBandRule} {slab : DistanceBandRule} (h : slabAt km slabs = some slab) :
    slab ∈ slabs := by
  cases hfind : slabs.find? fun slab ↦ decide (km ≤ slab.maxKm) with
  | some found =>
    rw [slabAt, hfind] at h
    cases h
    exact List.mem_of_find?_eq_some hfind
  | none =>
    rw [slabAt, hfind] at h
    exact List.mem_of_getLast? h

theorem slabAt_isSome (km : ℚ) {slabs : List DistanceBandRule} (hne : slabs ≠ []) : ∃ slab, slabAt km slabs = some slab := by
  rw [slabAt, List.getLast?_eq_getLast_of_ne_nil hne]
  cases slabs.find? fun slab ↦ decide (km ≤ slab.maxKm) <;> exact ⟨_, rfl⟩

theorem slabAt_cons {first : DistanceBandRule} {slabs : List DistanceBandRule} : slabAt km (first :: slabs) =
    if km ≤ first.maxKm ∨ slabs = [] then some first else slabAt km slabs := by
  by_cases hkm : km ≤ first.maxKm
  · simp [slabAt, hkm]
  · cases slabs with
    | nil => simp [slabAt, hkm]
    | cons second slabs => simp [slabAt, hkm, List.getLast?_cons_cons]

theorem slabAt_mono {slabs : List DistanceBandRule} {slab slab' : DistanceBandRule}
    (hslabs : slabs.Pairwise fun a b ↦ a.maxKm < b.maxKm ∧ a.pricePaise ≤ b.pricePaise) (h : km ≤ km')
    (hs : slabAt km slabs = some slab) (hs' : slabAt km' slabs = some slab') : slab.pricePaise ≤ slab'.pricePaise := by
  induction slabs with
  | nil => cases hs
  | cons first slabs ih =>
    obtain ⟨hfirst, hrest⟩ := List.pairwise_cons.mp hslabs
    by_cases hstop : km ≤ first.maxKm ∨ slabs = []
    · rw [slabAt_cons, if_pos hstop] at hs
      cases hs
      rcases List.mem_cons.mp (slabAt_mem hs') with rfl | hmem
      · exact le_refl _
      · exact (hfirst slab' hmem).2
    · have hstop' : ¬(km' ≤ first.maxKm ∨ slabs = []) := fun h' ↦ hstop (h'.imp_left h.trans)
      rw [slabAt_cons, if_neg hstop] at hs
      rw [slabAt_cons, if_neg hstop'] at hs'
      exact ih hrest hs hs'

theorem longDistanceFarePaise_ok {base : ℤ} : longDistanceFarePaise km bands = .ok base ↔
    (quotedPaise km bands (rangeAt km bands)).map wholeRupees = some base := by
  unfold longDistanceFarePaise
  cases quotedPaise km bands (rangeAt km bands) <;> simp

/-- The price just past the floor is the least there. -/
theorem pricePastFloor_le (hrules : rules.Ascending) {past base : ℤ} (hkm : LONG_DISTANCE_FLOOR_KM < km)
    (hpast : pricePastFloor rules.longDistance = some past)
    (hbase : longDistanceFarePaise km rules.longDistance = .ok base) : past ≤ base := by
  obtain ⟨p, hp, rfl⟩ := Option.map_eq_some_iff.mp hpast
  obtain ⟨q, hq, rfl⟩ := Option.map_eq_some_iff.mp (longDistanceFarePaise_ok.mp hbase)
  refine wholeRupees_mono (quotedPaise_mono hrules.ranges hrules.ceilings (marks_past _) (marks_at _) (fun m h ↦ ?_)
    (le_refl _) hkm.le hp hq)
  simp only [decide_eq_true_eq] at h ⊢
  linarith

theorem longDistanceFarePaise_mono (hrules : rules.Ascending) {base base' : ℤ} (hkm : LONG_DISTANCE_FLOOR_KM < km)
    (h : km ≤ km') (hbase : longDistanceFarePaise km rules.longDistance = .ok base)
    (hbase' : longDistanceFarePaise km' rules.longDistance = .ok base') : base ≤ base' := by
  obtain ⟨p, hp, rfl⟩ := Option.map_eq_some_iff.mp (longDistanceFarePaise_ok.mp hbase)
  obtain ⟨q, hq, rfl⟩ := Option.map_eq_some_iff.mp (longDistanceFarePaise_ok.mp hbase')
  refine wholeRupees_mono (quotedPaise_mono hrules.ranges hrules.ceilings (marks_at _) (marks_at _) (fun m hm ↦ ?_)
    hkm.le h hp hq)
  simp only [decide_eq_true_eq] at hm ⊢
  linarith

theorem interpolated_line (lowerKm km : ℚ) (hband : band.pricePaise ≤ band.ceiling) : ∃ slope : ℚ, 0 ≤ slope ∧
    ∀ far, interpolated lowerKm band (km + far) = interpolated lowerKm band km + far * slope := by
  have hrise : (0 : ℚ) ≤ band.ceiling - band.pricePaise := by
    have : (band.pricePaise : ℚ) ≤ band.ceiling := by exact_mod_cast hband
    linarith
  by_cases hspan : 0 < band.maxKm - lowerKm
  · refine ⟨(band.ceiling - band.pricePaise) / (band.maxKm - lowerKm), div_nonneg hrise hspan.le, fun far ↦ ?_⟩
    simp only [interpolated, if_pos hspan]
    ring
  · exact ⟨0, le_refl 0, fun far ↦ by simp [interpolated, hspan]⟩

theorem wholeRupees_right (p : ℚ) : ∃ gap : ℚ, 0 < gap ∧ ∀ q, p ≤ q → q < p + gap → wholeRupees q = wholeRupees p := by
  obtain ⟨gap, hpos, hgap⟩ := round_right (p / 100)
  refine ⟨100 * gap, by linarith, fun q hle hlt ↦ ?_⟩
  rw [wholeRupees, wholeRupees, hgap (q / 100) (by linarith) (by linarith)]

/-- It is a price that is really asked, at the distances that come close enough. -/
theorem pricePast_asked (hceilings : ∀ band ∈ bands, band.pricePaise ≤ band.ceiling) (hkm : km < CUSTOM_QUOTE_ABOVE_KM)
    {past : ℤ} (hpast : pricePast km bands = some past) :
    ∃ km', km < km' ∧ km' ≤ CUSTOM_QUOTE_ABOVE_KM ∧
      rangeAt km' bands = rangeWhere (km < ·) LONG_DISTANCE_FLOOR_KM bands ∧ longDistanceFarePaise km' bands = .ok past := by
  obtain ⟨p, hp, rfl⟩ := Option.map_eq_some_iff.mp hpast
  cases hr : rangeWhere (km < ·) LONG_DISTANCE_FLOOR_KM bands with
  | none =>
    rw [hr] at hp
    refine ⟨CUSTOM_QUOTE_ABOVE_KM, hkm, le_refl _, ?_⟩
    have hnone : rangeAt CUSTOM_QUOTE_ABOVE_KM bands = none := by
      refine rangeWhere_eq_none fun band hmem ↦ ?_
      have hbelow : band.maxKm ≤ km := not_lt.mp (of_decide_eq_false (rangeWhere_none hr band hmem))
      exact decide_eq_false (not_le.mpr (hbelow.trans_lt hkm))
    refine ⟨hnone, ?_⟩
    rw [longDistanceFarePaise_ok, hnone]
    exact congrArg (Option.map wholeRupees) hp
  | some found =>
    obtain ⟨lowerKm, band⟩ := found
    rw [hr] at hp
    cases hp
    obtain ⟨hmem, hreach⟩ := rangeWhere_mem hr
    have hpast : km < band.maxKm := of_decide_eq_true hreach
    obtain ⟨slope, hslope, hline⟩ := interpolated_line lowerKm km (hceilings band hmem)
    obtain ⟨gap, hgap, hsame⟩ := wholeRupees_right (interpolated lowerKm band km)
    -- So little further that the rupee stays the same.
    obtain ⟨far, hfar, hmax, hquote, hrise⟩ : ∃ far : ℚ, 0 < far ∧ far ≤ band.maxKm - km ∧
        far ≤ CUSTOM_QUOTE_ABOVE_KM - km ∧ far * slope < gap := by
      have hstep : 0 < gap / (slope + 1) := div_pos hgap (by linarith)
      refine ⟨min (gap / (slope + 1)) (min (band.maxKm - km) (CUSTOM_QUOTE_ABOVE_KM - km)),
        lt_min hstep (lt_min (by linarith) (by linarith)), (min_le_right _ _).trans (min_le_left _ _),
        (min_le_right _ _).trans (min_le_right _ _), ?_⟩
      refine lt_of_le_of_lt (mul_le_mul_of_nonneg_right (min_le_left _ _) hslope) ?_
      rw [div_mul_eq_mul_div, div_lt_iff₀ (by linarith)]
      linarith [mul_add gap slope 1]
    refine ⟨km + far, by linarith, by linarith, ?_⟩
    have hfound : rangeAt (km + far) bands = some (lowerKm, band) := by
      refine rangeWhere_same (fun m hm ↦ ?_) hr (decide_eq_true (by linarith))
      have : km + far ≤ m := of_decide_eq_true hm
      exact decide_eq_true (by linarith)
    refine ⟨hfound, ?_⟩
    rw [longDistanceFarePaise_ok, hfound, quotedPaise, Option.map_some, hline]
    exact congrArg some (hsame _ (by linarith [mul_nonneg hfar.le hslope]) (by linarith))

/-- Nothing but the rate for the service counts, or there is none. -/
def flatRated (rules : PricingRuleSet) (service : ServiceType) : Bool :=
  (rules.roadside service).isSome || isRoadsideService service

theorem baseFarePaise_flat (hflat : flatRated rules service = true) (c c' : VehicleClass) (km km' : ℚ) :
    baseFarePaise service c km rules = baseFarePaise service c' km' rules := by
  unfold baseFarePaise
  cases hroad : rules.roadside service with
  | some fare => rfl
  | none =>
    rw [flatRated, hroad] at hflat
    simp only [Option.isSome_none, Bool.false_or] at hflat
    simp [hflat]

theorem baseFarePaise_slab (hflat : flatRated rules service = false) (hkm : km ≤ LONG_DISTANCE_FLOOR_KM) {base : ℤ} :
    baseFarePaise service vehicleClass km rules = .ok base ↔
      (slabAt km (rules.slabs vehicleClass)).map (·.pricePaise) = some base := by
  simp only [flatRated, Bool.or_eq_false_iff, Option.isSome_eq_false_iff, Option.isNone_iff_eq_none] at hflat
  unfold baseFarePaise
  rw [hflat.1, hflat.2, if_neg (not_lt.mpr hkm)]
  cases slabAt km (rules.slabs vehicleClass) <;> simp

theorem baseFarePaise_far (hflat : flatRated rules service = false) (hkm : LONG_DISTANCE_FLOOR_KM < km) {base : ℤ} :
    baseFarePaise service vehicleClass km rules = .ok base ↔
      km ≤ CUSTOM_QUOTE_ABOVE_KM ∧ longDistanceFarePaise km rules.longDistance = .ok base := by
  simp only [flatRated, Bool.or_eq_false_iff, Option.isSome_eq_false_iff, Option.isNone_iff_eq_none] at hflat
  unfold baseFarePaise
  rw [hflat.1, hflat.2, if_pos hkm]
  by_cases hquote : CUSTOM_QUOTE_ABOVE_KM < km
  · simp [hquote]
  · simp [hquote, not_lt.mp hquote]

/-- The last slab that is charged is not dearer than the ranges begin, in whole rupees. -/
def Seamless (rules : PricingRuleSet) (service : ServiceType) (vehicleClass : VehicleClass) : Prop :=
  flatRated rules service = true ∨ ∃ slab past, slabAt LONG_DISTANCE_FLOOR_KM (rules.slabs vehicleClass) = some slab ∧
    pricePastFloor rules.longDistance = some past ∧ slab.pricePaise ≤ past

theorem pricePastFloor_isSome (hrules : rules.Ascending) : ∃ past, pricePastFloor rules.longDistance = some past := by
  obtain ⟨p, hp⟩ := quotedPaise_some LONG_DISTANCE_FLOOR_KM hrules.ranges_ne
    (rangeWhere (LONG_DISTANCE_FLOOR_KM < ·) LONG_DISTANCE_FLOOR_KM rules.longDistance)
  exact ⟨wholeRupees p, by rw [pricePastFloor, pricePast, hp]; rfl⟩

theorem baseFarePaise_mono (hrules : rules.Ascending) (hseam : Seamless rules service vehicleClass) (h : km ≤ km')
    {base base' : ℤ} (hbase : baseFarePaise service vehicleClass km rules = .ok base)
    (hbase' : baseFarePaise service vehicleClass km' rules = .ok base') : base ≤ base' := by
  cases hflat : flatRated rules service with
  | true =>
    rw [baseFarePaise_flat hflat vehicleClass vehicleClass km km', hbase'] at hbase
    cases hbase
    exact le_refl _
  | false =>
    by_cases hkm : km ≤ LONG_DISTANCE_FLOOR_KM
    · obtain ⟨slab, hslab, rfl⟩ := Option.map_eq_some_iff.mp ((baseFarePaise_slab hflat hkm).mp hbase)
      by_cases hkm' : km' ≤ LONG_DISTANCE_FLOOR_KM
      · obtain ⟨slab', hslab', rfl⟩ := Option.map_eq_some_iff.mp ((baseFarePaise_slab hflat hkm').mp hbase')
        exact slabAt_mono (hrules.slabs vehicleClass) h hslab hslab'
      · obtain ⟨last, past, hlast, hpast, hle⟩ := hseam.resolve_left (by simp [hflat])
        have hfar := ((baseFarePaise_far hflat (not_le.mp hkm')).mp hbase').2
        calc slab.pricePaise ≤ last.pricePaise := slabAt_mono (hrules.slabs vehicleClass) hkm hslab hlast
          _ ≤ past := hle
          _ ≤ base' := pricePastFloor_le hrules (not_le.mp hkm') hpast hfar
    · have hfar := ((baseFarePaise_far hflat (not_le.mp hkm)).mp hbase).2
      have hfar' := ((baseFarePaise_far hflat ((not_le.mp hkm).trans_le h)).mp hbase').2
      exact longDistanceFarePaise_mono hrules (not_le.mp hkm) h hfar hfar'

/-! The whole fare. -/

variable {input input' : FareInput} {fare fare' : FareResult}

/-- The components and the discount come to the total. -/
def FareResult.addsUp (fare : FareResult) : Prop :=
  fare.totalPaise = fare.basePaise + fare.nightPaise + fare.highwayPaise + fare.accidentPaise + fare.waitingPaise +
    fare.surgePaise - fare.discountPaise

theorem fareOn_addsUp (base : ℤ) : (fareOn charges input base).addsUp ∧ 0 ≤ (fareOn charges input base).totalPaise := by
  refine ⟨rfl, ?_⟩
  simp only [fareOn]
  omega

theorem computeFare_ok : computeFare rules charges input = .ok fare ↔
    ∃ base, baseFarePaise input.service input.vehicleClass input.distanceKm rules = .ok base ∧
      fareOn charges input base = fare := by
  unfold computeFare
  cases baseFarePaise input.service input.vehicleClass input.distanceKm rules <;> simp [Except.map]

/-- The same request, on another distance and after another wait. -/
structure SameRequest (input input' : FareInput) : Prop where
  service : input'.service = input.service
  vehicleClass : input'.vehicleClass = input.vehicleClass
  hourOfDay : input'.hourOfDay = input.hourOfDay
  isHighwayPickup : input'.isHighwayPickup = input.isHighwayPickup
  surgeBand : input'.surgeBand = input.surgeBand
  discountPaise : input'.discountPaise = input.discountPaise

/-- What a fare comes to before the discount. -/
def FareResult.grossPaise (fare : FareResult) : ℤ :=
  fare.basePaise + fare.nightPaise + fare.highwayPaise + fare.accidentPaise + fare.waitingPaise + fare.surgePaise

theorem fareOn_total (base : ℤ) : (fareOn charges input base).totalPaise =
    (fareOn charges input base).grossPaise - min input.discountPaise (fareOn charges input base).grossPaise := rfl

theorem waitingChargePaise_mono {waited waited' : ℕ} (free : ℕ) {perMinute : ℤ} (hper : 0 ≤ perMinute)
    (h : waited ≤ waited') :
    waitingChargePaise waited free perMinute ≤ waitingChargePaise waited' free perMinute :=
  mul_le_mul_of_nonneg_right (by omega) hper

/-- A dearer base fare by so much is a dearer fare by as much at least. -/
theorem grossPaise_mono (hcharges : charges.inRange = true) (hsame : SameRequest input input')
    (hwait : input.waitingMinutes ≤ input'.waitingMinutes) {base base' : ℤ} (h : base ≤ base') :
    (fareOn charges input base).grossPaise + (base' - base) ≤ (fareOn charges input' base').grossPaise := by
  simp only [ChargeConfigValues.inRange, Bool.and_eq_true, decide_eq_true_eq] at hcharges
  have hnight : (if isNightHour input.hourOfDay charges.nightStartHour charges.nightEndHour then
        pctOf base charges.nightPct else 0) ≤
      if isNightHour input.hourOfDay charges.nightStartHour charges.nightEndHour then
        pctOf base' charges.nightPct else 0 := by
    split_ifs
    · exact pctOf_mono (by tauto) h
    · exact le_refl _
  have hper : 0 ≤ charges.waitingPerMinutePaise := by tauto
  have hwaiting := waitingChargePaise_mono charges.waitingFreeMinutes hper hwait
  have hsurge {m n : ℤ} (hmn : m ≤ n) : (if 0 < surgePctFor input.surgeBand charges then
        pctOf m (surgePctFor input.surgeBand charges) else 0) ≤
      if 0 < surgePctFor input.surgeBand charges then pctOf n (surgePctFor input.surgeBand charges) else 0 := by
    split_ifs with hpos
    · exact pctOf_mono hpos.le hmn
    · exact le_refl _
  simp only [FareResult.grossPaise, fareOn, hsame.hourOfDay, hsame.isHighwayPickup, hsame.service, hsame.surgeBand]
  generalize hn : (if isNightHour input.hourOfDay charges.nightStartHour charges.nightEndHour = true then
    pctOf base charges.nightPct else 0) = night at hnight ⊢
  generalize hn' : (if isNightHour input.hourOfDay charges.nightStartHour charges.nightEndHour = true then
    pctOf base' charges.nightPct else 0) = night' at hnight ⊢
  generalize (if input.isHighwayPickup = true then charges.highwayChargePaise else 0) = highway
  generalize (if input.service = .accidentRecovery then charges.accidentChargePaise else 0) = accident
  generalize waitingChargePaise input.waitingMinutes _ _ = waiting at hwaiting ⊢
  generalize waitingChargePaise input'.waitingMinutes _ _ = waiting' at hwaiting ⊢
  have hsum := @hsurge (base + night + highway + accident + waiting) (base' + night' + highway + accident + waiting')
    (by omega)
  omega

theorem grossPaise_nonneg (input : FareInput) (hcharges : charges.inRange = true) {base : ℤ} (h : 0 ≤ base) :
    0 ≤ (fareOn charges input base).grossPaise := by
  simp only [ChargeConfigValues.inRange, Bool.and_eq_true, decide_eq_true_eq] at hcharges
  have hpct {n : ℤ} {pct : ℚ} (hn : 0 ≤ n) (hp : 0 ≤ pct) : 0 ≤ pctOf n pct := by
    have hzero : pctOf 0 pct = 0 := by simp [pctOf]
    exact hzero ▸ pctOf_mono hp hn
  have hnight : 0 ≤ (fareOn charges input base).nightPaise := by
    simp only [fareOn]
    split_ifs
    · exact hpct h (by tauto)
    · exact le_refl 0
  have hhighway : 0 ≤ (fareOn charges input base).highwayPaise := by
    simp only [fareOn]
    split_ifs <;> tauto
  have haccident : 0 ≤ (fareOn charges input base).accidentPaise := by
    simp only [fareOn]
    split_ifs <;> tauto
  have hwaiting : 0 ≤ (fareOn charges input base).waitingPaise := mul_nonneg (by omega) (by tauto)
  have hbase : (fareOn charges input base).basePaise = base := rfl
  have hsurge : 0 ≤ (fareOn charges input base).surgePaise := by
    have hsum : 0 ≤ base + (fareOn charges input base).nightPaise + (fareOn charges input base).highwayPaise +
        (fareOn charges input base).accidentPaise + (fareOn charges input base).waitingPaise := by omega
    by_cases hpos : 0 < surgePctFor input.surgeBand charges
    · rw [show (fareOn charges input base).surgePaise = _ from if_pos hpos]
      exact hpct hsum hpos.le
    · rw [show (fareOn charges input base).surgePaise = _ from if_neg hpos]
  unfold FareResult.grossPaise
  omega

/-- With all else equal a longer distance or wait never makes a tow cheaper. -/
def NeverCheaper (rules : PricingRuleSet) (charges : ChargeConfigValues) (service : ServiceType)
    (vehicleClass : VehicleClass) : Prop :=
  ∀ (input input' : FareInput) (fare fare' : FareResult), input.service = service → input.vehicleClass = vehicleClass →
    SameRequest input input' → 0 ≤ input.discountPaise → input.distanceKm ≤ input'.distanceKm →
    input.waitingMinutes ≤ input'.waitingMinutes → computeFare rules charges input = .ok fare →
    computeFare rules charges input' = .ok fare' → fare.totalPaise ≤ fare'.totalPaise

theorem neverCheaper_of_seamless (hrules : rules.Ascending) (hcharges : charges.inRange = true)
    (hseam : Seamless rules service vehicleClass) : NeverCheaper rules charges service vehicleClass := by
  intro input input' fare fare' hservice hclass hsame _ hkm hwait hfare hfare'
  obtain ⟨base, hbase, rfl⟩ := computeFare_ok.mp hfare
  obtain ⟨base', hbase', rfl⟩ := computeFare_ok.mp hfare'
  rw [hsame.service, hsame.vehicleClass, hservice, hclass] at hbase'
  rw [hservice, hclass] at hbase
  have hmono := baseFarePaise_mono hrules hseam hkm hbase hbase'
  have hgross := grossPaise_mono hcharges hsame hwait hmono
  rw [fareOn_total, fareOn_total, hsame.discountPaise]
  omega

theorem pricePastFloor_nonneg (hrules : rules.Ascending) {past : ℤ} (hpast : pricePastFloor rules.longDistance = some past) :
    0 ≤ past := by
  have hband : ∀ band ∈ rules.longDistance, (0 : ℚ) ≤ band.pricePaise := by
    intro band hmem
    obtain ⟨slab, slabs, hslabs⟩ := List.exists_cons_of_ne_nil (hrules.slabs_ne .flatbed)
    have hslab : slab ∈ rules.slabs .flatbed := hslabs ▸ List.mem_cons_self
    exact_mod_cast (hrules.prices .flatbed slab hslab).trans (hrules.above .flatbed slab hslab band hmem)
  obtain ⟨p, hp, rfl⟩ := Option.map_eq_some_iff.mp hpast
  have hzero : wholeRupees 0 = 0 := by simp [wholeRupees]
  refine hzero ▸ wholeRupees_mono ?_
  cases hr : rangeWhere (LONG_DISTANCE_FLOOR_KM < ·) LONG_DISTANCE_FLOOR_KM rules.longDistance with
  | none =>
    rw [hr] at hp
    obtain ⟨last, hlast, rfl⟩ := Option.map_eq_some_iff.mp hp
    have hmem := List.mem_of_getLast? hlast
    exact (hband last hmem).trans (by exact_mod_cast hrules.ceilings last hmem)
  | some found =>
    obtain ⟨lowerKm, band⟩ := found
    rw [hr] at hp
    cases hp
    obtain ⟨hmem, hreach⟩ := rangeWhere_mem hr
    have hlower := rangeWhere_lower (marks_past _) (le_refl _) hr
    exact (hband band hmem).trans
      (interpolated_bounds (hrules.ceilings band hmem) hlower ((marks_past _).up _ hreach)).1

/-- Where the last slab is dearer than what the ranges begin with, a tow of 100 km costs
more than one that is a little longer. -/
theorem seamless_of_neverCheaper (hrules : rules.Ascending) (hcharges : charges.inRange = true)
    (h : NeverCheaper rules charges service vehicleClass) : Seamless rules service vehicleClass := by
  cases hflat : flatRated rules service with
  | true => exact .inl hflat
  | false =>
    obtain ⟨slab, hslab⟩ := slabAt_isSome LONG_DISTANCE_FLOOR_KM (hrules.slabs_ne vehicleClass)
    obtain ⟨past, hpast⟩ := pricePastFloor_isSome hrules
    obtain ⟨km, hkm, hquote, -, hasked⟩ := pricePast_asked hrules.ceilings LONG_DISTANCE_FLOOR_lt hpast
    refine .inr ⟨slab, past, hslab, hpast, le_of_not_gt fun hlt ↦ ?_⟩
    let input : FareInput := ⟨service, vehicleClass, LONG_DISTANCE_FLOOR_KM, 0, false, .standard, 0, 0⟩
    let input' : FareInput := { input with distanceKm := km }
    have hsame : SameRequest input' input := ⟨rfl, rfl, rfl, rfl, rfl, rfl⟩
    have hbase : baseFarePaise service vehicleClass LONG_DISTANCE_FLOOR_KM rules = .ok slab.pricePaise :=
      (baseFarePaise_slab hflat (le_refl _)).mpr (by rw [hslab]; rfl)
    have hbase' : baseFarePaise service vehicleClass km rules = .ok past :=
      (baseFarePaise_far hflat hkm).mpr ⟨hquote, hasked⟩
    have hle := h input input' _ _ rfl rfl ⟨rfl, rfl, rfl, rfl, rfl, rfl⟩ (le_refl 0) hkm.le (le_refl 0)
      (computeFare_ok.mpr ⟨_, hbase, rfl⟩) (computeFare_ok.mpr ⟨_, hbase', rfl⟩)
    have hgross := grossPaise_mono hcharges hsame (le_refl 0) hlt.le
    have hpos := grossPaise_nonneg input' hcharges (pricePastFloor_nonneg hrules hpast)
    rw [fareOn_total, fareOn_total] at hle
    dsimp only [input, input'] at hle hgross hpos
    omega

/-! What a booking keeps of it. -/

variable {context : PricingContext} {locked : LockedFare}

theorem resolveBand_far : resolveBand service km = .C ↔ 100 < km := by
  unfold resolveBand
  split_ifs <;> simp_all

theorem twoDecimals_le {n : ℤ} (h : km ≤ n) : twoDecimals km ≤ n := by
  have hround := round_mono (p := km * 100) (q := ((n * 100 : ℤ) : ℚ)) (by push_cast; linarith)
  rw [round_intCast] at hround
  have hcast : (round (km * 100) : ℚ) ≤ n * 100 := by exact_mod_cast hround
  rw [twoDecimals, div_le_iff₀ (by norm_num)]
  exact hcast

theorem lock_ok : context.lock = .ok locked ↔
    ∃ fare, computeFare context.rateCard.rules context.rateCard.charges context.fareInput = .ok fare ∧ locked =
      { vehicleClass := if 100 < context.distanceKm then .flatbed else context.vehicleClass
        distanceKm := twoDecimals context.distanceKm
        fare
        commissionPct := context.rateCard.commissionPct fare.band
        commissionPaise := PricingContext.exactCommission fare.totalPaise (context.rateCard.commissionPct fare.band)
        driverPayoutPaise := fare.totalPaise -
          PricingContext.exactCommission fare.totalPaise (context.rateCard.commissionPct fare.band) } := by
  unfold PricingContext.lock PricingContext.price
  cases computeFare context.rateCard.rules context.rateCard.charges context.fareInput <;> simp [Except.map, eq_comm]

/-- Commission and payout come to the total, and neither is less than nothing. -/
def LockedFare.splitsOut (locked : LockedFare) : Prop :=
  locked.commissionPaise + locked.driverPayoutPaise = locked.fare.totalPaise ∧ 0 ≤ locked.commissionPaise ∧
    0 ≤ locked.driverPayoutPaise

theorem lock_splitsOut (hpct : ∀ band, isPct (context.rateCard.commissionPct band)) (h : context.lock = .ok locked) :
    locked.splitsOut := by
  obtain ⟨fare, hfare, rfl⟩ := lock_ok.mp h
  have htotal : 0 ≤ fare.totalPaise := by
    obtain ⟨base, -, rfl⟩ := computeFare_ok.mp hfare
    exact (fareOn_addsUp base).2
  obtain ⟨hlow, hhigh⟩ : 0 ≤ PricingContext.exactCommission fare.totalPaise (context.rateCard.commissionPct fare.band) ∧
      PricingContext.exactCommission fare.totalPaise (context.rateCard.commissionPct fare.band) ≤ fare.totalPaise :=
    ⟨Arith.roundDiv_nonneg (by omega) (mul_nonneg htotal (hpct fare.band).1),
      Arith.roundDiv_le (by omega) (mul_le_mul_of_nonneg_left (hpct fare.band).2 htotal)⟩
  exact ⟨by dsimp only; omega, hlow, by dsimp only; omega⟩

/-- The fare is computed again from the distance and the class that the booking stores. -/
def Rederived (context : PricingContext) (locked : LockedFare) : Prop :=
  computeFare context.rateCard.rules context.rateCard.charges
    { context.fareInput with vehicleClass := locked.vehicleClass, distanceKm := locked.distanceKm } = .ok locked.fare

/-- The measured distance and the one that is stored are on the same side of the bands'
bounds, and in slabs of one price or, further out, at prices that round to the same rupee. -/
def Steady (context : PricingContext) : Prop :=
  let km := context.distanceKm
  let storedKm := twoDecimals context.distanceKm
  let rules := context.rateCard.rules
  resolveBand context.serviceType km = resolveBand context.serviceType storedKm ∧
    (flatRated rules context.serviceType = true ∨
      if km ≤ LONG_DISTANCE_FLOOR_KM then
        (slabAt km (rules.slabs context.vehicleClass)).map (·.pricePaise) =
          (slabAt storedKm (rules.slabs context.vehicleClass)).map (·.pricePaise)
      else
        (quotedPaise km rules.longDistance (rangeAt km rules.longDistance)).map wholeRupees =
          (quotedPaise storedKm rules.longDistance (rangeAt storedKm rules.longDistance)).map wholeRupees)

theorem computeFare_again {base : ℤ} : computeFare rules charges { input with vehicleClass := vehicleClass, distanceKm := km } =
    .ok (fareOn charges input base) ↔ resolveBand input.service input.distanceKm = resolveBand input.service km ∧
      baseFarePaise input.service vehicleClass km rules = .ok base := by
  rw [computeFare_ok]
  constructor
  · rintro ⟨base', hbase', heq⟩
    have hbase : base' = base := congrArg (·.basePaise) heq
    have hband : resolveBand input.service km = resolveBand input.service input.distanceKm := congrArg (·.band) heq
    exact ⟨hband.symm, hbase ▸ hbase'⟩
  · rintro ⟨hband, hbase⟩
    exact ⟨base, hbase, by simp only [fareOn, hband]⟩

theorem rederived_iff (h : context.lock = .ok locked) : Rederived context locked ↔ Steady context := by
  obtain ⟨fare, hfare, rfl⟩ := lock_ok.mp h
  obtain ⟨base, hbase, rfl⟩ := computeFare_ok.mp hfare
  rw [Rederived, computeFare_again, Steady]
  refine and_congr_right fun hband ↦ ?_
  change baseFarePaise context.serviceType context.vehicleClass context.distanceKm context.rateCard.rules = .ok base at hbase
  change baseFarePaise context.serviceType (if 100 < context.distanceKm then .flatbed else context.vehicleClass)
    (twoDecimals context.distanceKm) context.rateCard.rules = .ok base ↔ _
  cases hflat : flatRated context.rateCard.rules context.serviceType with
  | true =>
    rw [baseFarePaise_flat hflat _ context.vehicleClass _ context.distanceKm]
    simp [hbase]
  | false =>
    by_cases hkm : context.distanceKm ≤ LONG_DISTANCE_FLOOR_KM
    · have hstored : twoDecimals context.distanceKm ≤ LONG_DISTANCE_FLOOR_KM := twoDecimals_le hkm
      have hnear : ¬100 < context.distanceKm := not_lt.mpr hkm
      rw [if_neg hnear, if_pos hkm, baseFarePaise_slab hflat hstored, (baseFarePaise_slab hflat hkm).mp hbase]
      simp [eq_comm]
    · have hfar : LONG_DISTANCE_FLOOR_KM < context.distanceKm := not_le.mp hkm
      have hstored : LONG_DISTANCE_FLOOR_KM < twoDecimals context.distanceKm :=
        resolveBand_far.mp (hband.symm.trans (resolveBand_far.mpr hfar))
      obtain ⟨hquote, hprice⟩ := (baseFarePaise_far hflat hfar).mp hbase
      have hquote' : twoDecimals context.distanceKm ≤ CUSTOM_QUOTE_ABOVE_KM := twoDecimals_le hquote
      rw [if_neg hkm, baseFarePaise_far hflat hstored, longDistanceFarePaise_ok, longDistanceFarePaise_ok.mp hprice]
      simp [hquote', eq_comm]

/-- A fare adds up and splits; it never gets cheaper with the distance or the wait where the
last slab is not dearer than the ranges begin; and it is computed again from what the booking
stores where rounding the distance crosses no bound and no rupee. -/
theorem computeFare_lawful {card : RateCard} (hrules : card.rules.Ascending) (hcharges : card.charges.inRange = true)
    (hpct : ∀ band, isPct (card.commissionPct band)) :
    (∀ input fare, computeFare card.rules card.charges input = .ok fare → fare.addsUp ∧ 0 ≤ fare.totalPaise) ∧
    (∀ service vehicleClass, NeverCheaper card.rules card.charges service vehicleClass ↔
      Seamless card.rules service vehicleClass) ∧
    ∀ context locked, context.rateCard = card → context.lock = .ok locked →
      locked.splitsOut ∧ (Rederived context locked ↔ Steady context) := by
  refine ⟨fun input fare h ↦ ?_, fun service vehicleClass ↦ ?_, fun context locked hcard h ↦ ?_⟩
  · obtain ⟨base, -, rfl⟩ := computeFare_ok.mp h
    exact fareOn_addsUp base
  · exact ⟨seamless_of_neverCheaper hrules hcharges, neverCheaper_of_seamless hrules hcharges⟩
  · exact ⟨lock_splitsOut (hcard ▸ hpct) h, rederived_iff h⟩

/-- The rate card of an empty database. -/
def launchCard : RateCard := ⟨toRuleSet [], toChargeValues none, toCommissionPct []⟩

theorem launchCard_ascending : launchCard.rules.Ascending where
  slabs vehicleClass := by cases vehicleClass <;> decide
  slabs_ne vehicleClass := by cases vehicleClass <;> decide
  ranges := by decide
  ranges_ne := by decide
  ceilings := by decide
  prices vehicleClass := by cases vehicleClass <;> decide
  above vehicleClass := by cases vehicleClass <;> decide

/-- A flatbed tow by day, so far. -/
def flatbedTow (distanceKm : ℚ) : PricingContext :=
  ⟨"flatbed-tow", .tow, .flatbed, distanceKm, false, .standard, 12, launchCard⟩

theorem computeFare_lawful_sample : ∃ locked, (flatbedTow 25).lock = .ok locked ∧ locked.splitsOut ∧
    (Rederived (flatbedTow 25) locked ↔ Steady (flatbedTow 25)) := by
  obtain ⟨locked, h⟩ : ∃ locked, (flatbedTow 25).lock = .ok locked := ⟨_, rfl⟩
  exact ⟨locked, h, (computeFare_lawful launchCard_ascending (by decide +kernel)
    (by intro band; cases band <;> exact ⟨by decide +kernel, by decide +kernel⟩)).2.2 (flatbedTow 25) locked rfl h⟩

/-- Four metres past 100 km the ranges' price is locked in band C; what is stored are 100 km,
at a slab's price in band B. -/
theorem hundredKm_not_rederived : ∃ locked, (flatbedTow 100.004).lock = .ok locked ∧
    locked.fare.totalPaise = 1600000 ∧ locked.fare.band = .C ∧ locked.distanceKm = 100 ∧
    ¬Rederived (flatbedTow 100.004) locked := by
  have hfare : computeFare launchCard.rules launchCard.charges (flatbedTow 100.004).fareInput =
      .ok ⟨1600000, 0, 0, 0, 0, 0, 0, 1600000, .C⟩ := by decide +kernel
  have hlock := lock_ok.mpr ⟨_, hfare, rfl⟩
  refine ⟨_, hlock, rfl, rfl, by decide +kernel, fun hagain ↦ ?_⟩
  exact absurd ((rederived_iff hlock).mp hagain).1 (by decide +kernel)

end Towing.Pricing
