import Towing.Dispatch.CandidateSelection
import Towing.Arith.Standing
import Mathlib.Data.Rat.Defs
import Mathlib.Algebra.Order.Field.Rat
import Mathlib.Data.List.Sort

namespace Towing.Dispatch

open Towing.Arith Towing.Trips

variable {s : Selection} {limit : ℕ} {weights : ScoreWeights} {row row' : DriverRow} {d d' : ℚ}
  {candidate : DriverCandidate} {candidates : List DriverCandidate} {survivors : List Survivor}

/-! The score. -/

theorem clamp01_bounds (value : ℚ) : 0 ≤ clamp01 value ∧ clamp01 value ≤ 1 :=
  ⟨le_min (by norm_num) (le_max_left _ _), min_le_left _ _⟩

theorem clamp01_mono {a b : ℚ} (h : a ≤ b) : clamp01 a ≤ clamp01 b := min_le_min_left _ (max_le_max_left _ h)

/-- A signal that may be missing. -/
def signal (value : Option ℚ) (full : ℚ) : ℚ := value.elim NEUTRAL fun value ↦ clamp01 (value / full)

theorem signal_bounds (value : Option ℚ) (full : ℚ) : 0 ≤ signal value full ∧ signal value full ≤ 1 := by
  cases value with
  | none => exact ⟨by norm_num [signal, NEUTRAL], by norm_num [signal, NEUTRAL]⟩
  | some value => exact clamp01_bounds _

/-- The one is the other, or there is a signal in both and it is no lower. -/
def NoLower (value value' : Option ℚ) : Prop := value = value' ∨ ∃ a b, value = some a ∧ value' = some b ∧ a ≤ b

theorem signal_mono {value value' : Option ℚ} {full : ℚ} (hfull : 0 ≤ full) (h : NoLower value value') :
    signal value full ≤ signal value' full := by
  rcases h with rfl | ⟨a, b, rfl, rfl, hab⟩
  · exact le_refl _
  · exact clamp01_mono (div_le_div_of_nonneg_right hab hfull)

/-- The weights of `dispatch_config`. -/
structure ScoreTerms.Admissible (weights : ScoreWeights) : Prop where
  proximity : 0 ≤ weights.proximity
  rating : 0 ≤ weights.rating
  acceptance : 0 ≤ weights.acceptance
  completion : 0 ≤ weights.completion
  sum : weights.proximity + weights.rating + weights.acceptance + weights.completion = 100

theorem scoreTerms_eq (row : DriverRow) (d : ℚ) : scoreTerms row d =
    ⟨max 0 (1 - d / PROXIMITY_CEILING_METERS), signal row.rating 5, signal row.acceptanceRate 100,
      signal row.completionRate 100⟩ := rfl

theorem computeScore_bounds (hweights : weights.Admissible) (hd : 0 ≤ d) :
    0 ≤ (computeScore row d weights).1 ∧ (computeScore row d weights).1 ≤ 100 := by
  have hproximity : 0 ≤ (scoreTerms row d).proximity ∧ (scoreTerms row d).proximity ≤ 1 := by
    refine ⟨le_max_left _ _, max_le (by norm_num) ?_⟩
    have : 0 ≤ d / PROXIMITY_CEILING_METERS := div_nonneg hd (by norm_num [PROXIMITY_CEILING_METERS])
    linarith
  obtain ⟨hr0, hr1⟩ := signal_bounds row.rating 5
  obtain ⟨ha0, ha1⟩ := signal_bounds row.acceptanceRate 100
  obtain ⟨hc0, hc1⟩ := signal_bounds row.completionRate 100
  have hsum := hweights.sum
  rw [scoreTerms_eq] at hproximity
  simp only [computeScore, total, scoreTerms_eq]
  constructor
  · have := mul_nonneg hproximity.1 hweights.proximity
    have := mul_nonneg hr0 hweights.rating
    have := mul_nonneg ha0 hweights.acceptance
    have := mul_nonneg hc0 hweights.completion
    linarith
  · have := mul_le_of_le_one_left hweights.proximity hproximity.2
    have := mul_le_of_le_one_left hweights.rating hr1
    have := mul_le_of_le_one_left hweights.acceptance ha1
    have := mul_le_of_le_one_left hweights.completion hc1
    linarith

/-- The score never falls for a driver who is closer, better rated or more reliable. -/
theorem computeScore_mono (hweights : weights.Admissible) (hd : d' ≤ d) (hrating : NoLower row.rating row'.rating)
    (hacceptance : NoLower row.acceptanceRate row'.acceptanceRate)
    (hcompletion : NoLower row.completionRate row'.completionRate) :
    (computeScore row d weights).1 ≤ (computeScore row' d' weights).1 := by
  have hproximity : max 0 (1 - d / PROXIMITY_CEILING_METERS) ≤ max 0 (1 - d' / PROXIMITY_CEILING_METERS) := by
    have : d' / PROXIMITY_CEILING_METERS ≤ d / PROXIMITY_CEILING_METERS :=
      div_le_div_of_nonneg_right hd (by norm_num [PROXIMITY_CEILING_METERS])
    exact max_le_max_left _ (by linarith)
  simp only [computeScore, total, scoreTerms_eq]
  have := mul_le_mul_of_nonneg_right hproximity hweights.proximity
  have := mul_le_mul_of_nonneg_right (signal_mono (by norm_num : (0 : ℚ) ≤ 5) hrating) hweights.rating
  have := mul_le_mul_of_nonneg_right (signal_mono (by norm_num : (0 : ℚ) ≤ 100) hacceptance) hweights.acceptance
  have := mul_le_mul_of_nonneg_right (signal_mono (by norm_num : (0 : ℚ) ≤ 100) hcompletion) hweights.completion
  linarith

/-! Who is left out, and why. -/

namespace Selection

/-- The first filter that a driver in range fails, before the offer locks. -/
def refusal (s : Selection) (driverId : ℕ) : Option ExclusionReason :=
  if s.alreadyOffered driverId then some .alreadyOffered
  else (s.eligibility driverId).bind fun row ↦ (exclusion s.booking row.toDriverEligibilityRow).map .filter

/-- The filter that keeps a driver in range from an offer, if any does. -/
def outcome (s : Selection) (driverId : ℕ) : Option ExclusionReason :=
  s.refusal driverId <|> if (s.eligibility driverId).isSome && s.locked driverId then some .holdsOffer else none

/-- The eligibility facts are those of the driver they are looked up for. -/
def Keyed (s : Selection) : Prop := ∀ driverId row, s.eligibility driverId = some row → row.driverId = driverId

/-- Every driver in range has a row. -/
def Known (s : Selection) : Prop := ∀ candidate ∈ s.inRange, (s.eligibility candidate.driverId).isSome

/-- What the first pass makes of a driver in range. -/
def survivor (s : Selection) (candidate : DriverCandidate) : Option Survivor :=
  if s.refusal candidate.driverId = none then
    (s.eligibility candidate.driverId).map fun row ↦ ⟨row, candidate.distanceMeters⟩
  else none

def refused (s : Selection) (candidate : DriverCandidate) : Option (ExclusionReason × ℕ) :=
  (s.refusal candidate.driverId).map (·, candidate.driverId)

theorem sift_eq (hkeyed : s.Keyed) (sifted : Sifted) (candidate : DriverCandidate) : s.sift sifted candidate =
    ⟨noteAll EXCLUDED_ID_CAP sifted.excluded (s.refused candidate).toList,
      sifted.survivors ++ (s.survivor candidate).toList⟩ := by
  unfold sift refused survivor refusal
  cases hoffered : s.alreadyOffered candidate.driverId with
  | true => simp [noteAll]
  | false =>
    cases hrow : s.eligibility candidate.driverId with
    | none => simp [noteAll]
    | some row =>
      cases hreason : exclusion s.booking row.toDriverEligibilityRow with
      | none => simp [hreason, noteAll]
      | some reason => simp [hreason, noteAll, hkeyed _ _ hrow]

theorem sift_all (hkeyed : s.Keyed) (sifted : Sifted) (candidates : List DriverCandidate) :
    candidates.foldl s.sift sifted = ⟨noteAll EXCLUDED_ID_CAP sifted.excluded (candidates.filterMap s.refused),
      sifted.survivors ++ candidates.filterMap s.survivor⟩ := by
  induction candidates generalizing sifted with
  | nil => simp [noteAll]
  | cons candidate candidates ih =>
    rw [List.foldl_cons, ih, sift_eq hkeyed]
    dsimp only
    rw [noteAll_append, List.append_assoc, List.filterMap_cons, List.filterMap_cons]
    cases s.refused candidate <;> cases s.survivor candidate <;> rfl

theorem free_all (sifted : Sifted) (survivors : List Survivor) : survivors.foldl s.free sifted =
    ⟨noteAll EXCLUDED_ID_CAP sifted.excluded ((survivors.filter fun x ↦ s.locked x.row.driverId).map fun x ↦
        (.holdsOffer, x.row.driverId)),
      sifted.survivors ++ survivors.filter fun x ↦ !s.locked x.row.driverId⟩ := by
  induction survivors generalizing sifted with
  | nil => simp [noteAll]
  | cons x survivors ih =>
    rw [List.foldl_cons, ih, free]
    cases hlocked : s.locked x.row.driverId with
    | true => simp [hlocked, noteAll]
    | false => simp [hlocked, noteAll]

theorem refusal_ne (driverId : ℕ) : s.refusal driverId ≠ some .holdsOffer := by
  unfold refusal
  split_ifs
  · simp
  · intro h
    obtain ⟨row, -, hrow⟩ := Option.bind_eq_some_iff.mp h
    obtain ⟨reason, -, hreason⟩ := Option.map_eq_some_iff.mp hrow
    cases hreason

theorem outcome_refusal {driverId : ℕ} {reason : ExclusionReason} (hne : reason ≠ .holdsOffer) :
    s.outcome driverId = some reason ↔ s.refusal driverId = some reason := by
  unfold outcome
  cases s.refusal driverId with
  | some why => rfl
  | none =>
    cases (s.eligibility driverId).isSome && s.locked driverId with
    | true => simpa using hne.symm
    | false => simp

theorem outcome_holds {driverId : ℕ} : s.outcome driverId = some .holdsOffer ↔
    s.refusal driverId = none ∧ (s.eligibility driverId).isSome = true ∧ s.locked driverId = true := by
  unfold outcome
  cases hrefusal : s.refusal driverId with
  | some why =>
    have hne := refusal_ne (s := s) driverId
    rw [hrefusal] at hne
    simpa using fun h ↦ hne (congrArg some h)
  | none => cases (s.eligibility driverId).isSome <;> cases s.locked driverId <;> simp

theorem outcome_none {driverId : ℕ} (hknown : (s.eligibility driverId).isSome = true) :
    s.outcome driverId = none ↔ s.refusal driverId = none ∧ s.locked driverId = false := by
  unfold outcome
  rw [hknown]
  cases s.refusal driverId with
  | some why => simp
  | none => cases s.locked driverId <;> simp

/-- The drivers of the first pass that are counted under a filter. -/
theorem refused_own {reason : ExclusionReason} (hne : reason ≠ .holdsOffer) (candidates : List DriverCandidate) :
    ((candidates.filterMap s.refused).filter (·.1 = reason)).map (·.2) =
      (candidates.filter fun c ↦ s.outcome c.driverId = some reason).map (·.driverId) := by
  induction candidates with
  | nil => rfl
  | cons c candidates ih =>
    rw [List.filterMap_cons, List.filter_cons]
    have hiff : s.outcome c.driverId = some reason ↔ s.refusal c.driverId = some reason := outcome_refusal hne
    cases hrefusal : s.refusal c.driverId with
    | none =>
      rw [hrefusal] at hiff
      simp only [refused, hrefusal, Option.map_none]
      rw [if_neg (by simp [hiff]), ← ih]
    | some why =>
      rw [hrefusal] at hiff
      simp only [refused, hrefusal, Option.map_some, List.filter_cons]
      by_cases hwhy : why = reason
      · rw [if_pos (by simpa using hwhy), if_pos (by simpa [hiff] using hwhy), List.map_cons, List.map_cons, ← ih]
      · rw [if_neg (by simpa using hwhy), if_neg (by simpa [hiff] using hwhy), ← ih]

theorem refused_holds (candidates : List DriverCandidate) :
    (candidates.filterMap s.refused).filter (·.1 = .holdsOffer) = [] := by
  rw [List.filter_eq_nil_iff]
  intro x hx heq
  obtain ⟨c, -, hc⟩ := List.mem_filterMap.mp hx
  obtain ⟨why, hwhy, rfl⟩ := Option.map_eq_some_iff.mp hc
  exact refusal_ne c.driverId (by rw [hwhy]; simpa using heq)

/-- The drivers that the second pass leaves out, told by the outcomes. -/
theorem survivors_locked (hkeyed : s.Keyed) (candidates : List DriverCandidate) :
    ((candidates.filterMap s.survivor).filter fun x ↦ s.locked x.row.driverId).map (·.row.driverId) =
      (candidates.filter fun c ↦ s.outcome c.driverId = some .holdsOffer).map (·.driverId) := by
  induction candidates with
  | nil => rfl
  | cons c candidates ih =>
    rw [List.filterMap_cons, List.filter_cons, survivor]
    have hiff := @outcome_holds s c.driverId
    by_cases hrefusal : s.refusal c.driverId = none
    · cases hrow : s.eligibility c.driverId with
      | none => simpa [hrefusal, hiff, hrow] using ih
      | some row =>
        have hid := hkeyed _ _ hrow
        cases hlocked : s.locked c.driverId <;> simp [hrefusal, hiff, hrow, hid, hlocked, ih]
    · simpa [hrefusal, hiff] using ih

/-- The driver passes the filters: not asked yet, free of offers, and fit for the job. -/
def passes (s : Selection) (driverId : ℕ) : Bool :=
  !s.alreadyOffered driverId && !s.locked driverId && (s.eligibility driverId).any fun row ↦
    row.kycApproved && row.isOnline && !row.fleetSuspended && !row.suspensionPending && !row.hasActiveJob &&
      suits s.booking row.toDriverEligibilityRow

/-- Everyone in range who passes, with the score. -/
def passing (s : Selection) : List ScoredCandidate :=
  s.inRange.filterMap fun c ↦ if s.passes c.driverId then
    (s.eligibility c.driverId).map fun row ↦ s.scored ⟨row, c.distanceMeters⟩ else none

/-- The drivers in range that a filter is the first to keep out, as they were found. -/
def keptOut (s : Selection) (reason : ExclusionReason) : List ℕ :=
  (s.inRange.filter fun c ↦ s.outcome c.driverId = some reason).map (·.driverId)

theorem passes_iff {driverId : ℕ} (hknown : (s.eligibility driverId).isSome = true) :
    s.passes driverId = true ↔ s.outcome driverId = none := by
  obtain ⟨row, hrow⟩ := Option.isSome_iff_exists.mp hknown
  have hfit := @exclusion_none_iff s.booking row.toDriverEligibilityRow
  rw [outcome_none hknown, refusal, passes, hrow]
  cases s.alreadyOffered driverId with
  | true => simp
  | false =>
    simp only [Option.bind_some, Bool.false_eq_true, if_false, Option.map_eq_none_iff, hfit, Option.any_some]
    simp only [Bool.and_eq_true, Bool.not_eq_true', and_assoc, true_and]
    tauto

/-- Both passes together. -/
theorem available_eq (hkeyed : s.Keyed) : (s.inRange.foldl s.sift ⟨[], []⟩).survivors.foldl s.free
      ⟨(s.inRange.foldl s.sift ⟨[], []⟩).excluded, []⟩ =
    ⟨noteAll EXCLUDED_ID_CAP [] (s.inRange.filterMap s.refused ++
        (((s.inRange.filterMap s.survivor).filter fun x ↦ s.locked x.row.driverId).map fun x ↦
          (.holdsOffer, x.row.driverId))),
      (s.inRange.filterMap s.survivor).filter fun x ↦ !s.locked x.row.driverId⟩ := by
  rw [sift_all hkeyed, free_all]
  dsimp only
  rw [noteAll_append, List.nil_append, List.nil_append]

theorem keyed (s : Selection) : s.Keyed := by
  intro driverId row h
  rw [eligibility] at h
  have hfound := List.find?_some h
  exact of_decide_eq_true hfound

theorem passing_eq (s : Selection) :
    ((s.inRange.filterMap s.survivor).filter fun x ↦ !s.locked x.row.driverId).map s.scored = s.passing := by
  rw [List.filter_filterMap, List.map_filterMap, passing]
  apply List.filterMap_congr
  intro c hc
  cases hrow : s.eligibility c.driverId with
  | none => simp [survivor, passes, hrow]
  | some row =>
    have hid := s.keyed _ _ hrow
    have hknown : (s.eligibility c.driverId).isSome = true := by rw [hrow]; rfl
    have hpasses := passes_iff hknown
    rw [outcome_none hknown] at hpasses
    by_cases hrefusal : s.refusal c.driverId = none
    · rw [survivor, if_pos hrefusal, hrow]
      cases hlocked : s.locked c.driverId with
      | true =>
        rw [if_neg (by rw [hpasses, hlocked]; simp)]
        simp [hid, hlocked]
      | false =>
        rw [if_pos (hpasses.mpr ⟨hrefusal, hlocked⟩)]
        simp [hid, hlocked]
    · rw [survivor, if_neg hrefusal, if_neg fun h ↦ hrefusal (hpasses.mp h).1]
      rfl

/-- What is counted under a filter, over both passes. -/
theorem noted_own (s : Selection) (reason : ExclusionReason) :
    ((s.inRange.filterMap s.refused ++ (((s.inRange.filterMap s.survivor).filter fun x ↦ s.locked x.row.driverId).map
      fun x ↦ (ExclusionReason.holdsOffer, x.row.driverId))).filter (·.1 = reason)).map (·.2) = s.keptOut reason := by
  rw [List.filter_append, List.map_append]
  by_cases hreason : reason = .holdsOffer
  · subst hreason
    have hall : ∀ x ∈ ((s.inRange.filterMap s.survivor).filter fun x ↦ s.locked x.row.driverId).map
        fun x ↦ (ExclusionReason.holdsOffer, x.row.driverId), decide (x.1 = .holdsOffer) = true := by
      intro x hx
      obtain ⟨_, _, rfl⟩ := List.mem_map.mp hx
      rfl
    rw [refused_holds, List.map_nil, List.nil_append, List.filter_eq_self.mpr hall, List.map_map]
    exact survivors_locked s.keyed s.inRange
  · have hnone : ∀ x ∈ ((s.inRange.filterMap s.survivor).filter fun x ↦ s.locked x.row.driverId).map
        fun x ↦ (ExclusionReason.holdsOffer, x.row.driverId), ¬decide (x.1 = reason) = true := by
      intro x hx
      obtain ⟨_, _, rfl⟩ := List.mem_map.mp hx
      simpa using fun h ↦ hreason h.symm
    rw [refused_own hreason, List.filter_eq_nil_iff.mpr hnone, List.map_nil, List.append_nil, keptOut]

/-- Who is offered the job. -/
structure Ranked (s : Selection) (limit : ℕ) (result : SelectionResult) : Prop where
  best : ∃ rest, (result.candidates ++ rest).Perm s.passing ∧
    ∀ a ∈ result.candidates, ∀ b ∈ rest, b.score ≤ a.score
  ordered : result.candidates.Pairwise fun a b ↦ b.score ≤ a.score
  full : result.candidates.length = min limit s.passing.length

/-- Who is not, and the numbers of both. -/
structure Accounted (s : Selection) (result : SelectionResult) : Prop where
  considered : result.considered = s.inRange.length
  eligible : result.eligible = s.inRange.countP fun c ↦ s.passes c.driverId
  total : result.considered = result.eligible + (result.excluded.map (·.count)).sum
  once : (result.excluded.map (·.kind)).Nodup
  counted : ∀ entry ∈ result.excluded, entry.count = (s.keptOut entry.kind).length ∧
    entry.sample = (s.keptOut entry.kind).take EXCLUDED_ID_CAP
  complete : ∀ c ∈ s.inRange, s.passes c.driverId = false →
    ∃ entry ∈ result.excluded, s.outcome c.driverId = some entry.kind

theorem select_eq (s : Selection) (limit : ℕ) : s.select limit =
    { candidates := (byScore s.passing).take limit
      ranked := (byScore s.passing).take WAVE_LOG_CANDIDATE_CAP
      eligible := (byScore s.passing).length
      weights := s.weights
      degraded := s.degraded
      excluded := noteAll EXCLUDED_ID_CAP [] (s.inRange.filterMap s.refused ++
        (((s.inRange.filterMap s.survivor).filter fun x ↦ s.locked x.row.driverId).map fun x ↦
          (.holdsOffer, x.row.driverId)))
      considered := s.inRange.length } := by
  rw [select]
  split_ifs with hempty
  · have hnil := List.isEmpty_iff.mp hempty
    simp [passing, hnil, byScore, noteAll]
  · dsimp only
    rw [available_eq s.keyed, passing_eq]

theorem byScore_perm (candidates : List ScoredCandidate) : (byScore candidates).Perm candidates :=
  List.mergeSort_perm _ _

theorem byScore_eq (candidates : List ScoredCandidate) : byScore candidates = byBest (·.score) candidates := rfl

theorem length_passing : s.passing.length = s.inRange.countP fun c ↦ s.passes c.driverId := by
  rw [passing, List.length_filterMap_eq_countP]
  apply List.countP_congr
  intro c hc
  cases hrow : s.eligibility c.driverId with
  | none => simp [passes, hrow]
  | some row => cases s.passes c.driverId <;> simp

theorem ranked (s : Selection) (limit : ℕ) : s.Ranked limit (s.select limit) := by
  rw [select_eq]
  have hordered := @byBest_pairwise _ _ _ ScoredCandidate.score s.passing
  rw [← byScore_eq] at hordered
  have hsplit := List.take_append_drop limit (byScore s.passing)
  rw [← hsplit, List.pairwise_append] at hordered
  refine ⟨⟨(byScore s.passing).drop limit, ?_, hordered.2.2⟩, hordered.1, ?_⟩
  · rw [hsplit]
    exact byScore_perm _
  · rw [List.length_take, (byScore_perm _).length_eq]

/-- The first pass refuses a driver or keeps them. -/
theorem length_passes (candidates : List DriverCandidate) (hknown : ∀ c ∈ candidates, (s.eligibility c.driverId).isSome) :
    (candidates.filterMap s.refused).length + (candidates.filterMap s.survivor).length = candidates.length := by
  induction candidates with
  | nil => rfl
  | cons c candidates ih =>
    have hrest := ih fun c' hc' ↦ hknown c' (List.mem_cons_of_mem _ hc')
    obtain ⟨row, hrow⟩ := Option.isSome_iff_exists.mp (hknown c List.mem_cons_self)
    rw [List.filterMap_cons, List.filterMap_cons, refused, survivor, hrow, List.length_cons]
    cases hrefusal : s.refusal c.driverId with
    | none =>
      simp only [Option.map_none, Option.map_some, if_true, List.length_cons]
      omega
    | some why =>
      simp only [Option.map_some, reduceCtorEq, if_false, List.length_cons]
      omega

theorem noted_length (hknown : s.Known) : (s.inRange.filterMap s.refused).length +
    ((s.inRange.filterMap s.survivor).filter fun x ↦ s.locked x.row.driverId).length + s.passing.length =
      s.inRange.length := by
  have hpasses := length_passes s.inRange hknown
  have hlocks := (s.inRange.filterMap s.survivor).length_eq_length_filter_add fun x ↦ s.locked x.row.driverId
  have hpassing := congrArg List.length s.passing_eq
  rw [List.length_map] at hpassing
  omega

/-- Each filter that keeps a driver out has one entry, with those it keeps out. -/
structure Tallied (s : Selection) (excluded : Excluded) : Prop where
  once : (excluded.map (·.kind)).Nodup
  counted : ∀ entry ∈ excluded, entry.count = (s.keptOut entry.kind).length ∧
    entry.sample = (s.keptOut entry.kind).take EXCLUDED_ID_CAP
  complete : ∀ reason driverId, driverId ∈ s.keptOut reason → ∃ entry ∈ excluded, entry.kind = reason

theorem tallied (s : Selection) (limit : ℕ) : s.Tallied (s.select limit).excluded := by
  rw [select_eq]
  have htally : TallyOf EXCLUDED_ID_CAP _ (noteAll EXCLUDED_ID_CAP [] (s.inRange.filterMap s.refused ++
    (((s.inRange.filterMap s.survivor).filter fun x ↦ s.locked x.row.driverId).map fun x ↦
      (ExclusionReason.holdsOffer, x.row.driverId)))) := tallyOf_nil.noteAll _
  rw [List.nil_append] at htally
  constructor
  · exact htally.nodup
  · intro entry hentry
    obtain ⟨hcount, hsample⟩ := htally.counted entry hentry
    rw [← s.noted_own entry.kind, List.length_map]
    exact ⟨hcount, hsample⟩
  · intro reason driverId hmem
    rw [← noted_own] at hmem
    obtain ⟨x, hx, -⟩ := List.mem_map.mp hmem
    obtain ⟨hin, hkind⟩ := List.mem_filter.mp hx
    obtain ⟨entry, hentry, hsame⟩ := List.mem_map.mp ((htally.kinds reason).mpr ⟨x, hin, of_decide_eq_true hkind⟩)
    exact ⟨entry, hentry, hsame⟩

theorem mem_keptOut {c : DriverCandidate} (hc : c ∈ s.inRange) {reason : ExclusionReason}
    (h : s.outcome c.driverId = some reason) : c.driverId ∈ s.keptOut reason :=
  List.mem_map_of_mem (List.mem_filter.mpr ⟨hc, by simpa using h⟩)

theorem accounted (hknown : s.Known) (limit : ℕ) : s.Accounted (s.select limit) := by
  have htallied := s.tallied limit
  have heq := s.select_eq limit
  have hlength := (byScore_perm s.passing).length_eq
  constructor
  · rw [heq]
  · rw [heq]
    exact hlength.trans length_passing
  · rw [heq]
    dsimp only
    rw [sum_noteAll, hlength, List.length_append, List.length_map]
    have := noted_length hknown
    simp only [List.map_nil, List.sum_nil]
    omega
  · exact htallied.once
  · exact htallied.counted
  · intro c hc hpasses
    obtain ⟨reason, hreason⟩ := Option.ne_none_iff_exists'.mp fun hnone ↦
      absurd ((passes_iff (hknown c hc)).mpr hnone) (by simp [hpasses])
    obtain ⟨entry, hentry, hsame⟩ := htallied.complete reason c.driverId (mem_keptOut hc hreason)
    exact ⟨entry, hentry, hsame ▸ hreason⟩

end Selection

theorem passing_score {x : ScoredCandidate} (hx : x ∈ s.passing) :
    ∃ c ∈ s.inRange, ∃ row, x.score = (computeScore row c.distanceMeters s.weights).1 := by
  obtain ⟨c, hc, hscored⟩ := List.mem_filterMap.mp hx
  split_ifs at hscored
  obtain ⟨row, -, rfl⟩ := Option.map_eq_some_iff.mp hscored
  exact ⟨c, hc, row, rfl⟩

/-- The best of the drivers who pass are chosen, everyone in range is accounted for, and the
scores are in bounds and in order. -/
theorem select_lawful (s : Selection) (limit : ℕ) (hknown : s.Known) (hweights : s.weights.Admissible)
    (hdistance : ∀ c ∈ s.inRange, 0 ≤ c.distanceMeters) :
    s.Ranked limit (s.select limit) ∧ s.Accounted (s.select limit) ∧
      (∀ x ∈ s.passing, 0 ≤ x.score ∧ x.score ≤ 100) ∧
      ∀ (row row' : DriverRow) (d d' : ℚ), d' ≤ d → NoLower row.rating row'.rating →
        NoLower row.acceptanceRate row'.acceptanceRate → NoLower row.completionRate row'.completionRate →
        (computeScore row d s.weights).1 ≤ (computeScore row' d' s.weights).1 := by
  refine ⟨s.ranked limit, Selection.accounted hknown limit, ?_, ?_⟩
  · intro x hx
    obtain ⟨c, hc, row, hscore⟩ := passing_score hx
    rw [hscore]
    exact computeScore_bounds hweights (hdistance c hc)
  · intro row row' d d' hd hrating hacceptance hcompletion
    exact computeScore_mono hweights hd hrating hacceptance hcompletion

def standardWeights : ScoreWeights := ⟨60, 15, 15, 10⟩

def readyRow (driverId : ℕ) (rating : Option ℚ) : DriverRow where
  kycApproved := true
  isOnline := true
  vehicleClass := some .flatbed
  longDistanceEnabled := false
  services := []
  truckStatus := none
  suspensionPending := false
  fleetSuspended := false
  zoneRestricted := false
  hasActiveJob := false
  driverId := driverId
  fleetId := none
  truckId := none
  rating := rating
  acceptanceRate := none
  completionRate := none

/-- Of four drivers one was asked before and one holds an offer. -/
def fourInRange : Selection where
  booking := ⟨.flatbed, .tow, false⟩
  weights := standardWeights
  inRange := [⟨1, 4000⟩, ⟨2, 1000⟩, ⟨3, 2000⟩, ⟨4, 2000⟩]
  degraded := false
  rows := [readyRow 1 (some 5), readyRow 2 none, readyRow 3 (some 4), readyRow 4 none]
  alreadyOffered driverId := driverId = 2
  locked driverId := driverId = 4

theorem select_lawful_sample :
    fourInRange.Ranked 1 (fourInRange.select 1) ∧ fourInRange.Accounted (fourInRange.select 1) ∧
      ∀ x ∈ fourInRange.passing, 0 ≤ x.score ∧ x.score ≤ 100 := by
  have h := select_lawful fourInRange 1 (by unfold Selection.Known; decide +kernel)
    ⟨by decide +kernel, by decide +kernel, by decide +kernel, by decide +kernel, by decide +kernel⟩ (by decide +kernel)
  exact ⟨h.1, h.2.1, h.2.2.1⟩

end Towing.Dispatch
