import Towing.Tracking.Smoothing
import Mathlib.Data.List.Induction

namespace Towing.Tracking

/-! The pace of the pickup leg, over one recompute after another. -/

variable {P : Type}

/-- A planned pickup leg with a line. -/
structure PickupLeg (P : Type) where
  metric : Metric P
  destination : P
  path : List P
  durationSeconds : ℤ
  fallbackKph : ℚ
  line : 2 ≤ path.length
  length_pos : 0 < metric.routeLengthMeters path
  duration_pos : 0 < durationSeconds

/-- A recompute: where the driver is, and whether the value before is passed over. -/
structure Recompute (P : Type) where
  position : P
  bypass : Bool

namespace PickupLeg

variable (leg : PickupLeg P)

def remaining (position : P) : ℚ := leg.metric.remainingRouteMeters position leg.destination leg.path

def legMeters : Option ℚ :=
  if 2 ≤ leg.path.length then some (leg.metric.routeLengthMeters leg.path) else none

/-- What a recompute makes of the booking's `eta_seconds`: the raw value, and what is saved. -/
def recompute (etaSeconds : Option ℤ) (r : Recompute P) : ℤ × ℤ :=
  let raw := secondsForMeters (leg.remaining r.position) leg.legMeters etaSeconds leg.fallbackKph
  let previous := if r.bypass then none else etaSeconds
  (raw, smoothEta previous raw)

/-- The raw values of the recomputes, from the `eta_seconds` there is. -/
def raws (etaSeconds : ℤ) : List (Recompute P) → List ℤ
  | [] => []
  | r :: rs => (leg.recompute (some etaSeconds) r).1 :: raws (leg.recompute (some etaSeconds) r).2 rs

/-- The `eta_seconds` that the recomputes leave. -/
def saved (etaSeconds : ℤ) : List (Recompute P) → ℤ
  | [] => etaSeconds
  | r :: rs => saved (leg.recompute (some etaSeconds) r).2 rs

/-- What is left, at the pace of the plan. -/
def atPace (position : P) : ℤ :=
  max 30 (round (leg.remaining position * (leg.durationSeconds / leg.metric.routeLengthMeters leg.path)))

/-- Every raw value is what is left at the pace of the plan. -/
def Follows (rs : List (Recompute P)) : Prop :=
  leg.raws leg.durationSeconds rs = rs.map fun r ↦ leg.atPace r.position

/-- What is left takes, at the pace of the plan, the whole planned duration; one second is never left. -/
def Whole (r : Recompute P) : Prop :=
  leg.atPace r.position = leg.durationSeconds ∨ leg.durationSeconds = 1 ∧ r.bypass = false

/-- What is left takes no more than the planned duration, or half a minute. -/
def Within (r : Recompute P) : Prop := leg.atPace r.position ≤ max 30 leg.durationSeconds

/-- What is left takes half a minute at the most, were half a minute planned for the leg or more. -/
def Near (r : Recompute P) : Prop :=
  round (leg.remaining r.position * (max 30 leg.durationSeconds / leg.metric.routeLengthMeters leg.path)) ≤ 30

/-- Each recompute comes while the driver has not left the start, or when they are nearly there. -/
def Anchored (rs : List (Recompute P)) : Prop :=
  ∀ n (_ : n < rs.length), (∀ b ∈ rs.take n, leg.Whole b) ∨ (∀ b ∈ rs.take n, leg.Within b) ∧ leg.Near rs[n]

variable {leg} {etaSeconds : ℤ} {r : Recompute P} {rs : List (Recompute P)}

theorem raw_eq (h : 0 < etaSeconds) (r : Recompute P) : (leg.recompute (some etaSeconds) r).1 =
    max 30 (round (leg.remaining r.position * (etaSeconds / leg.metric.routeLengthMeters leg.path))) := by
  have hlength := leg.length_pos
  have hne : leg.metric.routeLengthMeters leg.path ≠ 0 ∧ etaSeconds ≠ 0 ∧ 0 < leg.metric.routeLengthMeters leg.path :=
    ⟨ne_of_gt hlength, ne_of_gt h, hlength⟩
  simp only [recompute, legMeters, if_pos leg.line, secondsForMeters, if_pos hne]

theorem raw_planned (r : Recompute P) : (leg.recompute (some leg.durationSeconds) r).1 = leg.atPace r.position :=
  raw_eq leg.duration_pos r

theorem atPace_ge (position : P) : 30 ≤ leg.atPace position := le_max_left _ _

/-- The value that is saved lies between the one before and the raw one, and can be divided by. -/
theorem saved_between (h : 0 < etaSeconds) (r : Recompute P) :
    0 < (leg.recompute (some etaSeconds) r).2 ∧
      (leg.recompute (some etaSeconds) r).2 ≤ max etaSeconds (leg.recompute (some etaSeconds) r).1 := by
  have hge : 30 ≤ (leg.recompute (some etaSeconds) r).1 := by
    rw [raw_eq h]
    exact le_max_left _ _
  have hsaved : (leg.recompute (some etaSeconds) r).2 =
    smoothEta (if r.bypass then none else some etaSeconds) (leg.recompute (some etaSeconds) r).1 := rfl
  rw [hsaved]
  cases r.bypass with
  | true =>
    have hnone : smoothEta none (leg.recompute (some etaSeconds) r).1 = max 0 (leg.recompute (some etaSeconds) r).1 := rfl
    rw [if_pos rfl, hnone]
    omega
  | false =>
    have hstep := smoothEta_step h (by omega : 0 < (leg.recompute (some etaSeconds) r).1)
    rw [if_neg Bool.false_ne_true]
    rcases le_total etaSeconds (leg.recompute (some etaSeconds) r).1 with hle | hle
    · exact ⟨hstep.2.2.2, ((hstep.1 hle).2).trans (le_max_right _ _)⟩
    · exact ⟨hstep.2.2.2, ((hstep.2.1 hle).2).trans (le_max_left _ _)⟩

/-- The planned duration stays saved just where the driver has not left the start. -/
theorem saved_planned (r : Recompute P) :
    (leg.recompute (some leg.durationSeconds) r).2 = leg.durationSeconds ↔ leg.Whole r := by
  have hpos := leg.duration_pos
  have hge : 30 ≤ leg.atPace r.position := atPace_ge r.position
  have hsaved : (leg.recompute (some leg.durationSeconds) r).2 =
    smoothEta (if r.bypass then none else some leg.durationSeconds) (leg.recompute (some leg.durationSeconds) r).1 := rfl
  rw [hsaved, raw_planned, Whole]
  cases hb : r.bypass with
  | true =>
    have hnone : smoothEta none (leg.atPace r.position) = max 0 (leg.atPace r.position) := rfl
    rw [if_pos rfl, hnone]
    simp only [Bool.true_eq_false, and_false, or_false]
    omega
  | false =>
    rw [if_neg Bool.false_ne_true, smoothEta_eq hpos, reach]
    simp only [and_true]
    omega

theorem raws_append (etaSeconds : ℤ) (rs : List (Recompute P)) (r : Recompute P) :
    leg.raws etaSeconds (rs ++ [r]) =
      leg.raws etaSeconds rs ++ [(leg.recompute (some (leg.saved etaSeconds rs)) r).1] := by
  induction rs generalizing etaSeconds with
  | nil => rfl
  | cons head rs ih => exact congrArg _ (ih _)

theorem saved_append (etaSeconds : ℤ) (rs : List (Recompute P)) (r : Recompute P) :
    leg.saved etaSeconds (rs ++ [r]) = (leg.recompute (some (leg.saved etaSeconds rs)) r).2 := by
  induction rs generalizing etaSeconds with
  | nil => rfl
  | cons head rs ih => exact ih _

/-- One recompute more. -/
theorem follows_snoc : leg.Follows (rs ++ [r]) ↔
    leg.Follows rs ∧ (leg.recompute (some (leg.saved leg.durationSeconds rs)) r).1 = leg.atPace r.position := by
  rw [Follows, Follows, raws_append, List.map_append, List.map_singleton]
  constructor
  · intro h
    exact ⟨(List.append_inj' h rfl).1, List.singleton_inj.mp (List.append_inj' h rfl).2⟩
  · rintro ⟨hrs, hr⟩
    rw [hrs, hr]

theorem saved_pos (rs : List (Recompute P)) : 0 < leg.saved leg.durationSeconds rs := by
  induction rs using List.reverseRecOn with
  | nil => exact leg.duration_pos
  | append_singleton rs r ih =>
    rw [saved_append]
    exact (saved_between ih r).1

theorem saved_of_whole (h : ∀ b ∈ rs, leg.Whole b) : leg.saved leg.durationSeconds rs = leg.durationSeconds := by
  induction rs using List.reverseRecOn with
  | nil => rfl
  | append_singleton rs r ih =>
    rw [saved_append, ih fun b hb ↦ h b (List.mem_append_left _ hb)]
    exact (saved_planned r).mpr (h r (List.mem_append_right _ (List.mem_singleton_self r)))

/-- At the pace of the plan the saved value never gets beyond the planned one. -/
theorem saved_of_within (hf : leg.Follows rs) (h : ∀ b ∈ rs, leg.Within b) :
    leg.saved leg.durationSeconds rs ≤ max 30 leg.durationSeconds := by
  induction rs using List.reverseRecOn with
  | nil => exact le_max_right _ _
  | append_singleton rs r ih =>
    obtain ⟨hrs, hr⟩ := follows_snoc.mp hf
    have hpos : 0 < leg.saved leg.durationSeconds rs := saved_pos rs
    have hle : leg.saved leg.durationSeconds (rs ++ [r]) ≤
        max (leg.saved leg.durationSeconds rs) (leg.recompute (some (leg.saved leg.durationSeconds rs)) r).1 := by
      rw [saved_append]
      exact (saved_between hpos r).2
    have hwithin := h r (List.mem_append_right _ (List.mem_singleton_self r))
    rw [hr] at hle
    exact hle.trans (max_le (ih hrs fun b hb ↦ h b (List.mem_append_left _ hb)) hwithin)

/-- Nearly there, half a minute is left by any duration that is not beyond the planned one. -/
theorem raw_of_near (hnear : leg.Near r) (hpos : 0 < etaSeconds) (hle : etaSeconds ≤ max 30 leg.durationSeconds) :
    (leg.recompute (some etaSeconds) r).1 = 30 := by
  rw [raw_eq hpos]
  refine max_eq_left (?_ : _ ≤ (30 : ℤ))
  have hlength := leg.length_pos
  have hcast : (etaSeconds : ℚ) ≤ max 30 leg.durationSeconds := by exact_mod_cast hle
  have hcast' : (0 : ℚ) < etaSeconds := by exact_mod_cast hpos
  rcases le_total 0 (leg.remaining r.position) with hm | hm
  · have hmono : leg.remaining r.position * (etaSeconds / leg.metric.routeLengthMeters leg.path) ≤
        leg.remaining r.position * (max 30 leg.durationSeconds / leg.metric.routeLengthMeters leg.path) :=
      mul_le_mul_of_nonneg_left (div_le_div_of_nonneg_right hcast hlength.le) hm
    exact (round_le_round hmono).trans hnear
  · have hneg : leg.remaining r.position * (etaSeconds / leg.metric.routeLengthMeters leg.path) ≤ (30 : ℤ) :=
      (mul_nonpos_of_nonpos_of_nonneg hm (div_pos hcast' hlength).le).trans (by norm_num)
    exact (round_le_round hneg).trans_eq (round_intCast 30)

/-- Where a whole leg is left, another duration than the planned one shows. -/
theorem raw_ne_atPace {start : P} (hstart : leg.metric.routeLengthMeters leg.path ≤ leg.remaining start)
    (hlong : 30 < leg.durationSeconds) (hpos : 0 < etaSeconds) (hne : etaSeconds ≠ leg.durationSeconds) :
    (leg.recompute (some etaSeconds) ⟨start, false⟩).1 ≠ leg.atPace start := by
  have hlength := leg.length_pos
  -- a second of the duration is a second of what is left, and more
  have hstretch (x y : ℤ) (h : x + 1 ≤ y) : round (leg.remaining start * (x / leg.metric.routeLengthMeters leg.path)) + 1 ≤
      round (leg.remaining start * (y / leg.metric.routeLengthMeters leg.path)) := by
    have hone : 1 ≤ leg.remaining start / leg.metric.routeLengthMeters leg.path := (one_le_div hlength).mpr hstart
    have hcast : (x : ℚ) + 1 ≤ y := by exact_mod_cast h
    rw [← round_add_one]
    refine round_le_round ?_
    rw [mul_div_left_comm, mul_div_left_comm _ (y : ℚ)]
    nlinarith only [hone, hcast]
  have hplanned : leg.durationSeconds ≤
      round (leg.remaining start * (leg.durationSeconds / leg.metric.routeLengthMeters leg.path)) := by
    have hone : 1 ≤ leg.remaining start / leg.metric.routeLengthMeters leg.path := (one_le_div hlength).mpr hstart
    have hcast : (0 : ℚ) ≤ leg.durationSeconds := by exact_mod_cast leg.duration_pos.le
    refine (round_intCast (α := ℚ) leg.durationSeconds).symm.trans_le (round_le_round ?_)
    rw [mul_div_left_comm]
    exact le_mul_of_one_le_right hcast hone
  rw [raw_eq hpos, atPace]
  dsimp only
  rcases lt_or_gt_of_ne hne with h | h
  · have := hstretch etaSeconds leg.durationSeconds h
    omega
  · have := hstretch leg.durationSeconds etaSeconds h
    omega

theorem follows_of_whole (h : ∀ b ∈ rs, leg.Whole b) (r : Recompute P) : leg.Follows (rs ++ [r]) := by
  induction rs using List.reverseRecOn generalizing r with
  | nil => exact congrArg (fun raw ↦ [raw]) (raw_planned r)
  | append_singleton rs b ih =>
    refine follows_snoc.mpr ⟨ih (fun a ha ↦ h a (List.mem_append_left _ ha)) b, ?_⟩
    rw [saved_of_whole h]
    exact raw_planned r

theorem follows_of_anchored (h : leg.Anchored rs) : leg.Follows rs := by
  induction rs using List.reverseRecOn with
  | nil => rfl
  | append_singleton rs r ih =>
    have hrs : leg.Follows rs := ih fun n hn ↦ by
      have hn' := h n (by rw [List.length_append]; omega)
      rwa [List.take_append_of_le_length hn.le, List.getElem_append_left hn] at hn'
    have hr := h rs.length (by rw [List.length_append, List.length_singleton]; omega)
    rw [List.take_left, List.getElem_concat_length rfl] at hr
    rcases hr with hwhole | ⟨hwithin, hnear⟩
    · exact follows_of_whole hwhole r
    · have hself : leg.atPace r.position = 30 := by
        rw [← raw_planned]
        exact raw_of_near hnear leg.duration_pos (le_max_right _ _)
      refine follows_snoc.mpr ⟨hrs, ?_⟩
      rw [raw_of_near hnear (saved_pos rs) (saved_of_within hrs hwithin), hself]

/-- As long as the driver has not left the start, and once they are nearly there, the raw values are
what is left at the pace of the plan; after a recompute away from the start, one a whole leg away
would not be. -/
theorem recompute_atPace (leg : PickupLeg P) (rs : List (Recompute P)) :
    (leg.Anchored rs → leg.Follows rs) ∧
      ∀ start, leg.metric.routeLengthMeters leg.path ≤ leg.remaining start → 30 < leg.durationSeconds →
        ((∀ n position, leg.Follows (rs.take n ++ [⟨position, false⟩])) ↔ ∀ r ∈ rs, leg.Whole r) := by
  refine ⟨follows_of_anchored, fun start hstart hlong ↦ ⟨fun h ↦ ?_, fun h n position ↦ ?_⟩⟩
  · -- the first recompute away from the start leaves another value to the next one
    have hprefix (n : ℕ) : ∀ b ∈ rs.take n, leg.Whole b := by
      induction n with
      | zero => exact fun b hb ↦ absurd hb List.not_mem_nil
      | succ n ih =>
        rcases lt_or_ge n rs.length with hn | hn
        · have htake : rs.take (n + 1) = rs.take n ++ [rs[n]] := List.take_succ_eq_append_getElem hn
          have hnext := (follows_snoc.mp (h (n + 1) start)).2
          rw [htake]
          intro b hb
          rcases List.mem_append.mp hb with hb | hb
          · exact ih b hb
          · rw [List.mem_singleton.mp hb]
            by_contra hwhole
            refine raw_ne_atPace hstart hlong (saved_pos (rs.take (n + 1))) ?_ hnext
            rw [htake, saved_append, saved_of_whole ih]
            exact fun heq ↦ hwhole ((saved_planned _).mp heq)
        · rw [List.take_of_length_le (by omega)]
          rwa [List.take_of_length_le hn] at ih
    exact fun r hr ↦ hprefix rs.length r (by rwa [List.take_length])
  · exact follows_of_whole (fun b hb ↦ h b (List.mem_of_mem_take hb)) ⟨position, false⟩

end PickupLeg

/-- A straight road, measured by its kilometre stones. -/
def straight : Metric ℚ where
  haversineMeters a b := |a - b|
  distanceToSegmentMeters p a b := if p < min a b then min a b - p else if max a b < p then p - max a b else 0

/-- Six kilometres in ten minutes. -/
def sixKilometres : PickupLeg ℚ where
  metric := straight
  destination := 6000
  path := [0, 6000]
  durationSeconds := 600
  fallbackKph := 25
  line := by decide
  length_pos := by decide +kernel
  duration_pos := by decide

/-- A driver who waits halfway is halfway less and less far away. -/
theorem halfway_shrinks : ¬sixKilometres.Follows [⟨3000, false⟩, ⟨3000, false⟩] := by
  unfold PickupLeg.Follows
  decide +kernel

/-- Two recomputes before the driver sets off, one halfway, one close by. -/
theorem recompute_atPace_sample :
    sixKilometres.Follows [⟨0, false⟩, ⟨0, false⟩, ⟨3000, false⟩, ⟨5800, true⟩] ∧
      ((∀ n position, sixKilometres.Follows ([⟨0, false⟩, ⟨0, false⟩].take n ++ [⟨position, false⟩])) ↔
        ∀ r ∈ [⟨0, false⟩, ⟨0, false⟩], sixKilometres.Whole r) := by
  refine ⟨(PickupLeg.recompute_atPace _ _).1 ?_,
    (PickupLeg.recompute_atPace _ _).2 0 (by decide +kernel) (by decide)⟩
  unfold PickupLeg.Anchored PickupLeg.Whole PickupLeg.Within PickupLeg.Near
  decide +kernel

end Towing.Tracking
