import Towing.Dispatch.AdminOffer

namespace Towing.Dispatch

open Towing.Arith Towing.Trips Towing.Common

variable {s : Selection} {driverId limit : ℕ}

namespace Selection

def ids (s : Selection) : List ℕ := s.inRange.map (·.driverId)

theorem keptOut_eq (s : Selection) (reason : ExclusionReason) :
    s.keptOut reason = s.ids.filter fun id ↦ s.outcome id = some reason := by
  rw [keptOut, ids, List.filter_map]
  rfl

/-- The drivers before this one that the same filter keeps out. -/
def before (s : Selection) (driverId : ℕ) (reason : ExclusionReason) : ℕ :=
  (s.ids.takeWhile (· ≠ driverId)).countP fun id ↦ s.outcome id = some reason

theorem mem_sample {reason : ExclusionReason} : driverId ∈ (s.keptOut reason).take EXCLUDED_ID_CAP ↔
    driverId ∈ s.ids ∧ s.outcome driverId = some reason ∧ s.before driverId reason < EXCLUDED_ID_CAP := by
  rw [keptOut_eq, mem_take_filter, decide_eq_true_eq]
  rfl

/-- What the operator is told of a driver who is not chosen. -/
def reported (excluded : Excluded) (driverId : ℕ) : String :=
  (excluded.find? fun entry ↦ entry.sample.contains driverId).elim "not_eligible" (·.kind.name)

theorem reported_reason {reason : ExclusionReason} (hids : driverId ∈ s.ids) (houtcome : s.outcome driverId = some reason)
    (hbefore : s.before driverId reason < EXCLUDED_ID_CAP) :
    reported (s.select limit).excluded driverId = reason.name := by
  have htallied := s.tallied limit
  have hsample := mem_sample.mpr ⟨hids, houtcome, hbefore⟩
  obtain ⟨entry, hentry, hkind⟩ := htallied.complete reason driverId (List.mem_of_mem_take hsample)
  have hin : entry.sample.contains driverId = true := by
    rw [(htallied.counted entry hentry).2, hkind]
    exact List.contains_iff_mem.mpr hsample
  have hex : ∃ entry ∈ (s.select limit).excluded, entry.sample.contains driverId = true := ⟨entry, hentry, hin⟩
  obtain ⟨first, hfirst⟩ := Option.isSome_iff_exists.mp (List.find?_isSome.mpr hex)
  have hmem := List.find?_some hfirst
  rw [List.contains_iff_mem, (htallied.counted first (List.mem_of_find?_eq_some hfirst)).2, mem_sample, houtcome] at hmem
  rw [reported, hfirst, Option.elim_some, Option.some.inj hmem.2.1]

theorem reported_none (h : ∀ reason, driverId ∈ s.ids → s.outcome driverId = some reason →
    EXCLUDED_ID_CAP ≤ s.before driverId reason) : reported (s.select limit).excluded driverId = "not_eligible" := by
  have hnone : ((s.select limit).excluded.find? fun entry ↦ entry.sample.contains driverId) = none := by
    rw [List.find?_eq_none]
    intro entry hentry hin
    rw [List.contains_iff_mem, ((s.tallied limit).counted entry hentry).2, mem_sample] at hin
    exact absurd hin.2.2 (not_lt_of_ge (h entry.kind hin.1 hin.2.1))
  rw [reported, hnone]
  rfl

theorem passing_ids (s : Selection) : s.passing.map (·.driverId) = s.ids.filter s.passes := by
  rw [passing, ids]
  induction s.inRange with
  | nil => rfl
  | cons c rest ih =>
    rw [List.filterMap_cons, List.map_cons, List.filter_cons]
    cases hpasses : s.passes c.driverId with
    | false => simpa using ih
    | true =>
      cases hrow : s.eligibility c.driverId with
      | none => simp [passes, hrow] at hpasses
      | some row =>
        have hid : (s.scored ⟨row, c.distanceMeters⟩).driverId = c.driverId := s.keyed _ _ hrow
        simp [hid, ih]

theorem passing_nodup (hnodup : s.ids.Nodup) : s.passing.Nodup := by
  have hids := hnodup.filter s.passes
  rw [← passing_ids] at hids
  exact List.Nodup.of_map _ hids

theorem passing_unique (hnodup : s.ids.Nodup) {x y : ScoredCandidate} (hx : x ∈ s.passing) (hy : y ∈ s.passing)
    (h : x.driverId = y.driverId) : x = y := by
  have hids := hnodup.filter s.passes
  rw [← passing_ids] at hids
  exact List.inj_on_of_nodup_map hids hx hy h

theorem candidates_eq (s : Selection) (limit : ℕ) : (s.select limit).candidates = (byBest (·.score) s.passing).take limit := by
  rw [select_eq]
  rfl

/-- The driver is chosen just where fewer who pass are ahead. -/
theorem chosen_iff (hnodup : s.ids.Nodup) {x : ScoredCandidate} (hx : x ∈ s.passing) :
    (s.select limit).candidates.find? (·.driverId = x.driverId) = some x ↔ ahead (·.score) s.passing x < limit := by
  rw [candidates_eq, ← mem_take_byBest (passing_nodup hnodup) hx]
  constructor
  · exact fun h ↦ List.mem_of_find?_eq_some h
  · intro hmem
    have hex : ∃ y ∈ (byBest (·.score) s.passing).take limit, decide (y.driverId = x.driverId) = true :=
      ⟨x, hmem, decide_eq_true rfl⟩
    obtain ⟨y, hy⟩ := Option.isSome_iff_exists.mp (List.find?_isSome.mpr hex)
    have hin := (List.mergeSort_perm _ _).mem_iff.mp (List.mem_of_mem_take (List.mem_of_find?_eq_some hy))
    have hid := List.find?_some hy
    rw [hy, passing_unique hnodup hin hx (of_decide_eq_true hid)]

theorem chosen_none (h : ∀ x ∈ s.passing, x.driverId = driverId → limit ≤ ahead (·.score) s.passing x)
    (hnodup : s.ids.Nodup) : (s.select limit).candidates.find? (·.driverId = driverId) = none := by
  rw [List.find?_eq_none]
  intro x hx hid
  rw [candidates_eq] at hx
  have hin := (List.mergeSort_perm _ _).mem_iff.mp (List.mem_of_mem_take hx)
  exact absurd ((mem_take_byBest (passing_nodup hnodup) hin).mp hx) (not_lt_of_ge (h x hin (of_decide_eq_true hid)))

end Selection

namespace Scene

variable {w : Scene} {booking : OfferBooking}

/-- Everyone in range at the widest rung. -/
def everyone (w : Scene) (booking : OfferBooking) : Selection :=
  w.selection booking.row ((w.inZone (w.widest booking)).elim ((w.near (w.widest booking)).drivers, true) (·.drivers, false))

/-- Those that the search comes up with. -/
def searched (w : Scene) (booking : OfferBooking) : Selection :=
  w.selection booking.row (w.searchWithFallback (w.widest booking) (max (ADMIN_OFFER_LIMIT * 8) 40))

/-- The driver is in range and passes every filter. -/
def Eligible (w : Scene) (booking : OfferBooking) (driverId : ℕ) : Prop :=
  driverId ∈ (w.everyone booking).ids ∧ (w.everyone booking).passes driverId = true

/-- Why the driver is not to be offered the job. -/
def verdict (w : Scene) (booking : OfferBooking) (driverId : ℕ) : String :=
  if driverId ∈ (w.everyone booking).ids then
    ((w.everyone booking).outcome driverId).elim
      (if (w.everyone booking).passes driverId then "offer_locked" else "not_eligible") (·.name)
  else "not_eligible"

/-- The driver is judged on eligibility alone. -/
structure Judged (w : Scene) (booking : OfferBooking) (driverId : ℕ) (answer : AdminOfferAnswer × Option OfferMade) :
    Prop where
  offered : answer.1.offered = true ↔ w.Eligible booking driverId ∧ w.taken driverId = false
  made : answer.1.offered = true ↔ ∃ made, answer.2 = some made ∧ made.driverId = driverId
  exclusion : answer.1.offered = false → answer.1.exclusion = some (w.verdict booking driverId)

/-- The search comes up with the driver: the zone's set answers, or fewer than its limit are nearer. -/
def Within (w : Scene) (booking : OfferBooking) (driverId : ℕ) : Prop :=
  (w.inZone (w.widest booking)).isSome = true ∨
    ((w.everyone booking).ids.takeWhile (· ≠ driverId)).length < ADMIN_OFFER_LIMIT * 8

/-- Of the drivers found too few are ahead of this one for the caps to matter. -/
structure Uncrowded (w : Scene) (booking : OfferBooking) (driverId : ℕ) : Prop where
  passing : w.Eligible booking driverId → w.Within booking driverId ∧
    ∀ x ∈ (w.searched booking).passing, x.driverId = driverId →
      ahead (·.score) (w.searched booking).passing x < ADMIN_OFFER_LIMIT
  failing : ∀ reason, driverId ∈ (w.everyone booking).ids → (w.everyone booking).outcome driverId = some reason →
    w.Within booking driverId ∧ (w.searched booking).before driverId reason < EXCLUDED_ID_CAP

theorem everyone_nodup (w : Scene) (booking : OfferBooking) : (w.everyone booking).ids.Nodup := by
  unfold everyone selection Selection.ids
  cases w.inZone (w.widest booking) with
  | none => exact (w.near (w.widest booking)).once
  | some found => exact found.once

theorem mem_searched : driverId ∈ (w.searched booking).ids ↔
    driverId ∈ (w.everyone booking).ids ∧ w.Within booking driverId := by
  unfold searched everyone Within searchWithFallback selection Selection.ids everyone selection
  cases w.inZone (w.widest booking) with
  | some found => simp
  | none =>
    have htake := @mem_take_filter _ ((w.near (w.widest booking)).drivers.map (·.driverId)) driverId
      (ADMIN_OFFER_LIMIT * 8) _ fun _ ↦ true
    simpa [List.map_take, ADMIN_OFFER_LIMIT] using htake

theorem searched_nodup (w : Scene) (booking : OfferBooking) : (w.searched booking).ids.Nodup := by
  have hall := w.everyone_nodup booking
  unfold everyone selection Selection.ids at hall
  unfold searched searchWithFallback selection Selection.ids
  cases hzone : w.inZone (w.widest booking) with
  | some found => exact found.once
  | none =>
    rw [hzone] at hall
    exact hall.sublist ((List.take_sublist _ _).map _)

theorem searched_outcome (w : Scene) (booking : OfferBooking) (driverId : ℕ) :
    (w.searched booking).outcome driverId = (w.everyone booking).outcome driverId := rfl

/-- The answer where the driver is not among those chosen. -/
theorem answer_none (hbooking : w.booking = some booking) (hsearching : booking.searching = true)
    (h : ((w.searched booking).select ADMIN_OFFER_LIMIT).candidates.find? (·.driverId = driverId) = none) :
    w.adminOfferToDriver driverId =
      (⟨false, some (Selection.reported ((w.searched booking).select ADMIN_OFFER_LIMIT).excluded driverId),
        booking.searchWave.getD 1, w.widest booking⟩, none) := by
  have hselect : w.select booking.row (w.widest booking) ADMIN_OFFER_LIMIT =
    (w.searched booking).select ADMIN_OFFER_LIMIT := rfl
  rw [adminOfferToDriver, hbooking, Option.filter_some, if_pos hsearching]
  dsimp only
  rw [hselect, h]
  rfl

theorem answer_some (hbooking : w.booking = some booking) (hsearching : booking.searching = true) {x : ScoredCandidate}
    (h : ((w.searched booking).select ADMIN_OFFER_LIMIT).candidates.find? (·.driverId = driverId) = some x) :
    ∃ made, (w.adminOfferToDriver driverId).2 = made ∧ made.isSome = !w.taken x.driverId ∧
      (∀ m, made = some m → m.driverId = x.driverId) ∧
      (w.adminOfferToDriver driverId).1.offered = made.isSome ∧
      (made.isSome = false → (w.adminOfferToDriver driverId).1.exclusion = some "offer_locked") := by
  have hselect : w.select booking.row (w.widest booking) ADMIN_OFFER_LIMIT =
    (w.searched booking).select ADMIN_OFFER_LIMIT := rfl
  rw [adminOfferToDriver, hbooking, Option.filter_some, if_pos hsearching]
  dsimp only
  rw [hselect, h]
  dsimp only
  refine ⟨_, rfl, ?_, ?_, rfl, ?_⟩
  · unfold offer
    cases w.taken x.driverId <;> rfl
  · unfold offer
    intro m hm
    split_ifs at hm
    cases hm
    rfl
  · intro hnone
    rw [hnone]
    rfl

/-- A driver whom the selection leaves out is reported, not offered the job. -/
theorem judged_none (hbooking : w.booking = some booking) (hsearching : booking.searching = true)
    (h : ((w.searched booking).select ADMIN_OFFER_LIMIT).candidates.find? (·.driverId = driverId) = none) :
    w.Judged booking driverId (w.adminOfferToDriver driverId) ↔
      (¬(w.Eligible booking driverId ∧ w.taken driverId = false)) ∧
        Selection.reported ((w.searched booking).select ADMIN_OFFER_LIMIT).excluded driverId =
          w.verdict booking driverId := by
  rw [answer_none hbooking hsearching h]
  constructor
  · intro hjudged
    exact ⟨fun heligible ↦ absurd (hjudged.offered.mpr heligible) Bool.false_ne_true,
      Option.some.inj (hjudged.exclusion rfl)⟩
  · rintro ⟨hnot, hreport⟩
    refine ⟨⟨fun hfalse ↦ absurd hfalse Bool.false_ne_true, fun heligible ↦ absurd heligible hnot⟩, ?_, fun _ ↦ ?_⟩
    · constructor
      · exact fun hfalse ↦ absurd hfalse Bool.false_ne_true
      · rintro ⟨made, hmade, -⟩
        cases hmade
    · exact congrArg some hreport

theorem outcome_of_passes (h : s.passes driverId = true) : s.outcome driverId = none := by
  have hknown : (s.eligibility driverId).isSome = true := by
    cases hrow : s.eligibility driverId with
    | none => simp [Selection.passes, hrow] at h
    | some row => rfl
  exact (Selection.passes_iff hknown).mp h

theorem verdict_eligible (h : w.Eligible booking driverId) : w.verdict booking driverId = "offer_locked" := by
  rw [verdict, if_pos h.1, outcome_of_passes h.2, Option.elim_none, if_pos h.2]

theorem name_ne (reason : ExclusionReason) : reason.name ≠ "not_eligible" := by
  cases reason with
  | filter reason => cases reason <;> decide
  | _ => decide

/-- An eligible driver is judged on that alone just where the search comes up with them and too
few are ahead. -/
theorem judged_eligible (hbooking : w.booking = some booking) (hsearching : booking.searching = true)
    (heligible : w.Eligible booking driverId) : w.Judged booking driverId (w.adminOfferToDriver driverId) ↔
      w.Within booking driverId ∧ ∀ x ∈ (w.searched booking).passing, x.driverId = driverId →
        ahead (·.score) (w.searched booking).passing x < ADMIN_OFFER_LIMIT := by
  have hnodup := w.searched_nodup booking
  have hverdict := verdict_eligible heligible
  have hreported : Selection.reported ((w.searched booking).select ADMIN_OFFER_LIMIT).excluded driverId =
      "not_eligible" := by
    apply Selection.reported_none
    intro reason _ houtcome
    rw [searched_outcome, outcome_of_passes heligible.2] at houtcome
    cases houtcome
  have hleft (h : ((w.searched booking).select ADMIN_OFFER_LIMIT).candidates.find? (·.driverId = driverId) = none) :
      ¬w.Judged booking driverId (w.adminOfferToDriver driverId) := by
    rw [judged_none hbooking hsearching h, hreported, hverdict]
    rintro ⟨-, heq⟩
    exact absurd heq (by decide)
  by_cases hwithin : w.Within booking driverId
  · obtain ⟨c, hc, hid⟩ := List.mem_map.mp (mem_searched.mpr ⟨heligible.1, hwithin⟩)
    have hpasses : (w.searched booking).passes c.driverId = true := by
      rw [hid]
      exact heligible.2
    obtain ⟨x, hx, hxid⟩ : ∃ x ∈ (w.searched booking).passing, x.driverId = driverId := by
      have hmem : driverId ∈ (w.searched booking).passing.map (·.driverId) := by
        rw [Selection.passing_ids]
        exact List.mem_filter.mpr ⟨mem_searched.mpr ⟨heligible.1, hwithin⟩, heligible.2⟩
      exact List.mem_map.mp hmem
    by_cases hahead : ahead (·.score) (w.searched booking).passing x < ADMIN_OFFER_LIMIT
    · have hfind := (Selection.chosen_iff hnodup hx).mpr hahead
      rw [hxid] at hfind
      refine iff_of_true ?_ ⟨hwithin, fun y hy hyid ↦ ?_⟩
      · obtain ⟨made, hmade, htaken, hreal, hoffered, hlocked⟩ := answer_some hbooking hsearching hfind
        rw [hxid] at htaken hreal
        refine ⟨?_, ?_, ?_⟩
        · rw [hoffered, htaken, Bool.not_eq_true']
          exact ⟨fun h ↦ ⟨heligible, h⟩, fun h ↦ h.2⟩
        · rw [hoffered, hmade]
          constructor
          · intro hsome
            obtain ⟨m, hm⟩ := Option.isSome_iff_exists.mp hsome
            exact ⟨m, hm, hreal m hm⟩
          · rintro ⟨m, rfl, -⟩
            rfl
        · intro hfalse
          rw [hverdict]
          exact hlocked (hoffered ▸ hfalse)
      · rwa [Selection.passing_unique hnodup hy hx (hyid.trans hxid.symm)]
    · refine iff_of_false (hleft (Selection.chosen_none ?_ hnodup)) fun h ↦ hahead (h.2 x hx hxid)
      intro y hy hyid
      rw [Selection.passing_unique hnodup hy hx (hyid.trans hxid.symm)]
      exact not_lt.mp hahead
  · refine iff_of_false (hleft (Selection.chosen_none ?_ hnodup)) fun h ↦ hwithin h.1
    intro y hy hyid
    have hmem := List.mem_map_of_mem (f := (·.driverId)) hy
    rw [Selection.passing_ids, hyid] at hmem
    exact absurd (mem_searched.mp (List.mem_filter.mp hmem).1).2 hwithin

/-- A driver who is not eligible is told the filter just where the search comes up with them and
the filter's sample has room. -/
theorem judged_failing (hbooking : w.booking = some booking) (hsearching : booking.searching = true)
    (hnot : ¬w.Eligible booking driverId) : w.Judged booking driverId (w.adminOfferToDriver driverId) ↔
      ∀ reason, driverId ∈ (w.everyone booking).ids → (w.everyone booking).outcome driverId = some reason →
        w.Within booking driverId ∧ (w.searched booking).before driverId reason < EXCLUDED_ID_CAP := by
  have hnodup := w.searched_nodup booking
  have hfind : ((w.searched booking).select ADMIN_OFFER_LIMIT).candidates.find? (·.driverId = driverId) = none := by
    apply Selection.chosen_none _ hnodup
    intro x hx hid
    have hmem := List.mem_map_of_mem (f := (·.driverId)) hx
    rw [Selection.passing_ids, hid] at hmem
    obtain ⟨hin, hpasses⟩ := List.mem_filter.mp hmem
    exact absurd ⟨(mem_searched.mp hin).1, hpasses⟩ hnot
  rw [judged_none hbooking hsearching hfind, and_iff_right fun h ↦ hnot h.1]
  by_cases hids : driverId ∈ (w.everyone booking).ids
  · cases houtcome : (w.everyone booking).outcome driverId with
    | none =>
      have hpasses : ¬(w.everyone booking).passes driverId = true := fun h ↦ hnot ⟨hids, h⟩
      have hverdict : w.verdict booking driverId = "not_eligible" := by
        rw [verdict, if_pos hids, houtcome, Option.elim_none, if_neg hpasses]
      have hreported := @Selection.reported_none (w.searched booking) driverId ADMIN_OFFER_LIMIT fun reason _ h ↦ by
        rw [searched_outcome, houtcome] at h
        cases h
      refine iff_of_true (hreported.trans hverdict.symm) ?_
      rintro reason - ⟨⟩
    | some reason =>
      have hverdict : w.verdict booking driverId = reason.name := by
        rw [verdict, if_pos hids, houtcome, Option.elim_some]
      rw [hverdict]
      constructor
      · intro hreported own _ hown
        cases hown
        by_contra hcrowded
        have hnone := @Selection.reported_none (w.searched booking) driverId ADMIN_OFFER_LIMIT fun other hin h ↦ by
          rw [searched_outcome, houtcome] at h
          cases h
          exact not_lt.mp fun hlt ↦ hcrowded ⟨(mem_searched.mp hin).2, hlt⟩
        exact name_ne reason (hreported.symm.trans hnone)
      · intro h
        obtain ⟨hwithin, hbefore⟩ := h reason hids rfl
        exact Selection.reported_reason (mem_searched.mpr ⟨hids, hwithin⟩) houtcome hbefore
  · have hverdict : w.verdict booking driverId = "not_eligible" := by rw [verdict, if_neg hids]
    have hreported := @Selection.reported_none (w.searched booking) driverId ADMIN_OFFER_LIMIT
      fun reason hin _ ↦ absurd (mem_searched.mp hin).1 hids
    exact iff_of_true (hreported.trans hverdict.symm) fun reason hin ↦ absurd hin hids

theorem judged_iff (hbooking : w.booking = some booking) (hsearching : booking.searching = true) :
    w.Judged booking driverId (w.adminOfferToDriver driverId) ↔ w.Uncrowded booking driverId := by
  by_cases heligible : w.Eligible booking driverId
  · rw [judged_eligible hbooking hsearching heligible]
    constructor
    · intro h
      refine ⟨fun _ ↦ h, fun reason _ houtcome ↦ ?_⟩
      rw [outcome_of_passes heligible.2] at houtcome
      cases houtcome
    · exact fun h ↦ h.passing heligible
  · rw [judged_failing hbooking hsearching heligible]
    exact ⟨fun h ↦ ⟨fun hcontra ↦ absurd hcontra heligible, h⟩, fun h ↦ h.failing⟩

/-- For a searching booking the operator's driver is judged on eligibility alone just where
neither cap is reached before them. -/
theorem adminOfferToDriver_judged (w : Scene) (booking : OfferBooking) (driverId : ℕ) (hbooking : w.booking = some booking)
    (hsearching : booking.searching = true) :
    w.Judged booking driverId (w.adminOfferToDriver driverId) ↔ w.Uncrowded booking driverId :=
  judged_iff hbooking hsearching

end Scene

/-- Drivers one to `n`, each ten metres farther than the one before, all fit for the job. -/
def crowd (n : ℕ) : Scene where
  booking := some ⟨true, ⟨.flatbed, .tow, false⟩, some 1, none⟩
  store := ⟨fun _ ↦ none, none⟩
  weights := standardWeights
  inZone _ := some ⟨(List.range' 1 n).map fun i ↦ ⟨i, 10 * i⟩, by
    rw [List.map_map]
    exact List.Nodup.map (fun _ _ h ↦ h) List.nodup_range'⟩
  near _ := ⟨[], List.nodup_nil⟩
  rows := (List.range' 1 n).map fun i ↦ readyRow i none
  alreadyOffered _ := false
  locked _ := false
  taken _ := false

def towBooking : OfferBooking := ⟨true, ⟨.flatbed, .tow, false⟩, some 1, none⟩

theorem adminOfferToDriver_judged_sample : (crowd 3).Judged towBooking 3 ((crowd 3).adminOfferToDriver 3) := by
  refine (Scene.adminOfferToDriver_judged (crowd 3) towBooking 3 rfl rfl).mpr ⟨fun _ ↦ ⟨.inl rfl, ?_⟩, ?_⟩
  · decide +kernel
  · intro reason _ h
    exact absurd h (by rw [show ((crowd 3).everyone towBooking).outcome 3 = none by decide +kernel]; simp)

/-- The driver who is the farthest of fifty-one is not offered the job. -/
theorem fifty_first_refused : ¬(crowd 51).Judged towBooking 51 ((crowd 51).adminOfferToDriver 51) := by
  rw [Scene.judged_iff rfl rfl]
  intro h
  obtain ⟨-, hahead⟩ := h.passing ⟨by decide +kernel, by decide +kernel⟩
  exact absurd hahead (by decide +kernel)

end Towing.Dispatch
