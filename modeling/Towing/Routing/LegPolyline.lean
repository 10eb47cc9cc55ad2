import Towing.Routing.Polyline

namespace Towing.Routing

/-- A step of a leg; its line may be missing. -/
abbrev Step := Option Encoded

/-- One round of the loop of `legPolyline`. -/
def joinStep (points : List Point) (step : Step) : List Point :=
  match step with
  | none => points
  | some encoded =>
    if encoded = [] then points
    else
      let decoded := decodePolyline encoded
      let start :=
        match points.getLast?, decoded.head? with
        | some last, some first => if last.lat = first.lat ∧ last.lng = first.lng then 1 else 0
        | _, _ => 0
      points ++ decoded.drop start

def legPolyline (steps : List Step) : Option Encoded :=
  let points := steps.foldl joinStep []
  if points.length ≥ 2 then some (encodePolyline points) else none

/-- The steps' points end to end, without the point at a join that both sides have. -/
def joined : List Point → List (List Point) → List Point
  | points, [] => points
  | points, next :: rest =>
    joined (if points ≠ [] ∧ points.getLast? = next.head? then points ++ next.tail else points ++ next) rest

/-- A step as it is drawn, on grid points in range. -/
abbrev GridPoint := {p : Point // InRange p ∧ p.OnGrid}

def drawn (step : List GridPoint) : List Point := step.map Subtype.val

theorem encodePolyline_ne_nil {p : Point} {points : List Point} : encodePolyline (p :: points) ≠ [] := by
  have hne : ∀ v, encodeChunks v ≠ [] := by
    intro v
    rw [encodeChunks]
    split_ifs <;> simp
  simp [encodePolyline, encodeFrom, encodeSignedValue, hne]

theorem map_rounded {points : List Point} (h : ∀ p ∈ points, InRange p ∧ p.OnGrid) :
    points.map Point.rounded = points := by
  conv_rhs => rw [← List.map_id points]
  exact List.map_congr_left fun p hp ↦ (h p hp).2.rounded (h p hp).1

theorem decode_encode_grid (step : List GridPoint) : decodePolyline (encodePolyline (drawn step)) = drawn step := by
  have hgrid : ∀ p ∈ drawn step, InRange p ∧ p.OnGrid := by
    intro p hp
    obtain ⟨q, _, rfl⟩ := List.mem_map.mp hp
    exact q.2
  rw [decode_encode fun p hp ↦ (hgrid p hp).1, map_rounded hgrid]

theorem joinStep_drawn (points : List Point) (step : List GridPoint) :
    joinStep points (some (encodePolyline (drawn step))) =
      if points ≠ [] ∧ points.getLast? = (drawn step).head? then points ++ (drawn step).tail
      else points ++ drawn step := by
  cases step with
  | nil => simp [joinStep, drawn, encodePolyline, encodeFrom]
  | cons p step =>
    have hdrawn : drawn (p :: step) = p.1 :: drawn step := rfl
    rw [joinStep, decode_encode_grid, hdrawn, if_neg encodePolyline_ne_nil]
    cases hlast : points.getLast? with
    | none =>
      have hnil : points = [] := List.getLast?_eq_none_iff.mp hlast
      simp [hnil]
    | some last =>
      have hne : points ≠ [] := by
        rintro rfl
        exact absurd hlast (by simp)
      have hsame : (last.lat = p.1.lat ∧ last.lng = p.1.lng) ↔ last = p.1 := by
        obtain ⟨lat, lng⟩ := last
        obtain ⟨⟨lat', lng'⟩, _⟩ := p
        simp
      simp only [List.head?_cons, hsame, hne, ne_eq, not_false_eq_true, true_and, Option.some_inj]
      by_cases h : last = p.1
      · rw [if_pos h, if_pos h]
        rfl
      · rw [if_neg h, if_neg h]
        rfl

/-- The lines that the steps carry, and nothing for a step without one. -/
def lines (steps : List (Option (List GridPoint))) : List Step :=
  steps.map fun step ↦ step.map fun points ↦ encodePolyline (drawn points)

theorem foldl_joinStep (steps : List (Option (List GridPoint))) : ∀ points : List Point,
    (lines steps).foldl joinStep points = joined points (steps.filterMap fun step ↦ step.map drawn) := by
  induction steps with
  | nil =>
    intro points
    rfl
  | cons step steps ih =>
    intro points
    cases step with
    | none => exact ih points
    | some step =>
      have hstep := joinStep_drawn points step
      simp only [lines, List.map_cons, Option.map_some, List.foldl_cons, hstep] at ih ⊢
      rw [ih]
      rfl

theorem joined_grid {rest : List (List Point)} (hrest : ∀ next ∈ rest, ∀ p ∈ next, InRange p ∧ p.OnGrid) :
    ∀ points : List Point, (∀ p ∈ points, InRange p ∧ p.OnGrid) →
      ∀ p ∈ joined points rest, InRange p ∧ p.OnGrid := by
  induction rest with
  | nil => exact fun _ h ↦ h
  | cons next rest ih =>
    intro points hpoints
    have hnext := hrest next List.mem_cons_self
    refine ih (fun n hn ↦ hrest n (List.mem_cons_of_mem next hn)) _ ?_
    split_ifs
    · exact List.forall_mem_append.mpr ⟨hpoints, fun p hp ↦ hnext p (List.mem_of_mem_tail hp)⟩
    · exact List.forall_mem_append.mpr ⟨hpoints, hnext⟩

theorem decode_legPolyline (steps : List (Option (List GridPoint))) :
    (legPolyline (lines steps)).map decodePolyline =
      if (joined [] (steps.filterMap fun step ↦ step.map drawn)).length < 2 then none
      else some (joined [] (steps.filterMap fun step ↦ step.map drawn)) := by
  have hgrid := @joined_grid (steps.filterMap fun step ↦ step.map drawn)
    (by
      intro next hnext p hp
      obtain ⟨step, _, hstep⟩ := List.mem_filterMap.mp hnext
      obtain ⟨points, rfl, rfl⟩ := Option.map_eq_some_iff.mp hstep
      obtain ⟨q, _, rfl⟩ := List.mem_map.mp hp
      exact q.2) [] (by simp)
  rw [legPolyline, foldl_joinStep]
  by_cases h : (joined [] (steps.filterMap fun step ↦ step.map drawn)).length < 2
  · rw [if_pos h, if_neg (by omega)]
    rfl
  · rw [if_neg h, if_pos (by omega), Option.map_some, decode_encode fun p hp ↦ (hgrid p hp).1,
      map_rounded hgrid]

theorem polyline_round_trip :
    (∀ points : List GridPoint, decodePolyline (encodePolyline (points.map Subtype.val)) = points.map Subtype.val) ∧
    (∀ points : List GeoPoint,
      decodePolyline (encodePolyline (points.map Subtype.val)) = points.map fun p ↦ p.1.rounded) ∧
    (∀ p : GeoPoint, ∃ latE5 lngE5 : ℤ, p.1.rounded = gridPoint latE5 lngE5 ∧ Nearest p.1.lat latE5 ∧
      Nearest p.1.lng lngE5) ∧
    (∀ (points : List GeoPoint) (n : ℕ),
      decodePolyline ((encodePolyline (points.map Subtype.val)).take n) <+: points.map fun p ↦ p.1.rounded) ∧
    ∀ steps : List (Option (List GridPoint)), (legPolyline (lines steps)).map decodePolyline =
      if (joined [] (steps.filterMap fun step ↦ step.map drawn)).length < 2 then none
      else some (joined [] (steps.filterMap fun step ↦ step.map drawn)) := by
  have hround : ∀ points : List GeoPoint,
      decodePolyline (encodePolyline (points.map Subtype.val)) = points.map fun p ↦ p.1.rounded := by
    intro points
    rw [decode_encode, List.map_map]
    · rfl
    · intro p hp
      obtain ⟨q, _, rfl⟩ := List.mem_map.mp hp
      exact q.2
  refine ⟨decode_encode_grid, hround, fun p ↦ ⟨_, _, rfl, scaled_nearest (p.2.abs_lat.trans (by norm_num)),
    scaled_nearest p.2.abs_lng⟩, fun points n ↦ ?_, decode_legPolyline⟩
  rw [← hround]
  exact decode_take _ n

end Towing.Routing
