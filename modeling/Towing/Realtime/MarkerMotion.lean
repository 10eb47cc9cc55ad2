import Towing.Realtime.Interpolation

namespace Towing.Realtime

/-! A marker over all the fixes that it is given. -/

variable {first fix : Fix} {fixes : List Fix}

theorem follow_concat (first : Fix) (fixes : List Fix) (fix : Fix) :
    follow first (fixes ++ [fix]) = retarget (some (follow first fixes)) fix.frame fix.atMs := List.foldl_concat ..

/-- The fixes since the last jump, or since the first. -/
def sinceJump (first : Fix) (fixes : List Fix) : List AnimatedFrame :=
  (fixes.foldl (fun (s : MotionTrack × List AnimatedFrame) fix ↦
    (retarget (some s.1) fix.frame fix.atMs, if jumped s.1 fix.frame then [fix.frame] else s.2 ++ [fix.frame]))
    (retarget none first.frame first.atMs, [first.frame])).2

theorem sinceJump_track (first : Fix) (fixes : List Fix) :
    (fixes.foldl (fun (s : MotionTrack × List AnimatedFrame) fix ↦
      (retarget (some s.1) fix.frame fix.atMs, if jumped s.1 fix.frame then [fix.frame] else s.2 ++ [fix.frame]))
      (retarget none first.frame first.atMs, [first.frame])).1 = follow first fixes := by
  induction fixes using List.reverseRecOn with
  | nil => rfl
  | append_singleton fixes fix ih => rw [List.foldl_concat, follow_concat, ih]

theorem sinceJump_concat (first : Fix) (fixes : List Fix) (fix : Fix) : sinceJump first (fixes ++ [fix]) =
    if jumped (follow first fixes) fix.frame then [fix.frame] else sinceJump first fixes ++ [fix.frame] := by
  rw [sinceJump, List.foldl_concat, sinceJump_track]
  rfl

/-- The point is in every box that the fixes are in. -/
def InBox (fixes : List AnimatedFrame) (lat lng : ℚ) : Prop :=
  ∀ south north west east, (∀ f ∈ fixes, (south ≤ f.lat ∧ f.lat ≤ north) ∧ west ≤ f.lng ∧ f.lng ≤ east) →
    (south ≤ lat ∧ lat ≤ north) ∧ west ≤ lng ∧ lng ≤ east

theorem inBox_of_mem {fixes : List AnimatedFrame} {f : AnimatedFrame} (h : f ∈ fixes) : InBox fixes f.lat f.lng :=
  fun _ _ _ _ hbox ↦ hbox f h

theorem InBox.mono {fixes others : List AnimatedFrame} {lat lng : ℚ} (h : InBox fixes lat lng)
    (hsub : ∀ f ∈ fixes, f ∈ others) : InBox others lat lng :=
  fun south north west east hbox ↦ h south north west east fun f hf ↦ hbox f (hsub f hf)

/-- Both ends of the tween are in the box. -/
structure Enclosed (fixes : List AnimatedFrame) (track : MotionTrack) : Prop where
  start : InBox fixes track.fromLat track.fromLng
  finish : InBox fixes track.toLat track.toLng

theorem Enclosed.frame {fixes : List AnimatedFrame} {track : MotionTrack} (h : Enclosed fixes track) (now : ℚ) :
    InBox fixes (frameFor track now).lat (frameFor track now).lng := by
  intro south north west east hbox
  obtain ⟨hlat, hlng⟩ := h.start south north west east hbox
  obtain ⟨hlat', hlng'⟩ := h.finish south north west east hbox
  obtain ⟨h0, h1⟩ := progress_bounds track now
  obtain ⟨he0, he1⟩ := easeOutCubic_bounds h0 h1
  exact ⟨between hlat hlat' he0 he1, between hlng hlng' he0 he1⟩

/-- Each tween stays in the box of the fixes since the last jump. -/
theorem follow_enclosed (first : Fix) (fixes : List Fix) : Enclosed (sinceJump first fixes) (follow first fixes) := by
  induction fixes using List.reverseRecOn with
  | nil =>
    have hmem : first.frame ∈ sinceJump first [] := List.mem_singleton_self _
    exact ⟨inBox_of_mem hmem, inBox_of_mem hmem⟩
  | append_singleton fixes fix ih =>
    rw [follow_concat, sinceJump_concat]
    cases hjumped : jumped (follow first fixes) fix.frame with
    | true =>
      have hmem : fix.frame ∈ [fix.frame] := List.mem_singleton_self _
      simp only [retarget, hjumped, if_true]
      exact ⟨inBox_of_mem hmem, inBox_of_mem hmem⟩
    | false =>
      have hmem : fix.frame ∈ sinceJump first fixes ++ [fix.frame] := List.mem_append_right _ (List.mem_singleton_self _)
      simp only [retarget, hjumped, Bool.false_eq_true, if_false]
      exact ⟨(ih.frame fix.atMs).mono fun f hf ↦ List.mem_append_left _ hf, inBox_of_mem hmem⟩

/-- Once settled, the marker is at the fix that it was given last. -/
structure SettledAt (track : MotionTrack) (last : Fix) (now : ℚ) : Prop where
  lat : (frameFor track now).lat = last.frame.lat
  lng : (frameFor track now).lng = last.frame.lng
  heading : ∃ k : ℤ, (frameFor track now).heading = last.frame.heading + 360 * k
  turned : |(frameFor track now).heading - (frameFor track last.atMs).heading| ≤ 180

theorem settled_seed (first : Fix) {now : ℚ} (h : first.atMs + TWEEN_MS ≤ now) :
    SettledAt (retarget none first.frame first.atMs) first now := by
  have hpos : (0 : ℚ) < TWEEN_MS := by norm_num [TWEEN_MS]
  have hstarted : (retarget none first.frame first.atMs).startedAt = first.atMs - TWEEN_MS := rfl
  have hnow := @frame_end (retarget none first.frame first.atMs) now (by rw [hstarted]; linarith)
  have hat := @frame_end (retarget none first.frame first.atMs) first.atMs (by rw [hstarted]; linarith)
  have harc := (shortestArc_spec first.frame.heading first.frame.heading).2.2
  refine ⟨by rw [hnow]; rfl, by rw [hnow]; rfl, ?_, ?_⟩
  · rw [hnow]
    exact harc
  · rw [hnow, hat, sub_self, abs_zero]
    norm_num

theorem settled_retarget (track : MotionTrack) (fix : Fix) {now : ℚ} (h : fix.atMs + TWEEN_MS ≤ now) :
    SettledAt (retarget (some track) fix.frame fix.atMs) fix now := by
  have hstarted : (retarget (some track) fix.frame fix.atMs).startedAt = fix.atMs := rfl
  have hnow := @frame_end (retarget (some track) fix.frame fix.atMs) now h
  have hat := frame_start (retarget (some track) fix.frame fix.atMs)
  rw [hstarted] at hat
  refine ⟨by rw [hnow]; rfl, by rw [hnow]; rfl, ?_, ?_⟩
  · rw [hnow]
    exact (shortestArc_spec _ _).2.2
  · rw [hat]
    exact frame_turned _ now

/-- The marker moves on from where it is, inside the box of its fixes, and settles at the last. -/
theorem motion_continuous (first : Fix) (fixes : List Fix) :
    (∀ fix : Fix, jumped (follow first fixes) fix.frame = false →
      frameFor (follow first (fixes ++ [fix])) fix.atMs = frameFor (follow first fixes) fix.atMs) ∧
    (∀ now, InBox (sinceJump first fixes) (frameFor (follow first fixes) now).lat (frameFor (follow first fixes) now).lng) ∧
    ∀ now, ((first :: fixes).getLast (List.cons_ne_nil _ _)).atMs + TWEEN_MS ≤ now →
      SettledAt (follow first fixes) ((first :: fixes).getLast (List.cons_ne_nil _ _)) now := by
  refine ⟨fun fix hjumped ↦ ?_, (follow_enclosed first fixes).frame, ?_⟩
  · rw [follow_concat]
    exact frame_retarget hjumped fix.atMs
  · induction fixes using List.reverseRecOn with
    | nil => exact fun now h ↦ settled_seed first h
    | append_singleton fixes fix ih =>
      have hlast : (first :: (fixes ++ [fix])).getLast (List.cons_ne_nil _ _) = fix := by
        rw [List.getLast_cons (by simp), List.getLast_append_singleton]
      rw [hlast, follow_concat]
      exact fun now h ↦ settled_retarget _ fix h

end Towing.Realtime
