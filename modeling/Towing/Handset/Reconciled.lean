import Towing.Handset.Agreement

namespace Towing.Handset

open Towing.Process Towing.Presence
open Towing.Money (Failure)

variable {distanceKm haversineMeters : GeoPoint → GeoPoint → ℚ} {s s' : System}
  {cs : List (Call Step System Failure)} {es : List (ℕ × Event Step System)} {i n : ℕ} {e : Event Step System}

/-- Numbers of two sessions never meet in the run. -/
def Apart (es : List (ℕ × Event Step System)) : Prop := ∀ x ∈ es, x.2.label.Same x.2.before

theorem justified_of_makes (h : Calls (Streams distanceKm haversineMeters) s cs s' es) (he : Makes es i n e) :
    Justified (own n (es.take i)) e.label := h.heeds_own (fun _ hp ↦ streams_justified hp) he

theorem run_of_makes (h : Calls (Streams distanceKm haversineMeters) s cs s' es) (he : Makes es i n e) :
    e.after = e.before.run e.label := h.commit_at he

/-- Nothing has been taken, and no number that is read is known to be of any session. -/
structure System.Fresh (s : System) : Prop where
  buffer : s.phone.buffer = []
  taken : s.taken = []
  dropped : s.dropped = 0
  applied : s.applied = []
  origin : ∀ d, s.origin d = none

theorem System.Fresh.ordered (h : s.Fresh) : Ordered s where
  short := by
    rw [h.buffer]
    exact Nat.zero_le _
  buffered := by
    rw [h.buffer]
    exact List.nil_sublist _
  dropped := by
    rw [h.dropped]
    exact Nat.zero_le _
  inOrder := by
    rw [h.taken]
    exact List.Pairwise.nil
  positive x hx := by
    rw [h.taken] at hx
    cases hx
  upTo x hx := by
    rw [h.taken] at hx
    cases hx

theorem System.Fresh.tracked (h : s.Fresh) : Tracked s := by
  intro d p session _ horigin
  rw [h.origin d] at horigin
  cases horigin

theorem System.Fresh.kept (h : s.Fresh) : Kept s := by
  intro pre x post htaken
  rw [h.taken] at htaken
  exact absurd htaken.symm (List.append_ne_nil_of_right_ne_nil _ (List.cons_ne_nil _ _))

section Run

variable (h : Calls (Streams distanceKm haversineMeters) s cs s' es) (hfresh : s.Fresh)

include h hfresh

theorem ordered_of_calls : Ordered s' ∧ ∀ j m f, Makes es j m f → Ordered f.before ∧ Ordered f.after := by
  refine h.kept hfresh.ordered fun j m f hf ho ↦ ?_
  rw [run_of_makes h hf]
  exact ordered_run ho _

theorem tracked_of_calls : Tracked s' ∧ ∀ j m f, Makes es j m f → Tracked f.before ∧ Tracked f.after := by
  refine h.kept hfresh.tracked fun j m f hf ht ↦ ?_
  rw [run_of_makes h hf]
  exact tracked_run ht _

omit hfresh in
/-- What has been applied or taken stays so. -/
theorem grows_later {j m : ℕ} {f : Event Step System} (hij : i < j) (he : Makes es i n e) (hf : Makes es j m f) :
    e.after.applied ⊆ f.before.applied ∧ e.before.taken ⊆ f.before.taken := by
  have hstep {k o : ℕ} {g : Event Step System} (hg : Makes es k o g) :
      g.before.applied ⊆ g.after.applied ∧ g.before.taken ⊆ g.after.taken := by
    rw [run_of_makes h hg]
    exact grows_run _ _
  have hgrows : e.after.applied ⊆ f.before.applied ∧ e.after.taken ⊆ f.before.taken := by
    refine h.chained.rel_after (R := fun s t : System ↦ s.applied ⊆ t.applied ∧ s.taken ⊆ t.taken)
      (fun _ ↦ ⟨List.Subset.refl _, List.Subset.refl _⟩)
      (fun _ _ _ h h' ↦ ⟨List.Subset.trans h.1 h'.1, List.Subset.trans h.2 h'.2⟩) (fun g hg ↦ ?_) hij he.event hf.event
    obtain ⟨k, hk⟩ := List.getElem?_of_mem hg
    obtain ⟨o, hg⟩ := makes_of_event hk
    exact hstep hg
  exact ⟨hgrows.1, List.Subset.trans (hstep he).2 hgrows.2⟩

variable (hsame : Apart es)

include hsame

/-- What a flush has sent has been taken, in the session that the flush is for. -/
theorem sent_taken (he : Makes es i n e) {batch : Batch} (hsent : Sent (own n (es.take i)) batch) {p : DriverLocationPing}
    (hp : p ∈ batch.fixes.map (·.ping)) : ⟨batch.session, p⟩ ∈ e.before.taken := by
  obtain ⟨f, hf, hlabel, hstarts⟩ := hsent
  obtain ⟨j, hji, hf⟩ := makes_of_own hf
  have hmeet := hsame _ (List.mem_of_getElem? hf)
  simp only [hlabel, Step.Same] at hmeet
  unfold Phone.starts at hstarts
  split_ifs at hstarts with hidle
  obtain rfl := Option.some.inj hstarts
  rw [Bool.or_eq_true, not_or, Option.not_isSome_iff_eq_none] at hidle
  obtain ⟨x, hx, rfl⟩ := List.mem_map.mp hp
  change x ∈ f.before.phone.buffer at hx
  have hsession : Batch.session ⟨f.before.phone.flushes, f.before.phone.driver, f.before.phone.buffer⟩ = x.session := by
    obtain ⟨first, rest, hbuffer⟩ := List.exists_cons_of_ne_nil (List.ne_nil_of_mem hx)
    have hfirst : first ∈ f.before.phone.buffer := by
      rw [hbuffer]
      exact List.mem_cons_self
    simp only [Batch.session, hbuffer, List.head?_cons, Option.map_some, Option.getD_some]
    exact hmeet hidle.1 first hfirst x hx
  rw [hsession]
  have hordered := ((ordered_of_calls h hfresh).2 j n f hf).1
  have htaken := (hordered.buffered.trans (List.drop_sublist _ _)).subset hx
  exact (grows_later h hji hf he).2 htaken

theorem applied_taken : s'.applied ⊆ s'.taken := by
  refine (h.kept (I := fun s ↦ s.applied ⊆ s.taken) ?_ fun j m f hf hsub ↦ ?_).1
  · rw [hfresh.applied]
    exact List.nil_subset _
  · have hgrows := (grows_run f.before f.label).2
    have hjustified := justified_of_makes h hf
    rw [run_of_makes h hf]
    cases hl : f.label with
    | server session l =>
      simp only [System.run]
      cases happlies : f.before.applies session l with
      | none => exact hsub
      | some dx =>
        obtain ⟨d, x⟩ := dx
        obtain ⟨hx, rfl, -⟩ := applies_iff.mp happlies
        refine List.append_subset.mpr ⟨hsub, List.cons_subset.mpr ⟨?_, List.nil_subset _⟩⟩
        rw [hl] at hjustified
        cases hjustified with
        | aside hl => cases hl
        | server hnot => exact absurd rfl (hnot d x.ping)
        | applyPing hsent hp => exact hx ▸ sent_taken h hfresh hsame hf hsent hp
    | enqueue location =>
      simp only [System.run]
      exact List.Subset.trans hsub (List.subset_append_left _ _)
    | startFlush =>
      simp only [System.run]
      cases f.before.phone.starts <;> exact hsub
    | acknowledge flush session seq =>
      simp only [System.run]
      split_ifs <;> exact hsub
    | failed flush =>
      simp only [System.run]
      split_ifs <;> exact hsub
    | _ => exact hsub

theorem clears_of_makes (he : Makes es i n e) : Clears e.before e.label := by
  have hjustified := justified_of_makes h he
  have hmeet := hsame _ (List.mem_of_getElem? he)
  cases hl : e.label with
  | acknowledge flush session seq =>
    intro hawaiting x hx hle
    rw [hl] at hjustified
    simp only [hl, Step.Same] at hmeet
    cases hjustified with
    | aside hl => cases hl
    | @acknowledge batch d _ hsent hanswered =>
      have hsession := hmeet hawaiting x hx hle
      have hordered := ((ordered_of_calls h hfresh).2 i n e he).1
      have hpositive := hordered.positive x ((hordered.buffered.trans (List.drop_sublist _ _)).subset hx)
      rcases hanswered with ⟨f, hf, p, hlabel, htakes, rfl⟩ | ⟨f, hf, hlabel, hseq⟩
      · obtain ⟨j, hji, hf⟩ := makes_of_own hf
        refine ⟨⟨batch.session, p⟩, (grows_later h hji hf he).1 ?_, hsession.symm, hle⟩
        rw [run_of_makes h hf, hlabel]
        simp only [System.run, System.applies, htakes, if_true]
        exact List.mem_concat_self
      · obtain ⟨j, hji, hf⟩ := makes_of_own hf
        have hnumber := hsame _ (List.mem_of_getElem? hf)
        simp only [hlabel, Step.Same] at hnumber
        cases hfix : f.before.server.fix d with
        | none =>
          simp only [Presence.World.currentSeq, hfix, Option.map_none, Option.getD_none] at hseq
          omega
        | some p =>
          have horigin := hnumber (by rw [hfix, Option.isSome_some])
          have happlied := ((tracked_of_calls h hfresh).2 j n f hf).1 d p batch.session hfix horigin
          refine ⟨⟨batch.session, p⟩, (grows_later h hji hf he).1 ?_, hsession.symm, ?_⟩
          · rw [run_of_makes h hf]
            exact (grows_run _ _).1 happlied
          · simp only [Presence.World.currentSeq, hfix, Option.map_some, Option.getD_some] at hseq
            exact hseq ▸ hle
  | _ => trivial

theorem kept_of_calls : Kept s' := by
  refine (h.kept hfresh.kept fun j m f hf hk ↦ ?_).1
  rw [run_of_makes h hf]
  exact kept_run hk ((ordered_of_calls h hfresh).2 j m f hf).1 _ (clears_of_makes h hfresh hsame hf)

end Run

end Towing.Handset
