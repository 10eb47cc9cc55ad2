import Towing.Trips.Shifts

namespace Towing.Trips

open Towing.Process Towing.Money

/-- The causes that come without a look at the status of their own. -/
def Cause.unguarded : Cause → Bool
  | .complete _ => true
  | .customerCancel _ => true
  | _ => false

/-- A completion by the driver, or a cancellation by the customer, that the state
machine lets through. -/
def Breaks (b : ℕ) (l : Step) (w : World) : Prop :=
  ∃ m, l = .move m ∧ m.bookingId = b ∧ m.cause.unguarded ∧ w.moveError m = none

/-- A disputed booking keeps its status, but for these. -/
def frozen (b : ℕ) : Contract Step World where
  inv w := w.status b = some .disputed
  rely _ _ := True
  cond l w := ¬Breaks b l w
  guar l w := (w.run l).status b = some .disputed

variable {env : Env} {w w₀ : World} {es : List (Event Step World)} {e : Event Step World} {b : ℕ}
  {l : Step} {r : Row} {α : Type}

theorem frozen_sound (b : ℕ) : (frozen b).Sound where
  refl _ := trivial
  inv_commit _ _ _ _ hg := hg
  trans _ _ _ _ _ := trivial
  rely_commit _ _ _ _ _ := trivial

theorem disputed_row (hs : w.status b = some .disputed) :
    ∃ r, w.row b = some r ∧ r.booking.status = .disputed := by
  cases hb : w.money.bookings b with
  | none => simp [World.status, hb] at hs
  | some r => exact ⟨⟨r, w.trips b⟩, by simp [World.row, hb], by simpa [World.status, hb] using hs⟩

/-- What the table lets a dispute end by. -/
theorem legal_from_disputed {s : BookingStatus} (h : s ∈ legalTransitions .disputed) :
    s = .completed ∨ s = .paid ∨ s = .cancelled := by
  simpa [legalTransitions] using h

/-- Of the moves that are made without a look, only those two end a dispute. -/
theorem frozen_step (h : Issued env (· ≠ b) l) (hs : w.status b = some .disputed)
    (hc : ¬Breaks b l w) : (w.run l).status b = some .disputed := by
  have hshift := World.shift_run (w := w) (b := b) h
  obtain ⟨r, hr, hst⟩ := disputed_row hs
  rw [World.core_status]
  generalize (w.run l).core b = o at hshift
  cases hshift with
  | same =>
    rw [← World.core_status]
    exact hs
  | create p discount couponId hnew => simp [hr] at hnew
  | reprice hl hr' hcompleted =>
    cases hr.symm.trans hr'
    rw [hst] at hcompleted
    cases hcompleted
  | paid hr' hl hg => exact absurd rfl hg
  | @move m r' hm hb hr' he hl =>
    cases hr.symm.trans hr'
    rw [hst] at hl
    have hend := legal_from_disputed hl
    cases hm with
    | complete d now waiting total => exact absurd ⟨_, rfl, hb, rfl, he⟩ hc
    | customerCancel reason i => exact absurd ⟨_, rfl, hb, rfl, he⟩ hc
    | adminCancel c reason i feeMode compensate terms ht hg => exact absurd hb hg
    | suspension c hg => exact absurd hb hg
    | completeByAdmin c now waiting total hg => exact absurd hb hg
    | _ => simp at hend
  | accept hr' ho hsearching =>
    cases hr.symm.trans hr'
    rw [hst] at hsearching
    cases hsearching
  | dispute hr' hl =>
    cases hr.symm.trans hr'
    rw [hst] at hl
    simp [legalTransitions] at hl

theorem meets_issued {p : Request α} {s : World} (h : p.Only (Issued env (· ≠ b))) :
    (frozen b).Meets (fun _ _ ↦ True) p s :=
  Contract.Meets.of_only h (fun _ _ hl hi hc _ ↦ ⟨frozen_step hl hi hc, trivial⟩)
    (fun _ _ _ _ ↦ trivial) trivial

/-! Those that look, find a dispute. -/

theorem meets_refused {p : Request α} {s : World} {β : Type} {f : α → Request β}
    (hp : (frozen b).Meets (fun r _ ↦ ∃ e, r = .error e) p s) :
    (frozen b).Meets (fun _ _ ↦ True) (p.bind f) s := by
  refine hp.bind (fun a t ha ↦ ?_) fun _ _ _ ↦ trivial
  obtain ⟨e, he⟩ := ha
  cases he

theorem meets_check {f : World → Except Failure α} {Q : Except Failure α → Prop} {s : World}
    (h : ∀ t, t.status b = some .disputed → Q (f t)) :
    (frozen b).Meets (fun r _ ↦ Q r) (check f) s :=
  fun t _ hi _ ↦ ⟨hi, h t hi⟩

theorem meets_looks {p : Request Unit} {s : World} (h : Looks env b p) :
    (frozen b).Meets (fun _ _ ↦ True) p s := by
  cases h with
  | adminCancel body =>
    refine Contract.Meets.ignore (meets_refused (meets_check fun t ht ↦ ?_))
    obtain ⟨r, hr, hs⟩ := disputed_row ht
    simp [hr, hs, AdminBookingsService.cancellable]
  | override target =>
    have hrow : (frozen b).Meets (fun x _ ↦ ∃ r, x = .ok r ∧ r.booking.status = .disputed)
        (AdminBookingsService.actionRow b) s := by
      refine meets_check fun t ht ↦ ?_
      obtain ⟨r, hr, hs⟩ := disputed_row ht
      exact ⟨r, by simp [hr], hs⟩
    refine hrow.bind (fun r t hr ↦ ?_) fun _ _ _ ↦ trivial
    obtain ⟨r', hr, hs⟩ := hr
    cases hr
    rw [Proc.bind_eq, hs, Proc.when_pos (by simp [AdminBookingsService.adminTransitionEdges])]
    trivial
  | suspension userId =>
    have hnone : (frozen b).Meets (fun x _ ↦ x = .ok none)
        (read fun w ↦ (w.row b).filter fun r ↦
          r.booking.userId = userId && r.booking.status = .searching) s := by
      intro t _ hi _
      obtain ⟨r, hr, hs⟩ := disputed_row hi
      exact ⟨hi, by simp [hr, hs]⟩
    refine hnone.bind (fun found t hfound ↦ ?_) fun _ _ _ ↦ trivial
    cases hfound
    trivial

/-! Those that settle, find the trip not completed. -/

def frozenMoney (b : ℕ) : Contract Money.Step Money.World where
  inv w := (w.bookings b).map (·.status) = some .disputed
  rely _ _ := True
  cond _ _ := True
  guar l w := ((w.run l).bookings b).map (·.status) = some .disputed

theorem frozenMoney_asks (b : ℕ) : AsksSettling (frozenMoney b) where
  still l w hl hi := by
    by_cases hf : l.table = .fares
    · rcases (Money.World.run_fares (w := w) hf).2 with hb | ⟨c, r, coupon, d, hr, hs, -, hb⟩
      · simpa [frozenMoney, hb] using hi
      · have hne : b ≠ c := by
          intro h
          subst h
          simp [frozenMoney, hr, hs] at hi
        simpa [frozenMoney, hb, hne] using hi
    · simpa [frozenMoney, Money.World.run_bookings hl hf] using hi
  settle c patch on w hseen hi := by
    have hne : b ≠ c := by
      intro h
      subst h
      obtain ⟨w', hi', hcompleted⟩ := hseen
      simp only [frozenMoney] at hi'
      rw [hi'] at hcompleted
      cases hcompleted
    have hstay : (w.run (.transition c .paid patch on)).bookings b = w.bookings b := by
      simp only [Money.World.run, Money.World.transition]
      split_ifs
      · rfl
      · simp [Money.World.updateBooking, hne]
    simpa [frozenMoney, hstay] using hi

theorem meets_pays {q : Money.Request Unit} {s : World} (h : Charges env.toEnv q) :
    (frozen b).Meets (fun _ _ ↦ True) (money q) s :=
  Contract.Meets.lift moneyEmbeds (charges_meets (frozenMoney_asks b) h) (fun _ _ _ ↦ trivial)
    (fun _ hi ↦ hi) (fun _ _ _ ↦ trivial) fun _ _ _ hg ↦ hg

theorem operates_frozen {p : Request Unit} (h : Operates env p) (s : World) :
    (frozen b).Meets (fun _ _ ↦ True) p s := by
  rcases operates_cases (· ≠ b) h with hp | ⟨c, hc, hp⟩ | ⟨q, hq, rfl⟩
  · exact meets_issued hp
  · obtain rfl : c = b := by simpa using hc
    exact meets_looks hp
  · exact meets_pays hq

theorem frozen_runs {ps : List (Request Unit)} (hs : w₀.status b = some .disputed)
    (h : Runs (Operates env) w₀ ps w es) (hc : ∀ e ∈ es, ¬Breaks b e.label e.before) :
    Throughout (fun _ w ↦ w.status b = some .disputed) es := by
  have hsafe := (Runs.safe (frozen_sound b) (fun p hp s _ ↦ operates_frozen hp s) hs h hc).2.1
  intro pre e post heq
  have he : e ∈ es := by simp [heq]
  rw [h.committed e he]
  exact (hsafe e he).2

theorem Breaks.ends (hissued : Issued env (fun _ ↦ True) l) (hb : Breaks b l w) :
    (w.run l).status b ≠ some .disputed := by
  obtain ⟨m, rfl, rfl, hcause, he⟩ := hb
  obtain ⟨r, -, -, hrow⟩ := World.move_row he
  have hm : Sanctioned env (fun _ ↦ True) m := by
    cases hissued with
    | move hm => exact hm
    | aside h => cases h
  have hstatus : (w.run (.move m)).status m.bookingId = some m.target := by
    have hcore : (w.run (.move m)).core m.bookingId = some (World.movedRow m r).core :=
      World.core_some hrow
    rw [World.core_status, hcore]
    cases hm <;> rfl
  rw [hstatus]
  cases hm with
  | complete | customerCancel => simp
  | _ => cases hcause

/-- A disputed booking stays disputed, whatever is begun on it, exactly as long as no
completion by its driver and no cancellation by its customer is let through. -/
theorem dispute_frozen_iff {ps : List (Request Unit)} (hs : w₀.status b = some .disputed)
    (h : Runs (Operates env) w₀ ps w es) :
    Throughout (fun _ w ↦ w.status b = some .disputed) es ↔
      ∀ e ∈ es, ¬Breaks b e.label e.before := by
  constructor
  · intro hstays e he hbreaks
    obtain ⟨pre, post, rfl⟩ := List.append_of_mem he
    have hissued := (Runs.only (fun p hp ↦ operates_only hp) h).1 e he
    have hafter : e.after = e.before.run e.label := h.committed e he
    exact hbreaks.ends hissued (hafter ▸ hstays pre e post rfl)
  · exact frozen_runs hs h

/-- A trip under way, and the dispute an operator opens on it. -/
def sampleDisputing : List (Request Unit) :=
  [JobExecutionService.markEnRoute 0 7, JobExecutionService.arrived 0 7,
    AdminBookingsService.transitionOverride 0 .inProgress, AdminDisputesService.openDispute 0]

theorem sampleDisputing_operates {p : Request Unit} (h : p ∈ sampleDisputing) :
    Operates sampleEnv p := by
  simp only [sampleDisputing, List.mem_cons, List.not_mem_nil, or_false] at h
  rcases h with rfl | rfl | rfl | rfl
  · exact .markEnRoute 0 7
  · exact .arrived 0 7
  · exact .override 0 .inProgress
  · exact .openDispute 0

def sampleDisputed : World := (runAll (sampleAssigned ++ sampleDisputing) World.blank).1

theorem sampleDisputed_status : sampleDisputed.status 0 = some .disputed := by
  decide +kernel

theorem dispute_frozen_iff_sample :
    Throughout (fun _ w ↦ w.status 0 = some .disputed)
      (runAll [BookingsService.retrySearch 1 0] sampleDisputed).2 ↔
    ∀ e ∈ (runAll [BookingsService.retrySearch 1 0] sampleDisputed).2, ¬Breaks 0 e.label e.before := by
  have hrun : Runs (Operates sampleEnv) sampleDisputed []
      (runAll [BookingsService.retrySearch 1 0] sampleDisputed).1
      (runAll [BookingsService.retrySearch 1 0] sampleDisputed).2 := by
    refine (Uncut.runAll (fun p hp ↦ ?_) .start).serial.runs
    cases List.mem_singleton.mp hp
    exact .retrySearch 1 0
  exact dispute_frozen_iff sampleDisputed_status hrun

/-- The driver ends the trip, and with it the dispute of it. -/
theorem completes_under_dispute : ¬∀ (env : Env) (w₀ w₁ w : World) (ps : List (Request Unit))
    (es₁ es : List (Event Step World)) (b : ℕ), (∀ b, w₀.row b = none) →
      Runs (Operates env) w₀ [] w₁ es₁ → w₁.status b = some .disputed →
      (∃ d ∈ w₁.disputes, d.bookingId = b ∧ d.resolution = none) →
      Runs (Operates env) w₁ ps w es → w.status b = some .disputed := by
  intro h
  have hrun : Runs (Operates sampleEnv) sampleDisputed []
      (runAll [JobExecutionService.complete 0 7] sampleDisputed).1
      (runAll [JobExecutionService.complete 0 7] sampleDisputed).2 := by
    refine (Uncut.runAll (fun p hp ↦ ?_) .start).serial.runs
    cases List.mem_singleton.mp hp
    exact .complete 0 7
  have hopen : ∃ d ∈ sampleDisputed.disputes, d.bookingId = 0 ∧ d.resolution = none := by
    decide +kernel
  have hfrozen := h sampleEnv World.blank sampleDisputed _ [] _ _ 0 (fun b ↦ rfl)
    (sampleAssigned_runs fun p hp ↦ sampleDisputing_operates hp) sampleDisputed_status hopen hrun
  have hcompleted : (runAll [JobExecutionService.complete 0 7] sampleDisputed).1.status 0 =
      some .completed := by
    decide +kernel
  rw [hcompleted] at hfrozen
  cases hfrozen

end Towing.Trips
