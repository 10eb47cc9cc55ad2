import Towing.Money.SequentialRequests

namespace Towing.Money

open Towing.Db Towing.Process World PaymentsService

variable {env : Env} {s w : World} {es : List (Event Step World)} {e : Event Step World}
  {b n : ℕ} {ps : List (Request Unit)}

/-- Money stays with the booking whose order collected it. Only a capture at the
route can bring another booking's. -/
def ownBooking : Law where
  fits k d := k.1 = d.1
  knows k b := k.1 = b
  admits on k _ := on.channel = .route → k.1 = on.bookingId
  good on d := d.1 = on.bookingId
  fits_refl _ := rfl
  knows_of_fits _ _ h := h
  fits_own on k c h h' := by
    by_cases hr : on.channel = .route
    · exact h' hr
    · exact h hr
  good_of_fits on k d h h' hfit := by
    by_cases hr : on.channel = .route
    · exact hfit.symm.trans (h' hr)
    · exact hfit.symm.trans (h hr)
  good_own _ := rfl

/-- The vendor's payment a booking was settled on: the one the settlement looked
up, or the one on the row it was based on. -/
def BasedOn (e : Event Step World) (b n : ℕ) : Prop :=
  ∃ on basis, Settled e b on basis ∧
    (on.handle.gatewayRef = some (.pay n) ∨
      ∃ id row, basis = some id ∧ e.before.payment id = some row ∧ row.gatewayRef = some (.pay n))

theorem one_booking_per_payment (h₀ : Uncollected s) (h : Runs (Collects env) s ps w es)
    (hcond : ∀ e ∈ es, Lawful ownBooking e.label e.before) :
    (∀ e ∈ es, ∀ b, MovesToPaid e b → ∃ on basis, Settled e b on basis ∧
      (Uncut (Collects env) s w es → basis.isSome) ∧ ∀ id, basis = some id →
        ∃ row, e.before.payment id = some row ∧ row.status = .captured ∧ row.bookingId = b) ∧
      ∀ e ∈ es, ∀ e' ∈ es, ∀ b b' n, BasedOn e b n → BasedOn e' b' n → b = b' := by
  obtain ⟨hrec, hmoves⟩ := moves_settle h₀ h hcond
  have hfirst : ∀ e ∈ es, ∀ b, MovesToPaid e b → ∃ on basis, Settled e b on basis ∧
      (∃ ref k, on.handle.gatewayRef = some ref ∧ e.before.refKind ref = some k ∧ k.1 = b) ∧
      ∀ id, basis = some id →
        ∃ row, e.before.payment id = some row ∧ row.status = .captured ∧ row.bookingId = b := by
    intro e he b hm
    obtain ⟨on, basis, hset, href, rfl, hrow⟩ := hmoves e he b hm
    exact ⟨on, basis, hset, href, hrow⟩
  have hkind : ∀ e ∈ es, ∀ b n, BasedOn e b n → ∃ k, w.refKind (.pay n) = some k ∧ k.1 = b := by
    rintro e he b n ⟨on, basis, ⟨hm, hl⟩, hn⟩
    obtain ⟨hr, hgrow⟩ := hrec e he
    obtain ⟨on', basis', ⟨-, hl'⟩, ⟨ref, k, href, hk, hkb⟩, hrow⟩ := hfirst e he b hm
    cases hl.symm.trans hl'
    rcases hn with hn | ⟨id, row, rfl, hid, hn⟩
    · cases href.symm.trans hn
      exact ⟨k, hgrow.refKind hk, hkb⟩
    · obtain ⟨row', hrow', -, hb⟩ := hrow id rfl
      cases hid.symm.trans hrow'
      obtain ⟨k', hk', hfit⟩ := (hr.rows row (World.mem_of_payment hid).1).gatewayRef _ hn
      exact ⟨k', hgrow.refKind hk', hfit.trans hb⟩
  refine ⟨fun e he b hm ↦ ?_, fun e he e' he' b b' n hb hb' ↦ ?_⟩
  · obtain ⟨on, basis, hset, -, hrow⟩ := hfirst e he b hm
    exact ⟨on, basis, hset, fun hu ↦ h₀.basis hu he hset, hrow⟩
  · obtain ⟨k, hk, rfl⟩ := hkind e he b n hb
    obtain ⟨k', hk', rfl⟩ := hkind e' he' b' n hb'
    rw [Option.some.inj (hk.symm.trans hk')]

/-- The references the vendor's checkout hands back for payment `n` of order `o`. -/
def checkout (n o : ℕ) : PaymentCaptureRequest := ⟨.pay n, .order o, ⟨.order o, .pay n⟩⟩

/-- The customer pays for trip 1 in the app. -/
def paidCheckout : List (Request Unit) :=
  [Proc.write (.placeBooking 1 (sampleTrip .completed)),
    Proc.write (.placeBooking 2 (sampleTrip .completed)),
    (createIntent sampleEnv 1 7 .booking "a").ignore,
    Proc.write (.gatewayAttempt ⟨0, .captured, some .upi, none⟩),
    (capture sampleEnv 1 7 (checkout 0 0)).ignore]

/-- And shows the same references for trip 2, which costs as much. -/
def replayedCheckout : List (Request Unit) :=
  paidCheckout ++ [(capture sampleEnv 2 7 (checkout 0 0)).ignore]

theorem paidCheckout_collects : ∀ q ∈ paidCheckout, Collects sampleEnv q := by
  simp only [paidCheckout, List.forall_mem_cons, List.not_mem_nil, false_imp_iff,
    forall_true_iff, and_true]
  exact ⟨.ambient _ rfl, .ambient _ rfl, .createIntent _ _ _ _, .ambient _ rfl, .capture _ _ _⟩

theorem replayedCheckout_collects : ∀ q ∈ replayedCheckout, Collects sampleEnv q := by
  rw [replayedCheckout, List.forall_mem_append]
  exact ⟨paidCheckout_collects, by simpa using .capture _ _ _⟩

instance (k d : Kind) : Decidable (ownBooking.fits k d) := inferInstanceAs (Decidable (_ = _))

instance (on : Settling) (k : Kind) (c : Bool) : Decidable (ownBooking.admits on k c) :=
  inferInstanceAs (Decidable (_ → _))

theorem one_booking_per_payment_sample :
    (∃ e ∈ (runAll paidCheckout World.blank).2, MovesToPaid e 1) ∧
      ∀ e ∈ (runAll paidCheckout World.blank).2, ∀ b, MovesToPaid e b → ∃ on basis,
        Settled e b on basis ∧ basis.isSome ∧ ∀ id, basis = some id →
          ∃ row, e.before.payment id = some row ∧ row.status = .captured ∧ row.bookingId = b := by
  have h := runAll_uncut World.blank paidCheckout_collects
  refine ⟨by decide +kernel, fun e he b hm ↦ ?_⟩
  obtain ⟨on, basis, hset, hsome, hrow⟩ := (one_booking_per_payment uncollected_blank h.serial.runs
    (by decide +kernel)).1 e he b hm
  exact ⟨on, basis, hset, hsome h, hrow⟩

theorem checkout_settles_twice : ∃ w es, Uncut (Collects sampleEnv) World.blank w es ∧
    (∃ e ∈ es, MovesToPaid e 1 ∧
      (basisRow e).map (fun row ↦ (row.bookingId, row.gatewayRef)) = some (1, some (.pay 0))) ∧
      ∃ e ∈ es, MovesToPaid e 2 ∧
        (basisRow e).map (fun row ↦ (row.bookingId, row.gatewayRef)) = some (1, some (.pay 0)) := by
  refine ⟨_, _, runAll_uncut World.blank replayedCheckout_collects, ?_⟩
  decide +kernel

end Towing.Money
