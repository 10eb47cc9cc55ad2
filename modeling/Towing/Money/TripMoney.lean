import Towing.Money.OnePayment

namespace Towing.Money

open Towing.Db Towing.Process World PaymentsService

variable {env : Env} {s w : World} {es : List (Event Step World)} {ps : List (Request Unit)}

/-- A trip is paid with trip money: a settlement looks up a trip's order unless
the trip has been cancelled, and a fee's row takes a fee's order. -/
def tripMoney : Law where
  fits k d := k.2 = .booking → d.2 = .booking
  knows _ _ := True
  admits _ k cancelled := cancelled = false → k.2 = .booking
  good _ d := d.2 = .booking
  fits_refl _ h := h
  knows_of_fits _ _ _ := trivial
  fits_own _ _ _ _ _ _ := rfl
  good_of_fits _ _ _ _ h hfit := hfit (h rfl)
  good_own _ := rfl

instance (k d : Kind) : Decidable (tripMoney.fits k d) := inferInstanceAs (Decidable (_ → _))

instance (on : Settling) (k : Kind) (c : Bool) : Decidable (tripMoney.admits on k c) :=
  inferInstanceAs (Decidable (_ → _))

theorem paid_by_trip_money (h₀ : Uncollected s) (h : Runs (Collects env) s ps w es)
    (hcond : ∀ e ∈ es, Lawful tripMoney e.label e.before) :
    ∀ e ∈ es, ∀ b, MovesToPaid e b → ∃ on basis, Settled e b on basis ∧
      (Uncut (Collects env) s w es → basis.isSome) ∧ ∀ id, basis = some id →
        ∃ row, e.before.payment id = some row ∧ row.status = .captured ∧
          row.purpose = .booking := by
  intro e he b hm
  obtain ⟨on, basis, hset, -, -, hrow⟩ := (moves_settle h₀ h hcond).2 e he b hm
  exact ⟨on, basis, hset, fun hu ↦ h₀.basis hu he hset, hrow⟩

/-- The customer is asked for the cancellation fee and lets the trip go on. -/
def abandonedCancellation : List (Request Unit) :=
  [Proc.write (.placeBooking 1 { sampleTrip .enRoute with baseFare := 500 }),
    (createIntent sampleEnv 1 7 .cancellationFee "fee").ignore,
    Proc.write (.transition 1 .arrived {} none),
    Proc.write (.transition 1 .inProgress {} none),
    Proc.write (.transition 1 .completed {} none)]

/-- The trip is then paid for. -/
def paidTripAnyway : List (Request Unit) :=
  abandonedCancellation ++
    [(createIntent sampleEnv 1 7 .booking "trip").ignore,
      Proc.write (.gatewayAttempt ⟨1, .captured, some .upi, none⟩),
      (capture sampleEnv 1 7 (checkout 0 1)).ignore]

/-- The vendor's word that attempt `n` collected order `o`, opened for row `o` of trip `b`. -/
def capturedEvent (n o b : ℕ) (amountPaise : ℤ) : PaymentWebhookEvent where
  eventId := "evt_" ++ toString n
  gatewayRef := some (.pay n)
  orderRef := some (.order o)
  paymentId := some o
  bookingId := some b
  status := .captured
  amountPaise := some amountPaise
  method := some .upi
  failureReason := none

/-- The fee's order, still open in the checkout, is paid instead. -/
def paidFeeInstead : List (Request Unit) :=
  abandonedCancellation ++
    [Proc.write (.gatewayAttempt ⟨0, .captured, some .upi, none⟩),
      WebhooksController.razorpay sampleEnv (capturedEvent 0 0 1 500)]

theorem abandonedCancellation_collects : ∀ q ∈ abandonedCancellation, Collects sampleEnv q := by
  simp only [abandonedCancellation, List.forall_mem_cons, List.not_mem_nil, false_imp_iff,
    forall_true_iff, and_true]
  exact ⟨.ambient _ rfl, .createIntent _ _ _ _, .ambient _ rfl, .ambient _ rfl, .ambient _ rfl⟩

theorem paidTripAnyway_collects : ∀ q ∈ paidTripAnyway, Collects sampleEnv q := by
  rw [paidTripAnyway, List.forall_mem_append]
  refine ⟨abandonedCancellation_collects, ?_⟩
  simp only [List.forall_mem_cons, List.not_mem_nil, false_imp_iff, forall_true_iff, and_true]
  exact ⟨.createIntent _ _ _ _, .ambient _ rfl, .capture _ _ _⟩

theorem paidFeeInstead_collects : ∀ q ∈ paidFeeInstead, Collects sampleEnv q := by
  rw [paidFeeInstead, List.forall_mem_append]
  refine ⟨abandonedCancellation_collects, ?_⟩
  simp only [List.forall_mem_cons, List.not_mem_nil, false_imp_iff, forall_true_iff, and_true]
  exact ⟨.ambient _ rfl, .webhook _⟩

theorem paid_by_trip_money_sample :
    (∃ e ∈ (runAll paidTripAnyway World.blank).2, MovesToPaid e 1) ∧
      ∀ e ∈ (runAll paidTripAnyway World.blank).2, ∀ b, MovesToPaid e b → ∃ on basis,
        Settled e b on basis ∧ basis.isSome ∧ ∀ id, basis = some id →
          ∃ row, e.before.payment id = some row ∧ row.status = .captured ∧
            row.purpose = .booking := by
  have h := runAll_uncut World.blank paidTripAnyway_collects
  refine ⟨by decide +kernel, fun e he b hm ↦ ?_⟩
  obtain ⟨on, basis, hset, hsome, hrow⟩ := paid_by_trip_money uncollected_blank h.serial.runs
    (by decide +kernel) e he b hm
  exact ⟨on, basis, hset, hsome h, hrow⟩

theorem trip_paid_by_fee : ∃ w es, Uncut (Collects sampleEnv) World.blank w es ∧
    ∃ e ∈ es, MovesToPaid e 1 ∧
      (basisRow e).map (fun row ↦ (row.status, row.purpose)) =
        some (.captured, .cancellationFee) := by
  refine ⟨_, _, runAll_uncut World.blank paidFeeInstead_collects, ?_⟩
  decide +kernel

end Towing.Money
