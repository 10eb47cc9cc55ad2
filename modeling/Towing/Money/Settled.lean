import Towing.Money.CollectingRequests

namespace Towing.Money

open Towing.Db Towing.Process World PaymentsService

variable {L : Law} {env : Env} {s w : World} {es : List (Event Step World)} {e : Event Step World}
  {b n : ℕ} {ps : List (Request Unit)}

/-- No payment has been opened yet, here or at the vendor. -/
structure Uncollected (w : World) : Prop where
  payments : w.payments = []
  orders : w.gateway.orders = []
  attempts : w.gateway.payments = []

theorem Uncollected.recorded (h : Uncollected s) : Recorded L s where
  numbered := by simp [World.Numbered, h.payments]
  rows := by simp [h.payments]
  orders := by simp [h.orders]
  attempts := by simp [h.attempts]

/-- The event that moves a booking from completed to paid. -/
structure MovesToPaid (e : Event Step World) (b : ℕ) : Prop where
  before : (e.before.bookings b).map (·.status) = some .completed
  after : (e.after.bookings b).map (·.status) = some .paid

theorem MovesToPaid.label (h : MovesToPaid e b) (he : e.after = e.before.run e.label) :
    ∃ patch why, e.label = .transition b .paid patch why := by
  obtain ⟨r, hr, hst⟩ := Option.map_eq_some_iff.mp h.before
  have hafter := h.after
  rw [he] at hafter
  by_cases hb : e.label.table = .bookings
  · cases hl : e.label with
    | transition c target patch why =>
      rw [hl, World.run, World.transition] at hafter
      split_ifs at hafter
      · rw [h.before] at hafter
        cases hafter
      · by_cases hc : b = c
        · subst hc
          simp only [World.updateBooking, Function.update_self, hr, Option.map_some, applyPatch,
            Option.some.injEq] at hafter
          cases hafter
          exact ⟨patch, why, rfl⟩
        · simp only [World.updateBooking, Function.update_of_ne hc] at hafter
          rw [h.before] at hafter
          cases hafter
    | placeBooking c x =>
      rw [hl, World.run] at hafter
      split_ifs at hafter with hs
      · rw [h.before] at hafter
        cases hafter
      · have hc : b ≠ c := by
          rintro rfl
          simp [hr] at hs
        simp only [Function.update_of_ne hc] at hafter
        rw [h.before] at hafter
        cases hafter
    | _ =>
      rw [hl] at hb
      cases hb
  · by_cases hf : e.label.table = .fares
    · rcases (World.run_fares (w := e.before) hf).2 with heq | ⟨c, x, cp, d, hx, hxs, -, heq⟩
      · rw [heq, h.before] at hafter
        cases hafter
      · rw [heq] at hafter
        by_cases hc : b = c
        · subst hc
          simp [reprice, hxs] at hafter
        · rw [Function.update_of_ne hc, h.before] at hafter
          cases hafter
    · rw [World.run_bookings hb hf, h.before] at hafter
      cases hafter

theorem MovesToPaid.not_cancelled (h : MovesToPaid e b) : ¬e.before.cancelled b := by
  intro hc
  rw [World.cancelled, h.before] at hc
  cases hc

instance (e : Event Step World) (b : ℕ) : Decidable (MovesToPaid e b) :=
  decidable_of_iff (_ ∧ _) ⟨fun h ↦ ⟨h.1, h.2⟩, fun h ↦ ⟨h.1, h.2⟩⟩

/-- The booking a step marks paid, for which settlement, on which row. -/
def settlement : Step → Option (ℕ × Settling × Option ℕ)
  | .transition b .paid _ (some (on, basis)) => some (b, on, basis)
  | _ => none

/-- The settlement a booking's move to paid belongs to, and the row it was based on. -/
def Settled (e : Event Step World) (b : ℕ) (on : Settling) (basis : Option ℕ) : Prop :=
  MovesToPaid e b ∧ settlement e.label = some (b, on, basis)

instance (e : Event Step World) (b : ℕ) (on : Settling) (basis : Option ℕ) :
    Decidable (Settled e b on basis) := inferInstanceAs (Decidable (_ ∧ _))

/-- The money a settlement looks up in a step. -/
def Step.lookup : Step → Option (Ref × Settling)
  | .select (.capturedRow ref on) => some (ref, on)
  | _ => none

/-- The money a cancellation-fee capture records in a step, and on which row. -/
def Step.feeCapture : Step → Option (Ref × ℕ)
  | .markCaptured id (some ref) _ none => some (ref, id)
  | _ => none

/-- A step that looks nothing up and captures no fee. -/
theorem lawful_iff_of_none {l : Step} (hlawful : Lawful L l w) (hlookup : l.lookup = none)
    (hfee : l.feeCapture = none) : Lawful L l w ↔
    (∀ x ∈ l.lookup, ∀ k ∈ w.refKind x.1,
      L.admits x.2 k (decide (w.cancelled x.2.bookingId))) ∧
      ∀ x ∈ l.feeCapture, ∀ k ∈ w.refKind x.1, ∀ row ∈ w.payment x.2, L.fits k row.kind := by
  simp [hlawful, hlookup, hfee]

theorem lawful_iff (l : Step) (w : World) : Lawful L l w ↔
    (∀ x ∈ l.lookup, ∀ k ∈ w.refKind x.1,
      L.admits x.2 k (decide (w.cancelled x.2.bookingId))) ∧
      ∀ x ∈ l.feeCapture, ∀ k ∈ w.refKind x.1, ∀ row ∈ w.payment x.2, L.fits k row.kind := by
  cases l with
  | select q =>
    cases q with
    | capturedRow ref on => simp [Lawful, Step.lookup, Step.feeCapture]
    | _ => exact lawful_iff_of_none trivial rfl rfl
  | markCaptured id ref method on =>
    cases ref <;> cases on <;> simp [Lawful, Step.lookup, Step.feeCapture]
    grind
  | _ => exact lawful_iff_of_none trivial rfl rfl

instance [∀ k d, Decidable (L.fits k d)] [∀ on k c, Decidable (L.admits on k c)] (l : Step)
    (w : World) : Decidable (Lawful L l w) :=
  decidable_of_iff _ (lawful_iff l w).symm

/-- In every run whose lookups and fee captures obey `L`, a booking moves to paid
only on a row that `L` allows. -/
theorem moves_settle (h₀ : Uncollected s) (h : Runs (Collects env) s ps w es)
    (hcond : ∀ e ∈ es, Lawful L e.label e.before) :
    (∀ e ∈ es, Recorded L e.before ∧ Grows e.before w) ∧
      ∀ e ∈ es, ∀ b, MovesToPaid e b → ∃ on basis, Settled e b on basis ∧
        (∃ ref k, on.handle.gatewayRef = some ref ∧ e.before.refKind ref = some k ∧
          L.fits k (b, .booking)) ∧
        on.bookingId = b ∧ ∀ id, basis = some id → ∃ row, e.before.payment id = some row ∧
          row.status = .captured ∧ L.good on row.kind := by
  obtain ⟨-, hes, -⟩ := h.safe (collecting_sound L) (fun p hp s hs ↦ collects_keeps hp hs)
    h₀.recorded hcond
  have hgrow : ∀ e ∈ es, Grows e.before e.after := fun e he ↦ by
    rw [h.committed e he]
    exact CollectStep.grows (hes e he).2
  refine ⟨fun e he ↦ ⟨(hes e he).1, ?_⟩, fun e he b hm ↦ ?_⟩
  · have hlast := h.chained.rel_last Grows.refl (fun _ _ _ ↦ Grows.trans) hgrow e he
    exact (hgrow e he).trans hlast
  · obtain ⟨patch, why, hl⟩ := hm.label (h.committed e he)
    have hg : CollectStep L e.label e.before := (hes e he).2
    rw [hl] at hg
    cases hg with
    | transition hpaid =>
      obtain ⟨on, basis, rfl, hon, href, hgood⟩ := hpaid rfl
      refine ⟨on, basis, ⟨hm, ?_⟩, href, hon, hgood.resolve_left hm.not_cancelled⟩
      rw [hl]
      rfl
    | other hp ho ht => exact absurd rfl (ht b .paid patch why)

/-- The row a settlement was based on, as it stood then. -/
def basisRow (e : Event Step World) : Option PaymentRow :=
  match settlement e.label with
  | some (_, _, some id) => e.before.payment id
  | _ => none

theorem uncollected_blank : Uncollected World.blank := ⟨rfl, rfl, rfl⟩

theorem runAll_uncut {qs : List (Request Unit)} (s : World) (h : ∀ q ∈ qs, Collects env q) :
    Uncut (Collects env) s (runAll qs s).1 (runAll qs s).2 := by
  simpa using Uncut.start.runAll h

/-- A trip of customer 7, driven by driver 3. -/
def sampleTrip (status : BookingStatus) : Booking where
  userId := 7
  status := status
  driverId := some 3
  total := 1000
  commissionBand := some .A

def referralReward : LedgerLeg LedgerKey where
  owner := ⟨.user, 7⟩
  type := .adjustment
  amountPaise := .int 400
  reason := "Referral reward"
  refId := none
  idempotencyKey := .other 0

end Towing.Money
