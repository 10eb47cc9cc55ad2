import Towing.Trips.Shifts

namespace Towing.Trips

open Towing.Process Towing.Money BookingsService

variable {env : Env} {w : World} {b : ℕ} {r : Row}

/-- What a customer's cancellation reads of a row. -/
def CancellationInputs.of (r : Booking) (couponId : Option ℕ) (now : ℕ) : CancellationInputs :=
  ⟨r.status, r.createdAt, r.baseFare, r.driverId, couponId, now⟩

theorem bookingError_of_row (h : rowError r = none) : Money.World.bookingError r.booking = none := by
  unfold rowError at h
  cases hb : Money.World.bookingError r.booking with
  | none => rfl
  | some e => simp [hb] at h

/-- Nothing but the table and the row's own checks stands against a cancellation. -/
theorem moveError_cancelled {m : Move} (ht : m.target = .cancelled) (hr : w.row m.bookingId = some r)
    (hl : .cancelled ∈ legalTransitions r.booking.status) (he : rowError r = none)
    (hmoved : rowError (World.movedRow m r) = none)
    (hs : (World.movedRow m r).booking.status = .cancelled) : w.moveError m = none := by
  have hbook : w.money.bookings m.bookingId = some r.booking := by
    cases hb : w.money.bookings m.bookingId with
    | none => simp [World.row, hb] at hr
    | some x =>
      simp only [World.row, hb, Option.map_some, Option.some.injEq] at hr
      rw [← hr]
  have htransition : w.money.transitionError m.bookingId m.target {} = none := by
    rw [ht]
    simp [Money.World.transitionError, hbook, isLegal, hl]
    exact bookingError_of_row he
  have hclash : w.clash m.bookingId (World.movedRow m r) = none := by
    simp [World.clash, activeForUser, activeForDriver, hs]
  simp [World.moveError, htransition, hr, World.storeError, hmoved, hclash]

theorem rowError_cancellation {m : Move} {cancelledBy : String} {reason : Option String} {fee comp : ℤ}
    (he : rowError r = none) (hp : m.patch = .cancellation cancelledBy reason fee comp)
    (hfee : 0 ≤ fee) (hcomp : 0 ≤ comp) : rowError (World.movedRow m r) = none := by
  have hbook := bookingError_of_row he
  have htax : 0 ≤ r.booking.taxAmount := by
    by_contra hneg
    simp [rowError, hbook, show r.booking.taxAmount < 0 by omega] at he
  have hmoved : Money.World.bookingError { r.booking with status := m.target } = none := hbook
  simp [rowError, World.movedRow, Patch.apply, hp, hmoved, htax, hfee, hcomp]

theorem cancellationFor_next {β : Type} {g : CancellationInputs → Request β} (hr : w.row b = some r) :
    ((cancellationFor r.booking.userId b).bind g).exec w =
      (g (.of r.booking none w.now)).exec w :=
  check_next (by simp [hr, CancellationInputs.of])

/-- What follows a cancellation writes no booking. -/
theorem afterCancel_alone (compensationPaise : ℤ) (reason : String) (w : World) :
    ∃ w', (afterCancel b none compensationPaise reason).exec w = (.ok (), w') ∧ w'.money = w.money := by
  refine ⟨_, ?_, enqueue_money (.revoke b) (.revoke b .cancelled none) 0 w⟩
  rw [afterCancel]
  simp only [Proc.pure_eq, Proc.bind_eq]
  rw [Proc.exec_next (besteffort_ok _ w)]
  rfl

end Towing.Trips
