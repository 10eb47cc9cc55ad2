import Towing.Money.Tables

namespace Towing.Money

open Towing.Arith

def discountFor (coupon : Coupon) (subtotalPaise : ℤ) : ℤ :=
  let raw := match coupon.kind with
    | .percent => percentOf subtotalPaise (Pct.number coupon.value)
    | .flat => coupon.value
  let capped := match coupon.maxDiscount with
    | none => raw
    | some cap => min raw cap
  max 0 (min capped subtotalPaise)

def couponInvalid (reason : String) : Failure :=
  .api ⟨422, "coupon_invalid", "That coupon cannot be applied to this booking", [("reason", reason)]⟩

/-- The taxable amount before any coupon. -/
def preDiscountTaxable (b : Booking) : ℤ := b.total - b.taxAmount + b.discount

/-- The fare under a new discount, as `bookings.service.ts` prices it at confirm. -/
def reprice (b : Booking) (couponId : Option ℕ) (discount : ℤ) : Booking :=
  let taxable := preDiscountTaxable b - discount
  let tax := percentOf taxable b.taxPct.number
  { b with
    discount := discount
    taxAmount := tax
    total := taxable + tax
    couponId := couponId }

namespace World

variable (w : World)

def releaseForBooking (bookingId : ℕ) : World :=
  let kept := w.redemptions.filter (·.bookingId ≠ bookingId)
  match w.redemptions.find? (·.bookingId = bookingId) with
  | none => w
  | some released =>
    { w with
      redemptions := kept
      coupons := w.coupons.modify released.couponId fun c ↦ { c with usedCount := c.usedCount - 1 } }

def rejectionFor (id : ℕ) (coupon : Coupon) (userId : ℕ) (subtotalPaise : ℤ) : Option String :=
  if coupon.startsAt.any (w.now < ·) then some "not_started"
  else if coupon.expiresAt.any (· < w.now) then some "expired"
  else if subtotalPaise < coupon.minOrder then some "below_min_order"
  else if coupon.maxUsesPerUser ≤
      (w.redemptions.filter fun r ↦ r.couponId = id && r.userId = userId).length then
    some "already_used"
  else if coupon.maxUses.any (· ≤ coupon.usedCount) then some "usage_limit_reached"
  else none

/-- The code's coupon claimed for the booking, with what it takes off. -/
def applyInTransaction (userId bookingId : ℕ) (code : String) (subtotalPaise : ℤ) :
    Except Failure (ℕ × ℤ × World) :=
  match w.coupons.findIdx? fun c ↦ c.code.toUpper = code.toUpper with
  | none => .error (couponInvalid "invalid")
  | some id =>
    match w.coupons[id]? with
    | none => .error (couponInvalid "invalid")
    | some coupon =>
      if !coupon.isActive then .error (couponInvalid "invalid")
      else match w.rejectionFor id coupon userId subtotalPaise with
        | some reason => .error (couponInvalid reason)
        | none =>
          let discount := discountFor coupon subtotalPaise
          if discount ≤ 0 then .error (couponInvalid "below_min_order")
          else if coupon.maxUses.any (· ≤ coupon.usedCount) then
            .error (.api ⟨422, "coupon_exhausted", "That coupon was just used up", []⟩)
          else .ok (id, discount,
            { w with
              coupons := w.coupons.modify id fun c ↦ { c with usedCount := c.usedCount + 1 }
              redemptions := w.redemptions ++ [⟨id, userId, bookingId, discount⟩] })

/-- The booking, if its fare may still change. -/
def lockPayable (bookingId userId : ℕ) : Except Failure Booking :=
  match w.bookings bookingId with
  | none => .error (.api (.notFound "Booking not found"))
  | some b =>
    if b.userId ≠ userId then .error (.api (.notFound "Booking not found"))
    else if b.status ≠ .completed ∨ (w.capturedFor bookingId .booking).isSome then
      .error (.api (.conflict "A coupon can only be changed before the trip is paid"
        [("status", b.status.label)]))
    else .ok b

def storeBooking (bookingId : ℕ) (b : Booking) : Except Failure World :=
  match bookingError b with
  | some e => .error e
  | none => .ok (w.updateBooking bookingId fun _ ↦ b)

/-- The transaction of `PaymentCouponService.apply`. -/
def applyCoupon (bookingId userId : ℕ) (code : String) : Except Failure World := do
  let b ← w.lockPayable bookingId userId
  let released := if b.couponId.isSome then w.releaseForBooking bookingId else w
  let (couponId, discount, claimed) ←
    released.applyInTransaction userId bookingId code (preDiscountTaxable b)
  claimed.storeBooking bookingId (reprice b (some couponId) discount)

/-- The transaction of `PaymentCouponService.remove`. -/
def removeCoupon (bookingId userId : ℕ) : Except Failure World := do
  let b ← w.lockPayable bookingId userId
  let released := if b.couponId.isSome then w.releaseForBooking bookingId else w
  released.storeBooking bookingId (reprice b none 0)

end World

end Towing.Money
