import Towing.Process.ReadCommitted
import Towing.Money.Coupons

namespace Towing.Money

open Towing.Process Towing.Arith

/-- The statements of the transactions that take and return coupons. A `DELETE` scans,
then locks and rechecks the row it found. -/
inductive CouponStatement
  | clock
  | selectForUpdate (b : ℕ)
  | selectCaptured (b : ℕ)
  | selectCoupon (code : String)
  | countRedemptions (id userId : ℕ)
  | selectUsedCount (id : ℕ)
  | claimCoupon (id : ℕ)
  | insertRedemption (r : CouponRedemption)
  | scanRedemptions (b : ℕ)
  | deleteRedemption (r : CouponRedemption)
  | returnCoupon (id : ℕ)
  | insertBooking (b : ℕ) (row : Booking)
  | updateBooking (b : ℕ) (patch : Booking → Booking)
  | elsewhere (payments : List PaymentRow) (now : ℕ)

def Coupon.exhausted (k : Coupon) : Bool := k.maxUses.any (· ≤ k.usedCount)

def Coupon.claim (k : Coupon) : Coupon :=
  if k.isActive && !k.exhausted then { k with usedCount := k.usedCount + 1 } else k

def Coupon.giveBack (k : Coupon) : Coupon :=
  if 0 < k.usedCount then { k with usedCount := k.usedCount - 1 } else k

namespace World

variable (w : World)

/-- The redemptions of a booking, of which the unique index allows one. -/
def redemptionsOf (b : ℕ) : List CouponRedemption := w.redemptions.filter (·.bookingId = b)

def claimable (id : ℕ) : Bool := w.coupons[id]?.any fun k ↦ k.isActive && !k.exhausted

def couponByCode (code : String) : Option ℕ :=
  w.coupons.findIdx? fun c ↦ c.code.toUpper = code.toUpper

end World

instance : Store CouponStatement World where
  commit
    | .claimCoupon id, w => { w with coupons := w.coupons.modify id Coupon.claim }
    | .returnCoupon id, w => { w with coupons := w.coupons.modify id Coupon.giveBack }
    | .insertRedemption r, w =>
      if w.redemptionsOf r.bookingId = [] then { w with redemptions := w.redemptions ++ [r] } else w
    | .deleteRedemption r, w => { w with redemptions := w.redemptions.filter (· ≠ r) }
    | .insertBooking b row, w =>
      { w with bookings := Function.update w.bookings b (w.bookings b <|> some row) }
    | .updateBooking b patch, w => w.updateBooking b patch
    | .elsewhere payments now, w => { w with payments := payments, now := now }
    | .clock, w | .selectForUpdate _, w | .selectCaptured _, w | .selectCoupon _, w
    | .countRedemptions _ _, w | .selectUsedCount _, w | .scanRedemptions _, w => w

abbrev CouponProc (α : Type) := Proc CouponStatement World Failure α

namespace CouponsService

/-- Everything that can stop a real, active coupon applying right now. -/
def rejectionFor (id : ℕ) (coupon : Coupon) (userId : ℕ) (subtotalPaise : ℤ) :
    CouponProc (Option String) := do
  let now ← Proc.query .clock (·.now)
  if coupon.startsAt.any (now < ·) then return some "not_started"
  else if coupon.expiresAt.any (· < now) then return some "expired"
  else if subtotalPaise < coupon.minOrder then return some "below_min_order"
  else do
    let used ← Proc.query (.countRedemptions id userId) fun w ↦
      (w.redemptions.filter fun r ↦ r.couponId = id && r.userId = userId).length
    if coupon.maxUsesPerUser ≤ used then return some "already_used"
    else if coupon.maxUses.isNone then return none
    else do
      let total ← Proc.query (.selectUsedCount id) fun w ↦ (w.coupons[id]?).map (·.usedCount)
      if total.any fun n ↦ coupon.maxUses.any (· ≤ n) then return some "usage_limit_reached"
      else return none

/-- The conditional update and the row it pays for. -/
def redeem (r : CouponRedemption) : CouponProc Unit := do
  let claimed ← Proc.query (.claimCoupon r.couponId) (·.claimable r.couponId)
  if claimed then do
    let inserted ← Proc.query (.insertRedemption r) fun w ↦
      decide (w.redemptionsOf r.bookingId = [])
    if inserted then return else throw (.uniqueViolation "uq_coupon_redemptions_booking")
  else throw (.api ⟨422, "coupon_exhausted", "That coupon was just used up", []⟩)

def applyInTransaction (userId b : ℕ) (code : String) (subtotalPaise : ℤ) :
    CouponProc (ℕ × ℤ) := do
  let found ← Proc.query (.selectCoupon code) fun w ↦
    (w.couponByCode code).bind fun id ↦ (w.coupons[id]?).map fun k ↦ (id, k)
  match found with
  | none => throw (couponInvalid "invalid")
  | some (id, coupon) =>
    if coupon.isActive then do
      let rejection ← rejectionFor id coupon userId subtotalPaise
      match rejection with
      | some reason => throw (couponInvalid reason)
      | none =>
        let discountPaise := discountFor coupon subtotalPaise
        if discountPaise ≤ 0 then throw (couponInvalid "below_min_order")
        else do
          redeem ⟨id, userId, b, discountPaise⟩
          return (id, discountPaise)
    else throw (couponInvalid "invalid")

def releaseForBooking (b : ℕ) : CouponProc Unit := do
  let found ← Proc.query (.scanRedemptions b) fun w ↦ (w.redemptionsOf b).head?
  match found with
  | none => return
  | some r => do
    let deleted ← Proc.query (.deleteRedemption r) fun w ↦ decide (r ∈ w.redemptions)
    if deleted then Proc.write (.returnCoupon r.couponId) else return

end CouponsService

namespace PaymentCouponService

open CouponsService

def lockPayable (b userId : ℕ) : CouponProc Booking := do
  let row ← Proc.query (.selectForUpdate b) (·.bookings b)
  match row with
  | none => throw (.api (.notFound "Booking not found"))
  | some row =>
    if row.userId ≠ userId then throw (.api (.notFound "Booking not found"))
    else if row.status ≠ .completed then throw (unpayable row)
    else do
      let captured ← Proc.query (.selectCaptured b) fun w ↦ (w.capturedFor b .booking).isSome
      if captured then throw (unpayable row) else return row
where
  unpayable (row : Booking) : Failure :=
    .api (.conflict "A coupon can only be changed before the trip is paid"
      [("status", row.status.label)])

/-- The update of the fare, whose constraints refuse a negative one. -/
def store (b : ℕ) (row : Booking) : CouponProc Unit :=
  match World.bookingError row with
  | some e => throw e
  | none => Proc.write (.updateBooking b fun _ ↦ row)

/-- The transaction of `apply`, statement by statement. -/
def applyRows (b userId : ℕ) (code : String) : CouponProc Unit := do
  let row ← lockPayable b userId
  Proc.when (row.couponId.isSome = true) (releaseForBooking b)
  let (couponId, discountPaise) ← applyInTransaction userId b code (preDiscountTaxable row)
  store b (reprice row (some couponId) discountPaise)

/-- The transaction of `remove`. -/
def removeRows (b userId : ℕ) : CouponProc Unit := do
  let row ← lockPayable b userId
  Proc.when (row.couponId.isSome = true) (releaseForBooking b)
  store b (reprice row none 0)

end PaymentCouponService

/-- A transaction on the coupon tables, or one of the rest that only moves bookings,
payments and the clock. -/
inductive CouponCall
  | create (b : ℕ) (row : Booking) (code : Option String) (priced : ℤ → Booking → Booking)
  | apply (b userId : ℕ) (code : String)
  | remove (b userId : ℕ)
  | cancelFree (b : ℕ) (patch : Booking → Booking)
  | refund (b : ℕ)
  | elsewhere (b : ℕ) (patch : Booking → Booking) (payments : List PaymentRow) (now : ℕ)

namespace CouponCall

open CouponsService

/-- The rows of `create`: the booking, its coupon, and its price once that is known. -/
def createRows (b : ℕ) (row : Booking) (code : Option String)
    (priced : ℤ → Booking → Booking) : CouponProc Unit := do
  let fresh ← Proc.query (.insertBooking b row) fun w ↦ (w.bookings b).isNone
  if fresh then
    match code with
    | none => Proc.write (.updateBooking b (priced 0))
    | some code => do
      let (couponId, discountPaise) ← applyInTransaction row.userId b code row.total
      Proc.write (.updateBooking b fun row ↦
        { priced discountPaise row with couponId := some couponId })
  else throw (.uniqueViolation "bookings_pkey")

def body : CouponCall → CouponProc Unit
  | create b row code priced => createRows b row code priced
  | apply b userId code => PaymentCouponService.applyRows b userId code
  | remove b userId => PaymentCouponService.removeRows b userId
  | cancelFree b patch => do
    releaseForBooking b
    Proc.write (.updateBooking b patch)
  | refund b => releaseForBooking b
  | elsewhere b patch payments now => do
    Proc.write (.updateBooking b patch)
    Proc.write (.elsewhere payments now)

end CouponCall

end Towing.Money
