import Towing.Money.Steps

namespace Towing.Money

open Towing.Db Towing.Process

/-- The tables a step may write. `fares` is a booking's price with its coupon. -/
inductive Table
  | nothing
  | clock
  | bookings
  | fares
  | payments
  | refunds
  | ledger
  | coupons
  | webhooks
  | gateway
  | redis
  | alarms
  | uuids
  | fleets
  deriving DecidableEq

def Step.table : Step → Table
  | .select _ => .nothing
  | .createPayment _ => .payments
  | .setOrderRef _ _ => .payments
  | .markCaptured _ _ _ _ => .payments
  | .markFailed _ _ => .payments
  | .post _ => .ledger
  | .transition _ _ _ _ => .bookings
  | .alarm _ => .alarms
  | .insertWebhookEvent _ => .webhooks
  | .webhookProcessed _ => .webhooks
  | .webhookError _ _ => .webhooks
  | .applyCoupon _ _ _ => .fares
  | .removeCoupon _ _ => .fares
  | .releaseCoupon _ => .coupons
  | .acquireLock _ => .redis
  | .releaseLock _ => .redis
  | .randomUuid => .uuids
  | .createOrder _ => .gateway
  | .gatewayRefund _ => .gateway
  | .insertRefund _ _ => .refunds
  | .refundAnswered _ _ _ => .refunds
  | .refundFailed _ _ => .refunds
  | .refundProcessed _ => .refunds
  | .refundConfirmed _ => .refunds
  | .applyRefund _ => .payments
  | .tick _ => .clock
  | .gatewayUp _ => .gateway
  | .gatewayAttempt _ => .gateway
  | .gatewayFinish _ _ => .gateway
  | .redisUp _ => .redis
  | .placeBooking _ _ => .bookings
  | .updateDriverPay _ _ => .fleets
  | .setShare _ _ _ => .fleets

variable {w w' : World} {l : Step}

namespace World

/-- What releasing or claiming a coupon leaves alone. -/
structure SameBut (w w' : World) : Prop where
  now : w'.now = w.now
  payments : w'.payments = w.payments
  refunds : w'.refunds = w.refunds
  ledger : w'.ledger = w.ledger
  gateway : w'.gateway = w.gateway
  webhookEvents : w'.webhookEvents = w.webhookEvents
  captureLocks : w'.captureLocks = w.captureLocks
  alarms : w'.alarms = w.alarms

theorem SameBut.refl (w : World) : w.SameBut w := ⟨rfl, rfl, rfl, rfl, rfl, rfl, rfl, rfl⟩

theorem SameBut.trans {w₁ w₂ w₃ : World} (h : w₁.SameBut w₂) (h' : w₂.SameBut w₃) :
    w₁.SameBut w₃ :=
  ⟨h'.now.trans h.now, h'.payments.trans h.payments, h'.refunds.trans h.refunds,
    h'.ledger.trans h.ledger, h'.gateway.trans h.gateway,
    h'.webhookEvents.trans h.webhookEvents, h'.captureLocks.trans h.captureLocks,
    h'.alarms.trans h.alarms⟩

theorem releaseForBooking_same (b : ℕ) : w.SameBut (w.releaseForBooking b) := by
  unfold releaseForBooking
  dsimp only
  split
  · exact .refl w
  · exact ⟨rfl, rfl, rfl, rfl, rfl, rfl, rfl, rfl⟩

@[simp] theorem releaseForBooking_bookings (b : ℕ) :
    (w.releaseForBooking b).bookings = w.bookings := by
  unfold releaseForBooking
  dsimp only
  split <;> rfl

theorem applyInTransaction_same {u b : ℕ} {code : String} {subtotal : ℤ} {id : ℕ} {discount : ℤ}
    (h : w.applyInTransaction u b code subtotal = .ok (id, discount, w')) :
    w.SameBut w' ∧ w'.bookings = w.bookings := by
  unfold applyInTransaction at h
  dsimp only at h
  repeat' split at h
  all_goals first | (cases h; done) | skip
  simp only [Except.ok.injEq, Prod.mk.injEq] at h
  obtain ⟨-, -, rfl⟩ := h
  exact ⟨⟨rfl, rfl, rfl, rfl, rfl, rfl, rfl, rfl⟩, rfl⟩

theorem storeBooking_eq {b : ℕ} {r : Booking} (h : w.storeBooking b r = .ok w') :
    w' = w.updateBooking b fun _ ↦ r := by
  unfold storeBooking at h
  split at h
  · cases h
  · exact (Except.ok.inj h).symm

theorem lockPayable_ok {b u : ℕ} {r : Booking} (h : w.lockPayable b u = .ok r) :
    w.bookings b = some r ∧ r.userId = u ∧ r.status = .completed ∧
      w.capturedFor b .booking = none := by
  unfold lockPayable at h
  split at h
  · cases h
  · rename_i r' heq
    split_ifs at h with h₁ h₂
    cases h
    push Not at h₁ h₂
    exact ⟨heq, h₁, h₂.1, by simpa using h₂.2⟩

/-- A coupon edit reprices a completed booking that nobody has paid for. -/
theorem applyCoupon_ok {b u : ℕ} {code : String} (h : w.applyCoupon b u code = .ok w') :
    w.SameBut w' ∧ ∃ r c d, w.bookings b = some r ∧ r.status = .completed ∧
      w.capturedFor b .booking = none ∧
      w'.bookings = Function.update w.bookings b (some (reprice r c d)) := by
  simp only [applyCoupon, bind, Except.bind] at h
  split at h
  · cases h
  · rename_i r hr
    obtain ⟨hb, -, hst, hcap⟩ := lockPayable_ok hr
    have hrel : w.SameBut (if r.couponId.isSome = true then w.releaseForBooking b else w) := by
      split
      · exact releaseForBooking_same b
      · exact .refl w
    have hbook : (if r.couponId.isSome = true then w.releaseForBooking b else w).bookings =
        w.bookings := by
      split
      · exact releaseForBooking_bookings b
      · rfl
    split at h
    · cases h
    · rename_i x hx
      obtain ⟨id, discount, claimed⟩ := x
      obtain ⟨hsame, hclaimed⟩ := applyInTransaction_same hx
      cases storeBooking_eq h
      refine ⟨hrel.trans (hsame.trans ⟨rfl, rfl, rfl, rfl, rfl, rfl, rfl, rfl⟩),
        r, some id, discount, hb, hst, hcap, ?_⟩
      rw [updateBooking, hclaimed, hbook, hb]
      rfl

theorem removeCoupon_ok {b u : ℕ} (h : w.removeCoupon b u = .ok w') :
    w.SameBut w' ∧ ∃ r c d, w.bookings b = some r ∧ r.status = .completed ∧
      w.capturedFor b .booking = none ∧
      w'.bookings = Function.update w.bookings b (some (reprice r c d)) := by
  simp only [removeCoupon, bind, Except.bind] at h
  split at h
  · cases h
  · rename_i r hr
    obtain ⟨hb, -, hst, hcap⟩ := lockPayable_ok hr
    have hrel : w.SameBut (if r.couponId.isSome = true then w.releaseForBooking b else w) := by
      split
      · exact releaseForBooking_same b
      · exact .refl w
    have hbook : (if r.couponId.isSome = true then w.releaseForBooking b else w).bookings =
        w.bookings := by
      split
      · exact releaseForBooking_bookings b
      · rfl
    cases storeBooking_eq h
    refine ⟨hrel.trans ⟨rfl, rfl, rfl, rfl, rfl, rfl, rfl, rfl⟩, r, none, 0, hb, hst, hcap, ?_⟩
    rw [updateBooking, hbook, hb]
    rfl

attribute [local simp] run

theorem run_fares (h : l.table = .fares) : w.SameBut (w.run l) ∧
    ((w.run l).bookings = w.bookings ∨ ∃ b r c d, w.bookings b = some r ∧ r.status = .completed ∧
      w.capturedFor b .booking = none ∧
      (w.run l).bookings = Function.update w.bookings b (some (reprice r c d))) := by
  cases l with
  | applyCoupon b u code =>
    cases hx : w.applyCoupon b u code with
    | error e => simpa [run, hx, Except.toOption] using SameBut.refl w
    | ok w' =>
      obtain ⟨hsame, hbook⟩ := applyCoupon_ok hx
      simp only [run, hx, Except.toOption, Option.getD_some]
      exact ⟨hsame, .inr ⟨b, hbook⟩⟩
  | removeCoupon b u =>
    cases hx : w.removeCoupon b u with
    | error e => simpa [run, hx, Except.toOption] using SameBut.refl w
    | ok w' =>
      obtain ⟨hsame, hbook⟩ := removeCoupon_ok hx
      simp only [run, hx, Except.toOption, Option.getD_some]
      exact ⟨hsame, .inr ⟨b, hbook⟩⟩
  | _ => cases h

theorem run_payments (h : l.table ≠ .payments) : (w.run l).payments = w.payments := by
  by_cases hf : l.table = .fares
  · exact (run_fares hf).1.payments
  · cases l with
    | transition b target patch on =>
      simp only [run, transition]
      split <;> rfl
    | insertRefund r seen =>
      simp only [run, createRefund]
      split <;> rfl
    | releaseCoupon b => exact (releaseForBooking_same b).payments
    | alarm | insertWebhookEvent | acquireLock | placeBooking =>
      simp only [run]
      split <;> rfl
    | createPayment | setOrderRef | markCaptured | markFailed | applyRefund => exact absurd rfl h
    | applyCoupon | removeCoupon => exact absurd rfl hf
    | _ => rfl

theorem run_refunds (h : l.table ≠ .refunds) : (w.run l).refunds = w.refunds := by
  by_cases hf : l.table = .fares
  · exact (run_fares hf).1.refunds
  · cases l with
    | transition b target patch on =>
      simp only [run, transition]
      split <;> rfl
    | createPayment p =>
      simp only [run, createPayment]
      split <;> rfl
    | setOrderRef | markCaptured =>
      simp only [run, setOrderRef, markCaptured]
      split <;> rfl
    | releaseCoupon b => exact (releaseForBooking_same b).refunds
    | alarm | insertWebhookEvent | acquireLock | placeBooking =>
      simp only [run]
      split <;> rfl
    | insertRefund | refundAnswered | refundFailed | refundProcessed | refundConfirmed =>
      exact absurd rfl h
    | applyCoupon | removeCoupon => exact absurd rfl hf
    | _ => rfl

theorem run_ledger (h : l.table ≠ .ledger) : (w.run l).ledger = w.ledger := by
  by_cases hf : l.table = .fares
  · exact (run_fares hf).1.ledger
  · cases l with
    | transition b target patch on =>
      simp only [run, transition]
      split <;> rfl
    | createPayment p =>
      simp only [run, createPayment]
      split <;> rfl
    | setOrderRef | markCaptured =>
      simp only [run, setOrderRef, markCaptured]
      split <;> rfl
    | insertRefund r seen =>
      simp only [run, createRefund]
      split <;> rfl
    | releaseCoupon b => exact (releaseForBooking_same b).ledger
    | alarm | insertWebhookEvent | acquireLock | placeBooking =>
      simp only [run]
      split <;> rfl
    | post => exact absurd rfl h
    | applyCoupon | removeCoupon => exact absurd rfl hf
    | _ => rfl

theorem run_gateway (h : l.table ≠ .gateway) : (w.run l).gateway = w.gateway := by
  by_cases hf : l.table = .fares
  · exact (run_fares hf).1.gateway
  · cases l with
    | transition b target patch on =>
      simp only [run, transition]
      split <;> rfl
    | createPayment p =>
      simp only [run, createPayment]
      split <;> rfl
    | setOrderRef | markCaptured =>
      simp only [run, setOrderRef, markCaptured]
      split <;> rfl
    | insertRefund r seen =>
      simp only [run, createRefund]
      split <;> rfl
    | releaseCoupon b => exact (releaseForBooking_same b).gateway
    | alarm | insertWebhookEvent | acquireLock | placeBooking =>
      simp only [run]
      split <;> rfl
    | createOrder | gatewayRefund | gatewayUp | gatewayAttempt | gatewayFinish => exact absurd rfl h
    | applyCoupon | removeCoupon => exact absurd rfl hf
    | _ => rfl

theorem run_bookings (h : l.table ≠ .bookings) (hf : l.table ≠ .fares) :
    (w.run l).bookings = w.bookings := by
  cases l with
  | createPayment p =>
    simp only [run, createPayment]
    split <;> rfl
  | setOrderRef | markCaptured =>
    simp only [run, setOrderRef, markCaptured]
    split <;> rfl
  | insertRefund r seen =>
    simp only [run, createRefund]
    split <;> rfl
  | releaseCoupon b => exact releaseForBooking_bookings b
  | alarm | insertWebhookEvent | acquireLock =>
    simp only [run]
    split <;> rfl
  | transition | placeBooking => exact absurd rfl h
  | applyCoupon | removeCoupon => exact absurd rfl hf
  | _ => rfl

end World

end Towing.Money
