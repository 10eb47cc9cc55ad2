import Towing.Money.Channels
import Towing.Money.PaymentRows
import Towing.Process.Runs

namespace Towing.Money

open Towing.Db Towing.Process PaymentsService

/-- What the customers, the vendor, the trips and the clock do beside the requests. -/
def Step.ambient : Step → Bool
  | .tick _ => true
  | .gatewayUp _ => true
  | .gatewayAttempt _ => true
  | .gatewayFinish _ _ => true
  | .redisUp _ => true
  | .releaseLock _ => true
  | .placeBooking _ _ => true
  | .transition _ target _ on => on.isNone && target ≠ .paid
  | _ => false

/-- Everything by which a booking's money is asked for, collected and recorded. -/
inductive Collects (env : Env) : Request Unit → Prop
  | createIntent (b userId : ℕ) (purpose : PaymentPurpose) (clientKey : String) :
      Collects env (createIntent env b userId purpose clientKey).ignore
  | chooseCash (b userId : ℕ) : Collects env (chooseCash env b userId).ignore
  | confirmCashCollected (b driverId : ℕ) : Collects env (confirmCashCollected env b driverId).ignore
  | payWithWallet (b userId : ℕ) : Collects env (payWithWallet env b userId).ignore
  | capture (b userId : ℕ) (body : PaymentCaptureRequest) :
      Collects env (capture env b userId body).ignore
  | captureFee (b : ℕ) (body : PaymentCaptureRequest) (expectedPaise : ℤ) :
      Collects env (CancellationFeeService.capture env b body expectedPaise)
  | applyCoupon (b userId : ℕ) (code : String) :
      Collects env (PaymentCouponService.apply b userId code)
  | removeCoupon (b userId : ℕ) : Collects env (PaymentCouponService.remove b userId)
  | webhook (e : PaymentWebhookEvent) : Collects env (WebhooksController.razorpay env e)
  | sweep : Collects env (PaymentReconcileService.reconcile env)
  | ambient (l : Step) (h : l.ambient = true) : Collects env (Proc.write l)

namespace World

def cancelled (w : World) (b : ℕ) : Prop := (w.bookings b).map (·.status) = some .cancelled

instance (w : World) (b : ℕ) : Decidable (w.cancelled b) :=
  inferInstanceAs (Decidable (_ = _))

end World

/-- A law of which money may be recorded on which row, and which rows may settle
a booking. `admits` is what it asks of the money that a settlement looks up, the
flag telling whether the booking is cancelled by then. -/
structure Law where
  fits : Kind → Kind → Prop
  knows : Kind → ℕ → Prop
  admits : Settling → Kind → Bool → Prop
  good : Settling → Kind → Prop
  fits_refl : ∀ k, fits k k
  knows_of_fits : ∀ k d, fits k d → knows k d.1
  fits_own : ∀ on k c, (on.channel ≠ .route → knows k on.bookingId) → admits on k c →
    fits k (on.bookingId, .booking)
  good_of_fits : ∀ on k d, (on.channel ≠ .route → knows k on.bookingId) → admits on k false →
    fits k d → good on d
  good_own : ∀ on, good on (on.bookingId, .booking)

variable {L : Law} {w w' : World} {l : Step}

/-- A row's references stand for money that may be recorded on it. -/
structure RowFits (L : Law) (w : World) (row : PaymentRow) : Prop where
  key : (row.idempotencyKey.bookingId, row.idempotencyKey.purpose) = row.kind
  orderRef : ∀ ref, row.gatewayOrderRef = some ref → w.refKind ref = some row.kind
  gatewayRef : ∀ ref, row.gatewayRef = some ref → ∃ k, w.refKind ref = some k ∧ L.fits k row.kind
  captured : row.gatewayRef.isSome → row.status = .captured

structure Recorded (L : Law) (w : World) : Prop where
  numbered : w.Numbered
  rows : ∀ row ∈ w.payments, RowFits L w row
  orders : ∀ x ∈ w.gateway.orders,
    (w.payment x.paymentId).map (·.kind) = some (x.bookingId, x.purpose)
  attempts : ∀ p ∈ w.gateway.payments, p.order < w.gateway.orders.length

/-- What others may do between two steps of a request. -/
structure Grows (w w' : World) : Prop where
  payments : w.PaymentsGrow w'
  gateway : GatewayGrows w.gateway w'.gateway
  cancelled : ∀ b, w.cancelled b → w'.cancelled b
  customer : ∀ b r, w.bookings b = some r → ∃ r', w'.bookings b = some r' ∧ r'.userId = r.userId

/-- The payment a booking is being marked paid on is captured, and `L` allows it
and the money that was looked up. -/
def SettlesOn (L : Law) (w : World) (b : ℕ) (why : Option (Settling × Option ℕ)) : Prop :=
  ∃ on basis, why = some (on, basis) ∧ on.bookingId = b ∧
    (∃ ref k, on.handle.gatewayRef = some ref ∧ w.refKind ref = some k ∧ L.fits k (b, .booking)) ∧
    (w.cancelled b ∨ ∀ id, basis = some id →
      ∃ row, w.payment id = some row ∧ row.status = .captured ∧ L.good on row.kind)

/-- The legs take the wallet part of a captured payment, which `L` allows on that
booking, from the customer it promised it to. -/
def Spends (L : Law) (w : World) (legs : List (LedgerLeg LedgerKey)) : Prop :=
  ∃ b id row r k, w.payment id = some row ∧ row.status = .captured ∧ 0 < row.walletApplied ∧
    L.fits k row.kind ∧ L.fits k (b, .booking) ∧ w.bookings b = some r ∧
    legs = spendLegs b r.userId row.walletApplied

/-- Nothing is taken from a customer's wallet. -/
def TakesNothing (legs : List (LedgerLeg LedgerKey)) : Prop :=
  ∀ leg ∈ legs, leg.owner.ownerType = .user → 0 ≤ leg.amountPaise.toInt

inductive CollectStep (L : Law) : Step → World → Prop
  | createPayment {p : NewPayment} {w : World}
      (h : (p.idempotencyKey.bookingId, p.idempotencyKey.purpose) = (p.bookingId, p.purpose)) :
      CollectStep L (.createPayment p) w
  | setOrderRef {id : ℕ} {ref : Ref} {w : World}
      (h : ∀ row, w.payment id = some row → w.refKind ref = some row.kind) :
      CollectStep L (.setOrderRef id ref) w
  | markCaptured {id : ℕ} {ref : Option Ref} {method : Option PaymentMethod} {on : Option Settling}
      {w : World}
      (h : ∀ row r, w.payment id = some row → ref = some r →
        ∃ k, w.refKind r = some k ∧ L.fits k row.kind) :
      CollectStep L (.markCaptured id ref method on) w
  | markFailed {id : ℕ} {reason : String} {w : World} : CollectStep L (.markFailed id reason) w
  | createOrder {x : GatewayOrder} {w : World}
      (h : (w.payment x.paymentId).map (·.kind) = some (x.bookingId, x.purpose)) :
      CollectStep L (.createOrder x) w
  | transition {b : ℕ} {target : BookingStatus} {patch : BookingPatch}
      {why : Option (Settling × Option ℕ)} {w : World}
      (h : target = .paid → SettlesOn L w b why) : CollectStep L (.transition b target patch why) w
  | post {legs : List (LedgerLeg LedgerKey)} {w : World} (h : TakesNothing legs ∨ Spends L w legs) :
      CollectStep L (.post legs) w
  | other {l : Step} {w : World} (hp : l.table ≠ .payments) (ho : ∀ x, l ≠ .createOrder x)
      (ht : ∀ b target patch why, l ≠ .transition b target patch why)
      (hl : l.table ≠ .ledger) : CollectStep L l w

/-- What `L` asks of the run: of the money each settlement looks up, and of the
money each cancellation-fee capture records. -/
def Lawful (L : Law) : Step → World → Prop
  | .select (.capturedRow ref on), w =>
    ∀ k, w.refKind ref = some k → L.admits on k (decide (w.cancelled on.bookingId))
  | .markCaptured id (some ref) _ none, w =>
    ∀ k row, w.refKind ref = some k → w.payment id = some row → L.fits k row.kind
  | _, _ => True

def collecting (L : Law) : Contract Step World where
  inv := Recorded L
  rely := Grows
  cond := Lawful L
  guar := CollectStep L

theorem Grows.refl (w : World) : Grows w w :=
  ⟨.refl w, .refl _, fun _ h ↦ h, fun _ r h ↦ ⟨r, h, rfl⟩⟩

theorem Grows.trans {w₁ w₂ w₃ : World} (h : Grows w₁ w₂) (h' : Grows w₂ w₃) : Grows w₁ w₃ :=
  ⟨h.payments.trans h'.payments, h.gateway.trans h'.gateway,
    fun b hb ↦ h'.cancelled b (h.cancelled b hb), fun b r hr ↦ by
      obtain ⟨r₂, hr₂, hu₂⟩ := h.customer b r hr
      obtain ⟨r₃, hr₃, hu₃⟩ := h'.customer b r₂ hr₂
      exact ⟨r₃, hr₃, hu₃.trans hu₂⟩⟩

theorem Grows.refKind {ref : Ref} {k : Kind} (h : Grows w w') (hk : w.refKind ref = some k) :
    w'.refKind ref = some k := World.refKind_grows h.payments h.gateway hk

theorem RowFits.grows {row : PaymentRow} (h : RowFits L w row) (hg : Grows w w') :
    RowFits L w' row := by
  refine ⟨h.key, fun ref href ↦ hg.refKind (h.orderRef ref href), fun ref href ↦ ?_, h.captured⟩
  obtain ⟨k, hk, hfit⟩ := h.gatewayRef ref href
  exact ⟨k, hg.refKind hk, hfit⟩

theorem RowFits.update {row row' : PaymentRow} (h : RowFits L w row) (hkind : row'.kind = row.kind)
    (hkey : row'.idempotencyKey = row.idempotencyKey)
    (horder : row'.gatewayOrderRef = row.gatewayOrderRef)
    (href : row'.gatewayRef = row.gatewayRef)
    (hst : row.status = .captured → row'.status = .captured) : RowFits L w row' := by
  refine ⟨by rw [hkey, hkind]; exact h.key, fun ref hr ↦ ?_, fun ref hr ↦ ?_, fun hr ↦ ?_⟩
  · rw [hkind]
    exact h.orderRef ref (horder ▸ hr)
  · rw [hkind]
    exact h.gatewayRef ref (href ▸ hr)
  · exact hst (h.captured (href ▸ hr))

namespace World

theorem cancelled_transition {b c : ℕ} {target : BookingStatus} {patch : BookingPatch}
    (h : w.cancelled c) : (w.transition b target patch).cancelled c := by
  unfold transition
  split_ifs with he
  · exact h
  · by_cases hbc : b = c
    · subst hbc
      obtain ⟨r, hr, hst⟩ := Option.map_eq_some_iff.mp h
      refine absurd ?_ he
      have hl : isLegal r.status target = false := by
        rw [hst]
        cases target <;> rfl
      simp [transitionError, hr, hl]
    · have : (w.updateBooking b fun r ↦ applyPatch r target patch).bookings c = w.bookings c :=
        Function.update_of_ne (Ne.symm hbc) _ _
      rw [cancelled, this]
      exact h

theorem run_cancelled {c : ℕ} (h : w.cancelled c) : (w.run l).cancelled c := by
  by_cases hb : l.table = .bookings
  · cases l with
    | transition b target patch why => exact cancelled_transition h
    | placeBooking b r =>
      simp only [run]
      split_ifs with hs
      · exact h
      · have hne : c ≠ b := by
          rintro rfl
          obtain ⟨x, hx, -⟩ := Option.map_eq_some_iff.mp h
          simp [hx] at hs
        rw [cancelled]
        dsimp only
        rw [Function.update_of_ne hne]
        exact h
    | _ => cases hb
  · by_cases hf : l.table = .fares
    · rcases (run_fares (w := w) hf).2 with heq | ⟨b, r, c', d, hr, hst, -, heq⟩
      · rw [cancelled, heq]
        exact h
      · have hne : c ≠ b := by
          rintro rfl
          obtain ⟨x, hx, hxs⟩ := Option.map_eq_some_iff.mp h
          cases hx.symm.trans hr
          rw [hst] at hxs
          cases hxs
        rw [cancelled, heq, Function.update_of_ne hne]
        exact h
    · rw [cancelled, run_bookings hb hf]
      exact h

theorem updateBooking_customer {b c : ℕ} {f : Booking → Booking} {r : Booking}
    (hf : ∀ r, (f r).userId = r.userId) (h : w.bookings c = some r) :
    ∃ r', (w.updateBooking b f).bookings c = some r' ∧ r'.userId = r.userId := by
  by_cases hbc : c = b
  · subst hbc
    exact ⟨f r, by simp [updateBooking, h], hf r⟩
  · exact ⟨r, by rw [updateBooking]; simpa [Function.update_of_ne hbc] using h, rfl⟩

theorem run_customer {c : ℕ} {r : Booking} (h : w.bookings c = some r) :
    ∃ r', (w.run l).bookings c = some r' ∧ r'.userId = r.userId := by
  by_cases hb : l.table = .bookings
  · cases l with
    | transition b target patch why =>
      simp only [run, transition]
      split_ifs
      · exact ⟨r, h, rfl⟩
      · exact updateBooking_customer (fun _ ↦ rfl) h
    | placeBooking b x =>
      simp only [run]
      split_ifs with hs
      · exact ⟨r, h, rfl⟩
      · have hne : c ≠ b := by
          rintro rfl
          simp [h] at hs
        exact ⟨r, by simpa [Function.update_of_ne hne] using h, rfl⟩
    | _ => cases hb
  · by_cases hf : l.table = .fares
    · rcases (run_fares (w := w) hf).2 with heq | ⟨b, x, c', d, hx, -, -, heq⟩
      · exact ⟨r, by rw [heq]; exact h, rfl⟩
      · by_cases hcb : c = b
        · subst hcb
          cases h.symm.trans hx
          exact ⟨reprice r c' d, by rw [heq, Function.update_self], rfl⟩
        · exact ⟨r, by rw [heq, Function.update_of_ne hcb]; exact h, rfl⟩
    · exact ⟨r, by rw [run_bookings hb hf]; exact h, rfl⟩

theorem run_grows (hl : ∀ id, l ≠ .applyRefund id) : Grows w (w.run l) :=
  ⟨run_paymentsGrow hl, run_gatewayGrows w l, fun _ ↦ run_cancelled, fun _ _ ↦ run_customer⟩

theorem run_orders {x : GatewayOrder} (h : x ∈ (w.run l).gateway.orders) :
    x ∈ w.gateway.orders ∨ l = .createOrder x := by
  by_cases ht : l.table = .gateway
  · cases l with
    | createOrder y =>
      simp only [run, Gateway.createOrder] at h
      split_ifs at h
      · rcases List.mem_append.mp h with h | h
        · exact .inl h
        · exact .inr (by rw [List.mem_singleton.mp h])
      · exact .inl h
    | gatewayRefund r =>
      simp only [run, Gateway.refund] at h
      split_ifs at h <;> exact .inl h
    | gatewayUp up => exact .inl h
    | gatewayAttempt p =>
      simp only [run, Gateway.attempt] at h
      split_ifs at h <;> exact .inl h
    | gatewayFinish n status =>
      simp only [run, Gateway.finish] at h
      split at h
      · exact .inl h
      · split_ifs at h <;> exact .inl h
    | _ => cases ht
  · rw [run_gateway ht] at h
    exact .inl h

theorem run_attempts (h : ∀ p ∈ w.gateway.payments, p.order < w.gateway.orders.length) :
    ∀ p ∈ (w.run l).gateway.payments, p.order < (w.run l).gateway.orders.length := by
  by_cases ht : l.table = .gateway
  · cases l with
    | createOrder y =>
      simp only [run, Gateway.createOrder]
      split_ifs
      · intro p hp
        have := h p hp
        rw [List.length_append]
        omega
      · exact h
    | gatewayRefund r =>
      simp only [run, Gateway.refund]
      split_ifs <;> exact h
    | gatewayUp up => exact h
    | gatewayAttempt p =>
      simp only [run, Gateway.attempt]
      split_ifs with hc
      · exact h
      · intro q hq
        rcases List.mem_append.mp hq with hq | hq
        · exact h q hq
        · cases List.mem_singleton.mp hq
          simp only [Bool.or_eq_true, decide_eq_true_eq, not_or, not_le] at hc
          exact hc.1
    | gatewayFinish n status =>
      simp only [run, Gateway.finish]
      split
      · exact h
      · rename_i p hp
        split_ifs
        · exact h
        · intro q hq
          rcases List.mem_or_eq_of_mem_set hq with hq | rfl
          · exact h q hq
          · exact h p (List.mem_of_getElem? hp)
    | _ => cases ht
  · rw [run_gateway ht]
    exact h

end World

theorem CollectStep.grows (h : CollectStep L l w) : Grows w (w.run l) := by
  apply World.run_grows
  rintro id rfl
  cases h with
  | other hp => exact hp rfl

theorem rowFits_map {f : PaymentRow → PaymentRow} {id : ℕ} (h : ∀ row ∈ w.payments, RowFits L w' row)
    (hf : ∀ row ∈ w.payments, row.id = id → RowFits L w' (f row)) :
    ∀ row ∈ (w.updatePayment id f).payments, RowFits L w' row := by
  intro row' hrow'
  obtain ⟨row, hrow, rfl⟩ := List.mem_map.mp hrow'
  split_ifs with hid
  · exact hf row hrow hid
  · exact h row hrow

theorem Recorded.rows_run (h : Recorded L w) (hg : CollectStep L l w) :
    ∀ row ∈ (w.run l).payments, RowFits L (w.run l) row := by
  have hgrow := hg.grows
  have hrows : ∀ row ∈ w.payments, RowFits L (w.run l) row :=
    fun row hrow ↦ (h.rows row hrow).grows hgrow
  cases hg with
  | @createPayment p _ hk =>
    rcases World.createPayment_eq w p with heq | ⟨row, hok, heq⟩
    · rw [World.run, heq] at hrows ⊢
      exact hrows
    · rw [World.run, heq] at hrows ⊢
      intro row' hrow'
      rcases List.mem_append.mp hrow' with hrow' | hrow'
      · exact hrows row' hrow'
      · cases List.mem_singleton.mp hrow'
        obtain ⟨-, hkind, -, -, -, hkey, -, hgw, hord⟩ := World.insertPayment_ok hok
        refine ⟨by rw [hkey, hkind]; exact hk, fun ref hr ↦ ?_, fun ref hr ↦ ?_, fun hr ↦ ?_⟩
        · rw [hord] at hr
          cases hr
        · rw [hgw] at hr
          cases hr
        · rw [hgw] at hr
          cases hr
  | @setOrderRef id ref _ href =>
    simp only [World.run, World.setOrderRef] at hrows hgrow ⊢
    split_ifs at hrows hgrow ⊢
    · exact hrows
    · refine rowFits_map hrows fun row hrow hid ↦ ?_
      have hp := h.numbered.payment_of_mem hrow
      rw [hid] at hp
      refine ⟨(hrows row hrow).key, fun r hr ↦ ?_, (hrows row hrow).gatewayRef,
        (hrows row hrow).captured⟩
      cases hr
      exact hgrow.refKind (href row hp)
  | @markCaptured id ref method on _ href =>
    simp only [World.run, World.markCaptured] at hrows hgrow ⊢
    split_ifs at hrows hgrow ⊢
    · exact hrows
    · refine rowFits_map hrows fun row hrow hid ↦ ?_
      split_ifs
      · exact hrows row hrow
      · have hp := h.numbered.payment_of_mem hrow
        rw [hid] at hp
        refine ⟨(hrows row hrow).key, (hrows row hrow).orderRef, fun r hr ↦ ?_, fun _ ↦ rfl⟩
        cases ref with
        | none => exact (hrows row hrow).gatewayRef r hr
        | some ref =>
          cases hr
          obtain ⟨k, hk, hfit⟩ := href row r hp rfl
          exact ⟨k, hgrow.refKind hk, hfit⟩
  | markFailed =>
    refine rowFits_map hrows fun row hrow hid ↦ ?_
    split_ifs with ho
    · refine (hrows row hrow).update rfl rfl rfl rfl fun hc ↦ ?_
      simp [World.isOpen, hc] at ho
    · exact hrows row hrow
  | createOrder => exact hrows
  | transition | post =>
    rw [World.run_payments (by simp [Step.table])]
    exact hrows
  | other hp =>
    rw [World.run_payments hp]
    exact hrows

theorem Recorded.run (h : Recorded L w) (hg : CollectStep L l w) : Recorded L (w.run l) where
  numbered := World.run_numbered h.numbered
  rows := h.rows_run hg
  orders x hx := by
    have hkind : (w.payment x.paymentId).map (·.kind) = some (x.bookingId, x.purpose) := by
      rcases World.run_orders hx with hx | rfl
      · exact h.orders x hx
      · cases hg with
        | createOrder h => exact h
        | other hp ho ht => exact absurd rfl (ho x)
    obtain ⟨row, hrow, heq⟩ := Option.map_eq_some_iff.mp hkind
    obtain ⟨row', hrow', hgrow⟩ := hg.grows.payments _ row hrow
    rw [hrow', Option.map_some, hgrow.kind, heq]
  attempts := World.run_attempts h.attempts

theorem collecting_sound (L : Law) : (collecting L).Sound where
  refl := Grows.refl
  trans _ _ _ := Grows.trans
  inv_commit _ _ h _ hg := h.run hg
  rely_commit _ _ _ _ hg := hg.grows

end Towing.Money
