import Towing.Money.Channels
import Towing.Money.Frames

namespace Towing.Money

open Towing.Db Towing.Process PaymentsRepo PaymentsService

/-- The requests by which a fare is asked for, priced and collected. -/
inductive Charges (env : Env) : Request Unit → Prop
  | createIntent (b userId : ℕ) (purpose : PaymentPurpose) (clientKey : String) :
      Charges env (createIntent env b userId purpose clientKey).ignore
  | chooseCash (b userId : ℕ) : Charges env (chooseCash env b userId).ignore
  | confirmCashCollected (b driverId : ℕ) : Charges env (confirmCashCollected env b driverId).ignore
  | payWithWallet (b userId : ℕ) : Charges env (payWithWallet env b userId).ignore
  | capture (b userId : ℕ) (body : PaymentCaptureRequest) : Charges env (capture env b userId body).ignore
  | applyCoupon (b userId : ℕ) (code : String) : Charges env (PaymentCouponService.apply b userId code)
  | removeCoupon (b userId : ℕ) : Charges env (PaymentCouponService.remove b userId)
  | webhook (e : PaymentWebhookEvent) : Charges env (WebhooksController.razorpay env e)
  | sweep : Charges env (PaymentReconcileService.reconcile env)
  | recheck (b : ℕ) : Charges env (PaymentReconcileService.recheckBooking env b).ignore
  | outside (l : Step) (h : l.outside = true) : Charges env (Proc.write l)

/-- A step that moves no booking. -/
def Still (l : Step) : Prop := l.table ≠ .bookings

attribute [local simp] Still Step.table

variable {env : Env} {b : ℕ} {on : Settling} {α : Type}

theorem still_attempt {l : Step} {f : World → Except Failure α} (h : Still l) :
    (Proc.attempt l f : Request α).Only Still :=
  ⟨h, fun _ ↦ trivial⟩

theorem still_select (q : Select) (f : World → α) : (select q f).Only Still :=
  still_attempt (by simp)

theorem still_call (q : Select) (f : World → Except Failure α) : (call q f).Only Still :=
  still_attempt (by simp)

theorem still_write {l : Step} (h : Still l) : (Proc.write l : Request Unit).Only Still :=
  still_attempt h

theorem still_markFailed (id : ℕ) (reason : String) : (markFailed id reason).Only Still :=
  still_write (by simp)

theorem still_markCaptured (id : ℕ) (ref : Option Ref) (method : Option PaymentMethod)
    (why : Option Settling) : (markCaptured id ref method why).Only Still :=
  still_attempt (by simp)

theorem still_create (p : NewPayment) : (create p).Only Still :=
  still_attempt (by simp)

theorem still_setOrderRef (id : ℕ) (ref : Ref) : (setOrderRef id ref).Only Still :=
  still_attempt (by simp)

theorem still_ledgerPost (legs : List (LedgerLeg LedgerKey)) : (ledgerPost legs).Only Still :=
  still_attempt (by simp)

theorem still_throw (e : Failure) : (throw e : Request α).Only Still := trivial

theorem still_orElse {p q : Request (Option α)} (hp : p.Only Still) (hq : q.Only Still) :
    (orElse p q).Only Still := by
  refine hp.bind fun found ↦ ?_
  cases found with
  | none => exact hq
  | some a => trivial

theorem still_loadPayableBooking (userId : ℕ) (purpose : PaymentPurpose) (allowPaid : Bool) :
    (loadPayableBooking b userId purpose allowPaid).Only Still :=
  still_call _ _

/-! Opening a payment. -/

theorem still_intentRow {purpose : PaymentPurpose} {total balance : ℤ} {p : NewPayment} :
    (intentRow b purpose total balance p).Only Still := by
  have hnew : (createIntentRow p total balance).Only Still := by
    refine Proc.Only.handle (still_create p) fun e ↦ ?_
    split_ifs
    · refine (still_select _ _).bind fun found ↦ ?_
      cases found with
      | none => trivial
      | some existing => trivial
    · trivial
  refine Proc.Only.bind ?_ fun found ↦ ?_
  · refine (still_select _ _).bind fun found ↦ ?_
    cases found with
    | none => trivial
    | some row =>
      dsimp only
      split_ifs
      · exact (still_markFailed _ _).bind fun _ ↦ trivial
      · trivial
  · cases found with
    | some row => trivial
    | none => exact hnew

theorem still_openOrder {purpose : PaymentPurpose} {walletPaise gatewayPaise : ℤ} {row : PaymentRow} :
    (openOrder b purpose walletPaise gatewayPaise row).Only Still := by
  unfold openOrder
  split_ifs
  · exact (still_setOrderRef _ _).bind fun _ ↦ trivial
  · refine (still_attempt (by simp)).bind fun ref ↦ ?_
    exact (still_setOrderRef _ _).bind fun _ ↦ trivial

theorem still_createIntent (userId : ℕ) (purpose : PaymentPurpose) (clientKey : String) :
    (createIntent env b userId purpose clientKey).Only Still := by
  refine (still_loadPayableBooking _ _ _).bind fun booking ↦ ?_
  refine Proc.Only.bind ?_ fun total ↦ ?_
  · cases purpose with
    | booking => trivial
    | cancellationFee => exact (still_select _ _).bind fun _ ↦ trivial
  refine (Proc.Only.when (still_throw _)).bind fun _ ↦ ?_
  refine Proc.Only.bind ?_ fun balance ↦ ?_
  · cases purpose with
    | booking => exact still_select _ _
    | cancellationFee => trivial
  refine still_intentRow.bind fun row ↦ ?_
  split
  · trivial
  · exact still_openOrder

theorem still_chooseCash (userId : ℕ) : (chooseCash env b userId).Only Still := by
  have hcash (booking : Booking) : (chooseCash.createCash env b booking).Only Still := by
    refine (still_attempt (by simp)).bind fun uuid ↦ ?_
    exact (still_create _).bind fun _ ↦ trivial
  refine (still_loadPayableBooking _ _ _).bind fun booking ↦ ?_
  refine (still_select _ _).bind fun found ↦ ?_
  cases found with
  | none => exact hcash booking
  | some row =>
    dsimp only
    split_ifs
    · trivial
    · exact (still_markFailed _ _).bind fun _ ↦ hcash booking

/-! The row a settlement is recorded on. -/

theorem still_byHandleRef : (byHandleRef on).Only Still := by
  unfold byHandleRef
  split
  · exact still_select _ _
  · trivial

theorem still_existingRow : (existingRow on).Only Still := by
  refine still_orElse (still_orElse (still_orElse still_byHandleRef ?_) (still_select _ _))
    (still_select _ _)
  unfold byHandleOrder
  split
  · exact still_select _ _
  · trivial

theorem still_ensureCapturedRow : (ensureCapturedRow env on).Only Still := by
  refine still_existingRow.bind fun found ↦ ?_
  cases found with
  | some existing => exact ((still_markCaptured _ _ _ _).when).bind fun _ ↦ trivial
  | none =>
    refine (still_select _ _).bind fun booking ↦ ?_
    cases booking with
    | none => trivial
    | some booking =>
      refine Proc.Only.handle ?_ fun e ↦ ?_
      · refine (still_create _).bind fun created ↦ ?_
        exact (still_markCaptured _ _ _ _).bind fun _ ↦ trivial
      · split_ifs
        · exact still_byHandleRef.bind fun _ ↦ trivial
        · trivial

theorem still_collectedHandle (body : PaymentCaptureRequest) : (collectedHandle body).Only Still := by
  refine (still_select _ _).bind fun valid ↦ ?_
  refine (Proc.Only.when (still_throw _)).bind fun _ ↦ ?_
  refine (still_call _ _).bind fun handle ↦ ?_
  exact (Proc.Only.when (still_throw _)).bind fun _ ↦ trivial

theorem still_captureFee (body : PaymentCaptureRequest) (expectedPaise : ℤ) :
    (CancellationFeeService.capture env b body expectedPaise).Only Still := by
  have hcreate : (CancellationFeeService.createRow env b expectedPaise body.gatewayRef).Only Still := by
    refine Proc.Only.handle (still_create _) fun e ↦ ?_
    split_ifs
    · refine (still_select _ _).bind fun raced ↦ ?_
      cases raced with
      | none => trivial
      | some raced => trivial
    · trivial
  refine (still_select _ _).bind fun found ↦ ?_
  cases found with
  | some row => trivial
  | none =>
    refine (still_collectedHandle body).bind fun handle ↦ ?_
    refine (Proc.Only.when (still_throw _)).bind fun _ ↦ ?_
    refine Proc.Only.bind ?_ fun row ↦ still_markCaptured _ _ _ _
    refine (still_select _ _).bind fun found ↦ ?_
    cases found with
    | some row => trivial
    | none => exact hcreate

/-! A booking is settled only where it was seen completed. -/

variable {c : Contract Step World} {s : World}

/-- Some state the contract allows shows the booking completed. -/
def SeenCompleted (c : Contract Step World) (b : ℕ) : Prop :=
  ∃ w, c.inv w ∧ (w.bookings b).map (·.status) = some .completed

/-- A contract that asks nothing but of the steps that settle. -/
structure AsksSettling (c : Contract Step World) : Prop where
  still : ∀ l w, Still l → c.inv w → c.guar l w
  settle : ∀ b patch on w, SeenCompleted c b → c.inv w → c.guar (.transition b .paid patch on) w

theorem meets_still (hc : AsksSettling c) {p : Request α} (hp : p.Only Still) :
    c.Meets (fun _ _ ↦ True) p s :=
  Contract.Meets.of_only hp (fun l w hl hi _ _ ↦ ⟨hc.still l w hl hi, trivial⟩)
    (fun _ _ _ _ ↦ trivial) trivial

theorem meets_then (hc : AsksSettling c) {β : Type} {p : Request α} {f : α → Request β}
    (hp : p.Only Still) (hf : ∀ a t, c.Meets (fun _ _ ↦ True) (f a) t) :
    c.Meets (fun _ _ ↦ True) (p.bind f) s :=
  (meets_still hc hp).bind (fun a t _ ↦ hf a t) fun _ _ _ ↦ trivial

theorem meets_after (hc : AsksSettling c) {p : Request α} {β : Type} {f : α → Request β}
    (hp : c.Meets (fun _ _ ↦ True) p s) (hf : ∀ a, (f a).Only Still) :
    c.Meets (fun _ _ ↦ True) (p.bind f) s :=
  hp.bind (fun a _ _ ↦ meets_still hc (hf a)) fun _ _ _ ↦ trivial

theorem meets_settleOn (hc : AsksSettling c) {inputs : SettlementInputs} {id : Option ℕ}
    (hseen : SeenCompleted c on.bookingId) :
    c.Meets (fun _ _ ↦ True) (settleOn on inputs id) s := by
  have hlegs : (paymentLegsFor id).Only Still := by
    cases id with
    | none => trivial
    | some id => exact still_select _ _
  have hcredit (input : SettlementCredit) : (creditBookingSettlement input).Only Still := by
    unfold creditBookingSettlement
    split
    · trivial
    · exact (still_ledgerPost _).ignore
  have hsettlement (input : SettlementInput) : (settlementOf input).Only Still := by
    unfold settlementOf
    split
    · trivial
    · trivial
  unfold settleOn
  dsimp only
  split
  · refine meets_then hc hlegs fun paid t ↦ ?_
    refine meets_then hc (still_ledgerPost _).ignore.when fun _ t ↦ ?_
    refine meets_then hc (still_ledgerPost _).ignore.when fun _ t ↦ ?_
    refine meets_then hc (hsettlement _) fun settlement t ↦ ?_
    refine meets_then hc (hcredit _) fun _ t ↦ ?_
    refine meets_then hc (still_select _ _) fun now t ↦ ?_
    intro u _ hi _
    exact ⟨hc.settle _ _ _ u hseen hi, trivial⟩
  · trivial

theorem meets_settleInner (hc : AsksSettling c) :
    c.Meets (fun _ _ ↦ True) (settleInner env on) s := by
  have hinputs : c.Meets (fun r _ ↦ ∀ inputs, r = .ok inputs → inputs.status = .completed →
      SeenCompleted c on.bookingId) (settlementInputs on) s := by
    intro t _ hi _
    refine ⟨hc.still _ t (by simp) hi, fun inputs hok hcompleted ↦ ⟨t, hi, ?_⟩⟩
    dsimp only at hok
    split at hok
    · cases hok
    · rename_i r hr
      cases hok
      rw [hr]
      exact congrArg some hcompleted
  refine hinputs.bind (fun inputs t hin ↦ ?_) fun _ _ _ ↦ trivial
  split_ifs with hpaid hcancelled hcompleted
  · trivial
  · refine meets_then hc still_ensureCapturedRow fun id t ↦ ?_
    exact meets_still hc (still_write (by simp))
  · trivial
  · refine meets_then hc still_ensureCapturedRow fun id t ↦ ?_
    exact meets_settleOn hc (hin inputs rfl (not_not.mp hcompleted))

theorem meets_settleCapturedPayment (hc : AsksSettling c) :
    c.Meets (fun _ _ ↦ True) (settleCapturedPayment env on) s := by
  have hrelease : (Proc.write (.releaseLock on.bookingId) : Request Unit).Only Still :=
    still_write (by simp)
  refine meets_then hc (still_attempt (by simp)) fun held t ↦ ?_
  split
  · exact meets_settleInner hc
  · trivial
  · refine meets_after hc ?_ fun _ ↦ hrelease
    refine (meets_settleInner hc).handle (fun _ _ _ ↦ trivial) fun e t _ ↦ ?_
    exact meets_still hc (hrelease.bind fun _ ↦ trivial)

theorem meets_confirmCashCollected (hc : AsksSettling c) (driverId : ℕ) :
    c.Meets (fun _ _ ↦ True) (confirmCashCollected env b driverId) s := by
  refine meets_then hc (still_call _ _) fun row t ↦ ?_
  split_ifs
  · trivial
  · trivial
  · refine meets_then hc (still_select _ _) fun found t ↦ ?_
    cases found with
    | none => trivial
    | some intent =>
      refine meets_then hc (Proc.Only.when (still_throw _)) fun _ t ↦ ?_
      refine meets_after hc (meets_settleCapturedPayment hc) fun _ ↦ ?_
      exact (still_select _ _).bind fun _ ↦ trivial

theorem meets_payWithWallet (hc : AsksSettling c) (userId : ℕ) :
    c.Meets (fun _ _ ↦ True) (payWithWallet env b userId) s := by
  refine meets_then hc (still_loadPayableBooking _ _ _) fun booking t ↦ ?_
  split_ifs
  · exact meets_still hc (still_call _ _)
  · refine meets_then hc (still_select _ _) fun found t ↦ ?_
    cases found with
    | none => trivial
    | some row =>
      dsimp only
      split
      · refine meets_then hc (still_select _ _) fun balance t ↦ ?_
        refine meets_then hc (Proc.Only.when ?_) fun _ t ↦ ?_
        · exact (still_markFailed _ _).bind fun _ ↦ trivial
        · exact meets_after hc (meets_settleCapturedPayment hc) fun _ ↦ still_call _ _
      · trivial

theorem meets_capture (hc : AsksSettling c) (userId : ℕ) (body : PaymentCaptureRequest) :
    c.Meets (fun _ _ ↦ True) (capture env b userId body) s := by
  refine meets_then hc (still_loadPayableBooking _ _ _) fun booking t ↦ ?_
  split_ifs
  · exact meets_still hc (still_call _ _)
  · refine meets_then hc (still_collectedHandle body) fun handle t ↦ ?_
    refine meets_then hc (still_select _ _) fun row t ↦ ?_
    refine meets_then hc trivial fun _ t ↦ ?_
    exact meets_after hc (meets_settleCapturedPayment hc) fun _ ↦ still_call _ _

theorem still_closeOpenIntents : (PaymentCouponService.closeOpenIntents b).Only Still := by
  refine (still_select _ _).bind fun found ↦ ?_
  cases found with
  | none => trivial
  | some row =>
    dsimp only
    split_ifs
    · exact still_markFailed _ _
    · trivial

theorem meets_reconcileOne (hc : AsksSettling c) (payment : PaymentRow) :
    c.Meets (fun _ _ ↦ True) (PaymentReconcileService.reconcileOne env payment) s := by
  refine meets_then hc (still_call _ _) fun handle t ↦ ?_
  split
  · exact meets_settleCapturedPayment hc
  · exact meets_still hc (still_markFailed _ _)
  · exact meets_then hc (still_select _ _) fun now t ↦ meets_still hc (still_markFailed _ _).when

theorem meets_reconcileAll (hc : AsksSettling c) (payments : List PaymentRow) :
    c.Meets (fun _ _ ↦ True) (PaymentReconcileService.reconcileAll env payments) s := by
  induction payments generalizing s with
  | nil => trivial
  | cons payment rest ih =>
    refine Contract.Meets.bind (Q := fun _ _ ↦ True) ?_ (fun _ t _ ↦ ih) fun _ _ _ ↦ trivial
    exact (meets_reconcileOne hc payment).handle (fun _ _ _ ↦ trivial) fun _ _ _ ↦ trivial

theorem meets_recheckBooking (hc : AsksSettling c) :
    c.Meets (fun _ _ ↦ True) (PaymentReconcileService.recheckBooking env b) s := by
  refine meets_then hc (still_select _ _) fun found t ↦ ?_
  cases found with
  | none => trivial
  | some payment =>
    dsimp only
    split_ifs
    · trivial
    · refine meets_then hc (still_call _ _) fun handle t ↦ ?_
      split
      · exact meets_after hc (meets_settleCapturedPayment hc) fun _ ↦ trivial
      · exact meets_still hc ((still_markFailed _ _).bind fun _ ↦ trivial)
      · trivial

theorem meets_applyPayment (hc : AsksSettling c) (e : PaymentWebhookEvent) :
    c.Meets (fun _ _ ↦ True) (WebhooksController.applyPayment env e) s := by
  have hfind : (WebhooksController.resolvePaymentId e).Only Still := by
    unfold WebhooksController.resolvePaymentId WebhooksController.findForWebhook
    split
    · trivial
    · refine Proc.Only.bind (still_orElse ?_ ?_) fun _ ↦ trivial
      · split
        · exact still_select _ _
        · trivial
      · split
        · exact still_select _ _
        · trivial
  have hbooking : (WebhooksController.resolveBookingId e).Only Still := by
    unfold WebhooksController.resolveBookingId
    split
    · trivial
    · refine hfind.bind fun id ↦ ?_
      cases id with
      | none => trivial
      | some id => exact (still_select _ _).bind fun _ ↦ trivial
  unfold WebhooksController.applyPayment
  split
  · refine meets_then hc hbooking fun b t ↦ ?_
    cases b with
    | none => trivial
    | some b => exact meets_settleCapturedPayment hc
  · refine meets_then hc hfind fun id t ↦ ?_
    cases id with
    | none => trivial
    | some id => exact meets_still hc (still_markFailed _ _)
  · split
    · trivial
    · exact meets_still hc (still_write (by simp))
  · trivial
  · trivial

theorem meets_razorpay (hc : AsksSettling c) (e : PaymentWebhookEvent) :
    c.Meets (fun _ _ ↦ True) (WebhooksController.razorpay env e) s := by
  refine meets_then hc (still_select _ _) fun valid t ↦ ?_
  refine meets_then hc (Proc.Only.when (still_throw _)) fun _ t ↦ ?_
  refine meets_then hc (still_attempt (by simp)) fun inserted t ↦ ?_
  refine .when (fun _ ↦ ?_) fun _ ↦ trivial
  refine Contract.Meets.handle (Q := fun _ _ ↦ True) ?_ (fun _ _ _ ↦ trivial) fun err t _ ↦ ?_
  · exact meets_after hc (meets_applyPayment hc e) fun _ ↦ still_write (by simp)
  · exact meets_still hc (still_write (by simp))

theorem charges_meets (hc : AsksSettling c) {q : Request Unit} (h : Charges env q) :
    c.Meets (fun _ _ ↦ True) q s := by
  cases h with
  | createIntent b userId purpose key => exact meets_still hc (still_createIntent _ _ _).ignore
  | chooseCash b userId => exact meets_still hc (still_chooseCash _).ignore
  | confirmCashCollected b driverId => exact (meets_confirmCashCollected hc driverId).ignore
  | payWithWallet b userId => exact (meets_payWithWallet hc userId).ignore
  | capture b userId body => exact (meets_capture hc userId body).ignore
  | applyCoupon b userId code =>
    exact meets_then hc (still_attempt (by simp))
      fun _ t ↦ meets_still hc still_closeOpenIntents
  | removeCoupon b userId =>
    exact meets_then hc (still_attempt (by simp))
      fun _ t ↦ meets_still hc still_closeOpenIntents
  | webhook e => exact meets_razorpay hc e
  | sweep => exact meets_then hc (still_select _ _) fun payments t ↦ meets_reconcileAll hc payments
  | recheck b => exact (meets_recheckBooking hc).ignore
  | outside l h =>
    refine meets_still hc (still_write ?_)
    cases l <;> simp_all [Step.outside, Still, Step.table]

/-- Beside prices, paying writes nothing of a booking but that it is paid. -/
theorem charges_only {q : Request Unit} (h : Charges env q) :
    q.Only fun l ↦ Still l ∨ ∃ b patch on, l = .transition b .paid patch on := by
  let c : Contract Step World := ⟨fun _ ↦ True, fun _ _ ↦ True, fun _ _ ↦ True,
    fun l _ ↦ Still l ∨ ∃ b patch on, l = .transition b .paid patch on⟩
  have hc : AsksSettling c :=
    ⟨fun _ _ hl _ ↦ .inl hl, fun b patch on _ _ _ ↦ .inr ⟨b, patch, on, rfl⟩⟩
  suffices H : ∀ (p : Request Unit) (s : World), c.Meets (fun _ _ ↦ True) p s →
      p.Only fun l ↦ Still l ∨ ∃ b patch on, l = .transition b .paid patch on from
    H q World.blank (charges_meets hc h)
  intro p
  induction p with
  | done r => exact fun _ _ ↦ trivial
  | step l next ih =>
    intro s hm
    refine ⟨(hm s trivial trivial trivial).1, fun t ↦ ?_⟩
    exact ih t _ (hm t trivial trivial trivial).2

end Towing.Money
