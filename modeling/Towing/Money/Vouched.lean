import Towing.Money.CollectingRequests
import Towing.Process.Moments

namespace Towing.Money

open Towing.Db Towing.Process PaymentsRepo PaymentsService

/-- The step brings no payment and no order, and records, settles and refunds nothing. -/
def Step.minor : Step → Bool
  | .createPayment _ | .setOrderRef _ _ | .markCaptured _ _ _ _ | .createOrder _ | .post _ | .insertRefund _ _ => false
  | .transition _ _ _ on => on.isNone
  | _ => true

/-- The vendor has told the request that the payment is captured. -/
def Reports (handle : PaymentHandle) (q : Event Step World) : Prop :=
  handle.status = .captured ∧
    ((∃ gatewayRef orderRef, q.label = .select (.fetchPayment gatewayRef orderRef) ∧
        q.before.gateway.fetchPayment gatewayRef orderRef = .ok handle) ∨
      ∃ e : PaymentWebhookEvent, q.label = .select (.verifyWebhook e) ∧ q.before.gateway.verifyWebhook e = true ∧
        e.status = .captured ∧ handle = ⟨e.gatewayRef, e.orderRef, .captured, e.method, e.amountPaise, none⟩)

/-- The request has found open the wallet payment whose reference the handle carries. -/
def HoldsWallet (on : Settling) (q : Event Step World) : Prop :=
  ∃ row ref, q.label = .select (.openIntent on.bookingId .booking) ∧
    q.before.openIntent on.bookingId .booking = some row ∧ row.provider = .wallet ∧ row.gatewayOrderRef = some ref ∧
    on.handle.gatewayRef = some ref ∧ on.handle.orderRef = some ref

/-- What vouches for the money a request settles with: the vendor, a wallet payment, or
the driver who has taken cash. -/
inductive Vouched (past : List (Event Step World)) (on : Settling) : Prop
  | vendor : (∃ q ∈ past, Reports on.handle q) → Vouched past on
  | wallet : on.channel = .wallet → (∃ q ∈ past, HoldsWallet on q) → Vouched past on
  | cash {id : ℕ} : on.channel = .cash → on.handle.gatewayRef = some (.cash id) → on.handle.orderRef = none →
      Vouched past on

/-- What the request has seen it does not forget. -/
theorem seen_mono {P : Event Step World → Prop} (past : List (Event Step World)) (e : Event Step World)
    (h : ∃ q ∈ past, P q) : ∃ q ∈ past ++ [e], P q := by
  obtain ⟨q, hq, hP⟩ := h
  exact ⟨q, List.mem_append_left _ hq, hP⟩

theorem vouched_snoc {past : List (Event Step World)} {on : Settling} (e : Event Step World) (h : Vouched past on) :
    Vouched (past ++ [e]) on := by
  cases h with
  | vendor h => exact .vendor (seen_mono past e h)
  | wallet hc h => exact .wallet hc (seen_mono past e h)
  | cash hc hg ho => exact .cash hc hg ho

/-- A discipline that the minor steps keep, and the settlements vouched for, and the
requests that open a payment or record a fee. -/
structure Heeding (env : Env) (Φ : List (Event Step World) → Step → Prop) : Prop where
  minor : ∀ past l, l.minor = true → Φ past l
  settle : ∀ on past, Vouched past on → (settleCapturedPayment env on).Heeds Φ (fun _ _ ↦ True) past
  intent : ∀ b userId purpose key past, (createIntent env b userId purpose key).Heeds Φ (fun _ _ ↦ True) past
  cash : ∀ b userId past, (chooseCash env b userId).Heeds Φ (fun _ _ ↦ True) past
  fee : ∀ b body expectedPaise past,
    (CancellationFeeService.capture env b body expectedPaise).Heeds Φ (fun _ _ ↦ True) past

abbrev Minor {α : Type} (p : Request α) : Prop := p.Only fun l ↦ l.minor = true

section Minor

variable {α β : Type} {b : ℕ}

theorem minor_select (q : Select) (f : World → α) : Minor (select q f) := ⟨rfl, fun _ ↦ trivial⟩

theorem minor_call (q : Select) (f : World → Except Failure α) : Minor (call q f) := ⟨rfl, fun _ ↦ trivial⟩

theorem minor_attempt {l : Step} {f : World → Except Failure α} (h : l.minor = true) : Minor (Proc.attempt l f) :=
  ⟨h, fun _ ↦ trivial⟩

theorem minor_throw (e : Failure) : Minor (throw e : Request α) := trivial

theorem minor_orElse {p q : Request (Option α)} (hp : Minor p) (hq : Minor q) : Minor (orElse p q) := by
  refine hp.bind fun found ↦ ?_
  cases found with
  | none => exact hq
  | some a => trivial

theorem minor_markFailed (id : ℕ) (reason : String) : Minor (markFailed id reason) := minor_attempt rfl

theorem minor_closeOpenIntents : Minor (PaymentCouponService.closeOpenIntents b) := by
  refine (minor_select _ _).bind fun found ↦ ?_
  cases found with
  | none => trivial
  | some row =>
    dsimp only
    split_ifs
    · exact minor_markFailed _ _
    · trivial

theorem minor_resolvePaymentId (e : PaymentWebhookEvent) : Minor (WebhooksController.resolvePaymentId e) := by
  unfold WebhooksController.resolvePaymentId WebhooksController.findForWebhook
  split
  · trivial
  · refine Proc.Only.bind (minor_orElse ?_ ?_) fun _ ↦ trivial
    · split
      · exact minor_select _ _
      · trivial
    · split
      · exact minor_select _ _
      · trivial

theorem minor_resolveBookingId (e : PaymentWebhookEvent) : Minor (WebhooksController.resolveBookingId e) := by
  unfold WebhooksController.resolveBookingId
  split
  · trivial
  · refine (minor_resolvePaymentId e).bind fun id ↦ ?_
    cases id with
    | none => trivial
    | some id => exact (minor_select _ _).bind fun _ ↦ trivial

end Minor

section Sequencing

variable {α β : Type} {Φ : List (Event Step World) → Step → Prop} {past : List (Event Step World)}
  {q : Select} {p : Request β} {f : β → Request α}

theorem select_then {Q : Except Failure α → List (Event Step World) → Prop} {g : World → β}
    (hq : Φ past (.select q)) (hf : ∀ s, (f (g s)).Heeds Φ Q (past ++ [⟨.select q, s, s⟩])) :
    ((select q g).bind f).Heeds Φ Q past := ⟨hq, hf⟩

theorem call_then {g : World → Except Failure β} (hq : Φ past (.select q))
    (hf : ∀ s a, g s = .ok a → (f a).Heeds Φ (fun _ _ ↦ True) (past ++ [⟨.select q, s, s⟩])) :
    ((call q g).bind f).Heeds Φ (fun _ _ ↦ True) past := by
  refine ⟨hq, fun s ↦ ?_⟩
  cases hg : g s with
  | error e =>
    simp only [hg]
    trivial
  | ok a =>
    simp only [hg]
    exact hf s a hg

variable (hminor : ∀ past l, l.minor = true → Φ past l)
include hminor

theorem heeds_minor (hp : Minor p) : p.Heeds Φ (fun _ _ ↦ True) past :=
  .of_only (R := fun _ ↦ True) hp (fun past l _ hl ↦ hminor past l hl) (fun _ _ _ ↦ trivial) trivial

/-- After minor steps, what has been known is known. -/
theorem minor_after {R : List (Event Step World) → Prop} (hp : Minor p) (hR : ∀ past e, R past → R (past ++ [e]))
    (hpast : R past) (hf : ∀ a past, R past → (f a).Heeds Φ (fun _ _ ↦ True) past) :
    (p.bind f).Heeds Φ (fun _ _ ↦ True) past :=
  .kept_then hp (fun past l _ hl ↦ hminor past l hl) (fun past e h _ ↦ hR past e h) hpast hf

theorem minor_then (hp : Minor p) (hf : ∀ a past, (f a).Heeds Φ (fun _ _ ↦ True) past) :
    (p.bind f).Heeds Φ (fun _ _ ↦ True) past :=
  minor_after hminor (R := fun _ ↦ True) hp (fun _ _ _ ↦ trivial) trivial fun a past _ ↦ hf a past

theorem vouched_after {on : Settling} (hp : Minor p) (hv : Vouched past on)
    (hf : ∀ a past, Vouched past on → (f a).Heeds Φ (fun _ _ ↦ True) past) :
    (p.bind f).Heeds Φ (fun _ _ ↦ True) past :=
  minor_after hminor (R := (Vouched · on)) hp (fun _ ↦ vouched_snoc) hv hf

theorem then_minor (hp : p.Heeds Φ (fun _ _ ↦ True) past) (hf : ∀ a, Minor (f a)) :
    (p.bind f).Heeds Φ (fun _ _ ↦ True) past :=
  hp.bind (fun a _ _ ↦ heeds_minor hminor (hf a)) fun _ _ _ ↦ trivial

theorem fetch_then {gatewayRef orderRef : Option Ref} {f : PaymentHandle → Request α}
    (hf : ∀ handle past, (handle.status = .captured → ∃ q ∈ past, Reports handle q) →
      (f handle).Heeds Φ (fun _ _ ↦ True) past) :
    ((fetchPayment gatewayRef orderRef).bind f).Heeds Φ (fun _ _ ↦ True) past := by
  refine call_then (hminor _ _ rfl) fun s handle hanswer ↦ hf handle _ fun hcaptured ↦ ?_
  exact ⟨_, List.mem_append_right _ List.mem_cons_self, hcaptured, .inl ⟨gatewayRef, orderRef, rfl, hanswer⟩⟩

/-- What is done with a collected handle, the vendor has reported. -/
theorem collected_then {body : PaymentCaptureRequest} {f : PaymentHandle → Request α}
    (hf : ∀ handle past, (∃ q ∈ past, Reports handle q) → (f handle).Heeds Φ (fun _ _ ↦ True) past) :
    ((collectedHandle body).bind f).Heeds Φ (fun _ _ ↦ True) past := by
  unfold collectedHandle
  simp only [Proc.bind_eq, Proc.bind_assoc]
  refine minor_then hminor (minor_select _ _) fun valid past ↦ ?_
  refine minor_then hminor (minor_throw _).when fun _ past ↦ fetch_then hminor fun handle past hreports ↦ ?_
  by_cases hcaptured : handle.status = .captured
  · refine minor_after hminor (minor_throw _).when seen_mono (hreports hcaptured) fun _ past h ↦ ?_
    exact hf handle past h
  · rw [Proc.when_pos hcaptured]
    trivial

end Sequencing

namespace Heeding

variable {env : Env} {Φ : List (Event Step World) → Step → Prop} {b : ℕ} {past : List (Event Step World)}
  (h : Heeding env Φ)
include h

theorem confirmCashCollected (driverId : ℕ) :
    (PaymentsService.confirmCashCollected env b driverId).Heeds Φ (fun _ _ ↦ True) past := by
  refine minor_then h.minor (minor_call _ _) fun row past ↦ ?_
  split_ifs
  · trivial
  · trivial
  · refine minor_then h.minor (minor_select _ _) fun found past ↦ ?_
    cases found with
    | none => trivial
    | some intent =>
      refine minor_then h.minor (minor_throw _).when fun _ past ↦ ?_
      exact then_minor h.minor (h.settle _ _ (.cash rfl rfl rfl)) fun _ ↦ (minor_select _ _).bind fun _ ↦ trivial

theorem payWithWallet (userId : ℕ) :
    (PaymentsService.payWithWallet env b userId).Heeds Φ (fun _ _ ↦ True) past := by
  refine minor_then h.minor (minor_call _ _) fun booking past ↦ ?_
  split_ifs
  · exact heeds_minor h.minor (minor_call _ _)
  · refine select_then (h.minor _ _ rfl) fun s ↦ ?_
    cases hopen : s.openIntent b .booking with
    | none => trivial
    | some row =>
      dsimp only
      split
      · rename_i ref hprovider href
        have hfailed (e : Failure) : Minor (do markFailed row.id "Wallet balance changed"; throw e : Request Unit) :=
          (minor_markFailed _ _).bind fun _ ↦ trivial
        have hholds : Vouched (past ++ [⟨.select (.openIntent b .booking), s, s⟩])
            ⟨b, ⟨some ref, some ref, .captured, some .wallet, some 0, none⟩, .wallet⟩ :=
          .wallet rfl ⟨_, List.mem_append_right _ List.mem_cons_self, row, ref, rfl, hopen, hprovider, href, rfl, rfl⟩
        refine vouched_after h.minor (minor_select _ _) hholds fun balance past hholds ↦ ?_
        refine vouched_after h.minor (hfailed _).when hholds fun _ past hholds ↦ ?_
        exact then_minor h.minor (h.settle _ _ hholds) fun _ ↦ minor_call _ _
      · trivial

theorem capture (userId : ℕ) (body : PaymentCaptureRequest) :
    (PaymentsService.capture env b userId body).Heeds Φ (fun _ _ ↦ True) past := by
  refine minor_then h.minor (minor_call _ _) fun booking past ↦ ?_
  split_ifs
  · exact heeds_minor h.minor (minor_call _ _)
  · refine collected_then h.minor fun handle past hreports ↦ ?_
    refine minor_after h.minor (minor_select _ _) seen_mono hreports fun row past hreports ↦ ?_
    have hamount (r : Except Failure Unit) : Minor (Proc.done r) := trivial
    refine minor_after h.minor (hamount _) seen_mono hreports fun _ past hreports ↦ ?_
    exact then_minor h.minor (h.settle _ _ (.vendor hreports)) fun _ ↦ minor_call _ _

theorem reconcileOne (payment : PaymentRow) :
    (PaymentReconcileService.reconcileOne env payment).Heeds Φ (fun _ _ ↦ True) past := by
  refine fetch_then h.minor fun handle past hreports ↦ ?_
  split
  · rename_i hcaptured
    exact h.settle _ _ (.vendor (hreports hcaptured))
  · exact heeds_minor h.minor (minor_markFailed _ _)
  · exact minor_then h.minor (minor_select _ _) fun now past ↦ heeds_minor h.minor (minor_markFailed _ _).when

theorem reconcileAll (payments : List PaymentRow) :
    (PaymentReconcileService.reconcileAll env payments).Heeds Φ (fun _ _ ↦ True) past := by
  induction payments generalizing past with
  | nil => trivial
  | cons payment rest ih =>
    refine Proc.Heeds.bind (Q := fun _ _ ↦ True) ?_ (fun _ past _ ↦ ih) fun _ _ _ ↦ trivial
    exact (h.reconcileOne payment).handle (fun _ _ _ ↦ trivial) fun _ _ _ ↦ trivial

theorem recheckBooking : (PaymentReconcileService.recheckBooking env b).Heeds Φ (fun _ _ ↦ True) past := by
  refine minor_then h.minor (minor_select _ _) fun found past ↦ ?_
  cases found with
  | none => trivial
  | some payment =>
    dsimp only
    split_ifs
    · trivial
    · refine fetch_then h.minor fun handle past hreports ↦ ?_
      split
      · rename_i hcaptured
        exact then_minor h.minor (h.settle _ _ (.vendor (hreports hcaptured))) fun _ ↦ trivial
      · exact heeds_minor h.minor ((minor_markFailed _ _).bind fun _ ↦ trivial)
      · trivial

theorem devSettle (paymentId : ℕ) (ref : Ref) :
    (PaymentReconcileService.devSettle env paymentId ref).Heeds Φ (fun _ _ ↦ True) past := by
  refine minor_then h.minor (minor_select _ _) fun found past ↦ ?_
  cases found with
  | none => trivial
  | some row =>
    dsimp only
    split_ifs
    · trivial
    · refine fetch_then h.minor fun handle past hreports ↦ Proc.Heeds.when (fun hcaptured ↦ ?_) fun _ ↦ trivial
      exact h.settle _ _ (.vendor (hreports hcaptured))

theorem applyPayment (e : PaymentWebhookEvent) (hreports : e.status = .captured → ∃ q ∈ past,
    Reports ⟨e.gatewayRef, e.orderRef, .captured, e.method, e.amountPaise, none⟩ q) :
    (WebhooksController.applyPayment env e).Heeds Φ (fun _ _ ↦ True) past := by
  unfold WebhooksController.applyPayment
  split
  · rename_i hcaptured
    refine minor_after h.minor (minor_resolveBookingId e) seen_mono (hreports hcaptured) fun b past hreports ↦ ?_
    cases b with
    | none => trivial
    | some b => exact h.settle _ _ (.vendor hreports)
  · refine minor_then h.minor (minor_resolvePaymentId e) fun id past ↦ ?_
    cases id with
    | none => trivial
    | some id => exact heeds_minor h.minor (minor_markFailed _ _)
  · split
    · trivial
    · exact heeds_minor h.minor (minor_attempt rfl)
  · trivial
  · trivial

theorem razorpay (e : PaymentWebhookEvent) :
    (WebhooksController.razorpay env e).Heeds Φ (fun _ _ ↦ True) past := by
  refine select_then (h.minor _ _ rfl) fun s ↦ ?_
  by_cases hvalid : s.gateway.verifyWebhook e = true
  · have hseen : ∃ q ∈ past ++ [(⟨.select (.verifyWebhook e), s, s⟩ : Event Step World)],
        q.label = .select (.verifyWebhook e) ∧ q.before.gateway.verifyWebhook e = true :=
      ⟨_, List.mem_append_right _ List.mem_cons_self, rfl, hvalid⟩
    refine minor_after h.minor (minor_throw _).when seen_mono hseen fun _ past hseen ↦ ?_
    refine minor_after h.minor (minor_attempt rfl) seen_mono hseen fun inserted past hseen ↦ ?_
    refine Proc.Heeds.when (fun _ ↦ ?_) fun _ ↦ trivial
    refine Proc.Heeds.handle (Q := fun _ _ ↦ True) ?_ (fun _ _ _ ↦ trivial) fun err past _ ↦ ?_
    · refine then_minor h.minor (h.applyPayment e fun hcaptured ↦ ?_) fun _ ↦ minor_attempt rfl
      obtain ⟨q, hq, hl, hq'⟩ := hseen
      exact ⟨q, hq, rfl, .inr ⟨e, hl, hq', hcaptured, rfl⟩⟩
    · exact heeds_minor h.minor (minor_attempt rfl)
  · have hinvalid : (!s.gateway.verifyWebhook e) = true := by simpa using hvalid
    rw [Proc.when_pos hinvalid]
    trivial

/-- Every request by which money is collected keeps the discipline. -/
theorem collects {p : Request Unit} (hp : Collects env p) : p.Heeds Φ (fun _ _ ↦ True) past := by
  cases hp with
  | createIntent b userId purpose key => exact then_minor h.minor (h.intent b userId purpose key past) fun _ ↦ trivial
  | chooseCash b userId => exact then_minor h.minor (h.cash b userId past) fun _ ↦ trivial
  | confirmCashCollected b driverId => exact then_minor h.minor (h.confirmCashCollected driverId) fun _ ↦ trivial
  | payWithWallet b userId => exact then_minor h.minor (h.payWithWallet userId) fun _ ↦ trivial
  | capture b userId body => exact then_minor h.minor (h.capture userId body) fun _ ↦ trivial
  | captureFee b body expectedPaise => exact h.fee b body expectedPaise past
  | applyCoupon b userId code =>
    exact minor_then h.minor (minor_attempt rfl) fun _ _ ↦ heeds_minor h.minor minor_closeOpenIntents
  | removeCoupon b userId =>
    exact minor_then h.minor (minor_attempt rfl) fun _ _ ↦ heeds_minor h.minor minor_closeOpenIntents
  | webhook e => exact h.razorpay e
  | sweep => exact minor_then h.minor (minor_select _ _) fun payments _ ↦ h.reconcileAll payments
  | ambient l hl =>
    refine heeds_minor h.minor (minor_attempt ?_)
    cases l with
    | transition b target patch on =>
      simp only [Step.ambient, Bool.and_eq_true] at hl
      exact hl.1
    | _ => first | rfl | cases hl

end Heeding

end Towing.Money
