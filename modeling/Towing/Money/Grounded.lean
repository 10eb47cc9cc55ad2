import Towing.Money.RefundPools
import Towing.Money.TripMoney
import Towing.Money.Vouched

namespace Towing.Money

open Towing.Db Towing.Process PaymentsRepo PaymentsService

/-- Everything that asks for money, collects it or gives it back. -/
inductive MovesMoney (env : Env) : Request Unit → Prop
  | collects {p : Request Unit} (h : Collects env p) : MovesMoney env p
  | recheck (b : ℕ) : MovesMoney env (PaymentReconcileService.recheckBooking env b).ignore
  | devSettle (paymentId : ℕ) (ref : Ref) : MovesMoney env (PaymentReconcileService.devSettle env paymentId ref)
  | full (p : RefundBooking) : MovesMoney env (RefundsService.refundBooking env p).ignore
  | part (p : RefundPartial) : MovesMoney env (RefundsService.refundPartial env p).ignore

/-- The step brings no payment, captures none and begins no refund. -/
def Step.idle : Step → Bool
  | .createPayment _ | .markCaptured _ _ _ _ | .insertRefund _ _ => false
  | _ => true

theorem Step.idle_of_minor {l : Step} (h : l.minor = true) : l.idle = true := by
  cases l with
  | createPayment | markCaptured | insertRefund => cases h
  | _ => rfl

/-- The capture is of the payment of the handle. -/
def Step.records (handle : PaymentHandle) : Step → Prop
  | .markCaptured _ ref _ on => (∀ r, handle.gatewayRef = some r → ref = some r) ∧ ∀ s, on = some s → s.handle = handle
  | _ => False

/-- A capture at the gateway, as opposed to the ones the service makes up itself. -/
def GatewayCapture (past : List (Event Step World)) (l : Step) : Prop :=
  ∃ q ∈ past, ∃ handle, Reports handle q ∧ l.records handle

/-- Paid from the wallet, or in cash. -/
def Settling.counter (on : Settling) : Prop := on.channel = .wallet ∨ on.channel = .cash

instance (on : Settling) : Decidable on.counter := inferInstanceAs (Decidable (_ ∨ _))

/-- A settlement that the vendor does not vouch for is one of the service's own. -/
theorem Vouched.seen {past : List (Event Step World)} {on : Settling} (h : Vouched past on) :
    on.counter ∨ ∃ q ∈ past, Reports on.handle q := by
  cases h with
  | vendor h => exact .inr h
  | wallet hc => exact .inl (.inl hc)
  | cash hc => exact .inl (.inr hc)

/-- The commit finds the payment captured. -/
def FindsCaptured (id : ℕ) (q : Event Step World) : Prop :=
  ∃ b row, q.label = .select (.capturedFor b .booking) ∧ q.before.capturedFor b .booking = some row ∧ row.id = id

/-- What a request has seen before it brings a payment, captures one or refunds it. -/
inductive Grounded (past : List (Event Step World)) : Step → Prop
  | idle {l : Step} : l.idle = true → Grounded past l
  | create {p : NewPayment} : (p.provider = .wallet → p.amount = 0) → Grounded past (.createPayment p)
  | counter {id : ℕ} {ref : Option Ref} {method : Option PaymentMethod} {on : Settling} : on.counter →
      Grounded past (.markCaptured id ref method (some on))
  | gateway {l : Step} : GatewayCapture past l → Grounded past l
  | refund {r : NewRefund} {seen : ℤ × ℤ} : (∃ q ∈ past, FindsCaptured r.paymentId q) →
      Grounded past (.insertRefund r seen)

section Requests

variable {env : Env} {b : ℕ} {on : Settling} {α : Type} {past : List (Event Step World)}
  {Q : Except Failure α → List (Event Step World) → Prop}

abbrev Idle (p : Request α) : Prop := p.Only fun l ↦ l.idle = true

theorem grounded_of_idle {p : Request α} (hp : Idle p) : p.Heeds Grounded (fun _ _ ↦ True) past :=
  Proc.Heeds.of_only (R := fun _ ↦ True) hp (fun _ _ _ hl ↦ .idle hl) (fun _ _ _ ↦ trivial) trivial

theorem idle_then {β : Type} {p : Request β} {f : β → Request α} (hp : Idle p)
    (hf : ∀ a past', (f a).Heeds Grounded (fun _ _ ↦ True) past') :
    (p.bind f).Heeds Grounded (fun _ _ ↦ True) past :=
  (grounded_of_idle hp).bind (fun a past' _ ↦ hf a past') fun _ _ _ ↦ trivial

/-- The same, after something that has been seen. -/
theorem idle_after {β : Type} {P : Event Step World → Prop} {p : Request β} {f : β → Request α} (hp : Idle p)
    (hpast : ∃ q ∈ past, P q)
    (hf : ∀ a past', (∃ q ∈ past', P q) → (f a).Heeds Grounded (fun _ _ ↦ True) past') :
    (p.bind f).Heeds Grounded (fun _ _ ↦ True) past :=
  (Proc.Heeds.of_only (R := fun past ↦ ∃ q ∈ past, P q) hp (fun _ _ _ hl ↦ .idle hl) seen_mono hpast).bind
    (fun a past' h ↦ hf a past' h) fun _ _ _ ↦ trivial

theorem then_idle {β : Type} {p : Request β} {f : β → Request α} (hp : p.Heeds Grounded (fun _ _ ↦ True) past)
    (hf : ∀ a, Idle (f a)) : (p.bind f).Heeds Grounded (fun _ _ ↦ True) past :=
  hp.bind (fun a _ _ ↦ grounded_of_idle (hf a)) fun _ _ _ ↦ trivial

theorem idle_attempt {l : Step} {f : World → Except Failure α} (h : l.idle = true) : Idle (Proc.attempt l f) :=
  ⟨h, fun _ ↦ trivial⟩

theorem idle_select (q : Select) (f : World → α) : Idle (select q f) := idle_attempt rfl

theorem idle_call (q : Select) (f : World → Except Failure α) : Idle (call q f) := idle_attempt rfl

theorem idle_orElse {p q : Request (Option α)} (hp : Idle p) (hq : Idle q) : Idle (orElse p q) := by
  refine hp.bind fun found ↦ ?_
  cases found with
  | none => exact hq
  | some a => trivial

/-! A settlement. -/

/-- What a settlement does: it may bring a row of the gateway's, and captures with its handle. -/
def SettleStep (on : Settling) (l : Step) : Prop :=
  l.idle = true ∨ (∃ p : NewPayment, l = .createPayment p ∧ p.provider = .gateway) ∨
    ∃ id, l = .markCaptured id on.handle.gatewayRef on.handle.method (some on)

abbrev SettlesOnly (on : Settling) (p : Request α) : Prop := p.Only (SettleStep on)

theorem settles_idle {p : Request α} (hp : Idle p) : SettlesOnly on p := hp.mono fun _ h ↦ .inl h

theorem idle_byHandleRef : Idle (byHandleRef on) := by
  unfold byHandleRef
  split
  · exact idle_select _ _
  · trivial

theorem idle_existingRow : Idle (existingRow on) := by
  refine idle_orElse (idle_orElse (idle_orElse idle_byHandleRef ?_) (idle_select _ _)) (idle_select _ _)
  unfold byHandleOrder
  split
  · exact idle_select _ _
  · trivial

theorem settles_markCaptured (id : ℕ) :
    SettlesOnly on (markCaptured id on.handle.gatewayRef on.handle.method (some on)) :=
  ⟨.inr (.inr ⟨id, rfl⟩), fun _ ↦ trivial⟩

theorem settles_ensureCapturedRow : SettlesOnly on (ensureCapturedRow env on) := by
  refine (settles_idle idle_existingRow).bind fun found ↦ ?_
  cases found with
  | some existing => exact (settles_markCaptured existing.id).when.bind fun _ ↦ trivial
  | none =>
    refine (settles_idle (idle_select _ _)).bind fun booking ↦ ?_
    cases booking with
    | none => trivial
    | some booking =>
      refine Proc.Only.handle ?_ fun e ↦ ?_
      · refine Proc.Only.bind ⟨.inr (.inl ⟨_, rfl, rfl⟩), fun _ ↦ trivial⟩ fun created ↦ ?_
        exact (settles_markCaptured created.id).bind fun _ ↦ trivial
      · split_ifs
        · exact (settles_idle idle_byHandleRef).bind fun _ ↦ trivial
        · trivial

theorem idle_ledgerPost (legs : List (LedgerLeg LedgerKey)) : Idle (ledgerPost legs) := idle_attempt rfl

theorem idle_settleOn (inputs : SettlementInputs) (paymentId : Option ℕ) : Idle (settleOn on inputs paymentId) := by
  have hlegs : Idle (paymentLegsFor paymentId) := by
    cases paymentId with
    | none => trivial
    | some id => exact idle_select _ _
  have hcredit (input : SettlementCredit) : Idle (creditBookingSettlement input) := by
    unfold creditBookingSettlement
    split
    · trivial
    · exact (idle_ledgerPost _).ignore
  have hsettlement (input : SettlementInput) : Idle (settlementOf input) := by
    unfold settlementOf
    split
    · trivial
    · trivial
  unfold settleOn
  dsimp only
  split
  · refine hlegs.bind fun paid ↦ (idle_ledgerPost _).ignore.when.bind fun _ ↦ ?_
    refine (idle_ledgerPost _).ignore.when.bind fun _ ↦ (hsettlement _).bind fun settlement ↦ ?_
    refine (hcredit _).bind fun _ ↦ (idle_select _ _).bind fun now ↦ ?_
    exact idle_attempt rfl
  · trivial

theorem settles_settleInner : SettlesOnly on (settleInner env on) := by
  refine (settles_idle (idle_call _ _)).bind fun inputs ↦ ?_
  split_ifs
  · trivial
  · exact settles_ensureCapturedRow.bind fun id ↦ settles_idle (idle_attempt rfl)
  · trivial
  · exact settles_ensureCapturedRow.bind fun id ↦ settles_idle (idle_settleOn _ _)

theorem settles_settleCapturedPayment : SettlesOnly on (settleCapturedPayment env on) := by
  have hrelease : SettlesOnly on (Proc.write (.releaseLock on.bookingId) : Request Unit) := settles_idle (idle_attempt rfl)
  refine (settles_idle (idle_attempt rfl)).bind fun held ↦ ?_
  split
  · exact settles_settleInner
  · trivial
  · refine Proc.Only.bind ?_ fun _ ↦ hrelease
    exact settles_settleInner.handle fun e ↦ hrelease.bind fun _ ↦ trivial

theorem grounded_settle (h : on.counter ∨ ∃ q ∈ past, Reports on.handle q) :
    (settleCapturedPayment env on).Heeds Grounded (fun _ _ ↦ True) past := by
  refine (Proc.Heeds.of_only (R := fun past ↦ on.counter ∨ ∃ q ∈ past, Reports on.handle q)
    settles_settleCapturedPayment (fun past l hpast hl ↦ ?_) (fun past e ↦ Or.imp_right (seen_mono past e)) h).mono
      (fun _ _ h ↦ h) fun _ _ _ ↦ trivial
  obtain hidle | ⟨p, rfl, hprovider⟩ | ⟨id, rfl⟩ := hl
  · exact .idle hidle
  · exact .create fun hwallet ↦ by simp [hprovider] at hwallet
  · rcases hpast with hcounter | ⟨q, hq, hreports⟩
    · exact .counter hcounter
    · exact .gateway ⟨q, hq, on.handle, hreports, fun _ h ↦ h, fun s hs ↦ by cases hs; rfl⟩

theorem grounded_create {p : NewPayment} (hp : p.provider = .wallet → p.amount = 0) :
    (create p).Heeds Grounded (fun _ _ ↦ True) past := ⟨.create hp, fun _ ↦ trivial⟩

end Requests

section Requests

variable {env : Env} {b : ℕ} {on : Settling} {α : Type} {past : List (Event Step World)}

theorem idle_markFailed (id : ℕ) (reason : String) : Idle (markFailed id reason) := idle_attempt rfl

theorem idle_loadPayableBooking (userId : ℕ) (purpose : PaymentPurpose) (allowPaid : Bool) :
    Idle (loadPayableBooking b userId purpose allowPaid) := idle_call _ _

/-- A request that may bring a row, but captures none. -/
theorem grounded_intentRow {purpose : PaymentPurpose} {total balance : ℤ} {p : NewPayment}
    (hp : p.provider = .wallet → p.amount = 0) :
    (intentRow b purpose total balance p).Heeds Grounded (fun _ _ ↦ True) past := by
  have hreuse : Idle (reusableIntent b purpose total balance) := by
    refine (idle_select _ _).bind fun found ↦ ?_
    cases found with
    | none => trivial
    | some row =>
      dsimp only
      split_ifs
      · exact (idle_markFailed _ _).bind fun _ ↦ trivial
      · trivial
  refine idle_then hreuse fun found past' ↦ ?_
  cases found with
  | some row => trivial
  | none =>
    refine (grounded_create hp).handle (fun _ _ h ↦ h) fun e past'' _ ↦ grounded_of_idle ?_
    split_ifs
    · refine (idle_select _ _).bind fun found ↦ ?_
      cases found with
      | none => trivial
      | some existing => trivial
    · trivial

theorem idle_openOrder {purpose : PaymentPurpose} {walletPaise gatewayPaise : ℤ} {row : PaymentRow} :
    Idle (openOrder b purpose walletPaise gatewayPaise row) := by
  unfold openOrder
  split_ifs
  · exact (idle_attempt rfl).bind fun _ ↦ trivial
  · exact (idle_attempt rfl).bind fun ref ↦ (idle_attempt rfl).bind fun _ ↦ trivial

theorem grounded_createIntent (userId : ℕ) (purpose : PaymentPurpose) (clientKey : String) :
    (createIntent env b userId purpose clientKey).Heeds Grounded (fun _ _ ↦ True) past := by
  refine idle_then (idle_loadPayableBooking _ _ _) fun booking past' ↦ ?_
  have htotal : Idle (totalPaise env purpose booking) := by
    cases purpose with
    | booking => trivial
    | cancellationFee => exact (idle_select _ _).bind fun _ ↦ trivial
  have hspendable : Idle (spendable purpose userId) := by
    cases purpose with
    | booking => exact idle_select _ _
    | cancellationFee => trivial
  have hnothing (e : Failure) : Idle (throw e : Request Unit) := trivial
  refine idle_then htotal fun total past' ↦ idle_then (hnothing _).when fun _ past' ↦ ?_
  refine idle_then hspendable fun balance past' ↦ then_idle (grounded_intentRow ?_) fun row ↦ ?_
  · intro hwallet
    dsimp only at hwallet ⊢
    split_ifs at hwallet with hcovered
    exact hcovered.2
  · split
    · trivial
    · exact idle_openOrder

theorem grounded_chooseCash (userId : ℕ) :
    (chooseCash env b userId).Heeds Grounded (fun _ _ ↦ True) past := by
  have hcash (booking : Booking) (past : List (Event Step World)) :
      (chooseCash.createCash env b booking).Heeds Grounded (fun _ _ ↦ True) past := by
    refine idle_then (idle_attempt rfl) fun uuid past' ↦ then_idle (grounded_create ?_) fun _ ↦ trivial
    exact fun hwallet ↦ by cases hwallet
  refine idle_then (idle_loadPayableBooking _ _ _) fun booking past' ↦ ?_
  refine idle_then (idle_select _ _) fun found past' ↦ ?_
  cases found with
  | none => exact hcash booking _
  | some row =>
    dsimp only
    split_ifs
    · trivial
    · exact idle_then (idle_markFailed _ _) fun _ past' ↦ hcash booking past'

theorem grounded_captureFee (body : PaymentCaptureRequest) (expectedPaise : ℤ) :
    (CancellationFeeService.capture env b body expectedPaise).Heeds Grounded (fun _ _ ↦ True) past := by
  refine idle_then (idle_select _ _) fun found past' ↦ ?_
  cases found with
  | some row => trivial
  | none =>
    refine collected_then (fun _ l hl ↦ .idle (Step.idle_of_minor hl)) fun handle past' hreports ↦ ?_
    have hrefuse (e : Failure) : Idle (throw e : Request Unit) := trivial
    refine idle_after (hrefuse _).when hreports fun _ past' hreports ↦ ?_
    have hmark (row : PaymentRow) (past : List (Event Step World)) (h : ∃ q ∈ past, Reports handle q) :
        (markCaptured row.id (handle.gatewayRef <|> some body.gatewayRef) handle.method none).Heeds Grounded
          (fun _ _ ↦ True) past := by
      obtain ⟨q, hq, hreports⟩ := h
      refine ⟨.gateway ⟨q, hq, handle, hreports, fun r hr ↦ by simp [hr], fun s hs ↦ by cases hs⟩, fun _ ↦ trivial⟩
    have hcreate : (CancellationFeeService.createRow env b expectedPaise body.gatewayRef).Only fun l ↦
        l.idle = true ∨ ∃ p : NewPayment, l = .createPayment p ∧ p.provider = .gateway := by
      refine Proc.Only.handle ⟨.inr ⟨_, rfl, rfl⟩, fun _ ↦ trivial⟩ fun e ↦ ?_
      split_ifs
      · refine Proc.Only.bind ⟨.inl rfl, fun _ ↦ trivial⟩ fun raced ↦ ?_
        cases raced with
        | none => trivial
        | some raced => trivial
      · trivial
    have hrow : (CancellationFeeService.feeRow env b expectedPaise body.gatewayRef).Only fun l ↦
        l.idle = true ∨ ∃ p : NewPayment, l = .createPayment p ∧ p.provider = .gateway := by
      refine Proc.Only.bind ⟨.inl rfl, fun _ ↦ trivial⟩ fun found ↦ ?_
      cases found with
      | some row => trivial
      | none => exact hcreate
    refine (Proc.Heeds.of_only (R := fun past ↦ ∃ q ∈ past, Reports handle q) hrow (fun past l _ hl ↦ ?_) seen_mono
      hreports).bind (fun row past' h ↦ hmark row past' h) fun _ _ _ ↦ trivial
    obtain hidle | ⟨p, rfl, hprovider⟩ := hl
    · exact .idle hidle
    · exact .create fun hwallet ↦ by simp [hprovider] at hwallet

/-- What is known of every request by which money is collected. -/
theorem groundedHeeding : Heeding env Grounded where
  minor _ _ hl := .idle (Step.idle_of_minor hl)
  settle _ _ hv := grounded_settle hv.seen
  intent _ userId purpose key _ := grounded_createIntent userId purpose key
  cash _ userId _ := grounded_chooseCash userId
  fee _ body expectedPaise _ := grounded_captureFee body expectedPaise

end Requests

section Refunds

open RefundsService

variable {env : Env} {b id : ℕ} {past : List (Event Step World)}

theorem idle_callGateway (key : RefundKey) (ref : Option Ref) (paise : ℤ) : Idle (callGateway id key ref paise) := by
  unfold callGateway
  split_ifs
  · trivial
  · split
    · trivial
    · split_ifs
      · trivial
      · refine Proc.Only.handle ?_ fun e ↦ (idle_attempt rfl).bind fun _ ↦ trivial
        exact (idle_attempt rfl).bind fun answer ↦ idle_attempt rfl

theorem idle_creditWallet (paise : ℤ) : Idle (creditWallet b id paise) := by
  refine (idle_select _ _).bind fun booking ↦ ?_
  cases booking with
  | none => trivial
  | some booking => exact (idle_ledgerPost _).ignore

theorem idle_settlementCredits : Idle (settlementCredits env b) := idle_select _ _

theorem idle_reversedByOwner : Idle (reversedByOwner b) := idle_select _ _

theorem idle_reverseLedger : Idle (reverseLedger env b id) := by
  refine idle_settlementCredits.bind fun credits ↦ ?_
  split_ifs
  · trivial
  · exact idle_reversedByOwner.bind fun _ ↦ (idle_ledgerPost _).ignore

theorem idle_clawback (share : ℤ) (cause : Option RefundCause) : Idle (clawback env b id share cause) := by
  unfold clawback
  split_ifs
  · trivial
  · refine idle_reversedByOwner.bind fun reversed ↦ idle_settlementCredits.bind fun credits ↦ ?_
    dsimp only
    split_ifs
    · trivial
    · exact (idle_ledgerPost _).ignore.when

theorem idle_legacyClawback (paise : ℤ) (ownerType : WalletOwnerType) (liability : String) :
    Idle (legacyClawback env b id paise ownerType liability) := by
  refine idle_settlementCredits.bind fun credits ↦ ?_
  split
  · trivial
  · exact (idle_ledgerPost _).ignore

theorem idle_resumeLegs (row : RefundRow) : Idle (resumeLegs env b row) := by
  unfold resumeLegs
  split
  · exact idle_reverseLedger
  · exact idle_clawback _ _
  · exact idle_legacyClawback _ _ _
  · exact idle_legacyClawback _ _ _
  · trivial

theorem idle_transition (target : BookingStatus) : Idle (transition b target {} none) := idle_attempt rfl

theorem idle_resumeRefund (transitionTo : Option BookingStatus) : Idle (resumeRefund env id b transitionTo) := by
  refine (idle_select _ _).bind fun found ↦ ?_
  cases found with
  | none => trivial
  | some row =>
    dsimp only
    split_ifs
    · trivial
    · refine (idle_select _ _).bind fun payment ↦ (idle_callGateway _ _ _).when.bind fun _ ↦ ?_
      refine (idle_creditWallet _).when.bind fun _ ↦ Proc.Only.bind ?_ fun _ ↦ ?_
      · exact Proc.Only.when (idle_attempt rfl)
      refine (idle_resumeLegs row).bind fun _ ↦ Proc.Only.bind ?_ fun _ ↦ ?_
      · exact Proc.Only.when (idle_attempt rfl)
      refine Proc.Only.bind ?_ fun _ ↦ ?_
      · cases transitionTo with
        | none => trivial
        | some target =>
          refine (idle_select _ _).bind fun booking ↦ ?_
          cases booking with
          | none => trivial
          | some booking => exact (idle_transition target).when
      · cases payment with
        | none => trivial
        | some payment => exact idle_attempt rfl

theorem idle_landable (target : Option BookingStatus) : Idle (landable b target) := by
  cases target with
  | none => trivial
  | some target => exact idle_call _ _

theorem idle_land (target : Option BookingStatus) : Idle (land b target) := by
  cases target with
  | none => trivial
  | some target => exact idle_transition target

theorem idle_finishFull (p : RefundBooking) (captured : PaymentRow) (gatewayPaise walletPaise : ℤ) :
    Idle (finishFull env p captured id gatewayPaise walletPaise) := by
  refine (idle_callGateway _ _ _).bind fun _ ↦ (idle_creditWallet _).when.bind fun _ ↦ ?_
  refine Proc.Only.bind (Proc.Only.when (idle_attempt rfl)) fun _ ↦ idle_reverseLedger.bind fun _ ↦ ?_
  refine (idle_land _).bind fun _ ↦ Proc.Only.bind (idle_attempt rfl) fun _ ↦ ?_
  exact Proc.Only.bind (idle_attempt rfl) fun _ ↦ trivial

theorem idle_finishPartial (p : RefundPartial) (captured : PaymentRow) (gatewayPaise walletPaise share : ℤ) :
    Idle (finishPartial env p captured id gatewayPaise walletPaise share) := by
  refine (idle_callGateway _ _ _).bind fun _ ↦ (idle_creditWallet _).when.bind fun _ ↦ ?_
  refine Proc.Only.bind (Proc.Only.when (idle_attempt rfl)) fun _ ↦ (idle_clawback _ _).bind fun _ ↦ ?_
  exact Proc.Only.bind (idle_attempt rfl) fun _ ↦ trivial

/-- What is refunded has been found captured. -/
theorem capturedFor_then {α : Type} {f : Option PaymentRow → Request α}
    (hnone : ∀ past', (f none).Heeds Grounded (fun _ _ ↦ True) past')
    (hf : ∀ row past', (∃ q ∈ past', FindsCaptured row.id q) → (f (some row)).Heeds Grounded (fun _ _ ↦ True) past') :
    ((capturedFor b .booking).bind f).Heeds Grounded (fun _ _ ↦ True) past := by
  refine ⟨.idle rfl, fun s ↦ ?_⟩
  simp only [Proc.bind_ok]
  cases hfound : s.capturedFor b .booking with
  | none => exact hnone _
  | some row => exact hf row _ ⟨_, List.mem_append_right _ List.mem_cons_self, b, row, rfl, hfound, rfl⟩

theorem grounded_insertRefund {r : NewRefund} {split : ℤ × ℤ} (h : ∃ q ∈ past, FindsCaptured r.paymentId q) :
    (RefundsService.insertRefund r split).Heeds Grounded (fun _ _ ↦ True) past :=
  ⟨.refund h, fun _ ↦ trivial⟩

theorem grounded_refundBooking (p : RefundBooking) :
    (refundBooking env p).Heeds Grounded (fun _ _ ↦ True) past := by
  have hresume (id : ℕ) : Idle (resumeFull env p id) := (idle_resumeRefund _).bind fun _ ↦ trivial
  refine idle_then (idle_select _ _) fun found past' ↦ ?_
  cases found with
  | some id => exact grounded_of_idle (hresume id)
  | none =>
    refine capturedFor_then (fun _ ↦ trivial) fun captured past' hfound ↦ ?_
    refine idle_after (idle_landable _) hfound fun _ past' hfound ↦ ?_
    refine idle_after (idle_select _ _) hfound fun split past' hfound ↦ ?_
    have hrefuse (e : Failure) : Idle (throw e : Request Unit) := trivial
    refine idle_after (hrefuse _).when hfound fun _ past' hfound ↦ ?_
    refine (grounded_insertRefund hfound).bind (fun inserted past' _ ↦ ?_) fun _ _ _ ↦ trivial
    cases inserted with
    | some id => exact grounded_of_idle (idle_finishFull p captured _ _)
    | none =>
      refine idle_then (idle_select _ _) fun found past' ↦ ?_
      cases found with
      | some id => exact grounded_of_idle (hresume id)
      | none => trivial

theorem grounded_refundPartial (p : RefundPartial) :
    (refundPartial env p).Heeds Grounded (fun _ _ ↦ True) past := by
  have hresume (id : ℕ) : Idle (resumePartial env p id) :=
    (idle_resumeRefund _).bind fun _ ↦ (idle_select _ _).bind fun _ ↦ trivial
  refine idle_then (idle_select _ _) fun found past' ↦ ?_
  cases found with
  | some id => exact grounded_of_idle (hresume id)
  | none =>
    refine capturedFor_then (fun _ ↦ trivial) fun captured past' hfound ↦ ?_
    refine idle_after (idle_select _ _) hfound fun split past' hfound ↦ ?_
    have hrefuse (e : Failure) : Idle (throw e : Request Unit) := trivial
    refine idle_after (hrefuse _).when hfound fun _ past' hfound ↦ ?_
    have hcredit : Idle (providerCredit env p.bookingId) :=
      idle_reversedByOwner.bind fun _ ↦ idle_settlementCredits.bind fun _ ↦ trivial
    refine idle_after hcredit hfound fun credit past' hfound ↦ ?_
    refine idle_after (hrefuse _).when hfound fun _ past' hfound ↦ ?_
    refine (grounded_insertRefund hfound).bind (fun inserted past' _ ↦ ?_) fun _ _ _ ↦ trivial
    cases inserted with
    | some id => exact grounded_of_idle (idle_finishPartial p captured _ _ _)
    | none =>
      refine idle_then (idle_select _ _) fun found past' ↦ ?_
      cases found with
      | some id => exact grounded_of_idle (hresume id)
      | none => trivial

theorem movesMoney_grounded {p : Request Unit} (h : MovesMoney env p) : p.Heeds Grounded (fun _ _ ↦ True) [] := by
  cases h with
  | collects h => exact groundedHeeding.collects h
  | recheck b => exact then_idle groundedHeeding.recheckBooking fun _ ↦ trivial
  | devSettle paymentId ref => exact groundedHeeding.devSettle _ _
  | full p => exact then_idle (grounded_refundBooking p) fun _ ↦ trivial
  | part p => exact then_idle (grounded_refundPartial p) fun _ ↦ trivial

end Refunds

end Towing.Money
