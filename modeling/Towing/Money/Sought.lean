import Towing.Money.Vouched
import Towing.Money.IntentOrders

namespace Towing.Money

open Towing.Db Towing.Process PaymentsRepo PaymentsService

def World.fare (w : World) (b : ℕ) : Option ℤ := (w.bookings b).map (·.total)

/-- A payment that is looked up by its order's reference is found, and so is the captured
one that a settlement has left to look for. -/
def Met : Step → World → Prop
  | .select (.byOrderRef ref), w => (w.byOrderRef ref).isSome
  | .select (.capturedFor b .booking), w => (w.capturedFor b .booking).isSome
  | _, _ => True

/-- What the look-ups of a run are hoped to find. -/
def Fair (l : Step) (w : World) : Prop := StillPriced l w ∧ Met l w

instance (l : Step) (w : World) : Decidable (Met l w) := by
  unfold Met
  split <;> infer_instance

instance (l : Step) (w : World) : Decidable (Fair l w) := inferInstanceAs (Decidable (_ ∧ _))

/-- The state that was found by the last step of the kind. -/
def lastSeen (kind : Step → Bool) (past : List (Event Step World)) : Option World :=
  (past.filter (kind ·.label)).getLast?.map (·.before)

theorem lastSeen_here {kind : Step → Bool} {past : List (Event Step World)} {e : Event Step World}
    (h : kind e.label = true) : lastSeen kind (past ++ [e]) = some e.before := by
  simp [lastSeen, h]

theorem lastSeen_aside {kind : Step → Bool} {past : List (Event Step World)} {e : Event Step World}
    (h : kind e.label = false) : lastSeen kind (past ++ [e]) = lastSeen kind past := by
  simp [lastSeen, h]

/-- The call looks the trip up before it opens a payment. -/
def Step.looksUp (b : ℕ) : Step → Bool
  | .select (.booking c) => c = b
  | _ => false

/-- And again before it settles. -/
def Step.settles (b : ℕ) : Step → Bool
  | .select (.settlementInputs on) => on.bookingId = b
  | _ => false

/-- What the trip cost when the call last looked it up. -/
def fareRead (past : List (Event Step World)) (b : ℕ) : Option ℤ :=
  (lastSeen (Step.looksUp b) past).bind (·.fare b)

/-- The trip as the call last found it to settle. -/
def tripRead (past : List (Event Step World)) (b : ℕ) : Option Booking :=
  (lastSeen (Step.settles b) past).bind (·.bookings b)

/-- The request has made a look-up that went amiss. -/
def Strayed (past : List (Event Step World)) : Prop := ∃ q ∈ past, ¬Fair q.label q.before

/-- The request knows that the row charges the amount. -/
def Asked (past : List (Event Step World)) (id : ℕ) (amount : ℤ) : Prop :=
  Strayed past ∨ ∃ q ∈ past, ∃ row ∈ q.after.payments, row.id = id ∧ row.amount = amount

/-- The reference is that of an order opened for the row, or the one a row has that asks
the vendor for nothing. -/
inductive Ordered (past : List (Event Step World)) (id : ℕ) : Ref → Prop
  | wallet : Asked past id 0 → Ordered past id (.wallet id)
  | order {n : ℕ} {o : GatewayOrder} : (∃ q ∈ past, q.after.gateway.orders[n]? = some o) → o.paymentId = id →
      Ordered past id (.order n)

/-- The row is found under one of the handle's references. -/
def Finds (handle : PaymentHandle) (id : ℕ) (q : Event Step World) : Prop :=
  ∃ row ∈ q.before.payments, row.id = id ∧
    (row.gatewayRef.isSome ∨ ∃ ref, row.gatewayOrderRef = some ref ∧ handle.orderRef = some ref)

/-- The row that a settlement captures is that of the handle, where it names one. -/
def Sought (past : List (Event Step World)) (on : Settling) (id : ℕ) : Prop :=
  Strayed past ∨ on.handle.orderRef = none ∨ ∃ q ∈ past, Finds on.handle id q

/-- The row has been found to be a fee's, or to have been captured already. -/
def FeeRow (past : List (Event Step World)) (id : ℕ) : Prop :=
  ∃ q ∈ past, ∃ row ∈ q.after.payments, row.id = id ∧ (row.purpose = .cancellationFee ∨ row.gatewayRef.isSome)

/-- The legs credit nobody for a trip, or what is due on the trip the request has read. -/
def Credited (past : List (Event Step World)) (legs : List (LedgerLeg LedgerKey)) : Prop :=
  (∀ leg ∈ legs, isSettlementCredit leg.type = false) ∨
    ∃ credit r, settlementLegs credit = .ok legs ∧ tripRead past credit.bookingId = some r ∧
      credit.totalPaise = r.total - r.taxAmount

/-- What a request has seen of the amounts before it takes a step. -/
def Due (past : List (Event Step World)) : Step → Prop
  | .createPayment p => (p.purpose = .booking → fareRead past p.bookingId = some (p.amount + p.walletApplied)) ∧
      (p.provider = .wallet → p.amount = 0)
  | .createOrder o => o.amountPaise ≠ 0 ∧ Asked past o.paymentId o.amountPaise
  | .setOrderRef id ref => Ordered past id ref
  | .markCaptured id ref _ (some on) => Vouched past on ∧ ref = on.handle.gatewayRef ∧ Sought past on id
  | .markCaptured id _ _ none => FeeRow past id
  | .post legs => Credited past legs
  | .transition _ _ _ (some (_, basis)) => Strayed past ∨ basis.isSome
  | .insertRefund _ _ => False
  | _ => True

variable {env : Env} {α β : Type} {b : ℕ} {on : Settling} {past : List (Event Step World)} {s : World}
  {e : Event Step World} {r : Booking}

theorem due_minor (past : List (Event Step World)) (l : Step) (h : l.minor = true) : Due past l := by
  cases l with
  | createPayment | setOrderRef | markCaptured | createOrder | post | insertRefund => cases h
  | transition b target patch on =>
    cases on with
    | none => trivial
    | some why => cases h
  | _ => trivial

theorem Strayed.snoc (h : Strayed past) (e : Event Step World) : Strayed (past ++ [e]) := seen_mono past e h

theorem strayed_here (h : ¬Fair e.label e.before) : Strayed (past ++ [e]) :=
  ⟨e, List.mem_append_right _ List.mem_cons_self, h⟩

/-! A settlement. -/

/-- What a settlement knows of its money and its trip. -/
structure Standing (on : Settling) (r : Booking) (past : List (Event Step World)) : Prop where
  vouched : Vouched past on
  trip : tripRead past on.bookingId = some r

theorem Standing.snoc (h : Standing on r past) (he : e.label.settles on.bookingId = false) :
    Standing on r (past ++ [e]) :=
  ⟨vouched_snoc e h.vouched, by rw [tripRead, lastSeen_aside he]; exact h.trip⟩

/-- What a look-up of the settlement's row answers; `E` is what is known when it finds none. -/
structure Looked (on : Settling) (r : Booking) (E : List (Event Step World) → Prop)
    (found : Except Failure (Option PaymentRow)) (past : List (Event Step World)) : Prop where
  settles : Standing on r past
  row : ∀ row, found = .ok (some row) → Sought past on row.id
  none : found = .ok none → E past

theorem heeds_orElse {E E' : List (Event Step World) → Prop} {p q : Request (Option PaymentRow)}
    (hp : p.Heeds Due (Looked on r E) past)
    (hq : ∀ past, Standing on r past → E past → q.Heeds Due (Looked on r E') past) :
    (orElse p q).Heeds Due (Looked on r E') past := by
  refine hp.bind (fun found past hfound ↦ ?_) fun e past hfound ↦ ?_
  · cases found with
    | none => exact hq past hfound.settles (hfound.none rfl)
    | some row =>
      exact ⟨hfound.settles, fun row' heq ↦ hfound.row row' heq, fun heq ↦ by cases heq⟩
  · exact ⟨hfound.settles, fun row heq ↦ (by cases heq), fun heq ↦ by cases heq⟩

/-- A look-up of a payment, by the settlement. -/
theorem heeds_lookup {E : List (Event Step World) → Prop} {q : Select} {f : World → Option PaymentRow}
    (hq : Step.settles on.bookingId (.select q) = false) (hs : Standing on r past)
    (hrow : ∀ s row, f s = some row → Sought (past ++ [⟨.select q, s, s⟩]) on row.id)
    (hnone : ∀ s, f s = none → E (past ++ [⟨.select q, s, s⟩])) :
    (select q f).Heeds Due (Looked on r E) past :=
  ⟨due_minor _ _ rfl, fun s ↦ ⟨hs.snoc hq, fun row heq ↦ hrow s row (Except.ok.inj heq),
    fun heq ↦ hnone s (Except.ok.inj heq)⟩⟩

theorem mem_byGatewayRef {ref : Ref} {row : PaymentRow} (h : s.byGatewayRef ref = some row) :
    row ∈ s.payments ∧ row.gatewayRef = some ref :=
  ⟨List.mem_of_find?_eq_some h, by simpa using List.find?_some h⟩

theorem mem_byOrderRef {ref : Ref} {row : PaymentRow} (h : s.byOrderRef ref = some row) :
    row ∈ s.payments ∧ row.gatewayOrderRef = some ref :=
  ⟨List.mem_of_find?_eq_some h, by simpa using List.find?_some h⟩

theorem heeds_byHandleRef (hs : Standing on r past) :
    (byHandleRef on).Heeds Due (Looked on r fun _ ↦ True) past := by
  unfold byHandleRef
  split
  · refine heeds_lookup rfl hs (fun s row hrow ↦ ?_) fun _ _ ↦ trivial
    obtain ⟨hmem, href⟩ := mem_byGatewayRef hrow
    exact .inr (.inr ⟨_, List.mem_append_right _ List.mem_cons_self, row, hmem, rfl, .inl (by simp [href])⟩)
  · exact ⟨hs, fun row heq ↦ (by cases heq), fun _ ↦ trivial⟩

/-- What is known once the handle's references have been tried. -/
def Untied (on : Settling) (past : List (Event Step World)) : Prop := Strayed past ∨ on.handle.orderRef = none

theorem Untied.sought {id : ℕ} (h : Untied on past) : Sought past on id := h.imp_right .inl

theorem Untied.snoc (h : Untied on past) (e : Event Step World) : Untied on (past ++ [e]) :=
  h.imp_left fun h ↦ h.snoc e

theorem heeds_byHandleOrder (hs : Standing on r past) :
    (byHandleOrder on).Heeds Due (Looked on r (Untied on)) past := by
  unfold byHandleOrder
  split
  · rename_i ref href
    refine heeds_lookup rfl hs (fun s row hrow ↦ ?_) fun s hnone ↦ .inl (strayed_here fun hfair ↦ ?_)
    · obtain ⟨hmem, horder⟩ := mem_byOrderRef hrow
      exact .inr (.inr ⟨_, List.mem_append_right _ List.mem_cons_self, row, hmem, rfl, .inr ⟨ref, horder, href⟩⟩)
    · have hmet : (s.byOrderRef ref).isSome := hfair.2
      rw [hnone] at hmet
      cases hmet
  · rename_i hnone
    exact ⟨hs, fun row heq ↦ (by cases heq), fun _ ↦ .inr hnone⟩

theorem heeds_existingRow (hs : Standing on r past) : (existingRow on).Heeds Due (Looked on r Strayed) past := by
  refine heeds_orElse (heeds_orElse (heeds_orElse (heeds_byHandleRef hs) fun past hs _ ↦ heeds_byHandleOrder hs)
    fun past hs (huntied : Untied on past) ↦ ?_) fun past hs (huntied : Untied on past) ↦ ?_
  · exact heeds_lookup rfl hs (fun s row _ ↦ (huntied.snoc _).sought) fun s _ ↦ huntied.snoc _
  · refine heeds_lookup rfl hs (fun s row _ ↦ (huntied.snoc _).sought) fun s hnone ↦ strayed_here fun hfair ↦ ?_
    have hmet : (s.capturedFor on.bookingId .booking).isSome := hfair.2
    rw [hnone] at hmet
    cases hmet

/-- What a settlement knows of the row it goes on with. -/
structure Based (on : Settling) (r : Booking) (basis : Except Failure (Option ℕ)) (past : List (Event Step World)) :
    Prop where
  settles : Standing on r past
  basis : ∀ id, basis = .ok id → Strayed past ∨ id.isSome

theorem heeds_markCaptured {id : ℕ} (hs : Standing on r past) (hsought : Sought past on id) :
    (markCaptured id on.handle.gatewayRef on.handle.method (some on)).Heeds Due (fun _ ↦ Standing on r) past :=
  ⟨⟨hs.vouched, rfl, hsought⟩, fun _ ↦ hs.snoc rfl⟩

theorem heeds_createCapturedRow (hs : Standing on r past) (hstrayed : Strayed past) {booking : Booking}
    (hread : fareRead past on.bookingId = some booking.total) :
    (createCapturedRow env on booking).Heeds Due (Based on r) past := by
  unfold createCapturedRow
  refine Proc.Heeds.handle (Q := fun _ past ↦ Standing on r past ∧ Strayed past) ?_
    (fun _ past h ↦ ⟨h.1, fun _ _ ↦ .inl h.2⟩) fun err past h ↦ ?_
  · refine Proc.Heeds.bind (Q := fun _ past ↦ Standing on r past ∧ Strayed past)
      ⟨⟨fun _ ↦ by simp [hread], fun hwallet ↦ by cases hwallet⟩, fun s ↦ ⟨hs.snoc rfl, hstrayed.snoc _⟩⟩
      (fun created past h ↦ ?_) fun _ _ h ↦ h
    refine Proc.Heeds.bind (Q := fun _ past ↦ Standing on r past ∧ Strayed past)
      ⟨⟨h.1.vouched, rfl, .inl h.2⟩, fun s ↦ ⟨h.1.snoc rfl, h.2.snoc _⟩⟩ (fun _ _ h ↦ h) fun _ _ h ↦ h
  · have hraced : (byHandleRef on).Only fun l ↦ l.minor = true ∧ l.settles on.bookingId = false := by
      unfold byHandleRef
      split
      · exact ⟨⟨rfl, rfl⟩, fun _ ↦ trivial⟩
      · trivial
    split_ifs
    · refine (Proc.Heeds.of_kept (R := fun past ↦ Standing on r past ∧ Strayed past) hraced
        (fun past l _ hl ↦ due_minor past l hl.1) (fun past e h hl ↦ ⟨h.1.snoc hl.2, h.2.snoc e⟩) h).bind
          (fun raced past h ↦ ?_) fun e past h ↦ ?_
      · exact ⟨h.1, fun _ _ ↦ .inl h.2⟩
      · exact ⟨h.1, fun _ heq ↦ by cases heq⟩
    · exact ⟨h.1, fun _ heq ↦ by cases heq⟩

theorem heeds_ensureCapturedRow (hs : Standing on r past) :
    (ensureCapturedRow env on).Heeds Due (Based on r) past := by
  refine (heeds_existingRow hs).bind (fun found past hfound ↦ ?_) fun e past hfound ↦ ?_
  · cases found with
    | some existing =>
      refine Proc.Heeds.bind (Q := fun _ ↦ Standing on r) ?_ (fun _ past hs ↦ ⟨hs, fun id heq ↦ ?_⟩)
        fun e past hs ↦ ⟨hs, fun id heq ↦ by cases heq⟩
      · exact Proc.Heeds.when (fun _ ↦ heeds_markCaptured hfound.settles (hfound.row _ rfl)) fun _ ↦ hfound.settles
      · cases heq
        exact .inr rfl
    | none =>
      have hstrayed := hfound.none rfl
      refine select_then (due_minor _ _ rfl) fun s ↦ ?_
      have hs := hfound.settles.snoc (e := ⟨.select (.booking on.bookingId), s, s⟩) rfl
      cases hbooking : s.bookings on.bookingId with
      | none => exact ⟨hs, fun _ _ ↦ .inl (hstrayed.snoc _)⟩
      | some booking =>
        refine heeds_createCapturedRow hs (hstrayed.snoc _) ?_
        rw [fareRead, lastSeen_here (by simp [Step.looksUp])]
        simp [World.fare, hbooking]
  · exact ⟨hfound.settles, fun id heq ↦ by cases heq⟩

/-- What a settlement does once it has its row. -/
def SettleOnStep (on : Settling) (r : Booking) (basis : Option ℕ) (l : Step) : Prop :=
  l.settles on.bookingId = false ∧ (l.minor = true ∨
    (∃ legs, l = .post legs ∧ ∀ leg ∈ legs, isSettlementCredit leg.type = false) ∨
    (∃ legs credit, l = .post legs ∧ settlementLegs credit = .ok legs ∧ credit.bookingId = on.bookingId ∧
      credit.totalPaise = r.total - r.taxAmount) ∨
    ∃ target patch, l = .transition on.bookingId target patch (some (on, basis)))

theorem settleOn_only (w : World) (basis : Option ℕ) :
    (settleOn on (settlementInputsOf w r) basis).Only (SettleOnStep on r basis) := by
  have hminor {α : Type} {l : Step} {f : World → Except Failure α} (hl : l.minor = true)
      (hs : l.settles on.bookingId = false) : (Proc.attempt l f).Only (SettleOnStep on r basis) :=
    ⟨⟨hs, .inl hl⟩, fun _ ↦ trivial⟩
  have hpost (legs : List (LedgerLeg LedgerKey)) (hlegs : ∀ leg ∈ legs, isSettlementCredit leg.type = false) :
      (ledgerPost legs).Only (SettleOnStep on r basis) :=
    ⟨⟨rfl, .inr (.inl ⟨legs, rfl, hlegs⟩)⟩, fun _ ↦ trivial⟩
  have hpaid : (paymentLegsFor basis).Only (SettleOnStep on r basis) := by
    cases basis with
    | none => trivial
    | some id => exact hminor rfl rfl
  have hsettlement (input : SettlementInput) : (settlementOf input).Only (SettleOnStep on r basis) := by
    unfold settlementOf
    split
    · trivial
    · trivial
  have hcredit (credit : SettlementCredit) (hb : credit.bookingId = on.bookingId)
      (htotal : credit.totalPaise = r.total - r.taxAmount) :
      (creditBookingSettlement credit).Only (SettleOnStep on r basis) := by
    unfold creditBookingSettlement
    split
    · trivial
    · rename_i legs hlegs
      exact Proc.Only.ignore ⟨⟨rfl, .inr (.inr (.inl ⟨legs, credit, rfl, hlegs, hb, htotal⟩))⟩, fun _ ↦ trivial⟩
  unfold settleOn
  dsimp only
  split
  · refine hpaid.bind fun paid ↦ Proc.Only.bind (hpost _ ?_).ignore.when fun _ ↦ ?_
    · simp [spendLegs, isSettlementCredit]
    · refine Proc.Only.bind (hpost _ ?_).ignore.when fun _ ↦ (hsettlement _).bind fun settlement ↦ ?_
      · simp [cashLegs, isSettlementCredit]
      · refine (hcredit _ rfl rfl).bind fun _ ↦ Proc.Only.bind (hminor rfl rfl) fun now ↦ ?_
        exact ⟨⟨rfl, .inr (.inr (.inr ⟨_, _, rfl⟩))⟩, fun _ ↦ trivial⟩
  · trivial

theorem heeds_settleOn {w : World} {basis : Option ℕ} (hs : Standing on r past) (hb : Strayed past ∨ basis.isSome) :
    (settleOn on (settlementInputsOf w r) basis).Heeds Due (fun _ _ ↦ True) past := by
  refine (Proc.Heeds.of_kept (R := fun past ↦ Standing on r past ∧ (Strayed past ∨ basis.isSome))
    (settleOn_only w basis) (fun past l h hl ↦ ?_) (fun past e h hl ↦ ?_) ⟨hs, hb⟩).mono
      (fun _ _ h ↦ h) fun _ _ _ ↦ trivial
  · obtain ⟨-, hminor | ⟨legs, rfl, hlegs⟩ | ⟨legs, credit, rfl, hlegs, hbooking, htotal⟩ | ⟨target, patch, rfl⟩⟩ := hl
    · exact due_minor past l hminor
    · exact .inl hlegs
    · refine .inr ⟨credit, r, hlegs, ?_, htotal⟩
      rw [hbooking]
      exact h.1.trip
    · exact h.2
  · exact ⟨h.1.snoc hl.1, h.2.imp_left fun h ↦ h.snoc e⟩

theorem heeds_settleInner (hv : Vouched past on) :
    (settleInner env on).Heeds Due (fun _ _ ↦ True) past := by
  refine call_then (due_minor _ _ rfl) fun s inputs hinputs ↦ ?_
  split at hinputs
  · cases hinputs
  · rename_i r hr
    cases hinputs
    have hs : Standing on r (past ++ [⟨.select (.settlementInputs on), s, s⟩]) := by
      refine ⟨vouched_snoc _ hv, ?_⟩
      rw [tripRead, lastSeen_here (by simp [Step.settles])]
      exact hr
    split_ifs
    · trivial
    · refine (heeds_ensureCapturedRow hs).bind (fun id past _ ↦ ?_) fun _ _ _ ↦ trivial
      exact heeds_minor due_minor (minor_attempt rfl)
    · trivial
    · refine (heeds_ensureCapturedRow hs).bind (fun id past hbased ↦ ?_) fun _ _ _ ↦ trivial
      exact heeds_settleOn hbased.settles (hbased.basis id rfl)

theorem due_settle (hv : Vouched past on) : (settleCapturedPayment env on).Heeds Due (fun _ _ ↦ True) past := by
  have hrelease : Minor (Proc.write (.releaseLock on.bookingId) : Request Unit) := minor_attempt rfl
  refine vouched_after due_minor (minor_attempt rfl) hv fun held past hv ↦ ?_
  split
  · exact heeds_settleInner hv
  · trivial
  · refine then_minor due_minor ?_ fun _ ↦ hrelease
    refine (heeds_settleInner hv).handle (fun _ _ h ↦ h) fun e past _ ↦ ?_
    exact heeds_minor due_minor (hrelease.bind fun _ ↦ trivial)

/-! Opening a payment. -/

/-- What the call has read the trip to cost, where it is for the trip. -/
def FareKnown (b : ℕ) (purpose : PaymentPurpose) (total : ℤ) (past : List (Event Step World)) : Prop :=
  purpose = .booking → fareRead past b = some total

theorem FareKnown.snoc {purpose : PaymentPurpose} {total : ℤ} (h : FareKnown b purpose total past)
    (he : e.label.looksUp b = false) : FareKnown b purpose total (past ++ [e]) := by
  intro hp
  rw [fareRead, lastSeen_aside he]
  exact h hp

/-- Steps beside the trip leave what has been read of its cost. -/
theorem costs_then {purpose : PaymentPurpose} {total : ℤ} {p : Request β} {f : β → Request α}
    (hp : p.Only fun l ↦ l.minor = true ∧ l.looksUp b = false) (hcosts : FareKnown b purpose total past)
    (hf : ∀ a past, FareKnown b purpose total past → (f a).Heeds Due (fun _ _ ↦ True) past) :
    (p.bind f).Heeds Due (fun _ _ ↦ True) past :=
  .kept_then hp (fun past l _ hl ↦ due_minor past l hl.1) (fun _ _ h hl ↦ h.snoc hl.2) hcosts hf

theorem loadPayable_then {userId : ℕ} {purpose : PaymentPurpose} {allowPaid : Bool} {f : Booking → Request α}
    (hf : ∀ booking past, fareRead past b = some booking.total → (f booking).Heeds Due (fun _ _ ↦ True) past) :
    ((loadPayableBooking b userId purpose allowPaid).bind f).Heeds Due (fun _ _ ↦ True) past := by
  refine call_then (due_minor _ _ rfl) fun s booking hbooking ↦ hf booking _ ?_
  rw [fareRead, lastSeen_here (by simp [Step.looksUp])]
  split at hbooking
  · cases hbooking
  · rename_i row hrow
    split_ifs at hbooking
    cases hbooking
    simp [World.fare, hrow]

/-- The row that an intent goes on with, as far as the call knows. -/
def KnowsRow (b : ℕ) (purpose : PaymentPurpose) (total amount : ℤ) (row : Except Failure PaymentRow)
    (past : List (Event Step World)) : Prop :=
  FareKnown b purpose total past ∧ ∀ r, row = .ok r → r.gatewayOrderRef = none → Asked past r.id amount

theorem mem_inserted {p : NewPayment} {row : PaymentRow} (h : s.insertPayment p = .ok row) :
    row ∈ (s.createPayment p).payments := by
  rw [World.createPayment, h]
  exact List.mem_append_right _ List.mem_cons_self

/-- A row that is found was made for the same total and balance, unless the look-up went amiss. -/
theorem asked_of_found {q : Select} {total balance : ℤ} {row : PaymentRow} (hmem : row ∈ s.payments)
    (hpriced : StillPriced (.select q) s → PricedAt total balance row) :
    Asked (past ++ [⟨.select q, s, s⟩]) row.id (total - max 0 (min balance total)) := by
  by_cases hfair : Fair (.select q) s
  · exact .inr ⟨_, List.mem_append_right _ List.mem_cons_self, row, hmem, rfl, (hpriced hfair.1).2⟩
  · exact .inl (strayed_here hfair)

theorem heeds_intentRow {purpose : PaymentPurpose} {total balance : ℤ} {p : NewPayment}
    (hcosts : FareKnown b purpose total past) (hbooking : p.bookingId = b) (hpurpose : p.purpose = purpose)
    (happlied : p.walletApplied = max 0 (min balance total)) (hamount : p.amount = total - max 0 (min balance total))
    (hprovider : p.provider = .wallet → p.amount = 0) :
    (intentRow b purpose total balance p).Heeds Due
      (KnowsRow b purpose total (total - max 0 (min balance total))) past := by
  have hreuse : (reusableIntent b purpose total balance).Heeds Due (fun found past ↦ FareKnown b purpose total past ∧
      ∀ row, found = .ok (some row) → row.gatewayOrderRef = none →
        Asked past row.id (total - max 0 (min balance total))) past := by
    refine select_then (due_minor _ _ rfl) fun s ↦ ?_
    have hcosts := hcosts.snoc (e := ⟨.select (.reusableIntent b purpose total balance), s, s⟩) rfl
    cases hopen : s.openIntent b purpose with
    | none => exact ⟨hcosts, fun row heq ↦ by cases heq⟩
    | some row =>
      dsimp only
      split_ifs with hcash
      · exact ⟨due_minor _ _ rfl, fun s ↦ ⟨hcosts.snoc rfl, fun row heq ↦ by cases heq⟩⟩
      · refine ⟨hcosts, fun row' heq hnone ↦ ?_⟩
        cases heq
        exact asked_of_found (mem_openIntent hopen).1 fun hpriced ↦ hpriced row hopen hcash hnone
  refine hreuse.bind (fun found past hfound ↦ ?_) fun e past hfound ↦ ⟨hfound.1, fun row heq ↦ by cases heq⟩
  cases found with
  | some row => exact ⟨hfound.1, fun row' heq ↦ by cases heq; exact hfound.2 row rfl⟩
  | none =>
    have hdue : Due past (.createPayment p) := by
      refine ⟨fun hp ↦ ?_, hprovider⟩
      rw [hbooking, hfound.1 (hpurpose.symm.trans hp), hamount, happlied]
      congr 1
      omega
    refine Proc.Heeds.handle (Q := KnowsRow b purpose total (total - max 0 (min balance total)))
      ⟨hdue, fun s ↦ ⟨hfound.1.snoc rfl, fun row hrow _ ↦ .inr ?_⟩⟩ (fun _ _ h ↦ h) fun err past h ↦ ?_
    · obtain ⟨-, -, hra, -⟩ := World.insertPayment_ok hrow
      exact ⟨_, List.mem_append_right _ List.mem_cons_self, row, mem_inserted hrow, rfl, hra.trans hamount⟩
    · split_ifs
      · refine select_then (due_minor _ _ rfl) fun s ↦ ?_
        have hcosts := h.1.snoc (e := ⟨.select (.intentByKey p.idempotencyKey total balance), s, s⟩) rfl
        cases hfind : s.byIdempotencyKey p.idempotencyKey with
        | none => exact ⟨hcosts, fun row heq ↦ by cases heq⟩
        | some existing =>
          refine ⟨hcosts, fun row heq hnone ↦ ?_⟩
          cases heq
          exact asked_of_found (List.mem_of_find?_eq_some hfind) fun hpriced ↦ hpriced existing hfind hnone
      · exact ⟨h.1, fun row heq ↦ by cases heq⟩

theorem heeds_openOrder {purpose : PaymentPurpose} {walletPaise gatewayPaise : ℤ} {row : PaymentRow}
    (hasked : Asked past row.id gatewayPaise) :
    (openOrder b purpose walletPaise gatewayPaise row).Heeds Due (fun _ _ ↦ True) past := by
  unfold openOrder
  split_ifs with hzero
  · rw [hzero] at hasked
    exact then_minor due_minor ⟨.wallet hasked, fun _ ↦ trivial⟩ fun _ ↦ trivial
  · refine ⟨⟨hzero, hasked⟩, fun s ↦ ?_⟩
    by_cases hup : s.gateway.up = true
    · simp only [if_pos hup, Proc.bind_ok]
      refine then_minor due_minor ⟨.order (o := ⟨row.id, b, purpose, gatewayPaise⟩)
        ⟨_, List.mem_append_right _ List.mem_cons_self, ?_⟩ rfl, fun _ ↦ trivial⟩ fun _ ↦ trivial
      change (s.gateway.createOrder _).orders[_]? = _
      simp [Gateway.createOrder, hup]
    · simp only [if_neg hup]
      trivial

theorem due_createIntent (userId : ℕ) (purpose : PaymentPurpose) (key : String) :
    (createIntent env b userId purpose key).Heeds Due (fun _ _ ↦ True) past := by
  refine loadPayable_then fun booking past hread ↦ ?_
  have htotal : (totalPaise env purpose booking).Heeds Due
      (fun total past ↦ ∀ t, total = .ok t → FareKnown b purpose t past) past := by
    cases purpose with
    | booking =>
      intro t ht _
      cases ht
      exact hread
    | cancellationFee => exact ⟨due_minor _ _ rfl, fun s t ht hp ↦ by cases hp⟩
  refine htotal.bind (fun total past hcosts ↦ ?_) fun _ _ _ ↦ trivial
  refine costs_then (Proc.Only.when trivial) (hcosts total rfl) fun _ past hcosts ↦ ?_
  have hspendable : (spendable purpose userId).Only fun l ↦ l.minor = true ∧ l.looksUp b = false := by
    cases purpose with
    | booking => exact ⟨⟨rfl, rfl⟩, fun _ ↦ trivial⟩
    | cancellationFee => trivial
  refine costs_then hspendable hcosts fun balance past hcosts ↦ ?_
  dsimp only
  refine (heeds_intentRow hcosts rfl rfl rfl rfl fun hwallet ↦ ?_).bind (fun row past hrow ↦ ?_) fun _ _ _ ↦ trivial
  · dsimp only at hwallet ⊢
    split_ifs at hwallet with hcovered
    exact hcovered.2
  · split
    · trivial
    · rename_i hnone
      exact heeds_openOrder (hrow.2 row rfl hnone)

theorem due_chooseCash (userId : ℕ) : (chooseCash env b userId).Heeds Due (fun _ _ ↦ True) past := by
  have hcash (booking : Booking) (past : List (Event Step World)) (hread : FareKnown b .booking booking.total past) :
      (chooseCash.createCash env b booking).Heeds Due (fun _ _ ↦ True) past := by
    refine costs_then ⟨⟨rfl, rfl⟩, fun _ ↦ trivial⟩ hread fun uuid past hread ↦ ?_
    refine then_minor due_minor ⟨⟨fun hp ↦ ?_, fun hwallet ↦ (by cases hwallet)⟩, fun _ ↦ trivial⟩ fun _ ↦ trivial
    rw [Int.add_zero]
    exact hread hp
  refine loadPayable_then fun booking past hread ↦ select_then (due_minor _ _ rfl) fun s ↦ ?_
  have hread : FareKnown b .booking booking.total (past ++ [⟨.select (.openIntent b .booking), s, s⟩]) :=
    FareKnown.snoc (fun _ ↦ hread) rfl
  cases s.openIntent b .booking with
  | none => exact hcash booking _ hread
  | some row =>
    dsimp only
    split_ifs
    · trivial
    · exact ⟨due_minor _ _ rfl, fun s' ↦ hcash booking _ (hread.snoc rfl)⟩

theorem due_captureFee (body : PaymentCaptureRequest) (expectedPaise : ℤ) :
    (CancellationFeeService.capture env b body expectedPaise).Heeds Due (fun _ _ ↦ True) past := by
  have hcreate (past : List (Event Step World)) :
      (CancellationFeeService.createRow env b expectedPaise body.gatewayRef).Heeds Due
        (fun row past ↦ ∀ r, row = .ok r → FeeRow past r.id) past := by
    refine Proc.Heeds.handle (Q := fun row past ↦ ∀ r, row = .ok r → FeeRow past r.id)
      ⟨⟨fun hp ↦ (by cases hp), fun hwallet ↦ (by cases hwallet)⟩, fun s row hrow ↦ ?_⟩ (fun _ _ h ↦ h)
      fun err past _ ↦ ?_
    · obtain ⟨-, hkind, -⟩ := World.insertPayment_ok hrow
      exact ⟨_, List.mem_append_right _ List.mem_cons_self, row, mem_inserted hrow, rfl, .inl (congrArg Prod.snd hkind)⟩
    · split_ifs
      · refine select_then (due_minor _ _ rfl) fun s ↦ ?_
        cases hfound : s.byGatewayRef body.gatewayRef with
        | none => exact fun r heq ↦ by cases heq
        | some raced =>
          intro r heq
          cases heq
          obtain ⟨hmem, href⟩ := mem_byGatewayRef hfound
          exact ⟨_, List.mem_append_right _ List.mem_cons_self, raced, hmem, rfl, .inr (by simp [href])⟩
      · exact fun r heq ↦ by cases heq
  have hrow (past : List (Event Step World)) :
      (CancellationFeeService.feeRow env b expectedPaise body.gatewayRef).Heeds Due
        (fun row past ↦ ∀ r, row = .ok r → FeeRow past r.id) past := by
    refine select_then (due_minor _ _ rfl) fun s ↦ ?_
    cases hopen : s.openIntent b .cancellationFee with
    | none => exact hcreate _
    | some row =>
      intro r heq
      cases heq
      obtain ⟨hmem, hkind⟩ := mem_openIntent hopen
      exact ⟨_, List.mem_append_right _ List.mem_cons_self, row, hmem, rfl, .inl (congrArg Prod.snd hkind)⟩
  refine minor_then due_minor (minor_select _ _) fun found past ↦ ?_
  cases found with
  | some row => trivial
  | none =>
    refine collected_then due_minor fun handle past _ ↦ minor_then due_minor (minor_throw _).when fun _ past ↦ ?_
    refine (hrow past).bind (fun row past hfee ↦ ?_) fun _ _ _ ↦ trivial
    exact ⟨hfee row rfl, fun _ ↦ trivial⟩

/-- Every request by which money is collected has seen what is due. -/
theorem dueHeeding : Heeding env Due where
  minor := due_minor
  settle _ _ hv := due_settle hv
  intent _ userId purpose key _ := due_createIntent userId purpose key
  cash _ userId _ := due_chooseCash userId
  fee _ body expectedPaise _ := due_captureFee body expectedPaise

end Towing.Money
