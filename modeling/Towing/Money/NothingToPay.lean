import Towing.Money.Funding
import Towing.Money.Payable

namespace Towing.Money

open Towing.Db Towing.Process PaymentsRepo PaymentsService

variable {env : Env} {w : World} {b d : ℕ} {r : Booking} {row : PaymentRow} {k : Band}

/-- What a customer, the driver and the vendor do towards paying for a trip. -/
inductive Pays (env : Env) (b : ℕ) : Request Unit → Prop
  | createIntent (userId : ℕ) (purpose : PaymentPurpose) (clientKey : String) :
      Pays env b (createIntent env b userId purpose clientKey).ignore
  | payWithWallet (userId : ℕ) : Pays env b (payWithWallet env b userId).ignore
  | chooseCash (userId : ℕ) : Pays env b (chooseCash env b userId).ignore
  | confirmCashCollected (driverId : ℕ) : Pays env b (confirmCashCollected env b driverId).ignore
  | capture (userId : ℕ) (body : PaymentCaptureRequest) : Pays env b (capture env b userId body).ignore
  | outside (l : Step) (h : l.outside = true) : Pays env b (Proc.write l)

/-- Some of these steps, one after the other, end with the trip paid. -/
def Payable (env : Env) (w : World) (b : ℕ) : Prop :=
  ∃ qs, (∀ q ∈ qs, Pays env b q) ∧ (((runAll qs w).1.bookings b).map (·.status)) = some .paid

/-! A fare that is worth something. -/

theorem Unpaid.releaseLock (h : Unpaid env w b) : Unpaid env (w.run (.releaseLock b)) b :=
  ⟨h.numbered, h.uncaptured, h.refs, h.intents, h.key⟩

/-- The customer says cash, and the driver collects it. -/
theorem payable_cash (h : Settleable w b r d k) (hu : Unpaid env w b) (hpos : 0 < r.total) :
    Payable env w b := by
  let w₁ := w.run (.releaseLock b)
  have h₁ : Settleable w₁ b r d k := h.same rfl rfl rfl rfl
  obtain ⟨res, t, row, hchoose, hready, hsame⟩ :=
    chooseCash_ready hu.releaseLock h₁.booking h₁.completed hpos
  have h₂ : Settleable t b r d k := h₁.same hsame.bookings hsame.fleets hsame.shares hsame.ledger
  have hlock : b ∉ t.captureLocks := by
    rw [hsame.locks]
    intro hmem
    have := (List.mem_filter.mp hmem).2
    simp at this
  have hpaid := confirmCash_paid env h₂ hpos hready hlock
  refine ⟨[Proc.write (.releaseLock b), (chooseCash env b r.userId).ignore,
    (confirmCashCollected env b d).ignore], fun q hq ↦ ?_, ?_⟩
  · simp only [List.mem_cons, List.not_mem_nil, or_false] at hq
    rcases hq with rfl | rfl | rfl
    · exact .outside _ rfl
    · exact .chooseCash r.userId
    · exact .confirmCashCollected d
  · have hcash : ((chooseCash env b r.userId).ignore.exec w₁).2 = t := by
      rw [Proc.exec_ignore, hchoose]
    have hrun : (runAll [Proc.write (.releaseLock b), (chooseCash env b r.userId).ignore,
        (confirmCashCollected env b d).ignore] w).1 =
        ((confirmCashCollected env b d).ignore.exec
          ((chooseCash env b r.userId).ignore.exec w₁).2).2 := rfl
    rw [hrun, hcash, Proc.exec_ignore]
    exact hpaid

/-! A fare that is worth nothing. -/

theorem exec_call_next {α β : Type} {q : Select} {f : World → Except Failure α}
    {g : α → Request β} {a : α} (h : f w = .ok a) : ((call q f).bind g).exec w = (g a).exec w :=
  Proc.exec_next ((Proc.exec_attempt _ _ w).trans (Prod.ext_iff.mpr ⟨h, rfl⟩))

theorem exec_call_stop {α β : Type} {q : Select} {f : World → Except Failure α}
    {g : α → Request β} {e : Failure} (h : f w = .error e) :
    ((call q f).bind g).exec w = (.error e, w) :=
  Proc.exec_stop ((Proc.exec_attempt _ _ w).trans (Prod.ext_iff.mpr ⟨h, rfl⟩))

/-- A trip with nothing to pay, and nothing left to pay it with: no online intent is
open, and the vendor says what it collected. -/
structure NothingOwed (w : World) (b : ℕ) : Prop where
  free : ∃ r, w.bookings b = some r ∧ r.status = .completed ∧ r.total = 0
  numbered : w.Numbered
  offline : ∀ row ∈ w.payments, row.bookingId = b → row.purpose = .booking →
    World.isOpen row = true → row.provider = .cash
  refs : ∀ r ∈ w.payments, ∀ id, r.gatewayRef = some (.cash id) →
    ∃ row, w.payment id = some row ∧ (row.bookingId = b → World.isOpen row = false)
  applied : ∀ r ∈ w.payments, 0 ≤ r.walletApplied
  reports : w.gateway.reportsAmount = true
  orders : ∀ o ∈ w.gateway.orders, 0 < o.amountPaise
  attempts : ∀ p ∈ w.gateway.payments, p.order < w.gateway.orders.length

theorem NothingOwed.same {w' : World} (h : NothingOwed w b) (hb : w'.bookings b = w.bookings b)
    (hp : w'.payments = w.payments) (hg : w'.gateway = w.gateway) : NothingOwed w' b := by
  have hpay (id : ℕ) : w'.payment id = w.payment id := by
    rw [World.payment, World.payment, hp]
  refine ⟨by rw [hb]; exact h.free, ?_, by rw [hp]; exact h.offline, ?_, by rw [hp]; exact h.applied,
    by rw [hg]; exact h.reports, by rw [hg]; exact h.orders, by rw [hg]; exact h.attempts⟩
  · rw [World.Numbered, hp]
    exact h.numbered
  · rw [hp]
    simp only [hpay]
    exact h.refs

theorem NothingOwed.load (h : NothingOwed w b) (userId : ℕ) (purpose : PaymentPurpose)
    (allowPaid : Bool) :
    (∃ e, (loadPayableBooking b userId purpose allowPaid).exec w = (.error e, w)) ∨
      ∃ r, (loadPayableBooking b userId purpose allowPaid).exec w = (.ok r, w) ∧
        purpose = .booking ∧ r.status = .completed ∧ r.total = 0 := by
  obtain ⟨r, hb, hst, htotal⟩ := h.free
  have hexec : (loadPayableBooking b userId purpose allowPaid).exec w =
      (if r.userId ≠ userId then .error (.api (.notFound "Booking not found"))
        else if !payable purpose allowPaid r.status then
          .error (conflict ("This booking cannot be paid for while it is " ++ r.status.label)
            [("status", r.status.label)])
        else .ok r, w) := by
    simp [loadPayableBooking, call, hb, Store.commit, World.run]
  rw [hexec]
  by_cases hu : r.userId ≠ userId
  · rw [if_pos hu]
    exact .inl ⟨_, rfl⟩
  · rw [if_neg hu]
    cases purpose with
    | booking =>
      have hpay : (!payable .booking allowPaid r.status) = false := by simp [payable, hst]
      rw [hpay]
      exact .inr ⟨r, rfl, rfl, hst, htotal⟩
    | cancellationFee =>
      have hpay : (!payable .cancellationFee allowPaid r.status) = true := by simp [payable, hst]
      rw [hpay]
      exact .inl ⟨_, rfl⟩

theorem NothingOwed.openIntent (h : NothingOwed w b) :
    (PaymentsRepo.openIntent b .booking).exec w = (.ok (w.openIntent b .booking), w) ∧
      ∀ row, w.openIntent b .booking = some row → row.provider = .cash := by
  refine ⟨by simp [PaymentsRepo.openIntent, select, Store.commit, World.run], fun row hrow ↦ ?_⟩
  obtain ⟨hmem, hkind⟩ := mem_openIntent hrow
  exact h.offline row hmem (congrArg Prod.fst hkind) (congrArg Prod.snd hkind)
    (isOpen_openIntent hrow)

/-- There is no intent for nothing. -/
theorem NothingOwed.createIntent (h : NothingOwed w b) (userId : ℕ) (purpose : PaymentPurpose)
    (clientKey : String) : ((createIntent env b userId purpose clientKey).exec w).2 = w := by
  unfold PaymentsService.createIntent
  rcases h.load userId purpose false with ⟨e, he⟩ | ⟨r, hr, rfl, -, htotal⟩
  · rw [Proc.bind_eq, Proc.exec_stop he]
  · rw [Proc.bind_eq, Proc.exec_next hr]
    simp [totalPaise, Proc.when, htotal]

theorem NothingOwed.payWithWallet (h : NothingOwed w b) (userId : ℕ) :
    ((payWithWallet env b userId).exec w).2 = w := by
  unfold PaymentsService.payWithWallet
  rcases h.load userId .booking true with ⟨e, he⟩ | ⟨r, hr, -, hst, -⟩
  · rw [Proc.bind_eq, Proc.exec_stop he]
  · obtain ⟨hopen, hcash⟩ := h.openIntent
    rw [Proc.bind_eq, Proc.exec_next hr, if_neg (by simp [hst])]
    dsimp only
    rw [Proc.bind_eq, Proc.exec_next hopen]
    cases hrow : w.openIntent b .booking with
    | none => rfl
    | some row =>
      dsimp only
      rw [hcash row hrow]
      rfl

/-- What the vendor says it collected is never nothing. -/
theorem NothingOwed.handle (h : NothingOwed w b) {gatewayRef : Ref} {orderRef : Option Ref}
    {handle : PaymentHandle} (hf : w.gateway.fetchPayment (some gatewayRef) orderRef = .ok handle) :
    ∃ amount, handle.amountPaise = some amount ∧ 0 < amount := by
  unfold Gateway.fetchPayment at hf
  split_ifs at hf
  cases gatewayRef with
  | pay n =>
    dsimp only at hf
    cases hp : w.gateway.payments[n]? with
    | none =>
      rw [hp] at hf
      cases hf
    | some p =>
      rw [hp] at hf
      cases hf
      have hlt := h.attempts p (List.mem_of_getElem? hp)
      refine ⟨w.gateway.orders[p.order].amountPaise, ?_, h.orders _ (List.getElem_mem hlt)⟩
      simp [Gateway.handleOf, h.reports, List.getElem?_eq_getElem hlt]
  | _ => cases hf

theorem NothingOwed.collectedHandle (h : NothingOwed w b) (body : PaymentCaptureRequest) :
    (∃ e, (collectedHandle body).exec w = (.error e, w)) ∨
      ∃ handle amount, (collectedHandle body).exec w = (.ok handle, w) ∧
        handle.amountPaise = some amount ∧ 0 < amount := by
  have hverify : (verifyCheckout body).exec w = (.ok (w.gateway.verifyCheckout body), w) := rfl
  have hfetch : (fetchPayment (some body.gatewayRef) (some body.orderRef)).exec w =
      (w.gateway.fetchPayment (some body.gatewayRef) (some body.orderRef), w) := rfl
  unfold PaymentsService.collectedHandle
  rw [Proc.bind_eq, Proc.exec_next hverify]
  cases hv : w.gateway.verifyCheckout body with
  | false => exact .inl ⟨_, rfl⟩
  | true =>
    rw [Proc.bind_eq, Proc.exec_next (show (Proc.when (!true) _).exec w = (.ok (), w) from rfl)]
    cases hf : w.gateway.fetchPayment (some body.gatewayRef) (some body.orderRef) with
    | error e =>
      rw [hf] at hfetch
      rw [Proc.bind_eq, Proc.exec_stop hfetch]
      exact .inl ⟨e, rfl⟩
    | ok handle =>
      rw [hf] at hfetch
      rw [Proc.bind_eq, Proc.exec_next hfetch]
      obtain ⟨amount, ha, hpos⟩ := h.handle hf
      by_cases hst : handle.status ≠ .captured
      · rw [Proc.when, if_pos hst]
        exact .inl ⟨_, rfl⟩
      · refine .inr ⟨handle, amount, ?_, ha, hpos⟩
        rw [Proc.when, if_neg hst]
        rfl

theorem NothingOwed.capture (h : NothingOwed w b) (userId : ℕ) (body : PaymentCaptureRequest) :
    ((capture env b userId body).exec w).2 = w := by
  unfold PaymentsService.capture
  rcases h.load userId .booking true with ⟨e, he⟩ | ⟨r, hr, -, hst, htotal⟩
  · rw [Proc.bind_eq, Proc.exec_stop he]
  · rw [Proc.bind_eq, Proc.exec_next hr, if_neg (by simp [hst])]
    rcases h.collectedHandle body with ⟨e, he⟩ | ⟨handle, amount, hh, ha, hpos⟩
    · rw [Proc.bind_eq, Proc.exec_stop he]
    · have hrow : (byOrderRef body.orderRef).exec w = (.ok (w.byOrderRef body.orderRef), w) := rfl
      rw [Proc.bind_eq, Proc.exec_next hh, Proc.bind_eq, Proc.exec_next hrow]
      have hnonneg : 0 ≤ ((w.byOrderRef body.orderRef).map (·.walletApplied)).getD 0 := by
        cases hf : w.byOrderRef body.orderRef with
        | none => exact le_refl 0
        | some row => exact h.applied row (List.mem_of_find?_eq_some hf)
      rw [assertAmountMatches, ha]
      dsimp only
      rw [if_neg (by omega)]
      rfl

theorem NothingOwed.chooseCash (h : NothingOwed w b) (userId : ℕ) :
    NothingOwed ((chooseCash env b userId).exec w).2 b := by
  unfold PaymentsService.chooseCash
  rcases h.load userId .booking false with ⟨e, he⟩ | ⟨r, hr, -, -, htotal⟩
  · rw [Proc.bind_eq, Proc.exec_stop he]
    exact h
  · obtain ⟨hopen, hcash⟩ := h.openIntent
    rw [Proc.bind_eq, Proc.exec_next hr, Proc.bind_eq, Proc.exec_next hopen]
    cases hrow : w.openIntent b .booking with
    | some row =>
      dsimp only
      rw [if_pos (hcash row hrow)]
      exact h
    | none =>
      -- A row for nothing is refused by the table.
      dsimp only
      have huuid : (Proc.query .randomUuid (·.uuids) : Request ℕ).exec w =
          (.ok w.uuids, { w with uuids := w.uuids + 1 }) := rfl
      let w₁ : World := { w with uuids := w.uuids + 1 }
      have h₁ : NothingOwed w₁ b := h.same rfl rfl rfl
      rw [chooseCash.createCash, Proc.bind_eq, Proc.exec_next huuid]
      generalize hp : (NewPayment.mk _ _ _ _ _ _ _ _) = p
      have hrefused : ∃ e, w₁.insertPayment p = .error e := by
        subst hp
        unfold World.insertPayment
        split_ifs
        · exact ⟨_, rfl⟩
        · exact ⟨_, rfl⟩
        · exact ⟨_, rfl⟩
        · rename_i hbad _
          exact absurd (.inr (by simp [htotal])) hbad
      obtain ⟨e, he⟩ := hrefused
      have hcreate : (create p).exec w₁ = (.error e, w₁) := by
        have hsame : w₁.createPayment p = w₁ := by rw [World.createPayment, he]
        rw [create, Proc.exec_attempt, he]
        exact congrArg _ hsame
      rw [Proc.bind_eq, Proc.exec_stop hcreate]
      exact h₁

/-- A row that is recorded as captured is not open any more. -/
theorem NothingOwed.captured (h : NothingOwed w b) (hrow : w.payment row.id = some row)
    (method : Option PaymentMethod) :
    NothingOwed (w.markCaptured row.id (some (.cash row.id)) method) b ∧
      (w.markCapturedError row.id (some (.cash row.id)) = none →
        ((w.markCaptured row.id (some (.cash row.id)) method).payment row.id).map (·.provider) =
          some row.provider) := by
  cases herr : w.markCapturedError row.id (some (.cash row.id)) with
  | some e =>
    have hrun : w.markCaptured row.id (some (.cash row.id)) method = w := by
      rw [World.markCaptured, herr]
      rfl
    rw [hrun]
    exact ⟨h, fun hn ↦ by cases hn⟩
  | none =>
    let f (r : PaymentRow) : PaymentRow :=
      if r.status = .captured then r else w.capturedRow r (some (.cash row.id)) method
    have hrun : w.markCaptured row.id (some (.cash row.id)) method = w.updatePayment row.id f := by
      rw [World.markCaptured, herr]
      rfl
    rw [hrun]
    have hid (r : PaymentRow) : (f r).id = r.id := by
      dsimp only [f]
      split_ifs <;> rfl
    have hf (r : PaymentRow) : (f r).bookingId = r.bookingId ∧ (f r).purpose = r.purpose ∧
        (f r).provider = r.provider ∧ (f r).walletApplied = r.walletApplied ∧
        World.isOpen (f r) = false ∧
        ((f r).gatewayRef = r.gatewayRef ∨ (f r).gatewayRef = some (.cash row.id)) := by
      by_cases hc : r.status = .captured
      · have hsame : f r = r := if_pos hc
        rw [hsame]
        exact ⟨rfl, rfl, rfl, rfl, by simp [World.isOpen, hc], .inl rfl⟩
      · have hnew : f r = w.capturedRow r (some (.cash row.id)) method := if_neg hc
        rw [hnew]
        exact ⟨rfl, rfl, rfl, rfl, rfl, .inr rfl⟩
    have hmem (r : PaymentRow) (hr : r ∈ (w.updatePayment row.id f).payments) :
        ∃ r₀ ∈ w.payments, r = r₀ ∨ r = f r₀ := by
      obtain ⟨r₀, hr₀, rfl⟩ := List.mem_map.mp hr
      refine ⟨r₀, hr₀, ?_⟩
      split_ifs
      · exact .inr rfl
      · exact .inl rfl
    have hstored (id : ℕ) : (w.updatePayment row.id f).payment id =
        (w.payment id).map fun r ↦ if r.id = row.id then f r else r :=
      World.payment_updatePayment hid id
    refine ⟨⟨h.free, World.numbered_updatePayment hid h.numbered, fun r hr hb hp ho ↦ ?_,
      fun r hr i href ↦ ?_, fun r hr ↦ ?_, h.reports, h.orders, h.attempts⟩, fun _ ↦ ?_⟩
    · obtain ⟨r₀, hr₀, rfl | rfl⟩ := hmem r hr
      · exact h.offline r hr₀ hb hp ho
      · rw [(hf r₀).2.2.2.2.1] at ho
        cases ho
    · rw [hstored]
      have hclosed (r' : PaymentRow) (h' : w.payment i = some r')
          (hd : r'.id = row.id ∨ (r'.bookingId = b → World.isOpen r' = false)) :
          ∃ x, (w.payment i).map (fun r ↦ if r.id = row.id then f r else r) = some x ∧
            (x.bookingId = b → World.isOpen x = false) := by
        refine ⟨if r'.id = row.id then f r' else r', by rw [h']; rfl, ?_⟩
        split_ifs with heq
        · exact fun _ ↦ (hf r').2.2.2.2.1
        · exact hd.resolve_left heq
      obtain ⟨r₀, hr₀, hcases⟩ := hmem r hr
      have holder : r.gatewayRef = r₀.gatewayRef ∨ r.gatewayRef = some (.cash row.id) := by
        rcases hcases with rfl | rfl
        · exact .inl rfl
        · exact (hf r₀).2.2.2.2.2
      rcases holder with heq | heq
      · obtain ⟨x, hx, hcl⟩ := h.refs r₀ hr₀ i (heq.symm.trans href)
        exact hclosed x hx (.inr hcl)
      · rw [heq] at href
        cases href
        exact hclosed row hrow (.inl rfl)
    · obtain ⟨r₀, hr₀, rfl | rfl⟩ := hmem r hr
      · exact h.applied r hr₀
      · rw [(hf r₀).2.2.2.1]
        exact h.applied r₀ hr₀
    · rw [hstored, hrow]
      simp [(hf row).2.2.1]

theorem NothingOwed.post (h : NothingOwed w b) (legs : List (LedgerLeg LedgerKey)) :
    NothingOwed (w.post legs) b := h.same rfl rfl rfl

/-- The driver's cash comes to nothing, and the ledger has no leg for that. -/
theorem post_cashLegs_zero : ∃ e, (ledgerPost (cashLegs b d 0)).ignore.exec w =
    (.error e, w.post (cashLegs b d 0)) := by
  have hrefused : ∃ e, (w.postResult (cashLegs b d 0)).1 = .error e := ⟨_, rfl⟩
  obtain ⟨e, he⟩ := hrefused
  have hexec : (ledgerPost (cashLegs b d 0)).exec w =
      (.error (.ledger e), w.post (cashLegs b d 0)) := by
    rw [ledgerPost, Proc.exec_attempt, he]
    rfl
  exact ⟨_, Proc.exec_stop hexec⟩

theorem NothingOwed.settleOn (h : NothingOwed w b) {on : Settling} {inputs : SettlementInputs}
    {id : ℕ} (htotal : inputs.totalPaise = 0)
    (hcash : (w.payment id).map (·.provider) = some .cash) :
    NothingOwed ((settleOn on inputs (some id)).exec w).2 b := by
  unfold PaymentsService.settleOn
  cases inputs.driverId with
  | none => exact h
  | some driverId =>
    cases inputs.band with
    | none => exact h
    | some band =>
      dsimp only
      have hlegs : (paymentLegsFor (some id)).exec w =
          (.ok (((w.payment id).map (·.walletApplied)).getD 0, some .cash), w) := by
        rw [← hcash]
        rfl
      have hstop {t : World} (ht : NothingOwed t b) (q : Unit → Request Unit) :
          NothingOwed ((Proc.bind (Proc.when (some Provider.cash = some .cash)
            (ledgerPost (cashLegs on.bookingId driverId inputs.totalPaise)).ignore) q).exec t).2 b := by
        obtain ⟨e, he⟩ := post_cashLegs_zero (w := t) (b := on.bookingId) (d := driverId)
        rw [htotal, Proc.when, if_pos rfl, Proc.exec_stop he]
        exact ht.post _
      rw [Proc.bind_eq, Proc.exec_next hlegs]
      dsimp only
      by_cases hspent : 0 < ((w.payment id).map (·.walletApplied)).getD 0
      · let legs := spendLegs on.bookingId inputs.userId (((w.payment id).map (·.walletApplied)).getD 0)
        have hstate : ((ledgerPost legs).ignore.exec w).2 = w.post legs := by
          rw [Proc.exec_ignore]
          rfl
        rw [Proc.bind_eq, Proc.when, if_pos hspent, Proc.exec_bind]
        cases hpost : (ledgerPost legs).ignore.exec w with
        | mk res t =>
          rw [hpost] at hstate
          cases hstate
          cases res with
          | error e => exact h.post legs
          | ok u => exact hstop (h.post legs) _
      · rw [Proc.bind_eq, Proc.when, if_neg hspent]
        exact hstop h _

theorem NothingOwed.settleInner (env : Env) (h : NothingOwed w b) (hrow : w.openIntent b .booking = some row) :
    NothingOwed ((settleInner env (cashSettling b row 0)).exec w).2 b := by
  obtain ⟨r, hb, hst, htotal⟩ := h.free
  obtain ⟨hmem, hkind⟩ := mem_openIntent hrow
  have hstored := h.numbered.payment_of_mem hmem
  have hcash := h.openIntent.2 row hrow
  have hopen := isOpen_openIntent hrow
  have hinputs : (settlementInputs (cashSettling b row 0)).exec w =
      (.ok (settlementInputsOf w r), w) := by
    rw [settlementInputs, call, Proc.exec_attempt]
    simp [cashSettling, hb, Store.commit, World.run]
  -- The money is looked up under a reference no row has, then under the open intent.
  have hnone : w.byGatewayRef (.cash row.id) = none := by
    refine List.find?_eq_none.mpr fun r hr hdec ↦ ?_
    obtain ⟨x, hx, hclosed⟩ := h.refs r hr row.id (of_decide_eq_true hdec)
    cases hstored.symm.trans hx
    rw [hclosed (congrArg Prod.fst hkind)] at hopen
    cases hopen
  have hexisting : (existingRow (cashSettling b row 0)).exec w = (.ok (some row), w) := by
    simp [existingRow, orElse, cashSettling, byHandleRef, byHandleOrder, PaymentsRepo.openIntent,
      select, Proc.exec_bind, Store.commit, World.run, hnone, hrow]
  have hne : row.status ≠ .captured := by
    intro hc
    simp [World.isOpen, hc] at hopen
  obtain ⟨hcaptured, hprov⟩ := h.captured hstored (some .cash)
  unfold PaymentsService.settleInner
  rw [Proc.bind_eq, Proc.exec_next hinputs]
  have hstatus : (settlementInputsOf w r).status = .completed := hst
  simp only [hstatus, reduceCtorEq, if_false, ne_eq, not_true]
  unfold ensureCapturedRow
  rw [Proc.bind_eq, Proc.exec_bind, Proc.bind_eq, Proc.exec_next hexisting]
  dsimp only
  rw [Proc.when, if_pos hne, Proc.bind_eq, Proc.exec_bind, markCaptured, Proc.exec_attempt]
  change NothingOwed _ b
  cases herr : w.markCapturedError row.id (some (.cash row.id)) with
  | some e =>
    have : (cashSettling b row 0).handle.gatewayRef = some (.cash row.id) := rfl
    simp only [this, herr]
    exact hcaptured
  | none =>
    have : (cashSettling b row 0).handle.gatewayRef = some (.cash row.id) := rfl
    simp only [this, herr]
    exact hcaptured.settleOn htotal ((hprov herr).trans (congrArg some hcash))

theorem NothingOwed.settleCapturedPayment (env : Env) (h : NothingOwed w b)
    (hrow : w.openIntent b .booking = some row) :
    NothingOwed ((settleCapturedPayment env (cashSettling b row 0)).exec w).2 b := by
  unfold PaymentsService.settleCapturedPayment withLock
  rw [show (cashSettling b row 0).bookingId = b from rfl]
  have hacquire : (Proc.query (.acquireLock b) fun w : World ↦
      if w.redisUp then some (decide (b ∉ w.captureLocks)) else none : Request (Option Bool)).exec w =
      (.ok (if w.redisUp then some (decide (b ∉ w.captureLocks)) else none),
        w.run (.acquireLock b)) := rfl
  rw [Proc.bind_eq, Proc.exec_next hacquire]
  by_cases hup : w.redisUp = true
  · rw [if_pos hup]
    by_cases hlock : b ∈ w.captureLocks
    · have hrun : w.run (.acquireLock b) = w := by simp [World.run, hlock]
      rw [hrun, decide_eq_false (not_not.mpr hlock)]
      exact h
    · have hrun : w.run (.acquireLock b) = { w with captureLocks := b :: w.captureLocks } := by
        simp [World.run, hlock, hup]
      rw [hrun, decide_eq_true hlock]
      let w₁ : World := { w with captureLocks := b :: w.captureLocks }
      have h₁ : NothingOwed w₁ b := h.same rfl rfl rfl
      have hdone := h₁.settleInner env hrow
      dsimp only
      rw [Proc.bind_eq, Proc.exec_bind, Proc.tryCatch_eq, Proc.exec_handle]
      change NothingOwed ((PaymentsService.settleInner env (cashSettling b row 0)).exec w₁).2 b at hdone
      cases hexec : (PaymentsService.settleInner env (cashSettling b row 0)).exec w₁ with
      | mk res t =>
        rw [hexec] at hdone
        cases res with
        | ok u => exact hdone.same rfl rfl rfl
        | error e => exact hdone.same rfl rfl rfl
  · have hrun : w.run (.acquireLock b) = w := by simp [World.run, hup]
    rw [if_neg hup, hrun]
    exact h.settleInner env hrow

theorem NothingOwed.confirmCashCollected (h : NothingOwed w b) (driverId : ℕ) :
    NothingOwed ((confirmCashCollected env b driverId).exec w).2 b := by
  obtain ⟨r, hb, hst, htotal⟩ := h.free
  obtain ⟨hopen, hcash⟩ := h.openIntent
  unfold PaymentsService.confirmCashCollected
  by_cases hd : r.driverId = some driverId
  · rw [Proc.bind_eq, exec_call_next (a := r)]
    · rw [if_neg (by simp [hst]), if_neg (by simp [hst]), Proc.bind_eq, Proc.exec_next hopen]
      cases hrow : w.openIntent b .booking with
      | none => exact h
      | some intent =>
        dsimp only
        rw [htotal]
        have hsettle := h.settleCapturedPayment env hrow
        rw [Proc.bind_eq, Proc.exec_next (show (Proc.when (intent.provider ≠ .cash) _).exec w =
          (.ok (), w) from by rw [Proc.when, if_neg (not_not.mpr (hcash intent hrow))]; rfl)]
        rw [Proc.bind_eq, Proc.exec_bind]
        change NothingOwed ((PaymentsService.settleCapturedPayment env
          (cashSettling b intent 0)).exec w).2 b at hsettle
        cases hexec : (PaymentsService.settleCapturedPayment env (cashSettling b intent 0)).exec w with
        | mk res t =>
          have hexec' : (PaymentsService.settleCapturedPayment env
              ⟨b, ⟨some (.cash intent.id), none, .captured, some .cash, some 0, none⟩, .cash⟩).exec w =
              (res, t) := hexec
          rw [hexec] at hsettle
          rw [hexec']
          cases res with
          | error e => exact hsettle
          | ok u => exact hsettle.same rfl rfl rfl
    · simp only [hb, if_pos hd]
  · rw [Proc.bind_eq, exec_call_stop]
    · exact h
    · simp only [hb, if_neg hd]
      rfl

theorem NothingOwed.outside (h : NothingOwed w b) {l : Step} (hl : l.outside = true) :
    NothingOwed (w.run l) b := by
  cases l with
  | gatewayAttempt p =>
    refine ⟨h.free, h.numbered, h.offline, h.refs, h.applied, ?_, ?_, ?_⟩ <;>
      dsimp only [World.run, Gateway.attempt] <;> split_ifs with hbad
    · exact h.reports
    · exact h.reports
    · exact h.orders
    · exact h.orders
    · exact h.attempts
    · intro p' hp'
      rcases List.mem_append.mp hp' with hp' | hp'
      · exact h.attempts p' hp'
      · cases List.mem_singleton.mp hp'
        simp only [Bool.or_eq_true, decide_eq_true_eq, not_or, not_le] at hbad
        exact hbad.1
  | gatewayFinish n status =>
    refine ⟨h.free, h.numbered, h.offline, h.refs, h.applied, ?_, ?_, ?_⟩ <;>
      dsimp only [World.run, Gateway.finish] <;> cases hn : w.gateway.payments[n]? <;>
      dsimp only <;> try split_ifs
    · exact h.reports
    · exact h.reports
    · exact h.reports
    · exact h.orders
    · exact h.orders
    · exact h.orders
    · exact h.attempts
    · exact h.attempts
    · rename_i p _
      intro p' hp'
      rcases List.mem_or_eq_of_mem_set hp' with hp' | rfl
      · exact h.attempts p' hp'
      · exact h.attempts p (List.mem_of_getElem? hn)
  | gatewayUp up => exact ⟨h.free, h.numbered, h.offline, h.refs, h.applied, h.reports, h.orders, h.attempts⟩
  | tick ms => exact h.same rfl rfl rfl
  | redisUp up => exact h.same rfl rfl rfl
  | releaseLock c => exact h.same rfl rfl rfl
  | _ => cases hl

theorem Pays.nothingOwed {q : Request Unit} (hq : Pays env b q) (h : NothingOwed w b) :
    NothingOwed (q.exec w).2 b := by
  cases hq with
  | createIntent userId purpose clientKey =>
    rw [Proc.exec_ignore, h.createIntent]
    exact h
  | payWithWallet userId =>
    rw [Proc.exec_ignore, h.payWithWallet]
    exact h
  | chooseCash userId =>
    rw [Proc.exec_ignore]
    exact h.chooseCash userId
  | confirmCashCollected driverId =>
    rw [Proc.exec_ignore]
    exact h.confirmCashCollected driverId
  | capture userId body =>
    rw [Proc.exec_ignore, h.capture]
    exact h
  | outside l hl => exact h.outside hl

theorem NothingOwed.runAll {qs : List (Request Unit)} (h : NothingOwed w b)
    (hqs : ∀ q ∈ qs, Pays env b q) : NothingOwed (runAll qs w).1 b := by
  induction qs generalizing w with
  | nil => exact h
  | cons q qs ih =>
    have hfirst := (hqs q List.mem_cons_self).nothingOwed h
    exact ih hfirst fun q' hq' ↦ hqs q' (List.mem_cons_of_mem _ hq')

theorem NothingOwed.not_payable (h : NothingOwed w b) : ¬Payable env w b := by
  intro hpay
  obtain ⟨qs, hqs, hpaid⟩ := hpay
  obtain ⟨r, hb, hst, -⟩ := (h.runAll hqs).free
  rw [hb, Option.map_some, hst] at hpaid
  cases hpaid

/-- A trip that nothing was collected for can be paid exactly if its fare is worth
something. One that became free keeps no online intent from before. -/
theorem payable_iff (h : Settleable w b r d k) (hu : Unpaid env w b)
    (hfree : r.total = 0 → NothingOwed w b) : Payable env w b ↔ 0 < r.total := by
  refine ⟨fun hpay ↦ ?_, payable_cash h hu⟩
  by_contra hneg
  have htax := h.tax
  exact (hfree (by omega)).not_payable hpay

/-- Trip 1 of `sampleTrip` has ended, and the customer holds a coupon for the whole
of its fare. -/
def freeCoupon : Coupon := { sampleCoupon with code := "FREE", value := 1000 }

def finishedTrip : World := { World.blank with
  bookings := fun id ↦ if id = 1 then some (sampleTrip .completed) else none
  coupons := [freeCoupon] }

theorem payable_iff_sample : Payable sampleEnv finishedTrip 1 ↔ 0 < (sampleTrip .completed).total := by
  refine payable_iff (d := 3) (k := .A) ⟨rfl, rfl, rfl, rfl, by decide, by decide,
    fun pct h ↦ ?_, fun share h ↦ ?_, Ledger.Sound.empty, fun o _ ↦ ?_⟩ ⟨rfl, ?_, ?_, ?_, ?_⟩ ?_
  · cases h
  · cases h
  · have hempty : finishedTrip.ledger.balanceOf o = 0 := rfl
    rw [hempty]
    decide
  · exact fun r hr ↦ by cases hr
  · exact fun r hr ↦ by cases hr
  · exact fun r hr ↦ by cases hr
  · exact fun r hr ↦ by cases hr
  · exact fun h ↦ by cases h

/-- The same trip once the coupon is taken. -/
def freeTrip : World := (runAll [PaymentCouponService.apply 1 7 "FREE"] finishedTrip).1

theorem nothingOwed_unpaid (hb : ∃ r, w.bookings b = some r ∧ r.status = .completed ∧ r.total = 0)
    (hp : w.payments.isEmpty = true) (ho : w.gateway.orders.isEmpty = true)
    (ha : w.gateway.payments.isEmpty = true) (hr : w.gateway.reportsAmount = true) :
    NothingOwed w b := by
  rw [List.isEmpty_iff] at hp ho ha
  refine ⟨hb, ?_, ?_, ?_, ?_, hr, ?_, ?_⟩
  · rw [World.Numbered, hp]
    rfl
  all_goals simp [hp, ho, ha]

theorem freeTrip_unpaid : freeTrip.payments.isEmpty = true ∧
    freeTrip.gateway.orders.isEmpty = true ∧ freeTrip.gateway.payments.isEmpty = true ∧
      freeTrip.gateway.reportsAmount = true := by
  decide +kernel

theorem freeTrip_booking :
    (freeTrip.bookings 1).map (fun r ↦ (r.status, r.driverId, r.commissionBand, r.total)) =
      some (.completed, some 3, some .A, 0) := by
  decide +kernel

theorem free_trip_not_payable :
    (freeTrip.bookings 1).map (fun r ↦ (r.status, r.driverId, r.commissionBand, r.total)) =
      some (.completed, some 3, some .A, 0) ∧ ¬Payable sampleEnv freeTrip 1 := by
  obtain ⟨hp, ho, ha, hr⟩ := freeTrip_unpaid
  obtain ⟨r, hb, hfields⟩ := Option.map_eq_some_iff.mp freeTrip_booking
  have howed : NothingOwed freeTrip 1 := nothingOwed_unpaid
    ⟨r, hb, congrArg (·.1) hfields, congrArg (·.2.2.2) hfields⟩ hp ho ha hr
  exact ⟨freeTrip_booking, howed.not_payable⟩

end Towing.Money
