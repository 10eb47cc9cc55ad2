import Towing.Money.Sequential

namespace Towing.Money

open Towing.Db Towing.Process PaymentsRepo PaymentsService

variable {w s : World} {l : Step} {env : Env} {b : ℕ} {row : PaymentRow}

theorem plain_write (hp : l.table ≠ .payments) (hg : l.table ≠ .gateway)
    (hb : l.table ≠ .bookings) : (Proc.write l : Request Unit).Only Plain :=
  ⟨plain_of_table hp hg hb, fun _ ↦ trivial⟩

theorem alone_throw {α : Type} {Φ : Except Failure α → World → Prop} {c : Prop} [Decidable c]
    {e : Failure} {f : Unit → Request α} (h : ¬c → Alone Φ (f ()) s) (h' : Φ (.error e) s) :
    Alone Φ ((Proc.when c (throw e)).bind f) s := by
  unfold Proc.when
  split_ifs with hc
  · exact h'
  · exact h hc

/-! Opening a payment. -/

theorem alone_loadPayableBooking (userId : ℕ) (purpose : PaymentPurpose) (allowPaid : Bool) :
    Alone (fun _ t ↦ t = s) (loadPayableBooking b userId purpose allowPaid) s :=
  (alone_call _ _).mono fun _ _ h ↦ h.2

theorem alone_create {p : NewPayment} (hs : Linked s) :
    Alone (fun r t ↦ Linked t ∧ ∀ row, r = .ok row →
      t.payment row.id = some row ∧ row.gatewayOrderRef = none) (create p) s := by
  rintro t rfl ht -
  have hnum := Recorded.numbered ht
  refine ⟨trivial, hs.run hnum trivial (by simp), fun row hrow ↦ ?_⟩
  have hrow : t.insertPayment p = .ok row := hrow
  obtain ⟨hid, -, -, -, -, -, -, -, hord⟩ := World.insertPayment_ok hrow
  refine ⟨?_, hord⟩
  change (t.createPayment p).payment row.id = some row
  rw [World.createPayment, hrow]
  exact World.payment_append_new hnum hid

theorem alone_markFailed (id : ℕ) (reason : String) (hs : Linked s) :
    Alone (fun _ t ↦ Linked t) (markFailed id reason) s := by
  rintro t rfl ht -
  exact ⟨trivial, hs.run (Recorded.numbered ht) trivial (by simp)⟩

theorem alone_intentRow {purpose : PaymentPurpose} {total balance : ℤ} {p : NewPayment} (hs : Linked s) :
    Alone (fun r t ↦ Linked t ∧ ∀ row, r = .ok row → t.payment row.id = some row)
      (intentRow b purpose total balance p) s := by
  have hreuse : Alone (fun r t ↦ Linked t ∧ ∀ row, r = .ok (some row) → t.payment row.id = some row)
      (reusableIntent b purpose total balance) s := by
    rintro t rfl ht -
    refine ⟨trivial, ?_⟩
    change Alone _ (Proc.bind (Proc.done (.ok (t.openIntent b purpose))) _) t
    cases hopen : t.openIntent b purpose with
    | none => exact ⟨hs, fun _ h ↦ by cases h⟩
    | some row =>
      rw [Proc.bind_ok]
      dsimp only
      split_ifs
      · exact (alone_markFailed _ _ hs).bind (fun _ _ h ↦ ⟨h, fun _ h ↦ by cases h⟩) fun _ _ h ↦ ⟨h, fun _ h ↦ by cases h⟩
      · refine ⟨hs, fun row' hrow' ↦ ?_⟩
        cases hrow'
        exact (Recorded.numbered ht).payment_of_mem (mem_openIntent hopen).1
  refine hreuse.bind ?_ fun _ _ h ↦ ⟨h.1, fun _ h ↦ by cases h⟩
  rintro found t ⟨ht, hfound⟩
  cases found with
  | some row =>
    refine ⟨ht, fun row' hrow' ↦ ?_⟩
    cases hrow'
    exact hfound row rfl
  | none =>
    refine (alone_create ht).handle (fun row u hu ↦ ⟨hu.1, ?_⟩) fun e u hu ↦ ?_
    · rintro row' h
      cases h
      exact (hu.2 row rfl).1
    · split_ifs
      · rintro v rfl hv -
        refine ⟨trivial, ?_⟩
        change Alone _ (Proc.bind (Proc.done (.ok (v.byIdempotencyKey p.idempotencyKey))) _) v
        cases hfind : v.byIdempotencyKey p.idempotencyKey with
        | none => exact ⟨hu.1, fun _ h ↦ by cases h⟩
        | some existing =>
          refine ⟨hu.1, fun row h ↦ ?_⟩
          cases h
          exact (Recorded.numbered hv).payment_of_mem (List.mem_of_find?_eq_some hfind)
      · exact ⟨hu.1, fun _ h ↦ by cases h⟩

/-- Nobody has used the number the vendor gives to its next order. -/
theorem fresh_order (hw : Recorded anyLaw w) (hrow : row ∈ w.payments) :
    row.gatewayOrderRef ≠ some (.order w.gateway.orders.length) := by
  intro href
  have hkind := (hw.rows row hrow).orderRef _ href
  simp [World.refKind] at hkind

/-- An order number that no row has is linked by being set. -/
theorem Linked.setOrderRef {o : ℕ} (hn : w.Numbered) (hlinked : ∀ i < o, ∃ r ∈ w.payments,
      r.gatewayOrderRef = some (.order i)) (ho : w.gateway.orders.length = o + 1)
    (hrow : w.payment row.id = some row) (hnone : row.gatewayOrderRef = none)
    (hfresh : ∀ r ∈ w.payments, r.gatewayOrderRef ≠ some (.order o)) :
    Linked (w.run (.setOrderRef row.id (.order o))) := by
  have hfree : w.setOrderRefError row.id (.order o) = none := by
    rw [World.setOrderRefError, if_neg]
    simp only [List.any_eq_true, Bool.and_eq_true, decide_eq_true_eq, not_exists, not_and]
    exact fun r hr href ↦ absurd href (hfresh r hr)
  intro i hi
  rw [run_orders_eq (by simp), ho] at hi
  simp only [World.run, World.setOrderRef, hfree, Option.isSome_none, Bool.false_eq_true, if_false]
  rcases Nat.lt_succ_iff_lt_or_eq.mp hi with hlt | rfl
  · refine exists_updatePayment (hlinked i hlt) fun r hr hid href ↦ ?_
    have hr := hn.payment_of_mem hr
    rw [hid, hrow] at hr
    cases hr
    rw [hnone] at href
    cases href
  · refine ⟨_, List.mem_map_of_mem (World.mem_of_payment hrow).1, ?_⟩
    rw [if_pos rfl]

theorem alone_openOrder {purpose : PaymentPurpose} {walletPaise gatewayPaise : ℤ} (hs : Linked s)
    (hrow : s.payment row.id = some row) (hnone : row.gatewayOrderRef = none) :
    Alone (fun _ t ↦ Linked t) (openOrder b purpose walletPaise gatewayPaise row) s := by
  have hsolo (ref : Ref) (t : World) (ht : t.payments = s.payments) :
      Solo (.setOrderRef row.id ref) t := by
    intro row' hrow'
    rw [World.payment, ht] at hrow'
    cases (show s.payment row.id = some row' from hrow').symm.trans hrow
    exact hnone
  unfold openOrder
  split_ifs
  · refine Contract.Meets.bind (Q := fun _ t ↦ Linked t) ?_ (fun _ _ h ↦ h) fun _ _ h ↦ h
    rintro t rfl ht -
    have h : Solo (.setOrderRef row.id (.wallet row.id)) t := hsolo _ t rfl
    exact ⟨h, hs.run (Recorded.numbered ht) h (by simp)⟩
  · let x : GatewayOrder := ⟨row.id, b, purpose, gatewayPaise⟩
    refine Contract.Meets.bind (Q := fun r t ↦ (∀ e, r = .error e → Linked t) ∧
      ∀ ref, r = .ok ref → t.payments = s.payments ∧ Linked (t.run (.setOrderRef row.id ref)))
      ?_ (fun ref t h ↦ ?_) fun e t h ↦ h.1 e rfl
    · rintro t rfl ht -
      have hpay : (t.run (.createOrder x)).payments = t.payments :=
        World.run_payments (by simp [Step.table])
      refine ⟨trivial, fun e he ↦ ?_, fun ref href ↦ ⟨hpay, ?_⟩⟩
      · dsimp only at he
        split_ifs at he with hup
        change Linked (t.run (.createOrder x))
        simpa [World.run, Gateway.createOrder, hup] using hs
      · dsimp only at href
        split_ifs at href with hup
        cases href
        refine Linked.setOrderRef ?_ ?_ ?_ ?_ hnone ?_
        · exact World.run_numbered (Recorded.numbered ht)
        · exact fun i hi ↦ hpay ▸ hs i hi
        · change (t.run (.createOrder x)).gateway.orders.length = _
          simp [World.run, Gateway.createOrder, hup]
        · change (t.run (.createOrder x)).payment row.id = some row
          rw [World.payment, hpay]
          exact hrow
        · intro r hr
          exact fresh_order ht (hpay ▸ hr)
    · obtain ⟨hpay, hlinked⟩ := h.2 ref rfl
      refine Contract.Meets.bind (Q := fun _ t ↦ Linked t) ?_ (fun _ _ h ↦ h) fun _ _ h ↦ h
      rintro u rfl hu -
      exact ⟨hsolo ref _ hpay, hlinked⟩

theorem alone_createIntent (hs : Linked s) (userId : ℕ) (purpose : PaymentPurpose)
    (clientKey : String) :
    Alone (fun _ t ↦ Linked t) (createIntent env b userId purpose clientKey) s := by
  refine (alone_loadPayableBooking userId purpose false).bind ?_ fun _ _ h ↦ h ▸ hs
  rintro booking s rfl
  have htotal : Alone (fun _ t ↦ t = s) (totalPaise env purpose booking) s := by
    cases purpose with
    | booking => exact rfl
    | cancellationFee => exact (alone_select _ _).bind (fun _ _ h ↦ h.2) fun _ _ h ↦ by cases h.1
  refine htotal.bind ?_ fun _ _ h ↦ h ▸ hs
  rintro total t rfl
  refine alone_throw (fun _ ↦ ?_) hs
  have hspend : Alone (fun _ u ↦ u = t) (spendable purpose userId) t := by
    cases purpose with
    | booking => exact (alone_select _ _).mono fun _ _ h ↦ h.2
    | cancellationFee => exact rfl
  refine hspend.bind ?_ fun _ _ h ↦ h ▸ hs
  rintro balance u rfl
  dsimp only
  refine Contract.Meets.bind (alone_intentRow hs) ?_ fun _ _ h ↦ h.1
  · rintro row v ⟨hv, hrow⟩
    split
    · exact hv
    · rename_i hnone
      exact alone_openOrder hv (hrow row rfl) hnone

theorem alone_chooseCash (hs : Linked s) (userId : ℕ) :
    Alone (fun _ t ↦ Linked t) (chooseCash env b userId) s := by
  have hcash (booking : Booking) (t : World) (ht : Linked t) :
      Alone (fun _ t ↦ Linked t) (chooseCash.createCash env b booking) t := by
    rintro u rfl hu -
    refine ⟨trivial, ?_⟩
    have hu' := ht.run (l := .randomUuid) (Recorded.numbered hu) trivial (by simp)
    exact (alone_create hu').bind (fun _ _ h ↦ h.1) fun _ _ h ↦ h.1
  refine (alone_loadPayableBooking userId .booking false).bind ?_ fun _ _ h ↦ h ▸ hs
  rintro booking _ rfl
  refine (alone_select _ _).bind ?_ fun _ _ h ↦ h.2 ▸ hs
  rintro found t ⟨-, rfl⟩
  cases found with
  | none => exact hcash booking t hs
  | some row =>
    dsimp only
    split_ifs
    · exact hs
    · exact (alone_markFailed _ _ hs).bind (fun _ u hu ↦ hcash booking u hu) fun _ _ h ↦ h

/-! Settling a payment. -/

theorem plain_resultFor : (resultFor b).Only Plain := plain_call _ _

theorem alone_settle {α : Type} {on : Settling} {p : Request α} (hs : Linked s)
    (hb : s.Backed on) (hp : p.Only Plain) :
    Alone (fun _ t ↦ Linked t) ((settleCapturedPayment env on).bind fun _ ↦ p) s :=
  (alone_settleCapturedPayment hs hb).bind (fun _ _ h ↦ alone_plain hp h) fun _ _ h ↦ h

/-- The vendor reports its payment with the order it is for. -/
theorem Collected.backed {handle : PaymentHandle} {ch : Channel} {n : ℕ} {p : GatewayPayment}
    {x : GatewayOrder} (h : Collected w.gateway handle n p x) (hw : Linked w) :
    w.Backed ⟨b, handle, ch⟩ :=
  .inl ⟨_, h.orderRef, hw p.order (List.getElem?_eq_some_iff.mp h.order).1⟩

theorem alone_fetchPayment (gatewayRef orderRef : Option Ref) :
    Alone (fun r t ↦ t = s ∧ ∀ handle, r = .ok handle → handle.status = .captured →
      ∃ n p x, Collected s.gateway handle n p x) (fetchPayment gatewayRef orderRef) s := by
  rintro t rfl ht -
  refine ⟨trivial, rfl, fun handle hr hcap ↦ ?_⟩
  obtain ⟨n, p, x, hcol, -⟩ := fetchPayment_captured (Recorded.attempts ht) hr hcap
  exact ⟨n, p, x, hcol⟩

theorem alone_collectedHandle (body : PaymentCaptureRequest) :
    Alone (fun r t ↦ t = s ∧ ∀ handle, r = .ok handle → ∃ n p x, Collected s.gateway handle n p x)
      (collectedHandle body) s := by
  refine (alone_select _ _).bind ?_ fun _ _ h ↦ by cases h.1
  rintro valid t ⟨-, rfl⟩
  refine alone_throw (fun _ ↦ ?_) ⟨rfl, fun _ h ↦ by cases h⟩
  refine (alone_fetchPayment _ _).bind ?_ fun _ _ h ↦ ⟨h.1, fun _ h ↦ by cases h⟩
  rintro handle u ⟨rfl, hcol⟩
  refine alone_throw (fun hcap ↦ ⟨rfl, fun handle' h ↦ ?_⟩) ⟨rfl, fun _ h ↦ by cases h⟩
  cases h
  exact hcol handle rfl (not_not.mp hcap)

theorem alone_capture (hs : Linked s) (userId : ℕ) (body : PaymentCaptureRequest) :
    Alone (fun _ t ↦ Linked t) (capture env b userId body) s := by
  refine (alone_loadPayableBooking userId .booking true).bind ?_ fun _ _ h ↦ h ▸ hs
  rintro booking _ rfl
  split_ifs
  · exact alone_plain plain_resultFor hs
  · refine (alone_collectedHandle body).bind ?_ fun _ _ h ↦ h.1 ▸ hs
    rintro handle t ⟨rfl, hcol⟩
    obtain ⟨n, p, x, hcol⟩ := hcol handle rfl
    refine (alone_select _ _).bind ?_ fun _ _ h ↦ h.2 ▸ hs
    rintro row u ⟨-, rfl⟩
    refine Contract.Meets.bind (Q := fun _ v ↦ v = u) rfl ?_ fun _ _ h ↦ h ▸ hs
    rintro _ v rfl
    exact alone_settle hs (hcol.backed hs) plain_resultFor

theorem alone_payWithWallet (hs : Linked s) (userId : ℕ) :
    Alone (fun _ t ↦ Linked t) (payWithWallet env b userId) s := by
  refine (alone_loadPayableBooking userId .booking true).bind ?_ fun _ _ h ↦ h ▸ hs
  rintro booking _ rfl
  split_ifs
  · exact alone_plain plain_resultFor hs
  · refine (alone_select _ _).bind ?_ fun _ _ h ↦ h.2 ▸ hs
    rintro found t ⟨hfound, rfl⟩
    cases found with
    | none => exact hs
    | some row =>
      have hopen := (Except.ok.inj hfound).symm
      dsimp only
      split
      · rename_i ref hprov hord
        refine (alone_select _ _).bind ?_ fun _ _ h ↦ h.2 ▸ hs
        rintro balance u ⟨-, rfl⟩
        unfold Proc.when
        split_ifs
        · refine Contract.Meets.bind (Q := fun r t ↦ Linked t ∧ ∃ e, r = .error e) ?_
            (fun _ _ h ↦ ?_) fun _ _ h ↦ h.1
          · exact (alone_plain (plain_markFailed _ _) hs).bind (fun _ _ h ↦ ⟨h, _, rfl⟩)
              fun _ _ h ↦ ⟨h, _, rfl⟩
          · obtain ⟨-, e, he⟩ := h
            cases he
        · refine alone_settle hs (.inl ⟨ref, rfl, row, (mem_openIntent hopen).1, hord⟩)
            plain_resultFor
      · exact hs

theorem alone_confirmCashCollected (hs : Linked s) (driverId : ℕ) :
    Alone (fun _ t ↦ Linked t) (confirmCashCollected env b driverId) s := by
  refine (alone_call _ _).bind ?_ fun _ _ h ↦ h.2 ▸ hs
  rintro row _ ⟨-, rfl⟩
  split_ifs
  · exact hs
  · exact hs
  · refine (alone_select _ _).bind ?_ fun _ _ h ↦ h.2 ▸ hs
    rintro found t ⟨hfound, rfl⟩
    cases found with
    | none => exact hs
    | some intent =>
      refine alone_throw (fun _ ↦ ?_) hs
      refine alone_settle hs (.inr ?_) ((plain_select _ _).bind fun _ ↦ trivial)
      rw [← Except.ok.inj hfound]
      rfl

theorem alone_captureFee (hs : Linked s) (body : PaymentCaptureRequest) (expectedPaise : ℤ) :
    Alone (fun _ t ↦ Linked t) (CancellationFeeService.capture env b body expectedPaise) s := by
  have hrow (t : World) (ht : Linked t) : Alone (fun _ t ↦ Linked t)
      (CancellationFeeService.feeRow env b expectedPaise body.gatewayRef) t := by
    refine alone_plain ((plain_select _ _).bind fun found ↦ ?_) ht
    cases found with
    | some row => trivial
    | none =>
      refine Proc.Only.handle ⟨⟨by simp, fun _ ↦ trivial⟩, fun _ ↦ trivial⟩ fun e ↦ ?_
      split_ifs
      · exact (plain_select _ _).bind fun raced ↦ by cases raced <;> trivial
      · trivial
  refine (alone_select _ _).bind ?_ fun _ _ h ↦ h.2 ▸ hs
  rintro found t ⟨-, rfl⟩
  cases found with
  | some row => exact hs
  | none =>
    refine (alone_collectedHandle body).bind ?_ fun _ _ h ↦ h.1 ▸ hs
    rintro handle u ⟨rfl, -⟩
    refine alone_throw (fun _ ↦ ?_) hs
    exact (hrow u hs).bind (fun row v hv ↦ alone_plain (plain_markCaptured _ _ _ _) hv)
      fun _ _ h ↦ h

theorem plain_closeOpenIntents : (PaymentCouponService.closeOpenIntents b).Only Plain := by
  refine (plain_select _ _).bind fun found ↦ ?_
  cases found with
  | none => trivial
  | some row =>
    dsimp only
    split_ifs
    · exact plain_markFailed _ _
    · trivial

theorem alone_reconcileOne {payment : PaymentRow} (hs : Linked s) :
    Alone (fun _ t ↦ Linked t) (PaymentReconcileService.reconcileOne env payment) s := by
  refine (alone_fetchPayment _ _).bind ?_ fun _ _ h ↦ h.1 ▸ hs
  rintro handle t ⟨rfl, hcol⟩
  split
  · rename_i hcap
    obtain ⟨n, p, x, hcol⟩ := hcol handle rfl hcap
    exact alone_settleCapturedPayment hs (hcol.backed hs)
  · exact alone_plain (plain_markFailed _ _) hs
  · exact alone_plain ((plain_select _ _).bind fun _ ↦ (plain_markFailed _ _).when) hs

theorem alone_reconcileAll (payments : List PaymentRow) (hs : Linked s) :
    Alone (fun _ t ↦ Linked t) (PaymentReconcileService.reconcileAll env payments) s := by
  induction payments generalizing s with
  | nil => exact hs
  | cons payment rest ih =>
    have hone : Alone (fun _ t ↦ Linked t)
        ((PaymentReconcileService.reconcileOne env payment).handle fun _ ↦ .done (.ok ())) s :=
      (alone_reconcileOne hs).handle (fun _ _ h ↦ h) fun _ _ h ↦ h
    exact hone.bind (fun _ _ h ↦ ih h) fun _ _ h ↦ h

/-- What a verified event says of its order. -/
theorem verifyWebhook_order {g : Gateway} {e : PaymentWebhookEvent}
    (h : g.verifyWebhook e = true) :
    ∃ o, e.orderRef = some (.order o) ∧ o < g.orders.length := by
  unfold Gateway.verifyWebhook at h
  split at h
  · split at h
    · cases h
    · rename_i p hp
      split at h
      · cases h
      · rename_i x hx
        simp only [Bool.and_eq_true, decide_eq_true_eq] at h
        exact ⟨p.order, h.1.1.1.1, (List.getElem?_eq_some_iff.mp hx).1⟩
  · cases h

theorem alone_applyPayment {e : PaymentWebhookEvent} {o : ℕ} (hs : Opened o s)
    (ho : e.orderRef = some (.order o)) :
    Alone (fun _ t ↦ Linked t) (WebhooksController.applyPayment env e) s := by
  have hfind : (WebhooksController.findForWebhook e.gatewayRef e.orderRef).Only Plain := by
    refine Proc.Only.bind ?_ fun found ↦ ?_
    · split
      · exact plain_select _ _
      · trivial
    · cases found with
      | some row => trivial
      | none =>
        dsimp only
        split
        · exact plain_select _ _
        · trivial
  have hid : (WebhooksController.resolvePaymentId e).Only Plain := by
    unfold WebhooksController.resolvePaymentId
    split
    · trivial
    · exact hfind.bind fun _ ↦ trivial
  have hbooking : (WebhooksController.resolveBookingId e).Only Plain := by
    unfold WebhooksController.resolveBookingId
    split
    · trivial
    · refine hid.bind fun found ↦ ?_
      cases found with
      | none => trivial
      | some id => exact (plain_select _ _).bind fun _ ↦ trivial
  unfold WebhooksController.applyPayment
  split
  · refine (alone_opened hbooking hs).bind (fun found t ht ↦ ?_) fun _ _ h ↦ h.1
    cases found with
    | none => exact ht.1
    | some b => exact alone_settleCapturedPayment ht.1 (.inl ⟨_, ho, ht.1 o ht.2⟩)
  · refine (alone_plain hid hs.1).bind (fun found t ht ↦ ?_) fun _ _ h ↦ h
    cases found with
    | none => exact ht
    | some id => exact alone_plain (plain_markFailed _ _) ht
  · split
    · exact hs.1
    · refine alone_plain (plain_write ?_ ?_ ?_) hs.1 <;> simp [Step.table]
  · exact hs.1
  · exact hs.1

theorem alone_razorpay (hs : Linked s) (e : PaymentWebhookEvent) :
    Alone (fun _ t ↦ Linked t) (WebhooksController.razorpay env e) s := by
  have hevent {α : Type} (l : Step) (hl : l.table = .webhooks) (f : World → Except Failure α) :
      (Proc.attempt l f : Request α).Only Plain :=
    ⟨plain_of_table (by simp [hl]) (by simp [hl]) (by simp [hl]), fun _ ↦ trivial⟩
  refine (alone_select _ _).bind ?_ fun _ _ h ↦ h.2 ▸ hs
  rintro valid t ⟨hvalid, rfl⟩
  refine alone_throw (fun htrue ↦ ?_) hs
  have htrue : t.gateway.verifyWebhook e = true := by
    rw [← Except.ok.inj hvalid]
    simpa using htrue
  obtain ⟨o, ho, hlt⟩ := verifyWebhook_order htrue
  refine (alone_opened (o := o) (hevent _ rfl _) ⟨hs, hlt⟩).bind (fun inserted u hu ↦ ?_)
    fun _ _ h ↦ h.1
  refine Contract.Meets.when (fun _ ↦ ?_) fun _ ↦ hu.1
  refine Contract.Meets.handle (Q := fun _ t ↦ Linked t) ?_ (fun _ _ h ↦ h)
    fun err v hv ↦ alone_plain (hevent _ rfl _) hv
  exact (alone_applyPayment hu ho).bind (fun _ _ h ↦ alone_plain (hevent _ rfl _) h) fun _ _ h ↦ h

theorem plain_ambient (h : l.ambient = true) : Plain l := by
  refine ⟨?_, fun w ↦ ?_⟩
  · rintro x rfl
    cases h
  · cases l with
    | createPayment | setOrderRef => cases h
    | transition b target patch on =>
      simp only [Step.ambient, Bool.and_eq_true, Option.isNone_iff_eq_none] at h
      rintro on' basis hon
      rw [h.1] at hon
      cases hon
    | _ => trivial

/-- Alone, every request leaves each order of the vendor on its row. -/
theorem collects_alone {q : Request Unit} (h : Collects env q) (hs : Linked s) :
    Alone (fun _ t ↦ Linked t) q s := by
  cases h with
  | createIntent b u purpose key =>
    exact (alone_createIntent hs u purpose key).bind (fun _ _ h ↦ h) fun _ _ h ↦ h
  | chooseCash b u => exact (alone_chooseCash hs u).bind (fun _ _ h ↦ h) fun _ _ h ↦ h
  | confirmCashCollected b d =>
    exact (alone_confirmCashCollected hs d).bind (fun _ _ h ↦ h) fun _ _ h ↦ h
  | payWithWallet b u => exact (alone_payWithWallet hs u).bind (fun _ _ h ↦ h) fun _ _ h ↦ h
  | capture b u body => exact (alone_capture hs u body).bind (fun _ _ h ↦ h) fun _ _ h ↦ h
  | captureFee b body x => exact alone_captureFee hs body x
  | applyCoupon b u code =>
    refine alone_plain (Proc.Only.bind ?_ fun _ ↦ plain_closeOpenIntents) hs
    refine ⟨plain_of_table ?_ ?_ ?_, fun _ ↦ trivial⟩ <;> simp [Step.table]
  | removeCoupon b u =>
    refine alone_plain (Proc.Only.bind ?_ fun _ ↦ plain_closeOpenIntents) hs
    refine ⟨plain_of_table ?_ ?_ ?_, fun _ ↦ trivial⟩ <;> simp [Step.table]
  | webhook e => exact alone_razorpay hs e
  | sweep =>
    refine (alone_select _ _).bind ?_ fun _ _ h ↦ h.2 ▸ hs
    rintro stale t ⟨-, rfl⟩
    exact alone_reconcileAll stale hs
  | ambient l hl => exact alone_plain ⟨plain_ambient hl, fun _ ↦ trivial⟩ hs

/-- What every event of an uninterrupted run promises. -/
theorem Uncollected.alone {es : List (Event Step World)} (h₀ : Uncollected s)
    (h : Uncut (Collects env) s w es) :
    ∀ e ∈ es, CollectStep anyLaw e.label e.before ∧ Solo e.label e.before := by
  let c : Contract Step World := ⟨Recorded anyLaw, fun w w' ↦ w' = w, Lawful anyLaw,
    fun l w ↦ CollectStep anyLaw l w ∧ Solo l w⟩
  have hc : c.Preserves := ⟨fun _ ↦ rfl, fun l w hw _ hg ↦ Recorded.run hw hg.1⟩
  have hlinked : Linked s := by
    intro o ho
    rw [h₀.orders] at ho
    cases ho
  refine fun e he ↦ ((Uncut.safe (c := c) Linked hc (fun q hq t ht hj ↦ ?_) h₀.recorded hlinked h
    fun e _ ↦ lawful_anyLaw e.label e.before).2.2 e he).2
  refine ((collects_keeps hq ht).strengthen (fun s t h ↦ ?_) (collects_alone hq hj)).mono
    fun _ _ h ↦ h.2
  rw [h]
  exact Grows.refl s

/-- A request that nobody interrupts settles on a row. -/
theorem Uncollected.basis {es : List (Event Step World)} {e : Event Step World} {on : Settling}
    {basis : Option ℕ} (h₀ : Uncollected s) (h : Uncut (Collects env) s w es) (he : e ∈ es)
    (hset : Settled e b on basis) : basis.isSome := by
  have hsolo := (h₀.alone h e he).2
  obtain ⟨hm, hl⟩ := hset
  obtain ⟨patch, why, hlabel⟩ := hm.label (h.serial.runs.committed e he)
  rw [hlabel] at hsolo hl
  cases why with
  | none => cases hl
  | some x =>
    cases hl
    exact hsolo _ _ rfl

end Towing.Money
