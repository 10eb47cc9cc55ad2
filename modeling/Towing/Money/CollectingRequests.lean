import Towing.Money.Settling

namespace Towing.Money

open Towing.Db Towing.Process PaymentsRepo PaymentsService

variable {L : Law} {w w' s : World} {on : Settling} {ref : Ref} {k : Kind} {env : Env}

/-- A payment the vendor reports as collected. -/
structure Collected (g : Gateway) (handle : PaymentHandle) (n : ℕ) (p : GatewayPayment)
    (x : GatewayOrder) : Prop where
  gatewayRef : handle.gatewayRef = some (.pay n)
  orderRef : handle.orderRef = some (.order p.order)
  payment : g.payments[n]? = some p
  captured : p.status = .captured
  order : g.orders[p.order]? = some x

theorem mem_attempts {g : Gateway} {o n : ℕ} {p : GatewayPayment} (h : (n, p) ∈ g.attempts o) :
    g.payments[n]? = some p ∧ p.order = o := by
  rw [Gateway.attempts, List.mem_reverse, List.mem_filterMap] at h
  obtain ⟨⟨q, m⟩, hmem, heq⟩ := h
  dsimp only at heq
  split_ifs at heq with ho
  cases heq
  exact ⟨List.mem_zipIdx_iff_getElem?.mp hmem, ho⟩

theorem fetchPayment_captured {g : Gateway} {gatewayRef orderRef : Option Ref}
    {handle : PaymentHandle} (hg : ∀ p ∈ g.payments, p.order < g.orders.length)
    (h : g.fetchPayment gatewayRef orderRef = .ok handle) (hc : handle.status = .captured) :
    ∃ n p x, Collected g handle n p x ∧
      (gatewayRef = some (.pay n) ∨ gatewayRef = none ∧ orderRef = some (.order p.order)) := by
  have hcollected : ∀ n p, g.payments[n]? = some p → handle = g.handleOf n p →
      ∃ x, Collected g handle n p x := by
    rintro n p hp rfl
    have hlt := hg p (List.mem_of_getElem? hp)
    exact ⟨g.orders[p.order], rfl, rfl, hp, hc, List.getElem?_eq_getElem hlt⟩
  unfold Gateway.fetchPayment at h
  split_ifs at h
  split at h
  · rename_i n
    split at h
    · rename_i p hp
      obtain ⟨x, hx⟩ := hcollected n p hp (Except.ok.inj h).symm
      exact ⟨n, p, x, hx, .inl rfl⟩
    · cases h
  · cases h
  · cases h
    cases hc
  · rename_i o
    dsimp only at h
    split at h
    · rename_i n p hfound
      have hmem : (n, p) ∈ g.attempts o := by
        rw [Option.orElse_eq_orElse, Option.orElse_eq_or, Option.or_eq_some_iff] at hfound
        rcases hfound with hf | ⟨-, hf⟩
        · exact List.mem_of_find?_eq_some hf
        · exact List.mem_of_mem_head? hf
      obtain ⟨hp, rfl⟩ := mem_attempts hmem
      obtain ⟨x, hx⟩ := hcollected n p hp (Except.ok.inj h).symm
      exact ⟨n, p, x, hx, .inr ⟨rfl, rfl⟩⟩
    · cases h
      cases hc
  · cases h

def GatewayOrder.kind (x : GatewayOrder) : Kind := (x.bookingId, x.purpose)

theorem Collected.refKind {handle : PaymentHandle} {n : ℕ} {p : GatewayPayment} {x : GatewayOrder}
    (h : Collected w.gateway handle n p x) :
    w.refKind (.pay n) = some x.kind ∧ w.refKind (.order p.order) = some x.kind := by
  simp [World.refKind, h.payment, h.order, GatewayOrder.kind]

theorem Collected.knows {b n : ℕ} {handle : PaymentHandle} {ch : Channel} {p : GatewayPayment}
    {x : GatewayOrder} (h : Collected w.gateway handle n p x)
    (hch : ch ≠ .route → L.knows x.kind b) : Knows L ⟨b, handle, ch⟩ (.pay n) x.kind w := by
  refine ⟨h.gatewayRef, h.refKind.1, fun o ho ↦ ?_, hch⟩
  cases h.orderRef.symm.trans ho
  exact h.refKind.2

theorem keeps_fetchPayment (gatewayRef orderRef : Option Ref) :
    Keeps L (fun r t ↦ r = t.gateway.fetchPayment gatewayRef orderRef)
      (fetchPayment gatewayRef orderRef) s := keeps_call _ _

theorem keeps_collectedHandle (hs : Recorded L s) (body : PaymentCaptureRequest) :
    Keeps L (fun r t ↦ ∀ handle, r = .ok handle → ∃ n p x,
      Collected t.gateway handle n p x ∧ body.gatewayRef = .pay n) (collectedHandle body) s := by
  have hc := collecting_sound L
  refine (keeps_harmless (harmless_select _ _)).seq hc hs (fun valid t _ ht _ ↦ ?_)
    fun _ _ _ _ h ↦ by cases h
  have hrefuse (e : Failure) : (throw e : Request Unit).Only Harmless := trivial
  refine (keeps_harmless (hrefuse _).when).seq hc ht (fun _ u _ hu _ ↦ ?_)
    fun _ _ _ _ h ↦ by cases h
  refine (keeps_fetchPayment _ _).seq hc hu (fun handle v hfetch hv _ ↦ ?_)
    fun _ _ _ _ h ↦ by cases h
  refine Contract.Meets.seq (Q := fun r t ↦ r = .ok () → handle.status = .captured ∧ t = v)
    ?_ hc hv ?_ fun _ _ _ _ h ↦ by cases h
  · exact Contract.Meets.when (fun _ h ↦ by cases h) fun h _ ↦ ⟨not_not.mp h, rfl⟩
  · intro _ x hx _ _ handle' heq
    cases heq
    obtain ⟨hst, rfl⟩ := hx rfl
    obtain ⟨n, p, y, hcol, hrefs⟩ := fetchPayment_captured (Recorded.attempts hv) hfetch.symm hst
    refine ⟨n, p, y, hcol, ?_⟩
    rcases hrefs with h | h
    · exact Option.some.inj h
    · cases h.1

theorem keeps_resultFor (b : ℕ) : Keeps L (fun _ _ ↦ True) (resultFor b) s :=
  keeps_harmless ⟨harmless_of_table (by simp [Step.table]) (by simp [Step.table])
    (by simp [Step.table]) (by simp [Step.table]), fun _ ↦ trivial⟩

theorem harmless_call {α : Type} (q : Select) (f : World → Except Failure α) :
    (call q f).Only Harmless :=
  ⟨harmless_of_table (by simp [Step.table]) (by simp [Step.table]) (by simp [Step.table]) (by simp [Step.table]),
    fun _ ↦ trivial⟩

theorem keeps_capture (hs : Recorded L s) (b userId : ℕ) (body : PaymentCaptureRequest) :
    Keeps L (fun _ _ ↦ True) (capture env b userId body) s := by
  have hc := collecting_sound L
  refine (keeps_harmless (harmless_call _ _)).seq hc hs (fun booking t _ ht _ ↦ ?_) fun _ _ ↦ id
  split_ifs
  · exact keeps_resultFor b
  · refine (keeps_collectedHandle ht body).seq hc ht (fun handle u hcol hu _ ↦ ?_)
      fun _ _ _ ↦ trivial
    obtain ⟨n, p, x, hcol, -⟩ := hcol handle rfl
    have hknows : Knows L ⟨b, handle, .route⟩ (.pay n) x.kind u :=
      hcol.knows fun h ↦ absurd rfl h
    refine (keeps_harmless (harmless_select _ _)).seq hc hu (fun row v _ hv huv ↦ ?_)
      fun _ _ _ ↦ trivial
    refine Contract.Meets.seq (Q := fun _ t ↦ t = v) rfl hc hv ?_ fun _ _ _ ↦ trivial
    intro _ y hy _ _
    rw [show y = v from hy]
    exact (keeps_settleCapturedPayment hv (hknows.grows huv)).seq hc hv
      (fun _ _ _ _ _ ↦ keeps_resultFor b) fun _ _ _ ↦ trivial

theorem keeps_markFailed (id : ℕ) (reason : String) :
    Keeps L (fun _ _ ↦ True) (markFailed id reason) s := fun _ _ _ _ ↦ ⟨.markFailed, trivial⟩

/-! Opening a payment. -/

theorem keeps_intentRow {b : ℕ} {purpose : PaymentPurpose} {total balance : ℤ} {p : NewPayment}
    (hs : Recorded L s)
    (hkey : (p.idempotencyKey.bookingId, p.idempotencyKey.purpose) = (p.bookingId, p.purpose))
    (hp : (p.bookingId, p.purpose) = (b, purpose)) :
    Keeps L (fun r t ↦ ∀ row, r = .ok row → HasRow t row.id (b, purpose))
      (intentRow b purpose total balance p) s := by
  have hc := collecting_sound L
  have hreuse : Keeps L (fun r t ↦ ∀ row, r = .ok (some row) → HasRow t row.id (b, purpose))
      (reusableIntent b purpose total balance) s := by
    refine (keeps_select _ _).seq hc hs (fun found t hfound ht _ ↦ ?_) fun _ _ _ _ h ↦ by cases h
    cases found with
    | none => exact fun _ h ↦ by cases h
    | some row =>
      dsimp only
      split_ifs
      · exact (keeps_markFailed _ _).seq hc ht (fun _ _ _ _ _ _ h ↦ by cases h)
          fun _ _ _ _ h ↦ by cases h
      · intro row' hrow'
        cases hrow'
        obtain ⟨hmem, hkind⟩ := mem_openIntent (Except.ok.inj hfound.1).symm
        exact hkind ▸ Recorded.hasRow ht hmem
  refine hreuse.seq hc hs (fun found t hfound ht _ ↦ ?_) fun _ _ _ _ h ↦ by cases h
  cases found with
  | some row =>
    intro row' hrow'
    cases hrow'
    exact hfound row rfl
  | none =>
    refine (keeps_create hkey).orElse hc ht (fun row u hu ↦ ?_) fun e u _ hu _ ↦ ?_
    · rw [← hp]
      exact hu
    · split_ifs
      · refine (keeps_select _ _).seq hc hu (fun found v hfound hv _ ↦ ?_)
          fun _ _ _ _ h ↦ by cases h
        cases found with
        | none => exact fun _ h ↦ by cases h
        | some existing =>
          intro row hrow
          cases hrow
          have hfind := (Except.ok.inj hfound.1).symm
          have hmem : existing ∈ v.payments := List.mem_of_find?_eq_some hfind
          have hk : existing.idempotencyKey = p.idempotencyKey := by
            simpa using List.find?_some hfind
          have hkind : existing.kind = (b, purpose) := by
            rw [← (Recorded.rows hv existing hmem).key, hk, hkey, hp]
          exact hkind ▸ Recorded.hasRow hv hmem
      · exact fun _ h ↦ by cases h

theorem keeps_setOrderRef {id : ℕ} {d : Kind} (hrow : HasRow s id d) (href : s.refKind ref = some d) :
    Keeps L (fun _ _ ↦ True) (setOrderRef id ref) s := by
  intro t hst _ _
  refine ⟨.setOrderRef fun row hr ↦ ?_, trivial⟩
  obtain ⟨row', hrow', rfl⟩ := hrow.grows hst
  cases hr.symm.trans hrow'
  exact Grows.refKind hst href

theorem keeps_openOrder {b : ℕ} {purpose : PaymentPurpose} {walletPaise gatewayPaise : ℤ}
    {row : PaymentRow} (hs : Recorded L s) (hrow : HasRow s row.id (b, purpose)) :
    Keeps L (fun _ _ ↦ True) (openOrder b purpose walletPaise gatewayPaise row) s := by
  have hc := collecting_sound L
  unfold openOrder
  split_ifs
  · have href : s.refKind (.wallet row.id) = some (b, purpose) := by
      obtain ⟨row', hrow', hd⟩ := hrow
      simp [World.refKind, hrow', hd]
    exact (keeps_setOrderRef hrow href).seq hc hs (fun _ _ _ _ _ ↦ trivial) fun _ _ _ ↦ trivial
  · refine Contract.Meets.seq
      (Q := fun r t ↦ ∀ ref, r = .ok ref → t.refKind ref = some (b, purpose)) ?_ hc hs
      (fun ref t href ht hst ↦ ?_) fun _ _ _ ↦ trivial
    · intro t hst _ _
      have hkind : (t.payment row.id).map (·.kind) = some (b, purpose) := by
        obtain ⟨row', hrow', hd⟩ := hrow.grows hst
        simp [hrow', hd]
      refine ⟨.createOrder hkind, fun ref href ↦ ?_⟩
      dsimp only at href
      split_ifs at href with hup
      cases href
      change (t.run (.createOrder _)).refKind _ = _
      simp [World.run, World.refKind, Gateway.createOrder, hup]
    · exact (keeps_setOrderRef (hrow.grows hst) (href ref rfl)).seq hc ht
        (fun _ _ _ _ _ ↦ trivial) fun _ _ _ ↦ trivial

theorem keeps_createIntent (hs : Recorded L s) (b userId : ℕ) (purpose : PaymentPurpose)
    (clientKey : String) :
    Keeps L (fun _ _ ↦ True) (createIntent env b userId purpose clientKey) s := by
  have hc := collecting_sound L
  have htotal (booking : Booking) : (totalPaise env purpose booking).Only Harmless := by
    cases purpose with
    | booking => trivial
    | cancellationFee => exact (harmless_select _ _).bind fun _ ↦ trivial
  have hspend : (spendable purpose userId).Only Harmless := by
    cases purpose with
    | booking => exact harmless_select _ _
    | cancellationFee => trivial
  have hrefuse (e : Failure) : (throw e : Request Unit).Only Harmless := trivial
  refine (keeps_harmless (harmless_call _ _)).seq hc hs (fun booking t _ ht _ ↦ ?_) fun _ _ ↦ id
  refine (keeps_harmless (htotal booking)).seq hc ht (fun total u _ hu _ ↦ ?_) fun _ _ ↦ id
  refine (keeps_harmless (hrefuse _).when).seq hc hu (fun _ v _ hv _ ↦ ?_) fun _ _ ↦ id
  refine (keeps_harmless hspend).seq hc hv (fun balance x _ hx _ ↦ ?_) fun _ _ ↦ id
  dsimp only
  refine Contract.Meets.seq (Q := fun r t ↦ ∀ row, r = .ok row → HasRow t row.id (b, purpose))
    (keeps_intentRow hx (by rfl) (by rfl)) hc hx (fun row y hrow hy _ ↦ ?_) fun _ _ _ ↦ trivial
  split
  · trivial
  · exact keeps_openOrder hy (hrow row rfl)

/-! The ways to pay. -/

theorem keeps_chooseCash (hs : Recorded L s) (b userId : ℕ) :
    Keeps L (fun _ _ ↦ True) (chooseCash env b userId) s := by
  have hc := collecting_sound L
  have hcash (booking : Booking) (t : World) (ht : Recorded L t) :
      Keeps L (fun _ _ ↦ True) (chooseCash.createCash env b booking) t := by
    have huuid : (Proc.query .randomUuid (·.uuids) : Request ℕ).Only Harmless :=
      ⟨harmless_of_table (by simp [Step.table]) (by simp [Step.table]) (by simp [Step.table]) (by simp [Step.table]),
        fun _ ↦ trivial⟩
    refine (keeps_harmless huuid).seq hc ht (fun uuid u _ hu _ ↦ ?_) fun _ _ ↦ id
    exact (keeps_create (L := L) rfl).seq hc hu (fun _ _ _ _ _ ↦ trivial) fun _ _ _ ↦ trivial
  refine (keeps_harmless (harmless_call _ _)).seq hc hs (fun booking t _ ht _ ↦ ?_) fun _ _ ↦ id
  refine (keeps_select _ _).seq hc ht (fun found u _ hu _ ↦ ?_) fun _ _ _ ↦ trivial
  cases found with
  | none => exact hcash booking u hu
  | some row =>
    dsimp only
    split_ifs
    · trivial
    · exact (keeps_markFailed _ _).seq hc hu (fun _ v _ hv _ ↦ hcash booking v hv)
        fun _ _ _ ↦ trivial

theorem Knows.own {b : ℕ} {handle : PaymentHandle} {ch : Channel}
    (hg : handle.gatewayRef = some ref) (ho : ∀ o, handle.orderRef = some o → o = ref)
    (hk : w.refKind ref = some (b, .booking)) : Knows L ⟨b, handle, ch⟩ ref (b, .booking) w := by
  refine ⟨hg, hk, fun o h ↦ ?_, fun _ ↦ L.knows_of_fits _ _ (L.fits_refl (b, .booking))⟩
  rw [ho o h]
  exact hk

theorem keeps_payWithWallet (hs : Recorded L s) (b userId : ℕ) :
    Keeps L (fun _ _ ↦ True) (payWithWallet env b userId) s := by
  have hc := collecting_sound L
  refine (keeps_harmless (harmless_call _ _)).seq hc hs (fun booking t _ ht _ ↦ ?_) fun _ _ ↦ id
  split_ifs
  · exact keeps_resultFor b
  · dsimp only
    refine (keeps_select _ _).seq hc ht (fun found u hfound hu _ ↦ ?_) fun _ _ _ ↦ trivial
    cases found with
    | none => trivial
    | some row =>
      obtain ⟨hmem, hkind⟩ := mem_openIntent (Except.ok.inj hfound.1).symm
      dsimp only
      split
      · rename_i ref hprov horder
        have href := (Recorded.rows hu row hmem).orderRef ref horder
        rw [hkind] at href
        refine (keeps_harmless (harmless_select _ _)).seq hc hu (fun balance v _ hv huv ↦ ?_)
          fun _ _ ↦ id
        refine Contract.Meets.seq (Q := fun _ _ ↦ True) ?_ hc hv (fun _ x _ hx hvx ↦ ?_)
          fun _ _ ↦ id
        · refine Contract.Meets.when (fun _ ↦ ?_) fun _ ↦ trivial
          exact (keeps_markFailed _ _).seq hc hv (fun _ _ _ _ _ ↦ trivial) fun _ _ _ ↦ trivial
        · have hknows : Knows L ⟨b, ⟨some ref, some ref, .captured, some .wallet, some 0, none⟩,
              .wallet⟩ ref (b, .booking) u :=
            .own rfl (fun o h ↦ (Option.some.inj h).symm) href
          exact (keeps_settleCapturedPayment hx ((hknows.grows huv).grows hvx)).seq hc hx
            (fun _ _ _ _ _ ↦ keeps_resultFor b) fun _ _ _ ↦ trivial
      · trivial

theorem keeps_confirmCashCollected (hs : Recorded L s) (b driverId : ℕ) :
    Keeps L (fun _ _ ↦ True) (confirmCashCollected env b driverId) s := by
  have hc := collecting_sound L
  have hrefuse (e : Failure) : (throw e : Request Unit).Only Harmless := trivial
  refine (keeps_harmless (harmless_call _ _)).seq hc hs (fun row t _ ht _ ↦ ?_) fun _ _ ↦ id
  split_ifs
  · trivial
  · trivial
  · dsimp only
    refine (keeps_select _ _).seq hc ht (fun found u hfound hu _ ↦ ?_) fun _ _ _ ↦ trivial
    cases found with
    | none => trivial
    | some intent =>
      obtain ⟨hmem, hkind⟩ := mem_openIntent (Except.ok.inj hfound.1).symm
      have href : u.refKind (.cash intent.id) = some (b, .booking) := by
        rw [World.refKind, (Recorded.numbered hu).payment_of_mem hmem, Option.map_some, hkind]
      refine (keeps_harmless (hrefuse _).when).seq hc hu (fun _ v _ hv huv ↦ ?_) fun _ _ ↦ id
      have hknows : Knows L ⟨b, ⟨some (.cash intent.id), none, .captured, some .cash,
          some row.total, none⟩, .cash⟩ (.cash intent.id) (b, .booking) u :=
        .own rfl (fun o h ↦ by cases h) href
      exact (keeps_settleCapturedPayment hv (hknows.grows huv)).seq hc hv
        (fun _ x _ hx _ ↦ (keeps_harmless (harmless_select _ _)).seq hc hx
          (fun _ _ _ _ _ ↦ trivial) fun _ _ ↦ id) fun _ _ _ ↦ trivial

theorem keeps_captureFee (hs : Recorded L s) (b : ℕ) (body : PaymentCaptureRequest)
    (expectedPaise : ℤ) :
    Keeps L (fun _ _ ↦ True) (CancellationFeeService.capture env b body expectedPaise) s := by
  have hc := collecting_sound L
  have hrefuse (e : Failure) : (throw e : Request Unit).Only Harmless := trivial
  have hrow (t : World) (ht : Recorded L t) : Keeps L (fun _ _ ↦ True)
      (CancellationFeeService.feeRow env b expectedPaise body.gatewayRef) t := by
    refine (keeps_select _ _).seq hc ht (fun found u _ hu _ ↦ ?_) fun _ _ _ ↦ trivial
    cases found with
    | some row => trivial
    | none =>
      refine (keeps_create (L := L) rfl).orElse hc hu (fun _ _ _ ↦ trivial) fun e v _ hv _ ↦ ?_
      split_ifs
      · refine (keeps_select _ _).seq hc hv (fun found x _ _ _ ↦ ?_) fun _ _ _ ↦ trivial
        cases found <;> trivial
      · trivial
  refine (keeps_select _ _).seq hc hs (fun found t _ ht _ ↦ ?_) fun _ _ _ ↦ trivial
  cases found with
  | some row => trivial
  | none =>
    refine (keeps_collectedHandle ht body).seq hc ht (fun handle u hcol hu _ ↦ ?_)
      fun _ _ _ ↦ trivial
    obtain ⟨n, p, x, hcol, -⟩ := hcol handle rfl
    refine (keeps_harmless (hrefuse _).when).seq hc hu (fun _ v _ hv huv ↦ ?_) fun _ _ ↦ id
    refine (hrow v hv).seq hc hv (fun row y _ hy hvy ↦ ?_) fun _ _ ↦ id
    intro t' hyt _ hlaw
    rw [hcol.gatewayRef] at hlaw ⊢
    refine ⟨.markCaptured fun row' r hr hsome ↦ ?_, trivial⟩
    cases hsome
    have hk := ((hvy.trans hyt).refKind (huv.refKind hcol.refKind.1))
    exact ⟨x.kind, hk, hlaw x.kind row' hk hr⟩

theorem keeps_closeOpenIntents (hs : Recorded L s) (b : ℕ) :
    Keeps L (fun _ _ ↦ True) (PaymentCouponService.closeOpenIntents b) s := by
  refine (keeps_select _ _).seq (collecting_sound L) hs (fun found t _ _ _ ↦ ?_) fun _ _ _ ↦ trivial
  cases found with
  | none => trivial
  | some row =>
    dsimp only
    split_ifs
    · exact keeps_markFailed _ _
    · trivial

theorem keeps_applyCoupon (hs : Recorded L s) (b userId : ℕ) (code : String) :
    Keeps L (fun _ _ ↦ True) (PaymentCouponService.apply b userId code) s := by
  refine (keeps_harmless (p := Proc.attempt _ _) ?_).seq (collecting_sound L) hs
    (fun _ _ _ ht _ ↦ keeps_closeOpenIntents ht b) fun _ _ _ ↦ trivial
  exact ⟨harmless_of_table (by simp [Step.table]) (by simp [Step.table]) (by simp [Step.table]) (by simp [Step.table]),
    fun _ ↦ trivial⟩

theorem keeps_removeCoupon (hs : Recorded L s) (b userId : ℕ) :
    Keeps L (fun _ _ ↦ True) (PaymentCouponService.remove b userId) s := by
  refine (keeps_harmless (p := Proc.attempt _ _) ?_).seq (collecting_sound L) hs
    (fun _ _ _ ht _ ↦ keeps_closeOpenIntents ht b) fun _ _ _ ↦ trivial
  exact ⟨harmless_of_table (by simp [Step.table]) (by simp [Step.table]) (by simp [Step.table]) (by simp [Step.table]),
    fun _ ↦ trivial⟩

/-! The vendor's word. -/

/-- A row the sweep read, whatever has become of it since. -/
theorem keeps_reconcileOne {payment : PaymentRow} (hs : Recorded L s)
    (hfits : RowFits L s payment) :
    Keeps L (fun _ _ ↦ True) (PaymentReconcileService.reconcileOne env payment) s := by
  have hc := collecting_sound L
  refine (keeps_fetchPayment _ _).seq hc hs (fun handle t hfetch ht hst ↦ ?_) fun _ _ _ ↦ trivial
  have hfits := hfits.grows hst
  split
  · rename_i hcap
    obtain ⟨n, p, x, hcol, href⟩ := fetchPayment_captured (Recorded.attempts ht) hfetch.symm hcap
    refine keeps_settleCapturedPayment ht (hcol.knows fun _ ↦ ?_)
    rcases href with href | ⟨-, href⟩
    · obtain ⟨k, hk, hfit⟩ := hfits.gatewayRef _ href
      cases hcol.refKind.1.symm.trans hk
      exact L.knows_of_fits _ _ hfit
    · have hkind := Option.some.inj (hcol.refKind.2.symm.trans (hfits.orderRef _ href))
      rw [hkind]
      exact L.knows_of_fits _ payment.kind (L.fits_refl _)
  · exact keeps_markFailed _ _
  · refine (keeps_harmless (harmless_select _ _)).seq hc ht (fun now u _ _ _ ↦ ?_) fun _ _ ↦ id
    exact Contract.Meets.when (fun _ ↦ keeps_markFailed _ _) fun _ ↦ trivial

theorem keeps_reconcileAll (payments : List PaymentRow) (hs : Recorded L s)
    (hfits : ∀ payment ∈ payments, RowFits L s payment) :
    Keeps L (fun _ _ ↦ True) (PaymentReconcileService.reconcileAll env payments) s := by
  have hc := collecting_sound L
  induction payments generalizing s with
  | nil => trivial
  | cons payment rest ih =>
    have hone : Keeps L (fun _ _ ↦ True) (PaymentReconcileService.reconcileOne env payment) s :=
      keeps_reconcileOne hs (hfits payment List.mem_cons_self)
    refine Contract.Meets.seq (Q := fun _ _ ↦ True)
      (hone.orElse hc hs (fun _ _ _ ↦ trivial) fun _ _ _ _ _ ↦ trivial) hc hs
      (fun _ t _ ht hst ↦ ?_) fun _ _ _ ↦ trivial
    exact ih ht fun row hrow ↦ (hfits row (List.mem_cons_of_mem _ hrow)).grows hst

theorem mem_staleUncaptured {graceMs : ℕ} {row : PaymentRow} (h : row ∈ w.staleUncaptured graceMs) :
    row ∈ w.payments := by
  have h := List.mem_of_mem_take h
  rw [List.mem_insertionSort] at h
  exact (List.mem_filter.mp h).1

theorem keeps_reconcile (hs : Recorded L s) :
    Keeps L (fun _ _ ↦ True) (PaymentReconcileService.reconcile env) s := by
  refine (keeps_select _ _).seq (collecting_sound L) hs (fun stale t hstale ht _ ↦ ?_)
    fun _ _ _ ↦ trivial
  cases hstale.1
  exact keeps_reconcileAll _ ht fun row hrow ↦ Recorded.rows ht row (mem_staleUncaptured hrow)

/-- An event the vendor signed: what it says is true of the payment it names. -/
structure Signed (e : PaymentWebhookEvent) (n : ℕ) (p : GatewayPayment) (x : GatewayOrder)
    (w : World) : Prop where
  gatewayRef : e.gatewayRef = some (.pay n)
  orderRef : e.orderRef = some (.order p.order)
  kind : w.refKind (.pay n) = some x.kind
  orderKind : w.refKind (.order p.order) = some x.kind
  paymentId : ∀ id, e.paymentId = some id → id = x.paymentId
  bookingId : ∀ b, e.bookingId = some b → b = x.bookingId
  row : HasRow w x.paymentId x.kind

theorem Signed.grows {e : PaymentWebhookEvent} {n : ℕ} {p : GatewayPayment} {x : GatewayOrder}
    (h : Signed e n p x w) (hg : Grows w w') : Signed e n p x w' :=
  ⟨h.gatewayRef, h.orderRef, hg.refKind h.kind, hg.refKind h.orderKind, h.paymentId, h.bookingId,
    h.row.grows hg⟩

theorem verifyWebhook_signed {e : PaymentWebhookEvent} (hw : Recorded L w)
    (h : w.gateway.verifyWebhook e = true) : ∃ n p x, Signed e n p x w := by
  unfold Gateway.verifyWebhook at h
  split at h
  · rename_i n href
    split at h
    · cases h
    · rename_i p hp
      split at h
      · cases h
      · rename_i x hx
        simp only [Bool.and_eq_true, Bool.or_eq_true, decide_eq_true_eq] at h
        obtain ⟨⟨⟨⟨hord, hpay⟩, hbook⟩, -⟩, -⟩ := h
        have hrow := hw.orders x (List.mem_of_getElem? hx)
        obtain ⟨row, hrow, hkind⟩ := Option.map_eq_some_iff.mp hrow
        refine ⟨n, p, x, href, hord, ?_, ?_, fun id hid ↦ ?_, fun b hb ↦ ?_, row, hrow, hkind⟩
        · simp [World.refKind, hp, hx, GatewayOrder.kind]
        · simp [World.refKind, hx, GatewayOrder.kind]
        · rcases hpay with hpay | hpay
          · cases hid.symm.trans hpay
          · exact Option.some.inj (hid.symm.trans hpay)
        · rcases hbook with hbook | hbook
          · cases hb.symm.trans hbook
          · exact Option.some.inj (hb.symm.trans hbook)
  · cases h

variable {e : PaymentWebhookEvent} {n : ℕ} {p : GatewayPayment} {x : GatewayOrder}

theorem keeps_findForWebhook (hs : Recorded L s) (h : Signed e n p x s) :
    Keeps L (fun r t ↦ ∀ row, r = .ok (some row) →
      HasRow t row.id row.kind ∧ L.knows x.kind row.bookingId)
      (WebhooksController.findForWebhook e.gatewayRef e.orderRef) s := by
  have hc := collecting_sound L
  rw [h.gatewayRef, h.orderRef]
  refine (keeps_select _ _).seq hc hs (fun found t hfound ht hst ↦ ?_) fun _ _ _ _ h ↦ by cases h
  cases found with
  | some row =>
    intro row' hrow'
    cases hrow'
    obtain ⟨hmem, -, hfit⟩ := Recorded.fits_gatewayRef ht (h.grows hst).kind
      (Except.ok.inj hfound.1).symm
    exact ⟨Recorded.hasRow ht hmem, L.knows_of_fits _ _ hfit⟩
  | none =>
    refine ((keeps_select _ _).sound hc ht).mono ?_
    rintro r u ⟨⟨rfl, -⟩, hu, htu⟩ row hrow
    obtain ⟨hmem, hkind⟩ := Recorded.fits_orderRef hu ((h.grows hst).grows htu).orderKind
      (Except.ok.inj hrow)
    refine ⟨Recorded.hasRow hu hmem, L.knows_of_fits _ row.kind ?_⟩
    rw [hkind]
    exact L.fits_refl _

theorem keeps_resolvePaymentId (hs : Recorded L s) (h : Signed e n p x s) :
    Keeps L (fun r t ↦ ∀ id, r = .ok (some id) → ∃ d, HasRow t id d ∧ L.knows x.kind d.1)
      (WebhooksController.resolvePaymentId e) s := by
  unfold WebhooksController.resolvePaymentId
  split
  · rename_i id hid
    intro id' hid'
    cases hid'
    cases h.paymentId id hid
    exact ⟨x.kind, h.row, L.knows_of_fits _ _ (L.fits_refl _)⟩
  · refine (keeps_findForWebhook hs h).seq (collecting_sound L) hs
      (fun found t hfound _ _ ↦ ?_) fun _ _ _ _ h ↦ by cases h
    intro id hid
    obtain ⟨row, rfl, rfl⟩ := Option.map_eq_some_iff.mp (Except.ok.inj hid)
    obtain ⟨hrow, hknows⟩ := hfound row rfl
    exact ⟨row.kind, hrow, hknows⟩

theorem keeps_resolveBookingId (hs : Recorded L s) (h : Signed e n p x s) :
    Keeps L (fun r _ ↦ ∀ b, r = .ok (some b) → L.knows x.kind b)
      (WebhooksController.resolveBookingId e) s := by
  have hc := collecting_sound L
  unfold WebhooksController.resolveBookingId
  split
  · rename_i b hb
    intro b' hb'
    cases hb'
    cases h.bookingId b hb
    exact L.knows_of_fits _ _ (L.fits_refl x.kind)
  · refine (keeps_resolvePaymentId hs h).seq hc hs (fun found t hfound ht _ ↦ ?_)
      fun _ _ _ _ h ↦ by cases h
    cases found with
    | none => exact fun _ h ↦ by cases h
    | some id =>
      obtain ⟨d, hrow, hknows⟩ := hfound id rfl
      refine Contract.Meets.seq (Q := fun r _ ↦ ∀ row, r = .ok (some row) → row.kind = d) ?_ hc ht
        (fun found u hfound _ _ ↦ ?_) fun _ _ _ _ h ↦ by cases h
      · refine ((keeps_select _ _).sound hc ht).mono ?_
        rintro r u ⟨⟨rfl, -⟩, -, htu⟩ row hr
        obtain ⟨row', hrow', rfl⟩ := hrow.grows htu
        cases (Except.ok.inj hr).symm.trans hrow'
        rfl
      · intro b hb
        obtain ⟨row, rfl, rfl⟩ := Option.map_eq_some_iff.mp (Except.ok.inj hb)
        have := hfound row rfl
        rw [← this] at hknows
        exact hknows

theorem keeps_applyPayment (hs : Recorded L s) (h : Signed e n p x s) :
    Keeps L (fun _ _ ↦ True) (WebhooksController.applyPayment env e) s := by
  have hc := collecting_sound L
  unfold WebhooksController.applyPayment
  split
  · refine (keeps_resolveBookingId hs h).seq hc hs (fun found t hfound ht hst ↦ ?_)
      fun _ _ _ ↦ trivial
    cases found with
    | none => trivial
    | some b =>
      have hsigned := h.grows hst
      have hknows : Knows L ⟨b, ⟨e.gatewayRef, e.orderRef, .captured, e.method, e.amountPaise,
          none⟩, .webhook⟩ (.pay n) x.kind t := by
        refine ⟨h.gatewayRef, hsigned.kind, fun o ho ↦ ?_, fun _ ↦ hfound b rfl⟩
        cases h.orderRef.symm.trans ho
        exact hsigned.orderKind
      exact keeps_settleCapturedPayment ht hknows
  · refine (keeps_resolvePaymentId hs h).seq hc hs (fun found t _ _ _ ↦ ?_) fun _ _ _ ↦ trivial
    cases found with
    | none => trivial
    | some id => exact keeps_markFailed _ _
  · split
    · trivial
    · exact keeps_harmless ⟨harmless_of_table (by simp [Step.table]) (by simp [Step.table])
        (by simp [Step.table]) (by simp [Step.table]), fun _ ↦ trivial⟩
  · trivial
  · trivial

theorem keeps_razorpay (hs : Recorded L s) (e : PaymentWebhookEvent) :
    Keeps L (fun _ _ ↦ True) (WebhooksController.razorpay env e) s := by
  have hc := collecting_sound L
  have hevent {α : Type} (l : Step) (hl : l.table = .webhooks) (f : World → Except Failure α) :
      (Proc.attempt l f : Request α).Only Harmless :=
    ⟨harmless_of_table (by simp [hl]) (by simp [hl]) (by simp [hl]) (by simp [hl]), fun _ ↦ trivial⟩
  refine (keeps_select _ _).seq hc hs (fun valid t hvalid ht hst ↦ ?_) fun _ _ _ ↦ trivial
  refine Contract.Meets.seq (Q := fun r u ↦ r = .ok () → u = t ∧ valid = true) ?_ hc ht
    (fun _ u hu _ _ ↦ ?_) fun _ _ _ ↦ trivial
  · exact Contract.Meets.when (fun _ h ↦ by cases h) fun h _ ↦ ⟨rfl, by simpa using h⟩
  · obtain ⟨rfl, htrue⟩ := hu rfl
    obtain ⟨n, p, x, hsigned⟩ := verifyWebhook_signed ht
      ((Except.ok.inj hvalid.1).symm.trans htrue)
    refine (keeps_harmless (hevent _ rfl _)).seq hc ht (fun inserted v _ hv huv ↦ ?_) fun _ _ ↦ id
    refine Contract.Meets.when (fun _ ↦ ?_) fun _ ↦ trivial
    refine Contract.Meets.orElse (Q := fun _ _ ↦ True) ?_ hc hv (fun _ _ _ ↦ trivial)
      fun err y _ hy _ ↦ keeps_harmless (hevent _ rfl _)
    exact (keeps_applyPayment hv (hsigned.grows huv)).seq hc hv
      (fun _ _ _ _ _ ↦ keeps_harmless (hevent _ rfl _)) fun _ _ _ ↦ trivial

theorem keeps_ambient {l : Step} (h : l.ambient = true) :
    Keeps L (fun _ _ ↦ True) (Proc.write l) s := by
  intro t _ _ _
  refine ⟨?_, trivial⟩
  cases l with
  | transition b target patch on =>
    simp only [Step.ambient, Bool.and_eq_true, decide_eq_true_eq] at h
    exact .transition fun ht ↦ absurd ht h.2
  | tick | gatewayUp | gatewayAttempt | gatewayFinish | redisUp | releaseLock | placeBooking =>
    exact .other (by simp [Step.table]) (by simp) (by simp) (by simp [Step.table])
  | _ => cases h

/-- Every request by which money is collected keeps every law's contract. -/
theorem collects_keeps {q : Request Unit} (h : Collects env q) (hs : Recorded L s) :
    Keeps L (fun _ _ ↦ True) q s := by
  cases h with
  | createIntent b u purpose key => exact (keeps_createIntent hs b u purpose key).ignore
  | chooseCash b u => exact (keeps_chooseCash hs b u).ignore
  | confirmCashCollected b d => exact (keeps_confirmCashCollected hs b d).ignore
  | payWithWallet b u => exact (keeps_payWithWallet hs b u).ignore
  | capture b u body => exact (keeps_capture hs b u body).ignore
  | captureFee b body x => exact keeps_captureFee hs b body x
  | applyCoupon b u code => exact keeps_applyCoupon hs b u code
  | removeCoupon b u => exact keeps_removeCoupon hs b u
  | webhook e => exact keeps_razorpay hs e
  | sweep => exact keeps_reconcile hs
  | ambient l hl => exact keeps_ambient hl

end Towing.Money
