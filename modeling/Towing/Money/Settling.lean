import Towing.Money.Collecting

namespace Towing.Money

open Towing.Db Towing.Process PaymentsRepo PaymentsService

variable {L : Law} {w w' s : World} {l : Step} {on : Settling} {ref : Ref} {k : Kind}

/-- The request keeps the contract of `L` from the state it last saw on. -/
abbrev Keeps {α : Type} (L : Law) (Φ : Except Failure α → World → Prop) (p : Request α)
    (s : World) : Prop := (collecting L).Meets Φ p s

/-- The steps that neither record money nor settle, nor take any from a customer. -/
def Harmless (l : Step) : Prop :=
  l.table ≠ .payments ∧ (∀ x, l ≠ .createOrder x) ∧
    (∀ b target patch why, l ≠ .transition b target patch why) ∧
    ∀ legs, l = .post legs → TakesNothing legs

theorem harmless_of_table (hp : l.table ≠ .payments) (hg : l.table ≠ .gateway)
    (hb : l.table ≠ .bookings) (hl : l.table ≠ .ledger) : Harmless l := by
  refine ⟨hp, ?_, ?_, ?_⟩
  · rintro x rfl
    exact hg rfl
  · rintro b target patch why rfl
    exact hb rfl
  · rintro legs rfl
    exact absurd rfl hl

theorem Harmless.step (h : Harmless l) (w : World) : CollectStep L l w := by
  by_cases hl : l.table = .ledger
  · cases l with
    | post legs => exact .post (.inl (h.2.2.2 legs rfl))
    | _ => cases hl
  · exact .other h.1 h.2.1 h.2.2.1 hl

theorem keeps_harmless {α : Type} {p : Request α} (hp : p.Only Harmless) :
    Keeps L (fun _ _ ↦ True) p s := by
  refine Contract.Meets.of_only hp ?_ (fun _ _ _ _ ↦ trivial) trivial
  intro l t hl _ _ _
  exact ⟨hl.step t, trivial⟩

theorem keeps_select {α : Type} (q : Select) (f : World → α) :
    Keeps L (fun r t ↦ r = .ok (f t) ∧ Lawful L (.select q) t) (select q f) s := by
  intro t _ _ hc
  exact ⟨.other (by simp [Step.table]) (by simp) (by simp) (by simp [Step.table]), rfl, hc⟩

theorem keeps_call {α : Type} (q : Select) (f : World → Except Failure α) :
    Keeps L (fun r t ↦ r = f t) (call q f) s := by
  intro t _ _ _
  exact ⟨.other (by simp [Step.table]) (by simp) (by simp) (by simp [Step.table]), rfl⟩

/-- A payment row of that kind, whatever has become of it since it was read. -/
def HasRow (w : World) (id : ℕ) (d : Kind) : Prop := ∃ row, w.payment id = some row ∧ row.kind = d

theorem HasRow.grows {id : ℕ} {d : Kind} (h : HasRow w id d) (hg : Grows w w') :
    HasRow w' id d := by
  obtain ⟨row, hrow, hd⟩ := h
  obtain ⟨row', hrow', hgrow⟩ := hg.payments id row hrow
  exact ⟨row', hrow', hgrow.kind.trans hd⟩

theorem Recorded.hasRow (h : Recorded L w) {row : PaymentRow} (hrow : row ∈ w.payments) :
    HasRow w row.id row.kind := ⟨row, h.numbered.payment_of_mem hrow, rfl⟩

/-- A captured row that `k`'s money may be on. -/
def CapturedRow (L : Law) (k : Kind) (w : World) (id : ℕ) : Prop :=
  ∃ row, w.payment id = some row ∧ row.status = .captured ∧ L.fits k row.kind

theorem CapturedRow.grows {id : ℕ} (h : CapturedRow L k w id) (hg : Grows w w') :
    CapturedRow L k w' id := by
  obtain ⟨row, hrow, hst, hfit⟩ := h
  obtain ⟨row', hrow', hgrow⟩ := hg.payments id row hrow
  exact ⟨row', hrow', (hgrow.captured hst).1, hgrow.kind ▸ hfit⟩

/-- What whoever drives a settlement knows of the money it is for. -/
structure Knows (L : Law) (on : Settling) (ref : Ref) (k : Kind) (w : World) : Prop where
  gatewayRef : on.handle.gatewayRef = some ref
  kind : w.refKind ref = some k
  order : ∀ o, on.handle.orderRef = some o → w.refKind o = some k
  channel : on.channel ≠ .route → L.knows k on.bookingId

theorem Knows.grows (h : Knows L on ref k w) (hg : Grows w w') : Knows L on ref k w' :=
  ⟨h.gatewayRef, hg.refKind h.kind, fun o ho ↦ hg.refKind (h.order o ho), h.channel⟩

/-- What the settlement knows once it has looked the money up. -/
structure Ready (L : Law) (on : Settling) (ref : Ref) (k : Kind) (w : World) : Prop
    extends Knows L on ref k w where
  own : L.fits k (on.bookingId, .booking)
  good : w.cancelled on.bookingId ∨ ∀ d, L.fits k d → L.good on d

theorem Ready.grows (h : Ready L on ref k w) (hg : Grows w w') : Ready L on ref k w' :=
  ⟨h.toKnows.grows hg, h.own, h.good.imp_left (hg.cancelled _)⟩

theorem Knows.ready (h : Knows L on ref k w)
    (hl : Lawful L (.select (.capturedRow ref on)) w) : Ready L on ref k w := by
  have hadm := hl k h.kind
  refine ⟨h, L.fits_own on k _ h.channel hadm, ?_⟩
  by_cases hc : w.cancelled on.bookingId
  · exact .inl hc
  · rw [decide_eq_false hc] at hadm
    exact .inr fun d ↦ L.good_of_fits on k d h.channel hadm

/-- What a lookup of the settlement's row answers. -/
def Found (L : Law) (on : Settling) (ref : Ref) (k : Kind)
    (r : Except Failure (Option PaymentRow)) (w : World) : Prop :=
  ∀ o, r = .ok o → Ready L on ref k w ∧ ∀ row, o = some row →
    (∃ d, HasRow w row.id d ∧ L.fits k d) ∧ (row.status = .captured → CapturedRow L k w row.id)

theorem Recorded.found (hw : Recorded L w) {row : PaymentRow}
    (hrow : row ∈ w.payments) (hfit : L.fits k row.kind) :
    (∃ d, HasRow w row.id d ∧ L.fits k d) ∧ (row.status = .captured → CapturedRow L k w row.id) :=
  ⟨⟨row.kind, hw.hasRow hrow, hfit⟩,
    fun hst ↦ ⟨row, hw.numbered.payment_of_mem hrow, hst, hfit⟩⟩

theorem Recorded.fits_gatewayRef (hw : Recorded L w) (hk : w.refKind ref = some k)
    {row : PaymentRow} (h : w.byGatewayRef ref = some row) :
    row ∈ w.payments ∧ row.status = .captured ∧ L.fits k row.kind := by
  have hrow : row ∈ w.payments := List.mem_of_find?_eq_some h
  have href : row.gatewayRef = some ref := by simpa using List.find?_some h
  obtain ⟨k', hk', hfit⟩ := (hw.rows row hrow).gatewayRef ref href
  cases hk.symm.trans hk'
  exact ⟨hrow, (hw.rows row hrow).captured (by simp [href]), hfit⟩

theorem Recorded.fits_orderRef (hw : Recorded L w) (hk : w.refKind ref = some k)
    {row : PaymentRow} (h : w.byOrderRef ref = some row) : row ∈ w.payments ∧ row.kind = k := by
  have hrow : row ∈ w.payments := List.mem_of_find?_eq_some h
  have href : row.gatewayOrderRef = some ref := by simpa using List.find?_some h
  exact ⟨hrow, Option.some.inj (((hw.rows row hrow).orderRef ref href).symm.trans hk)⟩

theorem mem_openIntent {b : ℕ} {purpose : PaymentPurpose} {row : PaymentRow}
    (h : w.openIntent b purpose = some row) : row ∈ w.payments ∧ row.kind = (b, purpose) := by
  have hmem := List.mem_filter.mp (List.mem_of_getLast? h)
  simp only [Bool.and_eq_true, decide_eq_true_eq] at hmem
  exact ⟨hmem.1, Prod.ext hmem.2.1.1 hmem.2.1.2⟩

theorem mem_capturedFor {b : ℕ} {purpose : PaymentPurpose} {row : PaymentRow}
    (h : w.capturedFor b purpose = some row) :
    row ∈ w.payments ∧ row.kind = (b, purpose) ∧ row.status = .captured := by
  have hp := List.find?_some h
  simp only [Bool.and_eq_true, decide_eq_true_eq] at hp
  exact ⟨List.mem_of_find?_eq_some h, Prod.ext hp.1.1 hp.1.2, hp.2⟩

/-- A row found under the vendor's reference has been captured with it. -/
theorem keeps_byHandleRef (hs : Recorded L s) (h : Knows L on ref k s) :
    Keeps L (fun r t ↦ Found L on ref k r t ∧
      ∀ row, r = .ok (some row) → CapturedRow L k t row.id) (byHandleRef on) s := by
  unfold byHandleRef
  rw [h.gatewayRef]
  refine ((keeps_select _ _).sound (collecting_sound L) hs).mono ?_
  rintro r t ⟨⟨rfl, hl⟩, ht, hst⟩
  have hready := (h.grows hst).ready hl
  constructor
  · intro o ho
    cases ho
    refine ⟨hready, fun row hrow ↦ ?_⟩
    obtain ⟨hmem, -, hfit⟩ := ht.fits_gatewayRef hready.kind hrow
    exact ht.found hmem hfit
  · intro row hrow
    obtain ⟨hmem, hst, hfit⟩ := ht.fits_gatewayRef hready.kind (Except.ok.inj hrow)
    exact ⟨row, ht.numbered.payment_of_mem hmem, hst, hfit⟩

theorem keeps_byHandleOrder (hs : Recorded L s) (h : Ready L on ref k s) :
    Keeps L (Found L on ref k) (byHandleOrder on) s := by
  unfold byHandleOrder
  cases horder : on.handle.orderRef with
  | none =>
    intro o ho
    cases ho
    exact ⟨h, fun row hrow ↦ by cases hrow⟩
  | some o =>
    refine ((keeps_select _ _).sound (collecting_sound L) hs).mono ?_
    rintro r t ⟨⟨rfl, -⟩, ht, hst⟩ found hfound
    have hready := h.grows hst
    cases hfound
    refine ⟨hready, fun row hrow ↦ ?_⟩
    obtain ⟨hmem, hkind⟩ := ht.fits_orderRef (hready.order o horder) hrow
    exact ht.found hmem (hkind ▸ L.fits_refl k)

theorem keeps_openIntent (hs : Recorded L s) (h : Ready L on ref k s) :
    Keeps L (Found L on ref k) (openIntent on.bookingId .booking) s := by
  refine ((keeps_select _ _).sound (collecting_sound L) hs).mono ?_
  rintro r t ⟨⟨rfl, -⟩, ht, hst⟩ found hfound
  have hready := h.grows hst
  cases hfound
  refine ⟨hready, fun row hrow ↦ ?_⟩
  obtain ⟨hmem, hkind⟩ := mem_openIntent hrow
  exact ht.found hmem (hkind ▸ hready.own)

theorem keeps_capturedFor (hs : Recorded L s) (h : Ready L on ref k s) :
    Keeps L (Found L on ref k) (capturedFor on.bookingId .booking) s := by
  refine ((keeps_select _ _).sound (collecting_sound L) hs).mono ?_
  rintro r t ⟨⟨rfl, -⟩, ht, hst⟩ found hfound
  have hready := h.grows hst
  cases hfound
  refine ⟨hready, fun row hrow ↦ ?_⟩
  obtain ⟨hmem, hkind, -⟩ := mem_capturedFor hrow
  exact ht.found hmem (hkind ▸ hready.own)

theorem keeps_orElse {p q : Request (Option PaymentRow)} (hs : Recorded L s)
    (hp : Keeps L (Found L on ref k) p s)
    (hq : ∀ t, Recorded L t → Ready L on ref k t → Keeps L (Found L on ref k) q t) :
    Keeps L (Found L on ref k) (orElse p q) s := by
  refine hp.seq (collecting_sound L) hs (fun found t hfound ht _ ↦ ?_) fun _ _ _ _ h ↦ by cases h
  cases found with
  | some row => exact hfound
  | none => exact hq t ht (hfound none rfl).1

theorem keeps_existingRow (hs : Recorded L s) (h : Knows L on ref k s) :
    Keeps L (Found L on ref k) (existingRow on) s := by
  have h₁ := keeps_orElse hs ((keeps_byHandleRef hs h).mono fun _ _ hr ↦ hr.1) fun t ht hr ↦ keeps_byHandleOrder ht hr
  have h₂ := keeps_orElse hs h₁ fun t ht hr ↦ keeps_openIntent ht hr
  exact keeps_orElse hs h₂ fun t ht hr ↦ keeps_capturedFor ht hr

/-- What `ensureCapturedRow` answers. -/
def Ensured (L : Law) (on : Settling) (ref : Ref) (k : Kind)
    (r : Except Failure (Option ℕ)) (w : World) : Prop :=
  ∀ o, r = .ok o → Ready L on ref k w ∧ ∀ id, o = some id → CapturedRow L k w id

theorem World.payment_markCaptured {id : ℕ} {row : PaymentRow} {r : Option Ref}
    (method : Option PaymentMethod) (hrow : w.payment id = some row)
    (h : w.markCapturedError id r = none) :
    ∃ row', (w.markCaptured id r method).payment id = some row' ∧ row'.status = .captured ∧
      row'.kind = row.kind := by
  have hid := (World.mem_of_payment hrow).2
  have hf : ∀ row : PaymentRow,
      (if row.status = .captured then row else w.capturedRow row r method).id = row.id := by
    intro row
    split_ifs <;> rfl
  rw [World.markCaptured, h]
  simp only [Option.isSome_none, Bool.false_eq_true, if_false]
  rw [World.payment_updatePayment hf, hrow, Option.map_some]
  refine ⟨_, rfl, ?_⟩
  simp only [hid, if_true]
  split_ifs with hc
  · exact ⟨hc, rfl⟩
  · exact ⟨rfl, rfl⟩

theorem keeps_markCaptured {id : ℕ} {method : Option PaymentMethod} {d : Kind}
    (h : Ready L on ref k s) (hrow : HasRow s id d) (hfit : L.fits k d) :
    Keeps L (fun r t ↦ r = .ok () → Ready L on ref k t ∧ CapturedRow L k t id)
      (markCaptured id on.handle.gatewayRef method (some on)) s := by
  intro t hst ht hc
  have hg : CollectStep L (.markCaptured id on.handle.gatewayRef method (some on)) t := by
    refine .markCaptured fun row r hr hsome ↦ ?_
    obtain ⟨row', hrow', hd⟩ := hrow.grows hst
    cases hr.symm.trans hrow'
    cases hsome.symm.trans h.gatewayRef
    exact ⟨k, (h.grows hst).kind, hd ▸ hfit⟩
  refine ⟨hg, fun hok ↦ ⟨(h.grows hst).grows hg.grows, ?_⟩⟩
  obtain ⟨row, hrow, hd⟩ := hrow.grows hst
  cases herr : t.markCapturedError id on.handle.gatewayRef with
  | some e =>
    simp [herr] at hok
  | none =>
    obtain ⟨row', hrow', hcap, hkind⟩ := World.payment_markCaptured method hrow herr
    exact ⟨row', hrow', hcap, by rw [hkind, hd]; exact hfit⟩

theorem keeps_create {p : NewPayment}
    (hkey : (p.idempotencyKey.bookingId, p.idempotencyKey.purpose) = (p.bookingId, p.purpose)) :
    Keeps L (fun r t ↦ ∀ row, r = .ok row → HasRow t row.id (p.bookingId, p.purpose))
      (create p) s := by
  intro t _ ht _
  refine ⟨.createPayment hkey, fun row hok ↦ ?_⟩
  have hok : t.insertPayment p = .ok row := hok
  obtain ⟨hid, hkind, -⟩ := World.insertPayment_ok hok
  refine ⟨row, ?_, hkind⟩
  change (t.createPayment p).payment row.id = some row
  rw [World.createPayment, hok]
  exact World.payment_append_new (Recorded.numbered ht) hid

theorem keeps_createCapturedRow {env : Env} {booking : Booking} (hs : Recorded L s)
    (h : Ready L on ref k s) :
    Keeps L (Ensured L on ref k) (createCapturedRow env on booking) s := by
  have hc := collecting_sound L
  unfold createCapturedRow
  dsimp only
  refine Contract.Meets.orElse (Q := Ensured L on ref k) ?_ hc hs (fun _ _ hr ↦ hr) ?_
  · refine (keeps_create (L := L) rfl).seq hc hs (fun created t hrow ht hst ↦ ?_)
      fun _ _ _ _ h ↦ by cases h
    refine (keeps_markCaptured (h.grows hst) (hrow created rfl) h.own).seq hc ht ?_
      fun _ _ _ _ h ↦ by cases h
    rintro _ u hu - - o ho
    cases ho
    refine ⟨(hu rfl).1, fun id hid ↦ ?_⟩
    cases hid
    exact (hu rfl).2
  · intro e t _ ht hst
    split_ifs
    · refine (keeps_byHandleRef ht (h.grows hst).toKnows).seq hc ht ?_ fun _ _ _ _ h ↦ by cases h
      rintro raced u hu - - o ho
      cases ho
      refine ⟨(hu.1 raced rfl).1, fun id hid ↦ ?_⟩
      obtain ⟨row, rfl, rfl⟩ := Option.map_eq_some_iff.mp hid
      exact hu.2 row rfl
    · exact fun _ h ↦ by cases h


theorem keeps_ensureCapturedRow {env : Env} (hs : Recorded L s) (h : Knows L on ref k s) :
    Keeps L (Ensured L on ref k) (ensureCapturedRow env on) s := by
  have hc := collecting_sound L
  refine (keeps_existingRow hs h).seq hc hs (fun found t hfound ht _ ↦ ?_)
    fun _ _ _ _ h ↦ by cases h
  obtain ⟨hready, hrow⟩ := hfound found rfl
  cases found with
  | some existing =>
    obtain ⟨⟨d, hhas, hfit⟩, hcap⟩ := hrow existing rfl
    have hmark : Keeps L (fun r u ↦ r = .ok () → Ready L on ref k u ∧
        CapturedRow L k u existing.id) (Proc.when (existing.status ≠ .captured)
          (markCaptured existing.id on.handle.gatewayRef on.handle.method (some on))) t := by
      refine Contract.Meets.when (fun _ ↦ keeps_markCaptured hready hhas hfit) fun hst _ ↦ ?_
      exact ⟨hready, hcap (not_not.mp hst)⟩
    refine hmark.seq hc ht ?_ fun _ _ _ _ h ↦ by cases h
    rintro _ u hu - - o ho
    cases ho
    refine ⟨(hu rfl).1, fun id hid ↦ ?_⟩
    cases hid
    exact (hu rfl).2
  | none =>
    refine (keeps_select _ _).seq hc ht (fun booking u _ hu htu ↦ ?_) fun _ _ _ _ h ↦ by cases h
    cases booking with
    | none =>
      intro o ho
      cases ho
      exact ⟨hready.grows htu, fun _ h ↦ by cases h⟩
    | some booking => exact keeps_createCapturedRow hu (hready.grows htu)

theorem harmless_ledgerPost {legs : List (LedgerLeg LedgerKey)} (h : TakesNothing legs) :
    (ledgerPost legs).Only Harmless := by
  rw [ledgerPost, Proc.Only.attempt_iff]
  refine ⟨by simp [Step.table], by simp, by simp, ?_⟩
  intro legs' h'
  cases h'
  exact h

theorem takesNothing_cashLegs (b driverId : ℕ) (total : ℤ) :
    TakesNothing (cashLegs b driverId total) := by
  intro leg hleg hu
  cases List.mem_singleton.mp hleg
  cases hu

theorem takesNothing_settlementLegs {input : SettlementCredit} {legs : List (LedgerLeg LedgerKey)}
    (h : settlementLegs input = .ok legs) : TakesNothing legs := by
  unfold settlementLegs at h
  split at h
  · cases h
  · cases h
    intro leg hleg hu
    obtain ⟨x, -, rfl⟩ := List.mem_map.mp hleg
    dsimp only at hu
    split at hu <;> cases hu

theorem harmless_creditBookingSettlement (input : SettlementCredit) :
    (creditBookingSettlement input).Only Harmless := by
  unfold creditBookingSettlement
  split
  · trivial
  · rename_i legs hlegs
    exact (harmless_ledgerPost (takesNothing_settlementLegs hlegs)).ignore

theorem harmless_settlementOf (input : SettlementInput) : (settlementOf input).Only Harmless := by
  unfold settlementOf
  split <;> trivial

theorem harmless_select {α : Type} (q : Select) (f : World → α) : (select q f).Only Harmless :=
  ⟨harmless_of_table (by simp [Step.table]) (by simp [Step.table]) (by simp [Step.table]) (by simp [Step.table]),
    fun _ ↦ trivial⟩

/-- The row's wallet part, while the row it is read from lasts. -/
theorem keeps_paymentLegsFor {basis : Option ℕ} (hs : Recorded L s) :
    Keeps L (fun r t ↦ ∀ x, r = .ok x → 0 < x.1 → ∃ id row, basis = some id ∧
      t.payment id = some row ∧ row.walletApplied = x.1) (paymentLegsFor basis) s := by
  cases basis with
  | none =>
    intro x hx hpos
    cases hx
    omega
  | some id =>
    refine ((keeps_select _ _).sound (collecting_sound L) hs).mono ?_
    intro r t hr x hx hpos
    obtain ⟨⟨rfl, -⟩, -, -⟩ := hr
    cases hx
    dsimp only at hpos ⊢
    cases hrow : t.payment id with
    | none => simp [hrow] at hpos
    | some row => exact ⟨id, row, rfl, hrow, by simp⟩

/-- A settlement takes from the customer what its captured payment promised. -/
theorem keeps_spend {basis : Option ℕ} {userId : ℕ} {walletAppliedPaise : ℤ} (h : Ready L on ref k s)
    (hb : ∀ id, basis = some id → CapturedRow L k s id)
    (hu : ∃ r, s.bookings on.bookingId = some r ∧ r.userId = userId)
    (hrow : 0 < walletAppliedPaise → ∃ id row, basis = some id ∧ s.payment id = some row ∧
      row.walletApplied = walletAppliedPaise) :
    Keeps L (fun _ _ ↦ True) (Proc.when (0 < walletAppliedPaise)
      (ledgerPost (spendLegs on.bookingId userId walletAppliedPaise)).ignore) s := by
  apply Contract.Meets.when
  · intro hpos
    obtain ⟨id, row, hid, hpay, rfl⟩ := hrow hpos
    obtain ⟨row', hrow', hcap, hfit⟩ := hb id hid
    cases hpay.symm.trans hrow'
    refine Contract.Meets.ignore (?_ : Keeps L (fun _ _ ↦ True) _ _)
    intro t hst _ _
    obtain ⟨r, hr, rfl⟩ := hu
    obtain ⟨r', hr', hu'⟩ := hst.customer _ _ hr
    obtain ⟨row', hrow', hgrow⟩ := hst.payments _ _ hpay
    refine ⟨.post (.inr ⟨on.bookingId, id, row', r', k, hrow', (hgrow.captured hcap).1, ?_,
      hgrow.kind ▸ hfit, h.own, hr', ?_⟩), trivial⟩
    · rw [hgrow.walletApplied]
      exact hpos
    · rw [hu', hgrow.walletApplied]
  · intro _
    trivial

theorem keeps_settleOn {inputs : SettlementInputs} {basis : Option ℕ} (hs : Recorded L s)
    (h : Ready L on ref k s) (hb : ∀ id, basis = some id → CapturedRow L k s id)
    (hu : ∃ r, s.bookings on.bookingId = some r ∧ r.userId = inputs.userId) :
    Keeps L (fun _ _ ↦ True) (settleOn on inputs basis) s := by
  have hc := collecting_sound L
  unfold settleOn
  dsimp only
  split
  · refine (keeps_paymentLegsFor hs).seq hc hs (fun legs t hlegs ht hst ↦ ?_) fun _ _ _ ↦ trivial
    obtain ⟨r, hr, hru⟩ := hu
    obtain ⟨r', hr', hru'⟩ := hst.customer _ _ hr
    refine (keeps_spend (h.grows hst) (fun id hid ↦ (hb id hid).grows hst)
      ⟨r', hr', hru'.trans hru⟩ (hlegs legs rfl)).seq hc ht (fun _ u _ hu htu ↦ ?_) fun _ _ ↦ id
    refine (keeps_harmless (harmless_ledgerPost (takesNothing_cashLegs _ _ _)).ignore.when).seq hc hu
      (fun _ v _ hv huv ↦ ?_) fun _ _ ↦ id
    refine (keeps_harmless (harmless_settlementOf _)).seq hc hv
      (fun settlement x _ hx hvx ↦ ?_) fun _ _ ↦ id
    refine (keeps_harmless (harmless_creditBookingSettlement _)).seq hc hx
      (fun _ y _ hy hxy ↦ ?_) fun _ _ ↦ id
    refine (keeps_harmless (harmless_select _ _)).seq hc hy (fun now z _ _ hyz ↦ ?_) fun _ _ ↦ id
    intro t' hzt _ _
    have hgrow : Grows s t' :=
      (((((hst.trans htu).trans huv).trans hvx).trans hxy).trans hyz).trans hzt
    have hready := h.grows hgrow
    refine ⟨.transition fun _ ↦ ⟨on, basis, rfl, rfl,
      ⟨ref, k, hready.gatewayRef, hready.kind, hready.own⟩, ?_⟩, trivial⟩
    rcases hready.good with hgood | hgood
    · exact .inl hgood
    · refine .inr fun id hid ↦ ?_
      obtain ⟨row, hrow, hcap, hfit⟩ := (hb id hid).grows hgrow
      exact ⟨row, hrow, hcap, hgood row.kind hfit⟩
  · trivial

theorem keeps_settleInner {env : Env} (hs : Recorded L s) (h : Knows L on ref k s) :
    Keeps L (fun _ _ ↦ True) (settleInner env on) s := by
  have hc := collecting_sound L
  have hinputs : Keeps L (fun r t ↦ ∀ inputs, r = .ok inputs →
      ∃ r, t.bookings on.bookingId = some r ∧ r.userId = inputs.userId) (settlementInputs on) s := by
    refine (keeps_call _ _).mono fun r t hr inputs hin ↦ ?_
    rw [hr] at hin
    split at hin
    · cases hin
    · rename_i r' hr'
      cases hin
      exact ⟨r', hr', rfl⟩
  refine hinputs.seq hc hs (fun inputs t hin ht hst ↦ ?_) fun _ _ _ ↦ trivial
  split_ifs
  · trivial
  · refine (keeps_ensureCapturedRow ht (h.grows hst)).seq hc ht (fun basis u _ _ _ ↦ ?_)
      fun _ _ _ ↦ trivial
    refine keeps_harmless ?_
    exact ⟨harmless_of_table (by simp [Step.table]) (by simp [Step.table]) (by simp [Step.table]) (by simp [Step.table]),
      fun _ ↦ trivial⟩
  · trivial
  · refine (keeps_ensureCapturedRow ht (h.grows hst)).seq hc ht (fun basis u hu hr htu ↦ ?_)
      fun _ _ _ ↦ trivial
    obtain ⟨hready, hbasis⟩ := hu basis rfl
    obtain ⟨r, hr', hru⟩ := hin inputs rfl
    obtain ⟨r', hr'', hru'⟩ := htu.customer _ _ hr'
    exact keeps_settleOn hr hready hbasis ⟨r', hr'', hru'.trans hru⟩

theorem keeps_withLock {b : ℕ} {fn : Request Unit} (hs : Recorded L s)
    (hfn : ∀ t, Grows s t → Recorded L t → Keeps L (fun _ _ ↦ True) fn t) :
    Keeps L (fun _ _ ↦ True) (withLock b fn) s := by
  have hc := collecting_sound L
  have hrelease : (Proc.write (.releaseLock b) : Request Unit).Only Harmless :=
    ⟨harmless_of_table (by simp [Step.table]) (by simp [Step.table]) (by simp [Step.table]) (by simp [Step.table]),
      fun _ ↦ trivial⟩
  have hacquire : (Proc.query (.acquireLock b) fun w : World ↦
      if w.redisUp then some (decide (b ∉ w.captureLocks)) else none :
      Request (Option Bool)).Only Harmless :=
    ⟨harmless_of_table (by simp [Step.table]) (by simp [Step.table]) (by simp [Step.table]) (by simp [Step.table]),
      fun _ ↦ trivial⟩
  refine (keeps_harmless hacquire).seq hc hs (fun held t _ ht hst ↦ ?_) fun _ _ _ ↦ trivial
  cases held with
  | none => exact hfn t hst ht
  | some free =>
    cases free with
    | false => trivial
    | true =>
      refine Contract.Meets.seq (Q := fun _ _ ↦ True) ?_ hc ht
        (fun _ u _ _ _ ↦ keeps_harmless hrelease) fun _ _ _ ↦ trivial
      refine (hfn t hst ht).orElse hc ht (fun _ _ _ ↦ trivial) fun e u _ hu _ ↦ ?_
      exact (keeps_harmless hrelease).seq hc hu (fun _ _ _ _ _ ↦ trivial) fun _ _ _ ↦ trivial

theorem keeps_settleCapturedPayment {env : Env} (hs : Recorded L s) (h : Knows L on ref k s) :
    Keeps L (fun _ _ ↦ True) (settleCapturedPayment env on) s :=
  keeps_withLock hs fun _ hst ht ↦ keeps_settleInner ht (h.grows hst)

end Towing.Money
