import Towing.Money.Sought
import Towing.Money.TripMoney

namespace Towing.Money

open Towing.Db Towing.Process PaymentsService

/-- What the vendor has been asked for under the reference. -/
def World.asks (w : World) : Ref → Option ℤ
  | .order n => (w.gateway.orders[n]?).map (·.amountPaise)
  | .wallet _ => some 0
  | _ => none

/-- What the vendor has taken under it. -/
def World.takes (w : World) : Ref → Option ℤ
  | .pay n => (w.gateway.payments[n]?).bind fun p ↦ w.asks (.order p.order)
  | .wallet _ => some 0
  | _ => none

/-- What has been collected on a row beside its wallet part: what the vendor has taken, or
the cash that the driver was to take. -/
def World.collected (w : World) (row : PaymentRow) : Option ℤ :=
  match row.gatewayRef with
  | some (.cash _) => some row.amount
  | some ref => w.takes ref
  | none => none

variable {env : Env} {s w w' : World} {l : Step} {row row' : PaymentRow} {ref : Ref} {x : ℤ}

theorem asks_grows (hg : GatewayGrows w.gateway w'.gateway) (h : w.asks ref = some x) : w'.asks ref = some x := by
  cases ref with
  | order n =>
    obtain ⟨o, ho, rfl⟩ := Option.map_eq_some_iff.mp h
    simp [World.asks, hg.orders n o ho]
  | wallet id => exact h
  | _ => cases h

theorem takes_grows (hg : GatewayGrows w.gateway w'.gateway) (h : w.takes ref = some x) : w'.takes ref = some x := by
  cases ref with
  | pay n =>
    obtain ⟨p, hp, ho⟩ := Option.bind_eq_some_iff.mp h
    obtain ⟨p', hp', horder, -⟩ := hg.payments n p hp
    simp only [World.takes, hp', Option.bind_some, horder]
    exact asks_grows hg ho
  | wallet id => exact h
  | _ => cases h

theorem collected_grows (h : w.collected row = some x) (hg : GatewayGrows w.gateway w'.gateway)
    (href : row'.gatewayRef = row.gatewayRef) (hamount : row'.amount = row.amount) : w'.collected row' = some x := by
  unfold World.collected at h ⊢
  rw [href, hamount]
  split at h
  · exact h
  · exact takes_grows hg h
  · cases h

/-! What the rows and the orders say of each other. -/

/-- What a step makes of a row. -/
structure Became (l : Step) (row row' : PaymentRow) : Prop where
  amount : row'.amount = row.amount
  walletApplied : row'.walletApplied = row.walletApplied
  provider : row'.provider = row.provider
  purpose : row'.purpose = row.purpose
  order : row'.gatewayOrderRef = row.gatewayOrderRef ∨
    ∃ ref, l = .setOrderRef row.id ref ∧ row'.gatewayOrderRef = some ref
  captured : row'.status = .captured → (row.status = .captured ∧ row'.gatewayRef = row.gatewayRef) ∨
    ∃ ref method on, l = .markCaptured row.id ref method on ∧ row.status ≠ .captured ∧
      row'.gatewayRef = (ref <|> row.gatewayRef)

theorem Became.same (l : Step) (row : PaymentRow) : Became l row row :=
  ⟨rfl, rfl, rfl, rfl, .inl rfl, fun h ↦ .inl ⟨h, rfl⟩⟩

theorem became_update {f : PaymentRow → PaymentRow} {id : ℕ} (h : row' ∈ (w.updatePayment id f).payments)
    (hf : ∀ row, row.id = id → Became l row (f row)) : ∃ row ∈ w.payments, Became l row row' := by
  obtain ⟨row, hrow, rfl⟩ := List.mem_map.mp h
  refine ⟨row, hrow, ?_⟩
  split_ifs with hid
  · exact hf row hid
  · exact .same l row

/-- A row is there before the step, or is what it inserts. -/
theorem row_of_run (h : row' ∈ (w.run l).payments) :
    (∃ p, l = .createPayment p ∧ w.insertPayment p = .ok row') ∨ ∃ row ∈ w.payments, Became l row row' := by
  by_cases ht : l.table = .payments
  · cases l with
    | createPayment p =>
      rcases World.createPayment_eq w p with heq | ⟨row, hok, heq⟩
      · rw [World.run, heq] at h
        exact .inr ⟨row', h, .same _ _⟩
      · rw [World.run, heq] at h
        rcases List.mem_append.mp h with h | h
        · exact .inr ⟨row', h, .same _ _⟩
        · cases List.mem_singleton.mp h
          exact .inl ⟨p, rfl, hok⟩
    | setOrderRef id ref =>
      simp only [World.run, World.setOrderRef] at h
      split_ifs at h
      · exact .inr ⟨row', h, .same _ _⟩
      · refine .inr (became_update h fun row hid ↦ ?_)
        subst hid
        exact ⟨rfl, rfl, rfl, rfl, .inr ⟨ref, rfl, rfl⟩, fun hc ↦ .inl ⟨hc, rfl⟩⟩
    | markCaptured id ref method on =>
      simp only [World.run, World.markCaptured] at h
      split_ifs at h
      · exact .inr ⟨row', h, .same _ _⟩
      · refine .inr (became_update h fun row hid ↦ ?_)
        subst hid
        split_ifs with hc
        · exact .same _ _
        · exact ⟨rfl, rfl, rfl, rfl, .inl rfl, fun _ ↦ .inr ⟨ref, method, on, rfl, hc, rfl⟩⟩
    | markFailed id reason =>
      refine .inr (became_update h fun row _ ↦ ?_)
      split_ifs
      · exact ⟨rfl, rfl, rfl, rfl, .inl rfl, fun hc ↦ (by cases hc)⟩
      · exact .same _ _
    | applyRefund id =>
      simp only [World.run, World.applyRefund] at h
      refine .inr (became_update h fun row _ ↦ ⟨rfl, rfl, rfl, rfl, .inl rfl, fun hc ↦ ?_⟩)
      dsimp only at hc
      split_ifs at hc
      exact .inl ⟨hc, rfl⟩
    | _ => cases ht
  · rw [World.run_payments ht] at h
    exact .inr ⟨row', h, .same _ _⟩

/-- The amounts on the rows are those of their orders, and of what is captured on them. -/
structure Books (w : World) : Prop where
  numbered : w.Numbered
  applied : ∀ row ∈ w.payments, 0 ≤ row.walletApplied
  wallet : ∀ row ∈ w.payments, row.provider = .wallet → row.amount = 0
  orders : OrdersMatch w
  nonzero : ∀ o ∈ w.gateway.orders, o.amountPaise ≠ 0
  borne : ∀ row ∈ w.payments, ∀ ref, row.gatewayOrderRef = some ref → w.asks ref = some row.amount
  taken : ∀ row ∈ w.payments, row.purpose = .booking → row.status = .captured → w.collected row = some row.amount

/-- The step keeps the books. -/
def KeepsBooks : Step → World → Prop
  | .createPayment p, _ => p.provider = .wallet → p.amount = 0
  | .createOrder o, w => o.amountPaise ≠ 0 ∧ ∃ walletApplied, Stored w o.paymentId o.amountPaise walletApplied
  | .setOrderRef id ref, w => ∀ row ∈ w.payments, row.id = id → w.asks ref = some row.amount
  | .markCaptured id ref _ _, w => ∀ row ∈ w.payments, row.id = id → row.status ≠ .captured → row.purpose = .booking →
      w.collected { row with gatewayRef := ref <|> row.gatewayRef } = some row.amount
  | _, _ => True

theorem Uncollected.books (h : Uncollected s) : Books s where
  numbered := by simp [World.Numbered, h.payments]
  applied := by simp [h.payments]
  wallet := by simp [h.payments]
  orders := by simp [OrdersMatch, h.orders]
  nonzero := by simp [h.orders]
  borne := by simp [h.payments]
  taken := by simp [h.payments]

theorem Books.run (h : Books w) (hl : KeepsBooks l w) : Books (w.run l) := by
  have hg := World.run_gatewayGrows w l
  refine ⟨World.run_numbered h.numbered, fun row' hrow' ↦ ?_, fun row' hrow' hw ↦ ?_, fun o ho ↦ ?_, fun o ho ↦ ?_,
    fun row' hrow' ref href ↦ ?_, fun row' hrow' hp hc ↦ ?_⟩
  · rcases row_of_run hrow' with ⟨p, rfl, hok⟩ | ⟨row, hrow, hbecame⟩
    · unfold World.insertPayment at hok
      split_ifs at hok with _ _ happlied
      cases hok
      exact not_lt.mp happlied
    · exact hbecame.walletApplied ▸ h.applied row hrow
  · rcases row_of_run hrow' with ⟨p, rfl, hok⟩ | ⟨row, hrow, hbecame⟩
    · obtain ⟨-, -, hamount, -, hprovider, -⟩ := World.insertPayment_ok hok
      exact hamount.trans (hl (hprovider.symm.trans hw))
    · exact hbecame.amount.trans (h.wallet row hrow (hbecame.provider.symm.trans hw))
  · rcases World.run_orders ho with hold | rfl
    · obtain ⟨applied, hstored⟩ := h.orders o hold
      exact ⟨applied, sameAmounts_run w l _ _ _ hstored⟩
    · obtain ⟨-, applied, hstored⟩ := hl
      exact ⟨applied, sameAmounts_run w _ _ _ _ hstored⟩
  · rcases World.run_orders ho with hold | rfl
    · exact h.nonzero o hold
    · exact hl.1
  · rcases row_of_run hrow' with ⟨p, rfl, hok⟩ | ⟨row, hrow, hbecame⟩
    · obtain ⟨-, -, -, -, -, -, -, -, hnone⟩ := World.insertPayment_ok hok
      rw [hnone] at href
      cases href
    · rw [hbecame.amount]
      rcases hbecame.order with hsame | ⟨ref', rfl, hset⟩
      · exact asks_grows hg (h.borne row hrow ref (hsame.symm.trans href))
      · cases hset.symm.trans href
        exact asks_grows hg (hl row hrow rfl)
  · rcases row_of_run hrow' with ⟨p, rfl, hok⟩ | ⟨row, hrow, hbecame⟩
    · obtain ⟨-, -, -, -, -, -, hpending, -⟩ := World.insertPayment_ok hok
      rw [hpending] at hc
      cases hc
    · rw [hbecame.amount]
      have hp := hbecame.purpose.symm.trans hp
      rcases hbecame.captured hc with ⟨hold, hsame⟩ | ⟨ref, method, on, rfl, hne, href⟩
      · exact collected_grows (h.taken row hrow hp hold) hg hsame hbecame.amount
      · exact collected_grows (hl row hrow rfl hne hp) hg href hbecame.amount

/-! Every run keeps the books. -/

/-- The row is still there, and is the only one with its number. -/
theorem Grows.rowGrows (h : Grows w w') (hn : w.Numbered) (hn' : w'.Numbered) (hrow : row ∈ w.payments)
    (hrow' : row' ∈ w'.payments) (hid : row.id = row'.id) : RowGrows row row' := by
  obtain ⟨row'', hrow'', hgrow⟩ := h.payments _ row (hn.payment_of_mem hrow)
  rw [hid, hn'.payment_of_mem hrow'] at hrow''
  exact Option.some.inj hrow'' ▸ hgrow

/-- A capture that the vendor has signed is of a payment it has collected. -/
theorem verifyWebhook_captured {g : Gateway} {e : PaymentWebhookEvent} (h : g.verifyWebhook e = true)
    (hc : e.status = .captured) :
    ∃ n p x, Collected g ⟨e.gatewayRef, e.orderRef, .captured, e.method, e.amountPaise, none⟩ n p x := by
  unfold Gateway.verifyWebhook at h
  rw [hc] at h
  split at h
  · rename_i n href
    split at h
    · cases h
    · rename_i p hp
      split at h
      · cases h
      · rename_i x hx
        simp only [Bool.and_eq_true, decide_eq_true_eq] at h
        exact ⟨n, p, x, href, h.1.1.1.1, hp, h.2, hx⟩
  · cases h

/-- The event that inserts a payments row. -/
def Opens (e : Event Step World) (id : ℕ) : Bool :=
  (e.before.payment id).isNone && (e.after.payment id).isSome

section Runs

variable {cs : List (Call Step World Failure)} {es : List (ℕ × Event Step World)} {i j k m n b id : ℕ}
  {e q : Event Step World} {on : Settling} {handle : PaymentHandle} (h₀ : Uncollected s)
  (h : Calls (Collects env) s cs w es)
include h₀ h

theorem recorded_at (he : Makes es i n e) : Recorded anyLaw e.before ∧ CollectStep anyLaw e.label e.before := by
  obtain ⟨-, hes, -⟩ := h.runs.safe (collecting_sound anyLaw) (fun p hp s hs ↦ collects_keeps hp hs) h₀.recorded
    fun e _ ↦ lawful_anyLaw e.label e.before
  exact hes e (List.mem_of_getElem? he.event)

theorem recorded_after (he : Makes es i n e) : Recorded anyLaw e.after := by
  obtain ⟨hrec, hstep⟩ := recorded_at h₀ h he
  rw [h.commit_at he]
  exact hrec.run hstep

theorem grows_commit : ∀ e ∈ es.map (·.2), Grows e.before e.after := by
  intro e he
  obtain ⟨i, hi⟩ := List.getElem?_of_mem he
  obtain ⟨n, he⟩ := makes_of_event hi
  rw [h.commit_at he]
  exact (recorded_at h₀ h he).2.grows

theorem grows_before (hji : j ≤ i) (hq : Makes es j m q) (he : Makes es i n e) : Grows q.before e.before :=
  h.chained.rel_later Grows.refl (fun _ _ _ ↦ Grows.trans) (grows_commit h₀ h) hji hq.event he.event

theorem grows_after (hji : j < i) (hq : Makes es j m q) (he : Makes es i n e) : Grows q.after e.before :=
  h.chained.rel_after Grows.refl (fun _ _ _ ↦ Grows.trans) (grows_commit h₀ h) hji hq.event he.event

theorem row_since (hji : j < i) (hq : Makes es j m q) (he : Makes es i n e) (hrow' : row' ∈ q.after.payments)
    (hrow : row ∈ e.before.payments) (hid : row'.id = row.id) : RowGrows row' row :=
  (grows_after h₀ h hji hq he).rowGrows (recorded_after h₀ h hq).numbered (recorded_at h₀ h he).1.numbered hrow' hrow
    hid

theorem row_before (hji : j < i) (hq : Makes es j m q) (he : Makes es i n e) (hrow' : row' ∈ q.before.payments)
    (hrow : row ∈ e.before.payments) (hid : row'.id = row.id) : RowGrows row' row :=
  (grows_before h₀ h hji.le hq he).rowGrows (recorded_at h₀ h hq).1.numbered (recorded_at h₀ h he).1.numbered hrow'
    hrow hid

/-- The vendor's word is of a payment it has collected. -/
theorem collected_of_reports (hq : Makes es j m q) (hreports : Reports handle q) :
    ∃ n p x, Collected q.before.gateway handle n p x := by
  have hrec := (recorded_at h₀ h hq).1
  obtain ⟨hcaptured, ⟨gatewayRef, orderRef, -, hfetch⟩ | ⟨event, -, hvalid, hstatus, rfl⟩⟩ := hreports
  · obtain ⟨n, p, x, hcol, -⟩ := fetchPayment_captured hrec.attempts hfetch hcaptured
    exact ⟨n, p, x, hcol⟩
  · exact verifyWebhook_captured hvalid hstatus

omit h₀ in
theorem due_at (he : Makes es i n e) : Due (own n (es.take i)) e.label :=
  h.heeds_own (fun _ hp ↦ dueHeeding.collects hp) he

end Runs

theorem Stored.amount_eq {id : ℕ} {amount applied : ℤ} (h : Stored w id amount applied) (hn : w.Numbered)
    (hrow : row ∈ w.payments) (hid : row.id = id) : row.amount = amount := by
  obtain ⟨row', hrow', rfl, -⟩ := h
  rw [← hid, hn.payment_of_mem hrow] at hrow'
  exact Option.some.inj hrow' ▸ rfl

section Runs

variable {cs : List (Call Step World Failure)} {es : List (ℕ × Event Step World)} {i j k m n b id : ℕ}
  {e q : Event Step World} {on : Settling} {handle : PaymentHandle} (h₀ : Uncollected s)
  (h : Calls (Collects env) s cs w es) (hfair : ∀ x ∈ es, Fair x.2.label x.2.before) (he : Makes es i n e)

include hfair in
theorem not_strayed : ¬Strayed (own n (es.take i)) := by
  rintro ⟨q, hq, hunfair⟩
  obtain ⟨j, -, hq⟩ := makes_of_own hq
  exact hunfair (hfair _ (List.mem_of_getElem? hq))

include h₀ h hfair he

theorem stored_of_asked {amount : ℤ} (hasked : Asked (own n (es.take i)) id amount) :
    ∃ applied, Stored e.before id amount applied := by
  obtain ⟨q, hq, row, hrow, rfl, rfl⟩ := hasked.resolve_left (not_strayed hfair)
  obtain ⟨j, hji, hq⟩ := makes_of_own hq
  have hrow := (recorded_after h₀ h hq).numbered.payment_of_mem hrow
  obtain ⟨row', hrow', hgrow⟩ := (grows_after h₀ h hji hq he).payments _ row hrow
  exact ⟨row'.walletApplied, row', hrow', hgrow.amount, rfl⟩

/-- The reference that a row is given asks for what the row charges. -/
theorem asks_of_ordered (hbooks : Books e.before) (hordered : Ordered (own n (es.take i)) id ref)
    (hrow : row ∈ e.before.payments) (hid : row.id = id) : e.before.asks ref = some row.amount := by
  cases hordered with
  | wallet hasked =>
    obtain ⟨applied, hstored⟩ := stored_of_asked h₀ h hfair he hasked
    rw [hstored.amount_eq hbooks.numbered hrow hid]
    rfl
  | @order n' o hopened hfor =>
    obtain ⟨q, hq, ho⟩ := hopened
    obtain ⟨j, hji, hq⟩ := makes_of_own hq
    have ho := (grows_after h₀ h hji hq he).gateway.orders _ o ho
    obtain ⟨applied, hstored⟩ := hbooks.orders o (List.mem_of_getElem? ho)
    rw [hfor] at hstored
    rw [hstored.amount_eq hbooks.numbered hrow hid]
    simp [World.asks, ho]

variable (hearlier : ∀ j < i, ∀ m q, Makes es j m q → Books q.before)
include hearlier

omit hfair in
/-- A row that has been found under the handle's references, and is not captured yet,
charges what was asked for under its order. -/
theorem asks_of_finds (hq : q ∈ own n (es.take i)) (hfinds : Finds handle id q) (hrow : row ∈ e.before.payments)
    (hid : row.id = id) (hne : row.status ≠ .captured) :
    ∃ ref, handle.orderRef = some ref ∧ e.before.asks ref = some row.amount := by
  obtain ⟨row', hrow', hid', hfound⟩ := hfinds
  obtain ⟨j, hji, hq⟩ := makes_of_own hq
  have hgrow := row_before h₀ h hji hq he hrow' hrow (hid'.trans hid.symm)
  rcases hfound with href | ⟨ref, horder, href⟩
  · have hcaptured := ((recorded_at h₀ h hq).1.rows row' hrow').captured href
    exact absurd (hgrow.captured hcaptured).1 hne
  · refine ⟨ref, href, ?_⟩
    rw [hgrow.amount]
    exact asks_grows (grows_before h₀ h hji.le hq he).gateway ((hearlier j hji n q hq).borne row' hrow' ref horder)

omit h₀ h hfair he in
/-- The reference of a wallet payment stands for nothing asked of the vendor. -/
theorem wallet_of_holds (hq : q ∈ own n (es.take i)) (hholds : HoldsWallet on q) :
    ∃ id, on.handle.gatewayRef = some (.wallet id) ∧ on.handle.orderRef = some (.wallet id) := by
  obtain ⟨row, ref, -, hopen, hprovider, horder, hgateway, hhandle⟩ := hholds
  obtain ⟨j, hji, hq⟩ := makes_of_own hq
  have hbooks := hearlier j hji n q hq
  have hmem := (mem_openIntent hopen).1
  have hasks := hbooks.borne row hmem ref horder
  rw [hbooks.wallet row hmem hprovider] at hasks
  cases ref with
  | wallet id => exact ⟨id, hgateway, hhandle⟩
  | order o =>
    obtain ⟨x, hx, hzero⟩ := Option.map_eq_some_iff.mp hasks
    exact absurd hzero (hbooks.nonzero x (List.mem_of_getElem? hx))
  | _ => cases hasks

/-- What a settlement records on a row is what the row charges. -/
theorem collected_of_vouched (hv : Vouched (own n (es.take i)) on) (hsought : Sought (own n (es.take i)) on id)
    (hrow : row ∈ e.before.payments) (hid : row.id = id) (hne : row.status ≠ .captured) :
    e.before.collected { row with gatewayRef := on.handle.gatewayRef <|> row.gatewayRef } = some row.amount := by
  have hfound := hsought.resolve_left (not_strayed hfair)
  cases hv with
  | vendor hreports =>
    obtain ⟨q, hq, hreports⟩ := hreports
    obtain ⟨j, hji, hq⟩ := makes_of_own hq
    obtain ⟨k, p, x, hcol⟩ := collected_of_reports h₀ h hq hreports
    rw [hcol.orderRef] at hfound
    obtain ⟨q', hq', hfinds⟩ := hfound.resolve_left (by simp)
    obtain ⟨ref, href, hasks⟩ := asks_of_finds h₀ h he hearlier hq' hfinds hrow hid hne
    cases hcol.orderRef.symm.trans href
    obtain ⟨p', hp', horder, -⟩ := (grows_before h₀ h hji.le hq he).gateway.payments k p hcol.payment
    rw [hcol.gatewayRef]
    change e.before.takes (.pay k) = some row.amount
    simp only [World.takes, hp', Option.bind_some, horder]
    exact hasks
  | wallet _ hholds =>
    obtain ⟨q, hq, hholds⟩ := hholds
    obtain ⟨i, hgateway, horder⟩ := wallet_of_holds hearlier hq hholds
    rw [horder] at hfound
    obtain ⟨q', hq', hfinds⟩ := hfound.resolve_left (by simp)
    obtain ⟨ref, href, hasks⟩ := asks_of_finds h₀ h he hearlier hq' hfinds hrow hid hne
    cases horder.symm.trans href
    rw [hgateway]
    exact hasks
  | cash _ hgateway _ => simp [World.collected, hgateway]

theorem keepsBooks_of_due (hbooks : Books e.before) : KeepsBooks e.label e.before := by
  have hdue := due_at h he
  cases hl : e.label with
  | createPayment p =>
    rw [hl] at hdue
    exact hdue.2
  | createOrder o =>
    rw [hl] at hdue
    exact ⟨hdue.1, stored_of_asked h₀ h hfair he hdue.2⟩
  | setOrderRef id ref =>
    rw [hl] at hdue
    exact fun row hrow hid ↦ asks_of_ordered h₀ h hfair he hbooks hdue hrow hid
  | markCaptured id ref method on =>
    intro row hrow hid hne hp
    rw [hl] at hdue
    cases on with
    | some on =>
      obtain ⟨hv, rfl, hsought⟩ := hdue
      exact collected_of_vouched h₀ h hfair he hearlier hv hsought hrow hid hne
    | none =>
      obtain ⟨q, hq, row', hrow', hid', hfee⟩ := hdue
      obtain ⟨j, hji, hq⟩ := makes_of_own hq
      have hgrow := row_since h₀ h hji hq he hrow' hrow (hid'.trans hid.symm)
      rcases hfee with hfee | hcaptured
      · have hpurpose : row.purpose = row'.purpose := congrArg Prod.snd hgrow.kind
        rw [hp, hfee] at hpurpose
        cases hpurpose
      · have hcaptured := ((recorded_after h₀ h hq).rows row' hrow').captured hcaptured
        exact absurd (hgrow.captured hcaptured).1 hne
  | _ => trivial

end Runs

section Runs

variable {cs : List (Call Step World Failure)} {es : List (ℕ × Event Step World)} {i n b id : ℕ}
  {e : Event Step World} (h₀ : Uncollected s) (h : Calls (Collects env) s cs w es)
include h₀ h

/-- Where no look-up goes amiss, the books are kept. -/
theorem books_of_fair (hfair : ∀ x ∈ es, Fair x.2.label x.2.before) : Books w := by
  have hat : ∀ i n e, Makes es i n e → Books e.before ∧ Books e.after := by
    intro i
    induction i using Nat.strong_induction_on with
    | _ i ih =>
      intro n e he
      have hbefore : Books e.before := by
        rcases Nat.eq_zero_or_eq_succ_pred i with rfl | hi
        · rw [h.chained.first he.event]
          exact h₀.books
        · rw [hi] at he
          obtain ⟨f, hf⟩ := getElem?_earlier (Nat.le_succ _) he.event
          obtain ⟨m, hf'⟩ := makes_of_event hf
          rw [h.chained.next hf he.event]
          exact (ih _ (by omega) m f hf').2
      refine ⟨hbefore, ?_⟩
      rw [h.commit_at he]
      exact hbefore.run (keepsBooks_of_due h₀ h hfair he (fun j hj m q hq ↦ (ih j hj m q hq).1) hbefore)
  exact (h.kept h₀.books fun j m f hf _ ↦ (hat j m f hf).2).1

/-- The call that inserted a trip's row made it for what it had read the trip to cost. -/
theorem opened_at (he : Makes es i n e) (hrow : e.before.payment id = some row) (hp : row.purpose = .booking) :
    ∃ j m f p, j < i ∧ Makes es j m f ∧ Opens f id = true ∧ f.label = .createPayment p ∧
      fareRead (own m (es.take j)) p.bookingId = some (row.amount + row.walletApplied) := by
  obtain ⟨j, f, hji, hf, hnone, hsome, -⟩ := h.chained.origin (R := fun t ↦ (t.payment id).isSome)
    (by simp [World.payment, h₀.payments]) he.event (by simp [hrow])
  obtain ⟨m, hf⟩ := makes_of_event hf
  obtain ⟨new, hnew⟩ := Option.isSome_iff_exists.mp hsome
  obtain ⟨row', hrow', hgrow⟩ := (grows_after h₀ h hji hf he).payments id new hnew
  obtain rfl := Option.some.inj (hrow.symm.trans hrow')
  have hopens : Opens f id = true := by simpa [Opens, hnew] using hnone
  rw [h.commit_at hf] at hnew
  obtain ⟨p, hl, hok⟩ := payment_of_run (by simpa using hnone) hnew
  obtain ⟨-, hkind, hamount, happlied, -⟩ := World.insertPayment_ok hok
  refine ⟨j, m, f, p, hji, hf, hopens, hl, ?_⟩
  have hdue := due_at h hf
  rw [hl] at hdue
  rw [hgrow.amount, hgrow.walletApplied, hamount, happlied]
  exact hdue.1 ((congrArg Prod.snd (hgrow.kind.trans hkind)).symm.trans hp)

end Runs

/-- The step posts what a driver or a fleet is credited for the trip. -/
def Step.credits (b : ℕ) : Step → Bool
  | .post legs => legs.any fun leg ↦ isSettlementCredit leg.type && leg.refId = some (.booking b)
  | _ => false

/-- What the trip cost when last read by the call that inserts the row, or that credits the trip. -/
def costRead (past : List (Event Step World)) (e : Event Step World) (id b : ℕ) : Option (Option ℤ) :=
  match e.label with
  | .createPayment p => if Opens e id then some (fareRead past p.bookingId) else none
  | l => if l.credits b then some ((tripRead past b).map (·.total)) else none

/-- Before event `i`, who inserted the row and who credited the trip had read it to cost `fare`. -/
def ReadAt (es : List (ℕ × Event Step World)) (i id b : ℕ) (fare : Option ℤ) : Prop :=
  ∀ j ∈ List.range i, ∀ x ∈ es[j]?, ∀ read ∈ costRead (own x.1 (es.take j)) x.2 id b, read = fare

instance (es : List (ℕ × Event Step World)) (i id b : ℕ) (fare : Option ℤ) : Decidable (ReadAt es i id b fare) :=
  inferInstanceAs (Decidable (∀ _ ∈ _, _))

/-- The trip costs what has been collected on the row and what it takes from the wallet, and
whoever has been credited for the trip before event `i` has been out of no more. -/
structure Funded (es : List (ℕ × Event Step World)) (i : ℕ) (w : World) (b : ℕ) (row : PaymentRow) : Prop where
  total : w.fare b = some (row.amount + row.walletApplied)
  collected : w.collected row = some row.amount
  applied : 0 ≤ row.walletApplied
  credited : ∀ j m f, j < i → Makes es j m f → f.label.credits b = true → ∃ legs credit r, f.label = .post legs ∧
    settlementLegs credit = .ok legs ∧ tripRead (own m (es.take j)) b = some r ∧
    credit.totalPaise = r.total - r.taxAmount ∧ r.total = row.amount + row.walletApplied

theorem settlementLegs_refId {credit : SettlementCredit} {legs : List (LedgerLeg LedgerKey)}
    (h : settlementLegs credit = .ok legs) : ∀ leg ∈ legs, leg.refId = some (.booking credit.bookingId) := by
  unfold settlementLegs at h
  split at h
  · cases h
  · cases h
    simp

section Runs

variable {cs : List (Call Step World Failure)} {es : List (ℕ × Event Step World)} {i n b id : ℕ}
  {e : Event Step World} (h₀ : Uncollected s) (h : Calls (Collects env) s cs w es)
include h

/-- A trip is credited what is due on it as the call has read it. -/
theorem credited_of_due (he : Makes es i n e) (hcredits : e.label.credits b = true) :
    ∃ legs credit r, e.label = .post legs ∧ settlementLegs credit = .ok legs ∧
      tripRead (own n (es.take i)) b = some r ∧ credit.totalPaise = r.total - r.taxAmount := by
  have hdue := due_at h he
  cases hl : e.label with
  | post legs =>
    rw [hl] at hdue hcredits
    obtain ⟨leg, hleg, hcredit⟩ := List.any_eq_true.mp hcredits
    simp only [Bool.and_eq_true, decide_eq_true_eq] at hcredit
    rcases hdue with hnone | ⟨credit, r, hlegs, htrip, htotal⟩
    · rw [hnone leg hleg] at hcredit
      cases hcredit.1
    · have hb := (settlementLegs_refId hlegs leg hleg).symm.trans hcredit.2
      cases hb
      exact ⟨legs, credit, r, rfl, hlegs, htrip, htotal⟩
  | _ =>
    rw [hl] at hcredits
    cases hcredits

include h₀

theorem funded_of_read {row : PaymentRow} (he : Makes es i n e) (hbooks : Books e.before)
    (hrow : e.before.payment id = some row) (hcaptured : row.status = .captured) (hp : row.purpose = .booking)
    (hread : ReadAt es i id b (e.before.fare b)) : Funded es i e.before b row := by
  have hat {j m : ℕ} {f : Event Step World} {read : Option ℤ} (hji : j < i) (hf : Makes es j m f)
      (hcost : costRead (own m (es.take j)) f id b = some read) : read = e.before.fare b :=
    hread j (List.mem_range.mpr hji) (m, f) hf read hcost
  have htotal : e.before.fare b = some (row.amount + row.walletApplied) := by
    obtain ⟨j, m, f, p, hji, hf, hopens, hl, hfare⟩ := opened_at h₀ h he hrow hp
    rw [← hfare]
    exact (hat hji hf (by simp [costRead, hl, hopens])).symm
  have hmem := (World.mem_of_payment hrow).1
  refine ⟨htotal, hbooks.taken row hmem hp hcaptured, hbooks.applied row hmem, fun j m f hji hf hcredits ↦ ?_⟩
  obtain ⟨legs, credit, r, hl, hlegs, htrip, hcredit⟩ := credited_of_due h hf hcredits
  refine ⟨legs, credit, r, hl, hlegs, htrip, hcredit, ?_⟩
  have hcost : costRead (own m (es.take j)) f id b = some (some r.total) := by
    rw [hl] at hcredits
    simp [costRead, hl, hcredits, htrip]
  exact Option.some.inj ((hat hji hf hcost).trans htotal)

/-- A trip's payment covers what the trip is settled at exactly when its row was opened for
as much; and where no look-up goes amiss and the trip's cost is read as it stays, that is what
has been collected and nobody is credited for more. -/
theorem funded_iff (he : Makes es i n e) (hm : MovesToPaid e b) :
    ∃ on basis, Settled e b on basis ∧ (Uncut (Collects env) s w (es.map (·.2)) → basis.isSome) ∧
      (∀ id, basis = some id → ∃ row, e.before.payment id = some row ∧ row.status = .captured ∧
        (row.purpose = .booking → ∃ j m f p, j < i ∧ Makes es j m f ∧ Opens f id = true ∧ f.label = .createPayment p ∧
          (e.before.fare b = some (row.amount + row.walletApplied) ↔
            fareRead (own m (es.take j)) p.bookingId = e.before.fare b))) ∧
      ((∀ x ∈ es.take i, Fair x.2.label x.2.before) → ∃ id row, basis = some id ∧ e.before.payment id = some row ∧
        (row.purpose = .booking → ReadAt es i id b (e.before.fare b) → Funded es i e.before b row)) := by
  obtain ⟨on, basis, hset, -, -, hbasis⟩ := (moves_settle h₀ h.runs fun e _ ↦ lawful_anyLaw e.label e.before).2 e
    (List.mem_of_getElem? he.event) b hm
  refine ⟨on, basis, hset, fun hu ↦ h₀.basis hu (List.mem_of_getElem? he.event) hset, fun id hid ↦ ?_, fun hfair ↦ ?_⟩
  · obtain ⟨row, hrow, hcaptured, -⟩ := hbasis id hid
    refine ⟨row, hrow, hcaptured, fun hp ↦ ?_⟩
    obtain ⟨j, m, f, p, hji, hf, hopens, hl, hfare⟩ := opened_at h₀ h he hrow hp
    exact ⟨j, m, f, p, hji, hf, hopens, hl, by rw [hfare]; exact eq_comm⟩
  · have hsome : basis.isSome := by
      have hdue := due_at h he
      obtain ⟨patch, why, hl⟩ := hm.label (h.commit_at he)
      have hsettlement := hset.2
      rw [hl] at hdue hsettlement
      cases why with
      | none => cases hsettlement
      | some why =>
        obtain ⟨on', basis'⟩ := why
        cases hsettlement
        refine hdue.resolve_left ?_
        rintro ⟨q, hq, hunfair⟩
        obtain ⟨j, hji, hq⟩ := makes_of_own hq
        exact hunfair (hfair _ (List.mem_of_getElem? (hq.take hji)))
    obtain ⟨id, rfl⟩ := Option.isSome_iff_exists.mp hsome
    obtain ⟨row, hrow, hcaptured, -⟩ := hbasis id rfl
    refine ⟨id, row, rfl, hrow, fun hp hread ↦ ?_⟩
    obtain ⟨cs', hbefore⟩ := h.before he
    exact funded_of_read h₀ h he (books_of_fair h₀ hbefore hfair) hrow hcaptured hp hread

end Runs

/-- The customer opens the checkout of one trip and pays. -/
def checkoutRun : List (Call Step World Failure) × World × List (ℕ × Event Step World) :=
  takeTurns ([0, 1] ++ List.replicate 6 2 ++ [3] ++ List.replicate 20 4) (paidCheckout.map fun p ↦ ⟨p, p⟩) World.blank

theorem checkoutRun_calls :
    Calls (Collects sampleEnv) World.blank checkoutRun.1 checkoutRun.2.1 checkoutRun.2.2 := by
  simpa [checkoutRun] using (Calls.start.askAll paidCheckout_collects).takeTurns _

theorem funded_iff_sample : ∃ i n e row, Makes checkoutRun.2.2 i n e ∧ MovesToPaid e 1 ∧
    e.before.payment 0 = some row ∧ row.purpose = .booking ∧ Funded checkoutRun.2.2 i e.before 1 row := by
  have hpaid : ∃ i ∈ List.range checkoutRun.2.2.length, ∃ x ∈ checkoutRun.2.2[i]?, MovesToPaid x.2 1 ∧
      (settlement x.2.label).map (·.2.2) = some (some 0) ∧
      (x.2.before.payment 0).map (·.purpose) = some .booking ∧
      (∀ y ∈ checkoutRun.2.2.take i, Fair y.2.label y.2.before) ∧
      ReadAt checkoutRun.2.2 i 0 1 (x.2.before.fare 1) := by decide +kernel
  obtain ⟨i, -, ⟨n, e⟩, he, hm, hbasis, hpurpose, hfair, hread⟩ := hpaid
  obtain ⟨on, basis, hset, -, -, hfunded⟩ := funded_iff uncollected_blank checkoutRun_calls he hm
  obtain ⟨id, row, rfl, hrow, hrest⟩ := hfunded hfair
  rw [hset.2] at hbasis
  cases hbasis
  rw [hrow] at hpurpose
  have hp := Option.some.inj hpurpose
  exact ⟨i, n, e, row, he, hm, hrow, hp, hrest hp hread⟩

/-- A hundred paise off. -/
def sampleCoupon : Coupon where
  code := "TOW100"
  kind := .flat
  value := 100
  maxDiscount := none
  minOrder := 0
  maxUses := none
  maxUsesPerUser := 1
  startsAt := none
  expiresAt := none
  isActive := true
  usedCount := 0

def couponWorld : World := { World.blank with coupons := [sampleCoupon] }

/-- The customer opens the checkout, takes the coupon, and pays in the sheet that
is still open. -/
def lateCheckout : List (Request Unit) :=
  [Proc.write (.placeBooking 1 (sampleTrip .completed)),
    (createIntent sampleEnv 1 7 .booking "a").ignore,
    PaymentCouponService.apply 1 7 "TOW100",
    Proc.write (.gatewayAttempt ⟨0, .captured, some .upi, none⟩),
    WebhooksController.razorpay sampleEnv (capturedEvent 0 0 1 1000)]

theorem lateCheckout_collects : ∀ q ∈ lateCheckout, Collects sampleEnv q := by
  simp only [lateCheckout, List.forall_mem_cons, List.not_mem_nil, false_imp_iff,
    forall_true_iff, and_true]
  exact ⟨.ambient _ rfl, .createIntent _ _ _ _, .applyCoupon _ _ _, .ambient _ rfl, .webhook _⟩

theorem settled_below_payment : ∃ w es, Uncut (Collects sampleEnv) couponWorld w es ∧
    ∃ e ∈ es, MovesToPaid e 1 ∧ e.before.fare 1 = some 900 ∧
      (basisRow e).map (fun row ↦ (row.status, row.purpose, row.amount + row.walletApplied)) =
        some (.captured, .booking, 1000) := by
  refine ⟨_, _, runAll_uncut couponWorld lateCheckout_collects, ?_⟩
  decide +kernel

end Towing.Money
