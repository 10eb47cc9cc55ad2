import Towing.Money.Settled

namespace Towing.Money

open Towing.Db Towing.Process PaymentsRepo PaymentsService

/-- The law that asks for nothing. -/
def anyLaw : Law where
  fits _ _ := True
  knows _ _ := True
  admits _ _ _ := True
  good _ _ := True
  fits_refl _ := trivial
  knows_of_fits _ _ _ := trivial
  fits_own _ _ _ _ _ := trivial
  good_of_fits _ _ _ _ _ _ := trivial
  good_own _ := trivial

theorem lawful_anyLaw (l : Step) (w : World) : Lawful anyLaw l w := by
  cases l with
  | select q => cases q <;> first | exact fun _ _ ↦ trivial | trivial
  | markCaptured id ref method on =>
    cases ref <;> cases on <;> first | exact fun _ _ _ _ ↦ trivial | trivial
  | _ => trivial

/-- What requests also promise when they do not overlap: a row's order is set once, and
a settlement has a row. -/
def Solo : Step → World → Prop
  | .setOrderRef id _, w => ∀ row, w.payment id = some row → row.gatewayOrderRef = none
  | .transition _ _ _ why, _ => ∀ on basis, why = some (on, basis) → basis.isSome
  | _, _ => True

def solo : Contract Step World := ⟨Recorded anyLaw, fun w w' ↦ w' = w, Lawful anyLaw, Solo⟩

/-- Every order the vendor has opened is on the row it was opened for. -/
def Linked (w : World) : Prop :=
  ∀ o < w.gateway.orders.length, ∃ row ∈ w.payments, row.gatewayOrderRef = some (.order o)

variable {w s : World} {l : Step} {on : Settling} {env : Env} {b o : ℕ}

/-- The request keeps its promises with nobody in between. -/
abbrev Alone {α : Type} (Φ : Except Failure α → World → Prop) (p : Request α) (s : World) : Prop :=
  solo.Meets Φ p s

theorem run_orders_eq (h : ∀ x, l ≠ .createOrder x) :
    (w.run l).gateway.orders = w.gateway.orders := by
  by_cases ht : l.table = .gateway
  · cases l with
    | createOrder x => exact absurd rfl (h x)
    | gatewayRefund r =>
      simp only [World.run, Gateway.refund]
      split_ifs <;> rfl
    | gatewayUp up => rfl
    | gatewayAttempt p =>
      simp only [World.run, Gateway.attempt]
      split_ifs <;> rfl
    | gatewayFinish n status =>
      simp only [World.run, Gateway.finish]
      split
      · rfl
      · split_ifs <;> rfl
    | _ => cases ht
  · rw [World.run_gateway ht]

theorem exists_updatePayment {id : ℕ} {f : PaymentRow → PaymentRow} {ref : Ref}
    (h : ∃ row ∈ w.payments, row.gatewayOrderRef = some ref)
    (hf : ∀ row ∈ w.payments, row.id = id → row.gatewayOrderRef = some ref →
      (f row).gatewayOrderRef = some ref) :
    ∃ row ∈ (w.updatePayment id f).payments, row.gatewayOrderRef = some ref := by
  obtain ⟨row, hrow, href⟩ := h
  refine ⟨if row.id = id then f row else row, List.mem_map_of_mem hrow, ?_⟩
  split_ifs with hid
  · exact hf row hrow hid href
  · exact href

/-- A row's order reference stays where it is. -/
theorem run_keeps_ref {ref : Ref} (hn : w.Numbered) (hs : Solo l w)
    (h : ∃ row ∈ w.payments, row.gatewayOrderRef = some ref) :
    ∃ row ∈ (w.run l).payments, row.gatewayOrderRef = some ref := by
  by_cases ht : l.table = .payments
  · cases l with
    | createPayment p =>
      rcases World.createPayment_eq w p with heq | ⟨row', -, heq⟩
      · rwa [World.run, heq]
      · rw [World.run, heq]
        obtain ⟨row, hrow, href⟩ := h
        exact ⟨row, List.mem_append_left _ hrow, href⟩
    | setOrderRef id r =>
      simp only [World.run, World.setOrderRef]
      split_ifs
      · exact h
      · refine exists_updatePayment h fun row hrow hid href ↦ ?_
        have hnone := hs row (hid ▸ hn.payment_of_mem hrow)
        rw [hnone] at href
        cases href
    | markCaptured id r method on =>
      simp only [World.run, World.markCaptured]
      split_ifs
      · exact h
      · refine exists_updatePayment h fun row _ _ href ↦ ?_
        split_ifs <;> exact href
    | markFailed id reason =>
      refine exists_updatePayment h fun row _ _ href ↦ ?_
      split_ifs <;> exact href
    | applyRefund id => exact exists_updatePayment h fun row _ _ href ↦ href
    | _ => cases ht
  · rwa [World.run_payments ht]

theorem Linked.run (h : Linked w) (hn : w.Numbered) (hs : Solo l w)
    (ho : ∀ x, l ≠ .createOrder x) : Linked (w.run l) := by
  intro i hi
  rw [run_orders_eq ho] at hi
  exact run_keeps_ref hn hs (h i hi)

/-- The steps that promise nothing beyond the contract of every law. -/
def Plain (l : Step) : Prop := (∀ x, l ≠ .createOrder x) ∧ ∀ w, Solo l w

theorem plain_of_table (hp : l.table ≠ .payments) (hg : l.table ≠ .gateway)
    (hb : l.table ≠ .bookings) : Plain l := by
  refine ⟨?_, fun w ↦ ?_⟩
  · rintro x rfl
    exact hg rfl
  · cases l with
    | setOrderRef => exact absurd rfl hp
    | transition => exact absurd rfl hb
    | _ => trivial

/-- What the request knows of the orders, and keeps while it takes plain steps. -/
def Opened (o : ℕ) (w : World) : Prop := Linked w ∧ o < w.gateway.orders.length

theorem alone_plain {α : Type} {p : Request α} (hp : p.Only Plain) (hs : Linked s) :
    Alone (fun _ t ↦ Linked t) p s := by
  refine Contract.Meets.of_only hp ?_ (fun s t h hs ↦ h ▸ hs) hs
  intro l t hl ht _ hlink
  exact ⟨hl.2 t, hlink.run (Recorded.numbered ht) (hl.2 t) hl.1⟩

theorem alone_opened {α : Type} {p : Request α} (hp : p.Only Plain) (hs : Opened o s) :
    Alone (fun _ t ↦ Opened o t) p s := by
  refine Contract.Meets.of_only hp ?_ (fun s t h hs ↦ h ▸ hs) hs
  intro l t hl ht _ hopen
  refine ⟨hl.2 t, hopen.1.run (Recorded.numbered ht) (hl.2 t) hl.1, ?_⟩
  change o < (t.run l).gateway.orders.length
  rw [run_orders_eq hl.1]
  exact hopen.2

theorem alone_select {α : Type} (q : Select) (f : World → α) :
    Alone (fun r t ↦ r = .ok (f s) ∧ t = s) (select q f) s := by
  rintro t rfl - -
  exact ⟨trivial, rfl, rfl⟩

theorem alone_call {α : Type} (q : Select) (f : World → Except Failure α) :
    Alone (fun r t ↦ r = f s ∧ t = s) (call q f) s := by
  rintro t rfl - -
  exact ⟨trivial, rfl, rfl⟩

/-! Settlements. -/

namespace World

/-- The row a settlement would find now. -/
def existing (w : World) (on : Settling) : Option PaymentRow :=
  (((on.handle.gatewayRef.bind w.byGatewayRef).or (on.handle.orderRef.bind w.byOrderRef)).or
    (w.openIntent on.bookingId .booking)).or (w.capturedFor on.bookingId .booking)

/-- The settlement has a row to find. -/
def Backed (w : World) (on : Settling) : Prop :=
  (∃ ref, on.handle.orderRef = some ref ∧ ∃ row ∈ w.payments, row.gatewayOrderRef = some ref) ∨
    (w.openIntent on.bookingId .booking).isSome

theorem Backed.existing (h : w.Backed on) : (w.existing on).isSome := by
  rcases h with ⟨ref, hon, row, hrow, href⟩ | hopen
  · have hfound : (w.byOrderRef ref).isSome := by
      rw [byOrderRef, List.find?_isSome]
      exact ⟨row, hrow, by simp [href]⟩
    simp [World.existing, hon, hfound]
  · simp [World.existing, hopen]

end World

theorem alone_orElse {p q : Request (Option PaymentRow)} {a a' : Option PaymentRow}
    (hp : Alone (fun r t ↦ r = .ok a ∧ t = s) p s) (hq : Alone (fun r t ↦ r = .ok a' ∧ t = s) q s) :
    Alone (fun r t ↦ r = .ok (a.or a') ∧ t = s) (orElse p q) s := by
  refine hp.bind ?_ fun _ _ h ↦ by cases h.1
  rintro found t ⟨hfound, rfl⟩
  cases hfound
  cases a with
  | some row => exact ⟨rfl, rfl⟩
  | none => exact hq

theorem alone_existingRow (on : Settling) :
    Alone (fun r t ↦ r = .ok (s.existing on) ∧ t = s) (existingRow on) s := by
  have hgateway : Alone (fun r t ↦ r = .ok (on.handle.gatewayRef.bind s.byGatewayRef) ∧ t = s)
      (byHandleRef on) s := by
    unfold byHandleRef
    split
    · rename_i ref href
      rw [href]
      exact alone_select _ _
    · rename_i href
      rw [href]
      exact ⟨rfl, rfl⟩
  have horder : Alone (fun r t ↦ r = .ok (on.handle.orderRef.bind s.byOrderRef) ∧ t = s)
      (byHandleOrder on) s := by
    unfold byHandleOrder
    split
    · rename_i ref href
      rw [href]
      exact alone_select _ _
    · rename_i href
      rw [href]
      exact ⟨rfl, rfl⟩
  exact alone_orElse (alone_orElse (alone_orElse hgateway horder) (alone_select _ _))
    (alone_select _ _)

theorem plain_markCaptured (id : ℕ) (ref : Option Ref) (method : Option PaymentMethod)
    (why : Option Settling) : (markCaptured id ref method why).Only Plain :=
  ⟨⟨by simp, fun _ ↦ trivial⟩, fun _ ↦ trivial⟩

theorem plain_markFailed (id : ℕ) (reason : String) : (markFailed id reason).Only Plain :=
  ⟨⟨by simp, fun _ ↦ trivial⟩, fun _ ↦ trivial⟩

theorem plain_select {α : Type} (q : Select) (f : World → α) : (select q f).Only Plain :=
  ⟨plain_of_table (by simp [Step.table]) (by simp [Step.table]) (by simp [Step.table]),
    fun _ ↦ trivial⟩

theorem plain_call {α : Type} (q : Select) (f : World → Except Failure α) :
    (call q f).Only Plain :=
  ⟨plain_of_table (by simp [Step.table]) (by simp [Step.table]) (by simp [Step.table]),
    fun _ ↦ trivial⟩

theorem plain_ledgerPost (legs : List (LedgerLeg LedgerKey)) : (ledgerPost legs).Only Plain :=
  ⟨plain_of_table (by simp [Step.table]) (by simp [Step.table]) (by simp [Step.table]),
    fun _ ↦ trivial⟩

theorem alone_ensureCapturedRow (hs : Linked s) (hb : s.Backed on) :
    Alone (fun r t ↦ Linked t ∧ ∀ basis, r = .ok basis → basis.isSome)
      (ensureCapturedRow env on) s := by
  refine (alone_existingRow on).bind ?_ fun _ _ h ↦ by cases h.1
  rintro found t ⟨hfound, rfl⟩
  obtain ⟨row, hrow⟩ := Option.isSome_iff_exists.mp hb.existing
  rw [hrow] at hfound
  cases hfound
  refine (alone_plain (plain_markCaptured _ _ _ _).when hs).bind (fun _ u hu ↦ ⟨hu, ?_⟩)
    fun _ u hu ↦ ⟨hu, fun _ h ↦ by cases h⟩
  intro basis h
  cases h
  rfl

theorem alone_settleOn {inputs : SettlementInputs} {basis : Option ℕ} (hs : Linked s)
    (hb : basis.isSome) : Alone (fun _ t ↦ Linked t) (settleOn on inputs basis) s := by
  unfold settleOn
  dsimp only
  split
  · have hlegs : (paymentLegsFor basis).Only Plain := by
      cases basis with
      | none => trivial
      | some id => exact plain_select _ _
    have hof (input : SettlementInput) : (settlementOf input).Only Plain := by
      unfold settlementOf
      split <;> trivial
    have hcredit (input : SettlementCredit) : (creditBookingSettlement input).Only Plain := by
      unfold creditBookingSettlement
      split
      · trivial
      · exact (plain_ledgerPost _).ignore
    refine (alone_plain hlegs hs).bind (fun _ t ht ↦ ?_) fun _ _ ht ↦ ht
    refine (alone_plain (plain_ledgerPost _).ignore.when ht).bind (fun _ t ht ↦ ?_) fun _ _ ht ↦ ht
    refine (alone_plain (plain_ledgerPost _).ignore.when ht).bind (fun _ t ht ↦ ?_) fun _ _ ht ↦ ht
    refine (alone_plain (hof _) ht).bind (fun _ t ht ↦ ?_) fun _ _ ht ↦ ht
    refine (alone_plain (hcredit _) ht).bind (fun _ t ht ↦ ?_) fun _ _ ht ↦ ht
    refine (alone_plain (plain_select _ _) ht).bind (fun now t ht ↦ ?_) fun _ _ ht ↦ ht
    rintro u rfl hu -
    refine ⟨?_, ht.run (Recorded.numbered hu) ?_ (by simp)⟩
    all_goals
      intro on' basis' h
      cases h
      exact hb
  · exact hs

theorem alone_settleInner (hs : Linked s) (hb : s.Backed on) :
    Alone (fun _ t ↦ Linked t) (settleInner env on) s := by
  have hens : Alone (fun r t ↦ Linked t ∧ ∀ basis, r = .ok basis → basis.isSome)
      (ensureCapturedRow env on) s := alone_ensureCapturedRow hs hb
  refine (alone_call _ _).bind ?_ ?_
  · rintro inputs t ⟨-, rfl⟩
    split_ifs
    · exact hs
    · refine hens.bind (fun basis u hu ↦ ?_) fun _ _ hu ↦ hu.1
      refine alone_plain ?_ hu.1
      exact ⟨plain_of_table (by simp [Step.table]) (by simp [Step.table]) (by simp [Step.table]),
        fun _ ↦ trivial⟩
    · exact hs
    · exact hens.bind (fun basis u hu ↦ alone_settleOn hu.1 (hu.2 basis rfl)) fun _ _ hu ↦ hu.1
  · rintro e t ⟨-, rfl⟩
    exact hs

/-- The lock changes nothing a settlement looks at. -/
theorem alone_settleCapturedPayment (hs : Linked s) (hb : s.Backed on) :
    Alone (fun _ t ↦ Linked t) (settleCapturedPayment env on) s := by
  have hrelease (c : ℕ) : (Proc.write (.releaseLock c) : Request Unit).Only Plain :=
    ⟨plain_of_table (by simp [Step.table]) (by simp [Step.table]) (by simp [Step.table]),
      fun _ ↦ trivial⟩
  have hacquire : Alone (fun _ t ↦ Linked t ∧ t.Backed on) (Proc.query (.acquireLock on.bookingId)
      fun w ↦ if w.redisUp then some (decide (on.bookingId ∉ w.captureLocks)) else none) s := by
    rintro t rfl ht -
    have hpay : (t.run (.acquireLock on.bookingId)).payments = t.payments :=
      World.run_payments (by simp [Step.table])
    refine ⟨trivial, hs.run (Recorded.numbered ht) trivial (by simp), ?_⟩
    change (t.run (.acquireLock on.bookingId)).Backed on
    rw [World.Backed, World.openIntent, hpay]
    exact hb
  refine hacquire.bind (fun held t ht ↦ ?_) fun _ _ ht ↦ ht.1
  cases held with
  | none => exact alone_settleInner ht.1 ht.2
  | some free =>
    cases free with
    | false => exact ht.1
    | true =>
      refine Contract.Meets.bind (Q := fun _ t ↦ Linked t) ?_
        (fun _ u hu ↦ alone_plain (hrelease _) hu) fun _ _ h ↦ h
      exact (alone_settleInner ht.1 ht.2).handle (fun _ _ hu ↦ hu) fun _ u hu ↦
        (alone_plain (hrelease _) hu).bind (fun _ _ h ↦ h) fun _ _ h ↦ h

end Towing.Money
