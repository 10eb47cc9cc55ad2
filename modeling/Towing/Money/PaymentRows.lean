import Towing.Db.Rows
import Towing.Money.Frames

namespace Towing.Money

open Towing.Db

variable {w w' : World} {l : Step} {id : ℕ} {row row' : PaymentRow} {ref : Ref}

/-- The booking a payment is for, and what it is charged for. -/
abbrev Kind := ℕ × PaymentPurpose

def PaymentRow.kind (row : PaymentRow) : Kind := (row.bookingId, row.purpose)

/-- What a payments row keeps for good, and what its capture fixes. -/
structure RowGrows (row row' : PaymentRow) : Prop where
  id : row'.id = row.id
  kind : row'.kind = row.kind
  amount : row'.amount = row.amount
  walletApplied : row'.walletApplied = row.walletApplied
  provider : row'.provider = row.provider
  key : row'.idempotencyKey = row.idempotencyKey
  captured : row.status = .captured → row'.status = .captured ∧ row'.gatewayRef = row.gatewayRef

theorem RowGrows.refl (row : PaymentRow) : RowGrows row row :=
  ⟨rfl, rfl, rfl, rfl, rfl, rfl, fun h ↦ ⟨h, rfl⟩⟩

theorem RowGrows.trans {r₁ r₂ r₃ : PaymentRow} (h : RowGrows r₁ r₂) (h' : RowGrows r₂ r₃) :
    RowGrows r₁ r₃ :=
  ⟨h'.id.trans h.id, h'.kind.trans h.kind, h'.amount.trans h.amount,
    h'.walletApplied.trans h.walletApplied, h'.provider.trans h.provider, h'.key.trans h.key,
    fun hc ↦ ⟨(h'.captured (h.captured hc).1).1,
      (h'.captured (h.captured hc).1).2.trans (h.captured hc).2⟩⟩

structure GatewayGrows (g g' : Gateway) : Prop where
  orders : ∀ (o : ℕ) x, g.orders[o]? = some x → g'.orders[o]? = some x
  payments : ∀ (n : ℕ) p, g.payments[n]? = some p →
    ∃ p', g'.payments[n]? = some p' ∧ p'.order = p.order ∧ (p.status = .captured → p' = p)

theorem GatewayGrows.refl (g : Gateway) : GatewayGrows g g :=
  ⟨fun _ _ h ↦ h, fun _ p h ↦ ⟨p, h, rfl, fun _ ↦ rfl⟩⟩

theorem GatewayGrows.trans {g₁ g₂ g₃ : Gateway} (h : GatewayGrows g₁ g₂)
    (h' : GatewayGrows g₂ g₃) : GatewayGrows g₁ g₃ := by
  refine ⟨fun o x hx ↦ h'.orders o x (h.orders o x hx), fun n p hp ↦ ?_⟩
  obtain ⟨p₂, hp₂, ho₂, hc₂⟩ := h.payments n p hp
  obtain ⟨p₃, hp₃, ho₃, hc₃⟩ := h'.payments n p₂ hp₂
  refine ⟨p₃, hp₃, ho₃.trans ho₂, fun hc ↦ ?_⟩
  have heq := hc₂ hc
  rw [hc₃ (heq ▸ hc), heq]

namespace World

/-- Rows are numbered as they are inserted. -/
def Numbered (w : World) : Prop := w.payments.map (·.id) = List.range w.payments.length

theorem Numbered.getElem (h : w.Numbered) {i : ℕ} (hi : w.payments[i]? = some row) :
    row.id = i := Rows.Numbered.getElem h hi

theorem Numbered.payment_eq (h : w.Numbered) (id : ℕ) : w.payment id = w.payments[id]? :=
  Rows.Numbered.find_eq h id

theorem Numbered.payment_of_mem (h : w.Numbered) (hrow : row ∈ w.payments) :
    w.payment row.id = some row := Rows.Numbered.find_of_mem h hrow

theorem mem_of_payment (h : w.payment id = some row) : row ∈ w.payments ∧ row.id = id :=
  Rows.mem_of_find h

theorem numbered_updatePayment {f : PaymentRow → PaymentRow} (hf : ∀ row, (f row).id = row.id)
    (h : w.Numbered) : (w.updatePayment id f).Numbered := Rows.Numbered.update (fun row _ ↦ hf row) h

theorem payment_updatePayment {f : PaymentRow → PaymentRow} (hf : ∀ row, (f row).id = row.id)
    (i : ℕ) : (w.updatePayment id f).payment i =
      (w.payment i).map fun row ↦ if row.id = id then f row else row :=
  Rows.find_update (fun row _ ↦ hf row) i

theorem insertPayment_ok {p : NewPayment} (h : w.insertPayment p = .ok row) :
    row.id = w.payments.length ∧ row.kind = (p.bookingId, p.purpose) ∧ row.amount = p.amount ∧
      row.walletApplied = p.walletApplied ∧ row.provider = p.provider ∧
      row.idempotencyKey = p.idempotencyKey ∧ row.status = .pending ∧ row.gatewayRef = none ∧
      row.gatewayOrderRef = none := by
  unfold insertPayment at h
  split_ifs at h
  cases h
  exact ⟨rfl, rfl, rfl, rfl, rfl, rfl, rfl, rfl, rfl⟩

theorem createPayment_eq (w : World) (p : NewPayment) :
    w.createPayment p = w ∨ ∃ row, w.insertPayment p = .ok row ∧
      w.createPayment p = { w with payments := w.payments ++ [row] } := by
  unfold createPayment
  split
  · rename_i row h
    exact .inr ⟨row, h, rfl⟩
  · exact .inl rfl

theorem numbered_append (h : w.Numbered) (hid : row.id = w.payments.length) :
    ({ w with payments := w.payments ++ [row] } : World).Numbered := by
  simp [Numbered, hid, List.range_succ, show w.payments.map (·.id) = _ from h]

theorem payment_append (h : w.payment id = some row) :
    ({ w with payments := w.payments ++ [row'] } : World).payment id = some row := by
  unfold payment at h ⊢
  rw [List.find?_append, h]
  rfl

theorem payment_append_new (h : w.Numbered) (hid : row.id = w.payments.length) :
    ({ w with payments := w.payments ++ [row] } : World).payment row.id = some row := by
  have hn := numbered_append h hid
  rw [hn.payment_eq, hid]
  simp

/-- The rows of one state are still there in a later one. -/
def PaymentsGrow (w w' : World) : Prop :=
  ∀ id row, w.payment id = some row → ∃ row', w'.payment id = some row' ∧ RowGrows row row'

theorem PaymentsGrow.refl (w : World) : w.PaymentsGrow w := fun _ row h ↦ ⟨row, h, .refl row⟩

theorem PaymentsGrow.trans {w₁ w₂ w₃ : World} (h : w₁.PaymentsGrow w₂) (h' : w₂.PaymentsGrow w₃) :
    w₁.PaymentsGrow w₃ := by
  intro id row hrow
  obtain ⟨row₂, h₂, hg₂⟩ := h id row hrow
  obtain ⟨row₃, h₃, hg₃⟩ := h' id row₂ h₂
  exact ⟨row₃, h₃, hg₂.trans hg₃⟩

theorem paymentsGrow_update {f : PaymentRow → PaymentRow} (hf : ∀ row, RowGrows row (f row)) :
    w.PaymentsGrow (w.updatePayment id f) := by
  intro i row hrow
  rw [payment_updatePayment fun row ↦ (hf row).id, hrow]
  refine ⟨_, rfl, ?_⟩
  dsimp only
  split_ifs
  · exact hf row
  · exact .refl row

theorem capturedRow_grows {method : Option PaymentMethod} {ref : Option Ref}
    (h : row.status ≠ .captured) : RowGrows row (w.capturedRow row ref method) :=
  ⟨rfl, rfl, rfl, rfl, rfl, rfl, fun hc ↦ absurd hc h⟩

theorem markCaptured_grows (method : Option PaymentMethod) (ref : Option Ref) :
    w.PaymentsGrow (w.markCaptured id ref method) := by
  unfold markCaptured
  split_ifs
  · exact .refl w
  · apply paymentsGrow_update
    intro row
    split_ifs with hc
    · exact .refl row
    · exact capturedRow_grows hc

/-- No step but a refund's changes what a row or its capture has fixed. -/
theorem run_paymentsGrow (hl : ∀ id, l ≠ .applyRefund id) : w.PaymentsGrow (w.run l) := by
  by_cases ht : l.table = .payments
  · cases l with
    | createPayment p =>
      rcases createPayment_eq w p with heq | ⟨row', -, heq⟩
      · rw [run, heq]
        exact .refl w
      · rw [run, heq]
        exact fun id row hrow ↦ ⟨row, payment_append hrow, .refl row⟩
    | setOrderRef id ref =>
      simp only [run, setOrderRef]
      split_ifs
      · exact .refl w
      · exact paymentsGrow_update fun row ↦ ⟨rfl, rfl, rfl, rfl, rfl, rfl, fun h ↦ ⟨h, rfl⟩⟩
    | markCaptured id ref method on => exact markCaptured_grows method ref
    | markFailed id reason =>
      apply paymentsGrow_update
      intro row
      split_ifs with ho
      · refine ⟨rfl, rfl, rfl, rfl, rfl, rfl, fun hc ↦ ?_⟩
        simp [isOpen, hc] at ho
      · exact .refl row
    | applyRefund id => exact absurd rfl (hl id)
    | _ => cases ht
  · intro id row hrow
    refine ⟨row, ?_, .refl row⟩
    rw [payment, run_payments ht]
    exact hrow

theorem run_numbered (h : w.Numbered) : (w.run l).Numbered := by
  by_cases ht : l.table = .payments
  · cases l with
    | createPayment p =>
      rcases createPayment_eq w p with heq | ⟨row, hok, heq⟩
      · rwa [run, heq]
      · rw [run, heq]
        exact numbered_append h (insertPayment_ok hok).1
    | setOrderRef id ref =>
      simp only [run, setOrderRef]
      split_ifs
      · exact h
      · exact numbered_updatePayment (fun _ ↦ rfl) h
    | markCaptured id ref method on =>
      simp only [run, markCaptured]
      split_ifs
      · exact h
      · refine numbered_updatePayment (fun row ↦ ?_) h
        split_ifs <;> rfl
    | markFailed id reason =>
      refine numbered_updatePayment (fun row ↦ ?_) h
      split_ifs <;> rfl
    | applyRefund id => exact numbered_updatePayment (fun _ ↦ rfl) h
    | _ => cases ht
  · unfold Numbered
    rw [run_payments ht]
    exact h

theorem run_gatewayGrows (w : World) (l : Step) : GatewayGrows w.gateway (w.run l).gateway := by
  by_cases ht : l.table = .gateway
  · cases l with
    | createOrder o =>
      simp only [run, Gateway.createOrder]
      split_ifs
      · refine ⟨fun i x hx ↦ ?_, fun _ p h ↦ ⟨p, h, rfl, fun _ ↦ rfl⟩⟩
        rw [List.getElem?_append_left (List.getElem?_eq_some_iff.mp hx).1]
        exact hx
      · exact .refl _
    | gatewayRefund r =>
      simp only [run, Gateway.refund]
      split_ifs <;> exact ⟨fun _ _ h ↦ h, fun _ p h ↦ ⟨p, h, rfl, fun _ ↦ rfl⟩⟩
    | gatewayUp up => exact ⟨fun _ _ h ↦ h, fun _ p h ↦ ⟨p, h, rfl, fun _ ↦ rfl⟩⟩
    | gatewayAttempt p =>
      simp only [run, Gateway.attempt]
      split_ifs
      · exact .refl _
      · refine ⟨fun _ _ h ↦ h, fun n q hq ↦ ⟨q, ?_, rfl, fun _ ↦ rfl⟩⟩
        rw [List.getElem?_append_left (List.getElem?_eq_some_iff.mp hq).1]
        exact hq
    | gatewayFinish n status =>
      simp only [run, Gateway.finish]
      split
      · exact .refl _
      · rename_i p hp
        split_ifs with hst
        · exact .refl _
        · refine ⟨fun _ _ h ↦ h, fun m q hq ↦ ?_⟩
          by_cases hm : m = n
          · subst hm
            cases hp.symm.trans hq
            refine ⟨_, List.getElem?_set_self (List.getElem?_eq_some_iff.mp hp).1, rfl,
              fun hc ↦ absurd (.inl hc) hst⟩
          · exact ⟨q, by rw [List.getElem?_set_ne (Ne.symm hm)]; exact hq, rfl, fun _ ↦ rfl⟩
    | _ => cases ht
  · rw [run_gateway ht]
    exact .refl _

/-- What a reference stands for: the kind of its order, or of the row it was made from. -/
def refKind (w : World) : Ref → Option Kind
  | .order o => w.gateway.orders[o]?.map fun x ↦ (x.bookingId, x.purpose)
  | .pay n => (w.gateway.payments[n]?.bind fun p ↦ w.gateway.orders[p.order]?).map fun x ↦
      (x.bookingId, x.purpose)
  | .cash id => (w.payment id).map (·.kind)
  | .wallet id => (w.payment id).map (·.kind)
  | .refund _ => none

theorem refKind_grows {k : Kind} (hp : w.PaymentsGrow w')
    (hg : GatewayGrows w.gateway w'.gateway) (h : w.refKind ref = some k) :
    w'.refKind ref = some k := by
  cases ref with
  | order o =>
    obtain ⟨x, hx, rfl⟩ := Option.map_eq_some_iff.mp h
    simp [refKind, hg.orders o x hx]
  | pay n =>
    obtain ⟨x, hx, rfl⟩ := Option.map_eq_some_iff.mp h
    obtain ⟨p, hp', hx⟩ := Option.bind_eq_some_iff.mp hx
    obtain ⟨p', hp'', hord, -⟩ := hg.payments n p hp'
    simp [refKind, hp'', hord, hg.orders _ x hx]
  | cash id | wallet id =>
    obtain ⟨row, hrow, rfl⟩ := Option.map_eq_some_iff.mp h
    obtain ⟨row', hrow', hgrow⟩ := hp id row hrow
    simp [refKind, hrow', hgrow.kind]
  | refund n => cases h

end World

/-- Only an insert brings a row. -/
theorem payment_of_run {l : Step} (h : w.payment id = none) (hrow : (w.run l).payment id = some row) :
    ∃ p, l = .createPayment p ∧ w.insertPayment p = .ok row := by
  have hmap {f : PaymentRow → PaymentRow} {i : ℕ}
      (hrow : (w.updatePayment i f).payment id = some row) (hf : ∀ row, (f row).id = row.id) :
      False := by
    rw [World.payment_updatePayment hf, h] at hrow
    cases hrow
  by_cases ht : l.table = .payments
  · cases l with
    | createPayment p =>
      rcases World.createPayment_eq w p with heq | ⟨row', hok, heq⟩
      · rw [World.run, heq, h] at hrow
        cases hrow
      · rw [World.run, heq, World.payment, List.find?_append, ← World.payment, h] at hrow
        have := List.mem_of_find?_eq_some hrow
        cases List.mem_singleton.mp this
        exact ⟨p, rfl, hok⟩
    | setOrderRef i ref =>
      simp only [World.run, World.setOrderRef] at hrow
      split_ifs at hrow
      · rw [h] at hrow
        cases hrow
      · exact (hmap hrow fun _ ↦ rfl).elim
    | markCaptured i ref method on =>
      simp only [World.run, World.markCaptured] at hrow
      split_ifs at hrow
      · rw [h] at hrow
        cases hrow
      · refine (hmap hrow fun row ↦ ?_).elim
        split_ifs <;> rfl
    | markFailed i reason =>
      refine (hmap hrow fun row ↦ ?_).elim
      split_ifs <;> rfl
    | applyRefund i =>
      simp only [World.run, World.applyRefund] at hrow
      exact (hmap hrow fun _ ↦ rfl).elim
    | _ => cases ht
  · rw [World.payment, World.run_payments ht, ← World.payment, h] at hrow
    cases hrow

end Towing.Money
