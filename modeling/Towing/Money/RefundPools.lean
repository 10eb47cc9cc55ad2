import Towing.Money.Frames
import Towing.Money.RefundsService
import Towing.Process.Workers

namespace Towing.Money

open Towing.Db Towing.Process RefundsService

/-- The refund requests, and what else moves while they run. -/
inductive RefundCall
  | full (p : RefundBooking)
  | part (p : RefundPartial)
  | confirm (ref : Ref)
  | gatewayUp (up : Bool)
  | tick (ms : ℕ)

namespace RefundCall

def key (env : Env) : RefundCall → Option RefundKey
  | full p => some (refundKey env p)
  | part p => some (keyFromSource env p.bookingId .part p.keySource)
  | _ => none

def request (env : Env) : RefundCall → Request Unit
  | full p => (refundBooking env p).ignore
  | part p => (refundPartial env p).ignore
  | confirm ref => Proc.write (.refundConfirmed ref)
  | gatewayUp up => Proc.write (.gatewayUp up)
  | tick ms => Proc.write (.tick ms)

end RefundCall

namespace World

/-- A key's refund row: its id, and whether it has failed. -/
def refundState (w : World) (k : RefundKey) : Option (ℕ × Bool) :=
  (w.refunds.find? (·.idempotencyKey = k)).map fun r ↦ (r.id, decide (r.status = .failed))

def poolsOf (w : World) (id : ℕ) : Option (ℤ × ℤ) :=
  (w.payment id).map fun row ↦ (gatewayPool row, walletPool row)

/-- No refund has taken more from a payment's pools than was in them. -/
def WithinPools (w : World) : Prop :=
  ∀ row ∈ w.payments, w.refundedGateway row.id ≤ gatewayPool row ∧
    w.refundedWallet row.id ≤ walletPool row

structure Refundable (w : World) : Prop where
  paymentIds : (w.payments.map (·.id)).Nodup
  keys : (w.refunds.map (·.idempotencyKey)).Nodup
  ids : w.refunds.map (·.id) = List.range w.refunds.length
  nonneg : ∀ r ∈ w.refunds, 0 ≤ r.gatewayAmount ∧ 0 ≤ r.walletAmount
  pools : w.WithinPools

end World

/-- What a refund row keeps when its status moves on. -/
structure Revises (r r' : RefundRow) : Prop where
  id : r'.id = r.id
  key : r'.idempotencyKey = r.idempotencyKey
  payment : r'.paymentId = r.paymentId
  gateway : r'.gatewayAmount = r.gatewayAmount
  wallet : r'.walletAmount = r.walletAmount
  status : r'.status ≠ .failed → r.status ≠ .failed

theorem Revises.refl (r : RefundRow) : Revises r r := ⟨rfl, rfl, rfl, rfl, rfl, fun h ↦ h⟩

variable {w : World} {g : RefundRow → RefundRow} {k : RefundKey} {id : ℕ}

theorem sum_refunds_le {rs : List RefundRow} (hg : ∀ r ∈ rs, Revises r (g r))
    (amount : RefundRow → ℤ) (ha : ∀ r ∈ rs, amount (g r) = amount r ∧ 0 ≤ amount r) :
    (((rs.map g).filter fun r ↦ r.paymentId = id && r.status ≠ .failed).map amount).sum ≤
      ((rs.filter fun r ↦ r.paymentId = id && r.status ≠ .failed).map amount).sum := by
  induction rs with
  | nil => simp
  | cons r rs ih =>
    have hrest := ih (fun r hr ↦ hg r (List.mem_cons_of_mem _ hr))
      (fun r hr ↦ ha r (List.mem_cons_of_mem _ hr))
    simp only [ne_eq] at hrest
    have hr := hg r List.mem_cons_self
    obtain ⟨heq, hpos⟩ := ha r List.mem_cons_self
    by_cases hid : r.paymentId = id
    · by_cases hgr : (g r).status = .failed
      · by_cases hst : r.status = .failed
        · simpa [hgr, hst] using hrest
        · simp only [List.map_cons, List.filter_cons, hr.payment, hid, hgr, hst, ne_eq,
            not_true_eq_false, not_false_eq_true, decide_true, decide_false, Bool.and_false,
            Bool.and_true, Bool.false_eq_true, if_false, if_true, List.sum_cons]
          omega
      · have hst := hr.status hgr
        simp only [List.map_cons, List.filter_cons, hr.payment, hid, hgr, hst, ne_eq,
          not_false_eq_true, decide_true, Bool.and_true, if_true, List.sum_cons, heq]
        omega
    · simpa [hr.payment, hid] using hrest

namespace World

theorem Refundable.revise (h : w.Refundable) (hg : ∀ r ∈ w.refunds, Revises r (g r)) :
    ({ w with refunds := w.refunds.map g } : World).Refundable where
  paymentIds := h.paymentIds
  keys := by
    have : (w.refunds.map g).map (·.idempotencyKey) = w.refunds.map (·.idempotencyKey) := by
      simpa using fun r hr ↦ (hg r hr).key
    rw [this]
    exact h.keys
  ids := by
    have : (w.refunds.map g).map (·.id) = w.refunds.map (·.id) := by
      simpa using fun r hr ↦ (hg r hr).id
    simp only [this, List.length_map]
    exact h.ids
  nonneg r' hr' := by
    obtain ⟨r, hr, rfl⟩ := List.mem_map.mp hr'
    rw [(hg r hr).gateway, (hg r hr).wallet]
    exact h.nonneg r hr
  pools row hrow := by
    obtain ⟨hgw, hwl⟩ := h.pools row hrow
    refine ⟨le_trans ?_ hgw, le_trans ?_ hwl⟩
    · exact sum_refunds_le hg (·.gatewayAmount) fun r hr ↦ ⟨(hg r hr).gateway, (h.nonneg r hr).1⟩
    · exact sum_refunds_le hg (·.walletAmount) fun r hr ↦ ⟨(hg r hr).wallet, (h.nonneg r hr).2⟩

theorem refundState_revise (hg : ∀ r ∈ w.refunds, Revises r (g r)) (k : RefundKey) :
    ({ w with refunds := w.refunds.map g } : World).refundState k =
      (w.refunds.find? (·.idempotencyKey = k)).map fun r ↦
        ((g r).id, decide ((g r).status = .failed)) := by
  have hfind : (w.refunds.map g).find? (·.idempotencyKey = k) =
      (w.refunds.find? (·.idempotencyKey = k)).map g := by
    rw [List.find?_map]
    congr 1
    apply List.find?_congr
    intro r hr
    simp [(hg r hr).key]
  rw [refundState, hfind, Option.map_map]
  rfl

theorem mem_of_refundState {b : Bool} (h : w.refundState k = some (id, b)) :
    ∃ r ∈ w.refunds, r.idempotencyKey = k ∧ r.id = id ∧ decide (r.status = .failed) = b := by
  obtain ⟨r, hr, heq⟩ := Option.map_eq_some_iff.mp h
  obtain ⟨rfl, rfl⟩ := Prod.mk.inj heq
  have hk := List.find?_some hr
  exact ⟨r, List.mem_of_find?_eq_some hr, by simpa using hk, rfl, rfl⟩

theorem Refundable.eq_of_id (h : w.Refundable) {r r' : RefundRow} (hr : r ∈ w.refunds)
    (hr' : r' ∈ w.refunds) (heq : r.id = r'.id) : r = r' := by
  have hnd : (w.refunds.map (·.id)).Nodup := by
    rw [h.ids]
    exact List.nodup_range
  exact List.inj_on_of_nodup_map hnd hr hr' heq

theorem Refundable.payment_of_mem (h : w.Refundable) {row : PaymentRow} (hrow : row ∈ w.payments) :
    w.payment row.id = some row := by
  cases hp : w.payment row.id with
  | none => simpa using List.find?_eq_none.mp hp row hrow
  | some row' =>
    have hid : row'.id = row.id := by simpa using List.find?_some hp
    have hmem : row' ∈ w.payments := List.mem_of_find?_eq_some hp
    exact congrArg some (List.inj_on_of_nodup_map h.paymentIds hmem hrow hid)

theorem refundedGateway_insert (r : NewRefund) (id : ℕ) :
    ({ w with refunds := w.refunds ++ [w.newRefund r] } : World).refundedGateway id =
      w.refundedGateway id + if r.paymentId = id then r.gatewayAmount else 0 := by
  by_cases h : r.paymentId = id <;>
    simp [refundedGateway, refundsOf, newRefund, List.filter_append, h]

theorem refundedWallet_insert (r : NewRefund) (id : ℕ) :
    ({ w with refunds := w.refunds ++ [w.newRefund r] } : World).refundedWallet id =
      w.refundedWallet id + if r.paymentId = id then r.walletAmount else 0 := by
  by_cases h : r.paymentId = id <;>
    simp [refundedWallet, refundsOf, newRefund, List.filter_append, h]

theorem insertRefund_some {r : NewRefund} (h : w.insertRefund r = .ok (some id)) :
    id = w.refunds.length ∧ 0 ≤ r.gatewayAmount ∧ 0 ≤ r.walletAmount ∧
      ∀ r' ∈ w.refunds, r'.idempotencyKey ≠ r.idempotencyKey := by
  unfold insertRefund at h
  split_ifs at h with h₁ h₂ h₃ h₄
  · cases Except.ok.inj h
  have hid := Option.some.inj (Except.ok.inj h)
  push Not at h₂
  refine ⟨hid.symm, ?_⟩
  exact ⟨h₂.1, h₂.2.1, by simpa using h₄⟩

theorem createRefund_eq (r : NewRefund) : w.createRefund r = w ∨
    (∃ id, w.insertRefund r = .ok (some id)) ∧
      w.createRefund r = { w with refunds := w.refunds ++ [w.newRefund r] } := by
  unfold createRefund
  split
  · rename_i id h
    exact .inr ⟨⟨id, h⟩, rfl⟩
  · exact .inl rfl

end World

def insertion : Step → Option (NewRefund × (ℤ × ℤ))
  | .insertRefund r seen => some (r, seen)
  | _ => none

/-- The statement that takes a refund out of the pools finds there what the
request read. -/
def ReadCurrent (l : Step) (w : World) : Prop :=
  ∀ x ∈ insertion l, x.2 = (w.refundedGateway x.1.paymentId, w.refundedWallet x.1.paymentId)

instance (l : Step) (w : World) : Decidable (ReadCurrent l w) :=
  inferInstanceAs (Decidable (∀ x ∈ insertion l, _))

/-- What a request promises of its steps, `k` being the key it was given. -/
inductive RefundStep (k : Option RefundKey) : Step → World → Prop
  | insert {r : NewRefund} {seen pools : ℤ × ℤ} {w : World} (hk : k = some r.idempotencyKey)
      (hp : w.poolsOf r.paymentId = some pools) (hg : r.gatewayAmount ≤ pools.1 - seen.1)
      (hw : r.walletAmount ≤ pools.2 - seen.2 ∨ r.walletAmount ≤ 0) :
      RefundStep k (.insertRefund r seen) w
  | answered {k' : RefundKey} {id : ℕ} {status : RefundStatus} {ref : Ref} {w : World}
      (hk : k = some k') (hw : w.refundState k' = some (id, false)) (hs : status ≠ .failed) :
      RefundStep k (.refundAnswered id status ref) w
  | failed {k' : RefundKey} {id : ℕ} {reason : String} {w : World}
      (hk : k = some k') (hw : w.refundState k' = some (id, false)) :
      RefundStep k (.refundFailed id reason) w
  | processed {k' : RefundKey} {id : ℕ} {w : World} (hk : k = some k')
      (hw : w.refundState k' = some (id, false)) : RefundStep k (.refundProcessed id) w
  | confirmed {ref : Ref} {w : World} : RefundStep k (.refundConfirmed ref) w
  | applied {id : ℕ} {w : World} : RefundStep k (.applyRefund id) w
  | other {l : Step} {w : World} (hp : l.table ≠ .payments) (hr : l.table ≠ .refunds) :
      RefundStep k l w

/-- A request that inserts the row of `k`, or none, against others that leave
that row alone. -/
def refunding (env : Env) (calls : ℕ → RefundCall) : Shared ℕ Step World where
  inv := World.Refundable
  cond := ReadCurrent
  rely i w w' := (∀ k, (calls i).key env = some k → w'.refundState k = w.refundState k) ∧
    ∀ id, w'.poolsOf id = w.poolsOf id
  guar i := RefundStep ((calls i).key env)


variable {env : Env} {calls : ℕ → RefundCall}

theorem revises_update {f : RefundRow → RefundRow} {r : RefundRow}
    (hf : r.id = id → Revises r (f r)) : Revises r (if r.id = id then f r else r) := by
  split_ifs with h
  · exact hf h
  · exact .refl r

theorem World.Refundable.updateRefund (h : w.Refundable) {f : RefundRow → RefundRow}
    (hf : ∀ r ∈ w.refunds, r.id = id → Revises r (f r)) : (w.updateRefund id f).Refundable :=
  h.revise fun r hr ↦ revises_update (hf r hr)

theorem revises_confirmed (ref : Ref) (now : ℕ) (r : RefundRow) :
    Revises r (if r.gatewayRef = some ref ∧ r.status = .pending then
      { r with status := .processed, processedAt := some now, updatedAt := now } else r) := by
  split_ifs with h
  · refine ⟨rfl, rfl, rfl, rfl, rfl, fun _ ↦ ?_⟩
    rw [h.2]
    decide
  · exact .refl r

/-- The row of a worker's own key is the one its id names. -/
theorem own_row (h : w.Refundable) (hw : w.refundState k = some (id, false)) {r : RefundRow}
    (hr : r ∈ w.refunds) (hid : r.id = id) : r.idempotencyKey = k ∧ r.status ≠ .failed := by
  obtain ⟨r', hr', rfl, hid', hst⟩ := World.mem_of_refundState hw
  cases h.eq_of_id hr hr' (hid.trans hid'.symm)
  exact ⟨rfl, by simpa using hst⟩

theorem refundable_insert (h : w.Refundable) {r : NewRefund} {seen pools : ℤ × ℤ}
    (hseen : seen = (w.refundedGateway r.paymentId, w.refundedWallet r.paymentId))
    (hp : w.poolsOf r.paymentId = some pools) (hg : r.gatewayAmount ≤ pools.1 - seen.1)
    (hw : r.walletAmount ≤ pools.2 - seen.2 ∨ r.walletAmount ≤ 0) :
    (w.createRefund r).Refundable := by
  rcases World.createRefund_eq (w := w) r with heq | ⟨⟨id, hok⟩, heq⟩
  · rwa [heq]
  · obtain ⟨rfl, hgn, hwn, hkey⟩ := World.insertRefund_some hok
    rw [heq]
    refine ⟨h.paymentIds, ?_, ?_, ?_, ?_⟩
    · rw [List.map_append, List.nodup_append]
      exact ⟨h.keys, by simp, by simpa [World.newRefund] using hkey⟩
    · simp [h.ids, World.newRefund, List.range_succ]
    · intro r' hr'
      rcases List.mem_append.mp hr' with hr' | hr'
      · exact h.nonneg r' hr'
      · cases List.mem_singleton.mp hr'
        exact ⟨hgn, hwn⟩
    · intro row hrow
      obtain ⟨hgw, hwl⟩ := h.pools row hrow
      rw [World.refundedGateway_insert, World.refundedWallet_insert]
      split_ifs with hid
      · rw [hid, World.poolsOf, h.payment_of_mem hrow] at hp
        obtain ⟨rfl⟩ := Option.some.inj hp
        subst hseen
        dsimp only at hg hw
        rw [hid] at hg hw
        constructor <;> omega
      · simpa using And.intro hgw hwl

theorem applyRefund_pools (id id' : ℕ) : (w.applyRefund id).poolsOf id' = w.poolsOf id' := by
  unfold World.poolsOf World.payment World.applyRefund World.updatePayment
  rw [List.find?_map]
  have hfun : ((fun row : PaymentRow ↦ decide (row.id = id')) ∘ fun row ↦
      if row.id = id then { row with
        refundedAmount := min row.amount (w.refundedGateway id)
        status := if World.gatewayPool row ≤ w.refundedGateway id ∧
          World.walletPool row ≤ w.refundedWallet id then .refunded else row.status
        updatedAt := w.now } else row) = fun row ↦ decide (row.id = id') := by
    funext row
    dsimp only [Function.comp]
    split_ifs <;> rfl
  rw [hfun, Option.map_map]
  congr 1
  funext row
  dsimp only [Function.comp]
  split_ifs <;> rfl

theorem refundable_applyRefund (h : w.Refundable) : (w.applyRefund id).Refundable := by
  refine ⟨?_, h.keys, h.ids, h.nonneg, ?_⟩
  · have : (w.applyRefund id).payments.map (·.id) = w.payments.map (·.id) := by
      simp only [World.applyRefund, World.updatePayment, List.map_map]
      apply List.map_congr_left
      intro row _
      dsimp only [Function.comp]
      split_ifs <;> rfl
    rw [this]
    exact h.paymentIds
  · intro row' hrow'
    obtain ⟨row, hrow, rfl⟩ := List.mem_map.mp hrow'
    have hp := h.pools row hrow
    split_ifs <;> exact hp

theorem refundState_insert {r : NewRefund} (hne : r.idempotencyKey ≠ k) :
    (w.createRefund r).refundState k = w.refundState k := by
  rcases World.createRefund_eq (w := w) r with heq | ⟨-, heq⟩
  · rw [heq]
  · rw [heq, World.refundState, World.refundState]
    simp [List.find?_append, World.newRefund, hne]

/-- A step on the row of one key leaves the rows of the others alone. -/
theorem others_state (h : w.Refundable) {f : RefundRow → RefundRow} {k' : RefundKey}
    (hf : ∀ r, (f r).idempotencyKey = r.idempotencyKey)
    (hw : w.refundState k = some (id, false)) (hne : k ≠ k') :
    (w.updateRefund id f).refundState k' = w.refundState k' := by
  have hkey : ((fun r : RefundRow ↦ decide (r.idempotencyKey = k')) ∘ fun r ↦
      if r.id = id then f r else r) = fun r ↦ decide (r.idempotencyKey = k') := by
    funext r
    dsimp only [Function.comp]
    split_ifs
    · rw [hf]
    · rfl
  unfold World.refundState World.updateRefund
  rw [List.find?_map, hkey, Option.map_map]
  cases hr : w.refunds.find? (·.idempotencyKey = k') with
  | none => rfl
  | some r =>
    have hid : r.id ≠ id := by
      intro hid
      have hk := (own_row h hw (List.mem_of_find?_eq_some hr) hid).1
      have hk' : r.idempotencyKey = k' := by simpa using List.find?_some hr
      exact hne (hk.symm.trans hk')
    simp [hid]

theorem refundState_confirmed (k : RefundKey) {ref : Ref} :
    (w.run (.refundConfirmed ref)).refundState k = w.refundState k := by
  have hg : ∀ r ∈ w.refunds, Revises r (if r.gatewayRef = some ref ∧ r.status = .pending then
      { r with status := .processed, processedAt := some w.now, updatedAt := w.now } else r) :=
    fun r _ ↦ revises_confirmed ref w.now r
  refine (World.refundState_revise hg k).trans ?_
  rw [World.refundState]
  congr 1
  funext r
  split_ifs with hp
  · simp [hp.2]
  · rfl

theorem refunding_sound
    (hkeys : ∀ i j k, (calls i).key env = some k → (calls j).key env = some k → i = j) :
    (refunding env calls).Sound where
  refl i w := ⟨fun _ _ ↦ rfl, fun _ ↦ rfl⟩
  trans i s t u h h' :=
    ⟨fun k hk ↦ (h'.1 k hk).trans (h.1 k hk), fun id ↦ (h'.2 id).trans (h.2 id)⟩
  inv_commit i l w h hc hg := by
    change (w.run l).Refundable
    cases hg with
    | @insert r seen pools _ hk hp hg hw => exact refundable_insert h (hc (r, seen) rfl) hp hg hw
    | @answered k id status ref _ hk hw hs =>
      refine h.updateRefund fun r hr hid ↦ ⟨rfl, rfl, rfl, rfl, rfl, fun _ ↦ ?_⟩
      exact (own_row h hw hr hid).2
    | failed hk hw =>
      exact h.updateRefund fun r _ _ ↦ ⟨rfl, rfl, rfl, rfl, rfl, fun hst ↦ absurd rfl hst⟩
    | @processed k id _ hk hw =>
      refine h.updateRefund fun r hr hid ↦ ⟨rfl, rfl, rfl, rfl, rfl, fun _ ↦ ?_⟩
      exact (own_row h hw hr hid).2
    | confirmed => exact h.revise fun r _ ↦ revises_confirmed _ _ r
    | applied => exact refundable_applyRefund h
    | other hp hr =>
      obtain ⟨h₁, h₂, h₃, h₄, h₅⟩ := h
      refine ⟨?_, ?_, ?_, ?_, ?_⟩ <;>
        simpa only [World.WithinPools, World.refundedGateway, World.refundedWallet,
          World.refundsOf, World.run_payments hp, World.run_refunds hr]
  rely_commit i j l w hij h hc hg := by
    change (∀ k, (calls j).key env = some k → (w.run l).refundState k = w.refundState k) ∧
      ∀ id, (w.run l).poolsOf id = w.poolsOf id
    cases hg with
    | @insert r seen pools _ hk hp hg hw =>
      refine ⟨fun k hkj ↦ ?_, fun id ↦ ?_⟩
      · have hne : r.idempotencyKey ≠ k := by
          rintro rfl
          exact hij (hkeys i j _ hk hkj)
        exact refundState_insert hne
      · have hp : (Step.insertRefund r seen).table ≠ .payments := by simp [Step.table]
        rw [World.poolsOf, World.payment, World.run_payments hp, World.poolsOf, World.payment]
    | @answered k id status ref _ hk hw hs =>
      refine ⟨fun k' hk' ↦ others_state h (fun _ ↦ rfl) hw ?_, fun _ ↦ rfl⟩
      rintro rfl
      exact hij (hkeys i j _ hk hk')
    | @failed k id reason _ hk hw =>
      refine ⟨fun k' hk' ↦ others_state h (fun _ ↦ rfl) hw ?_, fun _ ↦ rfl⟩
      rintro rfl
      exact hij (hkeys i j _ hk hk')
    | @processed k id _ hk hw =>
      refine ⟨fun k' hk' ↦ others_state h (fun _ ↦ rfl) hw ?_, fun _ ↦ rfl⟩
      rintro rfl
      exact hij (hkeys i j _ hk hk')
    | confirmed => exact ⟨fun k _ ↦ refundState_confirmed k, fun _ ↦ rfl⟩
    | applied => exact ⟨fun _ _ ↦ rfl, applyRefund_pools _⟩
    | other hp hr =>
      refine ⟨fun k _ ↦ ?_, fun id ↦ ?_⟩
      · rw [World.refundState, World.run_refunds hr, World.refundState]
      · rw [World.poolsOf, World.payment, World.run_payments hp, World.poolsOf, World.payment]

/-- The steps that touch no refund and no pool. -/
def Quiet (l : Step) : Prop :=
  (l.table ≠ .payments ∧ l.table ≠ .refunds) ∨ ∃ id, l = .applyRefund id

theorem quiet_of_table {l : Step} (hp : l.table ≠ .payments) (hr : l.table ≠ .refunds) : Quiet l :=
  .inl ⟨hp, hr⟩

theorem quiet_select {q : Select} : Quiet (.select q) := quiet_of_table (by simp [Step.table])
  (by simp [Step.table])

theorem quiet_ledgerPost (legs : List (LedgerLeg LedgerKey)) : (ledgerPost legs).Only Quiet := by
  simp [ledgerPost, Quiet, Step.table]

theorem quiet_creditWallet (b id : ℕ) (x : ℤ) : (creditWallet b id x).Only Quiet := by
  refine Proc.Only.bind ⟨quiet_select, fun _ ↦ trivial⟩ fun booking ↦ ?_
  cases booking with
  | none => trivial
  | some booking => exact (quiet_ledgerPost _).ignore

theorem quiet_settlementCredits (b : ℕ) : (settlementCredits env b).Only Quiet :=
  ⟨quiet_select, fun _ ↦ trivial⟩

theorem quiet_reversedByOwner (b : ℕ) : (reversedByOwner b).Only Quiet :=
  ⟨quiet_select, fun _ ↦ trivial⟩

theorem quiet_reverseLedger (b id : ℕ) : (reverseLedger env b id).Only Quiet := by
  refine (quiet_settlementCredits b).bind fun credits ↦ ?_
  split
  · trivial
  · exact (quiet_reversedByOwner b).bind fun _ ↦ (quiet_ledgerPost _).ignore

theorem quiet_clawback (b id : ℕ) (share : ℤ) (cause : Option RefundCause) :
    (clawback env b id share cause).Only Quiet := by
  unfold clawback
  split
  · trivial
  · refine (quiet_reversedByOwner b).bind fun reversed ↦
      (quiet_settlementCredits b).bind fun credits ↦ ?_
    dsimp only
    split
    · trivial
    · exact (quiet_ledgerPost _).ignore.when

theorem quiet_land (b : ℕ) (target : Option BookingStatus) : (land b target).Only Quiet := by
  cases target with
  | none => trivial
  | some target =>
    exact ⟨quiet_of_table (by simp [Step.table]) (by simp [Step.table]), fun _ ↦ trivial⟩

variable {i : ℕ} {s : World} {v : Option (ℕ × Bool)}

theorem meets_quiet {α : Type} {p : Request α} (hk : (calls i).key env = some k)
    (hp : p.Only Quiet) (hs : s.refundState k = v) :
    ((refunding env calls).contract i).Meets (fun _ t ↦ t.refundState k = v) p s := by
  refine Contract.Meets.of_only hp ?_ (fun s t hst hs ↦ (hst.1 k hk).trans hs) hs
  intro l t hl _ _ ht
  rcases hl with ⟨hp, hr⟩ | ⟨id, rfl⟩
  · refine ⟨.other hp hr, ?_⟩
    change (t.run l).refundState k = v
    rw [← ht, World.refundState, World.run_refunds hr, World.refundState]
  · exact ⟨.applied, ht⟩

theorem own_state {f : RefundRow → RefundRow}
    (hf : ∀ r, (f r).id = r.id ∧ (f r).idempotencyKey = r.idempotencyKey ∧ (f r).status ≠ .failed)
    (hw : w.refundState k = some (id, false)) :
    (w.updateRefund id f).refundState k = some (id, false) := by
  have hkey : ((fun r : RefundRow ↦ decide (r.idempotencyKey = k)) ∘ fun r ↦
      if r.id = id then f r else r) = fun r ↦ decide (r.idempotencyKey = k) := by
    funext r
    dsimp only [Function.comp]
    split_ifs
    · rw [(hf r).2.1]
    · rfl
  obtain ⟨r, hr, heq⟩ := Option.map_eq_some_iff.mp hw
  have hid : r.id = id := (Prod.mk.inj heq).1
  unfold World.refundState World.updateRefund
  rw [List.find?_map, hkey, hr]
  simp [hid, hf r]

theorem own_answered {status : RefundStatus} {ref : Ref} (hs : status ≠ .failed)
    (hw : w.refundState k = some (id, false)) :
    (w.run (.refundAnswered id status ref)).refundState k = some (id, false) :=
  own_state (fun _ ↦ ⟨rfl, rfl, hs⟩) hw

theorem own_processed (hw : w.refundState k = some (id, false)) :
    (w.run (.refundProcessed id)).refundState k = some (id, false) :=
  own_state (fun _ ↦ ⟨rfl, rfl, by simp⟩) hw

theorem meets_callGateway {k' : RefundKey} {ref : Option Ref} {x : ℤ}
    (hk : (calls i).key env = some k) (hs : s.refundState k = some (id, false)) :
    ((refunding env calls).contract i).Meets
      (fun r t ↦ r = .ok () → t.refundState k = some (id, false)) (callGateway id k' ref x) s := by
  have own : ∀ u t, (refunding env calls).rely i u t → u.refundState k = some (id, false) →
      t.refundState k = some (id, false) := fun u t h hu ↦ (h.1 k hk).trans hu
  unfold callGateway
  split_ifs
  · exact fun _ ↦ hs
  · cases ref with
    | none => exact fun _ ↦ hs
    | some ref =>
      dsimp only
      split_ifs
      · exact fun _ ↦ hs
      · rw [Proc.tryCatch_eq, Contract.meets_handle, Proc.bind_eq, Contract.meets_bind]
        intro t hst _ _
        have ht := own s t hst hs
        have hst' : ((Step.gatewayRefund ⟨k', ref, x⟩).table ≠ .refunds) := by simp [Step.table]
        have ht' : (t.run (.gatewayRefund ⟨k', ref, x⟩)).refundState k = some (id, false) := by
          rw [← ht, World.refundState, World.run_refunds hst', World.refundState]
        refine ⟨.other (by simp [Step.table]) hst', ?_⟩
        dsimp only
        rw [Contract.meets_done]
        by_cases hup : t.gateway.up
        · rw [if_pos hup]
          intro u htu _ _
          have hu := own _ u htu ht'
          have hne : (if t.gateway.refundReply = .processed then RefundStatus.processed else .pending) ≠
              .failed := by split_ifs <;> decide
          exact ⟨.answered hk hu hne, fun _ ↦ own_answered hne hu⟩
        · rw [if_neg hup]
          intro u htu _ _
          exact ⟨.failed hk (own _ u htu ht'), fun h ↦ by cases h⟩

theorem meets_markProcessed (hk : (calls i).key env = some k)
    (hs : s.refundState k = some (id, false)) :
    ((refunding env calls).contract i).Meets
      (fun _ t ↦ t.refundState k = some (id, false)) (markProcessed id) s := by
  intro t hst _ _
  have ht : t.refundState k = some (id, false) := (hst.1 k hk).trans hs
  exact ⟨.processed hk ht, own_processed ht⟩


theorem meets_finishFull {p : RefundBooking} {captured : PaymentRow} {g x : ℤ}
    (hk : (calls i).key env = some k) (hs : s.refundState k = some (id, false)) :
    ((refunding env calls).contract i).Meets (fun _ _ ↦ True)
      (finishFull env p captured id g x) s := by
  refine (meets_callGateway hk hs).bind (fun _ t ht ↦ ?_) fun _ _ _ ↦ trivial
  refine (meets_quiet hk (quiet_creditWallet _ _ _).when (ht rfl)).bind (fun _ t ht ↦ ?_)
    fun _ _ _ ↦ trivial
  have hmark := Contract.Meets.when (q := g = 0) (fun _ ↦ meets_markProcessed (i := i) hk ht) fun _ ↦ ht
  refine hmark.bind (fun _ t ht ↦ ?_) fun _ _ _ ↦ trivial
  have hrest : (do
      reverseLedger env p.bookingId id
      land p.bookingId p.transitionTo
      Proc.write (.releaseCoupon p.bookingId)
      Proc.write (.applyRefund captured.id)
      pure (⟨id, false, 0⟩ : RefundOutcome) : Request RefundOutcome).Only Quiet := by
    refine (quiet_reverseLedger _ _).bind fun _ ↦ (quiet_land _ _).bind fun _ ↦ ?_
    refine Proc.Only.bind ?_ fun _ ↦ Proc.Only.bind ?_ fun _ ↦ trivial
    · simp [Quiet, Step.table]
    · simp [Quiet]
  exact (meets_quiet hk hrest ht).mono fun _ _ _ ↦ trivial

theorem meets_finishPartial {p : RefundPartial} {captured : PaymentRow} {g x share : ℤ}
    (hk : (calls i).key env = some k) (hs : s.refundState k = some (id, false)) :
    ((refunding env calls).contract i).Meets (fun _ _ ↦ True)
      (finishPartial env p captured id g x share) s := by
  refine (meets_callGateway hk hs).bind (fun _ t ht ↦ ?_) fun _ _ _ ↦ trivial
  refine (meets_quiet hk (quiet_creditWallet _ _ _).when (ht rfl)).bind (fun _ t ht ↦ ?_)
    fun _ _ _ ↦ trivial
  have hmark := Contract.Meets.when (q := (deliveredSplit p.terms.delivery g x).1 = 0)
    (fun _ ↦ meets_markProcessed (i := i) hk ht) fun _ ↦ ht
  refine hmark.bind (fun _ t ht ↦ ?_) fun _ _ _ ↦ trivial
  have hrest : (do
      clawback env p.bookingId id share (some p.terms.cause)
      Proc.write (.applyRefund captured.id)
      pure (⟨id, false, share⟩ : RefundOutcome) : Request RefundOutcome).Only Quiet := by
    refine (quiet_clawback _ _ _ _).bind fun _ ↦ Proc.Only.bind ?_ fun _ ↦ trivial
    simp [Quiet]
  exact (meets_quiet hk hrest ht).mono fun _ _ _ ↦ trivial

theorem find_none_of_state (h : w.refundState k = none) :
    w.refunds.find? (·.idempotencyKey = k) = none := Option.map_eq_none_iff.mp h

theorem meets_existing_none (hk : (calls i).key env = some k) (hs : s.refundState k = none) :
    ((refunding env calls).contract i).Meets
      (fun r t ↦ r = .ok none ∧ t.refundState k = none) (existingRefund k) s := by
  intro t hst _ _
  have ht : t.refundState k = none := (hst.1 k hk).trans hs
  refine ⟨.other (by simp [Step.table]) (by simp [Step.table]), ?_, ht⟩
  dsimp only
  rw [find_none_of_state ht]
  rfl

/-- What a request knows between reading a captured payment and inserting its row. -/
def Reading (k : RefundKey) (captured : PaymentRow) (w : World) : Prop :=
  w.refundState k = none ∧
    w.poolsOf captured.id = some (World.gatewayPool captured, World.walletPool captured)

theorem meets_capturedFor {b : ℕ} (hk : (calls i).key env = some k)
    (hs : s.refundState k = none) :
    ((refunding env calls).contract i).Meets
      (fun r t ↦ ∀ captured, r = .ok (some captured) → Reading k captured t)
      (PaymentsRepo.capturedFor b .booking) s := by
  intro t hst hinv _
  refine ⟨.other (by simp [Step.table]) (by simp [Step.table]), fun captured hr ↦ ?_⟩
  have hfind : t.capturedFor b .booking = some captured := Except.ok.inj hr
  refine ⟨(hst.1 k hk).trans hs, ?_⟩
  change (t.payment captured.id).map _ = _
  rw [World.Refundable.payment_of_mem hinv (List.mem_of_find?_eq_some hfind)]
  rfl

theorem meets_reading {α : Type} {p : Request α} {captured : PaymentRow}
    (hk : (calls i).key env = some k) (hp : p.Only fun l ↦ l.table = .nothing)
    (hs : Reading k captured s) :
    ((refunding env calls).contract i).Meets (fun _ t ↦ Reading k captured t) p s := by
  refine Contract.Meets.of_only hp ?_
    (fun s t hst hs ↦ ⟨(hst.1 k hk).trans hs.1, (hst.2 _).trans hs.2⟩) hs
  intro l t hl _ _ ht
  have hpay : l.table ≠ .payments := by simp [hl]
  have href : l.table ≠ .refunds := by simp [hl]
  refine ⟨.other hpay href, ?_⟩
  change Reading k captured (t.run l)
  rw [Reading, World.refundState, World.run_refunds href, World.poolsOf, World.payment,
    World.run_payments hpay]
  exact ht

theorem meets_insertRefund {r : NewRefund} {seen : ℤ × ℤ} {captured : PaymentRow}
    (hk : (calls i).key env = some r.idempotencyKey)
    (hs : Reading r.idempotencyKey captured s) (hid : r.paymentId = captured.id)
    (hg : r.gatewayAmount ≤ World.gatewayPool captured - seen.1)
    (hw : r.walletAmount ≤ World.walletPool captured - seen.2 ∨ r.walletAmount ≤ 0) :
    ((refunding env calls).contract i).Meets
      (fun res t ↦ res ≠ .ok none ∧
        ∀ id, res = .ok (some id) → t.refundState r.idempotencyKey = some (id, false))
      (RefundsService.insertRefund r seen) s := by
  intro t hst _ _
  have ht : t.refundState r.idempotencyKey = none := (hst.1 _ hk).trans hs.1
  have hp : t.poolsOf r.paymentId =
      some (World.gatewayPool captured, World.walletPool captured) := by
    rw [hid]
    exact (hst.2 _).trans hs.2
  have hfind := find_none_of_state ht
  refine ⟨.insert hk hp hg hw, fun hnone ↦ ?_, fun id hok ↦ ?_⟩
  · have hany : t.refunds.any (fun r' ↦ r'.idempotencyKey = r.idempotencyKey) = false := by
      simpa using hfind
    change t.insertRefund r = .ok none at hnone
    simp only [World.insertRefund, hany, Bool.false_eq_true, if_false] at hnone
    split_ifs at hnone
    cases Except.ok.inj hnone
  · change t.insertRefund r = .ok (some id) at hok
    have hcreate : t.createRefund r = { t with refunds := t.refunds ++ [t.newRefund r] } := by
      rw [World.createRefund, hok]
    obtain ⟨rfl, -, -, -⟩ := World.insertRefund_some hok
    change (t.createRefund r).refundState r.idempotencyKey = _
    rw [hcreate, World.refundState, List.find?_append, hfind]
    simp [World.newRefund]

theorem meets_refundBooking {p : RefundBooking} (hi : calls i = .full p)
    (hs : s.refundState (refundKey env p) = none) :
    ((refunding env calls).contract i).Meets (fun _ _ ↦ True) (refundBooking env p) s := by
  have hk : (calls i).key env = some (refundKey env p) := by rw [hi]; rfl
  refine (meets_existing_none hk hs).bind (fun found t ht ↦ ?_) fun _ _ _ ↦ trivial
  obtain ⟨hnone, ht⟩ := ht
  cases hnone
  refine (meets_capturedFor hk ht).bind (fun captured t ht ↦ ?_) fun _ _ _ ↦ trivial
  cases captured with
  | none => trivial
  | some captured =>
    have hland : (landable p.bookingId p.transitionTo).Only fun l ↦ l.table = .nothing := by
      cases p.transitionTo with
      | none => trivial
      | some target => exact ⟨rfl, fun _ ↦ trivial⟩
    refine (meets_reading hk hland (ht captured rfl)).bind (fun _ t ht ↦ ?_) fun _ _ _ ↦ trivial
    have hsplit : (refundedSplit captured.id).Only fun l ↦ l.table = .nothing :=
      ⟨rfl, fun _ ↦ trivial⟩
    refine (meets_reading hk hsplit ht).bind (fun split t ht ↦ ?_) fun _ _ _ ↦ trivial
    dsimp only
    have hrefuse (e : Failure) : (throw e : Request Unit).Only fun l ↦ l.table = .nothing := trivial
    refine (meets_reading hk (hrefuse _).when ht).bind (fun _ t ht ↦ ?_) fun _ _ _ ↦ trivial
    refine (meets_insertRefund hk ht rfl le_rfl (.inl le_rfl)).bind (fun id t ht ↦ ?_)
      fun _ _ _ ↦ trivial
    cases id with
    | none => exact absurd rfl ht.1
    | some id => exact meets_finishFull hk (ht.2 id rfl)

theorem meets_refundPartial {p : RefundPartial} (hi : calls i = .part p)
    (hs : s.refundState (keyFromSource env p.bookingId .part p.keySource) = none) :
    ((refunding env calls).contract i).Meets (fun _ _ ↦ True) (refundPartial env p) s := by
  have hk : (calls i).key env = some (keyFromSource env p.bookingId .part p.keySource) := by
    rw [hi]; rfl
  refine (meets_existing_none hk hs).bind (fun found t ht ↦ ?_) fun _ _ _ ↦ trivial
  obtain ⟨hnone, ht⟩ := ht
  cases hnone
  refine (meets_capturedFor hk ht).bind (fun captured t ht ↦ ?_) fun _ _ _ ↦ trivial
  cases captured with
  | none => trivial
  | some captured =>
    have hsplit : (refundedSplit captured.id).Only fun l ↦ l.table = .nothing :=
      ⟨rfl, fun _ ↦ trivial⟩
    have hcredit : (providerCredit env p.bookingId).Only fun l ↦ l.table = .nothing := by
      refine Proc.Only.bind ⟨rfl, fun _ ↦ trivial⟩ fun _ ↦ Proc.Only.bind ⟨rfl, fun _ ↦ trivial⟩ ?_
      exact fun _ ↦ trivial
    have hrefuse (e : Failure) : (throw e : Request Unit).Only fun l ↦ l.table = .nothing := trivial
    refine (meets_reading hk hsplit (ht captured rfl)).bind (fun split t ht ↦ ?_)
      fun _ _ _ ↦ trivial
    dsimp only
    rw [Proc.bind_eq, Contract.meets_bind]
    refine Contract.Meets.when (fun _ ↦ trivial) fun hfits ↦ ?_
    push Not at hfits
    refine (meets_reading hk hcredit ht).bind (fun credit t ht ↦ ?_) fun _ _ _ ↦ trivial
    refine (meets_reading hk (hrefuse _).when ht).bind (fun _ t ht ↦ ?_) fun _ _ _ ↦ trivial
    have hwallet : p.amountPaise - min p.amountPaise (World.gatewayPool captured - split.1) ≤
        World.walletPool captured - split.2 ∨
          p.amountPaise - min p.amountPaise (World.gatewayPool captured - split.1) ≤ 0 := by
      omega
    refine (meets_insertRefund hk ht rfl (min_le_right _ _) hwallet).bind (fun id t ht ↦ ?_)
      fun _ _ _ ↦ trivial
    cases id with
    | none => exact absurd rfl ht.1
    | some id => exact meets_finishPartial hk (ht.2 id rfl)

/-- However the requests interleave and wherever they die: while every refund row
goes in on the pools its request read, no pool is overdrawn. -/
theorem refund_pools_kept {rest : ℕ → Request Unit} {es : List (Event Step World)}
    (hkeys : ∀ i j k, (calls i).key env = some k → (calls j).key env = some k → i = j)
    (h₀ : s.Refundable) (hfresh : ∀ i k, (calls i).key env = some k → s.refundState k = none)
    (h : Workers (fun i ↦ (calls i).request env) s rest w es)
    (hcond : ∀ e ∈ es, ReadCurrent e.label e.before) :
    w.WithinPools ∧ ∀ e ∈ es, e.after.WithinPools := by
  have hprog (i : ℕ) : ((refunding env calls).contract i).Meets (fun _ _ ↦ True)
      ((calls i).request env) s := by
    cases hi : calls i with
    | full p => exact (meets_refundBooking hi (hfresh i _ (by rw [hi]; rfl))).ignore
    | part p => exact (meets_refundPartial hi (hfresh i _ (by rw [hi]; rfl))).ignore
    | confirm ref => exact fun _ _ _ _ ↦ ⟨.confirmed, trivial⟩
    | gatewayUp up =>
      exact fun _ _ _ _ ↦ ⟨.other (by simp [Step.table]) (by simp [Step.table]), trivial⟩
    | tick ms => exact fun _ _ _ _ ↦ ⟨.other (by simp [Step.table]) (by simp [Step.table]), trivial⟩
  obtain ⟨hw, hes, -⟩ := h.safe (refunding_sound hkeys) hprog h₀ hcond
  exact ⟨hw.pools, fun e he ↦ (hes e he).2.pools⟩


def capturedPayment : PaymentRow where
  id := 0
  bookingId := 1
  amount := 1000
  walletApplied := 0
  taxAmount := 0
  refundedAmount := 0
  status := .captured
  purpose := .booking
  method := .upi
  gatewayRef := some (.pay 0)
  gatewayOrderRef := some (.order 0)
  provider := .gateway
  idempotencyKey := ⟨1, .booking, "intent"⟩
  failureReason := none
  capturedAt := some 0
  createdAt := 0
  updatedAt := 0

/-- A trip paid with ₹10 over the gateway. -/
def paidTrip : World :=
  { World.blank with
    bookings := fun b ↦ if b = 1 then some { userId := 7, status := .paid, total := 1000 } else none
    payments := [capturedPayment] }

/-- The `i`-th dispute on the trip gives ₹6 of it back. -/
def disputeRefund (i : ℕ) : RefundCall :=
  .part
    { bookingId := 1
      amountPaise := 600
      terms := ⟨.goodwill, none, .original, none⟩
      reason := "dispute"
      initiatedBy := "admin"
      keySource := .dispute i }

theorem disputeRefund_keys (i j : ℕ) (k : RefundKey) (hi : (disputeRefund i).key sampleEnv = some k)
    (hj : (disputeRefund j).key sampleEnv = some k) : i = j := by
  have h := hi.trans hj.symm
  simpa [disputeRefund, RefundCall.key, keyFromSource] using h

theorem paidTrip_refundable : paidTrip.Refundable where
  paymentIds := by decide
  keys := by decide
  ids := by decide
  nonneg := by decide
  pools := by
    unfold World.WithinPools
    decide

abbrev disputeRun (turns : List ℕ) : (ℕ → Request Unit) × World × List (Event Step World) :=
  schedule turns (fun i ↦ (disputeRefund i).request sampleEnv) paidTrip

theorem disputeRun_workers (turns : List ℕ) :
    Workers (fun i ↦ (disputeRefund i).request sampleEnv) paidTrip (disputeRun turns).1
      (disputeRun turns).2.1 (disputeRun turns).2.2 := by
  simpa using Workers.start.schedule turns

theorem refund_pools_kept_sample :
    (disputeRun [0, 0, 0, 0, 0, 0, 0, 0, 0, 0, 1, 1, 1]).2.1.WithinPools :=
  (refund_pools_kept disputeRefund_keys paidTrip_refundable (fun _ _ _ ↦ rfl)
    (disputeRun_workers _) (by decide)).1

/-- Two disputes read what is left before either takes its ₹6. -/
theorem refund_pools_overdrawn :
    ∃ (env : Env) (calls : ℕ → RefundCall) (s w : World) (rest : ℕ → Request Unit)
      (es : List (Event Step World)),
      (∀ i j k, (calls i).key env = some k → (calls j).key env = some k → i = j) ∧
      s.Refundable ∧ (∀ i k, (calls i).key env = some k → s.refundState k = none) ∧
      Workers (fun i ↦ (calls i).request env) s rest w es ∧ ¬w.WithinPools := by
  refine ⟨sampleEnv, disputeRefund, paidTrip, _, _, _, disputeRefund_keys, paidTrip_refundable,
    fun _ _ _ ↦ rfl, disputeRun_workers [0, 0, 0, 0, 0, 1, 1, 1, 1, 1, 0, 1], ?_⟩
  unfold World.WithinPools
  decide

end Towing.Money
