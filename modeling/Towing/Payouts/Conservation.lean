import Towing.Payouts.PayoutRows
import Towing.Process.Debts

namespace Towing.Payouts

open Towing.Db Towing.Process PayoutsRepo PayoutsService

variable {env : Env} {w : World} {l : Step} {id : ℕ} {row : PayoutRow} {cause : Cause}

/-! What a step of a payout obliges its request to do next. -/

def thrown {α : Type} : Except Thrown α → Option Thrown
  | .ok _ => none
  | .error e => some e

/-- A new row is followed by its hold, a hold that failed by the end of its row, and
every other failure by the reversal. -/
def Step.owes : Step → World → Option Step
  | .create p, w => (w.insertPayout p).toOption.map fun row ↦ .hold row.id p.owner p.amount
  | .hold id owner amount, w => (thrown (w.holdResult id owner amount)).map fun e ↦
      .transitionToTerminal id .failed none (some (holdFailure e)) .hold
  | .transitionToTerminal id .failed ref reason cause, w =>
    if cause = .hold then none
    else (w.terminal id .failed ref reason).toOption.join.map .reverse
  | _, _ => none

def Step.follows : Step → Bool
  | .hold _ _ _ => true
  | .reverse _ => true
  | .transitionToTerminal _ _ _ _ .hold => true
  | _ => false

theorem owes_follows (l : Step) (w : World) (d : Step) (h : l.owes w = some d) :
    d.follows = true := by
  cases l with
  | create p =>
    obtain ⟨row, -, rfl⟩ := Option.map_eq_some_iff.mp h
    rfl
  | hold id owner amount =>
    obtain ⟨e, -, rfl⟩ := Option.map_eq_some_iff.mp h
    rfl
  | transitionToTerminal id target ref reason cause =>
    cases target with
    | failed =>
      rw [Step.owes] at h
      split_ifs at h
      obtain ⟨row, -, rfl⟩ := Option.map_eq_some_iff.mp h
      rfl
    | _ => cases h
  | _ => cases h

def holds : Duties Step World := ⟨Step.follows, Step.owes, owes_follows⟩

theorem pays_select {α : Type} {q : Select} {f : World → α} : holds.Pays none (select q f) :=
  Duties.pays_attempt rfl fun _ ↦ rfl

theorem pays_markPaid {ref : Option ℕ} (hc : cause ≠ .hold) :
    holds.Pays none (markPaid id ref cause) := by
  refine Duties.Pays.bind (Duties.pays_attempt ?_ fun _ ↦ rfl) fun _ ↦ rfl
  cases cause <;> first | rfl | exact absurd rfl hc

theorem pays_markFailed {reason : String} (hc : cause ≠ .hold) :
    holds.Pays none (markFailed id reason cause) := by
  have hfree : Step.follows (.transitionToTerminal id .failed none (some reason) cause) = false := by
    cases cause <;> first | rfl | exact absurd rfl hc
  refine ⟨.inr ⟨rfl, hfree⟩, fun w ↦ ?_⟩
  have howes : Step.owes (.transitionToTerminal id .failed none (some reason) cause) w =
      (w.terminal id .failed none (some reason)).toOption.join.map .reverse := if_neg hc
  rw [show holds.owes = Step.owes from rfl, howes]
  dsimp only
  cases hterm : w.terminal id .failed none (some reason) with
  | error e => rfl
  | ok row? =>
    cases row? with
    | none => rfl
    | some row => exact ⟨.inl rfl, fun _ ↦ rfl⟩

theorem pays_reread : holds.Pays none (reread row) := pays_select.bind fun _ ↦ rfl

theorem pays_createRow_hold {p : NewPayout} {f : Created → Request Created}
    (hnew : ∀ row, holds.Pays (some (.hold row.id p.owner p.amount)) (f ⟨row, false⟩))
    (hold : ∀ row, holds.Pays none (f ⟨row, true⟩)) : holds.Pays none ((createRow p).bind f) := by
  refine ⟨.inr ⟨rfl, rfl⟩, fun w ↦ ?_⟩
  have howes : holds.owes (.create p) w =
      (w.insertPayout p).toOption.map fun row ↦ .hold row.id p.owner p.amount := rfl
  rw [howes]
  dsimp only
  cases hins : w.insertPayout p with
  | ok row => exact hnew row
  | error e =>
    cases e with
    | uniqueViolation constraint =>
      dsimp only [Except.toOption, Option.map, Proc.bind, Proc.handle]
      by_cases hc : constraint = "uq_payouts_one_open_per_owner"
      · rw [if_pos hc]
        rfl
      · rw [if_neg hc]
        refine ⟨.inr ⟨rfl, rfl⟩, fun w ↦ ?_⟩
        dsimp only
        cases hkey : w.byIdempotencyKey p.idempotencyKey with
        | none => rfl
        | some existing => exact hold existing
    | _ => rfl

theorem pays_createWithHold {p : NewPayout} : holds.Pays none (createWithHold p) := by
  apply pays_createRow_hold
  · intro row
    refine ⟨.inl rfl, fun w ↦ ?_⟩
    have howes : holds.owes (.hold row.id p.owner p.amount) w =
        (thrown (w.holdResult row.id p.owner p.amount)).map fun e ↦
          .transitionToTerminal row.id .failed none (some (holdFailure e)) .hold := rfl
    rw [howes]
    dsimp only
    cases hres : w.holdResult row.id p.owner p.amount with
    | ok u => rfl
    | error e =>
      refine ⟨.inl rfl, fun w ↦ ?_⟩
      have hnone : holds.owes
          (.transitionToTerminal row.id .failed none (some (holdFailure e)) .hold) w = none := rfl
      rw [hnone]
      dsimp only
      cases w.terminal row.id .failed none (some (holdFailure e)) <;> rfl
  · intro row
    rfl

theorem pays_ite {α : Type} {c : Prop} [Decidable c] {p q : Request α} (hp : holds.Pays none p)
    (hq : holds.Pays none q) : holds.Pays none (if c then p else q) := by
  split_ifs
  · exact hp
  · exact hq

theorem pays_submit {destinationRef : String} {storedKey : PayoutKey} :
    holds.Pays none (submit env row destinationRef storedKey) := by
  refine Duties.Pays.handle ?_ fun e ↦ ?_
  · refine Duties.Pays.bind (Duties.pays_attempt rfl fun _ ↦ rfl) fun handle ↦ ?_
    apply pays_ite
    · exact (pays_markFailed (by decide)).bind fun _ ↦ pays_reread
    · exact (Duties.pays_attempt rfl fun _ ↦ rfl).bind fun _ ↦ pays_reread
  · apply pays_ite
    · exact rfl
    · exact (pays_markFailed (by decide)).bind fun _ ↦ pays_reread

theorem pays_destination {owner : WalletOwner} : holds.Pays none (destination owner) := by
  refine pays_select.bind fun ref? ↦ ?_
  cases ref? <;> rfl

theorem pays_request {owner : WalletOwner} {amountPaise : ℤ} {clientKey : String} :
    holds.Pays none (request env owner amountPaise clientKey) := by
  unfold PayoutsService.request
  refine pays_ite rfl (pays_ite rfl ?_)
  refine pays_destination.bind fun ref ↦ pays_select.bind fun threshold ↦ ?_
  refine pays_createWithHold.bind fun payout ↦ pays_ite rfl (pays_ite rfl pays_submit)

theorem pays_decideApproval {target : PayoutApprovalState} {adminId : ℕ} {reason : Option String} :
    holds.Pays none (decideApproval id target adminId reason) :=
  Duties.pays_attempt rfl fun _ ↦ rfl

theorem pays_approve {adminId : ℕ} : holds.Pays none (AdminFinanceService.approve env adminId id) := by
  refine pays_select.bind fun before ↦ pays_decideApproval.bind fun row? ↦ ?_
  cases row? with
  | none => rfl
  | some row => exact pays_destination.bind fun ref ↦ pays_submit

theorem pays_reject {adminId : ℕ} {reason : String} :
    holds.Pays none (AdminFinanceService.reject adminId id reason) := by
  refine pays_select.bind fun before ↦ pays_decideApproval.bind fun row? ↦ ?_
  cases row? with
  | none => rfl
  | some row => exact (pays_markFailed (by decide)).bind fun _ ↦ pays_select.bind fun _ ↦ rfl

theorem pays_reconcileAll {rows : List PayoutRow} :
    holds.Pays none (PayoutReconcileService.reconcileAll env rows) := by
  induction rows with
  | nil => rfl
  | cons payout rest ih =>
    refine Duties.Pays.bind ?_ fun _ ↦ ih
    unfold PayoutReconcileService.reconcileOne
    cases payout.routeRef with
    | none => exact pays_select.bind fun now ↦ (pays_markFailed (by decide)).when
    | some ref =>
      refine Duties.Pays.handle ?_ fun _ ↦ rfl
      refine Duties.Pays.bind (Duties.pays_attempt rfl fun _ ↦ rfl) fun handle ↦ ?_
      cases handle.status with
      | paid => exact pays_markPaid (by decide)
      | failed => exact pays_markFailed (by decide)
      | processing => rfl

theorem pays_razorpay {e : PayoutWebhookEvent} : holds.Pays none (WebhooksController.razorpay e) := by
  refine pays_select.bind fun valid ↦ Duties.Pays.bind (Duties.Pays.when rfl) fun _ ↦ ?_
  refine Duties.Pays.bind (Duties.pays_attempt rfl fun _ ↦ rfl) fun inserted ↦ Duties.Pays.when ?_
  refine Duties.Pays.handle (pays_select.bind fun row? ↦ ?_) fun _ ↦ rfl
  cases row? with
  | none => rfl
  | some row =>
    cases hst : e.status with
    | paid => exact pays_markPaid (by decide)
    | failed => exact pays_markFailed (by decide)
    | _ => rfl

theorem pays_acts {p : Request Unit} (h : Acts env p) : holds.Pays none p := by
  cases h with
  | request owner amountPaise clientKey => exact pays_request.ignore
  | approve adminId payoutId => exact pays_approve.ignore
  | reject adminId payoutId reason => exact pays_reject.ignore
  | webhook e => exact pays_razorpay
  | reconcile => exact pays_select.bind fun _ ↦ pays_reconcileAll
  | ambient l hl => cases hl <;> exact Duties.pays_attempt rfl fun _ ↦ rfl

/-! What the ledger has of each payout. -/

/-- The payout a step takes the hold of, or gives it up. -/
def Step.holding : Step → Option ℕ
  | .hold id _ _ => some id
  | .transitionToTerminal id _ _ _ .hold => some id
  | _ => none

/-- A row of the ledger about payout `id` is its debit or its reversal. -/
def Booked (w : World) (t : WalletTransaction LedgerKey) (id : ℕ) : Prop :=
  ∃ row, w.payout id = some row ∧ t.refId = some (.payout id) ∧
    (t.idempotencyKey = .payoutDebit id ∧ t.amount = -row.amount ∨
      t.idempotencyKey = .payoutReversal id ∧ t.amount = row.amount)

/-- The ledger's own account of the payouts. -/
structure Books (w : World) : Prop where
  sound : w.ledger.Sound
  numbered : w.Numbered
  fits : ∀ id row, w.payout id = some row → |row.amount| < 10 ^ 12
  booked : ∀ t ∈ w.ledger.transactions, ∀ id, (t.refId = some (.payout id) ∨
    t.idempotencyKey = .payoutDebit id ∨ t.idempotencyKey = .payoutReversal id) → Booked w t id
  debited : ∀ id row, w.payout id = some row → .payoutDebit id ∈ w.ledger.keys →
    0 < row.amount
  reversed : ∀ id, .payoutReversal id ∈ w.ledger.keys → .payoutDebit id ∈ w.ledger.keys ∧
    ∃ row, w.payout id = some row ∧ row.status = .failed

/-- What the requests in flight are about to do (`ds`), and what is left to be returned. -/
structure Accounted (ds : Multiset Step) (w : World) : Prop extends Books w where
  holding : ∀ d ∈ ds, ∀ id, d.holding = some id →
    ∃ row, w.payout id = some row ∧ .payoutDebit id ∉ w.ledger.keys
  hold : ∀ id owner amount, .hold id owner amount ∈ ds → ∃ row, w.payout id = some row ∧
    row.owner = owner ∧ row.amount = amount ∧ row.status ≠ .failed
  once : (ds.filterMap Step.holding).Nodup
  reversing : ∀ r, .reverse r ∈ ds → ∃ row, w.payout r.id = some row ∧ row.status = .failed ∧
    row.owner = r.owner ∧ row.amount = r.amount ∧ .payoutDebit r.id ∈ w.ledger.keys
  returned : ∀ id row, w.payout id = some row → row.status = .failed →
    .payoutDebit id ∈ w.ledger.keys →
      .payoutReversal id ∈ w.ledger.keys ∨ ∃ r, r.id = id ∧ .reverse r ∈ ds

/-- A payout is failed only once its hold is in the ledger, and its reversal finds
room in the wallet. -/
def Backed : Step → World → Prop
  | .transitionToTerminal id .failed _ _ cause, w => cause ≠ .hold →
      ∀ row, w.payout id = some row → isOpen row = true → .payoutDebit id ∈ w.ledger.keys
  | .reverse row, w => |w.ledger.balanceOf row.owner + row.amount| < 10 ^ 12
  | _, _ => True

instance : (l : Step) → (w : World) → Decidable (Backed l w)
  | .transitionToTerminal id .failed _ _ cause, w => inferInstanceAs (Decidable (cause ≠ .hold →
      ∀ row ∈ w.payout id, isOpen row = true → LedgerKey.payoutDebit id ∈ w.ledger.keys))
  | .reverse row, w => inferInstanceAs (Decidable (|w.ledger.balanceOf row.owner + row.amount| < 10 ^ 12))
  | .transitionToTerminal _ .requested _ _ _, _ => isTrue trivial
  | .transitionToTerminal _ .processing _ _ _, _ => isTrue trivial
  | .transitionToTerminal _ .paid _ _ _, _ => isTrue trivial
  | .select _, _ | .create _, _ | .hold _ _ _, _ | .markProcessing _ _, _ => isTrue trivial
  | .decideApproval _ _ _ _, _ | .createPayout _, _ | .insertWebhookEvent _, _ => isTrue trivial
  | .post _, _ | .link _ _, _ | .setAutoApproveMax _, _ | .tick _, _ => isTrue trivial
  | .vendorMood _, _ | .vendorSettle _ _ _, _ => isTrue trivial

theorem Booked.run {t : WalletTransaction LedgerKey} (hn : w.Numbered) (l : Step)
    (h : Booked w t id) : Booked (w.run l) t id := by
  obtain ⟨row, hrow, href, hkey⟩ := h
  obtain ⟨row', hrow', hedit⟩ := World.run_payout hn l hrow
  refine ⟨row', hrow', href, ?_⟩
  rw [hedit.amount]
  exact hkey

/-- The rows of the ledger whose key is `key`. -/
theorem exists_of_key {L : Ledger LedgerKey} {key : LedgerKey} (h : key ∈ L.keys) :
    ∃ t ∈ L.transactions, t.idempotencyKey = key := by
  obtain ⟨t, ht, hkey⟩ := List.mem_map.mp h
  exact ⟨t, ht, hkey⟩

theorem Books.payout_of_debit (h : Books w) (hk : .payoutDebit id ∈ w.ledger.keys) :
    ∃ row, w.payout id = some row := by
  obtain ⟨t, ht, hkey⟩ := exists_of_key hk
  obtain ⟨row, hrow, -⟩ := h.booked t ht id (.inr (.inl hkey))
  exact ⟨row, hrow⟩

/-- A hold either fails and leaves the ledger as it is, or takes a positive amount. -/
theorem hold_run (hs : w.ledger.Sound) (id : ℕ) (owner : WalletOwner) (amount : ℤ) :
    (∃ e, w.holdResult id owner amount = .error e) ∧
        (w.run (.hold id owner amount)).ledger = w.ledger ∨
      w.holdResult id owner amount = .ok () ∧ 0 < amount ∧
        (w.run (.hold id owner amount)).ledger.transactions =
          w.ledger.transactions ++ freshRows w.ledger.keys (debitLegs id owner amount) := by
  unfold World.holdResult
  rcases hr : w.postResult (debitLegs id owner amount) (balanceCovers owner amount) with ⟨e | r, L⟩
  · refine .inl ⟨?_, ?_⟩
    · dsimp only
      split_ifs <;> exact ⟨_, rfl⟩
    · change (w.postResult _ _).2 = _
      rw [hr]
      exact Proc.transact_error hr
  · obtain ⟨-, hposted⟩ := post_exec hs (Proc.transact_ok hr)
    refine .inr ⟨rfl, ?_, ?_⟩
    · have hv := validate_of_mem hposted.valid List.mem_cons_self
      have := toInt_neg_of_validate hv rfl
      rw [JsNumber.toInt_int] at this
      omega
    · change (w.postResult _ _).2.transactions = _
      rw [hr]
      exact hposted.rows

theorem mem_keys_of_rows {L L' : Ledger LedgerKey} {legs : List (LedgerLeg LedgerKey)}
    (hrows : L'.transactions = L.transactions ++ freshRows L.keys legs) {leg : LedgerLeg LedgerKey}
    (hleg : leg ∈ legs) : leg.idempotencyKey ∈ L'.keys := by
  rw [Ledger.keys, hrows, List.map_append]
  exact mem_keys_freshRows L.keys hleg

/-- A reversal that its wallet can take goes in. -/
theorem reverse_run {r : PayoutRow} (hs : w.ledger.Sound) (hpos : 0 < r.amount)
    (hfit : |r.amount| < 10 ^ 12) (hroom : |w.ledger.balanceOf r.owner + r.amount| < 10 ^ 12) :
    .payoutReversal r.id ∈ (w.run (.reverse r)).ledger.keys := by
  let leg : LedgerLeg LedgerKey :=
    { owner := r.owner
      type := .adjustment
      amountPaise := .int r.amount
      reason := "Payout failed — funds returned"
      refId := some (.payout r.id)
      idempotencyKey := .payoutReversal r.id }
  have hsafe : decide (|r.amount| ≤ 2 ^ 53 - 1) = true := decide_eq_true (by omega)
  have hv : LedgerService.validate leg = .ok () := by
    unfold LedgerService.validate
    simp only [leg, JsNumber.isSafeInteger, hsafe, JsNumber.int.injEq, hpos.ne']
    rfl
  obtain ⟨p, hp⟩ := transact_single_ok hs hv hfit hroom
  have hrows := (transact_rows [leg] (fun _ ↦ .ok ()) hs).2
  rcases hrows with ⟨⟨e, he⟩, -⟩ | ⟨-, hrows⟩
  · rw [he] at hp
    cases hp
  · exact mem_keys_of_rows hrows List.mem_cons_self

/-- The books stay in order under every step whose legs are those of its payout. -/
theorem Books.run (h : Books w) (l : Step)
    (hhold : ∀ id owner amount, l = .hold id owner amount →
      ∃ row, w.payout id = some row ∧ row.amount = amount)
    (hreverse : ∀ r, l = .reverse r → ∃ row, w.payout r.id = some row ∧ row.status = .failed ∧
      row.amount = r.amount ∧ .payoutDebit r.id ∈ w.ledger.keys) : Books (w.run l) := by
  have hs := (World.run_ledger h.sound l).1
  refine ⟨hs, h.numbered.run l, fun id row' hrow' ↦ ?_, fun t ht id hid ↦ ?_,
    fun id row' hrow' hk ↦ ?_, fun id hk ↦ ?_⟩
  · rcases World.run_payout_back h.numbered l hrow' with ⟨row, hrow, hedit⟩ | ⟨p, rfl, hins, -⟩
    · rw [hedit.amount]
      exact h.fits id row hrow
    · exact (World.insertPayout_ok hins).2.2.2.2.2.2.2.1
  · have hold (hmem : t ∈ w.ledger.transactions) : Booked (w.run l) t id :=
      (h.booked t hmem id hid).run h.numbered l
    rcases (World.run_ledger h.sound l).2 with heq | hrows
    · rw [heq] at ht
      exact hold ht
    · rw [hrows] at ht
      rcases List.mem_append.mp ht with ht | ht
      · exact hold ht
      · obtain ⟨leg, hleg, rfl, -⟩ := mem_freshRows ht
        rcases legs_booked hleg hid with ⟨owner, amount, rfl, ha, href, hkey⟩ | ⟨r, rfl, rfl, ha, href, hkey⟩
        · obtain ⟨row, hrow, hamount⟩ := hhold id owner amount rfl
          refine Booked.run h.numbered _ ⟨row, hrow, href, .inl ⟨hkey, ?_⟩⟩
          rw [ha, hamount]
        · obtain ⟨row, hrow, -, hamount, -⟩ := hreverse r rfl
          refine Booked.run h.numbered _ ⟨row, hrow, href, .inr ⟨hkey, ?_⟩⟩
          rw [ha, hamount]
  · have hold (hmem : .payoutDebit id ∈ w.ledger.keys) : 0 < row'.amount := by
      rcases World.run_payout_back h.numbered l hrow' with ⟨row, hrow, hedit⟩ | ⟨p, -, -, hlen⟩
      · rw [hedit.amount]
        exact h.debited id row hrow hmem
      · obtain ⟨row, hrow⟩ := h.payout_of_debit hmem
        have := Rows.Numbered.lt h.numbered hrow
        omega
    rcases World.mem_keys_back h.sound l hk with hk' | ⟨leg, hleg, hkey⟩
    · exact hold hk'
    · rcases legs_booked hleg (.inr (.inl hkey)) with ⟨owner, amount, rfl, -, -, -⟩ | ⟨r, -, -, -, -, hrev⟩
      · rcases hold_run h.sound id owner amount with ⟨-, heq⟩ | ⟨-, hpos, -⟩
        · rw [heq] at hk
          exact hold hk
        · obtain ⟨row, hrow, hamount⟩ := hhold id owner amount rfl
          have hsame : (w.run (.hold id owner amount)).payout id = some row := hrow
          cases hrow'.symm.trans hsame
          rw [hamount]
          exact hpos
      · cases hrev.symm.trans hkey
  · rcases World.mem_keys_back h.sound l hk with hk | ⟨leg, hleg, hkey⟩
    · obtain ⟨hdebit, row, hrow, hfailed⟩ := h.reversed id hk
      obtain ⟨row', hrow', hedit⟩ := World.run_payout h.numbered l hrow
      exact ⟨World.mem_keys_run h.sound l hdebit, row', hrow', hedit.toRowKept.failed hfailed⟩
    · rcases legs_booked hleg (.inr (.inr hkey)) with ⟨owner, amount, -, -, -, hdeb⟩ | ⟨r, rfl, rfl, -, -, -⟩
      · cases hdeb.symm.trans hkey
      · obtain ⟨row, hrow, hfailed, -, hdebit⟩ := hreverse r rfl
        obtain ⟨row', hrow', hedit⟩ := World.run_payout h.numbered (.reverse r) hrow
        exact ⟨World.mem_keys_run h.sound _ hdebit, row', hrow', hedit.toRowKept.failed hfailed⟩

/-- What a step owes, by the steps that owe something. -/
theorem owes_cases {d : Step} (h : l.owes w = some d) :
    (∃ p row, l = .create p ∧ w.insertPayout p = .ok row ∧ d = .hold row.id p.owner p.amount) ∨
      (∃ id owner amount e, l = .hold id owner amount ∧ w.holdResult id owner amount = .error e ∧
        d = .transitionToTerminal id .failed none (some (holdFailure e)) .hold) ∨
      ∃ id ref reason cause row, l = .transitionToTerminal id .failed ref reason cause ∧
        cause ≠ .hold ∧ w.terminal id .failed ref reason = .ok (some row) ∧ d = .reverse row := by
  cases l with
  | create p =>
    obtain ⟨row, hrow, rfl⟩ := Option.map_eq_some_iff.mp h
    refine .inl ⟨p, row, rfl, ?_, rfl⟩
    cases hins : w.insertPayout p with
    | ok row' =>
      rw [hins] at hrow
      cases hrow
      rfl
    | error e =>
      rw [hins] at hrow
      cases hrow
  | hold id owner amount =>
    obtain ⟨e, he, rfl⟩ := Option.map_eq_some_iff.mp h
    refine .inr (.inl ⟨id, owner, amount, e, rfl, ?_, rfl⟩)
    cases hres : w.holdResult id owner amount with
    | ok u =>
      rw [hres] at he
      cases he
    | error e' =>
      rw [hres] at he
      cases he
      rfl
  | transitionToTerminal id target ref reason cause =>
    cases target with
    | failed =>
      rw [Step.owes] at h
      split_ifs at h with hc
      obtain ⟨row, hrow, rfl⟩ := Option.map_eq_some_iff.mp h
      refine .inr (.inr ⟨id, ref, reason, cause, row, rfl, hc, ?_, rfl⟩)
      cases hterm : w.terminal id .failed ref reason with
      | error e =>
        rw [hterm] at hrow
        cases hrow
      | ok row? =>
        rw [hterm] at hrow
        exact congrArg _ hrow
    | _ => cases h
  | _ => cases h

theorem transition_payout {ref : Option ℕ} {reason : Option String} {row : PayoutRow} (cause : Cause)
    (h : w.terminal id .failed ref reason = .ok (some row)) :
    (w.run (.transitionToTerminal id .failed ref reason cause)).payout id = some row ∧
      row.id = id ∧ row.status = .failed ∧ ∃ row₀, w.payout id = some row₀ ∧ isOpen row₀ = true := by
  obtain ⟨row₀, hrow₀, hopen, rfl⟩ := World.terminal_ok h
  have hid := (World.mem_of_payout hrow₀).2
  have hrun : w.run (.transitionToTerminal id .failed ref reason cause) =
      w.updatePayout id fun _ ↦ w.terminalRow row₀ .failed ref reason := by
    rw [World.run, World.transitionToTerminal, h]
  refine ⟨?_, hid, rfl, row₀, hrow₀, hopen⟩
  have hf (r : PayoutRow) (hr : r.id = id) :
      ((fun _ ↦ w.terminalRow row₀ .failed ref reason) r : PayoutRow).id = r.id := hid.trans hr.symm
  rw [hrun, World.payout_updatePayout hf, hrow₀, Option.map_some, if_pos hid]

variable {ds own : Multiset Step}

/-- No two requests hold one payout. -/
theorem Accounted.alone (h : Accounted (ds + {l}) w) (hl : l.holding = some id) {d : Step}
    (hd : d ∈ ds) : d.holding ≠ some id := by
  intro hid
  have honce := h.once
  rw [Multiset.filterMap_add, Multiset.nodup_add] at honce
  refine Multiset.disjoint_left.mp honce.2.2 ((Multiset.mem_filterMap _ _).mpr ⟨d, hd, hid⟩) ?_
  exact (Multiset.mem_filterMap _ _).mpr ⟨l, Multiset.mem_singleton_self l, hl⟩

theorem Accounted.le (h : Accounted (ds + own) w) (hr : ∀ r, .reverse r ∉ own) : Accounted ds w := by
  have hds {d : Step} (hd : d ∈ ds) : d ∈ ds + own := Multiset.mem_add.mpr (.inl hd)
  refine ⟨h.toBooks, fun d hd ↦ h.holding d (hds hd), fun id o a hd ↦ h.hold id o a (hds hd), ?_,
    fun r hd ↦ h.reversing r (hds hd), fun id row hrow hf hk ↦ ?_⟩
  · have honce := h.once
    rw [Multiset.filterMap_add] at honce
    exact (Multiset.nodup_add.mp honce).1
  · refine (h.returned id row hrow hf hk).imp_right fun ⟨r, hid, hmem⟩ ↦ ⟨r, hid, ?_⟩
    exact (Multiset.mem_add.mp hmem).resolve_right (hr r)

/-- The hold of a payout is only ever posted by the request that is about to. -/
theorem Accounted.debit_back (h : Accounted (ds + own) w)
    (hown : l.follows = true → own = {l}) {d : Step} (hd : d ∈ ds) (hid : d.holding = some id) :
    .payoutDebit id ∉ (w.run l).ledger.keys := by
  intro hk
  obtain ⟨row, -, hnot⟩ := h.holding d (Multiset.mem_add.mpr (.inl hd)) id hid
  rcases World.mem_keys_back h.sound l hk with hk | ⟨leg, hleg, hkey⟩
  · exact hnot hk
  · rcases legs_booked hleg (.inr (.inl hkey)) with ⟨owner, amount, rfl, -, -, -⟩ | ⟨r, -, -, -, -, hrev⟩
    · have := hown rfl
      subst this
      exact h.alone rfl hd hid
    · cases hrev.symm.trans hkey

/-- A row fails by a branch that returns its hold, or by the request that took it. -/
theorem Accounted.fails (hown : l.follows = true → own = {l})
    (hc : Backed l w) {row row' : PayoutRow} (hrow : w.payout id = some row)
    (hedit : World.RowEdit w l row row') (hf : row'.status = .failed) :
    row.status = .failed ∨ (.payoutDebit id ∈ w.ledger.keys ∧ l.owes w = some (.reverse row')) ∨
      (own = {l} ∧ l.holding = some id) := by
  rcases hedit.failed hf with hf | ⟨ref, reason, cause, rfl, hopen, hterm⟩
  · exact .inl hf
  · have hid := (World.mem_of_payout hrow).2
    rw [hid] at hterm
    by_cases hcause : cause = .hold
    · subst hcause
      exact .inr (.inr ⟨hown rfl, congrArg some hid⟩)
    · have hrow' : w.payout row.id = some row := by
        rw [hid]
        exact hrow
      have hdebit := hc hcause row hrow' hopen
      rw [hid] at hdebit
      refine .inr (.inl ⟨hdebit, ?_⟩)
      rw [Step.owes, if_neg hcause, hid, hterm]
      rfl

theorem follows_of_holding {d : Step} (h : d.holding = some id) : d.follows = true := by
  cases d with
  | hold id' owner amount => rfl
  | transitionToTerminal id' target ref reason cause =>
    cases cause <;> first | rfl | cases h
  | _ => cases h

/-- The debts a step leaves. -/
theorem mem_owed {d : Step} (h : d ∈ (l.owes w).elim 0 fun x ↦ ({x} : Multiset Step)) :
    l.owes w = some d := by
  cases howes : l.owes w with
  | none =>
    rw [howes] at h
    exact absurd h (Multiset.notMem_zero d)
  | some d' =>
    rw [howes] at h
    rw [Multiset.mem_singleton.mp h]

theorem Accounted.once_step (h : Accounted (ds + own) w) (hown : l.follows = true → own = {l}) :
    ((ds + (l.owes w).elim 0 fun x ↦ {x}).filterMap Step.holding).Nodup := by
  have honce := h.once
  rw [Multiset.filterMap_add] at honce ⊢
  obtain ⟨hds, hown', hdisj⟩ := Multiset.nodup_add.mp honce
  cases howes : l.owes w with
  | none => simpa using hds
  | some d =>
    rcases owes_cases howes with ⟨p, row, rfl, hins, rfl⟩ | ⟨id, owner, amount, e, rfl, -, rfl⟩ |
      ⟨id, ref, reason, cause, row, -, -, -, rfl⟩
    · -- The new row's number is beyond those of all the payouts that are held.
      refine Multiset.nodup_add.mpr ⟨hds, Multiset.nodup_singleton _, ?_⟩
      rw [Multiset.disjoint_left]
      intro i hi hnew
      obtain ⟨d, hd, hid⟩ := (Multiset.mem_filterMap _ _).mp hi
      obtain ⟨row', hrow', -⟩ := h.holding d (Multiset.mem_add.mpr (.inl hd)) i hid
      have hlt := Rows.Numbered.lt h.numbered hrow'
      have hi' : i = row.id := Multiset.mem_singleton.mp hnew
      have := (World.insertPayout_ok hins).1
      omega
    · have := hown rfl
      subst this
      have hsame : Multiset.filterMap Step.holding
          ({.transitionToTerminal id .failed none (some (holdFailure e)) .hold} : Multiset Step) =
            Multiset.filterMap Step.holding {.hold id owner amount} := rfl
      rw [Option.elim_some, hsame, ← Multiset.filterMap_add]
      exact h.once
    · have hnone : Multiset.filterMap Step.holding ({.reverse row} : Multiset Step) = 0 := rfl
      rw [Option.elim_some, hnone, add_zero]
      exact hds

/-- One step keeps the account, if it is backed. -/
theorem Accounted.step (h : Accounted (ds + own) w) (hown : l.follows = true → own = {l})
    (hfree : l.follows = false → own = 0) (hc : Backed l w) :
    Accounted (ds + (l.owes w).elim 0 fun x ↦ {x}) (w.run l) := by
  have hds {d : Step} (hd : d ∈ ds) : d ∈ ds + own := Multiset.mem_add.mpr (.inl hd)
  have hself (hl : l.follows = true) : l ∈ ds + own := by
    rw [hown hl]
    exact Multiset.mem_add.mpr (.inr (Multiset.mem_singleton_self l))
  have hbooks : Books (w.run l) := by
    refine h.toBooks.run l (fun id owner amount hl ↦ ?_) fun r hl ↦ ?_
    · subst hl
      obtain ⟨row, hrow, -, hamount, -⟩ := h.hold id owner amount (hself rfl)
      exact ⟨row, hrow, hamount⟩
    · subst hl
      obtain ⟨row, hrow, hf, -, hamount, hdebit⟩ := h.reversing r (hself rfl)
      exact ⟨row, hrow, hf, hamount, hdebit⟩
  refine ⟨hbooks, fun d hd id hid ↦ ?_, fun id owner amount hd ↦ ?_, h.once_step hown, fun r hd ↦ ?_,
    fun id row' hrow' hf hk ↦ ?_⟩
  · rcases Multiset.mem_add.mp hd with hd | hd
    · obtain ⟨row, hrow, -⟩ := h.holding d (hds hd) id hid
      obtain ⟨row', hrow', -⟩ := World.run_payout h.numbered l hrow
      exact ⟨row', hrow', h.debit_back hown hd hid⟩
    · rcases owes_cases (mem_owed hd) with ⟨p, row, rfl, hins, rfl⟩ | ⟨id', o, a, e, rfl, he, rfl⟩ |
        ⟨id', ref, reason, cause, row, -, -, -, rfl⟩
      · cases hid
        have hrun : w.run (.create p) = { w with payouts := w.payouts ++ [row] } := by
          rw [World.run, World.create, hins]
        have hlen := (World.insertPayout_ok hins).1
        refine ⟨row, ?_, fun hk ↦ ?_⟩
        · rw [hrun]
          refine (Rows.Numbered.find_append h.numbered hlen row.id).trans ?_
          rw [if_pos hlen]
        · rw [hrun] at hk
          obtain ⟨row', hrow'⟩ := h.payout_of_debit hk
          have := Rows.Numbered.lt h.numbered hrow'
          omega
      · cases hid
        obtain ⟨row, hrow, hnot⟩ := h.holding _ (hself rfl) id rfl
        rcases hold_run h.sound id o a with ⟨-, heq⟩ | ⟨hok, -, -⟩
        · exact ⟨row, hrow, by rwa [heq]⟩
        · rw [he] at hok
          cases hok
      · cases hid
  · rcases Multiset.mem_add.mp hd with hd | hd
    · obtain ⟨row, hrow, howner, hamount, hst⟩ := h.hold id owner amount (hds hd)
      obtain ⟨row', hrow', hedit⟩ := World.run_payout h.numbered l hrow
      refine ⟨row', hrow', hedit.owner.trans howner, hedit.amount.trans hamount, fun hf ↦ ?_⟩
      rcases Accounted.fails hown hc hrow hedit hf with hf | ⟨hdebit, -⟩ | ⟨hl, hid⟩
      · exact hst hf
      · obtain ⟨row₀, -, hnot⟩ := h.holding _ (hds hd) id rfl
        exact hnot hdebit
      · subst hl
        exact h.alone hid hd rfl
    · rcases owes_cases (mem_owed hd) with ⟨p, row, rfl, hins, hd⟩ | ⟨id', o, a, e, -, -, hd⟩ |
        ⟨id', ref, reason, cause, row, -, -, -, hd⟩
      · cases hd
        obtain ⟨hlen, howner, hamount, hst, -⟩ := World.insertPayout_ok hins
        have hrun : w.run (.create p) = { w with payouts := w.payouts ++ [row] } := by
          rw [World.run, World.create, hins]
        refine ⟨row, ?_, howner, hamount, by rw [hst]; decide⟩
        rw [hrun]
        refine (Rows.Numbered.find_append h.numbered hlen row.id).trans ?_
        rw [if_pos hlen]
      · cases hd
      · cases hd
  · rcases Multiset.mem_add.mp hd with hd | hd
    · obtain ⟨row, hrow, hf, howner, hamount, hdebit⟩ := h.reversing r (hds hd)
      obtain ⟨row', hrow', hedit⟩ := World.run_payout h.numbered l hrow
      exact ⟨row', hrow', hedit.toRowKept.failed hf, hedit.owner.trans howner,
        hedit.amount.trans hamount, World.mem_keys_run h.sound l hdebit⟩
    · rcases owes_cases (mem_owed hd) with ⟨p, row, -, -, hd⟩ | ⟨id', o, a, e, -, -, hd⟩ |
        ⟨id', ref, reason, cause, row, rfl, hcause, hterm, hd⟩
      · cases hd
      · cases hd
      · cases hd
        obtain ⟨hrow, hid, hf, row₀, hrow₀, hopen⟩ := transition_payout cause hterm
        subst hid
        exact ⟨r, hrow, hf, rfl, rfl, World.mem_keys_run h.sound _ (hc hcause row₀ hrow₀ hopen)⟩
  · rcases World.run_payout_back h.numbered l hrow' with ⟨row, hrow, hedit⟩ | ⟨p, rfl, hins, -⟩
    · rcases Accounted.fails hown hc hrow hedit hf with hf | ⟨-, howes⟩ | ⟨hl, hid⟩
      · -- It had failed before.
        have hk' : .payoutDebit id ∈ w.ledger.keys := by
          rcases World.mem_keys_back h.sound l hk with hk | ⟨leg, hleg, hkey⟩
          · exact hk
          · rcases legs_booked hleg (.inr (.inl hkey)) with ⟨owner, amount, rfl, -, -, -⟩ |
              ⟨r, -, -, -, -, hrev⟩
            · obtain ⟨row₀, hrow₀, -, -, hst⟩ := h.hold id owner amount (hself rfl)
              cases hrow.symm.trans hrow₀
              exact absurd hf hst
            · cases hrev.symm.trans hkey
        rcases h.returned id row hrow hf hk' with hrev | ⟨r, hr, hmem⟩
        · exact .inl (World.mem_keys_run h.sound l hrev)
        · rcases Multiset.mem_add.mp hmem with hmem | hmem
          · exact .inr ⟨r, hr, Multiset.mem_add.mpr (.inl hmem)⟩
          · -- The reversal it was owed is the step itself.
            cases hl : l.follows with
            | false =>
              rw [hfree hl] at hmem
              exact absurd hmem (Multiset.notMem_zero _)
            | true =>
              rw [hown hl] at hmem
              have heq := Multiset.mem_singleton.mp hmem
              subst heq
              obtain ⟨row₀, hrow₀, -, -, hamount, -⟩ := h.reversing r (hself hl)
              have hrow₁ := hrow₀
              rw [hr] at hrow₁
              cases hrow.symm.trans hrow₁
              have hpos := h.debited id row hrow hk'
              have hfit := h.fits id row hrow
              rw [hamount] at hpos hfit
              rw [← hr]
              exact .inl (reverse_run h.sound hpos hfit hc)
      · refine .inr ⟨row', (World.mem_of_payout hrow').2, Multiset.mem_add.mpr (.inr ?_)⟩
        rw [howes]
        exact Multiset.mem_singleton_self _
      · -- The one that failed to hold it has not taken anything.
        subst hl
        obtain ⟨row₀, -, hnot⟩ := h.holding l (hself (follows_of_holding hid)) id hid
        rcases World.mem_keys_back h.sound l hk with hk | ⟨leg, hleg, hkey⟩
        · exact absurd hk hnot
        · rcases legs_booked hleg (.inr (.inl hkey)) with ⟨owner, amount, rfl, -, -, -⟩ |
            ⟨r, -, -, -, -, hrev⟩
          · obtain ⟨row₁, hrow₁, -, -, hst⟩ := h.hold id owner amount (hself rfl)
            have hsame : (w.run (.hold id owner amount)).payout id = some row₁ := hrow₁
            cases hrow'.symm.trans hsame
            exact absurd hf hst
          · cases hrev.symm.trans hkey
    · have hst := (World.insertPayout_ok hins).2.2.2.1
      rw [hst] at hf
      cases hf

theorem accounted_keeps :
    holds.Keeps Backed (fun l ↦ ∀ r, l ≠ .reverse r) Accounted where
  free ds l s h hc hl := by
    rw [← add_zero ds] at h
    refine h.step (fun hf ↦ ?_) (fun _ ↦ rfl) hc
    rw [show Step.follows l = false from hl] at hf
    cases hf
  pay ds l s h hc hl := by
    refine h.step (fun _ ↦ rfl) (fun hf ↦ ?_) hc
    rw [show Step.follows l = true from hl] at hf
    cases hf
  die ds l s h _ hdies := by
    refine h.le fun r hr ↦ hdies r ?_
    exact (Multiset.mem_singleton.mp hr).symm

/-- Nothing has been paid out yet. -/
structure Unpaid (w : World) : Prop where
  payouts : w.payouts = []
  sound : w.ledger.Sound
  foreign : ∀ t ∈ w.ledger.transactions, ∀ id, t.refId ≠ some (.payout id) ∧
    t.idempotencyKey ≠ .payoutDebit id ∧ t.idempotencyKey ≠ .payoutReversal id

theorem Unpaid.accounted (h : Unpaid w) : Accounted 0 w := by
  have hnone (id : ℕ) : w.payout id = none := by
    rw [World.payout, h.payouts]
    rfl
  have hrow {id : ℕ} {row : PayoutRow} (hr : w.payout id = some row) : False := by
    rw [hnone id] at hr
    cases hr
  have hzero {d : Step} (hd : d ∈ (0 : Multiset Step)) : False := Multiset.notMem_zero d hd
  refine ⟨⟨h.sound, ?_, fun id row hr ↦ (hrow hr).elim, fun t ht id hid ↦ ?_,
    fun id row hr ↦ (hrow hr).elim, fun id hk ↦ ?_⟩, fun d hd ↦ (hzero hd).elim,
    fun id o a hd ↦ (hzero hd).elim, Multiset.nodup_zero, fun r hd ↦ (hzero hd).elim,
    fun id row hr ↦ (hrow hr).elim⟩
  · unfold World.Numbered
    rw [h.payouts]
    rfl
  · obtain ⟨href, hdebit, hreversal⟩ := h.foreign t ht id
    rcases hid with hid | hid | hid
    · exact absurd hid href
    · exact absurd hid hdebit
    · exact absurd hid hreversal
  · obtain ⟨t, ht, hkey⟩ := exists_of_key hk
    exact absurd hkey (h.foreign t ht id).2.2

/-! What the ledger's rows about a payout sum to. -/

/-- Rows that bear one of two keys sum to the amounts of the keys that are there. -/
theorem sum_of_two_keys (ts : List (WalletTransaction LedgerKey)) {k j : LedgerKey} {a b : ℤ}
    (hne : k ≠ j) (hnodup : (ts.map (·.idempotencyKey)).Nodup)
    (hts : ∀ t ∈ ts, t.idempotencyKey = k ∧ t.amount = a ∨ t.idempotencyKey = j ∧ t.amount = b) :
    (ts.map (·.amount)).sum = (if k ∈ ts.map (·.idempotencyKey) then a else 0) +
      (if j ∈ ts.map (·.idempotencyKey) then b else 0) := by
  induction ts with
  | nil => rfl
  | cons t ts ih =>
    obtain ⟨hnot, hnodup⟩ := List.nodup_cons.mp hnodup
    rw [List.map_cons, List.sum_cons, ih hnodup fun u hu ↦ hts u (List.mem_cons_of_mem _ hu)]
    rcases hts t List.mem_cons_self with ⟨hkey, ha⟩ | ⟨hkey, hb⟩
    · dsimp only at hnot
      rw [hkey] at hnot
      simp only [List.map_cons, List.mem_cons, hkey, true_or, if_true, hne.symm, false_or,
        if_neg hnot, ha]
      omega
    · dsimp only at hnot
      rw [hkey] at hnot
      simp only [List.map_cons, List.mem_cons, hkey, true_or, if_true, hne, false_or,
        if_neg hnot, hb]
      omega

/-- The sum of the legs that refer to a payout. -/
def World.legsOf (w : World) (id : ℕ) : ℤ :=
  ((w.ledger.transactions.filter (·.refId = some (.payout id))).map (·.amount)).sum

theorem Books.legsOf (h : Books w) (hrow : w.payout id = some row) :
    w.legsOf id = (if .payoutDebit id ∈ w.ledger.keys then -row.amount else 0) +
      (if .payoutReversal id ∈ w.ledger.keys then row.amount else 0) := by
  let ts := w.ledger.transactions.filter (·.refId = some (.payout id))
  have hkeys (k : LedgerKey) (hk : k = .payoutDebit id ∨ k = .payoutReversal id) :
      k ∈ ts.map (·.idempotencyKey) ↔ k ∈ w.ledger.keys := by
    constructor
    · intro hmem
      obtain ⟨t, ht, rfl⟩ := List.mem_map.mp hmem
      exact List.mem_map_of_mem (List.mem_filter.mp ht).1
    · intro hmem
      obtain ⟨t, ht, rfl⟩ := List.mem_map.mp hmem
      obtain ⟨-, -, href, -⟩ := h.booked t ht id (.inr hk)
      exact List.mem_map_of_mem (List.mem_filter.mpr ⟨ht, decide_eq_true href⟩)
  have hsum := sum_of_two_keys ts (k := .payoutDebit id) (j := .payoutReversal id)
    (a := -row.amount) (b := row.amount) (by simp) ?_ fun t ht ↦ ?_
  · simp only [hkeys _ (.inl rfl), hkeys _ (.inr rfl)] at hsum
    exact hsum
  · exact h.sound.unique.sublist (List.filter_sublist.map _)
  · obtain ⟨ht, href⟩ := List.mem_filter.mp ht
    obtain ⟨row', hrow', -, hkey⟩ := h.booked t ht id (.inl (of_decide_eq_true href))
    cases hrow.symm.trans hrow'
    exact hkey

/-- A request stands before the reversal of payout `id`. -/
def Returning (ps : List (Request Unit)) (id : ℕ) : Prop :=
  ∃ row next, row.id = id ∧ Proc.step (.reverse row) next ∈ ps

theorem returning_of_debt {ps : List (Request Unit)} {r : PayoutRow} (h : .reverse r ∈ holds.debts ps) :
    Returning ps r.id := by
  obtain ⟨p, hp, hdebt⟩ := List.mem_filterMap.mp (Multiset.mem_coe.mp h)
  cases p with
  | done res => cases hdebt
  | step l next =>
    rw [Duties.debt] at hdebt
    split_ifs at hdebt
    cases hdebt
    exact ⟨r, next, rfl, hp⟩

/-- What the ledger owes each payout, with the requests `ps` in flight. -/
structure Conserved (ps : List (Request Unit)) (w : World) (id : ℕ) : Prop where
  matched : .payoutReversal id ∈ w.ledger.keys → .payoutDebit id ∈ w.ledger.keys
  standing : ∀ row, w.payout id = some row → row.status ≠ .failed →
    w.legsOf id = if .payoutDebit id ∈ w.ledger.keys then -row.amount else 0
  failed : ∀ row, w.payout id = some row → row.status = .failed → ¬Returning ps id →
    w.legsOf id = 0 ∧ (.payoutDebit id ∈ w.ledger.keys → .payoutReversal id ∈ w.ledger.keys)

theorem Accounted.conserved {ps : List (Request Unit)} (h : Accounted (holds.debts ps) w) (id : ℕ) :
    Conserved ps w id := by
  refine ⟨fun hk ↦ (h.reversed id hk).1, fun row hrow hst ↦ ?_, fun row hrow hst hret ↦ ?_⟩
  · have hno : .payoutReversal id ∉ w.ledger.keys := by
      intro hk
      obtain ⟨-, row', hrow', hf⟩ := h.reversed id hk
      cases hrow.symm.trans hrow'
      exact hst hf
    rw [h.legsOf hrow, if_neg hno, add_zero]
  · have hback (hk : .payoutDebit id ∈ w.ledger.keys) : .payoutReversal id ∈ w.ledger.keys := by
      rcases h.returned id row hrow hst hk with hk | ⟨r, rfl, hr⟩
      · exact hk
      · exact absurd (returning_of_debt hr) hret
    refine ⟨?_, hback⟩
    rw [h.legsOf hrow]
    by_cases hk : .payoutDebit id ∈ w.ledger.keys
    · rw [if_pos hk, if_pos (hback hk)]
      omega
    · rw [if_neg hk, if_neg fun hr ↦ hk (h.reversed id hr).1]
      rfl

theorem payouts_conserve {ps : List (Request Unit)} {w₀ : World} {es : List (Event Step World)}
    (h₀ : Unpaid w₀) (h : RunsDying (Acts env) (fun l ↦ ∀ r, l ≠ .reverse r) w₀ ps w es)
    (hb : ∀ e ∈ es, Backed e.label e.before) (id : ℕ) : Conserved ps w id :=
  (accounted_keeps.runs (fun _ ↦ pays_acts) h₀.accounted h hb).conserved id

def World.fresh : World where
  now := 0
  payouts := []
  ledger := .empty
  destinations _ := none
  autoApproveMaxPaise := 500000
  webhookEvents := []
  vendor := ⟨[], .accepts .processing none false⟩

theorem unpaid_fresh : Unpaid World.fresh := ⟨rfl, .empty, by simp [World.fresh, Ledger.empty]⟩

def sampleOwner : WalletOwner := ⟨.driver, 1⟩

def earning : LedgerLeg LedgerKey where
  owner := sampleOwner
  type := .adjustment
  amountPaise := .int 300000
  reason := "earning"
  refId := none
  idempotencyKey := .other 0

theorem foreign_earning : Foreign [earning] := by
  intro leg hleg
  cases List.mem_singleton.mp hleg
  exact ⟨fun id ↦ ⟨by simp [earning], by simp [earning]⟩, by simp [earning]⟩

/-- The owner has earned three thousand rupees and linked a bank account. -/
def linked : List (Request Unit) :=
  [Proc.write (.post ⟨[earning], foreign_earning⟩), Proc.write (.link sampleOwner (some "fa_1"))]

theorem linked_acts : ∀ q ∈ linked, Acts sampleEnv q := by
  simp only [linked, List.forall_mem_cons, List.not_mem_nil, false_imp_iff, forall_true_iff, and_true]
  exact ⟨.ambient _ (.post _), .ambient _ (.link _ _)⟩

/-- The vendor refuses one payout and accepts the next. -/
def refusedOnce : List (Request Unit) :=
  linked ++
    [Proc.write (.vendorMood (.refuses "no such account")),
      (PayoutsService.request sampleEnv sampleOwner 100000 "a").ignore,
      Proc.write (.vendorMood (.accepts .processing none false)),
      (PayoutsService.request sampleEnv sampleOwner 200000 "b").ignore]

theorem refusedOnce_acts : ∀ q ∈ refusedOnce, Acts sampleEnv q := by
  refine List.forall_mem_append.mpr ⟨linked_acts, ?_⟩
  simp only [List.forall_mem_cons, List.not_mem_nil, false_imp_iff, forall_true_iff, and_true]
  exact ⟨.ambient _ (.vendorMood _), .request _ _ _, .ambient _ (.vendorMood _), .request _ _ _⟩

theorem payouts_conserve_sample :
    (runAll refusedOnce World.fresh).1.ledger.keys =
        [.other 0, .payoutDebit 0, .payoutReversal 0, .payoutDebit 1] ∧
      ∀ id, Conserved [] (runAll refusedOnce World.fresh).1 id := by
  have h := Uncut.start.runAll (s := World.fresh) refusedOnce_acts
  refine ⟨by decide +kernel, ?_⟩
  exact payouts_conserve unpaid_fresh h.runsDying (by decide +kernel)

/-- The server stops between the row and its hold; the sweep finds the row later. -/
def neverHeld : List (Request Unit × Option ℕ) :=
  linked.map (·, none) ++
    [((PayoutsService.request sampleEnv sampleOwner 100000 "a").ignore, some 3),
      (Proc.write (.tick 1000000), none),
      (PayoutReconcileService.reconcile sampleEnv, none)]

theorem linked_uncut {p : Request Unit × Option ℕ} (h : p ∈ linked.map (·, none)) :
    Acts sampleEnv p.1 := by
  obtain ⟨q, hq, rfl⟩ := List.mem_map.mp h
  exact linked_acts q hq

theorem neverHeld_acts : ∀ p ∈ neverHeld, Acts sampleEnv p.1 := by
  refine List.forall_mem_append.mpr ⟨fun _ ↦ linked_uncut, ?_⟩
  simp only [List.forall_mem_cons, List.not_mem_nil, false_imp_iff, forall_true_iff, and_true]
  exact ⟨.request _ _ _, .ambient _ (.tick _), .reconcile⟩

/-- Money that was never taken is returned. -/
theorem payout_credited_from_nothing : ∃ w es, Runs (Acts sampleEnv) World.fresh [] w es ∧
    LedgerKey.payoutReversal 0 ∈ w.ledger.keys ∧ LedgerKey.payoutDebit 0 ∉ w.ledger.keys ∧
      w.legsOf 0 = 100000 ∧ w.ledger.balanceOf sampleOwner = 400000 := by
  refine ⟨_, _, (Serial.start.runCut neverHeld_acts).runs, ?_⟩
  decide +kernel

end Towing.Payouts
