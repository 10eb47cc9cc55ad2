import Towing.Money.OnePayment
import Towing.Money.Reversal

namespace Towing.Money

open Towing.Db Towing.Process PaymentsService

variable {env : Env} {L : Law} {w w' s : World} {l : Step} {row : PaymentRow}
  {legs : List (LedgerLeg LedgerKey)} {es : List (Event Step World)} {ps : List (Request Unit)}

/-- A captured payment whose wallet part is still to be taken. -/
def Owes (w : World) (row : PaymentRow) : Prop :=
  row.status = .captured ∧ 0 < row.walletApplied ∧ .walletSpend row.bookingId ∉ w.ledger.keys

/-- The customer's balance can pay the wallet part of the row. -/
def Covers (w : World) (row : PaymentRow) : Prop :=
  ∃ r ∈ w.bookings row.bookingId, row.walletApplied ≤ w.ledger.balanceOf ⟨.user, r.userId⟩

instance : Decidable (Owes w row) := inferInstanceAs (Decidable (_ ∧ _))

instance : Decidable (Covers w row) := by
  unfold Covers
  infer_instance

/-- A payment is captured while the balance covers its wallet part, and what is taken
for a booking leaves enough for every other captured payment. -/
def SpendsCovered : Step → World → Prop
  | .markCaptured id _ _ _, w => ∀ row ∈ w.payment id, row.status ≠ .captured →
      0 < row.walletApplied → .walletSpend row.bookingId ∉ w.ledger.keys → Covers w row
  | .post legs, w => (∃ leg ∈ legs, leg.type = .walletSpendDebit) →
      ∀ row ∈ w.payments, Owes (w.post legs) row → Covers (w.post legs) row
  | _, _ => True

instance : (l : Step) → (w : World) → Decidable (SpendsCovered l w)
  | .markCaptured id _ _ _, w => inferInstanceAs (Decidable (∀ row ∈ w.payment id,
      row.status ≠ .captured → 0 < row.walletApplied →
        LedgerKey.walletSpend row.bookingId ∉ w.ledger.keys → Covers w row))
  | .post legs, w => inferInstanceAs (Decidable ((∃ leg ∈ legs, leg.type = .walletSpendDebit) →
      ∀ row ∈ w.payments, Owes (w.post legs) row → Covers (w.post legs) row))
  | .select _, _ | .createPayment _, _ | .setOrderRef _ _, _ | .markFailed _ _, _ => isTrue trivial
  | .transition _ _ _ _, _ | .alarm _, _ | .insertWebhookEvent _, _ => isTrue trivial
  | .webhookProcessed _, _ | .webhookError _ _, _ | .applyCoupon _ _ _, _ => isTrue trivial
  | .removeCoupon _ _, _ | .releaseCoupon _, _ | .acquireLock _, _ => isTrue trivial
  | .releaseLock _, _ | .randomUuid, _ | .createOrder _, _ | .gatewayRefund _, _ => isTrue trivial
  | .insertRefund _ _, _ | .refundAnswered _ _ _, _ | .refundFailed _ _, _ => isTrue trivial
  | .refundProcessed _, _ | .refundConfirmed _, _ | .applyRefund _, _ => isTrue trivial
  | .tick _, _ | .gatewayUp _, _ | .gatewayAttempt _, _ | .gatewayFinish _ _, _ => isTrue trivial
  | .redisUp _, _ | .placeBooking _ _, _ | .updateDriverPay _ _, _ => isTrue trivial
  | .setShare _ _ _, _ => isTrue trivial

structure Solvent (w : World) : Prop where
  ledger : w.ledger.Sound
  balance : ∀ u, 0 ≤ w.ledger.balanceOf ⟨.user, u⟩
  covers : ∀ row ∈ w.payments, Owes w row → Covers w row

/-! What a post leaves in the wallets. -/

theorem TakesNothing.fresh (h : TakesNothing legs) (keys : List LedgerKey) (u : ℕ) :
    0 ≤ (((freshRows keys legs).filter (·.owner = ⟨.user, u⟩)).map (·.amount)).sum := by
  apply List.sum_nonneg
  intro x hx
  obtain ⟨t, ht, rfl⟩ := List.mem_map.mp hx
  obtain ⟨ht, ho⟩ := List.mem_filter.mp ht
  obtain ⟨leg, hleg, rfl, -⟩ := mem_freshRows ht
  have ho : leg.owner = ⟨.user, u⟩ := of_decide_eq_true ho
  exact h leg hleg (by rw [ho])

theorem Owes.of_post (h : w.ledger.Sound) (ho : Owes (w.post legs) row) : Owes w row :=
  ⟨ho.1, ho.2.1, fun hk ↦ ho.2.2 (World.mem_keys_post h hk)⟩

/-- A post that takes nothing only adds to what covers the promises. -/
theorem Solvent.credit (h : Solvent w) (hl : TakesNothing legs) : Solvent (w.post legs) := by
  have hle (u : ℕ) : w.ledger.balanceOf ⟨.user, u⟩ ≤ (w.post legs).ledger.balanceOf ⟨.user, u⟩ := by
    rcases (World.post_rows legs h.ledger).2 with ⟨-, heq⟩ | ⟨-, hrows⟩
    · rw [heq]
    · rw [World.post_balance h.ledger hrows]
      have := hl.fresh w.ledger.keys u
      omega
  refine ⟨(World.post_rows _ h.ledger).1, fun u ↦ (h.balance u).trans (hle u), fun row hrow ho ↦ ?_⟩
  obtain ⟨r, hr, hcov⟩ := h.covers row hrow (ho.of_post h.ledger)
  exact ⟨r, hr, hcov.trans (hle r.userId)⟩

/-- A wallet spend takes what its payment promised, which is there. -/
theorem Solvent.spend (h : Solvent w) (hl : Spends ownBooking w legs)
    (hc : SpendsCovered (.post legs) w) : Solvent (w.post legs) := by
  obtain ⟨b, id, row, r, k, hrow, hcap, hpos, hfit, hb, hr, rfl⟩ := hl
  refine ⟨(World.post_rows _ h.ledger).1, fun u ↦ ?_,
    hc ⟨_, List.mem_singleton_self _, rfl⟩⟩
  rcases (World.post_rows _ h.ledger).2 with ⟨-, heq⟩ | ⟨-, hrows⟩
  · rw [heq]
    exact h.balance u
  rw [World.post_balance h.ledger hrows]
  have hbal := h.balance u
  by_cases hk : LedgerKey.walletSpend b ∈ w.ledger.keys
  · have hnone : freshRows w.ledger.keys (spendLegs b r.userId row.walletApplied) = [] := by
      simp [spendLegs, freshRows, hk]
    rw [hnone]
    simpa using hbal
  · have hone : freshRows w.ledger.keys (spendLegs b r.userId row.walletApplied) =
        (spendLegs b r.userId row.walletApplied).map (·.row) := by
      simp [spendLegs, freshRows, hk]
    have hbook : row.bookingId = b := hfit.symm.trans hb
    obtain ⟨r', hr', hcov⟩ := h.covers row (World.mem_of_payment hrow).1 ⟨hcap, hpos, by rwa [hbook]⟩
    rw [hbook] at hr'
    cases hr.symm.trans hr'
    rw [hone]
    by_cases hu : r.userId = u
    · subst hu
      simp [spendLegs, LedgerLeg.row]
      omega
    · simpa [spendLegs, LedgerLeg.row, hu] using hbal

/-! What the other steps leave. -/

/-- A captured row was captured before, or is captured by this very step. -/
theorem captured_of_run (hg : CollectStep L l w) (hrow : row ∈ (w.run l).payments)
    (hcap : row.status = .captured) :
    (∃ old ∈ w.payments, old.status = .captured ∧ RowGrows old row) ∨
      ∃ id ref method on old, l = .markCaptured id ref method on ∧ old ∈ w.payments ∧
        old.id = id ∧ old.status ≠ .captured ∧ RowGrows old row := by
  cases hg with
  | @createPayment p _ hk =>
    rcases World.createPayment_eq w p with heq | ⟨new, hok, heq⟩
    · rw [World.run, heq] at hrow
      exact .inl ⟨row, hrow, hcap, .refl row⟩
    · rw [World.run, heq] at hrow
      rcases List.mem_append.mp hrow with hrow | hrow
      · exact .inl ⟨row, hrow, hcap, .refl row⟩
      · cases List.mem_singleton.mp hrow
        obtain ⟨-, -, -, -, -, -, hst, -⟩ := World.insertPayment_ok hok
        rw [hst] at hcap
        cases hcap
  | @setOrderRef id ref _ href =>
    simp only [World.run, World.setOrderRef] at hrow
    split_ifs at hrow
    · exact .inl ⟨row, hrow, hcap, .refl row⟩
    · obtain ⟨old, hold, rfl⟩ := List.mem_map.mp hrow
      refine .inl ⟨old, hold, ?_⟩
      by_cases hid : old.id = id
      · rw [if_pos hid] at hcap ⊢
        exact ⟨hcap, rfl, rfl, rfl, rfl, rfl, rfl, fun h ↦ ⟨h, rfl⟩⟩
      · rw [if_neg hid] at hcap ⊢
        exact ⟨hcap, .refl old⟩
  | @markCaptured id ref method on _ href =>
    simp only [World.run, World.markCaptured] at hrow
    split_ifs at hrow
    · exact .inl ⟨row, hrow, hcap, .refl row⟩
    · obtain ⟨old, hold, rfl⟩ := List.mem_map.mp hrow
      by_cases hid : old.id = id
      · rw [if_pos hid] at hcap ⊢
        dsimp only
        by_cases hc : old.status = .captured
        · rw [if_pos hc]
          exact .inl ⟨old, hold, hc, .refl old⟩
        · rw [if_neg hc]
          exact .inr ⟨id, ref, method, on, old, rfl, hold, hid, hc, World.capturedRow_grows hc⟩
      · rw [if_neg hid] at hcap ⊢
        exact .inl ⟨old, hold, hcap, .refl old⟩
  | @markFailed id reason =>
    obtain ⟨old, hold, rfl⟩ := List.mem_map.mp hrow
    refine .inl ⟨old, hold, ?_⟩
    by_cases hid : old.id = id
    · rw [if_pos hid] at hcap ⊢
      dsimp only at hcap ⊢
      by_cases ho : World.isOpen old
      · rw [if_pos ho] at hcap
        cases hcap
      · rw [if_neg ho] at hcap ⊢
        exact ⟨hcap, .refl old⟩
    · rw [if_neg hid] at hcap ⊢
      exact ⟨hcap, .refl old⟩
  | createOrder => exact .inl ⟨row, hrow, hcap, .refl row⟩
  | transition =>
    rw [World.run_payments (by simp [Step.table])] at hrow
    exact .inl ⟨row, hrow, hcap, .refl row⟩
  | post => exact .inl ⟨row, hrow, hcap, .refl row⟩
  | other hp =>
    rw [World.run_payments hp] at hrow
    exact .inl ⟨row, hrow, hcap, .refl row⟩

/-- A step that posts nothing leaves the promises covered. -/
theorem Solvent.aside (h : Solvent w) (hn : w.Numbered) (hg : CollectStep L l w)
    (hl : l.table ≠ .ledger) (hc : SpendsCovered l w) : Solvent (w.run l) := by
  have hled := World.run_ledger (w := w) hl
  refine ⟨by rw [hled]; exact h.ledger, fun u ↦ by rw [hled]; exact h.balance u, ?_⟩
  intro row hrow ho
  have hcovers {old : PaymentRow} (hgrow : RowGrows old row) (hcov : Covers w old) :
      Covers (w.run l) row := by
    obtain ⟨r, hr, hle⟩ := hcov
    obtain ⟨r', hr', hu⟩ := World.run_customer (l := l) hr
    have hb : row.bookingId = old.bookingId := congrArg Prod.fst hgrow.kind
    refine ⟨r', by rw [hb]; exact hr', ?_⟩
    rw [hgrow.walletApplied, hled, hu]
    exact hle
  obtain ⟨hcap, hpos, hkey⟩ := ho
  rw [hled] at hkey
  rcases captured_of_run hg hrow hcap with ⟨old, hold, hst, hgrow⟩ | ⟨id, ref, method, on, old, rfl, hold, rfl, hst, hgrow⟩
  · rw [hgrow.walletApplied] at hpos
    rw [show row.bookingId = old.bookingId from congrArg Prod.fst hgrow.kind] at hkey
    exact hcovers hgrow (h.covers old hold ⟨hst, hpos, hkey⟩)
  · rw [hgrow.walletApplied] at hpos
    rw [show row.bookingId = old.bookingId from congrArg Prod.fst hgrow.kind] at hkey
    exact hcovers hgrow (hc old (hn.payment_of_mem hold) hst hpos hkey)

theorem Solvent.run (h : Solvent w) (hn : w.Numbered) (hg : CollectStep ownBooking l w)
    (hc : SpendsCovered l w) : Solvent (w.run l) := by
  by_cases hl : l.table = .ledger
  · cases hg with
    | post hlegs =>
      rcases hlegs with hlegs | hlegs
      · exact h.credit hlegs
      · exact h.spend hlegs hc
    | other _ _ _ hl' => exact absurd hl hl'
    | _ => cases hl
  · exact h.aside hn hg hl hc

/-- Everything that collects money, and the refunds and rewards credited meanwhile. -/
inductive Spending (env : Env) : Request Unit → Prop
  | collects {p : Request Unit} (h : Collects env p) : Spending env p
  | credit (legs : List (LedgerLeg LedgerKey)) (h : TakesNothing legs) :
      Spending env (ledgerPost legs).ignore

theorem spending_keeps {p : Request Unit} (hp : Spending env p) (hs : Recorded L s) :
    Keeps L (fun _ _ ↦ True) p s := by
  cases hp with
  | collects h => exact collects_keeps h hs
  | credit legs h => exact keeps_harmless (harmless_ledgerPost h).ignore

theorem wallets_not_overdrawn (h₀ : Uncollected s) (hl : s.ledger.Sound)
    (hb : ∀ u, 0 ≤ s.ledger.balanceOf ⟨.user, u⟩) (h : Runs (Spending env) s ps w es)
    (hlaw : ∀ e ∈ es, Lawful ownBooking e.label e.before)
    (hcov : ∀ e ∈ es, SpendsCovered e.label e.before) :
    ∀ u, 0 ≤ w.ledger.balanceOf ⟨.user, u⟩ := by
  obtain ⟨-, hes, -⟩ := h.safe (collecting_sound ownBooking) (fun p hp s hs ↦ spending_keeps hp hs)
    h₀.recorded hlaw
  have hsolvent : Solvent s := by
    refine ⟨hl, hb, fun row hrow ↦ ?_⟩
    rw [h₀.payments] at hrow
    cases hrow
  refine (h.chained.invariant hsolvent fun e he hw ↦ ?_).1.balance
  obtain ⟨hrec, hg⟩ := hes e he
  rw [h.committed e he]
  exact Solvent.run hw (Recorded.numbered hrec) hg (hcov e he)

/-- The customer has four hundred paise and pays trip 1 with them. -/
def rewardedTrip : List (Request Unit) :=
  [Proc.write (.placeBooking 1 (sampleTrip .completed)),
    Proc.write (.placeBooking 2 (sampleTrip .completed)),
    (ledgerPost [referralReward]).ignore,
    (createIntent sampleEnv 1 7 .booking "a").ignore,
    Proc.write (.gatewayAttempt ⟨0, .captured, some .upi, none⟩),
    (capture sampleEnv 1 7 (checkout 0 0)).ignore]

/-- Or opens the payments of both trips before paying either. -/
def promisedTwice : List (Request Unit) :=
  [Proc.write (.placeBooking 1 (sampleTrip .completed)),
    Proc.write (.placeBooking 2 (sampleTrip .completed)),
    (ledgerPost [referralReward]).ignore,
    (createIntent sampleEnv 1 7 .booking "a").ignore,
    (createIntent sampleEnv 2 7 .booking "b").ignore,
    Proc.write (.gatewayAttempt ⟨0, .captured, some .upi, none⟩),
    Proc.write (.gatewayAttempt ⟨1, .captured, some .upi, none⟩),
    (capture sampleEnv 1 7 (checkout 0 0)).ignore,
    (capture sampleEnv 2 7 (checkout 1 1)).ignore]

theorem takesNothing_reward : TakesNothing [referralReward] := by
  intro leg hleg _
  cases List.mem_singleton.mp hleg
  decide

theorem rewardedTrip_spending : ∀ q ∈ rewardedTrip, Spending sampleEnv q := by
  simp only [rewardedTrip, List.forall_mem_cons, List.not_mem_nil, false_imp_iff,
    forall_true_iff, and_true]
  exact ⟨.collects (.ambient _ rfl), .collects (.ambient _ rfl), .credit _ takesNothing_reward,
    .collects (.createIntent _ _ _ _), .collects (.ambient _ rfl), .collects (.capture _ _ _)⟩

theorem promisedTwice_spending : ∀ q ∈ promisedTwice, Spending sampleEnv q := by
  simp only [promisedTwice, List.forall_mem_cons, List.not_mem_nil, false_imp_iff,
    forall_true_iff, and_true]
  exact ⟨.collects (.ambient _ rfl), .collects (.ambient _ rfl), .credit _ takesNothing_reward,
    .collects (.createIntent _ _ _ _), .collects (.createIntent _ _ _ _),
    .collects (.ambient _ rfl), .collects (.ambient _ rfl), .collects (.capture _ _ _),
    .collects (.capture _ _ _)⟩

theorem wallets_not_overdrawn_sample :
    (runAll rewardedTrip World.blank).1.ledger.keys.contains (.walletSpend 1) ∧
      ∀ u, 0 ≤ (runAll rewardedTrip World.blank).1.ledger.balanceOf ⟨.user, u⟩ := by
  have h := Uncut.start.runAll (s := World.blank) rewardedTrip_spending
  refine ⟨by decide +kernel, ?_⟩
  exact wallets_not_overdrawn uncollected_blank Ledger.Sound.empty (fun _ ↦ le_refl 0)
    h.serial.runs (by decide +kernel) (by decide +kernel)

theorem wallet_overdrawn : ∃ w es, Uncut (Spending sampleEnv) World.blank w es ∧
    w.ledger.balanceOf ⟨.user, 7⟩ = -400 ∧
      (w.ledger.transactions.filter (·.owner = ⟨.user, 7⟩)).map (fun t ↦ (t.type, t.amount)) =
        [(.adjustment, 400), (.walletSpendDebit, -400), (.walletSpendDebit, -400)] := by
  refine ⟨_, _, Uncut.start.runAll promisedTwice_spending, ?_⟩
  decide +kernel

end Towing.Money
