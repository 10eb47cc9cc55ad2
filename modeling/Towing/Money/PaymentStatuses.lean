import Towing.Money.Grounded

namespace Towing.Money

open Towing.Db Towing.Process

/-- What can be given back of a payment. -/
def PaymentRow.pool (row : PaymentRow) : ℤ := World.gatewayPool row + World.walletPool row

/-- What a step does to the status of a payment. -/
inductive Moved (w : World) (l : Step) (row row' : PaymentRow) : Prop
  | same : row'.status = row.status → Moved w l row row'
  | failed : World.isOpen row = true → row'.status = .failed → Moved w l row row'
  | captured {ref : Option Ref} {method : Option PaymentMethod} {on : Option Settling} :
      l = .markCaptured row.id ref method on → w.markCapturedError row.id ref = none → row.status ≠ .captured →
      row'.status = .captured → Moved w l row row'
  | refunded : l = .applyRefund row.id → World.gatewayPool row ≤ w.refundedGateway row.id →
      World.walletPool row ≤ w.refundedWallet row.id → row'.status = .refunded → Moved w l row row'

variable {w : World} {l : Step} {id : ℕ} {row : PaymentRow}

theorem moved_update {f : PaymentRow → PaymentRow} {i : ℕ} (hid : ∀ row, (f row).id = row.id)
    (hpool : ∀ row, (f row).pool = row.pool) (hf : ∀ row, row.id = i → Moved w l row (f row))
    (h : w.payment id = some row) :
    ∃ row', (w.updatePayment i f).payment id = some row' ∧ row'.pool = row.pool ∧ Moved w l row row' := by
  refine ⟨if row.id = i then f row else row, ?_, ?_, ?_⟩
  · rw [World.payment_updatePayment hid, h]
    rfl
  · split_ifs
    · exact hpool row
    · rfl
  · split_ifs with hi
    · exact hf row hi
    · exact .same rfl

theorem moved_self (h : w.payment id = some row) :
    ∃ row', w.payment id = some row' ∧ row'.pool = row.pool ∧ Moved w l row row' := ⟨row, h, rfl, .same rfl⟩

/-- The statuses move as the guards of the updates have it. -/
theorem status_run (l : Step) (h : w.payment id = some row) :
    ∃ row', (w.run l).payment id = some row' ∧ row'.pool = row.pool ∧ Moved w l row row' := by
  by_cases ht : l.table = .payments
  · cases l with
    | createPayment p =>
      rcases World.createPayment_eq w p with heq | ⟨new, -, heq⟩
      · rw [World.run, heq]
        exact moved_self h
      · rw [World.run, heq]
        exact ⟨row, World.payment_append h, rfl, .same rfl⟩
    | setOrderRef i ref =>
      simp only [World.run, World.setOrderRef]
      split_ifs
      · exact moved_self h
      · exact moved_update (fun _ ↦ rfl) (fun _ ↦ rfl) (fun _ _ ↦ .same rfl) h
    | markCaptured i ref method on =>
      simp only [World.run, World.markCaptured]
      split_ifs with herror
      · exact moved_self h
      · refine moved_update (fun row ↦ ?_) (fun row ↦ ?_) (fun row hi ↦ ?_) h
        · split_ifs <;> rfl
        · split_ifs <;> rfl
        · subst hi
          split_ifs with hcaptured
          · exact .same rfl
          · exact .captured rfl (by simpa using herror) hcaptured rfl
    | markFailed i reason =>
      refine moved_update (fun row ↦ ?_) (fun row ↦ ?_) (fun row hi ↦ ?_) h
      · split_ifs <;> rfl
      · split_ifs <;> rfl
      · split_ifs with hopen
        · exact .failed hopen rfl
        · exact .same rfl
    | applyRefund i =>
      refine moved_update (fun _ ↦ rfl) (fun _ ↦ rfl) (fun row hi ↦ ?_) h
      subst hi
      by_cases hcovered : World.gatewayPool row ≤ w.refundedGateway row.id ∧ World.walletPool row ≤ w.refundedWallet row.id
      · exact .refunded rfl hcovered.1 hcovered.2 (if_pos hcovered)
      · exact .same (if_neg hcovered)
    | _ => cases ht
  · refine ⟨row, ?_, rfl, .same rfl⟩
    rw [World.payment, World.run_payments ht]
    exact h

/-- The refunds of a step's payment are those there were, but for the one that it inserts. -/
theorem refunds_run {r : RefundRow} (h : r ∈ (w.run l).refunds) :
    (∃ old ∈ w.refunds, old.paymentId = r.paymentId) ∨
      ∃ new seen, l = .insertRefund new seen ∧ r.paymentId = new.paymentId := by
  have hmap {f : RefundRow → RefundRow} (hf : ∀ r, (f r).paymentId = r.paymentId) (h : r ∈ w.refunds.map f) :
      ∃ old ∈ w.refunds, old.paymentId = r.paymentId := by
    obtain ⟨old, hold, rfl⟩ := List.mem_map.mp h
    exact ⟨old, hold, (hf old).symm⟩
  by_cases ht : l.table = .refunds
  · cases l with
    | insertRefund new seen =>
      rcases World.createRefund_eq (w := w) new with heq | ⟨-, heq⟩
      · rw [World.run, heq] at h
        exact .inl ⟨r, h, rfl⟩
      · rw [World.run, heq] at h
        rcases List.mem_append.mp h with h | h
        · exact .inl ⟨r, h, rfl⟩
        · cases List.mem_singleton.mp h
          exact .inr ⟨new, seen, rfl, rfl⟩
    | refundAnswered | refundFailed | refundProcessed =>
      refine .inl (hmap (fun r ↦ ?_) h)
      split_ifs <;> rfl
    | refundConfirmed ref =>
      refine .inl (hmap (fun r ↦ ?_) h)
      split_ifs <;> rfl
    | _ => cases ht
  · rw [World.run_refunds ht] at h
    exact .inl ⟨r, h, rfl⟩

/-- The payment has been captured, whether or not it has been refunded since. -/
def World.Took (w : World) (id : ℕ) : Prop :=
  ∃ row, w.payment id = some row ∧ (row.status = .captured ∨ row.status = .refunded)

/-- Every payment is of something, and what is refunded has been captured. -/
structure World.Accounted (w : World) : Prop where
  numbered : w.Numbered
  pool : ∀ id row, w.payment id = some row → 0 < row.pool
  refunds : ∀ r ∈ w.refunds, w.Took r.paymentId

theorem took_run (h : w.Took id) : (w.run l).Took id := by
  obtain ⟨row, hrow, hstatus⟩ := h
  obtain ⟨row', hrow', -, hmoved⟩ := status_run l hrow
  refine ⟨row', hrow', ?_⟩
  cases hmoved with
  | same hsame =>
    rw [hsame]
    exact hstatus
  | failed hopen _ =>
    rcases hstatus with hs | hs
    · simp [World.isOpen, hs] at hopen
    · simp [World.isOpen, hs] at hopen
  | captured _ _ _ hcaptured => exact .inl hcaptured
  | refunded _ _ _ hrefunded => exact .inr hrefunded

/-- A payment that is refunded in full has been captured. -/
theorem took_of_covered (h : w.Accounted) (hrow : w.payment id = some row)
    (hgateway : World.gatewayPool row ≤ w.refundedGateway row.id)
    (hwallet : World.walletPool row ≤ w.refundedWallet row.id) : w.Took id := by
  have hpool := h.pool id row hrow
  obtain ⟨-, hid⟩ := World.mem_of_payment hrow
  have hsome : w.refundsOf row.id ≠ [] := by
    intro hnil
    simp only [World.refundedGateway, World.refundedWallet, hnil, List.map_nil, List.sum_nil] at hgateway hwallet
    unfold PaymentRow.pool at hpool
    omega
  obtain ⟨r, hr⟩ := List.exists_mem_of_ne_nil _ hsome
  obtain ⟨hr, hof⟩ := List.mem_filter.mp hr
  simp only [Bool.and_eq_true, decide_eq_true_eq] at hof
  have htook := h.refunds r hr
  rwa [hof.1, hid] at htook

theorem pool_of_insert {p : NewPayment} (hok : w.insertPayment p = .ok row)
    (hwallet : p.provider = .wallet → p.amount = 0) : 0 < row.pool := by
  obtain ⟨-, -, hamount, happlied, hprovider, -⟩ := World.insertPayment_ok hok
  unfold World.insertPayment at hok
  split_ifs at hok with _ hpositive happlied'
  unfold PaymentRow.pool World.gatewayPool World.walletPool
  rw [hamount, happlied, hprovider]
  cases hp : p.provider with
  | cash => simp; omega
  | wallet =>
    have := hwallet hp
    simp
    omega
  | gateway => simp; omega

section Runs

variable {env : Env} {s s' : World} {cs : List (Call Step World Failure)} {es : List (ℕ × Event Step World)}
  {i j m n : ℕ} {e f : Event Step World}

theorem grounded_of_makes (h : Calls (MovesMoney env) s cs s' es) (he : Makes es i n e) :
    Grounded (own n (es.take i)) e.label := by
  obtain ⟨call, -, hgrounded⟩ := h.heeds_at (Φ := fun _ ↦ Grounded) (fun p hp ↦ movesMoney_grounded hp) he
  exact hgrounded

theorem numbered_at (h : Calls (MovesMoney env) s cs s' es) (hs : s.Numbered) (he : Makes es i n e) :
    e.before.Numbered := by
  refine ((h.kept (I := World.Numbered) hs fun j m f hf hI ↦ ?_).2 i n e he).1
  rw [h.commit_at hf]
  exact World.run_numbered hI

/-- What was found captured is captured or refunded from then on. -/
theorem took_since (h : Calls (MovesMoney env) s cs s' es) (hs : s.Numbered) (hq : Makes es j n e)
    (hfound : FindsCaptured id e) (hji : j < i) (hf : Makes es i m f) : f.before.Took id := by
  obtain ⟨b, row, hl, hrow, rfl⟩ := hfound
  obtain ⟨hmem, -, hcaptured⟩ := mem_capturedFor hrow
  have htook : e.before.Took row.id := ⟨row, (numbered_at h hs hq).payment_of_mem hmem, .inl hcaptured⟩
  refine (h.kept_after (I := fun t ↦ t.Took row.id) hq ?_ fun k o g _ hg hI ↦ ?_).2 i m f hji hf
  · rw [h.commit_at hq]
    exact took_run htook
  · rw [h.commit_at hg]
    exact took_run hI

theorem accounted_at (h : Calls (MovesMoney env) s cs s' es) (hs : s.Accounted) (he : Makes es i n e) :
    e.before.Accounted := by
  refine ((h.kept (I := World.Accounted) hs fun j m f hf hI ↦ ?_).2 i n e he).1
  have hgrounded := grounded_of_makes h hf
  rw [h.commit_at hf]
  change World.Accounted (f.before.run f.label)
  refine ⟨World.run_numbered hI.numbered, fun id row hrow ↦ ?_, fun r hr ↦ ?_⟩
  · cases hbefore : f.before.payment id with
    | some old =>
      obtain ⟨row', hrow', hpool, -⟩ := status_run f.label hbefore
      obtain rfl := Option.some.inj (hrow.symm.trans hrow')
      rw [hpool]
      exact hI.pool id old hbefore
    | none =>
      obtain ⟨p, hl, hok⟩ := payment_of_run hbefore hrow
      rw [hl] at hgrounded
      cases hgrounded with
      | idle hidle => cases hidle
      | create hwallet => exact pool_of_insert hok hwallet
      | gateway hcapture =>
        obtain ⟨_, _, _, _, hrecords⟩ := hcapture
        exact hrecords.elim
  · rcases refunds_run hr with ⟨old, hold, hpayment⟩ | ⟨new, seen, hl, hpayment⟩
    · rw [← hpayment]
      exact took_run (hI.refunds old hold)
    · rw [hl] at hgrounded
      cases hgrounded with
      | idle hidle => cases hidle
      | refund hseen =>
        obtain ⟨q, hq, hfound⟩ := hseen
        obtain ⟨k, hkj, hq⟩ := makes_of_own hq
        rw [hpayment]
        exact took_run (took_since h hs.numbered hq hfound hkj hf)
      | gateway hcapture =>
        obtain ⟨_, _, _, _, hrecords⟩ := hcapture
        exact hrecords.elim

/-- The ways a status may go. -/
inductive Forward (past : List (Event Step World)) (l : Step) : PaymentStatus → PaymentStatus → Prop
  | same (status : PaymentStatus) : Forward past l status status
  | failed {status : PaymentStatus} : status = .pending ∨ status = .authorized → Forward past l status .failed
  | captured {status : PaymentStatus} : status = .pending ∨ status = .authorized → Forward past l status .captured
  | late : GatewayCapture past l → Forward past l .failed .captured
  | refunded : Forward past l .captured .refunded

theorem Forward.of_refunded {past : List (Event Step World)} {status : PaymentStatus}
    (h : Forward past l .refunded status) : status = .refunded := by
  cases h with
  | same => rfl
  | failed hopen => simp at hopen
  | captured hopen => simp at hopen

/-- No payment's status runs backwards. -/
structure RunsForward (es : List (ℕ × Event Step World)) : Prop where
  opened : ∀ i n e id row, Makes es i n e → e.before.payment id = none → e.after.payment id = some row →
    row.status = .pending
  forward : ∀ i n e id row, Makes es i n e → e.before.payment id = some row →
    ∃ row', e.after.payment id = some row' ∧ Forward (own n (es.take i)) e.label row.status row'.status
  /-- A payment that is refunded stays so, and is found captured by nobody. -/
  final : ∀ i j n m e f id row, Makes es i n e → e.after.payment id = some row → row.status = .refunded → i < j →
    Makes es j m f → (∃ row', f.before.payment id = some row' ∧ row'.status = .refunded) ∧
      ∀ b purpose row', f.before.capturedFor b purpose = some row' → row'.id ≠ id

/-- A capture that goes through finds its payment not refunded, and not failed where it is not
the gateway's. -/
def CapturesInTime (es : List (ℕ × Event Step World)) : Prop :=
  ∀ i n e id ref method on row, Makes es i n e → e.label = .markCaptured id ref method on →
    e.before.markCapturedError id ref = none → e.before.payment id = some row →
    row.status ≠ .refunded ∧ ∀ s, on = some s → s.counter → row.status ≠ .failed

theorem open_status (h : World.isOpen row = true) : row.status = .pending ∨ row.status = .authorized := by
  simpa [World.isOpen] using h

theorem forward_of_inTime (h : Calls (MovesMoney env) s cs s' es) (hs : s.Accounted) (hlate : CapturesInTime es)
    (he : Makes es i n e) (hrow : e.before.payment id = some row) :
    ∃ row', e.after.payment id = some row' ∧ Forward (own n (es.take i)) e.label row.status row'.status := by
  obtain ⟨row', hrow', -, hmoved⟩ := status_run e.label hrow
  obtain ⟨-, hid⟩ := World.mem_of_payment hrow
  refine ⟨row', by rw [h.commit_at he]; exact hrow', ?_⟩
  cases hmoved with
  | same hsame =>
    rw [hsame]
    exact .same _
  | failed hopen hfailed =>
    rw [hfailed]
    exact .failed (open_status hopen)
  | @captured ref method on hl herror hne hcaptured =>
    rw [hcaptured]
    rw [hid] at hl herror
    obtain ⟨hrefunded, hcounter⟩ := hlate i n e id ref method on row he hl herror hrow
    cases hstatus : row.status with
    | pending => exact .captured (.inl rfl)
    | authorized => exact .captured (.inr rfl)
    | captured => exact absurd hstatus hne
    | refunded => exact absurd hstatus hrefunded
    | failed =>
      have hgrounded := grounded_of_makes h he
      rw [hl] at hgrounded ⊢
      cases hgrounded with
      | idle hidle => cases hidle
      | counter hon => exact absurd hstatus (hcounter _ rfl hon)
      | gateway hcapture => exact .late hcapture
  | refunded _ hgateway hwallet hrefunded =>
    rw [hrefunded]
    obtain ⟨row'', hrow'', hstatus⟩ := took_of_covered (accounted_at h hs he) hrow hgateway hwallet
    obtain rfl := Option.some.inj (hrow.symm.trans hrow'')
    rcases hstatus with hcaptured | hdone
    · rw [hcaptured]
      exact .refunded
    · rw [hdone]
      exact .same _

/-- Where no capture comes late, no payment's status runs backwards. -/
theorem runs_forward (h : Calls (MovesMoney env) s cs s' es) (hs : s.Accounted) (hlate : CapturesInTime es) :
    RunsForward es := by
  constructor
  · intro i n e id row he hnone hrow
    rw [h.commit_at he] at hrow
    obtain ⟨p, -, hok⟩ := payment_of_run hnone hrow
    obtain ⟨-, -, -, -, -, -, hpending, -⟩ := World.insertPayment_ok hok
    exact hpending
  · intro i n e id row he hrow
    exact forward_of_inTime h hs hlate he hrow
  · intro i j n m e f id row he hrow hrefunded hij hf
    have hstays : ∃ row', f.before.payment id = some row' ∧ row'.status = .refunded := by
      refine (h.kept_after (I := fun t ↦ ∃ row', t.payment id = some row' ∧ row'.status = .refunded) he
        ⟨row, hrow, hrefunded⟩ fun k o g _ hg hI ↦ ?_).2 j m f hij hf
      obtain ⟨row', hrow', hstatus⟩ := hI
      obtain ⟨row'', hrow'', hforward⟩ := forward_of_inTime h hs hlate hg hrow'
      refine ⟨row'', hrow'', ?_⟩
      rw [hstatus] at hforward
      exact hforward.of_refunded
    refine ⟨hstays, fun b purpose row' hfound hid ↦ ?_⟩
    obtain ⟨hmem, -, hcaptured⟩ := mem_capturedFor hfound
    obtain ⟨row'', hrow'', hstatus⟩ := hstays
    have hrow' := (numbered_at h hs.numbered hf).payment_of_mem hmem
    rw [hid, hrow''] at hrow'
    obtain rfl := Option.some.inj hrow'
    rw [hstatus] at hcaptured
    cases hcaptured

end Runs

/-! A payment that is collected after the trip was cancelled, and given back. -/

/-- The customer opens the checkout of a completed trip that is then disputed and cancelled,
pays, and is refunded. -/
def refundedCheckout : List (Request Unit) :=
  [Proc.write (.placeBooking 1 (sampleTrip .completed)), (PaymentsService.createIntent sampleEnv 1 7 .booking "a").ignore,
    Proc.write (.transition 1 .disputed {} none), Proc.write (.transition 1 .cancelled {} none),
    Proc.write (.gatewayAttempt ⟨0, .captured, some .upi, none⟩),
    WebhooksController.razorpay sampleEnv (capturedEvent 0 0 1 1000),
    (RefundsService.refundBooking sampleEnv ⟨1, "cancelled", "admin", none, some (.admin 9 "key")⟩).ignore]

/-- Another event of the same capture comes late. -/
def lateEvent : PaymentWebhookEvent := { capturedEvent 0 0 1 1000 with eventId := "evt_late" }

theorem refundedCheckout_moves : ∀ p ∈ refundedCheckout ++ [WebhooksController.razorpay sampleEnv lateEvent],
    MovesMoney sampleEnv p := by
  simp only [refundedCheckout, List.cons_append, List.nil_append, List.forall_mem_cons]
  exact ⟨.collects (.ambient _ rfl), .collects (.createIntent _ _ _ _), .collects (.ambient _ rfl),
    .collects (.ambient _ rfl), .collects (.ambient _ rfl), .collects (.webhook _), .full _, .collects (.webhook _), by simp⟩

/-- Each request runs to its end before the next. -/
def inTurn (ps : List (Request Unit)) (ns : List ℕ) :
    List (Call Step World Failure) × World × List (ℕ × Event Step World) :=
  takeTurns ns (ps.map fun p ↦ ⟨p, p⟩) World.blank

theorem inTurn_calls {ps : List (Request Unit)} (hps : ∀ p ∈ ps, MovesMoney sampleEnv p) (ns : List ℕ) :
    Calls (MovesMoney sampleEnv) World.blank (inTurn ps ns).1 (inTurn ps ns).2.1 (inTurn ps ns).2.2 := by
  simpa [inTurn] using (Calls.start.askAll hps).takeTurns ns

def refundedTurns : List ℕ :=
  [0] ++ List.replicate 6 1 ++ [2, 3, 4] ++ List.replicate 10 5 ++ List.replicate 9 6

theorem RunsForward.not_again {es : List (ℕ × Event Step World)} (h : RunsForward es) (i id : ℕ) :
    (es[i]?).map (fun x ↦ ((x.2.before.payment id).map (·.status), (x.2.after.payment id).map (·.status))) ≠
      some (some .refunded, some .captured) := by
  intro hat
  obtain ⟨⟨n, e⟩, he, hstatuses⟩ := Option.map_eq_some_iff.mp hat
  obtain ⟨hbefore, hafter⟩ := Prod.mk.inj hstatuses
  obtain ⟨row, hrow, hrefunded⟩ := Option.map_eq_some_iff.mp hbefore
  obtain ⟨row', hrow', hmove⟩ := h.forward i n e id row he hrow
  rw [hrow', Option.map_some, Option.some.injEq] at hafter
  rw [hrefunded, hafter] at hmove
  cases hmove.of_refunded

/-- A refunded payment is captured again. -/
theorem captured_after_refund : ∃ cs w es, Calls (MovesMoney sampleEnv) World.blank cs w es ∧ ¬RunsForward es :=
  ⟨_, _, _, inTurn_calls refundedCheckout_moves (refundedTurns ++ List.replicate 9 7), fun h ↦
    h.not_again 34 0 (by decide +kernel)⟩

theorem refundedCheckout_inTime : CapturesInTime (inTurn refundedCheckout refundedTurns).2.2 := by
  have hlive : ∀ x ∈ (inTurn refundedCheckout refundedTurns).2.2, x.2.label.idle = false →
      ∀ row ∈ x.2.before.payments, row.status ≠ .refunded ∧ row.status ≠ .failed := by decide +kernel
  intro i n e id ref method on row he hl _ hrow
  obtain ⟨hrefunded, hfailed⟩ := hlive _ (List.mem_of_getElem? he) (by simp [hl, Step.idle]) row
    (World.mem_of_payment hrow).1
  exact ⟨hrefunded, fun _ _ _ ↦ hfailed⟩

theorem blank_accounted : World.blank.Accounted where
  numbered := rfl
  pool id row h := by cases h
  refunds r h := by cases h

theorem runs_forward_sample : RunsForward (inTurn refundedCheckout refundedTurns).2.2 :=
  runs_forward (inTurn_calls (fun p hp ↦ refundedCheckout_moves p (List.mem_append_left _ hp)) refundedTurns)
    blank_accounted refundedCheckout_inTime

end Towing.Money
