import Towing.Money.Settled
import Towing.Process.Served

namespace Towing.Money

open Towing.Db Towing.Process PaymentsRepo PaymentsService

variable {env : Env} {α : Type} {w w' s t : World} {l : Step} {row : PaymentRow}
  {total balance : ℤ} {b : ℕ} {purpose : PaymentPurpose}

/-- The row charges what an intent for that total and balance would. -/
def PricedAt (total balance : ℤ) (row : PaymentRow) : Prop :=
  row.walletApplied = max 0 (min balance total) ∧
    row.amount = total - max 0 (min balance total)

instance : Decidable (PricedAt total balance row) := inferInstanceAs (Decidable (_ ∧ _))

/-- The intents without an order that a call finds were made for the total and the
balance it has read itself. -/
def StillPriced : Step → World → Prop
  | .select (.reusableIntent b purpose total balance), w => ∀ row ∈ w.openIntent b purpose,
      row.provider ≠ .cash → row.gatewayOrderRef = none → PricedAt total balance row
  | .select (.intentByKey key total balance), w => ∀ row ∈ w.byIdempotencyKey key,
      row.gatewayOrderRef = none → PricedAt total balance row
  | _, _ => True

instance (l : Step) (w : World) : Decidable (StillPriced l w) := by
  unfold StillPriced
  split <;> infer_instance

/-- The row is stored with the amounts it is known with. -/
def Stored (w : World) (id : ℕ) (amount walletApplied : ℤ) : Prop :=
  ∃ row, w.payment id = some row ∧ row.amount = amount ∧ row.walletApplied = walletApplied

def SameAmounts (w w' : World) : Prop :=
  ∀ id amount walletApplied, Stored w id amount walletApplied → Stored w' id amount walletApplied

/-- Every order the vendor has is for what its row stores. -/
def OrdersMatch (w : World) : Prop :=
  ∀ o ∈ w.gateway.orders, ∃ walletApplied, Stored w o.paymentId o.amountPaise walletApplied

/-- The row a customer's answer is about stores what the answer says. -/
def DtoMatches (dto : PaymentIntentDto) (w : World) : Prop :=
  Stored w dto.paymentId dto.amountPaise dto.walletAppliedPaise

theorem Stored.of_payment (h : w.payment row.id = some row) :
    Stored w row.id row.amount row.walletApplied := ⟨row, h, rfl, rfl⟩

theorem Stored.of_mem (hn : w.Numbered) (h : row ∈ w.payments) :
    Stored w row.id row.amount row.walletApplied := .of_payment (hn.payment_of_mem h)

theorem World.PaymentsGrow.sameAmounts (h : w.PaymentsGrow w') : SameAmounts w w' := by
  intro id amount walletApplied hrow
  obtain ⟨row, hrow, ha, hw⟩ := hrow
  obtain ⟨row', hrow', hgrow⟩ := h id row hrow
  exact ⟨row', hrow', hgrow.amount.trans ha, hgrow.walletApplied.trans hw⟩

theorem sameAmounts_update {id : ℕ} {f : PaymentRow → PaymentRow} (hid : ∀ row, (f row).id = row.id)
    (hf : ∀ row, (f row).amount = row.amount ∧ (f row).walletApplied = row.walletApplied) :
    SameAmounts w (w.updatePayment id f) := by
  intro i amount walletApplied hrow
  obtain ⟨row, hrow, ha, hw⟩ := hrow
  rw [Stored, World.payment_updatePayment hid, hrow]
  refine ⟨_, rfl, ?_, ?_⟩
  · dsimp only
    split_ifs
    · exact (hf row).1.trans ha
    · exact ha
  · dsimp only
    split_ifs
    · exact (hf row).2.trans hw
    · exact hw

theorem sameAmounts_run (w : World) (l : Step) : SameAmounts w (w.run l) := by
  by_cases hl : ∀ id, l ≠ .applyRefund id
  · exact (World.run_paymentsGrow hl).sameAmounts
  · push Not at hl
    obtain ⟨id, rfl⟩ := hl
    exact sameAmounts_update (fun _ ↦ rfl) fun _ ↦ ⟨rfl, rfl⟩

/-- What the calls of a run share: an order is only opened for the amount of its row. -/
def ordering : Contract Step World where
  inv w := w.Numbered ∧ OrdersMatch w
  rely := SameAmounts
  cond := StillPriced
  guar l w := ∀ o, l = .createOrder o → ∃ walletApplied, Stored w o.paymentId o.amountPaise walletApplied

theorem ordering_sound : ordering.Sound where
  refl _ _ _ _ h := h
  trans _ _ _ h h' id amount walletApplied hrow := h' id _ _ (h id _ _ hrow)
  inv_commit l w h _ hg := by
    refine ⟨World.run_numbered h.1, fun o ho ↦ ?_⟩
    rcases World.run_orders ho with hold | rfl
    · obtain ⟨x, hrow⟩ := h.2 o hold
      exact ⟨x, sameAmounts_run w l _ _ _ hrow⟩
    · obtain ⟨x, hrow⟩ := hg o rfl
      exact ⟨x, sameAmounts_run w _ _ _ _ hrow⟩
  rely_commit l w _ _ _ := sameAmounts_run w l

abbrev Orders (Φ : Except Failure α → World → Prop) (p : Request α) (s : World) : Prop :=
  ordering.Meets Φ p s

/-- Every step but the one that opens an order. -/
def OpensNothing (l : Step) : Prop := ∀ o, l ≠ .createOrder o

theorem orders_quiet {p : Request α} (h : p.Only OpensNothing) :
    Orders (fun _ _ ↦ True) p s :=
  Contract.Meets.of_only (R := fun _ ↦ True) h (fun _ _ hl _ _ _ ↦ ⟨fun o ho ↦ absurd ho (hl o), trivial⟩)
    (fun _ _ _ _ ↦ trivial) trivial

theorem opensNothing_select (q : Select) (f : World → α) : (select q f).Only OpensNothing :=
  (Proc.Only.query_iff _ _).mpr fun _ h ↦ by cases h

theorem opensNothing_call (q : Select) (f : World → Except Failure α) : (call q f).Only OpensNothing :=
  (Proc.Only.attempt_iff _ _).mpr fun _ h ↦ by cases h

/-! The steps of `createIntent`. -/

/-- A row an order may be opened for: it is stored as it is known, and charges what
the call has worked out. -/
def Openable (total balance : ℤ) (row : PaymentRow) (w : World) : Prop :=
  Stored w row.id row.amount row.walletApplied ∧
    (row.gatewayOrderRef = none → PricedAt total balance row)

theorem orders_reusableIntent :
    Orders (fun r t ↦ ∀ row, r = .ok (some row) → Openable total balance row t)
      (reusableIntent b purpose total balance) s := by
  intro t _ ht hpriced
  refine ⟨fun _ h ↦ (by cases h), ?_⟩
  change Orders _ (Proc.bind (Proc.done (.ok (t.openIntent b purpose))) _) t
  cases hopen : t.openIntent b purpose with
  | none =>
    intro row h
    cases h
  | some row =>
    rw [Proc.bind_ok]
    dsimp only
    split_ifs with hcash
    · intro u _ _ _
      refine ⟨fun _ h ↦ (by cases h), fun row' h ↦ ?_⟩
      cases h
    · intro row' h
      cases h
      have hmem : row ∈ t.payments := by
        have := List.mem_of_getLast? (show (List.filter _ t.payments).getLast? = some row from hopen)
        exact (List.mem_filter.mp this).1
      exact ⟨.of_mem ht.1 hmem, hpriced row hopen hcash⟩

theorem orders_createIntentRow {p : NewPayment} (hw : p.walletApplied = max 0 (min balance total))
    (ha : p.amount = total - max 0 (min balance total)) :
    Orders (fun r t ↦ ∀ row, r = .ok row → Openable total balance row t)
      (createIntentRow p total balance) s := by
  have hcreate : Orders (fun r t ↦ ∀ row, r = .ok row → Openable total balance row t) (create p) s := by
    intro t _ ht _
    refine ⟨fun _ h ↦ (by cases h), fun row hrow ↦ ?_⟩
    dsimp only at hrow
    obtain ⟨hid, -, hra, hrw, -⟩ := World.insertPayment_ok hrow
    refine ⟨.of_payment ?_, fun _ ↦ ⟨hrw.trans hw, hra.trans ha⟩⟩
    change (t.createPayment p).payment row.id = some row
    rw [World.createPayment, hrow]
    exact World.payment_append_new ht.1 hid
  refine Contract.Meets.handle hcreate (fun _ _ h ↦ h) fun e u _ ↦ ?_
  split_ifs
  · intro v _ hv hpriced
    refine ⟨fun _ h ↦ (by cases h), ?_⟩
    change Orders _ (Proc.bind (Proc.done (.ok (v.byIdempotencyKey p.idempotencyKey))) _) v
    cases hfind : v.byIdempotencyKey p.idempotencyKey with
    | none =>
      intro row h
      cases h
    | some existing =>
      intro row h
      cases h
      exact ⟨.of_mem hv.1 (List.mem_of_find?_eq_some hfind), hpriced existing hfind⟩
  · intro row h
    cases h

theorem orders_openOrder {walletPaise gatewayPaise : ℤ} (hrow : Stored s row.id row.amount row.walletApplied)
    (hw : row.walletApplied = walletPaise) (hg : row.amount = gatewayPaise) :
    Orders (fun r t ↦ ∀ dto, r = .ok dto → DtoMatches dto t)
      (openOrder b purpose walletPaise gatewayPaise row) s := by
  subst hw hg
  have hset (ref : Ref) (dto : PaymentIntentDto) {u : World} (hu : DtoMatches dto u) :
      Orders (fun r t ↦ ∀ d, r = .ok d → DtoMatches d t)
        ((setOrderRef row.id ref).bind fun _ ↦ .done (.ok dto)) u := by
    intro v huv _ _
    refine ⟨fun _ h ↦ (by cases h), ?_⟩
    dsimp only
    split
    · intro d h
      cases h
    · intro d h
      cases h
      exact sameAmounts_run v _ _ _ _ (huv _ _ _ hu)
  unfold openOrder
  split_ifs with hzero
  · refine hset (.wallet row.id) ⟨row.id, .wallet row.id, 0, row.walletApplied, true⟩ ?_
    rw [hzero] at hrow
    exact hrow
  · intro t hst ht _
    have hrow' := hst _ _ _ hrow
    refine ⟨fun o ho ↦ ?_, ?_⟩
    · cases ho
      exact ⟨_, hrow'⟩
    · dsimp only
      split_ifs
      · exact hset _ ⟨row.id, _, row.amount, row.walletApplied, false⟩ (sameAmounts_run t _ _ _ _ hrow')
      · intro dto h
        cases h

theorem orders_createIntent (hs : ordering.inv s) (b userId : ℕ) (purpose : PaymentPurpose)
    (clientKey : String) :
    Orders (fun r t ↦ ∀ dto, r = .ok dto → DtoMatches dto t)
      (createIntent env b userId purpose clientKey) s := by
  have hc := ordering_sound
  have htotal (booking : Booking) : (totalPaise env purpose booking).Only OpensNothing := by
    cases purpose with
    | booking => trivial
    | cancellationFee => exact (opensNothing_select _ _).bind fun _ ↦ trivial
  have hspend : (spendable purpose userId).Only OpensNothing := by
    cases purpose with
    | booking => exact opensNothing_select _ _
    | cancellationFee => trivial
  have hrefuse (e : Failure) : (throw e : Request Unit).Only OpensNothing := trivial
  have hno (e : Failure) (t : World) : True → ∀ dto : PaymentIntentDto,
      (.error e : Except Failure PaymentIntentDto) = .ok dto → DtoMatches dto t :=
    fun _ _ h ↦ by cases h
  refine (orders_quiet (opensNothing_call _ _)).seq hc hs (fun booking t _ ht _ ↦ ?_) hno
  refine (orders_quiet (htotal booking)).seq hc ht (fun total u _ hu _ ↦ ?_) hno
  refine (orders_quiet (hrefuse _).when).seq hc hu (fun _ v _ hv _ ↦ ?_) hno
  refine (orders_quiet hspend).seq hc hv (fun balance x _ hx _ ↦ ?_) hno
  dsimp only
  refine Contract.Meets.seq (Q := fun r t ↦ ∀ row, r = .ok row → Openable total balance row t) ?_ hc hx
    (fun row y hrow hy _ ↦ ?_) fun _ _ _ _ h ↦ by cases h
  · refine orders_reusableIntent.bind (fun found y hfound ↦ ?_) fun _ _ _ _ h ↦ by cases h
    cases found with
    | some row =>
      intro row' h
      cases h
      exact hfound row rfl
    | none => exact orders_createIntentRow rfl rfl
  · obtain ⟨hstored, hpriced⟩ := hrow row rfl
    split
    · intro dto h
      cases h
      exact hstored
    · rename_i hnone
      obtain ⟨hw, ha⟩ := hpriced hnone
      exact orders_openOrder hstored hw ha

/-- The calls of `createIntent`, and whatever else goes on beside them. -/
inductive Intents (env : Env) : Request (Option PaymentIntentDto) → Prop
  | createIntent (b userId : ℕ) (purpose : PaymentPurpose) (clientKey : String) :
      Intents env ((createIntent env b userId purpose clientKey).bind fun dto ↦ .done (.ok (some dto)))
  | other {p : Request Unit} : p.Only OpensNothing → Intents env (p.bind fun _ ↦ .done (.ok none))

theorem intents_orders {p : Request (Option PaymentIntentDto)} (hp : Intents env p)
    (hs : ordering.inv s) :
    Orders (fun r t ↦ ∀ dto, r = .ok (some dto) → DtoMatches dto t) p s := by
  cases hp with
  | createIntent b userId purpose clientKey =>
    refine (orders_createIntent hs b userId purpose clientKey).bind (fun dto t h ↦ ?_)
      fun _ _ _ _ h ↦ by cases h
    intro dto' h'
    cases h'
    exact h dto rfl
  | other hq =>
    refine (orders_quiet hq).bind (fun _ t _ ↦ ?_) fun _ _ _ _ h ↦ by cases h
    intro dto h
    cases h

theorem intents_match {ps : List (Request (Option PaymentIntentDto))} {w₀ : World}
    {es : List (Event Step World)} {as : List (Answer World Failure (Option PaymentIntentDto))}
    (hn : w₀.Numbered) (ho : OrdersMatch w₀) (h : Served (Intents env) w₀ ps w es as)
    (hes : ∀ e ∈ es, StillPriced e.label e.before) :
    OrdersMatch w ∧ ∀ a ∈ as, ∀ dto, a.result = .ok (some dto) → DtoMatches dto a.state := by
  obtain ⟨hw, -, ha, -⟩ := h.safe ordering_sound (fun _ hp _ hs ↦ intents_orders hp hs)
    (fun r s t hst hr dto hdto ↦ hst _ _ _ (hr dto hdto)) ⟨hn, ho⟩ hes
  exact ⟨hw.2, ha⟩

def askIntent (clientKey : String) : Request (Option PaymentIntentDto) :=
  (createIntent sampleEnv 1 7 .booking clientKey).bind fun dto ↦ .done (.ok (some dto))

def aside (l : Step) : Request (Option PaymentIntentDto) :=
  (Proc.write l).bind fun _ ↦ .done (.ok none)

theorem aside_intents (h : OpensNothing l) : Intents sampleEnv (aside l) :=
  .other ((Proc.Only.write_iff l).mpr h)

/-- The server dies between the row and its order. -/
def abandonedIntent : List (Request (Option PaymentIntentDto) × Option ℕ) :=
  [(aside (.placeBooking 1 (sampleTrip .completed)), none), (askIntent "a", some 4)]

/-- The customer opens the payment again. -/
def reopenedIntent : List (Request (Option PaymentIntentDto) × Option ℕ) :=
  abandonedIntent ++ [(askIntent "b", none)]

/-- And has earned a reward meanwhile. -/
def rewardedIntent : List (Request (Option PaymentIntentDto) × Option ℕ) :=
  abandonedIntent ++ [(aside (.post [referralReward]), none), (askIntent "b", none)]

theorem abandonedIntent_intents : ∀ p ∈ abandonedIntent, Intents sampleEnv p.1 := by
  simp only [abandonedIntent, List.forall_mem_cons, List.not_mem_nil, false_imp_iff,
    forall_true_iff, and_true]
  exact ⟨aside_intents (fun _ h ↦ by cases h), .createIntent 1 7 .booking "a"⟩

theorem reopenedIntent_intents : ∀ p ∈ reopenedIntent, Intents sampleEnv p.1 := by
  rw [reopenedIntent, List.forall_mem_append]
  exact ⟨abandonedIntent_intents, by simpa using .createIntent 1 7 .booking "b"⟩

theorem rewardedIntent_intents : ∀ p ∈ rewardedIntent, Intents sampleEnv p.1 := by
  rw [rewardedIntent, List.forall_mem_append]
  refine ⟨abandonedIntent_intents, ?_⟩
  simp only [List.forall_mem_cons, List.not_mem_nil, false_imp_iff, forall_true_iff, and_true]
  exact ⟨aside_intents (fun _ h ↦ by cases h), .createIntent 1 7 .booking "b"⟩

theorem intents_match_sample :
    (serveCut reopenedIntent World.blank).1.gateway.orders = [⟨0, 1, .booking, 1000⟩] ∧
      OrdersMatch (serveCut reopenedIntent World.blank).1 ∧
      ∀ a ∈ (serveCut reopenedIntent World.blank).2.2, ∀ dto, a.result = .ok (some dto) →
        DtoMatches dto a.state := by
  have h := Served.start.serveCut (s := World.blank) reopenedIntent_intents
  have hn : World.blank.Numbered := rfl
  exact ⟨by decide +kernel, intents_match hn (by intro o ho; cases ho) h (by decide +kernel)⟩

theorem reopened_order_differs : ∃ w es as,
    Served (Intents sampleEnv) World.blank [] w es as ∧
      w.payments.map (fun row ↦ (row.id, row.amount, row.walletApplied)) = [(0, 1000, 0)] ∧
      w.gateway.orders = [⟨0, 1, .booking, 600⟩] ∧
      as.any fun a ↦ a.result.toOption.bind id |>.any fun dto ↦
        dto.paymentId = 0 && dto.amountPaise = 600 && dto.walletAppliedPaise = 400 := by
  refine ⟨_, _, _, Served.start.serveCut (s := World.blank) rewardedIntent_intents, ?_⟩
  decide +kernel

end Towing.Money
