import Towing.Db.LedgerPosting
import Towing.Money.SettlementIdentities

namespace Towing.Money

open Towing.Arith Towing.Db Towing.Process LedgerService PaymentsRepo PaymentsService

variable {env : Env} {w : World} {b id d : ℕ} {r : Booking} {row : PaymentRow} {k : Band}
  {legs : List (LedgerLeg LedgerKey)} {on : Settling}

/-! A settlement that cannot fail. -/

theorem computeSettlement_total {i : SettlementInput} (h : 0 ≤ i.totalPaise)
    (hmax : i.totalPaise < 10 ^ 12) (hpct : ∀ pct, i.commissionPct = some pct → isPct pct)
    (hshare : ∀ share, i.driverSharePct = some share → isPct share) :
    ∃ st, computeSettlement i = .ok st ∧ 0 ≤ st.commissionPaise ∧ 0 ≤ st.poolPaise ∧
      st.commissionPaise + st.poolPaise = i.totalPaise := by
  have hok : ∃ st, computeSettlement i = .ok st := by
    have hsafe : 0 ≤ i.totalPaise ∧ i.totalPaise ≤ 2 ^ 53 - 1 := ⟨h, by norm_num; omega⟩
    unfold computeSettlement
    rw [if_neg (not_not.mpr hsafe)]
    dsimp only
    cases hs : i.driverSharePct with
    | none => exact ⟨_, rfl⟩
    | some share =>
      have := hshare share hs
      dsimp only
      rw [if_neg fun hbad ↦ hbad.elim (not_lt.mpr this.1) (not_lt.mpr this.2)]
      exact ⟨_, rfl⟩
  obtain ⟨st, hst⟩ := hok
  obtain ⟨-, hcommission, hsum, -⟩ := computeSettlement_ok hst
  have hc := SettlementInput.commissionPaise_mem h ⟨hmax, hpct⟩
  rw [← hcommission] at hc
  exact ⟨st, hst, hc.1, by omega, hsum⟩

theorem validateAll_ok (h : ∀ leg ∈ legs, validate leg = .ok ()) : validateAll legs = .ok () := by
  induction legs with
  | nil => rfl
  | cons leg legs ih =>
    rw [validateAll, h leg List.mem_cons_self]
    exact ih fun leg' hleg ↦ h leg' (List.mem_cons_of_mem _ hleg)

theorem validate_int {leg : LedgerLeg LedgerKey} {n : ℤ} (ha : leg.amountPaise = .int n)
    (hne : n ≠ 0) (hmax : |n| < 10 ^ 12) (hpos : leg.type.mustBePositive = true → 0 < n)
    (hneg : leg.type.mustBeNegative = true → n < 0) : validate leg = .ok () := by
  have hsafe : decide (|n| ≤ 2 ^ 53 - 1) = true := decide_eq_true (by omega)
  unfold validate
  simp only [ha, JsNumber.isSafeInteger, hsafe, JsNumber.int.injEq, hne, JsNumber.toInt]
  have hp : (leg.type.mustBePositive && decide (n < 0)) = false := by
    cases ht : leg.type.mustBePositive with
    | false => rfl
    | true => exact decide_eq_false (by have := hpos ht; omega)
  have hn : (leg.type.mustBeNegative && decide (0 < n)) = false := by
    cases ht : leg.type.mustBeNegative with
    | false => rfl
    | true => exact decide_eq_false (by have := hneg ht; omega)
  rw [hp, hn]
  rfl

theorem World.post_succeeds (hs : w.ledger.Sound) (hv : validateAll legs = .ok ())
    (hroom : Room w.ledger (legs.map (·.owner)) (weight legs)) :
    (∃ p, (ledgerPost legs).exec w = (.ok p, w.post legs)) ∧
      (w.post legs).ledger.transactions =
        w.ledger.transactions ++ freshRows w.ledger.keys legs := by
  obtain ⟨p, L, hL⟩ := post_ok hs hv hroom
  have hres : w.postResult legs = (.ok p, L) := by
    rw [World.postResult, Proc.transact, hL]
  refine ⟨⟨p, ?_⟩, ?_⟩
  · rw [ledgerPost, Proc.exec_attempt, hres]
    rfl
  · rcases (World.post_rows legs hs).2 with ⟨⟨e, he⟩, -⟩ | ⟨-, hrows⟩
    · rw [hres] at he
      cases he
    · exact hrows

/-! The legs of a cash payment. -/

/-- Only a fleet's driver shares the pool. -/
theorem computeSettlement_fleet {i : SettlementInput} {st : Settlement} {leg : SettlementLeg}
    (h : computeSettlement i = .ok st) (hleg : leg ∈ st.legs) (ho : leg.owner = .fleet) :
    i.driverSharePct ≠ none := by
  intro hnone
  unfold computeSettlement at h
  split_ifs at h
  dsimp only at h
  rw [hnone] at h
  cases h
  dsimp only at hleg
  split_ifs at hleg
  · cases List.mem_singleton.mp hleg
    cases ho
  · cases hleg

theorem credit_not_negative {t : WalletTxnType} (h : isSettlementCredit t = true) :
    t.mustBeNegative = false := by
  revert h
  cases t <;> decide

theorem settlementLegs_valid {input : SettlementCredit} {st : Settlement}
    (hst : computeSettlement ⟨input.totalPaise, input.band, input.commissionPct,
      input.fleet.map (·.driverSharePct)⟩ = .ok st) (hpool : 0 ≤ st.poolPaise)
    (hmax : st.poolPaise < 10 ^ 12) :
    ∃ legs, settlementLegs input = .ok legs ∧ validateAll legs = .ok () ∧
      weight legs ≤ st.poolPaise ∧ ∀ leg ∈ legs, leg.owner = ⟨.driver, input.driverId⟩ ∨
        ∃ f, input.fleet = some f ∧ leg.owner = ⟨.fleet, f.fleetId⟩ := by
  obtain ⟨-, -, -, hout⟩ := computeSettlement_ok hst
  have hshares := computeSettlement_shares hst (by rwa [abs_of_nonneg hpool])
  have hsum : (st.legs.map (·.amountPaise)).sum ≤ st.poolPaise := by
    by_cases hnil : st.legs = []
    · rw [hnil]
      exact hpool
    · exact (hshares.sum hnil).le
  have hle (leg : SettlementLeg) (hleg : leg ∈ st.legs) : leg.amountPaise ≤ st.poolPaise := by
    refine le_trans ?_ hsum
    apply List.single_le_sum
    · intro x hx
      obtain ⟨leg', hleg', rfl⟩ := List.mem_map.mp hx
      exact (hout.credits leg' hleg').1.le
    · exact List.mem_map_of_mem hleg
  refine ⟨_, by rw [settlementLegs, hst], validateAll_ok fun leg hleg ↦ ?_, ?_, fun leg hleg ↦ ?_⟩
  · obtain ⟨part, hpart, rfl⟩ := List.mem_map.mp hleg
    have hpos := (hout.credits part hpart).1
    have := hle part hpart
    refine validate_int rfl (by omega) ?_ (fun _ ↦ hpos) fun hneg ↦ ?_
    · rw [abs_of_pos hpos]
      omega
    · have hneg : part.type.mustBeNegative = true := hneg
      rw [credit_not_negative (hout.credits part hpart).2] at hneg
      cases hneg
  · refine le_trans (le_of_eq ?_) hsum
    rw [weight, List.map_map]
    congr 1
    apply List.map_congr_left
    intro part hpart
    exact abs_of_pos (hout.credits part hpart).1
  · obtain ⟨part, hpart, rfl⟩ := List.mem_map.mp hleg
    cases ho : part.owner with
    | driver => exact .inl rfl
    | fleet =>
      have hne := computeSettlement_fleet hst hpart ho
      cases hf : input.fleet with
      | none =>
        rw [hf] at hne
        exact absurd rfl hne
      | some f => exact .inr ⟨f, rfl, rfl⟩

theorem cashLegs_valid {total : ℤ} (hpos : 0 < total) (hmax : total < 10 ^ 12) :
    validateAll (cashLegs b d total) = .ok () ∧ weight (cashLegs b d total) = total := by
  constructor
  · refine validateAll_ok fun leg hleg ↦ ?_
    cases List.mem_singleton.mp hleg
    refine validate_int rfl (by omega) ?_ (fun h ↦ by cases h) fun _ ↦ by omega
    rw [abs_neg, abs_of_pos hpos]
    exact hmax
  · simp [weight, cashLegs, abs_of_pos hpos]

/-! The cash payment, step by step with nobody else at work. -/

theorem ignore_ok {α : Type} {p : Request α} {a : α} {w t : World} (h : p.exec w = (.ok a, t)) :
    p.ignore.exec w = (.ok (), t) := by
  rw [Proc.ignore, Proc.exec_next h]
  rfl

/-- The wallets a trip's settlement moves. -/
def Booking.payees (r : Booking) : List WalletOwner :=
  (r.driverId.map fun id ↦ (⟨.driver, id⟩ : WalletOwner)).toList ++
    (r.fleetId.map fun id ↦ (⟨.fleet, id⟩ : WalletOwner)).toList

/-- A finished trip that can be settled: what the assignment, the fare rules and the
`CHECK`s of its columns leave, on wallets whose balances `numeric(12,2)` can still move. -/
structure Settleable (w : World) (b : ℕ) (r : Booking) (d : ℕ) (k : Band) : Prop where
  booking : w.bookings b = some r
  completed : r.status = .completed
  driver : r.driverId = some d
  band : r.commissionBand = some k
  tax : 0 ≤ r.taxAmount ∧ r.taxAmount ≤ r.total
  discount : 0 ≤ r.discount
  commission : ∀ pct, r.commissionPct = some pct → isPct pct
  share : ∀ share, resolvedShare w r = some share → isPct share
  ledger : w.ledger.Sound
  room : Room w.ledger r.payees (2 * r.total)

theorem Settleable.same {w' : World} (h : Settleable w b r d k) (hb : w'.bookings = w.bookings)
    (hf : w'.fleets = w.fleets) (hs : w'.fleetDriverShares = w.fleetDriverShares)
    (hl : w'.ledger = w.ledger) : Settleable w' b r d k := by
  have hshare : resolvedShare w' r = resolvedShare w r := by
    rw [resolvedShare, hf, hs, resolvedShare]
  exact ⟨by rw [hb]; exact h.booking, h.completed, h.driver, h.band, h.tax, h.discount,
    h.commission, by rw [hshare]; exact h.share, by rw [hl]; exact h.ledger,
    by rw [hl]; exact h.room⟩

theorem abs_freshRows_le (keys : List LedgerKey) (legs : List (LedgerLeg LedgerKey)) (o : WalletOwner) :
    |(((freshRows keys legs).filter (·.owner = o)).map (·.amount)).sum| ≤ weight legs := by
  induction legs generalizing keys with
  | nil => simp [freshRows, weight]
  | cons leg legs ih =>
    have hw : weight (leg :: legs) = |leg.amountPaise.toInt| + weight legs := by simp [weight]
    have hpos := abs_nonneg leg.amountPaise.toInt
    rw [freshRows, hw]
    split_ifs
    · have := ih keys
      omega
    · have hrest := ih (keys ++ [leg.idempotencyKey])
      by_cases ho : leg.owner = o
      · have hfilter : (leg.row :: freshRows (keys ++ [leg.idempotencyKey]) legs).filter
            (·.owner = o) = leg.row :: (freshRows (keys ++ [leg.idempotencyKey]) legs).filter
              (·.owner = o) := by
          rw [List.filter_cons_of_pos]
          exact decide_eq_true ho
        rw [hfilter, List.map_cons, List.sum_cons]
        refine (abs_add_le _ _).trans ?_
        change |leg.amountPaise.toInt| + _ ≤ _
        omega
      · have hfilter : (leg.row :: freshRows (keys ++ [leg.idempotencyKey]) legs).filter
            (·.owner = o) = (freshRows (keys ++ [leg.idempotencyKey]) legs).filter
              (·.owner = o) := by
          rw [List.filter_cons_of_neg]
          exact fun h ↦ ho (of_decide_eq_true h)
        rw [hfilter]
        omega

/-- A post leaves room for the rest. -/
theorem World.post_room (h : w.ledger.Sound) {owners : List WalletOwner} {n : ℤ}
    (hroom : Room w.ledger owners (weight legs + n))
    (hrows : (w.post legs).ledger.transactions =
      w.ledger.transactions ++ freshRows w.ledger.keys legs) :
    Room (w.post legs).ledger owners n := by
  intro o ho
  have h₁ := hroom o ho
  have h₂ := abs_freshRows_le w.ledger.keys legs o
  have h₃ := abs_add_le (w.ledger.balanceOf o)
    (((freshRows w.ledger.keys legs).filter (·.owner = o)).map (·.amount)).sum
  rw [World.post_balance h hrows]
  omega

/-- The credits of a trip that is being settled, on wallets with room for its total. -/
theorem settlementLegs_post (input : SettlementCredit) {st : Settlement}
    (hs : w.ledger.Sound) (hst : computeSettlement ⟨input.totalPaise, input.band,
      input.commissionPct, input.fleet.map (·.driverSharePct)⟩ = .ok st) (hpool : 0 ≤ st.poolPaise)
    (hroom : Room w.ledger (⟨.driver, input.driverId⟩ ::
      (input.fleet.map fun f ↦ (⟨.fleet, f.fleetId⟩ : WalletOwner)).toList) st.poolPaise) :
    ∃ legs, (creditBookingSettlement input).exec w = (.ok (), w.post legs) := by
  have hmax : st.poolPaise < 10 ^ 12 := by
    have := hroom _ List.mem_cons_self
    have := abs_nonneg (w.ledger.balanceOf ⟨.driver, input.driverId⟩)
    omega
  obtain ⟨legs, hlegs, hv, hw, howners⟩ := settlementLegs_valid hst hpool hmax
  have hroom' : Room w.ledger (legs.map (·.owner)) (weight legs) := by
    intro o ho
    obtain ⟨leg, hleg, rfl⟩ := List.mem_map.mp ho
    refine (hroom.mono hw) _ ?_
    rcases howners leg hleg with h | ⟨f, hf, h⟩
    · rw [h]
      exact List.mem_cons_self
    · rw [h, hf]
      simp
  obtain ⟨⟨p, hp⟩, -⟩ := World.post_succeeds hs hv hroom'
  refine ⟨legs, ?_⟩
  rw [creditBookingSettlement, hlegs]
  exact ignore_ok hp

/-- The update to paid passes the machine and the `CHECK`s. -/
theorem transition_paid {t : World} {c p : ℤ} (at? : Option ℕ) (method : Option PaymentMethod)
    (h : Settleable w b r d k) (hb : t.bookings = w.bookings) (hc : 0 ≤ c) (hp : 0 ≤ p)
    (hsum : c + p + r.taxAmount = r.total) (on' : Option (Settling × Option ℕ)) :
    ∃ u, (transition b .paid ⟨some c, some p, at?, method⟩ on').exec t = (.ok (), u) ∧
      (u.bookings b).map (·.status) = some .paid := by
  have hbook : t.bookings b = some r := by rw [hb]; exact h.booking
  have htax := h.tax
  have hdisc := h.discount
  have hcheck : World.bookingError (World.applyPatch r .paid ⟨some c, some p, at?, method⟩) = none := by
    have h₁ : ¬(r.total < 0 ∨ c < 0 ∨ p < 0 ∨ r.discount < 0) := by omega
    have h₂ : ¬r.total < c + p + r.taxAmount := by omega
    exact (if_neg h₁).trans (if_neg h₂)
  have hlegal : isLegal .completed .paid = true := rfl
  have herr : t.transitionError b .paid ⟨some c, some p, at?, method⟩ = none := by
    simp [World.transitionError, hbook, h.completed, hlegal, hcheck]
  refine ⟨t.run (.transition b .paid ⟨some c, some p, at?, method⟩ on'), ?_, ?_⟩
  · rw [transition, Proc.exec_attempt, herr]
    rfl
  · rw [World.run, World.transition, herr]
    simp [World.updateBooking, hbook, World.applyPatch]

/-- With the cash recorded, every leg goes in and the trip is paid. -/
theorem settleOn_paid (on : Settling) (h : Settleable w on.bookingId r d k) (hpos : 0 < r.total)
    (hrow : w.payment id = some row) (hcash : row.provider = .cash) (hw : row.walletApplied = 0) :
    ∃ t, (settleOn on (settlementInputsOf w r) (some id)).exec w = (.ok (), t) ∧
      (t.bookings on.bookingId).map (·.status) = some .paid := by
  have hroom := h.room ⟨.driver, d⟩ (by simp [Booking.payees, h.driver])
  have hbal := abs_nonneg (w.ledger.balanceOf ⟨.driver, d⟩)
  have htax := h.tax
  -- The driver holds the cash.
  obtain ⟨hcv, hcw⟩ := cashLegs_valid (b := on.bookingId) (d := d) hpos (by omega)
  have hcroom : Room w.ledger ((cashLegs on.bookingId d r.total).map (·.owner))
      (weight (cashLegs on.bookingId d r.total)) := by
    intro o ho
    rw [hcw]
    cases List.mem_singleton.mp ho
    change |w.ledger.balanceOf ⟨.driver, d⟩| + _ < _
    omega
  obtain ⟨⟨c, hc⟩, hcrows⟩ := World.post_succeeds h.ledger hcv hcroom
  -- What the trip earned is shared out.
  let fleet := r.fleetId.map fun id ↦ (⟨id, (resolvedShare w r).getD 0⟩ : FleetShare)
  have hshare : ∀ share, fleet.map (·.driverSharePct) = some share → isPct share := by
    intro share hs
    obtain ⟨f, hf, rfl⟩ := Option.map_eq_some_iff.mp hs
    obtain ⟨id, -, rfl⟩ := Option.map_eq_some_iff.mp hf
    dsimp only
    cases hres : resolvedShare w r with
    | none => exact ⟨le_refl 0, by decide⟩
    | some pct => exact h.share pct hres
  obtain ⟨st, hst, hcom, hpool, hsum⟩ := computeSettlement_total
    (i := ⟨r.total - r.taxAmount, k, r.commissionPct, fleet.map (·.driverSharePct)⟩)
    (by dsimp only; omega) (by dsimp only; omega) h.commission hshare
  have hroom₁ : Room (w.post (cashLegs on.bookingId d r.total)).ledger r.payees st.poolPaise := by
    refine World.post_room h.ledger ?_ hcrows
    refine h.room.mono ?_
    rw [hcw]
    dsimp only at hsum
    omega
  obtain ⟨legs, hlegs⟩ := settlementLegs_post
    ⟨on.bookingId, r.total - r.taxAmount, k, r.commissionPct, d, fleet⟩
    (World.post_rows _ h.ledger).1 hst hpool (by
      intro o ho
      apply hroom₁
      rw [Booking.payees, h.driver]
      rcases List.mem_cons.mp ho with rfl | ho
      · simp
      · obtain ⟨f, hf, rfl⟩ := by simpa using ho
        obtain ⟨id, hid, rfl⟩ := Option.map_eq_some_iff.mp hf
        simp [hid])
  -- And the trip is marked paid.
  obtain ⟨u, hu, hpaid⟩ := transition_paid (t := (w.post (cashLegs on.bookingId d r.total)).post legs)
    (some w.now) on.handle.method h rfl hcom hpool (by dsimp only at hsum; omega)
    (some (on, some id))
  refine ⟨u, ?_, hpaid⟩
  have hlegsFor : (paymentLegsFor (some id)).exec w = (.ok (0, some .cash), w) := by
    simp [paymentLegsFor, select, Store.commit, World.run, hrow, hcash, hw]
  have hsettle : (settlementOf ⟨r.total - r.taxAmount, k, r.commissionPct,
      fleet.map (·.driverSharePct)⟩).exec (w.post (cashLegs on.bookingId d r.total)) =
      (.ok st, w.post (cashLegs on.bookingId d r.total)) := by
    rw [settlementOf, hst]
    rfl
  unfold settleOn
  simp only [settlementInputsOf, h.driver, h.band, Proc.bind_eq]
  rw [Proc.exec_next hlegsFor]
  dsimp only
  rw [Proc.exec_next (show (Proc.when (0 < (0 : ℤ)) _).exec w = (.ok (), w) from rfl)]
  refine (Proc.exec_next (a := ()) (t := w.post (cashLegs on.bookingId d r.total)) (ignore_ok hc)).trans ?_
  exact (Proc.exec_next hsettle).trans ((Proc.exec_next hlegs).trans hu)

/-- The booking's payment is an open cash intent, and nothing has been collected. -/
structure CashReady (w : World) (b : ℕ) (row : PaymentRow) : Prop where
  open_ : w.openIntent b .booking = some row
  stored : w.payment row.id = some row
  cash : row.provider = .cash
  walletApplied : row.walletApplied = 0
  unused : ∀ r ∈ w.payments, r.gatewayRef ≠ some (.cash row.id)
  uncaptured : ∀ r ∈ w.payments, r.bookingId = b → r.purpose = .booking → r.status ≠ .captured

def cashSettling (b : ℕ) (row : PaymentRow) (total : ℤ) : Settling :=
  ⟨b, ⟨some (.cash row.id), none, .captured, some .cash, some total, none⟩, .cash⟩

theorem ensureCapturedRow_cash (env : Env) (total : ℤ) (h : CashReady w b row) :
    ∃ t row', (ensureCapturedRow env (cashSettling b row total)).exec w = (.ok (some row.id), t) ∧
      t.payment row.id = some row' ∧ row'.provider = .cash ∧ row'.walletApplied = 0 ∧
      t.bookings = w.bookings ∧ t.fleets = w.fleets ∧ t.fleetDriverShares = w.fleetDriverShares ∧
      t.ledger = w.ledger := by
  obtain ⟨hmem, hkind⟩ := mem_openIntent h.open_
  have hst : row.status ≠ .captured :=
    h.uncaptured row hmem (congrArg Prod.fst hkind) (congrArg Prod.snd hkind)
  have hnone : w.byGatewayRef (.cash row.id) = none := by
    refine List.find?_eq_none.mpr fun r hr hdec ↦ h.unused r hr (of_decide_eq_true hdec)
  have hexisting : (existingRow (cashSettling b row total)).exec w = (.ok (some row), w) := by
    simp [existingRow, orElse, cashSettling, byHandleRef, byHandleOrder, openIntent, select,
      Proc.exec_bind, Store.commit, World.run, hnone, h.open_]
  have herr : w.markCapturedError row.id (some (.cash row.id)) = none := by
    have hother : (w.payments.any fun r ↦ r.id ≠ row.id && r.bookingId = row.bookingId &&
        r.purpose = .booking && r.status = .captured) = false := by
      rw [List.any_eq_false]
      intro r hr hdec
      simp only [Bool.and_eq_true, decide_eq_true_eq] at hdec
      exact h.uncaptured r hr (hdec.1.1.2.trans (congrArg Prod.fst hkind)) hdec.1.2 hdec.2
    rw [World.markCapturedError, h.stored]
    dsimp only
    rw [if_neg hst, hother]
    simpa using fun r hr (_ : ¬r.id = row.id) ↦ h.unused r hr
  have hrun : w.markCaptured row.id (some (.cash row.id)) (some .cash) = w.updatePayment row.id
      fun r ↦ if r.status = .captured then r else w.capturedRow r (some (.cash row.id)) (some .cash) := by
    rw [World.markCaptured, herr]
    rfl
  have hstored : (w.updatePayment row.id fun r ↦ if r.status = .captured then r
      else w.capturedRow r (some (.cash row.id)) (some .cash)).payment row.id =
      some (w.capturedRow row (some (.cash row.id)) (some .cash)) := by
    rw [World.payment_updatePayment (fun r ↦ by split_ifs <;> rfl), h.stored]
    simp [hst]
  refine ⟨w.markCaptured row.id (some (.cash row.id)) (some .cash),
    w.capturedRow row (some (.cash row.id)) (some .cash), ?_, by rw [hrun, hstored], h.cash,
    h.walletApplied, by rw [hrun]; rfl, by rw [hrun]; rfl, by rw [hrun]; rfl, by rw [hrun]; rfl⟩
  have hmark : (Proc.when (row.status ≠ .captured) (markCaptured row.id (some (.cash row.id))
      (some .cash) (some (cashSettling b row total)))).exec w =
      (.ok (), w.markCaptured row.id (some (.cash row.id)) (some .cash)) := by
    rw [Proc.when, if_pos hst, markCaptured, Proc.exec_attempt, herr]
    rfl
  exact (Proc.exec_next hexisting).trans (Proc.exec_next hmark)

theorem settleInner_paid (env : Env) (h : Settleable w b r d k) (hpos : 0 < r.total) (hc : CashReady w b row) :
    ∃ t, (settleInner env (cashSettling b row r.total)).exec w = (.ok (), t) ∧
      (t.bookings b).map (·.status) = some .paid := by
  obtain ⟨t, row', hensure, hrow, hcash, hw, hb, hf, hs, hl⟩ :=
    ensureCapturedRow_cash env r.total hc
  obtain ⟨u, hu, hpaid⟩ := settleOn_paid (cashSettling b row r.total) (h.same hb hf hs hl)
    hpos hrow hcash hw
  refine ⟨u, ?_, hpaid⟩
  have hinputs : (settlementInputs (cashSettling b row r.total)).exec w =
      (.ok (settlementInputsOf t r), w) := by
    have hsame : settlementInputsOf t r = settlementInputsOf w r := by
      rw [settlementInputsOf, settlementInputsOf, resolvedShare, resolvedShare, hf, hs]
    rw [settlementInputs, call, Proc.exec_attempt, hsame]
    simp [cashSettling, h.booking, Store.commit, World.run]
  have hstatus : (settlementInputsOf t r).status = .completed := h.completed
  refine (Proc.exec_next hinputs).trans ?_
  simp only [hstatus]
  exact (Proc.exec_next hensure).trans hu

/-- The lock is free, or there is none to wait for. -/
theorem settleCapturedPayment_paid (env : Env) (h : Settleable w b r d k) (hpos : 0 < r.total)
    (hc : CashReady w b row) (hlock : b ∉ w.captureLocks) :
    ∃ t, (settleCapturedPayment env (cashSettling b row r.total)).exec w = (.ok (), t) ∧
      (t.bookings b).map (·.status) = some .paid := by
  by_cases hup : w.redisUp = true
  · let w₁ : World := { w with captureLocks := b :: w.captureLocks }
    have hacquire : (Proc.query (.acquireLock b) fun w : World ↦
        if w.redisUp then some (decide (b ∉ w.captureLocks)) else none :
        Request (Option Bool)).exec w = (.ok (some true), w₁) := by
      simp [Store.commit, World.run, hup, hlock, w₁]
    obtain ⟨t, ht, hpaid⟩ := settleInner_paid (w := w₁) env (h.same rfl rfl rfl rfl) hpos
      ⟨hc.open_, hc.stored, hc.cash, hc.walletApplied, hc.unused, hc.uncaptured⟩
    refine ⟨t.run (.releaseLock b), ?_, hpaid⟩
    have hfn : (tryCatch (settleInner env (cashSettling b row r.total)) fun e ↦ do
        Proc.write (.releaseLock b)
        throw e : Request Unit).exec w₁ = (.ok (), t) := by
      rw [Proc.tryCatch_eq, Proc.exec_handle, ht]
    exact (Proc.exec_next hacquire).trans (Proc.exec_next hfn)
  · have hacquire : (Proc.query (.acquireLock b) fun w : World ↦
        if w.redisUp then some (decide (b ∉ w.captureLocks)) else none :
        Request (Option Bool)).exec w = (.ok none, w) := by
      simp [Store.commit, World.run, hup]
    obtain ⟨t, ht, hpaid⟩ := settleInner_paid env h hpos hc
    exact ⟨t, (Proc.exec_next hacquire).trans ht, hpaid⟩

theorem confirmCash_paid (env : Env) (h : Settleable w b r d k) (hpos : 0 < r.total)
    (hc : CashReady w b row) (hlock : b ∉ w.captureLocks) :
    (((confirmCashCollected env b d).exec w).2.bookings b).map (·.status) = some .paid := by
  obtain ⟨t, ht, hpaid⟩ := settleCapturedPayment_paid env h hpos hc hlock
  have hopen : (openIntent b .booking).exec w = (.ok (some row), w) := by
    simp [openIntent, select, Store.commit, World.run, hc.open_]
  have hexec : (confirmCashCollected env b d).exec w =
      (.ok (((t.bookings b).map (·.status)).getD .paid), t) := by
    refine (Proc.exec_next (a := r) (t := w) ?_).trans ?_
    · simp [call, Store.commit, World.run, h.booking, h.driver]
    · rw [if_neg (by simp [h.completed]), if_neg (by simp [h.completed])]
      refine (Proc.exec_next hopen).trans ?_
      refine (Proc.exec_next (a := ()) (t := w) ?_).trans ((Proc.exec_next ht).trans rfl)
      simp [Proc.when, hc.cash]
  rw [hexec]
  exact hpaid

/-- Nothing has been collected for the booking; its open cash intents are as `chooseCash`
makes them; and the key of the next one is not taken. -/
structure Unpaid (env : Env) (w : World) (b : ℕ) : Prop where
  numbered : w.Numbered
  uncaptured : ∀ r ∈ w.payments, r.bookingId = b → r.purpose = .booking → r.status ≠ .captured
  refs : ∀ r ∈ w.payments, ∀ id, r.gatewayRef = some (.cash id) →
    ∃ row, w.payment id = some row ∧ (row.bookingId = b → World.isOpen row = false)
  intents : ∀ r ∈ w.payments, r.provider = .cash → r.walletApplied = 0
  key : ∀ r ∈ w.payments,
    r.idempotencyKey ≠ ⟨b, .booking, env.sha256 ("cash:" ++ toString w.uuids)⟩

theorem isOpen_openIntent {purpose : PaymentPurpose} (h : w.openIntent b purpose = some row) :
    World.isOpen row = true := by
  have hmem := List.mem_filter.mp (List.mem_of_getLast? h)
  simp only [Bool.and_eq_true] at hmem
  exact hmem.2.2

theorem Unpaid.cashReady (h : Unpaid env w b) (hopen : w.openIntent b .booking = some row)
    (hcash : row.provider = .cash) : CashReady w b row := by
  obtain ⟨hmem, hkind⟩ := mem_openIntent hopen
  have hstored := h.numbered.payment_of_mem hmem
  refine ⟨hopen, hstored, hcash, h.intents row hmem hcash, fun r hr href ↦ ?_, h.uncaptured⟩
  obtain ⟨row', hrow', hclosed⟩ := h.refs r hr row.id href
  cases hstored.symm.trans hrow'
  have := hclosed (congrArg Prod.fst hkind)
  rw [isOpen_openIntent hopen] at this
  cases this

theorem Unpaid.markFailed (h : Unpaid env w b) (id : ℕ) (reason : String) :
    Unpaid env (w.markFailed id reason) b := by
  let f (row : PaymentRow) : PaymentRow :=
    if World.isOpen row then
      { row with status := .failed, failureReason := some reason, updatedAt := w.now }
    else row
  have hf (row : PaymentRow) : (f row).id = row.id ∧ (f row).bookingId = row.bookingId ∧
      (f row).purpose = row.purpose ∧ (f row).gatewayRef = row.gatewayRef ∧
      (f row).provider = row.provider ∧ (f row).walletApplied = row.walletApplied ∧
      (f row).idempotencyKey = row.idempotencyKey ∧
      ((f row).status = .captured → row.status = .captured) ∧
      (World.isOpen row = false → World.isOpen (f row) = false) := by
    by_cases ho : World.isOpen row
    · have hfail : f row = { row with status := .failed, failureReason := some reason, updatedAt := w.now } :=
        if_pos ho
      rw [hfail]
      refine ⟨rfl, rfl, rfl, rfl, rfl, rfl, rfl, fun hc ↦ ?_, fun _ ↦ rfl⟩
      cases hc
    · have hsame : f row = row := if_neg ho
      rw [hsame]
      exact ⟨rfl, rfl, rfl, rfl, rfl, rfl, rfl, fun h ↦ h, fun h ↦ h⟩
  have hmem (r : PaymentRow) (hr : r ∈ (w.markFailed id reason).payments) :
      ∃ r₀ ∈ w.payments, r = r₀ ∨ r = f r₀ := by
    obtain ⟨r₀, hr₀, rfl⟩ := List.mem_map.mp hr
    refine ⟨r₀, hr₀, ?_⟩
    split_ifs
    · exact .inr rfl
    · exact .inl rfl
  refine ⟨World.numbered_updatePayment (fun row ↦ (hf row).1) h.numbered, fun r hr hb hp hc ↦ ?_,
    fun r hr i href ↦ ?_, fun r hr hprov ↦ ?_, fun r hr ↦ ?_⟩
  · obtain ⟨r₀, hr₀, rfl | rfl⟩ := hmem r hr
    · exact h.uncaptured r hr₀ hb hp hc
    · obtain ⟨-, hb', hp', -, -, -, -, hc', -⟩ := hf r₀
      exact h.uncaptured r₀ hr₀ (hb'.symm.trans hb) (hp'.symm.trans hp) (hc' hc)
  · have hold : ∃ row, w.payment i = some row ∧ (row.bookingId = b → World.isOpen row = false) := by
      obtain ⟨r₀, hr₀, rfl | rfl⟩ := hmem r hr
      · exact h.refs r hr₀ i href
      · exact h.refs r₀ hr₀ i ((hf r₀).2.2.2.1.symm.trans href)
    obtain ⟨row, hrow, hclosed⟩ := hold
    refine ⟨if row.id = id then f row else row, ?_, ?_⟩
    · change (w.updatePayment id f).payment i = _
      rw [World.payment_updatePayment (fun row ↦ (hf row).1), hrow]
      rfl
    · obtain ⟨-, hb', -, -, -, -, -, -, ho⟩ := hf row
      split_ifs
      · exact fun hb ↦ ho (hclosed (hb'.symm.trans hb))
      · exact hclosed
  · obtain ⟨r₀, hr₀, rfl | rfl⟩ := hmem r hr
    · exact h.intents r hr₀ hprov
    · obtain ⟨-, -, -, -, hprov', hw, -⟩ := hf r₀
      rw [hw]
      exact h.intents r₀ hr₀ (hprov'.symm.trans hprov)
  · obtain ⟨r₀, hr₀, rfl | rfl⟩ := hmem r hr
    · exact h.key r hr₀
    · rw [(hf r₀).2.2.2.2.2.2.1]
      exact h.key r₀ hr₀

/-- What the other tables keep. -/
structure SameBesides (w t : World) : Prop where
  bookings : t.bookings = w.bookings
  fleets : t.fleets = w.fleets
  shares : t.fleetDriverShares = w.fleetDriverShares
  ledger : t.ledger = w.ledger
  locks : t.captureLocks = w.captureLocks

theorem createCash_ready (h : Unpaid env w b) (hpos : 0 < r.total) :
    ∃ res t row, (chooseCash.createCash env b r).exec w = (.ok res, t) ∧ CashReady t b row ∧
      SameBesides w t := by
  let w₁ : World := { w with uuids := w.uuids + 1 }
  let p : NewPayment :=
    { bookingId := b
      amount := r.total
      walletApplied := 0
      taxAmount := r.taxAmount
      purpose := .booking
      method := .cash
      idempotencyKey := ⟨b, .booking, env.sha256 ("cash:" ++ toString w.uuids)⟩
      provider := .cash }
  have hfresh : (w₁.payments.any fun row ↦ row.idempotencyKey = p.idempotencyKey) = false := by
    rw [List.any_eq_false]
    intro row hrow hdec
    exact h.key row hrow (of_decide_eq_true hdec)
  have hinsert : ∃ row, w₁.insertPayment p = .ok row := by
    unfold World.insertPayment
    rw [hfresh]
    simp only [Bool.false_eq_true, if_false]
    rw [if_neg (by simp only [p]; omega), if_neg (by simp only [p]; omega)]
    exact ⟨_, rfl⟩
  obtain ⟨row, hrow⟩ := hinsert
  obtain ⟨hid, hkind, -, hwallet, hprov, -, hst, href, -⟩ := World.insertPayment_ok hrow
  have hcreate : w₁.createPayment p = { w₁ with payments := w₁.payments ++ [row] } := by
    rw [World.createPayment, hrow]
  refine ⟨⟨row.id, b, r.total⟩, w₁.createPayment p, row, ?_, ?_, by rw [hcreate]; exact ⟨rfl, rfl, rfl, rfl, rfl⟩⟩
  · have huuid : (Proc.query .randomUuid (·.uuids) : Request ℕ).exec w = (.ok w.uuids, w₁) := rfl
    have hmake : (create p).exec w₁ = (.ok row, w₁.createPayment p) := by
      rw [create, Proc.exec_attempt, hrow]
      rfl
    exact (Proc.exec_next huuid).trans ((Proc.exec_next hmake).trans rfl)
  · rw [hcreate]
    have hopen : World.isOpen row = true := by simp [World.isOpen, hst]
    have hb : row.bookingId = b := congrArg Prod.fst hkind
    have hp : row.purpose = .booking := congrArg Prod.snd hkind
    refine ⟨?_, World.payment_append_new h.numbered hid, hprov, hwallet, fun r' hr' ↦ ?_,
      fun r' hr' hb' hp' ↦ ?_⟩
    · simp [World.openIntent, List.filter_append, hopen, hb, hp]
    · rcases List.mem_append.mp hr' with hr' | hr'
      · intro hcash
        obtain ⟨x, hx, -⟩ := h.refs r' hr' row.id hcash
        have hlt := (World.mem_of_payment hx)
        obtain ⟨j, hj⟩ := List.getElem?_of_mem hlt.1
        have := h.numbered.getElem hj
        have := (List.getElem?_eq_some_iff.mp hj).1
        rw [hid] at hlt
        change x ∈ w.payments ∧ x.id = w.payments.length at hlt
        omega
      · cases List.mem_singleton.mp hr'
        rw [href]
        exact fun hn ↦ by cases hn
    · rcases List.mem_append.mp hr' with hr' | hr'
      · exact h.uncaptured r' hr' hb' hp'
      · cases List.mem_singleton.mp hr'
        rw [hst]
        exact fun hn ↦ by cases hn

theorem chooseCash_ready (h : Unpaid env w b) (hb : w.bookings b = some r)
    (hst : r.status = .completed) (hpos : 0 < r.total) :
    ∃ res t row, (chooseCash env b r.userId).exec w = (.ok res, t) ∧ CashReady t b row ∧
      SameBesides w t := by
  have hload : (loadPayableBooking b r.userId .booking false).exec w = (.ok r, w) := by
    simp [loadPayableBooking, call, Store.commit, World.run, hb, hst, payable]
  have hread : (openIntent b .booking).exec w = (.ok (w.openIntent b .booking), w) := by
    simp [openIntent, select, Store.commit, World.run]
  cases hopen : w.openIntent b .booking with
  | none =>
    obtain ⟨res, t, row, hexec, hready, hsame⟩ := createCash_ready h hpos
    rw [hopen] at hread
    exact ⟨res, t, row, (Proc.exec_next hload).trans ((Proc.exec_next hread).trans hexec), hready, hsame⟩
  | some open? =>
    rw [hopen] at hread
    by_cases hcash : open?.provider = .cash
    · have hreuse : (show Request CashPaymentResponse from if open?.provider = .cash then
            pure ⟨open?.id, b, open?.amount⟩
          else do
            markFailed open?.id "Customer chose to pay cash"
            chooseCash.createCash env b r).exec w = (.ok ⟨open?.id, b, open?.amount⟩, w) := by
        rw [if_pos hcash]
        rfl
      exact ⟨_, w, open?, (Proc.exec_next hload).trans ((Proc.exec_next hread).trans hreuse),
        h.cashReady hopen hcash, ⟨rfl, rfl, rfl, rfl, rfl⟩⟩
    · obtain ⟨res, t, row, hexec, hready, hsame⟩ := createCash_ready
        (h.markFailed open?.id "Customer chose to pay cash") hpos
      have hfail : (markFailed open?.id "Customer chose to pay cash").exec w =
          (.ok (), w.markFailed open?.id "Customer chose to pay cash") := rfl
      have hswitch : (show Request CashPaymentResponse from if open?.provider = .cash then
            pure ⟨open?.id, b, open?.amount⟩
          else do
            markFailed open?.id "Customer chose to pay cash"
            chooseCash.createCash env b r).exec w = (.ok res, t) := by
        rw [if_neg hcash]
        exact (Proc.exec_next hfail).trans hexec
      exact ⟨res, t, row, (Proc.exec_next hload).trans ((Proc.exec_next hread).trans hswitch), hready,
        ⟨hsame.bookings, hsame.fleets, hsame.shares, hsame.ledger, hsame.locks⟩⟩

end Towing.Money
