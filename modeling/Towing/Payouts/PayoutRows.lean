import Towing.Db.LedgerPosting
import Towing.Db.Rows
import Towing.Payouts.PayoutsService

namespace Towing.Payouts

open Towing.Db Towing.Process

variable {w : World} {l : Step} {id i : ℕ} {row row' : PayoutRow}

/-- What a row of `payouts` keeps for good; one that is over stays as it ended. -/
structure RowKept (row row' : PayoutRow) : Prop where
  id : row'.id = row.id
  owner : row'.owner = row.owner
  amount : row'.amount = row.amount
  key : row'.idempotencyKey = row.idempotencyKey
  ended : isOpen row = false → row'.status = row.status

theorem RowKept.refl (row : PayoutRow) : RowKept row row := ⟨rfl, rfl, rfl, rfl, fun _ ↦ rfl⟩

theorem RowKept.failed (h : RowKept row row') (hf : row.status = .failed) : row'.status = .failed := by
  rw [h.ended (by simp [isOpen, hf]), hf]

namespace World

def Numbered (w : World) : Prop := Rows.Numbered (·.id) w.payouts

theorem Numbered.mem (h : w.Numbered) (hrow : row ∈ w.payouts) : w.payout row.id = some row :=
  Rows.Numbered.find_of_mem h hrow

theorem mem_of_payout (h : w.payout id = some row) : row ∈ w.payouts ∧ row.id = id :=
  Rows.mem_of_find h

theorem Numbered.updatePayout {f : PayoutRow → PayoutRow} (h : w.Numbered)
    (hf : ∀ row, row.id = id → (f row).id = row.id) : (w.updatePayout id f).Numbered :=
  Rows.Numbered.update hf h

theorem payout_updatePayout {f : PayoutRow → PayoutRow}
    (hf : ∀ row, row.id = id → (f row).id = row.id) (i : ℕ) :
    (w.updatePayout id f).payout i =
      (w.payout i).map fun row ↦ if row.id = id then f row else row := Rows.find_update hf i

theorem insertPayout_ok {p : NewPayout} (h : w.insertPayout p = .ok row) :
    row.id = w.payouts.length ∧ row.owner = p.owner ∧ row.amount = p.amount ∧
      row.status = .requested ∧ row.routeRef = none ∧ row.idempotencyKey = p.idempotencyKey ∧
      row.approvalState = p.approvalState ∧ |row.amount| < 10 ^ 12 ∧
      ∀ r ∈ w.payouts, r.idempotencyKey ≠ p.idempotencyKey := by
  unfold insertPayout at h
  split_ifs at h with hfit hkey
  cases h
  have hamount : fitsNumeric p.amount = true := by simpa using hfit
  refine ⟨rfl, rfl, rfl, rfl, rfl, rfl, rfl, of_decide_eq_true hamount, fun r hr heq ↦ hkey ?_⟩
  exact List.any_eq_true.mpr ⟨r, hr, decide_eq_true heq⟩

theorem create_eq (w : World) (p : NewPayout) : w.create p = w ∨
    ∃ row, w.insertPayout p = .ok row ∧ w.create p = { w with payouts := w.payouts ++ [row] } := by
  unfold create
  cases h : w.insertPayout p with
  | ok row => exact .inr ⟨row, rfl, rfl⟩
  | error e => exact .inl rfl

theorem terminal_ok {target : PayoutStatus} {ref : Option ℕ} {reason : Option String}
    (h : w.terminal id target ref reason = .ok (some row')) :
    ∃ row, w.payout id = some row ∧ isOpen row = true ∧ row' = w.terminalRow row target ref reason := by
  unfold terminal at h
  cases hrow : w.payout id with
  | none =>
    rw [hrow] at h
    cases h
  | some row =>
    rw [hrow] at h
    by_cases hopen : isOpen row = true
    · simp only [hopen, Bool.not_true, Bool.false_eq_true, if_false] at h
      split_ifs at h
      exact ⟨row, rfl, hopen, (Option.some.inj (Except.ok.inj h)).symm⟩
    · simp only [hopen, Bool.not_false, if_true] at h
      cases h

theorem transitionToTerminal_eq (w : World) (id : ℕ) (target : PayoutStatus) (ref : Option ℕ)
    (reason : Option String) : w.transitionToTerminal id target ref reason = w ∨
      ∃ row, w.payout id = some row ∧ isOpen row = true ∧
        w.terminal id target ref reason = .ok (some (w.terminalRow row target ref reason)) ∧
        w.transitionToTerminal id target ref reason =
          w.updatePayout id fun _ ↦ w.terminalRow row target ref reason := by
  unfold transitionToTerminal
  cases h : w.terminal id target ref reason with
  | error e => exact .inl rfl
  | ok row? =>
    cases row? with
    | none => exact .inl rfl
    | some row' =>
      obtain ⟨row, hrow, hopen, rfl⟩ := terminal_ok h
      exact .inr ⟨row, hrow, hopen, rfl, rfl⟩

theorem decided_some {target : PayoutApprovalState} {adminId : ℕ} {reason : Option String}
    (h : w.decided id target adminId reason = some row') :
    ∃ row, w.payout id = some row ∧ row.approvalState = .pendingApproval ∧
      row'.approvalState = target ∧ row'.routeRef = row.routeRef ∧ row'.status = row.status ∧
      RowKept row row' := by
  obtain ⟨row, hrow, rfl⟩ := Option.map_eq_some_iff.mp h
  obtain ⟨hrow, hpending⟩ := Option.filter_eq_some_iff.mp hrow
  exact ⟨row, hrow, by simpa using hpending, rfl, rfl, rfl, rfl, rfl, rfl, rfl, fun _ ↦ rfl⟩

/-- What a step makes of a row. -/
structure RowEdit (w : World) (l : Step) (row row' : PayoutRow) : Prop extends RowKept row row' where
  failed : row'.status = .failed → row.status = .failed ∨ ∃ ref reason cause,
    l = .transitionToTerminal row.id .failed ref reason cause ∧ isOpen row = true ∧
      w.terminal row.id .failed ref reason = .ok (some row')
  approval : row'.approvalState = row.approvalState ∨ row.approvalState = .pendingApproval ∧
    ∃ adminId reason, l = .decideApproval row.id row'.approvalState adminId reason
  routeRef : row'.routeRef = row.routeRef ∨ ∃ ref, row'.routeRef = some ref ∧
    (l = .markProcessing row.id ref ∨
      ∃ target reason cause, l = .transitionToTerminal row.id target (some ref) reason cause)

theorem RowEdit.refl (w : World) (l : Step) (row : PayoutRow) : RowEdit w l row row :=
  ⟨.refl row, .inl, .inl rfl, .inl rfl⟩

theorem RowEdit.terminal {target : PayoutStatus} {ref : Option ℕ} {reason : Option String}
    (cause : Cause) (ho : isOpen row = true)
    (h : w.terminal row.id target ref reason = .ok (some (w.terminalRow row target ref reason))) :
    RowEdit w (.transitionToTerminal row.id target ref reason cause) row
      (w.terminalRow row target ref reason) := by
  refine ⟨⟨rfl, rfl, rfl, rfl, fun hc ↦ ?_⟩, fun hf ↦ .inr ?_, .inl rfl, ?_⟩
  · rw [ho] at hc
    cases hc
  · have htarget : target = .failed := hf
    subst htarget
    exact ⟨ref, reason, cause, rfl, ho, h⟩
  · cases ref with
    | none => exact .inl rfl
    | some ref => exact .inr ⟨ref, rfl, .inr ⟨target, reason, cause, rfl⟩⟩

theorem RowEdit.processing {ref : ℕ} (h : row.status = .requested) :
    RowEdit w (.markProcessing row.id ref) row
      { row with status := .processing, routeRef := some ref, updatedAt := w.now } := by
  refine ⟨⟨rfl, rfl, rfl, rfl, fun hc ↦ ?_⟩, fun hf ↦ ?_, .inl rfl, .inr ⟨ref, rfl, .inl rfl⟩⟩
  · simp [isOpen, h] at hc
  · cases hf

/-- A step that inserts no row edits at most one. -/
theorem run_payouts (w : World) (hl : ∀ p, l ≠ .create p) : (w.run l).payouts = w.payouts ∨
    ∃ id f, (w.run l).payouts = (w.updatePayout id f).payouts ∧
      (∀ row, row.id = id → (f row).id = row.id) ∧
      ∀ row, w.payout id = some row → RowEdit w l row (f row) := by
  cases l with
  | create p => exact absurd rfl (hl p)
  | transitionToTerminal id target ref reason cause =>
    rcases w.transitionToTerminal_eq id target ref reason with heq | ⟨row, hrow, ho, hterm, heq⟩
    · exact .inl (congrArg (·.payouts) heq)
    · have hid := (mem_of_payout hrow).2
      refine .inr ⟨id, fun _ ↦ w.terminalRow row target ref reason, congrArg (·.payouts) heq,
        fun r hr ↦ hid.trans hr.symm, fun r hr ↦ ?_⟩
      cases hrow.symm.trans hr
      subst hid
      exact .terminal cause ho hterm
  | markProcessing id ref =>
    by_cases herr : (w.processingError id ref).isSome = true
    · exact .inl (congrArg World.payouts (if_pos herr : w.markProcessing id ref = w))
    · refine .inr ⟨id, fun row ↦ if row.status = .requested then
          { row with status := .processing, routeRef := some ref, updatedAt := w.now } else row,
        congrArg World.payouts (if_neg herr), fun r _ ↦ ?_, fun r hr ↦ ?_⟩
      · dsimp only
        split_ifs <;> rfl
      · have hid := (mem_of_payout hr).2
        subst hid
        dsimp only
        split_ifs with hst
        · exact .processing hst
        · exact .refl w _ r
  | decideApproval id target adminId reason =>
    cases hdec : w.decided id target adminId reason with
    | none =>
      have heq : w.run (.decideApproval id target adminId reason) = w := by
        rw [World.run, World.decideApproval, hdec]
      exact .inl (congrArg World.payouts heq)
    | some row' =>
      have heq : w.run (.decideApproval id target adminId reason) =
          w.updatePayout id fun _ ↦ row' := by
        rw [World.run, World.decideApproval, hdec]
      obtain ⟨row, hrow, hpending, htarget, href, hst, hkept⟩ := decided_some hdec
      have hid := (mem_of_payout hrow).2
      refine .inr ⟨id, fun _ ↦ row', congrArg World.payouts heq,
        fun r hr ↦ hkept.id.trans (hid.trans hr.symm), fun r hr ↦ ?_⟩
      cases hrow.symm.trans hr
      subst hid
      refine ⟨hkept, fun hf ↦ .inl (hst.symm.trans hf), .inr ⟨hpending, adminId, reason, ?_⟩, .inl href⟩
      rw [htarget]
  | insertWebhookEvent eventId =>
    refine .inl ?_
    dsimp only [World.run]
    split_ifs <;> rfl
  | _ => exact .inl rfl

theorem run_create (w : World) (p : NewPayout) : (w.run (.create p)).payouts = w.payouts ∨
    ∃ row, w.insertPayout p = .ok row ∧ (w.run (.create p)).payouts = w.payouts ++ [row] := by
  rcases w.create_eq p with heq | ⟨row, hrow, heq⟩
  · exact .inl (congrArg (·.payouts) heq)
  · exact .inr ⟨row, hrow, congrArg (·.payouts) heq⟩

theorem payout_congr {w w' : World} (h : w'.payouts = w.payouts) (i : ℕ) : w'.payout i = w.payout i := by
  rw [payout, payout, h]

theorem Numbered.run (h : w.Numbered) (l : Step) : (w.run l).Numbered := by
  by_cases hl : ∃ p, l = .create p
  · obtain ⟨p, rfl⟩ := hl
    unfold Numbered
    rcases w.run_create p with heq | ⟨row, hrow, heq⟩
    · rw [heq]
      exact h
    · rw [heq]
      exact Rows.Numbered.append h (insertPayout_ok hrow).1
  · unfold Numbered
    rcases w.run_payouts (l := l) fun p hp ↦ hl ⟨p, hp⟩ with heq | ⟨id, f, heq, hf, -⟩
    · rw [heq]
      exact h
    · rw [heq]
      exact h.updatePayout hf

/-- Whatever a step does, a row stays, and changes as `RowEdit` says. -/
theorem run_payout (h : w.Numbered) (l : Step) (hi : w.payout i = some row) :
    ∃ row', (w.run l).payout i = some row' ∧ RowEdit w l row row' := by
  by_cases hl : ∃ p, l = .create p
  · obtain ⟨p, rfl⟩ := hl
    refine ⟨row, ?_, .refl w _ row⟩
    rcases w.run_create p with heq | ⟨new, hnew, heq⟩
    · rw [payout_congr heq, hi]
    · have hlt : i < w.payouts.length := Rows.Numbered.lt h hi
      have happend := Rows.Numbered.find_append h (insertPayout_ok hnew).1 i
      rw [if_neg (by omega)] at happend
      rw [payout, heq]
      exact happend.trans hi
  · rcases w.run_payouts (l := l) fun p hp ↦ hl ⟨p, hp⟩ with heq | ⟨id, f, heq, hf, hedit⟩
    · exact ⟨row, (payout_congr heq i).trans hi, .refl w l row⟩
    · refine ⟨if row.id = id then f row else row, ?_, ?_⟩
      · rw [payout_congr heq, payout_updatePayout hf, hi]
        rfl
      · split_ifs with hid
        · have := (mem_of_payout hi).2
          refine hedit row ?_
          rw [← hid, this]
          exact hi
        · exact .refl w l row

/-- Rows come from the step before, or are the one it inserted. -/
theorem run_payout_back (h : w.Numbered) (l : Step) (hi : (w.run l).payout i = some row') :
    (∃ row, w.payout i = some row ∧ RowEdit w l row row') ∨
      ∃ p, l = .create p ∧ w.insertPayout p = .ok row' ∧ i = w.payouts.length := by
  cases hrow : w.payout i with
  | some row =>
    obtain ⟨row'', h'', hedit⟩ := run_payout h l hrow
    cases hi.symm.trans h''
    exact .inl ⟨row, rfl, hedit⟩
  | none =>
    by_cases hl : ∃ p, l = .create p
    · obtain ⟨p, rfl⟩ := hl
      rcases w.run_create p with heq | ⟨new, hnew, heq⟩
      · rw [payout_congr heq, hrow] at hi
        cases hi
      · have happend := Rows.Numbered.find_append h (insertPayout_ok hnew).1 i
        rw [payout, heq] at hi
        have hi' := happend.symm.trans hi
        split_ifs at hi' with hlen
        · cases hi'
          exact .inr ⟨p, rfl, hnew, hlen⟩
        · cases hrow.symm.trans hi'
    · rcases w.run_payouts (l := l) fun p hp ↦ hl ⟨p, hp⟩ with heq | ⟨id, f, heq, hf, -⟩
      · rw [payout_congr heq, hrow] at hi
        cases hi
      · rw [payout_congr heq, payout_updatePayout hf, hrow] at hi
        cases hi

/-! The ledger. -/

end World

def Step.legs : Step → List (LedgerLeg LedgerKey)
  | .hold id owner amount => debitLegs id owner amount
  | .reverse row => reversalLegs row
  | .post legs => legs.1
  | _ => []

/-- Only holds and reversals book anything about a payout. -/
theorem legs_booked {leg : LedgerLeg LedgerKey} (h : leg ∈ l.legs)
    (hid : leg.refId = some (.payout id) ∨ leg.idempotencyKey = .payoutDebit id ∨
      leg.idempotencyKey = .payoutReversal id) :
    (∃ owner amount, l = .hold id owner amount ∧ leg.row.amount = -amount ∧
        leg.refId = some (.payout id) ∧ leg.idempotencyKey = .payoutDebit id) ∨
      ∃ row, l = .reverse row ∧ row.id = id ∧ leg.row.amount = row.amount ∧
        leg.refId = some (.payout id) ∧ leg.idempotencyKey = .payoutReversal id := by
  cases l with
  | hold id' owner amount =>
    cases List.mem_singleton.mp h
    rcases hid with hid | hid | hid
    · cases hid
      exact .inl ⟨owner, amount, rfl, rfl, rfl, rfl⟩
    · cases hid
      exact .inl ⟨owner, amount, rfl, rfl, rfl, rfl⟩
    · cases hid
  | reverse row =>
    cases List.mem_singleton.mp h
    rcases hid with hid | hid | hid
    · cases hid
      exact .inr ⟨row, rfl, rfl, rfl, rfl, rfl⟩
    · cases hid
    · cases hid
      exact .inr ⟨row, rfl, rfl, rfl, rfl, rfl⟩
  | post legs =>
    obtain ⟨hkey, href⟩ := legs.2 leg h
    rcases hid with hid | hid | hid
    · exact absurd hid (href id)
    · exact absurd hid (hkey id).1
    · exact absurd hid (hkey id).2
  | _ => cases h

namespace World

/-- A step adds the fresh rows of its legs to the ledger, or nothing. -/
theorem run_ledger (h : w.ledger.Sound) (l : Step) : (w.run l).ledger.Sound ∧
    ((w.run l).ledger = w.ledger ∨ (w.run l).ledger.transactions =
      w.ledger.transactions ++ freshRows w.ledger.keys l.legs) := by
  have hpost (legs : List (LedgerLeg LedgerKey)) (pre : Balances → Except LedgerError Unit) :
      (w.post legs pre).ledger.Sound ∧ ((w.post legs pre).ledger = w.ledger ∨
        (w.post legs pre).ledger.transactions =
          w.ledger.transactions ++ freshRows w.ledger.keys legs) := by
    obtain ⟨hs, hrows⟩ := transact_rows legs pre h
    exact ⟨hs, hrows.imp (·.2) (·.2)⟩
  cases l with
  | hold id owner amount => exact hpost _ _
  | reverse row => exact hpost _ _
  | post legs => exact hpost _ _
  | create p =>
    have heq : (w.run (.create p)).ledger = w.ledger := by
      rcases w.create_eq p with heq | ⟨row, -, heq⟩
      · exact congrArg World.ledger heq
      · exact (congrArg World.ledger heq).trans rfl
    exact ⟨heq.symm ▸ h, .inl heq⟩
  | transitionToTerminal id target ref reason cause =>
    have heq : (w.run (.transitionToTerminal id target ref reason cause)).ledger = w.ledger := by
      rcases w.transitionToTerminal_eq id target ref reason with heq | ⟨row, -, -, -, heq⟩
      · exact congrArg World.ledger heq
      · exact (congrArg World.ledger heq).trans rfl
    exact ⟨heq.symm ▸ h, .inl heq⟩
  | markProcessing id ref =>
    have heq : (w.run (.markProcessing id ref)).ledger = w.ledger := by
      dsimp only [World.run, World.markProcessing]
      split_ifs <;> rfl
    exact ⟨heq.symm ▸ h, .inl heq⟩
  | decideApproval id target adminId reason =>
    have heq : (w.run (.decideApproval id target adminId reason)).ledger = w.ledger := by
      dsimp only [World.run, World.decideApproval]
      cases w.decided id target adminId reason <;> rfl
    exact ⟨heq.symm ▸ h, .inl heq⟩
  | insertWebhookEvent eventId =>
    have heq : (w.run (.insertWebhookEvent eventId)).ledger = w.ledger := by
      dsimp only [World.run]
      split_ifs <;> rfl
    exact ⟨heq.symm ▸ h, .inl heq⟩
  | _ => exact ⟨h, .inl rfl⟩

theorem mem_keys_run (h : w.ledger.Sound) (l : Step) {key : LedgerKey} (hk : key ∈ w.ledger.keys) :
    key ∈ (w.run l).ledger.keys := by
  rcases (run_ledger h l).2 with heq | hrows
  · rw [heq]
    exact hk
  · rw [Ledger.keys, hrows, List.map_append]
    exact List.mem_append_left _ hk

/-- A key that is new came with a leg of the step. -/
theorem mem_keys_back (h : w.ledger.Sound) (l : Step) {key : LedgerKey}
    (hk : key ∈ (w.run l).ledger.keys) :
    key ∈ w.ledger.keys ∨ ∃ leg ∈ l.legs, leg.idempotencyKey = key := by
  rcases (run_ledger h l).2 with heq | hrows
  · rw [heq] at hk
    exact .inl hk
  · rw [Ledger.keys, hrows, List.map_append] at hk
    rcases List.mem_append.mp hk with hk | hk
    · exact .inl hk
    · obtain ⟨t, ht, rfl⟩ := List.mem_map.mp hk
      obtain ⟨leg, hleg, rfl, -⟩ := mem_freshRows ht
      exact .inr ⟨leg, hleg, rfl⟩

end World

end Towing.Payouts
