import Towing.Payouts.Conservation
import Towing.Process.Contract

namespace Towing.Payouts

open Towing.Db Towing.Process PayoutsRepo PayoutsService

variable {env : Env} {α : Type} {w w' s t : World} {l : Step} {id ref : ℕ} {row row' : PayoutRow}
  {v v' : VendorPayout} {cause : Cause}

/-! What happens to the vendor's payouts. -/

/-- What a payout keeps at the vendor; one that has come to its end stays there. -/
structure VendorKept (v v' : VendorPayout) : Prop where
  payoutId : v'.payoutId = v.payoutId
  key : v'.idempotencyKey = v.idempotencyKey
  ended : v.status ≠ .processing → v'.status = v.status

theorem VendorKept.refl (v : VendorPayout) : VendorKept v v := ⟨rfl, rfl, fun _ ↦ rfl⟩

theorem VendorKept.trans {v'' : VendorPayout} (h : VendorKept v v') (h' : VendorKept v' v'') :
    VendorKept v v'' := by
  refine ⟨h'.payoutId.trans h.payoutId, h'.key.trans h.key, fun hst ↦ ?_⟩
  have heq := h.ended hst
  rw [h'.ended (by rwa [heq]), heq]

namespace Vendor

variable (u : Vendor)

theorem accept_eq (p : CreatePayoutParams) : (u.accept p).payouts = u.payouts ∨
    (∀ v ∈ u.payouts, v.idempotencyKey ≠ p.idempotencyKey) ∧ ∃ v : VendorPayout,
      v.payoutId = p.payoutId ∧ v.idempotencyKey = p.idempotencyKey ∧
        (u.accept p).payouts = u.payouts ++ [v] := by
  unfold accept
  cases u.mood with
  | accepts status reason lost =>
    dsimp only
    split_ifs with hany
    · exact .inl rfl
    · refine .inr ⟨fun v hv heq ↦ hany ?_, ⟨_, _, _, _, _, _⟩, rfl, rfl, rfl⟩
      exact List.any_eq_true.mpr ⟨v, hv, decide_eq_true heq⟩
  | refuses message => exact .inl rfl
  | unreachable => exact .inl rfl

theorem settle_eq (ref : ℕ) (status : HandleStatus) (reason : Option String) :
    u.settle ref status reason = u ∨ ∃ v, u.payouts[ref]? = some v ∧ v.status = .processing ∧
      (u.settle ref status reason).payouts =
        u.payouts.set ref { v with status := status, failureReason := reason } := by
  unfold settle
  cases hv : u.payouts[ref]? with
  | none => exact .inl rfl
  | some v =>
    dsimp only
    split_ifs with hst
    · exact .inr ⟨v, rfl, hst, rfl⟩
    · exact .inl rfl

end Vendor

namespace World

theorem run_vendor (w : World) (l : Step) : (w.run l).vendor.payouts = w.vendor.payouts ∨
    (∃ p, l = .createPayout p ∧ (∀ v ∈ w.vendor.payouts, v.idempotencyKey ≠ p.idempotencyKey) ∧
      ∃ v : VendorPayout, v.payoutId = p.payoutId ∧ v.idempotencyKey = p.idempotencyKey ∧
        (w.run l).vendor.payouts = w.vendor.payouts ++ [v]) ∨
    ∃ ref v status reason, w.vendor.payouts[ref]? = some v ∧ v.status = .processing ∧
      (w.run l).vendor.payouts =
        w.vendor.payouts.set ref { v with status := status, failureReason := reason } := by
  cases l with
  | createPayout p =>
    rcases w.vendor.accept_eq p with heq | ⟨hnew, v, hv⟩
    · exact .inl heq
    · exact .inr (.inl ⟨p, rfl, hnew, v, hv⟩)
  | vendorSettle ref status reason =>
    rcases w.vendor.settle_eq ref status reason with heq | ⟨v, hv, hst, heq⟩
    · exact .inl (congrArg Vendor.payouts heq)
    · exact .inr (.inr ⟨ref, v, status, reason, hv, hst, heq⟩)
  | create p =>
    rcases w.create_eq p with heq | ⟨row, -, heq⟩
    · exact .inl (congrArg (·.vendor.payouts) heq)
    · exact .inl (congrArg (·.vendor.payouts) heq)
  | transitionToTerminal id target ref reason cause =>
    rcases w.transitionToTerminal_eq id target ref reason with heq | ⟨row, -, -, -, heq⟩
    · exact .inl (congrArg (·.vendor.payouts) heq)
    · exact .inl (congrArg (·.vendor.payouts) heq)
  | markProcessing id ref =>
    refine .inl ?_
    dsimp only [run, markProcessing]
    split_ifs <;> rfl
  | decideApproval id target adminId reason =>
    refine .inl ?_
    dsimp only [run, decideApproval]
    cases w.decided id target adminId reason <;> rfl
  | insertWebhookEvent eventId =>
    refine .inl ?_
    dsimp only [run]
    split_ifs <;> rfl
  | _ => exact .inl rfl

/-- A payout the vendor has stays where it is. -/
theorem run_vendor_get (l : Step) (h : w.vendor.payouts[ref]? = some v) :
    ∃ v', (w.run l).vendor.payouts[ref]? = some v' ∧ VendorKept v v' := by
  have hlt := (List.getElem?_eq_some_iff.mp h).1
  rcases w.run_vendor l with heq | ⟨p, -, -, new, -, -, heq⟩ | ⟨ref', x, status, reason, hx, hst, heq⟩
  · exact ⟨v, by rw [heq, h], .refl v⟩
  · exact ⟨v, by rw [heq, List.getElem?_append_left hlt, h], .refl v⟩
  · rw [heq]
    by_cases href : ref' = ref
    · subst href
      cases h.symm.trans hx
      refine ⟨_, List.getElem?_set_self hlt, rfl, rfl, fun hne ↦ absurd hst hne⟩
    · exact ⟨v, by rw [List.getElem?_set_ne href, h], .refl v⟩

/-- What the vendor has after a step it had before, or the step sent it. -/
theorem run_vendor_back (l : Step) (h : (w.run l).vendor.payouts[ref]? = some v') :
    (∃ v, w.vendor.payouts[ref]? = some v ∧ VendorKept v v') ∨
      ∃ p, l = .createPayout p ∧ (∀ v ∈ w.vendor.payouts, v.idempotencyKey ≠ p.idempotencyKey) ∧
        ref = w.vendor.payouts.length ∧ v'.payoutId = p.payoutId ∧
          v'.idempotencyKey = p.idempotencyKey := by
  cases hv : w.vendor.payouts[ref]? with
  | some v =>
    obtain ⟨v'', hv'', hkept⟩ := run_vendor_get l hv
    cases h.symm.trans hv''
    exact .inl ⟨v, rfl, hkept⟩
  | none =>
    rcases w.run_vendor l with heq | ⟨p, rfl, hnew, new, hid, hkey, heq⟩ | ⟨ref', x, status, reason, hx, -, heq⟩
    · rw [heq, hv] at h
      cases h
    · have hle := List.getElem?_eq_none_iff.mp hv
      rw [heq, List.getElem?_append_right hle] at h
      have hzero : ref - w.vendor.payouts.length = 0 := by
        have := (List.getElem?_eq_some_iff.mp h).1
        simp only [List.length_singleton] at this
        omega
      rw [hzero] at h
      cases h
      exact .inr ⟨p, rfl, hnew, by omega, hid, hkey⟩
    · have hlt := (List.getElem?_eq_some_iff.mp h).1
      have hle := List.getElem?_eq_none_iff.mp hv
      rw [heq, List.length_set] at hlt
      omega

end World

/-! The contract of the requests. -/

/-- The vendor has payout `id` under reference `ref`. -/
def Sent (w : World) (ref id : ℕ) : Prop :=
  ∃ v : VendorPayout, w.vendor.payouts[ref]? = some v ∧ v.payoutId = id

/-- The payout may be sent: it is known by its key, and Finance has no say in it
or has approved it. -/
def Sendable (w : World) (id : ℕ) (key : PayoutKey) : Prop :=
  ∃ row, w.payout id = some row ∧ row.idempotencyKey = key ∧
    row.approvalState ≠ .pendingApproval ∧ row.approvalState ≠ .rejected

/-- The vendor has failed the payout, or Finance has rejected it before it was sent. -/
def Refused (w : World) (id : ℕ) : Prop :=
  (∃ (ref : ℕ) (v : VendorPayout), w.vendor.payouts[ref]? = some v ∧ v.payoutId = id ∧ v.status = .failed) ∨
    ∃ row, w.payout id = some row ∧ row.approvalState = .rejected

def Failed (w : World) (id : ℕ) : Prop := ∃ row, w.payout id = some row ∧ row.status = .failed

/-- A payout fails on the vendor's word, on Finance's, or while the vendor has not
accepted it, and none that has failed is sent. -/
def Heard : Step → World → Prop
  | .transitionToTerminal id .failed _ _ cause, w =>
      cause = .hold ∨ cause = .error ∨ cause = .neverAcknowledged →
        ∀ row ∈ w.payout id, isOpen row = true →
          ∀ v : VendorPayout, v ∈ w.vendor.payouts → v.payoutId = id → v.status = .failed
  | .createPayout p, w => ∀ row ∈ w.payout p.payoutId, row.status = .failed →
      ∀ v : VendorPayout, v ∈ (w.vendor.accept p).payouts → v.payoutId = p.payoutId →
        v.status = .failed
  | _, _ => True

/-- What each step of a request takes for granted. -/
def Justified : Step → World → Prop
  | .transitionToTerminal id target ref _ cause, w => (∀ r, ref = some r → Sent w r id) ∧
      (target = .failed → cause = .hold ∨ cause = .error ∨ cause = .neverAcknowledged ∨ Refused w id)
  | .createPayout p, w => Sendable w p.payoutId p.idempotencyKey
  | .markProcessing id ref, w => Sent w ref id
  | .reverse row, w => Failed w row.id
  | _, _ => True

/-- The vendor's payouts are rows it was sent, and those that have failed here it
has failed itself. -/
structure Agreed (w : World) : Prop where
  numbered : w.Numbered
  sound : w.ledger.Sound
  rowKeys : ∀ i j (row row' : PayoutRow), w.payout i = some row → w.payout j = some row' →
    row.idempotencyKey = row'.idempotencyKey → i = j
  vendorKeys : ∀ (i j : ℕ) (v v' : VendorPayout), w.vendor.payouts[i]? = some v → w.vendor.payouts[j]? = some v' →
    v.idempotencyKey = v'.idempotencyKey → i = j
  sent : ∀ (ref : ℕ) (v : VendorPayout), w.vendor.payouts[ref]? = some v → Sendable w v.payoutId v.idempotencyKey
  failed : ∀ (ref : ℕ) (v : VendorPayout), w.vendor.payouts[ref]? = some v → Failed w v.payoutId → v.status = .failed
  routed : ∀ id (row : PayoutRow) ref, w.payout id = some row → row.routeRef = some ref → Sent w ref id
  reversed : ∀ id, .payoutReversal id ∈ w.ledger.keys → Failed w id

/-- What nobody changes of a row any more. -/
structure RowSettles (row row' : PayoutRow) : Prop extends RowKept row row' where
  decided : row.approvalState ≠ .pendingApproval → row'.approvalState = row.approvalState

/-- What the others may do between two steps of a request. -/
structure Moves (w w' : World) : Prop where
  rows : ∀ id row, w.payout id = some row → ∃ row', w'.payout id = some row' ∧ RowSettles row row'
  vendor : ∀ (ref : ℕ) (v : VendorPayout), w.vendor.payouts[ref]? = some v →
    ∃ v', w'.vendor.payouts[ref]? = some v' ∧ VendorKept v v'

theorem Moves.refl (w : World) : Moves w w where
  rows _ row h := ⟨row, h, .refl row, fun _ ↦ rfl⟩
  vendor _ v h := ⟨v, h, .refl v⟩

theorem RowSettles.trans {row'' : PayoutRow} (h : RowSettles row row') (h' : RowSettles row' row'') :
    RowSettles row row'' := by
  refine ⟨⟨h'.id.trans h.id, h'.owner.trans h.owner, h'.amount.trans h.amount, h'.key.trans h.key,
    fun ho ↦ ?_⟩, fun hd ↦ ?_⟩
  · have heq := h.ended ho
    have ho' : isOpen row' = false := by
      rw [isOpen, heq]
      exact ho
    rw [h'.ended ho', heq]
  · have heq := h.decided hd
    rw [h'.decided (by rwa [heq]), heq]

theorem Moves.trans {w'' : World} (h : Moves w w') (h' : Moves w' w'') : Moves w w'' where
  rows id row hrow := by
    obtain ⟨row', hrow', hs⟩ := h.rows id row hrow
    obtain ⟨row'', hrow'', hs'⟩ := h'.rows id row' hrow'
    exact ⟨row'', hrow'', hs.trans hs'⟩
  vendor ref v hv := by
    obtain ⟨v', hv', hk⟩ := h.vendor ref v hv
    obtain ⟨v'', hv'', hk'⟩ := h'.vendor ref v' hv'
    exact ⟨v'', hv'', hk.trans hk'⟩

theorem World.RowEdit.settles (h : World.RowEdit w l row row') : RowSettles row row' := by
  refine ⟨h.toRowKept, fun hd ↦ ?_⟩
  rcases h.approval with heq | ⟨hpending, -⟩
  · exact heq
  · exact absurd hpending hd

theorem moves_run (hn : w.Numbered) (l : Step) : Moves w (w.run l) where
  rows id row hrow := by
    obtain ⟨row', hrow', hedit⟩ := World.run_payout hn l hrow
    exact ⟨row', hrow', hedit.settles⟩
  vendor ref v hv := World.run_vendor_get l hv

theorem Sent.moves (h : Sent s ref id) (hm : Moves s t) : Sent t ref id := by
  obtain ⟨v, hv, hid⟩ := h
  obtain ⟨v', hv', hk⟩ := hm.vendor ref v hv
  exact ⟨v', hv', hk.payoutId.trans hid⟩

theorem Sendable.moves {key : PayoutKey} (h : Sendable s id key) (hm : Moves s t) :
    Sendable t id key := by
  obtain ⟨row, hrow, hkey, hp, hr⟩ := h
  obtain ⟨row', hrow', hs⟩ := hm.rows id row hrow
  refine ⟨row', hrow', hs.key.trans hkey, ?_⟩
  rw [hs.decided hp]
  exact ⟨hp, hr⟩

theorem Failed.moves (h : Failed s id) (hm : Moves s t) : Failed t id := by
  obtain ⟨row, hrow, hf⟩ := h
  obtain ⟨row', hrow', hs⟩ := hm.rows id row hrow
  exact ⟨row', hrow', hs.failed hf⟩

theorem Refused.moves (h : Refused s id) (hm : Moves s t) : Refused t id := by
  rcases h with ⟨ref, v, hv, hid, hf⟩ | ⟨row, hrow, hr⟩
  · obtain ⟨v', hv', hk⟩ := hm.vendor ref v hv
    refine .inl ⟨ref, v', hv', hk.payoutId.trans hid, ?_⟩
    rw [hk.ended (by rw [hf]; decide), hf]
  · obtain ⟨row', hrow', hs⟩ := hm.rows id row hrow
    refine .inr ⟨row', hrow', ?_⟩
    rw [hs.decided (by rw [hr]; decide), hr]

/-- Whatever the vendor has of a refused payout, it has failed. -/
theorem Agreed.refused (h : Agreed w) (hr : Refused w id) (hv : w.vendor.payouts[ref]? = some v)
    (hid : v.payoutId = id) : v.status = .failed := by
  obtain ⟨row, hrow, hkey, -, hnot⟩ := h.sent ref v hv
  rw [hid] at hrow
  rcases hr with ⟨ref', x, hx, hxid, hf⟩ | ⟨row', hrow', hrej⟩
  · obtain ⟨row', hrow', hkey', -⟩ := h.sent ref' x hx
    rw [hxid] at hrow'
    cases hrow.symm.trans hrow'
    have href := h.vendorKeys ref' ref x v hx hv (hkey'.symm.trans hkey)
    subst href
    cases hx.symm.trans hv
    exact hf
  · cases hrow.symm.trans hrow'
    exact absurd hrej hnot

/-- A row that fails in a step: the vendor has failed whatever it has of it. -/
theorem Agreed.fails (h : Agreed w) (hc : Heard l w) (hj : Justified l w)
    (hrow : w.payout id = some row) (hedit : World.RowEdit w l row row') (hf : row'.status = .failed)
    (hv : w.vendor.payouts[ref]? = some v) (hid : v.payoutId = id) : v.status = .failed := by
  rcases hedit.failed hf with hf | ⟨pref, reason, cause, rfl, hopen, -⟩
  · exact h.failed ref v hv (by rw [hid]; exact ⟨row, hrow, hf⟩)
  · have hrid := (World.mem_of_payout hrow).2
    have hbad (hbad : cause = .hold ∨ cause = .error ∨ cause = .neverAcknowledged) :
        v.status = .failed := by
      refine hc hbad row ?_ hopen v (List.mem_of_getElem? hv) (hid.trans hrid.symm)
      rw [hrid]
      exact hrow
    rcases hj.2 rfl with hcause | hcause | hcause | hr
    · exact hbad (.inl hcause)
    · exact hbad (.inr (.inl hcause))
    · exact hbad (.inr (.inr hcause))
    · exact h.refused hr hv (hid.trans hrid.symm)

theorem Agreed.run (h : Agreed w) (hc : Heard l w) (hj : Justified l w) : Agreed (w.run l) := by
  have hm := moves_run h.numbered l
  refine ⟨h.numbered.run l, (World.run_ledger h.sound l).1, fun i j row row' hi hj' hkey ↦ ?_,
    fun i j v v' hi hj' hkey ↦ ?_, fun ref v' hv' ↦ ?_, fun ref v' hv' hf ↦ ?_,
    fun id row' ref hrow' href ↦ ?_, fun id hk ↦ ?_⟩
  · rcases World.run_payout_back h.numbered l hi with ⟨old, hold, hedit⟩ | ⟨p, rfl, hins, hlen⟩
    · rcases World.run_payout_back h.numbered l hj' with ⟨old', hold', hedit'⟩ | ⟨p, rfl, hins, hlen⟩
      · exact h.rowKeys i j old old' hold hold' (hedit.key.symm.trans (hkey.trans hedit'.key))
      · obtain ⟨-, -, -, -, -, hpkey, -, -, hnew⟩ := World.insertPayout_ok hins
        exact absurd (hedit.key.symm.trans (hkey.trans hpkey)) (hnew old (World.mem_of_payout hold).1)
    · rcases World.run_payout_back h.numbered _ hj' with ⟨old', hold', hedit'⟩ | ⟨q, hq, -, hlen'⟩
      · obtain ⟨-, -, -, -, -, hpkey, -, -, hnew⟩ := World.insertPayout_ok hins
        exact absurd (hedit'.key.symm.trans (hkey.symm.trans hpkey)) (hnew old' (World.mem_of_payout hold').1)
      · exact hlen.trans hlen'.symm
  · rcases World.run_vendor_back l hi with ⟨old, hold, hkept⟩ | ⟨p, rfl, hnew, hlen, -, hpkey⟩
    · rcases World.run_vendor_back l hj' with ⟨old', hold', hkept'⟩ | ⟨p, rfl, hnew, hlen, -, hpkey⟩
      · exact h.vendorKeys i j old old' hold hold' (hkept.key.symm.trans (hkey.trans hkept'.key))
      · exact absurd (hkept.key.symm.trans (hkey.trans hpkey)) (hnew old (List.mem_of_getElem? hold))
    · rcases World.run_vendor_back _ hj' with ⟨old', hold', hkept'⟩ | ⟨q, -, -, hlen', -, -⟩
      · exact absurd (hkept'.key.symm.trans (hkey.symm.trans hpkey)) (hnew old' (List.mem_of_getElem? hold'))
      · exact hlen.trans hlen'.symm
  · rcases World.run_vendor_back l hv' with ⟨v, hv, hkept⟩ | ⟨p, rfl, -, -, hid, hkey⟩
    · rw [hkept.payoutId, hkept.key]
      exact (h.sent ref v hv).moves hm
    · rw [hid, hkey]
      exact Sendable.moves hj hm
  · obtain ⟨row', hrow', hst⟩ := hf
    rcases World.run_vendor_back l hv' with ⟨v, hv, hkept⟩ | ⟨p, rfl, -, -, hid, -⟩
    · have hfv : v.status = .failed := by
        rw [hkept.payoutId] at hrow'
        obtain ⟨row, hrow, -⟩ := h.sent ref v hv
        obtain ⟨row'', hrow'', hedit⟩ := World.run_payout h.numbered l hrow
        cases hrow'.symm.trans hrow''
        exact h.fails hc hj hrow hedit hst hv rfl
      rw [hkept.ended (by rw [hfv]; decide), hfv]
    · rw [hid] at hrow'
      exact hc row' hrow' hst v' (List.mem_of_getElem? hv') hid
  · rcases World.run_payout_back h.numbered l hrow' with ⟨row, hrow, hedit⟩ | ⟨p, rfl, hins, -⟩
    · have hid := (World.mem_of_payout hrow).2
      rcases hedit.routeRef with heq | ⟨ref', heq, rfl | ⟨target, reason, cause, rfl⟩⟩
      · exact (h.routed id row ref hrow (heq.symm.trans href)).moves hm
      · cases heq.symm.trans href
        rw [← hid]
        exact Sent.moves hj hm
      · cases heq.symm.trans href
        rw [← hid]
        exact (hj.1 ref rfl).moves hm
    · cases (World.insertPayout_ok hins).2.2.2.2.1.symm.trans href
  · rcases World.mem_keys_back h.sound l hk with hk | ⟨leg, hleg, hkey⟩
    · exact (h.reversed id hk).moves hm
    · rcases legs_booked hleg (.inr (.inr hkey)) with ⟨owner, amount, -, -, -, hdeb⟩ | ⟨r, rfl, rfl, -, -, -⟩
      · cases hdeb.symm.trans hkey
      · exact Failed.moves hj hm

def executing : Contract Step World where
  inv := Agreed
  rely := Moves
  cond := Heard
  guar := Justified

theorem executing_sound : executing.Sound where
  refl := Moves.refl
  trans _ _ _ h h' := h.trans h'
  inv_commit _ _ h hc hj := h.run hc hj
  rely_commit l _ h _ _ := moves_run h.numbered l

abbrev Executes (Φ : Except Thrown α → World → Prop) (p : Request α) (s : World) : Prop :=
  executing.Meets Φ p s

/-! The requests. -/

theorem executes_select {q : Select} {f : World → α} {P : α → World → Prop}
    (h : ∀ t, Moves s t → Agreed t → P (f t) t) :
    Executes (fun r t ↦ ∀ a, r = .ok a → P a t) (select q f) s := by
  intro t hst ht _
  refine ⟨trivial, fun a ha ↦ ?_⟩
  cases ha
  exact h t hst ht

theorem executes_quiet {q : Select} {f : World → α} :
    Executes (fun _ _ ↦ True) (select q f) s := fun _ _ _ _ ↦ ⟨trivial, trivial⟩

theorem executes_reread : Executes (fun _ _ ↦ True) (reread row) s :=
  executes_quiet.bind (fun _ _ _ ↦ trivial) fun _ _ _ ↦ trivial

theorem executes_markPaid (h : ∀ r, some r = some ref → Sent s r id) :
    Executes (fun _ _ ↦ True) (markPaid id (some ref) cause) s := by
  intro t hst _ _
  refine ⟨⟨fun r hr ↦ (h r hr.symm).moves hst, fun hf ↦ by cases hf⟩, ?_⟩
  dsimp only
  cases t.terminal id .paid (some ref) none <;> trivial

theorem executes_markFailed {reason : String}
    (h : cause = .hold ∨ cause = .error ∨ cause = .neverAcknowledged ∨ Refused s id) :
    Executes (fun _ _ ↦ True) (markFailed id reason cause) s := by
  intro t hst _ _
  refine ⟨⟨fun r hr ↦ (by cases hr), fun _ ↦ ?_⟩, ?_⟩
  · exact h.imp_right fun h ↦ h.imp_right fun h ↦ h.imp_right fun h ↦ h.moves hst
  · dsimp only
    cases hterm : t.terminal id .failed none (some reason) with
    | error e => trivial
    | ok row? =>
      cases row? with
      | none => trivial
      | some row =>
        obtain ⟨hrow, hid, hf, -⟩ := transition_payout cause hterm
        have hfailed : Failed (t.run (.transitionToTerminal id .failed none (some reason) cause)) row.id := by
          rw [hid]
          exact ⟨row, hrow, hf⟩
        exact fun u hu _ _ ↦ ⟨hfailed.moves hu, trivial⟩

/-- What the vendor has after it accepted a call. -/
theorem answer_ok {u : Vendor} {ms : ℕ} {p : CreatePayoutParams} {handle : PayoutHandle}
    (h : u.answer ms p = .ok handle) : ∃ v, (u.accept p).payouts[handle.providerRef]? = some v ∧
      v.idempotencyKey = p.idempotencyKey ∧ handle.status = v.status := by
  unfold Vendor.answer at h
  cases hmood : u.mood with
  | accepts status reason lost =>
    rw [hmood] at h
    dsimp only at h
    split_ifs at h
    cases hget : (u.accept p).payouts[List.findIdx (fun x ↦ decide (x.idempotencyKey = p.idempotencyKey))
        (u.accept p).payouts]? with
    | none =>
      rw [hget] at h
      cases h
    | some v =>
      rw [hget] at h
      cases h
      refine ⟨v, hget, ?_, rfl⟩
      obtain ⟨hlt, heq⟩ := List.getElem?_eq_some_iff.mp hget
      have := List.findIdx_getElem (w := hlt)
      rw [heq] at this
      exact of_decide_eq_true this
  | refuses message =>
    rw [hmood] at h
    cases h
  | unreachable =>
    rw [hmood] at h
    cases h

theorem executes_submit {destinationRef : String} {storedKey : PayoutKey}
    (h : Sendable s row.id storedKey) :
    Executes (fun _ _ ↦ True) (submit env row destinationRef storedKey) s := by
  refine Contract.Meets.handle (Q := fun _ _ ↦ True) ?_ (fun _ _ _ ↦ trivial) fun e t _ ↦ ?_
  · intro t hst ht hc
    have hsend := h.moves hst
    refine ⟨hsend, ?_⟩
    dsimp only
    cases hans : t.vendor.answer env.razorpayTimeoutMs ⟨row.id, row.amount, destinationRef, storedKey⟩ with
    | error e => trivial
    | ok handle =>
      let u := t.run (.createPayout ⟨row.id, row.amount, destinationRef, storedKey⟩)
      have hu : Agreed u := ht.run hc hsend
      obtain ⟨v, hv, hkey, hstatus⟩ := answer_ok hans
      have hv' : u.vendor.payouts[handle.providerRef]? = some v := hv
      -- The key the vendor was handed is only that of this row.
      obtain ⟨r, hr, hrkey, -⟩ := hu.sent handle.providerRef v hv'
      obtain ⟨r', hr', hrkey', -⟩ := hsend.moves (moves_run ht.numbered _)
      have hid : v.payoutId = row.id :=
        hu.rowKeys _ _ r r' hr hr' (hrkey.trans (hkey.trans hrkey'.symm))
      change Executes _ (if handle.status = .failed then _ else _) u
      split_ifs with hfail
      · have href : Refused u row.id :=
          .inl ⟨handle.providerRef, v, hv', hid, hstatus.symm.trans hfail⟩
        exact (executes_markFailed (.inr (.inr (.inr href)))).bind (fun _ _ _ ↦ executes_reread)
          fun _ _ _ ↦ trivial
      · have hsent : Sent u handle.providerRef row.id := ⟨v, hv', hid⟩
        refine Contract.Meets.bind (Q := fun _ _ ↦ True) (fun x hx _ _ ↦ ?_)
          (fun _ _ _ ↦ executes_reread) fun _ _ _ ↦ trivial
        exact ⟨hsent.moves hx, trivial⟩
  · split_ifs
    · trivial
    · exact (executes_markFailed (.inr (.inl rfl))).bind (fun _ _ _ ↦ executes_reread)
        fun _ _ _ ↦ trivial

theorem executes_destination {owner : WalletOwner} : Executes (fun _ _ ↦ True) (destination owner) s := by
  refine executes_quiet.bind (fun ref? t _ ↦ ?_) fun _ _ _ ↦ trivial
  cases ref? <;> trivial

/-- What a new payout starts from. -/
def Made (p : NewPayout) (created : Created) (t : World) : Prop :=
  created.replayed = false → p.approvalState = .autoApproved →
    Sendable t created.row.id p.idempotencyKey

theorem executes_createRow {p : NewPayout} :
    Executes (fun r t ↦ ∀ c, r = .ok c → Made p c t) (createRow p) s := by
  intro t hst ht _
  refine ⟨trivial, ?_⟩
  dsimp only
  cases hins : t.insertPayout p with
  | ok row =>
    intro c hc _ hauto
    cases hc
    obtain ⟨hid, -, -, -, -, hkey, happ, -⟩ := World.insertPayout_ok hins
    have hrun : (t.run (.create p)).payouts = t.payouts ++ [row] := by
      rw [World.run, World.create, hins]
    refine ⟨row, ?_, hkey, ?_⟩
    · change (t.run (.create p)).payout row.id = some row
      rw [World.payout, hrun]
      refine (Rows.Numbered.find_append ht.numbered hid row.id).trans ?_
      rw [if_pos hid]
    · rw [happ, hauto]
      decide
  | error e =>
    cases e with
    | uniqueViolation constraint =>
      dsimp only [Proc.bind, Proc.handle]
      by_cases hc : constraint = "uq_payouts_one_open_per_owner"
      · rw [if_pos hc]
        intro c h
        cases h
      · rw [if_neg hc]
        intro u _ _ _
        refine ⟨trivial, ?_⟩
        dsimp only
        cases hkey : u.byIdempotencyKey p.idempotencyKey with
        | none =>
          intro c h
          cases h
        | some existing =>
          intro c h hrep
          cases h
          cases hrep
    | _ =>
      intro c h
      cases h

theorem executes_hold {id : ℕ} {owner : WalletOwner} {amount : ℤ} :
    Executes (fun _ t ↦ Moves s t) (hold id owner amount) s := by
  intro t hst ht _
  exact ⟨trivial, hst.trans (moves_run ht.numbered _)⟩

theorem executes_createWithHold {p : NewPayout} :
    Executes (fun r t ↦ ∀ c, r = .ok c → Made p c t) (createWithHold p) s := by
  refine executes_createRow.bind (fun created t hmade ↦ ?_) fun _ _ _ _ h ↦ by cases h
  split_ifs with hrep
  · exact hmade
  · have hold : Executes (fun r u ↦ r = .ok () → Moves t u)
        (tryCatch (hold created.row.id p.owner p.amount) fun e ↦ do
          let _ ← transitionToTerminal created.row.id .failed none (some (holdFailure e)) .hold
          throw e) t := by
      refine Contract.Meets.handle executes_hold (fun _ _ h _ ↦ h) fun e u _ ↦ ?_
      refine Contract.Meets.bind (Q := fun _ _ ↦ True) (fun x _ _ _ ↦ ?_) (fun _ _ _ h ↦ by cases h)
        fun _ _ _ h ↦ by cases h
      exact ⟨⟨fun _ h ↦ (by cases h), fun _ ↦ .inl rfl⟩, trivial⟩
    refine hold.bind (fun _ u hmoves ↦ ?_) fun _ _ _ _ h ↦ by cases h
    intro c hc hr hauto
    cases hc
    exact (hmade created rfl hr hauto).moves (hmoves rfl)

theorem executes_request {owner : WalletOwner} {amountPaise : ℤ} {clientKey : String} :
    Executes (fun _ _ ↦ True) (request env owner amountPaise clientKey) s := by
  unfold PayoutsService.request
  split_ifs
  · trivial
  · trivial
  · refine executes_destination.bind (fun ref t _ ↦ ?_) fun _ _ _ ↦ trivial
    refine executes_quiet.bind (fun threshold u _ ↦ ?_) fun _ _ _ ↦ trivial
    refine executes_createWithHold.bind (fun payout x hmade ↦ ?_) fun _ _ _ ↦ trivial
    by_cases hrep : payout.replayed = true
    · rw [if_pos hrep]
      trivial
    · rw [if_neg hrep]
      by_cases hauto : amountPaise ≤ threshold
      · have hmade' := hmade payout rfl (by simpa using hrep)
        simp only [if_pos hauto] at hmade' ⊢
        exact executes_submit (hmade' trivial)
      · simp only [if_neg hauto]
        trivial

/-- A payout that Finance has decided. -/
theorem executes_decide {target : PayoutApprovalState} {adminId : ℕ} {reason : Option String} :
    Executes (fun r t ↦ ∀ row, r = .ok (some row) → row.id = id ∧ t.payout id = some row ∧
      row.approvalState = target) (decideApproval id target adminId reason) s := by
  intro t _ _ _
  refine ⟨trivial, fun row h ↦ ?_⟩
  have hdec : t.decided id target adminId reason = some row := Except.ok.inj h
  obtain ⟨old, hold, -, htarget, -, -, hkept⟩ := World.decided_some hdec
  have hid := (World.mem_of_payout hold).2
  refine ⟨hkept.id.trans hid, ?_, htarget⟩
  have hrun : t.run (.decideApproval id target adminId reason) = t.updatePayout id fun _ ↦ row := by
    rw [World.run, World.decideApproval, hdec]
  change (t.run (.decideApproval id target adminId reason)).payout id = some row
  rw [hrun, World.payout_updatePayout fun r hr ↦ hkept.id.trans (hid.trans hr.symm), hold,
    Option.map_some, if_pos hid]

theorem executes_approve {adminId : ℕ} :
    Executes (fun _ _ ↦ True) (AdminFinanceService.approve env adminId id) s := by
  refine executes_quiet.bind (fun before t _ ↦ ?_) fun _ _ _ ↦ trivial
  refine executes_decide.bind (fun row? u h ↦ ?_) fun _ _ _ ↦ trivial
  cases row? with
  | none => trivial
  | some row =>
    obtain ⟨hid, hrow, happ⟩ := h row rfl
    have hsend : Sendable u row.id row.idempotencyKey := by
      rw [hid]
      exact ⟨row, hrow, rfl, by rw [happ]; decide, by rw [happ]; decide⟩
    have hdest : Executes (fun _ x ↦ Moves u x) (destination row.owner) u := by
      refine Contract.Meets.bind (Q := fun _ x ↦ Moves u x) (fun x hux _ _ ↦ ⟨trivial, hux⟩)
        (fun ref? x hux ↦ ?_) fun _ _ h ↦ h
      cases ref? <;> exact hux
    exact hdest.bind (fun _ x hux ↦ executes_submit (hsend.moves hux)) fun _ _ _ ↦ trivial

theorem executes_reject {adminId : ℕ} {reason : String} :
    Executes (fun _ _ ↦ True) (AdminFinanceService.reject adminId id reason) s := by
  refine executes_quiet.bind (fun before t _ ↦ ?_) fun _ _ _ ↦ trivial
  refine executes_decide.bind (fun row? u h ↦ ?_) fun _ _ _ ↦ trivial
  cases row? with
  | none => trivial
  | some row =>
    obtain ⟨-, hrow, happ⟩ := h row rfl
    have href : Refused u id := .inr ⟨row, hrow, happ⟩
    refine (executes_markFailed (.inr (.inr (.inr href)))).bind (fun _ x _ ↦ ?_) fun _ _ _ ↦ trivial
    exact executes_quiet.bind (fun _ _ _ ↦ trivial) fun _ _ _ ↦ trivial

/-- The references of a list of rows are those the vendor has them under. -/
def AllSent (rows : List PayoutRow) (w : World) : Prop :=
  ∀ row ∈ rows, ∀ ref, row.routeRef = some ref → Sent w ref row.id

theorem executes_poll {ref : ℕ} (h : Sent s ref row.id) :
    Executes (fun _ _ ↦ True) (PayoutReconcileService.poll env row ref) s := by
  refine Contract.Meets.handle (Q := fun _ _ ↦ True) ?_ (fun _ _ _ ↦ trivial) fun _ _ _ ↦ trivial
  intro t hst _ _
  refine ⟨trivial, ?_⟩
  have hsent : Sent t ref row.id := h.moves hst
  dsimp only
  cases hfetch : t.vendor.fetchPayout env.razorpayTimeoutMs ref with
  | error e => trivial
  | ok handle =>
    obtain ⟨v, hv, hid⟩ := hsent
    have hhandle : handle = Vendor.handleOf ref v := by
      unfold Vendor.fetchPayout at hfetch
      rw [hv] at hfetch
      split at hfetch
      · exact (Except.ok.inj hfetch).symm
      · cases hfetch
      · cases hfetch
    subst hhandle
    obtain ⟨payoutId, key, amount, destination, status, reason⟩ := v
    cases status with
    | paid =>
      refine executes_markPaid fun r hr ↦ ?_
      cases hr
      exact ⟨_, hv, hid⟩
    | failed => exact executes_markFailed (.inr (.inr (.inr (.inl ⟨ref, _, hv, hid, rfl⟩))))
    | processing => trivial

theorem AllSent.moves {rows : List PayoutRow} (h : AllSent rows s) (hm : Moves s t) : AllSent rows t :=
  fun row hrow ref href ↦ (h row hrow ref href).moves hm

theorem executes_reconcileAll {rows : List PayoutRow} (h : AllSent rows s) (hs : Agreed s) :
    Executes (fun _ _ ↦ True) (PayoutReconcileService.reconcileAll env rows) s := by
  induction rows generalizing s with
  | nil => trivial
  | cons row rows ih =>
    have hone : Executes (fun _ _ ↦ True) (PayoutReconcileService.reconcileOne env row) s := by
      unfold PayoutReconcileService.reconcileOne
      cases href : row.routeRef with
      | none =>
        refine executes_quiet.bind (fun now t _ ↦ ?_) fun _ _ _ ↦ trivial
        exact Contract.Meets.when (fun _ ↦ executes_markFailed (.inr (.inr (.inl rfl)))) fun _ ↦ trivial
      | some ref => exact executes_poll (h row List.mem_cons_self ref href)
    refine hone.seq executing_sound hs (fun _ t _ ht hst ↦ ih ?_ ht) fun _ _ _ ↦ trivial
    exact AllSent.moves (fun r hr ↦ h r (List.mem_cons_of_mem _ hr)) hst

theorem executes_reconcile : Executes (fun _ _ ↦ True) (PayoutReconcileService.reconcile env) s := by
  intro t _ ht _
  refine ⟨trivial, executes_reconcileAll (fun row hrow ref href ↦ ?_) ht⟩
  have hmem : row ∈ t.payouts := by
    have := List.mem_of_mem_take hrow
    exact List.mem_of_mem_filter ((List.mem_insertionSort _).mp this)
  exact ht.routed row.id row ref (ht.numbered.mem hmem) href

/-- An event the vendor signs is about a payout it has, and is true of it. -/
theorem verified {u : Vendor} {e : PayoutWebhookEvent} (h : u.verifyWebhook e = true) :
    ∃ ref v, e.providerRef = some ref ∧ u.payouts[ref]? = some v ∧
      (e.payoutId = none ∨ e.payoutId = some v.payoutId) ∧
        (e.status = .paid → v.status = .paid) ∧ (e.status = .failed → v.status = .failed) := by
  unfold Vendor.verifyWebhook at h
  cases href : e.providerRef with
  | none =>
    rw [href] at h
    cases h
  | some ref =>
    cases hv : u.payouts[ref]? with
    | none =>
      rw [href] at h
      dsimp only at h
      rw [hv] at h
      cases h
    | some v =>
      rw [href] at h
      dsimp only at h
      rw [hv] at h
      simp only [Bool.and_eq_true, Bool.or_eq_true, decide_eq_true_eq] at h
      refine ⟨ref, v, rfl, hv, h.1, fun hst ↦ ?_, fun hst ↦ ?_⟩
      · have := h.2
        rw [hst] at this
        simpa using this
      · have := h.2
        rw [hst] at this
        simpa using this

/-- The row a true event finds is the one the vendor's payout was sent for. -/
theorem Agreed.found (h : Agreed w) {e : PayoutWebhookEvent} (href : e.providerRef = some ref)
    (hv : w.vendor.payouts[ref]? = some v) (hid : e.payoutId = none ∨ e.payoutId = some v.payoutId)
    (hrow : w.byProviderRefOrId e.providerRef e.payoutId = some row) : v.payoutId = row.id := by
  unfold World.byProviderRefOrId at hrow
  rw [href] at hrow
  cases hfind : w.payouts.find? (·.routeRef = some ref) with
  | some found =>
    have heq : found = row := by simpa [hfind] using hrow
    subst heq
    have hroute : found.routeRef = some ref := by simpa using List.find?_some hfind
    have hmem := List.mem_of_find?_eq_some hfind
    obtain ⟨v', hv', hid'⟩ := h.routed found.id found ref (h.numbered.mem hmem) hroute
    cases hv.symm.trans hv'
    exact hid'
  | none =>
    rcases hid with hid | hid
    · simp [hfind, hid] at hrow
    · have hrow' : w.payout v.payoutId = some row := by simpa [hfind, hid] using hrow
      exact (World.mem_of_payout hrow').2.symm

theorem executes_razorpay {e : PayoutWebhookEvent} :
    Executes (fun _ _ ↦ True) (WebhooksController.razorpay e) s := by
  refine Contract.Meets.bind (executes_select (P := fun valid t ↦ valid = true → ∃ ref v,
    e.providerRef = some ref ∧ t.vendor.payouts[ref]? = some v ∧
      (e.payoutId = none ∨ e.payoutId = some v.payoutId) ∧
        (e.status = .paid → v.status = .paid) ∧ (e.status = .failed → v.status = .failed))
    fun t _ _ hvalid ↦ verified hvalid) (fun valid t hvalid ↦ ?_) fun _ _ _ ↦ trivial
  have hvalid := hvalid valid rfl
  refine Contract.Meets.bind (Q := fun r u ↦ r = .ok () → valid = true ∧ u = t) ?_ (fun _ u hu ↦ ?_)
    fun _ _ _ ↦ trivial
  · unfold Proc.when
    split_ifs with hneg
    · intro h
      cases h
    · intro _
      exact ⟨by simpa using hneg, rfl⟩
  · obtain ⟨hok, rfl⟩ := hu rfl
    obtain ⟨ref, v, href, hv, hid, hpaid, hfailed⟩ := hvalid hok
    intro x hux _ _
    refine ⟨trivial, ?_⟩
    obtain ⟨v', hv', hkept⟩ := hux.vendor ref v hv
    have hv'' : (x.run (.insertWebhookEvent e.eventId)).vendor.payouts[ref]? = some v' := by
      rw [← hv']
      dsimp only [World.run]
      split_ifs <;> rfl
    refine Contract.Meets.when (fun _ ↦ ?_) fun _ ↦ trivial
    refine Contract.Meets.handle (Q := fun _ _ ↦ True) ?_ (fun _ _ _ ↦ trivial) fun _ _ _ ↦ trivial
    intro y hxy hy _
    refine ⟨trivial, ?_⟩
    obtain ⟨z, hz, hkept'⟩ := hxy.vendor ref v' hv''
    have hkept := hkept.trans hkept'
    dsimp only
    cases hfind : y.byProviderRefOrId e.providerRef e.payoutId with
    | none => trivial
    | some row =>
      have hrow := hy.found href hz (by rwa [hkept.payoutId]) hfind
      have hsent : Sent y ref row.id := ⟨z, hz, hrow⟩
      cases hst : e.status with
      | paid =>
        have : Executes (fun _ _ ↦ True) (markPaid row.id e.providerRef .webhook)
            (Store.commit (Step.select (.byProviderRefOrId e.providerRef e.payoutId)) y : World) := by
          rw [href]
          refine executes_markPaid fun r hr ↦ ?_
          cases hr
          exact hsent
        simpa [hst, Proc.bind] using this
      | failed =>
        have hf : z.status = .failed := by
          have := hfailed hst
          rw [hkept.ended (by rw [this]; decide), this]
        have : Executes (fun _ _ ↦ True)
            (markFailed row.id (e.failureReason.getD "Provider reported a failure") .webhook)
            (Store.commit (Step.select (.byProviderRefOrId e.providerRef e.payoutId)) y : World) :=
          executes_markFailed (.inr (.inr (.inr (.inl ⟨ref, z, hz, hrow, hf⟩))))
        simpa [hst, Proc.bind] using this
      | _ => simp [Proc.bind]

theorem acts_executes {p : Request Unit} (hp : Acts env p) :
    Executes (fun _ _ ↦ True) p s := by
  cases hp with
  | request owner amountPaise clientKey => exact executes_request.ignore
  | approve adminId payoutId => exact executes_approve.ignore
  | reject adminId payoutId reason => exact executes_reject.ignore
  | webhook e => exact executes_razorpay
  | reconcile => exact executes_reconcile
  | ambient l hl => cases hl <;> exact fun _ _ _ _ ↦ ⟨trivial, trivial⟩

/-- Nothing has been sent to the vendor either. -/
theorem Unpaid.agreed (h : Unpaid w) (hv : w.vendor.payouts = []) : Agreed w := by
  have hrow {id : ℕ} {row : PayoutRow} (hr : w.payout id = some row) : False := by
    rw [World.payout, h.payouts] at hr
    cases hr
  have hsent {ref : ℕ} {v : VendorPayout} (hr : w.vendor.payouts[ref]? = some v) : False := by
    rw [hv] at hr
    cases hr
  refine ⟨h.accounted.numbered, h.sound, fun i j row row' hi ↦ (hrow hi).elim,
    fun i j v v' hi ↦ (hsent hi).elim, fun ref v hr ↦ (hsent hr).elim,
    fun ref v hr ↦ (hsent hr).elim, fun id row ref hr ↦ (hrow hr).elim, fun id hk ↦ ?_⟩
  obtain ⟨t, ht, hkey⟩ := exists_of_key hk
  exact absurd hkey (h.foreign t ht id).2.2

/-- A payout neither failed nor returned. -/
def Stands (w : World) (id : ℕ) : Prop := ¬Failed w id ∧ .payoutReversal id ∉ w.ledger.keys

theorem paid_payouts_stand {ps : List (Request Unit)} {w₀ : World} {es : List (Event Step World)}
    (h₀ : Unpaid w₀) (hv₀ : w₀.vendor.payouts = []) (h : Runs (Acts env) w₀ ps w es)
    (hheard : ∀ e ∈ es, Heard e.label e.before) (hv : w.vendor.payouts[ref]? = some v)
    (hpaid : v.status = .paid) :
    (∃ row, w.payout v.payoutId = some row) ∧ Stands w v.payoutId ∧
      ∀ e ∈ es, Stands e.after v.payoutId := by
  obtain ⟨hw, hes, -⟩ := h.safe executing_sound (fun _ hp _ _ ↦ acts_executes hp)
    (h₀.agreed hv₀) hheard
  have hstands : Stands w v.payoutId := by
    have hnot : ¬Failed w v.payoutId := by
      intro hf
      have := hw.failed ref v hv hf
      rw [hpaid] at this
      cases this
    exact ⟨hnot, fun hk ↦ hnot (hw.reversed _ hk)⟩
  refine ⟨?_, hstands, fun e he ↦ ?_⟩
  · obtain ⟨row, hrow, -⟩ := hw.sent ref v hv
    exact ⟨row, hrow⟩
  · -- What failed or was returned on the way is so at the end.
    have hafter (e : Event Step World) (he : e ∈ es) : e.after = e.before.run e.label :=
      h.committed e he
    have hmoves : Moves e.after w := by
      refine h.chained.rel_last Moves.refl (fun _ _ _ h h' ↦ h.trans h') (fun e he ↦ ?_) e he
      rw [hafter e he]
      exact moves_run (hes e he).1.numbered e.label
    have hkeys : .payoutReversal v.payoutId ∈ e.after.ledger.keys →
        .payoutReversal v.payoutId ∈ w.ledger.keys := by
      refine h.chained.rel_last (R := fun s t ↦ .payoutReversal v.payoutId ∈ s.ledger.keys →
        .payoutReversal v.payoutId ∈ t.ledger.keys) (fun _ h ↦ h) (fun _ _ _ h h' hk ↦ h' (h hk))
        (fun e he ↦ ?_) e he
      rw [hafter e he]
      exact World.mem_keys_run (hes e he).1.sound e.label
    exact ⟨fun hf ↦ hstands.1 (hf.moves hmoves), fun hk ↦ hstands.2 (hkeys hk)⟩

/-- The vendor accepts a payout and pays it, and its webhook says so. -/
def paidOut : List (Request Unit) :=
  linked ++
    [(PayoutsService.request sampleEnv sampleOwner 100000 "a").ignore,
      Proc.write (.vendorSettle 0 .paid none),
      WebhooksController.razorpay ⟨"evt_1", some 0, some 0, .paid, none⟩]

/-- The same, but the vendor's first answer is lost. -/
def answerLost : List (Request Unit) :=
  linked ++
    [Proc.write (.vendorMood (.accepts .processing none true)),
      (PayoutsService.request sampleEnv sampleOwner 100000 "a").ignore,
      Proc.write (.vendorSettle 0 .paid none),
      WebhooksController.razorpay ⟨"evt_1", some 0, some 0, .paid, none⟩]

theorem paidOut_acts : ∀ q ∈ paidOut, Acts sampleEnv q := by
  refine List.forall_mem_append.mpr ⟨linked_acts, ?_⟩
  simp only [List.forall_mem_cons, List.not_mem_nil, false_imp_iff, forall_true_iff, and_true]
  exact ⟨.request _ _ _, .ambient _ (.vendorSettle _ _ _), .webhook _⟩

theorem answerLost_acts : ∀ q ∈ answerLost, Acts sampleEnv q := by
  refine List.forall_mem_append.mpr ⟨linked_acts, ?_⟩
  simp only [List.forall_mem_cons, List.not_mem_nil, false_imp_iff, forall_true_iff, and_true]
  exact ⟨.ambient _ (.vendorMood _), .request _ _ _, .ambient _ (.vendorSettle _ _ _), .webhook _⟩

instance : (l : Step) → (w : World) → Decidable (Heard l w)
  | .transitionToTerminal id .failed _ _ cause, w => inferInstanceAs (Decidable
      (cause = .hold ∨ cause = .error ∨ cause = .neverAcknowledged →
        ∀ row ∈ w.payout id, isOpen row = true →
          ∀ v : VendorPayout, v ∈ w.vendor.payouts → v.payoutId = id → v.status = .failed))
  | .createPayout p, w => inferInstanceAs (Decidable (∀ row ∈ w.payout p.payoutId,
      row.status = .failed → ∀ v : VendorPayout, v ∈ (w.vendor.accept p).payouts →
        v.payoutId = p.payoutId → v.status = .failed))
  | .transitionToTerminal _ .requested _ _ _, _ => isTrue trivial
  | .transitionToTerminal _ .processing _ _ _, _ => isTrue trivial
  | .transitionToTerminal _ .paid _ _ _, _ => isTrue trivial
  | .select _, _ | .create _, _ | .hold _ _ _, _ | .reverse _, _ => isTrue trivial
  | .markProcessing _ _, _ | .decideApproval _ _ _ _, _ | .insertWebhookEvent _, _ => isTrue trivial
  | .post _, _ | .link _ _, _ | .setAutoApproveMax _, _ | .tick _, _ => isTrue trivial
  | .vendorMood _, _ | .vendorSettle _ _ _, _ => isTrue trivial

theorem paid_payouts_stand_sample :
    (runAll paidOut World.fresh).1.payouts.map (·.status) = [.paid] ∧
      Stands (runAll paidOut World.fresh).1 0 := by
  have h := Uncut.start.runAll (s := World.fresh) paidOut_acts
  have hv : (runAll paidOut World.fresh).1.vendor.payouts[0]? =
      some ⟨0, ⟨sampleOwner, "a"⟩, 100000, "fa_1", .paid, none⟩ := by decide +kernel
  exact ⟨by decide +kernel,
    (paid_payouts_stand unpaid_fresh rfl h.serial.runs (by decide +kernel) hv rfl).2.1⟩

theorem paid_payout_returned : ∃ w es, Uncut (Acts sampleEnv) World.fresh w es ∧
    w.vendor.payouts.map (·.status) = [.paid] ∧ w.payouts.map (·.status) = [.failed] ∧
      LedgerKey.payoutReversal 0 ∈ w.ledger.keys ∧ w.ledger.balanceOf sampleOwner = 300000 := by
  refine ⟨_, _, Uncut.start.runAll answerLost_acts, ?_⟩
  decide +kernel

end Towing.Payouts
