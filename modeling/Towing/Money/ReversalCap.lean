import Towing.Money.Reversal
import Towing.Process.Runs

namespace Towing.Money

open Towing.Arith Towing.Db Towing.Process RefundsService

variable {w w' s : World} {b id : ℕ} {o : WalletOwner} {l : Step} {env : Env} {share : ℤ}

/-- A booking whose refunds can be reversed: no owner has given back more than the
booking brought it, and only one driver and one fleet ever earned from it. -/
structure Reversible (b : ℕ) (w : World) : Prop where
  ledger : w.ledger.Sound
  numbered : w.RefundsNumbered
  providers : ∃ d f, ∀ t ∈ w.rowsOf b isSettlementCredit,
    t.owner = ⟨.driver, d⟩ ∨ t.owner = ⟨.fleet, f⟩
  shares : ∀ r ∈ w.refunds, r.kind = .part → r.providerShare.isSome
  negative : ∀ t ∈ w.rowsOf b (· = .refundDebit), t.amount ≤ 0
  capped : ∀ o, w.debited b o ≤ w.credited b o

/-- The legs take from each owner at most what it still holds of the booking. -/
structure Affordable (b : ℕ) (legs : List (LedgerLeg LedgerKey)) (w : World) : Prop where
  owners : (legs.map (·.owner)).Nodup
  credits : ∀ leg ∈ legs, isSettlementCredit leg.type = false
  negative : ∀ leg ∈ legs, leg.type = .refundDebit → leg.amountPaise.toInt ≤ 0
  debits : ∀ leg ∈ legs, leg.type = .refundDebit → leg.idempotencyKey ∉ w.ledger.keys →
    w.debited b leg.owner - w.credited b leg.owner ≤ leg.amountPaise.toInt

inductive ReversalStep (b : ℕ) : Step → World → Prop
  | post {legs : List (LedgerLeg LedgerKey)} {w : World} (h : Affordable b legs w) :
      ReversalStep b (.post legs) w
  | insert {r : NewRefund} {seen : ℤ × ℤ} {w : World} (h : r.kind = .part → r.providerShare.isSome) :
      ReversalStep b (.insertRefund r seen) w
  | other {l : Step} {w : World} (hl : l.table ≠ .ledger) (hi : ∀ r seen, l ≠ .insertRefund r seen) :
      ReversalStep b l w

def Step.legs : Step → List (LedgerLeg LedgerKey)
  | .post legs => legs
  | _ => []

/-- The refund a debit leg's key belongs to. -/
def LedgerKey.refund? : LedgerKey → Option ℕ
  | .refundDriverDebit id => some id
  | .refundFleetDebit id => some id
  | _ => none

/-- Every clawback leg that goes in is of a refund whose stored share the driver
side still holds. -/
def ShareHeld (b : ℕ) (l : Step) (w : World) : Prop :=
  ∀ leg ∈ l.legs, leg.idempotencyKey ∉ w.ledger.keys →
    ∀ id ∈ LedgerKey.refund? leg.idempotencyKey, ∀ row ∈ w.refund id,
      ∀ share ∈ row.providerShare, share ≤ w.providerHeld b

instance (b : ℕ) (l : Step) (w : World) : Decidable (ShareHeld b l w) :=
  inferInstanceAs (Decidable (∀ leg ∈ l.legs, _ → ∀ id ∈ LedgerKey.refund? leg.idempotencyKey, _))

def reversing (b : ℕ) : Contract Step World :=
  ⟨Reversible b, fun w w' ↦ w' = w, ShareHeld b, ReversalStep b⟩

theorem rowsOf_same {p : WalletTxnType → Bool} (h : w'.ledger.transactions = w.ledger.transactions) :
    w'.rowsOf b p = w.rowsOf b p := by
  rw [World.rowsOf, h, World.rowsOf]

theorem sumOf_same {p : WalletTxnType → Bool} (h : w'.ledger.transactions = w.ledger.transactions) :
    w'.sumOf b p o = w.sumOf b p o := by
  rw [World.sumOf, rowsOf_same h, World.sumOf]

/-- What an affordable post does to an owner's sums. -/
theorem Affordable.sums {legs : List (LedgerLeg LedgerKey)} (h : Affordable b legs w)
    (hw : w.ledger.Sound) (hcap : w.debited b o ≤ w.credited b o) :
    (w.post legs).credited b o = w.credited b o ∧
      (w.post legs).debited b o ≤ w.credited b o := by
  rcases (World.post_rows _ hw).2 with ⟨-, heq⟩ | ⟨-, hrows⟩
  · have heq := congrArg Ledger.transactions heq
    rw [World.credited, World.debited, sumOf_same heq, sumOf_same heq]
    exact ⟨rfl, hcap⟩
  · have howners : ((freshRows w.ledger.keys legs).map (·.owner)).Nodup := by
      have := (freshRows_sublist w.ledger.keys legs).map (·.owner)
      rw [List.map_map] at this
      exact this.nodup h.owners
    rw [World.credited, World.debited, sumOf_append hrows, sumOf_append hrows]
    rcases filter_image howners o with ⟨hnil, -⟩ | ⟨t, ht, ho, heq⟩
    · rw [hnil]
      simpa [World.credited, World.debited] using hcap
    · obtain ⟨leg, hleg, rfl, hkey⟩ := mem_freshRows ht
      have hcredit : isSettlementCredit leg.row.type = false := h.credits leg hleg
      rw [heq, List.filter_singleton, List.filter_singleton, hcredit, Bool.and_false]
      refine ⟨by simp [World.credited], ?_⟩
      cases hd : decide (leg.row.refId = some (.booking b)) && decide (leg.row.type = .refundDebit) with
      | true =>
        simp only [Bool.and_eq_true, decide_eq_true_eq] at hd
        have hle := h.debits leg hleg hd.2 hkey
        rw [show leg.owner = o from ho, World.debited] at hle
        have hrow : leg.row.amount = leg.amountPaise.toInt := rfl
        simp only [cond_true, List.map_cons, List.map_nil, List.sum_singleton]
        omega
      | false => simpa [World.debited] using hcap

theorem Reversible.of_ledger (h : Reversible b w) (hled : w'.ledger = w.ledger)
    (hnum : w'.RefundsNumbered) (hshares : ∀ r ∈ w'.refunds, r.kind = .part →
      r.providerShare.isSome) : Reversible b w' := by
  have hsame := congrArg Ledger.transactions hled
  obtain ⟨d, f, hdf⟩ := h.providers
  refine ⟨hled ▸ h.ledger, hnum, ⟨d, f, fun t ht ↦ hdf t ?_⟩, hshares, fun t ht ↦ ?_, fun o ↦ ?_⟩
  · rwa [rowsOf_same hsame] at ht
  · rw [rowsOf_same hsame] at ht
    exact h.negative t ht
  · rw [World.debited, World.credited, sumOf_same hsame, sumOf_same hsame]
    exact h.capped o

theorem Reversible.post {legs : List (LedgerLeg LedgerKey)} (h : Reversible b w)
    (haff : Affordable b legs w) : Reversible b (w.post legs) := by
  refine ⟨(World.post_rows _ h.ledger).1, h.numbered, ?_, h.shares, fun t ht ↦ ?_, fun o ↦ ?_⟩
  · obtain ⟨d, f, hdf⟩ := h.providers
    refine ⟨d, f, fun t ht ↦ hdf t ?_⟩
    rcases (World.post_rows _ h.ledger).2 with ⟨-, heq⟩ | ⟨-, hrows⟩
    · rwa [rowsOf_same (congrArg Ledger.transactions heq)] at ht
    · rw [rowsOf_append hrows, List.mem_append, List.mem_filter] at ht
      refine ht.resolve_right fun hpre ↦ ?_
      obtain ⟨hfresh, hp⟩ := hpre
      obtain ⟨leg, hleg, rfl, -⟩ := mem_freshRows hfresh
      simp [LedgerLeg.row, haff.credits leg hleg] at hp
  · rcases (World.post_rows _ h.ledger).2 with ⟨-, heq⟩ | ⟨-, hrows⟩
    · rw [rowsOf_same (congrArg Ledger.transactions heq)] at ht
      exact h.negative t ht
    · rw [rowsOf_append hrows, List.mem_append, List.mem_filter] at ht
      rcases ht with ht | ⟨hfresh, hp⟩
      · exact h.negative t ht
      · obtain ⟨leg, hleg, rfl, -⟩ := mem_freshRows hfresh
        simp only [Bool.and_eq_true, decide_eq_true_eq] at hp
        exact haff.negative leg hleg hp.2
  · obtain ⟨hcredit, hdebit⟩ := haff.sums h.ledger (h.capped o)
    rw [hcredit]
    exact hdebit

theorem reversing_preserves (b : ℕ) : (reversing b).Preserves where
  refl _ := rfl
  inv_commit l w h _ hg := by
    have h : Reversible b w := h
    change Reversible b (w.run l)
    cases hg with
    | post haff => exact h.post haff
    | @insert r seen _ hshare =>
      refine h.of_ledger (World.run_ledger (by simp [Step.table])) h.numbered.insert fun r' hr' hk ↦ ?_
      rcases World.createRefund_eq (w := w) r with heq | ⟨-, heq⟩
      · rw [World.run, heq] at hr'
        exact h.shares r' hr' hk
      · rw [World.run, heq] at hr'
        rcases List.mem_append.mp hr' with hr' | hr'
        · exact h.shares r' hr' hk
        · cases List.mem_singleton.mp hr'
          exact hshare hk
    | other hl hi =>
      refine h.of_ledger (World.run_ledger hl) (World.run_refundsNumbered hi h.numbered)
        fun r hr hk ↦ ?_
      obtain ⟨g, hg, hfixed⟩ := World.run_refunds_fixed (w := w) hi
      rw [hg] at hr
      obtain ⟨r', hr', rfl⟩ := List.mem_map.mp hr
      have hkind : (g r').kind = r'.kind := RefundRow.of_fixed (·.kind) (fun _ ↦ rfl) (hfixed r')
      have hshare : (g r').providerShare = r'.providerShare :=
        RefundRow.of_fixed (·.providerShare) (fun _ ↦ rfl) (hfixed r')
      rw [hshare]
      exact h.shares r' hr' (hkind.symm.trans hk)

/-! The requests. -/

/-- The steps that take nothing back. -/
def Mild (l : Step) : Prop :=
  (l.table ≠ .ledger ∧ ∀ r seen, l ≠ .insertRefund r seen) ∨
    ∃ leg, l = .post [leg] ∧ leg.type = .refundCredit

theorem Mild.reversal (h : Mild l) : ReversalStep b l w := by
  rcases h with ⟨hl, hi⟩ | ⟨leg, rfl, ht⟩
  · exact .other hl hi
  · refine .post ⟨by simp, fun leg' hleg' ↦ ?_, fun leg' hleg' hd ↦ ?_, fun leg' hleg' hd ↦ ?_⟩
    · cases List.mem_singleton.mp hleg'
      rw [ht]
      rfl
    · cases List.mem_singleton.mp hleg'
      rw [ht] at hd
      cases hd
    · cases List.mem_singleton.mp hleg'
      rw [ht] at hd
      cases hd

/-- The share a refund's row was given. -/
def ShareIs (id : ℕ) (v : Option ℤ) (w : World) : Prop := (w.refund id).bind (·.providerShare) = v

theorem Mild.shareIs {v : Option ℤ} (h : Mild l) (hw : ShareIs id v w) : ShareIs id v (w.run l) := by
  have hi : ∀ r seen, l ≠ .insertRefund r seen := by
    rcases h with ⟨-, hi⟩ | ⟨leg, rfl, -⟩
    · exact hi
    · simp
  have hfixed := World.run_refund (w := w) hi id
  rw [ShareIs] at hw ⊢
  rw [← hw]
  cases h₂ : w.refund id with
  | none =>
    rw [h₂, Option.map_none, Option.map_eq_none_iff] at hfixed
    rw [hfixed]
  | some r =>
    rw [h₂, Option.map_some] at hfixed
    obtain ⟨r', hr', hfixed⟩ := Option.map_eq_some_iff.mp hfixed
    rw [hr']
    exact RefundRow.of_fixed (·.providerShare) (fun _ ↦ rfl) hfixed

abbrev Reverses {α : Type} (b : ℕ) (Φ : Except Failure α → World → Prop) (p : Request α)
    (s : World) : Prop := (reversing b).Meets Φ p s

theorem reverses_mild {α : Type} {p : Request α} {v : Option ℤ} (hp : p.Only Mild)
    (hs : ShareIs id v s) : Reverses b (fun _ t ↦ ShareIs id v t) p s :=
  Contract.Meets.of_only hp (fun _ _ hl _ _ ht ↦ ⟨hl.reversal, hl.shareIs ht⟩)
    (fun _ _ h ht ↦ h ▸ ht) hs

theorem mild_of_table {α : Type} {f : World → Except Failure α} (h : l.table ≠ .ledger)
    (hr : l.table ≠ .refunds) : (Proc.attempt l f : Request α).Only Mild := by
  refine ⟨.inl ⟨h, ?_⟩, fun _ ↦ trivial⟩
  rintro r seen rfl
  exact hr rfl

theorem mild_select {α : Type} (q : Select) (f : World → α) : (select q f).Only Mild :=
  mild_of_table (by simp [Step.table]) (by simp [Step.table])

theorem mild_write (h : l.table ≠ .ledger) (hi : ∀ r seen, l ≠ .insertRefund r seen) :
    (Proc.write l : Request Unit).Only Mild := ⟨.inl ⟨h, hi⟩, fun _ ↦ trivial⟩

theorem mild_callGateway (key : RefundKey) (ref : Option Ref) (x : ℤ) :
    (callGateway id key ref x).Only Mild := by
  unfold callGateway
  split_ifs
  · trivial
  · cases ref with
    | none => trivial
    | some ref =>
      dsimp only
      split_ifs
      · trivial
      · refine Proc.Only.handle (Proc.Only.bind ?_ fun r ↦ ?_) fun e ↦ Proc.Only.bind ?_ fun _ ↦ ?_
        · exact mild_of_table (by simp [Step.table]) (by simp [Step.table])
        · exact mild_write (by simp [Step.table]) (by simp)
        · exact mild_write (by simp [Step.table]) (by simp)
        · trivial

theorem mild_creditWallet (x : ℤ) : (creditWallet b id x).Only Mild := by
  refine (mild_select _ _).bind fun booking ↦ ?_
  cases booking with
  | none => trivial
  | some booking => exact Proc.Only.ignore ⟨.inr ⟨_, rfl, rfl⟩, fun _ ↦ trivial⟩

theorem mild_markProcessed : (markProcessed id).Only Mild :=
  mild_write (by simp [Step.table]) (by simp)

theorem reverses_select {α : Type} (q : Select) (f : World → α) :
    Reverses b (fun r t ↦ r = .ok (f s) ∧ t = s ∧ (Reversible b s)) (select q f) s := by
  rintro t rfl ht -
  exact ⟨.other (by simp [Step.table]) (by simp), rfl, rfl, ht⟩

theorem reverses_credits (b : ℕ) :
    Reverses b (fun r t ↦ t = s ∧ ∀ credits, r = .ok credits →
      credits.Perm (s.sumByOwner b isSettlementCredit)) (settlementCredits env b) s := by
  refine (reverses_select _ _).mono ?_
  rintro r t ⟨rfl, rfl, -⟩
  refine ⟨rfl, fun credits h ↦ ?_⟩
  cases h
  exact env.grouped_perm _ _

theorem reverses_reversed (b : ℕ) :
    Reverses b (fun r t ↦ t = s ∧ ∀ reversed, r = .ok reversed → reversed = s.debited b)
      (reversedByOwner b) s := by
  refine (reverses_select _ _).mono ?_
  rintro r t ⟨rfl, rfl, -⟩
  refine ⟨rfl, fun reversed h ↦ ?_⟩
  cases h
  exact World.reversed_eq

theorem reverses_reverseLedger (b id : ℕ) :
    Reverses b (fun _ _ ↦ True) (reverseLedger env b id) s := by
  refine (reverses_credits b).bind ?_ fun _ _ _ ↦ trivial
  rintro credits t ⟨rfl, hperm⟩
  have hperm := hperm credits rfl
  split_ifs
  · trivial
  · refine (reverses_reversed b).bind ?_ fun _ _ _ ↦ trivial
    rintro reversed u ⟨rfl, hrev⟩
    cases hrev reversed rfl
    suffices h : Reverses b (fun _ _ ↦ True) (ledgerPost _) u from h.ignore
    rintro v rfl - -
    refine ⟨.post ⟨?_, fun leg hleg ↦ ?_, fun leg hleg _ ↦ ?_, fun leg hleg _ _ ↦ ?_⟩, trivial⟩
    · have hnodup : (credits.map (·.1)).Nodup :=
        (hperm.map _).nodup_iff.mpr World.nodup_sumByOwner
      rw [reversalLegs, List.map_map]
      refine (List.Sublist.map _ List.filter_sublist).nodup ?_
      rwa [List.map_map]
    · obtain ⟨c, -, rfl⟩ := List.mem_map.mp hleg
      rfl
    · obtain ⟨c, hc, rfl⟩ := List.mem_map.mp hleg
      have hpos : 0 < c.2 := by simpa using (List.mem_filter.mp hc).2
      change -c.2 ≤ 0
      omega
    · obtain ⟨c, hc, rfl⟩ := List.mem_map.mp hleg
      obtain ⟨c', hc', rfl⟩ := List.mem_map.mp (List.mem_filter.mp hc).1
      have hsum : c'.2 = v.credited b c'.1 := (World.mem_sumByOwner (hperm.mem_iff.mp hc')).1
      change v.debited b c'.1 - v.credited b c'.1 ≤ -(c'.2 - v.debited b c'.1)
      omega

/-- The driver side's holdings, as a clawback reads them. -/
theorem providerOwners_held {credits : List (WalletOwner × ℤ)}
    (hperm : credits.Perm (s.sumByOwner b isSettlementCredit)) :
    ((providerOwners credits (s.debited b)).map (·.2)).sum = s.providerHeld b :=
  (((hperm.filter _).map _).map _).sum_eq

theorem mem_providerOwners {credits : List (WalletOwner × ℤ)} {c : WalletOwner × ℤ}
    (hperm : credits.Perm (s.sumByOwner b isSettlementCredit))
    (h : c ∈ providerOwners credits (s.debited b)) :
    c.2 = max 0 (s.credited b c.1 - s.debited b c.1) ∧
      ∃ t ∈ s.rowsOf b isSettlementCredit, t.owner = c.1 := by
  obtain ⟨c', hc', rfl⟩ := List.mem_map.mp h
  obtain ⟨hsum, hrow⟩ := World.mem_sumByOwner (hperm.mem_iff.mp (List.mem_filter.mp hc').1)
  refine ⟨?_, hrow⟩
  change max 0 (c'.2 - _) = _
  rw [hsum]
  rfl

/-- What is left out of the shares holds nothing. -/
theorem sum_filter_pos (cs : List (WalletOwner × ℤ)) (h : ∀ c ∈ cs, 0 ≤ c.2) :
    ((cs.filter (0 < ·.2)).map (·.2)).sum = (cs.map (·.2)).sum := by
  induction cs with
  | nil => rfl
  | cons c cs ih =>
    have hrest := ih fun c hc ↦ h c (List.mem_cons_of_mem _ hc)
    have hc := h c List.mem_cons_self
    by_cases hpos : 0 < c.2
    · simp [hpos, hrest]
    · have hzero : c.2 = 0 := by omega
      simp [hzero, hrest]

/-- A clawback within what the driver side holds is affordable. -/
theorem clawback_affordable (hw : Reversible b s) {credits : List (WalletOwner × ℤ)}
    {cause : Option RefundCause} (hperm : credits.Perm (s.sumByOwner b isSettlementCredit))
    (h0 : 0 < share)
    (hheld : ∀ leg ∈ clawbackLegs b id share cause (providerOwners credits (s.debited b)),
      leg.idempotencyKey ∉ s.ledger.keys → share ≤ s.providerHeld b) :
    Affordable b (clawbackLegs b id share cause (providerOwners credits (s.debited b))) s := by
  let owners := providerOwners credits (s.debited b)
  have hnodup : (owners.map (·.1)).Nodup := by
    have hcredits : (credits.map (·.1)).Nodup :=
      (hperm.map _).nodup_iff.mpr World.nodup_sumByOwner
    have hfst : owners.map (·.1) = (credits.filter fun c ↦ isProvider c.1).map (·.1) := by
      simp [owners, providerOwners]
    rw [hfst]
    exact (List.filter_sublist.map _).nodup hcredits
  have hpos : ((owners.filter (0 < ·.2)).map (·.1)).Nodup := (List.filter_sublist.map _).nodup hnodup
  refine ⟨?_, fun leg hleg ↦ ?_, fun leg hleg _ ↦ ?_, fun leg hleg _ hkey ↦ ?_⟩
  · rw [clawbackLegs, List.map_map]
    refine (List.Sublist.map _ List.filter_sublist).nodup ?_
    have : (fun leg : LedgerLeg LedgerKey ↦ leg.owner) ∘ (fun c : WalletOwner × ℤ ↦
        debit b id c.1 c.2 (adjustmentLabel cause)) = (·.1) := rfl
    rw [this, shares_owners]
    exact hpos
  · obtain ⟨x, -, rfl⟩ := List.mem_map.mp hleg
    rfl
  · obtain ⟨x, hx, rfl⟩ := List.mem_map.mp hleg
    have hpos : 0 < x.2 := by simpa using (List.mem_filter.mp hx).2
    change -x.2 ≤ 0
    omega
  · have hshare := hheld leg hleg hkey
    obtain ⟨x, hx, rfl⟩ := List.mem_map.mp hleg
    have hlen : (owners.filter (0 < ·.2)).length ≤ 2 := by
      obtain ⟨d, f, hdf⟩ := hw.providers
      have hsub : (owners.filter (0 < ·.2)).map (·.1) ⊆ [⟨.driver, d⟩, ⟨.fleet, f⟩] := by
        intro o ho
        obtain ⟨c, hc, rfl⟩ := List.mem_map.mp ho
        obtain ⟨-, t, ht, hto⟩ := mem_providerOwners hperm (List.mem_filter.mp hc).1
        rw [← hto]
        simpa using hdf t ht
      have := (List.subperm_of_subset hpos hsub).length_le
      simpa using this
    have hsum : (owners.map (·.2)).sum = ((owners.filter (0 < ·.2)).map (·.2)).sum := by
      refine (sum_filter_pos owners fun c hc ↦ ?_).symm
      rw [(mem_providerOwners hperm hc).1]
      exact le_max_left _ _
    obtain ⟨c, hc, hcx, -, hle⟩ := shares_le hlen
      (fun c hc ↦ by simpa using (List.mem_filter.mp hc).2) h0.le hsum
      (by rw [providerOwners_held hperm]; exact hshare) x (List.mem_filter.mp hx).1
    obtain ⟨hc, hcpos⟩ := List.mem_filter.mp hc
    have hmax := (mem_providerOwners hperm hc).1
    rw [hcx] at hmax
    change s.debited b x.1 - s.credited b x.1 ≤ -x.2
    have hcpos : 0 < c.2 := by simpa using hcpos
    omega

theorem reverses_clawback {cause : Option RefundCause} (hs : ShareIs id (some share) s) :
    Reverses b (fun _ _ ↦ True) (clawback env b id share cause) s := by
  unfold clawback
  split_ifs with h0
  · trivial
  · refine (reverses_reversed b).bind ?_ fun _ _ _ ↦ trivial
    rintro reversed t ⟨rfl, hrev⟩
    cases hrev reversed rfl
    refine (reverses_credits b).bind ?_ fun _ _ _ ↦ trivial
    rintro credits u ⟨rfl, hperm⟩
    have hperm := hperm credits rfl
    dsimp only
    split_ifs
    · trivial
    · refine Contract.Meets.when (fun _ ↦ ?_) fun _ ↦ trivial
      suffices h : Reverses b (fun _ _ ↦ True) (ledgerPost _) u from h.ignore
      rintro v rfl hv hcond
      refine ⟨.post (clawback_affordable hv hperm (by omega) fun leg hleg hkey ↦ ?_), trivial⟩
      obtain ⟨row, hrow, hshare⟩ := Option.bind_eq_some_iff.mp hs
      refine hcond leg hleg hkey id ?_ row hrow share hshare
      obtain ⟨x, -, rfl⟩ := List.mem_map.mp hleg
      simp only [debit]
      split <;> rfl

theorem mild_land (target : Option BookingStatus) : (land b target).Only Mild := by
  cases target with
  | none => trivial
  | some target => exact mild_of_table (by simp [Step.table]) (by simp [Step.table])

theorem mild_resumeTransition (target : Option BookingStatus) :
    (resumeTransition b target).Only Mild := by
  cases target with
  | none => trivial
  | some target =>
    refine (mild_select _ _).bind fun booking ↦ ?_
    cases booking with
    | none => trivial
    | some booking => exact (mild_of_table (by simp [Step.table]) (by simp [Step.table])).when

/-- After a request's first part, which takes nothing back. -/
theorem Reverses.after {α β : Type} {Φ : Except Failure β → World → Prop} {p : Request α}
    {f : α → Request β} {v : Option ℤ} (hp : p.Only Mild) (hs : ShareIs id v s)
    (h : ∀ a t, ShareIs id v t → Reverses b Φ (f a) t) (hΦ : ∀ e t, Φ (.error e) t) :
    Reverses b Φ (p.bind f) s :=
  (reverses_mild hp hs).bind (fun a t ht ↦ h a t ht) fun e t _ ↦ hΦ e t

theorem reverses_only {α : Type} {p : Request α} (hp : p.Only Mild) :
    Reverses b (fun _ _ ↦ True) p s :=
  (reverses_mild hp (rfl : ShareIs 0 _ s)).mono fun _ _ _ ↦ trivial

/-- And before a last part that takes nothing back either. -/
theorem Reverses.before {α β : Type} {p : Request α} {f : α → Request β}
    (hp : Reverses b (fun _ _ ↦ True) p s) (hf : ∀ a, (f a).Only Mild) :
    Reverses b (fun _ _ ↦ True) (p.bind f) s :=
  hp.bind (fun a _ _ ↦ reverses_only (hf a)) fun _ _ _ ↦ trivial

theorem reverses_resumeLegs {row : RefundRow} (hkind : row.kind = .part → row.providerShare.isSome)
    (hs : ShareIs row.id row.providerShare s) :
    Reverses b (fun _ _ ↦ True) (resumeLegs env b row) s := by
  unfold resumeLegs
  cases hk : row.kind with
  | full => exact reverses_reverseLedger b row.id
  | part =>
    obtain ⟨share, hshare⟩ := Option.isSome_iff_exists.mp (hkind hk)
    rw [hshare] at hs ⊢
    exact reverses_clawback hs

theorem reverses_resumeRefund (b id : ℕ) (target : Option BookingStatus) :
    Reverses b (fun _ _ ↦ True) (resumeRefund env id b target) s := by
  have hcoupon : (Proc.write (.releaseCoupon b) : Request Unit).Only Mild :=
    mild_write (by simp [Step.table]) (by simp)
  refine (reverses_select _ _).bind ?_ fun _ _ _ ↦ trivial
  rintro found t ⟨hfound, rfl, ht⟩
  cases found with
  | none => trivial
  | some row =>
    have hrow := (Except.ok.inj hfound).symm
    have hid : row.id = id := by simpa using List.find?_some hrow
    have hkind := ht.shares row (List.mem_of_find?_eq_some hrow)
    have hs : ShareIs row.id row.providerShare t := by rw [ShareIs, hid, hrow]; rfl
    dsimp only
    split_ifs
    · trivial
    · refine Reverses.after (mild_select _ _) hs (fun payment u hu ↦ ?_) fun _ _ ↦ trivial
      refine Reverses.after (mild_callGateway _ _ _).when hu (fun _ u hu ↦ ?_) fun _ _ ↦ trivial
      refine Reverses.after (mild_creditWallet _).when hu (fun _ u hu ↦ ?_) fun _ _ ↦ trivial
      refine Reverses.after mild_markProcessed.when hu (fun _ u hu ↦ ?_) fun _ _ ↦ trivial
      refine (reverses_resumeLegs hkind hu).before fun _ ↦ ?_
      refine hcoupon.when.bind fun _ ↦ (mild_resumeTransition target).bind fun _ ↦ ?_
      cases payment with
      | none => trivial
      | some payment => exact mild_write (by simp [Step.table]) (by simp)

theorem reverses_insertRefund {r : NewRefund} {seen : ℤ × ℤ}
    (h : r.kind = .part → r.providerShare.isSome) :
    Reverses b (fun q t ↦ ∀ id, q = .ok (some id) → ShareIs id r.providerShare t)
      (insertRefund r seen) s := by
  rintro t rfl ht -
  refine ⟨.insert h, fun id hid ↦ ?_⟩
  change ShareIs id r.providerShare (t.createRefund r)
  rw [ShareIs, World.refund_insert (Reversible.numbered ht) hid]
  rfl

theorem reverses_refundBooking (p : RefundBooking) :
    Reverses p.bookingId (fun _ _ ↦ True) (refundBooking env p) s := by
  have hresume (id : ℕ) (t : World) :
      Reverses p.bookingId (fun _ _ ↦ True) (resumeFull env p id) t :=
    (reverses_resumeRefund p.bookingId id p.transitionTo).before fun _ ↦ trivial
  refine Contract.Meets.bind (Q := fun _ _ ↦ True) (reverses_only (mild_select _ _))
    (fun found t _ ↦ ?_) fun _ _ _ ↦ trivial
  cases found with
  | some id => exact hresume id t
  | none =>
    refine Contract.Meets.bind (Q := fun _ _ ↦ True) (reverses_only (mild_select _ _))
      (fun found t _ ↦ ?_) fun _ _ _ ↦ trivial
    cases found with
    | none => trivial
    | some captured =>
      have hlandable : (landable p.bookingId p.transitionTo).Only Mild := by
        unfold landable
        split
        · trivial
        · exact mild_of_table (by simp [Step.table]) (by simp [Step.table])
      have hrefuse (e : Failure) : (throw e : Request Unit).Only Mild := trivial
      refine Contract.Meets.bind (Q := fun _ _ ↦ True) (reverses_only hlandable)
        (fun _ t _ ↦ ?_) fun _ _ _ ↦ trivial
      refine Contract.Meets.bind (Q := fun _ _ ↦ True) (reverses_only (mild_select _ _))
        (fun split t _ ↦ ?_) fun _ _ _ ↦ trivial
      dsimp only
      refine Contract.Meets.bind (Q := fun _ _ ↦ True) (reverses_only (hrefuse _).when)
        (fun _ t _ ↦ ?_) fun _ _ _ ↦ trivial
      refine (reverses_insertRefund fun h ↦ by cases h).bind (fun found t ht ↦ ?_)
        fun _ _ _ ↦ trivial
      cases found with
      | none =>
        refine Contract.Meets.bind (Q := fun _ _ ↦ True) (reverses_only (mild_select _ _))
          (fun found t _ ↦ ?_) fun _ _ _ ↦ trivial
        cases found with
        | some id => exact hresume id t
        | none => trivial
      | some id =>
        refine Reverses.after (mild_callGateway _ _ _) (ht id rfl) (fun _ u hu ↦ ?_) fun _ _ ↦ trivial
        refine Reverses.after (mild_creditWallet _).when hu (fun _ u hu ↦ ?_) fun _ _ ↦ trivial
        refine Reverses.after mild_markProcessed.when hu (fun _ u hu ↦ ?_) fun _ _ ↦ trivial
        refine (reverses_reverseLedger p.bookingId id).before fun _ ↦ ?_
        refine (mild_land _).bind fun _ ↦ Proc.Only.bind ?_ fun _ ↦ Proc.Only.bind ?_ fun _ ↦ ?_
        · exact mild_write (by simp [Step.table]) (by simp)
        · exact mild_write (by simp [Step.table]) (by simp)
        · trivial

theorem reverses_refundPartial (p : RefundPartial) :
    Reverses p.bookingId (fun _ _ ↦ True) (refundPartial env p) s := by
  have hresume (id : ℕ) (t : World) :
      Reverses p.bookingId (fun _ _ ↦ True) (resumePartial env p id) t :=
    (reverses_resumeRefund p.bookingId id none).before fun _ ↦
      (mild_select _ _).bind fun _ ↦ trivial
  have hrefuse (e : Failure) : (throw e : Request Unit).Only Mild := trivial
  refine Contract.Meets.bind (Q := fun _ _ ↦ True) (reverses_only (mild_select _ _))
    (fun found t _ ↦ ?_) fun _ _ _ ↦ trivial
  cases found with
  | some id => exact hresume id t
  | none =>
    refine Contract.Meets.bind (Q := fun _ _ ↦ True) (reverses_only (mild_select _ _))
      (fun found t _ ↦ ?_) fun _ _ _ ↦ trivial
    cases found with
    | none => trivial
    | some captured =>
      have hcredit : (providerCredit env p.bookingId).Only Mild :=
        (mild_select _ _).bind fun _ ↦ (mild_select _ _).bind fun _ ↦ trivial
      refine Contract.Meets.bind (Q := fun _ _ ↦ True) (reverses_only (mild_select _ _))
        (fun split t _ ↦ ?_) fun _ _ _ ↦ trivial
      dsimp only
      refine Contract.Meets.bind (Q := fun _ _ ↦ True) (reverses_only (hrefuse _).when)
        (fun _ t _ ↦ ?_) fun _ _ _ ↦ trivial
      refine Contract.Meets.bind (Q := fun _ _ ↦ True) (reverses_only hcredit)
        (fun credit t _ ↦ ?_) fun _ _ _ ↦ trivial
      refine Contract.Meets.bind (Q := fun _ _ ↦ True) (reverses_only (hrefuse _).when)
        (fun _ t _ ↦ ?_) fun _ _ _ ↦ trivial
      refine (reverses_insertRefund fun _ ↦ rfl).bind (fun found t ht ↦ ?_) fun _ _ _ ↦ trivial
      cases found with
      | none =>
        refine Contract.Meets.bind (Q := fun _ _ ↦ True) (reverses_only (mild_select _ _))
          (fun found t _ ↦ ?_) fun _ _ _ ↦ trivial
        cases found with
        | some id => exact hresume id t
        | none => trivial
      | some id =>
        refine Reverses.after (mild_callGateway _ _ _) (ht id rfl) (fun _ u hu ↦ ?_) fun _ _ ↦ trivial
        refine Reverses.after (mild_creditWallet _).when hu (fun _ u hu ↦ ?_) fun _ _ ↦ trivial
        refine Reverses.after mild_markProcessed.when hu (fun _ u hu ↦ ?_) fun _ _ ↦ trivial
        refine (reverses_clawback hu).before fun _ ↦ Proc.Only.bind ?_ fun _ ↦ ?_
        · exact mild_write (by simp [Step.table]) (by simp)
        · trivial

/-- The refund requests of a booking, beside whatever takes nothing back. -/
inductive Refunds (env : Env) (b : ℕ) : Request Unit → Prop
  | full (p : RefundBooking) (h : p.bookingId = b) : Refunds env b (refundBooking env p).ignore
  | part (p : RefundPartial) (h : p.bookingId = b) : Refunds env b (refundPartial env p).ignore
  | other (l : Step) (h : Mild l) : Refunds env b (Proc.write l)

theorem Reversible.no_drift (h : Reversible b w) : ¬w.ReversalDrift b := by
  rintro ⟨-, hlt⟩
  have htotal := World.total_le h.capped
  have hneg : w.totalOf b (· = .refundDebit) ≤ 0 := by
    have hsum := List.sum_le_sum (g := fun _ ↦ (0 : ℤ)) h.negative
    rw [List.map_const', List.sum_replicate, smul_zero] at hsum
    exact hsum
  rw [abs_of_nonpos hneg] at hlt
  omega

theorem refunds_reverse {q : Request Unit} (h : Refunds env b q) :
    Reverses b (fun _ _ ↦ True) q s := by
  cases h with
  | full p hp => exact hp ▸ (reverses_refundBooking p).ignore
  | part p hp => exact hp ▸ (reverses_refundPartial p).ignore
  | other l hl => exact fun _ _ _ _ ↦ ⟨hl.reversal, trivial⟩

/-- Wherever the requests crash and whichever keys come again: while every
clawback finds its share still held, nobody gives back more than the booking
brought. -/
theorem reversal_capped {es : List (Event Step World)} (h₀ : Reversible b s)
    (h : Serial (Refunds env b) s w es) (hcond : ∀ e ∈ es, ShareHeld b e.label e.before) :
    (∀ o, w.debited b o ≤ w.credited b o) ∧ ¬w.ReversalDrift b ∧
      ∀ e ∈ es, (∀ o, e.before.debited b o ≤ e.before.credited b o) ∧ ¬e.before.ReversalDrift b := by
  obtain ⟨hw, hes⟩ := h.safe (reversing_preserves b) (fun _ hq _ _ ↦ refunds_reverse hq) h₀ hcond
  have hw : Reversible b w := hw
  refine ⟨hw.capped, hw.no_drift, fun e he ↦ ?_⟩
  have he : Reversible b e.before := (hes e he).1
  exact ⟨he.capped, he.no_drift⟩

/-- The leg that paid the driver of trip 1. -/
def driverCredit : LedgerLeg LedgerKey where
  owner := ⟨.driver, 3⟩
  type := .fareCredit
  amountPaise := .int 900
  reason := "Net fare after commission (Band A, independent)"
  refId := some (.booking 1)
  idempotencyKey := .bookingNetFare 1

/-- The paid trip with its driver's ₹9. -/
def creditedTrip : World := paidTrip.post [driverCredit]

/-- A refund of which the driver gives back everything. -/
def providerRefund (i : ℕ) (amountPaise : ℤ) : RefundPartial where
  bookingId := 1
  amountPaise := amountPaise
  terms := ⟨.driverMisconduct, none, .original, none⟩
  reason := "dispute"
  initiatedBy := "admin"
  keySource := .dispute i

theorem creditedTrip_reversible : Reversible 1 creditedTrip where
  ledger := (World.post_rows _ Ledger.Sound.empty).1
  numbered := rfl
  providers := ⟨3, 0, by decide⟩
  shares := by decide
  negative := by decide
  capped o := by
    have hdebits : creditedTrip.rowsOf 1 (· = .refundDebit) = [] := by decide
    have hcredits : creditedTrip.rowsOf 1 isSettlementCredit = [driverCredit.row] := by decide
    rw [World.debited, World.credited, World.sumOf, World.sumOf, hdebits, hcredits]
    by_cases ho : driverCredit.row.owner = o
    · subst ho
      decide
    · simp [ho]

/-- A refund dies once its row is in, and its key comes again. -/
def resumedRefund : List (Request Unit × Option ℕ) :=
  [((refundPartial sampleEnv (providerRefund 0 600)).ignore, some 8),
    ((refundPartial sampleEnv (providerRefund 0 600)).ignore, none)]

/-- Another refund takes its share in between. -/
def overtakenRefund : List (Request Unit × Option ℕ) :=
  [((refundPartial sampleEnv (providerRefund 0 600)).ignore, some 8),
    ((refundPartial sampleEnv (providerRefund 1 400)).ignore, none),
    ((refundPartial sampleEnv (providerRefund 0 600)).ignore, none)]

theorem reversal_capped_sample :
    (runCut resumedRefund creditedTrip).1.debited 1 ⟨.driver, 3⟩ = 600 ∧
      ¬(runCut resumedRefund creditedTrip).1.ReversalDrift 1 := by
  have hreq : ∀ q ∈ resumedRefund, Refunds sampleEnv 1 q.1 := by
    simp only [resumedRefund, List.forall_mem_cons, List.not_mem_nil, false_imp_iff,
      forall_true_iff, and_true]
    exact ⟨.part _ rfl, .part _ rfl⟩
  exact ⟨by decide +kernel, (reversal_capped creditedTrip_reversible (Serial.start.runCut hreq)
    (by decide +kernel)).2.1⟩

theorem reversal_overdrawn : ∃ w es, Reversible 1 creditedTrip ∧
    Serial (Refunds sampleEnv 1) creditedTrip w es ∧
      w.credited 1 ⟨.driver, 3⟩ < w.debited 1 ⟨.driver, 3⟩ ∧ w.ReversalDrift 1 := by
  have hreq : ∀ q ∈ overtakenRefund, Refunds sampleEnv 1 q.1 := by
    simp only [overtakenRefund, List.forall_mem_cons, List.not_mem_nil, false_imp_iff,
      forall_true_iff, and_true]
    exact ⟨.part _ rfl, .part _ rfl, .part _ rfl⟩
  refine ⟨_, _, creditedTrip_reversible, Serial.start.runCut hreq, ?_⟩
  unfold World.ReversalDrift
  decide +kernel

end Towing.Money
