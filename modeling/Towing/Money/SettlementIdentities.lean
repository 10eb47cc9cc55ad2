import Towing.Money.ReversalCap
import Towing.Money.Settled

namespace Towing.Money

open Towing.Arith Towing.Db Towing.Process World PaymentsRepo PaymentsService

/-! What a settlement credits. -/

section

variable {pool share : ℤ}

theorem splitPool_sum : (splitPool pool share).driverPaise + (splitPool pool share).fleetPaise = pool := by
  unfold splitPool
  dsimp only
  omega

/-- A percentage the columns' `CHECK`s let in. -/
def isPct (pct : Pct) : Prop := 0 ≤ pct ∧ pct ≤ 10000

theorem Pct.number_mem (h : isPct share) : 0 ≤ Pct.number share ∧ Pct.number share ≤ 100 := by
  have h0 : (0 : ℚ) ≤ share := by exact_mod_cast h.1
  have h1 : (share : ℚ) ≤ 10000 := by exact_mod_cast h.2
  refine ⟨double_nonneg (by linarith), ?_⟩
  have hwhole : double ((100 : ℤ) : ℚ) = ((100 : ℤ) : ℚ) := double_intCast (by norm_num)
  push_cast at hwhole
  exact (double_mono (by linarith)).trans hwhole.le

/-- The fleet's part is between nothing and the pool. -/
theorem splitPool_fleet (h : isPct share) (hpool : |pool| < 10 ^ 12) :
    (0 ≤ pool → 0 ≤ (splitPool pool share).fleetPaise ∧ (splitPool pool share).fleetPaise ≤ pool) ∧
      (pool ≤ 0 → pool ≤ (splitPool pool share).fleetPaise ∧ (splitPool pool share).fleetPaise ≤ 0) := by
  obtain ⟨h0, h1⟩ := Pct.number_mem h
  have hwhole : double ((100 : ℤ) : ℚ) = ((100 : ℤ) : ℚ) := double_intCast (by norm_num)
  push_cast at hwhole
  have hrest : 0 ≤ double (100 - Pct.number share) := double_nonneg (by linarith)
  have hrest' : double (100 - Pct.number share) ≤ 100 := (double_mono (by linarith)).trans hwhole.le
  rw [abs_lt] at hpool
  exact ⟨fun hp ↦ percentOf_mem hp (by omega) hrest hrest', fun hp ↦ percentOf_mem_neg hp (by omega) hrest hrest'⟩

end

/-- The legs share out the pool. -/
structure SharesOut (pool : ℤ) (legs : List SettlementLeg) : Prop where
  none : legs = [] ↔ pool ≤ 0
  sum : legs ≠ [] → (legs.map (·.amountPaise)).sum = pool

/-- The legs are credits, one of a type. -/
structure Credits (legs : List SettlementLeg) : Prop where
  credits : ∀ leg ∈ legs, 0 < leg.amountPaise ∧ isSettlementCredit leg.type = true
  types : (legs.map (·.type)).Nodup

theorem sharesOut_single {pool : ℤ} : SharesOut pool
    (if 0 < pool then [⟨.driver, .fareCredit, pool⟩] else []) := by
  split_ifs with hp
  · exact ⟨by simpa using hp, by simp⟩
  · exact ⟨by simpa using hp, by simp⟩

theorem credits_single {pool : ℤ} : Credits (if 0 < pool then [⟨.driver, .fareCredit, pool⟩] else []) := by
  split_ifs with hp
  · refine ⟨fun leg hleg ↦ ?_, by simp⟩
    cases List.mem_singleton.mp hleg
    exact ⟨hp, rfl⟩
  · exact ⟨by simp, by simp⟩

theorem sharesOut_split {pool driver fleet : ℤ} (hsum : driver + fleet = pool)
    (hup : 0 ≤ pool → 0 ≤ fleet ∧ fleet ≤ pool) (hdown : pool ≤ 0 → pool ≤ fleet ∧ fleet ≤ 0) :
    SharesOut pool ((if 0 < driver then [⟨.driver, .driverShareCredit, driver⟩] else []) ++
      if 0 < fleet then [⟨.fleet, .fleetShareCredit, fleet⟩] else []) := by
  by_cases hd : 0 < driver
  · by_cases hf : 0 < fleet
    · simp only [hd, hf, if_true]
      exact ⟨by simp; omega, fun _ ↦ by simpa using hsum⟩
    · simp only [hd, hf, if_true, if_false, List.append_nil]
      refine ⟨by simp; omega, fun _ ↦ ?_⟩
      simp only [List.map_cons, List.map_nil, List.sum_singleton]
      omega
  · by_cases hf : 0 < fleet
    · simp only [hd, hf, if_true, if_false, List.nil_append]
      refine ⟨by simp; omega, fun _ ↦ ?_⟩
      simp only [List.map_cons, List.map_nil, List.sum_singleton]
      omega
    · simp only [hd, hf, if_false, List.append_nil]
      exact ⟨by simp; omega, by simp⟩

theorem credits_split {driver fleet : ℤ} :
    Credits ((if 0 < driver then [⟨.driver, .driverShareCredit, driver⟩] else []) ++
      if 0 < fleet then [⟨.fleet, .fleetShareCredit, fleet⟩] else []) := by
  by_cases hd : 0 < driver <;> by_cases hf : 0 < fleet <;> simp only [hd, hf, if_true, if_false]
  · refine ⟨fun leg hleg ↦ ?_, by simp⟩
    rcases List.mem_cons.mp hleg with rfl | hleg
    · exact ⟨hd, rfl⟩
    · cases List.mem_singleton.mp hleg
      exact ⟨hf, rfl⟩
  · refine ⟨fun leg hleg ↦ ?_, by simp⟩
    cases List.mem_singleton.mp hleg
    exact ⟨hd, rfl⟩
  · refine ⟨fun leg hleg ↦ ?_, by simp⟩
    cases List.mem_singleton.mp hleg
    exact ⟨hf, rfl⟩
  · exact ⟨by simp, by simp⟩

/-- The commission does not depend on the driver's share. -/
def SettlementInput.commissionPaise (i : SettlementInput) : ℤ :=
  match i.commissionPct with
  | some pct => commissionPaiseAtPct i.totalPaise pct
  | none => Money.commissionPaise i.totalPaise i.band

/-- What the columns let in of what a settlement reads. -/
structure SettlementInput.Fits (i : SettlementInput) : Prop where
  total : i.totalPaise < 10 ^ 12
  commissionPct : ∀ pct, i.commissionPct = some pct → isPct pct

theorem SettlementInput.commissionPaise_mem {i : SettlementInput} (h : 0 ≤ i.totalPaise) (hfits : i.Fits) :
    0 ≤ i.commissionPaise ∧ i.commissionPaise ≤ i.totalPaise := by
  have hmax := hfits.total
  have hof {pct : Pct} (hp : isPct pct) : 0 ≤ commissionPaiseAtPct i.totalPaise pct ∧
      commissionPaiseAtPct i.totalPaise pct ≤ i.totalPaise :=
    percentOf_mem h (by omega) (Pct.number_mem hp).1 (Pct.number_mem hp).2
  unfold SettlementInput.commissionPaise
  cases hc : i.commissionPct with
  | some pct => exact hof (hfits.commissionPct pct hc)
  | none =>
    apply hof
    cases i.band <;> exact ⟨by decide, by decide⟩

theorem computeSettlement_ok {input : SettlementInput} {st : Settlement}
    (h : computeSettlement input = .ok st) :
    0 ≤ input.totalPaise ∧ st.commissionPaise = input.commissionPaise ∧
      st.commissionPaise + st.poolPaise = input.totalPaise ∧ Credits st.legs := by
  unfold computeSettlement at h
  split_ifs at h with hsafe
  have htotal := hsafe.1
  dsimp only at h
  cases hshare : input.driverSharePct with
  | none =>
    rw [hshare] at h
    cases h
    exact ⟨htotal, rfl, by dsimp only; omega, credits_single⟩
  | some share =>
    rw [hshare] at h
    dsimp only at h
    by_cases hs : share < 0 ∨ 10000 < share
    · rw [if_pos hs] at h
      cases h
    · rw [if_neg hs] at h
      cases h
      exact ⟨htotal, rfl, by dsimp only; omega, credits_split⟩

/-- The pool is a part of the total. -/
theorem computeSettlement_pool {input : SettlementInput} {st : Settlement}
    (h : computeSettlement input = .ok st) (hfits : input.Fits) : 0 ≤ st.poolPaise ∧ st.poolPaise < 10 ^ 12 := by
  obtain ⟨htotal, hcommission, hsum, -⟩ := computeSettlement_ok h
  obtain ⟨hc0, hc1⟩ := SettlementInput.commissionPaise_mem htotal hfits
  have hmax := hfits.total
  omega

theorem computeSettlement_shares {input : SettlementInput} {st : Settlement}
    (h : computeSettlement input = .ok st) (hpool : |st.poolPaise| < 10 ^ 12) : SharesOut st.poolPaise st.legs := by
  unfold computeSettlement at h
  split_ifs at h
  dsimp only at h
  cases hshare : input.driverSharePct with
  | none =>
    rw [hshare] at h
    cases h
    exact sharesOut_single
  | some share =>
    rw [hshare] at h
    dsimp only at h
    by_cases hs : share < 0 ∨ 10000 < share
    · rw [if_pos hs] at h
      cases h
    · rw [if_neg hs] at h
      cases h
      have hpct : isPct share := ⟨not_lt.mp fun hlt ↦ hs (.inl hlt), not_lt.mp fun hlt ↦ hs (.inr hlt)⟩
      exact sharesOut_split splitPool_sum (splitPool_fleet hpct hpool).1 (splitPool_fleet hpct hpool).2

/-- The keys of a booking's settlement credits. -/
def isCreditKey (b : ℕ) : LedgerKey → Bool
  | .bookingDriverShare c | .bookingFleetShare c | .bookingNetFare c => c = b
  | _ => false

/-- The leg credits a booking's settlement. -/
def isCreditOf (b : ℕ) (leg : LedgerLeg LedgerKey) : Bool :=
  leg.refId = some (.booking b) && isSettlementCredit leg.type

/-- Each type of credit has a key of its own. -/
theorem creditKey_inj {b : ℕ} {t t' : WalletTxnType}
    (heq : (match t with
      | .driverShareCredit => LedgerKey.bookingDriverShare b
      | .fleetShareCredit => .bookingFleetShare b
      | _ => .bookingNetFare b) = match t' with
      | .driverShareCredit => LedgerKey.bookingDriverShare b
      | .fleetShareCredit => .bookingFleetShare b
      | _ => .bookingNetFare b) (h : isSettlementCredit t = true)
    (h' : isSettlementCredit t' = true) : t = t' := by
  revert heq h h'
  cases t <;> cases t' <;> simp [isSettlementCredit]

theorem settlementLegs_ok {input : SettlementCredit} {legs : List (LedgerLeg LedgerKey)}
    (h : settlementLegs input = .ok legs) :
    ∃ st, computeSettlement ⟨input.totalPaise, input.band, input.commissionPct,
        input.fleet.map (·.driverSharePct)⟩ = .ok st ∧
      (legs = [] ↔ st.legs = []) ∧ (legs.map (·.row.amount)).sum = (st.legs.map (·.amountPaise)).sum ∧
      (legs.map (·.idempotencyKey)).Nodup ∧
      ∀ leg ∈ legs, isCreditOf input.bookingId leg ∧ isCreditKey input.bookingId leg.idempotencyKey := by
  unfold settlementLegs at h
  cases hst : computeSettlement ⟨input.totalPaise, input.band, input.commissionPct,
      input.fleet.map (·.driverSharePct)⟩ with
  | error e =>
    rw [hst] at h
    cases h
  | ok st =>
    rw [hst] at h
    cases h
    obtain ⟨-, -, -, hout⟩ := computeSettlement_ok hst
    refine ⟨st, rfl, List.map_eq_nil_iff, ?_, ?_, ?_⟩
    · rw [List.map_map]
      rfl
    · rw [List.map_map]
      refine (List.nodup_map_iff_inj_on hout.types.of_map).mpr fun leg hleg leg' hleg' heq ↦ ?_
      refine List.inj_on_of_nodup_map hout.types hleg hleg' ?_
      dsimp only [Function.comp_apply] at heq
      exact creditKey_inj heq (hout.credits leg hleg).2 (hout.credits leg' hleg').2
    · intro leg hleg
      obtain ⟨leg', hleg', rfl⟩ := List.mem_map.mp hleg
      obtain ⟨-, hcredit⟩ := hout.credits leg' hleg'
      refine ⟨by simp [isCreditOf, hcredit], ?_⟩
      dsimp only
      split <;> simp [isCreditKey]

/-! What the settlements of one booking read and write. -/

/-- A booking without the columns its settlement writes. -/
def Booking.terms (r : Booking) : Booking :=
  { r with
    status := .completed
    commissionAmount := 0
    driverPayout := 0
    paidAt := none
    paymentMethod := none }

/-- Nobody's edits can change the driver's share any more: the pay terms were
locked at acceptance, or the driver has no fleet. -/
def Locked (r : Booking) : Prop := r.driverPayModel.isSome ∨ r.fleetId = none

instance (r : Booking) : Decidable (Locked r) := inferInstanceAs (Decidable (_ ∨ _))

/-- What a settlement that reads the pay terms of `v` comes to. -/
def SplitAt (b : ℕ) (r : Booking) (v : World) (st : Settlement)
    (legs : List (LedgerLeg LedgerKey)) : Prop :=
  ∃ d k, r.driverId = some d ∧ r.commissionBand = some k ∧
    let fleet := r.fleetId.map fun id ↦ (⟨id, (resolvedShare v r).getD 0⟩ : FleetShare)
    computeSettlement ⟨r.total - r.taxAmount, k, r.commissionPct,
      fleet.map (·.driverSharePct)⟩ = .ok st ∧
    settlementLegs ⟨b, r.total - r.taxAmount, k, r.commissionPct, d, fleet⟩ = .ok legs

/-- What the columns let in of what a booking's settlement reads. -/
structure Booking.Fits (r : Booking) : Prop where
  total : r.total < 10 ^ 12
  taxAmount : 0 ≤ r.taxAmount
  commissionPct : ∀ pct, r.commissionPct = some pct → isPct pct

variable {b : ℕ} {r₀ : Booking} {v v' w w' s : World} {st st' : Settlement} {l : Step}
  {legs legs' : List (LedgerLeg LedgerKey)} {env : Env} {on : Settling}

theorem SplitAt.total (h : SplitAt b r₀ v st legs) :
    st.commissionPaise + st.poolPaise = r₀.total - r₀.taxAmount := by
  obtain ⟨d, k, -, -, hst, -⟩ := h
  exact (computeSettlement_ok hst).2.2.1

theorem SplitAt.keys (h : SplitAt b r₀ v st legs) : (legs.map (·.idempotencyKey)).Nodup ∧
    ∀ leg ∈ legs, isCreditOf b leg ∧ isCreditKey b leg.idempotencyKey := by
  obtain ⟨d, k, -, -, -, hlegs⟩ := h
  obtain ⟨-, -, -, -, hrest⟩ := settlementLegs_ok hlegs
  exact hrest

theorem SplitAt.shares (h : SplitAt b r₀ v st legs) (hfits : r₀.Fits) :
    (legs = [] ↔ st.poolPaise ≤ 0) ∧ (legs ≠ [] → (legs.map (·.row.amount)).sum = st.poolPaise) := by
  obtain ⟨d, k, -, -, hst, hlegs⟩ := h
  obtain ⟨st', hst', hnil, hsum, -⟩ := settlementLegs_ok hlegs
  cases hst.symm.trans hst'
  obtain ⟨hpool, hmax⟩ := computeSettlement_pool hst
    ⟨by have := hfits.total; have := hfits.taxAmount; dsimp only; omega, hfits.commissionPct⟩
  have hout := computeSettlement_shares hst (by rwa [abs_of_nonneg hpool])
  exact ⟨hnil.trans hout.none, fun hne ↦ hsum.trans (hout.sum fun heq ↦ hne (hnil.mpr heq))⟩

/-- Every attempt comes to the same commission and the same pool. -/
theorem SplitAt.same (h : SplitAt b r₀ v st legs) (h' : SplitAt b r₀ v' st' legs') :
    st.commissionPaise = st'.commissionPaise ∧ st.poolPaise = st'.poolPaise := by
  have hsum := h.total
  have hsum' := h'.total
  obtain ⟨d, k, hd, hk, hst, -⟩ := h
  obtain ⟨d', k', hd', hk', hst', -⟩ := h'
  cases hk.symm.trans hk'
  have hcommission : st.commissionPaise = st'.commissionPaise :=
    (computeSettlement_ok hst).2.1.trans (computeSettlement_ok hst').2.1.symm
  omega

theorem SplitAt.locked (h : SplitAt b r₀ v st legs) (h' : SplitAt b r₀ v' st' legs')
    (hl : Locked r₀) : legs = legs' := by
  obtain ⟨d, k, hd, hk, -, hlegs⟩ := h
  obtain ⟨d', k', hd', hk', -, hlegs'⟩ := h'
  cases hd.symm.trans hd'
  cases hk.symm.trans hk'
  have hfleet : (r₀.fleetId.map fun id ↦ (⟨id, (resolvedShare v r₀).getD 0⟩ : FleetShare)) =
      r₀.fleetId.map fun id ↦ ⟨id, (resolvedShare v' r₀).getD 0⟩ := by
    rcases hl with hl | hl
    · obtain ⟨m, hm⟩ := Option.isSome_iff_exists.mp hl
      have hshare : resolvedShare v r₀ = resolvedShare v' r₀ := by
        unfold resolvedShare
        rw [hm]
        cases m <;> rfl
      rw [hshare]
    · rw [hl]
      rfl
  rw [hfleet] at hlegs
  exact Except.ok.inj (hlegs.symm.trans hlegs')

/-- The identities of the nightly check, and what keeps them: a booking's credits
are those of one attempt, and nothing else has their keys. -/
structure Identified (b : ℕ) (r₀ : Booking) (w : World) : Prop where
  fits : r₀.Fits
  ledger : w.ledger.Sound
  terms : ∃ r, w.bookings b = some r ∧ r.terms = r₀
  credits : w.rowsOf b isSettlementCredit = [] ∨ ∃ v st legs, SplitAt b r₀ v st legs ∧
    legs ≠ [] ∧ w.rowsOf b isSettlementCredit = legs.map (·.row)
  keys : ∀ t ∈ w.ledger.transactions, isCreditKey b t.idempotencyKey →
    t ∈ w.rowsOf b isSettlementCredit
  paid : ∀ r, w.bookings b = some r → r.status = .paid →
    w.totalOf b isSettlementCredit = r.driverPayout ∧ ∃ v st legs, SplitAt b r₀ v st legs ∧
      r.commissionAmount = st.commissionPaise ∧ r.driverPayout = st.poolPaise

inductive IdentityStep (b : ℕ) (r₀ : Booking) : Step → World → Prop
  | post {legs : List (LedgerLeg LedgerKey)} {w : World}
      (h : (∀ leg ∈ legs, isCreditOf b leg = false ∧ isCreditKey b leg.idempotencyKey = false) ∨
        ∃ v st, SplitAt b r₀ v st legs) : IdentityStep b r₀ (.post legs) w
  | transition {c : ℕ} {patch : BookingPatch} {why : Option (Settling × Option ℕ)} {w : World}
      (h : c = b → ∃ v st legs, SplitAt b r₀ v st legs ∧
        patch.commissionAmount = some st.commissionPaise ∧ patch.driverPayout = some st.poolPaise ∧
        (legs = [] ∨ w.rowsOf b isSettlementCredit ≠ [])) :
      IdentityStep b r₀ (.transition c .paid patch why) w
  | other {l : Step} {w : World} (hl : l.table ≠ .ledger) (hb : l.table ≠ .bookings)
      (hf : l.table ≠ .fares) : IdentityStep b r₀ l w

/-- A settlement that posts its credits finds none of the booking's there yet, or
every one of its own. -/
def Steady (b : ℕ) : Step → World → Prop
  | .post legs, w => (∃ r ∈ w.bookings b, ¬Locked r) →
      w.rowsOf b isSettlementCredit ≠ [] → ∀ leg ∈ legs, isCreditOf b leg →
        leg.idempotencyKey ∈ w.ledger.keys
  | _, _ => True

instance (b : ℕ) (l : Step) (w : World) : Decidable (Steady b l w) := by
  cases l <;> unfold Steady <;> infer_instance

def identifying (b : ℕ) (r₀ : Booking) : Contract Step World where
  inv := Identified b r₀
  rely w w' := w.rowsOf b isSettlementCredit ≠ [] → w'.rowsOf b isSettlementCredit ≠ []
  cond := Steady b
  guar := IdentityStep b r₀

theorem freshRows_all {κ : Type} [DecidableEq κ] {keys : List κ} {legs : List (LedgerLeg κ)}
    (hn : (legs.map (·.idempotencyKey)).Nodup) (h : ∀ leg ∈ legs, leg.idempotencyKey ∉ keys) :
    freshRows keys legs = legs.map (·.row) := by
  induction legs generalizing keys with
  | nil => rfl
  | cons leg legs ih =>
    rw [List.map_cons, List.nodup_cons] at hn
    rw [freshRows, if_neg (h leg List.mem_cons_self), List.map_cons, ih hn.2]
    intro leg' hleg' hmem
    rcases List.mem_append.mp hmem with hmem | hmem
    · exact h leg' (List.mem_cons_of_mem _ hleg') hmem
    · apply hn.1
      rw [← List.mem_singleton.mp hmem]
      exact List.mem_map_of_mem hleg'

theorem freshRows_none {κ : Type} [DecidableEq κ] {keys : List κ} {legs : List (LedgerLeg κ)}
    (h : ∀ leg ∈ legs, leg.idempotencyKey ∈ keys) : freshRows keys legs = [] := by
  induction legs with
  | nil => rfl
  | cons leg legs ih =>
    rw [freshRows, if_pos (h leg List.mem_cons_self)]
    exact ih fun leg' hleg' ↦ h leg' (List.mem_cons_of_mem _ hleg')

theorem Identified.no_keys (h : Identified b r₀ w) (hnil : w.rowsOf b isSettlementCredit = [])
    {k : LedgerKey} (hk : isCreditKey b k) : k ∉ w.ledger.keys := by
  intro hmem
  obtain ⟨t, ht, rfl⟩ := List.mem_map.mp hmem
  have := h.keys t ht hk
  rw [hnil] at this
  cases this

/-- What a post adds to the booking's credits: all of an attempt's, or nothing. -/
theorem Identified.fresh (h : Identified b r₀ w) (hs : Steady b (.post legs) w)
    (hg : IdentityStep b r₀ (.post legs) w) :
    (∀ t ∈ freshRows w.ledger.keys legs, isCreditKey b t.idempotencyKey = false ∧
        (t.refId = some (.booking b) && isSettlementCredit t.type) = false) ∨
      w.rowsOf b isSettlementCredit = [] ∧ freshRows w.ledger.keys legs = legs.map (·.row) ∧
        legs ≠ [] ∧ ∃ v st, SplitAt b r₀ v st legs := by
  cases hg with
  | other hl => exact absurd rfl hl
  | post hp =>
    rcases hp with hno | ⟨v, st, hsplit⟩
    · refine .inl fun t ht ↦ ?_
      obtain ⟨leg, hleg, rfl, -⟩ := mem_freshRows ht
      exact ⟨(hno leg hleg).2, (hno leg hleg).1⟩
    · obtain ⟨hnodup, hlegs⟩ := hsplit.keys
      by_cases hnil : w.rowsOf b isSettlementCredit = []
      · have hfresh := freshRows_all hnodup fun leg hleg ↦ h.no_keys hnil (hlegs leg hleg).2
        by_cases hempty : legs = []
        · left
          rw [hempty]
          intro t ht
          cases ht
        · exact .inr ⟨hnil, hfresh, hempty, v, st, hsplit⟩
      · left
        have hkeys : ∀ leg ∈ legs, leg.idempotencyKey ∈ w.ledger.keys := by
          obtain ⟨r, hr, hterms⟩ := h.terms
          by_cases hl : Locked r
          · obtain ⟨v', st', legs', hsplit', -, hrows⟩ := h.credits.resolve_left hnil
            have hl₀ : Locked r₀ := by rwa [← hterms]
            cases hsplit.locked hsplit' hl₀
            intro leg hleg
            have hrow : leg.row ∈ w.rowsOf b isSettlementCredit := by
              rw [hrows]
              exact List.mem_map_of_mem hleg
            exact List.mem_map_of_mem (List.mem_filter.mp hrow).1
          · exact fun leg hleg ↦ hs ⟨r, hr, hl⟩ hnil leg hleg (hlegs leg hleg).1
        rw [freshRows_none hkeys]
        intro t ht
        cases ht

/-- Two states with the same bookings and the same rows are identified alike. -/
theorem Identified.same (h : Identified b r₀ w) (hb : w'.bookings = w.bookings)
    (hl : w'.ledger.Sound) (ht : w'.ledger.transactions = w.ledger.transactions) :
    Identified b r₀ w' := by
  have hrows : w'.rowsOf b isSettlementCredit = w.rowsOf b isSettlementCredit := rowsOf_same ht
  refine ⟨h.fits, hl, ?_, ?_, ?_, ?_⟩
  · rw [hb]
    exact h.terms
  · rw [hrows]
    exact h.credits
  · rw [ht, hrows]
    exact h.keys
  · rw [hb, World.totalOf, hrows]
    exact h.paid

theorem Identified.post (h : Identified b r₀ w) (hs : Steady b (.post legs) w)
    (hg : IdentityStep b r₀ (.post legs) w) : Identified b r₀ (w.post legs) := by
  obtain ⟨hsound, hpost⟩ := World.post_rows _ h.ledger
  rcases hpost with ⟨-, heq⟩ | ⟨-, hrows⟩
  · exact h.same rfl hsound (by rw [heq])
  have happ := rowsOf_append (b := b) (p := isSettlementCredit) hrows
  rcases h.fresh hs hg with hno | ⟨hnil, hfresh, hne, v, st, hsplit⟩
  · have hnone : ((freshRows w.ledger.keys legs).filter fun t ↦
        t.refId = some (.booking b) && isSettlementCredit t.type) = [] := by
      rw [List.filter_eq_nil_iff]
      intro t ht
      rw [(hno t ht).2]
      exact Bool.false_ne_true
    rw [hnone, List.append_nil] at happ
    refine ⟨h.fits, hsound, h.terms, ?_, ?_, ?_⟩
    · rw [happ]
      exact h.credits
    · rw [hrows, happ]
      intro t ht hk
      rcases List.mem_append.mp ht with ht | ht
      · exact h.keys t ht hk
      · rw [(hno t ht).1] at hk
        cases hk
    · rw [World.totalOf, happ]
      exact h.paid
  · obtain ⟨hpool, hsum⟩ := hsplit.shares h.fits
    have hlegs := hsplit.keys.2
    have hall : ((legs.map (·.row)).filter fun t ↦
        t.refId = some (.booking b) && isSettlementCredit t.type) = legs.map (·.row) := by
      rw [List.filter_eq_self]
      intro t ht
      obtain ⟨leg, hleg, rfl⟩ := List.mem_map.mp ht
      exact (hlegs leg hleg).1
    rw [hnil, hfresh, hall, List.nil_append] at happ
    refine ⟨h.fits, hsound, h.terms, .inr ⟨v, st, legs, hsplit, hne, happ⟩, ?_, ?_⟩
    · rw [hrows, happ, hfresh]
      intro t ht hk
      rcases List.mem_append.mp ht with ht | ht
      · exact absurd (List.mem_map_of_mem ht) (h.no_keys hnil hk)
      · exact ht
    · -- A booking paid without credits had no pool to share out.
      intro r hr hst
      obtain ⟨htotal, v', st', legs', hsplit', -, hpay⟩ := h.paid r hr hst
      rw [World.totalOf, hnil] at htotal
      have hsame := (hsplit.same hsplit').2
      simp only [List.map_nil, List.sum_nil] at htotal
      exact absurd (hpool.mpr (by omega)) hne

theorem Identified.transition {c : ℕ} {patch : BookingPatch} (h : Identified b r₀ w)
    (hg : c = b → ∃ v st legs, SplitAt b r₀ v st legs ∧
      patch.commissionAmount = some st.commissionPaise ∧ patch.driverPayout = some st.poolPaise ∧
      (legs = [] ∨ w.rowsOf b isSettlementCredit ≠ [])) :
    Identified b r₀ (w.transition c .paid patch) := by
  unfold World.transition
  split_ifs with herr
  · exact h
  have hnone : w.transitionError c .paid patch = none := Option.not_isSome_iff_eq_none.mp herr
  by_cases hc : c = b
  · subst hc
    obtain ⟨r, hr, hterms⟩ := h.terms
    obtain ⟨v, st, legs, hsplit, hcommission, hpayout, hlegs⟩ := hg rfl
    have hr' : (w.updateBooking c fun r ↦ applyPatch r .paid patch).bookings c =
        some (applyPatch r .paid patch) := by
      simp [World.updateBooking, hr]
    have hchecked : bookingError (applyPatch r .paid patch) = none := by
      unfold World.transitionError at hnone
      rw [hr] at hnone
      dsimp only at hnone
      split_ifs at hnone
      exact hnone
    have hnonneg : 0 ≤ st.poolPaise := by
      unfold bookingError at hchecked
      split_ifs at hchecked with hneg
      have hp : (applyPatch r .paid patch).driverPayout = st.poolPaise := by
        rw [applyPatch, hpayout]
        rfl
      omega
    refine ⟨h.fits, h.ledger, ⟨_, hr', hterms⟩, h.credits, h.keys, ?_⟩
    intro x hx _
    rw [hr'] at hx
    cases hx
    refine ⟨?_, v, st, legs, hsplit, by rw [applyPatch, hcommission]; rfl,
      by rw [applyPatch, hpayout]; rfl⟩
    have hpay : (applyPatch r .paid patch).driverPayout = st.poolPaise := by
      rw [applyPatch, hpayout]
      rfl
    rw [hpay]
    change w.totalOf c isSettlementCredit = _
    rcases h.credits with hnil | ⟨v', st', legs', hsplit', hne', hrows'⟩
    · have hempty := hlegs.resolve_right fun hne ↦ hne hnil
      have := (hsplit.shares h.fits).1.mp hempty
      rw [World.totalOf, hnil]
      simp only [List.map_nil, List.sum_nil]
      omega
    · rw [World.totalOf, hrows', List.map_map]
      exact ((hsplit'.shares h.fits).2 hne').trans (hsplit'.same hsplit).2
  · have hb : (w.updateBooking c fun r ↦ applyPatch r .paid patch).bookings b = w.bookings b :=
      Function.update_of_ne (Ne.symm hc) _ _
    refine ⟨h.fits, h.ledger, ?_, h.credits, h.keys, ?_⟩
    · rw [hb]
      exact h.terms
    · rw [hb]
      exact h.paid

theorem Identified.run (h : Identified b r₀ w) (hs : Steady b l w) (hg : IdentityStep b r₀ l w) :
    Identified b r₀ (w.run l) := by
  cases hg with
  | post hp => exact h.post hs (.post hp)
  | transition ht => exact h.transition ht
  | other hl hb hf =>
    have hled := World.run_ledger (w := w) hl
    exact h.same (World.run_bookings hb hf) (by rw [hled]; exact h.ledger) (by rw [hled])

theorem identifying_sound : (identifying b r₀).Sound where
  refl _ h := h
  trans _ _ _ h h' hne := h' (h hne)
  inv_commit _ _ h hs hg := h.run hs hg
  rely_commit l w h hs hg hne := by
    change (w.run l).rowsOf b isSettlementCredit ≠ []
    by_cases hl : l.table = .ledger
    · cases l with
      | post legs =>
        rcases (World.post_rows _ (Identified.ledger h)).2 with ⟨-, heq⟩ | ⟨-, hrows⟩
        · have hsame : (w.post legs).rowsOf b isSettlementCredit = w.rowsOf b isSettlementCredit :=
            rowsOf_same (congrArg Ledger.transactions heq)
          rw [World.run, hsame]
          exact hne
        · rw [World.run, rowsOf_append hrows]
          exact List.append_ne_nil_of_left_ne_nil hne _
      | _ => cases hl
    · have hsame : (w.run l).rowsOf b isSettlementCredit = w.rowsOf b isSettlementCredit :=
        rowsOf_same (congrArg Ledger.transactions (World.run_ledger hl))
      rw [hsame]
      exact hne

/-! The requests. -/

/-- The settlements of all bookings, and the owners' edits of how they pay their drivers. -/
inductive Resettles (env : Env) : Request Unit → Prop
  | settleInner (on : Settling) : Resettles env (settleInner env on)
  | updateDriverPay (fleetId : ℕ) (pay : Fleet) :
      Resettles env (Proc.write (.updateDriverPay fleetId pay))
  | setShare (fleetId driverId : ℕ) (driverSharePct : Option Pct) :
      Resettles env (Proc.write (.setShare fleetId driverId driverSharePct))

abbrev Identifies {α : Type} (b : ℕ) (r₀ : Booking) (Φ : Except Failure α → World → Prop)
    (p : Request α) (s : World) : Prop := (identifying b r₀).Meets Φ p s

/-- A step that touches no money but the payments'. -/
def Aside (l : Step) : Prop := l.table ≠ .ledger ∧ l.table ≠ .bookings ∧ l.table ≠ .fares

theorem identifies_aside {α : Type} {p : Request α} (hp : p.Only Aside) :
    Identifies b r₀ (fun _ _ ↦ True) p s :=
  Contract.Meets.of_only hp (fun _ _ hl _ _ _ ↦ ⟨.other hl.1 hl.2.1 hl.2.2, trivial⟩)
    (fun _ _ _ _ ↦ trivial) trivial

theorem aside_attempt {α : Type} {f : World → Except Failure α} (hl : l.table ≠ .ledger)
    (hb : l.table ≠ .bookings) (hf : l.table ≠ .fares) : (Proc.attempt l f : Request α).Only Aside :=
  ⟨⟨hl, hb, hf⟩, fun _ ↦ trivial⟩

theorem aside_select {α : Type} (q : Select) (f : World → α) : (select q f).Only Aside :=
  aside_attempt (by simp [Step.table]) (by simp [Step.table]) (by simp [Step.table])

theorem aside_orElse {α : Type} {p q : Request (Option α)} (hp : p.Only Aside)
    (hq : q.Only Aside) : (orElse p q).Only Aside := by
  refine hp.bind fun found ↦ ?_
  cases found with
  | none => exact hq
  | some a => trivial

theorem aside_byHandleRef : (byHandleRef on).Only Aside := by
  unfold byHandleRef
  split
  · exact aside_select _ _
  · trivial

theorem aside_existingRow : (existingRow on).Only Aside := by
  refine aside_orElse (aside_orElse (aside_orElse aside_byHandleRef ?_) (aside_select _ _))
    (aside_select _ _)
  unfold byHandleOrder
  split
  · exact aside_select _ _
  · trivial

theorem aside_markCaptured (id : ℕ) (ref : Option Ref) (method : Option PaymentMethod)
    (why : Option Settling) : (markCaptured id ref method why).Only Aside :=
  aside_attempt (by simp [Step.table]) (by simp [Step.table]) (by simp [Step.table])

theorem aside_create (p : NewPayment) : (create p).Only Aside :=
  aside_attempt (by simp [Step.table]) (by simp [Step.table]) (by simp [Step.table])

theorem aside_createCapturedRow (booking : Booking) :
    (createCapturedRow env on booking).Only Aside := by
  refine Proc.Only.handle ?_ fun e ↦ ?_
  · refine (aside_create _).bind fun created ↦ ?_
    exact (aside_markCaptured _ _ _ _).bind fun _ ↦ trivial
  · split_ifs
    · exact aside_byHandleRef.bind fun _ ↦ trivial
    · trivial

theorem aside_ensureCapturedRow : (ensureCapturedRow env on).Only Aside := by
  refine aside_existingRow.bind fun found ↦ ?_
  cases found with
  | some existing => exact ((aside_markCaptured _ _ _ _).when).bind fun _ ↦ trivial
  | none =>
    refine (aside_select _ _).bind fun booking ↦ ?_
    cases booking with
    | none => trivial
    | some booking => exact aside_createCapturedRow booking

/-- The inputs of a booking's settlement, with the pay terms as they stand in `v`. -/
def inputsAt (r₀ : Booking) (v : World) (status : BookingStatus) (userId : ℕ) : SettlementInputs :=
  ⟨status, userId, r₀.driverId, r₀.fleetId, resolvedShare v r₀, r₀.commissionBand, r₀.commissionPct,
    r₀.total, r₀.taxAmount⟩

theorem other_booking {c : ℕ} (hc : c ≠ b) {leg : LedgerLeg LedgerKey} (h : isCreditOf c leg)
    (hk : isCreditKey c leg.idempotencyKey) :
    isCreditOf b leg = false ∧ isCreditKey b leg.idempotencyKey = false := by
  constructor
  · simp only [isCreditOf, Bool.and_eq_true, decide_eq_true_eq] at h
    simp [isCreditOf, h.1, hc]
  · revert hk
    cases leg.idempotencyKey <;> simp [isCreditKey] <;> omega

/-- The credits of an attempt are there once it has posted them. -/
theorem Identified.credited (h : Identified b r₀ (w.post legs)) (hsplit : SplitAt b r₀ v st legs)
    (hrows : (w.post legs).ledger.transactions =
      w.ledger.transactions ++ freshRows w.ledger.keys legs) :
    legs = [] ∨ (w.post legs).rowsOf b isSettlementCredit ≠ [] := by
  rcases List.eq_nil_or_concat legs with hnil | ⟨init, leg, heq⟩
  · exact .inl hnil
  · right
    have hleg : leg ∈ legs := by simp [heq]
    have hkey : leg.idempotencyKey ∈ (w.post legs).ledger.keys := by
      rw [Ledger.keys, hrows, List.map_append]
      exact mem_keys_freshRows w.ledger.keys hleg
    obtain ⟨t, ht, hk⟩ := List.mem_map.mp hkey
    have := h.keys t ht (hk ▸ (hsplit.keys.2 leg hleg).2)
    exact List.ne_nil_of_mem this

theorem identifies_ledgerPost
    (hg : (∀ leg ∈ legs, isCreditOf b leg = false ∧ isCreditKey b leg.idempotencyKey = false) ∨
      ∃ v st, SplitAt b r₀ v st legs) :
    Identifies b r₀ (fun r t ↦ ∀ x, r = .ok x → (∃ v st, SplitAt b r₀ v st legs) →
      legs = [] ∨ t.rowsOf b isSettlementCredit ≠ []) (ledgerPost legs) s := by
  intro t _ ht hcond
  refine ⟨.post hg, fun x hx hsplit ↦ ?_⟩
  obtain ⟨v, st, hsplit⟩ := hsplit
  rcases (World.post_rows _ (Identified.ledger ht)).2 with ⟨⟨e, he⟩, -⟩ | ⟨-, hrows⟩
  · dsimp only at hx
    rw [he] at hx
    cases hx
  · exact (Identified.post ht hcond (.post hg)).credited hsplit hrows

theorem identifies_credits {input : SettlementCredit}
    (hlegs : ∀ legs, settlementLegs input = .ok legs → input.bookingId = b →
      ∃ v st, SplitAt b r₀ v st legs) :
    Identifies b r₀ (fun r t ↦ r = .ok () → input.bookingId = b → ∃ legs,
      settlementLegs input = .ok legs ∧ (legs = [] ∨ t.rowsOf b isSettlementCredit ≠ []))
      (creditBookingSettlement input) s := by
  unfold creditBookingSettlement
  cases hin : settlementLegs input with
  | error e =>
    intro h
    cases h
  | ok legs =>
    obtain ⟨st₀, -, -, -, -, hof⟩ := settlementLegs_ok hin
    have hg : (∀ leg ∈ legs, isCreditOf b leg = false ∧
        isCreditKey b leg.idempotencyKey = false) ∨ ∃ v st, SplitAt b r₀ v st legs := by
      by_cases hc : input.bookingId = b
      · exact .inr (hlegs legs hin hc)
      · exact .inl fun leg hleg ↦ other_booking hc (hof leg hleg).1 (hof leg hleg).2
    refine (identifies_ledgerPost hg).bind (fun x t ht _ hc ↦ ⟨legs, rfl, ?_⟩) fun _ _ _ h ↦ by cases h
    exact ht x rfl (hlegs legs hin hc)

theorem not_credit_spendLegs (c userId : ℕ) (x : ℤ) : ∀ leg ∈ spendLegs c userId x,
    isCreditOf b leg = false ∧ isCreditKey b leg.idempotencyKey = false := by
  intro leg hleg
  cases List.mem_singleton.mp hleg
  simp [isCreditOf, isSettlementCredit, isCreditKey]

theorem not_credit_cashLegs (c driverId : ℕ) (x : ℤ) : ∀ leg ∈ cashLegs c driverId x,
    isCreditOf b leg = false ∧ isCreditKey b leg.idempotencyKey = false := by
  intro leg hleg
  cases List.mem_singleton.mp hleg
  simp [isCreditOf, isSettlementCredit, isCreditKey]

theorem identifies_settleOn {inputs : SettlementInputs} {basis : Option ℕ}
    (hs : Identified b r₀ s)
    (hin : on.bookingId = b → ∃ v status userId, inputs = inputsAt r₀ v status userId) :
    Identifies b r₀ (fun _ _ ↦ True) (settleOn on inputs basis) s := by
  have hc : (identifying b r₀).Sound := identifying_sound
  unfold settleOn
  dsimp only
  split
  · rename_i driverId band hdriver hband
    have hlegsFor : (paymentLegsFor basis).Only Aside := by
      cases basis with
      | none => trivial
      | some id => exact aside_select _ _
    refine (identifies_aside hlegsFor).seq hc hs (fun paid t _ ht _ ↦ ?_) fun _ _ _ ↦ trivial
    refine Contract.Meets.seq (Q := fun _ _ ↦ True) ?_ hc ht (fun _ t _ ht _ ↦ ?_) fun _ _ _ ↦ trivial
    · exact .when (fun _ ↦ (identifies_ledgerPost (.inl (not_credit_spendLegs _ _ _))).ignore)
        fun _ ↦ trivial
    refine Contract.Meets.seq (Q := fun _ _ ↦ True) ?_ hc ht (fun _ t _ ht _ ↦ ?_) fun _ _ _ ↦ trivial
    · exact .when (fun _ ↦ (identifies_ledgerPost (.inl (not_credit_cashLegs _ _ _))).ignore)
        fun _ ↦ trivial
    unfold settlementOf
    cases hst : computeSettlement ⟨inputs.totalPaise - inputs.taxPaise, band, inputs.commissionPct,
        (inputs.fleetId.map fun id ↦ (⟨id, inputs.driverSharePct.getD 0⟩ : FleetShare)).map
          (·.driverSharePct)⟩ with
    | error e => trivial
    | ok st =>
      have hsplit : on.bookingId = b → ∃ v, ∀ legs, settlementLegs ⟨on.bookingId,
          inputs.totalPaise - inputs.taxPaise, band, inputs.commissionPct, driverId,
          inputs.fleetId.map fun id ↦ ⟨id, inputs.driverSharePct.getD 0⟩⟩ = .ok legs →
          SplitAt b r₀ v st legs := by
        intro hon
        obtain ⟨v, status, userId, rfl⟩ := hin hon
        exact ⟨v, fun legs hlegs ↦ ⟨driverId, band, hdriver, hband, hst, hon ▸ hlegs⟩⟩
      refine (identifies_credits fun legs hlegs hon ↦ ?_).seq hc ht (fun _ t hcred ht _ ↦ ?_)
        fun _ _ _ ↦ trivial
      · obtain ⟨v, hv⟩ := hsplit hon
        exact ⟨v, st, hv legs hlegs⟩
      · intro u hu hi _
        refine ⟨.other (by simp [Step.table]) (by simp [Step.table]) (by simp [Step.table]), ?_⟩
        intro x hx _ _
        refine ⟨.transition fun hon ↦ ?_, trivial⟩
        obtain ⟨legs, hlegs, hrows⟩ := hcred rfl hon
        obtain ⟨v, hv⟩ := hsplit hon
        exact ⟨v, st, legs, hv legs hlegs, rfl, rfl, hrows.imp_right fun hne ↦ hx (hu hne)⟩
  · trivial

theorem identifies_settleInner (hs : Identified b r₀ s) :
    Identifies b r₀ (fun _ _ ↦ True) (settleInner env on) s := by
  have hc : (identifying b r₀).Sound := identifying_sound
  have hinputs : Identifies b r₀ (fun r _ ↦ ∀ inputs, r = .ok inputs → on.bookingId = b →
      ∃ v status userId, inputs = inputsAt r₀ v status userId) (settlementInputs on) s := by
    intro t _ ht _
    refine ⟨.other (by simp [Step.table]) (by simp [Step.table]) (by simp [Step.table]), ?_⟩
    intro inputs hok hon
    obtain ⟨r, hr, hterms⟩ := Identified.terms ht
    dsimp only at hok
    rw [hon, hr] at hok
    cases hok
    exact ⟨t, r.status, r.userId, by rw [← hterms]; rfl⟩
  refine hinputs.seq hc hs (fun inputs t hin ht _ ↦ ?_) fun _ _ _ ↦ trivial
  split_ifs
  · trivial
  · refine (identifies_aside aside_ensureCapturedRow).seq hc ht (fun id u _ hu _ ↦ ?_)
      fun _ _ _ ↦ trivial
    exact identifies_aside (aside_attempt (by simp [Step.table]) (by simp [Step.table])
      (by simp [Step.table]))
  · trivial
  · refine (identifies_aside aside_ensureCapturedRow).seq hc ht (fun id u _ hu _ ↦ ?_)
      fun _ _ _ ↦ trivial
    exact identifies_settleOn hu (hin inputs rfl)

theorem resettles_identifies {p : Request Unit} (hp : Resettles env p) (hs : Identified b r₀ s) :
    Identifies b r₀ (fun _ _ ↦ True) p s := by
  cases hp with
  | settleInner on => exact identifies_settleInner hs
  | updateDriverPay fleetId pay =>
    exact identifies_aside (aside_attempt (by simp [Step.table]) (by simp [Step.table])
      (by simp [Step.table]))
  | setShare fleetId driverId share =>
    exact identifies_aside (aside_attempt (by simp [Step.table]) (by simp [Step.table])
      (by simp [Step.table]))

/-- The booking awaits its settlement: none of it has been posted. -/
structure Unsettled (w : World) (b : ℕ) (r : Booking) : Prop where
  ledger : w.ledger.Sound
  booking : w.bookings b = some r
  fits : r.Fits
  unpaid : r.status ≠ .paid
  rows : w.rowsOf b isSettlementCredit = []
  keys : ∀ k ∈ w.ledger.keys, isCreditKey b k = false

theorem Unsettled.identified {r : Booking} (h : Unsettled s b r) : Identified b r.terms s where
  fits := ⟨h.fits.total, h.fits.taxAmount, h.fits.commissionPct⟩
  ledger := h.ledger
  terms := ⟨r, h.booking, rfl⟩
  credits := .inl h.rows
  keys t ht hk := by
    rw [h.keys _ (List.mem_map_of_mem ht)] at hk
    cases hk
  paid x hx hst := by
    cases h.booking.symm.trans hx
    exact absurd hst h.unpaid

theorem settlement_identities {r : Booking} {ps : List (Request Unit)}
    {es : List (Event Step World)} (h₀ : Unsettled s b r) (h : Runs (Resettles env) s ps w es)
    (hcond : ∀ e ∈ es, Steady b e.label e.before) :
    ∀ r, w.bookings b = some r → r.status = .paid →
      r.commissionAmount + r.driverPayout + r.taxAmount = r.total ∧
        w.totalOf b isSettlementCredit = r.driverPayout := by
  obtain ⟨hw, -, -⟩ := h.safe identifying_sound (fun p hp s hs ↦ resettles_identifies hp hs)
    h₀.identified hcond
  intro x hx hst
  obtain ⟨htotal, v, st, legs, hsplit, hcommission, hpayout⟩ := Identified.paid hw x hx hst
  obtain ⟨x', hx', hterms⟩ := Identified.terms hw
  cases hx.symm.trans hx'
  have hsum := hsplit.total
  rw [← hterms] at hsum
  change _ = x.total - x.taxAmount at hsum
  exact ⟨by omega, htotal⟩

/-- A trip accepted before pay terms were locked. -/
def legacyTrip : Booking := { sampleTrip .completed with fleetId := some 5 }

/-- Its fleet pays salaries. -/
def legacyWorld : World :=
  { World.blank with
    bookings := Function.update World.blank.bookings 1 (some legacyTrip)
    fleets := Function.update World.blank.fleets 5 (some ⟨.salary, 8000⟩) }

def reportedPaid : Settling :=
  ⟨1, ⟨some (.pay 0), some (.order 0), .captured, some .upi, some 1000, none⟩, .webhook⟩

theorem legacyWorld_unsettled : Unsettled legacyWorld 1 legacyTrip :=
  ⟨⟨fun _ ↦ rfl, by simp [legacyWorld, World.blank, Ledger.empty], List.nodup_nil⟩, rfl,
    by constructor <;> simp [legacyTrip, sampleTrip, isPct], by decide, rfl, by simp [legacyWorld, World.blank]⟩

/-- The settlement dies when its credits are posted, and is run again. -/
def resumedSettlement : List (Request Unit × Option ℕ) :=
  [(settleInner sampleEnv reportedPaid, some 10), (settleInner sampleEnv reportedPaid, none)]

/-- In between, the owner goes over to paying a share. -/
def resettledTrip : List (Request Unit × Option ℕ) :=
  [(settleInner sampleEnv reportedPaid, some 10),
    (Proc.write (.updateDriverPay 5 ⟨.share, 5000⟩), none),
    (settleInner sampleEnv reportedPaid, none)]

theorem resumedSettlement_resettles : ∀ p ∈ resumedSettlement, Resettles sampleEnv p.1 := by
  simp only [resumedSettlement, List.forall_mem_cons, List.not_mem_nil, false_imp_iff,
    forall_true_iff, and_true]
  exact ⟨.settleInner _, .settleInner _⟩

theorem resettledTrip_resettles : ∀ p ∈ resettledTrip, Resettles sampleEnv p.1 := by
  simp only [resettledTrip, List.forall_mem_cons, List.not_mem_nil, false_imp_iff, forall_true_iff,
    and_true]
  exact ⟨.settleInner _, .updateDriverPay _ _, .settleInner _⟩

theorem settlement_identities_sample :
    ((runCut resumedSettlement legacyWorld).1.bookings 1).map (·.status) = some .paid ∧
      ∀ r, (runCut resumedSettlement legacyWorld).1.bookings 1 = some r → r.status = .paid →
        r.commissionAmount + r.driverPayout + r.taxAmount = r.total ∧
          (runCut resumedSettlement legacyWorld).1.totalOf 1 isSettlementCredit =
            r.driverPayout := by
  refine ⟨by decide +kernel, ?_⟩
  exact settlement_identities legacyWorld_unsettled
    (Serial.start.runCut resumedSettlement_resettles).runs (by decide +kernel)

theorem resettlement_overpays : Unsettled legacyWorld 1 legacyTrip ∧
    ∃ w es, Runs (Resettles sampleEnv) legacyWorld [] w es ∧ ∃ r, w.bookings 1 = some r ∧
      r.status = .paid ∧ r.driverPayout = 900 ∧ w.totalOf 1 isSettlementCredit = 1350 := by
  refine ⟨legacyWorld_unsettled, _, _, (Serial.start.runCut resettledTrip_resettles).runs, ?_⟩
  have hpaid : ((runCut resettledTrip legacyWorld).1.bookings 1).map (fun r ↦
      (r.status, r.driverPayout)) = some (.paid, 900) := by decide +kernel
  obtain ⟨r, hr, hst⟩ := Option.map_eq_some_iff.mp hpaid
  obtain ⟨hstatus, hpayout⟩ := Prod.mk.inj hst
  exact ⟨r, hr, hstatus, hpayout, by decide +kernel⟩

end Towing.Money
