import Towing.Money.Payable
import Towing.Money.RupeeDisplay

namespace Towing.Money

open Towing.Arith Towing.Db PaymentsService

/-! What a driver is shown of a job before it is paid. -/

inductive DriverPayTerms
  | independent
  | share (driverSharePct : Pct)
  | salary
  deriving DecidableEq, Repr

/-- The share `computeSettlement` takes: `none` for an independent driver. -/
def sharePctOf : DriverPayTerms → Option Pct
  | .independent => none
  | .salary => some 0
  | .share pct => some pct

def DriverPayTerms.model : DriverPayTerms → DriverPayModel
  | .independent => .independent
  | .share _ => .share
  | .salary => .salary

/-- The terms locked at acceptance; `none` for a booking accepted before there were any. -/
def lockedPayTerms (booking : Booking) : Option DriverPayTerms :=
  match booking.driverPayModel with
  | some .independent => some .independent
  | some .salary => some .salary
  | some .share => some (.share (booking.driverSharePct.getD 0))
  | none => none

/-- The current terms of a driver, `fleetId` being the fleet that the driver's row names. -/
def payTermsForDriver (w : World) (driverId : ℕ) (fleetId : Option ℕ) : DriverPayTerms :=
  match fleetId with
  | none => .independent
  | some fleetId =>
    let fleet := w.fleets fleetId
    if fleet.map (·.driverPayModel) = some .salary then .salary
    else .share ((w.fleetDriverShares fleetId driverId <|> fleet.map (·.driverSharePct)).getD 8000)

structure EarningsInput where
  totalRupees : String
  taxRupees : Option String
  band : Option Band
  commissionPct : Option Pct
  payTerms : DriverPayTerms

structure Earnings where
  grossPaise : ℤ
  band : Option Band
  commissionPct : Option Pct
  commissionPaise : ℤ
  netPaise : ℤ
  payModel : DriverPayModel
  driverSharePaise : ℤ
  fleetSharePaise : ℤ
  deriving DecidableEq, Repr

/-- The column is `numeric(12,2)`: what is read is an integer that a double holds. -/
def paiseOf (rupees : String) : Except String ℤ := (rupeeStringToPaise rupees).map (·.toInt)

def projectedSplit (netPaise : ℤ) : Option Pct → PoolSplit
  | none => ⟨netPaise, 0⟩
  | some sharePct => splitPool netPaise sharePct

def projectEarnings (input : EarningsInput) : Except String Earnings := do
  let totalPaise ← paiseOf input.totalRupees
  let taxPaise ← match input.taxRupees with
    | none => pure 0
    | some tax => paiseOf tax
  let grossPaise := totalPaise - taxPaise
  let commission := match input.commissionPct, input.band with
    | some pct, _ => commissionPaiseAtPct grossPaise pct
    | none, some band => commissionPaise grossPaise band
    | none, none => 0
  let netPaise := grossPaise - commission
  let split := projectedSplit netPaise (sharePctOf input.payTerms)
  pure
    { grossPaise
      band := input.band
      commissionPct := input.commissionPct
      commissionPaise := commission
      netPaise
      payModel := input.payTerms.model
      driverSharePaise := split.driverPaise
      fleetSharePaise := split.fleetPaise }

/-- How a `numeric(12,2)` column is printed. -/
def numericText (paise : ℤ) : String := String.ofList (Decimal.ofPaise paise).text

/-- What the offer card, the job screens and the history read off a booking. -/
def earningsOf (booking : Booking) (payTerms : DriverPayTerms) : Except String Earnings :=
  projectEarnings ⟨numericText booking.total, some (numericText booking.taxAmount),
    booking.commissionBand, booking.commissionPct, payTerms⟩

/-! The two paths. -/

/-- What the columns and the `CHECK`s of a booking let in. -/
structure Persisted (r : Booking) : Prop where
  total : r.total < 10 ^ 12
  taxAmount : 0 ≤ r.taxAmount
  commissionAmount : 0 ≤ r.commissionAmount
  driverPayout : 0 ≤ r.driverPayout
  payout : r.commissionAmount + r.driverPayout + r.taxAmount ≤ r.total
  commissionPct : ∀ pct, r.commissionPct = some pct → 0 < pct ∧ pct ≤ 3000
  driverSharePct : ∀ pct, r.driverSharePct = some pct → isPct pct

/-- The terms that are shown for a booking: those locked on it, which are an independent
driver's when it has no fleet, or before there were any the current ones of its driver, who
is still in the booking's fleet. -/
inductive Shown (w : World) (r : Booking) (d : ℕ) : DriverPayTerms → Prop
  | locked (terms : DriverPayTerms) (hlocked : lockedPayTerms r = some terms)
      (hfleet : terms = .independent ↔ r.fleetId = none) : Shown w r d terms
  | current (hlocked : r.driverPayModel = none)
      (hrow : ∀ f, r.fleetId = some f → (w.fleets f).isSome)
      (hshare : ∀ pct, resolvedShare w r = some pct → isPct pct) :
      Shown w r d (payTermsForDriver w d r.fleetId)

/-- What the legs credit to an owner. -/
def creditedTo (o : WalletOwner) (legs : List (LedgerLeg LedgerKey)) : ℤ :=
  ((legs.filter (·.owner = o)).map (·.row.amount)).sum

variable {w : World} {r : Booking} {b d : ℕ} {k : Band} {terms : DriverPayTerms} {e : Earnings}
  {st : Settlement} {legs : List (LedgerLeg LedgerKey)}

/-- Both paths hand the same share to the split. -/
theorem Shown.share (h : Shown w r d terms) (hd : r.driverId = some d) :
    (r.fleetId.map fun _ ↦ (resolvedShare w r).getD 0) = sharePctOf terms := by
  cases h with
  | locked terms hlocked hfleet =>
    unfold lockedPayTerms at hlocked
    cases hf : r.fleetId with
    | none =>
      cases hfleet.mpr hf
      rfl
    | some f =>
      have hne : terms ≠ .independent := fun heq ↦ by simp [hfleet.mp heq] at hf
      cases hm : r.driverPayModel with
      | none => simp [hm] at hlocked
      | some m =>
        rw [hm] at hlocked
        cases m <;> cases hlocked
        · exact absurd rfl hne
        · simp [resolvedShare, hm, sharePctOf]
        · simp [resolvedShare, hm, sharePctOf]
  | current hlocked hrow _ =>
    cases hf : r.fleetId with
    | none => rfl
    | some f =>
      obtain ⟨fleet, hfleet⟩ := Option.isSome_iff_exists.mp (hrow f hf)
      obtain ⟨model, pct⟩ := fleet
      cases model <;>
        simp [resolvedShare, payTermsForDriver, hlocked, hf, hfleet, hd, sharePctOf]

theorem Shown.isPct (h : Shown w r d terms) (hr : Persisted r) (hd : r.driverId = some d) {pct : Pct}
    (hpct : sharePctOf terms = some pct) : isPct pct := by
  have hzero : Money.isPct 0 := ⟨le_refl 0, by decide⟩
  rw [← h.share hd] at hpct
  obtain ⟨f, hf, rfl⟩ := Option.map_eq_some_iff.mp hpct
  cases hs : resolvedShare w r with
  | none => exact hzero
  | some share =>
    cases h with
    | current _ _ hshare => exact hshare share hs
    | locked terms hlocked _ =>
      unfold lockedPayTerms at hlocked
      unfold resolvedShare at hs
      cases hm : r.driverPayModel with
      | none => simp [hm] at hlocked
      | some m =>
        rw [hm] at hs
        cases m with
        | independent => cases hs
        | salary =>
          cases hs
          exact hzero
        | share => exact hr.driverSharePct share hs

/-- A leg that is dropped carries nothing. -/
theorem sum_legs {driver fleet : ℤ} {legs : List SettlementLeg}
    (h : legs = (if 0 < driver then [⟨.driver, .driverShareCredit, driver⟩] else []) ++
      if 0 < fleet then [⟨.fleet, .fleetShareCredit, fleet⟩] else []) :
    (0 ≤ driver → ((legs.filter (·.owner = .driver)).map (·.amountPaise)).sum = driver) ∧
      (0 ≤ fleet → ((legs.filter (·.owner = .fleet)).map (·.amountPaise)).sum = fleet) := by
  subst h
  by_cases hd : 0 < driver <;> by_cases hf : 0 < fleet <;> simp [hd, hf] <;> omega

/-- A settlement splits the pool as the projection does, and each leg carries its part. -/
theorem computeSettlement_split {i : SettlementInput} (h : computeSettlement i = .ok st) :
    st.driverSharePaise = (projectedSplit st.poolPaise i.driverSharePct).driverPaise ∧
      st.fleetSharePaise = (projectedSplit st.poolPaise i.driverSharePct).fleetPaise ∧
      (0 ≤ st.driverSharePaise →
        ((st.legs.filter (·.owner = .driver)).map (·.amountPaise)).sum = st.driverSharePaise) ∧
      (0 ≤ st.fleetSharePaise →
        ((st.legs.filter (·.owner = .fleet)).map (·.amountPaise)).sum = st.fleetSharePaise) := by
  unfold computeSettlement at h
  split_ifs at h
  dsimp only at h
  cases hshare : i.driverSharePct with
  | none =>
    rw [hshare] at h
    cases h
    refine ⟨rfl, rfl, fun hnonneg ↦ ?_, fun _ ↦ ?_⟩
    · dsimp only at hnonneg ⊢
      split_ifs with hpos
      · simp
      · simp only [List.filter_nil, List.map_nil, List.sum_nil]
        omega
    · dsimp only
      split_ifs <;> simp
  | some share =>
    rw [hshare] at h
    dsimp only at h
    by_cases hbad : share < 0 ∨ 10000 < share
    · rw [if_pos hbad] at h
      cases h
    · rw [if_neg hbad] at h
      cases h
      exact ⟨rfl, rfl, sum_legs rfl⟩

theorem projectedSplit_bounds {net : ℤ} {share : Option Pct} (h : 0 ≤ net) (hmax : net < 10 ^ 12)
    (hshare : ∀ pct, share = some pct → isPct pct) :
    0 ≤ (projectedSplit net share).driverPaise ∧ 0 ≤ (projectedSplit net share).fleetPaise ∧
      (projectedSplit net share).driverPaise + (projectedSplit net share).fleetPaise = net := by
  cases share with
  | none => exact ⟨h, le_refl 0, add_zero net⟩
  | some pct =>
    obtain ⟨hlow, hhigh⟩ := (splitPool_fleet (hshare pct rfl) (by rwa [abs_of_nonneg h])).1 h
    have hsum : (splitPool net pct).driverPaise + (splitPool net pct).fleetPaise = net := splitPool_sum
    exact ⟨by simp only [projectedSplit]; omega, hlow, hsum⟩

/-- Each owner is credited what the legs of its side carry. -/
theorem creditedTo_settlementLegs {input : SettlementCredit}
    (h : computeSettlement ⟨input.totalPaise, input.band, input.commissionPct,
      input.fleet.map (·.driverSharePct)⟩ = .ok st) (hlegs : settlementLegs input = .ok legs) :
    creditedTo ⟨.driver, input.driverId⟩ legs =
        ((st.legs.filter (·.owner = .driver)).map (·.amountPaise)).sum ∧
      ∀ f, input.fleet = some f → creditedTo ⟨.fleet, f.fleetId⟩ legs =
        ((st.legs.filter (·.owner = .fleet)).map (·.amountPaise)).sum := by
  unfold settlementLegs at hlegs
  rw [h] at hlegs
  cases hlegs
  unfold creditedTo
  rw [List.filter_map, List.map_map]
  constructor
  · congr 1
    refine congrArg₂ _ rfl (List.filter_congr fun leg _ ↦ ?_)
    cases hleg : leg.owner <;> simp [hleg]
  · intro f hf
    rw [List.filter_map, List.map_map]
    congr 1
    refine congrArg₂ _ rfl (List.filter_congr fun leg _ ↦ ?_)
    cases hleg : leg.owner <;> simp [hleg, hf]

theorem paiseOf_numericText {paise : ℤ} (h : |paise| ≤ 2 ^ 53 - 1) :
    paiseOf (numericText paise) = .ok paise := by
  have hread := rupeeStringToPaise_exact (Decimal.ofPaise paise) (ofPaise_fraction paise).le
    (Decimal.trim_text _) (ofPaise_value paise) h
  rw [paiseOf, numericText, hread]
  rfl

/-- The projection of a booking, as a computation on its columns. -/
theorem earningsOf_ok (terms : DriverPayTerms) (hr : Persisted r) (hk : r.commissionBand = some k) :
    ∃ e, earningsOf r terms = .ok e ∧
      e.commissionPaise = (⟨r.total - r.taxAmount, k, r.commissionPct, none⟩ :
        SettlementInput).commissionPaise ∧
      e.netPaise = r.total - r.taxAmount - e.commissionPaise ∧
      e.driverSharePaise = (projectedSplit e.netPaise (sharePctOf terms)).driverPaise ∧
      e.fleetSharePaise = (projectedSplit e.netPaise (sharePctOf terms)).fleetPaise := by
  have := hr.total
  have := hr.payout
  have := hr.taxAmount
  have := hr.commissionAmount
  have := hr.driverPayout
  have htotal : paiseOf (numericText r.total) = .ok r.total :=
    paiseOf_numericText (abs_le.mpr ⟨by norm_num; omega, by norm_num; omega⟩)
  have htax : paiseOf (numericText r.taxAmount) = .ok r.taxAmount :=
    paiseOf_numericText (abs_le.mpr ⟨by norm_num; omega, by norm_num; omega⟩)
  unfold earningsOf projectEarnings
  rw [htotal]
  dsimp only
  rw [htax, hk]
  refine ⟨_, rfl, ?_, rfl, rfl, rfl⟩
  unfold SettlementInput.commissionPaise
  cases r.commissionPct <;> rfl

/-- What a driver is shown is what the settlement credits, to the paisa. -/
structure PaidAsShown (r : Booking) (d : ℕ) (e : Earnings) (st : Settlement)
    (legs : List (LedgerLeg LedgerKey)) : Prop where
  net : e.netPaise = st.poolPaise
  driverShare : e.driverSharePaise = st.driverSharePaise
  fleetShare : e.fleetSharePaise = st.fleetSharePaise
  driverLeg : creditedTo ⟨.driver, d⟩ legs = e.driverSharePaise
  fleetLeg : ∀ f, r.fleetId = some f → creditedTo ⟨.fleet, f⟩ legs = e.fleetSharePaise
  nonneg : 0 ≤ e.netPaise ∧ 0 ≤ e.driverSharePaise ∧ 0 ≤ e.fleetSharePaise
  total : e.commissionPaise + e.driverSharePaise + e.fleetSharePaise + r.taxAmount = r.total
  legs_pos : ∀ leg ∈ legs, 0 < leg.row.amount

theorem projectEarnings_settled (hr : Persisted r) (hk : r.commissionBand = some k)
    (hd : r.driverId = some d) (hterms : Shown w r d terms) :
    ∃ e st legs, earningsOf r terms = .ok e ∧ SplitAt b r w st legs ∧ PaidAsShown r d e st legs := by
  have hpayout := hr.payout
  have htax := hr.taxAmount
  have hcommission := hr.commissionAmount
  have hdriver := hr.driverPayout
  have htotal := hr.total
  let fleet := r.fleetId.map fun id ↦ (⟨id, (resolvedShare w r).getD 0⟩ : FleetShare)
  have hfleet : fleet.map (·.driverSharePct) = sharePctOf terms := by
    rw [← hterms.share hd, Option.map_map]
    rfl
  have hpct : ∀ pct, r.commissionPct = some pct → isPct pct := fun pct h ↦ by
    obtain ⟨hpos, hle⟩ := hr.commissionPct pct h
    exact ⟨hpos.le, hle.trans (by decide)⟩
  let i : SettlementInput := ⟨r.total - r.taxAmount, k, r.commissionPct, fleet.map (·.driverSharePct)⟩
  obtain ⟨st, hst, hcom0, hpool, hsum⟩ := computeSettlement_total (i := i) (by dsimp only [i]; omega)
    (by dsimp only [i]; omega) hpct fun share h ↦ hterms.isPct hr hd (hfleet.symm.trans h)
  obtain ⟨legs, hlegs⟩ : ∃ legs, settlementLegs
      ⟨b, r.total - r.taxAmount, k, r.commissionPct, d, fleet⟩ = .ok legs := by
    rw [settlementLegs, hst]
    exact ⟨_, rfl⟩
  obtain ⟨e, he, hcom, hnet, hdshare, hfshare⟩ := earningsOf_ok terms hr hk
  have hcom' : e.commissionPaise = st.commissionPaise := by
    rw [(computeSettlement_ok hst).2.1, hcom]
    rfl
  have hpool' : e.netPaise = st.poolPaise := by
    dsimp only [i] at hsum
    omega
  obtain ⟨hdsplit, hfsplit, hdsum, hfsum⟩ := computeSettlement_split hst
  rw [show i.driverSharePct = sharePctOf terms from hfleet] at hdsplit hfsplit
  have hdeq : e.driverSharePaise = st.driverSharePaise := by rw [hdshare, hdsplit, hpool']
  have hfeq : e.fleetSharePaise = st.fleetSharePaise := by rw [hfshare, hfsplit, hpool']
  obtain ⟨hd0, hf0, hdf⟩ := projectedSplit_bounds hpool (by dsimp only [i] at hsum; omega) fun pct h ↦ hterms.isPct hr hd h
  rw [← hdsplit] at hd0 hdf
  rw [← hfsplit] at hf0 hdf
  obtain ⟨hdleg, hfleg⟩ := creditedTo_settlementLegs hst hlegs
  refine ⟨e, st, legs, he, ⟨d, k, hd, hk, hst, hlegs⟩, hpool', hdeq, hfeq, ?_, fun f hf ↦ ?_,
    ⟨by omega, by omega, by omega⟩, by omega, fun leg hleg ↦ ?_⟩
  · rw [hdeq, ← hdsum hd0]
    exact hdleg
  · rw [hfeq, ← hfsum hf0]
    exact hfleg ⟨f, _⟩ (by simp only [fleet, hf]; rfl)
  · have hout := (computeSettlement_ok hst).2.2.2
    unfold settlementLegs at hlegs
    rw [hst] at hlegs
    cases hlegs
    obtain ⟨leg', hleg', rfl⟩ := List.mem_map.mp hleg
    exact (hout.credits leg' hleg').1

/-- A fleet's trip of ₹499 with 18% tax, at 10% and on a share of 70%. -/
def fleetTrip : Booking :=
  { userId := 1
    status := .completed
    driverId := some 7
    fleetId := some 3
    taxAmount := 7612
    total := 49900
    commissionBand := some .A
    commissionPct := some 1000
    driverPayModel := some .share
    driverSharePct := some 7000 }

theorem projectEarnings_settled_sample : ∃ e st legs, earningsOf fleetTrip (.share 7000) = .ok e ∧
    SplitAt 5 fleetTrip World.blank st legs ∧ PaidAsShown fleetTrip 7 e st legs :=
  projectEarnings_settled (k := .A) (by constructor <;> simp [fleetTrip, isPct]) rfl rfl
    (.locked _ rfl (by simp [fleetTrip]))

end Towing.Money
