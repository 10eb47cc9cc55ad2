import Towing.Money.CouponsService

namespace Towing.Money

open Towing.Process CouponsService

/-- A coupon without its counter, which is all that these transactions change of it. -/
def Coupon.terms (k : Coupon) : Coupon := { k with usedCount := 0 }

namespace World

def usesOf (w : World) (id : ℕ) : ℕ := w.redemptions.countP (·.couponId = id)

def usesBy (w : World) (id userId : ℕ) : ℕ :=
  w.redemptions.countP fun r ↦ r.couponId = id ∧ r.userId = userId

end World

/-- The coupons are those of `C`; every counter is the number of its redemptions and
within its cap, and no booking holds two. -/
structure CouponsExact (C : List Coupon) (w : World) : Prop where
  catalog : w.coupons.map Coupon.terms = C
  used : ∀ (id : ℕ) (k : Coupon), w.coupons[id]? = some k → k.usedCount = w.usesOf id
  capped : ∀ (id : ℕ) (k : Coupon) (m : ℕ), w.coupons[id]? = some k → k.maxUses = some m → k.usedCount ≤ m
  single : ∀ b, (w.redemptionsOf b).length ≤ 1

inductive CouponResource
  | coupon (id : ℕ)
  | redemption (b : ℕ)
  | booking (b : ℕ)
  deriving DecidableEq

def CouponResource.Part : CouponResource → Type
  | .coupon _ => Option Coupon
  | .redemption _ => List CouponRedemption
  | .booking _ => Option Booking

def World.couponPart (w : World) : (r : CouponResource) → r.Part
  | .coupon id => w.coupons[id]?
  | .redemption b => w.redemptionsOf b
  | .booking b => w.bookings b

/-- The rows a statement locks, and the key that an insert holds until it ends. -/
def CouponStatement.need : CouponStatement → Set CouponResource
  | .selectForUpdate b | .insertBooking b _ | .updateBooking b _ => {.booking b}
  | .claimCoupon id | .returnCoupon id => {.coupon id}
  | .insertRedemption r | .deleteRedemption r => {.redemption r.bookingId}
  | _ => ∅

namespace CouponStatement

def couponAfter (l : CouponStatement) (id : ℕ) (o : Option Coupon) : Option Coupon :=
  match l with
  | .claimCoupon c => if c = id then o.map Coupon.claim else o
  | .returnCoupon c => if c = id then o.map Coupon.giveBack else o
  | _ => o

def rowsAfter (l : CouponStatement) (b : ℕ) (rows : List CouponRedemption) :
    List CouponRedemption :=
  match l with
  | .insertRedemption r => if r.bookingId = b ∧ rows = [] then [r] else rows
  | .deleteRedemption r => rows.filter (· ≠ r)
  | _ => rows

def bookingAfter (l : CouponStatement) (b : ℕ) (o : Option Booking) : Option Booking :=
  match l with
  | .insertBooking c row => if c = b then o <|> some row else o
  | .updateBooking c patch => if c = b then o.map patch else o
  | _ => o

end CouponStatement

variable {w s v s' v' : World} {b c : ℕ} {r : CouponRedemption} {l : CouponStatement}

theorem coupons_commit : (Store.commit l w).coupons[c]? = l.couponAfter c w.coupons[c]? := by
  cases l with
  | claimCoupon id =>
    by_cases hid : id = c <;>
      simp [Store.commit, CouponStatement.couponAfter, hid]
  | returnCoupon id =>
    by_cases hid : id = c <;>
      simp [Store.commit, CouponStatement.couponAfter, hid]
  | insertRedemption r =>
    simp only [Store.commit]
    split_ifs <;> rfl
  | _ => rfl

theorem rows_commit : (Store.commit l w).redemptionsOf b = l.rowsAfter b (w.redemptionsOf b) := by
  cases l with
  | insertRedemption r =>
    by_cases hb : r.bookingId = b
    · subst hb
      by_cases h : w.redemptionsOf r.bookingId = []
      · simp only [Store.commit, CouponStatement.rowsAfter, h, and_self, if_true]
        have := h
        simp only [World.redemptionsOf] at this ⊢
        simp [List.filter_append, this]
      · simp [Store.commit, CouponStatement.rowsAfter, h]
    · simp only [Store.commit, CouponStatement.rowsAfter, hb, false_and, if_false]
      split_ifs
      · simp [World.redemptionsOf, List.filter_append, hb]
      · rfl
  | deleteRedemption r =>
    simp only [Store.commit, CouponStatement.rowsAfter, World.redemptionsOf, List.filter_filter,
      Bool.and_comm]
  | _ => rfl

theorem bookings_commit : (Store.commit l w).bookings b = l.bookingAfter b (w.bookings b) := by
  cases l with
  | insertBooking c row =>
    by_cases hc : c = b
    · simp [Store.commit, CouponStatement.bookingAfter, hc]
    · simp [Store.commit, CouponStatement.bookingAfter, hc, Ne.symm hc]
  | updateBooking c patch =>
    by_cases hc : c = b
    · simp [Store.commit, CouponStatement.bookingAfter, World.updateBooking, hc]
    · simp [Store.commit, CouponStatement.bookingAfter, World.updateBooking, hc, Ne.symm hc]
  | insertRedemption r =>
    simp only [Store.commit]
    split_ifs <;> rfl
  | _ => rfl

def couponParts : Parts CouponStatement World CouponResource CouponResource.Part where
  part := World.couponPart
  need := CouponStatement.need
  frame l w x h := by
    cases x with
    | coupon id =>
      refine coupons_commit.trans ?_
      cases l <;> simp_all [CouponStatement.couponAfter, CouponStatement.need, eq_comm] <;> rfl
    | redemption b =>
      refine rows_commit.trans ?_
      cases l with
      | insertRedemption r => exact if_neg fun hr ↦ h (congrArg CouponResource.redemption hr.1.symm)
      | deleteRedemption r =>
        refine List.filter_eq_self.mpr fun r' hr' ↦ ?_
        have hb : r'.bookingId = b := by simpa using (List.mem_filter.mp hr').2
        simp only [decide_eq_true_eq]
        rintro rfl
        exact h (congrArg CouponResource.redemption hb.symm)
      | _ => rfl
    | booking b =>
      refine bookings_commit.trans ?_
      cases l <;> simp_all [CouponStatement.bookingAfter, CouponStatement.need, eq_comm] <;> rfl
  respects l w u x h := by
    cases x with
    | coupon id => exact coupons_commit.trans ((congrArg _ h).trans coupons_commit.symm)
    | redemption b => exact rows_commit.trans ((congrArg _ h).trans rows_commit.symm)
    | booking b => exact bookings_commit.trans ((congrArg _ h).trans bookings_commit.symm)
  kept _ _ _ := True
  refl _ _ := trivial
  trans _ _ _ _ _ _ _ := trivial

theorem countP_split (w : World) (b : ℕ) (p : CouponRedemption → Bool) :
    w.redemptions.countP p =
      (w.redemptionsOf b).countP p + (w.redemptions.filter (·.bookingId ≠ b)).countP p := by
  rw [World.redemptionsOf, List.countP_filter, List.countP_filter,
    List.countP_eq_countP_filter_add _ _ (fun r ↦ decide (r.bookingId = b)), List.countP_filter,
    List.countP_filter]
  congr 3
  funext r
  simp

/-- Two states that differ in the redemptions of one booking hold the same others. -/
theorem perm_others (h : ∀ b' ≠ b, v.redemptionsOf b' = s.redemptionsOf b') :
    (v.redemptions.filter (·.bookingId ≠ b)).Perm (s.redemptions.filter (·.bookingId ≠ b)) := by
  refine List.perm_iff_count.mpr fun r ↦ ?_
  by_cases hr : r.bookingId = b
  · rw [List.count_eq_zero_of_not_mem fun hm ↦ (by simpa [hr] using (List.mem_filter.mp hm).2),
      List.count_eq_zero_of_not_mem fun hm ↦ (by simpa [hr] using (List.mem_filter.mp hm).2)]
  · have hrows := h r.bookingId hr
    unfold World.redemptionsOf at hrows
    rw [List.count_filter (by simpa using hr), List.count_filter (by simpa using hr),
      ← List.count_filter (p := fun x : CouponRedemption ↦ x.bookingId = r.bookingId) (by simp),
      hrows, List.count_filter (by simp)]

theorem countP_agree (h : ∀ b' ≠ b, v.redemptionsOf b' = s.redemptionsOf b')
    (p : CouponRedemption → Bool) : v.redemptions.countP p =
      (v.redemptionsOf b).countP p + (s.redemptions.filter (·.bookingId ≠ b)).countP p := by
  rw [countP_split v b, (perm_others h).countP_eq]

/-- A transaction on the coupon of `b`: what it has counted of the coupons it holds is
what it has done to the booking's row, but for the one coupon `owed` a step. -/
structure Balanced (C : List Coupon) (b : ℕ) (owed : Option ℕ) (took : Option CouponRedemption)
    (H : Set CouponResource) (s v : World) : Prop where
  others : ∀ b' ≠ b, .redemption b' ∉ H
  offered : ∀ id : ℕ, v.coupons[id]?.map Coupon.terms = C[id]?
  used : ∀ (id : ℕ) (k k₀ : Coupon), v.coupons[id]? = some k → s.coupons[id]? = some k₀ →
    k.usedCount + (s.redemptionsOf b).countP (·.couponId = id) =
      k₀.usedCount + (v.redemptionsOf b).countP (·.couponId = id) + if owed = some id then 1 else 0
  capped : ∀ (id : ℕ) (k : Coupon) (m : ℕ), v.coupons[id]? = some k → k.maxUses = some m →
    k.usedCount ≤ m
  idle : ∀ id, .coupon id ∉ H → (s.redemptionsOf b).countP (·.couponId = id) =
    (v.redemptionsOf b).countP (·.couponId = id) + if owed = some id then 1 else 0
  untouched : .redemption b ∉ H → v.redemptionsOf b = s.redemptionsOf b
  kept : took = none → v.redemptionsOf b = s.redemptionsOf b ∨ v.redemptionsOf b = []
  taken : ∀ r, took = some r → .redemption b ∈ H ∧ v.redemptionsOf b = [r]

variable {C : List Coupon} {owed : Option ℕ} {took : Option CouponRedemption}
  {H K : Set CouponResource}

theorem CouponsExact.offered (h : CouponsExact C w) (id : ℕ) :
    w.coupons[id]?.map Coupon.terms = C[id]? := by
  rw [← h.catalog, List.getElem?_map]

theorem Balanced.start (h : CouponsExact C s) : Balanced C b none none ∅ s s where
  others _ _ h := h
  offered := h.offered
  used id k k₀ hk hk₀ := by
    rw [hk] at hk₀
    cases hk₀
    simp
  capped := h.capped
  idle _ _ := by simp
  untouched _ := rfl
  kept _ := .inl rfl
  taken _ h := by cases h

theorem Balanced.view (h : Balanced C b owed took H s v)
    (hv : couponParts.View (CouponsExact C) H s v s' v') : Balanced C b owed took H s' v' := by
  have hcoupon (id : ℕ) : (.coupon id ∈ H ∧ v'.coupons[id]? = v.coupons[id]? ∧
      s'.coupons[id]? = s.coupons[id]?) ∨ (.coupon id ∉ H ∧ v'.coupons[id]? = s'.coupons[id]?) := by
    by_cases hid : .coupon id ∈ H
    · exact .inl ⟨hid, hv.own _ hid, (hv.committed _ hid).1⟩
    · exact .inr ⟨hid, hv.outside _ hid⟩
  have hrows : (v'.redemptionsOf b = v.redemptionsOf b ∧ s'.redemptionsOf b = s.redemptionsOf b ∧
      .redemption b ∈ H) ∨ (v'.redemptionsOf b = s'.redemptionsOf b ∧
        v.redemptionsOf b = s.redemptionsOf b ∧ .redemption b ∉ H) := by
    by_cases hb : .redemption b ∈ H
    · exact .inl ⟨hv.own _ hb, (hv.committed _ hb).1, hb⟩
    · exact .inr ⟨hv.outside _ hb, h.untouched hb, hb⟩
  have hidle (id : ℕ) (hid : .coupon id ∉ H) : (s'.redemptionsOf b).countP (·.couponId = id) =
      (v'.redemptionsOf b).countP (·.couponId = id) + if owed = some id then 1 else 0 := by
    have hold := h.idle id hid
    rcases hrows with ⟨hv', hs', -⟩ | ⟨hv', hv₀, -⟩
    · rwa [hv', hs']
    · rw [hv₀] at hold
      rw [hv']
      omega
  refine ⟨h.others, fun id ↦ ?_, fun id k k₀ hk hk₀ ↦ ?_, fun id k m hk hm ↦ ?_, hidle, fun hb ↦ ?_,
    fun ht ↦ ?_, fun r ht ↦ ?_⟩
  · rcases hcoupon id with ⟨-, hsame, -⟩ | ⟨-, hsame⟩
    · rw [hsame, h.offered]
    · rw [hsame, hv.inv.offered]
  · rcases hcoupon id with ⟨-, hsame, hsame₀⟩ | ⟨hid, hsame⟩
    · have hold := h.used id k k₀ (hsame ▸ hk) (hsame₀ ▸ hk₀)
      rcases hrows with ⟨hv', hs', -⟩ | ⟨hv', hv₀, -⟩
      · rwa [hv', hs']
      · rw [hv₀] at hold
        rw [hv']
        omega
    · have heq : k = k₀ := Option.some.inj (hk.symm.trans (hsame.trans hk₀))
      rw [heq, hidle id hid]
      omega
  · rcases hcoupon id with ⟨-, hsame, -⟩ | ⟨-, hsame⟩
    · exact h.capped id k m (hsame ▸ hk) hm
    · exact hv.inv.capped id k m (hsame ▸ hk) hm
  · exact hv.outside _ hb
  · rcases hrows with ⟨hv', hs', -⟩ | ⟨hv', -, -⟩
    · rw [hv', hs']
      exact h.kept ht
    · exact .inl hv'
  · obtain ⟨hb, hr⟩ := h.taken r ht
    exact ⟨hb, (hv.own _ hb).trans hr⟩

/-- A statement that leaves the two coupon tables alone. -/
theorem Balanced.same (h : Balanced C b owed took H s v) (hHK : H ⊆ K)
    (hK : ∀ x ∈ K, x ∈ H ∨ ∃ b, x = .booking b) (hc : v'.coupons = v.coupons)
    (hr : v'.redemptions = v.redemptions) : Balanced C b owed took K s v' := by
  have hrows : v'.redemptionsOf b = v.redemptionsOf b := by
    rw [World.redemptionsOf, hr, World.redemptionsOf]
  refine ⟨fun b' hb' hm ↦ ?_, fun id ↦ ?_, fun id k k₀ hk hk₀ ↦ ?_, fun id k m hk hm ↦ ?_,
    fun id hid ↦ ?_, fun hb ↦ ?_, fun ht ↦ ?_, fun r ht ↦ ?_⟩
  · rcases hK _ hm with hm | ⟨_, hm⟩
    · exact h.others b' hb' hm
    · cases hm
  · rw [hc, h.offered]
  · rw [hrows]
    exact h.used id k k₀ (hc ▸ hk) hk₀
  · exact h.capped id k m (hc ▸ hk) hm
  · rw [hrows]
    exact h.idle id fun hm ↦ hid (hHK hm)
  · rw [hrows]
    exact h.untouched fun hm ↦ hb (hHK hm)
  · rw [hrows]
    exact h.kept ht
  · obtain ⟨hb, hr⟩ := h.taken r ht
    exact ⟨hHK hb, hrows.trans hr⟩

/-- A statement on the counter of one coupon, which steps it as `owed` says. -/
theorem Balanced.count {owed' : Option ℕ} {f : Coupon → Coupon}
    (h : Balanced C b owed took H s v)
    (hcoupons : ∀ id, v'.coupons[id]? = if c = id then v.coupons[id]?.map f else v.coupons[id]?)
    (hr : v'.redemptions = v.redemptions) (hterms : ∀ k, (f k).terms = k.terms)
    (hothers : ∀ id, id ≠ c → (owed' = some id ↔ owed = some id))
    (hstep : ∀ k k₀, v.coupons[c]? = some k → s.coupons[c]? = some k₀ →
      (f k).usedCount + (if owed = some c then 1 else 0) =
        k.usedCount + if owed' = some c then 1 else 0)
    (hcapped : ∀ k m, v.coupons[c]? = some k → k.maxUses = some m → (f k).usedCount ≤ m) :
    Balanced C b owed' took (H ∪ {.coupon c}) s v' := by
  have hrows : v'.redemptionsOf b = v.redemptionsOf b := by
    rw [World.redemptionsOf, hr, World.redemptionsOf]
  have hself {k : Coupon} (hk : v'.coupons[c]? = some k) : ∃ k', v.coupons[c]? = some k' ∧ f k' = k := by
    rw [hcoupons, if_pos rfl] at hk
    exact Option.map_eq_some_iff.mp hk
  have hother {id : ℕ} (hid : id ≠ c) : v'.coupons[id]? = v.coupons[id]? := by
    rw [hcoupons, if_neg hid.symm]
  refine ⟨fun b' hb' hm ↦ ?_, fun id ↦ ?_, fun id k k₀ hk hk₀ ↦ ?_, fun id k m hk hm ↦ ?_,
    fun id hid ↦ ?_, fun hb ↦ ?_, fun ht ↦ ?_, fun r ht ↦ ?_⟩
  · rcases hm with hm | hm
    · exact h.others b' hb' hm
    · cases hm
  · rw [hcoupons]
    split_ifs with hid
    · rw [Option.map_map, show Coupon.terms ∘ f = Coupon.terms from funext hterms, h.offered]
    · exact h.offered id
  · rw [hrows]
    by_cases hid : id = c
    · subst hid
      obtain ⟨k', hk', rfl⟩ := hself hk
      have hold := h.used id k' k₀ hk' hk₀
      have := hstep k' k₀ hk' hk₀
      omega
    · have hold := h.used id k k₀ (hother hid ▸ hk) hk₀
      rw [hold]
      simp only [hothers id hid]
  · by_cases hid : id = c
    · subst hid
      obtain ⟨k', hk', rfl⟩ := hself hk
      exact hcapped k' m hk' ((congrArg Coupon.maxUses (hterms k')).symm.trans hm)
    · exact h.capped id k m (hother hid ▸ hk) hm
  · have hc : id ≠ c := by
      rintro rfl
      exact hid (.inr rfl)
    rw [hrows, h.idle id fun hm ↦ hid (.inl hm)]
    simp only [hothers id hc]
  · rw [hrows]
    exact h.untouched fun hm ↦ hb (.inl hm)
  · rw [hrows]
    exact h.kept ht
  · obtain ⟨hb, hr⟩ := h.taken r ht
    exact ⟨.inl hb, hrows.trans hr⟩

theorem Balanced.claim (h : Balanced C b none took H s v) (hclaim : v.claimable c) :
    Balanced C b (some c) took (H ∪ {.coupon c}) s (Store.commit (CouponStatement.claimCoupon c) v) := by
  have hclaimed (k : Coupon) (hk : v.coupons[c]? = some k) :
      (k.isActive && !k.exhausted) = true := by simpa [World.claimable, hk] using hclaim
  refine h.count (f := Coupon.claim) (fun id ↦ coupons_commit) rfl (fun k ↦ ?_) (fun id hid ↦ ?_)
    (fun k k₀ hk _ ↦ ?_) fun k m hk hm ↦ ?_
  · unfold Coupon.claim
    split_ifs <;> rfl
  · simp [Ne.symm hid]
  · simp [Coupon.claim, hclaimed k hk]
  · have hfree := hclaimed k hk
    simp only [Coupon.exhausted, hm, Bool.and_eq_true, Option.any_some, Bool.not_eq_true',
      decide_eq_false_iff_not, not_le] at hfree
    have hclaim : k.claim.usedCount = k.usedCount + 1 := by
      simp [Coupon.claim, hclaimed k hk]
    omega

theorem Balanced.giveBack (h : Balanced C b (some c) none H s v) (hs : CouponsExact C s) :
    Balanced C b none none (H ∪ {.coupon c}) s (Store.commit (CouponStatement.returnCoupon c) v) := by
  refine h.count (f := Coupon.giveBack) (fun id ↦ coupons_commit) rfl (fun k ↦ ?_) (fun id hid ↦ ?_)
    (fun k k₀ hk hk₀ ↦ ?_) fun k m hk hm ↦ ?_
  · unfold Coupon.giveBack
    split_ifs <;> rfl
  · simp [Ne.symm hid]
  · -- the row that was deleted is one of those the counter had counted
    have hcount := h.used c k k₀ hk hk₀
    have hle : (s.redemptionsOf b).countP (·.couponId = c) ≤ k₀.usedCount := by
      rw [hs.used c k₀ hk₀]
      exact List.filter_sublist.countP_le
    have hpos : 0 < k.usedCount := by
      rw [if_pos rfl] at hcount
      omega
    simp [Coupon.giveBack, hpos]
    omega
  · refine le_trans ?_ (h.capped c k m hk hm)
    unfold Coupon.giveBack
    split_ifs
    · exact Nat.sub_le _ _
    · exact le_rfl

/-- A statement on the booking's row. -/
theorem Balanced.rows {owed' : Option ℕ} {took' : Option CouponRedemption}
    (h : Balanced C b owed took H s v) (hc : v'.coupons = v.coupons)
    (howed : ∀ id, (v'.redemptionsOf b).countP (·.couponId = id) + (if owed' = some id then 1 else 0) =
      (v.redemptionsOf b).countP (·.couponId = id) + if owed = some id then 1 else 0)
    (hkept : took' = none → v'.redemptionsOf b = s.redemptionsOf b ∨ v'.redemptionsOf b = [])
    (htaken : ∀ r, took' = some r → v'.redemptionsOf b = [r]) :
    Balanced C b owed' took' (H ∪ {.redemption b}) s v' where
  others b' hb' hm := by
    rcases hm with hm | hm
    · exact h.others b' hb' hm
    · cases hm
      exact hb' rfl
  offered id := by rw [hc, h.offered]
  used id k k₀ hk hk₀ := by
    have hold := h.used id k k₀ (hc ▸ hk) hk₀
    have := howed id
    omega
  capped id k m hk hm := h.capped id k m (hc ▸ hk) hm
  idle id hid := by
    rw [h.idle id fun hm ↦ hid (.inl hm), howed id]
  untouched hb := absurd (.inr rfl) hb
  kept := hkept
  taken r ht := ⟨.inr rfl, htaken r ht⟩

theorem Balanced.insert (h : Balanced C b (some r.couponId) none H s v) (hb : r.bookingId = b)
    (hfree : v.redemptionsOf b = []) :
    Balanced C b none (some r) (H ∪ {.redemption b}) s
      (Store.commit (CouponStatement.insertRedemption r) v) := by
  have hrows : (Store.commit (CouponStatement.insertRedemption r) v).redemptionsOf b = [r] := by
    rw [rows_commit, hfree]
    exact if_pos ⟨hb, rfl⟩
  refine h.rows ?_ (fun id ↦ ?_) (fun ht ↦ (by cases ht)) fun r' ht ↦ ?_
  · simp only [Store.commit]
    split_ifs <;> rfl
  · rw [hrows, hfree]
    by_cases hid : r.couponId = id <;> simp [hid]
  · cases ht
    exact hrows

theorem Balanced.delete (h : Balanced C b none none H s v) (hr : v.redemptionsOf b = [r]) :
    Balanced C b (some r.couponId) none (H ∪ {.redemption b}) s
      (Store.commit (CouponStatement.deleteRedemption r) v) := by
  have hrows : (Store.commit (CouponStatement.deleteRedemption r) v).redemptionsOf b = [] := by
    rw [rows_commit, hr]
    simp [CouponStatement.rowsAfter]
  refine h.rows rfl (fun id ↦ ?_) (fun _ ↦ .inr hrows) fun r' ht ↦ (by cases ht)
  rw [hrows, hr]
  by_cases hid : r.couponId = id <;> simp [hid]

/-- The row that the scan found has gone meanwhile. -/
theorem Balanced.delete_gone (h : Balanced C b none none H s v) (hgone : r ∉ v.redemptions) :
    Balanced C b none none (H ∪ {.redemption b}) s
      (Store.commit (CouponStatement.deleteRedemption r) v) := by
  have hsame : (Store.commit (CouponStatement.deleteRedemption r) v).redemptionsOf b =
      v.redemptionsOf b := by
    rw [rows_commit]
    refine List.filter_eq_self.mpr fun r' hr' ↦ ?_
    simp only [decide_eq_true_eq]
    rintro rfl
    exact hgone (List.mem_filter.mp hr').1
  refine h.rows rfl (fun id ↦ by rw [hsame]) (fun _ ↦ ?_) fun _ ht ↦ (by cases ht)
  rw [hsame]
  exact h.kept rfl

theorem Balanced.read (h : Balanced C b owed took H s v) : Balanced C b owed took (H ∪ ∅) s v := by
  rwa [Set.union_empty]

theorem Balanced.rows_of_mem (h : Balanced C b owed none H s v) (hs : CouponsExact C s)
    (hr : r ∈ v.redemptionsOf b) : v.redemptionsOf b = [r] := by
  rcases h.kept rfl with hrows | hrows
  · have hlen := hs.single b
    rw [← hrows] at hlen
    cases hv : v.redemptionsOf b with
    | nil =>
      rw [hv] at hr
      cases hr
    | cons r' rest =>
      rw [hv] at hr hlen
      cases List.length_eq_zero_iff.mp (Nat.le_zero.mp (Nat.le_of_succ_le_succ hlen))
      rw [List.mem_singleton.mp hr]
  · rw [hrows] at hr
    cases hr

/-- What a transaction owes is paid by its end, unless it throws and leaves nothing. -/
def Settles (C : List Coupon) (b : ℕ) (took : Option CouponRedemption) {α : Type}
    (a : Except Failure α) (K : Set CouponResource) (s v : World) : Prop :=
  ∀ x, a = .ok x → Balanced C b none took K s v

theorem releaseForBooking_safe (h : Balanced C b none none H s v) :
    couponParts.Safe (CouponsExact C) (Settles C b none) (releaseForBooking b) H s v := by
  intro s₁ v₁ hv₁
  have h₁ := (h.view hv₁).read
  cases hr : (v₁.redemptionsOf b).head? with
  | none =>
    dsimp only
    rw [hr]
    exact fun s' v' hv x _ ↦ h₁.view hv
  | some r =>
    dsimp only
    rw [hr]
    have hmem : r ∈ v₁.redemptionsOf b := List.mem_of_mem_head? hr
    have hb : r.bookingId = b := by simpa using (List.mem_filter.mp hmem).2
    subst hb
    intro s₂ v₂ hv₂
    have h₂ := h₁.view hv₂
    by_cases hin : r ∈ v₂.redemptions
    · have hrows := h₂.rows_of_mem hv₂.inv (List.mem_filter.mpr ⟨hin, by simp⟩)
      have h₃ := h₂.delete hrows
      dsimp only
      rw [decide_eq_true hin]
      intro s₃ v₃ hv₃
      have h₄ := (h₃.view hv₃).giveBack hv₃.inv
      exact fun s' v' hv x _ ↦ h₄.view hv
    · have h₃ := h₂.delete_gone hin
      dsimp only
      rw [decide_eq_false hin]
      exact fun s' v' hv x _ ↦ h₃.view hv

/-- The coupon of a code, which no transaction here changes. -/
def couponOf (C : List Coupon) (code : String) : Option ℕ :=
  C.findIdx? fun k ↦ k.code.toUpper = code.toUpper

theorem couponByCode_eq (hC : ∀ id : ℕ, w.coupons[id]?.map Coupon.terms = C[id]?) (code : String) :
    w.couponByCode code = couponOf C code := by
  have hlist : w.coupons.map Coupon.terms = C := by
    refine List.ext_getElem? fun id ↦ ?_
    rw [List.getElem?_map, hC]
  rw [couponOf, ← hlist, List.findIdx?_map]
  rfl

theorem rejectionFor_safe {id userId : ℕ} {coupon : Coupon} {subtotalPaise : ℤ}
    (h : Balanced C b none none H s v) :
    couponParts.Safe (CouponsExact C) (Settles C b none)
      (rejectionFor id coupon userId subtotalPaise) H s v := by
  have hdone {K : Set CouponResource} {s v : World} (h : Balanced C b none none K s v)
      (a : Option String) :
      couponParts.Safe (CouponsExact C) (Settles C b none) (.done (.ok a)) K s v :=
    fun s' v' hv x _ ↦ h.view hv
  intro s₁ v₁ hv₁
  have h₁ := (h.view hv₁).read
  simp only [Proc.bind_ok, Proc.bind_eq, Proc.pure_eq]
  refine .ite (fun _ ↦ hdone h₁ _) fun _ ↦ .ite (fun _ ↦ hdone h₁ _) fun _ ↦
    .ite (fun _ ↦ hdone h₁ _) fun _ ↦ ?_
  intro s₂ v₂ hv₂
  have h₂ := (h₁.view hv₂).read
  refine .ite (fun _ ↦ hdone h₂ _) fun _ ↦ .ite (fun _ ↦ hdone h₂ _) fun _ ↦ ?_
  intro s₃ v₃ hv₃
  have h₃ := (h₂.view hv₃).read
  exact .ite (fun _ ↦ hdone h₃ _) fun _ ↦ hdone h₃ _

theorem redeem_safe (h : Balanced C r.bookingId none none H s v) :
    couponParts.Safe (CouponsExact C) (Settles C r.bookingId (some r)) (redeem r) H s v := by
  intro s₁ v₁ hv₁
  have h₁ := h.view hv₁
  cases hclaim : v₁.claimable r.couponId with
  | false =>
    dsimp only
    rw [hclaim]
    exact fun s' v' hv x hx ↦ (by cases hx)
  | true =>
    dsimp only
    rw [hclaim]
    intro s₂ v₂ hv₂
    have h₂ := (h₁.claim hclaim).view hv₂
    by_cases hfree : v₂.redemptionsOf r.bookingId = []
    · dsimp only
      rw [decide_eq_true hfree]
      exact fun s' v' hv x _ ↦ (h₂.insert rfl hfree).view hv
    · dsimp only
      rw [decide_eq_false hfree]
      exact fun s' v' hv x hx ↦ (by cases hx)

/-- A redemption for the code's coupon, by the customer and for the booking. -/
structure Redeems (C : List Coupon) (b userId : ℕ) (code : String) (r : CouponRedemption) : Prop where
  coupon : couponOf C code = some r.couponId
  user : r.userId = userId
  booking : r.bookingId = b

theorem applyInTransaction_safe {userId : ℕ} {code : String} {subtotalPaise : ℤ}
    (h : Balanced C b none none H s v) :
    couponParts.Safe (CouponsExact C) (fun a K s v ↦ ∀ x, a = .ok x →
      ∃ r, Redeems C b userId code r ∧ Balanced C b none (some r) K s v)
      (applyInTransaction userId b code subtotalPaise) H s v := by
  intro s₁ v₁ hv₁
  have h₁ := (h.view hv₁).read
  have hsees := hv₁.toSees.step (l := .selectCoupon code)
  have hfail {e : Failure} {K : Set CouponResource} {s v : World} :
      couponParts.Safe (CouponsExact C) (fun a K s v ↦ ∀ x, a = .ok x →
        ∃ r, Redeems C b userId code r ∧ Balanced C b none (some r) K s v)
        (.done (.error e) : CouponProc (ℕ × ℤ)) K s v :=
    fun s' v' hv x hx ↦ (by cases hx)
  cases hfound : (v₁.couponByCode code).bind fun id ↦ (v₁.coupons[id]?).map fun k ↦ (id, k) with
  | none =>
    dsimp only
    rw [hfound]
    exact hfail
  | some found =>
    obtain ⟨id, coupon⟩ := found
    have hid : couponOf C code = some id := by
      obtain ⟨id', hid', hk⟩ := Option.bind_eq_some_iff.mp hfound
      obtain ⟨k, -, hk⟩ := Option.map_eq_some_iff.mp hk
      cases hk
      rw [← couponByCode_eq h₁.offered, hid']
    dsimp only
    rw [hfound]
    refine .ite (fun _ ↦ ?_) fun _ ↦ hfail
    refine (rejectionFor_safe h₁).bind hsees (fun rejection K s₂ v₂ hs₂ h₂ ↦ ?_) fun e K s v _ ↦ hfail
    cases rejection with
    | some reason => exact hfail
    | none =>
      refine .ite (fun _ ↦ hfail) fun _ ↦ ?_
      refine (redeem_safe (r := ⟨id, userId, b, discountFor coupon subtotalPaise⟩) (h₂ none rfl)).bind
        hs₂ (fun x K s₃ v₃ _ h₃ ↦ ?_) fun e K s v _ ↦ hfail
      exact fun s' v' hv y _ ↦ ⟨_, ⟨hid, rfl, rfl⟩, (h₃ x rfl).view hv⟩

theorem lockPayable_safe {userId : ℕ} (h : Balanced C b none none H s v) :
    couponParts.Safe (CouponsExact C) (Settles C b none)
      (PaymentCouponService.lockPayable b userId) H s v := by
  have hfail {e : Failure} {K : Set CouponResource} {s v : World} :
      couponParts.Safe (CouponsExact C) (Settles C b none)
        (.done (.error e) : CouponProc Booking) K s v := fun s' v' hv x hx ↦ (by cases hx)
  intro s₁ v₁ hv₁
  have h₁ : Balanced C b none none (H ∪ {.booking b}) s₁ v₁ :=
    (h.view hv₁).same Set.subset_union_left (fun x hx ↦ hx.imp_right fun hx ↦ ⟨b, hx⟩) rfl rfl
  cases hr : v₁.bookings b with
  | none =>
    dsimp only
    rw [hr]
    exact hfail
  | some row =>
    dsimp only
    rw [hr]
    refine .ite (fun _ ↦ hfail) fun _ ↦ .ite (fun _ ↦ hfail) fun _ ↦ ?_
    intro s₂ v₂ hv₂
    have h₂ := (h₁.view hv₂).read
    exact .ite (fun _ ↦ hfail) fun _ s' v' hv x _ ↦ h₂.view hv

theorem updateBooking_safe {patch : Booking → Booking} (h : Balanced C b none took H s v) :
    couponParts.Safe (CouponsExact C) (Settles C b took)
      (Proc.write (.updateBooking b patch) : CouponProc Unit) H s v := by
  intro s₁ v₁ hv₁
  have h₁ : Balanced C b none took (H ∪ {.booking b}) s₁
      (Store.commit (CouponStatement.updateBooking b patch) v₁) :=
    (h.view hv₁).same Set.subset_union_left (fun x hx ↦ hx.imp_right fun hx ↦ ⟨b, hx⟩) rfl rfl
  exact fun s' v' hv x _ ↦ h₁.view hv

theorem store_safe {row : Booking} (h : Balanced C b none took H s v) :
    couponParts.Safe (CouponsExact C) (Settles C b took) (PaymentCouponService.store b row) H s v := by
  unfold PaymentCouponService.store
  cases World.bookingError row with
  | some e => exact fun s' v' hv x hx ↦ (by cases hx)
  | none => exact updateBooking_safe h

/-- Where a transaction on the coupon of `b` stands when it commits. -/
def Ended (C : List Coupon) (b : ℕ) (took : Option CouponRedemption) (s v : World) : Prop :=
  ∃ K, Balanced C b none took K s v ∧ couponParts.Sees (CouponsExact C) K s v

/-- What a committed call has made of its booking's redemptions. -/
def CouponCall.Post (C : List Coupon) (s v : World) : CouponCall → Prop
  | .create b row (some code) _ => ∃ r, Redeems C b row.userId code r ∧ Ended C b (some r) s v
  | .apply b userId code => ∃ r, Redeems C b userId code r ∧ Ended C b (some r) s v
  | .create b _ none _ | .remove b _ | .cancelFree b _ | .refund b | .elsewhere b _ _ _ =>
    Ended C b none s v

theorem release_then {α : Type} {row : Booking} {k : CouponProc α}
    {Q : Except Failure α → Set CouponResource → World → World → Prop}
    (h : Balanced C b none none H s v) (hs : couponParts.Sees (CouponsExact C) H s v)
    (hk : ∀ K s v, Balanced C b none none K s v → couponParts.Sees (CouponsExact C) K s v →
      couponParts.Safe (CouponsExact C) Q k K s v)
    (herror : ∀ e K s v, couponParts.Safe (CouponsExact C) Q (.done (.error e)) K s v) :
    couponParts.Safe (CouponsExact C) Q
      ((Proc.when (row.couponId.isSome = true) (releaseForBooking b)).bind fun _ ↦ k) H s v := by
  by_cases hc : row.couponId.isSome = true
  · rw [Proc.when_pos hc]
    exact (releaseForBooking_safe h).bind hs (fun x K s v hs h ↦ hk K s v (h x rfl) hs)
      fun e K s v _ ↦ herror e K s v
  · rw [Proc.when_neg hc]
    exact hk H s v h hs

theorem body_balanced (i : CouponCall) (hs : CouponsExact C s) :
    couponParts.Safe (CouponsExact C) (fun a _ s v ↦ ∀ x, a = .ok x → i.Post C s v) i.body ∅ s s := by
  have hsees : couponParts.Sees (CouponsExact C) ∅ s s := ⟨hs, fun _ _ ↦ rfl⟩
  cases i with
  | create b row code priced =>
    intro s₁ v₁ hv₁
    have h₁ : Balanced C b none none (∅ ∪ {.booking b}) s₁
        (Store.commit (CouponStatement.insertBooking b row) v₁) :=
      ((Balanced.start hs).view hv₁).same Set.subset_union_left
        (fun x hx ↦ hx.imp_right fun hx ↦ ⟨b, hx⟩) rfl rfl
    have hs₁ := hv₁.toSees.step (l := .insertBooking b row)
    refine .ite (fun _ ↦ ?_) fun _ s' v' hv x hx ↦ (by cases hx)
    cases code with
    | none => exact (updateBooking_safe h₁).mono fun a K s v hs h x hx ↦ ⟨K, h x hx, hs⟩
    | some code =>
      refine (applyInTransaction_safe h₁).bind hs₁ (fun x K s v hs h ↦ ?_)
        fun e K s v _ s' v' hv x hx ↦ (by cases hx)
      obtain ⟨r, hr, h⟩ := h x rfl
      exact (updateBooking_safe h).mono fun a K s v hs h x hx ↦ ⟨r, hr, K, h x hx, hs⟩
  | apply b userId code =>
    refine (lockPayable_safe (.start hs)).bind hsees (fun row K s v hs h ↦ ?_)
      fun e K s v _ s' v' hv x hx ↦ (by cases hx)
    refine release_then (h row rfl) hs (fun K s v h hs ↦ ?_) fun e K s v s' v' hv x hx ↦ (by cases hx)
    refine (applyInTransaction_safe h).bind hs (fun x K s v hs h ↦ ?_)
      fun e K s v _ s' v' hv x hx ↦ (by cases hx)
    obtain ⟨r, hr, h⟩ := h x rfl
    exact (store_safe h).mono fun a K s v hs h x hx ↦ ⟨r, hr, K, h x hx, hs⟩
  | remove b userId =>
    refine (lockPayable_safe (.start hs)).bind hsees (fun row K s v hs h ↦ ?_)
      fun e K s v _ s' v' hv x hx ↦ (by cases hx)
    refine release_then (h row rfl) hs (fun K s v h hs ↦ ?_) fun e K s v s' v' hv x hx ↦ (by cases hx)
    exact (store_safe h).mono fun a K s v hs h x hx ↦ ⟨K, h x hx, hs⟩
  | cancelFree b patch =>
    refine (releaseForBooking_safe (.start hs)).bind hsees (fun x K s v hs h ↦ ?_)
      fun e K s v _ s' v' hv x hx ↦ (by cases hx)
    exact (updateBooking_safe (h x rfl)).mono fun a K s v hs h x hx ↦ ⟨K, h x hx, hs⟩
  | refund b =>
    exact (releaseForBooking_safe (.start hs)).mono fun a K s v hs h x hx ↦ ⟨K, h x hx, hs⟩
  | elsewhere b patch payments now =>
    refine (updateBooking_safe (.start hs)).bind hsees (fun x K s v hs h ↦ ?_)
      fun e K s v _ s' v' hv x hx ↦ (by cases hx)
    intro s₁ v₁ hv₁
    have h₁ : Balanced C b none none (K ∪ ∅) s₁ (Store.commit (CouponStatement.elsewhere payments now) v₁) :=
      ((h x rfl).view hv₁).same Set.subset_union_left (fun x hx ↦ hx.imp_right fun hx ↦ hx.elim) rfl rfl
    exact fun s' v' hv y _ ↦ ⟨_, h₁.view hv, hv.toSees⟩

theorem Ended.others (h : Ended C b took s v) {b' : ℕ} (hb : b' ≠ b) :
    v.redemptionsOf b' = s.redemptionsOf b' := by
  obtain ⟨K, h, hs⟩ := h
  exact hs.outside _ (h.others b' hb)

theorem Ended.exact (h : Ended C b took s v) : CouponsExact C v := by
  have hagree := countP_agree fun b' hb ↦ h.others hb
  have hothers {b' : ℕ} (hb : b' ≠ b) := h.others hb
  obtain ⟨K, h, hs⟩ := h
  refine ⟨?_, fun id k hk ↦ ?_, h.capped, fun b' ↦ ?_⟩
  · refine List.ext_getElem? fun id ↦ ?_
    rw [List.getElem?_map, h.offered]
  · have hsome : (s.coupons[id]?).map Coupon.terms = some k.terms := by
      rw [hs.inv.offered, ← h.offered, hk, Option.map_some]
    obtain ⟨k₀, hk₀, -⟩ := Option.map_eq_some_iff.mp hsome
    have hused := h.used id k k₀ hk hk₀
    have hcount := hagree fun r ↦ decide (r.couponId = id)
    have hsplit := countP_split s b fun r ↦ decide (r.couponId = id)
    have hbefore := hs.inv.used id k₀ hk₀
    unfold World.usesOf at hbefore ⊢
    rw [if_neg (by simp)] at hused
    omega
  · by_cases hb : b' = b
    · subst hb
      cases took with
      | none =>
        rcases h.kept rfl with hrows | hrows
        · rw [hrows]
          exact hs.inv.single b'
        · simp [hrows]
      | some r => simp [(h.taken r rfl).2]
    · rw [hothers hb]
      exact hs.inv.single b'

variable {s₀ : World} {es : List (Event (CouponCall × Except Failure Unit) World)}
  {os : List (Open CouponStatement World Failure Unit CouponResource CouponCall)}

/-- Transactions on the coupon tables in flight together, statement by statement. -/
abbrev CouponTransactions (s₀ : World)
    (os : List (Open CouponStatement World Failure Unit CouponResource CouponCall)) (s : World)
    (es : List (Event (CouponCall × Except Failure Unit) World)) : Prop :=
  Transactions CouponCall.body couponParts.locking s₀ os s es

theorem CouponCall.Post.exact {i : CouponCall} (h : i.Post C s v) : CouponsExact C v := by
  cases i with
  | create b row code priced =>
    cases code with
    | none => exact Ended.exact h
    | some code =>
      obtain ⟨r, -, h⟩ := h
      exact h.exact
  | apply b userId code =>
    obtain ⟨r, -, h⟩ := h
    exact h.exact
  | remove b userId => exact Ended.exact h
  | cancelFree b patch => exact Ended.exact h
  | refund b => exact Ended.exact h
  | elsewhere b patch payments now => exact Ended.exact h

/-- Whatever runs together, the counters stay exact, within their caps, and every
commit is one call's own doing. -/
theorem coupons_exact (h₀ : CouponsExact C s₀) (h : CouponTransactions s₀ os s es) :
    CouponsExact C s ∧ Chained s₀ es s ∧ ∀ e ∈ es, CouponsExact C e.before ∧ CouponsExact C e.after ∧
      ((∃ x, e.label.2 = .error x) ∧ e.after = e.before ∨
        e.label.2 = .ok () ∧ e.label.1.Post C e.before e.after) := by
  obtain ⟨-, hs, hc, hes⟩ := Parts.Safe.runs (I := CouponsExact C) (P := fun _ ↦ True)
    (Q := fun i a _ s v ↦ ∀ x, a = .ok x → i.Post C s v) (fun i s hs ↦ body_balanced i hs)
    (fun i a H s v hq _ ↦ (hq a rfl).exact) (fun _ _ _ _ _ _ _ _ _ ↦ trivial) h₀ h
    (fun _ _ ↦ trivial)
  refine ⟨hs, hc, fun e he ↦ ?_⟩
  obtain ⟨hbefore, hafter, hback | ⟨a, H, hok, hq⟩⟩ := hes e he
  · exact ⟨hbefore, hafter, .inl hback⟩
  · exact ⟨hbefore, hafter, .inr ⟨hok, hq a rfl⟩⟩

end Towing.Money
