import Towing.Money.CouponAccounting
import Towing.Money.Funding

namespace Towing.Money

open Towing.Process

/-- No customer holds more redemptions of a coupon than it allows one. -/
def WithinPerUser (C : List Coupon) (w : World) : Prop :=
  ∀ (id : ℕ) (k : Coupon) (userId : ℕ), C[id]? = some k → w.usesBy id userId ≤ k.maxUsesPerUser

/-- The customer has one redemption left of the code's coupon beside that of `b`. -/
def HasRoom (C : List Coupon) (b userId : ℕ) (code : String) (w : World) : Prop :=
  ∀ (id : ℕ) (k : Coupon), couponOf C code = some id → C[id]? = some k →
    (w.redemptions.filter (·.bookingId ≠ b)).countP (fun r ↦ r.couponId = id ∧ r.userId = userId) <
      k.maxUsesPerUser

/-- When it commits, a call that takes a coupon still finds room under its cap. -/
def CouponCall.Meets (C : List Coupon) (w : World) : CouponCall → Prop
  | .create b row (some code) _ => HasRoom C b row.userId code w
  | .apply b userId code => HasRoom C b userId code w
  | .create _ _ none _ | .remove _ _ | .cancelFree _ _ | .refund _ | .elsewhere _ _ _ _ => True

variable {C : List Coupon} {b userId : ℕ} {code : String} {r : CouponRedemption} {s v s₀ : World}
  {es : List (Event (CouponCall × Except Failure Unit) World)}
  {os : List (Open CouponStatement World Failure Unit CouponResource CouponCall)}

theorem Ended.usesBy {took : Option CouponRedemption} (h : Ended C b took s v) (id userId : ℕ) :
    v.usesBy id userId =
      (v.redemptionsOf b).countP (fun r ↦ decide (r.couponId = id ∧ r.userId = userId)) +
      (s.redemptions.filter (·.bookingId ≠ b)).countP
        (fun r ↦ decide (r.couponId = id ∧ r.userId = userId)) :=
  countP_agree (fun _ hb ↦ h.others hb) _

theorem Ended.returned (h : Ended C b none s v) (hs : WithinPerUser C s) : WithinPerUser C v := by
  intro id k u hk
  refine le_trans ?_ (hs id k u hk)
  rw [h.usesBy, World.usesBy, countP_split s b]
  obtain ⟨K, h, -⟩ := h
  rcases h.kept rfl with hrows | hrows
  · rw [hrows]
  · simp [hrows]

theorem Ended.taken (h : Ended C b (some r) s v) (hr : Redeems C b userId code r)
    (hs : WithinPerUser C s) : WithinPerUser C v ↔ HasRoom C b userId code s := by
  have hrow : v.redemptionsOf b = [r] := by
    obtain ⟨K, h, -⟩ := h
    exact (h.taken r rfl).2
  have hself (id : ℕ) (hid : couponOf C code = some id) :
      [r].countP (fun r ↦ decide (r.couponId = id ∧ r.userId = userId)) = 1 := by
    have hcoupon : r.couponId = id := Option.some.inj (hr.coupon.symm.trans hid)
    simp [hcoupon, hr.user]
  refine ⟨fun hv id k hid hk ↦ ?_, fun hroom id k u hk ↦ ?_⟩
  · have hcap := hv id k userId hk
    rw [h.usesBy, hrow, hself id hid] at hcap
    omega
  · rw [h.usesBy, hrow]
    by_cases hmine : r.couponId = id ∧ r.userId = u
    · have hid : couponOf C code = some id := hr.coupon.trans (congrArg some hmine.1)
      have hu : u = userId := hmine.2.symm.trans hr.user
      have hlt := hroom id k hid hk
      rw [hu, hself id hid]
      omega
    · have hnone : [r].countP (fun r ↦ decide (r.couponId = id ∧ r.userId = u)) = 0 := by
        simp [hmine]
      have hcap := hs id k u hk
      rw [World.usesBy, countP_split s b] at hcap
      omega

theorem CouponCall.Post.withinPerUser {i : CouponCall} (h : i.Post C s v) (hs : WithinPerUser C s) :
    WithinPerUser C v ↔ i.Meets C s := by
  cases i with
  | create b row code priced =>
    cases code with
    | none => exact iff_of_true (Ended.returned h hs) trivial
    | some code =>
      obtain ⟨r, hr, h⟩ := h
      exact h.taken hr hs
  | apply b userId code =>
    obtain ⟨r, hr, h⟩ := h
    exact h.taken hr hs
  | remove b userId => exact iff_of_true (Ended.returned h hs) trivial
  | cancelFree b patch => exact iff_of_true (Ended.returned h hs) trivial
  | refund b => exact iff_of_true (Ended.returned h hs) trivial
  | elsewhere b patch payments now => exact iff_of_true (Ended.returned h hs) trivial

/-- In every interleaving the counters equal their redemptions within their caps and no
booking holds two; the cap of each customer holds in all states exactly if every call
that takes a coupon still finds room when it commits. -/
theorem coupon_caps_iff (h₀ : CouponsExact C s₀) (hu₀ : WithinPerUser C s₀)
    (h : CouponTransactions s₀ os s es) :
    CouponsExact C s ∧ (∀ e ∈ es, CouponsExact C e.after) ∧
    ((WithinPerUser C s ∧ ∀ e ∈ es, WithinPerUser C e.after) ↔
      ∀ e ∈ es, e.label.2 = .ok () → e.label.1.Meets C e.before) := by
  obtain ⟨hs, hc, hes⟩ := coupons_exact h₀ h
  refine ⟨hs, fun e he ↦ (hes e he).2.1, fun hall e he hok ↦ ?_, fun hmeets ↦ ?_⟩
  · have hbefore : WithinPerUser C e.before := by
      obtain ⟨pre, post, rfl⟩ := List.append_of_mem he
      rcases hc.before with ⟨-, hstart⟩ | ⟨pre', e', rfl, hsame⟩
      · rwa [hstart]
      · rw [← hsame]
        exact hall.2 e' (by simp)
    rcases (hes e he).2.2 with ⟨⟨x, hx⟩, -⟩ | ⟨-, hpost⟩
    · rw [hok] at hx
      cases hx
    · exact (hpost.withinPerUser hbefore).mp (hall.2 e he)
  · obtain ⟨hlast, hafter⟩ := hc.invariant (I := WithinPerUser C) hu₀ fun e he hbefore ↦ by
      rcases (hes e he).2.2 with ⟨-, hsame⟩ | ⟨hok, hpost⟩
      · rwa [hsame]
      · exact (hpost.withinPerUser hbefore).mpr (hmeets e he hok)
    exact ⟨hlast, fun e he ↦ (hafter e he).2⟩

def CouponStatement.lock : CouponStatement → Option CouponResource
  | .selectForUpdate b | .insertBooking b _ | .updateBooking b _ => some (.booking b)
  | .claimCoupon id | .returnCoupon id => some (.coupon id)
  | .insertRedemption r | .deleteRedemption r => some (.redemption r.bookingId)
  | _ => none

theorem CouponStatement.mem_need {l : CouponStatement} {x : CouponResource} :
    x ∈ l.need ↔ l.lock = some x := by
  cases l <;> simp [need, lock, eq_comm]

/-- Two finished trips of one customer, whose coupon may be used once. -/
def twoTrips : World := { couponWorld with
  bookings := fun b ↦ if b < 2 then some (sampleTrip .completed) else none }

theorem twoTrips_exact : CouponsExact [sampleCoupon] twoTrips where
  catalog := rfl
  used id k hk := by
    cases id with
    | zero => cases hk; rfl
    | succ id => simp [twoTrips, couponWorld] at hk
  capped id k m hk hm := by
    cases id with
    | zero => cases hk; cases hm
    | succ id => simp [twoTrips, couponWorld] at hk
  single _ := by simp [World.redemptionsOf, twoTrips, couponWorld, World.blank]

theorem twoTrips_within : WithinPerUser [sampleCoupon] twoTrips := by
  intro id k userId _
  simp [World.usesBy, twoTrips, couponWorld, World.blank]

def sampleTake (b : ℕ) : CouponCall := .apply b 7 "TOW100"

theorem coupon_caps_iff_sample : CouponsExact [sampleCoupon] ((sampleTake 0).body.transact twoTrips).2 ∧
    WithinPerUser [sampleCoupon] ((sampleTake 0).body.transact twoTrips).2 := by
  have hrun : CouponTransactions twoTrips [] _ _ := Transactions.start.alone (sampleTake 0)
  have h := coupon_caps_iff twoTrips_exact twoTrips_within hrun
  refine ⟨h.1, (h.2.2.mpr fun e he _ ↦ ?_).1⟩
  cases List.mem_singleton.mp he
  intro id k _ hk
  cases id with
  | zero => cases hk; decide
  | succ id => simp at hk

/-- Both trips take the coupon: each count is read before the other commits. -/
theorem coupon_twice : CouponsExact [sampleCoupon] twoTrips ∧ WithinPerUser [sampleCoupon] twoTrips ∧
    ∃ s es, CouponTransactions twoTrips [] s es ∧ ¬WithinPerUser [sampleCoupon] s := by
  have hbegin : CouponTransactions twoTrips [⟨sampleTake 0, (sampleTake 0).body, id, ∅⟩] twoTrips [] :=
    Transactions.start.begin (sampleTake 0)
  have hreads : ∀ e ∈ ((sampleTake 0).body.events twoTrips).take 5,
      e.label.lock = none ∨ e.label.lock = some (.booking 0) := by decide +kernel
  have hother : ∀ e ∈ (sampleTake 1).body.events twoTrips, e.label.lock ≠ some (.booking 0) := by
    decide +kernel
  -- the first call stops between its count and its claim
  obtain ⟨L, hL, hread⟩ := hbegin.advance 5 (K := {.booking 0}) (fun e he x hx ↦ by
    rcases hreads e he with h | h
    · exact absurd ((CouponStatement.mem_need.mp hx).symm.trans h) nofun
    · exact (Option.some.inj ((CouponStatement.mem_need.mp hx).symm.trans h))) (Set.empty_subset _)
  have hboth := (hread.begin (sampleTake 1)).finish_past [_] (a := ()) (fun e he o ho ↦ by
    cases List.mem_singleton.mp ho
    refine Set.disjoint_left.mpr fun x hx hheld ↦ hother e he ?_
    cases hL hheld
    exact CouponStatement.mem_need.mp hx) (Prod.ext (by decide +kernel) rfl)
  have hend := Transactions.finish_past [] (a := ()) (by simp) hboth
    (Prod.ext (by decide +kernel) rfl)
  refine ⟨twoTrips_exact, twoTrips_within, _, _, hend, fun h ↦ ?_⟩
  exact absurd (h 0 sampleCoupon 7 rfl) (by decide +kernel)

end Towing.Money
