import Towing.Trips.Cancelling
import Towing.Process.Paths

namespace Towing.Trips

open Towing.Db Towing.Process Towing.Money
open AdminBookingsService (cancellationTerms AdminBookingCancelBody AdminBookingCancelResponse)

/-- What a cancellation leaves behind: the columns, the coupon, the compensation it posts,
the driver it tells, and its answer. -/
structure Record (α : Type) where
  feePaise : ℤ
  compensationPaise : ℤ
  releasesCoupon : Bool
  legs : List (LedgerLeg LedgerKey)
  tells : Option ℕ
  answer : α

/-- The driver's compensation. -/
def compensation (b : ℕ) (driverId : Option ℕ) (amountPaise : ℤ) (reason : String) :
    List (LedgerLeg LedgerKey) :=
  match driverId with
  | some d => if 0 < amountPaise then [BookingsService.compensationLeg b d amountPaise reason] else []
  | none => []

/-- The record that the policy gives a customer's cancellation. -/
def customerRecord (charges : CancellationConfig) (b : ℕ) (i : CancellationInputs) :
    Record BookingsService.BookingCancelResponse :=
  let outcome := i.outcome charges
  { feePaise := outcome.feePaise
    compensationPaise := outcome.driverCompensationPaise
    releasesCoupon := outcome.tier = .free
    legs := compensation b i.driverId outcome.driverCompensationPaise
      ("Cancellation compensation (" ++ tierLabel outcome.tier ++ ")")
    tells := i.driverId
    answer := ⟨outcome.tier, outcome.feePaise, outcome.driverCompensationPaise⟩ }

/-- The record that the policy gives an operator's. -/
def adminRecord (charges : CancellationConfig) (b : ℕ) (body : AdminBookingCancelBody)
    (i : CancellationInputs) : Record AdminBookingCancelResponse :=
  let outcome := i.outcome charges
  let terms := cancellationTerms outcome body.feeMode body.compensateDriver i.couponId
  { feePaise := terms.feePaise
    compensationPaise := terms.driverCompensationPaise
    releasesCoupon := terms.couponReleased
    legs := compensation b i.driverId terms.driverCompensationPaise
      ("Cancellation compensation (admin, " ++ tierLabel outcome.tier ++ ")")
    tells := i.driverId
    answer := terms }

/-- The legs that have been posted. -/
def posted (es : List (Event Step World)) : List (LedgerLeg LedgerKey) :=
  es.flatMap fun e ↦ match e.label with
    | .money (.post legs) => if (e.before.money.postResult legs).1.isOk then legs else []
    | _ => []

/-- The bookings whose offers are to be revoked as cancelled, with the driver to be told. -/
def told (es : List (Event Step World)) : List (ℕ × Option ℕ) :=
  es.filterMap fun e ↦ match e.label with
    | .enqueue _ (.revoke b .cancelled holder) _ => some (b, holder)
    | _ => none

/-- What would have been read of the row the move takes. -/
def CancellationInputs.at (i : CancellationInputs) (r : Row) : CancellationInputs :=
  { i with status := r.booking.status, driverId := r.booking.driverId }

/-- Commit `e` of the run cancels booking `b` from row `r`. -/
structure Cancels (b : ℕ) (cause : Cause) (r : Row) (m : Move) (e : Event Step World) : Prop where
  label : e.label = .move m
  cause : m.cause = cause
  goes : e.before.moveError m = none
  row : e.before.row b = some r

/-- The move `m` of request `n` leaves the columns of the record, and what the request has
done since is of the record as well: all of it, once it has answered. -/
structure Leaves {α : Type} (es : List (ℕ × Event Step World)) (i n b : ℕ) (m : Move) (e : Event Step World)
    (q : Request α) (record : Record α) : Prop where
  columns : ∃ r, e.after.row b = some r ∧ r.trip.cancellationFee = record.feePaise ∧
    r.trip.driverCompensation = record.compensationPaise
  coupon : m.releasesCoupon = record.releasesCoupon
  pays : posted (own n (es.drop (i + 1))) <+: record.legs
  tells : told (own n (es.drop (i + 1))) <+: [(b, record.tells)]
  answered : ∀ a, q.Leads (own n es) (.done (.ok a)) →
    posted (own n (es.drop (i + 1))) = record.legs ∧
      told (own n (es.drop (i + 1))) = [(b, record.tells)] ∧ a = record.answer

/-- Nothing is owed: nobody has been found, or it is early and nobody has set out. -/
def Unowed (charges : CancellationConfig) (i : CancellationInputs) : Prop :=
  i.status = .searching ∨ driverCommitted i.status = false ∧ i.now ≤ i.createdAt + charges.freeWindowMs

/-- The whole fare is owed: the driver has set out, or it is late. -/
def Overdue (charges : CancellationConfig) (i : CancellationInputs) : Prop :=
  driverCommitted i.status ∨ i.createdAt + charges.partialWindowMs < i.now

/-- The status that was read and the one that the move takes owe the same. -/
def SameTerms (charges : CancellationConfig) (i : CancellationInputs) (r : Row) : Prop :=
  (Unowed charges i ↔ Unowed charges (i.at r)) ∧
    (¬Unowed charges i → (Overdue charges i ↔ Overdue charges (i.at r)))

/-- Between the look at the booking and the move, the driver stays the same, and the
status changes to none for which something else is owed. -/
def Stood (charges : CancellationConfig) (i : CancellationInputs) (r : Row) : Prop :=
  i.driverId = r.booking.driverId ∧ SameTerms charges i r

/-- An operator who charges and pays nothing does not mind what is owed. -/
def AdminStood (charges : CancellationConfig) (body : AdminBookingCancelBody) (i : CancellationInputs)
    (r : Row) : Prop :=
  i.driverId = r.booking.driverId ∧
    (¬(body.feeMode = .waive ∧ body.compensateDriver = false) → SameTerms charges i r)

variable {env : Env} {w w₀ : World} {b : ℕ} {i j : CancellationInputs} {charges : CancellationConfig}

/-- The tier of the policy, in these terms. -/
theorem tier_eq (charges : CancellationConfig) (i : CancellationInputs) :
    ((i.outcome charges).tier = .free ↔ Unowed charges i) ∧
      ((i.outcome charges).tier = .full ↔ ¬Unowed charges i ∧ Overdue charges i) := by
  unfold CancellationInputs.outcome cancellationPolicy Unowed Overdue
  by_cases hs : i.status = .searching
  · simp [hs]
  · by_cases hd : driverCommitted i.status
    · simp [hs, hd]
    · by_cases hfree : (i.now : ℤ) - i.createdAt ≤ charges.freeWindowMs
      · have : i.now ≤ i.createdAt + charges.freeWindowMs := by omega
        simp [hs, hd, hfree, this]
      · have hnot : ¬i.now ≤ i.createdAt + charges.freeWindowMs := by omega
        by_cases hpart : (i.now : ℤ) - i.createdAt ≤ charges.partialWindowMs
        · have : ¬i.createdAt + charges.partialWindowMs < i.now := by omega
          simp [hs, hd, hfree, hpart, hnot, this]
        · have : i.createdAt + charges.partialWindowMs < i.now := by omega
          simp [hs, hd, hfree, hpart, hnot, this]

/-- What a tier charges. -/
def tierFee (charges : CancellationConfig) (basePaise : ℤ) : CancellationTier → ℤ
  | .free => 0
  | .part => charges.partialFeePaise
  | .full => basePaise

theorem outcome_fee (charges : CancellationConfig) (i : CancellationInputs) :
    (i.outcome charges).feePaise = tierFee charges i.baseFare (i.outcome charges).tier ∧
      (i.outcome charges).driverCompensationPaise =
        if (i.outcome charges).tier = .free ∨ i.driverId = none then 0
        else Arith.percentOf (i.outcome charges).feePaise (Pct.number charges.driverCompensationPct) := by
  unfold CancellationInputs.outcome cancellationPolicy tierFee
  dsimp only
  split_ifs <;> simp_all

/-- Inputs that differ in the status alone come to the same where the tier does. -/
theorem outcome_congr (ht : (i.outcome charges).tier = (j.outcome charges).tier)
    (hbase : i.baseFare = j.baseFare) (hd : i.driverId = j.driverId) :
    (i.outcome charges).feePaise = (j.outcome charges).feePaise ∧
      (i.outcome charges).driverCompensationPaise = (j.outcome charges).driverCompensationPaise := by
  obtain ⟨hfee, hcomp⟩ := outcome_fee charges i
  obtain ⟨hfee', hcomp'⟩ := outcome_fee charges j
  have hsame : (i.outcome charges).feePaise = (j.outcome charges).feePaise := by
    rw [hfee, hfee', ht, hbase]
  exact ⟨hsame, by rw [hcomp, hcomp', ht, hd, hsame]⟩

theorem tier_iff : (i.outcome charges).tier = (j.outcome charges).tier ↔
    (Unowed charges i ↔ Unowed charges j) ∧
      (¬Unowed charges i → (Overdue charges i ↔ Overdue charges j)) := by
  have hi := tier_eq charges i
  have hj := tier_eq charges j
  cases hti : (i.outcome charges).tier <;> cases htj : (j.outcome charges).tier <;>
    simp only [hti, htj] at hi hj <;> simp_all

theorem customer_iff (r : Row) : customerRecord charges b i = customerRecord charges b (i.at r) ↔
    Stood charges i r := by
  rw [Stood, SameTerms, ← tier_iff]
  constructor
  · intro h
    exact ⟨congrArg Record.tells h,
      congrArg BookingsService.BookingCancelResponse.tier (congrArg Record.answer h)⟩
  · rintro ⟨hd, ht⟩
    obtain ⟨hfee, hcomp⟩ := outcome_congr (j := i.at r) ht rfl hd
    simp only [customerRecord, ht, hfee, hcomp, hd]
    rfl

theorem adminRecord_at {r : Row} {body : AdminBookingCancelBody} (h : AdminStood charges body i r) :
    adminRecord charges b body i = adminRecord charges b body (i.at r) := by
  obtain ⟨hd, hterms⟩ := h
  have hdriver : (i.at r).driverId = i.driverId := hd.symm
  have hcoupon : (i.at r).couponId = i.couponId := rfl
  by_cases hwaive : body.feeMode = .waive ∧ body.compensateDriver = false
  · cases hid : i.driverId <;>
      simp [adminRecord, cancellationTerms, compensation, hdriver, hcoupon, hwaive.1, hwaive.2, hid]
  · have ht := tier_iff.mpr (hterms hwaive)
    obtain ⟨hfee, hcomp⟩ := outcome_congr (j := i.at r) ht rfl hd
    simp only [adminRecord, cancellationTerms, ht, hfee, hcomp, hdriver, hcoupon]

/-! What a cancelling request does. -/

section request

variable {α : Type} {es pre later : List (Event Step World)} {e : Event Step World} {m m' : Move}
  {d : Option ℕ} {amountPaise : ℤ} {reason : String} {q : Request α}

theorem posted_cons (e : Event Step World) (es : List (Event Step World)) :
    posted (e :: es) = posted [e] ++ posted es := by
  simp [posted]

theorem told_cons (e : Event Step World) (es : List (Event Step World)) :
    told (e :: es) = told [e] ++ told es := by
  simp only [told, ← List.filterMap_append, List.singleton_append]

/-- A job is asked for, and whatever comes of it the request goes on. -/
theorem enqueue_leads {id : JobId} {payload : Payload} {delayMs : ℕ} {g : Unit → Request α}
    (h : ((besteffort (enqueue id payload delayMs)).bind g).Leads es q) :
    es = [] ∧ (∀ a, q ≠ .done (.ok a)) ∨
      ∃ e rest, es = e :: rest ∧ e.label = .enqueue id payload delayMs ∧ (g ()).Leads rest q := by
  rcases Proc.Leads.step_iff.mp h with ⟨rfl, rfl⟩ | ⟨s, rest, rfl, hrest⟩
  · exact .inl ⟨rfl, nofun⟩
  · refine .inr ⟨_, rest, rfl, rfl, ?_⟩
    cases hup : s.queueUp <;> simpa [hup, Proc.handle, Proc.bind] using hrest

/-- What neither pays nor tells, and ends with this answer. -/
def Concludes (p : Request α) (a : α) : Prop :=
  ∀ es q, p.Leads es q → posted es = [] ∧ told es = [] ∧ ∀ a', q = .done (.ok a') → a' = a

theorem concludes_done (a : α) : Concludes (.done (.ok a)) a := by
  intro es q h
  obtain ⟨rfl, rfl⟩ := Proc.Leads.done_iff.mp h
  exact ⟨rfl, rfl, fun a' h' ↦ by cases h'; rfl⟩

theorem concludes_suspension (driverId : ℕ) (a : α) : Concludes
    ((besteffort (enqueue (.applySuspension b) (.applySuspension driverId) 0)).bind fun _ ↦ .done (.ok a)) a := by
  intro es q h
  rcases enqueue_leads h with ⟨rfl, hq⟩ | ⟨e, rest, rfl, hl, hrest⟩
  · exact ⟨rfl, rfl, fun a' h' ↦ absurd h' (hq a')⟩
  · obtain ⟨hpays, htells, hends⟩ := concludes_done a rest q hrest
    rw [posted_cons, told_cons, hpays, htells]
    exact ⟨by simp [posted, hl], by simp [told, hl], hends⟩

/-- The driver is told, before all that concludes it. -/
theorem revoke_leads {g : Unit → Request α} {a : α} (hg : Concludes (g ()) a)
    (h : ((besteffort (enqueue (.revoke b) (.revoke b .cancelled d) 0)).bind g).Leads later q) :
    posted later = [] ∧ told later <+: [(b, d)] ∧
      ∀ a', q = .done (.ok a') → told later = [(b, d)] ∧ a' = a := by
  rcases enqueue_leads h with ⟨rfl, hq⟩ | ⟨e, rest, rfl, hl, hrest⟩
  · exact ⟨rfl, List.nil_prefix, fun a' h' ↦ absurd h' (hq a')⟩
  · have htold : told [e] = [(b, d)] := by simp [told, hl]
    have hposted : posted [e] = [] := by simp [posted, hl]
    obtain ⟨hpays, htells, hends⟩ := hg rest q hrest
    rw [posted_cons, told_cons, hposted, htold, hpays, htells]
    exact ⟨rfl, List.prefix_rfl, fun a' h' ↦ ⟨rfl, hends a' h'⟩⟩

theorem afterCancel_none {β : Type} (f : Unit → Request β) :
    (BookingsService.afterCancel b none amountPaise reason).bind f =
      (besteffort (enqueue (.revoke b) (.revoke b .cancelled none) 0)).bind f := by
  change ((besteffort (enqueue (.revoke b) (.revoke b .cancelled none) 0)).bind fun _ ↦ .done (.ok ())).bind f = _
  rw [Proc.bind_assoc]
  rfl

theorem afterCancel_some {β : Type} (driverId : ℕ) (f : Unit → Request β) :
    (BookingsService.afterCancel b (some driverId) amountPaise reason).bind f =
      (Proc.when (0 < amountPaise)
        (money (ledgerPost [BookingsService.compensationLeg b driverId amountPaise reason])).ignore).bind fun _ ↦
        (besteffort (enqueue (.revoke b) (.revoke b .cancelled (some driverId)) 0)).bind fun _ ↦
          (besteffort (enqueue (.applySuspension b) (.applySuspension driverId) 0)).bind f := by
  change Proc.bind (Proc.bind _ fun _ ↦ Proc.bind _ fun _ ↦ _) f = _
  rw [Proc.bind_assoc]
  congr 1
  funext u
  rw [Proc.bind_assoc]

/-- The compensation is posted, or refused and nothing follows. -/
theorem post_leads {leg : LedgerLeg LedgerKey} {g : Unit → Request α}
    (h : ((money (ledgerPost [leg])).ignore.bind g).Leads es q) :
    posted es = [] ∧ told es = [] ∧ (∀ a, q ≠ .done (.ok a)) ∨
      ∃ e rest, es = e :: rest ∧ posted [e] = [leg] ∧ told [e] = [] ∧ (g ()).Leads rest q := by
  rcases Proc.Leads.step_iff.mp h with ⟨rfl, rfl⟩ | ⟨s, rest, rfl, hrest⟩
  · exact .inl ⟨rfl, rfl, nofun⟩
  · cases hres : (s.money.postResult [leg]).1 with
    | error e =>
      simp only [hres] at hrest
      obtain ⟨rfl, rfl⟩ := Proc.Leads.done_iff.mp hrest
      exact .inl ⟨by simp [posted, hres, Except.isOk, Except.toBool], by simp [told], nofun⟩
    | ok r =>
      simp only [hres] at hrest
      exact .inr ⟨_, rest, rfl, by simp [posted, hres, Except.isOk, Except.toBool], by simp [told], hrest⟩

/-- Everything that follows the move. -/
theorem afterCancel_leads {a : α}
    (h : ((BookingsService.afterCancel b d amountPaise reason).bind fun _ ↦ .done (.ok a)).Leads later q) :
    posted later <+: compensation b d amountPaise reason ∧ told later <+: [(b, d)] ∧
      ∀ a', q = .done (.ok a') → posted later = compensation b d amountPaise reason ∧
        told later = [(b, d)] ∧ a' = a := by
  cases d with
  | none =>
    rw [afterCancel_none] at h
    obtain ⟨hpays, htells, hends⟩ := revoke_leads (concludes_done a) h
    exact ⟨by rw [hpays]; exact List.nil_prefix, htells, fun a' h' ↦ ⟨hpays, hends a' h'⟩⟩
  | some d =>
    have hconcludes := concludes_suspension (b := b) d a
    rw [afterCancel_some] at h
    by_cases hpos : 0 < amountPaise
    · have hlegs : compensation b (some d) amountPaise reason =
          [BookingsService.compensationLeg b d amountPaise reason] := if_pos hpos
      rw [hlegs]
      rw [Proc.when_pos hpos] at h
      rcases post_leads h with ⟨hpays, htells, hq⟩ | ⟨e, rest, rfl, hpays, htells, hrest⟩
      · rw [hpays, htells]
        exact ⟨List.nil_prefix, List.nil_prefix, fun a' h' ↦ absurd h' (hq a')⟩
      · obtain ⟨hpays', htells', hends⟩ := revoke_leads hconcludes hrest
        rw [posted_cons, told_cons, hpays, hpays', htells, List.nil_append]
        exact ⟨List.prefix_rfl, htells', fun a' h' ↦ ⟨rfl, hends a' h'⟩⟩
    · have hlegs : compensation b (some d) amountPaise reason = [] := if_neg hpos
      rw [Proc.when_neg hpos] at h
      obtain ⟨hpays, htells, hends⟩ := revoke_leads hconcludes h
      rw [hlegs]
      exact ⟨by rw [hpays], htells, fun a' h' ↦ ⟨hpays, hends a' h'⟩⟩

/-- What follows a move that goes through. -/
theorem transition_leads {g : Unit → Request α} (h : ((transition m').bind g).Leads (pre ++ e :: later) q)
    (hg : (g ()).Only fun l ↦ ∀ m, l ≠ .move m) (hl : e.label = .move m) (hok : e.before.moveError m = none) :
    m = m' ∧ (g ()).Leads later q := by
  rcases Proc.Leads.step_iff.mp h with ⟨hnil, -⟩ | ⟨s, rest, heq, hrest⟩
  · simp at hnil
  · cases pre with
    | nil =>
      obtain ⟨rfl, rfl⟩ := List.cons.inj heq
      cases hl
      dsimp only at hok hrest
      rw [hok] at hrest
      exact ⟨rfl, hrest⟩
    | cons f pre =>
      -- The request has moved before, and does not move again.
      obtain ⟨-, rfl⟩ := List.cons.inj heq
      dsimp only at hrest
      cases hmove : s.moveError m' with
      | some err =>
        rw [hmove] at hrest
        obtain ⟨hnil, -⟩ := Proc.Leads.done_iff.mp hrest
        simp at hnil
      | none =>
        rw [hmove] at hrest
        exact absurd hl (hrest.only hg e (by simp) m)

theorem only_money (q : Money.Request α) : (money q).Only fun l ↦ ∀ m, l ≠ .move m := by
  refine Proc.Only.lift ?_
  induction q with
  | done r => trivial
  | step l next ih => exact ⟨fun _ hl ↦ (by cases hl), ih⟩

theorem only_afterCancel (driverId : Option ℕ) (a : α) :
    ((BookingsService.afterCancel b driverId amountPaise reason).bind fun _ ↦ .done (.ok a) : Request α).Only
      fun l ↦ ∀ m, l ≠ .move m := by
  have henqueue (id : JobId) (payload : Payload) :
      (besteffort (enqueue id payload 0)).Only fun l ↦ ∀ m, l ≠ .move m :=
    Proc.Only.handle ⟨fun _ hl ↦ (by cases hl), fun _ ↦ trivial⟩ fun _ ↦ trivial
  cases driverId with
  | none =>
    rw [afterCancel_none]
    exact (henqueue _ _).bind fun _ ↦ trivial
  | some driverId =>
    rw [afterCancel_some]
    refine Proc.Only.bind (Proc.Only.when (only_money _).ignore) fun _ ↦ ?_
    exact (henqueue _ _).bind fun _ ↦ (henqueue _ _).bind fun _ ↦ trivial

variable {userId : ℕ}

/-- A customer's move is the one of what was looked up, and all that follows it. -/
theorem customer_leads {body : BookingsService.BookingCancel} {q : Request BookingsService.BookingCancelResponse}
    (h : (BookingsService.cancel env userId b body).Leads (pre ++ e :: later) q) (hl : e.label = .move m)
    (hcause : m.cause = .customerCancel i) (hok : e.before.moveError m = none) :
    m = ⟨b, .cancelled, .cancellation "customer" body.reason (i.outcome env.charges).feePaise
        (i.outcome env.charges).driverCompensationPaise, (i.outcome env.charges).tier = .free, .customerCancel i⟩ ∧
      ((BookingsService.afterCancel b i.driverId (i.outcome env.charges).driverCompensationPaise
        ("Cancellation compensation (" ++ tierLabel (i.outcome env.charges).tier ++ ")")).bind fun _ ↦
          .done (.ok (customerRecord env.charges b i).answer)).Leads later q := by
  obtain ⟨_, pre, looked, -, -, h⟩ := h.bind_later (P := (· = .read)) ⟨rfl, fun _ ↦ trivial⟩ (by simp [hl])
  obtain ⟨_, pre, -, -, -, h⟩ := h.bind_later (P := fun l ↦ ∀ m, l ≠ .move m) (Proc.Only.when (by
    cases body.payment with
    | none => trivial
    | some payment => exact only_money _)) fun hnot ↦ hnot m hl
  obtain ⟨rfl, hafter⟩ := transition_leads h (only_afterCancel _ _) hl hok
  obtain rfl : looked = i := by simpa using hcause
  exact ⟨rfl, hafter⟩

/-- The same of an operator's. -/
theorem admin_leads {body : AdminBookingCancelBody} {q : Request AdminBookingCancelResponse}
    (h : (AdminBookingsService.cancel env b body).Leads (pre ++ e :: later) q) (hl : e.label = .move m)
    (hcause : m.cause = .adminCancel i body.feeMode body.compensateDriver) (hok : e.before.moveError m = none) :
    m = ⟨b, .cancelled, .cancellation "admin" (some body.reason) (adminRecord env.charges b body i).feePaise
        (adminRecord env.charges b body i).compensationPaise, (adminRecord env.charges b body i).releasesCoupon,
        .adminCancel i body.feeMode body.compensateDriver⟩ ∧
      ((BookingsService.afterCancel b i.driverId (adminRecord env.charges b body i).compensationPaise
        ("Cancellation compensation (admin, " ++ tierLabel (i.outcome env.charges).tier ++ ")")).bind fun _ ↦
          .done (.ok (adminRecord env.charges b body i).answer)).Leads later q := by
  obtain ⟨_, pre, looked, -, -, h⟩ := h.bind_later (P := (· = .read)) ⟨rfl, fun _ ↦ trivial⟩ (by simp [hl])
  obtain ⟨rfl, hafter⟩ := transition_leads h (only_afterCancel _ _) hl hok
  obtain rfl : looked = i := by simpa using hcause
  exact ⟨rfl, hafter⟩

end request

/-! Over the runs. -/

variable {cs : List (Call Step World Failure)} {es : List (ℕ × Event Step World)}

/-- Request `n` is this one. -/
def Asks {α : Type} (cs : List (Call Step World Failure)) (n : ℕ) (q : Request α) : Prop :=
  ∃ c, cs[n]? = some c ∧ c.asked = q.ignore

theorem Asks.leads {α : Type} {q : Request α} {n k : ℕ} {e : Event Step World} (hasks : Asks cs n q)
    (h : Calls (Operates env) w₀ cs w es) (he : Makes es k n e) : ∃ p,
      q.Leads (own n (es.take k) ++ e :: own n (es.drop (k + 1))) p := by
  obtain ⟨c, hc, hasked⟩ := hasks
  have hleads := h.leads n c hc
  rw [hasked, he.own_split] at hleads
  obtain ⟨p, hp, -⟩ := hleads.of_ignore
  exact ⟨p, hp⟩

/-- A cancellation leaves the record of what it has looked up. -/
theorem leaves_read {α : Type} {q : Request α} {k n : ℕ} {m : Move} {e : Event Step World} {r : Row}
    {cause : Cause} {record : Record α} {reason : String} (h : Calls (Operates env) w₀ cs w es)
    (hasks : Asks cs n q) (he : Makes es k n e) (hc : Cancels b cause r m e)
    (htarget : m.bookingId = b) (hfee : (World.movedRow m r).trip.cancellationFee = record.feePaise)
    (hcomp : (World.movedRow m r).trip.driverCompensation = record.compensationPaise)
    (hcoupon : m.releasesCoupon = record.releasesCoupon)
    (hlegs : record.legs = compensation b record.tells record.compensationPaise reason)
    (hafter : ∀ p, q.Leads (own n (es.take k) ++ e :: own n (es.drop (k + 1))) p →
      ((BookingsService.afterCancel b record.tells record.compensationPaise reason).bind fun _ ↦
        .done (.ok record.answer)).Leads (own n (es.drop (k + 1))) p) : Leaves es k n b m e q record := by
  obtain ⟨p, hp⟩ := hasks.leads h he
  obtain ⟨hpays, htells, -⟩ := afterCancel_leads (hafter p hp)
  rw [← hlegs] at hpays
  refine ⟨⟨World.movedRow m r, ?_, hfee, hcomp⟩, hcoupon, hpays, htells, fun a ha ↦ ?_⟩
  · obtain ⟨r', hr', -, hrow⟩ := World.move_row hc.goes
    rw [htarget] at hr' hrow
    cases hc.row.symm.trans hr'
    rw [(h.commit_at he : e.after = e.before.run e.label), hc.label]
    exact hrow
  · rw [he.own_split] at ha
    obtain ⟨-, -, hends⟩ := afterCancel_leads (hafter _ ha)
    rw [hlegs]
    exact hends a rfl

theorem leaves_customer {n userId k : ℕ} {body : BookingsService.BookingCancel} {m : Move} {e : Event Step World}
    {r : Row} (h : Calls (Operates env) w₀ cs w es) (hasks : Asks cs n (BookingsService.cancel env userId b body))
    (he : Makes es k n e) (hc : Cancels b (.customerCancel i) r m e) :
    Leaves es k n b m e (BookingsService.cancel env userId b body) (customerRecord env.charges b i) := by
  obtain ⟨p, hp⟩ := hasks.leads h he
  obtain ⟨rfl, -⟩ := customer_leads hp hc.label hc.cause hc.goes
  exact leaves_read h hasks he hc rfl rfl rfl rfl rfl fun p hp ↦
    (customer_leads hp hc.label hc.cause hc.goes).2

theorem leaves_admin {n k : ℕ} {body : AdminBookingCancelBody} {m : Move} {e : Event Step World} {r : Row}
    (h : Calls (Operates env) w₀ cs w es) (hasks : Asks cs n (AdminBookingsService.cancel env b body))
    (he : Makes es k n e) (hc : Cancels b (.adminCancel i body.feeMode body.compensateDriver) r m e) :
    Leaves es k n b m e (AdminBookingsService.cancel env b body) (adminRecord env.charges b body i) := by
  obtain ⟨p, hp⟩ := hasks.leads h he
  obtain ⟨rfl, -⟩ := admin_leads hp hc.label hc.cause hc.goes
  exact leaves_read h hasks he hc rfl rfl rfl rfl rfl fun p hp ↦
    (admin_leads hp hc.label hc.cause hc.goes).2

/-- A cancellation that stands where it looked leaves the record of the row that it takes; a
customer's that is answered does so only then. -/
theorem cancellations_record (h : Calls (Operates env) w₀ cs w es) :
    (∀ n userId b body, Asks cs n (BookingsService.cancel env userId b body) →
      ∀ k m e i r, Makes es k n e → Cancels b (.customerCancel i) r m e →
        (Stood env.charges i r → Leaves es k n b m e (BookingsService.cancel env userId b body)
          (customerRecord env.charges b (i.at r))) ∧
        ∀ a, (BookingsService.cancel env userId b body).Leads (own n es) (.done (.ok a)) →
          (Leaves es k n b m e (BookingsService.cancel env userId b body)
            (customerRecord env.charges b (i.at r)) ↔ Stood env.charges i r)) ∧
    ∀ n b body, Asks cs n (AdminBookingsService.cancel env b body) →
      ∀ k m e i r, Makes es k n e → Cancels b (.adminCancel i body.feeMode body.compensateDriver) r m e →
        AdminStood env.charges body i r → Leaves es k n b m e (AdminBookingsService.cancel env b body)
          (adminRecord env.charges b body (i.at r)) := by
  refine ⟨fun n userId b body hasks k m e i r he hc ↦ ?_, fun n b body hasks k m e i r he hc hstood ↦ ?_⟩
  · have hread := leaves_customer h hasks he hc
    have hstands (hstood : Stood env.charges i r) := (customer_iff (b := b) r).mpr hstood
    refine ⟨fun hstood ↦ hstands hstood ▸ hread,
      fun a ha ↦ ⟨fun hleaves ↦ ?_, fun hstood ↦ hstands hstood ▸ hread⟩⟩
    -- What it has told and answered are those of both records.
    obtain ⟨-, htold, hanswer⟩ := hread.answered a ha
    obtain ⟨-, htold', hanswer'⟩ := hleaves.answered a ha
    have htells : i.driverId = r.booking.driverId := by
      simpa [customerRecord, CancellationInputs.at] using htold.symm.trans htold'
    have htier := congrArg BookingsService.BookingCancelResponse.tier (hanswer.symm.trans hanswer')
    exact ⟨htells, tier_iff.mp htier⟩
  · rw [← adminRecord_at hstood]
    exact leaves_admin h hasks he hc

/-- A cancellation that looks while the search goes on, and moves when the driver it
found has set out. -/
def sampleCancel : Request Unit := (BookingsService.cancel sampleEnv 1 0 ⟨none, none⟩).ignore

def sampleOvertaken : List (Request Unit) :=
  sampleAssigned.take 3 ++ [sampleCancel, OfferService.accept 0 7, JobExecutionService.markEnRoute 0 7]

theorem sampleOvertaken_operates : ∀ p ∈ sampleOvertaken, Operates sampleEnv p := by
  intro p hp
  rcases List.mem_append.mp hp with hp | hp
  · exact sampleAssigned_operates (List.mem_of_mem_take hp)
  · simp only [List.mem_cons, List.not_mem_nil, or_false] at hp
    rcases hp with rfl | rfl | rfl
    · exact .cancel 1 0 ⟨none, none⟩
    · exact .accept 0 7
    · exact .markEnRoute 0 7

/-- The cancellation has looked when the driver accepts. -/
def overtakenTurns : List ℕ :=
  [0, 1, 2].flatMap (List.replicate 20) ++ 3 :: [4, 5, 3].flatMap (List.replicate 20)

def sampleInputs : CancellationInputs := ⟨.searching, 0, 100000, none, none, 0⟩

/-- The move of that cancellation, from under a driver it never saw. -/
def overtaken (e : Event Step World) : Bool :=
  match e.label with
  | .move m => m.bookingId = 0 && m.cause = .customerCancel sampleInputs &&
      (e.before.moveError m).isNone && e.before.driverOf 0 = some 7
  | _ => false

theorem cancels_under_driver : ¬∀ (env : Env) (w₀ w : World) (cs : List (Call Step World Failure))
    (es : List (ℕ × Event Step World)), (∀ b, w₀.row b = none) → Calls (Operates env) w₀ cs w es →
      ∀ n userId b body, Asks cs n (BookingsService.cancel env userId b body) →
        ∀ k m e i r, Makes es k n e → Cancels b (.customerCancel i) r m e →
          Leaves es k n b m e (BookingsService.cancel env userId b body)
            (customerRecord env.charges b (i.at r)) := by
  intro h
  have hmove : ((tripsRun sampleOvertaken overtakenTurns).2.2[28]?).any
      (fun x ↦ decide (x.1 = 3) && overtaken x.2) = true := by decide +kernel
  obtain ⟨⟨n, e⟩, he, hover⟩ := (Option.any_eq_true _ _).mp hmove
  simp only [Bool.and_eq_true, decide_eq_true_eq] at hover
  obtain ⟨rfl, hover⟩ := hover
  have hasked : ((tripsRun sampleOvertaken overtakenTurns).1[3]?).map (·.asked) = some sampleCancel := by
    rw [← List.getElem?_map, tripsRun, takeTurns_asked]
    rfl
  obtain ⟨c, hc, hcancel⟩ := Option.map_eq_some_iff.mp hasked
  unfold overtaken at hover
  split at hover
  · rename_i m hl
    simp only [Bool.and_eq_true, decide_eq_true_eq, Option.isNone_iff_eq_none] at hover
    obtain ⟨⟨⟨hb, hcause⟩, hok⟩, hdriver⟩ := hover
    obtain ⟨r, hr, -⟩ := World.move_row hok
    rw [hb] at hr
    have hleaves := h sampleEnv World.blank _ _ _ (fun b ↦ rfl)
      (tripsRun_calls sampleOvertaken_operates overtakenTurns) 3 1 0 ⟨none, none⟩ ⟨c, hc, hcancel⟩ 28 m e
      sampleInputs r he ⟨hl, hcause, hok, hr⟩
    -- The driver to be told is nobody.
    have htold : told (own 3 ((tripsRun sampleOvertaken overtakenTurns).2.2.drop 29)) = [(0, none)] := by
      decide +kernel
    have htells := htold ▸ hleaves.tells
    rw [World.core_driverOf, World.core_some hr] at hdriver
    have hseven : r.booking.driverId = some 7 := hdriver
    simp [customerRecord, CancellationInputs.at, hseven] at htells
  · cases hover

/-- One that nobody overtakes. -/
def sampleCalm : List (Request Unit) := sampleAssigned ++ [sampleCancel]

theorem sampleCalm_operates : ∀ p ∈ sampleCalm, Operates sampleEnv p := by
  intro p hp
  rcases List.mem_append.mp hp with hp | hp
  · exact sampleAssigned_operates hp
  · cases List.mem_singleton.mp hp
    exact .cancel 1 0 ⟨none, none⟩

def calmRun := tripsRun sampleCalm ([0, 1, 2, 3, 4].flatMap (List.replicate 20))

theorem cancellations_record_sample :
    (∀ k m e i r, Makes calmRun.2.2 k 4 e → Cancels 0 (.customerCancel i) r m e →
      Stood sampleEnv.charges i r →
        Leaves calmRun.2.2 k 4 0 m e (BookingsService.cancel sampleEnv 1 0 ⟨none, none⟩)
          (customerRecord sampleEnv.charges 0 (i.at r))) ∧
    told (own 4 calmRun.2.2) = [(0, some 7)] := by
  have hasked : (calmRun.1[4]?).map (·.asked) = some sampleCancel := by
    rw [← List.getElem?_map, calmRun, tripsRun, takeTurns_asked]
    rfl
  obtain ⟨c, hc, hcancel⟩ := Option.map_eq_some_iff.mp hasked
  refine ⟨fun k m e i r he hcancels ↦ ?_, by decide +kernel⟩
  exact ((cancellations_record (tripsRun_calls sampleCalm_operates _)).1 4 1 0 ⟨none, none⟩ ⟨c, hc, hcancel⟩
    k m e i r he hcancels).1

end Towing.Trips
