import Towing.Trips.Operations

namespace Towing.Trips

open Towing.Process Towing.Money

/-- A row without the columns of its search and of its code. -/
def Row.core (r : Row) : Row :=
  { r with trip := { r.trip with
      searchWave := none
      dispatchDeadlineAt := none
      otpHash := none
      otpExpiresAt := 0
      otpAttempts := 0 } }

/-- What an accept locks. -/
structure Terms where
  driverId : ℕ
  fleetId : Option ℕ
  truckId : Option ℕ
  payModel : DriverPayModel
  sharePct : Option Pct
  deriving DecidableEq, Repr

namespace World

variable {w : World} {b c : ℕ} {m : Move} {l : Step} {env : Env} {g : ℕ → Prop}

def termsFor (w : World) (driverId : ℕ) (driver : Driver) : Terms :=
  let pay := w.payTermsForDriver driverId driver.fleetId
  ⟨driverId, driver.fleetId, driver.assignedTruckId, pay.1, pay.2⟩

/-- The terms a step locks on a booking, where it is an accept that goes through. -/
def accepted (w : World) (b : ℕ) : Step → Option Terms
  | .accept c d suspended =>
    if c = b ∧ (w.acceptOffer c d suspended).isOk then (w.drivers d).map (w.termsFor d) else none
  | _ => none

def core (w : World) (b : ℕ) : Option Row := (w.row b).map Row.core

theorem row_setRow (w : World) (b : ℕ) (r : Row) : (w.setRow b r).row b = some r := by
  simp [row, setRow]

theorem row_setRow_ne (r : Row) (h : c ≠ b) : (w.setRow b r).row c = w.row c := by
  simp [row, setRow, h]

theorem row_of_eq {w' : World} (hb : w'.money.bookings = w.money.bookings) (ht : w'.trips = w.trips) :
    w'.row b = w.row b := by
  simp only [row, hb, ht]

theorem core_setTrip {f : Trip → Trip} (h : ∀ r : Row, ({ r with trip := f r.trip } : Row).core = r.core) :
    (w.setTrip b f).core c = w.core c := by
  have hbook : (w.setTrip b f).money.bookings = w.money.bookings := rfl
  simp only [core, row, hbook, Option.map_map]
  congr 1
  funext r
  by_cases hc : c = b
  · subst hc
    simpa [setTrip] using h ⟨r, w.trips c⟩
  · simp [setTrip, hc]

theorem core_status : w.status b = (w.core b).map (·.booking.status) := by
  simp [status, core, row, Function.comp_def, Row.core]

theorem core_driverOf : w.driverOf b = (w.core b).bind (·.booking.driverId) := by
  cases h : w.money.bookings b <;> simp [driverOf, core, row, Row.core, h]

/-! What a move does. -/

theorem rowError_of_store {r : Row} (h : w.storeError b r = none) : rowError r = none := by
  unfold storeError at h
  cases hr : rowError r with
  | none => rfl
  | some e => simp [hr] at h

theorem clash_of_store {r : Row} (h : w.storeError b r = none) : w.clash b r = none := by
  simpa [storeError, rowError_of_store h] using h

theorem store_of_moveError {r : Row} (h : w.moveError m = none) (hr : w.row m.bookingId = some r) :
    w.storeError m.bookingId (movedRow m r) = none := by
  unfold moveError at h
  split at h
  · cases h
  · simpa [hr] using h

theorem legal_of_moveError (h : w.moveError m = none) : ∃ r, w.row m.bookingId = some r ∧
    m.target ∈ legalTransitions r.booking.status := by
  unfold moveError at h
  split at h
  · cases h
  · rename_i herr
    cases hr : w.money.bookings m.bookingId with
    | none => simp [Money.World.transitionError, hr] at herr
    | some r =>
      refine ⟨⟨r, w.trips m.bookingId⟩, by simp [row, hr], ?_⟩
      by_contra hl
      simp [Money.World.transitionError, hr, isLegal, hl] at herr

theorem move_eq (h : (w.moveError m).isSome) : w.move m = w := by
  unfold move
  cases he : w.moveError m with
  | none => simp [he] at h
  | some e => rfl

theorem move_row (h : w.moveError m = none) : ∃ r, w.row m.bookingId = some r ∧
    m.target ∈ legalTransitions r.booking.status ∧
    (w.move m).row m.bookingId = some (movedRow m r) := by
  obtain ⟨r, hr, hl⟩ := legal_of_moveError h
  refine ⟨r, hr, hl, ?_⟩
  rw [move, h, hr]
  exact row_setRow _ _ _

theorem move_row_ne (hc : c ≠ m.bookingId) : (w.move m).row c = w.row c := by
  unfold move
  split
  · rw [row_setRow_ne _ hc]
    refine row_of_eq ?_ rfl
    split_ifs
    · exact Money.World.releaseForBooking_bookings _
    · rfl
  · rfl

/-! What an accept does. -/

theorem acceptOffer_ok {d : ℕ} {suspended : Option ℕ} {w' : World} (h : w.acceptOffer b d suspended = .ok w') : ∃ driver,
    w.attempts.any (isOffered b d) ∧ w.drivers d = some driver ∧
      w.moveError (w.assignMove b d driver) = none ∧
      w' = (w.resolveOffer b d .accepted).move (w.assignMove b d driver) := by
  unfold acceptOffer at h
  split_ifs at h with hoffer
  split at h
  · cases h
  · rename_i driver hdriver
    split_ifs at h
    dsimp only at h
    split at h
    · cases h
    · rename_i hmove
      refine ⟨driver, by simpa using hoffer, hdriver, hmove, ?_⟩
      cases h
      rfl

theorem moveError_resolveOffer (d : ℕ) (outcome : AttemptOutcome) :
    (w.resolveOffer b d outcome).moveError m = w.moveError m := rfl

/-! What a creation does. -/

/-- `place` up to the coupon. -/
def inserted (w : World) (b : ℕ) (p : NewBooking) (money : Money.World) : World :=
  { w.setRow b (w.insertedRow p) with placed := w.placed ++ [b], money := money }

theorem place_ok {p : NewBooking} {w' : World} (h : w.place b p = .ok w') :
    w.row b = none ∧ w.storeError b (w.insertedRow p) = none ∧
      ∃ discountPaise couponId money,
        money.bookings = (w.setRow b (w.insertedRow p)).money.bookings ∧
        (w.setRow b (w.insertedRow p)).money.SameBut money ∧
        (w.inserted b p (w.setRow b (w.insertedRow p)).money).storeError b
          (pricedRow (w.insertedRow p) p.locked.totalPaise discountPaise couponId) = none ∧
        w' = (w.inserted b p money).setRow b
          (pricedRow (w.insertedRow p) p.locked.totalPaise discountPaise couponId) := by
  unfold place at h
  dsimp only at h
  split_ifs at h with hnew
  split at h
  · cases h
  rename_i hinsert
  refine ⟨by simpa using hnew, hinsert, ?_⟩
  cases hcode : p.couponCode with
  | none =>
    simp only [hcode, bind, Except.bind] at h
    split at h
    · cases h
    · rename_i hstore
      cases h
      exact ⟨0, none, _, rfl, .refl _, hstore, rfl⟩
  | some code =>
    simp only [hcode, bind, Except.bind] at h
    cases happly : Money.World.applyInTransaction (w.setRow b (w.insertedRow p)).money p.userId b
        code p.locked.totalPaise with
    | error e =>
      rw [happly] at h
      cases h
    | ok applied =>
      obtain ⟨id, discount, money⟩ := applied
      rw [happly] at h
      dsimp only at h
      split at h
      · cases h
      · rename_i hstore
        cases h
        have hsame := Money.World.applyInTransaction_same happly
        exact ⟨discount, some id, money, hsame.2, hsame.1, hstore, rfl⟩

theorem place_row_ne {p : NewBooking} {w' : World} (h : w.place b p = .ok w') (hc : c ≠ b) :
    w'.row c = w.row c := by
  obtain ⟨-, -, discount, couponId, money, hbook, -, -, rfl⟩ := place_ok h
  have hinner := row_setRow_ne (w := w) (w.insertedRow p) hc
  rw [row_setRow_ne _ hc, ← hinner]
  exact row_of_eq hbook rfl

theorem place_row {p : NewBooking} {w' : World} (h : w.place b p = .ok w') :
    ∃ discountPaise couponId, w'.row b =
      some (pricedRow (w.insertedRow p) p.locked.totalPaise discountPaise couponId) ∧
      rowError (pricedRow (w.insertedRow p) p.locked.totalPaise discountPaise couponId) = none := by
  obtain ⟨-, -, discount, couponId, money, -, -, hstore, rfl⟩ := place_ok h
  exact ⟨discount, couponId, row_setRow _ _ _, rowError_of_store hstore⟩

theorem attempts_place {p : NewBooking} {w' : World} (h : w.place b p = .ok w') :
    w'.attempts = w.attempts := by
  obtain ⟨-, -, discount, couponId, money, -, -, -, rfl⟩ := place_ok h
  rfl

/-- What a step can do to the row of a booking. -/
inductive Shift (env : Env) (g : ℕ → Prop) (w : World) (b : ℕ) : Step → Option Row → Prop
  | same {l : Step} (h : w.accepted b l = none) : Shift env g w b l (w.core b)
  | create (p : NewBooking) (discountPaise : ℤ) (couponId : Option ℕ) (hnew : w.row b = none)
      (he : rowError (pricedRow (w.insertedRow p) p.locked.totalPaise discountPaise couponId) = none) :
      Shift env g w b (.create b p)
        (some (pricedRow (w.insertedRow p) p.locked.totalPaise discountPaise couponId).core)
  | reprice {l : Money.Step} {r : Row} (hl : l.table = .fares) (hr : w.row b = some r)
      (hs : r.booking.status = .completed) (hcap : w.money.capturedFor b .booking = none)
      (couponId : Option ℕ) (discount : ℤ) :
      Shift env g w b (.money l)
        (some ({ r with booking := reprice r.booking couponId discount } : Row).core)
  | paid {patch : BookingPatch} {on : Option (Settling × Option ℕ)} {r : Row} (hr : w.row b = some r)
      (hl : .paid ∈ legalTransitions r.booking.status) (hg : g b) :
      Shift env g w b (.money (.transition b .paid patch on))
        (some ({ r with booking := Money.World.applyPatch r.booking .paid patch } : Row).core)
  | move {m : Move} {r : Row} (hm : Sanctioned env g m) (hb : m.bookingId = b) (hr : w.row b = some r)
      (he : w.moveError m = none) (hl : m.target ∈ legalTransitions r.booking.status) :
      Shift env g w b (.move m) (some (movedRow m r).core)
  | accept {d : ℕ} {suspended : Option ℕ} {driver : Driver} {r : Row} (hr : w.row b = some r)
      (ho : w.attempts.any (isOffered b d)) (hs : r.booking.status = .searching)
      (hterms : w.accepted b (.accept b d suspended) = some (w.termsFor d driver)) :
      Shift env g w b (.accept b d suspended) (some (movedRow (w.assignMove b d driver) r).core)
  | dispute {openedFrom : BookingStatus} {r : Row} (hr : w.row b = some r)
      (hl : .disputed ∈ legalTransitions r.booking.status) :
      Shift env g w b (.openDispute b openedFrom)
        (some ({ r with booking := { r.booking with status := .disputed } } : Row).core)

theorem core_of_row {w' : World} (h : w'.row b = w.row c) : w'.core b = w.core c :=
  congrArg (Option.map Row.core) h

theorem core_some {r : Row} (h : w.row b = some r) : w.core b = some r.core := by
  simp [core, h]

theorem shift_still {l : Money.Step} (h : Still l) :
    Shift env g w b (.money l) ((w.run (.money l)).core b) := by
  by_cases hf : l.table = .fares
  · rcases (Money.World.run_fares (w := w.money) hf).2 with
      hb | ⟨c, r, coupon, d, hr, hs, hcap, hb⟩
    · have hrow : (w.run (.money l)).row b = w.row b := row_of_eq hb rfl
      rw [core_of_row hrow]
      exact .same rfl
    · by_cases hc : b = c
      · subst hc
        have hrow : (w.run (.money l)).row b =
            some { booking := Money.reprice r coupon d, trip := w.trips b } := by
          simp [row, run, hb]
        rw [core_some hrow]
        exact .reprice (r := ⟨r, w.trips b⟩) hf (by simp [row, hr]) hs hcap coupon d
      · have hrow : (w.run (.money l)).row b = w.row b := by simp [row, run, hb, hc]
        rw [core_of_row hrow]
        exact .same rfl
  · have hrow : (w.run (.money l)).row b = w.row b :=
      row_of_eq (Money.World.run_bookings h hf) rfl
    rw [core_of_row hrow]
    exact .same rfl

theorem shift_paid (patch : BookingPatch) (on : Option (Settling × Option ℕ)) (hg : g c) :
    Shift env g w b (.money (.transition c .paid patch on))
      ((w.run (.money (.transition c .paid patch on))).core b) := by
  by_cases herr : (w.money.transitionError c .paid patch).isSome
  · have : w.run (.money (.transition c .paid patch on)) = w := by
      simp [run, Money.World.run, Money.World.transition, herr]
    rw [this]
    exact .same rfl
  · cases hr : w.money.bookings c with
    | none => simp [Money.World.transitionError, hr] at herr
    | some r =>
      have hl : .paid ∈ legalTransitions r.status := by
        by_contra hl
        simp [Money.World.transitionError, hr, isLegal, hl] at herr
      have hrun : (w.money.run (.transition c .paid patch on)).bookings =
          Function.update w.money.bookings c (some (Money.World.applyPatch r .paid patch)) := by
        simp only [Money.World.run, Money.World.transition, herr, Bool.false_eq_true, if_false,
          Money.World.updateBooking, hr, Option.map_some]
      by_cases hb : b = c
      · subst hb
        have hrow : (w.run (.money (.transition b .paid patch on))).row b =
            some { booking := Money.World.applyPatch r .paid patch, trip := w.trips b } := by
          simp [row, hrun, run]
        rw [core_some hrow]
        exact .paid (r := ⟨r, w.trips b⟩) (by simp [row, hr]) hl hg
      · have hrow : (w.run (.money (.transition c .paid patch on))).row b = w.row b := by
          simp [row, hrun, hb, run]
        rw [core_of_row hrow]
        exact .same rfl

theorem shift_move (hm : Sanctioned env g m) : Shift env g w b (.move m) ((w.move m).core b) := by
  by_cases hb : b = m.bookingId
  · cases he : w.moveError m with
    | some e =>
      rw [move_eq (by simp [he])]
      exact .same rfl
    | none =>
      obtain ⟨r, hr, hl, hrow⟩ := move_row he
      subst hb
      rw [core_some hrow]
      exact .move hm rfl hr he hl
  · rw [core_of_row (move_row_ne hb)]
    exact .same rfl

theorem shift_accept (d : ℕ) (suspended : Option ℕ) :
    Shift env g w b (.accept c d suspended) ((w.run (.accept c d suspended)).core b) := by
  cases h : w.acceptOffer c d suspended with
  | error e =>
    simp only [run, h, Except.toOption, Option.getD_none]
    exact .same (by simp [accepted, h, Except.isOk, Except.toBool])
  | ok w' =>
    obtain ⟨driver, ho, hd, he, rfl⟩ := acceptOffer_ok h
    simp only [run, h, Except.toOption, Option.getD_some]
    by_cases hb : b = c
    · subst hb
      rw [← moveError_resolveOffer d .accepted] at he
      obtain ⟨r, hr, hl, hrow⟩ := move_row he
      have hs : r.booking.status = .searching := by
        revert hl
        cases r.booking.status <;> simp [assignMove, legalTransitions]
      have hrow' : ((w.resolveOffer b d .accepted).move (w.assignMove b d driver)).row b =
          some (movedRow (w.assignMove b d driver) r) := hrow
      rw [core_some hrow']
      exact .accept hr ho hs (by simp [accepted, h, hd, Except.isOk, Except.toBool])
    · rw [core_of_row (move_row_ne hb)]
      exact .same (by simp [accepted, Ne.symm hb])

theorem shift_openDispute (openedFrom : BookingStatus) :
    Shift env g w b (.openDispute c openedFrom) ((w.run (.openDispute c openedFrom)).core b) := by
  simp only [run]
  split_ifs with herr
  · exact .same rfl
  · have he : w.moveError ⟨c, .disputed, .nothing, false, .openDispute⟩ = none := by
      unfold openDisputeError at herr
      split_ifs at herr
      · simp at herr
      · simpa using herr
    change Shift env g w b _ ((w.move ⟨c, .disputed, .nothing, false, .openDispute⟩).core b)
    by_cases hb : b = c
    · subst hb
      obtain ⟨r, hr, hl, hrow⟩ := move_row he
      rw [core_some hrow]
      exact .dispute hr hl
    · rw [core_of_row (move_row_ne (m := ⟨c, .disputed, .nothing, false, .openDispute⟩) hb)]
      exact .same rfl

theorem shift_create (p : NewBooking) :
    Shift env g w b (.create c p) ((w.run (.create c p)).core b) := by
  cases h : w.place c p with
  | error e =>
    simp only [run, h, Except.toOption, Option.getD_none]
    exact .same rfl
  | ok w' =>
    simp only [run, h, Except.toOption, Option.getD_some]
    by_cases hb : b = c
    · subst hb
      obtain ⟨discount, couponId, hr, he⟩ := place_row h
      rw [core_some hr]
      exact .create p discount couponId (place_ok h).1 he
    · rw [core_of_row (place_row_ne h hb)]
      exact .same rfl

theorem core_aside (h : l.aside = true) : (w.run l).core b = w.core b := by
  cases l with
  | verifyOtp c => exact core_setTrip fun r ↦ rfl
  | setWaveState c wave deadlineAt => exact core_setTrip fun r ↦ rfl
  | mintOtp c hash expiresAt => exact core_setTrip fun r ↦ rfl
  | takeSearchLock | takeOfferLock | enqueue =>
    simp only [run]
    split_ifs <;> rfl
  | money | create | move | accept | openDispute =>
    simp [Step.aside, Step.ambient] at h
  | _ => rfl

/-- A step issued by the operations changes a booking's row in no other way. -/
theorem shift_run (h : Issued env g l) : Shift env g w b l ((w.run l).core b) := by
  cases h with
  | still h => exact shift_still h
  | paid c patch on hg => exact shift_paid patch on hg
  | create c p => exact shift_create p
  | move hm => exact shift_move hm
  | accept c d suspended => exact shift_accept d suspended
  | openDispute c openedFrom => exact shift_openDispute openedFrom
  | aside h =>
    rw [core_aside h]
    refine .same ?_
    cases l <;> simp_all [accepted, Step.aside, Step.ambient]

/-! The attempts. -/

theorem attempts_move : (w.move m).attempts = w.attempts := by
  unfold move
  split <;> rfl

/-- An accepted attempt stays one. -/
theorem attempts_accepted {a : Attempt} (h : a ∈ w.attempts) (ha : a.outcome = .accepted) (l : Step) :
    a ∈ (w.run l).attempts := by
  have hmap (f : Attempt → Attempt) (hf : f a = a) : a ∈ w.attempts.map f :=
    List.mem_map.mpr ⟨a, h, hf⟩
  have hresolve (c d : ℕ) (outcome : AttemptOutcome) : a ∈ (w.resolveOffer c d outcome).attempts :=
    hmap _ (by simp [isOffered, ha])
  cases l with
  | create c p =>
    cases hp : w.place c p with
    | error e => simpa [run, hp, Except.toOption] using h
    | ok w' => simpa [run, hp, Except.toOption, attempts_place hp] using h
  | move m => rwa [run, attempts_move]
  | accept c d suspended =>
    cases hp : w.acceptOffer c d suspended with
    | error e => simpa [run, hp, Except.toOption] using h
    | ok w' =>
      obtain ⟨driver, -, -, -, rfl⟩ := acceptOffer_ok hp
      simpa [run, hp, Except.toOption, attempts_move] using hresolve c d .accepted
  | resolveOffer c d outcome => exact hresolve c d outcome
  | revokeOutstanding c d => exact hmap _ (by simp [ha])
  | insertAttempt a' => exact List.mem_append_left _ h
  | openDispute c openedFrom =>
    simp only [run]
    split_ifs
    · exact h
    · rwa [attempts_move]
  | takeSearchLock | takeOfferLock | enqueue =>
    simp only [run]
    split_ifs <;> exact h
  | _ => exact h

/-- The accept leaves the attempt it claims accepted. -/
theorem attempts_accept {d : ℕ} {suspended : Option ℕ} {terms : Terms}
    (h : w.accepted b (.accept b d suspended) = some terms) :
    ∃ a ∈ (w.run (.accept b d suspended)).attempts,
      a.bookingId = b ∧ a.driverId = terms.driverId ∧ a.outcome = .accepted := by
  cases hp : w.acceptOffer b d suspended with
  | error e => simp [accepted, hp, Except.isOk, Except.toBool] at h
  | ok w' =>
    obtain ⟨driver, ho, hd, -, rfl⟩ := acceptOffer_ok hp
    obtain rfl : w.termsFor d driver = terms := by
      simpa [accepted, hp, hd, Except.isOk, Except.toBool] using h
    obtain ⟨a, ha, hoffer⟩ := List.any_eq_true.mp ho
    refine ⟨{ a with outcome := .accepted }, ?_, ?_⟩
    · simp only [run, hp, Except.toOption, Option.getD_some, attempts_move]
      exact List.mem_map.mpr ⟨a, ha, by simp [hoffer]⟩
    · simp only [isOffered, Bool.and_eq_true, decide_eq_true_eq] at hoffer
      exact ⟨hoffer.1.1, hoffer.1.2, rfl⟩

end World

/-- The accepts that have gone through on a booking, as they locked it. -/
def accepts (b : ℕ) (es : List (Event Step World)) : List Terms :=
  es.filterMap fun e ↦ e.before.accepted b e.label

end Towing.Trips
