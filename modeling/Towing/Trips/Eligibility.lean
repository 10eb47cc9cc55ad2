import Towing.Trips.Footprints
import Towing.Trips.Shifts
import Towing.Process.Moments

namespace Towing.Trips

open Towing.Process Towing.Money

inductive VehicleClass
  | wheelLift
  | flatbed
  deriving DecidableEq, Repr

inductive ServiceType
  | tow
  | battery
  | flatTyre
  | fuel
  | breakdown
  | accidentRecovery
  | lockout
  | winchOut
  deriving DecidableEq, Repr

def isCoreServiceType (s : ServiceType) : Bool := s = .tow || s = .accidentRecovery

inductive TruckStatus
  | active
  | inactive
  | nonCompliant
  deriving DecidableEq, Repr

/-- The trips, with what a driver can take and a customer asks for. -/
structure Supply where
  trips : World
  vehicleClass : ℕ → Option VehicleClass
  longDistanceEnabled : ℕ → Bool
  services : ℕ → List ServiceType
  /-- `driver_zone_restrictions`, by driver. -/
  zoneRestrictions : ℕ → List ℕ
  truckStatus : ℕ → TruckStatus
  bookingClass : ℕ → VehicleClass
  serviceType : ℕ → ServiceType

inductive SupplyStep
  | trips (l : Step)
  | setCapabilities (driverId : ℕ) (vehicleClass : Option VehicleClass) (longDistanceEnabled : Bool)
      (services : List ServiceType)
  | replaceZoneRestrictions (driverId : ℕ) (zoneIds : List ℕ)
  | setTruckStatus (truckId : ℕ) (status : TruckStatus)

structure DispatchBookingRow where
  vehicleClass : VehicleClass
  serviceType : ServiceType
  longDistance : Bool
  deriving DecidableEq, Repr

structure DriverEligibilityRow where
  kycApproved : Bool
  isOnline : Bool
  vehicleClass : Option VehicleClass
  longDistanceEnabled : Bool
  services : List ServiceType
  truckStatus : Option TruckStatus
  suspensionPending : Bool
  fleetSuspended : Bool
  zoneRestricted : Bool
  hasActiveJob : Bool
  deriving DecidableEq, Repr

inductive ExclusionReason
  | notApproved
  | suspensionPending
  | fleetSuspended
  | offline
  | wrongVehicleClass
  | serviceNotOffered
  | noLongDistance
  | zoneRestricted
  | truckNonCompliant
  | alreadyOnJob
  deriving DecidableEq, Repr

/-- The filters of `select` on a driver who has not been asked yet, in their order. -/
def exclusion (booking : DispatchBookingRow) (row : DriverEligibilityRow) : Option ExclusionReason :=
  if !row.kycApproved then some .notApproved
  else if row.suspensionPending then some .suspensionPending
  else if row.fleetSuspended then some .fleetSuspended
  else if !row.isOnline then some .offline
  else if row.vehicleClass ≠ some booking.vehicleClass then some .wrongVehicleClass
  else if !isCoreServiceType booking.serviceType && !row.services.contains booking.serviceType then
    some .serviceNotOffered
  else if booking.longDistance && !row.longDistanceEnabled then some .noLongDistance
  else if row.zoneRestricted then some .zoneRestricted
  else if row.truckStatus = some .nonCompliant then some .truckNonCompliant
  else if row.hasActiveJob then some .alreadyOnJob
  else none

/-- The filters that `accept` does not run again. -/
def suits (booking : DispatchBookingRow) (row : DriverEligibilityRow) : Bool :=
  decide (row.vehicleClass = some booking.vehicleClass) &&
    (isCoreServiceType booking.serviceType || row.services.contains booking.serviceType) &&
    (!booking.longDistance || row.longDistanceEnabled) && !row.zoneRestricted &&
    decide (row.truckStatus ≠ some .nonCompliant)

theorem exclusion_none_iff {booking : DispatchBookingRow} {row : DriverEligibilityRow} :
    exclusion booking row = none ↔ row.kycApproved = true ∧ row.isOnline = true ∧
      row.fleetSuspended = false ∧ row.suspensionPending = false ∧ row.hasActiveJob = false ∧
      suits booking row = true := by
  have hfilter {c : Prop} [Decidable c] (why : ExclusionReason) (rest : Option ExclusionReason) :
      (if c then some why else rest) = none ↔ ¬c ∧ rest = none := by
    split_ifs with h <;> simp [h]
  simp only [exclusion, suits, hfilter, Bool.not_eq_true', Bool.and_eq_true, Bool.or_eq_true,
    decide_eq_true_eq, not_and, Bool.not_eq_true, Bool.not_eq_false, not_not, and_true]
  grind

namespace Supply

variable (w : Supply)

def run : SupplyStep → Supply
  | .trips l => { w with trips := w.trips.run l }
  | .setCapabilities d vehicleClass longDistanceEnabled services =>
    { w with
      vehicleClass := Function.update w.vehicleClass d vehicleClass
      longDistanceEnabled := Function.update w.longDistanceEnabled d longDistanceEnabled
      services := Function.update w.services d services }
  | .replaceZoneRestrictions d zoneIds =>
    { w with zoneRestrictions := Function.update w.zoneRestrictions d zoneIds }
  | .setTruckStatus t status => { w with truckStatus := Function.update w.truckStatus t status }

def bookingRow (b : ℕ) : DispatchBookingRow :=
  ⟨w.bookingClass b, w.serviceType b, (w.trips.row b).any (·.booking.commissionBand = some .C)⟩

/-- Whether a booking under way is the driver's. -/
def hasActiveJob (d : ℕ) : Bool :=
  w.trips.placed.any fun b ↦ (w.trips.row b).any fun r ↦
    r.booking.driverId = some d && activeForDriver r.booking.status

/-- Whether the booking is in a zone that the driver is kept out of. -/
def zoneRestricted (b d : ℕ) : Bool :=
  (w.trips.trips b).zoneId.any fun z ↦ (w.zoneRestrictions d).contains z

/-- The row of the wave's batched query, if there is such a driver. -/
def eligibility (b d : ℕ) : Option DriverEligibilityRow :=
  (w.trips.drivers d).map fun driver ↦
    { kycApproved := driver.kycApproved
      isOnline := driver.isOnline
      vehicleClass := w.vehicleClass d
      longDistanceEnabled := w.longDistanceEnabled d
      services := w.services d
      truckStatus := driver.assignedTruckId.map w.truckStatus
      suspensionPending := driver.suspensionPending
      fleetSuspended := driver.fleetId.any w.trips.fleetSuspended
      zoneRestricted := w.zoneRestricted b d
      hasActiveJob := w.hasActiveJob d }

/-- Whether a selection for the booking would let the driver through. -/
def eligible (b d : ℕ) : Bool := (w.eligibility b d).any fun row ↦ exclusion (w.bookingRow b) row = none

/-- Whether the driver passes the filters that `accept` does not run again. -/
def suited (b d : ℕ) : Bool := (w.eligibility b d).any fun row ↦ suits (w.bookingRow b) row

end Supply

instance : Store SupplyStep Supply where
  commit l w := w.run l

abbrev SupplyRequest (α : Type) := Proc SupplyStep Supply Failure α

def onSupply {α : Type} (q : Request α) : SupplyRequest α := q.lift SupplyStep.trips Supply.trips

def SupplyStep.ambient : SupplyStep → Bool
  | .trips _ => false
  | _ => true

/-- The operations on the trips, while the drivers' facts change. -/
inductive Supplies (env : Env) : SupplyRequest Unit → Prop
  | operates {q : Request Unit} (h : Operates env q) : Supplies env (onSupply q)
  | changes (l : SupplyStep) (h : l.ambient = true) : Supplies env (Proc.write l)

/-- An accept that commits. -/
def Assigns (b d : ℕ) (e : Event SupplyStep Supply) : Prop :=
  ∃ suspended, e.label = .trips (.accept b d suspended) ∧ (e.before.trips.acceptOffer b d suspended).isOk

/-- The fleet that the driver is in is suspended, and the request, at its commit before
this one, has not read so. -/
def SuspendedSince (past : List (Event SupplyStep Supply)) (w : Supply) (d : ℕ) : Prop :=
  w.trips.suspendedFleet d ≠ none ∧
    ∀ r, past.getLast? = some r → r.before.trips.suspendedFleet d ≠ w.trips.suspendedFleet d

variable {b d : ℕ} {suspended : Option ℕ}

/-- What the transaction of `accept` has checked of the driver. -/
theorem World.acceptOffer_driver {w w' : World} (h : w.acceptOffer b d suspended = .ok w') : ∃ driver,
    w.drivers d = some driver ∧ driver.kycApproved = true ∧ driver.isOnline = true ∧
      driver.fleetId.any (some · = suspended) = false ∧ driver.suspensionPending = false := by
  unfold World.acceptOffer at h
  split_ifs at h
  split at h
  · cases h
  · rename_i driver hdriver
    split_ifs at h with hready hstanding
    simp only [Bool.or_eq_true, Bool.not_eq_true', not_or, Bool.not_eq_false] at hready
    simp only [Bool.or_eq_true, not_or, Bool.not_eq_true] at hstanding
    exact ⟨driver, hdriver, hready.1, hready.2, hstanding.1, hstanding.2⟩

theorem searching_of_assigned {s : BookingStatus} (h : .assigned ∈ legalTransitions s) :
    s = .searching := by
  cases s <;> simp_all [legalTransitions]

/-- The index on the driver's bookings under way lets no second one in. -/
theorem hasActiveJob_of_accept {w : Supply} {w' : World} (h : w.trips.acceptOffer b d suspended = .ok w') :
    w.hasActiveJob d = false := by
  obtain ⟨driver, -, -, hmove, -⟩ := World.acceptOffer_ok h
  obtain ⟨r, hr, hlegal⟩ := World.legal_of_moveError hmove
  have hsearching : r.booking.status = .searching := searching_of_assigned hlegal
  have hclash := World.clash_of_store (World.store_of_moveError hmove hr)
  unfold World.clash at hclash
  split_ifs at hclash with huser hdriver
  unfold Supply.hasActiveJob
  rw [List.any_eq_false]
  intro b' hb' hactive
  obtain ⟨r', hr', hjob⟩ := (Option.any_eq_true _ _).mp hactive
  simp only [Bool.and_eq_true, decide_eq_true_eq] at hjob
  by_cases hb : b' = b
  · subst hb
    obtain rfl : r = r' := Option.some.inj (hr.symm.trans hr')
    rw [hsearching] at hjob
    exact absurd hjob.2 (by decide)
  · refine hdriver ?_
    rw [Bool.and_eq_true]
    refine ⟨rfl, List.any_eq_true.mpr ⟨b', hb', ?_⟩⟩
    have hne : b' ≠ (w.trips.assignMove b d driver).bookingId := hb
    rw [Bool.and_eq_true]
    refine ⟨decide_eq_true hne, (Option.any_eq_true _ _).mpr ⟨r', hr', ?_⟩⟩
    rw [Bool.and_eq_true, Bool.and_eq_true]
    exact ⟨⟨hjob.2, rfl⟩, decide_eq_true hjob.1⟩

theorem World.suspendedFleet_of_driver {w : World} {driver : Driver} (h : w.drivers d = some driver) :
    w.suspendedFleet d = driver.fleetId.filter w.fleetSuspended := by
  rw [World.suspendedFleet, h]
  rfl

/-- Of a driver who gets the booking, `accept` has read all but these. -/
theorem eligible_iff_suited {w : Supply} {w' : World} (h : w.trips.acceptOffer b d suspended = .ok w') :
    w.eligible b d = true ↔ w.suited b d = true ∧ w.trips.suspendedFleet d = none := by
  obtain ⟨driver, hdriver, hkyc, honline, -, hshelf⟩ := World.acceptOffer_driver h
  have hjob := hasActiveJob_of_accept h
  have hfleet : driver.fleetId.any w.trips.fleetSuspended = false ↔ w.trips.suspendedFleet d = none := by
    rw [World.suspendedFleet_of_driver hdriver]
    cases driver.fleetId <;> simp
  simp only [Supply.eligible, Supply.suited, Supply.eligibility, hdriver, Option.map_some, Option.any_some,
    exclusion_none_iff, hkyc, honline, hshelf, hjob, decide_eq_true_eq, true_and, hfleet]
  exact and_comm

/-- A fleet that was read suspended is not the driver's. -/
theorem suspendedFleet_ne_read {w w' : World} (h : w.acceptOffer b d suspended = .ok w')
    (hfleet : w.suspendedFleet d ≠ none) : suspended ≠ w.suspendedFleet d := by
  rintro rfl
  obtain ⟨driver, hdriver, -, -, hread, -⟩ := World.acceptOffer_driver h
  rw [World.suspendedFleet_of_driver hdriver] at hfleet hread
  cases hid : driver.fleetId with
  | none => exact hfleet (by rw [hid]; rfl)
  | some f =>
    rw [hid] at hfleet hread
    cases hsusp : w.fleetSuspended f with
    | false => exact hfleet (by simp [hsusp])
    | true => exact absurd hread (by simp [Option.filter, hsusp])

/-! What an accept goes by. -/

/-- An accept goes by the status that its request has read of the driver's fleet just before. -/
def FleetRead (past : List (Event Step World)) (l : Step) : Prop :=
  ∀ b d suspended, l = .accept b d suspended →
    ∃ pre r, past = pre ++ [r] ∧ r.before.suspendedFleet d = suspended

theorem fleetRead_avoids {α : Type} {q : Request α} {past : List (Event Step World)} (h : Avoids .accept q) :
    q.Heeds FleetRead (fun _ _ ↦ True) past :=
  Proc.Heeds.of_only (R := fun _ ↦ True) h (fun _ _ _ hl _ _ _ heq ↦ absurd (by rw [heq]; rfl) hl)
    (fun _ _ _ ↦ trivial) trivial

theorem fleetRead_accept (b d : ℕ) : (OfferService.accept b d).Heeds FleetRead (fun _ _ ↦ True) [] := by
  refine Proc.Heeds.bind (fleetRead_avoids (avoids_read _)) (fun found past _ ↦ ?_) fun _ _ _ ↦ trivial
  cases found with
  | none => trivial
  | some r =>
    refine Proc.Heeds.bind (Q := fun _ _ ↦ True) (Proc.Heeds.when (fun _ ↦ trivial) fun _ ↦ trivial)
      (fun _ past _ ↦ ?_) fun _ _ _ ↦ trivial
    refine ⟨fun _ _ _ h ↦ (by cases h), fun s ↦ ⟨fun b' d' suspended h ↦ ?_, fun t ↦ ?_⟩⟩
    · cases h
      exact ⟨past, _, rfl, rfl⟩
    · refine fleetRead_avoids (Proc.Only.bind trivial fun _ ↦ ?_)
      refine Proc.Only.bind (avoids_attempt (by simp [Step.kind])) fun losers ↦ ?_
      exact (avoids_releaseEach (by simp) losers).bind fun _ ↦ avoids_attempt (by simp [Step.kind])

variable {env : Env}

theorem fleetRead_operates {q : Request Unit} (h : Operates env q) : q.Heeds FleetRead (fun _ _ ↦ True) [] := by
  rcases operates_avoids .accept h with h | h
  · exact fleetRead_avoids h
  · cases h with
    | accept b d => exact fleetRead_accept b d
    | runJob id ranked retryMs hk => exact absurd rfl hk.2
    | reassign b mode driverFault hk => exact absurd rfl hk.2.1
    | unable b d reason hk => simp at hk
    | resolve b d outcome hk => simp at hk
    | revokeDrivers b ds hk => simp at hk

/-- The same over all that is stored. -/
def FleetReadIn (past : List (Event SupplyStep Supply)) (l : SupplyStep) : Prop :=
  ∀ b d suspended, l = .trips (.accept b d suspended) →
    ∃ r, past.getLast? = some r ∧ r.before.trips.suspendedFleet d = suspended

theorem fleetRead_supplies {p : SupplyRequest Unit} (h : Supplies env p) :
    p.Heeds FleetReadIn (fun _ _ ↦ True) [] := by
  cases h with
  | operates hq =>
    refine (fleetRead_operates hq).lift .nil (fun past past' l hpast hread b d suspended heq ↦ ?_)
      fun _ _ _ _ _ ↦ trivial
    cases heq
    obtain ⟨pre, r, rfl, hr⟩ := hread b d suspended rfl
    have hlast := List.forall₂_reverse_iff.mpr hpast
    rw [List.reverse_append, List.reverse_singleton, List.singleton_append] at hlast
    obtain ⟨r', pre', hembeds, -, hpre⟩ := List.forall₂_cons_left_iff.mp hlast
    refine ⟨r', ?_, by rw [← hembeds.before, hr]⟩
    rw [← List.head?_reverse, hpre, List.head?_cons]
  | changes l hl => exact ⟨fun _ _ _ heq ↦ (by rw [heq] at hl; cases hl), fun _ ↦ trivial⟩

variable {s₀ w : Supply} {cs : List (Call SupplyStep Supply Failure)}
  {es : List (ℕ × Event SupplyStep Supply)}

/-- Whoever is assigned would be selected at that moment exactly if their class, their
services, their long distances, their zones and their truck still suit the booking, and
their fleet has not been suspended since the request read of it. -/
theorem assigned_eligible_iff (h : Calls (Supplies env) s₀ cs w es) :
    ∀ i n e, Makes es i n e → ∀ b d, Assigns b d e → (e.before.eligible b d = true ↔
      e.before.suited b d = true ∧ ¬SuspendedSince (own n (es.take i)) e.before d) := by
  rintro i n e he b d ⟨suspended, hlabel, hok⟩
  cases haccept : e.before.trips.acceptOffer b d suspended with
  | error f => simp [haccept, Except.isOk, Except.toBool] at hok
  | ok w' =>
    rw [eligible_iff_suited haccept]
    refine and_congr_right fun _ ↦ ⟨fun hnone hsince ↦ hsince.1 hnone, fun hnot ↦ ?_⟩
    obtain ⟨r, hlast, hread⟩ := h.heeds_own (fun _ hp ↦ fleetRead_supplies hp) he b d suspended hlabel
    by_contra hfleet
    refine hnot ⟨hfleet, fun r' hr' ↦ ?_⟩
    obtain rfl := Option.some.inj (hlast.symm.trans hr')
    rw [hread]
    exact suspendedFleet_ne_read haccept hfleet

/-- A fleet's driver with a truck, and a customer near by. -/
def Supply.sample : Supply where
  trips := World.blank
  vehicleClass _ := some .flatbed
  longDistanceEnabled _ := false
  services _ := []
  zoneRestrictions _ := []
  truckStatus _ := .active
  bookingClass _ := .flatbed
  serviceType _ := .tow

/-- The truck's papers run out between the offer and the accept. -/
def sampleExpired : List (SupplyRequest Unit) :=
  [onSupply (Proc.write (.setDriver 7 (some ⟨true, true, some 2, some 3, false⟩))),
    onSupply (BookingsService.create 0 sampleBooking),
    onSupply (DispatchService.runJob sampleEnv (.dispatch 0) [7] none),
    Proc.write (.setTruckStatus 3 .nonCompliant), onSupply (OfferService.accept 0 7)]

theorem sampleExpired_supplies : ∀ p ∈ sampleExpired, Supplies sampleEnv p := by
  simp only [sampleExpired, List.forall_mem_cons, List.not_mem_nil, false_imp_iff, forall_true_iff,
    and_true]
  exact ⟨.operates (.ambient _ rfl), .operates (.create _ _), .operates (.runJob _ _ _),
    .changes _ rfl, .operates (.accept _ _)⟩

/-- They come one after the other. -/
def supplyRun (ps : List (SupplyRequest Unit)) :
    List (Call SupplyStep Supply Failure) × Supply × List (ℕ × Event SupplyStep Supply) :=
  takeTurns ((List.range ps.length).flatMap (List.replicate 20)) (ps.map fun p ↦ ⟨p, p⟩) Supply.sample

theorem supplyRun_calls {ps : List (SupplyRequest Unit)} (hps : ∀ p ∈ ps, Supplies sampleEnv p) :
    Calls (Supplies sampleEnv) Supply.sample (supplyRun ps).1 (supplyRun ps).2.1 (supplyRun ps).2.2 := by
  have hstart : Calls (Supplies sampleEnv) Supply.sample [] Supply.sample [] := .start
  exact (hstart.askAll hps).takeTurns _

/-- An accept that assigns driver 7 to booking 0. -/
def assignsSample (e : Event SupplyStep Supply) : Bool :=
  match e.label with
  | .trips (.accept 0 7 suspended) => (e.before.trips.acceptOffer 0 7 suspended).isOk
  | _ => false

theorem assigns_of_sample {e : Event SupplyStep Supply} (h : assignsSample e = true) :
    Assigns 0 7 e := by
  unfold assignsSample at h
  split at h
  · exact ⟨_, ‹_›, h⟩
  · cases h

theorem assigned_unfit : ¬∀ (env : Env) (s₀ w : Supply) (cs : List (Call SupplyStep Supply Failure))
    (es : List (ℕ × Event SupplyStep Supply)), Calls (Supplies env) s₀ cs w es →
      ∀ i n e, Makes es i n e → ∀ b d, Assigns b d e → e.before.eligible b d = true := by
  intro h
  have hany : (supplyRun sampleExpired).2.2.any fun x ↦
      assignsSample x.2 && !x.2.before.eligible 0 7 = true := by
    decide +kernel
  obtain ⟨⟨n, e⟩, he, hbad⟩ := List.any_eq_true.mp hany
  obtain ⟨i, hi⟩ := List.mem_iff_getElem?.mp he
  rw [Bool.and_eq_true, Bool.not_eq_true'] at hbad
  have heligible := h sampleEnv _ _ _ _ (supplyRun_calls sampleExpired_supplies) i n e hi 0 7
    (assigns_of_sample hbad.1)
  rw [heligible] at hbad
  cases hbad.2

theorem assigned_eligible_iff_sample :
    (∀ i n e, Makes (supplyRun sampleExpired).2.2 i n e → ∀ b d, Assigns b d e →
      (e.before.eligible b d = true ↔ e.before.suited b d = true ∧
        ¬SuspendedSince (own n ((supplyRun sampleExpired).2.2.take i)) e.before d)) ∧
    (supplyRun sampleExpired).2.1.trips.status 0 = some .assigned :=
  ⟨assigned_eligible_iff (supplyRun_calls sampleExpired_supplies), by decide +kernel⟩

end Towing.Trips
