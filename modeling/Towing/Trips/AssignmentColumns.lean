import Towing.Trips.Shifts

namespace Towing.Trips

open Towing.Process Towing.Money

/-- The columns of a booking that say who is on it. -/
structure Assignment where
  status : BookingStatus
  driverId : Option ℕ
  fleetId : Option ℕ
  truckId : Option ℕ
  payModel : Option DriverPayModel
  sharePct : Option Pct
  arrivedAt : Option ℕ
  deriving DecidableEq, Repr

def Row.assignment (r : Row) : Assignment :=
  ⟨r.booking.status, r.booking.driverId, r.booking.fleetId, r.trip.truckId, r.booking.driverPayModel,
    r.booking.driverSharePct, r.trip.arrivedAt⟩

def World.assignment (w : World) (b : ℕ) : Option Assignment := (w.row b).map Row.assignment

def Assignment.vacant (a : Assignment) : Prop :=
  a.driverId = none ∧ a.fleetId = none ∧ a.truckId = none ∧ a.arrivedAt = none

def Assignment.holds (a : Assignment) (t : Terms) : Prop :=
  a.driverId = some t.driverId ∧ a.fleetId = t.fleetId ∧ a.truckId = t.truckId ∧
    a.payModel = some t.payModel ∧ a.sharePct = t.sharePct

def unassigned (s : BookingStatus) : Bool := s = .searching || s = .noDriversFound

def underDriver (s : BookingStatus) : Bool :=
  s = .assigned || s = .enRoute || s = .arrived || s = .inProgress || s = .completed || s = .paid

/-- The driver of a booking is the one of its latest accepted attempt, on the
terms locked then. -/
def Locked (es : List (Event Step World)) (w : World) (b : ℕ) (a : Assignment) : Prop :=
  ∃ t, (accepts b es).getLast? = some t ∧ a.holds t ∧
    ∃ row ∈ w.attempts, row.bookingId = b ∧ row.driverId = t.driverId ∧ row.outcome = .accepted

/-- The assignment columns of a booking agree with its status. -/
structure Agrees (es : List (Event Step World)) (w : World) (b : ℕ) : Prop where
  vacant : ∀ a, w.assignment b = some a → unassigned a.status → a.vacant
  locked : ∀ a, w.assignment b = some a → underDriver a.status → Locked es w b a

/-- A customer's retry, or an operator's, that is let through finds the search
given up. -/
def RetriesGivenUp (e : Event Step World) : Prop :=
  ∀ m, e.label = .move m → m.cause = .retrySearch ∨ m.cause = .override ∧ m.target = .searching →
    e.before.moveError m = none → e.before.status m.bookingId = some .noDriversFound

variable {env : Env} {g : ℕ → Prop} {w w₀ : World} {es : List (Event Step World)} {e : Event Step World} {b : ℕ}
  {a : Assignment}

/-- A dispute keeps the driver it was opened on. -/
def withDriver (s : BookingStatus) : Bool := underDriver s || s = .disputed

theorem World.assignment_core : w.assignment b = (w.core b).map Row.assignment := by
  cases h : w.row b <;> simp [World.assignment, World.core, h, Row.assignment, Row.core]

structure Assigned (es : List (Event Step World)) (w : World) (b : ℕ) : Prop where
  vacant : ∀ r, w.core b = some r → unassigned r.booking.status → r.assignment.vacant
  locked : ∀ r, w.core b = some r → withDriver r.booking.status → Locked es w b r.assignment

theorem Assigned.agrees (h : Assigned es w b) : Agrees es w b := by
  have hrow (a : Assignment) (ha : w.assignment b = some a) : ∃ r, w.core b = some r ∧ r.assignment = a := by
    simpa [World.assignment_core] using ha
  refine ⟨fun a ha hs ↦ ?_, fun a ha hs ↦ ?_⟩
  · obtain ⟨r, hr, rfl⟩ := hrow a ha
    exact h.vacant r hr hs
  · obtain ⟨r, hr, rfl⟩ := hrow a ha
    exact h.locked r hr (by simp only [withDriver]; simp [show underDriver r.booking.status from hs])

theorem withDriver_of_legal {s t : BookingStatus} (h : t ∈ legalTransitions s) (ht : withDriver t)
    (hne : t ≠ .assigned) : withDriver s := by
  revert h ht hne
  cases s <;> cases t <;> decide

theorem unassigned_of_giveUp {s : BookingStatus} (h : .noDriversFound ∈ legalTransitions s) :
    unassigned s := by
  revert h
  cases s <;> decide

theorem Locked.snoc (h : Locked es e.before b a) (hnone : e.before.accepted b e.label = none)
    (hrun : e.after = e.before.run e.label) {a' : Assignment} (ha : ∀ t, a.holds t → a'.holds t) :
    Locked (es ++ [e]) e.after b a' := by
  obtain ⟨t, ht, hholds, row, hrow, hb, hd, hout⟩ := h
  refine ⟨t, ?_, ha t hholds, row, ?_, hb, hd, hout⟩
  · simpa [accepts, hnone] using ht
  · rw [hrun]
    exact World.attempts_accepted hrow hout _

theorem Locked.accept {d : ℕ} {suspended : Option ℕ} {driver : Driver} {r : Row}
    (h : e.before.accepted b (.accept b d suspended) = some (e.before.termsFor d driver))
    (hl : e.label = .accept b d suspended) (hrun : e.after = e.before.run e.label) :
    Locked (es ++ [e]) e.after b (World.movedRow (e.before.assignMove b d driver) r).assignment := by
  refine ⟨e.before.termsFor d driver, ?_, ⟨rfl, rfl, rfl, rfl, rfl⟩, ?_⟩
  · simp [accepts, hl, h]
  · rw [hrun, hl]
    exact World.attempts_accept h

/-- What a sanctioned move makes of a booking under its driver, or of one without. -/
theorem sanctioned_assigned {m : Move} {r : Row} (hm : Sanctioned env g m)
    (hl : m.target ∈ legalTransitions r.booking.status)
    (hretry : m.cause = .retrySearch ∨ m.cause = .override ∧ m.target = .searching →
      r.booking.status = .noDriversFound)
    (hvacant : unassigned r.booking.status → r.assignment.vacant) :
    (unassigned m.target → (World.movedRow m r).assignment.vacant) ∧
      (withDriver m.target → withDriver r.booking.status ∧
        ∀ t, r.assignment.holds t → (World.movedRow m r).assignment.holds t) := by
  have hkeep (hne : m.target ≠ .assigned) (ht : withDriver m.target) : withDriver r.booking.status :=
    withDriver_of_legal hl ht hne
  cases hm with
  | retrySearch | overrideSearching =>
    refine ⟨fun _ ↦ ?_, fun h ↦ by cases h⟩
    exact hvacant (by rw [hretry (by simp)]; rfl)
  | customerCancel | adminCancel | suspension =>
    exact ⟨fun h ↦ (by cases h), fun h ↦ by cases h⟩
  | giveUp => exact ⟨fun _ ↦ hvacant (unassigned_of_giveUp hl), fun h ↦ by cases h⟩
  | unable | reassign => exact ⟨fun _ ↦ ⟨rfl, rfl, rfl, rfl⟩, fun h ↦ by cases h⟩
  | markEnRoute | arrived | start | complete | completeByAdmin | overrideArrived | overrideStarted =>
    exact ⟨fun h ↦ (by cases h), fun h ↦ ⟨hkeep (by simp) h, fun t ht ↦ ht⟩⟩

theorem movedRow_status {m : Move} (hm : Sanctioned env g m) (r : Row) :
    (World.movedRow m r).assignment.status = m.target := by
  cases hm <;> rfl

/-- The columns follow the status through every step, if the searches taken up
again are those given up. -/
theorem Assigned.step (h : Assigned es e.before b) (hissued : Issued env g e.label)
    (hrun : e.after = e.before.run e.label) (hretry : RetriesGivenUp e) :
    Assigned (es ++ [e]) e.after b := by
  have hshift := World.shift_run (w := e.before) (b := b) hissued
  rw [← hrun] at hshift
  suffices hnew : ∀ r, e.after.core b = some r →
      (unassigned r.booking.status → r.assignment.vacant) ∧
      (withDriver r.booking.status → Locked (es ++ [e]) e.after b r.assignment) from
    ⟨fun r hr ↦ (hnew r hr).1, fun r hr ↦ (hnew r hr).2⟩
  intro r' hr'
  generalize hl : e.label = l at hshift
  rw [hr'] at hshift
  generalize ho : some r' = o at hshift
  have hnone (hl' : e.before.accepted b l = none) : e.before.accepted b e.label = none := by rwa [hl]
  have hheld (r : Row) (hr : e.before.row b = some r) (hs : withDriver r.booking.status)
      (hn : e.before.accepted b l = none) {a' : Assignment}
      (hkeep : ∀ t, r.assignment.holds t → a'.holds t) : Locked (es ++ [e]) e.after b a' :=
    (h.locked _ (World.core_some hr) hs).snoc (hnone hn) hrun hkeep
  cases hshift with
  | same hsame =>
    refine ⟨h.vacant r' ho.symm, fun hs ↦ ?_⟩
    exact (h.locked r' ho.symm hs).snoc (hnone hsame) hrun fun t ht ↦ ht
  | create p discount couponId hnew he =>
    cases ho
    have hassign : (World.pricedRow (e.before.insertedRow p) p.locked.totalPaise discount
        couponId).core.assignment = ⟨.searching, none, none, none, none, none, none⟩ := by
      unfold World.pricedRow
      dsimp only
      split_ifs <;> rfl
    refine ⟨fun _ ↦ by rw [hassign]; exact ⟨rfl, rfl, rfl, rfl⟩, fun hs ↦ ?_⟩
    have hs' : withDriver (World.pricedRow (e.before.insertedRow p) p.locked.totalPaise discount
        couponId).core.assignment.status := hs
    rw [hassign] at hs'
    cases hs'
  | @reprice l' r _ hr hs _ couponId discount =>
    cases ho
    have hst : r.booking.status = .completed := hs
    refine ⟨fun hs' ↦ ?_, fun _ ↦ hheld r hr (by rw [hst]; rfl) rfl fun t ht ↦ ht⟩
    change unassigned r.booking.status = true at hs'
    rw [hst] at hs'
    cases hs'
  | @paid patch on r hr hlegal hg =>
    cases ho
    refine ⟨fun hs ↦ (by cases hs), fun _ ↦ hheld r hr ?_ rfl fun t ht ↦ ht⟩
    exact withDriver_of_legal hlegal rfl (by simp)
  | @dispute openedFrom r hr hlegal =>
    cases ho
    refine ⟨fun hs ↦ (by cases hs), fun _ ↦ hheld r hr ?_ rfl fun t ht ↦ ht⟩
    exact withDriver_of_legal hlegal rfl (by simp)
  | @accept d suspended driver r hr hoffer hs hterms =>
    cases ho
    exact ⟨fun hs ↦ (by cases hs), fun _ ↦ Locked.accept hterms hl hrun⟩
  | @move m r hm hb hr he hlegal =>
    cases ho
    have hgiven : m.cause = .retrySearch ∨ m.cause = .override ∧ m.target = .searching →
        r.booking.status = .noDriversFound := by
      intro hcause
      have hstatus := hretry m hl hcause he
      rw [hb, World.core_status, World.core_some hr] at hstatus
      exact Option.some.inj hstatus
    obtain ⟨hvacant, hkeep⟩ := sanctioned_assigned hm hlegal hgiven (h.vacant r.core (World.core_some hr))
    have hst : (World.movedRow m r).core.booking.status = m.target := movedRow_status hm r
    rw [hst]
    refine ⟨hvacant, fun hs ↦ ?_⟩
    obtain ⟨hold, hkeep⟩ := hkeep hs
    exact hheld r hr hold rfl hkeep

theorem assigned_runs {ps : List (Request Unit)} (h₀ : ∀ b, w₀.row b = none)
    (h : Runs (Operates env) w₀ ps w es) (hretry : ∀ e ∈ es, RetriesGivenUp e) :
    (∀ b, Assigned es w b) ∧ Throughout (fun es w ↦ ∀ b, Assigned es w b) es := by
  have hissued := (Runs.only (fun p hp ↦ operates_only hp) h).1
  have hrun := h.committed
  refine h.chained.throughout (J := fun es w ↦ ∀ b, Assigned es w b) (fun b ↦ ?_) ?_
  · have hnone : w₀.core b = none := by simp [World.core, h₀ b]
    exact ⟨fun r hr ↦ by simp [hnone] at hr, fun r hr ↦ by simp [hnone] at hr⟩
  · intro pre e he hpre b
    exact (hpre b).step (hissued e he) (hrun e he) (hretry e he)

/-- A search taken up again under its driver leaves the driver on it. -/
theorem Agrees.retriesGivenUp {pre : List (Event Step World)} (hissued : Issued env g e.label)
    (hrun : e.after = e.before.run e.label) (hbefore : ∀ b, Agrees pre e.before b)
    (hafter : ∀ b, Agrees es e.after b) : RetriesGivenUp e := by
  intro m hl hcause he
  have hm : Sanctioned env g m := by
    rw [hl] at hissued
    cases hissued with
    | move hm => exact hm
    | aside h => cases h
  have hto : m.target = .searching ∧ ∀ r : Row,
      (World.movedRow m r).assignment.driverId = r.assignment.driverId := by
    cases hm <;> simp at hcause ⊢ <;> intro r <;> rfl
  obtain ⟨r, hr, hlegal, hrow⟩ := World.move_row he
  have hstatus : e.before.status m.bookingId = some r.booking.status := by
    rw [World.core_status, World.core_some hr]
    rfl
  rw [hstatus]
  by_contra hne
  have hassign : e.before.assignment m.bookingId = some r.assignment := by
    simp [World.assignment, hr]
  have hafter' : e.after.assignment m.bookingId = some (World.movedRow m r).assignment := by
    rw [hrun, hl, World.assignment]
    erw [hrow]
    rfl
  have hunder : underDriver r.assignment.status := by
    rw [hto.1] at hlegal
    change underDriver r.booking.status
    revert hlegal hne
    cases r.booking.status <;> decide
  obtain ⟨t, -, hholds, -⟩ := (hbefore m.bookingId).locked _ hassign hunder
  have hvacant := (hafter m.bookingId).vacant _ hafter'
    (by rw [movedRow_status hm, hto.1]; rfl)
  rw [Assignment.vacant, hto.2 r, hholds.1] at hvacant
  cases hvacant.1

/-- The columns agree with the status throughout a run exactly when no search is
taken up again while a driver is on the booking. -/
theorem assignment_columns_iff {ps : List (Request Unit)} (h₀ : ∀ b, w₀.row b = none)
    (h : Runs (Operates env) w₀ ps w es) :
    Throughout (fun es w ↦ ∀ b, Agrees es w b) es ↔ ∀ e ∈ es, RetriesGivenUp e := by
  constructor
  · intro hagrees e he
    obtain ⟨pre, post, rfl⟩ := List.append_of_mem he
    have hissued := (Runs.only (fun p hp ↦ operates_only hp) h).1 e he
    have hrun := h.committed e he
    have hafter : ∀ b, Agrees (pre ++ [e]) e.after b := hagrees pre e post rfl
    rcases h.chained.before with ⟨-, hfirst⟩ | ⟨pre', e', rfl, hlast⟩
    · have hbefore (b : ℕ) : Agrees [] e.before b := by
        have hnone : e.before.assignment b = none := by simp [World.assignment, hfirst, h₀ b]
        exact ⟨fun a ha ↦ by simp [hnone] at ha, fun a ha ↦ by simp [hnone] at ha⟩
      exact Agrees.retriesGivenUp hissued hrun hbefore hafter
    · have hbefore : ∀ b, Agrees (pre' ++ [e']) e'.after b :=
        hagrees pre' e' (e :: post) (by simp)
      exact Agrees.retriesGivenUp hissued hrun (fun b ↦ hlast ▸ hbefore b) hafter
  · intro hretry pre e post heq b
    exact ((assigned_runs h₀ h hretry).2 pre e post heq b).agrees

/-- A trip that is started after its accept, and a search its customer takes up
again under the driver. -/
theorem assignment_columns_iff_sample :
    (Throughout (fun es w ↦ ∀ b, Agrees es w b)
      (runAll (sampleAssigned ++ [JobExecutionService.markEnRoute 0 7]) World.blank).2 ↔
    ∀ e ∈ (runAll (sampleAssigned ++ [JobExecutionService.markEnRoute 0 7]) World.blank).2,
      RetriesGivenUp e) ∧
    (runAll (sampleAssigned ++ [JobExecutionService.markEnRoute 0 7]) World.blank).1.status 0 =
      some .enRoute := by
  refine ⟨assignment_columns_iff (fun b ↦ rfl) (sampleAssigned_runs ?_), ?_⟩
  · intro p hp
    cases List.mem_singleton.mp hp
    exact .markEnRoute 0 7
  · decide +kernel

theorem retry_keeps_driver : ¬∀ (env : Env) (w₀ w : World) (ps : List (Request Unit))
    (es : List (Event Step World)), (∀ b, w₀.row b = none) → Runs (Operates env) w₀ ps w es →
      ∀ b, Agrees es w b := by
  intro h
  have hrun : ∀ p ∈ [BookingsService.retrySearch 1 0], Operates sampleEnv p := by
    intro p hp
    cases List.mem_singleton.mp hp
    exact .retrySearch 1 0
  have hassign : (runAll (sampleAssigned ++ [BookingsService.retrySearch 1 0])
      World.blank).1.assignment 0 =
      some ⟨.searching, some 7, none, some 3, some .independent, none, none⟩ := by
    decide +kernel
  have hvacant := (h sampleEnv World.blank _ [] _ (fun b ↦ rfl) (sampleAssigned_runs hrun) 0).vacant _
    hassign rfl
  cases hvacant.1

end Towing.Trips
