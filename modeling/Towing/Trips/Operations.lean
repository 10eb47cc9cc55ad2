import Towing.Money.Charging
import Towing.Process.Calls
import Towing.Trips.AdminDisputesService

namespace Towing.Trips

open Towing.Db Towing.Process Towing.Money

/-- What drivers, operators and the clockwork do beside the requests. -/
def Step.ambient : Step → Bool
  | .mintOtp _ _ _ => true
  | .setDriver _ _ => true
  | .setFleetSuspended _ _ => true
  | .setZonePaused _ _ => true
  | .setLongDistanceDisabled _ => true
  | .setMetersToPickup _ _ _ => true
  | .setQueueUp _ => true
  | _ => false

/-- Everything that is done with a booking, but resolving disputes and refunding. -/
inductive Operates (env : Env) : Request Unit → Prop
  | pays {q : Money.Request Unit} (h : Charges env.toEnv q) : Operates env (money q)
  | create (b : ℕ) (p : NewBooking) : Operates env (BookingsService.create b p)
  | retrySearch (userId b : ℕ) : Operates env (BookingsService.retrySearch userId b)
  | quote (userId b : ℕ) : Operates env (BookingsService.cancellationQuote env userId b).ignore
  | cancel (userId b : ℕ) (body : BookingsService.BookingCancel) :
      Operates env (BookingsService.cancel env userId b body).ignore
  | runJob (id : JobId) (ranked : List ℕ) (retryMs : Option ℕ) :
      Operates env (DispatchService.runJob env id ranked retryMs)
  | accept (b driverId : ℕ) : Operates env (OfferService.accept b driverId)
  | reject (b driverId : ℕ) : Operates env (OfferService.reject b driverId)
  | expire (b driverId : ℕ) : Operates env (OfferService.expire b driverId)
  | revokeDrivers (b : ℕ) (driverIds : List ℕ) : Operates env (OfferService.revokeDrivers b driverIds)
  | markEnRoute (b driverId : ℕ) : Operates env (JobExecutionService.markEnRoute b driverId)
  | arrived (b driverId : ℕ) : Operates env (JobExecutionService.arrived b driverId)
  | start (b driverId : ℕ) (code : String) : Operates env (JobExecutionService.start env b driverId code)
  | complete (b driverId : ℕ) : Operates env (JobExecutionService.complete b driverId)
  | unable (b driverId : ℕ) (reason : String) :
      Operates env (JobExecutionService.unable env b driverId reason)
  | adminCancel (b : ℕ) (body : AdminBookingsService.AdminBookingCancelBody) :
      Operates env (AdminBookingsService.cancel env b body).ignore
  | reassign (b : ℕ) (mode : AdminBookingsService.ReassignMode) (driverFault : Bool) :
      Operates env (AdminBookingsService.reassign env b mode driverFault)
  | override (b : ℕ) (target : BookingStatus) :
      Operates env (AdminBookingsService.transitionOverride b target)
  | suspension (userId b : ℕ) : Operates env (cancelSearching userId b)
  | openDispute (b : ℕ) : Operates env (AdminDisputesService.openDispute b)
  | updateDriverPay (fleetId : ℕ) (pay : Fleet) :
      Operates env (money (Proc.write (.updateDriverPay fleetId pay)))
  | setShare (fleetId driverId : ℕ) (share : Option Pct) :
      Operates env (money (Proc.write (.setShare fleetId driverId share)))
  | ambient (l : Step) (h : l.ambient = true) : Operates env (Proc.write l)

/-- What is asked of the state machine, and by whom: on the bookings in `g` also what
the table lets a dispute end by, and only the caller's own look at the status keeps
from it. -/
inductive Sanctioned (env : Env) (g : ℕ → Prop) : Move → Prop
  | retrySearch (b : ℕ) : Sanctioned env g ⟨b, .searching, .resetSearch, false, .retrySearch⟩
  | customerCancel (b : ℕ) (reason : Option String) (i : CancellationInputs) :
      Sanctioned env g ⟨b, .cancelled,
        .cancellation "customer" reason (i.outcome env.charges).feePaise
          (i.outcome env.charges).driverCompensationPaise,
        (i.outcome env.charges).tier = .free, .customerCancel i⟩
  | adminCancel (b : ℕ) (reason : String) (i : CancellationInputs) (feeMode : FeeMode)
      (compensateDriver : Bool) (terms : AdminBookingsService.AdminBookingCancelResponse)
      (h : terms = AdminBookingsService.cancellationTerms (i.outcome env.charges) feeMode
        compensateDriver i.couponId) (hg : g b) :
      Sanctioned env g ⟨b, .cancelled,
        .cancellation "admin" (some reason) terms.feePaise terms.driverCompensationPaise,
        terms.couponReleased, .adminCancel i feeMode compensateDriver⟩
  | suspension (b : ℕ) (hg : g b) : Sanctioned env g ⟨b, .cancelled, .nothing, false, .suspension⟩
  | giveUp (b : ℕ) : Sanctioned env g ⟨b, .noDriversFound, .nothing, false, .giveUp⟩
  | markEnRoute (b d : ℕ) : Sanctioned env g ⟨b, .enRoute, .nothing, false, .markEnRoute d⟩
  | arrived (b d now : ℕ) : Sanctioned env g ⟨b, .arrived, .arrivedAt now, false, .arrived d⟩
  | start (b d now : ℕ) : Sanctioned env g ⟨b, .inProgress, .startedAt now true, false, .start d⟩
  | complete (b d now : ℕ) (waiting total : ℤ) :
      Sanctioned env g ⟨b, .completed, .finalize now waiting total, false, .complete d⟩
  | completeByAdmin (b now : ℕ) (waiting total : ℤ) (hg : g b) :
      Sanctioned env g ⟨b, .completed, .finalize now waiting total, false, .completeByAdmin⟩
  | unable (b d : ℕ) (reason : String) :
      Sanctioned env g ⟨b, .searching, .unassign (some reason), false, .unable d⟩
  | reassign (b d : ℕ) : Sanctioned env g ⟨b, .searching, .unassign none, false, .reassign d⟩
  | overrideArrived (b now : ℕ) : Sanctioned env g ⟨b, .arrived, .arrivedAt now, false, .override⟩
  | overrideStarted (b now : ℕ) :
      Sanctioned env g ⟨b, .inProgress, .startedAt now false, false, .override⟩
  | overrideSearching (b : ℕ) : Sanctioned env g ⟨b, .searching, .nothing, false, .override⟩

/-- The steps that write no row of `bookings` but its search and its OTP, and accept nothing. -/
def Step.aside : Step → Bool
  | .read => true
  | .verifyOtp _ => true
  | .setWaveState _ _ _ => true
  | .takeSearchLock _ _ => true
  | .releaseSearchLock _ => true
  | .takeOfferLock _ _ => true
  | .releaseOfferLock _ => true
  | .insertAttempt a => a.outcome ≠ .accepted
  | .resolveOffer _ _ outcome => outcome ≠ .accepted
  | .revokeOutstanding _ _ => true
  | .enqueue _ _ _ => true
  | .startJob _ => true
  | .endJob _ _ => true
  | l => l.ambient

inductive Issued (env : Env) (g : ℕ → Prop) : Step → Prop
  | still {l : Money.Step} (h : Still l) : Issued env g (.money l)
  | paid (b : ℕ) (patch : BookingPatch) (on : Option (Settling × Option ℕ)) (hg : g b) :
      Issued env g (.money (.transition b .paid patch on))
  | create (b : ℕ) (p : NewBooking) : Issued env g (.create b p)
  | move {m : Move} (h : Sanctioned env g m) : Issued env g (.move m)
  | accept (b d : ℕ) (suspended : Option ℕ) : Issued env g (.accept b d suspended)
  | openDispute (b : ℕ) (openedFrom : BookingStatus) : Issued env g (.openDispute b openedFrom)
  | aside {l : Step} (h : l.aside = true) : Issued env g l

variable {env : Env} {g : ℕ → Prop} {b : ℕ} {α : Type}

theorem issued_aside {l : Step} {f : World → Except Failure α} (h : l.aside = true) :
    (Proc.attempt l f : Request α).Only (Issued env g) :=
  ⟨.aside h, fun _ ↦ trivial⟩

theorem issued_read (f : World → α) : (read f).Only (Issued env g) := issued_aside rfl

theorem issued_check (f : World → Except Failure α) : (check f).Only (Issued env g) := issued_aside rfl

theorem issued_write {l : Step} (h : l.aside = true) :
    (Proc.write l : Request Unit).Only (Issued env g) :=
  issued_aside h

theorem issued_throw (e : Failure) : (throw e : Request α).Only (Issued env g) := trivial

theorem issued_enqueue (id : JobId) (payload : Payload) (delayMs : ℕ) :
    (enqueue id payload delayMs).Only (Issued env g) :=
  issued_aside rfl

theorem issued_besteffort {p : Request Unit} (h : p.Only (Issued env g)) :
    (besteffort p).Only (Issued env g) :=
  h.handle fun _ ↦ trivial

theorem issued_transition {m : Move} (h : Sanctioned env g m) : (transition m).Only (Issued env g) :=
  ⟨.move h, fun _ ↦ trivial⟩

theorem issued_money {q : Money.Request α} (h : q.Only Still) : (money q).Only (Issued env g) :=
  Proc.Only.lift (h.mono fun _ hl ↦ .still hl)

/-! The offers and the waves. -/

theorem issued_resolve (d : ℕ) {outcome : AttemptOutcome} (h : outcome ≠ .accepted) :
    (OfferService.resolve b d outcome).Only (Issued env g) := by
  refine (issued_aside (by simpa [Step.aside] using h)).bind fun moved ↦ ?_
  exact (issued_write rfl).when

theorem issued_revokeEach (ds : List ℕ) : (OfferService.revokeEach b ds).Only (Issued env g) := by
  induction ds with
  | nil => trivial
  | cons d ds ih => exact (issued_resolve d (by simp)).bind fun _ ↦ ih

theorem issued_revokeDrivers (ds : List ℕ) : (OfferService.revokeDrivers b ds).Only (Issued env g) :=
  (issued_read _).bind fun _ ↦ issued_revokeEach _

theorem issued_revokeAll : (OfferService.revokeAll b).Only (Issued env g) :=
  (issued_read _).bind fun _ ↦ issued_revokeDrivers _

theorem issued_releaseEach (ds : List ℕ) : (OfferService.releaseEach ds).Only (Issued env g) := by
  induction ds with
  | nil => trivial
  | cons d ds ih => exact (issued_write rfl).bind fun _ ↦ ih

theorem issued_accept (d : ℕ) : (OfferService.accept b d).Only (Issued env g) := by
  refine (issued_read _).bind fun found ↦ ?_
  cases found with
  | none => trivial
  | some r =>
    refine (Proc.Only.when (issued_throw _)).bind fun _ ↦ ?_
    refine (issued_read _).bind fun suspended ↦ ?_
    refine Proc.Only.bind ⟨.accept b d suspended, fun _ ↦ trivial⟩ fun _ ↦ ?_
    refine (issued_aside rfl).bind fun losers ↦ ?_
    exact (issued_releaseEach losers).bind fun _ ↦ issued_write rfl

theorem issued_offer (d wave timeoutSeconds : ℕ) :
    (OfferService.offer b d wave timeoutSeconds).Only (Issued env g) := by
  refine (issued_aside rfl).bind fun taken ↦ ?_
  split_ifs
  · trivial
  · refine (issued_write rfl).bind fun _ ↦ ?_
    exact (issued_enqueue _ _ _).bind fun _ ↦ trivial

theorem issued_offerEach (wave timeoutSeconds : ℕ) (ds : List ℕ) :
    (DispatchService.offerEach b wave timeoutSeconds ds).Only (Issued env g) := by
  induction ds with
  | nil => trivial
  | cons d ds ih =>
    refine (issued_offer _ _ _).bind fun offered ↦ ?_
    exact ih.bind fun _ ↦ trivial

theorem issued_runWaveLocked (ranked : List ℕ) :
    (DispatchService.runWaveLocked env b ranked).Only (Issued env g) := by
  refine (issued_read _).bind fun found ↦ ?_
  cases found with
  | none => trivial
  | some r =>
    dsimp only
    split
    · trivial
    refine (issued_read _).bind fun now ↦ ?_
    split
    · exact issued_enqueue _ _ _
    refine (issued_read _).bind fun paused ↦ ?_
    split
    · exact issued_revokeAll.bind fun _ ↦ issued_enqueue _ _ _
    split
    · exact issued_transition (.giveUp b)
    refine (issued_read _).bind fun candidates ↦ ?_
    refine (issued_write rfl).bind fun _ ↦ ?_
    exact (issued_offerEach _ _ _).bind fun _ ↦ issued_enqueue _ _ _

theorem issued_runWave (ranked : List ℕ) :
    (DispatchService.runWave env b ranked).Only (Issued env g) := by
  refine (issued_aside rfl).bind fun taken ↦ Proc.Only.when ?_
  refine Proc.Only.bind ?_ fun _ ↦ issued_write rfl
  exact (issued_runWaveLocked ranked).handle fun _ ↦ (issued_write rfl).bind fun _ ↦ trivial

theorem issued_redispatch (reason : String) :
    (DispatchService.redispatch env b reason).Only (Issued env g) := by
  refine (issued_read _).bind fun found ↦ ?_
  cases found with
  | none => trivial
  | some r =>
    dsimp only
    split_ifs
    · trivial
    all_goals
      refine (issued_read _).bind fun now ↦ ?_
      exact (issued_write rfl).bind fun _ ↦ issued_enqueue _ _ _

theorem issued_adminOfferToDriver (d : ℕ) (ranked : List ℕ) :
    (DispatchService.adminOfferToDriver env b d ranked).Only (Issued env g) := by
  refine (issued_read _).bind fun found ↦ ?_
  cases found with
  | none => trivial
  | some r =>
    dsimp only
    split_ifs
    · trivial
    · refine (issued_read _).bind fun candidates ↦ ?_
      split_ifs
      · refine (issued_offer _ _ _).bind fun offered ↦ ?_
        split_ifs
        · exact (issued_enqueue _ _ _).bind fun _ ↦ trivial
        · trivial
      · trivial

theorem issued_runJob (id : JobId) (ranked : List ℕ) (retryMs : Option ℕ) :
    (DispatchService.runJob env id ranked retryMs).Only (Issued env g) := by
  refine (issued_aside rfl).bind fun found ↦ ?_
  cases found with
  | none => trivial
  | some payload =>
    have hprocess : (DispatchService.process env ranked payload).Only (Issued env g) := by
      cases payload with
      | search b => exact issued_runWave ranked
      | offerTimeout b d wave => exact issued_resolve d (by simp)
      | revoke b reason holder => exact issued_revokeAll
      | applySuspension d => trivial
    refine Proc.Only.handle (hprocess.bind fun _ ↦ ?_) fun e ↦ ?_
    · exact (issued_read _).bind fun _ ↦ issued_write rfl
    · exact (issued_read _).bind fun _ ↦ issued_write rfl

/-! The customer, the driver and the operator. -/

theorem issued_create (p : NewBooking) : (BookingsService.create b p).Only (Issued env g) := by
  refine (issued_read _).bind fun now ↦ ?_
  refine (Proc.Only.when (issued_throw _)).bind fun _ ↦ ?_
  refine (issued_read _).bind fun zonePaused ↦ ?_
  refine (Proc.Only.when (issued_throw _)).bind fun _ ↦ ?_
  refine (issued_read _).bind fun disabled ↦ ?_
  refine (Proc.Only.when (issued_throw _)).bind fun _ ↦ ?_
  refine Proc.Only.bind ⟨.create b p, fun _ ↦ trivial⟩ fun _ ↦ ?_
  exact (issued_read _).bind fun _ ↦ issued_besteffort (issued_enqueue _ _ _)

theorem issued_retrySearch (userId : ℕ) :
    (BookingsService.retrySearch userId b).Only (Issued env g) := by
  refine (issued_check _).ignore.bind fun _ ↦ ?_
  refine (issued_transition (.retrySearch b)).bind fun _ ↦ ?_
  exact (issued_read _).bind fun _ ↦ issued_besteffort (issued_enqueue _ _ _)

theorem issued_afterCancel (driverId : Option ℕ) (compensationPaise : ℤ) (reason : String) :
    (BookingsService.afterCancel b driverId compensationPaise reason).Only (Issued env g) := by
  have hpost (legs : List (LedgerLeg LedgerKey)) : (money (ledgerPost legs)).Only (Issued env g) :=
    issued_money (still_ledgerPost legs)
  have hrevoke : (besteffort (enqueue (.revoke b) (.revoke b .cancelled driverId) 0)).Only
      (Issued env g) := issued_besteffort (issued_enqueue _ _ _)
  cases driverId with
  | none => exact hrevoke.bind fun _ ↦ trivial
  | some d =>
    refine Proc.Only.bind (hpost _).ignore.when fun _ ↦ ?_
    exact hrevoke.bind fun _ ↦ issued_besteffort (issued_enqueue _ _ _)

theorem issued_cancel (userId : ℕ) (body : BookingsService.BookingCancel) :
    (BookingsService.cancel env userId b body).Only (Issued env g) := by
  refine (issued_check _).bind fun i ↦ ?_
  refine Proc.Only.bind (Proc.Only.when ?_) fun _ ↦ ?_
  · split
    · trivial
    · exact issued_money (still_captureFee _ _)
  refine (issued_transition (.customerCancel b _ i)).bind fun _ ↦ ?_
  exact (issued_afterCancel _ _ _).bind fun _ ↦ trivial

theorem issued_finalizeTrip {job : Row} {cause : Cause} (h : ∀ now waiting total,
    Sanctioned env g ⟨b, .completed, .finalize now waiting total, false, cause⟩) :
    (JobExecutionService.finalizeTrip b job cause).Only (Issued env g) :=
  (issued_read _).bind fun _ ↦ issued_transition (h _ _ _)

theorem issued_completeByAdmin (hg : g b) : (JobExecutionService.completeByAdmin b).Only (Issued env g) := by
  refine (issued_read _).bind fun found ↦ ?_
  cases found with
  | none => trivial
  | some job =>
    refine (Proc.Only.when (issued_throw _)).bind fun _ ↦ ?_
    exact issued_finalizeTrip fun now waiting total ↦ .completeByAdmin b now waiting total hg

theorem issued_recordOutcome (d : ℕ) {outcome : AttemptOutcome} (h : outcome ≠ .accepted) :
    (JobExecutionService.recordOutcome b d outcome).Only (Issued env g) :=
  (issued_read _).bind fun _ ↦ issued_write (by simpa [Step.aside] using h)

theorem issued_unable (d : ℕ) (reason : String) :
    (JobExecutionService.unable env b d reason).Only (Issued env g) := by
  refine (issued_check _).ignore.bind fun _ ↦ ?_
  refine (issued_transition (.unable b d reason)).bind fun _ ↦ ?_
  refine (issued_recordOutcome d (by simp)).bind fun _ ↦ ?_
  exact issued_besteffort (issued_redispatch _)

theorem issued_start (d : ℕ) (code : String) :
    (JobExecutionService.start env b d code).Only (Issued env g) := by
  refine (issued_check _).ignore.bind fun _ ↦ ?_
  refine (issued_aside rfl).bind fun ok ↦ ?_
  split_ifs
  · exact (issued_read _).bind fun _ ↦ trivial
  · exact (issued_read _).bind fun now ↦ issued_transition (.start b d now)

theorem issued_adminCancel (hg : g b) (body : AdminBookingsService.AdminBookingCancelBody) :
    (AdminBookingsService.cancel env b body).Only (Issued env g) := by
  refine (issued_check _).bind fun i ↦ ?_
  refine (issued_transition (.adminCancel b _ i _ _ _ rfl hg)).bind fun _ ↦ ?_
  exact (issued_afterCancel _ _ _).bind fun _ ↦ trivial

theorem issued_reassign (mode : AdminBookingsService.ReassignMode) (driverFault : Bool) :
    (AdminBookingsService.reassign env b mode driverFault).Only (Issued env g) := by
  refine (issued_check _).bind fun r ↦ ?_
  dsimp only
  split
  · trivial
  · rename_i d _
    refine (Proc.Only.when (issued_throw _)).bind fun _ ↦ ?_
    refine issued_revokeAll.bind fun _ ↦ ?_
    refine (issued_transition (.reassign b d)).bind fun _ ↦ ?_
    refine (issued_recordOutcome d (by split_ifs <;> simp)).bind fun _ ↦ ?_
    cases mode with
    | resumeSearch => exact issued_redispatch _
    | offerToDriver d' ranked =>
      refine (issued_adminOfferToDriver d' ranked).bind fun outcome ↦ ?_
      cases outcome with
      | none => trivial
      | some exclusion => trivial

theorem issued_override (hg : g b) (target : BookingStatus) :
    (AdminBookingsService.transitionOverride b target).Only (Issued env g) := by
  refine (issued_check _).bind fun r ↦ ?_
  unfold Proc.when
  split
  · trivial
  rename_i hedge
  refine Proc.Only.bind trivial fun _ ↦ ?_
  split
  · exact issued_completeByAdmin hg
  rename_i hcompleted
  refine (issued_read _).bind fun now ↦ issued_transition ?_
  rw [not_not] at hedge
  have htarget : target = .arrived ∨ target = .inProgress ∨ target = .searching := by
    cases hs : r.booking.status <;> rw [hs] at hedge <;>
      simp_all [AdminBookingsService.adminTransitionEdges]
  rcases htarget with h | h | h
  · subst h
    exact .overrideArrived b now
  · subst h
    exact .overrideStarted b now
  · subst h
    exact .overrideSearching b

theorem issued_suspension (hg : g b) (userId : ℕ) : (cancelSearching userId b).Only (Issued env g) := by
  refine (issued_read _).bind fun found ↦ ?_
  cases found with
  | none => trivial
  | some r =>
    refine issued_besteffort ?_
    exact (issued_transition (.suspension b hg)).bind fun _ ↦ issued_enqueue _ _ _

theorem issued_openDispute : (AdminDisputesService.openDispute b).Only (Issued env g) := by
  refine (issued_check _).bind fun r ↦ ?_
  refine (Proc.Only.when (issued_throw _)).bind fun _ ↦ ?_
  exact ⟨.openDispute b _, fun _ ↦ trivial⟩

/-- The operations that look at the status of a booking and then move it as a dispute
could end. -/
inductive Looks (env : Env) (b : ℕ) : Request Unit → Prop
  | adminCancel (body : AdminBookingsService.AdminBookingCancelBody) :
      Looks env b (AdminBookingsService.cancel env b body).ignore
  | override (target : BookingStatus) : Looks env b (AdminBookingsService.transitionOverride b target)
  | suspension (userId : ℕ) : Looks env b (cancelSearching userId b)

/-- The others ask for such a move only of the bookings in `g`, or only settle. -/
theorem operates_cases (g : ℕ → Prop) {p : Request Unit} (h : Operates env p) :
    p.Only (Issued env g) ∨ (∃ b, ¬g b ∧ Looks env b p) ∨ ∃ q, Charges env.toEnv q ∧ p = money q := by
  cases h with
  | pays h => exact .inr (.inr ⟨_, h, rfl⟩)
  | create b p => exact .inl (issued_create p)
  | retrySearch userId b => exact .inl (issued_retrySearch userId)
  | quote userId b =>
    have hquote : (BookingsService.cancellationQuote env userId b).Only (Issued env g) :=
      (issued_check _).bind fun _ ↦ trivial
    exact .inl hquote.ignore
  | cancel userId b body => exact .inl (issued_cancel userId body).ignore
  | runJob id ranked retryMs => exact .inl (issued_runJob id ranked retryMs)
  | accept b d => exact .inl (issued_accept d)
  | reject b d => exact .inl (issued_resolve d (by simp))
  | expire b d => exact .inl (issued_resolve d (by simp))
  | revokeDrivers b ds => exact .inl (issued_revokeDrivers ds)
  | markEnRoute b d => exact .inl (issued_besteffort (issued_transition (.markEnRoute b d)))
  | arrived b d =>
    refine .inl ((issued_check _).ignore.bind fun _ ↦ (issued_check _).bind fun _ ↦ ?_)
    exact (issued_read _).bind fun now ↦ issued_transition (.arrived b d now)
  | start b d code => exact .inl (issued_start d code)
  | complete b d =>
    exact .inl ((issued_check _).bind fun job ↦
      issued_finalizeTrip fun now waiting total ↦ .complete b d now waiting total)
  | unable b d reason => exact .inl (issued_unable d reason)
  | adminCancel b body =>
    by_cases hg : g b
    · exact .inl (issued_adminCancel hg body).ignore
    · exact .inr (.inl ⟨b, hg, .adminCancel body⟩)
  | reassign b mode driverFault => exact .inl (issued_reassign mode driverFault)
  | override b target =>
    by_cases hg : g b
    · exact .inl (issued_override hg target)
    · exact .inr (.inl ⟨b, hg, .override target⟩)
  | suspension userId b =>
    by_cases hg : g b
    · exact .inl (issued_suspension hg userId)
    · exact .inr (.inl ⟨b, hg, .suspension userId⟩)
  | openDispute b => exact .inl issued_openDispute
  | updateDriverPay fleetId pay =>
    exact .inl (issued_money (still_write (by simp [Still, Money.Step.table])))
  | setShare fleetId d share =>
    exact .inl (issued_money (still_write (by simp [Still, Money.Step.table])))
  | ambient l h =>
    refine .inl (issued_write ?_)
    cases l <;> simp_all [Step.ambient, Step.aside]

theorem operates_only {p : Request Unit} (h : Operates env p) :
    p.Only (Issued env fun _ ↦ True) := by
  rcases operates_cases (fun _ ↦ True) h with hp | ⟨b, hb, -⟩ | ⟨q, hq, rfl⟩
  · exact hp
  · exact absurd trivial hb
  · refine Proc.Only.lift ((charges_only hq).mono fun l hl ↦ ?_)
    rcases hl with hl | ⟨b, patch, on, rfl⟩
    · exact .still hl
    · exact .paid b patch on trivial

/-- A plain trip, its driver, and the requests up to the accept. -/
def sampleBooking : NewBooking where
  userId := 1
  locked := ⟨100000, 0, 0, 0, 0, 100000, .B, 1500, 0, 15, 500, 1⟩
  couponCode := none
  scheduledAt := none
  otpHash := "1234"

def sampleDriver : Driver := ⟨true, true, none, some 3, false⟩

def sampleAssigned : List (Request Unit) :=
  [Proc.write (.setDriver 7 (some sampleDriver)), BookingsService.create 0 sampleBooking,
    DispatchService.runJob sampleEnv (.dispatch 0) [7] none, OfferService.accept 0 7]

theorem sampleAssigned_operates {p : Request Unit} (h : p ∈ sampleAssigned) :
    Operates sampleEnv p := by
  simp only [sampleAssigned, List.mem_cons, List.not_mem_nil, or_false] at h
  rcases h with rfl | rfl | rfl | rfl
  · exact .ambient _ rfl
  · exact .create 0 sampleBooking
  · exact .runJob (.dispatch 0) [7] none
  · exact .accept 0 7

/-- The run of these and of what comes after them. -/
theorem sampleAssigned_runs {ps : List (Request Unit)} (h : ∀ p ∈ ps, Operates sampleEnv p) :
    Runs (Operates sampleEnv) World.blank [] (runAll (sampleAssigned ++ ps) World.blank).1
      (runAll (sampleAssigned ++ ps) World.blank).2 := by
  refine (Uncut.runAll (fun p hp ↦ ?_) .start).serial.runs
  rcases List.mem_append.mp hp with hp | hp
  · exact sampleAssigned_operates hp
  · exact h p hp

/-- The calls in flight together, by turns. -/
def tripsRun (ps : List (Request Unit)) (turns : List ℕ) :=
  takeTurns turns (ps.map fun p ↦ ⟨p, p⟩) World.blank

theorem tripsRun_calls {ps : List (Request Unit)} (h : ∀ p ∈ ps, Operates sampleEnv p)
    (turns : List ℕ) : Calls (Operates sampleEnv) World.blank (tripsRun ps turns).1
      (tripsRun ps turns).2.1 (tripsRun ps turns).2.2 := by
  have hstart : Calls (Operates sampleEnv) World.blank [] World.blank [] := .start
  exact (hstart.askAll h).takeTurns turns

end Towing.Trips
