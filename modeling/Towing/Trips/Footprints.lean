import Towing.Trips.Operations

namespace Towing.Trips

open Towing.Process Towing.Money

/-- The steps that only a few of the operations take. -/
inductive Kind
  | own
  | search
  | offer
  | free
  | settle
  | accept
  | job
  deriving DecidableEq, Repr

/-- What a driver does to the booking they are on. -/
def Cause.own : Cause → Option ℕ
  | .markEnRoute d | .arrived d | .start d | .complete d | .unable d => some d
  | _ => none

def Step.kind : Step → Option Kind
  | .move m => if m.cause.own.isSome then some .own else none
  | .enqueue _ (.search _) _ => some .search
  | .takeOfferLock _ _ => some .offer
  | .insertAttempt a => if a.outcome = .offered then some .offer else none
  | .releaseOfferLock _ => some .free
  | .resolveOffer _ _ _ | .revokeOutstanding _ _ => some .settle
  | .accept _ _ _ => some .accept
  | .startJob _ | .endJob _ _ => some .job
  | _ => none

attribute [local simp] Step.kind

/-- The request takes no step of the kind. -/
abbrev Avoids {α : Type} (k : Kind) (p : Request α) : Prop := p.Only fun l ↦ l.kind ≠ some k

variable {env : Env} {k : Kind} {b : ℕ} {α : Type}

theorem avoids_attempt {l : Step} {f : World → Except Failure α} (h : l.kind ≠ some k) :
    Avoids k (Proc.attempt l f) :=
  ⟨h, fun _ ↦ trivial⟩

theorem avoids_read (f : World → α) : Avoids k (read f) := avoids_attempt nofun

theorem avoids_check (f : World → Except Failure α) : Avoids k (check f) := avoids_attempt nofun

theorem avoids_throw (e : Failure) : Avoids k (throw e : Request α) := trivial

theorem avoids_enqueue {id : JobId} {payload : Payload} {delayMs : ℕ}
    (h : (Step.enqueue id payload delayMs).kind ≠ some k) : Avoids k (enqueue id payload delayMs) :=
  avoids_attempt h

theorem avoids_besteffort {p : Request Unit} (h : Avoids k p) : Avoids k (besteffort p) :=
  h.handle fun _ ↦ trivial

theorem avoids_transition {m : Move} (h : m.cause.own = none) : Avoids k (transition m) :=
  avoids_attempt (by simp [h])

theorem avoids_money (q : Money.Request α) : Avoids k (money q) := by
  refine Proc.Only.lift ?_
  induction q with
  | done r => trivial
  | step l next ih => exact ⟨nofun, ih⟩

/-! The offers and the waves. -/

theorem avoids_resolve (hf : k ≠ .free) (hs : k ≠ .settle) (d : ℕ) (outcome : AttemptOutcome) :
    Avoids k (OfferService.resolve b d outcome) := by
  refine Proc.Only.bind (avoids_attempt ?_) fun moved ↦ Proc.Only.when (avoids_attempt ?_)
  · simpa using hs.symm
  · simpa using hf.symm

theorem avoids_revokeEach (hf : k ≠ .free) (hs : k ≠ .settle) (ds : List ℕ) :
    Avoids k (OfferService.revokeEach b ds) := by
  induction ds with
  | nil => trivial
  | cons d ds ih => exact (avoids_resolve hf hs d _).bind fun _ ↦ ih

theorem avoids_revokeDrivers (hf : k ≠ .free) (hs : k ≠ .settle) (ds : List ℕ) :
    Avoids k (OfferService.revokeDrivers b ds) :=
  (avoids_read _).bind fun _ ↦ avoids_revokeEach hf hs _

theorem avoids_revokeAll (hf : k ≠ .free) (hs : k ≠ .settle) : Avoids k (OfferService.revokeAll b) :=
  (avoids_read _).bind fun _ ↦ avoids_revokeDrivers hf hs _

theorem avoids_releaseEach (hf : k ≠ .free) (ds : List ℕ) : Avoids k (OfferService.releaseEach ds) := by
  induction ds with
  | nil => trivial
  | cons d ds ih => exact (avoids_attempt (by simpa using hf.symm)).bind fun _ ↦ ih

theorem avoids_accept (hf : k ≠ .free) (hs : k ≠ .settle) (ha : k ≠ .accept) (d : ℕ) :
    Avoids k (OfferService.accept b d) := by
  refine (avoids_read _).bind fun found ↦ ?_
  cases found with
  | none => trivial
  | some r =>
    refine (Proc.Only.when (avoids_throw _)).bind fun _ ↦ ?_
    refine (avoids_read _).bind fun suspended ↦ ?_
    refine (avoids_attempt (by simpa using ha.symm)).bind fun _ ↦ ?_
    refine (avoids_attempt (by simpa using hs.symm)).bind fun losers ↦ ?_
    refine (avoids_releaseEach hf losers).bind fun _ ↦ avoids_attempt ?_
    simpa using hf.symm

theorem avoids_offer (ho : k ≠ .offer) (d wave timeoutSeconds : ℕ) :
    Avoids k (OfferService.offer b d wave timeoutSeconds) := by
  refine Proc.Only.bind (avoids_attempt (by simpa using ho.symm)) fun taken ↦ ?_
  split_ifs
  · trivial
  · refine Proc.Only.bind (avoids_attempt (by simpa using ho.symm)) fun _ ↦ ?_
    exact Proc.Only.bind (avoids_enqueue nofun) fun _ ↦ trivial

theorem avoids_offerEach (ho : k ≠ .offer) (wave timeoutSeconds : ℕ) (ds : List ℕ) :
    Avoids k (DispatchService.offerEach b wave timeoutSeconds ds) := by
  induction ds with
  | nil => trivial
  | cons d ds ih => exact (avoids_offer ho _ _ _).bind fun _ ↦ ih.bind fun _ ↦ trivial

theorem avoids_reschedule (h : k ≠ .search) (id : JobId) (delayMs : ℕ) :
    Avoids k (DispatchService.reschedule b id delayMs) :=
  avoids_enqueue (by simpa using h.symm)

theorem avoids_runWaveLocked (h : k ≠ .search) (hf : k ≠ .free) (hs : k ≠ .settle) (ho : k ≠ .offer)
    (ranked : List ℕ) : Avoids k (DispatchService.runWaveLocked env b ranked) := by
  refine (avoids_read _).bind fun found ↦ ?_
  cases found with
  | none => trivial
  | some r =>
    dsimp only
    split
    · trivial
    refine (avoids_read _).bind fun now ↦ ?_
    split
    · exact avoids_reschedule h _ _
    refine (avoids_read _).bind fun paused ↦ ?_
    split
    · exact (avoids_revokeAll hf hs).bind fun _ ↦ avoids_reschedule h _ _
    split
    · exact avoids_transition rfl
    refine (avoids_read _).bind fun candidates ↦ ?_
    refine Proc.Only.bind (avoids_attempt nofun) fun _ ↦ ?_
    exact (avoids_offerEach ho _ _ _).bind fun _ ↦ avoids_reschedule h _ _

theorem avoids_runWave (h : k ≠ .search) (hf : k ≠ .free) (hs : k ≠ .settle) (ho : k ≠ .offer)
    (ranked : List ℕ) : Avoids k (DispatchService.runWave env b ranked) := by
  refine Proc.Only.bind (avoids_attempt nofun) fun taken ↦ Proc.Only.when ?_
  refine Proc.Only.bind ?_ fun _ ↦ avoids_attempt nofun
  exact (avoids_runWaveLocked h hf hs ho ranked).handle fun _ ↦
    Proc.Only.bind (avoids_attempt nofun) fun _ ↦ trivial

theorem avoids_redispatch (h : k ≠ .search) (reason : String) :
    Avoids k (DispatchService.redispatch env b reason) := by
  refine (avoids_read _).bind fun found ↦ ?_
  cases found with
  | none => trivial
  | some r =>
    dsimp only
    split_ifs
    · trivial
    all_goals
      refine (avoids_read _).bind fun now ↦ ?_
      exact Proc.Only.bind (avoids_attempt nofun) fun _ ↦ avoids_reschedule h _ _

theorem avoids_adminOfferToDriver (h : k ≠ .search) (ho : k ≠ .offer) (d : ℕ) (ranked : List ℕ) :
    Avoids k (DispatchService.adminOfferToDriver env b d ranked) := by
  refine (avoids_read _).bind fun found ↦ ?_
  cases found with
  | none => trivial
  | some r =>
    dsimp only
    split_ifs
    · trivial
    · refine (avoids_read _).bind fun candidates ↦ ?_
      split_ifs
      · refine (avoids_offer ho _ _ _).bind fun offered ↦ ?_
        split_ifs
        · exact (avoids_reschedule h _ _).bind fun _ ↦ trivial
        · trivial
      · trivial

theorem avoids_runJob (hj : k ≠ .job) (h : k ≠ .search) (hf : k ≠ .free) (hs : k ≠ .settle)
    (ho : k ≠ .offer) (id : JobId) (ranked : List ℕ) (retryMs : Option ℕ) :
    Avoids k (DispatchService.runJob env id ranked retryMs) := by
  have hjob {l : Step} (hl : l.kind = some .job) : l.kind ≠ some k := by
    rw [hl]
    simpa using hj.symm
  refine Proc.Only.bind (avoids_attempt (hjob rfl)) fun found ↦ ?_
  cases found with
  | none => trivial
  | some payload =>
    have hprocess : Avoids k (DispatchService.process env ranked payload) := by
      cases payload with
      | search b => exact avoids_runWave h hf hs ho ranked
      | offerTimeout b d wave => exact avoids_resolve hf hs d _
      | revoke b reason holder => exact avoids_revokeAll hf hs
      | applySuspension d => trivial
    refine Proc.Only.handle (hprocess.bind fun _ ↦ ?_) fun e ↦ ?_
    · exact (avoids_read _).bind fun _ ↦ avoids_attempt (hjob rfl)
    · exact (avoids_read _).bind fun _ ↦ avoids_attempt (hjob rfl)

/-! The customer, the driver and the operator. -/

theorem avoids_create (h : k ≠ .search) (p : NewBooking) : Avoids k (BookingsService.create b p) := by
  refine (avoids_read _).bind fun now ↦ ?_
  refine (Proc.Only.when (avoids_throw _)).bind fun _ ↦ ?_
  refine (avoids_read _).bind fun zonePaused ↦ ?_
  refine (Proc.Only.when (avoids_throw _)).bind fun _ ↦ ?_
  refine (avoids_read _).bind fun disabled ↦ ?_
  refine (Proc.Only.when (avoids_throw _)).bind fun _ ↦ ?_
  refine Proc.Only.bind (avoids_attempt nofun) fun _ ↦ ?_
  exact (avoids_read _).bind fun _ ↦ avoids_besteffort (avoids_reschedule h _ _)

theorem avoids_retrySearch (h : k ≠ .search) (userId : ℕ) :
    Avoids k (BookingsService.retrySearch userId b) := by
  refine (avoids_check _).ignore.bind fun _ ↦ ?_
  refine (avoids_transition rfl).bind fun _ ↦ ?_
  exact (avoids_read _).bind fun _ ↦ avoids_besteffort (avoids_reschedule h _ _)

theorem avoids_afterCancel (driverId : Option ℕ) (compensationPaise : ℤ) (reason : String) :
    Avoids k (BookingsService.afterCancel b driverId compensationPaise reason) := by
  have hrevoke : Avoids k (besteffort (enqueue (.revoke b) (.revoke b .cancelled driverId) 0)) :=
    avoids_besteffort (avoids_enqueue nofun)
  cases driverId with
  | none => exact hrevoke.bind fun _ ↦ trivial
  | some d =>
    refine Proc.Only.bind (avoids_money _).ignore.when fun _ ↦ ?_
    exact hrevoke.bind fun _ ↦ avoids_besteffort (avoids_enqueue nofun)

theorem avoids_cancel (userId : ℕ) (body : BookingsService.BookingCancel) :
    Avoids k (BookingsService.cancel env userId b body) := by
  refine (avoids_check _).bind fun i ↦ ?_
  refine Proc.Only.bind (Proc.Only.when ?_) fun _ ↦ ?_
  · split
    · trivial
    · exact avoids_money _
  refine (avoids_transition rfl).bind fun _ ↦ ?_
  exact (avoids_afterCancel _ _ _).bind fun _ ↦ trivial

theorem avoids_completeByAdmin : Avoids k (JobExecutionService.completeByAdmin b) := by
  refine (avoids_read _).bind fun found ↦ ?_
  cases found with
  | none => trivial
  | some job =>
    refine (Proc.Only.when (avoids_throw _)).bind fun _ ↦ ?_
    exact (avoids_read _).bind fun _ ↦ avoids_transition rfl

theorem avoids_recordOutcome (d : ℕ) {outcome : AttemptOutcome} (h : outcome ≠ .offered) :
    Avoids k (JobExecutionService.recordOutcome b d outcome) :=
  (avoids_read _).bind fun _ ↦ avoids_attempt (by simp [h])

theorem avoids_adminCancel (body : AdminBookingsService.AdminBookingCancelBody) :
    Avoids k (AdminBookingsService.cancel env b body) := by
  refine (avoids_check _).bind fun i ↦ ?_
  refine (avoids_transition rfl).bind fun _ ↦ ?_
  exact (avoids_afterCancel _ _ _).bind fun _ ↦ trivial

theorem avoids_reassign (h : k ≠ .search) (hf : k ≠ .free) (hs : k ≠ .settle) (ho : k ≠ .offer)
    (mode : AdminBookingsService.ReassignMode) (driverFault : Bool) :
    Avoids k (AdminBookingsService.reassign env b mode driverFault) := by
  refine (avoids_check _).bind fun r ↦ ?_
  dsimp only
  split
  · trivial
  · refine (Proc.Only.when (avoids_throw _)).bind fun _ ↦ ?_
    refine (avoids_revokeAll hf hs).bind fun _ ↦ ?_
    refine (avoids_transition rfl).bind fun _ ↦ ?_
    refine (avoids_recordOutcome _ (by split_ifs <;> simp)).bind fun _ ↦ ?_
    cases mode with
    | resumeSearch => exact avoids_redispatch h _
    | offerToDriver d' ranked =>
      refine (avoids_adminOfferToDriver h ho d' ranked).bind fun outcome ↦ ?_
      cases outcome with
      | none => trivial
      | some exclusion => trivial

theorem avoids_override (target : BookingStatus) :
    Avoids k (AdminBookingsService.transitionOverride b target) := by
  refine (avoids_check _).bind fun r ↦ ?_
  refine (Proc.Only.when (avoids_throw _)).bind fun _ ↦ ?_
  split
  · exact avoids_completeByAdmin
  · exact (avoids_read _).bind fun now ↦ avoids_transition rfl

theorem avoids_suspension (userId : ℕ) : Avoids k (cancelSearching userId b) := by
  refine (avoids_read _).bind fun found ↦ ?_
  cases found with
  | none => trivial
  | some r =>
    refine avoids_besteffort ?_
    exact (avoids_transition rfl).bind fun _ ↦ avoids_enqueue nofun

theorem avoids_openDispute : Avoids k (AdminDisputesService.openDispute b) := by
  refine (avoids_check _).bind fun r ↦ ?_
  exact (Proc.Only.when (avoids_throw _)).bind fun _ ↦ avoids_attempt nofun

theorem avoids_ambient {l : Step} (h : l.ambient = true) : Avoids k (Proc.write l : Request Unit) := by
  refine avoids_attempt ?_
  cases l <;> simp_all [Step.ambient, Step.kind]

/-- The operations that may take a step of the kind. -/
inductive Takes (env : Env) : Kind → Request Unit → Prop
  | runJob {k : Kind} (id : JobId) (ranked : List ℕ) (retryMs : Option ℕ) (hk : k ≠ .own ∧ k ≠ .accept) :
      Takes env k (DispatchService.runJob env id ranked retryMs)
  | reassign {k : Kind} (b : ℕ) (mode : AdminBookingsService.ReassignMode) (driverFault : Bool)
      (hk : k ≠ .own ∧ k ≠ .accept ∧ k ≠ .job) : Takes env k (AdminBookingsService.reassign env b mode driverFault)
  | create (b : ℕ) (p : NewBooking) : Takes env .search (BookingsService.create b p)
  | retrySearch (userId b : ℕ) : Takes env .search (BookingsService.retrySearch userId b)
  | unable {k : Kind} (b driverId : ℕ) (reason : String) (hk : k = .own ∨ k = .search) :
      Takes env k (JobExecutionService.unable env b driverId reason)
  | accept {k : Kind} (b driverId : ℕ) (hk : k = .free ∨ k = .settle ∨ k = .accept) :
      Takes env k (OfferService.accept b driverId)
  | resolve {k : Kind} (b driverId : ℕ) (outcome : AttemptOutcome) (hk : k = .free ∨ k = .settle)
      (ho : outcome = .rejected ∨ outcome = .expired) :
      Takes env k (OfferService.resolve b driverId outcome)
  | revokeDrivers {k : Kind} (b : ℕ) (driverIds : List ℕ) (hk : k = .free ∨ k = .settle) :
      Takes env k (OfferService.revokeDrivers b driverIds)
  | markEnRoute (b driverId : ℕ) : Takes env .own (JobExecutionService.markEnRoute b driverId)
  | arrived (b driverId : ℕ) : Takes env .own (JobExecutionService.arrived b driverId)
  | start (b driverId : ℕ) (code : String) :
      Takes env .own (JobExecutionService.start env b driverId code)
  | complete (b driverId : ℕ) : Takes env .own (JobExecutionService.complete b driverId)

theorem operates_avoids (k : Kind) {p : Request Unit} (h : Operates env p) :
    Avoids k p ∨ Takes env k p := by
  have htransition (hk : k ≠ .own) (m : Move) : Avoids k (transition m) := by
    refine avoids_attempt ?_
    simp only [Step.kind]
    split_ifs
    · simpa using hk.symm
    · simp
  have hsettles (hk : ¬(k = .free ∨ k = .settle)) : k ≠ .free ∧ k ≠ .settle := not_or.mp hk
  cases h with
  | pays h => exact .inl (avoids_money _)
  | create b p =>
    by_cases hk : k = .search
    · subst hk
      exact .inr (.create b p)
    · exact .inl (avoids_create hk p)
  | retrySearch userId b =>
    by_cases hk : k = .search
    · subst hk
      exact .inr (.retrySearch userId b)
    · exact .inl (avoids_retrySearch hk userId)
  | quote userId b =>
    have hquote : Avoids k (BookingsService.cancellationQuote env userId b) :=
      (avoids_check _).bind fun _ ↦ trivial
    exact .inl hquote.ignore
  | cancel userId b body => exact .inl (avoids_cancel userId body).ignore
  | runJob id ranked retryMs =>
    by_cases hk : k ≠ .own ∧ k ≠ .accept
    · exact .inr (.runJob id ranked retryMs hk)
    · rw [not_and_or, not_not, not_not] at hk
      rcases hk with rfl | rfl
      · exact .inl (avoids_runJob (by simp) (by simp) (by simp) (by simp) (by simp) id ranked retryMs)
      · exact .inl (avoids_runJob (by simp) (by simp) (by simp) (by simp) (by simp) id ranked retryMs)
  | accept b d =>
    by_cases hk : k = .free ∨ k = .settle ∨ k = .accept
    · exact .inr (.accept b d hk)
    · simp only [not_or] at hk
      exact .inl (avoids_accept hk.1 hk.2.1 hk.2.2 d)
  | reject b d =>
    by_cases hk : k = .free ∨ k = .settle
    · exact .inr (.resolve b d _ hk (.inl rfl))
    · exact .inl (avoids_resolve (hsettles hk).1 (hsettles hk).2 d _)
  | expire b d =>
    by_cases hk : k = .free ∨ k = .settle
    · exact .inr (.resolve b d _ hk (.inr rfl))
    · exact .inl (avoids_resolve (hsettles hk).1 (hsettles hk).2 d _)
  | revokeDrivers b ds =>
    by_cases hk : k = .free ∨ k = .settle
    · exact .inr (.revokeDrivers b ds hk)
    · exact .inl (avoids_revokeDrivers (hsettles hk).1 (hsettles hk).2 ds)
  | markEnRoute b d =>
    by_cases hk : k = .own
    · subst hk
      exact .inr (.markEnRoute b d)
    · exact .inl (avoids_besteffort (htransition hk _))
  | arrived b d =>
    by_cases hk : k = .own
    · subst hk
      exact .inr (.arrived b d)
    · refine .inl ((avoids_check _).ignore.bind fun _ ↦ (avoids_check _).bind fun _ ↦ ?_)
      exact (avoids_read _).bind fun now ↦ htransition hk _
  | start b d code =>
    by_cases hk : k = .own
    · subst hk
      exact .inr (.start b d code)
    · refine .inl ((avoids_check _).ignore.bind fun _ ↦ Proc.Only.bind (avoids_attempt nofun) fun ok ↦ ?_)
      split_ifs
      · exact (avoids_read _).bind fun _ ↦ trivial
      · exact (avoids_read _).bind fun now ↦ htransition hk _
  | complete b d =>
    by_cases hk : k = .own
    · subst hk
      exact .inr (.complete b d)
    · exact .inl ((avoids_check _).bind fun job ↦ (avoids_read _).bind fun now ↦ htransition hk _)
  | unable b d reason =>
    by_cases hk : k = .own ∨ k = .search
    · exact .inr (.unable b d reason hk)
    · obtain ⟨hown, hsearch⟩ := not_or.mp hk
      refine .inl ((avoids_check _).ignore.bind fun _ ↦ (htransition hown _).bind fun _ ↦ ?_)
      refine (avoids_recordOutcome d (by simp)).bind fun _ ↦ ?_
      exact avoids_besteffort (avoids_redispatch hsearch _)
  | adminCancel b body => exact .inl (avoids_adminCancel body).ignore
  | reassign b mode driverFault =>
    by_cases hk : k ≠ .own ∧ k ≠ .accept ∧ k ≠ .job
    · exact .inr (.reassign b mode driverFault hk)
    · rw [not_and_or, not_and_or, not_not, not_not, not_not] at hk
      rcases hk with rfl | rfl | rfl
      · exact .inl (avoids_reassign (by simp) (by simp) (by simp) (by simp) mode driverFault)
      · exact .inl (avoids_reassign (by simp) (by simp) (by simp) (by simp) mode driverFault)
      · exact .inl (avoids_reassign (by simp) (by simp) (by simp) (by simp) mode driverFault)
  | override b target => exact .inl (avoids_override target)
  | suspension userId b => exact .inl (avoids_suspension userId)
  | openDispute b => exact .inl avoids_openDispute
  | updateDriverPay fleetId pay => exact .inl (avoids_money _)
  | setShare fleetId d share => exact .inl (avoids_money _)
  | ambient l h => exact .inl (avoids_ambient h)

end Towing.Trips
