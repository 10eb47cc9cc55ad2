import Towing.Trips.ActiveBookings
import Towing.Trips.Attempts
import Towing.Trips.SearchJobs

namespace Towing.Trips

open Towing.Process Towing.Money

/-- What tells a driver that a job is no longer theirs. -/
structure JobRevoked where
  driverId : ℕ
  bookingId : ℕ
  reason : RevokeReason
  deriving DecidableEq, Repr

/-- The trips, with the frames that have gone out to the drivers. -/
structure Notified where
  trips : World
  frames : List JobRevoked

inductive NotifiedStep
  | trips (l : Step)
  | emitJobRevoked (frame : JobRevoked)

instance : Store NotifiedStep Notified where
  commit
    | .trips l, w => { w with trips := w.trips.run l }
    | .emitJobRevoked frame, w => { w with frames := w.frames ++ [frame] }

abbrev NotifiedRequest (α : Type) := Proc NotifiedStep Notified Failure α

variable {α β : Type} {env : Env} {b d : ℕ}

namespace Notified

def silently (q : Request α) : NotifiedRequest α := q.lift NotifiedStep.trips Notified.trips

theorem silentlyEmbeds : Embeds NotifiedStep.trips Notified.trips fun w t ↦ { w with trips := t } where
  commit _ _ := rfl
  view_put _ _ := rfl
  put_put _ _ _ := rfl
  put_view _ := rfl

def emitJobRevoked (driverId b : ℕ) (reason : RevokeReason) : NotifiedRequest Unit :=
  Proc.write (.emitJobRevoked ⟨driverId, b, reason⟩)

/-- `revokeDrivers`, on the drivers who still hold an offer. -/
def revokeEach (b : ℕ) (reason : RevokeReason) : List ℕ → NotifiedRequest Unit
  | [] => pure ()
  | d :: ds => do
    let moved ← silently (OfferService.resolveOffer b d .revoked)
    Proc.when moved do
      silently (Proc.write (.releaseOfferLock d))
      emitJobRevoked d b reason
    revokeEach b reason ds

def revokeAll (b : ℕ) (reason : RevokeReason) : NotifiedRequest Unit := do
  let wanted ← silently (OfferService.pendingOffers b)
  let pending ← silently (OfferService.pendingOffers b)
  revokeEach b reason (pending.filter (· ∈ wanted))

open AdminBookingsService in
/-- `reassign`, with what it tells the drivers. -/
def reassign (env : Env) (b : ℕ) (mode : ReassignMode) (driverFault : Bool) : NotifiedRequest Unit := do
  let r ← silently (actionRow b)
  let refused : Failure := .api (.conflict
    ("Only a booking with an assigned driver can be reassigned (this one is " ++
      r.booking.status.label ++ ")") [("status", r.booking.status.label)])
  match r.booking.driverId with
  | none => throw refused
  | some previousDriverId =>
    Proc.when (!reassignable r.booking.status) (throw refused)
    revokeAll b .reassigned
    emitJobRevoked previousDriverId b .reassigned
    silently (transition ⟨b, .searching, .unassign none, false, .reassign previousDriverId⟩)
    silently (JobExecutionService.recordOutcome b previousDriverId
      (if driverFault then .unable else .reassigned))
    match mode with
    | .offerToDriver driverId ranked =>
      match ← silently (DispatchService.adminOfferToDriver env b driverId ranked) with
      | some exclusion => throw (.api ⟨422, "validation_failed",
          "The chosen driver cannot take this offer (" ++ exclusion ++ ")",
          [("exclusion", exclusion)]⟩)
      | none => pure ()
    | .resumeSearch => silently (DispatchService.redispatch env b "admin_reassign")

/-- Frames that have gone out are out. -/
theorem frames_exec (p : NotifiedRequest α) (w : Notified) : w.frames <+: (p.exec w).2.frames := by
  induction p generalizing w with
  | done r => exact List.prefix_refl _
  | step l next ih =>
    refine List.IsPrefix.trans ?_ (ih w (Store.commit l w))
    cases l with
    | trips l => exact List.prefix_refl _
    | emitJobRevoked frame => exact List.prefix_append _ _

/-- The request does what the other does, and tells drivers beside. -/
def Tells (p' : NotifiedRequest α) (p : Request α) : Prop :=
  ∀ w, (p'.exec w).1 = (p.exec w.trips).1 ∧ (p'.exec w).2.trips = (p.exec w.trips).2

namespace Tells

theorem silent (q : Request α) : Tells (silently q) q := by
  intro w
  rw [silently, Proc.exec_lift silentlyEmbeds]
  exact ⟨rfl, rfl⟩

theorem done (r : Except Failure α) : Tells (.done r) (.done r) := fun _ ↦ ⟨rfl, rfl⟩

theorem bind {p' : NotifiedRequest α} {p : Request α} {f' : α → NotifiedRequest β} {f : α → Request β}
    (hp : Tells p' p) (hf : ∀ a, Tells (f' a) (f a)) : Tells (p'.bind f') (p.bind f) := by
  intro w
  obtain ⟨hr, ht⟩ := hp w
  rw [Proc.exec_bind, Proc.exec_bind]
  rcases h' : p'.exec w with ⟨r', w'⟩
  rcases h : p.exec w.trips with ⟨r, t⟩
  rw [h', h] at hr ht
  dsimp only at hr ht
  subst hr ht
  cases r' with
  | ok a => exact hf a w'
  | error e => exact ⟨rfl, rfl⟩

theorem emit (driverId b : ℕ) (reason : RevokeReason) :
    Tells (emitJobRevoked driverId b reason) (.done (.ok ())) :=
  fun _ ↦ ⟨rfl, rfl⟩

theorem emit_then {driverId : ℕ} {reason : RevokeReason} {k' : NotifiedRequest α} {k : Request α}
    (hk : Tells k' k) : Tells ((emitJobRevoked driverId b reason).bind fun _ ↦ k') k :=
  (emit driverId b reason).bind fun _ ↦ hk

theorem then_emit {p' : NotifiedRequest Unit} {p : Request Unit} (hp : Tells p' p) (driverId : ℕ)
    (reason : RevokeReason) : Tells (p'.bind fun _ ↦ emitJobRevoked driverId b reason) p := by
  have h := hp.bind fun _ ↦ emit driverId b reason
  rwa [show (p.bind fun _ ↦ .done (.ok ())) = p from p.bind_done] at h

theorem when {c : Prop} [Decidable c] {p' : NotifiedRequest Unit} {p : Request Unit}
    (hp : Tells p' p) : Tells (Proc.when c p') (Proc.when c p) := by
  unfold Proc.when
  split_ifs
  · exact hp
  · exact done _

theorem revokeEach (b : ℕ) (reason : RevokeReason) (ds : List ℕ) :
    Tells (Notified.revokeEach b reason ds) (OfferService.revokeEach b ds) := by
  induction ds with
  | nil => exact done _
  | cons d ds ih =>
    have hresolve : Tells _ (OfferService.resolve b d .revoked) :=
      (silent (OfferService.resolveOffer b d .revoked)).bind fun moved ↦
        when (c := moved = true) ((silent (Proc.write (.releaseOfferLock d))).then_emit (b := b) d reason)
    have hrest := hresolve.bind fun _ ↦ ih
    rwa [Proc.bind_assoc] at hrest

theorem revokeAll (b : ℕ) (reason : RevokeReason) :
    Tells (Notified.revokeAll b reason) (OfferService.revokeAll b) :=
  (silent _).bind fun _ ↦ (silent _).bind fun _ ↦ revokeEach b reason _

theorem reassign (env : Env) (b : ℕ) (mode : AdminBookingsService.ReassignMode) (driverFault : Bool) :
    Tells (Notified.reassign env b mode driverFault)
      (AdminBookingsService.reassign env b mode driverFault) := by
  refine (silent _).bind fun r ↦ ?_
  dsimp only
  cases r.booking.driverId with
  | none => exact done _
  | some previousDriverId =>
    refine (when (done _)).bind fun _ ↦ (revokeAll b _).bind fun _ ↦ emit_then ?_
    refine (silent _).bind fun _ ↦ (silent _).bind fun _ ↦ ?_
    cases mode with
    | resumeSearch => exact silent _
    | offerToDriver d ranked =>
      refine (silent _).bind fun outcome ↦ ?_
      cases outcome with
      | none => exact done _
      | some exclusion => exact done _

end Tells

end Notified

/-! What is left of the booking's offers, and of its search. -/

open AdminBookingsService (ReassignMode reassign reassignable)

variable {w w' u : World} {r : Row}

/-- Nothing but offers of the booking has changed, and the locks of who held one. -/
structure Withdrawn (b : ℕ) (w w' : World) : Prop where
  money : w'.money = w.money
  placed : w'.placed = w.placed
  trips : w'.trips = w.trips
  jobs : w'.jobs = w.jobs
  queueUp : w'.queueUp = w.queueUp
  asked : ∀ b d, w'.asked b d = w.asked b d
  locks : ∀ d, w.asked b d = false → w'.offerLocks d = w.offerLocks d

theorem Withdrawn.refl (b : ℕ) (w : World) : Withdrawn b w w := ⟨rfl, rfl, rfl, rfl, rfl, fun _ _ ↦ rfl, fun _ _ ↦ rfl⟩

theorem Withdrawn.trans (h : Withdrawn b w w') (h' : Withdrawn b w' u) : Withdrawn b w u where
  money := h'.money.trans h.money
  placed := h'.placed.trans h.placed
  trips := h'.trips.trans h.trips
  jobs := h'.jobs.trans h.jobs
  queueUp := h'.queueUp.trans h.queueUp
  asked b d := (h'.asked b d).trans (h.asked b d)
  locks d hd := (h'.locks d ((h.asked b d).trans hd)).trans (h.locks d hd)

theorem asked_resolveOffer (c d' : ℕ) (outcome : AttemptOutcome) :
    (w.resolveOffer c d' outcome).asked b d = w.asked b d := by
  simp only [World.asked, World.resolveOffer, List.any_map]
  refine List.any_congr rfl fun a ↦ ?_
  simp only [Function.comp_apply]
  split_ifs <;> rfl

theorem asked_of_offered (h : w.attempts.any (World.isOffered b d) = true) : w.asked b d = true := by
  obtain ⟨a, ha, hoffered⟩ := List.any_eq_true.mp h
  simp only [World.isOffered, Bool.and_eq_true] at hoffered
  exact List.any_eq_true.mpr ⟨a, ha, by simpa using hoffered.1⟩

theorem revokeEach_exec (ds : List ℕ) (w : World) :
    ∃ w', (OfferService.revokeEach b ds).exec w = (.ok (), w') ∧ Withdrawn b w w' := by
  induction ds generalizing w with
  | nil => exact ⟨w, rfl, .refl b w⟩
  | cons d ds ih =>
    have hresolved : Withdrawn b w (w.resolveOffer b d .revoked) :=
      ⟨rfl, rfl, rfl, rfl, rfl, fun _ _ ↦ asked_resolveOffer _ _ _, fun _ _ ↦ rfl⟩
    by_cases hopen : w.attempts.any (World.isOffered b d) = true
    · obtain ⟨w', hexec, hw'⟩ := ih ((w.resolveOffer b d .revoked).run (.releaseOfferLock d))
      refine ⟨w', ?_, hresolved.trans (.trans ?_ hw')⟩
      · rw [OfferService.revokeEach, Proc.bind_eq, OfferService.resolve, Proc.bind_eq, Proc.bind_assoc,
          OfferService.resolveOffer, Proc.exec_next (Proc.exec_query _ _ w), hopen, Proc.when_pos rfl]
        exact (Proc.exec_next (Proc.exec_write _ _)).trans hexec
      · refine ⟨rfl, rfl, rfl, rfl, rfl, fun _ _ ↦ rfl, fun d' hd' ↦ ?_⟩
        refine Function.update_of_ne ?_ _ _
        rintro rfl
        rw [asked_resolveOffer, asked_of_offered hopen] at hd'
        cases hd'
    · obtain ⟨w', hexec, hw'⟩ := ih (w.resolveOffer b d .revoked)
      refine ⟨w', ?_, hresolved.trans hw'⟩
      rw [OfferService.revokeEach, Proc.bind_eq, OfferService.resolve, Proc.bind_eq, Proc.bind_assoc,
        OfferService.resolveOffer, Proc.exec_next (Proc.exec_query _ _ w), Proc.when_neg hopen]
      exact hexec

theorem revokeAll_exec (w : World) :
    ∃ w', (OfferService.revokeAll b).exec w = (.ok (), w') ∧ Withdrawn b w w' := by
  rw [OfferService.revokeAll, Proc.bind_eq, OfferService.pendingOffers, read_next,
    OfferService.revokeDrivers, Proc.bind_eq, OfferService.pendingOffers, read_next]
  exact revokeEach_exec _ w

/-- The move that takes the booking off its driver. -/
def reassignMove (b driverId : ℕ) : Move := ⟨b, .searching, .unassign none, false, .reassign driverId⟩

/-- What `reassign` does once the booking is off its driver. -/
def resume (env : Env) (b previousDriverId : ℕ) (mode : ReassignMode) (driverFault : Bool) :
    Request Unit := do
  JobExecutionService.recordOutcome b previousDriverId (if driverFault then .unable else .reassigned)
  match mode with
  | .offerToDriver driverId ranked =>
    match ← DispatchService.adminOfferToDriver env b driverId ranked with
    | some exclusion => throw (.api ⟨422, "validation_failed",
        "The chosen driver cannot take this offer (" ++ exclusion ++ ")",
        [("exclusion", exclusion)]⟩)
    | none => pure ()
  | .resumeSearch => DispatchService.redispatch env b "admin_reassign"

theorem reassign_exec (env : Env) (mode : ReassignMode) (driverFault : Bool) (hr : w.row b = some r)
    (hd : r.booking.driverId = some d) (hs : reassignable r.booking.status = true) :
    ∃ w', Withdrawn b w w' ∧ (reassign env b mode driverFault).exec w =
      ((transition (reassignMove b d)).bind fun _ ↦ resume env b d mode driverFault).exec w' := by
  obtain ⟨w', hexec, hw'⟩ := revokeAll_exec (b := b) w
  refine ⟨w', hw', ?_⟩
  have hrow : (AdminBookingsService.actionRow b).exec w = (.ok r, w) := by
    simp only [AdminBookingsService.actionRow, check, Proc.exec_attempt, hr]
    rfl
  unfold AdminBookingsService.reassign
  rw [Proc.bind_eq, Proc.exec_next hrow]
  simp only [hd, hs]
  rw [Proc.bind_eq, Proc.when_neg (by simp), Proc.bind_ok, Proc.bind_eq, Proc.exec_next hexec]
  rfl

/-- What the search is taken up from: the booking without its driver, who counts as asked. -/
structure Unassigned (b driverId : ℕ) (w w' : World) : Prop where
  row : ∃ r, w'.row b = some r ∧ r.booking.status = .searching ∧ r.booking.driverId = none
  jobs : w'.jobs = w.jobs
  queueUp : w'.queueUp = w.queueUp
  now : w'.now = w.now
  asked : ∀ d, w'.asked b d = (w.asked b d || decide (d = driverId))
  locks : ∀ d, w.asked b d = false → w'.offerLocks d = w.offerLocks d

theorem knows_congr {id : JobId} (hjobs : w'.jobs = w.jobs) (hnow : w'.now = w.now) :
    w'.knows id = w.knows id := by
  simp only [World.knows, hjobs, hnow]

theorem recordOutcome_exec (b d : ℕ) (outcome : AttemptOutcome) (w : World) : ∃ wave,
    (JobExecutionService.recordOutcome b d outcome).exec w =
      (.ok (), w.run (.insertAttempt ⟨b, d, wave, outcome⟩)) :=
  ⟨_, rfl⟩

theorem unassigned_exec (outcome : AttemptOutcome) (hw : Withdrawn b w w')
    (hmove : w'.moveError (reassignMove b d) = none) : ∃ u, Unassigned b d w u ∧
      (JobExecutionService.recordOutcome b d outcome).exec (w'.move (reassignMove b d)) =
        (.ok (), u) := by
  obtain ⟨wave, hexec⟩ := recordOutcome_exec b d outcome (w'.move (reassignMove b d))
  refine ⟨_, ?_, hexec⟩
  obtain ⟨r, hr, -, hrow⟩ := World.move_row hmove
  have hmoved : w'.move (reassignMove b d) = w'.setRow b (World.movedRow (reassignMove b d) r) := by
    rw [World.move, hmove, hr]
    rfl
  refine ⟨⟨_, hrow, rfl, rfl⟩, ?_, ?_, ?_, fun d' ↦ ?_, fun d' hd' ↦ ?_⟩
  · rw [hmoved]
    exact hw.jobs
  · rw [hmoved]
    exact hw.queueUp
  · have hnow : w'.now = w.now := congrArg Money.World.now hw.money
    rw [hmoved]
    exact hnow
  · have hinsert : ((w'.move (reassignMove b d)).run (.insertAttempt ⟨b, d, wave, outcome⟩)).asked b d' =
        (w'.asked b d' || decide (d' = d)) := by
      simp [World.asked, World.run, World.attempts_move, List.any_append, eq_comm]
    rw [hinsert, hw.asked]
  · rw [hmoved]
    exact hw.locks d' hd'

theorem enqueue_exec (id : JobId) (payload : Payload) (delayMs : ℕ) (w : World) :
    (enqueue id payload delayMs).exec w =
      (if w.queueUp then .ok () else .error (.error "the queue did not answer"),
        w.run (.enqueue id payload delayMs)) :=
  rfl

theorem redispatch_exec (env : Env) (hr : w.row b = some r) (hs : r.booking.status = .searching) (reason : String) :
    ∃ wave deadlineAt delayMs, (DispatchService.redispatch env b reason).exec w =
      (enqueue (.redispatch b reason) (.search b) delayMs).exec
        (w.run (.setWaveState b wave deadlineAt)) := by
  let config := env.configFor r.trip.zoneId
  refine ⟨r.trip.searchWave.getD 1, some (w.now + config.maxSearchSeconds * 1000),
    if env.redispatchFront then 0 else config.offerTimeoutSeconds * 1000, ?_⟩
  rw [DispatchService.redispatch, Proc.bind_eq, readRow, read_next, hr]
  simp only [hs, ne_eq, not_true_eq_false, if_false]
  rfl

/-- The drivers an exclusive offer may be made to. -/
def candidates (w : World) (b : ℕ) (ranked : List ℕ) : List ℕ :=
  (ranked.filter fun d ↦ !w.asked b d).take 50

theorem adminOffer_exec (env : Env) (d : ℕ) (ranked : List ℕ) (hr : w.row b = some r)
    (hs : r.booking.status = .searching) : ∃ wave timeoutSeconds,
    (DispatchService.adminOfferToDriver env b d ranked).exec w =
      (if d ∉ candidates w b ranked then .done (.ok (some "not_eligible"))
      else (OfferService.offer b d wave timeoutSeconds).bind fun offered ↦
        if offered then
          (enqueue (.adminOffer b) (.search b) (timeoutSeconds * 1000)).bind fun _ ↦ .done (.ok none)
        else .done (.ok (some "offer_locked"))).exec w := by
  refine ⟨r.trip.searchWave.getD 1, (env.configFor r.trip.zoneId).offerTimeoutSeconds, ?_⟩
  rw [DispatchService.adminOfferToDriver, Proc.bind_eq, readRow, read_next, hr]
  simp only [hs, ne_eq, not_true_eq_false, if_false]
  rw [Proc.bind_eq, DispatchService.select, read_next]
  rfl

theorem offer_locked (wave timeoutSeconds : ℕ) (h : w.lockFree (w.offerLocks d) = false) :
    ∃ u, (OfferService.offer b d wave timeoutSeconds).exec w = (.ok false, u) := by
  refine ⟨w.run (.takeOfferLock d (timeoutSeconds * 1000 + OfferService.offerLockGraceMs)), ?_⟩
  rw [OfferService.offer, Proc.bind_eq, Proc.exec_next (Proc.exec_query _ _ w), h]
  rfl

theorem offer_free (wave timeoutSeconds : ℕ) (h : w.lockFree (w.offerLocks d) = true) :
    (OfferService.offer b d wave timeoutSeconds).exec w =
      ((enqueue (.offerTimeout b d wave) (.offerTimeout b d wave) (timeoutSeconds * 1000)).bind
        fun _ ↦ .done (.ok true)).exec
        ((w.run (.takeOfferLock d (timeoutSeconds * 1000 + OfferService.offerLockGraceMs))).run
          (.insertAttempt ⟨b, d, wave, .offered⟩)) := by
  rw [OfferService.offer, Proc.bind_eq, Proc.exec_next (Proc.exec_query _ _ w), h]
  rfl

theorem adminOffer_refused (env : Env) {ranked : List ℕ} (hr : w.row b = some r) (hs : r.booking.status = .searching)
    (h : d ∉ candidates w b ranked ∨ w.lockFree (w.offerLocks d) = false) : ∃ why u,
    (DispatchService.adminOfferToDriver env b d ranked).exec w = (.ok (some why), u) := by
  obtain ⟨wave, timeoutSeconds, hexec⟩ := adminOffer_exec env d ranked hr hs
  rw [hexec]
  by_cases hd : d ∈ candidates w b ranked
  · obtain ⟨u, hu⟩ := offer_locked (b := b) wave timeoutSeconds (h.resolve_left (not_not.mpr hd))
    refine ⟨"offer_locked", u, ?_⟩
    rw [if_neg (not_not.mpr hd), Proc.exec_next hu]
    rfl
  · exact ⟨"not_eligible", w, by rw [if_pos hd]; rfl⟩

theorem enqueue_up {id : JobId} {payload : Payload} {delayMs : ℕ} (h : w.queueUp = true) :
    (enqueue id payload delayMs).exec w = (.ok (), w.run (.enqueue id payload delayMs)) := by
  rw [enqueue_exec, if_pos h]

theorem enqueue_down {id : JobId} {payload : Payload} {delayMs : ℕ} (h : w.queueUp = false) :
    (enqueue id payload delayMs).exec w =
      (.error (.error "the queue did not answer"), w.run (.enqueue id payload delayMs)) := by
  rw [enqueue_exec, h]
  rfl

/-- An enqueue leaves all but the jobs. -/
theorem run_enqueue (id : JobId) (payload : Payload) (delayMs : ℕ) :
    (w.run (.enqueue id payload delayMs)).money = w.money ∧
      (w.run (.enqueue id payload delayMs)).queueUp = w.queueUp := by
  simp only [World.run]
  split_ifs <;> exact ⟨rfl, rfl⟩

/-- An offer that is made comes with its expiry and the wave after it, unless the queue
is down. -/
theorem adminOffer_made (env : Env) {ranked : List ℕ} (hr : w.row b = some r) (hs : r.booking.status = .searching)
    (hd : d ∈ candidates w b ranked) (hlock : w.lockFree (w.offerLocks d) = true) :
    (w.queueUp = false → ∃ e u, (DispatchService.adminOfferToDriver env b d ranked).exec w =
      (.error e, u)) ∧
    (w.queueUp = true → ∃ u, (DispatchService.adminOfferToDriver env b d ranked).exec w = (.ok none, u) ∧
      u.money = w.money ∧
      u.searches b = w.searches b + if w.knows (.adminOffer b) then 0 else 1) := by
  obtain ⟨wave, timeoutSeconds, hexec⟩ := adminOffer_exec env d ranked hr hs
  rw [hexec, if_neg (not_not.mpr hd)]
  have hoffer := offer_free (b := b) wave timeoutSeconds hlock
  let offered := (w.run (.takeOfferLock d (timeoutSeconds * 1000 + OfferService.offerLockGraceMs))).run
    (.insertAttempt ⟨b, d, wave, .offered⟩)
  obtain ⟨hqueue, hjobs, hmoney⟩ : offered.queueUp = w.queueUp ∧ offered.jobs = w.jobs ∧
      offered.money = w.money := by
    simp only [offered, World.run, hlock]
    exact ⟨rfl, rfl, rfl⟩
  constructor
  · intro hdown
    rw [Proc.exec_stop (enqueue_down (hqueue.trans hdown))] at hoffer
    exact ⟨_, _, Proc.exec_stop hoffer⟩
  · intro hup
    rw [Proc.exec_next (enqueue_up (hqueue.trans hup))] at hoffer
    let timed := offered.run (.enqueue (.offerTimeout b d wave) (.offerTimeout b d wave)
      (timeoutSeconds * 1000))
    obtain ⟨htmoney, htqueue⟩ := run_enqueue (w := offered) (.offerTimeout b d wave)
      (.offerTimeout b d wave) (timeoutSeconds * 1000)
    have htup : timed.queueUp = true := htqueue.trans (hqueue.trans hup)
    refine ⟨timed.run (.enqueue (.adminOffer b) (.search b) (timeoutSeconds * 1000)), ?_, ?_, ?_⟩
    · rw [Proc.exec_next hoffer]
      exact Proc.exec_next (enqueue_up htup)
    · exact (run_enqueue _ _ _).1.trans (htmoney.trans hmoney)
    · have hknows : timed.knows (.adminOffer b) = w.knows (.adminOffer b) := by
        have hne : JobId.adminOffer b ≠ .offerTimeout b d wave := fun h ↦ (by cases h)
        exact (World.knows_enqueue_ne hne _ _).trans
          (knows_congr hjobs (congrArg Money.World.now hmoney))
      have hsearches : timed.searches b = w.searches b := by
        have hnone : timed.searches b = offered.searches b + _ := World.searches_enqueue _ _
        rw [World.searches_congr hjobs] at hnone
        simpa using hnone
      rw [World.searches_enqueue, hsearches, hknows, htup]
      cases w.knows (.adminOffer b) <;> simp

/-- The job that takes the search up again. -/
def resumeJob (b : ℕ) : ReassignMode → JobId
  | .resumeSearch => .redispatch b "admin_reassign"
  | .offerToDriver _ _ => .adminOffer b

/-- An exclusive offer would be made: the driver is among those selected, and free. -/
def Offerable (w : World) (b previousDriverId : ℕ) : ReassignMode → Prop
  | .resumeSearch => True
  | .offerToDriver d ranked =>
    d ∈ (ranked.filter fun d' ↦ !(w.asked b d' || decide (d' = previousDriverId))).take 50 ∧
      w.lockFree (w.offerLocks d) = true

theorem Unassigned.candidates (h : Unassigned b d w u) (ranked : List ℕ) :
    candidates u b ranked = (ranked.filter fun d' ↦ !(w.asked b d' || decide (d' = d))).take 50 := by
  unfold Trips.candidates
  congr 2
  funext d'
  rw [h.asked]

theorem driverOf_none {w' : World} (hr : w.row b = some r) (hd : r.booking.driverId = none)
    (hmoney : w'.money = w.money) : w'.driverOf b = none := by
  have hdriver : w.driverOf b = none := by
    rw [World.core_driverOf, World.core_some hr]
    exact hd
  simpa [World.driverOf, hmoney] using hdriver

theorem Unassigned.lockFree {d' : ℕ} (h : Unassigned b d w u) (hd : w.asked b d' = false) :
    u.lockFree (u.offerLocks d') = w.lockFree (w.offerLocks d') := by
  unfold World.lockFree
  rw [h.now, h.locks d' hd]

/-- The search is taken up again, or the offer made, where the queue answers and the
driver can be offered the booking. -/
theorem resume_ok {mode : ReassignMode} {driverFault : Bool} (hw : Withdrawn b w w')
    (hmove : w'.moveError (reassignMove b d) = none) (hup : w.queueUp = true)
    (hoffer : Offerable w b d mode) :
    ∃ t, (resume env b d mode driverFault).exec (w'.move (reassignMove b d)) = (.ok (), t) ∧
      t.driverOf b = none ∧
      t.searches b = w.searches b + if w.knows (resumeJob b mode) then 0 else 1 := by
  obtain ⟨u, hu, hexec⟩ := unassigned_exec (if driverFault then .unable else .reassigned) hw hmove
  obtain ⟨r, hr, hs, hd⟩ := hu.row
  have huup : u.queueUp = true := hu.queueUp.trans hup
  unfold resume
  rw [Proc.bind_eq, Proc.exec_next hexec]
  cases mode with
  | resumeSearch =>
    obtain ⟨wave, deadlineAt, delayMs, hredispatch⟩ :=
      redispatch_exec env hr hs "admin_reassign"
    let u' := u.run (.setWaveState b wave deadlineAt)
    have hu'up : u'.queueUp = true := huup
    refine ⟨u'.run (.enqueue (.redispatch b "admin_reassign") (.search b) delayMs), ?_, ?_, ?_⟩
    · exact hredispatch.trans (enqueue_up hu'up)
    · exact driverOf_none hr hd (run_enqueue _ _ _).1
    · have hsearches : u'.searches b = w.searches b := World.searches_congr hu.jobs
      have hknows : u'.knows (.redispatch b "admin_reassign") = w.knows (.redispatch b "admin_reassign") :=
        knows_congr hu.jobs hu.now
      rw [World.searches_enqueue, hsearches, hknows, hu'up, resumeJob]
      cases w.knows (.redispatch b "admin_reassign") <;> simp
  | offerToDriver d' ranked =>
    obtain ⟨hd', hlock⟩ := hoffer
    have hasked : w.asked b d' = false := by
      have hfilter := (List.mem_filter.mp (List.mem_of_mem_take hd')).2
      simp only [Bool.not_eq_true', Bool.or_eq_false_iff] at hfilter
      exact hfilter.1
    rw [← hu.candidates ranked] at hd'
    obtain ⟨t, ht, hmoney, hsearches⟩ :=
      (adminOffer_made env hr hs hd' ((hu.lockFree hasked).trans hlock)).2 huup
    refine ⟨t, Proc.exec_next ht, driverOf_none hr hd hmoney, ?_⟩
    rw [hsearches, World.searches_congr hu.jobs, knows_congr hu.jobs hu.now]
    rfl

/-- Otherwise the operator sees an error. -/
theorem resume_fails {mode : ReassignMode} {driverFault : Bool} (hw : Withdrawn b w w')
    (hmove : w'.moveError (reassignMove b d) = none)
    (hfails : ¬(w.queueUp = true ∧ Offerable w b d mode)) :
    ∃ e t, (resume env b d mode driverFault).exec (w'.move (reassignMove b d)) = (.error e, t) := by
  obtain ⟨u, hu, hexec⟩ := unassigned_exec (if driverFault then .unable else .reassigned) hw hmove
  obtain ⟨r, hr, hs, hd⟩ := hu.row
  unfold resume
  rw [Proc.bind_eq, Proc.exec_next hexec]
  cases mode with
  | resumeSearch =>
    have hdown : w.queueUp = false := by
      by_contra hup
      exact hfails ⟨Bool.of_not_eq_false hup, trivial⟩
    obtain ⟨wave, deadlineAt, delayMs, hredispatch⟩ :=
      redispatch_exec env hr hs "admin_reassign"
    have hudown : (u.run (.setWaveState b wave deadlineAt)).queueUp = false := hu.queueUp.trans hdown
    exact ⟨_, _, hredispatch.trans (enqueue_down hudown)⟩
  | offerToDriver d' ranked =>
    by_cases hd' : d' ∈ candidates u b ranked
    · have hasked : w.asked b d' = false := by
        rw [hu.candidates] at hd'
        have hfilter := (List.mem_filter.mp (List.mem_of_mem_take hd')).2
        simp only [Bool.not_eq_true', Bool.or_eq_false_iff] at hfilter
        exact hfilter.1
      by_cases hlock : u.lockFree (u.offerLocks d') = true
      · have hdown : w.queueUp = false := by
          by_contra hup
          refine hfails ⟨Bool.of_not_eq_false hup, ?_, (hu.lockFree hasked).symm.trans hlock⟩
          rwa [← hu.candidates]
        obtain ⟨e, t, ht⟩ := (adminOffer_made env hr hs hd' hlock).1 (hu.queueUp.trans hdown)
        exact ⟨e, t, Proc.exec_stop ht⟩
      · obtain ⟨why, t, ht⟩ := adminOffer_refused env hr hs (.inr (Bool.of_not_eq_true hlock))
        exact ⟨_, t, Proc.exec_next ht⟩
    · obtain ⟨why, t, ht⟩ := adminOffer_refused env hr hs (.inl hd')
      exact ⟨_, t, Proc.exec_next ht⟩

/-! Refused, or with the search kept alive. -/

/-- A reassign that fails has told no driver and left the booking and its attempts as
they were, and one that takes the booking off its driver leaves a wave of it to come. -/
def ReassignHolds (env : Env) (b : ℕ) (mode : ReassignMode) (driverFault : Bool) (w : Notified) : Prop :=
  let after := (Notified.reassign env b mode driverFault).exec w
  (∀ e, after.1 = .error e → after.2.frames = w.frames ∧
      after.2.trips.attempts = w.trips.attempts ∧ after.2.trips.row b = w.trips.row b) ∧
    (w.trips.driverOf b ≠ none → after.2.trips.driverOf b = none → 0 < after.2.trips.searches b)

/-- The reassign is let in: the booking has a driver, in one of the states that hold one. -/
structure LetIn (w : World) (b d : ℕ) (r : Row) : Prop where
  row : w.row b = some r
  driver : r.booking.driverId = some d
  status : reassignable r.booking.status = true

theorem actionRow_told {n : Notified} (hr : n.trips.row b = some r) :
    (Notified.silently (AdminBookingsService.actionRow b)).exec n = (.ok r, n) := by
  rw [Notified.silently, Proc.exec_lift Notified.silentlyEmbeds]
  simp only [AdminBookingsService.actionRow, check, Proc.exec_attempt, hr]
  rfl

theorem reassign_refused (env : Env) {n : Notified} (mode : ReassignMode) (driverFault : Bool)
    (h : ∀ r d, ¬LetIn n.trips b d r) :
    ∃ e, (Notified.reassign env b mode driverFault).exec n = (.error e, n) := by
  unfold Notified.reassign
  rw [Proc.bind_eq]
  cases hr : n.trips.row b with
  | none =>
    have hrow : (Notified.silently (AdminBookingsService.actionRow b)).exec n = (.error notFound, n) := by
      rw [Notified.silently, Proc.exec_lift Notified.silentlyEmbeds]
      simp only [AdminBookingsService.actionRow, check, Proc.exec_attempt, hr]
      rfl
    exact ⟨_, Proc.exec_stop hrow⟩
  | some r =>
    rw [Proc.exec_next (actionRow_told hr)]
    cases hd : r.booking.driverId with
    | none => exact ⟨_, rfl⟩
    | some d =>
      have hs : reassignable r.booking.status = false := by
        by_contra hs
        exact h r d ⟨hr, hd, Bool.of_not_eq_false hs⟩
      dsimp only
      rw [Proc.bind_eq, Proc.when_pos (by simp [hs])]
      exact ⟨_, rfl⟩

/-- The holder hears of it before anything is decided. -/
theorem reassign_tells (env : Env) {n : Notified} (mode : ReassignMode) (driverFault : Bool)
    (h : LetIn n.trips b d r) :
    n.frames.length < ((Notified.reassign env b mode driverFault).exec n).2.frames.length := by
  obtain ⟨w', hexec, -⟩ := revokeAll_exec (b := b) n.trips
  rcases hr : (Notified.revokeAll b .reassigned).exec n with ⟨r', n'⟩
  have hanswer := (Notified.Tells.revokeAll b .reassigned n).1
  have hgrow := Notified.frames_exec (Notified.revokeAll b .reassigned) n
  rw [hr, hexec] at hanswer
  rw [hr] at hgrow
  dsimp only at hanswer hgrow
  subst hanswer
  unfold Notified.reassign
  rw [Proc.bind_eq, Proc.exec_next (actionRow_told h.row)]
  simp only [h.driver, h.status]
  rw [Proc.bind_eq, Proc.when_neg (by simp), Proc.bind_ok, Proc.bind_eq, Proc.exec_next hr, Proc.bind_eq]
  have htold : (Notified.emitJobRevoked d b .reassigned).exec n' =
      (.ok (), { n' with frames := n'.frames ++ [⟨d, b, .reassigned⟩] }) := rfl
  rw [Proc.exec_next htold]
  refine Nat.lt_of_lt_of_le ?_ (Notified.frames_exec _ _).length_le
  have hlength := hgrow.length_le
  simp only [List.length_append, List.length_singleton]
  omega

variable {s₀ : World} {ps : List (Request Unit)} {es : List (Event Step World)} {n : Notified}

/-- What a reassign that is let in needs to go through, with a search after it. -/
def GoesThrough (w : World) (b d : ℕ) (mode : ReassignMode) (r : Row) : Prop :=
  r.booking.status ≠ .inProgress ∧ w.queueUp = true ∧ Offerable w b d mode ∧
    (w.knows (resumeJob b mode) = true → 0 < w.searches b)

theorem moveError_congr {m : Move} (hmoney : w'.money = w.money) (hplaced : w'.placed = w.placed)
    (htrips : w'.trips = w.trips) : w'.moveError m = w.moveError m := by
  have hrow (c : ℕ) : w'.row c = w.row c := World.row_of_eq (congrArg Money.World.bookings hmoney) htrips
  have hclash (r : Row) : w'.clash m.bookingId r = w.clash m.bookingId r := by
    simp only [World.clash, hplaced, hrow]
  simp only [World.moveError, World.storeError, hmoney, hrow, hclash]

theorem searching_of_reassignable {s : BookingStatus} (hs : reassignable s = true) :
    activeForUser s = true ∧ (.searching ∈ legalTransitions s ↔ s ≠ .inProgress) := by
  revert hs
  cases s <;> decide

/-- A reassign that is let in succeeds exactly where nothing stands against it. -/
theorem reassign_outcome (env : Env) (hw : w.Constrained) (hin : LetIn w b d r) (mode : ReassignMode)
    (driverFault : Bool) :
    (r.booking.status ≠ .inProgress → w.queueUp = true → Offerable w b d mode →
      ∃ t, (reassign env b mode driverFault).exec w = (.ok (), t) ∧ t.driverOf b = none ∧
        t.searches b = w.searches b + if w.knows (resumeJob b mode) then 0 else 1) ∧
    (¬(r.booking.status ≠ .inProgress ∧ w.queueUp = true ∧ Offerable w b d mode) →
      ∃ e t, (reassign env b mode driverFault).exec w = (.error e, t)) := by
  obtain ⟨w', hwithdrawn, hexec⟩ :=
    reassign_exec env mode driverFault hin.row hin.driver hin.status
  obtain ⟨hactive, hlegal⟩ := searching_of_reassignable hin.status
  have herror : w'.moveError (reassignMove b d) = w.moveError (reassignMove b d) :=
    moveError_congr hwithdrawn.money hwithdrawn.placed hwithdrawn.trips
  have hmove (hs : r.booking.status ≠ .inProgress) : w'.moveError (reassignMove b d) = none :=
    herror.trans (World.unassign_ok hw hin.row (hlegal.mpr hs) hactive)
  rw [hexec]
  constructor
  · intro hs hup hoffer
    rw [transition_next (hmove hs)]
    exact resume_ok hwithdrawn (hmove hs) hup hoffer
  · intro hstands
    by_cases hs : r.booking.status = .inProgress
    · have hrefused : ∃ e, w'.moveError (reassignMove b d) = some e := by
        rw [← Option.ne_none_iff_exists', herror]
        intro hnone
        obtain ⟨r', hr', hl⟩ := World.legal_of_moveError hnone
        obtain rfl : r = r' := Option.some.inj (hin.row.symm.trans hr')
        exact hlegal.mp hl hs
      obtain ⟨e, he⟩ := hrefused
      exact ⟨e, w', transition_stop he⟩
    · rw [transition_next (hmove hs)]
      exact resume_fails hwithdrawn (hmove hs) fun h ↦ hstands ⟨hs, h⟩

/-- A reassign does as it should exactly if it is refused at once or, on a trip not yet
begun, can be seen through to a search. -/
theorem reassign_holds_iff (h₀ : s₀.Constrained) (h : Runs (Operates env) s₀ ps n.trips es)
    (mode : ReassignMode) (driverFault : Bool) :
    ReassignHolds env b mode driverFault n ↔
      ∀ r d, LetIn n.trips b d r → GoesThrough n.trips b d mode r := by
  have hconstrained := h₀.runs h
  obtain ⟨hanswer, htrips⟩ := Notified.Tells.reassign env b mode driverFault n
  constructor
  · rintro ⟨hfail, hsearch⟩ r d hin
    obtain ⟨hok, herror⟩ := reassign_outcome env hconstrained hin mode driverFault
    by_cases hstands : r.booking.status ≠ .inProgress ∧ n.trips.queueUp = true ∧
        Offerable n.trips b d mode
    · obtain ⟨hs, hup, hoffer⟩ := hstands
      obtain ⟨t, hexec, hdriver, hsearches⟩ := hok hs hup hoffer
      refine ⟨hs, hup, hoffer, fun hknown ↦ ?_⟩
      rw [hexec] at htrips
      rw [htrips, hsearches, hknown, hdriver] at hsearch
      refine hsearch ?_ rfl
      rw [World.core_driverOf, World.core_some hin.row]
      exact fun hnone ↦ by simp [Row.core, hin.driver] at hnone
    · -- It fails after the holder has been told.
      obtain ⟨e, t, hexec⟩ := herror hstands
      have htold := reassign_tells env mode driverFault hin
      rw [hexec] at hanswer
      rw [(hfail e hanswer).1] at htold
      exact absurd htold (Nat.lt_irrefl _)
  · intro hgoes
    by_cases hin : ∃ r d, LetIn n.trips b d r
    · obtain ⟨r, d, hin⟩ := hin
      obtain ⟨hs, hup, hoffer, hknown⟩ := hgoes r d hin
      obtain ⟨hok, -⟩ := reassign_outcome env hconstrained hin mode driverFault
      obtain ⟨t, hexec, -, hsearches⟩ := hok hs hup hoffer
      rw [hexec] at hanswer htrips
      refine ⟨fun e he ↦ ?_, fun _ _ ↦ ?_⟩
      · rw [hanswer] at he
        cases he
      · rw [htrips, hsearches]
        cases hk : n.trips.knows (resumeJob b mode) with
        | true => exact Nat.lt_of_lt_of_le (hknown hk) (Nat.le_add_right _ _)
        | false => simp
    · obtain ⟨e, hexec⟩ := reassign_refused env mode driverFault
        fun r d hrd ↦ hin ⟨r, d, hrd⟩
      unfold ReassignHolds
      rw [hexec]
      exact ⟨fun _ _ ↦ ⟨rfl, rfl, rfl⟩, fun hd hd' ↦ absurd hd' hd⟩

def sampleHeld : Notified := ⟨(runAll sampleAssigned World.blank).1, []⟩

theorem reassign_holds_iff_sample : ReassignHolds sampleEnv 0 .resumeSearch false sampleHeld := by
  have hrun : Runs (Operates sampleEnv) World.blank [] sampleHeld.trips
      (runAll sampleAssigned World.blank).2 :=
    (Uncut.runAll (fun _ hp ↦ sampleAssigned_operates hp) .start).serial.runs
  refine (reassign_holds_iff (n := sampleHeld) World.constrained_blank hrun .resumeSearch false).mpr
    fun r d hin ↦ ?_
  have hstatus : sampleHeld.trips.status 0 = some .assigned := by decide +kernel
  rw [World.core_status, World.core_some hin.row] at hstatus
  have hs : r.booking.status = .assigned := Option.some.inj hstatus
  refine ⟨?_, by decide +kernel, trivial, fun hknown ↦ ?_⟩
  · rw [hs]
    decide
  · have hnew : sampleHeld.trips.knows (resumeJob 0 .resumeSearch) = false := by decide +kernel
    rw [hnew] at hknown
    cases hknown

/-- The booking is held, the wave after the offer has found it so, and the operator's
driver is not to be had. -/
def sampleIdle : List (Request Unit) :=
  [money (Proc.write (.tick 20000)), DispatchService.runJob sampleEnv (.wave 0 1) [] none]

theorem sampleIdle_operates {p : Request Unit} (h : p ∈ sampleIdle) : Operates sampleEnv p := by
  simp only [sampleIdle, List.mem_cons, List.not_mem_nil, or_false] at h
  rcases h with rfl | rfl
  · exact .pays (.outside _ rfl)
  · exact .runJob (.wave 0 1) [] none

def sampleQuiet : Notified := ⟨(runAll (sampleAssigned ++ sampleIdle) World.blank).1, []⟩

theorem sampleQuiet_runs : Runs (Operates sampleEnv) World.blank [] sampleQuiet.trips
    (runAll (sampleAssigned ++ sampleIdle) World.blank).2 := by
  have hrun := sampleAssigned_runs fun p (hp : p ∈ sampleIdle) ↦ sampleIdle_operates hp
  unfold sampleQuiet
  dsimp only
  exact hrun

theorem ReassignHolds.search {mode : ReassignMode} {driverFault : Bool}
    (h : ReassignHolds env b mode driverFault n) (hd : n.trips.driverOf b ≠ none)
    (hleft : ((Notified.reassign env b mode driverFault).exec n).2.trips.driverOf b = none) :
    0 < ((Notified.reassign env b mode driverFault).exec n).2.trips.searches b :=
  h.2 hd hleft

theorem sampleQuiet_holder : sampleQuiet.trips.driverOf 0 = some 7 := by decide +kernel

theorem sampleQuiet_stranded :
    ((Notified.reassign sampleEnv 0 (.offerToDriver 8 []) false).exec sampleQuiet).2.trips.driverOf 0 =
      none ∧
    ((Notified.reassign sampleEnv 0 (.offerToDriver 8 []) false).exec sampleQuiet).2.trips.searches 0 =
      0 := by
  decide +kernel

theorem reassign_strands : ¬∀ (env : Env) (w : Notified) (ps : List (Request Unit))
    (es : List (Event Step World)) (b : ℕ) (mode : ReassignMode) (driverFault : Bool),
      Runs (Operates env) World.blank ps w.trips es → ReassignHolds env b mode driverFault w := by
  intro h
  have hholds := h sampleEnv sampleQuiet [] _ 0 (.offerToDriver 8 []) false sampleQuiet_runs
  have hholder : sampleQuiet.trips.driverOf 0 ≠ none := by
    rw [sampleQuiet_holder]
    exact Option.some_ne_none 7
  obtain ⟨hleft, hnone⟩ := sampleQuiet_stranded
  have hsearch := hholds.search hholder hleft
  rw [hnone] at hsearch
  exact absurd hsearch (Nat.lt_irrefl 0)

end Towing.Trips
