import Towing.Process.Permits
import Towing.Trips.ActiveBookings
import Towing.Trips.Clock
import Towing.Trips.OwnJob
import Mathlib.Tactic.NormNum

namespace Towing.Trips

open Towing.Process Towing.Money

variable {P α : Type} {env : Env} {haversineMeters : P → P → ℚ} {b d : ℕ}

def enRouteMove (b d : ℕ) : Move := ⟨b, .enRoute, .nothing, false, .markEnRoute d⟩

/-- What a request may do about setting off: a ping moves a booking on what it has read
of the anchor, and puts its own position there; the other requests do neither. -/
def Evidenced (haversineMeters : P → P → ℚ) (asked : RoadRequest P Unit)
    (past : List (Event (RoadStep P) (Road P))) (l : RoadStep P) : Prop :=
  (∀ m, l = .trips (.move m) → m.target = .enRoute →
    ∃ d q start, asked = EnRouteWatcher.onPing haversineMeters d q ∧ m = enRouteMove m.bookingId d ∧
      EnRouteWatcher.enRouteMeters ≤ haversineMeters q start ∧
      ∃ r ∈ past, r.before.anchorOf m.bookingId = some start) ∧
  ∀ b q, l = .setAnchor b q → ∃ d, asked = EnRouteWatcher.onPing haversineMeters d q

/-! The operations set nobody off. -/

/-- The step is no driver's setting off. -/
def Step.Stays (l : Step) : Prop := ∀ m d, l = .move m → m.cause ≠ .markEnRoute d

theorem stays_avoids {p : Request α} (h : Avoids .own p) : p.Only Step.Stays := by
  refine h.mono fun l hl m d hm hcause ↦ ?_
  subst hm
  simp [Step.kind, Cause.own, hcause] at hl

theorem stays_transition {m : Move} (h : ∀ d, m.cause ≠ .markEnRoute d) :
    (transition m).Only Step.Stays :=
  ⟨fun m' d hm ↦ (by cases hm; exact h d), fun _ ↦ trivial⟩

theorem operates_stays {q : Request Unit} (h : Operates env q)
    (hq : ∀ b d, q ≠ JobExecutionService.markEnRoute b d) : q.Only Step.Stays := by
  have hjob (b d : ℕ) : (JobExecutionService.requireDriverJob b d).Only Step.Stays :=
    stays_avoids (avoids_check _)
  rcases operates_avoids .own h with hp | hp
  · exact stays_avoids hp
  cases hp with
  | markEnRoute b d => exact absurd rfl (hq b d)
  | arrived b d =>
    refine (hjob b d).ignore.bind fun _ ↦ (stays_avoids (avoids_check _)).bind fun _ ↦ ?_
    exact (stays_avoids (avoids_read _)).bind fun now ↦ stays_transition fun _ h ↦ by cases h
  | start b d code =>
    refine (hjob b d).ignore.bind fun _ ↦ ?_
    refine Proc.Only.bind (stays_avoids (avoids_attempt nofun)) fun ok ↦ ?_
    split_ifs
    · exact (stays_avoids (avoids_read _)).bind fun _ ↦ trivial
    · exact (stays_avoids (avoids_read _)).bind fun now ↦ stays_transition fun _ h ↦ by cases h
  | complete b d =>
    refine (hjob b d).bind fun job ↦ ?_
    exact (stays_avoids (avoids_read _)).bind fun now ↦ stays_transition fun _ h ↦ by cases h
  | unable b d reason =>
    refine (hjob b d).ignore.bind fun _ ↦ (stays_transition fun _ h ↦ (by cases h)).bind fun _ ↦ ?_
    refine (stays_avoids (avoids_recordOutcome d (by simp))).bind fun _ ↦ ?_
    exact stays_avoids (avoids_besteffort (avoids_redispatch (by simp) _))
  | runJob _ _ _ hk => exact absurd rfl hk.1
  | reassign _ _ _ hk => exact absurd rfl hk.1
  | accept b d hk => simp at hk
  | resolve b d outcome hk => simp at hk
  | revokeDrivers b ds hk => simp at hk

theorem enRoute_of_sanctioned {g : ℕ → Prop} {m : Move} (h : Sanctioned env g m)
    (ht : m.target = .enRoute) : ∃ d, m = enRouteMove m.bookingId d := by
  cases h with
  | markEnRoute b d => exact ⟨d, rfl⟩
  | _ => cases ht

theorem operates_never {q : Request Unit} (h : Operates env q)
    (hq : ∀ b d, q ≠ JobExecutionService.markEnRoute b d) :
    q.Only fun l ↦ ∀ m, l = .move m → m.target ≠ .enRoute := by
  refine ((operates_only h).and (operates_stays h hq)).mono fun l hl m hm ht ↦ ?_
  subst hm
  cases hl.1 with
  | aside haside => cases haside
  | move hs =>
    obtain ⟨d, hd⟩ := enRoute_of_sanctioned hs ht
    exact hl.2 m d rfl (by rw [hd]; rfl)

/-! The pings. -/

variable {Q : Except Failure Unit → List (Event (RoadStep P) (Road P)) → Prop}
  {past : List (Event (RoadStep P) (Road P))} {asked : RoadRequest P Unit}

theorem evidenced_only {p : RoadRequest P α} (h : p.Only (Evidenced haversineMeters asked [])) :
    p.Heeds (Evidenced haversineMeters asked) (fun _ _ ↦ True) past := by
  refine Proc.Heeds.of_only (R := fun _ ↦ True) h (fun past l _ hl ↦ ⟨fun m hm ht ↦ ?_, hl.2⟩)
    (fun _ _ _ ↦ trivial) trivial
  obtain ⟨-, -, -, -, -, -, r, hr, -⟩ := hl.1 m hm ht
  cases hr

theorem evidenced_road {l : RoadStep P} (h : l.aboutTrips = false) (hset : ∀ b q, l ≠ .setAnchor b q) :
    Evidenced haversineMeters asked past l :=
  ⟨fun m hm ↦ (by subst hm; cases h), fun b q hl ↦ absurd hl (hset b q)⟩

theorem forDriver_evidenced : (AssignmentCacheService.forDriver d : RoadRequest P DriverAssignment).Heeds
    (Evidenced haversineMeters asked) (fun _ _ ↦ True) past := by
  refine ⟨evidenced_road rfl nofun, fun s ↦ ?_⟩
  simp only [Proc.bind_ok]
  cases s.cachedAssignment d with
  | some value => trivial
  | none =>
    exact ⟨evidenced_road rfl nofun, fun t ↦ ⟨evidenced_road rfl nofun, fun u ↦ trivial⟩⟩

theorem compare_evidenced (ping : P) : (EnRouteWatcher.compare haversineMeters d b ping).Heeds
    (Evidenced haversineMeters (EnRouteWatcher.onPing haversineMeters d ping)) (fun _ _ ↦ True) past := by
  refine ⟨evidenced_road rfl nofun, fun s ↦ ?_⟩
  simp only [Proc.bind_ok]
  cases hanchor : s.anchorOf b with
  | none =>
    refine ⟨⟨fun m hm ↦ (by cases hm), fun b q hl ↦ ?_⟩, fun _ ↦ trivial⟩
    cases hl
    exact ⟨d, rfl⟩
  | some start =>
    simp only [Proc.pure_eq, Proc.bind_ok]
    split_ifs with hnear
    · trivial
    have hread : ∃ r ∈ past ++ [⟨RoadStep.readAnchor b, s, Store.commit (RoadStep.readAnchor b) s⟩],
        r.before.anchorOf b = some start :=
      ⟨_, List.mem_append_right _ (List.mem_singleton_self _), hanchor⟩
    refine Proc.Heeds.bind (Q := fun _ _ ↦ True) ?_ (fun _ _ _ ↦ ⟨evidenced_road rfl nofun, fun _ ↦ trivial⟩)
      fun _ _ _ ↦ trivial
    refine Proc.Heeds.handle (Q := fun _ _ ↦ True) ?_ (fun _ _ _ ↦ trivial) fun _ _ _ ↦ trivial
    refine Proc.Heeds.bind (Q := fun _ _ ↦ True) ⟨⟨fun m hm ht ↦ ?_, fun b q hl ↦ (by cases hl)⟩, fun _ ↦ trivial⟩
      (fun _ _ _ ↦ ⟨evidenced_road rfl nofun, fun _ ↦ trivial⟩) fun _ _ _ ↦ trivial
    cases hm
    exact ⟨d, ping, start, rfl, rfl, not_lt.mp hnear, hread⟩

theorem onPing_evidenced (ping : P) : (EnRouteWatcher.onPing haversineMeters d ping).Heeds
    (Evidenced haversineMeters (EnRouteWatcher.onPing haversineMeters d ping)) (fun _ _ ↦ True) [] := by
  refine forDriver_evidenced.bind (fun found past _ ↦ ?_) fun _ _ _ ↦ trivial
  cases found with
  | none => trivial
  | some job =>
    dsimp only
    split_ifs
    · exact compare_evidenced ping
    · trivial

theorem roams_evidenced {p : RoadRequest P Unit} (h : Roams env haversineMeters p) :
    p.Heeds (Evidenced haversineMeters p) (fun _ _ ↦ True) [] := by
  cases h with
  | operates h hq =>
    refine evidenced_only (Proc.Only.lift ((operates_never h hq).mono fun l hl ↦ ?_))
    exact ⟨fun m hm ht ↦ absurd ht (hl m (by cases hm; rfl)), fun b q hset ↦ (by cases hset)⟩
  | ping d ping => exact onPing_evidenced ping
  | invalidate d => exact ⟨evidenced_road rfl nofun, fun _ ↦ trivial⟩

/-! What the steps of a run bring about. -/

/-- The driver's accept of the booking, which goes through. -/
def Admits (b d : ℕ) (e : Event (RoadStep P) (Road P)) : Prop :=
  ∃ suspended, e.label = .trips (.accept b d suspended) ∧ (e.before.trips.acceptOffer b d suspended).isOk = true

/-- A move of the booking to `en_route` that goes through. -/
def SetsOff (b : ℕ) (e : Event (RoadStep P) (Road P)) : Prop :=
  ∃ m, e.label = .trips (.move m) ∧ m.bookingId = b ∧ m.target = .enRoute ∧
    e.before.trips.moveError m = none

/-- A ping's position becomes the booking's anchor. -/
def Anchors (b : ℕ) (q : P) (e : Event (RoadStep P) (Road P)) : Prop :=
  e.label = .setAnchor b q ∧ e.before.redisUp = true ∧ e.before.anchorOf b = none

variable {w : Road P} {l : RoadStep P}

theorem Road.le_now_run (w : Road P) (l : RoadStep P) : w.now ≤ (w.run l).now := by
  cases l with
  | trips l => exact World.le_now_run w.trips l
  | cacheAssignment | invalidate | setAnchor | clearAnchor =>
    simp only [Road.run]
    split_ifs <;> exact le_rfl
  | _ => exact le_rfl

theorem anchors_brought {kept : P × ℕ} (hnot : w.anchors b ≠ some kept)
    (h : (w.run l).anchors b = some kept) :
    l = .setAnchor b kept.1 ∧ w.redisUp = true ∧ w.anchorOf b = none := by
  cases l with
  | setAnchor c q =>
    simp only [Road.run] at h
    split_ifs at h with hset
    · dsimp only at h
      by_cases hc : b = c
      · subst hc
        rw [Function.update_self] at h
        obtain rfl := Option.some.inj h
        exact ⟨rfl, hset⟩
      · rw [Function.update_of_ne hc] at h
        exact absurd h hnot
    · exact absurd h hnot
  | clearAnchor c =>
    simp only [Road.run] at h
    split_ifs at h
    · dsimp only at h
      by_cases hc : b = c
      · simp [hc] at h
      · rw [Function.update_of_ne hc] at h
        exact absurd h hnot
    · exact absurd h hnot
  | cacheAssignment | invalidate =>
    simp only [Road.run] at h
    split_ifs at h
    · exact absurd h hnot
    · exact absurd h hnot
  | _ => exact absurd h hnot

theorem trips_run (hl : l.aboutTrips = false) : (w.run l).trips = w.trips := by
  cases l with
  | trips l => cases hl
  | cacheAssignment | invalidate | setAnchor | clearAnchor =>
    simp only [Road.run]
    split_ifs <;> rfl
  | _ => rfl

theorem driver_brought (hl : l.Issued env) (hnot : w.trips.driverOf b ≠ some d)
    (h : (w.run l).trips.driverOf b = some d) :
    ∃ suspended, l = .trips (.accept b d suspended) ∧ (w.trips.acceptOffer b d suspended).isOk = true := by
  cases l with
  | trips l =>
    have hrun : ((w.run (.trips l)).trips.driverOf b) = l.holder w.trips b (w.trips.driverOf b) :=
      World.driverOf_run hl
    rw [hrun] at h
    cases l with
    | accept c d' suspended =>
      simp only [Step.holder] at h
      split_ifs at h with hok
      · obtain rfl := Option.some.inj h
        obtain ⟨rfl, hok⟩ := hok
        exact ⟨suspended, rfl, hok⟩
      · exact absurd h hnot
    | move m =>
      simp only [Step.holder] at h
      split_ifs at h
      exact absurd h hnot
    | _ => exact absurd h hnot
  | _ =>
    rw [trips_run rfl] at h
    exact absurd h hnot

theorem enRoute_brought (hl : l.Issued env) (hnot : w.trips.status b ≠ some .enRoute)
    (h : (w.run l).trips.status b = some .enRoute) :
    ∃ m, l = .trips (.move m) ∧ m.bookingId = b ∧ m.target = .enRoute ∧ w.trips.moveError m = none := by
  cases l with
  | trips l =>
    have hshift := World.shift_run (w := w.trips) (b := b) hl
    have hstatus : ((w.trips.run l).core b).map (·.booking.status) = some .enRoute := by
      rw [← World.core_status]
      exact h
    generalize (w.trips.run l).core b = o at hshift hstatus
    cases hshift with
    | same =>
      rw [← World.core_status] at hstatus
      exact absurd hstatus hnot
    | create p discount couponId =>
      have hsearching := (World.pricedRow_status (w.trips.insertedRow p) p.locked.totalPaise discount couponId).1
      simp [Row.core, hsearching] at hstatus
      cases hstatus
    | reprice hl hr hs => simp [Row.core, reprice, hs] at hstatus
    | paid => cases hstatus
    | @move m r hm hb hr he hlegal =>
      refine ⟨m, rfl, hb, ?_, he⟩
      have htarget : (World.movedRow m r).booking.status = .enRoute := Option.some.inj hstatus
      cases hm <;> exact htarget
    | accept => cases hstatus
    | dispute => cases hstatus
  | _ =>
    rw [trips_run rfl] at h
    exact absurd h hnot

/-! Over the runs. -/

variable {s₀ : Road P} {cs : List (Call (RoadStep P) (Road P) Failure)}
  {es : List (ℕ × Event (RoadStep P) (Road P))} {i j n : ℕ} {e f : Event (RoadStep P) (Road P)}

/-- Request `n` is a ping of the driver from `q`. -/
def IsPing (haversineMeters : P → P → ℚ) (cs : List (Call (RoadStep P) (Road P) Failure))
    (n d : ℕ) (q : P) : Prop :=
  (cs[n]?).map (·.asked) = some (EnRouteWatcher.onPing haversineMeters d q)

/-- A ping of the driver from `q` that is taken up after commit `i` and before `j`. -/
def SentBetween (haversineMeters : P → P → ℚ) (cs : List (Call (RoadStep P) (Road P) Failure))
    (es : List (ℕ × Event (RoadStep P) (Road P))) (i j d : ℕ) (q : P) : Prop :=
  ∃ n, IsPing haversineMeters cs n d q ∧ (∃ k < j, ∃ e, Makes es k n e) ∧
    ∀ k e, Makes es k n e → i < k

/-- The driver has been on the booking since their accept of it, and has sent two
positions since that are far enough apart. -/
def MovedSince (haversineMeters : P → P → ℚ) (cs : List (Call (RoadStep P) (Road P) Failure))
    (es : List (ℕ × Event (RoadStep P) (Road P))) (b d j : ℕ) : Prop :=
  ∃ i n a, i < j ∧ Makes es i n a ∧ Admits b d a ∧
    (∀ k m e, i < k → k ≤ j → Makes es k m e → e.before.trips.driverOf b = some d) ∧
    ∃ start q, SentBetween haversineMeters cs es i j d start ∧ SentBetween haversineMeters cs es i j d q ∧
      EnRouteWatcher.enRouteMeters ≤ haversineMeters q start

/-- From the request's first commit up to `j`, the driver is on the booking. -/
def Steady (es : List (ℕ × Event (RoadStep P) (Road P))) (b d n j : ℕ) : Prop :=
  ∀ i e, Makes es i n e → ∀ k m f, i ≤ k → k ≤ j → Makes es k m f →
    f.before.trips.driverOf b = some d

/-- An accept finds no anchor still kept, and a ping anchors or moves a booking
only if its driver is on it from the ping's first look on. -/
structure OwnAnchors (haversineMeters : P → P → ℚ) (cs : List (Call (RoadStep P) (Road P) Failure))
    (es : List (ℕ × Event (RoadStep P) (Road P))) : Prop where
  accepts : ∀ i n e, Makes es i n e → ∀ b d, Admits b d e →
    ∀ kept, e.before.anchors b = some kept → kept.2 ≤ e.before.now
  anchors : ∀ i n e, Makes es i n e → ∀ b q, Anchors b q e →
    ∀ d, IsPing haversineMeters cs n d q → Steady es b d n i
  moves : ∀ i n e, Makes es i n e → ∀ b, SetsOff b e →
    ∀ d q, IsPing haversineMeters cs n d q → Steady es b d n i

/-- Nobody is on a booking yet, and nothing is anchored. -/
structure Road.Fresh (w : Road P) : Prop where
  drivers : ∀ b, w.trips.driverOf b = none
  anchors : ∀ b, w.anchors b = none
  statuses : ∀ b, w.trips.status b = none

theorem commit_of_makes (h : Calls (Roams env haversineMeters) s₀ cs w es) (he : Makes es i n e) :
    e.after = e.before.run e.label ∧ e.label.Issued env :=
  ⟨h.commit_at he, (Runs.only (fun _ hp ↦ roams_issued hp) h.runs).1 e (List.mem_of_getElem? he.event)⟩

theorem clock_later (h : Calls (Roams env haversineMeters) s₀ cs w es) {m : ℕ} (hij : i ≤ j)
    (he : Makes es i m e) (hf : Makes es j n f) : e.before.now ≤ f.before.now :=
  h.rel_later (R := fun s t ↦ s.now ≤ t.now) (fun _ ↦ le_rfl) (fun _ _ _ ↦ le_trans)
    (fun _ _ ↦ Road.le_now_run _ _) hij he hf

/-- Whoever is on a booking has accepted it, and has been on it since. -/
theorem accepted_before (h : Calls (Roams env haversineMeters) s₀ cs w es) (hs : s₀.Fresh)
    (he : Makes es j n e) (hd : e.before.trips.driverOf b = some d) :
    ∃ i m a, i < j ∧ Makes es i m a ∧ Admits b d a ∧
      ∀ k m e, i < k → k ≤ j → Makes es k m e → e.before.trips.driverOf b = some d := by
  obtain ⟨i, a, hi, ha, hnot, hafter, hsince⟩ := h.chained.origin
    (R := fun w ↦ w.trips.driverOf b = some d) (by simp [hs.drivers]) he.event hd
  obtain ⟨m, ha⟩ := makes_of_event ha
  obtain ⟨hrun, hissued⟩ := commit_of_makes h ha
  rw [hrun] at hafter
  exact ⟨i, m, a, hi, ha, driver_brought hissued hnot hafter,
    fun k m e hik hkj hk ↦ hsince k e hik hkj hk.event⟩

/-- What is anchored has been sent by some ping, and has been there since. -/
theorem anchored_before (h : Calls (Roams env haversineMeters) s₀ cs w es) (hs : s₀.Fresh)
    (he : Makes es j n e) {kept : P × ℕ} (hkept : e.before.anchors b = some kept) :
    ∃ i m a, i < j ∧ Makes es i m a ∧ Anchors b kept.1 a ∧
      ∀ k m e, i < k → k ≤ j → Makes es k m e → e.before.anchors b = some kept := by
  obtain ⟨i, a, hi, ha, hnot, hafter, hsince⟩ := h.chained.origin
    (R := fun w ↦ w.anchors b = some kept) (by simp [hs.anchors]) he.event hkept
  obtain ⟨m, ha⟩ := makes_of_event ha
  obtain ⟨hrun, -⟩ := commit_of_makes h ha
  rw [hrun] at hafter
  exact ⟨i, m, a, hi, ha, anchors_brought hnot hafter,
    fun k m e hik hkj hk ↦ hsince k e hik hkj hk.event⟩

theorem setsOff_before (h : Calls (Roams env haversineMeters) s₀ cs w es) (hs : s₀.Fresh)
    (he : Makes es j n e) (hstatus : e.before.trips.status b = some .enRoute) :
    ∃ i m a, i < j ∧ Makes es i m a ∧ SetsOff b a := by
  obtain ⟨i, a, hi, ha, hnot, hafter, -⟩ := h.chained.origin
    (R := fun w ↦ w.trips.status b = some .enRoute) (by simp [hs.statuses]) he.event hstatus
  obtain ⟨m, ha⟩ := makes_of_event ha
  obtain ⟨hrun, hissued⟩ := commit_of_makes h ha
  rw [hrun] at hafter
  exact ⟨i, m, a, hi, ha, enRoute_brought hissued hnot hafter⟩

theorem live_some {β : Type} {entry : Option (β × ℕ)} {x : β} (h : w.live entry = some x) :
    ∃ expiresAt, entry = some (x, expiresAt) ∧ w.now < expiresAt := by
  obtain ⟨⟨y, t⟩, hkept, rfl⟩ := Option.map_eq_some_iff.mp h
  obtain ⟨hentry, hlive⟩ := Option.filter_eq_some_iff.mp hkept
  simp only [Bool.and_eq_true, decide_eq_true_eq] at hlive
  exact ⟨t, hentry, hlive.2⟩

/-- The ping that moves a booking, and the read of the anchor it moves it on. -/
theorem read_of_setsOff (h : Calls (Roams env haversineMeters) s₀ cs w es) (he : Makes es j n e)
    (hoff : SetsOff b e) : ∃ d q start, IsPing haversineMeters cs n d q ∧
      EnRouteWatcher.enRouteMeters ≤ haversineMeters q start ∧
      ∃ i < j, ∃ r, Makes es i n r ∧ r.before.anchorOf b = some start := by
  obtain ⟨c, hc, hmoves, -⟩ := h.heeds_at (fun p hp ↦ roams_evidenced hp) he
  obtain ⟨m, hlabel, rfl, ht, -⟩ := hoff
  obtain ⟨d, q, start, hasked, -, hfar, r, hr, hanchor⟩ := hmoves m hlabel ht
  obtain ⟨i, hi, hr⟩ := makes_of_own hr
  exact ⟨d, q, start, by simp [IsPing, hc, hasked], hfar, i, hi, r, hr, hanchor⟩

theorem ping_of_anchors (h : Calls (Roams env haversineMeters) s₀ cs w es) (he : Makes es j n e)
    {q : P} (hset : Anchors b q e) : ∃ d, IsPing haversineMeters cs n d q := by
  obtain ⟨c, hc, -, hsets⟩ := h.heeds_at (fun p hp ↦ roams_evidenced hp) he
  obtain ⟨d, hasked⟩ := hsets b q hset.1
  exact ⟨d, by simp [IsPing, hc, hasked]⟩

/-- The anchor a ping compares with is one the booking's own driver has left, and none
of the two pings has begun before the driver's accept. -/
theorem movedSince_of_own (h : Calls (Roams env haversineMeters) s₀ cs w es) (hs : s₀.Fresh)
    (hown : OwnAnchors haversineMeters cs es) (he : Makes es j n e) (hoff : SetsOff b e) :
    ∃ d, e.before.trips.driverOf b = some d ∧ MovedSince haversineMeters cs es b d j := by
  obtain ⟨d, q, start, hping, hfar, ρ, hρ, r, hr, hanchor⟩ := read_of_setsOff h he hoff
  have hsteady : Steady es b d n j := hown.moves j n e he b hoff d q hping
  obtain ⟨t, hkept, hlive⟩ := live_some hanchor
  obtain ⟨τ, m, s, hτ, hset, hanchors, hstays⟩ := anchored_before h hs hr hkept
  obtain ⟨d', hping'⟩ := ping_of_anchors h hset hanchors
  have hsteady' : Steady es b d' m τ := hown.anchors τ m s hset b start hanchors d' hping'
  have hdriver : r.before.trips.driverOf b = some d := hsteady ρ r hr ρ n r le_rfl (by omega) hr
  obtain ⟨α, k, a, hα, ha, hadmits, hsince⟩ := accepted_before h hs hr hdriver
  -- An accept between the anchor and the comparison would have found the anchor.
  have hατ : α < τ := by
    rcases Nat.lt_trichotomy α τ with hlt | heq | hgt
    · exact hlt
    · subst heq
      obtain ⟨-, rfl⟩ := ha.unique hset
      obtain ⟨suspended, hlabel, -⟩ := hadmits
      exact absurd (hlabel.symm.trans hanchors.1) (by simp)
    · have hfound := hown.accepts α k a ha b d hadmits _ (hstays α k a hgt (by omega) ha)
      have hclock := clock_later h (by omega : α ≤ ρ) ha hr
      dsimp only at hfound
      omega
  have hd : d' = d := by
    have hthen := hsince τ m s hατ (by omega) hset
    rw [hsteady' τ s hset τ m s le_rfl le_rfl hset] at hthen
    exact Option.some.inj hthen
  subst hd
  obtain ⟨f, x, hfτ, hf, hfirst⟩ := hset.first
  obtain ⟨g, y, hgρ, hg, hgirst⟩ := hr.first
  have hsent (i : ℕ) (hif : i < f) (hig : i < g) :
      SentBetween haversineMeters cs es i j d' start ∧ SentBetween haversineMeters cs es i j d' q := by
    refine ⟨⟨m, hping', ⟨τ, by omega, s, hset⟩, fun k e hk ↦ ?_⟩,
      ⟨n, hping, ⟨ρ, hρ, r, hr⟩, fun k e hk ↦ ?_⟩⟩
    · exact lt_of_lt_of_le hif (hfirst k e hk)
    · exact lt_of_lt_of_le hig (hgirst k e hk)
  refine ⟨d', hsteady ρ r hr j n e (by omega) le_rfl he, ?_⟩
  rcases Nat.le_total f g with hfg | hgf
  · obtain ⟨i, k, a', hi, ha', hadmits', hheld⟩ := accepted_before h hs hf
      (hsteady' f x hf f m x le_rfl hfτ hf)
    refine ⟨i, k, a', by omega, ha', hadmits', fun k m' e' hik hkj hk ↦ ?_,
      start, q, (hsent i hi (by omega)).1, (hsent i hi (by omega)).2, hfar⟩
    by_cases hkf : k ≤ f
    · exact hheld k m' e' hik hkf hk
    by_cases hkτ : k ≤ τ
    · exact hsteady' f x hf k m' e' (by omega) hkτ hk
    by_cases hkρ : k ≤ ρ
    · exact hsince k m' e' (by omega) hkρ hk
    · exact hsteady ρ r hr k m' e' (by omega) hkj hk
  · obtain ⟨i, k, a', hi, ha', hadmits', hheld⟩ := accepted_before h hs hg
      (hsteady g y hg g n y le_rfl (by omega) hg)
    refine ⟨i, k, a', by omega, ha', hadmits', fun k m' e' hik hkj hk ↦ ?_,
      start, q, (hsent i (by omega) hi).1, (hsent i (by omega) hi).2, hfar⟩
    by_cases hkg : k ≤ g
    · exact hheld k m' e' hik hkg hk
    · exact hsteady g y hg k m' e' (by omega) hkj hk

/-- Where every accept finds the anchor gone and every ping stays its driver's, a booking
is moved to `en_route`, and its cancellation charged in full for that, only after its
driver has moved. -/
theorem en_route_evidence (h : Calls (Roams env haversineMeters) s₀ cs w es) (hs : s₀.Fresh)
    (hown : OwnAnchors haversineMeters cs es) :
    (∀ j n e, Makes es j n e → ∀ b, SetsOff b e →
      ∃ d, e.before.trips.driverOf b = some d ∧ MovedSince haversineMeters cs es b d j) ∧
    ∀ j n e, Makes es j n e → ∀ b, e.before.trips.status b = some .enRoute →
      ∃ i m f d, i < j ∧ Makes es i m f ∧ SetsOff b f ∧ MovedSince haversineMeters cs es b d i := by
  refine ⟨fun j n e he b hoff ↦ movedSince_of_own h hs hown he hoff, fun j n e he b hstatus ↦ ?_⟩
  obtain ⟨i, m, f, hi, hf, hoff⟩ := setsOff_before h hs he hstatus
  obtain ⟨d, -, hmoved⟩ := movedSince_of_own h hs hown hf hoff
  exact ⟨i, m, f, d, hi, hf, hoff, hmoved⟩

/-! Two drivers of one booking. -/

theorem onPing_driver {d' : ℕ} {q q' : P} (h : EnRouteWatcher.onPing haversineMeters d q =
    EnRouteWatcher.onPing haversineMeters d' q') : d = d' := by
  have hstep : Proc.step (RoadStep.readAssignment d) _ = Proc.step (RoadStep.readAssignment d') _ := h
  exact RoadStep.readAssignment.inj (Proc.step.inj hstep).1

/-- A road whose every driver is remembered on booking 0. -/
def Road.remembered (P : Type) : Road P :=
  ⟨World.blank, fun _ ↦ some (some (0, .assigned), 1), fun _ ↦ none⟩

theorem onPing_position {q q' : P} (h : EnRouteWatcher.onPing haversineMeters d q =
    EnRouteWatcher.onPing haversineMeters d q') : q = q' := by
  have hanchor (q : P) : (((EnRouteWatcher.onPing haversineMeters d q).exec
      (Road.remembered P)).2.anchors 0).map (·.1) = some q := rfl
  have hsame := hanchor q
  rw [h, hanchor q'] at hsame
  exact (Option.some.inj hsame).symm

theorem onTrips_ne (p : Request Unit) (q : P) :
    onTrips p ≠ EnRouteWatcher.onPing haversineMeters d q := by
  intro h
  cases p with
  | done r => cases h
  | step l next =>
    have hstep : Proc.step (RoadStep.trips l) _ = Proc.step (.readAssignment d) _ := h
    cases (Proc.step.inj hstep).1

theorem asked_roadRun (ps : List (RoadRequest ℤ Unit)) (turns : List ℕ) :
    (roadRun ps turns).1.map (·.asked) = ps := by
  rw [roadRun, takeTurns_asked, List.map_map]
  exact List.map_id ps

theorem mem_of_isPing {ps : List (RoadRequest ℤ Unit)} {turns : List ℕ} {q : ℤ}
    (h : IsPing sampleDistance (roadRun ps turns).1 n d q) :
    EnRouteWatcher.onPing sampleDistance d q ∈ ps := by
  rw [← asked_roadRun ps turns, List.mem_map]
  obtain ⟨c, hc, hasked⟩ := Option.map_eq_some_iff.mp h
  exact ⟨c, List.mem_of_getElem? hc, hasked⟩

/-- The first driver's only ping anchors the booking, which they then give back. -/
def sampleAnchored : List (RoadRequest ℤ Unit) :=
  [onTrips (Proc.write (.setDriver 8 (some sampleDriver)))] ++ sampleAssigned.map onTrips ++
    [EnRouteWatcher.onPing sampleDistance 7 0,
      onTrips (JobExecutionService.unable sampleEnv 0 7 "breakdown"),
      onTrips (DispatchService.runJob sampleEnv (.redispatch 0 "unable_breakdown") [8] none),
      onTrips (OfferService.accept 0 8),
      EnRouteWatcher.onPing sampleDistance 8 1000]

theorem sampleAnchored_roams : ∀ p ∈ sampleAnchored, Roams sampleEnv sampleDistance p := by
  simp only [sampleAnchored, sampleAssigned, List.map_cons, List.map_nil, List.cons_append,
    List.nil_append, List.forall_mem_cons, List.not_mem_nil, false_imp_iff, forall_true_iff, and_true]
  refine ⟨.operates (.ambient _ rfl) ?_, .operates (.ambient _ rfl) ?_, .operates (.create _ _) ?_,
    .operates (.runJob _ _ _) ?_, .operates (.accept _ _) ?_, .ping _ _, .operates (.unable _ _ _) ?_,
    .operates (.runJob _ _ _) ?_, .operates (.accept _ _) ?_, .ping _ _⟩
  all_goals exact ne_markEnRoute (by decide)

/-- A driver's setting off with booking 0. -/
def setsOffWith (d : ℕ) (e : Event (RoadStep ℤ) (Road ℤ)) : Bool :=
  match e.label with
  | .trips (.move m) => m.bookingId = 0 && m.target = .enRoute && (e.before.trips.moveError m).isNone &&
      e.before.trips.driverOf 0 = some d
  | _ => false

theorem setsOff_of_with {e : Event (RoadStep ℤ) (Road ℤ)} (h : setsOffWith d e = true) :
    SetsOff 0 e ∧ e.before.trips.driverOf 0 = some d := by
  unfold setsOffWith at h
  split at h
  · rename_i m hlabel
    simp only [Bool.and_eq_true, decide_eq_true_eq, Option.isNone_iff_eq_none] at h
    exact ⟨⟨m, hlabel, h.1.1.1, h.1.1.2, h.1.2⟩, h.2⟩
  · cases h

def inOrder (n : ℕ) : List ℕ := (List.range n).flatMap (List.replicate 20)

theorem fresh_blank : Road.blank.Fresh := ⟨fun _ ↦ rfl, fun _ ↦ rfl, fun _ ↦ rfl⟩

theorem sampleAnchored_ping {q : ℤ} (h : EnRouteWatcher.onPing sampleDistance 8 q ∈ sampleAnchored) :
    q = 1000 := by
  simp only [sampleAnchored, sampleAssigned, List.map_cons, List.map_nil, List.cons_append,
    List.nil_append, List.mem_cons, List.not_mem_nil, or_false, (onTrips_ne _ _).symm, false_or] at h
  rcases h with h | h
  · cases onPing_driver h
  · exact onPing_position h

theorem moved_for_another : ¬∀ (env : Env) (s₀ w : Road ℤ) (cs : List (Call (RoadStep ℤ) (Road ℤ) Failure))
    (es : List (ℕ × Event (RoadStep ℤ) (Road ℤ))), s₀.Fresh → Calls (Roams env sampleDistance) s₀ cs w es →
      ∀ j n e, Makes es j n e → ∀ b, SetsOff b e →
        ∃ d, e.before.trips.driverOf b = some d ∧ MovedSince sampleDistance cs es b d j := by
  intro h
  have hany : (roadRun sampleAnchored (inOrder 10)).2.2.any (setsOffWith 8 ·.2) = true := by
    decide +kernel
  obtain ⟨⟨n, e⟩, he, hwith⟩ := List.any_eq_true.mp hany
  obtain ⟨hoff, hdriver⟩ := setsOff_of_with hwith
  obtain ⟨j, hj⟩ := List.mem_iff_getElem?.mp he
  obtain ⟨d, hd, i, m, a, -, -, -, -, start, q, ⟨n₁, hstart, -⟩, ⟨n₂, hq, -⟩, hfar⟩ :=
    h sampleEnv _ _ _ _ fresh_blank (roadRun_calls sampleAnchored_roams (inOrder 10)) j n e hj 0 hoff
  obtain rfl : 8 = d := Option.some.inj (hdriver.symm.trans hd)
  rw [sampleAnchored_ping (mem_of_isPing hstart), sampleAnchored_ping (mem_of_isPing hq)] at hfar
  exact absurd hfar (by norm_num [EnRouteWatcher.enRouteMeters, sampleDistance])

/-- One driver, who accepts and sets off. -/
def sampleMoving : List (RoadRequest ℤ Unit) :=
  sampleAssigned.map onTrips ++
    [EnRouteWatcher.onPing sampleDistance 7 0, EnRouteWatcher.onPing sampleDistance 7 1000]

theorem sampleMoving_roams : ∀ p ∈ sampleMoving, Roams sampleEnv sampleDistance p := by
  simp only [sampleMoving, sampleAssigned, List.map_cons, List.map_nil, List.cons_append,
    List.nil_append, List.forall_mem_cons, List.not_mem_nil, false_imp_iff, forall_true_iff, and_true]
  refine ⟨.operates (.ambient _ rfl) ?_, .operates (.create _ _) ?_, .operates (.runJob _ _ _) ?_,
    .operates (.accept _ _) ?_, .ping _ _, .ping _ _⟩
  all_goals exact ne_markEnRoute (by decide)

theorem sampleMoving_driver {q : ℤ} (h : EnRouteWatcher.onPing sampleDistance d q ∈ sampleMoving) :
    d = 7 := by
  simp only [sampleMoving, sampleAssigned, List.map_cons, List.map_nil, List.cons_append,
    List.nil_append, List.mem_cons, List.not_mem_nil, or_false, (onTrips_ne _ _).symm, false_or] at h
  rcases h with h | h <;> exact onPing_driver h

/-- Before the pings nothing is anchored and nobody sets off. -/
def quiet (e : Event (RoadStep ℤ) (Road ℤ)) : Bool :=
  match e.label with
  | .trips (.accept b _ _) => (e.before.anchors b).isNone
  | .trips (.move m) => m.target ≠ .enRoute
  | .setAnchor _ _ => false
  | _ => true

/-- Then the driver is on booking 0, and nothing is done with the others. -/
def driven (d : ℕ) (e : Event (RoadStep ℤ) (Road ℤ)) : Bool :=
  e.before.trips.driverOf 0 = some d && match e.label with
  | .trips (.accept _ _ _) => false
  | .trips (.move m) => m.bookingId = 0
  | .setAnchor b _ => b = 0
  | _ => true

theorem ownAnchors_of_sample {cs : List (Call (RoadStep ℤ) (Road ℤ) Failure)}
    {es : List (ℕ × Event (RoadStep ℤ) (Road ℤ))} (k : ℕ)
    (hquiet : ∀ x ∈ es.take k, x.1 < 4 ∧ quiet x.2 = true)
    (hdriver : ∀ x ∈ es.drop k, 4 ≤ x.1 ∧ driven 7 x.2 = true)
    (hpings : ∀ n d q, IsPing sampleDistance cs n d q → d = 7) : OwnAnchors sampleDistance cs es := by
  have hwhere (i n : ℕ) (e : Event (RoadStep ℤ) (Road ℤ)) (he : Makes es i n e) :
      i < k ∧ n < 4 ∧ quiet e = true ∨ k ≤ i ∧ 4 ≤ n ∧ driven 7 e = true := by
    rcases Nat.lt_or_ge i k with hlt | hge
    · have hmem : (n, e) ∈ es.take k :=
        List.mem_of_getElem? (i := i) (by rw [List.getElem?_take, if_pos hlt]; exact he)
      exact .inl ⟨hlt, hquiet _ hmem⟩
    · have hmem : (n, e) ∈ es.drop k :=
        List.mem_of_getElem? (i := i - k) (by rw [List.getElem?_drop, Nat.add_sub_cancel' hge]; exact he)
      exact .inr ⟨hge, hdriver _ hmem⟩
  have hsteady (i n : ℕ) (hn : 4 ≤ n) : Steady es 0 7 n i := by
    intro j f hf l m g hjl hli hg
    rcases hwhere j n f hf with ⟨-, hlt, -⟩ | ⟨hkj, -⟩
    · omega
    · rcases hwhere l m g hg with ⟨hlt, -⟩ | ⟨-, -, hwith⟩
      · omega
      · simp only [driven, Bool.and_eq_true, decide_eq_true_eq] at hwith
        exact hwith.1
  constructor
  · intro i n e he b d hadmits kept hkept
    obtain ⟨suspended, hlabel, -⟩ := hadmits
    rcases hwhere i n e he with ⟨-, -, hq⟩ | ⟨-, -, hw⟩
    · simp [quiet, hlabel, hkept] at hq
    · simp [driven, hlabel] at hw
  · intro i n e he b q hset d hping
    rcases hwhere i n e he with ⟨-, -, hq⟩ | ⟨-, hn, hw⟩
    · simp [quiet, hset.1] at hq
    · obtain rfl : b = 0 := by
        simp only [driven, hset.1, Bool.and_eq_true, decide_eq_true_eq] at hw
        exact hw.2
      obtain rfl := hpings n d q hping
      exact hsteady i n hn
  · intro i n e he b hoff d q hping
    obtain ⟨m, hlabel, rfl, htarget, -⟩ := hoff
    rcases hwhere i n e he with ⟨-, -, hq⟩ | ⟨-, hn, hw⟩
    · simp [quiet, hlabel, htarget] at hq
    · have hb : m.bookingId = 0 := by
        simp only [driven, hlabel, Bool.and_eq_true, decide_eq_true_eq] at hw
        exact hw.2
      obtain rfl := hpings n d q hping
      rw [hb]
      exact hsteady i n hn

theorem sampleMoving_own : OwnAnchors sampleDistance (roadRun sampleMoving (inOrder 6)).1
    (roadRun sampleMoving (inOrder 6)).2.2 := by
  refine ownAnchors_of_sample 26 ?_ ?_ fun n d q h ↦ sampleMoving_driver (mem_of_isPing h)
  · have hall : ((roadRun sampleMoving (inOrder 6)).2.2.take 26).all
        (fun x ↦ decide (x.1 < 4) && quiet x.2) = true := by decide +kernel
    simpa using hall
  · have hall : ((roadRun sampleMoving (inOrder 6)).2.2.drop 26).all
        (fun x ↦ decide (4 ≤ x.1) && driven 7 x.2) = true := by decide +kernel
    simpa using hall

theorem en_route_evidence_sample :
    (∃ j n e, Makes (roadRun sampleMoving (inOrder 6)).2.2 j n e ∧ SetsOff 0 e ∧
      MovedSince sampleDistance (roadRun sampleMoving (inOrder 6)).1
        (roadRun sampleMoving (inOrder 6)).2.2 0 7 j) ∧
    (roadRun sampleMoving (inOrder 6)).2.1.trips.status 0 = some .enRoute := by
  have hany : (roadRun sampleMoving (inOrder 6)).2.2.any (setsOffWith 7 ·.2) = true := by
    decide +kernel
  obtain ⟨⟨n, e⟩, he, hwith⟩ := List.any_eq_true.mp hany
  obtain ⟨hoff, hdriver⟩ := setsOff_of_with hwith
  obtain ⟨j, hj⟩ := List.mem_iff_getElem?.mp he
  obtain ⟨d, hd, hmoved⟩ := (en_route_evidence (roadRun_calls sampleMoving_roams (inOrder 6)) fresh_blank
    sampleMoving_own).1 j n e hj 0 hoff
  obtain rfl : 7 = d := Option.some.inj (hdriver.symm.trans hd)
  exact ⟨⟨j, n, e, hj, hoff, hmoved⟩, by decide +kernel⟩

end Towing.Trips
