import Towing.Trips.EnRouteWatcher
import Towing.Trips.Shifts

namespace Towing.Trips

open Towing.Process Towing.Money

/-- Every action of a driver comes after the request has seen them on the booking. -/
def OwnSeen (past : List (Event Step World)) (l : Step) : Prop :=
  ∀ m d, l = .move m → m.cause.own = some d → ∃ r ∈ past, r.before.driverOf m.bookingId = some d

variable {env : Env} {b d : ℕ} {past : List (Event Step World)}

theorem heeds_avoids {p : Request Unit} (h : Avoids .own p) (past : List (Event Step World)) :
    p.Heeds OwnSeen (fun _ _ ↦ True) past := by
  refine Proc.Heeds.of_only (R := fun _ ↦ True) h (fun past l _ hl m d hm hown ↦ ?_)
    (fun _ _ _ ↦ trivial) trivial
  subst hm
  simp [Step.kind, hown] at hl

/-- The step acts for no driver but `d` and on no booking but `b`. -/
def Step.ActsOnly (b d : ℕ) (l : Step) : Prop :=
  ∀ m d', l = .move m → m.cause.own = some d' → m.bookingId = b ∧ d' = d

theorem acts_avoids {α : Type} {p : Request α} (h : Avoids .own p) : p.Only (Step.ActsOnly b d) := by
  refine h.mono fun l hl m d' hm hown ↦ ?_
  subst hm
  simp [Step.kind, hown] at hl

theorem acts_transition {m : Move} (hd : m.cause.own = some d) :
    (transition m).Only (Step.ActsOnly m.bookingId d) := by
  refine ⟨fun m' d' hm hown ↦ ?_, fun _ ↦ trivial⟩
  cases hm
  exact ⟨rfl, Option.some.inj (hown.symm.trans hd)⟩

/-- Once a request has seen the driver on the booking, it may act on it for them. -/
theorem heeds_seen {p : Request Unit} (h : p.Only (Step.ActsOnly b d))
    (hseen : ∃ r ∈ past, r.before.driverOf b = some d) : p.Heeds OwnSeen (fun _ _ ↦ True) past := by
  refine (Proc.Heeds.of_only (R := fun past ↦ ∃ r ∈ past, r.before.driverOf b = some d) h
    ?_ ?_ hseen).mono (fun _ _ h ↦ h) fun _ _ _ ↦ trivial
  · intro past l hseen hl m d' hm hown
    obtain ⟨rfl, rfl⟩ := hl m d' hm hown
    exact hseen
  · intro past e hseen
    obtain ⟨r, hr, hd⟩ := hseen
    exact ⟨r, List.mem_append_left _ hr, hd⟩

theorem requireDriverJob_heeds : (JobExecutionService.requireDriverJob b d).Heeds OwnSeen
    (fun r past ↦ ∀ row, r = .ok row → ∃ e ∈ past, e.before.driverOf b = some d) past := by
  refine ⟨fun m d' hm ↦ (by cases hm), fun s row hrow ↦ ?_⟩
  refine ⟨⟨.read, s, Store.commit Step.read s⟩, List.mem_append_right _ (List.mem_singleton_self _), ?_⟩
  change s.driverOf b = some d
  rw [World.core_driverOf]
  cases hr : s.row b with
  | none => simp [hr] at hrow
  | some r =>
    rw [World.core_some hr]
    by_contra hd
    have hne : r.booking.driverId ≠ some d := hd
    simp [hr, hne] at hrow

/-- What follows the look at the driver's job acts on that job alone. -/
theorem after_requireDriverJob {f : Row → Request Unit} (hf : ∀ r, (f r).Only (Step.ActsOnly b d)) :
    ((JobExecutionService.requireDriverJob b d).bind f).Heeds OwnSeen (fun _ _ ↦ True) past :=
  requireDriverJob_heeds.bind (fun r _ h ↦ heeds_seen (hf r) (h r rfl)) fun _ _ _ ↦ trivial

theorem after_ignore {k : Request Unit} (hk : k.Only (Step.ActsOnly b d)) :
    ((JobExecutionService.requireDriverJob b d).ignore.bind fun _ ↦ k).Heeds OwnSeen
      (fun _ _ ↦ True) past := by
  rw [Proc.ignore, Proc.bind_assoc]
  exact after_requireDriverJob fun r ↦ hk

/-- Every operation but the bare `markEnRoute` looks before it acts for a driver. -/
theorem operates_heeds {q : Request Unit} (h : Operates env q)
    (hq : ∀ b d, q ≠ JobExecutionService.markEnRoute b d) : q.Heeds OwnSeen (fun _ _ ↦ True) [] := by
  rcases operates_avoids .own h with hp | hp
  · exact heeds_avoids hp []
  cases hp with
  | markEnRoute b d => exact absurd rfl (hq b d)
  | arrived b d =>
    refine after_ignore ((acts_avoids (avoids_check _)).bind fun _ ↦ ?_)
    exact (acts_avoids (avoids_read _)).bind fun now ↦
      acts_transition (m := ⟨b, .arrived, .arrivedAt now, false, .arrived d⟩) rfl
  | start b d code =>
    refine after_ignore (Proc.Only.bind (acts_avoids (avoids_attempt nofun)) fun ok ↦ ?_)
    split_ifs
    · exact (acts_avoids (avoids_read _)).bind fun _ ↦ trivial
    · exact (acts_avoids (avoids_read _)).bind fun now ↦
        acts_transition (m := ⟨b, .inProgress, .startedAt now true, false, .start d⟩) rfl
  | complete b d =>
    refine after_requireDriverJob fun job ↦ ?_
    exact (acts_avoids (avoids_read _)).bind fun now ↦ acts_transition (m := ⟨b, .completed, _, false, _⟩) rfl
  | unable b d reason =>
    refine after_ignore (Proc.Only.bind
      (acts_transition (m := ⟨b, .searching, .unassign (some reason), false, .unable d⟩) rfl) fun _ ↦ ?_)
    refine (acts_avoids (avoids_recordOutcome d (by simp))).bind fun _ ↦ ?_
    exact acts_avoids (avoids_besteffort (avoids_redispatch (by simp) _))
  | runJob _ _ _ hk => exact absurd rfl hk.1
  | reassign _ _ _ hk => exact absurd rfl hk.1
  | accept b d hk => simp at hk
  | resolve b d outcome hk => simp at hk
  | revokeDrivers b ds hk => simp at hk

def Patch.takesOff : Patch → Bool
  | .unassign _ => true
  | _ => false

/-- Who is on the booking after a step, if `holder` was before: only an accept brings
somebody, and only `unable` and `reassign` take them off. -/
def Step.holder (w : World) (b : ℕ) (holder : Option ℕ) : Step → Option ℕ
  | .accept c d suspended => if c = b ∧ (w.acceptOffer c d suspended).isOk then some d else holder
  | .move m => if m.bookingId = b ∧ m.patch.takesOff ∧ w.moveError m = none then none else holder
  | _ => holder

theorem driverId_moved {g : ℕ → Prop} {m : Move} (hm : Sanctioned env g m) (r : Row) :
    (World.movedRow m r).booking.driverId = if m.patch.takesOff then none else r.booking.driverId := by
  cases hm <;> rfl

theorem World.driverOf_row {w : World} {r : Row} (h : w.row b = some r) :
    w.driverOf b = r.booking.driverId := by
  rw [core_driverOf, core_some h]
  rfl

/-- The other steps leave the driver where they are. -/
theorem World.driverOf_shift {g : ℕ → Prop} {w : World} {l : Step} {o : Option Row}
    (h : Shift env g w b l o) (hmove : ∀ m, l ≠ .move m) (haccept : ∀ c d s, l ≠ .accept c d s) :
    o.bind (·.booking.driverId) = w.driverOf b := by
  cases h with
  | same => exact World.core_driverOf.symm
  | create p discount couponId hnew =>
    have hnone : w.driverOf b = none := by
      rw [core_driverOf, core, hnew]
      rfl
    rw [hnone]
    unfold World.pricedRow
    dsimp only
    split_ifs <;> rfl
  | reprice hl hr => exact (World.driverOf_row hr).symm
  | paid hr => exact (World.driverOf_row hr).symm
  | dispute hr => exact (World.driverOf_row hr).symm
  | move => exact absurd rfl (hmove _)
  | accept => exact absurd rfl (haccept _ _ _)

theorem World.driverOf_move {g : ℕ → Prop} {w : World} {m : Move} (hm : Sanctioned env g m) :
    (w.move m).driverOf b = (Step.move m).holder w b (w.driverOf b) := by
  by_cases hb : m.bookingId = b
  · subst hb
    cases he : w.moveError m with
    | some e =>
      rw [World.move_eq (by simp [he])]
      simp [Step.holder, he]
    | none =>
      obtain ⟨r, hr, -, hrow⟩ := World.move_row he
      rw [World.driverOf_row hrow, driverId_moved hm, World.driverOf_row hr]
      simp [Step.holder, he]
  · have hrow := World.move_row_ne (w := w) (m := m) (Ne.symm hb)
    rw [World.core_driverOf, World.core_of_row hrow, ← World.core_driverOf]
    simp [Step.holder, hb]

theorem World.driverOf_accept {w : World} {c d : ℕ} {s : Option ℕ} :
    (w.run (.accept c d s)).driverOf b = (Step.accept c d s).holder w b (w.driverOf b) := by
  cases h : w.acceptOffer c d s with
  | error e =>
    simp [Step.holder, run, h, Except.toOption, Except.isOk, Except.toBool]
  | ok w' =>
    obtain ⟨driver, -, -, he, rfl⟩ := acceptOffer_ok h
    have hrun : w.run (.accept c d s) = (w.resolveOffer c d .accepted).move (w.assignMove c d driver) := by
      simp [run, h, Except.toOption]
    rw [hrun]
    by_cases hb : c = b
    · subst hb
      rw [← moveError_resolveOffer d .accepted] at he
      obtain ⟨r, -, -, hrow⟩ := move_row he
      rw [World.driverOf_row (b := c) hrow]
      simp [Step.holder, h, Except.isOk, Except.toBool]
      rfl
    · have hrow := World.move_row_ne (w := w.resolveOffer c d .accepted)
        (m := w.assignMove c d driver) (Ne.symm hb)
      rw [World.core_driverOf, World.core_of_row hrow, ← World.core_driverOf]
      simp [Step.holder, hb]
      rfl

theorem World.driverOf_run {g : ℕ → Prop} {w : World} {l : Step} (h : Issued env g l) :
    (w.run l).driverOf b = l.holder w b (w.driverOf b) := by
  have hshift := World.shift_run (w := w) (b := b) h
  have hother (hmove : ∀ m, l ≠ .move m) (haccept : ∀ c d s, l ≠ .accept c d s) :
      (w.run l).driverOf b = l.holder w b (w.driverOf b) := by
    rw [World.core_driverOf, World.driverOf_shift hshift hmove haccept]
    cases l with
    | move m => exact absurd rfl (hmove m)
    | accept c d suspended => exact absurd rfl (haccept c d suspended)
    | _ => rfl
  cases h with
  | move hm => exact World.driverOf_move hm
  | accept c d suspended => exact World.driverOf_accept
  | aside h =>
    refine hother ?_ ?_
    · rintro m rfl
      cases h
    · rintro c d suspended rfl
      cases h
  | still | paid | create | openDispute =>
    exact hother (fun m h ↦ (by cases h)) fun c d suspended h ↦ by cases h

/-! With the pings. -/

variable {P : Type} {haversineMeters : P → P → ℚ} {e : Event (RoadStep P) (Road P)}
  {s₀ w : Road P} {cs : List (Call (RoadStep P) (Road P) Failure)}
  {es : List (ℕ × Event (RoadStep P) (Road P))}

/-- A driver's action on a booking that goes through. -/
def Acts (b d : ℕ) (e : Event (RoadStep P) (Road P)) : Prop :=
  ∃ m, e.label = .trips (.move m) ∧ m.bookingId = b ∧ m.cause.own = some d ∧
    e.before.trips.moveError m = none

/-- The step in which a request learns that a driver is on a booking: what it reads
says so, or what the cache still answers. -/
def LooksUp (b d : ℕ) (e : Event (RoadStep P) (Road P)) : Prop :=
  e.before.trips.driverOf b = some d ∨
    e.label = .readAssignment d ∧ ∃ s, e.before.cachedAssignment d = some (some (b, s))

/-- Who is on the booking after the events, as their accepts and unassignments say. -/
def lastHolder (b : ℕ) (holder : Option ℕ) (es : List (Event (RoadStep P) (Road P))) : Option ℕ :=
  es.foldl (fun holder e ↦
    match e.label with
    | .trips l => l.holder e.before.trips b holder
    | _ => holder) holder

/-- The steps that pings and operations take. -/
def RoadStep.Issued (env : Env) : RoadStep P → Prop
  | .trips l => Trips.Issued env (fun _ ↦ True) l
  | _ => True

theorem driverOf_lastHolder {s t : Road P} {es : List (Event (RoadStep P) (Road P))}
    (h : Chained s es t) (hl : ∀ e ∈ es, e.label.Issued env)
    (hrun : ∀ e ∈ es, e.after = e.before.run e.label) :
    t.trips.driverOf b = lastHolder b (s.trips.driverOf b) es := by
  induction es generalizing s with
  | nil =>
    cases h
    rfl
  | cons e es ih =>
    obtain ⟨rfl, h⟩ := h
    rw [ih h (fun e' he' ↦ hl e' (List.mem_cons_of_mem _ he'))
      fun e' he' ↦ hrun e' (List.mem_cons_of_mem _ he')]
    rw [lastHolder, lastHolder, List.foldl_cons, hrun e List.mem_cons_self]
    congr 1
    have hissued := hl e List.mem_cons_self
    cases hlabel : e.label with
    | trips l =>
      rw [hlabel] at hissued
      exact World.driverOf_run hissued
    | cacheAssignment | invalidate | setAnchor | clearAnchor =>
      simp only [Road.run]
      split_ifs <;> rfl
    | _ => rfl

/-- Every action comes after the request has looked the job up. -/
def Seen (past : List (Event (RoadStep P) (Road P))) (l : RoadStep P) : Prop :=
  ∀ m d, l = .trips (.move m) → m.cause.own = some d → ∃ r ∈ past, LooksUp m.bookingId d r

theorem embeds_mem {es : List (Event Step World)} {es' : List (Event (RoadStep P) (Road P))}
    (h : List.Forall₂ (Event.Embeds RoadStep.trips Road.trips) es es') {e : Event Step World}
    (he : e ∈ es) : ∃ e' ∈ es', e.before = e'.before.trips := by
  induction h with
  | nil => cases he
  | cons hhead _ ih =>
    rcases List.mem_cons.mp he with rfl | he
    · exact ⟨_, List.mem_cons_self, hhead.before⟩
    · obtain ⟨e', he', hbefore⟩ := ih he
      exact ⟨e', List.mem_cons_of_mem _ he', hbefore⟩

/-- Once a ping has looked the job up, it acts on that job alone. -/
theorem seen_of_looked {α : Type} {p : RoadRequest P α} {past : List (Event (RoadStep P) (Road P))}
    (h : p.Only fun l ↦ ∀ l', l = .trips l' → l'.ActsOnly b d) (hseen : ∃ r ∈ past, LooksUp b d r) :
    p.Heeds Seen (fun _ _ ↦ True) past := by
  refine (Proc.Heeds.of_only (R := fun past ↦ ∃ r ∈ past, LooksUp b d r) h ?_ ?_ hseen).mono
    (fun _ _ h ↦ h) fun _ _ _ ↦ trivial
  · intro past l hseen hl m d' hm hown
    obtain ⟨rfl, rfl⟩ := hl _ hm m d' rfl hown
    exact hseen
  · intro past e hseen
    obtain ⟨r, hr, hd⟩ := hseen
    exact ⟨r, List.mem_append_left _ hr, hd⟩

theorem assignmentOf_driver {b : ℕ} {s : BookingStatus} (h : w.assignmentOf d = some (b, s)) :
    w.trips.driverOf b = some d := by
  obtain ⟨b', hfind, hs⟩ := Option.bind_eq_some_iff.mp h
  obtain ⟨s', -, hpair⟩ := Option.map_eq_some_iff.mp hs
  cases hpair
  have := List.find?_some hfind
  simp only [Bool.and_eq_true, decide_eq_true_eq] at this
  exact this.1

theorem forDriver_heeds {past : List (Event (RoadStep P) (Road P))} :
    (AssignmentCacheService.forDriver d : RoadRequest P DriverAssignment).Heeds Seen
      (fun r past ↦ ∀ b s, r = .ok (some (b, s)) → ∃ e ∈ past, LooksUp b d e) past := by
  refine ⟨fun m d' hm ↦ (by cases hm), fun s ↦ ?_⟩
  simp only [Proc.bind_ok]
  cases hc : s.cachedAssignment d with
  | some value =>
    intro b status hok
    cases hok
    exact ⟨⟨.readAssignment d, s, _⟩, List.mem_append_right _ (List.mem_singleton_self _),
      .inr ⟨rfl, status, hc⟩⟩
  | none =>
    refine ⟨fun m d' hm ↦ (by cases hm), fun t ↦ ⟨fun m d' hm ↦ (by cases hm), fun u b status hok ↦ ?_⟩⟩
    have hvalue : t.assignmentOf d = some (b, status) := Except.ok.inj hok
    exact ⟨⟨.selectAssignment d, t, _⟩,
      List.mem_append_left _ (List.mem_append_right _ (List.mem_singleton_self _)),
      .inl (assignmentOf_driver hvalue)⟩

theorem onPing_heeds (ping : P) :
    (EnRouteWatcher.onPing haversineMeters d ping).Heeds Seen (fun _ _ ↦ True) [] := by
  refine forDriver_heeds.bind (fun found past h ↦ ?_) fun _ _ _ ↦ trivial
  cases found with
  | none => trivial
  | some job =>
    obtain ⟨b, status⟩ := job
    refine seen_of_looked (b := b) (d := d) ?_ (h b status rfl)
    dsimp only
    split_ifs
    · refine compare_only ping (fun l hl l' h ↦ (by cases h; cases hl)) fun l' h ↦ ?_
      cases h
      intro m d' hm hown
      cases hm
      exact ⟨rfl, (Option.some.inj hown).symm⟩
    · trivial

theorem roams_heeds {p : RoadRequest P Unit} (h : Roams env haversineMeters p) :
    p.Heeds Seen (fun _ _ ↦ True) [] := by
  cases h with
  | operates h hq =>
    refine (operates_heeds h hq).lift .nil (fun past past' l hpast hl m d hm hown ↦ ?_)
      fun _ _ _ _ _ ↦ trivial
    cases hm
    obtain ⟨r, hr, hd⟩ := hl m d rfl hown
    obtain ⟨r', hr', hbefore⟩ := embeds_mem hpast hr
    exact ⟨r', hr', .inl (hbefore ▸ hd)⟩
  | ping d ping => exact onPing_heeds ping
  | invalidate d => exact ⟨fun m d' hm ↦ (by cases hm), fun _ ↦ trivial⟩

theorem roams_issued {p : RoadRequest P Unit} (h : Roams env haversineMeters p) :
    p.Only (RoadStep.Issued env) := by
  have hroad (l : RoadStep P) (hl : l.aboutTrips = false) : l.Issued env := by
    cases l with
    | trips l => cases hl
    | _ => trivial
  cases h with
  | operates h hq => exact Proc.Only.lift (operates_only h)
  | ping d ping =>
    refine (forDriver_only hroad).bind fun found ↦ ?_
    cases found with
    | none => trivial
    | some job =>
      dsimp only
      split_ifs
      · exact compare_only ping hroad (.move (.markEnRoute _ d))
      · trivial
  | invalidate d => exact ⟨trivial, fun _ ↦ trivial⟩

/-- From the look at the job until the driver acts, the booking is still theirs. -/
def Keeps (b d : ℕ) (r : Event (RoadStep P) (Road P)) (between : List (Event (RoadStep P) (Road P))) :
    Prop :=
  LooksUp b d r ∧ lastHolder b (r.before.trips.driverOf b) (r :: between) = some d

/-- Between two commits of a run, the driver changes as the accepts and unassignments say. -/
theorem driverOf_between (h : Calls (Roams env haversineMeters) s₀ cs w es)
    {pre between post : List (ℕ × Event (RoadStep P) (Road P))} {m n : ℕ}
    {r : Event (RoadStep P) (Road P)} (heq : es = pre ++ (m, r) :: between ++ (n, e) :: post) (b : ℕ) :
    e.before.trips.driverOf b =
      lastHolder b (r.before.trips.driverOf b) (r :: between.map (·.2)) := by
  have hissued : ∀ e ∈ es.map (·.2), e.label.Issued env :=
    (Runs.only (fun p hp ↦ roams_issued hp) h.runs).1
  have hrun : ∀ e ∈ es.map (·.2), e.after = e.before.run e.label := by
    intro e he
    obtain ⟨x, hx, rfl⟩ := List.mem_map.mp he
    exact h.committed x hx
  have hchain := h.chained
  have hmap : es.map (·.2) =
      pre.map (·.2) ++ (r :: between.map (·.2)) ++ e :: post.map (·.2) := by
    simp [heq]
  rw [hmap] at hissued hrun hchain
  obtain ⟨t, hpre, htail⟩ := hchain.of_append
  obtain ⟨u, -, hmid⟩ := hpre.of_append
  have hu : r.before = u := hmid.1
  have ht : e.before = t := htail.1
  subst hu ht
  exact driverOf_lastHolder hmid
    (fun x hx ↦ hissued x (List.mem_append_left _ (List.mem_append_right _ hx)))
    fun x hx ↦ hrun x (List.mem_append_left _ (List.mem_append_right _ hx))

/-- Every action moves the driver's own booking exactly if none of those who looked
the job up had it taken from them before they acted. -/
theorem own_job_iff (h : Calls (Roams env haversineMeters) s₀ cs w es) :
    (∀ e ∈ es, ∀ b d, Acts b d e.2 → e.2.before.trips.driverOf b = some d) ↔
      ∀ pre n e post, es = pre ++ (n, e) :: post → ∀ b d, Acts b d e →
        ∃ pre' r between, pre = pre' ++ (n, r) :: between ∧ Keeps b d r (between.map (·.2)) := by
  constructor
  · intro hown pre n e post heq b d hacts
    have hdriver := hown (n, e) (by simp [heq]) b d hacts
    obtain ⟨m, hlabel, rfl, hcause, -⟩ := hacts
    obtain ⟨c, -, hseen⟩ := (h.heeds fun p hp ↦ roams_heeds hp).1 pre n e post heq
    obtain ⟨r, hr, hlooks⟩ := hseen m d hlabel hcause
    obtain ⟨pre', between, rfl⟩ := of_mem_own hr
    exact ⟨pre', r, between, rfl, hlooks, (driverOf_between h heq m.bookingId).symm.trans hdriver⟩
  · intro hkeeps e he b d hacts
    obtain ⟨pre, post, heq⟩ := List.append_of_mem he
    obtain ⟨pre', r, between, rfl, -, hlast⟩ := hkeeps pre e.1 e.2 post heq b d hacts
    exact (driverOf_between h heq b).trans hlast

/-- An empty road, on a line. -/
def Road.blank : Road ℤ := ⟨World.blank, fun _ ↦ none, fun _ ↦ none⟩

def sampleDistance (x y : ℤ) : ℚ := |x - y|

/-- A driver taps `arrived` while an operator gives the booking to another. -/
def sampleReassigned : List (RoadRequest ℤ Unit) :=
  [onTrips (Proc.write (.setDriver 8 (some sampleDriver)))] ++ sampleAssigned.map onTrips ++
    [onTrips (JobExecutionService.arrived 0 7),
      onTrips (AdminBookingsService.reassign sampleEnv 0 .resumeSearch false),
      onTrips (DispatchService.runJob sampleEnv (.redispatch 0 "admin_reassign") [8] none),
      onTrips (OfferService.accept 0 8)]

theorem ne_markEnRoute {l : Step} {next : World → Request Unit} (hl : l.kind ≠ some .own) (b d : ℕ) :
    Proc.step l next ≠ JobExecutionService.markEnRoute b d := by
  intro h
  have hstep : Proc.step l next = Proc.step (.move ⟨b, .enRoute, .nothing, false, .markEnRoute d⟩) _ := h
  rw [(Proc.step.inj hstep).1] at hl
  exact hl rfl

theorem sampleReassigned_roams : ∀ p ∈ sampleReassigned, Roams sampleEnv sampleDistance p := by
  simp only [sampleReassigned, sampleAssigned, List.map_cons, List.map_nil, List.cons_append,
    List.nil_append, List.forall_mem_cons, List.not_mem_nil, false_imp_iff, forall_true_iff, and_true]
  refine ⟨.operates (.ambient _ rfl) ?_, .operates (.ambient _ rfl) ?_, .operates (.create _ _) ?_,
    .operates (.runJob _ _ _) ?_, .operates (.accept _ _) ?_, .operates (.arrived _ _) ?_,
    .operates (.reassign _ _ _) ?_, .operates (.runJob _ _ _) ?_, .operates (.accept _ _) ?_⟩
  all_goals exact ne_markEnRoute (by decide)

/-- The calls in flight together, by turns. -/
def roadRun (ps : List (RoadRequest ℤ Unit)) (turns : List ℕ) :=
  takeTurns turns (ps.map fun p ↦ ⟨p, p⟩) Road.blank

theorem roadRun_calls {ps : List (RoadRequest ℤ Unit)} (h : ∀ p ∈ ps, Roams sampleEnv sampleDistance p)
    (turns : List ℕ) : Calls (Roams sampleEnv sampleDistance) Road.blank (roadRun ps turns).1
      (roadRun ps turns).2.1 (roadRun ps turns).2.2 := by
  have hstart : Calls (Roams sampleEnv sampleDistance) Road.blank [] Road.blank [] := .start
  exact (hstart.askAll h).takeTurns turns

/-- The first driver's `arrived` stops before its transition until the second has accepted. -/
def lateTurns : List ℕ :=
  [0, 1, 2, 3, 4].flatMap (List.replicate 20) ++ [5, 5, 5] ++
    [6, 7, 8].flatMap (List.replicate 20) ++ [5]

/-- An `arrived` of driver 7 that goes through while driver 8 is on booking 0. -/
def arrivesForAnother (e : Event (RoadStep ℤ) (Road ℤ)) : Bool :=
  match e.label with
  | .trips (.move m) => m.bookingId = 0 && m.cause = .arrived 7 &&
      (e.before.trips.moveError m).isNone && e.before.trips.driverOf 0 = some 8
  | _ => false

theorem acts_of_arrives {e : Event (RoadStep ℤ) (Road ℤ)} (h : arrivesForAnother e = true) :
    Acts 0 7 e ∧ e.before.trips.driverOf 0 = some 8 := by
  unfold arrivesForAnother at h
  split at h
  · rename_i m hlabel
    simp only [Bool.and_eq_true, decide_eq_true_eq, Option.isNone_iff_eq_none] at h
    exact ⟨⟨m, hlabel, h.1.1.1, by rw [h.1.1.2]; rfl, h.1.2⟩, h.2⟩
  · cases h

theorem arrives_for_another : ¬∀ (env : Env) (s₀ w : Road ℤ) (cs : List (Call (RoadStep ℤ) (Road ℤ) Failure))
    (es : List (ℕ × Event (RoadStep ℤ) (Road ℤ))), Calls (Roams env sampleDistance) s₀ cs w es →
      ∀ e ∈ es, ∀ b d, Acts b d e.2 → e.2.before.trips.driverOf b = some d := by
  intro h
  have hany : (roadRun sampleReassigned lateTurns).2.2.any (arrivesForAnother ·.2) = true := by
    decide +kernel
  obtain ⟨e, he, harrives⟩ := List.any_eq_true.mp hany
  obtain ⟨hacts, hother⟩ := acts_of_arrives harrives
  have hown := h sampleEnv _ _ _ _ (roadRun_calls sampleReassigned_roams lateTurns) e he 0 7 hacts
  rw [hother] at hown
  cases hown

/-- The first of them one after the other, up to the driver's own arrival. -/
def promptTurns : List ℕ := [0, 1, 2, 3, 4, 5].flatMap (List.replicate 20)

theorem own_job_iff_sample :
    ((∀ e ∈ (roadRun sampleReassigned promptTurns).2.2, ∀ b d, Acts b d e.2 →
        e.2.before.trips.driverOf b = some d) ↔
      ∀ pre n e post, (roadRun sampleReassigned promptTurns).2.2 = pre ++ (n, e) :: post →
        ∀ b d, Acts b d e → ∃ pre' r between, pre = pre' ++ (n, r) :: between ∧
          Keeps b d r (between.map (·.2))) ∧
    (roadRun sampleReassigned promptTurns).2.1.trips.status 0 = some .arrived :=
  ⟨own_job_iff (roadRun_calls sampleReassigned_roams _), by decide +kernel⟩

end Towing.Trips
