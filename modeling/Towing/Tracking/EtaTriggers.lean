import Towing.Tracking.EtaPace

namespace Towing.Tracking

/-! When the ETA is computed again. -/

inductive Leg
  | pickup
  | drop
  deriving DecidableEq, Repr

structure EtaState (P : Type) where
  lastAt : ℕ
  last : P
  movedAt : ℕ
  leg : Leg
  writtenAt : ℕ

namespace ETA_RECOMPUTE

def intervalMs : ℕ := 60000
def deviationMeters : ℚ := 200
def stationaryMs : ℕ := 90000

end ETA_RECOMPUTE

def STATIONARY_METERS : ℚ := 25

/-- How long the state is kept without a write. -/
def STATE_TTL_MS : ℕ := 6 * 60 * 60 * 1000

/-- A booking whose driver is followed: what there is of each leg. -/
structure Tracked (P : Type) where
  metric : Metric P
  destination : Leg → Option P
  path : Leg → List P

/-- A position as it is relayed, so long after the one before; or one with which a change of
status is told. -/
structure Ping (P : Type) where
  gapMs : ℕ
  position : P
  leg : Leg
  statusChange : Bool

structure Clocked (P : Type) where
  now : ℕ
  state : Option (EtaState P)

namespace Tracked

variable {P : Type} (b : Tracked P)

def isDeviating (position : P) (leg : Leg) : Bool :=
  if (b.path leg).length < 2 then false
  else (ETA_RECOMPUTE.deviationMeters : ℚ) < b.metric.distanceToPolylineMeters position (b.path leg)

def readState (w : Clocked P) (now : ℕ) : Option (EtaState P) := w.state.filter fun s ↦ now - s.writtenAt < STATE_TTL_MS

def resetState (now : ℕ) (ping : Ping P) : EtaState P := ⟨now, ping.position, now, ping.leg, now⟩

/-- The recompute, which does nothing on a leg that leads nowhere. -/
def recompute (w : Clocked P) (now : ℕ) (ping : Ping P) : Clocked P × Bool :=
  if (b.destination ping.leg).isSome then (⟨now, some (resetState now ping)⟩, true) else (⟨now, w.state⟩, false)

/-- What one ping does, and whether a recompute ran. -/
def onPosition (w : Clocked P) (ping : Ping P) : Clocked P × Bool :=
  let now := w.now + ping.gapMs
  if ping.statusChange then b.recompute w now ping
  else
    match readState w now with
    | none => b.recompute w now ping
    | some s =>
      let movedMeters := b.metric.haversineMeters ping.position s.last
      let movedAt := if STATIONARY_METERS < movedMeters then now else s.movedAt
      let touched : Clocked P := ⟨now, some ⟨s.lastAt, ping.position, movedAt, ping.leg, now⟩⟩
      if s.leg = ping.leg ∧ now - s.lastAt < ETA_RECOMPUTE.intervalMs ∧ now - movedAt < ETA_RECOMPUTE.stationaryMs then
        if movedMeters ≤ STATIONARY_METERS then (touched, false)
        else if b.isDeviating ping.position ping.leg then b.recompute w now ping
        else (touched, false)
      else b.recompute w now ping

def after (w : Clocked P) (pings : List (Ping P)) : Clocked P := pings.foldl (fun w ping ↦ (b.onPosition w ping).1) w

/-- A recompute runs at one of the pings. -/
def recomputes (w : Clocked P) : List (Ping P) → Bool
  | [] => false
  | ping :: pings => (b.onPosition w ping).2 || recomputes (b.onPosition w ping).1 pings

/-- What the ping meets: a change of leg or status, no state, the interval over, or a driver off
the line and a long way from the ping before. -/
def Due (w : Clocked P) (ping : Ping P) : Prop :=
  ping.statusChange = true ∨ readState w (w.now + ping.gapMs) = none ∨
    ∃ s, readState w (w.now + ping.gapMs) = some s ∧ (s.leg ≠ ping.leg ∨
      ETA_RECOMPUTE.intervalMs ≤ w.now + ping.gapMs - s.lastAt ∨
      STATIONARY_METERS < b.metric.haversineMeters ping.position s.last ∧ b.isDeviating ping.position ping.leg = true)

/-- One of the pings is due, on a leg that leads somewhere. -/
def Fires (w : Clocked P) : List (Ping P) → Prop
  | [] => False
  | ping :: pings => b.Due w ping ∧ (b.destination ping.leg).isSome = true ∨ Fires (b.onPosition w ping).1 pings

/-- The clocks of the state: it was last moved no earlier than it was last computed. -/
def InOrder (w : Clocked P) : Prop := ∀ s, w.state = some s → s.lastAt ≤ s.movedAt ∧ s.movedAt ≤ w.now

/-- The state after a ping that nothing comes of. -/
def touched (s : EtaState P) (now : ℕ) (ping : Ping P) : EtaState P where
  lastAt := s.lastAt
  last := ping.position
  movedAt := if STATIONARY_METERS < b.metric.haversineMeters ping.position s.last then now else s.movedAt
  leg := ping.leg
  writtenAt := now

variable {b} {w : Clocked P} {ping : Ping P}

theorem readState_some {now : ℕ} {s : EtaState P} (h : readState w now = some s) : w.state = some s :=
  (Option.filter_eq_some_iff.mp h).1

/-- A ping is due and recomputed, or it is not and touches the state. -/
theorem onPosition_cases (h : InOrder w) (ping : Ping P) :
    (b.Due w ping ∧ b.onPosition w ping = b.recompute w (w.now + ping.gapMs) ping) ∨
      ∃ s, readState w (w.now + ping.gapMs) = some s ∧ ¬b.Due w ping ∧
        b.onPosition w ping = (⟨w.now + ping.gapMs, some (b.touched s (w.now + ping.gapMs) ping)⟩, false) := by
  by_cases hstatus : ping.statusChange = true
  · exact .inl ⟨.inl hstatus, by rw [onPosition, if_pos hstatus]⟩
  rw [onPosition, if_neg hstatus, Due]
  cases hread : readState w (w.now + ping.gapMs) with
  | none => exact .inl ⟨.inr (.inl rfl), rfl⟩
  | some s =>
    obtain ⟨hlast, -⟩ := h s (readState_some hread)
    dsimp only
    by_cases hclocks : s.leg = ping.leg ∧ w.now + ping.gapMs - s.lastAt < ETA_RECOMPUTE.intervalMs ∧
        w.now + ping.gapMs - (if STATIONARY_METERS < b.metric.haversineMeters ping.position s.last then
          w.now + ping.gapMs else s.movedAt) < ETA_RECOMPUTE.stationaryMs
    · rw [if_pos hclocks]
      obtain ⟨hleg, hinterval, -⟩ := hclocks
      by_cases hmoved : b.metric.haversineMeters ping.position s.last ≤ STATIONARY_METERS
      · refine .inr ⟨s, rfl, ?_, by rw [if_pos hmoved]; rfl⟩
        rintro (hcontra | hcontra | ⟨_, ⟨⟩, hcontra | hcontra | ⟨hcontra, -⟩⟩)
        · exact hstatus hcontra
        · cases hcontra
        · exact hcontra hleg
        · omega
        · exact absurd hmoved (not_le.mpr hcontra)
      · rw [if_neg hmoved]
        cases hdeviating : b.isDeviating ping.position ping.leg with
        | true => exact .inl ⟨.inr (.inr ⟨s, rfl, .inr (.inr ⟨not_le.mp hmoved, rfl⟩)⟩), rfl⟩
        | false =>
          refine .inr ⟨s, rfl, ?_, rfl⟩
          rintro (hcontra | hcontra | ⟨_, ⟨⟩, hcontra | hcontra | ⟨-, hcontra⟩⟩)
          · exact hstatus hcontra
          · cases hcontra
          · exact hcontra hleg
          · omega
          · cases hcontra
    · rw [if_neg hclocks]
      refine .inl ⟨.inr (.inr ⟨s, rfl, ?_⟩), rfl⟩
      by_contra hcontra
      rw [not_or, not_or, not_not, not_le] at hcontra
      obtain ⟨hleg, hinterval, -⟩ := hcontra
      refine hclocks ⟨hleg, hinterval, ?_⟩
      -- a driver who has not moved since was last moved no earlier than the last recompute
      have hshort : ETA_RECOMPUTE.intervalMs ≤ ETA_RECOMPUTE.stationaryMs := by decide
      split_ifs
      · rw [Nat.sub_self]
        decide
      · omega

theorem recompute_now (now : ℕ) : (b.recompute w now ping).1.now = now := by
  unfold recompute
  split_ifs <;> rfl

theorem onPosition_now (h : InOrder w) : (b.onPosition w ping).1.now = w.now + ping.gapMs := by
  rcases onPosition_cases (b := b) h ping with ⟨-, heq⟩ | ⟨s, -, -, heq⟩
  · rw [heq, recompute_now]
  · rw [heq]

theorem onPosition_inOrder (h : InOrder w) : InOrder (b.onPosition w ping).1 := by
  rcases onPosition_cases (b := b) h ping with ⟨-, heq⟩ | ⟨s, hread, -, heq⟩
  · rw [heq]
    unfold recompute
    split_ifs
    · rintro s ⟨⟩
      exact ⟨le_refl _, le_refl _⟩
    · intro s hs
      exact ⟨(h s hs).1, (h s hs).2.trans (Nat.le_add_right _ _)⟩
  · obtain ⟨hlast, hmoved⟩ := h s (readState_some hread)
    rw [heq]
    rintro _ ⟨⟩
    unfold touched
    dsimp only
    split_ifs <;> omega

/-- A recompute runs just where it is due and leads somewhere. -/
theorem recomputed_iff (h : InOrder w) : (b.onPosition w ping).2 = true ↔
    b.Due w ping ∧ (b.destination ping.leg).isSome = true := by
  rcases onPosition_cases (b := b) h ping with ⟨hdue, heq⟩ | ⟨s, hread, hdue, heq⟩
  · rw [heq, and_iff_right hdue]
    unfold recompute
    split_ifs with hdest
    · simp [hdest]
    · simp [hdest]
  · rw [heq]
    exact iff_of_false Bool.false_ne_true fun hcontra ↦ hdue hcontra.1

theorem after_append (w : Clocked P) (pings others : List (Ping P)) :
    b.after w (pings ++ others) = b.after (b.after w pings) others := List.foldl_append

theorem after_inOrder (h : InOrder w) (pings : List (Ping P)) : InOrder (b.after w pings) := by
  induction pings generalizing w with
  | nil => exact h
  | cons ping pings ih => exact ih (onPosition_inOrder h)

theorem recomputes_iff (h : InOrder w) (pings : List (Ping P)) : b.recomputes w pings = true ↔ b.Fires w pings := by
  induction pings generalizing w with
  | nil => exact iff_of_false Bool.false_ne_true id
  | cons ping pings ih => rw [recomputes, Bool.or_eq_true, recomputed_iff h, ih (onPosition_inOrder h), Fires]

/-- While no recompute runs, the clock of the last one is kept, and the interval is not over. -/
theorem quiet_run (h : InOrder w) {pings : List (Ping P)} (hdest : ∀ ping ∈ pings, (b.destination ping.leg).isSome = true)
    (hquiet : b.recomputes w pings = false) (hne : pings ≠ []) : ∃ s s', w.state = some s ∧
      (b.after w pings).state = some s' ∧ s'.lastAt = s.lastAt ∧
      (b.after w pings).now - s'.lastAt < ETA_RECOMPUTE.intervalMs := by
  induction pings generalizing w with
  | nil => exact absurd rfl hne
  | cons ping pings ih =>
    rw [recomputes, Bool.or_eq_false_iff] at hquiet
    have hping := hdest ping List.mem_cons_self
    rcases onPosition_cases (b := b) h ping with ⟨hdue, -⟩ | ⟨s, hread, hdue, heq⟩
    · rw [(recomputed_iff h).mpr ⟨hdue, hping⟩] at hquiet
      exact absurd hquiet.1.symm Bool.false_ne_true
    · have hinterval : w.now + ping.gapMs - s.lastAt < ETA_RECOMPUTE.intervalMs :=
        not_le.mp fun hle ↦ hdue (.inr (.inr ⟨s, hread, .inr (.inl hle)⟩))
      cases pings with
      | nil =>
        refine ⟨s, b.touched s (w.now + ping.gapMs) ping, readState_some hread, ?_, rfl, ?_⟩
        · rw [after, List.foldl_cons, List.foldl_nil, heq]
        · rw [after, List.foldl_cons, List.foldl_nil, heq]
          exact hinterval
      | cons next pings =>
        obtain ⟨s₁, s', hs₁, hs', hlast, hbound⟩ := ih (onPosition_inOrder h)
          (fun q hq ↦ hdest q (List.mem_cons_of_mem _ hq)) hquiet.2 (List.cons_ne_nil _ _)
        rw [heq] at hs₁
        cases hs₁
        exact ⟨s, s', readState_some hread, hs', hlast, hbound⟩

/-- The time that passes over the pings. -/
def elapsed (pings : List (Ping P)) : ℕ := (pings.map (·.gapMs)).sum

theorem after_now (h : InOrder w) (pings : List (Ping P)) : (b.after w pings).now = w.now + elapsed pings := by
  induction pings generalizing w with
  | nil => rfl
  | cons ping pings ih =>
    have hnext := @ih (b.onPosition w ping).1 (onPosition_inOrder h)
    rw [after, List.foldl_cons, ← after, hnext, onPosition_now h, elapsed, elapsed, List.map_cons, List.sum_cons]
    omega

theorem recompute_state (h : InOrder w) (hran : (b.onPosition w ping).2 = true) :
    (b.onPosition w ping).1.state = some (resetState (w.now + ping.gapMs) ping) := by
  obtain ⟨hdue, hdest⟩ := (recomputed_iff h).mp hran
  rcases onPosition_cases (b := b) h ping with ⟨-, heq⟩ | ⟨s, -, hnot, -⟩
  · rw [heq, recompute, if_pos hdest]
  · exact absurd hdue hnot

/-! What the triggers are for, over a run of pings. -/

/-- How far the driver goes, from the ping before if there is one. -/
def travelled (b : Tracked P) : Option P → List (Ping P) → ℚ
  | _, [] => 0
  | none, ping :: pings => travelled b (some ping.position) pings
  | some q, ping :: pings => b.metric.haversineMeters ping.position q + travelled b (some ping.position) pings

/-- Since the last ping on the line the driver has been off it, and has gone some way. -/
structure Excursion (b : Tracked P) (before stretch : List (Ping P)) : Prop where
  left : ∀ ping, before.getLast? = some ping → b.isDeviating ping.position ping.leg = false
  off : ∀ ping ∈ stretch, b.isDeviating ping.position ping.leg = true
  far : STATIONARY_METERS < b.travelled (before.getLast?.map (·.position)) stretch

/-- From the first ping on the driver stays by one point for long. -/
structure Stay (b : Tracked P) (first : Ping P) (stay : List (Ping P)) : Prop where
  near : ∃ centre, ∀ ping ∈ first :: stay, b.metric.haversineMeters ping.position centre ≤ STATIONARY_METERS
  long : ETA_RECOMPUTE.stationaryMs ≤ elapsed stay

/-- Every trigger fires in the run. -/
structure Triggers (b : Tracked P) (w : Clocked P) (pings : List (Ping P)) : Prop where
  deviation : ∀ before stretch rest, pings = before ++ stretch ++ rest → Excursion b before stretch →
    b.recomputes (b.after w before) stretch = true
  stationary : ∀ before first stay rest, pings = before ++ first :: stay ++ rest → Stay b first stay →
    b.recomputes (b.after w (before ++ [first])) stay = true
  interval : ∀ before first middle last rest, pings = before ++ first :: middle ++ last :: rest →
    (b.onPosition (b.after w before) first).2 = true → b.recomputes (b.after w (before ++ [first])) middle = false →
    (b.onPosition (b.after w (before ++ first :: middle)) last).2 = true → (∀ ping ∈ middle ++ [last], ping.leg = first.leg) →
    elapsed (middle ++ [last]) ≤ ETA_RECOMPUTE.intervalMs + last.gapMs

/-- In every excursion, and every stay, some ping is due on a leg that leads somewhere. -/
structure AllFire (b : Tracked P) (w : Clocked P) (pings : List (Ping P)) : Prop where
  excursions : ∀ before stretch rest, pings = before ++ stretch ++ rest → Excursion b before stretch →
    b.Fires (b.after w before) stretch
  stays : ∀ before first stay rest, pings = before ++ first :: stay ++ rest → Stay b first stay →
    b.Fires (b.after w (before ++ [first])) stay

theorem interval_kept (h : InOrder w) {first last : Ping P} {middle : List (Ping P)}
    (hfirst : (b.onPosition w first).2 = true) (hquiet : b.recomputes (b.onPosition w first).1 middle = false)
    (hleg : ∀ ping ∈ middle, ping.leg = first.leg) :
    elapsed (middle ++ [last]) ≤ ETA_RECOMPUTE.intervalMs + last.gapMs := by
  have hsum : elapsed (middle ++ [last]) = elapsed middle + last.gapMs := by
    unfold elapsed
    rw [List.map_append, List.sum_append]
    rfl
  rw [hsum]
  by_cases hne : middle = []
  · subst hne
    have hzero : elapsed ([] : List (Ping P)) = 0 := rfl
    omega
  · have hdest : ∀ ping ∈ middle, (b.destination ping.leg).isSome = true := by
      intro ping hping
      rw [hleg ping hping]
      exact ((recomputed_iff h).mp hfirst).2
    have hnext := @onPosition_inOrder _ b w first h
    obtain ⟨s, s', hs, hs', hlast, hbound⟩ := quiet_run hnext hdest hquiet hne
    rw [recompute_state h hfirst] at hs
    cases hs
    rw [after_now hnext, onPosition_now h] at hbound
    have hat : s'.lastAt = w.now + first.gapMs := hlast
    omega

/-- The booking as it is first followed: at the plan of its route, or before there was one. -/
def followedFrom (now : ℕ) (planned : Option (Ping P)) : Clocked P := ⟨now, planned.map (resetState now)⟩

theorem followedFrom_inOrder (now : ℕ) (planned : Option (Ping P)) : InOrder (followedFrom now planned) := by
  intro s hs
  obtain ⟨ping, -, rfl⟩ := Option.map_eq_some_iff.mp hs
  exact ⟨le_refl _, le_refl _⟩

/-- Every trigger fires just where each excursion and each stay has a ping that is due: a single
hop that is long enough, the interval, another leg or status. -/
theorem triggers_fire (b : Tracked P) (now : ℕ) (planned : Option (Ping P)) (pings : List (Ping P)) :
    Triggers b (followedFrom now planned) pings ↔ AllFire b (followedFrom now planned) pings := by
  have h := followedFrom_inOrder now planned
  constructor
  · intro ht
    refine ⟨fun before stretch rest heq hex ↦ ?_, fun before first stay rest heq hstay ↦ ?_⟩
    · exact (recomputes_iff (after_inOrder h before) stretch).mp (ht.deviation before stretch rest heq hex)
    · exact (recomputes_iff (after_inOrder h _) stay).mp (ht.stationary before first stay rest heq hstay)
  · intro hf
    refine ⟨fun before stretch rest heq hex ↦ ?_, fun before first stay rest heq hstay ↦ ?_, ?_⟩
    · exact (recomputes_iff (after_inOrder h before) stretch).mpr (hf.excursions before stretch rest heq hex)
    · exact (recomputes_iff (after_inOrder h _) stay).mpr (hf.stays before first stay rest heq hstay)
    · intro before first middle last rest _ hfirst hquiet _ hleg
      rw [after_append] at hquiet
      exact interval_kept (after_inOrder h before) hfirst hquiet fun ping hping ↦ hleg ping (List.mem_append_left _ hping)

end Tracked

/-- The start of a straight road of six kilometres, which a driver has yet to reach. -/
def beforeTheRoad : Tracked ℚ where
  metric := straight
  destination _ := some 6000
  path _ := [0, 6000]

/-- A ping of a slow driver, three seconds after the one before. -/
def slowPing (position : ℚ) : Ping ℚ := ⟨3000, position, .pickup, false⟩

/-- Three pings off the road, twenty metres apart, and no recompute. -/
theorem slow_excursion : ¬beforeTheRoad.Triggers (Tracked.followedFrom 0 (some (slowPing (-300))))
    [slowPing (-320), slowPing (-340), slowPing (-360)] := by
  intro h
  have hran := h.deviation [] [slowPing (-320), slowPing (-340), slowPing (-360)] [] rfl
    ⟨by decide, by decide +kernel, by decide +kernel⟩
  exact absurd hran (by decide +kernel)

end Towing.Tracking
