import Towing.Dispatch.ConfigLayers
import Towing.Money.Tables

namespace Towing.Dispatch

open Towing.Common Towing.Trips Towing.Money

/-! The waves of one booking's search, and what the customer is shown of them. -/

/-- What a search has of its booking that does not change, and the configuration. -/
structure SearchSetup where
  zoneId : Option ℕ
  serviceType : ServiceType
  longDistance : Bool
  store : ConfigStore

/-- A wave between its read of the booking and its write. -/
structure Flight where
  wave : ℕ
  radiusKm : ℚ
  deadlineAt : ℕ
  /-- The booking had no deadline, and this one is written. -/
  stamps : Bool
  startedAt : ℕ

/-- A re-dispatch between its read of the booking and its write. -/
structure Resumption where
  wave : ℕ
  deadlineAt : ℕ

structure SearchState where
  status : BookingStatus
  searchWave : Option ℕ
  dispatchDeadlineAt : Option ℕ
  flights : List Flight
  resumptions : List Resumption
  /-- The waves that ran, as they were announced on the socket. -/
  ran : List Flight

inductive SearchStep
  /-- A wave starts, with the search held for now or not. -/
  | runWave (now : ℕ) (held : Bool)
  | setWaveState (flight : ℕ)
  | redispatch (now : ℕ)
  | resume (resumption : ℕ)
  | retrySearch
  /-- A transition that is not of the search. -/
  | transition (status : BookingStatus)

structure Progress where
  wave : ℕ
  radiusKm : ℚ
  deadlineAt : Option ℕ
  deriving DecidableEq

namespace SearchSetup

variable (x : SearchSetup)

def config : DispatchConfig := x.store.configFor x.zoneId x.serviceType

def ladder : List ℚ := if x.longDistance then x.config.bandCRadiusLadderKm else x.config.radiusLadderKm

/-- The radius of a wave, with the widest past the last rung. -/
def rung (wave : ℕ) : ℚ := (x.ladder[min wave x.ladder.length - 1]?).getD (x.ladder.getLast?.getD 0)

/-- The ladder of the polling query, which reads the zone and no more. -/
def polledLadder : List ℚ := (resolveDispatchConfig (x.zoneId.bind x.store.zones) (some x.serviceType) none).radiusLadderKm

def polledRung (wave : ℕ) : ℚ := (x.polledLadder[min wave x.polledLadder.length - 1]?).getD (x.polledLadder.head?.getD 0)

def start : SearchState := ⟨.searching, none, none, [], [], []⟩

def run (s : SearchState) : SearchStep → SearchState
  | .runWave now held =>
    if s.status ≠ .searching || held then s
    else
      let wave := s.searchWave.getD 0 + 1
      let deadlineAt := s.dispatchDeadlineAt.getD (now + x.config.maxSearchSeconds * 1000)
      if deadlineAt ≤ now then { s with status := .noDriversFound }
      else { s with flights := s.flights ++ [⟨wave, x.rung wave, deadlineAt, s.dispatchDeadlineAt.isNone, now⟩] }
  | .setWaveState i =>
    match s.flights[i]? with
    | none => s
    | some flight =>
      { s with
        searchWave := some flight.wave
        dispatchDeadlineAt := if flight.stamps then some flight.deadlineAt else s.dispatchDeadlineAt
        flights := s.flights.eraseIdx i
        ran := s.ran ++ [flight] }
  | .redispatch now =>
    if s.status ≠ .searching then s
    else { s with resumptions := s.resumptions ++ [⟨s.searchWave.getD 1, now + x.config.maxSearchSeconds * 1000⟩] }
  | .resume i =>
    match s.resumptions[i]? with
    | none => s
    | some resumption =>
      { s with
        searchWave := some resumption.wave
        dispatchDeadlineAt := some resumption.deadlineAt
        resumptions := s.resumptions.eraseIdx i }
  | .retrySearch =>
    if isLegal s.status .searching then
      { s with status := .searching, searchWave := none, dispatchDeadlineAt := none }
    else s
  | .transition status => { s with status := status }

def runAll (steps : List SearchStep) : SearchState := steps.foldl x.run start

/-- What the poll answers of the search. -/
def searchProgress (s : SearchState) : Option Progress :=
  if s.status ≠ .searching then none
  else s.searchWave.map fun wave ↦ ⟨wave, x.polledRung wave, s.dispatchDeadlineAt⟩

/-! Every wave runs in time, on its rung. -/

variable {x : SearchSetup} {s : SearchState} {step : SearchStep}

/-- The wave started before its deadline, and its radius is that of the rung it got to. -/
structure Sound (x : SearchSetup) (flight : Flight) : Prop where
  inTime : flight.startedAt < flight.deadlineAt
  counted : 1 ≤ flight.wave
  onRung : flight.radiusKm = x.rung flight.wave

structure AllSound (x : SearchSetup) (s : SearchState) : Prop where
  flights : ∀ flight ∈ s.flights, Sound x flight
  ran : ∀ flight ∈ s.ran, Sound x flight

theorem sound_run (h : AllSound x s) (step : SearchStep) : AllSound x (x.run s step) := by
  cases step with
  | runWave now held =>
    simp only [run]
    split_ifs with hheld hdeadline
    · exact h
    · exact ⟨h.flights, h.ran⟩
    · refine ⟨fun flight hmem ↦ ?_, h.ran⟩
      rcases List.mem_append.mp hmem with hold | hnew
      · exact h.flights flight hold
      · rw [List.mem_singleton] at hnew
        subst hnew
        exact ⟨not_le.mp hdeadline, Nat.le_add_left 1 _, rfl⟩
  | setWaveState i =>
    simp only [run]
    cases hflight : s.flights[i]? with
    | none => exact h
    | some flight =>
      refine ⟨fun other hmem ↦ h.flights other (List.mem_of_mem_eraseIdx hmem), fun other hmem ↦ ?_⟩
      rcases List.mem_append.mp hmem with hold | hnew
      · exact h.ran other hold
      · rw [List.mem_singleton] at hnew
        subst hnew
        exact h.flights other (List.mem_of_getElem? hflight)
  | redispatch now =>
    simp only [run]
    split_ifs
    · exact h
    · exact ⟨h.flights, h.ran⟩
  | resume i =>
    simp only [run]
    cases s.resumptions[i]? with
    | none => exact h
    | some resumption => exact ⟨h.flights, h.ran⟩
  | retrySearch =>
    simp only [run]
    split_ifs
    · exact ⟨h.flights, h.ran⟩
    · exact h
  | transition status => exact ⟨h.flights, h.ran⟩

theorem sound_foldl (h : AllSound x s) (steps : List SearchStep) : AllSound x (steps.foldl x.run s) := by
  induction steps generalizing s with
  | nil => exact h
  | cons step steps ih => exact ih (sound_run h step)

theorem sound_start : AllSound x start := ⟨by simp [start], by simp [start]⟩

/-- No configuration leaves a search without a ladder. -/
theorem resolve_ladders (raw : Option Json) (service : Option ServiceType) (offers : Option PerServiceMaxOffers) :
    Ascends (resolveDispatchConfig raw service offers).radiusLadderKm ∧
      Ascends (resolveDispatchConfig raw service offers).bandCRadiusLadderKm := by
  have hdefault := defaults_inRange
  have hunset : Ascends DISPATCH_CONFIG_DEFAULTS.radiusLadderKm ∧ Ascends DISPATCH_CONFIG_DEFAULTS.bandCRadiusLadderKm :=
    ⟨hdefault.radiusLadderKm, hdefault.bandCRadiusLadderKm⟩
  cases raw with
  | none => exact hunset
  | some raw =>
    by_cases hnull : raw = .null
    · subst hnull
      exact hunset
    · cases hzone : dispatchConfigOverrideSchema raw with
      | none =>
        rw [resolve_invalid hnull hzone]
        exact hunset
      | some zone =>
        rw [resolve_valid hzone]
        exact ⟨ladder_elim hunset.1, ladder_elim hunset.2⟩

theorem ladder_ne_nil (x : SearchSetup) : x.ladder ≠ [] := by
  have hladders := resolve_ladders (some ((x.zoneId.bind x.store.zones).getD .null)) (some x.serviceType)
    x.store.perServiceMaxOffers
  have hne {km : List ℚ} (h : Ascends km) : km ≠ [] := List.ne_nil_of_length_pos h.1.1
  unfold ladder
  split_ifs
  · exact hne hladders.2
  · exact hne hladders.1

/-- The radius is the last of the first rungs, as many as there were waves. -/
theorem rung_eq {wave : ℕ} (hwave : 1 ≤ wave) : (x.ladder.take wave).getLast? = some (x.rung wave) := by
  have hpos : 1 ≤ x.ladder.length := List.length_pos_of_ne_nil x.ladder_ne_nil
  have hlt : min wave x.ladder.length - 1 < x.ladder.length := by omega
  rw [List.getLast?_eq_getElem?, List.length_take, List.getElem?_take, if_pos (by omega), rung,
    List.getElem?_eq_getElem hlt, Option.getD_some]

/-! What is polled and what was run. -/

/-- The poll answers with the last wave that ran, if it answers at all. -/
def Shown (x : SearchSetup) (s : SearchState) : Prop :=
  ∀ progress, x.searchProgress s = some progress → ∃ last, s.ran.getLast? = some last ∧
    progress = ⟨last.wave, last.radiusKm, some last.deadlineAt⟩

/-- The booking's own columns hold the last wave that ran, or none. -/
def Held (x : SearchSetup) (s : SearchState) : Prop :=
  ∀ wave, s.searchWave = some wave → ∃ last, s.ran.getLast? = some last ∧ last.wave = wave ∧
    s.dispatchDeadlineAt = some last.deadlineAt ∧ last.radiusKm = x.polledRung wave

theorem shown_of_held (h : Held x s) : Shown x s := by
  intro progress hprogress
  unfold searchProgress at hprogress
  split_ifs at hprogress
  obtain ⟨wave, hwave, rfl⟩ := Option.map_eq_some_iff.mp hprogress
  obtain ⟨last, hlast, rfl, hdeadline, hradius⟩ := h wave hwave
  exact ⟨last, hlast, by rw [hdeadline, hradius]⟩

/-- The step leaves the poll with the last wave: a wave outside Band C (or on a rung that both
ladders share) whose deadline nobody wrote over meanwhile; a re-dispatch that writes what is there. -/
def Meets (x : SearchSetup) (s : SearchState) : SearchStep → Prop
  | .setWaveState i => ∀ flight, s.flights[i]? = some flight →
    (x.longDistance = true → x.polledRung flight.wave = x.rung flight.wave) ∧
      (flight.stamps = true ∨ s.dispatchDeadlineAt = some flight.deadlineAt)
  | .resume i => ∀ resumption, s.resumptions[i]? = some resumption →
    s.searchWave = some resumption.wave ∧ s.dispatchDeadlineAt = some resumption.deadlineAt
  | _ => True

/-- Outside Band C the poll and the waves are on one ladder. -/
theorem polledRung_eq (h : x.longDistance = false) (wave : ℕ) : x.polledRung wave = x.rung wave := by
  have hladder : x.polledLadder = x.ladder := by
    unfold ladder polledLadder config ConfigStore.configFor
    rw [h]
    cases x.zoneId.bind x.store.zones with
    | none => rfl
    | some raw =>
      by_cases hnull : raw = .null
      · subst hnull
        rfl
      · rw [Option.getD_some]
        cases hzone : dispatchConfigOverrideSchema raw with
        | none =>
          rw [resolve_invalid hnull hzone, resolve_invalid hnull hzone]
          rfl
        | some zone =>
          rw [resolve_valid hzone, resolve_valid hzone]
          rfl
  have hpos : 1 ≤ x.ladder.length := List.length_pos_of_ne_nil x.ladder_ne_nil
  have hlt : min wave x.ladder.length - 1 < x.ladder.length := by omega
  rw [polledRung, hladder, rung, List.getElem?_eq_getElem hlt]
  rfl

/-- A wave that meets the condition is what the poll answers with from then on. -/
theorem held_wave (hsound : AllSound x s) {i : ℕ} {flight : Flight} (hflight : s.flights[i]? = some flight)
    (hmeets : Meets x s (.setWaveState i)) : Held x (x.run s (.setWaveState i)) := by
  obtain ⟨hband, hdeadline⟩ := hmeets flight hflight
  have hrung := (hsound.flights flight (List.mem_of_getElem? hflight)).onRung
  simp only [run, hflight]
  rintro wave ⟨⟩
  refine ⟨flight, List.getLast?_concat, rfl, ?_, ?_⟩
  · dsimp only
    split_ifs with hstamps
    · rfl
    · exact hdeadline.resolve_left hstamps
  · cases hlong : x.longDistance with
    | true => rw [hrung, hband hlong]
    | false => rw [hrung, polledRung_eq hlong]

theorem held_run (hsound : AllSound x s) (h : Held x s) (hmeets : Meets x s step) : Held x (x.run s step) := by
  cases step with
  | runWave now held =>
    simp only [run]
    split_ifs
    · exact h
    · exact h
    · exact h
  | setWaveState i =>
    cases hflight : s.flights[i]? with
    | none =>
      simp only [run, hflight]
      exact h
    | some flight => exact held_wave hsound hflight hmeets
  | redispatch now =>
    simp only [run]
    split_ifs
    · exact h
    · exact h
  | resume i =>
    simp only [run]
    cases hresumption : s.resumptions[i]? with
    | none => exact h
    | some resumption =>
      obtain ⟨hwave, hdeadline⟩ := hmeets resumption hresumption
      rintro wave ⟨⟩
      obtain ⟨last, hlast, hown, hsame, hradius⟩ := h resumption.wave hwave
      exact ⟨last, hlast, hown, hdeadline.symm.trans hsame, hradius⟩
  | retrySearch =>
    simp only [run]
    split_ifs
    · rintro wave ⟨⟩
    · exact h
  | transition status => exact h

/-- Every step of the run meets the condition. -/
def MeetsAll (x : SearchSetup) (s : SearchState) : List SearchStep → Prop
  | [] => True
  | step :: steps => Meets x s step ∧ MeetsAll x (x.run s step) steps

theorem held_foldl {steps : List SearchStep} (hsound : AllSound x s) (h : Held x s) (hmeets : MeetsAll x s steps) :
    Held x (steps.foldl x.run s) := by
  induction steps generalizing s with
  | nil => exact h
  | cons step steps ih => exact ih (sound_run hsound step) (held_run hsound h hmeets.1) hmeets.2

/-- The state is one from which the poll can be followed: the search has not begun, or was just
retried, or just ran a wave as the condition says. -/
def Anchored (x : SearchSetup) (before : List SearchStep) : Prop :=
  before = [] ∨
    (∃ earlier : List SearchStep, before = earlier ++ [.retrySearch] ∧
      isLegal (x.runAll earlier).status .searching = true) ∨
    ∃ (earlier : List SearchStep) (i : ℕ) (flight : Flight), before = earlier ++ [.setWaveState i] ∧ (x.runAll earlier).flights[i]? = some flight ∧
      Meets x (x.runAll earlier) (.setWaveState i)

theorem held_anchored {before : List SearchStep} (h : Anchored x before) : Held x (x.runAll before) := by
  rcases h with rfl | ⟨earlier, rfl, hlegal⟩ | ⟨earlier, i, flight, rfl, hflight, hmeets⟩
  · rintro wave ⟨⟩
  · rw [runAll, List.foldl_concat, ← runAll]
    simp only [run, hlegal, if_true]
    rintro wave ⟨⟩
  · rw [runAll, List.foldl_concat, ← runAll]
    exact held_wave (sound_foldl sound_start earlier) hflight hmeets

/-- In every run every wave runs in time and on its rung; and the poll answers with the last
wave from each anchor on, while every step meets the condition. -/
theorem searchProgress_shown (x : SearchSetup) (before after : List SearchStep) :
    (∀ flight ∈ (x.runAll (before ++ after)).ran, flight.startedAt < flight.deadlineAt ∧
      (x.ladder.take flight.wave).getLast? = some flight.radiusKm) ∧
    (Anchored x before → MeetsAll x (x.runAll before) after → Shown x (x.runAll (before ++ after))) := by
  constructor
  · intro flight hmem
    have hsound := (sound_foldl (x := x) sound_start (before ++ after)).ran flight hmem
    exact ⟨hsound.inTime, hsound.onRung ▸ rung_eq hsound.counted⟩
  · intro hanchor hmeets
    rw [runAll, List.foldl_append, ← runAll]
    exact shown_of_held (held_foldl (sound_foldl sound_start before) (held_anchored hanchor) hmeets)

end SearchSetup

/-- A search with the default configuration. -/
def defaultSearch (longDistance : Bool) : SearchSetup := ⟨some 1, .tow, longDistance, ⟨fun _ ↦ none, none⟩⟩

theorem searchProgress_shown_sample :
    (defaultSearch false).Shown ((defaultSearch false).runAll
      [.runWave 1000 false, .setWaveState 0, .runWave 3000 false, .setWaveState 0]) := by
  refine (SearchSetup.searchProgress_shown (defaultSearch false) []
    [.runWave 1000 false, .setWaveState 0, .runWave 3000 false, .setWaveState 0]).2 (.inl rfl) ⟨trivial, ?_, trivial, ?_, trivial⟩
  · rintro flight ⟨⟩
    exact ⟨fun h ↦ (by cases h), .inl rfl⟩
  · rintro flight ⟨⟩
    exact ⟨fun h ↦ (by cases h), .inr rfl⟩

/-- A long haul is announced at ten kilometres, and polled at two. -/
theorem bandC_polled_narrow : ¬(defaultSearch true).Shown ((defaultSearch true).runAll
    [.runWave 1000 false, .setWaveState 0]) := by
  intro h
  obtain ⟨last, hlast, hsame⟩ := h ⟨1, 2, some 181000⟩ (by decide +kernel)
  cases hlast
  exact absurd hsame (by decide +kernel)

end Towing.Dispatch
