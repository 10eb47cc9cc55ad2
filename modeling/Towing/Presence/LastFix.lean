import Towing.Presence.Justified
import Mathlib.Tactic.NormNum

namespace Towing.Presence

open Towing.Process
open Towing.Money (Failure)

variable {distanceKm haversineMeters : GeoPoint → GeoPoint → ℚ} {s₀ s w : World} {d : ℕ}
  {p : DriverLocationPing} {fs : List (Event Step World)}

/-- The ping has been stored in the hash the driver has now: it has been there ever
since. -/
def AppliedToCurrent (fs : List (Event Step World)) (d : ℕ) (p : DriverLocationPing) : Prop :=
  ∃ pre e post, fs = pre ++ e :: post ∧ Applies d p e ∧ ∀ g ∈ post, (g.after.hash d).isSome

/-- A ping from the point has been stored in the driver's current hash. -/
def SentFrom (fs : List (Event Step World)) (d : ℕ) (q : GeoPoint) : Prop :=
  ∃ p, AppliedToCurrent fs d p ∧ p.toGeoPoint = q

/-- What `lastFix` answers is nothing, or where the driver has said to be. -/
def Truthful (fs : List (Event Step World)) (w : World) (d : ℕ) : Prop :=
  ∀ fix, w.lastFix d = some fix → SentFrom fs d fix.point

theorem fix_store (htakes : w.takes d p = true) : (w.run (.applyPing d p)).fix d = some p := by
  obtain ⟨h, hh, -⟩ := takes_iff.mp htakes
  have hrun : (w.run (.applyPing d p)).hash d = some { h with
      fix := some p, expiresAt := w.now + driverHashTtlMs } := by
    rw [hash_run, World.hashAfter, if_pos ⟨rfl, htakes⟩, hh, Option.map_some]
  rw [fix_of_hash hrun]

/-- A hash that stays keeps having a fix. -/
theorem fix_stays {l : Step} (hfix : (w.fix d).isSome) (hhash : ((w.run l).hash d).isSome) :
    ((w.run l).fix d).isSome := by
  obtain ⟨p, hp⟩ := Option.isSome_iff_exists.mp hfix
  obtain ⟨h, hh, hfix⟩ := hash_of_fix hp
  obtain ⟨h', hh'⟩ := Option.isSome_iff_exists.mp hhash
  have hrun := hash_run w l d
  rw [fix_of_hash hh']
  rw [hh'] at hrun
  cases l with
  | applyPing d' q =>
    simp only [World.hashAfter] at hrun
    split_ifs at hrun
    · rw [hh, Option.map_some] at hrun
      obtain rfl := Option.some.inj hrun
      rfl
    · obtain rfl := Option.some.inj (hrun.trans hh)
      simp [hfix]
  | putIdentity d' identity vehicleClass longDistance =>
    simp only [World.hashAfter] at hrun
    split_ifs at hrun
    · obtain rfl := Option.some.inj hrun
      simp [hp]
    · obtain rfl := Option.some.inj (hrun.trans hh)
      simp [hfix]
  | del d' =>
    simp only [World.hashAfter] at hrun
    split_ifs at hrun
    obtain rfl := Option.some.inj (hrun.trans hh)
    simp [hfix]
  | tick ms =>
    have hkept := (Option.filter_eq_some_iff.mp hrun.symm).1
    obtain rfl := Option.some.inj (hkept.symm.trans hh)
    simp [hfix]
  | _ =>
    obtain rfl := Option.some.inj (hrun.trans hh)
    simp [hfix]

/-- A driver's fix is a ping stored in the hash there is. -/
theorem applied_of_fix (h : Chained s₀ fs s) (hrun : ∀ e ∈ fs, e.after = e.before.run e.label)
    (h₀ : s₀.fix d = none) (hfix : s.fix d = some p) : AppliedToCurrent fs d p := by
  revert p
  refine h.history (J := fun fs s ↦ ∀ {p : DriverLocationPing}, s.fix d = some p → AppliedToCurrent fs d p) ?_ ?_
  · intro p hp
    rw [h₀] at hp
    cases hp
  · intro pre e he ih p hp
    have hafter := hrun e he
    rw [hafter] at hp
    obtain ⟨hlabel, htakes⟩ | ⟨hkept, -⟩ := fix_run hp
    · exact ⟨pre, e, [], rfl, ⟨hlabel, htakes⟩, by simp⟩
    · obtain ⟨pre', e', post, hpre, happlies, hlive⟩ := ih hkept
      refine ⟨pre', e', post ++ [e], by simp [hpre], happlies, fun g hg ↦ ?_⟩
      rcases List.mem_append.mp hg with hg | hg
      · exact hlive g hg
      · obtain rfl := List.mem_singleton.mp hg
        rw [hafter]
        obtain ⟨h, hh, -⟩ := hash_of_fix hp
        simp [hh]

theorem fix_of_applied (h : Chained s₀ fs s) (hrun : ∀ e ∈ fs, e.after = e.before.run e.label)
    (happlied : AppliedToCurrent fs d p) : (s.fix d).isSome := by
  revert p
  refine h.history (J := fun fs s ↦ ∀ {p : DriverLocationPing}, AppliedToCurrent fs d p → (s.fix d).isSome) ?_ ?_
  · intro p ⟨pre, e, post, hnil, _⟩
    simp at hnil
  · intro pre e he ih p ⟨pre', e', post, heq, happlies, hlive⟩
    rw [hrun e he]
    rcases List.eq_nil_or_concat post with rfl | ⟨post, g, rfl⟩
    · obtain ⟨-, hlast⟩ := List.append_inj' heq rfl
      obtain rfl := (List.cons.inj hlast).1
      rw [happlies.1, fix_store happlies.2]
      rfl
    · rw [List.concat_eq_append, ← List.cons_append, ← List.append_assoc] at heq
      obtain ⟨rfl, hlast⟩ := List.append_inj' heq rfl
      obtain rfl := (List.cons.inj hlast).1
      have hbefore := ih (p := p) ⟨pre', e', post, rfl, happlies, fun g hg ↦ hlive g (by simp [hg])⟩
      have hafter := hlive e (by simp)
      rw [hrun e he] at hafter
      exact fix_stays hbefore hafter

theorem sentFrom_iff (h : Chained s₀ fs s) (hrun : ∀ e ∈ fs, e.after = e.before.run e.label)
    (h₀ : s₀.fix d = none) {fix : Fix} (hfix : s.lastFix d = some fix) :
    SentFrom fs d fix.point ↔ (s.fix d).isSome := by
  constructor
  · intro hsent
    obtain ⟨p, happlied, -⟩ := hsent
    exact fix_of_applied h hrun happlied
  · intro hsome
    obtain ⟨p, hp⟩ := Option.isSome_iff_exists.mp hsome
    refine ⟨p, applied_of_fix h hrun h₀ hp, ?_⟩
    simp only [World.lastFix, hp, Number] at hfix
    obtain rfl := Option.some.inj hfix
    rfl

theorem truthful_iff (h : Chained s₀ fs s) (hrun : ∀ e ∈ fs, e.after = e.before.run e.label)
    (h₀ : s₀.fix d = none) : Truthful fs s d ↔ (s.fix d).isSome := by
  obtain ⟨fix, hfix⟩ := lastFix_isSome s d
  rw [← sentFrom_iff h hrun h₀ hfix]
  constructor
  · intro htruthful
    exact htruthful fix hfix
  · intro hsent fix' hfix'
    obtain rfl := Option.some.inj (hfix.symm.trans hfix')
    exact hsent

variable {cs : List (Call Step World Failure)} {es : List (ℕ × Event Step World)} {i n : ℕ}
  {e : Event Step World}

/-- The commits before one make up the run to what it finds. -/
theorem chained_before (h : Calls (Presents distanceKm haversineMeters) s₀ cs w es) (he : Makes es i n e) :
    Chained s₀ ((es.take i).map (·.2)) e.before :=
  h.upto he.split

theorem commits_before (h : Calls (Presents distanceKm haversineMeters) s₀ cs w es) (i : ℕ) :
    ∀ e ∈ (es.take i).map (·.2), e.after = e.before.run e.label := by
  intro e he
  obtain ⟨x, hx, rfl⟩ := List.mem_map.mp he
  exact h.committed x (List.mem_of_mem_take hx)

theorem fix_fresh (hs : s₀.Fresh) (d : ℕ) : s₀.fix d = none := by simp [World.fix, World.hash, hs.hashes]

/-- `lastFix` tells where the driver has said to be exactly when the driver's hash has
a fix, in every state of every run; and so do the points that the arrival check and the
route after an assignment start from. -/
theorem last_fix_sent_iff (h : Calls (Presents distanceKm haversineMeters) s₀ cs w es) (hs : s₀.Fresh)
    (d : ℕ) :
    (Truthful (es.map (·.2)) w d ↔ (w.fix d).isSome) ∧
    (∀ i n e, Makes es i n e → (Truthful ((es.take i).map (·.2)) e.before d ↔ (e.before.fix d).isSome)) ∧
    ∀ i n e q, Makes es i n e → e.label.origin = some (d, q) →
      ∃ j r, j < i ∧ Makes es j n r ∧ r.label = .lastFix d ∧
        (SentFrom ((es.take j).map (·.2)) d q ↔ (r.before.fix d).isSome) := by
  refine ⟨truthful_iff h.chained (commits h) (fix_fresh hs d), fun i n e he ↦ ?_, fun i n e q he horigin ↦ ?_⟩
  · exact truthful_iff (chained_before h he) (commits_before h i) (fix_fresh hs d)
  · obtain ⟨c, -, hjustified⟩ := justified_of_makes h he
    cases hlabel : e.label with
    | measure | route =>
      rw [hlabel] at hjustified horigin
      cases hjustified with
      | quiet hq => cases hq
      | draw hr hread hfix hfrom =>
        obtain ⟨j, hj, hr⟩ := makes_of_own hr
        rw [hfrom] at horigin
        obtain ⟨rfl, rfl⟩ := Prod.mk.inj (Option.some.inj horigin)
        exact ⟨j, _, hj, hr, hread, sentFrom_iff (chained_before h hr) (commits_before h j) (fix_fresh hs _) hfix⟩
    | _ =>
      rw [hlabel] at horigin
      cases horigin

/-! One driver online beside the pickup. -/

def sampleStanding : Standing := ⟨true, none, none, some 1, false, false, false⟩

def samplePickup : GeoPoint := ⟨12, 77⟩

def samplePresence : World where
  now := 1000
  drivers := fun d ↦ if d ≤ 2 then some ⟨sampleStanding, false, none, none, none⟩ else none
  hashes := fun _ ↦ none
  geo := fun _ ↦ ∅
  pending := fun _ ↦ ∅
  flushing := fun _ ↦ false
  destroyed := fun _ ↦ false
  path := []
  activeBookings := fun _ ↦ []
  zoneAt := fun q ↦ if q.lng < 80 then some ⟨7, "Zone 7"⟩ else some ⟨8, "Zone 8"⟩
  config := ⟨45, 10000, 3000⟩
  pickup := fun _ ↦ some samplePickup

theorem samplePresence_fresh : samplePresence.Fresh where
  hashes _ := rfl
  geo _ := rfl
  pending _ := rfl
  offline d row hrow := by
    simp only [samplePresence] at hrow
    split_ifs at hrow
    obtain rfl := Option.some.inj hrow
    rfl

/-- A flat measure, good enough for a sample. -/
def sampleMeters (p q : GeoPoint) : ℚ := 111000 * (|p.lat - q.lat| + |p.lng - q.lng|)

def samplePing (seq : ℕ) (point : GeoPoint) (sentAt : ℕ) : DriverLocationPing :=
  ⟨point, seq, sentAt, none, none, none⟩

/-- The requests, and who takes the next step at each turn. -/
def presenceRun (ps : List (Request Unit)) (turns : List ℕ) :
    List (Call Step World Failure) × World × List (ℕ × Event Step World) :=
  takeTurns turns (ps.map fun p ↦ ⟨p, p⟩) samplePresence

theorem presenceRun_calls {ps : List (Request Unit)} (turns : List ℕ)
    (hps : ∀ p ∈ ps, Presents sampleMeters sampleMeters p) :
    Calls (Presents sampleMeters sampleMeters) samplePresence (presenceRun ps turns).1
      (presenceRun ps turns).2.1 (presenceRun ps turns).2.2 := by
  simpa [presenceRun] using (Calls.start.askAll hps).takeTurns turns

/-- Online without a ping yet, and arriving where they are. -/
def sampleArrival : List (Request Unit) :=
  [(DriverPresenceService.goOnline 1 samplePickup).ignore,
    JobExecutionService.requireNearPickup sampleMeters 5 1]

theorem sampleArrival_presents : ∀ p ∈ sampleArrival, Presents sampleMeters sampleMeters p := by
  simp only [sampleArrival, List.forall_mem_cons]
  exact ⟨.goOnline 1 samplePickup, .arrived 5 1, by simp⟩

def sampleArrivalTurns : List ℕ := [0, 0, 0, 0, 0, 1, 1, 1]

/-- The arrival is measured from a point that no ping has come from. -/
theorem arrival_measured_from_nowhere : ∃ cs w es,
    Calls (Presents sampleMeters sampleMeters) samplePresence cs w es ∧
      (∃ e ∈ es, e.2.label.origin = some (1, ⟨0, 0⟩)) ∧ ¬Truthful (es.map (·.2)) w 1 := by
  have hcalls := presenceRun_calls sampleArrivalTurns sampleArrival_presents
  refine ⟨_, _, _, hcalls, ?_, ?_⟩
  · have horigins : some (1, ⟨0, 0⟩) ∈ (presenceRun sampleArrival sampleArrivalTurns).2.2.map
        fun e ↦ e.2.label.origin := by decide +kernel
    obtain ⟨e, he, horigin⟩ := List.mem_map.mp horigins
    exact ⟨e, he, horigin⟩
  · rw [truthful_iff hcalls.chained (commits hcalls) (fix_fresh samplePresence_fresh 1)]
    decide +kernel

/-- The same with a ping before. -/
def samplePinged : List (Request Unit) :=
  [(DriverPresenceService.goOnline 1 samplePickup).ignore,
    (LocationIngestService.ingest 0 1 [samplePing 0 samplePickup 1000]).ignore,
    JobExecutionService.requireNearPickup sampleMeters 5 1]

theorem samplePinged_presents : ∀ p ∈ samplePinged, Presents sampleMeters sampleMeters p := by
  simp only [samplePinged, List.forall_mem_cons]
  exact ⟨.goOnline 1 samplePickup, .ingest 0 1 _, .arrived 5 1, by simp⟩

def samplePingedTurns : List ℕ := [0, 0, 0, 0, 0, 1, 1, 1, 2, 2, 2]

theorem last_fix_sent_iff_sample :
    Truthful ((presenceRun samplePinged samplePingedTurns).2.2.map (·.2))
      (presenceRun samplePinged samplePingedTurns).2.1 1 := by
  have h := last_fix_sent_iff (presenceRun_calls samplePingedTurns samplePinged_presents)
    samplePresence_fresh 1
  exact h.1.mpr (by decide +kernel)

end Towing.Presence
