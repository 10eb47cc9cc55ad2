import Towing.Presence.LastFix

namespace Towing.Presence

open Towing.Process
open Towing.Money (Failure)

variable {distanceKm haversineMeters : GeoPoint → GeoPoint → ℚ} {s₀ s w : World} {d z : ℕ}
  {p : DriverLocationPing} {fs : List (Event Step World)} {l : Step} {h : DriverHash} {q : GeoPoint}

/-- The driver goes online, or offline. -/
def Turns (d : ℕ) (e : Event Step World) : Prop :=
  (∃ z q, e.label = .goOnline d z q) ∨ e.label = .goOffline d

/-- The driver has gone online, and has neither gone offline nor online again since. -/
def Running (fs : List (Event Step World)) (d : ℕ) : Prop :=
  ∃ pre e post, fs = pre ++ e :: post ∧ (∃ z q, e.label = .goOnline d z q) ∧ ∀ g ∈ post, ¬Turns d g

/-- The ping is the last one stored, in the session the driver is in. -/
def LastFixOfSession (fs : List (Event Step World)) (d : ℕ) (p : DriverLocationPing) : Prop :=
  ∃ pre e post, fs = pre ++ e :: post ∧ Running pre d ∧ Applies d p e ∧
    ∀ g ∈ post, ¬Turns d g ∧ ∀ p', ¬Applies d p' g

/-- An identity is written for a driver who is online and in no other zone's set, a ping
from off the map is stored for one who is in none, a driver goes online with no fix left
from before, and offline with no hash left. -/
structure Orderly (e : Event Step World) : Prop where
  admits : ∀ d identity vehicleClass longDistance,
    e.label = .putIdentity d identity vehicleClass longDistance →
    e.before.online d = true ∧ ∀ z, z ≠ identity.zoneId → e.before.member z d = none
  maps : ∀ d p, Applies d p e → p.toGeoPoint.onMap = true ∨ ∀ z, e.before.member z d = none
  begins : ∀ d z q, e.label = .goOnline d z q → e.before.fix d = none
  ends : ∀ d, e.label = .goOffline d → e.before.hash d = none

/-- The three stores agree on a driver. -/
structure Tells (fs : List (Event Step World)) (w : World) (d : ℕ) : Prop where
  online : ∀ h, w.hash d = some h → w.online d = true
  running : w.online d = true → Running fs d
  latest : ∀ p, w.fix d = some p → LastFixOfSession fs d p
  placed : ∀ h z q, w.hash d = some h → w.member z d = some q →
    h.identity.zoneId = z ∧ ∀ p, h.fix = some p → p.toGeoPoint = q
  one : ∀ z z' q q', w.member z d = some q → w.member z' d = some q' → z = z'

theorem Tells.fresh (hs : s₀.Fresh) (d : ℕ) : Tells [] s₀ d where
  online h hh := by simp [World.hash, hs.hashes] at hh
  running honline := by
    obtain ⟨row, hrow, hrowOnline⟩ := online_iff.mp honline
    rw [hs.offline d row hrow] at hrowOnline
    cases hrowOnline
  latest p hp := by
    rw [fix_fresh hs] at hp
    cases hp
  placed h z q hh := by simp [World.hash, hs.hashes] at hh
  one z z' q q' hq := by simp [World.member, hs.geo] at hq

/-- A place in a set is kept, or is where a ping has just been stored. -/
theorem member_brought (hq : (w.run l).member z d = some q) : w.member z d = some q ∨
    ∃ p, l = .applyPing d p ∧ w.takes d p = true ∧ w.zoneOf d = some z ∧ p.toGeoPoint = q := by
  rw [member_run] at hq
  cases l with
  | applyPing d' p =>
    simp only [World.memberAfter] at hq
    split_ifs at hq with htakes
    · obtain ⟨rfl, htakes, hzone, -⟩ := htakes
      exact .inr ⟨p, rfl, htakes, hzone, Option.some.inj hq⟩
    · exact .inl hq
  | zrem =>
    simp only [World.memberAfter] at hq
    split_ifs at hq
    exact .inl hq
  | _ => exact .inl hq

/-- A hash names the zone it named, unless an identity is written. -/
theorem identity_brought (hh : (w.run l).hash d = some h) :
    (∃ h', w.hash d = some h' ∧ h'.identity = h.identity) ∨
      ∃ vehicleClass longDistance, l = .putIdentity d h.identity vehicleClass longDistance := by
  rw [hash_run] at hh
  cases l with
  | putIdentity d' identity vehicleClass longDistance =>
    simp only [World.hashAfter] at hh
    split_ifs at hh with hd
    · subst hd
      obtain rfl := Option.some.inj hh
      exact .inr ⟨vehicleClass, longDistance, rfl⟩
    · exact .inl ⟨h, hh, rfl⟩
  | applyPing d' p =>
    simp only [World.hashAfter] at hh
    split_ifs at hh
    · obtain ⟨h', hh', rfl⟩ := Option.map_eq_some_iff.mp hh
      exact .inl ⟨h', hh', rfl⟩
    · exact .inl ⟨h, hh, rfl⟩
  | del d' =>
    simp only [World.hashAfter] at hh
    split_ifs at hh
    exact .inl ⟨h, hh, rfl⟩
  | tick ms => exact .inl ⟨h, (Option.filter_eq_some_iff.mp hh).1, rfl⟩
  | _ => exact .inl ⟨h, hh, rfl⟩

theorem Running.snoc {e : Event Step World} (hr : Running fs d) (he : ¬Turns d e) : Running (fs ++ [e]) d := by
  obtain ⟨pre, e', post, rfl, hstarts, hpost⟩ := hr
  refine ⟨pre, e', post ++ [e], by simp, hstarts, fun g hg ↦ ?_⟩
  rcases List.mem_append.mp hg with hg | hg
  · exact hpost g hg
  · obtain rfl := List.mem_singleton.mp hg
    exact he

/-- Who is online after a step has gone online with it, or was online before. -/
theorem online_brought (h : (w.run l).online d = true) :
    (∃ z q, l = .goOnline d z q) ∨ w.online d = true ∧ l ≠ .goOffline d ∧ ∀ z q, l ≠ .goOnline d z q := by
  rw [online_run] at h
  cases l with
  | goOnline d' z q =>
    by_cases hd : d' = d
    · subst hd
      exact .inl ⟨z, q, rfl⟩
    · simp only [World.onlineAfter, hd, if_false] at h
      exact .inr ⟨h, (by simp), fun _ _ heq ↦ hd (by cases heq; rfl)⟩
  | goOffline d' =>
    simp only [World.onlineAfter] at h
    split_ifs at h with hd
    exact .inr ⟨h, fun heq ↦ hd (by cases heq; rfl), (by simp)⟩
  | _ => exact .inr ⟨h, (by simp), (by simp)⟩

/-- Who has a row and goes neither way stays online. -/
theorem online_stays (h : w.online d = true) (hl : l ≠ .goOffline d) : (w.run l).online d = true := by
  rw [online_run]
  cases l with
  | goOnline d' z q =>
    simp only [World.onlineAfter]
    split_ifs with hd
    · obtain ⟨row, hrow, -⟩ := online_iff.mp h
      simp [hrow]
    · exact h
  | goOffline d' =>
    have hd : d' ≠ d := fun hd ↦ hl (hd ▸ rfl)
    simp only [World.onlineAfter, hd, if_false]
    exact h
  | _ => exact h

/-- An orderly step keeps the stores in agreement. -/
theorem tells_run {e : Event Step World} (ht : Tells fs e.before d) (ho : Orderly e)
    (hafter : e.after = e.before.run e.label) : Tells (fs ++ [e]) e.after d := by
  have hlive : ∀ h, (e.before.run e.label).hash d = some h → e.before.online d = true := by
    intro h hh
    rcases identity_brought hh with ⟨h', hh', -⟩ | ⟨vehicleClass, longDistance, hl⟩
    · exact ht.online h' hh'
    · exact (ho.admits d _ _ _ hl).1
  refine ⟨fun h hh ↦ ?_, fun honline ↦ ?_, fun p hp ↦ ?_, fun h z q hh hq ↦ ?_, fun z z' q q' hq hq' ↦ ?_⟩
  · rw [hafter] at hh ⊢
    refine online_stays (hlive h hh) fun hl ↦ ?_
    -- Going offline finds no hash, and makes none.
    have hnone := ho.ends d hl
    rw [hash_run, hl] at hh
    rw [World.hashAfter, hnone] at hh
    · cases hh
    all_goals simp
  · rw [hafter] at honline
    rcases online_brought honline with ⟨z, q, hl⟩ | ⟨hbefore, hstays, hnot⟩
    · exact ⟨fs, e, [], rfl, ⟨z, q, hl⟩, by simp⟩
    · refine (ht.running hbefore).snoc ?_
      rintro (⟨z, q, hl⟩ | hl)
      · exact hnot z q hl
      · exact hstays hl
  · rw [hafter] at hp
    rcases fix_run hp with ⟨hl, htakes⟩ | ⟨hkept, hnot⟩
    · obtain ⟨h, hh, -⟩ := takes_iff.mp htakes
      exact ⟨fs, e, [], rfl, ht.running (ht.online h hh), ⟨hl, htakes⟩, by simp⟩
    · obtain ⟨pre, e', post, rfl, hrunning, happlies, hsince⟩ := ht.latest p hkept
      refine ⟨pre, e', post ++ [e], by simp, hrunning, happlies, fun g hg ↦ ?_⟩
      rcases List.mem_append.mp hg with hg | hg
      · exact hsince g hg
      · obtain rfl := List.mem_singleton.mp hg
        refine ⟨?_, fun p' happlies' ↦ ?_⟩
        · rintro (⟨z, q, hl⟩ | hl)
          · rw [ho.begins d z q hl] at hkept
            cases hkept
          · obtain ⟨h, hh, -⟩ := hash_of_fix hkept
            rw [ho.ends d hl] at hh
            cases hh
        · have := hnot p' happlies'.1
          rw [happlies'.2] at this
          cases this
  · rw [hafter] at hh hq
    rcases member_brought hq with hbefore | ⟨p, hl, htakes, hzone, rfl⟩
    · rcases identity_brought hh with ⟨h', hh', hidentity⟩ | ⟨vehicleClass, longDistance, hl⟩
      · obtain ⟨rfl, hplaced⟩ := ht.placed h' z q hh' hbefore
        refine ⟨by rw [hidentity], fun p hp ↦ ?_⟩
        have hfix : (e.before.run e.label).fix d = some p := by rw [fix_of_hash hh, hp]
        rcases fix_run hfix with ⟨hl, htakes⟩ | ⟨hkept, -⟩
        · -- The place is the ping's own, which is on the map.
          rcases ho.maps d p ⟨hl, htakes⟩ with hmap | hnone
          · rw [member_run, hl, World.memberAfter,
              if_pos ⟨rfl, htakes, by simp [World.zoneOf, hh'], hmap⟩] at hq
            exact Option.some.inj hq
          · rw [hnone] at hbefore
            cases hbefore
        · rw [fix_of_hash hh'] at hkept
          exact hplaced p hkept
      · by_cases hz : z = h.identity.zoneId
        · subst hz
          refine ⟨rfl, fun p hp ↦ ?_⟩
          have hfix : (e.before.run e.label).fix d = some p := by rw [fix_of_hash hh, hp]
          rcases fix_run hfix with ⟨hl', -⟩ | ⟨hkept, -⟩
          · rw [hl] at hl'
            cases hl'
          · obtain ⟨h', hh', hfix'⟩ := hash_of_fix hkept
            exact (ht.placed h' _ q hh' hbefore).2 p hfix'
        · rw [(ho.admits d _ _ _ hl).2 z hz] at hbefore
          cases hbefore
    · obtain ⟨h', hh', -⟩ := takes_iff.mp htakes
      have hrun := hash_run e.before e.label d
      rw [hh, hl, World.hashAfter, if_pos ⟨rfl, htakes⟩, hh', Option.map_some] at hrun
      obtain rfl := Option.some.inj hrun
      rw [World.zoneOf, hh', Option.map_some] at hzone
      refine ⟨Option.some.inj hzone, fun p' hp' ↦ ?_⟩
      obtain rfl := Option.some.inj hp'
      rfl
  · rw [hafter] at hq hq'
    have hzoneOf {z' : ℕ} {q' : GeoPoint} (hzone : e.before.zoneOf d = some z)
        (hq' : e.before.member z' d = some q') : z = z' := by
      obtain ⟨h, hh, rfl⟩ := Option.map_eq_some_iff.mp hzone
      exact (ht.placed h z' q' hh hq').1
    rcases member_brought hq with hbefore | ⟨p, hl, htakes, hzone, rfl⟩ <;>
      rcases member_brought hq' with hbefore' | ⟨p', hl', htakes', hzone', rfl⟩
    · exact ht.one z z' q q' hbefore hbefore'
    · obtain ⟨h, hh, rfl⟩ := Option.map_eq_some_iff.mp hzone'
      exact (ht.placed h z q hh hbefore).1.symm
    · exact hzoneOf hzone hbefore'
    · exact Option.some.inj (hzone.symm.trans hzone')

theorem tells_chained (h : Chained s₀ fs s) (hs : s₀.Fresh) (hrun : ∀ e ∈ fs, e.after = e.before.run e.label)
    (hordered : ∀ e ∈ fs, Orderly e) (d : ℕ) : Tells fs s d := by
  refine h.history (J := fun fs s ↦ Tells fs s d) (.fresh hs d) fun pre e he ht ↦ ?_
  exact tells_run ht (hordered e he) (hrun e he)

theorem mem_geosearch {centre : GeoPoint} {radiusKm : ℚ} (hd : d ∈ w.geosearch distanceKm z centre radiusKm) :
    ∃ q, w.member z d = some q ∧ distanceKm centre q ≤ radiusKm := by
  obtain ⟨⟨d', q⟩, hmem, rfl⟩ := List.mem_map.mp hd
  rw [List.mem_mergeSort, List.mem_filter] at hmem
  exact ⟨q, AList.mem_lookup_iff.mpr hmem.1, by simpa using hmem.2⟩

variable {cs : List (Call Step World Failure)} {es : List (ℕ × Event Step World)} {i j k m n : ℕ}
  {e f : Event Step World}

/-- Besides, between a search and its look at a hash, a ping of the driver is stored only
from where the search has found them, and no identity of another zone over a fix. -/
structure KeptApart (es : List (ℕ × Event Step World)) : Prop where
  orderly : ∀ i n e, Makes es i n e → Orderly e
  reads : ∀ i j k m n e f g d z centre radiusKm, i < k → k < j → Makes es i n e →
    e.label = .geosearch z centre radiusKm → Makes es j n f → f.label = .hgetall d → Makes es k m g →
    (∀ p, Applies d p g → e.before.member z d = some p.toGeoPoint ∧ g.before.zoneOf d = some z) ∧
    ∀ identity vehicleClass longDistance, g.label = .putIdentity d identity vehicleClass longDistance →
      (g.before.fix d).isSome → identity.zoneId = z

theorem KeptApart.tells (hes : KeptApart es) (h : Calls (Presents distanceKm haversineMeters) s₀ cs w es)
    (hs : s₀.Fresh) (he : Makes es i n e) (d : ℕ) : Tells ((es.take i).map (·.2)) e.before d := by
  refine tells_chained (chained_before h he) hs (commits_before h i) (fun f hf ↦ ?_) d
  obtain ⟨⟨m, f⟩, hmem, rfl⟩ := List.mem_map.mp hf
  obtain ⟨j, hj⟩ := List.getElem?_of_mem (List.mem_of_mem_take hmem)
  exact hes.orderly j m f hj

/-- What the search has found stays true of the hash until it is read. -/
theorem found_until_read (hes : KeptApart es) (h : Calls (Presents distanceKm haversineMeters) s₀ cs w es)
    (hs : s₀.Fresh) {centre : GeoPoint} {radiusKm : ℚ} (he : Makes es i n e)
    (hsearch : e.label = .geosearch z centre radiusKm) (hf : Makes es j n f) (hread : f.label = .hgetall d)
    (hq : e.before.member z d = some q) (hik : i ≤ k) (hkj : k ≤ j) {g : Event Step World}
    (hg : Makes es k m g) {hash : DriverHash} (hhash : g.before.hash d = some hash) (hfix : hash.fix = some p) :
    hash.identity.zoneId = z ∧ p.toGeoPoint = q := by
  induction k, hik using Nat.le_induction generalizing m g hash p with
  | base =>
    obtain ⟨-, rfl⟩ := hg.unique he
    obtain ⟨hzone, hpoint⟩ := (hes.tells h hs he d).placed hash z q hhash hq
    exact ⟨hzone, hpoint p hfix⟩
  | succ k hik ih =>
    obtain ⟨x, hx⟩ := getElem?_earlier (Nat.le_succ k) hg.event
    obtain ⟨m', hx⟩ := makes_of_event hx
    have hnext : g.before = x.before.run x.label :=
      (h.chained.next hx.event hg.event).trans (commit_of_makes h hx)
    rw [hnext] at hhash
    have hcond : (∀ p, Applies d p x → e.before.member z d = some p.toGeoPoint ∧ x.before.zoneOf d = some z) ∧
        ∀ identity vehicleClass longDistance, x.label = .putIdentity d identity vehicleClass longDistance →
          (x.before.fix d).isSome → identity.zoneId = z := by
      rcases Nat.eq_or_lt_of_le hik with rfl | hlt
      · obtain ⟨-, rfl⟩ := hx.unique he
        refine ⟨fun p happlies ↦ ?_, fun _ _ _ hl ↦ ?_⟩
        · rw [happlies.1] at hsearch
          cases hsearch
        · rw [hl] at hsearch
          cases hsearch
      · exact hes.reads i j k m' n e f x d z centre radiusKm hlt (by omega) he hsearch hf hread hx
    have hfix' : (x.before.run x.label).fix d = some p := by rw [fix_of_hash hhash, hfix]
    rcases fix_run hfix' with ⟨hl, htakes⟩ | ⟨hkept, -⟩
    · obtain ⟨hmember, hzone⟩ := hcond.1 p ⟨hl, htakes⟩
      rcases identity_brought hhash with ⟨hash', hh', hidentity⟩ | ⟨_, _, hl'⟩
      · rw [World.zoneOf, hh', Option.map_some] at hzone
        exact ⟨by rw [← hidentity]; exact Option.some.inj hzone, Option.some.inj (hmember.symm.trans hq)⟩
      · rw [hl] at hl'
        cases hl'
    · obtain ⟨hash', hh', hfix''⟩ := hash_of_fix hkept
      obtain ⟨hzone, hpoint⟩ := ih (by omega) hx hh' hfix''
      refine ⟨?_, hpoint⟩
      rcases identity_brought hhash with ⟨hash'', hh'', hidentity⟩ | ⟨_, _, hl⟩
      · obtain rfl := Option.some.inj (hh'.symm.trans hh'')
        rw [← hidentity, hzone]
      · exact hcond.2 _ _ _ hl (by simp [hkept])

/-- The candidate is who the answer says: the hash names the zone, the position is the
last one sent in the session the driver is in, and the search has matched that position. -/
def Told (distanceKm : GeoPoint → GeoPoint → ℚ) (es : List (ℕ × Event Step World)) (i n z : ℕ)
    (centre : GeoPoint) (radiusKm : ℚ) (c : DriverCandidate) : Prop :=
  ∃ j k e f hash p, j < k ∧ k < i ∧ Makes es j n e ∧ e.label = .geosearch z centre radiusKm ∧
    Makes es k n f ∧ f.label = .hgetall c.driverId ∧ f.before.hash c.driverId = some hash ∧
    hash.identity.zoneId = z ∧ hash.fix = some p ∧ c.point = p.toGeoPoint ∧
    LastFixOfSession ((es.take k).map (·.2)) c.driverId p ∧
    e.before.member z c.driverId = some c.point ∧ distanceKm centre c.point ≤ radiusKm

/-- No driver is in two zones' sets. -/
def OneZone (w : World) : Prop :=
  ∀ d z z' q q', w.member z d = some q → w.member z' d = some q' → z = z'

/-- In a run whose steps keep the sets, the hashes and the rows apart, every candidate
is who the answer says, and nobody is ever in two zones' sets. -/
theorem candidates_told (h : Calls (Presents distanceKm haversineMeters) s₀ cs w es) (hs : s₀.Fresh)
    (hes : KeptApart es) :
    (∀ i n e z centre radiusKm candidates, Makes es i n e → e.label = .answer z centre radiusKm candidates →
      ∀ c ∈ candidates, Told distanceKm es i n z centre radiusKm c) ∧
    (∀ i n e, Makes es i n e → OneZone e.before) ∧ OneZone w := by
  refine ⟨fun i n e z centre radiusKm candidates he hlabel c hc ↦ ?_, fun i n e he d ↦ ?_, fun d ↦ ?_⟩
  · obtain ⟨call, -, hjustified⟩ := justified_of_makes h he
    rw [hlabel] at hjustified
    cases hjustified with
    | quiet hq => cases hq
    | draw _ _ _ horigin => cases horigin
    | answer hall =>
      obtain ⟨pre, f, mid, g, post, hash, p, hpast, hsearch, hfound, hread, hhash, hfix, hpoint⟩ := hall c hc
      obtain ⟨j, k, hjk, hki, hf, hg⟩ := makes_of_own_split hpast
      obtain ⟨q, hq, hwithin⟩ := mem_geosearch hfound
      obtain ⟨hzone, rfl⟩ := found_until_read hes h hs hf hsearch hg hread hq hjk.le le_rfl hg hhash hfix
      have hlatest := (hes.tells h hs hg c.driverId).latest p (by rw [fix_of_hash hhash, hfix])
      exact ⟨j, k, f, g, hash, p, hjk, hki, hf, hsearch, hg, hread, hhash, hzone, hfix, hpoint, hlatest,
        hpoint ▸ hq, hpoint ▸ hwithin⟩
  · exact (hes.tells h hs he d).one
  · refine (tells_chained h.chained hs (commits h) (fun e he ↦ ?_) d).one
    obtain ⟨i, hi⟩ := List.getElem?_of_mem he
    obtain ⟨n, hi⟩ := makes_of_event hi
    exact hes.orderly i n e hi

/-! One driver, online in a zone and found there; and online in another one after it. -/

/-- Whose identity the step writes, and in which zone. -/
def Step.admitted : Step → Option (ℕ × ℕ)
  | .putIdentity d i _ _ => some (d, i.zoneId)
  | _ => none

/-- Who goes online with the step, or offline. -/
def Step.turned : Step → Option (ℕ × Bool)
  | .goOnline d _ _ => some (d, true)
  | .goOffline d => some (d, false)
  | _ => none

def Step.pinged : Step → Option (ℕ × DriverLocationPing)
  | .applyPing d p => some (d, p)
  | _ => none

def Step.searched : Step → Bool
  | .geosearch _ _ _ => true
  | _ => false

def Step.readHash : Step → Option ℕ
  | .hgetall d => some d
  | _ => none

/-- The zone that the step answers for, and the drivers in the answer. -/
def Step.answered : Step → Option (ℕ × List ℕ)
  | .answer z _ _ candidates => some (z, candidates.map (·.driverId))
  | _ => none

theorem makes_map {β : Type} (F : Event Step World → β) (he : Makes es i n e) :
    (es[i]?).map (fun x ↦ F x.2) = some (F e) := by
  rw [show es[i]? = some (n, e) from he]
  rfl

theorem makes_label {β : Type} (F : Step → β) (he : Makes es i n e) (hl : e.label = l) :
    (es[i]?).map (fun x ↦ F x.2.label) = some (F l) := by
  rw [makes_map (fun e ↦ F e.label) he, hl]

def sampleAfield : GeoPoint := ⟨12, 85⟩

def sampleFound : List (Request Unit) :=
  [(DriverPresenceService.goOnline 1 samplePickup).ignore,
    (LocationIngestService.ingest 0 1 [samplePing 0 samplePickup 1000]).ignore,
    (DriverCandidatesRepo.inZone sampleMeters 7 samplePickup 10).ignore]

theorem sampleFound_presents : ∀ p ∈ sampleFound, Presents sampleMeters sampleMeters p := by
  simp only [sampleFound, List.forall_mem_cons]
  exact ⟨.goOnline 1 samplePickup, .ingest 0 1 _, .inZone 7 samplePickup 10, by simp⟩

def sampleFoundTurns : List ℕ := [0, 0, 0, 0, 0, 1, 1, 1, 2, 2, 2, 2]

def sampleFoundEvents : List (ℕ × Event Step World) := (presenceRun sampleFound sampleFoundTurns).2.2

theorem sampleFound_lt (he : Makes sampleFoundEvents i n e) : i < 12 := by
  have hlength : sampleFoundEvents.length = 12 := by decide +kernel
  exact hlength ▸ (List.getElem?_eq_some_iff.mp he).1

theorem sampleFound_kept : KeptApart sampleFoundEvents where
  orderly i n e he := by
    have hlt := sampleFound_lt he
    refine ⟨fun d identity vehicleClass longDistance hl ↦ ?_, fun d p happlies ↦ ?_, fun d z q hl ↦ ?_,
      fun d hl ↦ ?_⟩
    · have hadmitted : _ = some (some (d, identity.zoneId)) := makes_label Step.admitted he hl
      have hall : ∀ i < 12, i ≠ 3 → (sampleFoundEvents[i]?).map (fun x ↦ x.2.label.admitted) = some none := by
        decide +kernel
      obtain rfl : i = 3 := by
        by_contra hne
        rw [hall i hlt hne] at hadmitted
        cases hadmitted
      have hthird : (sampleFoundEvents[3]?).map (fun x ↦ x.2.label.admitted) = some (some (1, 7)) := by
        decide +kernel
      obtain ⟨rfl, -⟩ := Prod.mk.inj (Option.some.inj (Option.some.inj (hadmitted.symm.trans hthird)))
      refine ⟨Option.some.inj ((makes_map (fun e ↦ e.before.online 1) he).symm.trans (by decide +kernel)),
        fun z _ ↦ ?_⟩
      exact Option.some.inj ((makes_map (fun e ↦ e.before.member z 1) he).symm.trans rfl)
    · have hpinged : _ = some (some (d, p)) := makes_label Step.pinged he happlies.1
      have hall : ∀ i < 12, (sampleFoundEvents[i]?).map (fun x ↦ x.2.label.pinged) =
          some (if i = 5 then some (1, samplePing 0 samplePickup 1000) else none) := by decide +kernel
      rw [hall i hlt] at hpinged
      split_ifs at hpinged
      · obtain ⟨-, rfl⟩ := Prod.mk.inj (Option.some.inj (Option.some.inj hpinged))
        exact .inl (by decide +kernel)
      · cases hpinged
    · have hfix : ∀ i < 3, (sampleFoundEvents[i]?).map (fun x ↦ x.2.before.fix 1) = some none := by
        decide +kernel
      have hturned : _ = some (some (d, true)) := makes_label Step.turned he hl
      have hall : ∀ i < 12, i ≠ 2 → (sampleFoundEvents[i]?).map (fun x ↦ x.2.label.turned) = some none := by
        decide +kernel
      obtain rfl : i = 2 := by
        by_contra hne
        rw [hall i hlt hne] at hturned
        cases hturned
      have hsecond : (sampleFoundEvents[2]?).map (fun x ↦ x.2.label.turned) = some (some (1, true)) := by
        decide +kernel
      obtain ⟨rfl, -⟩ := Prod.mk.inj (Option.some.inj (Option.some.inj (hturned.symm.trans hsecond)))
      exact Option.some.inj ((makes_map (fun e ↦ e.before.fix 1) he).symm.trans (hfix 2 (by omega)))
    · have hturned : _ = some (some (d, false)) := makes_label Step.turned he hl
      have hall : ∀ i < 12, i ≠ 2 → (sampleFoundEvents[i]?).map (fun x ↦ x.2.label.turned) = some none := by
        decide +kernel
      have hsecond : (sampleFoundEvents[2]?).map (fun x ↦ x.2.label.turned) = some (some (1, true)) := by
        decide +kernel
      rcases eq_or_ne i 2 with rfl | hne
      · rw [hsecond] at hturned
        cases hturned
      · rw [hall i hlt hne] at hturned
        cases hturned
  reads i j k m n e f g d z centre radiusKm hik hkj he hsearch hf hread hg := by
    have hsearched : _ = some true := makes_label Step.searched he hsearch
    have hreadHash : _ = some (some d) := makes_label Step.readHash hf hread
    have hi : ∀ i < 12, i ≠ 9 → (sampleFoundEvents[i]?).map (fun x ↦ x.2.label.searched) = some false := by
      decide +kernel
    have hj : ∀ i < 12, i ≠ 10 → (sampleFoundEvents[i]?).map (fun x ↦ x.2.label.readHash) = some none := by
      decide +kernel
    have h9 : i = 9 := by
      by_contra hne
      rw [hi i (sampleFound_lt he) hne] at hsearched
      cases hsearched
    have h10 : j = 10 := by
      by_contra hne
      rw [hj j (sampleFound_lt hf) hne] at hreadHash
      cases hreadHash
    omega

theorem candidates_told_sample : (∃ e ∈ sampleFoundEvents, e.2.label.answered = some (7, [1])) ∧
    OneZone (presenceRun sampleFound sampleFoundTurns).2.1 ∧
    ∀ i n e z centre radiusKm candidates, Makes sampleFoundEvents i n e →
      e.label = .answer z centre radiusKm candidates →
      ∀ c ∈ candidates, Told sampleMeters sampleFoundEvents i n z centre radiusKm c := by
  have h := candidates_told (presenceRun_calls sampleFoundTurns sampleFound_presents) samplePresence_fresh
    sampleFound_kept
  refine ⟨?_, h.2.2, h.1⟩
  have hanswers : some (7, [1]) ∈ sampleFoundEvents.map fun e ↦ e.2.label.answered := by decide +kernel
  obtain ⟨e, he, hanswer⟩ := List.mem_map.mp hanswers
  exact ⟨e, he, hanswer⟩

def sampleMoved : List (Request Unit) :=
  [(DriverPresenceService.goOnline 1 samplePickup).ignore,
    (LocationIngestService.ingest 0 1 [samplePing 0 samplePickup 1000]).ignore,
    (DriverPresenceService.goOnline 1 sampleAfield).ignore,
    (DriverCandidatesRepo.inZone sampleMeters 7 samplePickup 10).ignore,
    (LocationIngestService.ingest 0 1 [samplePing 1 sampleAfield 1000]).ignore]

theorem sampleMoved_presents : ∀ p ∈ sampleMoved, Presents sampleMeters sampleMeters p := by
  simp only [sampleMoved, List.forall_mem_cons]
  exact ⟨.goOnline 1 samplePickup, .ingest 0 1 _, .goOnline 1 sampleAfield, .inZone 7 samplePickup 10,
    .ingest 0 1 _, by simp⟩

def sampleMovedTurns : List ℕ := [0, 0, 0, 0, 0, 1, 1, 1, 2, 2, 2, 2, 2, 3, 3, 3, 3, 4, 4, 4]

/-- A driver who has gone online in another zone is offered in the old one, whose set
they stay in beside the new one's. -/
theorem candidate_in_two_zones : ∃ cs w es,
    Calls (Presents sampleMeters sampleMeters) samplePresence cs w es ∧
      (∃ e ∈ es, e.2.label.answered = some (7, [1]) ∧ e.2.before.zoneOf 1 = some 8) ∧ ¬OneZone w := by
  refine ⟨_, _, _, presenceRun_calls sampleMovedTurns sampleMoved_presents, ?_, fun hone ↦ ?_⟩
  · have hanswers : (some (7, [1]), some 8) ∈ (presenceRun sampleMoved sampleMovedTurns).2.2.map
        fun e ↦ (e.2.label.answered, e.2.before.zoneOf 1) := by decide +kernel
    obtain ⟨e, he, hanswer⟩ := List.mem_map.mp hanswers
    exact ⟨e, he, congrArg Prod.fst hanswer, congrArg Prod.snd hanswer⟩
  · have h7 : (presenceRun sampleMoved sampleMovedTurns).2.1.member 7 1 = some samplePickup := by
      decide +kernel
    have h8 : (presenceRun sampleMoved sampleMovedTurns).2.1.member 8 1 = some sampleAfield := by
      decide +kernel
    exact absurd (hone 1 7 8 _ _ h7 h8) (by decide)

end Towing.Presence
