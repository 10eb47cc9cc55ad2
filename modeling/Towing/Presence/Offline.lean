import Towing.Presence.Candidates
import Mathlib.Tactic.IntervalCases

namespace Towing.Presence

open Towing.Process
open Towing.Money (Failure)

variable {distanceKm haversineMeters : GeoPoint → GeoPoint → ℚ} {s₀ w : World} {d : ℕ}
  {p : DriverLocationPing} {cs : List (Call Step World Failure)} {es : List (ℕ × Event Step World)}
  {a b c i j k m n : ℕ} {e f g : Event Step World}

/-- The ping a step tells others of, and whose it is. -/
def Step.published : Step → Option (ℕ × DriverLocationPing)
  | .publish d p _ | .publishFleet d p _ => some (d, p)
  | _ => none

/-- A go-offline, or the eviction of who may not drive any more: it has begun to evict the
driver at `a`, with the set of the zone it has found for them, if any; it has dropped the
hash at `c`, and marked the row offline at `b`. -/
structure Leaves (es : List (ℕ × Event Step World)) (d a c b : ℕ) (zoneId : Option ℕ)
    (e f : Event Step World) : Prop where
  order : a ≤ c ∧ c < b
  made : ∃ n g, Makes es a n e ∧ Makes es c n g ∧ Makes es b n f ∧ g.label = .del d ∧
    Located (own n (es.take c)) d zoneId
  removes : ∀ z, zoneId = some z → e.label = .zrem z [d]
  atOnce : zoneId = none → a = c
  closes : f.label = .goOffline d

/-- The request has made no commit up to the moment. -/
def StartsAfter (es : List (ℕ × Event Step World)) (b n : ℕ) : Prop := ∀ k e, Makes es k n e → b < k

/-- No go-online of the driver starts after the moment. -/
def NoneStarts (cs : List (Call Step World Failure)) (es : List (ℕ × Event Step World)) (d b : ℕ) : Prop :=
  ∀ n c q, cs[n]? = some c → c.asked = (DriverPresenceService.goOnline d q).ignore → ¬StartsAfter es b n

/-- The eviction empties every set that the driver is in, and no ping of theirs is stored
before it has dropped their hash; who writes their identity after it, or their row after
the driver has left, has started after that; and what has been stored before it is
published before the driver has left. -/
structure Undisturbed (es : List (ℕ × Event Step World)) (d a c b : ℕ) (zoneId : Option ℕ)
    (e : Event Step World) : Prop where
  alone : ∀ z, zoneId ≠ some z → e.before.member z d = none
  whole : ∀ k m g p, a < k → k < c → Makes es k m g → ¬Applies d p g
  admits : ∀ k m g identity vehicleClass longDistance, c < k → Makes es k m g →
    g.label = .putIdentity d identity vehicleClass longDistance → StartsAfter es b m
  begins : ∀ k m g z q, b < k → Makes es k m g → g.label = .goOnline d z q → StartsAfter es b m
  publishes : ∀ k m g p, b < k → Makes es k m g → g.label.published = some (d, p) →
    ∀ j r, Makes es j m r → Applies d p r → c < j

/-- The driver has no presence hash, and no place in a zone's set. -/
def Gone (w : World) (d : ℕ) : Prop := w.hash d = none ∧ ∀ z, w.member z d = none

theorem leaves_of_goOffline (h : Calls (Presents distanceKm haversineMeters) s₀ cs w es)
    (hf : Makes es b n f) (hcloses : f.label = .goOffline d) :
    ∃ a c e zoneId, Leaves es d a c b zoneId e f := by
  obtain ⟨_, -, hjustified⟩ := justified_of_makes h hf
  rw [hcloses] at hjustified
  cases hjustified with
  | quiet hq => cases hq
  | draw _ _ _ horigin => cases horigin
  | goOffline hr hdel =>
    obtain ⟨c, hcb, hg⟩ := makes_of_own hr
    obtain ⟨_, -, hjustified⟩ := justified_of_makes h hg
    rw [hdel] at hjustified
    cases hjustified with
    | quiet hq => cases hq
    | draw _ _ _ horigin => cases horigin
    | @del _ zoneId _ hlocated hremoved =>
      cases zoneId with
      | none =>
        exact ⟨c, c, _, none, ⟨Nat.le_refl c, hcb⟩, ⟨n, _, hg, hg, hf, hdel, hlocated⟩, by simp, fun _ ↦ rfl, hcloses⟩
      | some z =>
        obtain ⟨r, hr, hzrem⟩ := hremoved z rfl
        obtain ⟨a, hac, he⟩ := makes_of_own hr
        refine ⟨a, c, r, some z, ⟨hac.le, hcb⟩, ⟨n, _, he, hg, hf, hdel, hlocated⟩, fun z' hz ↦ ?_, by simp, hcloses⟩
        rw [← Option.some.inj hz, hzrem]

theorem closed_after (h : Calls (Presents distanceKm haversineMeters) s₀ cs w es) (hf : Makes es b n f)
    (hcloses : f.label = .goOffline d)
    (hbegins : ∀ k m g z q, b < k → Makes es k m g → g.label ≠ .goOnline d z q) :
    ∀ k m g, b < k → Makes es k m g → g.before.online d = false := by
  refine (h.kept_after (I := fun w ↦ w.online d = false) hf ?_ fun k m g hbk hg hoffline ↦ ?_).2
  · rw [commit_of_makes h hf, hcloses, online_run, World.onlineAfter, if_pos rfl]
  · rw [commit_of_makes h hg]
    by_contra honline
    rcases online_brought (by simpa using honline) with ⟨z, q, hl⟩ | ⟨hbefore, -⟩
    · exact hbegins k m g z q hbk hg hl
    · rw [hoffline] at hbefore
      cases hbefore

theorem gone_step (hgone : Gone g.before d)
    (hadmits : ∀ identity vehicleClass longDistance,
      g.label ≠ .putIdentity d identity vehicleClass longDistance) : Gone (g.before.run g.label) d := by
  refine ⟨?_, fun z ↦ ?_⟩
  · by_contra hhash
    obtain ⟨hash, hhash⟩ := Option.ne_none_iff_exists'.mp hhash
    rcases identity_brought hhash with ⟨hash', hbefore, -⟩ | ⟨vehicleClass, longDistance, hl⟩
    · rw [hgone.1] at hbefore
      cases hbefore
    · exact hadmits _ _ _ hl
  · by_contra hmember
    obtain ⟨q, hq⟩ := Option.ne_none_iff_exists'.mp hmember
    rcases member_brought hq with hbefore | ⟨p, -, htakes, -⟩
    · rw [hgone.2 z] at hbefore
      cases hbefore
    · obtain ⟨hash, hhash, -⟩ := takes_iff.mp htakes
      rw [hgone.1] at hhash
      cases hhash

/-- Who is in no set comes into one by a ping only. -/
theorem apart_step (hnone : ∀ z, g.before.member z d = none) (hpings : ∀ p, ¬Applies d p g) :
    ∀ z, (g.before.run g.label).member z d = none := by
  intro z
  by_contra hmember
  obtain ⟨q, hq⟩ := Option.ne_none_iff_exists'.mp hmember
  rcases member_brought hq with hbefore | ⟨p, hl, htakes, -⟩
  · rw [hnone z] at hbefore
    cases hbefore
  · exact hpings p ⟨hl, htakes⟩

/-- An eviction that nothing stores into leaves nothing of the driver. -/
theorem gone_evict {zoneId : Option ℕ} (h : Calls (Presents distanceKm haversineMeters) s₀ cs w es)
    (hleaves : Leaves es d a c b zoneId e f) (halone : ∀ z, zoneId ≠ some z → e.before.member z d = none)
    (hwhole : ∀ k m g p, a < k → k < c → Makes es k m g → ¬Applies d p g)
    (hg : Makes es c n g) (hdel : g.label = .del d) : Gone (g.before.run g.label) d := by
  obtain ⟨_, -, he, -⟩ := hleaves.made
  have hnone : ∀ z, g.before.member z d = none := by
    cases zoneId with
    | none =>
      obtain rfl := hleaves.atOnce rfl
      obtain ⟨-, rfl⟩ := hg.unique he
      exact fun z ↦ halone z (by simp)
    | some zone =>
      have hac : a < c := by
        refine Nat.lt_of_le_of_ne hleaves.order.1 ?_
        rintro rfl
        obtain ⟨-, rfl⟩ := hg.unique he
        have hzrem := hleaves.removes zone rfl
        rw [hdel] at hzrem
        cases hzrem
      have hafter : ∀ z, e.after.member z d = none := by
        intro z
        rw [commit_of_makes h he, hleaves.removes zone rfl, member_run, World.memberAfter]
        split_ifs with hz
        · rfl
        · exact halone z fun heq ↦ hz ⟨Option.some.inj heq, by simp⟩
      refine h.kept_between (I := fun w ↦ ∀ z, w.member z d = none) he hg hac hafter ?_
      intro k m x hak hkc hx hbefore
      rw [commit_of_makes h hx]
      exact apart_step hbefore fun p ↦ hwhole k m x p hak hkc hx
  refine ⟨?_, fun z ↦ ?_⟩
  · rw [hdel, hash_run, World.hashAfter, if_pos rfl]
  · rw [hdel, member_run, World.memberAfter]
    exact hnone z
    all_goals simp

/-- A driver who has left undisturbed, and does not go online again, is gone: no ping of
theirs is stored or published, and they are nowhere in Redis. -/
theorem offline_untracked (h : Calls (Presents distanceKm haversineMeters) s₀ cs w es) (d : ℕ) :
    (∀ b n f, Makes es b n f → f.label = .goOffline d → ∃ a c e zoneId, Leaves es d a c b zoneId e f) ∧
    ∀ a c b zoneId e f, Leaves es d a c b zoneId e f → Undisturbed es d a c b zoneId e → NoneStarts cs es d b →
      Gone w d ∧ ∀ k m g, b < k → Makes es k m g →
        Gone g.before d ∧ (∀ p, ¬Applies d p g) ∧ ∀ p, g.label.published ≠ some (d, p) := by
  refine ⟨fun b n f hf hcloses ↦ leaves_of_goOffline h hf hcloses, ?_⟩
  intro a c b zoneId e f hleaves hundisturbed hnone
  obtain ⟨n, x, he, hx, hf, hdel, -⟩ := hleaves.made
  have hbegins : ∀ k m g z q, b < k → Makes es k m g → g.label ≠ .goOnline d z q := by
    intro k m g z q hbk hg hl
    obtain ⟨call, hc, hjustified⟩ := justified_of_makes h hg
    have hstarts := hundisturbed.begins k m g z q hbk hg hl
    rw [hl] at hjustified
    cases hjustified with
    | quiet hq => cases hq
    | draw _ _ _ horigin => cases horigin
    | goOnline hasked => exact hnone m call _ hc hasked hstarts
  have hclosed := closed_after h hf hleaves.closes hbegins
  have hadmits : ∀ k m g identity vehicleClass longDistance, c < k → Makes es k m g →
      g.label ≠ .putIdentity d identity vehicleClass longDistance := by
    intro k m g identity vehicleClass longDistance hck hg hl
    obtain ⟨call, hc, hjustified⟩ := justified_of_makes h hg
    have hstarts := hundisturbed.admits k m g _ _ _ hck hg hl
    rw [hl] at hjustified
    cases hjustified with
    | quiet hq => cases hq
    | draw _ _ _ horigin => cases horigin
    | enter hasked => exact hnone m call _ hc hasked hstarts
    | rehydrate hasked hr hread hrow honline =>
      -- The row was read after the driver had left, and says so.
      obtain ⟨j, -, hr⟩ := makes_of_own hr
      have hoffline := hclosed j m _ (hstarts j _ hr) hr
      rw [online_iff.mpr ⟨_, hrow, honline⟩] at hoffline
      cases hoffline
  have hgone := h.kept_after (I := fun w ↦ Gone w d) hx
    (by rw [commit_of_makes h hx]; exact gone_evict h hleaves hundisturbed.alone hundisturbed.whole hx hdel)
    fun k m g hck hg hbefore ↦ by
      rw [commit_of_makes h hg]
      exact gone_step hbefore fun identity vehicleClass longDistance ↦
        hadmits k m g identity vehicleClass longDistance hck hg
  have hstores : ∀ k m g p, c < k → Makes es k m g → ¬Applies d p g := by
    intro k m g p hck hg happlies
    obtain ⟨hash, hhash, -⟩ := takes_iff.mp happlies.2
    rw [(hgone.2 k m g hck hg).1] at hhash
    cases hhash
  refine ⟨hgone.1, fun k m g hbk hg ↦ ?_⟩
  have hck : c < k := hleaves.order.2.trans hbk
  refine ⟨hgone.2 k m g hck hg, fun p ↦ hstores k m g p hck hg, fun p hpublished ↦ ?_⟩
  obtain ⟨call, -, hjustified⟩ := justified_of_makes h hg
  have hsource : ∃ r ∈ own m (es.take k), Applies d p r := by
    cases hl : g.label with
    | publish d' p' identity =>
      rw [hl] at hjustified hpublished
      obtain ⟨rfl, rfl⟩ := Prod.mk.inj (Option.some.inj hpublished)
      cases hjustified with
      | quiet hq => cases hq
      | draw _ _ _ horigin => cases horigin
      | publish hr happlies => exact ⟨_, hr, happlies⟩
    | publishFleet d' p' identity =>
      rw [hl] at hjustified hpublished
      obtain ⟨rfl, rfl⟩ := Prod.mk.inj (Option.some.inj hpublished)
      cases hjustified with
      | quiet hq => cases hq
      | draw _ _ _ horigin => cases horigin
      | publishFleet hr happlies => exact ⟨_, hr, happlies⟩
    | _ =>
      rw [hl] at hpublished
      cases hpublished
  obtain ⟨r, hr, happlies⟩ := hsource
  obtain ⟨j, -, hr⟩ := makes_of_own hr
  exact hstores j m r p (hundisturbed.publishes k m g p hbk hg hpublished j r hr happlies) hr happlies

/-! A driver whose next ping comes once they have left, and one whose ping comes while
they are leaving. -/

def sampleLeft : List (Request Unit) :=
  [(DriverPresenceService.goOnline 1 samplePickup).ignore,
    (LocationIngestService.ingest 0 1 [samplePing 0 samplePickup 1000]).ignore,
    (DriverPresenceService.goOffline 0 1).ignore,
    (LocationIngestService.ingest 0 1 [samplePing 1 samplePickup 1000]).ignore,
    (LocationIngestService.ingest 0 1 [samplePing 2 samplePickup 1000]).ignore]

theorem sampleLeft_presents : ∀ p ∈ sampleLeft, Presents sampleMeters sampleMeters p := by
  simp only [sampleLeft, List.forall_mem_cons]
  exact ⟨.goOnline 1 samplePickup, .ingest 0 1 _, .goOffline 0 1, .ingest 0 1 _, .ingest 0 1 _, by simp⟩

/-- Only the first of them is a go-online. -/
theorem sampleLeft_goOnline {q : GeoPoint}
    (hn : sampleLeft[n]? = some (DriverPresenceService.goOnline d q).ignore) : n = 0 := by
  have hlt : n < 5 := (List.getElem?_eq_some_iff.mp hn).1
  interval_cases n
  · rfl
  all_goals cases Option.some.inj hn

def sampleLeftTurns : List ℕ := [0, 0, 0, 0, 0, 1, 1, 1, 2, 2, 2, 2, 2, 2, 2, 2, 3, 3]

def sampleReadmittedTurns : List ℕ :=
  [0, 0, 0, 0, 0, 1, 1, 1, 2, 2, 2, 2, 2, 2, 3, 3, 3, 3, 3, 3, 2, 2, 4, 4, 4]

theorem sampleLeft_noneStarts {turns : List ℕ} (hb : 0 < b)
    (hfirst : ((presenceRun sampleLeft turns).2.2[0]?).map (·.1) = some 0) :
    NoneStarts (presenceRun sampleLeft turns).1 (presenceRun sampleLeft turns).2.2 d b := by
  intro n c q hc hasked hstarts
  have hall : (presenceRun sampleLeft turns).1.map (·.asked) = sampleLeft := by
    rw [presenceRun, takeTurns_asked]
    rfl
  have hn : sampleLeft[n]? = some c.asked := by
    rw [← hall, List.getElem?_map, hc]
    rfl
  obtain rfl := sampleLeft_goOnline (hasked ▸ hn)
  obtain ⟨⟨m, e⟩, he, hm⟩ := Option.map_eq_some_iff.mp hfirst
  obtain rfl : m = 0 := hm
  have := hstarts 0 e he
  omega

def sampleLeftEvents : List (ℕ × Event Step World) := (presenceRun sampleLeft sampleLeftTurns).2.2

/-- Once the driver has left, nothing of theirs is written or published. -/
theorem sampleLeft_after (hi : 12 < i) (he : Makes sampleLeftEvents i n e) :
    e.label.admitted = none ∧ e.label.published = none ∧ (14 < i → e.label.turned = none) := by
  have hlength : sampleLeftEvents.length = 18 := by decide +kernel
  have hlt : i < 18 := hlength ▸ (List.getElem?_eq_some_iff.mp he).1
  have hadmitted : ∀ i < 18, 12 < i → (sampleLeftEvents[i]?).map (fun x ↦ x.2.label.admitted) = some none := by
    decide +kernel
  have hpublished : ∀ i < 18, 12 < i → (sampleLeftEvents[i]?).map (fun x ↦ x.2.label.published) = some none := by
    decide +kernel
  have hturned : ∀ i < 18, 14 < i → (sampleLeftEvents[i]?).map (fun x ↦ x.2.label.turned) = some none := by
    decide +kernel
  refine ⟨Option.some.inj ?_, Option.some.inj ?_, fun h14 ↦ Option.some.inj ?_⟩
  · exact (makes_map (fun e ↦ e.label.admitted) he).symm.trans (hadmitted i hlt hi)
  · exact (makes_map (fun e ↦ e.label.published) he).symm.trans (hpublished i hlt hi)
  · exact (makes_map (fun e ↦ e.label.turned) he).symm.trans (hturned i hlt h14)

theorem sampleLeft_leaves : ∃ e f, Leaves sampleLeftEvents 1 12 13 14 (some 7) e f ∧
    Undisturbed sampleLeftEvents 1 12 13 14 (some 7) e := by
  obtain ⟨e, he, hremoves, members, hgeo⟩ : ∃ e, Makes sampleLeftEvents 12 2 e ∧
      e.label = .zrem 7 [1] ∧ ∃ members, e.before.geo = Function.update (fun _ ↦ ∅) 7 members :=
    ⟨_, by with_unfolding_all rfl, by with_unfolding_all rfl, _, by with_unfolding_all rfl⟩
  obtain ⟨g, hg, hdel⟩ : ∃ g, Makes sampleLeftEvents 13 2 g ∧ g.label = .del 1 :=
    ⟨_, by with_unfolding_all rfl, by with_unfolding_all rfl⟩
  obtain ⟨f, hf, hcloses⟩ : ∃ f, Makes sampleLeftEvents 14 2 f ∧ f.label = .goOffline 1 :=
    ⟨_, by with_unfolding_all rfl, by with_unfolding_all rfl⟩
  obtain ⟨r, hr, hread, hzone⟩ : ∃ r, Makes sampleLeftEvents 11 2 r ∧ r.label = .zoneOf 1 ∧
      r.before.zoneOf 1 = some 7 :=
    ⟨_, by with_unfolding_all rfl, by with_unfolding_all rfl, by with_unfolding_all rfl⟩
  have hlocated : Located (own 2 (sampleLeftEvents.take 13)) 1 (some 7) :=
    ⟨r, mem_own_of_makes (by omega) hr, hread, .inl hzone⟩
  refine ⟨e, f, ⟨by omega, ⟨2, g, he, hg, hf, hdel, hlocated⟩, fun z hz ↦ ?_, by simp, hcloses⟩,
    fun z hz ↦ ?_, fun k m x p hk hkc _ _ ↦ by omega, ?_, ?_, ?_⟩
  · rw [hremoves, Option.some.inj hz]
  · have hne : z ≠ 7 := fun h ↦ hz (h ▸ rfl)
    rw [World.member, hgeo, Function.update_of_ne hne, AList.lookup_empty]
  · intro k m g identity vehicleClass longDistance hk hg hl
    have := (sampleLeft_after (by omega) hg).1
    rw [hl] at this
    cases this
  · intro k m g z q hk hg hl
    have := (sampleLeft_after (by omega) hg).2.2 hk
    rw [hl] at this
    cases this
  · intro k m g p hk hg hpublished
    have := (sampleLeft_after (by omega) hg).2.1
    rw [hpublished] at this
    cases this

theorem offline_untracked_sample : Gone (presenceRun sampleLeft sampleLeftTurns).2.1 1 := by
  obtain ⟨e, f, hleaves, hundisturbed⟩ := sampleLeft_leaves
  have h := (offline_untracked (presenceRun_calls sampleLeftTurns sampleLeft_presents) 1).2
  exact (h 12 13 14 (some 7) e f hleaves hundisturbed
    (sampleLeft_noneStarts (by omega) (by decide +kernel))).1

/-- A ping between the eviction and the row brings the driver back, for good. -/
theorem tracked_while_offline : ∃ cs w es, Calls (Presents sampleMeters sampleMeters) samplePresence cs w es ∧
    (∃ a c b zoneId e f, Leaves es 1 a c b zoneId e f ∧ NoneStarts cs es 1 b ∧
      ∃ k n g p, b < k ∧ Makes es k n g ∧ Applies 1 p g) ∧ w.online 1 = false ∧ ¬Gone w 1 := by
  refine ⟨_, _, _, presenceRun_calls sampleReadmittedTurns sampleLeft_presents, ?_, by decide +kernel, ?_⟩
  · have hlocated : Located (own 2 ((presenceRun sampleLeft sampleReadmittedTurns).2.2.take 13)) 1 (some 7) :=
      ⟨_, mem_own_of_makes (i := 11) (by omega) (by with_unfolding_all rfl), by with_unfolding_all rfl,
        .inl (by with_unfolding_all rfl)⟩
    refine ⟨12, 13, 20, some 7, _, _, ⟨by omega, ⟨2, _, by with_unfolding_all rfl, by with_unfolding_all rfl,
        by with_unfolding_all rfl, by with_unfolding_all rfl, hlocated⟩, fun z hz ↦ ?_, by simp,
        by with_unfolding_all rfl⟩, sampleLeft_noneStarts (by omega) (by decide +kernel), ?_⟩
    · obtain rfl := Option.some.inj hz
      with_unfolding_all rfl
    · exact ⟨22, 4, _, samplePing 2 samplePickup 1000, by omega, by with_unfolding_all rfl,
        by with_unfolding_all rfl, by decide +kernel⟩
  · intro hgone
    have hmember := hgone.2 7
    revert hmember
    decide +kernel

end Towing.Presence
