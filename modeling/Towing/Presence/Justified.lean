import Towing.Presence.Services
import Towing.Presence.Steps

namespace Towing.Presence

open Towing.Process
open Towing.Money (Failure)

variable {distanceKm haversineMeters : GeoPoint → GeoPoint → ℚ} {α : Type}

/-- The step writes nothing of anybody's presence, and shows nobody a position. -/
def Step.quiet : Step → Bool
  | .goOnline _ _ _ | .goOffline _ | .putIdentity _ _ _ _ | .applyPing _ _ | .del _ | .hgetall _
  | .publish _ _ _ | .publishFleet _ _ _ | .buffer _ _ _ | .flushPositions _ | .sampleBookingPath _
  | .zrem _ _ | .answer _ _ _ _ | .measure _ _ _ | .route _ _ _ => false
  | _ => true

/-- The point a step starts measuring or routing from, and whose it is. -/
def Step.origin : Step → Option (ℕ × GeoPoint)
  | .measure _ d q | .route _ d q => some (d, q)
  | _ => none

def sampleOf (p : DriverLocationPing) : FlushSample := ⟨p.toGeoPoint, p.sentAt⟩

/-- A ping of the driver is stored. -/
def Applies (d : ℕ) (p : DriverLocationPing) (e : Event Step World) : Prop :=
  e.label = .applyPing d p ∧ e.before.takes d p = true

/-- The step as it is committed. -/
def committed (l : Step) (w : World) : Event Step World := ⟨l, w, w.run l⟩

/-- The samples are taken out of a buffer. -/
def Takes (batch : AList fun _ : ℕ ↦ FlushSample) (e : Event Step World) : Prop :=
  (∃ task, (e.label = .drain task ∧ e.before.mayFlush task = true ∨ e.label = .destroy task) ∧
    e.before.pending task = batch) ∨
  ∃ task d sample, e.label = .drainDriver task d ∧ (e.before.pending task).lookup d = some sample ∧
    batch = AList.singleton d sample

/-- The candidate is a driver whom the search has found and whose hash was read after
it, at the fix that it had. -/
def Reports (distanceKm : GeoPoint → GeoPoint → ℚ) (past : List (Event Step World)) (z : ℕ)
    (centre : GeoPoint) (radiusKm : ℚ) (c : DriverCandidate) : Prop :=
  ∃ (pre : List (Event Step World)) (e : Event Step World) (mid : List (Event Step World)) (f : Event Step World)
    (post : List (Event Step World)) (h : DriverHash) (p : DriverLocationPing),
    past = pre ++ e :: (mid ++ f :: post) ∧ e.label = .geosearch z centre radiusKm ∧
    c.driverId ∈ e.before.geosearch distanceKm z centre radiusKm ∧ f.label = .hgetall c.driverId ∧
    f.before.hash c.driverId = some h ∧ h.fix = some p ∧ c.point = p.toGeoPoint

/-- The zone is the one that the driver's hash was read to name or, where there was none,
their row. -/
def Located (past : List (Event Step World)) (d : ℕ) (zoneId : Option ℕ) : Prop :=
  ∃ r ∈ past, r.label = .zoneOf d ∧
    (r.before.zoneOf d = zoneId ∨ r.before.zoneOf d = none ∧
      ∃ r' ∈ past, r'.label = .identity d ∧ (r'.before.drivers d).bind (·.zoneId) = zoneId)

/-- What a request has done before each of its steps. -/
inductive Justified (distanceKm : GeoPoint → GeoPoint → ℚ) (asked : Request Unit)
    (past : List (Event Step World)) : Step → Prop
  | quiet {l : Step} : l.quiet = true → Justified distanceKm asked past l
  | goOnline {d z : ℕ} {point : GeoPoint} : asked = (DriverPresenceService.goOnline d point).ignore →
      Justified distanceKm asked past (.goOnline d z point)
  | enter {d : ℕ} {identity : DriverPresenceIdentity} {vehicleClass : Option ℕ} {longDistance : Bool}
      {point : GeoPoint} {r : Event Step World} :
      asked = (DriverPresenceService.goOnline d point).ignore →
      r ∈ past → r.label = .goOnline d identity.zoneId point →
      Justified distanceKm asked past (.putIdentity d identity vehicleClass longDistance)
  | rehydrate {d task : ℕ} {identity : DriverPresenceIdentity} {vehicleClass : Option ℕ}
      {longDistance : Bool} {pings : List DriverLocationPing} {r : Event Step World} {row : DriverRow} :
      asked = (LocationIngestService.ingest task d pings).ignore →
      r ∈ past → r.label = .identity d → r.before.drivers d = some row → row.isOnline = true →
      row.zoneId = some identity.zoneId →
      Justified distanceKm asked past (.putIdentity d identity vehicleClass longDistance)
  | del {d : ℕ} {zoneId : Option ℕ} :
      (∃ task, asked = (DriverPresenceService.goOffline task d).ignore) ∨
        asked = DriverPresenceService.evictRevoked d → Located past d zoneId →
      (∀ z, zoneId = some z → ∃ r ∈ past, r.label = .zrem z [d]) →
      Justified distanceKm asked past (.del d)
  | goOffline {d : ℕ} {r : Event Step World} :
      r ∈ past → r.label = .del d → Justified distanceKm asked past (.goOffline d)
  | applyPing {d task : ℕ} {pings : List DriverLocationPing} {p : DriverLocationPing} :
      asked = (LocationIngestService.ingest task d pings).ignore → p ∈ pings →
      Justified distanceKm asked past (.applyPing d p)
  | publish {d : ℕ} {p : DriverLocationPing} {identity : DriverPresenceIdentity} {r : Event Step World} :
      r ∈ past → Applies d p r → Justified distanceKm asked past (.publish d p identity)
  | publishFleet {d : ℕ} {p : DriverLocationPing} {identity : DriverPresenceIdentity}
      {r : Event Step World} :
      r ∈ past → Applies d p r → Justified distanceKm asked past (.publishFleet d p identity)
  | buffer {task d : ℕ} {p : DriverLocationPing} {r : Event Step World} :
      r ∈ past → Applies d p r → Justified distanceKm asked past (.buffer task d (sampleOf p))
  | flush {batch : AList fun _ : ℕ ↦ FlushSample} {r : Event Step World} :
      r ∈ past → Takes batch r → Justified distanceKm asked past (.flushPositions batch)
  | sample {batch : AList fun _ : ℕ ↦ FlushSample} {r : Event Step World} :
      r ∈ past → r.label = .flushPositions batch → Justified distanceKm asked past (.sampleBookingPath batch)
  | hgetall {d : ℕ} : Justified distanceKm asked past (.hgetall d)
  | answer {z : ℕ} {centre : GeoPoint} {radiusKm : ℚ} {candidates : List DriverCandidate} :
      (∀ c ∈ candidates, Reports distanceKm past z centre radiusKm c) →
      Justified distanceKm asked past (.answer z centre radiusKm candidates)
  | zrem {z : ℕ} {ds : List ℕ} : Justified distanceKm asked past (.zrem z ds)
  | draw {l : Step} {d : ℕ} {fix : Fix} {r : Event Step World} :
      r ∈ past → r.label = .lastFix d → r.before.lastFix d = some fix →
      l.origin = some (d, fix.point) → Justified distanceKm asked past l

variable {asked : Request Unit} {past : List (Event Step World)} {d task : ℕ}

theorem lastFix_isSome (w : World) (d : ℕ) : ∃ fix, w.lastFix d = some fix := ⟨_, rfl⟩

theorem quiet_ignore {p : Request α}
    (h : p.Heeds (Justified distanceKm asked) (fun _ _ ↦ True) past) :
    p.ignore.Heeds (Justified distanceKm asked) (fun _ _ ↦ True) past :=
  h.bind (fun _ _ _ ↦ trivial) fun _ _ _ ↦ trivial

theorem justified_write {batch : AList fun _ : ℕ ↦ FlushSample} {r : Event Step World} (hr : r ∈ past)
    (htakes : Takes batch r) : (LocationFlushService.write batch).Heeds (Justified distanceKm asked)
      (fun _ _ ↦ True) past := by
  unfold LocationFlushService.write
  split_ifs
  · trivial
  · refine ⟨.flush hr htakes, fun s ↦ ⟨?_, fun _ ↦ trivial⟩⟩
    exact .sample (List.mem_append_right _ (List.mem_singleton_self _)) rfl

theorem justified_flushDriver : (LocationFlushService.flushDriver task d).Heeds
    (Justified distanceKm asked) (fun _ _ ↦ True) past := by
  refine ⟨.quiet rfl, fun s ↦ ?_⟩
  simp only [Proc.bind_ok]
  cases hsample : (s.pending task).lookup d with
  | none => trivial
  | some sample =>
    exact justified_write (List.mem_append_right _ (List.mem_singleton_self _))
      (.inr ⟨task, d, sample, rfl, hsample, rfl⟩)

theorem justified_presence {zone : Option Zone} {isOnline : Bool} {seq : ℕ} :
    (DriverPresenceService.presence zone isOnline seq).Heeds (Justified distanceKm asked)
      (fun _ _ ↦ True) past :=
  ⟨.quiet rfl, fun _ ↦ trivial⟩

theorem justified_goOnline {point : GeoPoint} : (DriverPresenceService.goOnline d point).Heeds
    (Justified distanceKm (DriverPresenceService.goOnline d point).ignore) (fun _ _ ↦ True) past := by
  refine ⟨.quiet rfl, fun s ↦ ?_⟩
  simp only [Proc.bind_ok]
  cases s.zoneAt point with
  | none => trivial
  | some zone =>
    refine ⟨.quiet rfl, fun s ↦ ?_⟩
    simp only [Proc.bind_ok]
    cases s.drivers d with
    | none => trivial
    | some row =>
      dsimp only
      split_ifs
      · trivial
      · trivial
      · refine ⟨.goOnline rfl, fun s ↦ ⟨?_, fun s ↦ justified_presence⟩⟩
        exact .enter rfl (List.mem_append_right _ (List.mem_singleton_self _)) rfl

theorem Located.append {zoneId : Option ℕ} (h : Located past d zoneId) (more : List (Event Step World)) :
    Located (past ++ more) d zoneId := by
  obtain ⟨r, hr, hlabel, hzone | ⟨hnone, r', hr', hlabel', hzone⟩⟩ := h
  · exact ⟨r, List.mem_append_left _ hr, hlabel, .inl hzone⟩
  · exact ⟨r, List.mem_append_left _ hr, hlabel, .inr ⟨hnone, r', List.mem_append_left _ hr', hlabel', hzone⟩⟩

theorem justified_leave {k : Request α} {zoneId : Option ℕ}
    (hasked : (∃ task, asked = (DriverPresenceService.goOffline task d).ignore) ∨
      asked = DriverPresenceService.evictRevoked d) (hlocated : Located past d zoneId)
    (hk : ∀ past, k.Heeds (Justified distanceKm asked) (fun _ _ ↦ True) past) :
    ((PresenceStore.evict d zoneId).bind fun _ ↦ (DriverPresenceRepo.goOffline d).bind fun _ ↦ k).Heeds
      (Justified distanceKm asked) (fun _ _ ↦ True) past := by
  cases zoneId with
  | none =>
    refine ⟨.del hasked hlocated (by simp), fun s ↦ ⟨?_, fun s ↦ hk _⟩⟩
    exact .goOffline (List.mem_append_right _ (List.mem_singleton_self _)) rfl
  | some z =>
    refine ⟨.zrem, fun s ↦ ⟨.del hasked (hlocated.append _) fun z' hz ↦ ?_, fun s ↦ ⟨?_, fun s ↦ hk _⟩⟩⟩
    · obtain rfl := Option.some.inj hz
      exact ⟨_, List.mem_append_right _ (List.mem_singleton_self _), rfl⟩
    · exact .goOffline (List.mem_append_right _ (List.mem_singleton_self _)) rfl

theorem justified_goOffline : (DriverPresenceService.goOffline task d).Heeds
    (Justified distanceKm (DriverPresenceService.goOffline task d).ignore) (fun _ _ ↦ True) past := by
  refine justified_flushDriver.bind (fun _ past _ ↦ ⟨.quiet rfl, fun s ↦ ?_⟩) fun _ _ _ ↦ trivial
  simp only [Proc.bind_ok]
  have hread : committed (.zoneOf d) s ∈ past ++ [committed (.zoneOf d) s] :=
    List.mem_append_right _ (List.mem_singleton_self _)
  cases hzone : s.zoneOf d with
  | some zoneId =>
    exact justified_leave (.inl ⟨task, rfl⟩) ⟨_, hread, rfl, .inl hzone⟩ fun _ ↦ justified_presence
  | none =>
    refine ⟨.quiet rfl, fun s' ↦ justified_leave (.inl ⟨task, rfl⟩) ?_ fun _ ↦ justified_presence⟩
    exact ⟨_, List.mem_append_left _ hread, rfl, .inr ⟨hzone, committed (.identity d) s',
      List.mem_append_right _ (List.mem_singleton_self _), rfl, rfl⟩⟩

theorem justified_evictRevoked : (DriverPresenceService.evictRevoked d).Heeds
    (Justified distanceKm (DriverPresenceService.evictRevoked d)) (fun _ _ ↦ True) past := by
  refine ⟨.quiet rfl, fun s ↦ ?_⟩
  simp only [Proc.bind_ok]
  have hleave : ((PresenceStore.evict d (s.zoneOf d)).bind fun _ ↦ (DriverPresenceRepo.goOffline d).bind
      fun _ ↦ .done (.ok ())).Heeds (Justified distanceKm (DriverPresenceService.evictRevoked d))
        (fun _ _ ↦ True) (past ++ [committed (.zoneOf d) s]) :=
    justified_leave (.inr rfl) ⟨_, List.mem_append_right _ (List.mem_singleton_self _), rfl, .inl rfl⟩
      fun _ ↦ trivial
  exact hleave

theorem justified_rehydrate {pings : List DriverLocationPing} :
    (LocationIngestService.rehydrate d).Heeds
      (Justified distanceKm (LocationIngestService.ingest task d pings).ignore) (fun _ _ ↦ True) past := by
  refine ⟨.quiet rfl, fun s ↦ ?_⟩
  simp only [Proc.bind_ok]
  cases hrow : s.drivers d with
  | none => trivial
  | some row =>
    dsimp only
    cases hzone : row.zoneId with
    | none => trivial
    | some zoneId =>
      dsimp only
      split_ifs with honline
      · rw [Bool.and_eq_true] at honline
        refine ⟨.rehydrate rfl (List.mem_append_right _ (List.mem_singleton_self _)) rfl hrow honline.1 hzone,
          fun _ ↦ trivial⟩
      · trivial

theorem justified_conclude {p : DriverLocationPing} {r : Event Step World} (hr : r ∈ past)
    (hlabel : r.label = .applyPing d p) :
    (LocationIngestService.conclude task d p (r.before.applyPing d p)).Heeds (Justified distanceKm asked)
      (fun _ _ ↦ True) past := by
  cases hresult : r.before.applyPing d p with
  | discarded seq => trivial
  | unknown => trivial
  | applied seq identity =>
    have happlies : Applies d p r := ⟨hlabel, by rw [World.takes, hresult]⟩
    refine ⟨.publish hr happlies, fun s ↦ ?_⟩
    refine Proc.Heeds.bind (Q := fun _ past ↦ r ∈ past)
      (Proc.Heeds.when (fun _ ↦ ⟨.publishFleet (List.mem_append_left _ hr) happlies, fun _ ↦ ?_⟩)
        fun _ ↦ List.mem_append_left _ hr) (fun _ past hr ↦ ?_) fun _ _ _ ↦ trivial
    · exact List.mem_append_left _ (List.mem_append_left _ hr)
    · exact ⟨.buffer hr happlies, fun _ ↦ trivial⟩

/-- The script, and what follows when it has come back with its answer. -/
theorem justified_reply {p : DriverLocationPing} {k : ApplyPingResult → Request α} {s : World}
    (hk : (k (s.applyPing d p)).Heeds (Justified distanceKm asked) (fun _ _ ↦ True) past) :
    ((Proc.done (PresenceStore.reply s d p)).bind k).Heeds (Justified distanceKm asked) (fun _ _ ↦ True) past := by
  rcases reply_cases s d p with hreply | ⟨-, -, e, hreply⟩
  · rw [hreply]
    exact hk
  · rw [hreply]
    trivial

theorem justified_applyOne {pings : List DriverLocationPing} {p : DriverLocationPing} (hp : p ∈ pings) :
    (LocationIngestService.applyOne task d p).Heeds
      (Justified distanceKm (LocationIngestService.ingest task d pings).ignore) (fun _ _ ↦ True) past := by
  refine ⟨.applyPing rfl hp, fun s ↦ justified_reply ?_⟩
  have hconclude (past : List (Event Step World)) (s : World) :
      (LocationIngestService.conclude task d p (s.applyPing d p)).Heeds
        (Justified distanceKm (LocationIngestService.ingest task d pings).ignore) (fun _ _ ↦ True)
        (past ++ [committed (.applyPing d p) s]) :=
    justified_conclude (List.mem_append_right past (List.mem_singleton_self
      (committed (.applyPing d p) s))) rfl
  cases hresult : s.applyPing d p with
  | applied seq identity =>
    have := hconclude past s
    rw [hresult] at this
    exact this
  | discarded seq => trivial
  | unknown =>
    refine justified_rehydrate.bind (fun rehydrated past _ ↦ ?_) fun _ _ _ ↦ trivial
    split_ifs
    · exact ⟨.applyPing rfl hp, fun s ↦ justified_reply (hconclude _ s)⟩
    · trivial

theorem justified_applyAll {pings qs : List DriverLocationPing} (hqs : ∀ q ∈ qs, q ∈ pings)
    (sofar : DriverLocationAccepted) : (LocationIngestService.applyAll task d qs sofar).Heeds
      (Justified distanceKm (LocationIngestService.ingest task d pings).ignore) (fun _ _ ↦ True) past := by
  induction qs generalizing past sofar with
  | nil => trivial
  | cons q qs ih =>
    refine (justified_applyOne (hqs q List.mem_cons_self)).bind (fun accepted past _ ↦ ?_)
      fun _ _ _ ↦ trivial
    exact ih (fun q' hq' ↦ hqs q' (List.mem_cons_of_mem _ hq')) _

theorem justified_ingest {pings : List DriverLocationPing} : (LocationIngestService.ingest task d pings).Heeds
    (Justified distanceKm (LocationIngestService.ingest task d pings).ignore) (fun _ _ ↦ True) past := by
  refine (justified_applyAll (fun _ h ↦ h) _).bind (fun counted past _ ↦ ?_) fun _ _ _ ↦ trivial
  split_ifs
  · exact ⟨.quiet rfl, fun _ ↦ trivial⟩
  · trivial

theorem justified_flush : (LocationFlushService.flush task).Heeds (Justified distanceKm asked)
    (fun _ _ ↦ True) past := by
  refine ⟨.quiet rfl, fun s ↦ ?_⟩
  simp only [Proc.bind_ok]
  split_ifs with hmay
  · refine Proc.Heeds.bind (Q := fun _ _ ↦ True) ?_ (fun _ _ _ ↦ ⟨.quiet rfl, fun _ ↦ trivial⟩)
      fun _ _ _ ↦ trivial
    exact justified_write (List.mem_append_right _ (List.mem_singleton_self _))
      (.inl ⟨task, .inl ⟨rfl, hmay⟩, rfl⟩)
  · trivial

theorem justified_onModuleDestroy : (LocationFlushService.onModuleDestroy task).Heeds
    (Justified distanceKm asked) (fun _ _ ↦ True) past := by
  refine ⟨.quiet rfl, fun s ↦ ?_⟩
  exact justified_write (List.mem_append_right _ (List.mem_singleton_self _))
    (.inl ⟨task, .inr rfl, rfl⟩)

/-- The hash is read after the search `e`, and is there. -/
def ReadAfter (past : List (Event Step World)) (e : Event Step World) (d : ℕ) (h : DriverHash) : Prop :=
  ∃ (pre mid : List (Event Step World)) (f : Event Step World) (post : List (Event Step World)),
    past = pre ++ e :: (mid ++ f :: post) ∧ f.label = .hgetall d ∧ f.before.hash d = some h

theorem ReadAfter.append {e : Event Step World} {h : DriverHash} (hread : ReadAfter past e d h)
    (more : List (Event Step World)) : ReadAfter (past ++ more) e d h := by
  obtain ⟨pre, mid, f, post, rfl, hlabel, hh⟩ := hread
  exact ⟨pre, mid, f, post ++ more, by simp, hlabel, hh⟩

theorem justified_hgetalls {e : Event Step World} (ds : List ℕ) (he : e ∈ past) :
    (PresenceStore.hgetalls ds).Heeds (Justified distanceKm asked)
      (fun r past' ↦ (∃ more, past' = past ++ more) ∧ ∀ results, r = .ok results → ∀ d h, (d, some h) ∈ results →
        d ∈ ds ∧ ReadAfter past' e d h) past := by
  induction ds generalizing past with
  | nil =>
    refine ⟨⟨[], by simp⟩, fun results hr d h hmem ↦ ?_⟩
    cases hr
    simp at hmem
  | cons d ds ih =>
    refine ⟨.hgetall, fun s ↦ ?_⟩
    refine (ih (List.mem_append_left _ he)).bind (fun rest past' hrest ↦ ?_) fun _ past' hrest ↦ ?_
    · obtain ⟨⟨more, hmore⟩, hrest⟩ := hrest
      refine ⟨⟨_, by rw [hmore, List.append_assoc]⟩, fun results hr d' h hmem ↦ ?_⟩
      cases hr
      rcases List.mem_cons.mp hmem with heq | hmem
      · obtain ⟨rfl, hhash⟩ := Prod.mk.inj heq
        obtain ⟨pre, mid, rfl⟩ := List.append_of_mem he
        refine ⟨List.mem_cons_self, pre, mid, committed (.hgetall d') s, more, ?_, rfl, hhash.symm⟩
        rw [hmore]
        simp [committed, Store.commit]
      · obtain ⟨hd, hread⟩ := hrest rest rfl d' h hmem
        exact ⟨List.mem_cons_of_mem _ hd, hread⟩
    · obtain ⟨⟨more, hmore⟩, -⟩ := hrest
      exact ⟨⟨_, by rw [hmore, List.append_assoc]⟩, fun _ hr ↦ by cases hr⟩

theorem justified_searchZone {z : ℕ} {centre : GeoPoint} {radiusKm : ℚ} :
    (PresenceStore.searchZone distanceKm z centre radiusKm).Heeds (Justified distanceKm asked)
      (fun r past ↦ ∀ members, r = .ok members → ∀ d h, (d, h) ∈ members →
        ∃ e, e.label = .geosearch z centre radiusKm ∧ d ∈ e.before.geosearch distanceKm z centre radiusKm ∧
          ReadAfter past e d h) past := by
  refine ⟨.quiet rfl, fun s ↦ ?_⟩
  have hsearch := List.mem_append_right past (List.mem_singleton_self
    (committed (.geosearch z centre radiusKm) s))
  refine (justified_hgetalls _ hsearch).bind (fun results past hresults ↦ ?_) fun _ _ _ ↦ (by simp)
  -- Whatever the orphans are, the searcher hears of the others.
  refine Proc.Heeds.bind (Q := fun _ past ↦ ∀ d h, (d, some h) ∈ results →
      d ∈ s.geosearch distanceKm z centre radiusKm ∧
      ReadAfter past (committed (.geosearch z centre radiusKm) s) d h) ?_ (fun _ past hread ↦ ?_)
      fun _ _ _ ↦ (by simp)
  · have hall := hresults.2 results rfl
    refine Proc.Heeds.when (fun _ ↦ ⟨.zrem, fun _ ↦ ?_⟩) fun _ ↦ hall
    intro d h hmem
    obtain ⟨hd, hread⟩ := hall d h hmem
    exact ⟨hd, hread.append _⟩
  · intro members hr d h hmem
    cases hr
    obtain ⟨⟨d', hash⟩, hr, hsome⟩ := List.mem_filterMap.mp hmem
    obtain ⟨h', rfl, heq⟩ := Option.map_eq_some_iff.mp hsome
    obtain ⟨rfl, rfl⟩ := Prod.mk.inj heq
    obtain ⟨hd, hread⟩ := hread _ _ hr
    exact ⟨_, rfl, hd, hread⟩

theorem justified_inZone {z : ℕ} {centre : GeoPoint} {radiusKm : ℚ} :
    (DriverCandidatesRepo.inZone distanceKm z centre radiusKm).Heeds (Justified distanceKm asked)
      (fun _ _ ↦ True) past := by
  refine ⟨.quiet rfl, fun s ↦ ?_⟩
  refine justified_searchZone.bind (fun members past hmembers ↦ ⟨.answer fun c hc ↦ ?_, fun _ ↦ trivial⟩)
    fun _ _ _ ↦ trivial
  obtain ⟨⟨d, h⟩, hmem, hcandidate⟩ := List.mem_filterMap.mp hc
  obtain ⟨e, hsearch, hfound, pre, mid, f, post, hpast, hlabel, hh⟩ := hmembers members rfl d h hmem
  simp only [DriverCandidatesRepo.candidate] at hcandidate
  cases hfix : h.fix with
  | none => simp [hfix] at hcandidate
  | some p =>
    simp only [hfix] at hcandidate
    split_ifs at hcandidate
    obtain rfl := Option.some.inj hcandidate
    exact ⟨pre, e, mid, f, post, h, p, hpast, hsearch, hfound, hlabel, hh, hfix, rfl⟩

theorem justified_requireNearPickup {b : ℕ} :
    (JobExecutionService.requireNearPickup haversineMeters b d).Heeds (Justified distanceKm asked)
      (fun _ _ ↦ True) past := by
  refine ⟨.quiet rfl, fun s ↦ ⟨.quiet rfl, fun t ↦ ?_⟩⟩
  obtain ⟨fix, hfix⟩ := lastFix_isSome s d
  simp only [Proc.bind_ok, hfix]
  cases t.pickup b with
  | none => trivial
  | some pickup =>
    refine ⟨.draw (List.mem_append_left _ (List.mem_append_right _ (List.mem_singleton_self _))) rfl hfix rfl,
      fun u ↦ ?_⟩
    simp only [Proc.bind_ok]
    split_ifs <;> trivial

theorem justified_planRoute {b : ℕ} : (OfferService.planRoute b d).Heeds (Justified distanceKm asked)
    (fun _ _ ↦ True) past := by
  refine ⟨.quiet rfl, fun s ↦ ⟨.quiet rfl, fun t ↦ ?_⟩⟩
  obtain ⟨fix, hfix⟩ := lastFix_isSome s d
  simp only [Proc.bind_ok, hfix]
  cases t.pickup b with
  | none => trivial
  | some pickup =>
    exact ⟨.draw (List.mem_append_left _ (List.mem_append_right _ (List.mem_singleton_self _))) rfl hfix rfl,
      fun _ ↦ trivial⟩

theorem presents_justified {p : Request Unit} (h : Presents distanceKm haversineMeters p) :
    p.Heeds (Justified distanceKm p) (fun _ _ ↦ True) [] := by
  cases h with
  | goOnline d point => exact quiet_ignore justified_goOnline
  | goOffline task d => exact quiet_ignore justified_goOffline
  | evictRevoked d => exact justified_evictRevoked
  | ingest task d pings => exact quiet_ignore justified_ingest
  | flush task => exact justified_flush
  | onModuleDestroy task => exact justified_onModuleDestroy
  | inZone zoneId centre radiusKm => exact quiet_ignore justified_inZone
  | arrived b d => exact justified_requireNearPickup
  | planRoute b d => exact justified_planRoute
  | _ => exact ⟨.quiet rfl, fun _ ↦ trivial⟩

variable {s₀ w : World} {cs : List (Call Step World Failure)} {es : List (ℕ × Event Step World)}
  {i n : ℕ} {e : Event Step World}

theorem justified_of_makes (h : Calls (Presents distanceKm haversineMeters) s₀ cs w es)
    (he : Makes es i n e) :
    ∃ c, cs[n]? = some c ∧ Justified distanceKm c.asked (own n (es.take i)) e.label :=
  h.heeds_at (fun _ hp ↦ presents_justified hp) he

theorem commit_of_makes (h : Calls (Presents distanceKm haversineMeters) s₀ cs w es)
    (he : Makes es i n e) : e.after = e.before.run e.label := h.commit_at he

theorem commits (h : Calls (Presents distanceKm haversineMeters) s₀ cs w es) :
    ∀ e ∈ es.map (·.2), e.after = e.before.run e.label := h.runs.committed

end Towing.Presence
