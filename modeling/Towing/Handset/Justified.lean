import Towing.Handset.Flushing

namespace Towing.Handset

open Towing.Process Towing.Presence
open Towing.Money (Failure)

variable {distanceKm haversineMeters : GeoPoint → GeoPoint → ℚ}

namespace Step

/-- The steps that nothing has to justify. -/
def isAside : Step → Bool
  | .server _ _ | .acknowledge _ _ _ => false
  | _ => true

end Step

/-- The request has sent the batch. -/
def Sent (past : List (Event Step System)) (batch : Batch) : Prop :=
  ∃ e ∈ past, e.label = .startFlush ∧ e.before.phone.starts = some batch

/-- The number is that of a fix which the batch has had accepted, or that of the hash. -/
def Answered (past : List (Event Step System)) (session d seq : ℕ) : Prop :=
  (∃ e ∈ past, ∃ p, e.label = .server session (.applyPing d p) ∧ e.before.server.takes d p = true ∧ p.seq = seq) ∨
    ∃ e ∈ past, e.label = .server session (.currentSeq d) ∧ e.before.server.currentSeq d = seq

/-- What a request has done before each of its steps. -/
inductive Justified (past : List (Event Step System)) : Step → Prop
  | aside {l : Step} : l.isAside = true → Justified past l
  | server {session : ℕ} {l : Presence.Step} : (∀ d p, l ≠ .applyPing d p) → Justified past (.server session l)
  | applyPing {batch : Batch} {d : ℕ} {p : DriverLocationPing} : Sent past batch →
      p ∈ batch.fixes.map (·.ping) → Justified past (.server batch.session (.applyPing d p))
  | acknowledge {batch : Batch} {d seq : ℕ} : Sent past batch → Answered past batch.session d seq →
      Justified past (.acknowledge batch.flush batch.session seq)

variable {past : List (Event Step System)} {α : Type}

theorem Sent.append {batch : Batch} (h : Sent past batch) (rest : List (Event Step System)) :
    Sent (past ++ rest) batch := by
  obtain ⟨e, he, hl⟩ := h
  exact ⟨e, List.mem_append_left rest he, hl⟩

theorem embedded {session : ℕ} {es : List (Event Presence.Step Presence.World)} {es' : List (Event Step System)}
    (h : List.Forall₂ (Event.Embeds (Step.server session) System.server) es es') {e : Event Presence.Step Presence.World}
    (he : e ∈ es) : ∃ e' ∈ es', e'.label = .server session e.label ∧ e'.before.server = e.before := by
  induction h with
  | nil => cases he
  | cons hxy _ ih =>
    rcases List.mem_cons.mp he with rfl | he
    · exact ⟨_, List.mem_cons_self, hxy.label, hxy.before.symm⟩
    · obtain ⟨e', he', h⟩ := ih he
      exact ⟨e', List.mem_cons_of_mem _ he', h⟩

/-- What the server does that is no stream. -/
theorem justified_serve {p : Presence.Request α} (h : p.Only fun l ↦ ∀ d ping, l ≠ .applyPing d ping) :
    (serve 0 p).Heeds Justified (fun _ _ ↦ True) past := by
  induction p generalizing past with
  | done r => trivial
  | step l next ih => exact ⟨.server h.1, fun s ↦ ih s.server (h.2 s.server)⟩

theorem justified_ingest {batch : Batch} (hsent : Sent past batch) (task d : ℕ) :
    (serve batch.session (LocationIngestService.ingest task d (batch.fixes.map (·.ping)))).Heeds Justified
      (fun r past ↦ Sent past batch ∧ ∀ a, r = .ok a → Answered past batch.session d a.seq) past := by
  have hafter : (serve batch.session (LocationIngestService.ingest task d (batch.fixes.map (·.ping)))).Heeds Justified
      (fun r past ↦ Sent past batch ∧ ∀ a, r = .ok a → Answered past batch.session d a.seq) (past ++ []) :=
    (heeds_ingest.lift .nil (fun past' past'' l _ hl ↦ ?_) fun r past' past'' hembeds h ↦ ?_).after
  · rwa [List.append_nil] at hafter
  · cases l with
    | applyPing d' p => exact .applyPing (hsent.append _) hl.2
    | _ => exact .server (by simp)
  · refine ⟨hsent.append _, fun a ha ↦ ?_⟩
    rcases h a ha with ⟨e, he, p, hlabel, htakes, hseq⟩ | ⟨e, he, hlabel, hseq⟩
    · obtain ⟨e', he', hlabel', hbefore⟩ := embedded hembeds he
      exact .inl ⟨e', List.mem_append_right _ he', p, hlabel ▸ hlabel', hbefore ▸ htakes, hseq⟩
    · obtain ⟨e', he', hlabel', hbefore⟩ := embedded hembeds he
      exact .inr ⟨e', List.mem_append_right _ he', hlabel ▸ hlabel', hbefore ▸ hseq⟩

theorem justified_flush (task : ℕ) : (flush task).Heeds Justified (fun _ _ ↦ True) past := by
  refine ⟨.aside rfl, fun s ↦ ?_⟩
  simp only [Proc.bind_ok]
  cases hstarts : s.phone.starts with
  | none => trivial
  | some batch =>
    dsimp only
    cases batch.driver with
    | none => exact ⟨.aside rfl, fun _ ↦ trivial⟩
    | some d =>
      refine (justified_ingest ⟨_, List.mem_concat_self, rfl, hstarts⟩ task d).follow fun r past h ↦ ?_
      cases r with
      | ok accepted => exact ⟨.acknowledge h.1 (h.2 accepted rfl), fun _ ↦ trivial⟩
      | error e => exact ⟨.aside rfl, fun _ ↦ trivial⟩

/-- A step of the server that is no ping. -/
def NoPing (l : Presence.Step) : Prop := ∀ d ping, l ≠ .applyPing d ping

theorem noPing_presence (zone : Option Zone) (isOnline : Bool) (seq : ℕ) :
    (DriverPresenceService.presence zone isOnline seq).Only NoPing := ⟨by simp [NoPing], fun _ ↦ trivial⟩

theorem noPing_goOnline (d : ℕ) (point : GeoPoint) : (DriverPresenceService.goOnline d point).Only NoPing := by
  refine ⟨by simp [NoPing], fun s ↦ ?_⟩
  simp only [Proc.bind_ok]
  cases s.zoneAt point with
  | none => trivial
  | some zone =>
    refine ⟨by simp [NoPing], fun s' ↦ ?_⟩
    simp only [Proc.bind_ok]
    cases s'.drivers d with
    | none => trivial
    | some row =>
      dsimp only
      split_ifs
      · trivial
      · trivial
      · exact ⟨by simp [NoPing], fun _ ↦ ⟨by simp [NoPing], fun _ ↦ noPing_presence _ _ _⟩⟩

theorem noPing_goOffline (task d : ℕ) : (DriverPresenceService.goOffline task d).Only NoPing := by
  refine Proc.Only.bind ⟨by simp [NoPing], fun s ↦ ?_⟩ fun _ ↦ ⟨by simp [NoPing], fun s ↦ ?_⟩
  · simp only [Proc.bind_ok]
    cases (s.pending task).lookup d with
    | none => trivial
    | some sample =>
      change (LocationFlushService.write _).Only NoPing
      unfold LocationFlushService.write
      split_ifs
      · trivial
      · exact ⟨by simp [NoPing], fun _ ↦ ⟨by simp [NoPing], fun _ ↦ trivial⟩⟩
  · simp only [Proc.bind_ok]
    have hrest (zoneId : Option ℕ) : (PresenceStore.evict d zoneId >>= fun _ ↦ do
        DriverPresenceRepo.goOffline d
        DriverPresenceService.presence none false 0).Only NoPing := by
      refine Proc.Only.bind ?_ fun _ ↦ ⟨by simp [NoPing], fun _ ↦ noPing_presence _ _ _⟩
      cases zoneId with
      | none => exact ⟨by simp [NoPing], fun _ ↦ trivial⟩
      | some z => exact ⟨by simp [NoPing], fun _ ↦ ⟨by simp [NoPing], fun _ ↦ trivial⟩⟩
    cases s.zoneOf d with
    | some zoneId => exact hrest _
    | none => exact ⟨by simp [NoPing], fun s' ↦ hrest _⟩

theorem streams_justified {p : Request Unit} (h : Streams distanceKm haversineMeters p) :
    p.Heeds Justified (fun _ _ ↦ True) [] := by
  cases h with
  | flush task => exact justified_flush task
  | goOnline point =>
    refine ⟨.aside rfl, fun s ↦ ?_⟩
    simp only [Proc.bind_ok]
    cases s.phone.driver with
    | none => trivial
    | some d =>
      refine (justified_serve (noPing_goOnline d point)).bind (fun presence past _ ↦ ?_) fun _ _ _ ↦ trivial
      exact ⟨.aside rfl, fun _ ↦ trivial⟩
  | goOffline task =>
    refine (justified_flush task).bind (fun _ past _ ↦ ⟨.aside rfl, fun s ↦ ?_⟩) fun _ _ _ ↦ trivial
    simp only [Proc.bind_ok]
    cases s.phone.driver with
    | none => trivial
    | some d => exact (justified_serve (noPing_goOffline task d)).bind (fun _ _ _ ↦ trivial) fun _ _ _ ↦ trivial
  | enqueue location => exact ⟨.aside rfl, fun _ ↦ trivial⟩
  | giveUp => exact ⟨.aside rfl, fun _ ↦ trivial⟩
  | logout => exact ⟨.aside rfl, fun _ ↦ trivial⟩
  | signIn driver => exact ⟨.aside rfl, fun _ ↦ trivial⟩
  | beside _ honly => exact justified_serve honly

end Towing.Handset
