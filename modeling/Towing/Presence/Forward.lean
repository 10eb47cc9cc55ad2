import Towing.Presence.Offline

namespace Towing.Presence

open Towing.Process
open Towing.Money (Failure)

variable {distanceKm haversineMeters : GeoPoint → GeoPoint → ℚ} {s₀ w : World} {d task : ℕ}
  {p q : DriverLocationPing} {cs : List (Call Step World Failure)} {es : List (ℕ × Event Step World)}
  {i j k m n : ℕ} {e f g : Event Step World} {session : DriverLocationPing → ℕ}

/-- Who follows a driver, and who follows their truck. -/
inductive Channel
  | driver
  | fleet

def Step.publishedOn : Channel → Step → Option (ℕ × DriverLocationPing)
  | .driver, .publish d p _ => some (d, p)
  | .fleet, .publishFleet d p _ => some (d, p)
  | _, _ => none

/-- The driver's sample that a step persists. -/
def Step.persisted (d : ℕ) : Step → Option FlushSample
  | .flushPositions batch => batch.lookup d
  | _ => none

/-- The driver's ping has come as far as the script. -/
def Reaches (es : List (ℕ × Event Step World)) (d : ℕ) (p : DriverLocationPing) : Prop :=
  ∃ i n e, Makes es i n e ∧ e.label = .applyPing d p

/-- The driver's device counts its pings up within a session, and its clock goes on. -/
structure Device (es : List (ℕ × Event Step World)) (d : ℕ) (session : DriverLocationPing → ℕ) : Prop where
  within : ∀ p q, Reaches es d p → Reaches es d q → session p = session q → p.seq < q.seq →
    p.sentAt < q.sentAt
  across : ∀ p q, Reaches es d p → Reaches es d q → session p < session q → p.sentAt < q.sentAt

/-- No ping comes so late that the hash knows nothing of the newer ones, or of their
session; and what is stored first is told, and persisted, first. -/
structure InTurn (es : List (ℕ × Event Step World)) (d : ℕ) (session : DriverLocationPing → ℕ) : Prop where
  afresh : ∀ i j m n e f p q, i < j → Makes es i m e → Applies d p e → Makes es j n f → Applies d q f →
    f.before.fix d = none → p.sentAt < q.sentAt
  sessions : ∀ j n f p q, Makes es j n f → Applies d q f → f.before.fix d = some p → session p ≤ session q
  tells : ∀ channel i j m n e f p q, i < j →
    Makes es i m e → e.label.publishedOn channel = some (d, p) →
    Makes es j n f → f.label.publishedOn channel = some (d, q) →
    ∀ i' j' e' f', Makes es i' m e' → Applies d p e' → Makes es j' n f' → Applies d q f' → i' ≤ j'
  persists : ∀ i j m n e f, i < j → Makes es i m e → Makes es j n f →
    ∀ i' j' m' n' e' f' p q, Makes es i' m' e' → Applies d p e' → e.label.persisted d = some (sampleOf p) →
      Makes es j' n' f' → Applies d q f' → f.label.persisted d = some (sampleOf q) → i' ≤ j'

/-- The fix has been stored by the last ping that was, and has been there since. -/
theorem stored_before (h : Calls (Presents distanceKm haversineMeters) s₀ cs w es) (hs : s₀.Fresh)
    (hf : Makes es j n f) (hfix : f.before.fix d = some p) :
    ∃ i m e, i < j ∧ Makes es i m e ∧ Applies d p e ∧
      ∀ k m' g, i < k → k < j → Makes es k m' g → g.before.fix d = some p ∧ ∀ q, ¬Applies d q g := by
  obtain ⟨i, e, hij, he, hnot, hafter, hsince⟩ := h.chained.origin (R := fun w ↦ w.fix d = some p)
    (by simp [fix_fresh hs]) hf.event hfix
  obtain ⟨m, he⟩ := makes_of_event he
  rw [commit_of_makes h he] at hafter
  rcases fix_run hafter with happlies | ⟨hkept, -⟩
  · refine ⟨i, m, e, hij, he, happlies, fun k m' g hik hkj hg ↦ ?_⟩
    have hbefore := hsince k g hik hkj.le hg.event
    refine ⟨hbefore, fun q happlies' ↦ ?_⟩
    obtain ⟨x, hx⟩ := getElem?_earlier (Nat.succ_le_of_lt hkj) hf.event
    have hnext := hsince (k + 1) x (by omega) (by omega) hx
    rw [h.chained.next hg.event hx, commit_of_makes h hg, happlies'.1, fix_store happlies'.2] at hnext
    obtain rfl := Option.some.inj hnext
    obtain ⟨hash, hhash, hnewer⟩ := takes_iff.mp happlies'.2
    rw [fix_of_hash hhash] at hbefore
    exact absurd (hnewer q hbefore) (Nat.lt_irrefl _)
  · exact absurd hkept hnot

theorem reaches_of_applies (he : Makes es i n e) (happlies : Applies d p e) : Reaches es d p :=
  ⟨i, n, e, he, happlies.1⟩

/-- Of two pings stored, the later one is the newer one. -/
theorem stored_forward (h : Calls (Presents distanceKm haversineMeters) s₀ cs w es) (hs : s₀.Fresh)
    (hdevice : Device es d session) (hturn : InTurn es d session) (hij : i < j) (he : Makes es i m e)
    (hp : Applies d p e) (hf : Makes es j n f) (hq : Applies d q f) : p.sentAt < q.sentAt := by
  induction j using Nat.strong_induction_on generalizing i m e p n f q with
  | _ j ih =>
    cases hfix : f.before.fix d with
    | none => exact hturn.afresh i j m n e f p q hij he hp hf hq hfix
    | some stored =>
      obtain ⟨k, m', g, hkj, hg, hstored, hlast⟩ := stored_before h hs hf hfix
      obtain ⟨hash, hhash, hnewer⟩ := takes_iff.mp hq.2
      rw [fix_of_hash hhash] at hfix
      have hseq := hnewer stored hfix
      have hreached := reaches_of_applies hg hstored
      have hreaches := reaches_of_applies hf hq
      have hstep : stored.sentAt < q.sentAt := by
        rcases Nat.eq_or_lt_of_le (hturn.sessions j n f stored q hf hq (by rw [fix_of_hash hhash, hfix]))
          with heq | hlt
        · exact hdevice.within stored q hreached hreaches heq hseq
        · exact hdevice.across stored q hreached hreaches hlt
      rcases Nat.lt_trichotomy i k with hlt | rfl | hgt
      · exact (ih k hkj hlt he hp hg hstored).trans hstep
      · obtain ⟨-, rfl⟩ := he.unique hg
        obtain rfl : p = stored := by
          have := hp.1.symm.trans hstored.1
          cases this
          rfl
        exact hstep
      · exact absurd hp ((hlast i m e hgt hij he).2 p)

theorem not_before (h : Calls (Presents distanceKm haversineMeters) s₀ cs w es) (hs : s₀.Fresh)
    (hdevice : Device es d session) (hturn : InTurn es d session) (hij : i ≤ j) (he : Makes es i m e)
    (hp : Applies d p e) (hf : Makes es j n f) (hq : Applies d q f) : p.sentAt ≤ q.sentAt := by
  rcases Nat.eq_or_lt_of_le hij with rfl | hlt
  · obtain ⟨-, rfl⟩ := he.unique hf
    have := hp.1.symm.trans hq.1
    cases this
    exact le_rfl
  · exact (stored_forward h hs hdevice hturn hlt he hp hf hq).le

/-- Whatever is told has been stored, by the same request. -/
theorem stored_of_published (h : Calls (Presents distanceKm haversineMeters) s₀ cs w es) {channel : Channel}
    (he : Makes es i n e) (hpublished : e.label.publishedOn channel = some (d, p)) :
    ∃ j r, Makes es j n r ∧ Applies d p r := by
  obtain ⟨c, -, hjustified⟩ := justified_of_makes h he
  have hsource : ∃ r ∈ own n (es.take i), Applies d p r := by
    cases hl : e.label with
    | publish d' p' identity =>
      rw [hl] at hjustified hpublished
      cases channel with
      | fleet => cases hpublished
      | driver =>
        obtain ⟨rfl, rfl⟩ := Prod.mk.inj (Option.some.inj hpublished)
        cases hjustified with
        | quiet hq => cases hq
        | draw _ _ _ horigin => cases horigin
        | publish hr happlies => exact ⟨_, hr, happlies⟩
    | publishFleet d' p' identity =>
      rw [hl] at hjustified hpublished
      cases channel with
      | driver => cases hpublished
      | fleet =>
        obtain ⟨rfl, rfl⟩ := Prod.mk.inj (Option.some.inj hpublished)
        cases hjustified with
        | quiet hq => cases hq
        | draw _ _ _ horigin => cases horigin
        | publishFleet hr happlies => exact ⟨_, hr, happlies⟩
    | _ =>
      rw [hl] at hpublished
      cases channel <;> cases hpublished
  obtain ⟨r, hr, happlies⟩ := hsource
  obtain ⟨j, -, hr⟩ := makes_of_own hr
  exact ⟨j, r, hr, happlies⟩

/-- A sample in a buffer has been put there. -/
theorem pending_brought {l : Step} {sample : FlushSample} (hnot : (w.pending task).lookup d ≠ some sample)
    (h : ((w.run l).pending task).lookup d = some sample) : l = .buffer task d sample := by
  have hother (task' : ℕ) (samples : AList fun _ : ℕ ↦ FlushSample)
      (hsamples : ∀ t, samples.lookup d = some t → (w.pending task').lookup d = some t)
      (h : (Function.update w.pending task' samples task).lookup d = some sample) : False := by
    by_cases ht : task = task'
    · subst ht
      rw [Function.update_self] at h
      exact hnot (hsamples sample h)
    · rw [Function.update_of_ne ht] at h
      exact hnot h
  cases l with
  | buffer task' d' sample' =>
    simp only [World.run] at h
    split_ifs at h
    · exact absurd h hnot
    · dsimp only at h
      by_cases ht : task = task'
      · subst ht
        rw [Function.update_self] at h
        by_cases hd : d = d'
        · subst hd
          rw [AList.lookup_insert] at h
          rw [Option.some.inj h]
        · rw [AList.lookup_insert_ne hd] at h
          exact absurd h hnot
      · rw [Function.update_of_ne ht] at h
        exact absurd h hnot
  | drain task' =>
    simp only [World.run] at h
    split_ifs at h
    · exact (hother task' ∅ (by simp) h).elim
    · exact absurd h hnot
  | destroy task' => exact (hother task' ∅ (by simp) h).elim
  | drainDriver task' d' =>
    refine (hother task' _ (fun t ht ↦ ?_) h).elim
    by_cases hd : d = d'
    · subst hd
      simp at ht
    · rwa [AList.lookup_erase_ne hd] at ht
  | applyPing d' p' =>
    simp only [World.run, World.store] at h
    split at h
    · split at h <;> exact absurd h hnot
    · exact absurd h hnot
  | _ => exact absurd h hnot

theorem stored_of_pending (h : Calls (Presents distanceKm haversineMeters) s₀ cs w es) (hs : s₀.Fresh)
    {sample : FlushSample} (he : Makes es i n e) (hpending : (e.before.pending task).lookup d = some sample) :
    ∃ j m r p, Makes es j m r ∧ Applies d p r ∧ sampleOf p = sample := by
  obtain ⟨k, g, -, hg, hnot, hafter, -⟩ := h.chained.origin
    (R := fun w ↦ (w.pending task).lookup d = some sample) (by simp [hs.pending]) he.event hpending
  obtain ⟨m, hg⟩ := makes_of_event hg
  rw [commit_of_makes h hg] at hafter
  have hl := pending_brought hnot hafter
  obtain ⟨c, -, hjustified⟩ := justified_of_makes h hg
  rw [hl] at hjustified
  cases hjustified with
  | quiet hq => cases hq
  | draw _ _ _ horigin => cases horigin
  | buffer hr happlies =>
    obtain ⟨j, -, hr⟩ := makes_of_own hr
    exact ⟨j, m, _, _, hr, happlies, rfl⟩

theorem stored_of_persisted (h : Calls (Presents distanceKm haversineMeters) s₀ cs w es) (hs : s₀.Fresh)
    {sample : FlushSample} (he : Makes es i n e) (hpersisted : e.label.persisted d = some sample) :
    ∃ j m r p, Makes es j m r ∧ Applies d p r ∧ sampleOf p = sample := by
  obtain ⟨c, -, hjustified⟩ := justified_of_makes h he
  cases hl : e.label with
  | flushPositions batch =>
    rw [hl] at hjustified hpersisted
    cases hjustified with
    | quiet hq => cases hq
    | draw _ _ _ horigin => cases horigin
    | flush hr htakes =>
      obtain ⟨j, -, hr⟩ := makes_of_own hr
      rcases htakes with ⟨task, -, rfl⟩ | ⟨task, d', sample', -, hpending, rfl⟩
      · exact stored_of_pending h hs hr hpersisted
      · have hd : d = d' := by
          by_contra hne
          simp [Step.persisted, AList.singleton_entries, AList.lookup, hne] at hpersisted
        subst hd
        have : sample' = sample := by simpa [Step.persisted, AList.singleton_entries, AList.lookup] using hpersisted
        exact stored_of_pending h hs hr (this ▸ hpending)
  | _ =>
    rw [hl] at hpersisted
    cases hpersisted

/-- Without a fix no ping is discarded. -/
theorem not_discarded (hfix : w.fix d = none) (p : DriverLocationPing) (seq : ℕ) :
    w.applyPing d p ≠ .discarded seq := by
  unfold World.applyPing
  cases hhash : w.hash d with
  | none => simp
  | some hash =>
    rw [fix_of_hash hhash] at hfix
    simp [hfix]

/-- In their turn, a driver's pings move the hot position, the positions that are told
and the ones that are persisted forward only; and a go-online that finds no fix takes the
next ping whatever its number is. -/
theorem positions_forward (h : Calls (Presents distanceKm haversineMeters) s₀ cs w es) (hs : s₀.Fresh)
    (hdevice : Device es d session) (hturn : InTurn es d session) :
    (∀ i j m n e f p q, i < j → Makes es i m e → Applies d p e → Makes es j n f → Applies d q f →
      p.sentAt < q.sentAt) ∧
    (∀ channel i j m n e f p q, i < j → Makes es i m e → e.label.publishedOn channel = some (d, p) →
      Makes es j n f → f.label.publishedOn channel = some (d, q) → p.sentAt ≤ q.sentAt) ∧
    (∀ i j m n e f s t, i < j → Makes es i m e → e.label.persisted d = some s → Makes es j n f →
      f.label.persisted d = some t → s.sentAt ≤ t.sentAt) ∧
    ∀ i n e identity vehicleClass longDistance, Makes es i n e →
      e.label = .putIdentity d identity vehicleClass longDistance → e.before.fix d = none →
      ∀ j m f p, i < j → Makes es j m f → f.label = .applyPing d p →
        (∀ k m g q, i < k → k < j → Makes es k m g → ¬Applies d q g) →
        ∀ seq, f.before.applyPing d p ≠ .discarded seq := by
  refine ⟨?_, ?_, ?_, ?_⟩
  · intro i j m n e f p q hij he hp hf hq
    exact stored_forward h hs hdevice hturn hij he hp hf hq
  · intro channel i j m n e f p q hij he hp hf hq
    obtain ⟨i', e', he', hp'⟩ := stored_of_published h he hp
    obtain ⟨j', f', hf', hq'⟩ := stored_of_published h hf hq
    have hle := hturn.tells channel i j m n e f p q hij he hp hf hq i' j' e' f' he' hp' hf' hq'
    exact not_before h hs hdevice hturn hle he' hp' hf' hq'
  · intro i j m n e f s t hij he hst hf ht
    obtain ⟨i', m', e', p, he', hp, rfl⟩ := stored_of_persisted h hs he hst
    obtain ⟨j', n', f', q, hf', hq, rfl⟩ := stored_of_persisted h hs hf ht
    have hle := hturn.persists i j m n e f hij he hf i' j' m' n' e' f' p q he' hp hst hf' hq ht
    exact not_before h hs hdevice hturn hle he' hp hf' hq
  · intro i n e identity vehicleClass longDistance he hl hfix j m f p hij hf _ hnone seq
    refine not_discarded ?_ p seq
    by_contra hne
    obtain ⟨stored, hstored⟩ := Option.ne_none_iff_exists'.mp hne
    obtain ⟨k, m', g, hkj, hg, happlies, hlast⟩ := stored_before h hs hf hstored
    -- The ping in the hash was stored before the go-online, which would have found it.
    rcases Nat.lt_trichotomy k i with hlt | rfl | hgt
    · rw [(hlast i n e hlt hij he).1] at hfix
      cases hfix
    · obtain ⟨-, rfl⟩ := hg.unique he
      rw [happlies.1] at hl
      cases hl
    · exact hnone k m' g stored hgt hkj hg happlies

/-! Two pings of one session, in one batch and in two that overtake each other. -/

def sampleFirst : DriverLocationPing := samplePing 0 samplePickup 1000

def sampleSecond : DriverLocationPing := samplePing 1 samplePickup 2000

def sampleForward : List (Request Unit) :=
  [(DriverPresenceService.goOnline 1 samplePickup).ignore,
    (LocationIngestService.ingest 0 1 [sampleFirst, sampleSecond]).ignore, LocationFlushService.flush 0]

theorem sampleForward_presents : ∀ p ∈ sampleForward, Presents sampleMeters sampleMeters p := by
  simp only [sampleForward, List.forall_mem_cons]
  exact ⟨.goOnline 1 samplePickup, .ingest 0 1 _, .flush 0, by simp⟩

def sampleForwardTurns : List ℕ := [0, 0, 0, 0, 0, 1, 1, 1, 1, 1, 1, 2, 2, 2, 2]

def sampleForwardEvents : List (ℕ × Event Step World) := (presenceRun sampleForward sampleForwardTurns).2.2

theorem device_of_two (hall : ∀ p, Reaches es d p → p = sampleFirst ∨ p = sampleSecond) :
    Device es d fun _ ↦ 0 where
  within p q hp hq _ hlt := by
    rcases hall p hp with rfl | rfl <;> rcases hall q hq with rfl | rfl
    · exact absurd hlt (by decide)
    · decide
    · exact absurd hlt (by decide)
    · exact absurd hlt (by decide)
  across p q _ _ hlt := by simp at hlt

theorem sampleForward_pinged (he : Makes sampleForwardEvents i n e) (hl : e.label = .applyPing d p) :
    i = 5 ∧ p = sampleFirst ∨ i = 8 ∧ p = sampleSecond := by
  have hlength : sampleForwardEvents.length = 15 := by decide +kernel
  have hlt : i < 15 := hlength ▸ (List.getElem?_eq_some_iff.mp he).1
  have hall : ∀ i < 15, (sampleForwardEvents[i]?).map (fun x ↦ x.2.label.pinged) =
      some (if i = 5 then some (1, sampleFirst) else if i = 8 then some (1, sampleSecond) else none) := by
    decide +kernel
  have hpinged : _ = some (some (d, p)) := makes_label Step.pinged he hl
  rw [hall i hlt] at hpinged
  split_ifs at hpinged with h5 h8
  · cases hpinged
    exact .inl ⟨h5, rfl⟩
  · cases hpinged
    exact .inr ⟨h8, rfl⟩
  · cases hpinged

theorem sampleForward_inTurn : InTurn sampleForwardEvents 1 fun _ ↦ 0 where
  afresh i j m n e f p q hij he hp hf hq hfix := by
    rcases sampleForward_pinged hf hq.1 with ⟨rfl, -⟩ | ⟨rfl, -⟩
    · rcases sampleForward_pinged he hp.1 with ⟨rfl, -⟩ | ⟨rfl, -⟩ <;> omega
    · have hsome : (sampleForwardEvents[8]?).map (fun x ↦ (x.2.before.fix 1).isNone) = some false := by
        decide +kernel
      have hnone := makes_map (fun e ↦ (e.before.fix 1).isNone) hf
      rw [hsome, hfix] at hnone
      cases hnone
  sessions j n f p q _ _ _ := le_rfl
  tells channel i j m n e f p q hij he hp hf hq i' j' e' f' he' hp' hf' hq' := by
    have hsame : ∀ i < 15, (sampleForwardEvents[i]?).map (fun x ↦ x.2.label.published) =
        some (if i = 6 then some (1, sampleFirst) else if i = 9 then some (1, sampleSecond) else none) := by
      decide +kernel
    have hpublished {l : Step} {p : DriverLocationPing} (h : l.publishedOn channel = some (1, p)) :
        l.published = some (1, p) := by
      cases l <;> cases channel <;> first | exact h | cases h
    have hlength : sampleForwardEvents.length = 15 := by decide +kernel
    have hi : i < 15 := hlength ▸ (List.getElem?_eq_some_iff.mp he).1
    have hj : j < 15 := hlength ▸ (List.getElem?_eq_some_iff.mp hf).1
    have hatI := (makes_map (fun e ↦ e.label.published) he).symm.trans (hsame i hi)
    have hatJ := (makes_map (fun e ↦ e.label.published) hf).symm.trans (hsame j hj)
    rw [hpublished hp] at hatI
    rw [hpublished hq] at hatJ
    have hne : sampleFirst ≠ sampleSecond := by decide
    rcases sampleForward_pinged he' hp'.1 with ⟨rfl, rfl⟩ | ⟨rfl, rfl⟩ <;>
      rcases sampleForward_pinged hf' hq'.1 with ⟨rfl, rfl⟩ | ⟨rfl, rfl⟩
    · exact le_rfl
    · omega
    · -- The second is published at 9, and nothing after it.
      split_ifs at hatI hatJ <;> simp_all
    · exact le_rfl
  persists i j m n e f hij he hf i' j' m' n' e' f' p q _ _ hp _ _ hq := by
    have hall : ∀ i < 15, (sampleForwardEvents[i]?).map (fun x ↦ (x.2.label.persisted 1).isSome) =
        some (i == 12) := by decide +kernel
    have hlength : sampleForwardEvents.length = 15 := by decide +kernel
    have hi := hall i (hlength ▸ (List.getElem?_eq_some_iff.mp he).1)
    have hj := hall j (hlength ▸ (List.getElem?_eq_some_iff.mp hf).1)
    rw [makes_map (fun e ↦ (e.label.persisted 1).isSome) he, hp] at hi
    rw [makes_map (fun e ↦ (e.label.persisted 1).isSome) hf, hq] at hj
    simp at hi hj
    omega

theorem positions_forward_sample :
    (∀ i j m n e f p q, i < j → Makes sampleForwardEvents i m e → Applies 1 p e →
      Makes sampleForwardEvents j n f → Applies 1 q f → p.sentAt < q.sentAt) ∧
    ∀ channel i j m n e f p q, i < j → Makes sampleForwardEvents i m e →
      e.label.publishedOn channel = some (1, p) → Makes sampleForwardEvents j n f →
      f.label.publishedOn channel = some (1, q) → p.sentAt ≤ q.sentAt := by
  have hdevice : Device sampleForwardEvents 1 (fun _ ↦ 0) := by
    refine device_of_two fun p hp ↦ ?_
    obtain ⟨i, n, e, he, hl⟩ := hp
    rcases sampleForward_pinged he hl with ⟨-, rfl⟩ | ⟨-, rfl⟩
    · exact .inl rfl
    · exact .inr rfl
  obtain ⟨hstored, htold, -⟩ := positions_forward
    (presenceRun_calls sampleForwardTurns sampleForward_presents) samplePresence_fresh hdevice sampleForward_inTurn
  exact ⟨hstored, htold⟩

def sampleOvertaking : List (Request Unit) :=
  [(DriverPresenceService.goOnline 1 samplePickup).ignore,
    (LocationIngestService.ingest 0 1 [sampleFirst]).ignore,
    (LocationIngestService.ingest 1 1 [sampleSecond]).ignore]

theorem sampleOvertaking_presents : ∀ p ∈ sampleOvertaking, Presents sampleMeters sampleMeters p := by
  simp only [sampleOvertaking, List.forall_mem_cons]
  exact ⟨.goOnline 1 samplePickup, .ingest 0 1 _, .ingest 1 1 _, by simp⟩

/-- The second ping comes, on another process, between the first one's storing and its
publication. -/
def sampleOvertakingTurns : List ℕ := [0, 0, 0, 0, 0, 1, 2, 2, 2, 1, 1]

/-- The second ping is published before the first. -/
theorem positions_told_backwards : ∃ cs w es, Calls (Presents sampleMeters sampleMeters) samplePresence cs w es ∧
    Device es 1 (fun _ ↦ 0) ∧ ∃ i j m n e f p q, i < j ∧ Makes es i m e ∧
      e.label.publishedOn .driver = some (1, p) ∧ Makes es j n f ∧
      f.label.publishedOn .driver = some (1, q) ∧ q.sentAt < p.sentAt := by
  refine ⟨_, _, _, presenceRun_calls sampleOvertakingTurns sampleOvertaking_presents, device_of_two ?_, ?_⟩
  · intro p hp
    obtain ⟨i, n, e, he, hl⟩ := hp
    have hlength : (presenceRun sampleOvertaking sampleOvertakingTurns).2.2.length = 11 := by decide +kernel
    have hlt : i < 11 := hlength ▸ (List.getElem?_eq_some_iff.mp he).1
    have hall : ∀ i < 11, ((presenceRun sampleOvertaking sampleOvertakingTurns).2.2[i]?).map
        (fun x ↦ x.2.label.pinged) =
          some (if i = 5 then some (1, sampleFirst) else if i = 6 then some (1, sampleSecond) else none) := by
      decide +kernel
    have hpinged : _ = some (some (1, p)) := makes_label Step.pinged he hl
    rw [hall i hlt] at hpinged
    split_ifs at hpinged
    · cases hpinged
      exact .inl rfl
    · cases hpinged
      exact .inr rfl
    · cases hpinged
  · exact ⟨7, 9, 2, 1, _, _, sampleSecond, sampleFirst, by omega, by with_unfolding_all rfl,
      by with_unfolding_all rfl, by with_unfolding_all rfl, by with_unfolding_all rfl, by decide⟩

end Towing.Presence
