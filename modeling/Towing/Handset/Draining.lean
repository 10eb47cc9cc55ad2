import Towing.Handset.Reconciled
import Towing.Presence.LastFix

namespace Towing.Process

variable {ℓ σ ε α β : Type} [Store ℓ σ]

theorem Proc.exec_follow (p : Proc ℓ σ ε α) (k : Except ε α → Proc ℓ σ ε β) (s : σ) :
    (p.follow k).exec s = (k (p.exec s).1).exec (p.exec s).2 := by
  induction p generalizing s with
  | done r => rfl
  | step l next ih => exact ih s (Store.commit l s)

end Towing.Process

namespace Towing.Handset

open Towing.Process Towing.Presence
open Towing.Money (Failure)

variable {w : Presence.World} {d : ℕ} {p : DriverLocationPing}

/-- The driver has a hash, or is one for whom it is rebuilt. -/
def Serves (w : Presence.World) (d : ℕ) : Prop :=
  (w.hash d).isSome ∨
    ∃ row, w.drivers d = some row ∧ row.zoneId.isSome ∧ row.isOnline = true ∧ row.standing.kycApproved = true

/-- A ping has been answered for, and the fix in the hash is no older than it. -/
structure Concluded (w w' : Presence.World) (d : ℕ) (p : DriverLocationPing) (accepted : Bool) : Prop where
  covered : ∃ q, w'.fix d = some q ∧ p.seq ≤ q.seq
  stored : accepted = true → w'.fix d = some p
  discarded : accepted = false → w'.fix d = w.fix d
  forward : ∀ q, w.fix d = some q → ∃ q', w'.fix d = some q' ∧ q.seq ≤ q'.seq

/-- The steps that touch nothing of the fixes. -/
def Beside (l : Presence.Step) : Prop := ∀ (w : Presence.World) (d : ℕ), (w.run l).fix d = w.fix d

theorem beside_publish (d : ℕ) (p : DriverLocationPing) (identity : DriverPresenceIdentity) :
    Beside (.publish d p identity) := fun _ _ ↦ rfl

theorem beside_publishFleet (d : ℕ) (p : DriverLocationPing) (identity : DriverPresenceIdentity) :
    Beside (.publishFleet d p identity) := fun _ _ ↦ rfl

theorem beside_buffer (task d : ℕ) (sample : FlushSample) : Beside (.buffer task d sample) := by
  intro w d'
  simp only [Presence.World.fix, hash_run, Presence.World.hashAfter]

theorem exec_beside {α : Type} {r : Presence.Request α} (h : r.Only Beside) (w : Presence.World) (d : ℕ) :
    (r.exec w).2.fix d = w.fix d := by
  induction r generalizing w with
  | done r => rfl
  | step l next ih =>
    rw [Proc.exec, ih w (h.2 w)]
    exact h.1 w d

def Accepts : ApplyPingResult → Bool
  | .applied _ _ => true
  | _ => false

/-- What follows the script leaves the fixes alone. -/
theorem exec_conclude (task d : ℕ) (p : DriverLocationPing) (w : Presence.World) (result : ApplyPingResult) :
    ∃ w', (LocationIngestService.conclude task d p result).exec w = (.ok (Accepts result), w') ∧ w'.fix d = w.fix d := by
  cases result with
  | applied seq identity =>
    have honly : (LocationIngestService.conclude task d p (.applied seq identity)).Only Beside := by
      refine Proc.Only.bind ⟨beside_publish _ _ _, fun _ ↦ ?_⟩ fun _ ↦ ⟨beside_buffer _ _ _, fun _ ↦ trivial⟩
      exact Proc.Only.when ⟨beside_publishFleet _ _ _, fun _ ↦ trivial⟩
    have hok : ((LocationIngestService.conclude task d p (.applied seq identity)).exec w).1 = .ok true := by
      by_cases hfleet : identity.fleetId.isSome ∧ identity.truckId.isSome
      · simp [LocationIngestService.conclude, LocationIngestService.fanOut, LocationFlushService.buffer,
          Proc.exec_bind, Proc.when_pos hfleet]
      · simp [LocationIngestService.conclude, LocationIngestService.fanOut, LocationFlushService.buffer,
          Proc.exec_bind, Proc.when_neg hfleet]
    exact ⟨_, Prod.ext hok rfl, exec_beside honly w d⟩
  | discarded seq => exact ⟨w, rfl, rfl⟩
  | unknown => exact ⟨w, rfl, rfl⟩

/-- A ping that the script has failed on is stored, and is newer than what was there. -/
structure Failed (w w' : Presence.World) (d : ℕ) (p : DriverLocationPing) : Prop where
  off : p.toGeoPoint.onMap = false
  stored : w'.fix d = some p
  newer : ∀ q, w.fix d = some q → q.seq < p.seq

/-- The script on a hash that is there, and what follows it. -/
theorem exec_applyPing (task : ℕ) (p : DriverLocationPing) (hhash : (w.hash d).isSome) :
    (∃ accepted w', ((PresenceStore.applyPing d p).bind (LocationIngestService.conclude task d p)).exec w =
      (.ok accepted, w') ∧ Concluded w w' d p accepted) ∨
    ∃ e w', ((PresenceStore.applyPing d p).bind (LocationIngestService.conclude task d p)).exec w = (.error e, w') ∧
      Failed w w' d p := by
  obtain ⟨hash, hhash⟩ := Option.isSome_iff_exists.mp hhash
  have hstored : w.fix d = hash.fix := fix_of_hash hhash
  have hexec : ((PresenceStore.applyPing d p).bind (LocationIngestService.conclude task d p)).exec w =
      ((Proc.done (PresenceStore.reply w d p)).bind (LocationIngestService.conclude task d p)).exec
        (w.run (.applyPing d p)) := rfl
  rw [hexec]
  rcases reply_cases w d p with hreply | ⟨htakes, hoff, e, hreply⟩
  · left
    rw [hreply, Proc.bind_ok]
    obtain ⟨w', hexec, hfix⟩ := exec_conclude task d p (w.run (.applyPing d p)) (w.applyPing d p)
    refine ⟨_, w', hexec, ?_⟩
    cases htakes : w.takes d p with
    | true =>
      have hnow : w'.fix d = some p := hfix.trans (fix_store htakes)
      obtain ⟨_, hhash', hnewer⟩ := takes_iff.mp htakes
      obtain rfl := Option.some.inj (hhash.symm.trans hhash')
      refine ⟨⟨p, hnow, Nat.le_refl _⟩, fun _ ↦ hnow, fun hfalse ↦ ?_, fun q hq ↦ ⟨p, hnow, ?_⟩⟩
      · unfold Presence.World.takes at htakes
        cases hresult : w.applyPing d p <;> simp [hresult, Accepts] at htakes hfalse
      · exact Nat.le_of_lt (hnewer q (hstored.symm.trans hq))
    | false =>
      rw [run_applyPing_refused htakes] at hfix
      obtain ⟨q, hq, hle⟩ : ∃ q, hash.fix = some q ∧ p.seq ≤ q.seq := by
        by_contra hno
        refine Bool.false_ne_true (htakes.symm.trans (takes_iff.mpr ⟨hash, hhash, fun q hq ↦ ?_⟩))
        exact Nat.lt_of_not_le fun hle ↦ hno ⟨q, hq, hle⟩
      refine ⟨⟨q, hfix.trans (hstored.trans hq), hle⟩, fun htrue ↦ ?_, fun _ ↦ hfix, fun q' hq' ↦ ⟨q', hfix.trans hq', Nat.le_refl _⟩⟩
      unfold Presence.World.takes at htakes
      cases hresult : w.applyPing d p <;> simp [hresult, Accepts] at htakes htrue
  · right
    rw [hreply, Proc.bind_error]
    obtain ⟨_, hhash', hnewer⟩ := takes_iff.mp htakes
    obtain rfl := Option.some.inj (hhash.symm.trans hhash')
    exact ⟨e, _, rfl, hoff, fix_store htakes, fun q hq ↦ hnewer q (hstored.symm.trans hq)⟩

/-- Whose hash can be rebuilt has one after it, with the fix there was. -/
theorem exec_rehydrate (hnone : w.hash d = none) (hserves : Serves w d) :
    ∃ w', (LocationIngestService.rehydrate d).exec w = (.ok true, w') ∧ (w'.hash d).isSome ∧ w'.fix d = w.fix d := by
  rcases hserves with hsome | ⟨row, hrow, hzone, honline, happroved⟩
  · rw [hnone] at hsome
    cases hsome
  · obtain ⟨zoneId, hzone⟩ := Option.isSome_iff_exists.mp hzone
    refine ⟨w.run (.putIdentity d ⟨zoneId, row.standing.fleetId, row.standing.truckId⟩ row.standing.vehicleClass
      row.standing.longDistance), ?_, ?_, ?_⟩
    · simp [LocationIngestService.rehydrate, DriverPresenceRepo.identity, PresenceStore.putIdentity, Proc.exec_bind,
        Store.commit, Presence.World.run, hrow, hzone, honline, happroved]
    · rw [hash_run, Presence.World.hashAfter, if_pos rfl]
      rfl
    · rw [Presence.World.fix, hash_run, Presence.World.hashAfter, if_pos rfl, Option.bind_some]

theorem exec_applyOne (task : ℕ) (p : DriverLocationPing) (hserves : Serves w d) :
    (∃ accepted w', (LocationIngestService.applyOne task d p).exec w = (.ok accepted, w') ∧
      Concluded w w' d p accepted) ∨
    ∃ e w', (LocationIngestService.applyOne task d p).exec w = (.error e, w') ∧ Failed w w' d p := by
  cases hhash : w.hash d with
  | some hash =>
    have hsame : (LocationIngestService.applyOne task d p).exec w =
        ((PresenceStore.applyPing d p).bind (LocationIngestService.conclude task d p)).exec w := by
      change ((Proc.done (PresenceStore.reply w d p)).bind _).exec (w.run (.applyPing d p)) =
        ((Proc.done (PresenceStore.reply w d p)).bind _).exec (w.run (.applyPing d p))
      rcases reply_cases w d p with hreply | ⟨-, -, e, hreply⟩
      · rw [hreply, Proc.bind_ok, Proc.bind_ok]
        cases hresult : w.applyPing d p with
        | applied seq identity => rfl
        | discarded seq => rfl
        | unknown =>
          unfold Presence.World.applyPing at hresult
          rw [hhash] at hresult
          dsimp only at hresult
          cases hfix : hash.fix with
          | none => simp [hfix] at hresult
          | some q =>
            simp only [hfix] at hresult
            split_ifs at hresult
      · rw [hreply, Proc.bind_error, Proc.bind_error]
    rw [hsame]
    exact exec_applyPing task p (by rw [hhash, Option.isSome_some])
  | none =>
    have hunknown : w.applyPing d p = .unknown := by simp [Presence.World.applyPing, hhash]
    have hsame : w.run (.applyPing d p) = w := run_applyPing_refused (by simp [Presence.World.takes, hunknown])
    have hreply : PresenceStore.reply w d p = .ok .unknown := by simp [PresenceStore.reply, hunknown]
    have hquery : (PresenceStore.applyPing d p).exec w = (.ok .unknown, w) := Prod.ext hreply hsame
    obtain ⟨w₁, hrehydrated, hthere, hfix⟩ := exec_rehydrate hhash hserves
    have hexec : (LocationIngestService.applyOne task d p).exec w =
        ((PresenceStore.applyPing d p).bind (LocationIngestService.conclude task d p)).exec w₁ := by
      change ((PresenceStore.applyPing d p).bind _).exec w = _
      rw [Proc.exec_next hquery]
      change ((LocationIngestService.rehydrate d).bind _).exec w = _
      rw [Proc.exec_next hrehydrated]
      rfl
    rw [hexec]
    refine (exec_applyPing task p hthere).imp ?_ ?_
    · rintro ⟨accepted, w', hexec, hconcluded⟩
      exact ⟨accepted, w', hexec, hconcluded.covered, hconcluded.stored, fun h ↦ (hconcluded.discarded h).trans hfix,
        fun q hq ↦ hconcluded.forward q (hfix.trans hq)⟩
    · rintro ⟨e, w', hexec, hfailed⟩
      exact ⟨e, w', hexec, hfailed.off, hfailed.stored, fun q hq ↦ hfailed.newer q (hfix.trans hq)⟩

/-- What a batch has come to on the way: nothing yet, or its last ping accepted is the fix
in the hash. -/
structure Counted (w : Presence.World) (d : ℕ) (sofar : DriverLocationAccepted) : Prop where
  serves : Serves w d
  last : sofar.accepted ≠ 0 → ∃ q, w.fix d = some q ∧ q.seq = sofar.seq

theorem exec_applyAll (task : ℕ) (pings : List DriverLocationPing) {sofar : DriverLocationAccepted}
    (hsofar : Counted w d sofar) :
    (∃ counted w', (LocationIngestService.applyAll task d pings sofar).exec w = (.ok counted, w') ∧ Counted w' d counted ∧
      (∀ q, w.fix d = some q → ∃ q', w'.fix d = some q' ∧ q.seq ≤ q'.seq) ∧
      ∀ p ∈ pings, ∃ q, w'.fix d = some q ∧ p.seq ≤ q.seq) ∨
    ∃ p ∈ pings, ∃ e w', (LocationIngestService.applyAll task d pings sofar).exec w = (.error e, w') ∧
      Failed w w' d p := by
  induction pings generalizing w sofar with
  | nil => exact .inl ⟨sofar, w, rfl, hsofar, fun q hq ↦ ⟨q, hq, Nat.le_refl _⟩, by simp⟩
  | cons p pings ih =>
    rcases exec_applyOne task p hsofar.serves with ⟨accepted, w₁, hone, hconcluded⟩ | ⟨e, w₁, hone, hfailed⟩
    · obtain ⟨q, hq, hle⟩ := hconcluded.covered
      obtain ⟨hash, hhash, -⟩ := hash_of_fix hq
      have hcounted : Counted w₁ d (if accepted then { sofar with accepted := sofar.accepted + 1, seq := p.seq }
          else { sofar with discarded := sofar.discarded + 1 }) := by
        refine ⟨.inl (by rw [hhash, Option.isSome_some]), fun hne ↦ ?_⟩
        cases accepted with
        | true => exact ⟨p, hconcluded.stored rfl, rfl⟩
        | false =>
          obtain ⟨q', hq', hseq⟩ := hsofar.last hne
          exact ⟨q', (hconcluded.discarded rfl).trans hq', hseq⟩
      rcases ih hcounted with ⟨counted, w', hrest, hdone, hforward, hcovered⟩ | ⟨p', hp', e, w', hrest, hfailed⟩
      · refine .inl ⟨counted, w', ?_, hdone, fun q₀ hq₀ ↦ ?_, fun p' hp' ↦ ?_⟩
        · change ((LocationIngestService.applyOne task d p).bind _).exec w = _
          rw [Proc.exec_next hone]
          exact hrest
        · obtain ⟨q₁, hq₁, hle₁⟩ := hconcluded.forward q₀ hq₀
          obtain ⟨q₂, hq₂, hle₂⟩ := hforward q₁ hq₁
          exact ⟨q₂, hq₂, Nat.le_trans hle₁ hle₂⟩
        · rcases List.mem_cons.mp hp' with rfl | hp'
          · obtain ⟨q₂, hq₂, hle₂⟩ := hforward q hq
            exact ⟨q₂, hq₂, Nat.le_trans hle hle₂⟩
          · exact hcovered p' hp'
      · refine .inr ⟨p', List.mem_cons_of_mem _ hp', e, w', ?_, hfailed.off, hfailed.stored, fun q₀ hq₀ ↦ ?_⟩
        · change ((LocationIngestService.applyOne task d p).bind _).exec w = _
          rw [Proc.exec_next hone]
          exact hrest
        · obtain ⟨q₁, hq₁, hle₁⟩ := hconcluded.forward q₀ hq₀
          exact Nat.lt_of_le_of_lt hle₁ (hfailed.newer q₁ hq₁)
    · refine .inr ⟨p, List.mem_cons_self, e, w₁, ?_, hfailed⟩
      change ((LocationIngestService.applyOne task d p).bind _).exec w = _
      rw [Proc.exec_stop hone]

/-- An undisturbed batch is answered with a number that none of it exceeds, unless the
script fails on one of its pings. -/
theorem exec_ingest (task : ℕ) (hserves : Serves w d) (pings : List DriverLocationPing) :
    (∃ a w', (LocationIngestService.ingest task d pings).exec w = (.ok a, w') ∧ ∀ p ∈ pings, p.seq ≤ a.seq) ∨
    ∃ p ∈ pings, ∃ e w', (LocationIngestService.ingest task d pings).exec w = (.error e, w') ∧ Failed w w' d p := by
  have hnone : Counted w d ⟨0, 0, 0⟩ := ⟨hserves, fun hne ↦ absurd rfl hne⟩
  rcases exec_applyAll task pings hnone with ⟨counted, w', hall, hcounted, -, hcovered⟩ | ⟨p, hp, e, w', hall, hfailed⟩
  · left
    have hexec : (LocationIngestService.ingest task d pings).exec w =
        (if counted.accepted = 0 then (PresenceStore.currentSeq d).bind fun seq ↦ .done (.ok { counted with seq })
          else .done (.ok counted)).exec w' := by
      change ((LocationIngestService.applyAll task d pings ⟨0, 0, 0⟩).bind _).exec w = _
      rw [Proc.exec_next hall]
      rfl
    rw [hexec]
    split_ifs with hzero
    · refine ⟨{ counted with seq := w'.currentSeq d }, w', rfl, fun p hp ↦ ?_⟩
      obtain ⟨q, hq, hle⟩ := hcovered p hp
      simpa only [Presence.World.currentSeq, hq, Option.map_some, Option.getD_some] using hle
    · refine ⟨counted, w', rfl, fun p hp ↦ ?_⟩
      obtain ⟨q, hq, hle⟩ := hcovered p hp
      obtain ⟨q', hq', hseq⟩ := hcounted.last hzero
      obtain rfl := Option.some.inj (hq.symm.trans hq')
      exact hseq ▸ hle
  · refine .inr ⟨p, hp, e, w', ?_, hfailed⟩
    change ((LocationIngestService.applyAll task d pings ⟨0, 0, 0⟩).bind _).exec w = _
    rw [Proc.exec_stop hall]

variable {s : System}

/-- What the server does for a flush, seen from the phone. -/
theorem exec_serve {α : Type} (session : ℕ) (r : Presence.Request α) (s : System) :
    ((serve session r).exec s).1 = (r.exec s.server).1 ∧ ((serve session r).exec s).2.phone = s.phone ∧
      ((serve session r).exec s).2.server = (r.exec s.server).2 := by
  induction r generalizing s with
  | done r => exact ⟨rfl, rfl, rfl⟩
  | step l next ih =>
    have hrun : (s.run (.server session l)).server = s.server.run l ∧ (s.run (.server session l)).phone = s.phone := by
      simp only [System.run]
      cases s.applies session l with
      | none => exact ⟨rfl, rfl⟩
      | some x => exact ⟨rfl, rfl⟩
    obtain ⟨hresult, hphone, hserver⟩ := ih s.server (s.run (.server session l))
    rw [hrun.1] at hresult hserver
    exact ⟨hresult, hphone.trans hrun.2, hserver⟩

/-- The flush has come back with an error, for a ping that it has had stored. -/
structure Refused (s s' : System) (d : ℕ) (x : Taken) : Prop where
  phone : s'.phone = { s.phone with flushes := s.phone.flushes + 1 }
  mem : x ∈ s.phone.buffer
  failed : Failed s.server s'.server d x.ping

/-- A flush of the driver online that nothing disturbs leaves nothing to send, or comes
back with the script's error. -/
theorem exec_flush (task : ℕ) (hidle : s.phone.awaiting = none) (hdriver : s.phone.driver = some d)
    (hserves : Serves s.server d) :
    ∃ s', (flush task).exec s = (.ok (), s') ∧ (s'.phone.buffer = [] ∨ ∃ x, Refused s s' d x) := by
  cases hbuffer : s.phone.buffer with
  | nil =>
    have hstarts : s.phone.starts = none := by simp [Phone.starts, hbuffer]
    refine ⟨s, ?_, .inl hbuffer⟩
    simp [flush, Proc.exec_bind, Store.commit, System.run, hstarts]
  | cons y rest =>
    have hstarts : s.phone.starts = some ⟨s.phone.flushes, s.phone.driver, s.phone.buffer⟩ := by
      simp [Phone.starts, hbuffer, hidle]
    have hquery : (Proc.query .startFlush (·.phone.starts) : Request (Option Batch)).exec s =
        (.ok (some ⟨s.phone.flushes, s.phone.driver, s.phone.buffer⟩), s.run .startFlush) := by
      rw [← hstarts]
      rfl
    have hstarted : (s.run .startFlush).server = s.server ∧ (s.run .startFlush).phone =
        { s.phone with awaiting := some s.phone.flushes, flushes := s.phone.flushes + 1 } := by
      simp only [System.run, hstarts]
      exact ⟨trivial, trivial⟩
    unfold flush
    rw [Proc.bind_eq, Proc.exec_next hquery]
    simp only [hdriver]
    rw [Proc.exec_follow]
    obtain ⟨hresult, hphone, hserver⟩ := exec_serve (Batch.session ⟨s.phone.flushes, some d, s.phone.buffer⟩)
      (LocationIngestService.ingest task d (s.phone.buffer.map (·.ping))) (s.run .startFlush)
    rw [hstarted.1] at hresult hserver
    rw [hstarted.2] at hphone
    generalize (serve (Batch.session ⟨s.phone.flushes, some d, s.phone.buffer⟩)
      (LocationIngestService.ingest task d (s.phone.buffer.map (·.ping)))).exec (s.run .startFlush) = served
      at hresult hphone hserver ⊢
    rcases exec_ingest task hserves (s.phone.buffer.map (·.ping)) with
      ⟨a, w', hingest, hle⟩ | ⟨p, hp, e, w', hingest, hfailed⟩
    · rw [hingest] at hresult
      rw [hresult]
      refine ⟨_, rfl, .inl ?_⟩
      simp only [Store.commit, System.run, hphone, if_true, Phone.clearBufferedUpTo]
      refine List.filter_eq_nil_iff.mpr fun x hx ↦ ?_
      have := hle x.ping (List.mem_map_of_mem hx)
      simp
      omega
    · rw [hingest] at hresult hserver
      rw [hresult]
      obtain ⟨x, hx, rfl⟩ := List.mem_map.mp hp
      refine ⟨_, rfl, .inr ⟨x, ?_, hx, ?_⟩⟩
      · simp only [Store.commit, System.run, hphone, if_true, hidle]
      · simp only [Store.commit, System.run, hphone, if_true, hserver]
        exact hfailed

/-- The flushes one after another. -/
def flushes (task : ℕ) : ℕ → Request Unit
  | 0 => flush task
  | n + 1 => do
    flush task
    flushes task n

/-- The fixes that a flush may still fail on. -/
def System.mayFail (s : System) (d : ℕ) (x : Taken) : Bool :=
  !x.ping.toGeoPoint.onMap && (s.server.fix d).all fun q ↦ q.seq < x.ping.seq

theorem Refused.fewer {s' : System} {x : Taken} (h : Refused s s' d x) :
    s'.phone.buffer.countP (s'.mayFail d) < s.phone.buffer.countP (s.mayFail d) := by
  have hless : ∀ y, s'.mayFail d y = true → s.mayFail d y = true := by
    intro y hy
    simp only [System.mayFail, Bool.and_eq_true, h.failed.stored, Option.all_some, decide_eq_true_eq] at hy
    simp only [System.mayFail, Bool.and_eq_true]
    refine ⟨hy.1, ?_⟩
    cases hq : s.server.fix d with
    | none => rfl
    | some q =>
      have := h.failed.newer q hq
      simp only [Option.all_some, decide_eq_true_eq]
      omega
  have hbefore : s.mayFail d x = true := by
    rw [System.mayFail, h.failed.off, Bool.not_false, Bool.true_and]
    cases hq : s.server.fix d with
    | none => rfl
    | some q => simpa using h.failed.newer q hq
  have hafter : s'.mayFail d x = false := by simp [System.mayFail, h.failed.stored]
  obtain ⟨pre, post, heq⟩ := List.append_of_mem h.mem
  have hpre := List.countP_mono_left (l := pre) fun y _ ↦ hless y
  have hpost := List.countP_mono_left (l := post) fun y _ ↦ hless y
  rw [h.phone, heq]
  simp only [List.countP_append, List.countP_cons, hbefore, hafter]
  simp
  omega

/-- The flushes of the driver online that nothing disturbs empty the buffer, after one
failure at most for every fix off the map. -/
theorem flushes_drain (task : ℕ) (hidle : s.phone.awaiting = none) (hdriver : s.phone.driver = some d)
    (hserves : Serves s.server d) : ∃ n ≤ s.phone.buffer.countP fun x ↦ !x.ping.toGeoPoint.onMap,
      ((flushes task n).exec s).1 = .ok () ∧ ((flushes task n).exec s).2.phone.buffer = [] := by
  have hdrain : ∃ n ≤ s.phone.buffer.countP (s.mayFail d),
      ((flushes task n).exec s).1 = .ok () ∧ ((flushes task n).exec s).2.phone.buffer = [] := by
    induction hcount : s.phone.buffer.countP (s.mayFail d) using Nat.strong_induction_on generalizing s with
    | _ k ih =>
      obtain ⟨s', hflush, hempty | ⟨x, hrefused⟩⟩ := exec_flush task hidle hdriver hserves
      · exact ⟨0, Nat.zero_le _, by rw [flushes, hflush], by rw [flushes, hflush]; exact hempty⟩
      · have hfewer := hrefused.fewer
        obtain ⟨hash, hhash, -⟩ := hash_of_fix hrefused.failed.stored
        obtain ⟨n, hn, hok, hempty⟩ := ih _ (hcount ▸ hfewer) (by rw [hrefused.phone]; exact hidle)
          (by rw [hrefused.phone]; exact hdriver) (.inl (by rw [hhash, Option.isSome_some])) rfl
        have hexec : (flushes task (n + 1)).exec s = (flushes task n).exec s' := Proc.exec_next hflush
        exact ⟨n + 1, by omega, by rw [hexec]; exact hok, by rw [hexec]; exact hempty⟩
  obtain ⟨n, hn, hdone⟩ := hdrain
  refine ⟨n, hn.trans (List.countP_mono_left fun x _ hx ↦ ?_), hdone⟩
  rw [System.mayFail, Bool.and_eq_true] at hx
  exact hx.1

end Towing.Handset
