import Towing.Handset.PingBuffer

namespace Towing.Process

variable {ℓ ℓ' σ σ' ε α : Type} [Store ℓ σ] {Φ : List (Event ℓ σ) → ℓ → Prop} {pre past : List (Event ℓ σ)}

/-- A request that heeds only what it has itself done does so after anything else. -/
theorem Proc.Heeds.after {Q : Except ε α → List (Event ℓ σ) → Prop} {p : Proc ℓ σ ε α}
    (h : p.Heeds (fun past ↦ Φ (pre ++ past)) (fun r past ↦ Q r (pre ++ past)) past) : p.Heeds Φ Q (pre ++ past) := by
  induction p generalizing past with
  | done r => exact h
  | step l next ih =>
    refine ⟨h.1, fun s ↦ ?_⟩
    rw [List.append_assoc]
    exact ih s (h.2 s)

/-- Nothing that has been done is forgotten. -/
theorem Proc.Heeds.of_steps {P : ℓ → Prop} {p : Proc ℓ σ ε α} (h : p.Only P) (hP : ∀ past l, P l → Φ past l) :
    p.Heeds Φ (fun _ past' ↦ past ⊆ past') past := by
  refine Proc.Heeds.of_only (R := fun past' ↦ past ⊆ past') h (fun past l _ hl ↦ hP past l hl) (fun past' e hpast ↦ ?_)
    (List.Subset.refl past)
  exact List.Subset.trans hpast (List.subset_append_left past' [e])

end Towing.Process

namespace Towing.Handset

open Towing.Process Towing.Presence
open Towing.Money (Failure)

/-- A ping that is sent is one of the batch. -/
def Sends (d : ℕ) (pings : List DriverLocationPing) : Presence.Step → Prop
  | .applyPing d' p => d' = d ∧ p ∈ pings
  | _ => True

/-- A ping has been accepted with the number. -/
def Accepted (d seq : ℕ) (past : List (Event Presence.Step Presence.World)) : Prop :=
  ∃ e ∈ past, ∃ p, e.label = .applyPing d p ∧ e.before.takes d p = true ∧ p.seq = seq

/-- The number that a batch is answered with is that of a ping it has had accepted, or the
one read from the hash. -/
def Answers (d seq : ℕ) (past : List (Event Presence.Step Presence.World)) : Prop :=
  Accepted d seq past ∨ ∃ e ∈ past, e.label = .currentSeq d ∧ e.before.currentSeq d = seq

variable {d task : ℕ} {pings : List DriverLocationPing} {past past' : List (Event Presence.Step Presence.World)}

theorem Accepted.mono {seq : ℕ} (h : Accepted d seq past) (hsub : past ⊆ past') : Accepted d seq past' := by
  obtain ⟨e, he, hp⟩ := h
  exact ⟨e, hsub he, hp⟩

theorem takes_of_applied {w : Presence.World} {p : DriverLocationPing} {seq : ℕ} {identity : DriverPresenceIdentity}
    (h : w.applyPing d p = .applied seq identity) : w.takes d p = true := by simp [Presence.World.takes, h]

theorem only_rehydrate : (LocationIngestService.rehydrate d).Only (Sends d pings) := by
  refine ⟨trivial, fun s ↦ ?_⟩
  simp only [Proc.bind_ok]
  cases s.drivers d with
  | none => trivial
  | some row =>
    dsimp only
    cases row.zoneId with
    | none => trivial
    | some zoneId =>
      dsimp only
      split_ifs
      · exact ⟨trivial, fun _ ↦ trivial⟩
      · trivial

theorem only_conclude (p : DriverLocationPing) (result : ApplyPingResult) :
    (LocationIngestService.conclude task d p result).Only (Sends d pings) := by
  cases result with
  | applied seq identity =>
    refine Proc.Only.bind ⟨trivial, fun _ ↦ ?_⟩ fun _ ↦ ⟨trivial, fun _ ↦ trivial⟩
    exact Proc.Only.when ⟨trivial, fun _ ↦ trivial⟩
  | discarded seq => trivial
  | unknown => trivial

/-- What a ping that is applied comes to. -/
theorem heeds_conclude {w : Presence.World} {p : DriverLocationPing}
    {e : Event Presence.Step Presence.World} (he : e ∈ past) (hl : e.label = .applyPing d p)
    (hresult : e.before.applyPing d p = w.applyPing d p) :
    (LocationIngestService.conclude task d p (w.applyPing d p)).Heeds (fun _ ↦ Sends d pings)
      (fun r past' ↦ past ⊆ past' ∧ (r = .ok true → Accepted d p.seq past')) past := by
  cases happlied : w.applyPing d p with
  | applied seq identity =>
    refine (Proc.Heeds.of_steps (only_conclude p _) fun _ _ h ↦ h).mono (fun _ _ h ↦ h) fun r past' hsub ↦ ⟨hsub, fun _ ↦ ?_⟩
    exact ⟨e, hsub he, p, hl, takes_of_applied (hresult.trans happlied), rfl⟩
  | discarded seq => exact ⟨List.Subset.refl _, fun heq ↦ (by cases heq)⟩
  | unknown => exact ⟨List.Subset.refl _, fun heq ↦ (by cases heq)⟩

/-- The script, and what follows when it has come back with its answer. -/
theorem heeds_reply {p : DriverLocationPing} {k : ApplyPingResult → Presence.Request Bool} {w : Presence.World}
    (hk : (k (w.applyPing d p)).Heeds (fun _ ↦ Sends d pings)
      (fun r past' ↦ past ⊆ past' ∧ (r = .ok true → Accepted d p.seq past')) past) :
    ((Proc.done (PresenceStore.reply w d p)).bind k).Heeds (fun _ ↦ Sends d pings)
      (fun r past' ↦ past ⊆ past' ∧ (r = .ok true → Accepted d p.seq past')) past := by
  rcases reply_cases w d p with hreply | ⟨-, -, e, hreply⟩
  · rw [hreply]
    exact hk
  · rw [hreply]
    exact ⟨List.Subset.refl _, fun heq ↦ (by cases heq)⟩

theorem heeds_applyOne {p : DriverLocationPing} (hp : p ∈ pings) :
    (LocationIngestService.applyOne task d p).Heeds (fun _ ↦ Sends d pings)
      (fun r past' ↦ past ⊆ past' ∧ (r = .ok true → Accepted d p.seq past')) past := by
  refine ⟨⟨rfl, hp⟩, fun w ↦ ?_⟩
  have hconcluded : (LocationIngestService.conclude task d p (w.applyPing d p)).Heeds (fun _ ↦ Sends d pings)
      (fun r past' ↦ past ++ [⟨.applyPing d p, w, Store.commit (Presence.Step.applyPing d p) w⟩] ⊆ past' ∧
        (r = .ok true → Accepted d p.seq past'))
      (past ++ [⟨.applyPing d p, w, Store.commit (Presence.Step.applyPing d p) w⟩]) :=
    heeds_conclude List.mem_concat_self rfl rfl
  have hgrows {r : Except Failure Bool} {past' : List (Event Presence.Step Presence.World)}
      {e : Event Presence.Step Presence.World} (h : past ++ [e] ⊆ past' ∧ (r = .ok true → Accepted d p.seq past')) :
      past ⊆ past' ∧ (r = .ok true → Accepted d p.seq past') :=
    ⟨List.Subset.trans (List.subset_append_left _ _) h.1, h.2⟩
  refine (heeds_reply ?_).mono (fun _ _ h ↦ h) fun _ _ h ↦ hgrows h
  cases happlied : w.applyPing d p with
  | applied seq identity =>
    rw [happlied] at hconcluded
    exact hconcluded
  | discarded seq =>
    rw [happlied] at hconcluded
    exact hconcluded
  | unknown =>
    dsimp only
    refine (Proc.Heeds.of_steps only_rehydrate fun _ _ h ↦ h).bind (fun rehydrated past' hsub ↦ ?_) fun e past' hsub ↦ ?_
    · split_ifs
      · refine ⟨⟨rfl, hp⟩, fun w' ↦ ?_⟩
        refine (heeds_reply (heeds_conclude List.mem_concat_self rfl rfl)).mono (fun _ _ h ↦ h) fun _ _ h ↦ ?_
        exact ⟨List.Subset.trans hsub (List.Subset.trans (List.subset_append_left _ _) h.1), h.2⟩
      · exact ⟨hsub, fun heq ↦ (by cases heq)⟩
    · exact ⟨hsub, fun heq ↦ (by cases heq)⟩

theorem heeds_applyAll {rest : List DriverLocationPing} (hrest : ∀ p ∈ rest, p ∈ pings) {sofar : DriverLocationAccepted}
    (hsofar : sofar.accepted ≠ 0 → Accepted d sofar.seq past) :
    (LocationIngestService.applyAll task d rest sofar).Heeds (fun _ ↦ Sends d pings)
      (fun r past' ↦ ∀ a, r = .ok a → a.accepted ≠ 0 → Accepted d a.seq past') past := by
  induction rest generalizing sofar past with
  | nil =>
    intro a heq
    cases heq
    exact hsofar
  | cons p rest ih =>
    have hp := hrest p List.mem_cons_self
    refine (heeds_applyOne hp).bind (fun accepted past' h ↦ ?_) fun e past' h ↦ (by simp)
    refine ih (fun q hq ↦ hrest q (List.mem_cons_of_mem _ hq)) fun hne ↦ ?_
    cases accepted with
    | true => exact h.2 rfl
    | false => exact (hsofar hne).mono h.1

theorem heeds_ingest : (LocationIngestService.ingest task d pings).Heeds (fun _ ↦ Sends d pings)
    (fun r past' ↦ ∀ a, r = .ok a → Answers d a.seq past') [] := by
  refine (heeds_applyAll (fun _ hp ↦ hp) (fun hne ↦ absurd rfl hne)).bind (fun counted past h ↦ ?_) fun e past h ↦ (by simp)
  split_ifs with hzero
  · refine ⟨trivial, fun w a heq ↦ ?_⟩
    cases heq
    exact .inr ⟨_, List.mem_concat_self, rfl, rfl⟩
  · intro a heq
    cases heq
    exact .inl (h counted rfl hzero)

end Towing.Handset
