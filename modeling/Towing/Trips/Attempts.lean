import Towing.Trips.Footprints
import Towing.Trips.Shifts

namespace Towing.Trips

open Towing.Process Towing.Money

/-- The row a step creates as `offered`, for the pair. -/
def Step.asks (b d : ℕ) : Step → Bool
  | .insertAttempt a => World.isOffered b d a
  | _ => false

def Step.inserted : Step → List Attempt
  | .insertAttempt a => [a]
  | _ => []

/-- The outcome an attempt has after the step. -/
def Step.outcome (w : World) (a : Attempt) : Step → AttemptOutcome
  | .resolveOffer b d outcome => if World.isOffered b d a then outcome else a.outcome
  | .accept b d suspended =>
    if World.isOffered b d a && (w.acceptOffer b d suspended).isOk then .accepted else a.outcome
  | .revokeOutstanding b d =>
    if a.bookingId = b ∧ a.outcome = .offered ∧ a.driverId ≠ d then .revoked else a.outcome
  | _ => a.outcome

namespace World

variable {w : World} {b d : ℕ}

/-- Everything that a step does to `dispatch_attempts`. -/
theorem attempts_run (l : Step) :
    (w.run l).attempts = (w.attempts.map fun a ↦ { a with outcome := l.outcome w a }) ++ l.inserted := by
  have hkeep : w.attempts = (w.attempts.map fun a ↦ a) ++ [] := by simp
  cases l with
  | create c p =>
    refine Eq.trans ?_ hkeep
    cases hp : w.place c p with
    | error e => simp [run, hp, Except.toOption]
    | ok w' => simp [run, hp, Except.toOption, attempts_place hp]
  | move m => exact attempts_move.trans hkeep
  | accept c d' suspended =>
    simp only [Step.inserted, List.append_nil]
    cases hp : w.acceptOffer c d' suspended with
    | error e => simp [run, hp, Except.toOption, Step.outcome, Except.isOk, Except.toBool]
    | ok w' =>
      obtain ⟨driver, -, -, -, rfl⟩ := acceptOffer_ok hp
      simp only [run, hp, Except.toOption, Option.getD_some, attempts_move, resolveOffer]
      refine List.map_congr_left fun a _ ↦ ?_
      simp only [Step.outcome, hp, Except.isOk, Except.toBool, Bool.and_true]
      split_ifs <;> rfl
  | resolveOffer c d' outcome =>
    simp only [Step.inserted, List.append_nil]
    refine List.map_congr_left fun a _ ↦ ?_
    simp only [Step.outcome]
    split_ifs <;> rfl
  | revokeOutstanding c d' =>
    simp only [Step.inserted, List.append_nil]
    refine List.map_congr_left fun a _ ↦ ?_
    simp only [Step.outcome]
    split_ifs <;> rfl
  | insertAttempt a => simp [run, Step.outcome, Step.inserted]
  | openDispute c openedFrom =>
    refine Eq.trans ?_ hkeep
    simp only [run]
    split_ifs
    · simp
    · simp [attempts_move]
  | takeSearchLock | takeOfferLock | enqueue =>
    refine Eq.trans ?_ hkeep
    simp only [run]
    split_ifs <;> simp
  | _ => exact hkeep

/-- Whether `select` leaves the driver out: they have an attempt on the booking. -/
def asked (w : World) (b d : ℕ) : Bool := w.attempts.any fun a ↦ a.bookingId = b && a.driverId = d

theorem asked_run (l : Step) (h : w.asked b d) : (w.run l).asked b d := by
  obtain ⟨a, ha, hpair⟩ := List.any_eq_true.mp h
  rw [asked, attempts_run, List.any_append, Bool.or_eq_true]
  exact .inl (List.any_eq_true.mpr ⟨_, List.mem_map_of_mem ha, hpair⟩)

theorem asked_of_asks {l : Step} (h : l.asks b d = true) : (w.run l).asked b d := by
  cases l with
  | insertAttempt a =>
    simp only [Step.asks, isOffered, Bool.and_eq_true] at h
    rw [asked, attempts_run, List.any_append, Bool.or_eq_true]
    exact .inr (by simpa [Step.inserted] using h.1)
  | _ => cases h

/-- The open offers of the pair. -/
def openOffers (w : World) (b d : ℕ) : ℕ := w.attempts.countP (isOffered b d)

/-- An attempt that is open after a step was open before. -/
theorem isOffered_outcome {l : Step} {a : Attempt}
    (h : isOffered b d { a with outcome := l.outcome w a } = true) : isOffered b d a = true := by
  simp only [isOffered, Bool.and_eq_true, decide_eq_true_eq] at h ⊢
  refine ⟨h.1, ?_⟩
  obtain ⟨-, houtcome⟩ := h
  unfold Step.outcome at houtcome
  split at houtcome
  · split_ifs at houtcome with ho
    · simp only [isOffered, Bool.and_eq_true, decide_eq_true_eq] at ho
      exact ho.2
    · exact houtcome
  · split_ifs at houtcome
    exact houtcome
  · split_ifs at houtcome
    exact houtcome
  · exact houtcome

theorem openOffers_run (l : Step) :
    (w.run l).openOffers b d ≤ w.openOffers b d + if l.asks b d then 1 else 0 := by
  have hold : (w.attempts.map fun a ↦ { a with outcome := l.outcome w a }).countP (isOffered b d) ≤
      w.openOffers b d := by
    rw [List.countP_map]
    exact List.countP_mono_left fun a _ h ↦ isOffered_outcome h
  have hnew : l.inserted.countP (isOffered b d) = if l.asks b d then 1 else 0 := by
    cases l with
    | insertAttempt a => cases h : isOffered b d a <;> simp [Step.inserted, Step.asks, h]
    | _ => rfl
  rw [openOffers, attempts_run, List.countP_append, hnew]
  omega

end World

end Towing.Trips
