import Towing.Money.Frames
import Towing.Trips.Shifts

namespace Towing.Money.World

variable {w : World} {l : Step}

theorem run_now (h : l.table ≠ .clock) : (w.run l).now = w.now := by
  by_cases hf : l.table = .fares
  · exact (run_fares hf).1.now
  · cases l with
    | transition b target patch on =>
      simp only [run, transition]
      split <;> rfl
    | createPayment p =>
      simp only [run, createPayment]
      split <;> rfl
    | setOrderRef | markCaptured =>
      simp only [run, setOrderRef, markCaptured]
      split <;> rfl
    | insertRefund r seen =>
      simp only [run, createRefund]
      split <;> rfl
    | releaseCoupon b => exact (releaseForBooking_same b).now
    | alarm | insertWebhookEvent | acquireLock | placeBooking =>
      simp only [run]
      split <;> rfl
    | tick => exact absurd rfl h
    | applyCoupon | removeCoupon => exact absurd rfl hf
    | _ => rfl

theorem le_now_run (w : World) (l : Step) : w.now ≤ (w.run l).now := by
  by_cases h : l.table = .clock
  · cases l with
    | tick ms => exact Nat.le_add_right w.now ms
    | _ => cases h
  · exact (run_now h).ge

end Towing.Money.World

namespace Towing.Trips.World

open Towing.Money

variable {w : World} {b : ℕ} {l : Step} {m : Move}

theorem now_move : (w.move m).now = w.now := by
  unfold move
  split
  · simp only [now, setRow]
    split_ifs
    · exact (Money.World.releaseForBooking_same _).now
    · rfl
  · rfl

theorem now_place {p : NewBooking} {w' : World} (h : w.place b p = .ok w') : w'.now = w.now := by
  obtain ⟨-, -, discount, couponId, money, -, hsame, -, rfl⟩ := place_ok h
  exact hsame.now

/-- Only the clock itself moves the clock. -/
theorem run_now (h : ∀ l', l ≠ .money l') : (w.run l).now = w.now := by
  cases l with
  | money l' => exact absurd rfl (h l')
  | create c p =>
    cases hp : w.place c p with
    | error e => simp [run, hp, Except.toOption]
    | ok w' => simpa [run, hp, Except.toOption] using now_place hp
  | move m => exact now_move
  | accept c d suspended =>
    cases hp : w.acceptOffer c d suspended with
    | error e => simp [run, hp, Except.toOption]
    | ok w' =>
      obtain ⟨driver, -, -, -, rfl⟩ := acceptOffer_ok hp
      simp only [run, hp, Except.toOption, Option.getD_some]
      exact now_move
  | openDispute c openedFrom =>
    simp only [run]
    split_ifs
    · rfl
    · exact now_move
  | takeSearchLock | takeOfferLock | enqueue =>
    simp only [run]
    split_ifs <;> rfl
  | _ => rfl

theorem le_now_run (w : World) (l : Step) : w.now ≤ (w.run l).now := by
  cases l with
  | money l' => exact Money.World.le_now_run w.money l'
  | _ => exact (run_now fun l' h ↦ by cases h).ge

end Towing.Trips.World
