import Mathlib.Algebra.Ring.Int.Defs
import Mathlib.Order.Lattice

namespace Towing.Process

/-- A key of a store with expiries: its value and, if one is set, the instant at which it goes. -/
structure Key where
  value : ℕ
  expireAt : Option ℕ
  deriving DecidableEq, Repr

namespace Key

variable (now : ℕ) (k : Option Key)

def live : Option Key := k.filter fun k ↦ k.expireAt.all (now < ·)

/-- What is left of the key: `-2` without the key, `-1` where it has no expiry. -/
def pttl : ℤ :=
  match live now k with
  | none => -2
  | some k =>
    match k.expireAt with
    | none => -1
    | some t => t - now

def get : ℕ := (live now k).elim 0 value

/-- A key that is not there is counted from nothing and has no expiry. -/
def incr : Key :=
  match live now k with
  | none => ⟨1, none⟩
  | some k => { k with value := k.value + 1 }

def expire (ttl : ℕ) : Option Key := (live now k).map fun k ↦ { k with expireAt := some (now + ttl) }

/-- Every key that is there goes at some instant. -/
def Armed : Prop := ∀ key ∈ k, key.expireAt ≠ none

variable {now k} {v t ttl : ℕ}

theorem live_none : live now none = none := rfl

theorem live_of_lt (h : now < t) : live now (some ⟨v, some t⟩) = some ⟨v, some t⟩ := by
  simp [live, h]

theorem live_of_le (h : t ≤ now) : live now (some ⟨v, some t⟩) = none := by
  simp [live, Nat.not_lt.mpr h]

theorem live_immortal : live now (some ⟨v, none⟩) = some ⟨v, none⟩ := by
  simp [live]

theorem live_mem {key : Key} (h : live now k = some key) : k = some key :=
  (Option.filter_eq_some_iff.mp h).1

theorem pttl_of_lt (h : now < t) : pttl now (some ⟨v, some t⟩) = t - now := by
  simp [pttl, live_of_lt h]

theorem pttl_pos_iff : 0 < pttl now k ↔ ∃ v t, k = some ⟨v, some t⟩ ∧ now < t := by
  constructor
  · intro h
    cases hlive : live now k with
    | none => simp [pttl, hlive] at h
    | some key =>
      obtain ⟨value, expireAt⟩ := key
      cases expireAt with
      | none => simp [pttl, hlive] at h
      | some t =>
        refine ⟨value, t, live_mem hlive, ?_⟩
        simp only [pttl, hlive] at h
        omega
  · rintro ⟨v, t, rfl, h⟩
    rw [pttl_of_lt h]
    omega

theorem expire_of_lt (h : now < t) :
    expire now (some ⟨v, some t⟩) ttl = some ⟨v, some (now + ttl)⟩ := by
  simp [expire, live_of_lt h]

theorem expire_immortal : expire now (some ⟨v, none⟩) ttl = some ⟨v, some (now + ttl)⟩ := by
  simp [expire, live_immortal]

theorem incr_of_lt (h : now < t) : incr now (some ⟨v, some t⟩) = ⟨v + 1, some t⟩ := by
  simp [incr, live_of_lt h]

theorem incr_of_gone (h : live now k = none) : incr now k = ⟨1, none⟩ := by
  simp [incr, h]

/-- A key that has gone stays gone. -/
theorem gone_mono {later : ℕ} (h : live now k = none) (hle : now ≤ later) : live later k = none := by
  cases k with
  | none => rfl
  | some key =>
    obtain ⟨value, expireAt⟩ := key
    cases expireAt with
    | none => simp [live_immortal] at h
    | some t =>
      apply live_of_le
      by_contra hlt
      rw [live_of_lt (by omega)] at h
      exact absurd h (by simp)

theorem pttl_of_gone (h : live now k = none) : pttl now k = -2 := by
  simp [pttl, h]

theorem Armed.gone (ha : Armed k) (h : ¬0 < pttl now k) : live now k = none := by
  cases hlive : live now k with
  | none => rfl
  | some key =>
    obtain ⟨value, expireAt⟩ := key
    have hk := live_mem hlive
    cases expireAt with
    | none => exact absurd rfl (ha _ hk)
    | some t =>
      exfalso
      apply h
      rw [pttl_pos_iff]
      refine ⟨value, t, hk, ?_⟩
      by_contra hle
      rw [hk, live_of_le (by omega)] at hlive
      exact absurd hlive (by simp)

theorem armed_none : Armed none := fun _ h ↦ absurd h (by simp)

theorem armed_some : Armed (some ⟨v, some t⟩) := by
  intro key h
  rw [Option.mem_some_iff] at h
  subst h
  simp

end Key

end Towing.Process
