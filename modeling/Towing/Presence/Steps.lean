import Towing.Presence.Services

namespace Towing.Presence

open Towing.Process

namespace World

variable (w : World)

/-- Whether the script stores the ping. -/
def takes (d : ℕ) (p : DriverLocationPing) : Bool :=
  match w.applyPing d p with
  | .applied _ _ => true
  | _ => false

def online (d : ℕ) : Bool := (w.drivers d).any (·.isOnline)

/-- The driver's hash after a step. -/
def hashAfter (d : ℕ) : Step → Option DriverHash
  | .putIdentity d' identity vehicleClass longDistance =>
    if d' = d then some ⟨identity, vehicleClass, longDistance, w.fix d, w.now + driverHashTtlMs⟩
    else w.hash d
  | .applyPing d' p =>
    if d' = d ∧ w.takes d p then
      (w.hash d).map fun h ↦ { h with fix := some p, expiresAt := w.now + driverHashTtlMs }
    else w.hash d
  | .del d' => if d' = d then none else w.hash d
  | .tick ms => (w.hash d).filter fun h ↦ w.now + ms < h.expiresAt
  | _ => w.hash d

/-- The driver's place in the zone's set after a step. -/
def memberAfter (z d : ℕ) : Step → Option GeoPoint
  | .applyPing d' p =>
    if d' = d ∧ w.takes d p ∧ w.zoneOf d = some z ∧ p.toGeoPoint.onMap then some p.toGeoPoint
    else w.member z d
  | .zrem z' ds => if z' = z ∧ d ∈ ds then none else w.member z d
  | _ => w.member z d

def onlineAfter (d : ℕ) : Step → Bool
  | .goOnline d' _ _ => if d' = d then (w.drivers d).isSome else w.online d
  | .goOffline d' => if d' = d then false else w.online d
  | _ => w.online d

end World

variable {w : World} {l : Step} {d z : ℕ} {p : DriverLocationPing} {h : DriverHash}

theorem online_iff : w.online d = true ↔ ∃ row, w.drivers d = some row ∧ row.isOnline = true := by
  rw [World.online]
  cases w.drivers d <;> simp

theorem takes_iff : w.takes d p = true ↔
    ∃ h, w.hash d = some h ∧ ∀ q, h.fix = some q → q.seq < p.seq := by
  unfold World.takes World.applyPing
  cases hh : w.hash d with
  | none => simp
  | some h =>
    cases hf : h.fix with
    | none => simp [hf]
    | some q =>
      by_cases hle : p.seq ≤ q.seq
      · simp only [hf, hle, if_true]
        simp [hf]
        omega
      · simp only [hf, hle, if_false]
        simp [hf]
        omega

theorem run_applyPing_takes (htakes : w.takes d p = true) : w.run (.applyPing d p) = w.store d p := by
  unfold World.takes at htakes
  simp only [World.run]
  cases hres : w.applyPing d p with
  | applied seq identity => rfl
  | discarded seq => simp [hres] at htakes
  | unknown => simp [hres] at htakes

theorem run_applyPing_refused (htakes : w.takes d p = false) : w.run (.applyPing d p) = w := by
  unfold World.takes at htakes
  simp only [World.run]
  cases hres : w.applyPing d p with
  | applied seq identity => simp [hres] at htakes
  | discarded seq => rfl
  | unknown => rfl

theorem hash_of_same {w' : World} (hnow : w'.now = w.now) (hhash : w'.hashes d = w.hashes d) :
    w'.hash d = w.hash d := by
  rw [World.hash, World.hash, hnow, hhash]

theorem hash_run (w : World) (l : Step) (d : ℕ) : (w.run l).hash d = w.hashAfter d l := by
  cases l with
  | putIdentity d' identity vehicleClass longDistance =>
    simp only [World.run, World.hashAfter]
    split_ifs with hd
    · subst hd
      simp [World.hash, driverHashTtlMs]
    · exact hash_of_same rfl (Function.update_of_ne (Ne.symm hd) _ _)
  | applyPing d' p =>
    simp only [World.hashAfter]
    split_ifs with htakes
    · obtain ⟨rfl, htakes⟩ := htakes
      rw [run_applyPing_takes htakes]
      obtain ⟨h, hh, -⟩ := takes_iff.mp htakes
      simp only [World.store, hh]
      simp [World.hash, driverHashTtlMs]
    · cases hrefused : w.takes d' p with
      | false => rw [run_applyPing_refused hrefused]
      | true =>
        have hd : d' ≠ d := by
          rintro rfl
          exact htakes ⟨rfl, hrefused⟩
        rw [run_applyPing_takes hrefused]
        obtain ⟨h, hh, -⟩ := takes_iff.mp hrefused
        simp only [World.store, hh]
        exact hash_of_same rfl (Function.update_of_ne (Ne.symm hd) _ _)
  | del d' =>
    simp only [World.run, World.hashAfter]
    split_ifs with hd
    · subst hd
      simp [World.hash]
    · exact hash_of_same rfl (Function.update_of_ne (Ne.symm hd) _ _)
  | tick ms =>
    simp only [World.run, World.hashAfter, World.hash]
    cases w.hashes d with
    | none => rfl
    | some h =>
      by_cases hlive : w.now + ms < h.expiresAt
      · have : w.now < h.expiresAt := by omega
        simp [Option.filter, hlive, this]
      · by_cases hnow : w.now < h.expiresAt <;> simp [Option.filter, hlive, hnow]
  | buffer | drain =>
    simp only [World.run]
    split_ifs <;> rfl
  | _ => rfl

theorem foldl_erase_lookup (ds : List ℕ) (m : AList fun _ : ℕ ↦ GeoPoint) :
    (ds.foldl (fun m d ↦ m.erase d) m).lookup d = if d ∈ ds then none else m.lookup d := by
  induction ds generalizing m with
  | nil => simp
  | cons d' ds ih =>
    rw [List.foldl_cons, ih]
    by_cases hd : d = d'
    · subst hd
      simp
    · simp [hd, AList.lookup_erase_ne hd]

theorem member_run (w : World) (l : Step) (z d : ℕ) : (w.run l).member z d = w.memberAfter z d l := by
  cases l with
  | applyPing d' p =>
    simp only [World.memberAfter]
    cases htakes : w.takes d' p with
    | false =>
      rw [run_applyPing_refused htakes, if_neg]
      rintro ⟨rfl, h, -⟩
      rw [htakes] at h
      cases h
    | true =>
      rw [run_applyPing_takes htakes]
      obtain ⟨h, hh, -⟩ := takes_iff.mp htakes
      simp only [World.store, hh, World.member]
      by_cases hmap : p.toGeoPoint.onMap
      · rw [if_pos hmap]
        by_cases hz : z = h.identity.zoneId
        · subst hz
          rw [Function.update_self]
          by_cases hd : d = d'
          · subst hd
            simp [htakes, World.zoneOf, hh, hmap]
          · rw [AList.lookup_insert_ne hd, if_neg fun hc ↦ hd hc.1.symm]
        · rw [Function.update_of_ne hz, if_neg]
          rintro ⟨rfl, -, hzone, -⟩
          simp [World.zoneOf, hh] at hzone
          exact hz hzone.symm
      · rw [if_neg hmap, if_neg fun hc ↦ hmap hc.2.2.2]
  | zrem z' ds =>
    simp only [World.run, World.memberAfter, World.member]
    by_cases hz : z = z'
    · subst hz
      rw [Function.update_self, foldl_erase_lookup]
      simp
    · rw [Function.update_of_ne hz, if_neg fun hc ↦ hz hc.1.symm]
  | buffer | drain =>
    simp only [World.run]
    split_ifs <;> rfl
  | _ => rfl

theorem drivers_store (w : World) (d : ℕ) (p : DriverLocationPing) :
    (w.store d p).drivers = w.drivers := by
  unfold World.store
  split <;> rfl

theorem online_run (w : World) (l : Step) (d : ℕ) : (w.run l).online d = w.onlineAfter d l := by
  have hsetRow (d' : ℕ) (f : DriverRow → DriverRow) (hne : d ≠ d') :
      (w.setRow d' f).online d = w.online d := by
    simp only [World.online, World.setRow, Function.update_of_ne hne]
  cases l with
  | goOnline d' zoneId point =>
    simp only [World.run, World.onlineAfter]
    by_cases hd : d = d'
    · subst hd
      simp only [World.online, World.setRow, Function.update_self, if_true]
      cases w.drivers d <;> rfl
    · rw [hsetRow _ _ hd, if_neg (Ne.symm hd)]
  | goOffline d' =>
    simp only [World.run, World.onlineAfter]
    by_cases hd : d = d'
    · subst hd
      simp only [World.online, World.setRow, Function.update_self, if_true]
      cases w.drivers d <;> rfl
    · rw [hsetRow _ _ hd, if_neg (Ne.symm hd)]
  | applyPing d' p =>
    simp only [World.run, World.onlineAfter]
    split
    · rw [World.online, drivers_store]
      rfl
    · rfl
  | setStanding d' standing =>
    simp only [World.run, World.onlineAfter, World.online]
    by_cases hd : d = d'
    · subst hd
      rw [Function.update_self]
      cases w.drivers d <;> rfl
    · rw [Function.update_of_ne hd]
  | flushPositions batch =>
    simp only [World.run, World.onlineAfter, World.online]
    cases w.drivers d with
    | none => rfl
    | some row => cases batch.lookup d <;> simp [World.sampled]
  | buffer | drain =>
    simp only [World.run]
    split_ifs <;> rfl
  | _ => rfl

theorem fix_of_hash (hh : w.hash d = some h) : w.fix d = h.fix := by rw [World.fix, hh, Option.bind_some]

theorem hash_of_fix (hf : w.fix d = some p) : ∃ h, w.hash d = some h ∧ h.fix = some p := by
  simpa [World.fix, Option.bind_eq_some_iff] using hf

/-- A fix is one just taken, or has been there and is not being replaced. -/
theorem fix_run (hf : (w.run l).fix d = some p) :
    l = .applyPing d p ∧ w.takes d p = true ∨
      w.fix d = some p ∧ ∀ q, l = .applyPing d q → w.takes d q = false := by
  have hkept (hkeep : w.hash d = (w.run l).hash d) (hl : ∀ q, l = .applyPing d q → w.takes d q = false) :
      w.fix d = some p ∧ ∀ q, l = .applyPing d q → w.takes d q = false := by
    rw [World.fix, hkeep]
    exact ⟨hf, hl⟩
  have hrun := hash_run w l d
  cases l with
  | applyPing d' p' =>
    simp only [World.hashAfter] at hrun
    split_ifs at hrun with htakes
    · obtain ⟨rfl, htakes⟩ := htakes
      obtain ⟨h, hh, hfix⟩ := hash_of_fix hf
      rw [hrun] at hh
      obtain ⟨h', -, rfl⟩ := Option.map_eq_some_iff.mp hh
      obtain rfl := Option.some.inj hfix
      exact .inl ⟨rfl, htakes⟩
    · refine .inr (hkept hrun.symm fun q hq ↦ ?_)
      cases hq
      simpa using htakes
  | putIdentity d' identity vehicleClass longDistance =>
    refine .inr ⟨?_, (by simp)⟩
    simp only [World.hashAfter] at hrun
    split_ifs at hrun with hd
    · rw [fix_of_hash hrun] at hf
      exact hf
    · rw [World.fix, ← hrun]
      exact hf
  | del d' =>
    refine .inr ⟨?_, (by simp)⟩
    simp only [World.hashAfter] at hrun
    split_ifs at hrun with hd
    · rw [World.fix, hrun] at hf
      cases hf
    · rw [World.fix, ← hrun]
      exact hf
  | tick ms =>
    refine .inr ⟨?_, (by simp)⟩
    obtain ⟨h, hh, hfix⟩ := hash_of_fix hf
    rw [hrun] at hh
    rw [fix_of_hash (Option.filter_eq_some_iff.mp hh).1, hfix]
  | _ => exact .inr (hkept hrun.symm (by simp))

/-- The script comes back with its answer, or has stored a ping from off the map. -/
theorem reply_cases (w : World) (d : ℕ) (p : DriverLocationPing) :
    PresenceStore.reply w d p = .ok (w.applyPing d p) ∨
      w.takes d p = true ∧ p.toGeoPoint.onMap = false ∧ ∃ e, PresenceStore.reply w d p = .error e := by
  unfold PresenceStore.reply World.takes
  cases w.applyPing d p with
  | applied seq identity =>
    dsimp only
    cases p.toGeoPoint.onMap with
    | true => exact .inl rfl
    | false => exact .inr ⟨rfl, rfl, _, rfl⟩
  | discarded seq => exact .inl rfl
  | unknown => exact .inl rfl

end Towing.Presence
