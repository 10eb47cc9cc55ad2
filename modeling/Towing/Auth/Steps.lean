import Towing.Auth.World

namespace Towing.Auth

open Towing.Process

namespace RefreshToken

/-- Neither used nor revoked. -/
def live (row : RefreshToken) : Bool := !row.used

def revoke (row : RefreshToken) (p : RefreshToken → Bool) (reason : String) (now : ℕ) : RefreshToken :=
  if p row && row.revokedAt.isNone then
    { row with revokedAt := some now, revokedReason := some reason, updatedAt := now }
  else row

/-- What becomes of a row: it stays the token that it is, used or revoked for good. -/
structure Ages (row row' : RefreshToken) : Prop where
  token : row'.toNewToken = row.toNewToken
  createdAt : row'.createdAt = row.createdAt
  rotated : row.rotatedAt.isSome = true → row'.rotatedAt.isSome = true
  revoked : row.revokedAt.isSome = true → row'.revokedAt.isSome = true
  updated : row'.live = true → row'.updatedAt = row.updatedAt

end RefreshToken

def NewToken.stored (row : NewToken) (now : ℕ) : RefreshToken :=
  { row with rotatedAt := none, revokedAt := none, revokedReason := none, createdAt := now, updatedAt := now }

namespace World

variable (w : World)

/-- The row of the token after a step. -/
def tokenAfter (t : ℕ) : Step → Option RefreshToken
  | .claim t' realms now =>
    if t' = t then
      match w.claimable t realms now with
      | some row => some { row with rotatedAt := some now, updatedAt := now }
      | none => w.tokens t
    else w.tokens t
  | .revokeFamily familyId reason now =>
    (w.tokens t).map fun row ↦ row.revoke (fun row ↦ row.familyId = familyId) reason now
  | .revokeSubject subjectId realm reason now =>
    (w.tokens t).map fun row ↦ row.revoke (fun row ↦ row.subjectId = subjectId && row.realm = realm) reason now
  | .insert t' row => if t' = t ∧ w.tokens t = none then some (row.stored w.now) else w.tokens t
  | _ => w.tokens t

/-- The pair parked for the token after a step, and until when. -/
def parkedAfter (t : ℕ) : Step → Option (ParkedPair × ℕ)
  | .remember t' parked seconds =>
    if t' = t ∧ w.redisUp then some (parked, w.now + seconds * 1000) else w.parked t
  | _ => w.parked t

end World

variable {w : World} {l : Step} {t now : ℕ} {realms : List Realm} {row row' : RefreshToken}

attribute [local simp] World.run World.tokenAfter

theorem token_run (w : World) (l : Step) (t : ℕ) : (w.run l).tokens t = w.tokenAfter t l := by
  cases l with
  | claim t' realms now =>
    simp only [World.run, World.tokenAfter]
    by_cases ht : t' = t
    · subst ht
      rw [if_pos rfl]
      cases w.claimable t' realms now with
      | none => rfl
      | some row => exact Function.update_self _ _ _
    · rw [if_neg ht]
      cases w.claimable t' realms now with
      | none => rfl
      | some row => exact Function.update_of_ne (Ne.symm ht) _ _
  | insert t' row =>
    simp only [World.run, World.tokenAfter]
    by_cases ht : t' = t
    · subst ht
      cases htoken : w.tokens t' with
      | none => simp [NewToken.stored]
      | some found => simp [htoken]
    · rw [if_neg fun h ↦ ht h.1]
      cases w.tokens t' with
      | none => exact Function.update_of_ne (Ne.symm ht) _ _
      | some found => rfl
  | remember t' parked seconds =>
    simp only [World.run]
    split_ifs <;> rfl
  | _ => rfl

theorem parked_run (w : World) (l : Step) (t : ℕ) : (w.run l).parked t = w.parkedAfter t l := by
  cases l with
  | claim t' realms now =>
    simp only [World.run]
    cases w.claimable t' realms now <;> rfl
  | insert t' row =>
    simp only [World.run]
    cases w.tokens t' <;> rfl
  | remember t' parked seconds =>
    simp only [World.run, World.parkedAfter]
    by_cases hup : w.redisUp = true
    · by_cases ht : t' = t
      · subst ht
        simp [hup]
      · simp [hup, ht, Function.update_of_ne (Ne.symm ht)]
    · simp [hup]
  | _ => rfl

theorem now_run (w : World) (l : Step) : w.now ≤ (w.run l).now := by
  cases l with
  | claim t' realms now =>
    simp only [World.run]
    cases w.claimable t' realms now <;> exact Nat.le_refl _
  | insert t' row =>
    simp only [World.run]
    cases w.tokens t' <;> exact Nat.le_refl _
  | remember t' parked seconds =>
    simp only [World.run]
    split_ifs <;> exact Nat.le_refl _
  | tick ms => exact Nat.le_add_right _ _
  | _ => exact Nat.le_refl _

theorem nextFamily_run (w : World) (l : Step) : w.nextFamily ≤ (w.run l).nextFamily := by
  cases l with
  | claim t' realms now =>
    simp only [World.run]
    cases w.claimable t' realms now <;> exact Nat.le_refl _
  | insert t' row =>
    simp only [World.run]
    cases w.tokens t' <;> exact Nat.le_refl _
  | remember t' parked seconds =>
    simp only [World.run]
    split_ifs <;> exact Nat.le_refl _
  | randomUUID => exact Nat.le_succ _
  | _ => exact Nat.le_refl _

theorem claimable_iff : w.claimable t realms now = some row ↔
    w.tokens t = some row ∧ row.realm ∈ realms ∧ row.live = true ∧ now < row.expiresAt ∧
      sessionWindowPredicate realms now row = true := by
  unfold World.claimable RefreshToken.live RefreshToken.used
  rw [Option.filter_eq_some_iff]
  refine and_congr_right fun _ ↦ ?_
  cases row.rotatedAt <;> cases row.revokedAt <;> simp [and_assoc]

theorem RefreshToken.Ages.refl (row : RefreshToken) : row.Ages row :=
  ⟨rfl, rfl, id, id, fun _ ↦ rfl⟩

theorem RefreshToken.Ages.live (h : row.Ages row') (hlive : row'.live = true) : row.live = true := by
  cases hrotated : row.rotatedAt with
  | some at' =>
    have := h.rotated (by simp [hrotated])
    simp [RefreshToken.live, RefreshToken.used, this] at hlive
  | none =>
    cases hrevoked : row.revokedAt with
    | some at' =>
      have := h.revoked (by simp [hrevoked])
      simp [RefreshToken.live, RefreshToken.used, this] at hlive
    | none => simp [RefreshToken.live, RefreshToken.used, hrotated, hrevoked]

theorem RefreshToken.Ages.trans {row'' : RefreshToken} (h : row.Ages row') (h' : row'.Ages row'') :
    row.Ages row'' where
  token := h'.token.trans h.token
  createdAt := h'.createdAt.trans h.createdAt
  rotated hr := h'.rotated (h.rotated hr)
  revoked hr := h'.revoked (h.revoked hr)
  updated hlive := (h'.updated hlive).trans (h.updated (h'.live hlive))

theorem ages_revoke (row : RefreshToken) (p : RefreshToken → Bool) (reason : String) (now : ℕ) :
    row.Ages (row.revoke p reason now) := by
  unfold RefreshToken.revoke
  split_ifs
  · exact ⟨rfl, rfl, id, fun _ ↦ rfl, by simp [RefreshToken.live, RefreshToken.used]⟩
  · exact .refl row

/-- No step takes a row away. -/
theorem token_ages (l : Step) (h : w.tokens t = some row) :
    ∃ row', (w.run l).tokens t = some row' ∧ row.Ages row' := by
  rw [token_run]
  cases l with
  | claim t' realms now =>
    simp only [World.tokenAfter]
    split_ifs
    · cases hclaim : w.claimable t realms now with
      | none => exact ⟨row, h, .refl row⟩
      | some found =>
        obtain ⟨hfound, -⟩ := claimable_iff.mp hclaim
        obtain rfl := Option.some.inj (h.symm.trans hfound)
        refine ⟨_, rfl, rfl, rfl, fun _ ↦ rfl, id, ?_⟩
        simp [RefreshToken.live, RefreshToken.used]
    · exact ⟨row, h, .refl row⟩
  | revokeFamily familyId reason now =>
    simp only [World.tokenAfter, h]
    exact ⟨_, rfl, ages_revoke _ _ _ _⟩
  | revokeSubject subjectId realm reason now =>
    simp only [World.tokenAfter, h]
    exact ⟨_, rfl, ages_revoke _ _ _ _⟩
  | insert t' row' =>
    refine ⟨row, ?_, .refl row⟩
    simp [h]
  | _ => exact ⟨row, h, .refl row⟩

/-- Every row was there before the step, or is inserted by it. -/
theorem token_brought (h : (w.run l).tokens t = some row') :
    (∃ row, w.tokens t = some row ∧ row.Ages row') ∨
      ∃ new, l = .insert t new ∧ w.tokens t = none ∧ row' = new.stored w.now := by
  cases htoken : w.tokens t with
  | some row =>
    obtain ⟨row'', hafter, hages⟩ := token_ages l htoken
    obtain rfl := Option.some.inj (h.symm.trans hafter)
    exact .inl ⟨row, rfl, hages⟩
  | none =>
    rw [token_run] at h
    cases l with
    | insert t' new =>
      simp only [World.tokenAfter] at h
      split_ifs at h with hnew
      · exact .inr ⟨new, by rw [hnew.1], rfl, (Option.some.inj h).symm⟩
      · rw [htoken] at h
        cases h
    | claim t' realms now =>
      have hnone : w.claimable t realms now = none := by simp [World.claimable, htoken]
      simp [hnone, htoken] at h
    | _ => simp [htoken] at h

end Towing.Auth
