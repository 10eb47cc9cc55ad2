import Towing.Auth.Rotation

namespace Towing.Auth

open Towing.Process

variable {env : Env} {s₀ w : World} {cs : List (Call Step World Refusal)} {es : List (ℕ × Event Step World)}
  {l : Step} {F i j k m n t : ℕ} {e f : Event Step World} {row row' : RefreshToken}

/-- The family is revoked by itself, or with all that its subject has. -/
def Revokes (F : ℕ) (e : Event Step World) : Prop :=
  (∃ reason now, e.label = .revokeFamily F reason now) ∨
    ∃ subjectId realm reason now t row, e.label = .revokeSubject subjectId realm reason now ∧
      e.before.tokens t = some row ∧ row.familyId = F ∧ row.subjectId = subjectId ∧ row.realm = realm

/-- A token of the family is refreshed: claimed, or answered with a parked pair. -/
def Refreshes (F : ℕ) (e : Event Step World) : Prop :=
  ∃ t row, e.before.tokens t = some row ∧ row.familyId = F ∧
    (Claims t row e ∨ ∃ parked, Finds t parked e)

/-- No token of the family is left to refresh. -/
def Dead (F : ℕ) (w : World) : Prop :=
  ∀ t row, w.tokens t = some row → row.familyId = F → row.live = false ∧ w.parkedPair t = none

/-- No pair of the family is still parked. -/
def Unparked (F : ℕ) (w : World) : Prop :=
  ∀ t row, w.tokens t = some row → row.familyId = F → w.parkedPair t = none

/-- The request has claimed a token of the family before commit `k`, and mints or parks
its successor after it. -/
def Straddles (es : List (ℕ × Event Step World)) (F k n : ℕ) : Prop :=
  ∃ i e t row j f, i < k ∧ Makes es i n e ∧ Claims t row e ∧ row.familyId = F ∧ k < j ∧ Makes es j n f ∧
    ((∃ t' new, Mints t' new f ∧ new.familyId = F) ∨
      ∃ parked seconds, f.label = .remember t parked seconds ∧ f.before.redisUp = true)

/-- The rows of the family are all revoked, and none has a pair parked. -/
def Burned (F : ℕ) (w : World) : Prop :=
  ∀ t row, w.tokens t = some row → row.familyId = F → row.revokedAt.isSome = true ∧ w.parkedPair t = none

theorem dead_of_burned (h : Burned F w) : Dead F w := by
  intro t row hrow hfamily
  obtain ⟨hrevoked, hparked⟩ := h t row hrow hfamily
  exact ⟨by simp [RefreshToken.live, RefreshToken.used, hrevoked], hparked⟩

theorem not_refreshes_of_dead (h : Dead F e.before) : ¬Refreshes F e := by
  rintro ⟨t, row, hrow, hfamily, hclaims | ⟨parked, -, hfound⟩⟩
  · obtain ⟨hfound, hlive⟩ := hclaims.found
    rw [(h t row hrow hfamily).1] at hlive
    cases hlive
  · rw [(h t row hrow hfamily).2] at hfound
    cases hfound

/-- A pair that is parked after a step was parked before it, or the step parks it. -/
theorem parkedPair_brought {parked : ParkedPair} (h : (w.run l).parkedPair t = some parked) :
    w.parkedPair t = some parked ∨ ∃ seconds, l = .remember t parked seconds ∧ w.redisUp = true := by
  unfold World.parkedPair at h
  obtain ⟨⟨parked', x⟩, hfound, rfl⟩ := Option.map_eq_some_iff.mp h
  obtain ⟨hparked, hnow⟩ := Option.filter_eq_some_iff.mp hfound
  rcases parked_brought hparked with hbefore | hremember
  · refine .inl ?_
    have hgrows := now_run w l
    have hin : w.now < x := Nat.lt_of_le_of_lt hgrows (by simpa using hnow)
    simp [World.parkedPair, hbefore, hin]
  · exact .inr hremember

/-- Who revokes a family has seen it. -/
theorem family_seen (h : Calls (Sessions env) s₀ cs w es) (he : Makes es k m e) (hrevokes : Revokes F e) :
    ∃ t row, e.before.tokens t = some row ∧ row.familyId = F := by
  rcases hrevokes with ⟨reason, now, hl⟩ | ⟨_, _, _, _, t, row, _, hrow, hfamily, _⟩
  · obtain ⟨c, -, hjustified⟩ := justified_of_makes h he
    rw [hl] at hjustified
    cases hjustified with
    | quiet hq => cases hq
    | revokeFamily hr hrow hfamily =>
      obtain ⟨i, hi, hr⟩ := makes_of_own hr
      obtain ⟨row', hrow', hages⟩ := later_before h (Nat.le_of_lt hi) hr he _ _ hrow
      exact ⟨_, row', hrow', by rw [hages.token, hfamily]⟩
  · exact ⟨t, row, hrow, hfamily⟩

theorem orderly_before (h : Calls (Sessions env) s₀ cs w es) (hs : s₀.Fresh) (he : Makes es i n e) :
    Orderly e.before (es.take i) := by
  obtain ⟨cs', hbefore⟩ := h.before he
  exact orderly hbefore hs

theorem burned_after (h : Calls (Sessions env) s₀ cs w es) (hs : s₀.Fresh) (he : Makes es k m e)
    (hrevokes : Revokes F e) (hunparked : Unparked F e.before) : Burned F e.after := by
  have horderly := orderly_before h hs he
  rw [commit_of_makes h he]
  intro t row hrow hfamily
  rcases hrevokes with ⟨reason, now, hl⟩ | ⟨subjectId, realm, reason, now, t', row', hl, hrow', hfamily', rfl, rfl⟩
  · rw [hl] at hrow ⊢
    refine ⟨revoked_by hrow hfamily, ?_⟩
    rcases token_brought hrow with ⟨old, hold, hages⟩ | ⟨new, heq, -⟩
    · exact hunparked t old hold (by rw [← hages.token, hfamily])
    · cases heq
  · rw [hl] at hrow ⊢
    rcases token_brought hrow with ⟨old, hold, hages⟩ | ⟨new, heq, -⟩
    · have hsame : old.familyId = F := by rw [← hages.token, hfamily]
      refine ⟨?_, hunparked t old hold hsame⟩
      obtain ⟨hsubject, hrealm⟩ := horderly.kin t t' old row' hold hrow' (hsame.trans hfamily'.symm)
      rw [token_run] at hrow
      obtain ⟨old', hold', rfl⟩ := Option.map_eq_some_iff.mp hrow
      obtain rfl := Option.some.inj (hold.symm.trans hold')
      unfold RefreshToken.revoke
      split_ifs with hnot
      · rfl
      · simpa [hsubject, hrealm, Option.isSome_iff_ne_none] using hnot
    · cases heq

/-- While nobody straddles its revocation, a family stays burned. -/
theorem stays_burned (h : Calls (Sessions env) s₀ cs w es) (hs : s₀.Fresh) (he : Makes es k m e)
    (hrevokes : Revokes F e) (hunparked : Unparked F e.before) (hnone : ∀ n, ¬Straddles es F k n) :
    Burned F w ∧ ∀ j n f, k < j → Makes es j n f → Burned F f.before := by
  refine h.kept_since he (burned_after h hs he hrevokes hunparked) fun j n f hkj hf hburned ↦ ?_
  have hhere := hburned j n f hkj (Nat.le_refl j) hf
  -- A claim by who comes after the revocation has come before it, or found nothing to claim.
  have hearly {i p : ℕ} {g : Event Step World} {parent : RefreshToken} (hij : i < j) (hg : Makes es i n g)
      (hclaims : Claims p parent g) (hfamily : parent.familyId = F) : i < k := by
    obtain ⟨hfound, hlive⟩ := hclaims.found
    rcases Nat.lt_trichotomy i k with hlt | rfl | hgt
    · exact hlt
    · obtain ⟨-, rfl⟩ := hg.unique he
      obtain ⟨realms, now, hl, -⟩ := hclaims
      rcases hrevokes with ⟨_, _, hl'⟩ | ⟨_, _, _, _, _, _, hl', _⟩
      · cases hl.symm.trans hl'
      · cases hl.symm.trans hl'
    · rw [(dead_of_burned (hburned i n g hgt (Nat.le_of_lt hij) hg) p parent hfound hfamily).1] at hlive
      cases hlive
  rw [commit_of_makes h hf]
  intro t row hrow hfamily
  rcases token_brought hrow with ⟨old, hold, hages⟩ | ⟨new, hl, hfree, rfl⟩
  · have hsame : old.familyId = F := by rw [← hages.token, hfamily]
    obtain ⟨hrevoked, hparked⟩ := hhere t old hold hsame
    refine ⟨hages.revoked hrevoked, ?_⟩
    cases hafter : (f.before.run f.label).parkedPair t with
    | none => rfl
    | some parked =>
      rcases parkedPair_brought hafter with hbefore | ⟨seconds, hl, hup⟩
      · rw [hparked] at hbefore
        cases hbefore
      · obtain ⟨c, -, hjustified⟩ := justified_of_makes h hf
        rw [hl] at hjustified
        cases hjustified with
        | quiet hq => cases hq
        | remember _ hr hclaims _ _ _ =>
          obtain ⟨i, hij, hr⟩ := makes_of_own hr
          obtain ⟨row', hrow', hages'⟩ := later_before h (Nat.le_of_lt hij) hr hf t _ hclaims.found.1
          obtain rfl := Option.some.inj (hold.symm.trans hrow')
          have hparent := hages'.token ▸ hsame
          exact absurd ⟨i, _, t, _, j, f, hearly hij hr hclaims hparent, hr, hclaims, hparent, hkj, hf,
            .inr ⟨_, _, hl, hup⟩⟩ (hnone n)
  · have hnew : new.familyId = F := hfamily
    obtain ⟨c, -, hjustified⟩ := justified_of_makes h hf
    rw [hl] at hjustified
    cases hjustified with
    | quiet hq => cases hq
    | login hr hlabel hdrawn hunminted =>
      obtain ⟨t', seen, hseen, hfamily'⟩ := family_seen h he hrevokes
      obtain ⟨seen', hseen', hages⟩ := later_before h (Nat.le_of_lt hkj) he hf t' seen hseen
      refine absurd ?_ ((orderly_before h hs hf).free n _ hr hlabel hunminted t' seen' hseen')
      rw [hages.token, hfamily', ← hnew, hdrawn]
    | child hr hclaims hparent _ _ _ =>
      obtain ⟨i, hij, hr⟩ := makes_of_own hr
      have hfamily' := hparent.symm.trans hnew
      exact absurd ⟨i, _, _, _, j, f, hearly hij hr hclaims hfamily', hr, hclaims, hfamily', hkj, hf,
        .inl ⟨t, new, ⟨hl, hfree⟩, hnew⟩⟩ (hnone n)

/-- Revocation is final exactly where no pair of the family is still parked, and no
rotation has claimed one of its tokens before and goes on after. -/
theorem revocation_final_iff (h : Calls (Sessions env) s₀ cs w es) (hs : s₀.Fresh) (he : Makes es k m e)
    (hrevokes : Revokes F e) :
    ((∀ j n f, k < j → Makes es j n f → ¬Refreshes F f ∧ Dead F f.before) ∧ Dead F w) ↔
      Unparked F e.before ∧ ∀ n, ¬Straddles es F k n := by
  constructor
  · rintro ⟨hlater, hlast⟩
    have hafter {j n : ℕ} {f : Event Step World} (hkj : k ≤ j) (hf : Makes es j n f) : Dead F f.after :=
      h.state_after hf (fun j' n' f' hj hf' ↦ (hlater j' n' f' (by omega) hf').2) hlast
    refine ⟨fun t row hrow hfamily ↦ ?_, fun n hstraddles ↦ ?_⟩
    · have hdead := hafter (Nat.le_refl k) he
      obtain ⟨row', hrow', hages⟩ := later_of_makes h he t row hrow
      have hparked := (hdead t row' hrow' (by rw [hages.token, hfamily])).2
      rw [commit_of_makes h he] at hparked
      rcases hrevokes with ⟨reason, now, hl⟩ | ⟨_, _, _, _, _, _, hl, _⟩
      · rw [hl] at hparked
        exact hparked
      · rw [hl] at hparked
        exact hparked
    · obtain ⟨i, r, t, parent, j, f, hik, hr, hclaims, hfamily, hkj, hf, hends⟩ := hstraddles
      have hdead := hafter (Nat.le_of_lt hkj) hf
      rw [commit_of_makes h hf] at hdead
      rcases hends with ⟨t', new, hmints, hnew⟩ | ⟨parked, seconds, hl, hup⟩
      · have hstored : (f.before.run f.label).tokens t' = some (new.stored f.before.now) := by
          rw [token_run, hmints.1]
          simp [World.tokenAfter, hmints.2]
        have hlive := (hdead t' _ hstored hnew).1
        cases hlive
      · obtain ⟨row', hrow', hages⟩ := later_before h (by omega) hr hf t parent hclaims.found.1
        obtain ⟨row'', hrow'', hages'⟩ := token_ages f.label hrow'
        have hnone := (hdead t row'' hrow'' (by rw [hages'.token, hages.token, hfamily])).2
        obtain ⟨c, -, hjustified⟩ := justified_of_makes h hf
        rw [hl] at hjustified hnone
        cases hjustified with
        | quiet hq => cases hq
        | remember henabled _ _ _ _ _ =>
          have : 0 < env.refreshGraceSeconds * 1000 := by omega
          simp [World.parkedPair, parked_run, World.parkedAfter, hup] at hnone
          simp [World.run, hup] at hnone
          omega
  · rintro ⟨hunparked, hnone⟩
    obtain ⟨hlast, hlater⟩ := stays_burned h hs he hrevokes hunparked hnone
    refine ⟨fun j n f hkj hf ↦ ?_, dead_of_burned hlast⟩
    have hdead := dead_of_burned (hlater j n f hkj hf)
    exact ⟨not_refreshes_of_dead hdead, hdead⟩

/-! A logout after a refresh, and one in the middle of it. -/

def sampleLogout (presented : ℕ) : Request Unit := TokenService.logout presented [.admin]

def sampleEnding : List (Request Unit) :=
  [sampleLogin, sampleRefresh 100 101, Proc.write (.tick 20000), sampleLogout 101]

theorem sampleEnding_sessions : ∀ p ∈ sampleEnding, Sessions sampleEnv p := by
  simp only [sampleEnding, List.forall_mem_cons]
  exact ⟨sampleLogin_sessions, sampleRefresh_sessions 100 101, .tick 20000, .logout 101 [.admin], by simp⟩

def sampleEndingRun : List (Call Step World Refusal) × World × List (ℕ × Event Step World) :=
  sessionRun sampleEnding [0, 0, 0, 0, 1, 1, 1, 1, 1, 1, 1, 2, 3, 3, 3]

/-- The refresh's pair, parked until 10000. -/
def sampleParked : ℕ → Option (ParkedPair × ℕ) := fun t ↦
  if t = 100 then some (⟨.admin, .admin 1 .operations 1, 101⟩, 10000) else none

theorem revocation_final_sample : Dead 0 sampleEndingRun.2.1 := by
  have hrevoked : ∃ e, Makes sampleEndingRun.2.2 14 3 e ∧ e.label = .revokeFamily 0 "logout" 20000 ∧
      e.before.now = 20000 ∧ ∀ t, e.before.parked t = sampleParked t := by
    refine ⟨_, rfl, rfl, rfl, fun t ↦ ?_⟩
    change Function.update sampleWorld.parked 100 _ t = sampleParked t
    exact Function.update_apply _ _ _ t
  obtain ⟨e, he, hl, hnow, hparked⟩ := hrevoked
  have hlength : sampleEndingRun.2.2.length = 15 := by decide +kernel
  refine ((revocation_final_iff (sessionRun_calls sampleEnding_sessions _) sampleWorld_fresh he
    (.inl ⟨_, _, hl⟩)).mpr ⟨fun t row _ _ ↦ ?_, fun n hstraddles ↦ ?_⟩).2
  · rw [World.parkedPair, hparked, hnow, sampleParked]
    split_ifs <;> rfl
  · obtain ⟨i, r, t, row, j, f, -, -, -, -, hj, hf, -⟩ := hstraddles
    have := hf.lt
    have hlength' : (sessionRun sampleEnding [0, 0, 0, 0, 1, 1, 1, 1, 1, 1, 1, 2, 3, 3, 3]).2.2.length = 15 := hlength
    omega

def sampleRacing : List (Request Unit) :=
  [sampleLogin, sampleRefresh 100 101, sampleLogout 100, sampleRefresh 101 102]

theorem sampleRacing_sessions : ∀ p ∈ sampleRacing, Sessions sampleEnv p := by
  simp only [sampleRacing, List.forall_mem_cons]
  exact ⟨sampleLogin_sessions, sampleRefresh_sessions 100 101, .logout 100 [.admin],
    sampleRefresh_sessions 101 102, by simp⟩

/-- The logout comes between the refresh's claim and its mint. -/
def sampleRacingTurns : List ℕ := [0, 0, 0, 0, 1, 1, 2, 2, 2, 1, 1, 1, 1, 1, 3, 3]

/-- The token that is minted after the logout is refreshed. -/
theorem revoked_refreshes : ∃ cs w es, Calls (Sessions sampleEnv) sampleWorld cs w es ∧
    ∃ F k j m n e f, k < j ∧ Makes es k m e ∧ Revokes F e ∧ Makes es j n f ∧ Refreshes F f := by
  refine ⟨_, _, _, sessionRun_calls sampleRacing_sessions sampleRacingTurns, 0, 8, 15, 2, 3, ?_⟩
  have hrevoked : ∃ e, Makes (sessionRun sampleRacing sampleRacingTurns).2.2 8 2 e ∧
      e.label = .revokeFamily 0 "logout" 0 := ⟨_, rfl, rfl⟩
  have hclaimed : ∃ f, Makes (sessionRun sampleRacing sampleRacingTurns).2.2 15 3 f ∧
      f.label = .claim 101 [.admin] 0 ∧ (f.before.claimable 101 [.admin] 0).map (·.familyId) = some 0 :=
    ⟨_, rfl, rfl, by decide +kernel⟩
  obtain ⟨e, he, hl⟩ := hrevoked
  obtain ⟨f, hf, hl', hclaim⟩ := hclaimed
  obtain ⟨row, hrow, hfamily⟩ := Option.map_eq_some_iff.mp hclaim
  refine ⟨e, f, by decide, he, .inl ⟨_, _, hl⟩, hf, 101, row, (claimable_iff.mp hrow).1, hfamily, .inl ?_⟩
  exact ⟨[.admin], 0, hl', hrow⟩

end Towing.Auth
