import Towing.Auth.LoginSteps

namespace Towing.Login

open Towing.Process Towing.Auth

variable {env : Env} {w : World} {past : List (Event Step World)} {challengeId : ℕ}

/-- What a step that marks, counts or burns is metered by. -/
def World.marked (w : World) (challengeId : ℕ) : ℕ :=
  if (w.challenges[challengeId]?).any (·.consumedAt.isSome) then 1 else 0

def World.attemptsOf (w : World) (otpId : ℕ) : ℕ := ((w.otps[otpId]?).map (·.attempts)).getD 0

theorem marked_mono (w : World) (l : Step) (challengeId : ℕ) : w.marked challengeId ≤ (w.run l).marked challengeId := by
  unfold World.marked
  cases hc : w.challenges[challengeId]? with
  | none => simp
  | some c =>
    obtain ⟨c', hc', hbecomes⟩ := challenge_kept hc l
    rw [hc']
    by_cases hconsumed : c.consumedAt.isSome
    · simp [hconsumed, hbecomes.consumed hconsumed]
    · simp [hconsumed]

theorem marked_consumes {e : Event Step World} (he : e.after = e.before.run e.label)
    (h : Consumes challengeId e = true) : e.before.marked challengeId < e.after.marked challengeId ∧
      e.before.marked challengeId < 1 := by
  unfold Consumes at h
  split at h
  · rename_i c now hl
    simp only [Bool.and_eq_true, decide_eq_true_eq] at h
    obtain ⟨rfl, hsome⟩ := h
    obtain ⟨challenge, hchallenge⟩ := Option.isSome_iff_exists.mp hsome
    obtain ⟨hread, hnone⟩ := unconsumed_eq_some hchallenge
    have hbefore : e.before.marked c = 0 := by simp [World.marked, hread, hnone]
    have hafter : e.after.marked c = 1 := by
      have hlt := (List.getElem?_eq_some_iff.mp hread).1
      simp [World.marked, he, hl, World.run, World.consumed, hchallenge, hlt]
    omega
  · cases h

theorem attemptsOf_mono (w : World) (l : Step) (otpId : ℕ) : w.attemptsOf otpId ≤ (w.run l).attemptsOf otpId := by
  unfold World.attemptsOf
  cases hrow : w.otps[otpId]? with
  | none => simp
  | some row =>
    obtain ⟨row', hrow', hle⟩ := otp_kept hrow l
    simpa [hrow'] using hle

theorem attemptsOf_counts {otpId k : ℕ} {e : Event Step World} (he : e.after = e.before.run e.label)
    (h : Counts otpId k e = true) : e.before.attemptsOf otpId < e.after.attemptsOf otpId ∧
      e.before.attemptsOf otpId < k := by
  unfold Counts at h
  split at h
  · rename_i o m now hl
    simp only [Bool.and_eq_true, decide_eq_true_eq] at h
    obtain ⟨⟨rfl, rfl⟩, hsome⟩ := h
    obtain ⟨row, hrow⟩ := Option.isSome_iff_exists.mp hsome
    obtain ⟨hread, hlt⟩ := guessable_eq_some hrow
    have hbefore : e.before.attemptsOf o = row.attempts := by simp [World.attemptsOf, hread]
    have hafter : e.after.attemptsOf o = row.attempts + 1 := by
      have hlt := (List.getElem?_eq_some_iff.mp hread).1
      simp [World.attemptsOf, he, hl, World.run, World.attempted, hrow, hlt]
    omega
  · cases h

instance (w : World) (codeId : ℕ) : Decidable (w.Spent codeId) := inferInstanceAs (Decidable (_ ∧ _))

def World.spentCode (w : World) (codeId : ℕ) : ℕ := if w.Spent codeId then 1 else 0

theorem spentCode_mono (w : World) (l : Step) (codeId : ℕ) : w.spentCode codeId ≤ (w.run l).spentCode codeId := by
  unfold World.spentCode
  by_cases hspent : w.Spent codeId
  · simp [hspent, spent_kept hspent l]
  · simp [hspent]

theorem spentCode_burns {codeId : ℕ} {e : Event Step World} (he : e.after = e.before.run e.label)
    (h : Burns codeId e = true) : e.before.spentCode codeId < e.after.spentCode codeId ∧
      e.before.spentCode codeId < 1 := by
  unfold Burns at h
  split at h
  · rename_i c now hl
    simp only [Bool.and_eq_true, decide_eq_true_eq] at h
    obtain ⟨rfl, hsome⟩ := h
    obtain ⟨code, hcode⟩ := Option.isSome_iff_exists.mp hsome
    have hlt := (List.getElem?_eq_some_iff.mp (unused_eq_some hcode).1).1
    have hbefore : ¬e.before.Spent c := by simp [World.Spent, hcode]
    have hafter : e.after.Spent c := by
      have hcodes : e.after.codes = e.before.codes.set c (some { code with usedAt := some now }) := by
        simp only [he, hl, World.run, World.burned, hcode]
      simp [World.Spent, World.unused, hcodes, hlt]
    simp [World.spentCode, hbefore, hafter]
  · cases h

/-- The admin's counter has come to `k`. -/
def AdminRow.Reached (row : AdminRow) (k : ℤ) : Prop := ∃ v, row.twofaLastCounter = some v ∧ k ≤ v

theorem admin_kept {adminId i : ℕ} {f : AdminRow → AdminRow} {P : AdminRow → Prop}
    (h : ∃ row, w.admins adminId = some row ∧ P row) (hf : i = adminId → ∀ row, P row → P (f row)) :
    ∃ row, (w.setAdmin i f).admins adminId = some row ∧ P row := by
  obtain ⟨row, hrow, hp⟩ := h
  unfold World.setAdmin
  dsimp only
  rw [Function.update_apply]
  split_ifs with hi
  · exact ⟨f row, by rw [← hi, hrow]; rfl, hf hi.symm row hp⟩
  · exact ⟨row, hrow, hp⟩

theorem reached_advance {row : AdminRow} {k counter : ℤ} {lastCounter : Option ℤ} (h : row.Reached k)
    (hadvances : row.advances lastCounter counter = true) : k < counter := by
  obtain ⟨v, hv, hk⟩ := h
  unfold AdminRow.advances at hadvances
  rw [hv] at hadvances
  cases lastCounter with
  | none => cases hadvances
  | some last =>
    have hlt : v < counter := by simpa using hadvances
    omega

/-- Only where the authenticator starts anew is the counter taken back. -/
theorem reached_kept {adminId : ℕ} {k : ℤ} (h : ∃ row, w.admins adminId = some row ∧ row.Reached k) {l : Step}
    (hl : l.resets adminId = false) : ∃ row, (w.run l).admins adminId = some row ∧ row.Reached k := by
  cases l with
  | failAdmin | clearAdmin | setPassword | confirm | resetPassword | setActive =>
    exact admin_kept h fun _ _ hrow ↦ hrow
  | advance i lastCounter counter =>
    refine admin_kept h fun _ row hrow ↦ ?_
    split_ifs with hadvances
    · exact ⟨counter, rfl, (reached_advance hrow hadvances).le⟩
    · exact hrow
  | enroll i | disable i =>
    refine admin_kept h fun hi ↦ ?_
    simp [Step.resets, hi] at hl
  | employ i passwordHash =>
    obtain ⟨row, hrow, hreached⟩ := h
    show ∃ row, Function.update w.admins i _ adminId = some row ∧ row.Reached k
    rw [Function.update_apply]
    split_ifs with hi
    · exact ⟨row, by rw [← hi, hrow]; rfl, hreached⟩
    · exact ⟨row, hrow, hreached⟩
  | _ => exact h

/-- One session a challenge at most, whose request has marked the challenge and shown what its login asks
for, and no more codes compared with a row than may be guessed. -/
structure SignedInOnce (env : Env) (es : List (ℕ × Event Step World)) : Prop where
  once : ∀ challengeId, es.countP (fun x ↦ x.2.label.opens challengeId) ≤ 1
  guesses : ∀ otpId, es.countP (fun x ↦ x.2.label.checks otpId) ≤ env.OTP_MAX_ATTEMPTS
  shown : ∀ i n e challengeId subjectId realm, Makes es i n e → e.label = .issue challengeId subjectId realm →
    ∃ challenge, e.before.challenges[challengeId]? = some challenge ∧ challenge.subjectId = subjectId ∧
      challenge.realm = realm ∧ challenge.consumedAt.isSome = true ∧
      (∃ f ∈ own n (es.take i), Consumes challengeId f = true) ∧ Shown (own n (es.take i)) challenge

/-- A recovery code is burned once, and an authenticator's counters only grow until it is enrolled anew. -/
structure FactorsFresh (es : List (ℕ × Event Step World)) : Prop where
  alone : ∀ n, (own n es).countP (·.label.isIssue) ≤ 1
  codes : ∀ codeId, es.countP (fun x ↦ Burns codeId x.2) ≤ 1
  counters : ∀ i j m n e f adminId k k', i < j → Makes es i m e → Makes es j n f → Advances adminId k e = true →
    Advances adminId k' f = true → (∀ l o g, i < l → l < j → Makes es l o g → g.label.resets adminId = false) → k < k'

section Run

variable {w₀ : World} {cs : List (Call Step World String)} {es : List (ℕ × Event Step World)} {i j m n : ℕ}
  {e f : Event Step World} (hrun : Calls (SignsIn env) w₀ cs w es)
include hrun

theorem justified_at (he : Makes es i n e) : Justified env (own n (es.take i)) e.label :=
  hrun.heeds_own (fun _ hp ↦ signsIn_heeds hp) he

/-- What is metered and given out one at a time. -/
theorem countP_metered {q : Event Step World → Bool} {meter : World → ℕ} {k : ℕ}
    (hmono : ∀ w l, meter w ≤ meter (World.run w l))
    (hq : ∀ e : Event Step World, e.after = e.before.run e.label → q e = true →
      meter e.before < meter e.after ∧ meter e.before < k) : (es.map (·.2)).countP q ≤ k := by
  apply hrun.chained.countP_le
  · exact hrun.rel_commit (R := fun s t ↦ meter s ≤ meter t) fun l w ↦ hmono w l
  · intro e he
    obtain ⟨x, hx, rfl⟩ := List.mem_map.mp he
    exact hq x.2 (hrun.committed x hx)

theorem challenge_later (hij : i ≤ j) (he : Makes es i m e) (hf : Makes es j n f) {c : Challenge}
    (hc : e.before.challenges[challengeId]? = some c) :
    ∃ c', f.before.challenges[challengeId]? = some c' ∧ c.Becomes c' := by
  apply hrun.rel_later (R := fun s t ↦ ∀ c, s.challenges[challengeId]? = some c →
    ∃ c', t.challenges[challengeId]? = some c' ∧ c.Becomes c') (fun _ c hc ↦ ⟨c, hc, .refl c⟩) ?_ ?_ hij he hf c hc
  · intro s t u hst htu c hc
    obtain ⟨c', hc', hbecomes⟩ := hst c hc
    obtain ⟨c'', hc'', hbecomes'⟩ := htu c' hc'
    exact ⟨c'', hc'', hbecomes.trans hbecomes'⟩
  · intro l w c hc
    exact challenge_kept hc l

theorem marked_later (hij : i < j) (he : Makes es i m e) (hf : Makes es j n f)
    (hconsumes : Consumes challengeId e = true) : f.before.marked challengeId = 1 := by
  have hafter := (marked_consumes (hrun.commit_at he) hconsumes).1
  have hle : e.after.marked challengeId ≤ f.before.marked challengeId :=
    hrun.rel_after (R := fun s t ↦ s.marked challengeId ≤ t.marked challengeId) (fun _ ↦ le_rfl)
      (fun _ _ _ ↦ le_trans) (fun l w ↦ marked_mono w l challengeId) hij he hf
  have hone : f.before.marked challengeId ≤ 1 := by
    unfold World.marked
    split_ifs <;> simp
  omega

end Run

theorem Shown.becomes {c c' : Challenge} (h : Shown past c) (hbecomes : c.Becomes c') : Shown past c' := by
  obtain ⟨hsubject, hrealm, hotp, -⟩ := hbecomes
  cases h with
  | code hnot hcheck => exact .code (hrealm ▸ hnot) (hotp ▸ hcheck)
  | admin row hread hcheck hfactor => exact .admin row (hsubject ▸ hread) (hotp ▸ hcheck) (hsubject ▸ hfactor)
  | password hwrites => exact .password (hsubject ▸ hwrites)

theorem signed_in_once {w₀ : World} {cs : List (Call Step World String)} {es : List (ℕ × Event Step World)}
    (hrun : Calls (SignsIn env) w₀ cs w es) : SignedInOnce env es := by
  refine ⟨fun challengeId ↦ ?_, fun otpId ↦ ?_, fun i n e challengeId subjectId realm he hl ↦ ?_⟩
  · have hopens : (es.map (·.2)).countP (fun e ↦ e.label.opens challengeId) ≤
        (es.map (·.2)).countP (Consumes challengeId) := by
      apply countP_le_permits
      intro i n e he hopens
      have hjustified := justified_at hrun he
      generalize e.label = l at hopens hjustified
      cases l with
      | issue c subjectId realm =>
        obtain rfl : c = challengeId := by simpa [Step.opens] using hopens
        refine ⟨hjustified.consumed, fun f hf ↦ ?_⟩
        have hnot := hjustified.unissued f hf
        generalize f.label = l at hnot
        cases l with
        | issue => cases hnot
        | _ => rfl
      | _ => cases hopens
    rw [List.countP_map] at hopens
    exact hopens.trans (countP_metered hrun (fun w l ↦ marked_mono w l challengeId) fun e he ↦ marked_consumes he)
  · have hchecks : (es.map (·.2)).countP (fun e ↦ e.label.checks otpId) ≤
        (es.map (·.2)).countP (Counts otpId env.OTP_MAX_ATTEMPTS) := by
      apply countP_le_permits
      intro i n e he hchecks
      have hjustified := justified_at hrun he
      generalize e.label = l at hchecks hjustified
      cases l with
      | check o matched =>
        obtain rfl : o = otpId := by simpa [Step.checks] using hchecks
        refine ⟨hjustified.2, fun f hf ↦ ?_⟩
        have hnot := hjustified.1 f hf
        generalize f.label = l at hnot
        cases l with
        | check => cases hnot
        | _ => rfl
      | _ => cases hchecks
    rw [List.countP_map] at hchecks
    exact hchecks.trans (countP_metered hrun (fun w l ↦ attemptsOf_mono w l otpId) fun e he ↦ attemptsOf_counts he)
  · have hjustified := justified_at hrun he
    rw [hl] at hjustified
    obtain ⟨-, ⟨f, hf, hconsumes⟩, r, hr, challenge, hread, rfl, rfl, hshown⟩ := hjustified
    obtain ⟨j, hji, hr⟩ := makes_of_own hr
    obtain ⟨k, hki, hfk⟩ := makes_of_own hf
    obtain ⟨challenge', hread', hbecomes⟩ := challenge_later hrun hji.le hr he hread
    refine ⟨challenge', hread', hbecomes.subjectId, hbecomes.realm, ?_, ⟨f, hf, hconsumes⟩, hshown.becomes hbecomes⟩
    have hmarked := marked_later hrun hki hfk he hconsumes
    simpa [World.marked, hread', Option.isSome_iff_ne_none] using hmarked

theorem factors_fresh {w₀ : World} {cs : List (Call Step World String)} {es : List (ℕ × Event Step World)}
    (hrun : Calls (SignsIn env) w₀ cs w es) : FactorsFresh es := by
  refine ⟨fun n ↦ ?_, fun codeId ↦ ?_, fun i j m n e f adminId k k' hij he hf hadvances hadvances' hnone ↦ ?_⟩
  · apply countP_le_one
    intro past e rest hown hissue f hf
    obtain ⟨i, he, rfl⟩ := makes_of_own_eq hown
    have hjustified := justified_at hrun he
    generalize e.label = l at hissue hjustified
    cases l with
    | issue => exact hjustified.unissued f hf
    | _ => cases hissue
  · have hburns : (es.map (·.2)).countP (Burns codeId) ≤ 1 :=
      countP_metered hrun (fun w l ↦ spentCode_mono w l codeId) fun e he ↦ spentCode_burns he
    rwa [List.countP_map] at hburns
  · obtain ⟨cs', hrun'⟩ := hrun.before hf
    have hreached : ∃ row, e.after.admins adminId = some row ∧ row.Reached k := by
      unfold Advances at hadvances
      split at hadvances
      · rename_i a lastCounter c hl
        simp only [Bool.and_eq_true, decide_eq_true_eq] at hadvances
        obtain ⟨⟨rfl, rfl⟩, hany⟩ := hadvances
        rw [hrun.commit_at he, hl]
        cases hrow : e.before.admins a with
        | none => simp [hrow] at hany
        | some row =>
          rw [hrow, Option.any_some] at hany
          refine ⟨{ row with twofaLastCounter := some c }, ?_, c, rfl, le_rfl⟩
          simp [Store.commit, World.run, World.setAdmin, hrow, hany]
      · cases hadvances
    have hkept := (hrun'.kept_after (I := fun t ↦ ∃ row, t.admins adminId = some row ∧ row.Reached k) (he.take hij)
      hreached fun l o g hil hg hbefore ↦ by
        obtain ⟨hlj, hg⟩ := hg.of_take
        rw [hrun.commit_at hg]
        exact reached_kept hbefore (hnone l o g hil hlj hg)).1
    obtain ⟨row, hrow, hlast⟩ := hkept
    unfold Advances at hadvances'
    split at hadvances'
    · rename_i a lastCounter c hl
      simp only [Bool.and_eq_true, decide_eq_true_eq] at hadvances'
      obtain ⟨⟨rfl, rfl⟩, hany⟩ := hadvances'
      rw [hrow, Option.any_some] at hany
      exact reached_advance hlast hany
    · cases hadvances'

/-! ### A code typed twice, with and without an authenticator -/

/-- Digests and secrets are as they are; the authenticator shows one code in the first minute, and
another from then on. -/
def sampleEnv : Env where
  OTP_MAX_ATTEMPTS := 5
  OTP_TTL_SECONDS := 300
  digest := id
  verifyPassword := fun password hash ↦ password = hash
  generate := fun _ epoch ↦ some (List.replicate 6 (if epoch < 60 then '1' else '2'))
  decryptSecret := some

def sampleWorld (twofaEnabled : Bool) : World where
  now := 45_000
  otps := []
  challenges := []
  codes := []
  admins := fun _ ↦ some { credential := { passwordHash := ['p'] }, twofaEnabled, twofaSecretEnc := some ['s'] }
  owners := fun _ ↦ none
  subjects := fun _ _ ↦ false

def loginRun (twofaEnabled : Bool) (asked : List (Request Unit)) (turns : List ℕ) :
    List (Call Step World String) × World × List (ℕ × Event Step World) :=
  takeTurns turns (asked.map fun p ↦ ⟨p, p⟩) (sampleWorld twofaEnabled)

theorem loginRun_calls (twofaEnabled : Bool) {asked : List (Request Unit)} (hasked : ∀ p ∈ asked, SignsIn sampleEnv p)
    (turns : List ℕ) :
    Calls (SignsIn sampleEnv) (sampleWorld twofaEnabled) (loginRun twofaEnabled asked turns).1
      (loginRun twofaEnabled asked turns).2.1 (loginRun twofaEnabled asked turns).2.2 := by
  simpa [loginRun] using (Calls.start.askAll hasked).takeTurns turns

/-- Two logins, and a code for each of their challenges. -/
def sampleAsked (otp : Text) : List (Request Unit) :=
  [(AdminAuthService.login sampleEnv 7 ['p'] ['4'] none).ignore,
    (AdminAuthService.login sampleEnv 7 ['p'] ['4'] none).ignore, AdminAuthService.verify sampleEnv 0 otp false,
    AdminAuthService.verify sampleEnv 0 otp false, AdminAuthService.verify sampleEnv 1 otp false]

theorem sampleAsked_signsIn (otp : Text) : ∀ p ∈ sampleAsked otp, SignsIn sampleEnv p := by
  simp only [sampleAsked, List.forall_mem_cons, List.not_mem_nil, false_imp_iff, implies_true, and_true]
  exact ⟨.adminLogin _ _ _ _, .adminLogin _ _ _ _, .adminVerify _ _ _, .adminVerify _ _ _, .adminVerify _ _ _⟩

/-- Both logins first, and then the three codes side by side. -/
def sampleTurns : List ℕ :=
  List.replicate 6 0 ++ List.replicate 6 1 ++ (List.replicate 12 [2, 3, 4]).flatten

theorem signed_in_once_sample :
    (loginRun false (sampleAsked ['4']) sampleTurns).2.2.countP (fun x ↦ x.2.label.opens 0) = 1 ∧
      SignedInOnce sampleEnv (loginRun false (sampleAsked ['4']) sampleTurns).2.2 :=
  ⟨by decide, signed_in_once (loginRun_calls false (sampleAsked_signsIn _) _)⟩

theorem factors_fresh_sample :
    (loginRun true (sampleAsked (List.replicate 6 '1')) sampleTurns).2.2.countP (fun x ↦ x.2.label.isIssue) = 1 ∧
      FactorsFresh (loginRun true (sampleAsked (List.replicate 6 '1')) sampleTurns).2.2 :=
  ⟨by decide, factors_fresh (loginRun_calls true (sampleAsked_signsIn _) _)⟩

end Towing.Login
