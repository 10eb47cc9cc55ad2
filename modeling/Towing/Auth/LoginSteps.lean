import Towing.Auth.LoginChallenges
import Towing.Process.Permits

namespace Towing.Login

open Towing.Process Towing.Auth

/-- The session of the challenge. -/
def Step.opens (challengeId : ℕ) : Step → Bool
  | .issue c _ _ => c = challengeId
  | _ => false

/-- A code compared with the row. -/
def Step.checks (otpId : ℕ) : Step → Bool
  | .check o _ => o = otpId
  | _ => false

/-- The admin's authenticator starts anew. -/
def Step.resets (adminId : ℕ) : Step → Bool
  | .enroll a _ | .disable a => a = adminId
  | _ => false

def Consumes (challengeId : ℕ) (e : Event Step World) : Bool :=
  match e.label with
  | .consume c _ => c = challengeId && (e.before.unconsumed c).isSome
  | _ => false

def Counts (otpId maxAttempts : ℕ) (e : Event Step World) : Bool :=
  match e.label with
  | .attempt o k now => o = otpId && k = maxAttempts && (e.before.guessable o k now).isSome
  | _ => false

def Burns (codeId : ℕ) (e : Event Step World) : Bool :=
  match e.label with
  | .burn c _ => c = codeId && (e.before.unused c).isSome
  | _ => false

def Advances (adminId : ℕ) (counter : ℤ) (e : Event Step World) : Bool :=
  match e.label with
  | .advance a lastCounter c => a = adminId && c = counter && (e.before.admins a).any (·.advances lastCounter c)
  | _ => false

/-! What a step leaves of a row. -/

variable {w : World} {id : ℕ}

theorem guessable_eq_some {otpId k : ℕ} {now : ℤ} {row : OtpRow} (h : w.guessable otpId k now = some row) :
    w.otps[otpId]? = some row ∧ row.attempts < k := by
  obtain ⟨hrow, hp⟩ := Option.filter_eq_some_iff.mp h
  simp only [Bool.and_eq_true, decide_eq_true_eq] at hp
  exact ⟨hrow, hp.1.2⟩

theorem unconsumed_eq_some {challenge : Challenge} (h : w.unconsumed id = some challenge) :
    w.challenges[id]? = some challenge ∧ challenge.consumedAt = none := by
  obtain ⟨hrow, hp⟩ := Option.filter_eq_some_iff.mp h
  exact ⟨hrow, Option.isNone_iff_eq_none.mp hp⟩

theorem unused_eq_some {code : RecoveryCode} (h : w.unused id = some code) :
    w.codes[id]? = some (some code) ∧ code.usedAt = none := by
  obtain ⟨hrow, hp⟩ := Option.filter_eq_some_iff.mp h
  exact ⟨Option.join_eq_some_iff.mp hrow, Option.isNone_iff_eq_none.mp hp⟩

theorem getElem?_keeps {α : Type} {xs : List α} {i j : ℕ} {x y : α} {R : α → Prop} (hi : xs[i]? = some x)
    (hx : R x) (hy : j = i → R y) : ∃ z, (xs.set j y)[i]? = some z ∧ R z := by
  by_cases hji : j = i
  · subst hji
    exact ⟨y, List.getElem?_set_self (List.getElem?_eq_some_iff.mp hi).1, hy rfl⟩
  · exact ⟨x, by rw [List.getElem?_set_ne hji, hi], hx⟩

theorem getElem?_modify_keeps {α : Type} {xs : List α} {i j : ℕ} {x : α} {f : α → α} {R : α → Prop}
    (hi : xs[i]? = some x) (hx : R x) (hf : R (f x)) : ∃ z, (xs.modify j f)[i]? = some z ∧ R z := by
  rw [List.getElem?_modify, hi]
  by_cases hji : j = i
  · exact ⟨f x, by simp [hji], hf⟩
  · exact ⟨x, by simp [hji], hx⟩

/-- A code row stays, and its attempts are never taken back. -/
theorem otp_kept {row : OtpRow} (h : w.otps[id]? = some row) (l : Step) :
    ∃ row', (w.run l).otps[id]? = some row' ∧ row.attempts ≤ row'.attempts := by
  cases l with
  | insertOtp new =>
    exact ⟨row, (List.getElem?_append_left (List.getElem?_eq_some_iff.mp h).1).trans h, le_rfl⟩
  | setVendorRef | markUsed =>
    apply getElem?_modify_keeps (R := fun row' ↦ row.attempts ≤ row'.attempts) h
    · exact le_rfl
    · exact le_rfl
  | attempt otpId k now =>
    show ∃ row', (w.attempted otpId k now)[id]? = some row' ∧ _
    unfold World.attempted
    cases hg : w.guessable otpId k now with
    | none => exact ⟨row, h, le_rfl⟩
    | some old =>
      refine getElem?_keeps (R := fun row' ↦ row.attempts ≤ row'.attempts) h le_rfl fun heq ↦ ?_
      subst heq
      obtain rfl := Option.some.inj ((guessable_eq_some hg).1.symm.trans h)
      exact Nat.le_succ _
  | _ => exact ⟨row, h, le_rfl⟩

/-- A challenge keeps whose it is and which code it asks for, and stays marked. -/
structure Challenge.Becomes (c c' : Challenge) : Prop where
  subjectId : c'.subjectId = c.subjectId
  realm : c'.realm = c.realm
  otpId : c'.otpId = c.otpId
  consumed : c.consumedAt.isSome → c'.consumedAt.isSome

theorem Challenge.Becomes.refl (c : Challenge) : c.Becomes c := ⟨rfl, rfl, rfl, id⟩

theorem Challenge.Becomes.trans {c c' c'' : Challenge} (h : c.Becomes c') (h' : c'.Becomes c'') : c.Becomes c'' :=
  ⟨h'.subjectId.trans h.subjectId, h'.realm.trans h.realm, h'.otpId.trans h.otpId, fun hc ↦ h'.consumed (h.consumed hc)⟩

theorem challenge_kept {c : Challenge} (h : w.challenges[id]? = some c) (l : Step) :
    ∃ c', (w.run l).challenges[id]? = some c' ∧ c.Becomes c' := by
  cases l with
  | insertChallenge new =>
    exact ⟨c, (List.getElem?_append_left (List.getElem?_eq_some_iff.mp h).1).trans h, .refl c⟩
  | consume challengeId now =>
    show ∃ c', (w.consumed challengeId now)[id]? = some c' ∧ _
    unfold World.consumed
    cases hg : w.unconsumed challengeId with
    | none => exact ⟨c, h, .refl c⟩
    | some old =>
      refine getElem?_keeps (R := c.Becomes) h (.refl c) fun heq ↦ ?_
      subst heq
      obtain rfl := Option.some.inj ((unconsumed_eq_some hg).1.symm.trans h)
      exact ⟨rfl, rfl, rfl, fun _ ↦ rfl⟩
  | _ => exact ⟨c, h, .refl c⟩

/-- A recovery code that has been used or deleted stays so. -/
def World.Spent (w : World) (codeId : ℕ) : Prop := codeId < w.codes.length ∧ w.unused codeId = none

theorem spent_kept (h : w.Spent id) (l : Step) : (w.run l).Spent id := by
  obtain ⟨hlt, hnone⟩ := h
  cases l with
  | burn codeId now =>
    show id < (w.burned codeId now).length ∧ ((w.burned codeId now)[id]?).join.filter (·.usedAt.isNone) = none
    unfold World.burned
    cases hg : w.unused codeId with
    | none => exact ⟨hlt, hnone⟩
    | some code =>
      have hne : codeId ≠ id := by
        rintro rfl
        rw [hnone] at hg
        cases hg
      rw [List.length_set, List.getElem?_set_ne hne]
      exact ⟨hlt, hnone⟩
  | deleteCodes adminId =>
    refine ⟨by simpa [World.run] using hlt, ?_⟩
    unfold World.unused World.run at *
    rw [List.getElem?_map]
    rw [List.getElem?_eq_getElem hlt] at *
    cases hcode : w.codes[id] with
    | none => rfl
    | some code =>
      rw [hcode] at hnone
      by_cases hadmin : code.adminId = adminId
      · simp [hadmin]
      · simpa [hadmin] using hnone
  | insertCodes adminId codeHashes =>
    refine ⟨?_, ?_⟩
    · simp only [World.run, List.length_append]
      omega
    · unfold World.unused World.run at *
      rw [List.getElem?_append_left hlt]
      exact hnone
  | _ => exact ⟨hlt, hnone⟩

/-! What a request has committed before it compares a code, and before it opens a session. -/

variable {env : Env} {past : List (Event Step World)}

def Step.isCheck : Step → Bool
  | .check _ _ => true
  | _ => false

def Step.isIssue : Step → Bool
  | .issue _ _ _ => true
  | _ => false

def Unchecked (past : List (Event Step World)) : Prop := ∀ e ∈ past, e.label.isCheck = false

def Unissued (past : List (Event Step World)) : Prop := ∀ e ∈ past, e.label.isIssue = false

/-- The use of an authenticator's step, or of a recovery code that the request has read as the admin's. -/
inductive Factor (past : List (Event Step World)) (adminId : ℕ) : Prop
  | counter (counter : ℤ) (e : Event Step World) (he : e ∈ past) (hadvances : Advances adminId counter e = true)
  | code (codeId : ℕ) (code : RecoveryCode) (r e : Event Step World) (hr : r ∈ past)
      (hread : r.before.unused codeId = some code) (hadmin : code.adminId = adminId) (he : e ∈ past)
      (hburns : Burns codeId e = true)

/-- What a request has shown for a challenge: the right code, an admin the second factor they are enrolled
for, or a new password in the place of a temporary one. -/
inductive Shown (past : List (Event Step World)) (challenge : Challenge) : Prop
  | code (hrealm : challenge.realm ≠ .admin) (hcheck : ∃ e ∈ past, e.label = .check challenge.otpId true)
  | admin (row : AdminRow) (hread : ∃ e ∈ past, e.before.admins challenge.subjectId = some row)
      (hcheck : ∃ e ∈ past, e.label = .check challenge.otpId true)
      (hfactor : row.twofaEnabled = true → row.twofaSecretEnc.isSome = true → Factor past challenge.subjectId)
  | password (hwrites : ∃ e ∈ past, ∃ hash, e.label = .setPassword challenge.subjectId hash)

structure Earned (past : List (Event Step World)) (challengeId subjectId : ℕ) (realm : Realm) : Prop where
  unissued : Unissued past
  consumed : ∃ e ∈ past, Consumes challengeId e = true
  shown : ∃ e ∈ past, ∃ challenge, e.before.challenges[challengeId]? = some challenge ∧
    challenge.subjectId = subjectId ∧ challenge.realm = realm ∧ Shown past challenge

def Justified (env : Env) (past : List (Event Step World)) : Step → Prop
  | .check otpId _ => Unchecked past ∧ ∃ e ∈ past, Counts otpId env.OTP_MAX_ATTEMPTS e = true
  | .issue challengeId subjectId realm => Earned past challengeId subjectId realm
  | _ => True

theorem Factor.mono {past' : List (Event Step World)} {adminId : ℕ} (h : Factor past adminId) (hsub : past ⊆ past') :
    Factor past' adminId := by
  cases h with
  | counter k e he hadvances => exact .counter k e (hsub he) hadvances
  | code id code r e hr hread hadmin he hburns => exact .code id code r e (hsub hr) hread hadmin (hsub he) hburns

theorem Shown.mono {past' : List (Event Step World)} {challenge : Challenge} (h : Shown past challenge)
    (hsub : past ⊆ past') : Shown past' challenge := by
  cases h with
  | code hrealm hcheck =>
    obtain ⟨e, he, hl⟩ := hcheck
    exact .code hrealm ⟨e, hsub he, hl⟩
  | admin row hread hcheck hfactor =>
    obtain ⟨r, hr, hrow⟩ := hread
    obtain ⟨e, he, hl⟩ := hcheck
    exact .admin row ⟨r, hsub hr, hrow⟩ ⟨e, hsub he, hl⟩ fun ha hs ↦ (hfactor ha hs).mono hsub
  | password hwrites =>
    obtain ⟨e, he, hash, hl⟩ := hwrites
    exact .password ⟨e, hsub he, hash, hl⟩

/-- A request that compares no code and opens no session. -/
def Step.plain (l : Step) : Prop := l.isCheck = false ∧ l.isIssue = false

structure Plain (past : List (Event Step World)) : Prop where
  unchecked : Unchecked past
  unissued : Unissued past

theorem Plain.concat {e : Event Step World} (h : Plain past) (he : e.label.plain) : Plain (past ++ [e]) :=
  ⟨forall_mem_concat h.unchecked he.1, forall_mem_concat h.unissued he.2⟩

theorem plain_nil : Plain [] := ⟨by simp [Unchecked], by simp [Unissued]⟩

theorem justified_plain {l : Step} (h : l.plain) : Justified env past l := by
  cases l with
  | check => cases h.1
  | issue => cases h.2
  | _ => trivial

theorem heeds_attempt {α : Type} {l : Step} {f : World → Except String α} {P : List (Event Step World) → Prop}
    (hl : l.plain) (hP : ∀ e, e.label.plain → P (past ++ [e])) :
    (Proc.attempt l f).Heeds (Justified env) (fun r past' ↦ P past' ∧ ∃ e ∈ past', e.label = l ∧ r = f e.before) past :=
  ⟨justified_plain hl, fun s ↦ ⟨hP _ hl, ⟨l, s, s.run l⟩, List.mem_concat_self, rfl, rfl⟩⟩

theorem heeds_plain {α : Type} {l : Step} {f : World → Except String α} (hl : l.plain) (h : Plain past) :
    (Proc.attempt l f).Heeds (Justified env) (fun r past' ↦ Plain past' ∧ ∃ e ∈ past', e.label = l ∧ r = f e.before)
      past :=
  heeds_attempt hl fun _ he ↦ h.concat he

theorem heeds_unissued {α : Type} {l : Step} {f : World → Except String α} (hl : l.plain) (h : Unissued past) :
    (Proc.attempt l f).Heeds (Justified env)
      (fun r past' ↦ Unissued past' ∧ ∃ e ∈ past', e.label = l ∧ r = f e.before) past :=
  heeds_attempt hl fun _ he ↦ forall_mem_concat h he.2

theorem heeds_liveChallenge (serves : Realm → Bool) (challengeId : ℕ) (now : ℤ) (h : Plain past) :
    (liveChallenge serves challengeId now).Heeds (Justified env)
      (fun r past' ↦ Plain past' ∧ ∀ challenge, r = .ok challenge →
        serves challenge.realm = true ∧ ∃ e ∈ past', e.before.challenges[challengeId]? = some challenge) past := by
  apply (heeds_plain ⟨rfl, rfl⟩ h).mono fun _ _ h ↦ h
  rintro r past' ⟨hplain, e, he, -, rfl⟩
  refine ⟨hplain, fun challenge hok ↦ ?_⟩
  split at hok
  · cases hok
  · rename_i read hread
    split_ifs at hok with hlive
    cases hok
    simp only [Bool.and_eq_true] at hlive
    exact ⟨hlive.1.1, e, he, hread⟩

theorem heeds_attempting (otpId : ℕ) (now : ℤ) (tooMany : String) (h : Plain past) :
    (attempting env otpId now tooMany).Heeds (Justified env)
      (fun r past' ↦ Plain past' ∧ ∀ row, r = .ok row → ∃ e ∈ past', Counts otpId env.OTP_MAX_ATTEMPTS e = true)
      past := by
  apply (heeds_plain ⟨rfl, rfl⟩ h).bind
  · rintro attempted past' ⟨hplain, e, he, hl, hread⟩
    cases attempted with
    | none => exact ⟨hplain, fun row hok ↦ by cases hok⟩
    | some row =>
      refine ⟨hplain, fun _ _ ↦ ⟨e, he, ?_⟩⟩
      have hread : some row = e.before.guessable otpId env.OTP_MAX_ATTEMPTS now := Except.ok.inj hread
      simp [Counts, hl, ← hread]
  · rintro message past' ⟨-, e, -, -, hread⟩
    cases hread

theorem heeds_check {otpId : ℕ} (matched : Bool) (hplain : Plain past)
    (hcounts : ∃ e ∈ past, Counts otpId env.OTP_MAX_ATTEMPTS e = true) :
    (Proc.write (.check otpId matched) : Request Unit).Heeds (Justified env)
      (fun _ past' ↦ Unissued past' ∧ ∃ e ∈ past', e.label = .check otpId matched) past :=
  ⟨⟨hplain.unchecked, hcounts⟩, fun s ↦
    ⟨forall_mem_concat hplain.unissued rfl, ⟨.check otpId matched, s, _⟩, List.mem_concat_self, rfl⟩⟩

theorem heeds_verifyCodeStep (otpId : ℕ) (now : ℤ) (code : Text) (vendorSays : Bool) (tooMany : String)
    (h : Plain past) :
    (verifyCodeStep env otpId now code vendorSays tooMany).Heeds (Justified env)
      (fun r past' ↦ Unissued past' ∧ (r = .ok () → ∃ e ∈ past', e.label = .check otpId true)) past := by
  apply (heeds_attempting otpId now tooMany h).bind
  · rintro row past₁ ⟨hplain, hcounts⟩
    apply (heeds_check _ hplain (hcounts row rfl)).bind
    · rintro - past₂ ⟨hunissued, hcheck⟩
      split_ifs with hmatched
      · rw [hmatched] at hcheck
        exact ⟨hunissued, fun _ ↦ hcheck⟩
      · exact ⟨hunissued, fun hok ↦ by cases hok⟩
    · rintro message past₂ ⟨hunissued, -⟩
      exact ⟨hunissued, fun hok ↦ by cases hok⟩
  · rintro message past₁ ⟨hplain, -⟩
    exact ⟨hplain.unissued, fun hok ↦ by cases hok⟩

theorem heeds_consuming (challengeId otpId : ℕ) (now : ℤ) (h : Unissued past) :
    (consuming challengeId otpId now).Heeds (Justified env)
      (fun r past' ↦ Unissued past' ∧ (r = .ok () → ∃ e ∈ past', Consumes challengeId e = true)) past := by
  apply (heeds_unissued ⟨rfl, rfl⟩ h).bind
  · rintro consumed past₁ ⟨hunissued, e, he, hl, hread⟩
    split_ifs with hconsumed
    · apply (heeds_unissued ⟨rfl, rfl⟩ hunissued).grows.mono fun _ _ h ↦ h
      rintro r past₂ ⟨⟨hunissued', -⟩, hsub⟩
      refine ⟨hunissued', fun _ ↦ ⟨e, hsub he, ?_⟩⟩
      simp only [Consumes, hl, decide_true, Bool.true_and]
      exact (Except.ok.inj hread).symm.trans hconsumed
    · exact ⟨hunissued, fun hok ↦ by cases hok⟩
  · rintro message past₁ ⟨hunissued, -⟩
    exact ⟨hunissued, fun hok ↦ by cases hok⟩

theorem heeds_consumeRecoveryCode (adminId otpId : ℕ) (code : Text) (now : ℤ) (hplain : Plain past)
    (hcounts : ∃ e ∈ past, Counts otpId env.OTP_MAX_ATTEMPTS e = true) :
    (AdminAuthService.consumeRecoveryCode env adminId otpId code now).Heeds (Justified env)
      (fun r past' ↦ Unissued past' ∧
        (r = .ok true → (∃ e ∈ past', e.label = .check otpId true) ∧ Factor past' adminId)) past := by
  obtain ⟨c, hc, hcounts⟩ := hcounts
  apply (heeds_plain ⟨rfl, rfl⟩ hplain).grows.bind
  · rintro candidate past₁ ⟨⟨hplain, r, hr, -, hread⟩, hsub⟩
    apply (heeds_check _ hplain ⟨c, hsub hc, hcounts⟩).grows.bind
    · rintro - past₂ ⟨⟨hunissued, hcheck⟩, hsub'⟩
      cases candidate with
      | none => exact ⟨hunissued, fun hok ↦ by cases hok⟩
      | some codeId =>
        apply (heeds_unissued ⟨rfl, rfl⟩ hunissued).grows.mono fun _ _ h ↦ h
        rintro burned past₃ ⟨⟨hunissued', e, he, hl, rfl⟩, hsub₂⟩
        refine ⟨hunissued', fun hburned ↦ ?_⟩
        obtain ⟨k, hk, hlabel⟩ := hcheck
        refine ⟨⟨k, hsub₂ hk, hlabel⟩, ?_⟩
        have hfound := List.find?_some (Except.ok.inj hread).symm
        cases hunused : r.before.unused codeId with
        | none => simp [hunused] at hfound
        | some found =>
          simp only [hunused, Option.any_some, Bool.and_eq_true, decide_eq_true_eq] at hfound
          refine .code codeId found r e (hsub₂ (hsub' hr)) hunused hfound.1 he ?_
          simp only [Burns, hl, decide_true, Bool.true_and]
          exact Except.ok.inj hburned
    · rintro message past₂ ⟨⟨hunissued, -⟩, -⟩
      exact ⟨hunissued, fun hok ↦ by cases hok⟩
  · rintro message past₁ ⟨⟨hplain, -⟩, -⟩
    exact ⟨hplain.unissued, fun hok ↦ by cases hok⟩

theorem heeds_verifyTotpCode (adminId otpId : ℕ) (secretEnc : Text) (lastCounter : Option ℤ) (code : Text)
    (hplain : Plain past) (hcounts : ∃ e ∈ past, Counts otpId env.OTP_MAX_ATTEMPTS e = true) :
    (AdminAuthService.verifyTotpCode env adminId otpId secretEnc lastCounter code).Heeds (Justified env)
      (fun r past' ↦ Unissued past' ∧
        (r = .ok () → (∃ e ∈ past', e.label = .check otpId true) ∧ Factor past' adminId)) past := by
  obtain ⟨c, hc, hcounts⟩ := hcounts
  unfold AdminAuthService.verifyTotpCode
  split
  · exact ⟨hplain.unissued, fun hok ↦ by cases hok⟩
  · apply (heeds_plain ⟨rfl, rfl⟩ hplain).grows.bind
    · rintro counter past₁ ⟨⟨hplain, -⟩, hsub⟩
      apply (heeds_check _ hplain ⟨c, hsub hc, hcounts⟩).bind
      · rintro - past₂ ⟨hunissued, k, hk, hlabel⟩
        cases counter with
        | none => exact ⟨hunissued, fun hok ↦ by cases hok⟩
        | some counter =>
          apply (heeds_unissued ⟨rfl, rfl⟩ hunissued).grows.bind
          · rintro moved past₃ ⟨⟨hunissued', e, he, hl, hread⟩, hsub'⟩
            split_ifs with hmoved
            · refine ⟨hunissued', fun _ ↦ ⟨⟨k, hsub' hk, hlabel⟩, .counter counter e he ?_⟩⟩
              simp only [Advances, hl, decide_true, Bool.true_and]
              exact (Except.ok.inj hread).symm.trans hmoved
            · exact ⟨hunissued', fun hok ↦ by cases hok⟩
          · rintro message past₃ ⟨⟨hunissued', -⟩, -⟩
            exact ⟨hunissued', fun hok ↦ by cases hok⟩
      · rintro message past₂ ⟨hunissued, -⟩
        exact ⟨hunissued, fun hok ↦ by cases hok⟩
    · rintro message past₁ ⟨⟨hplain, -⟩, -⟩
      exact ⟨hplain.unissued, fun hok ↦ by cases hok⟩

theorem heeds_secondFactor (row : AdminRow) (adminId otpId : ℕ) (otp : Text) (vendorSays : Bool) (now : ℤ)
    (h : Plain past) :
    (AdminAuthService.secondFactor env row adminId otpId otp vendorSays now).Heeds (Justified env)
      (fun r past' ↦ Unissued past' ∧ (r = .ok () → (∃ e ∈ past', e.label = .check otpId true) ∧
        (row.twofaEnabled = true → row.twofaSecretEnc.isSome = true → Factor past' adminId))) past := by
  unfold AdminAuthService.secondFactor
  split
  · rename_i secretEnc _ _
    apply (heeds_attempting otpId now _ h).bind
    · rintro attempted past₁ ⟨hplain, hcounts⟩
      split_ifs
      · apply (heeds_consumeRecoveryCode adminId otpId otp now hplain (hcounts attempted rfl)).bind
        · rintro burned past₂ ⟨hunissued, hburned⟩
          split_ifs with htrue
          · subst htrue
            exact ⟨hunissued, fun _ ↦ ⟨(hburned rfl).1, fun _ _ ↦ (hburned rfl).2⟩⟩
          · exact ⟨hunissued, fun hok ↦ by cases hok⟩
        · rintro message past₂ ⟨hunissued, -⟩
          exact ⟨hunissued, fun hok ↦ by cases hok⟩
      · apply (heeds_verifyTotpCode adminId otpId secretEnc row.twofaLastCounter otp hplain
          (hcounts attempted rfl)).mono fun _ _ h ↦ h
        rintro r past₂ ⟨hunissued, hright⟩
        exact ⟨hunissued, fun hok ↦ ⟨(hright hok).1, fun _ _ ↦ (hright hok).2⟩⟩
    · rintro message past₁ ⟨hplain, -⟩
      exact ⟨hplain.unissued, fun hok ↦ by cases hok⟩
  · rename_i hnot
    apply (heeds_verifyCodeStep otpId now otp vendorSays _ h).mono fun _ _ h ↦ h
    rintro r past₁ ⟨hunissued, hcheck⟩
    refine ⟨hunissued, fun hok ↦ ⟨hcheck hok, fun henabled hsecret ↦ ?_⟩⟩
    obtain ⟨secretEnc, hsecret⟩ := Option.isSome_iff_exists.mp hsecret
    exact (hnot secretEnc henabled hsecret).elim

/-- The challenge has been read, and what it asks for shown. -/
structure Showing (past : List (Event Step World)) (challengeId : ℕ) (challenge : Challenge) : Prop where
  read : ∃ e ∈ past, e.before.challenges[challengeId]? = some challenge
  shown : Shown past challenge

variable {challengeId : ℕ} {challenge : Challenge}

theorem Showing.mono {past' : List (Event Step World)} (h : Showing past challengeId challenge)
    (hsub : past ⊆ past') : Showing past' challengeId challenge := by
  obtain ⟨e, he, hread⟩ := h.read
  exact ⟨⟨e, hsub he, hread⟩, h.shown.mono hsub⟩

/-- After the challenge has been marked, the session is opened once. -/
structure Marked (past : List (Event Step World)) (challengeId : ℕ) (challenge : Challenge) : Prop where
  unissued : Unissued past
  consumed : ∃ e ∈ past, Consumes challengeId e = true
  showing : Showing past challengeId challenge

theorem Marked.concat {e : Event Step World} (h : Marked past challengeId challenge) (he : e.label.plain) :
    Marked (past ++ [e]) challengeId challenge := by
  obtain ⟨f, hf, hconsumes⟩ := h.consumed
  exact ⟨forall_mem_concat h.unissued he.2, ⟨f, List.mem_append_left _ hf, hconsumes⟩,
    h.showing.mono (List.subset_append_left _ _)⟩

theorem heeds_marked {α : Type} {l : Step} {f : World → Except String α} (hl : l.plain)
    (h : Marked past challengeId challenge) :
    (Proc.attempt l f).Heeds (Justified env) (fun _ past' ↦ Marked past' challengeId challenge) past :=
  (heeds_attempt hl fun _ he ↦ h.concat he).mono (fun _ _ h ↦ h) fun _ _ h ↦ h.1

theorem heeds_issue (h : Marked past challengeId challenge) :
    (Proc.write (.issue challengeId challenge.subjectId challenge.realm) : Request Unit).Heeds (Justified env)
      (fun _ _ ↦ True) past := by
  obtain ⟨e, he, hread⟩ := h.showing.read
  exact ⟨⟨h.unissued, h.consumed, e, he, challenge, hread, rfl, rfl, h.showing.shown⟩, fun _ ↦ trivial⟩

theorem heeds_consuming_showing (otpId : ℕ) (now : ℤ) (hunissued : Unissued past)
    (h : Showing past challengeId challenge) :
    (consuming challengeId otpId now).Heeds (Justified env)
      (fun r past' ↦ r = .ok () → Marked past' challengeId challenge) past := by
  apply (heeds_consuming challengeId otpId now hunissued).grows.mono fun _ _ h ↦ h
  rintro r past' ⟨⟨hunissued', hconsumed⟩, hsub⟩ hok
  exact ⟨hunissued', hconsumed hok, h.mono hsub⟩

/-- The first two steps of every second step of a login. -/
theorem heeds_entering {serves : Realm → Bool} {k : ℤ → Challenge → Request Unit}
    (hk : ∀ now challenge past, Plain past → serves challenge.realm = true →
      (∃ e ∈ past, e.before.challenges[challengeId]? = some challenge) →
      (k now challenge).Heeds (Justified env) (fun _ _ ↦ True) past) :
    ((Proc.query .look (·.now) : Request ℤ).bind fun now ↦
      (liveChallenge serves challengeId now).bind fun challenge ↦ k now challenge).Heeds (Justified env)
      (fun _ _ ↦ True) [] := by
  apply (heeds_plain ⟨rfl, rfl⟩ plain_nil).bind
  · rintro now past₁ ⟨hplain, -⟩
    apply (heeds_liveChallenge serves challengeId now hplain).bind
    · rintro challenge past₂ ⟨hplain, hlive⟩
      obtain ⟨hserves, hread⟩ := hlive challenge rfl
      exact hk now challenge past₂ hplain hserves hread
    · exact fun _ _ _ ↦ trivial
  · exact fun _ _ _ ↦ trivial

/-- A code step and what follows it. -/
theorem heeds_codeStep {now : ℤ} {otp : Text} {vendorSays : Bool} {tooMany : String} {k : Request Unit}
    (hplain : Plain past) (hrealm : challenge.realm ≠ .admin)
    (hread : ∃ e ∈ past, e.before.challenges[challengeId]? = some challenge)
    (hk : ∀ past, Marked past challengeId challenge → k.Heeds (Justified env) (fun _ _ ↦ True) past) :
    ((verifyCodeStep env challenge.otpId now otp vendorSays tooMany).bind fun _ ↦
      (consuming challengeId challenge.otpId now).bind fun _ ↦ k).Heeds (Justified env) (fun _ _ ↦ True) past := by
  obtain ⟨e, he, hread⟩ := hread
  apply (heeds_verifyCodeStep challenge.otpId now otp vendorSays tooMany hplain).grows.bind
  · rintro ⟨⟩ past₁ ⟨⟨hunissued, hcheck⟩, hsub⟩
    apply (heeds_consuming_showing challenge.otpId now hunissued
      ⟨⟨e, hsub he, hread⟩, .code hrealm (hcheck rfl)⟩).bind
    · exact fun _ past₂ hmarked ↦ hk past₂ (hmarked rfl)
    · exact fun _ _ _ ↦ trivial
  · exact fun _ _ _ ↦ trivial

theorem heeds_ownerVerify (challengeId : ℕ) (otp : Text) (vendorSays : Bool) :
    (AuthService.verify env challengeId otp vendorSays).Heeds (Justified env) (fun _ _ ↦ True) [] := by
  apply heeds_entering
  intro now challenge past hplain hserves hread
  have hrealm : challenge.realm = .fleet := by simpa using hserves
  apply heeds_codeStep hplain (by simp [hrealm]) hread
  intro past₁ hmarked
  apply (heeds_marked ⟨rfl, rfl⟩ hmarked).bind
  · intro fleet past₂ hmarked
    split
    · trivial
    · trivial
    · apply (heeds_marked ⟨rfl, rfl⟩ hmarked).bind
      · intro _ past₃ hmarked
        rw [← hrealm]
        exact heeds_issue hmarked
      · exact fun _ _ _ ↦ trivial
  · exact fun _ _ _ ↦ trivial

theorem heeds_verifyOtp (challengeId : ℕ) (otp : Text) (vendorSays : Bool) :
    (AuthPublicService.verifyOtp env challengeId otp vendorSays).Heeds (Justified env) (fun _ _ ↦ True) [] := by
  apply heeds_entering
  intro now challenge past hplain hserves hread
  apply heeds_codeStep hplain ?_ hread
  · intro past₁ hmarked
    apply (heeds_marked ⟨rfl, rfl⟩ hmarked).bind
    · intro present past₂ hmarked
      split_ifs
      · exact heeds_issue hmarked
      · trivial
    · exact fun _ _ _ ↦ trivial
  · intro hadmin
    rw [hadmin] at hserves
    cases hserves

theorem heeds_requireActiveAdmin (adminId : ℕ) (h : Plain past) :
    (AdminAuthService.requireActiveAdmin adminId).Heeds (Justified env)
      (fun r past' ↦ Plain past' ∧ ∀ row, r = .ok row → ∃ e ∈ past', e.before.admins adminId = some row) past := by
  apply (heeds_plain ⟨rfl, rfl⟩ h).mono fun _ _ h ↦ h
  rintro r past' ⟨hplain, e, he, -, rfl⟩
  refine ⟨hplain, fun row hok ↦ ⟨e, he, ?_⟩⟩
  cases hactive : (e.before.admins adminId).filter (·.active) with
  | none => simp [hactive] at hok
  | some read =>
    rw [hactive] at hok
    cases hok
    exact (Option.filter_eq_some_iff.mp hactive).1

theorem heeds_adminVerify (challengeId : ℕ) (otp : Text) (vendorSays : Bool) :
    (AdminAuthService.verify env challengeId otp vendorSays).Heeds (Justified env) (fun _ _ ↦ True) [] := by
  apply heeds_entering
  intro now challenge past hplain hserves hread
  have hrealm : challenge.realm = .admin := by simpa using hserves
  obtain ⟨e, he, hread⟩ := hread
  apply (heeds_requireActiveAdmin challenge.subjectId hplain).grows.bind
  · rintro row past₁ ⟨⟨hplain, hrow⟩, hsub⟩
    obtain ⟨r, hr, hrow⟩ := hrow row rfl
    split_ifs
    · trivial
    · apply (heeds_secondFactor row challenge.subjectId challenge.otpId otp vendorSays now hplain).grows.bind
      · rintro ⟨⟩ past₂ ⟨⟨hunissued, hshows⟩, hsub'⟩
        obtain ⟨hcheck, hfactor⟩ := hshows rfl
        apply (heeds_consuming_showing challenge.otpId now hunissued
          ⟨⟨e, hsub' (hsub he), hread⟩, .admin row ⟨r, hsub' hr, hrow⟩ hcheck hfactor⟩).bind
        · intro _ past₃ hmarked
          apply (heeds_marked ⟨rfl, rfl⟩ (hmarked rfl)).bind
          · intro _ past₄ hmarked
            apply (heeds_marked ⟨rfl, rfl⟩ hmarked).bind
            · intro _ past₅ hmarked
              rw [← hrealm]
              exact heeds_issue hmarked
            · exact fun _ _ _ ↦ trivial
          · exact fun _ _ _ ↦ trivial
        · exact fun _ _ _ ↦ trivial
      · exact fun _ _ _ ↦ trivial
  · exact fun _ _ _ ↦ trivial

theorem heeds_completePasswordChange (challengeId : ℕ) (newPasswordHash : Text) :
    (AdminAuthService.completePasswordChange challengeId newPasswordHash).Heeds (Justified env) (fun _ _ ↦ True)
      [] := by
  apply heeds_entering
  intro now challenge past hplain hserves hread
  have hrealm : challenge.realm = .admin := by simpa using hserves
  obtain ⟨e, he, hread⟩ := hread
  apply (heeds_requireActiveAdmin challenge.subjectId hplain).grows.bind
  · rintro row past₁ ⟨⟨hplain, -⟩, hsub⟩
    split_ifs
    · apply (heeds_plain ⟨rfl, rfl⟩ hplain).grows.bind
      · rintro - past₂ ⟨⟨hplain, s, hs, hsets, -⟩, hsub'⟩
        apply (heeds_consuming_showing challenge.otpId now hplain.unissued
          ⟨⟨e, hsub' (hsub he), hread⟩, .password ⟨s, hs, newPasswordHash, hsets⟩⟩).bind
        · intro _ past₃ hmarked
          apply (heeds_marked ⟨rfl, rfl⟩ (hmarked rfl)).bind
          · intro _ past₄ hmarked
            rw [← hrealm]
            exact heeds_issue hmarked
          · exact fun _ _ _ ↦ trivial
        · exact fun _ _ _ ↦ trivial
      · exact fun _ _ _ ↦ trivial
    · trivial
  · exact fun _ _ _ ↦ trivial

/-! The other requests neither compare a code nor open a session. -/

theorem plain_passwordStep {fails : Step} (hfails : fails.plain) (credential : Option Credential) (password : Text)
    (now : ℤ) : (passwordStep env fails credential password now).Only Step.plain := by
  unfold passwordStep
  split
  · trivial
  · split_ifs
    · trivial
    · trivial
    · exact ⟨hfails, fun _ ↦ trivial⟩

theorem plain_challenging (codeHash : Text) (vendorRef : Option Text) (subjectId : ℕ) (realm : Realm) (now : ℤ) :
    (challenging env codeHash vendorRef subjectId realm now).Only Step.plain := by
  refine ⟨⟨rfl, rfl⟩, fun _ ↦ ⟨⟨rfl, rfl⟩, fun _ ↦ ?_⟩⟩
  cases vendorRef with
  | none => trivial
  | some vendorRef => exact ⟨⟨rfl, rfl⟩, fun _ ↦ trivial⟩

theorem plain_ownerLogin (ownerId : ℕ) (password code : Text) (vendorRef : Option Text) :
    (AuthService.login env ownerId password code vendorRef).Only Step.plain := by
  refine ⟨⟨rfl, rfl⟩, fun _ ↦ ⟨⟨rfl, rfl⟩, fun _ ↦ ?_⟩⟩
  apply (plain_passwordStep ⟨rfl, rfl⟩ _ _ _).bind
  intro _
  refine ⟨⟨rfl, rfl⟩, fun s ↦ ?_⟩
  simp only [Proc.bind_ok]
  split
  · trivial
  · trivial
  · exact ⟨⟨rfl, rfl⟩, fun _ ↦ plain_challenging _ _ _ _ _⟩

theorem plain_adminLogin (adminId : ℕ) (password code : Text) (vendorRef : Option Text) :
    (AdminAuthService.login env adminId password code vendorRef).Only Step.plain := by
  refine ⟨⟨rfl, rfl⟩, fun _ ↦ ⟨⟨rfl, rfl⟩, fun _ ↦ ?_⟩⟩
  apply (plain_passwordStep ⟨rfl, rfl⟩ _ _ _).bind
  intro _
  split_ifs
  · exact ⟨⟨rfl, rfl⟩, fun _ ↦ plain_challenging TOTP_NO_SMS_CODE_HASH none adminId .admin _⟩
  · exact ⟨⟨rfl, rfl⟩, fun _ ↦ plain_challenging (env.digest code) vendorRef adminId .admin _⟩
  · trivial

theorem plain_asActive {adminId : ℕ} {k : AdminRow → Request Unit} (hk : ∀ row, (k row).Only Step.plain) :
    ((AdminAuthService.requireActiveAdmin adminId).bind k).Only Step.plain :=
  Proc.Only.bind ⟨⟨rfl, rfl⟩, fun _ ↦ trivial⟩ hk

theorem plain_write {l : Step} (h : l.plain) : (Proc.write l : Request Unit).Only Step.plain := ⟨h, fun _ ↦ trivial⟩

theorem signsIn_heeds {p : Request Unit} (h : SignsIn env p) : p.Heeds (Justified env) (fun _ _ ↦ True) [] := by
  have honly (h : p.Only Step.plain) : p.Heeds (Justified env) (fun _ _ ↦ True) [] :=
    .of_only h (fun _ _ _ hl ↦ justified_plain hl) (fun _ _ _ ↦ trivial) trivial
  cases h with
  | ownerVerify challengeId otp vendorSays => exact heeds_ownerVerify challengeId otp vendorSays
  | verifyOtp challengeId otp vendorSays => exact heeds_verifyOtp challengeId otp vendorSays
  | adminVerify challengeId otp vendorSays => exact heeds_adminVerify challengeId otp vendorSays
  | completePasswordChange challengeId newPasswordHash =>
    exact heeds_completePasswordChange challengeId newPasswordHash
  | ownerLogin ownerId password code vendorRef => exact honly (plain_ownerLogin ..).ignore
  | adminLogin adminId password code vendorRef => exact honly (plain_adminLogin ..).ignore
  | sendOtp driver subjectId code vendorRef =>
    exact honly (Proc.Only.ignore ⟨⟨rfl, rfl⟩, fun _ ↦ plain_challenging _ _ _ _ _⟩)
  | totpEnroll adminId secretEnc =>
    apply honly
    apply plain_asActive
    intro row
    split_ifs
    · trivial
    · exact ⟨⟨rfl, rfl⟩, fun _ ↦ plain_write ⟨rfl, rfl⟩⟩
  | totpConfirm adminId code =>
    apply honly
    apply plain_asActive
    intro row
    split_ifs
    · trivial
    · split
      · trivial
      · refine ⟨⟨rfl, rfl⟩, fun s ↦ ?_⟩
        simp only [Proc.bind_ok]
        split_ifs
        · exact plain_write ⟨rfl, rfl⟩
        · trivial
  | totpDisable adminId =>
    apply honly
    apply plain_asActive
    intro row
    split_ifs
    · exact ⟨⟨rfl, rfl⟩, fun _ ↦ plain_write ⟨rfl, rfl⟩⟩
    · trivial
  | totpRecoveryCodes adminId codeHashes =>
    apply honly
    apply plain_asActive
    intro row
    split_ifs
    · exact ⟨⟨rfl, rfl⟩, fun _ ↦ plain_write ⟨rfl, rfl⟩⟩
    · trivial
  | tick | employ | resetPassword | setActive | restand | enrol => exact honly (plain_write ⟨rfl, rfl⟩)

end Towing.Login
