import Towing.Auth.Justified
import Towing.Process.Permits

namespace Towing.Auth

open Towing.Process

variable {env : Env} {s₀ w : World} {cs : List (Call Step World Refusal)} {es : List (ℕ × Event Step World)}
  {l : Step} {F i j m n t : ℕ} {e f : Event Step World} {row row' : RefreshToken}

/-! What becomes of the rows in the course of a run. -/

/-- Every token there is stays, and ages. -/
def Later (w w' : World) : Prop :=
  ∀ t row, w.tokens t = some row → ∃ row', w'.tokens t = some row' ∧ row.Ages row'

theorem Later.refl (w : World) : Later w w := fun _ row h ↦ ⟨row, h, .refl row⟩

theorem Later.trans {w w' w'' : World} (h : Later w w') (h' : Later w' w'') : Later w w'' := by
  intro t row hrow
  obtain ⟨row', hrow', hages⟩ := h t row hrow
  obtain ⟨row'', hrow'', hages'⟩ := h' t row' hrow'
  exact ⟨row'', hrow'', hages.trans hages'⟩

theorem later_of_makes (h : Calls (Sessions env) s₀ cs w es) (he : Makes es i n e) : Later e.before e.after := by
  rw [commit_of_makes h he]
  exact fun t row hrow ↦ token_ages e.label hrow

theorem later_before (h : Calls (Sessions env) s₀ cs w es) (hij : i ≤ j) (he : Makes es i m e)
    (hf : Makes es j n f) : Later e.before f.before :=
  h.rel_later Later.refl (fun _ _ _ ↦ Later.trans) (fun l _ _ _ hrow ↦ token_ages l hrow) hij he hf

/-- What a commit leaves is there, older, when a later one comes. -/
theorem later_after (h : Calls (Sessions env) s₀ cs w es) (hij : i < j) (he : Makes es i m e)
    (hf : Makes es j n f) : Later e.after f.before :=
  h.rel_after Later.refl (fun _ _ _ ↦ Later.trans) (fun l _ _ _ hrow ↦ token_ages l hrow) hij he hf

theorem Claims.found (h : Claims t row e) : e.before.tokens t = some row ∧ row.live = true := by
  obtain ⟨realms, now, -, hclaim⟩ := h
  obtain ⟨hrow, -, hlive, -⟩ := claimable_iff.mp hclaim
  exact ⟨hrow, hlive⟩

/-- A claimed token is used up. -/
theorem Claims.uses (h : Claims t row e) (he : e.after = e.before.run e.label) :
    ∃ row', e.after.tokens t = some row' ∧ row'.toNewToken = row.toNewToken ∧ row'.live = false := by
  obtain ⟨realms, now, hl, hclaim⟩ := h
  rw [he, token_run, hl]
  refine ⟨{ row with rotatedAt := some now, updatedAt := now }, by simp [World.tokenAfter, hclaim], rfl, ?_⟩
  simp [RefreshToken.live, RefreshToken.used]

theorem not_live_later (h : row.Ages row') (hlive : row.live = false) : row'.live = false := by
  cases hlive' : row'.live with
  | false => rfl
  | true =>
    rw [h.live hlive'] at hlive
    cases hlive

theorem claimed_once (h : Calls (Sessions env) s₀ cs w es) (he : Makes es i m e) (hclaims : Claims t row e)
    (hf : Makes es j n f) (hclaims' : Claims t row' f) : i = j := by
  have hfirst {i j m n : ℕ} {e f : Event Step World} {row row' : RefreshToken} (he : Makes es i m e)
      (hclaims : Claims t row e) (hf : Makes es j n f) (hclaims' : Claims t row' f) : ¬i < j := by
    intro hij
    obtain ⟨used, hused, -, hdead⟩ := hclaims.uses (commit_of_makes h he)
    obtain ⟨found, hfound, hages⟩ := later_after h hij he hf t used hused
    obtain ⟨hrow, hlive⟩ := hclaims'.found
    obtain rfl := Option.some.inj (hfound.symm.trans hrow)
    rw [not_live_later hages hdead] at hlive
    cases hlive
  have hle := hfirst he hclaims hf hclaims'
  have hge := hfirst hf hclaims' he hclaims
  omega

/-! A family has one token at a time, or a rotation that is about to mint it. -/

/-- The request has claimed a token of the family, and minted none since. -/
def Pending (es : List (ℕ × Event Step World)) (F n : ℕ) : Prop :=
  (∃ t row, ∃ e ∈ own n es, Claims t row e ∧ row.familyId = F) ∧ ∀ f ∈ own n es, f.label.inserts = false

structure Orderly (w : World) (es : List (ℕ × Event Step World)) : Prop where
  below : ∀ t row, w.tokens t = some row → row.familyId < w.nextFamily
  drawn : ∀ n, ∀ e ∈ own n es, e.label = .randomUUID → e.before.nextFamily < w.nextFamily
  draws : ∀ m n, ∀ e ∈ own m es, ∀ f ∈ own n es, e.label = .randomUUID → f.label = .randomUUID →
    e.before.nextFamily = f.before.nextFamily → m = n
  claimed : ∀ n t row, ∀ e ∈ own n es, Claims t row e → ∃ row', w.tokens t = some row' ∧
    row'.toNewToken = row.toNewToken
  /-- A family that has been drawn has no tokens until its login mints one. -/
  free : ∀ n, ∀ e ∈ own n es, e.label = .randomUUID → (∀ f ∈ own n es, f.label.inserts = false) →
    ∀ t row, w.tokens t = some row → row.familyId ≠ e.before.nextFamily
  one : ∀ t t' row row', w.tokens t = some row → w.tokens t' = some row' → row.live = true →
    row'.live = true → row.familyId = row'.familyId → t = t'
  kin : ∀ t t' row row', w.tokens t = some row → w.tokens t' = some row' → row.familyId = row'.familyId →
    row.subjectId = row'.subjectId ∧ row.realm = row'.realm
  alone : ∀ F n, Pending es F n → ∀ t row, w.tokens t = some row → row.live = true → row.familyId ≠ F
  once : ∀ F m n, Pending es F m → Pending es F n → m = n

theorem mem_own_snoc : f ∈ own m (es ++ [(n, e)]) ↔ f ∈ own m es ∨ n = m ∧ f = e := by
  rw [own_append, List.mem_append]
  by_cases hnm : n = m
  · subst hnm
    simp [own_self]
  · simp [own_other hnm, hnm]

theorem pending_before (h : Pending (es ++ [(n, e)]) F m) :
    Pending es F m ∨ n = m ∧ (∃ t row, Claims t row e ∧ row.familyId = F) := by
  obtain ⟨⟨t, row, f, hf, hclaims, hfamily⟩, hnone⟩ := h
  rcases mem_own_snoc.mp hf with hf | ⟨rfl, rfl⟩
  · exact .inl ⟨⟨t, row, f, hf, hclaims, hfamily⟩, fun g hg ↦ hnone g (mem_own_snoc.mpr (.inl hg))⟩
  · exact .inr ⟨rfl, t, row, hclaims, hfamily⟩

/-- A token comes from a login, or from a rotation that has claimed one. -/
theorem origin_of_insert {asked : Request Unit} {new : NewToken}
    (hl : Justified env asked (own n es) (.insert t new)) :
    (∃ r ∈ own n es, r.label = .randomUUID ∧ new.familyId = r.before.nextFamily ∧
      ∀ q ∈ own n es, q.label.inserts = false) ∨ Pending es new.familyId n := by
  cases hl with
  | quiet hq => cases hq
  | login hr hlabel hfamily hnone => exact .inl ⟨_, hr, hlabel, hfamily, hnone⟩
  | child hr hclaims hfamily _ _ hnone => exact .inr ⟨⟨_, _, _, hr, hclaims, hfamily.symm⟩, hnone⟩

theorem Orderly.family_found (h : Orderly w es) (hpending : Pending es F n) :
    ∃ t row, w.tokens t = some row ∧ row.familyId = F := by
  obtain ⟨⟨t, row, e, he, hclaims, rfl⟩, -⟩ := hpending
  obtain ⟨row', hrow', hsame⟩ := h.claimed n t row e he hclaims
  exact ⟨t, row', hrow', by rw [hsame]⟩

/-- A new token's family has no other live one. -/
theorem Orderly.only_new {asked : Request Unit} {new : NewToken} (h : Orderly w es)
    (hl : Justified env asked (own n es) (.insert t new)) {t' : ℕ} (hrow : w.tokens t' = some row)
    (hlive : row.live = true) : row.familyId ≠ new.familyId := by
  rcases origin_of_insert hl with ⟨r, hr, hlabel, hfamily, hnone⟩ | hpending
  · rw [hfamily]
    exact h.free n r hr hlabel hnone t' row hrow
  · exact h.alone _ n hpending t' row hrow hlive

theorem Orderly.kin_new {asked : Request Unit} {new : NewToken} (h : Orderly w es)
    (hl : Justified env asked (own n es) (.insert t new)) {t' : ℕ} (hrow : w.tokens t' = some row)
    (hfamily : row.familyId = new.familyId) : row.subjectId = new.subjectId ∧ row.realm = new.realm := by
  cases hl with
  | quiet hq => cases hq
  | login hr hlabel hdrawn hnone => exact absurd (hfamily.trans hdrawn) (h.free n _ hr hlabel hnone t' row hrow)
  | child hr hclaims hparent hsubject hrealm _ =>
    obtain ⟨row', hrow', hsame⟩ := h.claimed n _ _ _ hr hclaims
    have hkin := h.kin t' _ row row' hrow hrow' (by rw [hsame, hfamily, hparent])
    rw [hsame] at hkin
    rwa [hsubject, hrealm]

theorem Orderly.commit {asked : Request Unit} (h : Orderly w es) (hl : Justified env asked (own n es) l) :
    Orderly (w.run l) (es ++ [(n, committed l w)]) where
  below t row hrow := by
    have hgrows := nextFamily_run w l
    rcases token_brought hrow with ⟨old, hold, hages⟩ | ⟨new, rfl, -, rfl⟩
    · have := h.below t old hold
      rw [hages.token]
      omega
    · rcases origin_of_insert hl with ⟨r, hr, hlabel, hfamily, -⟩ | hpending
      · have := h.drawn n r hr hlabel
        show new.familyId < _
        omega
      · obtain ⟨t', parent, hparent, hfamily⟩ := h.family_found hpending
        have := h.below t' parent hparent
        show new.familyId < _
        omega
  drawn m e he hlabel := by
    rcases mem_own_snoc.mp he with he | ⟨rfl, rfl⟩
    · exact Nat.lt_of_lt_of_le (h.drawn m e he hlabel) (nextFamily_run w l)
    · obtain rfl : l = .randomUUID := hlabel
      exact Nat.lt_succ_self _
  draws m m' e he f hf hlabel hlabel' heq := by
    rcases mem_own_snoc.mp he with he | ⟨rfl, rfl⟩
    · rcases mem_own_snoc.mp hf with hf | ⟨rfl, rfl⟩
      · exact h.draws m m' e he f hf hlabel hlabel' heq
      · have := h.drawn m e he hlabel
        simp only [committed] at heq
        omega
    · rcases mem_own_snoc.mp hf with hf | ⟨rfl, rfl⟩
      · have := h.drawn m' f hf hlabel'
        simp only [committed] at heq
        omega
      · rfl
  claimed m t row e he hclaims := by
    rcases mem_own_snoc.mp he with he | ⟨rfl, rfl⟩
    · obtain ⟨row', hrow', hsame⟩ := h.claimed m t row e he hclaims
      obtain ⟨row'', hrow'', hages⟩ := token_ages l hrow'
      exact ⟨row'', hrow'', hages.token.trans hsame⟩
    · obtain ⟨row', hrow', hsame, -⟩ := hclaims.uses rfl
      exact ⟨row', hrow', hsame⟩
  free m e he hlabel hnone t row hrow := by
    have hnone' : ∀ f ∈ own m es, f.label.inserts = false := fun f hf ↦ hnone f (mem_own_snoc.mpr (.inl hf))
    rcases token_brought hrow with ⟨old, hold, hages⟩ | ⟨new, rfl, -, rfl⟩
    · rw [hages.token]
      rcases mem_own_snoc.mp he with he | ⟨rfl, rfl⟩
      · exact h.free m e he hlabel hnone' t old hold
      · exact Nat.ne_of_lt (h.below t old hold)
    · have hnm : n ≠ m := by
        rintro rfl
        have := hnone _ (mem_own_snoc.mpr (.inr ⟨rfl, rfl⟩))
        cases this
      rcases mem_own_snoc.mp he with he | ⟨heq, -⟩
      · show new.familyId ≠ _
        rcases origin_of_insert hl with ⟨r, hr, hlabel', hfamily, -⟩ | hpending
        · rw [hfamily]
          exact fun heq ↦ hnm (h.draws n m r hr e he hlabel' hlabel heq)
        · obtain ⟨t', parent, hparent, hfamily⟩ := h.family_found hpending
          rw [← hfamily]
          exact h.free m e he hlabel hnone' t' parent hparent
      · exact absurd heq hnm
  one t t' row row' hrow hrow' hlive hlive' hfamily := by
    rcases token_brought hrow with ⟨old, hold, hages⟩ | ⟨new, rfl, -, rfl⟩
    · rcases token_brought hrow' with ⟨old', hold', hages'⟩ | ⟨new, rfl, -, rfl⟩
      · rw [hages.token, hages'.token] at hfamily
        exact h.one t t' old old' hold hold' (hages.live hlive) (hages'.live hlive') hfamily
      · rw [hages.token] at hfamily
        exact absurd hfamily (h.only_new hl hold (hages.live hlive))
    · rcases token_brought hrow' with ⟨old', hold', hages'⟩ | ⟨new', heq, -, rfl⟩
      · rw [hages'.token] at hfamily
        exact absurd hfamily.symm (h.only_new hl hold' (hages'.live hlive'))
      · cases heq
        rfl
  kin t t' row row' hrow hrow' hfamily := by
    rcases token_brought hrow with ⟨old, hold, hages⟩ | ⟨new, rfl, -, rfl⟩
    · rw [hages.token] at hfamily ⊢
      rcases token_brought hrow' with ⟨old', hold', hages'⟩ | ⟨new, rfl, -, rfl⟩
      · rw [hages'.token] at hfamily ⊢
        exact h.kin t t' old old' hold hold' hfamily
      · exact h.kin_new hl hold hfamily
    · rcases token_brought hrow' with ⟨old', hold', hages'⟩ | ⟨new', heq, -, rfl⟩
      · rw [hages'.token] at hfamily ⊢
        obtain ⟨hsubject, hrealm⟩ := h.kin_new hl hold' hfamily.symm
        exact ⟨hsubject.symm, hrealm.symm⟩
      · cases heq
        exact ⟨rfl, rfl⟩
  alone F m hpending t row hrow hlive := by
    rcases token_brought hrow with ⟨old, hold, hages⟩ | ⟨new, rfl, -, rfl⟩
    · rw [hages.token]
      rcases pending_before hpending with hpending | ⟨rfl, t', claimed, hclaims, rfl⟩
      · exact h.alone F m hpending t old hold (hages.live hlive)
      · intro hfamily
        obtain ⟨hfound, hlive'⟩ := hclaims.found
        obtain rfl := h.one t t' old claimed hold hfound (hages.live hlive) hlive' hfamily
        obtain ⟨used, hused, -, hdead⟩ := hclaims.uses rfl
        obtain rfl := Option.some.inj (hrow.symm.trans hused)
        rw [hdead] at hlive
        cases hlive
    · have hnm : n ≠ m := by
        rintro rfl
        have := hpending.2 _ (mem_own_snoc.mpr (.inr ⟨rfl, rfl⟩))
        cases this
      rcases pending_before hpending with hpending | ⟨heq, -⟩
      · show new.familyId ≠ F
        rintro rfl
        rcases origin_of_insert hl with ⟨r, hr, hlabel, hfamily, hnone⟩ | hpending'
        · obtain ⟨t', parent, hparent, hfamily'⟩ := h.family_found hpending
          exact h.free n r hr hlabel hnone t' parent hparent (hfamily'.trans hfamily)
        · exact hnm (h.once _ n m hpending' hpending)
      · exact absurd heq hnm
  once F m m' hpending hpending' := by
    have hclash {m m' : ℕ} {t : ℕ} {row : RefreshToken} (hclaims : Claims t row (committed l w))
        (hfamily : row.familyId = F) (hpending : Pending es F m) : m = m' := by
      obtain ⟨hfound, hlive⟩ := hclaims.found
      exact absurd hfamily (h.alone F m hpending t row hfound hlive)
    rcases pending_before hpending with hpending | ⟨rfl, t, row, hclaims, hfamily⟩
    · rcases pending_before hpending' with hpending' | ⟨rfl, t, row, hclaims, hfamily⟩
      · exact h.once F m m' hpending hpending'
      · exact hclash hclaims hfamily hpending
    · rcases pending_before hpending' with hpending' | ⟨rfl, -⟩
      · exact (hclash hclaims hfamily hpending').symm
      · rfl

theorem orderly (h : Calls (Sessions env) s₀ cs w es) (hs : s₀.Fresh) : Orderly w es := by
  induction h with
  | start =>
    constructor <;> simp [hs.tokens, own, Pending]
  | ask _ _ ih => exact ih
  | @commit cs s es n p l next h hn ih =>
    have hnew := h.commit hn
    obtain ⟨c, -, hjustified⟩ := justified_of_makes hnew (makes_snoc.mpr (.inr ⟨rfl, rfl⟩))
    rw [List.take_left] at hjustified
    exact ih.commit hjustified

/-! What a presentation does. -/

theorem answers_of_makes (h : Calls (Sessions env) s₀ cs w es) {allowed : List Realm}
    {answer : Except Refusal TokenPair} (he : Makes es i n e) (hl : e.label = .respond t allowed answer) :
    Answers (own n (es.take i)) t allowed answer := by
  obtain ⟨c, -, hjustified⟩ := justified_of_makes h he
  rw [hl] at hjustified
  cases hjustified with
  | quiet hq => cases hq
  | respond hanswers => exact hanswers

/-- A claim is the second step of its request, after its look at the clock. -/
theorem claim_second (h : Calls (Sessions env) s₀ cs w es) {realms : List Realm} {now : ℕ}
    (he : Makes es i n e) (hl : e.label = .claim t realms now) :
    ∃ r, own n (es.take i) = [r] ∧ r.label = .readClock ∧ now = r.before.now := by
  obtain ⟨c, -, hjustified⟩ := justified_of_makes h he
  rw [hl] at hjustified
  generalize hpast : own n (es.take i) = past at hjustified
  cases hjustified with
  | quiet hq => cases hq
  | claim _ hone hlabel => exact ⟨_, hone, hlabel, rfl⟩

/-- A step of the request other than its look at the clock comes after its claim. -/
theorem claim_before (h : Calls (Sessions env) s₀ cs w es) {realms : List Realm} {now : ℕ}
    (he : Makes es i n e) (hl : e.label = .claim t realms now) (hf : Makes es j n f)
    (hclock : f.label ≠ .readClock) (hclaim : ∀ realms now, f.label ≠ .claim t realms now) : i < j := by
  obtain ⟨r, hown, hlabel, -⟩ := claim_second h he hl
  rcases Nat.lt_trichotomy i j with hlt | rfl | hgt
  · exact hlt
  · obtain ⟨-, rfl⟩ := he.unique hf
    exact absurd hl (hclaim realms now)
  · have hmem := mem_own_of_makes hgt hf
    rw [hown] at hmem
    rw [List.mem_singleton.mp hmem] at hclock
    exact absurd hlabel hclock

/-- A request claims once. -/
theorem claims_once (h : Calls (Sessions env) s₀ cs w es) {t' : ℕ} {realms realms' : List Realm} {now now' : ℕ}
    (he : Makes es i n e) (hl : e.label = .claim t realms now) (hf : Makes es j n f)
    (hl' : f.label = .claim t' realms' now') : i = j := by
  have hfirst {i j t t' now now' : ℕ} {realms realms' : List Realm} {e f : Event Step World} (he : Makes es i n e)
      (hl : e.label = .claim t realms now) (hf : Makes es j n f) (hl' : f.label = .claim t' realms' now') :
      ¬i < j := by
    intro hij
    obtain ⟨r, hown, hlabel, -⟩ := claim_second h hf hl'
    have hmem := mem_own_of_makes hij he
    rw [hown, List.mem_singleton] at hmem
    rw [hmem, hlabel] at hl
    cases hl
  have hle := hfirst he hl hf hl'
  have hge := hfirst hf hl' he hl
  omega

theorem minted_once (h : Calls (Sessions env) s₀ cs w es) {new new' : NewToken} (he : Makes es i m e)
    (hmints : Mints t new e) (hf : Makes es j n f) (hmints' : Mints t new' f) : i = j := by
  have hfirst {i j m n : ℕ} {e f : Event Step World} {new new' : NewToken} (he : Makes es i m e)
      (hmints : Mints t new e) (hf : Makes es j n f) (hmints' : Mints t new' f) : ¬i < j := by
    intro hij
    have hafter : e.after.tokens t = some (new.stored e.before.now) := by
      rw [commit_of_makes h he, token_run, hmints.1]
      simp [World.tokenAfter, hmints.2]
    obtain ⟨found, hfound, -⟩ := later_after h hij he hf t _ hafter
    rw [hmints'.2] at hfound
    cases hfound
  have hle := hfirst he hmints hf hmints'
  have hge := hfirst hf hmints' he hmints
  omega

theorem parked_brought {parked : ParkedPair} {x : ℕ} (h : (w.run l).parked t = some (parked, x)) :
    w.parked t = some (parked, x) ∨ ∃ seconds, l = .remember t parked seconds ∧ w.redisUp = true := by
  rw [parked_run] at h
  cases l with
  | remember t' parked' seconds =>
    simp only [World.parkedAfter] at h
    split_ifs at h with hparks
    · obtain ⟨rfl, -⟩ := Prod.mk.inj (Option.some.inj h)
      exact .inr ⟨seconds, by rw [hparks.1], hparks.2⟩
    · exact .inl h
  | _ => exact .inl h

/-- A pair that is found parked has been minted by the rotation that has claimed the
token it is parked for. -/
theorem finds_minted (h : Calls (Sessions env) s₀ cs w es) (hs : s₀.Fresh) {parked : ParkedPair}
    (hf : Makes es j n f) (hfinds : Finds t parked f) :
    ∃ k i i' m e g row child, i < k ∧ i' < k ∧ k < j ∧ Makes es i m e ∧ Claims t row e ∧ Makes es i' m g ∧
      Mints parked.pair.refreshToken child g ∧ parked.realm = row.realm := by
  obtain ⟨-, hfound⟩ := hfinds
  unfold World.parkedPair at hfound
  obtain ⟨⟨parked', x⟩, hparked, rfl⟩ := Option.map_eq_some_iff.mp hfound
  have hparked := (Option.filter_eq_some_iff.mp hparked).1
  obtain ⟨k, r, hkj, hr, hnot, hafter, -⟩ := h.chained.origin
    (R := fun w ↦ w.parked t = some (parked', x)) (by simp [hs.parked]) hf.event hparked
  obtain ⟨m, hr⟩ := makes_of_event hr
  rw [commit_of_makes h hr] at hafter
  rcases parked_brought hafter with hbefore | ⟨seconds, hl, -⟩
  · exact absurd hbefore hnot
  · obtain ⟨c, -, hjustified⟩ := justified_of_makes h hr
    rw [hl] at hjustified
    cases hjustified with
    | quiet hq => cases hq
    | remember _ he hclaims hg hmints hrealm =>
      obtain ⟨i, hi, he⟩ := makes_of_own he
      obtain ⟨i', hi', hg⟩ := makes_of_own hg
      exact ⟨k, i, i', m, _, _, _, _, hi, hi', hkj, he, hclaims, hg, hmints, hrealm⟩

theorem revoked_by {familyId now : ℕ} {reason : String} (hrow : (w.run (.revokeFamily familyId reason now)).tokens t = some row)
    (hfamily : row.familyId = familyId) : row.revokedAt.isSome = true := by
  rw [token_run] at hrow
  obtain ⟨old, -, rfl⟩ := Option.map_eq_some_iff.mp hrow
  rw [(ages_revoke _ _ _ _).token] at hfamily
  unfold RefreshToken.revoke
  split_ifs with hnot
  · rfl
  · simpa [hfamily, Option.isSome_iff_ne_none] using hnot

/-- A used token that is presented again is answered with the pair parked for it, or its
family is revoked. -/
theorem replay_burns (h : Calls (Sessions env) s₀ cs w es) {realms : List Realm} {now : ℕ}
    {answer : Except Refusal TokenPair} (he : Makes es i n e) (hl : e.label = .claim t realms now)
    (hrow : e.before.tokens t = some row) (hused : row.used = true) (hrealm : row.realm ∈ realms)
    (hf : Makes es j n f) (hl' : f.label = .respond t realms answer) :
    (∃ parked k g, k < j ∧ Makes es k n g ∧ Finds t parked g ∧ answer = .ok parked.pair) ∨
      ∃ k g reason now, k < j ∧ Makes es k n g ∧ g.label = .revokeFamily row.familyId reason now ∧
        ∀ t' row', g.after.tokens t' = some row' → row'.familyId = row.familyId → row'.revokedAt.isSome = true := by
  have hdead : row.live = false := by simp [RefreshToken.live, hused]
  have hnoclaim {g : Event Step World} {row' : RefreshToken} (hg : g ∈ own n (es.take j)) : ¬Claims t row' g := by
    intro hclaims
    obtain ⟨k, -, hg⟩ := makes_of_own hg
    obtain ⟨hfound, hlive⟩ := hclaims.found
    obtain ⟨realms', now', hlabel, -⟩ := hclaims
    obtain rfl := claims_once h he hl hg hlabel
    obtain ⟨-, rfl⟩ := he.unique hg
    obtain rfl := Option.some.inj (hrow.symm.trans hfound)
    rw [hdead] at hlive
    cases hlive
  -- The row that is looked at after the claim is the same, and used.
  have hselected {g : Event Step World} (hg : g ∈ own n (es.take j)) (hlabel : g.label = .select t) :
      ∃ row', g.before.tokens t = some row' ∧ row.Ages row' := by
    obtain ⟨k, -, hg⟩ := makes_of_own hg
    have hik : i < k := claim_before h he hl hg (by simp [hlabel]) (by simp [hlabel])
    exact later_before h (Nat.le_of_lt hik) he hg t row hrow
  have hanswers := answers_of_makes h hf hl'
  cases hanswers with
  | rotated hg hclaims => exact absurd hclaims (hnoclaim hg)
  | undone hg hclaims => exact absurd hclaims (hnoclaim hg)
  | replayed hg hfinds _ =>
    obtain ⟨k, hk, hg⟩ := makes_of_own hg
    exact .inl ⟨_, k, _, hk, hg, hfinds, rfl⟩
  | unrecognised hg hlabel hnone =>
    obtain ⟨row', hrow', -⟩ := hselected hg hlabel
    rw [hnone] at hrow'
    cases hrow'
  | foreign hg hlabel hfound hforeign =>
    obtain ⟨row', hrow', hages⟩ := hselected hg hlabel
    obtain rfl := Option.some.inj (hfound.symm.trans hrow')
    rw [hages.token] at hforeign
    exact absurd hrealm hforeign
  | lapsed hg hlabel hfound hlive =>
    obtain ⟨row', hrow', hages⟩ := hselected hg hlabel
    obtain rfl := Option.some.inj (hfound.symm.trans hrow')
    rw [not_live_later hages hdead] at hlive
    cases hlive
  | burned hg hlabel hfound hr hrevokes =>
    obtain ⟨row', hrow', hages⟩ := hselected hg hlabel
    obtain rfl := Option.some.inj (hfound.symm.trans hrow')
    obtain ⟨k, hk, hr⟩ := makes_of_own hr
    rw [hages.token] at hrevokes
    refine .inr ⟨k, _, _, _, hk, hr, hrevokes, fun t' row'' hrow'' hfamily ↦ ?_⟩
    rw [commit_of_makes h hr, hrevokes] at hrow''
    exact revoked_by hrow'' hfamily

theorem refused_spares (h : Calls (Sessions env) s₀ cs w es) {realms : List Realm} {refusal : Refusal}
    (he : Makes es i n e) (hl : e.label = .respond t realms (.error refusal)) (hharmless : refusal.harmless = true)
    (hji : j ≤ i) (hf : Makes es j n f) : f.after.tokens = f.before.tokens := by
  rcases Nat.lt_or_eq_of_le hji with hlt | rfl
  · have hspares : ∀ r ∈ own n (es.take i), Spares r := by
      have hanswers := answers_of_makes h he hl
      cases hanswers with
      | unrecognised _ _ _ hall => exact hall
      | foreign _ _ _ _ hall => exact hall
      | burned => cases hharmless
      | lapsed _ _ _ _ hharms => rw [hharms] at hharmless; cases hharmless
      | undone _ _ hharms => rw [hharms] at hharmless; cases hharmless
    exact hspares f (mem_own_of_makes hlt hf)
  · obtain ⟨-, rfl⟩ := he.unique hf
    rw [commit_of_makes h he, hl]
    rfl

/-- Refresh rotation is safe: a token is claimed once; a presentation refused for its
realm or its form changes no row; a replay without a parked pair revokes the family; a
parked pair goes to presentations of the token it was minted from only; and a family has
at most one token left to use. -/
theorem rotation_safe (h : Calls (Sessions env) s₀ cs w es) (hs : s₀.Fresh) :
    (∀ t i j m n e f row row', Makes es i m e → Claims t row e → Makes es j n f → Claims t row' f → i = j) ∧
    (∀ i n e t realms refusal, Makes es i n e → e.label = .respond t realms (.error refusal) →
      refusal = .unrecognised ∨ refusal = .foreignRealm →
      ∀ j f, j ≤ i → Makes es j n f → f.after.tokens = f.before.tokens) ∧
    (∀ i j n e f t realms now row answer, Makes es i n e → e.label = .claim t realms now →
      e.before.tokens t = some row → row.used = true → row.realm ∈ realms →
      Makes es j n f → f.label = .respond t realms answer →
      (∃ parked k g, k < j ∧ Makes es k n g ∧ Finds t parked g ∧ answer = .ok parked.pair) ∨
        ∃ k g reason now, k < j ∧ Makes es k n g ∧ g.label = .revokeFamily row.familyId reason now ∧
          ∀ t' row', g.after.tokens t' = some row' → row'.familyId = row.familyId →
            row'.revokedAt.isSome = true) ∧
    (∀ j n f t parked, Makes es j n f → Finds t parked f →
      (∃ i i' m e g row child, i < j ∧ i' < j ∧ Makes es i m e ∧ Claims t row e ∧ Makes es i' m g ∧
        Mints parked.pair.refreshToken child g ∧ parked.realm = row.realm) ∧
      ∀ k n' g t' parked', Makes es k n' g → Finds t' parked' g →
        parked'.pair.refreshToken = parked.pair.refreshToken → t' = t) ∧
    ∀ t t' row row', w.tokens t = some row → w.tokens t' = some row' → row.used = false →
      row'.used = false → row.familyId = row'.familyId → t = t' := by
  refine ⟨?_, ?_, ?_, ?_, ?_⟩
  · intro t i j m n e f row row' he hclaims hf hclaims'
    exact claimed_once h he hclaims hf hclaims'
  · intro i n e t realms refusal he hl hrefusal j f hji hf
    refine refused_spares h he hl ?_ hji hf
    rcases hrefusal with rfl | rfl <;> rfl
  · intro i j n e f t realms now row answer he hl hrow hused hrealm hf hl'
    exact replay_burns h he hl hrow hused hrealm hf hl'
  · intro j n f t parked hf hfinds
    obtain ⟨k, i, i', m, e, g, row, child, hi, hi', hk, he, hclaims, hg, hmints, hrealm⟩ :=
      finds_minted h hs hf hfinds
    refine ⟨⟨i, i', m, e, g, row, child, by omega, by omega, he, hclaims, hg, hmints, hrealm⟩, ?_⟩
    intro k' n' g' t' parked' hg' hfinds' heq
    obtain ⟨k₁, i₁, i₁', m₁, e₁, g₁, row₁, child₁, -, -, -, he₁, hclaims₁, hg₁, hmints₁, -⟩ :=
      finds_minted h hs hg' hfinds'
    rw [heq] at hmints₁
    -- Both have been minted by one request, which has claimed one token.
    obtain rfl := minted_once h hg hmints hg₁ hmints₁
    obtain ⟨rfl, -⟩ := hg.unique hg₁
    obtain ⟨realms, now, hl, -⟩ := hclaims
    obtain ⟨realms₁, now₁, hl₁, -⟩ := hclaims₁
    obtain rfl := claims_once h he hl he₁ hl₁
    obtain ⟨-, rfl⟩ := he.unique he₁
    cases hl.symm.trans hl₁
    rfl
  · intro t t' row row' hrow hrow' hused hused' hfamily
    exact (orderly h hs).one t t' row row' hrow hrow' (by simp [RefreshToken.live, hused])
      (by simp [RefreshToken.live, hused']) hfamily

/-! A login and a refresh of an admin. -/

def sampleEnv : Env := ⟨2592000, 10⟩

def sampleContext : SessionContext := ⟨none, none⟩

def sampleWorld : World where
  now := 0
  redisUp := true
  tokens _ := none
  parked _ := none
  nextFamily := 0
  directory := ⟨fun _ ↦ some ⟨.operations, .active, 1⟩, fun _ ↦ none, fun _ ↦ none, fun _ ↦ none⟩

theorem sampleWorld_fresh : sampleWorld.Fresh := ⟨fun _ ↦ rfl, fun _ ↦ rfl⟩

def sampleLogin : Request Unit :=
  (TokenService.issueSession sampleEnv 1 .admin none sampleContext 100).ignore

def sampleRefresh (presented refreshToken : ℕ) : Request Unit :=
  refresh sampleEnv presented [.admin] sampleContext refreshToken 0

def sessionRun (requests : List (Request Unit)) (turns : List ℕ) :
    List (Call Step World Refusal) × World × List (ℕ × Event Step World) :=
  takeTurns turns (requests.map fun p ↦ ⟨p, p⟩) sampleWorld

theorem sessionRun_calls {requests : List (Request Unit)} (hrequests : ∀ p ∈ requests, Sessions sampleEnv p)
    (turns : List ℕ) : Calls (Sessions sampleEnv) sampleWorld (sessionRun requests turns).1
      (sessionRun requests turns).2.1 (sessionRun requests turns).2.2 := by
  simpa [sessionRun] using (Calls.start.askAll hrequests).takeTurns turns

theorem sampleLogin_sessions : Sessions sampleEnv sampleLogin := .issueSession 1 .admin none sampleContext 100

theorem sampleRefresh_sessions (presented refreshToken : ℕ) :
    Sessions sampleEnv (sampleRefresh presented refreshToken) :=
  .refresh presented [.admin] sampleContext refreshToken 0

def sampleRotation : List (Request Unit) := [sampleLogin, sampleRefresh 100 101]

theorem sampleRotation_sessions : ∀ p ∈ sampleRotation, Sessions sampleEnv p := by
  simp only [sampleRotation, List.forall_mem_cons]
  exact ⟨sampleLogin_sessions, sampleRefresh_sessions 100 101, by simp⟩

def sampleRotationEvents : List (ℕ × Event Step World) :=
  (sessionRun sampleRotation [0, 0, 0, 0, 1, 1, 1, 1, 1, 1, 1]).2.2

theorem rotation_safe_sample : ∃ i n e row, Makes sampleRotationEvents i n e ∧ Claims 100 row e ∧
    ∀ j m f row', Makes sampleRotationEvents j m f → Claims 100 row' f → i = j := by
  have hclaimed : ∃ e, Makes sampleRotationEvents 5 1 e ∧ e.label = .claim 100 [.admin] 0 ∧
      (e.before.claimable 100 [.admin] 0).isSome = true := ⟨_, rfl, rfl, by decide +kernel⟩
  obtain ⟨e, he, hl, hclaim⟩ := hclaimed
  obtain ⟨row, hrow⟩ := Option.isSome_iff_exists.mp hclaim
  have hclaims : Claims 100 row e := ⟨[.admin], 0, hl, hrow⟩
  refine ⟨5, 1, e, row, he, hclaims, fun j m f row' hf hclaims' ↦ ?_⟩
  exact (rotation_safe (sessionRun_calls sampleRotation_sessions _) sampleWorld_fresh).1
    100 5 j 1 m e f row row' he hclaims hf hclaims'

end Towing.Auth
