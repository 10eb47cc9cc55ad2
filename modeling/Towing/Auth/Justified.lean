import Towing.Auth.TokenService
import Towing.Auth.Steps
import Towing.Process.Moments

namespace Towing.Auth

open Towing.Process

/-- The step writes nothing, or nothing of the sessions. -/
def Step.quiet : Step → Bool
  | .readClock | .graceGet _ | .select _ | .resolve _ _ _ | .randomUUID | .tick _ | .setRedis _
  | .setDirectory _ => true
  | _ => false

def Step.inserts : Step → Bool
  | .insert _ _ => true
  | _ => false

/-- The refusal leaves the sessions alone. -/
def Refusal.harmless : Refusal → Bool
  | .unrecognised | .foreignRealm => true
  | _ => false

/-- The step as it is committed. -/
def committed (l : Step) (w : World) : Event Step World := ⟨l, w, w.run l⟩

/-- A rotation claims the token, whose row it finds. -/
def Claims (t : ℕ) (row : RefreshToken) (e : Event Step World) : Prop :=
  ∃ realms now, e.label = .claim t realms now ∧ e.before.claimable t realms now = some row

/-- The token is inserted. -/
def Mints (t : ℕ) (row : NewToken) (e : Event Step World) : Prop :=
  e.label = .insert t row ∧ e.before.tokens t = none

/-- The step leaves every token as it is. -/
def Spares (e : Event Step World) : Prop := e.after.tokens = e.before.tokens

/-- The lookup finds the pair parked. -/
def Finds (t : ℕ) (parked : ParkedPair) (e : Event Step World) : Prop :=
  e.label = .graceGet t ∧ e.before.parkedPair t = some parked

/-- What has been done where a presentation of the token is answered. -/
inductive Answers (past : List (Event Step World)) (presented : ℕ) (allowed : List Realm) :
    Except Refusal TokenPair → Prop
  | rotated {row : RefreshToken} {child : NewToken} {pair : TokenPair} {e f : Event Step World} :
      e ∈ past → Claims presented row e → row.realm ∈ allowed → f ∈ past →
      Mints pair.refreshToken child f → Answers past presented allowed (.ok pair)
  | replayed {parked : ParkedPair} {e : Event Step World} :
      e ∈ past → Finds presented parked e → parked.realm ∈ allowed →
      Answers past presented allowed (.ok parked.pair)
  | unrecognised {e : Event Step World} :
      e ∈ past → e.label = .select presented → e.before.tokens presented = none →
      (∀ r ∈ past, Spares r) → Answers past presented allowed (.error .unrecognised)
  | foreign {row : RefreshToken} {e : Event Step World} :
      e ∈ past → e.label = .select presented → e.before.tokens presented = some row →
      row.realm ∉ allowed → (∀ r ∈ past, Spares r) → Answers past presented allowed (.error .foreignRealm)
  | burned {row : RefreshToken} {e f : Event Step World} {reason : String} {now : ℕ} :
      e ∈ past → e.label = .select presented → e.before.tokens presented = some row →
      f ∈ past → f.label = .revokeFamily row.familyId reason now →
      Answers past presented allowed (.error .reused)
  | lapsed {row : RefreshToken} {e : Event Step World} {refusal : Refusal} :
      e ∈ past → e.label = .select presented → e.before.tokens presented = some row →
      row.live = true → refusal.harmless = false → Answers past presented allowed (.error refusal)
  | undone {row : RefreshToken} {e : Event Step World} {refusal : Refusal} :
      e ∈ past → Claims presented row e → refusal.harmless = false →
      Answers past presented allowed (.error refusal)

/-- What a request has done before each of its steps. -/
inductive Justified (env : Env) (asked : Request Unit) (past : List (Event Step World)) : Step → Prop
  | quiet {l : Step} : l.quiet = true → Justified env asked past l
  | claim {presented refreshToken polls : ℕ} {allowed : List Realm} {context : SessionContext}
      {r : Event Step World} :
      asked = refresh env presented allowed context refreshToken polls → past = [r] → r.label = .readClock →
      Justified env asked past (.claim presented allowed r.before.now)
  | login {t : ℕ} {row : NewToken} {r : Event Step World} :
      r ∈ past → r.label = .randomUUID → row.familyId = r.before.nextFamily →
      (∀ q ∈ past, q.label.inserts = false) → Justified env asked past (.insert t row)
  | child {t p : ℕ} {row : NewToken} {parent : RefreshToken} {r : Event Step World} :
      r ∈ past → Claims p parent r → row.familyId = parent.familyId → row.subjectId = parent.subjectId →
      row.realm = parent.realm → (∀ q ∈ past, q.label.inserts = false) →
      Justified env asked past (.insert t row)
  | remember {t : ℕ} {parked : ParkedPair} {row : RefreshToken} {child : NewToken}
      {r q : Event Step World} :
      0 < env.refreshGraceSeconds → r ∈ past → Claims t row r → q ∈ past →
      Mints parked.pair.refreshToken child q →
      parked.realm = row.realm → Justified env asked past (.remember t parked env.refreshGraceSeconds)
  | revokeFamily {familyId now : ℕ} {reason : String} {t : ℕ} {row : RefreshToken}
      {r : Event Step World} :
      r ∈ past → r.before.tokens t = some row → row.familyId = familyId →
      Justified env asked past (.revokeFamily familyId reason now)
  | revokeSubject {subjectId now : ℕ} {realm : Realm} {reason : String} :
      asked = TokenService.revokeSubject subjectId realm reason →
      Justified env asked past (.revokeSubject subjectId realm reason now)
  | respond {presented : ℕ} {allowed : List Realm} {answer : Except Refusal TokenPair} :
      Answers past presented allowed answer → Justified env asked past (.respond presented allowed answer)

variable {env : Env} {asked : Request Unit} {past : List (Event Step World)} {presented : ℕ}
  {allowed : List Realm}

theorem mem_snoc (past : List (Event Step World)) (e : Event Step World) : e ∈ past ++ [e] :=
  List.mem_append_right past (List.mem_singleton_self e)

theorem forall_mem_snoc {P : Event Step World → Prop} {e : Event Step World} (hpast : ∀ r ∈ past, P r)
    (he : P e) : ∀ r ∈ past ++ [e], P r := by
  intro r hr
  rcases List.mem_append.mp hr with hr | hr
  · exact hpast r hr
  · rw [List.mem_singleton.mp hr]
    exact he

/-- Looking for a parked pair leaves every token as it is, and finds only one that is
there. -/
structure LooksUp (presented : ℕ) (allowed : List Realm) (answer : Except Refusal (Option TokenPair))
    (past : List (Event Step World)) : Prop where
  spares : ∀ r ∈ past, Spares r
  finds : ∃ graced, answer = .ok graced ∧ ∀ pair, graced = some pair →
    ∃ parked, ∃ e ∈ past, Finds presented parked e ∧ parked.realm ∈ allowed ∧ pair = parked.pair

theorem justified_lookup {next : Request (Option TokenPair)} (hpast : ∀ r ∈ past, Spares r)
    (hnext : ∀ past, (∀ r ∈ past, Spares r) →
      next.Heeds (Justified env asked) (LooksUp presented allowed) past) :
    (RefreshGraceService.poll.lookup presented allowed next).Heeds (Justified env asked)
      (LooksUp presented allowed) past := by
  refine ⟨.quiet rfl, fun s ↦ ?_⟩
  simp only [Proc.bind_ok]
  have hspares := forall_mem_snoc hpast (e := committed (.graceGet presented) s) rfl
  split
  · exact ⟨hspares, none, rfl, (by simp)⟩
  · exact hnext _ hspares
  · rename_i parsed hraw
    split_ifs at hraw
    refine ⟨hspares, _, rfl, fun pair hpair ↦ ?_⟩
    split_ifs at hpair with hallowed
    exact ⟨parsed, _, mem_snoc _ _, ⟨rfl, Option.some.inj hraw⟩, by simpa using hallowed,
      (Option.some.inj hpair).symm⟩

theorem justified_poll (polls : ℕ) (hpast : ∀ r ∈ past, Spares r) :
    (RefreshGraceService.poll presented allowed polls).Heeds (Justified env asked)
      (LooksUp presented allowed) past := by
  induction polls generalizing past with
  | zero => exact justified_lookup hpast fun past hpast ↦ ⟨hpast, none, rfl, (by simp)⟩
  | succ polls ih => exact justified_lookup hpast fun past hpast ↦ ih hpast

theorem justified_get (polls : ℕ) (hpast : ∀ r ∈ past, Spares r) :
    (RefreshGraceService.get env presented allowed polls).Heeds (Justified env asked)
      (LooksUp presented allowed) past := by
  unfold RefreshGraceService.get
  split_ifs
  · exact justified_poll polls hpast
  · exact ⟨hpast, none, rfl, (by simp)⟩

/-- Whose family is revoked has been seen. -/
theorem justified_revokeFamily {t : ℕ} {row : RefreshToken} {r : Event Step World} (reason : String)
    (hr : r ∈ past) (hrow : r.before.tokens t = some row) :
    (TokenService.revokeFamily row.familyId reason).Heeds (Justified env asked)
      (fun answer past' ↦ answer = .ok () ∧ (∀ q ∈ past, q ∈ past') ∧
        ∃ f ∈ past', ∃ now, f.label = .revokeFamily row.familyId reason now) past := by
  refine ⟨.quiet rfl, fun s ↦ ⟨.revokeFamily (List.mem_append_left _ hr) hrow rfl, fun s' ↦ ?_⟩⟩
  exact ⟨rfl, fun q hq ↦ List.mem_append_left _ (List.mem_append_left _ hq), _, mem_snoc _ _, _, rfl⟩

theorem justified_mint {familyId subjectId refreshToken : ℕ} {realm : Realm} {subject : ResolvedSubject}
    {context : SessionContext}
    (hinsert : ∀ s row, row.familyId = familyId → row.subjectId = subjectId → row.realm = realm →
      Justified env asked (past ++ [committed .readClock s]) (.insert refreshToken row)) :
    (TokenService.mint env familyId subjectId realm subject context refreshToken).Heeds (Justified env asked)
      (fun answer past' ↦ (∀ q ∈ past, q ∈ past') ∧ ((∃ pair, answer = .ok pair) ∨ answer = .error .uniqueViolation) ∧
        ∀ pair, answer = .ok pair → ∃ child, ∃ f ∈ past', Mints pair.refreshToken child f) past := by
  refine ⟨.quiet rfl, fun s ↦ ⟨hinsert s _ rfl rfl rfl, fun s' ↦ ?_⟩⟩
  beta_reduce
  have hkept {e : Event Step World} : ∀ q ∈ past, q ∈ past ++ [committed .readClock s] ++ [e] :=
    fun q hq ↦ List.mem_append_left _ (List.mem_append_left _ hq)
  cases htoken : s'.tokens refreshToken with
  | some row =>
    simp only [Option.isSome_some, if_true, Proc.bind_error]
    exact ⟨hkept, .inr rfl, (by simp)⟩
  | none =>
    simp only [Option.isSome_none, Bool.false_eq_true, if_false, Proc.bind_ok]
    refine ⟨hkept, .inl ⟨_, rfl⟩, fun pair hpair ↦ ?_⟩
    cases hpair
    exact ⟨_, _, mem_snoc _ _, rfl, htoken⟩

theorem justified_burn {row : RefreshToken} {r : Event Step World} (reason : String) (hr : r ∈ past)
    (hlabel : r.label = .select presented) (hrow : r.before.tokens presented = some row) :
    ((TokenService.revokeFamily row.familyId reason).bind fun _ ↦ (throw .reused : Request TokenPair)).Heeds
      (Justified env asked) (fun answer past ↦ Answers past presented allowed answer) past := by
  refine (justified_revokeFamily reason hr hrow).bind (fun _ past' h ↦ ?_) fun _ _ h ↦ (by cases h.1)
  obtain ⟨-, hkept, f, hf, now, hrevokes⟩ := h
  exact .burned (hkept _ hr) hlabel hrow hf hrevokes

theorem harmless_outOfWindow {now : ℕ} {row : RefreshToken} {lapse : String × Refusal}
    (h : TokenService.outOfWindow now row = some lapse) : lapse.2.harmless = false := by
  unfold TokenService.outOfWindow at h
  cases hlimits : limitsFor row.realm with
  | none => simp [hlimits] at h
  | some limits =>
    rw [hlimits] at h
    dsimp only at h
    split_ifs at h
    · obtain rfl := Option.some.inj h
      rfl
    · obtain rfl := Option.some.inj h
      rfl

theorem justified_explainFailedClaim (hpast : ∀ r ∈ past, Spares r) :
    (TokenService.explainFailedClaim presented allowed).Heeds (Justified env asked)
      (fun answer past ↦ Answers past presented allowed answer) past := by
  refine ⟨.quiet rfl, fun s ↦ ?_⟩
  have hspares := forall_mem_snoc hpast (e := committed (.select presented) s) rfl
  have hmem := mem_snoc past (committed (.select presented) s)
  simp only [Proc.bind_ok]
  cases hrow : s.tokens presented with
  | none => exact .unrecognised hmem rfl hrow hspares
  | some row =>
    dsimp only
    split_ifs with hrealm hused hrevoked
    · exact .foreign hmem rfl hrow (by simpa using hrealm) hspares
    · exact justified_burn _ hmem rfl hrow
    · exact justified_burn _ hmem rfl hrow
    · have hlive : row.live = true := by simpa [RefreshToken.live] using hused
      refine ⟨.quiet rfl, fun s' ↦ ?_⟩
      simp only [Proc.bind_ok]
      have hmem' := List.mem_append_left [committed .readClock s'] hmem
      cases hwindow : TokenService.outOfWindow s'.now row with
      | none => exact .lapsed hmem' rfl hrow hlive rfl
      | some lapse =>
        refine (justified_revokeFamily _ hmem' hrow).bind (fun _ past' h ↦ ?_) fun _ _ h ↦ (by cases h.1)
        exact .lapsed (h.2.1 _ hmem') rfl hrow hlive (harmless_outOfWindow hwindow)

theorem justified_remember {pair : TokenPair} {row : RefreshToken} {child : NewToken}
    {r q : Event Step World} (hr : r ∈ past) (hclaims : Claims presented row r) (hq : q ∈ past)
    (hmints : Mints pair.refreshToken child q) :
    (RefreshGraceService.remember env presented row.realm pair).Heeds (Justified env asked)
      (fun answer past' ↦ answer = .ok () ∧ ∀ q ∈ past, q ∈ past') past := by
  refine Proc.Heeds.when (fun henabled ↦ ⟨.remember henabled hr hclaims hq hmints rfl, fun s ↦ ?_⟩) fun _ ↦ ⟨rfl, fun q hq ↦ hq⟩
  exact ⟨rfl, fun q hq ↦ List.mem_append_left _ hq⟩

theorem justified_succeed {row : RefreshToken} {context : SessionContext} {refreshToken : ℕ}
    {r : Event Step World} (hr : r ∈ past) (hclaims : Claims presented row r) (hrealm : row.realm ∈ allowed)
    (hpast : ∀ q ∈ past, q.label.inserts = false) :
    (TokenService.succeed env presented row context refreshToken).Heeds (Justified env asked)
      (fun answer past ↦ Answers past presented allowed answer) past := by
  unfold TokenService.succeed
  have hrow : r.before.tokens presented = some row := by
    obtain ⟨realms, now, -, hclaim⟩ := hclaims
    exact (claimable_iff.mp hclaim).1
  split_ifs
  · refine (justified_revokeFamily _ hr hrow).bind (fun _ past' h ↦ ?_) fun _ _ h ↦ (by cases h.1)
    exact .undone (h.2.1 _ hr) hclaims rfl
  · refine ⟨.quiet rfl, fun s ↦ ?_⟩
    simp only [Proc.bind_ok]
    have hr' := List.mem_append_left [committed (.resolve row.realm row.subjectId row.fleetId) s] hr
    have hpast' := forall_mem_snoc hpast (e := committed (.resolve row.realm row.subjectId row.fleetId) s) rfl
    cases (policies row.realm).resolve s.directory row.subjectId row.fleetId with
    | none =>
      refine (justified_revokeFamily _ hr' hrow).bind (fun _ past' h ↦ ?_) fun _ _ h ↦ (by cases h.1)
      exact .undone (h.2.1 _ hr') hclaims rfl
    | some subject =>
      refine (justified_mint fun s' new hfamily hsubject hnew ↦ ?_).bind (fun pair past' h ↦ ?_) fun refusal past' h ↦ ?_
      · exact .child (List.mem_append_left _ hr') hclaims hfamily hsubject hnew (forall_mem_snoc hpast' rfl)
      · obtain ⟨hkept, -, hminted⟩ := h
        obtain ⟨child, f, hf, hmints⟩ := hminted pair rfl
        refine (justified_remember (hkept _ hr') hclaims hf hmints).bind (fun _ past'' h ↦ ?_) fun _ _ h ↦ (by cases h.1)
        exact .rotated (h.2 _ (hkept _ hr')) hclaims hrealm (h.2 _ hf) hmints
      · obtain ⟨hkept, hanswer, -⟩ := h
        rcases hanswer with ⟨pair, hanswer⟩ | hanswer
        · cases hanswer
        · cases hanswer
          exact .undone (hkept _ hr') hclaims rfl

theorem justified_refresh {context : SessionContext} {refreshToken polls : ℕ} :
    (refresh env presented allowed context refreshToken polls).Heeds
      (Justified env (refresh env presented allowed context refreshToken polls)) (fun _ _ ↦ True) [] := by
  refine Proc.Heeds.follow (Q := fun answer past ↦ Answers past presented allowed answer) ?_
    fun answer past h ↦ ⟨.respond h, fun _ ↦ trivial⟩
  refine ⟨.quiet rfl, fun s ↦ ⟨.claim rfl rfl rfl, fun s' ↦ ?_⟩⟩
  simp only [Proc.bind_ok]
  cases hclaim : s'.claimable presented allowed s.now with
  | some row =>
    refine justified_succeed (mem_snoc _ _) ⟨allowed, s.now, rfl, hclaim⟩ (claimable_iff.mp hclaim).2.1 ?_
    exact forall_mem_snoc (forall_mem_snoc (by simp) rfl) rfl
  | none =>
    have hspares : Spares (committed (.claim presented allowed s.now) s') := by
      simp [Spares, committed, World.run, hclaim]
    refine (justified_get polls (forall_mem_snoc (forall_mem_snoc (e := committed .readClock s) (by simp) rfl) hspares)).bind
      (fun graced past h ↦ ?_)
      fun _ _ h ↦ ?_
    · cases graced with
      | none => exact justified_explainFailedClaim h.spares
      | some pair =>
        obtain ⟨_, heq, hall⟩ := h.finds
        cases heq
        obtain ⟨parked, e, he, hfinds, hrealm, rfl⟩ := hall pair rfl
        exact .replayed he hfinds hrealm
    · obtain ⟨_, heq, -⟩ := h.finds
      cases heq

theorem justified_issueSession {subjectId refreshToken : ℕ} {realm : Realm} {fleetId : Option ℕ}
    {context : SessionContext} :
    (TokenService.issueSession env subjectId realm fleetId context refreshToken).Heeds (Justified env asked)
      (fun _ _ ↦ True) [] := by
  refine ⟨.quiet rfl, fun s ↦ ?_⟩
  simp only [Proc.bind_ok]
  cases (policies realm).resolve s.directory subjectId fleetId with
  | none => trivial
  | some subject =>
    refine ⟨.quiet rfl, fun s' ↦ ?_⟩
    refine (justified_mint fun s'' row hfamily _ _ ↦ ?_).mono (fun _ _ h ↦ h) fun _ _ _ ↦ trivial
    refine .login (List.mem_append_left _ (mem_snoc _ _)) rfl hfamily ?_
    exact forall_mem_snoc (forall_mem_snoc (forall_mem_snoc (by simp) rfl) rfl) rfl

theorem sessions_justified {p : Request Unit} (h : Sessions env p) :
    p.Heeds (Justified env p) (fun _ _ ↦ True) [] := by
  cases h with
  | issueSession subjectId realm fleetId context refreshToken =>
    exact justified_issueSession.bind (fun _ _ _ ↦ trivial) fun _ _ _ ↦ trivial
  | refresh presented allowed context refreshToken polls => exact justified_refresh
  | logout presented allowed =>
    refine ⟨.quiet rfl, fun s ↦ ?_⟩
    simp only [Proc.bind_ok]
    cases hrow : s.tokens presented with
    | none => trivial
    | some row =>
      refine Proc.Heeds.when (fun _ ↦ ?_) fun _ ↦ trivial
      exact (justified_revokeFamily _ (mem_snoc [] (committed (.select presented) s)) hrow).mono
        (fun _ _ h ↦ h) fun _ _ _ ↦ trivial
  | revokeSession adminId sessionId chosen =>
    refine ⟨.quiet rfl, fun s ↦ ?_⟩
    simp only [Proc.bind_ok]
    split
    · trivial
    · rename_i row hfound
      have hrow := (Option.filter_eq_some_iff.mp hfound).1
      exact (justified_revokeFamily _ (mem_snoc [] (committed (.select chosen) s)) hrow).mono
        (fun _ _ h ↦ h) fun _ _ _ ↦ trivial
  | revokeSubject subjectId realm reason => exact ⟨.quiet rfl, fun s ↦ ⟨.revokeSubject rfl, fun _ ↦ trivial⟩⟩
  | tick ms => exact ⟨.quiet rfl, fun _ ↦ trivial⟩
  | setRedis up => exact ⟨.quiet rfl, fun _ ↦ trivial⟩
  | setDirectory directory => exact ⟨.quiet rfl, fun _ ↦ trivial⟩

variable {s₀ w : World} {cs : List (Call Step World Refusal)} {es : List (ℕ × Event Step World)}
  {i n : ℕ} {e : Event Step World}

theorem justified_of_makes (h : Calls (Sessions env) s₀ cs w es) (he : Makes es i n e) :
    ∃ c, cs[n]? = some c ∧ Justified env c.asked (own n (es.take i)) e.label :=
  h.heeds_at (fun _ hp ↦ sessions_justified hp) he

theorem commit_of_makes (h : Calls (Sessions env) s₀ cs w es) (he : Makes es i n e) :
    e.after = e.before.run e.label := h.commit_at he

end Towing.Auth
