import Towing.Auth.World

namespace Towing.Auth

open Towing.Process

abbrev Request (α : Type) := Proc Step World Refusal α

structure Env where
  jwtRefreshTtlSeconds : ℕ
  refreshGraceSeconds : ℕ

namespace RefreshGraceService

def enabled (env : Env) : Prop := 0 < env.refreshGraceSeconds

instance (env : Env) : Decidable (enabled env) := inferInstanceAs (Decidable (0 < _))

def remember (env : Env) (presentedHash : ℕ) (realm : Realm) (pair : TokenPair) : Request Unit :=
  Proc.when (enabled env) (Proc.write (.remember presentedHash ⟨realm, pair⟩ env.refreshGraceSeconds))

/-- The lookups until the deadline: `polls` more where the first finds nothing. Redis
out of reach ends them. -/
def poll (presentedHash : ℕ) (allowed : List Realm) : ℕ → Request (Option TokenPair)
  | 0 => lookup (pure none)
  | polls + 1 => lookup (poll presentedHash allowed polls)
where
  lookup (next : Request (Option TokenPair)) : Request (Option TokenPair) := do
    let raw ← Proc.query (.graceGet presentedHash) fun w ↦
      if w.redisUp then some (w.parkedPair presentedHash) else none
    match raw with
    | none => pure none
    | some none => next
    | some (some parsed) => pure (if allowed.contains parsed.realm then some parsed.pair else none)

def get (env : Env) (presentedHash : ℕ) (allowed : List Realm) (polls : ℕ) : Request (Option TokenPair) :=
  if enabled env then poll presentedHash allowed polls else pure none

end RefreshGraceService

namespace TokenService

def now : Request ℕ := Proc.query .readClock (·.now)

def resolve (realm : Realm) (subjectId : ℕ) (fleetId : Option ℕ) : Request (Option ResolvedSubject) :=
  Proc.query (.resolve realm subjectId fleetId) fun w ↦ (policies realm).resolve w.directory subjectId fleetId

/-- `refreshToken` is what `randomBytes` draws. -/
def mint (env : Env) (familyId subjectId : ℕ) (realm : Realm) (subject : ResolvedSubject)
    (context : SessionContext) (refreshToken : ℕ) : Request TokenPair := do
  let clock ← now
  let row : NewToken :=
    ⟨familyId, subjectId, realm, subject.fleetId, clock + env.jwtRefreshTtlSeconds * 1000, context⟩
  Proc.attempt (.insert refreshToken row) fun w ↦
    if (w.tokens refreshToken).isSome then .error .uniqueViolation else .ok ()
  pure ⟨subject.claims, refreshToken⟩

def issueSession (env : Env) (subjectId : ℕ) (realm : Realm) (fleetId : Option ℕ)
    (context : SessionContext) (refreshToken : ℕ) : Request TokenPair := do
  let resolved ← resolve realm subjectId fleetId
  match resolved with
  | none => throw .cannotStart
  | some subject => do
    let familyId ← Proc.query .randomUUID (·.nextFamily)
    mint env familyId subjectId realm subject context refreshToken

def revokeFamily (familyId : ℕ) (reason : String) : Request Unit := do
  let clock ← now
  Proc.write (.revokeFamily familyId reason clock)

def revokeSubject (subjectId : ℕ) (realm : Realm) (reason : String) : Request Unit := do
  let clock ← now
  Proc.write (.revokeSubject subjectId realm reason clock)

/-- The window of an unused row that has run out by now. -/
def outOfWindow (clock : ℕ) (row : RefreshToken) : Option (String × Refusal) :=
  match limitsFor row.realm with
  | none => none
  | some limits =>
    if row.updatedAt + limits.idleMs < clock then some ("idle_timeout", .idle limits)
    else if row.createdAt + limits.absoluteMs < clock then some ("absolute_timeout", .outlived limits)
    else none

def explainFailedClaim (tokenHash : ℕ) (realms : List Realm) : Request TokenPair := do
  let found ← Proc.query (.select tokenHash) fun w ↦ w.tokens tokenHash
  match found with
  | none => throw .unrecognised
  | some row =>
    if !realms.contains row.realm then throw .foreignRealm
    else if row.used then do
      revokeFamily row.familyId (if row.revokedAt.isSome then "family_revoked" else "refresh_token_reuse")
      throw .reused
    else do
      let clock ← now
      match outOfWindow clock row with
      | some (reason, refusal) => do
        revokeFamily row.familyId reason
        throw refusal
      | none => throw .expired

/-- What follows a claim that has matched. -/
def succeed (env : Env) (tokenHash : ℕ) (claimed : RefreshToken) (context : SessionContext)
    (refreshToken : ℕ) : Request TokenPair := do
  if (policies claimed.realm).requiresFleet && claimed.fleetId.isNone then do
    revokeFamily claimed.familyId "missing_fleet_binding"
    throw .unbound
  else do
    let resolved ← resolve claimed.realm claimed.subjectId claimed.fleetId
    match resolved with
    | none => do
      revokeFamily claimed.familyId "subject_unavailable"
      throw .unavailable
    | some subject => do
      let pair ← mint env claimed.familyId claimed.subjectId claimed.realm subject
        ⟨context.userAgent <|> claimed.context.userAgent, context.ip <|> claimed.context.ip⟩ refreshToken
      RefreshGraceService.remember env tokenHash claimed.realm pair
      pure pair

def rotate (env : Env) (presented : ℕ) (allowed : List Realm) (context : SessionContext)
    (refreshToken polls : ℕ) : Request TokenPair := do
  let clock ← now
  let claimed ← Proc.query (.claim presented allowed clock) fun w ↦ w.claimable presented allowed clock
  match claimed with
  | some row => succeed env presented row context refreshToken
  | none => do
    let graced ← RefreshGraceService.get env presented allowed polls
    match graced with
    | some pair => pure pair
    | none => explainFailedClaim presented allowed

def logout (presented : ℕ) (allowed : List Realm) : Request Unit := do
  let found ← Proc.query (.select presented) fun w ↦ w.tokens presented
  match found with
  | none => pure ()
  | some row => Proc.when (allowed.contains row.realm) (revokeFamily row.familyId "logout")

end TokenService

/-- `AdminAuthService.revokeSession`, one of the admin's own: `chosen` is the row that
its query answers with, if it is one. -/
def revokeSession (adminId sessionId chosen : ℕ) : Request Unit := do
  let found ← Proc.query (.select chosen) fun w ↦ (w.tokens chosen).filter fun row ↦
    row.familyId = sessionId && row.subjectId = adminId && row.realm = .admin && row.revokedAt.isNone
  match found with
  | none => throw .sessionNotFound
  | some row => TokenService.revokeFamily row.familyId "admin_session_revoked"

/-- The routes' `refresh`, with the answer that it gives. -/
def refresh (env : Env) (presented : ℕ) (allowed : List Realm) (context : SessionContext)
    (refreshToken polls : ℕ) : Request Unit :=
  (TokenService.rotate env presented allowed context refreshToken polls).follow fun answer ↦
    Proc.write (.respond presented allowed answer)

/-- Logins, refreshes and revocations, and what goes on beside them. -/
inductive Sessions (env : Env) : Request Unit → Prop
  | issueSession (subjectId : ℕ) (realm : Realm) (fleetId : Option ℕ) (context : SessionContext)
      (refreshToken : ℕ) :
      Sessions env (TokenService.issueSession env subjectId realm fleetId context refreshToken).ignore
  | refresh (presented : ℕ) (allowed : List Realm) (context : SessionContext) (refreshToken polls : ℕ) :
      Sessions env (refresh env presented allowed context refreshToken polls)
  | logout (presented : ℕ) (allowed : List Realm) : Sessions env (TokenService.logout presented allowed)
  | revokeSession (adminId sessionId chosen : ℕ) : Sessions env (revokeSession adminId sessionId chosen)
  | revokeSubject (subjectId : ℕ) (realm : Realm) (reason : String) :
      Sessions env (TokenService.revokeSubject subjectId realm reason)
  | tick (ms : ℕ) : Sessions env (Proc.write (.tick ms))
  | setRedis (up : Bool) : Sessions env (Proc.write (.setRedis up))
  | setDirectory (directory : Directory) : Sessions env (Proc.write (.setDirectory directory))

end Towing.Auth
