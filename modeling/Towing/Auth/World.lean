import Towing.Process.Basic
import Mathlib.Logic.Function.Basic

namespace Towing.Auth

open Towing.Process

inductive Realm
  | fleet
  | driver
  | customer
  | admin
deriving DecidableEq

inductive AdminSubRole
  | superAdmin
  | operations
  | support
  | finance
deriving DecidableEq

inductive KycStatus
  | pending
  | approved
  | rejected
  | incomplete
  | suspended
deriving DecidableEq

inductive AccountStatus
  | active
  | suspended
  | deleted
deriving DecidableEq

inductive FleetStatus
  | pending
  | active
  | suspended
deriving DecidableEq

inductive AccessClaims
  | fleetOwner (sub fleetId : ℕ)
  | driver (sub : ℕ) (kycStatus : KycStatus) (fleetId : Option ℕ)
  | customer (sub : ℕ)
  | admin (sub : ℕ) (subRole : AdminSubRole) (authzVersion : ℕ)
deriving DecidableEq

structure AdminUser where
  subRole : AdminSubRole
  status : AccountStatus
  authzVersion : ℕ

structure DriverAccount where
  kycStatus : KycStatus
  fleetId : Option ℕ

structure FleetAccount where
  ownerId : ℕ
  status : FleetStatus

/-- The accounts, as the other modules keep them. -/
structure Directory where
  admins : ℕ → Option AdminUser
  users : ℕ → Option AccountStatus
  drivers : ℕ → Option DriverAccount
  fleets : ℕ → Option FleetAccount

structure ResolvedSubject where
  claims : AccessClaims
  fleetId : Option ℕ

structure RealmSessionLimits where
  idleMs : ℕ
  absoluteMs : ℕ

structure RealmPolicy where
  requiresFleet : Bool
  sessionLimits : Option RealmSessionLimits
  resolve : Directory → ℕ → Option ℕ → Option ResolvedSubject

def adminSessionLimits : RealmSessionLimits := ⟨30 * 60 * 1000, 12 * 60 * 60 * 1000⟩

def adminRealmPolicy : RealmPolicy where
  requiresFleet := false
  sessionLimits := some adminSessionLimits
  resolve directory subjectId _ :=
    match directory.admins subjectId with
    | some admin =>
      if admin.status = .active then
        some ⟨.admin subjectId admin.subRole admin.authzVersion, none⟩
      else none
    | none => none

def customerRealmPolicy : RealmPolicy where
  requiresFleet := false
  sessionLimits := none
  resolve directory subjectId _ :=
    if directory.users subjectId = some .active then some ⟨.customer subjectId, none⟩ else none

def driverRealmPolicy : RealmPolicy where
  requiresFleet := false
  sessionLimits := none
  resolve directory subjectId _ :=
    match directory.drivers subjectId with
    | some driver =>
      if driver.kycStatus = .suspended then none
      else some ⟨.driver subjectId driver.kycStatus driver.fleetId, driver.fleetId⟩
    | none => none

def fleetRealmPolicy : RealmPolicy where
  requiresFleet := true
  sessionLimits := none
  resolve directory subjectId tokenFleetId :=
    match tokenFleetId with
    | none => none
    | some fleetId =>
      match directory.fleets fleetId with
      | some fleet =>
        if fleet.ownerId = subjectId ∧ fleet.status ≠ .suspended then
          some ⟨.fleetOwner subjectId fleetId, some fleetId⟩
        else none
      | none => none

/-- `RealmPolicyRegistry`. -/
def policies : Realm → RealmPolicy
  | .fleet => fleetRealmPolicy
  | .driver => driverRealmPolicy
  | .customer => customerRealmPolicy
  | .admin => adminRealmPolicy

def limitsFor (realm : Realm) : Option RealmSessionLimits := (policies realm).sessionLimits

structure SessionContext where
  userAgent : Option String
  ip : Option String

/-- A refresh token is known by its digest. -/
structure TokenPair where
  accessToken : AccessClaims
  refreshToken : ℕ
deriving DecidableEq

/-- What `mint` inserts; the database fills in the rest. -/
structure NewToken where
  familyId : ℕ
  subjectId : ℕ
  realm : Realm
  fleetId : Option ℕ
  expiresAt : ℕ
  context : SessionContext

/-- A row of `refresh_tokens`. -/
structure RefreshToken extends NewToken where
  rotatedAt : Option ℕ
  revokedAt : Option ℕ
  revokedReason : Option String
  createdAt : ℕ
  updatedAt : ℕ

def RefreshToken.used (row : RefreshToken) : Bool := row.rotatedAt.isSome || row.revokedAt.isSome

structure ParkedPair where
  realm : Realm
  pair : TokenPair
deriving DecidableEq

/-- What a session is refused with. -/
inductive Refusal
  | cannotStart
  | unrecognised
  | foreignRealm
  | reused
  | idle (limits : RealmSessionLimits)
  | outlived (limits : RealmSessionLimits)
  | expired
  | unbound
  | unavailable
  /-- The digest is there already. -/
  | uniqueViolation
  | sessionNotFound

def Refusal.message : Refusal → String
  | .cannotStart => "This account cannot start a session"
  | .unrecognised => "Refresh token is not recognised"
  | .foreignRealm => "Refresh token belongs to a different auth realm"
  | .reused => "Refresh token was already used; this session has been revoked"
  | .idle limits =>
    "Session expired after " ++ toString ((limits.idleMs + 30000) / 60000) ++ " minutes of inactivity"
  | .outlived limits =>
    "Session reached its " ++ toString ((limits.absoluteMs + 1800000) / 3600000) ++ "-hour limit"
  | .expired => "Refresh token has expired"
  | .unbound => "Session is not bound to a fleet"
  | .unavailable => "This session is no longer valid"
  | .uniqueViolation => "duplicate key value violates unique constraint"
  | .sessionNotFound => "Session not found"

/-- The windows of the realms that declare some. -/
def sessionWindowPredicate (realms : List Realm) (now : ℕ) (row : RefreshToken) : Bool :=
  let limited := realms.filterMap fun realm ↦ (limitsFor realm).map fun limits ↦ (realm, limits)
  limited.isEmpty || !(limited.map (·.1)).contains row.realm ||
    limited.any fun entry ↦ row.realm = entry.1 && now < row.updatedAt + entry.2.idleMs &&
      now < row.createdAt + entry.2.absoluteMs

/-- The sessions in the database and the pairs parked in Redis. -/
structure World where
  now : ℕ
  redisUp : Bool
  /-- `refresh_tokens`, by `token_hash`. -/
  tokens : ℕ → Option RefreshToken
  /-- The pairs parked under a digest, with when they expire. -/
  parked : ℕ → Option (ParkedPair × ℕ)
  /-- The family id `randomUUID` draws next. -/
  nextFamily : ℕ
  directory : Directory

inductive Step
  | readClock
  | claim (tokenHash : ℕ) (realms : List Realm) (now : ℕ)
  | graceGet (tokenHash : ℕ)
  | select (tokenHash : ℕ)
  | revokeFamily (familyId : ℕ) (reason : String) (now : ℕ)
  | revokeSubject (subjectId : ℕ) (realm : Realm) (reason : String) (now : ℕ)
  | resolve (realm : Realm) (subjectId : ℕ) (fleetId : Option ℕ)
  | randomUUID
  | insert (tokenHash : ℕ) (row : NewToken)
  | remember (tokenHash : ℕ) (parked : ParkedPair) (seconds : ℕ)
  /-- The answer reaches who has presented the token. -/
  | respond (presented : ℕ) (allowed : List Realm) (answer : Except Refusal TokenPair)
  | tick (ms : ℕ)
  | setRedis (up : Bool)
  | setDirectory (directory : Directory)

namespace World

variable (w : World)

/-- The row the conditional update of a rotation matches. -/
def claimable (tokenHash : ℕ) (realms : List Realm) (now : ℕ) : Option RefreshToken :=
  (w.tokens tokenHash).filter fun row ↦
    realms.contains row.realm && row.rotatedAt.isNone && row.revokedAt.isNone && now < row.expiresAt &&
      sessionWindowPredicate realms now row

/-- A key of Redis that has expired is not there. -/
def parkedPair (tokenHash : ℕ) : Option ParkedPair :=
  ((w.parked tokenHash).filter fun parked ↦ w.now < parked.2).map (·.1)

def revoke (p : RefreshToken → Bool) (reason : String) (now : ℕ) : World :=
  { w with
    tokens := fun t ↦ (w.tokens t).map fun row ↦
      if p row && row.revokedAt.isNone then
        { row with revokedAt := some now, revokedReason := some reason, updatedAt := now }
      else row }

def run : Step → World
  | .claim t realms now =>
    match w.claimable t realms now with
    | some row =>
      { w with
        tokens := Function.update w.tokens t (some { row with rotatedAt := some now, updatedAt := now }) }
    | none => w
  | .revokeFamily familyId reason now => w.revoke (fun row ↦ row.familyId = familyId) reason now
  | .revokeSubject subjectId realm reason now =>
    w.revoke (fun row ↦ row.subjectId = subjectId && row.realm = realm) reason now
  | .randomUUID => { w with nextFamily := w.nextFamily + 1 }
  | .insert t row =>
    match w.tokens t with
    | some _ => w
    | none =>
      { w with
        tokens := Function.update w.tokens t (some
          { row with rotatedAt := none, revokedAt := none, revokedReason := none, createdAt := w.now, updatedAt := w.now }) }
  | .remember t parked seconds =>
    if w.redisUp then
      { w with parked := Function.update w.parked t (some (parked, w.now + seconds * 1000)) }
    else w
  | .tick ms => { w with now := w.now + ms }
  | .setRedis up => { w with redisUp := up }
  | .setDirectory directory => { w with directory }
  | .readClock | .graceGet _ | .select _ | .resolve _ _ _ | .respond _ _ _ => w

/-- Nobody has ever logged in. -/
structure Fresh : Prop where
  tokens : ∀ t, w.tokens t = none
  parked : ∀ t, w.parked t = none

end World

instance : Store Step World where
  commit l w := w.run l

end Towing.Auth
