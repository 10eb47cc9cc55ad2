import Towing.Auth.World
import Mathlib.Data.Int.Notation

namespace Towing.Login

open Towing.Process Towing.Auth

abbrev Text := List Char

/-- A row of `otp_verifications`; instants are in milliseconds. -/
structure OtpRow where
  codeHash : Text
  vendorRef : Option Text := none
  attempts : ℕ := 0
  used : Bool := false
  expiresAt : ℤ
  deriving DecidableEq, Repr

/-- A row of `login_challenges`. -/
structure Challenge where
  subjectId : ℕ
  realm : Realm
  otpId : ℕ
  expiresAt : ℤ
  consumedAt : Option ℤ := none
  deriving DecidableEq

structure Credential where
  passwordHash : Text
  failedAttempts : ℕ := 0
  lockedUntil : Option ℤ := none
  deriving DecidableEq, Repr

structure AdminRow where
  credential : Credential
  active : Bool := true
  mustChangePassword : Bool := false
  twofaEnabled : Bool := false
  twofaSecretEnc : Option Text := none
  twofaLastCounter : Option ℤ := none
  deriving DecidableEq, Repr

/-- The owner of a fleet, and how the fleet stands while there is one. -/
structure FleetOwner where
  credential : Credential
  fleet : Option FleetStatus
  deriving DecidableEq

structure RecoveryCode where
  adminId : ℕ
  codeHash : Text
  usedAt : Option ℤ := none
  deriving DecidableEq, Repr

/-- Rows are known by their places; a recovery code that is deleted leaves its place empty. -/
structure World where
  now : ℤ
  otps : List OtpRow
  challenges : List Challenge
  codes : List (Option RecoveryCode)
  admins : ℕ → Option AdminRow
  owners : ℕ → Option FleetOwner
  subjects : Realm → ℕ → Bool

/-- A step that an `UPDATE … WHERE` makes names what its condition compares with. `check` is a typed
code being compared, and `issue` names the challenge whose session it opens. -/
inductive Step
  | look
  | tick (ms : ℕ)
  | insertOtp (row : OtpRow)
  | insertChallenge (challenge : Challenge)
  | setVendorRef (otpId : ℕ) (vendorRef : Text)
  | failAdmin (adminId : ℕ) (now : ℤ)
  | clearAdmin (adminId : ℕ)
  | failOwner (ownerId : ℕ) (now : ℤ)
  | clearOwner (ownerId : ℕ)
  | attempt (otpId maxAttempts : ℕ) (now : ℤ)
  | check (otpId : ℕ) (matched : Bool)
  | advance (adminId : ℕ) (lastCounter : Option ℤ) (counter : ℤ)
  | burn (codeId : ℕ) (now : ℤ)
  | consume (challengeId : ℕ) (now : ℤ)
  | markUsed (otpId : ℕ)
  | issue (challengeId subjectId : ℕ) (realm : Realm)
  | setPassword (adminId : ℕ) (passwordHash : Text)
  | enroll (adminId : ℕ) (secretEnc : Text)
  | confirm (adminId : ℕ)
  | disable (adminId : ℕ)
  | deleteCodes (adminId : ℕ)
  | insertCodes (adminId : ℕ) (codeHashes : List Text)
  | employ (adminId : ℕ) (passwordHash : Text)
  | resetPassword (adminId : ℕ) (passwordHash : Text)
  | setActive (adminId : ℕ) (active : Bool)
  | restand (ownerId : ℕ) (fleet : Option FleetStatus)
  | enrol (realm : Realm) (subjectId : ℕ) (present : Bool)
  deriving DecidableEq

def MAX_FAILED_ATTEMPTS : ℕ := 5

def LOCKOUT_SECONDS : ℕ := 15 * 60

def Credential.failed (c : Credential) (now : ℤ) : Credential :=
  { c with
    failedAttempts := c.failedAttempts + 1
    lockedUntil := if MAX_FAILED_ATTEMPTS ≤ c.failedAttempts + 1 then some (now + LOCKOUT_SECONDS * 1000)
      else c.lockedUntil }

def Credential.cleared (c : Credential) : Credential := { c with failedAttempts := 0, lockedUntil := none }

/-- A matching code moves the counter on: without one where none was read, and to a larger one otherwise. -/
def AdminRow.advances (row : AdminRow) (lastCounter : Option ℤ) (counter : ℤ) : Bool :=
  match lastCounter with
  | none => row.twofaLastCounter.isNone
  | some _ => row.twofaLastCounter.any (· < counter)

namespace World

variable (w : World)

/-- The row whose attempts a guess counts on, if it may still be guessed at. -/
def guessable (otpId maxAttempts : ℕ) (now : ℤ) : Option OtpRow :=
  (w.otps[otpId]?).filter fun row ↦ !row.used && row.attempts < maxAttempts && now < row.expiresAt

def unconsumed (challengeId : ℕ) : Option Challenge :=
  (w.challenges[challengeId]?).filter (·.consumedAt.isNone)

def unused (codeId : ℕ) : Option RecoveryCode :=
  (w.codes[codeId]?).join.filter (·.usedAt.isNone)

def attempted (otpId maxAttempts : ℕ) (now : ℤ) : List OtpRow :=
  match w.guessable otpId maxAttempts now with
  | none => w.otps
  | some row => w.otps.set otpId { row with attempts := row.attempts + 1 }

def consumed (challengeId : ℕ) (now : ℤ) : List Challenge :=
  match w.unconsumed challengeId with
  | none => w.challenges
  | some challenge => w.challenges.set challengeId { challenge with consumedAt := some now }

def burned (codeId : ℕ) (now : ℤ) : List (Option RecoveryCode) :=
  match w.unused codeId with
  | none => w.codes
  | some code => w.codes.set codeId (some { code with usedAt := some now })

def setAdmin (adminId : ℕ) (f : AdminRow → AdminRow) : World :=
  { w with admins := Function.update w.admins adminId ((w.admins adminId).map f) }

def setOwner (ownerId : ℕ) (f : FleetOwner → FleetOwner) : World :=
  { w with owners := Function.update w.owners ownerId ((w.owners ownerId).map f) }

def run : Step → World
  | .look | .check _ _ | .issue _ _ _ => w
  | .tick ms => { w with now := w.now + ms }
  | .insertOtp row => { w with otps := w.otps ++ [row] }
  | .insertChallenge challenge => { w with challenges := w.challenges ++ [challenge] }
  | .setVendorRef otpId vendorRef =>
    { w with otps := w.otps.modify otpId fun row ↦ { row with vendorRef := some vendorRef } }
  | .failAdmin id now => w.setAdmin id fun row ↦ { row with credential := row.credential.failed now }
  | .clearAdmin id => w.setAdmin id fun row ↦ { row with credential := row.credential.cleared }
  | .failOwner id now => w.setOwner id fun row ↦ { row with credential := row.credential.failed now }
  | .clearOwner id => w.setOwner id fun row ↦ { row with credential := row.credential.cleared }
  | .attempt otpId maxAttempts now => { w with otps := w.attempted otpId maxAttempts now }
  | .advance adminId lastCounter counter =>
    w.setAdmin adminId fun row ↦
      if row.advances lastCounter counter then { row with twofaLastCounter := some counter } else row
  | .burn codeId now => { w with codes := w.burned codeId now }
  | .consume challengeId now => { w with challenges := w.consumed challengeId now }
  | .markUsed otpId => { w with otps := w.otps.modify otpId fun row ↦ { row with used := true } }
  | .setPassword adminId passwordHash =>
    w.setAdmin adminId fun row ↦ { row with credential := ⟨passwordHash, 0, none⟩, mustChangePassword := false }
  | .enroll adminId secretEnc =>
    w.setAdmin adminId fun row ↦
      { row with twofaSecretEnc := some secretEnc, twofaEnabled := false, twofaLastCounter := none }
  | .confirm adminId => w.setAdmin adminId fun row ↦ { row with twofaEnabled := true }
  | .disable adminId =>
    w.setAdmin adminId fun row ↦
      { row with twofaEnabled := false, twofaSecretEnc := none, twofaLastCounter := none }
  | .deleteCodes adminId => { w with codes := w.codes.map fun code ↦ code.filter (·.adminId ≠ adminId) }
  | .insertCodes adminId codeHashes =>
    { w with codes := w.codes ++ codeHashes.map fun codeHash ↦ some { adminId, codeHash } }
  | .employ adminId passwordHash =>
    let row := (w.admins adminId).getD { credential := { passwordHash } }
    { w with admins := Function.update w.admins adminId (some row) }
  | .resetPassword adminId passwordHash =>
    w.setAdmin adminId fun row ↦ { row with credential := ⟨passwordHash, 0, none⟩, mustChangePassword := true }
  | .setActive adminId active => w.setAdmin adminId fun row ↦ { row with active }
  | .restand ownerId fleet => w.setOwner ownerId fun row ↦ { row with fleet }
  | .enrol realm subjectId present =>
    { w with subjects := Function.update w.subjects realm (Function.update (w.subjects realm) subjectId present) }

end World

instance : Store Step World := ⟨fun l w ↦ w.run l⟩

abbrev Request := Proc Step World String

/-- The limits, and what is computed outside this code: digests, password hashes, the codes of an
authenticator and the decryption of its secret. -/
structure Env where
  OTP_MAX_ATTEMPTS : ℕ
  OTP_TTL_SECONDS : ℕ
  digest : Text → Text
  verifyPassword : Text → Text → Bool
  generate : Text → ℤ → Option Text
  decryptSecret : Text → Option Text

def LOGIN_REJECTED : String := "Email or password is incorrect"

def CHALLENGE_REJECTED : String := "This login challenge is no longer valid"

def WRONG_CODE : String := "That code is not correct"

def TOTP_NO_SMS_CODE_HASH : Text := "totp$no-sms-code".toList

def TOTP_STEP_SECONDS : ℤ := 30

namespace TotpService

/-- The first of the steps around now whose code is the typed one. -/
def matching (env : Env) (secret code : Text) (nowSec : ℤ) : List ℤ → Option ℤ
  | [] => none
  | delta :: deltas =>
    let epoch := nowSec + delta * TOTP_STEP_SECONDS
    match env.generate secret epoch with
    | none => none
    | some expected =>
      if expected = code then some (epoch / TOTP_STEP_SECONDS) else matching env secret code nowSec deltas

def verifyCode (env : Env) (secret code : Text) (now : ℤ) : Option ℤ :=
  if code.length = 6 ∧ code.all Char.isDigit then matching env secret code (now / 1000) [-1, 0, 1] else none

end TotpService

variable (env : Env)

/-- Every login's second step starts from a challenge of its own realm that is still open. -/
def liveChallenge (serves : Realm → Bool) (challengeId : ℕ) (now : ℤ) : Request Challenge :=
  Proc.attempt .look fun w ↦
    match w.challenges[challengeId]? with
    | none => .error CHALLENGE_REJECTED
    | some challenge =>
      if serves challenge.realm && challenge.consumedAt.isNone && now < challenge.expiresAt then .ok challenge
      else .error CHALLENGE_REJECTED

/-- The attempt is counted before the code is looked at. -/
def attempting (otpId : ℕ) (now : ℤ) (tooMany : String) : Request OtpRow := do
  let attempted ← Proc.query (.attempt otpId env.OTP_MAX_ATTEMPTS now) (·.guessable otpId env.OTP_MAX_ATTEMPTS now)
  match attempted with
  | none => throw tooMany
  | some row => pure row

/-- A code that a vendor made is checked by the vendor, whose answer `vendorSays` is. -/
def otpMatches (row : OtpRow) (attempt : Text) (vendorSays : Bool) : Bool :=
  if row.vendorRef.isSome then vendorSays else row.codeHash = env.digest attempt

def verifyCodeStep (otpId : ℕ) (now : ℤ) (code : Text) (vendorSays : Bool) (tooMany : String) : Request Unit := do
  let row ← attempting env otpId now tooMany
  let matched := otpMatches env row code vendorSays
  Proc.write (.check otpId matched)
  if matched then pure () else throw WRONG_CODE

/-- Of two requests with a right code, the one that marks the challenge goes on. -/
def consuming (challengeId otpId : ℕ) (now : ℤ) : Request Unit := do
  let consumed ← Proc.query (.consume challengeId now) fun w ↦ (w.unconsumed challengeId).isSome
  if consumed then Proc.write (.markUsed otpId) else throw CHALLENGE_REJECTED

/-- The code and the challenge that every first step leaves behind. `vendorRef` is the reference of a
vendor that made the code itself. -/
def challenging (codeHash : Text) (vendorRef : Option Text) (subjectId : ℕ) (realm : Realm) (now : ℤ) :
    Request ℕ := do
  let expiresAt := now + env.OTP_TTL_SECONDS * 1000
  let otpId ← Proc.query (.insertOtp { codeHash, expiresAt }) (·.otps.length)
  let challengeId ← Proc.query (.insertChallenge { subjectId, realm, otpId, expiresAt }) (·.challenges.length)
  match vendorRef with
  | none => pure challengeId
  | some vendorRef =>
    Proc.write (.setVendorRef otpId vendorRef)
    pure challengeId

/-- A password against the credential that was read, and the wrong ones counted. -/
def passwordStep (fails : Step) (credential : Option Credential) (password : Text) (now : ℤ) : Request Unit :=
  match credential with
  | none => throw LOGIN_REJECTED
  | some credential =>
    if credential.lockedUntil.any (now < ·) then throw LOGIN_REJECTED
    else if env.verifyPassword password credential.passwordHash then pure ()
    else do
      Proc.write fails
      throw LOGIN_REJECTED

namespace AuthService

def login (ownerId : ℕ) (password code : Text) (vendorRef : Option Text) : Request ℕ := do
  let now ← Proc.query .look (·.now)
  let owner ← Proc.query .look (·.owners ownerId)
  passwordStep env (.failOwner ownerId now) (owner.map (·.credential)) password now
  let fleet ← Proc.query .look fun w ↦ (w.owners ownerId).bind (·.fleet)
  match fleet with
  | none => throw LOGIN_REJECTED
  | some .suspended => throw "This fleet account is suspended"
  | some _ =>
    Proc.write (.clearOwner ownerId)
    challenging env (env.digest code) vendorRef ownerId .fleet now

def verify (challengeId : ℕ) (otp : Text) (vendorSays : Bool) : Request Unit := do
  let now ← Proc.query .look (·.now)
  let challenge ← liveChallenge (· = .fleet) challengeId now
  verifyCodeStep env challenge.otpId now otp vendorSays "Too many incorrect codes — request a new login"
  consuming challengeId challenge.otpId now
  let fleet ← Proc.query .look fun w ↦ (w.owners challenge.subjectId).bind (·.fleet)
  match fleet with
  | none => throw "This account no longer owns a fleet"
  | some .suspended => throw "This fleet account is suspended"
  | some _ =>
    Proc.write (.clearOwner challenge.subjectId)
    Proc.write (.issue challengeId challenge.subjectId .fleet)

end AuthService

namespace AuthPublicService

/-- `subjectId` is the account that the number was found or created as. -/
def sendOtp (driver : Bool) (subjectId : ℕ) (code : Text) (vendorRef : Option Text) : Request ℕ := do
  let now ← Proc.query .look (·.now)
  challenging env (env.digest code) vendorRef subjectId (if driver then .driver else .customer) now

def verifyOtp (challengeId : ℕ) (otp : Text) (vendorSays : Bool) : Request Unit := do
  let now ← Proc.query .look (·.now)
  let challenge ← liveChallenge (fun realm ↦ realm = .customer || realm = .driver) challengeId now
  verifyCodeStep env challenge.otpId now otp vendorSays "Too many incorrect codes — request a new code"
  consuming challengeId challenge.otpId now
  let present ← Proc.query .look (·.subjects challenge.realm challenge.subjectId)
  if present then Proc.write (.issue challengeId challenge.subjectId challenge.realm) else throw CHALLENGE_REJECTED

end AuthPublicService

namespace AdminAuthService

def requireActiveAdmin (adminId : ℕ) : Request AdminRow :=
  Proc.attempt .look fun w ↦
    match (w.admins adminId).filter (·.active) with
    | none => .error "This admin account is not active"
    | some row => .ok row

def login (adminId : ℕ) (password code : Text) (vendorRef : Option Text) : Request ℕ := do
  let now ← Proc.query .look (·.now)
  let admin ← Proc.query .look (·.admins adminId)
  passwordStep env (.failAdmin adminId now) (admin.map (·.credential)) password now
  if admin.any (·.active) then
    Proc.write (.clearAdmin adminId)
    if admin.any (·.twofaEnabled) then challenging env TOTP_NO_SMS_CODE_HASH none adminId .admin now
    else challenging env (env.digest code) vendorRef adminId .admin now
  else throw "This admin account is not active"

def consumeRecoveryCode (adminId otpId : ℕ) (code : Text) (now : ℤ) : Request Bool := do
  let candidate ← Proc.query .look fun w ↦
    (List.range w.codes.length).find? fun id ↦
      (w.unused id).any fun c ↦ c.adminId = adminId && c.codeHash = env.digest code
  Proc.write (.check otpId candidate.isSome)
  match candidate with
  | none => pure false
  | some codeId => Proc.query (.burn codeId now) fun w ↦ (w.unused codeId).isSome

/-- A code is right if its step moves the admin's counter. -/
def verifyTotpCode (adminId otpId : ℕ) (secretEnc : Text) (lastCounter : Option ℤ) (code : Text) : Request Unit :=
  match env.decryptSecret secretEnc with
  | none => throw WRONG_CODE
  | some secret => do
    let counter ← Proc.query .look fun w ↦ TotpService.verifyCode env secret code w.now
    Proc.write (.check otpId counter.isSome)
    match counter with
    | none => throw WRONG_CODE
    | some counter =>
      let moved ← Proc.query (.advance adminId lastCounter counter) fun w ↦
        (w.admins adminId).any (·.advances lastCounter counter)
      if moved then pure () else throw WRONG_CODE

def verifyTotpStep (adminId otpId : ℕ) (secretEnc : Text) (lastCounter : Option ℤ) (code : Text) (now : ℤ) :
    Request Unit := do
  let _ ← attempting env otpId now "Too many incorrect codes — start the login again"
  if code.length = 8 then
    let burned ← consumeRecoveryCode env adminId otpId code now
    if burned then pure () else throw WRONG_CODE
  else verifyTotpCode env adminId otpId secretEnc lastCounter code

/-- The second factor of the admin as it was read: an authenticator where one is enrolled. -/
def secondFactor (row : AdminRow) (adminId otpId : ℕ) (otp : Text) (vendorSays : Bool) (now : ℤ) : Request Unit :=
  match row.twofaEnabled, row.twofaSecretEnc with
  | true, some secretEnc => verifyTotpStep env adminId otpId secretEnc row.twofaLastCounter otp now
  | _, _ =>
    verifyCodeStep env otpId now otp vendorSays "Too many incorrect codes — start the login again"

def identity (adminId : ℕ) : Request Unit :=
  Proc.attempt .look fun w ↦
    if (w.admins adminId).any (·.active) then .ok () else .error "This admin account is not active"

def verify (challengeId : ℕ) (otp : Text) (vendorSays : Bool) : Request Unit := do
  let now ← Proc.query .look (·.now)
  let challenge ← liveChallenge (· = .admin) challengeId now
  let row ← requireActiveAdmin challenge.subjectId
  if row.mustChangePassword then throw "A password change is required before signing in — complete it to continue"
  else
    secondFactor env row challenge.subjectId challenge.otpId otp vendorSays now
    consuming challengeId challenge.otpId now
    identity challenge.subjectId
    Proc.write (.clearAdmin challenge.subjectId)
    Proc.write (.issue challengeId challenge.subjectId .admin)

def completePasswordChange (challengeId : ℕ) (newPasswordHash : Text) : Request Unit := do
  let now ← Proc.query .look (·.now)
  let challenge ← liveChallenge (· = .admin) challengeId now
  let row ← requireActiveAdmin challenge.subjectId
  if row.mustChangePassword then
    Proc.write (.setPassword challenge.subjectId newPasswordHash)
    consuming challengeId challenge.otpId now
    identity challenge.subjectId
    Proc.write (.issue challengeId challenge.subjectId .admin)
  else throw "No password change is pending for this account"

def totpEnroll (adminId : ℕ) (secretEnc : Text) : Request Unit := do
  let row ← requireActiveAdmin adminId
  if row.twofaEnabled then throw "Two-factor is already enabled"
  else
    Proc.write (.enroll adminId secretEnc)
    Proc.write (.deleteCodes adminId)

def totpConfirm (adminId : ℕ) (code : Text) : Request Unit := do
  let row ← requireActiveAdmin adminId
  if row.twofaEnabled then throw "Two-factor is already enabled"
  else
    match row.twofaSecretEnc with
    | none => throw "Start enrolment before confirming"
    | some secretEnc =>
      let matched ← Proc.query .look fun w ↦
        ((env.decryptSecret secretEnc).bind fun secret ↦ TotpService.verifyCode env secret code w.now).isSome
      if matched then Proc.write (.confirm adminId) else throw WRONG_CODE

def totpDisable (adminId : ℕ) : Request Unit := do
  let row ← requireActiveAdmin adminId
  if row.twofaEnabled then
    Proc.write (.disable adminId)
    Proc.write (.deleteCodes adminId)
  else throw "Two-factor is not enabled"

def totpRecoveryCodes (adminId : ℕ) (codeHashes : List Text) : Request Unit := do
  let row ← requireActiveAdmin adminId
  if row.twofaEnabled then
    Proc.write (.deleteCodes adminId)
    Proc.write (.insertCodes adminId codeHashes)
  else throw "Enable two-factor before issuing recovery codes"

end AdminAuthService

/-- What is asked of the logins, while time passes and accounts come, go and change. -/
inductive SignsIn : Request Unit → Prop
  | ownerLogin (ownerId : ℕ) (password code : Text) (vendorRef : Option Text) :
      SignsIn (AuthService.login env ownerId password code vendorRef).ignore
  | ownerVerify (challengeId : ℕ) (otp : Text) (vendorSays : Bool) :
      SignsIn (AuthService.verify env challengeId otp vendorSays)
  | sendOtp (driver : Bool) (subjectId : ℕ) (code : Text) (vendorRef : Option Text) :
      SignsIn (AuthPublicService.sendOtp env driver subjectId code vendorRef).ignore
  | verifyOtp (challengeId : ℕ) (otp : Text) (vendorSays : Bool) :
      SignsIn (AuthPublicService.verifyOtp env challengeId otp vendorSays)
  | adminLogin (adminId : ℕ) (password code : Text) (vendorRef : Option Text) :
      SignsIn (AdminAuthService.login env adminId password code vendorRef).ignore
  | adminVerify (challengeId : ℕ) (otp : Text) (vendorSays : Bool) :
      SignsIn (AdminAuthService.verify env challengeId otp vendorSays)
  | completePasswordChange (challengeId : ℕ) (newPasswordHash : Text) :
      SignsIn (AdminAuthService.completePasswordChange challengeId newPasswordHash)
  | totpEnroll (adminId : ℕ) (secretEnc : Text) : SignsIn (AdminAuthService.totpEnroll adminId secretEnc)
  | totpConfirm (adminId : ℕ) (code : Text) : SignsIn (AdminAuthService.totpConfirm env adminId code)
  | totpDisable (adminId : ℕ) : SignsIn (AdminAuthService.totpDisable adminId)
  | totpRecoveryCodes (adminId : ℕ) (codeHashes : List Text) :
      SignsIn (AdminAuthService.totpRecoveryCodes adminId codeHashes)
  | tick (ms : ℕ) : SignsIn (Proc.write (.tick ms))
  | employ (adminId : ℕ) (passwordHash : Text) : SignsIn (Proc.write (.employ adminId passwordHash))
  | resetPassword (adminId : ℕ) (passwordHash : Text) : SignsIn (Proc.write (.resetPassword adminId passwordHash))
  | setActive (adminId : ℕ) (active : Bool) : SignsIn (Proc.write (.setActive adminId active))
  | restand (ownerId : ℕ) (fleet : Option FleetStatus) : SignsIn (Proc.write (.restand ownerId fleet))
  | enrol (realm : Realm) (subjectId : ℕ) (present : Bool) : SignsIn (Proc.write (.enrol realm subjectId present))

end Towing.Login
