import TestingPlatform.Auth.Models
import TestingPlatform.Lib.Outline
import Mathlib.Algebra.Group.Int.Defs

/-!
# The authentication requests, one database statement at a time

`domains/auth/service.py` with the statements of `domains/auth/repository.py`, behind the session policy of
`core/security.py`. What a request gets from outside the database is in its call: `now()` of its transaction
and what it draws at random. Nothing writes an account or a key envelope here, so reading an envelope is part
of the statement before it.

Once a request has decided, the rest of its transaction is a list of statements (`Stmt`) that ends in the
commit; `Tail` carries what it has written so far. An `UPDATE` skips a row that its `WHERE` does not match, and
takes the lock of one that it does; an `UPDATE` of many rows finds them in the snapshot it starts with.
-/

namespace TestingPlatform.Auth

open ReadCommitted

structure Settings where
  authSessionIdleSeconds : Int
  authSessionAbsoluteSeconds : Int
  authLockoutThreshold : Nat
  authLockoutSeconds : Int
  authMfaAssuranceMaxAgeSeconds : Int
  authMfaFailedThreshold : Nat
  authMfaLockoutBaseSeconds : Int
  authMfaLockoutCapSeconds : Int
  /-- Hexadecimal; empty where there is no master key. -/
  appEncryptionMasterKey : String := ""

def hexDigit (c : Char) : Option Nat :=
  if '0' ≤ c ∧ c ≤ '9' then some (c.toNat - 48)
  else if 'a' ≤ c ∧ c ≤ 'f' then some (c.toNat - 87)
  else if 'A' ≤ c ∧ c ≤ 'F' then some (c.toNat - 55)
  else none

/-- `bytes.fromhex`: pairs of digits, with blanks between the pairs. -/
def fromHex : List Char → Option Bytes
  | [] => some []
  | c :: rest =>
    if (9 ≤ c.toNat ∧ c.toNat ≤ 13) ∨ c = ' ' then fromHex rest
    else match rest with
      | [] => none
      | d :: rest =>
        match hexDigit c, hexDigit d, fromHex rest with
        | some a, some b, some bytes => some (UInt8.ofNat (16 * a + b) :: bytes)
        | _, _, _ => none

namespace Settings
variable (s : Settings)

/-- The defaults of `settings.py`. -/
def shipped : Settings where
  authSessionIdleSeconds := 1800
  authSessionAbsoluteSeconds := 28800
  authLockoutThreshold := 10
  authLockoutSeconds := 900
  authMfaAssuranceMaxAgeSeconds := 900
  authMfaFailedThreshold := 5
  authMfaLockoutBaseSeconds := 900
  authMfaLockoutCapSeconds := 86400

/-- `_auth_settings_are_coherent` on the key; an empty one is checked where it is used. -/
def masterKeyIsCoherent : Except String Unit :=
  if s.appEncryptionMasterKey = "" then .ok ()
  else match fromHex s.appEncryptionMasterKey.toList with
    | none => .error "APP_ENCRYPTION_MASTER_KEY must be hexadecimal."
    | some raw =>
      if raw.length ≠ 32 then .error "APP_ENCRYPTION_MASTER_KEY must be 64 hex characters (256 bits)." else .ok ()

/-- `_auth_settings_are_coherent`. -/
def authSettingsAreCoherent : Except String Unit := do
  s.masterKeyIsCoherent
  if s.authSessionAbsoluteSeconds < s.authSessionIdleSeconds then
    .error "AUTH_SESSION_ABSOLUTE_SECONDS must be at least AUTH_SESSION_IDLE_SECONDS."
  else if s.authSessionAbsoluteSeconds < s.authMfaAssuranceMaxAgeSeconds then
    .error "AUTH_MFA_ASSURANCE_MAX_AGE_SECONDS must not exceed AUTH_SESSION_ABSOLUTE_SECONDS."
  else if s.authMfaLockoutCapSeconds < s.authMfaLockoutBaseSeconds then
    .error "AUTH_MFA_LOCKOUT_CAP_SECONDS must be at least AUTH_MFA_LOCKOUT_BASE_SECONDS."
  else .ok ()

variable {s}

theorem masterKeyIsCoherent_eq_ok : s.masterKeyIsCoherent = .ok () ↔
    s.appEncryptionMasterKey = "" ∨ ∃ raw, fromHex s.appEncryptionMasterKey.toList = some raw ∧ raw.length = 32 := by
  unfold masterKeyIsCoherent
  split
  next hempty => simp [hempty]
  next hkey =>
    split
    next hbad => simp [hkey, hbad]
    next raw hraw => split <;> simp_all

theorem authSettingsAreCoherent_eq_ok : s.authSettingsAreCoherent = .ok () ↔
    s.masterKeyIsCoherent = .ok () ∧ s.authSessionIdleSeconds ≤ s.authSessionAbsoluteSeconds ∧
      s.authMfaAssuranceMaxAgeSeconds ≤ s.authSessionAbsoluteSeconds ∧
      s.authMfaLockoutBaseSeconds ≤ s.authMfaLockoutCapSeconds := by
  unfold authSettingsAreCoherent
  cases hkey : s.masterKeyIsCoherent with
  | error text => simp [bind, Except.bind]
  | ok _ =>
    simp only [bind, Except.bind, true_and]
    split
    next hidle => simp [Int.not_le.2 hidle]
    next hidle =>
      split
      next hage => simp [Int.not_le.2 hage]
      next hage => split <;> simp_all

example : shipped.authSettingsAreCoherent = .ok () := rfl

end Settings

/-! ### Requests -/

/-- The id and the token that `_open_session` draws. -/
structure NewSession where
  id : Uuid
  token : String
  token_ascii : isAscii token = true := by decide

/-- Exactly one of the two forms, as the schema has it. -/
inductive Code where
  | totp (code : String)
  | recovery (code : String)
  deriving DecidableEq, Repr

inductive Operation where
  | logout
  | changePassword (currentPassword newPassword : String) (salt nonce : Bytes) (opens : NewSession)
  | enrollMfa (password : String) (secret nonce : Bytes)
  | confirmMfa (code : String) (codes : RecoveryCodes)
  | verifyMfa (code : Code) (opens : NewSession)
  | disableMfa (password : String) (code : Code) (opens : NewSession)
  | regenerateRecoveryCodes (password : String) (codes : RecoveryCodes)

/-- A request behind the session cookie. -/
structure Call where
  token : String
  now : Time
  operation : Operation

structure LoginCall where
  email : String
  password : String
  now : Time
  salt : Bytes
  nonce : Bytes
  opens : NewSession

inductive Request where
  | login (c : LoginCall)
  | call (c : Call)

def Request.now : Request → Time
  | .login c => c.now
  | .call c => c.now

structure AuthenticatedSession where
  sessionId : Uuid
  userId : Uuid
  mfaEnrolled : Bool
  mfaVerifiedAt : Option Time
  observedAt : Time

/-- The operations on `PendingMfaSession`. -/
def Operation.allowPending : Operation → Bool
  | .logout | .verifyMfa .. => true
  | _ => false

/-! ### Answers -/

inductive Refusal where
  | invalidCredentials | accountLocked
  | notAuthenticated | mfaRequired | mfaEnrollmentRequired | mfaStepupRequired
  | wrongCurrentPassword | mfaAlreadyEnrolled | mfaNotEnrolled | mfaLocked | sessionRevoked
  | uniqueViolation
  /-- A missing envelope or an undecipherable column. -/
  | internalError
  /-- A code was wrong, and counting the failure raised. -/
  | uncounted (userId : Uuid)
  deriving DecidableEq, Repr

/-- What a factor accepted. -/
inductive Spent where
  | step (step : Int)
  | recovery (codeHash : Bytes)
  deriving DecidableEq, Repr

/-- What a request has done when it ends. A wrong password or code is an answer that commits its counters. -/
inductive Event where
  | refused (r : Refusal)
  | loginFailed (userId : Uuid)
  | loggedIn (userId : Uuid) (password : String) (sessionId : Uuid)
  | loggedOut (sessionId : Uuid)
  | passwordChanged (userId : Uuid) (currentPassword newPassword : String) (sessionId : Uuid)
  | enrolled (userId : Uuid) (secret : Bytes)
  | confirmed (userId : Uuid) (secret : Bytes) (step : Int)
  | wrongCode (userId : Uuid)
  | steppedUp (userId : Uuid) (spent : Spent) (sessionId : Uuid)
  | completed (userId : Uuid) (spent : Spent) (pendingId sessionId : Uuid)
  | disabled (userId : Uuid) (spent : Spent) (sessionId : Uuid)
  | regenerated (userId : Uuid)
  deriving DecidableEq, Repr

/-! ### Control states -/

/-- A writing statement. -/
inductive Stmt where
  /-- The unit of work flushes a loaded row. -/
  | updateCredential (userId : Uuid) (c : CredentialChange)
  | updateMfa (userId : Uuid) (c : MfaChange)
  | insertMfa (row : UserMfa)
  /-- `stamp_session_assurance`. -/
  | stampSession (sessionId : Uuid)
  | revokeSession (sessionId : Uuid)
  | revokeOtherSessions (userId keepSessionId : Uuid)
  | burnRecoveryCodes (userId : Uuid)
  /-- One row of `burn_recovery_codes`. -/
  | supersedeCode (userId : Uuid) (codeHash : Bytes)
  | openSession (row : UserSession)
  | insertCode (row : MfaRecoveryCode)

structure Tail where
  request : Request
  writes : List Write
  todo : List Stmt
  event : Event

structure LoginRow where
  userId : Uuid
  disabledAt : Option Time
  passwordCiphertext : Bytes
  lockedUntil : Option Time

inductive Proc where
  | login (c : LoginCall)
  | recordFailure (c : LoginCall) (userId : Uuid)
  | loginCredential (c : LoginCall) (userId : Uuid) (kek stored : Bytes)
  | bootstrap (c : Call)
  | mfaState (c : Call) (sessionId userId : Uuid)
  | touch (c : Call) (current : AuthenticatedSession)
  | credential (c : Call) (current : AuthenticatedSession) (password : String)
  | enrollRow (c : Call) (current : AuthenticatedSession) (kek : Bytes)
  | regenerateRow (c : Call) (current : AuthenticatedSession)
  | factor (c : Call) (current : AuthenticatedSession)
  | disableCredential (c : Call) (current : AuthenticatedSession) (row : UserMfa)
  | consume (c : Call) (current : AuthenticatedSession) (row : UserMfa) (codeHash : Bytes)
  | tail (t : Tail)
  | refuse (r : Refusal)
  | done

abbrev Step := Move Lock Write Proc Event

/-! ### Session policy -/

section Program
variable (P : Primitives) (s : Settings)

def userKek (d : Db) (userId : Uuid) : Option Bytes :=
  (d.envelopes.find userId).bind fun e => P.unwrapKey e.wrappedKek e.wrappingNonce

def loginLookup (d : Db) (email : String) : Option LoginRow :=
  (d.users.rows.find? fun u => P.sqlLower u.email = P.sqlLower email).bind fun u =>
    (d.credentials.find u.id).map fun c => ⟨u.id, u.disabledAt, c.passwordCiphertext, c.lockedUntil⟩

def sessionBootstrap (d : Db) (tokenHash : Bytes) : Option (UserSession × AppUser) :=
  (d.sessions.rows.find? fun x => x.tokenHash = tokenHash).bind fun x => (d.users.find x.userId).map fun u => (x, u)

/-- Both caps, against the clock of the lookup. -/
def expired (x : UserSession) (observedAt : Time) : Bool :=
  Time.seconds s.authSessionAbsoluteSeconds ≤ observedAt - x.createdAt ∨
    Time.seconds s.authSessionIdleSeconds ≤ observedAt - x.lastSeenAt

def mfaEnrolled (d : Db) (userId : Uuid) : Bool := (d.mfa.find userId).any fun m => m.confirmedAt.isSome

def requireCurrentMfaAssurance (current : AuthenticatedSession) : Option Refusal :=
  if !current.mfaEnrolled then some .mfaEnrollmentRequired
  else if current.mfaVerifiedAt.any fun t =>
    current.observedAt - t < Time.seconds s.authMfaAssuranceMaxAgeSeconds then none
  else some .mfaStepupRequired

/-! ### Pieces of the service -/

def encryptPassword (salt nonce : Bytes) (password : String) (kek : Bytes) : Bytes :=
  P.encrypt nonce kek .credential (P.hash salt password)

/-- `_verify_current_password` on the credential it read. -/
def verifyCurrentPassword (d : Db) (credential : UserCredential) (password : String) : Except Refusal Bytes :=
  match userKek P d credential.userId with
  | none => .error .internalError
  | some kek =>
    match (P.decrypt credential.passwordCiphertext kek .credential).bind (P.verify · password) with
    | none => .error .internalError
    | some false => .error .wrongCurrentPassword
    | some true => .ok kek

/-- The change of `_record_failure`. -/
def recordFailure (row : UserCredential) (observedAt : Time) : CredentialChange :=
  if s.authLockoutThreshold ≤ row.failedLoginCount + 1 then
    { failedLoginCount := some 0, lockedUntil := some (some (observedAt + Time.seconds s.authLockoutSeconds)) }
  else { failedLoginCount := some (row.failedLoginCount + 1) }

/-- What a successful login assigns: the counter reset, and a new hash where the parameters changed. -/
def loginChange (c : LoginCall) (kek stored : Bytes) (credential : UserCredential) : CredentialChange :=
  let reset := credential.failedLoginCount ≠ 0 ∨ credential.lockedUntil.isSome
  { failedLoginCount := if reset then some 0 else none
    lockedUntil := if reset then some none else none
    passwordCiphertext := if P.checkNeedsRehash stored then some (encryptPassword P c.salt c.nonce c.password kek) else none }

def NewSession.row (x : NewSession) (userId : Uuid) (now : Time) (assuredAt : Option Time := none) : UserSession where
  id := x.id
  userId
  tokenHash := P.hashSessionToken x.token
  createdAt := now
  lastSeenAt := now
  mfaVerifiedAt := assuredAt

def mfaLocked (row : UserMfa) (observedAt : Time) : Bool := row.lockedUntil.any fun t => observedAt < t

/-- The largest value of an `integer` column. -/
def integerMax : Nat := 2147483647

/-- The change of `_record_mfa_failure`; `none` where it raises, because the lockout would end past `datetime.max` or the
flush of its commit finds a counter past `integer`. -/
def recordMfaFailure (row : UserMfa) (observedAt : Time) : Option MfaChange :=
  if s.authMfaFailedThreshold ≤ row.failedCount + 1 then
    let duration := min (s.authMfaLockoutBaseSeconds * 2 ^ row.lockoutCount) s.authMfaLockoutCapSeconds
    (observedAt.plusSeconds duration).bind fun lockedUntil =>
      if row.lockoutCount < integerMax then
        some { lockoutCount := some (row.lockoutCount + 1), lockedUntil := some (some lockedUntil), failedCount := some 0 }
      else none
  else if row.failedCount < integerMax then some { failedCount := some (row.failedCount + 1) }
  else none

def seed (d : Db) (row : UserMfa) : Option Bytes :=
  row.totpSecretCiphertext.bind fun ciphertext => (userKek P d row.userId).bind fun kek => P.decrypt ciphertext kek .mfaSecret

/-- What accepting a code assigns. -/
def acceptChange (spent : Spent) : MfaChange :=
  { lastUsedStep := match spent with | .step n => some (some n) | .recovery _ => none
    failedCount := some 0, lockoutCount := some 0, lockedUntil := some none }

/-- The `UPDATE` of a flush; without a changed column there is none. -/
def updateCredential (userId : Uuid) (c : CredentialChange) : List Stmt := if c = {} then [] else [.updateCredential userId c]

def updateMfa (userId : Uuid) (c : MfaChange) : List Stmt := if c = {} then [] else [.updateMfa userId c]

/-- `insert_recovery_codes`, row by row. -/
def insertRecoveryCodes (userId : Uuid) (codes : RecoveryCodes) : List Stmt :=
  codes.codes.map fun code => .insertCode ⟨userId, P.hashRecoveryCode code, none, none⟩

/-- What `consume_recovery_code` has written. -/
def useWrites (row : UserMfa) (spent : Spent) (now : Time) : List Write :=
  match spent with
  | .step _ => []
  | .recovery h => [.useCode row.userId h now]

def confirmChange (step : Int) (now : Time) : MfaChange := { acceptChange (.step step) with confirmedAt := some (some now) }

/-- What disabling the factor leaves of an accepted code. -/
def disableChange (spent : Spent) : MfaChange :=
  { acceptChange spent with totpSecretCiphertext := some none, confirmedAt := some none, lastUsedStep := some none }

/-- What restarting an enrollment assigns. -/
def enrollChange (ciphertext : Bytes) : MfaChange :=
  { totpSecretCiphertext := some (some ciphertext), lastUsedStep := some none, failedCount := some 0 }

/-! ### Decisions -/

/-- The session touch, with which every transaction behind the cookie begins. -/
def touched (c : Call) (current : AuthenticatedSession) (writes : List Write) (todo : List Stmt) (event : Event) : Proc :=
  .tail { request := .call c, writes := .touch current.sessionId c.now :: writes, todo, event }

/-- The counted failure, which commits; the session touch does not where counting it raises. -/
def wrongCode (c : Call) (current : AuthenticatedSession) (row : UserMfa) : Proc :=
  match recordMfaFailure s row c.now with
  | none => .refuse (.uncounted row.userId)
  | some change => touched c current [] (updateMfa row.userId (row.flush change)) (.wrongCode row.userId)

/-- The rest of `verify_mfa` and `disable_mfa` once `_spend_code` accepted the code. -/
def accepted (c : Call) (current : AuthenticatedSession) (row : UserMfa) (spent : Spent) : Proc :=
  let writes := useWrites row spent c.now
  match c.operation with
  | .verifyMfa _ opens =>
    let update := updateMfa row.userId (row.flush (acceptChange spent))
    if current.mfaEnrolled && current.mfaVerifiedAt.isNone then
      touched c current writes
        (update ++ [.revokeSession current.sessionId, .openSession (opens.row P current.userId c.now (some c.now))])
        (.completed row.userId spent current.sessionId opens.id)
    else touched c current writes (update ++ [.stampSession current.sessionId]) (.steppedUp row.userId spent current.sessionId)
  | .disableMfa _ _ opens =>
    touched c current writes
      (updateMfa row.userId (row.flush (disableChange spent)) ++ [.burnRecoveryCodes current.userId,
        .revokeOtherSessions current.userId current.sessionId, .revokeSession current.sessionId,
        .openSession (opens.row P current.userId c.now)])
      (.disabled row.userId spent opens.id)
  | _ => .refuse .internalError

/-- `_spend_code` up to its first statement. -/
def spendCode (d : Db) (c : Call) (current : AuthenticatedSession) (row : UserMfa) : Code → Proc
  | .totp code =>
    match seed P d row with
    | none => .refuse .internalError
    | some secret =>
      match P.matchingStep secret code (stepAt c.now) with
      | none => wrongCode s c current row
      | some step => if row.lastUsedStep.any (step ≤ ·) then wrongCode s c current row else accepted P c current row (.step step)
  | .recovery code => .consume c current row (P.hashRecoveryCode code)

/-- `confirm_mfa` on the locked row. -/
def confirm (d : Db) (c : Call) (current : AuthenticatedSession) (row : UserMfa) (code : String) (codes : RecoveryCodes) : Proc :=
  match seed P d row with
  | none => .refuse .internalError
  | some secret =>
    match P.matchingStep secret code (stepAt c.now) with
    | none => wrongCode s c current row
    | some step =>
      touched c current []
        (updateMfa row.userId (row.flush (confirmChange step c.now)) ++
          [.stampSession current.sessionId, .revokeOtherSessions current.userId current.sessionId,
            .burnRecoveryCodes current.userId] ++ insertRecoveryCodes P current.userId codes)
        (.confirmed row.userId secret step)

/-- What follows `mfa_for_update`. -/
def onFactor (d : Db) (c : Call) (current : AuthenticatedSession) (row : UserMfa) : Proc :=
  match c.operation with
  | .confirmMfa code codes =>
    if row.totpSecretCiphertext.isNone then .refuse .mfaNotEnrolled
    else if row.confirmedAt.isSome then .refuse .mfaAlreadyEnrolled
    else if mfaLocked row c.now then .refuse .mfaLocked
    else confirm P s d c current row code codes
  | .verifyMfa code _ =>
    if row.confirmedAt.isNone ∨ row.totpSecretCiphertext.isNone then .refuse .mfaNotEnrolled
    else if mfaLocked row c.now then .refuse .mfaLocked
    else spendCode P s d c current row code
  | .disableMfa .. =>
    if row.confirmedAt.isNone ∨ row.totpSecretCiphertext.isNone then .refuse .mfaNotEnrolled
    else if mfaLocked row c.now then .refuse .mfaLocked
    else .disableCredential c current row
  | _ => .refuse .internalError

/-- The first statement of the service function. -/
def enter (c : Call) (current : AuthenticatedSession) : Proc :=
  match c.operation with
  | .logout => touched c current [] [.revokeSession current.sessionId] (.loggedOut current.sessionId)
  | .changePassword password .. | .enrollMfa password .. => .credential c current password
  | .confirmMfa .. | .verifyMfa .. => .factor c current
  | .disableMfa .. => (requireCurrentMfaAssurance s current).elim (.factor c current) .refuse
  | .regenerateRecoveryCodes password _ => (requireCurrentMfaAssurance s current).elim (.credential c current password) .refuse

/-- What follows `_verify_current_password`. -/
def onPassword (c : Call) (current : AuthenticatedSession) (credential : UserCredential) (kek : Bytes) : Proc :=
  match c.operation with
  | .changePassword currentPassword newPassword salt nonce opens =>
    let change := credential.flush { passwordCiphertext := some (encryptPassword P salt nonce newPassword kek)
                                     passwordUpdatedAt := some c.now }
    touched c current []
      (updateCredential current.userId change ++ [.revokeOtherSessions current.userId current.sessionId,
        .revokeSession current.sessionId, .openSession (opens.row P current.userId c.now)])
      (.passwordChanged current.userId currentPassword newPassword opens.id)
  | .enrollMfa .. => .enrollRow c current kek
  | .regenerateRecoveryCodes .. => .regenerateRow c current
  | _ => .refuse .internalError

/-- `enroll_mfa` on the row it read. -/
def enroll (c : Call) (current : AuthenticatedSession) (kek secret nonce : Bytes) (row : Option UserMfa) : Proc :=
  let ciphertext := P.encrypt nonce kek .mfaSecret secret
  match row with
  | none =>
    touched c current [] [.insertMfa { userId := current.userId, totpSecretCiphertext := some ciphertext }]
      (.enrolled current.userId secret)
  | some row =>
    if row.confirmedAt.isSome then .refuse .mfaAlreadyEnrolled
    else
      touched c current [] (updateMfa current.userId (row.flush (enrollChange ciphertext))) (.enrolled current.userId secret)

/-! ### Statements -/

/-- What a statement does: it locks and writes one row, or turns out to be these statements, or raises. -/
inductive Outcome where
  | write (ks : List Lock) (u : Write)
  | expand (todo : List Stmt)
  | refuse (r : Refusal)

def Stmt.outcome (d : Db) (now : Time) (written : List Write) : Stmt → Outcome
  | .updateCredential userId c => .write [.credential userId] (.credential userId c)
  | .updateMfa userId c => .write [.mfa userId] (.mfa userId c)
  | .insertMfa row =>
    if (d.mfa.find row.userId).isSome then .refuse .uniqueViolation else .write [.mfa row.userId] (.insertMfa row)
  | .stampSession id =>
    if (d.sessions.find id).any UserSession.live then .write [.session id] (.stampSession id now) else .refuse .sessionRevoked
  | .revokeSession id =>
    if (d.sessions.find id).any UserSession.live then .write [.session id] (.revokeSession id now) else .expand []
  | .revokeOtherSessions userId keepSessionId =>
    let others := d.sessions.rows.filter fun x => x.userId = userId ∧ x.id ≠ keepSessionId ∧ x.live = true
    .expand (others.map fun x => .revokeSession x.id)
  | .burnRecoveryCodes userId =>
    let codes := d.codes.rows.filter fun x => x.userId = userId ∧ x.live = true
    .expand (codes.map fun x => .supersedeCode userId x.codeHash)
  | .supersedeCode userId h =>
    if (d.codes.find (userId, h)).any MfaRecoveryCode.live then .write [.recoveryCode userId h] (.supersedeCode userId h now)
    else .expand []
  | .openSession row =>
    if d.sessions.rows.any fun x => x.id = row.id ∨ x.tokenHash = row.tokenHash then .refuse .uniqueViolation
    else .write [.session row.id, .sessionToken row.tokenHash] (.insertSession row)
  | .insertCode row =>
    if (d.codes.find row.key).isSome ∨ .insertCode row ∈ written then .refuse .uniqueViolation
    else .write [.recoveryCode row.userId row.codeHash] (.insertCode row)

/-- The next statement of a transaction that has decided. -/
def Tail.step (d : Db) (t : Tail) : Step :=
  match t.todo with
  | [] => { op := .commit t.writes, next := .done, emit := [t.event] }
  | stmt :: rest =>
    match stmt.outcome d t.request.now t.writes with
    | .write ks u => { op := .lock ks, next := .tail { t with todo := rest, writes := t.writes ++ [u] } }
    | .expand todo => { op := .read, next := .tail { t with todo := todo ++ rest } }
    | .refuse r => { op := .read, next := .refuse r }

def go (d : Db) : Proc → Option Step
  | .login c =>
    some { op := .read,
           next := match loginLookup P d (P.lower c.email) with
             | none => .refuse .invalidCredentials
             | some row =>
               if row.disabledAt.isSome then .refuse .invalidCredentials
               else if row.lockedUntil.any fun t => c.now < t then .refuse .accountLocked
               else match userKek P d row.userId with
                 | none => .refuse .internalError
                 | some kek => match P.decrypt row.passwordCiphertext kek .credential with
                   | none => .refuse .internalError
                   | some stored => match P.verify stored c.password with
                     | none => .refuse .internalError
                     | some false => .recordFailure c row.userId
                     | some true => .loginCredential c row.userId kek stored }
  | .recordFailure c userId =>
    some { op := .read,
           next := match d.credentials.find userId with
             | none => .refuse .invalidCredentials
             | some row =>
               .tail { request := .login c, writes := [], event := .loginFailed userId,
                       todo := updateCredential userId (row.flush (recordFailure s row c.now)) } }
  | .loginCredential c userId kek stored =>
    some { op := .read,
           next := .tail { request := .login c, writes := [], event := .loggedIn userId c.password c.opens.id,
                           todo := (match d.credentials.find userId with
                               | none => []
                               | some row => updateCredential userId (row.flush (loginChange P c kek stored row))) ++
                             [.openSession (c.opens.row P userId c.now)] } }
  | .bootstrap c =>
    some { op := .read,
           next := if c.token = "" then .refuse .notAuthenticated
             else if !isAscii c.token then .refuse .internalError
             else match sessionBootstrap d (P.hashSessionToken c.token) with
               | none => .refuse .notAuthenticated
               | some (x, u) =>
                 if x.revokedAt.isSome ∨ u.disabledAt.isSome ∨ expired s x c.now then .refuse .notAuthenticated
                 else .mfaState c x.id x.userId }
  | .mfaState c sessionId userId =>
    some { op := .read,
           next := match d.sessions.find sessionId with
             | none => .refuse .internalError
             | some x =>
               if !c.operation.allowPending && mfaEnrolled d userId && x.mfaVerifiedAt.isNone then .refuse .mfaRequired
               else .touch c ⟨sessionId, userId, mfaEnrolled d userId, x.mfaVerifiedAt, c.now⟩ }
  | .touch c current => some { op := .lock [.session current.sessionId], next := enter s c current }
  | .credential c current password =>
    some { op := .read,
           next := match d.credentials.find current.userId with
             | none => .refuse .wrongCurrentPassword
             | some credential => match verifyCurrentPassword P d credential password with
               | .error r => .refuse r
               | .ok kek => onPassword P c current credential kek }
  | .enrollRow c current kek =>
    some { op := .read,
           next := match c.operation with
             | .enrollMfa _ secret nonce => enroll P c current kek secret nonce (d.mfa.find current.userId)
             | _ => .refuse .internalError }
  | .regenerateRow c current =>
    some { op := .read,
           next := match d.mfa.find current.userId, c.operation with
             | some row, .regenerateRecoveryCodes _ codes =>
               if row.confirmedAt.isNone ∨ row.totpSecretCiphertext.isNone then .refuse .mfaNotEnrolled
               else touched c current [] (.burnRecoveryCodes current.userId :: insertRecoveryCodes P current.userId codes)
                 (.regenerated current.userId)
             | _, _ => .refuse .mfaNotEnrolled }
  | .factor c current =>
    match d.mfa.find current.userId with
    | none => some { op := .read, next := .refuse .mfaNotEnrolled }
    | some row => some { op := .lock [.mfa current.userId], next := onFactor P s d c current row }
  | .disableCredential c current row =>
    some { op := .read,
           next := match d.credentials.find current.userId, c.operation with
             | some credential, .disableMfa password code _ =>
               match verifyCurrentPassword P d credential password with
               | .error r => .refuse r
               | .ok _ => spendCode P s d c current row code
             | _, _ => .refuse .wrongCurrentPassword }
  | .consume c current row h =>
    if (d.codes.find (row.userId, h)).any MfaRecoveryCode.live then
      some { op := .lock [.recoveryCode row.userId h], next := accepted P c current row (.recovery h) }
    else some { op := .read, next := wrongCode s c current row }
  | .tail t => some (t.step d)
  | .refuse r => some { op := .rollback, next := .done, emit := [.refused r] }
  | .done => none

/-- Any number of requests over one database; each may be aborted at any statement. -/
def authentication : System Lock Write Db Proc Choice Event := System.abortable Db.write (go P s) .done

end Program

end TestingPlatform.Auth
