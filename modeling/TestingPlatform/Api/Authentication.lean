import TestingPlatform.Api.Dependencies

/-!
# The authentication routes

`domains/auth/service.py` behind `domains/auth/router.py`. Before a login there is no session, so the address is looked
up without a context, and what the lookup answers is asserted; behind the cookie the dependency has asserted the user. A
service function that succeeds has committed, and the router asserts the user again for the response.
-/

namespace TestingPlatform.Api

open Dialogue Auth

structure LoginResult where
  user : AppUser
  session : UserSession

/-! ### The service -/

section Service
variable (P : Primitives) (settings : Auth.Settings)

/-- The unit of work writes the columns that differ, before the next query. -/
def flushCredential (row : UserCredential) (change : CredentialChange) : Program Unit :=
  if row.flush change = {} then pure () else exec .auth (.flushCredential row.userId (row.flush change))

def flushMfa (row : UserMfa) (change : MfaChange) : Program Unit :=
  if row.flush change = {} then pure () else exec .auth (.flushMfa row.userId (row.flush change))

def unwrapUserKek (userId : Uuid) : Program Bytes := do
  match ← exec .auth (.userEnvelope userId) with
  | none => throw (.auth .internalError)
  | some envelope =>
    match P.unwrapKey envelope.wrappedKek envelope.wrappingNonce with
    | none => throw (.auth .internalError)
    | some kek => pure kek

def openSession (userId : Uuid) (opens : NewSession) (assuredAt : Option Time := none) : Program UserSession :=
  exec .auth (.openSession userId (P.hashSessionToken opens.token) assuredAt)

def register (x : Registration P) : Program Unit := do
  let active ← exec .auth .activeAcceptanceStatements
  let required := active.map Auth.Statement.key
  let missing := sortedDifference required x.answers
  let unknown := sortedDifference x.answers required
  if missing ≠ [] ∨ unknown ≠ [] then throw (.registration (.consent missing unknown))
  else do
    exec .auth (.setOrgContext x.organizationId (some x.userId))
    match x.keys with
    | none => throw (.registration .masterKeyUnavailable)
    | some _ => do
      exec .auth (.flushOrganization x.organizationId)
      tryCatch (exec .auth (.flushUser x.organizationId x.userId (P.lower x.email))) fun
        | .db .emailConflict => throw (.registration .emailTaken)
        | e => throw e
      exec .auth (.flushKeys x.organizationId x.userId)
      exec .auth (.flushReceipts x.organizationId
        (x.answers.filterMap fun answer => (active.find? fun s => s.key = answer).map Auth.Statement.id))
      exec .auth .commit

/-- `_record_failure`. -/
def recordFailure (userId : Uuid) (observedAt : Time) : Program Unit := do
  match ← exec .auth (.credentialFor userId) with
  | none => pure ()
  | some credential => do
    flushCredential credential (Auth.recordFailure settings credential observedAt)
    exec .auth .commit

/-- What a successful login writes to the credential. -/
def refreshCredential (c : LoginCall) (kek stored : Bytes) (credential : Option UserCredential) : Program Unit :=
  match credential with
  | none => pure ()
  | some credential => flushCredential credential (loginChange P c kek stored credential)

def login (c : LoginCall) : Program LoginResult := do
  match ← exec .auth (.loginLookup (P.lower c.email)) with
  | none => throw (.auth .invalidCredentials)
  | some row =>
    if row.disabledAt.isSome then throw (.auth .invalidCredentials)
    else if row.lockedUntil.any fun t => row.observedAt < t then throw (.auth .accountLocked)
    else do
      exec .auth (.setUserContext row.userId)
      let kek ← unwrapUserKek P row.userId
      match P.decrypt row.passwordCiphertext kek .credential with
      | none => throw (.auth .internalError)
      | some stored =>
        match P.verify stored c.password with
        | none => throw (.auth .internalError)
        | some false => do
          recordFailure settings row.userId row.observedAt
          throw (.auth .invalidCredentials)
        | some true => do
          refreshCredential P c kek stored (← exec .auth (.credentialFor row.userId))
          match ← exec .auth (.userById row.userId) with
          | none => throw (.auth .invalidCredentials)
          | some user => do
            let session ← openSession P row.userId c.opens
            exec .auth .commit
            pure ⟨user.1, session⟩

def logout (sessionId : Uuid) : Program Unit := do
  exec .auth (.revokeSession sessionId)
  exec .auth .commit

def sessionSnapshot (userId sessionId : Uuid) : Program LoginResult := do
  let user ← exec .auth (.userById userId)
  let session ← exec .auth (.sessionById sessionId)
  match user, session with
  | some user, some session => pure ⟨user.1, session⟩
  | _, _ => throw (.auth .internalError)

/-- `_verify_current_password`. -/
def verifyCurrentPassword (userId : Uuid) (password : String) : Program Bytes := do
  match ← exec .auth (.credentialFor userId) with
  | none => throw (.auth .wrongCurrentPassword)
  | some credential => do
    let kek ← unwrapUserKek P userId
    match (P.decrypt credential.passwordCiphertext kek .credential).bind (P.verify · password) with
    | none => throw (.auth .internalError)
    | some false => throw (.auth .wrongCurrentPassword)
    | some true => pure kek

/-- The sessions rotate: the others are revoked, and the calling one is replaced. -/
def rotateSessions (userId sessionId : Uuid) (opens : NewSession) : Program LoginResult := do
  exec .auth (.revokeOtherSessions userId sessionId)
  exec .auth (.revokeSession sessionId)
  match ← exec .auth (.userById userId) with
  | none => throw (.auth .wrongCurrentPassword)
  | some user => do
    let session ← openSession P userId opens
    exec .auth .commit
    pure ⟨user.1, session⟩

def changePassword (userId sessionId : Uuid) (currentPassword newPassword : String) (salt nonce : Bytes) (opens : NewSession)
    (now : Time) : Program LoginResult := do
  let kek ← verifyCurrentPassword P userId currentPassword
  match ← exec .auth (.credentialFor userId) with
  | none => throw (.auth .wrongCurrentPassword)
  | some credential => do
    flushCredential credential
      { passwordCiphertext := some (encryptPassword P salt nonce newPassword kek), passwordUpdatedAt := some now }
    rotateSessions P userId sessionId opens

/-- `_confirmed_mfa`, on the row it read. -/
def requireConfirmed (row : Option UserMfa) : Program UserMfa :=
  match row with
  | none => throw (.auth .mfaNotEnrolled)
  | some row => if row.confirmedAt.isNone || row.totpSecretCiphertext.isNone then throw (.auth .mfaNotEnrolled) else pure row

def confirmedMfa (userId : Uuid) (forUpdate : Bool := false) : Program UserMfa := do
  if forUpdate then requireConfirmed (← exec .auth (.mfaForUpdate userId))
  else requireConfirmed (← exec .auth (.mfaFor userId))

/-- `_require_mfa_unlocked`. -/
def requireMfaUnlocked (row : UserMfa) (observedAt : Time) : Program Unit :=
  if mfaLocked row observedAt then throw (.auth .mfaLocked) else pure ()

/-- `_record_mfa_failure`, and the exception that follows it. -/
def refuseCode {α : Type} (row : UserMfa) (observedAt : Time) : Program α := do
  match recordMfaFailure settings row observedAt with
  | none => throw (.auth (.uncounted row.userId))
  | some change => do
    flushMfa row change
    exec .auth .commit
    throw .invalidMfaCode

/-- The seed in force. -/
def decryptSeed (userId : Uuid) (ciphertext : Bytes) : Program Bytes := do
  let kek ← unwrapUserKek P userId
  match P.decrypt ciphertext kek .mfaSecret with
  | none => throw (.auth .internalError)
  | some secret => pure secret

/-- `_spend_code`; the caller flushes what it accepts. -/
def spendCode (row : UserMfa) (userId : Uuid) (observedAt : Time) (code : Code) : Program Spent := do
  match code, row.totpSecretCiphertext with
  | .totp _, none => throw (.auth .mfaNotEnrolled)
  | .totp code, some ciphertext => do
    let secret ← decryptSeed P userId ciphertext
    match P.matchingStep secret code (stepAt observedAt) with
    | none => refuseCode settings row observedAt
    | some step => if row.lastUsedStep.any (step ≤ ·) then refuseCode settings row observedAt else pure (.step step)
  | .recovery code, _ => do
    let spent ← exec .auth (.consumeRecoveryCode userId (P.hashRecoveryCode code))
    if !spent then refuseCode settings row observedAt
    else do
      let _ ← exec .auth (.unusedRecoveryCodeCount userId)
      pure (.recovery (P.hashRecoveryCode code))

/-- The seed of an enrollment that starts or starts again. -/
def storeSeed (userId : Uuid) (ciphertext : Bytes) (row : Option UserMfa) : Program Unit :=
  match row with
  | none => exec .auth (.insertMfa userId ciphertext)
  | some row => flushMfa row (enrollChange ciphertext)

def enrollMfa (userId : Uuid) (password : String) (secret nonce : Bytes) : Program Unit := do
  let kek ← verifyCurrentPassword P userId password
  let row ← exec .auth (.mfaFor userId)
  if row.any fun row => row.confirmedAt.isSome then throw (.auth .mfaAlreadyEnrolled)
  else do
    storeSeed userId (P.encrypt nonce kek .mfaSecret secret) row
    match ← exec .auth (.userById userId) with
    | none => throw (.auth .wrongCurrentPassword)
    | some _ => exec .auth .commit

/-- The old set of recovery codes is burned, and a new one stored. -/
def replaceRecoveryCodes (userId : Uuid) (codes : RecoveryCodes) : Program Unit := do
  exec .auth (.burnRecoveryCodes userId)
  exec .auth (.insertRecoveryCodes userId (codes.codes.map P.hashRecoveryCode))
  exec .auth .commit

def confirmMfa (userId sessionId : Uuid) (code : String) (codes : RecoveryCodes) : Program Unit := do
  match ← exec .auth (.mfaForUpdate userId) with
  | none => throw (.auth .mfaNotEnrolled)
  | some row =>
    match row.totpSecretCiphertext with
    | none => throw (.auth .mfaNotEnrolled)
    | some ciphertext =>
      if row.confirmedAt.isSome then throw (.auth .mfaAlreadyEnrolled)
      else do
        let observedAt ← exec .auth .dbNow
        requireMfaUnlocked row observedAt
        let secret ← decryptSeed P userId ciphertext
        match P.matchingStep secret code (stepAt observedAt) with
        | none => refuseCode settings row observedAt
        | some step => do
          flushMfa row (confirmChange step observedAt)
          let stamped ← exec .auth (.stampSessionAssurance sessionId)
          if !stamped then throw (.auth .sessionRevoked)
          else do
            exec .auth (.revokeOtherSessions userId sessionId)
            replaceRecoveryCodes P userId codes

def verifyMfa (userId sessionId : Uuid) (pending : Bool) (code : Code) (opens : NewSession) : Program (Option LoginResult) := do
  let row ← confirmedMfa userId true
  let observedAt ← exec .auth .dbNow
  requireMfaUnlocked row observedAt
  let spent ← spendCode P settings row userId observedAt code
  flushMfa row (acceptChange spent)
  if !pending then do
    let stamped ← exec .auth (.stampSessionAssurance sessionId)
    if !stamped then throw (.auth .sessionRevoked)
    else do
      exec .auth .commit
      pure none
  else do
    exec .auth (.revokeSession sessionId)
    match ← exec .auth (.userById userId) with
    | none => throw (.auth .mfaNotEnrolled)
    | some user => do
      let session ← openSession P userId opens (some observedAt)
      exec .auth .commit
      pure (some ⟨user.1, session⟩)

def disableMfa (userId sessionId : Uuid) (password : String) (code : Code) (opens : NewSession) : Program LoginResult := do
  let row ← confirmedMfa userId true
  let observedAt ← exec .auth .dbNow
  requireMfaUnlocked row observedAt
  let _ ← verifyCurrentPassword P userId password
  let spent ← spendCode P settings row userId observedAt code
  flushMfa row (disableChange spent)
  exec .auth (.burnRecoveryCodes userId)
  rotateSessions P userId sessionId opens

def regenerateRecoveryCodes (userId : Uuid) (password : String) (codes : RecoveryCodes) : Program Unit := do
  let _ ← verifyCurrentPassword P userId password
  let _ ← confirmedMfa userId
  replaceRecoveryCodes P userId codes

def mfaStatus (userId : Uuid) : Program (Bool × Option Nat) := do
  let row ← exec .auth (.mfaFor userId)
  if row.any fun row => row.confirmedAt.isSome then do
    let remaining ← exec .auth (.unusedRecoveryCodeCount userId)
    pure (true, some remaining)
  else pure (false, none)

end Service

/-! ### The router -/

def authStatus : Auth.Refusal → Nat
  | .invalidCredentials | .notAuthenticated | .mfaRequired | .sessionRevoked => 401
  | .wrongCurrentPassword | .mfaEnrollmentRequired | .mfaStepupRequired => 403
  | .mfaAlreadyEnrolled | .mfaNotEnrolled => 409
  | .accountLocked | .mfaLocked => 429
  | .uniqueViolation | .internalError | .uncounted _ => 500

def registrationStatus : RegistrationRefusal → Nat
  | .consent .. => 422
  | .emailTaken => 409
  | .masterKeyUnavailable | .integrity => 500

def answered {α : Type} (x : Program α) : Program α :=
  tryCatch x fun
    | .auth r => throw (.http (authStatus r))
    | .registration r => throw (.http (registrationStatus r))
    | .invalidMfaCode => throw (.http 403)
    | e => throw e

section Router
variable (P : Primitives) (settings : Auth.Settings)

/-- A route behind the cookie. -/
def behindCookie (token : String) (allowPending : Bool) (handler : AuthenticatedSession → Program Unit) : Program Unit :=
  unitOfWork .auth do
    let current ← resolveSession P settings token allowPending
    handler current

/-- What `_session_info` reads. -/
def sessionInfo (result : LoginResult) : Program Unit := do
  let _ ← mfaStatus result.user.id
  pure ()

/-- The routes of the auth domain, with what each request brings and draws. -/
inductive AuthRoute where
  | register (x : Registration P)
  | login (c : LoginCall)
  | readSession
  | logout
  | changePassword (currentPassword newPassword : String) (salt nonce : Bytes) (opens : NewSession) (now : Time)
  | enrollMfa (password : String) (secret nonce : Bytes)
  | confirmMfa (code : String) (codes : RecoveryCodes)
  | verifyMfa (code : Code) (opens : NewSession)
  | regenerateRecoveryCodes (password : String) (codes : RecoveryCodes)
  | disableMfa (password : String) (code : Code) (opens : NewSession)

/-- The route behind its rate limit; `token` is that of the cookie. -/
def AuthRoute.run (token : String) (allowed : Bool) : AuthRoute P → Program Unit
  | .register x => do
    rateLimited allowed
    unitOfWork .auth (answered (Api.register P x))
  | .login c => do
    rateLimited allowed
    unitOfWork .auth do
      let result ← answered (Api.login P settings c)
      exec .auth (.setUserContext result.user.id)
      sessionInfo result
  | .readSession => behindCookie P settings token true fun current => do
    let result ← sessionSnapshot current.userId current.sessionId
    sessionInfo result
  | .logout => behindCookie P settings token true fun current => Api.logout current.sessionId
  | .changePassword currentPassword newPassword salt nonce opens now => behindCookie P settings token false fun current => do
    let _ ← answered (Api.changePassword P current.userId current.sessionId currentPassword newPassword salt nonce opens now)
    pure ()
  | .enrollMfa password secret nonce => behindCookie P settings token false fun current =>
    answered (Api.enrollMfa P current.userId password secret nonce)
  | .confirmMfa code codes => do
    rateLimited allowed
    behindCookie P settings token false fun current =>
      answered (Api.confirmMfa P settings current.userId current.sessionId code codes)
  | .verifyMfa code opens => do
    rateLimited allowed
    behindCookie P settings token true fun current => do
      let pending := current.mfaEnrolled && current.mfaVerifiedAt.isNone
      let result ← answered (Api.verifyMfa P settings current.userId current.sessionId pending code opens)
      exec .auth (.setUserContext current.userId)
      match result with
      | some result => sessionInfo result
      | none => do
        let result ← sessionSnapshot current.userId current.sessionId
        sessionInfo result
  | .regenerateRecoveryCodes password codes => behindCookie P settings token false fun current => do
    requireCurrentMfaAssurance settings current
    answered (Api.regenerateRecoveryCodes P current.userId password codes)
  | .disableMfa password code opens => do
    rateLimited allowed
    behindCookie P settings token false fun current => do
      requireCurrentMfaAssurance settings current
      let _ ← answered (Api.disableMfa P settings current.userId current.sessionId password code opens)
      pure ()

end Router

/-! ### What is in force -/

section Contexts
variable {s : State} {who : Caller} {P : Primitives} {settings : Auth.Settings} {userId sessionId : Uuid}

theorem still_flushCredential {row : UserCredential} {change : CredentialChange} (h : InForce who .auth s) :
    Still s (flushCredential row change) := by
  unfold flushCredential
  split
  · exact .pure rfl
  · exact h.still rfl

theorem still_flushMfa {row : UserMfa} {change : MfaChange} (h : InForce who .auth s) : Still s (flushMfa row change) := by
  unfold flushMfa
  split
  · exact .pure rfl
  · exact h.still rfl

theorem still_unwrapUserKek (h : InForce who .auth s) : Still s (unwrapUserKek P userId) := by
  refine h.ask rfl fun envelope => ?_
  cases envelope with
  | none => exact .throw trivial
  | some envelope =>
    dsimp only
    split
    · exact .throw trivial
    · exact .pure rfl

theorem still_verifyCurrentPassword {password : String} (h : InForce who .auth s) :
    Still s (verifyCurrentPassword P userId password) := by
  refine h.ask rfl fun credential => ?_
  cases credential with
  | none => exact .throw trivial
  | some credential =>
    refine (still_unwrapUserKek h).bind fun kek => ?_
    split
    · exact .throw trivial
    · exact .throw trivial
    · exact .pure rfl

theorem still_requireConfirmed {row : Option UserMfa} : Still s (requireConfirmed row) := by
  unfold requireConfirmed
  split
  · exact .throw trivial
  · split
    · exact .throw trivial
    · exact .pure rfl

theorem still_confirmedMfa {forUpdate : Bool} (h : InForce who .auth s) : Still s (confirmedMfa userId forUpdate) := by
  unfold confirmedMfa
  split
  · exact h.ask rfl fun _ => still_requireConfirmed
  · exact h.ask rfl fun _ => still_requireConfirmed

theorem still_requireMfaUnlocked {row : UserMfa} {observedAt : Time} : Still s (requireMfaUnlocked row observedAt) := by
  unfold requireMfaUnlocked
  split
  · exact .throw trivial
  · exact .pure rfl

/-- The refusal commits, and nothing is asked after it. -/
theorem still_refuseCode {α : Type} {row : UserMfa} {observedAt : Time} (h : InForce who .auth s) :
    Still s (refuseCode settings row observedAt : Program α) := by
  unfold refuseCode
  split
  · exact .throw trivial
  · exact (still_flushMfa h).bind fun _ => h.known.ask rfl rfl fun _ _ _ => .throw trivial

theorem still_decryptSeed {ciphertext : Bytes} (h : InForce who .auth s) : Still s (decryptSeed P userId ciphertext) := by
  refine (still_unwrapUserKek h).bind fun kek => ?_
  split
  · exact .throw trivial
  · exact .pure rfl

theorem still_spendCode {row : UserMfa} {observedAt : Time} {code : Code} (h : InForce who .auth s) :
    Still s (spendCode P settings row userId observedAt code) := by
  unfold spendCode
  split
  · exact .throw trivial
  · refine (still_decryptSeed h).bind fun secret => ?_
    split
    · exact still_refuseCode h
    · split
      · exact still_refuseCode h
      · exact .pure rfl
  · refine h.ask rfl fun spent => ?_
    split
    · exact still_refuseCode h
    · exact h.ask rfl fun _ => .pure rfl

theorem runs_commit {α : Type} {a : α} (h : InForce who .auth s) :
    Runs s (do exec .auth .commit; pure a) (fun _ => Known who) fun _ _ => True :=
  h.known.ask rfl rfl fun _ _ hk => .pure hk

theorem runs_rotateSessions {opens : NewSession} (h : InForce who .auth s) :
    Runs s (rotateSessions P userId sessionId opens) (fun _ => Known who) fun _ _ => True := by
  refine h.ask rfl fun _ => h.ask rfl fun _ => h.ask rfl fun user => ?_
  cases user with
  | none => exact .throw trivial
  | some user => exact h.ask rfl fun session => runs_commit h

theorem safe_register {x : Registration P} (h : Known (.registrant x.organizationId x.userId) s) : Safe s (register P x) := by
  refine h.ask rfl rfl fun active s h => ?_
  dsimp only
  split
  · exact .throw trivial
  refine h.inOrg rfl fun s h => ?_
  split
  · exact .throw trivial
  refine h.ask rfl fun _ => Leads.bind (Leads.tryCatch (C := fun _ _ => True) (h.still rfl) fun e _ _ => ?_) fun _ _ hs => ?_
  · split
    · exact .throw trivial
    · exact .throw trivial
  · subst hs
    exact h.ask rfl fun _ => h.ask rfl fun _ => safe_exec rfl

theorem still_refreshCredential {c : LoginCall} {kek stored : Bytes} {credential : Option UserCredential}
    (h : InForce who .auth s) : Still s (refreshCredential P c kek stored credential) := by
  cases credential with
  | none => exact .pure rfl
  | some credential => exact still_flushCredential h

theorem safe_recordFailure {observedAt : Time} (h : InForce who .auth s) : Safe s (recordFailure settings userId observedAt) := by
  refine h.ask rfl fun credential => ?_
  cases credential with
  | none => exact .pure trivial
  | some credential => exact (still_flushCredential h).bind fun _ => safe_exec rfl

/-- The caller of a login is the account that the lookup answers. -/
theorem runs_login {c : LoginCall} :
    Runs s (login P settings c) (fun result => Known (.account result.user.id)) fun _ _ => True := by
  refine Leads.bind (M := fun row s' => ∀ x ∈ row, Known (.account x.userId) s')
    (runs_exec rfl (fun r => ?_) fun _ => trivial) fun row s hrow => ?_
  · rintro x rfl
    rfl
  cases row with
  | none => exact .throw trivial
  | some row =>
    have hknown := hrow row rfl
    dsimp only
    split
    · exact .throw trivial
    split
    · exact .throw trivial
    refine hknown.asUser rfl fun s h => (still_unwrapUserKek h).bind fun kek => ?_
    split
    · exact .throw trivial
    split
    · exact .throw trivial
    · exact Leads.bind (safe_recordFailure h) fun _ _ _ => .throw trivial
    · refine h.ask rfl fun credential => (still_refreshCredential h).bind fun _ => h.ask rfl fun user => ?_
      cases user with
      | none => exact .throw trivial
      | some user =>
        refine h.ask rfl fun session => h.known.ask rfl rfl fun _ s hk => .pure ?_
        rwa [user.2]

theorem still_mfaStatus (h : InForce who .auth s) : Still s (mfaStatus userId) := by
  refine h.ask rfl fun row => ?_
  split
  · exact h.ask rfl fun _ => .pure rfl
  · exact .pure rfl

theorem safe_sessionInfo {result : LoginResult} (h : InForce who .auth s) : Safe s (sessionInfo result) :=
  (still_mfaStatus h).bind fun _ => .pure trivial

theorem still_sessionSnapshot (h : InForce who .auth s) : Still s (sessionSnapshot userId sessionId) := by
  refine h.ask rfl fun user => h.ask rfl fun session => ?_
  split
  · exact .pure rfl
  · exact .throw trivial

theorem still_storeSeed {ciphertext : Bytes} {row : Option UserMfa} (h : InForce who .auth s) :
    Still s (storeSeed userId ciphertext row) := by
  cases row with
  | none => exact h.still rfl
  | some row => exact still_flushMfa h

theorem safe_enrollMfa {password : String} {secret nonce : Bytes} (h : InForce who .auth s) :
    Safe s (enrollMfa P userId password secret nonce) := by
  refine (still_verifyCurrentPassword h).bind fun kek => h.ask rfl fun row => ?_
  split
  · exact .throw trivial
  refine (still_storeSeed h).bind fun _ => h.ask rfl fun user => ?_
  cases user with
  | none => exact .throw trivial
  | some user => exact safe_exec rfl

theorem runs_replaceRecoveryCodes {codes : RecoveryCodes} (h : InForce who .auth s) :
    Runs s (replaceRecoveryCodes P userId codes) (fun _ => Known who) fun _ _ => True :=
  h.ask rfl fun _ => h.ask rfl fun _ => (h.known.plain rfl rfl).mono (fun _ _ h => h) fun _ _ _ => trivial

theorem safe_confirmMfa {code : String} {codes : RecoveryCodes} (h : InForce who .auth s) :
    Safe s (confirmMfa P settings userId sessionId code codes) := by
  refine h.ask rfl fun row => ?_
  cases row with
  | none => exact .throw trivial
  | some row =>
    dsimp only
    split
    · exact .throw trivial
    split
    · exact .throw trivial
    refine still_dbNow.bind fun observedAt => still_requireMfaUnlocked.bind fun _ => (still_decryptSeed h).bind fun secret => ?_
    split
    · exact (still_refuseCode h).safe
    refine (still_flushMfa h).bind fun _ => h.ask rfl fun stamped => ?_
    split
    · exact .throw trivial
    · exact h.ask rfl fun _ => (runs_replaceRecoveryCodes h).safe

theorem runs_verifyMfa {pending : Bool} {code : Code} {opens : NewSession} (h : InForce who .auth s) :
    Runs s (verifyMfa P settings userId sessionId pending code opens) (fun _ => Known who) fun _ _ => True := by
  refine (still_confirmedMfa h).bind fun row => still_dbNow.bind fun observedAt => still_requireMfaUnlocked.bind fun _ => ?_
  refine (still_spendCode h).bind fun spent => (still_flushMfa h).bind fun _ => ?_
  split
  · refine h.ask rfl fun stamped => ?_
    split
    · exact .throw trivial
    · exact runs_commit h
  · refine h.ask rfl fun _ => h.ask rfl fun user => ?_
    cases user with
    | none => exact .throw trivial
    | some user => exact h.ask rfl fun session => runs_commit h

theorem safe_disableMfa {password : String} {code : Code} {opens : NewSession} (h : InForce who .auth s) :
    Safe s (disableMfa P settings userId sessionId password code opens) := by
  refine (still_confirmedMfa h).bind fun row => still_dbNow.bind fun observedAt => still_requireMfaUnlocked.bind fun _ => ?_
  refine (still_verifyCurrentPassword h).bind fun _ => (still_spendCode h).bind fun spent => (still_flushMfa h).bind fun _ => ?_
  exact h.ask rfl fun _ => (runs_rotateSessions h).safe

theorem safe_regenerateRecoveryCodes {password : String} {codes : RecoveryCodes} (h : InForce who .auth s) :
    Safe s (regenerateRecoveryCodes P userId password codes) :=
  (still_verifyCurrentPassword h).bind fun _ => (still_confirmedMfa h).bind fun _ => (runs_replaceRecoveryCodes h).safe

theorem safe_changePassword {currentPassword newPassword : String} {salt nonce : Bytes} {opens : NewSession} {now : Time}
    (h : InForce who .auth s) :
    Safe s (changePassword P userId sessionId currentPassword newPassword salt nonce opens now) := by
  refine (still_verifyCurrentPassword h).bind fun kek => h.ask rfl fun credential => ?_
  cases credential with
  | none => exact .throw trivial
  | some credential => exact (still_flushCredential h).bind fun _ => (runs_rotateSessions h).safe

theorem Runs.answered {α : Type} {x : Program α} {post : α → State → Prop} (h : Runs s x post fun _ _ => True) :
    Runs s (answered x) post fun _ _ => True :=
  Leads.tryCatch h fun e s _ => by
    split
    · exact .throw trivial
    · exact .throw trivial
    · exact .throw trivial
    · exact .throw trivial

theorem still_rateLimited {allowed : Bool} : Still s (rateLimited allowed) := by
  unfold rateLimited
  split
  · exact .pure rfl
  · exact .throw trivial

theorem still_requireCurrentMfaAssurance {current : AuthenticatedSession} :
    Still s (requireCurrentMfaAssurance settings current) := by
  unfold requireCurrentMfaAssurance
  split
  · exact .throw trivial
  split
  · exact .pure rfl
  · exact .throw trivial

theorem safe_behindCookie {token : String} {allowPending : Bool} {handler : AuthenticatedSession → Program Unit}
    (h : ∀ current s, InForce (.member current.organizationId current.userId) .auth s → Safe s (handler current)) :
    Safe s (behindCookie P settings token allowPending handler) :=
  Safe.unitOfWork (Leads.bind runs_resolveSession h)

/-- Whom a request stands for before the database has said who it is: a registration draws its ids. -/
def AuthRoute.caller : AuthRoute P → Option Caller
  | .register x => some (.registrant x.organizationId x.userId)
  | _ => none

theorem safe_authRoute {token : String} {allowed : Bool} (route : AuthRoute P) (hs : s.noted = route.caller) :
    Safe s (route.run P settings token allowed) := by
  cases route with
  | register x => exact still_rateLimited.bind fun _ => Safe.unitOfWork (safe_register hs).answered
  | login c =>
    refine still_rateLimited.bind fun _ => Safe.unitOfWork (Leads.bind runs_login.answered fun result s hk => ?_)
    exact hk.asUser rfl fun s h => safe_sessionInfo h
  | readSession => exact safe_behindCookie fun _ _ h => (still_sessionSnapshot h).bind fun _ => safe_sessionInfo h
  | logout => exact safe_behindCookie fun _ _ h => h.ask rfl fun _ => safe_exec rfl
  | changePassword => exact safe_behindCookie fun _ _ h => Leads.bind (safe_changePassword h).answered fun _ _ _ => .pure trivial
  | enrollMfa => exact safe_behindCookie fun _ _ h => (safe_enrollMfa h).answered
  | confirmMfa => exact still_rateLimited.bind fun _ => safe_behindCookie fun _ _ h => (safe_confirmMfa h).answered
  | verifyMfa =>
    refine still_rateLimited.bind fun _ => safe_behindCookie fun current _ h => ?_
    refine Leads.bind (runs_verifyMfa h).answered fun result s hk => hk.asUser rfl fun s h => ?_
    cases result with
    | some result => exact safe_sessionInfo h
    | none => exact (still_sessionSnapshot h).bind fun _ => safe_sessionInfo h
  | regenerateRecoveryCodes =>
    exact safe_behindCookie fun _ _ h => still_requireCurrentMfaAssurance.bind fun _ => (safe_regenerateRecoveryCodes h).answered
  | disableMfa =>
    refine still_rateLimited.bind fun _ => safe_behindCookie fun _ _ h => still_requireCurrentMfaAssurance.bind fun _ => ?_
    exact Leads.bind (safe_disableMfa h).answered fun _ _ _ => .pure trivial

end Contexts

end TestingPlatform.Api
