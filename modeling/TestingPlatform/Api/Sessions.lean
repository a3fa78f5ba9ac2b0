import TestingPlatform.Lib.Dialogue
import TestingPlatform.Assets.Service
import TestingPlatform.Auth.Registration
import TestingPlatform.Rls.Isolation

/-!
# What a request says to the database

`core/api_db.py` keeps two pools of connections, one for each role, and a session takes a connection at the first
statement of a transaction and gives it back at its end. The statements are those of the repositories and of
`core/security.py`, the calls of `core/rls.py` and those of the unit of work; every one may raise. Whatever the database
answers, the caller of a request is who the database said it is (`Caller.note`). A statement is in order when its role has
the privileges it needs, and on a tenant table when the transaction asserts this caller (`watch`).
-/

namespace TestingPlatform.Api

open Dialogue Assets Auth

inductive Engine where
  /-- The role `nc3_app`. -/
  | app
  /-- The role `nc3_auth`. -/
  | auth
  deriving DecidableEq, Repr

instance : Fintype Engine := ⟨{.app, .auth}, fun e => by cases e <;> simp⟩

/-! ### Privileges -/

/-- The tables of the requests, and the definer functions. -/
inductive DbObject where
  | organization | appUser | keyEnvelope | statement | statementResponse
  | asset | domainVerification | domainVerificationChallenge
  | userCredential | userSession | userMfa | mfaRecoveryCode
  | authSessionBootstrap | authLoginLookup
  deriving DecidableEq, Repr

inductive Privilege where
  | select | insert | update | delete | execute
  deriving DecidableEq, Repr

/-- The table has a policy `tenant_rows`. -/
def DbObject.tenant : DbObject → Bool
  | .statement | .authSessionBootstrap | .authLoginLookup => false
  | _ => true

/-- The grants of the migrations. `nc3_app` was given all tables before those of the credentials were created. -/
def Engine.grants : Engine → DbObject → List Privilege
  | .app, .statementResponse => [.select, .insert]
  | .app, .organization | .app, .appUser | .app, .keyEnvelope | .app, .statement | .app, .asset | .app, .domainVerification
  | .app, .domainVerificationChallenge => [.select, .insert, .update, .delete]
  | .auth, .userCredential | .auth, .userSession | .auth, .userMfa | .auth, .mfaRecoveryCode => [.select, .insert, .update]
  | .auth, .organization | .auth, .appUser | .auth, .keyEnvelope | .auth, .statementResponse => [.select, .insert]
  | .auth, .statement => [.select]
  | .auth, .authSessionBootstrap | .auth, .authLoginLookup => [.execute]
  | _, _ => []

/-- What a statement raises. -/
inductive DbError where
  /-- `uq_domain_verification_value`. -/
  | claimConflict
  /-- `uq_app_user_email_lower`. -/
  | emailConflict
  | other
  deriving DecidableEq, Repr

/-! ### Statements -/

inductive OrganizationRole where
  | member | organizationAdmin
  deriving DecidableEq, Repr

/-- The row of `auth_session_bootstrap`. -/
structure SessionRow where
  sessionId : Uuid
  userId : Uuid
  organizationId : Uuid
  sessionCreatedAt : Time
  lastSeenAt : Time
  revokedAt : Option Time
  userDisabledAt : Option Time
  observedAt : Time

/-- The row of `auth_login_lookup`. -/
structure LoginRow where
  userId : Uuid
  disabledAt : Option Time
  passwordCiphertext : Bytes
  lockedUntil : Option Time
  observedAt : Time

/-- The row of `_MFA_STATE`. -/
structure MfaState where
  mfaVerifiedAt : Option Time
  mfaEnrolled : Bool
  organizationRole : OrganizationRole

inductive Statement where
  -- `core/rls.py`
  | setOrgContext (orgId : Uuid) (userId : Option Uuid)
  | setUserContext (userId : Uuid)
  -- The unit of work.
  | commit
  | rollback
  | close
  | savepoint
  | releaseSavepoint
  | rollbackToSavepoint
  -- Without a policy: the clock, the definer functions and the published statements.
  | dbNow
  | sessionBootstrap (tokenHash : Bytes)
  | loginLookup (email : String)
  | activeAcceptanceStatements
  -- `core/security.py`
  | mfaState (userId sessionId : Uuid)
  | sessionTouch (sessionId : Uuid)
  -- `domains/assets/repository.py` and `domains/org/service.py`
  | assetFor (assetId : Uuid)
  | challengeFor (assetId : Uuid)
  | proofFor (assetId : Uuid)
  | upsertChallenge (assetId organizationId : Uuid) (requestedScope : VerificationScope) (recordName token : String) (ttl : Time)
      (requestedByUserId : Option Uuid)
  | challengeCredentialsFor (assetId : Uuid)
  | upsertProof (assetId organizationId : Uuid) (value : String) (verifiedScope : VerificationScope)
      (verifiedByUserId : Option Uuid) (verdict : CheckVerdict)
  | stampCheck (assetId : Uuid) (code : Option VerificationFailureCode)
  | nameOrganizationIfUnnamed (organizationId : Uuid) (value : String)
  /-- The load of attributes that a stamp has expired. -/
  | refreshChallenge (assetId : Uuid)
  -- `domains/auth/repository.py`
  | userEnvelope (userId : Uuid)
  | credentialFor (userId : Uuid)
  | userById (userId : Uuid)
  | sessionById (sessionId : Uuid)
  | revokeSession (sessionId : Uuid)
  | revokeOtherSessions (userId keepSessionId : Uuid)
  | mfaFor (userId : Uuid)
  | mfaForUpdate (userId : Uuid)
  | unusedRecoveryCodeCount (userId : Uuid)
  | insertRecoveryCodes (userId : Uuid) (codeHashes : List Bytes)
  | burnRecoveryCodes (userId : Uuid)
  | consumeRecoveryCode (userId : Uuid) (codeHash : Bytes)
  | stampSessionAssurance (sessionId : Uuid)
  -- The flushes of `domains/auth/service.py`.
  | flushOrganization (orgId : Uuid)
  | flushUser (orgId userId : Uuid) (email : String)
  | flushKeys (orgId userId : Uuid)
  | flushReceipts (orgId : Uuid) (statementIds : List Uuid)
  | flushCredential (userId : Uuid) (change : CredentialChange)
  | flushMfa (userId : Uuid) (change : MfaChange)
  | insertMfa (userId : Uuid) (ciphertext : Bytes)
  | openSession (userId : Uuid) (tokenHash : Bytes) (assuredAt : Option Time)

namespace Statement

/-- What comes back, unless the statement raises. -/
abbrev Reply : Statement → Type
  | dbNow => Time
  | sessionBootstrap _ => Option SessionRow
  | loginLookup _ => Option LoginRow
  | activeAcceptanceStatements => List Auth.Statement
  | mfaState .. => MfaState
  | assetFor _ => Option Asset
  | challengeFor _ => Option Challenge
  | proofFor _ => Option DomainVerification
  | upsertChallenge .. | refreshChallenge _ => Challenge
  | challengeCredentialsFor _ => Option (String × Time)
  | upsertProof .. => DomainVerification
  | stampCheck .. => Nat
  | nameOrganizationIfUnnamed .. => Bool
  | userEnvelope _ => Option KeyEnvelope
  | credentialFor _ => Option UserCredential
  | userById userId => Option { user : AppUser // user.id = userId }
  | sessionById _ => Option UserSession
  | mfaFor _ | mfaForUpdate _ => Option UserMfa
  | unusedRecoveryCodeCount _ => Nat
  | consumeRecoveryCode .. | stampSessionAssurance _ => Bool
  | openSession .. => UserSession
  | _ => Unit

/-- The privileges that a statement needs; one that returns a row it has written needs to read it. -/
def accesses : Statement → List (DbObject × Privilege)
  | setOrgContext .. | setUserContext _ | commit | rollback | close | savepoint | releaseSavepoint | rollbackToSavepoint
  | dbNow => []
  | sessionBootstrap _ => [(.authSessionBootstrap, .execute)]
  | loginLookup _ => [(.authLoginLookup, .execute)]
  | activeAcceptanceStatements => [(.statement, .select)]
  | mfaState .. => [(.userSession, .select), (.userMfa, .select), (.appUser, .select)]
  | sessionTouch _ => [(.userSession, .select), (.userSession, .update)]
  | assetFor _ => [(.asset, .select)]
  | challengeFor _ | challengeCredentialsFor _ | refreshChallenge _ => [(.domainVerificationChallenge, .select)]
  | proofFor _ => [(.domainVerification, .select)]
  | upsertChallenge .. =>
    [(.domainVerificationChallenge, .select), (.domainVerificationChallenge, .insert), (.domainVerificationChallenge, .update)]
  | upsertProof .. => [(.domainVerification, .select), (.domainVerification, .insert), (.domainVerification, .update)]
  | stampCheck .. => [(.domainVerificationChallenge, .select), (.domainVerificationChallenge, .update)]
  | nameOrganizationIfUnnamed .. => [(.organization, .select), (.organization, .update)]
  | userEnvelope _ => [(.keyEnvelope, .select)]
  | credentialFor _ => [(.userCredential, .select)]
  | userById _ => [(.appUser, .select)]
  | sessionById _ => [(.userSession, .select)]
  | revokeSession _ | revokeOtherSessions .. | stampSessionAssurance _ => [(.userSession, .select), (.userSession, .update)]
  | mfaFor _ => [(.userMfa, .select)]
  | mfaForUpdate _ => [(.userMfa, .select), (.userMfa, .update)]
  | unusedRecoveryCodeCount _ => [(.mfaRecoveryCode, .select)]
  | insertRecoveryCodes .. => [(.mfaRecoveryCode, .select), (.mfaRecoveryCode, .insert)]
  | burnRecoveryCodes _ | consumeRecoveryCode .. => [(.mfaRecoveryCode, .select), (.mfaRecoveryCode, .update)]
  | flushOrganization _ => [(.organization, .select), (.organization, .insert)]
  | flushUser .. => [(.appUser, .select), (.appUser, .insert)]
  | flushKeys .. =>
    [(.keyEnvelope, .select), (.keyEnvelope, .insert), (.userCredential, .select), (.userCredential, .insert)]
  | flushReceipts .. => [(.statementResponse, .select), (.statementResponse, .insert)]
  | flushCredential .. => [(.userCredential, .select), (.userCredential, .update)]
  | flushMfa .. => [(.userMfa, .select), (.userMfa, .update)]
  | insertMfa .. => [(.userMfa, .select), (.userMfa, .insert)]
  | openSession .. => [(.userSession, .select), (.userSession, .insert)]

/-- The statement reads or writes a table with a tenant policy. -/
def tenant (st : Statement) : Bool := st.accesses.any fun a => a.1.tenant

/-- The role has the privileges that the statement needs. -/
def granted (st : Statement) (engine : Engine) : Bool := st.accesses.all fun a => decide (a.2 ∈ engine.grants a.1)

/-- With the privileges it needs, on a tenant table. -/
def policed (st : Statement) (engine : Engine) : Bool := st.tenant && st.granted engine

/-- With the privileges it needs, on no tenant table. -/
def free (st : Statement) (engine : Engine) : Bool := !st.tenant && st.granted engine

/-- The statement looks up a session token or an address. -/
def identifies : Statement → Bool
  | sessionBootstrap _ | loginLookup _ => true
  | _ => false

/-- The statement ends a transaction, and with it the use of the connection. -/
def ends : Statement → Bool
  | commit | rollback | close => true
  | _ => false

end Statement

structure Question where
  engine : Engine
  statement : Statement

abbrev Answer (q : Question) : Type := Except DbError q.statement.Reply

/-! ### Connections -/

/-- A connection of a pool: its parameters, and what they were at the open savepoints. -/
structure Connection where
  session : Rls.Session := {}
  savepoints : List Rls.Session := []

/-- What policies see of a connection. -/
structure Context where
  gucs : Rls.Gucs := {}
  savepoints : List Rls.Gucs := []

/-- A statement that raises changes no parameter; a transaction ends all the same. -/
def Connection.after (c : Connection) (t : Turn Question Answer) : Connection :=
  match t.question.statement, t.answer.toBool with
  | .setOrgContext orgId userId, true => { c with session := c.session.setOrgContext orgId userId }
  | .setUserContext userId, true => { c with session := c.session.setUserContext userId }
  | .savepoint, true => { c with savepoints := c.session :: c.savepoints }
  | .releaseSavepoint, true => { c with savepoints := c.savepoints.tail }
  | .rollbackToSavepoint, true => { session := c.savepoints.headD c.session, savepoints := c.savepoints.tail }
  | .commit, _ | .rollback, _ | .close, _ => { session := c.session.endTransaction }
  | _, _ => c

def Context.after (c : Context) (t : Turn Question Answer) : Context :=
  match t.question.statement, t.answer.toBool with
  | .setOrgContext orgId userId, true => { c with gucs := { org := some orgId, user := userId } }
  | .setUserContext userId, true => { c with gucs := { user := some userId } }
  | .savepoint, true => { c with savepoints := c.gucs :: c.savepoints }
  | .releaseSavepoint, true => { c with savepoints := c.savepoints.tail }
  | .rollbackToSavepoint, true => { gucs := c.savepoints.headD c.gucs, savepoints := c.savepoints.tail }
  | .commit, _ | .rollback, _ | .close, _ => {}
  | _, _ => c

def Connection.context (c : Connection) : Context := ⟨c.session.gucs, c.savepoints.map Rls.Session.gucs⟩

theorem Connection.context_after (c : Connection) (t : Turn Question Answer) : (c.after t).context = c.context.after t := by
  unfold after Context.after
  split <;> simp_all [context]

theorem Context.after_of_ends (c : Context) {t : Turn Question Answer} (h : t.question.statement.ends = true) :
    c.after t = {} := by
  unfold Statement.ends at h
  unfold after
  split at h <;> simp_all

/-- No statement but those of the unit of work and of `core/rls.py` changes what the policies see. -/
theorem Context.after_of_tenant (c : Context) {t : Turn Question Answer} (h : t.question.statement.tenant = true) :
    c.after t = c := by
  unfold after
  split <;> simp_all [Statement.tenant, Statement.accesses]

/-- The two pools. -/
def pools : Facility Question Answer Engine Connection Context where
  kind := Question.engine
  after := Connection.after
  ends q := q.statement.ends
  view := Connection.context
  seen := Context.after
  fresh := {}
  view_after := Connection.context_after
  seen_ends c _ h := c.after_of_ends h

/-! ### Callers -/

inductive Caller where
  /-- Of a session that the database knows. -/
  | member (organizationId userId : Uuid)
  /-- Of a login, before there is a session. -/
  | account (userId : Uuid)
  /-- Of a registration, with the ids it draws. -/
  | registrant (organizationId userId : Uuid)
  deriving DecidableEq, Repr

namespace Caller

/-- The identity that is asserted for the caller. -/
def context : Caller → Engine → Option Rls.Gucs
  | .member o u, .app => some { org := some o, user := some u }
  | .member _ u, .auth | .account u, .auth => some { user := some u }
  | .registrant o u, .auth => some { org := some o, user := some u }
  | .account _, .app | .registrant _ _, .app => none

/-- The database has looked up a session token or an address. -/
def note (c : Option Caller) (t : Turn Question Answer) : Option Caller :=
  match t with
  | ⟨⟨_, .sessionBootstrap _⟩, .ok (some row)⟩ => some (.member row.organizationId row.userId)
  | ⟨⟨_, .loginLookup _⟩, .ok (some row)⟩ => some (.account row.userId)
  | _ => c

/-- Only the two lookups say who the caller is. -/
theorem note_of_not_identifies (c : Option Caller) {t : Turn Question Answer} (h : t.question.statement.identifies = false) :
    note c t = c := by
  unfold Statement.identifies at h
  unfold note
  split <;> simp_all

theorem note_of_tenant (c : Option Caller) {t : Turn Question Answer} (h : t.question.statement.tenant = true) :
    note c t = c := by
  refine note_of_not_identifies c ?_
  unfold Statement.identifies
  split <;> simp_all [Statement.tenant, Statement.accesses, DbObject.tenant]

end Caller

/-- A statement runs with the privileges it needs, and on a tenant table under the context of the caller. -/
def watch : Watch Question Answer Context (Option Caller) where
  note := Caller.note
  Allows caller c q := q.statement.granted q.engine = true ∧
    (q.statement.tenant = true → ∃ who, caller = some who ∧ who.context q.engine = some c.gucs)

end TestingPlatform.Api
