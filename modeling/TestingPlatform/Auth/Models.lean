import TestingPlatform.Auth.Totp
import TestingPlatform.Lib.Table

/-!
# Accounts, credentials, sessions and factors

The rows of `domains/auth/models.py` with the accounts, organizations and key envelopes they belong to, and the
account-level receipts of `domains/statements/models.py`. An
`UPDATE` that the unit of work flushes sets the columns that differ from what was loaded, so a change is a
record of columns (`CredentialChange`, `MfaChange`).
-/

namespace TestingPlatform.Auth

structure Organization where
  id : Uuid
  name : String
  deriving DecidableEq, Repr

structure AppUser where
  id : Uuid
  organizationId : Uuid
  email : String
  displayName : Option String
  disabledAt : Option Time
  deriving DecidableEq, Repr

/-- The user-scope rows of `key_envelope`. -/
structure KeyEnvelope where
  id : Uuid
  organizationId : Uuid
  userId : Uuid
  wrappedKek : Bytes
  wrappingNonce : Bytes
  deriving DecidableEq, Repr

/-- The organization-scope rows of `key_envelope`. -/
structure OrganizationEnvelope where
  organizationId : Uuid
  wrappedKek : Bytes
  wrappingNonce : Bytes
  deriving DecidableEq, Repr

/-- The account-level rows of `statement_response`. -/
structure StatementResponse where
  organizationId : Uuid
  statementId : Uuid
  /-- The user-scope envelope, without a foreign key. -/
  envelopeId : Uuid
  respondedAt : Time
  deriving DecidableEq, Repr

/-- The columns of `uq_statement_response_account_level`. -/
def StatementResponse.key (r : StatementResponse) : Uuid × Uuid := (r.statementId, r.envelopeId)

structure UserCredential where
  userId : Uuid
  passwordCiphertext : Bytes
  failedLoginCount : Nat := 0
  lockedUntil : Option Time := none
  passwordUpdatedAt : Time
  deriving DecidableEq, Repr

structure UserSession where
  id : Uuid
  userId : Uuid
  tokenHash : Bytes
  createdAt : Time
  lastSeenAt : Time
  revokedAt : Option Time := none
  mfaVerifiedAt : Option Time := none
  deriving DecidableEq, Repr

structure UserMfa where
  userId : Uuid
  totpSecretCiphertext : Option Bytes
  confirmedAt : Option Time := none
  lastUsedStep : Option Int := none
  failedCount : Nat := 0
  lockoutCount : Nat := 0
  lockedUntil : Option Time := none
  deriving DecidableEq, Repr

structure MfaRecoveryCode where
  userId : Uuid
  codeHash : Bytes
  usedAt : Option Time := none
  supersededAt : Option Time := none
  deriving DecidableEq, Repr

namespace MfaRecoveryCode

/-- The columns of the unique constraint. -/
def key (c : MfaRecoveryCode) : Uuid × Bytes := (c.userId, c.codeHash)

/-- Neither used nor superseded. -/
def live (c : MfaRecoveryCode) : Bool := c.usedAt = none ∧ c.supersededAt = none

def use (c : MfaRecoveryCode) (now : Time) : MfaRecoveryCode := if c.live then { c with usedAt := some now } else c

def supersede (c : MfaRecoveryCode) (now : Time) : MfaRecoveryCode :=
  if c.live then { c with supersededAt := some now } else c

@[simp] theorem key_use (c : MfaRecoveryCode) (now : Time) : (c.use now).key = c.key := by
  unfold use; split <;> rfl

@[simp] theorem key_supersede (c : MfaRecoveryCode) (now : Time) : (c.supersede now).key = c.key := by
  unfold supersede; split <;> rfl

end MfaRecoveryCode

namespace UserSession

/-- `revoked_at` is unset; the timeouts are the business of the bootstrap. -/
def live (s : UserSession) : Bool := s.revokedAt = none

def touch (s : UserSession) (now : Time) : UserSession := { s with lastSeenAt := now }

def revoke (s : UserSession) (now : Time) : UserSession := if s.live then { s with revokedAt := some now } else s

def stamp (s : UserSession) (now : Time) : UserSession := if s.live then { s with mfaVerifiedAt := some now } else s

@[simp] theorem id_touch (s : UserSession) (now : Time) : (s.touch now).id = s.id := rfl

@[simp] theorem id_revoke (s : UserSession) (now : Time) : (s.revoke now).id = s.id := by
  unfold revoke; split <;> rfl

@[simp] theorem id_stamp (s : UserSession) (now : Time) : (s.stamp now).id = s.id := by
  unfold stamp; split <;> rfl

end UserSession

/-! ### Column changes -/

/-- The columns an `UPDATE user_credential` sets. -/
structure CredentialChange where
  passwordCiphertext : Option Bytes := none
  failedLoginCount : Option Nat := none
  lockedUntil : Option (Option Time) := none
  passwordUpdatedAt : Option Time := none
  deriving DecidableEq

/-- The columns an `UPDATE user_mfa` sets. -/
structure MfaChange where
  totpSecretCiphertext : Option (Option Bytes) := none
  confirmedAt : Option (Option Time) := none
  lastUsedStep : Option (Option Int) := none
  failedCount : Option Nat := none
  lockoutCount : Option Nat := none
  lockedUntil : Option (Option Time) := none
  deriving DecidableEq

/-- An assigned column is written where its value differs from the loaded one. -/
def net {α : Type} [DecidableEq α] (loaded : α) (assigned : Option α) : Option α := assigned.filter fun x => x ≠ loaded

theorem getD_net {α : Type} [DecidableEq α] (loaded : α) (assigned : Option α) :
    (net loaded assigned).getD loaded = assigned.getD loaded := by
  cases assigned with
  | none => rfl
  | some x =>
    by_cases hx : x = loaded
    · simp [net, Option.filter, hx]
    · simp [net, Option.filter, hx]

namespace UserCredential

def set (r : UserCredential) (c : CredentialChange) : UserCredential where
  userId := r.userId
  passwordCiphertext := c.passwordCiphertext.getD r.passwordCiphertext
  failedLoginCount := c.failedLoginCount.getD r.failedLoginCount
  lockedUntil := c.lockedUntil.getD r.lockedUntil
  passwordUpdatedAt := c.passwordUpdatedAt.getD r.passwordUpdatedAt

@[simp] theorem userId_set (r : UserCredential) (c : CredentialChange) : (r.set c).userId = r.userId := rfl

/-- What a flush of the assigned columns sends; `now()` is a database expression and always sent. -/
def flush (loaded : UserCredential) (c : CredentialChange) : CredentialChange where
  passwordCiphertext := net loaded.passwordCiphertext c.passwordCiphertext
  failedLoginCount := net loaded.failedLoginCount c.failedLoginCount
  lockedUntil := net loaded.lockedUntil c.lockedUntil
  passwordUpdatedAt := c.passwordUpdatedAt

end UserCredential

namespace UserMfa

def set (r : UserMfa) (c : MfaChange) : UserMfa where
  userId := r.userId
  totpSecretCiphertext := c.totpSecretCiphertext.getD r.totpSecretCiphertext
  confirmedAt := c.confirmedAt.getD r.confirmedAt
  lastUsedStep := c.lastUsedStep.getD r.lastUsedStep
  failedCount := c.failedCount.getD r.failedCount
  lockoutCount := c.lockoutCount.getD r.lockoutCount
  lockedUntil := c.lockedUntil.getD r.lockedUntil

@[simp] theorem userId_set (r : UserMfa) (c : MfaChange) : (r.set c).userId = r.userId := rfl

def flush (loaded : UserMfa) (c : MfaChange) : MfaChange where
  totpSecretCiphertext := net loaded.totpSecretCiphertext c.totpSecretCiphertext
  confirmedAt := net loaded.confirmedAt c.confirmedAt
  lastUsedStep := net loaded.lastUsedStep c.lastUsedStep
  failedCount := net loaded.failedCount c.failedCount
  lockoutCount := net loaded.lockoutCount c.lockoutCount
  lockedUntil := net loaded.lockedUntil c.lockedUntil

@[simp] theorem set_flush (r : UserMfa) (c : MfaChange) : r.set (r.flush c) = r.set c := by
  simp only [set, flush, getD_net]

end UserMfa

/-! ### The database -/

structure Db where
  organizations : Table Organization.id := .empty
  users : Table AppUser.id
  organizationEnvelopes : Table OrganizationEnvelope.organizationId := .empty
  envelopes : Table KeyEnvelope.userId
  receipts : Table StatementResponse.key := .empty
  credentials : Table UserCredential.userId
  sessions : Table UserSession.id
  mfa : Table UserMfa.userId
  codes : Table MfaRecoveryCode.key

/-- Row locks; a row that is still to be inserted is locked through its unique keys. -/
inductive Lock where
  | credential (userId : Uuid)
  | session (id : Uuid)
  | sessionToken (tokenHash : Bytes)
  | mfa (userId : Uuid)
  | recoveryCode (userId : Uuid) (codeHash : Bytes)
  deriving DecidableEq, Repr

/-- What a commit makes visible. -/
inductive Write where
  | credential (userId : Uuid) (c : CredentialChange)
  /-- `_SESSION_TOUCH`. -/
  | touch (sessionId : Uuid) (now : Time)
  | revokeSession (sessionId : Uuid) (now : Time)
  | stampSession (sessionId : Uuid) (now : Time)
  | insertSession (row : UserSession)
  | mfa (userId : Uuid) (c : MfaChange)
  | insertMfa (row : UserMfa)
  | useCode (userId : Uuid) (codeHash : Bytes) (now : Time)
  | supersedeCode (userId : Uuid) (codeHash : Bytes) (now : Time)
  | insertCode (row : MfaRecoveryCode)
  deriving DecidableEq

def Db.write (d : Db) : Write → Db
  | .credential userId c => { d with credentials := d.credentials.modify userId (·.set c) (·.userId_set c) }
  | .touch sessionId now => { d with sessions := d.sessions.modify sessionId (·.touch now) (·.id_touch now) }
  | .revokeSession sessionId now => { d with sessions := d.sessions.modify sessionId (·.revoke now) (·.id_revoke now) }
  | .stampSession sessionId now => { d with sessions := d.sessions.modify sessionId (·.stamp now) (·.id_stamp now) }
  | .insertSession row => { d with sessions := d.sessions.insert row }
  | .mfa userId c => { d with mfa := d.mfa.modify userId (·.set c) (·.userId_set c) }
  | .insertMfa row => { d with mfa := d.mfa.insert row }
  | .useCode userId codeHash now => { d with codes := d.codes.modify (userId, codeHash) (·.use now) (·.key_use now) }
  | .supersedeCode userId codeHash now =>
    { d with codes := d.codes.modify (userId, codeHash) (·.supersede now) (·.key_supersede now) }
  | .insertCode row => { d with codes := d.codes.insert row }

/-- The rows that the write needs locked. -/
def Write.touches : Write → Lock → Prop
  | .credential userId _, k => k = .credential userId
  | .touch id _, k | .revokeSession id _, k | .stampSession id _, k => k = .session id
  | .insertSession row, k => k = .session row.id ∨ k = .sessionToken row.tokenHash
  | .mfa userId _, k => k = .mfa userId
  | .insertMfa row, k => k = .mfa row.userId
  | .useCode userId h _, k | .supersedeCode userId h _, k => k = .recoveryCode userId h
  | .insertCode row, k => k = .recoveryCode row.userId row.codeHash

/-- A locked row stands. -/
def Lock.agree : Lock → Db → Db → Prop
  | .credential userId, d, d' => d'.credentials.find userId = d.credentials.find userId
  | .session id, d, d' => d'.sessions.find id = d.sessions.find id
  | .sessionToken _, _, _ => True
  | .mfa userId, d, d' => d'.mfa.find userId = d.mfa.find userId
  | .recoveryCode userId h, d, d' => d'.codes.find (userId, h) = d.codes.find (userId, h)

theorem agree_write {u : Write} {k : Lock} (d : Db) (h : ¬ u.touches k) : k.agree d (d.write u) := by
  cases k with
  | sessionToken => trivial
  | credential userId =>
    cases u with
    | credential userId' =>
      have hne : userId ≠ userId' := fun he => h (by rw [he]; rfl)
      rw [Lock.agree, Db.write, Table.find_modify_of_ne hne]
    | _ => rfl
  | session id =>
    cases u with
    | touch id' | revokeSession id' | stampSession id' =>
      have hne : id ≠ id' := fun he => h (by rw [he]; rfl)
      rw [Lock.agree, Db.write, Table.find_modify_of_ne hne]
    | insertSession row => exact Table.find_insert_of_ne fun he => h (.inl (by rw [he]))
    | _ => rfl
  | mfa userId =>
    cases u with
    | mfa userId' =>
      have hne : userId ≠ userId' := fun he => h (by rw [he]; rfl)
      rw [Lock.agree, Db.write, Table.find_modify_of_ne hne]
    | insertMfa row => exact Table.find_insert_of_ne fun he => h (by rw [← he]; rfl)
    | _ => rfl
  | recoveryCode userId hash =>
    have hne : ∀ {userId' hash'}, Lock.recoveryCode userId hash ≠ .recoveryCode userId' hash' →
        ((userId, hash) : Uuid × Bytes) ≠ (userId', hash') := fun hl he => hl (by cases he; rfl)
    cases u with
    | useCode | supersedeCode => rw [Lock.agree, Db.write, Table.find_modify_of_ne (hne h)]
    | insertCode row => exact Table.find_insert_of_ne (Ne.symm (hne h))
    | _ => rfl

end TestingPlatform.Auth
