import TestingPlatform.Auth.Service

/-!
# What a transaction rests on

A transaction that has decided goes on to its commit without another decision, so what it decided on is an
assertion about its tail: `Decided` has one case for each way to succeed or to count a failure, with the
planned writes, the facts they rest on, and the locks that keep these facts true until the commit. The writes
whose rows only a snapshot tells (revocations, superseded codes) and the session touch are not planned.
-/

namespace TestingPlatform.Auth

open ReadCommitted

/-! ### Plans -/

/-- The writes that a statement will have made. -/
def Stmt.plans (now : Time) : Stmt → List Write
  | .updateCredential userId c => [.credential userId c]
  | .updateMfa userId c => [.mfa userId c]
  | .insertMfa row => [.insertMfa row]
  | .stampSession id => [.stampSession id now]
  | .openSession row => [.insertSession row]
  | .insertCode row => [.insertCode row]
  | .revokeSession _ | .revokeOtherSessions .. | .burnRecoveryCodes _ | .supersedeCode .. => []

def Write.planned : Write → Bool
  | .touch .. | .revokeSession .. | .supersedeCode .. => false
  | _ => true

/-- The planned writes, made or still to be made. -/
def Tail.plan (t : Tail) : List Write :=
  t.writes.filter Write.planned ++ t.todo.flatMap (Stmt.plans t.request.now)

def credentialWrites (userId : Uuid) (c : CredentialChange) : List Write := if c = {} then [] else [.credential userId c]

def mfaWrites (userId : Uuid) (c : MfaChange) : List Write := if c = {} then [] else [.mfa userId c]

def codeWrites (P : Primitives) (userId : Uuid) (codes : RecoveryCodes) : List Write :=
  codes.codes.map fun code => .insertCode ⟨userId, P.hashRecoveryCode code, none, none⟩

@[simp] theorem plans_updateCredential (now : Time) (userId : Uuid) (c : CredentialChange) :
    (updateCredential userId c).flatMap (Stmt.plans now) = credentialWrites userId c := by
  unfold updateCredential credentialWrites
  split <;> rfl

@[simp] theorem plans_updateMfa (now : Time) (userId : Uuid) (c : MfaChange) :
    (updateMfa userId c).flatMap (Stmt.plans now) = mfaWrites userId c := by
  unfold updateMfa mfaWrites
  split <;> rfl

@[simp] theorem plans_insertRecoveryCodes (P : Primitives) (now : Time) (userId : Uuid) (codes : RecoveryCodes) :
    (insertRecoveryCodes P userId codes).flatMap (Stmt.plans now) = codeWrites P userId codes := by
  rw [insertRecoveryCodes, codeWrites, List.flatMap_map, ← List.flatMap_pure_eq_map]
  rfl

section Step
variable {d : Db} {now : Time} {written : List Write} {stmt : Stmt}

/-- A statement that writes locks the row and keeps to its plan. -/
theorem outcome_write {ks : List Lock} {u : Write} (h : stmt.outcome d now written = .write ks u) :
    (∀ k, u.touches k → k ∈ ks) ∧ [u].filter Write.planned = stmt.plans now := by
  cases stmt with
  | updateCredential | updateMfa =>
    cases h
    exact ⟨fun k hk => by cases hk; simp, rfl⟩
  | openSession row =>
    simp only [Stmt.outcome] at h
    split at h <;> cases h
    exact ⟨fun k hk => by rcases hk with rfl | rfl <;> simp, rfl⟩
  | revokeOtherSessions | burnRecoveryCodes => cases h
  | _ =>
    simp only [Stmt.outcome] at h
    split at h <;> cases h
    exact ⟨fun k hk => by cases hk; simp, rfl⟩

theorem outcome_expand {todo : List Stmt} (h : stmt.outcome d now written = .expand todo) :
    todo.flatMap (Stmt.plans now) = stmt.plans now := by
  cases stmt with
  | updateCredential | updateMfa => cases h
  | revokeOtherSessions | burnRecoveryCodes =>
    cases h
    simp only [List.flatMap_map, Stmt.plans]
    exact List.flatMap_eq_nil_iff.2 fun _ _ => rfl
  | revokeSession | supersedeCode =>
    simp only [Stmt.outcome] at h
    split at h <;> cases h
    rfl
  | _ =>
    simp only [Stmt.outcome] at h
    split at h <;> cases h

theorem tail_step {t t' : Tail} (h : (t.step d).next = .tail t') : ∃ stmt rest, t.todo = stmt :: rest ∧
    ((∃ ks u, stmt.outcome d t.request.now t.writes = .write ks u ∧ (t.step d).op = .lock ks ∧
        t' = { t with todo := rest, writes := t.writes ++ [u] }) ∨
      ∃ todo, stmt.outcome d t.request.now t.writes = .expand todo ∧ (t.step d).op = .read ∧
        t' = { t with todo := todo ++ rest }) := by
  unfold Tail.step at h ⊢
  split at h
  · cases h
  next stmt rest htodo =>
    refine ⟨stmt, rest, htodo, ?_⟩
    cases ho : stmt.outcome d t.request.now t.writes with
    | write ks u =>
      rw [ho] at h
      cases h
      exact .inl ⟨ks, u, rfl, rfl, rfl⟩
    | expand todo =>
      rw [ho] at h
      cases h
      exact .inr ⟨todo, rfl, rfl, rfl⟩
    | refuse r =>
      rw [ho] at h
      cases h

theorem plan_step {t t' : Tail} (h : (t.step d).next = .tail t') :
    t'.plan = t.plan ∧ t'.event = t.event ∧ t'.request = t.request := by
  obtain ⟨stmt, rest, htodo, ⟨ks, u, ho, -, rfl⟩ | ⟨todo, ho, -, rfl⟩⟩ := tail_step h
  · refine ⟨?_, rfl, rfl⟩
    simp only [Tail.plan, htodo, List.filter_append, (outcome_write ho).2, List.flatMap_cons, List.append_assoc]
  · refine ⟨?_, rfl, rfl⟩
    simp only [Tail.plan, htodo, List.flatMap_append, outcome_expand ho, List.flatMap_cons]

end Step

/-! ### Decisions -/

/-- The code that a request presents to a confirmed factor. -/
def Operation.code : Operation → Option Code
  | .verifyMfa code _ | .disableMfa _ code _ => some code
  | _ => none

section Assertions
variable (P : Primitives) (s : Settings) (held : Lock → Prop) (d : Db)

/-- The session of the call, and whose it is. -/
def Calls (c : Call) (sessionId userId : Uuid) : Prop :=
  ∃ x, d.sessions.find sessionId = some x ∧ x.userId = userId ∧ x.tokenHash = P.hashSessionToken c.token

/-- The session of the call is locked since its touch. -/
structure Holding (c : Call) (current : AuthenticatedSession) : Prop where
  session_lock : held (.session current.sessionId)
  calls : Calls P d c current.sessionId current.userId

/-- The factor of the caller is locked, as it was read. -/
structure FactorHeld (c : Call) (current : AuthenticatedSession) (row : UserMfa) : Prop extends Holding P held d c current where
  user : row.userId = current.userId
  lock : held (.mfa row.userId)
  stored : d.mfa.find row.userId = some row

/-- The factor may be tried: confirmed and not locked out. -/
structure Trying (c : Call) (current : AuthenticatedSession) (row : UserMfa) : Prop extends FactorHeld P held d c current row where
  confirmed : row.confirmedAt.isSome = true
  unlocked : mfaLocked row c.now = false

/-- What `_spend_code` accepts. -/
inductive Accepts (c : Call) (row : UserMfa) : Code → Spent → Prop
  | totp {code : String} {secret : Bytes} {step : Int} (hseed : seed P d row = some secret)
      (hmatch : P.matchingStep secret code (stepAt c.now) = some step) (hnew : ∀ l ∈ row.lastUsedStep, l < step) :
      Accepts c row (.totp code) (.step step)
  | recovery {code : String} (hlive : (d.codes.find (row.userId, P.hashRecoveryCode code)).any MfaRecoveryCode.live = true) :
      Accepts c row (.recovery code) (.recovery (P.hashRecoveryCode code))

/-- The code is spent: nobody else can spend it before the commit. -/
structure Spends (c : Call) (current : AuthenticatedSession) (row : UserMfa) (spent : Spent) : Prop
    extends Trying P held d c current row where
  accepts : ∃ code, c.operation.code = some code ∧ Accepts P d c row code spent
  code_lock : ∀ h, spent = .recovery h → held (.recoveryCode row.userId h)

/-- What the tail of a transaction rests on, and the writes it plans. -/
inductive Decided : Request → Event → List Write → Prop
  | loginFailed {c : LoginCall} {row : UserCredential} :
      Decided (.login c) (.loginFailed row.userId) (credentialWrites row.userId (row.flush (recordFailure s row c.now)))
  | loggedIn {c : LoginCall} {userId : Uuid} {kek stored : Bytes} {credential : Option UserCredential}
      (hkek : userKek P d userId = some kek) (hverify : P.verify stored c.password = some true) :
      Decided (.login c) (.loggedIn userId c.password c.opens.id)
        ((credential.elim [] fun row => credentialWrites userId (row.flush (loginChange P c kek stored row))) ++
          [.insertSession (c.opens.row P userId c.now)])
  | loggedOut {c : Call} {current : AuthenticatedSession} (hsession : Holding P held d c current) :
      Decided (.call c) (.loggedOut current.sessionId) []
  | passwordChanged {c : Call} {current : AuthenticatedSession} {row : UserCredential} {currentPassword newPassword : String}
      {salt nonce kek stored : Bytes} {opens : NewSession} (hsession : Holding P held d c current) (huser : row.userId = current.userId)
      (hop : c.operation = .changePassword currentPassword newPassword salt nonce opens)
      (hkek : userKek P d row.userId = some kek) (hstored : P.decrypt row.passwordCiphertext kek .credential = some stored)
      (hverify : P.verify stored currentPassword = some true) :
      Decided (.call c) (.passwordChanged row.userId currentPassword newPassword opens.id)
        (credentialWrites row.userId (row.flush { passwordCiphertext := some (encryptPassword P salt nonce newPassword kek)
                                                  passwordUpdatedAt := some c.now }) ++
          [.insertSession (opens.row P row.userId c.now)])
  | enrolled {c : Call} {current : AuthenticatedSession} {password : String} {secret nonce kek : Bytes}
      (hsession : Holding P held d c current) (hop : c.operation = .enrollMfa password secret nonce)
      (hkek : userKek P d current.userId = some kek) :
      Decided (.call c) (.enrolled current.userId secret)
        [.insertMfa { userId := current.userId, totpSecretCiphertext := some (P.encrypt nonce kek .mfaSecret secret) }]
  | reenrolled {c : Call} {current : AuthenticatedSession} {row : UserMfa} {password : String} {secret nonce kek : Bytes}
      (hsession : Holding P held d c current) (huser : row.userId = current.userId)
      (hop : c.operation = .enrollMfa password secret nonce) (hkek : userKek P d row.userId = some kek)
      (hpending : row.confirmedAt = none) :
      Decided (.call c) (.enrolled row.userId secret)
        (mfaWrites row.userId (row.flush (enrollChange (P.encrypt nonce kek .mfaSecret secret))))
  | confirmed {c : Call} {current : AuthenticatedSession} {row : UserMfa} {code : String} {codes : RecoveryCodes} {secret : Bytes}
      {step : Int} (hfactor : FactorHeld P held d c current row) (hop : c.operation = .confirmMfa code codes)
      (hpending : row.confirmedAt = none) (hseed : seed P d row = some secret)
      (hmatch : P.matchingStep secret code (stepAt c.now) = some step) :
      Decided (.call c) (.confirmed row.userId secret step)
        (mfaWrites row.userId (row.flush (confirmChange step c.now)) ++
          .stampSession current.sessionId c.now :: codeWrites P row.userId codes)
  | wrongCode {c : Call} {current : AuthenticatedSession} {row : UserMfa} {change : MfaChange}
      (hfactor : FactorHeld P held d c current row) (hcounted : recordMfaFailure s row c.now = some change) :
      Decided (.call c) (.wrongCode row.userId) (mfaWrites row.userId (row.flush change))
  | steppedUp {c : Call} {current : AuthenticatedSession} {row : UserMfa} {spent : Spent} (hspends : Spends P held d c current row spent) :
      Decided (.call c) (.steppedUp row.userId spent current.sessionId)
        (useWrites row spent c.now ++ mfaWrites row.userId (row.flush (acceptChange spent)) ++ [.stampSession current.sessionId c.now])
  | completed {c : Call} {current : AuthenticatedSession} {row : UserMfa} {spent : Spent} {code : Code} {opens : NewSession}
      (hspends : Spends P held d c current row spent) (hop : c.operation = .verifyMfa code opens) :
      Decided (.call c) (.completed row.userId spent current.sessionId opens.id)
        (useWrites row spent c.now ++ mfaWrites row.userId (row.flush (acceptChange spent)) ++
          [.insertSession (opens.row P row.userId c.now (some c.now))])
  | disabled {c : Call} {current : AuthenticatedSession} {row : UserMfa} {spent : Spent} {password : String} {code : Code}
      {opens : NewSession} (hspends : Spends P held d c current row spent) (hop : c.operation = .disableMfa password code opens) :
      Decided (.call c) (.disabled row.userId spent opens.id)
        (useWrites row spent c.now ++ mfaWrites row.userId (row.flush (disableChange spent)) ++
          [.insertSession (opens.row P row.userId c.now)])
  | regenerated {c : Call} {current : AuthenticatedSession} {password : String} {codes : RecoveryCodes}
      (hsession : Holding P held d c current) (hop : c.operation = .regenerateRecoveryCodes password codes) :
      Decided (.call c) (.regenerated current.userId) (codeWrites P current.userId codes)

/-- The tail has locked what it has written, and its decision stands. -/
structure Tail.Holds (t : Tail) : Prop where
  covered : ∀ u ∈ t.writes, ∀ k, u.touches k → held k
  decided : Decided P s held d t.request t.event t.plan

/-- Where the step-up of a password change checks this password, it is the current one. -/
def Operation.Presents (o : Operation) (password : String) : Prop :=
  ∀ currentPassword newPassword salt nonce opens, o = .changePassword currentPassword newPassword salt nonce opens →
    password = currentPassword

def Proc.Holds : Proc → Prop
  | .loginCredential c userId kek stored => userKek P d userId = some kek ∧ P.verify stored c.password = some true
  | .mfaState c sessionId userId => Calls P d c sessionId userId
  | .touch c current => Calls P d c current.sessionId current.userId
  | .credential c current password => Holding P held d c current ∧ c.operation.Presents password
  | .factor c current | .regenerateRow c current => Holding P held d c current
  | .enrollRow c current kek => Holding P held d c current ∧ userKek P d current.userId = some kek
  | .disableCredential c current row => Trying P held d c current row
  | .consume c current row h =>
    Trying P held d c current row ∧ ∃ code, c.operation.code = some (.recovery code) ∧ h = P.hashRecoveryCode code
  | .tail t => t.Holds P s held d
  | _ => True

end Assertions

/-! ### Others do not disturb it -/

/-- A session later on: still that of its user and its token, and revoked for good. -/
structure UserSession.Becomes (x x' : UserSession) : Prop where
  userId : x'.userId = x.userId
  tokenHash : x'.tokenHash = x.tokenHash
  revoked : x.live = false → x'.live = false

/-- What every commit leaves alone. -/
structure Stays (d d' : Db) : Prop where
  envelopes : d'.envelopes = d.envelopes
  sessions : ∀ id x, d.sessions.find id = some x → ∃ x', d'.sessions.find id = some x' ∧ x.Becomes x'

theorem UserSession.Becomes.refl (x : UserSession) : x.Becomes x := ⟨rfl, rfl, fun h => h⟩

theorem UserSession.Becomes.trans {x x' x'' : UserSession} (h : x.Becomes x') (h' : x'.Becomes x'') : x.Becomes x'' :=
  ⟨h'.userId.trans h.userId, h'.tokenHash.trans h.tokenHash, fun hr => h'.revoked (h.revoked hr)⟩

namespace Stays

theorem refl (d : Db) : Stays d d := ⟨rfl, fun _ x hx => ⟨x, hx, .refl x⟩⟩

theorem write (d : Db) (u : Write) : Stays d (d.write u) := by
  have modify : ∀ {sessionId : Uuid} {f : UserSession → UserSession} {hf : ∀ x, (f x).id = x.id}, (∀ x : UserSession, x.Becomes (f x)) →
      Stays d { d with sessions := d.sessions.modify sessionId f hf } := fun {sessionId f hf} hb =>
    ⟨rfl, fun id x hx => by
      by_cases he : id = sessionId
      · subst he
        exact ⟨f x, by rw [Table.find_modify_self, hx, Option.map_some], hb x⟩
      · exact ⟨x, by rw [Table.find_modify_of_ne he, hx], .refl x⟩⟩
  cases u with
  | touch sessionId now => exact modify fun x => ⟨rfl, rfl, id⟩
  | revokeSession sessionId now =>
    refine modify fun x => ?_
    unfold UserSession.revoke
    split
    · exact ⟨rfl, rfl, fun _ => rfl⟩
    · exact .refl x
  | stampSession sessionId now =>
    refine modify fun x => ?_
    unfold UserSession.stamp
    split
    · exact ⟨rfl, rfl, id⟩
    · exact .refl x
  | insertSession row =>
    refine ⟨rfl, fun id x hx => ⟨x, ?_, .refl x⟩⟩
    exact Table.find_eq_some.2 ⟨Table.mem_insert_of_mem (Table.mem_of_find hx), Table.key_of_find hx⟩
  | _ => exact ⟨rfl, fun _ x hx => ⟨x, hx, .refl x⟩⟩

theorem trans {d d' d'' : Db} (h : Stays d d') (h' : Stays d' d'') : Stays d d'' := by
  refine ⟨h'.envelopes.trans h.envelopes, fun id x hx => ?_⟩
  obtain ⟨x', hx', hb⟩ := h.sessions id x hx
  obtain ⟨x'', hx'', hb'⟩ := h'.sessions id x' hx'
  exact ⟨x'', hx'', hb.trans hb'⟩

theorem foldl (d : Db) (ws : List Write) : Stays d (ws.foldl Db.write d) := by
  induction ws generalizing d with
  | nil => exact .refl d
  | cons u ws ih => exact (write d u).trans (ih _)

end Stays

section Stable
variable {P : Primitives} {s : Settings} {held held' : Lock → Prop} {d d' : Db} (hk : ∀ k, held k → held' k)
  (hagree : ∀ k, held k → k.agree d d') (hstays : Stays d d')

omit hk hagree hstays in
theorem userKek_congr (henv : d'.envelopes = d.envelopes) (userId : Uuid) : userKek P d' userId = userKek P d userId := by
  rw [userKek, userKek, henv]

omit hk hagree hstays in
theorem seed_congr (henv : d'.envelopes = d.envelopes) (row : UserMfa) : seed P d' row = seed P d row := by
  rw [seed, seed, userKek_congr henv]

omit hk hagree in
include hstays in
theorem Calls.stable {c : Call} {sessionId userId : Uuid} (h : Calls P d c sessionId userId) : Calls P d' c sessionId userId := by
  obtain ⟨x, hx, huser, htoken⟩ := h
  obtain ⟨x', hx', hb⟩ := hstays.sessions _ x hx
  exact ⟨x', hx', hb.userId.trans huser, hb.tokenHash.trans htoken⟩

variable {c : Call} {current : AuthenticatedSession} {row : UserMfa}

omit hagree in
include hk hstays in
theorem Holding.stable (h : Holding P held d c current) : Holding P held' d' c current :=
  ⟨hk _ h.session_lock, h.calls.stable hstays⟩

include hk hagree hstays

theorem FactorHeld.stable (h : FactorHeld P held d c current row) : FactorHeld P held' d' c current row :=
  ⟨h.toHolding.stable hk hstays, h.user, hk _ h.lock, (hagree _ h.lock : _ = _).trans h.stored⟩

theorem Trying.stable (h : Trying P held d c current row) : Trying P held' d' c current row :=
  ⟨h.toFactorHeld.stable hk hagree hstays, h.confirmed, h.unlocked⟩

theorem Spends.stable {spent : Spent} (h : Spends P held d c current row spent) : Spends P held' d' c current row spent := by
  refine ⟨h.toTrying.stable hk hagree hstays, ?_, fun x hx => hk _ (h.code_lock x hx)⟩
  obtain ⟨code, hop, hacc⟩ := h.accepts
  refine ⟨code, hop, ?_⟩
  cases hacc with
  | totp hseed hmatch hnew => exact .totp ((seed_congr hstays.envelopes row).trans hseed) hmatch hnew
  | recovery hlive =>
    refine .recovery ?_
    have hrow : d'.codes.find _ = d.codes.find _ := hagree _ (h.code_lock _ rfl)
    rwa [hrow]

theorem Decided.stable {r : Request} {e : Event} {plan : List Write} (h : Decided P s held d r e plan) :
    Decided P s held' d' r e plan := by
  have kek : ∀ userId, userKek P d' userId = userKek P d userId := userKek_congr hstays.envelopes
  cases h with
  | loginFailed => exact .loginFailed
  | loggedIn hkek hverify => exact .loggedIn ((kek _).trans hkek) hverify
  | loggedOut hsession => exact .loggedOut (hsession.stable hk hstays)
  | passwordChanged hsession huser hop hkek hstored hverify =>
    exact .passwordChanged (hsession.stable hk hstays) huser hop ((kek _).trans hkek) hstored hverify
  | enrolled hsession hop hkek => exact .enrolled (hsession.stable hk hstays) hop ((kek _).trans hkek)
  | reenrolled hsession huser hop hkek hpending =>
    exact .reenrolled (hsession.stable hk hstays) huser hop ((kek _).trans hkek) hpending
  | confirmed hfactor hop hpending hseed hmatch =>
    exact .confirmed (hfactor.stable hk hagree hstays) hop hpending ((seed_congr hstays.envelopes _).trans hseed) hmatch
  | wrongCode hfactor hcounted => exact .wrongCode (hfactor.stable hk hagree hstays) hcounted
  | steppedUp hspends => exact .steppedUp (hspends.stable hk hagree hstays)
  | completed hspends hop => exact .completed (hspends.stable hk hagree hstays) hop
  | disabled hspends hop => exact .disabled (hspends.stable hk hagree hstays) hop
  | regenerated hsession hop => exact .regenerated (hsession.stable hk hstays) hop

theorem Proc.Holds.stable {p : Proc} (h : p.Holds P s held d) : p.Holds P s held' d' := by
  cases p with
  | loginCredential => exact ⟨(userKek_congr hstays.envelopes _).trans h.1, h.2⟩
  | mfaState | touch => exact Calls.stable hstays h
  | credential => exact ⟨h.1.stable hk hstays, h.2⟩
  | factor | regenerateRow => exact Holding.stable hk hstays h
  | enrollRow => exact ⟨h.1.stable hk hstays, (userKek_congr hstays.envelopes _).trans h.2⟩
  | disableCredential => exact Trying.stable hk hagree hstays h
  | consume => exact ⟨h.1.stable hk hagree hstays, h.2⟩
  | tail t => exact ⟨fun u hu k hc => hk k (h.covered u hu k hc), h.decided.stable hk hagree hstays⟩
  | _ => trivial

end Stable

/-! ### Every statement establishes the next assertion -/

section Next
variable {P : Primitives} {s : Settings} {held : Lock → Prop} {d : Db} {c : Call} {current : AuthenticatedSession} {row : UserMfa}

theorem touched_holds {writes : List Write} {todo : List Stmt} {event : Event} (hsession : Holding P held d c current)
    (hwrites : ∀ u ∈ writes, ∀ k, u.touches k → held k)
    (hdecided : Decided P s held d (.call c) event (writes.filter Write.planned ++ todo.flatMap (Stmt.plans c.now))) :
    (touched c current writes todo event).Holds P s held d := by
  refine ⟨fun u hu k hk => ?_, hdecided⟩
  rcases List.mem_cons.1 hu with rfl | hu
  · cases hk
    exact hsession.session_lock
  · exact hwrites u hu k hk

theorem wrongCode_holds (hrow : FactorHeld P held d c current row) : (wrongCode s c current row).Holds P s held d := by
  unfold wrongCode
  split
  · trivial
  next change hcounted =>
    refine touched_holds hrow.toHolding (fun u hu => by cases hu) ?_
    rw [plans_updateMfa]
    exact .wrongCode hrow hcounted

theorem accepted_holds {spent : Spent} (hspends : Spends P held d c current row spent) :
    (accepted P c current row spent).Holds P s held d := by
  have hsession := hspends.toHolding
  have huser := hspends.user
  have hwrites : ∀ u ∈ useWrites row spent c.now, ∀ k, u.touches k → held k := fun u hu k hk => by
    cases spent with
    | step => cases hu
    | recovery h =>
      cases List.mem_singleton.1 hu
      cases hk
      exact hspends.code_lock h rfl
  have hplanned : (useWrites row spent c.now).filter Write.planned = useWrites row spent c.now := by cases spent <;> rfl
  unfold accepted
  dsimp only
  split
  next hop =>
    split
    · refine touched_holds hsession hwrites ?_
      rw [hplanned, List.flatMap_append, plans_updateMfa, ← huser, ← List.append_assoc]
      exact .completed hspends hop
    · refine touched_holds hsession hwrites ?_
      rw [hplanned, List.flatMap_append, plans_updateMfa, ← List.append_assoc]
      exact .steppedUp hspends
  next hop =>
    refine touched_holds hsession hwrites ?_
    rw [hplanned, List.flatMap_append, plans_updateMfa, ← huser, ← List.append_assoc]
    exact .disabled hspends hop
  · trivial

theorem spendCode_holds {code : Code} (htrying : Trying P held d c current row) (hcode : c.operation.code = some code) :
    (spendCode P s d c current row code).Holds P s held d := by
  cases code with
  | totp code =>
    unfold spendCode
    dsimp only
    split
    · trivial
    next secret hseed =>
      split
      · exact wrongCode_holds htrying.toFactorHeld
      next step hmatch =>
        split
        · exact wrongCode_holds htrying.toFactorHeld
        next hnew =>
          refine accepted_holds ⟨htrying, ⟨_, hcode, .totp hseed hmatch fun l hl => ?_⟩, fun h he => by cases he⟩
          by_contra hle
          refine hnew ((Option.any_eq_true ..).2 ⟨l, hl, ?_⟩)
          simpa using hle
  | recovery code => exact ⟨htrying, code, hcode, rfl⟩

theorem confirm_holds {code : String} {codes : RecoveryCodes} (hrow : FactorHeld P held d c current row)
    (hop : c.operation = .confirmMfa code codes) (hpending : row.confirmedAt = none) : (confirm P s d c current row code codes).Holds P s held d := by
  unfold confirm
  split
  · trivial
  next secret hseed =>
    split
    · exact wrongCode_holds hrow
    next step hmatch =>
      refine touched_holds hrow.toHolding (fun u hu => by cases hu) ?_
      rw [List.flatMap_append, List.flatMap_append, plans_updateMfa, plans_insertRecoveryCodes, ← hrow.user, List.append_assoc]
      exact .confirmed hrow hop hpending hseed hmatch

theorem onFactor_holds (hrow : FactorHeld P held d c current row) : (onFactor P s d c current row).Holds P s held d := by
  have trying : ¬ (row.confirmedAt.isNone = true ∨ row.totpSecretCiphertext.isNone = true) → mfaLocked row c.now ≠ true →
      Trying P held d c current row := fun hconf hopen => ⟨hrow, by
        cases hc : row.confirmedAt with
        | none => exact absurd (.inl (by rw [hc]; rfl)) hconf
        | some => rfl, by simpa using hopen⟩
  unfold onFactor
  split
  next hop =>
    split
    · trivial
    split
    · trivial
    next hpending =>
      split
      · trivial
      · exact confirm_holds hrow hop (by simpa using hpending)
  next hop =>
    split
    · trivial
    next hconf =>
      split
      · trivial
      next hopen => exact spendCode_holds (trying hconf hopen) (by rw [hop]; rfl)
  next hop =>
    split
    · trivial
    next hconf =>
      split
      · trivial
      next hopen => exact trying hconf hopen
  · trivial

theorem enter_holds (hsession : Holding P held d c current) : (enter s c current).Holds P s held d := by
  unfold enter
  split
  · exact touched_holds hsession (fun u hu => by cases hu) (.loggedOut hsession)
  next hop =>
    refine ⟨hsession, fun currentPassword newPassword salt nonce opens he => ?_⟩
    rw [hop] at he
    cases he
    rfl
  next hop => exact ⟨hsession, fun _ _ _ _ _ he => by rw [hop] at he; cases he⟩
  · exact hsession
  · exact hsession
  · cases requireCurrentMfaAssurance s current with
    | none => exact hsession
    | some r => trivial
  next hop =>
    cases requireCurrentMfaAssurance s current with
    | none => exact ⟨hsession, fun _ _ _ _ _ he => by rw [hop] at he; cases he⟩
    | some r => trivial

theorem onPassword_holds {credential : UserCredential} {kek stored : Bytes} {password : String}
    (hsession : Holding P held d c current) (huser : credential.userId = current.userId)
    (hkek : userKek P d credential.userId = some kek) (hstored : P.decrypt credential.passwordCiphertext kek .credential = some stored)
    (hverify : P.verify stored password = some true)
    (hpassword : c.operation.Presents password) :
    (onPassword P c current credential kek).Holds P s held d := by
  unfold onPassword
  split
  next hop =>
    refine touched_holds hsession (fun u hu => by cases hu) ?_
    rw [List.flatMap_append, plans_updateCredential, ← huser]
    cases hpassword _ _ _ _ _ hop
    exact .passwordChanged hsession huser hop hkek hstored hverify
  · exact ⟨hsession, huser ▸ hkek⟩
  · exact hsession
  · trivial

theorem enroll_holds {kek secret nonce : Bytes} {password : String} {found : Option UserMfa} (hsession : Holding P held d c current)
    (hkek : userKek P d current.userId = some kek) (hop : c.operation = .enrollMfa password secret nonce)
    (huser : ∀ row ∈ found, row.userId = current.userId) :
    (enroll P c current kek secret nonce found).Holds P s held d := by
  unfold enroll
  dsimp only
  split
  · exact touched_holds hsession (fun u hu => by cases hu) (.enrolled hsession hop hkek)
  next row =>
    split
    · trivial
    next hpending =>
      refine touched_holds hsession (fun u hu => by cases hu) ?_
      rw [plans_updateMfa, ← huser row rfl]
      exact .reenrolled hsession (huser row rfl) hop (huser row rfl ▸ hkek) (by simpa using hpending)

theorem covered_step {held' : Lock → Prop} {t t' : Tail} (h : (t.step d).next = .tail t') (hk : Keeps held held' (t.step d).op)
    (hcov : ∀ u ∈ t.writes, ∀ k, u.touches k → held k) : ∀ u ∈ t'.writes, ∀ k, u.touches k → held' k := by
  obtain ⟨stmt, rest, -, ⟨ks, u, ho, hop, rfl⟩ | ⟨todo, -, hop, rfl⟩⟩ := tail_step h
  · obtain ⟨hkeep, hlock⟩ := hk.lock ks hop
    intro v hv k hc
    rcases List.mem_append.1 hv with hv | hv
    · exact hkeep k (hcov v hv k hc)
    · cases List.mem_singleton.1 hv
      exact hlock k ((outcome_write ho).1 k hc)
  · exact fun v hv k hc => hk.read hop k (hcov v hv k hc)

theorem verifyCurrentPassword_eq_ok {credential : UserCredential} {password : String} {kek : Bytes}
    (h : verifyCurrentPassword P d credential password = .ok kek) : userKek P d credential.userId = some kek ∧
      ∃ stored, P.decrypt credential.passwordCiphertext kek .credential = some stored ∧ P.verify stored password = some true := by
  unfold verifyCurrentPassword at h
  split at h
  · cases h
  next k hkek =>
    split at h
    · cases h
    · cases h
    next hverify =>
      cases h
      obtain ⟨stored, hstored, hv⟩ := Option.bind_eq_some_iff.1 hverify
      exact ⟨hkek, stored, hstored, hv⟩

theorem Proc.Holds.next {held' : Lock → Prop} {p : Proc} {m : Step} (h : go P s d p = some m) (hA : p.Holds P s held d)
    (hk : Keeps held held' m.op) : m.next.Holds P s held' (m.op.effect Db.write d) := by
  have keep : ∀ {q : Proc}, (∀ k, held k → held' k) → q.Holds P s held d → q.Holds P s held' d := fun hk hq =>
    hq.stable hk (fun k _ => by cases k <;> trivial) (.refl d)
  cases p with
  | login c =>
    cases h
    dsimp only
    split
    · trivial
    split
    · trivial
    split
    · trivial
    split
    · trivial
    next kek hkek =>
      split
      · trivial
      split
      · trivial
      · trivial
      next hverify => exact ⟨hkek, hverify⟩
  | recordFailure c userId =>
    cases h
    dsimp only
    split
    · trivial
    next row hrow =>
      refine ⟨fun u hu => (by cases hu), ?_⟩
      cases Table.key_of_find hrow
      simp only [Tail.plan, plans_updateCredential]
      exact .loginFailed
  | loginCredential c userId kek stored =>
    cases h
    obtain ⟨hkek, hverify⟩ := hA
    refine ⟨fun u hu => (by cases hu), ?_⟩
    have hplan : ∀ credential : Option UserCredential, Decided P s held' d (.login c) (.loggedIn userId c.password c.opens.id)
        ((credential.elim [] fun row => credentialWrites userId (row.flush (loginChange P c kek stored row))) ++
          [.insertSession (c.opens.row P userId c.now)]) := fun _ => .loggedIn hkek hverify
    cases hrow : d.credentials.find userId with
    | none => exact hplan none
    | some row =>
      simp only [Tail.plan, List.flatMap_append, plans_updateCredential]
      exact hplan (some row)
  | bootstrap c =>
    cases h
    dsimp only
    split
    · trivial
    split
    · trivial
    split
    · trivial
    next x u hfound =>
      split
      · trivial
      · obtain ⟨x', hx, hu⟩ := Option.bind_eq_some_iff.1 hfound
        obtain ⟨u', -, hpair⟩ := Option.map_eq_some_iff.1 hu
        cases hpair
        have htoken := List.find?_some hx
        exact ⟨x, Table.find_of_mem (List.mem_of_find?_eq_some hx), rfl, by simpa using htoken⟩
  | mfaState c sessionId userId =>
    cases h
    dsimp only
    split
    · trivial
    · split
      · trivial
      · exact hA
  | touch c current =>
    cases h
    exact enter_holds ⟨(hk.lock _ rfl).2 _ (by simp), hA⟩
  | credential c current password =>
    cases h
    obtain ⟨hsession, hpassword⟩ := hA
    dsimp only
    split
    · trivial
    next credential hrow =>
      split
      · trivial
      next kek hok =>
        obtain ⟨hkek, stored, hstored, hverify⟩ := verifyCurrentPassword_eq_ok hok
        exact onPassword_holds (hsession.stable (hk.read rfl) (.refl d)) (Table.key_of_find hrow) hkek hstored hverify hpassword
  | enrollRow c current kek =>
    cases h
    obtain ⟨hsession, hkek⟩ := hA
    dsimp only
    split
    next hop => exact enroll_holds (hsession.stable (hk.read rfl) (.refl d)) hkek hop fun row hrow => Table.key_of_find hrow
    · trivial
  | regenerateRow c current =>
    cases h
    dsimp only
    split
    next hop =>
      split
      · trivial
      · have hsession : Holding P held' d c current := Holding.stable (hk.read rfl) (.refl d) hA
        refine touched_holds hsession (fun u hu => by cases hu) ?_
        rw [List.flatMap_cons, plans_insertRecoveryCodes]
        exact .regenerated hsession hop
    · trivial
  | factor c current =>
    simp only [go] at h
    split at h
    · cases h
      trivial
    next row hrow =>
      cases h
      obtain ⟨hkeep, hlock⟩ := hk.lock _ rfl
      have huser : row.userId = current.userId := Table.key_of_find hrow
      refine onFactor_holds ⟨Holding.stable hkeep (.refl d) hA, huser, hlock _ (by simp [huser]), ?_⟩
      rw [huser]
      exact hrow
  | disableCredential c current row =>
    cases h
    have htrying : Trying P held' d c current row := keep (q := .disableCredential c current row) (hk.read rfl) hA
    dsimp only
    split
    next hop =>
      split
      · trivial
      · exact spendCode_holds htrying (by rw [hop]; rfl)
    · trivial
  | consume c current row hash =>
    simp only [go] at h
    split at h
    next hlive =>
      cases h
      obtain ⟨hkeep, hlock⟩ := hk.lock _ rfl
      obtain ⟨htrying, code, hcode, rfl⟩ := keep (q := .consume c current row hash) hkeep hA
      refine accepted_holds ⟨htrying, ⟨_, hcode, .recovery hlive⟩, fun x hx => ?_⟩
      cases hx
      exact hlock _ (by simp)
    · cases h
      obtain ⟨htrying, -⟩ := keep (q := .consume c current row hash) (hk.read rfl) hA
      exact wrongCode_holds htrying.toFactorHeld
  | tail t =>
    cases h
    cases hnext : (t.step d).next with
    | tail t' =>
      obtain ⟨hplan, hevent, hrequest⟩ := plan_step hnext
      refine ⟨covered_step hnext hk hA.covered, ?_⟩
      have hop : (t.step d).op.effect Db.write d = d ∧ ∀ k, held k → held' k := by
        obtain ⟨stmt, rest, -, ⟨ks, u, -, hop, -⟩ | ⟨todo, -, hop, -⟩⟩ := tail_step hnext
        · rw [hop]
          exact ⟨rfl, (hk.lock ks hop).1⟩
        · rw [hop]
          exact ⟨rfl, hk.read hop⟩
      rw [hop.1, hplan, hevent, hrequest]
      exact hA.decided.stable hop.2 (fun k _ => by cases k <;> trivial) (.refl d)
    | refuse | done => trivial
    | _ =>
      simp only [Tail.step] at hnext
      repeat' split at hnext
      all_goals cases hnext
  | refuse => cases h; trivial
  | done => cases h

end Next

/-! ### The outline -/

def rows (P : Primitives) (s : Settings) : (authentication P s).Rows where
  agree := Lock.agree
  agree_refl k _ := by cases k <;> trivial
  agree_trans {k} _ _ _ h h' := by
    cases k with
    | sessionToken => trivial
    | credential | session | mfa | recoveryCode => exact Eq.trans h' h
  touches := Write.touches
  frame := agree_write

section Commits
variable {P : Primitives} {s : Settings} {d : Db} {p : Proc} {m : Step}

/-- A request writes and answers in its commit; a refusal only answers. -/
theorem go_cases (h : go P s d p = some m) :
    (∃ t, p = .tail t ∧ t.todo = [] ∧ m = { op := .commit t.writes, next := .done, emit := [t.event] }) ∨
      ((∀ ws, m.op ≠ .commit ws) ∧ ∀ e ∈ m.emit, ∃ r, e = .refused r) := by
  cases p with
  | tail t =>
    cases h
    unfold Tail.step
    split
    next htodo => exact .inl ⟨t, rfl, htodo, rfl⟩
    · right
      split <;> exact ⟨fun ws hw => (by cases hw), fun e he => (by cases he)⟩
  | refuse r =>
    cases h
    refine .inr ⟨fun ws hw => (by cases hw), fun e he => ⟨r, List.mem_singleton.1 he⟩⟩
  | factor c current =>
    right
    simp only [go] at h
    split at h <;> cases h <;> exact ⟨fun ws hw => (by cases hw), fun e he => (by cases he)⟩
  | consume c current row hash =>
    right
    simp only [go] at h
    split at h <;> cases h <;> exact ⟨fun ws hw => (by cases hw), fun e he => (by cases he)⟩
  | done => cases h
  | _ =>
    cases h
    exact .inr ⟨fun ws hw => (by cases hw), fun e he => (by cases he)⟩

end Commits

/-- The assertions outline the requests. -/
def outline (P : Primitives) (s : Settings) : Outline (authentication P s) where
  rows := rows P s
  holds p held d := p.Holds P s held d
  guar := Stays
  stable h hk hagree hstays := h.stable hk hagree hstays
  covered hm h hop u hu k hk := by
    rcases System.move_abortable hm with hgo | rfl
    · rcases go_cases hgo with ⟨t, rfl, -, rfl⟩ | ⟨hno, -⟩
      · cases hop
        exact h.covered u hu k hk
      · exact absurd hop (hno _)
    · cases hop
  guarantees {_ _ d _ m} _ _ := by
    cases m.op with
    | commit ws => exact .foldl d ws
    | read | lock | unlock | rollback => exact .refl d
  next hm h hk := by
    rcases System.move_abortable hm with hgo | rfl
    · exact h.next hgo hk
    · trivial

/-! ### Runs -/

/-- The worlds of the authentication requests. -/
abbrev Requests (π : Type) := World π Lock Db Proc Event

def Proc.Entry : Proc → Prop
  | .login _ | .bootstrap _ | .done => True
  | _ => False

/-- Requests that have not begun. -/
structure Start {π : Type} (w : Requests π) : Prop where
  entry : ∀ i, (w.proc i).Entry
  trace : w.trace = []

section Runs
variable {π : Type} [DecidableEq π] {P : Primitives} {s : Settings} {C : Requests π → π × Choice → Prop} {w₀ w : Requests π}
  {i : π} {c : Choice} {m : Step}

theorem outline_of_run (h₀ : Start w₀) (h : (authentication P s).Run C w₀ w) (i : π) : (outline P s).At w i := by
  refine Outline.of_run h (fun j => ?_) i
  have he := h₀.entry j
  show (w₀.proc j).Holds P s (fun k => w₀.owner k = some j) w₀.db
  generalize w₀.proc j = p at he
  cases p with
  | login | bootstrap | done => trivial
  | _ => cases he

/-- A statement commits a decision that still stands, or changes no row and answers at most a refusal. -/
theorem fires_cases (hat : (outline P s).At w i) (hm : (authentication P s).Fires w i c m) :
    (∃ t, w.proc i = .tail t ∧ c = .go ∧ t.todo = [] ∧ m = { op := .commit t.writes, next := .done, emit := [t.event] } ∧
        t.Holds P s (fun k => w.owner k = some i) w.db) ∨
      (((authentication P s).after w i m).db = w.db ∧ (∀ e ∈ m.emit, ∃ r, e = .refused r) ∧ ∀ ws, m.op ≠ .commit ws) := by
  have still : (∀ ws, m.op ≠ .commit ws) → ((authentication P s).after w i m).db = w.db := fun hno => by
    rw [System.db_after]
    cases hop : m.op with
    | commit ws => exact absurd hop (hno ws)
    | read | lock | unlock | rollback => rfl
  cases c with
  | go =>
    rcases go_cases hm.1 with ⟨t, hp, htodo, rfl⟩ | ⟨hno, hemit⟩
    · have hholds : (w.proc i).Holds P s (fun k => w.owner k = some i) w.db := hat
      rw [hp] at hholds
      exact .inl ⟨t, hp, rfl, htodo, rfl, hholds⟩
    · exact .inr ⟨still hno, hemit, hno⟩
  | fail | crash =>
    cases hm.1
    exact .inr ⟨rfl, fun e he => (by cases he), fun ws hop => by cases hop⟩

end Runs

end TestingPlatform.Auth
