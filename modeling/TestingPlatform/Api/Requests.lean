import TestingPlatform.Api.Served
import TestingPlatform.Auth.Guesses
import TestingPlatform.Auth.Lifetime
import TestingPlatform.Auth.Authentication
import TestingPlatform.Auth.Tails

/-!
# The authentication routes as requests

A route of `Api.Authentication` asks for its statements; a request of `Auth.Service` is the same function as a state machine
over the rows. Over any database the route by itself leaves what the request leaves, and answers an error where the request
does, with its status (`route_answers`, `login_answers`).
-/

namespace TestingPlatform.Auth

/-- The session that the operation opens. -/
def Operation.opens : Operation → Option NewSession
  | .changePassword _ _ _ _ opens | .verifyMfa _ opens | .disableMfa _ _ opens => some opens
  | _ => none

end TestingPlatform.Auth

namespace TestingPlatform.Api

open Dialogue Auth ReadCommitted

/-- What the service gets of the session. -/
abbrev AuthenticatedSession.toAuth (current : AuthenticatedSession) : Auth.AuthenticatedSession where
  sessionId := current.sessionId
  userId := current.userId
  mfaEnrolled := current.mfaEnrolled
  mfaVerifiedAt := current.mfaVerifiedAt
  observedAt := current.observedAt

/-- The route of the operation. -/
def AuthRoute.of (P : Primitives) (now : Time) : Operation → AuthRoute P
  | .logout => .logout
  | .changePassword currentPassword newPassword salt nonce opens =>
    .changePassword currentPassword newPassword salt nonce opens now
  | .enrollMfa password secret nonce => .enrollMfa password secret nonce
  | .confirmMfa code codes => .confirmMfa code codes
  | .verifyMfa code opens => .verifyMfa code opens
  | .disableMfa password code opens => .disableMfa password code opens
  | .regenerateRecoveryCodes password codes => .regenerateRecoveryCodes password codes

namespace Requests

/-! ### A server -/

/-- The database, and what the open transaction has written. -/
structure Transaction where
  db : Db
  writes : List Write := []

instance : Transactional Transaction Db where
  committed t := t.writes.foldl Db.write t.db
  kept := Transaction.db

section Serve
variable (P : Primitives) (now : Time) (drawn : Uuid)

def Transaction.perform {α : Type} (t : Transaction) (stmts : List Stmt) (reply : α) : Except DbError α × Transaction :=
  match performAll t.db now t.writes stmts with
  | .ok ws => (.ok reply, { t with writes := ws })
  | .error _ => (.error .other, t)

/-- The statements of the auth domain at one instant; `drawn` is the id of a session that is opened. No route reads before its
commit what it has written. -/
def serve : (q : Question) → Transaction → Answer q × Transaction
  | ⟨_, .commit⟩, t => (.ok (), { db := t.writes.foldl Db.write t.db })
  | ⟨_, .rollback⟩, t | ⟨_, .close⟩, t => (.ok (), { db := t.db })
  | ⟨_, .setOrgContext ..⟩, t | ⟨_, .setUserContext _⟩, t => (.ok (), t)
  | ⟨_, .dbNow⟩, t => (.ok now, t)
  | ⟨_, .sessionBootstrap tokenHash⟩, t =>
    (.ok ((sessionBootstrap t.db tokenHash).map fun x =>
      ⟨x.1.id, x.1.userId, x.2.organizationId, x.1.createdAt, x.1.lastSeenAt, x.1.revokedAt, x.2.disabledAt, now⟩), t)
  | ⟨_, .loginLookup email⟩, t =>
    (.ok ((loginLookup P t.db email).map fun row =>
      ⟨row.userId, row.disabledAt, row.passwordCiphertext, row.lockedUntil, now⟩), t)
  | ⟨_, .mfaState userId sessionId⟩, t =>
    ((match t.db.sessions.find sessionId with
      | none => .error .other
      | some x => .ok ⟨x.mfaVerifiedAt, mfaEnrolled t.db userId, .member⟩), t)
  | ⟨_, .sessionTouch sessionId⟩, t => (.ok (), { t with writes := t.writes ++ [.touch sessionId now] })
  | ⟨_, .userEnvelope userId⟩, t => (.ok (t.db.envelopes.find userId), t)
  | ⟨_, .credentialFor userId⟩, t => (.ok (t.db.credentials.find userId), t)
  | ⟨_, .userById userId⟩, t =>
    (.ok ((t.db.users.find userId).attach.map fun u => ⟨u.1, Table.key_of_find u.2⟩), t)
  | ⟨_, .sessionById sessionId⟩, t => (.ok (t.db.sessions.find sessionId), t)
  | ⟨_, .revokeSession sessionId⟩, t => t.perform now [.revokeSession sessionId] ()
  | ⟨_, .revokeOtherSessions userId keepSessionId⟩, t => t.perform now [.revokeOtherSessions userId keepSessionId] ()
  | ⟨_, .mfaFor userId⟩, t | ⟨_, .mfaForUpdate userId⟩, t => (.ok (t.db.mfa.find userId), t)
  | ⟨_, .unusedRecoveryCodeCount userId⟩, t => (.ok (t.db.codes.rows.countP fun x => x.userId = userId ∧ x.live = true), t)
  | ⟨_, .insertRecoveryCodes userId codeHashes⟩, t =>
    t.perform now (codeHashes.map fun h => .insertCode ⟨userId, h, none, none⟩) ()
  | ⟨_, .burnRecoveryCodes userId⟩, t => t.perform now [.burnRecoveryCodes userId] ()
  | ⟨_, .consumeRecoveryCode userId codeHash⟩, t =>
    if (t.db.codes.find (userId, codeHash)).any MfaRecoveryCode.live then
      (.ok true, { t with writes := t.writes ++ [.useCode userId codeHash now] })
    else (.ok false, t)
  | ⟨_, .stampSessionAssurance sessionId⟩, t =>
    match t.perform now [.stampSession sessionId] true with
    | (.ok stamped, t) => (.ok stamped, t)
    | (.error _, t) => (.ok false, t)
  | ⟨_, .flushCredential userId change⟩, t => t.perform now [.updateCredential userId change] ()
  | ⟨_, .flushMfa userId change⟩, t => t.perform now [.updateMfa userId change] ()
  | ⟨_, .insertMfa userId ciphertext⟩, t => t.perform now [.insertMfa { userId, totpSecretCiphertext := some ciphertext }] ()
  | ⟨_, .openSession userId tokenHash assuredAt⟩, t =>
    let row : UserSession :=
      { id := drawn, userId, tokenHash, createdAt := now, lastSeenAt := now, mfaVerifiedAt := assuredAt }
    t.perform now [.openSession row] row
  | _, t => (.error .other, t)

def server : Server Transaction where
  answer := serve P now drawn
  commits _ _ := ⟨_, rfl, rfl, rfl⟩
  rollsBack _ _ := ⟨_, rfl, rfl, rfl⟩
  closes _ _ := ⟨_, rfl, rfl, rfl⟩

end Serve

section On
variable {P : Primitives} {now : Time} {drawn : Uuid} {α β γ : Type} {t : Transaction}

def Outcome.performs (now : Time) (t : Transaction) (stmts : List Stmt) (reply : α) : Outcome Transaction α :=
  match performAll t.db now t.writes stmts with
  | .ok ws => (.ok reply, { t with writes := ws })
  | .error _ => (.error (.db .other), t)

theorem on_performs {engine : Engine} {st : Statement} {stmts : List Stmt} {reply : st.Reply}
    (h : (server P now drawn).answer ⟨engine, st⟩ t = t.perform now stmts reply) :
    Program.on (server P now drawn) (exec engine st) t = Outcome.performs now t stmts reply := by
  rw [on_exec, h, Transaction.perform, Outcome.performs]
  cases performAll t.db now t.writes stmts <;> rfl

theorem on_flushCredential (row : UserCredential) (change : CredentialChange) :
    Program.on (server P now drawn) (flushCredential row change) t =
      Outcome.performs now t (updateCredential row.userId (row.flush change)) () := by
  unfold flushCredential updateCredential
  split
  · rfl
  · exact on_performs rfl

theorem on_flushMfa (row : UserMfa) (change : MfaChange) :
    Program.on (server P now drawn) (flushMfa row change) t =
      Outcome.performs now t (updateMfa row.userId (row.flush change)) () := by
  unfold flushMfa updateMfa
  split
  · rfl
  · exact on_performs rfl

section Reads
variable {userId : Uuid}

/-! What is read goes on to the rest. -/

theorem on_userEnvelope {f : Option KeyEnvelope → Program β} :
    Program.on (server P now drawn) (exec .auth (.userEnvelope userId) >>= f) t =
      Program.on (server P now drawn) (f (t.db.envelopes.find userId)) t := rfl

theorem on_credentialFor {f : Option UserCredential → Program β} :
    Program.on (server P now drawn) (exec .auth (.credentialFor userId) >>= f) t =
      Program.on (server P now drawn) (f (t.db.credentials.find userId)) t := rfl

theorem on_mfaFor {f : Option UserMfa → Program β} :
    Program.on (server P now drawn) (exec .auth (.mfaFor userId) >>= f) t =
      Program.on (server P now drawn) (f (t.db.mfa.find userId)) t := rfl

theorem on_mfaForUpdate {f : Option UserMfa → Program β} :
    Program.on (server P now drawn) (exec .auth (.mfaForUpdate userId) >>= f) t =
      Program.on (server P now drawn) (f (t.db.mfa.find userId)) t := rfl

theorem on_dbNow {f : Time → Program β} :
    Program.on (server P now drawn) (exec .auth .dbNow >>= f) t = Program.on (server P now drawn) (f now) t := rfl

theorem on_userById {u : AppUser} (hu : t.db.users.find userId = some u)
    {f : Option { u : AppUser // u.id = userId } → Program β} :
    Program.on (server P now drawn) (exec .auth (.userById userId) >>= f) t =
      Program.on (server P now drawn) (f (some ⟨u, Table.key_of_find hu⟩)) t := by
  have hrow : ((t.db.users.find userId).attach.map fun u => (⟨u.1, Table.key_of_find u.2⟩ : { u : AppUser // u.id = userId })) =
      some ⟨u, Table.key_of_find hu⟩ := by
    simp [hu]
  exact congrArg (fun user => Program.on (server P now drawn) (f user) t) hrow

theorem on_consumeRecoveryCode {codeHash : Bytes} {f : Bool → Program β} :
    Program.on (server P now drawn) (exec .auth (.consumeRecoveryCode userId codeHash) >>= f) t =
      if (t.db.codes.find (userId, codeHash)).any MfaRecoveryCode.live then
        Program.on (server P now drawn) (f true) { t with writes := t.writes ++ [.useCode userId codeHash now] }
      else Program.on (server P now drawn) (f false) t := by
  have hanswer : (server P now drawn).answer ⟨.auth, .consumeRecoveryCode userId codeHash⟩ t =
      if (t.db.codes.find (userId, codeHash)).any MfaRecoveryCode.live then
        (.ok true, { t with writes := t.writes ++ [.useCode userId codeHash now] })
      else (.ok false, t) := rfl
  rw [on_bind, on_exec, hanswer]
  split <;> rfl

theorem on_commit {f : Unit → Program β} : Program.on (server P now drawn) (exec .auth .commit >>= f) t =
    Program.on (server P now drawn) (f ()) { db := t.writes.foldl Db.write t.db } := rfl

end Reads

theorem on_unwrapUserKek (userId : Uuid) : Program.on (server P now drawn) (unwrapUserKek P userId) t =
    Outcome.ofExcept t ((userKek P t.db userId).elim (.error .internalError) .ok) := by
  rw [unwrapUserKek, on_userEnvelope, userKek]
  cases t.db.envelopes.find userId with
  | none => rfl
  | some envelope =>
    simp only [Option.bind_some]
    cases P.unwrapKey envelope.wrappedKek envelope.wrappingNonce <;> rfl

/-- What `_verify_current_password` answers on this database. -/
def passwordOf (P : Primitives) (d : Db) (userId : Uuid) (password : String) : Except Auth.Refusal Bytes :=
  match d.credentials.find userId with
  | none => .error .wrongCurrentPassword
  | some credential => Auth.verifyCurrentPassword P d credential password

theorem on_verifyCurrentPassword (userId : Uuid) (password : String) :
    Program.on (server P now drawn) (verifyCurrentPassword P userId password) t =
      Outcome.ofExcept t (passwordOf P t.db userId password) := by
  rw [verifyCurrentPassword, on_credentialFor, passwordOf]
  cases hfind : t.db.credentials.find userId with
  | none => rfl
  | some credential =>
    simp only [on_bind, on_unwrapUserKek, Auth.verifyCurrentPassword, Table.key_of_find hfind]
    cases userKek P t.db userId with
    | none => rfl
    | some kek =>
      simp only [Option.elim_some, Outcome.ofExcept_ok, Outcome.andThen_ok]
      cases (P.decrypt credential.passwordCiphertext kek .credential).bind (P.verify · password) with
      | none => rfl
      | some verified => cases verified <;> rfl

theorem on_decryptSeed {userId : Uuid} {row : UserMfa} {ciphertext : Bytes} (hrow : row.userId = userId)
    (hcipher : row.totpSecretCiphertext = some ciphertext) : Program.on (server P now drawn) (decryptSeed P userId ciphertext) t =
      Outcome.ofExcept t ((seed P t.db row).elim (.error .internalError) .ok) := by
  subst hrow
  simp only [decryptSeed, on_bind, on_unwrapUserKek, seed, hcipher, Option.bind_some]
  cases userKek P t.db row.userId with
  | none => rfl
  | some kek =>
    simp only [Option.elim_some, Outcome.ofExcept_ok, Outcome.andThen_ok, Option.bind_some]
    cases P.decrypt ciphertext kek .mfaSecret <;> rfl

end On

/-- The status of a request that ends in an error. -/
def errorStatus : Auth.Event → Option Nat
  | .refused r => some (authStatus r)
  | .loginFailed _ => some 401
  | .wrongCode _ => some 403
  | _ => none

/-! ### Agreement -/

/-- What a route does with a result of the service. -/
abbrev Rest (α β : Type) := α → Transaction → Outcome Transaction β

section Agreement
variable {P : Primitives} {s : Auth.Settings} {d : Db} {p q : Proc} {r : Db × Option Nat}

variable (P s d) in
/-- What the process leaves and answers by itself. -/
abbrev Agrees (p : Proc) (r : Db × Option Nat) : Prop := Leaves (authentication P s) .done errorStatus d p r

/-- A statement that commits nothing. -/
theorem Agrees.step {m : Step} (hgo : go P s d p = some m) (hop : m.op.effect Db.write d = d) (h : Agrees P s d m.next r) :
    Agrees P s d p r :=
  Leaves.step hgo hop h

theorem Agrees.refuse {refusal : Auth.Refusal} (h : r = (d, some (authStatus refusal))) : Agrees P s d (.refuse refusal) r :=
  ⟨_, _, .refl, rfl, fun _ => trivial, rfl, .refused refusal, List.mem_singleton_self _, h⟩

section Tail
variable {drawn : Uuid} {α β γ : Type} {request : Request} {written : List Write} {stmts todo rest : List Stmt}
  {event : Auth.Event} {a : α} {k : Rest β γ} {userId sessionId : Uuid}

theorem Agrees.done (h : r = (written.foldl Db.write d, errorStatus event)) :
    Agrees P s d (.tail ⟨request, written, [], event⟩) r :=
  ⟨_, _, .refl, rfl, fun _ => trivial, rfl, event, List.mem_singleton_self _, h⟩

/-- The route executes the next statements of the tail. -/
theorem Agrees.bind {x : Program α} {g : α → Program β} (hx : Program.on (server P request.now drawn) x ⟨d, written⟩ =
      Outcome.performs request.now ⟨d, written⟩ stmts a) (htodo : todo = stmts ++ rest) (hstamp : ∀ id, .stampSession id ∉ stmts)
    (h : ∀ ws, Agrees P s d (.tail ⟨request, ws, rest, event⟩)
      ((Program.on (server P request.now drawn) (g a) ⟨d, ws⟩).andThen k).report) :
    Agrees P s d (.tail ⟨request, written, todo, event⟩)
      ((Program.on (server P request.now drawn) (x >>= g) ⟨d, written⟩).andThen k).report := by
  have hcomes : Tail.Comes P s d rest ⟨request, written, stmts ++ rest, event⟩ _ := comes_performAll
  rw [on_bind, hx, htodo, Outcome.performs]
  cases hall : performAll d request.now written stmts with
  | ok ws =>
    rw [hall] at hcomes
    exact .trans hcomes (h ws)
  | error refusal =>
    rw [hall] at hcomes
    obtain rfl := performAll_eq_error hstamp hall
    exact .trans hcomes (Agrees.refuse rfl)

/-- One statement, which is no stamp. -/
theorem Agrees.execs {st : Statement} {reply : st.Reply} {stmt : Stmt} {g : st.Reply → Program β}
    (hserve : (server P request.now drawn).answer ⟨.auth, st⟩ ⟨d, written⟩ =
      Transaction.perform request.now ⟨d, written⟩ [stmt] reply)
    (hstamp : ∀ id, stmt ≠ .stampSession id)
    (h : ∀ ws, Agrees P s d (.tail ⟨request, ws, rest, event⟩)
      ((Program.on (server P request.now drawn) (g reply) ⟨d, ws⟩).andThen k).report) :
    Agrees P s d (.tail ⟨request, written, stmt :: rest, event⟩)
      ((Program.on (server P request.now drawn) (exec .auth st >>= g) ⟨d, written⟩).andThen k).report :=
  .bind (on_performs hserve) rfl (fun id hid => hstamp id (List.mem_singleton.1 hid).symm) h

theorem Agrees.commits {g : Unit → Program β} (h : ((Program.on (server P request.now drawn) (g ())
      { db := written.foldl Db.write d }).andThen k).report = (written.foldl Db.write d, errorStatus event)) :
    Agrees P s d (.tail ⟨request, written, [], event⟩)
      ((Program.on (server P request.now drawn) (exec .auth .commit >>= g) ⟨d, written⟩).andThen k).report :=
  .done h

/-- The stamp says whether the session was live. -/
theorem Agrees.stamps {g : Bool → Program β}
    (htrue : Agrees P s d (.tail ⟨request, written ++ [.stampSession sessionId request.now], rest, event⟩)
      ((Program.on (server P request.now drawn) (g true) ⟨d, written ++ [.stampSession sessionId request.now]⟩).andThen k).report)
    (hfalse : ((Program.on (server P request.now drawn) (g false) ⟨d, written⟩).andThen k).report = (d, some 401)) :
    Agrees P s d (.tail ⟨request, written, .stampSession sessionId :: rest, event⟩)
      ((Program.on (server P request.now drawn) (exec .auth (.stampSessionAssurance sessionId) >>= g) ⟨d, written⟩).andThen
        k).report := by
  have hcomes : Tail.Comes P s d rest ⟨request, written, [.stampSession sessionId] ++ rest, event⟩ _ := comes_performAll
  rw [on_bind, on_exec, server]
  dsimp only
  rw [serve, Transaction.perform, performAll_stamp]
  rw [performAll_stamp] at hcomes
  split at hcomes
  next hlive =>
    rw [if_pos hlive]
    exact .trans hcomes htrue
  next hlive =>
    rw [if_neg hlive]
    exact .trans hcomes (Agrees.refuse hfalse)

end Tail

end Agreement

/-! ### The service functions -/

section Service
variable {P : Primitives} {s : Auth.Settings} {d : Db} {c : Call} {drawn : Uuid} {current : Auth.AuthenticatedSession}
  {row : UserMfa} {α β : Type} {k : Rest α β} {userId sessionId : Uuid}

theorem stamp_notMem_updateMfa {change : MfaChange} (id : Uuid) : .stampSession id ∉ updateMfa userId change := by
  unfold updateMfa
  split <;> simp

theorem stamp_notMem_updateCredential {change : CredentialChange} (id : Uuid) :
    .stampSession id ∉ updateCredential userId change := by
  unfold updateCredential
  split <;> simp

/-- A wrong code commits its counters, and nothing of the rest is done. -/
theorem agrees_wrongCode : Agrees P s d (wrongCode s c current row)
    ((Program.on (server P c.now drawn) (refuseCode s row c.now : Program α) ⟨d, [.touch current.sessionId c.now]⟩).andThen
      k).report := by
  unfold wrongCode refuseCode
  cases recordMfaFailure s row c.now with
  | none => exact .refuse rfl
  | some change =>
    refine .bind (on_flushMfa row change) (List.append_nil _).symm stamp_notMem_updateMfa fun ws => ?_
    exact .commits rfl

theorem agrees_spendCode {code : Code} {g : Spent → Program α} (hrow : row.userId = current.userId)
    (hcipher : row.totpSecretCiphertext.isSome = true)
    (h : ∀ spent, Agrees P s d (accepted P c current row spent)
      ((Program.on (server P c.now drawn) (g spent) ⟨d, .touch current.sessionId c.now :: useWrites row spent c.now⟩).andThen
        k).report) :
    Agrees P s d (Auth.spendCode P s d c current row code)
      ((Program.on (server P c.now drawn) (spendCode P s row current.userId c.now code >>= g)
        ⟨d, [.touch current.sessionId c.now]⟩).andThen k).report := by
  rw [← hrow]
  obtain ⟨ciphertext, hcipher⟩ := Option.isSome_iff_exists.1 hcipher
  cases code with
  | totp code =>
    simp only [Auth.spendCode, spendCode, hcipher, on_bind, on_decryptSeed rfl hcipher, Outcome.andThen_andThen]
    cases seed P d row with
    | none => exact .refuse rfl
    | some secret =>
      simp only [Option.elim_some, Outcome.ofExcept_ok, Outcome.andThen_ok]
      cases P.matchingStep secret code (stepAt c.now) with
      | none => exact agrees_wrongCode
      | some step =>
        dsimp only
        split
        · exact agrees_wrongCode
        · exact h (.step step)
  | recovery code =>
    have hon : Program.on (server P c.now drawn) (spendCode P s row row.userId c.now (.recovery code))
        ⟨d, [.touch current.sessionId c.now]⟩ =
        if (d.codes.find (row.userId, P.hashRecoveryCode code)).any MfaRecoveryCode.live then
          (.ok (.recovery (P.hashRecoveryCode code)),
            ⟨d, [.touch current.sessionId c.now, .useCode row.userId (P.hashRecoveryCode code) c.now]⟩)
        else Program.on (server P c.now drawn) (refuseCode s row c.now) ⟨d, [.touch current.sessionId c.now]⟩ :=
      on_consumeRecoveryCode
    rw [on_bind, hon]
    by_cases hlive : (d.codes.find (row.userId, P.hashRecoveryCode code)).any MfaRecoveryCode.live = true
    · rw [if_pos hlive]
      exact .step (if_pos hlive) rfl (h (.recovery (P.hashRecoveryCode code)))
    · rw [if_neg hlive, Outcome.andThen_andThen]
      exact .step (if_neg hlive) rfl agrees_wrongCode

end Service

section Operations
variable {P : Primitives} {s : Auth.Settings} {d : Db} {c : Call} {current : Auth.AuthenticatedSession} {opens : NewSession}
  {drawn : Uuid} {α β : Type} {k : Rest α β} {u : AppUser} {event : Auth.Event} {written : List Write}
  {request : Request} {password : String} {codes : RecoveryCodes} {code : Code}

/-- After the commit of the service the rest of the route goes through. -/
def Finishes (d : Db) (k : Rest α β) : Prop :=
  ∀ a (ws : List Write), (k a { db := ws.foldl Db.write d }).report = (ws.foldl Db.write d, none)

theorem on_openSession {userId : Uuid} {assuredAt : Option Time} {now : Time} {t : Transaction} :
    Program.on (server P now opens.id) (openSession P userId opens assuredAt) t =
      Outcome.performs now t [.openSession (opens.row P userId now assuredAt)] (opens.row P userId now assuredAt) :=
  on_performs rfl

theorem on_requireConfirmed {row : Option UserMfa} {now : Time} {t : Transaction} :
    Program.on (server P now drawn) (requireConfirmed row) t =
    match row with
    | none => (.error (.auth .mfaNotEnrolled), t)
    | some row =>
      if row.confirmedAt.isNone ∨ row.totpSecretCiphertext.isNone then (.error (.auth .mfaNotEnrolled), t) else (.ok row, t) := by
  cases row with
  | none => rfl
  | some row =>
    simp only [requireConfirmed, Bool.or_eq_true]
    split <;> rfl

theorem on_confirmedMfa {userId : Uuid} {forUpdate : Bool} {now : Time} {t : Transaction} :
    Program.on (server P now drawn) (confirmedMfa userId forUpdate) t =
      Program.on (server P now drawn) (requireConfirmed (t.db.mfa.find userId)) t := by
  cases forUpdate <;> rfl

theorem on_requireMfaUnlocked {row : UserMfa} {observedAt now : Time} {t : Transaction} :
    Program.on (server P now drawn) (requireMfaUnlocked row observedAt) t =
      if mfaLocked row observedAt then (.error (.auth .mfaLocked), t) else (.ok (), t) := by
  unfold requireMfaUnlocked
  split <;> rfl

/-- The rotation of the sessions, which ends the request. -/
theorem agrees_rotateSessions {k : Rest LoginResult β} {userId sessionId : Uuid} (hu : d.users.find userId = some u)
    (hk : Finishes d k) (hevent : errorStatus event = none) :
    Agrees P s d (.tail ⟨request, written, [.revokeOtherSessions userId sessionId, .revokeSession sessionId,
        .openSession (opens.row P userId request.now)], event⟩)
      ((Program.on (server P request.now opens.id) (rotateSessions P userId sessionId opens) ⟨d, written⟩).andThen k).report := by
  refine .execs rfl (by rintro id ⟨⟩) fun ws => .execs rfl (by rintro id ⟨⟩) fun ws => ?_
  rw [on_userById (t := ⟨d, ws⟩) hu]
  refine .bind on_openSession rfl (by simp) fun ws => .commits ?_
  rw [hevent]
  exact hk ..

theorem agrees_credential {g : Bytes → Program α} (h : ∀ credential kek, d.credentials.find current.userId = some credential →
      Agrees P s d (onPassword P c current credential kek)
        ((Program.on (server P c.now drawn) (g kek) ⟨d, written⟩).andThen k).report) :
    Agrees P s d (.credential c current password)
      ((Program.on (server P c.now drawn) (verifyCurrentPassword P current.userId password >>= g) ⟨d, written⟩).andThen
        k).report := by
  refine .step rfl rfl ?_
  rw [on_bind, on_verifyCurrentPassword, passwordOf]
  cases hfind : d.credentials.find current.userId with
  | none => exact .refuse rfl
  | some credential =>
    dsimp only
    cases Auth.verifyCurrentPassword P d credential password with
    | error r => exact .refuse rfl
    | ok kek => exact h credential kek hfind

theorem agrees_logout {k : Rest Unit β} (hk : Finishes d k) :
    Agrees P s d (touched c current [] [.revokeSession current.sessionId] (.loggedOut current.sessionId))
      ((Program.on (server P c.now drawn) (logout current.sessionId) ⟨d, [.touch current.sessionId c.now]⟩).andThen k).report :=
  .execs rfl (by rintro id ⟨⟩) fun ws => .done (hk () ws)

theorem agrees_changePassword {k : Rest LoginResult β} {newPassword : String} {salt nonce : Bytes}
    (hop : c.operation = .changePassword password newPassword salt nonce opens) (hu : d.users.find current.userId = some u)
    (hk : Finishes d k) : Agrees P s d (.credential c current password)
      ((Program.on (server P c.now opens.id)
        (changePassword P current.userId current.sessionId password newPassword salt nonce opens c.now)
        ⟨d, [.touch current.sessionId c.now]⟩).andThen k).report := by
  refine agrees_credential fun credential kek hcredential => ?_
  rw [on_credentialFor]
  dsimp only
  rw [hcredential]
  rw [onPassword, hop]
  refine .bind (on_flushCredential credential _) ?_ stamp_notMem_updateCredential fun ws => agrees_rotateSessions hu hk rfl
  rw [show credential.userId = current.userId from Table.key_of_find hcredential]
  rfl

theorem agrees_enrollMfa {k : Rest Unit β} {secret nonce : Bytes}
    (hop : c.operation = .enrollMfa password secret nonce) (hu : d.users.find current.userId = some u)
    (hk : Finishes d k) : Agrees P s d (.credential c current password)
      ((Program.on (server P c.now drawn) (enrollMfa P current.userId password secret nonce)
        ⟨d, [.touch current.sessionId c.now]⟩).andThen k).report := by
  refine agrees_credential fun credential kek _ => ?_
  rw [onPassword, hop, on_mfaFor]
  refine .step rfl rfl ?_
  rw [hop]
  dsimp only
  cases hfind : d.mfa.find current.userId with
  | none =>
    refine .execs rfl (by rintro id ⟨⟩) fun ws => ?_
    rw [on_userById (t := ⟨d, ws⟩) hu]
    exact .done (hk () ws)
  | some row =>
    rw [enroll, Option.any_some]
    split
    · exact .refuse rfl
    · rw [← show row.userId = current.userId from Table.key_of_find hfind] at hu ⊢
      refine .bind (on_flushMfa row _) (List.append_nil _).symm stamp_notMem_updateMfa fun ws => ?_
      rw [on_userById (t := ⟨d, ws⟩) hu]
      exact .done (hk () ws)

theorem agrees_replaceRecoveryCodes {k : Rest Unit β} {userId : Uuid} (hk : Finishes d k)
    (hevent : errorStatus event = none) :
    Agrees P s d (.tail ⟨request, written, .burnRecoveryCodes userId :: insertRecoveryCodes P userId codes, event⟩)
      ((Program.on (server P request.now drawn) (replaceRecoveryCodes P userId codes) ⟨d, written⟩).andThen k).report := by
  have hcodes : insertRecoveryCodes P userId codes =
      (codes.codes.map P.hashRecoveryCode).map (fun h => .insertCode ⟨userId, h, none, none⟩) ++ [] := by
    rw [List.append_nil, List.map_map]
    rfl
  refine .execs rfl (by rintro id ⟨⟩) fun ws => .bind (on_performs rfl) hcodes (by simp) fun ws => .done ?_
  rw [hevent]
  exact hk () ws

theorem agrees_regenerateRecoveryCodes {k : Rest Unit β}
    (hop : c.operation = .regenerateRecoveryCodes password codes) (hk : Finishes d k) :
    Agrees P s d (.credential c current password)
      ((Program.on (server P c.now drawn) (regenerateRecoveryCodes P current.userId password codes)
        ⟨d, [.touch current.sessionId c.now]⟩).andThen k).report := by
  refine agrees_credential fun credential kek _ => ?_
  rw [onPassword, hop]
  refine .step rfl rfl ?_
  rw [hop, on_bind, on_confirmedMfa, on_requireConfirmed]
  dsimp only
  cases d.mfa.find current.userId with
  | none => exact .refuse rfl
  | some row =>
    dsimp only
    split
    · exact .refuse rfl
    · exact agrees_replaceRecoveryCodes hk rfl

/-- The confirmed factor, locked. -/
theorem agrees_factor {g : UserMfa → Time → Program α} {f : UserMfa → Proc}
    (hnext : ∀ row, onFactor P s d c current row =
      if row.confirmedAt.isNone ∨ row.totpSecretCiphertext.isNone then .refuse .mfaNotEnrolled
      else if mfaLocked row c.now then .refuse .mfaLocked
      else f row)
    (h : ∀ row, d.mfa.find current.userId = some row → row.totpSecretCiphertext.isSome = true →
      Agrees P s d (f row) ((Program.on (server P c.now drawn) (g row c.now) ⟨d, written⟩).andThen k).report) :
    Agrees P s d (.factor c current)
      ((Program.on (server P c.now drawn) (do
        let row ← confirmedMfa current.userId true
        let observedAt ← exec .auth .dbNow
        requireMfaUnlocked row observedAt
        g row observedAt) ⟨d, written⟩).andThen k).report := by
  rw [on_bind, on_confirmedMfa, on_requireConfirmed]
  cases hfind : d.mfa.find current.userId with
  | none =>
    refine .step (m := ⟨.read, .refuse .mfaNotEnrolled, []⟩) ?_ rfl (.refuse rfl)
    rw [go, hfind]
  | some row =>
    refine .step (m := ⟨.lock [.mfa current.userId], onFactor P s d c current row, []⟩) ?_ rfl ?_
    · rw [go, hfind]
    dsimp only
    rw [hnext]
    split
    · exact .refuse rfl
    next hconfirmed =>
      simp only [Outcome.andThen_ok]
      rw [on_dbNow, on_bind, on_requireMfaUnlocked]
      split
      · exact .refuse rfl
      · refine h row hfind ?_
        rw [Option.isSome_iff_ne_none, ne_eq, ← Option.isNone_iff_eq_none]
        exact fun hnone => hconfirmed (.inr hnone)

theorem agrees_verifyMfa {k : Rest (Option LoginResult) β}
    (hop : c.operation = .verifyMfa code opens) (hu : d.users.find current.userId = some u) (hk : Finishes d k) :
    Agrees P s d (.factor c current)
      ((Program.on (server P c.now opens.id) (verifyMfa P s current.userId current.sessionId
        (current.mfaEnrolled && current.mfaVerifiedAt.isNone) code opens) ⟨d, [.touch current.sessionId c.now]⟩).andThen
          k).report := by
  rw [verifyMfa]
  refine agrees_factor (f := fun row => Auth.spendCode P s d c current row code) (fun row => by rw [onFactor, hop])
    fun row hrow hcipher => ?_
  refine agrees_spendCode (Table.key_of_find hrow) hcipher fun spent => ?_
  rw [accepted, hop]
  dsimp only
  by_cases hpending : (current.mfaEnrolled && current.mfaVerifiedAt.isNone) = true
  · rw [if_pos hpending, hpending]
    refine .bind (on_flushMfa row _) rfl stamp_notMem_updateMfa fun ws => .execs rfl (by rintro id ⟨⟩) fun ws => ?_
    rw [on_userById (t := ⟨d, ws⟩) hu]
    refine .bind on_openSession rfl (by simp) fun ws => .commits ?_
    exact hk ..
  · rw [if_neg hpending, eq_false_of_ne_true hpending]
    refine .bind (on_flushMfa row _) rfl stamp_notMem_updateMfa fun ws => .stamps ?_ rfl
    exact .commits (hk ..)

theorem agrees_disableMfa {k : Rest LoginResult β}
    (hop : c.operation = .disableMfa password code opens) (hu : d.users.find current.userId = some u) (hk : Finishes d k) :
    Agrees P s d (.factor c current)
      ((Program.on (server P c.now opens.id) (disableMfa P s current.userId current.sessionId password code opens)
        ⟨d, [.touch current.sessionId c.now]⟩).andThen k).report := by
  rw [disableMfa]
  refine agrees_factor (f := fun row => .disableCredential c current row) (fun row => by rw [onFactor, hop])
    fun row hrow hcipher => ?_
  refine .step rfl rfl ?_
  rw [hop, on_bind, on_verifyCurrentPassword, passwordOf]
  dsimp only
  cases d.credentials.find current.userId with
  | none => exact .refuse rfl
  | some credential =>
    dsimp only
    cases Auth.verifyCurrentPassword P d credential password with
    | error r => exact .refuse rfl
    | ok kek =>
      refine agrees_spendCode (Table.key_of_find hrow) hcipher fun spent => ?_
      rw [accepted, hop]
      refine .bind (on_flushMfa row _) rfl stamp_notMem_updateMfa fun ws => .execs rfl (by rintro id ⟨⟩) fun ws => ?_
      exact agrees_rotateSessions hu hk rfl

theorem agrees_confirmMfa {k : Rest Unit β} {digits : String}
    (hop : c.operation = .confirmMfa digits codes) (hk : Finishes d k) :
    Agrees P s d (.factor c current)
      ((Program.on (server P c.now drawn) (confirmMfa P s current.userId current.sessionId digits codes)
        ⟨d, [.touch current.sessionId c.now]⟩).andThen k).report := by
  rw [confirmMfa, on_mfaForUpdate]
  dsimp only
  cases hfind : d.mfa.find current.userId with
  | none =>
    refine .step (m := ⟨.read, .refuse .mfaNotEnrolled, []⟩) ?_ rfl (.refuse rfl)
    rw [go, hfind]
  | some row =>
    refine .step (m := ⟨.lock [.mfa current.userId], onFactor P s d c current row, []⟩) ?_ rfl ?_
    · rw [go, hfind]
    dsimp only
    rw [onFactor, hop]
    dsimp only
    cases hcipher : row.totpSecretCiphertext with
    | none => exact .refuse rfl
    | some ciphertext =>
      rw [Option.isNone_some, if_neg Bool.false_ne_true]
      dsimp only
      split
      · exact .refuse rfl
      rw [on_dbNow, on_bind, on_requireMfaUnlocked]
      split
      · exact .refuse rfl
      simp only [Outcome.andThen_ok]
      rw [on_bind, on_decryptSeed (Table.key_of_find hfind) hcipher, confirm]
      cases seed P d row with
      | none => exact .refuse rfl
      | some secret =>
        simp only [Option.elim_some, Outcome.ofExcept_ok, Outcome.andThen_ok]
        cases P.matchingStep secret digits (stepAt c.now) with
        | none => exact agrees_wrongCode
        | some step =>
          dsimp only
          rw [touched, List.append_assoc]
          refine .bind (on_flushMfa row _) rfl stamp_notMem_updateMfa fun ws => .stamps ?_ rfl
          refine .execs rfl (by rintro id ⟨⟩) fun ws => ?_
          exact agrees_replaceRecoveryCodes hk rfl

end Operations

/-! ### The routes -/

section Routes
variable {P : Primitives} {s : Auth.Settings} {d : Db} {c : Call} {drawn : Uuid} {α β : Type}

theorem on_setUserContext {now : Time} {t : Transaction} {userId : Uuid} {f : Unit → Program β} :
    Program.on (server P now drawn) (exec .auth (.setUserContext userId) >>= f) t =
      Program.on (server P now drawn) (f ()) t := rfl

theorem on_sessionBootstrap {now : Time} {t : Transaction} {tokenHash : Bytes} {f : Option SessionRow → Program β} :
    Program.on (server P now drawn) (exec .auth (.sessionBootstrap tokenHash) >>= f) t =
      Program.on (server P now drawn) (f ((sessionBootstrap t.db tokenHash).map fun x =>
        ⟨x.1.id, x.1.userId, x.2.organizationId, x.1.createdAt, x.1.lastSeenAt, x.1.revokedAt, x.2.disabledAt, now⟩)) t := rfl

theorem on_mfaState {now : Time} {t : Transaction} {userId sessionId : Uuid} {x : UserSession}
    (hx : t.db.sessions.find sessionId = some x) {f : MfaState → Program β} :
    Program.on (server P now drawn) (exec .auth (.mfaState userId sessionId) >>= f) t =
      Program.on (server P now drawn) (f ⟨x.mfaVerifiedAt, mfaEnrolled t.db userId, .member⟩) t := by
  have hanswer : (server P now drawn).answer ⟨.auth, .mfaState userId sessionId⟩ t =
      ((match t.db.sessions.find sessionId with
        | none => .error .other
        | some x => .ok ⟨x.mfaVerifiedAt, mfaEnrolled t.db userId, .member⟩), t) := rfl
  rw [on_bind, on_exec, hanswer, hx]
  rfl

theorem find_of_bootstrap {tokenHash : Bytes} {x : UserSession} {u : AppUser} (h : sessionBootstrap d tokenHash = some (x, u)) :
    d.sessions.find x.id = some x ∧ d.users.find x.userId = some u := by
  obtain ⟨y, hy, hu⟩ := Option.bind_eq_some_iff.1 h
  obtain ⟨v, hv, hpair⟩ := Option.map_eq_some_iff.1 hu
  obtain ⟨rfl, rfl⟩ := Prod.mk.inj hpair
  exact ⟨Table.find_of_mem (List.mem_of_find?_eq_some hy), hv⟩

/-- Behind the cookie the request enters the service on the session that the policy resolves. -/
theorem agrees_session {allowPending : Bool} {handler : AuthenticatedSession → Program Unit}
    (hallow : c.operation.allowPending = allowPending)
    (h : ∀ (current : AuthenticatedSession) u x,
      d.users.find current.userId = some u → d.sessions.find current.sessionId = some x →
      Agrees P s d (enter s c current.toAuth)
        (Program.on (server P c.now drawn) (handler current) ⟨d, [.touch current.sessionId c.now]⟩).report) :
    Agrees P s d (.bootstrap c)
      (Program.on (server P c.now drawn) (behindCookie P s c.token allowPending handler) ⟨d, []⟩).report := by
  rw [behindCookie, report_unitOfWork, on_bind, resolveSession]
  refine .step rfl rfl ?_
  dsimp only
  by_cases htoken : c.token = ""
  · rw [if_pos htoken, if_pos htoken]
    exact .refuse rfl
  rw [if_neg htoken, if_neg htoken]
  by_cases hascii : (!isAscii c.token) = true
  · rw [if_pos hascii, if_pos hascii]
    exact .refuse rfl
  rw [if_neg hascii, if_neg hascii, on_sessionBootstrap]
  dsimp only
  cases hboot : sessionBootstrap d (P.hashSessionToken c.token) with
  | none => exact .refuse rfl
  | some y =>
    obtain ⟨x, u⟩ := y
    obtain ⟨hx, hu⟩ := find_of_bootstrap hboot
    dsimp only [Option.map_some]
    by_cases hrevoked : (x.revokedAt.isSome || u.disabledAt.isSome) = true
    · rw [if_pos hrevoked, if_pos (or_assoc.1 (.inl (Bool.or_eq_true_iff.1 hrevoked)))]
      exact .refuse rfl
    rw [if_neg hrevoked]
    by_cases hexpired : expired s x c.now = true
    · rw [if_pos (of_decide_eq_true hexpired), if_pos (.inr (.inr hexpired))]
      exact .refuse rfl
    have hlive : ¬ (x.revokedAt.isSome = true ∨ u.disabledAt.isSome = true ∨ expired s x c.now = true) := by
      rw [← or_assoc, ← Bool.or_eq_true]
      exact not_or.2 ⟨hrevoked, hexpired⟩
    rw [if_neg fun h => hexpired (decide_eq_true h), if_neg hlive]
    refine .step rfl rfl ?_
    rw [hx]
    rw [on_setUserContext, on_mfaState hx, ← hallow]
    dsimp only
    split
    · exact .refuse rfl
    · exact .step rfl rfl
        (h ⟨x.id, x.userId, u.organizationId, mfaEnrolled d x.userId, x.mfaVerifiedAt, c.now, .member⟩ u x hu hx)

/-- The assurance gate before the service. -/
theorem agrees_assured {current : AuthenticatedSession} {p : Proc} {written : List Write} {g : Program Unit}
    (h : Agrees P s d p (Program.on (server P c.now drawn) g ⟨d, written⟩).report) :
    Agrees P s d ((Auth.requireCurrentMfaAssurance s current.toAuth).elim p .refuse)
      (Program.on (server P c.now drawn) (requireCurrentMfaAssurance s current >>= fun _ => g) ⟨d, written⟩).report := by
  rw [on_bind, requireCurrentMfaAssurance, Auth.requireCurrentMfaAssurance]
  split_ifs
  · exact .refuse rfl
  · exact h
  · exact .refuse rfl

theorem on_sessionById {now : Time} {t : Transaction} {sessionId : Uuid} {f : Option UserSession → Program β} :
    Program.on (server P now drawn) (exec .auth (.sessionById sessionId) >>= f) t =
      Program.on (server P now drawn) (f (t.db.sessions.find sessionId)) t := rfl

theorem report_sessionInfo {now : Time} {t : Transaction} {result : LoginResult} :
    (Program.on (server P now drawn) (sessionInfo result) t).report = (t.writes.foldl Db.write t.db, none) := by
  rw [sessionInfo, on_bind, mfaStatus, on_mfaFor]
  split <;> rfl

/-- After a step-up the route reads the session that it has stamped. -/
theorem finishes_sessionSnapshot {now : Time} {u : AppUser} {x : UserSession} (hu : d.users.find u.id = some u)
    (hx : d.sessions.find x.id = some x) (ws : List Write) :
    (Program.on (server P now drawn) (sessionSnapshot u.id x.id >>= sessionInfo) { db := ws.foldl Db.write d }).report =
      (ws.foldl Db.write d, none) := by
  obtain ⟨x', hx', -⟩ := times_foldl ws hx
  have hu' : (ws.foldl Db.write d).users.find u.id = some u := by rw [users_foldl, hu]
  rw [on_bind, sessionSnapshot, on_userById hu', on_sessionById, hx']
  exact report_sessionInfo

end Routes

section Routes
variable {P : Primitives} {s : Auth.Settings} {d : Db} {c : Call} {drawn : Uuid}

theorem agrees_route (hdrawn : ∀ opens ∈ c.operation.opens, opens.id = drawn) : Agrees P s d (.bootstrap c)
    (Program.on (server P c.now drawn) ((AuthRoute.of P c.now c.operation).run P s c.token true) ⟨d, []⟩).report := by
  obtain ⟨token, now, operation⟩ := c
  cases operation with
  | logout =>
    refine agrees_session rfl fun current u x _ _ => ?_
    rw [← Outcome.andThen_pure (Program.on ..)]
    exact agrees_logout fun _ _ => rfl
  | changePassword currentPassword newPassword salt nonce opens =>
    obtain rfl := hdrawn opens rfl
    refine agrees_session rfl fun current u x hu _ => ?_
    rw [on_bind, report_answered]
    exact agrees_changePassword rfl hu fun _ _ => rfl
  | enrollMfa password secret nonce =>
    refine agrees_session rfl fun current u x hu _ => ?_
    rw [← Outcome.andThen_pure (Program.on ..), report_answered]
    exact agrees_enrollMfa rfl hu fun _ _ => rfl
  | confirmMfa code codes =>
    refine agrees_session rfl fun current u x _ _ => ?_
    rw [← Outcome.andThen_pure (Program.on ..), report_answered]
    exact agrees_confirmMfa rfl fun _ _ => rfl
  | verifyMfa code opens =>
    obtain rfl := hdrawn opens rfl
    refine agrees_session rfl fun current u x hu hx => ?_
    rw [on_bind, report_answered]
    refine agrees_verifyMfa rfl hu fun result ws => ?_
    rw [on_setUserContext]
    cases result with
    | some result => exact report_sessionInfo
    | none =>
      have hkeys : u.id = current.userId ∧ x.id = current.sessionId := ⟨Table.key_of_find hu, Table.key_of_find hx⟩
      rw [← hkeys.1] at hu ⊢
      rw [← hkeys.2] at hx ⊢
      exact finishes_sessionSnapshot hu hx ws
  | disableMfa password code opens =>
    obtain rfl := hdrawn opens rfl
    refine agrees_session rfl fun current u x hu _ => agrees_assured ?_
    rw [on_bind, report_answered]
    exact agrees_disableMfa rfl hu fun _ _ => rfl
  | regenerateRecoveryCodes password codes =>
    refine agrees_session rfl fun current u x _ _ => agrees_assured ?_
    rw [← Outcome.andThen_pure (Program.on ..), report_answered]
    exact agrees_regenerateRecoveryCodes rfl fun _ _ => rfl

end Routes

section Login
variable {P : Primitives} {s : Auth.Settings} {d : Db} {c : LoginCall} {β : Type}

theorem on_loginLookup {now : Time} {drawn : Uuid} {t : Transaction} {email : String} {f : Option LoginRow → Program β} :
    Program.on (server P now drawn) (exec .auth (.loginLookup email) >>= f) t =
      Program.on (server P now drawn) (f ((loginLookup P t.db email).map fun row =>
        ⟨row.userId, row.disabledAt, row.passwordCiphertext, row.lockedUntil, now⟩)) t := rfl

theorem find_of_lookup {email : String} {row : Auth.LoginRow} (h : loginLookup P d email = some row) :
    ∃ u, d.users.find row.userId = some u := by
  obtain ⟨u, hu, hcredential⟩ := Option.bind_eq_some_iff.1 h
  obtain ⟨credential, -, rfl⟩ := Option.map_eq_some_iff.1 hcredential
  exact ⟨u, Table.find_of_mem (List.mem_of_find?_eq_some hu)⟩

/-- A wrong password counts, and the login is refused all the same. -/
theorem agrees_recordFailure {drawn userId : Uuid} {k : Rest LoginResult β} :
    Agrees P s d (.recordFailure c userId)
      ((Program.on (server P c.now drawn) (recordFailure s userId c.now >>= fun _ => throw (.auth .invalidCredentials))
        ⟨d, []⟩).andThen k).report := by
  refine .step rfl rfl ?_
  rw [on_bind, recordFailure, on_credentialFor, Outcome.andThen_andThen]
  dsimp only
  cases hfind : d.credentials.find userId with
  | none => exact .refuse rfl
  | some credential =>
    rw [← show credential.userId = userId from Table.key_of_find hfind]
    refine .bind (on_flushCredential credential _) (List.append_nil _).symm stamp_notMem_updateCredential fun ws => ?_
    exact .done rfl

/-- What the login writes to the credential that it reads. -/
theorem on_refreshCredential {now : Time} {drawn userId : Uuid} {kek stored : Bytes} {t : Transaction} :
    Program.on (server P now drawn) (refreshCredential P c kek stored (d.credentials.find userId)) t =
      Outcome.performs now t (match d.credentials.find userId with
        | none => []
        | some row => updateCredential userId (row.flush (loginChange P c kek stored row))) () := by
  cases hfind : d.credentials.find userId with
  | none => rfl
  | some credential =>
    rw [← show credential.userId = userId from Table.key_of_find hfind]
    exact on_flushCredential credential _

theorem agrees_login {token : String} : Agrees P s d (.login c)
    (Program.on (server P c.now c.opens.id) ((AuthRoute.login c).run P s token true) ⟨d, []⟩).report := by
  have hroute : Program.on (server P c.now c.opens.id) ((AuthRoute.login c).run P s token true) ⟨d, []⟩ =
      Program.on (server P c.now c.opens.id) (unitOfWork .auth do
        let result ← answered (login P s c)
        exec .auth (.setUserContext result.user.id)
        sessionInfo result) ⟨d, []⟩ := rfl
  rw [hroute, report_unitOfWork, on_bind, report_answered, login, on_loginLookup]
  refine .step rfl rfl ?_
  dsimp only
  cases hlookup : loginLookup P d (P.lower c.email) with
  | none => exact .refuse rfl
  | some row =>
    obtain ⟨u, hu⟩ := find_of_lookup hlookup
    dsimp only [Option.map_some]
    by_cases hdisabled : row.disabledAt.isSome = true
    · rw [if_pos hdisabled, if_pos hdisabled]
      exact .refuse rfl
    rw [if_neg hdisabled, if_neg hdisabled]
    by_cases hlocked : (row.lockedUntil.any fun t => decide (c.now < t)) = true
    · rw [if_pos hlocked, if_pos hlocked]
      exact .refuse rfl
    rw [if_neg hlocked, if_neg hlocked, on_setUserContext, on_bind, on_unwrapUserKek]
    cases userKek P d row.userId with
    | none => exact .refuse rfl
    | some kek =>
      simp only [Option.elim_some, Outcome.ofExcept_ok, Outcome.andThen_ok]
      cases P.decrypt row.passwordCiphertext kek .credential with
      | none => exact .refuse rfl
      | some stored =>
        dsimp only
        cases P.verify stored c.password with
        | none => exact .refuse rfl
        | some verified =>
          cases verified with
          | false => exact agrees_recordFailure
          | true =>
            refine .step rfl rfl ?_
            rw [on_credentialFor]
            dsimp only
            refine .bind on_refreshCredential rfl ?_ fun ws => ?_
            · intro id
              split
              · exact List.not_mem_nil
              · exact stamp_notMem_updateCredential id
            rw [on_userById (t := ⟨d, ws⟩) hu]
            refine .bind on_openSession rfl (by simp) fun ws => .commits ?_
            exact report_sessionInfo

end Login

/-! ### Requests that run by themselves -/

section Runs
variable {P : Primitives} {s : Auth.Settings} {d : Db} {request : Request} {answer : Db × Option Nat} {v w : Auth.Requests Unit}

/-- By itself the request comes to its end, and there it leaves this database and has answered with this status. -/
def Answers (P : Primitives) (s : Auth.Settings) (d : Db) (request : Request) (answer : Db × Option Nat) : Prop :=
  (∃ w, Alone P s d request w ∧ w.proc () = .done) ∧
    ∀ w, Alone P s d request w → w.proc () = .done → ∃ e ∈ w.trace, answer = (w.db, errorStatus e)

theorem Agrees.answers (h : Agrees P s d request.entry answer) : Answers P s d request answer := by
  obtain ⟨⟨w, hrun, hdone⟩, hall⟩ := Leaves.run (w := alone d request) h (fun _ => rfl) fun _ => rfl
  exact ⟨⟨w, alone_iff.2 hrun, hdone⟩, fun v hv => hall v (alone_iff.1 hv)⟩

/-- A route behind the cookie is the request of its operation. -/
theorem route_answers (c : Call) (drawn : Uuid) (hdrawn : ∀ opens ∈ c.operation.opens, opens.id = drawn) :
    Answers P s d (.call c)
      (Program.on (server P c.now drawn) ((AuthRoute.of P c.now c.operation).run P s c.token true) ⟨d, []⟩).report :=
  (agrees_route hdrawn).answers

theorem login_answers (c : LoginCall) (token : String) : Answers P s d (.login c)
    (Program.on (server P c.now c.opens.id) ((AuthRoute.login c).run P s token true) ⟨d, []⟩).report :=
  agrees_login.answers

end Runs

end Requests

end TestingPlatform.Api
