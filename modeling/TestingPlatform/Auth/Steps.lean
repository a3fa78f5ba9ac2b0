import TestingPlatform.Auth.Locks

/-!
# What one statement leads to

The control states of a request in the order it goes through them: `Leads` has one case for each way from one state to
the next, and `Begins` one for each decision, with the statements that are left to be done and what the decision rests
on. What a request keeps from its first statement to its commit is proved by cases on these two.
-/

namespace TestingPlatform.Auth

open ReadCommitted

/-- The request behind the cookie and the session it was let in with, from its touch to its decision. -/
def Proc.call : Proc → Option (Call × AuthenticatedSession)
  | .credential c current _ | .enrollRow c current _ | .regenerateRow c current | .factor c current
  | .disableCredential c current _ | .consume c current _ _ => some (c, current)
  | _ => none

/-- The tail of a request behind the cookie. -/
def Call.tail (c : Call) (current : AuthenticatedSession) (writes : List Write) (todo : List Stmt) (event : Event) : Tail :=
  { request := .call c, writes := .touch current.sessionId c.now :: writes, todo, event }

/-- What a request has found that tries a code. -/
structure Tries (P : Primitives) (d : Db) (c : Call) (current : AuthenticatedSession) (row : UserMfa) : Prop where
  calls : Calls P d c current.sessionId current.userId
  user : row.userId = current.userId
  stored : d.mfa.find row.userId = some row
  unlocked : mfaLocked row c.now = false

theorem Trying.tries {P : Primitives} {held : Lock → Prop} {d : Db} {c : Call} {current : AuthenticatedSession} {row : UserMfa}
    (h : Trying P held d c current row) : Tries P d c current row :=
  ⟨h.calls, h.user, h.stored, h.unlocked⟩

/-- The tail with which a request decides. -/
inductive Begins (P : Primitives) (s : Settings) (d : Db) : Proc → Tail → Prop
  | loginFailed {c : LoginCall} {u : Uuid} {row : UserCredential} (hrow : d.credentials.find u = some row) :
      Begins P s d (.recordFailure c u)
        { request := .login c, writes := [], event := .loginFailed u, todo := updateCredential u (row.flush (recordFailure s row c.now)) }
  | loggedIn {c : LoginCall} {u : Uuid} {kek stored : Bytes} :
      Begins P s d (.loginCredential c u kek stored)
        { request := .login c, writes := [], event := .loggedIn u c.password c.opens.id,
          todo := ((d.credentials.find u).elim [] fun row => updateCredential u (row.flush (loginChange P c kek stored row))) ++
            [.openSession (c.opens.row P u c.now)] }
  | loggedOut {c : Call} {current : AuthenticatedSession} (hcalls : Calls P d c current.sessionId current.userId) :
      Begins P s d (.touch c current) (c.tail current [] [.revokeSession current.sessionId] (.loggedOut current.sessionId))
  | passwordChanged {c : Call} {current : AuthenticatedSession} {password newPassword : String} {salt nonce kek : Bytes} {opens : NewSession}
      {credential : UserCredential} (hcalls : Calls P d c current.sessionId current.userId)
      (hop : c.operation = .changePassword password newPassword salt nonce opens)
      (hcredential : d.credentials.find current.userId = some credential) (hverify : verifyCurrentPassword P d credential password = .ok kek) :
      Begins P s d (.credential c current password)
        (c.tail current [] (updateCredential current.userId (credential.flush
            { passwordCiphertext := some (encryptPassword P salt nonce newPassword kek), passwordUpdatedAt := some c.now }) ++
          [.revokeOtherSessions current.userId current.sessionId, .revokeSession current.sessionId,
            .openSession (opens.row P current.userId c.now)]) (.passwordChanged current.userId password newPassword opens.id))
  | enrolled {c : Call} {current : AuthenticatedSession} {kek secret : Bytes} {row : UserMfa} (hnone : d.mfa.find current.userId = none) :
      Begins P s d (.enrollRow c current kek) (c.tail current [] [.insertMfa row] (.enrolled current.userId secret))
  | reenrolled {c : Call} {current : AuthenticatedSession} {kek secret : Bytes} {row : UserMfa} {change : MfaChange}
      (hrow : d.mfa.find current.userId = some row) (hpending : row.confirmedAt = none) :
      Begins P s d (.enrollRow c current kek) (c.tail current [] (updateMfa current.userId change) (.enrolled current.userId secret))
  | confirmed {c : Call} {current : AuthenticatedSession} {row : UserMfa} {codes : RecoveryCodes} {secret : Bytes} {step : Int}
      (hcalls : Calls P d c current.sessionId current.userId) (huser : row.userId = current.userId) :
      Begins P s d (.factor c current)
        (c.tail current [] (updateMfa row.userId (row.flush (confirmChange step c.now)) ++
            [.stampSession current.sessionId, .revokeOtherSessions current.userId current.sessionId,
              .burnRecoveryCodes current.userId] ++ insertRecoveryCodes P current.userId codes) (.confirmed row.userId secret step))
  | wrongCode {p : Proc} {c : Call} {current : AuthenticatedSession} {row : UserMfa} {change : MfaChange}
      (hp : p.call = some (c, current)) (htries : Tries P d c current row) (hcounted : recordMfaFailure s row c.now = some change) :
      Begins P s d p (c.tail current [] (updateMfa row.userId (row.flush change)) (.wrongCode row.userId))
  | steppedUp {p : Proc} {c : Call} {current : AuthenticatedSession} {row : UserMfa} {spent : Spent} (hp : p.call = some (c, current))
      (htries : Tries P d c current row) :
      Begins P s d p (c.tail current (useWrites row spent c.now)
        (updateMfa row.userId (row.flush (acceptChange spent)) ++ [.stampSession current.sessionId])
        (.steppedUp row.userId spent current.sessionId))
  | completed {p : Proc} {c : Call} {current : AuthenticatedSession} {row : UserMfa} {spent : Spent} {code : Code} {opens : NewSession}
      (hp : p.call = some (c, current)) (htries : Tries P d c current row) (hop : c.operation = .verifyMfa code opens)
      (hpending : (current.mfaEnrolled && current.mfaVerifiedAt.isNone) = true) :
      Begins P s d p (c.tail current (useWrites row spent c.now) (updateMfa row.userId (row.flush (acceptChange spent)) ++
        [.revokeSession current.sessionId, .openSession (opens.row P current.userId c.now (some c.now))])
        (.completed row.userId spent current.sessionId opens.id))
  | disabled {p : Proc} {c : Call} {current : AuthenticatedSession} {row : UserMfa} {spent : Spent} {password : String} {code : Code}
      {opens : NewSession} (hp : p.call = some (c, current)) (htries : Tries P d c current row)
      (hop : c.operation = .disableMfa password code opens) :
      Begins P s d p (c.tail current (useWrites row spent c.now) (updateMfa row.userId (row.flush (disableChange spent)) ++
        [.burnRecoveryCodes current.userId, .revokeOtherSessions current.userId current.sessionId, .revokeSession current.sessionId,
          .openSession (opens.row P current.userId c.now)]) (.disabled row.userId spent opens.id))
  | regenerated {c : Call} {current : AuthenticatedSession} {codes : RecoveryCodes} :
      Begins P s d (.regenerateRow c current)
        (c.tail current [] (.burnRecoveryCodes current.userId :: insertRecoveryCodes P current.userId codes) (.regenerated current.userId))

/-- What one statement leads to. -/
inductive Leads (P : Primitives) (s : Settings) (d : Db) : Proc → Proc → Prop
  | refused {p : Proc} (r : Refusal) (hr : ∀ u, r ≠ .uncounted u := by nofun) : Leads P s d p (.refuse r)
  /-- A code was wrong, and the failure could not be counted. -/
  | uncounted {p : Proc} {c : Call} {current : AuthenticatedSession} {row : UserMfa} (hp : p.call = some (c, current))
      (htries : Tries P d c current row) (hnone : recordMfaFailure s row c.now = none) : Leads P s d p (.refuse (.uncounted row.userId))
  | ended {p : Proc} : Leads P s d p .done
  /-- The lookup of a login has found an account that is open to it, and a hash to verify. -/
  | lookedUp {c : LoginCall} {a : AppUser} {credential : UserCredential} {kek stored : Bytes} {q : Proc} {verified : Bool}
      (haccount : d.users.rows.find? (fun u => P.sqlLower u.email = P.sqlLower (P.lower c.email)) = some a)
      (hcredential : d.credentials.find a.id = some credential) (henabled : a.disabledAt = none)
      (hopen : ∀ t, credential.lockedUntil = some t → t ≤ c.now) (hkek : userKek P d a.id = some kek)
      (hstored : P.decrypt credential.passwordCiphertext kek .credential = some stored)
      (hverify : P.verify stored c.password = some verified)
      (hq : q = if verified then .loginCredential c a.id kek stored else .recordFailure c a.id) : Leads P s d (.login c) q
  | letIn {c : Call} {sessionId userId : Uuid} : Leads P s d (.bootstrap c) (.mfaState c sessionId userId)
  | passed {c : Call} {sessionId userId : Uuid} {current : AuthenticatedSession} :
      Leads P s d (.mfaState c sessionId userId) (.touch c current)
  | undecided {p q : Proc} {c : Call} {current : AuthenticatedSession} (hp : p = .touch c current ∨ p.call = some (c, current))
      (hq : q.call = some (c, current)) : Leads P s d p q
  | decided {p : Proc} {t : Tail} (hbegins : Begins P s d p t) : Leads P s d p (.tail t)
  | went {t t' : Tail} (hstep : (t.step d).next = .tail t') : Leads P s d (.tail t) (.tail t')

section Leads
variable {P : Primitives} {s : Settings} {held : Lock → Prop} {d : Db} {c : Call} {current : AuthenticatedSession} {row : UserMfa} {p : Proc}

theorem leads_wrongCode (hp : p.call = some (c, current)) (ht : Tries P d c current row) : Leads P s d p (wrongCode s c current row) := by
  unfold wrongCode
  split
  next hnone => exact .uncounted hp ht hnone
  next change hcounted => exact .decided (.wrongCode hp ht hcounted)

theorem requireCurrentMfaAssurance_ne {r : Refusal} (h : requireCurrentMfaAssurance s current = some r) (u : Uuid) :
    r ≠ .uncounted u := by
  unfold requireCurrentMfaAssurance at h
  split at h
  · cases h
    nofun
  split at h
  · cases h
  · cases h
    nofun

theorem verifyCurrentPassword_ne {credential : UserCredential} {password : String} {r : Refusal}
    (h : verifyCurrentPassword P d credential password = .error r) (u : Uuid) : r ≠ .uncounted u := by
  unfold verifyCurrentPassword at h
  split at h
  · cases h
    nofun
  split at h <;> cases h <;> nofun

theorem tail_refuse_ne {t : Tail} {r : Refusal} (h : (t.step d).next = .refuse r) (u : Uuid) : r ≠ .uncounted u := by
  unfold Tail.step at h
  split at h
  · cases h
  next stmt rest heq =>
    split at h
    · cases h
    · cases h
    next r' hr =>
      cases h
      unfold Stmt.outcome at hr
      split at hr <;> first | cases hr | (split at hr <;> cases hr <;> exact Refusal.noConfusion)

theorem leads_accepted {spent : Spent} (hp : p.call = some (c, current)) (ht : Tries P d c current row) :
    Leads P s d p (accepted P c current row spent) := by
  unfold accepted
  dsimp only
  split
  next hop =>
    split
    next hpending => exact .decided (.completed hp ht hop hpending)
    · exact .decided (.steppedUp hp ht)
  next hop => exact .decided (.disabled hp ht hop)
  · exact .refused _

theorem leads_spendCode {code : Code} (hp : p.call = some (c, current)) (ht : Tries P d c current row) :
    Leads P s d p (spendCode P s d c current row code) := by
  cases code with
  | recovery => exact .undecided (.inr hp) rfl
  | totp =>
    unfold spendCode
    dsimp only
    split
    · exact .refused _
    split
    · exact leads_wrongCode hp ht
    split
    · exact leads_wrongCode hp ht
    · exact leads_accepted hp ht

theorem leads_onFactor (hp : p = .factor c current) (hcalls : Calls P d c current.sessionId current.userId)
    (hrow : d.mfa.find current.userId = some row) : Leads P s d p (onFactor P s d c current row) := by
  have huser : row.userId = current.userId := Table.key_of_find hrow
  have hcall : p.call = some (c, current) := by rw [hp]; rfl
  have tries : ¬ mfaLocked row c.now = true → Tries P d c current row := fun hopen =>
    ⟨hcalls, huser, by rw [huser]; exact hrow, by simpa using hopen⟩
  unfold onFactor
  split
  · split
    · exact .refused _
    split
    · exact .refused _
    split
    · exact .refused _
    next hopen =>
      unfold confirm
      split
      · exact .refused _
      split
      · exact leads_wrongCode hcall (tries hopen)
      · subst hp
        exact .decided (.confirmed hcalls huser)
  · split
    · exact .refused _
    split
    · exact .refused _
    next hopen => exact leads_spendCode hcall (tries hopen)
  · split
    · exact .refused _
    split
    · exact .refused _
    · exact .undecided (.inr hcall) rfl
  · exact .refused _

theorem leads_enter (hcalls : Calls P d c current.sessionId current.userId) : Leads P s d (.touch c current) (enter s c current) := by
  unfold enter
  split
  · exact .decided (.loggedOut hcalls)
  · exact .undecided (.inl rfl) rfl
  · exact .undecided (.inl rfl) rfl
  · exact .undecided (.inl rfl) rfl
  · exact .undecided (.inl rfl) rfl
  all_goals
    cases hr : requireCurrentMfaAssurance s current with
    | none => exact .undecided (.inl rfl) rfl
    | some r => exact .refused r (requireCurrentMfaAssurance_ne hr)

theorem leads_onPassword {credential : UserCredential} {kek : Bytes} {password : String}
    (hcalls : Calls P d c current.sessionId current.userId) (hpresents : c.operation.Presents password)
    (hcredential : d.credentials.find current.userId = some credential) (hverify : verifyCurrentPassword P d credential password = .ok kek) :
    Leads P s d (.credential c current password) (onPassword P c current credential kek) := by
  unfold onPassword
  split
  next hop =>
    cases hpresents _ _ _ _ _ hop
    exact .decided (.passwordChanged hcalls hop hcredential hverify)
  · exact .undecided (.inr rfl) rfl
  · exact .undecided (.inr rfl) rfl
  · exact .refused _

theorem leads_enroll {kek secret nonce : Bytes} :
    Leads P s d (.enrollRow c current kek) (enroll P c current kek secret nonce (d.mfa.find current.userId)) := by
  unfold enroll
  dsimp only
  cases hrow : d.mfa.find current.userId with
  | none => exact .decided (.enrolled hrow)
  | some row =>
    dsimp only
    split
    · exact .refused _
    next hpending => exact .decided (.reenrolled hrow (by simpa using hpending))

theorem leads_login {c : LoginCall} {m : Step} (h : go P s d (.login c) = some m) : Leads P s d (.login c) m.next := by
  cases h
  dsimp only
  split
  · exact .refused _
  next found hlookup =>
    obtain ⟨a, haccount, hmap⟩ := Option.bind_eq_some_iff.1 hlookup
    obtain ⟨credential, hcredential, rfl⟩ := Option.map_eq_some_iff.1 hmap
    split
    · exact .refused _
    next henabled =>
      split
      · exact .refused _
      next hopen =>
        have hopen' : ∀ t, credential.lockedUntil = some t → t ≤ c.now := fun t ht => by
          rw [ht] at hopen
          simpa using hopen
        have henabled' : a.disabledAt = none := by simpa using henabled
        split
        · exact .refused _
        next kek hkek =>
          split
          · exact .refused _
          next stored hstored =>
            split
            · exact .refused _
            next hverify => exact .lookedUp haccount hcredential henabled' hopen' hkek hstored hverify rfl
            next hverify => exact .lookedUp haccount hcredential henabled' hopen' hkek hstored hverify rfl

theorem go_leads {m : Step} (h : go P s d p = some m) (hA : p.Holds P s held d) : Leads P s d p m.next := by
  cases p with
  | login c => exact leads_login h
  | recordFailure c u =>
    cases h
    dsimp only
    split
    · exact .refused _
    next row hrow => exact .decided (.loginFailed hrow)
  | loginCredential c u kek stored =>
    have hbegins : Leads P s d (.loginCredential c u kek stored) _ := .decided .loggedIn
    cases h
    cases hrow : d.credentials.find u <;> rw [hrow] at hbegins <;> exact hbegins
  | bootstrap c =>
    cases h
    dsimp only
    split
    · exact .refused _
    split
    · exact .refused _
    split
    · exact .refused _
    split
    · exact .refused _
    · exact .letIn
  | mfaState c sessionId userId =>
    cases h
    dsimp only
    split
    · exact .refused _
    split
    · exact .refused _
    · exact .passed
  | touch c current =>
    cases h
    exact leads_enter hA
  | credential c current password =>
    cases h
    dsimp only
    split
    · exact .refused _
    next credential hcredential =>
      split
      next hwrong => exact .refused _ (verifyCurrentPassword_ne hwrong)
      next kek hverify => exact leads_onPassword hA.1.calls hA.2 hcredential hverify
  | enrollRow c current kek =>
    cases h
    dsimp only
    split
    · exact leads_enroll
    · exact .refused _
  | regenerateRow c current =>
    cases h
    dsimp only
    split
    · split
      · exact .refused _
      · exact .decided .regenerated
    · exact .refused _
  | factor c current =>
    simp only [go] at h
    split at h
    · cases h
      exact .refused _
    next row hrow =>
      cases h
      exact leads_onFactor rfl (Holding.calls hA) hrow
  | disableCredential c current row =>
    cases h
    dsimp only
    split
    · split
      next hwrong => exact .refused _ (verifyCurrentPassword_ne hwrong)
      · exact leads_spendCode rfl (Trying.tries hA)
    · exact .refused _
  | consume c current row hash =>
    simp only [go] at h
    split at h <;> cases h
    · exact leads_accepted rfl hA.1.tries
    · exact leads_wrongCode rfl hA.1.tries
  | tail t =>
    cases h
    cases hnext : (t.step d).next with
    | tail t' => exact .went hnext
    | refuse r => exact .refused r (tail_refuse_ne hnext)
    | done => exact .ended
    | _ =>
      simp only [Tail.step] at hnext
      repeat' split at hnext
      all_goals cases hnext
  | refuse r =>
    cases h
    exact .ended
  | done => cases h

/-- A statement before a commit is that of a tail, or the decision. -/
theorem go_begins {m : Step} {t : Tail} (h : go P s d p = some m) (hA : p.Holds P s held d) (hnext : m.next = .tail t) :
    (∃ t₀, p = .tail t₀ ∧ m = t₀.step d) ∨ Begins P s d p t := by
  have hleads := go_leads h hA
  rw [hnext] at hleads
  cases hleads with
  | lookedUp _ _ _ _ _ _ _ hq => split at hq <;> cases hq
  | undecided _ hq => cases hq
  | decided hbegins => exact .inr hbegins
  | @went t₀ _ _ =>
    cases h
    exact .inl ⟨t₀, rfl, rfl⟩

end Leads

end TestingPlatform.Auth
