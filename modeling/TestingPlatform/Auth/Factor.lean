import TestingPlatform.Auth.Locks

/-!
# The life of a factor

What a commit does to a row of `user_mfa`, apart from the rest of the database: `UserMfa.Steps` is the factor
as a state machine over the answers of the requests, and every commit takes one of its steps (`factor_commit`).
Enrollment is not among them: it reads the row without a lock, so all that is known is that it leaves
`confirmed_at` alone.
-/

namespace TestingPlatform.Auth

open ReadCommitted

/-! ### Writes by table -/

def Write.onMfa : Write → Bool
  | .mfa .. | .insertMfa _ => true
  | _ => false

theorem mfa_foldl {d d' : Db} (ws : List Write) (h : d.mfa = d'.mfa) :
    (ws.foldl Db.write d).mfa = ((ws.filter Write.onMfa).foldl Db.write d').mfa := by
  refine System.foldl_part (f := Db.mfa) (fun d u hu => ?_) (fun u hd => ?_) ws h
  · cases u with
    | mfa | insertMfa => cases hu
    | _ => rfl
  · cases u with
    | mfa | insertMfa => simp only [Db.write, hd]
    | _ => exact hd

theorem mfa_planned (d : Db) (ws : List Write) : (ws.foldl Db.write d).mfa = ((ws.filter Write.planned).foldl Db.write d).mfa := by
  rw [mfa_foldl ws rfl, mfa_foldl (ws.filter Write.planned) rfl, List.filter_filter]
  congr 2
  refine List.filter_congr fun u _ => ?_
  cases u <;> rfl

theorem mem_mfaWrites {userId : Uuid} {c : MfaChange} {u : Write} (h : u ∈ mfaWrites userId c) : u = .mfa userId c := by
  unfold mfaWrites at h
  split at h
  · cases h
  · exact List.mem_singleton.1 h

/-- What counting a failure assigns: counters and the lockout, and the lockout is that of the threshold. -/
theorem recordMfaFailure_cases {s : Settings} {row : UserMfa} {now : Time} {change : MfaChange}
    (h : recordMfaFailure s row now = some change) :
    (s.authMfaFailedThreshold ≤ row.failedCount + 1 ∧ ∃ lockedUntil, row.lockoutCount < integerMax ∧
      now.plusSeconds (min (s.authMfaLockoutBaseSeconds * 2 ^ row.lockoutCount) s.authMfaLockoutCapSeconds) = some lockedUntil ∧
        change = { lockoutCount := some (row.lockoutCount + 1), lockedUntil := some (some lockedUntil), failedCount := some 0 }) ∨
    (row.failedCount + 1 < s.authMfaFailedThreshold ∧ row.failedCount < integerMax ∧
      change = { failedCount := some (row.failedCount + 1) }) := by
  unfold recordMfaFailure at h
  split at h
  next hfull =>
    obtain ⟨lockedUntil, hend, h⟩ := Option.bind_eq_some_iff.1 h
    split at h
    next hfits =>
      cases h
      exact .inl ⟨hfull, lockedUntil, hfits, hend, rfl⟩
    · cases h
  next hopen =>
    split at h
    next hfits =>
      cases h
      exact .inr ⟨Nat.lt_of_not_le hopen, hfits, rfl⟩
    · cases h

theorem set_recordMfaFailure {s : Settings} {row : UserMfa} {now : Time} {change : MfaChange}
    (h : recordMfaFailure s row now = some change) : (row.set change).totpSecretCiphertext = row.totpSecretCiphertext ∧
      (row.set change).confirmedAt = row.confirmedAt ∧ (row.set change).lastUsedStep = row.lastUsedStep := by
  rcases recordMfaFailure_cases h with ⟨-, _, -, -, rfl⟩ | ⟨-, -, rfl⟩ <;> exact ⟨rfl, rfl, rfl⟩

@[simp] theorem onMfa_mfaWrites (userId : Uuid) (c : MfaChange) : (mfaWrites userId c).filter Write.onMfa = mfaWrites userId c := by
  unfold mfaWrites
  split <;> rfl

@[simp] theorem onMfa_credentialWrites (userId : Uuid) (c : CredentialChange) :
    (credentialWrites userId c).filter Write.onMfa = [] := by
  unfold credentialWrites
  split <;> rfl

@[simp] theorem onMfa_codeWrites (P : Primitives) (userId : Uuid) (codes : RecoveryCodes) :
    (codeWrites P userId codes).filter Write.onMfa = [] := by
  refine List.filter_eq_nil_iff.2 fun u hu => ?_
  obtain ⟨code, -, rfl⟩ := List.mem_map.1 hu
  simp [Write.onMfa]

@[simp] theorem onMfa_useWrites (row : UserMfa) (spent : Spent) (now : Time) :
    (useWrites row spent now).filter Write.onMfa = [] := by
  cases spent <;> rfl

theorem find_mfaWrites (d : Db) (userId v : Uuid) (c : MfaChange) :
    ((mfaWrites userId c).foldl Db.write d).mfa.find v = if v = userId then (d.mfa.find v).map (·.set c) else d.mfa.find v := by
  unfold mfaWrites
  split
  next hc =>
    cases hc
    split
    · cases h : d.mfa.find v <;> simp [h, UserMfa.set]
    · rfl
  · show (d.mfa.modify userId (·.set c) (·.userId_set c)).find v = _
    rw [Table.find_modify]

/-! ### Steps -/

def Event.factor : Event → Option Uuid
  | .enrolled u _ | .confirmed u _ _ | .wrongCode u | .steppedUp u _ _ | .completed u _ _ _ | .disabled u _ _ => some u
  | _ => none

/-- The code is newer than the last step, if it is a step. -/
def UserMfa.Newer (row : UserMfa) (spent : Spent) : Prop := ∀ n, spent = .step n → ∀ l ∈ row.lastUsedStep, l < n

/-- What an answer other than an enrollment does to the factor it is about. -/
inductive UserMfa.Steps (P : Primitives) (s : Settings) (d : Db) (row : UserMfa) : Event → UserMfa → Prop
  | confirmed {secret : Bytes} {step : Int} (now : Time) (hpending : row.confirmedAt = none) (hseed : seed P d row = some secret) :
      Steps P s d row (.confirmed row.userId secret step) (row.set (confirmChange step now))
  | wrongCode {now : Time} {change : MfaChange} (hcounted : recordMfaFailure s row now = some change) :
      Steps P s d row (.wrongCode row.userId) (row.set change)
  | steppedUp {spent : Spent} {sessionId : Uuid} (hconfirmed : row.confirmedAt.isSome = true) (hnew : row.Newer spent) :
      Steps P s d row (.steppedUp row.userId spent sessionId) (row.set (acceptChange spent))
  | completed {spent : Spent} {pendingId sessionId : Uuid} (hconfirmed : row.confirmedAt.isSome = true) (hnew : row.Newer spent) :
      Steps P s d row (.completed row.userId spent pendingId sessionId) (row.set (acceptChange spent))
  | disabled {spent : Spent} {sessionId : Uuid} (hconfirmed : row.confirmedAt.isSome = true) (hnew : row.Newer spent) :
      Steps P s d row (.disabled row.userId spent sessionId)
        (row.set (disableChange spent))

/-- What a commit does to the factor of a user. -/
inductive FactorEffect (P : Primitives) (s : Settings) (d d' : Db) (e : Event) (v : Uuid) : Prop
  | other (he : e.factor ≠ some v) (h : d'.mfa.find v = d.mfa.find v)
  | enrolled {secret : Bytes} (he : e = .enrolled v secret)
      (h : (d'.mfa.find v).bind UserMfa.confirmedAt = (d.mfa.find v).bind UserMfa.confirmedAt)
  | stepped {row row' : UserMfa} (h : d.mfa.find v = some row) (h' : d'.mfa.find v = some row') (hsteps : row.Steps P s d e row')

section Commit
variable {P : Primitives} {s : Settings} {held : Lock → Prop} {d : Db}

theorem Spends.newer {c : Call} {current : AuthenticatedSession} {row : UserMfa} {spent : Spent}
    (h : Spends P held d c current row spent) : row.Newer spent := by
  obtain ⟨code, -, hacc⟩ := h.accepts
  rintro n rfl
  cases hacc with
  | totp _ _ hnew => exact hnew

theorem find_changed {ws : List Write} {row : UserMfa} {c : MfaChange}
    (hwrites : (ws.filter Write.planned).filter Write.onMfa = mfaWrites row.userId (row.flush c))
    (hrow : d.mfa.find row.userId = some row) : (ws.foldl Db.write d).mfa.find row.userId = some (row.set c) := by
  have hmfa : (ws.foldl Db.write d).mfa = ((mfaWrites row.userId (row.flush c)).foldl Db.write d).mfa := by
    rw [mfa_planned, mfa_foldl (ws.filter Write.planned) rfl, hwrites]
  rw [hmfa, find_mfaWrites, if_pos rfl, hrow, Option.map_some, UserMfa.set_flush]

theorem factor_commit {r : Request} {e : Event} {ws : List Write} (h : Decided P s held d r e (ws.filter Write.planned)) (v : Uuid) :
    FactorEffect P s d (ws.foldl Db.write d) e v := by
  generalize hplan : ws.filter Write.planned = plan at h
  have hmfa : (ws.foldl Db.write d).mfa = ((plan.filter Write.onMfa).foldl Db.write d).mfa := by
    rw [mfa_planned, hplan, mfa_foldl plan rfl]
  have other : plan.filter Write.onMfa = [] → e.factor = none → FactorEffect P s d (ws.foldl Db.write d) e v := fun hnone he => by
    refine .other (by rw [he]; simp) ?_
    rw [hmfa, hnone]
    rfl
  -- the change of a locked row: for its user a step, for the others nothing
  have change : ∀ {row : UserMfa} {c : MfaChange}, plan.filter Write.onMfa = mfaWrites row.userId (row.flush c) →
      d.mfa.find row.userId = some row → e.factor = some row.userId → row.Steps P s d e (row.set c) →
      FactorEffect P s d (ws.foldl Db.write d) e v := fun {row c} hwrites hrow he hsteps => by
    have hfind := find_mfaWrites d row.userId v (row.flush c)
    by_cases hv : v = row.userId
    · subst hv
      exact .stepped hrow (find_changed (by rw [hplan, hwrites]) hrow) hsteps
    · refine .other (by rw [he]; exact fun h => hv (Option.some.inj h).symm) ?_
      rw [hmfa, hwrites, hfind, if_neg hv]
  cases h with
  | loginFailed | loggedOut | regenerated => exact other (by simp) rfl
  | @loggedIn _ _ _ _ credential => exact other (by cases credential <;> simp [Write.onMfa]) rfl
  | passwordChanged => exact other (by simp [Write.onMfa]) rfl
  | @enrolled c current password secret nonce kek =>
    have hinsert : (ws.foldl Db.write d).mfa = d.mfa.insert _ := hmfa
    by_cases hv : v = current.userId
    · subst hv
      refine .enrolled rfl ?_
      rw [hinsert]
      cases hfind : d.mfa.find current.userId with
      | some row => rw [Table.insert_of_taken hfind, hfind]
      | none => rw [Table.find_insert_self hfind]; rfl
    · refine .other (fun h => hv (Option.some.inj h).symm) ?_
      rw [hinsert]
      exact Table.find_insert_of_ne (Ne.symm hv)
  | @reenrolled c current row password secret nonce kek =>
    have hfind := find_mfaWrites d row.userId v (row.flush (enrollChange (P.encrypt nonce kek .mfaSecret secret)))
    rw [onMfa_mfaWrites] at hmfa
    rw [← hmfa] at hfind
    by_cases hv : v = row.userId
    · subst hv
      refine .enrolled rfl ?_
      rw [hfind, if_pos rfl]
      cases d.mfa.find row.userId <;> rfl
    · refine .other (fun h => hv (Option.some.inj h).symm) ?_
      rw [hfind, if_neg hv]
  | @confirmed c _ _ _ _ _ _ hfactor _ hpending hseed =>
    exact change (by simp [Write.onMfa]) hfactor.stored rfl (.confirmed c.now hpending hseed)
  | wrongCode hfactor hcounted => exact change (by simp) hfactor.stored rfl (.wrongCode hcounted)
  | steppedUp hspends =>
    exact change (by simp [Write.onMfa]) hspends.stored rfl (.steppedUp hspends.confirmed hspends.newer)
  | completed hspends =>
    exact change (by simp [Write.onMfa]) hspends.stored rfl (.completed hspends.confirmed hspends.newer)
  | disabled hspends =>
    exact change (by simp [Write.onMfa]) hspends.stored rfl (.disabled hspends.confirmed hspends.newer)

end Commit

end TestingPlatform.Auth
