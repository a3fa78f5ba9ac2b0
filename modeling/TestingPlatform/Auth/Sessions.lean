import TestingPlatform.Auth.Factor
import TestingPlatform.Auth.Steps

/-!
# What a commit does to credentials and sessions

A credential is rewritten by a password change, or by a login whose hash was made with other parameters. A
session row stays that of its user and its token; it can be revoked, touched and stamped, and the sessions a
commit adds are the ones it opened.
-/

namespace TestingPlatform.Auth

open ReadCommitted

/-! ### Credentials -/

def Write.onCredential : Write → Bool
  | .credential .. => true
  | _ => false

theorem credentials_foldl {d d' : Db} (ws : List Write) (h : d.credentials = d'.credentials) :
    (ws.foldl Db.write d).credentials = ((ws.filter Write.onCredential).foldl Db.write d').credentials := by
  refine System.foldl_part (f := Db.credentials) (fun d u hu => ?_) (fun u hd => ?_) ws h
  · cases u with
    | credential => cases hu
    | _ => rfl
  · cases u with
    | credential => simp only [Db.write, hd]
    | _ => exact hd

theorem credentials_planned (d : Db) (ws : List Write) :
    (ws.foldl Db.write d).credentials = ((ws.filter Write.planned).foldl Db.write d).credentials := by
  rw [credentials_foldl ws rfl, credentials_foldl (ws.filter Write.planned) rfl, List.filter_filter]
  congr 2
  refine List.filter_congr fun u _ => ?_
  cases u <;> rfl

@[simp] theorem onCredential_credentialWrites (userId : Uuid) (c : CredentialChange) :
    (credentialWrites userId c).filter Write.onCredential = credentialWrites userId c := by
  unfold credentialWrites
  split <;> rfl

@[simp] theorem onCredential_mfaWrites (userId : Uuid) (c : MfaChange) : (mfaWrites userId c).filter Write.onCredential = [] := by
  unfold mfaWrites
  split <;> rfl

@[simp] theorem onCredential_codeWrites (P : Primitives) (userId : Uuid) (codes : RecoveryCodes) :
    (codeWrites P userId codes).filter Write.onCredential = [] := by
  refine List.filter_eq_nil_iff.2 fun u hu => ?_
  obtain ⟨code, -, rfl⟩ := List.mem_map.1 hu
  simp [Write.onCredential]

@[simp] theorem onCredential_useWrites (row : UserMfa) (spent : Spent) (now : Time) :
    (useWrites row spent now).filter Write.onCredential = [] := by
  cases spent <;> rfl

theorem onCredential_insertSession (userId : Uuid) (c : CredentialChange) (x : UserSession) :
    (credentialWrites userId c ++ [Write.insertSession x]).filter Write.onCredential = credentialWrites userId c := by
  simp [Write.onCredential]

theorem find_credentialWrites (d : Db) (userId v : Uuid) (c : CredentialChange) :
    ((credentialWrites userId c).foldl Db.write d).credentials.find v =
      if v = userId then (d.credentials.find v).map (·.set c) else d.credentials.find v := by
  unfold credentialWrites
  split
  next hc =>
    cases hc
    split
    · cases h : d.credentials.find v <;> simp [h, UserCredential.set]
    · rfl
  · show (d.credentials.modify userId (·.set c) (·.userId_set c)).find v = _
    rw [Table.find_modify]

theorem credential_kept {d : Db} {u : Uuid} {row : UserCredential} (ws : List Write) (h : d.credentials.find u = some row) :
    ∃ row', (ws.foldl Db.write d).credentials.find u = some row' := by
  induction ws generalizing d row with
  | nil => exact ⟨row, h⟩
  | cons w ws ih =>
    have hwrite : ∃ row', (d.write w).credentials.find u = some row' := by
      cases w with
      | credential =>
        rw [Db.write, Table.find_modify, h]
        split <;> exact ⟨_, rfl⟩
      | _ => exact ⟨row, h⟩
    obtain ⟨row', hrow'⟩ := hwrite
    exact ih hrow'

/-- What a commit does to the stored hash of a user. -/
inductive CredentialEffect (P : Primitives) (d d' : Db) (e : Event) (v : Uuid) : Prop
  | same (he : ∀ current new sid, e ≠ .passwordChanged v current new sid)
      (h : ∀ row', d'.credentials.find v = some row' →
        ∃ row, d.credentials.find v = some row ∧ row'.passwordCiphertext = row.passwordCiphertext)
  | rehashed {password : String} {sid : Uuid} {salt nonce kek : Bytes} (he : e = .loggedIn v password sid)
      (hkek : userKek P d v = some kek) (h : ∀ row', d'.credentials.find v = some row' →
        (d.credentials.find v).isSome = true ∧ row'.passwordCiphertext = encryptPassword P salt nonce password kek)
  | changed {current new : String} {sid : Uuid} {salt nonce kek : Bytes} (he : e = .passwordChanged v current new sid)
      (hkek : userKek P d v = some kek) (h : current ≠ new → ∀ row', d'.credentials.find v = some row' →
        row'.passwordCiphertext = encryptPassword P salt nonce new kek)

section Commit
variable {P : Primitives} {s : Settings} {held : Lock → Prop} {d : Db}

theorem cipher_set_of_none {row : UserCredential} {c : CredentialChange} (h : c.passwordCiphertext = none) :
    (row.set c).passwordCiphertext = row.passwordCiphertext := by
  rw [UserCredential.set, h, Option.getD_none]

theorem credential_commit {r : Request} {e : Event} {ws : List Write} (h : Decided P s held d r e (ws.filter Write.planned)) (v : Uuid) :
    CredentialEffect P d (ws.foldl Db.write d) e v := by
  generalize hplan : ws.filter Write.planned = plan at h
  have hcred : (ws.foldl Db.write d).credentials = ((plan.filter Write.onCredential).foldl Db.write d).credentials := by
    rw [credentials_planned, hplan, credentials_foldl plan rfl]
  have other : plan.filter Write.onCredential = [] → (∀ current new sid, e ≠ .passwordChanged v current new sid) →
      CredentialEffect P d (ws.foldl Db.write d) e v := fun hnone he => by
    refine .same he fun row' hrow' => ⟨row', ?_, rfl⟩
    rw [hcred, hnone] at hrow'
    exact hrow'
  have change : ∀ {userId : Uuid} {c : CredentialChange}, plan.filter Write.onCredential = credentialWrites userId c →
      (ws.foldl Db.write d).credentials.find v =
        if v = userId then (d.credentials.find v).map (·.set c) else d.credentials.find v := fun {userId c} hwrites => by
    rw [hcred, hwrites, find_credentialWrites]
  -- a change that leaves the hash, or is about somebody else
  have keeps : ∀ {userId : Uuid} {c : CredentialChange}, plan.filter Write.onCredential = credentialWrites userId c →
      (v = userId → c.passwordCiphertext = none) → (∀ current new sid, e ≠ .passwordChanged v current new sid) →
      CredentialEffect P d (ws.foldl Db.write d) e v := fun {userId c} hwrites hc he => by
    refine .same he fun row' hrow' => ?_
    rw [change hwrites] at hrow'
    split at hrow'
    next hv =>
      obtain ⟨row, hrow, rfl⟩ := Option.map_eq_some_iff.1 hrow'
      exact ⟨row, hrow, cipher_set_of_none (hc hv)⟩
    · exact ⟨row', hrow', rfl⟩
  cases h with
  | @loginFailed c row =>
    refine keeps (onCredential_credentialWrites ..) (fun _ => ?_) (fun _ _ _ he => by cases he)
    unfold recordFailure
    split <;> rfl
  | @loggedIn c userId kek stored credential hkek hverify =>
    cases credential with
    | none => exact other rfl (fun _ _ _ he => by cases he)
    | some row =>
      have hwrites := onCredential_insertSession userId (row.flush (loginChange P c kek stored row)) (c.opens.row P userId c.now)
      by_cases hv : v = userId
      · subst hv
        cases hc : (row.flush (loginChange P c kek stored row)).passwordCiphertext with
        | none => exact keeps hwrites (fun _ => hc) (fun _ _ _ he => by cases he)
        | some ciphertext =>
          have hnew : ciphertext = encryptPassword P c.salt c.nonce c.password kek := by
            simp only [UserCredential.flush, loginChange, net] at hc
            split at hc
            · exact (Option.some.inj (Option.eq_some_of_filter_eq_some hc)).symm
            · cases hc
          have hstored : ∀ row', (ws.foldl Db.write d).credentials.find v = some row' → (d.credentials.find v).isSome = true ∧
              row'.passwordCiphertext = encryptPassword P c.salt c.nonce c.password kek := fun row' hrow' => by
            rw [change hwrites, if_pos rfl] at hrow'
            obtain ⟨row₀, hrow₀, rfl⟩ := Option.map_eq_some_iff.1 hrow'
            refine ⟨by rw [hrow₀]; rfl, ?_⟩
            rw [UserCredential.set, hc, Option.getD_some, hnew]
          exact .rehashed rfl hkek hstored
      · exact keeps hwrites (fun he => absurd he hv) (fun _ _ _ he => by cases he)
  | @passwordChanged c current row currentPassword newPassword salt nonce kek stored opens hsession huser hop hkek hstored hverify =>
    have hwrites := onCredential_insertSession row.userId
      (row.flush { passwordCiphertext := some (encryptPassword P salt nonce newPassword kek), passwordUpdatedAt := some c.now })
      (opens.row P row.userId c.now)
    by_cases hv : v = row.userId
    · subst hv
      have hchanged : currentPassword ≠ newPassword → ∀ row', (ws.foldl Db.write d).credentials.find row.userId = some row' →
          row'.passwordCiphertext = encryptPassword P salt nonce newPassword kek := fun hne row' hrow' => by
        -- the loaded hash is that of another password
        have hcipher : encryptPassword P salt nonce newPassword kek ≠ row.passwordCiphertext := fun he => by
          rw [← he, encryptPassword, P.decrypt_encrypt] at hstored
          cases hstored
          rw [P.verify_hash] at hverify
          exact hne (of_decide_eq_true (Option.some.inj hverify))
        rw [change hwrites, if_pos rfl] at hrow'
        obtain ⟨row₀, -, rfl⟩ := Option.map_eq_some_iff.1 hrow'
        simp [UserCredential.set, UserCredential.flush, net, Option.filter, hcipher]
      exact .changed rfl hkek hchanged
    · exact keeps hwrites (fun he => absurd he hv) (fun _ _ _ he => hv (by cases he; rfl))
  | loggedOut | enrolled | regenerated => exact other (by simp [Write.onCredential]) (fun _ _ _ he => by cases he)
  | reenrolled | wrongCode => exact other (by simp) (fun _ _ _ he => by cases he)
  | confirmed | steppedUp | completed | disabled =>
    exact other (by simp [Write.onCredential]) (fun _ _ _ he => by cases he)

end Commit

/-! ### Sessions -/

/-- A session after the writes of a commit. -/
structure UserSession.After (ws : List Write) (x x' : UserSession) : Prop extends x.Becomes x' where
  id : x'.id = x.id
  stamp : x'.mfaVerifiedAt = x.mfaVerifiedAt ∨ ∃ now, .stampSession x.id now ∈ ws ∧ x'.mfaVerifiedAt = some now

section After
variable {ws : List Write} {x x' x'' : UserSession} {u : Write}

theorem UserSession.After.refl (ws : List Write) (x : UserSession) : x.After ws x := ⟨.refl x, rfl, .inl rfl⟩

theorem UserSession.After.cons (h : x.After [u] x') (h' : x'.After ws x'') : x.After (u :: ws) x'' := by
  refine ⟨h.toBecomes.trans h'.toBecomes, h'.id.trans h.id, ?_⟩
  rcases h'.stamp with hs' | ⟨now, hw, hs'⟩
  · rcases h.stamp with hs | ⟨now, hw, hs⟩
    · exact .inl (hs'.trans hs)
    · exact .inr ⟨now, List.mem_singleton.1 hw ▸ List.mem_cons_self, hs'.trans hs⟩
  · exact .inr ⟨now, List.mem_cons_of_mem _ (h.id ▸ hw), hs'⟩

theorem session_write {d : Db} (hx : x' ∈ (d.write u).sessions.rows) :
    (∃ x ∈ d.sessions.rows, x.After [u] x') ∨ (u = .insertSession x' ∧ d.sessions.find x'.id = none) := by
  have modified : ∀ {id : Uuid} {f : UserSession → UserSession} (hf : ∀ x, (f x).id = x.id),
      x' ∈ (d.sessions.modify id f hf).rows → (∀ x : UserSession, x.id = id → x.After [u] (f x)) →
      ∃ x ∈ d.sessions.rows, x.After [u] x' := fun {id f} hf hx hafter => by
    rw [Table.rows_modify] at hx
    obtain ⟨x, hmem, rfl⟩ := List.mem_map.1 hx
    refine ⟨x, hmem, ?_⟩
    split
    next hid => exact hafter x hid
    · exact .refl _ x
  cases u with
  | touch => exact .inl (modified (·.id_touch _) hx fun x _ => ⟨⟨rfl, rfl, id⟩, rfl, .inl rfl⟩)
  | revokeSession =>
    refine .inl (modified (·.id_revoke _) hx fun x _ => ?_)
    unfold UserSession.revoke
    split
    · exact ⟨⟨rfl, rfl, fun _ => rfl⟩, rfl, .inl rfl⟩
    · exact .refl _ x
  | stampSession id now =>
    refine .inl (modified (·.id_stamp _) hx fun x hid => ?_)
    unfold UserSession.stamp
    split
    · exact ⟨⟨rfl, rfl, fun h => h⟩, rfl, .inr ⟨now, hid ▸ List.mem_cons_self, rfl⟩⟩
    · exact .refl _ x
  | insertSession row =>
    cases hfind : d.sessions.find row.id with
    | some taken =>
      rw [Db.write, Table.insert_of_taken hfind] at hx
      exact .inl ⟨x', hx, .refl _ x'⟩
    | none =>
      rcases Table.mem_insert hx with hx | rfl
      · exact .inl ⟨x', hx, .refl _ x'⟩
      · exact .inr ⟨rfl, hfind⟩
  | _ => exact .inl ⟨x', hx, .refl _ x'⟩

theorem session_origin {d : Db} (hx : x' ∈ (ws.foldl Db.write d).sessions.rows) :
    (∃ x ∈ d.sessions.rows, x.After ws x') ∨ ∃ x, .insertSession x ∈ ws ∧ d.sessions.find x.id = none ∧ x.After ws x' := by
  induction ws generalizing d with
  | nil => exact .inl ⟨x', hx, .refl _ x'⟩
  | cons u ws ih =>
    rcases ih (d := d.write u) hx with ⟨x, hmem, hafter⟩ | ⟨x, hin, hnone, hafter⟩
    · rcases session_write hmem with ⟨x₀, hmem₀, hafter₀⟩ | ⟨rfl, hnone⟩
      · exact .inl ⟨x₀, hmem₀, hafter₀.cons hafter⟩
      · exact .inr ⟨x, List.mem_cons_self, hnone, (UserSession.After.refl _ x).cons hafter⟩
    · refine .inr ⟨x, List.mem_cons_of_mem _ hin, ?_, (UserSession.After.refl _ x).cons hafter⟩
      cases hfind : d.sessions.find x.id with
      | none => rfl
      | some x₀ =>
        obtain ⟨x₁, hx₁, -⟩ := (Stays.write d u).sessions _ x₀ hfind
        rw [hx₁] at hnone
        cases hnone

theorem session_revoked {d : Db} {id : Uuid} {now : Time} (hx : d.sessions.find id = some x) (hw : .revokeSession id now ∈ ws)
    (hx' : (ws.foldl Db.write d).sessions.find id = some x') : x'.live = false := by
  have later : ∀ {d : Db} {x : UserSession} {ws : List Write}, d.sessions.find id = some x → x.live = false →
      (ws.foldl Db.write d).sessions.find id = some x' → x'.live = false := fun {d x ws} hx hlive hx' => by
    obtain ⟨x'', hx'', hb⟩ := (Stays.foldl d ws).sessions id x hx
    cases hx'.symm.trans hx''
    exact hb.revoked hlive
  induction ws generalizing d x with
  | nil => cases hw
  | cons u ws ih =>
    rcases List.mem_cons.1 hw with rfl | hw
    · have hrevoked : (d.write (.revokeSession id now)).sessions.find id = some (x.revoke now) := by
        rw [Db.write, Table.find_modify_self, hx, Option.map_some]
      refine later hrevoked ?_ hx'
      unfold UserSession.revoke
      split
      · rfl
      next hlive => simpa using hlive
    · obtain ⟨x₁, hx₁, -⟩ := (Stays.write d u).sessions id x hx
      exact ih hx₁ hw hx'

end After

/-- The session that an answer opens, and for whom. -/
def Event.opens : Event → Option (Uuid × Uuid)
  | .loggedIn u _ sid | .passwordChanged u _ _ sid | .completed u _ _ sid | .disabled u _ sid => some (u, sid)
  | _ => none

/-- The write opens a session, or stamps one. -/
def Write.mints : Write → Bool
  | .insertSession _ | .stampSession .. => true
  | _ => false

section Mints
variable {P : Primitives} {s : Settings} {held : Lock → Prop} {d : Db} {r : Request} {e : Event} {plan : List Write}
  {userId : Uuid}

@[simp] theorem mints_credentialWrites {c : CredentialChange} : (credentialWrites userId c).filter Write.mints = [] := by
  unfold credentialWrites
  split <;> rfl

@[simp] theorem mints_mfaWrites {c : MfaChange} : (mfaWrites userId c).filter Write.mints = [] := by
  unfold mfaWrites
  split <;> rfl

@[simp] theorem mints_codeWrites {codes : RecoveryCodes} : (codeWrites P userId codes).filter Write.mints = [] := by
  refine List.filter_eq_nil_iff.2 fun u hu => ?_
  obtain ⟨code, -, rfl⟩ := List.mem_map.1 hu
  simp [Write.mints]

@[simp] theorem mints_useWrites {row : UserMfa} {spent : Spent} {now : Time} : (useWrites row spent now).filter Write.mints = [] := by
  cases spent <;> rfl

/-- The sessions and the stamps of a commit. -/
inductive Mints (P : Primitives) (d : Db) : Request → Event → List Write → Prop
  | nothing {r : Request} {e : Event} (he : e.opens = none) : Mints P d r e []
  /-- A session that completes a pending login is stamped from the start. -/
  | opened {r : Request} {e : Event} {x : UserSession} (he : e.opens = some (x.userId, x.id))
      (hx : x.mfaVerifiedAt = none ∨ ∃ c spent pendingId, r = .call c ∧ x.mfaVerifiedAt = some c.now ∧
        e = .completed x.userId spent pendingId x.id) : Mints P d r e [.insertSession x]
  | stamped {c : Call} {e : Event} {id u : Uuid} (hcalls : Calls P d c id u)
      (he : (∃ secret step, e = .confirmed u secret step) ∨ ∃ spent, e = .steppedUp u spent id) :
      Mints P d (.call c) e [.stampSession id c.now]

theorem Decided.mints (h : Decided P s held d r e plan) : Mints P d r e (plan.filter Write.mints) := by
  cases h with
  | @loggedIn c userId kek stored credential =>
    cases credential <;> simp only [Option.elim_none, Option.elim_some, List.filter_append, mints_credentialWrites, List.nil_append]
    all_goals exact .opened rfl (.inl rfl)
  | passwordChanged =>
    rw [List.filter_append, mints_credentialWrites]
    exact .opened rfl (.inl rfl)
  | @confirmed c current row code codes secret step hfactor =>
    rw [List.filter_append, mints_mfaWrites, List.filter_cons_of_pos rfl, mints_codeWrites]
    exact .stamped (hfactor.user ▸ hfactor.calls) (.inl ⟨_, _, rfl⟩)
  | @steppedUp c current row spent hspends =>
    rw [List.filter_append, List.filter_append, mints_useWrites, mints_mfaWrites]
    exact .stamped (hspends.user ▸ hspends.calls) (.inr ⟨_, rfl⟩)
  | completed =>
    rw [List.filter_append, List.filter_append, mints_useWrites, mints_mfaWrites]
    exact .opened rfl (.inr ⟨_, _, _, rfl, rfl, rfl⟩)
  | disabled =>
    rw [List.filter_append, List.filter_append, mints_useWrites, mints_mfaWrites]
    exact .opened rfl (.inl rfl)
  | loginFailed =>
    rw [mints_credentialWrites]
    exact .nothing rfl
  | reenrolled | wrongCode =>
    rw [mints_mfaWrites]
    exact .nothing rfl
  | regenerated =>
    rw [mints_codeWrites]
    exact .nothing rfl
  | loggedOut | enrolled => exact .nothing rfl

theorem Decided.opens {x : UserSession} (h : Decided P s held d r e plan) (hx : .insertSession x ∈ plan) :
    e.opens = some (x.userId, x.id) := by
  have hmints := h.mints
  have hin := List.mem_filter.2 ⟨hx, (rfl : (Write.insertSession x).mints = true)⟩
  generalize plan.filter Write.mints = l at hmints hin
  cases hmints with
  | nothing => cases hin
  | opened he =>
    cases List.mem_singleton.1 hin
    exact he
  | stamped => cases List.mem_singleton.1 hin

theorem Decided.opened {sid : Uuid} (h : Decided P s held d r e plan) (he : e.opens = some (userId, sid)) :
    ∃ x : UserSession, .insertSession x ∈ plan ∧ x.userId = userId ∧ x.id = sid := by
  have hmints := h.mints
  generalize hl : plan.filter Write.mints = l at hmints
  cases hmints with
  | nothing hnone =>
    rw [he] at hnone
    cases hnone
  | opened he' =>
    cases he.symm.trans he'
    exact ⟨_, List.mem_of_mem_filter (hl ▸ List.mem_cons_self), rfl, rfl⟩
  | stamped _ hevent =>
    rcases hevent with ⟨_, _, rfl⟩ | ⟨_, rfl⟩ <;> cases he

end Mints

theorem session_inserted {d : Db} {x : UserSession} {ws : List Write} (hx : .insertSession x ∈ ws) :
    ((ws.foldl Db.write d).sessions.find x.id).isSome = true := by
  have later : ∀ {d : Db} {ws : List Write}, (d.sessions.find x.id).isSome = true →
      ((ws.foldl Db.write d).sessions.find x.id).isSome = true := fun {d ws} h => by
    obtain ⟨x₀, hx₀⟩ := Option.isSome_iff_exists.1 h
    obtain ⟨x₁, hx₁, -⟩ := (Stays.foldl d ws).sessions _ x₀ hx₀
    rw [hx₁]
    rfl
  induction ws generalizing d with
  | nil => cases hx
  | cons u ws ih =>
    rcases List.mem_cons.1 hx with rfl | hx
    · rw [List.foldl_cons]
      refine later ?_
      cases hfind : d.sessions.find x.id with
      | some x₀ =>
        show ((d.sessions.insert x).find x.id).isSome = true
        rw [Table.insert_of_taken hfind, hfind]
        rfl
      | none =>
        show ((d.sessions.insert x).find x.id).isSome = true
        rw [Table.find_insert_self hfind]
        rfl
    · exact ih hx

/-! ### New sessions are new -/

/-- The sessions that a tail has opened are not committed. -/
def Tail.Fresh (d : Db) (t : Tail) : Prop := ∀ x, .insertSession x ∈ t.writes → d.sessions.find x.id = none

theorem Tail.Fresh.step {d : Db} {t t' : Tail} (h : (t.step d).next = .tail t') (hf : t.Fresh d) : t'.Fresh d := by
  obtain ⟨stmt, rest, -, ⟨ks, u, ho, -, rfl⟩ | ⟨todo, -, -, rfl⟩⟩ := tail_step h
  · intro x hx
    rcases List.mem_append.1 hx with hx | hx
    · exact hf x hx
    · cases List.mem_singleton.1 hx
      cases stmt with
      | openSession row =>
        simp only [Stmt.outcome] at ho
        split at ho
        · cases ho
        next htaken =>
          cases ho
          refine Table.find_eq_none.2 fun a ha hid => htaken ?_
          exact List.any_eq_true.2 ⟨a, ha, decide_eq_true (.inl hid)⟩
      | updateCredential | updateMfa | revokeOtherSessions | burnRecoveryCodes => cases ho
      | _ =>
        simp only [Stmt.outcome] at ho
        split at ho <;> cases ho
  · exact hf

/-! ### Rotation -/

/-- The user whose other sessions a request revokes. -/
def Event.rotates : Event → Option Uuid
  | .passwordChanged u .. | .disabled u .. | .confirmed u .. => some u
  | _ => none

/-- The tail has revoked the session, or is about to. -/
def Tail.Revokes (t : Tail) (id : Uuid) : Prop := (∃ now, .revokeSession id now ∈ t.writes) ∨ .revokeSession id ∈ t.todo

def Stmt.isRevokeOthers : Stmt → Bool
  | .revokeOtherSessions .. => true
  | _ => false

/-- The tail is still to list the other sessions of the user, and no more after that. -/
def Tail.Lists (t : Tail) (u keep : Uuid) : Prop :=
  ∃ l r, t.todo = l ++ .revokeOtherSessions u keep :: r ∧ ∀ stmt ∈ r, stmt.isRevokeOthers = false

/-- How a tail begins: it has opened no session, and a request that rotates the sessions of a user keeps or revokes
the one it is called from. -/
structure Tail.Opens (d : Db) (t : Tail) : Prop where
  unopened : ∀ x, .insertSession x ∉ t.writes
  rotates : ∀ u, t.event.rotates = some u → ∃ keep, t.Lists u keep ∧ (d.sessions.find keep).isSome = true ∧
    .touch keep t.request.now ∈ t.writes ∧ (.revokeSession keep ∈ t.todo ∨ ∃ secret step, t.event = .confirmed u secret step)
  /-- An enrollment has found no confirmed factor. -/
  pending : ∀ u secret, t.event = .enrolled u secret → (d.mfa.find u).bind UserMfa.confirmedAt = none

section Opens
variable {P : Primitives} {s : Settings} {d : Db}

@[simp] theorem insertSession_useWrites {x : UserSession} {row : UserMfa} {spent : Spent} {now : Time} :
    .insertSession x ∉ useWrites row spent now := by
  cases spent <;> simp [useWrites]

theorem Begins.opens {p : Proc} {t : Tail} (h : Begins P s d p t) : t.Opens d := by
  have found : ∀ {c : Call} {id u : Uuid}, Calls P d c id u → (d.sessions.find id).isSome = true := fun hcalls => by
    obtain ⟨x, hx, -⟩ := hcalls
    rw [hx]
    rfl
  cases h with
  | @passwordChanged c current password newPassword salt nonce kek opens credential hcalls =>
    refine ⟨by simp [Call.tail], fun u hu => ?_, fun u secret he => by cases he⟩
    cases hu
    refine ⟨current.sessionId, ⟨_, _, rfl, ?_⟩, found hcalls, List.mem_cons_self, .inl (by simp [Call.tail])⟩
    simp [Stmt.isRevokeOthers]
  | @confirmed c current row codes secret step hcalls huser =>
    refine ⟨by simp [Call.tail], fun u hu => ?_, fun u secret he => by cases he⟩
    cases hu
    refine ⟨current.sessionId, ?_, found hcalls, List.mem_cons_self, .inr ⟨_, _, rfl⟩⟩
    refine ⟨updateMfa row.userId (row.flush (confirmChange step c.now)) ++ [.stampSession current.sessionId],
      .burnRecoveryCodes current.userId :: insertRecoveryCodes P current.userId codes, ?_, ?_⟩
    · rw [Call.tail, huser, List.append_assoc, List.append_assoc]
      rfl
    · simp [Stmt.isRevokeOthers, insertRecoveryCodes]
  | @disabled p c current row spent password code opens hp htries =>
    refine ⟨by simp [Call.tail], fun u hu => ?_, fun u secret he => by cases he⟩
    cases hu
    refine ⟨current.sessionId, ?_, found htries.calls, List.mem_cons_self, .inl (by simp [Call.tail])⟩
    refine ⟨updateMfa row.userId (row.flush (disableChange spent)) ++ [.burnRecoveryCodes current.userId],
      [.revokeSession current.sessionId, .openSession (opens.row P current.userId c.now)], ?_, ?_⟩
    · rw [Call.tail, htries.user, List.append_assoc]
      rfl
    · simp [Stmt.isRevokeOthers]
  | enrolled hnone =>
    refine ⟨by simp [Call.tail], fun u hu => (by cases hu), fun u secret he => ?_⟩
    cases he
    rw [hnone]
    rfl
  | reenrolled hrow hpending =>
    refine ⟨by simp [Call.tail], fun u hu => (by cases hu), fun u secret he => ?_⟩
    cases he
    rw [hrow]
    exact hpending
  | _ => exact ⟨by simp [Call.tail], fun u hu => (by cases hu), fun u secret he => by cases he⟩

end Opens

section Runs
variable {π : Type} [DecidableEq π] {P : Primitives} {s : Settings} {C : Requests π → π × Choice → Prop} {w₀ w : Requests π}

theorem tail_after {i : π} {c : Choice} {m : Step} {t : Tail} (hat : (outline P s).At w i) (hm : (authentication P s).Fires w i c m)
    (hnext : m.next = .tail t) : ((authentication P s).after w i m).db = w.db ∧
      ((∃ t₀, w.proc i = .tail t₀ ∧ (t₀.step w.db).next = .tail t) ∨ t.Opens w.db) := by
  rcases System.move_abortable hm.1 with hgo | rfl
  · have hdb : ((authentication P s).after w i m).db = w.db := by
      rcases fires_cases hat hm with ⟨_, -, -, -, rfl, -⟩ | ⟨hdb, -⟩
      · cases hnext
      · exact hdb
    refine ⟨hdb, ?_⟩
    rcases go_begins hgo hat hnext with ⟨t₀, hp, rfl⟩ | hbegins
    · exact .inl ⟨t₀, hp, hnext⟩
    · exact .inr hbegins.opens
  · cases hnext

theorem fresh_of_run (h₀ : Start w₀) (h : (authentication P s).Run C w₀ w) {i : π} {t : Tail} (hp : w.proc i = .tail t) :
    t.Fresh w.db := by
  have hrun := h.using fun hv => outline_of_run h₀ hv
  refine hrun.invariant (I := fun w => ∀ i t, w.proc i = .tail t → t.Fresh w.db) (fun i t hp => ?_)
    (fun w i c m hI ⟨_, hat⟩ hm j t hp => ?_) i t hp
  · have he := h₀.entry i
    rw [hp] at he
    cases he
  rcases System.proc_after_eq hp with ⟨rfl, hnext⟩ | ⟨hij, hp⟩
  · obtain ⟨hdb, hcase⟩ := tail_after (hat j) hm hnext
    rw [hdb]
    rcases hcase with ⟨t₀, hp₀, hstep⟩ | hopens
    · exact (hI j t₀ hp₀).step hstep
    · exact fun x hx => absurd hx (hopens.unopened x)
  · intro x hx
    -- its id is locked, so nobody else has opened it
    have hholds : (w.proc j).Holds P s (fun k => w.owner k = some j) w.db := hat j
    rw [hp] at hholds
    have hlock := hholds.covered _ hx (.session x.id) (.inl rfl)
    have hagree := (rows P s).agree_of_owner (fun _ hop u hu k hk => (outline P s).covered hm.1 (hat i) hop u hu k hk) hij hlock
    exact (hagree : _ = _).trans (hI j t hp x hx)

end Runs

/-- A rotation: the sessions of the user that are `known` are to be listed yet, or each of them is revoked at the end
unless it is `kept`. -/
inductive Tail.Rotates (u : Uuid) (known kept : Uuid → Prop) (d : Db) (t : Tail) : Prop
  | ahead {keep : Uuid} (hlists : t.Lists u keep) (hkeep : (d.sessions.find keep).isSome = true)
      (hends : kept keep ∨ ∀ x, d.sessions.find keep = some x → x.live = true → t.Revokes keep)
  | listed (hdone : ∀ stmt ∈ t.todo, stmt.isRevokeOthers = false)
      (h : ∀ x ∈ d.sessions.rows, x.userId = u → x.live = true → known x.id → kept x.id ∨ t.Revokes x.id)

section Rotation
variable {d d' : Db} {t t' : Tail} {u : Uuid} {known known' kept : Uuid → Prop}

theorem revokes_step {id : Uuid} {x : UserSession} (h : (t.step d).next = .tail t') (hx : d.sessions.find id = some x)
    (hlive : x.live = true) (hr : t.Revokes id) : t'.Revokes id := by
  obtain ⟨stmt, rest, htodo, ⟨ks, w, ho, -, rfl⟩ | ⟨todo, ho, -, rfl⟩⟩ := tail_step h
  · rcases hr with ⟨now, hw⟩ | hs
    · exact .inl ⟨now, List.mem_append_left _ hw⟩
    · rw [htodo] at hs
      rcases List.mem_cons.1 hs with rfl | hs
      · rw [Stmt.outcome, hx, Option.any_some, hlive] at ho
        cases ho
        exact .inl ⟨_, List.mem_append_right _ List.mem_cons_self⟩
      · exact .inr hs
  · rcases hr with hw | hs
    · exact .inl hw
    · rw [htodo] at hs
      rcases List.mem_cons.1 hs with rfl | hs
      · rw [Stmt.outcome, hx, Option.any_some, hlive] at ho
        cases ho
      · exact .inr (List.mem_append_right _ hs)

theorem lists_nothing {now : Time} {written : List Write} {stmt : Stmt} {todo : List Stmt}
    (h : stmt.outcome d now written = .expand todo) : ∀ stmt' ∈ todo, stmt'.isRevokeOthers = false := by
  intro stmt' hmem
  cases stmt with
  | revokeOtherSessions | burnRecoveryCodes =>
    cases h
    obtain ⟨x, -, rfl⟩ := List.mem_map.1 hmem
    rfl
  | updateCredential | updateMfa => cases h
  | _ =>
    simp only [Stmt.outcome] at h
    split at h <;> cases h
    try cases hmem

theorem Tail.Rotates.step (h : (t.step d).next = .tail t') (hr : t.Rotates u known kept d) : t'.Rotates u known kept d := by
  obtain ⟨stmt, rest, htodo, hcase⟩ := tail_step h
  cases hr with
  | @ahead keep hlists hkeep hends =>
    have hends' : kept keep ∨ ∀ x, d.sessions.find keep = some x → x.live = true → t'.Revokes keep :=
      hends.imp_right fun hrev x hx hlive => revokes_step h hx hlive (hrev x hx hlive)
    obtain ⟨l, r, heq, hr⟩ := hlists
    rw [htodo] at heq
    cases l with
    | nil =>
      -- the statement that lists them
      cases heq
      obtain ⟨ks, w, ho, -, -⟩ | ⟨todo, ho, -, rfl⟩ := hcase
      · cases ho
      have hnone := lists_nothing ho
      cases ho
      refine .listed (fun stmt hmem => (List.mem_append.1 hmem).elim (hnone stmt) (hr stmt)) fun x hmem huser hlive _ => ?_
      have hfind := Table.find_of_mem hmem
      by_cases hid : x.id = keep
      · rw [hid] at hfind ⊢
        exact hends'.imp_right fun hrev => hrev x hfind hlive
      · refine .inr (.inr (List.mem_append_left _ (List.mem_map.2 ⟨x, List.mem_filter.2 ⟨hmem, ?_⟩, rfl⟩)))
        exact decide_eq_true ⟨huser, hid, hlive⟩
    | cons stmt' l =>
      cases heq
      obtain ⟨ks, w, -, -, rfl⟩ | ⟨todo, -, -, rfl⟩ := hcase
      · exact .ahead ⟨l, r, rfl, hr⟩ hkeep hends'
      · exact .ahead ⟨todo ++ l, r, (List.append_assoc ..).symm, hr⟩ hkeep hends'
  | listed hdone hall =>
    refine .listed (fun stmt' hmem => ?_) fun x hmem huser hlive hknown =>
      (hall x hmem huser hlive hknown).imp_right (revokes_step h (Table.find_of_mem hmem) hlive)
    have hrest : ∀ stmt' ∈ rest, stmt'.isRevokeOthers = false := fun stmt' hin =>
      hdone stmt' (by rw [htodo]; exact List.mem_cons_of_mem _ hin)
    obtain ⟨ks, w, -, -, rfl⟩ | ⟨todo, ho, -, rfl⟩ := hcase
    · exact hrest stmt' hmem
    · exact (List.mem_append.1 hmem).elim (lists_nothing ho stmt') (hrest stmt')

theorem Tail.Rotates.stable (hr : t.Rotates u known kept d) (hstays : Stays d d')
    (hold : (∀ stmt ∈ t.todo, stmt.isRevokeOthers = false) → ∀ x' ∈ d'.sessions.rows, x'.userId = u → x'.live = true → known' x'.id →
      ∃ x ∈ d.sessions.rows, x.id = x'.id ∧ x.userId = u ∧ x.live = true ∧ known x.id) : t.Rotates u known' kept d' := by
  cases hr with
  | @ahead keep hlists hkeep hends =>
    obtain ⟨x, hx⟩ := Option.isSome_iff_exists.1 hkeep
    obtain ⟨x', hx', hb⟩ := hstays.sessions keep x hx
    refine .ahead hlists (by rw [hx']; rfl) (hends.imp_right fun hrev y hy hlive => hrev x hx ?_)
    cases hx'.symm.trans hy
    by_contra hdead
    rw [hb.revoked (by simpa using hdead)] at hlive
    cases hlive
  | listed hdone hall =>
    refine .listed hdone fun x' hmem' huser' hlive' hknown' => ?_
    obtain ⟨x, hmem, hid, huser, hlive, hknown⟩ := hold hdone x' hmem' huser' hlive' hknown'
    exact hid ▸ hall x hmem huser hlive hknown

/-- After its commit, what stood before is revoked or kept. -/
theorem Tail.Rotates.commit (hr : t.Rotates u known kept d) (htodo : t.todo = []) {x x' : UserSession} (hmem : x ∈ d.sessions.rows)
    (huser : x.userId = u) (hknown : known x.id) (hx' : (t.writes.foldl Db.write d).sessions.find x.id = some x')
    (hlive' : x'.live = true) : kept x.id := by
  have hfind := Table.find_of_mem hmem
  obtain ⟨x'', hx'', hb⟩ := (Stays.foldl d t.writes).sessions x.id x hfind
  cases hx'.symm.trans hx''
  have hlive : x.live = true := by
    by_contra hdead
    rw [hb.revoked (by simpa using hdead)] at hlive'
    cases hlive'
  cases hr with
  | ahead hlists =>
    obtain ⟨l, r, heq, -⟩ := hlists
    rw [htodo] at heq
    cases l <;> cases heq
  | listed _ hall =>
    rcases hall x hmem huser hlive hknown with hkept | ⟨now, hw⟩ | hs
    · exact hkept
    · have hdead : x'.live = false := session_revoked hfind hw hx'
      rw [hdead] at hlive'
      cases hlive'
    · rw [htodo] at hs
      cases hs

end Rotation

end TestingPlatform.Auth
