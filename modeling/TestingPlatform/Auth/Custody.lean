import TestingPlatform.Auth.Registration
import TestingPlatform.Auth.Factor
import TestingPlatform.Auth.Steps
import TestingPlatform.Lib.History

/-!
# The identity material stays readable

Password hashes and TOTP seeds are stored under the key of their user, which the master key unwraps. One that does not open
ends a request in an internal error, and nothing the user can do helps. It does not come to that: what a request stores it
has encrypted under the key it unwrapped, an `UPDATE` writes a ciphertext as a whole whatever else it meets in the row, and
nothing replaces a key (`identity_material_readable`).
-/

namespace TestingPlatform.Auth

open ReadCommitted

/-! ### What opens -/

section Opens
variable (P : Primitives) (d : Db)

/-- Under the key of the user it is the hash of a password. -/
def OpensHash (u : Uuid) (blob : Bytes) : Prop :=
  ∃ kek salt password, userKek P d u = some kek ∧ P.decrypt blob kek .credential = some (P.hash salt password)

/-- Under the key of the user it is a seed. -/
def OpensSeed (u : Uuid) (blob : Bytes) : Prop :=
  ∃ kek secret, userKek P d u = some kek ∧ P.decrypt blob kek .mfaSecret = some secret

/-- Every stored hash and every stored seed opens. -/
structure Readable : Prop where
  hashes : ∀ u row, d.credentials.find u = some row → OpensHash P d u row.passwordCiphertext
  seeds : ∀ u row blob, d.mfa.find u = some row → row.totpSecretCiphertext = some blob → OpensSeed P d u blob

/-- What the write stores opens. -/
def Write.Opens : Write → Prop
  | .credential u c => ∀ blob, c.passwordCiphertext = some blob → OpensHash P d u blob
  | .mfa u c => ∀ blob, c.totpSecretCiphertext = some (some blob) → OpensSeed P d u blob
  | .insertMfa row => ∀ blob, row.totpSecretCiphertext = some blob → OpensSeed P d row.userId blob
  | _ => True

end Opens

section Writes
variable {P : Primitives} {s : Settings} {d d' : Db} {u : Uuid} {blob : Bytes}

theorem OpensHash.congr (h : OpensHash P d u blob) (hkek : userKek P d' u = userKek P d u) : OpensHash P d' u blob := by
  obtain ⟨kek, salt, password, hunwraps, hopens⟩ := h
  exact ⟨kek, salt, password, hkek.trans hunwraps, hopens⟩

theorem OpensSeed.congr (h : OpensSeed P d u blob) (hkek : userKek P d' u = userKek P d u) : OpensSeed P d' u blob := by
  obtain ⟨kek, secret, hunwraps, hopens⟩ := h
  exact ⟨kek, secret, hkek.trans hunwraps, hopens⟩

theorem Write.Opens.congr {w : Write} (h : w.Opens P d) (henv : d'.envelopes = d.envelopes) : w.Opens P d' := by
  cases w with
  | credential => exact fun blob hblob => (h blob hblob).congr (userKek_congr henv _)
  | mfa | insertMfa => exact fun blob hblob => (h blob hblob).congr (userKek_congr henv _)
  | _ => trivial

theorem opensHash_encrypt {salt nonce kek : Bytes} {password : String} (hkek : userKek P d u = some kek) :
    OpensHash P d u (encryptPassword P salt nonce password kek) :=
  ⟨kek, salt, password, hkek, P.decrypt_encrypt ..⟩

theorem opensSeed_encrypt {secret nonce kek : Bytes} (hkek : userKek P d u = some kek) :
    OpensSeed P d u (P.encrypt nonce kek .mfaSecret secret) :=
  ⟨kek, secret, hkek, P.decrypt_encrypt ..⟩

theorem net_eq_some {α : Type} [DecidableEq α] {loaded x : α} {assigned : Option α} (h : net loaded assigned = some x) :
    assigned = some x :=
  (Option.filter_eq_some_iff.1 h).1

theorem opens_credentialWrites {c : CredentialChange} (h : ∀ blob, c.passwordCiphertext = some blob → OpensHash P d u blob) :
    ∀ w ∈ credentialWrites u c, w.Opens P d := by
  intro w hw
  unfold credentialWrites at hw
  split at hw
  · cases hw
  · rw [List.mem_singleton.1 hw]
    exact h

theorem opens_mfaWrites {c : MfaChange} (h : ∀ blob, c.totpSecretCiphertext = some (some blob) → OpensSeed P d u blob) :
    ∀ w ∈ mfaWrites u c, w.Opens P d := by
  intro w hw
  rw [mem_mfaWrites hw]
  exact h

theorem opens_codeWrites {codes : RecoveryCodes} : ∀ w ∈ codeWrites P u codes, w.Opens P d := by
  intro w hw
  obtain ⟨code, -, rfl⟩ := List.mem_map.1 hw
  trivial

theorem opens_useWrites {row : UserMfa} {spent : Spent} {now : Time} : ∀ w ∈ useWrites row spent now, w.Opens P d := by
  intro w hw
  cases spent with
  | step => cases hw
  | recovery =>
    rw [List.mem_singleton.1 hw]
    trivial

theorem Decided.opens_blobs {held : Lock → Prop} {r : Request} {e : Event} {plan : List Write} (h : Decided P s held d r e plan) :
    ∀ w ∈ plan, w.Opens P d := by
  -- a flush that assigns no new seed
  have factor : ∀ {row : UserMfa} {c : MfaChange}, (∀ blob, c.totpSecretCiphertext ≠ some (some blob)) →
      ∀ w ∈ mfaWrites row.userId (row.flush c), w.Opens P d := fun hno =>
    opens_mfaWrites fun blob hblob => absurd (net_eq_some hblob) (hno blob)
  cases h with
  | @loginFailed c row =>
    refine opens_credentialWrites fun blob hblob => ?_
    have hassigned := net_eq_some hblob
    unfold recordFailure at hassigned
    split at hassigned <;> cases hassigned
  | @loggedIn c userId kek stored credential hkek =>
    rw [List.forall_mem_append]
    refine ⟨?_, fun w hw => by rw [List.mem_singleton.1 hw]; trivial⟩
    cases credential with
    | none => exact fun w hw => by cases hw
    | some row =>
      refine opens_credentialWrites fun blob hblob => ?_
      have hassigned := net_eq_some hblob
      unfold loginChange at hassigned
      dsimp only at hassigned
      split at hassigned <;> cases hassigned
      exact opensHash_encrypt hkek
  | loggedOut => exact fun w hw => by cases hw
  | passwordChanged hsession huser hop hkek =>
    rw [List.forall_mem_append]
    refine ⟨opens_credentialWrites fun blob hblob => ?_, fun w hw => by rw [List.mem_singleton.1 hw]; trivial⟩
    have hassigned : some (encryptPassword P _ _ _ _) = some blob := net_eq_some hblob
    cases hassigned
    exact opensHash_encrypt hkek
  | enrolled hsession hop hkek =>
    intro w hw
    rw [List.mem_singleton.1 hw]
    intro blob hblob
    cases hblob
    exact opensSeed_encrypt hkek
  | reenrolled hsession huser hop hkek =>
    refine opens_mfaWrites fun blob hblob => ?_
    have hassigned : some (some (P.encrypt _ _ .mfaSecret _)) = some (some blob) := net_eq_some hblob
    cases hassigned
    exact opensSeed_encrypt hkek
  | confirmed =>
    rw [List.forall_mem_append]
    refine ⟨factor (fun blob hblob => by cases hblob), fun w hw => ?_⟩
    rcases List.mem_cons.1 hw with rfl | hw
    · trivial
    · exact opens_codeWrites w hw
  | wrongCode _ hcounted =>
    refine factor fun blob hblob => ?_
    rcases recordMfaFailure_cases hcounted with ⟨-, _, -, -, rfl⟩ | ⟨-, -, rfl⟩ <;> cases hblob
  | steppedUp | completed | disabled =>
    rw [List.forall_mem_append, List.forall_mem_append]
    refine ⟨⟨opens_useWrites, factor (fun blob hblob => by cases hblob)⟩, fun w hw => ?_⟩
    rw [List.mem_singleton.1 hw]
    trivial
  | regenerated => exact opens_codeWrites

theorem Tail.Holds.opens_blobs {held : Lock → Prop} {t : Tail} (h : t.Holds P s held d) : ∀ w ∈ t.writes, w.Opens P d := by
  intro w hw
  by_cases hplanned : w.planned = true
  · exact h.decided.opens_blobs w (List.mem_append_left _ (List.mem_filter.2 ⟨hw, hplanned⟩))
  · cases w with
    | touch | revokeSession | supersedeCode => trivial
    | _ => exact absurd rfl hplanned

namespace Readable

theorem congr (h : Readable P d) (henv : d'.envelopes = d.envelopes) (hcredentials : d'.credentials = d.credentials)
    (hmfa : d'.mfa = d.mfa) : Readable P d' where
  hashes u row hrow := (h.hashes u row (hcredentials ▸ hrow)).congr (userKek_congr henv u)
  seeds u row blob hrow hblob := (h.seeds u row blob (hmfa ▸ hrow) hblob).congr (userKek_congr henv u)

theorem write (h : Readable P d) {w : Write} (hw : w.Opens P d) : Readable P (d.write w) := by
  cases w with
  | credential v c =>
    refine ⟨fun u row' hrow' => ?_, h.seeds⟩
    refine OpensHash.congr (d := d) ?_ rfl
    rw [Db.write, Table.find_modify] at hrow'
    split at hrow'
    next hv =>
      obtain ⟨row, hrow, rfl⟩ := Option.map_eq_some_iff.1 hrow'
      show OpensHash P d u (c.passwordCiphertext.getD row.passwordCiphertext)
      cases hc : c.passwordCiphertext with
      | none => exact h.hashes u row hrow
      | some blob => exact hv ▸ hw blob hc
    · exact h.hashes u row' hrow'
  | mfa v c =>
    refine ⟨h.hashes, fun u row' blob hrow' hblob => ?_⟩
    refine OpensSeed.congr (d := d) ?_ rfl
    rw [Db.write, Table.find_modify] at hrow'
    split at hrow'
    next hv =>
      obtain ⟨row, hrow, rfl⟩ := Option.map_eq_some_iff.1 hrow'
      have hset : c.totpSecretCiphertext.getD row.totpSecretCiphertext = some blob := hblob
      cases hc : c.totpSecretCiphertext with
      | none =>
        rw [hc, Option.getD_none] at hset
        exact h.seeds u row blob hrow hset
      | some stored =>
        rw [hc, Option.getD_some] at hset
        exact hv ▸ hw blob (hc.trans (congrArg some hset))
    · exact h.seeds u row' blob hrow' hblob
  | insertMfa row =>
    refine ⟨h.hashes, fun u row' blob hrow' hblob => ?_⟩
    refine OpensSeed.congr (d := d) ?_ rfl
    obtain rfl : row'.userId = u := Table.key_of_find hrow'
    rcases Table.mem_insert (Table.mem_of_find hrow') with hmem | rfl
    · exact h.seeds _ row' blob (Table.find_of_mem hmem) hblob
    · exact hw blob hblob
  | _ => exact h.congr rfl rfl rfl

theorem foldl {ws : List Write} (h : Readable P d) (hws : ∀ w ∈ ws, w.Opens P d) : Readable P (ws.foldl Db.write d) := by
  induction ws generalizing d with
  | nil => exact h
  | cons w ws ih =>
    refine ih (h.write (hws w List.mem_cons_self)) fun w' hw' => ?_
    exact (hws w' (List.mem_cons_of_mem _ hw')).congr (Stays.write d w).envelopes

end Readable

end Writes

/-! ### Requests -/

/-- The token of the cookie can be hashed. -/
def Proc.Hashable : Proc → Prop
  | .bootstrap c => isAscii c.token = true
  | _ => True

/-- The request is at a statement of its operation, and in no internal error. -/
def Proc.Fits : Proc → Prop
  | .credential c _ _ => (∃ currentPassword newPassword salt nonce opens,
        c.operation = .changePassword currentPassword newPassword salt nonce opens) ∨
      (∃ password secret nonce, c.operation = .enrollMfa password secret nonce) ∨
      ∃ password codes, c.operation = .regenerateRecoveryCodes password codes
  | .enrollRow c _ _ => ∃ password secret nonce, c.operation = .enrollMfa password secret nonce
  | .factor c _ => (∃ code codes, c.operation = .confirmMfa code codes) ∨ c.operation.code.isSome = true
  | .disableCredential c _ row => c.operation.code.isSome = true ∧ row.totpSecretCiphertext.isSome = true
  | .tail t => ∀ r, t.event ≠ .refused r
  | .refuse r => r ≠ .internalError
  | _ => True

section Requests
variable {P : Primitives} {s : Settings} {held : Lock → Prop} {d : Db} {c : Call} {current : AuthenticatedSession} {row : UserMfa}

theorem Readable.verifyCurrentPassword (h : Readable P d) {u : Uuid} {credential : UserCredential} {password : String} {r : Refusal}
    (hrow : d.credentials.find u = some credential) (hr : verifyCurrentPassword P d credential password = .error r) :
    r = .wrongCurrentPassword := by
  obtain ⟨kek, salt, stored, hkek, hstored⟩ := h.hashes u credential hrow
  rw [← Table.key_of_find hrow] at hkek
  rw [Auth.verifyCurrentPassword, hkek] at hr
  simp only [hstored, Option.bind_some, P.verify_hash] at hr
  split at hr
  · next hnone => cases hnone
  · cases hr
    rfl
  · cases hr

theorem Readable.seed (h : Readable P d) (hrow : d.mfa.find row.userId = some row) (hsome : row.totpSecretCiphertext.isSome = true) :
    ∃ secret, seed P d row = some secret := by
  obtain ⟨blob, hblob⟩ := Option.isSome_iff_exists.1 hsome
  obtain ⟨kek, secret, hkek, hsecret⟩ := h.seeds _ row blob hrow hblob
  exact ⟨secret, by rw [Auth.seed, hblob, Option.bind_some, hkek, Option.bind_some, hsecret]⟩

theorem fits_wrongCode : (wrongCode s c current row).Fits := by
  unfold wrongCode
  split
  · exact fun he => by cases he
  · exact fun _ => by simp

theorem fits_accepted {spent : Spent} (hcode : c.operation.code.isSome = true) : (accepted P c current row spent).Fits := by
  unfold accepted
  dsimp only
  split
  · split <;> exact fun _ => by simp
  · exact fun _ => by simp
  next hverify hdisable =>
    cases hop : c.operation with
    | verifyMfa code opens => exact absurd hop (hverify code opens)
    | disableMfa password code opens => exact absurd hop (hdisable password code opens)
    | _ => rw [hop] at hcode; cases hcode

theorem fits_spendCode (h : Readable P d) {code : Code} (hrow : d.mfa.find row.userId = some row)
    (hsome : row.totpSecretCiphertext.isSome = true) (hcode : c.operation.code.isSome = true) :
    (spendCode P s d c current row code).Fits := by
  cases code with
  | recovery => trivial
  | totp code =>
    obtain ⟨secret, hseed⟩ := h.seed hrow hsome
    unfold spendCode
    rw [hseed]
    dsimp only
    split
    · exact fits_wrongCode
    split
    · exact fits_wrongCode
    · exact fits_accepted hcode

theorem fits_onFactor (h : Readable P d) (hrow : d.mfa.find row.userId = some row)
    (hop : (∃ code codes, c.operation = .confirmMfa code codes) ∨ c.operation.code.isSome = true) :
    (onFactor P s d c current row).Fits := by
  have stored : ¬ (row.confirmedAt.isNone = true ∨ row.totpSecretCiphertext.isNone = true) → row.totpSecretCiphertext.isSome = true :=
    fun hnot => Option.isSome_iff_ne_none.2 fun hnone => hnot (.inr (by rw [hnone]; rfl))
  unfold onFactor
  split
  next hconfirm =>
    split
    · exact fun he => by cases he
    next hsome =>
      split
      · exact fun he => by cases he
      split
      · exact fun he => by cases he
      · obtain ⟨secret, hseed⟩ := h.seed hrow (Option.isSome_iff_ne_none.2 fun hnone => hsome (by rw [hnone]; rfl))
        unfold confirm
        rw [hseed]
        dsimp only
        split
        · exact fits_wrongCode
        · exact fun _ => by simp
  next hverify =>
    split
    · exact fun he => by cases he
    next hsome =>
      split
      · exact fun he => by cases he
      · exact fits_spendCode h hrow (stored hsome) (by rw [hverify]; rfl)
  next hdisable =>
    split
    · exact fun he => by cases he
    next hsome =>
      split
      · exact fun he => by cases he
      · exact ⟨by rw [hdisable]; rfl, stored hsome⟩
  next hconfirm hverify hdisable =>
    rcases hop with ⟨code, codes, hop⟩ | hcode
    · exact absurd hop (hconfirm code codes)
    · cases hop : c.operation with
      | verifyMfa code opens => exact absurd hop (hverify code opens)
      | disableMfa password code opens => exact absurd hop (hdisable password code opens)
      | _ => rw [hop] at hcode; cases hcode

theorem fits_enter : (enter s c current).Fits := by
  have assured : ∀ {r}, requireCurrentMfaAssurance s current = some r → r ≠ .internalError := fun hr => by
    unfold requireCurrentMfaAssurance at hr
    split at hr
    · cases hr
      simp
    split at hr
    · cases hr
    · cases hr
      simp
  unfold enter
  cases hop : c.operation with
  | logout => exact fun _ => by simp
  | changePassword => exact .inl ⟨_, _, _, _, _, hop⟩
  | enrollMfa => exact .inr (.inl ⟨_, _, _, hop⟩)
  | confirmMfa => exact .inl ⟨_, _, hop⟩
  | verifyMfa => exact .inr (by rw [hop]; rfl)
  | disableMfa =>
    dsimp only
    cases hr : requireCurrentMfaAssurance s current with
    | none => exact .inr (by rw [hop]; rfl)
    | some r => exact assured hr
  | regenerateRecoveryCodes =>
    dsimp only
    cases hr : requireCurrentMfaAssurance s current with
    | none => exact .inr (.inr ⟨_, _, hop⟩)
    | some r => exact assured hr

theorem fits_onPassword {credential : UserCredential} {kek : Bytes} {password : String} (h : (Proc.credential c current password).Fits) :
    (onPassword P c current credential kek).Fits := by
  unfold onPassword
  rcases h with ⟨_, _, _, _, _, hop⟩ | ⟨_, _, _, hop⟩ | ⟨_, _, hop⟩ <;> rw [hop]
  · exact fun _ => by simp
  · exact ⟨_, _, _, hop⟩
  · trivial

theorem fits_enroll {kek secret nonce : Bytes} {found : Option UserMfa} : (enroll P c current kek secret nonce found).Fits := by
  unfold enroll
  dsimp only
  split
  · exact fun _ => by simp
  · split
    · exact fun he => by cases he
    · exact fun _ => by simp

theorem outcome_refuse {stmt : Stmt} {now : Time} {written : List Write} {r : Refusal} (h : stmt.outcome d now written = .refuse r) :
    r ≠ .internalError := by
  cases stmt with
  | updateCredential | updateMfa | revokeOtherSessions | burnRecoveryCodes => cases h
  | insertMfa | stampSession | revokeSession | supersedeCode | openSession | insertCode =>
    simp only [Stmt.outcome] at h
    split at h <;> cases h
    all_goals simp

theorem fits_step {t : Tail} (h : (Proc.tail t).Fits) : (t.step d).next.Fits := by
  unfold Tail.step
  split
  · trivial
  split
  · exact h
  · exact h
  next hr => exact outcome_refuse hr

/-- Over readable material a statement leads to no internal error, unless the token of the cookie cannot be hashed. -/
theorem Proc.Fits.next {p : Proc} {m : Step} (h : p.Fits) (hhash : p.Hashable) (hread : Readable P d) (hA : p.Holds P s held d)
    (hm : go P s d p = some m) : m.next.Fits := by
  cases p with
  | login c =>
    cases hm
    dsimp only
    split
    · exact fun he => by cases he
    next found hlookup =>
      obtain ⟨a, -, hmap⟩ := Option.bind_eq_some_iff.1 hlookup
      obtain ⟨credential, hcredential, rfl⟩ := Option.map_eq_some_iff.1 hmap
      obtain ⟨kek, salt, stored, hkek, hstored⟩ := hread.hashes _ credential hcredential
      split
      · exact fun he => by cases he
      split
      · exact fun he => by cases he
      simp only [hkek, hstored, P.verify_hash]
      split
      · next hnone => cases hnone
      · trivial
      · trivial
  | recordFailure c u =>
    cases hm
    dsimp only
    split
    · exact fun he => by cases he
    · exact fun _ => by simp
  | loginCredential =>
    cases hm
    exact fun _ => by simp
  | bootstrap c =>
    cases hm
    dsimp only
    split
    · exact fun he => by cases he
    split
    next hascii =>
      have hhash : isAscii c.token = true := hhash
      rw [hhash] at hascii
      cases hascii
    split
    · exact fun he => by cases he
    split
    · exact fun he => by cases he
    · trivial
  | mfaState c sessionId userId =>
    obtain ⟨x, hx, -⟩ := hA
    cases hm
    dsimp only
    rw [hx]
    dsimp only
    split
    · exact fun he => by cases he
    · trivial
  | touch c current =>
    cases hm
    exact fits_enter
  | credential c current password =>
    cases hm
    dsimp only
    split
    · exact fun he => by cases he
    next credential hcredential =>
      split
      next r hr =>
        rw [hread.verifyCurrentPassword hcredential hr]
        exact fun he => by cases he
      · exact fits_onPassword h
  | enrollRow c current kek =>
    obtain ⟨password, secret, nonce, hop⟩ := h
    cases hm
    dsimp only
    rw [hop]
    exact fits_enroll
  | regenerateRow c current =>
    cases hm
    dsimp only
    split
    · split
      · exact fun he => by cases he
      · exact fun _ => by simp
    · exact fun he => by cases he
  | factor c current =>
    simp only [go] at hm
    split at hm <;> cases hm
    · exact fun he => by cases he
    next row hrow =>
      have huser : row.userId = current.userId := Table.key_of_find hrow
      exact fits_onFactor hread (by rw [huser]; exact hrow) h
  | disableCredential c current row =>
    cases hm
    dsimp only
    split
    next credential password code opens hcredential hop =>
      split
      next r hr =>
        rw [hread.verifyCurrentPassword hcredential hr]
        exact fun he => by cases he
      · exact fits_spendCode hread hA.stored h.2 h.1
    · exact fun he => by cases he
  | consume c current row hash =>
    obtain ⟨code, hcode, -⟩ := hA.2
    simp only [go] at hm
    split at hm <;> cases hm
    · exact fits_accepted (by rw [hcode]; rfl)
    · exact fits_wrongCode
  | tail t =>
    cases hm
    exact fits_step h
  | refuse =>
    cases hm
    trivial
  | done => cases hm

theorem hashable_next {p : Proc} {m : Step} (hA : p.Holds P s held d) (hm : go P s d p = some m) : m.next.Hashable := by
  have hleads := go_leads hm hA
  generalize m.next = q at hleads
  cases q with
  | bootstrap =>
    cases hleads with
    | lookedUp _ _ _ _ _ _ _ hq => split at hq <;> cases hq
    | undecided _ hq => cases hq
  | _ => trivial

theorem Proc.Fits.silent {p : Proc} {m : Step} {a : Choice} (h : p.Fits) (hm : (authentication P s).move d p a = some m) :
    .refused .internalError ∉ m.emit := by
  intro hmem
  rcases System.move_abortable hm with hgo | rfl
  · cases p with
    | refuse r =>
      cases hgo
      exact h (Event.refused.inj (List.mem_singleton.1 hmem)).symm
    | tail t =>
      cases hgo
      unfold Tail.step at hmem
      split at hmem
      · exact h _ (List.mem_singleton.1 hmem).symm
      · split at hmem <;> cases hmem
    | factor | consume =>
      simp only [go] at hgo
      split at hgo <;> cases hgo <;> cases hmem
    | done => cases hgo
    | _ =>
      cases hgo
      cases hmem
  · cases hmem

end Requests

/-! ### Registrations -/

section Register
variable {P : Primitives} {statements : Statements} {d d' : Db} {x : Registration P}

theorem register_keys (h : register P statements d x = .ok d') :
    (∃ userKey : WrappedKey P, userKek P d' x.userId = some userKey.key ∧
      d'.credentials = d.credentials.insert (x.credential userKey)) ∧
    ∀ u, u ≠ x.userId → userKek P d' u = userKek P d u := by
  obtain ⟨-, organizationKey, userKey, -, -, hvacant, -, hd⟩ := register_eq_ok.1 h
  have henvelopes : d'.envelopes = d.envelopes.insert (x.envelope userKey) := by rw [hd]; rfl
  refine ⟨⟨userKey, ?_, by rw [hd]; rfl⟩, fun u hu => ?_⟩
  · rw [userKek, henvelopes, show (d.envelopes.insert (x.envelope userKey)).find x.userId = some (x.envelope userKey) from
      Table.find_insert_self hvacant.envelope]
    exact userKey.unwraps
  · have hne : (x.envelope userKey).userId ≠ u := Ne.symm hu
    rw [userKek, userKek, henvelopes, Table.find_insert_of_ne hne]

theorem register_vacant (h : register P statements d x = .ok d') : d.envelopes.find x.userId = none := by
  obtain ⟨-, _, _, -, -, hvacant, -⟩ := register_eq_ok.1 h
  exact hvacant.envelope

theorem Readable.register (h : Readable P d) (hx : register P statements d x = .ok d') : Readable P d' := by
  obtain ⟨⟨userKey, hkek, hcredentials⟩, hothers⟩ := register_keys hx
  -- what opens belongs to somebody with a key, and the new user had none
  have other : ∀ {u : Uuid} {kek : Bytes}, userKek P d u = some kek → userKek P d' u = userKek P d u := by
    intro u kek hu
    refine hothers u fun he => ?_
    rw [he, userKek, register_vacant hx] at hu
    cases hu
  constructor
  · intro u row hrow
    rw [hcredentials] at hrow
    obtain rfl : row.userId = u := Table.key_of_find hrow
    rcases Table.mem_insert (Table.mem_of_find hrow) with hmem | rfl
    · have hopens := h.hashes _ row (Table.find_of_mem hmem)
      obtain ⟨kek, salt, password, hold, -⟩ := id hopens
      exact hopens.congr (other hold)
    · exact opensHash_encrypt hkek
  · intro u row blob hrow hblob
    rw [(register_frame hx).2] at hrow
    have hopens := h.seeds u row blob hrow hblob
    obtain ⟨kek, secret, hold, -⟩ := id hopens
    exact hopens.congr (other hold)

end Register

/-! ### Every deployment -/

/-- A database that a deployment can come to: registrations, and requests in any number at a time, of which any may be
aborted. -/
inductive Deployed (P : Primitives) (s : Settings) : Db → Prop where
  | empty : Deployed P s
      { users := .empty, envelopes := .empty, credentials := .empty, sessions := .empty, mfa := .empty, codes := .empty }
  | registered {statements : Statements} {d d' : Db} {x : Registration P} (h : Deployed P s d)
      (hx : register P statements d x = .ok d') : Deployed P s d'
  | served {π : Type} [DecidableEq π] {w₀ w : Requests π} (h : Deployed P s w₀.db) (h₀ : Start w₀)
      (hrun : (authentication P s).Run (fun _ _ => True) w₀ w) : Deployed P s w.db

section Runs
variable {π : Type} [DecidableEq π] {P : Primitives} {s : Settings} {C : Requests π → π × Choice → Prop} {w₀ w : Requests π}

theorem Readable.step {i : π} {c : Choice} {m : Step} (h : Readable P w.db) (hat : (outline P s).At w i)
    (hm : (authentication P s).Fires w i c m) : Readable P ((authentication P s).after w i m).db := by
  rcases fires_cases hat hm with ⟨t, -, -, -, rfl, hholds⟩ | ⟨hdb, -⟩
  · exact h.foldl hholds.opens_blobs
  · rw [hdb]
    exact h

theorem readable_of_run (h : Readable P w₀.db) (h₀ : Start w₀) (hrun : (authentication P s).Run C w₀ w) : Readable P w.db :=
  (hrun.using fun hv => outline_of_run h₀ hv).invariant (I := fun v => Readable P v.db) h
    fun _ i _ _ hread ⟨_, hat⟩ hm => hread.step (hat i) hm

theorem Deployed.readable {d : Db} (h : Deployed P s d) : Readable P d := by
  induction h with
  | empty => exact ⟨fun _ _ hrow => (by cases hrow), fun _ _ _ hrow => by cases hrow⟩
  | registered _ hx ih => exact ih.register hx
  | served _ h₀ hrun ih => exact readable_of_run ih h₀ hrun

theorem fits_of_run (h : Readable P w₀.db) (h₀ : Start w₀) (hrun : (authentication P s).Run C w₀ w) {i : π}
    (hhash : (w₀.proc i).Hashable) : (w.proc i).Fits ∧ (w.proc i).Hashable := by
  have hbegin : (w₀.proc i).Fits := by
    have he := h₀.entry i
    generalize w₀.proc i = p at he
    cases p with
    | login | bootstrap | done => trivial
    | _ => cases he
  refine (hrun.using fun hv => And.intro (outline_of_run h₀ hv) (readable_of_run h h₀ hv)).invariant
    (I := fun v => (v.proc i).Fits ∧ (v.proc i).Hashable) ⟨hbegin, hhash⟩ fun v j c m ⟨hfits, hhash⟩ ⟨_, hat, hread⟩ hm => ?_
  by_cases hij : i = j
  · subst hij
    rw [System.proc_after_self]
    rcases System.move_abortable hm.1 with hgo | rfl
    · exact ⟨hfits.next hhash hread (hat i) hgo, hashable_next (hat i) hgo⟩
    · exact ⟨trivial, trivial⟩
  · rw [System.proc_after_of_ne hij]
    exact ⟨hfits, hhash⟩

/-- In every deployment, whatever requests are served and however they interleave, every stored hash and every stored seed
opens under the key of its user, and no request whose cookie can be hashed is refused with an internal error. -/
theorem identity_material_readable {H : List (Taken π Lock Write Db Proc Event)} (hd : Deployed P s w₀.db) (h₀ : Start w₀)
    (h : (authentication P s).Path C w₀ H w) :
    Readable P w.db ∧ ∀ t ∈ H, (w₀.proc t.proc).Hashable → .refused .internalError ∉ t.move.emit := by
  refine ⟨readable_of_run hd.readable h₀ h.run, ?_⟩
  refine h.invariant (I := fun H _ => ∀ t ∈ H, (w₀.proc t.proc).Hashable → .refused .internalError ∉ t.move.emit)
    (fun t ht => by cases ht) fun H v i c m hrun ih _ hm t ht hhash => ?_
  rcases List.mem_append.1 ht with ht | ht
  · exact ih t ht hhash
  · obtain rfl := List.mem_singleton.1 ht
    exact (fits_of_run hd.readable h₀ hrun hhash).1.silent hm.1

end Runs

namespace Custody

/-- The database after the registration of a user. -/
def db : Db :=
  ((register Primitives.plain Consent.statements Consent.db (Consent.registration [Consent.terms.key])).toOption).getD Consent.db

/-- The user logs in and enrolls a factor. -/
def requests : Bool → Proc
  | true => .login ⟨"user@example.lu", "correct horse", Time.seconds 60, [], [], ⟨10, "first", by decide⟩⟩
  | false => .bootstrap ⟨"first", Time.seconds 61, .enrollMfa "correct horse" Primitives.rfcSecret []⟩

def begin : Requests Bool where
  db
  owner _ := none
  proc := requests
  trace := []

theorem start : Start begin where
  entry := fun | true | false => trivial
  trace := rfl

theorem deployed : Deployed Primitives.plain Settings.shipped begin.db := by
  have hok : (register Primitives.plain Consent.statements Consent.db (Consent.registration [Consent.terms.key])).isOk = true := by
    decide +kernel
  have hregister : register Primitives.plain Consent.statements Consent.db (Consent.registration [Consent.terms.key]) = .ok db := by
    unfold db
    cases hr : register Primitives.plain Consent.statements Consent.db (Consent.registration [Consent.terms.key]) with
    | error r => rw [hr] at hok; cases hok
    | ok d => rfl
  exact .registered .empty hregister

end Custody

open Custody in
/-- A user registers, logs in and enrolls; what is stored then opens. -/
theorem identity_material_readable_after_enrollment :
    ∃ (H : List (Taken Bool Lock Write Db Proc Event)) (w : Requests Bool), w.trace.length = 2 ∧
      (w.db.mfa.find 2).isSome = true ∧ Readable Primitives.plain w.db ∧ ∀ t ∈ H, .refused .internalError ∉ t.move.emit := by
  have htrail : ((authentication Primitives.plain Settings.shipped).trail (fun _ _ => True) begin (steps true 4 ++ steps false 7)).any
      (fun s => s.2.trace.length = 2 && (s.2.db.mfa.find 2).isSome) = true := by
    decide +kernel
  obtain ⟨H, w, hpath, htest⟩ := System.Path.of_trail_any htrail
  rw [Bool.and_eq_true, decide_eq_true_eq] at htest
  obtain ⟨hread, hquiet⟩ := identity_material_readable deployed start hpath
  refine ⟨H, w, htest.1, htest.2, hread, fun t ht => hquiet t ht ?_⟩
  show (requests t.proc).Hashable
  cases t.proc with
  | true => trivial
  | false => exact (by decide : isAscii "first" = true)

end TestingPlatform.Auth
