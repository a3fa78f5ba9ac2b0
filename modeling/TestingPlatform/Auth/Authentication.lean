import TestingPlatform.Auth.Guesses
import TestingPlatform.Auth.Passwords

/-!
# Password authentication

Registrations and requests one after the other under one master key. Three functions write a stored hash: the registration
under the key it draws, the login that hashes again, and the password change, both under the key that they unwrap from
the envelope of the user. So every hash decrypts under that key, to the password that was registered or changed to last
(`Ledger`), and a login opens a session on that password and on no other (`password_authentication`).
-/

namespace TestingPlatform.Auth

open ReadCommitted

/-! ### One after the other -/

inductive Turn (P : Primitives) where
  | registration (x : Registration P) (accepted : Bool)
  | answer (r : Request) (e : Event)

/-- The password that it sets for the user. -/
def Turn.sets {P : Primitives} (u : Uuid) : Turn P → Option String
  | .registration x true => if x.userId = u then some x.password else none
  | .answer _ (.passwordChanged v _ new _) => if v = u then some new else none
  | _ => none

/-- The password of the latest registration or change. -/
def latestPassword {P : Primitives} (u : Uuid) (log : List (Turn P)) : Option String := (log.filterMap (Turn.sets u)).getLast?

/-- `disabled_at` is set, or unset; no function of the service does. -/
def Db.disable (d : Db) (u : Uuid) (at_ : Option Time) : Db :=
  { d with users := d.users.modify u fun a => { a with disabledAt := at_ } }

/-- Registrations and requests one after the other, with what they have answered. A request may be aborted at any
statement. -/
inductive Chronicle (P : Primitives) (s : Settings) (d₀ : Db) : List (Turn P) → Db → Prop
  | start : Chronicle P s d₀ [] d₀
  | registration {log : List (Turn P)} {d : Db} (h : Chronicle P s d₀ log d) (statements : Statements) (x : Registration P) :
      Chronicle P s d₀ (log ++ [.registration x (register P statements d x).isOk]) (committed d (register P statements d x))
  | request {log : List (Turn P)} {d : Db} {w : Requests Unit} (h : Chronicle P s d₀ log d) (r : Request)
      (hrun : (authentication P s).Run (fun _ _ => True) (alone d r) w) (hdone : w.proc () = .done) :
      Chronicle P s d₀ (log ++ w.trace.map (.answer r)) w.db
  | disabling {log : List (Turn P)} {d : Db} (h : Chronicle P s d₀ log d) (u : Uuid) (at_ : Option Time) :
      Chronicle P s d₀ log (d.disable u at_)

section Latest
variable {P : Primitives} {u : Uuid} {log : List (Turn P)} {t : Turn P} {p : String}

theorem latestPassword_append_of_some (h : t.sets u = some p) : latestPassword u (log ++ [t]) = some p := by
  rw [latestPassword, List.filterMap_append, List.filterMap_cons_some h, List.filterMap_nil, List.getLast?_concat]

theorem latestPassword_append_of_none (h : t.sets u = none) : latestPassword u (log ++ [t]) = latestPassword u log := by
  rw [latestPassword, List.filterMap_append, List.filterMap_cons_none h, List.filterMap_nil, List.append_nil, latestPassword]

theorem sets_refused (r : Request) (e : Event) (h : ∃ reason, e = .refused reason) : (Turn.answer r e : Turn P).sets u = none := by
  obtain ⟨reason, rfl⟩ := h
  rfl

theorem latestPassword_refused {r : Request} {refused : List Event} (h : ∀ e ∈ refused, ∃ reason, e = .refused reason) :
    latestPassword u (log ++ refused.map (.answer r)) = latestPassword u log := by
  have hnil : (refused.map (Turn.answer r : Event → Turn P)).filterMap (Turn.sets u) = [] := by
    refine List.filterMap_eq_nil_iff.2 fun t ht => ?_
    obtain ⟨e, he, rfl⟩ := List.mem_map.1 ht
    exact sets_refused r e (h e he)
  rw [latestPassword, List.filterMap_append, hnil, List.append_nil, latestPassword]

end Latest

/-- The accounts and their passwords: every stored hash is that of the password set last, every account has one, and no two
accounts have one address. -/
structure Ledger {P : Primitives} (log : List (Turn P)) (d : Db) : Prop where
  stored : ∀ u row, d.credentials.find u = some row → ∃ p, latestPassword u log = some p ∧ Stores P d row p
  credential : ∀ a ∈ d.users.rows, (d.credentials.find a.id).isSome = true
  address : ∀ a ∈ d.users.rows, ∀ b ∈ d.users.rows, P.sqlLower a.email = P.sqlLower b.email → a = b

/-! ### The password that a request has verified -/

/-- The password that the request has found to be the stored one. -/
def Event.verified : Event → Option (Uuid × String)
  | .loggedIn u p _ | .passwordChanged u p _ _ => some (u, p)
  | _ => none

def Proc.verified : Proc → Option (Uuid × String)
  | .loginCredential c u _ _ => some (u, c.password)
  | .tail t => t.event.verified
  | _ => none

theorem verified_of_call {q : Proc} {x : Call × AuthenticatedSession} (h : q.call = some x) : q.verified = none := by
  cases q <;> first | rfl | cases h

/-- A request alone has verified what is stored. -/
theorem verified_next {P : Primitives} {s : Settings} {held : Lock → Prop} {d : Db} {p : Proc} {m : Step} (hA : p.Holds P s held d)
    (h : go P s d p = some m) (hp : ∀ x ∈ p.verified, verifies P d x.1 x.2 = true) : ∀ x ∈ m.next.verified, verifies P d x.1 x.2 = true := by
  have hleads := go_leads h hA
  generalize m.next = q at hleads
  intro x hx
  cases hleads with
  | @lookedUp c a credential kek stored _ verified _ hcredential _ _ hkek hstored hverify hq =>
    subst hq
    cases verified with
    | false => cases hx
    | true =>
      cases hx
      have hverifies : (verifyCurrentPassword P d credential c.password).isOk = true := by
        rw [verifyCurrentPassword, Table.key_of_find hcredential, hkek]
        simp only [hstored, Option.bind_some, hverify]
        rfl
      show verifies P d a.id c.password = true
      rw [verifies, hcredential]
      exact hverifies
  | undecided _ hq =>
    rw [verified_of_call hq] at hx
    cases hx
  | decided hbegins =>
    cases hbegins with
    | loggedIn => exact hp x hx
    | passwordChanged _ _ hcredential hverify =>
      cases hx
      rw [verifies, hcredential, Option.any_some, hverify]
      rfl
    | _ => cases hx
  | went hstep =>
    rw [Proc.verified, (plan_step hstep).2.1] at hx
    exact hp x hx
  | _ => cases hx

/-! ### A login -/

/-- The account of the address is neither disabled nor locked. -/
structure Admits (P : Primitives) (d : Db) (c : LoginCall) (a : AppUser) : Prop where
  account : a ∈ d.users.rows
  /-- The address of the account, up to case. -/
  email : P.sqlLower a.email = P.sqlLower (P.lower c.email)
  enabled : a.disabledAt = none
  unlocked : ∀ row, d.credentials.find a.id = some row → ∀ t, row.lockedUntil = some t → t ≤ c.now

/-- A login has looked the account up, and has written what it planned and nothing else. -/
def Proc.Seeks (P : Primitives) (d : Db) (c : LoginCall) : Proc → Prop
  | .login c' => c' = c
  | .recordFailure c' u | .loginCredential c' u _ _ => c' = c ∧ ∃ a, Admits P d c a ∧ a.id = u
  | .tail t => (∃ a, Admits P d c a ∧ (t.event = .loginFailed a.id ∨ t.event = .loggedIn a.id c.password c.opens.id)) ∧
      (∀ u ∈ t.writes, u.planned = true) ∧
      ∀ stmt ∈ t.todo, (∃ u change, stmt = .updateCredential u change) ∨ ∃ row, stmt = .openSession row
  | .refuse _ | .done => True
  | _ => False

section Login
variable {P : Primitives} {s : Settings} {held : Lock → Prop} {d : Db} {c : LoginCall} {a : AppUser} {m : Step}

theorem mem_updateCredential {u : Uuid} {change : CredentialChange} {stmt : Stmt} (h : stmt ∈ updateCredential u change) :
    stmt = .updateCredential u change := by
  unfold updateCredential at h
  split at h
  · cases h
  · exact List.mem_singleton.1 h

theorem Proc.Seeks.call {p : Proc} (h : p.Seeks P d c) : p.call = none := by
  cases p <;> first | rfl | cases h

theorem Begins.seeks {p : Proc} {t : Tail} (h : Begins P s d p t) (hp : p.Seeks P d c) : (Proc.tail t).Seeks P d c := by
  cases h with
  | @loginFailed _ _ row hrow =>
    obtain ⟨rfl, a, ha, rfl⟩ := hp
    exact ⟨⟨a, ha, .inl rfl⟩, fun u hu => (by cases hu), fun stmt hstmt => .inl ⟨_, _, mem_updateCredential hstmt⟩⟩
  | loggedIn =>
    obtain ⟨rfl, a, ha, rfl⟩ := hp
    refine ⟨⟨a, ha, .inr rfl⟩, fun u hu => (by cases hu), fun stmt hstmt => ?_⟩
    rcases List.mem_append.1 hstmt with hstmt | hstmt
    · cases hrow : d.credentials.find a.id with
      | none =>
        rw [hrow] at hstmt
        cases hstmt
      | some row =>
        rw [hrow] at hstmt
        exact .inl ⟨_, _, mem_updateCredential hstmt⟩
    · exact .inr ⟨_, List.mem_singleton.1 hstmt⟩
  | wrongCode hcall | steppedUp hcall | completed hcall | disabled hcall =>
    rw [hp.call] at hcall
    cases hcall
  | _ => cases hp

theorem seeks_next {p : Proc} (hA : p.Holds P s held d) (h : go P s d p = some m) (hp : p.Seeks P d c) : m.next.Seeks P d c := by
  have hleads := go_leads h hA
  generalize m.next = q at hleads
  cases hleads with
  | refused | uncounted | ended => trivial
  | @lookedUp c' a credential _ _ _ verified haccount hcredential henabled hopen _ _ _ hq =>
    cases hp
    have hadmits : Admits P d c a := by
      refine ⟨List.mem_of_find?_eq_some haccount, by simpa using List.find?_some haccount, henabled, fun row hrow => ?_⟩
      cases hcredential.symm.trans hrow
      exact hopen
    subst hq
    cases verified <;> exact ⟨rfl, a, hadmits, rfl⟩
  | letIn | passed => cases hp
  | undecided hcall =>
    rcases hcall with rfl | hcall
    · cases hp
    · rw [hp.call] at hcall
      cases hcall
  | decided hbegins => exact hbegins.seeks hp
  | @went t t' hstep =>
    obtain ⟨⟨a, ha, hevent⟩, hwrites, htodo⟩ := hp
    obtain ⟨-, hevent', -⟩ := plan_step hstep
    obtain ⟨stmt, rest, heq, hcase⟩ := tail_step hstep
    have hrest : ∀ stmt ∈ rest, (∃ u change, stmt = .updateCredential u change) ∨ ∃ row, stmt = .openSession row :=
      fun stmt hstmt => htodo stmt (heq ▸ List.mem_cons_of_mem _ hstmt)
    refine ⟨⟨a, ha, hevent' ▸ hevent⟩, ?_⟩
    rcases hcase with ⟨ks, u, ho, -, rfl⟩ | ⟨todo, ho, -, -⟩
    · refine ⟨fun v hv => ?_, hrest⟩
      rcases List.mem_append.1 hv with hv | hv
      · exact hwrites v hv
      · cases List.mem_singleton.1 hv
        rcases htodo stmt (heq ▸ List.mem_cons_self) with ⟨v, change, rfl⟩ | ⟨row, rfl⟩
        · cases ho
          rfl
        · simp only [Stmt.outcome] at ho
          split at ho <;> cases ho
          rfl
    · -- none of these statements turns out to be others
      rcases htodo stmt (heq ▸ List.mem_cons_self) with ⟨v, change, rfl⟩ | ⟨row, rfl⟩
      · cases ho
      · simp only [Stmt.outcome] at ho
        split at ho <;> cases ho

end Login

/-! ### The ledger -/

section Ledger
variable {P : Primitives} {s : Settings} {held : Lock → Prop} {log : List (Turn P)} {d d' : Db} {r : Request} {e : Event}
  {ws : List Write} {u : Uuid} {row row' : UserCredential} {p : String}

theorem users_foldl (d : Db) (ws : List Write) : (ws.foldl Db.write d).users = d.users := by
  induction ws generalizing d with
  | nil => rfl
  | cons w ws ih =>
    rw [List.foldl_cons, ih]
    cases w <;> rfl

/-- A registration keeps the ledger: its hash is encrypted under the key in its envelope. -/
theorem Ledger.registered {statements : Statements} {x : Registration P} (hl : Ledger log d) (h : register P statements d x = .ok d') :
    Ledger (log ++ [.registration x true]) d' := by
  obtain ⟨-, organizationKey, userKey, -, hunused, hvacant, -, hd⟩ := register_eq_ok.1 h
  rw [hd]
  have hother : ∀ {v : Uuid}, x.userId ≠ v →
      latestPassword v (log ++ [.registration x true]) = latestPassword v log ∧ userKek P (provisioned d x organizationKey userKey d'.receipts) v = userKek P d v :=
    fun {v} hv => by
      refine ⟨latestPassword_append_of_none (if_neg hv), ?_⟩
      show ((d.envelopes.insert (x.envelope userKey)).find v).bind _ = (d.envelopes.find v).bind _
      rw [Table.find_insert_of_ne (show (x.envelope userKey).userId ≠ v from hv)]
  refine ⟨fun v row hrow => ?_, fun a ha => ?_, fun a ha b hb hemail => ?_⟩
  · have hrow' : (d.credentials.insert (x.credential userKey)).find v = some row := hrow
    by_cases hv : x.userId = v
    · subst hv
      have hnew : (d.credentials.insert (x.credential userKey)).find x.userId = some (x.credential userKey) :=
        Table.find_insert_self (a := x.credential userKey) hvacant.credential
      have henvelope : (d.envelopes.insert (x.envelope userKey)).find x.userId = some (x.envelope userKey) :=
        Table.find_insert_self (a := x.envelope userKey) hvacant.envelope
      cases hrow'.symm.trans hnew
      refine ⟨x.password, latestPassword_append_of_some (if_pos rfl), userKey.key, x.salt, ?_, P.decrypt_encrypt _ _ _ _⟩
      show ((d.envelopes.insert (x.envelope userKey)).find x.userId).bind _ = _
      rw [henvelope]
      exact userKey.unwraps
    · rw [Table.find_insert_of_ne (show (x.credential userKey).userId ≠ v from hv)] at hrow'
      obtain ⟨p, hp, kek, salt, hkek, hstored⟩ := hl.stored v row hrow'
      obtain ⟨hlatest, hkek'⟩ := hother hv
      refine ⟨p, hlatest.trans hp, kek, salt, ?_, hstored⟩
      rw [Table.key_of_find hrow'] at hkek ⊢
      exact hkek'.trans hkek
  · have hinsert : a ∈ (d.users.insert x.user).rows := ha
    show ((d.credentials.insert (x.credential userKey)).find a.id).isSome = true
    rcases Table.mem_insert hinsert with hold | rfl
    · obtain ⟨row, hrow⟩ := Option.isSome_iff_exists.1 (hl.credential a hold)
      have hne : (x.credential userKey).userId ≠ a.id := fun hid => by
        have hnone : d.credentials.find x.userId = none := hvacant.credential
        rw [show x.userId = a.id from hid, hrow] at hnone
        cases hnone
      rw [Table.find_insert_of_ne hne, hrow]
      rfl
    · have hnew := Table.find_insert_self (a := x.credential userKey) hvacant.credential
      exact Option.isSome_iff_exists.2 ⟨_, hnew⟩
  · rcases Table.mem_insert (show a ∈ (d.users.insert x.user).rows from ha) with ha | rfl
    · rcases Table.mem_insert (show b ∈ (d.users.insert x.user).rows from hb) with hb | rfl
      · exact hl.address a ha b hb hemail
      · exact absurd hemail (hunused a ha)
    · rcases Table.mem_insert (show b ∈ (d.users.insert x.user).rows from hb) with hb | rfl
      · exact absurd hemail.symm (hunused b hb)
      · rfl

theorem Ledger.disable (hl : Ledger log d) (u : Uuid) (at_ : Option Time) : Ledger log (d.disable u at_) := by
  have origin : ∀ {a : AppUser}, a ∈ (d.disable u at_).users.rows → ∃ b ∈ d.users.rows, a.id = b.id ∧ a.email = b.email ∧
      a = if b.id = u then { b with disabledAt := at_ } else b := fun {a} ha => by
    obtain ⟨b, hb, rfl⟩ := List.mem_map.1 ha
    refine ⟨b, hb, ?_, ?_, rfl⟩ <;> split <;> rfl
  refine ⟨hl.stored, fun a ha => ?_, fun a ha b hb hemail => ?_⟩
  · obtain ⟨a', ha', hid, -⟩ := origin ha
    rw [hid]
    exact hl.credential a' ha'
  · obtain ⟨a', ha', -, hae, rfl⟩ := origin ha
    obtain ⟨b', hb', -, hbe, rfl⟩ := origin hb
    rw [hae, hbe] at hemail
    rw [hl.address a' ha' b' hb' hemail]

theorem Ledger.refused (hl : Ledger log d) {refused : List Event} (h : ∀ e ∈ refused, ∃ reason, e = .refused reason) :
    Ledger (log ++ refused.map (.answer r)) d := by
  refine ⟨fun u row hrow => ?_, hl.credential, hl.address⟩
  obtain ⟨p, hp, hstores⟩ := hl.stored u row hrow
  exact ⟨p, (latestPassword_refused h).trans hp, hstores⟩

/-- A change writes the hash of the new password, or leaves the hash that it has found. -/
theorem cipher_of_changed {current new : String} {sid : Uuid} (hd : Decided P s held d r (.passwordChanged u current new sid) (ws.filter Write.planned))
    (hrow' : (ws.foldl Db.write d).credentials.find u = some row') : ∃ row, d.credentials.find u = some row ∧
      ((∃ kek salt nonce, userKek P d u = some kek ∧ row'.passwordCiphertext = encryptPassword P salt nonce new kek) ∨
        row'.passwordCiphertext = row.passwordCiphertext) := by
  rw [credentials_planned, credentials_foldl (ws.filter Write.planned) rfl] at hrow'
  generalize ws.filter Write.planned = plan at hd hrow'
  cases hd with
  | @passwordChanged c current row currentPassword newPassword salt nonce kek stored opens hsession huser hop hkek =>
    rw [onCredential_insertSession, find_credentialWrites, if_pos rfl] at hrow'
    obtain ⟨row₀, hrow₀, rfl⟩ := Option.map_eq_some_iff.1 hrow'
    refine ⟨row₀, hrow₀, ?_⟩
    by_cases hcipher : encryptPassword P salt nonce new kek = row.passwordCiphertext
    · right
      simp [UserCredential.set, UserCredential.flush, net, Option.filter, hcipher]
    · left
      refine ⟨kek, salt, nonce, hkek, ?_⟩
      simp [UserCredential.set, UserCredential.flush, net, Option.filter, hcipher]

/-- A commit keeps the ledger: who rewrites a hash has verified the one that is stored. -/
theorem Ledger.commit (hl : Ledger log d) (hd : Decided P s held d r e (ws.filter Write.planned))
    (hverified : ∀ x ∈ e.verified, verifies P d x.1 x.2 = true) : Ledger (log ++ [.answer r e]) (ws.foldl Db.write d) := by
  have henv := (Stays.foldl d ws).envelopes
  refine ⟨fun u row' hrow' => ?_, fun a ha => ?_, fun a ha b hb hemail => ?_⟩
  · have huser' := Table.key_of_find hrow'
    cases credential_commit hd u with
    | same he h =>
      obtain ⟨row, hrow, hcipher⟩ := h row' hrow'
      obtain ⟨p, hp, hstores⟩ := hl.stored u row hrow
      have hsets : (Turn.answer r e : Turn P).sets u = none := by
        cases e with
        | passwordChanged v current new sid => exact if_neg fun hv => he current new sid (by rw [hv])
        | _ => rfl
      exact ⟨p, (latestPassword_append_of_none hsets).trans hp, hstores.of_cipher henv (huser'.trans (Table.key_of_find hrow).symm) hcipher⟩
    | @rehashed password sid salt nonce kek he hkek h =>
      obtain ⟨hsome, hcipher⟩ := h row' hrow'
      obtain ⟨row, hrow⟩ := Option.isSome_iff_exists.1 hsome
      obtain ⟨p, hp, hstores⟩ := hl.stored u row hrow
      subst he
      -- the login has verified the stored password
      obtain rfl : password = p := (verifies_iff hrow hstores).1 (hverified (u, password) rfl)
      exact ⟨password, (latestPassword_append_of_none rfl).trans hp, stores_encrypt henv (huser'.symm ▸ hkek) hcipher⟩
    | @changed current new sid salt nonce kek he hkek h =>
      subst he
      refine ⟨new, latestPassword_append_of_some (if_pos rfl), ?_⟩
      obtain ⟨row, hrow, ⟨kek', salt', nonce', hkek', hcipher⟩ | hcipher⟩ := cipher_of_changed hd hrow'
      · exact stores_encrypt henv (huser'.symm ▸ hkek') hcipher
      · by_cases hne : current = new
        · -- the hash stands, which is that of the current password
          obtain ⟨p, -, hstores⟩ := hl.stored u row hrow
          obtain rfl : current = p := (verifies_iff hrow hstores).1 (hverified (u, current) rfl)
          exact hne ▸ hstores.of_cipher henv (huser'.trans (Table.key_of_find hrow).symm) hcipher
        · exact stores_encrypt henv (huser'.symm ▸ hkek) (h hne row' hrow')
  · rw [users_foldl] at ha
    obtain ⟨row, hrow⟩ := Option.isSome_iff_exists.1 (hl.credential a ha)
    exact Option.isSome_iff_exists.2 (credential_kept ws hrow)
  · rw [users_foldl] at ha hb
    exact hl.address a ha b hb hemail

theorem Chronicle.ledger {d₀ : Db} (h₀ : Ledger (P := P) [] d₀) (h : Chronicle P s d₀ log d) : Ledger log d := by
  induction h with
  | start => exact h₀
  | @registration log d _ statements x ih =>
    cases hregister : register P statements d x with
    | ok d' => exact ih.registered hregister
    | error reason =>
      refine ⟨fun u row hrow => ?_, ih.credential, ih.address⟩
      rw [latestPassword_append_of_none rfl]
      exact ih.stored u row hrow
  | @request log d w _ r hrun hdone ih =>
    have hentry : ∀ x ∈ r.entry.verified, verifies P d x.1 x.2 = true := by
      cases r <;> exact fun x hx => by cases hx
    have hkept := kept_of_run (I := fun p => ∀ x ∈ p.verified, verifies P d x.1 x.2 = true) hentry (fun x hx => by cases hx)
      (fun _ _ _ hA hgo => verified_next hA hgo) hrun
    cases hkept with
    | before hdb htrace =>
      rw [hdb]
      exact ih.refused htrace
    | @after t held refused _ hdb htrace hrefused hverified _ hdecided =>
      rw [hdb, htrace, List.map_append, ← List.append_assoc]
      exact (ih.refused hrefused).commit hdecided hverified
  | disabling _ u at_ ih => exact ih.disable u at_

end Ledger

/-! ### A login by itself -/

/-- The id and the token that are drawn have no row. -/
def NewSession.New (P : Primitives) (d : Db) (x : NewSession) : Prop :=
  ∀ y ∈ d.sessions.rows, y.id ≠ x.id ∧ y.tokenHash ≠ P.hashSessionToken x.token

/-- The login comes to its end, and there it has opened a session of this user. -/
def LogsIn (P : Primitives) (s : Settings) (d : Db) (c : LoginCall) (u : Uuid) : Prop :=
  (∃ w, Alone P s d (.login c) w ∧ w.proc () = .done) ∧
    ∀ w, Alone P s d (.login c) w → w.proc () = .done → .loggedIn u c.password c.opens.id ∈ w.trace

section Lone
variable {P : Primitives} {s : Settings} {log : List (Turn P)} {d : Db} {c : LoginCall} {a : AppUser} {w : Requests Unit}

theorem lone_tail {t : Tail} (h : ∀ stmt ∈ t.todo, ∀ written, ∃ ks u, Stmt.outcome d t.request.now written stmt = .write ks u) :
    ∃ t' : Tail, t'.todo = [] ∧ t'.event = t.event ∧ (authentication P s).Lone .go (d, .tail t) (d, .tail t') := by
  obtain ⟨request, writes, todo, event⟩ := t
  induction todo generalizing writes with
  | nil => exact ⟨_, rfl, rfl, .refl⟩
  | cons stmt rest ih =>
    obtain ⟨ks, u, hwrite⟩ := h stmt List.mem_cons_self writes
    obtain ⟨t', htodo, hevent, hlone⟩ := ih (writes ++ [u]) fun stmt hstmt => h stmt (List.mem_cons_of_mem _ hstmt)
    refine ⟨t', htodo, hevent, .head ⟨{ op := .lock ks, next := .tail ⟨request, writes ++ [u], rest, event⟩ }, ?_, rfl⟩ hlone⟩
    show some (Tail.step d ⟨request, writes, stmt :: rest, event⟩) = _
    simp only [Tail.step, hwrite]

theorem Alone.commits {r : Request} {v : Requests Unit} {t : Tail} (hv : Alone P s d r v) (hp : v.proc () = .tail t) (htodo : t.todo = []) :
    ∃ w, Alone P s d r w ∧ w.proc () = .done ∧ t.event ∈ w.trace := by
  have hgo : go P s v.db (v.proc ()) = some { op := .commit t.writes, next := .done, emit := [t.event] } := by
    rw [hp, go, Tail.step, htodo]
  have hfires : (authentication P s).Fires v () .go { op := .commit t.writes, next := .done, emit := [t.event] } := ⟨hgo, trivial⟩
  refine ⟨_, hv.step (a := ((), .go)) rfl (System.step_eq_some.2 ⟨_, hfires, rfl⟩), System.proc_after_self, ?_⟩
  exact List.mem_append_right _ List.mem_cons_self

/-- The lookup finds the account, and the password is the stored one. -/
theorem login_verifies (hl : Ledger log d) (ha : Admits P d c a) (hp : latestPassword a.id log = some c.password) : ∃ kek stored,
    go P s d (.login c) = some { op := .read, next := .loginCredential c a.id kek stored } := by
  obtain ⟨row, hrow⟩ := Option.isSome_iff_exists.1 (hl.credential a ha.account)
  obtain ⟨p, hp', kek, salt, hkek, hstored⟩ := hl.stored a.id row hrow
  cases hp.symm.trans hp'
  rw [Table.key_of_find hrow] at hkek
  have hfind : d.users.rows.find? (fun u => P.sqlLower u.email = P.sqlLower (P.lower c.email)) = some a := by
    cases hf : d.users.rows.find? fun u => P.sqlLower u.email = P.sqlLower (P.lower c.email) with
    | none => exact absurd ha.email (by simpa using List.find?_eq_none.1 hf a ha.account)
    | some b =>
      have hemail : P.sqlLower b.email = P.sqlLower (P.lower c.email) := by simpa using List.find?_some hf
      rw [hl.address b (List.mem_of_find?_eq_some hf) a ha.account (hemail.trans ha.email.symm)]
  have hlookup : loginLookup P d (P.lower c.email) = some ⟨a.id, a.disabledAt, row.passwordCiphertext, row.lockedUntil⟩ := by
    rw [loginLookup, hfind, Option.bind_some, hrow, Option.map_some]
  have hopen : ¬ (row.lockedUntil.any fun t => c.now < t) = true := by
    intro hlocked
    obtain ⟨t, ht, hlt⟩ := (Option.any_eq_true ..).1 hlocked
    exact absurd (of_decide_eq_true hlt) (Int.not_lt.2 (ha.unlocked row hrow t ht))
  refine ⟨kek, P.hash salt c.password, ?_⟩
  simp only [go, hlookup, ha.enabled, hkek, hstored, P.verify_hash, decide_true]
  rw [if_neg (by simp), if_neg hopen]

theorem login_writes (hnew : c.opens.New P d) {change : CredentialChange} {stmt : Stmt}
    (h : stmt ∈ updateCredential a.id change ++ [.openSession (c.opens.row P a.id c.now)]) (written : List Write) :
    ∃ ks u, Stmt.outcome d c.now written stmt = .write ks u := by
  rcases List.mem_append.1 h with h | h
  · rw [mem_updateCredential h]
    exact ⟨_, _, rfl⟩
  · rw [List.mem_singleton.1 h]
    refine ⟨_, _, if_neg ?_⟩
    rw [Bool.not_eq_true, List.any_eq_false]
    intro y hy
    obtain ⟨hid, htoken⟩ := hnew y hy
    simp [NewSession.row, hid, htoken]

/-- A login on the password set last opens its session. -/
theorem login_succeeds (hl : Ledger log d) (hnew : c.opens.New P d) (ha : Admits P d c a) (hp : latestPassword a.id log = some c.password) :
    ∃ w, Alone P s d (.login c) w ∧ w.proc () = .done ∧ .loggedIn a.id c.password c.opens.id ∈ w.trace := by
  obtain ⟨kek, stored, hlogin⟩ := login_verifies (s := s) hl ha hp
  obtain ⟨row, hrow⟩ := Option.isSome_iff_exists.1 (hl.credential a ha.account)
  have hcredential : ∃ t : Tail, go P s d (.loginCredential c a.id kek stored) = some { op := .read, next := .tail t } ∧
      t.event = .loggedIn a.id c.password c.opens.id ∧
      ∀ stmt ∈ t.todo, ∀ written, ∃ ks u, Stmt.outcome d t.request.now written stmt = .write ks u := by
    refine ⟨_, rfl, rfl, fun stmt hstmt => ?_⟩
    simp only [hrow] at hstmt
    exact login_writes hnew hstmt
  obtain ⟨t, hgo, hevent, hwrites⟩ := hcredential
  obtain ⟨t', htodo, hevent', hlone⟩ := lone_tail (P := P) (s := s) hwrites
  have hlogin' : (authentication P s).Lone .go (d, .login c) (d, .tail t') := .head ⟨_, hlogin, rfl⟩ (.head ⟨_, hgo, rfl⟩ hlone)
  obtain ⟨v, hrun, -, hproc⟩ := System.Lone.run (w := alone d (.login c)) (i := ()) hlogin' fun _ => .inl rfl
  have hv : Alone P s d (.login c) v := hrun.mono fun w a ha => by rw [ha]
  rw [← hevent, ← hevent']
  exact hv.commits hproc htodo

theorem login_kept (hrun : (authentication P s).Run (fun _ _ => True) (alone d (.login c)) w) :
    Kept P s d (.login c) (fun p => p.Seeks P d c ∧ ∀ x ∈ p.verified, verifies P d x.1 x.2 = true) w :=
  kept_of_run ⟨rfl, fun x hx => by cases hx⟩ ⟨trivial, fun x hx => by cases hx⟩
    (fun _ _ _ hA hgo hI => ⟨seeks_next hA hgo hI.1, verified_next hA hgo hI.2⟩) hrun

theorem loggedIn_admits (hl : Ledger log d) (hrun : (authentication P s).Run (fun _ _ => True) (alone d (.login c)) w) {u : Uuid}
    {p : String} {sid : Uuid} (h : .loggedIn u p sid ∈ w.trace) :
    ∃ a, Admits P d c a ∧ a.id = u ∧ latestPassword u log = some c.password := by
  cases login_kept hrun with
  | before _ htrace =>
    obtain ⟨reason, hr⟩ := htrace _ h
    cases hr
  | @after t held refused _ _ htrace hrefused hkept =>
    have he : .loggedIn u p sid = t.event := by
      rw [htrace] at h
      rcases List.mem_append.1 h with h | h
      · obtain ⟨reason, hr⟩ := hrefused _ h
        cases hr
      · exact List.mem_singleton.1 h
    obtain ⟨⟨⟨a, ha, hevent⟩, -, -⟩, hverified⟩ := hkept
    rcases hevent with hevent | hevent
    · rw [hevent] at he
      cases he
    · rw [hevent] at he
      cases he
      obtain ⟨row, hrow⟩ := Option.isSome_iff_exists.1 (hl.credential a ha.account)
      obtain ⟨q, hq, hstores⟩ := hl.stored a.id row hrow
      have hverifies := hverified (a.id, c.password) (by rw [Proc.verified, hevent]; rfl)
      obtain rfl : c.password = q := (verifies_iff hrow hstores).1 hverifies
      exact ⟨a, ha, rfl, hq⟩

/-- A login that does not succeed writes the counter and the lock of the account it has found, if anything. -/
theorem failed_login (hrun : (authentication P s).Run (fun _ _ => True) (alone d (.login c)) w)
    (h : ∀ u p sid, .loggedIn u p sid ∉ w.trace) : w.db = d ∨ ∃ a count until_, Admits P d c a ∧
      w.db = d.write (.credential a.id { failedLoginCount := count, lockedUntil := until_ }) := by
  cases login_kept hrun with
  | before hdb => exact .inl hdb
  | @after t held refused _ hdb htrace _ hkept htodo hdecided =>
    obtain ⟨⟨⟨a, ha, hevent⟩, hwrites, -⟩, -⟩ := hkept
    have he : t.event ∈ w.trace := by simp [htrace]
    rcases hevent with hevent | hevent
    · rw [List.filter_eq_self.2 hwrites, hevent] at hdecided
      rw [hdb]
      generalize t.writes = ws at hdecided
      generalize hu : a.id = u at hdecided
      cases hdecided with
      | @loginFailed _ row =>
        have hchange : row.flush (recordFailure s row c.now) =
            { failedLoginCount := (row.flush (recordFailure s row c.now)).failedLoginCount
              lockedUntil := (row.flush (recordFailure s row c.now)).lockedUntil } := by
          unfold recordFailure
          split <;> rfl
        unfold credentialWrites
        split
        · exact .inl rfl
        · right
          rw [← hu, hchange]
          exact ⟨a, _, _, ha, rfl⟩
    · rw [hevent] at he
      exact absurd he (h _ _ _)

end Lone

/-! ### Every history -/

/-- Password authentication is exact. -/
structure AuthenticationExact (P : Primitives) (s : Settings) (log : List (Turn P)) (d : Db) : Prop where
  /-- Every user has a hash that decrypts under the key of the envelope, to that of the password set last. -/
  decrypts : ∀ a ∈ d.users.rows, ∃ row kek salt p, d.credentials.find a.id = some row ∧ userKek P d a.id = some kek ∧
    latestPassword a.id log = some p ∧ P.decrypt row.passwordCiphertext kek .credential = some (P.hash salt p)
  login : ∀ c : LoginCall, c.opens.New P d → ∀ u,
    LogsIn P s d c u ↔ ∃ a, Admits P d c a ∧ a.id = u ∧ latestPassword u log = some c.password
  /-- A login that does not succeed, however it ends. -/
  failed : ∀ (c : LoginCall) (w : Requests Unit), (authentication P s).Run (fun _ _ => True) (alone d (.login c)) w →
    (∀ u p sid, .loggedIn u p sid ∉ w.trace) → w.db = d ∨ ∃ a count until_, Admits P d c a ∧
      w.db = d.write (.credential a.id { failedLoginCount := count, lockedUntil := until_ })

section Histories
variable {P : Primitives} {s : Settings} {log : List (Turn P)} {d : Db} {c : LoginCall} {u : Uuid}

theorem logsIn_iff (hl : Ledger log d) (hnew : c.opens.New P d) :
    LogsIn P s d c u ↔ ∃ a, Admits P d c a ∧ a.id = u ∧ latestPassword u log = some c.password := by
  constructor
  · rintro ⟨⟨w, hw, hdone⟩, hall⟩
    exact loggedIn_admits hl hw.run (hall w hw hdone)
  · rintro ⟨a, ha, rfl, hp⟩
    obtain ⟨w, hw, hdone, hanswer⟩ := login_succeeds hl hnew ha hp
    refine ⟨⟨w, hw, hdone⟩, fun v hv hdone' => ?_⟩
    -- there is one way to the end
    rcases Relation.ReflTransGen.cases_head (hv.onward hw hdone) with rfl | ⟨x, ⟨⟨_, _⟩, rfl, hx⟩, -⟩
    · exact hanswer
    · obtain ⟨m, ⟨hm, -⟩, -⟩ := System.step_eq_some.1 hx
      rw [hdone'] at hm
      cases hm

theorem Ledger.exact (hl : Ledger log d) : AuthenticationExact P s log d := by
  refine ⟨fun a ha => ?_, fun c hnew u => logsIn_iff hl hnew, fun c w hrun h => failed_login hrun h⟩
  obtain ⟨row, hrow⟩ := Option.isSome_iff_exists.1 (hl.credential a ha)
  obtain ⟨p, hp, kek, salt, hkek, hstored⟩ := hl.stored a.id row hrow
  rw [Table.key_of_find hrow] at hkek
  exact ⟨row, kek, salt, p, hrow, hkek, hp, hstored⟩

/-- From a database without accounts, after any registrations and requests one after the other: every stored hash decrypts
under the key in the envelope of its user, a login opens a session if and only if its address, up to case, has an account
that is neither disabled nor locked and its password is the one registered or changed to last, and a login that does not
succeed writes nothing but the counter and the lock of that account. -/
theorem password_authentication {d₀ : Db} (husers : d₀.users.rows = []) (hcredentials : d₀.credentials.rows = [])
    (h : Chronicle P s d₀ log d) : AuthenticationExact P s log d := by
  have h₀ : Ledger (P := P) [] d₀ := by
    refine ⟨fun u row hrow => ?_, fun a ha => ?_, fun a ha => ?_⟩
    · have hmem := Table.mem_of_find hrow
      rw [hcredentials] at hmem
      cases hmem
    all_goals
      rw [husers] at ha
      cases ha
  exact (h.ledger h₀).exact

end Histories

/-! ### A changed password -/

namespace Consent

/-- The account and its password. -/
def registered : Db := committed db (register Primitives.plain statements db (registration [terms.key]))

def login (password : String) (opens : NewSession) : LoginCall where
  email := "user@example.lu"
  password
  now := Time.seconds 60
  salt := []
  nonce := []
  opens

def change : Call where
  token := "tenth"
  now := Time.seconds 61
  operation := .changePassword "correct horse" "battery staple" [] [] { id := 110, token := "eleventh" }

/-- An uninterrupted request. -/
def after (d : Db) (r : Request) (n : Nat) : Option (Requests Unit) :=
  (authentication Primitives.plain Settings.shipped).exec (fun _ a => a.2 = .go) (alone d r) (steps () n)

def ended (w : Requests Unit) : Bool := match w.proc () with | .done => true | _ => false

theorem run_of_after {d : Db} {r : Request} {n : Nat} {f : Requests Unit → Bool}
    (h : (after d r n).any (fun w => ended w && f w) = true) : ∃ w, Alone Primitives.plain Settings.shipped d r w ∧ w.proc () = .done ∧
      f w = true := by
  obtain ⟨w, hw, hp⟩ := System.Run.of_exec_any h
  rw [Bool.and_eq_true] at hp
  have hdone : w.proc () = .done := by
    cases hproc : w.proc () <;> rw [ended, hproc] at hp <;> first | rfl | cases hp.1
  exact ⟨w, hw, hdone, hp.2⟩

end Consent

open Consent in
/-- A registration, a login, and a change of the password: the new one logs in, and the old one does not. -/
theorem password_authentication_after_change : ∃ (log : List (Turn Primitives.plain)) (d : Db) (opens : NewSession),
    Chronicle Primitives.plain Settings.shipped Consent.db log d ∧
      LogsIn Primitives.plain Settings.shipped d (login "battery staple" opens) 2 ∧
      ¬ LogsIn Primitives.plain Settings.shipped d (login "correct horse" opens) 2 := by
  have run : (after registered (.login (login "correct horse" { id := 100, token := "tenth" })) 4).any (fun w => ended w &&
      (after w.db (.call change) 9).any fun w' => ended w' && decide (w.trace = [.loggedIn 2 "correct horse" 100] ∧
        w'.trace = [.passwordChanged 2 "correct horse" "battery staple" 110] ∧ w'.db.users.rows = [(registration [terms.key]).user] ∧
        (w'.db.credentials.find 2).map UserCredential.lockedUntil = some none ∧
        ∀ y ∈ w'.db.sessions.rows, y.id ≠ 120 ∧ y.tokenHash ≠ encode "twelfth")) = true := by
    decide +kernel
  obtain ⟨w, hw, hdone, hrest⟩ := run_of_after run
  obtain ⟨w', hw', hdone', hp⟩ := run_of_after hrest
  obtain ⟨htrace, htrace', husers, hunlocked, hnew⟩ := of_decide_eq_true hp
  have hregistered : Chronicle Primitives.plain Settings.shipped Consent.db
      [.registration (registration [terms.key]) (register Primitives.plain Consent.statements db (registration [terms.key])).isOk]
      registered := Chronicle.start.registration Consent.statements (registration [terms.key])
  have hchronicle := (hregistered.request _ hw.run hdone).request _ hw'.run hdone'
  have hlatest : latestPassword 2 ([Turn.registration (registration [terms.key])
      (register Primitives.plain Consent.statements db (registration [terms.key])).isOk] ++
      w.trace.map (.answer (.login (login "correct horse" { id := 100, token := "tenth" }))) ++
      w'.trace.map (.answer (.call change))) = some "battery staple" := by
    rw [htrace, htrace']
    exact latestPassword_append_of_some rfl
  have hexact := password_authentication rfl rfl hchronicle
  obtain ⟨row, hrow, hlocked⟩ := Option.map_eq_some_iff.1 hunlocked
  have hadmits : Admits Primitives.plain w'.db (login "battery staple" { id := 120, token := "twelfth" }) (registration [terms.key]).user := by
    refine ⟨by rw [husers]; exact List.mem_cons_self, rfl, rfl, fun row' hrow' t ht => ?_⟩
    cases hrow.symm.trans hrow'
    rw [hlocked] at ht
    cases ht
  refine ⟨_, w'.db, { id := 120, token := "twelfth" }, hchronicle, ?_, fun hold => ?_⟩
  · exact (hexact.login (login "battery staple" { id := 120, token := "twelfth" }) hnew 2).2 ⟨_, hadmits, rfl, hlatest⟩
  · obtain ⟨-, -, -, hp'⟩ := (hexact.login (login "correct horse" { id := 120, token := "twelfth" }) hnew 2).1 hold
    rw [hlatest] at hp'
    exact absurd (Option.some.inj hp') (by decide)

end TestingPlatform.Auth
