import TestingPlatform.Auth.Enrollment
import TestingPlatform.Auth.Sessions
import Mathlib.Data.Fintype.Basic

/-!
# Superseded passwords

A login verifies a hash that it read before its other statements, and a pending login is completed with no look
at the credential at all, so a session can be opened on a password that a change has superseded meanwhile; and
the change revokes the sessions that its own statement lists, not one that is committed later. Where a session is
opened on a password only while the stored hash verifies it, and not between that list and the commit of the
change, a superseded password is good for nothing (`password_superseded`).
-/

namespace TestingPlatform.Auth

open ReadCommitted

/-! ### What the trace says about passwords -/

/-- The password that a change has verified, and the one it has set. -/
def Event.changes (u : Uuid) : Event → List String
  | .passwordChanged v current new _ => if v = u then [current, new] else []
  | _ => []

/-- The passwords of the changes of a user, oldest first. -/
def passwords (u : Uuid) (trace : List Event) : List String := trace.flatMap (Event.changes u)

/-- A change has superseded the password, and none has set it again. -/
def Superseded (u : Uuid) (p : String) (trace : List Event) : Prop :=
  p ∈ passwords u trace ∧ (passwords u trace).getLast? ≠ some p

/-- The passwords that a session is opened on: that of the login, or those of the pending login it completes. -/
def Event.authenticates (opened : Uuid → List String) : Event → List (Uuid × String)
  | .loggedIn u p _ => [(u, p)]
  | .completed u _ pendingId _ => (opened pendingId).map fun p => (u, p)
  | _ => []

def Event.opensWith (opened : Uuid → List String) (e : Event) (id : Uuid) : List String :=
  if e.opens.map Prod.snd = some id then (e.authenticates opened).map Prod.snd ++ opened id else opened id

/-- The passwords that a session was opened on. -/
def openedWith (before : Uuid → List String) (trace : List Event) : Uuid → List String := trace.foldl Event.opensWith before

/-- The change sets another password than the one it verified. -/
def Event.renews : Event → Bool
  | .passwordChanged _ current new _ => current ≠ new
  | _ => true

instance (u : Uuid) (p : String) (trace : List Event) : Decidable (Superseded u p trace) :=
  inferInstanceAs (Decidable (p ∈ passwords u trace ∧ (passwords u trace).getLast? ≠ some p))

section Trace
variable {u : Uuid} {before : Uuid → List String} {trace emit : List Event} {e : Event}

theorem openedWith_append : openedWith before (trace ++ [e]) = e.opensWith (openedWith before trace) := by
  simp [openedWith]

theorem openedWith_refused (h : ∀ e ∈ emit, ∃ r, e = .refused r) : openedWith before (trace ++ emit) = openedWith before trace := by
  induction emit generalizing trace with
  | nil => rw [List.append_nil]
  | cons e emit ih =>
    obtain ⟨r, rfl⟩ := h e List.mem_cons_self
    rw [← List.singleton_append, ← List.append_assoc, ih fun e he => h e (List.mem_cons_of_mem _ he), openedWith_append]
    rfl

theorem passwords_append : passwords u (trace ++ [e]) = passwords u trace ++ e.changes u := by
  simp [passwords]

theorem passwords_refused (h : ∀ e ∈ emit, ∃ r, e = .refused r) : passwords u (trace ++ emit) = passwords u trace := by
  have hnone : emit.flatMap (Event.changes u) = [] := List.flatMap_eq_nil_iff.2 fun e he => by
    obtain ⟨r, rfl⟩ := h e he
    rfl
  rw [passwords, List.flatMap_append, hnone, List.append_nil, passwords]

theorem changes_eq_nil (h : ∀ current new sid, e ≠ .passwordChanged u current new sid) : e.changes u = [] := by
  cases e with
  | passwordChanged v current new sid => exact if_neg fun hv => h current new sid (by rw [hv])
  | _ => rfl

theorem authenticates_user {opened : Uuid → List String} {x : Uuid × String} {sid : Uuid} (he : e.opens = some (u, sid))
    (hx : x ∈ e.authenticates opened) : x.1 = u := by
  cases e with
  | loggedIn =>
    cases he
    rw [List.mem_singleton.1 hx]
  | completed =>
    cases he
    obtain ⟨p, -, rfl⟩ := List.mem_map.1 hx
    rfl
  | _ => cases hx

end Trace

/-! ### The stored password -/

section Stored
variable (P : Primitives) (d : Db)

/-- The credential is the hash of this password. -/
def Stores (row : UserCredential) (p : String) : Prop :=
  ∃ kek salt, userKek P d row.userId = some kek ∧ P.decrypt row.passwordCiphertext kek .credential = some (P.hash salt p)

def verifies (u : Uuid) (p : String) : Bool :=
  (d.credentials.find u).any fun row => (verifyCurrentPassword P d row p).isOk

variable {P d} {d' : Db} {row row' : UserCredential} {p q : String} {u : Uuid}

theorem verifies_iff (hrow : d.credentials.find u = some row) (h : Stores P d row p) : verifies P d u q = true ↔ q = p := by
  obtain ⟨kek, salt, hkek, hstored⟩ := h
  rw [verifies, hrow, Option.any_some, verifyCurrentPassword]
  simp only [hkek, hstored, Option.bind_some, P.verify_hash]
  by_cases hq : q = p
  · rw [decide_eq_true hq]
    exact iff_of_true rfl hq
  · rw [decide_eq_false hq]
    exact iff_of_false (by simp [Except.isOk, Except.toBool]) hq

theorem Stores.of_cipher (h : Stores P d row p) (henv : d'.envelopes = d.envelopes) (huser : row'.userId = row.userId)
    (hcipher : row'.passwordCiphertext = row.passwordCiphertext) : Stores P d' row' p := by
  obtain ⟨kek, salt, hkek, hstored⟩ := h
  exact ⟨kek, salt, by rw [userKek_congr henv, huser, hkek], by rw [hcipher, hstored]⟩

theorem stores_encrypt {salt nonce kek : Bytes} (henv : d'.envelopes = d.envelopes) (hkek : userKek P d row'.userId = some kek)
    (hcipher : row'.passwordCiphertext = encryptPassword P salt nonce p kek) : Stores P d' row' p :=
  ⟨kek, salt, by rw [userKek_congr henv, hkek], by rw [hcipher, encryptPassword, P.decrypt_encrypt]⟩

end Stored

/-- Every credential is the hash of one password, and live sessions were opened on the password that is stored. -/
structure PasswordsHold (P : Primitives) (opened : Uuid → List String) (d : Db) : Prop where
  stores : ∀ u row, d.credentials.find u = some row → ∃ p, Stores P d row p
  known : ∀ id, opened id ≠ [] → (d.sessions.find id).isSome = true
  current : ∀ x ∈ d.sessions.rows, x.live = true → ∀ p ∈ opened x.id, verifies P d x.userId p = true

/-- The password opens nothing: the stored hash does not verify it, and no session opened on it is live. -/
def Useless (P : Primitives) (opened : Uuid → List String) (d : Db) (u : Uuid) (p : String) : Prop :=
  verifies P d u p = false ∧ ∀ x ∈ d.sessions.rows, x.userId = u → x.live = true → p ∉ opened x.id

/-! ### The condition -/

/-- The answer that a process is about to commit. -/
def Proc.committing : Proc → Option Event
  | .tail { todo := [], event, .. } => some event
  | _ => none

/-- The user whose password a request changes, from where it has listed the other sessions of the user. -/
def Proc.superseding : Proc → Option Uuid
  | .tail { todo, event := .passwordChanged u _ _ _, .. } => if todo.any Stmt.isRevokeOthers then none else some u
  | _ => none

/-- A session opened on a password commits only while the stored hash verifies the password and no change of it has
listed the sessions already; and a change commits only another password. -/
def OpensCurrent {π : Type} (P : Primitives) (before : Uuid → List String) (w : Requests π) (a : π × Choice) : Prop :=
  a.2 = .go → ∀ e ∈ (w.proc a.1).committing, e.renews = true ∧
    ∀ x ∈ e.authenticates (openedWith before w.trace), verifies P w.db x.1 x.2 = true ∧ ∀ j, (w.proc j).superseding ≠ some x.1

instance {π : Type} [Fintype π] (P : Primitives) (before : Uuid → List String) (w : Requests π) (a : π × Choice) :
    Decidable (OpensCurrent P before w a) :=
  inferInstanceAs (Decidable (a.2 = .go → ∀ e ∈ (w.proc a.1).committing, e.renews = true ∧
    ∀ x ∈ e.authenticates (openedWith before w.trace), verifies P w.db x.1 x.2 = true ∧ ∀ j, (w.proc j).superseding ≠ some x.1))

/-! ### A commit -/

section Commit
variable {P : Primitives} {s : Settings} {held : Lock → Prop} {d : Db} {r : Request} {e : Event} {ws : List Write}
  {opened : Uuid → List String}

/-- What a commit of the condition starts from. -/
structure Opening (P : Primitives) (opened : Uuid → List String) (d : Db) (e : Event) (ws : List Write) : Prop where
  hold : PasswordsHold P opened d
  renews : e.renews = true
  verified : ∀ x ∈ e.authenticates opened, verifies P d x.1 x.2 = true
  fresh : ∀ x, .insertSession x ∈ ws → d.sessions.find x.id = none
  /-- A change revokes what was opened on a password. -/
  revoked : ∀ u current new sid, e = .passwordChanged u current new sid → ∀ x ∈ d.sessions.rows, x.userId = u →
    opened x.id ≠ [] → ∀ x', (ws.foldl Db.write d).sessions.find x.id = some x' → x'.live = false

theorem opensWith_of_not_opened {id : Uuid} (h : ∀ u, e.opens ≠ some (u, id)) : e.opensWith opened id = opened id := by
  refine if_neg fun he => ?_
  obtain ⟨⟨u, sid⟩, hopens, rfl⟩ := Option.map_eq_some_iff.1 he
  exact h u hopens

theorem stores_after (hd : Decided P s held d r e (ws.filter Write.planned)) (ho : Opening P opened d e ws) {u : Uuid}
    {row' : UserCredential} (hrow' : (ws.foldl Db.write d).credentials.find u = some row') :
    (e.changes u = [] ∧ ∃ row, d.credentials.find u = some row ∧ ∀ p, Stores P d row p → Stores P (ws.foldl Db.write d) row' p) ∨
      ∃ current new sid, e = .passwordChanged u current new sid ∧ Stores P (ws.foldl Db.write d) row' new := by
  have henv := (Stays.foldl d ws).envelopes
  have huser' := Table.key_of_find hrow'
  cases credential_commit hd u with
  | same he h =>
    obtain ⟨row, hrow, hcipher⟩ := h row' hrow'
    refine .inl ⟨changes_eq_nil he, row, hrow, fun p hp => hp.of_cipher henv ?_ hcipher⟩
    rw [huser', Table.key_of_find hrow]
  | @rehashed password sid salt nonce kek he hkek h =>
    obtain ⟨hsome, hcipher⟩ := h row' hrow'
    obtain ⟨row, hrow⟩ := Option.isSome_iff_exists.1 hsome
    refine .inl ⟨by rw [he]; rfl, row, hrow, fun p hp => ?_⟩
    -- the login has verified the stored password
    have hverified := ho.verified (u, password) (by rw [he]; exact List.mem_cons_self)
    obtain rfl : password = p := (verifies_iff hrow hp).1 hverified
    exact stores_encrypt henv (huser'.symm ▸ hkek) hcipher
  | @changed current new sid salt nonce kek he hkek h =>
    have hrenews := ho.renews
    rw [he] at hrenews
    have hcipher := h (by simpa [Event.renews] using hrenews) row' hrow'
    exact .inr ⟨current, new, sid, he, stores_encrypt henv (huser'.symm ▸ hkek) hcipher⟩

theorem verifies_after (hd : Decided P s held d r e (ws.filter Write.planned)) (ho : Opening P opened d e ws) {u : Uuid}
    (hno : ∀ current new sid, e ≠ .passwordChanged u current new sid) {p : String} (hp : verifies P d u p = true) :
    verifies P (ws.foldl Db.write d) u p = true := by
  obtain ⟨row, hrow, -⟩ := (Option.any_eq_true ..).1 hp
  obtain ⟨row', hrow'⟩ := credential_kept ws hrow
  obtain ⟨p₀, hstores⟩ := ho.hold.stores u row hrow
  rcases stores_after hd ho hrow' with ⟨-, row₀, hrow₀, hkept⟩ | ⟨current, new, sid, he, -⟩
  · cases hrow.symm.trans hrow₀
    rw [(verifies_iff hrow hstores).1 hp]
    exact (verifies_iff hrow' (hkept p₀ hstores)).2 rfl
  · exact absurd he (hno current new sid)

theorem opened_after (hd : Decided P s held d r e (ws.filter Write.planned)) (ho : Opening P opened d e ws) {x' : UserSession}
    (hmem : x' ∈ (ws.foldl Db.write d).sessions.rows) :
    (∃ x ∈ d.sessions.rows, x.After ws x' ∧ e.opensWith opened x'.id = opened x.id) ∨
      (e.opens = some (x'.userId, x'.id) ∧ e.opensWith opened x'.id = (e.authenticates opened).map Prod.snd) := by
  have opensFresh : ∀ {u id}, e.opens = some (u, id) → d.sessions.find id = none := fun {u id} hopens => by
    obtain ⟨x, hx, -, rfl⟩ := hd.opened hopens
    exact ho.fresh x (List.mem_of_mem_filter hx)
  rcases session_origin hmem with ⟨x, hx, hafter⟩ | ⟨x, hx, hnone, hafter⟩
  · refine .inl ⟨x, hx, hafter, ?_⟩
    rw [hafter.id]
    refine opensWith_of_not_opened fun u hopens => ?_
    cases (Table.find_of_mem hx).symm.trans (opensFresh hopens)
  · have hopens := hd.opens (List.mem_filter.2 ⟨hx, rfl⟩)
    rw [← hafter.id, ← hafter.userId] at hopens
    refine .inr ⟨hopens, ?_⟩
    have hnone' : opened x'.id = [] := by
      by_contra hne
      have hsome := ho.hold.known _ hne
      rw [opensFresh hopens] at hsome
      cases hsome
    have hmap : e.opens.map Prod.snd = some x'.id := by rw [hopens]; rfl
    rw [Event.opensWith, if_pos hmap, hnone', List.append_nil]

theorem PasswordsHold.commit (hd : Decided P s held d r e (ws.filter Write.planned)) (ho : Opening P opened d e ws) :
    PasswordsHold P (e.opensWith opened) (ws.foldl Db.write d) := by
  constructor
  · intro u row' hrow'
    rcases stores_after hd ho hrow' with ⟨-, row, hrow, hkept⟩ | ⟨_, new, _, -, hnew⟩
    · obtain ⟨p, hp⟩ := ho.hold.stores u row hrow
      exact ⟨p, hkept p hp⟩
    · exact ⟨new, hnew⟩
  · intro id hne
    by_cases hopens : ∃ u, e.opens = some (u, id)
    · obtain ⟨u, hopens⟩ := hopens
      obtain ⟨x, hx, -, rfl⟩ := hd.opened hopens
      exact session_inserted (List.mem_of_mem_filter hx)
    · rw [opensWith_of_not_opened fun u hu => hopens ⟨u, hu⟩] at hne
      obtain ⟨x, hx⟩ := Option.isSome_iff_exists.1 (ho.hold.known id hne)
      obtain ⟨x', hx', -⟩ := (Stays.foldl d ws).sessions id x hx
      rw [hx']
      rfl
  · intro x' hmem' hlive' p hp
    rcases opened_after hd ho hmem' with ⟨x, hmem, hafter, heq⟩ | ⟨hopens, heq⟩
    · rw [heq] at hp
      have hlive : x.live = true := by
        by_contra hdead
        rw [hafter.revoked (by simpa using hdead)] at hlive'
        cases hlive'
      rw [hafter.userId]
      refine verifies_after hd ho (fun current new sid he => ?_) (ho.hold.current x hmem hlive p hp)
      have hdead := ho.revoked _ current new sid he x hmem rfl (List.ne_nil_of_mem hp) x'
        (hafter.id ▸ Table.find_of_mem hmem')
      rw [hdead] at hlive'
      cases hlive'
    · rw [heq] at hp
      obtain ⟨y, hy, rfl⟩ := List.mem_map.1 hp
      have huser := authenticates_user hopens hy
      have hverified := ho.verified y hy
      rw [huser] at hverified
      refine verifies_after hd ho (fun current new sid he => ?_) hverified
      rw [he] at hy
      cases hy

end Commit

/-! ### Every run -/

/-- The account of the passwords in a world of the run. -/
structure PasswordsAccount {π : Type} (P : Primitives) (before : Uuid → List String) (w : Requests π) : Prop where
  hold : PasswordsHold P (openedWith before w.trace) w.db
  /-- What the last change has set is stored. -/
  last : ∀ u p row, (passwords u w.trace).getLast? = some p → w.db.credentials.find u = some row → Stores P w.db row p
  /-- A change has what was opened on a password listed, or is still to list it. -/
  rotates : ∀ i t u current new sid, w.proc i = .tail t → t.event = .passwordChanged u current new sid →
    t.Rotates u (fun id => openedWith before w.trace id ≠ []) (fun _ => False) w.db

section Runs
variable {π : Type} [DecidableEq π] {P : Primitives} {s : Settings} {before : Uuid → List String} {w₀ w : Requests π}

omit [DecidableEq π] in
theorem committing_of_done {i : π} {t : Tail} (hp : w.proc i = .tail t) (htodo : t.todo = []) : t.event ∈ (w.proc i).committing := by
  obtain ⟨request, writes, todo, event⟩ := t
  cases htodo
  rw [hp]
  rfl

omit [DecidableEq π] in
theorem superseding_of_done {i : π} {t : Tail} {u : Uuid} {current new : String} {sid : Uuid} (hp : w.proc i = .tail t)
    (he : t.event = .passwordChanged u current new sid) (hdone : ∀ stmt ∈ t.todo, stmt.isRevokeOthers = false) :
    (w.proc i).superseding = some u := by
  obtain ⟨request, writes, todo, event⟩ := t
  cases he
  rw [hp]
  refine if_neg fun hany => ?_
  obtain ⟨stmt, hmem, hlists⟩ := List.any_eq_true.1 hany
  rw [hdone stmt hmem] at hlists
  cases hlists

omit [DecidableEq π] in
theorem PasswordsAccount.opening {i : π} {t : Tail} (ha : PasswordsAccount P before w) (hfresh : t.Fresh w.db) (hproc : w.proc i = .tail t)
    (htodo : t.todo = []) (hC : OpensCurrent P before w (i, .go)) : Opening P (openedWith before w.trace) w.db t.event t.writes := by
  obtain ⟨hrenews, hverified⟩ := hC rfl _ (committing_of_done hproc htodo)
  refine ⟨ha.hold, hrenews, fun x hx => (hverified x hx).1, hfresh, fun u current new sid he x hmem huser hne x' hx' => ?_⟩
  by_contra hlive
  exact (ha.rotates i t u current new sid hproc he).commit htodo hmem huser hne hx' (by simpa using hlive)

theorem PasswordsAccount.step {i : π} {c : Choice} {m : Step} (hat : ∀ j, (outline P s).At w j)
    (hfresh : ∀ j t, w.proc j = .tail t → t.Fresh w.db) (hC : OpensCurrent P before w (i, c))
    (hm : (authentication P s).Fires w i c m) (ha : PasswordsAccount P before w) :
    PasswordsAccount P before ((authentication P s).after w i m) := by
  have hstays : Stays w.db ((authentication P s).after w i m).db := Outline.guar_of_fires (hat i) hm
  rcases fires_cases (hat i) hm with ⟨t, hproc, rfl, htodo, rfl, hholds⟩ | ⟨hdb, hemit, -⟩
  · have hdecided := hholds.decided
    rw [Tail.plan, htodo, List.flatMap_nil, List.append_nil] at hdecided
    have ho := ha.opening (hfresh i t hproc) hproc htodo hC
    constructor
    · rw [System.trace_after, openedWith_append]
      exact PasswordsHold.commit hdecided ho
    · intro u p row' hlast hrow'
      rw [System.trace_after, passwords_append] at hlast
      rcases stores_after hdecided ho hrow' with ⟨hnil, row, hrow, hkept⟩ | ⟨current, new, sid, he, hnew⟩
      · rw [hnil, List.append_nil] at hlast
        exact hkept p (ha.last u p row hlast hrow)
      · have hchanges : t.event.changes u = [current, new] := by
          rw [he]
          exact if_pos rfl
        rw [hchanges, List.getLast?_append_of_ne_nil _ (by simp)] at hlast
        cases hlast
        exact hnew
    · intro j t' u current new sid hp he
      rcases System.proc_after_eq hp with ⟨rfl, hnext⟩ | ⟨-, hp⟩
      · cases hnext
      · refine (ha.rotates j t' u current new sid hp he).stable hstays fun hdone x' hmem' huser' hlive' hknown' => ?_
        rw [System.trace_after, openedWith_append] at hknown'
        rcases opened_after hdecided ho hmem' with ⟨x, hmem, hafter, heq⟩ | ⟨hopens, heq⟩
        · refine ⟨x, hmem, hafter.id.symm, hafter.userId.symm.trans huser', ?_, heq ▸ hknown'⟩
          by_contra hdead
          rw [hafter.revoked (by simpa using hdead)] at hlive'
          cases hlive'
        · -- a session opened on a password while the change of it has listed the sessions
          rw [heq] at hknown'
          obtain ⟨p, hp'⟩ := List.exists_mem_of_ne_nil _ hknown'
          obtain ⟨y, hy, -⟩ := List.mem_map.1 hp'
          have hno := ((hC rfl _ (committing_of_done hproc htodo)).2 y hy).2 j
          rw [authenticates_user hopens hy, huser'] at hno
          exact absurd (superseding_of_done hp he hdone) hno
  · have htrace : openedWith before ((authentication P s).after w i m).trace = openedWith before w.trace := by
      rw [System.trace_after, openedWith_refused hemit]
    constructor
    · rw [htrace, hdb]
      exact ha.hold
    · intro u p row
      rw [System.trace_after, passwords_refused hemit, hdb]
      exact ha.last u p row
    · intro j t' u current new sid hp he
      rw [htrace, hdb]
      rcases System.proc_after_eq hp with ⟨rfl, hnext⟩ | ⟨-, hp⟩
      · rcases (tail_after (hat j) hm hnext).2 with ⟨t₀, hp₀, hstep⟩ | hopens
        · rw [(plan_step hstep).2.1] at he
          exact (ha.rotates j t₀ u current new sid hp₀ he).step hstep
        · obtain ⟨keep, hlists, hkeep, -, hrev | ⟨_, _, he'⟩⟩ := hopens.rotates u (by rw [he]; rfl)
          · exact .ahead hlists hkeep (.inr fun _ _ _ => .inr hrev)
          · rw [he] at he'
            cases he'
      · exact ha.rotates j t' u current new sid hp he

/-- In a run where a session opened on a password commits only while the stored hash verifies it, and not after a change of
it has listed the sessions to revoke, a superseded password is useless. -/
theorem password_superseded (h₀ : Start w₀) (hp : PasswordsHold P before w₀.db)
    (h : (authentication P s).Run (OpensCurrent P before) w₀ w) {u : Uuid} {p : String} (hs : Superseded u p w.trace) :
    Useless P (openedWith before w.trace) w.db u p := by
  have hstart : PasswordsAccount P before w₀ := by
    constructor
    · rw [h₀.trace]
      exact hp
    · intro u p row hlast
      rw [h₀.trace] at hlast
      cases hlast
    · intro i t _ _ _ _ hproc
      have he := h₀.entry i
      rw [hproc] at he
      cases he
  have hrun := h.using fun hv => And.intro (outline_of_run h₀ hv) fun j t => fresh_of_run h₀ hv (i := j) (t := t)
  have ha : PasswordsAccount P before w := hrun.invariant (I := PasswordsAccount P before) hstart
    fun x i c m hx ⟨hC, hat, hfresh⟩ hm => hx.step hat hfresh hC hm
  have hverifies : verifies P w.db u p = false := by
    by_contra hv
    obtain ⟨row, hrow, -⟩ := (Option.any_eq_true ..).1 (eq_true_of_ne_false hv)
    obtain ⟨p₀, hlast⟩ : ∃ p₀, (passwords u w.trace).getLast? = some p₀ :=
      ⟨_, List.getLast?_eq_some_getLast (List.ne_nil_of_mem hs.1)⟩
    have hstores := ha.last u p₀ row hlast hrow
    refine hs.2 ?_
    rw [hlast, (verifies_iff hrow hstores).1 (eq_true_of_ne_false hv)]
  refine ⟨hverifies, fun x hmem huser hlive hopened => ?_⟩
  have hcurrent := ha.hold.current x hmem hlive p hopened
  rw [huser, hverifies] at hcurrent
  cases hcurrent

end Runs

/-! ### A login that overlaps the change -/

namespace StaleLogin

/-- A login and a password change of one user. -/
def requests : Fin 2 → Proc
  | 0 => .login ⟨"user@example.lu", "correct horse", Time.seconds 60, [], [], { id := 30, token := "third" }⟩
  | 1 => .bootstrap ⟨"first", Time.seconds 61, .changePassword "correct horse" "battery staple" [] [] { id := 40, token := "fourth" }⟩

def begin : Requests (Fin 2) where
  db := Race.db
  owner _ := none
  proc := requests
  trace := []

theorem start : Start begin where
  entry := fun | 0 | 1 => trivial
  trace := rfl

theorem holds : PasswordsHold Primitives.plain (fun _ => []) begin.db where
  stores u row hrow := by
    have hmem : row ∈ begin.db.credentials.rows := Table.mem_of_find hrow
    rw [show begin.db.credentials.rows = [{ userId := 1, passwordCiphertext := encode "correct horse", passwordUpdatedAt := 0 }]
      from rfl, List.mem_singleton] at hmem
    subst hmem
    exact ⟨"correct horse", [7], [], rfl, rfl⟩
  known id h := absurd rfl h
  current x _ _ p hp := by cases hp

end StaleLogin

open StaleLogin in
/-- The login verifies the password before the change and opens its session after it. -/
theorem superseded_password_opens : ∃ w₀ w : Requests (Fin 2), Start w₀ ∧ PasswordsHold Primitives.plain (fun _ => []) w₀.db ∧
    (authentication Primitives.plain Settings.shipped).Run (fun _ _ => True) w₀ w ∧ Superseded 1 "correct horse" w.trace ∧
    ¬ Useless Primitives.plain (openedWith (fun _ => []) w.trace) w.db 1 "correct horse" := by
  have run : ((authentication Primitives.plain Settings.shipped).exec (fun _ _ => True) begin (steps 0 1 ++ steps 1 10 ++ steps 0 3)).any
      (fun w => decide (Superseded 1 "correct horse" w.trace) &&
        w.db.sessions.rows.any fun x => x.userId = 1 ∧ x.live ∧ "correct horse" ∈ openedWith (fun _ => []) w.trace x.id) = true := by
    decide +kernel
  obtain ⟨w, hw, hp⟩ := System.Run.of_exec_any run
  rw [Bool.and_eq_true] at hp
  obtain ⟨x, hmem, hx⟩ := List.any_eq_true.1 hp.2
  obtain ⟨huser, hlive, hopened⟩ := of_decide_eq_true hx
  exact ⟨begin, w, start, holds, hw, of_decide_eq_true hp.1, fun huseless => huseless.2 x hmem huser hlive hopened⟩

open StaleLogin in
/-- The login commits before the change begins. -/
theorem password_superseded_after_login : ∃ w : Requests (Fin 2), Superseded 1 "correct horse" w.trace ∧
    openedWith (fun _ => []) w.trace 30 = ["correct horse"] ∧
    Useless Primitives.plain (openedWith (fun _ => []) w.trace) w.db 1 "correct horse" := by
  have run : ((authentication Primitives.plain Settings.shipped).exec (OpensCurrent Primitives.plain fun _ => []) begin
      (steps 0 4 ++ steps 1 11)).any
      (fun w => decide (Superseded 1 "correct horse" w.trace) && openedWith (fun _ => []) w.trace 30 = ["correct horse"]) = true := by
    decide +kernel
  obtain ⟨w, hw, hp⟩ := System.Run.of_exec_any run
  rw [Bool.and_eq_true] at hp
  have hs : Superseded 1 "correct horse" w.trace := of_decide_eq_true hp.1
  exact ⟨w, hs, of_decide_eq_true hp.2, password_superseded start holds hw hs⟩

end TestingPlatform.Auth
