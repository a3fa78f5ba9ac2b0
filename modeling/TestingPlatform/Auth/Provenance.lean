import TestingPlatform.Auth.Passwords
import TestingPlatform.Auth.Visits

/-!
# Where a session comes from

Nothing but a row of `user_session` lets a request in, and requests make such rows: a login for the account whose password it
has verified, the others in place of the session they were let in with. So behind every session of a user there is a chain
of sessions of the same user, each of which let in the request that opened the next, and a login at its beginning
(`session_provenance`).
-/

namespace TestingPlatform.Auth

open ReadCommitted

variable {π : Type}

section Chains
variable (P : Primitives) (s : Settings) (H : List (Taken π Lock Write Db Proc Event))

/-- The request has answered this. -/
def Says (i : π) (e : Event) : Prop := ∃ t ∈ H, t.proc = i ∧ e ∈ t.move.emit

/-- The login found the account of this user open to it, and verified its password against the stored hash. -/
def Verified (i : π) (c : LoginCall) (u : Uuid) : Prop :=
  ∃ t ∈ H, t.proc = i ∧ t.world.proc i = .login c ∧ verifies P t.world.db u c.password = true ∧
    ∃ a ∈ t.world.db.users.rows, a.id = u ∧ a.disabledAt = none ∧ P.sqlLower a.email = P.sqlLower (P.lower c.email)

/-- The token of the request was that of a session of the user, unrevoked and within both caps. -/
def LetIn (i : π) (c : Call) (sessionId u : Uuid) : Prop :=
  ∃ t ∈ H, t.proc = i ∧ t.world.proc i = .bootstrap c ∧
    ∃ x, resolve P s t.world.db c.token c.now = .ok x ∧ x.id = sessionId ∧ x.userId = u

/-- The chain behind a session of the user. -/
inductive Descends (d₀ : Db) : Uuid → Uuid → Prop where
  | before {x : UserSession} (hx : x ∈ d₀.sessions.rows) : Descends d₀ x.userId x.id
  | login {i : π} {c : LoginCall} {u : Uuid} (hverified : Verified P H i c u)
      (hanswer : Says H i (.loggedIn u c.password c.opens.id)) : Descends d₀ u c.opens.id
  | rotated {i : π} {c : Call} {u parent sessionId : Uuid} {e : Event} (hletIn : LetIn P s H i c parent u)
      (hparent : Descends d₀ u parent) (hopens : e.opens = some (u, sessionId)) (hanswer : Says H i e) : Descends d₀ u sessionId

/-- The request may open a session for the user with this answer. -/
def Earns (d₀ : Db) (i : π) (e : Event) (u sessionId : Uuid) : Prop :=
  (∃ c : LoginCall, Verified P H i c u ∧ sessionId = c.opens.id ∧ e = .loggedIn u c.password c.opens.id) ∨
    ∃ c parent, LetIn P s H i c parent u ∧ Descends P s H d₀ u parent

/-- What a request goes by, from its first statement to its answer. -/
def Proc.Grounds (d₀ : Db) (i : π) : Proc → Prop
  | .loginCredential c u _ _ => Verified P H i c u
  | .mfaState c sessionId u => LetIn P s H i c sessionId u ∧ Descends P s H d₀ u sessionId
  | .tail t => ∀ u sessionId, t.event.opens = some (u, sessionId) → Earns P s H d₀ i t.event u sessionId
  | p => ∀ c current, p.acting = some (c, current) →
      LetIn P s H i c current.sessionId current.userId ∧ Descends P s H d₀ current.userId current.sessionId

end Chains

section Later
variable {P : Primitives} {s : Settings} {H : List (Taken π Lock Write Db Proc Event)} {d₀ : Db} {i : π}

theorem Says.append {e : Event} (h : Says H i e) (H' : List (Taken π Lock Write Db Proc Event)) : Says (H ++ H') i e := by
  obtain ⟨t, ht, hanswer⟩ := h
  exact ⟨t, List.mem_append_left _ ht, hanswer⟩

theorem Verified.append {c : LoginCall} {u : Uuid} (h : Verified P H i c u) (H' : List (Taken π Lock Write Db Proc Event)) :
    Verified P (H ++ H') i c u := by
  obtain ⟨t, ht, hverified⟩ := h
  exact ⟨t, List.mem_append_left _ ht, hverified⟩

theorem LetIn.append {c : Call} {u sessionId : Uuid} (h : LetIn P s H i c sessionId u)
    (H' : List (Taken π Lock Write Db Proc Event)) : LetIn P s (H ++ H') i c sessionId u := by
  obtain ⟨t, ht, hletIn⟩ := h
  exact ⟨t, List.mem_append_left _ ht, hletIn⟩

theorem Descends.append {u sessionId : Uuid} (h : Descends P s H d₀ u sessionId) (H' : List (Taken π Lock Write Db Proc Event)) :
    Descends P s (H ++ H') d₀ u sessionId := by
  induction h with
  | before hx => exact .before hx
  | login hverified hanswer => exact .login (hverified.append H') (hanswer.append H')
  | rotated hletIn _ hopens hanswer ih => exact .rotated (hletIn.append H') ih hopens (hanswer.append H')

theorem Earns.append {e : Event} {u sessionId : Uuid} (h : Earns P s H d₀ i e u sessionId)
    (H' : List (Taken π Lock Write Db Proc Event)) : Earns P s (H ++ H') d₀ i e u sessionId := by
  rcases h with ⟨c, hverified, h⟩ | ⟨c, parent, hletIn, hparent⟩
  · exact .inl ⟨c, hverified.append H', h⟩
  · exact .inr ⟨c, parent, hletIn.append H', hparent.append H'⟩

theorem Proc.Grounds.append {p : Proc} (h : p.Grounds P s H d₀ i) (H' : List (Taken π Lock Write Db Proc Event)) :
    p.Grounds P s (H ++ H') d₀ i := by
  cases p with
  | loginCredential => exact Verified.append h H'
  | mfaState => exact ⟨h.1.append H', h.2.append H'⟩
  | tail => exact fun u sessionId hopens => (h u sessionId hopens).append H'
  | _ => exact fun c current hacting => ⟨(h c current hacting).1.append H', (h c current hacting).2.append H'⟩

theorem Descends.root {u sessionId : Uuid} (h : Descends P s H d₀ u sessionId) :
    (∃ x ∈ d₀.sessions.rows, x.userId = u) ∨ ∃ i c, Verified P H i c u := by
  induction h with
  | before hx => exact .inl ⟨_, hx, rfl⟩
  | login hverified => exact .inr ⟨_, _, hverified⟩
  | rotated _ _ _ _ ih => exact ih

theorem Earns.descends {e : Event} {u sessionId : Uuid} (h : Earns P s H d₀ i e u sessionId) (hopens : e.opens = some (u, sessionId))
    (hanswer : Says H i e) : Descends P s H d₀ u sessionId := by
  rcases h with ⟨c, hverified, rfl, rfl⟩ | ⟨c, parent, hletIn, hparent⟩
  · exact .login hverified hanswer
  · exact .rotated hletIn hparent hopens hanswer

end Later

/-! ### Statements -/

section Statements
variable {P : Primitives} {s : Settings} {H : List (Taken π Lock Write Db Proc Event)} {d₀ d : Db} {i : π} {held : Lock → Prop}

theorem Proc.Grounds.acting {p : Proc} {c : Call} {current : AuthenticatedSession} (h : p.Grounds P s H d₀ i)
    (hp : p.acting = some (c, current)) :
    LetIn P s H i c current.sessionId current.userId ∧ Descends P s H d₀ current.userId current.sessionId := by
  cases p with
  | loginCredential | mfaState | tail => cases hp
  | _ => exact h c current hp

theorem Proc.Grounds.of_acting {p : Proc} {c : Call} {current : AuthenticatedSession} (hp : p.acting = some (c, current))
    (h : LetIn P s H i c current.sessionId current.userId ∧ Descends P s H d₀ current.userId current.sessionId) :
    p.Grounds P s H d₀ i := by
  cases p with
  | loginCredential | mfaState | tail => cases hp
  | _ =>
    intro c' current' hp'
    obtain ⟨rfl, rfl⟩ := Prod.mk.inj (Option.some.inj (hp.symm.trans hp'))
    exact h

theorem Begins.grounds {p : Proc} {t : Tail} (h : Begins P s d p t) (hp : p.Grounds P s H d₀ i) :
    (Proc.tail t).Grounds P s H d₀ i := by
  intro u sessionId hopens
  cases h with
  | loggedIn =>
    cases hopens
    exact .inl ⟨_, hp, rfl, rfl⟩
  | passwordChanged =>
    cases hopens
    exact .inr ⟨_, _, hp.acting rfl⟩
  | completed hcall htries | disabled hcall htries =>
    have huser := htries.user
    cases hopens
    rw [huser]
    exact .inr ⟨_, _, hp.acting (acting_of_call (.inr hcall))⟩
  | _ => cases hopens

theorem verifies_of_lookedUp {u : Uuid} {credential : UserCredential} {kek stored : Bytes} {password : String}
    (hcredential : d.credentials.find u = some credential) (hkek : userKek P d u = some kek)
    (hstored : P.decrypt credential.passwordCiphertext kek .credential = some stored)
    (hverify : P.verify stored password = some true) : verifies P d u password = true := by
  rw [← Table.key_of_find hcredential] at hkek
  rw [verifies, hcredential, Option.any_some, verifyCurrentPassword, hkek]
  simp only [hstored, Option.bind_some, hverify]
  rfl

/-- Past the policy a statement keeps the grounds of its request. -/
theorem Leads.grounds {p q : Proc} (h : Leads P s d p q) (hp : p.Grounds P s H d₀ i)
    (hlogin : ∀ c u, p = .login c → verifies P d u c.password = true →
      (∃ a ∈ d.users.rows, a.id = u ∧ a.disabledAt = none ∧ P.sqlLower a.email = P.sqlLower (P.lower c.email)) → Verified P H i c u)
    (hbootstrap : ∀ c, p ≠ .bootstrap c) (hmfaState : ∀ c sessionId u, p ≠ .mfaState c sessionId u) : q.Grounds P s H d₀ i := by
  cases h with
  | refused | uncounted | ended => exact fun _ _ he => by cases he
  | @lookedUp c a _ _ _ _ verified haccount hcredential henabled _ hkek hstored hverify hq =>
    subst hq
    cases verified with
    | false => exact fun _ _ he => by cases he
    | true =>
      refine hlogin c a.id rfl (verifies_of_lookedUp hcredential hkek hstored hverify) ⟨a, ?_, rfl, henabled, ?_⟩
      · exact List.mem_of_find?_eq_some haccount
      · simpa using List.find?_some haccount
  | letIn => exact absurd rfl (hbootstrap _)
  | passed => exact absurd rfl (hmfaState _ _ _)
  | undecided hcall hq => exact .of_acting (acting_of_call (.inr hq)) (hp.acting (acting_of_call hcall))
  | decided hbegins => exact hbegins.grounds hp
  | went hstep =>
    obtain ⟨-, hevent, -⟩ := plan_step hstep
    intro u sessionId hopens
    rw [hevent] at hopens ⊢
    exact hp u sessionId hopens

end Statements

/-! ### Runs -/

section Runs
variable [DecidableEq π] {P : Primitives} {s : Settings} {C : Requests π → π × Choice → Prop} {w₀ w : Requests π}
  {H : List (Taken π Lock Write Db Proc Event)} {d₀ : Db} {i : π} {a : Choice} {m : Step}

/-- Every session has a chain behind it. -/
def AllDescend (P : Primitives) (s : Settings) (H : List (Taken π Lock Write Db Proc Event)) (d₀ d : Db) : Prop :=
  ∀ x ∈ d.sessions.rows, Descends P s H d₀ x.userId x.id

omit [DecidableEq π] in
theorem Proc.Grounds.next (hrows : AllDescend P s H d₀ w.db) (hgrounds : (w.proc i).Grounds P s H d₀ i)
    (hA : (outline P s).At w i) (hgo : go P s w.db (w.proc i) = some m) : m.next.Grounds P s (H ++ [⟨w, i, m⟩]) d₀ i := by
  have hlast : (⟨w, i, m⟩ : Taken π Lock Write Db Proc Event) ∈ H ++ [⟨w, i, m⟩] :=
    List.mem_append_right _ (List.mem_singleton_self _)
  generalize hp : w.proc i = p at hgrounds hgo
  have hholds : p.Holds P s (fun k => w.owner k = some i) w.db := hp ▸ hA
  cases p with
  | bootstrap c =>
    rw [go_bootstrap] at hgo
    obtain rfl := Option.some.inj hgo
    dsimp only
    cases hx : resolve P s w.db c.token c.now with
    | error r => exact fun _ _ he => by cases he
    | ok x =>
      obtain ⟨u, hpresents⟩ := presents_of_resolve hx
      have hdescends := hrows x (Table.mem_of_find hpresents.find)
      exact ⟨⟨_, hx ▸ hlast, rfl, hp, x, hx, rfl, rfl⟩, hdescends.append _⟩
  | mfaState c sessionId userId =>
    rw [go_mfaState] at hgo
    obtain rfl := Option.some.inj hgo
    dsimp only
    cases hcurrent : mfaGate w.db sessionId userId c.now c.operation.allowPending with
    | error r => exact fun _ _ he => by cases he
    | ok current =>
      have hsame : current.sessionId = sessionId ∧ current.userId = userId := by
        unfold mfaGate at hcurrent
        split at hcurrent
        · cases hcurrent
        split at hcurrent <;> cases hcurrent
        exact ⟨rfl, rfl⟩
      obtain ⟨rfl, rfl⟩ := hsame
      exact .of_acting rfl ⟨hgrounds.1.append _, hgrounds.2.append _⟩
  | _ =>
    refine (go_leads hgo hholds).grounds (hgrounds.append _) (fun c u hlogin hverifies haccount => ?_)
      (fun _ he => by cases he) fun _ _ _ he => by cases he
    exact ⟨_, hlast, rfl, hp.trans hlogin, hverifies, haccount⟩

/-- A session after a statement is one of before, or the one that the statement answers with. -/
theorem AllDescend.next (hrows : AllDescend P s H d₀ w.db) (hgrounds : (w.proc i).Grounds P s H d₀ i)
    (hA : (outline P s).At w i) (hm : (authentication P s).Fires w i a m) :
    AllDescend P s (H ++ [⟨w, i, m⟩]) d₀ ((authentication P s).after w i m).db := by
  intro x hx
  rcases fires_cases hA hm with ⟨t, hproc, -, htodo, rfl, hholds⟩ | ⟨hdb, -⟩
  · rcases session_origin hx with ⟨x₀, hx₀, hafter⟩ | ⟨x₀, hin, -, hafter⟩
    · rw [hafter.id, hafter.userId]
      exact (hrows x₀ hx₀).append _
    · have hdecided := hholds.decided
      rw [Tail.plan, htodo, List.flatMap_nil, List.append_nil] at hdecided
      have hopens := hdecided.opens (List.mem_filter.2 ⟨hin, rfl⟩)
      rw [hproc] at hgrounds
      rw [hafter.id, hafter.userId]
      refine ((hgrounds _ _ hopens).append _).descends hopens ?_
      exact ⟨_, List.mem_append_right _ (List.mem_singleton_self _), rfl, List.mem_singleton_self _⟩
  · rw [hdb] at hx
    exact (hrows x hx).append _

/-- In every run each session descends from a session of before or from a login that verified the password of its user,
through sessions of the same user of which each let in the request that opened the next. -/
theorem session_provenance (h₀ : Start w₀) (h : (authentication P s).Path C w₀ H w) :
    ∀ x ∈ w.db.sessions.rows, Descends P s H w₀.db x.userId x.id ∧
      ((∃ x₀ ∈ w₀.db.sessions.rows, x₀.userId = x.userId) ∨ ∃ i c, Verified P H i c x.userId) := by
  have hall : AllDescend P s H w₀.db w.db ∧ ∀ i, (w.proc i).Grounds P s H w₀.db i := by
    refine h.invariant (I := fun H v => AllDescend P s H w₀.db v.db ∧ ∀ i, (v.proc i).Grounds P s H w₀.db i)
      ⟨fun x hx => .before hx, fun i => ?_⟩ fun H v i a m hrun ⟨hrows, hgrounds⟩ _ hm => ?_
    · have he := h₀.entry i
      generalize w₀.proc i = p at he
      cases p with
      | login | bootstrap | done => exact fun _ _ he => by cases he
      | _ => cases he
    · have hat := outline_of_run h₀ hrun i
      refine ⟨hrows.next (hgrounds i) hat hm, fun j => ?_⟩
      by_cases hij : j = i
      · subst hij
        rw [System.proc_after_self]
        rcases System.move_abortable hm.1 with hgo | rfl
        · exact Proc.Grounds.next hrows (hgrounds j) hat hgo
        · exact fun _ _ he => by cases he
      · rw [System.proc_after_of_ne hij]
        exact (hgrounds j).append _
  exact fun x hx => ⟨hall.1 x hx, (hall.1 x hx).root⟩

end Runs

namespace Chain

/-- A user without a session. -/
def db : Db where
  users := Table.empty.insert ⟨1, 2, "user@example.lu", none, none⟩
  envelopes := Table.empty.insert ⟨3, 2, 1, [7], []⟩
  credentials := Table.empty.insert { userId := 1, passwordCiphertext := encode "correct horse", passwordUpdatedAt := 0 }
  sessions := .empty
  mfa := .empty
  codes := .empty

/-- The user logs in and changes the password. -/
def requests : Bool → Proc
  | true => .login ⟨"user@example.lu", "correct horse", Time.seconds 60, [], [], ⟨10, "opened", by decide⟩⟩
  | false => .bootstrap ⟨"opened", Time.seconds 61, .changePassword "correct horse" "battery staple" [] [] ⟨20, "rotated", by decide⟩⟩

def begin : Requests Bool where
  db
  owner _ := none
  proc := requests
  trace := []

theorem start : Start begin where
  entry := fun | true | false => trivial
  trace := rfl

end Chain

open Chain in
/-- The session that the change opens descends from the one that the login opened. -/
theorem session_provenance_of_rotation : ∃ (H : List (Taken Bool Lock Write Db Proc Event)) (w : Requests Bool) (x : UserSession),
    x ∈ w.db.sessions.rows ∧ x.live = true ∧ x.id = 20 ∧ Descends Primitives.plain Settings.shipped H begin.db x.userId x.id ∧
      ∃ i c, Verified Primitives.plain H i c x.userId := by
  have htrail : ((authentication Primitives.plain Settings.shipped).trail (fun _ _ => True) begin (steps true 4 ++ steps false 9)).any
      (fun s => s.2.db.sessions.rows.any fun x => x.live && x.id = 20) = true := by
    decide +kernel
  obtain ⟨H, w, hpath, htest⟩ := System.Path.of_trail_any htrail
  obtain ⟨x, hx, hlive⟩ := List.any_eq_true.1 htest
  rw [Bool.and_eq_true, decide_eq_true_eq] at hlive
  obtain ⟨hdescends, hroot⟩ := session_provenance start hpath x hx
  refine ⟨H, w, x, hx, hlive.1, hlive.2, hdescends, ?_⟩
  rcases hroot with ⟨x₀, hx₀, -⟩ | hverified
  · cases hx₀
  · exact hverified

end TestingPlatform.Auth
