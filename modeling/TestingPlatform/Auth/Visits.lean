import TestingPlatform.Auth.Lifetime
import TestingPlatform.Auth.Steps

/-!
# The authentication requests as visits

The requests of `domains/auth/service.py`, statement by statement, are visits with one handler: the service without the
session policy. So what holds of visits with any handler holds of them: the policy enforces what it reports
(`session_lifetime_of_requests`).
-/

namespace TestingPlatform.Auth

open ReadCommitted

def Write.isTouch : Write → Bool
  | .touch .. => true
  | _ => false

/-- The statement without the touch, which the policy brings. -/
def untouch (m : Step) : Step :=
  match m.op with
  | .commit ws => { m with op := .commit (ws.filter fun u => !u.isTouch) }
  | _ => m

theorem touchOf_of_not_isTouch {u : Write} (h : u.isTouch = false) (id : Uuid) : u.touchOf id = none := by
  cases u with
  | touch => cases h
  | _ => rfl

theorem untouched_untouch (m : Step) : ∀ u ∈ (untouch m).op.writes, ∀ id, u.touchOf id = none := by
  intro u hu
  obtain ⟨op, next, emit⟩ := m
  cases op with
  | commit ws =>
    obtain ⟨-, hnot⟩ := List.mem_filter.1 hu
    exact touchOf_of_not_isTouch (by simpa using hnot)
  | read | lock | unlock | rollback => cases hu

section Service
variable (P : Primitives) (s : Settings)

/-- The service, which starts where the policy ends. -/
def service : Handler Proc where
  next d p := (go P s d p).map untouch
  untouched d p m h := by
    obtain ⟨m', -, rfl⟩ := Option.map_eq_some_iff.1 h
    exact untouched_untouch m'

def Call.visit (c : Call) : Visit Proc := ⟨c.token, c.now, c.operation.allowPending, enter s c⟩

end Service

/-- What a transaction of the service has from the policy. -/
inductive Carries : List Write → Proc → Prop where
  | login {c : LoginCall} : Carries [] (.login c)
  | recordFailure {c : LoginCall} {userId : Uuid} : Carries [] (.recordFailure c userId)
  | loginCredential {c : LoginCall} {userId : Uuid} {kek stored : Bytes} : Carries [] (.loginCredential c userId kek stored)
  | call {p : Proc} {c : Call} {current : AuthenticatedSession} (hp : p.call = some (c, current)) :
      Carries [.touch current.sessionId c.now] p
  | tail {t : Tail} {pending : List Write} (own : List Write) (hwrites : t.writes = pending ++ own) (hpending : ∀ u ∈ pending, u.isTouch = true)
      (hown : ∀ u ∈ own, u.isTouch = false) : Carries pending (.tail t)
  | refuse {pending : List Write} {r : Refusal} : Carries pending (.refuse r)
  | done {pending : List Write} : Carries pending .done

/-- The request that the policy has let in, with its session. -/
def Proc.acting : Proc → Option (Call × AuthenticatedSession)
  | .touch c current => some (c, current)
  | p => p.call

/-- The visit that a request is. -/
inductive VisitOf (s : Settings) : Proc → Visiting Proc → Prop where
  | bootstrap {c : Call} : VisitOf s (.bootstrap c) (.bootstrap (c.visit s))
  | mfaState {c : Call} {sessionId userId : Uuid} :
      VisitOf s (.mfaState c sessionId userId) (.mfaState (c.visit s) sessionId userId)
  | touch {c : Call} {current : AuthenticatedSession} : VisitOf s (.touch c current) (.touch (c.visit s) current)
  | handling {pending : List Write} {p : Proc} (h : Carries pending p) : VisitOf s p (.handling pending p)
  | refuse {r : Refusal} : VisitOf s (.refuse r) (.refuse r)
  | done : VisitOf s .done .done

section Statements
variable {P : Primitives} {s : Settings} {held : Lock → Prop} {d : Db} {p : Proc} {pending : List Write} {m : Step} {c : Call}
  {current : AuthenticatedSession}

theorem isTouch_useWrites {row : UserMfa} {spent : Spent} {now : Time} : ∀ u ∈ useWrites row spent now, u.isTouch = false := by
  intro u hu
  cases spent with
  | step => cases hu
  | recovery h =>
    obtain rfl := List.mem_singleton.1 hu
    rfl

theorem isTouch_of_outcome {stmt : Stmt} {now : Time} {written : List Write} {ks : List Lock} {u : Write}
    (h : stmt.outcome d now written = .write ks u) : u.isTouch = false := by
  cases stmt with
  | updateCredential | updateMfa =>
    cases h
    rfl
  | revokeOtherSessions | burnRecoveryCodes => cases h
  | _ =>
    simp only [Stmt.outcome] at h
    split at h <;> cases h
    rfl

theorem acting_of_call (h : p = .touch c current ∨ p.call = some (c, current)) : p.acting = some (c, current) := by
  rcases h with rfl | h
  · rfl
  · cases p with
    | touch => cases h
    | _ => exact h

theorem Carries.step {t t' : Tail} (h : Carries pending (.tail t)) (hstep : (t.step d).next = .tail t') :
    Carries pending (.tail t') := by
  cases h with
  | call hcall => cases hcall
  | @tail _ _ own hwrites hpending hown =>
    obtain ⟨stmt, rest, -, ⟨ks, u, houtcome, -, rfl⟩ | ⟨todo, -, -, rfl⟩⟩ := tail_step hstep
    · refine .tail (own ++ [u]) (by simp [hwrites]) hpending fun v hv => ?_
      rcases List.mem_append.1 hv with hv | hv
      · exact hown v hv
      · obtain rfl := List.mem_singleton.1 hv
        exact isTouch_of_outcome houtcome
    · exact .tail own hwrites hpending hown

theorem Begins.carries {t : Tail} (h : Begins P s d p t) (hp : p.acting = some (c, current)) :
    Carries [.touch current.sessionId c.now] (.tail t) := by
  have carries : ∀ {c' : Call} {current' : AuthenticatedSession} {writes : List Write} {todo : List Stmt} {event : Event},
      p = .touch c' current' ∨ p.call = some (c', current') → (∀ u ∈ writes, u.isTouch = false) →
      Carries [.touch current.sessionId c.now] (.tail (c'.tail current' writes todo event)) := by
    intro c' current' writes todo event hcall hwrites
    obtain ⟨rfl, rfl⟩ := Prod.mk.inj (Option.some.inj (hp.symm.trans (acting_of_call hcall)))
    refine .tail writes rfl ?_ hwrites
    intro u hu
    obtain rfl := List.mem_singleton.1 hu
    rfl
  have none : ∀ u ∈ ([] : List Write), u.isTouch = false := fun u hu => by cases hu
  cases h with
  | loginFailed | loggedIn => cases hp
  | loggedOut => exact carries (.inl rfl) none
  | passwordChanged | enrolled | reenrolled | confirmed | regenerated => exact carries (.inr rfl) none
  | wrongCode hcall => exact carries (.inr hcall) none
  | steppedUp hcall | completed hcall | disabled hcall => exact carries (.inr hcall) isTouch_useWrites

/-- Behind the policy a request carries its touch. -/
theorem Leads.carries {q : Proc} (h : Leads P s d p q) (hp : p.acting = some (c, current)) :
    Carries [.touch current.sessionId c.now] q := by
  cases h with
  | refused | uncounted => exact .refuse
  | ended => exact .done
  | undecided hcall hq =>
    obtain ⟨rfl, rfl⟩ := Prod.mk.inj (Option.some.inj (hp.symm.trans (acting_of_call hcall)))
    exact .call hq
  | decided hbegins => exact hbegins.carries hp
  | lookedUp | letIn | passed | went => cases hp

theorem Leads.carries_login {q : Proc} (h : Leads P s d p q) (hp : p.acting = none) (hlogin : Carries [] p) : Carries [] q := by
  have absurd_call : ∀ {c : Call} {current : AuthenticatedSession}, ¬ (p = .touch c current ∨ p.call = some (c, current)) := by
    intro c current hcall
    rw [acting_of_call hcall] at hp
    cases hp
  have start : ∀ {c : LoginCall} {todo : List Stmt} {event : Event},
      Carries [] (.tail { request := .login c, writes := [], todo, event }) :=
    .tail [] rfl (fun u hu => by cases hu) fun u hu => by cases hu
  cases h with
  | refused | uncounted => exact .refuse
  | ended => exact .done
  | @lookedUp c a _ kek stored _ verified _ _ _ _ _ _ _ hq =>
    subst hq
    cases verified with
    | true => exact .loginCredential
    | false => exact .recordFailure
  | letIn | passed => cases hlogin
  | undecided hcall => exact absurd hcall absurd_call
  | decided hbegins =>
    cases hbegins with
    | loginFailed | loggedIn => exact start
    | loggedOut => cases hp
    | passwordChanged | enrolled | reenrolled | confirmed | regenerated => cases hp
    | wrongCode hcall | steppedUp hcall | completed hcall | disabled hcall => exact absurd (.inr hcall) absurd_call
  | went hstep => exact hlogin.step hstep

theorem Carries.next (h : Carries pending p) (hm : go P s d p = some m) (hA : p.Holds P s held d) : Carries pending m.next := by
  have hleads := go_leads hm hA
  cases h with
  | login | recordFailure => exact hleads.carries_login rfl (by constructor)
  | loginCredential => exact hleads.carries_login rfl .loginCredential
  | call hcall => exact hleads.carries (acting_of_call (.inr hcall))
  | @tail t _ own hwrites hpending hown =>
    generalize m.next = q at hleads
    cases hleads with
    | refused | uncounted => exact .refuse
    | ended => exact .done
    | undecided hcall => rcases hcall with hcall | hcall <;> cases hcall
    | decided hbegins => cases hbegins with | wrongCode hcall | steppedUp hcall | completed hcall | disabled hcall => cases hcall
    | went hstep => exact (Carries.tail own hwrites hpending hown).step hstep
  | refuse =>
    cases hm
    exact .done
  | done => cases hm

theorem go_op (h : go P s d p = some m) :
    (∃ t, p = .tail t ∧ m = { op := .commit t.writes, next := .done, emit := [t.event] }) ∨
      (∃ r, p = .refuse r ∧ m = { op := .rollback, next := .done, emit := [.refused r] }) ∨
      m.op = .read ∨ ∃ ks, m.op = .lock ks := by
  cases p with
  | tail t =>
    obtain rfl := Option.some.inj h
    rw [Tail.step]
    split
    · exact .inl ⟨t, rfl, rfl⟩
    · split
      · exact .inr (.inr (.inr ⟨_, rfl⟩))
      · exact .inr (.inr (.inl rfl))
      · exact .inr (.inr (.inl rfl))
  | refuse r =>
    cases h
    exact .inr (.inl ⟨r, rfl, rfl⟩)
  | touch =>
    cases h
    exact .inr (.inr (.inr ⟨_, rfl⟩))
  | factor | consume =>
    simp only [go] at h
    split at h <;> cases h
    all_goals simp
  | done => cases h
  | _ =>
    cases h
    exact .inr (.inr (.inl rfl))

theorem inUnit_untouch (h : m.op = .read ∨ ∃ ks, m.op = .lock ks) :
    inUnit pending (untouch m) = { op := m.op, next := .handling pending m.next, emit := m.emit } := by
  obtain ⟨op, next, emit⟩ := m
  rcases h with h | ⟨ks, h⟩ <;> cases h <;> rfl

/-- Every statement of a request is one of the visit that it is. -/
theorem VisitOf.go {v : Visiting Proc} (h : VisitOf s p v) (hm : go P s d p = some m) (hA : p.Holds P s held d) :
    ∃ m', visit P s (service P s) d v = some m' ∧ m'.op = m.op ∧ m'.emit = m.emit ∧ VisitOf s m.next m'.next := by
  cases h with
  | @bootstrap c =>
    rw [go_bootstrap] at hm
    obtain rfl := Option.some.inj hm
    refine ⟨_, rfl, rfl, rfl, ?_⟩
    dsimp only [Call.visit]
    cases resolve P s d c.token c.now with
    | error r => exact .refuse
    | ok x => exact .mfaState
  | @mfaState c sessionId userId =>
    rw [go_mfaState] at hm
    obtain rfl := Option.some.inj hm
    refine ⟨_, rfl, rfl, rfl, ?_⟩
    dsimp only [Call.visit]
    cases mfaGate d sessionId userId c.now c.operation.allowPending with
    | error r => exact .refuse
    | ok current => exact .touch
  | @touch c current =>
    have hleads := go_leads hm hA
    obtain rfl := Option.some.inj hm
    exact ⟨_, rfl, rfl, rfl, .handling (hleads.carries rfl)⟩
  | @handling pending _ hcarries =>
    have hservice : (service P s).next d p = some (untouch m) := by
      show (Auth.go P s d p).map untouch = some (untouch m)
      rw [hm, Option.map_some]
    refine ⟨inUnit pending (untouch m), by rw [visit, hservice], ?_⟩
    rcases go_op hm with ⟨t, rfl, rfl⟩ | ⟨r, rfl, rfl⟩ | hop
    · refine ⟨?_, rfl, .handling .done⟩
      cases hcarries with
      | call hcall => cases hcall
      | @tail _ _ own hwrites hpending hown =>
        have hnone : pending.filter (fun u => !u.isTouch) = [] := List.filter_eq_nil_iff.2 fun u hu => by simp [hpending u hu]
        have hall : own.filter (fun u => !u.isTouch) = own := List.filter_eq_self.2 fun u hu => by simp [hown u hu]
        show Op.commit (pending ++ t.writes.filter fun u => !u.isTouch) = .commit t.writes
        rw [hwrites, List.filter_append, hnone, hall, List.nil_append]
    · exact ⟨rfl, rfl, .handling .done⟩
    · rw [inUnit_untouch hop]
      exact ⟨rfl, rfl, .handling (hcarries.next hm hA)⟩
  | refuse =>
    obtain rfl := Option.some.inj hm
    exact ⟨_, rfl, rfl, rfl, .done⟩
  | done => cases hm

end Statements

/-! ### Runs -/

section Runs
variable {π : Type} [DecidableEq π] {P : Primitives} {s : Settings} {C : Requests π → π × Choice → Prop} {w₀ v w : Requests π}
  {H H' : List (Taken π Lock Write Db Proc Event)} {id : Uuid} {x₀ : UserSession}

def Requests.visiting (s : Settings) (w : Requests π) : World π Lock Db (Visiting Proc) Event where
  db := w.db
  owner := w.owner
  proc i := match w.proc i with
    | .bootstrap c => .bootstrap (c.visit s)
    | p => .handling [] p
  trace := w.trace

omit [DecidableEq π] in
theorem Start.mirrors (h : Start w₀) : System.Mirrors (VisitOf s) w₀ (w₀.visiting s) := by
  refine ⟨rfl, rfl, rfl, fun i => ?_⟩
  have hentry := h.entry i
  show VisitOf s (w₀.proc i) (match w₀.proc i with | .bootstrap c => .bootstrap (c.visit s) | p => .handling [] p)
  cases hp : w₀.proc i with
  | bootstrap => exact .bootstrap
  | login => exact .handling .login
  | done => exact .handling .done
  | _ =>
    rw [hp] at hentry
    cases hentry

omit [DecidableEq π] in
theorem visiting_entry (i : π) : ((w₀.visiting s).proc i).Entry := by
  show Visiting.Entry (match w₀.proc i with | .bootstrap c => .bootstrap (c.visit s) | p => .handling [] p)
  split
  · trivial
  · rfl

theorem visits_of_requests {v' : World π Lock Db (Visiting Proc) Event} (h₀ : Start w₀) (hbefore : (authentication P s).Run C w₀ v)
    (hv : System.Mirrors (VisitOf s) v v') (h : (authentication P s).Path C v H w) :
    ∃ V w', (visits P s (service P s)).Path (fun _ _ => True) v' V w' ∧ System.committed V = System.committed H ∧
      System.Mirrors (VisitOf s) w w' := by
  refine h.mirror rfl hv fun {w i c m p} hrun _ hm hp => ?_
  rcases System.move_abortable hm.1 with hgo | rfl
  · obtain ⟨m', hvisit, hop, hemit, hnext⟩ := hp.go hgo (outline_of_run h₀ (hbefore.trans hrun) i)
    exact ⟨.go, m', hvisit, hop, hemit, hnext⟩
  · exact ⟨.crash, _, rfl, rfl, rfl, .done⟩

theorem enforced_of_requests (h₀ : Start w₀) (hbefore : (authentication P s).Path C w₀ H v) (hx₀ : v.db.sessions.find id = some x₀)
    (h : (authentication P s).Path C v H' w) :
    ∃ V V' : List (Taken π Lock Write Db (Visiting Proc) Event),
      System.committed V = System.committed H ∧ System.committed V' = System.committed H' ∧ Enforced P s id x₀ V V' w.db := by
  obtain ⟨V, v', hV, hcommitted, hv⟩ := visits_of_requests h₀ .refl h₀.mirrors hbefore
  obtain ⟨V', w', hV', hcommitted', hw⟩ := visits_of_requests h₀ hbefore.run hv h
  refine ⟨V, V', hcommitted, hcommitted', ?_⟩
  have henforced := enforced_of_path visiting_entry hV (by rw [hv.db]; exact hx₀) hV'
  rwa [hw.db] at henforced

/-- A request that is let in for the session comes before both instants that are reported of it. -/
theorem let_in_before_expiry (h₀ : Start w₀) (hbefore : (authentication P s).Path C w₀ H v)
    (hx₀ : v.db.sessions.find id = some x₀) (h : (authentication P s).Path C v H' w) {c : Call} {m : Step} {userId : Uuid}
    (hm : go P s w.db (.bootstrap c) = some m) (hnext : m.next = .mfaState c id userId) :
    c.now < (sessionExpiries s (x₀.asOf (lastTouch id (System.committed H')))).1 ∧
      c.now < (sessionExpiries s (x₀.asOf (lastTouch id (System.committed H')))).2 := by
  obtain ⟨V, V', -, hcommitted', henforced⟩ := enforced_of_requests h₀ hbefore hx₀ h
  rw [go_bootstrap] at hm
  obtain rfl := Option.some.inj hm
  cases hresolve : resolve P s w.db c.token c.now with
  | error r => simp [hresolve] at hnext
  | ok x =>
    simp only [hresolve, Proc.mfaState.injEq, true_and] at hnext
    obtain ⟨u, hpresents⟩ := presents_of_resolve hresolve
    obtain ⟨-, -, hlive⟩ := (henforced.resolve_iff c.token c.now x u hpresents hnext.1).1 hresolve
    rwa [hcommitted'] at hlive

/-- The lifetime of sessions, of the requests as they are. -/
theorem session_lifetime_of_requests (h₀ : Start w₀) (hbefore : (authentication P s).Path C w₀ H v)
    (hx₀ : v.db.sessions.find id = some x₀) (h : (authentication P s).Path C v H' w) :
    (∃ V V' : List (Taken π Lock Write Db (Visiting Proc) Event),
        System.committed V = System.committed H ∧ System.committed V' = System.committed H' ∧ Enforced P s id x₀ V V' w.db) ∧
      (∀ c m userId, go P s w.db (.bootstrap c) = some m → m.next = .mfaState c id userId →
        c.now < (sessionExpiries s (x₀.asOf (lastTouch id (System.committed H')))).1 ∧
          c.now < (sessionExpiries s (x₀.asOf (lastTouch id (System.committed H')))).2) ∧
      ∀ x u userId now allowPending current, w.db.sessions.find x.id = some x →
        mfaGate w.db x.id userId now allowPending = .ok current → current.mfaEnrolled = true →
          (requireCurrentMfaAssurance s current = none ↔
            ∃ e, (sessionInfo s w.db u x).mfaAssuranceExpiresAt = some e ∧ now < e) :=
  ⟨enforced_of_requests h₀ hbefore hx₀ h, fun _ _ _ hm hnext => let_in_before_expiry h₀ hbefore hx₀ h hm hnext,
    fun _ _ _ _ _ _ hx hgate => requireCurrentMfaAssurance_iff hx hgate⟩

end Runs

end TestingPlatform.Auth
