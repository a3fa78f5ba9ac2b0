import TestingPlatform.Api.Sessions

/-!
# The dependencies of a request

The units of work of `core/api_db.py` and the session policy of `core/security.py`, as programs over the two pools. What is
limited by Redis comes from outside. For each of them it is said what is in force afterwards (`InForce`).
-/

namespace TestingPlatform.Api

open Dialogue Assets Auth

/-- What is raised on the way to a response. -/
inductive Exc where
  | db (e : DbError)
  | http (status : Nat)
  | verification (r : Assets.Refusal)
  | auth (r : Auth.Refusal)
  | invalidMfaCode
  /-- The consent test or the unique address of a registration. -/
  | registration (r : RegistrationRefusal)
  deriving DecidableEq, Repr

abbrev Program (α : Type) := ExceptT Exc (Dialogue Question Answer) α

def exec (engine : Engine) (statement : Statement) : Program statement.Reply :=
  query (A := fun q : Question => q.statement.Reply) Exc.db ⟨engine, statement⟩

/-- `_unit_of_work`: commits on success, rolls back on an escaping exception, and closes. -/
def unitOfWork {α : Type} (engine : Engine) (body : Program α) : Program α :=
  ensuring
    (tryCatch (do
      let a ← body
      exec engine .commit
      pure a) fun e => do
      exec engine .rollback
      throw e)
    (exec engine .close)

/-- `with db.begin_nested()`. -/
def beginNested {α : Type} (engine : Engine) (body : Program α) : Program α := do
  exec engine .savepoint
  match ← ExceptT.lift body.run with
  | .ok a => do
    exec engine .releaseSavepoint
    pure a
  | .error e => do
    exec engine .rollbackToSavepoint
    throw e

/-! ### Sessions and gates -/

structure AuthenticatedSession where
  sessionId : Uuid
  userId : Uuid
  organizationId : Uuid
  mfaEnrolled : Bool
  mfaVerifiedAt : Option Time
  observedAt : Time
  organizationRole : OrganizationRole

section Policy
variable (P : Primitives) (s : Auth.Settings)

/-- `_resolve_session`. -/
def resolveSession (token : String) (allowPending : Bool) : Program AuthenticatedSession := do
  if token = "" then throw (.http 401)
  else if !isAscii token then throw (.auth .internalError)
  else match ← exec .auth (.sessionBootstrap (P.hashSessionToken token)) with
    | none => throw (.http 401)
    | some row =>
      if row.revokedAt.isSome || row.userDisabledAt.isSome then throw (.http 401)
      else if Time.seconds s.authSessionAbsoluteSeconds ≤ row.observedAt - row.sessionCreatedAt ∨
          Time.seconds s.authSessionIdleSeconds ≤ row.observedAt - row.lastSeenAt then throw (.http 401)
      else do
        exec .auth (.setUserContext row.userId)
        let state ← exec .auth (.mfaState row.userId row.sessionId)
        if !allowPending && state.mfaEnrolled && state.mfaVerifiedAt.isNone then throw (.http 401)
        else do
          exec .auth (.sessionTouch row.sessionId)
          pure ⟨row.sessionId, row.userId, row.organizationId, state.mfaEnrolled, state.mfaVerifiedAt, row.observedAt,
            state.organizationRole⟩

/-- `require_current_mfa_assurance`. -/
def requireCurrentMfaAssurance (current : AuthenticatedSession) : Program Unit :=
  if !current.mfaEnrolled then throw (.http 403)
  else if current.mfaVerifiedAt.any fun t => current.observedAt - t < Time.seconds s.authMfaAssuranceMaxAgeSeconds then pure ()
  else throw (.http 403)

end Policy

/-- `require_org_role`. -/
def requireOrgRole (role : OrganizationRole) (current : AuthenticatedSession) : Program Unit :=
  if current.organizationRole ≠ role then throw (.http 403) else pure ()

/-- A rate limit, by its answer. -/
def rateLimited (allowed : Bool) : Program Unit := if allowed then pure () else throw (.http 429)

/-- `org_scoped_app_session`. -/
def orgScopedAppSession (current : AuthenticatedSession) : Program Unit :=
  exec .app (.setOrgContext current.organizationId (some current.userId))

/-! ### What is in force -/

abbrev State := Sight Engine Context (Option Caller)

/-- From the state `s` the program asks only what is in order. -/
abbrev Runs {α : Type} (s : State) (x : Program α) (post : α → State → Prop) (raised : Exc → State → Prop) : Prop :=
  Leads pools watch s x post raised

/-- The database has said who the caller is. -/
def Known (who : Caller) (s : State) : Prop := s.noted = some who

/-- The transaction of the engine asserts the identity of the caller. -/
structure InForce (who : Caller) (engine : Engine) (s : State) : Prop where
  known : Known who s
  asserted : who.context engine = some (s.view engine).gucs

section Rules
variable {s : State} {who : Caller} {engine : Engine} {st : Statement} {α : Type}

/-- Nothing is asked out of order. -/
abbrev Safe (s : State) (x : Program α) : Prop := Runs s x (fun _ _ => True) fun _ _ => True

theorem Runs.safe {x : Program α} {post : α → State → Prop} {raised : Exc → State → Prop} (h : Runs s x post raised) : Safe s x :=
  h.mono (fun _ _ _ => trivial) fun _ _ _ => trivial

/-- The program keeps to its transaction and changes nothing that policies see. -/
abbrev Still (s : State) (x : Program α) : Prop := Runs s x (fun _ s' => s' = s) fun _ _ => True

theorem Still.bind {β : Type} {x : Program α} {f : α → Program β} {post : β → State → Prop} (h : Still s x)
    (hf : ∀ a, Runs s (f a) post fun _ _ => True) : Runs s (x >>= f) post fun _ _ => True :=
  Leads.bind h fun a _ hs => hs ▸ hf a

/-- A statement on a tenant table under its context. -/
theorem InForce.tenant (h : InForce who engine s) (hst : st.policed engine = true) :
    Runs s (exec engine st) (fun _ s' => s' = s) (fun _ s' => s' = s) := by
  obtain ⟨htenant, hgranted⟩ : st.tenant = true ∧ st.granted engine = true := by simpa [Statement.policed] using hst
  have hnext : ∀ r : Answer ⟨engine, st⟩, s.next pools watch ⟨⟨engine, st⟩, r⟩ = s := fun r => by
    refine Sight.ext (Caller.note_of_tenant _ htenant) ?_
    show Function.update s.view engine ((s.view engine).after _) = s.view
    rw [Context.after_of_tenant _ htenant, Function.update_eq_self]
  exact leads_query ⟨hgranted, fun _ => ⟨who, h.known, h.asserted⟩⟩ (fun _ => hnext _) fun _ => hnext _

theorem InForce.still (h : InForce who engine s) (hst : st.policed engine = true) : Still s (exec engine st) :=
  (h.tenant hst).mono (fun _ _ h => h) fun _ _ _ => trivial

theorem InForce.ask {f : st.Reply → Program α} {post : α → State → Prop} (h : InForce who engine s) (hst : st.policed engine = true)
    (hf : ∀ r, Runs s (f r) post fun _ _ => True) : Runs s (exec engine st >>= f) post fun _ _ => True :=
  (h.still hst).bind hf

/-- A statement without a policy is always in order. -/
theorem runs_exec {post : st.Reply → State → Prop} {raised : Exc → State → Prop} (hst : st.free engine = true)
    (hpost : ∀ r, post r (s.next pools watch ⟨⟨engine, st⟩, .ok r⟩))
    (hraised : ∀ e, raised (.db e) (s.next pools watch ⟨⟨engine, st⟩, .error e⟩)) : Runs s (exec engine st) post raised := by
  obtain ⟨htenant, hgranted⟩ : st.tenant = false ∧ st.granted engine = true := by simpa [Statement.free] using hst
  exact leads_query ⟨hgranted, fun h => absurd h (by simp [htenant])⟩ hpost hraised

theorem safe_exec (hst : st.free engine = true) : Safe s (exec engine st) :=
  runs_exec hst (fun _ => trivial) fun _ => trivial

theorem still_dbNow : Still s (exec engine .dbNow) := by
  refine runs_exec rfl (fun r => Sight.ext rfl ?_) fun _ => trivial
  exact Function.update_eq_self ..

theorem Known.plain (h : Known who s) (hst : st.free engine = true) (hid : st.identifies = false) :
    Runs s (exec engine st) (fun _ => Known who) fun _ => Known who :=
  have hkeeps : ∀ r : Answer ⟨engine, st⟩, Known who (s.next pools watch ⟨⟨engine, st⟩, r⟩) := fun _ =>
    (Caller.note_of_not_identifies _ hid).trans h
  runs_exec hst (fun _ => hkeeps _) fun _ => hkeeps _

theorem Known.ask {f : st.Reply → Program α} {post : α → State → Prop} (h : Known who s) (hst : st.free engine = true)
    (hid : st.identifies = false) (hf : ∀ r s', Known who s' → Runs s' (f r) post fun _ _ => True) :
    Runs s (exec engine st >>= f) post fun _ _ => True :=
  Leads.bind ((h.plain hst hid).mono (fun _ _ h => h) fun _ _ _ => trivial) hf

theorem Known.setOrgContext {orgId : Uuid} {userId : Option Uuid} (h : Known who s)
    (hwho : who.context engine = some { org := some orgId, user := userId }) :
    Runs s (exec engine (.setOrgContext orgId userId)) (fun _ => InForce who engine) fun _ => Known who :=
  runs_exec rfl (fun _ => ⟨h, hwho.trans (by simp [Sight.next, pools, Context.after, Except.toBool])⟩) fun _ => h

/-- The context is asserted, and the rest runs under it. -/
theorem Known.inOrg {orgId : Uuid} {userId : Option Uuid} {f : Unit → Program α} {post : α → State → Prop} (h : Known who s)
    (hwho : who.context engine = some { org := some orgId, user := userId })
    (hf : ∀ s', InForce who engine s' → Runs s' (f ()) post fun _ _ => True) :
    Runs s (exec engine (.setOrgContext orgId userId) >>= f) post fun _ _ => True :=
  Leads.bind ((h.setOrgContext hwho).mono (fun _ _ h => h) fun _ _ _ => trivial) fun _ => hf

theorem Known.setUserContext {userId : Uuid} (h : Known who s) (hwho : who.context engine = some { user := some userId }) :
    Runs s (exec engine (.setUserContext userId)) (fun _ => InForce who engine) fun _ => Known who :=
  runs_exec rfl (fun _ => ⟨h, hwho.trans (by simp [Sight.next, pools, Context.after, Except.toBool])⟩) fun _ => h

theorem Known.asUser {userId : Uuid} {f : Unit → Program α} {post : α → State → Prop} (h : Known who s)
    (hwho : who.context engine = some { user := some userId })
    (hf : ∀ s', InForce who engine s' → Runs s' (f ()) post fun _ _ => True) :
    Runs s (exec engine (.setUserContext userId) >>= f) post fun _ _ => True :=
  Leads.bind ((h.setUserContext hwho).mono (fun _ _ h => h) fun _ _ _ => trivial) fun _ => hf

/-- Whatever a transaction has asserted, its end is in order. -/
theorem Safe.unitOfWork {body : Program α} (h : Safe s body) : Safe s (unitOfWork engine body) := by
  refine Leads.ensuring (K := fun _ _ => True) (Leads.tryCatch (C := fun _ _ => True) ?_ fun e s' _ => ?_)
    fun r s' _ => (safe_exec rfl).mono (fun _ _ _ => by cases r <;> trivial) fun _ _ _ => trivial
  · exact h.bind fun a s' _ => (safe_exec rfl).bind fun _ _ _ => .pure trivial
  · exact (safe_exec rfl).bind fun _ _ _ => .throw trivial

theorem view_next {r : Answer ⟨engine, st⟩} :
    (s.next pools watch ⟨⟨engine, st⟩, r⟩).view engine = (s.view engine).after ⟨⟨engine, st⟩, r⟩ :=
  Function.update_self ..

theorem InForce.next (h : InForce who engine s) {r : Answer ⟨engine, st⟩} (hid : st.identifies = false)
    (hgucs : ((s.view engine).after ⟨⟨engine, st⟩, r⟩).gucs = (s.view engine).gucs) :
    InForce who engine (s.next pools watch ⟨⟨engine, st⟩, r⟩) where
  known := (Caller.note_of_not_identifies _ hid).trans h.known
  asserted := by rw [view_next, hgucs, h.asserted]

/-- The context of a transaction outlasts its savepoints. -/
theorem InForce.beginNested {body : Program α} (h : InForce who engine s)
    (hbody : ∀ s', InForce who engine s' → Runs s' body (fun _ s'' => s'' = s') fun _ s'' => s'' = s') :
    Runs s (beginNested engine body) (fun _ => InForce who engine) fun _ => InForce who engine := by
  let saved (s' : State) : Prop := InForce who engine s' ∧ (s'.view engine).savepoints.head? = some (s'.view engine).gucs
  refine Leads.bind (M := fun _ => saved) (runs_exec rfl (fun _ => ⟨h.next rfl rfl, ?_⟩) fun _ => h.next rfl rfl)
    fun _ s' hs' => ?_
  · rw [view_next]
    rfl
  refine Leads.bind (M := fun _ => saved) (.attempt ((hbody s' hs'.1).mono ?_ ?_)) fun result s'' hs'' => ?_
  · rintro _ _ rfl
    exact hs'
  · rintro _ _ rfl
    exact hs'
  cases result with
  | ok a =>
    exact Leads.bind (M := fun _ => InForce who engine)
      (runs_exec rfl (fun _ => hs''.1.next rfl rfl) fun _ => hs''.1.next rfl rfl) fun _ _ h => .pure h
  | error e =>
    refine Leads.bind (M := fun _ => InForce who engine)
      (runs_exec rfl (fun _ => hs''.1.next rfl ?_) fun _ => hs''.1.next rfl rfl) fun _ _ h => .throw h
    simp [Context.after, Except.toBool, List.headD_eq_head?_getD, hs''.2]

section Policy
variable {P : Primitives} {settings : Auth.Settings} {token : String} {allowPending : Bool}

/-- The session that the database knows is asserted from then on. -/
theorem runs_resolveSession : Runs s (resolveSession P settings token allowPending)
    (fun current => InForce (.member current.organizationId current.userId) .auth) fun _ _ => True := by
  unfold resolveSession
  split
  · exact .throw trivial
  split
  · exact .throw trivial
  refine Leads.bind (M := fun row s' => ∀ x ∈ row, Known (.member x.organizationId x.userId) s')
    (runs_exec rfl (fun r => ?_) fun _ => trivial) fun row s' hrow => ?_
  · rintro x rfl
    rfl
  cases row with
  | none => exact .throw trivial
  | some row =>
    have hknown := hrow row rfl
    dsimp only
    split
    · exact .throw trivial
    split
    · exact .throw trivial
    refine hknown.asUser rfl fun s' hin => ?_
    refine hin.ask rfl fun state => ?_
    split
    · exact .throw trivial
    exact hin.ask rfl fun _ => .pure hin

end Policy

end Rules

end TestingPlatform.Api
