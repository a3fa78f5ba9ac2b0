import TestingPlatform.Api.Served

/-!
# The route of a registration

`Auth.register` stages its rows on a database; the route of `Api.Authentication` flushes them one statement after the other.
Over any database the route leaves what the registration commits, and answers an error where it refuses (`register_answers`).
-/

namespace TestingPlatform.Api.Registrations

open Dialogue Auth

/-- The database, and the rows that the open transaction sees. -/
structure Draft where
  db : Db
  rows : Db

instance : Transactional Draft Db where
  committed := Draft.rows
  kept := Draft.db

/-- A flush goes through, or it raises. -/
def Draft.flush (t : Draft) (x : Except RegistrationRefusal Db) : Except DbError Unit × Draft :=
  match x with
  | .ok rows => (.ok (), { t with rows })
  | .error .emailTaken => (.error .emailConflict, t)
  | .error _ => (.error .other, t)

section Registration
variable (P : Primitives) (statements : Statements) (x : Registration P)

def serve : (q : Question) → Draft → Answer q × Draft
  | ⟨_, .commit⟩, t => (.ok (), ⟨t.rows, t.rows⟩)
  | ⟨_, .rollback⟩, t | ⟨_, .close⟩, t => (.ok (), ⟨t.db, t.db⟩)
  | ⟨_, .setOrgContext ..⟩, t => (.ok (), t)
  | ⟨_, .activeAcceptanceStatements⟩, t => (.ok (activeAcceptanceStatements statements x.now), t)
  | ⟨_, .flushOrganization organizationId⟩, t => t.flush (flushOrganization t.rows { x with organizationId })
  | ⟨_, .flushUser organizationId userId email⟩, t =>
    t.flush <|
      if t.rows.users.rows.any fun u => P.sqlLower u.email = P.sqlLower email then .error .emailTaken
      else match t.rows.users.insertNew ⟨userId, organizationId, email, x.displayName, none⟩ with
        | none => .error .integrity
        | some users => .ok { t.rows with users }
  | ⟨_, .flushKeys organizationId userId⟩, t =>
    t.flush <| match x.keys with
      | none => .error .integrity
      | some (organizationKey, userKey) => flushKeys t.rows { x with organizationId, userId } organizationKey userKey
  | ⟨_, .flushReceipts organizationId statementIds⟩, t =>
    t.flush <| match statementIds.foldlM (fun receipts id => receipts.insertNew ⟨organizationId, id, x.envelopeId, x.now⟩)
        t.rows.receipts with
      | none => .error .integrity
      | some receipts => .ok { t.rows with receipts }
  | _, t => (.error .other, t)

def server : Server Draft where
  answer := serve P statements x
  commits _ _ := ⟨_, rfl, rfl, rfl⟩
  rollsBack _ _ := ⟨_, rfl, rfl, rfl⟩
  closes _ _ := ⟨_, rfl, rfl, rfl⟩

variable {P statements x} {d : Db} {s : Auth.Settings}

/-- The database after a registration, and its status. -/
def registered (d : Db) : Except RegistrationRefusal Db → Db × Option Nat
  | .ok d' => (d', none)
  | .error r => (d, some (registrationStatus r))

/-- The program writes these rows, or raises what answers this refusal. -/
def Flushes (P : Primitives) (statements : Statements) (x : Registration P) (d rows : Db) (y : Program Unit) :
    Except RegistrationRefusal Db → Prop
  | .ok rows' => y.on (server P statements x) ⟨d, rows⟩ = (.ok (), ⟨d, rows'⟩)
  | .error r => ∃ e, e.status = registrationStatus r ∧ y.on (server P statements x) ⟨d, rows⟩ = (.error e, ⟨d, rows⟩)

theorem Flushes.bind {rows : Db} {y : Program Unit} {flushed : Except RegistrationRefusal Db} {f : Unit → Program Unit}
    {g : Db → Except RegistrationRefusal Db} (h : Flushes P statements x d rows y flushed)
    (hf : ∀ rows, ((f ()).on (server P statements x) ⟨d, rows⟩).report = registered d (g rows)) :
    ((y >>= f).on (server P statements x) ⟨d, rows⟩).report = registered d (flushed >>= g) := by
  rw [on_bind]
  cases flushed with
  | ok rows' =>
    rw [show y.on (server P statements x) ⟨d, rows⟩ = _ from h]
    exact hf rows'
  | error r =>
    obtain ⟨e, hstatus, he⟩ := h
    rw [he]
    exact Prod.ext rfl (congrArg some hstatus)

/-- A flush that raises nothing but violated constraints that nobody tells apart. -/
theorem Flushes.of_flush {rows : Db} {y : Program Unit} {flushed : Except RegistrationRefusal Db}
    (h : y.on (server P statements x) ⟨d, rows⟩ =
      (((Draft.mk d rows).flush flushed).1.mapError Exc.db, ((Draft.mk d rows).flush flushed).2))
    (hintegrity : ∀ r, flushed = .error r → r = .integrity) : Flushes P statements x d rows y flushed := by
  cases flushed with
  | ok rows' => exact h
  | error r =>
    obtain rfl := hintegrity r rfl
    exact ⟨.db .other, rfl, h⟩

theorem flushes_organization {rows : Db} :
    Flushes P statements x d rows (exec .auth (.flushOrganization x.organizationId)) (flushOrganization rows x) := by
  refine .of_flush rfl fun r h => ?_
  unfold flushOrganization at h
  split at h <;> cases h
  rfl

theorem flushes_user {rows : Db} : Flushes P statements x d rows
    (tryCatch (exec .auth (.flushUser x.organizationId x.userId (P.lower x.email))) fun
      | .db .emailConflict => throw (.registration .emailTaken)
      | e => throw e) (flushUser rows x) := by
  have hanswer : (exec .auth (.flushUser x.organizationId x.userId (P.lower x.email))).on (server P statements x) ⟨d, rows⟩ =
      (((Draft.mk d rows).flush (flushUser rows x)).1.mapError Exc.db, ((Draft.mk d rows).flush (flushUser rows x)).2) := rfl
  unfold Flushes
  rw [on_tryCatch, hanswer]
  cases hflush : flushUser rows x with
  | ok rows' => rfl
  | error r =>
    have hr : r = .emailTaken ∨ r = .integrity := by
      unfold flushUser at hflush
      split at hflush
      · cases hflush
        exact .inl rfl
      · split at hflush <;> cases hflush
        exact .inr rfl
    rcases hr with rfl | rfl
    · exact ⟨.registration .emailTaken, rfl, rfl⟩
    · exact ⟨.db .other, rfl, rfl⟩

theorem flushes_keys {rows : Db} {organizationKey userKey : WrappedKey P} (hkeys : x.keys = some (organizationKey, userKey)) :
    Flushes P statements x d rows (exec .auth (.flushKeys x.organizationId x.userId))
      (flushKeys rows x organizationKey userKey) := by
  cases x
  cases hkeys
  refine .of_flush rfl fun r h => ?_
  unfold flushKeys at h
  split at h <;> cases h
  rfl

theorem foldlM_ids {active : List Auth.Statement} {answers : List (String × String)} {receipts : Table StatementResponse.key}
    (h : ∀ answer ∈ answers, ∃ r, receipt x active answer = some r) :
    (answers.filterMap fun answer => (active.find? fun s => s.key = answer).map Auth.Statement.id).foldlM
        (fun receipts id => receipts.insertNew ⟨x.organizationId, id, x.envelopeId, x.now⟩) receipts =
      answers.foldlM (fun t answer => (receipt x active answer).bind t.insertNew) receipts := by
  induction answers generalizing receipts with
  | nil => rfl
  | cons answer rest ih =>
    obtain ⟨r, hr⟩ := h answer List.mem_cons_self
    obtain ⟨s, hs, rfl⟩ := Option.map_eq_some_iff.1 hr
    rw [List.filterMap_cons, hs, List.foldlM_cons, hr]
    simp only [Option.map_some, List.foldlM_cons, Option.bind_some]
    exact bind_congr fun receipts => ih fun answer ha => h answer (List.mem_cons_of_mem _ ha)

theorem flushes_receipts {rows : Db} (h : Answered statements x) :
    Flushes P statements x d rows
      (exec .auth (.flushReceipts x.organizationId (x.answers.filterMap fun answer =>
        ((activeAcceptanceStatements statements x.now).find? fun s => s.key = answer).map Auth.Statement.id)))
      (flushReceipts rows x (activeAcceptanceStatements statements x.now)) := by
  refine .of_flush ?_ fun r h => ?_
  · rw [on_exec, server]
    dsimp only
    rw [serve, foldlM_ids h.exists_receipt]
    rfl
  · unfold flushReceipts at h
    split at h <;> cases h
    rfl

/-- The route of a registration does what the registration does. -/
theorem register_answers (token : String) :
    (Program.on (server P statements x) ((AuthRoute.register x).run P s token true) ⟨d, d⟩).report =
      registered d (Auth.register P statements d x) := by
  have hroute : Program.on (server P statements x) ((AuthRoute.register x).run P s token true) ⟨d, d⟩ =
      Program.on (server P statements x) (unitOfWork .auth (answered (register P x))) ⟨d, d⟩ := rfl
  rw [hroute, report_unitOfWork, ← Outcome.andThen_pure (Program.on ..), report_answered, Outcome.andThen_pure]
  have hstatements : ∀ f : List Auth.Statement → Program Unit,
      Program.on (server P statements x) (exec .auth .activeAcceptanceStatements >>= f) ⟨d, d⟩ =
        Program.on (server P statements x) (f (activeAcceptanceStatements statements x.now)) ⟨d, d⟩ := fun f => rfl
  have hcontext : ∀ f : Unit → Program Unit,
      Program.on (server P statements x) (exec .auth (.setOrgContext x.organizationId (some x.userId)) >>= f) ⟨d, d⟩ =
        Program.on (server P statements x) (f ()) ⟨d, d⟩ := fun f => rfl
  rw [register, hstatements, Auth.register]
  dsimp only
  split
  · rfl
  next hconsent =>
    rw [not_or, not_not, not_not] at hconsent
    have hanswered : Answered statements x := answered_iff.2 hconsent
    rw [hcontext]
    cases hkeys : x.keys with
    | none => rfl
    | some keys =>
      obtain ⟨organizationKey, userKey⟩ := keys
      dsimp only
      refine flushes_organization.bind fun rows => flushes_user.bind fun rows => (flushes_keys hkeys).bind fun rows => ?_
      rw [← bind_pure (flushReceipts ..)]
      exact (flushes_receipts hanswered).bind fun rows => rfl

end Registration

end TestingPlatform.Api.Registrations
