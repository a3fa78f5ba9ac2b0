import TestingPlatform.Rls.Policies

/-!
# What a context reaches

For each of the helpers of `core/rls.py` the rows it reaches are exactly the rows of its owner. The
organization and user arms read the row alone; under a guest job the EXISTS arms follow the row up to the
job, and under the other contexts they are never true. So what others store does not matter.
-/

namespace TestingPlatform.Rls

open Scan

/-! ### The context in force -/

/-- What can happen to the context of a session. -/
inductive ContextCall where
  | setOrgContext (orgId : Uuid) (userId : Option Uuid)
  | setUserContext (userId : Uuid)
  | setGuestJobContext (jobId : Uuid)
  | commit
  | rollback
  deriving DecidableEq, Repr

namespace ContextCall

def run (s : Session) : ContextCall → Session
  | .setOrgContext orgId userId => s.setOrgContext orgId userId
  | .setUserContext userId => s.setUserContext userId
  | .setGuestJobContext jobId => s.setGuestJobContext jobId
  | .commit | .rollback => s.endTransaction

/-- The identity a helper asserts; none after the end of a transaction. -/
def asserts : ContextCall → Option Gucs
  | .setOrgContext orgId userId => some { org := some orgId, user := userId }
  | .setUserContext userId => some { user := some userId }
  | .setGuestJobContext jobId => some { job := some jobId }
  | .commit | .rollback => none

/-- The last context asserted in the current transaction. -/
def inForce (calls : List ContextCall) : Option Gucs := calls.getLast?.bind asserts

/-- A new session after the calls. -/
def session (calls : List ContextCall) : Session := calls.foldl run {}

end ContextCall

theorem Guc.read_endTransaction (g : Guc) : g.endTransaction.read = none := by
  cases hk : g.endTransaction.known <;> simp [Guc.read, Guc.current, hk] <;> rfl

@[simp] theorem Session.gucs_endTransaction (s : Session) : s.endTransaction.gucs = {} := by
  simp [Session.gucs, Session.endTransaction, Guc.read_endTransaction]

theorem ContextCall.gucs_run (s : Session) (call : ContextCall) : (call.run s).gucs = call.asserts.getD {} := by
  cases call <;> simp [run, asserts]

/-- Whatever a session went through, the last call of the transaction decides. -/
theorem ContextCall.gucs_session (calls : List ContextCall) : (session calls).gucs = (inForce calls).getD {} := by
  rcases List.eq_nil_or_concat calls with rfl | ⟨calls, call, rfl⟩
  · rfl
  · rw [List.concat_eq_append, session, List.foldl_append, inForce, List.getLast?_append]
    exact gucs_run _ call

/-- The hints of a payload open the same arm in every session. -/
theorem Session.gucs_setHintContext (s : Session) (orgId scanJobId : Option Uuid) :
    (s.endTransaction.setHintContext orgId scanJobId).gucs = { org := orgId, job := if orgId = none then scanJobId else none } := by
  cases orgId <;> cases scanJobId <;> simp [Session.setHintContext]

/-! ### Owners of rows -/

namespace Row

/-- The organization column of the row. -/
def BelongsTo (o : Uuid) : Row → Prop
  | .organization id => id = o
  | .appUser _ organizationId => organizationId = o
  | .orgRow _ _ organizationId => organizationId = some o
  | .userRow .. => False
  | .keyEnvelope row => row.organizationId = some o
  | .scanJob row => row.organizationId = some o
  | .scanTask row => row.organizationId = some o
  | .scanResult row => row.organizationId = some o
  | .finding row => row.organizationId = some o
  | .fileUpload row => row.organizationId = some o

/-- The user column of the row. -/
def OwnedBy (u : Uuid) : Row → Prop
  | .appUser id _ => id = u
  | .userRow _ _ userId => userId = u
  | .keyEnvelope row => row.userId = some u
  | _ => False

/-- The job the row hangs on, through its task and its result where it has no column of its own. -/
def OfJob (db : Database) (j : Uuid) : Row → Prop
  | .scanJob row => row.id = j
  | .scanTask row => row.scanJobId = j
  | .scanResult row => ∃ t ∈ db.scanTasks, t.id = row.scanTaskId ∧ t.scanJobId = j
  | .finding row => ∃ r ∈ db.scanResults, r.id = row.scanResultId ∧ ∃ t ∈ db.scanTasks, t.id = r.scanTaskId ∧ t.scanJobId = j
  | .fileUpload row => ∃ job ∈ db.scanJobs, job.fileUploadId = some row.id ∧ job.id = j
  | .keyEnvelope row => row.scanJobId = some j
  | _ => False

/-- A row of the private tables of the user, or the user's own envelope. -/
def PrivateTo (u : Uuid) : Row → Prop
  | .userRow _ _ userId => userId = u
  | .keyEnvelope row => row.scope = .user ∧ row.userId = some u
  | _ => False

end Row

/-- The rows of `app_user` put the user into the organization. -/
def Member (db : Database) (u o : Uuid) : Prop := ∀ organizationId, Row.appUser u organizationId ∈ db → organizationId = o

/-! ### What a context reaches -/

namespace Gucs

/-- The predicate lets the session write the row. -/
def Admits (g : Gucs) (db : Database) (row : Row) : Prop := (g.tenantPredicate db row).Holds

variable {g : Gucs} {db db' : Database} {row : Row} {o u j : Uuid}

/-- The three arms: the organization, the user and the job of the row. -/
theorem admits_iff : g.Admits db row ↔
    (∃ o, g.org = some o ∧ row.BelongsTo o) ∨ (∃ u, g.user = some u ∧ row.OwnedBy u) ∨
      ∃ j, g.job = some j ∧ row.OfJob db j := by
  cases row with
  | organization | orgRow => simp [Admits, tenantPredicate, Row.BelongsTo, Row.OwnedBy, Row.OfJob, and_comm]
  | appUser =>
    simp only [Admits, tenantPredicate, Row.BelongsTo, Row.OwnedBy, Row.OfJob, Tri.holds_or, holds_userArm, holds_orgArm]
    simp [and_comm, or_comm]
  | userRow => simp [Admits, tenantPredicate, Row.BelongsTo, Row.OwnedBy, Row.OfJob, and_comm]
  | keyEnvelope =>
    simp only [Admits, tenantPredicate, Row.BelongsTo, Row.OwnedBy, Row.OfJob, holds_keyEnvelopePolicy]
    simp [and_comm]
  | scanJob =>
    simp only [Admits, tenantPredicate, Row.BelongsTo, Row.OwnedBy, Row.OfJob, holds_scanJobPolicy]
    simp [and_comm]
  | scanTask =>
    simp only [Admits, tenantPredicate, Row.BelongsTo, Row.OwnedBy, Row.OfJob, holds_scanTaskPolicy]
    simp [and_comm]
  | scanResult =>
    simp only [Admits, tenantPredicate, Row.BelongsTo, Row.OwnedBy, Row.OfJob, holds_scanResultPolicy]
    grind
  | finding =>
    simp only [Admits, tenantPredicate, Row.BelongsTo, Row.OwnedBy, Row.OfJob, holds_findingPolicy]
    grind
  | fileUpload =>
    simp only [Admits, tenantPredicate, Row.BelongsTo, Row.OwnedBy, Row.OfJob, holds_fileUploadPolicy]
    grind

theorem admits_org {user : Option Uuid} : ({ org := some o, user } : Gucs).Admits db row ↔
    row.BelongsTo o ∨ ∃ u, user = some u ∧ row.OwnedBy u := by
  simp [admits_iff]

theorem admits_user : ({ user := some u } : Gucs).Admits db row ↔ row.OwnedBy u := by
  simp [admits_iff]

theorem admits_guest : ({ job := some j } : Gucs).Admits db row ↔ row.OfJob db j := by
  simp [admits_iff]

theorem not_admits_none : ¬ ({} : Gucs).Admits db row := by
  simp [admits_iff]

/-- A member acting in the organization reaches its rows, and private rows of no one else. -/
theorem reaches_member (hm : Member db u o) : ({ org := some o, user := some u } : Gucs).Reaches db row ↔
    row ∈ db ∧ (row.BelongsTo o ∨ row.PrivateTo u) := by
  refine and_congr_right fun hrow => ?_
  refine admits_org.trans ?_
  constructor
  · rintro (ho | ⟨_, hu, howned⟩)
    · exact .inl ho
    cases hu
    cases row with
    | appUser id organizationId =>
      obtain rfl : id = u := howned
      exact .inl (hm organizationId hrow)
    | userRow => exact .inr howned
    | keyEnvelope row =>
      have hu : row.userId = some u := howned
      exact .inr ⟨row.user_scope_has_user.2 (by rw [hu]; rfl), hu⟩
    | _ => cases howned
  · rintro (ho | hp)
    · exact .inl ho
    · refine .inr ⟨u, rfl, ?_⟩
      cases row with
      | userRow => exact hp
      | keyEnvelope => exact hp.2
      | _ => cases hp

theorem reaches_org : ({ org := some o } : Gucs).Reaches db row ↔ row ∈ db ∧ row.BelongsTo o :=
  and_congr_right fun _ => admits_org.trans (by simp)

theorem reaches_user : ({ user := some u } : Gucs).Reaches db row ↔ row ∈ db ∧ row.OwnedBy u :=
  and_congr_right fun _ => admits_user

theorem reaches_guest : ({ job := some j } : Gucs).Reaches db row ↔ row ∈ db ∧ row.OfJob db j :=
  and_congr_right fun _ => admits_guest

end Gucs

/-! ### Sessions -/

/-- What a session of `nc3_app` reaches in a database, after any calls. -/
structure SessionsIsolated (db : Database) : Prop where
  /-- Only the context in force matters. -/
  last_call : ∀ calls calls', ContextCall.inForce calls = ContextCall.inForce calls' → ∀ row,
    (ContextCall.session calls).gucs.Admits db row ↔ (ContextCall.session calls').gucs.Admits db row
  no_call : ∀ calls, ContextCall.inForce calls = none → ∀ row, ¬ (ContextCall.session calls).gucs.Admits db row
  org : ∀ calls o, ContextCall.inForce calls = some { org := some o } → ∀ row,
    (ContextCall.session calls).gucs.Reaches db row ↔ row ∈ db ∧ row.BelongsTo o
  member : ∀ calls o u, ContextCall.inForce calls = some { org := some o, user := some u } → Member db u o → ∀ row,
    (ContextCall.session calls).gucs.Reaches db row ↔ row ∈ db ∧ (row.BelongsTo o ∨ row.PrivateTo u)
  user : ∀ calls u, ContextCall.inForce calls = some { user := some u } → ∀ row,
    (ContextCall.session calls).gucs.Reaches db row ↔ row ∈ db ∧ row.OwnedBy u
  guest : ∀ calls j, ContextCall.inForce calls = some { job := some j } → ∀ row,
    (ContextCall.session calls).gucs.Reaches db row ↔ row ∈ db ∧ row.OfJob db j
  /-- What a member reaches depends on the rows of the organization and the private rows only. -/
  member_congr : ∀ calls o u, ContextCall.inForce calls = some { org := some o, user := some u } →
    ∀ db', Member db u o → Member db' u o → (∀ row, row.BelongsTo o ∨ row.PrivateTo u → (row ∈ db ↔ row ∈ db')) → ∀ row,
      (ContextCall.session calls).gucs.Reaches db row ↔ (ContextCall.session calls).gucs.Reaches db' row
  guest_congr : ∀ calls j, ContextCall.inForce calls = some { job := some j } →
    ∀ db', (∀ row, row ∈ db ∧ row.OfJob db j ↔ row ∈ db' ∧ row.OfJob db' j) → ∀ row,
      (ContextCall.session calls).gucs.Reaches db row ↔ (ContextCall.session calls).gucs.Reaches db' row

theorem sessions_isolated (db : Database) : SessionsIsolated db where
  last_call calls calls' he row := by rw [ContextCall.gucs_session, ContextCall.gucs_session, he]
  no_call calls he row := by
    rw [ContextCall.gucs_session, he]
    exact Gucs.not_admits_none
  org calls o he row := by
    rw [ContextCall.gucs_session, he]
    exact Gucs.reaches_org
  member calls o u he hm row := by
    rw [ContextCall.gucs_session, he]
    exact Gucs.reaches_member hm
  user calls u he row := by
    rw [ContextCall.gucs_session, he]
    exact Gucs.reaches_user
  guest calls j he row := by
    rw [ContextCall.gucs_session, he]
    exact Gucs.reaches_guest
  member_congr calls o u he db' hm hm' h row := by
    rw [ContextCall.gucs_session, he]
    refine (Gucs.reaches_member hm).trans (Iff.trans ?_ (Gucs.reaches_member hm').symm)
    exact and_congr_left (h row)
  guest_congr calls j he db' h row := by
    rw [ContextCall.gucs_session, he]
    exact Gucs.reaches_guest.trans ((h row).trans Gucs.reaches_guest.symm)

end TestingPlatform.Rls
