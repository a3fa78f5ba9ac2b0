import TestingPlatform.Lib.ThreeValued
import TestingPlatform.Rls.Context
import TestingPlatform.Scan.Models

/-!
# The tenant policies

`_TENANT_PREDICATES`: one predicate per table, USING and WITH CHECK alike, so a row that a context does
not reach can neither be read nor written. The predicates are SQL conditions over the three parameters;
the EXISTS arms of `scan_result`, `finding` and `file_upload` read other tables, where the policy of the
table that is read applies again.
-/

namespace TestingPlatform.Rls

open Scan

/-- One wrapped key, with the CHECKs of `key_envelope`. -/
structure KeyEnvelope where
  id : Uuid
  scope : KeyScope
  organizationId : Option Uuid
  userId : Option Uuid
  scanJobId : Option Uuid
  user_scope_has_user : scope = .user ↔ userId.isSome
  scan_job_scope_has_job : scope = .scanJob ↔ scanJobId.isSome
  guest_scope_lacks_org : scope = .scanJob ↔ organizationId = none
  deriving DecidableEq

/-- The tables whose predicate is `organization_id = _ORG` and whose rows no other predicate reads. -/
inductive OrgTable where
  | asset | domainVerification | domainVerificationChallenge | schedule | report | assetFeed
  | organizationWebhook | organizationInvitation | statementResponse
  deriving DecidableEq, Repr

/-- The tables of one user's private rows: `owner_user_id = _USER`, `user_id = _USER`. -/
inductive UserTable where
  | apiKey | notification
  deriving DecidableEq, Repr

/-- A row of a table of `_TENANT_PREDICATES`, with the columns the predicates read. -/
inductive Row where
  | organization (id : Uuid)
  | appUser (id organizationId : Uuid)
  | orgRow (table : OrgTable) (id : Uuid) (organizationId : Option Uuid)
  | userRow (table : UserTable) (id : Uuid) (userId : Uuid)
  | keyEnvelope (row : KeyEnvelope)
  | scanJob (row : ScanJob)
  | scanTask (row : ScanTask)
  | scanResult (row : ScanResult)
  | finding (row : Finding)
  | fileUpload (row : FileUpload)

/-- The content of the tables. -/
abbrev Database := List Row

namespace Database

def scanJobs (db : Database) : List ScanJob := db.filterMap fun | .scanJob j => some j | _ => none
def scanTasks (db : Database) : List ScanTask := db.filterMap fun | .scanTask t => some t | _ => none
def scanResults (db : Database) : List ScanResult := db.filterMap fun | .scanResult r => some r | _ => none

end Database

/-! ### The predicates -/

namespace Gucs

variable (g : Gucs)

/-- `organization_id = _ORG`. -/
def orgArm (organizationId : Option Uuid) : Tri := .eq organizationId g.org

/-- `user_id = _USER`. -/
def userArm (userId : Option Uuid) : Tri := .eq userId g.user

/-- `scan_job_id = _JOB`. -/
def jobArm (scanJobId : Option Uuid) : Tri := .eq scanJobId g.job

def scanJobPolicy (row : ScanJob) : Tri := .or (g.orgArm row.organizationId) (g.jobArm (some row.id))

def scanTaskPolicy (row : ScanTask) : Tri := .or (g.orgArm row.organizationId) (g.jobArm (some row.scanJobId))

/-- `SELECT … FROM scan_task t WHERE t.id = taskId AND t.scan_job_id = _JOB`, under the policy of `scan_task`. -/
def taskOfJob (tasks : List ScanTask) (taskId : Uuid) : Tri :=
  .exists' tasks fun t =>
    .and (g.scanTaskPolicy t) (.and (.eq (some t.id) (some taskId)) (g.jobArm (some t.scanJobId)))

def scanResultPolicy (tasks : List ScanTask) (row : ScanResult) : Tri :=
  .or (g.orgArm row.organizationId) (g.taskOfJob tasks row.scanTaskId)

def findingPolicy (results : List ScanResult) (tasks : List ScanTask) (row : Finding) : Tri :=
  .or (g.orgArm row.organizationId)
    (.exists' results fun r =>
      .and (g.scanResultPolicy tasks r) (.and (.eq (some r.id) (some row.scanResultId)) (g.taskOfJob tasks r.scanTaskId)))

def fileUploadPolicy (jobs : List ScanJob) (row : FileUpload) : Tri :=
  .or (g.orgArm row.organizationId)
    (.exists' jobs fun j =>
      .and (g.scanJobPolicy j) (.and (.eq j.fileUploadId (some row.id)) (g.jobArm (some j.id))))

def keyEnvelopePolicy (row : KeyEnvelope) : Tri :=
  .or (.or (g.orgArm row.organizationId) (g.userArm row.userId)) (g.jobArm row.scanJobId)

/-- The predicate of the table the row belongs to. -/
def tenantPredicate (db : Database) : Row → Tri
  | .organization id => g.orgArm (some id)
  | .appUser id organizationId => .or (g.userArm (some id)) (g.orgArm (some organizationId))
  | .orgRow _ _ organizationId => g.orgArm organizationId
  | .userRow _ _ userId => g.userArm (some userId)
  | .keyEnvelope row => g.keyEnvelopePolicy row
  | .scanJob row => g.scanJobPolicy row
  | .scanTask row => g.scanTaskPolicy row
  | .scanResult row => g.scanResultPolicy db.scanTasks row
  | .finding row => g.findingPolicy db.scanResults db.scanTasks row
  | .fileUpload row => g.fileUploadPolicy db.scanJobs row

/-- A statement of the session reaches the stored row. -/
def Reaches (db : Database) (row : Row) : Prop := row ∈ db ∧ (g.tenantPredicate db row).Holds

/-! ### What each condition means -/

@[simp] theorem holds_orgArm {o : Option Uuid} : (g.orgArm o).Holds ↔ ∃ x, o = some x ∧ g.org = some x := Tri.holds_eq
@[simp] theorem holds_userArm {u : Option Uuid} : (g.userArm u).Holds ↔ ∃ x, u = some x ∧ g.user = some x :=
  Tri.holds_eq
@[simp] theorem holds_jobArm {j : Option Uuid} : (g.jobArm j).Holds ↔ ∃ x, j = some x ∧ g.job = some x := Tri.holds_eq

theorem holds_scanTaskPolicy {t : ScanTask} :
    (g.scanTaskPolicy t).Holds ↔ (∃ o, t.organizationId = some o ∧ g.org = some o) ∨ g.job = some t.scanJobId := by
  simp [scanTaskPolicy]

theorem holds_scanJobPolicy {j : ScanJob} :
    (g.scanJobPolicy j).Holds ↔ (∃ o, j.organizationId = some o ∧ g.org = some o) ∨ g.job = some j.id := by
  simp [scanJobPolicy]

/-- The inner policy of the EXISTS arm adds nothing: it is true wherever the arm is. -/
theorem holds_taskOfJob {tasks : List ScanTask} {taskId : Uuid} :
    (g.taskOfJob tasks taskId).Holds ↔ ∃ t ∈ tasks, t.id = taskId ∧ g.job = some t.scanJobId := by
  simp only [taskOfJob, Tri.holds_exists, Tri.holds_and, holds_scanTaskPolicy, Tri.holds_eq, holds_jobArm]
  refine exists_congr fun t => and_congr_right fun _ => ?_
  constructor
  · rintro ⟨-, ⟨x, h₁, h₂⟩, y, h₃, h₄⟩
    cases h₁; cases h₃
    exact ⟨(Option.some.inj h₂).symm, h₄⟩
  · rintro ⟨rfl, h⟩
    exact ⟨.inr h, ⟨_, rfl, rfl⟩, _, rfl, h⟩

theorem holds_scanResultPolicy {tasks : List ScanTask} {r : ScanResult} :
    (g.scanResultPolicy tasks r).Holds ↔
      (∃ o, r.organizationId = some o ∧ g.org = some o) ∨
        ∃ t ∈ tasks, t.id = r.scanTaskId ∧ g.job = some t.scanJobId := by
  simp [scanResultPolicy, holds_taskOfJob]

theorem holds_findingPolicy {results : List ScanResult} {tasks : List ScanTask} {f : Finding} :
    (g.findingPolicy results tasks f).Holds ↔
      (∃ o, f.organizationId = some o ∧ g.org = some o) ∨
        ∃ r ∈ results, r.id = f.scanResultId ∧ ∃ t ∈ tasks, t.id = r.scanTaskId ∧ g.job = some t.scanJobId := by
  simp only [findingPolicy, Tri.holds_or, holds_orgArm, Tri.holds_exists, Tri.holds_and, holds_scanResultPolicy,
    Tri.holds_eq, holds_taskOfJob]
  refine or_congr_right (exists_congr fun r => and_congr_right fun _ => ?_)
  constructor
  · rintro ⟨-, ⟨x, h₁, h₂⟩, h⟩
    cases h₁
    exact ⟨(Option.some.inj h₂).symm, h⟩
  · rintro ⟨h₁, h⟩
    exact ⟨.inr h, ⟨_, rfl, by rw [h₁]⟩, h⟩

theorem holds_fileUploadPolicy {jobs : List ScanJob} {u : FileUpload} :
    (g.fileUploadPolicy jobs u).Holds ↔
      (∃ o, u.organizationId = some o ∧ g.org = some o) ∨
        ∃ j ∈ jobs, j.fileUploadId = some u.id ∧ g.job = some j.id := by
  simp only [fileUploadPolicy, Tri.holds_or, holds_orgArm, Tri.holds_exists, Tri.holds_and, holds_scanJobPolicy,
    Tri.holds_eq, holds_jobArm]
  refine or_congr_right (exists_congr fun j => and_congr_right fun _ => ?_)
  constructor
  · rintro ⟨-, ⟨x, h₁, h₂⟩, y, h₃, h₄⟩
    cases h₂; cases h₃
    exact ⟨h₁, h₄⟩
  · rintro ⟨h₁, h⟩
    exact ⟨.inr h, ⟨_, h₁, rfl⟩, _, rfl, h⟩

theorem holds_keyEnvelopePolicy {k : KeyEnvelope} :
    (g.keyEnvelopePolicy k).Holds ↔
      (∃ o, k.organizationId = some o ∧ g.org = some o) ∨ (∃ u, k.userId = some u ∧ g.user = some u) ∨
        ∃ j, k.scanJobId = some j ∧ g.job = some j := by
  simp [keyEnvelopePolicy, or_assoc]

end Gucs

end TestingPlatform.Rls
