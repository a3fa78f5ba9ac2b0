import TestingPlatform.Lib.Table
import TestingPlatform.Modules.Normalization

/-!
# Scan rows

The rows of `domains/scans/models.py` and `domains/findings/models.py` with the columns that the
worker or a constraint on its rows reads or writes, the database they live in, and the writes of the worker. An ORM flush
updates the changed columns of one row by primary key, so a write names the row and the columns it
sets; every other column keeps what is stored, whatever the session had read before.
-/

namespace TestingPlatform

structure Asset where
  id : Uuid
  organizationId : Uuid
  assetType : AssetType
  value : String
  deriving DecidableEq, Repr

structure FileUpload where
  id : Uuid
  organizationId : Option Uuid
  /-- Null after purge. -/
  storageKey : Option String
  deriving DecidableEq, Repr

structure ScanJob where
  id : Uuid
  organizationId : Option Uuid
  assetId : Option Uuid := none
  targetDomain : Option String := none
  fileUploadId : Option Uuid := none
  modules : List ScanModule
  moduleConfiguration : List (String × Json) := []
  status : ScanJobStatus := .queued
  statusReason : Option String := none
  purgeAt : Option Time := none
  startedAt : Option Time := none
  finishedAt : Option Time := none
  source : ScanSource := .manual
  claimedAt : Option Time := none

structure ScanTask where
  id : Uuid
  organizationId : Option Uuid
  scanJobId : Uuid
  module : ScanModule
  testKey : String
  testVersion : String
  classification : ScanClassification
  targetAssetId : Option Uuid := none
  targetDomain : Option String := none
  fileUploadId : Option Uuid := none
  configuration : List (String × Json) := []
  status : ScanTaskStatus := .queued
  statusReason : Option String := none
  cancellationRequestedAt : Option Time := none
  startedAt : Option Time := none
  finishedAt : Option Time := none

structure ScanResult extends ScanResultRow where
  id : Uuid

structure Finding extends FindingRow where
  id : Uuid
  status : FindingStatus

namespace Scan

/-- The tables of the scan pipeline. A task has at most one result, so results are keyed by task. -/
structure Db where
  jobs : Table ScanJob.id
  tasks : Table ScanTask.id
  results : Table fun r : ScanResult => r.scanTaskId
  findings : List Finding
  assets : Table Asset.id
  uploads : Table FileUpload.id

namespace Db

def tasksOf (d : Db) (jobId : Uuid) : List ScanTask := d.tasks.rows.filter fun t => t.scanJobId = jobId

@[simp] theorem mem_tasksOf {d : Db} {jobId : Uuid} {t : ScanTask} :
    t ∈ d.tasksOf jobId ↔ t ∈ d.tasks.rows ∧ t.scanJobId = jobId := by
  simp [tasksOf]

end Db

/-- The row locks the worker takes. `taskKey` is the entry of a new id in the primary-key index: two
transactions that insert one id take turns there, while nobody else sees the row yet. -/
inductive Lock where
  | job (id : Uuid)
  | task (id : Uuid)
  | taskKey (id : Uuid)
  deriving DecidableEq, Repr

inductive Write where
  /-- The columns `mark_job_running` sets. -/
  | jobRunning (id : Uuid) (now : Time)
  /-- The columns `finalize_job_if_done` sets; `purge_at` only when it was null. -/
  | jobClosed (id : Uuid) (status : ScanJobStatus) (reason : Option String) (now : Time) (purgeAt : Option Time)
  | insertTask (task : ScanTask)
  /-- The columns `mark_task_running` sets. -/
  | taskRunning (id : Uuid) (now : Time)
  /-- The columns `mark_task_terminal` sets. -/
  | taskTerminal (id : Uuid) (status : ScanTaskStatus) (reason : Option String) (now : Time)
  /-- Durable cancellation intent. -/
  | taskCancellation (id : Uuid) (requestedAt : Time)
  | insertResult (result : ScanResult)
  | insertFinding (finding : Finding)

namespace Write

/-- The row after the write, for a write to an existing task. -/
def onTask : Write → ScanTask → ScanTask
  | taskRunning _ now, t => { t with status := .running, startedAt := some now }
  | taskTerminal _ status reason now, t => { t with status, statusReason := reason, finishedAt := some now }
  | taskCancellation _ requestedAt, t => { t with cancellationRequestedAt := some requestedAt }
  | _, t => t

/-- The row after the write, for a write to a job. -/
def onJob : Write → ScanJob → ScanJob
  | jobRunning _ now, j => { j with status := .running, startedAt := some now }
  | jobClosed _ status reason now purgeAt, j =>
    { j with status, statusReason := reason, finishedAt := some now, purgeAt }
  | _, j => j

theorem onTask_id (u : Write) (t : ScanTask) : (u.onTask t).id = t.id := by cases u <;> rfl
theorem onTask_scanJobId (u : Write) (t : ScanTask) : (u.onTask t).scanJobId = t.scanJobId := by cases u <;> rfl
theorem onTask_testKey (u : Write) (t : ScanTask) : (u.onTask t).testKey = t.testKey := by cases u <;> rfl
theorem onJob_id (u : Write) (j : ScanJob) : (u.onJob j).id = j.id := by cases u <;> rfl

def taskId : Write → Option Uuid
  | taskRunning id _ | taskTerminal id .. | taskCancellation id _ => some id
  | _ => none

def jobId : Write → Option Uuid
  | jobRunning id _ | jobClosed id .. => some id
  | _ => none

def closesJob : Write → Bool
  | jobClosed .. => true
  | _ => false

/-- A row of what the module found. -/
def isOutput : Write → Bool
  | insertResult _ | insertFinding _ => true
  | _ => false

end Write

/-- One flushed statement. -/
def Db.write (d : Db) (u : Write) : Db :=
  match u with
  | .jobRunning id _ | .jobClosed id .. => { d with jobs := d.jobs.modify id u.onJob u.onJob_id }
  | .taskRunning id _ | .taskTerminal id .. | .taskCancellation id _ =>
    { d with tasks := d.tasks.modify id u.onTask u.onTask_id }
  | .insertTask task => { d with tasks := d.tasks.insert task }
  | .insertResult result => { d with results := d.results.insert result }
  | .insertFinding finding => { d with findings := d.findings ++ [finding] }

/-! ### What a list of writes does to one row -/

namespace Db
variable {d : Db} {u : Write} {ws : List Write} {id : Uuid}

theorem find_task_write {t : ScanTask} (h : d.tasks.find id = some t) :
    (d.write u).tasks.find id = some (if u.taskId = some id then u.onTask t else t) := by
  cases u with
  | jobRunning | jobClosed | insertResult | insertFinding => exact h
  | insertTask task =>
    by_cases hk : task.id = id
    · subst hk
      show (d.tasks.insert task).find task.id = some t
      rwa [Table.insert_of_taken h]
    · exact (Table.find_insert_of_ne hk).trans h
  | taskRunning id' | taskTerminal id' | taskCancellation id' =>
    show (d.tasks.modify id' _ (Write.onTask_id _)).find id = _
    rw [Table.find_modify, h]
    by_cases hk : id = id' <;> simp [Write.taskId, hk, eq_comm]

theorem find_task_foldl {t : ScanTask} (h : d.tasks.find id = some t) :
    (ws.foldl write d).tasks.find id =
      some (ws.foldl (fun t u => if u.taskId = some id then u.onTask t else t) t) := by
  induction ws generalizing d t with
  | nil => exact h
  | cons u ws ih => exact ih (find_task_write h)

theorem foldl_onTask_eq {t : ScanTask} (hws : ∀ u ∈ ws, u.taskId ≠ some id) :
    ws.foldl (fun t u => if u.taskId = some id then u.onTask t else t) t = t := by
  induction ws with
  | nil => rfl
  | cons u ws ih =>
    rw [List.foldl_cons, if_neg (hws u List.mem_cons_self)]
    exact ih fun v hv => hws v (List.mem_cons_of_mem _ hv)

theorem foldl_onTask_induction {I : ScanTask → Prop} {t : ScanTask} (h : I t)
    (hws : ∀ u ∈ ws, u.taskId = some id → ∀ t, I t → I (u.onTask t)) :
    I (ws.foldl (fun t u => if u.taskId = some id then u.onTask t else t) t) := by
  induction ws generalizing t with
  | nil => exact h
  | cons u ws ih =>
    refine ih ?_ fun v hv => hws v (List.mem_cons_of_mem _ hv)
    dsimp only
    split
    · next hu => exact hws u List.mem_cons_self hu t h
    · exact h

theorem foldl_taskTerminal (ids : List Uuid) (status : ScanTaskStatus) (reason : Option String) (now : Time)
    (t : ScanTask) :
    (ids.map fun i => Write.taskTerminal i status reason now).foldl
        (fun t u => if u.taskId = some id then u.onTask t else t) t =
      if id ∈ ids then { t with status, statusReason := reason, finishedAt := some now } else t := by
  induction ids generalizing t with
  | nil => rfl
  | cons i ids ih =>
    rw [List.map_cons, List.foldl_cons, ih]
    by_cases hi : i = id
    · subst hi
      simp [Write.taskId, Write.onTask]
    · simp [Write.taskId, hi, Ne.symm hi]

theorem find_task_write_none (hu : ∀ t, u ≠ .insertTask t) (h : d.tasks.find id = none) :
    (d.write u).tasks.find id = none := by
  cases u with
  | jobRunning | jobClosed | insertResult | insertFinding => exact h
  | insertTask task => exact absurd rfl (hu task)
  | taskRunning id' | taskTerminal id' | taskCancellation id' =>
    show (d.tasks.modify id' _ (Write.onTask_id _)).find id = none
    rw [Table.find_modify, h]
    simp

theorem find_task_foldl_none (hws : ∀ u ∈ ws, ∀ t, u ≠ .insertTask t) (h : d.tasks.find id = none) :
    (ws.foldl write d).tasks.find id = none := by
  induction ws generalizing d with
  | nil => exact h
  | cons u ws ih =>
    exact ih (fun v hv => hws v (List.mem_cons_of_mem _ hv)) (find_task_write_none (hws u List.mem_cons_self) h)

theorem inserted_of_find_task_foldl {t : ScanTask} (hws : ∀ u ∈ ws, u.taskId = none)
    (h : d.tasks.find id = none) (ht : (ws.foldl write d).tasks.find id = some t) : .insertTask t ∈ ws := by
  induction ws generalizing d with
  | nil => rw [List.foldl_nil, h] at ht; cases ht
  | cons u ws ih =>
    have hws' : ∀ v ∈ ws, v.taskId = none := fun v hv => hws v (List.mem_cons_of_mem _ hv)
    cases u with
    | taskRunning | taskTerminal | taskCancellation => simpa [Write.taskId] using hws _ List.mem_cons_self
    | jobRunning | jobClosed | insertResult | insertFinding =>
      rw [List.foldl_cons] at ht
      exact List.mem_cons_of_mem _ (ih hws' (by exact h) ht)
    | insertTask task =>
      by_cases hk : task.id = id
      · subst hk
        have hf : (ws.foldl write (d.write (.insertTask task))).tasks.find task.id = _ :=
          find_task_foldl (Table.find_insert_self h)
        rw [List.foldl_cons, hf, foldl_onTask_eq fun v hv => by simp [hws' v hv]] at ht
        cases ht
        exact List.mem_cons_self
      · exact List.mem_cons_of_mem _ (ih hws' ((Table.find_insert_of_ne hk).trans h) ht)

theorem find_job_write {j : ScanJob} (h : d.jobs.find id = some j) :
    (d.write u).jobs.find id = some (if u.jobId = some id then u.onJob j else j) := by
  cases u with
  | taskRunning | taskTerminal | taskCancellation | insertTask | insertResult | insertFinding => exact h
  | jobRunning id' | jobClosed id' =>
    show (d.jobs.modify id' _ (Write.onJob_id _)).find id = _
    rw [Table.find_modify, h]
    by_cases hk : id = id' <;> simp [Write.jobId, hk, eq_comm]

theorem find_job_foldl {j : ScanJob} (h : d.jobs.find id = some j) :
    (ws.foldl write d).jobs.find id =
      some (ws.foldl (fun j u => if u.jobId = some id then u.onJob j else j) j) := by
  induction ws generalizing d j with
  | nil => exact h
  | cons u ws ih => exact ih (find_job_write h)

theorem foldl_onJob_eq {j : ScanJob} (hws : ∀ u ∈ ws, u.jobId ≠ some id) :
    ws.foldl (fun j u => if u.jobId = some id then u.onJob j else j) j = j := by
  induction ws with
  | nil => rfl
  | cons u ws ih =>
    rw [List.foldl_cons, if_neg (hws u List.mem_cons_self)]
    exact ih fun v hv => hws v (List.mem_cons_of_mem _ hv)

theorem foldl_onJob_live {j : ScanJob} (hws : ∀ u ∈ ws, u.closesJob = false) (hj : j.status.terminal = false) :
    (ws.foldl (fun j u => if u.jobId = some id then u.onJob j else j) j).status.terminal = false := by
  induction ws generalizing j with
  | nil => exact hj
  | cons u ws ih =>
    refine ih (fun v hv => hws v (List.mem_cons_of_mem _ hv)) ?_
    have hu := hws u List.mem_cons_self
    dsimp only
    split
    · cases u with
      | jobClosed => cases hu
      | jobRunning => rfl
      | _ => exact hj
    · exact hj

theorem find_job_write_none (h : d.jobs.find id = none) : (d.write u).jobs.find id = none := by
  cases u with
  | taskRunning | taskTerminal | taskCancellation | insertTask | insertResult | insertFinding => exact h
  | jobRunning id' | jobClosed id' =>
    show (d.jobs.modify id' _ (Write.onJob_id _)).find id = none
    rw [Table.find_modify, h]
    simp

theorem find_job_foldl_none (h : d.jobs.find id = none) : (ws.foldl write d).jobs.find id = none := by
  induction ws generalizing d with
  | nil => exact h
  | cons u ws ih => exact ih (find_job_write_none h)

theorem results_foldl (ws : List Write) (hws : ∀ u ∈ ws, u.isOutput = false) :
    (ws.foldl write d).results = d.results ∧ (ws.foldl write d).findings = d.findings := by
  induction ws generalizing d with
  | nil => exact ⟨rfl, rfl⟩
  | cons u ws ih =>
    have hu := hws u List.mem_cons_self
    obtain ⟨hr, hf⟩ := ih (fun v hv => hws v (List.mem_cons_of_mem _ hv)) (d := d.write u)
    rw [List.foldl_cons, hr, hf]
    cases u with
    | insertResult | insertFinding => cases hu
    | _ => exact ⟨rfl, rfl⟩

theorem foldl_insertFinding (fs : List Finding) :
    (fs.map Write.insertFinding).foldl write d = { d with findings := d.findings ++ fs } := by
  induction fs generalizing d with
  | nil => simp
  | cons f fs ih => rw [List.map_cons, List.foldl_cons, ih]; simp [write]

end Db

end Scan

end TestingPlatform
