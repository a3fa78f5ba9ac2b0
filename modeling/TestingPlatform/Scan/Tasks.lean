import TestingPlatform.Lib.ReadCommitted
import TestingPlatform.Rls.Policies
import TestingPlatform.Scan.Orchestration

/-!
# The worker's tasks, one database statement at a time

`worker/tasks.py` with `finalize_job_if_done` and `worker/events.py`. Every delivery is a process; its
control state `Proc` stands before the statement named by the constructor and holds what the Python
function has in its local variables. What a delivery gets from outside the database (its payload, its
clock readings, the identifiers `uuid7` draws, what the engine does) is in its call. The texts of a
payload are identifiers here: `uuid.UUID(...)` refuses any other text before the first statement.

A delivery that raises before its commit rolls back and ends (`Choice.fail`); a killed worker does so
anywhere (`Choice.crash`).
-/

namespace TestingPlatform.Scan

open ReadCommitted

/-! ### Sessions -/

/-- The database role of a worker: scan workers are `nc3_app`, the platform worker `app_platform`. -/
inductive Role where
  | nc3App | appPlatform
  deriving DecidableEq, Repr

/-- The role and the context of one transaction. -/
structure Access where
  role : Role
  gucs : Rls.Gucs
  deriving DecidableEq, Repr

namespace Access

/-- A fresh transaction after `_set_hint_context`. -/
def ofHint (role : Role) (orgId scanJobId : Option Uuid) : Access where
  role
  gucs := (({} : Rls.Session).setHintContext orgId scanJobId).gucs

/-- The sessions of `scan.dispatch`, `scan.reap` and `scan.heartbeat`. -/
def platform : Access := ofHint .appPlatform none none

/-- The policies of `scan_job`: duty policies `USING (true)` for the platform role. -/
def seesJob (a : Access) (job : ScanJob) : Bool :=
  a.role = .appPlatform || decide (a.gucs.scanJobPolicy job).Holds

def seesTask (a : Access) (task : ScanTask) : Bool :=
  a.role = .appPlatform || decide (a.gucs.scanTaskPolicy task).Holds

/-- `unit.get(Asset, id)`; the platform role has no grant on the table, and the statement fails. -/
def getAsset (a : Access) (d : Db) (id : Uuid) : Except Unit (Option Asset) :=
  match a.role with
  | .appPlatform => .error ()
  | .nc3App => .ok ((d.assets.find id).filter fun x => decide (a.gucs.orgArm (some x.organizationId)).Holds)

def getUpload (a : Access) (d : Db) (id : Uuid) : Except Unit (Option FileUpload) :=
  match a.role with
  | .appPlatform => .error ()
  | .nc3App => .ok ((d.uploads.find id).filter fun x => decide (a.gucs.fileUploadPolicy d.jobs.rows x).Holds)

end Access

/-! ### What leaves a worker -/

/-- Events on the channel of a job, messages to the broker, and the run of a module. -/
inductive Message where
  | task (jobId taskId : Uuid) (status : ScanTaskStatus) (reason : Option String) (occurredAt : Time)
  | job (jobId : Uuid) (status : ScanJobStatus) (reason : Option String) (occurredAt : Time)
  | «end» (jobId : Uuid) (status : ScanJobStatus) (occurredAt : Time)
  | heartbeat (jobId : Uuid) (occurredAt : Time)
  /-- `scan.run_module` with its arguments, on its queue. -/
  | runModule (taskId : Uuid) (orgId : Option Uuid) (scanJobId : Uuid) (queue : String)
  | revoke (taskId : Uuid)
  /-- The module of a task starts to run. -/
  | ran (taskId : Uuid)
  deriving DecidableEq, Repr

/-- `publish_job_event`: a terminal state also ends the stream. -/
def publishJobEvent (jobId : Uuid) (status : ScanJobStatus) (reason : Option String) (occurredAt : Time) :
    List Message :=
  .job jobId status reason occurredAt :: if status.terminal then [.end jobId status occurredAt] else []

/-! ### Calls -/

structure DispatchCall where
  jobId : Uuid
  /-- What `get_roster()` gives in this process; `none` where discovery fails. -/
  roster : Option Roster
  now : Time
  uuid7 : Nat → Uuid
  finalizedAt : Time

structure RunModuleCall where
  taskId : Uuid
  orgId : Option Uuid
  scanJobId : Option Uuid
  role : Role
  /-- `settings.worker_queue`. -/
  workerQueue : String
  roster : Option Roster
  now : Time
  engine : ScanInput → RunOutcome
  /-- The database, when the rows of the result are flushed. -/
  postgres : Postgres
  finished : Time
  uuid7 : Nat → Uuid
  finalizedAt : Time

structure ReapCall where
  jobId : Uuid
  swept : Time
  finalizedAt : Time

structure CancelCall where
  taskId : Uuid
  requestedAt : Time

/-- The arguments of `_finalize_and_publish`. -/
structure FinalizeCall where
  jobId : Uuid
  access : Access
  now : Time
  reasonOverride : Option String

def RunModuleCall.access (c : RunModuleCall) : Access := .ofHint c.role c.orgId c.scanJobId

def RunModuleCall.finalize (c : RunModuleCall) (jobId : Uuid) : FinalizeCall :=
  ⟨jobId, c.access, c.finalizedAt, none⟩

def DispatchCall.finalize (c : DispatchCall) : FinalizeCall := ⟨c.jobId, .platform, c.finalizedAt, none⟩

def ReapCall.finalize (c : ReapCall) (failed : List Uuid) : FinalizeCall :=
  ⟨c.jobId, .platform, c.finalizedAt, if failed = [] then none else some reasonJobTimeout⟩

/-! ### `scan.dispatch` -/

/-- `get_roster().queue_for(test_key)`, with a failed discovery as the `ModuleRegistryError` it is. -/
def queueFor (roster : Option Roster) (testKey : String) : Except ModuleRegistryError String :=
  match roster with
  | none => .error .unusable
  | some r => r.queueFor testKey

/-- What `dispatch` has decided before its commit. -/
structure DispatchPlan where
  job : ScanJob
  created : List ScanTask
  /-- Queued tasks whose module vanished. -/
  vanished : List Uuid
  toPublish : List (Uuid × String)

/-- The loop over the tasks: which of them are blocked as vanished, which are published. -/
def sortTasks (roster : Option Roster) (tasks : List ScanTask) : List Uuid × List (Uuid × String) :=
  let sendable := tasks.filter fun t => t.status = .queued ∧ t.cancellationRequestedAt = none
  (sendable.filterMap fun t => match queueFor roster t.testKey with | .error _ => some t.id | .ok _ => none,
    sendable.filterMap fun t => match queueFor roster t.testKey with | .error _ => none | .ok q => some (t.id, q))

/-- From the rows `dispatch` read to its plan; `none` where planning or creation raises. -/
def planDispatch (c : DispatchCall) (job : ScanJob) (tasks : List ScanTask) : Option DispatchPlan :=
  if tasks = [] then
    c.roster.bind fun roster =>
      match planTaskMatrix job.modules roster with
      | .error _ => none
      | .ok specs => (createTasks job specs c.now c.uuid7).map fun created =>
          let sorted := sortTasks c.roster created
          ⟨job, created, sorted.1, sorted.2⟩
  else
    let sorted := sortTasks c.roster tasks
    some ⟨job, [], sorted.1, sorted.2⟩

theorem planDispatch_cases {c : DispatchCall} {job : ScanJob} {tasks : List ScanTask} {p : DispatchPlan}
    (h : planDispatch c job tasks = some p) :
    (tasks = [] ∧ ∃ roster specs created, c.roster = some roster ∧ planTaskMatrix job.modules roster = .ok specs ∧
      createTasks job specs c.now c.uuid7 = some created ∧
        p = ⟨job, created, (sortTasks c.roster created).1, (sortTasks c.roster created).2⟩) ∨
    tasks ≠ [] ∧ p = ⟨job, [], (sortTasks c.roster tasks).1, (sortTasks c.roster tasks).2⟩ := by
  unfold planDispatch at h
  split at h
  · next hnil =>
    obtain ⟨roster, hroster, h⟩ := Option.bind_eq_some_iff.1 h
    split at h
    · cases h
    · next specs hspecs =>
      obtain ⟨created, hcreated, rfl⟩ := Option.map_eq_some_iff.1 h
      exact .inl ⟨hnil, roster, specs, created, hroster, hspecs, hcreated, rfl⟩
  · next hne =>
    cases h
    exact .inr ⟨hne, rfl⟩

namespace DispatchPlan

def writes (p : DispatchPlan) (now : Time) : List Write :=
  markJobRunning p.job now ++ p.created.map .insertTask ++
    p.vanished.map fun id => .taskTerminal id .blocked (some reasonModuleUnavailable) now

def messages (p : DispatchPlan) (now : Time) : List Message :=
  (if p.job.status = .queued then publishJobEvent p.job.id .running none now else []) ++
    p.toPublish.map fun m => .runModule m.1 p.job.organizationId p.job.id m.2

end DispatchPlan

/-! ### `scan.run_module` -/

/-- What phase 1 hands to the engine. -/
structure EngineRun where
  jobId : Uuid
  targetDomain : Option String
  filePath : Option String
  configuration : List (String × Json)

/-- Why a claimed task is closed without a run: a cancel first, then the roster, then the egress gate. -/
def refusal (c : RunModuleCall) (task : ScanTask) : Option (ScanTaskStatus × String) :=
  if task.cancellationRequestedAt.isSome then some (.canceled, reasonTaskCanceled)
  else match queueFor c.roster task.testKey with
    | .error _ => some (.blocked, reasonModuleUnavailable)
    | .ok declared => if declared = c.workerQueue then none else some (.blocked, reasonMisrouted)

/-- Phase 2: the result of the module or the reason of its failure, and whether the module ran at all. -/
def runEngine (c : RunModuleCall) (run : EngineRun) : Except String ModuleResult × Bool :=
  match ScanInput.make run.targetDomain run.filePath run.configuration with
  | .error exc => (.error (classifyFailure exc), false)
  | .ok input =>
    (match c.engine input with
      | .error exc => .error (classifyFailure exc)
      | .ok none => .error reasonEngineError
      | .ok (some result) => .ok result, true)

/-- The outcome that phase 3 is about to record on the locked task. -/
structure Verdict where
  status : ScanTaskStatus
  reason : Option String
  rows : Option (ScanResult × List Finding) := none

def verdict (c : RunModuleCall) (task : ScanTask) (outcome : Except String ModuleResult) : Verdict :=
  if task.cancellationRequestedAt.isSome then ⟨.canceled, some reasonTaskCanceled, none⟩
  else match outcome with
    | .error reason => ⟨.failed, some reason, none⟩
    | .ok result => ⟨.completed, none, some (persistResult task result c.finished c.uuid7)⟩

namespace Verdict

def writes (v : Verdict) (task : ScanTask) (now : Time) : List Write :=
  (match v.rows with
    | none => []
    | some rows => .insertResult rows.1 :: rows.2.map .insertFinding) ++
      [.taskTerminal task.id v.status v.reason now]

end Verdict

/-! ### Control states -/

/-- What a delivery does once its events are published. -/
inductive Next where
  | engine (c : RunModuleCall) (run : EngineRun)
  | finalize (f : FinalizeCall)
  | done

inductive Proc where
  | dispatch (c : DispatchCall)
  | dispatchTasks (c : DispatchCall) (job : ScanJob)
  | dispatchInsert (c : DispatchCall) (p : DispatchPlan)
  | dispatchBlock (c : DispatchCall) (p : DispatchPlan) (todo : List Uuid)
  | dispatchCommit (c : DispatchCall) (p : DispatchPlan)
  | runModule (c : RunModuleCall)
  | refuse (c : RunModuleCall) (task : ScanTask) (status : ScanTaskStatus) (reason : String)
  | readAsset (c : RunModuleCall) (task : ScanTask)
  | readUpload (c : RunModuleCall) (task : ScanTask) (targetDomain : Option String)
  | start (c : RunModuleCall) (task : ScanTask) (run : EngineRun)
  | engine (c : RunModuleCall) (run : EngineRun)
  | record (c : RunModuleCall) (run : EngineRun) (outcome : Except String ModuleResult)
  | persist (c : RunModuleCall) (run : EngineRun) (task : ScanTask) (v : Verdict)
  | finish (c : RunModuleCall) (run : EngineRun) (task : ScanTask) (v : Verdict)
  | reap (c : ReapCall)
  | reapLock (c : ReapCall) (todo : List Uuid) (live : List Uuid)
  | reapCommit (c : ReapCall) (live : List Uuid)
  | finalize (f : FinalizeCall)
  | count (f : FinalizeCall) (job : ScanJob)
  | close (f : FinalizeCall) (job : ScanJob) (outcome : ScanJobStatus × Option String)
  | cancel (c : CancelCall)
  | cancelCommit (c : CancelCall)
  | heartbeat (now : Time)
  | publish (messages : List Message) (next : Next)
  /-- The session ends without a write. -/
  | release
  | done

def Next.proc : Next → Proc
  | .engine c run => .engine c run
  | .finalize f => .finalize f
  | .done => .done

abbrev Step := Move Lock Write Proc Message

/-- The WHERE clause of `_reap_stuck_job`. -/
def isLiveOf (jobId : Uuid) (t : ScanTask) : Bool := t.scanJobId = jobId ∧ t.status.terminal = false

section Program

-- `instant + relativedelta(months=12)`
variable (plusTwelveMonths : Time → Time)

/-- The columns `finalize_job_if_done` sets; a purge deadline that stands is kept. -/
def closeJob (f : FinalizeCall) (job : ScanJob) (outcome : ScanJobStatus × Option String) : Write :=
  .jobClosed job.id outcome.1 outcome.2 f.now
    (some (job.purgeAt.getD (plusTwelveMonths f.now + Time.days 30)))

/-- The next statement of a delivery that is neither killed nor fails. -/
def go (d : Db) : Proc → Option Step
  | .dispatch c =>
    some { op := .lock [.job c.jobId],
           next := match d.jobs.find c.jobId with
             | none => .release
             | some job => if job.status.terminal then .release else .dispatchTasks c job }
  | .dispatchTasks c job =>
    some { op := .read,
           next := match planDispatch c job (d.tasksOf job.id) with
             | none => .release
             | some p => .dispatchInsert c p }
  | .dispatchInsert c p =>
    let ids := p.created.map ScanTask.id
    some { op := .lock (ids.map .taskKey),
           next := if ids.Nodup ∧ ∀ id ∈ ids, d.tasks.find id = none then .dispatchBlock c p p.vanished
             else .release }
  | .dispatchBlock c p [] => some { op := .read, next := .dispatchCommit c p }
  | .dispatchBlock c p (id :: todo) => some { op := .lock [.task id], next := .dispatchBlock c p todo }
  | .dispatchCommit c p =>
    some { op := .commit (p.writes c.now), next := .publish (p.messages c.now) (.finalize c.finalize) }
  | .runModule c =>
    some { op := .lock [.task c.taskId],
           next := match (d.tasks.find c.taskId).filter c.access.seesTask with
             | none => .release
             | some task =>
               if task.status ≠ .queued then .release
               else match refusal c task with
                 | some (status, reason) => .refuse c task status reason
                 | none => .readAsset c task }
  | .refuse c task status reason =>
    match markTaskTerminal task status (some reason) c.now with
    | .error _ => some { op := .rollback, next := .done }
    | .ok u =>
      some { op := .commit [u],
             next := .publish [.task task.scanJobId task.id status (some reason) c.now]
               (.finalize (c.finalize task.scanJobId)) }
  | .readAsset c task =>
    match task.targetAssetId with
    | none => some { op := .read, next := .readUpload c task task.targetDomain }
    | some id =>
      match c.access.getAsset d id with
      | .error _ => some { op := .rollback, next := .done }
      | .ok asset => some { op := .read, next := .readUpload c task (asset.map (·.value)) }
  | .readUpload c task targetDomain =>
    match task.fileUploadId with
    | none => some { op := .read, next := .start c task ⟨task.scanJobId, targetDomain, none, task.configuration⟩ }
    | some id =>
      match c.access.getUpload d id with
      | .error _ => some { op := .rollback, next := .done }
      | .ok upload =>
        some { op := .read,
               next := .start c task ⟨task.scanJobId, targetDomain, upload.bind (·.storageKey), task.configuration⟩ }
  | .start c task run =>
    match markTaskRunning task c.now with
    | .error _ => some { op := .rollback, next := .done }
    | .ok u =>
      some { op := .commit [u],
             next := .publish [.task task.scanJobId task.id .running none c.now] (.engine c run) }
  | .engine c run =>
    let (outcome, ran) := runEngine c run
    some { op := .read, next := .record c run outcome, emit := if ran then [.ran c.taskId] else [] }
  | .record c run outcome =>
    some { op := .lock [.task c.taskId],
           next := match (d.tasks.find c.taskId).filter c.access.seesTask with
             | none => .release
             | some task => if task.status.terminal then .release else .persist c run task (verdict c task outcome) }
  | .persist c run task v =>
    -- the flush inside `persist_result`: `scan_result.scan_task_id` is unique
    if v.rows.isSome ∧ (d.results.find task.id).isSome then some { op := .rollback, next := .done }
    else if v.rows.any fun rows => !c.postgres.acceptsResult rows.1 then some { op := .rollback, next := .done }
    else some { op := .read, next := .finish c run task v }
  | .finish c run task v =>
    match markTaskTerminal task v.status v.reason c.finished with
    | .error _ => some { op := .rollback, next := .done }
    | .ok _ =>
      -- the findings are flushed with the commit
      if v.rows.any fun rows => !c.postgres.acceptsFindings rows.2 then some { op := .rollback, next := .done }
      else
        some { op := .commit (v.writes task c.finished),
               next := .publish [.task run.jobId task.id v.status v.reason c.finished]
                 (.finalize (c.finalize run.jobId)) }
  | .reap c =>
    some { op := .read,
           next := .reapLock c ((d.tasks.rows.filter (isLiveOf c.jobId)).map ScanTask.id) [] }
  | .reapLock c [] live => some { op := .read, next := .reapCommit c live }
  | .reapLock c (id :: todo) live =>
    -- the row is locked, then the condition is checked again on what is committed by then
    some { op := .lock [.task id],
           next := .reapLock c todo
             (if (d.tasks.find id).any (isLiveOf c.jobId) then live ++ [id] else live) }
  | .reapCommit c live =>
    some { op := .commit (live.map fun id => .taskTerminal id .failed (some reasonJobTimeout) c.swept),
           next := .publish
             (live.flatMap fun id => [.revoke id, .task c.jobId id .failed (some reasonJobTimeout) c.swept])
             (.finalize (c.finalize live)) }
  | .finalize f =>
    some { op := .lock [.job f.jobId],
           next := match (d.jobs.find f.jobId).filter f.access.seesJob with
             | none => .release
             | some job => if job.status.terminal then .release else .count f job }
  | .count f job =>
    some { op := .read,
           next := match deriveJobOutcome (((d.tasksOf f.jobId).filter f.access.seesTask).map ScanTask.status)
               f.reasonOverride with
             | none => .release
             | some outcome => .close f job outcome }
  | .close f job outcome =>
    some { op := .commit [closeJob plusTwelveMonths f job outcome],
           next := .publish (publishJobEvent f.jobId outcome.1 outcome.2 f.now) .done }
  | .cancel c =>
    some { op := .lock [.task c.taskId],
           next := if (d.tasks.find c.taskId).isSome then .cancelCommit c else .release }
  | .cancelCommit c => some { op := .commit [.taskCancellation c.taskId c.requestedAt], next := .done }
  | .heartbeat now =>
    some { op := .read,
           next := .publish ((d.jobs.rows.filter fun j => j.status = .running).map fun j => .heartbeat j.id now)
             .done }
  | .publish [] next => some { op := .read, next := next.proc }
  | .publish (m :: messages) next => some { op := .read, next := .publish messages next, emit := [m] }
  | .release => some { op := .rollback, next := .done }
  | .done => none

/-- The states in which an exception ends the delivery: a transaction is open, and it has not committed. -/
def Proc.mayFail : Proc → Bool
  | .dispatch _ | .dispatchTasks .. | .dispatchInsert .. | .dispatchBlock .. | .dispatchCommit ..
  | .runModule _ | .refuse .. | .readAsset .. | .readUpload .. | .start .. | .record .. | .persist .. | .finish ..
  | .reap _ | .reapLock .. | .reapCommit .. | .cancel _ | .cancelCommit _ | .heartbeat _ => true
  | .engine .. | .finalize _ | .count .. | .close .. | .publish .. | .release | .done => false

def move (d : Db) (p : Proc) : Choice → Option Step
  | .go => go plusTwelveMonths d p
  | .fail => if p.mayFail then some { op := .rollback, next := .done } else none
  | .crash => some { op := .rollback, next := .done }

/-- The scan pipeline: any number of deliveries over one database. -/
def pipeline : System Lock Write Db Proc Choice Message where
  write := Db.write
  move := move plusTwelveMonths

end Program

end TestingPlatform.Scan
