import TestingPlatform.Lib.Fallible
import TestingPlatform.Modules.Values
import TestingPlatform.Scan.Models

/-!
# The decision core

`worker/orchestration.py`: the task matrix, the transitions of one row, and the outcome of a job from
the statuses of its tasks. Everything is a function of the rows it is given. A function that changes
columns of a loaded row returns the write its flush sends.
-/

namespace TestingPlatform.Scan

open Fallible

/-! ### Reasons -/

def reasonTaskTimeout := "task.timeout"
def reasonEngineError := "task.engine_error"
def reasonInvalidInput := "task.invalid_input"
def reasonModuleUnavailable := "task.module_unavailable"
def reasonMisrouted := "task.misrouted"
def reasonTaskCanceled := "task.canceled"
def reasonJobTimeout := "job.timeout"
def reasonJobCanceled := "job.canceled"
def reasonNoUsableResults := "job.no_usable_results"
def reasonTasksIncomplete := "job.tasks_incomplete"

def timeoutMarker := "overran its"

def unavailableTestVersion := "unknown"

def classifyFailure : PyException → String
  | .valueError _ => reasonInvalidInput
  | .runtimeError text => if Text.contains text timeoutMarker then reasonTaskTimeout else reasonEngineError
  | .other _ => reasonEngineError

/-! ### The task matrix -/

/-- One planned task; `queue` is `none` exactly when no installed module implements the test. -/
structure TaskSpec where
  testKey : String
  testVersion : String
  module : ScanModule
  classification : ScanClassification
  queue : Option String
  blockedReason : Option String
  deriving DecidableEq, Repr

/-- The spec of one catalog entry. -/
def planTask (roster : Roster) (entry : CatalogEntry) : Except ModuleRegistryError TaskSpec :=
  match roster.byTestKey entry.testKey with
  | .error _ => .ok {
      testKey := entry.testKey, testVersion := unavailableTestVersion, module := entry.module,
      classification := entry.classification, queue := none, blockedReason := some reasonModuleUnavailable }
  | .ok loaded =>
    match loaded.descriptor.tests.find? fun test => test.testKey == entry.testKey with
    | none => .error (.notDeclared loaded.entryPoint entry.testKey)
    | some declared => .ok {
        testKey := entry.testKey, testVersion := declared.testVersion, module := entry.module,
        classification := entry.classification, queue := some loaded.descriptor.queue, blockedReason := none }

/-- `plan_task_matrix`: catalog order within a module, launch order across modules. -/
def planTaskMatrix (modulesRequested : List ScanModule) (roster : Roster) :
    Except ModuleRegistryError (List TaskSpec) :=
  (modulesRequested.flatMap testsForModule).mapM (planTask roster)

/-- The row of one spec on `job`; `none` where `dict(...)` raises on the configuration. -/
def createTask (job : ScanJob) (now : Time) (spec : TaskSpec) (id : Uuid) : Option ScanTask :=
  (Json.getD job.moduleConfiguration spec.module.value (.obj [])).dict.map fun configuration =>
    let isFile := spec.module = .file
    let blocked := spec.blockedReason.isSome
    { id
      organizationId := job.organizationId
      scanJobId := job.id
      module := spec.module
      testKey := spec.testKey
      testVersion := spec.testVersion
      classification := spec.classification
      targetAssetId := if isFile then none else job.assetId
      targetDomain := if isFile then none else job.targetDomain
      fileUploadId := if isFile then job.fileUploadId else none
      configuration
      status := if blocked then .blocked else .queued
      statusReason := spec.blockedReason
      finishedAt := if blocked then some now else none }

/-- `create_tasks`, in spec order; `uuid7 n` is the `n`-th identifier drawn. -/
def createTasks (job : ScanJob) (specs : List TaskSpec) (now : Time) (uuid7 : Nat → Uuid) : Option (List ScanTask) :=
  specs.zipIdx.mapM fun p => createTask job now p.1 (uuid7 p.2)

theorem planTask_spec {roster : Roster} {entry : CatalogEntry} {spec : TaskSpec} (h : planTask roster entry = .ok spec) :
    spec.testKey = entry.testKey ∧ spec.module = entry.module ∧ spec.classification = entry.classification ∧
      (spec.blockedReason = none → ∃ queue, spec.queue = some queue ∧ roster.queueFor spec.testKey = .ok queue) := by
  unfold planTask at h
  split at h
  · cases h
    exact ⟨rfl, rfl, rfl, by simp⟩
  · next loaded hl =>
    split at h
    · cases h
    · cases h
      exact ⟨rfl, rfl, rfl, fun _ => ⟨_, rfl, by rw [Roster.queueFor, hl]; rfl⟩⟩

theorem planTask_of_loaded {roster : Roster} {entry : CatalogEntry} {spec : TaskSpec} {loaded : LoadedModule}
    (h : planTask roster entry = .ok spec) (hl : roster.byTestKey entry.testKey = .ok loaded) :
    spec.queue = some loaded.descriptor.queue ∧ spec.blockedReason = none := by
  unfold planTask at h
  rw [hl] at h
  dsimp only at h
  split at h
  · cases h
  · cases h
    exact ⟨rfl, rfl⟩

theorem exists_planTask (roster : Roster) (entry : CatalogEntry) : ∃ spec, planTask roster entry = .ok spec := by
  unfold planTask
  split
  · exact ⟨_, rfl⟩
  · next loaded hl =>
    split
    · next hnone =>
      -- the module was found by this test key
      have hfound : (loaded.descriptor.tests.any fun t => t.testKey == entry.testKey) = true := by
        unfold Roster.byTestKey at hl
        split at hl
        · next found hfind =>
          cases hl
          have hdeclares := List.find?_some hfind
          exact hdeclares
        · cases hl
      obtain ⟨t, ht, hkey⟩ := List.any_eq_true.1 hfound
      exact absurd hkey (List.find?_eq_none.1 hnone t ht)
    · exact ⟨_, rfl⟩

theorem exists_planTaskMatrix (modules : List ScanModule) (roster : Roster) :
    ∃ specs, planTaskMatrix modules roster = .ok specs := by
  unfold planTaskMatrix
  induction modules.flatMap testsForModule with
  | nil => exact ⟨[], rfl⟩
  | cons entry entries ih =>
    obtain ⟨specs, hs⟩ := ih
    obtain ⟨spec, hspec⟩ := exists_planTask roster entry
    exact ⟨spec :: specs, by rw [List.mapM_cons, hspec, hs]; rfl⟩

theorem createTask_spec {job : ScanJob} {now : Time} {spec : TaskSpec} {id : Uuid} {task : ScanTask}
    (h : createTask job now spec id = some task) :
    task.id = id ∧ task.scanJobId = job.id ∧ task.organizationId = job.organizationId ∧ task.testKey = spec.testKey ∧
      task.status = if spec.blockedReason.isSome then .blocked else .queued := by
  obtain ⟨configuration, -, rfl⟩ := Option.map_eq_some_iff.1 h
  exact ⟨rfl, rfl, rfl, rfl, rfl⟩

theorem createTasks_spec {job : ScanJob} {roster : Roster} {modules : List ScanModule} {specs : List TaskSpec}
    {now : Time} {uuid7 : Nat → Uuid} {tasks : List ScanTask} (hs : planTaskMatrix modules roster = .ok specs)
    (h : createTasks job specs now uuid7 = some tasks) {task : ScanTask} (ht : task ∈ tasks) :
    task.scanJobId = job.id ∧ task.organizationId = job.organizationId ∧
      (task.status = .queued ∨ task.status = .blocked) ∧
      (task.status = .queued → ∃ queue, roster.queueFor task.testKey = .ok queue) := by
  obtain ⟨⟨spec, n⟩, hmem, hc⟩ := exists_of_mem_mapM_some h ht
  obtain ⟨entry, -, hplan⟩ := exists_of_mem_mapM_ok hs (List.fst_mem_of_mem_zipIdx hmem)
  obtain ⟨-, hj, horg, hkey, hst⟩ := createTask_spec hc
  refine ⟨hj, horg, ?_, fun hq => ?_⟩
  · rw [hst]; split <;> simp
  · have hb : spec.blockedReason = none := by
      rw [hst] at hq
      split at hq
      · cases hq
      · next hn => simpa using hn
    obtain ⟨queue, -, hqueue⟩ := (planTask_spec hplan).2.2.2 hb
    exact ⟨queue, hkey ▸ hqueue⟩

/-- The requested modules, each with its tests of the catalog. -/
def requestedTests (modules : List ScanModule) : List (ScanModule × String) :=
  modules.flatMap fun m => (testsForModule m).map fun entry => (m, entry.testKey)

/-- A new matrix has one row for each requested module and test of the catalog, in plan order. -/
theorem createTasks_requestedTests {job : ScanJob} {roster : Roster} {modules : List ScanModule} {specs : List TaskSpec}
    {now : Time} {uuid7 : Nat → Uuid} {tasks : List ScanTask} (hs : planTaskMatrix modules roster = .ok specs)
    (h : createTasks job specs now uuid7 = some tasks) :
    (tasks.map fun t => (t.module, t.testKey)) = requestedTests modules := by
  have hrow : ∀ (p : TaskSpec × Nat) t, createTask job now p.1 (uuid7 p.2) = some t →
      (t.module, t.testKey) = (p.1.module, p.1.testKey) := by
    intro p t ht
    obtain ⟨configuration, -, rfl⟩ := Option.map_eq_some_iff.1 ht
    rfl
  have hspec : ∀ entry spec, planTask roster entry = .ok spec →
      (spec.module, spec.testKey) = (entry.module, entry.testKey) := by
    intro entry spec hplan
    obtain ⟨hkey, hmodule, -⟩ := planTask_spec hplan
    rw [hkey, hmodule]
  have htasks : (tasks.map fun t => (t.module, t.testKey)) = specs.map fun s => (s.module, s.testKey) := by
    rw [map_of_mapM_some h hrow]
    conv_rhs => rw [← List.zipIdx_map_fst 0 specs]
    rw [List.map_map]
    rfl
  rw [htasks, map_of_mapM_ok hs hspec, requestedTests, List.map_flatMap]
  refine List.flatMap_congr fun m _ => List.map_congr_left fun entry he => ?_
  have hm : entry.module = m := by simpa [testsForModule] using (List.mem_filter.1 he).2
  rw [hm]

/-! ### Transitions of one row -/

/-- The refusals of `mark_task_running` and `mark_task_terminal`, each a `ValueError`. -/
inductive TransitionError where
  | notQueued (task : Uuid) (status : ScanTaskStatus)
  | notTerminal (status : ScanTaskStatus)
  /-- `blocked_says_why`. -/
  | blockedWithoutReason
  | alreadyTerminal (task : Uuid) (status : ScanTaskStatus)
  deriving DecidableEq, Repr

/-- `mark_job_running`: a job past `queued` keeps its `started_at`. -/
def markJobRunning (job : ScanJob) (now : Time) : List Write :=
  if job.status = .queued then [.jobRunning job.id now] else []

def markTaskRunning (task : ScanTask) (now : Time) : Except TransitionError Write :=
  if task.status = .queued then .ok (.taskRunning task.id now) else .error (.notQueued task.id task.status)

def markTaskTerminal (task : ScanTask) (status : ScanTaskStatus) (reason : Option String) (now : Time) :
    Except TransitionError Write :=
  if status.terminal = false then .error (.notTerminal status)
  else if status = .blocked ∧ reason = none then .error .blockedWithoutReason
  else if task.status.terminal then .error (.alreadyTerminal task.id task.status)
  else .ok (.taskTerminal task.id status reason now)

/-- The three guards of `mark_task_terminal` are exact. -/
theorem markTaskTerminal_eq_ok {task : ScanTask} {status : ScanTaskStatus} {reason : Option String} {now : Time}
    {u : Write} :
    markTaskTerminal task status reason now = .ok u ↔
      status.terminal = true ∧ ¬ (status = .blocked ∧ reason = none) ∧ task.status.terminal = false ∧
        u = .taskTerminal task.id status reason now := by
  unfold markTaskTerminal
  split_ifs with h₁ h₂ h₃
  · simp [h₁]
  · simp [h₂]
  · simp [h₃]
  · simp only [Except.ok.injEq, h₂, Bool.eq_true_of_not_eq_false h₁, Bool.eq_false_of_not_eq_true h₃,
      not_false_eq_true, true_and]
    exact eq_comm

theorem markTaskRunning_eq_ok {task : ScanTask} {now : Time} {u : Write} :
    markTaskRunning task now = .ok u ↔ task.status = .queued ∧ u = .taskRunning task.id now := by
  unfold markTaskRunning
  split_ifs with h
  · simp only [Except.ok.injEq, h, true_and]
    exact eq_comm
  · simp [h]

def deriveFindingStatus : FindingStatus := .new

/-- `persist_result`: the result row and its findings, whose identifiers are drawn in that order. -/
def persistResult (task : ScanTask) (result : ModuleResult) (completedAt : Time) (uuid7 : Nat → Uuid) :
    ScanResult × List Finding :=
  ({ scanResultRow result task.id completedAt task.organizationId with id := uuid7 0 },
    (findingRows result (uuid7 0) task.organizationId).zipIdx.map fun p =>
      { p.1 with id := uuid7 (p.2 + 1), status := deriveFindingStatus })

theorem persistResult_owner (task : ScanTask) (result : ModuleResult) (completedAt : Time) (uuid7 : Nat → Uuid) :
    let rows := persistResult task result completedAt uuid7
    rows.1.scanTaskId = task.id ∧ rows.1.organizationId = task.organizationId ∧
      ∀ f ∈ rows.2, f.scanResultId = rows.1.id ∧ f.organizationId = task.organizationId := by
  refine ⟨rfl, rfl, fun f hf => ?_⟩
  obtain ⟨⟨row, n⟩, hp, rfl⟩ := List.mem_map.1 hf
  exact owner_of_mem_findingRows (List.fst_mem_of_mem_zipIdx hp)

/-- What the database says to the rows of a result. It may refuse them for reasons of its own (a row too large for
an index, a text it cannot decode, a connection that is gone); a U+0000 and a token that is no JSON it never takes. -/
structure Postgres where
  acceptsResult : ScanResult → Bool
  /-- The findings of one result go out in one flush. -/
  acceptsFindings : List Finding → Bool
  refuses_result : ∀ r, r.unstorable = true → acceptsResult r = false
  refuses_findings : ∀ fs, (∃ f ∈ fs, f.unstorable = true) → acceptsFindings fs = false

namespace Postgres

/-- The database accepts all rows of a result. -/
def Accepts (p : Postgres) (rows : ScanResult × List Finding) : Prop :=
  p.acceptsResult rows.1 = true ∧ p.acceptsFindings rows.2 = true

/-- A database that refuses nothing else. -/
def plain : Postgres where
  acceptsResult r := !r.unstorable
  acceptsFindings fs := !fs.any fun f => f.unstorable
  refuses_result r h := by rw [h]; rfl
  refuses_findings fs h := by rw [List.any_eq_true.2 h]; rfl

theorem refuses (p : Postgres) {result : ModuleResult} (h : result.unstorable = true) (task : ScanTask)
    (completedAt : Time) (uuid7 : Nat → Uuid) : ¬ p.Accepts (persistResult task result completedAt uuid7) := by
  rintro ⟨hresult, hfindings⟩
  have hcolumns : (persistResult task result completedAt uuid7).1.toScanResultRow =
      scanResultRow result task.id completedAt task.organizationId := rfl
  rcases rows_unstorable h task.id (uuid7 0) completedAt task.organizationId with hbad | ⟨row, hrow, hbad⟩
  · rw [← hcolumns] at hbad
    rw [p.refuses_result _ hbad] at hresult
    cases hresult
  · rw [← List.zipIdx_map_fst 0 (findingRows result (uuid7 0) task.organizationId)] at hrow
    obtain ⟨q, hq, rfl⟩ := List.mem_map.1 hrow
    have hrefused := p.refuses_findings (persistResult task result completedAt uuid7).2 ⟨_, List.mem_map_of_mem hq, hbad⟩
    rw [hrefused] at hfindings
    cases hfindings

end Postgres

/-! ### The outcome of a job -/

/-- `reason_override or reason`. -/
def overrideOr (override : Option String) (reason : String) : Option String :=
  match override with
  | none | some "" => some reason
  | some text => some text

/-- `derive_job_outcome`: the terminal state of a job, or `none` while a task runs or none exists. -/
def deriveJobOutcome (statuses : List ScanTaskStatus) (reasonOverride : Option String) :
    Option (ScanJobStatus × Option String) :=
  if statuses = [] ∨ (statuses.any fun s => !s.terminal) then none
  else
    let completed := statuses.countP (· = .completed)
    if completed = statuses.length then some (.completed, reasonOverride)
    else if completed ≠ 0 then some (.partial_, overrideOr reasonOverride reasonTasksIncomplete)
    else if .canceled ∈ statuses then some (.canceled, overrideOr reasonOverride reasonJobCanceled)
    else some (.failed, overrideOr reasonOverride reasonNoUsableResults)

/-- A job has an outcome exactly when it has a task and every task is terminal. -/
theorem deriveJobOutcome_isSome {statuses : List ScanTaskStatus} {override : Option String} :
    (deriveJobOutcome statuses override).isSome ↔ statuses ≠ [] ∧ ∀ s ∈ statuses, s.terminal = true := by
  unfold deriveJobOutcome
  split
  · next h =>
    simp only [Option.isSome_none, Bool.false_eq_true, false_iff]
    rintro ⟨hne, hall⟩
    rcases h with h | h
    · exact hne h
    · obtain ⟨s, hs, ht⟩ := List.any_eq_true.1 h
      simp [hall s hs] at ht
  · next h =>
    obtain ⟨hne, hany⟩ := not_or.1 h
    refine iff_of_true ?_ ⟨hne, fun s hs => ?_⟩
    · dsimp only
      split_ifs <;> rfl
    · simpa using fun ht : s.terminal = false => hany (List.any_eq_true.2 ⟨s, hs, by simp [ht]⟩)

theorem deriveJobOutcome_terminal {statuses : List ScanTaskStatus} {override : Option String}
    {outcome : ScanJobStatus × Option String} (h : deriveJobOutcome statuses override = some outcome) :
    outcome.1.terminal = true := by
  unfold deriveJobOutcome at h
  split at h
  · cases h
  · dsimp only at h
    split_ifs at h <;> cases h <;> rfl

theorem deriveJobOutcome_status (statuses : List ScanTaskStatus) (override override' : Option String) :
    (deriveJobOutcome statuses override).map (·.1) = (deriveJobOutcome statuses override').map (·.1) := by
  unfold deriveJobOutcome
  split
  · rfl
  · dsimp only
    split_ifs <;> rfl

/-- The outcome depends on which statuses occur, not on their order or number. -/
theorem deriveJobOutcome_congr {ss ss' : List ScanTaskStatus} (h : ∀ s, s ∈ ss ↔ s ∈ ss') (override : Option String) :
    deriveJobOutcome ss override = deriveJobOutcome ss' override := by
  have hnil : ss = [] ↔ ss' = [] := by simp [List.eq_nil_iff_forall_not_mem, h]
  have hany : (ss.any fun s => !s.terminal) = (ss'.any fun s => !s.terminal) := by
    rw [Bool.eq_iff_iff]
    simp [List.any_eq_true, h]
  have hall : ss.countP (· = .completed) = ss.length ↔ ss'.countP (· = .completed) = ss'.length := by
    simp [List.countP_eq_length, h]
  have hsome : ss.countP (· = .completed) ≠ 0 ↔ ss'.countP (· = .completed) ≠ 0 := by
    simp [List.countP_eq_zero, h]
  unfold deriveJobOutcome
  simp only [hnil, hany, hall, hsome, h .canceled]

end TestingPlatform.Scan
