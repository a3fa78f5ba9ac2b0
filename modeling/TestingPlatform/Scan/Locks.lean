import TestingPlatform.Scan.Lifecycle
import TestingPlatform.Scan.Tasks

/-!
# What the row locks give

`Proc.Holds` is the assertion of a delivery at each of its statements: which rows it has locked, and
that its copy of a locked row is the committed one. The one thing it cannot say is that a task
`dispatch` is about to block as vanished is still open: `dispatch` reads the tasks without a lock and
takes the row locks only when it flushes.

The assertion survives what other deliveries do (`Proc.Holds.stable`), because they write locked rows of
their own only, and every statement of a delivery that meets it is an `Effect` of the state diagram.
-/

namespace TestingPlatform.Scan

open ReadCommitted

/-- The process has a module for the test. -/
def knows (roster : Option Roster) (testKey : String) : Prop := ∃ queue, queueFor roster testKey = .ok queue

/-- The roster of the process is `roster`, if the delivery asks for it. -/
def Proc.Uses (roster : Option Roster) : Proc → Prop
  | .dispatch c | .dispatchTasks c _ | .dispatchInsert c _ | .dispatchBlock c _ _ | .dispatchCommit c _ =>
    c.roster = roster
  | .runModule c | .refuse c _ _ _ | .readAsset c _ | .readUpload c _ _ | .start c _ _ | .engine c _
  | .record c _ _ | .persist c _ _ _ | .finish c _ _ _ | .publish _ (.engine c _) => c.roster = roster
  | _ => True

theorem Proc.exists_uses (p : Proc) : ∃ roster, p.Uses roster := by
  cases p with
  | publish _ next => cases next <;> simp [Uses]
  | _ => simp [Uses]

def Proc.dispatching : Proc → Option Uuid
  | .dispatchCommit _ p => some p.job.id
  | _ => none

/-- The tasks the next commit blocks as vanished. -/
def Proc.vanishing : Proc → List Uuid
  | .dispatchCommit _ p => p.vanished
  | _ => []

/-- The job whose tasks the next commit makes terminal or creates. -/
def Proc.closing : Proc → Option Uuid
  | .dispatchCommit _ p => some p.job.id
  | .refuse _ task _ _ => some task.scanJobId
  | .finish _ run _ _ => some run.jobId
  | .reapCommit c _ => some c.jobId
  | _ => none

def Proc.act (roster : Option Roster) (p : Proc) : Act := ⟨knows roster, p.dispatching, p.vanishing, p.closing⟩

/-! ### Assertions -/

section Assertions
variable (held : Lock → Prop) (d : Db)

/-- The delivery has the open job locked, and its copy is the committed row. -/
structure JobHeld (job : ScanJob) : Prop where
  lock : held (.job job.id)
  row : d.jobs.find job.id = some job
  live : job.status.terminal = false

/-- The delivery has the task locked, and its copy is the committed row. -/
structure TaskHeld (task : ScanTask) : Prop where
  lock : held (.task task.id)
  row : d.tasks.find task.id = some task

structure PlanHeld (c : DispatchCall) (p : DispatchPlan) : Prop where
  job : JobHeld held d p.job
  job_id : p.job.id = c.jobId
  created_of : ∀ t ∈ p.created, t.scanJobId = p.job.id ∧ t.organizationId = p.job.organizationId ∧
    (t.status = .queued ∨ t.status = .blocked)
  /-- A matrix is created once, and then nothing has vanished from it. -/
  first : p.created = [] ∨ (p.vanished = [] ∧ d.tasksOf p.job.id = [])
  vanished_of : ∀ id ∈ p.vanished, ∃ t, d.tasks.find id = some t ∧ t.scanJobId = p.job.id ∧ ¬ knows c.roster t.testKey

/-- Phase 1: the locked task is queued and visible. -/
structure Claimed (c : RunModuleCall) (task : ScanTask) : Prop extends TaskHeld held d task where
  id_eq : task.id = c.taskId
  queued : task.status = .queued
  sees : c.access.seesTask task = true

/-- Phase 2: the task has left the queue. -/
def Begun (c : RunModuleCall) (run : EngineRun) : Prop :=
  ∃ t, d.tasks.find c.taskId = some t ∧ t.scanJobId = run.jobId ∧ t.status ≠ .queued

/-- Phase 3: the locked task runs and is visible, and the verdict is about the locked row. -/
structure Recording (c : RunModuleCall) (run : EngineRun) (task : ScanTask) (v : Verdict) : Prop
    extends TaskHeld held d task where
  id_eq : task.id = c.taskId
  running : task.status = .running
  job_id : task.scanJobId = run.jobId
  sees : c.access.seesTask task = true
  verdict : ∃ outcome, v = verdict c task outcome

/-- The rows `_reap_stuck_job` has locked are open tasks of the job. -/
def LiveHeld (c : ReapCall) (live : List Uuid) : Prop :=
  ∀ id ∈ live, held (.task id) ∧ ∃ t, d.tasks.find id = some t ∧ isLiveOf c.jobId t = true

/-- What a delivery knows before its next statement. -/
def Proc.Holds : Proc → Prop
  | .dispatchTasks c job => JobHeld held d job ∧ job.id = c.jobId
  | .dispatchInsert c p => PlanHeld held d c p
  | .dispatchBlock c p todo => PlanHeld held d c p ∧
      (∀ t ∈ p.created, held (.taskKey t.id) ∧ d.tasks.find t.id = none) ∧
      ∀ id ∈ p.vanished, id ∈ todo ∨ held (.task id)
  | .dispatchCommit c p => PlanHeld held d c p ∧
      (∀ t ∈ p.created, held (.taskKey t.id) ∧ d.tasks.find t.id = none) ∧ ∀ id ∈ p.vanished, held (.task id)
  | .refuse c task status reason => Claimed held d c task ∧ refusal c task = some (status, reason)
  | .readAsset c task | .readUpload c task _ => Claimed held d c task ∧ refusal c task = none
  | .start c task run => Claimed held d c task ∧ refusal c task = none ∧ task.scanJobId = run.jobId
  | .publish _ (.engine c run) | .engine c run | .record c run _ => Begun d c run
  | .persist c run task v => Recording held d c run task v
  | .finish c run task v => Recording held d c run task v ∧ (v.rows.isSome → d.results.find task.id = none)
  | .reapLock c _ live | .reapCommit c live => LiveHeld held d c live
  | .count f job => JobHeld held d job ∧ job.id = f.jobId
  | .close f job outcome => JobHeld held d job ∧ job.id = f.jobId ∧ outcome.1.terminal = true
  | .cancelCommit c => held (.task c.taskId)
  | _ => True

end Assertions

/-! ### Locked rows -/

/-- A locked row keeps its columns; a locked task also keeps its result, and a locked job its tasks. -/
def Lock.agree : Lock → Db → Db → Prop
  | .job id, d, d' => d'.jobs.find id = d.jobs.find id ∧ ∀ t' ∈ d'.tasksOf id, ∃ t ∈ d.tasksOf id, t.id = t'.id
  | .task id, d, d' =>
    (∀ t, d.tasks.find id = some t → d'.tasks.find id = some t) ∧ d'.results.find id = d.results.find id
  | .taskKey id, d, d' => d.tasks.find id = none → d'.tasks.find id = none

/-- The rows a write needs locked. -/
def Write.touches (u : Write) : Lock → Prop
  | .job id => u.jobId = some id ∨ ∃ t, u = .insertTask t ∧ t.scanJobId = id
  | .task id => u.taskId = some id ∨ ∃ r, u = .insertResult r ∧ r.scanTaskId = id
  | .taskKey id => ∃ t, u = .insertTask t ∧ t.id = id

theorem agree_write {u : Write} {k : Lock} (d : Db) (h : ¬ u.touches k) : k.agree d (d.write u) := by
  cases k with
  | job id =>
    simp only [Write.touches, not_or, not_exists, not_and] at h
    refine ⟨?_, fun t' ht' => ?_⟩
    · cases hd : d.jobs.find id with
      | none => exact Db.find_job_write_none hd
      | some j => rw [Db.find_job_write hd, if_neg h.1]
    · rw [Db.mem_tasksOf] at ht'
      have hf := (d.write u).tasks.find_of_mem ht'.1
      cases hd : d.tasks.find t'.id with
      | some t =>
        have he := Db.find_task_write (u := u) hd
        rw [hf, Option.some.injEq] at he
        refine ⟨t, Db.mem_tasksOf.2 ⟨Table.mem_of_find hd, ?_⟩, Table.key_of_find hd⟩
        rw [← ht'.2, he]
        split <;> simp [Write.onTask_scanJobId]
      | none =>
        cases u with
        | insertTask t =>
          have hf' : ([Write.insertTask t].foldl Db.write d).tasks.find t'.id = some t' := hf
          have hmem := Db.inserted_of_find_task_foldl (by simp [Write.taskId]) hd hf'
          simp only [List.mem_singleton, Write.insertTask.injEq] at hmem
          exact absurd (hmem ▸ ht'.2) (h.2 t rfl)
        | _ =>
          rw [Db.find_task_write_none (by simp) hd] at hf
          cases hf
  | task id =>
    simp only [Write.touches, not_or, not_exists, not_and] at h
    refine ⟨fun t ht => by rw [Db.find_task_write ht, if_neg h.1], ?_⟩
    cases u with
    | insertResult r => exact Table.find_insert_of_ne (h.2 r rfl)
    | _ => rfl
  | taskKey id =>
    intro hd
    simp only [Write.touches, not_exists, not_and] at h
    cases u with
    | insertTask t => exact (Table.find_insert_of_ne (h t rfl)).trans hd
    | _ => exact Db.find_task_write_none (by simp) hd

section Program
variable {plus : Time → Time}

def rows (plus : Time → Time) : (pipeline plus).Rows where
  agree := Lock.agree
  agree_refl k d := by
    cases k with
    | job => exact ⟨rfl, fun t ht => ⟨t, ht, rfl⟩⟩
    | task => exact ⟨fun _ h => h, rfl⟩
    | taskKey => exact id
  agree_trans {k} := by
    cases k with
    | job =>
      refine fun h h' => ⟨h'.1.trans h.1, fun t ht => ?_⟩
      obtain ⟨t', ht', he'⟩ := h'.2 t ht
      obtain ⟨t'', ht'', he''⟩ := h.2 t' ht'
      exact ⟨t'', ht'', he''.trans he'⟩
    | task => exact fun h h' => ⟨fun t ht => h'.1 t (h.1 t ht), h'.2.trans h.2⟩
    | taskKey => exact fun h h' hd => h' (h hd)
  touches := Write.touches
  frame := agree_write

/-! ### Stability -/

variable {held held' : Lock → Prop} {d d' : Db} {a : Act}

section Stable
variable (hheld : ∀ k, held k → held' k) (hagree : ∀ k, held k → k.agree d d')

include hheld hagree

theorem JobHeld.stable {job : ScanJob} (h : JobHeld held d job) : JobHeld held' d' job :=
  ⟨hheld _ h.lock, (hagree _ h.lock).1.trans h.row, h.live⟩

theorem TaskHeld.stable {task : ScanTask} (h : TaskHeld held d task) : TaskHeld held' d' task :=
  ⟨hheld _ h.lock, (hagree _ h.lock).1 _ h.row⟩

theorem Claimed.stable {c : RunModuleCall} {task : ScanTask} (h : Claimed held d c task) : Claimed held' d' c task :=
  ⟨h.toTaskHeld.stable hheld hagree, h.id_eq, h.queued, h.sees⟩

theorem Recording.stable {c : RunModuleCall} {run : EngineRun} {task : ScanTask} {v : Verdict}
    (h : Recording held d c run task v) : Recording held' d' c run task v :=
  ⟨h.toTaskHeld.stable hheld hagree, h.id_eq, h.running, h.job_id, h.sees, h.verdict⟩

theorem LiveHeld.stable {c : ReapCall} {live : List Uuid} (h : LiveHeld held d c live) : LiveHeld held' d' c live :=
  fun id hid => by
    obtain ⟨hk, t, ht, hlive⟩ := h id hid
    exact ⟨hheld _ hk, t, (hagree _ hk).1 t ht, hlive⟩

variable (he : Effect a d d')

include he

theorem PlanHeld.stable {c : DispatchCall} {p : DispatchPlan} (h : PlanHeld held d c p) : PlanHeld held' d' c p where
  job := h.job.stable hheld hagree
  job_id := h.job_id
  created_of := h.created_of
  first := by
    refine h.first.imp_right fun ⟨hv, hn⟩ => ⟨hv, List.eq_nil_iff_forall_not_mem.2 fun t' ht' => ?_⟩
    obtain ⟨t, ht, -⟩ := (hagree _ h.job.lock).2 t' ht'
    simp [hn] at ht
  vanished_of id hid := by
    obtain ⟨t, ht, hj, hk⟩ := h.vanished_of id hid
    obtain ⟨t', ht', hc⟩ := he.task ht
    exact ⟨t', ht', hc.scanJobId_eq.trans hj, hc.testKey_eq ▸ hk⟩

omit hheld hagree in
theorem Begun.stable {c : RunModuleCall} {run : EngineRun} (h : Begun d c run) : Begun d' c run := by
  obtain ⟨t, ht, hj, hq⟩ := h
  obtain ⟨t', ht', hc⟩ := he.task ht
  exact ⟨t', ht', hc.scanJobId_eq.trans hj, hc.not_queued hq⟩

theorem Proc.Holds.stable {p : Proc} (h : p.Holds held d) : p.Holds held' d' := by
  cases p with
  | dispatchTasks | count | close => exact ⟨h.1.stable hheld hagree, h.2⟩
  | dispatchInsert => exact PlanHeld.stable hheld hagree he h
  | dispatchBlock =>
    refine ⟨h.1.stable hheld hagree he, fun t ht => ?_, fun id hid => (h.2.2 id hid).imp_right (hheld _)⟩
    exact ⟨hheld _ (h.2.1 t ht).1, hagree _ (h.2.1 t ht).1 (h.2.1 t ht).2⟩
  | dispatchCommit =>
    refine ⟨h.1.stable hheld hagree he, fun t ht => ?_, fun id hid => hheld _ (h.2.2 id hid)⟩
    exact ⟨hheld _ (h.2.1 t ht).1, hagree _ (h.2.1 t ht).1 (h.2.1 t ht).2⟩
  | refuse | readAsset | readUpload | start => exact ⟨h.1.stable hheld hagree, h.2⟩
  | engine | record => exact Begun.stable he h
  | persist => exact Recording.stable hheld hagree h
  | finish => exact ⟨h.1.stable hheld hagree, fun hr => (hagree _ h.1.lock).2.trans (h.2 hr)⟩
  | reapLock | reapCommit => exact LiveHeld.stable hheld hagree h
  | cancelCommit => exact hheld _ h
  | publish _ next =>
    cases next with
    | engine => exact Begun.stable he h
    | finalize | done => trivial
  | _ => trivial

end Stable

end Program

end TestingPlatform.Scan
