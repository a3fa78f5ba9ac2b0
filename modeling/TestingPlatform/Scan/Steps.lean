import TestingPlatform.Scan.Locks

/-!
# What one statement leads to

`Commits` lists the commits of the program once; everything about writes starts from it. `Leads` lists all statements of
a delivery with what they have found out when they go on. What a delivery keeps from one statement to the next is proved
by cases on these two.
-/

namespace TestingPlatform.Scan

open ReadCommitted

variable {plus : Time → Time}

/-- What a delivery commits, and where it goes on. -/
inductive Commits (plus : Time → Time) : Proc → List Write → Proc → Prop where
  | dispatch (c : DispatchCall) (p : DispatchPlan) :
      Commits plus (.dispatchCommit c p) (p.writes c.now) (.publish (p.messages c.now) (.finalize c.finalize))
  | refuse (c : RunModuleCall) (task : ScanTask) (status : ScanTaskStatus) (reason : String) :
      Commits plus (.refuse c task status reason) [.taskTerminal task.id status (some reason) c.now]
        (.publish [.task task.scanJobId task.id status (some reason) c.now] (.finalize (c.finalize task.scanJobId)))
  | start (c : RunModuleCall) (task : ScanTask) (run : EngineRun) :
      Commits plus (.start c task run) [.taskRunning task.id c.now]
        (.publish [.task task.scanJobId task.id .running none c.now] (.engine c run))
  | finish (c : RunModuleCall) (run : EngineRun) (task : ScanTask) (v : Verdict) :
      Commits plus (.finish c run task v) (v.writes task c.finished)
        (.publish [.task run.jobId task.id v.status v.reason c.finished] (.finalize (c.finalize run.jobId)))
  | reap (c : ReapCall) (live : List Uuid) :
      Commits plus (.reapCommit c live)
        (live.map fun id => .taskTerminal id .failed (some reasonJobTimeout) c.swept)
        (.publish (live.flatMap fun id => [.revoke id, .task c.jobId id .failed (some reasonJobTimeout) c.swept])
          (.finalize (c.finalize live)))
  | close (f : FinalizeCall) (job : ScanJob) (outcome : ScanJobStatus × Option String) :
      Commits plus (.close f job outcome) [closeJob plus f job outcome]
        (.publish (publishJobEvent f.jobId outcome.1 outcome.2 f.now) .done)
  | cancel (c : CancelCall) : Commits plus (.cancelCommit c) [.taskCancellation c.taskId c.requestedAt] .done

/-- The messages a delivery has committed to send. -/
def Proc.outbox : Proc → List Message
  | .publish messages _ => messages
  | _ => []

/-- What one statement of a delivery leads to. -/
inductive Leads (plus : Time → Time) (d : Db) : Proc → Step → Prop
  /-- An exception, or nothing to go on with. -/
  | ends {p q : Proc} {op : Op Lock Write} (hp : p.outbox = []) (hop : ∀ ws, op ≠ .commit ws) (hq : q = .release ∨ q = .done) :
      Leads plus d p { op, next := q }
  | commits {p q : Proc} {ws : List Write} (hp : p.outbox = []) (hcommits : Commits plus p ws q) :
      Leads plus d p { op := .commit ws, next := q }
  | sends {x : Message} {messages : List Message} {next : Next} :
      Leads plus d (.publish (x :: messages) next) { op := .read, next := .publish messages next, emit := [x] }
  | sent {next : Next} : Leads plus d (.publish [] next) { op := .read, next := next.proc }
  | beats {now : Time} : Leads plus d (.heartbeat now)
      { op := .read, next := .publish ((d.jobs.rows.filter fun j => j.status = .running).map fun j => .heartbeat j.id now) .done }
  | locked {c : DispatchCall} {job : ScanJob} (hrow : d.jobs.find c.jobId = some job) (hopen : job.status.terminal = false) :
      Leads plus d (.dispatch c) { op := .lock [.job c.jobId], next := .dispatchTasks c job }
  | planned {c : DispatchCall} {job : ScanJob} {pl : DispatchPlan} (hplan : planDispatch c job (d.tasksOf job.id) = some pl) :
      Leads plus d (.dispatchTasks c job) { op := .read, next := .dispatchInsert c pl }
  | inserted {c : DispatchCall} {pl : DispatchPlan} (hnodup : (pl.created.map ScanTask.id).Nodup)
      (hnew : ∀ id ∈ pl.created.map ScanTask.id, d.tasks.find id = none) :
      Leads plus d (.dispatchInsert c pl)
        { op := .lock ((pl.created.map ScanTask.id).map .taskKey), next := .dispatchBlock c pl pl.vanished }
  | blocks {c : DispatchCall} {pl : DispatchPlan} {id : Uuid} {todo : List Uuid} :
      Leads plus d (.dispatchBlock c pl (id :: todo)) { op := .lock [.task id], next := .dispatchBlock c pl todo }
  | blocked {c : DispatchCall} {pl : DispatchPlan} : Leads plus d (.dispatchBlock c pl []) { op := .read, next := .dispatchCommit c pl }
  | refuses {c : RunModuleCall} {task : ScanTask} {status : ScanTaskStatus} {reason : String}
      (htask : (d.tasks.find c.taskId).filter c.access.seesTask = some task) (hqueued : task.status = .queued)
      (hrefusal : refusal c task = some (status, reason)) :
      Leads plus d (.runModule c) { op := .lock [.task c.taskId], next := .refuse c task status reason }
  | takes {c : RunModuleCall} {task : ScanTask} (htask : (d.tasks.find c.taskId).filter c.access.seesTask = some task)
      (hqueued : task.status = .queued) (hrefusal : refusal c task = none) :
      Leads plus d (.runModule c) { op := .lock [.task c.taskId], next := .readAsset c task }
  | readsAsset {c : RunModuleCall} {task : ScanTask} {targetDomain : Option String} :
      Leads plus d (.readAsset c task) { op := .read, next := .readUpload c task targetDomain }
  | readsUpload {c : RunModuleCall} {task : ScanTask} {targetDomain filePath : Option String} :
      Leads plus d (.readUpload c task targetDomain)
        { op := .read, next := .start c task ⟨task.scanJobId, targetDomain, filePath, task.configuration⟩ }
  | ran {c : RunModuleCall} {run : EngineRun} :
      Leads plus d (.engine c run)
        { op := .read, next := .record c run (runEngine c run).1, emit := if (runEngine c run).2 then [.ran c.taskId] else [] }
  | records {c : RunModuleCall} {run : EngineRun} {outcome : Except String ModuleResult} {task : ScanTask}
      (htask : (d.tasks.find c.taskId).filter c.access.seesTask = some task) (hopen : task.status.terminal = false) :
      Leads plus d (.record c run outcome) { op := .lock [.task c.taskId], next := .persist c run task (verdict c task outcome) }
  | persists {c : RunModuleCall} {run : EngineRun} {task : ScanTask} {v : Verdict}
      (hnew : ¬ (v.rows.isSome ∧ (d.results.find task.id).isSome)) :
      Leads plus d (.persist c run task v) { op := .read, next := .finish c run task v }
  | lists {c : ReapCall} :
      Leads plus d (.reap c) { op := .read, next := .reapLock c ((d.tasks.rows.filter (isLiveOf c.jobId)).map ScanTask.id) [] }
  | rechecks {c : ReapCall} {id : Uuid} {todo live : List Uuid} :
      Leads plus d (.reapLock c (id :: todo) live)
        { op := .lock [.task id], next := .reapLock c todo (if (d.tasks.find id).any (isLiveOf c.jobId) then live ++ [id] else live) }
  | rechecked {c : ReapCall} {live : List Uuid} : Leads plus d (.reapLock c [] live) { op := .read, next := .reapCommit c live }
  | counts {f : FinalizeCall} {job : ScanJob} (hjob : (d.jobs.find f.jobId).filter f.access.seesJob = some job)
      (hopen : job.status.terminal = false) : Leads plus d (.finalize f) { op := .lock [.job f.jobId], next := .count f job }
  | counted {f : FinalizeCall} {job : ScanJob} {outcome : ScanJobStatus × Option String}
      (houtcome : deriveJobOutcome (((d.tasksOf f.jobId).filter f.access.seesTask).map ScanTask.status) f.reasonOverride = some outcome) :
      Leads plus d (.count f job) { op := .read, next := .close f job outcome }
  | cancels {c : CancelCall} : Leads plus d (.cancel c) { op := .lock [.task c.taskId], next := .cancelCommit c }

theorem go_leads {d : Db} {p : Proc} {m : Step} (h : go plus d p = some m) : Leads plus d p m := by
  cases p with
  | dispatch c =>
    cases h
    split
    · exact .ends rfl (by simp) (.inl rfl)
    next job hrow =>
      split
      · exact .ends rfl (by simp) (.inl rfl)
      next hopen => exact .locked hrow (by simpa using hopen)
  | dispatchTasks c job =>
    cases h
    split
    · exact .ends rfl (by simp) (.inl rfl)
    next hplan => exact .planned hplan
  | dispatchInsert c pl =>
    cases h
    split
    next hnew => exact .inserted hnew.1 hnew.2
    · exact .ends rfl (by simp) (.inl rfl)
  | dispatchBlock c pl todo =>
    cases todo <;> cases h
    · exact .blocked
    · exact .blocks
  | runModule c =>
    cases h
    split
    · exact .ends rfl (by simp) (.inl rfl)
    next task htask =>
      split
      · exact .ends rfl (by simp) (.inl rfl)
      next hqueued =>
        split
        next hrefusal => exact .refuses htask (by simpa using hqueued) hrefusal
        next hrefusal => exact .takes htask (by simpa using hqueued) hrefusal
  | refuse c task status reason =>
    simp only [go] at h
    split at h <;> cases h
    · exact .ends rfl (by simp) (.inr rfl)
    next u hu =>
      obtain ⟨-, -, -, rfl⟩ := markTaskTerminal_eq_ok.1 hu
      exact .commits rfl (.refuse ..)
  | readAsset c task =>
    simp only [go] at h
    split at h
    · cases h
      exact .readsAsset
    split at h <;> cases h
    · exact .ends rfl (by simp) (.inr rfl)
    · exact .readsAsset
  | readUpload c task targetDomain =>
    simp only [go] at h
    split at h
    · cases h
      exact .readsUpload
    split at h <;> cases h
    · exact .ends rfl (by simp) (.inr rfl)
    · exact .readsUpload
  | start c task run =>
    simp only [go] at h
    split at h <;> cases h
    · exact .ends rfl (by simp) (.inr rfl)
    next u hu =>
      obtain ⟨-, rfl⟩ := markTaskRunning_eq_ok.1 hu
      exact .commits rfl (.start ..)
  | engine c run =>
    cases h
    exact .ran
  | record c run outcome =>
    cases h
    split
    · exact .ends rfl (by simp) (.inl rfl)
    next task htask =>
      split
      · exact .ends rfl (by simp) (.inl rfl)
      next hopen => exact .records htask (by simpa using hopen)
  | persist c run task v =>
    simp only [go] at h
    split at h
    · cases h
      exact .ends rfl (by simp) (.inr rfl)
    next hnew =>
      split at h <;> cases h
      · exact .ends rfl (by simp) (.inr rfl)
      · exact .persists hnew
  | finish c run task v =>
    simp only [go] at h
    split at h
    · cases h
      exact .ends rfl (by simp) (.inr rfl)
    split at h <;> cases h
    · exact .ends rfl (by simp) (.inr rfl)
    · exact .commits rfl (.finish ..)
  | reap c =>
    cases h
    exact .lists
  | reapLock c todo live =>
    cases todo <;> cases h
    · exact .rechecked
    · exact .rechecks
  | finalize f =>
    cases h
    split
    · exact .ends rfl (by simp) (.inl rfl)
    next job hjob =>
      split
      · exact .ends rfl (by simp) (.inl rfl)
      next hopen => exact .counts hjob (by simpa using hopen)
  | count f job =>
    cases h
    split
    · exact .ends rfl (by simp) (.inl rfl)
    next houtcome => exact .counted houtcome
  | cancel c =>
    cases h
    split
    · exact .cancels
    · exact .ends rfl (by simp) (.inl rfl)
  | heartbeat now =>
    cases h
    exact .beats
  | publish messages next =>
    cases messages <;> cases h
    · exact .sent
    · exact .sends
  | release =>
    cases h
    exact .ends rfl (by simp) (.inr rfl)
  | dispatchCommit | reapCommit | close | cancelCommit =>
    cases h
    exact .commits rfl (by constructor)
  | done => cases h

theorem Commits.of_go {d : Db} {p : Proc} {m : Step} {ws : List Write} (h : go plus d p = some m)
    (hop : m.op = .commit ws) : Commits plus p ws m.next := by
  cases go_leads h with
  | ends _ hno => exact absurd hop (hno ws)
  | commits _ hcommits =>
    cases hop
    exact hcommits
  | _ => cases hop

theorem rollback_of_ne_go {d : Db} {p : Proc} {ch : Choice} {m : Step} (h : move plus d p ch = some m)
    (hne : ch ≠ .go) : m = { op := .rollback, next := .done } := by
  cases ch with
  | go => exact absurd rfl hne
  | fail =>
    simp only [move] at h
    split at h <;> cases h
    rfl
  | crash =>
    cases h
    rfl

theorem Commits.of_move {d : Db} {p : Proc} {ch : Choice} {m : Step} {ws : List Write}
    (h : move plus d p ch = some m) (hop : m.op = .commit ws) : Commits plus p ws m.next := by
  by_cases hc : ch = .go
  · subst hc
    exact .of_go h hop
  · cases rollback_of_ne_go h hc
    cases hop

/-! ### Messages -/

theorem outbox_of_go {d : Db} {p : Proc} {m : Step} (h : go plus d p = some m) :
    m.emit ++ m.next.outbox = p.outbox ∨ (m.emit = [] ∧ p.outbox = [] ∧ ∃ ws, m.op = .commit ws) ∨
      (p.outbox = [] ∧ ∀ x ∈ m.emit ++ m.next.outbox, (∃ id, x = .ran id) ∨
        ∃ job ∈ d.jobs.rows, job.status = .running ∧ ∃ now, x = .heartbeat job.id now) := by
  cases go_leads h with
  | ends hp _ hq =>
    left
    rw [hp]
    rcases hq with rfl | rfl <;> rfl
  | commits hp => exact .inr (.inl ⟨rfl, hp, _, rfl⟩)
  | @sent next =>
    left
    cases next <;> rfl
  | @ran c run =>
    right; right
    refine ⟨rfl, fun x hx => .inl ⟨c.taskId, ?_⟩⟩
    rcases List.mem_append.1 hx with hx | hx
    · split at hx
      · exact List.mem_singleton.1 hx
      · cases hx
    · cases hx
  | beats =>
    right; right
    refine ⟨rfl, fun x hx => ?_⟩
    obtain ⟨job, hj, rfl⟩ := List.mem_map.1 hx
    obtain ⟨hmem, hrun⟩ := List.mem_filter.1 hj
    exact .inr ⟨job, hmem, by simpa using hrun, _, rfl⟩
  | _ => exact .inl rfl

end TestingPlatform.Scan
