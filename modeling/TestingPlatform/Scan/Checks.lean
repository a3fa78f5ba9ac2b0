import TestingPlatform.Scan.Routing

/-!
# The row constraints

The CHECK constraints of `scan_task` and `scan_job` that the worker's writes have to meet. Six tie the
status of a task to its timestamps, its reason and its target, three tie the status of a job to its
timestamps and its purge deadline. No function of the worker looks at them: `create_tasks` gets the target
right because the catalog and the launch agree on what a File test is, `mark_task_running` because the
locked row is queued, and the rest because they set all the columns of one constraint together.

A row has to pass at the flush, which may come long before the commit or without one; so the statement is
about what a delivery would write next (`Proc.flushing`), not about committed rows only.
-/

namespace TestingPlatform

/-- `num_nonnulls`, on what is not null. -/
def numNonnulls (present : List Bool) : Nat := present.count true

/-- The CHECK constraints of `scan_task`, under their names. -/
structure ScanTask.Checks (t : ScanTask) : Prop where
  one_task_target : numNonnulls [t.targetAssetId.isSome, t.targetDomain.isSome, t.fileUploadId.isSome] = 1
  blocked_says_why : t.status ≠ .blocked ∨ t.statusReason.isSome
  not_applicable_is_file_only : t.module = .file ↔ t.classification = .notApplicable
  file_task_targets_upload : t.fileUploadId.isSome ↔ t.module = .file
  terminal_state_has_finish : t.status ∈ [.completed, .failed, .skipped, .blocked, .canceled] ↔ t.finishedAt.isSome
  running_has_start : t.status ≠ .running ∨ t.startedAt.isSome

/-- The CHECK constraints of `scan_job` about its status. -/
structure ScanJob.Checks (j : ScanJob) : Prop where
  terminal_state_has_finish : j.status ∈ [.completed, .partial_, .failed, .canceled] ↔ j.finishedAt.isSome
  running_has_start : j.status ≠ .running ∨ j.startedAt.isSome
  purge_deadline_placement : j.purgeAt.isSome ↔
    j.status ∈ [.completed, .partial_, .failed, .canceled] ∨ (j.source = .guest ∧ j.claimedAt = none)

/-- What a launch leaves in the columns that no later write touches: one target, and the file module alone
exactly when it is an upload. -/
structure ScanJob.Launched (j : ScanJob) : Prop where
  one_launch_target : numNonnulls [j.assetId.isSome, j.targetDomain.isSome, j.fileUploadId.isSome] = 1
  file_targets_upload : .file ∈ j.modules ↔ j.fileUploadId.isSome
  file_alone : .file ∈ j.modules → ∀ m ∈ j.modules, m = .file

theorem mem_terminalTask {s : ScanTaskStatus} :
    s ∈ [.completed, .failed, .skipped, .blocked, .canceled] ↔ s.terminal = true := by
  cases s <;> decide

theorem mem_terminalJob {s : ScanJobStatus} : s ∈ [.completed, .partial_, .failed, .canceled] ↔ s.terminal = true := by
  cases s <;> decide

/-! ### Rows that a write leaves behind -/

namespace ScanTask.Checks
variable {t : ScanTask}

theorem close (h : t.Checks) {status : ScanTaskStatus} {reason : Option String} (now : Time)
    (hs : status.terminal = true) (hr : status = .blocked → reason.isSome) :
    ({ t with status, statusReason := reason, finishedAt := some now } : ScanTask).Checks where
  one_task_target := h.one_task_target
  blocked_says_why := by
    by_cases hb : status = .blocked
    · exact .inr (hr hb)
    · exact .inl hb
  not_applicable_is_file_only := h.not_applicable_is_file_only
  file_task_targets_upload := h.file_task_targets_upload
  terminal_state_has_finish := iff_of_true (mem_terminalTask.2 hs) rfl
  running_has_start := by
    refine .inl fun hrun => ?_
    have hterminal : status.terminal = true := hs
    rw [show status = .running from hrun] at hterminal
    cases hterminal

theorem start (h : t.Checks) (now : Time) (hq : t.status = .queued) :
    ({ t with status := .running, startedAt := some now } : ScanTask).Checks where
  one_task_target := h.one_task_target
  blocked_says_why := .inl (by simp)
  not_applicable_is_file_only := h.not_applicable_is_file_only
  file_task_targets_upload := h.file_task_targets_upload
  terminal_state_has_finish := by
    have hopen : ¬ t.finishedAt.isSome := by
      rw [← h.terminal_state_has_finish, hq]
      decide
    exact iff_of_false (by simp) hopen
  running_has_start := .inr rfl

theorem cancel (h : t.Checks) (requestedAt : Time) :
    ({ t with cancellationRequestedAt := some requestedAt } : ScanTask).Checks :=
  ⟨h.one_task_target, h.blocked_says_why, h.not_applicable_is_file_only, h.file_task_targets_upload,
    h.terminal_state_has_finish, h.running_has_start⟩

end ScanTask.Checks

namespace ScanJob.Checks
variable {j : ScanJob}

theorem start (h : j.Checks) (now : Time) (hq : j.status = .queued) :
    ({ j with status := .running, startedAt := some now } : ScanJob).Checks where
  terminal_state_has_finish := by
    have hopen : ¬ j.finishedAt.isSome := by
      rw [← h.terminal_state_has_finish, hq]
      decide
    exact iff_of_false (by simp) hopen
  running_has_start := .inr rfl
  purge_deadline_placement := by
    -- neither status is terminal, so the deadline is that of an unclaimed guest job before and after
    have hqueued : j.status ∉ [.completed, .partial_, .failed, .canceled] := by
      rw [hq]
      decide
    have hrunning : ScanJobStatus.running ∉ [.completed, .partial_, .failed, .canceled] := by decide
    refine h.purge_deadline_placement.trans ?_
    rw [or_iff_right hqueued]
    exact (or_iff_right hrunning).symm

theorem close (j : ScanJob) {status : ScanJobStatus} (reason : Option String) (now : Time) {purgeAt : Option Time}
    (hs : status.terminal = true) (hp : purgeAt.isSome) :
    ({ j with status, statusReason := reason, finishedAt := some now, purgeAt } : ScanJob).Checks where
  terminal_state_has_finish := iff_of_true (mem_terminalJob.2 hs) rfl
  running_has_start := by
    refine .inl fun hrun => ?_
    have hterminal : status.terminal = true := hs
    rw [show status = .running from hrun] at hterminal
    cases hterminal
  purge_deadline_placement := iff_of_true hp (.inl (mem_terminalJob.2 hs))

end ScanJob.Checks

namespace Scan

open Fallible ReadCommitted

theorem Write.onJob_launched (u : Write) {j : ScanJob} (h : j.Launched) : (u.onJob j).Launched := by
  obtain ⟨htarget, hfile, halone⟩ := h
  cases u <;> exact ⟨htarget, hfile, halone⟩

/-! ### Flushes -/

namespace Db

/-- The row that the write leaves behind passes its constraints. -/
structure Accepts (d : Db) (u : Write) : Prop where
  inserted : ∀ t, u = .insertTask t → t.Checks
  task : ∀ id t, u.taskId = some id → d.tasks.find id = some t → (u.onTask t).Checks
  job : ∀ id j, u.jobId = some id → d.jobs.find id = some j → (u.onJob j).Checks

/-- Each of the writes in turn leaves a row behind that passes. -/
def AcceptsAll (d : Db) : List Write → Prop
  | [] => True
  | u :: ws => d.Accepts u ∧ AcceptsAll (d.write u) ws

structure Conforms (d : Db) : Prop where
  task : ∀ id t, d.tasks.find id = some t → t.Checks
  job : ∀ id j, d.jobs.find id = some j → j.Checks ∧ j.Launched

variable {d : Db} {u : Write} {ws : List Write}

theorem Conforms.write (h : d.Conforms) (hu : d.Accepts u) : (d.write u).Conforms := by
  constructor
  · intro id t' ht'
    cases ht : d.tasks.find id with
    | some t =>
      rw [find_task_write ht, Option.some.injEq] at ht'
      subst ht'
      split
      · next hid => exact hu.task id t hid ht
      · exact h.task id t ht
    | none =>
      -- a row that was not there is the inserted one
      by_cases hins : ∃ t, u = .insertTask t
      · obtain ⟨t, rfl⟩ := hins
        have hfold : ([Write.insertTask t].foldl Db.write d).tasks.find id = some t' := ht'
        have hmem := inserted_of_find_task_foldl (by simp [Write.taskId]) ht hfold
        exact hu.inserted t' (List.mem_singleton.1 hmem).symm
      · rw [find_task_write_none (fun t ht => hins ⟨t, ht⟩) ht] at ht'
        cases ht'
  · intro id j' hj'
    cases hj : d.jobs.find id with
    | none =>
      rw [find_job_write_none hj] at hj'
      cases hj'
    | some j =>
      obtain ⟨hchecks, hlaunched⟩ := h.job id j hj
      rw [find_job_write hj, Option.some.injEq] at hj'
      subst hj'
      split
      · next hid => exact ⟨hu.job id j hid hj, u.onJob_launched hlaunched⟩
      · exact ⟨hchecks, hlaunched⟩

theorem Conforms.foldl (h : d.Conforms) (hws : d.AcceptsAll ws) : (ws.foldl Db.write d).Conforms := by
  induction ws generalizing d with
  | nil => exact h
  | cons u ws ih => exact ih (h.write hws.1) hws.2

end Db

/-- A write that leaves a good row behind whatever good row it finds. -/
def Write.Sound : Write → Prop
  | .insertTask t => t.Checks
  | .taskTerminal _ status reason _ => status.terminal = true ∧ (status = .blocked → reason.isSome)
  | .jobClosed _ status _ _ purgeAt => status.terminal = true ∧ purgeAt.isSome
  | .taskCancellation .. | .insertResult _ | .insertFinding _ => True
  | .jobRunning .. | .taskRunning .. => False

namespace Db.Conforms
variable {d : Db} {u : Write} {ws : List Write}

theorem accepts_of_sound (h : d.Conforms) (hu : u.Sound) : d.Accepts u := by
  constructor
  · rintro t rfl
    exact hu
  · intro id t hid ht
    have hchecks := h.task id t ht
    cases u with
    | taskTerminal _ status reason now => exact hchecks.close now hu.1 hu.2
    | taskCancellation _ requestedAt => exact hchecks.cancel requestedAt
    | taskRunning => exact hu.elim
    | insertTask | insertResult | insertFinding | jobRunning | jobClosed => exact hchecks
  · intro id j hid hj
    have hchecks := (h.job id j hj).1
    cases u with
    | jobClosed _ status reason now purgeAt => exact .close j reason now hu.1 hu.2
    | jobRunning => exact hu.elim
    | insertTask | insertResult | insertFinding | taskRunning | taskTerminal | taskCancellation => exact hchecks

theorem acceptsAll_of_sound (h : d.Conforms) (hws : ∀ u ∈ ws, u.Sound) : d.AcceptsAll ws := by
  induction ws generalizing d with
  | nil => trivial
  | cons u ws ih =>
    have hu := h.accepts_of_sound (hws u List.mem_cons_self)
    exact ⟨hu, ih (h.write hu) fun v hv => hws v (List.mem_cons_of_mem _ hv)⟩

end Db.Conforms

/-! ### The rows of a new matrix -/

/-- A new row passes: a File test targets the upload, and every other test the asset or the guest domain. -/
theorem createTask_checks {job : ScanJob} (hj : job.Launched) {roster : Roster} {entry : CatalogEntry} {spec : TaskSpec}
    {now : Time} {id : Uuid} {task : ScanTask} (hentry : entry ∈ job.modules.flatMap testsForModule)
    (hplan : planTask roster entry = .ok spec) (hc : createTask job now spec id = some task) : task.Checks := by
  obtain ⟨m, hm, he⟩ := List.mem_flatMap.1 hentry
  have hmodule : entry.module = m := by simpa [testsForModule] using (List.mem_filter.1 he).2
  have hclass : entry.classification = .notApplicable ↔ m = .file := (testsForModule_spec m).2 entry he
  obtain ⟨-, hspecModule, hspecClass, -⟩ := planTask_spec hplan
  rw [hmodule] at hspecModule
  have hupload : m = .file ↔ job.fileUploadId.isSome := by
    rw [← hj.file_targets_upload]
    constructor
    · rintro rfl
      exact hm
    · exact fun hfile => hj.file_alone hfile m hm
  have htarget := hj.one_launch_target
  obtain ⟨configuration, -, rfl⟩ := Option.map_eq_some_iff.1 hc
  constructor
  · by_cases hfile : m = .file
    · have hsome : job.fileUploadId.isSome = true := hupload.1 hfile
      simp [numNonnulls, hspecModule, hfile, hsome]
    · have hnone : job.fileUploadId.isSome = false := by simpa [hfile] using hupload
      rw [hnone] at htarget
      simpa [hspecModule, hfile] using htarget
  · by_cases hb : spec.blockedReason.isSome
    · exact .inr hb
    · exact .inl (by simp [hb])
  · show spec.module = .file ↔ spec.classification = .notApplicable
    rw [hspecModule, hspecClass, hclass]
  · by_cases hfile : m = .file
    · have hsome : job.fileUploadId.isSome = true := hupload.1 hfile
      simp [hspecModule, hfile, hsome]
    · simp [hspecModule, hfile]
  · by_cases hb : spec.blockedReason.isSome <;> simp [hb]
  · by_cases hb : spec.blockedReason.isSome <;> simp [hb]

theorem planDispatch_checks {c : DispatchCall} {job : ScanJob} {tasks : List ScanTask} {p : DispatchPlan}
    (hj : job.Launched) (h : planDispatch c job tasks = some p) : ∀ t ∈ p.created, t.Checks := by
  rcases planDispatch_cases h with ⟨-, roster, specs, created, -, hs, hc, rfl⟩ | ⟨-, rfl⟩
  · intro t ht
    obtain ⟨⟨spec, n⟩, hmem, hcreate⟩ := exists_of_mem_mapM_some hc ht
    obtain ⟨entry, hentry, hplan⟩ := exists_of_mem_mapM_ok hs (List.fst_mem_of_mem_zipIdx hmem)
    exact createTask_checks hj hentry hplan hcreate
  · simp

/-! ### What a delivery flushes -/

section Program
variable (plus : Time → Time)

/-- The writes that the open transaction has flushed or is about to flush. -/
def Proc.flushing : Proc → List Write
  | .dispatchInsert c p | .dispatchBlock c p _ | .dispatchCommit c p => p.writes c.now
  | .refuse c task status reason => [.taskTerminal task.id status (some reason) c.now]
  | .start c task _ => [.taskRunning task.id c.now]
  | .persist c _ task v | .finish c _ task v => v.writes task c.finished
  | .reapLock c _ live | .reapCommit c live =>
    live.map fun id => .taskTerminal id .failed (some reasonJobTimeout) c.swept
  | .close f job outcome => [closeJob plus f job outcome]
  | .cancelCommit c => [.taskCancellation c.taskId c.requestedAt]
  | _ => []

end Program

variable {plus : Time → Time}

theorem Commits.flushing {p q : Proc} {ws : List Write} (h : Commits plus p ws q) : p.flushing plus = ws := by
  cases h <;> rfl

theorem verdict_reason {c : RunModuleCall} {task : ScanTask} {v : Verdict} {outcome : Except String ModuleResult}
    (h : v = verdict c task outcome) : v.status.terminal = true ∧ (v.status = .blocked → v.reason.isSome) := by
  subst h
  exact ⟨(verdict_spec c task outcome).1, fun hblocked => absurd hblocked (verdict_ne_blocked c task outcome)⟩

/-- Whatever a delivery flushes passes. Two writes are not sound by themselves: the starts, of a job or task that
the delivery has locked while it was queued. -/
theorem Proc.Holds.acceptsAll {held : Lock → Prop} {d : Db} {p : Proc} (hA : p.Holds held d) (hd : d.Conforms)
    (hp : p.Drafts ScanTask.Checks) : d.AcceptsAll (p.flushing plus) := by
  have plan : ∀ {c : DispatchCall} {p : DispatchPlan}, PlanHeld held d c p → (∀ t ∈ p.created, t.Checks) →
      d.AcceptsAll (p.writes c.now) := by
    intro c p hheld hcreated
    have hsound : ∀ u ∈ p.created.map Write.insertTask ++
        p.vanished.map (fun id => Write.taskTerminal id .blocked (some reasonModuleUnavailable) c.now), u.Sound := by
      intro u hu
      rcases List.mem_append.1 hu with hu | hu
      · obtain ⟨t, ht, rfl⟩ := List.mem_map.1 hu
        exact hcreated t ht
      · obtain ⟨id, -, rfl⟩ := List.mem_map.1 hu
        exact ⟨rfl, fun _ => rfl⟩
    rw [DispatchPlan.writes, List.append_assoc]
    unfold markJobRunning
    split
    · next hq =>
      have hstart : d.Accepts (.jobRunning p.job.id c.now) := by
        refine ⟨by simp, by simp [Write.taskId], fun id j hid hj => ?_⟩
        obtain rfl := Option.some.inj hid
        cases hheld.job.row.symm.trans hj
        exact (hd.job _ _ hj).1.start c.now hq
      exact ⟨hstart, (hd.write hstart).acceptsAll_of_sound hsound⟩
    · exact hd.acceptsAll_of_sound hsound
  have record : ∀ {c : RunModuleCall} {run : EngineRun} {task : ScanTask} {v : Verdict}, Recording held d c run task v →
      d.AcceptsAll (v.writes task c.finished) := by
    intro c run task v hrec
    obtain ⟨outcome, hv⟩ := hrec.verdict
    refine hd.acceptsAll_of_sound fun u hu => ?_
    rcases List.mem_append.1 hu with hu | hu
    · split at hu
      · cases hu
      · rcases List.mem_cons.1 hu with rfl | hu
        · trivial
        · obtain ⟨f, -, rfl⟩ := List.mem_map.1 hu
          trivial
    · rw [List.mem_singleton.1 hu]
      exact verdict_reason hv
  have swept : ∀ {live : List Uuid} {now : Time},
      d.AcceptsAll (live.map fun id => .taskTerminal id .failed (some reasonJobTimeout) now) := by
    intro live now
    refine hd.acceptsAll_of_sound fun u hu => ?_
    obtain ⟨id, -, rfl⟩ := List.mem_map.1 hu
    exact ⟨rfl, fun _ => rfl⟩
  cases p with
  | dispatchInsert => exact plan hA (hp _ rfl)
  | dispatchBlock | dispatchCommit => exact plan hA.1 (hp _ rfl)
  | refuse c task status reason =>
    refine hd.acceptsAll_of_sound fun u hu => ?_
    rw [List.mem_singleton.1 hu]
    exact ⟨(refusal_eq_some hA.2).1, fun _ => rfl⟩
  | start c task run =>
    refine ⟨⟨by simp, fun id t hid ht => ?_, by simp [Write.jobId]⟩, trivial⟩
    obtain rfl := Option.some.inj hid
    cases hA.1.row.symm.trans ht
    exact (hd.task _ _ ht).start c.now hA.1.queued
  | persist => exact record hA
  | finish => exact record hA.1
  | reapLock | reapCommit => exact swept
  | close f job outcome =>
    refine hd.acceptsAll_of_sound fun u hu => ?_
    rw [List.mem_singleton.1 hu]
    exact ⟨hA.2.2, rfl⟩
  | cancelCommit c =>
    refine hd.acceptsAll_of_sound fun u hu => ?_
    rw [List.mem_singleton.1 hu]
    trivial
  | _ => trivial

/-! ### Runs -/

section Runs
variable {π : Type} [DecidableEq π] {C : Deployment π → π × Choice → Prop} {w₀ w : Deployment π} {i : π} {c : Choice}
  {m : Step}

theorem conforms_step (hb : Base w) (hw : Drafting ScanTask.Checks ScanJob.Launched w) (hrows : w.db.Conforms)
    (hm : (pipeline plus).Fires w i c m) : ((pipeline plus).after w i m).db.Conforms := by
  rw [System.db_after]
  cases hop : m.op with
  | commit ws =>
    have haccepts : w.db.AcceptsAll ((w.proc i).flushing plus) := (hb.holds i).acceptsAll hrows (hw.drafts i)
    rw [(Commits.of_move hm.1 hop).flushing] at haccepts
    exact hrows.foldl haccepts
  | read | lock | unlock | rollback => exact hrows

/-- From jobs as a launch leaves them, no flush and no commit of any delivery ever meets a CHECK that fails. -/
theorem rows_pass_checks (h₀ : Start w₀) (hrows : w₀.db.Conforms) (h : (pipeline plus).Run C w₀ w) :
    w.db.Conforms ∧ ∀ i, w.db.AcceptsAll ((w.proc i).flushing plus) ∧
      ∀ c m ws, (pipeline plus).Fires w i c m → m.op = .commit ws → ws = (w.proc i).flushing plus := by
  have hdrafting : ∀ {v}, (pipeline plus).Run C w₀ v → Base v ∧ Drafting ScanTask.Checks ScanJob.Launched v :=
    fun hv => ⟨base_of_run h₀ hv, drafting_of_run (fun u j => u.onJob_launched)
      (fun c job tasks pl hj => planDispatch_checks hj) h₀ (fun id j hj => (hrows.job id j hj).2) hv⟩
  have hconforms : w.db.Conforms :=
    (h.using hdrafting).invariant (I := fun v => v.db.Conforms) hrows
      fun v i c m hv ⟨_, hb, hw⟩ hm => conforms_step hb hw hv hm
  obtain ⟨hb, hw⟩ := hdrafting h
  refine ⟨hconforms, fun i => ⟨(hb.holds i).acceptsAll hconforms (hw.drafts i), ?_⟩⟩
  intro c m ws hm hop
  exact (Commits.of_move hm.1 hop).flushing.symm

end Runs

/-! ### A guest scan -/

namespace Unclaimed

/-- A guest job keeps its purge deadline of one day. -/
def job : ScanJob := { Vanished.job with source := .guest, purgeAt := some (Time.days 1) }

def begin : Deployment (Fin 3) :=
  { Delivered.begin with db := { Delivered.begin.db with jobs := Table.empty.insert job } }

theorem find_job {id : Uuid} {j : ScanJob} (h : begin.db.jobs.find id = some j) : j = job := by
  have hm := Table.mem_of_find h
  simpa only [begin, Table.rows_insert (Table.find_empty _), Table.rows_empty, List.nil_append, List.mem_singleton] using hm

theorem start : Start begin where
  entry := Delivered.start.entry
  unlocked := Delivered.start.unlocked
  trace := rfl
  jobs id j h := by rw [find_job h]; rfl
  tasks id t h := by cases h
  owned id t h := by cases h
  results := rfl
  findings := rfl

theorem conforms : begin.db.Conforms where
  task id t h := by cases h
  job id j h := by
    rw [find_job h]
    exact ⟨⟨by decide, by decide, by decide⟩, ⟨by decide, by decide, by decide⟩⟩

end Unclaimed

open Unclaimed in
/-- The scan of a guest runs to its end with the deadline it had. -/
theorem rows_pass_checks_of_guest :
    ∃ w : Deployment (Fin 3), (pipeline id).Run (fun _ _ => True) begin w ∧
      (∃ j, w.db.jobs.find 1 = some j ∧ j.status = .completed ∧ j.purgeAt = some (Time.days 1)) ∧ w.db.Conforms := by
  have run : ((pipeline id).exec (fun _ _ => True) begin
      (steps 0 11 ++ steps 1 6 ++ steps 2 2 ++ steps 1 10)).any
        (fun w => (w.db.jobs.find 1).any fun j => j.status = .completed ∧ j.purgeAt = some (Time.days 1)) = true := by
    decide +kernel
  obtain ⟨w, hw, hp⟩ := System.Run.of_exec_any run
  obtain ⟨j, hj, hstands⟩ := (Option.any_eq_true ..).1 hp
  exact ⟨w, hw, ⟨j, hj, of_decide_eq_true hstands⟩, (rows_pass_checks start conforms hw).1⟩

end Scan

end TestingPlatform
