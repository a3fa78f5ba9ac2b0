import TestingPlatform.Lib.History
import TestingPlatform.Lib.Outline
import TestingPlatform.Scan.Steps

/-!
# The worker refines the state diagram

From the assertion of a delivery follow three things: its commit writes only rows it has locked
(`covered`), the commit is an `Effect` of the state diagram (`effect`), and the assertion of its next
statement holds (`next`). `outline` puts them together for every run.
-/

namespace TestingPlatform.Scan

open ReadCommitted

variable {plus : Time → Time}

/-! ### Decisions of `run_module` -/

theorem refusal_eq_none {c : RunModuleCall} {task : ScanTask} (h : refusal c task = none) :
    task.cancellationRequestedAt = none ∧ knows c.roster task.testKey := by
  unfold refusal at h
  split at h
  · cases h
  · next hc =>
    split at h
    · cases h
    · next queue hq => exact ⟨by simpa using hc, queue, hq⟩

theorem refusal_eq_some {c : RunModuleCall} {task : ScanTask} {status : ScanTaskStatus} {reason : String}
    (h : refusal c task = some (status, reason)) : status.terminal = true ∧ status ≠ .completed := by
  unfold refusal at h
  split at h
  · cases h; decide
  · split at h
    · cases h; decide
    · split at h <;> cases h
      decide

/-- A verdict is terminal, and it is `completed` exactly when it comes with rows: those of the task. -/
theorem verdict_spec (c : RunModuleCall) (task : ScanTask) (outcome : Except String ModuleResult) :
    (verdict c task outcome).status.terminal = true ∧
      ((verdict c task outcome).rows = none → (verdict c task outcome).status ≠ .completed) ∧
      ∀ rows, (verdict c task outcome).rows = some rows →
        (verdict c task outcome).status = .completed ∧ task.cancellationRequestedAt = none ∧
          rows.1.scanTaskId = task.id ∧ rows.1.organizationId = task.organizationId ∧
          ∀ f ∈ rows.2, f.scanResultId = rows.1.id ∧ f.organizationId = task.organizationId := by
  unfold verdict
  split
  · simp
  · next hc =>
    cases outcome with
    | error reason => simp
    | ok result =>
      refine ⟨rfl, by simp, fun rows hr => ?_⟩
      cases hr
      exact ⟨rfl, by simpa using hc, persistResult_owner task result c.finished c.uuid7⟩

theorem verdict_ne_blocked (c : RunModuleCall) (task : ScanTask) (outcome : Except String ModuleResult) :
    (verdict c task outcome).status ≠ .blocked := by
  unfold verdict
  split
  · simp
  · cases outcome <;> simp

theorem mem_markJobRunning {job : ScanJob} {now : Time} {u : Write} (hu : u ∈ markJobRunning job now) :
    u = .jobRunning job.id now ∧ job.status = .queued := by
  unfold markJobRunning at hu
  split at hu
  · next hq => exact ⟨List.mem_singleton.1 hu, hq⟩
  · cases hu

/-! ### Covered writes -/

theorem Commits.covered {held : Lock → Prop} {d : Db} {p q : Proc} {ws : List Write} (h : Commits plus p ws q)
    (hA : p.Holds held d) : ∀ u ∈ ws, ∀ k, u.touches k → held k := by
  intro u hu k hk
  cases h with
  | dispatch c p =>
    obtain ⟨hp, hnew, hvan⟩ := hA
    simp only [DispatchPlan.writes, List.mem_append, List.mem_map] at hu
    rcases hu with (hu | ⟨t, ht, rfl⟩) | ⟨id, hid, rfl⟩
    · rw [(mem_markJobRunning hu).1] at hk
      cases k <;> simp [Write.touches, Write.jobId, Write.taskId] at hk
      exact hk ▸ hp.job.lock
    · cases k <;> simp [Write.touches, Write.jobId, Write.taskId] at hk
      · rw [← hk, (hp.created_of t ht).1]
        exact hp.job.lock
      · exact hk ▸ (hnew t ht).1
    · cases k <;> simp [Write.touches, Write.jobId, Write.taskId] at hk
      exact hk ▸ hvan id hid
  | refuse c task status reason =>
    rw [List.mem_singleton.1 hu] at hk
    cases k <;> simp [Write.touches, Write.jobId, Write.taskId] at hk
    exact hk ▸ hA.1.lock
  | start c task run =>
    rw [List.mem_singleton.1 hu] at hk
    cases k <;> simp [Write.touches, Write.jobId, Write.taskId] at hk
    exact hk ▸ hA.1.lock
  | finish c run task v =>
    obtain ⟨⟨outcome, rfl⟩, hrow⟩ := And.intro hA.1.verdict hA.1.lock
    simp only [Verdict.writes, List.mem_append, List.mem_singleton] at hu
    rcases hu with hu | rfl
    · split at hu
      · cases hu
      · next rows hr =>
        rw [List.mem_cons, List.mem_map] at hu
        rcases hu with rfl | ⟨f, -, rfl⟩
        · cases k <;> simp [Write.touches, Write.jobId, Write.taskId] at hk
          rw [← hk, ((verdict_spec c task outcome).2.2 rows hr).2.2.1]
          exact hrow
        · cases k <;> simp [Write.touches, Write.jobId, Write.taskId] at hk
    · cases k <;> simp [Write.touches, Write.jobId, Write.taskId] at hk
      exact hk ▸ hrow
  | reap c live =>
    obtain ⟨id, hid, rfl⟩ := List.mem_map.1 hu
    cases k <;> simp [Write.touches, Write.jobId, Write.taskId] at hk
    exact hk ▸ (hA id hid).1
  | close f job outcome =>
    rw [List.mem_singleton.1 hu] at hk
    cases k <;> simp [Write.touches, Write.jobId, Write.taskId, closeJob] at hk
    exact hk ▸ hA.1.lock
  | cancel c =>
    rw [List.mem_singleton.1 hu] at hk
    cases k <;> simp [Write.touches, Write.jobId, Write.taskId] at hk
    exact hk ▸ hA

/-! ### Commits are effects -/

section Effects
variable {a : Act} {d : Db}

theorem effect_terminal (ids : List Uuid) {status : ScanTaskStatus} {reason : Option String} {now : Time} {jobId : Uuid}
    (hclosing : a.closing = some jobId) (hs : status.terminal = true) (hc : status ≠ .completed)
    (hlive : ∀ id ∈ ids, ∀ t, d.tasks.find id = some t → t.scanJobId = jobId ∧ t.status.terminal = false) :
    Effect a d ((ids.map fun id => .taskTerminal id status reason now).foldl Db.write d) := by
  have row : ∀ {id t}, d.tasks.find id = some t →
      ((ids.map fun id => Write.taskTerminal id status reason now).foldl Db.write d).tasks.find id =
        some (if id ∈ ids then { t with status, statusReason := reason, finishedAt := some now } else t) := fun ht => by
    rw [Db.find_task_foldl ht, Db.foldl_taskTerminal]
  have outputs := Db.results_foldl (d := d) (ids.map fun id => .taskTerminal id status reason now)
    (by simp [Write.isOutput])
  constructor
  · intro id t ht
    refine ⟨_, row ht, ?_⟩
    split
    · next hid => exact .closed status reason now (hlive id hid t ht).2 hs fun h => absurd h hc
    · exact .same
  · intro id t t' ht ht' hne
    rw [row ht] at ht'
    by_cases hid : id ∈ ids
    · exact .inr (by rw [hclosing, (hlive id hid t ht).1])
    · rw [if_neg hid] at ht'; cases ht'; exact absurd rfl hne
  · intro id t hn ht
    rw [Db.find_task_foldl_none (by simp) hn] at ht
    cases ht
  · intro id j hj
    exact ⟨j, by rw [Db.find_job_foldl hj, Db.foldl_onJob_eq (by simp [Write.jobId])], .same⟩
  · exact Db.find_job_foldl_none
  · intro id
    exact .inl (by rw [outputs.1])
  · intro id t t' ht ht' hne he
    rw [row ht] at ht'
    split at ht' <;> cases ht'
    · exact absurd he hc
    · exact absurd he hne
  · intro f hf
    exact .inl (outputs.2 ▸ hf)

theorem effect_close {job : ScanJob} {status : ScanJobStatus} {reason : Option String}
    {now : Time} {purgeAt : Option Time} (hj : d.jobs.find job.id = some job) (hl : job.status.terminal = false)
    (hs : status.terminal = true) :
    Effect a d ([.jobClosed job.id status reason now purgeAt].foldl Db.write d) := by
  constructor
  · exact fun ht => ⟨_, ht, .same⟩
  · intro id t t' ht ht' hne
    cases ht.symm.trans ht'
    exact absurd rfl hne
  · exact fun hn ht => by cases hn.symm.trans ht
  · intro id j h
    refine ⟨_, Db.find_job_foldl h, ?_⟩
    simp only [List.foldl_cons, List.foldl_nil, Write.jobId, Option.some.injEq]
    split
    · next he =>
      subst he
      cases hj.symm.trans h
      exact .closed status reason now purgeAt hl hs
    · exact .same
  · exact Db.find_job_foldl_none
  · exact fun _ => .inl rfl
  · intro id t t' ht ht' hne he
    cases ht.symm.trans ht'
    exact absurd he hne
  · exact fun f hf => .inl hf

theorem effect_task {u : Write} (id : Uuid) (hu : u.taskId = some id) (hj : u.jobId = none)
    (ho : u.isOutput = false)
    (hc : ∀ t, d.tasks.find id = some t → TaskChange a d t (u.onTask t) ∧
      ((u.onTask t).status = t.status ∨ (u.onTask t).status = .running)) :
    Effect a d ([u].foldl Db.write d) := by
  have row : ∀ {id' t}, d.tasks.find id' = some t →
      ([u].foldl Db.write d).tasks.find id' = some (if id = id' then u.onTask t else t) := fun ht => by
    rw [Db.find_task_foldl ht]
    simp [hu]
  have outputs := Db.results_foldl (d := d) [u] (by simpa using ho)
  constructor
  · intro id' t ht
    refine ⟨_, row ht, ?_⟩
    split
    · next he => exact (hc t (he ▸ ht)).1
    · exact .same
  · intro id' t t' ht ht' hne
    rw [row ht] at ht'
    split at ht' <;> cases ht'
    · next he => exact .inl ((hc t (he ▸ ht)).2.resolve_left hne)
    · exact absurd rfl hne
  · intro id' t hn ht
    rw [Db.find_task_foldl_none (by rintro v hv t rfl; cases List.mem_singleton.1 hv; cases hu) hn] at ht
    cases ht
  · intro id' j h
    exact ⟨j, by rw [Db.find_job_foldl h, Db.foldl_onJob_eq (by simp [hj])], .same⟩
  · exact Db.find_job_foldl_none
  · intro id'
    exact .inl (by rw [outputs.1])
  · intro id' t t' ht ht' hne he
    rw [row ht] at ht'
    split at ht' <;> cases ht'
    · next hid =>
      rcases (hc t (hid ▸ ht)).2 with h | h
      · exact absurd (h.symm.trans he) hne
      · rw [h] at he; cases he
    · exact absurd he hne
  · intro f hf
    exact .inl (outputs.2 ▸ hf)

theorem effect_complete {task : ScanTask} {r : ScanResult} {fs : List Finding} {reason : Option String} {now : Time}
    (hclosing : a.closing = some task.scanJobId) (ht : d.tasks.find task.id = some task)
    (hrun : task.status = .running) (hcan : task.cancellationRequestedAt = none)
    (hno : d.results.find task.id = none) (hr : r.scanTaskId = task.id) (horg : r.organizationId = task.organizationId)
    (hfs : ∀ f ∈ fs, f.scanResultId = r.id ∧ f.organizationId = task.organizationId) :
    Effect a d
      ((Write.insertResult r :: fs.map Write.insertFinding ++
        [Write.taskTerminal task.id .completed reason now]).foldl Db.write d) := by
  obtain ⟨d₁, hd₁⟩ : ∃ d₁ : Db, d₁ = { d with results := d.results.insert r, findings := d.findings ++ fs } := ⟨_, rfl⟩
  have fold : (Write.insertResult r :: fs.map Write.insertFinding ++
      [Write.taskTerminal task.id .completed reason now]).foldl Db.write d =
      d₁.write (.taskTerminal task.id .completed reason now) := by
    rw [List.cons_append, List.foldl_cons, List.foldl_append, Db.foldl_insertFinding, hd₁]
    rfl
  have tasks : d₁.tasks = d.tasks := by rw [hd₁]
  have row : ∀ {id t}, d.tasks.find id = some t →
      (d₁.write (.taskTerminal task.id .completed reason now)).tasks.find id =
        some (if task.id = id then { t with status := .completed, statusReason := reason, finishedAt := some now } else t) := by
    intro id t h
    rw [Db.find_task_write (tasks ▸ h)]
    simp [Write.taskId, Write.onTask]
  have results : (d₁.write (.taskTerminal task.id .completed reason now)).results = d.results.insert r := by rw [hd₁]; rfl
  have result : (d.results.insert r).find task.id = some r := hr ▸ Table.find_insert_self (hr ▸ hno)
  rw [fold]
  constructor
  · intro id t h
    refine ⟨_, row h, ?_⟩
    split
    · next he =>
      subst he
      cases ht.symm.trans h
      exact .closed _ _ _ (by rw [hrun]; rfl) rfl fun _ => ⟨hrun, hcan⟩
    · exact .same
  · intro id t t' h h' hne
    rw [row h] at h'
    split at h' <;> cases h'
    · next he =>
      subst he
      cases ht.symm.trans h
      exact .inr hclosing
    · exact absurd rfl hne
  · intro id t hn h
    rw [Db.find_task_write_none (by simp) (tasks ▸ hn)] at h
    cases h
  · exact fun {id j} h => ⟨j, by rw [hd₁]; exact h, .same⟩
  · exact fun h => by rw [hd₁]; exact h
  · intro id
    rw [results]
    by_cases he : task.id = id
    · subst he
      exact .inr ⟨task, _, r, ht, hrun, row ht, by rw [if_pos rfl], hno, result, horg⟩
    · exact .inl (Table.find_insert_of_ne fun h => he (hr.symm.trans h))
  · intro id t t' h h' hne he
    rw [row h] at h'
    split at h' <;> cases h'
    · next hid =>
      subst hid
      rw [results, result]; rfl
    · exact absurd he hne
  · intro f hf
    rw [results]
    rw [hd₁] at hf
    rcases List.mem_append.1 hf with hf | hf
    · exact .inl hf
    · exact .inr ⟨r, Table.mem_of_find result, (hfs f hf).1, by rw [(hfs f hf).2, horg]⟩

theorem PlanHeld.mem_created {held : Lock → Prop} {c : DispatchCall} {p : DispatchPlan} (hp : PlanHeld held d c p)
    {now : Time} {id : Uuid} {t : ScanTask} (hn : d.tasks.find id = none)
    (ht : ((p.writes now).foldl Db.write d).tasks.find id = some t) : t ∈ p.created := by
  rcases hp.first with hc | ⟨hv, -⟩
  · rw [Db.find_task_foldl_none _ hn] at ht
    · cases ht
    · intro u hu t he
      simp only [DispatchPlan.writes, hc, List.map_nil, List.append_nil, List.mem_append, List.mem_map, he] at hu
      rcases hu with hu | ⟨id, -, hu⟩
      · cases (mem_markJobRunning hu).1
      · cases hu
  · have hmem := Db.inserted_of_find_task_foldl (by
      intro u hu
      simp only [DispatchPlan.writes, hv, List.map_nil, List.append_nil, List.mem_append, List.mem_map] at hu
      rcases hu with hu | ⟨t, -, rfl⟩
      · rw [(mem_markJobRunning hu).1]; rfl
      · rfl) hn ht
    simp only [DispatchPlan.writes, List.mem_append, List.mem_map] at hmem
    rcases hmem with (hu | ⟨t', ht', he⟩) | ⟨id, -, hu⟩
    · cases (mem_markJobRunning hu).1
    · cases he; exact ht'
    · cases hu

theorem effect_dispatch {held : Lock → Prop} {c : DispatchCall} {p : DispatchPlan} (hp : PlanHeld held d c p)
    (now : Time) :
    Effect ⟨knows c.roster, some p.job.id, p.vanished, some p.job.id⟩ d ((p.writes now).foldl Db.write d) := by
  have row : ∀ {id t}, d.tasks.find id = some t → ((p.writes now).foldl Db.write d).tasks.find id = some
      (if id ∈ p.vanished then
        { t with status := .blocked, statusReason := some reasonModuleUnavailable, finishedAt := some now } else t) := by
    intro id t ht
    have skip : (markJobRunning p.job now ++ p.created.map Write.insertTask).foldl
        (fun t u => if u.taskId = some id then u.onTask t else t) t = t := Db.foldl_onTask_eq fun u hu => by
      rcases List.mem_append.1 hu with hu | hu
      · rw [(mem_markJobRunning hu).1]; simp [Write.taskId]
      · obtain ⟨t, -, rfl⟩ := List.mem_map.1 hu; simp [Write.taskId]
    rw [Db.find_task_foldl ht, DispatchPlan.writes, List.foldl_append, skip, Db.foldl_taskTerminal]
  have outputs := Db.results_foldl (d := d) (p.writes now) (by
    intro u hu
    simp only [DispatchPlan.writes, List.mem_append, List.mem_map] at hu
    rcases hu with (hu | ⟨t, -, rfl⟩) | ⟨id, -, rfl⟩
    · rw [(mem_markJobRunning hu).1]; rfl
    · rfl
    · rfl)
  constructor
  · intro id t ht
    refine ⟨_, row ht, ?_⟩
    split
    · next hid =>
      obtain ⟨t₂, ht₂, hj, hk⟩ := hp.vanished_of id hid
      cases ht.symm.trans ht₂
      refine .vanished now ?_ hk (by rw [hj]) ⟨p.job, hj ▸ hp.job.row, hp.job.live⟩
      rwa [Table.key_of_find ht]
    · exact .same
  · intro id t t' ht ht' hne
    rw [row ht] at ht'
    by_cases hid : id ∈ p.vanished
    · obtain ⟨t₂, ht₂, hj, -⟩ := hp.vanished_of id hid
      cases ht.symm.trans ht₂
      exact .inr (by rw [hj])
    · rw [if_neg hid] at ht'; cases ht'; exact absurd rfl hne
  · intro id t hn ht
    have hnew : t ∈ p.created := hp.mem_created hn ht
    obtain ⟨hj, horg, hst⟩ := hp.created_of t hnew
    exact ⟨by rw [hj], by rw [hj], hst, p.job, hj ▸ hp.job.row, hp.job.live, horg⟩
  · intro id j hj
    refine ⟨_, Db.find_job_foldl hj, ?_⟩
    have skip : ∀ j', (p.created.map Write.insertTask ++
        p.vanished.map fun id => Write.taskTerminal id .blocked (some reasonModuleUnavailable) now).foldl
        (fun j u => if u.jobId = some id then u.onJob j else j) j' = j' := fun j' => Db.foldl_onJob_eq fun u hu => by
      rcases List.mem_append.1 hu with hu | hu <;> obtain ⟨_, -, rfl⟩ := List.mem_map.1 hu <;> simp [Write.jobId]
    rw [DispatchPlan.writes, List.append_assoc, List.foldl_append, skip]
    unfold markJobRunning
    split
    · next hq =>
      simp only [List.foldl_cons, List.foldl_nil, Write.jobId, Option.some.injEq]
      split
      · next he =>
        subst he
        cases hp.job.row.symm.trans hj
        exact .running now hq
      · exact .same
    · exact .same
  · exact Db.find_job_foldl_none
  · exact fun _ => .inl (by rw [outputs.1])
  · intro id t t' ht ht' hne he
    rw [row ht] at ht'
    split at ht' <;> cases ht'
    · cases he
    · exact absurd he hne
  · intro f hf
    exact .inl (outputs.2 ▸ hf)

end Effects

/-- Every commit of a delivery that meets its assertion is an effect of the state diagram. -/
theorem Commits.effect {held : Lock → Prop} {d : Db} {p q : Proc} {ws : List Write} {roster : Option Roster}
    (h : Commits plus p ws q) (hA : p.Holds held d) (hU : p.Uses roster) :
    Effect (p.act roster) d (ws.foldl Db.write d) := by
  cases h with
  | dispatch c p =>
    cases hU
    exact effect_dispatch hA.1 c.now
  | refuse c task status reason =>
    obtain ⟨hs, hc⟩ := refusal_eq_some hA.2
    refine effect_terminal [task.id] rfl hs hc fun id hid t ht => ?_
    cases List.mem_singleton.1 hid
    cases hA.1.row.symm.trans ht
    exact ⟨rfl, by rw [hA.1.queued]; rfl⟩
  | start c task run =>
    cases hU
    refine effect_task task.id rfl rfl rfl fun t ht => ?_
    cases hA.1.row.symm.trans ht
    obtain ⟨hc, hk⟩ := refusal_eq_none hA.2.1
    exact ⟨.started c.now hA.1.queued hc hk, .inr rfl⟩
  | finish c run task v =>
    obtain ⟨hrec, hno⟩ := hA
    obtain ⟨outcome, rfl⟩ := hrec.verdict
    obtain ⟨hs, hcomp, hrows⟩ := verdict_spec c task outcome
    cases hr : (verdict c task outcome).rows with
    | none =>
      rw [show (verdict c task outcome).writes task c.finished =
        [task.id].map fun id => .taskTerminal id (verdict c task outcome).status (verdict c task outcome).reason c.finished
        by simp [Verdict.writes, hr]]
      refine effect_terminal _ rfl hs (hcomp hr) fun id hid t ht => ?_
      cases List.mem_singleton.1 hid
      cases hrec.row.symm.trans ht
      exact ⟨hrec.job_id, by rw [hrec.running]; rfl⟩
    | some rows =>
      obtain ⟨hst, hcan, hid, horg, hfs⟩ := hrows rows hr
      rw [show (verdict c task outcome).writes task c.finished =
        Write.insertResult rows.1 :: rows.2.map Write.insertFinding ++
          [Write.taskTerminal task.id .completed (verdict c task outcome).reason c.finished] by simp [Verdict.writes, hr, hst]]
      exact effect_complete (by rw [hrec.job_id]; rfl) hrec.row hrec.running hcan (hno (by rw [hr]; rfl)) hid horg hfs
  | reap c live =>
    refine effect_terminal _ rfl rfl (by decide) fun id hid t ht => ?_
    obtain ⟨-, t₂, ht₂, hl⟩ := hA id hid
    cases ht.symm.trans ht₂
    simpa [isLiveOf] using hl
  | close f job outcome => exact effect_close hA.1.row hA.1.live hA.2.2
  | cancel c =>
    exact effect_task c.taskId rfl rfl rfl fun t ht => ⟨.canceled _, .inl rfl⟩

/-! ### The next assertion -/

theorem planDispatch_spec {held : Lock → Prop} {d : Db} {c : DispatchCall} {job : ScanJob} {p : DispatchPlan}
    (hj : JobHeld held d job) (hid : job.id = c.jobId) (h : planDispatch c job (d.tasksOf job.id) = some p) :
    PlanHeld held d c p := by
  have vanished : ∀ {tasks : List ScanTask} {id}, id ∈ (sortTasks c.roster tasks).1 →
      ∃ t ∈ tasks, t.status = .queued ∧ t.id = id ∧ ¬ knows c.roster t.testKey := by
    intro tasks id hv
    obtain ⟨t, ht, hm⟩ := List.mem_filterMap.1 hv
    obtain ⟨ht, hq⟩ := List.mem_filter.1 ht
    split at hm
    · next e he =>
      cases hm
      refine ⟨t, ht, by simp_all, rfl, ?_⟩
      rintro ⟨queue, hqueue⟩
      rw [he] at hqueue; cases hqueue
    · cases hm
  rcases planDispatch_cases h with ⟨hnil, roster, specs, created, hr, hs, hc, rfl⟩ | ⟨-, rfl⟩
  · have hspec := fun t (ht : t ∈ created) => createTasks_spec hs hc ht
    have hnone : (sortTasks c.roster created).1 = [] := by
      refine List.eq_nil_iff_forall_not_mem.2 fun id hv => ?_
      obtain ⟨t, ht, hq, -, hk⟩ := vanished hv
      obtain ⟨queue, hqueue⟩ := (hspec t ht).2.2.2 hq
      exact hk ⟨queue, by rw [hr]; exact hqueue⟩
    exact ⟨hj, hid, fun t ht => ⟨(hspec t ht).1, (hspec t ht).2.1, (hspec t ht).2.2.1⟩, .inr ⟨hnone, hnil⟩, by simp [hnone]⟩
  · refine ⟨hj, hid, by simp, .inl rfl, fun id hv => ?_⟩
    obtain ⟨t, ht, -, rfl, hk⟩ := vanished hv
    obtain ⟨ht, hjob⟩ := Db.mem_tasksOf.1 ht
    exact ⟨t, d.tasks.find_of_mem ht, hjob, hk⟩

theorem find_filter_eq_some {α : Type} {o : Option α} {sees : α → Bool} {a : α} (h : o.filter sees = some a) :
    o = some a ∧ sees a = true := by
  rwa [Option.filter_eq_some_iff] at h

section Locking
variable {held : Lock → Prop} {d : Db}

theorem jobHeld_of_lock {jobId : Uuid} {job : ScanJob} (hrow : d.jobs.find jobId = some job) (hlock : held (.job jobId))
    (hopen : job.status.terminal = false) : JobHeld held d job := by
  have hid : job.id = jobId := Table.key_of_find hrow
  exact ⟨hid ▸ hlock, hid ▸ hrow, hopen⟩

theorem taskHeld_of_lock {taskId : Uuid} {task : ScanTask} (hrow : d.tasks.find taskId = some task)
    (hlock : held (.task taskId)) : TaskHeld held d task := by
  have hid : task.id = taskId := Table.key_of_find hrow
  exact ⟨hid ▸ hlock, hid ▸ hrow⟩

end Locking

theorem Proc.Holds.next {held held' : Lock → Prop} {d : Db} {p : Proc} {m : Step} (h : go plus d p = some m)
    (hA : p.Holds held d) (hk : Keeps held held' m.op) : m.next.Holds held' (m.op.effect Db.write d) := by
  -- more locks do not harm an assertion
  have keep : ∀ {q : Proc}, (∀ k, held k → held' k) → q.Holds held d → q.Holds held' d := fun hk hq =>
    hq.stable hk (fun k _ => (rows plus).agree_refl k d) (.refl ⟨fun _ => True, none, [], none⟩ d)
  cases go_leads h with
  | ends _ _ hq => rcases hq with rfl | rfl <;> trivial
  | commits _ hcommits =>
    cases hcommits with
    | start c task run =>
      refine ⟨_, Db.find_task_foldl (hA.1.id_eq ▸ hA.1.row), ?_⟩
      simp [Write.taskId, Write.onTask, hA.1.id_eq, hA.2.2]
    | _ => trivial
  | @sends _ _ next | @sent next =>
    cases next with
    | engine => exact hA
    | finalize | done => trivial
  | beats => trivial
  | @locked c job hrow hopen =>
    have hlock := (hk.lock _ rfl).2 (.job c.jobId) (by simp)
    exact ⟨jobHeld_of_lock hrow hlock hopen, Table.key_of_find hrow⟩
  | planned hplan => exact keep (hk.read rfl) (planDispatch_spec hA.1 hA.2 hplan)
  | @inserted c pl _ hnew =>
    obtain ⟨hkeep, hlock⟩ := hk.lock _ rfl
    refine ⟨(keep (q := .dispatchInsert c pl) hkeep hA :), fun t ht => ?_, fun id hid => .inl hid⟩
    have hid : t.id ∈ pl.created.map ScanTask.id := List.mem_map_of_mem ht
    exact ⟨hlock _ (List.mem_map_of_mem hid), hnew _ hid⟩
  | @blocks c pl id todo =>
    obtain ⟨hkeep, hlock⟩ := hk.lock _ rfl
    obtain ⟨hp, hnew, hvan⟩ := keep (q := .dispatchBlock c pl (id :: todo)) hkeep hA
    refine ⟨hp, hnew, fun id' hid' => ?_⟩
    rcases hvan id' hid' with hm | hm
    · rcases List.mem_cons.1 hm with rfl | hm
      · exact .inr (hlock _ (by simp))
      · exact .inl hm
    · exact .inr hm
  | @blocked c pl =>
    exact keep (q := .dispatchCommit c pl) (hk.read rfl) ⟨hA.1, hA.2.1, fun id hid => (hA.2.2 id hid).resolve_left (by simp)⟩
  | @refuses c task status reason htask hqueued hrefusal =>
    obtain ⟨hrow, hsees⟩ := find_filter_eq_some htask
    have hlock := (hk.lock _ rfl).2 (.task c.taskId) (by simp)
    exact ⟨⟨taskHeld_of_lock hrow hlock, Table.key_of_find hrow, hqueued, hsees⟩, hrefusal⟩
  | @takes c task htask hqueued hrefusal =>
    obtain ⟨hrow, hsees⟩ := find_filter_eq_some htask
    have hlock := (hk.lock _ rfl).2 (.task c.taskId) (by simp)
    exact ⟨⟨taskHeld_of_lock hrow hlock, Table.key_of_find hrow, hqueued, hsees⟩, hrefusal⟩
  | @readsAsset c task targetDomain => exact keep (q := .readUpload c task targetDomain) (hk.read rfl) hA
  | @readsUpload c task targetDomain filePath => exact keep (q := .start c task _) (hk.read rfl) ⟨hA.1, hA.2, rfl⟩
  | ran => exact hA
  | @records c run outcome task htask hopen =>
    obtain ⟨t, ht, hj, hq⟩ := hA
    have hlock := (hk.lock _ rfl).2 (.task c.taskId) (by simp)
    obtain ⟨hrow, hsees⟩ := find_filter_eq_some htask
    cases ht.symm.trans hrow
    refine ⟨taskHeld_of_lock hrow hlock, Table.key_of_find hrow, ?_, hj, hsees, outcome, rfl⟩
    cases hst : task.status <;> simp_all
  | @persists c run task v hnew => exact keep (q := .finish c run task v) (hk.read rfl) ⟨hA, fun hr => by simpa [hr] using hnew⟩
  | lists => exact fun id hid => by cases hid
  | @rechecks c id todo live =>
    obtain ⟨hkeep, hlock⟩ := hk.lock _ rfl
    have hlive : LiveHeld held' d c live := keep (q := .reapCommit c live) hkeep hA
    dsimp only
    split
    next hany =>
      intro id' hid'
      rcases List.mem_append.1 hid' with hid' | hid'
      · exact hlive id' hid'
      · cases List.mem_singleton.1 hid'
        obtain ⟨t, ht, hl⟩ := (Option.any_eq_true ..).1 hany
        exact ⟨hlock _ (by simp), t, ht, hl⟩
    · exact hlive
  | @rechecked c live => exact keep (q := .reapCommit c live) (hk.read rfl) hA
  | @counts f job hjob hopen =>
    have hlock := (hk.lock _ rfl).2 (.job f.jobId) (by simp)
    obtain ⟨hrow, -⟩ := find_filter_eq_some hjob
    exact ⟨jobHeld_of_lock hrow hlock hopen, Table.key_of_find hrow⟩
  | @counted f job outcome houtcome =>
    exact keep (q := .close f job outcome) (hk.read rfl) ⟨hA.1, hA.2, deriveJobOutcome_terminal houtcome⟩
  | cancels => exact (hk.lock _ rfl).2 _ (by simp)

/-! ### Runs -/

/-- The assertions outline the worker; every statement guarantees an arrow of the state diagram. -/
def outline (plus : Time → Time) : Outline (pipeline plus) where
  rows := rows plus
  holds p held d := p.Holds held d
  guar d d' := ∃ a, Effect a d d'
  stable h hk hagree := fun ⟨_, he⟩ => h.stable hk hagree he
  covered hm h hop := (Commits.of_move hm hop).covered h
  guarantees {p _ d c m} hm h := by
    obtain ⟨roster, hU⟩ := p.exists_uses
    refine ⟨p.act roster, ?_⟩
    cases hop : m.op with
    | commit ws => exact (Commits.of_move hm hop).effect h hU
    | read | lock | unlock | rollback => exact .refl _ _
  next {p _ _ d c m} hm h hk := by
    by_cases hc : c = .go
    · subst hc
      exact Proc.Holds.next hm h hk
    · cases rollback_of_ne_go hm hc
      trivial

section Runs
variable {π : Type} [DecidableEq π]

/-- The worlds of the pipeline. -/
abbrev Deployment (π : Type) := World π Lock Db Proc Message

/-- The steps of a run. -/
abbrev Steps (π : Type) := List (Taken π Lock Write Db Proc Message)

/-- The delivery of process `i` is not killed, and no statement of it fails for a reason of its own. -/
def Unharmed (i : π) (_ : Deployment π) (a : π × Choice) : Prop := a.1 = i → a.2 = .go

instance (i : π) (w : Deployment π) (a : π × Choice) : Decidable (Unharmed i w a) :=
  inferInstanceAs (Decidable (a.1 = i → a.2 = .go))

def Proc.Entry : Proc → Prop
  | .dispatch _ | .runModule _ | .reap _ | .cancel _ | .heartbeat _ | .done => True
  | _ => False

/-- Queued jobs, perhaps with queued tasks of their own, and deliveries that have not begun. -/
structure Start (w : Deployment π) : Prop where
  entry : ∀ i, (w.proc i).Entry
  unlocked : ∀ k, w.owner k = none
  trace : w.trace = []
  jobs : ∀ id job, w.db.jobs.find id = some job → job.status = .queued
  tasks : ∀ id t, w.db.tasks.find id = some t → t.status = .queued
  owned : Owned w.db
  results : w.db.results.rows = []
  findings : w.db.findings = []

/-- Every delivery meets its assertion, and tasks belong to their jobs. -/
structure Base (w : Deployment π) : Prop where
  holds : ∀ i, (w.proc i).Holds (fun k => w.owner k = some i) w.db
  owned : Owned w.db

variable {w w₀ : Deployment π} {i : π} {c : Choice} {m : Step}

theorem Proc.Entry.holds {p : Proc} (h : p.Entry) (held : Lock → Prop) (d : Db) : p.Holds held d := by
  cases p <;> trivial

theorem effect_of_fires {roster : Option Roster} (hA : (w.proc i).Holds (fun k => w.owner k = some i) w.db)
    (hU : (w.proc i).Uses roster) (hm : (pipeline plus).Fires w i c m) :
    Effect ((w.proc i).act roster) w.db ((pipeline plus).after w i m).db := by
  rw [System.db_after]
  cases hop : m.op with
  | commit ws => exact (Commits.of_move hm.1 hop).effect hA hU
  | read | lock | unlock | rollback => exact .refl _ _

theorem Base.of_run {C : Deployment π → π × Choice → Prop} (hb : Base w₀) (h : (pipeline plus).Run C w₀ w) : Base w := by
  have hholds : ∀ {w}, (pipeline plus).Run C w₀ w → ∀ i, (outline plus).At w i := fun h => Outline.of_run h hb.holds
  refine ⟨hholds h, ?_⟩
  refine (h.using hholds).invariant (I := fun v => Owned v.db) hb.owned fun v i c m ho ⟨_, hat⟩ hm => ?_
  obtain ⟨a, he⟩ := Outline.guar_of_fires (hat i) hm
  exact he.owned ho

theorem base_of_run {C : Deployment π → π × Choice → Prop} (h₀ : Start w₀) (h : (pipeline plus).Run C w₀ w) : Base w :=
  Base.of_run ⟨fun i => (h₀.entry i).holds _ _, h₀.owned⟩ h

end Runs

end TestingPlatform.Scan
