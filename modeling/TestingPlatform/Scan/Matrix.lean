import TestingPlatform.Scan.Results

/-!
# The task matrix of a job

`dispatch` is redelivered by design: it creates the task rows when it finds none. The check and the rows it
commits are two statements, between which the job stays locked; so the rows read are still all there
(`Planned`), and the first dispatch that commits creates the matrix while every later one leaves it alone
(`Matrix`). The same lock makes `started_at` the time of that first commit.
-/

namespace TestingPlatform.Scan

open ReadCommitted

variable {π : Type} [DecidableEq π] {plus : Time → Time}

/-! ### Inserted rows -/

namespace Write

def inserted : Write → Option ScanTask
  | insertTask task => some task
  | _ => none

/-- The start that a write gives the job. -/
def starts (jobId : Uuid) : Write → Option Time
  | jobRunning id now => if id = jobId then some now else none
  | _ => none

end Write

/-- The task rows of the job that the writes insert. -/
def insertsFor (jobId : Uuid) (ws : List Write) : List ScanTask :=
  (ws.filterMap Write.inserted).filter fun t => t.scanJobId = jobId

/-- What tells the rows of a matrix apart, none of which is ever written again. -/
def entryOf (t : ScanTask) : Uuid × ScanModule × String := (t.id, t.module, t.testKey)

theorem Write.onTask_entryOf (u : Write) (t : ScanTask) : entryOf (u.onTask t) = entryOf t := by cases u <;> rfl

namespace Db
variable {d : Db} {u : Write} {ws : List Write} {jobId : Uuid}

theorem entries_write (hfresh : ∀ t, u = .insertTask t → d.tasks.find t.id = none) :
    ((d.write u).tasksOf jobId).map entryOf =
      (d.tasksOf jobId).map entryOf ++ (insertsFor jobId [u]).map entryOf := by
  have modified : ∀ {id : Uuid},
      (((d.tasks.modify id u.onTask u.onTask_id).rows.filter fun t => t.scanJobId = jobId).map entryOf) =
        (d.tasksOf jobId).map entryOf := by
    intro id
    rw [Table.rows_modify, List.filter_map, List.map_map]
    have hjob : (fun t => decide (ScanTask.scanJobId t = jobId)) ∘ (fun t => if t.id = id then u.onTask t else t) =
        fun t => decide (t.scanJobId = jobId) := by
      funext t
      dsimp only [Function.comp]
      split
      · rw [Write.onTask_scanJobId]
      · rfl
    rw [hjob, tasksOf]
    refine List.map_congr_left fun t _ => ?_
    dsimp only [Function.comp]
    split
    · exact Write.onTask_entryOf u t
    · rfl
  cases u with
  | insertTask task =>
    show (((d.tasks.insert task).rows.filter fun t => t.scanJobId = jobId).map entryOf) = _
    rw [Table.rows_insert (hfresh task rfl), List.filter_append, List.map_append]
    rfl
  | taskRunning | taskTerminal | taskCancellation => exact modified.trans (List.append_nil _).symm
  | jobRunning | jobClosed | insertResult | insertFinding => exact (List.append_nil _).symm

theorem entries_foldl (hfresh : ∀ t ∈ ws.filterMap Write.inserted, d.tasks.find t.id = none)
    (hnodup : ((ws.filterMap Write.inserted).map ScanTask.id).Nodup) :
    ((ws.foldl write d).tasksOf jobId).map entryOf =
      (d.tasksOf jobId).map entryOf ++ (insertsFor jobId ws).map entryOf := by
  induction ws generalizing d with
  | nil => exact (List.append_nil _).symm
  | cons u ws ih =>
    have hcons : insertsFor jobId (u :: ws) = insertsFor jobId [u] ++ insertsFor jobId ws := by
      rw [insertsFor, insertsFor, insertsFor, ← List.filter_append, ← List.filterMap_append]
      rfl
    have hu : ∀ t, u = .insertTask t → d.tasks.find t.id = none := fun t ht =>
      hfresh t (List.mem_filterMap.2 ⟨u, List.mem_cons_self, by rw [ht]; rfl⟩)
    have hrest : ∀ t ∈ ws.filterMap Write.inserted, (d.write u).tasks.find t.id = none := fun t ht => by
      obtain ⟨v, hv, hins⟩ := List.mem_filterMap.1 ht
      have hnone := hfresh t (List.mem_filterMap.2 ⟨v, List.mem_cons_of_mem _ hv, hins⟩)
      cases u with
      | insertTask task =>
        have hne : task.id ≠ t.id := fun he => by
          simp only [List.filterMap_cons, Write.inserted, List.map_cons, List.nodup_cons] at hnodup
          exact hnodup.1 (he ▸ List.mem_map_of_mem ht)
        exact (Table.find_insert_of_ne hne).trans hnone
      | _ => exact find_task_write_none (by simp) hnone
    have hnodup' : ((ws.filterMap Write.inserted).map ScanTask.id).Nodup := by
      rw [List.filterMap_cons] at hnodup
      split at hnodup
      · exact hnodup
      · exact (List.nodup_cons.1 hnodup).2
    rw [List.foldl_cons, ih hrest hnodup', entries_write hu, hcons, List.map_append, List.append_assoc]

end Db

/-! ### From the read to the commit -/

/-- The plan is that of the rows `dispatch` has read, and the job has rows exactly when it had some then. -/
def Planned (d : Db) (c : DispatchCall) (p : DispatchPlan) : Prop :=
  ∃ tasks, planDispatch c p.job tasks = some p ∧ (tasks = [] ↔ d.tasksOf p.job.id = [])

/-- What a dispatch knows of its plan before its next statement. -/
def Proc.Plans (d : Db) : Proc → Prop
  | .dispatchInsert c p => Planned d c p
  | .dispatchBlock c p _ | .dispatchCommit c p => Planned d c p ∧ (p.created.map ScanTask.id).Nodup
  | _ => True

theorem planDispatch_job {c : DispatchCall} {job : ScanJob} {tasks : List ScanTask} {p : DispatchPlan}
    (h : planDispatch c job tasks = some p) : p.job = job := by
  rcases planDispatch_cases h with ⟨-, -, -, created, -, -, -, rfl⟩ | ⟨-, rfl⟩
  · rfl
  · rfl

theorem planDispatch_created {c : DispatchCall} {job : ScanJob} {tasks : List ScanTask} {p : DispatchPlan} {r : Roster}
    (h : planDispatch c job tasks = some p) (hr : c.roster = some r) :
    (tasks ≠ [] → p.created = []) ∧
      (tasks = [] → (p.created.map fun t => (t.module, t.testKey)) = requestedTests job.modules) ∧
      ∀ t ∈ p.created, t.scanJobId = job.id ∧ (t.status = .blocked ∨ knows (some r) t.testKey) := by
  rcases planDispatch_cases h with ⟨hnil, roster, specs, created, hroster, hs, hc, rfl⟩ | ⟨hne, rfl⟩
  · rw [hr] at hroster
    cases hroster
    refine ⟨fun hne => absurd hnil hne, fun _ => createTasks_requestedTests hs hc, fun t ht => ?_⟩
    obtain ⟨hjob, -, hst, hknown⟩ := createTasks_spec hs hc ht
    exact ⟨hjob, hst.symm.imp_right fun hq => hknown hq⟩
  · exact ⟨fun _ => rfl, fun hnil => absurd hnil hne, by simp⟩

theorem Proc.Plans.next {d : Db} {p : Proc} {m : Step} (h : go plus d p = some m) (hP : p.Plans d) :
    m.next.Plans (m.op.effect Db.write d) := by
  cases go_leads h with
  | ends _ _ hq => rcases hq with rfl | rfl <;> trivial
  | commits _ hcommits => cases hcommits <;> trivial
  | @sent next => cases next <;> trivial
  | planned hplan =>
    obtain rfl := planDispatch_job hplan
    exact ⟨_, hplan, Iff.rfl⟩
  | inserted hnodup => exact ⟨hP, hnodup⟩
  | blocks | blocked => exact hP
  | _ => trivial

theorem tasksOf_eq_nil_iff {a : Act} {d d' : Db} {jobId : Uuid} (he : Effect a d d')
    (hagree : (Lock.job jobId).agree d d') : d'.tasksOf jobId = [] ↔ d.tasksOf jobId = [] := by
  constructor
  · intro hnil
    refine List.eq_nil_iff_forall_not_mem.2 fun t ht => ?_
    obtain ⟨hmem, hjob⟩ := Db.mem_tasksOf.1 ht
    obtain ⟨t', ht', hc⟩ := he.task (d.tasks.find_of_mem hmem)
    have hmem' := Db.mem_tasksOf.2 ⟨Table.mem_of_find ht', hc.scanJobId_eq.trans hjob⟩
    rw [hnil] at hmem'
    cases hmem'
  · intro hnil
    refine List.eq_nil_iff_forall_not_mem.2 fun t' ht' => ?_
    obtain ⟨t, ht, -⟩ := hagree.2 t' ht'
    rw [hnil] at ht
    cases ht

theorem Proc.Plans.stable {a : Act} {d d' : Db} {held : Lock → Prop} {p : Proc} (hP : p.Plans d) (hA : p.Holds held d)
    (he : Effect a d d') (hagree : ∀ k, held k → k.agree d d') : p.Plans d' := by
  have planned : ∀ {c : DispatchCall} {p : DispatchPlan}, PlanHeld held d c p → Planned d c p → Planned d' c p := by
    rintro c p hheld ⟨tasks, hplan, hiff⟩
    exact ⟨tasks, hplan, hiff.trans (tasksOf_eq_nil_iff he (hagree _ hheld.job.lock)).symm⟩
  cases p with
  | dispatchInsert => exact planned hA hP
  | dispatchBlock | dispatchCommit => exact ⟨planned hA.1 hP.1, hP.2⟩
  | _ => trivial

section Runs
variable {C : Deployment π → π × Choice → Prop} {w₀ w : Deployment π} {i : π} {c : Choice} {m : Step}

theorem agree_of_ne {j : π} (hb : Base w) (hij : j ≠ i) (hm : (pipeline plus).Fires w i c m) {k : Lock}
    (hk : w.owner k = some j) : k.agree w.db ((pipeline plus).after w i m).db :=
  (rows plus).agree_of_owner (fun _ hop u hu k hk => (Commits.of_move hm.1 hop).covered (hb.holds i) u hu k hk) hij hk

theorem plans_step (hb : Base w) (hP : ∀ i, (w.proc i).Plans w.db) (hm : (pipeline plus).Fires w i c m) (j : π) :
    (((pipeline plus).after w i m).proc j).Plans ((pipeline plus).after w i m).db := by
  by_cases hij : j = i
  · subst hij
    rw [System.proc_after_self]
    by_cases hc : c = .go
    · subst hc
      exact (hP j).next hm.1
    · cases rollback_of_ne_go hm.1 hc
      trivial
  · rw [System.proc_after_of_ne hij]
    obtain ⟨roster, hU⟩ := (w.proc i).exists_uses
    exact (hP j).stable (hb.holds j) (effect_of_fires (hb.holds i) hU hm) fun k hk => agree_of_ne hb hij hm hk

theorem plans_of_run (h₀ : Start w₀) (h : (pipeline plus).Run C w₀ w) : ∀ i, (w.proc i).Plans w.db := by
  have hbase : ∀ {v}, (pipeline plus).Run C w₀ v → Base v := fun hv => base_of_run h₀ hv
  have hentry : ∀ i, (w₀.proc i).Plans w₀.db := fun i => by
    have he := h₀.entry i
    generalize w₀.proc i = p at he
    cases p <;> trivial
  exact (h.using hbase).invariant (I := fun v => ∀ i, (v.proc i).Plans v.db) hentry
    fun v i c m hP ⟨_, hb⟩ hm => plans_step hb hP hm

end Runs

/-! ### One commit -/

def Proc.creating : Proc → List ScanTask
  | .dispatchCommit _ p => p.created
  | _ => []

def Proc.starting (jobId : Uuid) : Proc → List Time
  | .dispatchCommit c p => if p.job.status = .queued ∧ p.job.id = jobId then [c.now] else []
  | _ => []

section Commit
variable {p q : Proc} {ws : List Write}

theorem of_mem_verdictWrites {v : Verdict} {task : ScanTask} {now : Time} {u : Write} (hu : u ∈ v.writes task now) :
    u.inserted = none ∧ (∀ jobId, u.starts jobId = none) ∧ u.jobId = none := by
  rw [Verdict.writes, List.mem_append] at hu
  rcases hu with hu | hu
  · split at hu
    · cases hu
    · rcases List.mem_cons.1 hu with rfl | hu
      · exact ⟨rfl, fun _ => rfl, rfl⟩
      · obtain ⟨g, -, rfl⟩ := List.mem_map.1 hu
        exact ⟨rfl, fun _ => rfl, rfl⟩
  · rw [List.mem_singleton.1 hu]
    exact ⟨rfl, fun _ => rfl, rfl⟩

theorem Commits.creates (h : Commits plus p ws q) :
    ws.filterMap Write.inserted = p.creating ∧ ∀ jobId, ws.filterMap (Write.starts jobId) = p.starting jobId := by
  cases h with
  | dispatch c p =>
    have hcreated : (p.created.map Write.insertTask).filterMap Write.inserted = p.created := by
      rw [List.filterMap_map]
      exact List.filterMap_some
    have hvanished : ∀ {α : Type} (f : Write → Option α), (∀ id status reason now, f (.taskTerminal id status reason now) = none) →
        (p.vanished.map fun id => Write.taskTerminal id .blocked (some reasonModuleUnavailable) c.now).filterMap f = [] := by
      intro α f hf
      rw [List.filterMap_map, List.filterMap_eq_nil_iff]
      exact fun id _ => hf _ _ _ _
    constructor
    · rw [DispatchPlan.writes, List.filterMap_append, List.filterMap_append, hcreated, hvanished _ fun _ _ _ _ => rfl]
      unfold markJobRunning
      split <;> simp [Write.inserted, Proc.creating]
    · intro jobId
      have hnone : (p.created.map Write.insertTask).filterMap (Write.starts jobId) = [] := by
        rw [List.filterMap_map, List.filterMap_eq_nil_iff]
        exact fun t _ => rfl
      rw [DispatchPlan.writes, List.filterMap_append, List.filterMap_append, hnone, hvanished _ fun _ _ _ _ => rfl,
        Proc.starting, markJobRunning]
      by_cases hq : p.job.status = .queued <;> by_cases hid : p.job.id = jobId <;> simp [hq, hid, Write.starts]
  | reap c live =>
    have hnone : ∀ {α : Type} (f : Write → Option α), (∀ id status reason now, f (.taskTerminal id status reason now) = none) →
        (live.map fun id => Write.taskTerminal id .failed (some reasonJobTimeout) c.swept).filterMap f = [] := by
      intro α f hf
      rw [List.filterMap_map, List.filterMap_eq_nil_iff]
      exact fun id _ => hf _ _ _ _
    exact ⟨hnone _ fun _ _ _ _ => rfl, fun jobId => hnone _ fun _ _ _ _ => rfl⟩
  | finish c run task v =>
    exact ⟨List.filterMap_eq_nil_iff.2 fun u hu => (of_mem_verdictWrites hu).1,
      fun jobId => List.filterMap_eq_nil_iff.2 fun u hu => (of_mem_verdictWrites hu).2.1 jobId⟩
  | refuse | start | close | cancel => exact ⟨rfl, fun _ => rfl⟩

/-- What a commit makes of a job: a dispatch of it starts it, a finalize call may close it. -/
theorem Commits.job {held : Lock → Prop} {d : Db} (h : Commits plus p ws q) (hA : p.Holds held d) {id : Uuid}
    {j : ScanJob} (hj : d.jobs.find id = some j) :
    ∃ j', (ws.foldl Db.write d).jobs.find id = some j' ∧ j'.modules = j.modules ∧
      ((∃ c p', p = .dispatchCommit c p' ∧ p'.job = j ∧
          j' = if j.status = .queued then { j with status := .running, startedAt := some c.now } else j) ∨
        (p.dispatching ≠ some id ∧ j'.startedAt = j.startedAt ∧ (j'.status = j.status ∨ j'.status.terminal = true))) := by
  have quiet : p.dispatching ≠ some id → (∀ u ∈ ws, u.jobId ≠ some id) →
      ∃ j', (ws.foldl Db.write d).jobs.find id = some j' ∧ j'.modules = j.modules ∧
        ((∃ c p', p = .dispatchCommit c p' ∧ p'.job = j ∧
            j' = if j.status = .queued then { j with status := .running, startedAt := some c.now } else j) ∨
          (p.dispatching ≠ some id ∧ j'.startedAt = j.startedAt ∧ (j'.status = j.status ∨ j'.status.terminal = true))) := by
    intro hd hws
    refine ⟨j, ?_, rfl, .inr ⟨hd, rfl, .inl rfl⟩⟩
    rw [Db.find_job_foldl hj, Db.foldl_onJob_eq hws]
  cases h with
  | dispatch c p =>
    by_cases hid : p.job.id = id
    · subst hid
      obtain rfl : p.job = j := Option.some.inj (hA.1.job.row.symm.trans hj)
      refine ⟨_, Db.find_job_foldl hj, ?_, .inl ⟨c, p, rfl, rfl, ?_⟩⟩
      all_goals
        have hrest : ∀ u ∈ p.created.map Write.insertTask ++
            p.vanished.map (fun id => Write.taskTerminal id .blocked (some reasonModuleUnavailable) c.now),
            u.jobId ≠ some p.job.id := fun u hu => by
          rcases List.mem_append.1 hu with hu | hu <;> obtain ⟨_, -, rfl⟩ := List.mem_map.1 hu <;> simp [Write.jobId]
        rw [DispatchPlan.writes, List.append_assoc, List.foldl_append, Db.foldl_onJob_eq hrest, markJobRunning]
        split <;> simp [Write.jobId, Write.onJob]
    · refine quiet (fun he => hid (Option.some.inj he)) fun u hu => ?_
      simp only [DispatchPlan.writes, List.mem_append, List.mem_map, markJobRunning] at hu
      rcases hu with (hu | ⟨t, -, rfl⟩) | ⟨k, -, rfl⟩
      · split at hu
        · rw [List.mem_singleton.1 hu]
          simpa [Write.jobId] using hid
        · cases hu
      · simp [Write.jobId]
      · simp [Write.jobId]
  | close f job outcome =>
    by_cases hid : job.id = id
    · subst hid
      refine ⟨_, Db.find_job_foldl hj, by simp [closeJob, Write.jobId, Write.onJob], .inr ⟨by simp [Proc.dispatching], ?_, .inr ?_⟩⟩
      · simp [closeJob, Write.jobId, Write.onJob]
      · simpa [closeJob, Write.jobId, Write.onJob] using hA.2.2
    · refine quiet (by simp [Proc.dispatching]) fun u hu => ?_
      rw [List.mem_singleton.1 hu]
      simpa [closeJob, Write.jobId] using hid
  | reap c live =>
    refine quiet (by simp [Proc.dispatching]) fun u hu => ?_
    obtain ⟨k, -, rfl⟩ := List.mem_map.1 hu
    simp [Write.jobId]
  | finish c run task v =>
    refine quiet (by simp [Proc.dispatching]) fun u hu => ?_
    rw [(of_mem_verdictWrites hu).2.2]
    simp
  | refuse | start | cancel => exact quiet (by simp [Proc.dispatching]) (by simp [Write.jobId])

theorem Commits.entries {held : Lock → Prop} {d : Db} (h : Commits plus p ws q) (hA : p.Holds held d) (hP : p.Plans d)
    (jobId : Uuid) :
    ((ws.foldl Db.write d).tasksOf jobId).map entryOf =
      (d.tasksOf jobId).map entryOf ++ (insertsFor jobId ws).map entryOf := by
  have hcreates := h.creates.1
  refine Db.entries_foldl ?_ ?_
  · intro t ht
    rw [hcreates] at ht
    cases p with
    | dispatchCommit c p => exact (hA.2.1 t ht).2
    | _ => cases ht
  · rw [hcreates]
    cases p with
    | dispatchCommit c p => exact hP.2
    | _ => exact List.nodup_nil

theorem Commits.insertsFor {held : Lock → Prop} {d : Db} (h : Commits plus p ws q) (hA : p.Holds held d) (jobId : Uuid) :
    insertsFor jobId ws = if p.dispatching = some jobId then p.creating else [] := by
  rw [Scan.insertsFor, h.creates.1]
  cases p with
  | dispatchCommit c p =>
    have hjob : ∀ t ∈ p.created, t.scanJobId = p.job.id := fun t ht => (hA.1.created_of t ht).1
    split
    · next hd =>
      have hid : p.job.id = jobId := Option.some.inj hd
      exact List.filter_eq_self.2 fun t ht => by simpa using (hjob t ht).trans hid
    · next hd =>
      refine List.filter_eq_nil_iff.2 fun t ht => ?_
      have hne : p.job.id ≠ jobId := fun he => hd (congrArg some he)
      rw [hjob t ht]
      simpa using hne
  | _ => simp [Proc.creating]

end Commit

/-! ### The history of a job -/

def createdIn (jobId : Uuid) (H : Steps π) : List ScanTask := H.flatMap fun s => insertsFor jobId s.move.op.writes

def startsIn (jobId : Uuid) (H : Steps π) : List Time :=
  H.flatMap fun s => s.move.op.writes.filterMap (Write.starts jobId)

/-- A dispatch of the job has committed. -/
def Dispatched (jobId : Uuid) (H : Steps π) : Prop :=
  ∃ s ∈ H, (s.world.proc s.proc).dispatching = some jobId ∧ ∃ ws, s.move.op = .commit ws

/-- What the dispatches of a job have made of it. -/
structure Matrix (r : Roster) (job : ScanJob) (H : Steps π) (w : Deployment π) : Prop where
  /-- The rows were created once, one for each requested module and test of the catalog, in plan order. -/
  created : Dispatched job.id H → ((createdIn job.id H).map fun t => (t.module, t.testKey)) = requestedTests job.modules
  none : ¬ Dispatched job.id H → createdIn job.id H = []
  /-- The rows of the job are those that were created. -/
  rows : (w.db.tasksOf job.id).map entryOf = (createdIn job.id H).map entryOf
  /-- A task that was not blocked has a module. -/
  known : ∀ t ∈ w.db.tasksOf job.id, t.status = .blocked ∨ knows (some r) t.testKey
  /-- `started_at` was set by the first dispatch that committed, and not again. -/
  started : ∃ j, w.db.jobs.find job.id = some j ∧ j.modules = job.modules ∧
    (¬ Dispatched job.id H ∧ startsIn job.id H = [] ∧ j.startedAt = job.startedAt ∧ j.status ≠ .running ∨
      Dispatched job.id H ∧ ∃ t, startsIn job.id H = [t] ∧ j.startedAt = some t ∧ j.status ≠ .queued)

section History
variable {jobId : Uuid} {H : Steps π} {w : Deployment π} {i : π} {m : Step}

omit [DecidableEq π]

theorem createdIn_snoc : createdIn jobId (H ++ [⟨w, i, m⟩]) = createdIn jobId H ++ insertsFor jobId m.op.writes := by
  simp [createdIn]

theorem startsIn_snoc :
    startsIn jobId (H ++ [⟨w, i, m⟩]) = startsIn jobId H ++ m.op.writes.filterMap (Write.starts jobId) := by
  simp [startsIn]

theorem dispatched_snoc : Dispatched jobId (H ++ [⟨w, i, m⟩]) ↔
    Dispatched jobId H ∨ ((w.proc i).dispatching = some jobId ∧ ∃ ws, m.op = .commit ws) := by
  simp only [Dispatched, List.mem_append, List.mem_singleton, or_and_right, exists_or, exists_eq_left]

end History

/-! ### Runs of the matrix -/

section Runs
variable {C : Deployment π → π × Choice → Prop} {w₀ w : Deployment π} {i : π} {c : Choice} {m : Step} {r : Roster}
  {job : ScanJob} {H : Steps π}

omit [DecidableEq π] in
theorem known_commit {ws : List Write} (hb : Base w) (hP : (w.proc i).Plans w.db) (hU : (w.proc i).Uses (some r))
    (hcom : Commits plus (w.proc i) ws m.next) {jobId : Uuid}
    (hknown : ∀ t ∈ w.db.tasksOf jobId, t.status = .blocked ∨ knows (some r) t.testKey) :
    ∀ t ∈ (ws.foldl Db.write w.db).tasksOf jobId, t.status = .blocked ∨ knows (some r) t.testKey := by
  intro t' ht'
  have heff := hcom.effect (hb.holds i) hU
  obtain ⟨hmem, hjob⟩ := Db.mem_tasksOf.1 ht'
  have hfind := Table.find_of_mem hmem
  rcases heff.before hfind with ⟨t, ht, hc⟩ | hnone
  · have hold := Db.mem_tasksOf.2 ⟨Table.mem_of_find ht, hc.scanJobId_eq.symm.trans hjob⟩
    rw [hc.testKey_eq]
    exact (hknown t hold).imp_left hc.blocked_mono
  · -- a new row is one of the matrix that the plan made
    have hd := (heff.created hnone hfind).1
    have hholds := hb.holds i
    generalize w.proc i = p at hcom hd hholds hP hU
    generalize m.next = q at hcom
    cases p with
    | dispatchCommit c p =>
      cases hcom
      obtain ⟨tasks, hplan, -⟩ := hP.1
      exact ((planDispatch_created hplan hU).2.2 t' (hholds.1.mem_created hnone hfind)).2
    | _ => cases hd

omit [DecidableEq π] in
theorem Matrix.dispatches {ws : List Write} (hM : Matrix r job H w) (hb : Base w) (hP : (w.proc i).Plans w.db)
    (hU : (w.proc i).Uses (some r)) (hcom : Commits plus (w.proc i) ws m.next)
    (hd : (w.proc i).dispatching = some job.id) :
    ((createdIn job.id H ++ insertsFor job.id ws).map fun t => (t.module, t.testKey)) = requestedTests job.modules := by
  obtain ⟨j, hj, hmodules, -⟩ := hM.started
  have hholds := hb.holds i
  rw [hcom.insertsFor hholds, if_pos hd]
  generalize w.proc i = p at hcom hd hholds hP hU
  cases p with
  | dispatchCommit c p =>
    have hid : p.job.id = job.id := Option.some.inj hd
    have hrow := hholds.1.job.row
    rw [hid, hj, Option.some.injEq] at hrow
    obtain ⟨tasks, hplan, hiff⟩ := hP.1
    obtain ⟨hsome, hnil, -⟩ := planDispatch_created hplan hU
    rw [hid] at hiff
    by_cases htasks : tasks = []
    · -- there was no row, so there is none now, and none has been created
      have hempty : createdIn job.id H = [] := by
        have hrows := hM.rows
        rw [hiff.1 htasks] at hrows
        exact List.map_eq_nil_iff.1 hrows.symm
      rw [hempty, List.nil_append, ← hmodules, hrow]
      exact hnil htasks
    · have hdispatched : Dispatched job.id H := by
        by_contra hnot
        have hrows := hM.rows
        rw [hM.none hnot, List.map_nil, List.map_eq_nil_iff] at hrows
        exact htasks (hiff.2 hrows)
      rw [Proc.creating, hsome htasks, List.append_nil]
      exact hM.created hdispatched
  | _ => cases hd

omit [DecidableEq π] in
theorem Matrix.starts {ws : List Write} (hM : Matrix r job H w) (hb : Base w)
    (hcom : Commits plus (w.proc i) ws m.next) :
    ∃ j, (ws.foldl Db.write w.db).jobs.find job.id = some j ∧ j.modules = job.modules ∧
      (¬ (Dispatched job.id H ∨ (w.proc i).dispatching = some job.id) ∧
          startsIn job.id H ++ ws.filterMap (Write.starts job.id) = [] ∧ j.startedAt = job.startedAt ∧ j.status ≠ .running ∨
        (Dispatched job.id H ∨ (w.proc i).dispatching = some job.id) ∧
          ∃ t, startsIn job.id H ++ ws.filterMap (Write.starts job.id) = [t] ∧ j.startedAt = some t ∧ j.status ≠ .queued) := by
  obtain ⟨j, hj, hmodules, hlife⟩ := hM.started
  have hholds := hb.holds i
  rw [hcom.creates.2]
  obtain ⟨j', hj', hmodules', hchange⟩ := hcom.job hholds hj
  refine ⟨j', hj', hmodules'.trans hmodules, ?_⟩
  rcases hchange with ⟨c, p', hp, hpj, he⟩ | ⟨hother, hat, hst⟩
  · rw [hp] at hholds ⊢
    have hkey : j.id = job.id := Table.key_of_find hj
    have hd : (Proc.dispatchCommit c p').dispatching = some job.id := by rw [← hkey, ← hpj]; rfl
    have hopen : j.status.terminal = false := hpj ▸ hholds.1.job.live
    right
    refine ⟨.inr hd, ?_⟩
    by_cases hq : j.status = .queued
    · rw [if_pos hq] at he
      have hnone : startsIn job.id H = [] := by
        rcases hlife with ⟨-, hnone, -⟩ | ⟨-, t, -, -, hne⟩
        · exact hnone
        · exact absurd hq hne
      refine ⟨c.now, ?_, by rw [he], by rw [he]; simp⟩
      rw [hnone, Proc.starting, hpj, if_pos ⟨hq, hkey⟩]
      rfl
    · rw [if_neg hq] at he
      have hrunning : j.status = .running := by
        cases hs : j.status with
        | running => rfl
        | queued => exact absurd hs hq
        | _ => rw [hs] at hopen; cases hopen
      rcases hlife with ⟨-, -, -, hne⟩ | ⟨-, t, hone, hat, -⟩
      · exact absurd hrunning hne
      · refine ⟨t, ?_, by rw [he, hat], by rw [he]; exact hq⟩
        rw [hone, Proc.starting, hpj, if_neg fun h => hq h.1]
        rfl
  · have hnone : (w.proc i).starting job.id = [] := by
      generalize w.proc i = p at hother
      cases p with
      | dispatchCommit c p => exact if_neg fun h => hother (congrArg some h.2)
      | _ => rfl
    rw [hnone, List.append_nil, or_iff_left hother]
    refine hlife.imp ?_ ?_
    · rintro ⟨hnot, hstarts, hat', hne⟩
      refine ⟨hnot, hstarts, hat.trans hat', fun hrun => ?_⟩
      rcases hst with hst | hst
      · exact hne (hst.symm.trans hrun)
      · rw [hrun] at hst
        cases hst
    · rintro ⟨hdispatched, t, hstarts, hat', hne⟩
      refine ⟨hdispatched, t, hstarts, hat.trans hat', fun hq => ?_⟩
      rcases hst with hst | hst
      · exact hne (hst.symm.trans hq)
      · rw [hq] at hst
        cases hst

theorem Matrix.step (hM : Matrix r job H w) (hb : Base w) (hP : (w.proc i).Plans w.db) (hU : (w.proc i).Uses (some r))
    (hm : (pipeline plus).Fires w i c m) : Matrix r job (H ++ [⟨w, i, m⟩]) ((pipeline plus).after w i m) := by
  by_cases hop : ∃ ws, m.op = .commit ws
  · obtain ⟨ws, hop⟩ := hop
    have hcom := Commits.of_move hm.1 hop
    have hdb : ((pipeline plus).after w i m).db = ws.foldl Db.write w.db := by rw [System.db_after, hop]; rfl
    have hwrites : m.op.writes = ws := by rw [hop]; rfl
    have hd : Dispatched job.id (H ++ [⟨w, i, m⟩]) ↔ Dispatched job.id H ∨ (w.proc i).dispatching = some job.id := by
      rw [dispatched_snoc, and_iff_left ⟨ws, hop⟩]
    constructor
    · rw [hd, createdIn_snoc, hwrites]
      intro hdispatched
      by_cases hdisp : (w.proc i).dispatching = some job.id
      · exact hM.dispatches hb hP hU hcom hdisp
      · rw [hcom.insertsFor (hb.holds i), if_neg hdisp, List.append_nil]
        exact hM.created (hdispatched.resolve_right hdisp)
    · rw [hd, createdIn_snoc, hwrites, hcom.insertsFor (hb.holds i)]
      intro hnot
      rw [not_or] at hnot
      rw [hM.none hnot.1, if_neg hnot.2]
      rfl
    · rw [hdb, createdIn_snoc, hwrites, hcom.entries (hb.holds i) hP, hM.rows, List.map_append]
    · rw [hdb]
      exact known_commit hb hP hU hcom hM.known
    · rw [hdb, hd, startsIn_snoc, hwrites]
      exact hM.starts hb hcom
  · have hdb : ((pipeline plus).after w i m).db = w.db := by
      rw [System.db_after]
      cases hm : m.op with
      | commit ws => exact absurd ⟨ws, hm⟩ hop
      | read | lock | unlock | rollback => rfl
    have hwrites : m.op.writes = [] := by
      cases hm : m.op with
      | commit ws => exact absurd ⟨ws, hm⟩ hop
      | read | lock | unlock | rollback => rfl
    have hd : Dispatched job.id (H ++ [⟨w, i, m⟩]) ↔ Dispatched job.id H := by
      rw [dispatched_snoc]
      exact or_iff_left fun h => hop h.2
    have hcreated : createdIn job.id (H ++ [⟨w, i, m⟩]) = createdIn job.id H := by
      rw [createdIn_snoc, hwrites]
      exact List.append_nil _
    have hstarts : startsIn job.id (H ++ [⟨w, i, m⟩]) = startsIn job.id H := by
      rw [startsIn_snoc, hwrites]
      exact List.append_nil _
    constructor
    · rw [hd, hcreated]; exact hM.created
    · rw [hd, hcreated]; exact hM.none
    · rw [hdb, hcreated]; exact hM.rows
    · rw [hdb]; exact hM.known
    · rw [hdb, hd, hstarts]; exact hM.started

theorem FixedRoster.of_run {roster : Option Roster} (hU : FixedRoster roster w₀) (h : (pipeline plus).Run C w₀ w) :
    FixedRoster roster w :=
  h.invariant (I := FixedRoster roster) hU fun _ _ _ _ hU _ hm => hU.step hm

theorem matrix_of_path (h₀ : Start w₀) (hU : FixedRoster (some r) w₀) (hjob : w₀.db.jobs.find job.id = some job)
    (hnone : w₀.db.tasksOf job.id = []) (h : (pipeline plus).Path C w₀ H w) : Matrix r job H w := by
  refine h.invariant (I := Matrix r job) ?_ fun H w i c m hrun hM _ hm =>
    hM.step (base_of_run h₀ hrun) (plans_of_run h₀ hrun i) (hU.of_run hrun i) hm
  have hnot : ¬ Dispatched job.id ([] : Steps π) := fun ⟨s, hs, _⟩ => by cases hs
  have hqueued := h₀.jobs _ _ hjob
  refine ⟨fun hd => absurd hd hnot, fun _ => rfl, by rw [hnone]; rfl, by simp [hnone], job, hjob, rfl, .inl ⟨hnot, rfl, rfl, ?_⟩⟩
  rw [hqueued]
  simp

end Runs

end TestingPlatform.Scan
