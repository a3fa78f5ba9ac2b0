import TestingPlatform.Scan.Deeds

/-!
# A delivery and the outcome of its task

A delivery that has started its task runs the module without a session and then records one outcome. The
exceptions of the module are caught and become a reason; what comes after, writing the result, is outside of
the `try`. When the database refuses a row of the result the transaction rolls back, the delivery ends
with the exception, and the task stays `running` (`refused_result_stays_running`). `Stage` follows
one delivery from its start to its end; `closes_own_task` says that the task ends with one outcome and a
finalize call exactly when the database takes the result, or there is none to write. A delivery that finds its task
closed by another leaves the finalize call to that one, which may be killed before it.
-/

namespace TestingPlatform.Scan

open ReadCommitted System

variable {π : Type} [DecidableEq π] {plus : Time → Time}

/-! ### How a delivery ends -/

/-- Phase 3 can record an outcome on these rows: the task has been closed meanwhile, it is to be canceled,
the module gave no result, or the database accepts the result. -/
def Recordable (c : RunModuleCall) (run : EngineRun) (d : Db) : Prop :=
  ∀ t, d.tasks.find c.taskId = some t → t.status.terminal = true ∨ t.cancellationRequestedAt.isSome = true ∨
    ∀ result, (runEngine c run).1 = .ok result → c.postgres.Accepts (persistResult t result c.finished c.uuid7)

/-- A U+0000 or a bare token in the result of an open task is enough for that it cannot. -/
theorem not_recordable_of_unstorable {c : RunModuleCall} {run : EngineRun} {d : Db} {t : ScanTask} {result : ModuleResult}
    (ht : d.tasks.find c.taskId = some t) (hopen : t.status.terminal = false) (hnone : t.cancellationRequestedAt = none)
    (hresult : (runEngine c run).1 = .ok result) (hbad : result.unstorable = true) : ¬ Recordable c run d := by
  intro h
  rcases h t ht with hterm | hreq | haccepts
  · rw [hopen] at hterm; cases hterm
  · rw [hnone] at hreq; cases hreq
  · exact c.postgres.refuses hbad t c.finished c.uuid7 (haccepts result hresult)

/-- The delivery has committed its verdict, and after it at most the close of the job. -/
structure Recorded (c : RunModuleCall) (run : EngineRun) (D : Deeds) : Prop where
  once : ∃ task rest, task.id = c.taskId ∧
    D.commits = (verdict c task (runEngine c run).1).writes task c.finished :: rest ∧
    ∀ ws ∈ rest, ∀ u ∈ ws, u.closesJob = true
  recordable : ∀ d ∈ D.recordedAt, Recordable c run d

/-- Phase 3 has found the task closed, and nothing was recorded. -/
structure Dropped (c : RunModuleCall) (D : Deeds) : Prop where
  none : D.commits = []
  closed : D.recordedAt ≠ [] ∧ ∀ d ∈ D.recordedAt, TaskClosed d c.taskId

/-- Phase 3 has locked the task, the database has refused the result, and nothing was recorded. -/
structure Refused (c : RunModuleCall) (run : EngineRun) (D : Deeds) : Prop where
  none : D.commits = []
  refused : ∃ d ∈ D.recordedAt, ¬ Recordable c run d

/-! ### Stages -/

/-- The delivery waits for its verdict: phase 3 has locked this task. -/
structure Pending (c : RunModuleCall) (run : EngineRun) (D : Deeds) (task : ScanTask) (v : Verdict) : Prop where
  verdict : v = verdict c task (runEngine c run).1
  none : D.commits = []
  locked : ∃ d, D.recordedAt = [d] ∧ d.tasks.find c.taskId = some task

/-- What the delivery has done when it stands at a statement. -/
def Stage (c : RunModuleCall) (run : EngineRun) (D : Deeds) (d : Db) : Proc → Prop
  | .publish _ (.engine c' run') | .engine c' run' =>
    c' = c ∧ run' = run ∧ D.commits = [] ∧ D.recordedAt = []
  | .record c' run' outcome =>
    c' = c ∧ run' = run ∧ outcome = (runEngine c run).1 ∧ D.commits = [] ∧ D.recordedAt = []
  | .persist c' run' task v => c' = c ∧ run' = run ∧ Pending c run D task v
  | .finish c' run' task v =>
    c' = c ∧ run' = run ∧ Pending c run D task v ∧ ∀ rows ∈ v.rows, c.postgres.acceptsResult rows.1 = true
  | .publish _ (.finalize f) | .finalize f => f.jobId = run.jobId ∧ TaskClosed d c.taskId ∧ Recorded c run D
  | .count .. | .close .. | .publish _ .done => TaskClosed d c.taskId ∧ Recorded c run D ∧ D.Finalizes run.jobId
  | .release => TaskClosed d c.taskId ∧ (Dropped c D ∨ Recorded c run D ∧ D.Finalizes run.jobId)
  | .done => TaskClosed d c.taskId ∧ (Dropped c D ∨ Recorded c run D ∧ D.Finalizes run.jobId) ∨ Refused c run D
  | _ => False

/-! ### What stands while the module runs -/

section Stable
variable {a : Act} {d d' : Db}

def Sees (c : RunModuleCall) (d : Db) : Prop := ∃ t, d.tasks.find c.taskId = some t ∧ c.access.seesTask t = true

theorem Sees.mono {c : RunModuleCall} (h : Sees c d) (he : Effect a d d') : Sees c d' := by
  obtain ⟨t, ht, hsees⟩ := h
  obtain ⟨t', ht', hc⟩ := he.task ht
  refine ⟨t', ht', ?_⟩
  have hpolicy : c.access.gucs.scanTaskPolicy t' = c.access.gucs.scanTaskPolicy t := by
    rw [Rls.Gucs.scanTaskPolicy, Rls.Gucs.scanTaskPolicy, hc.organizationId_eq, hc.scanJobId_eq]
  rw [Access.seesTask, hpolicy]
  exact hsees

def ResultsClosed (d : Db) : Prop := ∀ id, (d.results.find id).isSome = true → TaskClosed d id

theorem ResultsClosed.mono (h : ResultsClosed d) (he : Effect a d d') : ResultsClosed d' := by
  intro id hr
  rcases he.result id with hsame | ⟨t, t', r, -, -, ht', hcomp, -⟩
  · rw [hsame] at hr
    exact (h id hr).mono he
  · exact ⟨t', ht', by rw [hcomp]; rfl⟩

theorem Stage.mono {c : RunModuleCall} {run : EngineRun} {D : Deeds} {p : Proc} (h : Stage c run D d p)
    (he : Effect a d d') : Stage c run D d' p := by
  cases p with
  | publish messages next =>
    cases next with
    | engine => exact h
    | finalize => exact ⟨h.1, h.2.1.mono he, h.2.2⟩
    | done => exact ⟨h.1.mono he, h.2⟩
  | finalize => exact ⟨h.1, h.2.1.mono he, h.2.2⟩
  | count | close | release => exact ⟨h.1.mono he, h.2⟩
  | done => exact h.imp_left fun h => ⟨h.1.mono he, h.2⟩
  | _ => exact h

end Stable

/-! ### One statement of the delivery -/

section Statements
variable {c : RunModuleCall} {run : EngineRun} {D : Deeds} {d : Db} {task : ScanTask} {v : Verdict}

theorem Pending.recordable_iff (h : Pending c run D task v) (hrun : task.status = .running) :
    (∀ d ∈ D.recordedAt, Recordable c run d) ↔
      ∀ rows ∈ v.rows, c.postgres.Accepts rows := by
  obtain ⟨d, hat, hrow⟩ := h.locked
  have hopen : task.status.terminal = false := by rw [hrun]; rfl
  have hone : (∀ d ∈ D.recordedAt, Recordable c run d) ↔ task.cancellationRequestedAt.isSome = true ∨
      ∀ result, (runEngine c run).1 = .ok result → c.postgres.Accepts (persistResult task result c.finished c.uuid7) := by
    rw [hat, List.forall_mem_singleton, Recordable]
    simp [hrow, hopen]
  have hv := h.verdict
  rw [hone, hv]
  unfold Scan.verdict
  by_cases hreq : task.cancellationRequestedAt.isSome = true
  · simp [hreq]
  · rw [if_neg hreq]
    cases hout : (runEngine c run).1 with
    | error reason => simp
    | ok result => simp [hreq]

theorem Pending.refused (h : Pending c run D task v) (hrun : task.status = .running)
    (hrows : ¬ ∀ rows ∈ v.rows, c.postgres.Accepts rows) : Refused c run D := by
  refine ⟨h.none, ?_⟩
  have hnot := mt (h.recordable_iff hrun).1 hrows
  push Not at hnot
  exact hnot

theorem Recorded.finalize (h : Recorded c run D) {f : FinalizeCall} {ks : List Lock} :
    Recorded c run (D.add d (.finalize f) (.lock ks)) := by
  constructor
  · obtain ⟨task, rest, hid, hcommits, hrest⟩ := h.once
    exact ⟨task, rest, hid, (List.append_nil _).trans hcommits, hrest⟩
  · show ∀ d' ∈ D.recordedAt ++ [], Recordable c run d'
    rw [List.append_nil]
    exact h.recordable

theorem Recorded.close (h : Recorded c run D) {f : FinalizeCall} {job : ScanJob}
    {outcome : ScanJobStatus × Option String} :
    Recorded c run (D.add d (.close f job outcome) (.commit [closeJob plus f job outcome])) := by
  obtain ⟨⟨task, rest, hid, hcommits, hrest⟩, hrec⟩ := h
  refine ⟨⟨task, rest ++ [[closeJob plus f job outcome]], hid, ?_, ?_⟩, ?_⟩
  · show D.commits ++ [[closeJob plus f job outcome]] = _
    rw [hcommits, List.cons_append]
  · intro ws hws u hu
    rcases List.mem_append.1 hws with hws | hws
    · exact hrest ws hws u hu
    · rw [List.mem_singleton.1 hws, List.mem_singleton] at hu
      rw [hu]
      rfl
  · show ∀ d' ∈ D.recordedAt ++ [], Recordable c run d'
    rw [List.append_nil]
    exact hrec

theorem taskClosed_verdict (hrow : d.tasks.find task.id = some task) (hterm : v.status.terminal = true) (now : Time) :
    TaskClosed ((v.writes task now).foldl Db.write d) task.id := by
  refine ⟨_, Db.find_task_foldl hrow, ?_⟩
  rw [Verdict.writes, List.foldl_append]
  simpa [Write.taskId, Write.onTask] using hterm

theorem ResultsClosed.fresh {held : Lock → Prop} {task : ScanTask} (hres : ResultsClosed d) (htask : TaskHeld held d task)
    (hrun : task.status = .running) : (d.results.find task.id).isSome = false := by
  by_contra hne
  obtain ⟨t, ht, hterm⟩ := hres task.id (eq_true_of_ne_false hne)
  rw [htask.row] at ht
  cases ht
  rw [hrun] at hterm
  cases hterm

theorem markTaskTerminal_verdict {task : ScanTask} (hrun : task.status = .running) (outcome : Except String ModuleResult) :
    markTaskTerminal task (verdict c task outcome).status (verdict c task outcome).reason c.finished =
      .ok (.taskTerminal task.id (verdict c task outcome).status (verdict c task outcome).reason c.finished) := by
  have hopen : task.status.terminal = false := by rw [hrun]; rfl
  exact markTaskTerminal_eq_ok.2 ⟨(verdict_spec c task outcome).1, fun ⟨hblocked, _⟩ => verdict_ne_blocked c task outcome hblocked,
    hopen, rfl⟩

theorem Stage.next {held : Lock → Prop} {p : Proc} {m : Step} (h : Stage c run D d p) (hgo : go plus d p = some m)
    (hA : p.Holds held d) (hsees : Sees c d) (hres : ResultsClosed d) :
    Stage c run (D.add d p m.op) (m.op.effect Db.write d) m.next := by
  cases p with
  | publish messages next =>
    cases messages with
    | cons x messages =>
      cases hgo
      rw [Deeds.add_quiet rfl rfl rfl rfl]
      cases next <;> exact h
    | nil =>
      cases hgo
      rw [Deeds.add_quiet rfl rfl rfl rfl]
      cases next with
      | engine | finalize => exact h
      | done => exact .inl ⟨h.1, .inr h.2⟩
  | engine c' run' =>
    cases hgo
    obtain ⟨rfl, rfl, hnone, hat⟩ := h
    rw [Deeds.add_quiet rfl rfl rfl rfl]
    exact ⟨rfl, rfl, rfl, hnone, hat⟩
  | record c' run' outcome =>
    cases hgo
    obtain ⟨rfl, rfl, rfl, hnone, hat⟩ := h
    obtain ⟨t, hrow, ht⟩ := hsees
    have hfound : (d.tasks.find c'.taskId).filter c'.access.seesTask = some t := by rw [hrow]; simp [ht]
    have hone : (D.add d (.record c' run' (runEngine c' run').1) (.lock [.task c'.taskId])).recordedAt = [d] := by
      rw [Deeds.add, hat]; rfl
    have hstill : (D.add d (.record c' run' (runEngine c' run').1) (.lock [.task c'.taskId])).commits = [] := by
      rw [Deeds.add, hnone]; rfl
    dsimp only
    rw [hfound]
    dsimp only
    split
    · next hterm =>
      refine ⟨⟨t, hrow, hterm⟩, .inl ⟨hstill, ?_⟩⟩
      rw [hone, List.forall_mem_singleton]
      exact ⟨List.cons_ne_nil _ _, t, hrow, hterm⟩
    · exact ⟨rfl, rfl, rfl, hstill, d, hone, hrow⟩
  | persist c' run' task v =>
    obtain ⟨rfl, rfl, hpending⟩ := h
    have hrec : Recording held d c' run' task v := hA
    have hfresh : ¬ (v.rows.isSome = true ∧ (d.results.find task.id).isSome = true) := by
      rw [hres.fresh hrec.toTaskHeld hrec.running]
      simp
    simp only [go, if_neg hfresh] at hgo
    split at hgo
    · next hany =>
      cases hgo
      rw [Deeds.add_quiet rfl rfl rfl rfl]
      refine .inr (hpending.refused hrec.running fun hall => ?_)
      obtain ⟨rows, hrows, hbad⟩ := (Option.any_eq_true ..).1 hany
      simp [(hall rows hrows).1] at hbad
    · next hany =>
      cases hgo
      rw [Deeds.add_quiet rfl rfl rfl rfl]
      refine ⟨rfl, rfl, hpending, fun rows hrows => ?_⟩
      by_contra hbad
      exact hany ((Option.any_eq_true ..).2 ⟨rows, hrows, by simpa using hbad⟩)
  | finish c' run' task v =>
    obtain ⟨rfl, rfl, hpending, hstored⟩ := h
    obtain ⟨hrec, -⟩ := hA
    have hterm := (verdict_spec c' task (runEngine c' run').1).1
    have hmark := markTaskTerminal_verdict (c := c') hrec.running (runEngine c' run').1
    rw [← hpending.verdict] at hterm hmark
    simp only [go, hmark] at hgo
    split at hgo
    · next hany =>
      cases hgo
      rw [Deeds.add_quiet rfl rfl rfl rfl]
      refine .inr (hpending.refused hrec.running fun hall => ?_)
      obtain ⟨rows, hrows, hbad⟩ := (Option.any_eq_true ..).1 hany
      simp [(hall rows hrows).2] at hbad
    · next hany =>
      cases hgo
      have hall : ∀ rows ∈ v.rows, c'.postgres.Accepts rows := fun rows hrows => by
        refine ⟨hstored rows hrows, ?_⟩
        by_contra hbad
        exact hany ((Option.any_eq_true ..).2 ⟨rows, hrows, by simpa using hbad⟩)
      refine ⟨rfl, hrec.id_eq ▸ taskClosed_verdict hrec.row hterm _, ⟨task, [], hrec.id_eq, ?_, by simp⟩, ?_⟩
      · rw [Deeds.add, hpending.none, ← hpending.verdict]
        rfl
      · have hat : (D.add d (.finish c' run' task v) (.commit (v.writes task c'.finished))).recordedAt = D.recordedAt :=
          List.append_nil _
        rw [hat]
        exact (hpending.recordable_iff hrec.running).2 hall
  | finalize f =>
    cases hgo
    obtain ⟨hjob, hclosed, hrec⟩ := h
    have hrec' : Recorded c run (D.add d (.finalize f) (.lock [.job f.jobId])) := hrec.finalize
    have hfin : (D.add d (.finalize f) (.lock [.job f.jobId])).Finalizes run.jobId :=
      ⟨f, by simp [Deeds.add, Proc.attempts], hjob⟩
    dsimp only
    split
    · exact ⟨hclosed, .inr ⟨hrec', hfin⟩⟩
    · split
      · exact ⟨hclosed, .inr ⟨hrec', hfin⟩⟩
      · exact ⟨hclosed, hrec', hfin⟩
  | count f job =>
    cases hgo
    obtain ⟨hclosed, hrec, hfin⟩ := h
    rw [Deeds.add_quiet rfl rfl rfl rfl]
    dsimp only
    split
    · exact ⟨hclosed, .inr ⟨hrec, hfin⟩⟩
    · exact ⟨hclosed, hrec, hfin⟩
  | close f job outcome =>
    cases hgo
    obtain ⟨⟨t, ht, hterm⟩, hrec, hfin⟩ := h
    refine ⟨⟨t, ?_, hterm⟩, hrec.close, ?_⟩
    · rw [Op.effect, Db.find_task_foldl ht, Db.foldl_onTask_eq (by simp [closeJob, Write.taskId])]
    · obtain ⟨f', hf', hid⟩ := hfin
      exact ⟨f', List.mem_append_left _ hf', hid⟩
  | release =>
    cases hgo
    rw [Deeds.add_quiet rfl rfl rfl rfl]
    exact .inl h
  | done => cases hgo
  | _ => exact h.elim

end Statements

/-! ### Runs -/

section Runs
variable {C : Deployment π → π × Choice → Prop} {w₀ w v : Deployment π} {i : π} {c : RunModuleCall} {run : EngineRun}

/-- The delivery is at its stage, and can see its task; what others have recorded on the task is accounted for. -/
structure Staged (c : RunModuleCall) (run : EngineRun) (i : π) (H : Steps π) (v : Deployment π) : Prop where
  stage : Stage c run (deedsOf i H) v.db (v.proc i)
  ledger : Ledger c.taskId run.jobId H v
  sees : Sees c v.db
  results : ResultsClosed v.db

theorem Staged.step {H : Steps π} {j : π} {ch : Choice} {m : Step} (h : Staged c run i H v) (hb : Base v)
    (hu : Unharmed i v (j, ch)) (hm : (pipeline plus).Fires v j ch m) :
    Staged c run i (H ++ [⟨v, j, m⟩]) ((pipeline plus).after v j m) := by
  obtain ⟨roster, hU⟩ := (v.proc j).exists_uses
  have heff := effect_of_fires (hb.holds j) hU hm
  refine ⟨?_, h.ledger.step hb hm, h.sees.mono heff, h.results.mono heff⟩
  by_cases hj : j = i
  · subst hj
    obtain rfl : ch = .go := hu rfl
    rw [deedsOf_self, System.proc_after_self]
    exact h.stage.next hm.1 (hb.holds j) h.sees h.results
  · rw [deedsOf_of_ne hj, System.proc_after_of_ne (Ne.symm hj)]
    exact h.stage.mono heff

end Runs

/-! ### A result with a null character -/

namespace Refusal

/-- The dispatch of the guest job and the delivery of its task, for a module that gives `result`. -/
def begin (result : ModuleResult) : Deployment (Fin 2) where
  db := Vanished.begin.db
  owner _ := none
  proc := fun
    | 0 => .dispatch ⟨1, Delivered.shared, 0, fun n => ⟨10 + n⟩, Time.seconds 1⟩
    | 1 => .runModule { Delivered.delivery with engine := fun _ => .ok (some result) }
  trace := []

theorem start (result : ModuleResult) : Start (begin result) where
  entry := fun | 0 | 1 => trivial
  unlocked _ := rfl
  trace := rfl
  jobs := Vanished.start.jobs
  tasks := Vanished.start.tasks
  owned := Vanished.start.owned
  results := rfl
  findings := rfl

/-- The delivery is about to start the task, and once it has and has run `n` statements more, it is done and the
test passes. -/
def ends (i : Fin 2) (n : Nat) (p : Deployment (Fin 2) → Bool) (w : Deployment (Fin 2)) : Bool :=
  (w.proc i matches .start ⟨10, _, _, _, _, _, _, _, _, _, _, _⟩ _ _) &&
    ((pipeline id).move w.db (w.proc i) .go).any fun m => decide (m.op.Allowed i w.owner) &&
      ((pipeline id).trail (Unharmed i) ((pipeline id).after w i m) (steps i n)).any fun s =>
        (s.2.proc i matches .done) && p s.2

end Refusal

end TestingPlatform.Scan
