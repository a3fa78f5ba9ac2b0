import TestingPlatform.Rls.Isolation
import TestingPlatform.Scan.Results

/-!
# Hints are verified by the load

The payload of `scan.run_module` names an organization or a job, and nobody checks it before the task is
loaded under the policy it selects. Whatever it says, the delivery writes the one task it names, and that
task only where it is in the organization or job of the hint.
-/

namespace TestingPlatform.Scan

open ReadCommitted

variable {π : Type} [DecidableEq π] {plus : Time → Time} {c : RunModuleCall}

/-- The hint that is in force names the owner: the organization, or without one the job. -/
def RunModuleCall.Hinted (c : RunModuleCall) (organizationId : Option Uuid) (jobId : Uuid) : Prop :=
  match c.orgId with
  | some org => organizationId = some org
  | none => c.scanJobId = some jobId

omit [DecidableEq π] in
theorem hinted_iff {organizationId : Option Uuid} {jobId : Uuid} :
    ((∃ o, organizationId = some o ∧ c.access.gucs.org = some o) ∨ c.access.gucs.job = some jobId) ↔
      c.Hinted organizationId jobId := by
  have hgucs : c.access.gucs = { org := c.orgId, job := if c.orgId = none then c.scanJobId else none } :=
    Rls.Session.gucs_setHintContext {} c.orgId c.scanJobId
  rw [hgucs]
  cases ho : c.orgId <;> simp [RunModuleCall.Hinted, ho]

theorem hinted_of_seesTask (hrole : c.role = .nc3App) {t : ScanTask} (h : c.access.seesTask t = true) :
    c.Hinted t.organizationId t.scanJobId := by
  have hrole' : c.access.role = .nc3App := hrole
  simp only [Access.seesTask, hrole', decide_eq_true_eq, reduceCtorEq, decide_false, Bool.false_or] at h
  exact hinted_iff.1 ((Rls.Gucs.holds_scanTaskPolicy _).1 h)

theorem hinted_of_seesJob (hrole : c.role = .nc3App) {job : ScanJob} (h : c.access.seesJob job = true) :
    c.Hinted job.organizationId job.id := by
  have hrole' : c.access.role = .nc3App := hrole
  simp only [Access.seesJob, hrole', decide_eq_true_eq, reduceCtorEq, decide_false, Bool.false_or] at h
  exact hinted_iff.1 ((Rls.Gucs.holds_scanJobPolicy _).1 h)

/-! ### One delivery -/

def Next.Serves (c : RunModuleCall) : Next → Prop
  | .engine c' _ => c' = c
  | .finalize f => f.access = c.access
  | .done => True

/-- The states of the delivery `c`; its finalize has found the job under the same access. -/
def Proc.Serves (c : RunModuleCall) : Proc → Prop
  | .runModule c' | .refuse c' _ _ _ | .readAsset c' _ | .readUpload c' _ _ | .start c' _ _ | .engine c' _
  | .record c' _ _ | .persist c' _ _ _ | .finish c' _ _ _ => c' = c
  | .publish _ next => next.Serves c
  | .finalize f => f.access = c.access
  | .count f job | .close f job _ => f.access = c.access ∧ c.access.seesJob job = true
  | .release | .done => True
  | _ => False

theorem Proc.Serves.next {d : Db} {p : Proc} {m : Step} (h : go plus d p = some m) (hs : p.Serves c) :
    m.next.Serves c := by
  cases go_leads h with
  | ends _ _ hq => rcases hq with rfl | rfl <;> trivial
  | commits _ hcommits =>
    cases hcommits with
    | refuse | finish =>
      cases hs
      rfl
    | start => exact hs
    | dispatch | reap | cancel => cases hs
    | close => trivial
  | sends => exact hs
  | @sent next => cases next <;> exact hs
  | refuses | takes | readsAsset | readsUpload | ran | records | persists => exact hs
  | @counts f job hjob =>
    have hacc : f.access = c.access := hs
    obtain ⟨-, hsees⟩ := find_filter_eq_some hjob
    exact ⟨hacc, hacc ▸ hsees⟩
  | counted => exact hs
  | _ => cases hs

/-- The write is about the task of the delivery, or closes a job, of the owner that is hinted. -/
def Write.Within (c : RunModuleCall) (d : Db) : Write → Prop
  | .taskRunning id _ | .taskTerminal id _ _ _ =>
    id = c.taskId ∧ ∃ t, d.tasks.find id = some t ∧ c.Hinted t.organizationId t.scanJobId
  | .insertResult r =>
    r.scanTaskId = c.taskId ∧
      ∃ t, d.tasks.find c.taskId = some t ∧ c.Hinted t.organizationId t.scanJobId ∧ r.organizationId = t.organizationId
  | .insertFinding f =>
    ∃ t, d.tasks.find c.taskId = some t ∧ c.Hinted t.organizationId t.scanJobId ∧ f.organizationId = t.organizationId
  | .jobClosed id _ _ _ _ => ∃ job, d.jobs.find id = some job ∧ c.Hinted job.organizationId job.id
  | _ => False

theorem Commits.within {held : Lock → Prop} {d : Db} {p q : Proc} {ws : List Write} (h : Commits plus p ws q)
    (hA : p.Holds held d) (hs : p.Serves c) (hrole : c.role = .nc3App) : ∀ u ∈ ws, u.Within c d := by
  intro u hu
  cases h with
  | refuse c' task status reason =>
    obtain rfl : c' = c := hs
    obtain ⟨hclaim, -⟩ := hA
    cases List.mem_singleton.1 hu
    exact ⟨hclaim.id_eq, task, hclaim.row, hinted_of_seesTask hrole hclaim.sees⟩
  | start c' task run =>
    obtain rfl : c' = c := hs
    obtain ⟨hclaim, -⟩ := hA
    cases List.mem_singleton.1 hu
    exact ⟨hclaim.id_eq, task, hclaim.row, hinted_of_seesTask hrole hclaim.sees⟩
  | finish c' run task v =>
    obtain rfl : c' = c := hs
    obtain ⟨hrec, -⟩ := hA
    have hhint := hinted_of_seesTask hrole hrec.sees
    obtain ⟨outcome, rfl⟩ := hrec.verdict
    obtain ⟨-, -, hrows⟩ := verdict_spec c' task outcome
    rcases List.mem_append.1 hu with hu | hu
    · split at hu
      · cases hu
      · next rows hr =>
        obtain ⟨-, -, hid, horg, hfs⟩ := hrows rows hr
        rcases List.mem_cons.1 hu with rfl | hu
        · exact ⟨hid.trans hrec.id_eq, task, hrec.id_eq ▸ hrec.row, hhint, horg⟩
        · obtain ⟨f, hf, rfl⟩ := List.mem_map.1 hu
          exact ⟨task, hrec.id_eq ▸ hrec.row, hhint, (hfs f hf).2⟩
    · cases List.mem_singleton.1 hu
      exact ⟨hrec.id_eq, task, hrec.row, hhint⟩
  | close f job outcome =>
    obtain ⟨hacc, hsees⟩ := hs
    cases List.mem_singleton.1 hu
    exact ⟨job, hA.1.row, hinted_of_seesJob hrole hsees⟩
  | dispatch | reap | cancel => cases hs

section Runs
variable {C : Deployment π → π × Choice → Prop} {w₀ w : Deployment π} {i : π}

theorem serves_of_run (h : (pipeline plus).Run C w₀ w) (hs : (w₀.proc i).Serves c) : (w.proc i).Serves c := by
  refine h.invariant (I := fun v => (v.proc i).Serves c) hs fun v j ch m hs _ hm => ?_
  by_cases hij : i = j
  · subst hij
    rw [System.proc_after_self]
    by_cases hc : ch = .go
    · subst hc
      exact hs.next hm.1
    · cases rollback_of_ne_go hm.1 hc
      trivial
  · rwa [System.proc_after_of_ne hij]

/-- Sessions reach the rows of their context only; so whatever a payload of `scan.run_module` hints, the
delivery writes its one task where the hint names the owner, or nothing. -/
theorem row_level_isolation (db : Rls.Database) (h₀ : Start w₀) (hp : w₀.proc i = .runModule c) (hrole : c.role = .nc3App)
    (h : (pipeline plus).Run C w₀ w) :
    Rls.SessionsIsolated db ∧ ∀ ch m, (pipeline plus).Fires w i ch m → ∀ ws, m.op = .commit ws →
      ∀ u ∈ ws, u.Within c w.db := by
  refine ⟨Rls.sessions_isolated db, fun ch m hm ws hop => ?_⟩
  have hserves : (w.proc i).Serves c := serves_of_run h (by rw [hp]; rfl)
  exact (Commits.of_move hm.1 hop).within ((base_of_run h₀ h).holds i) hserves hrole

end Runs

open Delivered in
/-- The hint of a guest delivery names the job of its task, and the task is written. -/
theorem row_level_isolation_of_delivery :
    ∃ (w : Deployment (Fin 3)) (m : Step) (ws : List Write), (pipeline id).Run (fun _ _ => True) begin w ∧
      (pipeline id).Fires w 1 .go m ∧ m.op = .commit ws ∧ ws ≠ [] ∧ ∀ u ∈ ws, u.Within delivery w.db := by
  have run : ((pipeline id).exec (fun _ _ => True) begin (steps 0 11 ++ steps 1 3)).any
      (fun w => ((pipeline id).move w.db (w.proc 1) .go).any fun m => !m.op.writes.isEmpty) = true := by
    decide +kernel
  obtain ⟨w, hw, hp⟩ := System.Run.of_exec_any run
  obtain ⟨m, hmove, hop⟩ := (Option.any_eq_true ..).1 hp
  have hne : m.op.writes ≠ [] := by simpa using hop
  have hcommit : m.op = .commit m.op.writes := Op.eq_commit_of_writes hne
  have hm : (pipeline id).Fires w 1 .go m := ⟨hmove, by rw [hcommit]; trivial⟩
  exact ⟨w, m, m.op.writes, hw, hm, hcommit, hne, (row_level_isolation [] start rfl rfl hw).2 _ _ hm _ hcommit⟩

end TestingPlatform.Scan
