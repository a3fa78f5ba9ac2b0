import TestingPlatform.Scan.Refine

/-!
# Terminal tasks

`mark_task_terminal` refuses a task that is terminal already, but it looks at the copy of the row its
session holds. For `run_module` and the reaper that copy was read under the row lock, and it is the
committed row. `dispatch` reads its tasks without a lock; a task whose module vanished may be closed by
another delivery between that read and the flush, and the flush then overwrites it
(`terminal_task_overwritten`). This is the only way: in a run in which no dispatch does that, a terminal
task keeps its status, its reason and its time (`terminal_absorbing`).
-/

namespace TestingPlatform.Scan

open ReadCommitted

variable {π : Type} [DecidableEq π] {plus : Time → Time}

/-- When a dispatch commits, the tasks it blocks as vanished are still open. -/
def VanishesOpen (w : Deployment π) (a : π × Choice) : Prop :=
  a.2 = .go → ∀ id ∈ (w.proc a.1).vanishing, ∀ t ∈ w.db.tasks.find id, t.status.terminal = false

instance (w : Deployment π) (a : π × Choice) : Decidable (VanishesOpen w a) :=
  inferInstanceAs (Decidable (a.2 = .go → ∀ id ∈ (w.proc a.1).vanishing, ∀ t ∈ w.db.tasks.find id, _))

/-- The columns of a closed task. -/
structure SameOutcome (t t' : ScanTask) : Prop where
  status : t'.status = t.status
  statusReason : t'.statusReason = t.statusReason
  finishedAt : t'.finishedAt = t.finishedAt

theorem terminal_step {w : Deployment π} {i : π} {c : Choice} {m : Step} (hb : Base w) (hv : VanishesOpen w (i, c))
    (hm : (pipeline plus).Fires w i c m) {id : Uuid} {t : ScanTask} (ht : w.db.tasks.find id = some t)
    (hterm : t.status.terminal = true) :
    ∃ t', ((pipeline plus).after w i m).db.tasks.find id = some t' ∧ SameOutcome t t' := by
  by_cases hc : c = .go
  · subst hc
    obtain ⟨roster, hU⟩ := (w.proc i).exists_uses
    obtain ⟨t', ht', hc⟩ := (effect_of_fires (hb.holds i) hU hm).task ht
    refine ⟨t', ht', ?_⟩
    rcases hc.terminal_cases hterm with ⟨hs, hr, hf⟩ | ⟨hvan, -⟩
    · exact ⟨hs, hr, hf⟩
    · rw [Table.key_of_find ht] at hvan
      rw [hv rfl id hvan t ht] at hterm
      cases hterm
  · cases rollback_of_ne_go hm.1 hc
    exact ⟨t, ht, rfl, rfl, rfl⟩

/-- A terminal task is absorbing in every run whose dispatches block open tasks only. -/
theorem terminal_absorbing {w₀ w w' : Deployment π} (h₀ : Start w₀) (h : (pipeline plus).Run VanishesOpen w₀ w)
    (h' : (pipeline plus).Run VanishesOpen w w') {id : Uuid} {t : ScanTask} (ht : w.db.tasks.find id = some t)
    (hterm : t.status.terminal = true) : ∃ t', w'.db.tasks.find id = some t' ∧ SameOutcome t t' := by
  have hbase : ∀ {v}, (pipeline plus).Run VanishesOpen w v → Base v := fun hv => base_of_run h₀ (h.trans hv)
  refine (h'.using hbase).invariant (I := fun v => ∃ t', v.db.tasks.find id = some t' ∧ SameOutcome t t')
    ⟨t, ht, rfl, rfl, rfl⟩ fun v i c m ⟨t₁, ht₁, hsame⟩ ⟨hv, hb⟩ hm => ?_
  obtain ⟨t₂, ht₂, hsame'⟩ := terminal_step hb hv hm ht₁ (by rw [hsame.status]; exact hterm)
  exact ⟨t₂, ht₂, hsame'.status.trans hsame.status, hsame'.statusReason.trans hsame.statusReason,
    hsame'.finishedAt.trans hsame.finishedAt⟩

/-! ### The overwrite -/

namespace Vanished

/-- The module of `email.mailvalidator`. -/
def mailvalidator : LoadedModule where
  entryPoint := "mailvalidator"
  descriptor := {
    name := .email, classification := .nonIntrusive, queue := "non-intrusive-scan", engine := "mailvalidator",
    engineVersion := "1.0", tests := [{ testKey := "email.mailvalidator", testVersion := "1" }] }

/-- A guest job for the email module. -/
def job : ScanJob := { id := 1, organizationId := none, targetDomain := some "example.lu", modules := [.email] }

/-- A dispatch by a worker that has the module, a redelivery to one that has not, and a sweep. -/
def deliveries : Fin 3 → Proc
  | 0 => .dispatch ⟨1, some ⟨[mailvalidator]⟩, 0, fun n => ⟨10 + n⟩, Time.seconds 1⟩
  | 1 => .dispatch ⟨1, some ⟨[]⟩, Time.hours 3, fun n => ⟨20 + n⟩, Time.hours 3⟩
  | 2 => .reap ⟨1, Time.hours 3 + Time.seconds 1, Time.hours 3 + Time.seconds 2⟩

def begin : Deployment (Fin 3) where
  db := { jobs := Table.empty.insert job, tasks := .empty, results := .empty, findings := [], assets := .empty,
          uploads := .empty }
  owner _ := none
  proc := deliveries
  trace := []

theorem start : Start begin where
  entry := fun | 0 | 1 | 2 => trivial
  unlocked _ := rfl
  trace := rfl
  jobs id j h := by
    have hm := Table.mem_of_find h
    simp only [begin, Table.rows_insert (Table.find_empty _), Table.rows_empty, List.nil_append, List.mem_singleton] at hm
    rw [hm]; rfl
  tasks id t h := by cases h
  owned id t h := by cases h
  results := rfl
  findings := rfl

/-- The task of the job stands as the given outcome. -/
def stands (w : Deployment (Fin 3)) (status : ScanTaskStatus) (reason : String) (finishedAt : Time) : Bool :=
  (w.db.tasks.find 10).any fun t => t.status = status ∧ t.statusReason = some reason ∧ t.finishedAt = some finishedAt

theorem exists_of_stands {w : Deployment (Fin 3)} {status : ScanTaskStatus} {reason : String} {finishedAt : Time}
    (h : stands w status reason finishedAt = true) :
    ∃ t, w.db.tasks.find 10 = some t ∧ t.status = status ∧ t.statusReason = some reason ∧
      t.finishedAt = some finishedAt := by
  obtain ⟨t, ht, hp⟩ := (Option.any_eq_true ..).1 h
  exact ⟨t, ht, by simpa using hp⟩

end Vanished

open Vanished in
/-- A failed task of a running job is rewritten to blocked by the flush of a stale dispatch. -/
theorem terminal_task_overwritten :
    ∃ w₀ w w' : Deployment (Fin 3), Start w₀ ∧ (pipeline id).Run (fun _ _ => True) w₀ w ∧
      (pipeline id).Run (fun _ _ => True) w w' ∧
      ∃ t t', w.db.tasks.find 10 = some t ∧ t.status = .failed ∧ t.statusReason = some "job.timeout" ∧
        w'.db.tasks.find 10 = some t' ∧ t'.status = .blocked ∧ t'.statusReason = some "task.module_unavailable" ∧
        t'.finishedAt ≠ t.finishedAt := by
  -- the redelivery reads the queued task, the sweep fails it, and the redelivery flushes what it decided
  have run : ((pipeline id).exec (fun _ _ => True) begin (steps 0 11 ++ steps 1 2 ++ steps 2 4)).any (fun w =>
      stands w .failed "job.timeout" (Time.hours 3 + Time.seconds 1) &&
      ((pipeline id).exec (fun _ _ => True) w (steps 1 4)).any fun w' =>
        stands w' .blocked "task.module_unavailable" (Time.hours 3)) = true := by
    decide +kernel
  obtain ⟨w, hw, hp⟩ := System.Run.of_exec_any run
  rw [Bool.and_eq_true] at hp
  obtain ⟨w', hw', hp'⟩ := System.Run.of_exec_any hp.2
  obtain ⟨t, ht, hs, hr, hf⟩ := exists_of_stands hp.1
  obtain ⟨t', ht', hs', hr', hf'⟩ := exists_of_stands hp'
  refine ⟨begin, w, w', start, hw, hw', t, t', ht, hs, hr, ht', hs', hr', ?_⟩
  rw [hf, hf']
  decide

open Vanished in
/-- The sweep comes first and closes the job; the redelivery then finds nothing to block. -/
theorem terminal_absorbing_after_sweep :
    ∃ w w' : Deployment (Fin 3), (pipeline id).Run VanishesOpen begin w ∧ (pipeline id).Run VanishesOpen w w' ∧
      ∃ t t', w.db.tasks.find 10 = some t ∧ t.status = .failed ∧ w'.db.tasks.find 10 = some t' ∧ SameOutcome t t' := by
  have run : ((pipeline id).exec VanishesOpen begin (steps 0 11 ++ steps 2 4)).any (fun w =>
      stands w .failed "job.timeout" (Time.hours 3 + Time.seconds 1) &&
      ((pipeline id).exec VanishesOpen w (steps 2 9 ++ steps 1 2)).any fun _ => true) = true := by
    decide +kernel
  obtain ⟨w, hw, hp⟩ := System.Run.of_exec_any run
  rw [Bool.and_eq_true] at hp
  obtain ⟨w', hw', -⟩ := System.Run.of_exec_any hp.2
  obtain ⟨t, ht, hs, -, -⟩ := exists_of_stands hp.1
  obtain ⟨t', ht', hsame⟩ := terminal_absorbing start hw hw' ht (by rw [hs]; rfl)
  exact ⟨w, w', hw, hw', t, t', ht, hs, ht', hsame⟩

end TestingPlatform.Scan
