import TestingPlatform.Scan.Results

/-!
# Accepted cancellation

`cancellation_requested_at` is the durable intent. `run_module` looks at it under the row lock, before the
module starts and again before it writes the result, and closes the task as canceled. Two other places
close tasks and do not look: a sweep fails whatever is still open, and a dispatch blocks the tasks whose
module vanished. `dispatch` no longer sends a queued task with an intent, so that a sweep is what such a
task meets in the end (`canceled_task_fails`). In a run in which neither of the two commits such a task,
every accepted cancellation resolves to canceled (`cancellation_resolves`).
-/

namespace TestingPlatform.Scan

open ReadCommitted

variable {π : Type} [DecidableEq π] {plus : Time → Time}

/-- The tasks that the next commit closes whatever their intent is. -/
def Proc.overriding : Proc → List Uuid
  | .dispatchCommit _ p => p.vanished
  | .reapCommit _ live => live
  | _ => []

/-- When a sweep or a dispatch commits, the tasks it closes have no accepted cancellation. -/
def SparesCanceled (w : Deployment π) (a : π × Choice) : Prop :=
  a.2 = .go → ∀ id ∈ (w.proc a.1).overriding, ∀ t ∈ w.db.tasks.find id, t.cancellationRequestedAt = none

instance (w : Deployment π) (a : π × Choice) : Decidable (SparesCanceled w a) :=
  inferInstanceAs (Decidable (a.2 = .go → ∀ id ∈ (w.proc a.1).overriding, ∀ t ∈ w.db.tasks.find id, _))

/-- The cancellation of the task is accepted, and nothing but it has closed the task. -/
structure Canceling (t : ScanTask) : Prop where
  requested : t.cancellationRequestedAt.isSome = true
  resolves : t.status.terminal = true → t.status = .canceled

/-! ### One commit -/

theorem Commits.heeds {held : Lock → Prop} {d : Db} {p q : Proc} {ws : List Write} (h : Commits plus p ws q)
    (hA : p.Holds held d) {id : Uuid} {t : ScanTask} (ht : d.tasks.find id = some t)
    (hreq : t.cancellationRequestedAt.isSome = true) (hid : id ∉ p.overriding) :
    ∀ u ∈ ws, u.taskId = some id →
      (∃ at_, u = .taskCancellation id at_) ∨ ∃ reason now, u = .taskTerminal id .canceled reason now := by
  intro u hu htask
  cases h with
  | dispatch c p =>
    simp only [DispatchPlan.writes, List.mem_append, List.mem_map, markJobRunning] at hu
    rcases hu with (hu | ⟨t, -, rfl⟩) | ⟨k, hk, rfl⟩
    · split at hu
      · rw [List.mem_singleton.1 hu] at htask
        cases htask
      · cases hu
    · cases htask
    · have hk' : k = id := Option.some.inj htask
      exact absurd (hk' ▸ hk) hid
  | refuse c task status reason =>
    rw [List.mem_singleton.1 hu] at htask ⊢
    have he : task.id = id := Option.some.inj htask
    obtain ⟨hclaim, hrefusal⟩ := hA
    obtain rfl : task = t := Option.some.inj (hclaim.row.symm.trans (he ▸ ht))
    have hcanceled : refusal c task = some (.canceled, reasonTaskCanceled) := if_pos hreq
    rw [hcanceled] at hrefusal
    cases hrefusal
    exact .inr ⟨_, _, by rw [he]⟩
  | start c task run =>
    rw [List.mem_singleton.1 hu] at htask
    have he : task.id = id := Option.some.inj htask
    obtain ⟨hclaim, hrefusal, -⟩ := hA
    obtain rfl : task = t := Option.some.inj (hclaim.row.symm.trans (he ▸ ht))
    rw [(refusal_eq_none hrefusal).1] at hreq
    cases hreq
  | finish c run task v =>
    obtain ⟨hrec, -⟩ := hA
    obtain ⟨outcome, rfl⟩ := hrec.verdict
    simp only [Verdict.writes, List.mem_append, List.mem_singleton] at hu
    rcases hu with hu | rfl
    · split at hu
      · cases hu
      · rw [List.mem_cons, List.mem_map] at hu
        rcases hu with rfl | ⟨f, -, rfl⟩ <;> cases htask
    · have he : task.id = id := Option.some.inj htask
      obtain rfl : task = t := Option.some.inj (hrec.row.symm.trans (he ▸ ht))
      have hverdict : verdict c task outcome = ⟨.canceled, some reasonTaskCanceled, none⟩ := if_pos hreq
      exact .inr ⟨_, _, by rw [he, hverdict]⟩
  | reap c live =>
    obtain ⟨k, hk, rfl⟩ := List.mem_map.1 hu
    have hk' : k = id := Option.some.inj htask
    exact absurd (hk' ▸ hk) hid
  | close f job outcome =>
    rw [List.mem_singleton.1 hu] at htask
    cases htask
  | cancel c =>
    rw [List.mem_singleton.1 hu] at htask ⊢
    have he : c.taskId = id := Option.some.inj htask
    exact .inl ⟨_, by rw [he]⟩

theorem canceling_step {w : Deployment π} {i : π} {c : Choice} {m : Step} (hb : Base w) (hspares : SparesCanceled w (i, c))
    (hm : (pipeline plus).Fires w i c m) {id : Uuid} {t : ScanTask} (ht : w.db.tasks.find id = some t)
    (hc : Canceling t) : ∃ t', ((pipeline plus).after w i m).db.tasks.find id = some t' ∧ Canceling t' := by
  by_cases hgo : c = .go
  · subst hgo
    rw [System.db_after]
    cases hop : m.op with
    | read | lock | unlock | rollback => exact ⟨t, ht, hc⟩
    | commit ws =>
      have hid : id ∉ (w.proc i).overriding := fun hid => by
        have hnone := hspares rfl id hid t ht
        have hreq := hc.requested
        rw [hnone] at hreq
        cases hreq
      have hws := (Commits.of_go hm.1 hop).heeds (hb.holds i) ht hc.requested hid
      refine ⟨_, Db.find_task_foldl ht, Db.foldl_onTask_induction hc fun u hu htask t' hc' => ?_⟩
      rcases hws u hu htask with ⟨at_, rfl⟩ | ⟨reason, now, rfl⟩
      · exact ⟨rfl, hc'.resolves⟩
      · exact ⟨hc'.requested, fun _ => rfl⟩
  · cases rollback_of_ne_go hm.1 hgo
    exact ⟨t, ht, hc⟩

theorem overriding_closes {w : Deployment π} {i : π} {m : Step} (hm : (pipeline plus).Fires w i .go m)
    {id : Uuid} {t : ScanTask} (ht : w.db.tasks.find id = some t) (hid : id ∈ (w.proc i).overriding) :
    ∃ t', ((pipeline plus).after w i m).db.tasks.find id = some t' ∧ (t'.status = .failed ∨ t'.status = .blocked) := by
  have hmove : go plus w.db (w.proc i) = some m := hm.1
  rw [System.db_after]
  generalize w.proc i = p at hmove hid
  cases p with
  | dispatchCommit c p =>
    cases hmove
    have hmem : id ∈ p.vanished := hid
    refine ⟨_, Db.find_task_foldl ht, .inr ?_⟩
    rw [DispatchPlan.writes, List.foldl_append, Db.foldl_taskTerminal, if_pos hmem]
  | reapCommit c live =>
    cases hmove
    have hmem : id ∈ live := hid
    refine ⟨_, Db.find_task_foldl ht, .inl ?_⟩
    rw [Db.foldl_taskTerminal, if_pos hmem]
  | _ => cases hid

/-- A cancellation that was accepted while the task was open resolves to canceled. -/
theorem cancellation_resolves {C : Deployment π → π × Choice → Prop} {w₀ w w' : Deployment π} (h₀ : Start w₀)
    (h : (pipeline plus).Run C w₀ w) (h' : (pipeline plus).Run SparesCanceled w w') {id : Uuid} {t : ScanTask}
    (ht : w.db.tasks.find id = some t) (hreq : t.cancellationRequestedAt.isSome = true)
    (hopen : t.status.terminal = false) :
    ∃ t', w'.db.tasks.find id = some t' ∧ (t'.status.terminal = true → t'.status = .canceled) := by
  have hbase : ∀ {v}, (pipeline plus).Run SparesCanceled w v → Base v := (base_of_run h₀ h).of_run
  have hcanceling : Canceling t := ⟨hreq, fun hterm => by rw [hopen] at hterm; cases hterm⟩
  obtain ⟨t', ht', hc⟩ := (h'.using hbase).invariant
    (I := fun v => ∃ t', v.db.tasks.find id = some t' ∧ Canceling t') ⟨t, ht, hcanceling⟩
    fun v i c m ⟨t₁, ht₁, hc₁⟩ ⟨hspares, hb⟩ hm => canceling_step hb hspares hm ht₁ hc₁
  exact ⟨t', ht', hc.resolves⟩

/-! ### A sweep after the cancellation -/

namespace Canceled

/-- A dispatch, a cancellation of the task it sent, a sweep, and the delivery of the task. -/
def deliveries : Fin 4 → Proc
  | 0 => .dispatch ⟨1, Delivered.shared, 0, fun n => ⟨10 + n⟩, Time.seconds 1⟩
  | 1 => .cancel ⟨10, Time.seconds 2⟩
  | 2 => .reap ⟨1, Time.hours 3, Time.hours 3 + Time.seconds 1⟩
  | 3 => .runModule Delivered.delivery

def begin : Deployment (Fin 4) where
  db := Vanished.begin.db
  owner _ := none
  proc := deliveries
  trace := []

theorem start : Start begin where
  entry := fun | 0 | 1 | 2 | 3 => trivial
  unlocked _ := rfl
  trace := rfl
  jobs := Vanished.start.jobs
  tasks := Vanished.start.tasks
  owned := Vanished.start.owned
  results := rfl
  findings := rfl

/-- The task of the job has the given status, and a cancellation was requested. -/
def requestedAt (w : Deployment (Fin 4)) (status : ScanTaskStatus) : Bool :=
  (w.db.tasks.find 10).any fun t => t.status = status ∧ t.cancellationRequestedAt.isSome

theorem exists_of_requestedAt {w : Deployment (Fin 4)} {status : ScanTaskStatus} (h : requestedAt w status = true) :
    ∃ t, w.db.tasks.find 10 = some t ∧ t.status = status ∧ t.cancellationRequestedAt.isSome = true := by
  obtain ⟨t, ht, hp⟩ := (Option.any_eq_true ..).1 h
  exact ⟨t, ht, by simpa using hp⟩

end Canceled

open Canceled in
/-- A queued task with an accepted cancellation is failed by the sweep. -/
theorem canceled_task_fails :
    ∃ w₀ w w' : Deployment (Fin 4), Start w₀ ∧ (pipeline id).Run (fun _ _ => True) w₀ w ∧
      (pipeline id).Run (fun _ _ => True) w w' ∧
      ∃ t t', w.db.tasks.find 10 = some t ∧ t.status = .queued ∧ t.cancellationRequestedAt.isSome = true ∧
        w'.db.tasks.find 10 = some t' ∧ t'.status = .failed := by
  have run : ((pipeline id).exec (fun _ _ => True) begin (steps 0 11 ++ steps 1 2)).any (fun w =>
      requestedAt w .queued && ((pipeline id).exec (fun _ _ => True) w (steps 2 4)).any fun w' =>
        requestedAt w' .failed) = true := by
    decide +kernel
  obtain ⟨w, hw, hp⟩ := System.Run.of_exec_any run
  rw [Bool.and_eq_true] at hp
  obtain ⟨w', hw', hp'⟩ := System.Run.of_exec_any hp.2
  obtain ⟨t, ht, hs, hreq⟩ := exists_of_requestedAt hp.1
  obtain ⟨t', ht', hs', -⟩ := exists_of_requestedAt hp'
  exact ⟨begin, w, w', start, hw, hw', t, t', ht, hs, hreq, ht', hs'⟩

open Canceled in
/-- The delivery comes first and closes the task as canceled; the sweep then finds nothing open. -/
theorem cancellation_resolves_of_delivery :
    ∃ w w' : Deployment (Fin 4), (pipeline id).Run (fun _ _ => True) begin w ∧ (pipeline id).Run SparesCanceled w w' ∧
      ∃ t', w'.db.tasks.find 10 = some t' ∧ t'.status.terminal = true ∧ t'.status = .canceled := by
  have run : ((pipeline id).exec (fun _ _ => True) begin (steps 0 11 ++ steps 1 2)).any (fun w =>
      requestedAt w .queued && ((pipeline id).exec SparesCanceled w (steps 3 2 ++ steps 2 3)).any fun w' =>
        (w'.db.tasks.find 10).any fun t => t.status.terminal) = true := by
    decide +kernel
  obtain ⟨w, hw, hp⟩ := System.Run.of_exec_any run
  rw [Bool.and_eq_true] at hp
  obtain ⟨w', hw', hp'⟩ := System.Run.of_exec_any hp.2
  obtain ⟨t, ht, hs, hreq⟩ := exists_of_requestedAt hp.1
  obtain ⟨t', ht', hterm⟩ := (Option.any_eq_true ..).1 hp'
  obtain ⟨t'', ht'', hres⟩ := cancellation_resolves start hw hw' ht hreq (by rw [hs]; rfl)
  obtain rfl : t' = t'' := Option.some.inj (ht'.symm.trans ht'')
  exact ⟨w, w', hw, hw', t', ht', hterm, hres hterm⟩

end TestingPlatform.Scan
