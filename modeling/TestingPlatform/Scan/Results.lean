import TestingPlatform.Lib.Once
import TestingPlatform.Scan.Absorbing

/-!
# Results and their tasks

With one roster in every process no task vanishes after it ran, so the state diagram keeps results and
completed tasks together (`Effect.sound`). A module runs between the two transactions of a delivery; the
right to run it is used up by the commit that takes the task out of the queue, where no task returns.
-/

namespace TestingPlatform.Scan

open ReadCommitted

variable {π : Type} [DecidableEq π] {plus : Time → Time} {roster : Option Roster}

/-! ### One roster -/

/-- Every process has discovered the same modules. -/
def FixedRoster (roster : Option Roster) (w : Deployment π) : Prop := ∀ i, (w.proc i).Uses roster

theorem Proc.Uses.next {d : Db} {p : Proc} {m : Step} (h : go plus d p = some m) (hU : p.Uses roster) :
    m.next.Uses roster := by
  cases go_leads h with
  | ends _ _ hq => rcases hq with rfl | rfl <;> trivial
  | commits _ hcommits => cases hcommits <;> first | exact hU | trivial
  | @sends _ _ next | @sent next =>
    cases next with
    | engine => exact hU
    | finalize | done => trivial
  | _ => exact hU

theorem FixedRoster.step {w : Deployment π} {i : π} {c : Choice} {m : Step} (hU : FixedRoster roster w)
    (hm : (pipeline plus).Fires w i c m) : FixedRoster roster ((pipeline plus).after w i m) := by
  intro j
  by_cases hij : j = i
  · subst hij
    rw [System.proc_after_self]
    by_cases hc : c = .go
    · subst hc
      exact (hU j).next hm.1
    · cases rollback_of_ne_go hm.1 hc
      trivial
  · rw [System.proc_after_of_ne hij]
    exact hU j

/-! ### Closed to results -/

/-- A cancel is stamped on the task, or it is terminal. -/
def Barred (t : ScanTask) : Prop := t.cancellationRequestedAt.isSome ∨ t.status.terminal = true

theorem Effect.barred {a : Act} {d d' : Db} (h : Effect a d d') {id : Uuid} {t : ScanTask}
    (ht : d.tasks.find id = some t) (hb : Barred t) :
    d'.results.find id = d.results.find id ∧
      ∃ t', d'.tasks.find id = some t' ∧ Barred t' ∧ (t'.status = .completed → t.status = .completed) := by
  obtain ⟨t', ht', hc⟩ := h.task ht
  have stays : t'.status = .completed → t.status = .completed := fun hcomp => by
    by_contra hne
    obtain ⟨hrun, hcan⟩ := hc.of_completed hne hcomp
    rcases hb with hb | hb
    · rw [hcan] at hb; cases hb
    · rw [hrun] at hb; cases hb
  refine ⟨?_, t', ht', hb.imp hc.canceled_mono hc.terminal_mono, stays⟩
  rcases h.result id with he | ⟨t₂, t₂', r, ht₂, hrun, ht₂', hcomp, -⟩
  · exact he
  · rw [ht] at ht₂; cases ht₂
    rw [ht'] at ht₂'; cases ht₂'
    have hst := stays hcomp
    rw [hrun] at hst; cases hst

/-! ### One run -/

def Next.runs : Next → Option Uuid
  | .engine c _ => some c.taskId
  | .finalize _ | .done => none

/-- The task whose module the delivery is still to run. -/
def Proc.runs : Proc → Option Uuid
  | .publish _ next => next.runs
  | .engine c _ => some c.taskId
  | _ => none

/-- The module of a task runs on behalf of who took the task out of the queue. -/
def running (taskId : Uuid) : Once Db Proc Message where
  shows m := m = .ran taskId
  owes p := (if p.runs = some taskId then 1 else 0) + p.outbox.countP fun m => m = .ran taskId
  spent d := ∃ t, d.tasks.find taskId = some t ∧ t.status ≠ .queued

section Account
variable {taskId : Uuid}

theorem owes_publish (messages : List Message) (next : Next) :
    (running taskId).owes (.publish messages next) =
      (if next.runs = some taskId then 1 else 0) + (running taskId).count messages := rfl

theorem owes_proc (next : Next) : (running taskId).owes next.proc = if next.runs = some taskId then 1 else 0 := by
  cases next <;> rfl

theorem not_ran_of_commits {p q : Proc} {ws : List Write} (h : Commits plus p ws q) {x : Message} (hx : x ∈ q.outbox) :
    x ≠ .ran taskId := by
  have event : ∀ {id status reason now}, x ∈ publishJobEvent id status reason now → x ≠ .ran taskId := by
    intro id status reason now hx
    rcases List.mem_cons.1 hx with rfl | hx
    · simp
    · split at hx
      · rw [List.mem_singleton.1 hx]; simp
      · cases hx
  cases h with
  | dispatch c p =>
    rcases List.mem_append.1 hx with hx | hx
    · split at hx
      · exact event hx
      · cases hx
    · obtain ⟨_, -, rfl⟩ := List.mem_map.1 hx
      simp
  | refuse | start | finish => rw [List.mem_singleton.1 hx]; simp
  | reap c live =>
    obtain ⟨id, -, hx⟩ := List.mem_flatMap.1 hx
    simp only [List.mem_cons, List.not_mem_nil, or_false] at hx
    rcases hx with rfl | rfl <;> simp
  | close f job outcome => exact event hx
  | cancel => cases hx

theorem owes_of_commits (taskId : Uuid) {p q : Proc} {ws : List Write} (h : Commits plus p ws q) :
    (running taskId).owes q = 0 ∨
      ∃ c task run, p = .start c task run ∧ c.taskId = taskId ∧ (running taskId).owes q ≤ 1 := by
  have hout : (q.outbox.countP fun m => m = .ran taskId) = 0 :=
    List.countP_eq_zero.2 fun x hx => by simpa using not_ran_of_commits h hx
  have howes : (running taskId).owes q = if q.runs = some taskId then 1 else 0 := by
    show _ + _ = _
    rw [hout, Nat.add_zero]
  cases h with
  | start c task run =>
    by_cases hid : c.taskId = taskId
    · refine .inr ⟨c, task, run, rfl, hid, ?_⟩
      rw [howes]
      split <;> simp
    · left
      rw [howes]
      exact if_neg fun he => hid (Option.some.inj he)
  | _ => exact .inl howes

theorem owes_of_go (taskId : Uuid) {d : Db} {p : Proc} {m : Step} (h : go plus d p = some m) :
    (running taskId).count m.emit + (running taskId).owes m.next ≤ (running taskId).owes p ∨
      ∃ c task run, p = .start c task run ∧ c.taskId = taskId ∧
        (running taskId).count m.emit + (running taskId).owes m.next ≤ 1 := by
  cases go_leads h with
  | ends _ _ hq =>
    left
    rcases hq with rfl | rfl <;> exact Nat.zero_le _
  | commits _ hcommits =>
    rw [Once.count_nil, Nat.zero_add]
    exact (owes_of_commits taskId hcommits).imp_left fun hz => by rw [hz]; exact Nat.zero_le _
  | @sends x messages next =>
    left
    have hcons : (running taskId).count (x :: messages) = (running taskId).count [x] + (running taskId).count messages :=
      (running taskId).count_append [x] messages
    rw [owes_publish, owes_publish, hcons]
    dsimp only
    omega
  | sent =>
    left
    rw [owes_publish, owes_proc, Once.count_nil, Nat.zero_add, Nat.add_zero]
  | @ran c run =>
    left
    by_cases hid : c.taskId = taskId
    · have hone : (running taskId).owes (.engine c run) = 1 := if_pos (congrArg some hid)
      have hle : (running taskId).count (if (runEngine c run).2 = true then [.ran c.taskId] else []) ≤ 1 := by
        split
        · exact List.countP_le_length
        · exact Nat.zero_le _
      rw [hone]
      exact hle
    · have hnone : (running taskId).count (if (runEngine c run).2 = true then [.ran c.taskId] else []) = 0 := by
        refine Once.count_eq_zero _ fun x hx => ?_
        split at hx
        · rw [List.mem_singleton.1 hx]
          simpa [running] using hid
        · cases hx
      exact hnone.trans_le (Nat.zero_le _)
  | beats =>
    left
    rw [owes_publish, Once.count_nil, Once.count_eq_zero _ fun x hx => ?_]
    · exact Nat.zero_le _
    · obtain ⟨j, -, rfl⟩ := List.mem_map.1 hx
      simp [running]
  | _ => exact .inl (Nat.zero_le _)

theorem start_spends {w : Deployment π} {i : π} {m : Step} (hb : Base w) (hm : (pipeline plus).Fires w i .go m)
    {c : RunModuleCall} {task : ScanTask} {run : EngineRun} (hp : w.proc i = .start c task run) :
    ¬ (running c.taskId).spent w.db ∧ (running c.taskId).spent ((pipeline plus).after w i m).db := by
  have hholds := hb.holds i
  have hmove : go plus w.db (w.proc i) = some m := hm.1
  rw [hp] at hmove hholds
  obtain ⟨hclaim, -⟩ := hholds
  have hrow : w.db.tasks.find c.taskId = some task := hclaim.id_eq ▸ hclaim.row
  simp only [go, markTaskRunning_eq_ok.2 ⟨hclaim.queued, rfl⟩] at hmove
  cases hmove
  constructor
  · rintro ⟨t, ht, hq⟩
    rw [hrow] at ht; cases ht
    exact hq hclaim.queued
  · have hfind : ([Write.taskRunning task.id c.now].foldl Db.write w.db).tasks.find c.taskId = _ := Db.find_task_foldl hrow
    refine ⟨_, hfind, ?_⟩
    simp [Write.taskId, Write.onTask, hclaim.id_eq]

theorem running_step {w : Deployment π} {i : π} {c : Choice} {m : Step} (hb : Base w) (ha : (running taskId).Account w)
    (hm : (pipeline plus).Fires w i c m) : (running taskId).Account ((pipeline plus).after w i m) := by
  have hspent : (running taskId).spent w.db → (running taskId).spent ((pipeline plus).after w i m).db := by
    rintro ⟨t, ht, hq⟩
    obtain ⟨roster, hU⟩ := (w.proc i).exists_uses
    obtain ⟨t', ht', hc⟩ := (effect_of_fires (hb.holds i) hU hm).task ht
    exact ⟨t', ht', hc.not_queued hq⟩
  refine ha.step hspent ?_
  by_cases hc : c = .go
  · subst hc
    rcases owes_of_go taskId hm.1 with hle | ⟨c, task, run, hp, rfl, hle⟩
    · exact .inl hle
    · obtain ⟨hfree, hused⟩ := start_spends hb hm hp
      exact .inr ⟨hfree, hused, hle⟩
  · left
    cases rollback_of_ne_go hm.1 hc
    exact Nat.zero_le _

end Account

/-! ### Runs -/

section Runs
variable {C : Deployment π → π × Choice → Prop} {w₀ w w' : Deployment π}

theorem runs_once (taskId : Uuid) (h₀ : Start w₀) (h : (pipeline plus).Run C w₀ w) : (running taskId).Account w := by
  have hbase : ∀ {v}, (pipeline plus).Run C w₀ v → Base v := fun hv => base_of_run h₀ hv
  have howes : ∀ i, (running taskId).owes (w₀.proc i) = 0 := fun i => by
    have he := h₀.entry i
    generalize w₀.proc i = p at he
    cases p <;> first | rfl | cases he
  exact (h.using hbase).invariant (.start h₀.trace howes) fun v i c m ha ⟨_, hb⟩ hm => running_step hb ha hm

omit [DecidableEq π] in
theorem Start.sound (h : Start w) (known : String → Prop) : Sound known w.db := by
  have hnone : ∀ id, w.db.results.find id = none := fun id => by
    cases hr : w.db.results.find id with
    | none => rfl
    | some r =>
      have hmem := Table.mem_of_find hr
      rw [h.results] at hmem
      cases hmem
  constructor
  · intro id
    rw [hnone id]
    constructor
    · intro hr; cases hr
    · rintro ⟨t, ht, hs⟩
      rw [h.tasks id t ht] at hs
      cases hs
  · intro id r hr
    rw [hnone id] at hr
    cases hr
  · intro f hf
    rw [h.findings] at hf
    cases hf
  · intro id t ht hs
    rw [h.tasks id t ht] at hs
    rcases hs with hs | hs <;> cases hs

theorem sound_of_run (h₀ : Start w₀) (hU : FixedRoster roster w₀) (h : (pipeline plus).Run C w₀ w) :
    FixedRoster roster w ∧ Sound (knows roster) w.db := by
  have hbase : ∀ {v}, (pipeline plus).Run C w₀ v → Base v := fun hv => base_of_run h₀ hv
  refine (h.using hbase).invariant (I := fun v => FixedRoster roster v ∧ Sound (knows roster) v.db)
    ⟨hU, h₀.sound _⟩ fun v i c m ⟨hU, hs⟩ ⟨_, hb⟩ hm => ⟨hU.step hm, ?_⟩
  exact (effect_of_fires (hb.holds i) (hU i) hm).sound hs

theorem barred_of_run (h₀ : Start w₀) (h : (pipeline plus).Run C w₀ w) (h' : (pipeline plus).Run C w w') {id : Uuid}
    {t : ScanTask} (ht : w.db.tasks.find id = some t) (hb : Barred t) :
    w'.db.results.find id = w.db.results.find id ∧
      ∃ t', w'.db.tasks.find id = some t' ∧ Barred t' ∧ (t'.status = .completed → t.status = .completed) := by
  have hbase : ∀ {v}, (pipeline plus).Run C w v → Base v := fun hv => base_of_run h₀ (h.trans hv)
  refine (h'.using hbase).invariant (I := fun v => v.db.results.find id = w.db.results.find id ∧
    ∃ t', v.db.tasks.find id = some t' ∧ Barred t' ∧ (t'.status = .completed → t.status = .completed))
    ⟨rfl, t, ht, hb, fun h => h⟩ fun v i c m ⟨hr, t₁, ht₁, hb₁, hcomp₁⟩ ⟨_, hb⟩ hm => ?_
  obtain ⟨roster, hU⟩ := (v.proc i).exists_uses
  obtain ⟨hr₂, t₂, ht₂, hb₂, hcomp₂⟩ := (effect_of_fires (hb.holds i) hU hm).barred ht₁ hb₁
  exact ⟨hr₂.trans hr, t₂, ht₂, hb₂, fun h => hcomp₁ (hcomp₂ h)⟩

theorem not_queued_of_run (h₀ : Start w₀) (h : (pipeline plus).Run C w₀ w) (h' : (pipeline plus).Run C w w') {id : Uuid}
    {t : ScanTask} (ht : w.db.tasks.find id = some t) (hq : t.status ≠ .queued) :
    ∃ t', w'.db.tasks.find id = some t' ∧ t'.status ≠ .queued := by
  have hbase : ∀ {v}, (pipeline plus).Run C w v → Base v := fun hv => base_of_run h₀ (h.trans hv)
  refine (h'.using hbase).invariant (I := fun v => ∃ t', v.db.tasks.find id = some t' ∧ t'.status ≠ .queued)
    ⟨t, ht, hq⟩ fun v i c m ⟨t₁, ht₁, hq₁⟩ ⟨_, hb⟩ hm => ?_
  obtain ⟨roster, hU⟩ := (v.proc i).exists_uses
  obtain ⟨t₂, ht₂, hc⟩ := (effect_of_fires (hb.holds i) hU hm).task ht₁
  exact ⟨t₂, ht₂, hc.not_queued hq₁⟩

/-- What the results say about the tasks, now and in every later state. -/
structure ResultsSound (C : Deployment π → π × Choice → Prop) (plus : Time → Time) (w : Deployment π) : Prop where
  /-- A task has a result exactly when it is completed. -/
  result_iff : ∀ id, (∃ r ∈ w.db.results.rows, r.scanTaskId = id) ↔
    ∃ t, w.db.tasks.find id = some t ∧ t.status = .completed
  one_result : ∀ r ∈ w.db.results.rows, ∀ r' ∈ w.db.results.rows, r.scanTaskId = r'.scanTaskId → r = r'
  /-- After a cancel or a terminal status no delivery completes the task or writes a result for it. -/
  barred : ∀ id t, w.db.tasks.find id = some t → Barred t → ∀ w', (pipeline plus).Run C w w' →
    w'.db.results.find id = w.db.results.find id ∧
      ∃ t', w'.db.tasks.find id = some t' ∧ (t'.status = .completed → t.status = .completed)
  /-- No task is taken out of the queue twice. -/
  left_queue : ∀ id t, w.db.tasks.find id = some t → t.status ≠ .queued → ∀ w', (pipeline plus).Run C w w' →
    ∃ t', w'.db.tasks.find id = some t' ∧ t'.status ≠ .queued
  runs_once : ∀ id, w.trace.countP (· = .ran id) ≤ 1
  result_owner : ∀ r ∈ w.db.results.rows, ∃ t, w.db.tasks.find r.scanTaskId = some t ∧ r.organizationId = t.organizationId
  finding_owner : ∀ f ∈ w.db.findings, ∃ r ∈ w.db.results.rows, f.scanResultId = r.id ∧
    ∃ t, w.db.tasks.find r.scanTaskId = some t ∧ f.organizationId = t.organizationId

/-- With one roster in every process, results are sound in every run. -/
theorem results_sound (h₀ : Start w₀) (hU : FixedRoster roster w₀) (h : (pipeline plus).Run C w₀ w) :
    ResultsSound C plus w := by
  obtain ⟨-, hs⟩ := sound_of_run h₀ hU h
  have howner : ∀ r ∈ w.db.results.rows,
      ∃ t, w.db.tasks.find r.scanTaskId = some t ∧ r.organizationId = t.organizationId := fun r hr =>
    hs.result_owner _ r (w.db.results.find_of_mem hr)
  constructor
  · intro id
    rw [← hs.result_iff id]
    constructor
    · rintro ⟨r, hr, rfl⟩
      rw [w.db.results.find_of_mem hr]
      rfl
    · intro hr
      obtain ⟨r, hr⟩ := Option.isSome_iff_exists.1 hr
      have hkey := Table.key_of_find hr
      exact ⟨r, Table.mem_of_find hr, hkey⟩
  · intro r hr r' hr' he
    have hf := w.db.results.find_of_mem hr
    rw [he, w.db.results.find_of_mem hr'] at hf
    exact (Option.some.inj hf).symm
  · intro id t ht hb w' h'
    obtain ⟨hr, t', ht', -, hcomp⟩ := barred_of_run h₀ h h' ht hb
    exact ⟨hr, t', ht', hcomp⟩
  · exact fun id t ht hq w' h' => not_queued_of_run h₀ h h' ht hq
  · exact fun id => (runs_once id h₀ h).total
  · exact howner
  · intro f hf
    obtain ⟨r, hr, hid, horg⟩ := hs.finding_owner f hf
    obtain ⟨t, ht, horg'⟩ := howner r hr
    exact ⟨r, hr, hid, t, ht, horg.trans horg'⟩

end Runs

/-! ### A delivery and its duplicate -/

namespace Delivered

open Vanished (mailvalidator)

def shared : Option Roster := some ⟨[mailvalidator]⟩

/-- `scan.run_module` for the task of the guest job; the module finds nothing. -/
def delivery : RunModuleCall where
  taskId := 10
  orgId := none
  scanJobId := some 1
  role := .nc3App
  workerQueue := "non-intrusive-scan"
  roster := shared
  now := Time.seconds 2
  engine _ := .ok (some { schemaVersion := "1.0", rawOutput := [] })
  postgres := .plain
  finished := Time.seconds 5
  uuid7 n := ⟨30 + n⟩
  finalizedAt := Time.seconds 6

def begin : Deployment (Fin 3) :=
  { Vanished.begin with
    proc := fun
      | 0 => .dispatch ⟨1, shared, 0, fun n => ⟨10 + n⟩, Time.seconds 1⟩
      | 1 | 2 => .runModule delivery }

theorem start : Start begin where
  entry := fun | 0 | 1 | 2 => trivial
  unlocked := Vanished.start.unlocked
  trace := rfl
  jobs := Vanished.start.jobs
  tasks := Vanished.start.tasks
  owned := Vanished.start.owned
  results := rfl
  findings := rfl

theorem fixedRoster : FixedRoster shared begin := fun | 0 | 1 | 2 => rfl

end Delivered

open Delivered in
/-- The first delivery completes the task, the duplicate finds it taken. -/
theorem results_sound_of_duplicate :
    ∃ w : Deployment (Fin 3), (pipeline id).Run (fun _ _ => True) begin w ∧ (∃ r, w.db.results.find 10 = some r) ∧
      w.proc 2 matches .done ∧ ResultsSound (fun _ _ => True) id w := by
  have run : ((pipeline id).exec (fun _ _ => True) begin
      (steps 0 11 ++ steps 1 6 ++ steps 2 2 ++ steps 1 10)).any
        (fun w => (w.db.results.find 10).isSome && w.proc 2 matches .done) = true := by
    decide +kernel
  obtain ⟨w, hw, hp⟩ := System.Run.of_exec_any run
  rw [Bool.and_eq_true] at hp
  exact ⟨w, hw, Option.isSome_iff_exists.1 hp.1, hp.2, results_sound start fixedRoster hw⟩

end TestingPlatform.Scan
