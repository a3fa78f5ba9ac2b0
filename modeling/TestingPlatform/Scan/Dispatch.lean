import TestingPlatform.Scan.Routing

/-!
# What a dispatch publishes

A delivery of `scan.dispatch` locks the job, reads or creates its tasks, commits, and then publishes the tasks
it went through that were queued without a cancel. `Telling` follows one delivery through its statements.
`dispatch_idempotent` puts it together with the matrix and the routes of the job.
-/

namespace TestingPlatform.Scan

open ReadCommitted System

variable {π : Type} [DecidableEq π] {plus : Time → Time} {r : Roster}

/-! ### What a dispatch has done -/

/-- The tasks that the loop does not pass over. -/
def sendable (t : ScanTask) : Bool := t.status = .queued ∧ t.cancellationRequestedAt = none

/-- What the statements of one dispatch have done so far. -/
structure Sending where
  /-- The job as it was locked. -/
  jobs : List ScanJob := []
  /-- The tasks read. -/
  reads : List (List ScanTask) := []
  /-- The tasks that the loop went through: those read, or those of the new matrix. -/
  loops : List (List ScanTask) := []
  /-- The plans committed. -/
  plans : List DispatchPlan := []
  /-- The tasks published, each with its queue. -/
  sent : List (Uuid × String) := []

def jobLocked (d : Db) (p : Proc) (op : Op Lock Write) : List ScanJob :=
  match p, op with
  | .dispatch c, .lock _ => (d.jobs.find c.jobId).toList
  | _, _ => []

def tasksRead (d : Db) (p : Proc) (op : Op Lock Write) : List (List ScanTask) :=
  match p, op with
  | .dispatchTasks _ job, .read => [d.tasksOf job.id]
  | _, _ => []

def tasksLooped (d : Db) (p : Proc) (op : Op Lock Write) : List (List ScanTask) :=
  match p, op with
  | .dispatchTasks c job, .read =>
    (planDispatch c job (d.tasksOf job.id)).toList.map fun p =>
      if d.tasksOf job.id = [] then p.created else d.tasksOf job.id
  | _, _ => []

def planCommitted (p : Proc) (op : Op Lock Write) : List DispatchPlan :=
  match p, op with
  | .dispatchCommit _ p, .commit _ => [p]
  | _, _ => []

def sendingOf (i : π) (H : Steps π) : Sending where
  jobs := gather (fun v m => jobLocked v.db (v.proc i) m.op) i H
  reads := gather (fun v m => tasksRead v.db (v.proc i) m.op) i H
  loops := gather (fun v m => tasksLooped v.db (v.proc i) m.op) i H
  plans := gather (fun v m => planCommitted (v.proc i) m.op) i H
  sent := gather (fun _ m => m.emit.filterMap Message.route) i H

def Sending.add (D : Sending) (d : Db) (p : Proc) (m : Step) : Sending where
  jobs := D.jobs ++ jobLocked d p m.op
  reads := D.reads ++ tasksRead d p m.op
  loops := D.loops ++ tasksLooped d p m.op
  plans := D.plans ++ planCommitted p m.op
  sent := D.sent ++ m.emit.filterMap Message.route

theorem sendingOf_self {i : π} {H : Steps π} {v : Deployment π} {m : Step} :
    sendingOf i (H ++ [⟨v, i, m⟩]) = (sendingOf i H).add v.db (v.proc i) m := by
  simp only [sendingOf, gather_self, Sending.add]

theorem sendingOf_of_ne {i j : π} {H : Steps π} {v : Deployment π} {m : Step} (h : j ≠ i) :
    sendingOf i (H ++ [⟨v, j, m⟩]) = sendingOf i H := by
  simp only [sendingOf, gather_of_ne h]

/-- What a delivery of `scan.dispatch` publishes. -/
structure Publishes (D : Sending) (ended : Prop) : Prop where
  /-- Nothing for a terminal job. -/
  terminal : ∀ job ∈ D.jobs, job.status.terminal = true → D.sent = []
  /-- Nothing without a commit. -/
  uncommitted : D.plans = [] → D.sent = []
  /-- A dispatch that has read a task commits, if it comes to its end. -/
  commits : ended → D.plans = [] → ∀ tasks ∈ D.reads, tasks = []
  /-- Only tasks it has seen queued without a cancel, in their order. -/
  only : D.plans ≠ [] → ∃ tasks, D.loops = [tasks] ∧ D.sent.map (·.1) <+: (tasks.filter sendable).map ScanTask.id
  /-- All of them, if it comes to its end. -/
  exactly : ended → D.plans ≠ [] → ∃ tasks, D.loops = [tasks] ∧ D.sent.map (·.1) = (tasks.filter sendable).map ScanTask.id

/-! ### Stages -/

def Open (D : Sending) : Prop := ∀ job ∈ D.jobs, job.status.terminal = false

/-- The plan is about the tasks of the loop, each of which has a module. -/
def Looped (c : DispatchCall) (D : Sending) (toPublish : List (Uuid × String)) : Prop :=
  ∃ tasks, D.loops = [tasks] ∧ toPublish = (sortTasks c.roster tasks).2 ∧
    ∀ t ∈ tasks, t.status = .queued → knows c.roster t.testKey

def Blank (D : Sending) : Prop := ∀ tasks ∈ D.reads, tasks = []

/-- The plan is committed, and `left` is still to be published. -/
structure Told (c : DispatchCall) (D : Sending) (left : List (Uuid × String)) : Prop where
  live : Open D
  committed : D.plans ≠ []
  looped : Looped c D (D.sent ++ left)

/-- Nothing is committed and nothing published. -/
structure Silent (D : Sending) : Prop where
  plans : D.plans = []
  sent : D.sent = []

/-- Where a dispatch stands; `calm` is that it is not killed. -/
def Telling (c : DispatchCall) (calm : Prop) (D : Sending) : Proc → Prop
  | .dispatch c' => c' = c ∧ D = {}
  | .dispatchTasks c' _ => c' = c ∧ Open D ∧ Silent D ∧ D.reads = [] ∧ D.loops = []
  | .dispatchInsert c' p | .dispatchBlock c' p _ | .dispatchCommit c' p =>
    c' = c ∧ Open D ∧ Silent D ∧ (Blank D ∨ p.created = []) ∧ Looped c D p.toPublish
  | .publish messages next => Told c D (messages.filterMap Message.route) ∧ ∀ c' run, next ≠ .engine c' run
  | .finalize _ | .count .. | .close .. => Told c D []
  | .release => Silent D ∧ Blank D ∨ Told c D []
  | .done => Silent D ∧ (calm → Blank D) ∨ ∃ left, Told c D left ∧ (calm → left = [])
  | _ => False

section Statements
variable {c : DispatchCall} {calm : Prop} {D : Sending} {d : Db} {p : Proc} {m : Step}

theorem Sending.add_quiet (hjobs : jobLocked d p m.op = []) (hreads : tasksRead d p m.op = []) (hloops : tasksLooped d p m.op = [])
    (hplans : planCommitted p m.op = []) (hsent : m.emit.filterMap Message.route = []) : D.add d p m = D := by
  rw [Sending.add, hjobs, hreads, hloops, hplans, hsent]
  simp only [List.append_nil]

theorem Sending.add_rollback (p : Proc) : D.add d p { op := .rollback, next := .done } = D := by
  refine Sending.add_quiet ?_ ?_ ?_ ?_ rfl
  all_goals cases p <;> rfl

theorem route_publishJobEvent (id : Uuid) (status : ScanJobStatus) (reason : Option String) (now : Time) :
    (publishJobEvent id status reason now).filterMap Message.route = [] := by
  unfold publishJobEvent
  split <;> rfl

theorem route_messages (p : DispatchPlan) (now : Time) : (p.messages now).filterMap Message.route = p.toPublish := by
  have hsends : (p.toPublish.map fun m => Message.runModule m.1 p.job.organizationId p.job.id m.2).filterMap Message.route =
      p.toPublish := by
    rw [List.filterMap_map]
    exact List.filterMap_some
  rw [DispatchPlan.messages, List.filterMap_append, hsends]
  split
  · rw [route_publishJobEvent, List.nil_append]
  · rfl

theorem planDispatch_toPublish {job : ScanJob} {tasks : List ScanTask} {p : DispatchPlan}
    (h : planDispatch c job tasks = some p) :
    p.toPublish = (sortTasks c.roster (if tasks = [] then p.created else tasks)).2 := by
  rcases planDispatch_cases h with ⟨hnil, -, -, created, -, -, -, rfl⟩ | ⟨hne, rfl⟩
  · rw [if_pos hnil]
  · rw [if_neg hne]

/-- What the loop publishes of a task that it does not pass over. -/
def published (roster : Option Roster) (t : ScanTask) : Option (Uuid × String) :=
  match queueFor roster t.testKey with
  | .error _ => none
  | .ok queue => some (t.id, queue)

theorem map_published {roster : Option Roster} {l : List ScanTask} (h : ∀ t ∈ l, knows roster t.testKey) :
    (l.filterMap (published roster)).map (·.1) = l.map ScanTask.id := by
  induction l with
  | nil => rfl
  | cons t l ih =>
    obtain ⟨queue, hqueue⟩ := h t List.mem_cons_self
    have hsome : published roster t = some (t.id, queue) := by rw [published, hqueue]
    rw [List.filterMap_cons_some hsome, List.map_cons, List.map_cons, ih fun t ht => h t (List.mem_cons_of_mem _ ht)]

/-- When every queued task has a module, the loop publishes each task that it does not pass over. -/
theorem sortTasks_sendable {roster : Option Roster} {tasks : List ScanTask}
    (hknown : ∀ t ∈ tasks, t.status = .queued → knows roster t.testKey) :
    (sortTasks roster tasks).2.map (·.1) = (tasks.filter sendable).map ScanTask.id := by
  refine map_published fun t ht => ?_
  obtain ⟨hmem, hs⟩ := List.mem_filter.1 ht
  exact hknown t hmem (of_decide_eq_true hs).1

theorem Telling.plan {job : ScanJob} (h : Telling c calm D (.dispatchTasks c job)) (hgo : go plus d (.dispatchTasks c job) = some m)
    (hid : job.id = c.jobId) (hr : c.roster = some r)
    (hknown : ∀ t ∈ d.tasksOf c.jobId, t.status = .blocked ∨ knows (some r) t.testKey) :
    Telling c calm (D.add d (.dispatchTasks c job) m) m.next := by
  obtain ⟨-, hopen, hsilent, hreads, hloops⟩ := h
  cases hgo
  have hjobs : Open (D.add d (.dispatchTasks c job) { op := .read, next := .release }) := by
    intro job' hmem
    exact hopen job' ((List.append_nil D.jobs) ▸ hmem)
  have hstill : Silent (D.add d (.dispatchTasks c job) { op := .read, next := .release }) := by
    constructor
    · exact (List.append_nil _).trans hsilent.plans
    · exact (List.append_nil _).trans hsilent.sent
  have hone : (D.add d (.dispatchTasks c job) { op := .read, next := .release }).reads = [d.tasksOf job.id] := by
    rw [Sending.add, hreads]
    rfl
  have hblank : d.tasksOf job.id = [] → Blank (D.add d (.dispatchTasks c job) { op := .read, next := .release }) := by
    intro hnil tasks hmem
    rw [hone, List.mem_singleton] at hmem
    rw [hmem, hnil]
  cases hplan : planDispatch c job (d.tasksOf job.id) with
  | none =>
    refine .inl ⟨hstill, hblank ?_⟩
    by_contra hne
    rw [planDispatch, if_neg hne] at hplan
    cases hplan
  | some p =>
    have hcreated : d.tasksOf job.id = [] ∨ p.created = [] := by
      by_cases hnil : d.tasksOf job.id = []
      · exact .inl hnil
      · exact .inr ((planDispatch_created hplan hr).1 hnil)
    refine ⟨rfl, hjobs, hstill, hcreated.imp_left hblank, if d.tasksOf job.id = [] then p.created else d.tasksOf job.id, ?_,
      planDispatch_toPublish hplan, fun t ht hq => ?_⟩
    · show D.loops ++ (planDispatch c job (d.tasksOf job.id)).toList.map _ = _
      rw [hloops, hplan]
      rfl
    · have hcases : t.status = .blocked ∨ knows (some r) t.testKey := by
        split at ht
        · exact ((planDispatch_created hplan hr).2.2 t ht).2
        · exact hknown t (hid ▸ ht)
      rw [hr]
      exact hcases.resolve_left (by rw [hq]; simp)

theorem Telling.next {held : Lock → Prop} (h : Telling c calm D p) (hgo : go plus d p = some m) (hA : p.Holds held d)
    (hr : c.roster = some r) (hknown : ∀ t ∈ d.tasksOf c.jobId, t.status = .blocked ∨ knows (some r) t.testKey) :
    Telling c calm (D.add d p m) m.next := by
  cases p with
  | dispatch c' =>
    obtain ⟨rfl, rfl⟩ := h
    cases hgo
    dsimp only
    split
    · exact .inl ⟨⟨rfl, rfl⟩, fun _ hmem => by cases hmem⟩
    · next job hjob =>
      split
      · exact .inl ⟨⟨rfl, rfl⟩, fun _ hmem => by cases hmem⟩
      · next hopen =>
        refine ⟨rfl, fun job' hmem => ?_, ⟨rfl, rfl⟩, rfl, rfl⟩
        have hmem' : job' ∈ (d.jobs.find c'.jobId).toList := hmem
        rw [hjob, Option.toList_some, List.mem_singleton] at hmem'
        rw [hmem']
        simpa using hopen
  | dispatchTasks c' job =>
    have hcalled : c' = c := h.1
    subst hcalled
    exact Telling.plan h hgo hA.2 hr hknown
  | dispatchInsert c' p =>
    cases hgo
    rw [Sending.add_quiet rfl rfl rfl rfl rfl]
    dsimp only
    split
    · exact h
    · next hclash =>
      obtain ⟨-, -, hsilent, hcreated, -⟩ := h
      refine .inl ⟨hsilent, hcreated.resolve_right fun hnil => hclash ?_⟩
      simp [hnil]
  | dispatchBlock c' p todo =>
    cases todo <;> (cases hgo; rw [Sending.add_quiet rfl rfl rfl rfl rfl]; exact h)
  | dispatchCommit c' p =>
    obtain ⟨rfl, hopen, hsilent, -, tasks, hloops, hpub, hall⟩ := h
    cases hgo
    have hadd : D.add d (.dispatchCommit c' p) ⟨.commit (p.writes c'.now), .publish (p.messages c'.now) (.finalize c'.finalize), []⟩ =
        { D with plans := [p] } := by
      rw [Sending.add, hsilent.plans]
      simp [jobLocked, tasksRead, tasksLooped, planCommitted]
    rw [hadd]
    refine ⟨⟨hopen, by simp, tasks, hloops, ?_, hall⟩, fun _ _ he => by cases he⟩
    show D.sent ++ (p.messages c'.now).filterMap Message.route = _
    rw [hsilent.sent, route_messages, List.nil_append, hpub]
  | publish messages next =>
    obtain ⟨htold, hnext⟩ := h
    cases messages with
    | nil =>
      cases hgo
      rw [Sending.add_quiet rfl rfl rfl rfl rfl]
      cases next with
      | engine c' run => exact absurd rfl (hnext c' run)
      | finalize => exact htold
      | done => exact .inr ⟨[], htold, fun _ => rfl⟩
    | cons x messages =>
      cases hgo
      have hadd : D.add d (.publish (x :: messages) next) ⟨.read, .publish messages next, [x]⟩ =
          { D with sent := D.sent ++ [x].filterMap Message.route } := by
        simp [Sending.add, jobLocked, tasksRead, tasksLooped, planCommitted]
      rw [hadd]
      have hleft : D.sent ++ (x :: messages).filterMap Message.route =
          (D.sent ++ [x].filterMap Message.route) ++ messages.filterMap Message.route := by
        rw [List.append_assoc, ← List.filterMap_append]
        rfl
      have hlooped := htold.looped
      rw [hleft] at hlooped
      exact ⟨⟨htold.live, htold.committed, hlooped⟩, hnext⟩
  | finalize f =>
    cases hgo
    rw [Sending.add_quiet rfl rfl rfl rfl rfl]
    dsimp only
    split
    · exact .inr h
    · split
      · exact .inr h
      · exact h
  | count f job =>
    cases hgo
    rw [Sending.add_quiet rfl rfl rfl rfl rfl]
    dsimp only
    split
    · exact .inr h
    · exact h
  | close f job outcome =>
    cases hgo
    rw [Sending.add_quiet rfl rfl rfl rfl rfl]
    refine ⟨?_, fun _ _ he => by cases he⟩
    rw [route_publishJobEvent]
    exact h
  | release =>
    cases hgo
    rw [Sending.add_quiet rfl rfl rfl rfl rfl]
    exact h.imp (fun hsilent => ⟨hsilent.1, fun _ => hsilent.2⟩) fun htold => ⟨[], htold, fun _ => rfl⟩
  | done => cases hgo
  | _ => exact h.elim

theorem Telling.killed (h : Telling c calm D p) (hcalm : ¬ calm) : Telling c calm D .done := by
  cases p with
  | dispatch =>
    obtain ⟨-, rfl⟩ := h
    exact .inl ⟨⟨rfl, rfl⟩, fun hc => absurd hc hcalm⟩
  | dispatchTasks | dispatchInsert | dispatchBlock | dispatchCommit => exact .inl ⟨h.2.2.1, fun hc => absurd hc hcalm⟩
  | publish => exact .inr ⟨_, h.1, fun hc => absurd hc hcalm⟩
  | finalize | count | close => exact .inr ⟨[], h, fun _ => rfl⟩
  | release => exact h.imp (fun hsilent => ⟨hsilent.1, fun _ => hsilent.2⟩) fun htold => ⟨[], htold, fun _ => rfl⟩
  | done => exact h
  | _ => exact h.elim

theorem Silent.publishes (h : Silent D) {ended : Prop} (hblank : ended → Blank D) : Publishes D ended :=
  ⟨fun _ _ _ => h.sent, fun _ => h.sent, fun hended _ => hblank hended, fun hne => absurd h.plans hne, fun _ hne => absurd h.plans hne⟩

theorem Told.publishes {left : List (Uuid × String)} (h : Told c D left) {ended : Prop} (hleft : ended → left = []) :
    Publishes D ended := by
  obtain ⟨tasks, hloops, hsorted, hall⟩ := h.looped
  have hids := sortTasks_sendable hall
  rw [← hsorted, List.map_append] at hids
  refine ⟨fun job hjob hterm => ?_, fun hnone => absurd hnone h.committed, fun _ hnone => absurd hnone h.committed,
    fun _ => ⟨tasks, hloops, _, hids⟩, fun hended _ => ?_⟩
  · rw [h.live job hjob] at hterm
    cases hterm
  · rw [hleft hended, List.map_nil, List.append_nil] at hids
    exact ⟨tasks, hloops, hids⟩

theorem Telling.publishes (h : Telling c calm D p) : Publishes D (calm ∧ p = .done) := by
  cases p with
  | dispatch =>
    obtain ⟨-, rfl⟩ := h
    exact Silent.publishes ⟨rfl, rfl⟩ fun hended => by cases hended.2
  | dispatchTasks | dispatchInsert | dispatchBlock | dispatchCommit => exact h.2.2.1.publishes fun hended => by cases hended.2
  | publish => exact h.1.publishes fun hended => by cases hended.2
  | finalize | count | close => exact Told.publishes h fun _ => rfl
  | release =>
    rcases h with ⟨hsilent, hblank⟩ | htold
    · exact hsilent.publishes fun _ => hblank
    · exact htold.publishes fun _ => rfl
  | done =>
    rcases h with ⟨hsilent, hblank⟩ | ⟨left, htold, hcalm⟩
    · exact hsilent.publishes fun hended => hblank hended.1
    · exact htold.publishes fun hended => hcalm hended.1
  | _ => exact h.elim

end Statements

/-! ### Runs -/

/-- What any number of dispatches of a job come to, next to runs of its tasks and sweeps. -/
structure Idempotent (C : Deployment π → π × Choice → Prop) (r : Roster) (job : ScanJob) (w₀ : Deployment π) (H : Steps π)
    (w : Deployment π) : Prop where
  matrix : Matrix r job H w
  publishes : ∀ i c, w₀.proc i = .dispatch c → c.jobId = job.id →
    Publishes (sendingOf i H) ((∀ v a, C v a → Unharmed i v a) ∧ w.proc i = .done)
  /-- A worker of the queue that a task was sent to does not refuse it, and nobody has blocked it. -/
  routed : ∀ taskId orgId scanJobId queue, .runModule taskId orgId scanJobId queue ∈ w.trace →
    ∃ t, w.db.tasks.find taskId = some t ∧ (∃ entry, r.require t.testKey queue = .ok entry) ∧ t.status ≠ .blocked
  gate : ∀ c task, c.roster = some r → task.cancellationRequestedAt = none →
    (refusal c task = none ↔ ∃ entry, r.require task.testKey c.workerQueue = .ok entry)

section Runs
variable {C : Deployment π → π × Choice → Prop} {w₀ w : Deployment π} {job : ScanJob} {H : Steps π}

theorem telling_of_path (h₀ : Start w₀) (hU : FixedRoster (some r) w₀) (hjob : w₀.db.jobs.find job.id = some job)
    (hnone : w₀.db.tasksOf job.id = []) (h : (pipeline plus).Path C w₀ H w) {i : π} {c : DispatchCall}
    (hi : w₀.proc i = .dispatch c) (hid : c.jobId = job.id) :
    Telling c (∀ v a, C v a → Unharmed i v a) (sendingOf i H) (w.proc i) := by
  have hr : c.roster = some r := by
    have hroster := hU i
    rwa [hi] at hroster
  have hpath := h.invariant (I := fun H w => Matrix r job H w ∧
      Telling c (∀ v a, C v a → Unharmed i v a) (sendingOf i H) (w.proc i))
    ⟨matrix_of_path h₀ hU hjob hnone (.refl : (pipeline plus).Path C w₀ [] w₀), by rw [hi]; exact ⟨rfl, rfl⟩⟩
    fun H w j ch m hrun ⟨hM, ht⟩ hC hm => by
      have hb := base_of_run h₀ hrun
      refine ⟨hM.step hb (plans_of_run h₀ hrun j) (hU.of_run hrun j) hm, ?_⟩
      by_cases hj : j = i
      · subst hj
        rw [sendingOf_self, proc_after_self]
        by_cases hgo : ch = .go
        · subst hgo
          exact ht.next hm.1 (hb.holds j) hr (by rw [hid]; exact hM.known)
        · cases rollback_of_ne_go hm.1 hgo
          rw [Sending.add_rollback]
          exact ht.killed fun hcalm => hgo (hcalm w _ hC rfl)
      · rw [sendingOf_of_ne hj, proc_after_of_ne (Ne.symm hj)]
        exact ht
  exact hpath.2

/-- Dispatch is idempotent, and routes only where the task can run. -/
theorem dispatch_idempotent (hC : ∀ v a, C v a → Brokered v a) (h₀ : Start w₀) (hU : FixedRoster (some r) w₀)
    (hjob : w₀.db.jobs.find job.id = some job) (hnone : w₀.db.tasksOf job.id = [])
    (h : (pipeline plus).Path C w₀ H w) : Idempotent C r job w₀ H w where
  matrix := matrix_of_path h₀ hU hjob hnone h
  publishes i c hi hid := (telling_of_path h₀ hU hjob hnone h hi hid).publishes
  routed taskId orgId scanJobId queue hmem := by
    have hrouting := routing_of_run hC h₀ hU h.run
    obtain ⟨t, ht, hqueue, hst⟩ := hrouting.sent (taskId, queue) (List.mem_filterMap.2 ⟨_, hmem, rfl⟩)
    exact ⟨t, ht, Roster.require_ok_iff.2 hqueue, hst⟩
  gate _ _ hr hopen := gate_eq_require hr hopen

end Runs

/-! ### A redelivered dispatch -/

namespace Redelivered

/-- Two deliveries of the dispatch of the guest job, and the delivery of its task. -/
def begin : Deployment (Fin 3) :=
  { Vanished.begin with
    proc := fun
      | 0 => .dispatch ⟨1, Delivered.shared, 0, fun n => ⟨10 + n⟩, Time.seconds 1⟩
      | 1 => .dispatch ⟨1, Delivered.shared, Time.seconds 2, fun n => ⟨20 + n⟩, Time.seconds 3⟩
      | 2 => .runModule Delivered.delivery }

theorem start : Start begin where
  entry := fun | 0 | 1 | 2 => trivial
  unlocked := Vanished.start.unlocked
  trace := rfl
  jobs := Vanished.start.jobs
  tasks := Vanished.start.tasks
  owned := Vanished.start.owned
  results := rfl
  findings := rfl

theorem fixedRoster : FixedRoster Delivered.shared begin := fun | 0 | 1 | 2 => rfl

end Redelivered

open Redelivered in
/-- The second delivery sends the task of the first again, and the worker that takes it runs it. -/
theorem dispatch_idempotent_of_redelivery :
    ∃ (H : Steps (Fin 3)) (w : Deployment (Fin 3)), (pipeline id).Path Brokered begin H w ∧
      (sendingOf 0 H).sent = [(10, "non-intrusive-scan")] ∧ (sendingOf 1 H).sent = [(10, "non-intrusive-scan")] ∧
      (∃ t, w.db.tasks.find 10 = some t ∧ t.status = .completed) ∧
      Idempotent Brokered ⟨[Vanished.mailvalidator]⟩ Vanished.job begin H w := by
  have run : ((pipeline id).trail Brokered begin
      (steps 0 11 ++ steps 1 10 ++ steps 2 18)).any (fun s =>
        decide ((sendingOf 0 s.1).sent = [(10, "non-intrusive-scan")]) &&
        decide ((sendingOf 1 s.1).sent = [(10, "non-intrusive-scan")]) &&
        (s.2.db.tasks.find 10).any fun t => t.status = .completed) = true := by
    decide +kernel
  obtain ⟨H, w, hpath, hp⟩ := System.Path.of_trail_any run
  simp only [Bool.and_eq_true, decide_eq_true_eq] at hp
  obtain ⟨t, ht, hst⟩ := (Option.any_eq_true ..).1 hp.2
  exact ⟨H, w, hpath, hp.1.1, hp.1.2, ⟨t, ht, of_decide_eq_true hst⟩,
    dispatch_idempotent (fun _ _ hC => hC) start fixedRoster rfl rfl hpath⟩

end TestingPlatform.Scan
