import TestingPlatform.Scan.Matrix

/-!
# Where tasks are sent

`dispatch` reads the queue of a task from the roster; `run_module` asks its own roster again and compares
the declared queue with the one its worker consumes, in code of its own instead of `Roster.require`. The two
gates are the same (`gate_eq_require`). With one roster in every process, and a broker that hands a message
to a worker of its queue, a task that was sent is therefore never blocked: `Routes` follows the queue from the
plan of a dispatch to the message, and `Routed` says what the message relies on in the committed row.
-/

namespace TestingPlatform.Scan

open ReadCommitted

variable {π : Type} [DecidableEq π] {plus : Time → Time} {r : Roster}

/-! ### The gate -/

/-- The gate of `run_module` lets a task pass exactly when `Roster.require` does. -/
theorem gate_eq_require {c : RunModuleCall} {task : ScanTask} (hr : c.roster = some r)
    (hopen : task.cancellationRequestedAt = none) :
    refusal c task = none ↔ ∃ entry, r.require task.testKey c.workerQueue = .ok entry := by
  rw [Roster.require_ok_iff, refusal, if_neg (by simp [hopen]), hr, queueFor]
  cases hq : r.queueFor task.testKey with
  | error exc => simp
  | ok declared =>
    by_cases he : declared = c.workerQueue
    · simp [he]
    · simp [he]

theorem not_blocked_of_require {c : RunModuleCall} {task : ScanTask} {status : ScanTaskStatus} {reason : String}
    (hr : c.roster = some r) (hqueue : r.queueFor task.testKey = .ok c.workerQueue)
    (hrefusal : refusal c task = some (status, reason)) : status = .canceled := by
  by_cases hcan : task.cancellationRequestedAt = none
  · have hpass := (gate_eq_require hr hcan).2 (Roster.require_ok_iff.2 hqueue)
    rw [hpass] at hrefusal
    cases hrefusal
  · have hsome : task.cancellationRequestedAt.isSome = true := Option.isSome_iff_ne_none.2 hcan
    rw [refusal, if_pos hsome] at hrefusal
    cases hrefusal
    rfl

/-! ### Messages and their rows -/

/-- The task and the queue of a `scan.run_module` message. -/
def Message.route : Message → Option (Uuid × String)
  | .runModule taskId _ _ queue => some (taskId, queue)
  | _ => none

/-- The message that the delivery has come from. -/
def Proc.taken : Proc → Option (Uuid × String)
  | .runModule c => some (c.taskId, c.workerQueue)
  | _ => none

/-- The broker hands a message of `scan.run_module` that was sent to a worker of its queue. -/
def Brokered (w : Deployment π) (a : π × Choice) : Prop :=
  a.2 = .go → ∀ m ∈ (w.proc a.1).taken, m ∈ w.trace.filterMap Message.route

instance (w : Deployment π) (a : π × Choice) : Decidable (Brokered w a) :=
  inferInstanceAs (Decidable (a.2 = .go → ∀ m ∈ (w.proc a.1).taken, m ∈ w.trace.filterMap Message.route))

/-- The task is there for a worker of the queue. -/
def Routed (r : Roster) (d : Db) (m : Uuid × String) : Prop :=
  ∃ t, d.tasks.find m.1 = some t ∧ r.queueFor t.testKey = .ok m.2 ∧ t.status ≠ .blocked

/-- The plan creates the task for a worker of the queue. -/
def Creates (r : Roster) (p : DispatchPlan) (m : Uuid × String) : Prop :=
  ∃ t ∈ p.created, t.id = m.1 ∧ r.queueFor t.testKey = .ok m.2 ∧ t.status = .queued

/-- The plan that a dispatch carries out. -/
def Proc.plan : Proc → Option DispatchPlan
  | .dispatchInsert _ p | .dispatchBlock _ p _ | .dispatchCommit _ p => some p
  | _ => none

/-- The message that a delivery about to refuse its task has come from. -/
def Proc.refusing : Proc → Option (Uuid × String)
  | .refuse c _ _ _ => some (c.taskId, c.workerQueue)
  | _ => none

/-- What a process relies on when it routes tasks or has been given one. -/
structure Proc.Routes (r : Roster) (trace : List Message) (d : Db) (p : Proc) : Prop where
  plan : ∀ pl ∈ p.plan, ∀ m ∈ pl.toPublish, Routed r d m ∨ Creates r pl m
  outbox : ∀ m ∈ p.outbox.filterMap Message.route, Routed r d m
  refusing : ∀ m ∈ p.refusing, m ∈ trace.filterMap Message.route

theorem Proc.Routes.of_none {trace : List Message} {d : Db} {p : Proc} (hplan : p.plan = none) (hout : p.outbox = [])
    (hrefusing : p.refusing = none) : p.Routes r trace d := by
  constructor
  · simp [hplan]
  · simp [hout]
  · simp [hrefusing]

/-- What was sent and what is to be sent is routed. -/
structure Routing (r : Roster) (w : Deployment π) : Prop where
  sent : ∀ m ∈ w.trace.filterMap Message.route, Routed r w.db m
  procs : ∀ i, (w.proc i).Routes r w.trace w.db

/-! ### One commit -/

section Commit
variable {held : Lock → Prop} {d : Db} {p q : Proc} {ws : List Write} {trace : List Message}

theorem Commits.spares (h : Commits plus p ws q) (hA : p.Holds held d) (hU : p.Uses (some r)) (hR : p.Routes r trace d)
    (hsent : ∀ m ∈ trace.filterMap Message.route, Routed r d m) {m : Uuid × String} (hm : Routed r d m) :
    ∀ u ∈ ws, u.taskId = some m.1 → ∀ t, t.status ≠ .blocked → (u.onTask t).status ≠ .blocked := by
  obtain ⟨t₀, ht₀, hqueue, -⟩ := hm
  intro u hu htask t ht
  cases h with
  | dispatch c p =>
    simp only [DispatchPlan.writes, List.mem_append, List.mem_map] at hu
    rcases hu with (hu | ⟨t, -, rfl⟩) | ⟨k, hk, rfl⟩
    · rw [(mem_markJobRunning hu).1] at htask
      cases htask
    · cases htask
    · -- a vanished task has no module
      have he : k = m.1 := Option.some.inj htask
      obtain ⟨t₁, ht₁, -, hnot⟩ := hA.1.vanished_of k hk
      rw [he, ht₀] at ht₁
      cases ht₁
      rw [show c.roster = some r from hU] at hnot
      exact absurd ⟨m.2, hqueue⟩ hnot
  | refuse c task status reason =>
    rw [List.mem_singleton.1 hu] at htask ⊢
    have he : task.id = m.1 := Option.some.inj htask
    obtain ⟨hclaim, hrefusal⟩ := hA
    obtain ⟨t₁, ht₁, hq₁, -⟩ := hsent _ (hR.refusing _ rfl)
    obtain rfl : t₁ = task := Option.some.inj (ht₁.symm.trans (hclaim.id_eq ▸ hclaim.row))
    have hcanceled := not_blocked_of_require hU hq₁ hrefusal
    show status ≠ .blocked
    rw [hcanceled]
    simp
  | start c task run =>
    rw [List.mem_singleton.1 hu]
    simp [Write.onTask]
  | finish c run task v =>
    obtain ⟨outcome, rfl⟩ := hA.1.verdict
    rw [Verdict.writes, List.mem_append] at hu
    rcases hu with hu | hu
    · split at hu
      · cases hu
      · rcases List.mem_cons.1 hu with rfl | hu
        · exact ht
        · obtain ⟨g, -, rfl⟩ := List.mem_map.1 hu
          exact ht
    · rw [List.mem_singleton.1 hu]
      exact verdict_ne_blocked c task outcome
  | reap c live =>
    obtain ⟨k, -, rfl⟩ := List.mem_map.1 hu
    simp [Write.onTask]
  | close f job outcome =>
    rw [List.mem_singleton.1 hu]
    exact ht
  | cancel c =>
    rw [List.mem_singleton.1 hu]
    exact ht

theorem Commits.routed (h : Commits plus p ws q) (hA : p.Holds held d) (hU : p.Uses (some r)) (hR : p.Routes r trace d)
    (hsent : ∀ m ∈ trace.filterMap Message.route, Routed r d m) {m : Uuid × String} (hm : Routed r d m) :
    Routed r (ws.foldl Db.write d) m := by
  have hspares := h.spares hA hU hR hsent hm
  obtain ⟨t, ht, hqueue, hst⟩ := hm
  refine ⟨_, Db.find_task_foldl ht, ?_⟩
  refine Db.foldl_onTask_induction (I := fun t => r.queueFor t.testKey = .ok m.2 ∧ t.status ≠ .blocked) ⟨hqueue, hst⟩
    fun u hu htask t ⟨hq, hne⟩ => ⟨?_, hspares u hu htask t hne⟩
  rw [Write.onTask_testKey]
  exact hq

theorem Commits.routes_outbox (h : Commits plus p ws q) {m : Uuid × String} (hm : m ∈ q.outbox.filterMap Message.route) :
    ∃ c p', p = .dispatchCommit c p' ∧ m ∈ p'.toPublish := by
  obtain ⟨x, hx, hroute⟩ := List.mem_filterMap.1 hm
  have event : ∀ {id status reason now}, x ∉ publishJobEvent id status reason now := by
    intro id status reason now hx
    rcases List.mem_cons.1 hx with rfl | hx
    · cases hroute
    · split at hx
      · rw [List.mem_singleton.1 hx] at hroute
        cases hroute
      · cases hx
  cases h with
  | dispatch c p =>
    refine ⟨c, p, rfl, ?_⟩
    rcases List.mem_append.1 hx with hx | hx
    · split at hx
      · exact absurd hx event
      · cases hx
    · obtain ⟨n, hn, rfl⟩ := List.mem_map.1 hx
      cases hroute
      exact hn
  | refuse | start | finish =>
    rw [List.mem_singleton.1 hx] at hroute
    cases hroute
  | reap c live =>
    obtain ⟨id, -, hx⟩ := List.mem_flatMap.1 hx
    simp only [List.mem_cons, List.not_mem_nil, or_false] at hx
    rcases hx with rfl | rfl <;> cases hroute
  | close f job outcome => exact absurd hx event
  | cancel => cases hx

theorem Commits.find_created {c : DispatchCall} {p : DispatchPlan} (h : Commits plus (.dispatchCommit c p) ws q)
    (hA : (Proc.dispatchCommit c p).Holds held d) (hP : (Proc.dispatchCommit c p).Plans d) {t : ScanTask}
    (ht : t ∈ p.created) : (ws.foldl Db.write d).tasks.find t.id = some t := by
  have hentries := h.entries hA hP p.job.id
  have hd : (Proc.dispatchCommit c p).dispatching = some p.job.id := rfl
  rw [h.insertsFor hA, if_pos hd] at hentries
  have hentry : entryOf t ∈ ((ws.foldl Db.write d).tasksOf p.job.id).map entryOf := by
    rw [hentries]
    exact List.mem_append_right _ (List.mem_map_of_mem ht)
  obtain ⟨t', ht', he⟩ := List.mem_map.1 hentry
  have hid : t'.id = t.id := congrArg Prod.fst he
  have hfind := Table.find_of_mem (Db.mem_tasksOf.1 ht').1
  have hnew : t' ∈ p.created := by
    cases h
    exact hA.1.mem_created (hid ▸ (hA.2.1 t ht).2) hfind
  rw [← hid, hfind, List.inj_on_of_nodup_map hP.2 hnew ht hid]

end Commit

/-! ### One statement -/

section Statement
variable {d : Db}

theorem mem_toPublish {roster : Option Roster} {tasks : List ScanTask} {m : Uuid × String}
    (hm : m ∈ (sortTasks roster tasks).2) :
    ∃ t ∈ tasks, t.status = .queued ∧ t.cancellationRequestedAt = none ∧ t.id = m.1 ∧ queueFor roster t.testKey = .ok m.2 := by
  obtain ⟨t, ht, hsent⟩ := List.mem_filterMap.1 hm
  obtain ⟨ht, hsendable⟩ := List.mem_filter.1 ht
  obtain ⟨hq, hcan⟩ := of_decide_eq_true hsendable
  split at hsent
  · cases hsent
  · next queue hqueue =>
    cases hsent
    exact ⟨t, ht, hq, hcan, rfl, hqueue⟩

theorem planDispatch_routes {c : DispatchCall} {job : ScanJob} {p : DispatchPlan} (hr : c.roster = some r)
    (h : planDispatch c job (d.tasksOf job.id) = some p) : ∀ m ∈ p.toPublish, Routed r d m ∨ Creates r p m := by
  intro m hm
  rcases planDispatch_cases h with ⟨-, -, -, created, -, -, -, rfl⟩ | ⟨-, rfl⟩
  · obtain ⟨t, ht, hq, -, hid, hqueue⟩ := mem_toPublish hm
    rw [hr] at hqueue
    exact .inr ⟨t, ht, hid, hqueue, hq⟩
  · obtain ⟨t, ht, hq, -, hid, hqueue⟩ := mem_toPublish hm
    rw [hr] at hqueue
    have hfind := Table.find_of_mem (Db.mem_tasksOf.1 ht).1
    exact .inl ⟨t, hid ▸ hfind, hqueue, by rw [hq]; simp⟩

/-- A dispatch carries out the plan it has made, and refuses its task who was just given it. -/
theorem plan_of_go {p : Proc} {m : Step} (h : go plus d p = some m) :
    (∀ pl, m.next.plan = some pl → p.plan = some pl ∨
      ∃ c job, p = .dispatchTasks c job ∧ planDispatch c job (d.tasksOf job.id) = some pl) ∧
      ∀ x, m.next.refusing = some x → p.taken = some x := by
  have none : m.next.plan = .none → m.next.refusing = .none →
      (∀ pl, m.next.plan = some pl → p.plan = some pl ∨
        ∃ c job, p = .dispatchTasks c job ∧ planDispatch c job (d.tasksOf job.id) = some pl) ∧
        ∀ x, m.next.refusing = some x → p.taken = some x := by
    intro hp hr
    rw [hp, hr]
    exact ⟨fun _ hn => (by cases hn), fun _ hn => (by cases hn)⟩
  cases go_leads h with
  | ends _ _ hq => rcases hq with rfl | rfl <;> exact none rfl rfl
  | commits _ hcommits => cases hcommits <;> exact none rfl rfl
  | @sent next => cases next <;> exact none rfl rfl
  | @planned c job pl hplan =>
    refine ⟨fun pl' hpl' => .inr ⟨c, job, rfl, ?_⟩, fun _ hn => by cases hn⟩
    rw [← Option.some.inj hpl', hplan]
  | inserted | blocks | blocked => exact ⟨fun _ hpl => .inl hpl, fun _ hn => by cases hn⟩
  | refuses => exact ⟨fun _ hn => (by cases hn), fun _ hx => by cases hx; rfl⟩
  | _ => exact none rfl rfl

end Statement

/-! ### Runs -/

section Runs
variable {C : Deployment π → π × Choice → Prop} {w₀ w : Deployment π} {i : π} {c : Choice} {m : Step}

theorem Routing.routed (hR : Routing r w) (hb : Base w) (hU : FixedRoster (some r) w)
    (hm : (pipeline plus).Fires w i c m) {x : Uuid × String} (hx : Routed r w.db x) :
    Routed r ((pipeline plus).after w i m).db x := by
  rw [System.db_after]
  cases hop : m.op with
  | commit ws => exact (Commits.of_move hm.1 hop).routed (hb.holds i) (hU i) (hR.procs i) hR.sent hx
  | read | lock | unlock | rollback => exact hx

/-- What was sent is `S` in the committed rows, and what a plan will send is `S` or about a new row that is `N`. -/
structure Sends (S : Db → Uuid × String → Prop) (N : ScanTask → String → Prop) (w : Deployment π) : Prop where
  sent : ∀ m ∈ w.trace.filterMap Message.route, S w.db m
  plan : ∀ i, ∀ pl ∈ (w.proc i).plan, ∀ m ∈ pl.toPublish, S w.db m ∨ ∃ t ∈ pl.created, t.id = m.1 ∧ N t m.2
  outbox : ∀ i, ∀ m ∈ (w.proc i).outbox.filterMap Message.route, S w.db m

section Sends
variable {S : Db → Uuid × String → Prop} {N : ScanTask → String → Prop}

theorem Sends.of_go (hS : Sends S N w) (hb : Base w) (hP : ∀ i, (w.proc i).Plans w.db)
    (hkeep : ∀ x, S w.db x → S ((pipeline plus).after w i m).db x)
    (hnew : ∀ {d t q}, d.tasks.find t.id = some t → N t q → S d (t.id, q)) (hm : (pipeline plus).Fires w i .go m)
    {x : Uuid × String} (hx : x ∈ (m.emit ++ m.next.outbox).filterMap Message.route) :
    S ((pipeline plus).after w i m).db x := by
  rcases outbox_of_go hm.1 with hsame | ⟨hemit, -, ws, hop⟩ | ⟨-, hother⟩
  · rw [hsame] at hx
    exact hkeep x (hS.outbox i x hx)
  · rw [hemit, List.nil_append] at hx
    have hcom := Commits.of_go hm.1 hop
    obtain ⟨c, p, hp, hpub⟩ := hcom.routes_outbox hx
    rcases hS.plan i p (by rw [hp]; rfl) x hpub with hsent | ⟨t, ht, hid, hN⟩
    · exact hkeep x hsent
    · have hholds := hb.holds i
      have hplans := hP i
      rw [hp] at hcom hholds hplans
      have hfind := hcom.find_created hholds hplans ht
      obtain ⟨id, q⟩ := x
      obtain rfl : t.id = id := hid
      rw [System.db_after, hop]
      exact hnew hfind hN
  · obtain ⟨y, hy, hroute⟩ := List.mem_filterMap.1 hx
    rcases hother y hy with ⟨id, rfl⟩ | ⟨job, -, -, now, rfl⟩ <;> cases hroute

/-- It is enough that `S` lasts and that a plan is made so. -/
theorem Sends.step (hS : Sends S N w) (hb : Base w) (hP : ∀ i, (w.proc i).Plans w.db)
    (hkeep : ∀ x, S w.db x → S ((pipeline plus).after w i m).db x)
    (hnew : ∀ {d t q}, d.tasks.find t.id = some t → N t q → S d (t.id, q))
    (hmade : ∀ c job pl, w.proc i = .dispatchTasks c job → planDispatch c job (w.db.tasksOf job.id) = some pl →
      ∀ x ∈ pl.toPublish, S w.db x ∨ ∃ t ∈ pl.created, t.id = x.1 ∧ N t x.2)
    (hm : (pipeline plus).Fires w i c m) : Sends S N ((pipeline plus).after w i m) := by
  have hmoved : (∀ x ∈ m.emit.filterMap Message.route, S ((pipeline plus).after w i m).db x) ∧
      (∀ pl ∈ m.next.plan, ∀ x ∈ pl.toPublish, S w.db x ∨ ∃ t ∈ pl.created, t.id = x.1 ∧ N t x.2) ∧
      ∀ x ∈ m.next.outbox.filterMap Message.route, S ((pipeline plus).after w i m).db x := by
    by_cases hc : c = .go
    · subst hc
      have hout : ∀ x ∈ (m.emit ++ m.next.outbox).filterMap Message.route, S ((pipeline plus).after w i m).db x :=
        fun x => hS.of_go hb hP hkeep hnew hm
      rw [List.filterMap_append] at hout
      refine ⟨fun x hx => hout x (List.mem_append_left _ hx), ?_, fun x hx => hout x (List.mem_append_right _ hx)⟩
      intro pl hpl
      rcases (plan_of_go hm.1).1 pl hpl with hsame | ⟨c, job, hp, hplan⟩
      · exact hS.plan i pl hsame
      · exact hmade c job pl hp hplan
    · cases rollback_of_ne_go hm.1 hc
      exact ⟨fun x hx => (by cases hx), fun pl hpl => (by cases hpl), fun x hx => by cases hx⟩
  obtain ⟨hemit, hplan, hout⟩ := hmoved
  constructor
  · intro x hx
    rw [System.trace_after, List.filterMap_append] at hx
    rcases List.mem_append.1 hx with hx | hx
    · exact hkeep x (hS.sent x hx)
    · exact hemit x hx
  · intro j pl hpl x hx
    by_cases hij : j = i
    · subst hij
      rw [System.proc_after_self] at hpl
      exact (hplan pl hpl x hx).imp_left (hkeep x)
    · rw [System.proc_after_of_ne hij] at hpl
      exact (hS.plan j pl hpl x hx).imp_left (hkeep x)
  · intro j x hx
    by_cases hij : j = i
    · subst hij
      rw [System.proc_after_self] at hx
      exact hout x hx
    · rw [System.proc_after_of_ne hij] at hx
      exact hkeep x (hS.outbox j x hx)

omit [DecidableEq π] in
theorem Sends.start (h₀ : Start w₀) : Sends S N w₀ := by
  refine ⟨by rw [h₀.trace]; simp, fun i pl hpl => ?_, fun i x hx => ?_⟩
  all_goals
    have he := h₀.entry i
    generalize w₀.proc i = p at *
    cases p <;> first
      | exact False.elim he
      | cases hpl
      | cases hx

end Sends

theorem Routing.step (hR : Routing r w) (hb : Base w) (hP : ∀ i, (w.proc i).Plans w.db) (hU : FixedRoster (some r) w)
    (hbroker : Brokered w (i, c)) (hm : (pipeline plus).Fires w i c m) : Routing r ((pipeline plus).after w i m) := by
  have hS : Sends (Routed r) (fun t queue => r.queueFor t.testKey = .ok queue ∧ t.status = .queued) w :=
    ⟨hR.sent, fun i => (hR.procs i).plan, fun i => (hR.procs i).outbox⟩
  have hafter := hS.step hb hP (fun x => hR.routed hb hU hm)
    (fun hfind hN => ⟨_, hfind, hN.1, by rw [hN.2]; simp⟩)
    (fun c job pl hp hmade => planDispatch_routes (by have hroster := hU i; rw [hp] at hroster; exact hroster) hmade) hm
  refine ⟨hafter.sent, fun j => ⟨hafter.plan j, hafter.outbox j, fun x hx => ?_⟩⟩
  rw [System.trace_after, List.filterMap_append]
  refine List.mem_append_left _ ?_
  by_cases hij : j = i
  · subst hij
    rw [System.proc_after_self] at hx
    by_cases hc : c = .go
    · subst hc
      exact hbroker rfl x ((plan_of_go hm.1).2 x hx)
    · cases rollback_of_ne_go hm.1 hc
      cases hx
  · rw [System.proc_after_of_ne hij] at hx
    exact (hR.procs j).refusing x hx

theorem routing_of_run (hC : ∀ v a, C v a → Brokered v a) (h₀ : Start w₀) (hU : FixedRoster (some r) w₀)
    (h : (pipeline plus).Run C w₀ w) : Routing r w := by
  have hruns : ∀ {v}, (pipeline plus).Run C w₀ v → Base v ∧ (∀ i, (v.proc i).Plans v.db) ∧ FixedRoster (some r) v :=
    fun hv => ⟨base_of_run h₀ hv, plans_of_run h₀ hv, hU.of_run hv⟩
  have hstart : Routing r w₀ := by
    refine ⟨by rw [h₀.trace]; simp, fun i => ?_⟩
    have he := h₀.entry i
    generalize w₀.proc i = p at he
    cases p <;> first
      | exact False.elim he
      | exact .of_none rfl rfl rfl
  exact (h.using hruns).invariant (I := Routing r) hstart
    fun v i c m hR ⟨hCv, hb, hP, hU⟩ hm => hR.step hb hP hU (hC v _ hCv) hm

end Runs

/-! ### Rows that plans create -/

/-- The new rows of the plan that the dispatch carries out are `Q`. -/
def Proc.Drafts (Q : ScanTask → Prop) (p : Proc) : Prop := ∀ pl, p.plan = some pl → ∀ t ∈ pl.created, Q t

section Drafts
variable {Q : ScanTask → Prop} {J : ScanJob → Prop} {C : Deployment π → π × Choice → Prop} {w₀ w : Deployment π} {i : π}
  {c : Choice} {m : Step}

/-- What holds of the jobs whatever is written to them, and of every row that a plan makes of such a job. -/
structure Drafting (Q : ScanTask → Prop) (J : ScanJob → Prop) (w : Deployment π) : Prop where
  job : ∀ id j, w.db.jobs.find id = some j → J j
  drafts : ∀ i, (w.proc i).Drafts Q

theorem Drafting.step (hJ : ∀ u j, J j → J (Write.onJob u j))
    (hplan : ∀ c job tasks pl, J job → planDispatch c job tasks = some pl → ∀ t ∈ pl.created, Q t)
    (hb : Base w) (hw : Drafting Q J w) (hm : (pipeline plus).Fires w i c m) :
    Drafting Q J ((pipeline plus).after w i m) := by
  constructor
  · rw [System.db_after]
    cases hop : m.op with
    | commit ws =>
      intro id j' hj'
      change (ws.foldl Db.write w.db).jobs.find id = some j' at hj'
      cases hj : w.db.jobs.find id with
      | none =>
        rw [Db.find_job_foldl_none hj] at hj'
        cases hj'
      | some j =>
        rw [Db.find_job_foldl hj, Option.some.injEq] at hj'
        rw [← hj']
        refine List.foldlRecOn ws _ (hw.job id j hj) fun j hj u _ => ?_
        split
        · exact hJ u j hj
        · exact hj
    | read | lock | unlock | rollback => exact hw.job
  · intro j
    by_cases hij : j = i
    · subst hij
      rw [System.proc_after_self]
      by_cases hc : c = .go
      · subst hc
        intro pl hpl
        rcases (plan_of_go hm.1).1 pl hpl with hsame | ⟨c, job, hp, hmade⟩
        · exact hw.drafts j pl hsame
        · have hholds := hb.holds j
          rw [hp] at hholds
          exact hplan c job _ pl (hw.job _ _ hholds.1.row) hmade
      · cases rollback_of_ne_go hm.1 hc
        exact fun pl hpl => by cases hpl
    · rw [System.proc_after_of_ne hij]
      exact hw.drafts j

theorem drafting_of_run (hJ : ∀ u j, J j → J (Write.onJob u j))
    (hplan : ∀ c job tasks pl, J job → planDispatch c job tasks = some pl → ∀ t ∈ pl.created, Q t) (h₀ : Start w₀)
    (hjobs : ∀ id j, w₀.db.jobs.find id = some j → J j) (h : (pipeline plus).Run C w₀ w) : Drafting Q J w := by
  have hbase : ∀ {v}, (pipeline plus).Run C w₀ v → Base v := fun hv => base_of_run h₀ hv
  have hstart : Drafting Q J w₀ := by
    refine ⟨hjobs, fun i pl hpl => ?_⟩
    have he := h₀.entry i
    generalize w₀.proc i = p at he hpl
    cases p <;> first
      | exact False.elim he
      | cases hpl
  exact (h.using hbase).invariant (I := Drafting Q J) hstart fun v i c m hv ⟨_, hb⟩ hm => hv.step hJ hplan hb hm

theorem Drafting.created (hw : Drafting Q J w) (hb : Base w) (hm : (pipeline plus).Fires w i c m) {id : Uuid}
    {t : ScanTask} (hnone : w.db.tasks.find id = none) (ht : ((pipeline plus).after w i m).db.tasks.find id = some t) :
    Q t := by
  obtain ⟨roster, hU⟩ := (w.proc i).exists_uses
  have hd := ((effect_of_fires (hb.holds i) hU hm).created hnone ht).1
  have hholds := hb.holds i
  have hdrafts := hw.drafts i
  rw [System.db_after] at ht
  cases hop : m.op with
  | commit ws =>
    rw [hop] at ht
    have hcom := Commits.of_move hm.1 hop
    generalize w.proc i = p at hcom hd hholds hdrafts
    generalize m.next = q at hcom
    cases p with
    | dispatchCommit c p =>
      cases hcom
      exact hdrafts p rfl t (hholds.1.mem_created hnone ht)
    | _ => cases hd
  | read | lock | unlock | rollback =>
    rw [hop] at ht
    exact absurd (hnone.symm.trans ht) (by simp)

/-- What the arrows of the state diagram keep holds of every row of a run. -/
theorem rows_of_run (hJ : ∀ u j, J j → J (Write.onJob u j))
    (hplan : ∀ c job tasks pl, J job → planDispatch c job tasks = some pl → ∀ t ∈ pl.created, Q t)
    (hQ : ∀ {a d t t'}, TaskChange a d t t' → Q t → Q t') (h₀ : Start w₀)
    (hjobs : ∀ id j, w₀.db.jobs.find id = some j → J j) (htasks : ∀ id t, w₀.db.tasks.find id = some t → Q t)
    (h : (pipeline plus).Run C w₀ w) : ∀ id t, w.db.tasks.find id = some t → Q t := by
  have hdrafting : ∀ {v}, (pipeline plus).Run C w₀ v → Base v ∧ Drafting Q J v :=
    fun hv => ⟨base_of_run h₀ hv, drafting_of_run hJ hplan h₀ hjobs hv⟩
  refine (h.using hdrafting).invariant (I := fun v => ∀ id t, v.db.tasks.find id = some t → Q t) htasks ?_
  rintro v i c m hv ⟨-, hb, hw⟩ hm id t' ht'
  obtain ⟨roster, hU⟩ := (v.proc i).exists_uses
  rcases (effect_of_fires (hb.holds i) hU hm).before ht' with ⟨t, ht, hc⟩ | hnone
  · exact hQ hc (hv id t ht)
  · exact hw.created hb hm hnone ht'

end Drafts

end TestingPlatform.Scan
