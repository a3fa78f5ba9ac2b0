import TestingPlatform.Scan.Timeout

/-!
# Events and transitions

Every place that commits a change of status publishes the event of it after the commit, with the columns it
has just written. That is an `Outbox`: a commit makes the events of its transitions due, and the messages a
delivery has still to publish are what is left. One place does not keep to it: a dispatch that blocks a
queued task of an existing matrix, because its own roster has no module for it, tells nobody
(`vanished_unannounced`). In a run without such a block the events on the channels are the committed
transitions, one for one (`events_mirror_transitions`).
-/

namespace TestingPlatform.Scan

open ReadCommitted

variable {π : Type} [DecidableEq π] {plus : Time → Time}

def Message.isEvent : Message → Bool
  | .task .. | .job .. => true
  | _ => false

/-- The event of the change of status that a write makes to the committed row, if it makes one. -/
def Write.transition (d : Db) : Write → Option Message
  | .taskRunning id now =>
    ((d.tasks.find id).filter fun t => t.status ≠ .running).map fun t => .task t.scanJobId id .running none now
  | .taskTerminal id status reason now =>
    ((d.tasks.find id).filter fun t => t.status ≠ status).map fun t => .task t.scanJobId id status reason now
  | .jobRunning id now => ((d.jobs.find id).filter fun j => j.status ≠ .running).map fun _ => .job id .running none now
  | .jobClosed id status reason now _ =>
    ((d.jobs.find id).filter fun j => j.status ≠ status).map fun _ => .job id status reason now
  | _ => none

/-- The transitions of a statement: those of its commit. -/
def transitions (d : Db) : Op Lock Write → List Message
  | .commit ws => ws.filterMap (Write.transition d)
  | _ => []

/-- Transitions are due to be announced, by who commits them. -/
def announcements : Outbox Lock Write Db Proc Message where
  counts := Message.isEvent
  due := transitions
  left p := p.outbox.filter Message.isEvent

/-- Nobody is killed, and no commit of a dispatch blocks a task of an existing matrix. -/
def BlocksNone (w : Deployment π) (a : π × Choice) : Prop :=
  a.2 ≠ .crash ∧ (a.2 = .go → ∀ id ∈ (w.proc a.1).vanishing, ∀ t ∈ w.db.tasks.find id, t.status = .blocked)

instance (w : Deployment π) (a : π × Choice) : Decidable (BlocksNone w a) :=
  inferInstanceAs (Decidable (a.2 ≠ .crash ∧
    (a.2 = .go → ∀ id ∈ (w.proc a.1).vanishing, ∀ t ∈ w.db.tasks.find id, t.status = .blocked)))

/-! ### One statement -/

section Statement
variable {held : Lock → Prop} {d : Db} {p q : Proc} {ws : List Write} {m : Step}

theorem transition_taskTerminal {id : Uuid} {t : ScanTask} {status : ScanTaskStatus} {reason : Option String}
    {now : Time} (ht : d.tasks.find id = some t) (hlive : t.status.terminal = false) (hterm : status.terminal = true) :
    Write.transition d (.taskTerminal id status reason now) = some (.task t.scanJobId id status reason now) := by
  have hne : t.status ≠ status := fun he => by
    rw [he, hterm] at hlive
    cases hlive
  simp [Write.transition, ht, hne]

/-- Who commits puts the events of its transitions into its outbox. -/
theorem Commits.announces (h : Commits plus p ws q) (hA : p.Holds held d)
    (hblocks : ∀ id ∈ p.vanishing, ∀ t ∈ d.tasks.find id, t.status = .blocked) :
    q.outbox.filter Message.isEvent = ws.filterMap (Write.transition d) := by
  cases h with
  | dispatch c p =>
    obtain ⟨hp, -⟩ := hA
    have hsent : (p.toPublish.map fun x => Message.runModule x.1 p.job.organizationId p.job.id x.2).filter
        Message.isEvent = [] := List.filter_eq_nil_iff.2 fun x hx => by
      obtain ⟨_, -, rfl⟩ := List.mem_map.1 hx
      simp [Message.isEvent]
    have hcreated : (p.created.map Write.insertTask).filterMap (Write.transition d) = [] :=
      List.filterMap_eq_nil_iff.2 fun u hu => by
        obtain ⟨t, -, rfl⟩ := List.mem_map.1 hu
        rfl
    have hvanished : (p.vanished.map fun id => Write.taskTerminal id .blocked (some reasonModuleUnavailable) c.now).filterMap
        (Write.transition d) = [] := List.filterMap_eq_nil_iff.2 fun u hu => by
      obtain ⟨id, hid, rfl⟩ := List.mem_map.1 hu
      obtain ⟨t, ht, -⟩ := hp.vanished_of id hid
      simp [Write.transition, ht, hblocks id hid t ht]
    rw [Proc.outbox, DispatchPlan.messages, DispatchPlan.writes, List.filter_append, hsent, List.filterMap_append,
      List.filterMap_append, hcreated, hvanished, List.append_nil, List.append_nil, List.append_nil, markJobRunning]
    split
    · next hq => simp [publishJobEvent, Message.isEvent, Write.transition, hp.job.row, hq, ScanJobStatus.terminal]
    · rfl
  | refuse c task status reason =>
    obtain ⟨hclaim, hrefusal⟩ := hA
    have htr : Write.transition d (.taskTerminal task.id status (some reason) c.now) = _ :=
      transition_taskTerminal hclaim.row (by rw [hclaim.queued]; rfl) (refusal_eq_some hrefusal).1
    simp [Proc.outbox, Message.isEvent, htr]
  | start c task run =>
    obtain ⟨hclaim, -⟩ := hA
    simp [Proc.outbox, Message.isEvent, Write.transition, hclaim.row, hclaim.queued]
  | finish c run task v =>
    obtain ⟨hrec, -⟩ := hA
    obtain ⟨outcome, rfl⟩ := hrec.verdict
    have hlast : [Write.taskTerminal task.id (verdict c task outcome).status (verdict c task outcome).reason
        c.finished].filterMap (Write.transition d) =
        [.task run.jobId task.id (verdict c task outcome).status (verdict c task outcome).reason c.finished] := by
      rw [List.filterMap_cons, transition_taskTerminal hrec.row (by rw [hrec.running]; rfl)
        (verdict_spec c task outcome).1, hrec.job_id]
      rfl
    rw [Verdict.writes, List.filterMap_append, hlast]
    cases (verdict c task outcome).rows with
    | none => rfl
    | some rows =>
      have hfindings : (rows.2.map Write.insertFinding).filterMap (Write.transition d) = [] :=
        List.filterMap_eq_nil_iff.2 fun u hu => by
          obtain ⟨f, -, rfl⟩ := List.mem_map.1 hu
          rfl
      rw [List.filterMap_cons_none rfl, hfindings]
      rfl
  | reap c live =>
    rw [Proc.outbox]
    have hlive : LiveHeld held d c live := hA
    clear hA hblocks
    induction live with
    | nil => rfl
    | cons id live ih =>
      obtain ⟨-, t, ht, hl⟩ := hlive id List.mem_cons_self
      obtain ⟨hj, hst⟩ : t.scanJobId = c.jobId ∧ t.status.terminal = false := by simpa [isLiveOf] using hl
      have htr : Write.transition d (.taskTerminal id .failed (some reasonJobTimeout) c.swept) = _ :=
        transition_taskTerminal ht hst rfl
      have hrest := ih fun id' hid' => hlive id' (List.mem_cons_of_mem _ hid')
      rw [List.flatMap_cons, List.filter_append, hrest, List.map_cons, List.filterMap_cons, htr, hj]
      rfl
  | close f job outcome =>
    obtain ⟨hjob, hid, hterm⟩ := hA
    have hne : job.status ≠ outcome.1 := fun he => by
      have hlive := hjob.live
      rw [he, hterm] at hlive
      cases hlive
    have hrow : d.jobs.find f.jobId = some job := hid ▸ hjob.row
    have hevents : (publishJobEvent f.jobId outcome.1 outcome.2 f.now).filter Message.isEvent =
        [.job f.jobId outcome.1 outcome.2 f.now] := by
      rw [publishJobEvent, if_pos hterm]
      rfl
    rw [Proc.outbox, hevents]
    simp [closeJob, Write.transition, hid, hrow, hne]
  | cancel c => rfl

theorem Commits.outbox_eq_nil (h : Commits plus p ws q) : p.outbox = [] := by cases h <;> rfl

theorem announcements_balance (h : go plus d p = some m) (hA : p.Holds held d)
    (hblocks : ∀ id ∈ p.vanishing, ∀ t ∈ d.tasks.find id, t.status = .blocked) : announcements.Balances d p m := by
  have quiet : (∀ x ∈ m.emit ++ m.next.outbox, (∃ id, x = .ran id) ∨
      ∃ job ∈ d.jobs.rows, job.status = .running ∧ ∃ now, x = .heartbeat job.id now) →
      (m.emit ++ m.next.outbox).filter Message.isEvent = [] := fun hx =>
    List.filter_eq_nil_iff.2 fun x hmem => by
      rcases hx x hmem with ⟨id, rfl⟩ | ⟨job, -, -, now, rfl⟩ <;> simp [Message.isEvent]
  show m.emit.filter Message.isEvent ++ m.next.outbox.filter Message.isEvent =
    p.outbox.filter Message.isEvent ++ transitions d m.op
  cases hop : m.op with
  | commit ws =>
    have hcom := Commits.of_go h hop
    rw [hcom.outbox_eq_nil, hcom.announces hA hblocks]
    have hemit : m.emit.filter Message.isEvent = [] := by
      rcases outbox_of_go h with he | ⟨he, -⟩ | ⟨-, hx⟩
      · rw [hcom.outbox_eq_nil, List.append_eq_nil_iff] at he
        rw [he.1]
        rfl
      · rw [he]
        rfl
      · have hall := quiet hx
        rw [List.filter_append, List.append_eq_nil_iff] at hall
        exact hall.1
    rw [hemit]
    rfl
  | read | lock | unlock | rollback =>
    rw [← List.filter_append]
    rcases outbox_of_go h with he | ⟨-, -, ws, hcommit⟩ | ⟨hp, hx⟩
    · rw [he]
      exact (List.append_nil _).symm
    · rw [hop] at hcommit
      cases hcommit
    · rw [quiet hx, hp]
      rfl

end Statement

/-! ### Runs -/

section Runs
variable {w₀ w : Deployment π} {H : Steps π}

omit [DecidableEq π] in
theorem announcements_of_fires {i : π} {c : Choice} {m : Step} (hb : Base w) (hC : BlocksNone w (i, c))
    (hm : (pipeline plus).Fires w i c m) : announcements.Balances w.db (w.proc i) m := by
  cases c with
  | go => exact announcements_balance hm.1 (hb.holds i) (hC.2 rfl)
  | crash => exact absurd rfl hC.1
  | fail =>
    -- an exception comes before the commit, when nothing is left to publish
    have hmove : move plus w.db (w.proc i) .fail = some m := hm.1
    simp only [move] at hmove
    split at hmove
    · next hfail =>
      cases hmove
      have hout : (w.proc i).outbox = [] := by
        generalize w.proc i = p at hfail
        cases p <;> first | rfl | cases hfail
      show [] ++ [] = (w.proc i).outbox.filter Message.isEvent ++ []
      rw [hout]
      rfl
    · cases hmove

/-- What the channels of a run say about its transitions. -/
structure Mirrors (H : Steps π) (w : Deployment π) : Prop where
  /-- Every event is that of a transition that is committed, and of one of its own. -/
  committed : (w.trace.filter Message.isEvent).Subperm (announcements.dues H)
  /-- When nobody has anything left to publish, every transition has its event. -/
  announced : (∀ i, (w.proc i).outbox = []) → (w.trace.filter Message.isEvent).Perm (announcements.dues H)
  /-- Each delivery announces its own transitions, in the order of its commits. -/
  own : ∀ i, Outbox.part i (announcements.sentBy H) ++ (w.proc i).outbox.filter Message.isEvent =
    Outbox.part i (announcements.duesBy H)

/-- In a run in which no dispatch blocks a vanished task, events mirror the committed transitions. -/
theorem events_mirror_transitions (h₀ : Start w₀) (h : (pipeline plus).Path BlocksNone w₀ H w) : Mirrors H w := by
  have hempty : ∀ i, announcements.left (w₀.proc i) = [] := fun i => by
    show (w₀.proc i).outbox.filter _ = []
    rw [h₀.outbox i]
    rfl
  have hbalances : ∀ {w : Deployment π} {i c m}, (pipeline plus).Run BlocksNone w₀ w → BlocksNone w (i, c) →
      (pipeline plus).Fires w i c m → announcements.Balances w.db (w.proc i) m := fun hrun hC hm =>
    announcements_of_fires (base_of_run h₀ hrun) hC hm
  constructor
  · exact Outbox.sent_subperm h hempty h₀.trace hbalances
  · intro hnone
    refine Outbox.sent_perm h hempty h₀.trace hbalances fun i => ?_
    show (w.proc i).outbox.filter _ = []
    rw [hnone i]
    rfl
  · exact fun i => Outbox.balance h hempty hbalances i

end Runs

/-! ### A block that nobody hears of -/

open Vanished in
/-- A redelivered dispatch blocks the queued task of the job and closes the job; the job event comes, the
task event does not, and nobody has anything left to publish. -/
theorem vanished_unannounced :
    ∃ (w₀ : Deployment (Fin 3)) (H : Steps (Fin 3)) (w : Deployment (Fin 3)),
      Start w₀ ∧ (pipeline id).Path CrashFree w₀ H w ∧ (∀ i, (w.proc i).outbox = []) ∧
      .task 1 10 .blocked (some "task.module_unavailable") (Time.hours 3) ∈ announcements.dues H ∧
      .task 1 10 .blocked (some "task.module_unavailable") (Time.hours 3) ∉ w.trace := by
  have run : ((pipeline id).trail CrashFree begin (steps 0 11 ++ steps 1 12)).any (fun s =>
      decide (∀ i, (s.2.proc i).outbox = []) &&
      decide (Message.task 1 10 .blocked (some "task.module_unavailable") (Time.hours 3) ∈ announcements.dues s.1) &&
      decide (Message.task 1 10 .blocked (some "task.module_unavailable") (Time.hours 3) ∉ s.2.trace)) = true := by
    decide +kernel
  obtain ⟨H, w, hpath, hp⟩ := System.Path.of_trail_any run
  simp only [Bool.and_eq_true, decide_eq_true_eq] at hp
  exact ⟨begin, H, w, start, hpath, hp.1.1, hp.1.2, hp.2⟩

open Vanished in
/-- The first dispatch and the sweep announce all they commit. -/
theorem events_mirror_transitions_of_sweep :
    ∃ (H : Steps (Fin 3)) (w : Deployment (Fin 3)),
      (pipeline id).Path BlocksNone begin H w ∧ (w.trace.filter Message.isEvent).Perm (announcements.dues H) ∧
      .task 1 10 .failed (some "job.timeout") (Time.hours 3 + Time.seconds 1) ∈ w.trace := by
  have run : ((pipeline id).trail BlocksNone begin (steps 0 11 ++ steps 2 13)).any (fun s =>
      decide (∀ i, (s.2.proc i).outbox = []) &&
      decide (Message.task 1 10 .failed (some "job.timeout") (Time.hours 3 + Time.seconds 1) ∈ s.2.trace)) = true := by
    decide +kernel
  obtain ⟨H, w, hpath, hp⟩ := System.Path.of_trail_any run
  simp only [Bool.and_eq_true, decide_eq_true_eq] at hp
  exact ⟨H, w, hpath, (events_mirror_transitions start hpath).announced hp.1, hp.2⟩

end TestingPlatform.Scan
