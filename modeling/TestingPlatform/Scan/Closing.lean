import TestingPlatform.Lib.Once
import TestingPlatform.Scan.Absorbing
import TestingPlatform.Scan.Completion

/-!
# A job is closed once

Who closes a job publishes its terminal event and the `end` of its stream after the commit, one message
at a time. Each of the two is an account (`Once`): the right to it is used up by the commit that makes
the job terminal.
-/

namespace TestingPlatform.Scan

open ReadCommitted

variable {π : Type} [DecidableEq π] {plus : Time → Time}

/-- The two messages that tell a stream that its job is closed. -/
inductive Closing where
  | event | «end»

def Closing.is (jobId : Uuid) : Closing → Message → Bool
  | .event, .job id status _ _ => id = jobId ∧ status.terminal
  | .end, .end id _ _ => id = jobId
  | _, _ => false

def JobTerminal (d : Db) (jobId : Uuid) : Prop := ∃ job, d.jobs.find jobId = some job ∧ job.status.terminal = true

/-- A job is announced closed by whoever closes it. -/
def Closing.account (k : Closing) (jobId : Uuid) : Once Db Proc Message where
  shows := k.is jobId
  owes p := p.outbox.countP (k.is jobId)
  spent d := JobTerminal d jobId

variable {k : Closing} {jobId : Uuid}

theorem count_publishJobEvent (id : Uuid) (status : ScanJobStatus) (reason : Option String) (now : Time) :
    (k.account jobId).count (publishJobEvent id status reason now) ≤ 1 ∧
      ((id ≠ jobId ∨ status.terminal = false) → (k.account jobId).count (publishJobEvent id status reason now) = 0) := by
  cases ht : status.terminal <;> cases k <;> by_cases hj : id = jobId <;>
    simp [publishJobEvent, Once.count, Closing.account, Closing.is, ht, hj]

omit [DecidableEq π] in
theorem count_of_commits (k : Closing) (jobId : Uuid) {p q : Proc} {ws : List Write} (h : Commits plus p ws q) :
    (k.account jobId).count q.outbox = 0 ∨
      ∃ f job outcome, p = .close f job outcome ∧ f.jobId = jobId ∧ (k.account jobId).count q.outbox ≤ 1 := by
  cases h with
  | dispatch c p =>
    left
    have hrun : (k.account jobId).count
        (if p.job.status = .queued then publishJobEvent p.job.id .running none c.now else []) = 0 := by
      split
      · exact (count_publishJobEvent ..).2 (.inr rfl)
      · rfl
    have hsent : (k.account jobId).count
        (p.toPublish.map fun m => .runModule m.1 p.job.organizationId p.job.id m.2) = 0 :=
      Once.count_eq_zero _ fun m hm => by
        obtain ⟨x, -, rfl⟩ := List.mem_map.1 hm
        cases k <;> rfl
    rw [Proc.outbox, DispatchPlan.messages, Once.count_append, hrun, hsent]
  | refuse | start | finish => left; cases k <;> rfl
  | reap c live =>
    refine .inl (Once.count_eq_zero _ fun m hm => ?_)
    obtain ⟨id, -, hm⟩ := List.mem_flatMap.1 hm
    simp only [List.mem_cons, List.not_mem_nil, or_false] at hm
    rcases hm with rfl | rfl <;> cases k <;> rfl
  | close f job outcome =>
    by_cases hid : f.jobId = jobId
    · exact .inr ⟨f, job, outcome, rfl, hid, (count_publishJobEvent ..).1⟩
    · exact .inl ((count_publishJobEvent ..).2 (.inl hid))
  | cancel => exact .inl rfl

omit [DecidableEq π] in
theorem count_of_go (k : Closing) (jobId : Uuid) {d : Db} {p : Proc} {m : Step} (h : go plus d p = some m) :
    (k.account jobId).count m.emit + (k.account jobId).count m.next.outbox ≤ (k.account jobId).count p.outbox ∨
      ∃ f job outcome, p = .close f job outcome ∧ f.jobId = jobId ∧
        (k.account jobId).count m.emit + (k.account jobId).count m.next.outbox ≤ 1 := by
  rcases outbox_of_go h with he | ⟨he, -, ws, hop⟩ | ⟨-, hx⟩
  · left
    rw [← Once.count_append, he]
  · rw [he, Once.count_nil, Nat.zero_add]
    rcases count_of_commits k jobId (Commits.of_go h hop) with hz | hclose
    · left; omega
    · exact .inr hclose
  · left
    rw [← Once.count_append, Once.count_eq_zero _ fun x hx' => ?_]
    · exact Nat.zero_le _
    · rcases hx x hx' with ⟨id, rfl⟩ | ⟨job, -, -, now, rfl⟩ <;> cases k <;> rfl

section Step
variable {w : Deployment π} {i : π} {c : Choice} {m : Step}

theorem closes_job (hb : Base w) (hm : (pipeline plus).Fires w i .go m) {f : FinalizeCall} {job : ScanJob}
    {outcome : ScanJobStatus × Option String} (hp : w.proc i = .close f job outcome) :
    ¬ JobTerminal w.db f.jobId ∧ JobTerminal ((pipeline plus).after w i m).db f.jobId := by
  have hholds := hb.holds i
  have hmove : go plus w.db (w.proc i) = some m := hm.1
  rw [hp] at hmove hholds
  cases hmove
  obtain ⟨hheld, hid, hterm⟩ := hholds
  have hrow : w.db.jobs.find f.jobId = some job := hid ▸ hheld.row
  constructor
  · rintro ⟨job', hj', hterm'⟩
    rw [hrow] at hj'; cases hj'
    rw [hheld.live] at hterm'
    cases hterm'
  · have hfind : ([closeJob plus f job outcome].foldl Db.write w.db).jobs.find f.jobId = _ := Db.find_job_foldl hrow
    refine ⟨_, hfind, ?_⟩
    simp [closeJob, Write.jobId, Write.onJob, hid, hterm]

theorem account_step (hb : Base w) (ha : (k.account jobId).Account w) (hm : (pipeline plus).Fires w i c m) :
    (k.account jobId).Account ((pipeline plus).after w i m) := by
  refine ha.step (fun ⟨job, hj, hterm⟩ => ⟨job, job_terminal_step hb hm hj hterm, hterm⟩) ?_
  by_cases hc : c = .go
  · subst hc
    rcases count_of_go k jobId hm.1 with hle | ⟨f, job, outcome, hp, rfl, hle⟩
    · exact .inl hle
    · obtain ⟨hopen, hclosed⟩ := closes_job hb hm hp
      exact .inr ⟨hopen, hclosed, hle⟩
  · left
    cases rollback_of_ne_go hm.1 hc
    exact Nat.zero_le _

end Step

/-! ### Runs -/

section Runs
variable {w₀ w w' : Deployment π}

omit [DecidableEq π] in
theorem Start.outbox (h : Start w) (i : π) : (w.proc i).outbox = [] := by
  have he := h.entry i
  generalize w.proc i = p at he
  cases p <;> first | rfl | cases he

theorem account_of_run (k : Closing) (jobId : Uuid) {C : Deployment π → π × Choice → Prop} (h₀ : Start w₀) (h : (pipeline plus).Run C w₀ w) :
    (k.account jobId).Account w := by
  have hbase : ∀ {v}, (pipeline plus).Run C w₀ v → Base v := fun hv => base_of_run h₀ hv
  have howes : ∀ i, (k.account jobId).owes (w₀.proc i) = 0 := fun i => by
    show (w₀.proc i).outbox.countP _ = 0
    rw [h₀.outbox i]; rfl
  exact (h.using hbase).invariant (.start h₀.trace howes) fun v i c m ha ⟨_, hb⟩ hm => account_step hb ha hm

omit [DecidableEq π] in
theorem Start.finalizing (h : Start w) (i : π) : (w.proc i).finalizing = none := by
  have he := h.entry i
  generalize w.proc i = p at he
  cases p <;> first | rfl | cases he

omit [DecidableEq π] in
theorem Counting.start (h : Start w) : Counting w := by
  constructor
  · intro id job hj hterm
    rw [h.jobs id job hj] at hterm
    cases hterm
  · intro i f hf
    rw [h.finalizing i] at hf
    cases hf
  · intro i f job outcome hp
    have hf := h.finalizing i
    rw [hp] at hf
    cases hf

omit [DecidableEq π] in
theorem Completion.start (h : Start w) : Completion w := by
  refine ⟨.start h, ?_⟩
  intro id job _ _ ⟨hne, hall⟩
  obtain ⟨s, hs⟩ := List.exists_mem_of_ne_nil _ hne
  have hterm := hall s hs
  obtain ⟨tid, t, ht, -, rfl⟩ := mem_statusesOf.1 hs
  rw [h.tasks tid t ht] at hterm
  cases hterm

theorem counting_of_run {C : Deployment π → π × Choice → Prop} (h₀ : Start w₀) (h : (pipeline plus).Run C w₀ w) :
    Counting w := by
  have hbase : ∀ {v}, (pipeline plus).Run C w₀ v → Base v := fun hv => base_of_run h₀ hv
  exact (h.using hbase).invariant (I := Counting) (.start h₀) fun v i c m hc ⟨_, hb⟩ hm => hc.step hb hm

theorem completion_of_run (h₀ : Start w₀) (h : (pipeline plus).Run CrashFree w₀ w) : Completion w := by
  have hbase : ∀ {v}, (pipeline plus).Run CrashFree w₀ v → Base v := fun hv => base_of_run h₀ hv
  exact (h.using hbase).invariant (I := Completion) (.start h₀) fun v i c m hc ⟨hcrash, hb⟩ hm => hc.step hb hcrash hm

theorem closed_mono {C : Deployment π → π × Choice → Prop} (h₀ : Start w₀) (h : (pipeline plus).Run C w₀ w)
    (h' : (pipeline plus).Run C w w') {job : ScanJob} (hj : w.db.jobs.find jobId = some job)
    (hterm : job.status.terminal = true) : w'.db.jobs.find jobId = some job := by
  have hbase : ∀ {v}, (pipeline plus).Run C w v → Base v := fun hv => base_of_run h₀ (h.trans hv)
  exact (h'.using hbase).invariant (I := fun v => v.db.jobs.find jobId = some job) hj
    fun v i c m hj ⟨_, hb⟩ hm => job_terminal_step hb hm hj hterm

/-- What the count of a job has to give. -/
structure Counted (w : Deployment π) (plus : Time → Time) (jobId : Uuid) : Prop where
  /-- A terminal job has tasks, all of them terminal, and the status their statuses give. -/
  closed : ∀ job, w.db.jobs.find jobId = some job → job.status.terminal = true →
    AllTerminal w.db jobId ∧
      ∀ override, (deriveJobOutcome (statusesOf w.db jobId) override).map (·.1) = some job.status
  stands : ∀ job, w.db.jobs.find jobId = some job → job.status.terminal = true →
    ∀ w', (pipeline plus).Run CrashFree w w' → w'.db.jobs.find jobId = some job
  /-- One terminal event, one `end`. -/
  once : ∀ k : Closing, w.trace.countP (k.is jobId) ≤ 1
  /-- Nobody is left to count, so the count is done. -/
  done : ∀ job, w.db.jobs.find jobId = some job → AllTerminal w.db jobId → (∀ i, ¬ (w.proc i).Owes jobId) →
    job.status.terminal = true

/-- Completion counting is safe and loses no close. -/
theorem completion_counted (h₀ : Start w₀) (h : (pipeline plus).Run CrashFree w₀ w) (jobId : Uuid) :
    Counted w plus jobId := by
  have hc := completion_of_run h₀ h
  constructor
  · intro job hj hterm
    have hcount := hc.counted jobId job hj hterm
    refine ⟨?_, hcount⟩
    obtain ⟨outcome, hout, -⟩ := Option.map_eq_some_iff.1 (hcount none)
    exact deriveJobOutcome_isSome.1 (by rw [hout]; rfl)
  · exact fun job hj hterm w' h' => closed_mono h₀ h h' hj hterm
  · intro k
    exact (account_of_run k jobId h₀ h).total
  · intro job hj hall hnone
    cases hterm : job.status.terminal with
    | true => rfl
    | false =>
      obtain ⟨i, ho⟩ := hc.pursued jobId job hj hterm hall
      exact absurd ho (hnone i)

end Runs

open Vanished in
/-- A dispatch creates the task of a job, and the sweep that fails the task closes the job. -/
theorem completion_counted_after_sweep :
    ∃ w : Deployment (Fin 3), (pipeline id).Run CrashFree begin w ∧
      (∃ job, w.db.jobs.find 1 = some job ∧ job.status = .failed ∧ AllTerminal w.db 1) ∧ Counted w id 1 := by
  have run : ((pipeline id).exec CrashFree begin (steps 0 11 ++ steps 2 10)).any
      (fun w => (w.db.jobs.find 1).any fun job => job.status = .failed) = true := by
    decide +kernel
  obtain ⟨w, hw, hp⟩ := System.Run.of_exec_any run
  obtain ⟨job, hj, hs⟩ := (Option.any_eq_true ..).1 hp
  have hs : job.status = .failed := by simpa using hs
  have hcount := completion_counted start hw 1
  exact ⟨w, hw, ⟨job, hj, hs, (hcount.closed job hj (by rw [hs]; rfl)).1⟩, hcount⟩

end TestingPlatform.Scan
