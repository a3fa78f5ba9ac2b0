import TestingPlatform.Scan.Cancellation
import TestingPlatform.Scan.Closing

/-!
# Job timeouts

A sweep fails the open tasks of a stuck job with `job.timeout` and goes to finalize the job with the same
reason as an override. The override travels in the call of the sweep only. Whoever else finalizes the job
in between (a redelivered dispatch, a delivery whose task was the last but one, a second sweep) counts
the same statuses and closes the job without it (`timeout_unreported`); and where nothing completed, a
canceled task makes the job `canceled` with the override or without it. These are the only ways:
`timeout_reported`.
-/

namespace TestingPlatform.Scan

open ReadCommitted

variable {π : Type} [DecidableEq π] {plus : Time → Time}

/-- A sweep has failed a task of the job. -/
def TimedOut (d : Db) (jobId : Uuid) : Prop :=
  ∃ t ∈ d.tasksOf jobId, t.status = .failed ∧ t.statusReason = some reasonJobTimeout

instance (d : Db) (jobId : Uuid) : Decidable (TimedOut d jobId) :=
  inferInstanceAs (Decidable (∃ t ∈ d.tasksOf jobId, _))

def timeoutStatus (statuses : List ScanTaskStatus) : ScanJobStatus :=
  if .completed ∈ statuses then .partial_ else .failed

/-- A closed job in which a task timed out says so. -/
def ReportsTimeout (d : Db) (jobId : Uuid) : Prop :=
  ∀ job, d.jobs.find jobId = some job → job.status.terminal = true → TimedOut d jobId →
    job.statusReason = some reasonJobTimeout ∧ job.status = timeoutStatus (statusesOf d jobId)

/-- The finalize call that closes a timed-out job is the one of the sweep, and no task of the job was
canceled, unless another one completed. -/
def SweepCloses (w : Deployment π) (a : π × Choice) : Prop :=
  a.2 = .go → ∀ f ∈ (w.proc a.1).finalizing, (w.proc a.1 matches .close ..) → TimedOut w.db f.jobId →
    f.reasonOverride = some reasonJobTimeout ∧
      (.canceled ∈ statusesOf w.db f.jobId → .completed ∈ statusesOf w.db f.jobId)

instance (w : Deployment π) (a : π × Choice) : Decidable (SweepCloses w a) :=
  inferInstanceAs (Decidable (a.2 = .go → ∀ f ∈ (w.proc a.1).finalizing, _ → TimedOut w.db f.jobId → _))

/-! ### The count -/

/-- With a failed task the count gives the timeout exactly when it carries it and no cancel comes first. -/
theorem deriveJobOutcome_timeout {statuses : List ScanTaskStatus} {override : Option String}
    {outcome : ScanJobStatus × Option String} (h : deriveJobOutcome statuses override = some outcome)
    (hfailed : .failed ∈ statuses) :
    (outcome.2 = some reasonJobTimeout ∧ outcome.1 = timeoutStatus statuses) ↔
      override = some reasonJobTimeout ∧ (.canceled ∈ statuses → .completed ∈ statuses) := by
  have hsome : statuses.countP (· = .completed) ≠ 0 ↔ .completed ∈ statuses := by simp [List.countP_eq_zero]
  have hall : statuses.countP (· = .completed) ≠ statuses.length := fun he => by
    simpa using List.countP_eq_length.1 he .failed hfailed
  have override_or : ∀ reason : String, reason ≠ reasonJobTimeout →
      (overrideOr override reason = some reasonJobTimeout ↔ override = some reasonJobTimeout) := by
    intro reason hne
    unfold overrideOr
    split
    · simp [hne]
    · exact iff_of_false (fun he => hne (Option.some.inj he)) (by decide)
    · rfl
  unfold deriveJobOutcome at h
  split at h
  · cases h
  · dsimp only at h
    rw [if_neg hall] at h
    by_cases hc : ScanTaskStatus.completed ∈ statuses
    · rw [if_pos (hsome.2 hc)] at h
      cases h
      simp [timeoutStatus, hc, override_or reasonTasksIncomplete (by decide)]
    · rw [if_neg (mt hsome.1 hc)] at h
      split at h
      · next hcan =>
        cases h
        simp [timeoutStatus, hc, hcan]
      · next hcan =>
        cases h
        simp [timeoutStatus, hc, hcan, override_or reasonNoUsableResults (by decide)]

/-! ### Steps -/

theorem Effect.timedOut {a : Act} {d d' : Db} (h : Effect a d d') {jobId : Uuid}
    (hall : ∀ s ∈ statusesOf d jobId, s.terminal = true)
    (hq : ∀ job, d.jobs.find jobId = some job → job.status.terminal = false → a.dispatching ≠ some jobId)
    (ht : TimedOut d' jobId) : TimedOut d jobId := by
  obtain ⟨t', hmem, hst, hr⟩ := ht
  obtain ⟨hmem, hj⟩ := Db.mem_tasksOf.1 hmem
  have hfind := d'.tasks.find_of_mem hmem
  rcases h.before hfind with ⟨t, ht, hc⟩ | hn
  · have hj' : t.scanJobId = jobId := hc.scanJobId_eq.symm.trans hj
    have hterm := hall _ (mem_statusesOf.2 ⟨_, t, ht, hj', rfl⟩)
    rcases hc.terminal_cases hterm with ⟨hs, hreason, -⟩ | ⟨-, -, hd, job, hjob, hlive⟩
    · exact ⟨t, Db.mem_tasksOf.2 ⟨Table.mem_of_find ht, hj'⟩, hs ▸ hst, hreason ▸ hr⟩
    · exact absurd (hj' ▸ hd) (hq job (hj' ▸ hjob) hlive)
  · obtain ⟨hd, -, -, job, hjob, hlive, -⟩ := h.created hn hfind
    exact absurd (hj ▸ hd) (hq job (hj ▸ hjob) hlive)

section Step
variable {w w₀ : Deployment π} {i : π} {c : Choice} {m : Step} {jobId : Uuid}

theorem reportsTimeout_step (hb : Base w) (hcount : Counting w) (hr : ReportsTimeout w.db jobId)
    (hcloses : SweepCloses w (i, c)) (hm : (pipeline plus).Fires w i c m) :
    ReportsTimeout ((pipeline plus).after w i m).db jobId := by
  obtain ⟨roster, hU⟩ := (w.proc i).exists_uses
  have heff := effect_of_fires (hb.holds i) hU hm
  intro job' hj' hterm htimed
  obtain ⟨job, hj, hch⟩ := heff.jobBefore hj'
  cases hlive : job.status.terminal with
  | true =>
    -- the job was closed before, and its tasks stand
    rw [hch.eq_of_terminal hlive]
    have hout := hcount.counted jobId job hj hlive none
    have hall : ∀ s ∈ statusesOf w.db jobId, s.terminal = true := by
      obtain ⟨outcome, hsome, -⟩ := Option.map_eq_some_iff.1 hout
      exact (deriveJobOutcome_isSome.1 (by rw [hsome]; rfl)).2
    have hquiet : ∀ job₂, w.db.jobs.find jobId = some job₂ → job₂.status.terminal = false →
        ((w.proc i).act roster).dispatching ≠ some jobId := fun job₂ hj₂ hlive₂ => by
      rw [hj] at hj₂; cases hj₂
      rw [hlive] at hlive₂; cases hlive₂
    have hsame := heff.statuses_settled hall hquiet
    obtain ⟨hreason, hstatus⟩ := hr job hj hlive (heff.timedOut hall hquiet htimed)
    refine ⟨hreason, ?_⟩
    rw [hstatus, timeoutStatus, timeoutStatus]
    simp only [hsame]
  | false =>
    rcases commit_or_same hm with ⟨ws, hop, hcom, hdb⟩ | hdb
    · rw [hdb] at hj' htimed ⊢
      obtain ⟨f, outcome, hp, hid, -⟩ := close_of_terminal hb hcom hj hlive hj' hterm
      have hkey := Table.key_of_find hj
      have hout := hcount.closing i f job outcome hp
      have hgo : c = .go := by
        by_contra hne
        cases rollback_of_ne_go hm.1 hne
        cases hop
      have hcond := hcloses hgo f (by rw [hp]; rfl) (by rw [hp])
      rw [hp] at hcom
      generalize m.next = q at hcom
      cases hcom
      rw [Db.find_job_foldl hj, Option.some.injEq] at hj'
      have hrow : job'.statusReason = outcome.2 ∧ job'.status = outcome.1 := by
        rw [← hj']
        simp [closeJob, Write.jobId, Write.onJob, hkey]
      have hjob : f.jobId = jobId := hid.symm.trans hkey
      rw [hjob] at hcond
      rw [hkey] at hout
      have hfailed : .failed ∈ statusesOf w.db jobId := by
        obtain ⟨t, ht, hst, -⟩ := htimed
        exact hst ▸ List.mem_map_of_mem ht
      rw [hrow.1, hrow.2]
      exact (deriveJobOutcome_timeout hout hfailed).2 (hcond htimed)
    · rw [hdb, hj, Option.some.injEq] at hj'
      rw [← hj', hlive] at hterm
      cases hterm

/-- In every run in which timed-out jobs are closed by their sweeps, they say that they timed out. -/
theorem timeout_reported (h₀ : Start w₀) (h : (pipeline plus).Run SweepCloses w₀ w) (jobId : Uuid) :
    ReportsTimeout w.db jobId := by
  have hinv : ∀ {v}, (pipeline plus).Run SweepCloses w₀ v → Base v ∧ Counting v := fun hv =>
    ⟨base_of_run h₀ hv, counting_of_run h₀ hv⟩
  refine (h.using hinv).invariant (I := fun v => ReportsTimeout v.db jobId) ?_
    fun v i c m hr ⟨hcloses, hb, hcount⟩ hm => reportsTimeout_step hb hcount hr hcloses hm
  intro job hj hterm
  rw [h₀.jobs jobId job hj] at hterm
  cases hterm

end Step

/-! ### A dispatch that overtakes the sweep -/

namespace Overtaken

/-- A dispatch, its redelivery by the same worker, and a sweep. -/
def deliveries : Fin 3 → Proc
  | 0 => .dispatch ⟨1, Delivered.shared, 0, fun n => ⟨10 + n⟩, Time.seconds 1⟩
  | 1 => .dispatch ⟨1, Delivered.shared, Time.hours 3, fun n => ⟨20 + n⟩, Time.hours 3 + Time.seconds 1⟩
  | 2 => .reap ⟨1, Time.hours 3, Time.hours 3 + Time.seconds 2⟩

def begin : Deployment (Fin 3) := { Vanished.begin with proc := deliveries }

theorem start : Start begin where
  entry := fun | 0 | 1 | 2 => trivial
  unlocked := Vanished.start.unlocked
  trace := rfl
  jobs := Vanished.start.jobs
  tasks := Vanished.start.tasks
  owned := Vanished.start.owned
  results := rfl
  findings := rfl

/-- The job is closed as failed, for the given reason, and its task timed out. -/
def failedFor (w : Deployment (Fin 3)) (reason : String) : Bool :=
  (w.db.jobs.find 1).any (fun job => job.status = .failed ∧ job.statusReason = some reason) && decide (TimedOut w.db 1)

theorem exists_of_failedFor {w : Deployment (Fin 3)} {reason : String} (h : failedFor w reason = true) :
    (∃ job, w.db.jobs.find 1 = some job ∧ job.status = .failed ∧ job.statusReason = some reason) ∧ TimedOut w.db 1 := by
  rw [failedFor, Bool.and_eq_true] at h
  obtain ⟨job, hj, hp⟩ := (Option.any_eq_true ..).1 h.1
  exact ⟨⟨job, hj, by simpa using hp⟩, by simpa using h.2⟩

end Overtaken

open Overtaken in
/-- The sweep has failed the task; the redelivery closes the job before the sweep does. -/
theorem timeout_unreported :
    ∃ w₀ w : Deployment (Fin 3), Start w₀ ∧ (pipeline id).Run (fun _ _ => True) w₀ w ∧ TimedOut w.db 1 ∧
      ∃ job, w.db.jobs.find 1 = some job ∧ job.status = .failed ∧ job.statusReason = some "job.no_usable_results" := by
  have run : ((pipeline id).exec (fun _ _ => True) begin
      (steps 0 11 ++ steps 2 4 ++ steps 1 9)).any
        (fun w => failedFor w "job.no_usable_results") = true := by
    decide +kernel
  obtain ⟨w, hw, hp⟩ := System.Run.of_exec_any run
  obtain ⟨hjob, htimed⟩ := exists_of_failedFor hp
  exact ⟨begin, w, start, hw, htimed, hjob⟩

open Overtaken in
/-- Nobody comes in between, and the job reports what the sweep found. -/
theorem timeout_reported_by_sweep :
    ∃ w : Deployment (Fin 3), (pipeline id).Run SweepCloses begin w ∧ TimedOut w.db 1 ∧
      ∃ job, w.db.jobs.find 1 = some job ∧ job.status.terminal = true ∧ job.statusReason = some "job.timeout" ∧
        job.status = .failed := by
  have run : ((pipeline id).exec SweepCloses begin (steps 0 11 ++ steps 2 10)).any
      (fun w => failedFor w "job.timeout") = true := by
    decide +kernel
  obtain ⟨w, hw, hp⟩ := System.Run.of_exec_any run
  obtain ⟨⟨job, hj, hs, -⟩, htimed⟩ := exists_of_failedFor hp
  have hterm : job.status.terminal = true := by rw [hs]; rfl
  obtain ⟨hreason, -⟩ := timeout_reported start hw 1 job hj hterm htimed
  exact ⟨w, hw, htimed, job, hj, hterm, hreason, hs⟩

end TestingPlatform.Scan
