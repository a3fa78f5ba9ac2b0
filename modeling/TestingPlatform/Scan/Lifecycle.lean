import TestingPlatform.Scan.Orchestration

/-!
# The life of a scan, one transaction at a time

The state diagram of jobs and tasks, without processes: `TaskChange` and `JobChange` are its arrows for
one row, `Effect` says what one committed transaction may do to all rows together. The worker refines
this (`Scan/Locks.lean`), and what holds of every row in every state is proved here from the arrows.

An `Effect` is labelled by the `Act` of its process, which says on whose behalf rows may change.
-/

namespace TestingPlatform.Scan

/-- What the process of a transaction knows, is at, and leaves behind. -/
structure Act where
  /-- The tests it has a module for. -/
  known : String → Prop
  /-- The job it dispatches. -/
  dispatching : Option Uuid
  /-- The tasks it blocks because their module vanished. -/
  vanishing : List Uuid
  /-- The job whose tasks it has to count next. -/
  closing : Option Uuid

/-- The arrows of one task row. -/
inductive TaskChange (a : Act) (d : Db) (t : ScanTask) : ScanTask → Prop where
  | same : TaskChange a d t t
  | canceled (requestedAt : Time) : TaskChange a d t { t with cancellationRequestedAt := some requestedAt }
  | started (now : Time) (hq : t.status = .queued) (hc : t.cancellationRequestedAt = none) (hk : a.known t.testKey) :
      TaskChange a d t { t with status := .running, startedAt := some now }
  | closed (status : ScanTaskStatus) (reason : Option String) (now : Time) (hl : t.status.terminal = false)
      (hs : status.terminal = true)
      (hc : status = .completed → t.status = .running ∧ t.cancellationRequestedAt = none) :
      TaskChange a d t { t with status, statusReason := reason, finishedAt := some now }
  /-- A redelivered dispatch blocks the task while its job is open, whatever the row says by now. -/
  | vanished (now : Time) (hv : t.id ∈ a.vanishing) (hk : ¬ a.known t.testKey) (hd : a.dispatching = some t.scanJobId)
      (hj : ∃ job, d.jobs.find t.scanJobId = some job ∧ job.status.terminal = false) :
      TaskChange a d t
        { t with status := .blocked, statusReason := some reasonModuleUnavailable, finishedAt := some now }

/-- The arrows of one job row. -/
inductive JobChange (j : ScanJob) : ScanJob → Prop where
  | same : JobChange j j
  | running (now : Time) (hq : j.status = .queued) : JobChange j { j with status := .running, startedAt := some now }
  | closed (status : ScanJobStatus) (reason : Option String) (now : Time) (purgeAt : Option Time)
      (hl : j.status.terminal = false) (hs : status.terminal = true) :
      JobChange j { j with status, statusReason := reason, finishedAt := some now, purgeAt }

/-- What one transaction may do. -/
structure Effect (a : Act) (d d' : Db) : Prop where
  task : ∀ {id t}, d.tasks.find id = some t → ∃ t', d'.tasks.find id = some t' ∧ TaskChange a d t t'
  /-- Who makes a task terminal has to count the tasks of its job. -/
  closes : ∀ {id t t'}, d.tasks.find id = some t → d'.tasks.find id = some t' → t'.status ≠ t.status →
    t'.status = .running ∨ a.closing = some t.scanJobId
  /-- Tasks are created by the dispatch of an open job, for its owner. -/
  created : ∀ {id t}, d.tasks.find id = none → d'.tasks.find id = some t →
    a.dispatching = some t.scanJobId ∧ a.closing = some t.scanJobId ∧ (t.status = .queued ∨ t.status = .blocked) ∧
      ∃ job, d.jobs.find t.scanJobId = some job ∧ job.status.terminal = false ∧ t.organizationId = job.organizationId
  job : ∀ {id j}, d.jobs.find id = some j → ∃ j', d'.jobs.find id = some j' ∧ JobChange j j'
  noJob : ∀ {id}, d.jobs.find id = none → d'.jobs.find id = none
  /-- A result is written for a running task only, together with its completion. -/
  result : ∀ id, d'.results.find id = d.results.find id ∨
    ∃ t t' r, d.tasks.find id = some t ∧ t.status = .running ∧ d'.tasks.find id = some t' ∧ t'.status = .completed ∧
      d.results.find id = none ∧ d'.results.find id = some r ∧ r.organizationId = t.organizationId
  completed : ∀ {id t t'}, d.tasks.find id = some t → d'.tasks.find id = some t' → t.status ≠ .completed →
    t'.status = .completed → (d'.results.find id).isSome
  finding : ∀ f ∈ d'.findings, f ∈ d.findings ∨
    ∃ r ∈ d'.results.rows, f.scanResultId = r.id ∧ f.organizationId = r.organizationId

theorem Effect.refl (a : Act) (d : Db) : Effect a d d where
  task h := ⟨_, h, .same⟩
  closes h h' hne := by rw [h] at h'; cases h'; exact absurd rfl hne
  created h h' := by rw [h] at h'; cases h'
  job h := ⟨_, h, .same⟩
  noJob h := h
  result _ := .inl rfl
  completed h h' hne he := by rw [h] at h'; cases h'; exact absurd he hne
  finding _ h := .inl h

/-! ### One row -/

namespace TaskChange
variable {a : Act} {d : Db} {t t' : ScanTask}

theorem scanJobId_eq (h : TaskChange a d t t') : t'.scanJobId = t.scanJobId := by cases h <;> rfl
theorem organizationId_eq (h : TaskChange a d t t') : t'.organizationId = t.organizationId := by
  cases h <;> rfl
theorem testKey_eq (h : TaskChange a d t t') : t'.testKey = t.testKey := by cases h <;> rfl

theorem canceled_mono (h : TaskChange a d t t') (hc : t.cancellationRequestedAt.isSome) :
    t'.cancellationRequestedAt.isSome := by
  cases h <;> first | rfl | exact hc

theorem not_queued (h : TaskChange a d t t') (hq : t.status ≠ .queued) : t'.status ≠ .queued := by
  cases h with
  | same | canceled => exact hq
  | started _ hq' => exact absurd hq' hq
  | closed status _ _ _ hs => rintro rfl; cases hs
  | vanished => simp

theorem terminal_mono (h : TaskChange a d t t') (ht : t.status.terminal = true) :
    t'.status.terminal = true := by
  cases h with
  | same | canceled => exact ht
  | started _ hq => rw [hq] at ht; cases ht
  | closed _ _ _ hl => rw [hl] at ht; cases ht
  | vanished => rfl

theorem blocked_mono (h : TaskChange a d t t') (hb : t.status = .blocked) : t'.status = .blocked := by
  cases h with
  | same | canceled => exact hb
  | started _ hq => rw [hb] at hq; cases hq
  | closed _ _ _ hl => rw [hb] at hl; cases hl
  | vanished => rfl

/-- Only a vanished module rewrites a terminal task, and only while the job is open. -/
theorem terminal_cases (h : TaskChange a d t t') (ht : t.status.terminal = true) :
    (t'.status = t.status ∧ t'.statusReason = t.statusReason ∧ t'.finishedAt = t.finishedAt) ∨
      (t.id ∈ a.vanishing ∧ ¬ a.known t.testKey ∧ a.dispatching = some t.scanJobId ∧
        ∃ job, d.jobs.find t.scanJobId = some job ∧ job.status.terminal = false) := by
  cases h with
  | same | canceled => exact .inl ⟨rfl, rfl, rfl⟩
  | started _ hq => rw [hq] at ht; cases ht
  | closed _ _ _ hl => rw [hl] at ht; cases ht
  | vanished _ hv hk hd hj => exact .inr ⟨hv, hk, hd, hj⟩

theorem of_completed (h : TaskChange a d t t') (hne : t.status ≠ .completed)
    (hc : t'.status = .completed) : t.status = .running ∧ t.cancellationRequestedAt = none := by
  cases h with
  | same | canceled => exact absurd hc hne
  | started | vanished => cases hc
  | closed _ _ _ _ _ h => exact h hc

end TaskChange

namespace JobChange
variable {j j' : ScanJob}

theorem id_eq (h : JobChange j j') : j'.id = j.id := by cases h <;> rfl
theorem organizationId_eq (h : JobChange j j') : j'.organizationId = j.organizationId := by cases h <;> rfl

theorem eq_of_terminal (h : JobChange j j') (ht : j.status.terminal = true) : j' = j := by
  cases h with
  | same => rfl
  | running _ hq => rw [hq] at ht; cases ht
  | closed _ _ _ _ hl => rw [hl] at ht; cases ht

end JobChange

/-! ### All rows -/

/-- Every task belongs to a stored job and carries its owner. -/
def Owned (d : Db) : Prop :=
  ∀ id t, d.tasks.find id = some t → ∃ job, d.jobs.find t.scanJobId = some job ∧ job.organizationId = t.organizationId

/-- What results, findings and statuses say together. -/
structure Sound (known : String → Prop) (d : Db) : Prop where
  /-- A task has a result exactly when it is completed. -/
  result_iff : ∀ id, (d.results.find id).isSome ↔ ∃ t, d.tasks.find id = some t ∧ t.status = .completed
  result_owner : ∀ id r, d.results.find id = some r →
    ∃ t, d.tasks.find id = some t ∧ r.organizationId = t.organizationId
  finding_owner : ∀ f ∈ d.findings, ∃ r ∈ d.results.rows, f.scanResultId = r.id ∧ f.organizationId = r.organizationId
  /-- Only a task with a module ever ran. -/
  ran_known : ∀ id t, d.tasks.find id = some t → t.status = .running ∨ t.status = .completed → known t.testKey

namespace Effect
variable {a : Act} {d d' : Db} (h : Effect a d d')

include h

/-- A row after the transaction is a row before it, moved along an arrow, or it was created. -/
theorem before {id : Uuid} {t' : ScanTask} (ht : d'.tasks.find id = some t') :
    (∃ t, d.tasks.find id = some t ∧ TaskChange a d t t') ∨ d.tasks.find id = none := by
  cases hd : d.tasks.find id with
  | none => exact .inr rfl
  | some t =>
    obtain ⟨t₂, ht₂, hc⟩ := h.task hd
    rw [ht] at ht₂; cases ht₂
    exact .inl ⟨t, rfl, hc⟩

theorem jobBefore {id : Uuid} {j' : ScanJob} (hj : d'.jobs.find id = some j') :
    ∃ j, d.jobs.find id = some j ∧ JobChange j j' := by
  cases hd : d.jobs.find id with
  | none => rw [h.noJob hd] at hj; cases hj
  | some j =>
    obtain ⟨j₂, hj₂, hc⟩ := h.job hd
    rw [hj] at hj₂; cases hj₂
    exact ⟨j, rfl, hc⟩

theorem owned (ho : Owned d) : Owned d' := by
  intro id t' ht'
  have found : ∀ {jobId job}, d.jobs.find jobId = some job →
      ∃ job', d'.jobs.find jobId = some job' ∧ job'.organizationId = job.organizationId := fun hj => by
    obtain ⟨job', hj', hc⟩ := h.job hj
    exact ⟨job', hj', hc.organizationId_eq⟩
  rcases h.before ht' with ⟨t, ht, hc⟩ | hn
  · obtain ⟨job, hj, horg⟩ := ho id t ht
    obtain ⟨job', hj', horg'⟩ := found hj
    exact ⟨job', hc.scanJobId_eq ▸ hj', by rw [horg', horg, hc.organizationId_eq]⟩
  · obtain ⟨-, -, -, job, hj, -, horg⟩ := h.created hn ht'
    obtain ⟨job', hj', horg'⟩ := found hj
    exact ⟨job', hj', by rw [horg', horg]⟩

theorem result_mono {id : Uuid} {r : ScanResult} (hr : d.results.find id = some r) : d'.results.find id = some r := by
  rcases h.result id with he | ⟨_, _, _, -, -, -, -, hn, -⟩
  · rw [he, hr]
  · rw [hr] at hn; cases hn

theorem completed_mono (hs : Sound a.known d) {id : Uuid} {t t' : ScanTask} (ht : d.tasks.find id = some t)
    (ht' : d'.tasks.find id = some t') (hc : t.status = .completed) : t'.status = .completed := by
  obtain ⟨t₂, ht₂, hch⟩ := h.task ht
  rw [ht'] at ht₂; cases ht₂
  rcases hch.terminal_cases (by rw [hc]; rfl) with ⟨he, -⟩ | ⟨-, hk, -⟩
  · rw [he, hc]
  · exact absurd (hs.ran_known id t ht (.inr hc)) hk

theorem sound (hs : Sound a.known d) : Sound a.known d' where
  result_iff id := by
    constructor
    · intro hr
      rcases h.result id with he | ⟨_, t', _, -, -, ht', hc, -⟩
      · rw [he] at hr
        obtain ⟨t, ht, hc⟩ := (hs.result_iff id).1 hr
        obtain ⟨t', ht', -⟩ := h.task ht
        exact ⟨t', ht', h.completed_mono hs ht ht' hc⟩
      · exact ⟨t', ht', hc⟩
    · rintro ⟨t', ht', hc⟩
      rcases h.before ht' with ⟨t, ht, hch⟩ | hn
      · by_cases hct : t.status = .completed
        · obtain ⟨r, hr⟩ := Option.isSome_iff_exists.1 ((hs.result_iff id).2 ⟨t, ht, hct⟩)
          rw [h.result_mono hr]; rfl
        · exact h.completed ht ht' hct hc
      · obtain ⟨-, -, hq | hb, -⟩ := h.created hn ht' <;> simp_all
  result_owner id r hr := by
    rcases h.result id with he | ⟨t, t', r', ht, -, ht', -, -, hr', horg⟩
    · rw [he] at hr
      obtain ⟨t, ht, horg⟩ := hs.result_owner id r hr
      obtain ⟨t', ht', hc⟩ := h.task ht
      exact ⟨t', ht', by rw [horg, hc.organizationId_eq]⟩
    · rw [hr] at hr'; cases hr'
      rcases h.before ht' with ⟨t₂, ht₂, hc⟩ | hn
      · rw [ht] at ht₂; cases ht₂
        exact ⟨t', ht', by rw [horg, hc.organizationId_eq]⟩
      · rw [ht] at hn; cases hn
  finding_owner f hf := by
    rcases h.finding f hf with hf | hr
    · obtain ⟨r, hr, hid, horg⟩ := hs.finding_owner f hf
      have hr' := h.result_mono (d.results.find_of_mem hr)
      exact ⟨r, Table.mem_of_find hr', hid, horg⟩
    · exact hr
  ran_known id t' ht' hrun := by
    rcases h.before ht' with ⟨t, ht, hc⟩ | hn
    · rw [hc.testKey_eq]
      cases hc with
      | same | canceled => exact hs.ran_known id _ ht hrun
      | started _ _ _ hk => exact hk
      | closed status _ _ _ hst hcomp =>
        rcases hrun with hr | hr
        · rw [show status = .running from hr] at hst; cases hst
        · exact hs.ran_known id t ht (.inl (hcomp hr).1)
      | vanished => rcases hrun with hr | hr <;> cases hr
    · obtain ⟨-, -, hq | hb, -⟩ := h.created hn ht' <;> simp_all

end Effect

end TestingPlatform.Scan
