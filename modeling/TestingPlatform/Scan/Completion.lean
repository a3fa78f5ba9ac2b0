import TestingPlatform.Scan.Refine

/-!
# Completion is counted

A task becomes terminal under its own row lock and the job is closed later, under the lock of the job
row, by whoever counts all tasks terminal. Nothing is lost because of who counts: whoever commits a
terminal task, or creates the matrix, is on its way to `finalize_job_if_done` from that commit on, and
it counts in a statement that starts after it has the job row. `Completion.pursued` is that argument as
an invariant: an open job whose tasks are all terminal is owed a count by somebody. `Counting` is what
does not depend on who survives.

Nothing is closed twice because the count and the close happen under one lock of the job row: a
terminal job stays as it is (`closed_mono`), and its terminal event and the `end` event are published by
the one delivery that closed it (`Announced`).
-/

namespace TestingPlatform.Scan

open ReadCommitted

variable {π : Type} [DecidableEq π] {plus : Time → Time}

/-- Nobody is killed. A delivery that the broker fails after its commit counts as killed there. -/
def CrashFree (_ : Deployment π) (a : π × Choice) : Prop := a.2 ≠ .crash

instance (w : Deployment π) (a : π × Choice) : Decidable (CrashFree w a) := inferInstanceAs (Decidable (a.2 ≠ .crash))

/-- The finalize call a delivery is in, or goes to after publishing what it committed. -/
def Proc.finalizing : Proc → Option FinalizeCall
  | .publish _ (.finalize f) | .finalize f | .count f _ | .close f _ _ => some f
  | _ => none

/-- The delivery is still to run its finalize of the job. -/
def Proc.Owes (p : Proc) (jobId : Uuid) : Prop := ∃ f, p.finalizing = some f ∧ f.jobId = jobId

def statusesOf (d : Db) (jobId : Uuid) : List ScanTaskStatus := (d.tasksOf jobId).map ScanTask.status

/-- The job has tasks, and all of them are terminal. -/
def AllTerminal (d : Db) (jobId : Uuid) : Prop :=
  statusesOf d jobId ≠ [] ∧ ∀ s ∈ statusesOf d jobId, s.terminal = true

theorem mem_statusesOf {d : Db} {jobId : Uuid} {s : ScanTaskStatus} :
    s ∈ statusesOf d jobId ↔ ∃ id t, d.tasks.find id = some t ∧ t.scanJobId = jobId ∧ t.status = s := by
  simp only [statusesOf, List.mem_map, Db.mem_tasksOf]
  constructor
  · rintro ⟨t, ⟨ht, hj⟩, hs⟩
    exact ⟨t.id, t, d.tasks.find_of_mem ht, hj, hs⟩
  · rintro ⟨id, t, ht, hj, hs⟩
    exact ⟨t, ⟨Table.mem_of_find ht, hj⟩, hs⟩

/-! ### Statuses of one job -/

namespace Effect
variable {a : Act} {d d' : Db} (h : Effect a d d') {jobId : Uuid}

include h

/-- The statuses of a job whose tasks are all terminal stand, unless a dispatch has the job open. -/
theorem statuses_settled (hall : ∀ s ∈ statusesOf d jobId, s.terminal = true)
    (hq : ∀ job, d.jobs.find jobId = some job → job.status.terminal = false → a.dispatching ≠ some jobId)
    (s : ScanTaskStatus) : s ∈ statusesOf d' jobId ↔ s ∈ statusesOf d jobId := by
  have settled : ∀ {id t t'}, d.tasks.find id = some t → t.scanJobId = jobId → TaskChange a d t t' →
      t'.status = t.status := by
    intro id t t' ht hj hc
    have hterm := hall _ (mem_statusesOf.2 ⟨id, t, ht, hj, rfl⟩)
    rcases hc.terminal_cases hterm with ⟨hs, -⟩ | ⟨-, -, hd, job, hjob, hlive⟩
    · exact hs
    · exact absurd (hj ▸ hd) (hq job (hj ▸ hjob) hlive)
  rw [mem_statusesOf, mem_statusesOf]
  constructor
  · rintro ⟨id, t', ht', hj, rfl⟩
    rcases h.before ht' with ⟨t, ht, hc⟩ | hn
    · have hj' : t.scanJobId = jobId := hc.scanJobId_eq.symm.trans hj
      exact ⟨id, t, ht, hj', (settled ht hj' hc).symm⟩
    · obtain ⟨hd, -, -, job, hjob, hlive, -⟩ := h.created hn ht'
      exact absurd (hj ▸ hd) (hq job (hj ▸ hjob) hlive)
  · rintro ⟨id, t, ht, hj, rfl⟩
    obtain ⟨t', ht', hc⟩ := h.task ht
    exact ⟨id, t', ht', hc.scanJobId_eq.trans hj, settled ht hj hc⟩

/-- Who makes the last task of a job terminal is closing that job. -/
theorem allTerminal_before (hall : AllTerminal d' jobId) (hc : a.closing ≠ some jobId) : AllTerminal d jobId := by
  obtain ⟨hne, hterm⟩ := hall
  constructor
  · obtain ⟨s, hs⟩ := List.exists_mem_of_ne_nil _ hne
    obtain ⟨id, t', ht', hj, -⟩ := mem_statusesOf.1 hs
    rcases h.before ht' with ⟨t, ht, hch⟩ | hn
    · exact List.ne_nil_of_mem (mem_statusesOf.2 ⟨id, t, ht, hch.scanJobId_eq.symm.trans hj, rfl⟩)
    · obtain ⟨-, hcl, -⟩ := h.created hn ht'
      exact absurd (hj ▸ hcl) hc
  · intro s hs
    obtain ⟨id, t, ht, hj, rfl⟩ := mem_statusesOf.1 hs
    obtain ⟨t', ht', hch⟩ := h.task ht
    have hterm' := hterm _ (mem_statusesOf.2 ⟨id, t', ht', hch.scanJobId_eq.trans hj, rfl⟩)
    by_cases he : t'.status = t.status
    · rwa [← he]
    · rcases h.closes ht ht' he with hr | hcl
      · rw [hr] at hterm'; cases hterm'
      · exact absurd (hj ▸ hcl) hc

end Effect

/-! ### Sight -/

theorem seesJob_eq_seesTask {a : Access} {job : ScanJob} {t : ScanTask} (hj : t.scanJobId = job.id)
    (ho : job.organizationId = t.organizationId) : a.seesJob job = a.seesTask t := by
  have hpolicy : a.gucs.scanJobPolicy job = a.gucs.scanTaskPolicy t := by
    rw [Rls.Gucs.scanJobPolicy, Rls.Gucs.scanTaskPolicy, ho, hj]
  simp only [Access.seesJob, Access.seesTask, hpolicy]

theorem seesJob_congr {a : Access} {job job' : ScanJob} (hc : JobChange job job') : a.seesJob job' = a.seesJob job := by
  have hpolicy : a.gucs.scanJobPolicy job' = a.gucs.scanJobPolicy job := by
    rw [Rls.Gucs.scanJobPolicy, Rls.Gucs.scanJobPolicy, hc.id_eq, hc.organizationId_eq]
  simp only [Access.seesJob, hpolicy]

/-! ### The invariant -/

/-- What finalize calls count and write. It holds in every run, whoever is killed. -/
structure Counting (w : Deployment π) : Prop where
  /-- A closed job says what its tasks say. -/
  counted : ∀ id job, w.db.jobs.find id = some job → job.status.terminal = true →
    ∀ override, (deriveJobOutcome (statusesOf w.db id) override).map (·.1) = some job.status
  /-- Whoever owes a count can see the job. -/
  sees : ∀ i f, (w.proc i).finalizing = some f → ∀ job, w.db.jobs.find f.jobId = some job → f.access.seesJob job = true
  /-- The outcome about to be written is the count of what is committed. -/
  closing : ∀ i f job outcome, w.proc i = .close f job outcome →
    deriveJobOutcome (statusesOf w.db job.id) f.reasonOverride = some outcome

structure Completion (w : Deployment π) : Prop extends Counting w where
  /-- An open job whose tasks are all terminal is owed a count. -/
  pursued : ∀ id job, w.db.jobs.find id = some job → job.status.terminal = false → AllTerminal w.db id →
    ∃ i, (w.proc i).Owes id

section Step
variable {w w₀ : Deployment π} {i j : π} {c : Choice} {m : Step}

/-- The only way into a finalize call, other than through it, is a commit. -/
theorem finalizing_of_next {d : Db} {p : Proc} {f : FinalizeCall} (h : go plus d p = some m)
    (hf : m.next.finalizing = some f) : p.finalizing = some f ∨ ∃ ws, m.op = .commit ws := by
  cases go_leads h with
  | ends _ _ hq => rcases hq with rfl | rfl <;> cases hf
  | commits => exact .inr ⟨_, rfl⟩
  | @sends _ _ next | @sent next =>
    left
    cases next <;> exact hf
  | counts | counted => exact .inl hf
  | _ => cases hf

omit [DecidableEq π]

theorem sees_of_commit {ws : List Write} {q : Proc} {f : FinalizeCall} (hb : Base w)
    (h : Commits plus (w.proc i) ws q) (hf : q.finalizing = some f) {job : ScanJob}
    (hjob : w.db.jobs.find f.jobId = some job) : f.access.seesJob job = true := by
  have hholds := hb.holds i
  -- a visible task makes its job visible
  have sees : ∀ {a : Access} {t : ScanTask}, w.db.tasks.find t.id = some t → a.seesTask t = true →
      w.db.jobs.find t.scanJobId = some job → a.seesJob job = true := by
    intro a t ht hsees hj
    obtain ⟨job', hj', horg⟩ := hb.owned _ t ht
    rw [hj] at hj'; cases hj'
    rw [seesJob_eq_seesTask (Table.key_of_find hj).symm horg]
    exact hsees
  generalize hp : w.proc i = p at h hholds
  cases h with
  | dispatch | reap => cases hf; rfl
  | refuse c task status reason =>
    cases hf
    exact sees hholds.1.row hholds.1.sees hjob
  | finish c run task v =>
    cases hf
    refine sees hholds.1.row hholds.1.sees ?_
    rw [hholds.1.job_id]
    exact hjob
  | start | close | cancel => cases hf

theorem owes_of_closing {ws : List Write} {q : Proc} {jobId : Uuid} (hb : Base w)
    (h : Commits plus (w.proc i) ws q) (hc : (w.proc i).closing = some jobId) : q.Owes jobId := by
  have hholds := hb.holds i
  generalize hp : w.proc i = p at h hholds hc
  cases h with
  | dispatch c p =>
    refine ⟨c.finalize, rfl, ?_⟩
    rw [← Option.some.inj hc]
    exact hholds.1.job_id.symm
  | refuse | finish | reap => exact ⟨_, rfl, Option.some.inj hc⟩
  | start | close | cancel => cases hc

/-- The job row after a commit: only `close` makes an open job terminal. -/
theorem close_of_terminal {ws : List Write} {q : Proc} {id : Uuid} {job job' : ScanJob} (hb : Base w)
    (h : Commits plus (w.proc i) ws q) (hj : w.db.jobs.find id = some job) (hlive : job.status.terminal = false)
    (hj' : (ws.foldl Db.write w.db).jobs.find id = some job') (hterm : job'.status.terminal = true) :
    ∃ f outcome, w.proc i = .close f job outcome ∧ job.id = f.jobId ∧ job'.status = outcome.1 := by
  rw [Db.find_job_foldl hj, Option.some.injEq] at hj'
  have closes : ¬ ∀ u ∈ ws, u.closesJob = false := fun hws => by
    have hlive' : job'.status.terminal = false := hj' ▸ Db.foldl_onJob_live hws hlive
    rw [hterm] at hlive'
    cases hlive'
  have hholds := hb.holds i
  generalize hp : w.proc i = p at h hholds
  cases h with
  | close f job₀ outcome =>
    obtain ⟨hheld, hid, -⟩ := hholds
    have hid' : job₀.id = id := by
      by_contra hne
      rw [Db.foldl_onJob_eq fun u hu => by rw [List.mem_singleton.1 hu]; simpa [closeJob, Write.jobId] using hne] at hj'
      rw [← hj', hlive] at hterm
      cases hterm
    subst hid'
    have hrow := hheld.row
    rw [hj] at hrow; cases hrow
    refine ⟨f, outcome, rfl, hid, ?_⟩
    rw [← hj']
    simp [closeJob, Write.jobId, Write.onJob]
  | dispatch c p =>
    refine absurd (fun u hu => ?_) closes
    simp only [DispatchPlan.writes, List.mem_append, List.mem_map, markJobRunning] at hu
    rcases hu with (hu | ⟨t, -, rfl⟩) | ⟨k, -, rfl⟩
    · split at hu
      · rw [List.mem_singleton.1 hu]; rfl
      · cases hu
    · rfl
    · rfl
  | refuse | start | cancel => exact absurd (fun u hu => by rw [List.mem_singleton.1 hu]; rfl) closes
  | reap =>
    refine absurd (fun u hu => ?_) closes
    obtain ⟨k, -, rfl⟩ := List.mem_map.1 hu
    rfl
  | finish c run task v =>
    refine absurd (fun u hu => ?_) closes
    simp only [Verdict.writes, List.mem_append, List.mem_singleton] at hu
    rcases hu with hu | rfl
    · split at hu
      · cases hu
      · rw [List.mem_cons, List.mem_map] at hu
        rcases hu with rfl | ⟨g, -, rfl⟩ <;> rfl
    · rfl

end Step

/-! ### Steps -/

section Run
variable {w w₀ w' : Deployment π} {i : π} {c : Choice} {m : Step}

theorem commit_or_same (hm : (pipeline plus).Fires w i c m) :
    (∃ ws, m.op = .commit ws ∧ Commits plus (w.proc i) ws m.next ∧
      ((pipeline plus).after w i m).db = ws.foldl Db.write w.db) ∨ ((pipeline plus).after w i m).db = w.db := by
  rw [System.db_after]
  cases hop : m.op with
  | commit ws => exact .inl ⟨ws, rfl, .of_move hm.1 hop, rfl⟩
  | read | lock | unlock | rollback => exact .inr rfl

theorem job_terminal_step (hb : Base w) (hm : (pipeline plus).Fires w i c m) {id : Uuid} {job : ScanJob}
    (hj : w.db.jobs.find id = some job) (hterm : job.status.terminal = true) :
    ((pipeline plus).after w i m).db.jobs.find id = some job := by
  obtain ⟨roster, hU⟩ := (w.proc i).exists_uses
  obtain ⟨job', hj', hc⟩ := (effect_of_fires (hb.holds i) hU hm).job hj
  rw [hj', hc.eq_of_terminal hterm]

theorem closing_step (hb : Base w) (hc : Counting w) (hm : (pipeline plus).Fires w i c m) {j : π} (hij : j ≠ i)
    {f : FinalizeCall} {job : ScanJob} {outcome : ScanJobStatus × Option String} (hp : w.proc j = .close f job outcome) :
    deriveJobOutcome (statusesOf ((pipeline plus).after w i m).db job.id) f.reasonOverride = some outcome := by
  have hout := hc.closing j f job outcome hp
  have hall : ∀ s ∈ statusesOf w.db job.id, s.terminal = true :=
    (deriveJobOutcome_isSome.1 (by rw [hout]; rfl)).2
  have hlock : w.owner (.job job.id) = some j := by
    have hholds := hb.holds j
    rw [hp] at hholds
    exact hholds.1.lock
  obtain ⟨roster, hU⟩ := (w.proc i).exists_uses
  have heff := effect_of_fires (hb.holds i) hU hm
  have hquiet : (w.proc i).dispatching ≠ some job.id := fun hd => by
    have hholds := hb.holds i
    generalize hq : w.proc i = q at hd hholds
    cases q with
    | dispatchCommit c p =>
      -- a dispatch that commits has the job row locked itself
      have hlock' := hholds.1.job.lock
      rw [Option.some.inj hd] at hlock'
      exact hij (Option.some.inj (hlock.symm.trans hlock'))
    | _ => cases hd
  rw [deriveJobOutcome_congr (heff.statuses_settled hall fun _ _ _ => hquiet)]
  exact hout

theorem go_of_finalizing {d : Db} {p : Proc} {f : FinalizeCall} (hf : p.finalizing = some f) (hcrash : c ≠ .crash)
    (hm : move plus d p c = some m) : c = .go := by
  cases c with
  | go => rfl
  | crash => exact absurd rfl hcrash
  | fail =>
    have hfail : p.mayFail = true := by
      by_contra hno
      rw [move, if_neg hno] at hm
      cases hm
    cases p with
    | publish | finalize | count | close => cases hfail
    | _ => cases hf

omit [DecidableEq π] in
theorem counts_all (hb : Base w) {f : FinalizeCall} {job : ScanJob} (hj : w.db.jobs.find f.jobId = some job)
    (hsees : f.access.seesJob job = true) :
    ((w.db.tasksOf f.jobId).filter f.access.seesTask).map ScanTask.status = statusesOf w.db f.jobId := by
  have hall : (w.db.tasksOf f.jobId).filter f.access.seesTask = w.db.tasksOf f.jobId := by
    refine List.filter_eq_self.2 fun t ht => ?_
    obtain ⟨ht, hjob⟩ := Db.mem_tasksOf.1 ht
    obtain ⟨job₂, hj₂, horg⟩ := hb.owned _ t (w.db.tasks.find_of_mem ht)
    rw [hjob, hj] at hj₂; cases hj₂
    rw [← seesJob_eq_seesTask (hjob.trans (Table.key_of_find hj).symm) horg]
    exact hsees
  rw [hall, statusesOf]

omit [DecidableEq π] in
theorem owes_step (hb : Base w) (hc : Completion w) (hcrash : c ≠ .crash) (hm : (pipeline plus).Fires w i c m)
    {id : Uuid} {job : ScanJob} (hj : w.db.jobs.find id = some job) (hlive : job.status.terminal = false)
    (hall : AllTerminal w.db id) (ho : (w.proc i).Owes id) :
    m.next.Owes id ∨ ∃ f job' outcome, w.proc i = .close f job' outcome ∧ job'.id = id := by
  obtain ⟨f, hf, rfl⟩ := ho
  have hsees := hc.sees i f hf job hj
  have hholds := hb.holds i
  obtain ⟨hmove, -⟩ := hm
  have hgo : c = .go := go_of_finalizing hf hcrash hmove
  subst hgo
  generalize hp : w.proc i = p at hf hmove hholds
  cases p with
  | publish messages next =>
    left
    cases messages <;> cases hmove <;> exact ⟨f, by cases next <;> exact hf, rfl⟩
  | finalize f' =>
    cases hf; cases hmove
    left
    have hfound : (w.db.jobs.find f.jobId).filter f.access.seesJob = some job := by
      rw [hj, Option.filter_some, if_pos hsees]
    simp only [hfound, hlive]
    exact ⟨f, rfl, rfl⟩
  | count f' job' =>
    cases hf; cases hmove
    left
    have hsome : (deriveJobOutcome (statusesOf w.db f.jobId) f.reasonOverride).isSome :=
      deriveJobOutcome_isSome.2 hall
    obtain ⟨outcome, hout⟩ := Option.isSome_iff_exists.1 hsome
    simp only [counts_all hb hj hsees, hout]
    exact ⟨f, rfl, rfl⟩
  | close f' job' outcome =>
    cases hf
    exact .inr ⟨_, job', outcome, rfl, hholds.2.1⟩
  | _ => cases hf

omit [DecidableEq π] in
theorem count_of_close {d : Db} {p : Proc} {f : FinalizeCall} {job : ScanJob} {outcome : ScanJobStatus × Option String}
    (h : go plus d p = some m) (hn : m.next = .close f job outcome) :
    p = .count f job ∧ m.op = .read ∧
      deriveJobOutcome (((d.tasksOf f.jobId).filter f.access.seesTask).map ScanTask.status) f.reasonOverride =
        some outcome := by
  cases go_leads h with
  | ends _ _ hq => rcases hq with rfl | rfl <;> cases hn
  | commits _ hcommits => cases hcommits <;> cases hn
  | @sent next => cases next <;> cases hn
  | counted houtcome =>
    cases hn
    exact ⟨rfl, rfl, houtcome⟩
  | _ => cases hn

theorem Counting.step (hb : Base w) (hc : Counting w) (hm : (pipeline plus).Fires w i c m) :
    Counting ((pipeline plus).after w i m) := by
  obtain ⟨roster, hU⟩ := (w.proc i).exists_uses
  have heff := effect_of_fires (hb.holds i) hU hm
  constructor
  · intro id job' hj' hterm override
    obtain ⟨job, hj, hch⟩ := heff.jobBefore hj'
    cases hlive : job.status.terminal with
    | true =>
      -- it was closed before, and its tasks stand
      rw [hch.eq_of_terminal hlive]
      have hcount := hc.counted id job hj hlive
      have hsome : (deriveJobOutcome (statusesOf w.db id) override).isSome := by
        obtain ⟨outcome, hout, -⟩ := Option.map_eq_some_iff.1 (hcount override)
        rw [hout]; rfl
      have hall := (deriveJobOutcome_isSome.1 hsome).2
      rw [deriveJobOutcome_congr (heff.statuses_settled hall fun job₂ hj₂ hlive₂ => ?_)]
      · exact hcount override
      · rw [hj] at hj₂; cases hj₂
        rw [hlive] at hlive₂; cases hlive₂
    | false =>
      rcases commit_or_same hm with ⟨ws, hop, hcom, hdb⟩ | hdb
      · rw [hdb] at hj' ⊢
        obtain ⟨f, outcome, hp, hid, hst⟩ := close_of_terminal hb hcom hj hlive hj' hterm
        have hout := hc.closing i f job outcome hp
        rw [hp] at hcom
        generalize m.next = q at hcom
        cases hcom
        rw [deriveJobOutcome_status _ override f.reasonOverride, hst]
        rw [Table.key_of_find hj] at hout
        exact congrArg (Option.map (·.1)) hout
      · rw [hdb, hj, Option.some.injEq] at hj'
        rw [← hj', hlive] at hterm
        cases hterm
  · intro j f hf job' hj'
    obtain ⟨job, hj, hch⟩ := heff.jobBefore hj'
    rw [seesJob_congr hch]
    by_cases hij : j = i
    · subst hij
      rw [System.proc_after_self] at hf
      by_cases hgo : c = .go
      · subst hgo
        rcases finalizing_of_next hm.1 hf with hf | ⟨ws, hop⟩
        · exact hc.sees j f hf job hj
        · exact sees_of_commit hb (Commits.of_go hm.1 hop) hf hj
      · cases rollback_of_ne_go hm.1 hgo
        cases hf
    · rw [System.proc_after_of_ne hij] at hf
      exact hc.sees j f hf job hj
  · intro j f job outcome hp
    rcases System.proc_after_eq hp with ⟨rfl, hnext⟩ | ⟨hij, hp⟩
    · by_cases hgo : c = .go
      · subst hgo
        obtain ⟨hproc, hop, hout⟩ := count_of_close hm.1 hnext
        have hholds := hb.holds j
        rw [hproc] at hholds
        have hrow := hholds.2 ▸ hholds.1.row
        have hsees := hc.sees j f (by rw [hproc]; rfl) job hrow
        rw [System.db_after, hop, hholds.2]
        exact counts_all hb hrow hsees ▸ hout
      · cases rollback_of_ne_go hm.1 hgo
        cases hnext
    · exact closing_step hb hc hm hij hp

theorem Completion.step (hb : Base w) (hc : Completion w) (hcrash : c ≠ .crash) (hm : (pipeline plus).Fires w i c m) :
    Completion ((pipeline plus).after w i m) := by
  obtain ⟨roster, hU⟩ := (w.proc i).exists_uses
  have heff := effect_of_fires (hb.holds i) hU hm
  refine ⟨hc.toCounting.step hb hm, ?_⟩
  intro id job' hj' hlive' hall'
  obtain ⟨job, hj, hch⟩ := heff.jobBefore hj'
  have hlive : job.status.terminal = false := by
    cases ht : job.status.terminal with
    | false => rfl
    | true =>
      rw [hch.eq_of_terminal ht, ht] at hlive'
      cases hlive'
  have self : m.next.Owes id → ∃ j, (((pipeline plus).after w i m).proc j).Owes id := fun ho =>
    ⟨i, by rwa [System.proc_after_self]⟩
  by_cases hall : AllTerminal w.db id
  · obtain ⟨j, ho⟩ := hc.pursued id job hj hlive hall
    by_cases hij : j = i
    · subst hij
      rcases owes_step hb hc hcrash hm hj hlive hall ho with ho | ⟨f, job₂, outcome, hp, hid⟩
      · exact self ho
      · -- the count that was owed has just closed the job
        have hholds := hb.holds j
        have hf : (w.proc j).finalizing = some f := by rw [hp]; rfl
        obtain ⟨hmove, -⟩ := hm
        obtain rfl := go_of_finalizing hf hcrash hmove
        rw [hp] at hmove hholds
        cases hmove
        obtain ⟨-, -, hterm⟩ := hholds
        rw [System.db_after] at hj'
        change ([closeJob plus f job₂ outcome].foldl Db.write w.db).jobs.find id = some job' at hj'
        rw [Db.find_job_foldl hj, Option.some.injEq] at hj'
        rw [← hj'] at hlive'
        simp only [closeJob, List.foldl_cons, List.foldl_nil, Write.jobId, hid, if_true, Write.onJob, hterm] at hlive'
        cases hlive'
    · exact ⟨j, by rwa [System.proc_after_of_ne hij]⟩
  · rcases commit_or_same hm with ⟨ws, hop, hcom, hdb⟩ | hdb
    · by_cases hcl : (w.proc i).closing = some id
      · exact self (owes_of_closing hb hcom hcl)
      · exact absurd (heff.allTerminal_before hall' hcl) hall
    · rw [hdb] at hall'
      exact absurd hall' hall

end Run

end TestingPlatform.Scan
