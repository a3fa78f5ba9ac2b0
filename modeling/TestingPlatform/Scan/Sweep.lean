import TestingPlatform.Scan.Matrix
import TestingPlatform.Scan.Timeout

/-!
# A sweep closes its job

`scan.reap` picks the jobs that have run past their timeout and sweeps each of them: the tasks found open are locked one by
one, failed in one transaction, and the job is counted. The tasks are listed without a lock. Still none is missed,
because a job that runs has its whole matrix (`Manned`), so no task comes to it after the list. `Proc.Sweeps` is what the
sweep knows at each of its statements; it ends with the job closed, whatever all others do and whoever of them is killed
(`sweep_closes`).
-/

namespace TestingPlatform.Scan

open ReadCommitted

variable {π : Type} [DecidableEq π] {plus : Time → Time}

/-- The jobs that `reap` finds stuck. -/
def stuckJobs (d : Db) (timeoutBefore : Time) : List Uuid :=
  (d.jobs.rows.filter fun job => job.status = .running ∧ job.startedAt.any (· < timeoutBefore)).map ScanJob.id

theorem running_of_stuck {d : Db} {timeoutBefore : Time} {jobId : Uuid} (h : jobId ∈ stuckJobs d timeoutBefore) :
    ∃ job, d.jobs.find jobId = some job ∧ job.status = .running := by
  obtain ⟨job, hmem, rfl⟩ := List.mem_map.1 h
  obtain ⟨hmem, hp⟩ := List.mem_filter.1 hmem
  exact ⟨job, d.jobs.find_of_mem hmem, (of_decide_eq_true hp).1⟩

/-! ### The matrix of a running job -/

/-- Every job requests a module, and a running one has tasks. -/
structure Manned (d : Db) : Prop where
  modules : ∀ id job, d.jobs.find id = some job → job.modules ≠ []
  tasks : ∀ id job, d.jobs.find id = some job → job.status = .running → d.tasksOf id ≠ []

theorem Effect.tasksOf_ne_nil {a : Act} {d d' : Db} (h : Effect a d d') {jobId : Uuid} (hne : d.tasksOf jobId ≠ []) :
    d'.tasksOf jobId ≠ [] := by
  obtain ⟨t, ht⟩ := List.exists_mem_of_ne_nil _ hne
  obtain ⟨hmem, hjob⟩ := Db.mem_tasksOf.1 ht
  obtain ⟨t', ht', hc⟩ := h.task (d.tasks.find_of_mem hmem)
  exact List.ne_nil_of_mem (Db.mem_tasksOf.2 ⟨Table.mem_of_find ht', hc.scanJobId_eq.trans hjob⟩)

theorem requestedTests_ne_nil {modules : List ScanModule} (h : modules ≠ []) : requestedTests modules ≠ [] := by
  obtain ⟨m, hm⟩ := List.exists_mem_of_ne_nil _ h
  obtain ⟨entry, he⟩ := List.exists_mem_of_ne_nil _ (testsForModule_spec m).1
  exact List.ne_nil_of_mem (List.mem_flatMap.2 ⟨m, hm, List.mem_map_of_mem he⟩)

theorem Planned.created_or {d : Db} {c : DispatchCall} {p : DispatchPlan} (h : Planned d c p) (hmodules : p.job.modules ≠ []) :
    d.tasksOf p.job.id ≠ [] ∨ p.created ≠ [] := by
  obtain ⟨tasks, hplan, hiff⟩ := h
  rcases planDispatch_cases hplan with ⟨hempty, roster, -, -, hroster, -⟩ | ⟨hne, -⟩
  · right
    intro hnil
    have hrows := (planDispatch_created hplan hroster).2.1
    rw [hnil] at hrows
    exact requestedTests_ne_nil hmodules (hrows hempty).symm
  · exact .inl (mt hiff.2 hne)

section Step
variable {w : Deployment π} {i : π} {c : Choice} {m : Step} {jobId : Uuid}

theorem Manned.step (hb : Base w) (hP : (w.proc i).Plans w.db) (h : Manned w.db) (hm : (pipeline plus).Fires w i c m) :
    Manned ((pipeline plus).after w i m).db := by
  obtain ⟨roster, hU⟩ := (w.proc i).exists_uses
  have heff := effect_of_fires (hb.holds i) hU hm
  rcases commit_or_same hm with ⟨ws, -, hcom, hdb⟩ | hdb
  · have after : ∀ {id job'}, ((pipeline plus).after w i m).db.jobs.find id = some job' →
        ∃ job, w.db.jobs.find id = some job ∧ job'.modules = job.modules ∧
          (job'.status = .running → (w.proc i).dispatching = some id ∨ job.status = .running) := by
      intro id job' hj'
      obtain ⟨job, hj, -⟩ := heff.jobBefore hj'
      obtain ⟨job₂, hj₂, hmodules, hcase⟩ := hcom.job (hb.holds i) hj
      rw [← hdb, hj', Option.some.injEq] at hj₂
      subst hj₂
      refine ⟨job, hj, hmodules, fun hrun => ?_⟩
      rcases hcase with ⟨c, p, hp, hjob, -⟩ | ⟨-, -, hs | hterm⟩
      · left
        rw [hp, Proc.dispatching, hjob, Table.key_of_find hj]
      · exact .inr (hs ▸ hrun)
      · rw [hrun] at hterm
        cases hterm
    constructor
    · intro id job' hj'
      obtain ⟨job, hj, hmodules, -⟩ := after hj'
      rw [hmodules]
      exact h.modules id job hj
    · intro id job' hj' hrun
      obtain ⟨job, hj, -, hcase⟩ := after hj'
      rcases hcase hrun with hd | hrun
      · have hentries := hcom.entries (hb.holds i) hP id
        rw [hcom.insertsFor (hb.holds i), if_pos hd, ← hdb] at hentries
        have hholds := hb.holds i
        intro hnil
        rw [hnil, List.map_nil] at hentries
        obtain ⟨hbefore, hcreated⟩ := List.append_eq_nil_iff.1 hentries.symm
        generalize w.proc i = p at hd hP hholds hcreated
        cases p with
        | dispatchCommit c p =>
          obtain rfl := Option.some.inj hd
          have hrow := hholds.1.job.row
          rw [hj] at hrow
          cases hrow
          rcases hP.1.created_or (h.modules _ _ hj) with hne | hne
          · exact hne (List.map_eq_nil_iff.1 hbefore)
          · exact hne (List.map_eq_nil_iff.1 hcreated)
        | _ => cases hd
      · exact heff.tasksOf_ne_nil (h.tasks id job hj hrun)
  · rw [hdb]
    exact h

theorem entries_after (hb : Base w) (hP : (w.proc i).Plans w.db) (hm : (pipeline plus).Fires w i c m)
    (hne : w.db.tasksOf jobId ≠ []) :
    (((pipeline plus).after w i m).db.tasksOf jobId).map entryOf = (w.db.tasksOf jobId).map entryOf := by
  rcases commit_or_same hm with ⟨ws, -, hcom, hdb⟩ | hdb
  · rw [hdb, hcom.entries (hb.holds i) hP, hcom.insertsFor (hb.holds i)]
    have hnone : (if (w.proc i).dispatching = some jobId then (w.proc i).creating else []) = [] := by
      split
      next hd =>
        have hholds := hb.holds i
        generalize w.proc i = p at hd hholds
        cases p with
        | dispatchCommit c p =>
          rcases hholds.1.first with hnil | ⟨-, hnil⟩
          · exact hnil
          · rw [Option.some.inj hd] at hnil
            exact absurd hnil hne
        | _ => rfl
      · rfl
    rw [hnone, List.map_nil, List.append_nil]
  · rw [hdb]

theorem open_before (hb : Base w) (hP : (w.proc i).Plans w.db) (hm : (pipeline plus).Fires w i c m)
    (hne : w.db.tasksOf jobId ≠ []) {t' : ScanTask} (ht' : t' ∈ ((pipeline plus).after w i m).db.tasksOf jobId)
    (hopen : t'.status.terminal = false) : ∃ t ∈ w.db.tasksOf jobId, t.id = t'.id ∧ t.status.terminal = false := by
  have hentry : entryOf t' ∈ (w.db.tasksOf jobId).map entryOf := entries_after hb hP hm hne ▸ List.mem_map_of_mem ht'
  obtain ⟨t, ht, he⟩ := List.mem_map.1 hentry
  have hid : t.id = t'.id := congrArg Prod.fst he
  refine ⟨t, ht, hid, ?_⟩
  obtain ⟨roster, hU⟩ := (w.proc i).exists_uses
  obtain ⟨t₂, ht₂, hc⟩ := (effect_of_fires (hb.holds i) hU hm).task (w.db.tasks.find_of_mem (Db.mem_tasksOf.1 ht).1)
  have hfind := ((pipeline plus).after w i m).db.tasks.find_of_mem (Db.mem_tasksOf.1 ht').1
  rw [hid, hfind, Option.some.injEq] at ht₂
  cases hterm : t.status.terminal with
  | false => rfl
  | true =>
    rw [← ht₂] at hc
    rw [hc.terminal_mono hterm] at hopen
    cases hopen

/-! ### What a sweep knows -/

/-- The open tasks of the job are among those listed. -/
def OpenIn (d : Db) (jobId : Uuid) (ids : List Uuid) : Prop := ∀ t ∈ d.tasksOf jobId, t.status.terminal = false → t.id ∈ ids

/-- What the sweep of a job that has tasks knows before its next statement. -/
def Proc.Sweeps (d : Db) (jobId : Uuid) : Proc → Prop
  | .reap c => c.jobId = jobId
  | .reapLock c todo live => c.jobId = jobId ∧ OpenIn d jobId (todo ++ live)
  | .reapCommit c live => c.jobId = jobId ∧ OpenIn d jobId live
  | .publish _ (.finalize f) | .finalize f | .count f _ => f.jobId = jobId ∧ f.access = .platform ∧ OpenIn d jobId []
  | .close f _ _ => f.jobId = jobId ∧ OpenIn d jobId []
  | .publish _ .done | .release | .done => JobTerminal d jobId ∧ OpenIn d jobId []
  | _ => False

theorem OpenIn.step {ids : List Uuid} (hb : Base w) (hP : (w.proc i).Plans w.db) (hm : (pipeline plus).Fires w i c m)
    (hne : w.db.tasksOf jobId ≠ []) (h : OpenIn w.db jobId ids) : OpenIn ((pipeline plus).after w i m).db jobId ids := by
  intro t' ht' hopen
  obtain ⟨t, ht, hid, hopen⟩ := open_before hb hP hm hne ht' hopen
  exact hid ▸ h t ht hopen

theorem JobTerminal.step (hb : Base w) (hm : (pipeline plus).Fires w i c m) (h : JobTerminal w.db jobId) :
    JobTerminal ((pipeline plus).after w i m).db jobId := by
  obtain ⟨job, hj, hterm⟩ := h
  exact ⟨job, job_terminal_step hb hm hj hterm, hterm⟩

theorem Proc.Sweeps.stable {p : Proc} (hb : Base w) (hP : (w.proc i).Plans w.db) (hm : (pipeline plus).Fires w i c m)
    (hne : w.db.tasksOf jobId ≠ []) (h : p.Sweeps w.db jobId) : p.Sweeps ((pipeline plus).after w i m).db jobId := by
  cases p with
  | reap => exact h
  | reapLock | reapCommit => exact ⟨h.1, h.2.step hb hP hm hne⟩
  | finalize | count => exact ⟨h.1, h.2.1, h.2.2.step hb hP hm hne⟩
  | close => exact ⟨h.1, h.2.step hb hP hm hne⟩
  | release | done => exact ⟨h.1.step hb hm, h.2.step hb hP hm hne⟩
  | publish _ next =>
    cases next with
    | finalize => exact ⟨h.1, h.2.1, h.2.2.step hb hP hm hne⟩
    | done => exact ⟨h.1.step hb hm, h.2.step hb hP hm hne⟩
    | engine => exact h.elim
  | _ => exact h.elim

theorem mem_live {d : Db} {t : ScanTask} (ht : t ∈ d.tasksOf jobId) (hopen : t.status.terminal = false) :
    isLiveOf jobId t = true := by
  simp [isLiveOf, (Db.mem_tasksOf.1 ht).2, hopen]

theorem openIn_reap {d : Db} {live : List Uuid} {reason : String} {now : Time} (h : OpenIn d jobId live) :
    OpenIn ((live.map fun id => Write.taskTerminal id .failed (some reason) now).foldl Db.write d) jobId [] := by
  intro t' ht' hopen
  obtain ⟨hmem', hjob'⟩ := Db.mem_tasksOf.1 ht'
  have hfind' := Table.find_of_mem hmem'
  cases hd : d.tasks.find t'.id with
  | none =>
    rw [Db.find_task_foldl_none (fun u hu t => by obtain ⟨_, -, rfl⟩ := List.mem_map.1 hu; simp) hd] at hfind'
    cases hfind'
  | some t =>
    rw [Db.find_task_foldl hd, Db.foldl_taskTerminal, Option.some.injEq] at hfind'
    split at hfind'
    · rw [← hfind'] at hopen
      cases hopen
    next hnot =>
      subst hfind'
      exact absurd (h t (Db.mem_tasksOf.2 ⟨Table.mem_of_find hd, hjob'⟩) hopen) hnot

/-- A sweep that is not killed goes on to close the job. -/
theorem Proc.Sweeps.next (hb : Base w) (hm : (pipeline plus).Fires w i .go m) (hne : w.db.tasksOf jobId ≠ [])
    {job : ScanJob} (hjob : w.db.jobs.find jobId = some job) (h : (w.proc i).Sweeps w.db jobId) :
    m.next.Sweeps ((pipeline plus).after w i m).db jobId := by
  have hgo : go plus w.db (w.proc i) = some m := hm.1
  have hsees : Access.platform.seesJob = fun _ => true := by
    funext job
    rfl
  have hall : Access.platform.seesTask = fun _ => true := by
    funext t
    rfl
  generalize hp : w.proc i = p at h hgo
  rw [System.db_after]
  cases p with
  | reap c =>
    cases hgo
    refine ⟨h, fun t ht hopen => List.mem_append_left _ ?_⟩
    exact List.mem_map_of_mem (List.mem_filter.2 ⟨(Db.mem_tasksOf.1 ht).1, h ▸ mem_live ht hopen⟩)
  | reapLock c todo live =>
    obtain ⟨hid, hopenIn⟩ := h
    cases todo with
    | nil =>
      cases hgo
      exact ⟨hid, hopenIn⟩
    | cons id todo =>
      cases hgo
      refine ⟨hid, fun t ht hopen => ?_⟩
      have hmem := hopenIn t ht hopen
      rw [List.cons_append, List.mem_cons, List.mem_append] at hmem
      rw [List.mem_append]
      rcases hmem with rfl | hmem | hmem
      · right
        have hany : (w.db.tasks.find t.id).any (isLiveOf c.jobId) = true := by
          rw [w.db.tasks.find_of_mem (Db.mem_tasksOf.1 ht).1, Option.any_some, hid]
          exact mem_live ht hopen
        rw [if_pos hany]
        exact List.mem_append_right _ (List.mem_singleton_self _)
      · exact .inl hmem
      · right
        split
        · exact List.mem_append_left _ hmem
        · exact hmem
  | reapCommit c live =>
    cases hgo
    exact ⟨h.1, rfl, openIn_reap h.2⟩
  | publish messages next =>
    cases messages with
    | nil =>
      cases hgo
      cases next with
      | finalize => exact h
      | done => exact h
      | engine => exact h.elim
    | cons => cases hgo; cases next <;> exact h
  | finalize f =>
    obtain ⟨rfl, hplatform, hopenIn⟩ := h
    cases hgo
    simp only [hjob, hplatform, hsees, Option.filter_some, if_true]
    split
    next hterm => exact ⟨⟨job, hjob, hterm⟩, hopenIn⟩
    · exact ⟨rfl, hplatform, hopenIn⟩
  | count f job₂ =>
    obtain ⟨rfl, hplatform, hopenIn⟩ := h
    cases hgo
    have hout : (deriveJobOutcome (statusesOf w.db f.jobId) f.reasonOverride).isSome := by
      refine deriveJobOutcome_isSome.2 ⟨fun hnil => hne (List.map_eq_nil_iff.1 hnil), fun s hs => ?_⟩
      obtain ⟨t, ht, rfl⟩ := List.mem_map.1 hs
      cases hterm : t.status.terminal with
      | true => rfl
      | false => cases hopenIn t ht hterm
    obtain ⟨outcome, hout⟩ := Option.isSome_iff_exists.1 hout
    have hcounted : ((w.db.tasksOf f.jobId).filter f.access.seesTask).map ScanTask.status = statusesOf w.db f.jobId := by
      rw [hplatform, hall, List.filter_true, statusesOf]
    simp only [hcounted, hout]
    exact ⟨rfl, hopenIn⟩
  | close f job₂ outcome =>
    obtain ⟨rfl, hopenIn⟩ := h
    have hclosed := (closes_job hb hm hp).2
    cases hgo
    rw [System.db_after] at hclosed
    exact ⟨hclosed, hopenIn⟩
  | release =>
    cases hgo
    exact h
  | done => cases hgo
  | _ => exact h.elim

end Step

/-! ### Runs -/

section Runs
variable {C : Deployment π → π × Choice → Prop} {w₀ w w' : Deployment π} {i : π} {c : ReapCall}

theorem manned_of_run (h₀ : Start w₀) (hmodules : ∀ id job, w₀.db.jobs.find id = some job → job.modules ≠ [])
    (h : (pipeline plus).Run C w₀ w) : Manned w.db := by
  have hstart : Manned w₀.db := by
    refine ⟨hmodules, fun id job hj hrun => ?_⟩
    rw [h₀.jobs id job hj] at hrun
    cases hrun
  refine (h.using fun hv => And.intro (base_of_run h₀ hv) (plans_of_run h₀ hv)).invariant (I := fun v => Manned v.db) hstart
    fun v i c m hman ⟨_, hb, hP⟩ hm => hman.step hb (hP i) hm

/-- The job is closed and no task of it is open. -/
structure Closed (d : Db) (jobId : Uuid) : Prop where
  job : JobTerminal d jobId
  tasks : ∀ t ∈ d.tasksOf jobId, t.status.terminal = true

theorem closed_of_sweep (h₀ : Start w₀) (hmodules : ∀ id job, w₀.db.jobs.find id = some job → job.modules ≠ [])
    (h : (pipeline plus).Run C w₀ w) {timeoutBefore : Time} (hstuck : c.jobId ∈ stuckJobs w.db timeoutBefore)
    (hp : w.proc i = .reap c) (h' : (pipeline plus).Run (Unharmed i) w w') (hdone : w'.proc i = .done) :
    Closed w'.db c.jobId := by
  obtain ⟨job, hj, hrun⟩ := running_of_stuck hstuck
  have hne := (manned_of_run h₀ hmodules h).tasks _ job hj hrun
  have hC : ∀ {v}, (pipeline plus).Run (Unharmed i) w v → Base v ∧ ∀ j, (v.proc j).Plans v.db := fun hv =>
    have hrun := (h.mono fun _ _ _ => trivial).trans (hv.mono fun _ _ _ => trivial)
    ⟨base_of_run (C := fun _ _ => True) h₀ hrun, plans_of_run (C := fun _ _ => True) h₀ hrun⟩
  have hinv : (∃ job, w'.db.jobs.find c.jobId = some job) ∧ w'.db.tasksOf c.jobId ≠ [] ∧
      (w'.proc i).Sweeps w'.db c.jobId := by
    refine (h'.using hC).invariant
      (I := fun v => (∃ job, v.db.jobs.find c.jobId = some job) ∧ v.db.tasksOf c.jobId ≠ [] ∧ (v.proc i).Sweeps v.db c.jobId)
      ⟨⟨job, hj⟩, hne, by rw [hp]; rfl⟩ ?_
    rintro v j ch m ⟨⟨job, hj⟩, hne, hsweeps⟩ ⟨hunharmed, hb, hP⟩ hm
    obtain ⟨roster, hU⟩ := (v.proc j).exists_uses
    have heff := effect_of_fires (hb.holds j) hU hm
    obtain ⟨job', hj', -⟩ := heff.job hj
    refine ⟨⟨job', hj'⟩, heff.tasksOf_ne_nil hne, ?_⟩
    by_cases hij : i = j
    · subst hij
      obtain rfl : ch = .go := hunharmed rfl
      rw [System.proc_after_self]
      exact hsweeps.next hb hm hne hj
    · rw [System.proc_after_of_ne hij]
      exact hsweeps.stable hb (hP j) hm hne
  obtain ⟨-, -, hsweeps⟩ := hinv
  rw [hdone] at hsweeps
  refine ⟨hsweeps.1, fun t ht => ?_⟩
  cases hterm : t.status.terminal with
  | true => rfl
  | false => cases hsweeps.2 t ht hterm

/-! ### A sweep by itself -/

section Lone
variable {d : Db}

theorem lone_head {p : Proc} {m : Step} {y : Db × Proc} (hm : go plus d p = some m)
    (h : (pipeline plus).Lone .go (m.op.effect Db.write d, m.next) y) : (pipeline plus).Lone .go (d, p) y :=
  Relation.ReflTransGen.head ⟨m, hm, rfl⟩ h

theorem lone_publish {y : Db × Proc} (messages : List Message) (next : Next) (h : (pipeline plus).Lone .go (d, next.proc) y) :
    (pipeline plus).Lone .go (d, .publish messages next) y := by
  induction messages with
  | nil => exact lone_head rfl h
  | cons m messages ih => exact lone_head rfl ih

variable (plus)

theorem lone_finalize (d : Db) (f : FinalizeCall) : ∃ d', (pipeline plus).Lone .go (d, .finalize f) (d', .done) := by
  have release : (pipeline plus).Lone .go (d, .release) (d, .done) := lone_head rfl .refl
  by_cases hopen : ∃ job, (d.jobs.find f.jobId).filter f.access.seesJob = some job ∧ job.status.terminal = false
  · obtain ⟨job, hjob, hopen⟩ := hopen
    cases hout : deriveJobOutcome (((d.tasksOf f.jobId).filter f.access.seesTask).map ScanTask.status) f.reasonOverride with
    | none =>
      have hcount : go plus d (.count f job) = some { op := .read, next := .release } := by simp only [go, hout]
      refine ⟨d, lone_head rfl ?_⟩
      simp only [hjob, hopen]
      exact lone_head hcount release
    | some outcome =>
      have hcount : go plus d (.count f job) = some { op := .read, next := .close f job outcome } := by simp only [go, hout]
      refine ⟨[closeJob plus f job outcome].foldl Db.write d, lone_head rfl ?_⟩
      simp only [hjob, hopen]
      exact lone_head hcount (lone_head rfl (lone_publish _ _ .refl))
  · refine ⟨d, lone_head rfl ?_⟩
    dsimp only
    split
    · exact release
    next job hjob =>
      cases hterm : job.status.terminal with
      | true => exact release
      | false => exact absurd ⟨job, hjob, hterm⟩ hopen

theorem lone_sweep (d : Db) (c : ReapCall) : ∃ d', (pipeline plus).Lone .go (d, .reap c) (d', .done) := by
  have locks : ∀ todo live, ∃ d', (pipeline plus).Lone .go (d, .reapLock c todo live) (d', .done) := by
    intro todo
    induction todo with
    | nil =>
      intro live
      obtain ⟨d', hfinalize⟩ := lone_finalize plus
        ((live.map fun id => Write.taskTerminal id .failed (some reasonJobTimeout) c.swept).foldl Db.write d) (c.finalize live)
      exact ⟨d', lone_head rfl (lone_head rfl (lone_publish _ _ hfinalize))⟩
    | cons id todo ih =>
      intro live
      obtain ⟨d', hrest⟩ := ih (if (d.tasks.find id).any (isLiveOf c.jobId) then live ++ [id] else live)
      exact ⟨d', lone_head rfl hrest⟩
  obtain ⟨d', hlocks⟩ := locks ((d.tasks.rows.filter (isLiveOf c.jobId)).map ScanTask.id) []
  exact ⟨d', lone_head rfl hlocks⟩

end Lone

/-- In every run: the sweep of a job found stuck, once it has come to its end, has left the job closed. All other deliveries
may be executed in between, in any order, and may be killed. And where no other transaction is open it does come to its end. -/
theorem sweep_closes (h₀ : Start w₀) (hmodules : ∀ id job, w₀.db.jobs.find id = some job → job.modules ≠ [])
    (h : (pipeline plus).Run C w₀ w) {timeoutBefore : Time} (hstuck : c.jobId ∈ stuckJobs w.db timeoutBefore)
    (hp : w.proc i = .reap c) :
    (∀ w', (pipeline plus).Run (Unharmed i) w w' → w'.proc i = .done → Closed w'.db c.jobId) ∧
      ((∀ k, w.owner k = none ∨ w.owner k = some i) → ∃ w', (pipeline plus).Run (Unharmed i) w w' ∧ w'.proc i = .done) := by
  refine ⟨fun w' h' hdone => closed_of_sweep h₀ hmodules h hstuck hp h' hdone, fun hfree => ?_⟩
  obtain ⟨d', hlone⟩ := lone_sweep plus w.db c
  obtain ⟨w', hrun, -, hdone⟩ := System.Lone.run (hp ▸ hlone) hfree
  exact ⟨w', hrun.mono fun _ a ha _ => by rw [ha], hdone⟩

end Runs

namespace Overtaken

/-- The sweep of the job has not begun, and the job is stuck. -/
def toSweep (w : Deployment (Fin 3)) : Bool :=
  match w.proc 2 with
  | .reap c => decide (c.jobId = 1 ∧ c.jobId ∈ stuckJobs w.db (Time.hours 2))
  | _ => false

theorem exists_of_toSweep {w : Deployment (Fin 3)} (h : toSweep w = true) :
    ∃ c, w.proc 2 = .reap c ∧ c.jobId = 1 ∧ c.jobId ∈ stuckJobs w.db (Time.hours 2) := by
  unfold toSweep at h
  split at h
  next c hp => exact ⟨c, hp, of_decide_eq_true h⟩
  · cases h

def swept (w : Deployment (Fin 3)) : Bool := w.proc 2 matches .done

theorem done_of_swept {w : Deployment (Fin 3)} (h : swept w = true) : w.proc 2 = .done := by
  unfold swept at h
  split at h
  next hp => exact hp
  · cases h

end Overtaken

open Overtaken in
/-- Two hours after its dispatch the job is stuck; a redelivered dispatch comes between the statements of the sweep. -/
theorem sweep_closes_stuck_job :
    ∃ w w' : Deployment (Fin 3), (pipeline id).Run (fun _ _ => True) begin w ∧ (1 : Uuid) ∈ stuckJobs w.db (Time.hours 2) ∧
      (pipeline id).Run (Unharmed 2) w w' ∧ Closed w'.db 1 := by
  have run : ((pipeline id).exec (fun _ _ => True) begin (steps 0 11)).any (fun w => toSweep w &&
      ((pipeline id).exec (Unharmed (2 : Fin 3)) w (steps 2 2 ++ steps 1 5 ++ steps 2 11)).any
        swept) = true := by
    decide +kernel
  obtain ⟨w, hw, hp⟩ := System.Run.of_exec_any run
  rw [Bool.and_eq_true] at hp
  obtain ⟨c, hreap, hid, hstuck⟩ := exists_of_toSweep hp.1
  obtain ⟨w', hw', hswept⟩ := System.Run.of_exec_any hp.2
  have hmodules : ∀ id job, begin.db.jobs.find id = some job → job.modules ≠ [] := by
    intro id job hj
    have hmem := Table.mem_of_find hj
    simp only [begin, Vanished.begin, Table.rows_insert (Table.find_empty _), Table.rows_empty, List.nil_append,
      List.mem_singleton] at hmem
    rw [hmem]
    simp [Vanished.job]
  have hclosed := (sweep_closes start hmodules hw hstuck hreap).1 w' hw' (done_of_swept hswept)
  exact ⟨w, w', hw, hid ▸ hstuck, hw', hid ▸ hclosed⟩

end TestingPlatform.Scan
