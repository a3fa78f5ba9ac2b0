import TestingPlatform.Scan.Cancellation

/-!
# Who records an outcome, and who finalizes

Whoever makes a task terminal goes on to finalize its job, whether it is the delivery of the task, a sweep or a
dispatch. `Errand` follows one process on that way: once it has recorded an outcome it is bound for a finalize call of the
job, has attempted it, or was killed before it could. `Tally` counts the outcomes of one task: the first one closes it, and
every other overwrites a closed task, which only a stale dispatch does (`kept_of_path`). `Ledger` keeps both along
a path.
-/

namespace TestingPlatform.Scan

open ReadCommitted System

variable {π : Type} [DecidableEq π] {plus : Time → Time}

/-! ### What a process has done -/

/-- The finalize call that the delivery has before it. -/
def Proc.bound : Proc → Option FinalizeCall
  | .publish _ (.finalize f) | .finalize f => some f
  | _ => none

def Proc.BoundFor (p : Proc) (jobId : Uuid) : Prop := ∃ f, p.bound = some f ∧ f.jobId = jobId

/-- The delivery has no finalize call before it, and will never have one. -/
def Proc.past : Proc → Bool
  | .count .. | .close .. | .publish _ .done | .release | .done => true
  | _ => false

/-- The rows on which the statement locks the task again, if it is the one of phase 3. -/
def Proc.recordsOn (d : Db) : Proc → List Db
  | .record .. => [d]
  | _ => []

/-- The finalize call that begins with the statement. -/
def Proc.attempts : Proc → Op Lock Write → List FinalizeCall
  | .finalize f, .lock _ => [f]
  | _, _ => []

/-- The finalize call that is lost with the worker. -/
def Proc.loses (p : Proc) : Op Lock Write → List FinalizeCall
  | .rollback => p.bound.toList
  | _ => []

def committed : Op Lock Write → List (List Write)
  | .commit ws => [ws]
  | _ => []

/-- What the steps of one process have done so far. -/
structure Deeds where
  /-- The rows on which phase 3 has locked the task. -/
  recordedAt : List Db := []
  commits : List (List Write) := []
  /-- The finalize calls that have been attempted. -/
  finalizes : List FinalizeCall := []
  /-- The finalize calls that a kill has prevented. -/
  losses : List FinalizeCall := []

def deedsOf (i : π) (H : Steps π) : Deeds where
  recordedAt := gather (fun v _ => (v.proc i).recordsOn v.db) i H
  commits := gather (fun _ m => committed m.op) i H
  finalizes := gather (fun v m => (v.proc i).attempts m.op) i H
  losses := gather (fun v m => (v.proc i).loses m.op) i H

namespace Deeds
variable {D : Deeds} {d : Db} {p : Proc} {op : Op Lock Write}

def add (D : Deeds) (d : Db) (p : Proc) (op : Op Lock Write) : Deeds where
  recordedAt := D.recordedAt ++ p.recordsOn d
  commits := D.commits ++ committed op
  finalizes := D.finalizes ++ p.attempts op
  losses := D.losses ++ p.loses op

theorem add_quiet (hr : p.recordsOn d = []) (hw : committed op = []) (hf : p.attempts op = []) (hl : p.loses op = []) :
    D.add d p op = D := by
  rw [add, hr, hw, hf, hl, List.append_nil, List.append_nil, List.append_nil, List.append_nil]

/-- The process has gone to finalize the job. -/
def Finalizes (D : Deeds) (jobId : Uuid) : Prop := ∃ f ∈ D.finalizes, f.jobId = jobId

def Loses (D : Deeds) (jobId : Uuid) : Prop := ∃ f ∈ D.losses, f.jobId = jobId

end Deeds

theorem deedsOf_self {i : π} {H : Steps π} {v : Deployment π} {m : Step} :
    deedsOf i (H ++ [⟨v, i, m⟩]) = (deedsOf i H).add v.db (v.proc i) m.op := by
  simp only [deedsOf, gather_self, Deeds.add]

theorem deedsOf_of_ne {i j : π} {H : Steps π} {v : Deployment π} {m : Step} (h : j ≠ i) :
    deedsOf i (H ++ [⟨v, j, m⟩]) = deedsOf i H := by
  simp only [deedsOf, gather_of_ne h]

/-! ### Outcomes of a task -/

def TaskClosed (d : Db) (taskId : Uuid) : Prop := ∃ t, d.tasks.find taskId = some t ∧ t.status.terminal = true

theorem TaskClosed.mono {a : Act} {d d' : Db} {taskId : Uuid} (h : TaskClosed d taskId) (he : Effect a d d') :
    TaskClosed d' taskId := by
  obtain ⟨t, ht, hterm⟩ := h
  obtain ⟨t', ht', hc⟩ := he.task ht
  exact ⟨t', ht', hc.terminal_mono hterm⟩

/-- The task whose outcome `mark_task_terminal` writes. -/
def Write.outcomeOf : Write → Option Uuid
  | .taskTerminal id .. => some id
  | _ => none

/-- The statement records an outcome on the task. -/
def settles (taskId : Uuid) (op : Op Lock Write) : Bool := op.writes.any fun u => u.outcomeOf = some taskId

/-- The steps that have recorded an outcome on the task. -/
def outcomesOf (taskId : Uuid) (H : Steps π) : Steps π := H.filter fun s => settles taskId s.move.op

/-- Without an outcome for it, an open task stays open. -/
theorem settles_of_closed {d : Db} {op : Op Lock Write} {taskId : Uuid} {t : ScanTask} (ht : d.tasks.find taskId = some t)
    (hopen : ¬ TaskClosed d taskId) (h : TaskClosed (op.effect Db.write d) taskId) : settles taskId op = true := by
  by_contra hnone
  rw [settles, List.any_eq_true] at hnone
  push Not at hnone
  obtain ⟨t', ht', hterm⟩ := h
  rw [Op.effect_writes, Db.find_task_foldl ht] at ht'
  have hstill : t.status.terminal = false := by
    by_contra hterm
    exact hopen ⟨t, ht, eq_true_of_ne_false hterm⟩
  have hkept : (op.writes.foldl (fun t u => if u.taskId = some taskId then u.onTask t else t) t).status.terminal = false :=
    Db.foldl_onTask_induction (I := fun t => t.status.terminal = false) hstill fun u hu hid t hlive => by
      cases u with
      | taskTerminal id => exact absurd (decide_eq_true hid) (hnone _ hu)
      | taskRunning => rfl
      | _ => exact hlive
  rw [Option.some.inj ht', hterm] at hkept
  cases hkept

/-- Who records an outcome on a task closes it, and is bound to count its job. A stale dispatch is the only one that does not
look whether it is open. -/
theorem Commits.settled {held : Lock → Prop} {d : Db} {p q : Proc} {ws : List Write} (h : Commits plus p ws q)
    (hA : p.Holds held d) {taskId : Uuid} {u : Write} (hu : u ∈ ws) (hid : u.outcomeOf = some taskId) :
    TaskClosed (ws.foldl Db.write d) taskId ∧
      ∃ t, d.tasks.find taskId = some t ∧ q.BoundFor t.scanJobId ∧ (t.status.terminal = false ∨ taskId ∈ p.vanishing) := by
  cases h with
  | dispatch c p =>
    simp only [DispatchPlan.writes, List.mem_append, List.mem_map] at hu
    rcases hu with (hu | ⟨t, -, rfl⟩) | ⟨k, hk, rfl⟩
    · rw [(mem_markJobRunning hu).1] at hid
      cases hid
    · cases hid
    · cases hid
      obtain ⟨t, ht, hjob, -⟩ := hA.1.vanished_of taskId hk
      refine ⟨⟨_, Db.find_task_foldl ht, ?_⟩, t, ht, ⟨c.finalize, rfl, ?_⟩, .inr hk⟩
      · rw [DispatchPlan.writes, List.foldl_append, Db.foldl_taskTerminal, if_pos hk]
        rfl
      · exact hA.1.job_id.symm.trans hjob.symm
  | refuse c task status reason =>
    rw [List.mem_singleton.1 hu] at hid
    cases hid
    obtain ⟨hclaim, hrefusal⟩ := hA
    refine ⟨⟨_, Db.find_task_foldl hclaim.row, ?_⟩, task, hclaim.row, ⟨_, rfl, rfl⟩, .inl ?_⟩
    · simpa [Write.taskId, Write.onTask] using (refusal_eq_some hrefusal).1
    · rw [hclaim.queued]; rfl
  | start | close | cancel =>
    rw [List.mem_singleton.1 hu] at hid
    cases hid
  | finish c run task v =>
    obtain ⟨hrec, -⟩ := hA
    have htask : task.id = taskId := by
      simp only [Verdict.writes, List.mem_append, List.mem_singleton] at hu
      rcases hu with hu | rfl
      · split at hu
        · cases hu
        · rw [List.mem_cons, List.mem_map] at hu
          rcases hu with rfl | ⟨f, -, rfl⟩ <;> cases hid
      · exact Option.some.inj hid
    obtain ⟨outcome, hv⟩ := hrec.verdict
    have hterm := (verdict_spec c task outcome).1
    rw [← hv] at hterm
    rw [← htask]
    refine ⟨⟨_, Db.find_task_foldl hrec.row, ?_⟩, task, hrec.row, ⟨_, rfl, hrec.job_id.symm⟩, .inl ?_⟩
    · rw [Verdict.writes, List.foldl_append]
      simpa [Write.taskId, Write.onTask] using hterm
    · rw [hrec.running]; rfl
  | reap c live =>
    obtain ⟨k, hk, rfl⟩ := List.mem_map.1 hu
    cases hid
    obtain ⟨-, t, ht, hlive⟩ := hA taskId hk
    simp only [isLiveOf, decide_eq_true_eq] at hlive
    refine ⟨⟨_, Db.find_task_foldl ht, ?_⟩, t, ht, ⟨_, rfl, hlive.1.symm⟩, .inl hlive.2⟩
    rw [Db.foldl_taskTerminal, if_pos hk]
    rfl

theorem not_settles_of_bound {d : Db} {p : Proc} {m : Step} (hm : go plus d p = some m)
    {f : FinalizeCall} (hp : p.bound = some f) {taskId : Uuid} : settles taskId m.op = false := by
  by_contra hs
  obtain ⟨u, hu, -⟩ := List.any_eq_true.1 (eq_true_of_ne_false hs)
  have hcommits := Commits.of_go hm (Op.eq_commit_of_writes (List.ne_nil_of_mem hu))
  generalize m.next = q, m.op.writes = ws at hcommits
  cases hcommits <;> cases hp

theorem settled_of_move {held : Lock → Prop} {d : Db} {p : Proc} {ch : Choice} {m : Step} (hm : move plus d p ch = some m)
    (hA : p.Holds held d) {taskId : Uuid} (h : settles taskId m.op = true) :
    TaskClosed (m.op.effect Db.write d) taskId ∧
      ∃ t, d.tasks.find taskId = some t ∧ m.next.BoundFor t.scanJobId ∧ (t.status.terminal = false ∨ taskId ∈ p.vanishing) := by
  obtain ⟨u, hu, hid⟩ := List.any_eq_true.1 h
  have hop := Op.eq_commit_of_writes (List.ne_nil_of_mem hu)
  rw [Op.effect_writes]
  exact (Commits.of_move hm hop).settled hA hu (of_decide_eq_true hid)

/-- The outcomes of a task: none while it is open, then the one that has closed it, then those that have overwritten it. -/
structure Tally (taskId : Uuid) (H : Steps π) (d : Db) : Prop where
  opened : ¬ TaskClosed d taskId → outcomesOf taskId H = []
  closed : TaskClosed d taskId → ∃ s rest, outcomesOf taskId H = s :: rest ∧ ¬ TaskClosed s.world.db taskId ∧
    ∀ s' ∈ rest, TaskClosed s'.world.db taskId

omit [DecidableEq π] in
theorem Tally.single {taskId : Uuid} {H : Steps π} {d : Db} (h : Tally taskId H d) (hclosed : TaskClosed d taskId) :
    (∃ s, outcomesOf taskId H = [s]) ↔ ∀ s ∈ outcomesOf taskId H, ¬ TaskClosed s.world.db taskId := by
  obtain ⟨s, rest, hlist, hopen, hrest⟩ := h.closed hclosed
  rw [hlist]
  constructor
  · rintro ⟨s', he⟩
    cases he
    simpa using hopen
  · intro hall
    cases rest with
    | nil => exact ⟨s, rfl⟩
    | cons s' rest => exact absurd (hrest s' (by simp)) (hall s' (by simp))

/-! ### The way to the finalize call -/

/-- A process and the finalize call it owes for an outcome it has recorded. -/
structure Errand (jobId : Uuid) (recorded : Prop) (D : Deeds) (p : Proc) : Prop where
  pursued : recorded → p.BoundFor jobId ∨ D.Finalizes jobId ∨ D.Loses jobId
  past : D.finalizes ≠ [] ∨ D.losses ≠ [] → p.past = true
  once : D.finalizes = [] ∨ D.losses = []

theorem bound_of_past {p : Proc} (h : p.past = true) : p.bound = none := by
  cases p with
  | publish _ next => cases next <;> first | rfl | cases h
  | finalize => cases h
  | _ => rfl

theorem past_of_go {d : Db} {p : Proc} {m : Step} (h : go plus d p = some m) (hp : p.past = true) : m.next.past = true := by
  cases p with
  | count f job =>
    cases h
    dsimp only
    split <;> rfl
  | publish messages next =>
    cases next with
    | done => cases messages <;> cases h <;> rfl
    | engine | finalize => cases hp
  | close | release =>
    cases h
    rfl
  | done => cases h
  | _ => cases hp

section Errands
variable {jobId : Uuid} {recorded : Prop} {D : Deeds} {d : Db} {p : Proc}

theorem Errand.none_of_bound (h : Errand jobId recorded D p) {f : FinalizeCall} (hp : p.bound = some f) :
    D.finalizes = [] ∧ D.losses = [] := by
  have hpast : ¬ (D.finalizes ≠ [] ∨ D.losses ≠ []) := fun hd => by
    rw [bound_of_past (h.past hd)] at hp
    cases hp
  push Not at hpast
  exact hpast

theorem Errand.killed (h : Errand jobId recorded D p) : Errand jobId recorded (D.add d p .rollback) .done := by
  have hfinalizes : (D.add d p .rollback).finalizes = D.finalizes := by
    cases p <;> exact List.append_nil _
  have hlosses : (D.add d p .rollback).losses = D.losses ++ p.bound.toList := rfl
  refine ⟨fun hrec => .inr ?_, fun _ => rfl, ?_⟩
  · rcases h.pursued hrec with ⟨f, hf, hjob⟩ | ⟨f, hf, hjob⟩ | ⟨f, hf, hjob⟩
    · exact .inr ⟨f, by rw [hlosses, hf]; simp, hjob⟩
    · exact .inl ⟨f, by rw [hfinalizes]; exact hf, hjob⟩
    · exact .inr ⟨f, by rw [hlosses]; exact List.mem_append_left _ hf, hjob⟩
  · rw [hfinalizes, hlosses]
    cases hp : p.bound with
    | none => simpa using h.once
    | some f => exact .inl (h.none_of_bound hp).1

theorem Errand.go_bound (h : Errand jobId recorded D p) {f : FinalizeCall} (hp : p.bound = some f) {m : Step}
    (hm : go plus d p = some m) : Errand jobId recorded (D.add d p m.op) m.next := by
  obtain ⟨hfinalizes, hlosses⟩ := h.none_of_bound hp
  cases p with
  | publish messages next =>
    cases next with
    | finalize f' =>
      have hbound : m.next.bound = some f' ∧ m.op = .read := by
        cases messages <;> cases hm <;> exact ⟨rfl, rfl⟩
      rw [hbound.2, Deeds.add_quiet rfl rfl rfl rfl]
      refine ⟨fun hrec => (h.pursued hrec).imp_left ?_, by simp [hfinalizes, hlosses], h.once⟩
      rintro ⟨f, hf, hjob⟩
      exact ⟨f, hbound.1.trans hf, hjob⟩
    | engine | done => cases hp
  | finalize f' =>
    cases hm
    have hadd : (D.add d (.finalize f') (.lock [.job f'.jobId])).finalizes = [f'] := by
      rw [Deeds.add, hfinalizes]; rfl
    refine ⟨fun hrec => .inr (.inl ?_), fun _ => ?_, .inr ((List.append_nil _).trans hlosses)⟩
    · rcases h.pursued hrec with ⟨f, hf, hjob⟩ | ⟨f, hf, -⟩ | ⟨f, hf, -⟩
      · cases hf
        exact ⟨f', by rw [hadd]; simp, hjob⟩
      · rw [hfinalizes] at hf; cases hf
      · rw [hlosses] at hf; cases hf
    · dsimp only
      split
      · rfl
      · split <;> rfl
  | _ => cases hp

/-- A statement that is not on the way to a finalize call, unless it records an outcome and sets out on one. -/
theorem Errand.go_free (h : Errand jobId recorded D p) (hp : p.bound = none) {m : Step} (hm : go plus d p = some m)
    {now : Prop} (hnow : now → m.next.BoundFor jobId) : Errand jobId (recorded ∨ now) (D.add d p m.op) m.next := by
  have hfinalizes : (D.add d p m.op).finalizes = D.finalizes := by
    cases p with
    | finalize => cases hp
    | _ => exact List.append_nil _
  have hlosses : (D.add d p m.op).losses = D.losses := by
    have hnone : p.loses m.op = [] := by
      unfold Proc.loses
      split
      · rw [hp]; rfl
      · rfl
    rw [Deeds.add, hnone, List.append_nil]
  constructor
  · rintro (hrec | hrec)
    · rcases h.pursued hrec with ⟨f, hf, -⟩ | ⟨f, hf, hjob⟩ | ⟨f, hf, hjob⟩
      · rw [hp] at hf; cases hf
      · exact .inr (.inl ⟨f, by rw [hfinalizes]; exact hf, hjob⟩)
      · exact .inr (.inr ⟨f, by rw [hlosses]; exact hf, hjob⟩)
    · exact .inl (hnow hrec)
  · rw [hfinalizes, hlosses]
    exact fun hd => past_of_go hm (h.past hd)
  · rw [hfinalizes, hlosses]
    exact h.once

end Errands

/-! ### Along a path -/

/-- What a path tells about one task: its outcomes, and the errands of those who have recorded them. -/
structure Ledger (taskId jobId : Uuid) (H : Steps π) (v : Deployment π) : Prop where
  row : ∃ t, v.db.tasks.find taskId = some t ∧ t.scanJobId = jobId
  tally : Tally taskId H v.db
  errand : ∀ j, Errand jobId (∃ s ∈ outcomesOf taskId H, s.proc = j) (deedsOf j H) (v.proc j)

section Paths
variable {C : Deployment π → π × Choice → Prop} {w v : Deployment π} {H : Steps π} {taskId jobId : Uuid}

omit [DecidableEq π] in
theorem outcomesOf_append {i : π} {m : Step} :
    outcomesOf taskId (H ++ [⟨v, i, m⟩]) = outcomesOf taskId H ++ if settles taskId m.op then [⟨v, i, m⟩] else [] := by
  rw [outcomesOf, outcomesOf, List.filter_append, List.filter_singleton, Bool.cond_eq_ite]

theorem Tally.step (h : Tally taskId H v.db) {t : ScanTask} (ht : v.db.tasks.find taskId = some t) (hb : Base v) {i : π}
    {ch : Choice} {m : Step} (hm : (pipeline plus).Fires v i ch m) :
    Tally taskId (H ++ [⟨v, i, m⟩]) ((pipeline plus).after v i m).db := by
  obtain ⟨roster, hU⟩ := (v.proc i).exists_uses
  have heff := effect_of_fires (hb.holds i) hU hm
  constructor
  · intro hopen
    have hquiet : ¬ settles taskId m.op = true := fun hs => hopen (settled_of_move hm.1 (hb.holds i) hs).1
    rw [outcomesOf_append, if_neg hquiet, List.append_nil]
    exact h.opened fun hclosed => hopen (hclosed.mono heff)
  · intro hclosed
    by_cases hbefore : TaskClosed v.db taskId
    · obtain ⟨s, rest, hlist, hopen, hrest⟩ := h.closed hbefore
      refine ⟨s, rest ++ if settles taskId m.op then [⟨v, i, m⟩] else [], ?_, hopen, fun s' hs' => ?_⟩
      · rw [outcomesOf_append, hlist, List.cons_append]
      · rcases List.mem_append.1 hs' with hs' | hs'
        · exact hrest s' hs'
        · split at hs'
          · rw [List.mem_singleton.1 hs']
            exact hbefore
          · cases hs'
    · refine ⟨⟨v, i, m⟩, [], ?_, hbefore, by simp⟩
      rw [outcomesOf_append, h.opened hbefore, if_pos (settles_of_closed ht hbefore hclosed), List.nil_append]

theorem Ledger.step (h : Ledger taskId jobId H v) (hb : Base v) {i : π} {ch : Choice} {m : Step}
    (hm : (pipeline plus).Fires v i ch m) :
    Ledger taskId jobId (H ++ [⟨v, i, m⟩]) ((pipeline plus).after v i m) := by
  obtain ⟨t, ht, hjob⟩ := h.row
  obtain ⟨roster, hU⟩ := (v.proc i).exists_uses
  obtain ⟨t', ht', hc⟩ := (effect_of_fires (hb.holds i) hU hm).task ht
  refine ⟨⟨t', ht', hc.scanJobId_eq.trans hjob⟩, h.tally.step ht hb hm, fun j => ?_⟩
  have hrecorded : (∃ s ∈ outcomesOf taskId (H ++ [⟨v, i, m⟩]), s.proc = j) ↔
      (∃ s ∈ outcomesOf taskId H, s.proc = j) ∨ settles taskId m.op = true ∧ i = j := by
    rw [outcomesOf_append]
    split <;> simp_all [or_and_right, exists_or]
  simp only [hrecorded]
  by_cases hj : i = j
  · subst hj
    rw [deedsOf_self, System.proc_after_self]
    have hbound : settles taskId m.op = true ∧ i = i → m.next.BoundFor jobId := by
      rintro ⟨hs, -⟩
      obtain ⟨-, t₂, ht₂, hbound, -⟩ := settled_of_move hm.1 (hb.holds i) hs
      rw [ht] at ht₂
      cases ht₂
      exact hjob ▸ hbound
    by_cases hgo : ch = .go
    · subst hgo
      cases hp : (v.proc i).bound with
      | none => exact (h.errand i).go_free hp hm.1 hbound
      | some f =>
        have hmove : go plus v.db (v.proc i) = some m := hm.1
        have hquiet : settles taskId m.op = false := not_settles_of_bound hmove hp
        simpa [hquiet] using (h.errand i).go_bound hp hm.1
    · cases rollback_of_ne_go hm.1 hgo
      simpa [settles, Op.writes] using (h.errand i).killed
  · simpa [hj, deedsOf_of_ne hj, System.proc_after_of_ne (Ne.symm hj)] using h.errand j

/-- Where dispatches block open tasks only, no outcome overwrites another. -/
theorem kept_of_path {w₀ : Deployment π} (h₀ : Start w₀) (h : (pipeline plus).Run C w₀ w)
    (h' : (pipeline plus).Path VanishesOpen w H v) : ∀ s ∈ outcomesOf taskId H, ¬ TaskClosed s.world.db taskId := by
  have hb := base_of_run h₀ h
  refine h'.invariant (I := fun H _ => ∀ s ∈ outcomesOf taskId H, ¬ TaskClosed s.world.db taskId) (by simp [outcomesOf])
    fun H v i ch m hrun hkept hvanishes hm s hs => ?_
  rw [outcomesOf_append] at hs
  rcases List.mem_append.1 hs with hs | hs
  · exact hkept s hs
  split at hs
  next hsettles =>
    rw [List.mem_singleton.1 hs]
    rintro ⟨t', ht', hterm⟩
    obtain ⟨-, t, ht, -, hlive | hvanishing⟩ := settled_of_move hm.1 ((hb.of_run hrun).holds i) hsettles
    · rw [ht] at ht'
      cases ht'
      rw [hlive] at hterm
      cases hterm
    · by_cases hgo : ch = .go
      · rw [hvanishes hgo taskId hvanishing t' ht'] at hterm
        cases hterm
      · cases rollback_of_ne_go hm.1 hgo
        cases hsettles
  · cases hs

end Paths

end TestingPlatform.Scan
