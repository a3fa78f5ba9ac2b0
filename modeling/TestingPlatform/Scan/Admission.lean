import TestingPlatform.Scan.Checks

/-!
# From an admitted launch to its tasks

The launch schemas of `domains/scans/schemas.py` type `module_configuration` as an object of arbitrary values;
`create_tasks` hands the value under each module key to `dict`. So dispatch succeeds on an admitted job exactly
when `dict` takes each of these values (`Json.Coercible`), whatever the roster is. Where it does not, the
exception rolls the whole delivery back, and so does every later one: the job stays queued without tasks.
-/

namespace TestingPlatform

/-! ### Values that `dict` takes -/

namespace Json

/-- One item of the argument of `dict`: two elements, and a hashable first one. -/
def Pair : Json → Prop
  | .arr [.arr _, _] | .arr [.obj _, _] => False
  | .arr [_, _] | .obj [_, _] => True
  | .str s => s.toList.length = 2
  | _ => False

/-- What `dict(...)` turns into a dictionary. -/
def Coercible : Json → Prop
  | .obj _ => True
  | .arr items => ∀ item ∈ items, item.Pair
  | .str s => s = ""
  | _ => False

theorem key_isSome {k : Json} : k.key.isSome ↔ (∀ items, k ≠ .arr items) ∧ ∀ members, k ≠ .obj members := by
  cases k <;> simp [key]

theorem pairOf_isSome {v : Json} : v.pairOf.isSome ↔ v.Pair := by
  cases v with
  | arr items =>
    match items with
    | [] | [_] | _ :: _ :: _ :: _ => simp [pairOf, Pair]
    | [k, v] =>
      have hpair : (arr [k, v]).pairOf.isSome = k.key.isSome := by simp [pairOf]
      rw [hpair, key_isSome]
      cases k <;> simp [Pair]
  | obj members =>
    match members with
    | [] | [_] | [_, _] | _ :: _ :: _ :: _ => simp [pairOf, Pair]
  | str s =>
    simp only [pairOf, Pair]
    match s.toList with
    | [] | [_] | [_, _] | _ :: _ :: _ :: _ => simp
  | null | bool | num => simp [pairOf, Pair]

end Json

theorem Json.dict_isSome {v : Json} : v.dict.isSome ↔ v.Coercible := by
  cases v with
  | arr items =>
    have hdict : (arr items).dict.isSome = (items.mapM pairOf).isSome := by simp [dict]
    rw [hdict, Fallible.isSome_mapM]
    exact forall₂_congr fun item _ => pairOf_isSome
  | str s =>
    by_cases hs : s = ""
    · subst hs
      simp [dict, Coercible]
    · simp [dict, Coercible, hs]
  | null | bool | num | obj => simp [dict, Coercible]

/-! ### Launches -/

/-- Why `_DomainLaunch` refuses its modules: a length out of bounds, or the text of the validator. -/
inductive LaunchError where
  | tooShort
  | tooLong
  | valueError (text : String)
  deriving DecidableEq, Repr

/-- `_DomainLaunch`, validated. -/
structure DomainLaunch where
  modules : List ScanModule
  moduleConfiguration : List (String × Json) := []
  min_length : modules ≠ []
  max_length : modules.length ≤ 5
  no_file : .file ∉ modules
  distinct : modules.Nodup

/-- The bounds of the field, then `_reject_file_module`. -/
def DomainLaunch.make (modules : List ScanModule) (moduleConfiguration : List (String × Json)) :
    Except LaunchError DomainLaunch :=
  if h₁ : modules ≠ [] then
    if h₂ : modules.length ≤ 5 then
      if h₃ : .file ∉ modules then
        if h₄ : modules.Nodup then .ok ⟨modules, moduleConfiguration, h₁, h₂, h₃, h₄⟩
        else .error (.valueError "Each module appears at most once.")
      else .error (.valueError ("The `file` module analyzes an upload, not a domain. Launch it with " ++
        "a `multipart/form-data` request instead."))
    else .error .tooLong
  else .error .tooShort

/-- `AssetScanLaunch`, `GuestScanLaunch` and `FileScanLaunch`. -/
inductive ScanLaunch where
  | asset (assetId : Uuid) (launch : DomainLaunch)
  | guest (target : String) (launch : DomainLaunch)
  | file (moduleConfiguration : List (String × Json))

namespace ScanLaunch

/-- A file launch carries no modules: the job is always the File module. -/
def modules : ScanLaunch → List ScanModule
  | asset _ launch | guest _ launch => launch.modules
  | file _ => [.file]

def moduleConfiguration : ScanLaunch → List (String × Json)
  | asset _ launch | guest _ launch => launch.moduleConfiguration
  | file moduleConfiguration => moduleConfiguration

/-- The job is one that the launch describes. -/
structure Describes (l : ScanLaunch) (job : ScanJob) : Prop where
  modules : job.modules = l.modules
  moduleConfiguration : job.moduleConfiguration = l.moduleConfiguration
  target : match l with
    | asset id _ => job.assetId = some id ∧ job.targetDomain = none ∧ job.fileUploadId = none
    | guest target _ => job.assetId = none ∧ job.targetDomain = some target ∧ job.fileUploadId = none
    | file _ => job.assetId = none ∧ job.targetDomain = none ∧ job.fileUploadId.isSome

theorem Describes.launched {l : ScanLaunch} {job : ScanJob} (h : l.Describes job) : job.Launched := by
  have hmodules := h.modules
  cases l with
  | asset id launch | guest target launch =>
    obtain ⟨hasset, hdomain, hupload⟩ := h.target
    have hfile : .file ∉ job.modules := by
      rw [hmodules]
      exact launch.no_file
    exact ⟨by rw [hasset, hdomain, hupload]; rfl, by simp [hfile, hupload], fun h => absurd h hfile⟩
  | file moduleConfiguration =>
    obtain ⟨hasset, hdomain, hupload⟩ := h.target
    have hfile : job.modules = [.file] := hmodules
    exact ⟨by rw [hasset, hdomain, hupload]; rfl, by simp [hfile, hupload], fun _ => by simp [hfile]⟩

end ScanLaunch

namespace Scan

open Fallible ReadCommitted

/-! ### Planning -/

/-- What `create_tasks` hands to `dict` for a test of the module. -/
def configurationOf (job : ScanJob) (m : ScanModule) : Json := Json.getD job.moduleConfiguration m.value (.obj [])

theorem exists_spec_iff {modules : List ScanModule} {roster : Roster} {specs : List TaskSpec}
    (hs : planTaskMatrix modules roster = .ok specs) {m : ScanModule} :
    (∃ spec ∈ specs, spec.module = m) ↔ m ∈ modules := by
  have hmodules : specs.map TaskSpec.module = (modules.flatMap testsForModule).map CatalogEntry.module :=
    map_of_mapM_ok hs fun entry spec hplan => (planTask_spec hplan).2.1
  have htests : ∀ m', ∀ entry ∈ testsForModule m', entry.module = m' := fun m' entry he => by
    simpa [testsForModule] using (List.mem_filter.1 he).2
  rw [← List.mem_map, hmodules, List.mem_map]
  constructor
  · rintro ⟨entry, hentry, rfl⟩
    obtain ⟨m', hm', he⟩ := List.mem_flatMap.1 hentry
    rwa [htests m' entry he]
  · intro hm
    obtain ⟨entry, he⟩ := List.exists_mem_of_ne_nil _ (testsForModule_spec m).1
    exact ⟨entry, List.mem_flatMap.2 ⟨m, hm, he⟩, htests m entry he⟩

theorem createTasks_isSome {job : ScanJob} {specs : List TaskSpec} {now : Time} {uuid7 : Nat → Uuid} :
    (createTasks job specs now uuid7).isSome ↔ ∀ spec ∈ specs, (configurationOf job spec.module).Coercible := by
  have hrow : ∀ p : TaskSpec × Nat, (createTask job now p.1 (uuid7 p.2)).isSome ↔
      (configurationOf job p.1.module).Coercible := fun p => by
    rw [createTask, Option.isSome_map, ← Json.dict_isSome]
    rfl
  rw [createTasks, Fallible.isSome_mapM]
  constructor
  · intro h spec hspec
    rw [← List.zipIdx_map_fst 0 specs] at hspec
    obtain ⟨p, hp, rfl⟩ := List.mem_map.1 hspec
    exact (hrow p).1 (h p hp)
  · exact fun h p hp => (hrow p).2 (h p.1 (List.fst_mem_of_mem_zipIdx hp))

theorem created_iff_coercible {job : ScanJob} {roster : Roster} {now : Time} {uuid7 : Nat → Uuid} :
    (∃ specs tasks, planTaskMatrix job.modules roster = .ok specs ∧ createTasks job specs now uuid7 = some tasks) ↔
      ∀ m ∈ job.modules, (configurationOf job m).Coercible := by
  obtain ⟨specs, hs⟩ := exists_planTaskMatrix job.modules roster
  have hmodules : (∀ spec ∈ specs, (configurationOf job spec.module).Coercible) ↔
      ∀ m ∈ job.modules, (configurationOf job m).Coercible := by
    constructor
    · intro h m hm
      obtain ⟨spec, hspec, rfl⟩ := (exists_spec_iff hs).2 hm
      exact h spec hspec
    · exact fun h spec hspec => h _ ((exists_spec_iff hs).1 ⟨spec, hspec, rfl⟩)
  have hcreate : (createTasks job specs now uuid7).isSome ↔ ∀ spec ∈ specs, (configurationOf job spec.module).Coercible :=
    createTasks_isSome
  rw [← hmodules, ← hcreate, Option.isSome_iff_exists]
  constructor
  · rintro ⟨specs', tasks, hs', hc⟩
    rw [hs] at hs'
    cases hs'
    exact ⟨tasks, hc⟩
  · rintro ⟨tasks, hc⟩
    exact ⟨specs, tasks, hs, hc⟩

/-! ### A delivery that cannot plan -/

/-- Nothing that the delivery will commit is about the job. -/
def Proc.Spares (jobId : Uuid) : Proc → Prop
  | .dispatchInsert _ p | .dispatchBlock _ p _ | .dispatchCommit _ p => p.job.id ≠ jobId
  | .close _ job _ => job.id ≠ jobId
  | _ => True

variable {plus : Time → Time}

theorem Commits.quiet {held : Lock → Prop} {d : Db} {p q : Proc} {ws : List Write} {jobId : Uuid}
    (h : Commits plus p ws q) (hA : p.Holds held d) (hs : p.Spares jobId) :
    ∀ u ∈ ws, ¬ u.touches (.job jobId) := by
  have other : ∀ {u : Write}, u.jobId = none → u.inserted = none → ¬ u.touches (.job jobId) := by
    rintro u hjob hins (h | ⟨t, rfl, -⟩)
    · rw [hjob] at h
      cases h
    · cases hins
  intro u hu
  cases h with
  | dispatch c p =>
    simp only [DispatchPlan.writes, List.mem_append, List.mem_map] at hu
    rcases hu with (hu | ⟨t, ht, rfl⟩) | ⟨id, -, rfl⟩
    · rw [(mem_markJobRunning hu).1]
      rintro (he | ⟨t, he, -⟩)
      · exact hs (Option.some.inj he)
      · cases he
    · rintro (he | ⟨t', he, hid⟩)
      · cases he
      · cases he
        exact hs ((hA.1.created_of t ht).1.symm.trans hid)
    · exact other rfl rfl
  | close f job outcome =>
    rw [List.mem_singleton.1 hu]
    rintro (he | ⟨t, he, -⟩)
    · exact hs (Option.some.inj he)
    · cases he
  | finish c run task v => exact other (of_mem_verdictWrites hu).2.2 (of_mem_verdictWrites hu).1
  | reap c live =>
    obtain ⟨id, -, rfl⟩ := List.mem_map.1 hu
    exact other rfl rfl
  | refuse | start | cancel =>
    rw [List.mem_singleton.1 hu]
    exact other rfl rfl

/-- A job whose configuration `dict` does not take, without tasks. -/
structure Stuck (job : ScanJob) (d : Db) : Prop where
  row : d.jobs.find job.id = some job
  no_tasks : d.tasksOf job.id = []
  raises : ¬ ∀ m ∈ job.modules, (configurationOf job m).Coercible

theorem Stuck.of_agree {job : ScanJob} {d d' : Db} (h : Stuck job d) (hagree : (Lock.job job.id).agree d d') :
    Stuck job d' := by
  refine ⟨hagree.1.trans h.row, List.eq_nil_iff_forall_not_mem.2 fun t' ht' => ?_, h.raises⟩
  obtain ⟨t, ht, -⟩ := hagree.2 t' ht'
  rw [h.no_tasks] at ht
  cases ht

/-- No delivery gets further with the job: `dispatch` does not get a plan, `finalize` counts no task. -/
theorem Proc.Spares.next {held : Lock → Prop} {d : Db} {p : Proc} {m : Step} {job : ScanJob} (h : go plus d p = some m)
    (hA : p.Holds held d) (hjob : Stuck job d) (hp : p.Spares job.id) : m.next.Spares job.id := by
  cases go_leads h with
  | ends _ _ hq => rcases hq with rfl | rfl <;> trivial
  | commits _ hcommits => cases hcommits <;> trivial
  | @sent next => cases next <;> trivial
  | planned hplan =>
    have hplanned := planDispatch_job hplan
    intro hid
    rw [hplanned] at hid
    have hrow := hA.1.row
    rw [hid, hjob.row] at hrow
    cases hrow
    rcases planDispatch_cases hplan with ⟨-, roster, specs, created, -, hs, hc, -⟩ | ⟨hne, -⟩
    · exact hjob.raises (created_iff_coercible.1 ⟨specs, created, hs, hc⟩)
    · exact hne hjob.no_tasks
  | inserted | blocks | blocked => exact hp
  | @counted f job' outcome houtcome =>
    intro hid
    have hcounted : deriveJobOutcome [] f.reasonOverride = some outcome := by
      rwa [← hA.2, hid, hjob.no_tasks] at houtcome
    cases hcounted
  | _ => trivial

section Runs
variable {π : Type} [DecidableEq π] {C : Deployment π → π × Choice → Prop} {w₀ w : Deployment π} {i : π} {c : DispatchCall}
  {job : ScanJob} {r : Roster}

/-- However often it is republished, and whatever else runs: the job stays as it was launched. -/
theorem stuck_of_run (h₀ : Start w₀) (hjob : Stuck job w₀.db) (h : (pipeline plus).Run C w₀ w) : Stuck job w.db := by
  have hbase : ∀ {v}, (pipeline plus).Run C w₀ v → Base v := fun hv => base_of_run h₀ hv
  have hentry : ∀ i, (w₀.proc i).Spares job.id := fun i => by
    have he := h₀.entry i
    generalize w₀.proc i = p at he
    cases p <;> trivial
  refine ((h.using hbase).invariant (I := fun v => Stuck job v.db ∧ ∀ i, (v.proc i).Spares job.id) ⟨hjob, hentry⟩ ?_).1
  rintro v i c m ⟨hstuck, hspares⟩ ⟨-, hb⟩ hm
  constructor
  · rw [System.db_after]
    cases hop : m.op with
    | commit ws =>
      have hquiet := (Commits.of_move hm.1 hop).quiet (hb.holds i) (hspares i)
      exact hstuck.of_agree ((rows plus).agree_foldl (k := .job job.id) hquiet v.db)
    | read | lock | unlock | rollback => exact hstuck
  · intro j
    by_cases hij : j = i
    · subst hij
      rw [System.proc_after_self]
      by_cases hc : c = .go
      · subst hc
        exact (hspares j).next hm.1 (hb.holds j) hstuck
      · cases rollback_of_ne_go hm.1 hc
        trivial
    · rw [System.proc_after_of_ne hij]
      exact hspares j

/-! ### A delivery that plans -/

/-- The identifiers that `uuid7` draws in the call are new. -/
structure FreshIds (d : Db) (c : DispatchCall) : Prop where
  injective : Function.Injective c.uuid7
  unused : ∀ n, d.tasks.find (c.uuid7 n) = none

theorem createTasks_ids {specs : List TaskSpec} {now : Time} {uuid7 : Nat → Uuid} {tasks : List ScanTask}
    (h : createTasks job specs now uuid7 = some tasks) :
    tasks.map ScanTask.id = (List.range specs.length).map uuid7 := by
  have hids : tasks.map ScanTask.id = specs.zipIdx.map fun p => uuid7 p.2 :=
    map_of_mapM_some h fun p t ht => (createTask_spec ht).1
  have hindex : (specs.zipIdx.map fun p => uuid7 p.2) = (specs.zipIdx.map Prod.snd).map uuid7 := by
    rw [List.map_map]
    rfl
  rw [hids, hindex, List.zipIdx_map_snd, List.range_eq_range']

/-- By itself a delivery that gets a plan for a queued job without tasks commits it. -/
theorem lone_dispatch {d : Db} {p : DispatchPlan} (hrow : d.jobs.find c.jobId = some job) (hlive : job.status.terminal = false)
    (hplan : planDispatch c job (d.tasksOf job.id) = some p)
    (hids : (p.created.map ScanTask.id).Nodup ∧ ∀ id ∈ p.created.map ScanTask.id, d.tasks.find id = none) :
    (pipeline plus).Lone .go (d, .dispatch c)
      ((p.writes c.now).foldl Db.write d, .publish (p.messages c.now) (.finalize c.finalize)) := by
  have block : ∀ todo, (pipeline plus).Lone .go (d, .dispatchBlock c p todo) (d, .dispatchCommit c p) := by
    intro todo
    induction todo with
    | nil => exact .single ⟨_, rfl, rfl⟩
    | cons id todo ih => exact .head ⟨_, rfl, rfl⟩ ih
  have h₁ : go plus d (.dispatch c) = some { op := .lock [.job c.jobId], next := .dispatchTasks c job } := by
    simp [go, hrow, hlive]
  have h₂ : go plus d (.dispatchTasks c job) = some { op := .read, next := .dispatchInsert c p } := by
    simp [go, hplan]
  have h₃ : go plus d (.dispatchInsert c p) =
      some { op := .lock ((p.created.map ScanTask.id).map .taskKey), next := .dispatchBlock c p p.vanished } := by
    simp only [go]
    rw [if_pos hids]
  have locked : (pipeline plus).Lone .go (d, .dispatch c) (d, .dispatchTasks c job) := .single ⟨_, h₁, rfl⟩
  have planned : (pipeline plus).Lone .go (d, .dispatch c) (d, .dispatchInsert c p) := locked.tail ⟨_, h₂, rfl⟩
  have inserted : (pipeline plus).Lone .go (d, .dispatch c) (d, .dispatchBlock c p p.vanished) :=
    planned.tail ⟨_, h₃, rfl⟩
  exact (inserted.trans (block p.vanished)).tail ⟨_, rfl, rfl⟩

/-- The job has left the queue. -/
def Dequeued (jobId : Uuid) (w : Deployment π) : Prop := ∃ j, w.db.jobs.find jobId = some j ∧ j.status ≠ .queued

theorem dequeued_of_coercible (h₀ : Start w₀) (hjob : w₀.db.jobs.find job.id = some job) (hnone : w₀.db.tasksOf job.id = [])
    (hi : w₀.proc i = .dispatch c) (hid : c.jobId = job.id) (hr : c.roster = some r) (hfresh : FreshIds w₀.db c)
    (hcoercible : ∀ m ∈ job.modules, (configurationOf job m).Coercible) :
    ∃ w, (pipeline plus).Run (fun _ a => a = (i, .go)) w₀ w ∧ Dequeued job.id w := by
  obtain ⟨specs, tasks, hs, hc⟩ : ∃ specs tasks, planTaskMatrix job.modules r = .ok specs ∧
      createTasks job specs c.now c.uuid7 = some tasks := created_iff_coercible.2 hcoercible
  have hqueued : job.status = .queued := h₀.jobs _ _ hjob
  obtain ⟨p, hplan, hpjob, hcreated⟩ : ∃ p, planDispatch c job (w₀.db.tasksOf job.id) = some p ∧ p.job = job ∧
      p.created = tasks := by
    rw [hnone]
    exact ⟨_, by simp only [planDispatch, hr, Option.bind_some, hs, hc, Option.map_some, if_true]; rfl, rfl, rfl⟩
  have hids : (p.created.map ScanTask.id).Nodup ∧ ∀ id ∈ p.created.map ScanTask.id, w₀.db.tasks.find id = none := by
    rw [hcreated, createTasks_ids hc]
    refine ⟨List.nodup_range.map hfresh.injective, fun id hmem => ?_⟩
    obtain ⟨n, -, rfl⟩ := List.mem_map.1 hmem
    exact hfresh.unused n
  have hlone : (pipeline plus).Lone .go (w₀.db, .dispatch c)
      ((p.writes c.now).foldl Db.write w₀.db, .publish (p.messages c.now) (.finalize c.finalize)) :=
    lone_dispatch (hid ▸ hjob) (by rw [hqueued]; rfl) hplan hids
  rw [← hi] at hlone
  obtain ⟨w, hrun, hdb, -⟩ := hlone.run fun k => .inl (h₀.unlocked k)
  refine ⟨w, hrun, ?_⟩
  have hrow : ((p.writes c.now).foldl Db.write w₀.db).jobs.find job.id = _ := Db.find_job_foldl hjob
  change w.db = (p.writes c.now).foldl Db.write w₀.db at hdb
  rw [← hdb] at hrow
  refine ⟨_, hrow, ?_⟩
  have hrest : ∀ u ∈ p.created.map Write.insertTask ++
      p.vanished.map (fun id => Write.taskTerminal id .blocked (some reasonModuleUnavailable) c.now),
      u.jobId ≠ some job.id := fun u hu => by
    rcases List.mem_append.1 hu with hu | hu <;> obtain ⟨_, -, rfl⟩ := List.mem_map.1 hu <;> simp [Write.jobId]
  rw [DispatchPlan.writes, List.append_assoc, List.foldl_append, Db.foldl_onJob_eq hrest, markJobRunning, hpjob,
    if_pos hqueued]
  simp [Write.jobId, Write.onJob]

/-- Dispatch succeeds on an admitted job, and the job can leave the queue at all, exactly when `dict` takes the
configuration of each of its modules. -/
theorem dispatch_succeeds_iff {l : ScanLaunch} (hl : l.Describes job) (h₀ : Start w₀)
    (hjob : w₀.db.jobs.find job.id = some job) (hnone : w₀.db.tasksOf job.id = []) (hi : w₀.proc i = .dispatch c)
    (hid : c.jobId = job.id) (hr : c.roster = some r) (hfresh : FreshIds w₀.db c) :
    ((∀ roster now uuid7, ∃ specs tasks, planTaskMatrix job.modules roster = .ok specs ∧
          createTasks job specs now uuid7 = some tasks) ∧
        (∃ w, (pipeline plus).Run (fun _ a => a = (i, .go)) w₀ w ∧ Dequeued job.id w) ↔
      ∀ m ∈ l.modules, (Json.getD l.moduleConfiguration m.value (.obj [])).Coercible) ∧
    ((∃ w, (pipeline plus).Run (fun _ _ => True) w₀ w ∧ Dequeued job.id w) ↔
      ∀ m ∈ l.modules, (Json.getD l.moduleConfiguration m.value (.obj [])).Coercible) := by
  have hcoercible : (∀ m ∈ l.modules, (Json.getD l.moduleConfiguration m.value (.obj [])).Coercible) ↔
      ∀ m ∈ job.modules, (configurationOf job m).Coercible := by
    rw [← hl.modules, ← hl.moduleConfiguration]
    rfl
  rw [hcoercible]
  constructor
  · constructor
    · rintro ⟨hcreated, -⟩
      exact created_iff_coercible.1 (hcreated r c.now c.uuid7)
    · intro h
      exact ⟨fun roster now uuid7 => created_iff_coercible.2 h, dequeued_of_coercible h₀ hjob hnone hi hid hr hfresh h⟩
  · constructor
    · rintro ⟨w, hrun, j, hj, hdequeued⟩
      by_contra hraises
      have hstuck := stuck_of_run h₀ ⟨hjob, hnone, hraises⟩ hrun
      rw [hstuck.row] at hj
      cases hj
      exact hdequeued (h₀.jobs _ _ hjob)
    · intro h
      obtain ⟨w, hrun, hdequeued⟩ : ∃ w, (pipeline plus).Run (fun _ a => a = (i, .go)) w₀ w ∧ Dequeued job.id w :=
        dequeued_of_coercible h₀ hjob hnone hi hid hr hfresh h
      exact ⟨w, hrun.mono fun _ _ _ => trivial, hdequeued⟩

end Runs

/-! ### A guest launch with an option -/

namespace Configured

/-- A list of pairs, in two spellings. -/
def options : Json := .arr [.arr [.str "max_pages", .num "20"], .obj [("agent", .null), ("scanner", .null)]]

/-- A guest launch of the web module, with the value of its option. -/
def launch (v : Json) : ScanLaunch :=
  .guest "example.lu"
    { modules := [.web], moduleConfiguration := [("web", v)], min_length := by decide, max_length := by decide,
      no_file := by decide, distinct := by decide }

def job (v : Json) : ScanJob :=
  { id := 1, organizationId := none, targetDomain := some "example.lu", modules := [.web],
    moduleConfiguration := [("web", v)], source := .guest, purgeAt := some (Time.days 1) }

def call : DispatchCall := ⟨1, some ⟨[]⟩, 0, fun n => ⟨10 + n⟩, Time.seconds 1⟩

def begin (v : Json) : Deployment Unit where
  db := { jobs := Table.empty.insert (job v), tasks := .empty, results := .empty, findings := [], assets := .empty,
          uploads := .empty }
  owner _ := none
  proc _ := .dispatch call
  trace := []

theorem describes (v : Json) : (launch v).Describes (job v) := ⟨rfl, rfl, rfl, rfl, rfl⟩

theorem find_job (v : Json) : (begin v).db.jobs.find (job v).id = some (job v) :=
  Table.find_insert_self (Table.find_empty _)

theorem start (v : Json) : Start (begin v) where
  entry _ := trivial
  unlocked _ := rfl
  trace := rfl
  jobs id j h := by
    have hm := Table.mem_of_find h
    simp only [begin, Table.rows_insert (Table.find_empty _), Table.rows_empty, List.nil_append, List.mem_singleton] at hm
    rw [hm]; rfl
  tasks id t h := by cases h
  owned id t h := by cases h
  results := rfl
  findings := rfl

theorem freshIds (v : Json) : FreshIds (begin v).db call where
  injective m n h := by
    have hval : 10 + m = 10 + n := congrArg Uuid.val h
    omega
  unused _ := rfl

end Configured

open Configured in
theorem dispatch_succeeds_of_options :
    (∀ roster now uuid7, ∃ specs tasks, planTaskMatrix [.web] roster = .ok specs ∧
        createTasks (job options) specs now uuid7 = some tasks) ∧
      ∃ w, (pipeline id).Run (fun _ a => a = ((), .go)) (begin options) w ∧ Dequeued 1 w := by
  refine (dispatch_succeeds_iff (i := ()) (describes options) (start _) (find_job _) rfl rfl rfl rfl
    (freshIds _)).1.2 fun m hm => ?_
  rw [List.mem_singleton.1 hm]
  exact List.forall_mem_cons.2 ⟨trivial, List.forall_mem_singleton.2 trivial⟩

open Configured in
/-- A guest sends a null for the web module. No roster serves the job, and in no run does it leave the queue. -/
theorem null_configuration_stays_queued : (launch .null).Describes (job .null) ∧ Start (begin .null) ∧
    (∀ roster now uuid7, ¬ ∃ specs tasks, planTaskMatrix (job .null).modules roster = .ok specs ∧
      createTasks (job .null) specs now uuid7 = some tasks) ∧
    ∀ w, (pipeline id).Run (fun _ _ => True) (begin .null) w → ¬ Dequeued 1 w := by
  have hraises : ¬ ∀ m ∈ (job .null).modules, (configurationOf (job .null) m).Coercible := by
    intro h
    exact h .web List.mem_cons_self
  refine ⟨describes _, start _, fun roster now uuid7 h => hraises (created_iff_coercible.1 h), fun w hrun => ?_⟩
  have hstuck := stuck_of_run (start .null) ⟨find_job .null, rfl, hraises⟩ hrun
  rintro ⟨j, hj, hdequeued⟩
  have hrow : w.db.jobs.find 1 = some (job .null) := hstuck.row
  rw [hrow] at hj
  cases hj
  exact hdequeued rfl

end Scan

end TestingPlatform
