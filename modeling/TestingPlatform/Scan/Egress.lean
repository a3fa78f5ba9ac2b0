import TestingPlatform.Modules.Registry
import TestingPlatform.Scan.Routing

/-!
# The egress queue of a task

The classification of a task comes from the catalog, its queue from the descriptor of the module that declares
the test; a descriptor ties its queue to its own classification. Nothing compares the two classifications.
`discover` accepts a module whatever it declares about a catalog test, so a task runs on the queue of its own
classification exactly when the installed modules happen to agree with the catalog (`Agrees`).
-/

namespace TestingPlatform.Scan

open Fallible ReadCommitted

theorem queueByClassification_injective : Function.Injective queueByClassification := by
  intro a b h
  cases a <;> cases b <;> first
    | rfl
    | exact absurd h (by decide)

/-- Every installed module declares the classification that the catalog has for its tests of these modules. -/
def Agrees (entryPoints : List EntryPoint) (modules : List ScanModule) : Prop :=
  ∀ p ∈ entryPoints, ∀ d, p.load = .module d → ∀ test ∈ d.tests, ∀ entry ∈ executableTests,
    entry.testKey = test.testKey → entry.module ∈ modules → d.classification = entry.classification

/-- The row is for a test that the catalog has for these modules, with its classification. -/
def Catalogued (modules : List ScanModule) (t : ScanTask) : Prop :=
  ∃ entry ∈ executableTests, entry.module ∈ modules ∧ entry.testKey = t.testKey ∧ entry.classification = t.classification

/-- The message goes to the queue of the row's own classification. -/
def OwnQueue (d : Db) (m : Uuid × String) : Prop :=
  ∃ t, d.tasks.find m.1 = some t ∧ m.2 = queueByClassification t.classification

theorem mem_planned {modules : List ScanModule} {entry : CatalogEntry} :
    entry ∈ modules.flatMap testsForModule ↔ entry ∈ executableTests ∧ entry.module ∈ modules := by
  simp only [List.mem_flatMap, testsForModule, List.mem_filter, decide_eq_true_eq]
  constructor
  · rintro ⟨m, hm, hentry, rfl⟩
    exact ⟨hentry, hm⟩
  · rintro ⟨hentry, hm⟩
    exact ⟨entry.module, hm, hentry, rfl⟩

/-! ### Specs -/

section Specs
variable {entryPoints : List EntryPoint} {r : Roster} {modules : List ScanModule}

theorem exists_entryPoint (hd : discover entryPoints = .ok r) {e : LoadedModule} (he : e ∈ r.entries) :
    ∃ p ∈ entryPoints, p.load = .module e.descriptor := by
  have hmem : (e.entryPoint, Loaded.module e.descriptor) ∈ entryPoints.map fun p => (p.name, p.load) := by
    rw [show (entryPoints.map fun p => (p.name, p.load)) = _ from (discover_eq_ok.1 hd).1]
    exact List.mem_map_of_mem he
  obtain ⟨p, hp, hpe⟩ := List.mem_map.1 hmem
  exact ⟨p, hp, congrArg Prod.snd hpe⟩

theorem exists_loaded (hd : discover entryPoints = .ok r) {p : EntryPoint} (hp : p ∈ entryPoints)
    {d : ModuleDescriptor} (hload : p.load = .module d) : ∃ e ∈ r.entries, e.descriptor = d := by
  have hmem : (p.name, p.load) ∈ r.entries.map fun e => (e.entryPoint, Loaded.module e.descriptor) := by
    rw [← show (entryPoints.map fun p => (p.name, p.load)) = _ from (discover_eq_ok.1 hd).1]
    exact List.mem_map_of_mem hp
  obtain ⟨e, he, hpe⟩ := List.mem_map.1 hmem
  have hmodule : Loaded.module e.descriptor = .module d := (congrArg Prod.snd hpe).trans hload
  exact ⟨e, he, Loaded.module.inj hmodule⟩

/-- The queue a test is routed to is that of its classification where the installed modules agree. -/
theorem queueFor_of_agrees (hd : discover entryPoints = .ok r) (hagrees : Agrees entryPoints modules)
    {entry : CatalogEntry} (hentry : entry ∈ executableTests) (hm : entry.module ∈ modules) {queue : String}
    (hqueue : r.queueFor entry.testKey = .ok queue) : queue = queueByClassification entry.classification := by
  obtain ⟨e, hby, rfl⟩ := exists_of_map_eq_ok hqueue
  unfold Roster.byTestKey at hby
  split at hby
  · next found hfind =>
    cases hby
    have hdeclares := List.find?_some hfind
    obtain ⟨test, htest, hkey⟩ := List.any_eq_true.1 hdeclares
    obtain ⟨p, hp, hload⟩ := exists_entryPoint hd (List.mem_of_find?_eq_some hfind)
    have hsame := hagrees p hp e.descriptor hload test htest entry hentry (beq_iff_eq.1 hkey).symm hm
    rw [e.descriptor.queue_of_classification, hsame]
  · cases hby

theorem specs_own_queue_iff (hd : discover entryPoints = .ok r) :
    (∀ specs, planTaskMatrix modules r = .ok specs → ∀ spec ∈ specs, spec.blockedReason = none →
        spec.queue = some (queueByClassification spec.classification)) ↔ Agrees entryPoints modules := by
  constructor
  · intro hspecs p hp d hload test htest entry hentry hkey hm
    obtain ⟨e, he, rfl⟩ := exists_loaded hd hp hload
    have hby : r.byTestKey entry.testKey = .ok e := hkey ▸ byTestKey_of_discover hd he htest
    obtain ⟨specs, hs⟩ := exists_planTaskMatrix modules r
    obtain ⟨spec, hspec, hplan⟩ := exists_of_mapM_ok_of_mem hs (mem_planned.2 ⟨hentry, hm⟩)
    obtain ⟨hqueue, hopen⟩ := planTask_of_loaded hplan hby
    have hown := hspecs specs hs spec hspec hopen
    rw [hqueue, (planTask_spec hplan).2.2.1, Option.some.injEq, e.descriptor.queue_of_classification] at hown
    exact queueByClassification_injective hown
  · intro hagrees specs hs spec hspec hopen
    obtain ⟨entry, hentry, hplan⟩ := exists_of_mem_mapM_ok hs hspec
    obtain ⟨hentry, hm⟩ := mem_planned.1 hentry
    obtain ⟨hkey, -, hclass, hqueue⟩ := planTask_spec hplan
    obtain ⟨queue, hsome, hqueue⟩ := hqueue hopen
    rw [hkey] at hqueue
    rw [hsome, hclass, queueFor_of_agrees hd hagrees hentry hm hqueue]

end Specs

/-! ### Rows and messages -/

section Runs
variable {π : Type} [DecidableEq π] {plus : Time → Time} {C : Deployment π → π × Choice → Prop} {w₀ w : Deployment π}
  {entryPoints : List EntryPoint} {r : Roster} {modules : List ScanModule}

theorem catalogued_of_plan {c : DispatchCall} {job : ScanJob} {tasks : List ScanTask} {pl : DispatchPlan}
    (hjob : ∀ m ∈ job.modules, m ∈ modules) (h : planDispatch c job tasks = some pl) :
    ∀ t ∈ pl.created, Catalogued modules t := by
  rcases planDispatch_cases h with ⟨-, roster, specs, created, -, hs, hc, rfl⟩ | ⟨-, rfl⟩
  · intro t ht
    obtain ⟨⟨spec, n⟩, hmem, hcreate⟩ := exists_of_mem_mapM_some hc ht
    obtain ⟨entry, hentry, hplan⟩ := exists_of_mem_mapM_ok hs (List.fst_mem_of_mem_zipIdx hmem)
    obtain ⟨hentry, hm⟩ := mem_planned.1 hentry
    obtain ⟨hkey, -, hclass, -⟩ := planTask_spec hplan
    obtain ⟨configuration, -, rfl⟩ := Option.map_eq_some_iff.1 hcreate
    exact ⟨entry, hentry, hjob _ hm, hkey.symm, hclass.symm⟩
  · simp

theorem TaskChange.catalogued {a : Act} {d : Db} {t t' : ScanTask} (h : TaskChange a d t t') (ht : Catalogued modules t) :
    Catalogued modules t' := by
  cases h <;> exact ht

theorem TaskChange.classification_eq {a : Act} {d : Db} {t t' : ScanTask} (h : TaskChange a d t t') :
    t'.classification = t.classification := by
  cases h <;> rfl

theorem OwnQueue.of_effect {a : Act} {d d' : Db} (he : Effect a d d') {x : Uuid × String} (h : OwnQueue d x) :
    OwnQueue d' x := by
  obtain ⟨t, ht, hqueue⟩ := h
  obtain ⟨t', ht', hc⟩ := he.task ht
  exact ⟨t', ht', by rw [hc.classification_eq, hqueue]⟩

/-- Where the modules agree with the catalog, what a plan publishes goes to the queues of its own rows. -/
theorem own_queue_of_plan (hd : discover entryPoints = .ok r) (hagrees : Agrees entryPoints modules) {d : Db}
    {c : DispatchCall} {job : ScanJob} {pl : DispatchPlan} (hr : c.roster = some r)
    (hjob : ∀ m ∈ job.modules, m ∈ modules) (htasks : ∀ id t, d.tasks.find id = some t → Catalogued modules t)
    (h : planDispatch c job (d.tasksOf job.id) = some pl) :
    ∀ x ∈ pl.toPublish, OwnQueue d x ∨ ∃ t ∈ pl.created, t.id = x.1 ∧ x.2 = queueByClassification t.classification := by
  have hown : ∀ {t : ScanTask} {queue : String}, Catalogued modules t → r.queueFor t.testKey = .ok queue →
      queue = queueByClassification t.classification := by
    rintro t queue ⟨entry, hentry, hm, hkey, hclass⟩ hqueue
    rw [← hclass]
    exact queueFor_of_agrees hd hagrees hentry hm (hkey ▸ hqueue)
  intro x hx
  rcases planDispatch_routes hr h x hx with ⟨t, ht, hqueue, -⟩ | ⟨t, ht, hid, hqueue, -⟩
  · exact .inl ⟨t, ht, hown (htasks _ t ht) hqueue⟩
  · exact .inr ⟨t, ht, hid, hown (catalogued_of_plan hjob h t ht) hqueue⟩

theorem sends_own_queue (hd : discover entryPoints = .ok r) (hagrees : Agrees entryPoints modules) (h₀ : Start w₀)
    (hU : FixedRoster (some r) w₀) (hjobs : ∀ id j, w₀.db.jobs.find id = some j → ∀ m ∈ j.modules, m ∈ modules)
    (htasks : ∀ id t, w₀.db.tasks.find id = some t → Catalogued modules t) (h : (pipeline plus).Run C w₀ w) :
    Sends OwnQueue (fun t queue => queue = queueByClassification t.classification) w := by
  have hJ : ∀ u j, (∀ m ∈ j.modules, m ∈ modules) → ∀ m ∈ (Write.onJob u j).modules, m ∈ modules := fun u j hj => by
    cases u <;> exact hj
  have hruns : ∀ {v}, (pipeline plus).Run C w₀ v → (Base v ∧ (∀ i, (v.proc i).Plans v.db) ∧ FixedRoster (some r) v) ∧
      Drafting (Catalogued modules) (fun j => ∀ m ∈ j.modules, m ∈ modules) v ∧
      ∀ id t, v.db.tasks.find id = some t → Catalogued modules t := fun hv =>
    ⟨⟨base_of_run h₀ hv, plans_of_run h₀ hv, hU.of_run hv⟩,
      drafting_of_run hJ (fun c job tasks pl => catalogued_of_plan) h₀ hjobs hv,
      rows_of_run hJ (fun c job tasks pl => catalogued_of_plan) TaskChange.catalogued h₀ hjobs htasks hv⟩
  refine (h.using hruns).invariant (I := Sends OwnQueue fun t queue => queue = queueByClassification t.classification)
    (Sends.start h₀) ?_
  rintro v i c m hS ⟨-, ⟨hb, hP, hU⟩, hw, hrows⟩ hm
  have heff := effect_of_fires (hb.holds i) (hU i) hm
  refine hS.step hb hP (fun x hx => hx.of_effect heff) (fun hfind hqueue => ⟨_, hfind, hqueue⟩) ?_ hm
  intro c job pl hp hmade
  have hholds := hb.holds i
  have hroster := hU i
  rw [hp] at hholds hroster
  exact own_queue_of_plan hd hagrees hroster (hw.job _ _ hholds.1.row) hrows hmade

/-- Specs, rows and messages carry the queue of their classification exactly when the accepted modules agree with the
catalog about the requested ones. -/
theorem own_queue_iff (hd : discover entryPoints = .ok r) :
    ((∀ specs, planTaskMatrix modules r = .ok specs → ∀ spec ∈ specs, spec.blockedReason = none →
          spec.queue = some (queueByClassification spec.classification)) ∧
        ∀ w₀ w : Deployment π, Start w₀ → FixedRoster (some r) w₀ →
          (∀ id j, w₀.db.jobs.find id = some j → ∀ m ∈ j.modules, m ∈ modules) →
          (∀ id t, w₀.db.tasks.find id = some t → Catalogued modules t) → (pipeline plus).Run C w₀ w →
          (∀ id t, w.db.tasks.find id = some t → Catalogued modules t) ∧
            ∀ x ∈ w.trace.filterMap Message.route, OwnQueue w.db x) ↔
      Agrees entryPoints modules := by
  constructor
  · exact fun h => (specs_own_queue_iff hd).1 h.1
  · intro hagrees
    refine ⟨(specs_own_queue_iff hd).2 hagrees, fun w₀ w h₀ hU hjobs htasks hrun => ⟨?_, ?_⟩⟩
    · exact rows_of_run (fun u j hj => by cases u <;> exact hj) (fun c job tasks pl => catalogued_of_plan)
        TaskChange.catalogued h₀ hjobs htasks hrun
    · exact (sends_own_queue hd hagrees h₀ hU hjobs htasks hrun).sent

end Runs

/-! ### Two images -/

namespace Installed

def mailvalidator : EntryPoint := ⟨"mailvalidator", "mailvalidator:module", .module Vanished.mailvalidator.descriptor⟩

/-- A module that crawls, and calls itself intrusive, for a test the catalog has as non-intrusive. -/
def crawler : LoadedModule where
  entryPoint := "crawler"
  descriptor := {
    name := .web, classification := .intrusive, queue := "intrusive-scan", engine := "crawler", engineVersion := "1.0",
    tests := [{ testKey := "web.tls", testVersion := "2" }] }

theorem agrees : Agrees [mailvalidator] [.email] := by
  intro p hp d hload test htest
  rw [List.mem_singleton.1 hp] at hload
  cases hload
  rw [List.mem_singleton.1 htest]
  show ∀ entry ∈ executableTests, entry.testKey = "email.mailvalidator" → entry.module ∈ [ScanModule.email] →
    ScanClassification.nonIntrusive = entry.classification
  decide

end Installed

open Installed in
theorem own_queue_of_mailvalidator : ∃ r, discover [mailvalidator] = .ok r ∧
    ∀ specs, planTaskMatrix [.email] r = .ok specs → ∀ spec ∈ specs, spec.blockedReason = none →
      spec.queue = some (queueByClassification spec.classification) := by
  have hd : discover [mailvalidator] = .ok ⟨[Vanished.mailvalidator]⟩ := rfl
  have hiff := @own_queue_iff Unit _ id (fun _ _ => True) _ _ [.email] hd
  exact ⟨_, hd, (hiff.2 agrees).1⟩

open Installed in
/-- Discovery accepts the crawler, and the plan sends a non-intrusive test to the intrusive queue. -/
theorem crawler_misroutes : discover [⟨"crawler", "crawler:module", .module crawler.descriptor⟩] = .ok ⟨[crawler]⟩ ∧
    ∃ specs, planTaskMatrix [.web] ⟨[crawler]⟩ = .ok specs ∧ ∃ spec ∈ specs, spec.testKey = "web.tls" ∧
      spec.blockedReason = none ∧ spec.queue = some "intrusive-scan" ∧
      queueByClassification spec.classification = "non-intrusive-scan" := by
  refine ⟨rfl, _, rfl, ?_⟩
  refine ⟨_, List.mem_cons_of_mem _ List.mem_cons_self, rfl, rfl, rfl, rfl⟩

end TestingPlatform.Scan
