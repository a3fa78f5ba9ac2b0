import TestingPlatform.Lib.Fallible
import TestingPlatform.Lib.Lookup
import TestingPlatform.Modules.Registry

/-!
# What a discovered roster answers

Discovery refuses a collision in whatever order the entry points come, so the roster answers for a set of modules: the
first match of a lookup is the only one, and the queues divide the modules among them (`discover_validates`).
-/

namespace TestingPlatform

/-- The entry point loads as a module that declares the test key. -/
def EntryPoint.Declares (p : EntryPoint) (testKey : String) : Prop :=
  ∃ d, p.load = .module d ∧ testKey ∈ d.tests.map TestDeclaration.testKey

/-- What `discover` asks of its entry points. -/
structure Acceptable (entryPoints : List EntryPoint) : Prop where
  loads : ∀ p ∈ entryPoints, ∃ d, p.load = .module d
  names : (entryPoints.map EntryPoint.name).Nodup
  testKeys : entryPoints.Pairwise fun p q => ∀ testKey, p.Declares testKey → ¬ q.Declares testKey

/-- `QUEUE_BY_CLASSIFICATION.values()`. -/
def queues : List String := [ScanClassification.nonIntrusive, .intrusive, .notApplicable].map queueByClassification

theorem queue_mem_queues (d : ModuleDescriptor) : d.queue ∈ queues := by
  rw [d.queue_of_classification]
  cases d.classification <;> decide

/-! ### What is accepted -/

section Accepted
variable {entryPoints : List EntryPoint} {entries : List LoadedModule} {testKey : String}

/-- The module that the entry point loads as. -/
def EntryPoint.Loads (p : EntryPoint) (e : LoadedModule) : Prop := p.name = e.entryPoint ∧ p.load = .module e.descriptor

theorem loadsAs_iff_forall₂ : LoadsAs entryPoints entries ↔ List.Forall₂ EntryPoint.Loads entryPoints entries := by
  rw [LoadsAs, ← List.forall₂_eq_eq_eq, List.forall₂_map_left_iff, List.forall₂_map_right_iff]
  simp only [Prod.mk.injEq]
  rfl

theorem EntryPoint.Loads.declares_iff {p : EntryPoint} {e : LoadedModule} (h : p.Loads e) :
    p.Declares testKey ↔ testKey ∈ e.testKeys := by
  constructor
  · rintro ⟨d, hload, hkey⟩
    obtain rfl := Loaded.module.inj (hload.symm.trans h.2)
    exact hkey
  · intro hkey
    exact ⟨e.descriptor, h.2, hkey⟩

theorem exists_loadsAs (h : ∀ p ∈ entryPoints, ∃ d, p.load = .module d) : ∃ entries, LoadsAs entryPoints entries := by
  induction entryPoints with
  | nil => exact ⟨[], rfl⟩
  | cons p rest ih =>
    obtain ⟨d, hload⟩ := h p List.mem_cons_self
    obtain ⟨entries, hrest⟩ := ih fun q hq => h q (List.mem_cons_of_mem _ hq)
    exact ⟨⟨p.name, d⟩ :: entries, loadsAs_cons.2 ⟨d, entries, hload, rfl, hrest⟩⟩

theorem LoadsAs.names (h : LoadsAs entryPoints entries) : entries.map LoadedModule.entryPoint = entryPoints.map EntryPoint.name :=
  Fallible.map_eq_of_forall₂ (loadsAs_iff_forall₂.1 h) fun _ _ he => he.1.symm

theorem LoadsAs.loads (h : LoadsAs entryPoints entries) : ∀ p ∈ entryPoints, ∃ d, p.load = .module d := by
  intro p hp
  obtain ⟨e, -, he⟩ := Fallible.exists_of_forall₂_left (loadsAs_iff_forall₂.1 h) hp
  exact ⟨e.descriptor, he.2⟩

/-- Test keys are declared apart exactly when the list of all of them has none twice. -/
theorem LoadsAs.testKeys_iff (h : LoadsAs entryPoints entries) :
    (entries.flatMap LoadedModule.testKeys).Nodup ↔
      entryPoints.Pairwise fun p q => ∀ testKey, p.Declares testKey → ¬ q.Declares testKey := by
  rw [List.nodup_flatMap, and_iff_right fun e _ => e.descriptor.keys_nodup]
  induction entryPoints generalizing entries with
  | nil =>
    obtain rfl : entries = [] := List.map_eq_nil_iff.1 h.symm
    simp
  | cons p rest ih =>
    obtain ⟨d, entries, hload, rfl, hrest⟩ := loadsAs_cons.1 h
    have hp : p.Loads ⟨p.name, d⟩ := ⟨rfl, hload⟩
    have hloads := loadsAs_iff_forall₂.1 hrest
    rw [List.pairwise_cons, List.pairwise_cons, ih hrest]
    refine and_congr_left fun _ => ?_
    constructor
    · intro hdisjoint q hq testKey hkey hkey'
      obtain ⟨e, he, hqe⟩ := Fallible.exists_of_forall₂_left hloads hq
      exact hdisjoint e he (hp.declares_iff.1 hkey) (hqe.declares_iff.1 hkey')
    · intro hapart e he testKey hkey hkey'
      obtain ⟨q, hq, hqe⟩ := Fallible.exists_of_forall₂_right hloads he
      exact hapart q hq testKey (hp.declares_iff.2 hkey) (hqe.declares_iff.2 hkey')

theorem Acceptable.perm {entryPoints' : List EntryPoint} (h : Acceptable entryPoints) (hp : entryPoints.Perm entryPoints') :
    Acceptable entryPoints' where
  loads p hmem := h.loads p (hp.mem_iff.2 hmem)
  names := (hp.map _).nodup_iff.1 h.names
  testKeys := hp.pairwise h.testKeys fun hpq testKey hq hp => hpq testKey hp hq

theorem discover_iff_acceptable : (∃ r, discover entryPoints = .ok r) ↔ Acceptable entryPoints := by
  constructor
  · rintro ⟨r, h⟩
    obtain ⟨hloads, hnames, hkeys⟩ := discover_eq_ok.1 h
    exact ⟨hloads.loads, hloads.names ▸ hnames, hloads.testKeys_iff.1 hkeys⟩
  · intro h
    obtain ⟨entries, hloads⟩ := exists_loadsAs h.loads
    exact ⟨⟨entries⟩, discover_eq_ok.2 ⟨hloads, hloads.names ▸ h.names, hloads.testKeys_iff.2 h.testKeys⟩⟩

/-- The modules of the same entry points in another order. -/
theorem entries_perm {entryPoints' : List EntryPoint} {entries' : List LoadedModule} (h : LoadsAs entryPoints entries)
    (h' : LoadsAs entryPoints' entries') (hp : entryPoints.Perm entryPoints') : entries.Perm entries' := by
  have hinj : Function.Injective fun e : LoadedModule => (e.entryPoint, Loaded.module e.descriptor) := by
    rintro ⟨n, d⟩ ⟨n', d'⟩ he
    obtain ⟨hn, hd⟩ := Prod.mk.inj he
    obtain rfl : n = n' := hn
    obtain rfl : d = d' := Loaded.module.inj hd
    rfl
  refine (List.map_perm_map_iff hinj).1 ?_
  rw [← h, ← h']
  exact hp.map _

end Accepted

/-! ### Lookups -/

section Lookups
variable {entryPoints : List EntryPoint} {r r' : Roster} {testKey : String} {e : LoadedModule}

theorem byTestKey_perm (h : r.Distinct) (hp : r.entries.Perm r'.entries) (testKey : String) :
    r'.byTestKey testKey = r.byTestKey testKey := by
  rw [Roster.byTestKey, Roster.byTestKey, Lookup.find?_perm (h.unique testKey) hp]

end Lookups

/-! ### The roster -/

/-- What the roster of these entry points is, and what it answers. -/
structure Discovered (entryPoints : List EntryPoint) (r : Roster) : Prop where
  loaded : List.Forall₂ EntryPoint.Loads entryPoints r.entries
  resolves : ∀ testKey e, r.byTestKey testKey = .ok e ↔ e ∈ r.entries ∧ testKey ∈ e.testKeys
  declared : ∀ e ∈ r.entries, ∀ testKey ∈ e.testKeys, ∀ e' ∈ r.entries, testKey ∈ e'.testKeys → e' = e
  order : ∀ entryPoints', entryPoints'.Perm entryPoints → ∃ r', discover entryPoints' = .ok r' ∧
    ∀ testKey, r'.byTestKey testKey = r.byTestKey testKey ∧ r'.queueFor testKey = r.queueFor testKey ∧
      ∀ queue, r'.require testKey queue = r.require testKey queue
  /-- Every module is listed under one of the queues, once. -/
  queued : (queues.flatMap r.forQueue).Perm r.entries
  own_queue : ∀ queue, ∀ e ∈ r.forQueue queue, queue ∈ queues ∧ ∀ queue', e ∈ r.forQueue queue' → queue' = queue

theorem mem_forQueue {r : Roster} {queue : String} {e : LoadedModule} :
    e ∈ r.forQueue queue ↔ e ∈ r.entries ∧ e.descriptor.queue = queue := by
  rw [Roster.forQueue, List.mem_filter, decide_eq_true_eq]

/-- Discovery accepts what has no collision, and its answers do not depend on the order. -/
theorem discover_validates (entryPoints : List EntryPoint) :
    ((∃ r, discover entryPoints = .ok r) ↔ Acceptable entryPoints) ∧
      ∀ r, discover entryPoints = .ok r → Discovered entryPoints r := by
  refine ⟨discover_iff_acceptable, fun r h => ?_⟩
  obtain ⟨hloads, -, hdistinct⟩ := discover_eq_ok.1 h
  have hresolves : ∀ testKey e, r.byTestKey testKey = .ok e ↔ e ∈ r.entries ∧ testKey ∈ e.testKeys :=
    fun testKey e => byTestKey_eq_ok hdistinct
  constructor
  · exact loadsAs_iff_forall₂.1 hloads
  · exact hresolves
  · intro e he testKey hkey e' he' hkey'
    have hfound := (hresolves testKey e).2 ⟨he, hkey⟩
    rw [(hresolves testKey e').2 ⟨he', hkey'⟩] at hfound
    exact Except.ok.inj hfound
  · intro entryPoints' hp
    obtain ⟨r', h'⟩ := discover_iff_acceptable.2 ((discover_iff_acceptable.1 ⟨r, h⟩).perm hp.symm)
    have hentries := entries_perm hloads (discover_eq_ok.1 h').1 hp.symm
    have hsame : ∀ testKey, r'.byTestKey testKey = r.byTestKey testKey := byTestKey_perm hdistinct hentries
    refine ⟨r', h', fun testKey => ⟨hsame testKey, ?_, fun queue => ?_⟩⟩
    · rw [Roster.queueFor, Roster.queueFor, hsame]
    · rw [Roster.require, Roster.require, hsame]
  · exact Lookup.flatMap_filter_perm (by decide) fun e _ => queue_mem_queues e.descriptor
  · intro queue e he
    obtain ⟨hmem, rfl⟩ := mem_forQueue.1 he
    exact ⟨queue_mem_queues e.descriptor, fun queue' he' => (mem_forQueue.1 he').2.symm⟩

end TestingPlatform
