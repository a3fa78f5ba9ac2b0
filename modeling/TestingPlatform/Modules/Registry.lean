import Mathlib.Data.List.Nodup
import Mathlib.Data.List.Pairwise
import TestingPlatform.Lib.Lookup
import TestingPlatform.Modules.Contract

/-!
# Discovery

`discover` of `modules/registry.py`: the loop over the entry points with the names and the test keys it has
seen. It accepts exactly the lists whose entries all load as modules and share neither a name nor a test key
(`discover_eq_ok`), so in a discovered roster a test key finds the one module that declares it.
-/

namespace TestingPlatform

/-- What `entry_point.load()` gives. -/
inductive Loaded where
  | raises (exc : String)
  /-- An object of the type that lacks a member of the `TestModule` protocol. -/
  | noModule (type : String)
  /-- A module whose descriptor is of the type. -/
  | noDescriptor (type : String)
  | module (descriptor : ModuleDescriptor)

structure EntryPoint where
  name : String
  value : String
  load : Loaded

/-- The refusals of `discover`, each a `ModuleRegistryError`. -/
inductive DiscoveryError where
  | registeredTwice (name : String)
  | failedToLoad (name value exc : String)
  | notTestModule (name type : String)
  | notModuleDescriptor (name type : String)
  | declaredByBoth (testKey claimant name : String)
  deriving DecidableEq, Repr

/-- The loop over the tests of one module: `seen_test_keys` after it. -/
def claimTestKeys (name : String) : List (String × String) → List TestDeclaration →
    Except DiscoveryError (List (String × String))
  | seen, [] => .ok seen
  | seen, test :: tests =>
    match seen.find? fun claim => claim.1 == test.testKey with
    | some claim => .error (.declaredByBoth test.testKey claim.2 name)
    | none => claimTestKeys name (seen ++ [(test.testKey, name)]) tests

/-- The loop over the entry points, after `seenNames` and `seenTestKeys`. -/
def discoverFrom (seenNames : List String) (seenTestKeys : List (String × String)) :
    List EntryPoint → Except DiscoveryError (List LoadedModule)
  | [] => .ok []
  | entryPoint :: found =>
    if entryPoint.name ∈ seenNames then .error (.registeredTwice entryPoint.name)
    else match entryPoint.load with
      | .raises exc => .error (.failedToLoad entryPoint.name entryPoint.value exc)
      | .noModule type => .error (.notTestModule entryPoint.name type)
      | .noDescriptor type => .error (.notModuleDescriptor entryPoint.name type)
      | .module descriptor =>
        match claimTestKeys entryPoint.name seenTestKeys descriptor.tests with
        | .error exc => .error exc
        | .ok seenTestKeys =>
          (discoverFrom (seenNames ++ [entryPoint.name]) seenTestKeys found).map
            ({ entryPoint := entryPoint.name, descriptor } :: ·)

def discover (entryPoints : List EntryPoint) : Except DiscoveryError Roster :=
  (discoverFrom [] [] entryPoints).map Roster.mk

/-! ### What discovery accepts -/

def LoadedModule.testKeys (e : LoadedModule) : List String := e.descriptor.tests.map TestDeclaration.testKey

theorem exists_of_map_eq_ok {ε α β : Type} {x : Except ε α} {f : α → β} {b : β} (h : x.map f = .ok b) :
    ∃ a, x = .ok a ∧ f a = b := by
  cases x with
  | error e => cases h
  | ok a => exact ⟨a, rfl, Except.ok.inj h⟩

theorem nodup_snoc {l : List String} {a : String} : (l ++ [a]).Nodup ↔ l.Nodup ∧ a ∉ l := by
  rw [List.nodup_append_comm, List.singleton_append, List.nodup_cons, and_comm]

theorem claimTestKeys_eq_ok {name : String} {seen seen' : List (String × String)} {tests : List TestDeclaration}
    (hseen : (seen.map Prod.fst).Nodup) :
    claimTestKeys name seen tests = .ok seen' ↔
      (seen.map Prod.fst ++ tests.map TestDeclaration.testKey).Nodup ∧
        seen' = seen ++ tests.map fun test => (test.testKey, name) := by
  induction tests generalizing seen with
  | nil => simp [claimTestKeys, hseen, eq_comm]
  | cons test tests ih =>
    rw [claimTestKeys]
    split
    · next claim hclaim =>
      have hkey : claim.1 = test.testKey := by simpa using List.find?_some hclaim
      have hmem : test.testKey ∈ seen.map Prod.fst := hkey ▸ List.mem_map_of_mem (List.mem_of_find?_eq_some hclaim)
      refine iff_of_false (by simp) ?_
      rintro ⟨hnodup, -⟩
      exact (List.nodup_append.1 hnodup).2.2 _ hmem _ List.mem_cons_self rfl
    · next hnone =>
      have hnew : test.testKey ∉ seen.map Prod.fst := by
        intro hmem
        obtain ⟨claim, hclaim, he⟩ := List.mem_map.1 hmem
        exact List.find?_eq_none.1 hnone claim hclaim (beq_iff_eq.2 he)
      have hseen' : ((seen ++ [(test.testKey, name)]).map Prod.fst).Nodup := by
        rw [List.map_append]
        exact nodup_snoc.2 ⟨hseen, hnew⟩
      rw [ih hseen']
      simp

/-- The entries are the modules that the entry points load as, in order. -/
def LoadsAs (found : List EntryPoint) (entries : List LoadedModule) : Prop :=
  (found.map fun p => (p.name, p.load)) = entries.map fun e => (e.entryPoint, Loaded.module e.descriptor)

theorem loadsAs_cons {p : EntryPoint} {found : List EntryPoint} {entries : List LoadedModule} :
    LoadsAs (p :: found) entries ↔
      ∃ d rest, p.load = .module d ∧ entries = ⟨p.name, d⟩ :: rest ∧ LoadsAs found rest := by
  constructor
  · intro h
    rcases entries with _ | ⟨e, rest⟩
    · cases h
    · rw [LoadsAs, List.map_cons, List.map_cons, List.cons.injEq, Prod.mk.injEq] at h
      exact ⟨e.descriptor, rest, h.1.2, by rw [h.1.1], h.2⟩
  · rintro ⟨d, rest, hload, rfl, hrest⟩
    rw [LoadsAs, List.map_cons, List.map_cons, hload, hrest]

/-- The rest of the loop accepts exactly what loads and has not been seen. -/
theorem discoverFrom_eq_ok {names : List String} {keys : List (String × String)} {found : List EntryPoint}
    {entries : List LoadedModule} (hnames : names.Nodup) (hkeys : (keys.map Prod.fst).Nodup) :
    discoverFrom names keys found = .ok entries ↔ LoadsAs found entries ∧
      (names ++ entries.map LoadedModule.entryPoint).Nodup ∧
      (keys.map Prod.fst ++ entries.flatMap LoadedModule.testKeys).Nodup := by
  induction found generalizing names keys entries with
  | nil =>
    constructor
    · rintro ⟨⟩
      exact ⟨rfl, by simpa using hnames, by simpa using hkeys⟩
    · rintro ⟨hloads, -⟩
      have hnil : entries = [] := List.map_eq_nil_iff.1 hloads.symm
      rw [hnil, discoverFrom]
  | cons p found ih =>
    rw [discoverFrom, loadsAs_cons]
    split
    · next hmem =>
      refine iff_of_false (by simp) ?_
      rintro ⟨⟨d, rest, -, rfl, -⟩, hnodup, -⟩
      exact (List.nodup_append.1 hnodup).2.2 _ hmem _ List.mem_cons_self rfl
    · next hnew =>
      have hfails : (∀ d, p.load ≠ .module d) →
          ¬ ((∃ d rest, p.load = .module d ∧ entries = ⟨p.name, d⟩ :: rest ∧ LoadsAs found rest) ∧
            (names ++ entries.map LoadedModule.entryPoint).Nodup ∧
            (keys.map Prod.fst ++ entries.flatMap LoadedModule.testKeys).Nodup) := by
        rintro hne ⟨⟨d, rest, hmodule, -⟩, -⟩
        exact hne d hmodule
      split
      · next hload => exact iff_of_false (by simp) (hfails (by simp [hload]))
      · next hload => exact iff_of_false (by simp) (hfails (by simp [hload]))
      · next hload => exact iff_of_false (by simp) (hfails (by simp [hload]))
      · next descriptor hload =>
        have hclaims : ∀ seen', claimTestKeys p.name keys descriptor.tests = .ok seen' ↔
            (keys.map Prod.fst ++ descriptor.tests.map TestDeclaration.testKey).Nodup ∧
              seen' = keys ++ descriptor.tests.map fun test => (test.testKey, p.name) :=
          fun seen' => claimTestKeys_eq_ok hkeys
        split
        · next exc hclaim =>
          refine iff_of_false (by simp) ?_
          rintro ⟨⟨d, rest, hmodule, rfl, -⟩, -, hnodup⟩
          rw [hload] at hmodule
          cases hmodule
          rw [List.flatMap_cons, ← List.append_assoc] at hnodup
          have hok := (hclaims _).2 ⟨(List.nodup_append.1 hnodup).1, rfl⟩
          rw [hclaim] at hok
          cases hok
        · next seen' hclaim =>
          obtain ⟨hnodup', rfl⟩ := (hclaims seen').1 hclaim
          have hkeys' : (keys ++ descriptor.tests.map fun test => (test.testKey, p.name)).map Prod.fst =
              keys.map Prod.fst ++ descriptor.tests.map TestDeclaration.testKey := by simp
          have hrest : ∀ rest, discoverFrom (names ++ [p.name])
              (keys ++ descriptor.tests.map fun test => (test.testKey, p.name)) found = .ok rest ↔ _ :=
            fun rest => ih (nodup_snoc.2 ⟨hnames, hnew⟩) (hkeys' ▸ hnodup')
          rw [hkeys'] at hrest
          constructor
          · intro hmap
            obtain ⟨rest, hok, rfl⟩ := exists_of_map_eq_ok hmap
            obtain ⟨hloads, hn, hk⟩ := (hrest rest).1 hok
            refine ⟨⟨descriptor, rest, hload, rfl, hloads⟩, ?_, ?_⟩
            · simpa using hn
            · simpa [LoadedModule.testKeys] using hk
          · rintro ⟨⟨d, rest, hmodule, rfl, hloads⟩, hn, hk⟩
            rw [hload] at hmodule
            cases hmodule
            have hok := (hrest rest).2 ⟨hloads, by simpa using hn, by simpa [LoadedModule.testKeys] using hk⟩
            rw [hok]
            rfl

/-- Discovery accepts exactly the entry points that load as modules with distinct names and distinct test keys. -/
theorem discover_eq_ok {entryPoints : List EntryPoint} {r : Roster} :
    discover entryPoints = .ok r ↔ LoadsAs entryPoints r.entries ∧ (r.entries.map LoadedModule.entryPoint).Nodup ∧
      (r.entries.flatMap LoadedModule.testKeys).Nodup := by
  have hfrom : discoverFrom [] [] entryPoints = .ok r.entries ↔ _ := discoverFrom_eq_ok List.nodup_nil List.nodup_nil
  rw [List.map_nil, List.nil_append, List.nil_append] at hfrom
  rw [← hfrom, discover]
  constructor
  · intro h
    obtain ⟨entries, hok, rfl⟩ := exists_of_map_eq_ok h
    exact hok
  · intro h
    rw [h]
    rfl

/-! ### What a test key finds -/

section Lookups
variable {r : Roster} {testKey : String} {e : LoadedModule}

theorem any_testKey_iff : (e.descriptor.tests.any fun t => t.testKey == testKey) = true ↔ testKey ∈ e.testKeys := by
  simp [LoadedModule.testKeys]

/-- No test key of the roster is declared twice. -/
def Roster.Distinct (r : Roster) : Prop := (r.entries.flatMap LoadedModule.testKeys).Nodup

theorem Roster.Distinct.unique (h : r.Distinct) (testKey : String) :
    Lookup.Unique (fun e => e.descriptor.tests.any fun t => t.testKey == testKey) r.entries := by
  intro e he e' he' hkey hkey'
  rw [any_testKey_iff] at hkey hkey'
  have hsymm : Std.Symm (Function.onFun List.Disjoint LoadedModule.testKeys) := ⟨fun _ _ hd _ h₁ h₂ => hd h₂ h₁⟩
  by_contra hne
  exact (List.nodup_flatMap.1 h).2.forall he he' hne hkey hkey'

theorem byTestKey_eq_ok (h : r.Distinct) : r.byTestKey testKey = .ok e ↔ e ∈ r.entries ∧ testKey ∈ e.testKeys := by
  rw [← any_testKey_iff, ← Lookup.find?_eq_some_iff (h.unique testKey), Roster.byTestKey]
  cases r.entries.find? fun e => e.descriptor.tests.any fun t => t.testKey == testKey with
  | none => simp
  | some e' => simp

end Lookups

/-- In a discovered roster a test key finds the module that declares it. -/
theorem byTestKey_of_discover {entryPoints : List EntryPoint} {r : Roster} (h : discover entryPoints = .ok r)
    {e : LoadedModule} (he : e ∈ r.entries) {test : TestDeclaration} (ht : test ∈ e.descriptor.tests) :
    r.byTestKey test.testKey = .ok e :=
  (byTestKey_eq_ok (discover_eq_ok.1 h).2.2).2 ⟨he, List.mem_map_of_mem ht⟩

end TestingPlatform
