import TestingPlatform.Core.Basic

/-!
# The module contract, the roster and the test catalog

What a plug-in declares and returns (`modules/contract.py`), the roster a worker process discovered
(`modules/registry.py`), and the catalog of executable tests (`modules/catalog.py`). The dataclasses
of the contract refuse bad values in `__post_init__`; here those checks are fields, so a descriptor
that could not have been constructed does not exist.
-/

namespace TestingPlatform

/-! ### Declarations -/

/-- `QUEUE_BY_CLASSIFICATION`. -/
def queueByClassification : ScanClassification → String
  | .nonIntrusive => "non-intrusive-scan"
  | .intrusive => "intrusive-scan"
  | .notApplicable => "file-analysis"

structure TestDeclaration where
  testKey : String
  testVersion : String
  /-- `_TEST_KEY_RE`. -/
  key_namespaced : Text.namespaced testKey = true := by decide
  version_nonempty : testVersion ≠ "" := by decide

structure ModuleDescriptor where
  name : ScanModule
  classification : ScanClassification
  queue : String
  engine : String
  engineVersion : String
  tests : List TestDeclaration
  queue_of_classification : queue = queueByClassification classification := by rfl
  engine_nonempty : engine ≠ "" ∧ engineVersion ≠ "" := by decide
  tests_nonempty : tests ≠ [] := by simp
  keys_nodup : (tests.map (·.testKey)).Nodup := by decide
  /-- Every key carries the namespace of the module. -/
  keys_prefixed : ∀ t ∈ tests, (name.value ++ ".").toList <+: t.testKey.toList := by decide

/-! ### Inputs and results of a run -/

/-- An exception out of a module run: what `isinstance` and `str` see of it. -/
inductive PyException where
  | valueError (text : String)
  | runtimeError (text : String)
  | other (text : String)
  deriving DecidableEq, Repr

/-- What one task hands a module: exactly one of the two targets is set. -/
structure ScanInput where
  targetDomain : Option String
  filePath : Option String
  options : List (String × Json)
  one_target : targetDomain.isSome ≠ filePath.isSome
  not_blank : ∀ s ∈ targetDomain.toList ++ filePath.toList, Text.blank s = false

/-- `ScanInput(...)` with its two refusals. The timeout keeps its default, which passes its own check. -/
def ScanInput.make (targetDomain filePath : Option String) (options : List (String × Json)) :
    Except PyException ScanInput :=
  if h₁ : targetDomain.isSome ≠ filePath.isSome then
    if h₂ : ∀ s ∈ targetDomain.toList ++ filePath.toList, Text.blank s = false then
      .ok ⟨targetDomain, filePath, options, h₁, h₂⟩
    else .error (.valueError "The target must be a non-empty string.")
  else .error (.valueError "Exactly one of `target_domain` and `file_path` is set.")

structure NormalizedFinding where
  checkId : String
  severity : FindingSeverity
  title : String
  description : String
  affectedResource : Option String := none
  remediation : Option String := none
  evidence : Option (List (String × Json)) := none
  externalReferences : List String := []
  checkId_nonempty : checkId ≠ "" := by decide
  title_nonempty : title ≠ "" := by decide

structure ModuleResult where
  schemaVersion : String
  rawOutput : List (String × Json)
  summary : List (String × Json) := []
  findings : List NormalizedFinding := []
  grade : Option ScanGrade := none
  schemaVersion_nonempty : schemaVersion ≠ "" := by decide

/-- A text or the JSON of the finding is nothing that the database stores. -/
def NormalizedFinding.unstorable (f : NormalizedFinding) : Bool :=
  Text.hasNul f.checkId || Text.hasNul f.title || Text.hasNul f.description ||
    f.affectedResource.any Text.hasNul || f.remediation.any Text.hasNul ||
    f.evidence.any (fun e => (Json.obj e).unstorable) || (Json.arr (f.externalReferences.map .str)).unstorable

def ModuleResult.unstorable (r : ModuleResult) : Bool :=
  Text.hasNul r.schemaVersion || (Json.obj r.rawOutput).unstorable || (Json.obj r.summary).unstorable ||
    r.findings.any NormalizedFinding.unstorable

/-- How a module's `run` ended; a plug-in that returns no result gives `none`. -/
abbrev RunOutcome := Except PyException (Option ModuleResult)

/-! ### The roster -/

inductive ModuleRegistryError where
  | notImplemented (testKey : String)
  | notDeclared (entryPoint testKey : String)
  | offQueue (testKey declared queue : String)
  /-- Discovery itself failed in this process. -/
  | unusable
  deriving DecidableEq, Repr

structure LoadedModule where
  entryPoint : String
  descriptor : ModuleDescriptor

structure Roster where
  entries : List LoadedModule

namespace Roster

def byTestKey (r : Roster) (testKey : String) : Except ModuleRegistryError LoadedModule :=
  match r.entries.find? fun e => e.descriptor.tests.any fun t => t.testKey == testKey with
  | some entry => .ok entry
  | none => .error (.notImplemented testKey)

def forQueue (r : Roster) (queue : String) : List LoadedModule := r.entries.filter fun entry => entry.descriptor.queue = queue

def queueFor (r : Roster) (testKey : String) : Except ModuleRegistryError String :=
  (r.byTestKey testKey).map fun entry => entry.descriptor.queue

/-- The worker-side gate: a task whose module declares another queue is refused. -/
def require (r : Roster) (testKey queue : String) : Except ModuleRegistryError LoadedModule :=
  match r.byTestKey testKey with
  | .error exc => .error exc
  | .ok entry =>
    let declared := entry.descriptor.queue
    if declared ≠ queue then .error (.offQueue testKey declared queue) else .ok entry

/-- The gate of a worker opens on the queue that the test is routed to, and on no other. -/
theorem require_ok_iff {r : Roster} {testKey queue : String} :
    (∃ entry, r.require testKey queue = .ok entry) ↔ r.queueFor testKey = .ok queue := by
  unfold require queueFor
  cases hr : r.byTestKey testKey with
  | error exc => simp [Except.map]
  | ok entry =>
    by_cases hq : entry.descriptor.queue = queue
    · simp [Except.map, hq]
    · simp [Except.map, hq]

end Roster

/-! ### The catalog -/

structure CatalogEntry where
  testKey : String
  module : ScanModule
  classification : ScanClassification
  deriving DecidableEq, Repr

/-- `EXECUTABLE_TESTS`, in catalog order. -/
def executableTests : List CatalogEntry := [
  ⟨"email.mailvalidator", .email, .nonIntrusive⟩,
  ⟨"web.headers", .web, .nonIntrusive⟩,
  ⟨"web.tls", .web, .nonIntrusive⟩,
  ⟨"web.subdomain_enumeration", .web, .nonIntrusive⟩,
  ⟨"file.hashlookup", .file, .notApplicable⟩,
  ⟨"file.pandora", .file, .notApplicable⟩,
  ⟨"file.metadata", .file, .notApplicable⟩,
  ⟨"file.mime_check", .file, .notApplicable⟩,
  ⟨"pqc.quantumvalidator", .pqc, .nonIntrusive⟩,
  ⟨"dnssec.chainvalidator", .dnssec, .nonIntrusive⟩]

def testsForModule (module : ScanModule) : List CatalogEntry :=
  executableTests.filter fun entry => entry.module = module

/-- Every module fans out into at least one test, and `not_applicable` marks the File tests. -/
theorem testsForModule_spec (m : ScanModule) :
    testsForModule m ≠ [] ∧ ∀ e ∈ testsForModule m, (e.classification = .notApplicable ↔ m = .file) := by
  cases m <;> decide

end TestingPlatform
