import TestingPlatform.Modules.Dnssec
import TestingPlatform.Modules.Execution
import TestingPlatform.Modules.Options
import TestingPlatform.Modules.Pqc

/-!
# The module runners

`modules/dnssec/runner.py` and `modules/pqc/runner.py`: the target and the options of the input become a call of the
engine, whose report is summed up and then normalized. How a run ends is decided by the input, by what the engine
returns, and by whether the report has the shape and the words that the mapping knows.
-/

namespace TestingPlatform

/-- A `run_engine` call, as far as the modules choose it. -/
structure EngineCall where
  entry : String
  target : String
  kwargs : List (String × Json)
  budget : ℚ

/-- A `ModuleResult` as a runner builds it. -/
structure EngineResult (σ : Type) where
  schemaVersion : String
  rawOutput : List (String × Json)
  summary : σ
  findings : List EngineFinding

/-- What the runners differ in. -/
structure Runner (T : PyText) (σ : Type) where
  /-- The text that refuses a file. -/
  refusal : String
  schemaVersion : String
  call : ScanInput → String → Except PyException EngineCall
  summarize : List (String × Json) → Except PyException σ
  normalize : List (String × Json) → Except PyException (List EngineFinding)

def FloatError.exc : FloatError → PyException
  | .typeError => .other "float() argument must be a string or a real number"
  | .valueError => .valueError "could not convert string to float"
  | .overflowError => .other "int too large to convert to float"

section Run
variable {T : PyText} {σ : Type}

/-- The body the runners share; `world` is how the child and the clock behave on a call. -/
def Runner.run (r : Runner T σ) (world : EngineCall → Wire) (input : ScanInput) : Except PyException (EngineResult σ) :=
  match input.targetDomain with
  | none => .error (.valueError r.refusal)
  | some target => do
    let call ← r.call input target
    let outcome ← (runEngine T call.budget (world call)).1
    let report ← outcome.unwrap
    let report ← report.members
    let summary ← r.summarize report
    let findings ← r.normalize report
    return { schemaVersion := r.schemaVersion, rawOutput := report, summary, findings }

end Run

namespace Dnssec

end Dnssec

namespace Pqc

end Pqc

/-! ### Identifiers -/

/-- DNSSEC identifiers are always valid, those of PQC exactly when the names of the failing checks are. -/
theorem check_ids_valid_iff (T : PyText) :
    (∀ report findings, Dnssec.normalize T report = .ok findings →
      ∀ f ∈ findings, ∃ id, validateCheckId T f.checkId ScanModule.dnssec.value = .ok id) ∧
    ∀ report findings, Pqc.normalize T report = .ok findings →
      ((∀ f ∈ findings, ∃ id, validateCheckId T f.checkId ScanModule.pqc.value = .ok id) ↔
        ∀ checks, Pqc.HasChecks report checks → ∀ check ∈ checks, Pqc.failing T check = true →
          dotted (foldedText T check "name" "unknown") = true) :=
  ⟨fun _ _ => Dnssec.checkIds_valid, fun _ _ => Pqc.checkIds_valid_iff⟩

namespace Pqc

def failedCheck (name : String) : List (String × Json) :=
  [("checks", .arr [.obj [("name", .str name), ("status", .str "fail")]])]

end Pqc

/-- The chain of a bogus link, with a leaf that is not secure, and a failed check with a name of one segment. -/
theorem check_ids_valid_iff_of_failedCheck :
    (∀ f ∈ [Dnssec.chainFinding .ascii Dnssec.bogusReport "error" .low,
        Dnssec.delegationFinding .ascii [("zone", .str "lu"), ("status", .str " Bogus")] "bogus" .high,
        Dnssec.leafRecordFinding .ascii (.str "") [("qname", .str "www.example.lu"), ("status", .str "INSECURE")] "insecure"
          .medium],
      ∃ id, validateCheckId .ascii f.checkId "dnssec" = .ok id) ∧
    ((∀ f ∈ [Pqc.readinessFinding .ascii (Pqc.failedCheck "key_exchange") "unsafe" .medium,
        Pqc.checkFailure .ascii (.str "") [("name", .str "key_exchange"), ("status", .str "fail")] "fail" "key_exchange" .medium],
      ∃ id, validateCheckId .ascii f.checkId "pqc" = .ok id) ↔
        ∀ checks, Pqc.HasChecks (Pqc.failedCheck "key_exchange") checks → ∀ check ∈ checks,
          Pqc.failing .ascii check = true → dotted (foldedText .ascii check "name" "unknown") = true) :=
  ⟨(check_ids_valid_iff .ascii).1 Dnssec.bogusReport _ rfl,
    (check_ids_valid_iff .ascii).2 (Pqc.failedCheck "key_exchange") _ rfl⟩

/-- A check whose name has a blank. -/
theorem spaced_name_breaks_check_id :
    ∃ readiness failure text, Pqc.normalize .ascii (Pqc.failedCheck "Key Exchange") = .ok [readiness, failure] ∧
      failure.checkId = "pqc.check.key exchange" ∧
      validateCheckId .ascii failure.checkId ScanModule.pqc.value = .error (.valueError text) :=
  ⟨_, _, _, rfl, rfl, rfl⟩

end TestingPlatform
