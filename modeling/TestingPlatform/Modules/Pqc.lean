import TestingPlatform.Modules.Vocabulary

/-!
# The mapping of quantumvalidator reports

`modules/pqc/mapping.py`: a report becomes a readiness finding, one finding for each failed or errored check, and a
summary. Findings and summary fold the same texts separately. They agree on every report but those whose verdict is a
check status that the table takes for harmless (`same_story_iff`); the name of a check is not validated on its way
into the identifier (`check_ids_valid_iff`).
-/

namespace TestingPlatform.Pqc

def checkReadiness := "pqc.readiness"
def checkPrefix := "pqc.check"
def schemaVersion := "pqc/1.0"

def readyTitle := "Key exchange is post-quantum ready"
def notReadyTitle := "Key exchange is not post-quantum ready"

/-- `_TITLE_BY_VERDICT`, with the title of `unsafe` as the default. -/
def titleByVerdict (verdict : String) : String := if verdict = "safe" then readyTitle else notReadyTitle

section Mapping
variable (T : PyText)

def mapStatusSeverity (status : String) : Except PyException FindingSeverity :=
  (quantumvalidatorStatus T).mapSeverity status

theorem titleByVerdict_nonempty (verdict : String) : titleByVerdict verdict ≠ "" := by
  unfold titleByVerdict
  split <;> decide

def readinessFinding (report : List (String × Json)) (verdict : String) (severity : FindingSeverity) : EngineFinding :=
  let target := Json.getD report "target" (.str "")
  { checkId := checkReadiness, severity, title := titleByVerdict verdict,
    description := "quantumvalidator probed " ++ T.repr target ++ " and reported the key exchange " ++
      T.reprStr verdict ++ " against CNSA 2.0 / BSI TR-02102 post-quantum migration targets.",
    affectedResource := orNone target,
    evidence := evidenceOf report ["verdict", "tls_version", "negotiated_group", "detected_starttls", "port"],
    checkId_nonempty := by decide, title_nonempty := titleByVerdict_nonempty verdict }

/-- `reason or default`. -/
def descriptionOr (reason default : String) : String := if reason = "" then default else reason

def checkFailure (target : Json) (check : List (String × Json)) (status name : String) (severity : FindingSeverity) :
    EngineFinding where
  checkId := checkPrefix ++ "." ++ name
  severity
  title := "PQC check " ++ (name ++ if status = "fail" then " failed" else " could not run")
  description := descriptionOr (T.str (Json.getD check "reason" (.str "")))
    ("The " ++ name ++ " check reported " ++ T.reprStr status ++ ".")
  affectedResource := orNone target
  evidence := evidenceOf check ["value", "reason", "standard"]
  checkId_nonempty := append_nonempty (append_nonempty (by decide))
  title_nonempty := append_nonempty (by decide)

/-- One turn of the loop over the checks. -/
def checkFinding (target : Json) (check : Json) : Except PyException (Option EngineFinding) := do
  let check ← check.members
  let status := foldedText T check "status" "pass"
  if status ≠ "fail" ∧ status ≠ "error" then return none
  let name := foldedText T check "name" "unknown"
  let severity ← mapStatusSeverity T status
  return some (checkFailure T target check status name severity)

def normalize (report : List (String × Json)) : Except PyException (List EngineFinding) := do
  let verdict := foldedText T report "verdict" "unsafe"
  let severity ← mapStatusSeverity T verdict
  let checks ← (Json.getD report "checks" (.arr [])).iter
  let found ← checks.mapM (checkFinding T (Json.getD report "target" (.str "")))
  return readinessFinding T report verdict severity :: found.reduceOption

structure Summary where
  verdict : String
  safe : Bool
  tlsVersion : Json
  negotiatedGroup : Json
  detectedStarttls : Json
  port : Json
  failedChecks : ℕ
  errorChecks : ℕ

def summarize (report : List (String × Json)) : Except PyException Summary := do
  let checks := Json.getD report "checks" (.arr [])
  let verdict := foldedText T report "verdict" ""
  let failedChecks ← countStatus T checks "fail"
  let errorChecks ← countStatus T checks "error"
  return {
    verdict, safe := verdict = "safe", tlsVersion := Json.getD report "tls_version" .null,
    negotiatedGroup := Json.getD report "negotiated_group" .null,
    detectedStarttls := Json.getD report "detected_starttls" .null, port := Json.getD report "port" .null,
    failedChecks, errorChecks }

end Mapping

/-! ### What is accepted -/

section Accepted
variable {T : PyText} {report : List (String × Json)} {findings : List EngineFinding}

theorem mapStatusSeverity_eq_ok {status : String} {severity : FindingSeverity} :
    mapStatusSeverity T status = .ok severity ↔ (T.fold status, severity) ∈ (quantumvalidatorStatus T).table :=
  (quantumvalidatorStatus T).mapSeverity_eq_ok

/-- The checks of the report are these objects. -/
def HasChecks (report : List (String × Json)) (checks : List (List (String × Json))) : Prop :=
  (Json.getD report "checks" (.arr [])).iter = .ok (checks.map .obj)

/-- The finding of a failed or errored check. -/
def failureOf (T : PyText) (target : Json) (check : List (String × Json)) : Option EngineFinding :=
  let name := foldedText T check "name" "unknown"
  if foldedText T check "status" "pass" = "fail" then some (checkFailure T target check "fail" name .medium)
  else if foldedText T check "status" "pass" = "error" then some (checkFailure T target check "error" name .low)
  else none

theorem checkFinding_obj (target : Json) (check : List (String × Json)) :
    checkFinding T target (.obj check) = .ok (failureOf T target check) := by
  have hfail : mapStatusSeverity T "fail" = .ok .medium := by
    rw [mapStatusSeverity_eq_ok, T.fold_plain (by decide)]
    simp [quantumvalidatorStatus]
  have herror : mapStatusSeverity T "error" = .ok .low := by
    rw [mapStatusSeverity_eq_ok, T.fold_plain (by decide)]
    simp [quantumvalidatorStatus]
  show (if _ then _ else _) = _
  unfold failureOf
  by_cases hf : foldedText T check "status" "pass" = "fail"
  · simp only [hf, hfail]
    rfl
  · by_cases he : foldedText T check "status" "pass" = "error"
    · simp only [he, herror]
      rfl
    · simp only [hf, he, ne_eq, not_false_eq_true, and_self, if_true, if_false]
      rfl

theorem checkFinding_eq_ok {target check : Json} {o : Option EngineFinding} (h : checkFinding T target check = .ok o) :
    ∃ members, check = .obj members := by
  rw [checkFinding, Fallible.bind_eq_ok] at h
  obtain ⟨members, hm, -⟩ := h
  exact ⟨members, Json.members_eq_ok.1 hm⟩

theorem mapM_checkFinding (target : Json) (checks : List (List (String × Json))) :
    (checks.map .obj).mapM (checkFinding T target) = .ok (checks.map (failureOf T target)) := by
  rw [List.mapM_map]
  exact Fallible.mapM_eq_map fun check _ => checkFinding_obj target check

theorem reduceOption_map_eq_filterMap {α β : Type} (f : α → Option β) (l : List α) :
    (l.map f).reduceOption = l.filterMap f := by
  show (l.map f).filterMap id = l.filterMap f
  rw [List.filterMap_map, Function.id_comp]

/-- A report is accepted when its verdict is in the vocabulary and its checks are objects. -/
theorem normalize_eq_ok :
    normalize T report = .ok findings ↔
      ∃ severity checks, mapStatusSeverity T (foldedText T report "verdict" "unsafe") = .ok severity ∧
        HasChecks report checks ∧
        findings = readinessFinding T report (foldedText T report "verdict" "unsafe") severity ::
          checks.filterMap (failureOf T (Json.getD report "target" (.str ""))) := by
  simp only [normalize, Fallible.bind_eq_ok]
  constructor
  · rintro ⟨severity, hseverity, items, hitems, found, hfound, h⟩
    have hobj : ∀ v ∈ items, ∃ members, v = .obj members := by
      intro v hv
      obtain ⟨o, -, ho⟩ := Fallible.exists_of_mapM_ok_of_mem hfound hv
      exact checkFinding_eq_ok ho
    obtain ⟨checks, rfl⟩ := Json.exists_map_obj hobj
    rw [mapM_checkFinding] at hfound
    obtain rfl := Except.ok.inj hfound
    refine ⟨severity, checks, hseverity, hitems, ?_⟩
    rw [← Except.ok.inj h, reduceOption_map_eq_filterMap]
  · rintro ⟨severity, checks, hseverity, hchecks, rfl⟩
    refine ⟨severity, hseverity, _, hchecks, _, mapM_checkFinding _ checks, ?_⟩
    rw [reduceOption_map_eq_filterMap]
    rfl

theorem summarize_eq {checks : List (List (String × Json))} (h : HasChecks report checks) :
    ∃ summary, summarize T report = .ok summary ∧ (summary.safe = true ↔ foldedText T report "verdict" "" = "safe") ∧
      summary.failedChecks = (checks.countP fun check => foldedText T check "status" "" = "fail") ∧
      summary.errorChecks = checks.countP fun check => foldedText T check "status" "" = "error" := by
  simp only [summarize, countStatus_eq h]
  exact ⟨_, rfl, by simp, rfl, rfl⟩

end Accepted

/-! ### One story -/

section Story
variable {T : PyText} {report : List (String × Json)} {findings : List EngineFinding}

def failing (T : PyText) (check : List (String × Json)) : Bool :=
  foldedText T check "status" "pass" = "fail" || foldedText T check "status" "pass" = "error"

/-- The finding is the one of the check. -/
structure Reports (T : PyText) (check : List (String × Json)) (f : EngineFinding) : Prop where
  checkId : f.checkId = checkPrefix ++ "." ++ foldedText T check "name" "unknown"
  failed : f.severity = .medium ↔ foldedText T check "status" "pass" = "fail"
  errored : f.severity = .low ↔ foldedText T check "status" "pass" = "error"

/-- The findings, the first of them apart, and the summary say the same. -/
structure SameStory (T : PyText) (report : List (String × Json)) (readiness : EngineFinding) (rest : List EngineFinding)
    (summary : Summary) : Prop where
  safe_iff_info : summary.safe = true ↔ readiness.severity = .info
  info_iff_title : readiness.severity = .info ↔ readiness.title = readyTitle
  failed : (rest.countP fun f => f.severity = .medium) = summary.failedChecks
  errored : (rest.countP fun f => f.severity = .low) = summary.errorChecks
  one_each : ∃ checks, HasChecks report checks ∧ List.Forall₂ (Reports T) (checks.filter (failing T)) rest

theorem failureOf_reports (target : Json) (check : List (String × Json)) :
    match failureOf T target check with
    | some f => failing T check = true ∧ Reports T check f
    | none => failing T check = false := by
  have hne : ("error" : String) ≠ "fail" := by decide
  unfold failureOf failing
  by_cases hf : foldedText T check "status" "pass" = "fail"
  · simp only [hf, if_true]
    exact ⟨rfl, rfl, iff_of_true rfl hf, iff_of_false (by simp [checkFailure]) (by rw [hf]; exact hne.symm)⟩
  · by_cases he : foldedText T check "status" "pass" = "error"
    · simp only [he, hne, if_true, if_false]
      exact ⟨rfl, rfl, iff_of_false (by simp [checkFailure]) hf, iff_of_true rfl he⟩
    · simp [hf, he]

theorem failures_reports (target : Json) (checks : List (List (String × Json))) :
    List.Forall₂ (Reports T) (checks.filter (failing T)) (checks.filterMap (failureOf T target)) := by
  induction checks with
  | nil => exact .nil
  | cons check checks ih =>
    have hcheck := failureOf_reports (T := T) target check
    rw [List.filterMap_cons, List.filter_cons]
    cases hf : failureOf T target check with
    | none =>
      rw [hf] at hcheck
      simp only [hcheck]
      exact ih
    | some f =>
      rw [hf] at hcheck
      simp only [hcheck.1, if_true]
      exact .cons hcheck.2 ih

theorem countP_of_reports {checks : List (List (String × Json))} {rest : List EngineFinding} {severity : FindingSeverity}
    {status : String} (h : List.Forall₂ (Reports T) (checks.filter (failing T)) rest)
    (hseverity : ∀ check f, Reports T check f → (f.severity = severity ↔ foldedText T check "status" "pass" = status))
    (hstatus : status = "fail" ∨ status = "error") :
    (rest.countP fun f => f.severity = severity) = checks.countP fun check => foldedText T check "status" "" = status := by
  have hdefault : ∀ check, foldedText T check "status" "pass" = status ↔ foldedText T check "status" "" = status := by
    intro check
    refine foldedText_eq_iff T ?_ ?_ <;> rw [T.fold_plain (by decide)] <;> rcases hstatus with rfl | rfl <;> decide
  refine Fallible.countP_of_forall₂_filter h (fun check f hr => ?_) fun check hcheck => ?_
  · exact decide_eq_decide.2 ((hseverity check f hr).trans (hdefault check))
  · rw [failing, (hdefault check).2 (of_decide_eq_true hcheck)]
    rcases hstatus with rfl | rfl <;> decide

theorem severity_of_verdict {verdict : String} {severity : FindingSeverity} (hfold : T.fold verdict = verdict)
    (h : mapStatusSeverity T verdict = .ok severity) :
    (verdict = "pass" ∨ verdict = "info") ∧ severity = .info ∨ verdict = "safe" ∧ severity = .info ∨
      verdict ≠ "pass" ∧ verdict ≠ "info" ∧ verdict ≠ "safe" ∧ severity ≠ .info := by
  rw [mapStatusSeverity_eq_ok, hfold] at h
  simp only [quantumvalidatorStatus, List.mem_cons, Prod.mk.injEq, List.not_mem_nil, or_false] at h
  rcases h with ⟨rfl, rfl⟩ | ⟨rfl, rfl⟩ | ⟨rfl, rfl⟩ | ⟨rfl, rfl⟩ | ⟨rfl, rfl⟩ | ⟨rfl, rfl⟩ <;> decide

/-- Findings and summary say the same exactly when the verdict is not one of the harmless check statuses. -/
theorem same_story_iff (h : normalize T report = .ok findings) :
    ∃ readiness rest summary, findings = readiness :: rest ∧ readiness.checkId = checkReadiness ∧
      summarize T report = .ok summary ∧
      (SameStory T report readiness rest summary ↔
        foldedText T report "verdict" "unsafe" ≠ "pass" ∧ foldedText T report "verdict" "unsafe" ≠ "info") := by
  obtain ⟨severity, checks, hseverity, hchecks, rfl⟩ := normalize_eq_ok.1 h
  obtain ⟨summary, hsummary, hsafe, hfailed, herrored⟩ := summarize_eq (T := T) hchecks
  refine ⟨_, _, summary, rfl, rfl, hsummary, ?_⟩
  have heach := failures_reports (T := T) (Json.getD report "target" (.str "")) checks
  have hdefault : foldedText T report "verdict" "" = "safe" ↔ foldedText T report "verdict" "unsafe" = "safe" := by
    refine foldedText_eq_iff T ?_ ?_ <;> rw [T.fold_plain (by decide)] <;> decide
  rw [hdefault] at hsafe
  have hverdict := severity_of_verdict (foldedText_fold ..) hseverity
  have htitle : titleByVerdict (foldedText T report "verdict" "unsafe") = readyTitle ↔
      foldedText T report "verdict" "unsafe" = "safe" := by
    unfold titleByVerdict
    split
    · next hs => exact iff_of_true rfl hs
    · next hs => exact iff_of_false (by decide) hs
  constructor
  · intro hstory
    rcases hverdict with ⟨hv, hinfo⟩ | ⟨hv, -⟩ | ⟨hpass, hinfo, -⟩
    · have hsafe' := hsafe.1 (hstory.safe_iff_info.2 hinfo)
      rw [hsafe'] at hv
      exact absurd hv (by decide)
    · rw [hv]
      decide
    · exact ⟨hpass, hinfo⟩
  · rintro ⟨hpass, hinfo⟩
    have hsevere : severity = .info ↔ foldedText T report "verdict" "unsafe" = "safe" := by
      rcases hverdict with ⟨hv, -⟩ | ⟨hv, hs⟩ | ⟨-, -, hv, hs⟩
      · rcases hv with hv | hv
        · exact absurd hv hpass
        · exact absurd hv hinfo
      · exact iff_of_true hs hv
      · exact iff_of_false hs hv
    constructor
    · exact hsafe.trans hsevere.symm
    · exact hsevere.trans htitle.symm
    · rw [hfailed]
      exact countP_of_reports heach (fun _ _ hr => hr.failed) (.inl rfl)
    · rw [herrored]
      exact countP_of_reports heach (fun _ _ hr => hr.errored) (.inr rfl)
    · exact ⟨checks, hchecks, heach⟩

def kexFailed : List (String × Json) := [("name", .str "kex_group"), ("status", .str " FAIL")]
def tlsErrored : List (String × Json) := [("name", .str "tls_version"), ("status", .str "error"), ("reason", .str "timed out")]

/-- A safe verdict over a check that failed, one that passed without a status, and one that could not run. -/
def mixedReport : List (String × Json) := [
  ("verdict", .str " Safe "), ("target", .str "example.lu"),
  ("checks", .arr [.obj kexFailed, .obj [("name", .str "certificate")], .obj tlsErrored])]

theorem same_story_iff_of_mixedReport :
    ∃ readiness rest summary,
      [readinessFinding .ascii mixedReport "safe" .info,
          checkFailure .ascii (.str "example.lu") kexFailed "fail" "kex_group" .medium,
          checkFailure .ascii (.str "example.lu") tlsErrored "error" "tls_version" .low] = readiness :: rest ∧
        readiness.checkId = checkReadiness ∧ summarize .ascii mixedReport = .ok summary ∧
        (SameStory .ascii mixedReport readiness rest summary ↔
          foldedText .ascii mixedReport "verdict" "unsafe" ≠ "pass" ∧
            foldedText .ascii mixedReport "verdict" "unsafe" ≠ "info") :=
  same_story_iff (show normalize .ascii mixedReport = .ok _ from rfl)

/-- A verdict that is a check status: recorded as harmless, titled as a gap, and summed up as unsafe. -/
theorem pass_verdict_tells_two_stories :
    ∃ readiness summary, normalize .ascii [("verdict", .str "pass")] = .ok [readiness] ∧
      summarize .ascii [("verdict", .str "pass")] = .ok summary ∧ readiness.severity = .info ∧
      readiness.title = notReadyTitle ∧ summary.safe = false :=
  ⟨_, _, rfl, rfl, rfl, rfl, rfl⟩

/-! ### What is refused -/

/-- The identifiers of an accepted report are valid exactly when the names of the failing checks are. -/
theorem checkIds_valid_iff (h : normalize T report = .ok findings) :
    (∀ f ∈ findings, ∃ id, validateCheckId T f.checkId "pqc" = .ok id) ↔
      ∀ checks, HasChecks report checks → ∀ check ∈ checks, failing T check = true →
        dotted (foldedText T check "name" "unknown") = true := by
  obtain ⟨severity, checks, -, hchecks, rfl⟩ := normalize_eq_ok.1 h
  have hunique : ∀ checks', HasChecks report checks' → checks' = checks := by
    intro checks' h'
    have heq : checks'.map Json.obj = checks.map Json.obj := Except.ok.inj (h'.symm.trans hchecks)
    exact List.map_injective_iff.2 (fun _ _ he => Json.obj.inj he) heq
  have hready : ∃ id, validateCheckId T checkReadiness "pqc" = .ok id := by
    refine ⟨checkReadiness, ?_⟩
    rw [validateCheckId, if_neg (by decide), if_neg (by decide)]
  have hfailure : ∀ check ∈ checks, ∀ f, failureOf T (Json.getD report "target" (.str "")) check = some f →
      ((∃ id, validateCheckId T f.checkId "pqc" = .ok id) ↔ dotted (foldedText T check "name" "unknown") = true) := by
    intro check _ f hf
    have hreports := failureOf_reports (T := T) (Json.getD report "target" (.str "")) check
    rw [hf] at hreports
    rw [hreports.2.checkId]
    exact validateCheckId_append T (by decide) (by decide)
  have hsome : ∀ check, failing T check = true → ∃ f, failureOf T (Json.getD report "target" (.str "")) check = some f := by
    intro check hfailing
    have hreports := failureOf_reports (T := T) (Json.getD report "target" (.str "")) check
    cases hf : failureOf T (Json.getD report "target" (.str "")) check with
    | some f => exact ⟨f, rfl⟩
    | none =>
      rw [hf] at hreports
      rw [hreports] at hfailing
      cases hfailing
  constructor
  · intro hall checks' h' check hcheck hfailing
    rw [hunique checks' h'] at hcheck
    obtain ⟨f, hf⟩ := hsome check hfailing
    have hmem : f ∈ checks.filterMap (failureOf T (Json.getD report "target" (.str ""))) :=
      List.mem_filterMap.2 ⟨check, hcheck, hf⟩
    exact (hfailure check hcheck f hf).1 (hall f (List.mem_cons_of_mem _ hmem))
  · intro hall f hf
    rcases List.mem_cons.1 hf with rfl | hf
    · exact hready
    · obtain ⟨check, hcheck, hf⟩ := List.mem_filterMap.1 hf
      have hreports := failureOf_reports (T := T) (Json.getD report "target" (.str "")) check
      have hfailing : failing T check = true := by
        rw [hf] at hreports
        exact hreports.1
      exact (hfailure check hcheck f hf).2 (hall checks hchecks check hcheck hfailing)

end Story

end TestingPlatform.Pqc
