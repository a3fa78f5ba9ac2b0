import TestingPlatform.Modules.Vocabulary
import Mathlib.Data.List.ReduceOption

/-!
# The mapping of chainvalidator reports

`modules/dnssec/mapping.py`: a report becomes a chain finding, one finding for each link that is not secure, at most
one for the leaf, and a summary. The two traversals have different defaults for a missing status; `same_story` says
that they count the same links all the same.
-/

namespace TestingPlatform.Dnssec

def checkChain := "dnssec.chain_of_trust"
def checkDelegation := "dnssec.delegation"
def checkLeaf := "dnssec.leaf"
def schemaVersion := "dnssec/1.0"

/-- `_TITLE_BY_STATUS`. -/
def titles : List (String × String) := [
  ("secure", "DNSSEC chain of trust is intact"),
  ("insecure", "DNSSEC chain is not anchored end to end"),
  ("bogus", "DNSSEC validation failed"),
  ("error", "DNSSEC chain could not be validated")]

/-- The title of the status, with that of `error` as the default. -/
def titleByStatus (status : String) : String :=
  ((titles.find? fun t => t.1 == status).map (·.2)).getD "DNSSEC chain could not be validated"

theorem titleByStatus_nonempty (status : String) : titleByStatus status ≠ "" := by
  unfold titleByStatus
  cases ht : titles.find? fun t => t.1 == status with
  | none => decide
  | some t =>
    have hall : ∀ t ∈ titles, t.2 ≠ "" := by decide
    exact hall t (List.mem_of_find?_eq_some ht)

section Mapping
variable (T : PyText)

def mapStatusSeverity (status : String) : Except PyException FindingSeverity :=
  (chainvalidatorStatus T).mapSeverity status

def chainFinding (report : List (String × Json)) (status : String) (severity : FindingSeverity) : EngineFinding :=
  let domain := Json.getD report "domain" (.str "")
  { checkId := checkChain, severity, title := titleByStatus status,
    description := "chainvalidator validated the DNSSEC chain of trust for " ++ T.repr domain ++ " and reported " ++
      T.reprStr status ++ ".",
    affectedResource := orNone domain,
    evidence := evidenceOf report ["status", "trust_anchor_keys", "errors", "warnings"],
    checkId_nonempty := by decide, title_nonempty := titleByStatus_nonempty status }

def delegationFinding (link : List (String × Json)) (status : String) (severity : FindingSeverity) : EngineFinding :=
  let zone := Json.getD link "zone" (.str "")
  let parentZone := Json.getD link "parent_zone" .null
  { checkId := checkDelegation ++ "." ++ status, severity,
    title := "Delegation " ++ (T.str zone ++ " is " ++ status),
    description := "The delegation to " ++ T.repr zone ++ " from " ++
      T.repr (if parentZone.truthy then parentZone else .str "the root") ++ " is " ++ status ++ ".",
    affectedResource := orNone zone,
    evidence := evidenceOf link ["ds_records", "dnskeys", "errors", "warnings", "notes"],
    checkId_nonempty := append_nonempty (append_nonempty (by decide)), title_nonempty := append_nonempty (by decide) }

/-- One turn of the loop over the chain. -/
def linkFinding (link : Json) : Except PyException (Option EngineFinding) := do
  let link ← link.members
  let status := foldedText T link "status" "secure"
  if status = "secure" then return none
  let severity ← mapStatusSeverity T status
  return some (delegationFinding T link status severity)

def leafRecordFinding (domain : Json) (leaf : List (String × Json)) (status : String) (severity : FindingSeverity) :
    EngineFinding :=
  let qname := Json.getD leaf "qname" domain
  { checkId := checkLeaf ++ "." ++ status, severity,
    title := "Leaf record " ++ (T.str qname ++ " is " ++ status),
    description := "The " ++ T.str (Json.getD leaf "record_type" (.str "?")) ++ " record at " ++ T.repr qname ++
      " is " ++ status ++ ".",
    affectedResource := orNone qname,
    evidence := evidenceOf leaf ["records", "nxdomain", "nodata", "errors", "warnings"],
    checkId_nonempty := append_nonempty (append_nonempty (by decide)), title_nonempty := append_nonempty (by decide) }

def leafFinding (domain leaf : Json) : Except PyException (Option EngineFinding) :=
  match leaf with
  | .null => return none
  | leaf => do
    let leaf ← leaf.members
    let status := foldedText T leaf "status" "secure"
    if status = "secure" then return none
    let severity ← mapStatusSeverity T status
    return some (leafRecordFinding T domain leaf status severity)

def normalize (report : List (String × Json)) : Except PyException (List EngineFinding) := do
  let domain := Json.getD report "domain" (.str "")
  let status := foldedText T report "status" "error"
  let severity ← mapStatusSeverity T status
  let links ← (Json.getD report "chain" (.arr [])).iter
  let delegations ← links.mapM (linkFinding T)
  let leaf ← leafFinding T domain (Json.getD report "leaf" .null)
  return chainFinding T report status severity :: (delegations.reduceOption ++ leaf.toList)

structure Summary where
  status : String
  secure : Bool
  zoneCount : ℕ
  insecureDelegations : ℕ
  bogusDelegations : ℕ

def summarize (report : List (String × Json)) : Except PyException Summary := do
  let chain := Json.getD report "chain" (.arr [])
  let status := foldedText T report "status" ""
  let zoneCount ← chain.len
  let insecureDelegations ← countStatus T chain "insecure"
  let bogusDelegations ← countStatus T chain "bogus"
  return { status, secure := status = "secure", zoneCount, insecureDelegations, bogusDelegations }

end Mapping

/-! ### What is accepted -/

section Accepted
variable {T : PyText} {report : List (String × Json)} {findings : List EngineFinding}

theorem mapStatusSeverity_eq_ok {status : String} {severity : FindingSeverity} :
    mapStatusSeverity T status = .ok severity ↔ (T.fold status, severity) ∈ (chainvalidatorStatus T).table :=
  (chainvalidatorStatus T).mapSeverity_eq_ok

/-- The links of the report are these objects. -/
def HasLinks (report : List (String × Json)) (links : List (List (String × Json))) : Prop :=
  (Json.getD report "chain" (.arr [])).iter = .ok (links.map .obj)

def unsecured (T : PyText) (link : List (String × Json)) : Bool := foldedText T link "status" "secure" ≠ "secure"

/-- The finding of the check is the one of the record, which names its resource. -/
structure Reports (T : PyText) (check : String) (record : List (String × Json)) (resource : Json) (f : EngineFinding) :
    Prop where
  checkId : f.checkId = check ++ "." ++ foldedText T record "status" "secure"
  severity : (foldedText T record "status" "secure", f.severity) ∈ (chainvalidatorStatus T).table
  resource : f.affectedResource = orNone resource

def ReportsLink (T : PyText) (link : List (String × Json)) : EngineFinding → Prop :=
  Reports T checkDelegation link (Json.getD link "zone" (.str ""))

def ReportsLeaf (T : PyText) (domain : Json) (record : List (String × Json)) : EngineFinding → Prop :=
  Reports T checkLeaf record (Json.getD record "qname" domain)

/-- A record that is secure has no finding; any other has the one that `finding` makes of its severity. -/
theorem unlessSecure_eq_ok {record : List (String × Json)} (finding : FindingSeverity → EngineFinding) {o : Option EngineFinding}
    (h : (if foldedText T record "status" "secure" = "secure" then (.ok none : Except PyException (Option EngineFinding))
      else mapStatusSeverity T (foldedText T record "status" "secure") >>= fun severity => .ok (some (finding severity))) = .ok o) :
    (foldedText T record "status" "secure" = "secure" ∧ o = none) ∨
      foldedText T record "status" "secure" ≠ "secure" ∧ ∃ severity,
        (foldedText T record "status" "secure", severity) ∈ (chainvalidatorStatus T).table ∧ o = some (finding severity) := by
  split_ifs at h with hsecure
  · obtain rfl := Except.ok.inj h
    exact .inl ⟨hsecure, rfl⟩
  · obtain ⟨severity, hseverity, ho⟩ := Fallible.bind_eq_ok.1 h
    obtain rfl := Except.ok.inj ho
    rw [mapStatusSeverity_eq_ok, foldedText_fold] at hseverity
    exact .inr ⟨hsecure, severity, hseverity, rfl⟩

theorem linkFinding_obj {link : List (String × Json)} {o : Option EngineFinding}
    (h : linkFinding T (.obj link) = .ok o) :
    match o with
    | none => unsecured T link = false
    | some f => unsecured T link = true ∧ ReportsLink T link f := by
  unfold unsecured
  rcases unlessSecure_eq_ok (delegationFinding T link (foldedText T link "status" "secure")) h with
    ⟨hsecure, rfl⟩ | ⟨hsecure, severity, hseverity, rfl⟩
  · simp [hsecure]
  · exact ⟨by simp [hsecure], rfl, hseverity, rfl⟩

theorem delegations_report {links : List (List (String × Json))} {os : List (Option EngineFinding)}
    (h : List.Forall₂ (fun link o => linkFinding T (.obj link) = .ok o) links os) :
    List.Forall₂ (ReportsLink T) (links.filter (unsecured T)) os.reduceOption := by
  induction h with
  | nil => exact .nil
  | @cons link o links os hlink _ ih =>
    have hone := linkFinding_obj hlink
    rw [List.filter_cons]
    cases o with
    | none =>
      rw [List.reduceOption_cons_of_none]
      simp only [hone]
      exact ih
    | some f =>
      rw [List.reduceOption_cons_of_some]
      simp only [hone.1, if_true]
      exact .cons hone.2 ih

theorem normalize_eq_ok (h : normalize T report = .ok findings) :
    ∃ severity links delegations leaf,
      mapStatusSeverity T (foldedText T report "status" "error") = .ok severity ∧ HasLinks report links ∧
        List.Forall₂ (ReportsLink T) (links.filter (unsecured T)) delegations ∧
        leafFinding T (Json.getD report "domain" (.str "")) (Json.getD report "leaf" .null) = .ok leaf ∧
        findings = chainFinding T report (foldedText T report "status" "error") severity :: (delegations ++ leaf.toList) := by
  simp only [normalize, Fallible.bind_eq_ok] at h
  obtain ⟨severity, hseverity, items, hitems, os, hos, leaf, hleaf, h⟩ := h
  have hobj : ∀ v ∈ items, ∃ members, v = .obj members := by
    intro v hv
    obtain ⟨o, -, ho⟩ := Fallible.exists_of_mapM_ok_of_mem hos hv
    obtain ⟨members, hm, -⟩ := Fallible.bind_eq_ok.1 ho
    exact ⟨members, Json.members_eq_ok.1 hm⟩
  obtain ⟨links, rfl⟩ := Json.exists_map_obj hobj
  rw [Fallible.mapM_eq_ok, List.forall₂_map_left_iff] at hos
  exact ⟨severity, links, _, leaf, hseverity, hitems, delegations_report hos, hleaf, (Except.ok.inj h).symm⟩

theorem summarize_eq {links : List (List (String × Json))} (h : HasLinks report links) :
    ∃ summary, summarize T report = .ok summary ∧ (summary.secure = true ↔ foldedText T report "status" "" = "secure") ∧
      summary.insecureDelegations = (links.countP fun link => foldedText T link "status" "" = "insecure") ∧
      summary.bogusDelegations = links.countP fun link => foldedText T link "status" "" = "bogus" := by
  simp only [summarize, Json.len_of_iter h, countStatus_eq h]
  exact ⟨_, rfl, by simp, rfl, rfl⟩

/-- The finding of a leaf that is there and not secure. -/
theorem leafFinding_eq_ok {domain leaf : Json} {o : Option EngineFinding} (h : leafFinding T domain leaf = .ok o) :
    (o.isSome = true ↔ ∃ record, leaf = .obj record ∧ foldedText T record "status" "secure" ≠ "secure") ∧
      ∀ f ∈ o, ∃ record, leaf = .obj record ∧ ReportsLeaf T domain record f := by
  cases leaf with
  | null =>
    cases h
    simp
  | obj record =>
    rcases unlessSecure_eq_ok (leafRecordFinding T domain record (foldedText T record "status" "secure")) h with
      ⟨hsecure, rfl⟩ | ⟨hsecure, severity, hseverity, rfl⟩
    · simp [hsecure]
    · refine ⟨iff_of_true rfl ⟨record, rfl, hsecure⟩, ?_⟩
      rintro f ⟨⟩
      exact ⟨record, rfl, rfl, hseverity, rfl⟩
  | bool | num | str | arr => cases h

end Accepted

/-! ### One story -/

section Story
variable {T : PyText} {report : List (String × Json)} {findings : List EngineFinding}

/-- The findings, in their three parts, and the summary say the same. -/
structure SameStory (T : PyText) (report : List (String × Json)) (chain : EngineFinding)
    (delegations leaf : List EngineFinding) (summary : Summary) : Prop where
  checkId : chain.checkId = checkChain
  info_iff_secure : chain.severity = .info ↔ summary.secure = true
  title : (foldedText T report "status" "error", chain.title) ∈ titles
  /-- One finding a link that is not secure, in chain order. -/
  one_each : ∃ links, HasLinks report links ∧ List.Forall₂ (ReportsLink T) (links.filter (unsecured T)) delegations
  insecure : ((chain :: (delegations ++ leaf)).countP fun f => f.checkId = "dnssec.delegation.insecure") =
    summary.insecureDelegations
  bogus : ((chain :: (delegations ++ leaf)).countP fun f => f.checkId = "dnssec.delegation.bogus") =
    summary.bogusDelegations
  leaf_iff : leaf ≠ [] ↔ ∃ record, Json.getD report "leaf" .null = .obj record ∧
    foldedText T record "status" "secure" ≠ "secure"
  one_leaf : leaf.length ≤ 1
  leaf_reports : ∀ f ∈ leaf, ∃ record, Json.getD report "leaf" .null = .obj record ∧
    ReportsLeaf T (Json.getD report "domain" (.str "")) record f

theorem status_cases {status : String} {severity : FindingSeverity}
    (h : (status, severity) ∈ (chainvalidatorStatus T).table) :
    (severity = .info ↔ status = "secure") ∧ (status, titleByStatus status) ∈ titles ∧ dotted status = true := by
  simp only [chainvalidatorStatus, List.mem_cons, Prod.mk.injEq, List.not_mem_nil, or_false] at h
  rcases h with ⟨rfl, rfl⟩ | ⟨rfl, rfl⟩ | ⟨rfl, rfl⟩ | ⟨rfl, rfl⟩ <;> decide

theorem countP_of_reports {links : List (List (String × Json))} {chain : EngineFinding}
    {delegations leaf : List EngineFinding} (status : String)
    (h : List.Forall₂ (ReportsLink T) (links.filter (unsecured T)) delegations) (hchain : chain.checkId = checkChain)
    (hleaf : ∀ f ∈ leaf, ∃ s, f.checkId = checkLeaf ++ "." ++ s) (hstatus : status = "insecure" ∨ status = "bogus") :
    ((chain :: (delegations ++ leaf)).countP fun f => f.checkId = checkDelegation ++ "." ++ status) =
      links.countP fun link => foldedText T link "status" "" = status := by
  have hdefault : ∀ link, foldedText T link "status" "secure" = status ↔ foldedText T link "status" "" = status := by
    intro link
    refine foldedText_eq_iff T ?_ ?_ <;> rw [T.fold_plain (by decide)] <;> rcases hstatus with rfl | rfl <;> decide
  have hfirst : ¬ chain.checkId = checkDelegation ++ "." ++ status := by
    rw [hchain, String.append_assoc]
    exact append_ne_of_take (a := "dnssec.c") (b := checkDelegation) 8 (by decide) "hain_of_trust" _
  have hlast : (leaf.countP fun f => f.checkId = checkDelegation ++ "." ++ status) = 0 := by
    refine List.countP_eq_zero.2 fun f hf => ?_
    obtain ⟨s, hid⟩ := hleaf f hf
    rw [hid, String.append_assoc, String.append_assoc]
    simpa using append_ne_of_take (a := checkLeaf) (b := checkDelegation) 8 (by decide) ("." ++ s) ("." ++ status)
  rw [List.countP_cons_of_neg (by simpa using hfirst), List.countP_append, hlast, Nat.add_zero]
  refine Fallible.countP_of_forall₂_filter h (fun link f hr => ?_) fun link hlink => ?_
  · rw [hr.checkId, decide_eq_decide, String.append_right_inj]
    exact hdefault link
  · have hs := (hdefault link).2 (of_decide_eq_true hlink)
    rw [unsecured, hs]
    rcases hstatus with rfl | rfl <;> decide

/-- What the findings of an accepted report tell is what the summary tells. -/
theorem same_story (h : normalize T report = .ok findings) :
    ∃ chain delegations leaf summary, findings = chain :: (delegations ++ leaf) ∧ summarize T report = .ok summary ∧
      SameStory T report chain delegations leaf summary := by
  obtain ⟨severity, links, delegations, leaf, hseverity, hlinks, hreports, hleaf, rfl⟩ := normalize_eq_ok h
  obtain ⟨summary, hsummary, hsecure, hinsecure, hbogus⟩ := summarize_eq (T := T) hlinks
  refine ⟨_, delegations, leaf.toList, summary, rfl, hsummary, ?_⟩
  obtain ⟨hpresent, hleafReports⟩ := leafFinding_eq_ok hleaf
  rw [mapStatusSeverity_eq_ok, foldedText_fold] at hseverity
  obtain ⟨hinfo, htitle, -⟩ := status_cases hseverity
  have hdefault : foldedText T report "status" "error" = "secure" ↔ foldedText T report "status" "" = "secure" := by
    refine foldedText_eq_iff T ?_ ?_ <;> rw [T.fold_plain (by decide)] <;> decide
  have hleafIds : ∀ f ∈ leaf.toList, ∃ s, f.checkId = checkLeaf ++ "." ++ s := by
    intro f hf
    obtain ⟨record, -, hr⟩ := hleafReports f (Option.mem_toList.1 hf)
    exact ⟨_, hr.checkId⟩
  constructor
  · rfl
  · exact hinfo.trans (hdefault.trans hsecure.symm)
  · exact htitle
  · exact ⟨links, hlinks, hreports⟩
  · rw [hinsecure]
    exact countP_of_reports "insecure" hreports rfl hleafIds (.inl rfl)
  · rw [hbogus]
    exact countP_of_reports "bogus" hreports rfl hleafIds (.inr rfl)
  · rw [← hpresent]
    cases leaf <;> simp
  · cases leaf <;> simp
  · exact fun f hf => hleafReports f (Option.mem_toList.1 hf)

/-! ### What is refused -/

theorem knows_secure (T : PyText) : (chainvalidatorStatus T).Knows "secure" :=
  ⟨("secure", .info), by simp [chainvalidatorStatus], (T.fold_plain (by decide)).symm⟩

theorem knows_error (T : PyText) : (chainvalidatorStatus T).Knows "error" :=
  ⟨("error", .low), by simp [chainvalidatorStatus], (T.fold_plain (by decide)).symm⟩

theorem refusedWhen_unknown {source : List (String × Json)} (g : FindingSeverity → EngineFinding) :
    RefusedWhen
      (if foldedText T source "status" "secure" = "secure" then (.ok none : Except PyException (Option EngineFinding))
        else mapStatusSeverity T (foldedText T source "status" "secure") >>= fun severity => .ok (some (g severity)))
      (Unknown (chainvalidatorStatus T) source "status") := by
  have hlookup : RefusedWhen (mapStatusSeverity T (foldedText T source "status" "secure"))
      (Unknown (chainvalidatorStatus T) source "status") := mapSeverity_foldedText _ (knows_secure T)
  split_ifs with hsecure
  · have hknown : ¬ Unknown (chainvalidatorStatus T) source "status" := by
      rw [← knows_foldedText (chainvalidatorStatus T) (knows_secure T), hsecure]
      exact knows_secure T
    exact (RefusedWhen.ok none).congr (iff_of_false id hknown)
  · exact (hlookup.bind fun severity _ => RefusedWhen.ok _).congr (or_iff_left id)

/-- A status that is there, of the report, of a link or of the leaf, is no word of the vocabulary. -/
def HasUnknown (T : PyText) (report : List (String × Json)) (links : List (List (String × Json))) : Prop :=
  Unknown (chainvalidatorStatus T) report "status" ∨ (∃ link ∈ links, Unknown (chainvalidatorStatus T) link "status") ∨
    ∃ record, Json.getD report "leaf" .null = .obj record ∧ Unknown (chainvalidatorStatus T) record "status"

theorem refusedWhen_leaf {domain leaf : Json} (hleaf : leaf = .null ∨ ∃ record, leaf = .obj record) :
    RefusedWhen (leafFinding T domain leaf)
      (∃ record, leaf = .obj record ∧ Unknown (chainvalidatorStatus T) record "status") := by
  rcases hleaf with rfl | ⟨record, rfl⟩
  · exact (RefusedWhen.ok none).congr (by simp)
  · have hbody : RefusedWhen (leafFinding T domain (.obj record)) (Unknown (chainvalidatorStatus T) record "status") :=
      refusedWhen_unknown fun severity => leafRecordFinding T domain record (foldedText T record "status" "secure") severity
    exact hbody.congr (by simp)

theorem refusedWhen_links (links : List (List (String × Json))) :
    RefusedWhen ((links.map Json.obj).mapM (linkFinding T))
      (∃ link ∈ links, Unknown (chainvalidatorStatus T) link "status") := by
  have hturn : ∀ v ∈ links.map Json.obj, RefusedWhen (linkFinding T v)
      (∃ link, v = .obj link ∧ Unknown (chainvalidatorStatus T) link "status") := by
    intro v hv
    obtain ⟨link, -, rfl⟩ := List.mem_map.1 hv
    have hbody : RefusedWhen (linkFinding T (.obj link)) (Unknown (chainvalidatorStatus T) link "status") :=
      refusedWhen_unknown fun severity => delegationFinding T link (foldedText T link "status" "secure") severity
    exact hbody.congr (by simp)
  refine (RefusedWhen.mapM hturn).congr ?_
  constructor
  · rintro ⟨v, hv, link, rfl, hunknown⟩
    obtain ⟨link', hlink', he⟩ := List.mem_map.1 hv
    obtain rfl := Json.obj.inj he
    exact ⟨link', hlink', hunknown⟩
  · rintro ⟨link, hlink, hunknown⟩
    exact ⟨_, List.mem_map_of_mem hlink, link, rfl, hunknown⟩

theorem normalize_of_hasLinks {links : List (List (String × Json))} (hlinks : HasLinks report links) :
    normalize T report =
      mapStatusSeverity T (foldedText T report "status" "error") >>= fun severity =>
        (links.map Json.obj).mapM (linkFinding T) >>= fun delegations =>
          leafFinding T (Json.getD report "domain" (.str "")) (Json.getD report "leaf" .null) >>= fun leaf =>
            .ok (chainFinding T report (foldedText T report "status" "error") severity ::
              (delegations.reduceOption ++ leaf.toList)) := by
  simp only [normalize, show (Json.getD report "chain" (.arr [])).iter = .ok (links.map .obj) from hlinks]
  rfl

/-- A report of the engine's shape: a chain of objects, and an object or nothing as the leaf. -/
structure Shaped (report : List (String × Json)) (links : List (List (String × Json))) : Prop where
  chain : Json.getD report "chain" (.arr []) = .arr (links.map .obj)
  leaf : Json.getD report "leaf" .null = .null ∨ ∃ record, Json.getD report "leaf" .null = .obj record

theorem Shaped.hasLinks {links : List (List (String × Json))} (h : Shaped report links) : HasLinks report links := by
  rw [HasLinks, h.chain]
  rfl

theorem refusedWhen_normalize {links : List (List (String × Json))} (h : Shaped report links) :
    RefusedWhen (normalize T report) (HasUnknown T report links) := by
  rw [normalize_of_hasLinks h.hasLinks]
  refine (mapSeverity_foldedText (chainvalidatorStatus T) (knows_error T)).bind fun severity _ => ?_
  refine (refusedWhen_links links).bind fun delegations _ => ?_
  exact ((refusedWhen_leaf h.leaf).bind fun leaf _ => RefusedWhen.ok _).congr (or_iff_left id)

/-- A report of that shape is refused when a status that is there is unknown; else the stories agree. -/
theorem story_of_shaped {links : List (List (String × Json))} (h : Shaped report links) :
    ((∃ exc, normalize T report = .error exc) ↔ HasUnknown T report links) ∧
      ∀ findings, normalize T report = .ok findings →
        ∃ chain delegations leaf summary, findings = chain :: (delegations ++ leaf) ∧ summarize T report = .ok summary ∧
          SameStory T report chain delegations leaf summary :=
  ⟨(refusedWhen_normalize h).exists_error_iff, fun _ => same_story⟩

/-- One link that is bogus, in another spelling, one that is secure, a leaf, and a report without a status. -/
def bogusReport : List (String × Json) := [
  ("chain", .arr [.obj [("zone", .str "lu"), ("status", .str " Bogus")], .obj [("zone", .str "example.lu")]]),
  ("leaf", .obj [("qname", .str "www.example.lu"), ("status", .str "INSECURE")])]

theorem story_of_bogusReport :
    ((∃ exc, normalize .ascii bogusReport = .error exc) ↔
        HasUnknown .ascii bogusReport [[("zone", .str "lu"), ("status", .str " Bogus")], [("zone", .str "example.lu")]]) ∧
      ∀ findings, normalize .ascii bogusReport = .ok findings →
        ∃ chain delegations leaf summary, findings = chain :: (delegations ++ leaf) ∧
          summarize .ascii bogusReport = .ok summary ∧ SameStory .ascii bogusReport chain delegations leaf summary :=
  story_of_shaped ⟨rfl, .inr ⟨_, rfl⟩⟩

theorem checkIds_valid (h : normalize T report = .ok findings) :
    ∀ f ∈ findings, ∃ id, validateCheckId T f.checkId "dnssec" = .ok id := by
  obtain ⟨severity, links, delegations, leaf, -, -, hreports, hleaf, rfl⟩ := normalize_eq_ok h
  obtain ⟨-, hleafReports⟩ := leafFinding_eq_ok hleaf
  intro f hf
  rcases List.mem_cons.1 hf with rfl | hf
  · refine ⟨checkChain, ?_⟩
    show validateCheckId T checkChain "dnssec" = _
    rw [validateCheckId, if_neg (by decide), if_neg (by decide)]
  · rcases List.mem_append.1 hf with hf | hf
    · obtain ⟨link, -, hr⟩ := Fallible.exists_of_forall₂_right hreports hf
      rw [hr.checkId]
      exact (validateCheckId_append T (by decide) (by decide)).2 (status_cases hr.severity).2.2
    · obtain ⟨record, -, hr⟩ := hleafReports f (Option.mem_toList.1 hf)
      rw [hr.checkId]
      exact (validateCheckId_append T (by decide) (by decide)).2 (status_cases hr.severity).2.2

end Story

end TestingPlatform.Dnssec
