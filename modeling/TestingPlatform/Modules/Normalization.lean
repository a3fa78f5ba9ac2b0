import TestingPlatform.Modules.Contract
import Mathlib.Algebra.Ring.Nat
import Mathlib.Data.List.Sort
import Mathlib.Data.List.Lex
import Mathlib.Data.String.Basic

/-!
# From a module result to its rows

`modules/normalization/findings.py` and `modules/normalization/rows.py`: the severity counts, the
persistence order of findings, and the `scan_result` and `finding` rows of one result. The order key
ends in canonical JSON, so `json.dumps` is written out here for the values a JSONB column holds.
-/

namespace TestingPlatform

/-! ### Canonical JSON -/

namespace Json

def hexDigit (n : Nat) : Char := if n < 10 then Char.ofNat (48 + n) else Char.ofNat (87 + n)

/-- `\uXXXX`. -/
def unicodeEscape (n : Nat) : List Char :=
  ['\\', 'u', hexDigit (n / 4096 % 16), hexDigit (n / 256 % 16), hexDigit (n / 16 % 16), hexDigit (n % 16)]

/-- One character under `ensure_ascii`; beyond the basic plane it becomes a surrogate pair. -/
def escapeChar (c : Char) : List Char :=
  let n := c.toNat
  if c = '"' then ['\\', '"'] else if c = '\\' then ['\\', '\\']
  else if c = '\n' then ['\\', 'n'] else if c = '\r' then ['\\', 'r'] else if c = '\t' then ['\\', 't']
  else if n = 8 then ['\\', 'b'] else if n = 12 then ['\\', 'f']
  else if 32 ≤ n && n ≤ 126 then [c]
  else if n ≤ 0xffff then unicodeEscape n
  else unicodeEscape (0xd800 + (n - 0x10000) / 1024) ++ unicodeEscape (0xdc00 + (n - 0x10000) % 1024)

def quote (s : String) : String := String.ofList ('"' :: s.toList.flatMap escapeChar ++ ['"'])

/-- The members in key order, each as `"key": value`. -/
def sortedMembers (ms : List (String × String)) : List String :=
  (ms.insertionSort fun a b => a.1 ≤ b.1).map fun m => quote m.1 ++ ": " ++ m.2

mutual

/-- `json.dumps(value, sort_keys=True)`. -/
def dumps : Json → String
  | .null => "null"
  | .bool b => if b then "true" else "false"
  | .num t => t
  | .str s => quote s
  | .arr items => "[" ++ ", ".intercalate (dumpsItems items) ++ "]"
  | .obj members => "\x7b" ++ ", ".intercalate (sortedMembers (dumpsMembers members)) ++ "\x7d"

def dumpsItems : List Json → List String
  | [] => []
  | v :: vs => dumps v :: dumpsItems vs

def dumpsMembers : List (String × Json) → List (String × String)
  | [] => []
  | (k, v) :: ms => (k, dumps v) :: dumpsMembers ms

end

end Json

/-! ### Finding rules -/

/-- `_SEVERITY_RANK`. -/
def severityRank : FindingSeverity → Nat
  | .critical => 0 | .high => 1 | .medium => 2 | .low => 3 | .info => 4

/-- Findings per severity band, every band present. -/
def severityCounts (findings : List NormalizedFinding) : List (FindingSeverity × Nat) :=
  FindingSeverity.all.map fun s => (s, findings.countP fun f => f.severity = s)

/-- One pass of the loop: the band of the finding goes up. -/
def countFinding (counts : List (FindingSeverity × Nat)) (f : NormalizedFinding) : List (FindingSeverity × Nat) :=
  counts.map fun c => if c.1 = f.severity then (c.1, c.2 + 1) else c

theorem foldl_countFinding (bands : List FindingSeverity) (n : FindingSeverity → Nat) (findings : List NormalizedFinding) :
    findings.foldl countFinding (bands.map fun s => (s, n s)) =
      bands.map fun s => (s, n s + findings.countP fun f => f.severity = s) := by
  induction findings generalizing n with
  | nil => simp
  | cons f fs ih =>
    have hone : countFinding (bands.map fun s => (s, n s)) f =
        bands.map fun s => (s, n s + if f.severity = s then 1 else 0) := by
      rw [countFinding, List.map_map]
      refine List.map_congr_left fun s _ => ?_
      by_cases hs : f.severity = s
      · simp [hs]
      · simp [hs, Ne.symm hs]
    rw [List.foldl_cons, hone, ih]
    refine List.map_congr_left fun s _ => ?_
    rw [List.countP_cons]
    simp only [decide_eq_true_eq, Prod.mk.injEq, true_and]
    omega

/-- `severity_counts` loops over the findings with a count of zero in every band. -/
theorem severityCounts_eq_foldl (findings : List NormalizedFinding) :
    severityCounts findings = findings.foldl countFinding (FindingSeverity.all.map fun s => (s, 0)) := by
  rw [foldl_countFinding]
  simp [severityCounts]

/-- `_order_key`: the rank, then the texts, compared in turn. -/
def orderKey (f : NormalizedFinding) : Nat × List String :=
  (severityRank f.severity,
    [f.checkId, f.affectedResource.getD "", f.title, f.description, f.remediation.getD "",
      (f.evidence.map fun e => (Json.obj e).dumps).getD "",
      (Json.arr (f.externalReferences.map .str)).dumps])

/-- Python's order on the keys. -/
def orderLE (a b : Nat × List String) : Prop := a.1 < b.1 ∨ (a.1 = b.1 ∧ a.2 ≤ b.2)

instance (a b : Nat × List String) : Decidable (orderLE a b) :=
  inferInstanceAs (Decidable (a.1 < b.1 ∨ (a.1 = b.1 ∧ a.2 ≤ b.2)))

/-- Findings in persistence order; findings with one key keep their order. -/
def orderFindings (findings : List NormalizedFinding) : List NormalizedFinding :=
  findings.insertionSort fun f g => orderLE (orderKey f) (orderKey g)

theorem orderFindings_perm (findings : List NormalizedFinding) : (orderFindings findings).Perm findings :=
  List.perm_insertionSort ..

theorem orderLE_total (a b : Nat × List String) : orderLE a b ∨ orderLE b a := by
  rcases lt_trichotomy a.1 b.1 with h | h | h
  · exact .inl (.inl h)
  · exact (le_total a.2 b.2).imp (fun hle => .inr ⟨h, hle⟩) fun hle => .inr ⟨h.symm, hle⟩
  · exact .inr (.inl h)

theorem orderLE_trans {a b c : Nat × List String} (hab : orderLE a b) (hbc : orderLE b c) : orderLE a c := by
  rcases hab with hab | ⟨hab, hab'⟩
  · rcases hbc with hbc | ⟨hbc, -⟩
    · exact .inl (hab.trans hbc)
    · exact .inl (hbc ▸ hab)
  · rcases hbc with hbc | ⟨hbc, hbc'⟩
    · exact .inl (hab ▸ hbc)
    · exact .inr ⟨hab.trans hbc, le_trans hab' hbc'⟩

theorem orderFindings_pairwise (findings : List NormalizedFinding) :
    (orderFindings findings).Pairwise fun f g => orderLE (orderKey f) (orderKey g) := by
  have htotal : Std.Total fun f g : NormalizedFinding => orderLE (orderKey f) (orderKey g) :=
    ⟨fun f g => orderLE_total (orderKey f) (orderKey g)⟩
  have htrans : IsTrans NormalizedFinding fun f g => orderLE (orderKey f) (orderKey g) :=
    ⟨fun _ _ _ => orderLE_trans⟩
  exact List.pairwise_insertionSort _ findings

/-! ### Rows -/

/-- A `scan_result` row without its id. -/
structure ScanResultRow where
  organizationId : Option Uuid
  scanTaskId : Uuid
  schemaVersion : String
  rawOutput : List (String × Json)
  summary : List (String × Json)
  grade : Option ScanGrade
  severityCounts : List (FindingSeverity × Nat)
  completedAt : Time

/-- A `finding` row without its id and status. -/
structure FindingRow where
  organizationId : Option Uuid
  scanResultId : Uuid
  checkId : String
  severity : FindingSeverity
  title : String
  description : String
  affectedResource : Option String
  remediation : Option String
  evidence : Option (List (String × Json))
  externalReferences : List String

def scanResultRow (result : ModuleResult) (scanTaskId : Uuid) (completedAt : Time)
    (organizationId : Option Uuid) : ScanResultRow where
  organizationId
  scanTaskId
  schemaVersion := result.schemaVersion
  rawOutput := result.rawOutput
  summary := result.summary
  grade := result.grade
  severityCounts := TestingPlatform.severityCounts result.findings
  completedAt

def findingRows (result : ModuleResult) (scanResultId : Uuid) (organizationId : Option Uuid) :
    List FindingRow :=
  (orderFindings result.findings).map fun f =>
    { organizationId, scanResultId, checkId := f.checkId, severity := f.severity, title := f.title,
      description := f.description, affectedResource := f.affectedResource, remediation := f.remediation,
      evidence := f.evidence, externalReferences := f.externalReferences }

/-- A column of the row has a value that the database does not store, whatever else it looks at. -/
def ScanResultRow.unstorable (r : ScanResultRow) : Bool :=
  Text.hasNul r.schemaVersion || (Json.obj r.rawOutput).unstorable || (Json.obj r.summary).unstorable

def FindingRow.unstorable (f : FindingRow) : Bool :=
  Text.hasNul f.checkId || Text.hasNul f.title || Text.hasNul f.description ||
    f.affectedResource.any Text.hasNul || f.remediation.any Text.hasNul ||
    f.evidence.any (fun e => (Json.obj e).unstorable) || (Json.arr (f.externalReferences.map .str)).unstorable

/-- What cannot be stored of a result cannot be stored of its rows. -/
theorem rows_unstorable {result : ModuleResult} (h : result.unstorable = true) (scanTaskId scanResultId : Uuid)
    (completedAt : Time) (org : Option Uuid) :
    (scanResultRow result scanTaskId completedAt org).unstorable = true ∨
      ∃ row ∈ findingRows result scanResultId org, row.unstorable = true := by
  rw [ModuleResult.unstorable, Bool.or_eq_true, List.any_eq_true] at h
  refine h.imp id fun ⟨f, hf, hbad⟩ => ?_
  exact ⟨_, List.mem_map_of_mem ((orderFindings_perm result.findings).mem_iff.2 hf), hbad⟩

theorem owner_of_mem_findingRows {result : ModuleResult} {scanResultId : Uuid} {org : Option Uuid}
    {row : FindingRow} (h : row ∈ findingRows result scanResultId org) :
    row.scanResultId = scanResultId ∧ row.organizationId = org := by
  obtain ⟨f, -, rfl⟩ := List.mem_map.1 h
  exact ⟨rfl, rfl⟩

/-! ### The rows agree with the findings -/

section Lex
variable {α : Type} [LinearOrder α] {a b : α} {l l' : List α}

theorem head_le_of_cons_le (h : a :: l ≤ b :: l') : a ≤ b := by
  rcases h.lt_or_eq with hlt | heq
  · exact List.head_le_of_lt hlt
  · exact (List.cons.inj heq).1.le

theorem tail_le_of_cons_le (h : a :: l ≤ a :: l') : l ≤ l' := by
  by_contra hlt
  have hcons : a :: l' < a :: l := List.lex_cons_iff.2 (not_le.1 hlt)
  exact absurd h (not_le.2 hcons)

end Lex

/-- The row says what the finding says. -/
structure FindingRow.Stores (row : FindingRow) (f : NormalizedFinding) : Prop where
  checkId : row.checkId = f.checkId
  severity : row.severity = f.severity
  title : row.title = f.title
  description : row.description = f.description
  affectedResource : row.affectedResource = f.affectedResource
  remediation : row.remediation = f.remediation
  evidence : row.evidence = f.evidence
  externalReferences : row.externalReferences = f.externalReferences

/-- Most severe first, then by rule, then by resource; no resource counts as the empty one. -/
def FindingRow.Precedes (r r' : FindingRow) : Prop :=
  severityRank r.severity ≤ severityRank r'.severity ∧
    (r.severity = r'.severity → r.checkId ≤ r'.checkId ∧
      (r.checkId = r'.checkId → r.affectedResource.getD "" ≤ r'.affectedResource.getD ""))

theorem findingRows_stores (result : ModuleResult) (scanResultId : Uuid) (org : Option Uuid) :
    List.Forall₂ FindingRow.Stores (findingRows result scanResultId org) (orderFindings result.findings) := by
  rw [findingRows, List.forall₂_map_left_iff]
  exact List.forall₂_same.2 fun f _ => ⟨rfl, rfl, rfl, rfl, rfl, rfl, rfl, rfl⟩

theorem findingRows_sorted (result : ModuleResult) (scanResultId : Uuid) (org : Option Uuid) :
    (findingRows result scanResultId org).Pairwise FindingRow.Precedes := by
  rw [findingRows, List.pairwise_map]
  refine (orderFindings_pairwise result.findings).imp fun {f g} hle => ?_
  show severityRank f.severity ≤ severityRank g.severity ∧ _
  rcases hle with hlt | ⟨heq, htexts⟩
  · refine ⟨hlt.le, fun hs => ?_⟩
    have hrank : severityRank f.severity = severityRank g.severity := congrArg severityRank hs
    exact absurd hlt hrank.not_lt
  · have heq' : severityRank f.severity = severityRank g.severity := heq
    refine ⟨heq'.le, fun _ => ⟨head_le_of_cons_le htexts, fun hcheck => ?_⟩⟩
    have hcheck' : f.checkId = g.checkId := hcheck
    simp only [orderKey, hcheck'] at htexts
    exact head_le_of_cons_le (tail_le_of_cons_le htexts)

theorem countP_findingRows (result : ModuleResult) (scanResultId : Uuid) (org : Option Uuid) (s : FindingSeverity) :
    ((findingRows result scanResultId org).countP fun row => row.severity = s) =
      result.findings.countP fun f => f.severity = s := by
  rw [findingRows, List.countP_map]
  exact (orderFindings_perm result.findings).countP_eq _

theorem sum_severityCounts (findings : List NormalizedFinding) :
    ((severityCounts findings).map (·.2)).sum = findings.length := by
  induction findings with
  | nil => rfl
  | cons f fs ih =>
    simp only [severityCounts, FindingSeverity.all, List.map_cons, List.map_nil, List.sum_cons, List.sum_nil,
      List.countP_cons, List.length_cons] at ih ⊢
    cases f.severity <;> simp <;> omega

/-- The two mappers on one result, for one owner. -/
structure RowsAgree (result : ModuleResult) (scanTaskId scanResultId : Uuid) (completedAt : Time) (org : Option Uuid) :
    Prop where
  /-- No finding is lost and none is stored twice. -/
  lossless : ∃ stored, stored.Perm result.findings ∧
    List.Forall₂ FindingRow.Stores (findingRows result scanResultId org) stored
  sorted : (findingRows result scanResultId org).Pairwise FindingRow.Precedes
  /-- Every band is there once. -/
  bands : (scanResultRow result scanTaskId completedAt org).severityCounts.map (·.1) =
    [.critical, .high, .medium, .low, .info]
  counts : ∀ c ∈ (scanResultRow result scanTaskId completedAt org).severityCounts,
    c.2 = (findingRows result scanResultId org).countP fun row => row.severity = c.1
  total : ((scanResultRow result scanTaskId completedAt org).severityCounts.map (·.2)).sum = result.findings.length
  result_owner : (scanResultRow result scanTaskId completedAt org).scanTaskId = scanTaskId ∧
    (scanResultRow result scanTaskId completedAt org).organizationId = org
  finding_owner : ∀ row ∈ findingRows result scanResultId org,
    row.scanResultId = scanResultId ∧ row.organizationId = org

/-- The summary of the severities is that of the stored rows, and the rows are the findings. -/
theorem rows_agree (result : ModuleResult) (scanTaskId scanResultId : Uuid) (completedAt : Time) (org : Option Uuid) :
    RowsAgree result scanTaskId scanResultId completedAt org where
  lossless := ⟨orderFindings result.findings, orderFindings_perm _, findingRows_stores ..⟩
  sorted := findingRows_sorted ..
  bands := rfl
  counts c hc := by
    obtain ⟨s, -, rfl⟩ := List.mem_map.1 hc
    exact (countP_findingRows ..).symm
  total := sum_severityCounts result.findings
  result_owner := ⟨rfl, rfl⟩
  finding_owner _ h := owner_of_mem_findingRows h

end TestingPlatform
