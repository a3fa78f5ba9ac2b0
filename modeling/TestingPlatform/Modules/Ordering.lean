import TestingPlatform.Modules.Canonical
import Mathlib.Data.List.TakeWhile

/-!
# Stored order and engine order

`_order_key` is there so that the stored rows do not depend on the order in which an engine found them. It reads a
missing resource and a missing remediation as empty texts, which the rows keep apart. Rows are the same for every
order of the findings exactly when no two of them differ in that alone (`stored_order_iff`).
-/

namespace TestingPlatform

def sameEvidence (e e' : Option (List (String × Json))) : Prop :=
  e.map (fun members => Json.canon (.obj members)) = e'.map fun members => Json.canon (.obj members)

/-- The rows are equal in every column, objects as sets of members. -/
structure FindingRow.Same (r r' : FindingRow) : Prop where
  organizationId : r.organizationId = r'.organizationId
  scanResultId : r.scanResultId = r'.scanResultId
  checkId : r.checkId = r'.checkId
  severity : r.severity = r'.severity
  title : r.title = r'.title
  description : r.description = r'.description
  affectedResource : r.affectedResource = r'.affectedResource
  remediation : r.remediation = r'.remediation
  evidence : sameEvidence r.evidence r'.evidence
  externalReferences : r.externalReferences = r'.externalReferences

/-- The findings are stored alike, but for a resource or a remediation that is missing in one and empty in the other. -/
structure NormalizedFinding.Blurred (f g : NormalizedFinding) : Prop where
  severity : f.severity = g.severity
  checkId : f.checkId = g.checkId
  affectedResource : f.affectedResource.getD "" = g.affectedResource.getD ""
  title : f.title = g.title
  description : f.description = g.description
  remediation : f.remediation.getD "" = g.remediation.getD ""
  evidence : sameEvidence f.evidence g.evidence
  externalReferences : f.externalReferences = g.externalReferences

/-- The numbers in the evidence are kept as texts of numbers. -/
def NormalizedFinding.Numerals (f : NormalizedFinding) : Prop := ∀ e ∈ f.evidence, (Json.obj e).numerals = true

section Key
variable {f g : NormalizedFinding}

theorem severityRank_inj {s s' : FindingSeverity} (h : severityRank s = severityRank s') : s = s' := by
  cases s <;> cases s' <;> first | rfl | cases h

theorem dumps_obj_ne_empty (members : List (String × Json)) : (Json.obj members).dumps ≠ "" := by
  intro h
  have htext := Json.toList_dumps_obj members
  rw [h] at htext
  cases htext

theorem evidence_key_iff (hf : f.Numerals) (hg : g.Numerals) :
    (f.evidence.map fun e => (Json.obj e).dumps).getD "" = (g.evidence.map fun e => (Json.obj e).dumps).getD "" ↔
      sameEvidence f.evidence g.evidence := by
  unfold sameEvidence NormalizedFinding.Numerals at *
  cases he : f.evidence with
  | none =>
    cases he' : g.evidence with
    | none => simp
    | some members' => simpa using (dumps_obj_ne_empty members').symm
  | some members =>
    cases he' : g.evidence with
    | none => simpa using dumps_obj_ne_empty members
    | some members' =>
      simp only [Option.map_some, Option.getD_some, Option.some.injEq]
      exact Json.dumps_eq_iff (hf members he) (hg members' he')

theorem references_key_iff (refs refs' : List String) :
    (Json.arr (refs.map .str)).dumps = (Json.arr (refs'.map .str)).dumps ↔ refs = refs' := by
  have hnumerals : ∀ l : List String, (Json.arr (l.map .str)).numerals = true := by
    intro l
    rw [Json.numerals_arr_iff]
    intro v hv
    obtain ⟨s, -, rfl⟩ := List.mem_map.1 hv
    rfl
  have hcanon : ∀ l : List String, Json.canon (.arr (l.map .str)) = .arr (l.map .str) := by
    intro l
    rw [Json.canon_arr, List.map_map]
    rfl
  rw [Json.dumps_eq_iff (hnumerals refs) (hnumerals refs'), hcanon, hcanon, Json.arr.injEq]
  exact (List.map_injective_iff.2 fun _ _ h => Json.str.inj h).eq_iff

theorem orderKey_eq_iff (hf : f.Numerals) (hg : g.Numerals) : orderKey f = orderKey g ↔ f.Blurred g := by
  have hevidence := evidence_key_iff hf hg
  have hreferences := references_key_iff f.externalReferences g.externalReferences
  simp only [orderKey, Prod.mk.injEq, List.cons.injEq, and_true, hevidence, hreferences]
  constructor
  · rintro ⟨hseverity, hcheck, hresource, htitle, hdescription, hremediation, hevidence, hreferences⟩
    exact ⟨severityRank_inj hseverity, hcheck, hresource, htitle, hdescription, hremediation, hevidence, hreferences⟩
  · rintro ⟨hseverity, hcheck, hresource, htitle, hdescription, hremediation, hevidence, hreferences⟩
    exact ⟨congrArg severityRank hseverity, hcheck, hresource, htitle, hdescription, hremediation, hevidence, hreferences⟩

theorem orderLE_refl (a : Nat × List String) : orderLE a a := .inr ⟨rfl, le_rfl⟩

theorem orderLE_antisymm {a b : Nat × List String} (hab : orderLE a b) (hba : orderLE b a) : a = b := by
  rcases hab with hab | ⟨hab, hab'⟩
  · rcases hba with hba | ⟨hba, -⟩
    · exact absurd hab hba.asymm
    · exact absurd hba hab.ne'
  · rcases hba with hba | ⟨-, hba'⟩
    · exact absurd hab hba.ne'
    · exact Prod.ext hab (le_antisymm hab' hba')

end Key

/-! ### A stable sort -/

section Stable
variable {α : Type} {r : α → α → Prop} [DecidableRel r] {a b : α}

/-- Two elements that the order does not separate stay side by side, the one that came first before the other. -/
theorem orderedInsert_tied (hab : ∀ c, r a c ↔ r b c) (ha : r a a) (hb : r b b) (l : List α) :
    ∃ before after, List.orderedInsert r a (List.orderedInsert r b l) = before ++ a :: b :: after ∧
      List.orderedInsert r b (List.orderedInsert r a l) = before ++ b :: a :: after := by
  have hpred : (fun c => decide ¬ r a c) = fun c => decide ¬ r b c := by
    funext c
    simp only [hab]
  have hbefore : ∀ d ∈ l.takeWhile (fun c => decide ¬ r b c), decide (¬ r b d) = true :=
    fun d hd => List.mem_takeWhile_imp (p := fun c => decide ¬ r b c) hd
  have htake : ∀ c rest, r b c →
      (l.takeWhile (fun c => decide ¬ r b c) ++ c :: rest).takeWhile (fun c => decide ¬ r b c) =
        l.takeWhile (fun c => decide ¬ r b c) := by
    intro c rest hc
    rw [List.takeWhile_append_of_pos hbefore, List.takeWhile_cons_of_neg (by simpa using hc),
      List.append_nil]
  have hdrop : ∀ c rest, r b c →
      (l.takeWhile (fun c => decide ¬ r b c) ++ c :: rest).dropWhile (fun c => decide ¬ r b c) = c :: rest := by
    intro c rest hc
    rw [List.dropWhile_append_of_pos hbefore, List.dropWhile_cons_of_neg (by simpa using hc)]
  have hba : r b a := (hab a).1 ha
  refine ⟨l.takeWhile fun c => decide ¬ r b c, l.dropWhile fun c => decide ¬ r b c, ?_, ?_⟩
  · rw [List.orderedInsert_eq_take_drop r b, List.orderedInsert_eq_take_drop r a, hpred, htake b _ hb, hdrop b _ hb]
  · rw [List.orderedInsert_eq_take_drop r a, List.orderedInsert_eq_take_drop r b, hpred, htake a _ hba, hdrop a _ hba]

end Stable

/-! ### Every order of the findings -/

section Orders
variable {l l' : List NormalizedFinding} {f g : NormalizedFinding}

theorem keys_of_perm (h : l.Perm l') : (orderFindings l).map orderKey = (orderFindings l').map orderKey := by
  have hsorted : ∀ l, ((orderFindings l).map orderKey).Pairwise orderLE := fun l => List.pairwise_map.2 (orderFindings_pairwise l)
  refine List.Perm.eq_of_pairwise (fun a b _ _ => orderLE_antisymm) (hsorted l) (hsorted l') ?_
  exact (((orderFindings_perm l).trans h).trans (orderFindings_perm l').symm).map orderKey

theorem orderFindings_tied (h : orderKey f = orderKey g) (rest : List NormalizedFinding) :
    ∃ before after, orderFindings (f :: g :: rest) = before ++ f :: g :: after ∧
      orderFindings (g :: f :: rest) = before ++ g :: f :: after := by
  unfold orderFindings
  simp only [List.insertionSort_cons]
  exact orderedInsert_tied (r := fun f g => orderLE (orderKey f) (orderKey g)) (fun c => by rw [h]) (orderLE_refl _)
    (orderLE_refl _) _

theorem exists_perm_cons {α : Type} {a : α} {l : List α} (h : a ∈ l) : ∃ rest, l.Perm (a :: rest) := by
  obtain ⟨before, after, rfl⟩ := List.append_of_mem h
  exact ⟨before ++ after, List.perm_middle⟩

/-- The stored rows are the same for every order of the findings. -/
def OrderFree (result : ModuleResult) (scanResultId : Uuid) (org : Option Uuid) : Prop :=
  ∀ findings, findings.Perm result.findings →
    List.Forall₂ FindingRow.Same (findingRows result scanResultId org) (findingRows { result with findings } scanResultId org)

/-- Rows do not depend on the order of the findings exactly when no two of these differ only in that a resource or a
remediation is missing in one and empty in the other. -/
theorem stored_order_iff (result : ModuleResult) (scanResultId : Uuid) (org : Option Uuid)
    (hnumerals : ∀ f ∈ result.findings, f.Numerals) :
    OrderFree result scanResultId org ↔
      ∀ f ∈ result.findings, ∀ g ∈ result.findings, f.Blurred g →
        f.affectedResource = g.affectedResource ∧ f.remediation = g.remediation := by
  constructor
  · intro hfree f hf g hg hblurred
    by_cases hfg : f = g
    · rw [hfg]
      exact ⟨rfl, rfl⟩
    obtain ⟨others, hothers⟩ := exists_perm_cons hf
    have hg' : g ∈ others := by
      rcases List.mem_cons.1 (hothers.mem_iff.1 hg) with he | hmem
      · exact absurd he.symm hfg
      · exact hmem
    obtain ⟨rest, hrest⟩ := exists_perm_cons hg'
    have hperm : result.findings.Perm (f :: g :: rest) := hothers.trans (hrest.cons f)
    obtain ⟨before, after, hfirst, hsecond⟩ :=
      orderFindings_tied ((orderKey_eq_iff (hnumerals f hf) (hnumerals g hg)).2 hblurred) rest
    -- both orders have the columns of the rows as they are stored now
    have hcolumns : ∀ findings, findings.Perm result.findings →
        (orderFindings findings).map (fun x => (x.affectedResource, x.remediation)) =
          (findingRows result scanResultId org).map fun row => (row.affectedResource, row.remediation) := by
      intro findings hp
      have hrows := Fallible.map_eq_of_forall₂ (g := fun row : FindingRow => (row.affectedResource, row.remediation))
        (k := fun row : FindingRow => (row.affectedResource, row.remediation)) (hfree findings hp)
        fun a b hab => Prod.ext hab.affectedResource.symm hab.remediation.symm
      rw [← hrows, findingRows, List.map_map]
      rfl
    have hswap := (hcolumns _ hperm.symm).trans (hcolumns _ ((List.Perm.swap f g rest).trans hperm.symm)).symm
    rw [hfirst, hsecond, List.map_append, List.map_append, List.append_right_inj] at hswap
    exact Prod.mk.inj (List.cons.inj hswap).1
  · intro hall findings hp
    have hkeys : List.Forall₂ (fun f g => orderKey f = orderKey g) (orderFindings result.findings) (orderFindings findings) := by
      rw [← List.forall₂_map_left_iff (f := orderKey) (R := fun k g => k = orderKey g), ← List.forall₂_map_right_iff,
        List.forall₂_eq_eq_eq]
      exact keys_of_perm hp.symm
    have hstored : ∀ f ∈ orderFindings result.findings, f ∈ result.findings := fun f h => (orderFindings_perm _).mem_iff.1 h
    have hstored' : ∀ g ∈ orderFindings findings, g ∈ result.findings := fun g h => hp.mem_iff.1 ((orderFindings_perm _).mem_iff.1 h)
    have hleft := (List.forall₂_and_left _ _).2 ⟨hstored, hkeys⟩
    have hboth := ((List.forall₂_and_left _ _).2 ⟨hstored', hleft.flip⟩).flip
    rw [findingRows, findingRows, List.forall₂_map_left_iff, List.forall₂_map_right_iff]
    refine hboth.imp ?_
    rintro f g ⟨hg, hf, hkey⟩
    have hblurred := (orderKey_eq_iff (hnumerals f hf) (hnumerals g hg)).1 hkey
    obtain ⟨hresource, hremediation⟩ := hall f hf g hg hblurred
    exact ⟨rfl, rfl, hblurred.checkId, hblurred.severity, hblurred.title, hblurred.description, hresource, hremediation,
      hblurred.evidence, hblurred.externalReferences⟩

end Orders

def weakKey (resource : Option String) : NormalizedFinding where
  checkId := "dnssec.zone"
  severity := .low
  title := "Weak key"
  description := ""
  affectedResource := resource
  evidence := some [("dnskey", .num "20326"), ("tag", .num "-1.5")]

def weakKeys (resources : List (Option String)) : ModuleResult where
  schemaVersion := "dnssec/1.0"
  rawOutput := []
  findings := resources.map weakKey

theorem stored_order_iff_of_weakKeys :
    OrderFree (weakKeys [some "example.", none]) 1 none ↔
      ∀ f ∈ (weakKeys [some "example.", none]).findings, ∀ g ∈ (weakKeys [some "example.", none]).findings, f.Blurred g →
        f.affectedResource = g.affectedResource ∧ f.remediation = g.remediation := by
  refine stored_order_iff _ 1 none ?_
  intro f hf e he
  obtain ⟨resource, -, rfl⟩ := List.mem_map.1 hf
  obtain rfl := Option.some.inj he
  decide

/-- One without a resource and one with an empty resource are stored in the order in which they were found. -/
theorem missing_resource_breaks_order : ¬ OrderFree (weakKeys [none, some ""]) 1 none := by
  intro hfree
  have hkey : orderKey (weakKey none) = orderKey (weakKey (some "")) := rfl
  have hpair : ∀ f g : NormalizedFinding, orderKey f = orderKey g → orderFindings [f, g] = [f, g] := by
    intro f g h
    unfold orderFindings
    rw [List.insertionSort_cons, List.insertionSort_cons, List.insertionSort_nil, List.orderedInsert_nil, List.orderedInsert,
      if_pos (h ▸ orderLE_refl (orderKey f))]
  have hrows := hfree [weakKey (some ""), weakKey none] (List.Perm.swap _ _ _)
  rw [findingRows, findingRows, show (weakKeys [none, some ""]).findings = [weakKey none, weakKey (some "")] from rfl,
    hpair _ _ hkey, hpair _ _ hkey.symm] at hrows
  have hfirst := (List.forall₂_cons.1 hrows).1.affectedResource
  cases hfirst

end TestingPlatform
