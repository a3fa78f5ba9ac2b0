import TestingPlatform.Lib.Fallible
import TestingPlatform.Modules.Values

/-!
# Vocabularies and check identifiers

The rules that the module mappings share: `EngineVocabulary` and its tables (`modules/normalization/severity.py`),
`validate_check_id` (`modules/normalization/findings.py`), and the findings that a mapping builds from a report.
-/

namespace TestingPlatform

/-! ### Vocabularies -/

/-- What construction leaves of a declared table: folded keys, none empty and none twice. -/
structure EngineVocabulary (T : PyText) where
  name : String
  table : List (String × FindingSeverity)
  named : Text.blank name = false
  table_nonempty : table ≠ []
  keys_folded : ∀ e ∈ table, T.fold e.1 = e.1
  keys_nonempty : ∀ e ∈ table, e.1 ≠ ""
  keys_nodup : (table.map (·.1)).Nodup

section Vocabulary
variable {T : PyText}

def EngineVocabulary.mapSeverity (v : EngineVocabulary T) (engineSeverity : String) : Except PyException FindingSeverity :=
  match v.table.find? fun e => e.1 == T.fold engineSeverity with
  | some e => .ok e.2
  | none => .error (.valueError (T.reprStr engineSeverity ++ " has no severity mapping in the " ++ T.reprStr v.name ++
      " vocabulary; the module must map it explicitly."))

variable (v : EngineVocabulary T) {s : String} {severity : FindingSeverity}

theorem EngineVocabulary.mapSeverity_eq_ok : v.mapSeverity s = .ok severity ↔ (T.fold s, severity) ∈ v.table := by
  unfold mapSeverity
  split
  · next e he =>
    have hkey : e.1 = T.fold s := by simpa using List.find?_some he
    have hmem := List.mem_of_find?_eq_some he
    rw [Except.ok.injEq, ← hkey]
    constructor
    · rintro rfl
      exact hmem
    · intro h
      have hsame := List.inj_on_of_nodup_map v.keys_nodup hmem h rfl
      rw [hsame]
  · next hnone =>
    refine iff_of_false (fun h => by cases h) fun h => ?_
    have hkey := List.find?_eq_none.1 hnone _ h
    simp at hkey

/-- A value outside the table is a `ValueError`, and nothing else is. -/
theorem EngineVocabulary.mapSeverity_eq_error {exc : PyException} (h : v.mapSeverity s = .error exc) :
    (∀ e ∈ v.table, e.1 ≠ T.fold s) ∧ ∃ text, exc = .valueError text := by
  unfold mapSeverity at h
  split at h
  · cases h
  · next hnone =>
    refine ⟨fun e he => ?_, _, (Except.error.inj h).symm⟩
    simpa using List.find?_eq_none.1 hnone e he

def EngineVocabulary.Knows (s : String) : Prop := ∃ e ∈ v.table, e.1 = T.fold s

theorem EngineVocabulary.knows_iff : v.Knows s ↔ ∃ severity, v.mapSeverity s = .ok severity := by
  simp only [mapSeverity_eq_ok]
  constructor
  · rintro ⟨⟨key, severity⟩, he, rfl⟩
    exact ⟨severity, he⟩
  · rintro ⟨severity, h⟩
    exact ⟨_, h, rfl⟩

end Vocabulary

section Tables
variable (T : PyText)

def chainvalidatorStatus : EngineVocabulary T where
  name := "chainvalidator-status"
  table := [("secure", .info), ("insecure", .medium), ("bogus", .high), ("error", .low)]
  named := by decide
  table_nonempty := by simp
  keys_folded e he := T.fold_plain (by revert e; decide)
  keys_nonempty := by decide
  keys_nodup := by decide

def quantumvalidatorStatus : EngineVocabulary T where
  name := "quantumvalidator-status"
  table := [("pass", .info), ("info", .info), ("safe", .info), ("fail", .medium), ("unsafe", .medium), ("error", .low)]
  named := by decide
  table_nonempty := by simp
  keys_folded e he := T.fold_plain (by revert e; decide)
  keys_nonempty := by decide
  keys_nodup := by decide

end Tables

/-! ### Check identifiers -/

def validateCheckId (T : PyText) (checkId moduleNamespace : String) : Except PyException String :=
  let namespaceDot := moduleNamespace ++ "."
  if !Text.namespaced checkId then
    .error (.valueError ("check_id " ++ T.reprStr checkId ++
      " is not namespaced text of the form '<module>.<rule>' (lowercase segments joined by dots)."))
  else if !namespaceDot.toList.isPrefixOf checkId.toList then
    .error (.valueError ("check_id " ++ T.reprStr checkId ++ " does not carry its module's namespace " ++
      T.reprStr namespaceDot ++ "."))
  else .ok checkId

/-- Segments of `[a-z0-9_]` joined by dots; one is enough. -/
def dotted (s : String) : Bool :=
  (s.toList.splitOn '.').all fun seg =>
    !seg.isEmpty && seg.all fun c => ('a' ≤ c && c ≤ 'z') || ('0' ≤ c && c ≤ '9') || c = '_'

theorem namespaced_append (p s : String) : Text.namespaced (p ++ "." ++ s) = (dotted p && dotted s) := by
  have hsplit : (p ++ "." ++ s).toList.splitOn '.' = p.toList.splitOn '.' ++ s.toList.splitOn '.' := by
    rw [String.toList_append, String.toList_append, List.append_assoc]
    exact List.splitOn_append_cons_self p.toList s.toList
  have htwo : 2 ≤ (p.toList.splitOn '.' ++ s.toList.splitOn '.').length := by
    have hp := List.length_pos_iff.2 (List.splitOn_ne_nil '.' p.toList)
    have hs := List.length_pos_iff.2 (List.splitOn_ne_nil '.' s.toList)
    rw [List.length_append]
    omega
  rw [Text.namespaced, hsplit, decide_eq_true htwo, List.all_append, Bool.true_and]
  rfl

/-- An identifier that extends one of the module is accepted when what is added is dotted segments. -/
theorem validateCheckId_append (T : PyText) {moduleNamespace base name : String} (hbase : dotted base = true)
    (hns : (moduleNamespace ++ ".").toList.isPrefixOf base.toList = true) :
    (∃ id, validateCheckId T (base ++ "." ++ name) moduleNamespace = .ok id) ↔ dotted name = true := by
  have hbegins : (moduleNamespace ++ ".").toList.isPrefixOf (base ++ "." ++ name).toList = true := by
    rw [List.isPrefixOf_iff_prefix] at hns ⊢
    rw [String.append_assoc, String.toList_append (s := base)]
    exact hns.trans (List.prefix_append _ _)
  rw [validateCheckId, namespaced_append, hbase, Bool.true_and]
  simp only [hbegins]
  cases dotted name <;> simp

/-! ### Findings of a mapping -/

/-- A `NormalizedFinding` as a mapping builds it. The dataclass does not check the type of the resource, which is
taken from the report as it is. -/
structure EngineFinding where
  checkId : String
  severity : FindingSeverity
  title : String
  description : String
  affectedResource : Option Json
  evidence : List (String × Json)
  checkId_nonempty : checkId ≠ ""
  title_nonempty : title ≠ ""

theorem append_nonempty {a b : String} (h : a ≠ "") : a ++ b ≠ "" := by
  intro he
  exact h (String.append_eq_empty_iff.1 he).1

theorem append_ne_of_take {a b : String} (n : ℕ) (h : n ≤ a.toList.length ∧ n ≤ b.toList.length ∧
    a.toList.take n ≠ b.toList.take n) (s s' : String) : a ++ s ≠ b ++ s' := by
  obtain ⟨ha, hb, hne⟩ := h
  intro he
  have htake := congrArg (fun t => t.toList.take n) he
  simp only [String.toList_append, List.take_append_of_le_length ha, List.take_append_of_le_length hb] at htake
  exact hne htake

/-- `value or None`. -/
def orNone (v : Json) : Option Json := if v.truthy then some v else none

/-- The truthy subset of `source` under `keys`. -/
def evidenceOf (source : List (String × Json)) (keys : List String) : List (String × Json) :=
  keys.filterMap fun key =>
    let value := Json.getD source key .null
    if value.truthy then some (key, value) else none

/-- `str(source.get(key, default)).strip().lower()`. -/
def foldedText (T : PyText) (source : List (String × Json)) (key default : String) : String :=
  T.fold (T.str (Json.getD source key (.str default)))

@[simp] theorem foldedText_fold (T : PyText) (source : List (String × Json)) (key default : String) :
    T.fold (foldedText T source key default) = foldedText T source key default := T.fold_fold _

/-- Where the key is there the default does not matter; where it is not, the text is the default. -/
theorem foldedText_cases (T : PyText) (source : List (String × Json)) (key : String) :
    (∃ text, ∀ default, foldedText T source key default = text) ∨
      ∀ default, foldedText T source key default = T.fold default := by
  unfold foldedText Json.getD
  cases (source.find? fun m => m.1 == key).map (·.2) with
  | none => exact .inr fun default => rfl
  | some v => exact .inl ⟨T.fold (T.str v), fun default => rfl⟩

/-- A word that is neither default is read from the source. -/
theorem foldedText_eq_iff (T : PyText) {source : List (String × Json)} {key d d' word : String}
    (h : T.fold d ≠ word) (h' : T.fold d' ≠ word) :
    foldedText T source key d = word ↔ foldedText T source key d' = word := by
  rcases foldedText_cases T source key with ⟨text, hall⟩ | hall
  · rw [hall, hall]
  · rw [hall, hall]
    exact iff_of_false h h'

/-- `sum(1 for item in items if _status(item) == status)`. -/
def countStatus (T : PyText) (items : Json) (status : String) : Except PyException ℕ := do
  let items ← items.iter
  let statuses ← items.mapM fun item => item.members.map fun item => foldedText T item "status" ""
  return statuses.countP (· = status)

theorem mapM_status (T : PyText) (ms : List (List (String × Json))) :
    ((ms.map Json.obj).mapM fun item => item.members.map fun item => foldedText T item "status" "") =
      .ok (ms.map fun item => foldedText T item "status" "") := by
  rw [Fallible.mapM_eq_ok, List.forall₂_map_left_iff, List.forall₂_map_right_iff]
  exact List.forall₂_same.2 fun item _ => rfl

theorem countStatus_eq {T : PyText} {items : Json} {ms : List (List (String × Json))} (h : items.iter = .ok (ms.map .obj))
    (status : String) :
    countStatus T items status = .ok (ms.countP fun item => foldedText T item "status" "" = status) := by
  simp only [countStatus, Fallible.bind_eq_ok]
  refine ⟨_, h, _, mapM_status T ms, ?_⟩
  rw [List.countP_map]
  rfl

/-- A `ValueError`. -/
def Refused {α : Type} (x : Except PyException α) : Prop := ∃ text, x = .error (.valueError text)

theorem not_refused_ok {α : Type} {x : Except PyException α} {a : α} (h : x = .ok a) : ¬ Refused x := by
  rintro ⟨text, ht⟩
  rw [h] at ht
  cases ht

theorem refused_bind_iff {α β : Type} {x : Except PyException α} {f : α → Except PyException β} :
    Refused (x >>= f) ↔ Refused x ∨ ∃ a, x = .ok a ∧ Refused (f a) := by
  simp only [Refused, Fallible.bind_eq_error]
  constructor
  · rintro ⟨text, hx | ⟨a, hx, hf⟩⟩
    · exact .inl ⟨text, hx⟩
    · exact .inr ⟨a, hx, text, hf⟩
  · rintro (⟨text, hx⟩ | ⟨a, hx, text, hf⟩)
    · exact ⟨text, .inl hx⟩
    · exact ⟨text, .inr ⟨a, hx, hf⟩⟩

/-- The computation ends in a value, or in a refusal, which `p` decides. -/
structure RefusedWhen {α : Type} (x : Except PyException α) (p : Prop) : Prop where
  ends : (∃ a, x = .ok a) ∨ Refused x
  refused_iff : Refused x ↔ p

namespace RefusedWhen
variable {α β : Type} {x : Except PyException α} {f : α → Except PyException β} {p q : Prop}

theorem ok (a : α) : RefusedWhen (.ok a) False := ⟨.inl ⟨a, rfl⟩, iff_of_false (not_refused_ok rfl) id⟩

theorem congr (h : RefusedWhen x p) (hpq : p ↔ q) : RefusedWhen x q := ⟨h.ends, h.refused_iff.trans hpq⟩

theorem refused_bind_iff (h : RefusedWhen x p) (hf : ∀ a, x = .ok a → (Refused (f a) ↔ q)) :
    Refused (x >>= f) ↔ p ∨ q := by
  rcases h.ends with ⟨a, rfl⟩ | ⟨text, rfl⟩
  · have hp : ¬ p := fun hp => not_refused_ok rfl (h.refused_iff.2 hp)
    rw [or_iff_right hp]
    exact hf a rfl
  · exact iff_of_true ⟨text, rfl⟩ (.inl (h.refused_iff.1 ⟨text, rfl⟩))

theorem bind (h : RefusedWhen x p) (hf : ∀ a, x = .ok a → RefusedWhen (f a) q) : RefusedWhen (x >>= f) (p ∨ q) := by
  refine ⟨?_, h.refused_bind_iff fun a ha => (hf a ha).refused_iff⟩
  rcases h.ends with ⟨a, rfl⟩ | ⟨text, rfl⟩
  · exact (hf a rfl).ends
  · exact .inr ⟨text, rfl⟩

theorem exists_error_iff (h : RefusedWhen x p) : (∃ exc, x = .error exc) ↔ p := by
  rw [← h.refused_iff]
  constructor
  · rintro ⟨exc, hx⟩
    rcases h.ends with ⟨a, ha⟩ | hr
    · rw [ha] at hx
      cases hx
    · exact hr
  · rintro ⟨text, hx⟩
    exact ⟨_, hx⟩

theorem mapM {l : List α} {p : α → Prop} (h : ∀ a ∈ l, RefusedWhen (f a) (p a)) :
    RefusedWhen (l.mapM f) (∃ a ∈ l, p a) := by
  cases hl : l.mapM f with
  | ok r =>
    refine ⟨.inl ⟨r, rfl⟩, iff_of_false (not_refused_ok rfl) ?_⟩
    rintro ⟨a, ha, hp⟩
    obtain ⟨b, -, hb⟩ := Fallible.exists_of_mapM_ok_of_mem hl ha
    exact not_refused_ok hb ((h a ha).refused_iff.2 hp)
  | error exc =>
    obtain ⟨before, a, after, rfl, -, ha⟩ := Fallible.mapM_eq_error.1 hl
    have hmem : a ∈ before ++ a :: after := by simp
    have hrefused : Refused (f a) := by
      rcases (h a hmem).ends with ⟨b, hb⟩ | hr
      · rw [ha] at hb
        cases hb
      · exact hr
    have hall : Refused (.error exc : Except PyException (List β)) := by
      obtain ⟨text, ht⟩ := hrefused
      rw [ha] at ht
      obtain rfl := Except.error.inj ht
      exact ⟨text, rfl⟩
    exact ⟨.inr hall, iff_of_true hall ⟨a, hmem, (h a hmem).refused_iff.1 hrefused⟩⟩

end RefusedWhen

/-- The member is there, and its text is no word of the vocabulary. -/
def Unknown {T : PyText} (v : EngineVocabulary T) (source : List (String × Json)) (key : String) : Prop :=
  ∃ m ∈ source.find? fun m => m.1 == key, ¬ v.Knows (T.str m.2)

theorem knows_foldedText {T : PyText} (v : EngineVocabulary T) {source : List (String × Json)} {key default : String}
    (hdefault : v.Knows default) : v.Knows (foldedText T source key default) ↔ ¬ Unknown v source key := by
  unfold Unknown foldedText Json.getD
  cases source.find? fun m => m.1 == key with
  | none => simpa [EngineVocabulary.Knows, PyText.str] using hdefault
  | some m => simp [EngineVocabulary.Knows]

/-- With a default that is a word of the vocabulary, only a member that is unknown is refused. -/
theorem mapSeverity_foldedText {T : PyText} (v : EngineVocabulary T) {source : List (String × Json)} {key default : String}
    (hdefault : v.Knows default) : RefusedWhen (v.mapSeverity (foldedText T source key default)) (Unknown v source key) := by
  have hknows : v.Knows (foldedText T source key default) ↔ ¬ Unknown v source key := knows_foldedText v hdefault
  cases hs : v.mapSeverity (foldedText T source key default) with
  | ok severity =>
    refine ⟨.inl ⟨severity, rfl⟩, iff_of_false (not_refused_ok rfl) ?_⟩
    exact hknows.1 (v.knows_iff.2 ⟨severity, hs⟩)
  | error exc =>
    obtain ⟨hno, text, rfl⟩ := v.mapSeverity_eq_error hs
    have hunknown : Unknown v source key := by
      by_contra hk
      obtain ⟨e, he, heq⟩ := hknows.2 hk
      exact hno e he heq
    exact ⟨.inr ⟨text, rfl⟩, iff_of_true ⟨text, rfl⟩ hunknown⟩

end TestingPlatform
