import TestingPlatform.Api.Documents

/-!
# The served OpenAPI document

What `core/errors.py` and `core/openapi.py` make of the document that FastAPI generates and caches: error bodies become
problem details, validation models that nothing mentions any more go, and models that only a handwritten schema mentions come
in. The passes run again whenever the document is asked for, on the document they have rewritten.
-/

namespace TestingPlatform.OpenApi

open Json

abbrev Members := List (String × Json)

def problemMediaType : String := "application/problem+json"

def schemaRef (name : String) : String := "#/components/schemas/" ++ name

def problemRef : String := "#/components/schemas/ProblemDetail"

def validationRef : String := "#/components/schemas/HTTPValidationError"

def fastapiValidationSchemas : List String := ["HTTPValidationError", "ValidationError"]

/-- `d.pop(k)` and `del d[k]`. -/
def erase (members : Members) (k : String) : Members := members.filter fun m => m.1 ≠ k

/-- `d.setdefault(k, v)`. -/
def setdefault (members : Members) (m : String × Json) : Members :=
  if members.any fun m' => m'.1 = m.1 then members else members ++ [m]

/-- `value.get(k, {})`. -/
def getOrEmpty (k : String) (v : Json) : Json := (reached [.get k] v).headD (.obj [])

/-- `_responses`. -/
def responses : List Hop := [.get "paths", .values, .values, .ifDict, .get "responses", .values, .ifDict]

/-- `json_body and json_body.get("schema", {}).get("$ref") == ref`. -/
def bodyRefers (ref : String) (content : Members) : Except PyException Bool :=
  match content.lookup "application/json" with
  | none => .ok false
  | some body =>
    if body.truthy then do
      let body ← body.members
      let schema ← ((body.lookup "schema").getD (.obj [])).members
      return match schema.lookup "$ref" with
        | some (.str r) => r = ref
        | _ => false
    else .ok false

/-- The body of a pass over the responses: those whose JSON body is the reference are rewritten. -/
def onJsonBody (ref : String) (rewritten : Members → Members → Members) (response : Json) : Except PyException Json := do
  let members ← response.members
  match members.lookup "content" with
  | none => return response
  | some content =>
    if content.truthy then do
      let content ← content.members
      let refers ← bodyRefers ref content
      return if refers then .obj (rewritten members content) else response
    else return response

/-- The JSON body of the content moves to the problem media type. -/
def relabelled (response content : Members) : Members :=
  let body := (content.lookup "application/json").getD .null
  assign response "content" (.obj (assign (erase content "application/json") problemMediaType body))

/-- A problem detail in place of the JSON body, and the phrase of 422 as the description. -/
def replaced (response content : Members) : Members :=
  let body := .obj [("schema", .obj [("$ref", .str problemRef)])]
  assign (assign response "content" (.obj (assign (erase content "application/json") problemMediaType body)))
    "description" (.str "Unprocessable Content")

def relabelProblemMediaType (doc : Json) : Except PyException Json := revise (onJsonBody problemRef relabelled) responses doc

def replaceDefaultValidationBody (doc : Json) : Except PyException Json := revise (onJsonBody validationRef replaced) responses doc

def schemas : List Hop := [.get "components", .get "schemas"]

/-- What a schema has to be mentioned in to stay. -/
def remaining (paths : Json) (components : Members) : Json := .obj [("paths", paths), ("schemas", .obj components)]

/-- One turn of the loop of `_prune_unreferenced_schemas`. -/
def pruneOne (paths : Json) (components : Members) (name : String) : Members :=
  if components.any fun m => m.1 = name then
    if mentions (schemaRef name) (remaining paths (erase components name)) then components else erase components name
  else components

def pruned (names : List String) (paths components : Json) : Except PyException Json :=
  if components.truthy then do
    let members ← components.members
    return .obj (names.foldl (pruneOne paths) members)
  else return components

def pruneUnreferencedSchemas (names : List String) (doc : Json) : Except PyException Json :=
  revise (pruned names (getOrEmpty "paths" doc)) schemas doc

/-- `doc.setdefault(k, {})`. -/
def ensure (k : String) (doc : Json) : Except PyException Json := do
  let members ← doc.members
  return .obj (setdefault members (k, .obj []))

def addDefinitions (definitions : Members) (components : Json) : Except PyException Json := do
  let members ← components.members
  return .obj (definitions.foldl setdefault members)

/-- The body of `openapi` in `register_component_schemas`, over the definitions of the registered models. -/
def registerComponentSchemas (definitions : Members) (doc : Json) : Except PyException Json := do
  let doc ← ensure "components" doc
  revise (fun components => do revise (addDefinitions definitions) [.get "schemas"] (← ensure "schemas" components))
    [.get "components"] doc

/-- The body of `openapi` in `configure_openapi`. -/
def configured (doc : Json) : Except PyException Json := do
  let doc ← relabelProblemMediaType doc
  let doc ← replaceDefaultValidationBody doc
  pruneUnreferencedSchemas fastapiValidationSchemas doc

/-- `app.openapi()`, as `main.py` assembles it, over the document in the cache. -/
def served (definitions : Members) (doc : Json) : Except PyException Json := do
  registerComponentSchemas definitions (← configured doc)

/-! ### Dictionaries -/

section Dictionaries
variable {members definitions : Members} {k k' s : String} {v : Json} {m : String × Json}

theorem lookup_member : (m :: members).lookup k = if m.1 = k then some m.2 else members.lookup k := by
  obtain ⟨k', v⟩ := m
  by_cases hk : k' = k
  · simp [hk]
  · have hne : (k == k') = false := beq_false_of_ne fun heq => hk heq.symm
    rw [List.lookup_cons, hne, if_neg hk]

theorem lookup_eq_none : members.lookup k = none ↔ ∀ m ∈ members, m.1 ≠ k := by
  induction members with
  | nil => simp
  | cons m ms ih =>
    rw [lookup_member]
    split <;> simp_all

theorem lookup_append {members' : Members} : (members ++ members').lookup k = (members.lookup k).or (members'.lookup k) :=
  List.lookup_append

theorem lookup_assign_of_ne (h : k ≠ k') : (assign members k' v).lookup k = members.lookup k := by
  unfold assign
  split
  next =>
    have hmap : ∀ ms : Members, (ms.map fun m => if m.1 = k' then (k', v) else m).lookup k = ms.lookup k := by
      intro ms
      induction ms with
      | nil => rfl
      | cons m ms ih =>
        rw [List.map_cons, lookup_member, lookup_member, ih]
        by_cases hm : m.1 = k'
        · rw [if_pos hm, if_neg h.symm, if_neg (hm ▸ h.symm)]
        · rw [if_neg hm]
    exact hmap members
  · simp [lookup_append, lookup_member, h.symm]

theorem lookup_assign_self : (assign members k v).lookup k = some v := by
  unfold assign
  split
  next hany =>
    induction members with
    | nil => cases hany
    | cons m ms ih =>
      rw [List.map_cons, lookup_member]
      by_cases hm : m.1 = k
      · simp [hm]
      · rw [if_neg hm, if_neg hm]
        exact ih (by simpa [hm] using hany)
  next hany =>
    have hnone : members.lookup k = none := lookup_eq_none.2 fun m hm hk =>
      hany (List.any_eq_true.2 ⟨m, hm, beq_iff_eq.2 hk⟩)
    simp [lookup_append, hnone]

theorem lookup_erase_self : (erase members k).lookup k = none :=
  lookup_eq_none.2 fun _ hm => by simpa using (List.mem_filter.1 hm).2

theorem lookup_erase_of_ne (h : k ≠ k') : (erase members k').lookup k = members.lookup k := by
  induction members with
  | nil => rfl
  | cons m ms ih =>
    unfold erase at ih ⊢
    by_cases hm : m.1 = k'
    · rw [List.filter_cons_of_neg (by simpa using hm), lookup_member, if_neg (hm ▸ h.symm), ih]
    · rw [List.filter_cons_of_pos (by simpa using hm), lookup_member, lookup_member, ih]

theorem mem_assign (h : m ∈ assign members k v) : m = (k, v) ∨ m ∈ members := by
  unfold assign at h
  split at h
  · obtain ⟨m', hm', rfl⟩ := List.mem_map.1 h
    split
    · exact .inl rfl
    · exact .inr hm'
  · rcases List.mem_append.1 h with h | h
    · exact .inr h
    · exact .inl (List.mem_singleton.1 h)

theorem lookup_setdefault : (setdefault members m).lookup k = (members.lookup k).or ([m].lookup k) := by
  unfold setdefault
  split
  next hany =>
    rw [lookup_member]
    split
    next hk =>
      have hsome : members.lookup k ≠ none := fun hnone => by
        obtain ⟨m', hm', hname⟩ := List.any_eq_true.1 hany
        exact lookup_eq_none.1 hnone m' hm' ((of_decide_eq_true hname).trans hk)
      obtain ⟨w, hw⟩ := Option.ne_none_iff_exists'.1 hsome
      rw [hw, Option.some_or]
    · simp
  · exact lookup_append

theorem lookup_foldl_setdefault : (definitions.foldl setdefault members).lookup k = (members.lookup k).or (definitions.lookup k) := by
  induction definitions generalizing members with
  | nil => simp
  | cons m ms ih => rw [List.foldl_cons, ih, lookup_setdefault, Option.or_assoc, ← lookup_append, List.singleton_append]

theorem setdefault_self (h : members.lookup m.1 ≠ none) : setdefault members m = members := by
  unfold setdefault
  split
  · rfl
  next hany => exact absurd (lookup_eq_none.2 fun m' hm' hname => hany (List.any_eq_true.2 ⟨m', hm', decide_eq_true hname⟩)) h

theorem foldl_setdefault_self (h : ∀ m ∈ definitions, members.lookup m.1 ≠ none) : definitions.foldl setdefault members = members := by
  induction definitions with
  | nil => rfl
  | cons m ms ih =>
    rw [List.foldl_cons, setdefault_self (h m List.mem_cons_self)]
    exact ih fun m' hm' => h m' (List.mem_cons_of_mem _ hm')

theorem mem_setdefault {m' : String × Json} (h : m' ∈ setdefault members m) : m' ∈ members ∨ m' = m := by
  unfold setdefault at h
  split at h
  · exact .inl h
  · simpa using h

theorem mem_foldl_setdefault (h : m ∈ definitions.foldl setdefault members) : m ∈ members ∨ m ∈ definitions := by
  induction definitions generalizing members with
  | nil => exact .inl h
  | cons d ds ih =>
    rcases ih h with h | h
    · rcases mem_setdefault h with h | rfl
      · exact .inl h
      · exact .inr List.mem_cons_self
    · exact .inr (List.mem_cons_of_mem _ h)

theorem subset_foldl_setdefault : members ⊆ definitions.foldl setdefault members := by
  induction definitions generalizing members with
  | nil => exact List.Subset.refl _
  | cons d ds ih =>
    have hd : members ⊆ setdefault members d := by
      unfold setdefault
      split
      · exact List.Subset.refl _
      · exact List.subset_append_left _ _
    exact List.Subset.trans hd ih

theorem mem_of_lookup (h : members.lookup k = some v) : (k, v) ∈ members := by
  induction members with
  | nil => cases h
  | cons m ms ih =>
    rw [lookup_member] at h
    split at h
    next hk =>
      cases h
      exact hk ▸ List.mem_cons_self
    · exact List.mem_cons_of_mem _ (ih h)

end Dictionaries

/-! ### One response -/

def member? (k : String) : Json → Option Json
  | .obj members => members.lookup k
  | _ => none

/-- What the schema of a JSON body refers to. -/
def bodyRef (content : Json) : Option Json :=
  (member? "application/json" content).bind fun body => (member? "schema" body).bind (member? "$ref")

def jsonBodyRef (response : Json) : Option Json := (member? "content" response).bind bodyRef

/-- The schema of a JSON body, if there is one, is a dictionary, and so is what it lies in. -/
def BodyFits (content : Json) : Prop :=
  (∃ members, content = .obj members) ∧ ∀ body, member? "application/json" content = some body → body.truthy = true →
    (∃ members, body = .obj members) ∧ ∀ schema, member? "schema" body = some schema → ∃ members, schema = .obj members

def ResponseFits (response : Json) : Prop :=
  (∃ members, response = .obj members) ∧ ∀ content, member? "content" response = some content → content.truthy = true →
    BodyFits content

section Responses
variable {ref : String} {members content : Members} {v response response' : Json} {rewritten : Members → Members → Members}

theorem member?_of_not_truthy {k : String} (h : ¬ v.truthy = true) : member? k v = none := by
  cases v with
  | obj members =>
    cases members with
    | nil => rfl
    | cons => exact absurd rfl h
  | _ => rfl

theorem members_obj : Json.members (.obj members) = .ok members := rfl

theorem ok_bind {α β : Type} {a : α} {f : α → Except PyException β} : (Except.ok a >>= f) = f a := rfl

theorem bodyRefers_of_fits (ref : String) (h : BodyFits (.obj content)) :
    (bodyRefers ref content = .ok true ∧ bodyRef (.obj content) = some (.str ref)) ∨
      bodyRefers ref content = .ok false ∧ bodyRef (.obj content) ≠ some (.str ref) := by
  unfold bodyRefers
  cases hbody : content.lookup "application/json" with
  | none => exact .inr ⟨rfl, by simp [bodyRef, member?, hbody]⟩
  | some body =>
    have hof : bodyRef (.obj content) = (member? "schema" body).bind (member? "$ref") := by simp [bodyRef, member?, hbody]
    rw [hof]
    dsimp only
    split
    next htruthy =>
      obtain ⟨⟨members, rfl⟩, hschema⟩ := h.2 body hbody htruthy
      cases hs : members.lookup "schema" with
      | none => exact .inr ⟨by rw [members_obj, ok_bind, hs]; rfl, by simp [member?, hs]⟩
      | some schema =>
        obtain ⟨ms, rfl⟩ := hschema schema hs
        rw [members_obj, ok_bind, hs, Option.getD_some, members_obj, ok_bind]
        simp only [hs, member?, Option.bind_some]
        split
        next r hr => by_cases hrr : r = ref <;> simp [hr, hrr, pure, Except.pure]
        next hno => exact .inr ⟨rfl, fun hr => hno ref hr⟩
    next hfalsy => exact .inr ⟨rfl, by rw [member?_of_not_truthy hfalsy]; simp⟩

/-- Only a response whose JSON body is the reference is rewritten. -/
theorem onJsonBody_of_fits (ref : String) (rewritten : Members → Members → Members) (h : ResponseFits response) :
    (jsonBodyRef response ≠ some (.str ref) ∧ onJsonBody ref rewritten response = .ok response) ∨
      jsonBodyRef response = some (.str ref) ∧ ∃ members content, onJsonBody ref rewritten response = .ok (.obj (rewritten members content)) := by
  obtain ⟨⟨members, rfl⟩, hcontent⟩ := h
  unfold onJsonBody
  rw [members_obj, ok_bind]
  cases hc : members.lookup "content" with
  | none => exact .inl ⟨by simp [jsonBodyRef, member?, hc], rfl⟩
  | some content =>
    have hof : jsonBodyRef (.obj members) = bodyRef content := by simp [jsonBodyRef, member?, hc]
    rw [hof]
    dsimp only
    split
    next htruthy =>
      obtain ⟨ms, rfl⟩ := (hcontent content hc htruthy).1
      rw [members_obj, ok_bind]
      rcases bodyRefers_of_fits ref (hcontent _ hc htruthy) with ⟨hrefers, hbody⟩ | ⟨hrefers, hbody⟩
      · exact .inr ⟨hbody, members, ms, by rw [hrefers]; rfl⟩
      · exact .inl ⟨hbody, by rw [hrefers]; rfl⟩
    next hfalsy => exact .inl ⟨by simp [bodyRef, member?_of_not_truthy hfalsy], rfl⟩

/-- Without a JSON body there is nothing left to rewrite. -/
theorem settled_of_no_body (hcontent : members.lookup "content" = some (.obj content)) (hnone : content.lookup "application/json" = none) :
    jsonBodyRef (.obj members) = none ∧ ResponseFits (.obj members) := by
  refine ⟨by simp [jsonBodyRef, bodyRef, member?, hcontent, hnone], ⟨members, rfl⟩, fun c hc _ => ?_⟩
  obtain rfl := Option.some.inj (hcontent.symm.trans hc)
  exact ⟨⟨content, rfl⟩, fun body hbody => by simp [member?, hnone] at hbody⟩

/-- The content without its JSON body. -/
theorem settled_of_erased (content : Members) (body : Json) (hcontent : members.lookup "content" =
    some (.obj (assign (erase content "application/json") problemMediaType body))) :
    jsonBodyRef (.obj members) = none ∧ ResponseFits (.obj members) := by
  refine settled_of_no_body hcontent ?_
  rw [lookup_assign_of_ne (by decide), lookup_erase_self]

theorem settled_relabelled (members content : Members) : jsonBodyRef (.obj (relabelled members content)) = none ∧
    ResponseFits (.obj (relabelled members content)) := by
  refine settled_of_erased content ((content.lookup "application/json").getD .null) ?_
  rw [relabelled, lookup_assign_self]

theorem settled_replaced (members content : Members) : jsonBodyRef (.obj (replaced members content)) = none ∧
    ResponseFits (.obj (replaced members content)) := by
  refine settled_of_erased content (.obj [("schema", .obj [("$ref", .str problemRef)])]) ?_
  rw [replaced, lookup_assign_of_ne (by decide), lookup_assign_self]

end Responses

/-! ### References -/

/-- It has numbers where the other has, and of the references to schemas those of the other and that to the problem detail. -/
structure Grows (base v : Json) : Prop where
  numerals : numerals base = true → Json.numerals v = true
  refs : ∀ name, schemaRef name ∈ strings v → schemaRef name ∈ strings base ∨ name = "ProblemDetail"

section References
variable {base v w : Json} {k name : String} {members content : Members} {m : String × Json}

theorem schemaRef_inj {name' : String} (h : schemaRef name = schemaRef name') : name = name' := by
  have hlists := congrArg String.toList h
  unfold schemaRef at hlists
  rw [String.toList_append, String.toList_append] at hlists
  exact String.toList_inj.1 (List.append_cancel_left hlists)

theorem ne_schemaRef (h : k.toList.head? ≠ some '#') : k ≠ schemaRef name := by
  rintro rfl
  unfold schemaRef at h
  rw [String.toList_append] at h
  exact h rfl

namespace Grows

theorem refl : Grows v v := ⟨id, fun _ => .inl⟩

theorem trans (hv : Grows base v) (hw : Grows v w) : Grows base w where
  numerals h := hw.numerals (hv.numerals h)
  refs name hname := by
    rcases hw.refs name hname with h | h
    · exact hv.refs name h
    · exact .inr h

theorem obj_iff : Grows base (.obj members) ↔
    ∀ m ∈ members, (∀ name, m.1 = schemaRef name → schemaRef name ∈ strings base ∨ name = "ProblemDetail") ∧ Grows base m.2 := by
  constructor
  · intro h m hm
    refine ⟨fun name hname => h.refs name (mem_strings_obj.2 ⟨m, hm, .inl hname.symm⟩), fun hbase => ?_, fun name hname => ?_⟩
    · exact (numerals_obj_iff members).1 (h.numerals hbase) m hm
    · exact h.refs name (mem_strings_obj.2 ⟨m, hm, .inr hname⟩)
  · refine fun h => ⟨fun hbase => ?_, fun name hname => ?_⟩
    · exact (numerals_obj_iff members).2 fun m hm => (h m hm).2.numerals hbase
    · obtain ⟨m, hm, heq | hin⟩ := mem_strings_obj.1 hname
      · exact (h m hm).1 name heq.symm
      · exact (h m hm).2.refs name hin

theorem member (h : Grows base (.obj members)) (hm : m ∈ members) : Grows base m.2 := (obj_iff.1 h m hm).2

theorem erase (h : Grows base (.obj members)) : Grows base (.obj (erase members k)) :=
  obj_iff.2 fun m hm => obj_iff.1 h m (List.mem_filter.1 hm).1

theorem assign (h : Grows base (.obj members)) (hk : k.toList.head? ≠ some '#') (hv : Grows base v) :
    Grows base (.obj (assign members k v)) := by
  refine obj_iff.2 fun m hm => ?_
  rcases mem_assign hm with rfl | hm
  · exact ⟨fun name hname => absurd hname (ne_schemaRef hk), hv⟩
  · exact obj_iff.1 h m hm

theorem null : Grows base .null := ⟨fun _ => rfl, fun _ hname => by cases hname⟩

theorem str (hk : k.toList.head? ≠ some '#') : Grows base (.str k) :=
  ⟨fun _ => rfl, fun _ hname => absurd (List.mem_singleton.1 hname).symm (ne_schemaRef hk)⟩

theorem problemBody : Grows base (.obj [("schema", .obj [("$ref", .str problemRef)])]) := by
  refine ⟨fun _ => rfl, fun name hname => .inr ?_⟩
  have hstrings : strings (.obj [("schema", .obj [("$ref", .str problemRef)])]) = ["schema", "$ref", problemRef] := rfl
  rw [hstrings] at hname
  simp only [List.mem_cons, List.not_mem_nil, or_false] at hname
  rcases hname with h | h | h
  · exact absurd h.symm (ne_schemaRef (by decide))
  · exact absurd h.symm (ne_schemaRef (by decide))
  · exact schemaRef_inj h

theorem congruent : Congruent Grows where
  refl _ := .refl
  obj members members' hall := by
    refine obj_iff.2 fun m' hm' => ?_
    obtain ⟨m, hm, hname, hgrows⟩ := Fallible.exists_of_forall₂_right hall hm'
    have hbase : Grows (.obj members) (.obj members) := .refl
    exact ⟨fun name h => (obj_iff.1 hbase m hm).1 name (hname.symm.trans h), (hbase.member hm).trans hgrows⟩

end Grows

theorem grows_relabelled (h : members.lookup "content" = some (.obj content)) :
    Grows (.obj members) (.obj (relabelled members content)) := by
  have hcontent : Grows (.obj members) (.obj content) := Grows.refl.member (mem_of_lookup h)
  unfold relabelled
  refine Grows.refl.assign (by decide) (hcontent.erase.assign (by decide) ?_)
  cases hbody : content.lookup "application/json" with
  | none => exact .null
  | some body => exact hcontent.member (mem_of_lookup hbody)

theorem grows_replaced (h : members.lookup "content" = some (.obj content)) :
    Grows (.obj members) (.obj (replaced members content)) := by
  have hcontent : Grows (.obj members) (.obj content) := Grows.refl.member (mem_of_lookup h)
  unfold replaced
  exact (Grows.refl.assign (by decide) (hcontent.erase.assign (by decide) .problemBody)).assign (by decide) (.str (by decide))

end References

/-! ### Passes -/

/-- The document has the paths and the schemas, and what the passes look into is as they expect it. -/
structure Laid (doc paths : Json) (components : Members) : Prop where
  responses : Fits responses doc
  bodies : ∀ response ∈ reached OpenApi.responses doc, ResponseFits response
  schemas : Fits schemas doc
  paths : reached [.get "paths"] doc = [paths]
  components : ∃ holder, reached [.get "components"] doc = [holder] ∧ reached [.get "schemas"] holder = [.obj components]

section Passes
variable {ref name : String} {doc doc' paths v w : Json} {components members content definitions : Members} {names : List String}
  {rewritten : Members → Members → Members}

theorem onJsonBody_cases (h : onJsonBody ref rewritten v = .ok w) : ∃ members, v = .obj members ∧
    (w = v ∨ ∃ content, members.lookup "content" = some (.obj content) ∧ w = .obj (rewritten members content)) := by
  unfold onJsonBody at h
  obtain ⟨members, hmembers, h⟩ := Fallible.bind_eq_ok.1 h
  refine ⟨members, members_eq_ok.1 hmembers, ?_⟩
  split at h
  · exact .inl (Except.ok.inj h).symm
  next content hcontent =>
    split at h
    · obtain ⟨ms, hms, h⟩ := Fallible.bind_eq_ok.1 h
      obtain ⟨refers, -, h⟩ := Fallible.bind_eq_ok.1 h
      have hw := (Except.ok.inj h).symm
      cases refers with
      | false => exact .inl hw
      | true => exact .inr ⟨ms, hcontent.trans (congrArg some (members_eq_ok.1 hms)), hw⟩
    · exact .inl (Except.ok.inj h).symm

theorem keepsDicts_onJsonBody : KeepsDicts (onJsonBody ref rewritten) := by
  intro members w h
  obtain ⟨members, hmembers, rfl | ⟨content, -, rfl⟩⟩ := onJsonBody_cases h
  · exact ⟨members, hmembers⟩
  · exact ⟨_, rfl⟩

theorem get_disjoint {k k' : String} (hne : k' ≠ k) : ∀ name : String, (name == k') = true → (name == k) = false := by
  intro name h
  rw [beq_iff_eq] at h
  exact beq_false_of_ne fun hk => hne (h.symm.trans hk)

theorem exists_of_forall₂_singleton {α β : Type} {R : α → β → Prop} {a : α} {l : List β} (h : List.Forall₂ R [a] l) :
    ∃ b, l = [b] ∧ R a b := by
  cases h with
  | cons hab hrest =>
    cases hrest
    exact ⟨_, rfl, hab⟩

theorem grows_onJsonBody
    (hgrows : ∀ members content, members.lookup "content" = some (.obj content) → Grows (.obj members) (.obj (rewritten members content)))
    (h : onJsonBody ref rewritten v = .ok w) : Grows v w := by
  obtain ⟨members, rfl, rfl | ⟨content, hcontent, rfl⟩⟩ := onJsonBody_cases h
  · exact .refl
  · exact hgrows members content hcontent

/-- A pass over the responses: none is left whose JSON body is the reference, and no other reference comes into one. -/
theorem exists_pass (ref : String)
    (hsettled : ∀ members content, jsonBodyRef (.obj (rewritten members content)) = none ∧ ResponseFits (.obj (rewritten members content)))
    (hgrows : ∀ members content, members.lookup "content" = some (.obj content) → Grows (.obj members) (.obj (rewritten members content)))
    (h : Laid doc paths components) : ∃ doc' paths', revise (onJsonBody ref rewritten) responses doc = .ok doc' ∧
      Laid doc' paths' components ∧ Grows paths paths' ∧ ∀ response' ∈ reached responses doc', jsonBodyRef response' ≠ some (.str ref) ∧
        (jsonBodyRef response' = none ∨ ∃ response ∈ reached responses doc, jsonBodyRef response' = jsonBodyRef response) := by
  obtain ⟨doc', hdoc'⟩ : ∃ doc', revise (onJsonBody ref rewritten) responses doc = .ok doc' := by
    refine exists_revise h.responses fun response hresponse => ?_
    rcases onJsonBody_of_fits ref rewritten (h.bodies response hresponse) with ⟨-, hsame⟩ | ⟨-, _, _, hnew⟩
    · exact ⟨_, hsame⟩
    · exact ⟨_, hnew⟩
  have hbodies : ∀ response' ∈ reached responses doc', ResponseFits response' ∧ jsonBodyRef response' ≠ some (.str ref) ∧
      (jsonBodyRef response' = none ∨ ∃ response ∈ reached responses doc, jsonBodyRef response' = jsonBodyRef response) := by
    intro response' hresponse'
    obtain ⟨response, hresponse, hrevised⟩ :=
      Fallible.exists_of_forall₂_right (forall₂_reached keepsDicts_onJsonBody hdoc') hresponse'
    rcases onJsonBody_of_fits ref rewritten (h.bodies response hresponse) with ⟨hother, hsame⟩ | ⟨-, members, content, hnew⟩
    · obtain rfl := Except.ok.inj (hsame.symm.trans hrevised)
      exact ⟨h.bodies _ hresponse, hother, .inr ⟨_, hresponse, rfl⟩⟩
    · obtain rfl := Except.ok.inj (hnew.symm.trans hrevised)
      obtain ⟨hnone, hfits⟩ := hsettled members content
      exact ⟨hfits, by simp [hnone], .inl hnone⟩
  -- the pass as one over the paths
  have hpaths : revise (revise (onJsonBody ref rewritten) (responses.drop 1)) [.get "paths"] doc = .ok doc' := by
    rw [← revise_append]
    exact hdoc'
  obtain ⟨paths', hpaths', hpath⟩ := exists_of_forall₂_singleton (h.paths ▸ forall₂_reached (keepsDicts_onJsonBody.revise _) hpaths)
  have hapart : ∀ q, reached (.get "components" :: q) doc' = reached (.get "components" :: q) doc ∧
      (Fits (.get "components" :: q) doc → Fits (.get "components" :: q) doc') := fun q =>
    reached_of_disjoint (get_disjoint (by decide : "components" ≠ "paths")) hpaths
  refine ⟨doc', paths', hdoc', ⟨fits_revise h.responses hdoc', fun r hr => (hbodies r hr).1, (hapart _).2 h.schemas, hpaths', ?_⟩,
    revise_rel Grows.congruent (fun _ _ => grows_onJsonBody hgrows) hpath, fun r hr => (hbodies r hr).2⟩
  rw [(hapart []).1]
  exact h.components

theorem Laid.schemas_eq (h : Laid doc paths components) : reached OpenApi.schemas doc = [.obj components] := by
  obtain ⟨holder, hholder, hschemas⟩ := h.components
  show reached ([.get "components"] ++ [.get "schemas"]) doc = _
  rw [reached_append, hholder, List.flatMap_singleton, hschemas]

/-- A pass over the schemas. -/
theorem exists_schemas_pass {f : Json → Except PyException Json} {components' : Members} (hf : KeepsDicts f)
    (h : Laid doc paths components) (hcomponents : f (.obj components) = .ok (.obj components')) :
    ∃ doc', revise f schemas doc = .ok doc' ∧ Laid doc' paths components' ∧ reached responses doc' = reached responses doc := by
  obtain ⟨holder, hholder, hschemas⟩ := h.components
  have hreached : reached schemas doc = [.obj components] := h.schemas_eq
  obtain ⟨doc', hdoc'⟩ : ∃ doc', revise f schemas doc = .ok doc' := by
    refine exists_revise h.schemas fun v hv => ?_
    rw [hreached, List.mem_singleton] at hv
    exact ⟨_, hv ▸ hcomponents⟩
  have hover : revise (revise f [.get "schemas"]) [.get "components"] doc = .ok doc' := by
    rw [← revise_append]
    exact hdoc'
  obtain ⟨holder', hholder', hrevised⟩ := exists_of_forall₂_singleton (hholder ▸ forall₂_reached (hf.revise _) hover)
  obtain ⟨v, hschemas', hv⟩ := exists_of_forall₂_singleton (hschemas ▸ forall₂_reached hf hrevised)
  obtain rfl := Except.ok.inj (hcomponents.symm.trans hv)
  have hapart : ∀ q, reached (.get "paths" :: q) doc' = reached (.get "paths" :: q) doc ∧
      (Fits (.get "paths" :: q) doc → Fits (.get "paths" :: q) doc') := fun q =>
    reached_of_disjoint (get_disjoint (by decide : "paths" ≠ "components")) hover
  have hsame : reached responses doc' = reached responses doc := (hapart _).1
  exact ⟨doc', hdoc', ⟨(hapart _).2 h.responses, hsame ▸ h.bodies, fits_revise h.schemas hdoc', (hapart []).1.trans h.paths,
    holder', hholder', hschemas'⟩, hsame⟩

theorem keepsDicts_pruned : KeepsDicts (pruned names paths) := by
  intro members w h
  unfold pruned at h
  split at h
  · exact ⟨_, (Except.ok.inj h).symm⟩
  · exact ⟨members, (Except.ok.inj h).symm⟩

theorem foldl_pruneOne_nil : names.foldl (pruneOne paths) [] = [] := by
  induction names with
  | nil => rfl
  | cons name names ih => exact ih

theorem exists_prune (names : List String) (h : Laid doc paths components) :
    ∃ doc', pruneUnreferencedSchemas names doc = .ok doc' ∧ Laid doc' paths (names.foldl (pruneOne paths) components) ∧
      reached responses doc' = reached responses doc := by
  have hpaths : getOrEmpty "paths" doc = paths := by rw [getOrEmpty, h.paths, List.headD_cons]
  unfold pruneUnreferencedSchemas
  rw [hpaths]
  refine exists_schemas_pass keepsDicts_pruned h ?_
  cases components with
  | nil => rw [foldl_pruneOne_nil]; rfl
  | cons m ms => rfl

theorem ensure_of_reached {k : String} {q : List Hop} (h : reached (.get k :: q) v ≠ []) : ensure k v = .ok v := by
  cases v with
  | obj members =>
    obtain ⟨a, ha⟩ := List.exists_mem_of_ne_nil _ h
    obtain ⟨m, hm, hk, -⟩ := mem_reached_into.1 ha
    have hany : members.any (fun m' => m'.1 = k) = true := List.any_eq_true.2 ⟨m, hm, by simpa using hk⟩
    rw [ensure, members_obj, ok_bind, setdefault, if_pos hany]
    rfl
  | _ => exact absurd rfl h

theorem registerComponentSchemas_eq (definitions : Members) (h : Laid doc paths components) :
    registerComponentSchemas definitions doc = revise (addDefinitions definitions) schemas doc := by
  obtain ⟨holder, hholder, hschemas⟩ := h.components
  show _ = revise (addDefinitions definitions) ([.get "components"] ++ [.get "schemas"]) doc
  have hdoc : ensure "components" doc = .ok doc := ensure_of_reached (q := []) (by rw [hholder]; simp)
  rw [registerComponentSchemas, hdoc, ok_bind, revise_append]
  refine revise_congr fun v hv => ?_
  rw [hholder, List.mem_singleton] at hv
  have hv' : ensure "schemas" v = .ok v := ensure_of_reached (q := []) (by rw [hv, hschemas]; simp)
  rw [hv', ok_bind]

theorem exists_register (definitions : Members) (h : Laid doc paths components) :
    ∃ doc', registerComponentSchemas definitions doc = .ok doc' ∧ Laid doc' paths (definitions.foldl setdefault components) ∧
      reached responses doc' = reached responses doc := by
  rw [registerComponentSchemas_eq definitions h]
  exact exists_schemas_pass (fun members w h => ⟨_, (Except.ok.inj h).symm⟩) h rfl

/-- Where no response, no schema and no definition has anything left to do, the document stays. -/
theorem served_self (h : Laid doc paths components)
    (hresponses : ∀ response ∈ reached responses doc,
      jsonBodyRef response ≠ some (.str problemRef) ∧ jsonBodyRef response ≠ some (.str validationRef))
    (hpruned : ∀ name ∈ fastapiValidationSchemas, pruneOne paths components name = components)
    (hdefinitions : ∀ m ∈ definitions, components.lookup m.1 ≠ none) : served definitions doc = .ok doc := by
  have pass : ∀ ref rewritten, (∀ response ∈ reached responses doc, jsonBodyRef response ≠ some (.str ref)) →
      revise (onJsonBody ref rewritten) responses doc = .ok doc := by
    intro ref rewritten hother
    refine revise_self h.responses fun response hresponse => ?_
    rcases onJsonBody_of_fits ref rewritten (h.bodies response hresponse) with ⟨-, hsame⟩ | ⟨hrefers, -⟩
    · exact hsame
    · exact absurd hrefers (hother response hresponse)
  have hprune : pruneUnreferencedSchemas fastapiValidationSchemas doc = .ok doc := by
    have hpaths : getOrEmpty "paths" doc = paths := by rw [getOrEmpty, h.paths, List.headD_cons]
    refine revise_self h.schemas fun v hv => ?_
    rw [h.schemas_eq, List.mem_singleton] at hv
    have hloop : fastapiValidationSchemas.foldl (pruneOne paths) components = components := by
      rw [fastapiValidationSchemas, List.foldl_cons, hpruned _ (by decide), List.foldl_cons, hpruned _ (by decide), List.foldl_nil]
    rw [hv, hpaths, pruned]
    split
    · rw [members_obj, ok_bind, hloop]
      rfl
    · rfl
  have hregister : registerComponentSchemas definitions doc = .ok doc := by
    rw [registerComponentSchemas_eq definitions h]
    refine revise_self h.schemas fun v hv => ?_
    rw [h.schemas_eq, List.mem_singleton] at hv
    rw [hv, addDefinitions, members_obj, ok_bind, foldl_setdefault_self hdefinitions]
    rfl
  have hrelabel : relabelProblemMediaType doc = .ok doc := pass _ _ fun response hresponse => (hresponses response hresponse).1
  have hreplace : replaceDefaultValidationBody doc = .ok doc := pass _ _ fun response hresponse => (hresponses response hresponse).2
  rw [served, configured, hrelabel, ok_bind, hreplace, ok_bind, hprune, ok_bind, hregister]

end Passes

/-! ### What is pruned -/

section Pruned
variable {r name : String} {paths : Json} {components components' definitions : Members} {names : List String}

theorem bare_schemaRef : ∀ name ∈ fastapiValidationSchemas, Bare (schemaRef name) := by
  have hprefix : Bare "#/components/schemas/" := by decide +kernel
  have hnames : ∀ name ∈ fastapiValidationSchemas, Bare name := by decide +kernel
  exact fun name hname => hprefix.append (hnames name hname)

theorem not_spells {k : String} (hhead : k.toList.head? ≠ some '#') (hquote : '"' ∉ k.toList) : ¬ Spells k (schemaRef name) := by
  rintro (h | h)
  · exact ne_schemaRef hhead h
  · exact hquote (h.subset List.mem_cons_self)

theorem mentions_remaining (hbare : Bare (schemaRef name)) :
    mentions (schemaRef name) (remaining paths components) = true ↔
      mentions (schemaRef name) paths = true ∨ mentions (schemaRef name) (.obj components) = true := by
  have hpaths : ¬ Spells "paths" (schemaRef name) := not_spells (by decide) (by decide)
  have hschemas : ¬ Spells "schemas" (schemaRef name) := not_spells (by decide) (by decide)
  rw [remaining, mentions_obj hbare]
  simp [mentions_str hbare, hpaths, hschemas]

theorem mentions_mono (hbare : Bare r) (hsub : components ⊆ components') (h : mentions r (.obj components) = true) :
    mentions r (.obj components') = true := by
  obtain ⟨m, hm, hmentions⟩ := (mentions_obj hbare).1 h
  exact (mentions_obj hbare).2 ⟨m, hsub hm, hmentions⟩

theorem any_eq_lookup : (components.any fun m => m.1 = name) = true ↔ components.lookup name ≠ none := by
  rw [Ne, lookup_eq_none, List.any_eq_true]
  simp

theorem pruneOne_cases (paths : Json) (components : Members) (name : String) :
    (pruneOne paths components name = components ∧ (components.lookup name = none ∨
        mentions (schemaRef name) (remaining paths (erase components name)) = true)) ∨
      pruneOne paths components name = erase components name ∧
        ¬ mentions (schemaRef name) (remaining paths (erase components name)) = true := by
  unfold pruneOne
  split
  · split
    next hmentions => exact .inl ⟨rfl, .inr hmentions⟩
    next hmentions => exact .inr ⟨rfl, hmentions⟩
  next hany => exact .inl ⟨rfl, .inl (by_contra fun hne => hany (any_eq_lookup.2 hne))⟩

theorem pruneOne_self (h : components.lookup name ≠ none →
    mentions (schemaRef name) (remaining paths (erase components name)) = true) : pruneOne paths components name = components := by
  unfold pruneOne
  split
  next hany => rw [if_pos (h (any_eq_lookup.1 hany))]
  · rfl

theorem pruneOne_subset : pruneOne paths components name ⊆ components := by
  rcases pruneOne_cases paths components name with ⟨h, -⟩ | ⟨h, -⟩
  · rw [h]
    exact List.Subset.refl _
  · rw [h]
    exact fun m hm => (List.mem_filter.1 hm).1

theorem foldl_pruneOne_subset : names.foldl (pruneOne paths) components ⊆ components := by
  induction names generalizing components with
  | nil => exact List.Subset.refl _
  | cons name names ih => exact List.Subset.trans ih pruneOne_subset

theorem lookup_pruneOne {k : String} (h : k ≠ name) : (pruneOne paths components name).lookup k = components.lookup k := by
  rcases pruneOne_cases paths components name with ⟨hsame, -⟩ | ⟨herased, -⟩
  · rw [hsame]
  · rw [herased, lookup_erase_of_ne h]

theorem lookup_foldl_pruneOne {k : String} (h : k ∉ names) :
    (names.foldl (pruneOne paths) components).lookup k = components.lookup k := by
  induction names generalizing components with
  | nil => rfl
  | cons name names ih =>
    rw [List.mem_cons, not_or] at h
    rw [List.foldl_cons, ih h.2, lookup_pruneOne h.1]

/-- What has gone is mentioned nowhere. -/
theorem not_mentions_of_pruned (hbare : ∀ name ∈ names, Bare (schemaRef name)) (hbefore : components.lookup name ≠ none)
    (hafter : (names.foldl (pruneOne paths) components).lookup name = none) :
    ¬ mentions (schemaRef name) (remaining paths (names.foldl (pruneOne paths) components)) = true := by
  induction names generalizing components with
  | nil => exact absurd hafter hbefore
  | cons name' names ih =>
    rw [List.foldl_cons] at hafter ⊢
    have hrest := fun n hn => hbare n (List.mem_cons_of_mem _ hn)
    by_cases hgone : (pruneOne paths components name').lookup name = none
    · have heq : name = name' := by_contra fun hne => hbefore (lookup_pruneOne hne ▸ hgone)
      subst heq
      have hb := hbare name List.mem_cons_self
      rcases pruneOne_cases paths components name with ⟨hsame, -⟩ | ⟨herased, hnot⟩
      · exact absurd (hsame ▸ hgone) hbefore
      · rw [herased]
        rw [mentions_remaining hb] at hnot ⊢
        exact fun h => hnot (h.imp_right (mentions_mono hb foldl_pruneOne_subset))
    · exact ih hrest hgone hafter

/-- What has stayed is still mentioned, unless only by the schema that went after it. -/
theorem mentions_of_kept (halone : ∀ m ∈ components, m.1 = "ValidationError" → mentions (schemaRef "HTTPValidationError") m.2 = false)
    (hname : name ∈ fastapiValidationSchemas) (hafter : (fastapiValidationSchemas.foldl (pruneOne paths) components).lookup name ≠ none) :
    mentions (schemaRef name) (remaining paths (erase (fastapiValidationSchemas.foldl (pruneOne paths) components) name)) = true := by
  have hbare := bare_schemaRef name hname
  rw [fastapiValidationSchemas, List.foldl_cons, List.foldl_cons, List.foldl_nil] at hafter ⊢
  simp only [fastapiValidationSchemas, List.mem_cons, List.not_mem_nil, or_false] at hname
  rcases hname with rfl | rfl
  · rw [lookup_pruneOne (by decide)] at hafter
    rcases pruneOne_cases paths components "HTTPValidationError" with ⟨hsame, hkept⟩ | ⟨herased, -⟩
    · rw [hsame] at hafter ⊢
      have hmentions := hkept.resolve_left hafter
      rcases pruneOne_cases paths components "ValidationError" with ⟨hsame', -⟩ | ⟨herased', -⟩
      · rw [hsame']
        exact hmentions
      · rw [herased', mentions_remaining hbare]
        refine ((mentions_remaining hbare).1 hmentions).imp_right fun hin => ?_
        obtain ⟨m, hm, hin⟩ := (mentions_obj hbare).1 hin
        refine (mentions_obj hbare).2 ⟨m, List.mem_filter.2 ⟨List.mem_filter.2 ⟨(List.mem_filter.1 hm).1, ?_⟩, (List.mem_filter.1 hm).2⟩, hin⟩
        refine decide_eq_true fun hvalidation => ?_
        rcases hin with hkey | hvalue
        · rw [mentions_str hbare, hvalidation] at hkey
          exact not_spells (by decide) (by decide) hkey
        · rw [halone m (List.mem_filter.1 hm).1 hvalidation] at hvalue
          cases hvalue
    · rw [herased] at hafter
      exact absurd lookup_erase_self hafter
  · rcases pruneOne_cases paths (pruneOne paths components "HTTPValidationError") "ValidationError" with ⟨hsame, hkept⟩ | ⟨herased, -⟩
    · rw [hsame] at hafter ⊢
      exact hkept.resolve_left hafter
    · rw [herased] at hafter
      exact absurd lookup_erase_self hafter

end Pruned

/-! ### The served document -/

/-- What FastAPI generates and pydantic defines: references lead somewhere, the definitions are closed and do not name the
validation models, and of these the second does not mention the first. -/
structure Generated (definitions : Members) (doc paths : Json) (components : Members) : Prop where
  laid : Laid doc paths components
  numerals : numerals (remaining paths components) = true
  problem : components.lookup "ProblemDetail" ≠ none
  resolves : ∀ name, schemaRef name ∈ strings (remaining paths components) →
    components.lookup name ≠ none ∨ definitions.lookup name ≠ none
  closed : ∀ name, schemaRef name ∈ strings (.obj definitions) → definitions.lookup name ≠ none
  fresh : ∀ name ∈ fastapiValidationSchemas, definitions.lookup name = none
  alone : ∀ m ∈ components, m.1 = "ValidationError" → mentions (schemaRef "HTTPValidationError") m.2 = false

/-- The document that is served: it stays when it is asked for again, every reference leads somewhere, no error has a JSON body
of its own, and of the schemas only validation models have gone, of which those left are mentioned. -/
structure Serves (definitions components : Members) (doc' paths' : Json) (components' : Members) : Prop where
  laid : Laid doc' paths' components'
  settled : served definitions doc' = .ok doc'
  resolves : ∀ name, schemaRef name ∈ strings (remaining paths' components') → components'.lookup name ≠ none
  problems : ∀ response ∈ reached responses doc',
    jsonBodyRef response ≠ some (.str problemRef) ∧ jsonBodyRef response ≠ some (.str validationRef)
  kept : ∀ name ∉ fastapiValidationSchemas, components'.lookup name = (components.lookup name).or (definitions.lookup name)
  alive : ∀ name ∈ fastapiValidationSchemas, components'.lookup name ≠ none →
    ∃ s ∈ strings (remaining paths' (erase components' name)), Spells s (schemaRef name)

section Served
variable {definitions components : Members} {doc paths : Json} {name : String}

theorem mem_strings_remaining {s : String} {v : Json} {members : Members} :
    s ∈ strings (remaining v members) ↔ s = "paths" ∨ s ∈ strings v ∨ s = "schemas" ∨ s ∈ strings (.obj members) := by
  rw [remaining, mem_strings_obj]
  simp [or_assoc]

theorem mem_refs_remaining {v : Json} {members : Members} : schemaRef name ∈ strings (remaining v members) ↔
    schemaRef name ∈ strings v ∨ schemaRef name ∈ strings (.obj members) := by
  have hpaths : schemaRef name ≠ "paths" := (ne_schemaRef (by decide)).symm
  have hschemas : schemaRef name ≠ "schemas" := (ne_schemaRef (by decide)).symm
  simp [mem_strings_remaining, hpaths, hschemas]

theorem strings_remaining_mono {s : String} {v : Json} {members members' : Members} (hsub : members ⊆ members')
    (h : s ∈ strings (remaining v members)) : s ∈ strings (remaining v members') := by
  rw [mem_strings_remaining] at h ⊢
  refine h.imp_right (.imp_right (.imp_right fun h => ?_))
  obtain ⟨m, hm, h⟩ := mem_strings_obj.1 h
  exact mem_strings_obj.2 ⟨m, hsub hm, h⟩

theorem numerals_remaining {v : Json} {members : Members} :
    Json.numerals (remaining v members) = true ↔ Json.numerals v = true ∧ ∀ m ∈ members, Json.numerals m.2 = true := by
  rw [remaining, numerals_obj_iff]
  simp [numerals_obj_iff]

/-- Every pass but the last. -/
theorem exists_configured (h : Laid doc paths components) : ∃ doc' paths', configured doc = .ok doc' ∧
    Laid doc' paths' (fastapiValidationSchemas.foldl (pruneOne paths') components) ∧ Grows paths paths' ∧
      ∀ response ∈ reached responses doc',
        jsonBodyRef response ≠ some (.str problemRef) ∧ jsonBodyRef response ≠ some (.str validationRef) := by
  obtain ⟨doc₁, paths₁, hrelabel, hlaid₁, hgrows₁, hbodies₁⟩ :=
    exists_pass problemRef settled_relabelled (fun _ _ => grows_relabelled) h
  obtain ⟨doc₂, paths₂, hreplace, hlaid₂, hgrows₂, hbodies₂⟩ :=
    exists_pass validationRef settled_replaced (fun _ _ => grows_replaced) hlaid₁
  obtain ⟨doc₃, hprune, hlaid₃, hresponses₃⟩ := exists_prune fastapiValidationSchemas hlaid₂
  refine ⟨doc₃, paths₂, ?_, hlaid₃, hgrows₁.trans hgrows₂, fun response hresponse => ?_⟩
  · rw [configured, relabelProblemMediaType, hrelabel, ok_bind, replaceDefaultValidationBody, hreplace, ok_bind, hprune]
  · rw [hresponses₃] at hresponse
    obtain ⟨hvalidation, horigin⟩ := hbodies₂ response hresponse
    refine ⟨?_, hvalidation⟩
    rcases horigin with hnone | ⟨before, hbefore, hsame⟩
    · simp [hnone]
    · rw [hsame]
      exact (hbodies₁ before hbefore).1

section Left
variable {paths' : Json} {members left : Members} (h : Generated definitions doc paths components) (hgrows : Grows paths paths')
  (hleft : left = fastapiValidationSchemas.foldl (pruneOne paths') components)

include h hgrows in
theorem numerals_left (hsub : members ⊆ components) : Json.numerals (remaining paths' members) = true := by
  obtain ⟨hpaths, hcomponents⟩ := numerals_remaining.1 h.numerals
  exact numerals_remaining.2 ⟨hgrows.numerals hpaths, fun m hm => hcomponents m (hsub hm)⟩

theorem lookup_registered {k : String} :
    (definitions.foldl setdefault left).lookup k ≠ none ↔ left.lookup k ≠ none ∨ definitions.lookup k ≠ none := by
  rw [lookup_foldl_setdefault, Ne, Option.or_eq_none_iff, not_and_or]

include h hgrows hleft in
/-- Over rewritten paths, the references of what is left of the schemas lead somewhere. -/
theorem resolves_left (hname : schemaRef name ∈ strings (remaining paths' left)) :
    left.lookup name ≠ none ∨ definitions.lookup name ≠ none := by
  have hsub : left ⊆ components := hleft ▸ foldl_pruneOne_subset
  have hbefore : components.lookup name ≠ none ∨ definitions.lookup name ≠ none := by
    rcases mem_refs_remaining.1 hname with hin | hin
    · rcases hgrows.refs name hin with hin | rfl
      · exact h.resolves name (mem_refs_remaining.2 (.inl hin))
      · exact .inl h.problem
    · exact h.resolves name (strings_remaining_mono hsub (mem_refs_remaining.2 (.inr hin)))
  refine hbefore.imp_left fun hcomponents hgone => ?_
  have hvalidation : name ∈ fastapiValidationSchemas := by
    by_contra hno
    rw [hleft, lookup_foldl_pruneOne hno] at hgone
    exact hcomponents hgone
  subst hleft
  refine not_mentions_of_pruned bare_schemaRef hcomponents hgone ?_
  exact (mentions_iff (bare_schemaRef name hvalidation) (numerals_left h hgrows hsub)).2 ⟨_, hname, .inl rfl⟩

include h hgrows hleft in
/-- So do those of the definitions that come in. -/
theorem resolves_registered (hname : schemaRef name ∈ strings (remaining paths' (definitions.foldl setdefault left))) :
    (definitions.foldl setdefault left).lookup name ≠ none := by
  rw [lookup_registered]
  rcases mem_refs_remaining.1 hname with hin | hin
  · exact resolves_left h hgrows hleft (mem_refs_remaining.2 (.inl hin))
  · obtain ⟨m, hm, hin⟩ := mem_strings_obj.1 hin
    rcases mem_foldl_setdefault hm with hm | hm
    · exact resolves_left h hgrows hleft (mem_refs_remaining.2 (.inr (mem_strings_obj.2 ⟨m, hm, hin⟩)))
    · exact .inr (h.closed name (mem_strings_obj.2 ⟨m, hm, hin⟩))

include h hleft in
/-- A validation model that is still there was left for what mentions it. -/
theorem mentions_left (hname : name ∈ fastapiValidationSchemas) (hkept : (definitions.foldl setdefault left).lookup name ≠ none) :
    mentions (schemaRef name) (remaining paths' (erase left name)) = true := by
  have hbefore : left.lookup name ≠ none := (lookup_registered.1 hkept).resolve_right fun hdefined => hdefined (h.fresh name hname)
  subst hleft
  exact mentions_of_kept h.alone hname hbefore

theorem erase_registered : erase left name ⊆ erase (definitions.foldl setdefault left) name :=
  List.filter_subset _ subset_foldl_setdefault

end Left

/-- However FastAPI's document mentions its schemas, what is served is complete and settled. -/
theorem document_served (h : Generated definitions doc paths components) :
    ∃ doc' paths' components', served definitions doc = .ok doc' ∧ Serves definitions components doc' paths' components' := by
  obtain ⟨doc₁, paths', hconfigured, hlaid₁, hgrows, hbodies₁⟩ := exists_configured h.laid
  obtain ⟨doc', hregister, hlaid, hresponses⟩ := exists_register definitions hlaid₁
  generalize hleft : fastapiValidationSchemas.foldl (pruneOne paths') components = left at hlaid₁ hlaid
  have hbodies := hresponses ▸ hbodies₁
  refine ⟨doc', paths', definitions.foldl setdefault left, by rw [served, hconfigured, ok_bind, hregister], hlaid, ?_,
    fun name => resolves_registered h hgrows hleft.symm, hbodies, fun name hname => ?_, fun name hname hkept => ?_⟩
  · refine served_self hlaid hbodies (fun name hname => pruneOne_self fun hkept => ?_) fun m hm => ?_
    · have hbare := bare_schemaRef name hname
      rw [mentions_remaining hbare]
      exact ((mentions_remaining hbare).1 (mentions_left h hleft.symm hname hkept)).imp_right (mentions_mono hbare erase_registered)
    · exact lookup_registered.2 (.inr fun hnone => lookup_eq_none.1 hnone m hm rfl)
  · rw [lookup_foldl_setdefault, ← hleft, lookup_foldl_pruneOne hname]
  · have hsub : erase left name ⊆ components := fun m hm =>
      (hleft ▸ foldl_pruneOne_subset : left ⊆ components) (List.mem_filter.1 hm).1
    obtain ⟨s, hs, hspells⟩ := (mentions_iff (bare_schemaRef name hname) (numerals_left h hgrows hsub)).1
      (mentions_left h hleft.symm hname hkept)
    exact ⟨s, strings_remaining_mono erase_registered hs, hspells⟩

end Served

namespace Launch

def ref (name : String) : Json := .obj [("$ref", .str (schemaRef name))]

def jsonBody (name : String) : Json := .obj [("application/json", .obj [("schema", ref name)])]

/-- The launch of a scan, with a handwritten body and the errors that FastAPI documents. -/
def operation : Json := .obj [("requestBody", .obj [("content", jsonBody "AssetScanLaunch")]),
  ("responses", .obj [
    ("404", .obj [("description", .str "Not Found"), ("content", jsonBody "ProblemDetail")]),
    ("422", .obj [("description", .str "Validation Error"), ("content", jsonBody "HTTPValidationError")])])]

def paths : Json := .obj [("/api/v1/scans", .obj [("post", operation)])]

def components : Members := [("HTTPValidationError", .obj [("items", ref "ValidationError")]),
  ("ProblemDetail", .obj [("title", .str "ProblemDetail")]), ("ValidationError", .obj [("title", .str "ValidationError")])]

def definitions : Members := [("AssetScanLaunch", .obj [("title", .str "AssetScanLaunch")])]

def document : Json := .obj [("openapi", .str "3.1.0"), ("paths", paths), ("components", .obj [("schemas", .obj components)])]

theorem responseFits (description name : String) :
    ResponseFits (.obj [("description", .str description), ("content", jsonBody name)]) := by
  refine ⟨⟨_, rfl⟩, fun content hcontent _ => ?_⟩
  obtain rfl := Option.some.inj hcontent
  refine ⟨⟨_, rfl⟩, fun body hbody _ => ?_⟩
  obtain rfl := Option.some.inj hbody
  refine ⟨⟨_, rfl⟩, fun schema hschema => ?_⟩
  obtain rfl := Option.some.inj hschema
  exact ⟨_, rfl⟩

theorem laid : Laid document paths components where
  responses := by simp [responses, Hop.get, Hop.values, document, paths, operation, fits_into_obj, fits_ifDict_obj, fits_nil]
  bodies := by
    have hreached : reached responses document = [.obj [("description", .str "Not Found"), ("content", jsonBody "ProblemDetail")],
      .obj [("description", .str "Validation Error"), ("content", jsonBody "HTTPValidationError")]] := rfl
    rw [hreached, List.forall_mem_cons, List.forall_mem_singleton]
    exact ⟨responseFits .., responseFits ..⟩
  schemas := by simp [schemas, Hop.get, document, fits_into_obj, fits_nil]
  paths := rfl
  components := ⟨_, rfl, rfl⟩

/-- The references among some strings are those that the list has. -/
theorem refs_of_check {names strings : List String} {name : String}
    (hcheck : ∀ s ∈ strings, s.toList.head? = some '#' → s ∈ names.map schemaRef) (h : schemaRef name ∈ strings) : name ∈ names := by
  have hhead : (schemaRef name).toList.head? = some '#' := by
    unfold schemaRef
    rw [String.toList_append]
    rfl
  obtain ⟨name', hname', heq⟩ := List.mem_map.1 (hcheck _ h hhead)
  exact schemaRef_inj heq ▸ hname'

theorem generated : Generated definitions document paths components where
  laid := laid
  numerals := by decide
  problem := by decide
  resolves name hname := by
    have hnames : name ∈ ["AssetScanLaunch", "ProblemDetail", "HTTPValidationError", "ValidationError"] :=
      refs_of_check (by decide) hname
    have hresolved : ∀ name ∈ ["AssetScanLaunch", "ProblemDetail", "HTTPValidationError", "ValidationError"],
        components.lookup name ≠ none ∨ definitions.lookup name ≠ none := by decide
    exact hresolved name hnames
  closed name hname := by
    have hnone : name ∈ [] := refs_of_check (by decide) hname
    cases hnone
  fresh := by decide
  alone := by decide

end Launch

open Launch in
/-- The definition of the handwritten body comes in, and the problem detail stays. -/
theorem document_served_of_launch : ∃ doc' paths' components', served definitions document = .ok doc' ∧
    Serves definitions components doc' paths' components' ∧ components'.lookup "AssetScanLaunch" = definitions.lookup "AssetScanLaunch" ∧
      components'.lookup "ProblemDetail" = components.lookup "ProblemDetail" := by
  obtain ⟨doc', paths', components', hserved, hserves⟩ := document_served generated
  refine ⟨doc', paths', components', hserved, hserves, ?_, ?_⟩
  · rw [hserves.kept _ (by decide)]
    rfl
  · rw [hserves.kept _ (by decide)]
    rfl

end TestingPlatform.OpenApi
