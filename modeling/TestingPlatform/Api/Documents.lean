import TestingPlatform.Modules.Canonical
import TestingPlatform.Modules.Values

/-!
# What a document mentions

`core/errors.py` looks for a reference in the text of a document, quotes included. The punctuation of JSON is no part of the
reference, so it is found only inside one string, and there only where the string is the reference or ends with one that an
escaped quote precedes (`mentions_iff`). The passes over a document follow a path into it: what they reach they rewrite in
place, and the rest stays (`revise_rel`).
-/

namespace TestingPlatform.Json

mutual

/-- `json.dumps(value)`. -/
def plainDumps : Json → String
  | .null => "null"
  | .bool b => if b then "true" else "false"
  | .num t => t
  | .str s => quote s
  | .arr items => "[" ++ ", ".intercalate (plainItems items) ++ "]"
  | .obj members => "\x7b" ++ ", ".intercalate (plainMembers members) ++ "\x7d"

def plainItems : List Json → List String
  | [] => []
  | v :: vs => plainDumps v :: plainItems vs

def plainMembers : List (String × Json) → List String
  | [] => []
  | (k, v) :: ms => (quote k ++ ": " ++ plainDumps v) :: plainMembers ms

end

mutual

/-- The strings of a value, the names of members included. -/
def strings : Json → List String
  | .null | .bool _ | .num _ => []
  | .str s => [s]
  | .arr items => stringsItems items
  | .obj members => stringsMembers members

def stringsItems : List Json → List String
  | [] => []
  | v :: vs => strings v ++ stringsItems vs

def stringsMembers : List (String × Json) → List String
  | [] => []
  | (k, v) :: ms => k :: strings v ++ stringsMembers ms

end

section Texts
variable {s : String} {items : List Json} {members members' : List (String × Json)}

theorem mem_strings_arr : s ∈ strings (.arr items) ↔ ∃ v ∈ items, s ∈ strings v := by
  rw [strings]
  induction items with
  | nil => simp [stringsItems]
  | cons v vs ih => simp [stringsItems, ih]

theorem mem_strings_obj : s ∈ strings (.obj members) ↔ ∃ m ∈ members, s = m.1 ∨ s ∈ strings m.2 := by
  rw [strings]
  induction members with
  | nil => simp [stringsMembers]
  | cons m ms ih =>
    obtain ⟨k, v⟩ := m
    simp [stringsMembers, ih, or_assoc]

def plainMemberText (m : String × Json) : List Char := (quote m.1).toList ++ ':' :: ' ' :: (plainDumps m.2).toList

theorem toList_plainDumps_arr (items : List Json) :
    (plainDumps (.arr items)).toList = '[' :: Delimited.sequence (fun v => (plainDumps v).toList) [',', ' '] ']' items := by
  have hitems : plainItems items = items.map plainDumps := by
    induction items with
    | nil => rfl
    | cons v vs ih => rw [plainItems, ih, List.map_cons]
  rw [plainDumps, hitems, String.toList_append, String.toList_append, String.toList_intercalate, Delimited.sequence_eq, List.map_map]
  rfl

theorem toList_plainDumps_obj (members : List (String × Json)) :
    (plainDumps (.obj members)).toList = '\x7b' :: Delimited.sequence plainMemberText [',', ' '] '\x7d' members := by
  have hmembers : (plainMembers members).map String.toList = members.map plainMemberText := by
    induction members with
    | nil => rfl
    | cons m ms ih =>
      obtain ⟨k, v⟩ := m
      rw [plainMembers, List.map_cons, List.map_cons, ih, plainMemberText, String.toList_append, String.toList_append,
        List.append_assoc]
      rfl
  rw [plainDumps, String.toList_append, String.toList_append, String.toList_intercalate, Delimited.sequence_eq, hmembers]
  rfl

end Texts

/-! ### Mentions -/

/-- `f'"{r}"' in json.dumps(value)`. -/
def mentions (r : String) (v : Json) : Bool := Text.contains (plainDumps v) ("\"" ++ r ++ "\"")

/-- No character of it has an escape or is punctuation. -/
def Bare (r : String) : Prop :=
  ∀ c ∈ r.toList, escapeChar c = [c] ∧ c ∉ ['"', '\\', ',', ':', ' ', '[', ']', '\x7b', '\x7d']

instance (r : String) : Decidable (Bare r) := List.decidableBAll _ r.toList

/-- The string is the reference, or ends with it after a quote. -/
def Spells (s r : String) : Prop := s = r ∨ '"' :: r.toList <:+ s.toList

section Mentions
variable {r s t : String} {v w : Json} {items : List Json} {members members' : List (String × Json)}

/-- The reference as it is looked for. -/
def literal (r : String) : List Char := '"' :: r.toList ++ ['"']

theorem mentions_eq_true : mentions r v = true ↔ literal r <:+: (plainDumps v).toList := by
  rw [mentions, Text.contains, decide_eq_true_eq, String.toList_append, String.toList_append]
  rfl

theorem literal_ne_nil : literal r ≠ [] := List.cons_ne_nil _ _

theorem Bare.append (hr : Bare r) (hs : Bare s) : Bare (r ++ s) := by
  intro c hc
  rw [String.toList_append] at hc
  rcases List.mem_append.1 hc with hc | hc
  · exact hr c hc
  · exact hs c hc

theorem Bare.not_mem_literal (h : Bare r) {c : Char} (hc : c ∈ [',', ':', ' ', '[', ']', '\x7b', '\x7d']) : c ∉ literal r := by
  intro hmem
  rcases List.mem_append.1 hmem with hmem | hmem
  · rcases List.mem_cons.1 hmem with rfl | hmem
    · simp at hc
    · refine (h c hmem).2 ?_
      simp only [List.mem_cons] at hc ⊢
      exact .inr (.inr hc)
  · obtain rfl := List.mem_singleton.1 hmem
    simp at hc

theorem Bare.escape (h : Bare r) : r.toList.flatMap escapeChar = r.toList := by
  have hself : ∀ cs : List Char, (∀ c ∈ cs, escapeChar c = [c]) → cs.flatMap escapeChar = cs := by
    intro cs hcs
    induction cs with
    | nil => rfl
    | cons c cs ih =>
      rw [List.flatMap_cons, hcs c List.mem_cons_self, ih fun d hd => hcs d (List.mem_cons_of_mem _ hd)]
      rfl
  exact hself _ fun c hc => (h c hc).1

/-- No escape has a quote in it but that of the quote. -/
theorem eq_quote_of_mem_escapeChar {c : Char} (h : '"' ∈ escapeChar c) : c = '"' := by
  have hdigit : ∀ n, '"' ≠ hexDigit (n % 16) := fun n =>
    (by decide : ∀ m < 16, '"' ≠ hexDigit m) _ (Nat.mod_lt _ (by omega))
  have hunicode : ∀ n, '"' ∉ unicodeEscape n := fun n => by simp [unicodeEscape, hdigit]
  by_contra hne
  have hne' : '"' ≠ c := fun heq => hne heq.symm
  unfold escapeChar at h
  dsimp only at h
  repeat' split at h
  all_goals simp_all

theorem infix_append_cases {d : Char} {p a b : List Char} (h : d :: p <:+: a ++ b) :
    d :: p <:+: b ∨ ∃ u v, a = u ++ d :: v ∧ p <+: v ++ b := by
  induction a with
  | nil => exact .inl h
  | cons c a ih =>
    rcases List.infix_cons_iff.1 h with hprefix | hinfix
    · obtain ⟨rfl, hp⟩ := List.cons_prefix_cons.1 hprefix
      exact .inr ⟨[], a, rfl, hp⟩
    · rcases ih hinfix with hb | ⟨u, v, rfl, hp⟩
      · exact .inl hb
      · exact .inr ⟨c :: u, v, rfl, hp⟩

theorem Bare.prefix_escape (h : Bare r) {cs : List Char} (hp : r.toList ++ ['"'] <+: cs.flatMap escapeChar ++ ['"']) :
    r.toList = cs := by
  obtain ⟨t, ht⟩ := hp
  rw [← h.escape, List.append_assoc] at ht
  exact (escape_inj ht).1

theorem Bare.suffix_escape (h : Bare r) {cs : List Char} (hp : literal r <:+: cs.flatMap escapeChar ++ ['"']) :
    '"' :: r.toList <:+ cs := by
  induction cs with
  | nil =>
    have hlength := hp.length_le
    simp [literal] at hlength
  | cons c cs ih =>
    rw [List.flatMap_cons, List.append_assoc] at hp
    rcases infix_append_cases hp with hlater | ⟨u, v, hescape, hhere⟩
    · exact (ih hlater).trans (List.suffix_cons ..)
    · obtain rfl := eq_quote_of_mem_escapeChar (hescape ▸ List.mem_append_right _ List.mem_cons_self)
      have hrest : v = [] := by
        cases u with
        | nil => cases hescape
        | cons d u =>
          cases u with
          | nil => exact (List.cons.inj (List.cons.inj hescape).2).2.symm
          | cons e u => cases u <;> cases hescape
      rw [hrest] at hhere
      rw [h.prefix_escape hhere]

/-- In a string the reference is found where the string spells it. -/
theorem mentions_str (h : Bare r) : mentions r (.str s) = true ↔ Spells s r := by
  rw [mentions_eq_true, plainDumps, toList_quote]
  constructor
  · intro hp
    rcases List.infix_cons_iff.1 hp with hp | hp
    · exact .inl (String.toList_inj.1 (h.prefix_escape (List.cons_prefix_cons.1 hp).2).symm)
    · exact .inr (h.suffix_escape hp)
  · rintro (rfl | ⟨t, ht⟩)
    · rw [h.escape]
      exact List.infix_rfl
    · refine ⟨'"' :: t.flatMap escapeChar ++ ['\\'], [], ?_⟩
      rw [← ht, List.flatMap_append, List.flatMap_cons, h.escape]
      simp [literal, escapeChar]

theorem mentions_arr (h : Bare r) : mentions r (.arr items) = true ↔ ∃ v ∈ items, mentions r v = true := by
  simp only [mentions_eq_true]
  rw [toList_plainDumps_arr, ← List.nil_append ('[' :: _), Delimited.infix_append_cons (h.not_mem_literal (by simp)),
    Delimited.infix_sequence literal_ne_nil (h.not_mem_literal (by simp)) (fun d hd => h.not_mem_literal (by simp_all))
      (h.not_mem_literal (by simp))]
  simp [literal_ne_nil]

theorem mentions_obj (h : Bare r) :
    mentions r (.obj members) = true ↔ ∃ m ∈ members, mentions r (.str m.1) = true ∨ mentions r m.2 = true := by
  simp only [mentions_eq_true]
  rw [toList_plainDumps_obj, ← List.nil_append ('\x7b' :: _), Delimited.infix_append_cons (h.not_mem_literal (by simp)),
    Delimited.infix_sequence literal_ne_nil (h.not_mem_literal (by simp)) (fun d hd => h.not_mem_literal (by simp_all))
      (h.not_mem_literal (by simp))]
  have hmember : ∀ m : String × Json, literal r <:+: plainMemberText m ↔
      literal r <:+: (plainDumps (.str m.1)).toList ∨ literal r <:+: (plainDumps m.2).toList := fun m => by
    rw [plainMemberText, Delimited.infix_append_cons (h.not_mem_literal (by simp)), ← List.nil_append (' ' :: _),
      Delimited.infix_append_cons (h.not_mem_literal (by simp)), plainDumps]
    simp [literal_ne_nil]
  simp [literal_ne_nil, hmember]

theorem not_mentions_of_token (hv : '"' ∉ (plainDumps v).toList) : ¬ mentions r v = true := fun hm =>
  hv ((mentions_eq_true.1 hm).subset List.mem_cons_self)

theorem quote_not_mem_of_numeral (h : numeral t = true) : '"' ∉ t.toList := by
  unfold numeral at h
  cases ht : t.toList with
  | nil => simp
  | cons c cs =>
    rw [ht] at h
    simp only [Bool.and_eq_true, List.all_eq_true] at h
    obtain ⟨hc, hcs⟩ := h
    intro hmem
    rcases List.mem_cons.1 hmem with rfl | hmem
    · revert hc
      decide
    · have hd := hcs _ hmem
      revert hd
      decide

/-- What the text of a value mentions, its strings spell. -/
theorem mentions_iff (h : Bare r) (hv : numerals v = true) : mentions r v = true ↔ ∃ s ∈ strings v, Spells s r := by
  induction v using induction with
  | null => exact iff_of_false (not_mentions_of_token (by simp [plainDumps])) (by simp [strings])
  | bool b => exact iff_of_false (not_mentions_of_token (by cases b <;> simp [plainDumps])) (by simp [strings])
  | num t =>
    rw [numerals] at hv
    exact iff_of_false (not_mentions_of_token (quote_not_mem_of_numeral hv)) (by simp [strings])
  | str s => rw [mentions_str h]; simp [strings]
  | arr items ih =>
    rw [mentions_arr h]
    simp only [mem_strings_arr]
    have hall := (numerals_arr_iff items).1 hv
    constructor
    · rintro ⟨v, hmem, hm⟩
      obtain ⟨s, hs, hspells⟩ := (ih v hmem (hall v hmem)).1 hm
      exact ⟨s, ⟨v, hmem, hs⟩, hspells⟩
    · rintro ⟨s, ⟨v, hmem, hs⟩, hspells⟩
      exact ⟨v, hmem, (ih v hmem (hall v hmem)).2 ⟨s, hs, hspells⟩⟩
  | obj members ih =>
    rw [mentions_obj h]
    simp only [mem_strings_obj, mentions_str h]
    have hall := (numerals_obj_iff members).1 hv
    constructor
    · rintro ⟨m, hmem, hkey | hm⟩
      · exact ⟨m.1, ⟨m, hmem, .inl rfl⟩, hkey⟩
      · obtain ⟨s, hs, hspells⟩ := (ih m hmem (hall m hmem)).1 hm
        exact ⟨s, ⟨m, hmem, .inr hs⟩, hspells⟩
    · rintro ⟨s, ⟨m, hmem, rfl | hs⟩, hspells⟩
      · exact ⟨m, hmem, .inl hspells⟩
      · exact ⟨m, hmem, .inr ((ih m hmem (hall m hmem)).2 ⟨s, hs, hspells⟩)⟩

end Mentions

/-! ### Paths -/

/-- A step into a document: to members, or on if it is a dictionary. -/
inductive Hop where
  | into (selected : String → Bool)
  | ifDict

def Hop.get (k : String) : Hop := .into fun name => name == k

def Hop.values : Hop := .into fun _ => true

/-- What the path leads to. -/
def reached : List Hop → Json → List Json
  | [], v => [v]
  | .into selected :: p, .obj members => (members.filter fun m => selected m.1).flatMap fun m => reached p m.2
  | .ifDict :: p, .obj members => reached p (.obj members)
  | _ :: _, _ => []

def onMember (f : Json → Except PyException Json) (selected : String → Bool) (m : String × Json) :
    Except PyException (String × Json) :=
  if selected m.1 then (f m.2).map fun v => (m.1, v) else .ok m

/-- `f` in place of what the path leads to. -/
def revise (f : Json → Except PyException Json) : List Hop → Json → Except PyException Json
  | [], v => f v
  | .into selected :: p, v => do
    let members ← v.members
    let members' ← members.mapM (onMember (revise f p) selected)
    return .obj members'
  | .ifDict :: p, .obj members => revise f p (.obj members)
  | .ifDict :: _, v => .ok v

/-- What the path steps into is a dictionary. -/
def Fits : List Hop → Json → Prop
  | [], _ => True
  | .into selected :: p, v => ∃ members, v = .obj members ∧ ∀ m ∈ members, selected m.1 = true → Fits p m.2
  | .ifDict :: p, .obj members => Fits p (.obj members)
  | .ifDict :: _, _ => True

section Paths
variable {f : Json → Except PyException Json} {selected : String → Bool} {p : List Hop} {v w : Json} {m m' : String × Json}
  {members members' : List (String × Json)}

/-- The member keeps its name, and its value unless it is selected. -/
structure Revised (f : Json → Except PyException Json) (selected : String → Bool) (m m' : String × Json) : Prop where
  name : m'.1 = m.1
  revised : selected m.1 = true → f m.2 = .ok m'.2
  kept : selected m.1 = false → m'.2 = m.2

theorem onMember_eq_ok : onMember f selected m = .ok m' ↔ Revised f selected m m' := by
  obtain ⟨k, v⟩ := m
  obtain ⟨k', v'⟩ := m'
  unfold onMember
  cases hk : selected k with
  | false =>
    constructor
    · intro h
      cases h
      exact ⟨rfl, fun hsel => absurd (hk.symm.trans hsel) Bool.false_ne_true, fun _ => rfl⟩
    · rintro ⟨hname, -, hkept⟩
      obtain rfl : k' = k := hname
      obtain rfl : v' = v := hkept hk
      rfl
  | true =>
    rw [if_pos rfl]
    cases hf : f v with
    | error e => exact iff_of_false (fun h => by cases h) fun h => by simpa [hf] using h.revised hk
    | ok w =>
      constructor
      · intro h
        cases h
        exact ⟨rfl, fun _ => hf, fun hsel => absurd (hsel.symm.trans hk) Bool.false_ne_true⟩
      · rintro ⟨hname, hrevised, -⟩
        obtain rfl : k' = k := hname
        obtain rfl := Except.ok.inj (hf.symm.trans (hrevised hk))
        rfl

theorem revise_into_eq_ok : revise f (.into selected :: p) v = .ok w ↔
    ∃ members members', v = .obj members ∧ w = .obj members' ∧ List.Forall₂ (Revised (revise f p) selected) members members' := by
  rw [revise, Fallible.bind_eq_ok]
  simp only [members_eq_ok, Fallible.bind_eq_ok, Fallible.mapM_eq_ok, onMember_eq_ok]
  constructor
  · rintro ⟨members, hv, members', hall, hw⟩
    cases hw
    exact ⟨members, members', hv, rfl, hall⟩
  · rintro ⟨members, members', hv, rfl, hall⟩
    exact ⟨members, hv, members', hall, rfl⟩

theorem mem_reached_into : w ∈ reached (.into selected :: p) (.obj members) ↔
    ∃ m ∈ members, selected m.1 = true ∧ w ∈ reached p m.2 := by
  simp only [reached, List.mem_flatMap, List.mem_filter, and_assoc]

theorem fits_into_obj : Fits (.into selected :: p) (.obj members) ↔ ∀ m ∈ members, selected m.1 = true → Fits p m.2 :=
  ⟨fun ⟨_, hobj, h⟩ => by cases hobj; exact h, fun h => ⟨members, rfl, h⟩⟩

theorem fits_ifDict_obj : Fits (.ifDict :: p) (.obj members) ↔ Fits p (.obj members) := Iff.rfl

theorem fits_nil : Fits [] v := trivial

theorem exists_revise (hfits : Fits p v) (hf : ∀ a ∈ reached p v, ∃ b, f a = .ok b) : ∃ w, revise f p v = .ok w := by
  induction p generalizing v with
  | nil => exact hf v (List.mem_singleton_self v)
  | cons hop p ih =>
    cases hop with
    | ifDict =>
      cases v with
      | obj members => exact ih hfits hf
      | _ => exact ⟨_, rfl⟩
    | into selected =>
      obtain ⟨members, rfl, hmembers⟩ := hfits
      simp only [revise_into_eq_ok]
      have hone : ∀ m ∈ members, ∃ m', Revised (revise f p) selected m m' := by
        intro m hm
        cases hsel : selected m.1 with
        | false => exact ⟨m, rfl, fun h => absurd (hsel.symm.trans h) Bool.false_ne_true, fun _ => rfl⟩
        | true =>
          obtain ⟨w, hw⟩ := ih (hmembers m hm hsel) fun a ha => hf a (mem_reached_into.2 ⟨m, hm, hsel, ha⟩)
          exact ⟨(m.1, w), rfl, fun _ => hw, fun h => absurd (h.symm.trans hsel) Bool.false_ne_true⟩
      choose! g hg using hone
      exact ⟨_, members, members.map g, rfl, rfl, List.forall₂_map_right_iff.2 (List.forall₂_same.2 hg)⟩

theorem revise_self (hfits : Fits p v) (hf : ∀ a ∈ reached p v, f a = .ok a) : revise f p v = .ok v := by
  induction p generalizing v with
  | nil => exact hf v (List.mem_singleton_self v)
  | cons hop p ih =>
    cases hop with
    | ifDict =>
      cases v with
      | obj members => exact ih hfits hf
      | _ => rfl
    | into selected =>
      obtain ⟨members, rfl, hmembers⟩ := hfits
      refine revise_into_eq_ok.2 ⟨members, members, rfl, rfl, List.forall₂_same.2 fun m hm => ⟨rfl, fun hsel => ?_, fun _ => rfl⟩⟩
      exact ih (hmembers m hm hsel) fun a ha => hf a (mem_reached_into.2 ⟨m, hm, hsel, ha⟩)

theorem reached_append (p q : List Hop) (v : Json) : reached (p ++ q) v = (reached p v).flatMap (reached q) := by
  induction p generalizing v with
  | nil => simp [reached]
  | cons hop p ih =>
    rw [List.cons_append]
    cases hop with
    | into selected =>
      cases v with
      | obj members => simp only [reached, ih, List.flatMap_assoc]
      | _ => rfl
    | ifDict =>
      cases v with
      | obj members => exact ih _
      | _ => rfl

theorem revise_append (p q : List Hop) (v : Json) : revise f (p ++ q) v = revise (revise f q) p v := by
  induction p generalizing v with
  | nil => rfl
  | cons hop p ih =>
    rw [List.cons_append]
    cases hop with
    | into selected =>
      have hmember : onMember (revise f (p ++ q)) selected = onMember (revise (revise f q) p) selected :=
        congrArg (onMember · selected) (funext ih)
      rw [revise, revise, hmember]
    | ifDict =>
      cases v with
      | obj members => exact ih _
      | _ => rfl

theorem revise_congr {g : Json → Except PyException Json} (h : ∀ a ∈ reached p v, f a = g a) : revise f p v = revise g p v := by
  induction p generalizing v with
  | nil => exact h v (List.mem_singleton_self v)
  | cons hop p ih =>
    cases hop with
    | into selected =>
      cases v with
      | obj members =>
        have hmembers : members.mapM (onMember (revise f p) selected) = members.mapM (onMember (revise g p) selected) := by
          refine Fallible.mapM_congr fun m hm => ?_
          unfold onMember
          split
          next hsel => rw [ih fun a ha => h a (mem_reached_into.2 ⟨m, hm, hsel, ha⟩)]
          · rfl
        exact congrArg (fun traversed => traversed >>= fun ms => Except.ok (Json.obj ms)) hmembers
      | _ => rfl
    | ifDict =>
      cases v with
      | obj members => exact ih h
      | _ => rfl

/-- Dictionaries stay dictionaries. -/
def KeepsDicts (f : Json → Except PyException Json) : Prop := ∀ members w, f (.obj members) = .ok w → ∃ members', w = .obj members'

theorem KeepsDicts.revise (hf : KeepsDicts f) (p : List Hop) : KeepsDicts (revise f p) := by
  induction p with
  | nil => exact hf
  | cons hop p ih =>
    cases hop with
    | ifDict => exact ih
    | into selected =>
      intro members w h
      obtain ⟨_, members', -, rfl, -⟩ := revise_into_eq_ok.1 h
      exact ⟨members', rfl⟩

/-- What the path leads to is revised where it stands. -/
theorem forall₂_reached (hf : KeepsDicts f) (h : revise f p v = .ok w) :
    List.Forall₂ (fun a b => f a = .ok b) (reached p v) (reached p w) := by
  induction p generalizing v w with
  | nil => exact .cons h .nil
  | cons hop p ih =>
    cases hop with
    | ifDict =>
      cases v with
      | obj members =>
        obtain ⟨members', rfl⟩ := hf.revise p members w h
        exact ih h
      | _ =>
        cases h
        exact .nil
    | into selected =>
      obtain ⟨members, members', rfl, rfl, hall⟩ := revise_into_eq_ok.1 h
      induction hall with
      | nil => exact .nil
      | @cons m m' members members' hrev _ ihm =>
        have hrest := ihm (revise_into_eq_ok.2 ⟨members, members', rfl, rfl, ‹_›⟩)
        simp only [reached, List.filter_cons, hrev.name] at hrest ⊢
        cases hsel : selected m.1 with
        | false => simpa using hrest
        | true => simpa using List.rel_append (ih (hrev.revised hsel)) hrest

/-- A path that steps past what is revised leads to the same. -/
theorem reached_of_disjoint {selected' : String → Bool} {q : List Hop} (hdisjoint : ∀ k, selected' k = true → selected k = false)
    (h : revise f (.into selected :: p) v = .ok w) :
    reached (.into selected' :: q) w = reached (.into selected' :: q) v ∧
      (Fits (.into selected' :: q) v → Fits (.into selected' :: q) w) := by
  obtain ⟨members, members', rfl, rfl, hall⟩ := revise_into_eq_ok.1 h
  have hsame : members'.filter (fun m => selected' m.1) = members.filter fun m => selected' m.1 := by
    clear h
    induction hall with
    | nil => rfl
    | @cons m m' members members' hrev _ ih =>
      rw [List.filter_cons, List.filter_cons, hrev.name, ih]
      cases hsel : selected' m.1 with
      | false => rfl
      | true => rw [if_pos rfl, if_pos rfl, ← Prod.ext hrev.name (hrev.kept (hdisjoint _ hsel))]
  refine ⟨by simp only [reached, hsame], ?_⟩
  rintro ⟨_, hobj, hfits⟩
  cases hobj
  refine ⟨members', rfl, fun m' hm' hsel => ?_⟩
  have hmem : m' ∈ members'.filter fun m => selected' m.1 := List.mem_filter.2 ⟨hm', hsel⟩
  rw [hsame] at hmem
  exact hfits m' (List.mem_filter.1 hmem).1 hsel

theorem fits_revise (hfits : Fits p v) (h : revise f p v = .ok w) : Fits p w := by
  induction p generalizing v w with
  | nil => trivial
  | cons hop p ih =>
    cases hop with
    | ifDict =>
      cases v with
      | obj members =>
        have hrest := ih hfits h
        cases w with
        | obj => exact hrest
        | _ => trivial
      | _ =>
        cases h
        trivial
    | into selected =>
      obtain ⟨members, members', rfl, rfl, hall⟩ := revise_into_eq_ok.1 h
      obtain ⟨_, hobj, hmembers⟩ := hfits
      cases hobj
      refine ⟨members', rfl, fun m' hm' hsel => ?_⟩
      obtain ⟨m, hm, hrev⟩ := Fallible.exists_of_forall₂_right hall hm'
      rw [hrev.name] at hsel
      exact ih (hmembers m hm hsel) (hrev.revised hsel)

/-- A relation that dictionaries have when their values have it side by side. -/
structure Congruent (R : Json → Json → Prop) : Prop where
  refl : ∀ v, R v v
  obj : ∀ members members', List.Forall₂ (fun m m' : String × Json => m'.1 = m.1 ∧ R m.2 m'.2) members members' →
    R (.obj members) (.obj members')

theorem revise_rel {R : Json → Json → Prop} (hR : Congruent R) (hf : ∀ a b, f a = .ok b → R a b) (h : revise f p v = .ok w) :
    R v w := by
  induction p generalizing v w with
  | nil => exact hf v w h
  | cons hop p ih =>
    cases hop with
    | ifDict =>
      cases v with
      | obj members => exact ih h
      | _ =>
        cases h
        exact hR.refl _
    | into selected =>
      obtain ⟨members, members', rfl, rfl, hall⟩ := revise_into_eq_ok.1 h
      refine hR.obj _ _ (hall.imp fun m m' hrev => ⟨hrev.name, ?_⟩)
      cases hsel : selected m.1 with
      | false =>
        rw [hrev.kept hsel]
        exact hR.refl _
      | true => exact ih (hrev.revised hsel)

end Paths

end TestingPlatform.Json
