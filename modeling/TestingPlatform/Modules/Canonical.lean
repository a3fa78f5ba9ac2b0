import TestingPlatform.Lib.Delimited
import TestingPlatform.Lib.Fallible
import TestingPlatform.Modules.Normalization

/-!
# What canonical JSON tells apart

`json.dumps(value, sort_keys=True)` forgets the order of members and nothing else: two values have one text exactly
when they are the same up to that order (`dumps_eq_iff`). An escaped character is read back from its escape, a string
ends at the first quote that is not escaped, and a number at the first delimiter.
-/

namespace TestingPlatform.Json

/-! ### Escapes -/

def hexValue (c : Char) : Nat := if c.toNat < 58 then c.toNat - 48 else c.toNat - 87

theorem hexValue_hexDigit : ∀ n < 16, hexValue (hexDigit n) = n := by decide

def hex4 : List Char → Option (Nat × List Char)
  | a :: b :: c :: d :: rest => some (hexValue a * 4096 + hexValue b * 256 + hexValue c * 16 + hexValue d, rest)
  | _ => none

/-- Reads `\uXXXX`, or two of them for a surrogate pair, from its first digit on. -/
def readUnicode (digits : List Char) : Option (Char × List Char) :=
  (hex4 digits).bind fun high =>
    if 0xd800 ≤ high.1 ∧ high.1 < 0xdc00 then
      (hex4 (high.2.drop 2)).map fun low => (Char.ofNat (0x10000 + (high.1 - 0xd800) * 1024 + (low.1 - 0xdc00)), low.2)
    else some (Char.ofNat high.1, high.2)

def readEscaped : List Char → Option (Char × List Char)
  | [] => none
  | c :: rest =>
    if c = 'u' then readUnicode rest
    else if c = 'n' then some ('\n', rest) else if c = 'r' then some ('\r', rest) else if c = 't' then some ('\t', rest)
    else if c = 'b' then some (Char.ofNat 8, rest) else if c = 'f' then some (Char.ofNat 12, rest)
    else some (c, rest)

/-- Reads one character of the body of a string; `none` at its end. -/
def readChar : List Char → Option (Char × List Char)
  | [] => none
  | c :: rest => if c = '"' then none else if c = '\\' then readEscaped rest else some (c, rest)

theorem hex4_digits {n : Nat} (h : n < 65536) (rest : List Char) :
    hex4 (hexDigit (n / 4096 % 16) :: hexDigit (n / 256 % 16) :: hexDigit (n / 16 % 16) :: hexDigit (n % 16) :: rest) =
      some (n, rest) := by
  have hdigit : ∀ m, hexValue (hexDigit (m % 16)) = m % 16 := fun m => hexValue_hexDigit _ (Nat.mod_lt _ (by decide))
  rw [hex4, hdigit, hdigit, hdigit, hdigit]
  have hsum : n / 4096 % 16 * 4096 + n / 256 % 16 * 256 + n / 16 % 16 * 16 + n % 16 = n := by omega
  rw [hsum]

theorem toNat_valid (c : Char) : c.toNat < 0xd800 ∨ 0xdfff < c.toNat ∧ c.toNat < 0x110000 := c.valid

theorem readChar_escapeChar (c : Char) (rest : List Char) : readChar (escapeChar c ++ rest) = some (c, rest) := by
  have hofNat : ∀ n, c.toNat = n → Char.ofNat n = c := by
    rintro n rfl
    exact Char.ofNat_toNat c
  unfold escapeChar
  dsimp only
  split_ifs with hquote hslash hn hr ht hb hf hplain hbmp
  · subst hquote
    rfl
  · subst hslash
    rfl
  · subst hn
    rfl
  · subst hr
    rfl
  · subst ht
    rfl
  · rw [← hofNat 8 hb]
    rfl
  · rw [← hofNat 12 hf]
    rfl
  · show readChar (c :: rest) = _
    rw [readChar, if_neg hquote, if_neg hslash]
  · -- in the basic plane no character is a surrogate
    have hvalid := toNat_valid c
    have hsingle : ¬ (0xd800 ≤ c.toNat ∧ c.toNat < 0xdc00) := by omega
    show readUnicode (hexDigit _ :: hexDigit _ :: hexDigit _ :: hexDigit _ :: rest) = _
    rw [readUnicode, hex4_digits (by omega), Option.bind_some, if_neg hsingle, Char.ofNat_toNat]
  · have hvalid := toNat_valid c
    have hhigh : 0xd800 ≤ 0xd800 + (c.toNat - 0x10000) / 1024 ∧ 0xd800 + (c.toNat - 0x10000) / 1024 < 0xdc00 := by omega
    have hpair : 0x10000 + (0xd800 + (c.toNat - 0x10000) / 1024 - 0xd800) * 1024 +
        (0xdc00 + (c.toNat - 0x10000) % 1024 - 0xdc00) = c.toNat := by omega
    show readUnicode (hexDigit _ :: hexDigit _ :: hexDigit _ :: hexDigit _ :: '\\' :: 'u' ::
      hexDigit _ :: hexDigit _ :: hexDigit _ :: hexDigit _ :: rest) = _
    rw [readUnicode, hex4_digits (by omega), Option.bind_some, if_pos hhigh, List.drop_succ_cons, List.drop_succ_cons,
      List.drop_zero, hex4_digits (by omega), Option.map_some, hpair, Char.ofNat_toNat]

/-- The body of a string is read back up to the quote. -/
theorem escape_inj {s t x y : List Char} (h : s.flatMap escapeChar ++ '"' :: x = t.flatMap escapeChar ++ '"' :: y) :
    s = t ∧ x = y := by
  have hread := congrArg readChar h
  induction s generalizing t with
  | nil =>
    cases t with
    | nil => exact ⟨rfl, (List.cons.inj h).2⟩
    | cons d t =>
      rw [List.flatMap_cons, List.append_assoc, readChar_escapeChar] at hread
      cases hread
  | cons c s ih =>
    cases t with
    | nil =>
      rw [List.flatMap_cons, List.append_assoc, readChar_escapeChar] at hread
      cases hread
    | cons d t =>
      rw [List.flatMap_cons, List.flatMap_cons, List.append_assoc, List.append_assoc, readChar_escapeChar,
        readChar_escapeChar] at hread
      obtain ⟨rfl, hrest⟩ := Prod.mk.inj (Option.some.inj hread)
      obtain ⟨rfl, hxy⟩ := ih hrest (congrArg readChar hrest)
      exact ⟨rfl, hxy⟩

theorem toList_quote (s : String) : (quote s).toList = '"' :: s.toList.flatMap escapeChar ++ ['"'] := String.toList_ofList

theorem quote_append_inj {s t : String} {x y : List Char} (h : (quote s).toList ++ x = (quote t).toList ++ y) : s = t ∧ x = y := by
  rw [toList_quote, toList_quote, List.append_assoc, List.append_assoc] at h
  obtain ⟨hst, hxy⟩ := escape_inj (List.cons.inj h).2
  exact ⟨String.toList_inj.1 hst, hxy⟩

/-! ### Up to the order of members -/

/-- A statement about values from their parts. -/
theorem induction {p : Json → Prop} (null : p .null) (bool : ∀ b, p (.bool b)) (num : ∀ t, p (.num t)) (str : ∀ s, p (.str s))
    (arr : ∀ items, (∀ v ∈ items, p v) → p (.arr items)) (obj : ∀ members, (∀ m ∈ members, p m.2) → p (.obj members)) :
    ∀ v, p v
  | .null => null
  | .bool b => bool b
  | .num t => num t
  | .str s => str s
  | .arr items => arr items fun v _ => induction null bool num str arr obj v
  | .obj members => obj members fun m _ => induction null bool num str arr obj m.2
termination_by v => sizeOf v
decreasing_by
  · have hmem := List.sizeOf_lt_of_mem ‹v ∈ items›
    simp only [Json.arr.sizeOf_spec]
    omega
  · have hmem := List.sizeOf_lt_of_mem ‹m ∈ members›
    have hpair : sizeOf m = 1 + sizeOf m.1 + sizeOf m.2 := rfl
    simp only [Json.obj.sizeOf_spec]
    omega

def inOrder (members : List (String × Json)) : List (String × Json) := members.insertionSort fun a b => a.1 ≤ b.1

theorem inOrder_perm (members : List (String × Json)) : (inOrder members).Perm members := List.perm_insertionSort _ members

theorem inOrder_pairwise (members : List (String × Json)) : (inOrder members).Pairwise fun a b => a.1 ≤ b.1 := by
  have htotal : Std.Total fun a b : String × Json => a.1 ≤ b.1 := ⟨fun a b => le_total a.1 b.1⟩
  have htrans : IsTrans (String × Json) fun a b => a.1 ≤ b.1 := ⟨fun _ _ _ => le_trans⟩
  exact List.pairwise_insertionSort _ members

theorem inOrder_inOrder (members : List (String × Json)) : inOrder (inOrder members) = inOrder members :=
  List.Pairwise.insertionSort_eq (inOrder_pairwise members)

mutual

/-- The value with the members of its objects in key order. -/
def canon : Json → Json
  | .arr items => .arr (canonItems items)
  | .obj members => .obj (inOrder (canonMembers members))
  | .null => .null
  | .bool b => .bool b
  | .num t => .num t
  | .str s => .str s

def canonItems : List Json → List Json
  | [] => []
  | v :: vs => canon v :: canonItems vs

def canonMembers : List (String × Json) → List (String × Json)
  | [] => []
  | (k, v) :: ms => (k, canon v) :: canonMembers ms

end

theorem dumpsItems_eq_map (items : List Json) : dumpsItems items = items.map dumps := by
  induction items with
  | nil => rfl
  | cons v vs ih => rw [dumpsItems, ih, List.map_cons]

theorem dumpsMembers_eq_map (members : List (String × Json)) : dumpsMembers members = members.map fun m => (m.1, dumps m.2) := by
  induction members with
  | nil => rfl
  | cons m ms ih =>
    obtain ⟨k, v⟩ := m
    rw [dumpsMembers, ih, List.map_cons]

theorem canonItems_eq_map (items : List Json) : canonItems items = items.map canon := by
  induction items with
  | nil => rfl
  | cons v vs ih => rw [canonItems, ih, List.map_cons]

theorem canonMembers_eq_map (members : List (String × Json)) : canonMembers members = members.map fun m => (m.1, canon m.2) := by
  induction members with
  | nil => rfl
  | cons m ms ih =>
    obtain ⟨k, v⟩ := m
    rw [canonMembers, ih, List.map_cons]

theorem map_inOrder (f : Json → Json) (members : List (String × Json)) :
    (inOrder members).map (fun m => (m.1, f m.2)) = inOrder (members.map fun m => (m.1, f m.2)) :=
  List.map_insertionSort _ _ _ _ fun _ _ _ _ => Iff.rfl

theorem canon_arr (items : List Json) : canon (.arr items) = .arr (items.map canon) := by
  rw [canon.eq_def]
  dsimp only
  rw [canonItems_eq_map]

theorem canon_obj (members : List (String × Json)) :
    canon (.obj members) = .obj ((inOrder members).map fun m => (m.1, canon m.2)) := by
  rw [map_inOrder, canon, canonMembers_eq_map]

def memberText (m : String × Json) : List Char := (quote m.1).toList ++ ':' :: ' ' :: (dumps m.2).toList

theorem toList_dumps_arr (items : List Json) :
    (dumps (.arr items)).toList = '[' :: Delimited.sequence (fun v => (dumps v).toList) [',', ' '] ']' items := by
  rw [dumps, dumpsItems_eq_map, String.toList_append, String.toList_append, String.toList_intercalate, Delimited.sequence_eq,
    List.map_map]
  rfl

theorem toList_dumps_obj (members : List (String × Json)) :
    (dumps (.obj members)).toList = '\x7b' :: Delimited.sequence memberText [',', ' '] '\x7d' (inOrder members) := by
  have hsorted : sortedMembers (dumpsMembers members) = (inOrder members).map fun m => quote m.1 ++ ": " ++ dumps m.2 := by
    have hmap : (inOrder members).map (fun m => (m.1, dumps m.2)) =
        (members.map fun m => (m.1, dumps m.2)).insertionSort fun a b => a.1 ≤ b.1 :=
      List.map_insertionSort _ _ _ _ fun _ _ _ _ => Iff.rfl
    rw [sortedMembers, dumpsMembers_eq_map, ← hmap, List.map_map]
    rfl
  have htext : ∀ m : String × Json, (quote m.1 ++ ": " ++ dumps m.2).toList = memberText m := by
    intro m
    rw [memberText, String.toList_append, String.toList_append, List.append_assoc]
    rfl
  rw [dumps, hsorted, String.toList_append, String.toList_append, String.toList_intercalate, Delimited.sequence_eq,
    List.map_map]
  simp only [Function.comp_def, htext]
  rfl

/-! ### Reading a value back -/

/-- The text begins like a number, or a NaN or an infinity, and goes on without a delimiter. -/
def numeral (t : String) : Bool :=
  match t.toList with
  | [] => false
  | c :: cs =>
    (c.isDigit || c = '-' || c = 'N' || c = 'I') && cs.all fun d => d.isAlphanum || d = '.' || d = '+' || d = '-'

mutual

def numerals : Json → Bool
  | .null | .bool _ | .str _ => true
  | .num t => numeral t
  | .arr items => numeralsItems items
  | .obj members => numeralsMembers members

def numeralsItems : List Json → Bool
  | [] => true
  | v :: vs => numerals v && numeralsItems vs

def numeralsMembers : List (String × Json) → Bool
  | [] => true
  | (_, v) :: ms => numerals v && numeralsMembers ms

end

theorem numerals_arr_iff (items : List Json) : numerals (.arr items) = true ↔ ∀ v ∈ items, numerals v = true := by
  rw [numerals]
  induction items with
  | nil => simp [numeralsItems]
  | cons v vs ih => simp [numeralsItems, ih]

theorem numerals_obj_iff (members : List (String × Json)) : numerals (.obj members) = true ↔ ∀ m ∈ members, numerals m.2 = true := by
  rw [numerals]
  induction members with
  | nil => simp [numeralsMembers]
  | cons m ms ih =>
    obtain ⟨k, v⟩ := m
    simp [numeralsMembers, ih]

/-- What ends a value inside another one. -/
def stops (c : Char) : Prop := c = ',' ∨ c = ']' ∨ c = '\x7d'

theorem not_stops_of_numeral {t : String} (h : numeral t = true) : ∀ c ∈ t.toList, ¬ stops c := by
  unfold numeral at h
  cases ht : t.toList with
  | nil => simp
  | cons c cs =>
    rw [ht] at h
    simp only [Bool.and_eq_true, List.all_eq_true] at h
    obtain ⟨hc, hcs⟩ := h
    intro d hd hstop
    rcases List.mem_cons.1 hd with rfl | hd
    · rcases hstop with rfl | rfl | rfl <;> revert hc <;> decide
    · have hd' := hcs d hd
      rcases hstop with rfl | rfl | rfl <;> revert hd' <;> decide

/-- The constructor, and which of the booleans. -/
def kind : Json → ℕ
  | .null => 0
  | .bool true => 1
  | .bool false => 2
  | .str _ => 3
  | .arr _ => 4
  | .obj _ => 5
  | .num _ => 6

/-- The first character tells the kind. -/
def kindOf (c : Char) : ℕ :=
  if c = 'n' then 0 else if c = 't' then 1 else if c = 'f' then 2 else if c = '"' then 3 else if c = '[' then 4
  else if c = '\x7b' then 5 else 6

theorem kindOf_head {v : Json} (h : numerals v = true) : ∃ c rest, (dumps v).toList = c :: rest ∧ kindOf c = kind v ∧ ¬ stops c := by
  cases v with
  | null => exact ⟨'n', "ull".toList, rfl, rfl, by simp [stops]⟩
  | bool b =>
    cases b with
    | true => exact ⟨'t', "rue".toList, rfl, rfl, by simp [stops]⟩
    | false => exact ⟨'f', "alse".toList, rfl, rfl, by simp [stops]⟩
  | str s =>
    rw [dumps, toList_quote]
    exact ⟨'"', _, rfl, rfl, by simp [stops]⟩
  | arr items =>
    rw [toList_dumps_arr]
    exact ⟨'[', _, rfl, rfl, by simp [stops]⟩
  | obj members =>
    rw [toList_dumps_obj]
    exact ⟨'\x7b', _, rfl, rfl, by simp [stops]⟩
  | num t =>
    have hfree := not_stops_of_numeral h
    have hnum : numeral t = true := h
    rw [dumps]
    unfold numeral at hnum
    cases ht : t.toList with
    | nil =>
      rw [ht] at hnum
      cases hnum
    | cons c cs =>
      rw [ht] at hnum hfree
      simp only [Bool.and_eq_true] at hnum
      have hc := hnum.1
      have hkind : kindOf c = 6 := by
        unfold kindOf
        split_ifs with hn ht hf hq hb ho
        · subst hn
          exact absurd hc (by decide)
        · subst ht
          exact absurd hc (by decide)
        · subst hf
          exact absurd hc (by decide)
        · subst hq
          exact absurd hc (by decide)
        · subst hb
          exact absurd hc (by decide)
        · subst ho
          exact absurd hc (by decide)
        · rfl
      exact ⟨c, cs, rfl, hkind, hfree c List.mem_cons_self⟩

theorem kind_eq {v w : Json} {x y : List Char} (hv : numerals v = true) (hw : numerals w = true)
    (h : (dumps v).toList ++ x = (dumps w).toList ++ y) : kind v = kind w := by
  obtain ⟨c, rest, hc, hkind, -⟩ := kindOf_head hv
  obtain ⟨d, rest', hd, hkind', -⟩ := kindOf_head hw
  rw [hc, hd] at h
  rw [← hkind, ← hkind', (List.cons.inj h).1]

/-- Two values are told apart by their texts, up to the order of members. -/
def Told (v w : Json) : Prop := Delimited.ReadsAs stops (fun v => (dumps v).toList) (fun v w => canon v = canon w) v w

theorem readsAs_arr {items items' : List Json} (hv : ∀ a ∈ items, numerals a = true) (hw : ∀ b ∈ items', numerals b = true)
    (ih : ∀ a ∈ items, ∀ b ∈ items', Told a b) : Told (.arr items) (.arr items') := by
  intro x y _ _ h
  simp only [toList_dumps_arr] at h
  have hhead : ∀ u : Json, numerals u = true → ∃ d rest, (dumps u).toList = d :: rest ∧ d ≠ ']' := by
    intro u hu
    obtain ⟨d, rest, hd, -, hstop⟩ := kindOf_head hu
    exact ⟨d, rest, hd, fun he => hstop (.inr (.inl he))⟩
  obtain ⟨hforall, hxy⟩ := Delimited.sequence_inj (R := fun v w => canon v = canon w) (.inl rfl) (.inr (.inl rfl)) (by decide)
    ih (fun a ha => hhead a (hv a ha)) (fun b hb => hhead b (hw b hb)) (List.cons.inj h).2
  refine ⟨?_, hxy⟩
  show canon (.arr items) = canon (.arr items')
  rw [canon_arr, canon_arr, Fallible.map_eq_of_forall₂ hforall fun _ _ he => he.symm]

theorem readsAs_obj {members members' : List (String × Json)} (ih : ∀ a ∈ members, ∀ b ∈ members', Told a.2 b.2) :
    Told (.obj members) (.obj members') := by
  intro x y _ _ h
  simp only [toList_dumps_obj] at h
  have hmem : ∀ {ms : List (String × Json)} {m : String × Json}, m ∈ inOrder ms → m ∈ ms :=
    fun hm => (inOrder_perm _).mem_iff.1 hm
  have hread : ∀ a ∈ inOrder members, ∀ b ∈ inOrder members',
      Delimited.ReadsAs stops memberText (fun m m' => m.1 = m'.1 ∧ canon m.2 = canon m'.2) a b := by
    intro a ha b hb x y hx hy htext
    rw [memberText, memberText, List.append_assoc, List.append_assoc] at htext
    obtain ⟨hkey, hrest⟩ := quote_append_inj htext
    obtain ⟨hvalue, hxy⟩ := ih a (hmem ha) b (hmem hb) x y hx hy (List.cons.inj (List.cons.inj hrest).2).2
    exact ⟨⟨hkey, hvalue⟩, hxy⟩
  have hhead : ∀ m : String × Json, ∃ d rest, memberText m = d :: rest ∧ d ≠ '\x7d' := by
    intro m
    rw [memberText, toList_quote]
    exact ⟨'"', _, rfl, by decide⟩
  obtain ⟨hforall, hxy⟩ := Delimited.sequence_inj (.inl rfl) (.inr (.inr rfl)) (by decide) hread (fun a _ => hhead a)
    (fun b _ => hhead b) (List.cons.inj h).2
  refine ⟨?_, hxy⟩
  have hsame : (inOrder members').map (fun m => (m.1, canon m.2)) = (inOrder members).map fun m => (m.1, canon m.2) :=
    Fallible.map_eq_of_forall₂ hforall fun m m' hm => Prod.ext hm.1.symm hm.2.symm
  show canon (.obj members) = canon (.obj members')
  rw [canon_obj, canon_obj, hsame]

/-- A value is read back up to the order of members. -/
theorem readsAs_canon (v : Json) : ∀ w, numerals v = true → numerals w = true → Told v w := by
  induction v using induction with
  | null =>
    intro w hv hw x y _ _ h
    have hkind := kind_eq hv hw h
    cases w with
    | null => exact ⟨rfl, List.append_cancel_left h⟩
    | bool b => cases b <;> cases hkind
    | _ => cases hkind
  | bool b =>
    intro w hv hw x y _ _ h
    have hkind := kind_eq hv hw h
    cases w with
    | bool b' =>
      obtain rfl : b = b' := by cases b <;> cases b' <;> first | rfl | cases hkind
      exact ⟨rfl, List.append_cancel_left h⟩
    | _ => cases b <;> cases hkind
  | num t =>
    intro w hv hw x y hx hy h
    have hkind := kind_eq hv hw h
    cases w with
    | num t' =>
      obtain ⟨htext, hxy⟩ := Delimited.token_inj (not_stops_of_numeral hv) (not_stops_of_numeral hw) hx hy h
      rw [String.toList_inj.1 htext]
      exact ⟨rfl, hxy⟩
    | bool b => cases b <;> cases hkind
    | _ => cases hkind
  | str s =>
    intro w hv hw x y _ _ h
    have hkind := kind_eq hv hw h
    cases w with
    | str s' =>
      obtain ⟨rfl, hxy⟩ := quote_append_inj h
      exact ⟨rfl, hxy⟩
    | bool b => cases b <;> cases hkind
    | _ => cases hkind
  | arr items ih =>
    intro w hv hw x y hx hy h
    have hkind := kind_eq hv hw h
    cases w with
    | arr items' =>
      rw [numerals_arr_iff] at hv hw
      exact readsAs_arr hv hw (fun a ha b hb => ih a ha b (hv a ha) (hw b hb)) x y hx hy h
    | bool b => cases b <;> cases hkind
    | _ => cases hkind
  | obj members ih =>
    intro w hv hw x y hx hy h
    have hkind := kind_eq hv hw h
    cases w with
    | obj members' =>
      rw [numerals_obj_iff] at hv hw
      exact readsAs_obj (fun a ha b hb => ih a ha b.2 (hv a ha) (hw b hb)) x y hx hy h
    | bool b => cases b <;> cases hkind
    | _ => cases hkind

theorem dumps_canon (v : Json) : dumps (canon v) = dumps v := by
  induction v using induction with
  | null | bool | num | str => rfl
  | arr items ih =>
    refine String.toList_inj.1 ?_
    rw [canon_arr, toList_dumps_arr, toList_dumps_arr, Delimited.sequence_eq, Delimited.sequence_eq, List.map_map]
    have hitems : items.map ((fun v => (dumps v).toList) ∘ canon) = items.map fun v => (dumps v).toList :=
      List.map_congr_left fun v hv => congrArg String.toList (ih v hv)
    rw [hitems]
  | obj members ih =>
    refine String.toList_inj.1 ?_
    rw [canon_obj, toList_dumps_obj, toList_dumps_obj, ← map_inOrder, inOrder_inOrder, Delimited.sequence_eq,
      Delimited.sequence_eq, List.map_map]
    have hmembers : (inOrder members).map (memberText ∘ fun m => (m.1, canon m.2)) = (inOrder members).map memberText := by
      refine List.map_congr_left fun m hm => ?_
      simp only [Function.comp_apply, memberText, ih m ((inOrder_perm _).mem_iff.1 hm)]
    rw [hmembers]

/-- Canonical JSON tells apart what differs in more than the order of members. -/
theorem dumps_eq_iff {v w : Json} (hv : numerals v = true) (hw : numerals w = true) : dumps v = dumps w ↔ canon v = canon w := by
  constructor
  · intro h
    have htext : (dumps v).toList ++ [] = (dumps w).toList ++ [] := by rw [h]
    exact (readsAs_canon v w hv hw [] [] (.nil _) (.nil _) htext).1
  · intro h
    rw [← dumps_canon v, h, dumps_canon]

/-- With distinct keys, objects are the same when each has the members of the other. -/
theorem canon_obj_eq_iff {members members' : List (String × Json)} (hv : (members.map (·.1)).Nodup) (hw : (members'.map (·.1)).Nodup) :
    canon (.obj members) = canon (.obj members') ↔
      ∀ k v, (∃ m ∈ members, m.1 = k ∧ canon m.2 = v) ↔ ∃ m ∈ members', m.1 = k ∧ canon m.2 = v := by
  have hmem : ∀ (ms : List (String × Json)) (k : String) (v : Json),
      (k, v) ∈ (inOrder ms).map (fun m => (m.1, canon m.2)) ↔ ∃ m ∈ ms, m.1 = k ∧ canon m.2 = v := by
    intro ms k v
    simp only [List.mem_map, Prod.mk.injEq, (inOrder_perm ms).mem_iff]
  have hkeys : ∀ ms : List (String × Json), (ms.map (·.1)).Nodup →
      (((inOrder ms).map fun m => (m.1, canon m.2)).map (·.1)).Nodup := by
    intro ms hms
    rw [List.map_map]
    exact ((inOrder_perm ms).map (·.1)).nodup_iff.2 hms
  have hsorted : ∀ ms : List (String × Json), ((inOrder ms).map fun m => (m.1, canon m.2)).Pairwise fun a b => a.1 ≤ b.1 := by
    intro ms
    exact List.pairwise_map.2 (inOrder_pairwise ms)
  rw [canon_obj, canon_obj, Json.obj.injEq]
  constructor
  · intro h k v
    rw [← hmem, ← hmem, h]
  · intro h
    have hboth : ∀ m, m ∈ (inOrder members).map (fun m => (m.1, canon m.2)) ↔
        m ∈ (inOrder members').map fun m => (m.1, canon m.2) := by
      rintro ⟨k, v⟩
      rw [hmem, hmem, h]
    refine List.Perm.eq_of_pairwise (fun a b ha hb hab hba => ?_) (hsorted members) (hsorted members')
      ((List.perm_ext_iff_of_nodup (hkeys members hv).of_map (hkeys members' hw).of_map).2 hboth)
    exact List.inj_on_of_nodup_map (hkeys members hv) ha ((hboth b).2 hb) (le_antisymm hab hba)

end TestingPlatform.Json
