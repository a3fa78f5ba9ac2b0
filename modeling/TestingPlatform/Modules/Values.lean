import TestingPlatform.Assets.Names
import TestingPlatform.Lib.Binary
import TestingPlatform.Modules.Normalization

/-!
# JSON values in the hands of Python

What the built-ins that the modules apply to untyped JSON make of a value: `str` and `repr`, truth, iteration,
`len` and `.get`, `float` and `dict`. A number is read off the text that `json.dumps` writes for it: digits alone are an
`int`, anything else a `float`. What the Unicode database decides outside ASCII is a parameter.
-/

namespace TestingPlatform

open Binary (double)

/-- Python's text functions; outside ASCII they are left open but for how `lower` and `strip` combine. -/
structure PyText extends Assets.StrLower where
  lower_lower : ∀ s, lower (lower s) = lower s
  strip_lower : ∀ s, Assets.strip (lower s) = lower (Assets.strip s)
  /-- `str.isprintable` of a character beyond ASCII. -/
  isPrintable : Char → Bool
  /-- A number under the format `g`. -/
  formatG : ℚ → String
  /-- The text that `float` parses: digits and blanks beyond ASCII are replaced by ASCII ones. -/
  toDecimal : List Char → List Char
  toDecimal_ascii : ∀ s, (∀ c ∈ s, c.toNat < 128) → toDecimal s = s

/-! ### Texts -/

namespace PyText
variable (T : PyText)

/-- `text.strip().lower()`. -/
def fold (s : String) : String := String.ofList (T.lower (Assets.strip s.toList))

def reprChar (quote c : Char) : List Char :=
  let n := c.toNat
  if c = quote || c = '\\' then ['\\', c]
  else if c = '\t' then ['\\', 't'] else if c = '\n' then ['\\', 'n'] else if c = '\r' then ['\\', 'r']
  else if 32 ≤ n && n ≤ 126 || 128 ≤ n && T.isPrintable c then [c]
  else if n ≤ 0xff then ['\\', 'x', Json.hexDigit (n / 16), Json.hexDigit (n % 16)]
  else if n ≤ 0xffff then Json.unicodeEscape n
  else ['\\', 'U', '0', '0', Json.hexDigit (n / 1048576 % 16), Json.hexDigit (n / 65536 % 16)] ++
    (Json.unicodeEscape n).drop 2

/-- `repr` of a string; single quotes unless only those occur in it. -/
def reprStr (s : String) : String :=
  let single := Char.ofNat 39
  let quote := if s.toList.contains single && !s.toList.contains '"' then '"' else single
  String.ofList (quote :: s.toList.flatMap (T.reprChar quote) ++ [quote])

/-- The floats that JSON cannot write have another name in Python. -/
def numberText : String → String
  | "NaN" => "nan"
  | "Infinity" => "inf"
  | "-Infinity" => "-inf"
  | text => text

mutual

def repr : Json → String
  | .null => "None"
  | .bool b => if b then "True" else "False"
  | .num t => numberText t
  | .str s => T.reprStr s
  | .arr items => "[" ++ ", ".intercalate (reprItems items) ++ "]"
  | .obj members => "\x7b" ++ ", ".intercalate (reprMembers members) ++ "\x7d"

def reprItems : List Json → List String
  | [] => []
  | v :: vs => repr v :: reprItems vs

def reprMembers : List (String × Json) → List String
  | [] => []
  | (k, v) :: ms => (T.reprStr k ++ ": " ++ repr v) :: reprMembers ms

end

def str : Json → String
  | .str s => s
  | v => T.repr v

end PyText

/-! ### Folding -/

section Fold

theorem isSpace_toLower (c : Char) : Text.isSpace c.toLower = Text.isSpace c := by
  rcases Assets.toNat_toLower c with h | ⟨h₁, h₂, h⟩
  · rw [h]
  · have hc : Text.isSpace c = false := by
      simp [Text.isSpace]
      omega
    have hlow : Text.isSpace c.toLower = false := by
      simp [Text.isSpace, h]
      omega
    rw [hc, hlow]

theorem toLower_toLower (c : Char) : c.toLower.toLower = c.toLower := by
  rcases Assets.toNat_toLower c with h | ⟨hlow, -, h⟩
  · rw [h, h]
  · rcases Assets.toNat_toLower c.toLower with h' | ⟨-, hupper, -⟩
    · exact h'
    · omega

theorem strip_map_toLower (s : List Char) : Assets.strip (s.map Char.toLower) = (Assets.strip s).map Char.toLower := by
  have hspace : Text.isSpace ∘ Char.toLower = Text.isSpace := funext isSpace_toLower
  rw [Assets.strip, Assets.strip, List.dropWhile_map, hspace, List.rdropWhile, List.rdropWhile, ← List.map_reverse,
    List.dropWhile_map, hspace, List.map_reverse]

def PyText.ascii : PyText where
  toStrLower := .ascii
  lower_lower s := by
    show (s.map Char.toLower).map Char.toLower = s.map Char.toLower
    rw [List.map_map]
    exact List.map_congr_left fun c _ => toLower_toLower c
  strip_lower := strip_map_toLower
  isPrintable _ := false
  formatG q := toString q
  toDecimal s := s
  toDecimal_ascii _ _ := rfl

theorem strip_strip (s : List Char) : Assets.strip (Assets.strip s) = Assets.strip s := by
  rcases eq_or_ne (Assets.strip s) [] with hnil | hne
  · rw [hnil]
    rfl
  · have hbegins : Assets.strip s <+: s.dropWhile Text.isSpace := List.rdropWhile_prefix _ _
    have hdrop : s.dropWhile Text.isSpace ≠ [] := by
      intro h
      rw [h, List.prefix_nil] at hbegins
      exact hne hbegins
    refine (Assets.strip_eq_self_iff hne).2 ⟨?_, ?_⟩
    · rw [hbegins.head hne]
      exact List.head_dropWhile_not _ hdrop
    · exact Bool.eq_false_of_not_eq_true (List.rdropWhile_last_not _ _ hne)

variable (T : PyText)

@[simp] theorem PyText.fold_fold (s : String) : T.fold (T.fold s) = T.fold s := by
  rw [fold, fold, String.toList_ofList, T.strip_lower, strip_strip, T.lower_lower]

/-- ASCII in lower case, without blanks at the ends. -/
def plain (s : String) : Bool :=
  (s.toList.all fun c => c.toNat < 128) && (Assets.strip s.toList).map Char.toLower = s.toList

@[simp] theorem PyText.fold_plain {s : String} (h : plain s = true) : T.fold s = s := by
  rw [plain, Bool.and_eq_true, List.all_eq_true, decide_eq_true_eq] at h
  obtain ⟨hascii, hfold⟩ := h
  have hlow : ∀ c ∈ Assets.strip s.toList, c.toNat < 128 := by
    intro c hc
    exact of_decide_eq_true (hascii c ((Assets.strip_sublist s.toList).subset hc))
  rw [fold, T.lower_ascii _ hlow, hfold, String.ofList_toList]

end Fold

/-! ### Containers -/

/-- The digits of a number in base ten. -/
def natOfDigits (ds : List Char) : Option ℕ :=
  if ds ≠ [] && ds.all Char.isDigit then some (ds.foldl (fun n c => 10 * n + (c.toNat - 48)) 0) else none

/-- An integer literal of JSON. -/
def intOfText (text : String) : Option ℤ :=
  match text.toList with
  | '-' :: ds => (natOfDigits ds).map fun n => -(n : ℤ)
  | ds => (natOfDigits ds).map fun n => (n : ℤ)

namespace Json

/-- `type(value).__name__`. -/
def typeName : Json → String
  | .null => "NoneType"
  | .bool _ => "bool"
  | .num t => if (intOfText t).isSome then "int" else "float"
  | .str _ => "str"
  | .arr _ => "list"
  | .obj _ => "dict"

/-- `bool(value)`. -/
def truthy : Json → Bool
  | .null => false
  | .bool b => b
  | .num t => t ≠ "0" && t ≠ "0.0" && t ≠ "-0.0"
  | .str s => s ≠ ""
  | .arr items => !items.isEmpty
  | .obj members => !members.isEmpty

/-- `for item in value`: the elements, the characters or the keys. -/
def iter : Json → Except PyException (List Json)
  | .arr items => .ok items
  | .str s => .ok (s.toList.map fun c => .str (String.singleton c))
  | .obj members => .ok (members.map fun m => .str m.1)
  | v => .error (.other ("'" ++ v.typeName ++ "' object is not iterable"))

/-- `len(value)`. -/
def len : Json → Except PyException ℕ
  | .arr items => .ok items.length
  | .str s => .ok s.toList.length
  | .obj members => .ok members.length
  | v => .error (.other ("object of type '" ++ v.typeName ++ "' has no len()"))

/-- `value.get`: only a dictionary has it. -/
def members : Json → Except PyException (List (String × Json))
  | .obj members => .ok members
  | v => .error (.other ("'" ++ v.typeName ++ "' object has no attribute 'get'"))

theorem members_eq_ok {v : Json} {members : List (String × Json)} : v.members = .ok members ↔ v = .obj members := by
  cases v <;> simp [Json.members]

theorem len_of_iter {v : Json} {items : List Json} (h : v.iter = .ok items) : v.len = .ok items.length := by
  cases v <;> cases h <;> simp [len]

theorem exists_map_obj {items : List Json} (h : ∀ v ∈ items, ∃ members, v = .obj members) :
    ∃ ms : List (List (String × Json)), items = ms.map .obj := by
  induction items with
  | nil => exact ⟨[], rfl⟩
  | cons v vs ih =>
    obtain ⟨members, rfl⟩ := h v List.mem_cons_self
    obtain ⟨ms, rfl⟩ := ih fun w hw => h w (List.mem_cons_of_mem _ hw)
    exact ⟨members :: ms, rfl⟩

end Json

/-! ### `float` -/

inductive PyFloat where
  | finite (q : ℚ)
  | inf (negative : Bool)
  | nan
  deriving DecidableEq

/-- The nearest float, infinite beyond the largest. -/
def PyFloat.ofRat (q : ℚ) : PyFloat := if double.overflows q then .inf (q < 0) else .finite (double.round q)

/-- What `float(value)` raises. -/
inductive FloatError where
  | typeError | valueError | overflowError
  deriving DecidableEq

section Float

/-- Underscores stand between digits only, and are dropped. -/
def dropUnderscores (prev : Char) : List Char → Option (List Char)
  | [] => if prev = '_' then none else some []
  | '_' :: cs => if prev.isDigit then dropUnderscores '_' cs else none
  | c :: cs => if prev = '_' && !c.isDigit then none else (dropUnderscores c cs).map (c :: ·)

/-- The exponent part after the digits, if any. -/
def exponentOf : List Char → Option ℤ
  | [] => some 0
  | e :: cs =>
    if e = 'e' || e = 'E' then
      match cs with
      | '-' :: ds => (natOfDigits ds).map fun n => -(n : ℤ)
      | '+' :: ds => (natOfDigits ds).map fun n => (n : ℤ)
      | ds => (natOfDigits ds).map fun n => (n : ℤ)
    else none

/-- Digits with a point among them and an exponent. -/
def decimalOf (cs : List Char) : Option ℚ :=
  let whole := cs.takeWhile Char.isDigit
  let rest := cs.dropWhile Char.isDigit
  let fraction := if rest.head? = some '.' then rest.tail.takeWhile Char.isDigit else []
  let rest := if rest.head? = some '.' then rest.tail.dropWhile Char.isDigit else rest
  match natOfDigits (whole ++ fraction), exponentOf rest with
  | some digits, some e => some (digits * 10 ^ (e - fraction.length))
  | _, _ => none

def unsignedFloat (negative : Bool) (cs : List Char) : Option PyFloat :=
  let word := String.ofList (cs.map Char.toLower)
  if word = "inf" || word = "infinity" then some (.inf negative)
  else if word = "nan" then some .nan
  else (decimalOf cs).map fun q => .ofRat (if negative then -q else q)

/-- The blanks that `float` ignores at the ends. -/
def asciiBlank (c : Char) : Bool := (9 ≤ c.toNat && c.toNat ≤ 13) || c = ' '

def floatOfText (cs : List Char) : Option PyFloat :=
  match dropUnderscores ' ' ((cs.dropWhile asciiBlank).rdropWhile asciiBlank) with
  | none => none
  | some ('-' :: cs) => unsignedFloat true cs
  | some ('+' :: cs) => unsignedFloat false cs
  | some cs => unsignedFloat false cs

/-- `float(value)`: an integer that rounds beyond the largest float is an error, a text is not. -/
def float (T : PyText) : Json → Except FloatError PyFloat
  | .null | .arr _ | .obj _ => .error .typeError
  | .bool b => .ok (.finite (if b then 1 else 0))
  | .num t =>
    match intOfText t with
    | some n => if double.overflows n then .error .overflowError else .ok (.finite (double.round n))
    | none => (floatOfText t.toList).elim (.error .valueError) .ok
  | .str s => (floatOfText (T.toDecimal s.toList)).elim (.error .valueError) .ok

end Float

/-! ### `dict` -/

/-- A dictionary key up to `==`, by which `True`, `1` and `1.0` are one key. -/
inductive DictKey where
  | null
  | number (x : PyFloat)
  | text (s : String)
  deriving DecidableEq

namespace DictKey

/-- An integer is compared by its exact value, also with a float. -/
def ofNumber (t : String) : DictKey :=
  match intOfText t with
  | some n => .number (.finite n)
  | none => .number ((floatOfText t.toList).getD .nan)

example : ofNumber "1.0" = ofNumber "1" ∧ ofNumber "1e-1" = ofNumber "0.1" ∧ ofNumber "0.1" ≠ ofNumber "0" := by
  decide +kernel

end DictKey

namespace Json

/-- The key and the member name that `json.dumps` gives it; `none` for an unhashable value. -/
def key : Json → Option (DictKey × String)
  | .str s => some (.text s, s)
  | .num t => some (.ofNumber t, t)
  | .bool b => some (.number (.finite (if b then 1 else 0)), if b then "true" else "false")
  | .null => some (.null, "null")
  | .arr _ | .obj _ => none

/-- One element of a sequence handed to `dict`: any iterable of exactly two values. -/
def pairOf : Json → Option ((DictKey × String) × Json)
  | .arr [k, v] => k.key.map fun k => (k, v)
  | .obj [(k, _), (v, _)] => some ((.text k, k), .str v)
  | .str s =>
    match s.toList with
    | [k, v] => some ((.text (String.singleton k), String.singleton k), .str (String.singleton v))
    | _ => none
  | _ => none

/-- `d[k] = v`: a key that is there keeps its spelling. -/
def insertPair (d : List ((DictKey × String) × Json)) (p : (DictKey × String) × Json) : List ((DictKey × String) × Json) :=
  if d.any fun m => m.1.1 = p.1.1 then d.map fun m => if m.1.1 = p.1.1 then (m.1, p.2) else m else d ++ [p]

/-- Python's `dict(value)` as a `jsonb` column keeps it, of equal names the last; `none` where `dict` raises. -/
def dict : Json → Option (List (String × Json))
  | .obj members => some members
  | .arr items => (items.mapM pairOf).map fun ps =>
    (ps.foldl insertPair []).foldl (fun d m => assign d m.1.2 m.2) []
  | .str "" => some []
  | _ => none

end Json

end TestingPlatform
