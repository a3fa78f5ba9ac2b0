import Mathlib.Data.List.Infix

/-!
# Identifiers, instants, JSON and the closed enumerations

Values that several components share. An instant is a count of microseconds, the resolution of a
PostgreSQL `timestamptz`; durations are counted the same way. The enumerations are those of
`core/enums.py` that the modelled code reads, with the texts the database stores.
-/

namespace TestingPlatform

structure Uuid where
  val : Nat
  deriving DecidableEq, Repr

instance (n : Nat) : OfNat Uuid n := ⟨⟨n⟩⟩

/-- Microseconds since the epoch. -/
abbrev Time := Int

namespace Time

def seconds (n : Int) : Time := n * 1000000
def minutes (n : Int) : Time := seconds (n * 60)
def hours (n : Int) : Time := minutes (n * 60)
def days (n : Int) : Time := hours (n * 24)

/-- `datetime.max` in UTC, 9999-12-31T23:59:59.999999. -/
def datetimeMax : Time := seconds 253402300800 - 1

/-- `t + timedelta(seconds=n)` for a duration that is not negative; `none` where it raises `OverflowError`. -/
def plusSeconds (t : Time) (n : Int) : Option Time := if t + seconds n ≤ datetimeMax then some (t + seconds n) else none

theorem plusSeconds_eq_some {t t' : Time} {n : Int} : t.plusSeconds n = some t' ↔ t + seconds n ≤ datetimeMax ∧ t' = t + seconds n := by
  unfold plusSeconds
  split
  next hfits => simp [hfits, eq_comm]
  next hlate => simp [hlate]

end Time

/-- A JSON value. Numbers keep the text `json.dumps` writes; the members of an object keep their order. -/
inductive Json where
  | null
  | bool (b : Bool)
  | num (text : String)
  | str (s : String)
  | arr (items : List Json)
  | obj (members : List (String × Json))
  deriving Repr

namespace Text

/-- The characters `str.isspace` accepts, which `str.strip` removes. -/
def isSpace (c : Char) : Bool :=
  let n := c.toNat
  (9 ≤ n && n ≤ 13) || (28 ≤ n && n ≤ 32) || n = 0x85 || n = 0xa0 || n = 0x1680 ||
    (0x2000 ≤ n && n ≤ 0x200a) || n = 0x2028 || n = 0x2029 || n = 0x202f || n = 0x205f || n = 0x3000

/-- `not text.strip()`. -/
def blank (s : String) : Bool := s.toList.all isSpace

def contains (s sub : String) : Bool := decide (sub.toList <:+: s.toList)

/-- Lowercase segments joined by dots, at least two of them: `^[a-z0-9_]+(\.[a-z0-9_]+)+$`. -/
def namespaced (s : String) : Bool :=
  let segments := s.toList.splitOn '.'
  2 ≤ segments.length && segments.all fun seg =>
    !seg.isEmpty && seg.all fun c => ('a' ≤ c && c ≤ 'z') || ('0' ≤ c && c ≤ '9') || c = '_'

/-- The text has a U+0000, which PostgreSQL stores neither as `text` nor in a string of a `jsonb` value. -/
def hasNul (s : String) : Bool := s.toList.any fun c => c.toNat = 0

end Text

namespace Json

/-- `d[k] = v` on the members of an object. -/
def assign (members : List (String × Json)) (k : String) (v : Json) : List (String × Json) :=
  if members.any fun m => m.1 == k then members.map fun m => if m.1 = k then (k, v) else m
  else members ++ [(k, v)]

def getD (members : List (String × Json)) (k : String) (default : Json) : Json :=
  ((members.find? fun m => m.1 == k).map (·.2)).getD default

mutual

/-- What `json.dumps` writes for the value is no `jsonb`: somewhere in it there is a U+0000, or a NaN or an infinity,
for which Python writes bare tokens that are not JSON. -/
def unstorable : Json → Bool
  | .null | .bool _ => false
  | .num t => t = "NaN" || t = "Infinity" || t = "-Infinity"
  | .str s => Text.hasNul s
  | .arr items => unstorableItems items
  | .obj members => unstorableMembers members

def unstorableItems : List Json → Bool
  | [] => false
  | v :: vs => v.unstorable || unstorableItems vs

def unstorableMembers : List (String × Json) → Bool
  | [] => false
  | (k, v) :: ms => Text.hasNul k || v.unstorable || unstorableMembers ms

end

end Json

/-! ### Enumerations -/

inductive ScanModule where
  | email | web | file | pqc | dnssec
  deriving DecidableEq, Repr

inductive ScanClassification where
  | nonIntrusive | intrusive | notApplicable
  deriving DecidableEq, Repr

inductive ScanJobStatus where
  | queued | running | completed | partial_ | failed | canceled
  deriving DecidableEq, Repr

inductive ScanTaskStatus where
  | queued | running | completed | failed | skipped | blocked | canceled
  deriving DecidableEq, Repr

inductive ScanGrade where
  | aPlus | a | b | c | d | f
  deriving DecidableEq, Repr

inductive FindingSeverity where
  | critical | high | medium | low | info
  deriving DecidableEq, Repr

/-- What requested a scan job. -/
inductive ScanSource where
  | guest | manual | schedule | api
  deriving DecidableEq, Repr

inductive FindingStatus where
  | new | regression | persistent | resolved
  deriving DecidableEq, Repr

inductive AssetType where
  | domain
  deriving DecidableEq, Repr

inductive KeyScope where
  | organization | user | scanJob
  deriving DecidableEq, Repr

namespace ScanModule

/-- `ScanModule.value`. -/
def value : ScanModule → String
  | email => "email" | web => "web" | file => "file" | pqc => "pqc" | dnssec => "dnssec"

end ScanModule

namespace FindingSeverity

def value : FindingSeverity → String
  | critical => "critical" | high => "high" | medium => "medium" | low => "low" | info => "info"

/-- The members in declaration order. -/
def all : List FindingSeverity := [critical, high, medium, low, info]

end FindingSeverity

namespace ScanTaskStatus

/-- `TERMINAL_TASK_STATUSES`. -/
def terminal : ScanTaskStatus → Bool
  | completed | failed | skipped | blocked | canceled => true
  | queued | running => false

@[simp] theorem terminal_queued : queued.terminal = false := rfl
@[simp] theorem terminal_running : running.terminal = false := rfl
@[simp] theorem terminal_completed : completed.terminal = true := rfl
@[simp] theorem terminal_failed : failed.terminal = true := rfl
@[simp] theorem terminal_skipped : skipped.terminal = true := rfl
@[simp] theorem terminal_blocked : blocked.terminal = true := rfl
@[simp] theorem terminal_canceled : canceled.terminal = true := rfl

end ScanTaskStatus

namespace ScanJobStatus

/-- `TERMINAL_JOB_STATUSES`. -/
def terminal : ScanJobStatus → Bool
  | completed | partial_ | failed | canceled => true
  | queued | running => false

@[simp] theorem terminal_queued : queued.terminal = false := rfl
@[simp] theorem terminal_running : running.terminal = false := rfl

end ScanJobStatus

end TestingPlatform
