import Mathlib.Data.Option.Basic

/-!
# SQL truth values

A condition is true, false or unknown (`none`); a row qualifies only when the condition is true.
-/

/-- An SQL truth value; `none` is unknown. -/
abbrev Tri := Option Bool

namespace Tri

variable {α : Type}

/-- `a = b`, unknown when an operand is NULL. -/
def eq [DecidableEq α] (a b : Option α) : Tri :=
  match a, b with
  | some x, some y => some (decide (x = y))
  | _, _ => none

/-- `p OR q`. -/
def or (p q : Tri) : Tri :=
  match p, q with
  | some true, _ | _, some true => some true
  | some false, some false => some false
  | _, _ => none

/-- `p AND q`. -/
def and (p q : Tri) : Tri :=
  match p, q with
  | some false, _ | _, some false => some false
  | some true, some true => some true
  | _, _ => none

/-- `EXISTS (SELECT 1 FROM rows WHERE p)`; never unknown. -/
def exists' (rows : List α) (p : α → Tri) : Tri := some (rows.any fun a => p a = some true)

/-- The condition is true, so the row qualifies. -/
abbrev Holds (p : Tri) : Prop := p = some true

@[simp] theorem holds_eq [DecidableEq α] {a b : Option α} : (eq a b).Holds ↔ ∃ x, a = some x ∧ b = some x := by
  cases a <;> cases b <;> simp [eq, Holds, eq_comm]

@[simp] theorem holds_or {p q : Tri} : (or p q).Holds ↔ p.Holds ∨ q.Holds := by
  rcases p with - | (- | -) <;> rcases q with - | (- | -) <;> simp [or, Holds]

@[simp] theorem holds_and {p q : Tri} : (and p q).Holds ↔ p.Holds ∧ q.Holds := by
  rcases p with - | (- | -) <;> rcases q with - | (- | -) <;> simp [and, Holds]

@[simp] theorem holds_exists {rows : List α} {p : α → Tri} : (exists' rows p).Holds ↔ ∃ a ∈ rows, (p a).Holds := by
  simp [exists', Holds]

end Tri
