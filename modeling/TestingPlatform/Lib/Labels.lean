import Mathlib.Data.List.Infix

/-!
# Containment on the boundaries of a separator

A list with separators is the path of its pieces. `Within sep p t` says on the lists that `t` is `p` or lies
beneath it: `t` ends with a separator and `p`. On the pieces this is the suffix order (`splitOn_suffix_iff`),
and so it is a partial order in which what lies above a common list is a chain.
-/

namespace Labels

variable {α : Type} {sep : α} {p q t : List α}

/-- `t` is `p`, or ends with a separator followed by `p`. -/
def Within (sep : α) (p t : List α) : Prop := t = p ∨ (sep :: p) <:+ t

theorem intercalate_cons_append (a : List α) (l : List (List α)) {l' : List (List α)} (hl' : l' ≠ []) :
    [sep].intercalate (a :: l ++ l') = [sep].intercalate (a :: l) ++ sep :: [sep].intercalate l' := by
  induction l generalizing a with
  | nil =>
    rw [List.singleton_append, List.intercalate_cons_of_ne_nil hl', List.intercalate_singleton]
    simp
  | cons b l ih =>
    rw [List.cons_append, List.intercalate_cons_of_ne_nil (by simp), ih, List.intercalate_cons_cons]
    simp

variable [BEq α] [LawfulBEq α]

theorem splitOn_inj (h : p.splitOn sep = t.splitOn sep) : p = t := by
  have hp : [sep].intercalate (p.splitOn sep) = p := List.intercalate_splitOn sep
  rw [← hp, h, List.intercalate_splitOn]

/-- A suffix of the pieces is a suffix of the list that begins at a separator. -/
theorem splitOn_suffix_iff : p.splitOn sep <:+ t.splitOn sep ↔ Within sep p t := by
  constructor
  · rintro ⟨l, hl⟩
    rcases l with _ | ⟨a, l⟩
    · exact .inl (splitOn_inj hl).symm
    · right
      have ht : [sep].intercalate (a :: l ++ p.splitOn sep) = t := by rw [hl, List.intercalate_splitOn]
      rw [intercalate_cons_append a l (List.splitOn_ne_nil sep p), List.intercalate_splitOn] at ht
      exact ⟨_, ht⟩
  · rintro (rfl | ⟨u, rfl⟩)
    · exact List.suffix_refl _
    · rw [List.splitOn_append_cons_self]
      exact List.suffix_append _ _

namespace Within

omit [BEq α] [LawfulBEq α] in
theorem refl (sep : α) (p : List α) : Within sep p p := .inl rfl

theorem trans (h : Within sep p q) (h' : Within sep q t) : Within sep p t :=
  splitOn_suffix_iff.1 ((splitOn_suffix_iff.2 h).trans (splitOn_suffix_iff.2 h'))

theorem antisymm (h : Within sep p q) (h' : Within sep q p) : p = q :=
  splitOn_inj ((splitOn_suffix_iff.2 h).eq_of_length_le (splitOn_suffix_iff.2 h').length_le)

/-- Of two lists above a common one, one is above the other. -/
theorem comparable (h : Within sep p t) (h' : Within sep q t) : Within sep p q ∨ Within sep q p :=
  (List.suffix_or_suffix_of_suffix (splitOn_suffix_iff.2 h) (splitOn_suffix_iff.2 h')).imp
    splitOn_suffix_iff.1 splitOn_suffix_iff.1

end Within

end Labels
