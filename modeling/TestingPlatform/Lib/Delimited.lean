import Mathlib.Data.List.Forall2
import Mathlib.Data.List.Infix

/-!
# Delimited texts

What can be read back from the beginning of a longer text. A token without delimiters ends at the first of them
(`token_inj`). Elements that are read back before a delimiter make sequences that are: written one after the other with
a separator and closed with a delimiter of its own, two of them agree element by element (`sequence_inj`). A pattern without
delimiters is found in such a sequence when it is found in an element (`infix_sequence`).
-/

namespace Delimited

variable {α β : Type}

/-- Nothing, or something that begins with a delimiter. -/
def Ends (stop : α → Prop) (rest : List α) : Prop := ∀ c ∈ rest.head?, stop c

theorem Ends.nil (stop : α → Prop) : Ends stop [] := by simp [Ends]

theorem Ends.cons {stop : α → Prop} {c : α} {rest : List α} (h : stop c) : Ends stop (c :: rest) := by simpa [Ends] using h

theorem token_inj {stop : α → Prop} {s t x y : List α} (hs : ∀ c ∈ s, ¬ stop c) (ht : ∀ c ∈ t, ¬ stop c) (hx : Ends stop x)
    (hy : Ends stop y) (h : s ++ x = t ++ y) : s = t ∧ x = y := by
  induction s generalizing t with
  | nil =>
    cases t with
    | nil => exact ⟨rfl, h⟩
    | cons c t =>
      rw [List.nil_append] at h
      exact absurd (hx c (by simp [h])) (ht c List.mem_cons_self)
  | cons c s ih =>
    cases t with
    | nil =>
      rw [List.nil_append] at h
      exact absurd (hy c (by simp [← h])) (hs c List.mem_cons_self)
    | cons d t =>
      obtain ⟨rfl, htail⟩ := List.cons.inj h
      obtain ⟨rfl, hrest⟩ := ih (fun a ha => hs a (List.mem_cons_of_mem _ ha)) (fun a ha => ht a (List.mem_cons_of_mem _ ha)) htail
      exact ⟨rfl, hrest⟩

/-- Two elements are told apart before anything that ends them. -/
def ReadsAs (stop : α → Prop) (text : β → List α) (R : β → β → Prop) (a b : β) : Prop :=
  ∀ x y, Ends stop x → Ends stop y → text a ++ x = text b ++ y → R a b ∧ x = y

/-- The elements that follow the first one, each after a separator, and the end. -/
def followers (text : β → List α) (sep : List α) (close : α) : List β → List α
  | [] => [close]
  | b :: bs => sep ++ text b ++ followers text sep close bs

/-- The elements with separators between them, and the end. -/
def sequence (text : β → List α) (sep : List α) (close : α) : List β → List α
  | [] => [close]
  | b :: bs => text b ++ followers text sep close bs

theorem intercalate_cons (sep a : List α) (as : List (List α)) :
    sep.intercalate (a :: as) = a ++ as.flatMap fun b => sep ++ b := by
  induction as generalizing a with
  | nil => simp [List.intercalate]
  | cons b bs ih => rw [List.intercalate_cons_cons, ih, List.flatMap_cons, List.append_assoc, List.append_assoc]

theorem followers_eq (text : β → List α) (sep : List α) (close : α) (bs : List β) :
    followers text sep close bs = (bs.flatMap fun b => sep ++ text b) ++ [close] := by
  induction bs with
  | nil => rfl
  | cons b bs ih => rw [followers, ih, List.flatMap_cons, List.append_assoc (sep ++ text b)]

theorem sequence_eq (text : β → List α) (sep : List α) (close : α) (bs : List β) :
    sequence text sep close bs = sep.intercalate (bs.map text) ++ [close] := by
  cases bs with
  | nil => rfl
  | cons b bs => rw [sequence, followers_eq, List.map_cons, intercalate_cons, List.flatMap_map, List.append_assoc]

section Sequence
variable {stop : α → Prop} {text : β → List α} {R : β → β → Prop} {c close : α} {sep : List α} {l l' : List β} {x y : List α}
  (hsep : stop c) (hclose : stop close)

include hsep hclose in
theorem ends_followers : Ends stop (followers text (c :: sep) close l ++ x) := by
  cases l with
  | nil => exact .cons hclose
  | cons b bs => exact .cons hsep

include hsep hclose in
theorem followers_inj (hne : c ≠ close) (hread : ∀ a ∈ l, ∀ b ∈ l', ReadsAs stop text R a b)
    (h : followers text (c :: sep) close l ++ x = followers text (c :: sep) close l' ++ y) : List.Forall₂ R l l' ∧ x = y := by
  induction l generalizing l' with
  | nil =>
    cases l' with
    | nil => exact ⟨.nil, (List.cons.inj h).2⟩
    | cons b bs => exact absurd (List.cons.inj h).1.symm hne
  | cons a as ih =>
    cases l' with
    | nil => exact absurd (List.cons.inj h).1 hne
    | cons b bs =>
      rw [followers, followers, List.append_assoc, List.append_assoc, List.append_assoc, List.append_assoc,
        List.append_right_inj] at h
      obtain ⟨hab, hrest⟩ := hread a List.mem_cons_self b List.mem_cons_self _ _ (ends_followers hsep hclose)
        (ends_followers hsep hclose) h
      obtain ⟨hforall, hxy⟩ := ih (fun a ha b hb => hread a (List.mem_cons_of_mem _ ha) b (List.mem_cons_of_mem _ hb)) hrest
      exact ⟨.cons hab hforall, hxy⟩

include hsep hclose in
/-- No element begins like the end, so the first one shows whether there is any. -/
theorem sequence_inj (hne : c ≠ close) (hread : ∀ a ∈ l, ∀ b ∈ l', ReadsAs stop text R a b)
    (hl : ∀ a ∈ l, ∃ d rest, text a = d :: rest ∧ d ≠ close) (hl' : ∀ a ∈ l', ∃ d rest, text a = d :: rest ∧ d ≠ close)
    (h : sequence text (c :: sep) close l ++ x = sequence text (c :: sep) close l' ++ y) : List.Forall₂ R l l' ∧ x = y := by
  cases l with
  | nil =>
    cases l' with
    | nil => exact ⟨.nil, (List.cons.inj h).2⟩
    | cons b bs =>
      obtain ⟨d, rest, htext, hd⟩ := hl' b List.mem_cons_self
      rw [sequence, sequence, htext] at h
      exact absurd (List.cons.inj h).1.symm hd
  | cons a as =>
    cases l' with
    | nil =>
      obtain ⟨d, rest, htext, hd⟩ := hl a List.mem_cons_self
      rw [sequence, sequence, htext] at h
      exact absurd (List.cons.inj h).1 hd
    | cons b bs =>
      rw [sequence, sequence, List.append_assoc, List.append_assoc] at h
      obtain ⟨hab, hrest⟩ := hread a List.mem_cons_self b List.mem_cons_self _ _ (ends_followers hsep hclose)
        (ends_followers hsep hclose) h
      obtain ⟨hforall, hxy⟩ := followers_inj hsep hclose hne
        (fun a ha b hb => hread a (List.mem_cons_of_mem _ ha) b (List.mem_cons_of_mem _ hb)) hrest
      exact ⟨.cons hab hforall, hxy⟩

end Sequence

section Patterns
variable {text : β → List α} {p a b sep : List α} {c close : α} {l : List β}

/-- A pattern without the delimiter lies on one side of it. -/
theorem infix_append_cons (hc : c ∉ p) : p <:+: a ++ c :: b ↔ p <:+: a ∨ p <:+: b := by
  constructor
  · rintro ⟨s, t, h⟩
    rcases List.append_eq_append_iff.1 h with ⟨a', ha, -⟩ | ⟨b', hb, ht⟩
    · exact .inl ⟨s, a', ha.symm⟩
    cases b' with
    | nil => exact .inl ⟨s, [], by simpa using hb⟩
    | cons d b' =>
      obtain ⟨rfl, rfl⟩ := List.cons.inj ht
      rcases List.append_eq_append_iff.1 hb with ⟨a', -, ha⟩ | ⟨b'', -, hb⟩
      · exact absurd (ha ▸ List.mem_append_right _ List.mem_cons_self) hc
      · cases b'' with
        | nil =>
          rw [List.nil_append] at hb
          exact absurd (hb ▸ List.mem_cons_self) hc
        | cons d b'' =>
          obtain ⟨-, rfl⟩ := List.cons.inj hb
          exact .inr ⟨b'', t, rfl⟩
  · rintro (⟨s, t, rfl⟩ | ⟨s, t, rfl⟩)
    · exact ⟨s, t ++ c :: b, by simp⟩
    · exact ⟨a ++ c :: s, t, by simp⟩

theorem infix_append_of_disjoint (hne : p ≠ []) (hsep : ∀ d ∈ sep, d ∉ p) : p <:+: sep ++ a ↔ p <:+: a := by
  induction sep with
  | nil => rfl
  | cons d sep ih =>
    have hd : d ∉ p := hsep d List.mem_cons_self
    have hsplit : p <:+: [] ++ d :: (sep ++ a) ↔ _ := infix_append_cons hd
    rw [List.cons_append, ← ih fun d hd => hsep d (List.mem_cons_of_mem _ hd)]
    simpa [hne] using hsplit

variable (hne : p ≠ []) (hc : c ∉ p) (hsep : ∀ d ∈ sep, d ∉ p) (hclose : close ∉ p)

include hne hc hsep hclose in
theorem infix_followers : p <:+: a ++ followers text (c :: sep) close l ↔ p <:+: a ∨ ∃ b ∈ l, p <:+: text b := by
  induction l generalizing a with
  | nil => simp [followers, infix_append_cons hclose, hne]
  | cons b bs ih =>
    rw [followers, List.append_assoc, List.cons_append, infix_append_cons hc, infix_append_of_disjoint hne hsep, ih]
    simp

include hne hc hsep hclose in
/-- A pattern without separator and end lies in one of the elements. -/
theorem infix_sequence : p <:+: sequence text (c :: sep) close l ↔ ∃ b ∈ l, p <:+: text b := by
  cases l with
  | nil =>
    have hend : p <:+: [] ++ [close] ↔ _ := infix_append_cons hclose
    simpa [sequence, hne] using hend
  | cons b bs => rw [sequence, infix_followers hne hc hsep hclose, List.exists_mem_cons_iff]

end Patterns

end Delimited
