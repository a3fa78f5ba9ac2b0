import Mathlib.Data.List.Perm.Basic

/-!
# First matches and classes

Where at most one element of a list matches, the first match is the match, in whatever order the list is
(`find?_perm`). Taken class by class, a list has the elements that it has (`flatMap_filter_perm`).
-/

namespace Lookup

variable {α κ : Type} {l l' : List α} {p : α → Bool} {a : α}

/-- At most one element matches. -/
def Unique (p : α → Bool) (l : List α) : Prop := ∀ a ∈ l, ∀ b ∈ l, p a = true → p b = true → a = b

theorem Unique.perm (h : Unique p l) (hp : l.Perm l') : Unique p l' :=
  fun a ha b hb => h a (hp.mem_iff.2 ha) b (hp.mem_iff.2 hb)

theorem find?_eq_some_iff (h : Unique p l) : l.find? p = some a ↔ a ∈ l ∧ p a = true := by
  constructor
  · intro hfind
    exact ⟨List.mem_of_find?_eq_some hfind, List.find?_some hfind⟩
  · rintro ⟨hmem, hmatch⟩
    cases hfind : l.find? p with
    | none => exact absurd hmatch (List.find?_eq_none.1 hfind a hmem)
    | some b => rw [h b (List.mem_of_find?_eq_some hfind) a hmem (List.find?_some hfind) hmatch]

theorem find?_perm (h : Unique p l) (hp : l.Perm l') : l.find? p = l'.find? p := by
  refine Option.ext fun a => ?_
  rw [find?_eq_some_iff h, find?_eq_some_iff (h.perm hp), hp.mem_iff]

theorem flatMap_filter_perm [DecidableEq κ] {f : α → κ} {ks : List κ} (hnodup : ks.Nodup) (h : ∀ a ∈ l, f a ∈ ks) :
    (ks.flatMap fun k => l.filter fun a => f a = k).Perm l := by
  induction ks generalizing l with
  | nil =>
    have hnil : l = [] := List.eq_nil_iff_forall_not_mem.2 fun a ha => List.not_mem_nil (h a ha)
    rw [hnil]
    rfl
  | cons k ks ih =>
    obtain ⟨hk, hks⟩ := List.nodup_cons.1 hnodup
    have hrest : ∀ a ∈ l.filter fun a => ¬ f a = k, f a ∈ ks := by
      intro a ha
      obtain ⟨hmem, hne⟩ := List.mem_filter.1 ha
      exact (List.mem_cons.1 (h a hmem)).resolve_left (by simpa using hne)
    -- the classes of the other keys lie in what `k` leaves
    have hclasses : (ks.flatMap fun k' => (l.filter fun a => ¬ f a = k).filter fun a => f a = k') =
        ks.flatMap fun k' => l.filter fun a => f a = k' := by
      refine List.flatMap_congr fun k' hk' => ?_
      rw [List.filter_filter]
      refine List.filter_congr fun a _ => ?_
      have hne : f a = k' → f a ≠ k := by
        rintro rfl rfl
        exact hk hk'
      simpa using hne
    rw [List.flatMap_cons, ← hclasses]
    refine ((ih hks hrest).append_left _).trans ?_
    have hsplit := List.filter_append_perm (fun a => decide (f a = k)) l
    simpa using hsplit

end Lookup
