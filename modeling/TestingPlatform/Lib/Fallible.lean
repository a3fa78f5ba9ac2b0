import Mathlib.Data.List.Forall2

/-!
# Computations that may fail

What `>>=` and `List.mapM` compute in `Except` and `Option`. A traversal succeeds when every element does, with
the results side by side (`mapM_eq_ok`), and fails with the failure of the first element that has one.
-/

namespace Fallible

variable {α β γ ε : Type}

theorem bind_eq_ok {e : Except ε α} {f : α → Except ε β} {b : β} : e >>= f = .ok b ↔ ∃ a, e = .ok a ∧ f a = .ok b := by
  cases e with
  | error r =>
    constructor
    · intro h
      cases h
    · rintro ⟨a, h, -⟩
      cases h
  | ok a =>
    constructor
    · exact fun h => ⟨a, rfl, h⟩
    · rintro ⟨b, h, hf⟩
      cases h
      exact hf

theorem bind_eq_error {e : Except ε α} {f : α → Except ε β} {r : ε} :
    e >>= f = .error r ↔ e = .error r ∨ ∃ a, e = .ok a ∧ f a = .error r := by
  cases e with
  | error r' =>
    constructor
    · intro h
      cases h
      exact .inl rfl
    · rintro (h | ⟨a, h, -⟩)
      · cases h
        rfl
      · cases h
  | ok a =>
    constructor
    · exact fun h => .inr ⟨a, rfl, h⟩
    · rintro (h | ⟨b, h, hf⟩)
      · cases h
      · cases h
        exact hf

section MapM
variable {l : List α} {l' : List β} {a : α} {b : β}

theorem mapM_eq_ok {f : α → Except ε β} : l.mapM f = .ok l' ↔ List.Forall₂ (fun a b => f a = .ok b) l l' := by
  induction l generalizing l' with
  | nil =>
    rw [List.mapM_nil, List.forall₂_nil_left_iff]
    constructor
    · intro h
      cases h
      rfl
    · rintro rfl
      rfl
  | cons a l ih =>
    rw [List.mapM_cons, bind_eq_ok, List.forall₂_cons_left_iff]
    simp only [bind_eq_ok, ih]
    constructor
    · rintro ⟨b, hb, l'', hl'', h⟩
      cases h
      exact ⟨b, l'', hb, hl'', rfl⟩
    · rintro ⟨b, l'', hb, hl'', rfl⟩
      exact ⟨b, hb, l'', hl'', rfl⟩

theorem mapM_eq_map {f : α → Except ε β} {g : α → β} (h : ∀ a ∈ l, f a = .ok (g a)) : l.mapM f = .ok (l.map g) := by
  rw [mapM_eq_ok, List.forall₂_map_right_iff]
  exact List.forall₂_same.2 h

theorem mapM_congr {f g : α → Except ε β} (h : ∀ a ∈ l, f a = g a) : l.mapM f = l.mapM g := by
  induction l with
  | nil => rfl
  | cons a l ih =>
    rw [List.mapM_cons, List.mapM_cons, h a List.mem_cons_self, ih fun b hb => h b (List.mem_cons_of_mem _ hb)]

theorem mapM_eq_error {f : α → Except ε β} {r : ε} :
    l.mapM f = .error r ↔
      ∃ before a after, l = before ++ a :: after ∧ (∀ x ∈ before, ∃ b, f x = .ok b) ∧ f a = .error r := by
  induction l with
  | nil =>
    refine iff_of_false (fun h => by cases h) ?_
    rintro ⟨before, a, after, h, -⟩
    simp at h
  | cons a l ih =>
    rw [List.mapM_cons, bind_eq_error]
    simp only [bind_eq_error, ih]
    constructor
    · rintro (h | ⟨b, hb, ⟨before, a', after, rfl, hbefore, ha'⟩ | ⟨_, -, h⟩⟩)
      · exact ⟨[], a, l, rfl, by simp, h⟩
      · refine ⟨a :: before, a', after, rfl, ?_, ha'⟩
        intro x hx
        rcases List.mem_cons.1 hx with rfl | hx
        · exact ⟨b, hb⟩
        · exact hbefore x hx
      · cases h
    · rintro ⟨before, a', after, h, hbefore, ha'⟩
      cases before with
      | nil =>
        cases h
        exact .inl ha'
      | cons x before =>
        cases h
        obtain ⟨b, hb⟩ := hbefore a List.mem_cons_self
        exact .inr ⟨b, hb, .inl ⟨before, a', after, rfl, fun y hy => hbefore y (List.mem_cons_of_mem _ hy), ha'⟩⟩

theorem mapM_eq_some {f : α → Option β} : l.mapM f = some l' ↔ List.Forall₂ (fun a b => f a = some b) l l' := by
  induction l generalizing l' with
  | nil =>
    rw [List.mapM_nil, List.forall₂_nil_left_iff]
    constructor
    · intro h
      cases h
      rfl
    · rintro rfl
      rfl
  | cons a l ih =>
    simp only [List.mapM_cons, Option.bind_eq_bind, Option.bind_eq_some_iff, Option.pure_def, Option.some.injEq, ih,
      List.forall₂_cons_left_iff]
    constructor
    · rintro ⟨b, hb, l'', hl'', rfl⟩
      exact ⟨b, l'', hb, hl'', rfl⟩
    · rintro ⟨b, l'', hb, hl'', rfl⟩
      exact ⟨b, hb, l'', hl'', rfl⟩

theorem isSome_mapM {f : α → Option β} : (l.mapM f).isSome ↔ ∀ a ∈ l, (f a).isSome := by
  induction l with
  | nil => simp
  | cons a l ih =>
    rw [List.mapM_cons, List.forall_mem_cons, ← ih]
    cases f a with
    | none => simp
    | some b => cases l.mapM f <;> simp

theorem exists_of_forall₂_right {R : α → β → Prop} (h : List.Forall₂ R l l') (hb : b ∈ l') : ∃ a ∈ l, R a b := by
  induction h with
  | nil => cases hb
  | @cons a b' l l' hab _ ih =>
    rcases List.mem_cons.1 hb with rfl | hb
    · exact ⟨a, List.mem_cons_self, hab⟩
    · obtain ⟨a', ha', hf⟩ := ih hb
      exact ⟨a', List.mem_cons_of_mem _ ha', hf⟩

theorem exists_of_forall₂_left {R : α → β → Prop} (h : List.Forall₂ R l l') (ha : a ∈ l) : ∃ b ∈ l', R a b :=
  exists_of_forall₂_right h.flip ha

/-- What stands side by side is told apart alike. -/
theorem map_eq_of_forall₂ {R : α → β → Prop} {g : α → γ} {k : β → γ} (h : List.Forall₂ R l l')
    (hR : ∀ a b, R a b → k b = g a) : l'.map k = l.map g := by
  induction h with
  | nil => rfl
  | cons hab _ ih => rw [List.map_cons, List.map_cons, hR _ _ hab, ih]

/-- Counting on the one side what stands beside the counted elements on the other, which pass the filter. -/
theorem countP_of_forall₂_filter {R : α → β → Prop} {p g : α → Bool} {q : β → Bool} (h : List.Forall₂ R (l.filter p) l')
    (hR : ∀ a b, R a b → q b = g a) (hp : ∀ a, g a = true → p a = true) : l'.countP q = l.countP g := by
  have hside : l'.map q = (l.filter p).map g := map_eq_of_forall₂ h hR
  have hcount := List.countP_map (p := id) (f := q) (l := l')
  rw [hside, List.countP_map, List.countP_filter] at hcount
  refine hcount.symm.trans (List.countP_congr fun a _ => ?_)
  simp only [Function.comp_apply, id_eq, Bool.and_eq_true]
  constructor
  · rintro ⟨hg, -⟩
    exact hg
  · intro hg
    exact ⟨hg, hp a hg⟩

theorem exists_of_mem_mapM_some {f : α → Option β} (h : l.mapM f = some l') (hb : b ∈ l') : ∃ a ∈ l, f a = some b :=
  exists_of_forall₂_right (R := fun a b => f a = some b) (mapM_eq_some.1 h) hb

theorem exists_of_mem_mapM_ok {f : α → Except ε β} (h : l.mapM f = .ok l') (hb : b ∈ l') : ∃ a ∈ l, f a = .ok b :=
  exists_of_forall₂_right (R := fun a b => f a = .ok b) (mapM_eq_ok.1 h) hb

theorem exists_of_mapM_ok_of_mem {f : α → Except ε β} (h : l.mapM f = .ok l') (ha : a ∈ l) : ∃ b ∈ l', f a = .ok b :=
  exists_of_forall₂_left (R := fun a b => f a = .ok b) (mapM_eq_ok.1 h) ha

theorem map_of_mapM_some {f : α → Option β} {g : α → γ} {k : β → γ} (h : l.mapM f = some l')
    (hf : ∀ a b, f a = some b → k b = g a) : l'.map k = l.map g :=
  map_eq_of_forall₂ (mapM_eq_some.1 h) hf

theorem map_of_mapM_ok {f : α → Except ε β} {g : α → γ} {k : β → γ} (h : l.mapM f = .ok l')
    (hf : ∀ a b, f a = .ok b → k b = g a) : l'.map k = l.map g :=
  map_eq_of_forall₂ (mapM_eq_ok.1 h) hf

end MapM

end Fallible
