import Mathlib.Data.List.Nodup
import Mathlib.Data.List.Basic

/-!
# Keyed tables

A `Table key` is a list of rows whose keys are distinct, so a primary or unique key is carried by
the type. Rows keep their insertion order; `insert` refuses a key that is taken and `modify` only
takes a rewrite that keeps the key.
-/

/-- Rows with distinct keys, in insertion order. -/
structure Table {κ α : Type} (key : α → κ) where
  rows : List α
  nodup : (rows.map key).Nodup

namespace Table

variable {κ α β : Type} {key : α → κ}

@[ext] theorem ext {t u : Table key} (h : t.rows = u.rows) : t = u := by
  cases t; cases u; cases h; rfl

instance [DecidableEq α] : DecidableEq (Table key) := fun _ _ =>
  decidable_of_iff _ ⟨Table.ext, congrArg rows⟩

/-- The table without rows. -/
def empty : Table key := ⟨[], List.nodup_nil⟩

@[simp] theorem rows_empty : (empty : Table key).rows = [] := rfl

theorem eq_of_key_eq (t : Table key) {a b : α} (ha : a ∈ t.rows) (hb : b ∈ t.rows)
    (h : key a = key b) : a = b :=
  List.inj_on_of_nodup_map t.nodup ha hb h

variable [DecidableEq κ]

/-- The row with key `k`. -/
def find (t : Table key) (k : κ) : Option α := t.rows.find? fun a => decide (key a = k)

theorem find_eq_none {t : Table key} {k : κ} : t.find k = none ↔ ∀ a ∈ t.rows, key a ≠ k := by
  simp [find, List.find?_eq_none]

theorem find_eq_some {t : Table key} {k : κ} {a : α} : t.find k = some a ↔ a ∈ t.rows ∧ key a = k := by
  have sound : ∀ {b}, t.find k = some b → b ∈ t.rows ∧ key b = k := fun hb =>
    ⟨List.mem_of_find?_eq_some hb, by simpa using List.find?_some hb⟩
  refine ⟨sound, fun ⟨ha, hk⟩ => ?_⟩
  cases hf : t.find k with
  | none => exact absurd hk (find_eq_none.1 hf a ha)
  | some b =>
    obtain ⟨hb, hkb⟩ := sound hf
    rw [t.eq_of_key_eq hb ha (hkb.trans hk.symm)]

theorem key_of_find {t : Table key} {k : κ} {a : α} (h : t.find k = some a) : key a = k :=
  (find_eq_some.1 h).2

theorem mem_of_find {t : Table key} {k : κ} {a : α} (h : t.find k = some a) : a ∈ t.rows :=
  (find_eq_some.1 h).1

theorem find_of_mem {t : Table key} {a : α} (h : a ∈ t.rows) : t.find (key a) = some a :=
  find_eq_some.2 ⟨h, rfl⟩

@[simp] theorem find_empty (k : κ) : (empty : Table key).find k = none := rfl

/-! ### Writes -/

/-- Adds a row at the end; a row whose key is taken is refused. -/
def insert (t : Table key) (a : α) : Table key :=
  if h : ∀ b ∈ t.rows, key b ≠ key a then
    ⟨t.rows ++ [a], by
      rw [List.map_append, List.nodup_append]
      refine ⟨t.nodup, by simp, fun x hx y hy => ?_⟩
      obtain ⟨b, hb, rfl⟩ := List.mem_map.1 hx
      rw [List.map_singleton, List.mem_singleton] at hy
      rw [hy]; exact h b hb⟩
  else t

/-- Rewrites the row with key `k`. -/
def modify (t : Table key) (k : κ) (f : α → α) (hf : ∀ a, key (f a) = key a := by intro; rfl) : Table key :=
  ⟨t.rows.map fun a => if key a = k then f a else a, by
    have : key ∘ (fun a => if key a = k then f a else a) = key := by
      funext a; simp only [Function.comp_apply]; split <;> simp [hf]
    rw [List.map_map, this]; exact t.nodup⟩

theorem rows_insert {t : Table key} {a : α} (h : t.find (key a) = none) : (t.insert a).rows = t.rows ++ [a] := by
  rw [insert, dif_pos (find_eq_none.1 h)]

theorem insert_of_taken {t : Table key} {a b : α} (h : t.find (key a) = some b) : t.insert a = t := by
  refine dif_neg fun h' => h' b (mem_of_find h) (key_of_find h)

theorem find_insert_of_ne {t : Table key} {a : α} {k : κ} (h : key a ≠ k) : (t.insert a).find k = t.find k := by
  unfold insert
  split
  · simp [find, List.find?_append, h]
  · rfl

theorem find_insert_self {t : Table key} {a : α} (h : t.find (key a) = none) :
    (t.insert a).find (key a) = some a :=
  find_eq_some.2 ⟨by simp [rows_insert h], rfl⟩

/-- `INSERT` under the unique key; `none` where it is taken. -/
def insertNew (t : Table key) (a : α) : Option (Table key) := if (t.find (key a)).isSome then none else some (t.insert a)

theorem insertNew_eq_some {t t' : Table key} {a : α} : t.insertNew a = some t' ↔ t.find (key a) = none ∧ t' = t.insert a := by
  unfold insertNew
  split
  · next h => simp [Option.isSome_iff_ne_none.1 h]
  · next h => simp [Option.not_isSome_iff_eq_none.1 h, eq_comm]

theorem insertNew_eq_none {t : Table key} {a : α} : t.insertNew a = none ↔ t.find (key a) ≠ none := by
  unfold insertNew
  split
  · next h => simp [Option.isSome_iff_ne_none.1 h]
  · next h => simp [Option.not_isSome_iff_eq_none.1 h]

/-- Inserting rows one after the other: they go in together, or the first that repeats a key refuses them all. -/
theorem foldlM_insertNew {t t' : Table key} {rows : List α} :
    rows.foldlM insertNew t = some t' ↔ ((t.rows ++ rows).map key).Nodup ∧ t'.rows = t.rows ++ rows := by
  induction rows generalizing t with
  | nil =>
    have hnodup := t.nodup
    rw [List.foldlM_nil, List.append_nil]
    exact ⟨fun h => ⟨hnodup, by rw [Option.some.inj h]⟩, fun h => congrArg some (Table.ext h.2.symm)⟩
  | cons a rows ih =>
    rw [List.foldlM_cons]
    show (t.insertNew a).bind (fun u => rows.foldlM insertNew u) = some t' ↔ _
    constructor
    · intro h
      obtain ⟨u, hu, hrows⟩ := Option.bind_eq_some_iff.1 h
      obtain ⟨hnone, rfl⟩ := insertNew_eq_some.1 hu
      rw [ih, rows_insert hnone, List.append_assoc] at hrows
      exact hrows
    · rintro ⟨hnodup, hrows⟩
      have hnone : t.find (key a) = none := by
        refine find_eq_none.2 fun b hb hk => ?_
        rw [List.map_append, List.nodup_append] at hnodup
        exact hnodup.2.2 _ (List.mem_map_of_mem hb) _ (List.mem_map_of_mem List.mem_cons_self) hk
      refine Option.bind_eq_some_iff.2 ⟨_, insertNew_eq_some.2 ⟨hnone, rfl⟩, ih.2 ?_⟩
      rw [rows_insert hnone, List.append_assoc]
      exact ⟨hnodup, hrows⟩

section Fold
variable {f : β → Option α} {l : List β}

theorem foldlM_bind_insertNew (h : ∀ b ∈ l, ∃ a, f b = some a) (t : Table key) :
    l.foldlM (fun t b => (f b).bind t.insertNew) t = (l.filterMap f).foldlM insertNew t := by
  induction l generalizing t with
  | nil => rfl
  | cons b l ih =>
    obtain ⟨a, ha⟩ := h b List.mem_cons_self
    rw [List.filterMap_cons_some ha, List.foldlM_cons, List.foldlM_cons, ha]
    exact congrArg (Option.bind _) (funext fun t => ih (fun b hb => h b (List.mem_cons_of_mem _ hb)) t)

omit [DecidableEq κ] in
theorem nodup_map_filterMap (h : ∀ b ∈ l, ∃ a, f b = some a)
    (hinj : ∀ b ∈ l, ∀ b' ∈ l, ∀ a a', f b = some a → f b' = some a' → key a = key a' → b = b') :
    ((l.filterMap f).map key).Nodup ↔ l.Nodup := by
  induction l with
  | nil => simp
  | cons b l ih =>
    obtain ⟨a, ha⟩ := h b List.mem_cons_self
    have hl : ∀ b ∈ l, ∃ a, f b = some a := fun b hb => h b (List.mem_cons_of_mem _ hb)
    rw [List.filterMap_cons_some ha, List.map_cons, List.nodup_cons, List.nodup_cons,
      ih hl fun b hb b' hb' => hinj b (List.mem_cons_of_mem _ hb) b' (List.mem_cons_of_mem _ hb')]
    refine and_congr_left fun _ => not_congr ⟨fun hmem => ?_, fun hmem => ?_⟩
    · obtain ⟨a', ha', hk⟩ := List.mem_map.1 hmem
      obtain ⟨b', hb', hf⟩ := List.mem_filterMap.1 ha'
      rw [hinj b List.mem_cons_self b' (List.mem_cons_of_mem _ hb') a a' ha hf hk.symm]
      exact hb'
    · exact List.mem_map.2 ⟨a, List.mem_filterMap.2 ⟨b, hmem, ha⟩, rfl⟩

end Fold

theorem mem_insert {t : Table key} {a b : α} (h : b ∈ (t.insert a).rows) : b ∈ t.rows ∨ b = a := by
  unfold insert at h
  split at h
  · simpa using h
  · exact .inl h

theorem mem_insert_of_mem {t : Table key} {a b : α} (h : b ∈ t.rows) : b ∈ (t.insert a).rows := by
  unfold insert
  split
  · simp [h]
  · exact h

section Modify
variable {t : Table key} {k : κ} {f : α → α} {hf : ∀ a, key (f a) = key a}

theorem rows_modify : (t.modify k f hf).rows = t.rows.map fun a => if key a = k then f a else a := rfl

theorem find_modify_self : (t.modify k f hf).find k = (t.find k).map f := by
  cases h : t.find k with
  | none =>
    refine find_eq_none.2 fun a ha hk => ?_
    obtain ⟨b, hb, rfl⟩ := List.mem_map.1 ha
    refine find_eq_none.1 h b hb ?_
    split at hk
    · rw [← hk, hf]
    · exact hk
  | some a =>
    obtain ⟨ha, hk⟩ := find_eq_some.1 h
    refine find_eq_some.2 ⟨List.mem_map.2 ⟨a, ha, if_pos hk⟩, ?_⟩
    rw [hf, hk]

theorem find_modify_of_ne {k' : κ} (h : k' ≠ k) : (t.modify k f hf).find k' = t.find k' := by
  cases hk : t.find k' with
  | none =>
    refine find_eq_none.2 fun a ha hka => ?_
    obtain ⟨b, hb, rfl⟩ := List.mem_map.1 ha
    refine find_eq_none.1 hk b hb ?_
    split at hka
    · rw [← hka, hf]
    · exact hka
  | some a =>
    obtain ⟨ha, rfl⟩ := find_eq_some.1 hk
    exact find_eq_some.2 ⟨List.mem_map.2 ⟨a, ha, if_neg h⟩, rfl⟩

theorem find_modify {k' : κ} :
    (t.modify k f hf).find k' = if k' = k then (t.find k').map f else t.find k' := by
  split
  · next h => rw [h, find_modify_self]
  · next h => exact find_modify_of_ne h

end Modify

/-- `INSERT … ON CONFLICT (key) DO UPDATE`: takes the place of the row with its key, or comes last. -/
def put (t : Table key) (a : α) : Table key :=
  (t.modify (key a) (fun b => if key b = key a then a else b) fun b => by split <;> simp_all).insert a

theorem find_put_self (t : Table key) (a : α) : (t.put a).find (key a) = some a := by
  unfold put
  generalize ht' : t.modify (key a) _ _ = t'
  cases h : t.find (key a) with
  | none =>
    refine find_insert_self ?_
    rw [← ht', find_modify_self, h, Option.map_none]
  | some b =>
    have hf : t'.find (key a) = some a := by
      rw [← ht', find_modify_self, h, Option.map_some, if_pos (key_of_find h)]
    rw [insert_of_taken hf, hf]

theorem find_put_of_ne {t : Table key} {a : α} {k : κ} (h : key a ≠ k) : (t.put a).find k = t.find k := by
  unfold put
  rw [find_insert_of_ne h, find_modify_of_ne (Ne.symm h)]

theorem find_put {t : Table key} {a : α} {k : κ} : (t.put a).find k = if key a = k then some a else t.find k := by
  split
  · next h => rw [← h, find_put_self]
  · next h => exact find_put_of_ne h

end Table
