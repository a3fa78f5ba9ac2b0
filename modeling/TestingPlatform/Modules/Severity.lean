import TestingPlatform.Lib.Lookup
import TestingPlatform.Modules.Vocabulary

/-!
# Declared vocabularies

`EngineVocabulary.__post_init__` of `modules/normalization/severity.py`: the loop that folds the keys of a declared
table. It accepts a table exactly when folding it is harmless, and the vocabulary that it leaves answers what was declared,
whatever the order of the declaration (`vocabulary_function`).
-/

namespace TestingPlatform

/-- What a table declares for a value. -/
inductive Declared where
  | member (severity : FindingSeverity)
  /-- Anything that is no `FindingSeverity`, by its `repr`. -/
  | other (text : String)

/-- The dictionary `canonical` in the loop. -/
@[ext]
structure Canonical (T : PyText) where
  rows : List (String × FindingSeverity)
  keys_folded : ∀ e ∈ rows, T.fold e.1 = e.1
  keys_nonempty : ∀ e ∈ rows, e.1 ≠ ""
  keys_nodup : (rows.map (·.1)).Nodup

namespace Canonical
variable (T : PyText)

def empty : Canonical T where
  rows := []
  keys_folded _ h := by cases h
  keys_nonempty _ h := by cases h
  keys_nodup := List.nodup_nil

variable {T}

/-- `canonical[key] = severity` for a folded key that is new. -/
def set (c : Canonical T) (value : String) (severity : FindingSeverity) (hne : T.fold value ≠ "")
    (hnew : T.fold value ∉ c.rows.map (·.1)) : Canonical T where
  rows := c.rows ++ [(T.fold value, severity)]
  keys_folded e he := by
    rcases List.mem_append.1 he with he | he
    · exact c.keys_folded e he
    · obtain rfl := List.mem_singleton.1 he
      exact T.fold_fold value
  keys_nonempty e he := by
    rcases List.mem_append.1 he with he | he
    · exact c.keys_nonempty e he
    · obtain rfl := List.mem_singleton.1 he
      exact hne
  keys_nodup := by
    rw [List.map_append, List.nodup_append_comm]
    exact List.nodup_cons.2 ⟨hnew, c.keys_nodup⟩

end Canonical

section Construction
variable (T : PyText)

/-- The loop over `table.items()`. -/
def canonicalize (name : String) : Canonical T → List (String × Declared) → Except PyException (Canonical T)
  | canonical, [] => .ok canonical
  | _, (value, .other text) :: _ =>
    .error (.valueError ("engine vocabulary " ++ T.reprStr name ++ " maps " ++ T.reprStr value ++ " to " ++ text ++
      ", which is not a FindingSeverity member."))
  | canonical, (value, .member severity) :: items =>
    if hne : T.fold value = "" then
      .error (.valueError ("engine vocabulary " ++ T.reprStr name ++ " declares an empty value."))
    else if hnew : T.fold value ∈ canonical.rows.map (·.1) then
      .error (.valueError ("engine vocabulary " ++ T.reprStr name ++ " declares " ++ T.reprStr (T.fold value) ++
        " twice; values are matched case- and space-insensitively."))
    else canonicalize name (canonical.set value severity hne hnew) items

/-- A table whose severities are all members. -/
def declares (members : List (String × FindingSeverity)) : List (String × Declared) := members.map fun m => (m.1, .member m.2)

theorem declare_injective : Function.Injective fun m : String × FindingSeverity => (m.1, Declared.member m.2) := by
  rintro ⟨key, severity⟩ ⟨key', severity'⟩ h
  obtain ⟨rfl, hmember⟩ := Prod.mk.inj h
  obtain rfl := Declared.member.inj hmember
  rfl

variable {T}

theorem cons_eq_declares {value : String} {d : Declared} {table : List (String × Declared)} {members : List (String × FindingSeverity)} :
    (value, d) :: table = declares members ↔
      ∃ severity rest, d = .member severity ∧ members = (value, severity) :: rest ∧ table = declares rest := by
  constructor
  · intro h
    rcases members with _ | ⟨⟨value', severity⟩, rest⟩
    · cases h
    · obtain ⟨hfirst, hrest⟩ := List.cons.inj h
      obtain ⟨rfl, rfl⟩ := Prod.mk.inj hfirst
      exact ⟨severity, rest, rfl, rfl, hrest⟩
  · rintro ⟨severity, rest, rfl, rfl, rfl⟩
    rfl

/-- The loop accepts members under keys that do not fold to nothing, nor together, and keeps every one of them. -/
theorem canonicalize_eq_ok {name : String} {canonical canonical' : Canonical T} {table : List (String × Declared)} :
    canonicalize T name canonical table = .ok canonical' ↔ ∃ members, table = declares members ∧
      (∀ m ∈ members, T.fold m.1 ≠ "") ∧ (canonical.rows.map (·.1) ++ members.map fun m => T.fold m.1).Nodup ∧
      canonical'.rows = canonical.rows ++ members.map fun m => (T.fold m.1, m.2) := by
  induction table generalizing canonical with
  | nil =>
    rw [canonicalize]
    constructor
    · intro h
      obtain rfl := Except.ok.inj h
      exact ⟨[], rfl, by simp, by simpa using canonical.keys_nodup, by simp⟩
    · rintro ⟨members, hnil, -, -, hrows⟩
      obtain rfl : members = [] := List.map_eq_nil_iff.1 hnil.symm
      rw [Canonical.ext (hrows.trans (List.append_nil _))]
  | cons row table ih =>
    obtain ⟨value, d⟩ := row
    cases d with
    | other text =>
      rw [canonicalize]
      refine iff_of_false (by simp) ?_
      rintro ⟨members, htable, -⟩
      obtain ⟨severity, -, hother, -⟩ := cons_eq_declares.1 htable
      cases hother
    | member severity =>
      rw [canonicalize]
      split
      · next hempty =>
        refine iff_of_false (by simp) ?_
        rintro ⟨members, htable, hne, -⟩
        obtain ⟨_, rest, -, rfl, -⟩ := cons_eq_declares.1 htable
        exact hne _ List.mem_cons_self hempty
      · next hne =>
        split
        · next htwice =>
          refine iff_of_false (by simp) ?_
          rintro ⟨members, htable, -, hnodup, -⟩
          obtain ⟨_, rest, -, rfl, -⟩ := cons_eq_declares.1 htable
          exact (List.nodup_append.1 hnodup).2.2 _ htwice _ List.mem_cons_self rfl
        · next hnew =>
          rw [ih]
          constructor
          · rintro ⟨members, rfl, hnonempty, hnodup, hrows⟩
            refine ⟨(value, severity) :: members, rfl, ?_, ?_, ?_⟩
            · simpa [hne] using hnonempty
            · simpa [Canonical.set] using hnodup
            · simpa [Canonical.set] using hrows
          · rintro ⟨members, htable, hnonempty, hnodup, hrows⟩
            obtain ⟨_, rest, hmember, rfl, rfl⟩ := cons_eq_declares.1 htable
            obtain rfl := Declared.member.inj hmember
            refine ⟨rest, rfl, fun m hm => hnonempty m (List.mem_cons_of_mem _ hm), ?_, ?_⟩
            · simpa [Canonical.set] using hnodup
            · simpa [Canonical.set] using hrows

theorem canonicalize_nonempty {name : String} {canonical' : Canonical T} {table : List (String × Declared)}
    (h : canonicalize T name (.empty T) table = .ok canonical') (hne : table ≠ []) : canonical'.rows ≠ [] := by
  obtain ⟨members, rfl, -, -, hrows⟩ := canonicalize_eq_ok.1 h
  intro hnil
  rw [hnil] at hrows
  have hmembers : members = [] := by simpa [Canonical.empty] using hrows.symm
  exact hne (by rw [hmembers, declares, List.map_nil])

/-- `EngineVocabulary(name, table)`. -/
def EngineVocabulary.make (T : PyText) (name : String) (table : List (String × Declared)) :
    Except PyException (EngineVocabulary T) :=
  if hnamed : Text.blank name = true then .error (.valueError "An engine vocabulary must be named.")
  else if hne : table = [] then .error (.valueError ("engine vocabulary " ++ T.reprStr name ++ " declares no values."))
  else match h : canonicalize T name (.empty T) table with
    | .error exc => .error exc
    | .ok canonical =>
      .ok {
        name
        table := canonical.rows
        named := Bool.eq_false_of_not_eq_true hnamed
        table_nonempty := canonicalize_nonempty h hne
        keys_folded := canonical.keys_folded
        keys_nonempty := canonical.keys_nonempty
        keys_nodup := canonical.keys_nodup }

theorem EngineVocabulary.make_eq_ok {name : String} {table : List (String × Declared)} {v : EngineVocabulary T} :
    EngineVocabulary.make T name table = .ok v ↔ Text.blank name = false ∧ table ≠ [] ∧ v.name = name ∧
      ∃ members, table = declares members ∧ (∀ m ∈ members, T.fold m.1 ≠ "") ∧ (members.map fun m => T.fold m.1).Nodup ∧
        v.table = members.map fun m => (T.fold m.1, m.2) := by
  have hloop : ∀ canonical, canonicalize T name (.empty T) table = .ok canonical ↔ ∃ members, table = declares members ∧
      (∀ m ∈ members, T.fold m.1 ≠ "") ∧ (members.map fun m => T.fold m.1).Nodup ∧
        canonical.rows = members.map fun m => (T.fold m.1, m.2) := fun canonical => canonicalize_eq_ok
  unfold EngineVocabulary.make
  split
  · next hblank => simp [hblank]
  · next hnamed =>
    split
    · next hempty => simp [hempty]
    · next hne =>
      split
      · next exc hexc =>
        refine iff_of_false (by simp) ?_
        rintro ⟨-, -, -, members, htable, hnonempty, hnodup, hrows⟩
        have hok := (hloop ⟨v.table, v.keys_folded, v.keys_nonempty, v.keys_nodup⟩).2 ⟨members, htable, hnonempty, hnodup, hrows⟩
        rw [hexc] at hok
        cases hok
      · next canonical hok =>
        constructor
        · intro h
          obtain rfl := Except.ok.inj h
          exact ⟨Bool.eq_false_of_not_eq_true hnamed, hne, rfl, (hloop canonical).1 hok⟩
        · rintro ⟨-, -, rfl, hmembers⟩
          have hv := (hloop ⟨v.table, v.keys_folded, v.keys_nonempty, v.keys_nodup⟩).2 hmembers
          rw [hok] at hv
          obtain rfl := Except.ok.inj hv
          rfl

/-- What has no collisions is taken, under its folded keys. -/
theorem EngineVocabulary.exists_make {name : String} {members : List (String × FindingSeverity)} (hnamed : Text.blank name = false)
    (hsome : members ≠ []) (hkeys : ∀ m ∈ members, T.fold m.1 ≠ "") (hnodup : (members.map fun m => T.fold m.1).Nodup) :
    ∃ v, EngineVocabulary.make T name (declares members) = .ok v := by
  let v : EngineVocabulary T := {
    name
    table := members.map fun m => (T.fold m.1, m.2)
    named := hnamed
    table_nonempty := fun hnil => hsome (List.map_eq_nil_iff.1 hnil)
    keys_folded := by
      rintro e he
      obtain ⟨m, -, rfl⟩ := List.mem_map.1 he
      exact T.fold_fold m.1
    keys_nonempty := by
      rintro e he
      obtain ⟨m, hm, rfl⟩ := List.mem_map.1 he
      exact hkeys m hm
    keys_nodup := by rwa [List.map_map] }
  have hne : declares members ≠ [] := fun hnil => hsome (List.map_eq_nil_iff.1 hnil)
  exact ⟨v, EngineVocabulary.make_eq_ok.2 ⟨hnamed, hne, rfl, members, rfl, hkeys, hnodup, rfl⟩⟩

theorem canonicalize_eq_error {name : String} {canonical : Canonical T} {table : List (String × Declared)} {exc : PyException}
    (h : canonicalize T name canonical table = .error exc) : ∃ text, exc = .valueError text := by
  induction table generalizing canonical with
  | nil => cases h
  | cons row table ih =>
    obtain ⟨value, d⟩ := row
    cases d with
    | other text => exact ⟨_, (Except.error.inj h).symm⟩
    | member severity =>
      rw [canonicalize] at h
      split at h
      · exact ⟨_, (Except.error.inj h).symm⟩
      · split at h
        · exact ⟨_, (Except.error.inj h).symm⟩
        · exact ih h

theorem EngineVocabulary.make_eq_error {name : String} {table : List (String × Declared)} {exc : PyException}
    (h : EngineVocabulary.make T name table = .error exc) : ∃ text, exc = .valueError text := by
  unfold EngineVocabulary.make at h
  split at h
  · exact ⟨_, (Except.error.inj h).symm⟩
  · split at h
    · exact ⟨_, (Except.error.inj h).symm⟩
    · split at h
      · next hloop =>
        obtain rfl := Except.error.inj h
        exact canonicalize_eq_error hloop
      · cases h

end Construction

/-! ### What construction refuses -/

section Refused
variable {T : PyText} {name : String} {table : List (String × Declared)}

theorem exists_declares_iff : (∃ members, table = declares members) ↔ ∀ r ∈ table, ∃ severity, r.2 = .member severity := by
  constructor
  · rintro ⟨members, rfl⟩ r hr
    obtain ⟨m, -, rfl⟩ := List.mem_map.1 hr
    exact ⟨m.2, rfl⟩
  · intro h
    induction table with
    | nil => exact ⟨[], rfl⟩
    | cons r table ih =>
      obtain ⟨value, d⟩ := r
      obtain ⟨severity, rfl⟩ : ∃ severity, d = .member severity := h _ List.mem_cons_self
      obtain ⟨members, rfl⟩ := ih fun r hr => h r (List.mem_cons_of_mem _ hr)
      exact ⟨(value, severity) :: members, rfl⟩

/-- No two keys fold together. -/
def Apart (T : PyText) (table : List (String × Declared)) : Prop := table.Pairwise fun r r' => T.fold r.1 ≠ T.fold r'.1

theorem apart_declares_iff {members : List (String × FindingSeverity)} :
    Apart T (declares members) ↔ (members.map fun m => T.fold m.1).Nodup := by
  rw [Apart, declares, List.pairwise_map, List.Nodup, List.pairwise_map]

theorem EngineVocabulary.exists_make_iff : (∃ v, EngineVocabulary.make T name table = .ok v) ↔
    Text.blank name = false ∧ table ≠ [] ∧ (∀ r ∈ table, ∃ severity, r.2 = .member severity) ∧
      (∀ r ∈ table, T.fold r.1 ≠ "") ∧ Apart T table := by
  constructor
  · rintro ⟨v, h⟩
    obtain ⟨hnamed, hne, -, members, rfl, hnonempty, hnodup, -⟩ := EngineVocabulary.make_eq_ok.1 h
    refine ⟨hnamed, hne, exists_declares_iff.1 ⟨members, rfl⟩, fun r hr => ?_, apart_declares_iff.2 hnodup⟩
    obtain ⟨m, hm, rfl⟩ := List.mem_map.1 hr
    exact hnonempty m hm
  · rintro ⟨hnamed, hne, hmembers, hnonempty, hapart⟩
    obtain ⟨members, rfl⟩ := exists_declares_iff.2 hmembers
    have hkeys : ∀ m ∈ members, T.fold m.1 ≠ "" :=
      fun m hm => hnonempty (m.1, .member m.2) (List.mem_map.2 ⟨m, hm, rfl⟩)
    have hsome : members ≠ [] := by
      rintro rfl
      exact hne rfl
    exact EngineVocabulary.exists_make hnamed hsome hkeys (apart_declares_iff.1 hapart)

theorem EngineVocabulary.exists_error_iff : (∃ text, EngineVocabulary.make T name table = .error (.valueError text)) ↔
    Text.blank name = true ∨ table = [] ∨ (∃ r ∈ table, ∀ severity, r.2 ≠ .member severity) ∨ (∃ r ∈ table, T.fold r.1 = "") ∨
      ¬ Apart T table := by
  have hrefused : (∃ text, EngineVocabulary.make T name table = .error (.valueError text)) ↔
      ¬ ∃ v, EngineVocabulary.make T name table = .ok v := by
    cases hmake : EngineVocabulary.make T name table with
    | ok v => simp
    | error exc =>
      obtain ⟨text, rfl⟩ := EngineVocabulary.make_eq_error hmake
      simp
  rw [hrefused, EngineVocabulary.exists_make_iff, ← Bool.not_eq_true]
  grind

end Refused

/-! ### What a vocabulary answers -/

section Answers
variable {T : PyText} {name : String} {members : List (String × FindingSeverity)} {v : EngineVocabulary T} {s : String}

theorem EngineVocabulary.mapSeverity_of_table (hv : v.table = members.map fun m => (T.fold m.1, m.2)) {severity : FindingSeverity} :
    v.mapSeverity s = .ok severity ↔ ∃ key, (key, severity) ∈ members ∧ T.fold key = T.fold s := by
  rw [EngineVocabulary.mapSeverity_eq_ok, hv, List.mem_map]
  constructor
  · rintro ⟨⟨key, severity'⟩, hm, heq⟩
    obtain ⟨hkey, rfl⟩ := Prod.mk.inj heq
    exact ⟨key, hm, hkey⟩
  · rintro ⟨key, hm, hkey⟩
    exact ⟨(key, severity), hm, by rw [hkey]⟩

/-- A value is refused exactly where no declared key folds to what it folds to. -/
theorem EngineVocabulary.mapSeverity_error_iff (hv : v.table = members.map fun m => (T.fold m.1, m.2)) :
    (∃ text, v.mapSeverity s = .error (.valueError text)) ↔ ∀ m ∈ members, T.fold m.1 ≠ T.fold s := by
  constructor
  · rintro ⟨text, h⟩ ⟨key, severity⟩ hm hkey
    have hok := (mapSeverity_of_table hv).2 ⟨key, hm, hkey⟩
    rw [h] at hok
    cases hok
  · intro hnone
    cases h : v.mapSeverity s with
    | ok severity =>
      obtain ⟨key, hm, hkey⟩ := (mapSeverity_of_table hv).1 h
      exact absurd hkey (hnone (key, severity) hm)
    | error exc =>
      obtain ⟨text, rfl⟩ := (v.mapSeverity_eq_error h).2
      exact ⟨text, rfl⟩

/-- Two tables with the same rows answer alike, in the same words where they bear one name. -/
theorem EngineVocabulary.mapSeverity_perm {v' : EngineVocabulary T} (hname : v'.name = v.name) (hp : v.table.Perm v'.table) :
    v'.mapSeverity = v.mapSeverity := by
  funext s
  have hunique : Lookup.Unique (fun e : String × FindingSeverity => e.1 == T.fold s) v.table := by
    intro e he e' he' hkey hkey'
    exact List.inj_on_of_nodup_map v.keys_nodup he he' ((eq_of_beq hkey).trans (eq_of_beq hkey').symm)
  rw [mapSeverity, mapSeverity, Lookup.find?_perm hunique hp, hname]

/-- The table that a vocabulary holds is one that it could have been declared by. -/
theorem EngineVocabulary.make_table (hnamed : Text.blank name = false) (v : EngineVocabulary T) :
    EngineVocabulary.make T name (declares v.table) = .ok { v with name, named := hnamed } := by
  have hfolded : (v.table.map fun e => (T.fold e.1, e.2)) = v.table := by
    refine (List.map_congr_left fun e he => ?_).trans (List.map_id v.table)
    rw [v.keys_folded e he]
    rfl
  have hkeys : (v.table.map fun e => T.fold e.1) = v.table.map (·.1) := List.map_congr_left v.keys_folded
  have hne : declares v.table ≠ [] := fun hnil => v.table_nonempty (List.map_eq_nil_iff.1 hnil)
  refine EngineVocabulary.make_eq_ok.2 ⟨hnamed, hne, rfl, v.table, rfl, fun e he => ?_, ?_, hfolded.symm⟩
  · rw [v.keys_folded e he]
    exact v.keys_nonempty e he
  · rw [hkeys]
    exact v.keys_nodup

/-- What a vocabulary declared by this table answers. -/
structure Answers (table : List (String × Declared)) (v : EngineVocabulary T) : Prop where
  maps : ∀ s severity, v.mapSeverity s = .ok severity ↔ ∃ key, (key, Declared.member severity) ∈ table ∧ T.fold key = T.fold s
  unique : ∀ s, ∀ r ∈ table, ∀ r' ∈ table, T.fold r.1 = T.fold s → T.fold r'.1 = T.fold s → r = r'
  raises : ∀ s, (∃ text, v.mapSeverity s = .error (.valueError text)) ↔ ∀ r ∈ table, T.fold r.1 ≠ T.fold s
  order : ∀ table', table.Perm table' →
    ∃ v', EngineVocabulary.make T v.name table' = .ok v' ∧ v'.mapSeverity = v.mapSeverity
  rewrapped : EngineVocabulary.make T v.name (declares v.table) = .ok v
  /-- Under another name only the message of a refusal differs. -/
  renamed : ∀ name', Text.blank name' = false → ∃ v', EngineVocabulary.make T name' (declares v.table) = .ok v' ∧
    ∀ s severity, v'.mapSeverity s = .ok severity ↔ v.mapSeverity s = .ok severity

theorem EngineVocabulary.answers {table : List (String × Declared)} (h : EngineVocabulary.make T name table = .ok v) :
    Answers table v := by
  obtain ⟨hnamed, hne, rfl, members, rfl, hkeys, hnodup, hv⟩ := EngineVocabulary.make_eq_ok.1 h
  have hmember : ∀ key severity, (key, Declared.member severity) ∈ declares members ↔ (key, severity) ∈ members := by
    intro key severity
    rw [declares, List.mem_map]
    constructor
    · rintro ⟨m, hm, heq⟩
      obtain ⟨rfl, hseverity⟩ := Prod.mk.inj heq
      obtain rfl := Declared.member.inj hseverity
      exact hm
    · intro hm
      exact ⟨_, hm, rfl⟩
  constructor
  · intro s severity
    simp only [hmember]
    exact mapSeverity_of_table hv
  · intro s r hr r' hr' hkey hkey'
    obtain ⟨m, hm, rfl⟩ := List.mem_map.1 hr
    obtain ⟨m', hm', rfl⟩ := List.mem_map.1 hr'
    rw [List.inj_on_of_nodup_map hnodup hm hm' (hkey.trans hkey'.symm)]
  · intro s
    rw [mapSeverity_error_iff hv, declares, List.forall_mem_map]
  · intro table' hp
    have hmembers : ∀ r ∈ table', ∃ severity, r.2 = .member severity :=
      fun r hr => exists_declares_iff.1 ⟨members, rfl⟩ r (hp.mem_iff.2 hr)
    obtain ⟨members', rfl⟩ := exists_declares_iff.2 hmembers
    replace hp : members.Perm members' := (List.map_perm_map_iff declare_injective).1 hp
    have hsome' : members' ≠ [] := by
      rintro rfl
      exact hne (by rw [hp.eq_nil, declares, List.map_nil])
    have hkeys' : ∀ m ∈ members', T.fold m.1 ≠ "" := fun m hm => hkeys m (hp.mem_iff.2 hm)
    have hnodup' : (members'.map fun m => T.fold m.1).Nodup := (hp.map _).nodup_iff.1 hnodup
    obtain ⟨v', h'⟩ := EngineVocabulary.exists_make hnamed hsome' hkeys' hnodup'
    obtain ⟨-, -, hname, members'', hsame, -, -, hv'⟩ := EngineVocabulary.make_eq_ok.1 h'
    obtain rfl := List.map_injective_iff.2 declare_injective hsame
    refine ⟨v', h', mapSeverity_perm hname ?_⟩
    rw [hv, hv']
    exact hp.map _
  · exact EngineVocabulary.make_table hnamed v
  · intro name' hnamed'
    exact ⟨_, EngineVocabulary.make_table hnamed' v, fun s severity => by rw [mapSeverity_eq_ok, mapSeverity_eq_ok]⟩

end Answers

/-- A vocabulary is a function up to case and surrounding space, and construction refuses the tables that declare none. -/
theorem vocabulary_function (T : PyText) (name : String) (table : List (String × Declared)) :
    ((∃ text, EngineVocabulary.make T name table = .error (.valueError text)) ↔
      Text.blank name = true ∨ table = [] ∨ (∃ r ∈ table, ∀ severity, r.2 ≠ .member severity) ∨
        (∃ r ∈ table, T.fold r.1 = "") ∨ ¬ Apart T table) ∧
    (∀ exc, EngineVocabulary.make T name table = .error exc → ∃ text, exc = .valueError text) ∧
      ∀ v, EngineVocabulary.make T name table = .ok v → v.name = name ∧ Answers table v :=
  ⟨EngineVocabulary.exists_error_iff, fun _ => EngineVocabulary.make_eq_error,
    fun _ h => ⟨(EngineVocabulary.make_eq_ok.1 h).2.2.1, EngineVocabulary.answers h⟩⟩

end TestingPlatform
