import Mathlib.Logic.Relation
import Mathlib.Logic.Function.Basic

/-!
# READ COMMITTED transactions over row locks

A `System` runs one program per process against a shared database `δ`. `move` is the program: from
the committed database and the control state of a process it gives what the next statement does.
A plain statement reads the database committed at that moment; a locking statement is enabled once
no other transaction holds one of its rows, and then also sees what is committed at that moment.

The writes of a transaction stay in its control state and become visible at its commit. This is
what other transactions see in any case, and since a row is written under its lock nobody can
change it in between; `Rows.agree_of_owner` is that fact, the frame rule of the development.
`Run.invariant` packages the induction over a run, and `Run.using` lets it use what is known of all runs.
-/

namespace ReadCommitted

/-- What one statement does to the transaction of its process. -/
inductive Op (κ υ : Type) where
  /-- A plain statement, or work outside the database. -/
  | read
  /-- Takes the row locks `ks`; waits while another transaction holds one of them. -/
  | lock (ks : List κ)
  /-- Rolls back to a savepoint: the locks `ks` taken since are released. -/
  | unlock (ks : List κ)
  /-- Makes the writes `ws` visible and releases every lock. -/
  | commit (ws : List υ)
  /-- Gives every lock back and writes nothing. -/
  | rollback
  deriving DecidableEq

structure Move (κ υ ρ ω : Type) where
  op : Op κ υ
  /-- The control state after the statement. -/
  next : ρ
  /-- What the statement shows to the outside. -/
  emit : List ω := []

structure System (κ υ δ ρ χ ω : Type) where
  write : δ → υ → δ
  move : δ → ρ → χ → Option (Move κ υ ρ ω)

/-- How a statement ends: as written, with an exception, or because its process is killed. -/
inductive Choice where
  | go | fail | crash
  deriving DecidableEq, Repr

structure World (π κ δ ρ ω : Type) where
  /-- The committed rows. -/
  db : δ
  /-- The transaction that holds each row lock. -/
  owner : κ → Option π
  proc : π → ρ
  /-- Everything emitted so far, oldest first. -/
  trace : List ω

variable {π κ υ δ ρ χ ω : Type}

/-- `n` statements of process `i`, none of which fails. -/
def steps (i : π) (n : Nat) : List (π × Choice) := List.replicate n (i, .go)

namespace System

/-- A program each of whose statements may be the last one of its process. -/
def abortable (write : δ → υ → δ) (go : δ → ρ → Option (Move κ υ ρ ω)) (done : ρ) : System κ υ δ ρ Choice ω where
  write
  move d p
    | .go => go d p
    | .fail | .crash => some { op := .rollback, next := done }

theorem move_abortable {write : δ → υ → δ} {go : δ → ρ → Option (Move κ υ ρ ω)} {done : ρ} {d : δ} {p : ρ} {c : Choice}
    {m : Move κ υ ρ ω} (h : (abortable write go done).move d p c = some m) :
    go d p = some m ∨ m = { op := .rollback, next := done } := by
  cases c with
  | go => exact .inl h
  | fail | crash => exact .inr (Option.some.inj h).symm

end System

namespace Op

def effect (write : δ → υ → δ) (op : Op κ υ) (d : δ) : δ :=
  match op with
  | .commit ws => ws.foldl write d
  | _ => d

/-- No other transaction holds a row that the statement locks. -/
def Allowed (op : Op κ υ) (i : π) (owner : κ → Option π) : Prop :=
  match op with
  | .lock ks => ∀ k ∈ ks, owner k = none ∨ owner k = some i
  | _ => True

instance [DecidableEq π] (op : Op κ υ) (i : π) (owner : κ → Option π) : Decidable (op.Allowed i owner) :=
  match op with
  | .lock ks => inferInstanceAs (Decidable (∀ k ∈ ks, owner k = none ∨ owner k = some i))
  | .read | .unlock _ | .commit _ | .rollback => isTrue trivial

variable [DecidableEq π] [DecidableEq κ]

/-- The lock table after the statement. -/
def owners (op : Op κ υ) (i : π) (owner : κ → Option π) : κ → Option π :=
  match op with
  | .read => owner
  | .lock ks => fun k => if k ∈ ks then some i else owner k
  | .unlock ks => fun k => if k ∈ ks ∧ owner k = some i then none else owner k
  | .commit _ | .rollback => fun k => if owner k = some i then none else owner k

end Op

namespace System
variable [DecidableEq π] [DecidableEq κ] (sys : System κ υ δ ρ χ ω)

def after (w : World π κ δ ρ ω) (i : π) (m : Move κ υ ρ ω) : World π κ δ ρ ω where
  db := m.op.effect sys.write w.db
  owner := m.op.owners i w.owner
  proc := Function.update w.proc i m.next
  trace := w.trace ++ m.emit

/-- Process `i` can make the move `m` under the choice `c`. -/
def Fires (w : World π κ δ ρ ω) (i : π) (c : χ) (m : Move κ υ ρ ω) : Prop :=
  sys.move w.db (w.proc i) c = some m ∧ m.op.Allowed i w.owner

/-- One statement of process `a.1`, under the choice `a.2`; `none` when it is not enabled. -/
def step (w : World π κ δ ρ ω) (a : π × χ) : Option (World π κ δ ρ ω) :=
  (sys.move w.db (w.proc a.1) a.2).bind fun m =>
    if m.op.Allowed a.1 w.owner then some (sys.after w a.1 m) else none

/-- The statements of a schedule, in order, as long as each meets `C`. -/
def exec (C : World π κ δ ρ ω → π × χ → Prop) [∀ w a, Decidable (C w a)] (w : World π κ δ ρ ω) (as : List (π × χ)) :
    Option (World π κ δ ρ ω) :=
  as.foldlM (fun w a => if C w a then sys.step w a else none) w

/-- One step whose process and choice meet the condition `C`. -/
def Step (C : World π κ δ ρ ω → π × χ → Prop) (w w' : World π κ δ ρ ω) : Prop :=
  ∃ a, C w a ∧ sys.step w a = some w'

/-- Any number of steps, each of which meets `C`: one order of the statements of all processes. -/
def Run (C : World π κ δ ρ ω → π × χ → Prop) : World π κ δ ρ ω → World π κ δ ρ ω → Prop :=
  Relation.ReflTransGen (sys.Step C)

variable {sys}

theorem step_eq_some {w w' : World π κ δ ρ ω} {i : π} {c : χ} :
    sys.step w (i, c) = some w' ↔ ∃ m, sys.Fires w i c m ∧ sys.after w i m = w' := by
  simp only [step, Fires, Option.bind_eq_some_iff]
  constructor
  · rintro ⟨m, hm, h⟩
    split at h
    · next ha => exact ⟨m, ⟨hm, ha⟩, Option.some.inj h⟩
    · cases h
  · rintro ⟨m, ⟨hm, ha⟩, rfl⟩
    exact ⟨m, hm, if_pos ha⟩

theorem step_of_ended {w : World π κ δ ρ ω} {i : π} {c : χ} (h : sys.move w.db (w.proc i) c = none) : sys.step w (i, c) = none := by
  rw [step, h, Option.bind_none]

section After
variable {w : World π κ δ ρ ω} {i j : π} {c : χ} {m : Move κ υ ρ ω} {k : κ}

@[simp] theorem proc_after_self : (sys.after w i m).proc i = m.next := Function.update_self ..

theorem proc_after_of_ne (h : j ≠ i) : (sys.after w i m).proc j = w.proc j := Function.update_of_ne h ..

/-- A control state is where the move leads, or that of a process that has not moved. -/
theorem proc_after_eq {p : ρ} (h : (sys.after w i m).proc j = p) : (j = i ∧ m.next = p) ∨ (j ≠ i ∧ w.proc j = p) := by
  by_cases hj : j = i
  · subst hj
    rw [proc_after_self] at h
    exact .inl ⟨rfl, h⟩
  · rw [proc_after_of_ne hj] at h
    exact .inr ⟨hj, h⟩

@[simp] theorem trace_after : (sys.after w i m).trace = w.trace ++ m.emit := rfl

@[simp] theorem db_after : (sys.after w i m).db = m.op.effect sys.write w.db := rfl

@[simp] theorem owner_after : (sys.after w i m).owner = m.op.owners i w.owner := rfl

/-- A lock stays with the transaction that holds it while others move. -/
theorem owner_after_of_ne (h : j ≠ i) (ha : m.op.Allowed i w.owner) (hk : w.owner k = some j) :
    (sys.after w i m).owner k = some j := by
  have hne : (some j : Option π) ≠ some i := fun e => h (Option.some.inj e)
  rw [owner_after]
  cases hop : m.op with
  | read => exact hk
  | lock ks =>
    rw [hop] at ha
    by_cases hks : k ∈ ks
    · rcases ha k hks with hf | hf <;> rw [hk] at hf
      · cases hf
      · exact absurd hf hne
    · simp [Op.owners, hks, hk]
  | unlock ks => simp [Op.owners, hk, h]
  | commit ws => simp [Op.owners, hk, h]
  | rollback => simp [Op.owners, hk, h]

end After

/-! ### Rows and their locks -/

/-- When two databases agree on a row, and which rows a write may change. -/
structure Rows (sys : System κ υ δ ρ χ ω) where
  agree : κ → δ → δ → Prop
  agree_refl : ∀ k d, agree k d d
  agree_trans : ∀ {k d d' d''}, agree k d d' → agree k d' d'' → agree k d d''
  touches : υ → κ → Prop
  frame : ∀ {u k} d, ¬ touches u k → agree k d (sys.write d u)

/-- The part `f` of the database depends on the writes `on` that part only. -/
theorem foldl_part {α : Type} {write : δ → υ → δ} {f : δ → α} {on : υ → Bool}
    (skip : ∀ d u, on u = false → f (write d u) = f d) (congr : ∀ {d d'} u, f d = f d' → f (write d u) = f (write d' u))
    (ws : List υ) {d d' : δ} (h : f d = f d') : f (ws.foldl write d) = f ((ws.filter on).foldl write d') := by
  induction ws generalizing d d' with
  | nil => exact h
  | cons u ws ih =>
    rw [List.foldl_cons]
    cases hu : on u with
    | true =>
      rw [List.filter_cons_of_pos hu, List.foldl_cons]
      exact ih (congr u h)
    | false =>
      rw [List.filter_cons_of_neg (by simp [hu])]
      exact ih ((skip d u hu).trans h)

namespace Rows
variable (R : Rows sys) {w : World π κ δ ρ ω} {i j : π} {m : Move κ υ ρ ω} {k : κ}

/-- The move writes only rows that process `i` has locked. -/
def Covered (w : World π κ δ ρ ω) (i : π) (m : Move κ υ ρ ω) : Prop :=
  ∀ ws, m.op = .commit ws → ∀ u ∈ ws, ∀ k, R.touches u k → w.owner k = some i

omit [DecidableEq κ] [DecidableEq π] in
theorem agree_foldl {ws : List υ} (h : ∀ u ∈ ws, ¬ R.touches u k) (d : δ) :
    R.agree k d (ws.foldl sys.write d) := by
  induction ws generalizing d with
  | nil => exact R.agree_refl k d
  | cons u ws ih =>
    refine R.agree_trans (R.frame d (h u (by simp))) ?_
    exact ih (fun v hv => h v (List.mem_cons_of_mem _ hv)) _

/-- A locked row changes only through its holder: covered moves of others leave it alone. -/
theorem agree_of_owner (hc : R.Covered w i m) (hij : j ≠ i) (hk : w.owner k = some j) :
    R.agree k w.db (sys.after w i m).db := by
  rw [db_after]
  cases hop : m.op with
  | commit ws =>
    refine R.agree_foldl (fun u hu ht => hij ?_) _
    exact Option.some.inj (hk.symm.trans (hc ws hop u hu k ht))
  | read | lock _ | unlock _ | rollback => exact R.agree_refl k _

end Rows

/-! ### Runs -/

section Runs
variable {C C' : World π κ δ ρ ω → π × χ → Prop} {w₀ w w' : World π κ δ ρ ω}

theorem Run.trans (h : sys.Run C w₀ w) (h' : sys.Run C w w') : sys.Run C w₀ w' :=
  Relation.ReflTransGen.trans h h'

theorem Run.mono (h : sys.Run C w₀ w) (hC : ∀ w a, C w a → C' w a) : sys.Run C' w₀ w := by
  induction h with
  | refl => exact .refl
  | tail _ hs ih =>
    obtain ⟨a, ha, hstep⟩ := hs
    exact ih.tail ⟨a, hC _ a ha, hstep⟩

theorem Run.step (h : sys.Run C w₀ w) {a : π × χ} (ha : C w a) (hs : sys.step w a = some w') :
    sys.Run C w₀ w' :=
  Relation.ReflTransGen.tail h ⟨a, ha, hs⟩

section Exec
variable [∀ w a, Decidable (C w a)] {as : List (π × χ)}

theorem Run.of_exec (h : sys.exec C w as = some w') : sys.Run C w w' := by
  induction as generalizing w with
  | nil => cases h; exact .refl
  | cons a as ih =>
    simp only [exec, List.foldlM_cons, bind, Option.bind_eq_some_iff] at h
    obtain ⟨v, hv, hw⟩ := h
    split at hv
    · next ha => exact .head ⟨a, ha, hv⟩ (ih hw)
    · cases hv

/-- A schedule whose last world passes a test is a run to such a world. -/
theorem Run.of_exec_any {p : World π κ δ ρ ω → Bool} (h : (sys.exec C w as).any p = true) :
    ∃ w', sys.Run C w w' ∧ p w' = true := by
  obtain ⟨w', hw', hp⟩ := (Option.any_eq_true ..).1 h
  exact ⟨w', .of_exec hw', hp⟩

end Exec

/-- An invariant of all runs may be used at every step. -/
theorem Run.using {I : World π κ δ ρ ω → Prop} (h : sys.Run C w₀ w) (hI : ∀ {w}, sys.Run C w₀ w → I w) :
    sys.Run (fun w a => C w a ∧ I w) w₀ w := by
  induction h with
  | refl => exact .refl
  | tail h hs ih =>
    obtain ⟨a, ha, hstep⟩ := hs
    exact ih.tail ⟨a, ⟨ha, hI h⟩, hstep⟩

/-- What every step keeps holds after a run. -/
theorem Run.invariant {I : World π κ δ ρ ω → Prop} (h : sys.Run C w₀ w) (h₀ : I w₀)
    (hI : ∀ w i c m, I w → C w (i, c) → sys.Fires w i c m → I (sys.after w i m)) : I w := by
  induction h with
  | refl => exact h₀
  | tail _ hs ih =>
    obtain ⟨⟨i, c⟩, hC, hstep⟩ := hs
    obtain ⟨m, hm, rfl⟩ := step_eq_some.1 hstep
    exact hI _ i c m ih hC hm

/-! ### A process by itself -/

variable (sys) in
/-- The statements of one process with no other between them, as a sequential program over the database. -/
def Lone (c : χ) : δ × ρ → δ × ρ → Prop :=
  Relation.ReflTransGen fun x y => ∃ m, sys.move x.1 x.2 c = some m ∧ y = (m.op.effect sys.write x.1, m.next)

/-- While nobody else holds a lock, a process runs as it does by itself. -/
theorem Lone.run {w : World π κ δ ρ ω} {i : π} {c : χ} {y : δ × ρ} (h : sys.Lone c (w.db, w.proc i) y)
    (hfree : ∀ k, w.owner k = none ∨ w.owner k = some i) :
    ∃ w', sys.Run (fun _ a => a = (i, c)) w w' ∧ w'.db = y.1 ∧ w'.proc i = y.2 := by
  suffices ∃ w', sys.Run (fun _ a => a = (i, c)) w w' ∧ w'.db = y.1 ∧ w'.proc i = y.2 ∧
      ∀ k, w'.owner k = none ∨ w'.owner k = some i by
    obtain ⟨w', hrun, hdb, hproc, -⟩ := this
    exact ⟨w', hrun, hdb, hproc⟩
  induction h with
  | refl => exact ⟨w, .refl, rfl, rfl, hfree⟩
  | tail _ hs ih =>
    obtain ⟨v, hrun, hdb, hproc, hv⟩ := ih
    obtain ⟨m, hm, rfl⟩ := hs
    have hallowed : m.op.Allowed i v.owner := by
      cases m.op with
      | lock ks => exact fun k _ => hv k
      | read | unlock | commit | rollback => trivial
    have hfires : sys.Fires v i c m := ⟨by rw [hdb, hproc]; exact hm, hallowed⟩
    refine ⟨sys.after v i m, hrun.step rfl (step_eq_some.2 ⟨m, hfires, rfl⟩), by rw [db_after, hdb], proc_after_self, ?_⟩
    intro k
    rw [owner_after]
    cases m.op with
    | read => exact hv k
    | lock ks =>
      by_cases hk : k ∈ ks
      · exact .inr (if_pos hk)
      · simpa [Op.owners, hk] using hv k
    | unlock ks =>
      by_cases hk : k ∈ ks ∧ v.owner k = some i
      · exact .inl (if_pos hk)
      · simpa [Op.owners, hk] using hv k
    | commit | rollback =>
      left
      rcases hv k with hk | hk <;> simp [Op.owners, hk]

/-- The last statement of a process by itself. -/
theorem Lone.last {w : World π κ δ ρ ω} {i : π} {c : χ} {y : δ × ρ} {m : Move κ υ ρ ω} (h : sys.Lone c (w.db, w.proc i) y)
    (hfree : ∀ k, w.owner k = none ∨ w.owner k = some i) (hm : sys.move y.1 y.2 c = some m)
    (hallowed : ∀ owner, m.op.Allowed i owner) :
    ∃ w', sys.Run (fun _ a => a = (i, c)) w w' ∧ w'.db = m.op.effect sys.write y.1 ∧ w'.proc i = m.next ∧
      ∀ e ∈ m.emit, e ∈ w'.trace := by
  obtain ⟨v, hrun, hdb, hproc⟩ := h.run hfree
  have hfires : sys.Fires v i c m := ⟨by rw [hdb, hproc]; exact hm, hallowed _⟩
  refine ⟨sys.after v i m, hrun.step rfl (step_eq_some.2 ⟨m, hfires, rfl⟩), by rw [db_after, hdb], proc_after_self, fun e he => ?_⟩
  exact List.mem_append_right _ he

/-- What a process by itself comes to, it comes to from every point of the way. -/
theorem Run.onward {w v v' : World π κ δ ρ ω} {a : π × χ} (h : sys.Run (fun _ b => b = a) w v)
    (h' : sys.Run (fun _ b => b = a) w v') (hend : sys.step v' a = none) : sys.Run (fun _ b => b = a) v v' := by
  have unique : Relator.RightUnique (sys.Step fun (_ : World π κ δ ρ ω) b => b = a) := by
    rintro x y z ⟨_, rfl, hy⟩ ⟨_, rfl, hz⟩
    exact Option.some.inj (hy.symm.trans hz)
  rcases Relation.ReflTransGen.total_of_right_unique unique h h' with hrun | hrun
  · exact hrun
  · rcases Relation.ReflTransGen.cases_head hrun with rfl | ⟨x, ⟨_, rfl, hx⟩, -⟩
    · exact .refl
    · rw [hend] at hx
      cases hx

/-- By itself a process comes to one end. -/
theorem Run.unique {w v v' : World π κ δ ρ ω} {a : π × χ} (h : sys.Run (fun _ b => b = a) w v) (h' : sys.Run (fun _ b => b = a) w v')
    (hend : sys.step v a = none) (hend' : sys.step v' a = none) : v = v' := by
  rcases Relation.ReflTransGen.cases_head (h.onward h' hend') with rfl | ⟨x, ⟨_, rfl, hx⟩, -⟩
  · rfl
  · rw [hend] at hx
    cases hx

end Runs

end System

end ReadCommitted
