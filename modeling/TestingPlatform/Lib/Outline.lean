import TestingPlatform.Lib.ReadCommitted

/-!
# Proof outlines

An `Outline` annotates a program: at every control state an assertion about the locks its transaction
holds and the committed rows. What a process asserts about rows it has locked survives the others,
because they write locked rows of their own only; about other rows it may assert what the guarantee of
the others leaves alone. `Outline.of_run` says that the annotation is right in every run.
-/

namespace ReadCommitted

variable {π κ υ δ ρ χ ω : Type}

/-- What a statement gives its process in the lock table. -/
structure Keeps (held held' : κ → Prop) (op : Op κ υ) : Prop where
  read : op = .read → ∀ k, held k → held' k
  lock : ∀ ks, op = .lock ks → (∀ k, held k → held' k) ∧ ∀ k ∈ ks, held' k
  unlock : ∀ ks, op = .unlock ks → ∀ k, held k → k ∉ ks → held' k

structure Outline (sys : System κ υ δ ρ χ ω) where
  rows : sys.Rows
  holds : ρ → (κ → Prop) → δ → Prop
  /-- What every statement guarantees to the other processes. -/
  guar : δ → δ → Prop
  stable : ∀ {p held held' d d'}, holds p held d → (∀ k, held k → held' k) → (∀ k, held k → rows.agree k d d') →
    guar d d' → holds p held' d'
  covered : ∀ {p held d c m ws}, sys.move d p c = some m → holds p held d → m.op = .commit ws →
    ∀ u ∈ ws, ∀ k, rows.touches u k → held k
  guarantees : ∀ {p held d c m}, sys.move d p c = some m → holds p held d → guar d (m.op.effect sys.write d)
  next : ∀ {p held held' d c m}, sys.move d p c = some m → holds p held d → Keeps held held' m.op →
    holds m.next held' (m.op.effect sys.write d)

namespace Outline
variable {sys : System κ υ δ ρ χ ω} (o : Outline sys)

/-- The assertion of process `i`, about the locks it has. -/
def At (w : World π κ δ ρ ω) (i : π) : Prop := o.holds (w.proc i) (fun k => w.owner k = some i) w.db

variable {o} [DecidableEq π] [DecidableEq κ] {w w₀ : World π κ δ ρ ω} {i j : π} {c : χ} {m : Move κ υ ρ ω}

theorem At.self (h : o.At w i) (hm : sys.Fires w i c m) : o.At (sys.after w i m) i := by
  unfold At
  rw [System.proc_after_self]
  refine o.next hm.1 h ⟨fun hop k hk => ?_, fun ks hop => ⟨fun k hk => ?_, fun k hk => ?_⟩, fun ks hop k hk hn => ?_⟩
  · simp [hop, Op.owners, hk]
  · simp [hop, Op.owners, hk]
  · simp [hop, Op.owners, hk]
  · simp [hop, Op.owners, hk, hn]

/-- A row that another process has locked stands. -/
theorem At.agree {k : κ} (hi : o.At w i) (hm : sys.Fires w i c m) (hij : j ≠ i) (hk : w.owner k = some j) :
    o.rows.agree k w.db (sys.after w i m).db :=
  o.rows.agree_of_owner (fun _ hop u hu k hk => o.covered hm.1 hi hop u hu k hk) hij hk

theorem At.other (hi : o.At w i) (hj : o.At w j) (hij : j ≠ i) (hm : sys.Fires w i c m) : o.At (sys.after w i m) j := by
  unfold At
  rw [System.proc_after_of_ne hij]
  exact o.stable hj (fun k hk => System.owner_after_of_ne hij hm.2 hk) (fun k hk => hi.agree hm hij hk)
    (o.guarantees hm.1 hi)

/-- In every run each process meets its assertion. -/
theorem of_run {C : World π κ δ ρ ω → π × χ → Prop} (h : sys.Run C w₀ w) (h₀ : ∀ i, o.At w₀ i) (i : π) : o.At w i :=
  h.invariant (I := fun w => ∀ i, o.At w i) h₀ (fun w i c m ha _ hm j => by
    by_cases hij : j = i
    · exact hij ▸ (ha i).self hm
    · exact (ha i).other (ha j) hij hm) i

theorem guar_of_fires (h : o.At w i) (hm : sys.Fires w i c m) : o.guar w.db (sys.after w i m).db := o.guarantees hm.1 h

end Outline

end ReadCommitted
