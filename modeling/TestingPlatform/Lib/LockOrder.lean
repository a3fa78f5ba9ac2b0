import TestingPlatform.Lib.ReadCommitted
import Mathlib.Algebra.Order.BigOperators.Group.Finset
import Mathlib.Algebra.Ring.Nat
import Mathlib.Data.Fintype.Basic

/-!
# Locks in order

A program takes its row locks in the order of a `rank` if at every control state there is a `level`: the ranks it may
hold are below it, and those it asks for are not. That is a matter of its text (`Ascends`), and it excludes
that transactions wait for each other in a circle, in every run and whoever is killed (`Ascends.no_circular_wait`). If
besides every statement has less work before it than the one before (`Shrinks`), every order of the statements comes
to an end, and the only worlds in which nobody can move are those in which everybody is done (`Ascends.completes`).
-/

namespace ReadCommitted

variable {π κ υ δ ρ χ ω : Type}

/-- A bound on the ranks of the locks a control state holds. -/
structure Ascends (sys : System κ υ δ ρ χ ω) (rank : κ → ℕ) (level : ρ → ℕ) : Prop where
  asks : ∀ {d p c m ks}, sys.move d p c = some m → m.op = .lock ks → ∀ k ∈ ks, level p ≤ rank k
  takes : ∀ {d p c m ks}, sys.move d p c = some m → m.op = .lock ks → level p ≤ level m.next ∧ ∀ k ∈ ks, rank k < level m.next
  keeps : ∀ {d p c m}, sys.move d p c = some m → (m.op = .read ∨ ∃ ks, m.op = .unlock ks) → level p ≤ level m.next
  /-- Who has nothing left to do holds nothing. -/
  ends : ∀ {d p c}, sys.move d p c = none → level p = 0

/-- Every statement of a process that has work left leaves less of it. -/
structure Shrinks (sys : System κ υ δ ρ χ ω) (work : ρ → ℕ) : Prop where
  next : ∀ {d p c m}, sys.move d p c = some m → 0 < work p → work m.next < work p

namespace System
variable (sys : System κ υ δ ρ χ ω)

/-- The next statement of `i` locks the row `k`. -/
def AsksFor (c : χ) (w : World π κ δ ρ ω) (i : π) (k : κ) : Prop :=
  ∃ m ks, sys.move w.db (w.proc i) c = some m ∧ m.op = .lock ks ∧ k ∈ ks

/-- The next statement of `i` locks a row that `j` holds. -/
def WaitsFor (c : χ) (w : World π κ δ ρ ω) (i j : π) : Prop :=
  j ≠ i ∧ ∃ k, sys.AsksFor c w i k ∧ w.owner k = some j

end System

/-- Every lock is below the level of its holder. -/
def Below (rank : κ → ℕ) (level : ρ → ℕ) (w : World π κ δ ρ ω) : Prop := ∀ i k, w.owner k = some i → rank k < level (w.proc i)

theorem Below.of_unlocked {rank : κ → ℕ} {level : ρ → ℕ} {w : World π κ δ ρ ω} (h : ∀ k, w.owner k = none) :
    Below rank level w := fun i k hk => by
  rw [h k] at hk
  cases hk

namespace Ascends
variable {sys : System κ υ δ ρ χ ω} {rank : κ → ℕ} {level : ρ → ℕ} {c : χ}

section Waiting
variable {w : World π κ δ ρ ω} {i j : π}

theorem rank_lt (ha : Ascends sys rank level) (hb : Below rank level w) {k k' : κ} (hk : w.owner k = some i)
    (hk' : sys.AsksFor c w i k') : rank k < rank k' := by
  obtain ⟨m, ks, hm, hop, hmem⟩ := hk'
  exact (hb i k hk).trans_le (ha.asks hm hop k' hmem)

/-- Along a chain of waits the ranks of the locks grow. -/
theorem chain (ha : Ascends sys rank level) (hb : Below rank level w) (h : Relation.TransGen (sys.WaitsFor c w) i j) :
    ∃ k k', sys.AsksFor c w i k ∧ w.owner k' = some j ∧ rank k ≤ rank k' := by
  induction h with
  | single hw =>
    obtain ⟨-, k, hasks, hk⟩ := hw
    exact ⟨k, k, hasks, hk, le_rfl⟩
  | tail _ hw ih =>
    obtain ⟨k, k', hasks, hk', hle⟩ := ih
    obtain ⟨-, l, hl, howner⟩ := hw
    exact ⟨k, l, hasks, howner, hle.trans (ha.rank_lt hb hk' hl).le⟩

theorem no_circular_wait (ha : Ascends sys rank level) (hb : Below rank level w) (i : π) :
    ¬ Relation.TransGen (sys.WaitsFor c w) i i := fun h => by
  obtain ⟨k, k', hasks, hk', hle⟩ := ha.chain hb h
  have hlt := ha.rank_lt hb hk' hasks
  omega

variable [DecidableEq π]

/-- A statement that cannot be executed waits for somebody. -/
theorem fires_or_waits {m : Move κ υ ρ ω} (hm : sys.move w.db (w.proc i) c = some m) :
    sys.Fires w i c m ∨ ∃ j, sys.WaitsFor c w i j := by
  by_cases hallowed : m.op.Allowed i w.owner
  · exact .inl ⟨hm, hallowed⟩
  · right
    cases hop : m.op with
    | lock ks =>
      simp only [hop, Op.Allowed, not_forall, not_or] at hallowed
      obtain ⟨k, hk, hfree, hother⟩ := hallowed
      obtain ⟨j, hj⟩ := Option.ne_none_iff_exists'.1 hfree
      exact ⟨j, fun he => hother (he ▸ hj), k, ⟨m, ks, hm, hop, hk⟩, hj⟩
    | read | unlock _ | commit _ | rollback => exact absurd (by rw [hop]; trivial) hallowed

/-- At the end of the waits of a holder somebody can move; the induction is on how far its lock is below the bound. -/
theorem exists_fires_of_owner (ha : Ascends sys rank level) (hb : Below rank level w) {n : ℕ} (hn : ∀ k, rank k < n) {k : κ}
    (hk : w.owner k = some i) : ∃ j m, Relation.ReflTransGen (sys.WaitsFor c w) i j ∧ sys.Fires w j c m := by
  induction hd : n - rank k using Nat.strong_induction_on generalizing i k with
  | _ d ih =>
    cases hm : sys.move w.db (w.proc i) c with
    | none =>
      have hlevel := ha.ends hm
      have hlt := hb i k hk
      omega
    | some m =>
      rcases fires_or_waits hm with hfires | ⟨j, hw⟩
      · exact ⟨i, m, .refl, hfires⟩
      · obtain ⟨-, l, hl, hj⟩ := id hw
        have hlt := ha.rank_lt hb hk hl
        have hbound := hn l
        obtain ⟨j', m', hchain, hfires⟩ := ih (n - rank l) (by omega) hj rfl
        exact ⟨j', m', .head hw hchain, hfires⟩

/-- Where somebody has a statement left, somebody can execute one. -/
theorem exists_fires (ha : Ascends sys rank level) (hb : Below rank level w) {n : ℕ} (hn : ∀ k, rank k < n)
    {m : Move κ υ ρ ω} (hm : sys.move w.db (w.proc i) c = some m) :
    ∃ j m', Relation.ReflTransGen (sys.WaitsFor c w) i j ∧ sys.Fires w j c m' := by
  rcases fires_or_waits hm with hfires | ⟨j, hw⟩
  · exact ⟨i, m, .refl, hfires⟩
  · obtain ⟨-, k, -, hk⟩ := id hw
    obtain ⟨j', m', hchain, hfires⟩ := ha.exists_fires_of_owner hb hn hk
    exact ⟨j', m', .head hw hchain, hfires⟩

end Waiting

section Steps
variable [DecidableEq π] [DecidableEq κ] {w w' : World π κ δ ρ ω} {i : π} {m : Move κ υ ρ ω}

theorem below_after (ha : Ascends sys rank level) (hb : Below rank level w) (hm : sys.Fires w i c m) :
    Below rank level (sys.after w i m) := by
  intro j k hk
  by_cases hij : j = i
  · subst hij
    rw [System.proc_after_self]
    rw [System.owner_after] at hk
    cases hop : m.op with
    | read =>
      rw [hop] at hk
      exact (hb j k hk).trans_le (ha.keeps hm.1 (.inl hop))
    | lock ks =>
      simp only [hop, Op.owners] at hk
      obtain ⟨hle, hlt⟩ := ha.takes hm.1 hop
      split at hk
      next hmem => exact hlt k hmem
      · exact (hb j k hk).trans_le hle
    | unlock ks =>
      simp only [hop, Op.owners] at hk
      split at hk
      · cases hk
      · exact (hb j k hk).trans_le (ha.keeps hm.1 (.inr ⟨ks, hop⟩))
    | commit | rollback =>
      simp only [hop, Op.owners] at hk
      split at hk
      · cases hk
      next hne => exact absurd hk hne
  · rw [System.proc_after_of_ne hij]
    refine hb j k ?_
    rw [System.owner_after] at hk
    cases hop : m.op with
    | read => rwa [hop] at hk
    | lock ks =>
      simp only [hop, Op.owners] at hk
      split at hk
      · exact absurd (Option.some.inj hk).symm hij
      · exact hk
    | unlock | commit | rollback =>
      simp only [hop, Op.owners] at hk
      split at hk
      · cases hk
      · exact hk

theorem below_of_run {C : World π κ δ ρ ω → π × χ → Prop} (ha : Ascends sys rank level) (hb : Below rank level w)
    (h : sys.Run C w w') : Below rank level w' :=
  h.invariant (I := Below rank level) hb fun _ _ _ _ hb _ hm => ha.below_after hb hm

end Steps

end Ascends

/-! ### Work -/

section Work
variable [Fintype π] {sys : System κ υ δ ρ χ ω} {work : ρ → ℕ}

/-- The work of all processes. -/
def total (work : ρ → ℕ) (w : World π κ δ ρ ω) : ℕ := ∑ i, work (w.proc i)

variable [DecidableEq π] [DecidableEq κ] {w w' : World π κ δ ρ ω} {i : π} {c : χ} {m : Move κ υ ρ ω}

theorem Shrinks.total_after (hs : Shrinks sys work) (hm : sys.Fires w i c m) (hi : 0 < work (w.proc i)) :
    total work (sys.after w i m) < total work w := by
  refine Finset.sum_lt_sum (fun j _ => ?_) ⟨i, Finset.mem_univ i, ?_⟩
  · by_cases hij : j = i
    · subst hij
      rw [System.proc_after_self]
      exact (hs.next hm.1 hi).le
    · rw [System.proc_after_of_ne hij]
  · rw [System.proc_after_self]
    exact hs.next hm.1 hi

/-- No schedule of processes that have work left has more statements than there is work. -/
theorem Shrinks.length_le {C : World π κ δ ρ ω → π × χ → Prop} [∀ w a, Decidable (C w a)] (hs : Shrinks sys work)
    (hC : ∀ w a, C w a → 0 < work (w.proc a.1)) {as : List (π × χ)} (h : sys.exec C w as = some w') :
    as.length + total work w' ≤ total work w := by
  induction as generalizing w with
  | nil =>
    cases h
    simp
  | cons a as ih =>
    simp only [System.exec, List.foldlM_cons, bind, Option.bind_eq_some_iff] at h
    obtain ⟨v, hv, hw⟩ := h
    split at hv
    next hc =>
      obtain ⟨m, hm, rfl⟩ := System.step_eq_some.1 hv
      have hlt := hs.total_after hm (hC w a hc)
      have hle := ih hw
      simp only [List.length_cons]
      omega
    · cases hv

/-- From wherever a run has led, everybody can be brought to an end. -/
theorem Ascends.completes {rank : κ → ℕ} {level : ρ → ℕ} (ha : Ascends sys rank level) (hs : Shrinks sys work)
    (hidle : ∀ d p, work p = 0 → sys.move d p c = none) {n : ℕ} (hn : ∀ k, rank k < n) (hb : Below rank level w) :
    ∃ w', sys.Run (fun _ a => a.2 = c) w w' ∧ ∀ i, sys.move w'.db (w'.proc i) c = none := by
  induction hd : total work w using Nat.strong_induction_on generalizing w with
  | _ d ih =>
    by_cases hdone : ∀ i, sys.move w.db (w.proc i) c = none
    · exact ⟨w, .refl, hdone⟩
    · obtain ⟨i, hi⟩ := not_forall.1 hdone
      obtain ⟨m, hm⟩ := Option.ne_none_iff_exists'.1 hi
      obtain ⟨j, m', -, hfires⟩ := ha.exists_fires hb hn hm
      have hwork : 0 < work (w.proc j) := Nat.pos_of_ne_zero fun hz => by
        have hnone := hidle w.db _ hz
        rw [hfires.1] at hnone
        cases hnone
      obtain ⟨w', hrun, hend⟩ := ih _ (hd ▸ hs.total_after hfires hwork) (ha.below_after hb hfires) rfl
      exact ⟨w', .head ⟨(j, c), rfl, System.step_eq_some.2 ⟨m', hfires, rfl⟩⟩ hrun, hend⟩

end Work

end ReadCommitted
