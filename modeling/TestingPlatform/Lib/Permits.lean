import TestingPlatform.Lib.ReadCommitted
import Mathlib.Data.Finset.Card

/-!
# Counting the processes inside a section

`Inside p n w` says that `n` processes are in control states that satisfy `p`, however many processes there are. A move
changes the count by its own process alone.
-/

namespace ReadCommitted

variable {π κ υ δ ρ χ ω : Type}

def Inside (p : ρ → Prop) (n : Nat) (w : World π κ δ ρ ω) : Prop :=
  ∃ s : Finset π, (∀ i, i ∈ s ↔ p (w.proc i)) ∧ s.card = n

variable [DecidableEq π] [DecidableEq κ] {sys : System κ υ δ ρ χ ω} {p : ρ → Prop} {n : Nat} {w : World π κ δ ρ ω} {i : π}
  {m : Move κ υ ρ ω}

namespace Inside

omit [DecidableEq π] [DecidableEq κ] in
theorem none (h : ∀ i, ¬ p (w.proc i)) : Inside p 0 w := ⟨∅, fun i => by simp [h i], rfl⟩

theorem enter (h : Inside p n w) (hi : ¬ p (w.proc i)) (hm : p m.next) : Inside p (n + 1) (sys.after w i m) := by
  obtain ⟨s, hs, rfl⟩ := h
  have hnew : i ∉ s := fun hmem => hi ((hs i).1 hmem)
  refine ⟨insert i s, fun j => ?_, Finset.card_insert_of_notMem hnew⟩
  by_cases hj : j = i
  · subst hj
    simp [hm]
  · rw [Finset.mem_insert, System.proc_after_of_ne hj, hs j]
    simp [hj]

theorem leave (h : Inside p n w) (hi : p (w.proc i)) (hm : ¬ p m.next) : Inside p (n - 1) (sys.after w i m) := by
  obtain ⟨s, hs, rfl⟩ := h
  have hmem : i ∈ s := (hs i).2 hi
  refine ⟨s.erase i, fun j => ?_, Finset.card_erase_of_mem hmem⟩
  by_cases hj : j = i
  · subst hj
    simp [hm]
  · rw [Finset.mem_erase, System.proc_after_of_ne hj, hs j]
    simp [hj]

theorem stay (h : Inside p n w) (hm : p m.next ↔ p (w.proc i)) : Inside p n (sys.after w i m) := by
  obtain ⟨s, hs, hcard⟩ := h
  refine ⟨s, fun j => ?_, hcard⟩
  by_cases hj : j = i
  · subst hj
    rw [System.proc_after_self, hm, hs j]
  · rw [System.proc_after_of_ne hj, hs j]

omit [DecidableEq π] [DecidableEq κ] in
theorem pos (h : Inside p n w) (hi : p (w.proc i)) : 0 < n := by
  obtain ⟨s, hs, rfl⟩ := h
  exact Finset.card_pos.2 ⟨i, (hs i).2 hi⟩

end Inside

end ReadCommitted
