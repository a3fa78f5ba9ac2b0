import TestingPlatform.Lib.ReadCommitted

/-!
# What shows at most once

A process commits to something and shows it later, one statement at a time. That it shows at most once
over all processes follows from an account: what has been shown, and what each process still owes. The
right to owe it is used up in the database (`spent`), and only one commit uses it up.
-/

namespace ReadCommitted

variable {π κ υ δ ρ χ ω : Type}

/-- What counts as shown, how much of it a process owes, and when the right to it is used up. -/
structure Once (δ ρ ω : Type) where
  shows : ω → Bool
  owes : ρ → Nat
  spent : δ → Prop

namespace Once
variable (o : Once δ ρ ω)

def count (messages : List ω) : Nat := messages.countP o.shows

@[simp] theorem count_nil : o.count [] = 0 := rfl

@[simp] theorem count_append (l l' : List ω) : o.count (l ++ l') = o.count l + o.count l' := List.countP_append

theorem count_eq_zero {l : List ω} (h : ∀ m ∈ l, o.shows m = false) : o.count l = 0 :=
  List.countP_eq_zero.2 fun m hm => by simp [h m hm]

structure Account (w : World π κ δ ρ ω) : Prop where
  total : o.count w.trace ≤ 1
  /-- Whoever owes owes the only one. -/
  once : ∀ i, o.count w.trace + o.owes (w.proc i) ≤ 1
  one : ∀ i j, i ≠ j → o.owes (w.proc i) = 0 ∨ o.owes (w.proc j) = 0
  still : ¬ o.spent w.db → o.count w.trace = 0 ∧ ∀ i, o.owes (w.proc i) = 0

variable {o} {w : World π κ δ ρ ω}

theorem Account.start (htrace : w.trace = []) (howes : ∀ i, o.owes (w.proc i) = 0) : o.Account w := by
  have hnone : o.count w.trace = 0 := by rw [htrace]; rfl
  constructor
  · omega
  · intro i
    have hi := howes i
    omega
  · exact fun i _ _ => .inl (howes i)
  · exact fun _ => ⟨hnone, howes⟩

variable [DecidableEq π] [DecidableEq κ] {sys : System κ υ δ ρ χ ω} {i : π} {m : Move κ υ ρ ω}

/-- A move shows and owes no more than its process owed, or it uses the right up. -/
theorem Account.step (ha : o.Account w) (hspent : o.spent w.db → o.spent (sys.after w i m).db)
    (hmove : o.count m.emit + o.owes m.next ≤ o.owes (w.proc i) ∨
      (¬ o.spent w.db ∧ o.spent (sys.after w i m).db ∧ o.count m.emit + o.owes m.next ≤ 1)) :
    o.Account (sys.after w i m) := by
  have hself : (sys.after w i m).proc i = m.next := System.proc_after_self
  have hother : ∀ {j}, j ≠ i → (sys.after w i m).proc j = w.proc j := System.proc_after_of_ne
  have htrace : o.count (sys.after w i m).trace = o.count w.trace + o.count m.emit := by simp
  have honce := ha.once i
  constructor
  · rw [htrace]
    rcases hmove with hle | ⟨hfree, -, hle⟩
    · omega
    · obtain ⟨hnone, -⟩ := ha.still hfree
      omega
  · intro j
    by_cases hij : j = i
    · subst hij
      rw [hself, htrace]
      rcases hmove with hle | ⟨hfree, -, hle⟩
      · omega
      · obtain ⟨hnone, -⟩ := ha.still hfree
        omega
    · rw [hother hij, htrace]
      have hj := ha.once j
      rcases hmove with hle | ⟨hfree, -, hle⟩
      · rcases ha.one j i hij with hz | hz <;> omega
      · obtain ⟨hnone, hall⟩ := ha.still hfree
        have hz := hall j
        omega
  · intro j₁ j₂ hne
    -- a move of `i` leaves the debts of the others alone
    have against : ∀ {j}, j ≠ i → o.owes m.next = 0 ∨ o.owes (w.proc j) = 0 := fun {j} hj => by
      rcases hmove with hle | ⟨hfree, -⟩
      · rcases ha.one i j (Ne.symm hj) with hz | hz
        · left; omega
        · exact .inr hz
      · exact .inr ((ha.still hfree).2 j)
    by_cases h₁ : j₁ = i
    · subst h₁
      rw [hself, hother hne.symm]
      exact against hne.symm
    · rw [hother h₁]
      by_cases h₂ : j₂ = i
      · subst h₂
        rw [hself]
        exact (against h₁).symm
      · rw [hother h₂]
        exact ha.one j₁ j₂ hne
  · intro hfree'
    obtain ⟨hnone, hall⟩ := ha.still fun h => hfree' (hspent h)
    rcases hmove with hle | ⟨-, hused, -⟩
    · have hi := hall i
      refine ⟨by omega, fun j => ?_⟩
      by_cases hij : j = i
      · subst hij
        rw [hself]; omega
      · rw [hother hij]
        exact hall j
    · exact absurd hused hfree'

end Once

end ReadCommitted
