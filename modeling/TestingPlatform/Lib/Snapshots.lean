import TestingPlatform.Lib.History

/-!
# Decisions on a snapshot

A process that reads the database in one statement and commits in a later one decides on a snapshot, which another
commit may have overtaken in between. `Snapshots` says which steps take a snapshot and which commits overtake the
snapshots of the others. Where nobody commits on an overtaken snapshot (`Undisturbed`), every such commit finds
the database as its snapshot had it, and `Path.undisturbed` is the induction over such a run.
-/

namespace ReadCommitted

variable {π κ υ δ ρ χ ω : Type}

structure Snapshots (π κ υ δ ρ ω : Type) where
  /-- The step takes the snapshot that its process goes on with. -/
  takes : Taken π κ υ δ ρ ω → Bool
  /-- The step commits on its snapshot, which overtakes every other. -/
  lands : Taken π κ υ δ ρ ω → Bool

namespace Snapshots
variable [DecidableEq π] (o : Snapshots π κ υ δ ρ ω)

/-- The processes whose last snapshot has been overtaken. -/
def overtaken (H : List (Taken π κ υ δ ρ ω)) : π → Bool :=
  H.foldl (fun stale x => if o.lands x then fun _ => true else if o.takes x then Function.update stale x.proc false else stale)
    fun _ => false

/-- No step of the history commits on an overtaken snapshot. -/
def Undisturbed (H : List (Taken π κ υ δ ρ ω)) : Prop :=
  ∀ n (h : n < H.length), o.lands H[n] = true → o.overtaken (H.take n) H[n].proc = false

instance (H : List (Taken π κ υ δ ρ ω)) : Decidable (o.Undisturbed H) :=
  inferInstanceAs (Decidable (∀ n (h : n < H.length), o.lands H[n] = true → o.overtaken (H.take n) H[n].proc = false))

section Append
variable {o} {H : List (Taken π κ υ δ ρ ω)} {x : Taken π κ υ δ ρ ω} {i : π}

theorem overtaken_append : o.overtaken (H ++ [x]) = if o.lands x then fun _ => true
    else if o.takes x then Function.update (o.overtaken H) x.proc false else o.overtaken H := by
  simp [overtaken]

theorem overtaken_of_lands (h : o.lands x = true) : o.overtaken (H ++ [x]) i = true := by
  rw [overtaken_append, if_pos h]

/-- Who is not overtaken has just taken a snapshot, or has not been overtaken before. -/
theorem overtaken_eq_false (h : o.overtaken (H ++ [x]) i = false) :
    o.lands x = false ∧ ((o.takes x = true ∧ x.proc = i) ∨ o.overtaken H i = false) := by
  rw [overtaken_append] at h
  split at h
  · cases h
  next hlands =>
    refine ⟨by simpa using hlands, ?_⟩
    split at h
    next htakes =>
      by_cases hi : x.proc = i
      · exact .inl ⟨htakes, hi⟩
      · rw [Function.update_of_ne (Ne.symm hi)] at h
        exact .inr h
    · exact .inr h

theorem Undisturbed.append (h : o.Undisturbed (H ++ [x])) :
    o.Undisturbed H ∧ (o.lands x = true → o.overtaken H x.proc = false) := by
  constructor
  · intro n hn
    have hx := h n (by rw [List.length_append]; omega)
    rw [List.getElem_append_left hn, List.take_append_of_le_length (Nat.le_of_lt hn)] at hx
    exact hx
  · have hx := h H.length (by simp)
    rw [List.getElem_concat_length rfl, List.take_left' rfl] at hx
    exact hx

end Append

end Snapshots

/-- What every step keeps that does not commit on an overtaken snapshot holds of every path without such a step. -/
theorem System.Path.undisturbed [DecidableEq π] [DecidableEq κ] {sys : System κ υ δ ρ χ ω} {C : World π κ δ ρ ω → π × χ → Prop}
    {w₀ w : World π κ δ ρ ω} {H : List (Taken π κ υ δ ρ ω)} {o : Snapshots π κ υ δ ρ ω}
    {I : List (Taken π κ υ δ ρ ω) → World π κ δ ρ ω → Prop} (h : sys.Path C w₀ H w) (hun : o.Undisturbed H) (h₀ : I [] w₀)
    (hI : ∀ H w i c m, sys.Run C w₀ w → I H w → sys.Fires w i c m → (o.lands ⟨w, i, m⟩ = true → o.overtaken H i = false) →
      I (H ++ [⟨w, i, m⟩]) (sys.after w i m)) : I H w := by
  have hall : o.Undisturbed H → I H w := h.invariant (I := fun H w => o.Undisturbed H → I H w) (fun _ => h₀)
    fun H w i c m hrun ih _ hm hun => by
      obtain ⟨hun, hlast⟩ := hun.append
      exact hI H w i c m hrun (ih hun) hm hlast
  exact hall hun

end ReadCommitted
