import Mathlib.Algebra.Order.BigOperators.Group.List
import Mathlib.Algebra.Order.Group.Nat
import Mathlib.Algebra.Ring.Nat

/-!
# Fixed windows that restart lazily

A window starts at some instant and counts what is charged until `W` later; the first charge after that starts the
next one. Two windows are therefore at least `W` apart, and an interval shorter than `W` meets at most two of them:
what is charged in it is at most twice what a window admits (`Windowed.within_le`).
-/

namespace FixedWindow

variable {τ : Type}

/-- What has been charged at an instant, to the window that started at `window`. -/
structure Charge (τ : Type) where
  window : τ
  time : τ
  amount : Nat
  deriving DecidableEq, Repr

def total (cs : List (Charge τ)) : Nat := (cs.map Charge.amount).sum

section Defs
variable [LinearOrder τ]

/-- The charges to one window. -/
def inWindow (start : τ) (cs : List (Charge τ)) : List (Charge τ) := cs.filter fun c => c.window = start

/-- The charges from `a` to `b`. -/
def within (a b : τ) (cs : List (Charge τ)) : List (Charge τ) := cs.filter fun c => a ≤ c.time ∧ c.time ≤ b

/-- Windows of length `W`, no two of which overlap. -/
structure Windowed [Add τ] (W : τ) (cs : List (Charge τ)) : Prop where
  inside : ∀ c ∈ cs, c.window ≤ c.time ∧ c.time < c.window + W
  apart : ∀ c ∈ cs, ∀ d ∈ cs, c.window < d.window → c.window + W ≤ d.window

end Defs

section Total
variable {cs : List (Charge τ)}

@[simp] theorem total_append (cs ds : List (Charge τ)) : total (cs ++ ds) = total cs + total ds := by simp [total]

theorem total_le_of_sublist {ds : List (Charge τ)} (h : cs.Sublist ds) : total cs ≤ total ds :=
  (h.map _).sum_le_sum fun _ _ => Nat.zero_le _

theorem total_filter_add (p : Charge τ → Bool) (cs : List (Charge τ)) :
    total (cs.filter p) + total (cs.filter fun c => !p c) = total cs := by
  induction cs with
  | nil => rfl
  | cons c cs ih =>
    simp only [total] at ih
    cases hp : p c <;> simp [total, hp] <;> omega

end Total

/-! ### Any interval shorter than a window -/

section Within
variable [LinearOrder τ] {a b : τ} {L : Nat} {cs : List (Charge τ)}

/-- Charges all of which went to one window. -/
theorem total_le_of_window_eq {ds : List (Charge τ)} (hsub : ds.Sublist cs) (hL : ∀ start, total (inWindow start cs) ≤ L)
    (hsame : ∀ c ∈ ds, ∀ d ∈ ds, c.window = d.window) : total ds ≤ L := by
  rcases ds with _ | ⟨c, ds⟩
  · exact Nat.zero_le L
  · have hall : (c :: ds).filter (fun d => d.window = c.window) = c :: ds := by
      refine List.filter_eq_self.2 fun d hd => ?_
      simpa using hsame d hd c List.mem_cons_self
    rw [← hall]
    exact (total_le_of_sublist (hsub.filter _)).trans (hL c.window)

variable [AddCommGroup τ] {W : τ}

theorem Windowed.sublist {ds : List (Charge τ)} (h : Windowed W cs) (hsub : ds.Sublist cs) : Windowed W ds where
  inside c hc := h.inside c (hsub.subset hc)
  apart c hc d hd := h.apart c (hsub.subset hc) d (hsub.subset hd)

/-- Two windows closer than `W` are one. -/
theorem Windowed.window_eq (h : Windowed W cs) {c d : Charge τ} (hc : c ∈ cs) (hd : d ∈ cs) (hcd : d.window < c.window + W)
    (hdc : c.window < d.window + W) : c.window = d.window := by
  rcases lt_trichotomy c.window d.window with hlt | heq | hlt
  · exact absurd (h.apart c hc d hd hlt) (not_le.2 hcd)
  · exact heq
  · exact absurd (h.apart d hd c hc hlt) (not_le.2 hdc)

variable [IsOrderedAddMonoid τ]

/-- The charges of an interval lie in the window that is open when it begins and in the next one. -/
theorem Windowed.within_le (h : Windowed W cs) (hL : ∀ start, total (inWindow start cs) ≤ L) (hab : b < a + W) :
    total (within a b cs) ≤ 2 * L := by
  have hmem : ∀ {c}, c ∈ within a b cs → c ∈ cs ∧ a ≤ c.time ∧ c.time ≤ b := fun hc => by
    simpa [within] using hc
  have hsub : (within a b cs).Sublist cs := List.filter_sublist
  have hsplit := total_filter_add (fun c => decide (c.window ≤ a)) (within a b cs)
  have hfirst : total ((within a b cs).filter fun c => decide (c.window ≤ a)) ≤ L := by
    refine total_le_of_window_eq (List.filter_sublist.trans hsub) hL fun c hc d hd => ?_
    obtain ⟨hc, hca⟩ := List.mem_filter.1 hc
    obtain ⟨hd, hda⟩ := List.mem_filter.1 hd
    obtain ⟨hc, hac, -⟩ := hmem hc
    obtain ⟨hd, had, -⟩ := hmem hd
    refine h.window_eq hc hd ?_ ?_
    · exact (of_decide_eq_true hda).trans_lt (hac.trans_lt (h.inside c hc).2)
    · exact (of_decide_eq_true hca).trans_lt (had.trans_lt (h.inside d hd).2)
  have hnext : total ((within a b cs).filter fun c => !decide (c.window ≤ a)) ≤ L := by
    refine total_le_of_window_eq (List.filter_sublist.trans hsub) hL fun c hc d hd => ?_
    obtain ⟨hc, hca⟩ := List.mem_filter.1 hc
    obtain ⟨hd, hda⟩ := List.mem_filter.1 hd
    obtain ⟨hc, -, hcb⟩ := hmem hc
    obtain ⟨hd, -, hdb⟩ := hmem hd
    have hca : a < c.window := by simpa using hca
    have hda : a < d.window := by simpa using hda
    refine h.window_eq hc hd ?_ ?_
    · exact (((h.inside d hd).1.trans hdb).trans_lt hab).trans (add_lt_add_left hca W)
    · exact (((h.inside c hc).1.trans hcb).trans_lt hab).trans (add_lt_add_left hda W)
  omega

end Within

/-! ### The counter -/

/-- The window that is current, and what has been charged to it. -/
structure Window (τ : Type) where
  start : τ
  spent : Nat
  deriving DecidableEq, Repr

/-- The window that a charge at `now` goes to. -/
def Window.at [LinearOrder τ] [Add τ] (W : τ) (v : Window τ) (now : τ) : Window τ := if v.start + W ≤ now then ⟨now, 0⟩ else v

def Window.take (v : Window τ) (n : Nat) : Window τ := { v with spent := v.spent + n }

/-- The charges so far, where `v` is the current window. -/
structure Tracks [LinearOrder τ] [Add τ] (W : τ) (v : Window τ) (cs : List (Charge τ)) : Prop where
  windowed : Windowed W cs
  current : total (inWindow v.start cs) = v.spent
  past : ∀ c ∈ cs, c.window = v.start ∨ c.window + W ≤ v.start

section Counter
variable [LinearOrder τ] {now : τ} {v : Window τ} {cs : List (Charge τ)}

/-- Every other window is as it was. -/
theorem total_inWindow_charge (start : τ) (n : Nat) : total (inWindow start (cs ++ [⟨v.start, now, n⟩])) =
    total (inWindow start cs) + if v.start = start then n else 0 := by
  rw [inWindow, List.filter_append, total_append]
  by_cases hstart : v.start = start <;> simp [inWindow, total, hstart]

variable [AddCommGroup τ] {W : τ}

theorem Tracks.nil (W start : τ) : Tracks W ⟨start, 0⟩ [] := by
  constructor
  · constructor <;> simp
  · rfl
  · simp

/-- A charge that the current window has room for keeps every window within the limit. -/
theorem Tracks.charge_le {L n : Nat} (h : Tracks W v cs) (hL : ∀ start, total (inWindow start cs) ≤ L) (hn : v.spent + n ≤ L)
    (now start : τ) : total (inWindow start (cs ++ [⟨v.start, now, n⟩])) ≤ L := by
  rw [total_inWindow_charge]
  split
  · next hstart => rwa [← hstart, h.current]
  · exact hL start

variable [IsOrderedAddMonoid τ]

theorem Window.at_start (hW : 0 < W) (hnow : v.start ≤ now) :
    (v.at W now).start ≤ now ∧ now < (v.at W now).start + W := by
  unfold Window.at
  split
  · exact ⟨le_rfl, lt_add_of_pos_right now hW⟩
  · next hopen => exact ⟨hnow, not_le.1 hopen⟩

/-- A window that has run out gives way to an empty one. -/
theorem Tracks.at (h : Tracks W v cs) (hW : 0 < W) (now : τ) : Tracks W (v.at W now) cs := by
  unfold Window.at
  split
  · next hover =>
    have hpast : ∀ c ∈ cs, c.window + W ≤ now := by
      intro c hc
      rcases h.past c hc with heq | hle
      · rwa [heq]
      · exact (hle.trans (le_add_of_nonneg_right hW.le)).trans hover
    refine ⟨h.windowed, ?_, fun c hc => .inr (hpast c hc)⟩
    have hnone : inWindow now cs = [] := by
      refine List.filter_eq_nil_iff.2 fun c hc heq => ?_
      have hlt := (lt_add_of_pos_right c.window hW).trans_le (hpast c hc)
      exact hlt.ne (by simpa using heq)
    rw [hnone]
    rfl
  · exact h

/-- A charge while the window is open. -/
theorem Tracks.charge (h : Tracks W v cs) (hnow : v.start ≤ now) (hopen : now < v.start + W) (n : Nat) :
    Tracks W (v.take n) (cs ++ [⟨v.start, now, n⟩]) := by
  constructor
  · constructor
    · intro c hc
      rcases List.mem_append.1 hc with hc | hc
      · exact h.windowed.inside c hc
      · obtain rfl := List.mem_singleton.1 hc
        exact ⟨hnow, hopen⟩
    · intro c hc d hd hlt
      rcases List.mem_append.1 hc with hc | hc <;> rcases List.mem_append.1 hd with hd | hd
      · exact h.windowed.apart c hc d hd hlt
      · obtain rfl := List.mem_singleton.1 hd
        exact (h.past c hc).resolve_left hlt.ne
      · obtain rfl := List.mem_singleton.1 hc
        rcases h.past d hd with heq | hle
        · exact absurd heq hlt.ne'
        · have hW : 0 < W := (lt_add_iff_pos_right v.start).1 (hnow.trans_lt hopen)
          exact absurd hlt (((le_add_of_nonneg_right hW.le).trans hle).not_gt)
      · obtain rfl := List.mem_singleton.1 hc
        obtain rfl := List.mem_singleton.1 hd
        exact absurd hlt (lt_irrefl _)
  · show total (inWindow v.start _) = v.spent + n
    rw [total_inWindow_charge, h.current, if_pos rfl]
  · intro c hc
    rcases List.mem_append.1 hc with hc | hc
    · exact h.past c hc
    · obtain rfl := List.mem_singleton.1 hc
      exact .inl rfl

end Counter

end FixedWindow
