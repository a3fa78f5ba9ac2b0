import Mathlib.Algebra.BigOperators.Group.List.Basic
import Mathlib.Algebra.Order.Group.Int
import Mathlib.Algebra.Ring.Int.Defs
import Mathlib.Data.List.Induction

/-!
# Escalating lockouts

A secret is guessed at under a policy: failures are counted, at the threshold the counter starts again and the
secret is locked for a time that depends on how many lockouts came before. A `Run` is a chain of failing
attempts on a clock that does not run back, each with the state it finds and the state it leaves. `Bounds` is
what the policy is for: how many guesses fit into any span of time.
-/

namespace Lockout

structure Policy where
  threshold : Nat
  /-- How long a lockout lasts after so many others. -/
  duration : Nat → Int

structure State where
  failed : Nat
  lockouts : Nat
  lockedUntil : Option Int

def State.locked (σ : State) (now : Int) : Bool := σ.lockedUntil.any fun t => now < t

/-- Counting a failure. -/
def Policy.fail (p : Policy) (σ : State) (now : Int) : State :=
  if p.threshold ≤ σ.failed + 1 then ⟨0, σ.lockouts + 1, some (now + p.duration σ.lockouts)⟩
  else { σ with failed := σ.failed + 1 }

section Fail
variable {p : Policy} {σ : State} {times : List Int}

theorem Policy.fail_cases (p : Policy) (σ : State) (now : Int) :
    (σ.failed + 1 < p.threshold ∧ p.fail σ now = { σ with failed := σ.failed + 1 }) ∨
      (p.threshold ≤ σ.failed + 1 ∧ p.fail σ now = ⟨0, σ.lockouts + 1, some (now + p.duration σ.lockouts)⟩) := by
  unfold Policy.fail
  split
  · next hle => exact .inr ⟨hle, rfl⟩
  · next hlt => exact .inl ⟨Nat.lt_of_not_le hlt, rfl⟩

theorem foldl_fail_append (p : Policy) (σ : State) (times : List Int) (t : Int) :
    (times ++ [t]).foldl p.fail σ = p.fail (times.foldl p.fail σ) t := by
  rw [List.foldl_append, List.foldl_cons, List.foldl_nil]

/-- From a counter below the threshold every failure is accounted for. -/
theorem Policy.foldl_fail_eq (h : σ.failed < p.threshold) (times : List Int) : (times.foldl p.fail σ).failed < p.threshold ∧
    (times.foldl p.fail σ).failed + p.threshold * (times.foldl p.fail σ).lockouts =
      σ.failed + p.threshold * σ.lockouts + times.length := by
  induction times using List.reverseRecOn with
  | nil => exact ⟨h, rfl⟩
  | append_singleton times t ih =>
    obtain ⟨hlt, heq⟩ := ih
    rw [foldl_fail_append, List.length_append, List.length_singleton]
    rcases p.fail_cases (times.foldl p.fail σ) t with ⟨hnext, hfail⟩ | ⟨hfull, hfail⟩
    · rw [hfail]
      exact ⟨hnext, by simp only; omega⟩
    · rw [hfail]
      refine ⟨by simp only; omega, ?_⟩
      simp only [Nat.mul_add, Nat.mul_one]
      omega

/-- Below the threshold nothing but the counter changes. -/
theorem Policy.foldl_fail_of_lt (h : σ.failed + times.length < p.threshold) :
    times.foldl p.fail σ = { σ with failed := σ.failed + times.length } := by
  induction times using List.reverseRecOn with
  | nil => rfl
  | append_singleton times t ih =>
    rw [List.length_append, List.length_singleton] at h
    rw [foldl_fail_append, ih (by omega)]
    rcases p.fail_cases { σ with failed := σ.failed + times.length } t with ⟨-, hfail⟩ | ⟨hfull, -⟩
    · rw [hfail, List.length_append, List.length_singleton]
      rfl
    · simp only at hfull
      omega

/-- A counter that is full at the start costs one lockout more. -/
theorem Policy.length_le (hpos : 0 < p.threshold) (σ : State) (times : List Int) : times.length + p.threshold * σ.lockouts ≤
    p.threshold * (times.foldl p.fail σ).lockouts + min (times.foldl p.fail σ).failed (p.threshold - 1) := by
  induction times using List.reverseRecOn with
  | nil => simp
  | append_singleton times t ih =>
    rw [foldl_fail_append, List.length_append, List.length_singleton]
    rcases p.fail_cases (times.foldl p.fail σ) t with ⟨hnext, hfail⟩ | ⟨hfull, hfail⟩
    · rw [hfail]
      simp only
      omega
    · rw [hfail]
      simp only [Nat.mul_add, Nat.mul_one]
      omega

end Fail

structure Attempt where
  now : Int
  found : State
  /-- The guess was compared with the secret. -/
  compared : Bool
  left : State

/-- How long the lockout lasts that the attempt has imposed. -/
def Attempt.lockout (a : Attempt) : Option Int :=
  if a.left.lockouts = a.found.lockouts then none else a.left.lockedUntil.map (· - a.now)

/-- A failing attempt: a comparison is made in the open and counted; without one nothing changes. -/
def Policy.Admits (p : Policy) (a : Attempt) : Prop :=
  if a.compared then a.found.locked a.now = false ∧ a.left = p.fail a.found a.now else a.left = a.found

inductive Run (p : Policy) (σ₀ : State) : List Attempt → State → Prop
  | start : Run p σ₀ [] σ₀
  | attempt {as : List Attempt} {σ : State} (h : Run p σ₀ as σ) (a : Attempt) (hnow : ∀ b ∈ as, b.now ≤ a.now)
      (hfound : a.found = σ) (hadmits : p.Admits a) : Run p σ₀ (as ++ [a]) a.left

def compared (as : List Attempt) : Nat := as.countP Attempt.compared

/-- The lockouts of the attempts, each by its duration. -/
def lockouts (as : List Attempt) : List Int := as.filterMap Attempt.lockout

def span (as : List Attempt) (a b : Int) : List Attempt := as.filter fun x => a ≤ x.now ∧ x.now ≤ b

/-- What the attempts of a run can have tried. -/
structure Bounds (p : Policy) (σ₀ : State) (as : List Attempt) : Prop where
  unlocked : ∀ a ∈ as, a.compared = true → a.found.locked a.now = false
  between : ∀ pre x mid y post, as = pre ++ x :: mid ++ y :: post → x.lockout.isSome = true → y.lockout.isSome = true →
    lockouts mid = [] → compared (mid ++ [y]) = p.threshold
  durations : ∀ k d, (lockouts as)[k]? = some d → d = p.duration (σ₀.lockouts + k)
  /-- Nothing takes an escalation back. -/
  escalates : ∀ a ∈ as, a.found.lockouts ≤ a.left.lockouts
  span_compared : ∀ a b, compared (span as a b) ≤ p.threshold * ((lockouts (span as a b)).length + 1)
  span_lasts : ∀ a b, lockouts (span as a b) ≠ [] → (lockouts (span as a b)).dropLast.sum ≤ b - a

/-! ### One attempt -/

section Attempts
variable {p : Policy} {σ σ₀ : State} {a : Attempt} {as : List Attempt}

/-- What a failing attempt can do. -/
theorem Policy.Admits.cases (h : p.Admits a) :
    (a.compared = false ∧ a.left = a.found ∧ a.lockout = none) ∨
    (a.compared = true ∧ a.found.locked a.now = false ∧ a.found.failed + 1 < p.threshold ∧
      a.left = { a.found with failed := a.found.failed + 1 } ∧ a.lockout = none) ∨
    (a.compared = true ∧ a.found.locked a.now = false ∧ p.threshold ≤ a.found.failed + 1 ∧
      a.left = ⟨0, a.found.lockouts + 1, some (a.now + p.duration a.found.lockouts)⟩ ∧
      a.lockout = some (p.duration a.found.lockouts)) := by
  unfold Policy.Admits at h
  split at h
  · next hcompared =>
    obtain ⟨hopen, hleft⟩ := h
    unfold Policy.fail at hleft
    split at hleft
    · next hle =>
      refine .inr (.inr ⟨hcompared, hopen, hle, hleft, ?_⟩)
      simp [Attempt.lockout, hleft]
    · next hlt =>
      refine .inr (.inl ⟨hcompared, hopen, Nat.lt_of_not_le hlt, hleft, ?_⟩)
      simp [Attempt.lockout, hleft]
  · next hcompared =>
    refine .inl ⟨by simpa using hcompared, h, ?_⟩
    simp [Attempt.lockout, h]

@[simp] theorem compared_append (as bs : List Attempt) : compared (as ++ bs) = compared as + compared bs :=
  List.countP_append

@[simp] theorem lockouts_append (as bs : List Attempt) : lockouts (as ++ bs) = lockouts as ++ lockouts bs :=
  List.filterMap_append

theorem compared_singleton (h : a.compared = true) : compared [a] = 1 := by simp [compared, h]

theorem compared_singleton_of_not (h : a.compared = false) : compared [a] = 0 := by simp [compared, h]

theorem lockouts_singleton : lockouts [a] = a.lockout.toList := by
  cases h : a.lockout <;> simp [lockouts, h]

/-! ### A run -/

theorem Run.split {l m : List Attempt} (h : Run p σ₀ (l ++ m) σ) : ∃ σ₁, Run p σ₀ l σ₁ ∧ Run p σ₁ m σ := by
  induction m using List.reverseRecOn generalizing σ with
  | nil => exact ⟨σ, by simpa using h, .start⟩
  | append_singleton m a ih =>
    rw [← List.append_assoc] at h
    generalize hl : l ++ m ++ [a] = l' at h
    cases h with
    | start => simp at hl
    | @attempt as σ' h a' hnow hfound hadmits =>
      obtain ⟨rfl, hlast⟩ := List.append_inj' hl rfl
      cases hlast
      obtain ⟨σ₁, hl, hm⟩ := ih h
      exact ⟨σ₁, hl, hm.attempt a (fun b hb => hnow b (List.mem_append_right _ hb)) hfound hadmits⟩

theorem Run.last (h : Run p σ₀ (as ++ [a]) σ) : σ = a.left ∧ p.Admits a := by
  generalize hl : as ++ [a] = l at h
  cases h with
  | start => simp at hl
  | attempt h a' hnow hfound hadmits =>
    cases List.append_inj_right' hl rfl
    exact ⟨rfl, hadmits⟩

/-- A lockout starts the counter again. -/
theorem Policy.Admits.restarts (h : p.Admits a) (hlock : a.lockout.isSome = true) :
    a.left.failed = 0 ∧ (lockouts [a]).length = 1 := by
  rw [lockouts_singleton]
  rcases h.cases with ⟨-, -, hnone⟩ | ⟨-, -, -, -, hnone⟩ | ⟨-, -, -, hleft, hsome⟩
  · simp [hnone] at hlock
  · simp [hnone] at hlock
  · simp [hleft, hsome]

theorem Run.part {l : List Attempt} (h : Run p σ₀ as σ) (hl : l <:+: as) : ∃ σ₁ σ₂, Run p σ₁ l σ₂ := by
  obtain ⟨pre, post, rfl⟩ := hl
  obtain ⟨σ₂, hpre, -⟩ := h.split
  obtain ⟨σ₁, -, hl⟩ := hpre.split
  exact ⟨σ₁, σ₂, hl⟩

theorem Run.admits (h : Run p σ₀ as σ) : ∀ a ∈ as, p.Admits a := by
  induction h with
  | start => simp
  | attempt _ a _ _ hadmits ih =>
    intro b hb
    rcases List.mem_append.1 hb with hb | hb
    · exact ih b hb
    · cases List.mem_singleton.1 hb
      exact hadmits

theorem Run.sorted (h : Run p σ₀ as σ) : as.Pairwise fun x y => x.now ≤ y.now := by
  induction h with
  | start => exact .nil
  | attempt _ a hnow _ _ ih =>
    rw [List.pairwise_append]
    refine ⟨ih, List.pairwise_singleton _ _, fun x hx y hy => ?_⟩
    cases List.mem_singleton.1 hy
    exact hnow x hx

/-- The escalation counts the lockouts. -/
theorem Run.lockouts_eq (h : Run p σ₀ as σ) : σ.lockouts = σ₀.lockouts + (lockouts as).length := by
  induction h with
  | start => simp [lockouts]
  | attempt _ a _ hfound hadmits ih =>
    rw [lockouts_append, List.length_append, lockouts_singleton, ← Nat.add_assoc, ← ih, ← hfound]
    rcases hadmits.cases with ⟨-, hleft, hlock⟩ | ⟨-, -, -, hleft, hlock⟩ | ⟨-, -, -, hleft, hlock⟩ <;> simp [hleft, hlock]

theorem Run.durations (h : Run p σ₀ as σ) {k : Nat} {d : Int} (hk : (lockouts as)[k]? = some d) :
    d = p.duration (σ₀.lockouts + k) := by
  induction h with
  | start => simp [lockouts] at hk
  | @attempt as σ h a _ hfound hadmits ih =>
    rw [lockouts_append, lockouts_singleton] at hk
    rcases Nat.lt_or_ge k (lockouts as).length with hlt | hge
    · rw [List.getElem?_append_left hlt] at hk
      exact ih hk
    · rw [List.getElem?_append_right hge] at hk
      rcases hadmits.cases with ⟨-, -, hlock⟩ | ⟨-, -, -, -, hlock⟩ | ⟨-, -, -, -, hlock⟩
      · simp [hlock] at hk
      · simp [hlock] at hk
      · rw [hlock, Option.toList_some, List.getElem?_singleton] at hk
        split at hk
        · next hzero =>
          have hlen := h.lockouts_eq
          rw [← Option.some.inj hk, hfound, hlen]
          congr 1
          omega
        · cases hk

/-- From a counter below the threshold every comparison is accounted for. -/
theorem Run.compared_eq (h : Run p σ₀ as σ) (h₀ : σ₀.failed < p.threshold) :
    compared as + σ₀.failed = p.threshold * (lockouts as).length + σ.failed ∧ σ.failed < p.threshold := by
  induction h with
  | start => simpa [compared, lockouts] using h₀
  | @attempt as σ h a _ hfound hadmits ih =>
    obtain ⟨ih, hlt⟩ := ih
    subst hfound
    rw [compared_append, lockouts_append, List.length_append, lockouts_singleton]
    rcases hadmits.cases with ⟨hc, hleft, hlock⟩ | ⟨hc, -, hnext, hleft, hlock⟩ | ⟨hc, -, hfull, hleft, hlock⟩
    · rw [compared_singleton_of_not hc, hleft, hlock]
      simpa using ⟨ih, hlt⟩
    · rw [compared_singleton hc, hleft, hlock]
      simp only [Option.toList_none, List.length_nil, Nat.add_zero]
      omega
    · rw [compared_singleton hc, hleft, hlock]
      simp only [Option.toList_some, List.length_singleton, Nat.mul_add, Nat.mul_one]
      omega

/-- Without a bound on the counter at the start, a full one may be left over. -/
theorem Run.compared_le (h : Run p σ₀ as σ) (hpos : 0 < p.threshold) :
    compared as ≤ p.threshold * (lockouts as).length + min σ.failed (p.threshold - 1) := by
  induction h with
  | start => simp [compared, lockouts]
  | @attempt as σ h a _ hfound hadmits ih =>
    subst hfound
    rw [compared_append, lockouts_append, List.length_append, lockouts_singleton]
    rcases hadmits.cases with ⟨hc, hleft, hlock⟩ | ⟨hc, -, hnext, hleft, hlock⟩ | ⟨hc, -, -, hleft, hlock⟩
    · rw [compared_singleton_of_not hc, hleft, hlock]
      simpa using ih
    · rw [compared_singleton hc, hleft, hlock]
      simp only [Option.toList_none, List.length_nil, Nat.add_zero]
      omega
    · rw [compared_singleton hc, hleft, hlock]
      simp only [Option.toList_some, List.length_singleton, Nat.mul_add, Nat.mul_one]
      omega

/-- A lockout is over before the next one begins, so the time of all but the last has passed. -/
theorem Run.lasts (h : Run p σ₀ as σ) {t u : Int} (ht : ∀ a ∈ as, t ≤ a.now) (hu : ∀ a ∈ as, a.now ≤ u) :
    (lockouts as ≠ [] → ∃ v, σ.lockedUntil = some v ∧ (lockouts as).sum ≤ v - t) ∧
      (lockouts as ≠ [] → (lockouts as).dropLast.sum ≤ u - t) := by
  induction h with
  | start => simp [lockouts]
  | @attempt as σ h a _ hfound hadmits ih =>
    obtain ⟨hsum, hdrop⟩ := ih (fun b hb => ht b (List.mem_append_left _ hb)) fun b hb => hu b (List.mem_append_left _ hb)
    have hta : t ≤ a.now := ht a (by simp)
    have hau : a.now ≤ u := hu a (by simp)
    subst hfound
    rw [lockouts_append, lockouts_singleton]
    rcases hadmits.cases with ⟨-, hleft, hlock⟩ | ⟨-, -, -, hleft, hlock⟩ | ⟨-, hopen, -, hleft, hlock⟩
    · rw [hleft, hlock, Option.toList_none, List.append_nil]
      exact ⟨hsum, hdrop⟩
    · rw [hleft, hlock, Option.toList_none, List.append_nil]
      exact ⟨hsum, hdrop⟩
    · -- the attempt was made in the open, after the end of the lockout before it
      have hbefore : (lockouts as).sum ≤ a.now - t := by
        rcases eq_or_ne (lockouts as) [] with hnil | hne
        · rw [hnil, List.sum_nil]
          omega
        · obtain ⟨v, hv, hle⟩ := hsum hne
          rw [State.locked, hv, Option.any_some, decide_eq_false_iff_not] at hopen
          omega
      rw [hlock, Option.toList_some, List.dropLast_concat, List.sum_append, List.sum_singleton, hleft]
      refine ⟨fun _ => ⟨_, rfl, ?_⟩, fun _ => ?_⟩
      · omega
      · omega

end Attempts

/-! ### Spans of time -/

section Spans
variable {as : List Attempt}

theorem filter_le_final (h : as.Pairwise fun x y => x.now ≤ y.now) (t : Int) :
    as.filter (fun x => t ≤ x.now) <:+ as := by
  induction as with
  | nil => exact List.suffix_refl _
  | cons x as ih =>
    obtain ⟨hx, has⟩ := List.pairwise_cons.1 h
    by_cases ht : t ≤ x.now
    · have hall : (x :: as).filter (fun y => t ≤ y.now) = x :: as := by
        refine List.filter_eq_self.2 fun y hy => ?_
        rw [decide_eq_true_eq]
        rcases List.mem_cons.1 hy with rfl | hy
        · exact ht
        · exact Int.le_trans ht (hx y hy)
      rewrite [hall]
      exact List.suffix_refl _
    · rw [List.filter_cons_of_neg (by simpa using ht)]
      exact (ih has).trans (List.suffix_cons x as)

theorem filter_le_initial (h : as.Pairwise fun x y => x.now ≤ y.now) (u : Int) :
    as.filter (fun x => x.now ≤ u) <+: as := by
  induction as with
  | nil => exact List.prefix_refl _
  | cons x as ih =>
    obtain ⟨hx, has⟩ := List.pairwise_cons.1 h
    by_cases hu : x.now ≤ u
    · rw [List.filter_cons_of_pos (by simpa using hu)]
      exact (List.prefix_cons_inj x).2 (ih has)
    · have hnone : (x :: as).filter (fun y => y.now ≤ u) = [] := by
        refine List.filter_eq_nil_iff.2 fun y hy hle => ?_
        rw [decide_eq_true_eq] at hle
        rcases List.mem_cons.1 hy with rfl | hy
        · exact hu hle
        · exact hu (Int.le_trans (hx y hy) hle)
      rw [hnone]
      exact List.nil_prefix

/-- On a clock that does not run back a span of time is a part of the run. -/
theorem span_part (h : as.Pairwise fun x y => x.now ≤ y.now) (t u : Int) : span as t u <:+: as := by
  have heq : span as t u = (as.filter fun x => t ≤ x.now).filter fun x => x.now ≤ u := by
    rw [List.filter_filter, span]
    refine List.filter_congr fun x _ => ?_
    rw [Bool.decide_and, Bool.and_comm]
  rw [heq]
  exact (filter_le_initial (h.filter _) u).isInfix.trans (filter_le_final h t).isInfix

end Spans

theorem Run.bounds {p : Policy} {σ₀ σ : State} {as : List Attempt} (h : Run p σ₀ as σ) (hpos : 0 < p.threshold) :
    Bounds p σ₀ as where
  unlocked a ha hc := by
    rcases (h.admits a ha).cases with ⟨hc', -⟩ | ⟨-, hopen, -⟩ | ⟨-, hopen, -⟩
    · rw [hc] at hc'
      cases hc'
    · exact hopen
    · exact hopen
  between pre x mid y post has hx hy hmid := by
    have hsplit : as = (pre ++ [x]) ++ ((mid ++ [y]) ++ post) := by simp [has]
    rw [hsplit] at h
    obtain ⟨σ₁, hfirst, hrest⟩ := h.split
    obtain ⟨σ₂, hsecond, -⟩ := hrest.split
    obtain ⟨rfl, hax⟩ := hfirst.last
    obtain ⟨rfl, hay⟩ := hsecond.last
    have hx₀ := (hax.restarts hx).1
    obtain ⟨hy₀, hy₁⟩ := hay.restarts hy
    have hcompared := (hsecond.compared_eq (by rw [hx₀]; exact hpos)).1
    rw [hx₀, hy₀, lockouts_append, hmid, List.nil_append, hy₁] at hcompared
    simpa using hcompared
  durations _ _ hk := h.durations hk
  escalates a ha := by
    rcases (h.admits a ha).cases with ⟨-, hleft, -⟩ | ⟨-, -, -, hleft, -⟩ | ⟨-, -, -, hleft, -⟩ <;> simp [hleft]
  span_compared t u := by
    obtain ⟨σ₁, σ₂, hspan⟩ := h.part (span_part h.sorted t u)
    have hle := hspan.compared_le hpos
    rw [Nat.mul_add, Nat.mul_one]
    omega
  span_lasts t u hne := by
    obtain ⟨σ₁, σ₂, hspan⟩ := h.part (span_part h.sorted t u)
    have hmem : ∀ x ∈ span as t u, t ≤ x.now ∧ x.now ≤ u := fun x hx => by simpa [span] using (List.mem_filter.1 hx).2
    exact (hspan.lasts (fun x hx => (hmem x hx).1) fun x hx => (hmem x hx).2).2 hne

end Lockout
