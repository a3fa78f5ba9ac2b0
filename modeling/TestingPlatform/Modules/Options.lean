import TestingPlatform.Modules.Values
import Mathlib.Tactic.NormNum

/-!
# Clamps on launch options

`_clamp_budget` of the dnssec, pqc and noop modules and `_clamp_port` of pqc. The options are JSON of the launch
request, converted by `float`. The conversion has a third way to fail, which the clamps do not catch: an integer
that is too large for a float. `clamps_hold_iff` gives the integers for which that happens.
-/

namespace TestingPlatform

open Binary (double)

section Clamps
variable (T : PyText)

/-- The body the budget clamps share. -/
def clampFloat (default maximum : ℚ) (raw : Json) : Except FloatError ℚ :=
  match float T raw with
  | .error .overflowError => .error .overflowError
  -- `except (TypeError, ValueError)`
  | .error .typeError | .error .valueError => .ok default
  | .ok (.finite value) => if value ≤ 0 then .ok default else .ok (min value maximum)
  | .ok (.inf _) | .ok .nan => .ok default

namespace Dnssec

def defaultBudget : ℚ := 60
def maxBudget : ℚ := 120

def clampBudget (raw : Json) : Except FloatError ℚ := clampFloat T defaultBudget maxBudget raw

end Dnssec

namespace Noop

def defaultBudget : ℚ := 30
def maxBudget : ℚ := 120

def clampBudget (raw : Json) : Except FloatError ℚ := clampFloat T defaultBudget maxBudget raw

end Noop

namespace Pqc

def defaultBudget : ℚ := 30
def maxBudget : ℚ := 60

/-- Booleans fall back here, where the other modules take them for 0 and 1. -/
def clampBudget (raw : Json) : Except FloatError ℚ :=
  match raw with
  | .bool _ => .ok defaultBudget
  | raw => clampFloat T defaultBudget maxBudget raw

def clampPort (raw : Json) : Except FloatError (Option ℤ) :=
  match raw with
  | .bool _ => .ok none
  | raw =>
    match float T raw with
    | .error .overflowError => .error .overflowError
    | .error .typeError | .error .valueError => .ok none
    | .ok (.finite value) =>
      if value.den ≠ 1 then .ok none
      else
        let port := value.num
        if 1 ≤ port ∧ port ≤ 65535 then .ok (some port) else .ok none
    | .ok (.inf _) | .ok .nan => .ok none

end Pqc

/-! ### What the clamps return -/

/-- From here on integers round beyond the largest float, which is `2 ^ 1024 - 2 ^ 971`. -/
def floatLimit : ℤ := 2 ^ 1024 - 2 ^ 970

/-- The conversion ends in a float or in an error that the clamps catch. -/
def Converts (raw : Json) : Prop := float T raw ≠ .error .overflowError

variable {T} {raw : Json}

theorem double_overflows_iff (n : ℤ) : double.overflows n = true ↔ floatLimit ≤ |n| := by
  have hlast : double.emax - double.precision - 1 = ((970 : ℕ) : ℤ) := rfl
  have hmax : double.emax = ((1024 : ℕ) : ℤ) := rfl
  have hlimit : (2 : ℚ) ^ double.emax - 2 ^ (double.emax - double.precision - 1) = (floatLimit : ℚ) := by
    rw [hlast, hmax, zpow_natCast, zpow_natCast, floatLimit, Int.cast_sub, Int.cast_pow, Int.cast_pow, Int.cast_ofNat]
  rw [Binary.Format.overflows_iff, hlimit, ← Int.cast_abs, Int.cast_le]

theorem converts_iff :
    Converts T raw ↔ ∀ text n, raw = .num text → intOfText text = some n → |n| < floatLimit := by
  have htext : ∀ o : Option PyFloat, (o.elim (.error .valueError) .ok : Except FloatError PyFloat) ≠ .error .overflowError := by
    intro o
    cases o <;> simp
  unfold Converts
  cases raw with
  | num t =>
    rw [float]
    cases hn : intOfText t with
    | some n =>
      have hover := double_overflows_iff n
      constructor
      · intro h text m he hm
        obtain rfl : t = text := Json.num.inj he
        rw [hn] at hm
        obtain rfl := Option.some.inj hm
        by_contra hlarge
        exact h (by simp only [hover.2 (not_lt.1 hlarge), if_true])
      · intro h
        have hsmall := h t n rfl hn
        have hfits : ¬ double.overflows n = true := fun ho => absurd (hover.1 ho) (not_le.2 hsmall)
        simp only [hfits]
        simp
    | none =>
      refine iff_of_true (htext _) ?_
      intro text n he hint
      obtain rfl : t = text := Json.num.inj he
      rw [hn] at hint
      cases hint
  | str s => exact iff_of_true (htext _) (by simp)
  | null | bool | arr | obj => exact iff_of_true (by simp [float]) (by simp)

/-- A number above zero and at most the ceiling. -/
def Bounded (maximum : ℚ) (clamped : Except FloatError ℚ) : Prop := ∃ b, clamped = .ok b ∧ 0 < b ∧ b ≤ maximum

theorem clampFloat_bounded_iff {default maximum : ℚ} (hpos : 0 < default) (hle : default ≤ maximum) :
    Bounded maximum (clampFloat T default maximum raw) ↔ Converts T raw := by
  have hdefault : Bounded maximum (.ok default) := ⟨default, rfl, hpos, hle⟩
  unfold Converts clampFloat
  cases hf : float T raw with
  | error e =>
    cases e with
    | overflowError =>
      refine iff_of_false ?_ (by simp)
      rintro ⟨b, hb, -⟩
      cases hb
    | typeError | valueError => exact iff_of_true hdefault (by simp)
  | ok x =>
    refine iff_of_true ?_ (by simp)
    cases x with
    | finite value =>
      dsimp only
      split_ifs with hv
      · exact hdefault
      · exact ⟨min value maximum, rfl, lt_min (not_le.1 hv) (hpos.trans_le hle), min_le_right _ _⟩
    | inf | nan => exact hdefault

/-- No port, or one that exists. -/
def PortBounded (clamped : Except FloatError (Option ℤ)) : Prop :=
  ∃ port, clamped = .ok port ∧ ∀ n ∈ port, 1 ≤ n ∧ n ≤ 65535

theorem clampPort_bounded_iff : PortBounded (Pqc.clampPort T raw) ↔ Converts T raw := by
  have hnone : PortBounded (.ok none) := ⟨none, rfl, by simp⟩
  unfold Converts Pqc.clampPort
  split
  · exact iff_of_true hnone (by simp [float])
  · cases hf : float T raw with
    | error e =>
      cases e with
      | overflowError =>
        refine iff_of_false ?_ (by simp)
        rintro ⟨b, hb, -⟩
        cases hb
      | typeError | valueError => exact iff_of_true hnone (by simp)
    | ok x =>
      refine iff_of_true ?_ (by simp)
      cases x with
      | finite value =>
        dsimp only
        split_ifs with hden hport
        · exact hnone
        · exact ⟨some value.num, rfl, by simpa using hport⟩
        · exact hnone
      | inf | nan => exact hnone

theorem pqc_clampBudget_bounded_iff : Bounded Pqc.maxBudget (Pqc.clampBudget T raw) ↔ Converts T raw := by
  unfold Pqc.clampBudget
  split
  · exact iff_of_true ⟨_, rfl, by norm_num [Pqc.defaultBudget, Pqc.maxBudget]⟩ (by simp [Converts, float])
  · exact clampFloat_bounded_iff (by norm_num [Pqc.defaultBudget]) (by norm_num [Pqc.defaultBudget, Pqc.maxBudget])

/-- Every clamp returns and keeps its bound. -/
structure ClampsHold (T : PyText) (raw : Json) : Prop where
  dnssec : Bounded Dnssec.maxBudget (Dnssec.clampBudget T raw)
  noop : Bounded Noop.maxBudget (Noop.clampBudget T raw)
  pqc : Bounded Pqc.maxBudget (Pqc.clampBudget T raw)
  port : PortBounded (Pqc.clampPort T raw)

theorem dnssec_clampBudget_bounded_iff : Bounded Dnssec.maxBudget (Dnssec.clampBudget T raw) ↔ Converts T raw :=
  clampFloat_bounded_iff (by norm_num [Dnssec.defaultBudget]) (by norm_num [Dnssec.defaultBudget, Dnssec.maxBudget])

theorem noop_clampBudget_bounded_iff : Bounded Noop.maxBudget (Noop.clampBudget T raw) ↔ Converts T raw :=
  clampFloat_bounded_iff (by norm_num [Noop.defaultBudget]) (by norm_num [Noop.defaultBudget, Noop.maxBudget])

/-- The clamps hold for every value but the integers that no float is near. -/
theorem clamps_hold_iff (T : PyText) (raw : Json) :
    ClampsHold T raw ↔ ∀ text n, raw = .num text → intOfText text = some n → |n| < floatLimit := by
  rw [← converts_iff (T := T)]
  constructor
  · intro h
    exact dnssec_clampBudget_bounded_iff.1 h.dnssec
  · intro h
    exact ⟨dnssec_clampBudget_bounded_iff.2 h, noop_clampBudget_bounded_iff.2 h, pqc_clampBudget_bounded_iff.2 h,
      clampPort_bounded_iff.2 h⟩

example : Pqc.clampBudget .ascii (.str " 1_0.5e0 ") = .ok (21 / 2) ∧ Pqc.clampPort .ascii (.str "-Infinity") = .ok none := by
  decide +kernel

/-- `10 ** 309` as JSON writes it. -/
def hugeInteger : Json := .num (String.ofList ('1' :: List.replicate 309 '0'))

theorem clamps_fail_on_huge_integer : ¬ ClampsHold .ascii hugeInteger := by
  intro h
  have hint : intOfText (String.ofList ('1' :: List.replicate 309 '0')) = some (10 ^ 309) := by
    rw [intOfText, String.toList_ofList]
    decide +kernel
  have hsmall := converts_iff.1 (dnssec_clampBudget_bounded_iff.1 h.dnssec) _ _ rfl hint
  have hlarge : floatLimit ≤ |(10 : ℤ) ^ 309| := by decide +kernel
  exact absurd hsmall (not_lt.2 hlarge)

end Clamps

end TestingPlatform
