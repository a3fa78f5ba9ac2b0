import Mathlib.Data.Int.Log
import Mathlib.Data.Rat.Floor
import Mathlib.Tactic.Linarith
import Mathlib.Tactic.Positivity
import Mathlib.Tactic.Ring

/-!
# Rounding to a binary format

Rounding of rationals to nearest, ties to even, on the numbers `m * 2 ^ e` with a significand of a fixed number
of bits. The exponent of the last place is bounded below, so that small numbers lose bits; a rounded number
that reaches the bound of the format is out of range. `overflows_iff` is the exact threshold. Rounding a multiple
takes less than one of the summands away (`sub_lt_round_mul`).
-/

namespace Binary

/-! ### To the nearest integer -/

def roundEven (x : ℚ) : ℤ :=
  let k := ⌊x⌋
  if x - k < 1 / 2 then k else if 1 / 2 < x - k then k + 1 else if Even k then k else k + 1

theorem roundEven_mem (x : ℚ) : roundEven x = ⌊x⌋ ∨ roundEven x = ⌊x⌋ + 1 := by
  unfold roundEven
  dsimp only
  split_ifs <;> simp

theorem le_roundEven_of_le {x : ℚ} {n : ℤ} (h : (n : ℚ) ≤ x) : n ≤ roundEven x := by
  have hfloor := Int.le_floor.2 h
  rcases roundEven_mem x with he | he <;> omega

theorem le_roundEven_iff {x : ℚ} {n : ℤ} (hn : Even n) : n ≤ roundEven x ↔ (n : ℚ) - 1 / 2 ≤ x := by
  have hlow := Int.floor_le x
  have hhigh := Int.lt_floor_add_one x
  rcases lt_trichotomy (⌊x⌋ + 1) n with hlt | heq | hgt
  · have hlt' : (⌊x⌋ : ℚ) + 1 ≤ n - 1 := by exact_mod_cast Int.le_sub_one_of_lt hlt
    refine iff_of_false ?_ (by linarith)
    rcases roundEven_mem x with he | he <;> omega
  · have hodd : ¬ Even ⌊x⌋ := by
      rw [← Int.even_add_one, heq]
      exact hn
    have hcast : (n : ℚ) = ⌊x⌋ + 1 := by rw [← heq]; push_cast; rfl
    unfold roundEven
    dsimp only
    rw [hcast]
    split_ifs with h
    · exact iff_of_false (by omega) (by linarith)
    · exact iff_of_true (by omega) (by linarith)
    · exact iff_of_true (by omega) (by linarith)
  · have hle : n ≤ ⌊x⌋ := by omega
    have hle' : (n : ℚ) ≤ ⌊x⌋ := by exact_mod_cast hle
    refine iff_of_true ?_ (by linarith)
    rcases roundEven_mem x with he | he <;> omega

theorem sub_half_le_roundEven (x : ℚ) : x - 1 / 2 ≤ roundEven x := by
  have hhigh := Int.lt_floor_add_one x
  unfold roundEven
  dsimp only
  split_ifs <;> push_cast <;> linarith

@[simp] theorem roundEven_intCast (n : ℤ) : roundEven n = n := by
  simp [roundEven]

/-! ### To a format -/

structure Format where
  /-- The bits of the significand. -/
  precision : ℕ
  /-- The exponent of the last place of the smallest numbers. -/
  emin : ℤ
  /-- The first power of two that is out of range. -/
  emax : ℤ
  precision_pos : 0 < precision
  emin_le : emin ≤ emax - precision

namespace Format
variable (F : Format) {a : ℚ}

/-- The exponent of the last place of `a`. -/
def place (a : ℚ) : ℤ := max (Int.log 2 a - (F.precision - 1)) F.emin

def magnitude (a : ℚ) : ℚ := roundEven (a / 2 ^ F.place a) * 2 ^ F.place a

def round (x : ℚ) : ℚ := if x < 0 then -F.magnitude |x| else F.magnitude |x|

def overflows (x : ℚ) : Bool := 2 ^ F.emax ≤ F.magnitude |x|

theorem two_zpow_le_magnitude_iff {e : ℤ} (he : F.place a < e) :
    2 ^ e ≤ F.magnitude a ↔ 2 ^ e - 2 ^ (F.place a - 1) ≤ a := by
  obtain ⟨k, hk⟩ : ∃ k : ℕ, e = F.place a + (k + 1) := ⟨(e - F.place a - 1).toNat, by omega⟩
  have hpos : (0 : ℚ) < 2 ^ F.place a := zpow_pos two_pos _
  have hpow : (2 : ℚ) ^ e = ((2 ^ (k + 1) : ℤ) : ℚ) * 2 ^ F.place a := by
    rw [hk, zpow_add₀ two_ne_zero, mul_comm]
    norm_cast
  have hhalf : (2 : ℚ) ^ (F.place a - 1) = 1 / 2 * 2 ^ F.place a := by
    rw [zpow_sub₀ two_ne_zero, zpow_one]
    ring
  have heven : Even (2 ^ (k + 1) : ℤ) := ⟨2 ^ k, by ring⟩
  rw [magnitude, hhalf, hpow, ← sub_mul, mul_le_mul_iff_left₀ hpos, Int.cast_le, le_roundEven_iff heven,
    le_div_iff₀ hpos]

theorem two_zpow_le_magnitude {e : ℤ} (he : F.place a ≤ e) (h : 2 ^ e ≤ a) : 2 ^ e ≤ F.magnitude a := by
  obtain ⟨k, rfl⟩ := Int.le.dest he
  have hpos : (0 : ℚ) < 2 ^ F.place a := zpow_pos two_pos _
  have hpow : (2 : ℚ) ^ (F.place a + k) = ((2 ^ k : ℤ) : ℚ) * 2 ^ F.place a := by
    rw [zpow_add₀ two_ne_zero, mul_comm]
    norm_cast
  rw [hpow] at h ⊢
  rw [magnitude, mul_le_mul_iff_left₀ hpos, Int.cast_le]
  exact le_roundEven_of_le ((le_div_iff₀ hpos).2 h)

theorem overflows_of_le {x : ℚ} (h : 2 ^ F.emax ≤ |x|) : F.overflows x = true := by
  have hpos : 0 < |x| := (zpow_pos two_pos _).trans_le h
  have hlog : F.emax ≤ Int.log 2 |x| := (Int.zpow_le_iff_le_log one_lt_two hpos).1 h
  have hplace : F.place |x| ≤ Int.log 2 |x| := by
    have := F.precision_pos
    have := F.emin_le
    unfold place
    omega
  have hself : (2 : ℚ) ^ Int.log 2 |x| ≤ |x| := Int.zpow_log_le_self one_lt_two hpos
  have hmono : (2 : ℚ) ^ F.emax ≤ 2 ^ Int.log 2 |x| := zpow_le_zpow_right₀ one_le_two hlog
  exact decide_eq_true (hmono.trans (F.two_zpow_le_magnitude hplace hself))

theorem two_zpow_le_sub {e f : ℤ} (h : f < e) : (2 : ℚ) ^ (e - 1) ≤ 2 ^ e - 2 ^ f := by
  have hle : (2 : ℚ) ^ f ≤ 2 ^ (e - 1) := zpow_le_zpow_right₀ one_le_two (by omega)
  have htwice : (2 : ℚ) ^ e = 2 * 2 ^ (e - 1) := by
    rw [← zpow_one_add₀ two_ne_zero]
    congr 1
    omega
  linarith

/-- What is out of range lies at most half a unit of the last place below the bound. -/
theorem overflows_iff (x : ℚ) : F.overflows x = true ↔ 2 ^ F.emax - 2 ^ (F.emax - F.precision - 1) ≤ |x| := by
  have hp := F.precision_pos
  have hemin := F.emin_le
  by_cases hbound : 2 ^ F.emax ≤ |x|
  · have hnonneg : (0 : ℚ) < 2 ^ (F.emax - F.precision - 1) := zpow_pos two_pos _
    exact iff_of_true (F.overflows_of_le hbound) (by linarith)
  rcases eq_or_ne x 0 with rfl | hx
  · have hhalf := two_zpow_le_sub (e := F.emax) (f := F.emax - F.precision - 1) (by omega)
    have hpos : (0 : ℚ) < 2 ^ (F.emax - 1) := zpow_pos two_pos _
    have hmax : (0 : ℚ) < 2 ^ F.emax := zpow_pos two_pos _
    refine iff_of_false ?_ (by rw [abs_zero]; linarith)
    simp [overflows, magnitude, roundEven, hmax]
  have hpos : 0 < |x| := abs_pos.2 hx
  have hlog : Int.log 2 |x| < F.emax := (Int.lt_zpow_iff_log_lt one_lt_two hpos).1 (not_le.1 hbound)
  have hplace : F.place |x| ≤ F.emax - F.precision := by
    unfold place
    omega
  have hiff : F.overflows x = true ↔ 2 ^ F.emax - 2 ^ (F.place |x| - 1) ≤ |x| := by
    rw [overflows, decide_eq_true_eq]
    exact F.two_zpow_le_magnitude_iff (by omega)
  rw [hiff]
  rcases hplace.eq_or_lt with heq | hlt
  · rw [heq]
  · -- the number is below half of the bound
    have hsmall : |x| < 2 ^ (F.emax - 1) := by
      refine (Int.lt_zpow_iff_log_lt one_lt_two hpos).2 ?_
      unfold place at hlt
      omega
    have hleft := two_zpow_le_sub (e := F.emax) (f := F.place |x| - 1) (by omega)
    have hright := two_zpow_le_sub (e := F.emax) (f := F.emax - F.precision - 1) (by omega)
    exact iff_of_false (by linarith) (by linarith)

/-! ### Products -/

theorem sub_le_magnitude (a : ℚ) : a - 2 ^ (F.place a - 1) ≤ F.magnitude a := by
  have hpos : (0 : ℚ) < 2 ^ F.place a := zpow_pos two_pos _
  have hhalf : (2 : ℚ) ^ (F.place a - 1) = 1 / 2 * 2 ^ F.place a := by
    rw [zpow_sub₀ two_ne_zero, zpow_one]
    ring
  calc a - 2 ^ (F.place a - 1) = (a / 2 ^ F.place a - 1 / 2) * 2 ^ F.place a := by
        rw [hhalf, sub_mul, div_mul_cancel₀ _ hpos.ne']
    _ ≤ F.magnitude a := mul_le_mul_of_nonneg_right (sub_half_le_roundEven _) hpos.le

theorem round_of_nonneg (h : 0 ≤ a) : F.round a = F.magnitude a := by
  rw [round, if_neg (not_lt.2 h), abs_of_nonneg h]

/-- The positive numbers of the format begin with its last place. -/
theorem two_zpow_emin_le (hround : F.round a = a) (ha : 0 < a) : 2 ^ F.emin ≤ a := by
  rw [round_of_nonneg F ha.le, magnitude] at hround
  have hplace : (0 : ℚ) < 2 ^ F.place a := zpow_pos two_pos _
  have hone : (1 : ℚ) ≤ roundEven (a / 2 ^ F.place a) := by
    have hpos : (0 : ℚ) < roundEven (a / 2 ^ F.place a) := by
      rw [← hround] at ha
      exact pos_of_mul_pos_left ha hplace.le
    exact_mod_cast hpos
  have hmin : (2 : ℚ) ^ F.emin ≤ 2 ^ F.place a := zpow_le_zpow_right₀ one_le_two (le_max_right _ _)
  calc (2 : ℚ) ^ F.emin ≤ 2 ^ F.place a := hmin
    _ ≤ roundEven (a / 2 ^ F.place a) * 2 ^ F.place a := le_mul_of_one_le_left hplace.le hone
    _ = a := hround

/-- A number of as many bits as the significand has is a number of the format. -/
theorem round_natCast {n : ℕ} (hn : n < 2 ^ F.precision) (hemin : F.emin ≤ 0) : F.round n = n := by
  rcases Nat.eq_zero_or_pos n with rfl | hpos
  · simp [round, magnitude, roundEven]
  have hlog : Int.log 2 (n : ℚ) < F.precision := by
    refine (Int.lt_zpow_iff_log_lt one_lt_two (by exact_mod_cast hpos)).1 ?_
    rw [zpow_natCast]
    exact_mod_cast hn
  obtain ⟨k, hk⟩ : ∃ k : ℕ, F.place n = -k := by
    have hplace : F.place (n : ℚ) ≤ 0 := by
      unfold place
      omega
    exact ⟨(-F.place (n : ℚ)).toNat, by omega⟩
  have hquotient : (n : ℚ) / 2 ^ F.place n = ((n * 2 ^ k : ℤ) : ℚ) := by
    rw [hk, zpow_neg, zpow_natCast, div_inv_eq_mul]
    push_cast
    ring
  rw [round_of_nonneg F (Nat.cast_nonneg n), magnitude, hquotient, roundEven_intCast, ← hquotient,
    div_mul_cancel₀ _ (zpow_pos two_pos _).ne']

/-- The error of a rounded multiple is below the number itself. -/
theorem sub_lt_round_mul {n : ℕ} {t : ℚ} (hpos : 0 < n) (hn : n < 2 ^ F.precision) (ht : 2 ^ F.emin ≤ t) :
    (n - 1) * t < F.round (n * t) := by
  have htpos : 0 < t := (zpow_pos two_pos _).trans_le ht
  have hapos : (0 : ℚ) < n * t := mul_pos (by exact_mod_cast hpos) htpos
  have herror : (2 : ℚ) ^ (F.place (n * t) - 1) < t := by
    rcases max_choice (Int.log 2 ((n : ℚ) * t) - (F.precision - 1)) F.emin with hplace | hplace
    · have hexp : F.place (n * t) - 1 = Int.log 2 ((n : ℚ) * t) - F.precision := by
        rw [place, hplace]
        ring
      have hbits : (n : ℚ) < 2 ^ (F.precision : ℤ) := by
        rw [zpow_natCast]
        exact_mod_cast hn
      rw [hexp, zpow_sub₀ two_ne_zero, div_lt_iff₀ (zpow_pos two_pos _), mul_comm t]
      exact (Int.zpow_log_le_self one_lt_two hapos).trans_lt (mul_lt_mul_of_pos_right hbits htpos)
    · rw [place, hplace]
      exact (zpow_lt_zpow_right₀ one_lt_two (by omega)).trans_le ht
  rw [round_of_nonneg F hapos.le]
  have hround := F.sub_le_magnitude (n * t)
  linarith

end Format

/-- IEEE 754 binary64. -/
def double : Format where
  precision := 53
  emin := -1074
  emax := 1024
  precision_pos := by decide
  emin_le := by decide

end Binary
