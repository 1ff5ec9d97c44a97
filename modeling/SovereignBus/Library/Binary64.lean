import Mathlib

/-!
Rounding to 53 binary digits, as the arithmetic of 64-bit floats does it between the bounds of
their exponents.

* `roundEven`: the nearest integer, the even one of two.
* `round`: the nearest number of 53 binary digits, for what is not negative.
* `round_mono`, `round_natCast`: it keeps the order, and integers with no more digits.
-/

namespace Binary64

/-- The nearest integer, the even one of two. -/
def roundEven (x : ℚ) : ℤ :=
  if Int.fract x < 1 / 2 then ⌊x⌋
  else if 1 / 2 < Int.fract x then ⌊x⌋ + 1
  else if Even ⌊x⌋ then ⌊x⌋
  else ⌊x⌋ + 1

lemma floor_le_roundEven (x : ℚ) : ⌊x⌋ ≤ roundEven x := by
  rw [roundEven]
  split_ifs <;> simp

lemma roundEven_le (x : ℚ) : roundEven x ≤ ⌊x⌋ + 1 := by
  rw [roundEven]
  split_ifs <;> simp

@[simp] lemma roundEven_intCast (n : ℤ) : roundEven n = n := by
  simp [roundEven]

lemma roundEven_mono : Monotone roundEven := by
  intro x y h
  rcases (Int.floor_le_floor h).eq_or_lt with hfloor | hfloor
  · have hfract : Int.fract x ≤ Int.fract y := by
      rw [Int.fract, Int.fract, hfloor]
      exact sub_le_sub_right h _
    rw [roundEven, roundEven, hfloor]
    split_ifs <;> first | omega | (exfalso; linarith)
  · calc roundEven x ≤ ⌊x⌋ + 1 := roundEven_le x
      _ ≤ ⌊y⌋ := hfloor
      _ ≤ roundEven y := floor_le_roundEven y

/-- The last of the 53 digits of a number. -/
def unit (q : ℚ) : ℚ := 2 ^ (Int.log 2 q - 52)

/-- The nearest number of 53 binary digits, for what is not negative. -/
def round (q : ℚ) : ℚ := roundEven (q / unit q) * unit q

lemma unit_pos (q : ℚ) : 0 < unit q := zpow_pos (by norm_num) _

/-- A number of 53 digits stays. -/
lemma round_of_int {q : ℚ} (n : ℤ) (h : q / unit q = n) : round q = q := by
  rw [round, h, roundEven_intCast, ← h, div_mul_cancel₀ _ (unit_pos q).ne']

/-- Rounding does not pass a multiple of the last digit. -/
lemma le_round {q : ℚ} {n : ℤ} (h : n * unit q ≤ q) : n * unit q ≤ round q := by
  have hle := roundEven_mono ((le_div_iff₀ (unit_pos q)).mpr h)
  rw [roundEven_intCast] at hle
  exact mul_le_mul_of_nonneg_right (Int.cast_le.mpr hle) (unit_pos q).le

lemma round_le {q : ℚ} {n : ℤ} (h : q ≤ n * unit q) : round q ≤ n * unit q := by
  have hle := roundEven_mono ((div_le_iff₀ (unit_pos q)).mpr h)
  rw [roundEven_intCast] at hle
  exact mul_le_mul_of_nonneg_right (Int.cast_le.mpr hle) (unit_pos q).le

lemma pow_mul_unit (q : ℚ) (k : ℕ) :
    ((2 ^ k : ℤ) : ℚ) * unit q = 2 ^ (Int.log 2 q + k - 52) := by
  have hexp : Int.log 2 q + k - 52 = k + (Int.log 2 q - 52) := by ring
  rw [hexp, zpow_add₀ (by norm_num), unit]
  norm_num

/-- A number is rounded to one between the powers of 2 that it is between. -/
lemma round_bounds {q : ℚ} (hq : 0 < q) :
    (2 : ℚ) ^ Int.log 2 q ≤ round q ∧ round q ≤ 2 ^ (Int.log 2 q + 1) := by
  have hlow : ((2 ^ 52 : ℤ) : ℚ) * unit q = 2 ^ Int.log 2 q := by
    rw [pow_mul_unit]
    congr 1
    ring
  have hhigh : ((2 ^ 53 : ℤ) : ℚ) * unit q = 2 ^ (Int.log 2 q + 1) := by
    rw [pow_mul_unit]
    congr 1
    ring
  rw [← hlow, ← hhigh]
  refine ⟨le_round ?_, round_le ?_⟩
  · rw [hlow]
    exact_mod_cast Int.zpow_log_le_self (b := 2) (by norm_num) hq
  · rw [hhigh]
    exact_mod_cast (Int.lt_zpow_succ_log_self (b := 2) (by norm_num) q).le

lemma round_zero : round 0 = 0 := by
  have hzero : (0 : ℚ) / unit 0 = (0 : ℤ) := by simp
  exact round_of_int 0 hzero

lemma round_nonneg {q : ℚ} (hq : 0 ≤ q) : 0 ≤ round q := by
  rcases hq.eq_or_lt with rfl | hq
  · exact round_zero.ge
  · exact (zpow_pos (by norm_num) _).le.trans (round_bounds hq).1

/-- An integer of 53 digits stays. -/
lemma round_natCast {n : ℕ} (hn : n < 2 ^ 53) : round n = n := by
  rcases Nat.eq_zero_or_pos n with rfl | hpos
  · rw [Nat.cast_zero, round_zero]
  have hlog : Nat.log 2 n ≤ 52 := Nat.lt_succ_iff.mp (Nat.log_lt_of_lt_pow hpos.ne' hn)
  have hunit : unit n = ((2 : ℚ) ^ (52 - Nat.log 2 n))⁻¹ := by
    have hexp : Int.log 2 (n : ℚ) - 52 = -((52 - Nat.log 2 n : ℕ) : ℤ) := by
      rw [Int.log_natCast]
      omega
    rw [unit, hexp, zpow_neg, zpow_natCast]
  refine round_of_int (n * 2 ^ (52 - Nat.log 2 n)) ?_
  rw [hunit, div_inv_eq_mul]
  norm_cast

/-- Rounding keeps the order. -/
theorem round_mono {q q' : ℚ} (hq : 0 ≤ q) (h : q ≤ q') : round q ≤ round q' := by
  rcases hq.eq_or_lt with rfl | hq
  · rw [round_zero]
    exact round_nonneg h
  · rcases (Int.log_mono_right (b := 2) hq h).eq_or_lt with hlog | hlog
    · have hunit : unit q = unit q' := by rw [unit, unit, hlog]
      have hle : q / unit q' ≤ q' / unit q' := div_le_div_of_nonneg_right h (unit_pos q').le
      rw [round, round, hunit]
      exact mul_le_mul_of_nonneg_right (Int.cast_le.mpr (roundEven_mono hle)) (unit_pos q').le
    · calc round q ≤ 2 ^ (Int.log 2 q + 1) := (round_bounds hq).2
        _ ≤ 2 ^ Int.log 2 q' := zpow_le_zpow_right₀ (by norm_num) hlog
        _ ≤ round q' := (round_bounds (hq.trans_le h)).1

end Binary64
