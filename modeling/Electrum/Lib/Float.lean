import Mathlib

/-!
# Binary floating point

A `float` or `double` value is a rational number; every operation of the program is the
exact one followed by a rounding to 24 or 53 significant bits, to nearest with ties to even.
The exponent range is left out: all values the program computes this way lie between
`10^-4` and `2^65` in magnitude, or are zero.
-/

namespace Electrum.Binary

/-- The integer nearest to `n / d`, ties to even. -/
def divHalfEven (n d : Nat) : Nat :=
  let q := n / d
  let r := n % d
  if 2 * r < d then q
  else if d < 2 * r then q + 1
  else if q % 2 = 0 then q else q + 1

/-- `n / d` rounded to `p` significant bits.  The quotient is first scaled by `2 ^ s` so that
it has at least `p` bits; `t` low bits are then rounded away. -/
def roundNat (p n d : Nat) : ℚ :=
  let s := p + Nat.log2 d + 1
  let t := Nat.log2 (n * 2 ^ s / d) + 1 - p
  ((divHalfEven (n * 2 ^ s) (d * 2 ^ t) * 2 ^ t : Nat) : ℚ) / ((2 ^ s : Nat) : ℚ)

/-- A rational rounded to `p` significant bits. -/
def round (p : Nat) (q : ℚ) : ℚ :=
  if q < 0 then -roundNat p q.num.natAbs q.den else roundNat p q.num.natAbs q.den

/-- The nearest `float`. -/
def f32 (q : ℚ) : ℚ := round 24 q

/-- The nearest `double`. -/
def f64 (q : ℚ) : ℚ := round 53 q

example : f32 (1 / 3) = 11184811 / 33554432 := by decide +kernel
example : f32 (2 ^ 24 + 1) = 2 ^ 24 := by decide +kernel
example : f64 (2 ^ 53 + 3) = 2 ^ 53 + 4 := by decide +kernel

/-! ## Signs -/

theorem le_divHalfEven (n d : Nat) : n / d ≤ divHalfEven n d := by
  unfold divHalfEven
  dsimp only
  split_ifs <;> omega

theorem roundNat_zero (p d : Nat) : roundNat p 0 d = 0 := by
  have hZero (k : Nat) : divHalfEven 0 k = 0 := by
    unfold divHalfEven
    simp
  unfold roundNat
  simp [hZero]

theorem roundNat_nonneg (p n d : Nat) : 0 ≤ roundNat p n d := by
  unfold roundNat
  positivity

variable {p n d : Nat}

/-- At least one significant bit is kept: the scaled quotient does not vanish when its low bits are
rounded away. -/
theorem one_le_scaled (hp : 0 < p) (hn : 0 < n) (hd : 0 < d) : let s := p + Nat.log2 d + 1
    1 ≤ n * 2 ^ s / (d * 2 ^ (Nat.log2 (n * 2 ^ s / d) + 1 - p)) := by
  dsimp only
  generalize hs : p + Nat.log2 d + 1 = s
  generalize hm : n * 2 ^ s / d = m
  have hScale : d ≤ n * 2 ^ s := by
    have hLog : d < 2 ^ s := by
      refine lt_of_lt_of_le Nat.lt_log2_self (Nat.pow_le_pow_right (by decide) ?_)
      omega
    exact le_trans hLog.le (Nat.le_mul_of_pos_left _ hn)
  have hmPos : m ≠ 0 := by
    rw [← hm]
    exact (Nat.div_pos hScale hd).ne'
  have hKept : 2 ^ (Nat.log2 m + 1 - p) ≤ m :=
    le_trans (Nat.pow_le_pow_right (by decide) (by omega)) (Nat.log2_self_le hmPos)
  rw [← Nat.div_div_eq_div_mul, hm]
  exact Nat.div_pos hKept (by positivity)

theorem roundNat_pos (hp : 0 < p) (hn : 0 < n) (hd : 0 < d) : 0 < roundNat p n d := by
  have hRounded := le_trans (one_le_scaled hp hn hd) (le_divHalfEven _ _)
  exact div_pos (by exact_mod_cast Nat.mul_pos hRounded (by positivity)) (by positivity)

/-- **Rounding keeps the sign.** -/
theorem round_pos_iff (hp : 0 < p) (q : ℚ) : 0 < round p q ↔ 0 < q := by
  unfold round
  rcases lt_trichotomy q 0 with hNeg | rfl | hPos
  · rw [if_pos hNeg]
    have hNonneg := roundNat_nonneg p q.num.natAbs q.den
    exact iff_of_false (by linarith) (by linarith)
  · simp [roundNat_zero]
  · rw [if_neg (by linarith)]
    have hNum : 0 < q.num.natAbs := Int.natAbs_pos.mpr (Rat.num_pos.mpr hPos).ne'
    exact iff_of_true (roundNat_pos hp hNum q.den_pos) hPos

theorem round_of_nonneg {q : ℚ} (hq : 0 ≤ q) (p : Nat) : round p q = roundNat p q.num.natAbs q.den :=
  if_neg (not_lt.mpr hq)

theorem f32_pos_iff (q : ℚ) : 0 < f32 q ↔ 0 < q := round_pos_iff (by decide) q

theorem round_zero (p : Nat) : round p 0 = 0 := by
  unfold round
  simp [roundNat_zero]

theorem f32_zero : f32 0 = 0 := round_zero 24

/-! ## Magnitudes -/

theorem natAbs_div_den {q : ℚ} (hq : 0 ≤ q) : (q.num.natAbs : ℚ) / q.den = q := by
  rw [Nat.cast_natAbs, abs_of_nonneg (Rat.num_nonneg.mpr hq)]
  exact Rat.num_div_den q

/-! ## Exact values -/

theorem log2_lt_of_lt {k : Nat} (hk : 0 < k) (h : n < 2 ^ k) : Nat.log2 n < k := by
  rcases Nat.eq_zero_or_pos n with rfl | hn
  · exact hk
  · exact (Nat.log2_lt hn.ne').mpr h

theorem divHalfEven_of_dvd (hd : 0 < d) (h : d ∣ n) : divHalfEven n d = n / d := by
  unfold divHalfEven
  rw [Nat.mod_eq_zero_of_dvd h]
  exact if_pos hd

/-- **Numbers that fit are kept**: those of at most `p` bits, with any number of zeros behind
them. -/
theorem round_of_fits (k : Nat) (h : n < 2 ^ p) :
    round p ((n * 2 ^ k : Nat) : ℚ) = (n * 2 ^ k : Nat) := by
  have hScaled : n * 2 ^ k * 2 ^ (p + 1) = n * 2 ^ (k + (p + 1)) := by
    rw [Nat.mul_assoc, ← Nat.pow_add]
  have hBits : Nat.log2 (n * 2 ^ (k + (p + 1))) + 1 - p ≤ k + (p + 1) := by
    have hLog : Nat.log2 (n * 2 ^ (k + (p + 1))) < p + (k + (p + 1)) := by
      refine log2_lt_of_lt (by omega) ?_
      rw [Nat.pow_add 2 p]
      exact Nat.mul_lt_mul_of_pos_right h (by positivity)
    omega
  have hDvd : 2 ^ (Nat.log2 (n * 2 ^ (k + (p + 1))) + 1 - p) ∣ n * 2 ^ (k + (p + 1)) :=
    (Nat.pow_dvd_pow 2 hBits).mul_left n
  rw [round_of_nonneg (Nat.cast_nonneg _), Rat.num_natCast, Rat.den_natCast, Int.natAbs_natCast]
  unfold roundNat
  dsimp only
  rw [show Nat.log2 1 = 0 from rfl, Nat.add_zero, Nat.div_one, Nat.one_mul, hScaled,
    divHalfEven_of_dvd (by positivity) hDvd, Nat.div_mul_cancel hDvd, ← hScaled]
  push_cast
  exact mul_div_cancel_right₀ _ (by positivity)

theorem round_natCast (h : n < 2 ^ p) : round p n = n := by
  simpa using round_of_fits 0 h

/-- A fraction is rounded up by no more than its last bit. -/
theorem round_le_add {q : ℚ} (hq : 0 ≤ q) (hOne : q < 1) : round p q ≤ q + 1 / 2 ^ p := by
  have hQuotient := natAbs_div_den hq
  have hLess : q.num.natAbs < q.den := by
    rw [← hQuotient, div_lt_one (by exact_mod_cast q.den_pos)] at hOne
    exact_mod_cast hOne
  rw [round_of_nonneg hq]
  unfold roundNat
  dsimp only
  -- the scaled quotient has at most `s` bits, so `t` of them are rounded away
  have hBits : p + (Nat.log2 (q.num.natAbs * 2 ^ (p + Nat.log2 q.den + 1) / q.den) + 1 - p) ≤
      p + Nat.log2 q.den + 1 := by
    have hBelow : q.num.natAbs * 2 ^ (p + Nat.log2 q.den + 1) / q.den <
        2 ^ (p + Nat.log2 q.den + 1) := by
      rw [Nat.div_lt_iff_lt_mul q.den_pos, Nat.mul_comm]
      exact Nat.mul_lt_mul_of_pos_left hLess (by positivity)
    have hLog := log2_lt_of_lt (by omega) hBelow
    omega
  generalize p + Nat.log2 q.den + 1 = s at hBits ⊢
  generalize Nat.log2 (q.num.natAbs * 2 ^ s / q.den) + 1 - p = t at hBits ⊢
  have hUpper : divHalfEven (q.num.natAbs * 2 ^ s) (q.den * 2 ^ t) ≤
      q.num.natAbs * 2 ^ s / (q.den * 2 ^ t) + 1 := by
    unfold divHalfEven
    dsimp only
    split_ifs <;> omega
  have hFloor : ((q.num.natAbs * 2 ^ s / (q.den * 2 ^ t) : Nat) : ℚ) ≤ q * 2 ^ s / 2 ^ t := by
    refine Nat.cast_div_le.trans_eq ?_
    push_cast
    rw [mul_div_mul_comm, hQuotient, mul_div_assoc]
  have hCast : (divHalfEven (q.num.natAbs * 2 ^ s) (q.den * 2 ^ t) : ℚ) ≤ q * 2 ^ s / 2 ^ t + 1 := by
    have hCast : (divHalfEven (q.num.natAbs * 2 ^ s) (q.den * 2 ^ t) : ℚ) ≤
        ((q.num.natAbs * 2 ^ s / (q.den * 2 ^ t) : Nat) : ℚ) + 1 := by exact_mod_cast hUpper
    linarith
  have hLast : (2 : ℚ) ^ p * 2 ^ t ≤ 2 ^ s := by
    rw [← pow_add]
    exact pow_le_pow_right₀ (by norm_num) hBits
  push_cast
  rw [div_le_iff₀ (by positivity), add_mul]
  have hKept : 2 ^ t ≤ 1 / (2 : ℚ) ^ p * 2 ^ s := by
    rw [one_div, ← div_eq_inv_mul, le_div_iff₀ (by positivity)]
    linarith
  have hMul := mul_le_mul_of_nonneg_right hCast (show (0 : ℚ) ≤ 2 ^ t by positivity)
  rw [add_mul, div_mul_cancel₀ _ (by positivity), one_mul] at hMul
  linarith

end Electrum.Binary
