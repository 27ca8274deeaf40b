import Mathlib.Analysis.Complex.Exponential
import Mathlib.Analysis.Complex.Trigonometric
import Mathlib.Analysis.Complex.Basic
import Mathlib.NumberTheory.Zsqrtd.GaussianInt

/-!
# Tables of sines

The integer part of `scale * |sin k|`, for natural numbers `scale` and `k`, by arithmetic of integers. The first `n`
terms of the exponential series at `i` are a Gaussian integer over `n!` (`expSum`), its power `k` comes near to
`exp (k * i)`, and the imaginary part of that is the sine. `SineFloor` compares integers only, and
`floor_scale_abs_sin` says that a value that passes it is the integer part.
-/

namespace SineTable

open Complex Finset

/-- The sum of the first `n` terms of the exponential series at `i`, times `n!`. -/
def expSum : (n : ℕ) → GaussianInt
  | 0 => 0
  | n + 1 => (n + 1 : ℕ) * (expSum n + (⟨0, 1⟩ : GaussianInt) ^ n)

/-- The denominator of the approximation of `exp i` by `n` terms. -/
def denominator (n : ℕ) : ℕ := n.factorial * n

/-- Its numerator. -/
def numerator (n : ℕ) : GaussianInt := n * expSum n

/-- The imaginary part of the power `k` of the numerator. -/
def sineNumerator (n k : ℕ) : ℕ := (numerator n ^ k).im.natAbs

/-- The error of the power `k`, over the power `k` of the denominator. -/
def errorNumerator (n k : ℕ) : ℕ := (denominator n + (n + 1)) ^ k - denominator n ^ k

/-- With `n` terms of the series, `v` is the integer part of `scale * |sin k|`. -/
def SineFloor (n scale k v : ℕ) : Prop :=
  v * denominator n ^ k + scale * errorNumerator n k ≤ scale * sineNumerator n k ∧
    scale * sineNumerator n k + scale * errorNumerator n k < (v + 1) * denominator n ^ k

instance (n scale k v : ℕ) : Decidable (SineFloor n scale k v) := inferInstanceAs (Decidable (_ ∧ _))

theorem toComplex_expSum (n : ℕ) : (expSum n : ℂ) = n.factorial * ∑ m ∈ range n, I ^ m / m.factorial := by
  induction n with
  | zero => simp [expSum]
  | succ n ih =>
    have hI : ((⟨0, 1⟩ : GaussianInt) : ℂ) = I := by simp [GaussianInt.toComplex_def]
    have hfac : (n.factorial : ℂ) ≠ 0 := Nat.cast_ne_zero.2 n.factorial_ne_zero
    rw [expSum, map_mul, map_add, map_pow, hI, ih, map_natCast, sum_range_succ, Nat.factorial_succ, Nat.cast_mul,
      mul_assoc, mul_add (n.factorial : ℂ), mul_div_cancel₀ (I ^ n) hfac]

theorem denominator_pos {n : ℕ} (hn : 0 < n) : 0 < denominator n := Nat.mul_pos n.factorial_pos hn

/-- The approximation of `exp i`. -/
theorem norm_exp_I_sub_le {n : ℕ} (hn : 0 < n) :
    ‖(numerator n : ℂ) / denominator n - exp I‖ ≤ (n + 1 : ℕ) / denominator n := by
  have hfac : (n.factorial : ℂ) ≠ 0 := Nat.cast_ne_zero.2 n.factorial_ne_zero
  have hn' : (n : ℂ) ≠ 0 := Nat.cast_ne_zero.2 hn.ne'
  have hsum : (numerator n : ℂ) / denominator n = ∑ m ∈ range n, I ^ m / m.factorial := by
    rw [numerator, denominator, map_mul, map_natCast, toComplex_expSum, Nat.cast_mul, mul_comm (n.factorial : ℂ) n,
      mul_div_mul_left _ _ hn', mul_div_cancel_left₀ _ hfac]
  have hbound := exp_bound (x := I) (by simp) hn
  rw [norm_I, one_pow, one_mul, ← div_eq_mul_inv] at hbound
  rw [norm_sub_rev, hsum, denominator]
  exact_mod_cast hbound

/-- Powers of a number near to one of norm 1. -/
theorem norm_pow_sub_pow_le {z w : ℂ} {δ : ℝ} (hw : ‖w‖ = 1) (h : ‖z - w‖ ≤ δ) (k : ℕ) :
    ‖z ^ k - w ^ k‖ ≤ (1 + δ) ^ k - 1 := by
  induction k with
  | zero => simp
  | succ k ih =>
    have hz : ‖z‖ ≤ 1 + δ := by
      have htri := norm_add_le w (z - w)
      rw [add_sub_cancel] at htri
      linarith
    have hpow : ‖w ^ k‖ = 1 := by rw [norm_pow, hw, one_pow]
    calc ‖z ^ (k + 1) - w ^ (k + 1)‖ = ‖z * (z ^ k - w ^ k) + (z - w) * w ^ k‖ := by ring_nf
      _ ≤ ‖z‖ * ‖z ^ k - w ^ k‖ + ‖z - w‖ * ‖w ^ k‖ := by
        simpa only [norm_mul] using norm_add_le (z * (z ^ k - w ^ k)) ((z - w) * w ^ k)
      _ ≤ (1 + δ) * ((1 + δ) ^ k - 1) + δ * 1 := by
        rw [hpow]
        gcongr
        exact (norm_nonneg z).trans hz
      _ = (1 + δ) ^ (k + 1) - 1 := by ring

/-- The approximation of the sine. -/
theorem abs_sin_sub_le {n : ℕ} (hn : 0 < n) (k : ℕ) :
    |(sineNumerator n k : ℝ) - |Real.sin k| * denominator n ^ k| ≤ errorNumerator n k := by
  have hden : (0 : ℝ) < denominator n := Nat.cast_pos.2 (denominator_pos hn)
  have hpos : (0 : ℝ) < denominator n ^ k := pow_pos hden k
  have hnorm : ‖exp I‖ = 1 := by simpa using norm_exp_ofReal_mul_I 1
  have hsin : (exp I ^ k).im = Real.sin k := by
    rw [← exp_nat_mul, ← ofReal_natCast, exp_ofReal_mul_I_im]
  have him : (((numerator n : ℂ) / denominator n) ^ k).im = ((numerator n ^ k).im : ℝ) / denominator n ^ k := by
    rw [div_pow, ← map_pow, ← ofReal_natCast, ← ofReal_pow, div_ofReal_im, ← GaussianInt.intCast_im]
  have herror : ((1 + ((n + 1 : ℕ) : ℝ) / denominator n) ^ k - 1) * denominator n ^ k = errorNumerator n k := by
    have hle : denominator n ^ k ≤ (denominator n + (n + 1)) ^ k := Nat.pow_le_pow_left (Nat.le_add_right _ _) k
    rw [errorNumerator, Nat.cast_sub hle, Nat.cast_pow, Nat.cast_pow, Nat.cast_add (denominator n), one_add_div hden.ne',
      div_pow, sub_mul, div_mul_cancel₀ _ hpos.ne', one_mul]
  have hdiff : |((numerator n ^ k).im : ℝ) / denominator n ^ k - Real.sin k| ≤
      (1 + ((n + 1 : ℕ) : ℝ) / denominator n) ^ k - 1 := by
    rw [← him, ← hsin, ← sub_im]
    exact (abs_im_le_norm _).trans (norm_pow_sub_pow_le hnorm (norm_exp_I_sub_le hn) k)
  calc |(sineNumerator n k : ℝ) - |Real.sin k| * denominator n ^ k|
      = abs (|((numerator n ^ k).im : ℝ)| - |Real.sin k * denominator n ^ k|) := by
        rw [sineNumerator, Nat.cast_natAbs, Int.cast_abs, abs_mul, abs_of_pos hpos]
    _ ≤ |((numerator n ^ k).im : ℝ) - Real.sin k * denominator n ^ k| := abs_abs_sub_abs_le_abs_sub _ _
    _ = |((numerator n ^ k).im : ℝ) / denominator n ^ k - Real.sin k| * denominator n ^ k := by
        rw [← abs_of_pos hpos, ← abs_mul, sub_mul, abs_of_pos hpos, div_mul_cancel₀ _ hpos.ne']
    _ ≤ errorNumerator n k := by
        rw [← herror]
        exact mul_le_mul_of_nonneg_right hdiff hpos.le

/-- The check is right. -/
theorem floor_scale_abs_sin {n scale k v : ℕ} (hn : 0 < n) (h : SineFloor n scale k v) :
    ⌊(scale : ℝ) * |Real.sin k|⌋₊ = v := by
  have hpos : (0 : ℝ) < denominator n ^ k := pow_pos (Nat.cast_pos.2 (denominator_pos hn)) k
  have hscale : (0 : ℝ) ≤ scale := Nat.cast_nonneg scale
  have hlow : (v : ℝ) * denominator n ^ k + scale * errorNumerator n k ≤ scale * sineNumerator n k := by
    exact_mod_cast h.1
  have hhigh : (scale : ℝ) * sineNumerator n k + scale * errorNumerator n k < (v + 1) * denominator n ^ k := by
    exact_mod_cast h.2
  rcases abs_le.1 (abs_sin_sub_le hn k) with ⟨hsin, hsin'⟩
  have hmul : (scale : ℝ) * (|Real.sin k| * denominator n ^ k) ≤ scale * (sineNumerator n k + errorNumerator n k) :=
    mul_le_mul_of_nonneg_left (by linarith) hscale
  have hmul' : (scale : ℝ) * (sineNumerator n k - errorNumerator n k) ≤ scale * (|Real.sin k| * denominator n ^ k) :=
    mul_le_mul_of_nonneg_left (by linarith) hscale
  rw [Nat.floor_eq_iff (mul_nonneg hscale (abs_nonneg _))]
  refine ⟨le_of_mul_le_mul_right ?_ hpos, lt_of_mul_lt_mul_right ?_ hpos.le⟩
  · linarith
  · linarith

end SineTable
