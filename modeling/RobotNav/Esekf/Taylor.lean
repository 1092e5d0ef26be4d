/-
The polynomials that stand for the cosine and the sine of a small angle, and the angle that
is read back from them.
-/
import Mathlib.Analysis.SpecialFunctions.Trigonometric.ArctanDeriv
import RobotNav.Esekf.ExpLog

namespace RobotNav

/-! ## The angle of a cosine and a sine -/

theorem abs_arctan_sub_le (a b : ℝ) : |Real.arctan a - Real.arctan b| ≤ |a - b| := by
  have hlipschitz : LipschitzWith 1 Real.arctan := by
    apply lipschitzWith_of_nnnorm_deriv_le Real.differentiable_arctan
    intro x
    have hpos : (0 : ℝ) < 1 + x ^ 2 := by positivity
    rw [← NNReal.coe_le_coe, coe_nnnorm, Real.deriv_arctan, Real.norm_eq_abs,
      abs_of_pos (div_pos one_pos hpos), NNReal.coe_one, div_le_one hpos]
    linarith [sq_nonneg x]
  have hdist := hlipschitz.dist_le_mul a b
  rwa [NNReal.coe_one, one_mul, Real.dist_eq, Real.dist_eq] at hdist

/-- How far an angle is from the one of an inexact cosine and sine. -/
theorem abs_arctan_div_sub_le {θ c s ε : ℝ} (h0 : 0 ≤ θ) (h1 : θ ≤ 1 / 4) (hε : ε ≤ 1 / 4)
    (hc : |c - Real.cos θ| ≤ ε) (hs : |s - Real.sin θ| ≤ ε) :
    |Real.arctan (s / c) - θ| ≤ 8 * ε := by
  have hcos : 3 / 4 ≤ Real.cos θ := by
    have hbound := Real.one_sub_sq_div_two_le_cos (x := θ)
    nlinarith
  have hcos1 := Real.cos_le_one θ
  have hsin : |Real.sin θ| ≤ 1 := Real.abs_sin_le_one θ
  obtain ⟨hclow, hchigh⟩ := abs_le.mp hc
  have hcpos : 1 / 2 ≤ c := by linarith
  have htan : Real.arctan (Real.sin θ / Real.cos θ) = θ := by
    have hpi := Real.pi_gt_three
    rw [← Real.tan_eq_sin_div_cos, Real.arctan_tan (by linarith) (by linarith)]
  have hcross : |s * Real.cos θ - c * Real.sin θ| ≤ 2 * ε := by
    have hsplit : s * Real.cos θ - c * Real.sin θ =
        (s - Real.sin θ) * Real.cos θ - (c - Real.cos θ) * Real.sin θ := by ring
    have hε0 : 0 ≤ ε := (abs_nonneg _).trans hc
    calc |s * Real.cos θ - c * Real.sin θ|
        ≤ |(s - Real.sin θ) * Real.cos θ| + |(c - Real.cos θ) * Real.sin θ| := by
          rw [hsplit]
          exact abs_sub _ _
      _ ≤ ε * 1 + ε * 1 := by
          rw [abs_mul, abs_mul, abs_of_pos (by linarith : 0 < Real.cos θ)]
          exact add_le_add (mul_le_mul hs hcos1 (by linarith) hε0)
            (mul_le_mul hc hsin (abs_nonneg _) hε0)
      _ = 2 * ε := by ring
  calc |Real.arctan (s / c) - θ|
      = |Real.arctan (s / c) - Real.arctan (Real.sin θ / Real.cos θ)| := by rw [htan]
    _ ≤ |s / c - Real.sin θ / Real.cos θ| := abs_arctan_sub_le _ _
    _ = |s * Real.cos θ - c * Real.sin θ| / (c * Real.cos θ) := by
        have hcne : c ≠ 0 := by linarith
        have hcosne : Real.cos θ ≠ 0 := by linarith
        have hpos : 0 < c * Real.cos θ := mul_pos (by linarith) (by linarith)
        rw [div_sub_div _ _ hcne hcosne, abs_div, abs_of_pos hpos]
    _ ≤ 2 * ε / (1 / 4) := by
        apply div_le_div₀ ((abs_nonneg _).trans hcross) hcross (by norm_num)
        nlinarith
    _ = 8 * ε := by ring

namespace MTK

/-! ## The polynomials -/

/-- The first eight terms of the exponential of an imaginary number. -/
theorem exp_terms (φ : ℝ) :
    ∑ m ∈ Finset.range 8, ((φ : ℂ) * Complex.I) ^ m / m.factorial =
      ((1 - φ ^ 2 / 2 + (φ ^ 2) ^ 2 / 24 - (φ ^ 2) ^ 3 / 720 : ℝ) : ℂ) +
        ((φ * (1 - φ ^ 2 / 6 + (φ ^ 2) ^ 2 / 120 - (φ ^ 2) ^ 3 / 5040) : ℝ) : ℂ) * Complex.I := by
  have hI : ∀ k, Complex.I ^ (k + 2) = -Complex.I ^ k := by
    intro k
    rw [pow_add, Complex.I_sq, mul_neg_one]
  simp only [Finset.sum_range_succ, Finset.sum_range_zero, mul_pow, Nat.factorial]
  rw [hI 5, hI 4, hI 3, hI 2, hI 1, hI 0]
  push_cast
  ring_nf

/-- The polynomials are the cosine and the sine to twenty digits where they are used. -/
theorem cosSincSqrt_taylor {φ : ℝ} (hsmall : φ ^ 2 < 1 / 8192) :
    |(cosSincSqrt .real (φ ^ 2)).1 - Real.cos φ| ≤ 1 / 10 ^ 20 ∧
      |(cosSincSqrt .real (φ ^ 2)).2 * φ - Real.sin φ| ≤ 1 / 10 ^ 20 := by
  have hone : |φ| ≤ 1 := by
    rw [← sq_le_one_iff_abs_le_one]
    linarith
  have hnorm : ‖(φ : ℂ) * Complex.I‖ = |φ| := by
    rw [norm_mul, Complex.norm_I, mul_one, Complex.norm_real, Real.norm_eq_abs]
  have hbound := Complex.exp_bound (x := (φ : ℂ) * Complex.I) (by rw [hnorm]; exact hone)
    (n := 8) (by norm_num)
  rw [exp_terms, hnorm, Complex.exp_mul_I] at hbound
  set cosi := 1 - φ ^ 2 / 2 + (φ ^ 2) ^ 2 / 24 - (φ ^ 2) ^ 3 / 720 with hcosi
  set sini := φ * (1 - φ ^ 2 / 6 + (φ ^ 2) ^ 2 / 120 - (φ ^ 2) ^ 3 / 5040) with hsini
  have hrest :
      |φ| ^ 8 * (((8 : ℕ).succ : ℝ) * ((Nat.factorial 8 : ℝ) * (8 : ℕ))⁻¹) ≤ 1 / 10 ^ 20 := by
    have heighth : |φ| ^ 8 ≤ (1 / 8192) ^ 4 := by
      calc |φ| ^ 8 = (φ ^ 2) ^ 4 := by rw [← sq_abs]; ring
        _ ≤ (1 / 8192) ^ 4 := by gcongr
    calc |φ| ^ 8 * (((8 : ℕ).succ : ℝ) * ((Nat.factorial 8 : ℝ) * (8 : ℕ))⁻¹)
        ≤ (1 / 8192) ^ 4 * (((8 : ℕ).succ : ℝ) * ((Nat.factorial 8 : ℝ) * (8 : ℕ))⁻¹) := by gcongr
      _ ≤ 1 / 10 ^ 20 := by
          norm_num [Nat.factorial]
  have hdiff : Complex.cos φ + Complex.sin φ * Complex.I - (cosi + sini * Complex.I) =
      ((Real.cos φ - cosi : ℝ) : ℂ) + ((Real.sin φ - sini : ℝ) : ℂ) * Complex.I := by
    push_cast
    ring
  rw [hdiff] at hbound
  have hre := (Complex.abs_re_le_norm _).trans (hbound.trans hrest)
  have him := (Complex.abs_im_le_norm _).trans (hbound.trans hrest)
  simp only [Complex.add_re, Complex.add_im, Complex.ofReal_re, Complex.ofReal_im, Complex.mul_re,
    Complex.mul_im, Complex.I_re, Complex.I_im, mul_zero, mul_one, sub_zero, add_zero, zero_add]
    at hre him
  rw [cosSincSqrt_of_lt hsmall, abs_sub_comm _ (Real.cos φ), abs_sub_comm _ (Real.sin φ),
    mul_comm _ φ]
  exact ⟨hre, him⟩

end MTK

end RobotNav
