/-
The rotation by the length of a vector about it.

Half of the angle as a quaternion, or the whole angle by Rodrigues' formula: both are turns
about the axis in the sense of `axisTurn`.
-/
import Mathlib.Analysis.SpecialFunctions.Complex.Arg
import Mathlib.Analysis.SpecialFunctions.Trigonometric.Basic
import Mathlib.LinearAlgebra.Matrix.DotProduct
import RobotNav.Library.AxisTurn

namespace RobotNav

open Matrix

noncomputable def angleOf {k : ℕ} (v : Fin k → ℝ) : ℝ := Real.sqrt (v ⬝ᵥ v)

theorem dotProduct_self_nonneg_real {k : ℕ} (v : Fin k → ℝ) : 0 ≤ v ⬝ᵥ v :=
  Finset.sum_nonneg fun i _ => mul_self_nonneg (v i)

theorem angleOf_nonneg {k : ℕ} (v : Fin k → ℝ) : 0 ≤ angleOf v := Real.sqrt_nonneg _

theorem angleOf_mul_self {k : ℕ} (v : Fin k → ℝ) : angleOf v * angleOf v = v ⬝ᵥ v :=
  Real.mul_self_sqrt (dotProduct_self_nonneg_real v)

theorem angleOf_smul {k : ℕ} (s : ℝ) (v : Fin k → ℝ) : angleOf (s • v) = |s| * angleOf v := by
  rw [angleOf, angleOf, smul_dotProduct, dotProduct_smul, smul_eq_mul, smul_eq_mul, ← mul_assoc,
    Real.sqrt_mul (mul_self_nonneg s), Real.sqrt_mul_self_eq_abs]

theorem angleOf_neg {k : ℕ} (v : Fin k → ℝ) : angleOf (-v) = angleOf v := by
  rw [angleOf, neg_dotProduct_neg]
  rfl

theorem eq_zero_of_angleOf {k : ℕ} {v : Fin k → ℝ} (h : angleOf v = 0) : v = 0 := by
  rw [← dotProduct_self_eq_zero, ← angleOf_mul_self, h, mul_zero]

@[simp] theorem angleOf_zero {k : ℕ} : angleOf (0 : Fin k → ℝ) = 0 := by
  rw [angleOf, zero_dotProduct, Real.sqrt_zero]

/-- Where the angle is zero the quotients are zero, and the turn is none. -/
noncomputable def rodrigues (v : Fin 3 → ℝ) : Matrix (Fin 3) (Fin 3) ℝ :=
  axisTurn (Real.sin (angleOf v) / angleOf v)
    ((1 - Real.cos (angleOf v)) / (angleOf v * angleOf v)) v

@[simp] theorem rodrigues_zero : rodrigues 0 = 1 := axisTurn_zero_vec _ _

theorem rodrigues_mem (v : Fin 3 → ℝ) : rodrigues v ∈ specialOrthogonalGroup (Fin 3) ℝ := by
  by_cases hzero : angleOf v = 0
  · rw [eq_zero_of_angleOf hzero, rodrigues_zero]
    exact one_mem _
  · have hpyth := Real.sin_sq_add_cos_sq (angleOf v)
    apply axisTurn_mem_rotation
    · rw [← angleOf_mul_self]
      field_simp
      linear_combination -hpyth
    · rw [← angleOf_mul_self]
      field_simp
      linear_combination hpyth

/-- At right angles to the axis the turn is in a plane. -/
theorem rodrigues_mulVec_of_dotProduct {v w : Fin 3 → ℝ} (h : v ⬝ᵥ w = 0) :
    rodrigues v *ᵥ w =
      Real.cos (angleOf v) • w + (Real.sin (angleOf v) / angleOf v) • crossProduct v w := by
  by_cases hzero : angleOf v = 0
  · rw [hzero, eq_zero_of_angleOf hzero, rodrigues_zero, one_mulVec]
    simp
  · have hsquare : (crossMatrix v * crossMatrix v) *ᵥ w = -(v ⬝ᵥ v) • w := by
      rw [crossMatrix_mul_self, sub_mulVec, smul_mulVec, one_mulVec, vecMulVec_mulVec, h]
      simp
    rw [rodrigues, axisTurn, add_mulVec, add_mulVec, one_mulVec, smul_mulVec, smul_mulVec,
      crossMatrix_mulVec, hsquare, ← angleOf_mul_self, smul_smul]
    have hcoeff : (1 - Real.cos (angleOf v)) / (angleOf v * angleOf v) *
        -(angleOf v * angleOf v) = Real.cos (angleOf v) - 1 := by
      field_simp
      ring
    rw [hcoeff]
    module

/-! ## Half the angle -/

/-- The quaternion with the cosine and the sine of half the angle. -/
theorem axisTurn_half (v : Fin 3 → ℝ) (hpos : angleOf v ≠ 0) :
    axisTurn (Real.cos (angleOf v / 2) + Real.cos (angleOf v / 2)) (1 + 1)
      ((Real.sin (angleOf v / 2) / angleOf v) • v) = rodrigues v := by
  have hhalf : angleOf v = 2 * (angleOf v / 2) := by ring
  rw [axisTurn_smul, rodrigues]
  congr 1
  · conv_rhs => rw [hhalf, Real.sin_two_mul]
    rw [← hhalf]
    ring
  · conv_rhs => rw [hhalf, Real.cos_two_mul']
    have hpyth := Real.sin_sq_add_cos_sq (angleOf v / 2)
    rw [← hhalf]
    field_simp
    linear_combination hpyth

end RobotNav
