/-
The gain of a linear update with independent measurements of one variance.

`P` is the covariance of what is known before, `H` takes the unknown to what is measured
and `R` is the variance of a measurement.  The gain has two forms, by the innovation and
by the information; the step it gives is the one place where the cost of the measurements
and of leaving the prior is least.
-/
import Mathlib.Algebra.Order.Star.Real
import Mathlib.LinearAlgebra.Matrix.PosDef
import Mathlib.Tactic.Abel
import Mathlib.Tactic.FieldSimp
import Mathlib.Tactic.Linarith

namespace RobotNav
namespace Gain

open Matrix

/-! ## The two forms -/

section

variable {ι κ K : Type*} [Fintype ι] [Fintype κ] [DecidableEq ι] [DecidableEq κ] [Field K]
variable (P : Matrix ι ι K) (H : Matrix κ ι K) (R : K)

def innovation : Matrix κ κ K := R⁻¹ • (H * P * Hᵀ) + 1

noncomputable def information : Matrix ι ι K := (R⁻¹ • P)⁻¹ + Hᵀ * H

def byInnovation (inv : Matrix κ κ K) : Matrix ι κ K := R⁻¹ • (P * Hᵀ * inv)

def byInformation (inv : Matrix ι ι K) : Matrix ι κ K := inv * Hᵀ

variable {P H R}

theorem isUnit_smul (hP : IsUnit P) (hR : R ≠ 0) : IsUnit (R⁻¹ • P) := by
  obtain ⟨u, rfl⟩ := hP
  refine ⟨⟨R⁻¹ • ↑u, R • ↑u⁻¹, ?_, ?_⟩, rfl⟩
  · rw [smul_mul_smul_comm, Units.mul_inv, inv_mul_cancel₀ hR, one_smul]
  · rw [smul_mul_smul_comm, Units.inv_mul, mul_inv_cancel₀ hR, one_smul]

theorem inv_mul_smul (hP : IsUnit P) (hR : R ≠ 0) : (R⁻¹ • P)⁻¹ * (R⁻¹ • P) = 1 :=
  nonsing_inv_mul _ ((isUnit_iff_isUnit_det _).mp (isUnit_smul hP hR))

/-- The information pushed through to the other side of the measurements. -/
theorem information_mul (hP : IsUnit P) (hR : R ≠ 0) :
    information P H R * (R⁻¹ • (P * Hᵀ)) = Hᵀ * innovation P H R := by
  have hcancel : (R⁻¹ • P)⁻¹ * (R⁻¹ • (P * Hᵀ)) = Hᵀ := by
    rw [← Matrix.smul_mul, ← Matrix.mul_assoc, inv_mul_smul hP hR, Matrix.one_mul]
  rw [information, innovation, Matrix.add_mul, hcancel, Matrix.mul_add, Matrix.mul_one,
    Matrix.mul_smul, Matrix.mul_smul, add_comm]
  simp only [Matrix.mul_assoc]

theorem byInnovation_eq_byInformation {invS : Matrix κ κ K} {invW : Matrix ι ι K}
    (hP : IsUnit P) (hR : R ≠ 0) (hS : innovation P H R * invS = 1)
    (hW : invW * information P H R = 1) :
    byInnovation P H R invS = byInformation H invW := by
  calc byInnovation P H R invS
      = invW * information P H R * (R⁻¹ • (P * Hᵀ * invS)) := by
        rw [hW, Matrix.one_mul, byInnovation]
    _ = invW * (information P H R * (R⁻¹ • (P * Hᵀ))) * invS := by
        rw [← Matrix.smul_mul]
        simp only [Matrix.mul_assoc]
    _ = invW * Hᵀ * (innovation P H R * invS) := by
        rw [information_mul hP hR]
        simp only [Matrix.mul_assoc]
    _ = byInformation H invW := by rw [hS, Matrix.mul_one, byInformation]

omit [DecidableEq κ] in
/-- What the gain leaves of the covariance. -/
theorem one_sub_gain_mul {invW : Matrix ι ι K} (hP : IsUnit P) (hR : R ≠ 0)
    (hW : invW * information P H R = 1) :
    (1 - byInformation H invW * H) * P = R • invW := by
  have hpart : 1 - byInformation H invW * H = invW * (R⁻¹ • P)⁻¹ := by
    rw [← hW, information, Matrix.mul_add, byInformation, Matrix.mul_assoc, add_sub_cancel_right]
  have hscale : P = R • (R⁻¹ • P) := by rw [smul_smul, mul_inv_cancel₀ hR, one_smul]
  rw [hpart]
  conv_lhs => rw [hscale]
  have hcancel : (R⁻¹ • P)⁻¹ * (R • R⁻¹ • P) = R • (1 : Matrix ι ι K) := by
    rw [Matrix.mul_smul, inv_mul_smul hP hR]
  rw [← hscale] at hcancel ⊢
  rw [Matrix.mul_assoc, hcancel, Matrix.mul_smul, Matrix.mul_one]

end

/-! ## Definiteness -/

section

variable {ι κ : Type*} [Fintype ι] [Fintype κ] [DecidableEq ι] [DecidableEq κ]
variable {P : Matrix ι ι ℝ} {H : Matrix κ ι ℝ} {R : ℝ}

omit [DecidableEq ι] [DecidableEq κ] in
theorem posSemidef_congr (hP : P.PosSemidef) (J : Matrix κ ι ℝ) : (J * P * Jᵀ).PosSemidef := by
  rw [← conjTranspose_eq_transpose_of_trivial]
  exact hP.mul_mul_conjTranspose_same J

omit [Fintype κ] [DecidableEq κ] in
theorem posDef_congr (hP : P.PosDef) {J : Matrix ι ι ℝ} (hJ : IsUnit J) :
    (J * P * Jᵀ).PosDef := by
  rw [← conjTranspose_eq_transpose_of_trivial]
  exact hP.mul_mul_conjTranspose_same (vecMul_injective_iff_isUnit.mpr hJ)

omit [DecidableEq ι] in
theorem posDef_innovation (hP : P.PosSemidef) (hR : 0 < R) : (innovation P H R).PosDef :=
  PosDef.posSemidef_add ((posSemidef_congr hP H).smul (inv_nonneg.mpr hR.le)) PosDef.one

omit [DecidableEq κ] in
theorem posDef_information (hP : P.PosDef) (hR : 0 < R) : (information P H R).PosDef := by
  refine PosDef.add_posSemidef ((hP.smul (inv_pos.mpr hR)).inv) ?_
  rw [← conjTranspose_eq_transpose_of_trivial]
  exact posSemidef_conjTranspose_mul_self H

theorem eq_inv_of_mul_eq_one {A B : Matrix ι ι ℝ} (h : B * A = 1) : B = A⁻¹ :=
  (inv_eq_left_inv h).symm

omit [DecidableEq κ] in
theorem posDef_posterior (hP : P.PosDef) (hR : 0 < R) {invW : Matrix ι ι ℝ}
    (hW : invW * information P H R = 1) :
    ((1 - byInformation H invW * H) * P).PosDef := by
  rw [one_sub_gain_mul hP.isUnit hR.ne' hW, eq_inv_of_mul_eq_one hW]
  exact (posDef_information hP hR).inv.smul hR

/-- What the gain takes off the covariance. -/
theorem posSemidef_taken (hP : P.PosDef) (hR : 0 < R) {invW : Matrix ι ι ℝ}
    (hW : invW * information P H R = 1) : (byInformation H invW * H * P).PosSemidef := by
  have hsymm : Pᵀ = P := by
    rw [← conjTranspose_eq_transpose_of_trivial]
    exact hP.isHermitian
  have hS : innovation P H R * (innovation P H R)⁻¹ = 1 :=
    mul_nonsing_inv _ ((isUnit_iff_isUnit_det _).mp (posDef_innovation hP.posSemidef hR).isUnit)
  have hform : byInformation H invW * H * P =
      R⁻¹ • ((P * Hᵀ) * (innovation P H R)⁻¹ * (P * Hᵀ)ᵀ) := by
    rw [← byInnovation_eq_byInformation hP.isUnit hR.ne' hS hW, byInnovation, transpose_mul,
      transpose_transpose, hsymm, Matrix.smul_mul, Matrix.smul_mul]
    simp only [Matrix.mul_assoc]
  rw [hform]
  exact (posSemidef_congr (posDef_innovation hP.posSemidef hR).inv.posSemidef (P * Hᵀ)).smul
    (inv_nonneg.mpr hR.le)

end

/-! ## The least cost -/

section

variable {ι κ : Type*} [Fintype ι] [Fintype κ] [DecidableEq ι]

/-- What is left of the measurements `z` at `y`, and how far `y` is from the prior. -/
noncomputable def cost (P : Matrix ι ι ℝ) (H : Matrix κ ι ℝ) (R : ℝ) (z : κ → ℝ) (y : ι → ℝ) :
    ℝ :=
  R⁻¹ * ((z - H *ᵥ y) ⬝ᵥ (z - H *ᵥ y)) + y ⬝ᵥ (P⁻¹ *ᵥ y)

variable {P : Matrix ι ι ℝ} {H : Matrix κ ι ℝ} {R : ℝ}

omit [DecidableEq ι] in
theorem dotProduct_mulVec_comm {A : Matrix ι ι ℝ} (hA : A.IsHermitian) (x y : ι → ℝ) :
    x ⬝ᵥ (A *ᵥ y) = y ⬝ᵥ (A *ᵥ x) := by
  have hsymm : Aᵀ = A := by
    rw [← conjTranspose_eq_transpose_of_trivial]
    exact hA
  rw [dotProduct_mulVec, ← mulVec_transpose, hsymm, dotProduct_comm]

/-- The cost as a square about the step the gain gives. -/
theorem cost_eq (hP : P.PosDef) (hR : 0 < R) {invW : Matrix ι ι ℝ}
    (hW : invW * information P H R = 1) (z : κ → ℝ) (y : ι → ℝ) :
    cost P H R z y = cost P H R z (byInformation H invW *ᵥ z) +
      R⁻¹ * ((y - byInformation H invW *ᵥ z) ⬝ᵥ
        (information P H R *ᵥ (y - byInformation H invW *ᵥ z))) := by
  have hscaled : ∀ v : ι → ℝ, v ⬝ᵥ (P⁻¹ *ᵥ v) = R⁻¹ * (v ⬝ᵥ ((R⁻¹ • P)⁻¹ *ᵥ v)) := by
    intro v
    have hinv : (R⁻¹ • P)⁻¹ = R • P⁻¹ := by
      refine inv_eq_left_inv ?_
      rw [smul_mul_smul_comm, mul_inv_cancel₀ hR.ne', one_smul]
      exact nonsing_inv_mul _ ((isUnit_iff_isUnit_det _).mp hP.isUnit)
    rw [hinv, smul_mulVec, dotProduct_smul, smul_eq_mul, ← mul_assoc, inv_mul_cancel₀ hR.ne',
      one_mul]
  -- with the information `W`, the cost is `R⁻¹ (v ⬝ W v - 2 v ⬝ Hᵀ z + z ⬝ z)`
  have hquadratic : ∀ v : ι → ℝ, cost P H R z v =
      R⁻¹ * (v ⬝ᵥ (information P H R *ᵥ v) - 2 * (v ⬝ᵥ (Hᵀ *ᵥ z)) + z ⬝ᵥ z) := by
    intro v
    have hcross : z ⬝ᵥ (H *ᵥ v) = v ⬝ᵥ (Hᵀ *ᵥ z) := by
      rw [dotProduct_mulVec, ← mulVec_transpose, dotProduct_comm]
    have hsquare : (H *ᵥ v) ⬝ᵥ (H *ᵥ v) = v ⬝ᵥ ((Hᵀ * H) *ᵥ v) := by
      rw [← mulVec_mulVec, dotProduct_mulVec v, vecMul_transpose]
    rw [cost, hscaled, information, add_mulVec, dotProduct_add, sub_dotProduct, dotProduct_sub,
      dotProduct_sub, hsquare, dotProduct_comm (H *ᵥ v) z, hcross]
    ring
  have hsymm := (posDef_information (H := H) hP hR).isHermitian
  have hbest : information P H R *ᵥ (byInformation H invW *ᵥ z) = Hᵀ *ᵥ z := by
    have hright : information P H R * invW = 1 := mul_eq_one_comm.mp hW
    rw [byInformation, mulVec_mulVec, ← Matrix.mul_assoc, hright, Matrix.one_mul]
  rw [hquadratic y, hquadratic (byInformation H invW *ᵥ z), mulVec_sub, dotProduct_sub,
    sub_dotProduct, sub_dotProduct, hbest,
    dotProduct_mulVec_comm hsymm (byInformation H invW *ᵥ z) y, hbest]
  ring

theorem cost_least (hP : P.PosDef) (hR : 0 < R) {invW : Matrix ι ι ℝ}
    (hW : invW * information P H R = 1) (z : κ → ℝ) {y : ι → ℝ}
    (hne : y ≠ byInformation H invW *ᵥ z) :
    cost P H R z (byInformation H invW *ᵥ z) < cost P H R z y := by
  have hpos := (posDef_information (H := H) hP hR).dotProduct_mulVec_pos (sub_ne_zero.mpr hne)
  rw [cost_eq hP hR hW z y]
  exact lt_add_of_pos_right _ (mul_pos (inv_pos.mpr hR) hpos)

end

end Gain
end RobotNav
