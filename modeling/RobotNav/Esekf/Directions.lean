/-
The direction of gravity over the reals: `S2` with its chart.

Two directions at right angles to the vector span the plane a correction lies in.  A
correction turns the vector about an axis in that plane, and the difference of two
vectors of the length reads the correction back.
-/
import Mathlib.Data.Matrix.ColumnRowPartitioned
import RobotNav.Esekf.ExpLog

namespace RobotNav

open Matrix

namespace S2

theorem length_eq : (length : ℝ) = 9809 / 1000 := by
  rw [length, lit_eq, lit_eq]
  norm_num

theorem length_pos : (0 : ℝ) < length := by
  rw [length_eq]
  norm_num

/-- The vector has the length and is not opposite to the first axis. -/
structure Regular (s : S2 ℝ) : Prop where
  length : s.vec ⬝ᵥ s.vec = S2.length * S2.length
  away : MTK.tolerance < s.vec 0 + S2.length

theorem create_regular : (create : S2 ℝ).Regular := by
  have hpos := length_pos
  constructor
  · rw [create, lit_eq, dotProduct, Fin.sum_univ_three]
    simp
  · show MTK.tolerance < S2.length + S2.length
    rw [MTK.tolerance_eq, length_eq]
    norm_num

theorem Regular.ne_zero {s : S2 ℝ} (h : s.Regular) : S2.length + s.vec 0 ≠ 0 := by
  have haway := h.away
  rw [MTK.tolerance_eq] at haway
  linarith

theorem Regular.sum {s : S2 ℝ} (h : s.Regular) :
    s.vec 1 * s.vec 1 + s.vec 2 * s.vec 2 = (S2.length - s.vec 0) * (S2.length + s.vec 0) := by
  have hlength := h.length
  rw [dotProduct, Fin.sum_univ_three] at hlength
  linear_combination hlength

theorem Regular.bx {s : S2 ℝ} (h : s.Regular) :
    s.bx = (S2.length : ℝ)⁻¹ • !![-s.vec 1, -s.vec 2;
      S2.length - s.vec 1 * s.vec 1 / (S2.length + s.vec 0),
        -s.vec 2 * s.vec 1 / (S2.length + s.vec 0);
      -s.vec 2 * s.vec 1 / (S2.length + s.vec 0),
        S2.length - s.vec 2 * s.vec 2 / (S2.length + s.vec 0)] := by
  rw [S2.bx, if_pos h.away]

theorem Regular.bx_transpose_mul {s : S2 ℝ} (h : s.Regular) : s.bxᵀ * s.bx = 1 := by
  have hne := h.ne_zero
  have hlen := length_pos.ne'
  have hsum := h.sum
  rw [h.bx]
  ext i j
  match i, j with
  | 0, 0 =>
    simp [mul_apply, Fin.sum_univ_three]
    field_simp
    linear_combination (s.vec 1 ^ 2) * hsum
  | 0, 1 =>
    simp [mul_apply, Fin.sum_univ_three]
    field_simp
    linear_combination (s.vec 1 * s.vec 2) * hsum
  | 1, 0 =>
    simp [mul_apply, Fin.sum_univ_three]
    field_simp
    linear_combination (s.vec 1 * s.vec 2) * hsum
  | 1, 1 =>
    simp [mul_apply, Fin.sum_univ_three]
    field_simp
    linear_combination (s.vec 2 ^ 2) * hsum

theorem Regular.bx_transpose_mulVec {s : S2 ℝ} (h : s.Regular) : s.bxᵀ *ᵥ s.vec = 0 := by
  have hne := h.ne_zero
  have hlen := length_pos.ne'
  have hsum := h.sum
  rw [h.bx]
  ext i
  fin_cases i
  · simp [mulVec, dotProduct, Fin.sum_univ_three]
    field_simp
    linear_combination (-s.vec 1) * hsum
  · simp [mulVec, dotProduct, Fin.sum_univ_three]
    field_simp
    linear_combination (-s.vec 2) * hsum

/-- Together with the vector the two directions span space. -/
theorem Regular.bx_mul_transpose {s : S2 ℝ} (h : s.Regular) :
    s.bx * s.bxᵀ + vecMulVec ((S2.length : ℝ)⁻¹ • s.vec) ((S2.length : ℝ)⁻¹ • s.vec) = 1 := by
  have hlen := length_pos.ne'
  have hcross : s.bxᵀ * replicateCol Unit ((S2.length : ℝ)⁻¹ • s.vec) = 0 := by
    ext i j
    show (s.bxᵀ *ᵥ ((S2.length : ℝ)⁻¹ • s.vec)) i = 0
    rw [mulVec_smul, h.bx_transpose_mulVec, smul_zero]
    rfl
  have hself : replicateRow Unit ((S2.length : ℝ)⁻¹ • s.vec) *
      replicateCol Unit ((S2.length : ℝ)⁻¹ • s.vec) = 1 := by
    ext i j
    show ((S2.length : ℝ)⁻¹ • s.vec) ⬝ᵥ ((S2.length : ℝ)⁻¹ • s.vec) = (1 : Matrix Unit Unit ℝ) i j
    rw [smul_dotProduct, dotProduct_smul, h.length, Subsingleton.elim i j, one_apply_eq,
      smul_eq_mul, smul_eq_mul]
    field_simp
  have hcross' : replicateRow Unit ((S2.length : ℝ)⁻¹ • s.vec) * s.bx = 0 := by
    rw [← transpose_transpose s.bx, ← transpose_replicateCol, ← transpose_mul, hcross,
      transpose_zero]
  have hrows : fromRows s.bxᵀ (replicateRow Unit ((S2.length : ℝ)⁻¹ • s.vec)) *
      fromCols s.bx (replicateCol Unit ((S2.length : ℝ)⁻¹ • s.vec)) = 1 := by
    rw [fromRows_mul_fromCols, h.bx_transpose_mul, hcross, hcross', hself, fromBlocks_one]
  have hequiv : Fin 3 ≃ Fin 2 ⊕ Unit := Fintype.equivOfCardEq rfl
  rw [← fromCols_mul_fromRows_eq_one_comm hequiv, fromCols_mul_fromRows] at hrows
  rw [← hrows, vecMulVec_eq Unit]

/-- What is at right angles to the vector is in the plane. -/
theorem Regular.bx_mulVec_transpose {s : S2 ℝ} (h : s.Regular) {u : Fin 3 → ℝ}
    (hu : s.vec ⬝ᵥ u = 0) : s.bx *ᵥ (s.bxᵀ *ᵥ u) = u := by
  have hsum := congrArg (· *ᵥ u) h.bx_mul_transpose
  simp only [add_mulVec, one_mulVec, vecMulVec_mulVec, smul_dotProduct, hu, smul_zero] at hsum
  rw [mulVec_mulVec]
  simpa using hsum

theorem Regular.dotProduct_bx {s : S2 ℝ} (h : s.Regular) (δ : Fin 2 → ℝ) :
    s.vec ⬝ᵥ (s.bx *ᵥ δ) = 0 := by
  rw [dotProduct_mulVec, ← mulVec_transpose, h.bx_transpose_mulVec, zero_dotProduct]

theorem Regular.angleOf_bx {s : S2 ℝ} (h : s.Regular) (δ : Fin 2 → ℝ) :
    angleOf (s.bx *ᵥ δ) = angleOf δ := by
  rw [angleOf, angleOf, dotProduct_mulVec, vecMul_mulVec, h.bx_transpose_mul, vecMul_one]

/-! ## Corrections of the direction -/

theorem oplus_vec {s : S2 ℝ} {w : Fin 3 → ℝ} (hwide : SO3.Wide w) :
    (s.oplus .real w 1).vec = rodrigues w *ᵥ s.vec := by
  rw [← SO3.exp_toRotationMatrix hwide]
  rfl

theorem oplus_zero (s : S2 ℝ) (scale : ℝ) : s.oplus .real 0 scale = s := by
  rw [oplus, SO3.ofExp_zero, SO3.identity_toRotationMatrix, one_mulVec]

theorem boxplus_zero (s : S2 ℝ) : s.boxplus .real 0 1 = s := by
  rw [boxplus, mulVec_zero, oplus_zero]

/-- A correction turns the vector in the plane of the two. -/
theorem Regular.boxplus_vec {s : S2 ℝ} (h : s.Regular) {δ : Fin 2 → ℝ}
    (hwide : SO3.Wide (s.bx *ᵥ δ)) :
    (s.boxplus .real δ 1).vec = Real.cos (angleOf δ) • s.vec +
      (Real.sin (angleOf δ) / angleOf δ) • crossProduct (s.bx *ᵥ δ) s.vec := by
  have hright : (s.bx *ᵥ δ) ⬝ᵥ s.vec = 0 := by rw [dotProduct_comm, h.dotProduct_bx]
  rw [boxplus, oplus_vec hwide, rodrigues_mulVec_of_dotProduct hright, h.angleOf_bx]

theorem Regular.boxplus_length {s : S2 ℝ} (h : s.Regular) {δ : Fin 2 → ℝ}
    (hwide : SO3.Wide (s.bx *ᵥ δ)) :
    (s.boxplus .real δ 1).vec ⬝ᵥ (s.boxplus .real δ 1).vec = S2.length * S2.length := by
  have horth := (mem_specialOrthogonalGroup_iff.mp (rodrigues_mem (s.bx *ᵥ δ))).1
  have hone : (rodrigues (s.bx *ᵥ δ))ᵀ * rodrigues (s.bx *ᵥ δ) = 1 :=
    (mem_orthogonalGroup_iff' _ _).mp horth
  rw [boxplus, oplus_vec hwide, dotProduct_mulVec, vecMul_mulVec, hone, vecMul_one, h.length]

section

variable {s : S2 ℝ} {δ : Fin 2 → ℝ}

theorem Regular.cross_boxplus (h : s.Regular) (hwide : SO3.Wide (s.bx *ᵥ δ)) :
    crossProduct s.vec (s.boxplus .real δ 1).vec =
      (S2.length * S2.length * (Real.sin (angleOf δ) / angleOf δ)) • (s.bx *ᵥ δ) := by
  rw [h.boxplus_vec hwide, map_add, map_smul, map_smul, cross_self, cross_cross_eq_smul_sub_smul',
    h.length, dotProduct_comm (s.bx *ᵥ δ), h.dotProduct_bx]
  module

theorem Regular.dotProduct_boxplus (h : s.Regular) (hwide : SO3.Wide (s.bx *ᵥ δ)) :
    (s.boxplus .real δ 1).vec ⬝ᵥ s.vec =
      S2.length * S2.length * Real.cos (angleOf δ) := by
  rw [h.boxplus_vec hwide, add_dotProduct, smul_dotProduct, smul_dotProduct, h.length,
    dotProduct_comm _ s.vec, dot_cross_self]
  simp only [smul_eq_mul]
  ring

/-- From the first axis, a correction short of a right angle leads to a direction that is
neither at right angles to the axis nor opposite to it. -/
theorem create_boxplus (hwide : SO3.Wide ((create : S2 ℝ).bx *ᵥ δ))
    (hangle : angleOf δ < Real.pi / 2) :
    ((create : S2 ℝ).boxplus .real δ 1).Regular ∧
      ((create : S2 ℝ).boxplus .real δ 1).vec ⬝ᵥ (create : S2 ℝ).vec ≠ 0 := by
  have hlen := length_pos
  have hcos : 0 < Real.cos (angleOf δ) :=
    Real.cos_pos_of_mem_Ioo ⟨by linarith [angleOf_nonneg δ, Real.pi_pos], hangle⟩
  have hdot := create_regular.dotProduct_boxplus hwide
  have hpos : 0 < S2.length * S2.length * Real.cos (angleOf δ) := by positivity
  refine ⟨⟨create_regular.boxplus_length hwide, ?_⟩, ?_⟩
  · have hfirst : ((create : S2 ℝ).boxplus .real δ 1).vec ⬝ᵥ (create : S2 ℝ).vec =
        ((create : S2 ℝ).boxplus .real δ 1).vec 0 * S2.length := by
      rw [create, dotProduct, Fin.sum_univ_three, lit_eq]
      simp
    rw [hfirst] at hdot
    have hahead : 0 < ((create : S2 ℝ).boxplus .real δ 1).vec 0 := by
      rw [← hdot] at hpos
      exact pos_of_mul_pos_left hpos hlen.le
    have htol : (MTK.tolerance : ℝ) < S2.length := by
      rw [MTK.tolerance_eq, length_eq]
      norm_num
    linarith
  · rw [hdot]
    exact hpos.ne'

theorem angleOf_hat (s y : S2 ℝ) :
    angleOf (MTK.hat y.vec *ᵥ s.vec) = angleOf (crossProduct s.vec y.vec) := by
  rw [hat_eq, crossMatrix_mulVec, ← cross_anticomm, angleOf_neg]

/-- The difference reads a correction back, short of half a turn. -/
theorem Regular.boxminus_boxplus (h : s.Regular)
    (hδ : δ = 0 ∨ SO3.Wide (s.bx *ᵥ δ) ∧ angleOf δ < Real.pi ∧
      MTK.tolerance ≤ S2.length * S2.length * Real.sin (angleOf δ)) :
    (s.boxplus .real δ 1).boxminus .real s = δ := by
  rcases hδ with rfl | ⟨hwide, hlt, htol⟩
  · have hself : CMath.real.norm (MTK.hat s.vec *ᵥ s.vec) = 0 := by
      rw [norm_eq_angleOf, angleOf_hat, cross_self, angleOf_zero]
    have hnone : CMath.real.atan2 0 (s.vec ⬝ᵥ s.vec) = 0 := by
      show Complex.arg ⟨s.vec ⬝ᵥ s.vec, 0⟩ = 0
      rw [h.length]
      exact Complex.arg_ofReal_of_nonneg (mul_self_nonneg _)
    have htolerance : (0 : ℝ) < MTK.tolerance := by rw [MTK.tolerance_eq]; norm_num
    have hnone_lt : ¬ MTK.tolerance < fabs (0 : ℝ) := by
      rw [fabs_eq_abs, abs_zero, MTK.tolerance_eq]
      norm_num
    rw [boxplus_zero, boxminus]
    simp only [hself, hnone]
    rw [if_pos htolerance, if_neg hnone_lt, lit_eq, Int.cast_zero]
    ext i
    fin_cases i <;> rfl
  · have hpos : 0 < angleOf δ := by
      rw [← h.angleOf_bx]
      exact hwide.pos
    have hsin : 0 < Real.sin (angleOf δ) := Real.sin_pos_of_pos_of_lt_pi hpos hlt
    have hsquare : (0 : ℝ) < S2.length * S2.length := mul_pos length_pos length_pos
    have hvSin : CMath.real.norm (MTK.hat (s.boxplus .real δ 1).vec *ᵥ s.vec) =
        S2.length * S2.length * Real.sin (angleOf δ) := by
      rw [norm_eq_angleOf, angleOf_hat, h.cross_boxplus hwide, angleOf_smul, h.angleOf_bx,
        abs_of_pos (mul_pos hsquare (div_pos hsin hpos))]
      field_simp
    have htheta : CMath.real.atan2 (S2.length * S2.length * Real.sin (angleOf δ))
        (S2.length * S2.length * Real.cos (angleOf δ)) = angleOf δ := by
      have hprincipal : angleOf δ ∈ Set.Ioc (-Real.pi) Real.pi := ⟨by linarith, hlt.le⟩
      have hpolar := Complex.arg_mul_cos_add_sin_mul_I hsquare hprincipal
      refine Eq.trans (congrArg Complex.arg ?_) hpolar
      apply Complex.ext <;> simp [Complex.cos_ofReal_re, Complex.sin_ofReal_re]
    rw [boxminus]
    simp only [hvSin, h.dotProduct_boxplus hwide, htheta]
    rw [if_neg (not_lt.mpr htol), ← mulVec_mulVec, hat_eq, crossMatrix_mulVec,
      h.cross_boxplus hwide, mulVec_smul, mulVec_mulVec, h.bx_transpose_mul, one_mulVec, smul_smul]
    have hone : angleOf δ / (S2.length * S2.length * Real.sin (angleOf δ)) *
        (S2.length * S2.length * (Real.sin (angleOf δ) / angleOf δ)) = 1 := by
      have hlen := length_pos.ne'
      field_simp
    rw [hone, one_smul]

theorem Regular.boxminus_self (h : s.Regular) : s.boxminus .real s = 0 := by
  have hback : (s.boxplus .real 0 1).boxminus .real s = 0 := h.boxminus_boxplus (Or.inl rfl)
  rwa [boxplus_zero] at hback

theorem Regular.angleOf_bx_transpose (h : s.Regular) {u : Fin 3 → ℝ} (hu : s.vec ⬝ᵥ u = 0) :
    angleOf (s.bxᵀ *ᵥ u) = angleOf u := by
  rw [← h.angleOf_bx, h.bx_mulVec_transpose hu]

/-- A difference is always short of half a turn: what stands for opposite directions is a
little less than π. -/
theorem Regular.boxminus_angle_lt (h : s.Regular) (y : S2 ℝ) :
    angleOf (y.boxminus .real s) < Real.pi := by
  have hpi := Real.pi_gt_d20
  rw [boxminus]
  simp only [norm_eq_angleOf, angleOf_hat]
  split_ifs with hsmall hopposite
  · have hangle : angleOf (![ratio 31415926 10000000, lit 0] : Fin 2 → ℝ) =
        31415926 / 10000000 := by
      rw [angleOf, dotProduct, Fin.sum_univ_two]
      simp only [cons_val_zero, cons_val_one, ratio_eq, lit_eq, Int.cast_zero, mul_zero, add_zero]
      rw [Real.sqrt_mul_self (by norm_num)]
      norm_num
    rw [hangle]
    linarith
  · have hnone : (![lit 0, lit 0] : Fin 2 → ℝ) = 0 := by
      rw [lit_eq, Int.cast_zero]
      ext i
      fin_cases i <;> rfl
    rw [hnone, angleOf_zero]
    exact Real.pi_pos
  · set n := angleOf (crossProduct s.vec y.vec) with hn
    have hnpos : 0 < n := by
      rw [MTK.tolerance_eq, not_lt] at hsmall
      linarith
    have hnonneg : 0 ≤ CMath.real.atan2 n (y.vec ⬝ᵥ s.vec) := Complex.arg_nonneg_iff.mpr hnpos.le
    have hlt : CMath.real.atan2 n (y.vec ⬝ᵥ s.vec) < Real.pi :=
      Complex.arg_lt_pi_iff.mpr (Or.inr hnpos.ne')
    rw [← mulVec_mulVec, hat_eq, crossMatrix_mulVec, angleOf_smul,
      h.angleOf_bx_transpose (dot_self_cross _ _), ← hn, abs_of_nonneg (div_nonneg hnonneg hnpos.le),
      div_mul_cancel₀ _ hnpos.ne']
    exact hlt

/-- The difference leads back to the direction. -/
theorem Regular.boxplus_boxminus (h : s.Regular) {y : S2 ℝ}
    (hy : y.vec ⬝ᵥ y.vec = S2.length * S2.length)
    (htol : MTK.tolerance ≤ angleOf (crossProduct s.vec y.vec))
    (hwide : SO3.Wide (s.bx *ᵥ y.boxminus .real s)) :
    s.boxplus .real (y.boxminus .real s) 1 = y := by
  set n := angleOf (crossProduct s.vec y.vec) with hn
  set θ := Complex.arg ⟨y.vec ⬝ᵥ s.vec, n⟩ with hθ
  have hnpos : 0 < n := by
    rw [MTK.tolerance_eq] at htol
    linarith
  have hsquare : (0 : ℝ) < S2.length * S2.length := mul_pos length_pos length_pos
  have hnorm : ‖(⟨y.vec ⬝ᵥ s.vec, n⟩ : ℂ)‖ = S2.length * S2.length := by
    have hlagrange : (y.vec ⬝ᵥ s.vec) * (y.vec ⬝ᵥ s.vec) + n * n =
        S2.length * S2.length * (S2.length * S2.length) := by
      rw [hn, angleOf_mul_self, cross_dot_cross, h.length, hy, dotProduct_comm s.vec y.vec]
      ring
    rw [Complex.norm_def, Complex.normSq_mk, hlagrange, Real.sqrt_mul_self hsquare.le]
  have hcos : S2.length * S2.length * Real.cos θ = y.vec ⬝ᵥ s.vec := by
    rw [← hnorm, hθ, Complex.norm_mul_cos_arg]
  have hsin : S2.length * S2.length * Real.sin θ = n := by
    rw [← hnorm, hθ, Complex.norm_mul_sin_arg]
  have hθnonneg : 0 ≤ θ := Complex.arg_nonneg_iff.mpr hnpos.le
  have hright : s.vec ⬝ᵥ crossProduct s.vec y.vec = 0 := dot_self_cross _ _
  have hdiff : y.boxminus .real s = (θ / n) • (s.bxᵀ *ᵥ crossProduct s.vec y.vec) := by
    rw [boxminus]
    simp only [norm_eq_angleOf, angleOf_hat]
    rw [if_neg (not_lt.mpr htol), ← mulVec_mulVec, hat_eq, crossMatrix_mulVec]
    rfl
  have hback : s.bx *ᵥ y.boxminus .real s = (θ / n) • crossProduct s.vec y.vec := by
    rw [hdiff, mulVec_smul, h.bx_mulVec_transpose hright]
  have hangle : angleOf (y.boxminus .real s) = θ := by
    rw [hdiff, angleOf_smul, h.angleOf_bx_transpose hright, ← hn,
      abs_of_nonneg (div_nonneg hθnonneg hnpos.le), div_mul_cancel₀ _ hnpos.ne']
  have hθne : θ ≠ 0 := by
    rw [← hangle, ← h.angleOf_bx]
    exact hwide.pos.ne'
  have hturned : (s.boxplus .real (y.boxminus .real s) 1).vec = y.vec := by
    rw [h.boxplus_vec hwide, hangle, hback, map_smul, LinearMap.smul_apply,
      cross_cross_eq_smul_sub_smul, h.length, ← hcos, smul_smul]
    have hcoeff : Real.sin θ / θ * (θ / n) = (S2.length * S2.length)⁻¹ := by
      have hlen := length_pos.ne'
      have hsinne : Real.sin θ ≠ 0 := by
        intro hzero
        rw [hzero, mul_zero] at hsin
        exact hnpos.ne hsin
      rw [← hsin]
      field_simp
    rw [hcoeff, smul_sub, smul_smul, smul_smul, inv_mul_cancel₀ hsquare.ne', one_smul,
      ← mul_assoc, inv_mul_cancel₀ hsquare.ne', one_mul]
    module
  cases y
  exact congrArg S2.mk hturned

/-! ## The blocks of the covariance -/

theorem nxYy_mul (s : S2 ℝ) (M : Matrix (Fin 3) (Fin 2) ℝ) :
    s.nxYy * M = (S2.length * S2.length : ℝ)⁻¹ • (s.bxᵀ * (crossMatrix s.vec * M)) := by
  rw [nxYy, Matrix.smul_mul, hat_eq, Matrix.mul_assoc, lit_eq, Int.cast_one, div_div,
    one_div]

/-- Without a correction the block is the identity. -/
theorem Regular.nxYy_mul_mx_zero (h : s.Regular) : s.nxYy * s.mx .real 0 = 1 := by
  have htol : (0 : ℝ) < MTK.tolerance := by rw [MTK.tolerance_eq]; norm_num
  have hmx : s.mx .real 0 = -(crossMatrix s.vec * s.bx) := by
    rw [mx, norm_eq_angleOf, angleOf_zero, if_pos htol, hat_eq]
  have hleft : s.bxᵀ * vecMulVec s.vec s.vec = 0 := by
    rw [mul_vecMulVec, h.bx_transpose_mulVec, zero_vecMulVec]
  rw [nxYy_mul, hmx, Matrix.mul_neg, ← Matrix.mul_assoc, crossMatrix_mul_self, Matrix.mul_neg,
    ← Matrix.mul_assoc, Matrix.mul_sub, hleft, zero_sub, Matrix.mul_smul, Matrix.mul_one,
    Matrix.neg_mul, neg_neg, Matrix.smul_mul, h.bx_transpose_mul, h.length, smul_smul,
    inv_mul_cancel₀ (mul_pos length_pos length_pos).ne', one_smul]

theorem aMatrix_transpose_mulVec_self (w : Fin 3 → ℝ) : (MTK.aMatrix .real w)ᵀ *ᵥ w = w := by
  rw [aMatrix_eq]
  split_ifs
  · rw [transpose_one, one_mulVec]
  · rw [axisTurn_transpose, axisTurn_mulVec_self]

/-- The block between the direction and the corrected one, along the correction: what the
plane of one is in the plane of the other, shortened by the cosine of the correction. -/
theorem Regular.nxYy_mul_mx (h : s.Regular) (hwide : SO3.Wide (s.bx *ᵥ δ)) :
    ((s.boxplus .real δ 1).nxYy * s.mx .real δ) *ᵥ δ =
      Real.cos (angleOf δ) • ((s.boxplus .real δ 1).bxᵀ *ᵥ (s.bx *ᵥ δ)) := by
  have hsquare := (mul_pos length_pos length_pos : (0 : ℝ) < S2.length * S2.length)
  have hle : ¬ angleOf δ < MTK.tolerance := by
    rw [← h.angleOf_bx, MTK.tolerance_eq]
    linarith [hwide.le]
  have hmx : s.mx .real δ *ᵥ δ = crossProduct (s.bx *ᵥ δ) s.vec := by
    rw [mx, norm_eq_angleOf, if_neg hle]
    simp only [SO3.ofExp_intHalf, SO3.identity_toRotationMatrix, Matrix.one_mul]
    rw [neg_mulVec, ← mulVec_mulVec, ← mulVec_mulVec, aMatrix_transpose_mulVec_self, hat_eq,
      crossMatrix_mulVec, cross_anticomm]
  have hflat : (s.bx *ᵥ δ) ⬝ᵥ (s.boxplus .real δ 1).vec = 0 := by
    rw [h.boxplus_vec hwide, dotProduct_add, dotProduct_smul, dotProduct_smul, dot_self_cross,
      dotProduct_comm, h.dotProduct_bx]
    simp
  rw [nxYy_mul, smul_mulVec, ← mulVec_mulVec, ← mulVec_mulVec, hmx, crossMatrix_mulVec,
    cross_cross_eq_smul_sub_smul', h.dotProduct_boxplus hwide, hflat, zero_smul, sub_zero,
    mulVec_smul, smul_smul, ← mul_assoc, inv_mul_cancel₀ hsquare.ne', one_mul]

/-- Both branches of `S2_Mx` are one. -/
theorem Regular.mx_eq (h : s.Regular) :
    s.mx .real δ = -(crossMatrix s.vec * ((MTK.aMatrix .real (s.bx *ᵥ δ))ᵀ * s.bx)) := by
  rw [mx, norm_eq_angleOf, aMatrix_eq, norm_eq_angleOf, h.angleOf_bx, hat_eq]
  split_ifs with hsmall
  · rw [transpose_one, Matrix.one_mul]
  · simp only [SO3.ofExp_intHalf, SO3.identity_toRotationMatrix, Matrix.one_mul]
    rw [aMatrix_eq, norm_eq_angleOf, h.angleOf_bx, if_neg hsmall]
    simp only [Matrix.mul_assoc]

/-- The derivative of the exponential takes no vector of the plane of the correction out of
the plane, as long as the correction is under half a turn. -/
theorem eq_zero_of_aMatrix_mulVec {u v w : Fin 3 → ℝ} (hangle : angleOf u < Real.pi)
    (huw : w ⬝ᵥ u = 0) (hvw : w ⬝ᵥ v = 0) {k : ℝ}
    (hturned : (MTK.aMatrix .real u)ᵀ *ᵥ v = k • w) : v = 0 := by
  have hzero : v ⬝ᵥ ((MTK.aMatrix .real u)ᵀ *ᵥ v) = 0 := by
    rw [hturned, dotProduct_smul, dotProduct_comm, hvw, smul_zero]
  rw [aMatrix_eq, norm_eq_angleOf] at hzero hturned
  split_ifs at hzero hturned with hsmall
  · rw [transpose_one, one_mulVec] at hzero
    exact dotProduct_self_eq_zero.mp hzero
  · have hpos : 0 < angleOf u := by
      rw [MTK.tolerance_eq] at hsmall
      linarith
    have haxis : u ⬝ᵥ v = 0 := by
      have hdot : u ⬝ᵥ ((axisTurn ((1 - CMath.real.cos (angleOf u)) / squaredNorm u)
          ((1 - CMath.real.sin (angleOf u) / angleOf u) / squaredNorm u) u)ᵀ *ᵥ v) = 0 := by
        rw [hturned, dotProduct_smul, dotProduct_comm, huw, smul_zero]
      rwa [dotProduct_mulVec, vecMul_transpose, axisTurn_mulVec_self] at hdot
    have hsquare : u ⬝ᵥ u = angleOf u * angleOf u := (angleOf_mul_self u).symm
    have hsin := Real.sin_pos_of_pos_of_lt_pi hpos hangle
    rw [axisTurn_transpose, axisTurn, add_mulVec, add_mulVec, one_mulVec, smul_mulVec, smul_mulVec,
      ← mulVec_mulVec, crossMatrix_mulVec, crossMatrix_mulVec, dotProduct_add, dotProduct_add,
      dotProduct_smul, dotProduct_smul, dot_cross_self, cross_cross_eq_smul_sub_smul', haxis,
      zero_smul, zero_sub, smul_zero, add_zero, dotProduct_neg, dotProduct_smul, squaredNorm,
      hsquare] at hzero
    have hpart : CMath.real.sin (angleOf u) / angleOf u * (v ⬝ᵥ v) = 0 := by
      rw [← hzero]
      simp only [smul_eq_mul]
      field_simp
      ring
    rcases mul_eq_zero.mp hpart with hnone | hnone
    · exact absurd hnone (div_pos hsin hpos).ne'
    · exact dotProduct_self_eq_zero.mp hnone

/-- The block is invertible unless the two directions are at right angles. -/
theorem Regular.isUnit_nxYy_mul_mx (h : s.Regular) {y : S2 ℝ} (hy : y.Regular)
    (hne : y.vec ⬝ᵥ s.vec ≠ 0) (hangle : angleOf δ < Real.pi) :
    IsUnit (y.nxYy * s.mx .real δ) := by
  rw [← mulVec_injective_iff_isUnit]
  intro v w hvw
  rw [← sub_eq_zero]
  have hzero : (y.nxYy * s.mx .real δ) *ᵥ (v - w) = 0 := by
    rw [mulVec_sub, sub_eq_zero]
    exact hvw
  set turned := (MTK.aMatrix .real (s.bx *ᵥ δ))ᵀ *ᵥ (s.bx *ᵥ (v - w)) with hturned
  have hsquare := (mul_pos length_pos length_pos : (0 : ℝ) < S2.length * S2.length)
  have hplane : y.bxᵀ *ᵥ crossProduct y.vec (crossProduct s.vec turned) = 0 := by
    rw [nxYy_mul, h.mx_eq, smul_mulVec, smul_eq_zero_iff_right (inv_pos.mpr hsquare).ne',
      Matrix.mul_neg, Matrix.mul_neg, neg_mulVec, neg_eq_zero] at hzero
    rw [hturned, ← hzero]
    simp only [mulVec_mulVec, ← crossMatrix_mulVec]
  have hcross : crossProduct y.vec (crossProduct s.vec turned) = 0 := by
    rw [← hy.bx_mulVec_transpose (dot_self_cross _ _), hplane, mulVec_zero]
  rw [cross_cross_eq_smul_sub_smul', sub_eq_zero] at hcross
  have hparallel : turned = ((y.vec ⬝ᵥ s.vec)⁻¹ * (y.vec ⬝ᵥ turned)) • s.vec := by
    rw [mul_smul, hcross, smul_smul, dotProduct_comm s.vec, inv_mul_cancel₀ hne, one_smul]
  have hflat : s.bx *ᵥ (v - w) = 0 :=
    eq_zero_of_aMatrix_mulVec (by rw [h.angleOf_bx]; exact hangle) (h.dotProduct_bx δ)
      (h.dotProduct_bx _) hparallel
  rw [← one_mulVec (v - w), ← h.bx_transpose_mul, ← mulVec_mulVec, hflat, mulVec_zero]

/-! ## The length -/

/-- A turn may shorten the vector, by the little the quaternion is short of one. -/
theorem oplus_length (s : S2 ℝ) (w : Fin 3 → ℝ) (scale : ℝ) :
    (1 - 1 / 2 ^ 64) * (s.vec ⬝ᵥ s.vec) ≤
        (s.oplus .real w scale).vec ⬝ᵥ (s.oplus .real w scale).vec ∧
      (s.oplus .real w scale).vec ⬝ᵥ (s.oplus .real w scale).vec ≤ s.vec ⬝ᵥ s.vec := by
  set q := SO3.ofExp .real w (scale / lit 2) with hq
  obtain ⟨hlow, hhigh⟩ := SO3.ofExp_normSq w (scale / lit 2)
  rw [← hq] at hlow hhigh
  have hvec : q.vec ⬝ᵥ q.vec ≤ 1 := by
    rw [SO3.normSq, squaredNorm] at hhigh
    linarith [mul_self_nonneg q.w]
  have hnonneg := dotProduct_self_nonneg_real (crossProduct q.vec s.vec)
  -- by Lagrange's identity the cross product is no longer than the vector
  have hcross : crossProduct q.vec s.vec ⬝ᵥ crossProduct q.vec s.vec ≤ s.vec ⬝ᵥ s.vec := by
    have hpart := mul_le_mul_of_nonneg_right hvec (dotProduct_self_nonneg_real s.vec)
    rw [cross_dot_cross, dotProduct_comm s.vec q.vec]
    linarith [mul_self_nonneg (q.vec ⬝ᵥ s.vec)]
  have hshort : (1 + 1) + (1 + 1) - (q.w + q.w) * (q.w + q.w) -
      (q.vec ⬝ᵥ q.vec) * ((1 + 1) * (1 + 1)) = 4 * (1 - q.normSq) := by
    rw [SO3.normSq, squaredNorm]
    ring
  have hform : (s.oplus .real w scale).vec ⬝ᵥ (s.oplus .real w scale).vec = s.vec ⬝ᵥ s.vec -
      4 * (1 - q.normSq) * (crossProduct q.vec s.vec ⬝ᵥ crossProduct q.vec s.vec) := by
    rw [← hshort, ← axisTurn_dotProduct, ← toRotationMatrix_eq]
    rfl
  have hloss : 4 * (1 - q.normSq) *
      (crossProduct q.vec s.vec ⬝ᵥ crossProduct q.vec s.vec) ≤
        1 / 2 ^ 64 * (s.vec ⬝ᵥ s.vec) := by
    apply mul_le_mul _ hcross hnonneg (by norm_num)
    linarith
  rw [hform]
  constructor
  · linarith
  · have hsmall : 0 ≤ 4 * (1 - q.normSq) := by linarith
    linarith [mul_nonneg hsmall hnonneg]

end

end S2

end RobotNav
