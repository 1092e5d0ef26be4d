/-
Matrices that are a polynomial in the cross product with one vector.

The matrix of the cross product with `v` satisfies `X ^ 3 = - (v ⬝ v) X`, so every
polynomial in it is `1 + a X + b X ^ 2` up to a factor: a rotation about `v` is one, the
matrix of a quaternion with the vector `v` is one, and so is the derivative of the
exponential map at `v`.
-/
import Mathlib.LinearAlgebra.CrossProduct
import Mathlib.LinearAlgebra.Matrix.Determinant.Basic
import Mathlib.Tactic.LinearCombination
import Mathlib.Tactic.NoncommRing
import RobotNav.Library.Rigid

namespace RobotNav

open Matrix

variable {K : Type*} [CommRing K]

/-- `crossMatrix v *ᵥ w` is the cross product of `v` and `w`. -/
def crossMatrix (v : Fin 3 → K) : Matrix (Fin 3) (Fin 3) K :=
  !![0, -v 2, v 1; v 2, 0, -v 0; -v 1, v 0, 0]

theorem crossMatrix_mulVec (v w : Fin 3 → K) : crossMatrix v *ᵥ w = crossProduct v w := by
  rw [cross_apply]
  ext i
  match i with
  | 0 => simp [crossMatrix, mulVec, dotProduct, Fin.sum_univ_three]; ring
  | 1 => simp [crossMatrix, mulVec, dotProduct, Fin.sum_univ_three]; ring
  | 2 => simp [crossMatrix, mulVec, dotProduct, Fin.sum_univ_three]; ring

@[simp] theorem crossMatrix_zero : crossMatrix (0 : Fin 3 → K) = 0 := by
  ext i j
  fin_cases i <;> fin_cases j <;> simp [crossMatrix]

theorem crossMatrix_smul (s : K) (v : Fin 3 → K) : crossMatrix (s • v) = s • crossMatrix v := by
  ext i j
  fin_cases i <;> fin_cases j <;> simp [crossMatrix]

theorem crossMatrix_transpose (v : Fin 3 → K) : (crossMatrix v)ᵀ = -crossMatrix v := by
  ext i j
  fin_cases i <;> fin_cases j <;> simp [crossMatrix]

theorem crossMatrix_mul_self (v : Fin 3 → K) :
    crossMatrix v * crossMatrix v = vecMulVec v v - (v ⬝ᵥ v) • 1 := by
  ext i j
  fin_cases i <;> fin_cases j <;>
    simp [crossMatrix, mul_apply, vecMulVec_apply, dotProduct, Fin.sum_univ_three] <;> ring

theorem crossMatrix_mulVec_self (v : Fin 3 → K) : crossMatrix v *ᵥ v = 0 := by
  rw [crossMatrix_mulVec, cross_self]

theorem crossMatrix_mul_mul_self (v : Fin 3 → K) :
    crossMatrix v * (crossMatrix v * crossMatrix v) = -(v ⬝ᵥ v) • crossMatrix v := by
  rw [crossMatrix_mul_self, Matrix.mul_sub, mul_vecMulVec, crossMatrix_mulVec_self,
    zero_vecMulVec, zero_sub, Matrix.mul_smul, Matrix.mul_one, neg_smul]

/-! ## Polynomials in the cross product -/

def axisTurn (a b : K) (v : Fin 3 → K) : Matrix (Fin 3) (Fin 3) K :=
  1 + a • crossMatrix v + b • (crossMatrix v * crossMatrix v)

@[simp] theorem axisTurn_zero_zero (v : Fin 3 → K) : axisTurn 0 0 v = 1 := by
  rw [axisTurn, zero_smul, zero_smul, add_zero, add_zero]

@[simp] theorem axisTurn_zero_vec (a b : K) : axisTurn a b 0 = 1 := by
  rw [axisTurn, crossMatrix_zero, smul_zero, Matrix.mul_zero, smul_zero, add_zero, add_zero]

theorem axisTurn_smul (a b s : K) (v : Fin 3 → K) :
    axisTurn a b (s • v) = axisTurn (s * a) (s * s * b) v := by
  rw [axisTurn, axisTurn, crossMatrix_smul, smul_mul_smul_comm, smul_smul, smul_smul,
    mul_comm a s, mul_comm b (s * s)]

theorem axisTurn_transpose (a b : K) (v : Fin 3 → K) :
    (axisTurn a b v)ᵀ = axisTurn (-a) b v := by
  rw [axisTurn, axisTurn, transpose_add, transpose_add, transpose_one, transpose_smul,
    transpose_smul, transpose_mul, crossMatrix_transpose, neg_mul_neg, smul_neg, neg_smul]

theorem axisTurn_neg (a b : K) (v : Fin 3 → K) : axisTurn a b (-v) = axisTurn (-a) b v := by
  have hscale := axisTurn_smul a b (-1) v
  rw [neg_one_smul] at hscale
  rw [hscale, neg_one_mul, neg_mul_neg, one_mul, one_mul]

/-- Two about one axis are one about it. -/
theorem axisTurn_mul (a b a' b' : K) (v : Fin 3 → K) :
    axisTurn a b v * axisTurn a' b' v =
      axisTurn (a + a' - (v ⬝ᵥ v) * (a * b' + a' * b))
        (b + b' + a * a' - (v ⬝ᵥ v) * (b * b')) v := by
  set X := crossMatrix v with hX
  have hthree : X * (X * X) = -(v ⬝ᵥ v) • X := crossMatrix_mul_mul_self v
  have hfour : X * X * (X * X) = -(v ⬝ᵥ v) • (X * X) := by
    rw [Matrix.mul_assoc, hthree, Matrix.mul_smul]
  have hthree' : X * X * X = -(v ⬝ᵥ v) • X := by rw [Matrix.mul_assoc, hthree]
  rw [axisTurn, axisTurn, axisTurn, ← hX]
  simp only [Matrix.add_mul, Matrix.mul_add, Matrix.one_mul, Matrix.mul_one, smul_mul_smul_comm,
    hthree, hthree', hfour, smul_smul]
  module

theorem axisTurn_mul_transpose {a b : K} {v : Fin 3 → K}
    (h : b + b - a * a - (v ⬝ᵥ v) * (b * b) = 0) : axisTurn a b v * (axisTurn a b v)ᵀ = 1 := by
  have hodd : a + -a - (v ⬝ᵥ v) * (a * b + -a * b) = 0 := by ring
  have heven : b + b + a * -a - (v ⬝ᵥ v) * (b * b) = 0 := by linear_combination h
  rw [axisTurn_transpose, axisTurn_mul, hodd, heven, axisTurn_zero_zero]

theorem axisTurn_det (a b : K) (v : Fin 3 → K) :
    (axisTurn a b v).det = (1 - (v ⬝ᵥ v) * b) ^ 2 + (v ⬝ᵥ v) * a ^ 2 := by
  rw [axisTurn, crossMatrix_mul_self, det_fin_three]
  simp [crossMatrix, vecMulVec_apply, dotProduct, Fin.sum_univ_three, one_apply]
  ring

/-- The axis stays. -/
theorem axisTurn_mulVec_self (a b : K) (v : Fin 3 → K) : axisTurn a b v *ᵥ v = v := by
  rw [axisTurn, add_mulVec, add_mulVec, one_mulVec, smul_mulVec, smul_mulVec, ← mulVec_mulVec,
    crossMatrix_mulVec_self, mulVec_zero, smul_zero, smul_zero, add_zero, add_zero]

theorem axisTurn_mem_rotation {a b : K} {v : Fin 3 → K}
    (hboth : b + b - a * a - (v ⬝ᵥ v) * (b * b) = 0)
    (hdet : (1 - (v ⬝ᵥ v) * b) ^ 2 + (v ⬝ᵥ v) * a ^ 2 = 1) :
    axisTurn a b v ∈ specialOrthogonalGroup (Fin 3) K :=
  mem_rotation (axisTurn_mul_transpose hboth) (by rw [axisTurn_det, hdet])

/-- The square of a length after a turn that is not quite a rotation. -/
theorem axisTurn_dotProduct (a b : K) (v w : Fin 3 → K) :
    (axisTurn a b v *ᵥ w) ⬝ᵥ (axisTurn a b v *ᵥ w) = w ⬝ᵥ w -
      (b + b - a * a - (v ⬝ᵥ v) * (b * b)) * (crossProduct v w ⬝ᵥ crossProduct v w) := by
  have hsquare : (axisTurn a b v)ᵀ * axisTurn a b v =
      axisTurn 0 (b + b - a * a - (v ⬝ᵥ v) * (b * b)) v := by
    have hodd : -a + a - (v ⬝ᵥ v) * (-a * b + a * b) = 0 := by ring
    rw [axisTurn_transpose, axisTurn_mul, hodd, neg_mul, ← sub_eq_add_neg]
  have hturned : w ⬝ᵥ ((crossMatrix v * crossMatrix v) *ᵥ w) =
      -(crossProduct v w ⬝ᵥ crossProduct v w) := by
    rw [← mulVec_mulVec, dotProduct_mulVec, ← mulVec_transpose, crossMatrix_transpose,
      neg_mulVec, neg_dotProduct, crossMatrix_mulVec]
  have hback : (axisTurn a b v *ᵥ w) ⬝ᵥ (axisTurn a b v *ᵥ w) =
      w ⬝ᵥ (((axisTurn a b v)ᵀ * axisTurn a b v) *ᵥ w) := by
    rw [← mulVec_mulVec, dotProduct_mulVec w, vecMul_transpose]
  rw [hback, hsquare, axisTurn, zero_smul, add_zero, add_mulVec, one_mulVec, smul_mulVec,
    dotProduct_add, dotProduct_smul, hturned, smul_eq_mul, mul_neg, ← sub_eq_add_neg]

end RobotNav
