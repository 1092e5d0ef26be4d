/-
A correction put on a state and read back.

Beyond 1 / 45 of a radian the round trip is exact.  Below, the polynomials lose the
twentieth digit, and a turn under `MTK::tolerance` is not told from none.
-/
import RobotNav.Esekf.Directions
import RobotNav.Esekf.State
import RobotNav.Esekf.Taylor

namespace RobotNav

open Matrix

theorem abs_le_angleOf {k : ℕ} (v : Fin k → ℝ) (i : Fin k) : |v i| ≤ angleOf v := by
  rw [← Real.sqrt_mul_self_eq_abs]
  exact Real.sqrt_le_sqrt (Finset.single_le_sum (f := fun j => v j * v j)
    (fun j _ => mul_self_nonneg (v j)) (Finset.mem_univ i))

/-- A multiple of a vector differs from it by the difference to one. -/
theorem angleOf_smul_sub_self {k : ℕ} (s : ℝ) (v : Fin k → ℝ) :
    angleOf (s • v - v) = |s - 1| * angleOf v := by
  rw [← angleOf_smul, sub_smul, one_smul]

namespace SO3

/-! ## Small turns -/

variable {v : Fin 3 → ℝ}

theorem exp_of_not_wide :
    exp .real v 1 = ⟨(MTK.cosSincSqrt .real ((angleOf v / 2) ^ 2)).1,
      ((MTK.cosSincSqrt .real ((angleOf v / 2) ^ 2)).2 / 2) • v⟩ := by
  have hsquare : (1 / lit 2 : ℝ) * (1 / lit 2) * squaredNorm v = (angleOf v / 2) ^ 2 := by
    rw [squaredNorm, ← angleOf_mul_self, lit_eq]
    push_cast
    ring
  have hhalf : ∀ s : ℝ, s * (1 / lit 2) = s / 2 := by
    intro s
    rw [lit_eq]
    push_cast
    ring
  rw [exp, ofExp, MTK.exp, hsquare, hhalf]

theorem half_lt_of_not_wide (h : ¬ Wide v) : (angleOf v / 2) ^ 2 < 1 / 8192 := by
  rw [Wide, not_le] at h
  calc (angleOf v / 2) ^ 2 = angleOf v * angleOf v / 4 := by ring
    _ < 1 / 8192 := h

end SO3

namespace MTK

/-- Where the polynomials are used they are close to one. -/
theorem cosSincSqrt_range {x2 : ℝ} (h0 : 0 ≤ x2) (h : x2 < 1 / 8192) :
    (1 / 2 ≤ (cosSincSqrt .real x2).1 ∧ (cosSincSqrt .real x2).1 ≤ 1) ∧
      1 / 2 ≤ (cosSincSqrt .real x2).2 ∧ (cosSincSqrt .real x2).2 ≤ 1 := by
  rw [cosSincSqrt_of_lt h]
  have hsq : 0 ≤ x2 ^ 2 := sq_nonneg x2
  have hsq1 : x2 ^ 2 ≤ x2 := by nlinarith
  have hcube : 0 ≤ x2 ^ 3 := pow_nonneg h0 3
  have hcube1 : x2 ^ 3 ≤ x2 := by nlinarith
  refine ⟨⟨?_, ?_⟩, ?_, ?_⟩ <;> dsimp only <;> linarith

end MTK

namespace SO3

variable {v : Fin 3 → ℝ}

theorem log_exp_close (hsmall : ¬ Wide v) :
    angleOf (log .real (exp .real v 1) - v) ≤ 10 * MTK.tolerance := by
  set φ := angleOf v / 2 with hφ
  have hφ0 : 0 ≤ φ := div_nonneg (angleOf_nonneg v) (by norm_num)
  have hlt : φ ^ 2 < 1 / 8192 := half_lt_of_not_wide hsmall
  obtain ⟨⟨hcos, -⟩, hsinc, hsinc1⟩ := MTK.cosSincSqrt_range (sq_nonneg φ) hlt
  obtain ⟨hc, hs⟩ := MTK.cosSincSqrt_taylor hlt
  set C := (MTK.cosSincSqrt .real (φ ^ 2)).1 with hC
  set S := (MTK.cosSincSqrt .real (φ ^ 2)).2 with hS
  have hnorm : CMath.real.norm ((S / 2) • v) = S * φ := by
    rw [norm_eq_angleOf, angleOf_smul, abs_of_pos (by linarith), hφ]
    ring
  have hatan : ∀ y, CMath.real.atanQuotient y C = Real.arctan (y / C) := fun y =>
    if_neg (by linarith)
  have hlog : ∀ nv, (if S * φ < MTK.tolerance then MTK.tolerance else S * φ) = nv →
      log .real (exp .real v 1) = (S * Real.arctan (nv / C) / nv) • v := by
    intro nv hnv
    rw [exp_of_not_wide, ← hφ, ← hC, ← hS, log, MTK.log]
    dsimp only
    rw [hnorm, hnv, hatan, lit_eq, smul_smul]
    congr 1
    push_cast
    ring
  rw [MTK.tolerance_eq] at hlog ⊢
  by_cases htol : S * φ < 1 / 100000000000
  · -- the factor is between zero and two, and the turn within the tolerance
    rw [if_pos htol] at hlog
    rw [hlog _ rfl, angleOf_smul_sub_self]
    have harctan := abs_arctan_sub_le (1 / 100000000000 / C) 0
    have hnonneg : 0 ≤ Real.arctan (1 / 100000000000 / C) :=
      Real.arctan_nonneg.mpr (div_nonneg (by norm_num) (by linarith))
    rw [Real.arctan_zero, sub_zero, sub_zero, abs_of_nonneg hnonneg,
      abs_of_nonneg (div_nonneg (by norm_num) (by linarith))] at harctan
    have hquot : S * Real.arctan (1 / 100000000000 / C) / (1 / 100000000000) ≤ 2 := by
      rw [div_le_iff₀ (by norm_num)]
      have hpart : 1 / 100000000000 / C ≤ 2 * (1 / 100000000000) := by
        rw [div_le_iff₀ (by linarith)]
        linarith
      calc S * Real.arctan (1 / 100000000000 / C) ≤ 1 * (2 * (1 / 100000000000)) :=
            mul_le_mul hsinc1 (harctan.trans hpart) hnonneg one_pos.le
        _ = 2 * (1 / 100000000000) := one_mul _
    have hpos : 0 ≤ S * Real.arctan (1 / 100000000000 / C) / (1 / 100000000000) := by positivity
    have hfactor : |S * Real.arctan (1 / 100000000000 / C) / (1 / 100000000000) - 1| ≤ 1 := by
      rw [abs_le]
      constructor <;> linarith
    have hangle : angleOf v ≤ 4 * (1 / 100000000000) := by
      have hhalf : 1 / 2 * φ ≤ S * φ := mul_le_mul_of_nonneg_right hsinc hφ0
      linarith
    calc |S * Real.arctan (1 / 100000000000 / C) / (1 / 100000000000) - 1| * angleOf v
        ≤ 1 * angleOf v := mul_le_mul_of_nonneg_right hfactor (angleOf_nonneg v)
      _ ≤ 10 * (1 / 100000000000) := by linarith
  · rw [if_neg htol] at hlog
    have hSφ : 0 < S * φ := by linarith [not_lt.mp htol]
    have hφpos : 0 < φ := by
      by_contra hnot
      have hzero : φ = 0 := le_antisymm (not_lt.mp hnot) hφ0
      rw [hzero, mul_zero] at hSφ
      exact lt_irrefl _ hSφ
    have hφ1 : φ ≤ 1 / 4 := by nlinarith
    have hclose := abs_arctan_div_sub_le hφ0 hφ1 (by norm_num) hc hs
    have hS0 : S ≠ 0 := by linarith
    have hform : S * Real.arctan (S * φ / C) / (S * φ) - 1 = (Real.arctan (S * φ / C) - φ) / φ := by
      field_simp
    have hθ : angleOf v = 2 * φ := by rw [hφ]; ring
    rw [hlog _ rfl, angleOf_smul_sub_self, hform, abs_div, abs_of_pos hφpos, hθ]
    calc |Real.arctan (S * φ / C) - φ| / φ * (2 * φ) = 2 * |Real.arctan (S * φ / C) - φ| := by
          field_simp
      _ ≤ 2 * (8 * (1 / 10 ^ 20)) := by linarith
      _ ≤ 10 * (1 / 100000000000) := by norm_num

/-- A correction of a rotation short of half a turn is read back to ten times the
tolerance. -/
theorem boxminus_boxplus_close {q : SO3 ℝ} (hq : q.normSq = 1) (hlt : angleOf v < Real.pi) :
    angleOf ((q.boxplus .real v 1).boxminus .real q - v) ≤ 10 * MTK.tolerance := by
  by_cases hwide : Wide v
  · have htol : (0 : ℝ) ≤ 10 * MTK.tolerance := by rw [MTK.tolerance_eq]; norm_num
    rw [boxminus_boxplus hq (Or.inr ⟨hwide, hlt⟩), sub_self, angleOf_zero]
    exact htol
  · rw [boxminus, boxplus, conjugate_mul_mul hq]
    exact log_exp_close hwide

end SO3

namespace S2

variable {s : S2 ℝ} {δ : Fin 2 → ℝ}

/-! ## Small changes of direction -/

/-- A turn by any quaternion about an axis in the plane. -/
theorem Regular.turn_vec (h : s.Regular) (w r : ℝ) :
    (SO3.mk w (r • (s.bx *ᵥ δ))).toRotationMatrix *ᵥ s.vec =
      (1 - 2 * (r * angleOf δ) ^ 2) • s.vec + (2 * w * r) • crossProduct (s.bx *ᵥ δ) s.vec := by
  have hsquare : (s.bx *ᵥ δ) ⬝ᵥ (s.bx *ᵥ δ) = angleOf δ * angleOf δ := by
    rw [← h.angleOf_bx, angleOf_mul_self]
  have htwice : crossProduct (s.bx *ᵥ δ) (crossProduct (s.bx *ᵥ δ) s.vec) =
      -(angleOf δ * angleOf δ) • s.vec := by
    rw [cross_cross_eq_smul_sub_smul', dotProduct_comm (s.bx *ᵥ δ) s.vec, h.dotProduct_bx,
      hsquare, zero_smul, zero_sub, neg_smul]
  rw [toRotationMatrix_eq, axisTurn_smul, axisTurn, add_mulVec, add_mulVec, one_mulVec,
    smul_mulVec, smul_mulVec, ← mulVec_mulVec, crossMatrix_mulVec, crossMatrix_mulVec, htwice]
  module

theorem Regular.boxplus_small (h : s.Regular) (hsmall : ¬ SO3.Wide (s.bx *ᵥ δ)) :
    ∃ C S : ℝ, 1 / 2 ≤ S ∧ S ≤ 1 ∧ |C - Real.cos (angleOf δ / 2)| ≤ 1 / 10 ^ 20 ∧
      |S * (angleOf δ / 2) - Real.sin (angleOf δ / 2)| ≤ 1 / 10 ^ 20 ∧
      (s.boxplus .real δ 1).vec = (1 - 2 * (S * (angleOf δ / 2)) ^ 2) • s.vec +
        (C * S) • crossProduct (s.bx *ᵥ δ) s.vec := by
  have hlt := SO3.half_lt_of_not_wide hsmall
  have hexp := SO3.exp_of_not_wide (v := s.bx *ᵥ δ)
  rw [h.angleOf_bx] at hlt hexp
  obtain ⟨-, hsinc, hsinc1⟩ := MTK.cosSincSqrt_range (sq_nonneg _) hlt
  obtain ⟨hc, hs⟩ := MTK.cosSincSqrt_taylor hlt
  refine ⟨_, _, hsinc, hsinc1, hc, hs, ?_⟩
  show (SO3.exp .real (s.bx *ᵥ δ) 1).toRotationMatrix *ᵥ s.vec = _
  rw [hexp, h.turn_vec]
  congr 2 <;> ring

theorem arg_of_pos {x y : ℝ} (hx : 0 < x) : Complex.arg ⟨x, y⟩ = Real.arctan (y / x) := by
  have hangle := abs_lt.mp (Complex.abs_arg_lt_pi_div_two_iff.mpr (Or.inl hx) :
    |Complex.arg ⟨x, y⟩| < Real.pi / 2)
  rw [← Real.arctan_tan hangle.1 hangle.2, Complex.tan_arg]

/-- The double angle of an inexact cosine and sine. -/
theorem double_close {φ C n : ℝ} (hc : |C - Real.cos φ| ≤ 1 / 10 ^ 20)
    (hn : |n - Real.sin φ| ≤ 1 / 10 ^ 20) :
    |1 - 2 * n ^ 2 - Real.cos (2 * φ)| ≤ 1 / 10 ^ 19 ∧
      |2 * C * n - Real.sin (2 * φ)| ≤ 1 / 10 ^ 19 := by
  have hsin := Real.abs_sin_le_one φ
  have hcos := Real.abs_cos_le_one φ
  have hn1 : |n| ≤ 2 := by
    calc |n| = |(n - Real.sin φ) + Real.sin φ| := by ring_nf
      _ ≤ 1 / 10 ^ 20 + 1 := (abs_add_le _ _).trans (add_le_add hn hsin)
      _ ≤ 2 := by norm_num
  constructor
  · have hform : 1 - 2 * n ^ 2 - Real.cos (2 * φ) = -2 * ((n - Real.sin φ) * (n + Real.sin φ)) := by
      rw [Real.cos_two_mul]
      linear_combination (-2 : ℝ) * Real.sin_sq_add_cos_sq φ
    calc |1 - 2 * n ^ 2 - Real.cos (2 * φ)| = 2 * (|n - Real.sin φ| * |n + Real.sin φ|) := by
          rw [hform, abs_mul, abs_mul, abs_neg, abs_of_pos (by norm_num : (0 : ℝ) < 2)]
      _ ≤ 2 * (1 / 10 ^ 20 * (2 + 1)) := by
          have hsum := (abs_add_le n (Real.sin φ)).trans (add_le_add hn1 hsin)
          exact mul_le_mul_of_nonneg_left (mul_le_mul hn hsum (abs_nonneg _) (by norm_num))
            (by norm_num)
      _ ≤ 1 / 10 ^ 19 := by norm_num
  · have hform : 2 * C * n - Real.sin (2 * φ) =
        2 * ((C - Real.cos φ) * n + Real.cos φ * (n - Real.sin φ)) := by
      rw [Real.sin_two_mul]
      ring
    calc |2 * C * n - Real.sin (2 * φ)|
        ≤ 2 * (|(C - Real.cos φ) * n| + |Real.cos φ * (n - Real.sin φ)|) := by
          rw [hform, abs_mul, abs_of_pos (by norm_num : (0 : ℝ) < 2)]
          exact mul_le_mul_of_nonneg_left (abs_add_le _ _) (by norm_num)
      _ ≤ 2 * (1 / 10 ^ 20 * 2 + 1 * (1 / 10 ^ 20)) := by
          rw [abs_mul, abs_mul]
          exact mul_le_mul_of_nonneg_left (add_le_add
            (mul_le_mul hc hn1 (abs_nonneg _) (by norm_num))
            (mul_le_mul hcos hn (abs_nonneg _) (by norm_num))) (by norm_num)
      _ ≤ 1 / 10 ^ 19 := by norm_num

theorem wide_sine {θ : ℝ} (hlow : 1 / 50 ≤ θ) (hhigh : θ ≤ 3) :
    MTK.tolerance ≤ S2.length * S2.length * Real.sin θ := by
  have hsin : 1 / 1000 ≤ Real.sin θ := by
    have hpi3 := Real.pi_gt_d2
    have hpi4 := Real.pi_lt_d2
    have hratio : (1 : ℝ) / 4 ≤ 2 / Real.pi := by
      rw [div_le_div_iff₀ (by norm_num) Real.pi_pos]
      linarith
    by_cases hhalf : θ ≤ Real.pi / 2
    · have hle := Real.mul_le_sin (x := θ) (by linarith) hhalf
      nlinarith
    · have hle := Real.mul_le_sin (x := Real.pi - θ) (by linarith) (by linarith)
      rw [Real.sin_pi_sub] at hle
      nlinarith
  rw [MTK.tolerance_eq, length_eq]
  linarith

/-- The difference of two directions that differ by a small turn. -/
theorem Regular.boxminus_small (h : s.Regular) {y : S2 ℝ} {n C S : ℝ} (hC : 0 < C) (hS : 0 < S)
    (hn : n = S * (angleOf δ / 2)) (hn1 : 2 * n ^ 2 ≤ 1 / 2)
    (hy : y.vec = (1 - 2 * n ^ 2) • s.vec + (C * S) • crossProduct (s.bx *ᵥ δ) s.vec) :
    y.boxminus .real s =
      if S2.length * S2.length * (2 * C * n) < MTK.tolerance then 0
      else (Real.arctan (2 * C * n / (1 - 2 * n ^ 2)) / angleOf δ) • δ := by
  have hsquare := (mul_pos length_pos length_pos : (0 : ℝ) < S2.length * S2.length)
  have hcross : crossProduct s.vec y.vec = (C * S * (S2.length * S2.length)) • (s.bx *ᵥ δ) := by
    rw [hy, map_add, map_smul, map_smul, cross_self, cross_cross_eq_smul_sub_smul', h.length,
      dotProduct_comm (s.bx *ᵥ δ), h.dotProduct_bx]
    module
  have hvSin : CMath.real.norm (MTK.hat y.vec *ᵥ s.vec) =
      S2.length * S2.length * (2 * C * n) := by
    rw [norm_eq_angleOf, angleOf_hat, hcross, angleOf_smul, h.angleOf_bx,
      abs_of_pos (mul_pos (mul_pos hC hS) hsquare), hn]
    ring
  have hvCos : y.vec ⬝ᵥ s.vec = S2.length * S2.length * (1 - 2 * n ^ 2) := by
    rw [hy, add_dotProduct, smul_dotProduct, smul_dotProduct, h.length, dotProduct_comm _ s.vec,
      dot_cross_self]
    simp only [smul_eq_mul]
    ring
  have htheta : CMath.real.atan2 (S2.length * S2.length * (2 * C * n))
      (S2.length * S2.length * (1 - 2 * n ^ 2)) =
      Real.arctan (2 * C * n / (1 - 2 * n ^ 2)) := by
    have hpos : 0 < S2.length * S2.length * (1 - 2 * n ^ 2) := mul_pos hsquare (by linarith)
    rw [← mul_div_mul_left _ _ hsquare.ne']
    exact arg_of_pos hpos
  have hn0 : 0 ≤ n := by
    rw [hn]
    exact mul_nonneg hS.le (div_nonneg (angleOf_nonneg δ) (by norm_num))
  rw [boxminus]
  simp only [hvSin, hvCos, htheta]
  split_ifs with htol hlarge
  · -- an angle over the tolerance would have its sine over it too
    exfalso
    have hquot : 0 ≤ 2 * C * n / (1 - 2 * n ^ 2) :=
      div_nonneg (mul_nonneg (by linarith) hn0) (by linarith)
    have harctan := abs_arctan_sub_le (2 * C * n / (1 - 2 * n ^ 2)) 0
    rw [Real.arctan_zero, sub_zero, sub_zero, abs_of_nonneg hquot] at harctan
    have hle : 2 * C * n / (1 - 2 * n ^ 2) ≤ 2 * (2 * C * n) := by
      rw [div_le_iff₀ (by linarith)]
      nlinarith [mul_nonneg hC.le hn0]
    rw [fabs_eq_abs] at hlarge
    rw [length_eq] at htol
    nlinarith [mul_nonneg hC.le hn0]
  · rw [lit_eq, Int.cast_zero]
    ext i
    fin_cases i <;> rfl
  · rw [← mulVec_mulVec, hat_eq, crossMatrix_mulVec, hcross, mulVec_smul, mulVec_mulVec,
      h.bx_transpose_mul, one_mulVec, smul_smul, hn]
    congr 1
    have hlen := length_pos.ne'
    have hne : angleOf δ ≠ 0 := by
      intro hzero
      rw [hn, hzero] at htol
      refine htol ?_
      rw [zero_div, mul_zero, mul_zero, mul_zero, MTK.tolerance_eq]
      norm_num
    field_simp

/-- A correction of a direction up to three radians is read back to ten times the
tolerance. -/
theorem Regular.boxminus_boxplus_close (h : s.Regular) (hle : angleOf δ ≤ 3) :
    angleOf ((s.boxplus .real δ 1).boxminus .real s - δ) ≤ 10 * MTK.tolerance := by
  by_cases hwide : SO3.Wide (s.bx *ᵥ δ)
  · have hlow := hwide.le
    rw [h.angleOf_bx] at hlow
    have hpi := Real.pi_gt_three
    rw [h.boxminus_boxplus (Or.inr ⟨hwide, by linarith, wide_sine hlow hle⟩), sub_self, angleOf_zero,
      MTK.tolerance_eq]
    norm_num
  · have hlt := SO3.half_lt_of_not_wide hwide
    rw [h.angleOf_bx] at hlt
    obtain ⟨C, S, hS, hS1, hc, hs, hvec⟩ := h.boxplus_small hwide
    set φ := angleOf δ / 2 with hφ
    have hφ0 : 0 ≤ φ := div_nonneg (angleOf_nonneg δ) (by norm_num)
    have hφ1 : φ ≤ 1 / 64 := by nlinarith
    have hn0 : 0 ≤ S * φ := mul_nonneg (by linarith) hφ0
    have hn1 : S * φ ≤ 1 / 64 := by nlinarith
    have hC : 1 / 2 ≤ C := by
      have hcos := Real.one_sub_sq_div_two_le_cos (x := φ)
      have hlow := (abs_le.mp hc).1
      norm_num at hlow
      linarith
    rw [h.boxminus_small (n := S * φ) (by linarith) (by linarith) rfl (by nlinarith) hvec,
      MTK.tolerance_eq]
    split_ifs with htol
    · rw [zero_sub, angleOf_neg]
      rw [length_eq] at htol
      have hprod : 1 / 4 * φ ≤ C * (S * φ) := by nlinarith
      have hangle : angleOf δ = 2 * φ := by rw [hφ]; ring
      rw [hangle]
      linarith
    · rcases eq_or_lt_of_le hφ0 with hzero | hpos
      · have hangle : angleOf δ = 0 := by
          rw [hφ] at hzero
          linarith
        rw [angleOf_smul_sub_self, hangle, mul_zero]
        norm_num
      · obtain ⟨hcos, hsin⟩ := double_close hc hs
        have hangle : angleOf δ = 2 * φ := by rw [hφ]; ring
        have hdouble : 0 ≤ 2 * φ := by linarith
        have hclose := abs_arctan_div_sub_le hdouble (by linarith) (by norm_num) hcos hsin
        rw [angleOf_smul_sub_self, hangle, div_sub_one (by linarith), abs_div,
          abs_of_pos (by linarith : 0 < 2 * φ), div_mul_cancel₀ _ (by linarith)]
        calc |Real.arctan (2 * C * (S * φ) / (1 - 2 * (S * φ) ^ 2)) - 2 * φ|
            ≤ 8 * (1 / 10 ^ 19) := hclose
          _ ≤ 10 * (1 / 100000000000) := by norm_num

end S2

/-! ## The whole state -/

namespace StateIkfom

/-- The members of a correction that turn something, each within the half turn it is read
back from. -/
structure Moderate (δ : Fin 23 → ℝ) : Prop where
  rot : angleOf (rotIdx.get δ) < Real.pi
  offsetR : angleOf (offsetRIdx.get δ) < Real.pi
  grav : angleOf (gravIdx.get δ) ≤ 3

/-- A state whose quaternions and gravity have their lengths. -/
structure Proper (x : StateIkfom ℝ) : Prop where
  rot : x.rot.normSq = 1
  offsetRLI : x.offsetRLI.normSq = 1
  grav : x.grav.Regular

/-- Any correction of a proper state is read back, each component to ten times the
tolerance. -/
theorem correction_read_back {x : StateIkfom ℝ} (hx : x.Proper) {δ : Fin 23 → ℝ}
    (hδ : Moderate δ) (i : Fin 23) :
    |((x.boxplus .real δ 1).boxminus .real x) i - δ i| ≤ 10 * MTK.tolerance := by
  have htol : (0 : ℝ) ≤ 10 * MTK.tolerance := by rw [MTK.tolerance_eq]; norm_num
  have hexact : ∀ {b : Block 23 3} (j : Fin 3),
      b.get ((x.boxplus .real δ 1).boxminus .real x) = b.get δ →
      |((x.boxplus .real δ 1).boxminus .real x) (b.entry j) - δ (b.entry j)| ≤
        10 * MTK.tolerance := by
    intro b j hb
    have hentry : ((x.boxplus .real δ 1).boxminus .real x) (b.entry j) = δ (b.entry j) :=
      congrFun hb j
    rw [hentry, sub_self, abs_zero]
    exact htol
  have hturned : ∀ {k : ℕ} {b : Block 23 k} (j : Fin k) {w : Fin k → ℝ},
      b.get ((x.boxplus .real δ 1).boxminus .real x) = w →
      angleOf (w - b.get δ) ≤ 10 * MTK.tolerance →
      |((x.boxplus .real δ 1).boxminus .real x) (b.entry j) - δ (b.entry j)| ≤
        10 * MTK.tolerance := by
    rintro k b j w rfl hw
    exact (abs_le_angleOf _ j).trans hw
  have hlinear : ∀ u v : Fin 3 → ℝ, u + (1 : ℝ) • v - u = v := by
    intro u v
    rw [one_smul, add_sub_cancel_left]
  rcases entry_cases i with ⟨j, rfl⟩ | ⟨j, rfl⟩ | ⟨j, rfl⟩ | ⟨j, rfl⟩ | ⟨j, rfl⟩ | ⟨j, rfl⟩ |
    ⟨j, rfl⟩ | ⟨j, rfl⟩
  · exact hexact j ((boxminus_pos .real _ _).trans (hlinear _ _))
  · exact hturned j (boxminus_rot .real _ _) (SO3.boxminus_boxplus_close hx.rot hδ.rot)
  · exact hturned j (boxminus_offsetRLI .real _ _)
      (SO3.boxminus_boxplus_close hx.offsetRLI hδ.offsetR)
  · exact hexact j ((boxminus_offsetTLI .real _ _).trans (hlinear _ _))
  · exact hexact j ((boxminus_vel .real _ _).trans (hlinear _ _))
  · exact hexact j ((boxminus_bg .real _ _).trans (hlinear _ _))
  · exact hexact j ((boxminus_ba .real _ _).trans (hlinear _ _))
  · exact hturned j (boxminus_grav .real _ _) (hx.grav.boxminus_boxplus_close hδ.grav)

theorem create_proper : (create : StateIkfom ℝ).Proper :=
  ⟨SO3.identity_normSq, SO3.identity_normSq, S2.create_regular⟩

theorem correction_read_back_turn :
    |((create.boxplus .real (rotIdx.set (Pi.single 0 1) 0) 1).boxminus .real create) 3 -
      rotIdx.set (Pi.single 0 1) (0 : Fin 23 → ℝ) 3| ≤ 10 * MTK.tolerance := by
  have hpi := Real.pi_gt_three
  have hangle : angleOf (Pi.single 0 1 : Fin 3 → ℝ) = 1 := by
    rw [angleOf, single_dotProduct, Pi.single_eq_same, Real.sqrt_mul_self (by norm_num)]
  refine correction_read_back create_proper ⟨?_, ?_, ?_⟩ 3
  · rw [Block.get_set, hangle]
    linarith
  · rw [Block.get_set_of_apart (by decide)]
    show angleOf (0 : Fin 3 → ℝ) < Real.pi
    rw [angleOf_zero]
    linarith
  · rw [Block.get_set_of_apart (by decide)]
    show angleOf (0 : Fin 2 → ℝ) ≤ 3
    rw [angleOf_zero]
    norm_num

end StateIkfom

end RobotNav
