/-
The exponential and the logarithm of rotations over the reals.

From a half angle whose square is 1 / 8192 on, the exponential is the rotation by
Rodrigues' formula and the logarithm undoes it.  Below it a polynomial takes the place of
the sine and the cosine, and the quaternion loses a little of its norm, never gains.
-/
import Mathlib.Analysis.Real.Pi.Bounds
import RobotNav.Esekf.MtkMath
import RobotNav.Library.Rodrigues

namespace RobotNav

open Matrix

namespace MTK

theorem tolerance_eq : (tolerance : ℝ) = 1 / 100000000000 := by
  rw [tolerance, ratio_eq]
  norm_num

theorem taylorNBound_eq : (taylorNBound : ℝ) = 1 / 8192 := by
  rw [taylorNBound, ratio_eq]
  norm_num

theorem cosSincSqrt_of_le {x2 : ℝ} (h : 1 / 8192 ≤ x2) :
    cosSincSqrt .real x2 = (Real.cos (Real.sqrt x2), Real.sin (Real.sqrt x2) / Real.sqrt x2) := by
  rw [cosSincSqrt, taylorNBound_eq, if_pos h]
  rfl

theorem cosSincSqrt_of_lt {x2 : ℝ} (h : x2 < 1 / 8192) :
    cosSincSqrt .real x2 =
      (1 - x2 / 2 + x2 ^ 2 / 24 - x2 ^ 3 / 720, 1 - x2 / 6 + x2 ^ 2 / 120 - x2 ^ 3 / 5040) := by
  rw [cosSincSqrt, taylorNBound_eq, if_neg (not_le.mpr h)]
  simp only [List.range, List.range.loop, List.foldl_cons, List.foldl_nil, taylorTerm, inv,
    ratio_eq, lit_eq]
  refine Prod.ext ?_ ?_ <;> push_cast <;> ring

@[simp] theorem cosSincSqrt_zero : cosSincSqrt .real 0 = (1, 1) := by
  rw [cosSincSqrt_of_lt (by norm_num)]
  norm_num

/-- How far the pair is from a cosine and a sine. -/
theorem cosSincSqrt_norm {x2 : ℝ} (h : 0 ≤ x2) :
    1 - 1 / 2 ^ 66 ≤ (cosSincSqrt .real x2).1 * (cosSincSqrt .real x2).1 +
        x2 * ((cosSincSqrt .real x2).2 * (cosSincSqrt .real x2).2) ∧
      (cosSincSqrt .real x2).1 * (cosSincSqrt .real x2).1 +
        x2 * ((cosSincSqrt .real x2).2 * (cosSincSqrt .real x2).2) ≤ 1 := by
  by_cases hle : 1 / 8192 ≤ x2
  · have hroot : Real.sqrt x2 ≠ 0 := (Real.sqrt_pos.mpr (by linarith)).ne'
    have hone : Real.cos (Real.sqrt x2) * Real.cos (Real.sqrt x2) + x2 *
        (Real.sin (Real.sqrt x2) / Real.sqrt x2 * (Real.sin (Real.sqrt x2) / Real.sqrt x2)) = 1 := by
      have hsquare : x2 = Real.sqrt x2 * Real.sqrt x2 := (Real.mul_self_sqrt h).symm
      have hpyth := Real.sin_sq_add_cos_sq (Real.sqrt x2)
      conv_lhs => enter [2, 1]; rw [hsquare]
      field_simp
      linear_combination hpyth
    rw [cosSincSqrt_of_le hle]
    exact ⟨by rw [hone]; norm_num, hone.le⟩
  · have hlt := not_le.mp hle
    -- what the polynomials miss starts at the fourth power
    have hrest : (1 - x2 / 2 + x2 ^ 2 / 24 - x2 ^ 3 / 720) *
          (1 - x2 / 2 + x2 ^ 2 / 24 - x2 ^ 3 / 720) +
        x2 * ((1 - x2 / 6 + x2 ^ 2 / 120 - x2 ^ 3 / 5040) *
          (1 - x2 / 6 + x2 ^ 2 / 120 - x2 ^ 3 / 5040)) =
        1 - x2 ^ 4 * (1 / 20160 - x2 / 50400 + x2 ^ 2 / 725760 - x2 ^ 3 / 25401600) := by ring
    have hfour : x2 ^ 4 ≤ (1 / 8192) ^ 4 := pow_le_pow_left₀ h hlt.le 4
    have hfour_nonneg : 0 ≤ x2 ^ 4 := pow_nonneg h 4
    have hsq : x2 ^ 2 ≤ x2 := by nlinarith
    have hcube_nonneg : 0 ≤ x2 ^ 3 := pow_nonneg h 3
    have hcube : x2 ^ 3 ≤ x2 := by nlinarith
    have hsq_nonneg : 0 ≤ x2 ^ 2 := sq_nonneg x2
    have hlow : 0 ≤ 1 / 20160 - x2 / 50400 + x2 ^ 2 / 725760 - x2 ^ 3 / 25401600 := by linarith
    have hhigh : 1 / 20160 - x2 / 50400 + x2 ^ 2 / 725760 - x2 ^ 3 / 25401600 ≤ 1 / 20160 := by
      linarith
    have hmul := mul_le_mul hfour hhigh hlow (by positivity)
    rw [cosSincSqrt_of_lt hlt]
    show 1 - 1 / 2 ^ 66 ≤ (1 - x2 / 2 + x2 ^ 2 / 24 - x2 ^ 3 / 720) *
          (1 - x2 / 2 + x2 ^ 2 / 24 - x2 ^ 3 / 720) +
        x2 * ((1 - x2 / 6 + x2 ^ 2 / 120 - x2 ^ 3 / 5040) *
          (1 - x2 / 6 + x2 ^ 2 / 120 - x2 ^ 3 / 5040)) ∧
      (1 - x2 / 2 + x2 ^ 2 / 24 - x2 ^ 3 / 720) * (1 - x2 / 2 + x2 ^ 2 / 24 - x2 ^ 3 / 720) +
        x2 * ((1 - x2 / 6 + x2 ^ 2 / 120 - x2 ^ 3 / 5040) *
          (1 - x2 / 6 + x2 ^ 2 / 120 - x2 ^ 3 / 5040)) ≤ 1
    rw [hrest]
    constructor
    · norm_num at hmul ⊢
      linarith
    · linarith [mul_nonneg hfour_nonneg hlow]

end MTK

theorem norm_eq_angleOf {k : ℕ} (v : Fin k → ℝ) : CMath.real.norm v = angleOf v := rfl

/-- Short of a whole turn `A_matrix` has an inverse. -/
theorem isUnit_aMatrix {v : Fin 3 → ℝ} (h : angleOf v < 2 * Real.pi) :
    IsUnit (MTK.aMatrix .real v) := by
  rw [aMatrix_eq, norm_eq_angleOf, isUnit_iff_isUnit_det]
  split_ifs with htol
  · rw [det_one]
    exact isUnit_one
  · have hpos : 0 < angleOf v := by
      rw [MTK.tolerance_eq] at htol
      linarith [not_lt.mp htol]
    have hdet : (axisTurn ((1 - CMath.real.cos (angleOf v)) / squaredNorm v)
        ((1 - CMath.real.sin (angleOf v) / angleOf v) / squaredNorm v) v).det =
        2 * (1 - Real.cos (angleOf v)) / (angleOf v * angleOf v) := by
      have hpyth := Real.sin_sq_add_cos_sq (angleOf v)
      show (axisTurn ((1 - Real.cos (angleOf v)) / (v ⬝ᵥ v))
        ((1 - Real.sin (angleOf v) / angleOf v) / (v ⬝ᵥ v)) v).det = _
      rw [axisTurn_det, ← angleOf_mul_self]
      field_simp
      linear_combination hpyth
    have hcos : Real.cos (angleOf v) ≠ 1 := by
      intro hone
      have hzero := (Real.cos_eq_one_iff_of_lt_of_lt (by linarith [Real.pi_pos]) h).mp hone
      exact hpos.ne' hzero
    rw [hdet, isUnit_iff_ne_zero]
    have hone : 1 - Real.cos (angleOf v) ≠ 0 := sub_ne_zero.mpr hcos.symm
    have hne := hpos.ne'
    positivity

namespace SO3

/-! ## The exponential -/

/-- The least half angle the cosine and the sine are used for. -/
def Wide (v : Fin 3 → ℝ) : Prop := 1 / 8192 ≤ angleOf v * angleOf v / 4

theorem Wide.pos {v : Fin 3 → ℝ} (h : Wide v) : 0 < angleOf v := by
  rcases (angleOf_nonneg v).lt_or_eq with hpos | hzero
  · exact hpos
  · rw [Wide, ← hzero] at h
    norm_num at h

theorem Wide.le {v : Fin 3 → ℝ} (h : Wide v) : 1 / 50 ≤ angleOf v := by
  by_contra hlt
  have hlt := not_le.mp hlt
  have hsquare : angleOf v * angleOf v < 1 / 50 * (1 / 50) :=
    mul_self_lt_mul_self (angleOf_nonneg v) hlt
  rw [Wide] at h
  linarith

theorem ofExp_zero_scale (v : Fin 3 → ℝ) : ofExp .real v 0 = identity := by
  rw [ofExp, MTK.exp, mul_zero, zero_mul, MTK.cosSincSqrt_zero, identity, lit_eq, lit_eq]
  simp only [mul_zero, zero_smul, Int.cast_one, Int.cast_zero]
  rfl

theorem ofExp_zero (scale : ℝ) : ofExp .real 0 scale = identity := by
  rw [ofExp, MTK.exp, squaredNorm, zero_dotProduct, mul_zero, MTK.cosSincSqrt_zero, identity,
    lit_eq, lit_eq, smul_zero, Int.cast_one, Int.cast_zero]
  rfl

theorem identity_toRotationMatrix : (identity : SO3 ℝ).toRotationMatrix = 1 := by
  have hzero : (identity : SO3 ℝ).vec = 0 := by
    funext i
    show (lit 0 : ℝ) = 0
    rw [lit_eq, Int.cast_zero]
  rw [toRotationMatrix_eq, hzero, axisTurn_zero_vec]

theorem rotate_identity (v : Fin 3 → ℝ) : (identity : SO3 ℝ).rotate v = v := by
  rw [rotate_eq, identity_toRotationMatrix, one_mulVec]

/-- The integer division `1 / 2` as a scale gives no rotation. -/
theorem ofExp_intHalf (v : Fin 3 → ℝ) : ofExp .real v (lit (1 / 2)) = identity := by
  have hzero : (lit (1 / 2) : ℝ) = 0 := by
    rw [lit_eq]
    norm_num
  rw [hzero, ofExp_zero_scale]

theorem exp_of_wide {v : Fin 3 → ℝ} (h : Wide v) :
    exp .real v 1 = ⟨Real.cos (angleOf v / 2), (Real.sin (angleOf v / 2) / angleOf v) • v⟩ := by
  have hsquare : (1 / lit 2 : ℝ) * (1 / lit 2) * squaredNorm v =
      (angleOf v / 2) * (angleOf v / 2) := by
    rw [squaredNorm, ← angleOf_mul_self, lit_eq]
    push_cast
    ring
  have hroot : Real.sqrt ((angleOf v / 2) * (angleOf v / 2)) = angleOf v / 2 :=
    Real.sqrt_mul_self (div_nonneg (angleOf_nonneg v) (by norm_num))
  have hle : 1 / 8192 ≤ (angleOf v / 2) * (angleOf v / 2) := by
    rw [Wide] at h
    linarith
  have hne := h.pos.ne'
  rw [exp, ofExp, MTK.exp, hsquare, MTK.cosSincSqrt_of_le hle, hroot, lit_eq]
  congr 2
  push_cast
  field_simp

theorem exp_toRotationMatrix {v : Fin 3 → ℝ} (h : Wide v) :
    (exp .real v 1).toRotationMatrix = rodrigues v := by
  rw [toRotationMatrix_eq, exp_of_wide h, axisTurn_half v h.pos.ne']

theorem ofExp_normSq (v : Fin 3 → ℝ) (scale : ℝ) :
    1 - 1 / 2 ^ 66 ≤ (ofExp .real v scale).normSq ∧ (ofExp .real v scale).normSq ≤ 1 := by
  have hnonneg : 0 ≤ scale * scale * squaredNorm v :=
    mul_nonneg (mul_self_nonneg scale) (dotProduct_self_nonneg_real v)
  have hnorm := MTK.cosSincSqrt_norm hnonneg
  set cs := MTK.cosSincSqrt .real (scale * scale * squaredNorm v) with hcs
  have hform : (ofExp .real v scale).normSq =
      cs.1 * cs.1 + scale * scale * squaredNorm v * (cs.2 * cs.2) := by
    show cs.1 * cs.1 + ((cs.2 * scale) • v) ⬝ᵥ ((cs.2 * scale) • v) = _
    rw [smul_dotProduct, dotProduct_smul, smul_eq_mul, smul_eq_mul, squaredNorm]
    ring
  rw [hform]
  exact hnorm

/-! ## The logarithm -/

theorem identity_normSq : (identity : SO3 ℝ).normSq = 1 := by
  rw [normSq, identity, squaredNorm, lit_eq, lit_eq]
  simp

theorem identity_mul (q : SO3 ℝ) : identity.mul q = q := by
  obtain ⟨w, vec⟩ := q
  have hzero : (fun _ => lit 0 : Fin 3 → ℝ) = 0 := by
    funext i
    rw [lit_eq, Int.cast_zero]
    rfl
  rw [mul, identity, hzero, lit_eq, zero_dotProduct, map_zero]
  simp

theorem mul_identity (q : SO3 ℝ) : q.mul identity = q := by
  obtain ⟨w, vec⟩ := q
  have hzero : (fun _ => lit 0 : Fin 3 → ℝ) = 0 := by
    funext i
    exact Int.cast_zero
  rw [mul, identity, hzero, lit_eq, dotProduct_zero, map_zero]
  simp

theorem boxplus_zero (q : SO3 ℝ) : q.boxplus .real 0 1 = q := by
  rw [boxplus, exp, ofExp_zero, mul_identity]

theorem conjugate_mul_mul {q : SO3 ℝ} (h : q.normSq = 1) (p : SO3 ℝ) :
    q.conjugate.mul (q.mul p) = p := by
  obtain ⟨w, vec⟩ := p
  have hone : q.w * q.w + (q.vec 0 * q.vec 0 + q.vec 1 * q.vec 1 + q.vec 2 * q.vec 2) = 1 := by
    rw [squaredNorm_eq]
    exact h
  rw [mul, mul, conjugate, cross_apply, cross_apply]
  congr 1
  · simp [dotProduct, Fin.sum_univ_three]
    linear_combination w * hone
  · funext i
    fin_cases i
    · simp [dotProduct, Fin.sum_univ_three, vecHead, vecTail]
      linear_combination vec 0 * hone
    · simp [dotProduct, Fin.sum_univ_three, vecHead, vecTail]
      linear_combination vec 1 * hone
    · simp [dotProduct, Fin.sum_univ_three, vecHead, vecTail]
      linear_combination vec 2 * hone

theorem mul_conjugate_mul {q : SO3 ℝ} (h : q.normSq = 1) (p : SO3 ℝ) :
    q.mul (q.conjugate.mul p) = p := by
  have hback : q.conjugate.conjugate = q := by
    rw [conjugate, conjugate, neg_neg]
  have hconj : q.conjugate.normSq = 1 := by rw [normSq_conjugate, h]
  have hcancel := conjugate_mul_mul hconj p
  rwa [hback] at hcancel

theorem log_identity : log .real (identity : SO3 ℝ) = 0 := by
  rw [log, MTK.log, identity]
  funext i
  simp [lit_eq]

theorem boxminus_self (q : SO3 ℝ) : q.boxminus .real q = 0 := by
  have hvec : (q.conjugate.mul q).vec = 0 := by
    show q.w • q.vec + q.w • -q.vec + crossProduct (-q.vec) q.vec = 0
    rw [map_neg, LinearMap.neg_apply, cross_self, smul_neg]
    simp
  rw [boxminus, log, MTK.log, hvec]
  exact smul_zero _

theorem sin_half_pos {v : Fin 3 → ℝ} (h : Wide v) (hlt : angleOf v < Real.pi) :
    MTK.tolerance < Real.sin (angleOf v / 2) := by
  have hle := Real.mul_le_sin (x := angleOf v / 2) (by linarith [h.pos]) (by linarith)
  have hpi : (1 : ℝ) / 4 ≤ 2 / Real.pi := by
    rw [div_le_div_iff₀ (by norm_num) Real.pi_pos]
    linarith [Real.pi_lt_d2]
  have hpart : 1 / 4 * (angleOf v / 2) ≤ 2 / Real.pi * (angleOf v / 2) :=
    mul_le_mul_of_nonneg_right hpi (by linarith [h.pos])
  rw [MTK.tolerance_eq]
  linarith [h.le]

theorem log_exp {v : Fin 3 → ℝ} (h : Wide v) (hlt : angleOf v < Real.pi) :
    log .real (exp .real v 1) = v := by
  have hsin := sin_half_pos h hlt
  have hpos : 0 < Real.sin (angleOf v / 2) := by
    rw [MTK.tolerance_eq] at hsin
    linarith
  have hcos : 0 < Real.cos (angleOf v / 2) :=
    Real.cos_pos_of_mem_Ioo ⟨by linarith [h.pos, Real.pi_pos], by linarith⟩
  have hnorm : CMath.real.norm ((Real.sin (angleOf v / 2) / angleOf v) • v) =
      Real.sin (angleOf v / 2) := by
    rw [norm_eq_angleOf, angleOf_smul, abs_of_pos (div_pos hpos h.pos), div_mul_cancel₀ _ h.pos.ne']
  have hatan : CMath.real.atanQuotient (Real.sin (angleOf v / 2)) (Real.cos (angleOf v / 2)) =
      angleOf v / 2 := by
    show (if Real.cos (angleOf v / 2) = 0 then Real.pi / 2
      else Real.arctan (Real.sin (angleOf v / 2) / Real.cos (angleOf v / 2))) = _
    rw [if_neg hcos.ne', ← Real.tan_eq_sin_div_cos,
      Real.arctan_tan (by linarith [h.pos, Real.pi_pos]) (by linarith)]
  rw [exp_of_wide h, log, MTK.log, hnorm, if_neg (not_lt.mpr hsin.le), hatan, lit_eq, smul_smul]
  have hone : ((2 : ℤ) : ℝ) / Real.sin (angleOf v / 2) * (angleOf v / 2) *
      (Real.sin (angleOf v / 2) / angleOf v) = 1 := by
    have hne := h.pos.ne'
    push_cast
    field_simp
  rw [hone, one_smul]

/-- The logarithm is at most half a turn, whatever the quaternion. -/
theorem log_le (q : SO3 ℝ) : angleOf (log .real q) ≤ Real.pi := by
  have hatan : ∀ y x : ℝ, |CMath.real.atanQuotient y x| ≤ Real.pi / 2 := by
    intro y x
    show |if x = 0 then Real.pi / 2 else Real.arctan (y / x)| ≤ Real.pi / 2
    split_ifs
    · rw [abs_of_pos (by linarith [Real.pi_pos])]
    · rw [abs_le]
      exact ⟨(Real.neg_pi_div_two_lt_arctan _).le, (Real.arctan_lt_pi_div_two _).le⟩
  rw [log, MTK.log, norm_eq_angleOf, angleOf_smul]
  set nv := if angleOf q.vec < MTK.tolerance then MTK.tolerance else angleOf q.vec with hnv
  have hpos : 0 < nv := by
    have htol : (0 : ℝ) < MTK.tolerance := by rw [MTK.tolerance_eq]; norm_num
    rw [hnv]
    split_ifs with hlt
    · exact htol
    · linarith [not_lt.mp hlt]
  have hle : angleOf q.vec ≤ nv := by
    rw [hnv]
    split_ifs with hlt
    · exact hlt.le
    · exact le_refl _
  rw [lit_eq, abs_mul, abs_div, abs_of_pos hpos]
  have hquot : angleOf q.vec / nv ≤ 1 := (div_le_one hpos).mpr hle
  have hquot_nonneg : 0 ≤ angleOf q.vec / nv := div_nonneg (angleOf_nonneg _) hpos.le
  calc |((2 : ℤ) : ℝ)| / nv * |CMath.real.atanQuotient nv q.w| * angleOf q.vec
      = 2 * |CMath.real.atanQuotient nv q.w| * (angleOf q.vec / nv) := by
        push_cast
        rw [abs_of_pos (by norm_num : (0 : ℝ) < 2)]
        ring
    _ ≤ 2 * (Real.pi / 2) * 1 := by
        apply mul_le_mul (mul_le_mul_of_nonneg_left (hatan _ _) (by norm_num)) hquot hquot_nonneg
        linarith [Real.pi_pos]
    _ = Real.pi := by ring

/-- The other quaternion of the same rotation. -/
def neg (q : SO3 ℝ) : SO3 ℝ := ⟨-q.w, -q.vec⟩

theorem mul_neg (p q : SO3 ℝ) : p.mul q.neg = (p.mul q).neg := by
  rw [mul, mul, neg, neg]
  congr 1
  · rw [dotProduct_neg]
    ring
  · rw [map_neg]
    module

/-- The angle of the logarithm, from a unit quaternion. -/
theorem cos_sin_atanQuotient {w n : ℝ} (hunit : w * w + n * n = 1) (hn : 0 < n) :
    Real.cos (CMath.real.atanQuotient n w) = |w| ∧
      Real.sin (CMath.real.atanQuotient n w) = if w < 0 then -n else n := by
  show Real.cos (if w = 0 then Real.pi / 2 else Real.arctan (n / w)) = |w| ∧
    Real.sin (if w = 0 then Real.pi / 2 else Real.arctan (n / w)) = if w < 0 then -n else n
  by_cases hw : w = 0
  · have hone : n = 1 := by
      rw [hw] at hunit
      nlinarith
    rw [if_pos hw, hw, hone, Real.cos_pi_div_two, Real.sin_pi_div_two, abs_zero]
    simp
  · have hroot : Real.sqrt (1 + (n / w) ^ 2) = 1 / |w| := by
      have hsquare : 1 + (n / w) ^ 2 = (1 / |w|) * (1 / |w|) := by
        rw [div_mul_div_comm, one_mul, abs_mul_abs_self]
        field_simp
        linear_combination hunit
      rw [hsquare, Real.sqrt_mul_self (div_nonneg zero_le_one (abs_nonneg w))]
    rw [if_neg hw, Real.cos_arctan, Real.sin_arctan, hroot, one_div_one_div]
    refine ⟨rfl, ?_⟩
    split_ifs with hneg
    · rw [abs_of_neg hneg]
      field_simp
    · rw [abs_of_pos (lt_of_le_of_ne (not_lt.mp hneg) (Ne.symm hw))]
      field_simp

theorem exp_log {r : SO3 ℝ} (hr : r.normSq = 1) (hvec : MTK.tolerance ≤ angleOf r.vec)
    (hwide : Wide (log .real r)) :
    exp .real (log .real r) 1 = if r.w < 0 then r.neg else r := by
  have hpos : 0 < angleOf r.vec := by
    rw [MTK.tolerance_eq] at hvec
    linarith
  have hunit : r.w * r.w + angleOf r.vec * angleOf r.vec = 1 := by
    rw [angleOf_mul_self]
    exact hr
  obtain ⟨hcos, hsin⟩ := cos_sin_atanQuotient hunit hpos
  set α := CMath.real.atanQuotient (angleOf r.vec) r.w with hα
  have hlog : log .real r = (2 * α / angleOf r.vec) • r.vec := by
    rw [log, MTK.log, norm_eq_angleOf, if_neg (not_lt.mpr hvec), lit_eq, ← hα]
    congr 1
    push_cast
    ring
  have hangle : angleOf (log .real r) = 2 * |α| := by
    rw [hlog, angleOf_smul, abs_div, abs_mul, abs_of_pos hpos, abs_of_pos (two_pos),
      div_mul_cancel₀ _ hpos.ne']
  have hne : α ≠ 0 := by
    intro hzero
    have hangle_pos := hwide.pos
    rw [hangle, hzero, abs_zero, mul_zero] at hangle_pos
    exact lt_irrefl 0 hangle_pos
  have habs : |α| ≠ 0 := abs_ne_zero.mpr hne
  have hodd : Real.sin |α| * α = Real.sin α * |α| := by
    rcases abs_choice α with h | h
    · rw [h]
    · rw [h, Real.sin_neg]
      ring
  have hfactor : Real.sin |α| / (2 * |α|) * (2 * α / angleOf r.vec) =
      Real.sin α / angleOf r.vec := by
    field_simp
    linear_combination hodd
  rw [exp_of_wide hwide, hangle, mul_div_cancel_left₀ _ two_ne_zero, hlog, smul_smul, hfactor,
    Real.cos_abs, hcos, hsin]
  split_ifs with hneg
  · rw [abs_of_neg hneg, neg_div, div_self hpos.ne', neg_one_smul]
    rfl
  · rw [abs_of_nonneg (not_lt.mp hneg), div_self hpos.ne', one_smul]

/-! ## Differences of rotations -/

theorem boxminus_boxplus {q : SO3 ℝ} (hq : q.normSq = 1) {v : Fin 3 → ℝ}
    (hv : v = 0 ∨ Wide v ∧ angleOf v < Real.pi) : (q.boxplus .real v 1).boxminus .real q = v := by
  rw [boxminus, boxplus, conjugate_mul_mul hq]
  rcases hv with rfl | ⟨hwide, hlt⟩
  · rw [exp, ofExp_zero, log_identity]
  · exact log_exp hwide hlt

/-- The difference leads back to the same rotation, to one of its two quaternions. -/
theorem boxplus_boxminus {p q : SO3 ℝ} (hp : p.normSq = 1) (hq : q.normSq = 1)
    (hvec : MTK.tolerance ≤ angleOf (p.conjugate.mul q).vec)
    (hwide : Wide (q.boxminus .real p)) :
    p.boxplus .real (q.boxminus .real p) 1 = q ∨
      p.boxplus .real (q.boxminus .real p) 1 = q.neg := by
  have hunit : (p.conjugate.mul q).normSq = 1 := by
    rw [normSq_mul, normSq_conjugate, hp, hq, one_mul]
  rw [boxplus, boxminus, exp_log hunit hvec hwide]
  split_ifs
  · right
    rw [mul_neg, mul_conjugate_mul hp]
  · left
    exact mul_conjugate_mul hp q

end SO3

end RobotNav
