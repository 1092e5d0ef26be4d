/-
The matrices the filter linearises with are derivatives along its corrections.

Near no correction at all the exponential is a polynomial, whose quaternion is a unit only
to the second order; that is enough for the first derivative.
-/
import Mathlib.Analysis.Calculus.Deriv.Pow
import Mathlib.Analysis.Calculus.Deriv.Prod
import Mathlib.Topology.Algebra.Module.ModuleTopology
import RobotNav.Esekf.RoundTrip
import RobotNav.Esekf.ShareModel
import RobotNav.Esekf.UpdateGain

namespace RobotNav

open Matrix

theorem hasDerivAt_mulVec {k l : ℕ} (A : Matrix (Fin k) (Fin l) ℝ) {v : ℝ → Fin l → ℝ}
    {v' : Fin l → ℝ} {t : ℝ} (h : HasDerivAt v v' t) :
    HasDerivAt (fun t => A *ᵥ v t) (A *ᵥ v') t := by
  rw [hasDerivAt_pi] at h ⊢
  intro i
  show HasDerivAt (fun t => ∑ j, A i j * v t j) (∑ j, A i j * v' j) t
  exact HasDerivAt.fun_sum fun j _ => (h j).const_mul (A i j)

/-! ## The exponential near zero -/

namespace MTK

theorem eventually_small (x : ℝ) : ∀ᶠ t : ℝ in nhds 0, t ^ 2 * x < 1 / 8192 := by
  have hcont : Continuous fun t : ℝ => t ^ 2 * x := by fun_prop
  have hzero : (0 : ℝ) ^ 2 * x < 1 / 8192 := by norm_num
  exact hcont.continuousAt.eventually_lt continuousAt_const hzero

/-- The two functions of the exponential along a line through zero. -/
noncomputable def smallCos (x t : ℝ) : ℝ := (cosSincSqrt .real (t ^ 2 * x)).1
noncomputable def smallSin (x t : ℝ) : ℝ := (cosSincSqrt .real (t ^ 2 * x)).2 * t

theorem smallCos_zero (x : ℝ) : smallCos x 0 = 1 := by
  rw [smallCos, zero_pow two_ne_zero, zero_mul, cosSincSqrt_zero]

theorem smallSin_zero (x : ℝ) : smallSin x 0 = 0 := mul_zero _

theorem hasDerivAt_smallCos (x : ℝ) : HasDerivAt (smallCos x) 0 0 := by
  have hpoly : HasDerivAt (fun t : ℝ => 1 - t ^ 2 * x / 2 + (t ^ 2 * x) ^ 2 / 24 -
      (t ^ 2 * x) ^ 3 / 720) 0 0 := by
    have hsq : HasDerivAt (fun t : ℝ => t ^ 2 * x) 0 0 := by
      have hpow := (hasDerivAt_pow 2 (0 : ℝ)).mul_const x
      simpa using hpow
    have hsum := (((hsq.div_const 2).const_sub 1).fun_add ((hsq.fun_pow 2).div_const 24)).fun_sub
      ((hsq.fun_pow 3).div_const 720)
    exact hsum.congr_deriv (by simp)
  refine hpoly.congr_of_eventuallyEq ?_
  filter_upwards [eventually_small x] with t ht
  rw [smallCos, cosSincSqrt_of_lt ht]

theorem hasDerivAt_smallSin (x : ℝ) : HasDerivAt (smallSin x) 1 0 := by
  have hpoly : HasDerivAt (fun t : ℝ => (1 - t ^ 2 * x / 6 + (t ^ 2 * x) ^ 2 / 120 -
      (t ^ 2 * x) ^ 3 / 5040) * t) 1 0 := by
    have hsq : HasDerivAt (fun t : ℝ => t ^ 2 * x) 0 0 := by
      have hpow := (hasDerivAt_pow 2 (0 : ℝ)).mul_const x
      simpa using hpow
    have hsum := ((((hsq.div_const 6).const_sub 1).fun_add ((hsq.fun_pow 2).div_const 120)).fun_sub
      ((hsq.fun_pow 3).div_const 5040)).fun_mul (hasDerivAt_id' (0 : ℝ))
    exact hsum.congr_deriv (by simp)
  refine hpoly.congr_of_eventuallyEq ?_
  filter_upwards [eventually_small x] with t ht
  rw [smallSin, cosSincSqrt_of_lt ht]

end MTK

namespace SO3

theorem exp_smul (t : ℝ) (δ : Fin 3 → ℝ) :
    exp .real (t • δ) 1 = ⟨MTK.smallCos (δ ⬝ᵥ δ / 4) t, (MTK.smallSin (δ ⬝ᵥ δ / 4) t / 2) • δ⟩ := by
  have hsquare : (angleOf (t • δ) / 2) ^ 2 = t ^ 2 * (δ ⬝ᵥ δ / 4) := by
    have hmul := angleOf_mul_self (t • δ)
    rw [smul_dotProduct, dotProduct_smul, smul_eq_mul, smul_eq_mul] at hmul
    linear_combination (1 / 4 : ℝ) * hmul
  rw [exp_of_not_wide, hsquare, smul_smul, MTK.smallSin]
  congr 2
  ring

/-- A turn after a rotation, in the functions of the exponential. -/
theorem boxplus_smul_mulVec {q : SO3 ℝ} (hq : q.normSq = 1) (t : ℝ) (δ a : Fin 3 → ℝ) :
    (q.boxplus .real (t • δ) 1).toRotationMatrix *ᵥ a = q.toRotationMatrix *ᵥ a +
      (MTK.smallCos (δ ⬝ᵥ δ / 4) t * MTK.smallSin (δ ⬝ᵥ δ / 4) t) •
        (q.toRotationMatrix * crossMatrix δ) *ᵥ a +
      (MTK.smallSin (δ ⬝ᵥ δ / 4) t ^ 2 / 2) •
        (q.toRotationMatrix * (crossMatrix δ * crossMatrix δ)) *ᵥ a -
      (1 - (MTK.smallCos (δ ⬝ᵥ δ / 4) t ^ 2 +
        MTK.smallSin (δ ⬝ᵥ δ / 4) t ^ 2 * (δ ⬝ᵥ δ / 4))) • (q.toRotationMatrix - 1) *ᵥ a := by
  rw [boxplus, exp_smul]
  set C := MTK.smallCos (δ ⬝ᵥ δ / 4) t
  set S := MTK.smallSin (δ ⬝ᵥ δ / 4) t
  have hnorm : (SO3.mk C ((S / 2) • δ)).normSq = C ^ 2 + S ^ 2 * (δ ⬝ᵥ δ / 4) := by
    rw [normSq, squaredNorm, smul_dotProduct, dotProduct_smul, smul_eq_mul, smul_eq_mul]
    ring
  have hturn : (SO3.mk C ((S / 2) • δ)).toRotationMatrix =
      1 + (C * S) • crossMatrix δ + (S ^ 2 / 2) • (crossMatrix δ * crossMatrix δ) := by
    rw [toRotationMatrix_eq, axisTurn_smul, axisTurn]
    congr 2
    · congr 1
      ring
    · ring
  rw [toRotationMatrix_mul_left hq, hnorm, hturn, Matrix.mul_add, Matrix.mul_add,
    Matrix.mul_one, Matrix.mul_smul, Matrix.mul_smul, sub_mulVec, add_mulVec, add_mulVec,
    smul_mulVec, smul_mulVec, smul_mulVec]

/-- A vector that moves while the rotation is corrected. -/
theorem hasDerivAt_boxplus {q : SO3 ℝ} (hq : q.normSq = 1) (δ : Fin 3 → ℝ) {v : ℝ → Fin 3 → ℝ}
    {v' : Fin 3 → ℝ} (hv : HasDerivAt v v' 0) :
    HasDerivAt (fun t => (q.boxplus .real (t • δ) 1).toRotationMatrix *ᵥ v t)
      (q.toRotationMatrix *ᵥ (v' + crossProduct δ (v 0))) 0 := by
  have hC := MTK.hasDerivAt_smallCos (δ ⬝ᵥ δ / 4)
  have hS := MTK.hasDerivAt_smallSin (δ ⬝ᵥ δ / 4)
  have hfirst := hasDerivAt_mulVec q.toRotationMatrix hv
  have hturn := (hC.fun_mul hS).fun_smul
    (hasDerivAt_mulVec (q.toRotationMatrix * crossMatrix δ) hv)
  have htwice := ((hS.fun_pow 2).div_const 2).fun_smul
    (hasDerivAt_mulVec (q.toRotationMatrix * (crossMatrix δ * crossMatrix δ)) hv)
  have hshort := (((hC.fun_pow 2).fun_add ((hS.fun_pow 2).mul_const (δ ⬝ᵥ δ / 4))).const_sub
    1).fun_smul (hasDerivAt_mulVec (q.toRotationMatrix - 1) hv)
  simp only [boxplus_smul_mulVec hq]
  refine (((hfirst.fun_add hturn).fun_add htwice).fun_sub hshort).congr_deriv ?_
  rw [MTK.smallCos_zero, MTK.smallSin_zero, mulVec_add, ← crossMatrix_mulVec, mulVec_mulVec]
  simp

end SO3

/-! ## The process model -/

namespace S2

/-- Gravity moves with its correction as `S2_Mx` at zero says. -/
theorem hasDerivAt_boxplus (s : S2 ℝ) (δ : Fin 2 → ℝ) :
    HasDerivAt (fun t : ℝ => (s.boxplus .real (t • δ) 1).vec)
      (s.mx .real (fun _ => lit 0) *ᵥ δ) 0 := by
  have hturn :=
    SO3.hasDerivAt_boxplus SO3.identity_normSq (s.bx *ᵥ δ) (hasDerivAt_const (0 : ℝ) s.vec)
  have hzero : (fun _ => lit 0 : Fin 2 → ℝ) = 0 := by
    funext i
    exact Int.cast_zero
  have htol : (0 : ℝ) < MTK.tolerance := by rw [MTK.tolerance_eq]; norm_num
  have hmx : s.mx .real (fun _ => lit 0) *ᵥ δ = crossProduct (s.bx *ᵥ δ) s.vec := by
    rw [mx, hzero, norm_eq_angleOf, angleOf_zero, if_pos htol, hat_eq, neg_mulVec, ← mulVec_mulVec,
      crossMatrix_mulVec, cross_anticomm]
  rw [SO3.identity_toRotationMatrix, one_mulVec, zero_add] at hturn
  rw [hmx]
  refine hturn.congr_of_eventuallyEq (Filter.Eventually.of_forall fun t => ?_)
  show (SO3.exp .real (s.bx *ᵥ (t • δ)) 1).toRotationMatrix *ᵥ s.vec =
    (SO3.identity.mul (SO3.exp .real (t • s.bx *ᵥ δ) 1)).toRotationMatrix *ᵥ s.vec
  rw [mulVec_smul, SO3.identity_mul]

end S2

namespace StateIkfom

variable {x : StateIkfom ℝ}

/-- The rates of change that are always zero. -/
def noDims : List (Block 24 3) := [offsetRDim, offsetTDim, bgDim, baDim, gravDim]

theorem noDims_apart : ∀ b ∈ noDims, posDim.Apart b ∧ rotDim.Apart b ∧ velDim.Apart b := by
  decide

theorem dim_cases (i : Fin 24) : (∃ j, posDim.entry j = i) ∨ (∃ j, rotDim.entry j = i) ∨
    (∃ j, velDim.entry j = i) ∨ ∃ b ∈ noDims, ∃ j, b.entry j = i := by
  revert i
  decide

theorem hasDerivAt_line (u v : Fin 3 → ℝ) :
    HasDerivAt (fun t : ℝ => u + (1 : ℝ) • t • v) v 0 := by
  have hid := ((hasDerivAt_id' (0 : ℝ)).smul_const v).const_add u
  simpa using hid

theorem hasDerivAt_getF_vel (hrot : x.rot.normSq = 1) (input : InputIkfom ℝ) (δ : Fin 23 → ℝ) :
    HasDerivAt (fun t : ℝ => velDim.get ((x.boxplus .real (t • δ) 1).getF input))
      (velDim.get (x.dfDx .real input *ᵥ δ)) 0 := by
  simp only [getF_vel, rotate_eq]
  have hacc := SO3.hasDerivAt_boxplus hrot (rotIdx.get δ)
    ((hasDerivAt_line x.ba (baIdx.get δ)).const_sub input.acc)
  refine (hacc.fun_add (S2.hasDerivAt_boxplus x.grav (gravIdx.get δ))).congr_deriv ?_
  rw [Block.get_mulVec, dfDx_vel_mulVec, zero_smul, smul_zero, add_zero, mulVec_add, mulVec_neg,
    neg_mulVec, Matrix.neg_mul, neg_mulVec, hat_eq, ← mulVec_mulVec, crossMatrix_mulVec,
    ← cross_anticomm (input.acc - x.ba), mulVec_neg]
  abel

/-- `df_dx` is the derivative of `get_f` along a correction, for every state whose rotation
is one and every input. -/
theorem hasDerivAt_getF (hrot : x.rot.normSq = 1) (input : InputIkfom ℝ) (δ : Fin 23 → ℝ) :
    HasDerivAt (fun t : ℝ => (x.boxplus .real (t • δ) 1).getF input)
      (x.dfDx .real input *ᵥ δ) 0 := by
  have hpos : HasDerivAt (fun t : ℝ => posDim.get ((x.boxplus .real (t • δ) 1).getF input))
      (posDim.get (x.dfDx .real input *ᵥ δ)) 0 := by
    simp only [getF_pos]
    rw [Block.get_mulVec, dfDx_pos_mulVec]
    exact hasDerivAt_line _ _
  have hturn : HasDerivAt (fun t : ℝ => rotDim.get ((x.boxplus .real (t • δ) 1).getF input))
      (rotDim.get (x.dfDx .real input *ᵥ δ)) 0 := by
    simp only [getF_rot]
    rw [Block.get_mulVec, dfDx_rot_mulVec]
    exact (hasDerivAt_line _ _).const_sub _
  have hvel := hasDerivAt_getF_vel hrot input δ
  have hnone : ∀ b ∈ noDims, HasDerivAt
      (fun t : ℝ => b.get ((x.boxplus .real (t • δ) 1).getF input))
      (b.get (x.dfDx .real input *ᵥ δ)) 0 := by
    intro b hb
    obtain ⟨hposApart, hrotApart, hvelApart⟩ := noDims_apart b hb
    simp only [getF_none _ input hposApart hrotApart hvelApart]
    rw [Block.get_mulVec, dfDx_none .real x input hposApart hrotApart hvelApart, zero_mulVec]
    exact hasDerivAt_const 0 0
  rw [hasDerivAt_pi]
  intro i
  rcases dim_cases i with ⟨j, rfl⟩ | ⟨j, rfl⟩ | ⟨j, rfl⟩ | ⟨b, hb, j, rfl⟩
  · exact hasDerivAt_pi.mp hpos j
  · exact hasDerivAt_pi.mp hturn j
  · exact hasDerivAt_pi.mp hvel j
  · exact hasDerivAt_pi.mp (hnone b hb) j

theorem hasDerivAt_getF_create :
    HasDerivAt (fun t : ℝ => (create.boxplus .real (t • (1 : Fin 23 → ℝ)) 1).getF ⟨1, 1⟩)
      (create.dfDx .real ⟨1, 1⟩ *ᵥ 1) 0 :=
  hasDerivAt_getF SO3.identity_normSq _ _

end StateIkfom

/-! ## The measurement model -/

namespace ShareModel

/-- The first twelve components of a correction. -/
def measuredPart (δ : Fin 23 → ℝ) : Fin 12 → ℝ := (lead twelve_le_dof).get δ

theorem measuredPart_get {b : Block 12 3} {d : Block 23 3} (h : d.start = b.start)
    (δ : Fin 23 → ℝ) : b.get (measuredPart δ) = d.get δ := by
  funext j
  show δ _ = δ _
  congr 1
  apply Fin.ext
  show 0 + (b.start + (j : ℕ)) = d.start + j
  omega

variable {cfg : SurfConfig ℝ} {s : StateIkfom ℝ} {p : SurfPoint ℝ}

/-- The corrections the rows of `h_x` are meant for. -/
def Estimated (cfg : SurfConfig ℝ) (δ : Fin 23 → ℝ) : Prop :=
  cfg.extrinsicEstEn = true ∨ offsetRIdx.get δ = 0 ∧ offsetTIdx.get δ = 0

/-- A row of `h_x` by the members of the correction. -/
theorem row_dotProduct {δ : Fin 23 → ℝ} (hen : Estimated cfg δ) :
    row cfg s p ⬝ᵥ measuredPart δ = p.normvec ⬝ᵥ posIdx.get δ +
      ((MTK.hat (s.offsetRLI.rotate p.body + s.offsetTLI) *ᵥ s.rot.conjugate.rotate p.normvec) ⬝ᵥ
          rotIdx.get δ +
        (((MTK.hat p.body * s.offsetRLI.conjugate.toRotationMatrix) *ᵥ
            s.rot.conjugate.rotate p.normvec) ⬝ᵥ offsetRIdx.get δ +
          s.rot.conjugate.rotate p.normvec ⬝ᵥ offsetTIdx.get δ)) := by
  have hzero : (fun _ => lit 0 : Fin 12 → ℝ) = 0 := by
    funext i
    exact Int.cast_zero
  have hnone : ∀ b : Block 12 3, b.get (0 : Fin 12 → ℝ) = 0 := fun b => rfl
  have happart : ∀ {b b' : Block 12 3} (_ : b'.Apart b) (x : Fin 3 → ℝ) {u : Fin 12 → ℝ},
      b.get u = 0 → b.get (b'.set x u) = 0 := by
    intro b b' h x u hu
    rw [Block.get_set_of_apart h, hu]
  rw [row]
  simp only [hzero]
  cases hcfg : cfg.extrinsicEstEn with
  | true =>
    rw [if_pos rfl, Block.set_dotProduct, Block.set_dotProduct, Block.set_dotProduct,
      Block.set_dotProduct, zero_dotProduct, add_zero, measuredPart_get (d := posIdx) rfl,
      measuredPart_get (d := rotIdx) rfl, measuredPart_get (d := offsetRIdx) rfl,
      measuredPart_get (d := offsetTIdx) rfl]
    · exact hnone _
    · exact happart (by decide) _ (hnone _)
    · exact happart (by decide) _ (happart (by decide) _ (hnone _))
    · exact happart (by decide) _ (happart (by decide) _ (happart (by decide) _ (hnone _)))
  | false =>
    obtain ⟨hoffR, hoffT⟩ : offsetRIdx.get δ = 0 ∧ offsetTIdx.get δ = 0 := by
      rcases hen with hen | hen
      · rw [hcfg] at hen
        exact absurd hen Bool.false_ne_true
      · exact hen
    rw [if_neg Bool.false_ne_true, Block.set_dotProduct, Block.set_dotProduct, zero_dotProduct,
      add_zero, measuredPart_get (d := posIdx) rfl, measuredPart_get (d := rotIdx) rfl, hoffR,
      hoffT, dotProduct_zero, dotProduct_zero, add_zero, add_zero]
    · exact hnone _
    · exact happart (by decide) _ (hnone _)

/-- How far the point is from the plane `(n, d)` at the estimate `s`. -/
noncomputable def planeDistance (n : Fin 3 → ℝ) (d : ℝ) (body : Fin 3 → ℝ) (s : StateIkfom ℝ) : ℝ :=
  n ⬝ᵥ toWorld s body + d

theorem hasDerivAt_toWorld (hrot : s.rot.normSq = 1) (hoffset : s.offsetRLI.normSq = 1)
    (δ : Fin 23 → ℝ) (body : Fin 3 → ℝ) :
    HasDerivAt (fun t : ℝ => toWorld (s.boxplus .real (t • δ) 1) body)
      (s.rot.toRotationMatrix *ᵥ
        (s.offsetRLI.toRotationMatrix *ᵥ crossProduct (offsetRIdx.get δ) body +
            offsetTIdx.get δ +
          crossProduct (rotIdx.get δ) (s.offsetRLI.toRotationMatrix *ᵥ body + s.offsetTLI)) +
        posIdx.get δ) 0 := by
  have hbody := SO3.hasDerivAt_boxplus hoffset (offsetRIdx.get δ) (hasDerivAt_const (0 : ℝ) body)
  have hpoint := SO3.hasDerivAt_boxplus hrot (rotIdx.get δ)
    (hbody.fun_add (StateIkfom.hasDerivAt_line s.offsetTLI (offsetTIdx.get δ)))
  have hworld := hpoint.fun_add (StateIkfom.hasDerivAt_line s.pos (posIdx.get δ))
  simp only [toWorld, rotate_eq]
  refine hworld.congr_deriv ?_
  rw [zero_add, zero_smul, zero_smul, SO3.boxplus_zero, smul_zero, add_zero]

theorem hasDerivAt_dotProduct (n : Fin 3 → ℝ) {v : ℝ → Fin 3 → ℝ} {v' : Fin 3 → ℝ} {t : ℝ}
    (h : HasDerivAt v v' t) : HasDerivAt (fun t => n ⬝ᵥ v t) (n ⬝ᵥ v') t := by
  rw [hasDerivAt_pi] at h
  show HasDerivAt (fun t => ∑ j, n j * v t j) (∑ j, n j * v' j) t
  exact HasDerivAt.fun_sum fun j _ => (h j).const_mul (n j)

/-- A row of `h_x` is the derivative of the distance of its point to its plane. -/
theorem hasDerivAt_planeDistance (hrot : s.rot.normSq = 1) (hoffset : s.offsetRLI.normSq = 1)
    (d : ℝ) {δ : Fin 23 → ℝ} (hen : Estimated cfg δ) :
    HasDerivAt (fun t : ℝ => planeDistance p.normvec d p.body (s.boxplus .real (t • δ) 1))
      (row cfg s p ⬝ᵥ measuredPart δ) 0 := by
  have hmoved := hasDerivAt_dotProduct p.normvec (hasDerivAt_toWorld hrot hoffset δ p.body)
  refine (hmoved.add_const d).congr_deriv ?_
  have htriple : ∀ u v w : Fin 3 → ℝ, w ⬝ᵥ crossProduct u v = crossProduct v w ⬝ᵥ u := by
    intro u v w
    rw [triple_product_permutation, dotProduct_comm]
  have hback : ∀ (q : SO3 ℝ) (n v : Fin 3 → ℝ),
      n ⬝ᵥ (q.toRotationMatrix *ᵥ v) = q.conjugate.rotate n ⬝ᵥ v := by
    intro q n v
    rw [rotate_eq, toRotationMatrix_conjugate, dotProduct_mulVec, mulVec_transpose]
  rw [row_dotProduct hen, dotProduct_add, hback, dotProduct_add, dotProduct_add, hback, htriple,
    htriple, hat_eq, hat_eq, ← mulVec_mulVec, crossMatrix_mulVec, crossMatrix_mulVec, rotate_eq,
    rotate_eq s.offsetRLI]
  ring

theorem jacobian_mulVec (share : DynShare ℝ) (δ : Fin 23 → ℝ) (i : Fin share.rows) :
    (share.jacobian twelve_le_dof *ᵥ δ) i = share.hx i ⬝ᵥ measuredPart δ := by
  have hselect : (lead twelve_le_dof).select ℝ *ᵥ δ = measuredPart δ := by
    rw [Block.select, ← Block.get_mulVec, one_mulVec]
    rfl
  rw [DynShare.jacobian, ← mulVec_mulVec, hselect]
  rfl

/-- What a valid call leaves: `h` is the distances of the selected points to the planes of their
neighbours, negated, and the rows of `h_x` are the derivatives of these distances along a
correction. -/
theorem hShareModel_linearises (hrot : s.rot.normSq = 1) (hoffset : s.offsetRLI.normSq = 1)
    {node : SurfNode ℝ} {share : DynShare ℝ}
    (hdone : (hShareModel .real cfg s (node, share)).2.valid = true)
    (i : Fin (hShareModel .real cfg s (node, share)).2.rows) :
    ∃ p ∈ (hShareModel .real cfg s (node, share)).1.points, ∃ d : ℝ, p.selected = true ∧
      estiPlane .real cfg p.pointsNear (ratio 1 10) = some (p.normvec, d) ∧
      (hShareModel .real cfg s (node, share)).2.h i = -planeDistance p.normvec d p.body s ∧
      ∀ δ, Estimated cfg δ →
        HasDerivAt (fun t : ℝ => planeDistance p.normvec d p.body (s.boxplus .real (t • δ) 1))
          (((hShareModel .real cfg s (node, share)).2.jacobian twelve_le_dof *ᵥ δ) i) 0 := by
  have hshare := hShareModel_of_valid hdone
  revert i
  rw [hshare]
  intro i
  dsimp only
  have hmem := List.get_mem (effective (hShareModel .real cfg s (node, share)).1.points) i
  generalize hp : (effective (hShareModel .real cfg s (node, share)).1.points).get i = p at hmem ⊢
  rw [effective, List.mem_filter] at hmem
  obtain ⟨hpoint, hselected⟩ := hmem
  have hplane := hpoint
  rw [hShareModel_points] at hplane
  obtain ⟨q, -, rfl⟩ := List.mem_map.mp hplane
  obtain ⟨d, hfit, hdistance⟩ := tested_plane hselected
  refine ⟨_, hpoint, d, hselected, hfit, congrArg _ hdistance, fun δ hen => ?_⟩
  refine (hasDerivAt_planeDistance hrot hoffset d hen).congr_deriv ?_
  rw [jacobian_mulVec]
  show _ = row cfg s _ ⬝ᵥ _
  rw [hp]

/-- The first call of the node over a floor. -/
noncomputable def floorCall : SurfNode ℝ × DynShare ℝ :=
  hShareModel .real (floorConfig true) .create (⟨[floorPoint], 0⟩, .start)

theorem floorCall_valid : floorCall.2.valid = true := by
  rw [← Bool.not_eq_false, floorCall, hShareModel_invalid_iff rfl]
  intro hnone
  have hlost := hnone floorPoint (List.mem_singleton_self _)
  rw [show (DynShare.start : DynShare ℝ).converge = true from rfl, floorPoint_selected true] at hlost
  exact absurd hlost (by simp)

theorem floorCall_rows : 0 < floorCall.2.rows := by
  have hshare := hShareModel_of_valid floorCall_valid
  have hrows := congrArg DynShare.rows hshare
  rw [hShareModel_points] at hrows
  show 0 < (hShareModel .real (floorConfig true) .create (⟨[floorPoint], 0⟩, .start)).2.rows
  rw [hrows, List.map_singleton, show (DynShare.start : DynShare ℝ).converge = true from rfl,
    effective, List.filter_cons_of_pos (floorPoint_selected true)]
  exact Nat.succ_pos _

theorem hShareModel_linearises_floor :
    ∃ p ∈ floorCall.1.points, ∃ d : ℝ, p.selected = true ∧
      estiPlane .real (floorConfig true) p.pointsNear (ratio 1 10) = some (p.normvec, d) ∧
      floorCall.2.h ⟨0, floorCall_rows⟩ = -planeDistance p.normvec d p.body .create ∧
      ∀ δ, Estimated (floorConfig true) δ → HasDerivAt
        (fun t : ℝ => planeDistance p.normvec d p.body (StateIkfom.create.boxplus .real (t • δ) 1))
        ((floorCall.2.jacobian twelve_le_dof *ᵥ δ) ⟨0, floorCall_rows⟩) 0 :=
  hShareModel_linearises SO3.identity_normSq SO3.identity_normSq floorCall_valid
    ⟨0, floorCall_rows⟩

end ShareModel

end RobotNav
