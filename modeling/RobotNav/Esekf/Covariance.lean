/-
The covariance over a whole update: it stays positive definite, and what a last pass leaves
is never above what was propagated.
-/
import RobotNav.Esekf.Propagation
import RobotNav.Esekf.UpdateGain
import RobotNav.Esekf.UpdateLoop
import RobotNav.Library.Parts

namespace RobotNav

open Matrix

variable {e : Eigen ℝ} {n m : ℕ} {h12 : 12 ≤ n} {M : Manifold ℝ n m} {Env : Type}
variable {cfg : UpdateConfig ℝ M Env} {propagated : Esekf M}

/-! ## The blocks of the state -/

/-- All blocks of the state are apart. -/
def Manifold.AllApart (M : Manifold ℝ n m) : Prop :=
  ∀ x x' dx, Turn.AllApart (turns .real M x x' dx)

namespace StateIkfom

theorem manifold_allApart : Manifold.AllApart (manifold .real) := by
  intro x x' dx
  show List.Pairwise _ [_, _, _]
  simp only [List.pairwise_cons, List.mem_cons, List.not_mem_nil, or_false, forall_eq_or_imp,
    forall_eq, List.Pairwise.nil, and_true, false_implies, implies_true]
  refine ⟨⟨?_, ?_⟩, ?_⟩
  · show rotIdx.Apart offsetRIdx
    decide
  · show rotIdx.Apart gravIdx
    decide
  · show offsetRIdx.Apart gravIdx
    decide

/-- What the block of gravity is multiplied by in a pass. -/
noncomputable def gravityTurn (x propagated : StateIkfom ℝ) (dx : Fin 23 → ℝ) :
    Matrix (Fin 2) (Fin 2) ℝ :=
  x.grav.nxYy * propagated.grav.mx .real (gravIdx.get dx)

/-- A part that holds all of each block that turns, or nothing of it, is kept apart. -/
theorem keeps_product {p : Fin 23 → Prop} [DecidablePred p]
    (hrot : ∀ i j, p (rotIdx.entry i) ↔ p (rotIdx.entry j))
    (hoffset : ∀ i j, p (offsetRIdx.entry i) ↔ p (offsetRIdx.entry j))
    (hgrav : ∀ i j, p (gravIdx.entry i) ↔ p (gravIdx.entry j)) (x x' : StateIkfom ℝ)
    (dx : Fin 23 → ℝ) : Keeps p (Turn.product (turns .real (manifold .real) x x' dx)) := by
  apply Turn.keeps_product
  show ∀ t ∈ ([⟨3, rotIdx, _⟩, ⟨3, offsetRIdx, _⟩, ⟨2, gravIdx, _⟩] : List (Turn 23 ℝ)), _
  simp only [List.mem_cons, List.not_mem_nil, or_false, forall_eq_or_imp, forall_eq]
  exact ⟨hrot, hoffset, hgrav⟩

/-- Short of a whole turn no block but that of gravity can be singular. -/
theorem isUnit_turns {x propagated : StateIkfom ℝ} {dx : Fin 23 → ℝ}
    (hrot : angleOf (rotIdx.get dx) < 2 * Real.pi)
    (hoffset : angleOf (offsetRIdx.get dx) < 2 * Real.pi)
    (hgrav : IsUnit (gravityTurn x propagated dx)) :
    ∀ t ∈ turns .real (manifold .real) x propagated dx, IsUnit t.factor := by
  show ∀ t ∈ ([⟨3, rotIdx, (MTK.aMatrix .real (rotIdx.get dx))ᵀ⟩,
    ⟨3, offsetRIdx, (MTK.aMatrix .real (offsetRIdx.get dx))ᵀ⟩,
    ⟨2, gravIdx, gravityTurn x propagated dx⟩] : List (Turn 23 ℝ)), IsUnit t.factor
  simp only [List.mem_cons, List.not_mem_nil, or_false, forall_eq_or_imp, forall_eq]
  exact ⟨(isUnit_transpose _).mpr (isUnit_aMatrix hrot),
    (isUnit_transpose _).mpr (isUnit_aMatrix hoffset), hgrav⟩

/-- The rotations between two states are by half a turn at most. -/
theorem boxminus_angle_le (x y : StateIkfom ℝ) :
    angleOf (rotIdx.get (x.boxminus .real y)) ≤ Real.pi ∧
      angleOf (offsetRIdx.get (x.boxminus .real y)) ≤ Real.pi := by
  rw [boxminus_rot, boxminus_offsetRLI]
  exact ⟨SO3.log_le _, SO3.log_le _⟩

/-- Nor is that of gravity, unless gravity has turned by a right angle. -/
theorem isUnit_gravityTurn {x y : StateIkfom ℝ} (hx : x.grav.Regular) (hy : y.grav.Regular)
    (hne : x.grav.vec ⬝ᵥ y.grav.vec ≠ 0) :
    IsUnit (gravityTurn x y (x.boxminus .real y)) := by
  rw [gravityTurn, boxminus_grav]
  exact hy.isUnit_nxYy_mul_mx hx hne (hy.boxminus_angle_lt _)

theorem isUnit_gravityTurn_self {x : StateIkfom ℝ} (h : x.grav.Regular) :
    IsUnit (gravityTurn x x (x.boxminus .real x)) := by
  refine isUnit_gravityTurn h h ?_
  rw [h.length]
  exact (mul_pos S2.length_pos S2.length_pos).ne'

/-- Where the estimate is the propagated one, no block is singular. -/
theorem isUnit_turns_self {x : StateIkfom ℝ} (h : x.grav.Regular) :
    ∀ t ∈ turns .real (manifold .real) x x (x.boxminus .real x), IsUnit t.factor := by
  have hpi := Real.pi_pos
  obtain ⟨hrot, hoffset⟩ := boxminus_angle_le x x
  exact isUnit_turns (hrot.trans_lt (by linarith)) (hoffset.trans_lt (by linarith))
    (isUnit_gravityTurn_self h)

/-- Nor does a pass there multiply any block by more than one. -/
theorem product_turns_self {x : StateIkfom ℝ} (h : x.grav.Regular) :
    Turn.product (turns .real (manifold .real) x x (x.boxminus .real x)) = 1 := by
  have htol : (0 : ℝ) < MTK.tolerance := by
    rw [MTK.tolerance_eq]
    norm_num
  have hA : (MTK.aMatrix .real (0 : Fin 3 → ℝ))ᵀ = 1 := by
    rw [aMatrix_eq, norm_eq_angleOf, angleOf_zero, if_pos htol, transpose_one]
  have hrot : rotIdx.get (x.boxminus .real x) = 0 := by rw [boxminus_rot, SO3.boxminus_self]
  have hoffset : offsetRIdx.get (x.boxminus .real x) = 0 := by
    rw [boxminus_offsetRLI, SO3.boxminus_self]
  have hgrav : x.grav.nxYy * x.grav.mx .real (gravIdx.get (x.boxminus .real x)) = 1 := by
    rw [boxminus_grav, h.boxminus_self, h.nxYy_mul_mx_zero]
  show gravIdx.widen (x.grav.nxYy * x.grav.mx .real (gravIdx.get (x.boxminus .real x))) *
    (offsetRIdx.widen (MTK.aMatrix .real (offsetRIdx.get (x.boxminus .real x)))ᵀ *
      (rotIdx.widen (MTK.aMatrix .real (rotIdx.get (x.boxminus .real x)))ᵀ * 1)) = 1
  rw [hrot, hoffset, hgrav, hA, Block.widen_one, Block.widen_one, Block.widen_one, Matrix.one_mul,
    Matrix.one_mul, Matrix.one_mul]

end StateIkfom

namespace UpdateLoop

/-! ## One pass -/

/-- The turns that carry the propagated covariance over to the estimate of a pass. -/
noncomputable def carrying (propagated : Esekf M) (l : UpdateLoop M Env) : List (Turn n ℝ) :=
  turns .real M l.kf.x propagated.x (M.boxminus l.kf.x propagated.x)

/-- The turns of a last pass. -/
noncomputable def closing (e : Eigen ℝ) (h12 : 12 ≤ n) (cfg : UpdateConfig ℝ M Env)
    (propagated : Esekf M) (l : UpdateLoop M Env) : List (Turn n ℝ) :=
  turns .real M (M.boxplus l.kf.x (l.stepped .real e h12 cfg propagated).dx) propagated.x
    (l.stepped .real e h12 cfg propagated).dx

theorem stepped_P (l : UpdateLoop M Env) :
    (l.stepped .real e h12 cfg propagated).P =
      Turn.product (l.carrying propagated) * propagated.P *
        (Turn.product (l.carrying propagated))ᵀ := by
  rw [← Turn.foldl_congruence]
  rfl

/-- No block that a pass multiplies by is singular. -/
structure Sound (e : Eigen ℝ) (h12 : 12 ≤ n) (cfg : UpdateConfig ℝ M Env) (propagated : Esekf M)
    (l : UpdateLoop M Env) (i : ℤ) : Prop where
  carrying : ∀ t ∈ l.carrying propagated, IsUnit t.factor
  closing : l.Last .real e h12 cfg propagated i →
    ∀ t ∈ l.closing e h12 cfg propagated, IsUnit t.factor

variable (e h12 cfg) in
theorem stepped_posDef {l : UpdateLoop M Env} (hP : propagated.P.PosDef)
    (hunit : ∀ t ∈ l.carrying propagated, IsUnit t.factor) :
    (l.stepped .real e h12 cfg propagated).P.PosDef := by
  rw [stepped_P]
  exact Gain.posDef_congr hP (Turn.isUnit_product hunit)

theorem stepped_Kx (he : e.Inverts) (hR : 0 < cfg.R) {l : UpdateLoop M Env}
    (hP : (l.stepped .real e h12 cfg propagated).P.PosDef) :
    (l.stepped .real e h12 cfg propagated).Kx =
      Gain.byInformation ((answer cfg l).2.jacobian h12) ((answer cfg l).2.posterior h12 e
        (l.stepped .real e h12 cfg propagated).P cfg.R) * (answer cfg l).2.jacobian h12 :=
  congrArg Prod.snd (gain_eq h12 he hP hR)

/-- The covariance of a last pass: what the gain leaves, carried over to the new estimate. -/
theorem closedP_eq (he : e.Inverts) (hR : 0 < cfg.R) {l : UpdateLoop M Env}
    (hP : (l.stepped .real e h12 cfg propagated).P.PosDef)
    (happart : Turn.AllApart (l.closing e h12 cfg propagated)) :
    l.closedP .real e h12 cfg propagated =
      Turn.product (l.closing e h12 cfg propagated) *
        ((1 - (l.stepped .real e h12 cfg propagated).Kx) *
          (l.stepped .real e h12 cfg propagated).P) *
            (Turn.product (l.closing e h12 cfg propagated))ᵀ := by
  rw [closedP, stepped_Kx he hR hP]
  exact closed_eq h12 happart _ _

theorem closedP_posDef (he : e.Inverts) (hR : 0 < cfg.R) {l : UpdateLoop M Env}
    (hP : (l.stepped .real e h12 cfg propagated).P.PosDef)
    (hunit : ∀ t ∈ l.closing e h12 cfg propagated, IsUnit t.factor)
    (happart : Turn.AllApart (l.closing e h12 cfg propagated)) :
    (l.closedP .real e h12 cfg propagated).PosDef := by
  rw [closedP_eq he hR hP happart, stepped_Kx he hR hP]
  exact Gain.posDef_congr (Gain.posDef_posterior hP hR (posterior_mul h12 he hP hR))
    (Turn.isUnit_product hunit)

/-- A last pass leaves no more than what it carried over. -/
theorem closedP_le (he : e.Inverts) (hR : 0 < cfg.R) {l : UpdateLoop M Env}
    (hP : (l.stepped .real e h12 cfg propagated).P.PosDef)
    (happart : Turn.AllApart (l.closing e h12 cfg propagated)) :
    (Turn.product (l.closing e h12 cfg propagated) * (l.stepped .real e h12 cfg propagated).P *
        (Turn.product (l.closing e h12 cfg propagated))ᵀ -
      l.closedP .real e h12 cfg propagated).PosSemidef := by
  have htaken : Turn.product (l.closing e h12 cfg propagated) *
        (l.stepped .real e h12 cfg propagated).P *
        (Turn.product (l.closing e h12 cfg propagated))ᵀ -
      l.closedP .real e h12 cfg propagated =
      Turn.product (l.closing e h12 cfg propagated) *
        ((l.stepped .real e h12 cfg propagated).Kx * (l.stepped .real e h12 cfg propagated).P) *
          (Turn.product (l.closing e h12 cfg propagated))ᵀ := by
    rw [closedP_eq he hR hP happart, ← Matrix.sub_mul, ← Matrix.mul_sub, Matrix.sub_mul,
      Matrix.one_mul, sub_sub_cancel]
  rw [htaken, stepped_Kx he hR hP]
  exact Gain.posSemidef_congr (Gain.posSemidef_taken hP hR (posterior_mul h12 he hP hR)) _

/-! ## A pass where the estimate was propagated to -/

section

variable {cfg : UpdateConfig ℝ (StateIkfom.manifold .real) Env}
variable {propagated : Esekf (StateIkfom.manifold .real)}
variable {l : UpdateLoop (StateIkfom.manifold .real) Env}

/-- The step is the gain of the propagated covariance on what is measured. -/
theorem stepped_dx_self (h : propagated.x.grav.Regular) (hx : l.kf.x = propagated.x) :
    (l.stepped .real e twelve_le_dof cfg propagated).dx =
      (gain e twelve_le_dof propagated.P cfg.R (answer cfg l).2).1 := by
  have hproduct : Turn.product (l.carrying propagated) = 1 := by
    show Turn.product (turns .real (StateIkfom.manifold .real) l.kf.x propagated.x
      (StateIkfom.boxminus .real l.kf.x propagated.x)) = 1
    rw [hx]
    exact StateIkfom.product_turns_self h
  have hP : (l.stepped .real e twelve_le_dof cfg propagated).P = propagated.P := by
    rw [stepped_P, hproduct, transpose_one, Matrix.one_mul, Matrix.mul_one]
  have hnew : (l.stepped .real e twelve_le_dof cfg propagated).dxNew = 0 := by
    show (l.carrying propagated).foldl Turn.onVector
      (StateIkfom.boxminus .real l.kf.x propagated.x) = 0
    rw [hx, StateIkfom.boxminus_self h, Turn.foldl_onVector, mulVec_zero]
  show (gain e twelve_le_dof (l.stepped .real e twelve_le_dof cfg propagated).P cfg.R
    (answer cfg l).2).1 + _ *ᵥ (l.stepped .real e twelve_le_dof cfg propagated).dxNew = _
  rw [hP, hnew, mulVec_zero, add_zero]

/-- Without a difference to the measurements it is zero. -/
theorem stepped_dx_still (h : propagated.x.grav.Regular) (hx : l.kf.x = propagated.x)
    (hnone : (answer cfg l).2.h = 0) : (l.stepped .real e twelve_le_dof cfg propagated).dx = 0 := by
  rw [stepped_dx_self h hx, gain]
  split_ifs
  · rw [gainOfFew, hnone, mulVec_zero]
  · rw [gainOfMany, hnone, mulVec_zero]

/-- Such a pass leaves the estimate where it is. -/
theorem pass_still (h : propagated.x.grav.Regular) (hx : l.kf.x = propagated.x)
    (hnone : (answer cfg l).2.h = 0) (i : ℤ) :
    (l.pass .real e twelve_le_dof cfg propagated i).1.kf.x = propagated.x := by
  have hstay : StateIkfom.boxplus .real l.kf.x
      (l.stepped .real e twelve_le_dof cfg propagated).dx (lit 1) = propagated.x := by
    rw [stepped_dx_still h hx hnone, hx, lit_eq, Int.cast_one]
    exact StateIkfom.boxplus_zero _
  cases hvalid : (answer cfg l).2.valid with
  | false =>
    rw [pass_of_invalid hvalid]
    exact hx
  | true =>
    rw [pass_of_valid hvalid]
    split_ifs <;> exact hstay

end

/-! ## What a pass does not see -/

theorem jacobian_onto {p : Fin n → Prop} [DecidablePred p] {share : DynShare ℝ}
    (h : ∀ r j, p ((lead h12).entry j) → share.hx r j = 0) :
    share.jacobian h12 * onto ℝ p = 0 := by
  rw [Gain.mul_onto_eq_zero_iff]
  intro r i hi
  rw [DynShare.jacobian, ← Block.setCols_zero, Block.setCols]
  cases hplace : (lead h12).place i with
  | none => rfl
  | some j =>
    rw [← Block.entry_of_place hplace] at hi
    exact h r j hi

/-- A part of the state that the measurements do not see, that is not correlated with the
rest and that is still where it was propagated to gains nothing in a pass. -/
theorem stepped_blank {p : Fin n → Prop} [DecidablePred p] (he : e.Inverts) (hR : 0 < cfg.R)
    {l : UpdateLoop M Env} (hsees : (answer cfg l).2.jacobian h12 * onto ℝ p = 0)
    (hproduct : Keeps p (Turn.product (l.carrying propagated)))
    (hpropagated : Keeps p propagated.P)
    (hP : (l.stepped .real e h12 cfg propagated).P.PosDef)
    (hsame : Blank p (M.boxminus l.kf.x propagated.x)) :
    Keeps p (l.stepped .real e h12 cfg propagated).P ∧
      Keeps p (l.stepped .real e h12 cfg propagated).Kx ∧
      Blank p (l.stepped .real e h12 cfg propagated).dx := by
  have hcarried : Keeps p (l.stepped .real e h12 cfg propagated).P := by
    rw [stepped_P]
    exact hproduct.congruence hpropagated
  have hW : Keeps p ((answer cfg l).2.posterior h12 e
      (l.stepped .real e h12 cfg propagated).P cfg.R) :=
    Keeps.of_mul_eq_one (posterior_mul h12 he hP hR)
      (Gain.keeps_information hcarried hP.isUnit hR.ne' hsees)
  have hKx : Keeps p (l.stepped .real e h12 cfg propagated).Kx := by
    rw [stepped_Kx he hR hP]
    exact Gain.keeps_byInformation_mul hW hsees
  have hnew : Blank p (l.stepped .real e h12 cfg propagated).dxNew := by
    show Blank p ((l.carrying propagated).foldl Turn.onVector (M.boxminus l.kf.x propagated.x))
    rw [Turn.foldl_onVector]
    exact hproduct.blank hsame
  refine ⟨hcarried, hKx, ?_⟩
  show Blank p ((gain e h12 (l.stepped .real e h12 cfg propagated).P cfg.R (answer cfg l).2).1 +
    ((l.stepped .real e h12 cfg propagated).Kx - 1) *ᵥ
      (l.stepped .real e h12 cfg propagated).dxNew)
  rw [gain_eq h12 he hP hR]
  exact (Gain.blank_byInformation hW hsees _).add ((hKx.sub keeps_one).blank hnew)

/-! ## The step of a pass -/

/-- What a step `δ` of a pass would leave of the measurements, and how far it would lead
from the propagated estimate. -/
noncomputable def stepCost (e : Eigen ℝ) (h12 : 12 ≤ n) (cfg : UpdateConfig ℝ M Env)
    (propagated : Esekf M) (l : UpdateLoop M Env) (δ : Fin n → ℝ) : ℝ :=
  cfg.R⁻¹ * (((answer cfg l).2.h - (answer cfg l).2.jacobian h12 *ᵥ δ) ⬝ᵥ
      ((answer cfg l).2.h - (answer cfg l).2.jacobian h12 *ᵥ δ)) +
    (δ + (l.stepped .real e h12 cfg propagated).dxNew) ⬝ᵥ
      ((l.stepped .real e h12 cfg propagated).P⁻¹ *ᵥ
        (δ + (l.stepped .real e h12 cfg propagated).dxNew))

theorem stepCost_eq (l : UpdateLoop M Env) (δ : Fin n → ℝ) :
    l.stepCost e h12 cfg propagated δ =
      Gain.cost (l.stepped .real e h12 cfg propagated).P ((answer cfg l).2.jacobian h12) cfg.R
        ((answer cfg l).2.h +
          (answer cfg l).2.jacobian h12 *ᵥ (l.stepped .real e h12 cfg propagated).dxNew)
        (δ + (l.stepped .real e h12 cfg propagated).dxNew) := by
  have hleft : (answer cfg l).2.h +
        (answer cfg l).2.jacobian h12 *ᵥ (l.stepped .real e h12 cfg propagated).dxNew -
      (answer cfg l).2.jacobian h12 *ᵥ (δ + (l.stepped .real e h12 cfg propagated).dxNew) =
      (answer cfg l).2.h - (answer cfg l).2.jacobian h12 *ᵥ δ := by
    rw [mulVec_add]
    abel
  rw [stepCost, Gain.cost, hleft]

/-- The step of a pass from the propagated estimate, not from the present one. -/
theorem stepped_dx_add (he : e.Inverts) (hR : 0 < cfg.R) {l : UpdateLoop M Env}
    (hP : (l.stepped .real e h12 cfg propagated).P.PosDef) :
    (l.stepped .real e h12 cfg propagated).dx + (l.stepped .real e h12 cfg propagated).dxNew =
      Gain.byInformation ((answer cfg l).2.jacobian h12) ((answer cfg l).2.posterior h12 e
          (l.stepped .real e h12 cfg propagated).P cfg.R) *ᵥ
        ((answer cfg l).2.h +
          (answer cfg l).2.jacobian h12 *ᵥ (l.stepped .real e h12 cfg propagated).dxNew) := by
  have hgain : gain e h12 (l.stepped .real e h12 cfg propagated).P cfg.R (answer cfg l).2 = _ :=
    gain_eq h12 he hP hR
  have hdx : (l.stepped .real e h12 cfg propagated).dx =
      (gain e h12 (l.stepped .real e h12 cfg propagated).P cfg.R (answer cfg l).2).1 +
        ((gain e h12 (l.stepped .real e h12 cfg propagated).P cfg.R (answer cfg l).2).2 - 1) *ᵥ
          (l.stepped .real e h12 cfg propagated).dxNew := rfl
  rw [hdx, hgain, sub_mulVec, one_mulVec, mulVec_add, mulVec_mulVec]
  abel

/-- The step of a pass costs less than any other. -/
theorem stepped_least (he : e.Inverts) (hR : 0 < cfg.R) {l : UpdateLoop M Env}
    (hP : propagated.P.PosDef) (hunit : ∀ t ∈ l.carrying propagated, IsUnit t.factor)
    {δ : Fin n → ℝ} (hne : δ ≠ (l.stepped .real e h12 cfg propagated).dx) :
    l.stepCost e h12 cfg propagated (l.stepped .real e h12 cfg propagated).dx <
      l.stepCost e h12 cfg propagated δ := by
  have hstepped := stepped_posDef e h12 cfg hP hunit
  rw [stepCost_eq, stepCost_eq, stepped_dx_add he hR hstepped]
  refine Gain.cost_least hstepped hR (posterior_mul h12 he hstepped hR) _ fun heq => hne ?_
  rw [← stepped_dx_add he hR hstepped] at heq
  exact add_right_cancel heq

/-- A measurement of all components at once, and the loop of a filter as it is built. -/
noncomputable def sumConfig : UpdateConfig ℝ (StateIkfom.manifold .real) Unit where
  hDynShare := fun _ arg => (arg.1,
    { valid := true, converge := true, rows := 1, h := fun _ => 1, hx := fun _ _ => 1 })
  maximumIter := 3
  limit := fun _ => ratio 1 1000
  R := ratio 1 1000

noncomputable def created : UpdateLoop (StateIkfom.manifold .real) Unit :=
  { kf := ⟨StateIkfom.create, 1⟩, env := (), share := DynShare.start, t := 0 }

theorem stepped_least_created :
    created.stepCost .real twelve_le_dof sumConfig created.kf
        (created.stepped .real .real twelve_le_dof sumConfig created.kf).dx <
      created.stepCost .real twelve_le_dof sumConfig created.kf
        ((created.stepped .real .real twelve_le_dof sumConfig created.kf).dx + 1) :=
  stepped_least Eigen.real_inverts (by norm_num [sumConfig, ratio_eq]) PosDef.one
    (StateIkfom.isUnit_turns_self S2.create_regular) (by simp)

/-! ## Whole updates -/

theorem pass_posDef (he : e.Inverts) (hR : 0 < cfg.R) (hM : Manifold.AllApart M)
    {l : UpdateLoop M Env} {i : ℤ} (hP : propagated.P.PosDef) (hkf : l.kf.P.PosDef)
    (hl : (answer cfg l).2.valid = true → l.Sound e h12 cfg propagated i) :
    (l.pass .real e h12 cfg propagated i).1.kf.P.PosDef := by
  cases hvalid : (answer cfg l).2.valid with
  | false =>
    rw [pass_of_invalid hvalid]
    exact hkf
  | true =>
    have hstepped := stepped_posDef e h12 cfg hP (hl hvalid).carrying
    rw [pass_of_valid hvalid]
    split_ifs with hlast
    · exact closedP_posDef he hR hstepped ((hl hvalid).closing hlast) (hM _ _ _)
    · exact hstepped

/-- Positive definiteness over the passes of an update, whether it ends in a last pass or
not. -/
theorem passes_posDef (he : e.Inverts) (hR : 0 < cfg.R) (hM : Manifold.AllApart M)
    {l : UpdateLoop M Env} {is : List ℤ} (hP : propagated.P.PosDef) (hkf : l.kf.P.PosDef)
    (hsound : ∀ p ∈ l.made .real e h12 cfg propagated is,
      (answer cfg p.1).2.valid = true → p.1.Sound e h12 cfg propagated p.2) :
    (l.passes .real e h12 cfg propagated is).1.kf.P.PosDef := by
  induction is generalizing l with
  | nil => exact hkf
  | cons i rest ih =>
    rw [made] at hsound
    have hpass := pass_posDef (i := i) he hR hM hP hkf (hsound _ List.mem_cons_self)
    cases hreturned : (l.pass .real e h12 cfg propagated i).2 with
    | true =>
      rw [passes_cons_of_returned hreturned]
      exact hpass
    | false =>
      rw [passes_cons hreturned]
      refine ih hpass fun p hp => hsound p (List.mem_cons_of_mem _ ?_)
      rw [hreturned, if_neg Bool.false_ne_true]
      exact hp

/-- How a last pass carries the propagated covariance over to the new estimate. -/
noncomputable def carriedOver (e : Eigen ℝ) (h12 : 12 ≤ n) (cfg : UpdateConfig ℝ M Env)
    (propagated : Esekf M) (l : UpdateLoop M Env) : Matrix (Fin n) (Fin n) ℝ :=
  Turn.product (l.closing e h12 cfg propagated) * Turn.product (l.carrying propagated)

theorem passes_le (he : e.Inverts) (hR : 0 < cfg.R) (hM : Manifold.AllApart M)
    {l : UpdateLoop M Env} {is : List ℤ} (hP : propagated.P.PosDef)
    (hunit : ∀ p ∈ l.made .real e h12 cfg propagated is, (answer cfg p.1).2.valid = true →
      ∀ t ∈ p.1.carrying propagated, IsUnit t.factor)
    (hdone : (l.passes .real e h12 cfg propagated is).2 = true) :
    ∃ p ∈ l.made .real e h12 cfg propagated is,
      (p.1.carriedOver e h12 cfg propagated * propagated.P *
          (p.1.carriedOver e h12 cfg propagated)ᵀ -
        (l.passes .real e h12 cfg propagated is).1.kf.P).PosSemidef := by
  obtain ⟨p, hp, hvalid, hleft⟩ := passes_returned_last hdone
  refine ⟨p, hp, ?_⟩
  have hclosed := closedP_le he hR (stepped_posDef e h12 cfg hP (hunit p hp hvalid))
    (hM _ _ _)
  rw [stepped_P] at hclosed
  rw [hleft, carriedOver, transpose_mul]
  show (_ - p.1.closedP .real e h12 cfg propagated).PosSemidef
  simpa only [Matrix.mul_assoc] using hclosed

end UpdateLoop

end RobotNav
