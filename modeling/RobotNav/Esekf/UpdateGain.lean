/-
The gain and the covariance of one pass.

The branch on the number of measurements chooses between two ways to compute one gain, and
the loops that rewrite the covariance block by block in the last pass are a congruence.
-/
import RobotNav.Esekf.Update

namespace RobotNav

open Matrix

/-- The documented result of `inverse`: the inverse, where there is one. -/
def Eigen.Inverts (e : Eigen ℝ) : Prop :=
  ∀ k (A : Matrix (Fin k) (Fin k) ℝ), IsUnit A → e.inverse k A * A = 1

theorem Eigen.real_inverts : Eigen.real.Inverts := fun _ A hA =>
  nonsing_inv_mul A ((isUnit_iff_isUnit_det A).mp hA)

section

variable {e : Eigen ℝ} {n : ℕ} (h12 : 12 ≤ n)

/-- The derivative of the measurements by the whole correction. -/
def DynShare.jacobian (share : DynShare ℝ) : Matrix (Fin share.rows) (Fin n) ℝ :=
  share.hx * (lead h12).select ℝ

theorem Eigen.Inverts.eq_inv (he : e.Inverts) {k : ℕ} {A : Matrix (Fin k) (Fin k) ℝ}
    (hA : IsUnit A) : e.inverse k A = A⁻¹ :=
  (inv_eq_left_inv (he k A hA)).symm

theorem Turn.foldl_onVector (ts : List (Turn n ℝ)) (v : Fin n → ℝ) :
    ts.foldl Turn.onVector v = Turn.product ts *ᵥ v := by
  induction ts using List.reverseRecOn with
  | nil => exact (one_mulVec v).symm
  | append_singleton ts t ih =>
    rw [List.foldl_append, List.foldl_cons, List.foldl_nil, ih, Turn.onVector, Turn.product_snoc,
      ← mulVec_mulVec, Turn.matrix, Block.widen_mulVec]

variable {P : Matrix (Fin n) (Fin n) ℝ} {R : ℝ} (share : DynShare ℝ)

/-! ## The gain -/

theorem gainOfFew_eq :
    gainOfFew e h12 P R share =
      (Gain.byInnovation P (share.jacobian h12) R
          (e.inverse share.rows (Gain.innovation P (share.jacobian h12) R)) *ᵥ share.h,
        Gain.byInnovation P (share.jacobian h12) R
          (e.inverse share.rows (Gain.innovation P (share.jacobian h12) R)) *
            share.jacobian h12) := by
  rw [gainOfFew, Block.setCols_zero]
  rfl

/-- The matrix `P_inv` of the other branch. -/
noncomputable def DynShare.posterior (e : Eigen ℝ) (P : Matrix (Fin n) (Fin n) ℝ) (R : ℝ) :
    Matrix (Fin n) (Fin n) ℝ :=
  e.inverse n (Gain.information P (share.jacobian h12) R)

theorem gainOfMany_eq (he : e.Inverts) (hP : P.PosDef) (hR : 0 < R) :
    gainOfMany e h12 P R share =
      (Gain.byInformation (share.jacobian h12) (share.posterior h12 e P R) *ᵥ share.h,
        Gain.byInformation (share.jacobian h12) (share.posterior h12 e P R) *
          share.jacobian h12) := by
  have hinv : e.inverse n (R⁻¹ • P) = (R⁻¹ • P)⁻¹ :=
    he.eq_inv (Gain.isUnit_smul hP.isUnit hR.ne')
  have hinfo : (lead h12).setBlock (lead h12)
      ((lead h12).cols ((lead h12).rows (R⁻¹ • P)⁻¹) + share.hxᵀ * share.hx) (R⁻¹ • P)⁻¹ =
      Gain.information P (share.jacobian h12) R := by
    rw [Block.setBlock_add, Gain.information, DynShare.jacobian, transpose_mul]
    simp only [Matrix.mul_assoc]
  rw [gainOfMany]
  simp only [hinv, hinfo]
  rw [Block.setCols_zero, Block.cols_eq_mul, Gain.byInformation, DynShare.posterior,
    DynShare.jacobian, transpose_mul]
  simp only [Matrix.mul_assoc]

variable {share}

theorem posterior_mul (he : e.Inverts) (hP : P.PosDef) (hR : 0 < R) :
    share.posterior h12 e P R * Gain.information P (share.jacobian h12) R = 1 :=
  he n _ (Gain.posDef_information hP hR).isUnit

theorem gain_eq (he : e.Inverts) (hP : P.PosDef) (hR : 0 < R) :
    gain e h12 P R share =
      (Gain.byInformation (share.jacobian h12) (share.posterior h12 e P R) *ᵥ share.h,
        Gain.byInformation (share.jacobian h12) (share.posterior h12 e P R) *
          share.jacobian h12) := by
  rw [gain]
  split_ifs with hfew
  · have hS : Gain.innovation P (share.jacobian h12) R *
        e.inverse share.rows (Gain.innovation P (share.jacobian h12) R) = 1 :=
      mul_eq_one_comm.mp (he _ _ (Gain.posDef_innovation hP.posSemidef hR).isUnit)
    rw [gainOfFew_eq, Gain.byInnovation_eq_byInformation hP.isUnit hR.ne' hS
      (posterior_mul h12 he hP hR)]
  · exact gainOfMany_eq h12 share he hP hR

/-- The two branches on the number of measurements give one gain: the same step and the
same share of the covariance, whatever the measurements. -/
theorem gain_branches_agree (he : e.Inverts) (hP : P.PosDef) (hR : 0 < R)
    (share : DynShare ℝ) : gainOfFew e h12 P R share = gainOfMany e h12 P R share := by
  have hS : Gain.innovation P (share.jacobian h12) R *
      e.inverse share.rows (Gain.innovation P (share.jacobian h12) R) = 1 :=
    mul_eq_one_comm.mp (he _ _ (Gain.posDef_innovation hP.posSemidef hR).isUnit)
  rw [gainOfFew_eq, gainOfMany_eq h12 share he hP hR,
    Gain.byInnovation_eq_byInformation hP.isUnit hR.ne' hS (posterior_mul h12 he hP hR)]

theorem gain_branches_agree_one :
    gainOfFew .real (by decide : 12 ≤ 23) 1 (1 / 1000)
        { valid := true, converge := true, rows := 1, h := fun _ => 1, hx := fun _ _ => 1 } =
      gainOfMany .real (by decide : 12 ≤ 23) 1 (1 / 1000)
        { valid := true, converge := true, rows := 1, h := fun _ => 1, hx := fun _ _ => 1 } :=
  gain_branches_agree _ Eigen.real_inverts PosDef.one (by norm_num) _

/-- A row that looks at one component looks at that one of the whole correction. -/
theorem DynShare.jacobian_single {r : Fin share.rows} {j : Fin 12}
    (h : share.hx r = Pi.single j 1) :
    share.jacobian h12 r = Pi.single ((lead h12).entry j) 1 := by
  show share.hx r ᵥ* (lead h12).select ℝ = _
  rw [h, single_one_vecMul]
  funext i
  show (1 : Matrix (Fin n) (Fin n) ℝ) ((lead h12).entry j) i = _
  rw [one_eq_pi_single]

/-- What one measurement of a component does: each component follows it by its covariance
with the measured one. -/
theorem gain_single (he : e.Inverts) (hn : 1 < n) (hP : P.PosDef) (hR : 0 < R)
    (hrows : share.rows = 1) (z : ℝ) (hh : ∀ r, share.h r = z) (j : Fin 12)
    (hhx : ∀ r, share.hx r = Pi.single j 1) (i : Fin n) :
    (gain e h12 P R share).1 i =
      P i ((lead h12).entry j) * (z / (P ((lead h12).entry j) ((lead h12).entry j) + R)) := by
  obtain ⟨valid, converge, rows, h, hx⟩ := share
  dsimp only at hrows
  subst hrows
  set a := (lead h12).entry j with ha
  set share : DynShare ℝ := ⟨valid, converge, 1, h, hx⟩ with hshare
  set H := share.jacobian h12 with hH
  have hrow : ∀ r, H r = Pi.single a 1 := fun r => DynShare.jacobian_single h12 (hhx r)
  have hgain : ∀ r, (P * Hᵀ) i r = P i a := by
    intro r
    show P i ⬝ᵥ H r = P i a
    rw [hrow, dotProduct_single, mul_one]
  have hmeasured : (H * P * Hᵀ) 0 0 = P a a := by
    show (H 0 ᵥ* P) ⬝ᵥ H 0 = P a a
    rw [hrow, dotProduct_single, mul_one, single_one_vecMul]
    rfl
  set S := Gain.innovation P H R with hS
  have hunit : IsUnit S := (Gain.posDef_innovation hP.posSemidef hR).isUnit
  have hinv : e.inverse 1 S 0 0 * (R⁻¹ * P a a + 1) = 1 := by
    have hone := congrFun₂ (he 1 S hunit) 0 0
    rw [mul_apply, Fin.sum_univ_one] at hone
    rw [← hmeasured]
    exact hone
  have hpos : 0 < P a a := hP.diag_pos
  have hdx : (Gain.byInnovation P H R (e.inverse 1 S) *ᵥ h) i =
      R⁻¹ * (P i a * e.inverse 1 S 0 0) * z := by
    show (fun r => (R⁻¹ • (P * Hᵀ * e.inverse 1 S)) i r) ⬝ᵥ h = _
    rw [dotProduct, Fin.sum_univ_one, Matrix.smul_apply, mul_apply, Fin.sum_univ_one, hgain,
      smul_eq_mul]
    exact congrArg _ (hh 0)
  rw [gain, if_pos hn, gainOfFew_eq]
  refine hdx.trans ?_
  have hinverse : e.inverse 1 S 0 0 = R / (P a a + R) := by
    rw [eq_div_iff (by positivity)]
    field_simp at hinv
    linarith
  rw [hinverse]
  field_simp

/-! ## The covariance of the last pass -/

/-- What the loops of the last pass keep, after some of the turns. -/
structure ClosingAfter (P Kx : Matrix (Fin n) (Fin n) ℝ) (J : Matrix (Fin n) (Fin n) ℝ)
    (s : Closing ℝ n) : Prop where
  L : s.L = J * P * Jᵀ
  P : s.P = P * Jᵀ
  Kx : (lead h12).cols s.Kx = J * (lead h12).cols Kx

theorem closing_foldl (Kx : Matrix (Fin n) (Fin n) ℝ) (ts : List (Turn n ℝ))
    (happart : Turn.AllApart ts) :
    ClosingAfter h12 P Kx (Turn.product ts) (ts.foldl (Closing.step h12) ⟨P, P, Kx⟩) := by
  induction ts using List.reverseRecOn with
  | nil => exact ⟨by simp [Turn.product], by simp [Turn.product], by simp [Turn.product]⟩
  | append_singleton ts t ih =>
    obtain ⟨hrest, hlast⟩ := happart.snoc
    obtain ⟨hL, hP, hKx⟩ := ih hrest
    rw [List.foldl_append, List.foldl_cons, List.foldl_nil, Turn.product_snoc]
    set s := ts.foldl (Closing.step h12) ⟨P, P, Kx⟩ with hs
    -- the earlier turns have not touched the rows of this block
    have hsame : t.block.rows s.P = t.block.rows s.L := by
      rw [hL, hP, Matrix.mul_assoc, Turn.rows_product_mul hlast]
    refine ⟨?_, ?_, ?_⟩
    · show t.block.setCols (t.block.cols (t.block.setRows (t.factor * t.block.rows s.P) s.L) *
        t.factorᵀ) (t.block.setRows (t.factor * t.block.rows s.P) s.L) = _
      rw [hsame, ← Block.widen_mul, ← Block.mul_widen_transpose, hL, Turn.matrix, transpose_mul]
      simp only [Matrix.mul_assoc]
    · show t.block.setCols (t.block.cols s.P * t.factorᵀ) s.P = _
      rw [← Block.mul_widen_transpose, hP, Turn.matrix, transpose_mul, Matrix.mul_assoc]
    · show (lead h12).cols ((lead h12).setCols (t.block.setRows (t.factor *
        t.block.rows ((lead h12).cols s.Kx)) ((lead h12).cols s.Kx)) s.Kx) = _
      rw [Block.cols_setCols, ← Block.widen_mul, hKx, Turn.matrix, Matrix.mul_assoc]

/-- The loops that rewrite `L_`, `P_` and `K_x` in place leave a congruence, whatever the
blocks, as long as they are apart. -/
theorem closed_eq {ts : List (Turn n ℝ)} (happart : Turn.AllApart ts) {k : ℕ}
    (G : Matrix (Fin n) (Fin k) ℝ) (hx : Matrix (Fin k) (Fin 12) ℝ) :
    closed h12 P (G * (hx * (lead h12).select ℝ)) ts =
      Turn.product ts * ((1 - G * (hx * (lead h12).select ℝ)) * P) * (Turn.product ts)ᵀ := by
  obtain ⟨hL, hP, hKx⟩ := closing_foldl h12 (P := P) (G * (hx * (lead h12).select ℝ)) ts happart
  have hwhole : (lead h12).cols (G * (hx * (lead h12).select ℝ)) * (lead h12).select ℝ =
      G * (hx * (lead h12).select ℝ) := by
    rw [← Matrix.mul_assoc, Block.cols_mul_select]
  rw [closed]
  simp only [hL, hP, hKx]
  rw [Block.rows_eq _ (P * _), Matrix.mul_assoc _ ((lead h12).cols _), ← Matrix.mul_assoc
    ((lead h12).cols _), hwhole, Matrix.sub_mul, Matrix.one_mul, Matrix.mul_sub, Matrix.sub_mul]
  simp only [Matrix.mul_assoc]

end

end RobotNav
