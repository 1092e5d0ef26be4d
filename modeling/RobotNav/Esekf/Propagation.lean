/-
Runs of predictions.

No rate of change reaches the extrinsics, the biases and gravity, and the rows of the
transition matrix at them are those of the identity: a prediction leaves them and their
covariances, but for what the biases' own noise adds.
-/
import RobotNav.Esekf.Predict

namespace RobotNav

open Matrix

namespace SO3

theorem oplus_zero (q : SO3 ℝ) (scale : ℝ) : q.oplus .real 0 scale = q := by
  rw [oplus, exp, ofExp_zero, mul_identity]

end SO3

namespace StateIkfom

/-! ## No correction -/

theorem boxplus_zero (x : StateIkfom ℝ) : x.boxplus .real 0 1 = x := by
  have hget : ∀ {k : ℕ} (b : Block 23 k), b.get (0 : Fin 23 → ℝ) = 0 := fun _ => rfl
  rw [boxplus]
  simp only [hget, smul_zero, add_zero, SO3.boxplus_zero, S2.boxplus_zero]

theorem boxminus_self {x : StateIkfom ℝ} (h : x.grav.Regular) : x.boxminus .real x = 0 := by
  apply eq_zero_of_get
  · rw [boxminus_pos, sub_self]
  · rw [boxminus_rot, SO3.boxminus_self]
  · rw [boxminus_offsetRLI, SO3.boxminus_self]
  · rw [boxminus_offsetTLI, sub_self]
  · rw [boxminus_vel, sub_self]
  · rw [boxminus_bg, sub_self]
  · rw [boxminus_ba, sub_self]
  · rw [boxminus_grav, h.boxminus_self]

variable (s : StateIkfom ℝ) (input : InputIkfom ℝ) (dt : ℝ)

/-! ## One prediction -/

theorem moved_offsetRLI : (moved s input dt).offsetRLI = s.offsetRLI := by
  show s.offsetRLI.oplus .real (offsetRDim.get (s.getF input)) dt = s.offsetRLI
  rw [getF_none s input (by decide) (by decide) (by decide), SO3.oplus_zero]

theorem moved_offsetTLI : (moved s input dt).offsetTLI = s.offsetTLI := by
  show s.offsetTLI + dt • offsetTDim.get (s.getF input) = s.offsetTLI
  rw [getF_none s input (by decide) (by decide) (by decide), smul_zero, add_zero]

theorem moved_bg : (moved s input dt).bg = s.bg := by
  show s.bg + dt • bgDim.get (s.getF input) = s.bg
  rw [getF_none s input (by decide) (by decide) (by decide), smul_zero, add_zero]

theorem moved_ba : (moved s input dt).ba = s.ba := by
  show s.ba + dt • baDim.get (s.getF input) = s.ba
  rw [getF_none s input (by decide) (by decide) (by decide), smul_zero, add_zero]

theorem moved_grav : (moved s input dt).grav = s.grav := by
  show s.grav.oplus .real (gravDim.get (s.getF input)) dt = s.grav
  rw [getF_none s input (by decide) (by decide) (by decide), S2.oplus_zero]

/-- While gravity has its length, its block of the transition matrix is the identity. -/
theorem gravityBlock_eq_one (h : s.grav.Regular) :
    gravityBlock .real s (moved s input dt) = 1 := by
  have hzero : (fun _ => lit 0 : Fin 2 → ℝ) = 0 := by
    funext i
    exact Int.cast_zero
  rw [gravityBlock, moved_grav, hzero, h.nxYy_mul_mx_zero]

/-- The components of a correction that belong to the extrinsics, the biases or gravity. -/
def Still (i : Fin 23) : Prop := 6 ≤ i.val ∧ i.val < 12 ∨ 15 ≤ i.val

instance (i : Fin 23) : Decidable (Still i) := inferInstanceAs (Decidable (_ ∨ _))

theorem transition_row (h : s.grav.Regular) {i : Fin 23} (hi : Still i) :
    transitionMatrix s input dt i = (1 : Matrix (Fin 23) (Fin 23) ℝ) i := by
  have hplace : (∃ b ∈ stillBlocks, ∃ j, b.entry j = i) ∨ ∃ j, gravIdx.entry j = i := by
    revert i
    decide
  rcases hplace with ⟨b, hb, j, rfl⟩ | ⟨j, rfl⟩
  · exact congrFun (rows_transition_still s input dt hb) j
  · have hrows := rows_transition_grav s input dt
    rw [gravityBlock_eq_one s input dt h, Matrix.one_mul] at hrows
    exact congrFun hrows j

/-- Which noise is that of a bias. -/
def biasNoise (i : Fin 23) : Option (Fin 12) :=
  if h : 15 ≤ i.val ∧ i.val < 21 then some ⟨i.val - 9, by omega⟩ else none

/-- The covariance of the noises of two biases. -/
def biasNoises (Q : Matrix (Fin 12) (Fin 12) ℝ) (i j : Fin 23) : ℝ :=
  match biasNoise i, biasNoise j with
  | some a, some b => Q a b
  | _, _ => 0

theorem dfDw_bg : bgDim.rows (s.dfDw) = nbgIdx.setCols 1 0 := by
  rw [dfDw, Block.rows_setBlock_of_apart (by decide), Block.rows_setBlock,
    Block.rows_setBlock_of_apart (by decide), Block.rows_setBlock_of_apart (by decide)]
  rfl

theorem dfDw_ba : baDim.rows (s.dfDw) = nbaIdx.setCols 1 0 := by
  rw [dfDw, Block.rows_setBlock, Block.rows_setBlock_of_apart (by decide),
    Block.rows_setBlock_of_apart (by decide), Block.rows_setBlock_of_apart (by decide)]
  rfl

theorem dfDw_none {k : ℕ} {b : Block 24 k} (hvel : velDim.Apart b) (hrot : rotDim.Apart b)
    (hbg : bgDim.Apart b) (hba : baDim.Apart b) : b.rows (s.dfDw) = 0 := by
  rw [dfDw, Block.rows_setBlock_of_apart hba, Block.rows_setBlock_of_apart hbg,
    Block.rows_setBlock_of_apart hrot, Block.rows_setBlock_of_apart hvel]
  rfl

theorem rows_noise {k : ℕ} (b : Block 23 k) : ∃ (other : Matrix (Fin 3) (Fin 3) ℝ)
    (turned : Matrix (Fin 2) (Fin 3) ℝ), b.rows (noiseMatrix s input dt) = dt • b.rows
      (gravIdx.setRows (turned * gravDim.rows s.dfDw)
        (offsetRIdx.setRows (other * offsetRDim.rows s.dfDw)
          (rotIdx.setRows (rateMatrix .real s input dt * rotDim.rows s.dfDw)
            (baIdx.setRows (baDim.rows s.dfDw)
              (bgIdx.setRows (bgDim.rows s.dfDw)
                (velIdx.setRows (velDim.rows s.dfDw)
                  (offsetTIdx.setRows (offsetTDim.rows s.dfDw)
                    (posIdx.setRows (posDim.rows s.dfDw) 0)))))))) := by
  obtain ⟨other, turned, -, hfw⟩ := fill_final .real s input dt s.dfDw (moved s input dt)
  refine ⟨other, turned, ?_⟩
  rw [← hfw]
  rfl

theorem noise_row {i : Fin 23} (hi : Still i) :
    noiseMatrix s input dt i = match biasNoise i with
      | some a => dt • (1 : Matrix (Fin 12) (Fin 12) ℝ) a
      | none => 0 := by
  have hplace : (∃ j, offsetRIdx.entry j = i) ∨ (∃ j, offsetTIdx.entry j = i) ∨
      (∃ j, bgIdx.entry j = i) ∨ (∃ j, baIdx.entry j = i) ∨ ∃ j, gravIdx.entry j = i := by
    revert i
    decide
  rcases hplace with ⟨j, rfl⟩ | ⟨j, rfl⟩ | ⟨j, rfl⟩ | ⟨j, rfl⟩ | ⟨j, rfl⟩
  · obtain ⟨other, turned, hrows⟩ := rows_noise s input dt offsetRIdx
    have hnone : biasNoise (offsetRIdx.entry j) = none := by revert j; decide
    rw [Block.rows_setRows_of_apart (by decide), Block.rows_setRows,
      dfDw_none s (by decide) (by decide) (by decide) (by decide), Matrix.mul_zero, smul_zero]
      at hrows
    rw [hnone]
    exact congrFun hrows j
  · obtain ⟨other, turned, hrows⟩ := rows_noise s input dt offsetTIdx
    have hnone : biasNoise (offsetTIdx.entry j) = none := by revert j; decide
    iterate 6 rw [Block.rows_setRows_of_apart (by decide)] at hrows
    rw [Block.rows_setRows, dfDw_none s (by decide) (by decide) (by decide) (by decide),
      smul_zero] at hrows
    rw [hnone]
    exact congrFun hrows j
  · obtain ⟨other, turned, hrows⟩ := rows_noise s input dt bgIdx
    have hsome : biasNoise (bgIdx.entry j) = some (nbgIdx.entry j) := by revert j; decide
    iterate 4 rw [Block.rows_setRows_of_apart (by decide)] at hrows
    rw [Block.rows_setRows, dfDw_bg, Block.setCols_one] at hrows
    rw [hsome]
    exact congrFun hrows j
  · obtain ⟨other, turned, hrows⟩ := rows_noise s input dt baIdx
    have hsome : biasNoise (baIdx.entry j) = some (nbaIdx.entry j) := by revert j; decide
    iterate 3 rw [Block.rows_setRows_of_apart (by decide)] at hrows
    rw [Block.rows_setRows, dfDw_ba, Block.setCols_one] at hrows
    rw [hsome]
    exact congrFun hrows j
  · obtain ⟨other, turned, hrows⟩ := rows_noise s input dt gravIdx
    have hnone : biasNoise (gravIdx.entry j) = none := by revert j; decide
    rw [Block.rows_setRows, dfDw_none s (by decide) (by decide) (by decide) (by decide),
      Matrix.mul_zero, smul_zero] at hrows
    rw [hnone]
    exact congrFun hrows j

theorem congruence_apply {n q : ℕ} (F : Matrix (Fin n) (Fin q) ℝ) (P : Matrix (Fin q) (Fin q) ℝ)
    (i j : Fin n) : (F * P * Fᵀ) i j = F i ⬝ᵥ (P *ᵥ F j) := by
  rw [mul_apply, dotProduct_mulVec]
  rfl

theorem one_congruence {q : ℕ} (P : Matrix (Fin q) (Fin q) ℝ) (i j : Fin q) :
    (1 : Matrix (Fin q) (Fin q) ℝ) i ⬝ᵥ (P *ᵥ (1 : Matrix (Fin q) (Fin q) ℝ) j) = P i j := by
  rw [← congruence_apply, Matrix.one_mul, transpose_one, Matrix.mul_one]

/-- One prediction: between components that are still, only noises of biases are added. -/
theorem predict_P {kf : Esekf (manifold .real)} (h : kf.x.grav.Regular)
    (Q : Matrix (Fin 12) (Fin 12) ℝ) {i j : Fin 23} (hi : Still i) (hj : Still j) :
    (kf.predict .real (processModel .real) dt Q input).P i j =
      kf.P i j + dt * dt * biasNoises Q i j := by
  rw [predict_eq]
  show (transitionMatrix kf.x input dt * kf.P * (transitionMatrix kf.x input dt)ᵀ) i j +
    (noiseMatrix kf.x input dt * Q * (noiseMatrix kf.x input dt)ᵀ) i j = _
  rw [congruence_apply, congruence_apply, transition_row kf.x input dt h hi,
    transition_row kf.x input dt h hj, one_congruence, noise_row kf.x input dt hi,
    noise_row kf.x input dt hj, biasNoises]
  cases biasNoise i with
  | none => simp
  | some a =>
    cases biasNoise j with
    | none => simp
    | some b =>
      show _ + (dt • (1 : Matrix (Fin 12) (Fin 12) ℝ) a) ⬝ᵥ
        (Q *ᵥ (dt • (1 : Matrix (Fin 12) (Fin 12) ℝ) b)) = _
      rw [mulVec_smul, smul_dotProduct, dotProduct_smul, one_congruence, smul_eq_mul, smul_eq_mul,
        mul_assoc]

/-! ## Any number of them -/

/-- The arguments of one call. -/
structure Prediction where
  dt : ℝ
  Q : Matrix (Fin 12) (Fin 12) ℝ
  input : InputIkfom ℝ

noncomputable def predictAll (kf : Esekf (manifold .real)) (calls : List Prediction) :
    Esekf (manifold .real) :=
  calls.foldl (fun kf p => kf.predict .real (processModel .real) p.dt p.Q p.input) kf

theorem predictAll_snoc (kf : Esekf (manifold .real)) (calls : List Prediction) (p : Prediction) :
    predictAll kf (calls ++ [p]) =
      (predictAll kf calls).predict .real (processModel .real) p.dt p.Q p.input :=
  List.foldl_append

/-- The members no prediction changes. -/
structure SameStill (s s' : StateIkfom ℝ) : Prop where
  offsetRLI : s'.offsetRLI = s.offsetRLI
  offsetTLI : s'.offsetTLI = s.offsetTLI
  bg : s'.bg = s.bg
  ba : s'.ba = s.ba
  grav : s'.grav = s.grav

theorem SameStill.moved {s s' : StateIkfom ℝ} (h : SameStill s s') (input : InputIkfom ℝ)
    (dt : ℝ) : SameStill s (s'.moved input dt) :=
  ⟨(moved_offsetRLI s' input dt).trans h.offsetRLI, (moved_offsetTLI s' input dt).trans h.offsetTLI,
    (moved_bg s' input dt).trans h.bg, (moved_ba s' input dt).trans h.ba,
    (moved_grav s' input dt).trans h.grav⟩

theorem predictAll_sameStill (kf : Esekf (manifold .real)) (calls : List Prediction) :
    SameStill kf.x (predictAll kf calls).x := by
  induction calls using List.reverseRecOn with
  | nil => exact ⟨rfl, rfl, rfl, rfl, rfl⟩
  | append_singleton calls p ih =>
    rw [predictAll_snoc]
    exact ih.moved p.input p.dt

/-- Predictions leave the extrinsics, the biases and gravity as they are, and of their
covariances change only those of the biases, by the noise of each call. -/
theorem predictAll_still {kf : Esekf (manifold .real)} (h : kf.x.grav.Regular)
    (calls : List Prediction) :
    SameStill kf.x (predictAll kf calls).x ∧
      ∀ i j, Still i → Still j → (predictAll kf calls).P i j =
        kf.P i j + (calls.map fun p => p.dt * p.dt * biasNoises p.Q i j).sum := by
  refine ⟨predictAll_sameStill kf calls, fun i j hi hj => ?_⟩
  induction calls using List.reverseRecOn with
  | nil => simp [predictAll]
  | append_singleton calls p ih =>
    have hgrav : (predictAll kf calls).x.grav.Regular := by
      rw [(predictAll_sameStill kf calls).grav]
      exact h
    rw [predictAll_snoc, predict_P p.input p.dt hgrav p.Q hi hj, ih, List.map_append,
      List.sum_append, add_assoc]
    simp

theorem predictAll_still_turning :
    SameStill create (predictAll ⟨create, 1⟩ [⟨1 / 100, 1, ⟨0, fun _ => 1⟩⟩]).x ∧
      ∀ i j, Still i → Still j →
        (predictAll ⟨create, 1⟩ [⟨1 / 100, 1, ⟨0, fun _ => 1⟩⟩]).P i j =
          (1 : Matrix (Fin 23) (Fin 23) ℝ) i j +
            (([⟨1 / 100, 1, ⟨0, fun _ => 1⟩⟩] : List Prediction).map fun p =>
              p.dt * p.dt * biasNoises p.Q i j).sum :=
  @predictAll_still ⟨create, 1⟩ S2.create_regular _

end StateIkfom

end RobotNav
