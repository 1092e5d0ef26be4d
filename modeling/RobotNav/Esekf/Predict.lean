/-
`esekf::predict`: the state moved by its rate of change, the covariance by the transition
matrix.

The scale the loops hand to the exponential is an integer division, so the rotations they
mean to put on the diagonal of the transition matrix are ones; what is left of it beside
the process model is the block of gravity.
-/
import RobotNav.Esekf.Directions
import RobotNav.Esekf.State
import RobotNav.Library.Gain

namespace RobotNav

open Matrix

variable {K : Type} [Field K] [LinearOrder K] [FloorRing K]

/-- `esekf`: the members `predict` and the update change. -/
structure Esekf {n m : ℕ} (M : Manifold K n m) where
  x : M.State
  P : Matrix (Fin n) (Fin n) K

/-- `f`, `f_x` and `f_w`. -/
structure ProcessModel {n m : ℕ} (M : Manifold K n m) (Input : Type) (q : ℕ) where
  f : M.State → Input → Fin m → K
  fx : M.State → Input → Matrix (Fin m) (Fin n) K
  fw : M.State → Input → Matrix (Fin m) (Fin q) K

/-- The matrices the loops of `predict` fill: `F_x1`, `f_x_final` and `f_w_final`. -/
structure Transition (K : Type) (n q : ℕ) where
  fx1 : Matrix (Fin n) (Fin n) K
  fxFinal : Matrix (Fin n) (Fin n) K
  fwFinal : Matrix (Fin n) (Fin q) K

namespace Transition

variable (c : CMath K) {n m q : ℕ} {M : Manifold K n m}
variable (f : Fin m → K) (fx : Matrix (Fin m) (Fin n) K) (fw : Matrix (Fin m) (Fin q) K) (dt : K)

def vectStep (t : Transition K n q) (part : VectPart n m) : Transition K n q :=
  { t with
    fxFinal := part.idx.setRows (part.dim.rows fx) t.fxFinal
    fwFinal := part.idx.setRows (part.dim.rows fw) t.fwFinal }

def so3Step (t : Transition K n q) (part : SO3Part n m) : Transition K n q :=
  let segSO3 : Fin 3 → K := fun i => -lit 1 * part.dim.get f i * dt
  let res := SO3.ofExp c segSO3 (lit (1 / 2))
  let resTempSO3 := MTK.aMatrix c segSO3
  { fx1 := part.idx.setBlock part.idx res.toRotationMatrix t.fx1
    fxFinal := part.idx.setRows (resTempSO3 * part.dim.rows fx) t.fxFinal
    fwFinal := part.idx.setRows (resTempSO3 * part.dim.rows fw) t.fwFinal }

def s2Step (x before : M.State) (t : Transition K n q) (part : S2Part K n m M.State) :
    Transition K n q :=
  let segS2 : Fin 3 → K := fun i => part.dim.get f i * dt
  let res := SO3.ofExp c segS2 (lit (1 / 2))
  let nx := (part.member x).nxYy
  let mx := (part.member before).mx c fun _ => lit 0
  let beforeHat := (part.member before).hat
  let resTempS2 := -nx * res.toRotationMatrix * beforeHat * (MTK.aMatrix c segS2)ᵀ
  { fx1 := part.idx.setBlock part.idx (nx * res.toRotationMatrix * mx) t.fx1
    fxFinal := part.idx.setRows (resTempS2 * part.dim.rows fx) t.fxFinal
    fwFinal := part.idx.setRows (resTempS2 * part.dim.rows fw) t.fwFinal }

/-- The three loops.  The matrices start unset, and the parts write every row. -/
def fill (x before : M.State) : Transition K n q :=
  M.s2State.foldl (s2Step c f fx fw dt x before) <|
  M.so3State.foldl (so3Step c f fx fw dt) <|
  M.vectState.foldl (vectStep fx fw) ⟨1, 0, 0⟩

end Transition

namespace Esekf

variable (c : CMath K) {n m q : ℕ} {M : Manifold K n m} {Input : Type}
variable (model : ProcessModel M Input q)

/-- The state and the filled matrices of one prediction. -/
def propagated (x : M.State) (dt : K) (input : Input) : M.State × Transition K n q :=
  let f := model.f x input
  let after := M.oplus x f dt
  (after, Transition.fill c f (model.fx x input) (model.fw x input) dt after x)

def predict (kf : Esekf M) (dt : K) (Q : Matrix (Fin q) (Fin q) K) (input : Input) : Esekf M :=
  let (x, t) := propagated c model kf.x dt input
  let fx1 := t.fx1 + dt • t.fxFinal
  { x := x
    P := fx1 * kf.P * fx1ᵀ + (dt • t.fwFinal) * Q * (dt • t.fwFinal)ᵀ }

end Esekf

/-! ## The transition of `state_ikfom` -/

namespace StateIkfom

variable (c : CMath K)

def processModel : ProcessModel (manifold c) (InputIkfom K) 12 where
  f := getF
  fx := fun s input => dfDx c s input
  fw := fun s _ => dfDw s

/-- The block of gravity in the transition matrix. -/
def gravityBlock (s : StateIkfom K) (after : StateIkfom K) : Matrix (Fin 2) (Fin 2) K :=
  after.grav.nxYy * s.grav.mx c fun _ => lit 0

variable (s : StateIkfom K) (input : InputIkfom K) (dt : K)

theorem getF_pos : posDim.get (s.getF input) = s.vel := Block.get_set _ _ _

theorem getF_rot : rotDim.get (s.getF input) = input.gyro - s.bg := by
  rw [getF, Block.get_set_of_apart (by decide), Block.get_set]

theorem getF_vel : velDim.get (s.getF input) = s.rot.rotate (input.acc - s.ba) + s.grav.vec := by
  rw [getF, Block.get_set_of_apart (by decide), Block.get_set_of_apart (by decide), Block.get_set]

theorem getF_none {k : ℕ} {b : Block 24 k} (hpos : posDim.Apart b) (hrot : rotDim.Apart b)
    (hvel : velDim.Apart b) : b.get (s.getF input) = 0 := by
  rw [getF, Block.get_set_of_apart hpos, Block.get_set_of_apart hrot, Block.get_set_of_apart hvel]
  funext j
  exact Int.cast_zero

/-! ### Its matrices -/

/-- What turns the rate of rotation into a change of the correction. -/
def rateMatrix : Matrix (Fin 3) (Fin 3) K :=
  MTK.aMatrix c fun i => -lit 1 * rotDim.get (s.getF input) i * dt

/-- `f_x_final` and the filled `f_w_final`, from the derivative of the process model. -/
theorem fill_final {q : ℕ} (fw : Matrix (Fin 24) (Fin q) K) (after : StateIkfom K) :
    ∃ (other : Matrix (Fin 3) (Fin 3) K) (turned : Matrix (Fin 2) (Fin 3) K),
      (Transition.fill (M := manifold c) c (s.getF input) (s.dfDx c input) fw dt after s).fxFinal =
        gravIdx.setRows (turned * gravDim.rows (s.dfDx c input))
          (offsetRIdx.setRows (other * offsetRDim.rows (s.dfDx c input))
            (rotIdx.setRows (rateMatrix c s input dt * rotDim.rows (s.dfDx c input))
              (baIdx.setRows (baDim.rows (s.dfDx c input))
                (bgIdx.setRows (bgDim.rows (s.dfDx c input))
                  (velIdx.setRows (velDim.rows (s.dfDx c input))
                    (offsetTIdx.setRows (offsetTDim.rows (s.dfDx c input))
                      (posIdx.setRows (posDim.rows (s.dfDx c input)) 0))))))) ∧
      (Transition.fill (M := manifold c) c (s.getF input) (s.dfDx c input) fw dt after s).fwFinal =
        gravIdx.setRows (turned * gravDim.rows fw)
          (offsetRIdx.setRows (other * offsetRDim.rows fw)
            (rotIdx.setRows (rateMatrix c s input dt * rotDim.rows fw)
              (baIdx.setRows (baDim.rows fw)
                (bgIdx.setRows (bgDim.rows fw)
                  (velIdx.setRows (velDim.rows fw)
                    (offsetTIdx.setRows (offsetTDim.rows fw)
                      (posIdx.setRows (posDim.rows fw) 0))))))) :=
  ⟨_, _, rfl, rfl⟩

section

variable (s : StateIkfom ℝ) (input : InputIkfom ℝ) (dt : ℝ)

theorem fill_fx1 {q : ℕ} (fw : Matrix (Fin 24) (Fin q) ℝ) (after : StateIkfom ℝ) :
    (Transition.fill (M := manifold .real) .real (s.getF input) (s.dfDx .real input) fw dt
      after s).fx1 = gravIdx.widen (gravityBlock .real s after) := by
  have hone : ∀ b : Block 23 3, b.setBlock b (1 : Matrix (Fin 3) (Fin 3) ℝ) 1 = 1 := by
    intro b
    rw [Block.setBlock_one, Block.widen_one]
  show gravIdx.setBlock gravIdx
      (after.grav.nxYy * (SO3.ofExp .real _ (lit (1 / 2))).toRotationMatrix *
        s.grav.mx .real fun _ => lit 0)
    (offsetRIdx.setBlock offsetRIdx (SO3.ofExp .real _ (lit (1 / 2))).toRotationMatrix
      (rotIdx.setBlock rotIdx (SO3.ofExp .real _ (lit (1 / 2))).toRotationMatrix 1)) = _
  rw [SO3.ofExp_intHalf, SO3.ofExp_intHalf, SO3.ofExp_intHalf, SO3.identity_toRotationMatrix, hone,
    hone, Block.setBlock_one, Matrix.mul_one, gravityBlock]

/-- `F_x1` as `predict` uses it. -/
noncomputable def transitionMatrix : Matrix (Fin 23) (Fin 23) ℝ :=
  let t := (Esekf.propagated .real (processModel .real) s dt input).2
  t.fx1 + dt • t.fxFinal

/-- The noise as `predict` uses it: `dt * f_w_final`. -/
noncomputable def noiseMatrix : Matrix (Fin 23) (Fin 12) ℝ :=
  dt • (Esekf.propagated .real (processModel .real) s dt input).2.fwFinal

/-- The state after a prediction. -/
noncomputable def moved : StateIkfom ℝ := s.oplus .real (s.getF input) dt

theorem predict_eq (kf : Esekf (manifold .real)) (Q : Matrix (Fin 12) (Fin 12) ℝ) :
    kf.predict .real (processModel .real) dt Q input =
      ⟨moved kf.x input dt,
        transitionMatrix kf.x input dt * kf.P * (transitionMatrix kf.x input dt)ᵀ +
          noiseMatrix kf.x input dt * Q * (noiseMatrix kf.x input dt)ᵀ⟩ := rfl

/-- The rows of `f_x_final` that belong to a block. -/
noncomputable def finalRows {k : ℕ} (b : Block 23 k) : Matrix (Fin k) (Fin 23) ℝ :=
  b.rows (Transition.fill (M := manifold .real) .real (s.getF input) (s.dfDx .real input) s.dfDw dt
    (moved s input dt) s).fxFinal

theorem rows_transition {k : ℕ} (b : Block 23 k) (hgrav : gravIdx.Apart b) :
    b.rows (transitionMatrix s input dt) = b.rows 1 + dt • finalRows s input dt b := by
  show b.rows (Transition.fill (M := manifold .real) .real (s.getF input) (s.dfDx .real input)
    s.dfDw dt (moved s input dt) s).fx1 + dt • finalRows s input dt b = _
  rw [fill_fx1, Block.widen, Block.rows_setRows_of_apart hgrav]

theorem get_transition {k : ℕ} (b : Block 23 k) (hgrav : gravIdx.Apart b) (v : Fin 23 → ℝ) :
    b.get (transitionMatrix s input dt *ᵥ v) =
      b.get v + dt • (finalRows s input dt b *ᵥ v) := by
  rw [Block.get_mulVec, rows_transition s input dt b hgrav, add_mulVec, smul_mulVec,
    ← Block.get_mulVec, one_mulVec]

theorem transition_pos (v : Fin 23 → ℝ) :
    posIdx.get (transitionMatrix s input dt *ᵥ v) = posIdx.get v + dt • velIdx.get v := by
  obtain ⟨other, turned, hfx, -⟩ := fill_final .real s input dt s.dfDw (moved s input dt)
  rw [get_transition s input dt posIdx (by decide), finalRows, hfx]
  iterate 7 rw [Block.rows_setRows_of_apart (by decide)]
  rw [Block.rows_setRows, dfDx_pos_mulVec]

theorem transition_rot (v : Fin 23 → ℝ) :
    rotIdx.get (transitionMatrix s input dt *ᵥ v) =
      rotIdx.get v - dt • (rateMatrix .real s input dt *ᵥ bgIdx.get v) := by
  obtain ⟨other, turned, hfx, -⟩ := fill_final .real s input dt s.dfDw (moved s input dt)
  rw [get_transition s input dt rotIdx (by decide), finalRows, hfx,
    Block.rows_setRows_of_apart (by decide), Block.rows_setRows_of_apart (by decide),
    Block.rows_setRows, ← mulVec_mulVec, dfDx_rot_mulVec, mulVec_neg, smul_neg, ← sub_eq_add_neg]

theorem transition_vel (v : Fin 23 → ℝ) :
    velIdx.get (transitionMatrix s input dt *ᵥ v) = velIdx.get v +
      dt • (s.grav.mx .real (fun _ => lit 0) *ᵥ gravIdx.get v +
        (-s.rot.toRotationMatrix *ᵥ baIdx.get v +
          (-s.rot.toRotationMatrix * MTK.hat (input.acc - s.ba)) *ᵥ rotIdx.get v)) := by
  obtain ⟨other, turned, hfx, -⟩ := fill_final .real s input dt s.dfDw (moved s input dt)
  rw [get_transition s input dt velIdx (by decide), finalRows, hfx]
  iterate 5 rw [Block.rows_setRows_of_apart (by decide)]
  rw [Block.rows_setRows, dfDx_vel_mulVec]

/-- What no rate of change reaches, gravity apart: the extrinsics and the biases. -/
def stillBlocks : List (Block 23 3) := [offsetRIdx, offsetTIdx, bgIdx, baIdx]

theorem rows_transition_still {b : Block 23 3} (hb : b ∈ stillBlocks) :
    b.rows (transitionMatrix s input dt) = b.rows 1 := by
  obtain ⟨other, turned, hfx, -⟩ := fill_final .real s input dt s.dfDw (moved s input dt)
  have hgrav : gravIdx.Apart b := by
    revert b
    decide
  have hfinal : finalRows s input dt b = 0 := by
    rw [finalRows, hfx, Block.rows_setRows_of_apart hgrav]
    simp only [stillBlocks, List.mem_cons, List.not_mem_nil, or_false] at hb
    rcases hb with rfl | rfl | rfl | rfl
    · rw [Block.rows_setRows, dfDx_none .real s input (by decide) (by decide) (by decide),
        Matrix.mul_zero]
    · iterate 5 rw [Block.rows_setRows_of_apart (by decide)]
      rw [Block.rows_setRows, dfDx_none .real s input (by decide) (by decide) (by decide)]
    · iterate 3 rw [Block.rows_setRows_of_apart (by decide)]
      rw [Block.rows_setRows, dfDx_none .real s input (by decide) (by decide) (by decide)]
    · iterate 2 rw [Block.rows_setRows_of_apart (by decide)]
      rw [Block.rows_setRows, dfDx_none .real s input (by decide) (by decide) (by decide)]
  rw [rows_transition s input dt b hgrav, hfinal, smul_zero, add_zero]

theorem rows_transition_grav :
    gravIdx.rows (transitionMatrix s input dt) =
      gravityBlock .real s (moved s input dt) *
        gravIdx.rows (1 : Matrix (Fin 23) (Fin 23) ℝ) := by
  obtain ⟨other, turned, hfx, -⟩ := fill_final .real s input dt s.dfDw (moved s input dt)
  have hfinal : finalRows s input dt gravIdx = 0 := by
    rw [finalRows, hfx, Block.rows_setRows,
      dfDx_none .real s input (by decide) (by decide) (by decide), Matrix.mul_zero]
  have hdiag : gravIdx.rows (Transition.fill (M := manifold .real) .real (s.getF input)
      (s.dfDx .real input) s.dfDw dt (moved s input dt) s).fx1 =
      gravityBlock .real s (moved s input dt) *
        gravIdx.rows (1 : Matrix (Fin 23) (Fin 23) ℝ) := by
    rw [fill_fx1, Block.widen, Block.rows_setRows]
  show gravIdx.rows (Transition.fill (M := manifold .real) .real (s.getF input) (s.dfDx .real input)
    s.dfDw dt (moved s input dt) s).fx1 + dt • finalRows s input dt gravIdx = _
  rw [hdiag, hfinal, smul_zero, add_zero]

theorem get_transition_still {b : Block 23 3} (hb : b ∈ stillBlocks) (v : Fin 23 → ℝ) :
    b.get (transitionMatrix s input dt *ᵥ v) = b.get v := by
  rw [Block.get_mulVec, rows_transition_still s input dt hb, ← Block.get_mulVec, one_mulVec]

theorem get_transition_grav (v : Fin 23 → ℝ) :
    gravIdx.get (transitionMatrix s input dt *ᵥ v) =
      gravityBlock .real s (moved s input dt) *ᵥ gravIdx.get v := by
  rw [Block.get_mulVec, rows_transition_grav, ← mulVec_mulVec, ← Block.get_mulVec, one_mulVec]

/-- Every component is in one of the blocks. -/
theorem eq_zero_of_get {v : Fin 23 → ℝ} (hpos : posIdx.get v = 0) (hrot : rotIdx.get v = 0)
    (hoffR : offsetRIdx.get v = 0) (hoffT : offsetTIdx.get v = 0) (hvel : velIdx.get v = 0)
    (hbg : bgIdx.get v = 0) (hba : baIdx.get v = 0) (hgrav : gravIdx.get v = 0) : v = 0 := by
  have hentry : ∀ {k : ℕ} {b : Block 23 k} (i : Fin 23) (j : Fin k), b.entry j = i →
      b.get v = 0 → v i = 0 := by
    intro k b i j hi hb
    rw [← hi]
    exact congrFun hb j
  funext i
  rcases entry_cases i with ⟨j, hj⟩ | ⟨j, hj⟩ | ⟨j, hj⟩ | ⟨j, hj⟩ | ⟨j, hj⟩ | ⟨j, hj⟩ | ⟨j, hj⟩ |
    ⟨j, hj⟩
  · exact hentry i j hj hpos
  · exact hentry i j hj hrot
  · exact hentry i j hj hoffR
  · exact hentry i j hj hoffT
  · exact hentry i j hj hvel
  · exact hentry i j hj hbg
  · exact hentry i j hj hba
  · exact hentry i j hj hgrav

/-- Nothing is lost in a prediction, unless the block of gravity loses it. -/
theorem isUnit_transitionMatrix (hgrav : IsUnit (gravityBlock .real s (moved s input dt))) :
    IsUnit (transitionMatrix s input dt) := by
  rw [← mulVec_injective_iff_isUnit]
  intro v w hvw
  rw [← sub_eq_zero]
  have hzero : transitionMatrix s input dt *ᵥ (v - w) = 0 := by
    rw [mulVec_sub, sub_eq_zero]
    exact hvw
  have hget : ∀ {k : ℕ} (b : Block 23 k), b.get (transitionMatrix s input dt *ᵥ (v - w)) = 0 := by
    intro k b
    rw [hzero]
    rfl
  -- the biases, the extrinsics and gravity first, then what depends on them alone
  have hstill : ∀ b ∈ stillBlocks, b.get (v - w) = 0 := by
    intro b hb
    rw [← get_transition_still s input dt hb, hget]
  have hg : gravIdx.get (v - w) = 0 := by
    have hblock := hget gravIdx
    rw [get_transition_grav] at hblock
    exact (mulVec_injective_iff_isUnit.mpr hgrav) (by rw [hblock, mulVec_zero])
  have hbg := hstill bgIdx (by decide)
  have hba := hstill baIdx (by decide)
  have hrot : rotIdx.get (v - w) = 0 := by
    have hblock := hget rotIdx
    rwa [transition_rot, hbg, mulVec_zero, smul_zero, sub_zero] at hblock
  have hvel : velIdx.get (v - w) = 0 := by
    have hblock := hget velIdx
    rwa [transition_vel, hg, hba, hrot, mulVec_zero, mulVec_zero, mulVec_zero, add_zero, add_zero,
      smul_zero, add_zero] at hblock
  have hpos : posIdx.get (v - w) = 0 := by
    have hblock := hget posIdx
    rwa [transition_pos, hvel, smul_zero, add_zero] at hblock
  exact eq_zero_of_get hpos hrot (hstill offsetRIdx (by decide)) (hstill offsetTIdx (by decide))
    hvel hbg hba hg

end

end StateIkfom

end RobotNav
