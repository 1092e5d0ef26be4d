/-
The state of the filter, `state_ikfom`, and the process model of use-ikfom.hpp.

A correction has 23 components and a rate of change 24, since the direction of gravity has
two degrees of freedom in three dimensions.  `Manifold` is what esekfom.hpp asks of any
state: its three operations and the lists of where its parts are.
-/
import RobotNav.Esekf.MtkMath
import RobotNav.Library.Blocks

namespace RobotNav

open Matrix

variable {K : Type} [Field K] [LinearOrder K] [FloorRing K]

/-! ## What the filter asks of a state -/

/-- An entry of `vect_state`. -/
structure VectPart (n m : ℕ) where
  dof : ℕ
  idx : Block n dof
  dim : Block m dof

/-- An entry of `SO3_state`. -/
structure SO3Part (n m : ℕ) where
  idx : Block n 3
  dim : Block m 3

/-- An entry of `S2_state`, with the member of the state at its index. -/
structure S2Part (K : Type) (n m : ℕ) (State : Type) where
  idx : Block n 2
  dim : Block m 3
  member : State → S2 K

structure Manifold (K : Type) (n m : ℕ) where
  State : Type
  boxplus : State → (Fin n → K) → State
  boxminus : State → State → Fin n → K
  oplus : State → (Fin m → K) → K → State
  vectState : List (VectPart n m)
  so3State : List (SO3Part n m)
  s2State : List (S2Part K n m State)

/-! ## `state_ikfom` -/

structure StateIkfom (K : Type) where
  pos : Fin 3 → K
  rot : SO3 K
  offsetRLI : SO3 K
  offsetTLI : Fin 3 → K
  vel : Fin 3 → K
  bg : Fin 3 → K
  ba : Fin 3 → K
  grav : S2 K

/-- `state_ikfom()`. -/
def StateIkfom.create : StateIkfom K where
  pos := fun _ => lit 0
  rot := SO3.identity
  offsetRLI := SO3.identity
  offsetTLI := fun _ => lit 0
  vel := fun _ => lit 0
  bg := fun _ => lit 0
  ba := fun _ => lit 0
  grav := S2.create

structure InputIkfom (K : Type) where
  acc : Fin 3 → K
  gyro : Fin 3 → K

/-- Where the members are in a correction. -/
def posIdx : Block 23 3 := ⟨0, by omega⟩
def rotIdx : Block 23 3 := ⟨3, by omega⟩
def offsetRIdx : Block 23 3 := ⟨6, by omega⟩
def offsetTIdx : Block 23 3 := ⟨9, by omega⟩
def velIdx : Block 23 3 := ⟨12, by omega⟩
def bgIdx : Block 23 3 := ⟨15, by omega⟩
def baIdx : Block 23 3 := ⟨18, by omega⟩
def gravIdx : Block 23 2 := ⟨21, by omega⟩

/-- A measurement has columns for the first members only. -/
theorem twelve_le_dof : 12 ≤ 23 := by omega

/-- Where the members are in a rate of change. -/
def posDim : Block 24 3 := ⟨0, by omega⟩
def rotDim : Block 24 3 := ⟨3, by omega⟩
def offsetRDim : Block 24 3 := ⟨6, by omega⟩
def offsetTDim : Block 24 3 := ⟨9, by omega⟩
def velDim : Block 24 3 := ⟨12, by omega⟩
def bgDim : Block 24 3 := ⟨15, by omega⟩
def baDim : Block 24 3 := ⟨18, by omega⟩
def gravDim : Block 24 3 := ⟨21, by omega⟩

namespace StateIkfom

variable (c : CMath K)

def boxplus (x : StateIkfom K) (v : Fin 23 → K) (scale : K) : StateIkfom K where
  pos := x.pos + scale • posIdx.get v
  rot := x.rot.boxplus c (rotIdx.get v) scale
  offsetRLI := x.offsetRLI.boxplus c (offsetRIdx.get v) scale
  offsetTLI := x.offsetTLI + scale • offsetTIdx.get v
  vel := x.vel + scale • velIdx.get v
  bg := x.bg + scale • bgIdx.get v
  ba := x.ba + scale • baIdx.get v
  grav := x.grav.boxplus c (gravIdx.get v) scale

def oplus (x : StateIkfom K) (v : Fin 24 → K) (scale : K) : StateIkfom K where
  pos := x.pos + scale • posDim.get v
  rot := x.rot.oplus c (rotDim.get v) scale
  offsetRLI := x.offsetRLI.oplus c (offsetRDim.get v) scale
  offsetTLI := x.offsetTLI + scale • offsetTDim.get v
  vel := x.vel + scale • velDim.get v
  bg := x.bg + scale • bgDim.get v
  ba := x.ba + scale • baDim.get v
  grav := x.grav.oplus c (gravDim.get v) scale

def boxminus (x other : StateIkfom K) : Fin 23 → K :=
  posIdx.set (x.pos - other.pos) <|
  rotIdx.set (x.rot.boxminus c other.rot) <|
  offsetRIdx.set (x.offsetRLI.boxminus c other.offsetRLI) <|
  offsetTIdx.set (x.offsetTLI - other.offsetTLI) <|
  velIdx.set (x.vel - other.vel) <|
  bgIdx.set (x.bg - other.bg) <|
  baIdx.set (x.ba - other.ba) <|
  gravIdx.set (x.grav.boxminus c other.grav) fun _ => lit 0

/-- The members by their type, as `build_vect_state` and its siblings collect them. -/
def manifold : Manifold K 23 24 where
  State := StateIkfom K
  boxplus := fun x v => x.boxplus c v (lit 1)
  boxminus := fun x other => x.boxminus c other
  oplus := fun x v scale => x.oplus c v scale
  vectState := [⟨3, posIdx, posDim⟩, ⟨3, offsetTIdx, offsetTDim⟩, ⟨3, velIdx, velDim⟩,
    ⟨3, bgIdx, bgDim⟩, ⟨3, baIdx, baDim⟩]
  so3State := [⟨rotIdx, rotDim⟩, ⟨offsetRIdx, offsetRDim⟩]
  s2State := [⟨gravIdx, gravDim, grav⟩]

/-! ## The process model -/

/-- `get_f`: how fast the state changes. -/
def getF (s : StateIkfom K) (input : InputIkfom K) : Fin 24 → K :=
  let omega := input.gyro - s.bg
  let aInertial := s.rot.rotate (input.acc - s.ba)
  posDim.set s.vel <| rotDim.set omega <| velDim.set (aInertial + s.grav.vec) fun _ => lit 0

/-- `df_dx`. -/
def dfDx (s : StateIkfom K) (input : InputIkfom K) : Matrix (Fin 24) (Fin 23) K :=
  let acc := input.acc - s.ba
  let cov : Matrix (Fin 24) (Fin 23) K := posDim.setBlock velIdx 1 0
  let cov := velDim.setBlock rotIdx (-s.rot.toRotationMatrix * MTK.hat acc) cov
  let cov := velDim.setBlock baIdx (-s.rot.toRotationMatrix) cov
  let cov := velDim.setBlock gravIdx (s.grav.mx c fun _ => lit 0) cov
  rotDim.setBlock bgIdx (-1) cov

/-- Where the noises are: `ng`, `na`, `nbg`, `nba`. -/
def ngIdx : Block 12 3 := ⟨0, by omega⟩
def naIdx : Block 12 3 := ⟨3, by omega⟩
def nbgIdx : Block 12 3 := ⟨6, by omega⟩
def nbaIdx : Block 12 3 := ⟨9, by omega⟩

/-- `df_dw`. -/
def dfDw (s : StateIkfom K) : Matrix (Fin 24) (Fin 12) K :=
  let cov : Matrix (Fin 24) (Fin 12) K := velDim.setBlock naIdx (-s.rot.toRotationMatrix) 0
  let cov := rotDim.setBlock ngIdx (-1) cov
  let cov := bgDim.setBlock nbgIdx 1 cov
  baDim.setBlock nbaIdx 1 cov

/-! ## The members of a difference -/

/-- Every component of a correction belongs to a member. -/
theorem entry_cases (i : Fin 23) : (∃ j, posIdx.entry j = i) ∨ (∃ j, rotIdx.entry j = i) ∨
    (∃ j, offsetRIdx.entry j = i) ∨ (∃ j, offsetTIdx.entry j = i) ∨ (∃ j, velIdx.entry j = i) ∨
    (∃ j, bgIdx.entry j = i) ∨ (∃ j, baIdx.entry j = i) ∨ ∃ j, gravIdx.entry j = i := by
  revert i
  decide

section

variable (x y : StateIkfom K)

theorem boxminus_pos : posIdx.get (x.boxminus c y) = x.pos - y.pos :=
  Block.get_set _ _ _

theorem boxminus_rot :
    rotIdx.get (x.boxminus c y) = x.rot.boxminus c y.rot := by
  rw [boxminus, Block.get_set_of_apart (by decide), Block.get_set]

theorem boxminus_offsetRLI :
    offsetRIdx.get (x.boxminus c y) = x.offsetRLI.boxminus c y.offsetRLI := by
  rw [boxminus]
  iterate 2 rw [Block.get_set_of_apart (by decide)]
  rw [Block.get_set]

theorem boxminus_offsetTLI :
    offsetTIdx.get (x.boxminus c y) = x.offsetTLI - y.offsetTLI := by
  rw [boxminus]
  iterate 3 rw [Block.get_set_of_apart (by decide)]
  rw [Block.get_set]

theorem boxminus_vel : velIdx.get (x.boxminus c y) = x.vel - y.vel := by
  rw [boxminus]
  iterate 4 rw [Block.get_set_of_apart (by decide)]
  rw [Block.get_set]

theorem boxminus_bg : bgIdx.get (x.boxminus c y) = x.bg - y.bg := by
  rw [boxminus]
  iterate 5 rw [Block.get_set_of_apart (by decide)]
  rw [Block.get_set]

theorem boxminus_ba : baIdx.get (x.boxminus c y) = x.ba - y.ba := by
  rw [boxminus]
  iterate 6 rw [Block.get_set_of_apart (by decide)]
  rw [Block.get_set]

theorem boxminus_grav :
    gravIdx.get (x.boxminus c y) = x.grav.boxminus c y.grav := by
  rw [boxminus]
  iterate 7 rw [Block.get_set_of_apart (by decide)]
  rw [Block.get_set]

end

/-! ## What the derivatives do to a correction -/

variable (s : StateIkfom K) (input : InputIkfom K)

theorem dfDx_pos : posDim.rows (s.dfDx c input) = velIdx.setCols 1 0 := by
  rw [dfDx]
  iterate 4 rw [Block.rows_setBlock_of_apart (by decide)]
  rw [Block.rows_setBlock]
  rfl

theorem dfDx_rot : rotDim.rows (s.dfDx c input) = bgIdx.setCols (-1) 0 := by
  rw [dfDx, Block.rows_setBlock]
  iterate 4 rw [Block.rows_setBlock_of_apart (by decide)]
  rfl

theorem dfDx_vel : velDim.rows (s.dfDx c input) =
    gravIdx.setCols (s.grav.mx c fun _ => lit 0)
      (baIdx.setCols (-s.rot.toRotationMatrix)
        (rotIdx.setCols (-s.rot.toRotationMatrix * MTK.hat (input.acc - s.ba)) 0)) := by
  rw [dfDx, Block.rows_setBlock_of_apart (by decide), Block.rows_setBlock, Block.rows_setBlock,
    Block.rows_setBlock, Block.rows_setBlock_of_apart (by decide)]
  rfl

/-- The rows of no rate but these three are zero. -/
theorem dfDx_none {k : ℕ} {b : Block 24 k} (hpos : posDim.Apart b) (hrot : rotDim.Apart b)
    (hvel : velDim.Apart b) : b.rows (s.dfDx c input) = 0 := by
  rw [dfDx, Block.rows_setBlock_of_apart hrot, Block.rows_setBlock_of_apart hvel,
    Block.rows_setBlock_of_apart hvel, Block.rows_setBlock_of_apart hvel,
    Block.rows_setBlock_of_apart hpos]
  rfl

theorem dfDx_pos_mulVec (v : Fin 23 → K) :
    posDim.rows (s.dfDx c input) *ᵥ v = velIdx.get v := by
  rw [dfDx_pos, Block.setCols_mulVec rfl, one_mulVec, zero_mulVec, add_zero]

theorem dfDx_rot_mulVec (v : Fin 23 → K) :
    rotDim.rows (s.dfDx c input) *ᵥ v = -bgIdx.get v := by
  rw [dfDx_rot, Block.setCols_mulVec rfl, neg_mulVec, one_mulVec, zero_mulVec, add_zero]

theorem dfDx_vel_mulVec (v : Fin 23 → K) :
    velDim.rows (s.dfDx c input) *ᵥ v = s.grav.mx c (fun _ => lit 0) *ᵥ gravIdx.get v +
      (-s.rot.toRotationMatrix *ᵥ baIdx.get v +
        (-s.rot.toRotationMatrix * MTK.hat (input.acc - s.ba)) *ᵥ rotIdx.get v) := by
  rw [dfDx_vel, Block.setCols_mulVec, Block.setCols_mulVec, Block.setCols_mulVec rfl, zero_mulVec,
    add_zero]
  · rw [Block.cols_eq, Block.setCols_eq, transpose_transpose,
      Block.rows_setRows_of_apart (by decide)]
    rfl
  · rw [Block.cols_eq, Block.setCols_eq, transpose_transpose,
      Block.rows_setRows_of_apart (by decide), Block.setCols_eq, transpose_transpose,
      Block.rows_setRows_of_apart (by decide)]
    rfl

end StateIkfom

end RobotNav
