/-
The exponential and the logarithm of mtkmath.hpp, quaternions as rotations and directions
on a sphere: SOn.hpp and S2.hpp.

The functions of the C library are a parameter; `CMath.real` has those of the reals.
-/
import Mathlib.Analysis.SpecialFunctions.Complex.Arg
import Mathlib.Analysis.SpecialFunctions.Trigonometric.Arctan
import RobotNav.Library.AxisTurn

namespace RobotNav

open Matrix

/-- What the filter uses of the C library. -/
structure CMath (K : Type) where
  sqrt : K → K
  sin : K → K
  cos : K → K
  acos : K → K
  /-- `atan(y / x)`, where `y / 0` is infinite for a positive `y`. -/
  atanQuotient : K → K → K
  atan2 : K → K → K

noncomputable def CMath.real : CMath ℝ where
  sqrt := Real.sqrt
  sin := Real.sin
  cos := Real.cos
  acos := Real.arccos
  atanQuotient := fun y x => if x = 0 then Real.pi / lit 2 else Real.arctan (y / x)
  atan2 := fun y x => Complex.arg ⟨x, y⟩

variable {K : Type} [Field K] [LinearOrder K] [FloorRing K]

def squaredNorm {k : ℕ} (v : Fin k → K) : K := v ⬝ᵥ v

def CMath.norm {k : ℕ} (c : CMath K) (v : Fin k → K) : K := c.sqrt (squaredNorm v)

namespace MTK

variable (c : CMath K)

def tolerance : K := ratio 1 100000000000

/-- The fourth root of the epsilon of a double. -/
def taylorNBound : K := ratio 1 8192

/-- `inv`. -/
def inv (i : ℕ) : K := ratio 1 (3 + i)

/-- The body of the loop over `i`, on `cosi`, `sinc` and `term`. -/
def taylorTerm (x2 : K) (acc : K × K × K) (i : ℕ) : K × K × K :=
  let cosi := acc.1 + acc.2.2
  let term := acc.2.2 * inv (2 * i)
  let sinc := acc.2.1 + term
  (cosi, sinc, term * (-inv (2 * i + 1) * x2))

def cosSincSqrt (x2 : K) : K × K :=
  if taylorNBound ≤ x2 then
    let x := c.sqrt x2
    (c.cos x, c.sin x / x)
  else
    let (cosi, sinc, _) := (List.range 3).foldl (taylorTerm x2) (lit 1, lit 1, -ratio 1 2 * x2)
    (cosi, sinc)

def hat (v : Fin 3 → K) : Matrix (Fin 3) (Fin 3) K :=
  !![lit 0, -v 2, v 1; v 2, lit 0, -v 0; -v 1, v 0, lit 0]

/-- `A_matrix`. -/
def aMatrix (v : Fin 3 → K) : Matrix (Fin 3) (Fin 3) K :=
  let squaredNorm := v 0 * v 0 + v 1 * v 1 + v 2 * v 2
  let norm := c.sqrt squaredNorm
  if norm < tolerance then 1
  else 1 + ((lit 1 - c.cos norm) / squaredNorm) • hat v +
    ((lit 1 - c.sin norm / norm) / squaredNorm) • hat v * hat v

/-- The returned scalar part and `result`. -/
def exp (vec : Fin 3 → K) (scale : K) : K × (Fin 3 → K) :=
  let norm2 := squaredNorm vec
  let cosSinc := cosSincSqrt c (scale * scale * norm2)
  (cosSinc.1, (cosSinc.2 * scale) • vec)

/-- `log` with `plus_minus_periodicity`. -/
def log (w : K) (vec : Fin 3 → K) (scale : K) : Fin 3 → K :=
  let nv := c.norm vec
  let nv := if nv < tolerance then tolerance else nv
  let s := scale / nv * c.atanQuotient nv w
  s • vec

end MTK

/-! ## Rotations -/

/-- `MTK::SO3`, a quaternion. -/
structure SO3 (K : Type) where
  w : K
  vec : Fin 3 → K

namespace SO3

variable (c : CMath K)

def identity : SO3 K := ⟨lit 1, fun _ => lit 0⟩

/-- The square of the norm of the quaternion. -/
def normSq (q : SO3 K) : K := q.w * q.w + squaredNorm q.vec

def mul (p q : SO3 K) : SO3 K :=
  ⟨p.w * q.w - p.vec ⬝ᵥ q.vec, p.w • q.vec + q.w • p.vec + crossProduct p.vec q.vec⟩

def conjugate (q : SO3 K) : SO3 K := ⟨q.w, -q.vec⟩

def toRotationMatrix (q : SO3 K) : Matrix (Fin 3) (Fin 3) K :=
  let tx := lit 2 * q.vec 0
  let ty := lit 2 * q.vec 1
  let tz := lit 2 * q.vec 2
  let twx := tx * q.w
  let twy := ty * q.w
  let twz := tz * q.w
  let txx := tx * q.vec 0
  let txy := ty * q.vec 0
  let txz := tz * q.vec 0
  let tyy := ty * q.vec 1
  let tyz := tz * q.vec 1
  let tzz := tz * q.vec 2
  !![lit 1 - (tyy + tzz), txy - twz, txz + twy;
    txy + twz, lit 1 - (txx + tzz), tyz - twx;
    txz - twy, tyz + twx, lit 1 - (txx + tyy)]

/-- The quaternion applied to a vector. -/
def rotate (q : SO3 K) (v : Fin 3 → K) : Fin 3 → K :=
  let uv := crossProduct q.vec v
  let uv := uv + uv
  v + q.w • uv + crossProduct q.vec uv

/-- `res.w() = exp(res.vec(), vec, scale)`. -/
def ofExp (vec : Fin 3 → K) (scale : K) : SO3 K :=
  let r := MTK.exp c vec scale
  ⟨r.1, r.2⟩

def exp (dvec : Fin 3 → K) (scale : K) : SO3 K := ofExp c dvec (scale / lit 2)

def log (orient : SO3 K) : Fin 3 → K := MTK.log c orient.w orient.vec (lit 2)

def boxplus (q : SO3 K) (vec : Fin 3 → K) (scale : K) : SO3 K := q.mul (exp c vec scale)

def oplus (q : SO3 K) (vec : Fin 3 → K) (scale : K) : SO3 K := q.mul (exp c vec scale)

def boxminus (q other : SO3 K) : Fin 3 → K := log c (other.conjugate.mul q)

end SO3

/-! ## Directions -/

/-- `S2`, a vector meant to keep one length. -/
structure S2 (K : Type) where
  vec : Fin 3 → K

namespace S2

variable (c : CMath K)

def length : K := lit 98090 / lit 10000

/-- `S2()`. -/
def create : S2 K := ⟨![length, lit 0, lit 0]⟩

/-- A vector scaled to the length; one of length zero stays. -/
def ofVec (v : Fin 3 → K) : S2 K :=
  let z := squaredNorm v
  let normalized := if lit 0 < z then (c.sqrt z)⁻¹ • v else v
  ⟨(length : K) • normalized⟩

/-- `S2_Bx`: two directions at right angles to the vector. -/
def bx (s : S2 K) : Matrix (Fin 3) (Fin 2) K :=
  if MTK.tolerance < s.vec 0 + length then
    (length : K)⁻¹ • !![-s.vec 1, -s.vec 2;
      length - s.vec 1 * s.vec 1 / (length + s.vec 0),
        -s.vec 2 * s.vec 1 / (length + s.vec 0);
      -s.vec 2 * s.vec 1 / (length + s.vec 0),
        length - s.vec 2 * s.vec 2 / (length + s.vec 0)]
  else !![lit 0, lit 0; lit 0, -lit 1; lit 1, lit 0]

def oplus (s : S2 K) (delta : Fin 3 → K) (scale : K) : S2 K :=
  ⟨(SO3.ofExp c delta (scale / lit 2)).toRotationMatrix *ᵥ s.vec⟩

def boxplus (s : S2 K) (delta : Fin 2 → K) (scale : K) : S2 K :=
  s.oplus c (s.bx *ᵥ delta) scale

def boxminus (s other : S2 K) : Fin 2 → K :=
  let vSin := c.norm (MTK.hat s.vec *ᵥ other.vec)
  let vCos := s.vec ⬝ᵥ other.vec
  let theta := c.atan2 vSin vCos
  if vSin < MTK.tolerance then
    if MTK.tolerance < fabs theta then ![ratio 31415926 10000000, lit 0]
    else ![lit 0, lit 0]
  else (theta / vSin) • (other.bxᵀ * MTK.hat other.vec) *ᵥ s.vec

/-- `S2_hat`. -/
def hat (s : S2 K) : Matrix (Fin 3) (Fin 3) K := MTK.hat s.vec

/-- `S2_Nx_yy`. -/
def nxYy (s : S2 K) : Matrix (Fin 2) (Fin 3) K :=
  (lit 1 / length / length : K) • (s.bxᵀ * MTK.hat s.vec)

/-- `S2_Mx`.  The scale handed to `exp` is an integer division, which is zero. -/
def mx (s : S2 K) (delta : Fin 2 → K) : Matrix (Fin 3) (Fin 2) K :=
  if c.norm delta < MTK.tolerance then -(MTK.hat s.vec * s.bx)
  else
    let bu := s.bx *ᵥ delta
    let expDelta := SO3.ofExp c bu (lit (1 / 2));
    -(expDelta.toRotationMatrix * MTK.hat s.vec * (MTK.aMatrix c bu)ᵀ * s.bx)

end S2

/-! ## As turns about an axis -/

variable (c : CMath K)

theorem hat_eq (v : Fin 3 → K) : MTK.hat v = crossMatrix v := by
  rw [MTK.hat, crossMatrix, lit_eq, Int.cast_zero]

omit [LinearOrder K] [FloorRing K] in
theorem squaredNorm_eq (v : Fin 3 → K) : v 0 * v 0 + v 1 * v 1 + v 2 * v 2 = squaredNorm v := by
  rw [squaredNorm, dotProduct, Fin.sum_univ_three]

theorem aMatrix_eq (v : Fin 3 → K) :
    MTK.aMatrix c v = if c.norm v < MTK.tolerance then 1
      else axisTurn ((1 - c.cos (c.norm v)) / squaredNorm v)
        ((1 - c.sin (c.norm v) / c.norm v) / squaredNorm v) v := by
  rw [MTK.aMatrix, squaredNorm_eq, axisTurn, hat_eq, lit_eq, Int.cast_one, Matrix.smul_mul]
  rfl

theorem toRotationMatrix_eq (q : SO3 K) :
    q.toRotationMatrix = axisTurn (q.w + q.w) (1 + 1) q.vec := by
  rw [SO3.toRotationMatrix, axisTurn, crossMatrix_mul_self]
  ext i j
  fin_cases i <;> fin_cases j <;>
    simp [crossMatrix, lit_eq, vecMulVec_apply, dotProduct, Fin.sum_univ_three, one_apply] <;> ring

/-- The two ways Eigen applies a quaternion agree, whatever its norm. -/
theorem rotate_eq (q : SO3 K) (v : Fin 3 → K) : q.rotate v = q.toRotationMatrix *ᵥ v := by
  rw [toRotationMatrix_eq, axisTurn, add_mulVec, add_mulVec, one_mulVec, smul_mulVec,
    smul_mulVec, ← mulVec_mulVec, crossMatrix_mulVec, crossMatrix_mulVec, SO3.rotate]
  rw [map_add, smul_add]
  module

omit [LinearOrder K] [FloorRing K] in
theorem normSq_mul (p q : SO3 K) : (p.mul q).normSq = p.normSq * q.normSq := by
  rw [SO3.normSq, SO3.normSq, SO3.normSq, SO3.mul, squaredNorm, squaredNorm, squaredNorm,
    cross_apply]
  simp [dotProduct, Fin.sum_univ_three]
  ring

omit [LinearOrder K] [FloorRing K] in
theorem normSq_conjugate (q : SO3 K) : q.conjugate.normSq = q.normSq := by
  rw [SO3.normSq, SO3.conjugate, squaredNorm, neg_dotProduct_neg]
  rfl

theorem toRotationMatrix_conjugate (q : SO3 K) :
    q.conjugate.toRotationMatrix = q.toRotationMatrixᵀ := by
  rw [toRotationMatrix_eq, toRotationMatrix_eq, axisTurn_transpose, SO3.conjugate, axisTurn_neg]

/-- The rotation matrix without what Eigen leaves out for a quaternion of norm one. -/
def SO3.scaledMatrix (q : SO3 K) : Matrix (Fin 3) (Fin 3) K :=
  !![q.w * q.w + q.vec 0 * q.vec 0 - q.vec 1 * q.vec 1 - q.vec 2 * q.vec 2,
      (q.vec 0 * q.vec 1 - q.w * q.vec 2) + (q.vec 0 * q.vec 1 - q.w * q.vec 2),
      (q.vec 0 * q.vec 2 + q.w * q.vec 1) + (q.vec 0 * q.vec 2 + q.w * q.vec 1);
    (q.vec 0 * q.vec 1 + q.w * q.vec 2) + (q.vec 0 * q.vec 1 + q.w * q.vec 2),
      q.w * q.w - q.vec 0 * q.vec 0 + q.vec 1 * q.vec 1 - q.vec 2 * q.vec 2,
      (q.vec 1 * q.vec 2 - q.w * q.vec 0) + (q.vec 1 * q.vec 2 - q.w * q.vec 0);
    (q.vec 0 * q.vec 2 - q.w * q.vec 1) + (q.vec 0 * q.vec 2 - q.w * q.vec 1),
      (q.vec 1 * q.vec 2 + q.w * q.vec 0) + (q.vec 1 * q.vec 2 + q.w * q.vec 0),
      q.w * q.w - q.vec 0 * q.vec 0 - q.vec 1 * q.vec 1 + q.vec 2 * q.vec 2]

theorem toRotationMatrix_eq_scaled (q : SO3 K) :
    q.toRotationMatrix = q.scaledMatrix + (1 - q.normSq) • 1 := by
  rw [SO3.toRotationMatrix, SO3.scaledMatrix, SO3.normSq, ← squaredNorm_eq]
  ext i j
  fin_cases i <;> fin_cases j <;> simp [lit_eq, one_apply] <;> ring

omit [LinearOrder K] [FloorRing K] in
theorem scaledMatrix_mul (p q : SO3 K) :
    (p.mul q).scaledMatrix = p.scaledMatrix * q.scaledMatrix := by
  rw [SO3.scaledMatrix, SO3.scaledMatrix, SO3.scaledMatrix, SO3.mul, cross_apply]
  ext i j
  fin_cases i <;> fin_cases j <;>
    simp [mul_apply, dotProduct, Fin.sum_univ_three] <;> ring

/-- A quaternion of any norm after one that is one. -/
theorem toRotationMatrix_mul_left {p : SO3 K} (hp : p.normSq = 1) (q : SO3 K) :
    (p.mul q).toRotationMatrix = p.toRotationMatrix * q.toRotationMatrix -
      (1 - q.normSq) • (p.toRotationMatrix - 1) := by
  rw [toRotationMatrix_eq_scaled (p.mul q), toRotationMatrix_eq_scaled p,
    toRotationMatrix_eq_scaled q, normSq_mul, hp, sub_self, zero_smul, add_zero, one_mul,
    scaledMatrix_mul, Matrix.mul_add, Matrix.mul_smul, Matrix.mul_one, smul_sub]
  abel

end RobotNav
