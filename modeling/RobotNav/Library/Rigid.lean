/-
Rigid motions of space, with the rotation given by its roll, pitch and yaw.

An angle is its sine and its cosine, so that a rotation by it is orthonormal with
determinant one whatever the ring; a rotation carries that in its type.
-/
import Mathlib.LinearAlgebra.Matrix.NonsingularInverse
import Mathlib.LinearAlgebra.UnitaryGroup
import RobotNav.Library.Arith

namespace RobotNav

open Matrix

variable {F : Type*} [CommRing F]

structure Angle (F : Type*) [CommRing F] where
  sin : F
  cos : F
  sq_add_sq : sin ^ 2 + cos ^ 2 = 1

def Angle.zero : Angle F := ⟨0, 1, by simp⟩

abbrev Rotation (F : Type*) [CommRing F] := specialOrthogonalGroup (Fin 3) F

theorem mem_rotation {A : Matrix (Fin 3) (Fin 3) F} (horth : A * Aᵀ = 1) (hdet : A.det = 1) :
    A ∈ specialOrthogonalGroup (Fin 3) F :=
  mem_specialOrthogonalGroup_iff.mpr ⟨(mem_orthogonalGroup_iff _ _).mpr horth, hdet⟩

/-! ## About one axis -/

def rotX (a : Angle F) : Rotation F :=
  ⟨!![1, 0, 0; 0, a.cos, -a.sin; 0, a.sin, a.cos], by
    have hone := a.sq_add_sq
    apply mem_rotation
    · ext i j
      fin_cases i <;> fin_cases j <;> simp [Matrix.mul_apply, Fin.sum_univ_three] <;> grind
    · simp [det_fin_three]
      grind⟩

def rotY (a : Angle F) : Rotation F :=
  ⟨!![a.cos, 0, a.sin; 0, 1, 0; -a.sin, 0, a.cos], by
    have hone := a.sq_add_sq
    apply mem_rotation
    · ext i j
      fin_cases i <;> fin_cases j <;> simp [Matrix.mul_apply, Fin.sum_univ_three] <;> grind
    · simp [det_fin_three]
      grind⟩

def rotZ (a : Angle F) : Rotation F :=
  ⟨!![a.cos, -a.sin, 0; a.sin, a.cos, 0; 0, 0, 1], by
    have hone := a.sq_add_sq
    apply mem_rotation
    · ext i j
      fin_cases i <;> fin_cases j <;> simp [Matrix.mul_apply, Fin.sum_univ_three] <;> grind
    · simp [det_fin_three]
      grind⟩

/-! ## Roll, pitch and yaw -/

/-- Roll first, then pitch, then yaw, each about an axis that stays. -/
def rollPitchYaw (roll pitch yaw : Angle F) : Rotation F := rotZ yaw * rotY pitch * rotX roll

theorem rollPitchYaw_val (roll pitch yaw : Angle F) :
    (rollPitchYaw roll pitch yaw).1 =
      !![pitch.cos * yaw.cos, roll.sin * pitch.sin * yaw.cos - roll.cos * yaw.sin,
          roll.cos * pitch.sin * yaw.cos + roll.sin * yaw.sin;
        pitch.cos * yaw.sin, roll.sin * pitch.sin * yaw.sin + roll.cos * yaw.cos,
          roll.cos * pitch.sin * yaw.sin - roll.sin * yaw.cos;
        -pitch.sin, roll.sin * pitch.cos, roll.cos * pitch.cos] := by
  show (rotZ yaw).1 * (rotY pitch).1 * (rotX roll).1 = _
  ext i j
  fin_cases i <;> fin_cases j <;>
    simp [rotX, rotY, rotZ, Matrix.mul_apply, Fin.sum_univ_three] <;> ring

@[simp] theorem rollPitchYaw_zero : rollPitchYaw (F := F) .zero .zero .zero = 1 := by
  apply Subtype.ext
  rw [rollPitchYaw_val]
  ext i j
  fin_cases i <;> fin_cases j <;> simp [Angle.zero]

/-! ## Rigid motions -/

structure RigidMotion (F : Type*) [CommRing F] where
  rotation : Rotation F
  translation : Fin 3 → F

def RigidMotion.apply (m : RigidMotion F) (p : Fin 3 → F) : Fin 3 → F :=
  m.rotation.1 *ᵥ p + m.translation

theorem RigidMotion.apply_row (m : RigidMotion F) (p : Fin 3 → F) (j : Fin 3) :
    m.apply p j = p 0 * m.rotation.1 j 0 + p 1 * m.rotation.1 j 1 + p 2 * m.rotation.1 j 2 +
      m.translation j := by
  simp only [apply, Pi.add_apply, Matrix.mulVec, dotProduct, Fin.sum_univ_three]
  ring

/-- The last row and column are the extra ones. -/
abbrev Matrix4d (F : Type*) := Matrix (Fin 3 ⊕ Unit) (Fin 3 ⊕ Unit) F

def RigidMotion.homogeneous (m : RigidMotion F) : Matrix4d F :=
  fromBlocks m.rotation.1 (of fun j _ => m.translation j) 0 1

theorem RigidMotion.homogeneous_isUnit (m : RigidMotion F) : IsUnit m.homogeneous := by
  have hdet : m.rotation.1.det = 1 := (mem_specialOrthogonalGroup_iff.mp m.rotation.2).2
  rw [isUnit_iff_isUnit_det, homogeneous, det_fromBlocks_zero₂₁, hdet, det_one, one_mul]
  exact isUnit_one

end RobotNav
