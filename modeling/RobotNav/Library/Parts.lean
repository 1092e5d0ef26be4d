/-
A part of a vector that a linear computation keeps apart from the rest.

A matrix keeps the part when it commutes with the projection onto it: neither the part nor
the rest depends on the other.  What is measured of the rest alone gains nothing on it.
-/
import RobotNav.Library.Blocks
import RobotNav.Library.Gain

namespace RobotNav

open Matrix

section

variable {ι : Type*} [Fintype ι] [DecidableEq ι] {K : Type*} [CommRing K]
variable {p : ι → Prop} [DecidablePred p]

/-- The projection onto the components in `p`. -/
def onto (K : Type*) [CommRing K] (p : ι → Prop) [DecidablePred p] : Matrix ι ι K :=
  diagonal fun i => if p i then 1 else 0

def Keeps (p : ι → Prop) [DecidablePred p] (M : Matrix ι ι K) : Prop := Commute (onto K p) M

/-- The part of the vector is zero. -/
def Blank (p : ι → Prop) (v : ι → K) : Prop := ∀ i, p i → v i = 0

omit [Fintype ι] in
theorem onto_transpose : (onto K p)ᵀ = onto K p := diagonal_transpose _

theorem keeps_iff {M : Matrix ι ι K} :
    Keeps p M ↔ ∀ i j, ¬(p i ↔ p j) → M i j = 0 := by
  have hentry : ∀ i j, (onto K p * M) i j = (M * onto K p) i j ↔ ¬(p i ↔ p j) → M i j = 0 := by
    intro i j
    rw [onto, diagonal_mul, mul_diagonal]
    by_cases hi : p i <;> by_cases hj : p j <;> simp [hi, hj, eq_comm]
  rw [Keeps, Commute, SemiconjBy, ← Matrix.ext_iff]
  exact forall₂_congr hentry

theorem blank_iff {v : ι → K} : Blank p v ↔ onto K p *ᵥ v = 0 := by
  rw [onto, funext_iff]
  refine forall_congr' fun i => ?_
  rw [mulVec_diagonal]
  by_cases hi : p i <;> simp [hi]

/-! ## Products, inverses and blocks -/

variable {M N : Matrix ι ι K} {v : ι → K}

theorem keeps_diagonal (d : ι → K) : Keeps p (diagonal d) := by
  rw [Keeps, onto]
  exact commute_diagonal _ _

theorem keeps_one : Keeps p (1 : Matrix ι ι K) := Commute.one_right _

theorem Keeps.mul (hM : Keeps p M) (hN : Keeps p N) : Keeps p (M * N) := Commute.mul_right hM hN

theorem Keeps.add (hM : Keeps p M) (hN : Keeps p N) : Keeps p (M + N) := Commute.add_right hM hN

theorem Keeps.sub (hM : Keeps p M) (hN : Keeps p N) : Keeps p (M - N) := Commute.sub_right hM hN

theorem Keeps.transpose (h : Keeps p M) : Keeps p Mᵀ := by
  have hcommute := congrArg Matrix.transpose h.eq
  rw [transpose_mul, transpose_mul, onto_transpose] at hcommute
  exact hcommute.symm

theorem Keeps.congruence (hM : Keeps p M) (hN : Keeps p N) : Keeps p (M * N * Mᵀ) :=
  (hM.mul hN).mul hM.transpose

theorem Keeps.of_mul_eq_one (h : M * N = 1) (hN : Keeps p N) : Keeps p M := by
  have hback : N * M = 1 := mul_eq_one_comm.mp h
  calc onto K p * M = M * N * (onto K p * M) := by rw [h, Matrix.one_mul]
    _ = M * (N * onto K p) * M := by simp only [Matrix.mul_assoc]
    _ = M * (onto K p * N) * M := by rw [hN.eq]
    _ = M * onto K p * (N * M) := by simp only [Matrix.mul_assoc]
    _ = M * onto K p := by rw [hback, Matrix.mul_one]

omit [Fintype ι] [DecidableEq ι] [DecidablePred p] in
theorem Blank.add {v w : ι → K} (hv : Blank p v) (hw : Blank p w) : Blank p (v + w) := by
  intro i hi
  rw [Pi.add_apply, hv i hi, hw i hi, add_zero]

theorem Keeps.blank (hM : Keeps p M) (hv : Blank p v) : Blank p (M *ᵥ v) := by
  rw [blank_iff] at hv ⊢
  rw [mulVec_mulVec, hM.eq, ← mulVec_mulVec, hv, mulVec_zero]

end

section

variable {n k : ℕ} {K : Type*} [CommRing K] {p : Fin n → Prop} [DecidablePred p]

/-- A block all inside the part, or all outside of it. -/
theorem Block.keeps_widen {b : Block n k} (h : ∀ i j, p (b.entry i) ↔ p (b.entry j))
    (T : Matrix (Fin k) (Fin k) K) : Keeps p (b.widen T) := by
  rw [keeps_iff]
  intro i j hij
  rw [← setBlock_one, setBlock]
  cases hi : b.place i with
  | none =>
    have hne : i ≠ j := by
      rintro rfl
      exact hij Iff.rfl
    simp [one_apply_ne hne]
  | some a =>
    cases hj : b.place j with
    | none =>
      have hne : i ≠ j := by
        rintro rfl
        exact hij Iff.rfl
      simp [one_apply_ne hne]
    | some c =>
      rw [← entry_of_place hi, ← entry_of_place hj] at hij
      exact absurd (h a c) hij

theorem Turn.keeps_product {turns : List (Turn n K)}
    (h : ∀ t ∈ turns, ∀ i j, p (t.block.entry i) ↔ p (t.block.entry j)) :
    Keeps p (Turn.product turns) := by
  induction turns using List.reverseRecOn with
  | nil => exact keeps_one
  | append_singleton turns t ih =>
    rw [Turn.product_snoc]
    exact (Block.keeps_widen (h t (by simp)) t.factor).mul
      (ih fun t' ht' => h t' (by simp [ht']))

end

/-! ## Measurements of the rest -/

namespace Gain

variable {ι κ K : Type*} [Fintype ι] [DecidableEq ι] [Field K]
variable {p : ι → Prop} [DecidablePred p]
variable {P : Matrix ι ι K} {H : Matrix κ ι K} {R : K} {W : Matrix ι ι K}

theorem mul_onto_eq_zero_iff : H * onto K p = 0 ↔ ∀ r i, p i → H r i = 0 := by
  rw [← Matrix.ext_iff]
  refine forall₂_congr fun r i => ?_
  rw [onto, mul_diagonal, Matrix.zero_apply]
  by_cases hi : p i <;> simp [hi]

theorem onto_mul_transpose (hH : H * onto K p = 0) : onto K p * Hᵀ = 0 := by
  rw [← onto_transpose, ← transpose_mul, hH, transpose_zero]

theorem keeps_information [Fintype κ] (hP : Keeps p P) (hunit : IsUnit P) (hR : R ≠ 0)
    (hH : H * onto K p = 0) : Keeps p (information P H R) := by
  refine Keeps.add (Keeps.of_mul_eq_one (inv_mul_smul hunit hR) (hP.smul_right R⁻¹)) ?_
  show onto K p * (Hᵀ * H) = Hᵀ * H * onto K p
  rw [← Matrix.mul_assoc, onto_mul_transpose hH, Matrix.mul_assoc, hH, Matrix.zero_mul,
    Matrix.mul_zero]

/-- What measures the rest alone gains nothing on the part. -/
theorem onto_byInformation (hW : Keeps p W) (hH : H * onto K p = 0) :
    onto K p * byInformation H W = 0 := by
  rw [byInformation, ← Matrix.mul_assoc, hW.eq, Matrix.mul_assoc, onto_mul_transpose hH,
    Matrix.mul_zero]

theorem blank_byInformation [Fintype κ] (hW : Keeps p W) (hH : H * onto K p = 0) (z : κ → K) :
    Blank p (byInformation H W *ᵥ z) := by
  rw [blank_iff, mulVec_mulVec, onto_byInformation hW hH, zero_mulVec]

theorem keeps_byInformation_mul [Fintype κ] (hW : Keeps p W) (hH : H * onto K p = 0) :
    Keeps p (byInformation H W * H) := by
  show onto K p * (byInformation H W * H) = byInformation H W * H * onto K p
  rw [← Matrix.mul_assoc, onto_byInformation hW hH, Matrix.mul_assoc, hH, Matrix.zero_mul,
    Matrix.mul_zero]

end Gain

end RobotNav
