/-
Blocks of rows and columns of a matrix, read and written.

Writing `T` times a block of rows over that block multiplies the matrix by `T` widened
with ones on the rest of the diagonal.  A loop that does so block by block, rows first and
then columns, is a congruence.
-/
import Mathlib.Data.Matrix.Mul
import Mathlib.LinearAlgebra.Matrix.NonsingularInverse

namespace RobotNav

open Matrix

/-- `k` places in a row among `n`. -/
structure Block (n k : ℕ) where
  start : ℕ
  fits : start + k ≤ n
  deriving DecidableEq

namespace Block

variable {n k : ℕ} {μ : Type*} {K : Type*}

def entry (b : Block n k) (j : Fin k) : Fin n := ⟨b.start + j, by have := b.fits; omega⟩

/-- Which place of the block `i` is, if it is one. -/
def place (b : Block n k) (i : Fin n) : Option (Fin k) :=
  if h : b.start ≤ i ∧ i < b.start + k then some ⟨i - b.start, by omega⟩ else none

@[simp] theorem place_entry (b : Block n k) (j : Fin k) : b.place (b.entry j) = some j := by
  have hin : b.start ≤ (b.entry j : ℕ) ∧ (b.entry j : ℕ) < b.start + k := by
    show b.start ≤ b.start + j ∧ b.start + j < b.start + k
    omega
  rw [place, dif_pos hin]
  congr 1
  apply Fin.ext
  show b.start + (j : ℕ) - b.start = j
  omega

theorem entry_of_place {b : Block n k} {i : Fin n} {j : Fin k} (h : b.place i = some j) :
    b.entry j = i := by
  rw [place] at h
  split_ifs at h with hin
  rw [← Option.some.inj h]
  apply Fin.ext
  show b.start + ((i : ℕ) - b.start) = i
  omega

theorem entry_injective (b : Block n k) : Function.Injective b.entry := by
  intro j j' hentry
  have hplace := b.place_entry j
  rw [hentry, place_entry] at hplace
  exact (Option.some.inj hplace).symm

/-! ## Vectors -/

def get (b : Block n k) (v : Fin n → K) : Fin k → K := fun j => v (b.entry j)

def set (b : Block n k) (x : Fin k → K) (v : Fin n → K) : Fin n → K := fun i =>
  match b.place i with
  | some j => x j
  | none => v i

theorem get_set (b : Block n k) (x : Fin k → K) (v : Fin n → K) : b.get (b.set x v) = x := by
  funext j
  rw [get, set, place_entry]

theorem forall_set {R : K → Prop} {b : Block n k} {x : Fin k → K} {v : Fin n → K}
    (hx : ∀ j, R (x j)) (hv : ∀ i, R (v i)) (i : Fin n) : R (b.set x v i) := by
  rw [set]
  cases b.place i with
  | none => exact hv i
  | some j => exact hx j

/-! ## Rows and columns -/

def rows (b : Block n k) (M : Matrix (Fin n) μ K) : Matrix (Fin k) μ K := fun j c => M (b.entry j) c

def setRows (b : Block n k) (X : Matrix (Fin k) μ K) (M : Matrix (Fin n) μ K) :
    Matrix (Fin n) μ K := fun i c =>
  match b.place i with
  | some j => X j c
  | none => M i c

def cols (b : Block n k) (M : Matrix μ (Fin n) K) : Matrix μ (Fin k) K := fun r j => M r (b.entry j)

def setCols (b : Block n k) (X : Matrix μ (Fin k) K) (M : Matrix μ (Fin n) K) :
    Matrix μ (Fin n) K := fun r i =>
  match b.place i with
  | some j => X r j
  | none => M r i

theorem setRows_entry (b : Block n k) (X : Matrix (Fin k) μ K) (M : Matrix (Fin n) μ K) (j : Fin k)
    (c : μ) : b.setRows X M (b.entry j) c = X j c := by
  rw [setRows, place_entry]

theorem setRows_of_none {b : Block n k} {i : Fin n} (h : b.place i = none)
    (X : Matrix (Fin k) μ K) (M : Matrix (Fin n) μ K) (c : μ) : b.setRows X M i c = M i c := by
  rw [setRows, h]

@[simp] theorem rows_setRows (b : Block n k) (X : Matrix (Fin k) μ K) (M : Matrix (Fin n) μ K) :
    b.rows (b.setRows X M) = X := by
  ext j c
  exact b.setRows_entry X M j c

theorem setRows_rows (b : Block n k) (M : Matrix (Fin n) μ K) : b.setRows (b.rows M) M = M := by
  ext i c
  rw [setRows]
  cases hplace : b.place i with
  | none => rfl
  | some j =>
    show M (b.entry j) c = M i c
    rw [entry_of_place hplace]

/-- A block written twice holds what was written last. -/
theorem setRows_setRows (b : Block n k) (X Y : Matrix (Fin k) μ K) (M : Matrix (Fin n) μ K) :
    b.setRows X (b.setRows Y M) = b.setRows X M := by
  ext i c
  cases hplace : b.place i with
  | none => rw [setRows_of_none hplace, setRows_of_none hplace, setRows_of_none hplace]
  | some j =>
    rw [← entry_of_place hplace, setRows_entry, setRows_entry]

theorem setCols_eq (b : Block n k) (X : Matrix μ (Fin k) K) (M : Matrix μ (Fin n) K) :
    b.setCols X M = (b.setRows Xᵀ Mᵀ)ᵀ := rfl

theorem cols_eq (b : Block n k) (M : Matrix μ (Fin n) K) : b.cols M = (b.rows Mᵀ)ᵀ := rfl

/-- Nothing of one is in the other. -/
def Apart {k' : ℕ} (b : Block n k) (b' : Block n k') : Prop :=
  b.start + k ≤ b'.start ∨ b'.start + k' ≤ b.start

instance {k' : ℕ} (b : Block n k) (b' : Block n k') : Decidable (b.Apart b') :=
  inferInstanceAs (Decidable (_ ∨ _))

theorem Apart.place_entry {k' : ℕ} {b : Block n k} {b' : Block n k'} (h : b.Apart b') (j : Fin k') :
    b.place (b'.entry j) = none := by
  rw [place, dif_neg]
  show ¬(b.start ≤ b'.start + j ∧ b'.start + j < b.start + k)
  rcases h with h | h <;> omega

theorem rows_setRows_of_apart {k' : ℕ} {b : Block n k} {b' : Block n k'} (h : b.Apart b')
    (X : Matrix (Fin k) μ K) (M : Matrix (Fin n) μ K) : b'.rows (b.setRows X M) = b'.rows M := by
  ext j c
  exact setRows_of_none (h.place_entry j) X M c

theorem get_set_of_apart {k' : ℕ} {b : Block n k} {b' : Block n k'} (h : b.Apart b')
    (x : Fin k → K) (v : Fin n → K) : b'.get (b.set x v) = b'.get v := by
  funext j
  rw [get, set, h.place_entry]
  rfl

/-! ## Blocks of a matrix -/

def setBlock {m l : ℕ} (b : Block n k) (d : Block m l) (X : Matrix (Fin k) (Fin l) K)
    (M : Matrix (Fin n) (Fin m) K) : Matrix (Fin n) (Fin m) K := fun i j =>
  match b.place i, d.place j with
  | some a, some c => X a c
  | _, _ => M i j

theorem rows_setBlock {m l : ℕ} (b : Block n k) (d : Block m l) (X : Matrix (Fin k) (Fin l) K)
    (M : Matrix (Fin n) (Fin m) K) : b.rows (b.setBlock d X M) = d.setCols X (b.rows M) := by
  ext a j
  rw [rows, setBlock, setCols, place_entry]
  cases d.place j with
  | none => rfl
  | some c => rfl

theorem rows_setBlock_of_apart {k' m l : ℕ} {b : Block n k} {b' : Block n k'} (h : b.Apart b')
    (d : Block m l) (X : Matrix (Fin k) (Fin l) K) (M : Matrix (Fin n) (Fin m) K) :
    b'.rows (b.setBlock d X M) = b'.rows M := by
  ext a j
  rw [rows, setBlock, h.place_entry]
  rfl

theorem cols_setCols (b : Block n k) (X : Matrix μ (Fin k) K) (M : Matrix μ (Fin n) K) :
    b.cols (b.setCols X M) = X := by
  rw [cols_eq, setCols_eq, transpose_transpose, rows_setRows, transpose_transpose]

/-! ## As products -/

variable [CommRing K]

theorem setRows_mul {ν : Type*} [Fintype μ] (b : Block n k) (X : Matrix (Fin k) μ K)
    (M : Matrix (Fin n) μ K) (N : Matrix μ ν K) :
    b.setRows X M * N = b.setRows (X * N) (M * N) := by
  ext i c
  rw [mul_apply, setRows]
  cases hplace : b.place i with
  | none =>
    refine Finset.sum_congr rfl fun a _ => ?_
    rw [setRows_of_none hplace]
  | some j =>
    refine Finset.sum_congr rfl fun a _ => ?_
    rw [setRows, hplace]

theorem rows_mul {ν : Type*} [Fintype μ] (b : Block n k) (M : Matrix (Fin n) μ K)
    (N : Matrix μ ν K) : b.rows (M * N) = b.rows M * N := rfl

/-- `T` in the block of the diagonal, ones on the rest of it. -/
def widen (b : Block n k) (T : Matrix (Fin k) (Fin k) K) : Matrix (Fin n) (Fin n) K :=
  b.setRows (T * b.rows (1 : Matrix (Fin n) (Fin n) K)) 1

theorem widen_mul (b : Block n k) (T : Matrix (Fin k) (Fin k) K) (M : Matrix (Fin n) μ K) :
    b.widen T * M = b.setRows (T * b.rows M) M := by
  rw [widen, setRows_mul, Matrix.one_mul, Matrix.mul_assoc, ← rows_mul, Matrix.one_mul]

theorem widen_mulVec (b : Block n k) (T : Matrix (Fin k) (Fin k) K) (v : Fin n → K) :
    b.widen T *ᵥ v = b.set (T *ᵥ b.get v) v := by
  funext i
  have hcolumn := congrFun₂ (b.widen_mul T (replicateCol Unit v)) i ()
  refine Eq.trans hcolumn ?_
  rw [setRows, set]
  cases b.place i <;> rfl

theorem mul_widen_transpose (b : Block n k) (T : Matrix (Fin k) (Fin k) K)
    (M : Matrix μ (Fin n) K) : M * (b.widen T)ᵀ = b.setCols (b.cols M * Tᵀ) M := by
  rw [setCols_eq, cols_eq, ← transpose_mul, transpose_transpose, ← widen_mul, transpose_mul,
    transpose_transpose]

theorem rows_widen_mul_of_apart {k' : ℕ} {b : Block n k} {b' : Block n k'} (h : b.Apart b')
    (T : Matrix (Fin k) (Fin k) K) (M : Matrix (Fin n) μ K) :
    b'.rows (b.widen T * M) = b'.rows M := by
  rw [widen_mul, rows_setRows_of_apart h]

@[simp] theorem widen_one (b : Block n k) : b.widen (1 : Matrix (Fin k) (Fin k) K) = 1 := by
  rw [widen, Matrix.one_mul, setRows_rows]

theorem widen_mul_widen (b : Block n k) (S T : Matrix (Fin k) (Fin k) K) :
    b.widen S * b.widen T = b.widen (S * T) := by
  rw [widen_mul, widen, rows_setRows, setRows_setRows, widen, Matrix.mul_assoc]

theorem get_mulVec (b : Block n k) [Fintype μ] (M : Matrix (Fin n) μ K) (v : μ → K) :
    b.get (M *ᵥ v) = b.rows M *ᵥ v := rfl

/-- Columns written over zeros add what they read. -/
theorem setCols_mulVec {b : Block n k} {M : Matrix μ (Fin n) K} (h : b.cols M = 0)
    (X : Matrix μ (Fin k) K) (v : Fin n → K) :
    b.setCols X M *ᵥ v = X *ᵥ b.get v + M *ᵥ v := by
  funext r
  have hzero : ∀ j, M r (b.entry j) = 0 := fun j => congrFun (congrFun h r) j
  -- the sum over the places of the block, each met once
  have hsum : ∑ i, (match b.place i with | some j => X r j | none => 0) * v i =
      ∑ j, X r j * v (b.entry j) := by
    rw [← Finset.sum_subset (Finset.subset_univ (Finset.univ.image b.entry))]
    · rw [Finset.sum_image fun j _ j' _ heq => b.entry_injective heq]
      exact Finset.sum_congr rfl fun j _ => by rw [place_entry]
    · intro i _ hi
      cases hplace : b.place i with
      | none => rw [zero_mul]
      | some j =>
        exact absurd (Finset.mem_image.mpr ⟨j, Finset.mem_univ j, entry_of_place hplace⟩) hi
  show ∑ i, b.setCols X M r i * v i = ∑ j, X r j * v (b.entry j) + ∑ i, M r i * v i
  rw [← hsum, ← Finset.sum_add_distrib]
  refine Finset.sum_congr rfl fun i _ => ?_
  rw [setCols]
  cases hplace : b.place i with
  | none => rw [zero_mul, zero_add]
  | some j => rw [← entry_of_place hplace, hzero, zero_mul, add_zero]

theorem set_dotProduct {b : Block n k} {u : Fin n → K} (h : b.get u = 0) (x : Fin k → K)
    (w : Fin n → K) : b.set x u ⬝ᵥ w = x ⬝ᵥ b.get w + u ⬝ᵥ w :=
  congrFun (setCols_mulVec (M := fun _ : Unit => u) (funext fun _ => h) (fun _ => x) w) ()

variable (K) in
/-- The rows of the identity: reading and widening a block are products with them. -/
def select (b : Block n k) : Matrix (Fin k) (Fin n) K := b.rows 1

theorem setCols_one (b : Block n k) :
    b.setCols (1 : Matrix (Fin k) (Fin k) K) 0 = b.select K := by
  ext a i
  rw [setCols, select, rows]
  cases hplace : b.place i with
  | none =>
    have hne : b.entry a ≠ i := by
      intro heq
      rw [← heq, place_entry] at hplace
      exact absurd hplace (by simp)
    rw [one_apply_ne hne]
    rfl
  | some c =>
    rw [← entry_of_place hplace]
    show (1 : Matrix (Fin k) (Fin k) K) a c = _
    rw [one_apply, one_apply]
    simp only [b.entry_injective.eq_iff]

theorem rows_eq (b : Block n k) (M : Matrix (Fin n) μ K) : b.rows M = b.select K * M := by
  rw [select, ← rows_mul, Matrix.one_mul]

theorem cols_eq_mul (b : Block n k) (M : Matrix μ (Fin n) K) : b.cols M = M * (b.select K)ᵀ := by
  rw [cols_eq, b.rows_eq Mᵀ, transpose_mul, transpose_transpose]

theorem setCols_zero (b : Block n k) (X : Matrix μ (Fin k) K) : b.setCols X 0 = X * b.select K := by
  ext r i
  rw [← setCols_one, mul_apply, setCols]
  cases hplace : b.place i with
  | none =>
    refine (Finset.sum_eq_zero fun a _ => ?_).symm
    rw [setCols, hplace]
    exact mul_zero _
  | some c =>
    rw [Finset.sum_eq_single c]
    · rw [setCols, hplace]
      show X r c = X r c * (1 : Matrix (Fin k) (Fin k) K) c c
      rw [one_apply_eq, mul_one]
    · intro a _ ha
      rw [setCols, hplace]
      show X r a * (1 : Matrix (Fin k) (Fin k) K) a c = 0
      rw [one_apply_ne ha, mul_zero]
    · intro hc
      exact absurd (Finset.mem_univ c) hc

/-- What is zero outside of the columns of the block is made of them. -/
theorem cols_mul_select (b : Block n k) (X : Matrix μ (Fin k) K) :
    b.cols (X * b.select K) * b.select K = X * b.select K := by
  have hcols : b.cols (X * b.select K) = X := by rw [← setCols_zero, cols_setCols]
  rw [hcols]

theorem select_transpose_mul (b : Block n k) (X : Matrix (Fin k) (Fin k) K) :
    (b.select K)ᵀ * X * b.select K = b.setBlock b X 0 := by
  rw [Matrix.mul_assoc, ← setCols_zero]
  ext i j
  rw [mul_apply, setBlock]
  have hentry : ∀ a, (b.select K)ᵀ i a = if b.entry a = i then 1 else 0 := fun a => one_apply
  cases hi : b.place i with
  | none =>
    refine Finset.sum_eq_zero fun a _ => ?_
    have hne : b.entry a ≠ i := by
      intro heq
      rw [← heq, place_entry] at hi
      exact absurd hi (by simp)
    rw [hentry, if_neg hne, zero_mul]
  | some c =>
    rw [Finset.sum_eq_single c]
    · rw [hentry, if_pos (entry_of_place hi), one_mul, setCols]
      cases b.place j with
      | none => rfl
      | some d => rfl
    · intro a _ ha
      have hne : b.entry a ≠ i := by
        intro heq
        rw [← heq, place_entry] at hi
        exact ha (Option.some.inj hi)
      rw [hentry, if_neg hne, zero_mul]
    · intro hc
      exact absurd (Finset.mem_univ c) hc

/-- A block of the matrix increased in place. -/
theorem setBlock_add (b : Block n k) (X : Matrix (Fin k) (Fin k) K)
    (M : Matrix (Fin n) (Fin n) K) :
    b.setBlock b (b.cols (b.rows M) + X) M = M + (b.select K)ᵀ * X * b.select K := by
  rw [select_transpose_mul]
  ext i j
  rw [Matrix.add_apply, setBlock, setBlock]
  cases hi : b.place i with
  | none => simp
  | some a =>
    cases hj : b.place j with
    | none => simp
    | some c =>
      show M (b.entry a) (b.entry c) + X a c = M i j + X a c
      rw [entry_of_place hi, entry_of_place hj]

theorem setBlock_one (b : Block n k) (X : Matrix (Fin k) (Fin k) K) :
    b.setBlock b X 1 = b.widen X := by
  ext i j
  cases hi : b.place i with
  | none =>
    rw [widen, setRows_of_none hi, setBlock, hi]
  | some a =>
    obtain rfl := (entry_of_place hi).symm
    rw [widen, setRows_entry, setBlock, place_entry, mul_apply]
    cases hj : b.place j with
    | none =>
      have hne : ∀ c, b.entry c ≠ j := by
        intro c hc
        rw [← hc, place_entry] at hj
        exact absurd hj (by simp)
      show (1 : Matrix (Fin n) (Fin n) K) (b.entry a) j = _
      rw [one_apply_ne (hne a)]
      exact (Finset.sum_eq_zero fun c _ => by rw [rows, one_apply_ne (hne c), mul_zero]).symm
    | some c =>
      obtain rfl := (entry_of_place hj).symm
      show X a c = _
      rw [Finset.sum_eq_single c]
      · rw [rows, one_apply_eq, mul_one]
      · intro c' _ hc'
        rw [rows, one_apply_ne fun heq => hc' (b.entry_injective heq), mul_zero]
      · intro hc
        exact absurd (Finset.mem_univ c) hc

theorem isUnit_widen (b : Block n k) {T : Matrix (Fin k) (Fin k) K} (hT : IsUnit T) :
    IsUnit (b.widen T) := by
  obtain ⟨u, rfl⟩ := hT
  refine ⟨⟨b.widen ↑u, b.widen ↑u⁻¹, ?_, ?_⟩, rfl⟩
  · rw [widen_mul_widen, Units.mul_inv, widen_one]
  · rw [widen_mul_widen, Units.inv_mul, widen_one]

end Block

/-! ## One block after another -/

/-- A block and what its rows are multiplied by. -/
structure Turn (n : ℕ) (K : Type*) where
  size : ℕ
  block : Block n size
  factor : Matrix (Fin size) (Fin size) K

namespace Turn

variable {n : ℕ} {K : Type*} [CommRing K]

def matrix (t : Turn n K) : Matrix (Fin n) (Fin n) K := t.block.widen t.factor

/-- The product of the turns, the first rightmost. -/
def product (turns : List (Turn n K)) : Matrix (Fin n) (Fin n) K :=
  turns.foldl (fun J t => t.matrix * J) 1

theorem product_snoc (turns : List (Turn n K)) (t : Turn n K) :
    product (turns ++ [t]) = t.matrix * product turns := by
  rw [product, List.foldl_append]
  rfl

/-- The rows, then the columns, of the block in place. -/
def congruence (P : Matrix (Fin n) (Fin n) K) (t : Turn n K) : Matrix (Fin n) (Fin n) K :=
  let P := t.block.setRows (t.factor * t.block.rows P) P
  t.block.setCols (t.block.cols P * t.factorᵀ) P

theorem congruence_eq (P : Matrix (Fin n) (Fin n) K) (t : Turn n K) :
    congruence P t = t.matrix * P * t.matrixᵀ := by
  rw [congruence, ← Block.mul_widen_transpose, ← Block.widen_mul]
  rfl

theorem foldl_congruence (P : Matrix (Fin n) (Fin n) K) (turns : List (Turn n K)) :
    turns.foldl congruence P = product turns * P * (product turns)ᵀ := by
  induction turns using List.reverseRecOn with
  | nil => simp [product]
  | append_singleton turns t ih =>
    rw [List.foldl_append, List.foldl_cons, List.foldl_nil, ih, congruence_eq, product_snoc,
      transpose_mul]
    simp only [Matrix.mul_assoc]

theorem isUnit_product {turns : List (Turn n K)} (h : ∀ t ∈ turns, IsUnit t.factor) :
    IsUnit (product turns) := by
  induction turns using List.reverseRecOn with
  | nil => exact isUnit_one
  | append_singleton turns t ih =>
    rw [product_snoc]
    have hlast : IsUnit t.factor := h t (by simp)
    exact (t.block.isUnit_widen hlast).mul (ih fun t' ht' => h t' (by simp [ht']))

/-- Rows of a block apart from all the turns are as in the identity. -/
theorem rows_product_mul {k : ℕ} {b : Block n k} {turns : List (Turn n K)}
    (h : ∀ t ∈ turns, t.block.Apart b) {μ : Type*} (M : Matrix (Fin n) μ K) :
    b.rows (product turns * M) = b.rows M := by
  induction turns using List.reverseRecOn with
  | nil => simp [product]
  | append_singleton turns t ih =>
    rw [product_snoc, Matrix.mul_assoc, matrix,
      Block.rows_widen_mul_of_apart (h t (by simp)), ih fun t' ht' => h t' (by simp [ht'])]

/-- All blocks of the turns are apart from one another. -/
def AllApart (turns : List (Turn n K)) : Prop := turns.Pairwise fun t t' => t.block.Apart t'.block

omit [CommRing K] in
theorem AllApart.snoc {turns : List (Turn n K)} {t : Turn n K} (h : AllApart (turns ++ [t])) :
    AllApart turns ∧ ∀ t' ∈ turns, t'.block.Apart t.block := by
  rw [AllApart, List.pairwise_append] at h
  exact ⟨h.1, fun t' ht' => h.2.2 t' ht' t (by simp)⟩

end Turn

end RobotNav
