/-
Two scans of a list: for the first least value below a ceiling, and for the
first running sum that reaches a bound.

Both results are specified by index, and both specifications have at most one
index, so that scanning again what an earlier scan has left finds the same
place.  The sums are taken from the left and no law of addition is asked for.
-/
import Mathlib.Order.Lattice
import Mathlib.Data.List.Basic

namespace RobotNav

variable {K : Type*}

/-! ## The first least value -/

section

variable [LinearOrder K]

/-- `n` is the place of the first least value of `xs` when some value is below
the ceiling, and zero otherwise. -/
def Least (ceiling : K) (xs : List K) (n : ℕ) : Prop :=
  (∃ x, xs[n]? = some x ∧ x < ceiling ∧
    ∀ (j : ℕ) (y : K), xs[j]? = some y → x ≤ y ∧ (j < n → x < y)) ∨
  (n = 0 ∧ ∀ (j : ℕ) (y : K), xs[j]? = some y → ceiling ≤ y)

namespace Least

variable {ceiling : K} {xs : List K} {n n' : ℕ}

theorem lt_length (h : Least ceiling xs n) (hxs : xs ≠ []) : n < xs.length := by
  rcases h with ⟨x, hx, -, -⟩ | ⟨rfl, -⟩
  · exact (List.getElem?_eq_some_iff.mp hx).1
  · exact List.length_pos_iff.mpr hxs

theorem unique (h : Least ceiling xs n) (h' : Least ceiling xs n') : n = n' := by
  rcases h with ⟨x, hx, hlt, hmin⟩ | ⟨rfl, habove⟩
  · rcases h' with ⟨y, hy, -, hmin'⟩ | ⟨-, habove⟩
    · -- each of two first least values is strictly below the other if it comes later
      have hxy := hmin n' y hy
      have hyx := hmin' n x hx
      rcases Nat.lt_trichotomy n n' with hn | hn | hn
      · exact absurd (hyx.2 hn) (not_lt.mpr hxy.1)
      · exact hn
      · exact absurd (hxy.2 hn) (not_lt.mpr hyx.1)
    · exact absurd hlt (not_lt.mpr (habove n x hx))
  · rcases h' with ⟨y, hy, hlt, -⟩ | ⟨rfl, -⟩
    · exact absurd hlt (not_lt.mpr (habove n' y hy))
    · rfl

/-- What is left from the first least value on has it in front. -/
theorem drop (h : Least ceiling xs n) : Least ceiling (xs.drop n) 0 := by
  rcases h with ⟨x, hx, hlt, hmin⟩ | ⟨rfl, habove⟩
  · refine .inl ⟨x, ?_, hlt, ?_⟩
    · rw [List.getElem?_drop]
      exact hx
    · intro j y hy
      rw [List.getElem?_drop] at hy
      exact ⟨(hmin (n + j) y hy).1, fun hj => absurd hj (Nat.not_lt_zero j)⟩
  · exact .inr ⟨rfl, habove⟩

end Least

/-- The state of the scan after `i` values: where the best one stands and what
it is, or the ceiling. -/
def Scanned (ceiling : K) (xs : List K) (i : ℕ) (best : ℕ × K) : Prop :=
  (best.1 < i ∧ xs[best.1]? = some best.2 ∧ best.2 < ceiling ∧
    ∀ (j : ℕ) (y : K), j < i → xs[j]? = some y → best.2 ≤ y ∧ (j < best.1 → best.2 < y)) ∨
  (best = (0, ceiling) ∧ ∀ (j : ℕ) (y : K), j < i → xs[j]? = some y → ceiling ≤ y)

namespace Scanned

variable {ceiling : K} {xs : List K} {i : ℕ} {best : ℕ × K}

theorem start : Scanned ceiling xs 0 (0, ceiling) :=
  .inr ⟨rfl, fun j _ hj => absurd hj (Nat.not_lt_zero j)⟩

theorem best_le (h : Scanned ceiling xs i best) : best.2 ≤ ceiling := by
  rcases h with ⟨-, -, hlt, -⟩ | ⟨rfl, -⟩
  · exact le_of_lt hlt
  · exact le_refl _

theorem best_le_of_lt (h : Scanned ceiling xs i best) {j : ℕ} {y : K} (hj : j < i)
    (hy : xs[j]? = some y) : best.2 ≤ y := by
  rcases h with ⟨-, -, -, hmin⟩ | ⟨rfl, habove⟩
  · exact (hmin j y hj hy).1
  · exact habove j y hj hy

theorem next (h : Scanned ceiling xs i best) {x : K} (hx : xs[i]? = some x) :
    Scanned ceiling xs (i + 1) (if x < best.2 then (i, x) else best) := by
  by_cases hlt : x < best.2
  · rw [if_pos hlt]
    refine .inl ⟨Nat.lt_succ_self i, hx, lt_of_lt_of_le hlt h.best_le, ?_⟩
    intro j y hj hy
    show x ≤ y ∧ (j < i → x < y)
    rcases Nat.lt_succ_iff_lt_or_eq.mp hj with hji | rfl
    · have hxy : x < y := lt_of_lt_of_le hlt (h.best_le_of_lt hji hy)
      exact ⟨le_of_lt hxy, fun _ => hxy⟩
    · have hyx : y = x := Option.some.inj (hy.symm.trans hx)
      exact ⟨le_of_eq hyx.symm, fun hj => absurd hj (Nat.lt_irrefl j)⟩
  · rw [if_neg hlt]
    have hle := not_lt.mp hlt
    rcases h with ⟨hi, hbest, hceil, hmin⟩ | ⟨rfl, habove⟩
    · refine .inl ⟨Nat.lt_succ_of_lt hi, hbest, hceil, ?_⟩
      intro j y hj hy
      rcases Nat.lt_succ_iff_lt_or_eq.mp hj with hji | rfl
      · exact hmin j y hji hy
      · have hyx : y = x := Option.some.inj (hy.symm.trans hx)
        rw [hyx]
        exact ⟨hle, fun hj => absurd hj (by omega)⟩
    · refine .inr ⟨rfl, ?_⟩
      intro j y hj hy
      rcases Nat.lt_succ_iff_lt_or_eq.mp hj with hji | rfl
      · exact habove j y hji hy
      · have hyx : y = x := Option.some.inj (hy.symm.trans hx)
        rw [hyx]
        exact hle

theorem least (h : Scanned ceiling xs xs.length best) : Least ceiling xs best.1 := by
  have hin : ∀ (j : ℕ) (y : K), xs[j]? = some y → j < xs.length := fun j y hy =>
    (List.getElem?_eq_some_iff.mp hy).1
  rcases h with ⟨-, hbest, hceil, hmin⟩ | ⟨rfl, habove⟩
  · exact .inl ⟨best.2, hbest, hceil, fun j y hy => hmin j y (hin j y hy) hy⟩
  · exact .inr ⟨rfl, fun j y hy => habove j y (hin j y hy) hy⟩

end Scanned

end

/-! ## The first sum that reaches a bound -/

variable [Add K]

/-- The sum of the first `k` values, from the left. -/
def runningSum (zero : K) (xs : List K) (k : ℕ) : K := (xs.take k).foldl (· + ·) zero

theorem runningSum_succ {zero : K} {xs : List K} {k : ℕ} {x : K} (hx : xs[k]? = some x) :
    runningSum zero xs (k + 1) = runningSum zero xs k + x := by
  simp only [runningSum, List.take_add_one, hx, Option.toList_some, List.foldl_append,
    List.foldl_cons, List.foldl_nil]

/-- `k` is the first positive number of values whose sum reaches the bound, or
the number of all of them. -/
def Reaches [LinearOrder K] (zero bound : K) (xs : List K) (k : ℕ) : Prop :=
  k ≤ xs.length ∧ (∀ j, 0 < j → j < k → runningSum zero xs j < bound) ∧
    (0 < k ∧ bound ≤ runningSum zero xs k ∨
      k = xs.length ∧ (0 < k → runningSum zero xs k < bound))

/-- No sum of up to `k` values reaches the bound. -/
def Short [LinearOrder K] (zero bound : K) (xs : List K) (k : ℕ) : Prop :=
  ∀ j, 0 < j → j ≤ k → runningSum zero xs j < bound

namespace Short

variable [LinearOrder K] {zero bound : K} {xs : List K} {k : ℕ}

theorem start : Short zero bound xs 0 := fun j hpos hj => by omega

theorem next (h : Short zero bound xs k) (hlt : runningSum zero xs (k + 1) < bound) :
    Short zero bound xs (k + 1) := by
  intro j hpos hj
  rcases Nat.lt_or_ge k j with hlast | hearlier
  · have hj' : j = k + 1 := by omega
    rw [hj']
    exact hlt
  · exact h j hpos hearlier

theorem reaches_next (h : Short zero bound xs k) (hk : k < xs.length)
    (hreach : bound ≤ runningSum zero xs (k + 1)) : Reaches zero bound xs (k + 1) :=
  ⟨hk, fun j hpos hj => h j hpos (by omega), .inl ⟨Nat.succ_pos k, hreach⟩⟩

theorem reaches_all (h : Short zero bound xs xs.length) : Reaches zero bound xs xs.length :=
  ⟨Nat.le_refl _, fun j hpos hj => h j hpos (by omega),
    .inr ⟨rfl, fun hpos => h _ hpos (Nat.le_refl _)⟩⟩

end Short

theorem Reaches.unique [LinearOrder K] {zero bound : K} {xs : List K} {k k' : ℕ}
    (h : Reaches zero bound xs k) (h' : Reaches zero bound xs k') : k = k' := by
  have hnot : ∀ {a b : ℕ}, Reaches zero bound xs a → Reaches zero bound xs b → ¬ a < b := by
    intro a b ha hb hab
    obtain ⟨-, -, ⟨hpos, hreach⟩ | ⟨hall, -⟩⟩ := ha
    · exact absurd hreach (not_le.mpr (hb.2.1 a hpos hab))
    · have hlen := hb.1
      omega
  have h1 := hnot h h'
  have h2 := hnot h' h
  omega

/-! ## Sums that start later

Rounded addition of values that are not negative keeps the order, and that is all
these need. -/

section

variable [LinearOrder K] {zero bound : K} {xs : List K}

theorem foldl_add_le (hadd : ∀ a b c d : K, a ≤ b → c ≤ d → a + c ≤ b + d) (ys : List K)
    {a b : K} (hab : a ≤ b) : ys.foldl (· + ·) a ≤ ys.foldl (· + ·) b := by
  induction ys generalizing a b with
  | nil => exact hab
  | cons y rest ih => exact ih (hadd a b y y hab (le_refl y))

theorem le_foldl_add (hadd : ∀ a b c d : K, a ≤ b → c ≤ d → a + c ≤ b + d)
    (hzero : zero ≤ zero + zero) {ys : List K} (hys : ∀ y ∈ ys, zero ≤ y) {a : K}
    (ha : zero ≤ a) : zero ≤ ys.foldl (· + ·) a := by
  induction ys generalizing a with
  | nil => exact ha
  | cons y rest ih =>
    have hy : zero ≤ y := hys y List.mem_cons_self
    exact ih (fun z hz => hys z (List.mem_cons_of_mem y hz))
      (hzero.trans (hadd zero a zero y ha hy))

theorem runningSum_drop_le (hadd : ∀ a b c d : K, a ≤ b → c ≤ d → a + c ≤ b + d)
    (hzero : zero ≤ zero + zero) (hxs : ∀ x ∈ xs, zero ≤ x) (d k : ℕ) :
    runningSum zero (xs.drop d) k ≤ runningSum zero xs (d + k) := by
  rw [runningSum, runningSum, List.take_add, List.foldl_append]
  apply foldl_add_le hadd
  exact le_foldl_add hadd hzero (fun x hx => hxs x (List.mem_of_mem_take hx)) (le_refl zero)

/-- A search that starts `d` values later does not end earlier. -/
theorem Reaches.le_of_drop (hadd : ∀ a b c d : K, a ≤ b → c ≤ d → a + c ≤ b + d)
    (hzero : zero ≤ zero + zero) (hxs : ∀ x ∈ xs, zero ≤ x) {d k k' : ℕ}
    (h : Reaches zero bound xs k) (h' : Reaches zero bound (xs.drop d) k') : k ≤ d + k' := by
  have hk := h.1
  by_contra hlt
  obtain ⟨-, -, ⟨hpos, hreach⟩ | ⟨hall, -⟩⟩ := h'
  · have hbefore := h.2.1 (d + k') (by omega) (by omega)
    have hle := runningSum_drop_le hadd hzero hxs d k'
    exact absurd (hreach.trans hle) (not_le.mpr hbefore)
  · rw [List.length_drop] at hall
    omega

end

end RobotNav
