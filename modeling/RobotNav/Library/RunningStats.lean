/-
The mean and the population variance of a list, and what they become when an entry is
added at the end.

A running variance is usually written with the deviation from the old mean.  With the
same factors and the deviation from the new mean it falls short, unless the entries are
all equal.
-/
import Mathlib.Algebra.BigOperators.Group.List.Lemmas
import Mathlib.Algebra.Order.BigOperators.Group.List
import Mathlib.Algebra.Order.Field.Basic
import Mathlib.Tactic.FieldSimp
import Mathlib.Tactic.Linarith
import Mathlib.Tactic.Positivity
import Mathlib.Tactic.Ring

namespace RobotNav
namespace RunningStats

variable {F : Type*} [Field F]

def mean (xs : List F) : F := xs.sum / xs.length

/-- The variance of `xs` as a whole population. -/
def variance (xs : List F) : F :=
  (xs.map fun x => (x - mean xs) * (x - mean xs)).sum / xs.length

/-- All entries are the same. -/
def Constant (xs : List F) : Prop := ∀ x ∈ xs, ∀ y ∈ xs, x = y

section

variable [CharZero F]

theorem mean_mul_length (xs : List F) : mean xs * xs.length = xs.sum := by
  cases xs with
  | nil => simp
  | cons x rest =>
    rw [mean, div_mul_cancel₀]
    exact Nat.cast_ne_zero.mpr (Nat.succ_ne_zero rest.length)

omit [CharZero F] in
/-- The squared deviations from any number. -/
theorem sum_sq_dev (xs : List F) (c : F) :
    (xs.map fun x => (x - c) * (x - c)).sum =
      (xs.map fun x => x * x).sum - (c + c) * xs.sum + c * c * xs.length := by
  induction xs with
  | nil => simp
  | cons x rest ih =>
    rw [List.map_cons, List.sum_cons, ih, List.map_cons, List.sum_cons, List.sum_cons,
      List.length_cons]
    push_cast
    ring

theorem variance_mul_length (xs : List F) :
    variance xs * xs.length = (xs.map fun x => x * x).sum - mean xs * mean xs * xs.length := by
  have hdev := sum_sq_dev xs (mean xs)
  rw [← mean_mul_length xs] at hdev
  cases xs with
  | nil => simp
  | cons x rest =>
    rw [variance, div_mul_cancel₀ _ (Nat.cast_ne_zero.mpr (Nat.succ_ne_zero rest.length)), hdev]
    ring

/-- The running mean. -/
theorem mean_concat (xs : List F) (x : F) :
    mean (xs ++ [x]) = mean xs + (x - mean xs) / (xs.length + 1 : ℕ) := by
  have hlength : ((xs.length + 1 : ℕ) : F) ≠ 0 := Nat.cast_ne_zero.mpr (Nat.succ_ne_zero _)
  have hsum : (xs ++ [x]).sum = mean xs * xs.length + x := by
    rw [List.sum_append, List.sum_singleton, mean_mul_length]
  rw [mean, hsum, List.length_append, List.length_singleton, div_eq_iff hlength, add_mul,
    div_mul_cancel₀ _ hlength]
  push_cast
  ring

/-- The running variance, with the deviation from the old mean. -/
theorem variance_concat (xs : List F) (x : F) :
    variance (xs ++ [x]) = variance xs * xs.length / (xs.length + 1 : ℕ) +
      (x - mean xs) * (x - mean xs) * xs.length / ((xs.length + 1 : ℕ) * (xs.length + 1 : ℕ)) := by
  have hlength : ((xs.length + 1 : ℕ) : F) ≠ 0 := Nat.cast_ne_zero.mpr (Nat.succ_ne_zero _)
  have hnew := variance_mul_length (xs ++ [x])
  rw [mean_concat, List.length_append, List.length_singleton, List.map_append, List.sum_append,
    List.map_singleton, List.sum_singleton] at hnew
  rw [variance_mul_length, ← mul_left_inj' hlength, hnew]
  push_cast at hlength ⊢
  field_simp
  ring

/-- How far an entry is from the mean after it and from the mean before it. -/
theorem sub_mean_concat (xs : List F) (x : F) :
    x - mean (xs ++ [x]) = (x - mean xs) * (xs.length / (xs.length + 1 : ℕ)) := by
  have hlength : ((xs.length + 1 : ℕ) : F) ≠ 0 := Nat.cast_ne_zero.mpr (Nat.succ_ne_zero _)
  rw [mean_concat]
  push_cast at hlength ⊢
  field_simp
  ring

theorem mean_of_constant {xs : List F} (h : Constant xs) {x : F} (hx : x ∈ xs) : mean xs = x := by
  have hsum : xs.sum = xs.length * x := by
    rw [List.eq_replicate_of_mem (fun y hy => h y hy x hx), List.sum_replicate, nsmul_eq_mul,
      List.length_replicate]
  have hlength : (xs.length : F) ≠ 0 := Nat.cast_ne_zero.mpr (List.length_pos_of_mem hx).ne'
  rw [mean, hsum, mul_div_cancel_left₀ _ hlength]

/-- An entry more leaves a constant list constant when it is the mean. -/
theorem constant_concat {xs : List F} (hne : xs ≠ []) (x : F) :
    Constant (xs ++ [x]) ↔ Constant xs ∧ x = mean xs := by
  constructor
  · intro h
    have hold : Constant xs := fun a ha b hb =>
      h a (List.mem_append_left _ ha) b (List.mem_append_left _ hb)
    obtain ⟨y, hy⟩ := List.exists_mem_of_ne_nil xs hne
    refine ⟨hold, ?_⟩
    rw [mean_of_constant hold hy]
    exact h x (List.mem_append_right _ (List.mem_singleton_self x)) y (List.mem_append_left _ hy)
  · rintro ⟨hold, rfl⟩
    have hmean {a : F} (ha : a ∈ xs ++ [mean xs]) : a = mean xs := by
      rcases List.mem_append.mp ha with ha | ha
      · exact (mean_of_constant hold ha).symm
      · exact List.mem_singleton.mp ha
    exact fun a ha b hb => (hmean ha).trans (hmean hb).symm

end

/-! ## With the deviation from the new mean -/

variable [LinearOrder F]

/-- `c` is at most the variance, and equal to it only where there is none. -/
structure Underestimates (c : F) (xs : List F) : Prop where
  le : c ≤ variance xs
  eq_iff : c = variance xs ↔ Constant xs

theorem Underestimates.singleton (x : F) : Underestimates 0 [x] := by
  have hzero : variance [x] = 0 := by simp [variance, mean]
  refine ⟨hzero.ge, iff_of_true hzero.symm fun a ha b hb => ?_⟩
  rw [List.mem_singleton.mp ha, List.mem_singleton.mp hb]

variable [IsStrictOrderedRing F]

theorem Underestimates.concat {c : F} {xs : List F} (h : xs ≠ [] → Underestimates c xs) (x : F) :
    Underestimates (c * xs.length / (xs.length + 1 : ℕ) +
      (x - mean (xs ++ [x])) * (x - mean (xs ++ [x])) * xs.length /
        ((xs.length + 1 : ℕ) * (xs.length + 1 : ℕ))) (xs ++ [x]) := by
  rcases eq_or_ne xs [] with rfl | hne
  · rw [List.length_nil, Nat.cast_zero, mul_zero, mul_zero, zero_div, zero_div, add_zero]
    exact .singleton x
  · obtain ⟨hle, heq⟩ := h hne
    have hpos : (0 : F) < xs.length := Nat.cast_pos.mpr (List.length_pos_of_ne_nil hne)
    -- what is missing already, and what the new entry adds to it
    have hgap : variance (xs ++ [x]) - (c * xs.length / (xs.length + 1 : ℕ) +
        (x - mean (xs ++ [x])) * (x - mean (xs ++ [x])) * xs.length /
          ((xs.length + 1 : ℕ) * (xs.length + 1 : ℕ))) =
        (variance xs - c) * (xs.length / (xs.length + 1)) + (x - mean xs) * (x - mean xs) *
          (xs.length * (xs.length + xs.length + 1) / (xs.length + 1) ^ 4) := by
      rw [variance_concat, sub_mean_concat]
      push_cast
      field_simp
      ring
    have hold : 0 ≤ (variance xs - c) * (xs.length / (xs.length + 1)) :=
      mul_nonneg (sub_nonneg.mpr hle) (by positivity)
    have hnew : 0 ≤ (x - mean xs) * (x - mean xs) *
        (xs.length * (xs.length + xs.length + 1) / (xs.length + 1) ^ 4 : F) :=
      mul_nonneg (mul_self_nonneg _) (by positivity)
    constructor
    · linarith
    · rw [constant_concat hne, ← heq, eq_comm, ← sub_eq_zero, hgap,
        add_eq_zero_iff_of_nonneg hold hnew, mul_eq_zero, mul_eq_zero, mul_self_eq_zero]
      have hfactor : (xs.length / (xs.length + 1) : F) ≠ 0 := by positivity
      have hfactor' : (xs.length * (xs.length + xs.length + 1) / (xs.length + 1) ^ 4 : F) ≠ 0 := by
        positivity
      simp only [hfactor, hfactor', or_false, sub_eq_zero]
      exact and_congr_left fun _ => eq_comm

end RunningStats
end RobotNav
