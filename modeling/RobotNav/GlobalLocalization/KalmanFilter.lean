/-
The filter of the estimate over any run of measurements.

The gain is a part of the way from the estimate to the measurement, between none and
all of it, so an estimate never leaves the span of what has been measured; the branch
for a small denominator goes all of the way.
-/
import Mathlib.Data.List.Induction
import Mathlib.Data.Rat.Floor
import Mathlib.Tactic.FieldSimp
import Mathlib.Tactic.Linarith
import Mathlib.Tactic.NormNum
import Mathlib.Tactic.Positivity
import Mathlib.Tactic.Ring
import RobotNav.GlobalLocalization.Node

namespace RobotNav
namespace GlobalLocalization
namespace KalmanFilter

/-! ## One measurement -/

section

variable {K : Type} [Arith K]

/-- The division is by the denominator, and only made when that is not small. -/
theorem division_eq_some {f : KalmanFilter K} {num den : K} (h : f.division = some (num, den)) :
    ¬ fabs f.denominator < ratio 1 10000000000 ∧
      num = f.prioriErrorEstimate ∧ den = f.denominator := by
  rw [division] at h
  split_ifs at h with hsmall
  obtain ⟨hnum, hden⟩ := Prod.mk.inj (Option.some.inj h)
  exact ⟨hsmall, hnum.symm, hden.symm⟩

/-- Either nothing is divided and the measurement is taken, or it is blended in. -/
theorem inputLatestNoisyMeasurement_cases (f : KalmanFilter K) (measurement : K) :
    (f.division = none ∧ f.inputLatestNoisyMeasurement measurement =
      { f with posteriEstimate := measurement, posteriErrorEstimate := lit 1 }) ∨
    ∃ num den, f.division = some (num, den) ∧ f.inputLatestNoisyMeasurement measurement =
      { f with
        posteriEstimate := f.posteriEstimate + num / den * (measurement - f.posteriEstimate)
        posteriErrorEstimate := (lit 1 - num / den) * f.prioriErrorEstimate } := by
  unfold inputLatestNoisyMeasurement
  rcases f.division with _ | ⟨num, den⟩
  · exact .inl ⟨rfl, rfl⟩
  · exact .inr ⟨num, den, rfl, rfl⟩

/-- The filter after several measurements, in order. -/
def inputAll (f : KalmanFilter K) (measurements : List K) : KalmanFilter K :=
  measurements.foldl inputLatestNoisyMeasurement f

theorem inputAll_snoc (f : KalmanFilter K) (measurements : List K) (measurement : K) :
    f.inputAll (measurements ++ [measurement]) =
      (f.inputAll measurements).inputLatestNoisyMeasurement measurement :=
  List.foldl_append

end

/-! ## What every measurement keeps -/

variable {F : Type} [Field F] [LinearOrder F] [IsStrictOrderedRing F] [FloorRing F]

/-- The variances are variances, and the error is at most `bound`. -/
structure Bounded (bound : F) (f : KalmanFilter F) : Prop where
  processVar : 0 ≤ f.processVar
  estimatedMeasVar : 0 ≤ f.estimatedMeasVar
  one_le : 1 ≤ bound
  estimatedMeasVar_le : f.estimatedMeasVar ≤ bound
  error_nonneg : 0 ≤ f.posteriErrorEstimate
  error_le : f.posteriErrorEstimate ≤ bound

variable {bound : F} {f : KalmanFilter F}

theorem Bounded.priori_nonneg (h : f.Bounded bound) : 0 ≤ f.prioriErrorEstimate :=
  add_nonneg h.error_nonneg h.processVar

theorem Bounded.priori_le (h : f.Bounded bound) : f.prioriErrorEstimate ≤ f.denominator :=
  le_add_of_nonneg_right h.estimatedMeasVar

/-- A division is by a number that is not small, and its result is a part. -/
theorem Bounded.division (h : f.Bounded bound) {num den : F}
    (hdiv : f.division = some (num, den)) :
    1 / 10000000000 ≤ den ∧ 0 ≤ num / den ∧ num / den ≤ 1 := by
  obtain ⟨hlarge, rfl, rfl⟩ := division_eq_some hdiv
  have hden : 0 ≤ f.denominator := h.priori_nonneg.trans h.priori_le
  have hge : 1 / 10000000000 ≤ f.denominator := by
    rw [fabs_eq_abs, abs_of_nonneg hden, ratio_eq, not_lt] at hlarge
    push_cast at hlarge
    exact hlarge
  have hpos : 0 < f.denominator := lt_of_lt_of_le (by norm_num) hge
  exact ⟨hge, div_nonneg h.priori_nonneg hden, (div_le_one hpos).mpr h.priori_le⟩

/-- What is left of the error is the same part of the variance of the measurement. -/
theorem Bounded.blended_error (h : f.Bounded bound) {num den : F}
    (hdiv : f.division = some (num, den)) :
    (lit 1 - num / den) * f.prioriErrorEstimate = num / den * f.estimatedMeasVar := by
  obtain ⟨hden, -, -⟩ := h.division hdiv
  obtain ⟨-, rfl, rfl⟩ := division_eq_some hdiv
  have hpos : 0 < f.denominator := lt_of_lt_of_le (by norm_num) hden
  have hne := ne_of_gt hpos
  rw [lit_eq, Int.cast_one]
  field_simp
  rw [denominator]
  ring

theorem Bounded.step (h : f.Bounded bound) (measurement : F) :
    (f.inputLatestNoisyMeasurement measurement).Bounded bound := by
  rcases inputLatestNoisyMeasurement_cases f measurement with
    ⟨-, htaken⟩ | ⟨num, den, hdiv, hblended⟩
  · rw [htaken]
    refine ⟨h.processVar, h.estimatedMeasVar, h.one_le, h.estimatedMeasVar_le, ?_, ?_⟩
    · show (0 : F) ≤ lit 1
      rw [lit_eq, Int.cast_one]
      exact zero_le_one
    · show lit 1 ≤ bound
      rw [lit_eq, Int.cast_one]
      exact h.one_le
  · obtain ⟨-, hnonneg, hle⟩ := h.division hdiv
    rw [hblended]
    refine ⟨h.processVar, h.estimatedMeasVar, h.one_le, h.estimatedMeasVar_le, ?_, ?_⟩
    · show 0 ≤ (lit 1 - num / den) * f.prioriErrorEstimate
      rw [lit_eq, Int.cast_one]
      exact mul_nonneg (sub_nonneg.mpr hle) h.priori_nonneg
    · show (lit 1 - num / den) * f.prioriErrorEstimate ≤ bound
      rw [h.blended_error hdiv]
      have hpart : num / den * f.estimatedMeasVar ≤ 1 * f.estimatedMeasVar :=
        mul_le_mul_of_nonneg_right hle h.estimatedMeasVar
      rw [one_mul] at hpart
      exact hpart.trans h.estimatedMeasVar_le

/-- The new estimate is between the old one and the measurement. -/
theorem Bounded.estimate (h : f.Bounded bound) (measurement : F) :
    min f.posteriEstimate measurement ≤
        (f.inputLatestNoisyMeasurement measurement).posteriEstimate ∧
      (f.inputLatestNoisyMeasurement measurement).posteriEstimate ≤
        max f.posteriEstimate measurement := by
  rcases inputLatestNoisyMeasurement_cases f measurement with
    ⟨-, htaken⟩ | ⟨num, den, hdiv, hblended⟩
  · rw [htaken]
    exact ⟨min_le_right _ _, le_max_right _ _⟩
  · obtain ⟨-, hnonneg, hle⟩ := h.division hdiv
    have hrest : 0 ≤ 1 - num / den := sub_nonneg.mpr hle
    have hmean : f.posteriEstimate + num / den * (measurement - f.posteriEstimate) =
        (1 - num / den) * f.posteriEstimate + num / den * measurement := by ring
    rw [hblended]
    show min f.posteriEstimate measurement ≤
        f.posteriEstimate + num / den * (measurement - f.posteriEstimate) ∧
      f.posteriEstimate + num / den * (measurement - f.posteriEstimate) ≤
        max f.posteriEstimate measurement
    rw [hmean]
    constructor
    · have hold := mul_le_mul_of_nonneg_left (min_le_left f.posteriEstimate measurement) hrest
      have hnew := mul_le_mul_of_nonneg_left (min_le_right f.posteriEstimate measurement) hnonneg
      linarith
    · have hold := mul_le_mul_of_nonneg_left (le_max_left f.posteriEstimate measurement) hrest
      have hnew := mul_le_mul_of_nonneg_left (le_max_right f.posteriEstimate measurement) hnonneg
      linarith

theorem Bounded.inputAll (h : f.Bounded bound) (measurements : List F) :
    (f.inputAll measurements).Bounded bound := by
  induction measurements using List.reverseRecOn with
  | nil => exact h
  | append_singleton measurements measurement ih =>
    rw [inputAll_snoc]
    exact ih.step measurement

theorem Bounded.inputAll_estimate (h : f.Bounded bound) (measurements : List F) :
    measurements.foldl min f.posteriEstimate ≤ (f.inputAll measurements).posteriEstimate ∧
      (f.inputAll measurements).posteriEstimate ≤ measurements.foldl max f.posteriEstimate := by
  induction measurements using List.reverseRecOn with
  | nil => exact ⟨le_refl _, le_refl _⟩
  | append_singleton measurements measurement ih =>
    obtain ⟨hlow, hhigh⟩ := (h.inputAll measurements).estimate measurement
    rw [inputAll_snoc, List.foldl_append, List.foldl_append]
    constructor
    · exact (min_le_min_right measurement ih.1).trans hlow
    · exact hhigh.trans (max_le_max_right measurement ih.2)

omit [IsStrictOrderedRing F] in
theorem bounded_init {processVar estimatedMeasVar : F} (hprocess : 0 ≤ processVar)
    (hmeas : 0 ≤ estimatedMeasVar) (estimate : F) :
    (kalmanFilterInit processVar estimatedMeasVar estimate).Bounded (max 1 estimatedMeasVar) := by
  refine ⟨hprocess, hmeas, le_max_left _ _, le_max_right _ _, ?_, ?_⟩
  · show (0 : F) ≤ lit 1
    rw [lit_eq, Int.cast_one]
    exact zero_le_one
  · show lit 1 ≤ max 1 estimatedMeasVar
    rw [lit_eq, Int.cast_one]
    exact le_max_left _ _

/-- After any measurements: the error is between zero and the greater of one and the
variance of a measurement, the next measurement divides by nothing small and blends by
a part, and the estimate is in the span of the first one and the measurements. -/
theorem filter_bounded {processVar estimatedMeasVar : F} (hprocess : 0 ≤ processVar)
    (hmeas : 0 ≤ estimatedMeasVar) (estimate : F) (measurements : List F) {f : KalmanFilter F}
    (hf : f = (kalmanFilterInit processVar estimatedMeasVar estimate).inputAll measurements) :
    (0 ≤ f.posteriErrorEstimate ∧ f.posteriErrorEstimate ≤ max 1 estimatedMeasVar) ∧
      (∀ num den, f.division = some (num, den) →
        1 / 10000000000 ≤ den ∧ 0 ≤ num / den ∧ num / den ≤ 1) ∧
      measurements.foldl min estimate ≤ f.getLatestEstimatedMeasurement ∧
      f.getLatestEstimatedMeasurement ≤ measurements.foldl max estimate := by
  subst hf
  have hinit := bounded_init hprocess hmeas estimate
  have hbounded := hinit.inputAll measurements
  exact ⟨⟨hbounded.error_nonneg, hbounded.error_le⟩, fun num den hdiv => hbounded.division hdiv,
    hinit.inputAll_estimate measurements⟩

/-- A measurement fed twice, with no variance at all. -/
theorem filter_bounded_twice :
    ∃ f, f = (kalmanFilterInit (0 : ℚ) 0 2).inputAll [5, 5] ∧
      (0 ≤ f.posteriErrorEstimate ∧ f.posteriErrorEstimate ≤ max 1 0) ∧
      (∀ num den, f.division = some (num, den) →
        1 / 10000000000 ≤ den ∧ 0 ≤ num / den ∧ num / den ≤ 1) ∧
      [5, 5].foldl min (2 : ℚ) ≤ f.getLatestEstimatedMeasurement ∧
      f.getLatestEstimatedMeasurement ≤ [5, 5].foldl max (2 : ℚ) :=
  ⟨_, rfl, filter_bounded (le_refl 0) (le_refl 0) 2 [5, 5] rfl⟩

end KalmanFilter
end GlobalLocalization
end RobotNav
