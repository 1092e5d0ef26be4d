/-
The integer line of Bresenham, and how far it runs from the real segment.

The walk takes one point per step of the longer axis; an error term decides when
the shorter axis moves.  A point of the segment lies in the pixel of the walk at
its place on the longer axis, or in one of the two beside it.
-/
import Mathlib.Algebra.Order.Round
import Mathlib.Tactic.Linarith
import Mathlib.Tactic.Positivity
import Mathlib.Tactic.Ring

namespace RobotNav
namespace Bresenham

/-- The error term and the offset on the shorter axis after `k` steps. -/
def advance (den add : ℕ) : ℕ → ℕ × ℕ
  | 0 => (den / 2, 0)
  | k + 1 =>
    let (num, minor) := advance den add k
    if den ≤ num + add then (num + add - den, minor + 1) else (num + add, minor)

def minor (den add k : ℕ) : ℕ := (advance den add k).2

/-- The direction from `a` to `b` on one axis. -/
def sign (a b : ℤ) : ℤ := if a ≤ b then 1 else -1

/-- The points from `a` to `b`, both included. -/
def walk (a b : ℤ × ℤ) : List (ℤ × ℤ) :=
  let dx := (b.1 - a.1).natAbs
  let dy := (b.2 - a.2).natAbs
  if dy ≤ dx then
    (List.range (dx + 1)).map fun k : ℕ =>
      (a.1 + sign a.1 b.1 * k, a.2 + sign a.2 b.2 * minor dx dy k)
  else
    (List.range (dy + 1)).map fun k : ℕ =>
      (a.1 + sign a.1 b.1 * minor dy dx k, a.2 + sign a.2 b.2 * k)

theorem advance_spec {den add : ℕ} (hden : 0 < den) (hadd : add ≤ den) (k : ℕ) :
    (advance den add k).1 + (advance den add k).2 * den = den / 2 + k * add ∧
      (advance den add k).1 < den := by
  induction k with
  | zero =>
    rw [advance]
    simp only
    omega
  | succ k ih =>
    rw [advance]
    obtain ⟨hsum, hlt⟩ := ih
    have hk : (k + 1) * add = k * add + add := Nat.succ_mul k add
    by_cases hover : den ≤ (advance den add k).1 + add
    · have hm : ((advance den add k).2 + 1) * den = (advance den add k).2 * den + den :=
        Nat.succ_mul _ _
      simp only [hover, if_true]
      omega
    · simp only [hover, if_false]
      omega

/-- The walk is never more than half a pixel from the line. -/
theorem minor_error {den add : ℕ} (hden : 0 < den) (hadd : add ≤ den) (k : ℕ) :
    2 * (k * add) ≤ 2 * (minor den add k * den) + den ∧
      2 * (minor den add k * den) ≤ 2 * (k * add) + den := by
  obtain ⟨hsum, hlt⟩ := advance_spec hden hadd k
  rw [minor]
  omega

theorem minor_le {den add k : ℕ} (hadd : add ≤ den) (hk : k ≤ den) : minor den add k ≤ add := by
  rcases Nat.eq_zero_or_pos den with rfl | hden
  · have hk0 : k = 0 := Nat.le_zero.mp hk
    rw [hk0]
    exact Nat.zero_le _
  · obtain ⟨-, herr⟩ := minor_error hden hadd k
    have hmul : k * add ≤ den * add := Nat.mul_le_mul_right _ hk
    by_contra hgt
    have hge : (add + 1) * den ≤ minor den add k * den := Nat.mul_le_mul_right _ (by omega)
    have hsucc : (add + 1) * den = add * den + den := Nat.succ_mul _ _
    have hcomm : den * add = add * den := Nat.mul_comm _ _
    omega

theorem minor_zero_add {den : ℕ} (hden : 0 < den) (k : ℕ) : minor den 0 k = 0 := by
  obtain ⟨hsum, hlt⟩ := advance_spec hden (Nat.zero_le den) k
  rw [minor]
  by_contra hne
  have hle : 1 * den ≤ (advance den 0 k).2 * den := Nat.mul_le_mul_right _ (by omega)
  omega

theorem sign_mul_natAbs (a b : ℤ) : sign a b * (b - a).natAbs = b - a := by
  rw [sign]
  split <;> omega

/-- The walk stays in the rectangle its ends span. -/
theorem walk_box {a b w : ℤ × ℤ} (hw : w ∈ walk a b) :
    (min a.1 b.1 ≤ w.1 ∧ w.1 ≤ max a.1 b.1) ∧ (min a.2 b.2 ≤ w.2 ∧ w.2 ≤ max a.2 b.2) := by
  have haxis : ∀ (i j : ℤ) (k : ℕ), k ≤ (j - i).natAbs →
      min i j ≤ i + sign i j * k ∧ i + sign i j * k ≤ max i j := by
    intro i j k hk
    rw [sign]
    split <;> omega
  by_cases hmajor : (b.2 - a.2).natAbs ≤ (b.1 - a.1).natAbs
  · simp only [walk, hmajor, if_true, List.mem_map, List.mem_range] at hw
    obtain ⟨k, hk, rfl⟩ := hw
    exact ⟨haxis a.1 b.1 k (by omega), haxis a.2 b.2 _ (minor_le hmajor (by omega))⟩
  · simp only [walk, hmajor, if_false, List.mem_map, List.mem_range] at hw
    obtain ⟨k, hk, rfl⟩ := hw
    exact ⟨haxis a.1 b.1 _ (minor_le (by omega) (by omega)), haxis a.2 b.2 k (by omega)⟩

theorem sign_cases (a b : ℤ) : sign a b = 1 ∨ sign a b = -1 := by
  rw [sign]
  split
  · exact .inl rfl
  · exact .inr rfl

/-! ## Points of the segment -/

section Segment

variable {K : Type*} [Field K] [LinearOrder K] [IsStrictOrderedRing K] [FloorRing K]

/-- The pixel a coordinate lies in, pixels being centred on the integers. -/
def pixel (x : K) : ℤ := round x

theorem pixel_le (x : K) : (pixel x : K) ≤ x + 1 / 2 := round_le_add_half x

theorem lt_pixel (x : K) : x - 1 / 2 < (pixel x : K) := sub_half_lt_round x

theorem pixel_add (i : ℤ) (x : K) : pixel ((i : K) + x) = i + pixel x := round_intCast_add x i

theorem pixel_zero : pixel (0 : K) = 0 := round_zero

/-- A coordinate between 0 and `s * d` lies in a pixel `s * k` with `k ≤ d`. -/
theorem pixel_major {s : ℤ} (hs : s = 1 ∨ s = -1) {d : ℕ} {t : K} (h0 : 0 ≤ t) (h1 : t ≤ 1) :
    ∃ k : ℕ, k ≤ d ∧ pixel (t * (s * d)) = s * k := by
  have hle := pixel_le (t * ((s : K) * d))
  have hlt := lt_pixel (t * ((s : K) * d))
  have htd0 : 0 ≤ t * (d : K) := by positivity
  have htd1 : t * (d : K) ≤ d := by
    have hd : (0 : K) ≤ d := by positivity
    nlinarith
  refine ⟨(s * pixel (t * ((s : K) * d))).toNat, ?_, ?_⟩
  · rcases hs with rfl | rfl
    · have hup : (pixel (t * (((1 : ℤ) : K) * d)) : K) < ((d + 1 : ℤ) : K) := by
        push_cast at hle ⊢
        linarith
      have hup' := Int.cast_lt.mp hup
      omega
    · have hlow : (((-(d : ℤ)) - 1 : ℤ) : K) < (pixel (t * (((-1 : ℤ) : K) * d)) : K) := by
        push_cast at hlt ⊢
        linarith
      have hlow' := Int.cast_lt.mp hlow
      omega
  · rcases hs with rfl | rfl
    · have hlow : ((-1 : ℤ) : K) < (pixel (t * (((1 : ℤ) : K) * d)) : K) := by
        push_cast at hlt ⊢
        linarith
      have hlow' := Int.cast_lt.mp hlow
      omega
    · have hup : (pixel (t * (((-1 : ℤ) : K) * d)) : K) < ((1 : ℤ) : K) := by
        push_cast at hle ⊢
        linarith
      have hup' := Int.cast_lt.mp hup
      omega

/-- On the shorter axis the walk is within one of the segment. -/
theorem minor_near {s : ℤ} (hs : s = 1 ∨ s = -1) {d add k : ℕ} (hd : 0 < d) (hadd : add ≤ d)
    {t : K} (hk : pixel (t * (s * d)) = s * k) :
    -1 ≤ (minor d add k : K) - t * add ∧ (minor d add k : K) - t * add ≤ 1 := by
  obtain ⟨herr1, herr2⟩ := minor_error hd hadd k
  have hle := pixel_le (t * ((s : K) * d))
  have hlt := lt_pixel (t * ((s : K) * d))
  rw [hk] at hle hlt
  have hdK : (0 : K) < d := Nat.cast_pos.mpr hd
  have haddK : (add : K) ≤ d := Nat.cast_le.mpr hadd
  have hadd0 : (0 : K) ≤ add := Nat.cast_nonneg add
  -- the place on the longer axis is within half a step of `t * d`
  have hnear : -(1 / 2) ≤ (k : K) - t * d ∧ (k : K) - t * d ≤ 1 / 2 := by
    rcases hs with rfl | rfl <;>
    · push_cast at hle hlt
      constructor <;> linarith
  have herr1' : 2 * ((k : K) * add) ≤ 2 * ((minor d add k : K) * d) + d := by
    exact_mod_cast herr1
  have herr2' : 2 * ((minor d add k : K) * d) ≤ 2 * ((k : K) * add) + d := by
    exact_mod_cast herr2
  constructor
  · have hmul : -(1 / 2) * add ≤ ((k : K) - t * d) * add :=
      mul_le_mul_of_nonneg_right hnear.1 hadd0
    have hsum : -1 * (d : K) ≤ ((minor d add k : K) - t * add) * d := by linarith
    exact le_of_mul_le_mul_right hsum hdK
  · have hmul : ((k : K) - t * d) * add ≤ 1 / 2 * add :=
      mul_le_mul_of_nonneg_right hnear.2 hadd0
    have hsum : ((minor d add k : K) - t * add) * d ≤ 1 * d := by linarith
    exact le_of_mul_le_mul_right hsum hdK

/-- Beside that pixel the walk is at most one off. -/
theorem pixel_minor {s s' : ℤ} (hs : s = 1 ∨ s = -1) (hs' : s' = 1 ∨ s' = -1) {d add k : ℕ}
    (hadd : add ≤ d) {t : K} (hk : pixel (t * (s * d)) = s * k) :
    |s' * minor d add k - pixel (t * (s' * add))| ≤ 1 ∧
      (add = 0 → s' * minor d add k = pixel (t * (s' * add))) := by
  rcases Nat.eq_zero_or_pos d with rfl | hd
  · have hadd0 : add = 0 := Nat.le_zero.mp hadd
    subst hadd0
    have hk0 : k = 0 := by
      rw [Nat.cast_zero, mul_zero, mul_zero, pixel_zero] at hk
      rcases hs with rfl | rfl <;> omega
    have hzero : s' * (minor 0 0 k : ℤ) = pixel (t * ((s' : K) * (0 : ℕ))) := by
      rw [hk0, Nat.cast_zero, mul_zero, mul_zero, pixel_zero]
      show s' * ((0 : ℕ) : ℤ) = 0
      rw [Nat.cast_zero, mul_zero]
    rw [hzero]
    simp
  · have hoff := minor_near hs hd hadd hk
    have hle := pixel_le (t * ((s' : K) * add))
    have hlt := lt_pixel (t * ((s' : K) * add))
    constructor
    · have hbound : ((-2 : ℤ) : K) < ((s' * minor d add k - pixel (t * ((s' : K) * add)) : ℤ) : K) ∧
          ((s' * minor d add k - pixel (t * ((s' : K) * add)) : ℤ) : K) < ((2 : ℤ) : K) := by
        rcases hs' with rfl | rfl <;>
        · push_cast at hle hlt ⊢
          constructor <;> linarith
      have hlow := Int.cast_lt.mp hbound.1
      have hup := Int.cast_lt.mp hbound.2
      rw [abs_le]
      omega
    · intro hadd0
      rw [hadd0, minor_zero_add hd, Nat.cast_zero, Nat.cast_zero, mul_zero, mul_zero, mul_zero,
        pixel_zero]

/-- The pixel of a point of the segment. -/
def pixelAt (a b : ℤ × ℤ) (t : K) : ℤ × ℤ :=
  (pixel (a.1 + t * (b.1 - a.1)), pixel (a.2 + t * (b.2 - a.2)))

theorem pixelAt_eq (a b : ℤ × ℤ) (t : K) :
    pixelAt a b t =
      (a.1 + pixel (t * ((sign a.1 b.1 : K) * ((b.1 - a.1).natAbs : ℕ))),
        a.2 + pixel (t * ((sign a.2 b.2 : K) * ((b.2 - a.2).natAbs : ℕ)))) := by
  have hcast : ∀ i j : ℤ, ((sign i j : K) * ((j - i).natAbs : ℕ)) = (j : K) - i := by
    intro i j
    have h := congrArg (Int.cast : ℤ → K) (sign_mul_natAbs i j)
    rw [Int.cast_mul, Int.cast_sub, Int.cast_natCast] at h
    exact h
  rw [pixelAt, hcast, hcast, pixel_add, pixel_add]

/-- A point of the segment lies in the rectangle its ends span. -/
theorem pixelAt_box (a b : ℤ × ℤ) {t : K} (h0 : 0 ≤ t) (h1 : t ≤ 1) :
    (min a.1 b.1 ≤ (pixelAt a b t).1 ∧ (pixelAt a b t).1 ≤ max a.1 b.1) ∧
      (min a.2 b.2 ≤ (pixelAt a b t).2 ∧ (pixelAt a b t).2 ≤ max a.2 b.2) := by
  have haxis : ∀ i j : ℤ,
      min i j ≤ i + pixel (t * ((sign i j : K) * ((j - i).natAbs : ℕ))) ∧
        i + pixel (t * ((sign i j : K) * ((j - i).natAbs : ℕ))) ≤ max i j := by
    intro i j
    obtain ⟨k, hk, hpixel⟩ := pixel_major (sign_cases i j) (d := (j - i).natAbs) h0 h1
    rw [hpixel]
    rw [sign]
    split <;> omega
  rw [pixelAt_eq]
  exact ⟨haxis a.1 b.1, haxis a.2 b.2⟩

/-- Two pixels share an edge. -/
def Beside (v w : ℤ × ℤ) : Prop :=
  (v.1 = w.1 ∧ |v.2 - w.2| = 1) ∨ (v.2 = w.2 ∧ |v.1 - w.1| = 1)

/-- Each point of the segment lies in a pixel of the walk or beside one; on a
segment along an axis it lies in a pixel of the walk. -/
theorem walk_near (a b : ℤ × ℤ) {t : K} (h0 : 0 ≤ t) (h1 : t ≤ 1) :
    ∃ w ∈ walk a b, w = pixelAt a b t ∨
      (a.1 ≠ b.1 ∧ a.2 ≠ b.2 ∧ Beside w (pixelAt a b t)) := by
  rw [pixelAt_eq]
  have hsx := sign_cases a.1 b.1
  have hsy := sign_cases a.2 b.2
  by_cases hmajor : (b.2 - a.2).natAbs ≤ (b.1 - a.1).natAbs
  · obtain ⟨k, hk, hpixel⟩ := pixel_major hsx (d := (b.1 - a.1).natAbs) h0 h1
    obtain ⟨hnear, haxis⟩ := pixel_minor hsx hsy hmajor hpixel
    refine ⟨(a.1 + sign a.1 b.1 * k,
      a.2 + sign a.2 b.2 * minor (b.1 - a.1).natAbs (b.2 - a.2).natAbs k), ?_, ?_⟩
    · simp only [walk, hmajor, if_true]
      exact List.mem_map.mpr ⟨k, List.mem_range.mpr (by omega), rfl⟩
    · rw [hpixel]
      by_cases hsame : sign a.2 b.2 * (minor (b.1 - a.1).natAbs (b.2 - a.2).natAbs k : ℤ) =
          pixel (t * ((sign a.2 b.2 : K) * ((b.2 - a.2).natAbs : ℕ)))
      · left
        rw [hsame]
      · right
        have hy : (b.2 - a.2).natAbs ≠ 0 := fun h => hsame (haxis h)
        refine ⟨by omega, by omega, .inl ⟨rfl, ?_⟩⟩
        rw [abs_le] at hnear
        rw [abs_eq (by omega)]
        omega
  · have hminor : (b.1 - a.1).natAbs ≤ (b.2 - a.2).natAbs := by omega
    obtain ⟨k, hk, hpixel⟩ := pixel_major hsy (d := (b.2 - a.2).natAbs) h0 h1
    obtain ⟨hnear, haxis⟩ := pixel_minor hsy hsx hminor hpixel
    refine ⟨(a.1 + sign a.1 b.1 * minor (b.2 - a.2).natAbs (b.1 - a.1).natAbs k,
      a.2 + sign a.2 b.2 * k), ?_, ?_⟩
    · simp only [walk, hmajor, if_false]
      exact List.mem_map.mpr ⟨k, List.mem_range.mpr (by omega), rfl⟩
    · rw [hpixel]
      by_cases hsame : sign a.1 b.1 * (minor (b.2 - a.2).natAbs (b.1 - a.1).natAbs k : ℤ) =
          pixel (t * ((sign a.1 b.1 : K) * ((b.1 - a.1).natAbs : ℕ)))
      · left
        rw [hsame]
      · right
        have hx : (b.1 - a.1).natAbs ≠ 0 := fun h => hsame (haxis h)
        refine ⟨by omega, by omega, .inr ⟨rfl, ?_⟩⟩
        rw [abs_le] at hnear
        rw [abs_eq (by omega)]
        omega

end Segment

/-- The walk to a neighbouring pixel, also across a corner, has only the two
ends. -/
theorem walk_adjacent {a b w : ℤ × ℤ} (hx : (b.1 - a.1).natAbs ≤ 1)
    (hy : (b.2 - a.2).natAbs ≤ 1) (hw : w ∈ walk a b) : w = a ∨ w = b := by
  have hsx := sign_mul_natAbs a.1 b.1
  have hsy := sign_mul_natAbs a.2 b.2
  have hzero : ∀ den add, minor den add 0 = 0 := fun _ _ => rfl
  -- after one step the shorter axis has moved exactly when it has to
  have hone : ∀ d : ℕ, d ≤ 1 → minor 1 d 1 = d := by
    intro d hd
    rcases Nat.le_one_iff_eq_zero_or_eq_one.mp hd with rfl | rfl <;> rfl
  by_cases hmajor : (b.2 - a.2).natAbs ≤ (b.1 - a.1).natAbs
  · simp only [walk, hmajor, if_true, List.mem_map, List.mem_range] at hw
    obtain ⟨k, hk, rfl⟩ := hw
    rcases Nat.eq_zero_or_pos k with rfl | hpos
    · left
      rw [hzero]
      simp
    · right
      have hk1 : k = 1 := by omega
      have hd : (b.1 - a.1).natAbs = 1 := by omega
      subst hk1
      rw [hd] at hsx
      rw [hd, hone _ hy]
      refine Prod.ext ?_ ?_ <;> simp only <;> omega
  · simp only [walk, hmajor, if_false, List.mem_map, List.mem_range] at hw
    obtain ⟨k, hk, rfl⟩ := hw
    rcases Nat.eq_zero_or_pos k with rfl | hpos
    · left
      rw [hzero]
      simp
    · right
      have hk1 : k = 1 := by omega
      have hd : (b.2 - a.2).natAbs = 1 := by omega
      subst hk1
      rw [hd] at hsy
      rw [hd, hone _ hx]
      refine Prod.ext ?_ ?_ <;> simp only <;> omega

end Bresenham
end RobotNav
