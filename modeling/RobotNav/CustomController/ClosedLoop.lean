/-
The controller and a robot that turns on the spot, ten calls a second.

A positive `angular.z` increases the yaw.  The controller commands a negative
one when the target is at a greater yaw, and so the difference grows from call
to call until it passes half a turn and comes back on the other side: a robot
that is not aligned when it starts to rotate never is.

The yaw is exact; the `float` it is converted to in each call may be off by the
rounding of a `float` below 4.
-/
import RobotNav.CustomController.Pruning
import Mathlib.Analysis.SpecialFunctions.Trigonometric.Angle
import Mathlib.Analysis.Real.Pi.Bounds

namespace RobotNav
namespace CustomController

noncomputable section

open Real

/-! ## The loop -/

def yawQuaternion (yaw : ℝ) : Quaternion ℝ := ⟨0, 0, sin (yaw / lit 2), cos (yaw / lit 2)⟩

/-- The robot at `place`, turned to `yaw`. -/
def standing (place : PoseStamped ℝ) (yaw : ℝ) : PoseStamped ℝ :=
  { place with orientation := yawQuaternion yaw }

def standingCall (place : PoseStamped ℝ) (yaw : ℝ) : Call ℝ :=
  ⟨standing place yaw, some (standing place yaw)⟩

def Reply.angularZ : Reply ℝ → ℝ
  | .ok sent => sent.cmdVel.angularZ
  | .error _ => 0

def Reply.angleDiff : Reply ℝ → ℝ
  | .ok sent => sent.angleDiff
  | .error _ => 0

/-- One period: a call, and the turn it commands for 0.1 s. -/
def period (m : Maths ℝ) (place : PoseStamped ℝ) (s : Controller ℝ × ℝ) : Controller ℝ × ℝ :=
  let (c, reply) := computeVelocityCommands m s.1 (standingCall place s.2)
  (c, s.2 + 0.1 * Reply.angularZ reply)

/-- The `angle_diff` of the call made in `s`. -/
def angleDiffAt (m : Maths ℝ) (place : PoseStamped ℝ) (s : Controller ℝ × ℝ) : ℝ :=
  Reply.angleDiff (computeVelocityCommands m s.1 (standingCall place s.2)).2

/-- The `angle_diff` of call `k`. -/
def angleDiffs (m : Maths ℝ) (place : PoseStamped ℝ) (s : Controller ℝ × ℝ) (k : ℕ) : ℝ :=
  angleDiffAt m place ((period m place)^[k] s)

/-- What is used of `tf2::getYaw` and of the conversion to `float`: the yaw of a
turn about the vertical, up to full turns, the range, and rounding to nearest. -/
structure Sound (getYaw : Quaternion ℝ → ℝ) (toFloat : ℝ → ℝ) : Prop where
  getYaw_turn : ∀ yaw : ℝ, ((getYaw (yawQuaternion yaw) : ℝ) : Real.Angle) = (yaw : ℝ)
  getYaw_turn_le : ∀ yaw : ℝ, |getYaw (yawQuaternion yaw)| ≤ π
  getYaw_le : ∀ q, |getYaw q| ≤ 2 * π
  toFloat_near : ∀ x : ℝ, |x| ≤ 4 → |toFloat x - x| ≤ 1 / 2 ^ 23

theorem planarYaw_turn (yaw : ℝ) :
    planarYaw (yawQuaternion yaw) = Complex.arg (Real.cos yaw + Real.sin yaw * Complex.I) := by
  have htwice : yaw = 2 * (yaw / 2) := by ring
  have hcos : cos (yaw / 2) ^ 2 + 0 ^ 2 - 0 ^ 2 - sin (yaw / 2) ^ 2 = cos yaw := by
    conv_rhs => rw [htwice, Real.cos_two_mul']
    ring
  have hsin : 2 * (0 * 0 + cos (yaw / 2) * sin (yaw / 2)) = sin yaw := by
    conv_rhs => rw [htwice, Real.sin_two_mul]
    ring
  show Complex.arg ⟨_, _⟩ = _
  simp only [yawQuaternion, lit_eq, Int.cast_ofNat]
  rw [hcos, hsin, Complex.mk_eq_add_mul_I]

theorem planarYaw_sound : Sound planarYaw id where
  getYaw_turn := fun yaw => by
    rw [planarYaw_turn, ← Real.Angle.cos_coe, ← Real.Angle.sin_coe,
      Complex.arg_cos_add_sin_mul_I_coe_angle]
  getYaw_turn_le := fun _ => Complex.abs_arg_le_pi _
  getYaw_le := fun _ => (Complex.abs_arg_le_pi _).trans (by linarith [pi_pos])
  toFloat_near := fun x _ => by
    rw [id, sub_self, abs_zero]
    positivity

/-! ## The difference after a turn -/

variable {getYaw : Quaternion ℝ → ℝ} {toFloat : ℝ → ℝ}

/-- One wrap brings an angle of up to a turn and a half into half a turn. -/
theorem wrap_spec {x ε : ℝ} (hε : 0 ≤ ε) (hx : |x| ≤ 3 * π + ε) :
    |if x < -π then x + 2 * π else if π < x then x - 2 * π else x| ≤ π + ε ∧
      ∃ k : ℤ, (if x < -π then x + 2 * π else if π < x then x - 2 * π else x) =
        x + k * (2 * π) := by
  have hpi := pi_pos
  have hbounds := abs_le.mp hx
  by_cases hlow : x < -π
  · rw [if_pos hlow]
    refine ⟨abs_le.mpr ⟨by linarith, by linarith⟩, 1, ?_⟩
    rw [Int.cast_one, one_mul]
  · rw [if_neg hlow]
    by_cases hhigh : π < x
    · rw [if_pos hhigh]
      refine ⟨abs_le.mpr ⟨by linarith, by linarith⟩, -1, ?_⟩
      rw [Int.cast_neg, Int.cast_one]
      ring
    · rw [if_neg hhigh]
      refine ⟨abs_le.mpr ⟨by linarith, by linarith⟩, 0, ?_⟩
      rw [Int.cast_zero, zero_mul, add_zero]

/-- The difference is that of the angles up to the rounding and full turns. -/
theorem angleDifference_spec (h : Sound getYaw toFloat) (place : PoseStamped ℝ) (yaw : ℝ)
    {angle : ℝ} (hangle : |angle| ≤ 2 * π) :
    |calculateAngleDifference (realMaths getYaw toFloat) (standing place yaw) angle| ≤
        π + 1 / 2 ^ 23 ∧
      ∃ (k : ℤ) (e : ℝ), |e| ≤ 1 / 2 ^ 23 ∧
        calculateAngleDifference (realMaths getYaw toFloat) (standing place yaw) angle =
          angle - yaw - e + k * (2 * π) := by
  have hyaw := h.getYaw_turn_le yaw
  have hcast := h.toFloat_near (getYaw (yawQuaternion yaw)) (by
    have hpi4 := pi_lt_four
    linarith)
  obtain ⟨turns, hturns⟩ := Real.Angle.angle_eq_iff_two_pi_dvd_sub.mp (h.getYaw_turn yaw)
  set robotYaw := toFloat (getYaw (yawQuaternion yaw))
  have hdiff : calculateAngleDifference (realMaths getYaw toFloat) (standing place yaw) angle =
      if angle - robotYaw < -π then angle - robotYaw + 2 * π
      else if π < angle - robotYaw then angle - robotYaw - 2 * π
      else angle - robotYaw := by
    simp only [calculateAngleDifference, lit_eq, Int.cast_ofNat]
    rfl
  have hraw : |angle - robotYaw| ≤ 3 * π + 1 / 2 ^ 23 := by
    have hyaw' := abs_le.mp hyaw
    have hcast' := abs_le.mp hcast
    have hangle' := abs_le.mp hangle
    exact abs_le.mpr ⟨by linarith, by linarith⟩
  obtain ⟨hle, k, hk⟩ := wrap_spec (by positivity) hraw
  rw [hdiff]
  refine ⟨hle, k - turns, _, hcast, ?_⟩
  rw [hk]
  push_cast
  linarith

/-- A difference above the threshold that grows, by less than would bring it
round, is above the threshold again. -/
theorem grown_gt {d d' δ : ℝ} {k : ℤ} (hd : 0.05 < d) (hle : d ≤ π + 1 / 2 ^ 23) (hδ : 0 < δ)
    (hδle : δ ≤ 0.08) (hd' : d' = d + δ + k * (2 * π)) : 0.05 < |d'| := by
  have hpi := pi_gt_d2
  by_contra hsmall
  have hbounds := abs_le.mp (not_lt.mp hsmall)
  -- a whole number of turns brings it near zero, and it can only be a turn back
  have hneg : (k : ℝ) * (2 * π) < 0 := by linarith [hbounds.2]
  have hk : k < 0 := by
    by_contra hk
    have hk' : (0 : ℝ) ≤ k := by exact_mod_cast not_lt.mp hk
    have hpos : (0 : ℝ) ≤ k * (2 * π) := by positivity
    linarith
  have hk' : (k : ℝ) ≤ -1 := by exact_mod_cast Int.le_sub_one_of_lt hk
  have hback : (k : ℝ) * (2 * π) ≤ -1 * (2 * π) :=
    mul_le_mul_of_nonneg_right hk' (by linarith)
  have hlow := hbounds.1
  norm_num at hle
  linarith

/-- The command turns away from the target. -/
theorem turned_away (h : Sound getYaw toFloat) (place : PoseStamped ℝ) {yaw angle speed : ℝ}
    (hangle : |angle| ≤ 2 * π) (hspeed : 0.08 ≤ speed) (hspeed' : speed ≤ 0.7)
    (hoff : 0.05 <
      |calculateAngleDifference (realMaths getYaw toFloat) (standing place yaw) angle|) :
    0.05 < |calculateAngleDifference (realMaths getYaw toFloat) (standing place
      (yaw + 0.1 * angularZ (calculateAngleDifference (realMaths getYaw toFloat)
        (standing place yaw) angle) speed)) angle| := by
  obtain ⟨hle, k, e, he, hd⟩ := angleDifference_spec h place yaw hangle
  set d := calculateAngleDifference (realMaths getYaw toFloat) (standing place yaw) angle
  obtain ⟨-, k', e', he', hd'⟩ :=
    angleDifference_spec h place (yaw + 0.1 * angularZ d speed) hangle
  set d' := calculateAngleDifference (realMaths getYaw toFloat)
    (standing place (yaw + 0.1 * angularZ d speed)) angle
  have he := abs_le.mp he
  have he' := abs_le.mp he'
  have hle := abs_le.mp hle
  norm_num at he he'
  rcases lt_abs.mp hoff with hpos | hneg
  · have hz : angularZ d speed = -speed := by
      rw [angularZ, lit_eq, Int.cast_zero, if_pos (by linarith)]
    rw [hz] at hd'
    apply grown_gt (δ := 0.1 * speed + e - e') (k := k' - k) hpos hle.2
    · linarith [he.1, he'.2]
    · linarith [he.2, he'.1]
    · rw [hd', hd]
      push_cast
      ring
  · have hz : angularZ d speed = speed := by
      rw [angularZ, lit_eq, Int.cast_zero, if_neg (by linarith)]
    rw [hz] at hd'
    rw [← abs_neg]
    apply grown_gt (δ := 0.1 * speed - e + e') (k := k - k') hneg (by linarith [hle.1])
    · linarith [he.2, he'.1]
    · linarith [he.1, he'.2]
    · rw [hd', hd]
      push_cast
      ring

/-! ## What the robot aims at -/

/-- The difference the robot has at a yaw, from a place with this target and
final pose. -/
def headingError (m : Maths ℝ) (place target final : PoseStamped ℝ) (yaw : ℝ) : ℝ :=
  calculateAngleDifference m (standing place yaw) (targetAngle m final target place)

theorem targetAngle_le (h : Sound getYaw toFloat) (place target final : PoseStamped ℝ) :
    |targetAngle (realMaths getYaw toFloat) final target place| ≤ 2 * π := by
  rw [targetAngle]
  split
  · exact h.getYaw_le _
  · have harg := Complex.abs_arg_le_pi ⟨target.x - place.x, target.y - place.y⟩
    have hpi := pi_pos
    show |Complex.arg _| ≤ 2 * π
    linarith

/-- The call made at a yaw, from a place with a known target. -/
theorem call_standing {m : Maths ℝ} {place target final : PoseStamped ℝ} {c : Controller ℝ}
    (h : Aims m place c target final) (yaw : ℝ) :
    angleDiffAt m place (c, yaw) = headingError m place target final yaw ∧
      ∃ c', Aims m place c' target final ∧ c'.maxAngularSpeed = c.maxAngularSpeed ∧
        c'.isRotating = rotates (decide (atXyGoal m final place)) c.isRotating
          (headingError m place target final yaw) ∧
        period m place (c, yaw) = (c', yaw + 0.1 *
          if c'.isRotating then rotation (decide (atXyGoal m final place)) c.maxAngularSpeed
            (headingError m place target final yaw)
          else lit 0) := by
  have hcalled := h.call (standingCall place yaw) (standing place yaw) rfl rfl rfl
  obtain ⟨pruned, haims, hcall⟩ := hcalled
  constructor
  · rw [angleDiffAt, hcall]
    rfl
  · refine ⟨(steer m { c with globalPlan := pruned } (standing place yaw).frameId
      (standing place yaw) target final).1, haims, rfl, rfl, ?_⟩
    have hz := steer_angularZ m { c with globalPlan := pruned } (standing place yaw).frameId
      (standing place yaw) target final
    rw [period, hcall]
    simp only [Reply.angularZ]
    rw [show (standingCall place yaw).pose.frameId = (standing place yaw).frameId from rfl, hz]
    rfl

/-! ## A robot that is not aligned -/

section

variable {F : Type} [Field F] [LinearOrder F] [IsStrictOrderedRing F] [FloorRing F]

theorem fabs_le_stop_iff {angleDiff : F} :
    fabs angleDiff ≤ stopTurnThresh ↔ |angleDiff| ≤ 0.05 := by
  rw [fabs_eq_abs, stopTurnThresh, ratio_eq]
  norm_num

theorem start_le_fabs_iff {angleDiff : F} :
    startTurnThresh ≤ fabs angleDiff ↔ 0.15 ≤ |angleDiff| := by
  rw [fabs_eq_abs, startTurnThresh, ratio_eq]
  norm_num

end

theorem rotates_of_off {atGoal isRotating : Bool} {angleDiff : ℝ} (hoff : 0.05 < |angleDiff|)
    (h : atGoal = true ∨ isRotating = true ∨ 0.15 ≤ |angleDiff|) :
    rotates atGoal isRotating angleDiff = true := by
  have hstop : ¬ fabs angleDiff ≤ stopTurnThresh := fun hle =>
    not_le.mpr hoff (fabs_le_stop_iff.mp hle)
  rw [rotates]
  by_cases hgoal : atGoal = true
  · rw [if_pos hgoal]
  · rw [if_neg hgoal]
    by_cases hrotating : isRotating = true
    · rw [if_pos hrotating, decide_eq_false hstop]
      rfl
    · have hstart := (h.resolve_left hgoal).resolve_left hrotating
      rw [if_neg hrotating, decide_eq_true (start_le_fabs_iff.mpr hstart)]

/-- A profile whose least speed is between 0.08 and 0.7 stays between them. -/
theorem rotationSpeed_bounds {minAngularSpeed maxAngularSpeed : ℝ} (hlow : 0.08 ≤ minAngularSpeed)
    (hhigh : minAngularSpeed ≤ 0.7) (hmax : 0.2 ≤ maxAngularSpeed)
    (slowdownRange angleDiff : ℝ) :
    0.08 ≤ rotationSpeed minAngularSpeed slowdownRange maxAngularSpeed angleDiff ∧
      rotationSpeed minAngularSpeed slowdownRange maxAngularSpeed angleDiff ≤ 0.7 := by
  have hmem := rotationSpeed_mem minAngularSpeed slowdownRange maxAngularSpeed angleDiff
  have hfull : (ratio 70 100 : ℝ) = 0.7 := by
    rw [ratio_eq]
    norm_num
  rw [hfull] at hmem
  constructor
  · refine le_trans ?_ hmem.1
    apply le_min hlow
    apply le_min
    · linarith
    · norm_num
  · refine hmem.2.trans ?_
    apply max_le hhigh
    exact min_le_right _ _

/-- Both kinds of rotation turn at 0.08 to 0.7 while the robot is not aligned. -/
theorem rotation_of_off (atGoal : Bool) {maxAngularSpeed angleDiff : ℝ}
    (hmax : 0.2 ≤ maxAngularSpeed) (hoff : 0.05 < |angleDiff|) :
    ∃ speed, 0.08 ≤ speed ∧ speed ≤ 0.7 ∧
      rotation atGoal maxAngularSpeed angleDiff = angularZ angleDiff speed := by
  have hstop : ¬ fabs angleDiff ≤ stopTurnThresh := fun hle =>
    not_le.mpr hoff (fabs_le_stop_iff.mp hle)
  cases atGoal with
  | true =>
    have hspeed : 0.08 ≤ finalRotationSpeed maxAngularSpeed angleDiff ∧
        finalRotationSpeed maxAngularSpeed angleDiff ≤ 0.7 := by
      apply rotationSpeed_bounds _ _ hmax
      · rw [ratio_eq]
        norm_num
      · rw [ratio_eq]
        norm_num
    refine ⟨_, hspeed.1, hspeed.2, ?_⟩
    rw [rotation, if_pos rfl, if_neg hstop]
  | false =>
    have hspeed : 0.08 ≤ enRouteRotationSpeed maxAngularSpeed angleDiff ∧
        enRouteRotationSpeed maxAngularSpeed angleDiff ≤ 0.7 := by
      apply rotationSpeed_bounds _ _ hmax
      · rw [ratio_eq]
        norm_num
      · rw [ratio_eq]
        norm_num
    refine ⟨_, hspeed.1, hspeed.2, ?_⟩
    rw [rotation, if_neg Bool.false_ne_true]

/-- The robot rotates and is not aligned. -/
structure Astray (m : Maths ℝ) (place target final : PoseStamped ℝ) (s : Controller ℝ × ℝ) :
    Prop where
  aims : Aims m place s.1 target final
  max_ge : 0.2 ≤ s.1.maxAngularSpeed
  off : 0.05 < |headingError m place target final s.2|
  rotating : atXyGoal m final place ∨ s.1.isRotating = true ∨
    0.15 ≤ |headingError m place target final s.2|

theorem Astray.period (hm : Sound getYaw toFloat) {place target final : PoseStamped ℝ}
    {s : Controller ℝ × ℝ} (h : Astray (realMaths getYaw toFloat) place target final s) :
    Astray (realMaths getYaw toFloat) place target final
      (period (realMaths getYaw toFloat) place s) := by
  obtain ⟨c, yaw⟩ := s
  obtain ⟨-, c', haims, hmax, hrotating, hperiod⟩ := call_standing h.aims yaw
  have hrot : c'.isRotating = true := by
    rw [hrotating]
    apply rotates_of_off h.off
    exact h.rotating.imp_left decide_eq_true
  obtain ⟨speed, hlow, hhigh, hz⟩ :=
    rotation_of_off (decide (atXyGoal (realMaths getYaw toFloat) final place)) h.max_ge h.off
  rw [hperiod, if_pos hrot, hz]
  refine ⟨haims, ?_, ?_, .inr (.inl hrot)⟩
  · show 0.2 ≤ c'.maxAngularSpeed
    rw [hmax]
    exact h.max_ge
  · exact turned_away hm place (targetAngle_le hm place target final) hlow hhigh h.off

theorem Astray.iterate (hm : Sound getYaw toFloat) {place target final : PoseStamped ℝ}
    {s : Controller ℝ × ℝ} (h : Astray (realMaths getYaw toFloat) place target final s) (k : ℕ) :
    Astray (realMaths getYaw toFloat) place target final
      ((CustomController.period (realMaths getYaw toFloat) place)^[k] s) := by
  induction k with
  | zero => exact h
  | succ k ih =>
    rw [Function.iterate_succ_apply']
    exact ih.period hm

theorem Astray.off_always (hm : Sound getYaw toFloat) {place target final : PoseStamped ℝ}
    {s : Controller ℝ × ℝ} (h : Astray (realMaths getYaw toFloat) place target final s) (k : ℕ) :
    0.05 < |angleDiffs (realMaths getYaw toFloat) place s k| := by
  have hk := h.iterate hm k
  rw [angleDiffs, (call_standing hk.aims _).1]
  exact hk.off

/-! ## A robot that is aligned at the goal -/

/-- The robot stands in the goal area and is aligned. -/
structure Rests (m : Maths ℝ) (place target final : PoseStamped ℝ) (s : Controller ℝ × ℝ) :
    Prop where
  aims : Aims m place s.1 target final
  atGoal : atXyGoal m final place
  aligned : |headingError m place target final s.2| ≤ 0.05

theorem Rests.period {m : Maths ℝ} {place target final : PoseStamped ℝ} {s : Controller ℝ × ℝ}
    (h : Rests m place target final s) :
    Rests m place target final (period m place s) ∧
      (CustomController.period m place s).2 = s.2 := by
  obtain ⟨c, yaw⟩ := s
  obtain ⟨-, c', haims, -, -, hperiod⟩ := call_standing h.aims yaw
  have hstop : fabs (headingError m place target final yaw) ≤ stopTurnThresh :=
    fabs_le_stop_iff.mpr h.aligned
  have hz : rotation (decide (atXyGoal m final place)) c.maxAngularSpeed
      (headingError m place target final yaw) = lit 0 := by
    rw [rotation, if_pos (decide_eq_true h.atGoal), if_pos hstop]
  have hstill : CustomController.period m place (c, yaw) = (c', yaw) := by
    rw [hperiod, hz, ite_self, lit_eq, Int.cast_zero, mul_zero, add_zero]
  rw [hstill]
  exact ⟨⟨haims, h.atGoal, h.aligned⟩, rfl⟩

theorem Rests.angleDiffs_eq {m : Maths ℝ} {place target final : PoseStamped ℝ}
    {s : Controller ℝ × ℝ} (h : Rests m place target final s) (k : ℕ) :
    angleDiffs m place s k = headingError m place target final s.2 := by
  have hrun : Rests m place target final ((CustomController.period m place)^[k] s) ∧
      ((CustomController.period m place)^[k] s).2 = s.2 := by
    induction k with
    | zero => exact ⟨h, rfl⟩
    | succ k ih =>
      rw [Function.iterate_succ_apply']
      exact ⟨ih.1.period.1, ih.1.period.2.trans ih.2⟩
  rw [angleDiffs, (call_standing hrun.1.aims _).1, hrun.2]

/-- In rotate mode the robot is aligned in the end, without `|angle_diff|` ever
growing, exactly when it stands in the goal area and is aligned already. -/
theorem aligns_iff_aligned_at_goal (hm : Sound getYaw toFloat) (c : Controller ℝ)
    (place final : PoseStamped ℝ) (yaw : ℝ) (hfinal : c.globalPlan.poses.getLast? = some final)
    (hmax : 0.2 ≤ c.maxAngularSpeed)
    (hrotate : atXyGoal (realMaths getYaw toFloat) final place ∨
      0.15 ≤ |angleDiffAt (realMaths getYaw toFloat) place (c, yaw)|) :
    ((∀ k, |angleDiffs (realMaths getYaw toFloat) place (c, yaw) (k + 1)| ≤
          |angleDiffs (realMaths getYaw toFloat) place (c, yaw) k|) ∧
        ∃ k, |angleDiffs (realMaths getYaw toFloat) place (c, yaw) k| ≤ 0.05) ↔
      atXyGoal (realMaths getYaw toFloat) final place ∧
        |calculateAngleDifference (realMaths getYaw toFloat) (standing place yaw)
          (getYaw final.orientation)| ≤ 0.05 := by
  obtain ⟨target, haims⟩ := exists_aims (realMaths getYaw toFloat) place hfinal
  have hfirst := (call_standing haims yaw).1
  have hgoalAngle : atXyGoal (realMaths getYaw toFloat) final place →
      headingError (realMaths getYaw toFloat) place target final yaw =
        calculateAngleDifference (realMaths getYaw toFloat) (standing place yaw)
          (getYaw final.orientation) := by
    intro hgoal
    rw [headingError, targetAngle, if_pos hgoal]
    rfl
  constructor
  · intro ⟨_, k, hk⟩
    by_contra hnot
    have hoff : 0.05 < |headingError (realMaths getYaw toFloat) place target final yaw| := by
      by_contra hsmall
      rcases hrotate with hgoal | hstart
      · exact hnot ⟨hgoal, by rw [← hgoalAngle hgoal]; exact not_lt.mp hsmall⟩
      · rw [hfirst] at hstart
        norm_num at hstart hsmall
        linarith
    have hastray : Astray (realMaths getYaw toFloat) place target final (c, yaw) := by
      refine ⟨haims, hmax, hoff, ?_⟩
      rw [hfirst] at hrotate
      exact hrotate.imp_right .inr
    exact absurd hk (not_le.mpr (hastray.off_always hm k))
  · intro ⟨hgoal, haligned⟩
    rw [← hgoalAngle hgoal] at haligned
    have hrests : Rests (realMaths getYaw toFloat) place target final (c, yaw) :=
      ⟨haims, hgoal, haligned⟩
    refine ⟨fun k => ?_, 0, ?_⟩
    · rw [hrests.angleDiffs_eq, hrests.angleDiffs_eq]
    · rw [hrests.angleDiffs_eq]
      exact haligned

/-! ## A robot that turns away -/

/-- A controller whose plan is the origin, facing along the x axis. -/
def spinning : Controller ℝ := ⟨⟨"map", [onAxis 0]⟩, 0.625, 0.1, 0.8, false⟩

theorem onAxis_atXyGoal (x : ℝ) :
    atXyGoal (realMaths planarYaw id) (onAxis x) (onAxis x) := by
  rw [atXyGoal, distance_onAxis, sub_self, abs_zero, ratio_eq]
  norm_num

theorem aligns_iff_aligned_at_goal_spinning :
    ((∀ k, |angleDiffs (realMaths planarYaw id) (onAxis 0) (spinning, 1) (k + 1)| ≤
          |angleDiffs (realMaths planarYaw id) (onAxis 0) (spinning, 1) k|) ∧
        ∃ k, |angleDiffs (realMaths planarYaw id) (onAxis 0) (spinning, 1) k| ≤ 0.05) ↔
      atXyGoal (realMaths planarYaw id) (onAxis 0) (onAxis 0) ∧
        |calculateAngleDifference (realMaths planarYaw id) (standing (onAxis 0) 1)
          (planarYaw (onAxis 0).orientation)| ≤ 0.05 :=
  aligns_iff_aligned_at_goal planarYaw_sound spinning (onAxis 0) (onAxis 0) 1 rfl
    (by norm_num [spinning]) (.inl (onAxis_atXyGoal 0))

theorem spinning_aims :
    Aims (realMaths planarYaw id) (onAxis 0) spinning (onAxis 0) (onAxis 0) := by
  obtain ⟨target, n, t, hn, ht, hget, hfinal⟩ :=
    exists_aims (realMaths planarYaw id) (onAxis 0) (c := spinning) rfl
  have hmem : target ∈ [onAxis 0] := List.mem_of_getElem? hget
  rw [List.mem_singleton.mp hmem] at hget
  exact ⟨n, t, hn, ht, hget, hfinal⟩

theorem planarYaw_yawQuaternion {yaw : ℝ} (hpos : 0 < yaw) (hlt : yaw < 3) :
    planarYaw (yawQuaternion yaw) = yaw := by
  have hpi := pi_gt_three
  rw [planarYaw_turn]
  push_cast
  apply Complex.arg_cos_add_sin_mul_I
  exact ⟨by linarith, by linarith⟩

theorem spinning_headingError {yaw : ℝ} (hpos : 0 < yaw) (hlt : yaw < 3) :
    headingError (realMaths planarYaw id) (onAxis 0) (onAxis 0) (onAxis 0) yaw = -yaw := by
  have hpi := pi_gt_three
  have hyaw := planarYaw_yawQuaternion hpos hlt
  have hfinal : planarYaw (onAxis 0).orientation = 0 := by
    show Complex.arg ⟨_, _⟩ = 0
    norm_num [onAxis, Complex.arg_eq_zero_iff]
  have hdiff : headingError (realMaths planarYaw id) (onAxis 0) (onAxis 0) (onAxis 0) yaw =
      if 0 - yaw < -π then 0 - yaw + lit 2 * π
      else if π < 0 - yaw then 0 - yaw - lit 2 * π
      else 0 - yaw := by
    rw [headingError, targetAngle, if_pos (onAxis_atXyGoal 0)]
    simp only [calculateAngleDifference, realMaths, standing, hfinal, hyaw, id]
  rw [hdiff, if_neg (by linarith), if_neg (by linarith), zero_sub]

/-- At the goal and turned by 1 the robot is commanded to turn further away, and
no call ever finds it aligned. -/
theorem spinning_turns_away :
    atXyGoal (realMaths planarYaw id) (onAxis 0) (onAxis 0) ∧
      0.2 ≤ spinning.maxAngularSpeed ∧
      angleDiffs (realMaths planarYaw id) (onAxis 0) (spinning, 1) 0 = -1 ∧
      angleDiffs (realMaths planarYaw id) (onAxis 0) (spinning, 1) 1 = -1.0625 ∧
      ∀ k, 0.05 < |angleDiffs (realMaths planarYaw id) (onAxis 0) (spinning, 1) k| := by
  have herror := spinning_headingError one_pos (by norm_num)
  have hmax : (0.2 : ℝ) ≤ spinning.maxAngularSpeed := by norm_num [spinning]
  have hastray : Astray (realMaths planarYaw id) (onAxis 0) (onAxis 0) (onAxis 0)
      (spinning, 1) := by
    refine ⟨spinning_aims, hmax, ?_, .inl (onAxis_atXyGoal 0)⟩
    rw [herror]
    norm_num
  obtain ⟨hfirst, c', haims, -, hrotating, hperiod⟩ := call_standing spinning_aims 1
  have hrot : c'.isRotating = true := by
    rw [hrotating, decide_eq_true (onAxis_atXyGoal 0)]
    rfl
  have hz : rotation true spinning.maxAngularSpeed (-1) = 0.625 := by
    have hstop : ¬ fabs (-1 : ℝ) ≤ stopTurnThresh := by
      rw [fabs_le_stop_iff]
      norm_num
    have hslow : ¬ fabs (-1 : ℝ) < ratio 25 100 := by
      rw [fabs_eq_abs, ratio_eq]
      norm_num
    rw [rotation, if_pos rfl, if_neg hstop, angularZ, finalRotationSpeed, rotationSpeed,
      if_neg hslow, ratio_eq, lit_eq]
    norm_num [spinning]
  have hsecond : period (realMaths planarYaw id) (onAxis 0) (spinning, 1) = (c', 1.0625) := by
    rw [hperiod, if_pos hrot, decide_eq_true (onAxis_atXyGoal 0), herror, hz]
    norm_num
  refine ⟨onAxis_atXyGoal 0, hmax, ?_, ?_, hastray.off_always planarYaw_sound⟩
  · rw [angleDiffs, Function.iterate_zero_apply, hfirst, herror]
  · rw [angleDiffs, Function.iterate_one, hsecond, (call_standing haims _).1]
    exact spinning_headingError (by norm_num) (by norm_num)

end

end CustomController
end RobotNav
