/-
The velocity controller `nav2_custom_controller`.

Each call prunes the plan to the pose nearest to the robot, picks a target a
lookahead further on, and either turns on the spot or drives straight, with a
hysteresis flag between the two.  Within 0.12 of the final pose the target is
the final orientation.

The functions of libm and tf2 are parameters, `Maths`, and so is what the
transform buffer answers, which is part of a call.  Every access to the plan is
a lookup that may fail, so that an index out of range would show.  Indices are
`int` in the source: plans have fewer than 2^31 poses.
-/
import RobotNav.Messages
import RobotNav.Library.Loop
import RobotNav.Library.Machine
import Mathlib.Algebra.Order.Archimedean.Real.Basic
import Mathlib.Analysis.SpecialFunctions.Complex.Arg

namespace RobotNav
namespace CustomController

/-- `std::hypot`, `std::atan2`, `tf2::getYaw`, the conversion of a `double` to a
`float`, and `M_PI`. -/
structure Maths (K : Type) where
  hypot : K → K → K
  atan2 : K → K → K
  getYaw : Quaternion K → K
  toFloat : K → K
  pi : K

/-- The members the commands depend on. -/
structure Controller (K : Type) where
  globalPlan : Path K
  maxAngularSpeed : K
  maxLinearSpeed : K
  lookaheadDist : K
  isRotating : Bool

/-- The pose a call is given, and what `transformPoseInTargetFrame` makes of it
in the plan's frame. -/
structure Call (K : Type) where
  pose : PoseStamped K
  inPlanFrame : Option (PoseStamped K)

/-- `geometry_msgs::msg::TwistStamped`: the fields the controller sets, the stamp
apart.  The others are zero. -/
structure TwistStamped (K : Type) where
  frameId : String
  linearX : K
  angularZ : K
  deriving DecidableEq

/-- A command and the log line that goes with it. -/
structure Sent (K : Type) where
  cmdVel : TwistStamped K
  status : String
  angleDiff : K
  deriving DecidableEq

inductive Fault where
  /-- `nav2_core::PlannerException`. -/
  | plannerException (what : String)
  /-- An access outside the plan: undefined behaviour of the source. -/
  | outOfRange
  deriving DecidableEq

variable {K : Type} [Arith K]

/-! ## The plan -/

def distance (m : Maths K) (p q : PoseStamped K) : K := m.hypot (p.x - q.x) (p.y - q.y)

/-- One pass of the scan for the nearest pose; the state is `nearest_idx` and
`min_dist`. -/
def nearestPass (m : Maths K) (poses : List (PoseStamped K)) (cur : PoseStamped K) (i : ℕ)
    (best : ℕ × K) : Option (ForInStep (ℕ × K)) := do
  let p ← poses[i]?
  let dist := distance m p cur
  return .yield (if dist < best.2 then (i, dist) else best)

def nearestIdx (m : Maths K) (poses : List (PoseStamped K)) (cur : PoseStamped K) : Option ℕ := do
  let best ← loop (nearestPass m poses cur) 0 poses.length (0, lit 1000000000)
  return best.1

/-- One pass of the lookahead; the state is `target_idx` and `accum_dist`. -/
def lookaheadPass (m : Maths K) (lookaheadDist : K) (poses : List (PoseStamped K)) (i : ℕ)
    (s : ℕ × K) : Option (ForInStep (ℕ × K)) := do
  let next ← poses[i + 1]?
  let p ← poses[i]?
  let accumDist := s.2 + distance m next p
  return if lookaheadDist ≤ accumDist then .done (i + 1, accumDist) else .yield (s.1, accumDist)

def targetIdx (m : Maths K) (lookaheadDist : K) (poses : List (PoseStamped K)) (nearest : ℕ) :
    Option ℕ := do
  let s ← loop (lookaheadPass m lookaheadDist poses) nearest (poses.length - 1 - nearest)
    (nearest, lit 0)
  return if s.1 = nearest then poses.length - 1 else s.1

/-- `getNearestTargetPose`: the target, and the plan without the poses before
the nearest one. -/
def getNearestTargetPose (m : Maths K) (lookaheadDist : K) (poses : List (PoseStamped K))
    (cur : PoseStamped K) : Option (PoseStamped K × List (PoseStamped K)) := do
  if poses.length < 2 then
    let back ← poses.getLast?
    return (back, poses)
  let nearest ← nearestIdx m poses cur
  let target ← targetIdx m lookaheadDist poses nearest
  -- the range erased and the index left over are checked as the other accesses are
  guard (nearest ≤ poses.length ∧ nearest ≤ target)
  let pruned := poses.drop nearest
  let pose ← pruned[target - nearest]?
  return (pose, pruned)

/-! ## The command -/

def startTurnThresh : K := ratio 15 100

def stopTurnThresh : K := ratio 5 100

/-- `calculateAngleDifference`, the overload for an angle: one turn is added or
taken off at most. -/
def calculateAngleDifference (m : Maths K) (cur : PoseStamped K) (targetAngle : K) : K :=
  let currentRobotYaw := m.toFloat (m.getYaw cur.orientation)
  let angleDiff := targetAngle - currentRobotYaw
  if angleDiff < -m.pi then angleDiff + lit 2 * m.pi
  else if m.pi < angleDiff then angleDiff - lit 2 * m.pi
  else angleDiff

def atXyGoal (m : Maths K) (final cur : PoseStamped K) : Prop :=
  distance m final cur ≤ ratio 12 100

instance (m : Maths K) (final cur : PoseStamped K) : Decidable (atXyGoal m final cur) :=
  inferInstanceAs (Decidable (_ ≤ _))

def targetAngle (m : Maths K) (final target cur : PoseStamped K) : K :=
  if atXyGoal m final cur then m.getYaw final.orientation
  else m.atan2 (target.y - cur.y) (target.x - cur.x)

/-- The hysteresis of `is_rotating_`. -/
def rotates (atGoal isRotating : Bool) (angleDiff : K) : Bool :=
  if atGoal then true
  else if isRotating then !decide (fabs angleDiff ≤ stopTurnThresh)
  else decide (startTurnThresh ≤ fabs angleDiff)

/-- The speed profile both kinds of rotation use: full speed outside the
slowdown range, and inside it between the least speed and the full one. -/
def rotationSpeed (minAngularSpeed slowdownRange maxAngularSpeed angleDiff : K) : K :=
  let currentMaxSpeed := min maxAngularSpeed (ratio 70 100)
  let currentAbsError := fabs angleDiff
  if currentAbsError < slowdownRange then
    let quotient := (currentAbsError - stopTurnThresh) / (slowdownRange - stopTurnThresh)
    let clamped := max (lit 0) (min (lit 1) quotient)
    minAngularSpeed + clamped * (currentMaxSpeed - minAngularSpeed)
  else currentMaxSpeed

def finalRotationSpeed (maxAngularSpeed angleDiff : K) : K :=
  rotationSpeed (ratio 20 100) (ratio 25 100) maxAngularSpeed angleDiff

def enRouteRotationSpeed (maxAngularSpeed angleDiff : K) : K :=
  rotationSpeed (ratio 8 100) (ratio 60 100) maxAngularSpeed angleDiff

/-- A positive difference gives a negative `angular.z`. -/
def angularZ (angleDiff targetAngularSpeed : K) : K :=
  if lit 0 < angleDiff then -targetAngularSpeed else targetAngularSpeed

def rotation (atGoal : Bool) (maxAngularSpeed angleDiff : K) : K :=
  if atGoal then
    if fabs angleDiff ≤ stopTurnThresh then lit 0
    else angularZ angleDiff (finalRotationSpeed maxAngularSpeed angleDiff)
  else angularZ angleDiff (enRouteRotationSpeed maxAngularSpeed angleDiff)

/-- `computeVelocityCommands` from the target on. -/
def steer (m : Maths K) (c : Controller K) (frameId : String) (cur target final : PoseStamped K) :
    Controller K × Sent K :=
  let atGoal := decide (atXyGoal m final cur)
  let angleDiff := calculateAngleDifference m cur (targetAngle m final target cur)
  let isRotating := rotates atGoal c.isRotating angleDiff
  let cmdVel : TwistStamped K :=
    if isRotating then ⟨frameId, lit 0, rotation atGoal c.maxAngularSpeed angleDiff⟩
    else ⟨frameId, c.maxLinearSpeed, lit 0⟩
  let status := if atGoal then "终点对准" else if isRotating then "旋转" else "直行"
  ({ c with isRotating := isRotating }, ⟨cmdVel, status, angleDiff⟩)

theorem steer_angularZ (m : Maths K) (c : Controller K) (frameId : String)
    (cur target final : PoseStamped K) :
    (steer m c frameId cur target final).2.cmdVel.angularZ =
      if (steer m c frameId cur target final).1.isRotating then
        rotation (decide (atXyGoal m final cur)) c.maxAngularSpeed
          (calculateAngleDifference m cur (targetAngle m final target cur))
      else lit 0 := by
  cases hrot : rotates (decide (atXyGoal m final cur)) c.isRotating
      (calculateAngleDifference m cur (targetAngle m final target cur)) with
  | false => simp [steer, hrot]
  | true => simp [steer, hrot]

/-- What a call returns or throws. -/
abbrev Reply (K : Type) := Except Fault (Sent K)

def computeVelocityCommands (m : Maths K) (c : Controller K) (call : Call K) :
    Controller K × Reply K :=
  if c.globalPlan.poses.isEmpty then (c, .error (.plannerException "路径为空"))
  else match call.inPlanFrame with
  | none => (c, .error (.plannerException "TF转换失败"))
  | some cur =>
    match getNearestTargetPose m c.lookaheadDist c.globalPlan.poses cur with
    | none => (c, .error .outOfRange)
    | some (target, pruned) =>
      let c := { c with globalPlan := { c.globalPlan with poses := pruned } }
      match pruned.getLast? with
      | none => (c, .error .outOfRange)
      | some final =>
        let (c, sent) := steer m c call.pose.frameId cur target final
        (c, .ok sent)

/-! ## The plugin -/

/-- `configure`: the parameters of the plugin, where none is given its default. -/
def configure (pluginName : String) (param : String → Option K) (c : Controller K) :
    Controller K :=
  { c with
    maxLinearSpeed := (param (pluginName ++ ".max_linear_speed")).getD (ratio 1 10)
    maxAngularSpeed := (param (pluginName ++ ".max_angular_speed")).getD (ratio 7 10)
    lookaheadDist := (param (pluginName ++ ".lookahead_dist")).getD (ratio 8 10) }

def activate (c : Controller K) : Controller K := { c with isRotating := false }

def setPlan (path : Path K) (c : Controller K) : Controller K := { c with globalPlan := path }

inductive Event (K : Type) where
  | configure (pluginName : String) (param : String → Option K)
  | activate
  | deactivate
  | cleanup
  | setPlan (path : Path K)
  | setSpeedLimit (speedLimit : K) (percentage : Bool)
  | computeVelocityCommands (call : Call K)

/-- Only a call of `computeVelocityCommands` has a reply. -/
def step (m : Maths K) (c : Controller K) : Event K → Controller K × Option (Reply K)
  | .configure pluginName param => (configure pluginName param c, none)
  | .activate => (activate c, none)
  | .setPlan path => (setPlan path c, none)
  | .deactivate => (c, none)
  | .cleanup => (c, none)
  | .setSpeedLimit _ _ => (c, none)
  | .computeVelocityCommands call =>
    let (c, reply) := computeVelocityCommands m c call
    (c, some reply)

/-- The plugin, from a controller that has been configured with the defaults. -/
def plugin (m : Maths K) : Machine (Controller K) (Event K) (Option (Reply K)) where
  init := ⟨⟨"", []⟩, ratio 7 10, ratio 1 10, ratio 8 10, false⟩
  step := step m

/-! ## The speed profiles -/

section

variable {F : Type} [Field F] [LinearOrder F] [IsStrictOrderedRing F] [FloorRing F]

/-- A profile gives a speed between its least speed and the full one, whichever
of the two is greater. -/
theorem rotationSpeed_mem (minAngularSpeed slowdownRange maxAngularSpeed angleDiff : F) :
    min minAngularSpeed (min maxAngularSpeed (ratio 70 100)) ≤
        rotationSpeed minAngularSpeed slowdownRange maxAngularSpeed angleDiff ∧
      rotationSpeed minAngularSpeed slowdownRange maxAngularSpeed angleDiff ≤
        max minAngularSpeed (min maxAngularSpeed (ratio 70 100)) := by
  -- a convex combination of the two
  have hconvex : ∀ a b r : F, 0 ≤ r → r ≤ 1 →
      min a b ≤ a + r * (b - a) ∧ a + r * (b - a) ≤ max a b := by
    intro a b r hr0 hr1
    rcases le_total a b with hab | hba
    · rw [min_eq_left hab, max_eq_right hab]
      constructor <;> nlinarith
    · rw [min_eq_right hba, max_eq_left hba]
      constructor <;> nlinarith
  simp only [rotationSpeed]
  split
  · apply hconvex
    · rw [lit_eq, Int.cast_zero]
      exact le_max_left _ _
    · rw [lit_eq, lit_eq, Int.cast_zero, Int.cast_one]
      exact max_le zero_le_one (min_le_left _ _)
  · exact ⟨min_le_right _ _, le_max_right _ _⟩

end

/-! ## Exact arithmetic -/

/-- libm in exact arithmetic; what tf2 and the `float` do is still a parameter. -/
noncomputable def realMaths (getYaw : Quaternion ℝ → ℝ) (toFloat : ℝ → ℝ) : Maths ℝ where
  hypot := fun x y => Real.sqrt (x ^ 2 + y ^ 2)
  atan2 := fun y x => Complex.arg ⟨x, y⟩
  getYaw := getYaw
  toFloat := toFloat
  pi := Real.pi

/-- The yaw of a quaternion that is not close to a vertical pitch. -/
noncomputable def planarYaw (q : Quaternion ℝ) : ℝ :=
  Complex.arg ⟨q.w ^ 2 + q.x ^ 2 - q.y ^ 2 - q.z ^ 2, lit 2 * (q.x * q.y + q.w * q.z)⟩

end CustomController
end RobotNav
