/-
The command of a call: a stop, a turn on the spot, or a drive straight on.

The flag `is_rotating_` outlives plans, goals and calls.  What a call does with it
is `rotates`, and what is sent follows from the flag the call leaves, from whether
the robot is in the goal area, and from the difference of the angles.
-/
import RobotNav.CustomController.ClosedLoop

namespace RobotNav
namespace CustomController

theorem steer_linearX {K : Type} [Arith K] (m : Maths K) (c : Controller K) (frameId : String)
    (cur target final : PoseStamped K) :
    (steer m c frameId cur target final).2.cmdVel.linearX =
      if (steer m c frameId cur target final).1.isRotating then lit 0 else c.maxLinearSpeed := by
  cases hrot : rotates (decide (atXyGoal m final cur)) c.isRotating
      (calculateAngleDifference m cur (targetAngle m final target cur)) with
  | false => simp [steer, hrot]
  | true => simp [steer, hrot]

theorem out_call {K : Type} [Arith K] (m : Maths K) (c : Controller K) (call : Call K) :
    (plugin m).out c (.computeVelocityCommands call) =
      some (computeVelocityCommands m c call).2 := rfl

theorem next_call {K : Type} [Arith K] (m : Maths K) (c : Controller K) (call : Call K) :
    (plugin m).next c (.computeVelocityCommands call) =
      (computeVelocityCommands m c call).1 := rfl

/-- Without a plan or a transform a call throws and changes nothing. -/
theorem computeVelocityCommands_throws {K : Type} [Arith K] (m : Maths K) {c : Controller K}
    {call : Call K} (h : c.globalPlan.poses = [] ∨ call.inPlanFrame = none) :
    ∃ what, computeVelocityCommands m c call = (c, .error (.plannerException what)) := by
  by_cases hplan : c.globalPlan.poses = []
  · exact ⟨"路径为空", by simp [computeVelocityCommands, hplan]⟩
  · have hempty : c.globalPlan.poses.isEmpty = false := by simpa using hplan
    exact ⟨"TF转换失败", by simp [computeVelocityCommands, hempty, h.resolve_left hplan]⟩

theorem plan_of_reply {K : Type} [Arith K] {m : Maths K} {c : Controller K} {call : Call K}
    {sent : Sent K} (h : (computeVelocityCommands m c call).2 = .ok sent) :
    c.globalPlan.poses ≠ [] ∧ ∃ cur, call.inPlanFrame = some cur := by
  have hnot : ¬ (c.globalPlan.poses = [] ∨ call.inPlanFrame = none) := by
    intro hfail
    obtain ⟨what, hthrow⟩ := computeVelocityCommands_throws m hfail
    rw [hthrow] at h
    cases h
  exact ⟨fun hnil => hnot (.inl hnil), Option.ne_none_iff_exists'.mp fun hnone => hnot (.inr hnone)⟩

/-! ## The speeds of a turn -/

section

variable {F : Type} [Field F] [LinearOrder F] [IsStrictOrderedRing F] [FloorRing F]

omit [IsStrictOrderedRing F] in
theorem atXyGoal_iff {m : Maths F} {final cur : PoseStamped F} :
    atXyGoal m final cur ↔ distance m final cur ≤ 0.12 := by
  rw [atXyGoal, ratio_eq]
  norm_num

theorem rotationSpeed_pos {minAngularSpeed maxAngularSpeed : F} (hmin : 0 < minAngularSpeed)
    (hmax : 0 < maxAngularSpeed) (slowdownRange angleDiff : F) :
    0 < rotationSpeed minAngularSpeed slowdownRange maxAngularSpeed angleDiff := by
  have hmem := rotationSpeed_mem minAngularSpeed slowdownRange maxAngularSpeed angleDiff
  have hfull : (0 : F) < ratio 70 100 := by
    rw [ratio_eq]
    norm_num
  exact lt_of_lt_of_le (lt_min hmin (lt_min hmax hfull)) hmem.1

theorem abs_angularZ {speed : F} (hspeed : 0 ≤ speed) (angleDiff : F) :
    |angularZ angleDiff speed| = speed := by
  rw [angularZ]
  split
  · rw [abs_neg, abs_of_nonneg hspeed]
  · exact abs_of_nonneg hspeed

/-- The least speed of the profile in use, and the range in which it slows down. -/
def minSpeedOf (atGoal : Bool) : F := if atGoal then ratio 20 100 else ratio 8 100

def slowdownRangeOf (atGoal : Bool) : F := if atGoal then ratio 25 100 else ratio 60 100

theorem minSpeedOf_pos (atGoal : Bool) : (0 : F) < minSpeedOf atGoal := by
  cases atGoal with
  | true =>
    rw [minSpeedOf, if_pos rfl, ratio_eq]
    norm_num
  | false =>
    rw [minSpeedOf, if_neg Bool.false_ne_true, ratio_eq]
    norm_num

/-- The turn commanded, but for a robot aligned in the goal area. -/
theorem rotation_eq {atGoal : Bool} {angleDiff : F} (h : atGoal = true → 0.05 < |angleDiff|)
    (maxAngularSpeed : F) :
    rotation atGoal maxAngularSpeed angleDiff = angularZ angleDiff
      (rotationSpeed (minSpeedOf atGoal) (slowdownRangeOf atGoal) maxAngularSpeed angleDiff) := by
  cases atGoal with
  | true =>
    have hoff : ¬ fabs angleDiff ≤ stopTurnThresh := fun hle =>
      not_le.mpr (h rfl) (fabs_le_stop_iff.mp hle)
    rw [rotation, if_pos rfl, if_neg hoff]
    rfl
  | false =>
    rw [rotation, if_neg Bool.false_ne_true]
    rfl

theorem rotation_stop {angleDiff : F} (h : |angleDiff| ≤ 0.05) (maxAngularSpeed : F) :
    rotation true maxAngularSpeed angleDiff = 0 := by
  rw [rotation, if_pos rfl, if_pos (fabs_le_stop_iff.mpr h), lit_eq, Int.cast_zero]

theorem rotation_ne_zero {atGoal : Bool} {angleDiff maxAngularSpeed : F}
    (h : atGoal = true → 0.05 < |angleDiff|) (hmax : 0 < maxAngularSpeed) :
    rotation atGoal maxAngularSpeed angleDiff ≠ 0 := by
  have hspeed := rotationSpeed_pos (minSpeedOf_pos atGoal) hmax (slowdownRangeOf atGoal) angleDiff
  rw [rotation_eq h]
  intro hzero
  have habs := abs_angularZ (le_of_lt hspeed) angleDiff
  rw [hzero, abs_zero] at habs
  exact absurd habs (ne_of_lt hspeed)

/-! ## One call -/

/-- The `angle_diff` of a call at `cur` that picks `target` on a plan that ends in
`final`. -/
def angleDiffFor (m : Maths F) (cur target final : PoseStamped F) : F :=
  calculateAngleDifference m cur (targetAngle m final target cur)

/-- The flag a call leaves. -/
def rotatesFor (m : Maths F) (isRotating : Bool) (cur target final : PoseStamped F) : Bool :=
  rotates (decide (atXyGoal m final cur)) isRotating (angleDiffFor m cur target final)

omit [IsStrictOrderedRing F] in
/-- What a call sends, and the state it leaves. -/
theorem computeVelocityCommands_sent (m : Maths F) {c : Controller F}
    (hplan : c.globalPlan.poses ≠ []) {call : Call F} {cur : PoseStamped F}
    (hcur : call.inPlanFrame = some cur) :
    ∃ c' sent target pruned final,
      computeVelocityCommands m c call = (c', .ok sent) ∧
      getNearestTargetPose m c.lookaheadDist c.globalPlan.poses cur = some (target, pruned) ∧
      c.globalPlan.poses.getLast? = some final ∧
      c' =
        { c with
          globalPlan := { c.globalPlan with poses := pruned }
          isRotating := rotatesFor m c.isRotating cur target final } ∧
      sent.angleDiff = angleDiffFor m cur target final ∧
      sent.cmdVel.linearX =
        (if rotatesFor m c.isRotating cur target final then 0 else c.maxLinearSpeed) ∧
      sent.cmdVel.angularZ =
        (if rotatesFor m c.isRotating cur target final then
          rotation (decide (atXyGoal m final cur)) c.maxAngularSpeed
            (angleDiffFor m cur target final)
        else 0) := by
  obtain ⟨n, t, target, hn, ht, hget, hpruned⟩ :=
    getNearestTargetPose_spec m c.lookaheadDist hplan cur
  obtain ⟨n', t', target', final, hn', ht', hget', hfinal, hcall⟩ :=
    computeVelocityCommands_spec m hplan hcur
  obtain rfl : n' = n := hn'.unique hn
  obtain rfl : t' = t := ht'.unique ht
  obtain rfl : target' = target := Option.some.inj (hget'.symm.trans hget)
  have hzero : (lit 0 : F) = 0 := by rw [lit_eq, Int.cast_zero]
  let pruned : Controller F :=
    { c with globalPlan := { c.globalPlan with poses := c.globalPlan.poses.drop n' } }
  refine ⟨(steer m pruned call.pose.frameId cur target' final).1,
    (steer m pruned call.pose.frameId cur target' final).2, target', _, final, hcall, hpruned,
    hfinal, rfl, rfl, ?_, ?_⟩
  · rw [steer_linearX, hzero]
    rfl
  · rw [steer_angularZ, hzero]
    rfl

/-- What the flag of a call says about its difference. -/
theorem rotates_cases {atGoal isRotating : Bool} {angleDiff : F}
    (h : rotates atGoal isRotating angleDiff = false) :
    atGoal = false ∧ |angleDiff| < 0.15 ∧ (isRotating = true → |angleDiff| ≤ 0.05) := by
  have hthresh : (0.05 : F) < 0.15 := by norm_num
  cases atGoal with
  | true => simp [rotates] at h
  | false =>
    cases isRotating with
    | true =>
      have hle : |angleDiff| ≤ 0.05 := by
        rw [← fabs_le_stop_iff]
        simpa [rotates] using h
      exact ⟨rfl, lt_of_le_of_lt hle hthresh, fun _ => hle⟩
    | false =>
      have hlt : ¬ 0.15 ≤ |angleDiff| := by
        rw [← start_le_fabs_iff, not_le]
        simpa [rotates] using h
      exact ⟨rfl, not_le.mp hlt, fun hfalse => absurd hfalse Bool.false_ne_true⟩

/-! ## Runs -/

/-- The answer drives the robot on. -/
def DrivesOn (reply : Option (Reply F)) : Prop :=
  ∃ sent, reply = some (.ok sent) ∧ sent.cmdVel.linearX ≠ 0

/-- The answer turns the robot. -/
def TurnsRobot (reply : Option (Reply F)) : Prop :=
  ∃ sent, reply = some (.ok sent) ∧ sent.cmdVel.angularZ ≠ 0

/-- The answer found the robot aligned. -/
def FoundAligned (reply : Option (Reply F)) : Prop :=
  ∃ sent, reply = some (.ok sent) ∧ |sent.angleDiff| ≤ 0.05

omit [IsStrictOrderedRing F] in
/-- A call that turns the robot leaves it rotating. -/
theorem isRotating_of_turns {m : Maths F} {c : Controller F} {e : Event F}
    (h : TurnsRobot ((plugin m).out c e)) : ((plugin m).next c e).isRotating = true := by
  obtain ⟨sent, hreply, hturns⟩ := h
  cases e with
  | computeVelocityCommands call =>
    have hok : (computeVelocityCommands m c call).2 = .ok sent := Option.some.inj hreply
    obtain ⟨hplan, cur, hcur⟩ := plan_of_reply hok
    obtain ⟨c', sent', target, pruned, final, hcall, -, -, hc', -, -, hz⟩ :=
      computeVelocityCommands_sent m hplan hcur
    have hsent : sent' = sent := by
      rw [hcall] at hok
      exact Except.ok.inj hok
    subst hsent
    rw [next_call, hcall, hc']
    by_contra hnot
    rw [if_neg hnot] at hz
    exact hturns hz
  | _ => cases hreply

/-- Only an activation, or a call that finds the robot aligned, ends a rotation; and
until then no call drives on. -/
theorem isRotating_next {m : Maths F} {c : Controller F} (hrot : c.isRotating = true)
    {e : Event F} (hactivate : e ≠ .activate) (hoff : ¬ FoundAligned ((plugin m).out c e)) :
    ((plugin m).next c e).isRotating = true ∧ ¬ DrivesOn ((plugin m).out c e) := by
  cases e with
  | activate => exact absurd rfl hactivate
  | computeVelocityCommands call =>
    by_cases hfail : c.globalPlan.poses = [] ∨ call.inPlanFrame = none
    · obtain ⟨what, hthrow⟩ := computeVelocityCommands_throws m hfail
      constructor
      · rw [next_call, hthrow]
        exact hrot
      · rintro ⟨sent, hreply, -⟩
        have hok : (computeVelocityCommands m c call).2 = .ok sent := Option.some.inj hreply
        rw [hthrow] at hok
        cases hok
    · have hplan : c.globalPlan.poses ≠ [] := fun hnil => hfail (.inl hnil)
      obtain ⟨cur, hcur⟩ :=
        Option.ne_none_iff_exists'.mp fun hnone : call.inPlanFrame = none => hfail (.inr hnone)
      obtain ⟨c', sent, target, pruned, final, hcall, -, -, hc', hdiff, hx, -⟩ :=
        computeVelocityCommands_sent m hplan hcur
      have hout : (plugin m).out c (.computeVelocityCommands call) = some (.ok sent) := by
        rw [out_call, hcall]
      have hon : rotatesFor m c.isRotating cur target final = true := by
        by_contra hnot
        obtain ⟨-, -, haligned⟩ := rotates_cases (Bool.eq_false_iff.mpr hnot)
        apply hoff
        refine ⟨sent, hout, ?_⟩
        rw [hdiff]
        exact haligned hrot
      constructor
      · rw [next_call, hcall, hc']
        exact hon
      · rintro ⟨sent', hreply, hdrives⟩
        have hsent : sent' = sent := by
          rw [hout] at hreply
          exact (Except.ok.inj (Option.some.inj hreply)).symm
        rw [hsent, hx, if_pos hon] at hdrives
        exact hdrives rfl
  | _ =>
    refine ⟨hrot, fun hdrives => ?_⟩
    obtain ⟨sent, hreply, -⟩ := hdrives
    cases hreply

/-- Between a call that turns the robot and one that drives it on there is a call
that finds it aligned, the last one included, or an activation. -/
theorem aligned_before_driving {m : Maths F} {c : Controller F} {e f : Event F}
    {between : List (Event F)} (hturns : TurnsRobot ((plugin m).out c e))
    (hdrives : DrivesOn ((plugin m).out ((plugin m).run ((plugin m).next c e) between) f)) :
    ∃ before g rest, between ++ [f] = before ++ g :: rest ∧
      (g = .activate ∨
        FoundAligned ((plugin m).out ((plugin m).run ((plugin m).next c e) before) g)) := by
  by_contra hnone
  have halong : (plugin m).Along
      (fun s g => g ≠ .activate ∧ ¬ FoundAligned ((plugin m).out s g))
      ((plugin m).next c e) (between ++ [f]) := by
    rw [Machine.along_iff]
    intro before g rest hcut
    constructor
    · intro hactivate
      exact hnone ⟨before, g, rest, hcut, .inl hactivate⟩
    · intro haligned
      exact hnone ⟨before, g, rest, hcut, .inr haligned⟩
  rw [Machine.along_append] at halong
  have hrotating : ((plugin m).run ((plugin m).next c e) between).isRotating = true :=
    Machine.run_along (I := fun s : Controller F => s.isRotating = true)
      (fun s g hs hg => (isRotating_next hs hg.1 hg.2).1) (isRotating_of_turns hturns) halong.1
  have hlast := halong.2.1
  exact (isRotating_next hrotating hlast.1 hlast.2).2 hdrives

/-- A call with positive limits sends a stop, a turn on the spot or a drive straight
on, and it stops exactly when it is aligned in the goal area.  After a turn the
robot does not drive on before a call has found it aligned or the plugin has been
activated again. -/
theorem commands_and_turns (m : Maths F) :
    (∀ (c : Controller F) (call : Call F) (cur : PoseStamped F), 0 < c.maxLinearSpeed →
      0 < c.maxAngularSpeed → c.globalPlan.poses ≠ [] → call.inPlanFrame = some cur →
      ∃ c' sent target pruned final,
        computeVelocityCommands m c call = (c', .ok sent) ∧
        getNearestTargetPose m c.lookaheadDist c.globalPlan.poses cur = some (target, pruned) ∧
        c.globalPlan.poses.getLast? = some final ∧
        sent.angleDiff = angleDiffFor m cur target final ∧
        (sent.cmdVel.linearX = 0 ∧ sent.cmdVel.angularZ = 0 ∨
          sent.cmdVel.linearX = 0 ∧ sent.cmdVel.angularZ ≠ 0 ∨
          sent.cmdVel.linearX = c.maxLinearSpeed ∧ sent.cmdVel.angularZ = 0) ∧
        (sent.cmdVel.linearX = 0 ∧ sent.cmdVel.angularZ = 0 ↔
          distance m final cur ≤ 0.12 ∧ |sent.angleDiff| ≤ 0.05) ∧
        (sent.cmdVel.linearX ≠ 0 → 0.12 < distance m final cur ∧ |sent.angleDiff| < 0.15)) ∧
    (∀ (c : Controller F) (e f : Event F) (between : List (Event F)),
      TurnsRobot ((plugin m).out c e) →
      DrivesOn ((plugin m).out ((plugin m).run ((plugin m).next c e) between) f) →
      ∃ before g rest, between ++ [f] = before ++ g :: rest ∧
        (g = .activate ∨
          FoundAligned ((plugin m).out ((plugin m).run ((plugin m).next c e) before) g))) := by
  refine ⟨fun c call cur hlinear hangular hplan hcur => ?_,
    fun c e f between hturns hdrives => aligned_before_driving hturns hdrives⟩
  obtain ⟨c', sent, target, pruned, final, hcall, hpruned, hfinal, -, hdiff, hx, hz⟩ :=
    computeVelocityCommands_sent m hplan hcur
  refine ⟨c', sent, target, pruned, final, hcall, hpruned, hfinal, hdiff, ?_⟩
  rw [hdiff, hx, hz, ← atXyGoal_iff, ← not_le, ← atXyGoal_iff]
  cases hrot : rotatesFor m c.isRotating cur target final with
  | false =>
    -- straight on: not in the goal area, and close to the direction
    obtain ⟨hgoal, hlt, -⟩ := rotates_cases hrot
    have haway : ¬ atXyGoal m final cur := of_decide_eq_false hgoal
    refine ⟨.inr (.inr ⟨rfl, rfl⟩), ?_, fun _ => ⟨haway, hlt⟩⟩
    constructor
    · intro ⟨hzero, _⟩
      exact absurd hzero (ne_of_gt hlinear)
    · intro ⟨hgoal', _⟩
      exact absurd hgoal' haway
  | true =>
    by_cases hstop : atXyGoal m final cur ∧ |angleDiffFor m cur target final| ≤ 0.05
    · have hz0 : rotation (decide (atXyGoal m final cur)) c.maxAngularSpeed
          (angleDiffFor m cur target final) = 0 := by
        rw [decide_eq_true hstop.1]
        exact rotation_stop hstop.2 _
      exact ⟨.inl ⟨rfl, hz0⟩, ⟨fun _ => hstop, fun _ => ⟨rfl, hz0⟩⟩, fun hne => absurd rfl hne⟩
    · have hoff : decide (atXyGoal m final cur) = true →
          0.05 < |angleDiffFor m cur target final| := by
        intro hgoal
        exact not_le.mp fun hle => hstop ⟨of_decide_eq_true hgoal, hle⟩
      have hz0 := rotation_ne_zero hoff hangular
      refine ⟨.inr (.inl ⟨rfl, hz0⟩), ?_, fun hne => absurd rfl hne⟩
      exact ⟨fun hboth => absurd hboth.2 hz0, fun hboth => absurd hboth hstop⟩

/-! ## The configured limits -/

theorem minSpeedOf_le (atGoal : Bool) : (minSpeedOf atGoal : F) ≤ ratio 70 100 := by
  cases atGoal with
  | true =>
    rw [minSpeedOf, if_pos rfl, ratio_eq, ratio_eq]
    norm_num
  | false =>
    rw [minSpeedOf, if_neg Bool.false_ne_true, ratio_eq, ratio_eq]
    norm_num

theorem stop_lt_slowdownRangeOf (atGoal : Bool) :
    (stopTurnThresh : F) < slowdownRangeOf atGoal := by
  cases atGoal with
  | true =>
    rw [slowdownRangeOf, if_pos rfl, stopTurnThresh, ratio_eq, ratio_eq]
    norm_num
  | false =>
    rw [slowdownRangeOf, if_neg Bool.false_ne_true, stopTurnThresh, ratio_eq, ratio_eq]
    norm_num

/-- A profile keeps the limit unless it slows down to a least speed above it. -/
theorem rotationSpeed_le_iff {minAngularSpeed slowdownRange : F}
    (hmin : minAngularSpeed ≤ ratio 70 100) (hrange : stopTurnThresh < slowdownRange)
    (maxAngularSpeed angleDiff : F) :
    rotationSpeed minAngularSpeed slowdownRange maxAngularSpeed angleDiff ≤ maxAngularSpeed ↔
      (|angleDiff| < slowdownRange → minAngularSpeed ≤ maxAngularSpeed) := by
  constructor
  · intro hle hslow
    by_contra hlow
    have hlow := not_le.mp hlow
    have hfull : min maxAngularSpeed (ratio 70 100) = maxAngularSpeed :=
      min_eq_left (le_of_lt (lt_of_lt_of_le hlow hmin))
    -- inside the range the ratio stays below 1, and some of the least speed is left
    have hquotient : (|angleDiff| - stopTurnThresh) / (slowdownRange - stopTurnThresh) < 1 := by
      rw [div_lt_one (sub_pos.mpr hrange)]
      linarith
    rw [rotationSpeed, fabs_eq_abs, if_pos hslow, hfull, lit_eq, lit_eq, Int.cast_zero,
      Int.cast_one] at hle
    have hratio : max 0 (min 1 ((|angleDiff| - stopTurnThresh) /
        (slowdownRange - stopTurnThresh))) < 1 :=
      max_lt one_pos (lt_of_le_of_lt (min_le_right _ _) hquotient)
    nlinarith
  · intro h
    by_cases hslow : |angleDiff| < slowdownRange
    · have hmem := rotationSpeed_mem minAngularSpeed slowdownRange maxAngularSpeed angleDiff
      exact hmem.2.trans (max_le (h hslow) (min_le_left _ _))
    · rw [rotationSpeed, fabs_eq_abs, if_neg hslow]
      exact min_le_left _ _

/-- The turn keeps the limit, but for the slow end of its profile. -/
theorem abs_rotation_le_iff {atGoal : Bool} {angleDiff maxAngularSpeed : F}
    (hmax : 0 < maxAngularSpeed) :
    |rotation atGoal maxAngularSpeed angleDiff| ≤ maxAngularSpeed ↔
      ((atGoal = true → 0.05 < |angleDiff|) → |angleDiff| < slowdownRangeOf atGoal →
        minSpeedOf atGoal ≤ maxAngularSpeed) := by
  by_cases hoff : atGoal = true → 0.05 < |angleDiff|
  · have hspeed :=
      rotationSpeed_pos (minSpeedOf_pos atGoal) hmax (slowdownRangeOf atGoal) angleDiff
    rw [rotation_eq hoff, abs_angularZ (le_of_lt hspeed),
      rotationSpeed_le_iff (minSpeedOf_le atGoal) (stop_lt_slowdownRangeOf atGoal)]
    exact ⟨fun h _ => h, fun h => h hoff⟩
  · obtain ⟨hgoal, haligned⟩ := Classical.not_imp.mp hoff
    rw [hgoal, rotation_stop (not_lt.mp haligned), abs_zero]
    exact ⟨fun _ hoff' => absurd (hgoal ▸ hoff') hoff, fun _ => le_of_lt hmax⟩

/-- The speeds keep the configured limits exactly when the least speed of the
profile is not used or not above the limit. -/
theorem command_within_limits_iff (m : Maths F) {c : Controller F}
    (hlinear : 0 < c.maxLinearSpeed) (hangular : 0 < c.maxAngularSpeed)
    (hplan : c.globalPlan.poses ≠ []) {call : Call F} {cur : PoseStamped F}
    (hcur : call.inPlanFrame = some cur) :
    ∃ c' sent target pruned final,
      computeVelocityCommands m c call = (c', .ok sent) ∧
      getNearestTargetPose m c.lookaheadDist c.globalPlan.poses cur = some (target, pruned) ∧
      c.globalPlan.poses.getLast? = some final ∧
      ((0 ≤ sent.cmdVel.linearX ∧ sent.cmdVel.linearX ≤ c.maxLinearSpeed) ∧
          |sent.cmdVel.angularZ| ≤ c.maxAngularSpeed ↔
        (atXyGoal m final cur → 0.05 < |angleDiffFor m cur target final| →
          |angleDiffFor m cur target final| < 0.25 → 0.2 ≤ c.maxAngularSpeed) ∧
        (¬ atXyGoal m final cur → rotates false c.isRotating (angleDiffFor m cur target final) →
          |angleDiffFor m cur target final| < 0.6 → 0.08 ≤ c.maxAngularSpeed)) := by
  obtain ⟨c', sent, target, pruned, final, hcall, hpruned, hfinal, -, -, hx, hz⟩ :=
    computeVelocityCommands_sent m hplan hcur
  refine ⟨c', sent, target, pruned, final, hcall, hpruned, hfinal, ?_⟩
  have hlimits : 0 ≤ sent.cmdVel.linearX ∧ sent.cmdVel.linearX ≤ c.maxLinearSpeed := by
    rw [hx]
    split
    · exact ⟨le_refl 0, le_of_lt hlinear⟩
    · exact ⟨le_of_lt hlinear, le_refl _⟩
  rw [and_iff_right hlimits, hz]
  set angleDiff := angleDiffFor m cur target final
  have hrot : rotatesFor m c.isRotating cur target final =
      rotates (decide (atXyGoal m final cur)) c.isRotating angleDiff := rfl
  have hnumbers : (slowdownRangeOf true : F) = 0.25 ∧ (slowdownRangeOf false : F) = 0.6 ∧
      (minSpeedOf true : F) = 0.2 ∧ (minSpeedOf false : F) = 0.08 := by
    simp only [slowdownRangeOf, minSpeedOf, ratio_eq]
    norm_num
  obtain ⟨hrangeGoal, hrangeRoute, hminGoal, hminRoute⟩ := hnumbers
  by_cases hgoal : atXyGoal m final cur
  · have hon : rotatesFor m c.isRotating cur target final = true := by
      rw [hrot, decide_eq_true hgoal]
      rfl
    rw [if_pos hon, decide_eq_true hgoal, abs_rotation_le_iff hangular, hrangeGoal, hminGoal]
    constructor
    · intro h
      exact ⟨fun _ hoff => h fun _ => hoff, fun hnot => absurd hgoal hnot⟩
    · intro h hoff
      exact h.1 hgoal (hoff rfl)
  · rw [decide_eq_false hgoal] at hrot
    rw [hrot, decide_eq_false hgoal]
    cases hflag : rotates false c.isRotating angleDiff with
    | false =>
      rw [if_neg Bool.false_ne_true, abs_zero]
      refine ⟨fun _ => ⟨fun hyes => absurd hyes hgoal, ?_⟩, fun _ => le_of_lt hangular⟩
      exact fun _ hfalse => absurd hfalse Bool.false_ne_true
    | true =>
      rw [if_pos rfl, abs_rotation_le_iff hangular, hrangeRoute, hminRoute]
      constructor
      · intro h
        refine ⟨fun hyes => absurd hyes hgoal, fun _ _ => h ?_⟩
        exact fun hfalse => absurd hfalse Bool.false_ne_true
      · intro h _
        exact h.2 hgoal rfl

omit [IsStrictOrderedRing F] in
/-- A call on a plan of one pose. -/
theorem call_onePose (m : Maths F) {c : Controller F} {p : PoseStamped F}
    (hplan : c.globalPlan.poses = [p]) (call : Call F) {cur : PoseStamped F}
    (hcur : call.inPlanFrame = some cur) :
    ∃ sent, computeVelocityCommands m c call =
        ({ c with isRotating := rotatesFor m c.isRotating cur p p }, .ok sent) ∧
      sent.angleDiff = angleDiffFor m cur p p ∧
      sent.cmdVel.linearX = (if rotatesFor m c.isRotating cur p p then 0 else c.maxLinearSpeed) ∧
      sent.cmdVel.angularZ =
        (if rotatesFor m c.isRotating cur p p then
          rotation (decide (atXyGoal m p cur)) c.maxAngularSpeed (angleDiffFor m cur p p)
        else 0) := by
  have hne : c.globalPlan.poses ≠ [] := by simp [hplan]
  obtain ⟨c', sent, target, pruned, final, hcall, hpruned, hfinal, hc', hdiff, hx, hz⟩ :=
    computeVelocityCommands_sent m hne hcur
  have hone : getNearestTargetPose m c.lookaheadDist [p] cur = some (p, [p]) := rfl
  have hlast : [p].getLast? = some p := rfl
  have hsame : { c.globalPlan with poses := [p] } = c.globalPlan := by rw [← hplan]
  rw [hplan, hone] at hpruned
  rw [hplan, hlast] at hfinal
  obtain rfl : final = p := (Option.some.inj hfinal).symm
  obtain ⟨rfl, rfl⟩ := Prod.mk.inj (Option.some.inj hpruned)
  refine ⟨sent, ?_, hdiff, hx, hz⟩
  rw [hcall, hc', hsame]

end

/-! ## A robot in front of its goal -/

noncomputable section

open Real

/-- A pose that is not at the goal, 1 ahead of the robot. -/
theorem ahead_away (yaw : ℝ) :
    ¬ atXyGoal (realMaths planarYaw id) (onAxis 1) (standing (onAxis 0) yaw) := by
  have hdist : distance (realMaths planarYaw id) (onAxis 1) (standing (onAxis 0) yaw) = |1 - 0| :=
    distance_onAxis planarYaw id 1 0
  rw [atXyGoal_iff, hdist]
  norm_num

theorem ahead_angleDiff (yaw : ℝ) (hpos : 0 < yaw) (hlt : yaw < 3) :
    angleDiffFor (realMaths planarYaw id) (standing (onAxis 0) yaw) (onAxis 1) (onAxis 1) =
      -yaw := by
  have hpi := pi_gt_three
  have hangle : targetAngle (realMaths planarYaw id) (onAxis 1) (onAxis 1)
      (standing (onAxis 0) yaw) = 0 := by
    rw [targetAngle, if_neg (ahead_away yaw)]
    show Complex.arg ⟨1 - 0, 0 - 0⟩ = 0
    norm_num [Complex.arg_eq_zero_iff]
  have hyaw : (realMaths planarYaw id).toFloat ((realMaths planarYaw id).getYaw
      (standing (onAxis 0) yaw).orientation) = yaw := planarYaw_yawQuaternion hpos hlt
  rw [angleDiffFor, hangle, calculateAngleDifference, hyaw]
  show (if 0 - yaw < -π then 0 - yaw + lit 2 * π
    else if π < 0 - yaw then 0 - yaw - lit 2 * π else 0 - yaw) = -yaw
  rw [if_neg (by linarith), if_neg (by linarith), zero_sub]

/-- The robot is turned by 1 from the goal ahead. -/
theorem ahead_turns {c : Controller ℝ} (hplan : c.globalPlan.poses = [onAxis 1])
    (hmax : c.maxAngularSpeed = 0.7) :
    ∃ sent, computeVelocityCommands (realMaths planarYaw id) c (standingCall (onAxis 0) 1) =
        ({ c with isRotating := true }, .ok sent) ∧
      sent.angleDiff = -1 ∧ sent.cmdVel.linearX = 0 ∧ sent.cmdVel.angularZ = 0.7 := by
  obtain ⟨sent, hcall, hdiff, hx, hz⟩ :=
    call_onePose (realMaths planarYaw id) hplan (standingCall (onAxis 0) 1) rfl
  have hdiff1 := ahead_angleDiff 1 one_pos (by norm_num)
  have hrot : rotatesFor (realMaths planarYaw id) c.isRotating (standing (onAxis 0) 1) (onAxis 1)
      (onAxis 1) = true := by
    rw [rotatesFor, hdiff1]
    apply rotates_of_off
    · norm_num
    · right; right
      norm_num
  have hslow : ¬ fabs (-1 : ℝ) < ratio 60 100 := by
    rw [fabs_eq_abs, ratio_eq]
    norm_num
  rw [hrot] at hcall hx hz
  refine ⟨sent, hcall, hdiff.trans hdiff1, hx, ?_⟩
  rw [hz, hdiff1, decide_eq_false (ahead_away 1), hmax, if_pos rfl, rotation,
    if_neg Bool.false_ne_true, enRouteRotationSpeed, rotationSpeed, if_neg hslow, angularZ,
    lit_eq, ratio_eq]
  norm_num

/-- The robot is turned by 0.1 from the goal ahead, and was not rotating. -/
theorem ahead_drives {c : Controller ℝ} (hplan : c.globalPlan.poses = [onAxis 1])
    (hidle : c.isRotating = false) :
    ∃ sent, computeVelocityCommands (realMaths planarYaw id) c (standingCall (onAxis 0) 0.1) =
        ({ c with isRotating := false }, .ok sent) ∧
      sent.angleDiff = -0.1 ∧ sent.cmdVel.linearX = c.maxLinearSpeed ∧
      sent.cmdVel.angularZ = 0 := by
  obtain ⟨sent, hcall, hdiff, hx, hz⟩ :=
    call_onePose (realMaths planarYaw id) hplan (standingCall (onAxis 0) 0.1) rfl
  have hdiff1 := ahead_angleDiff 0.1 (by norm_num) (by norm_num)
  have hrot : rotatesFor (realMaths planarYaw id) c.isRotating (standing (onAxis 0) 0.1)
      (onAxis 1) (onAxis 1) = false := by
    have hstart : ¬ startTurnThresh ≤ fabs (-0.1 : ℝ) := by
      rw [start_le_fabs_iff]
      norm_num
    rw [rotatesFor, hdiff1, decide_eq_false (ahead_away 0.1), hidle, rotates,
      if_neg Bool.false_ne_true, if_neg Bool.false_ne_true, decide_eq_false hstart]
  rw [hrot] at hcall hx hz
  exact ⟨sent, hcall, hdiff.trans hdiff1, hx, hz⟩

/-- The plugin with a plan that ends 1 ahead of the robot. -/
def ahead : Controller ℝ := setPlan ⟨"map", [onAxis 1]⟩ (plugin (realMaths planarYaw id)).init

theorem ahead_maxAngularSpeed : ahead.maxAngularSpeed = 0.7 := by
  show (ratio 7 10 : ℝ) = 0.7
  rw [ratio_eq]
  norm_num

theorem ahead_maxLinearSpeed : ahead.maxLinearSpeed = 0.1 := by
  show (ratio 1 10 : ℝ) = 0.1
  rw [ratio_eq]
  norm_num

/-- A turn, an activation, and a drive at a difference of 0.1. -/
theorem ahead_outs :
    ∃ sent sent',
      (plugin (realMaths planarYaw id)).outs (plugin (realMaths planarYaw id)).init
        [.setPlan ⟨"map", [onAxis 1]⟩, .computeVelocityCommands (standingCall (onAxis 0) 1),
          .activate, .computeVelocityCommands (standingCall (onAxis 0) 0.1)] =
        [none, some (.ok sent), none, some (.ok sent')] ∧
      sent.angleDiff = -1 ∧ sent.cmdVel.linearX = 0 ∧ sent.cmdVel.angularZ = 0.7 ∧
      sent'.angleDiff = -0.1 ∧ sent'.cmdVel.linearX = 0.1 ∧ sent'.cmdVel.angularZ = 0 := by
  obtain ⟨sent, hturn, hdiff, hx, hz⟩ := ahead_turns (c := ahead) rfl ahead_maxAngularSpeed
  obtain ⟨sent', hdrive, hdiff', hx', hz'⟩ :=
    ahead_drives (c := activate { ahead with isRotating := true }) rfl rfl
  refine ⟨sent, sent', ?_, hdiff, hx, hz, hdiff', hx'.trans ahead_maxLinearSpeed, hz'⟩
  rw [Machine.outs_cons, Machine.outs_cons, Machine.outs_cons, Machine.outs_cons,
    Machine.outs_nil, out_call, out_call, next_call]
  show [none, some (computeVelocityCommands (realMaths planarYaw id) ahead _).2, none,
    some (computeVelocityCommands (realMaths planarYaw id)
      (activate (computeVelocityCommands (realMaths planarYaw id) ahead _).1) _).2] = _
  rw [hturn, hdrive]

/-- An activation between a turn away from the goal area and a drive: no call finds
the robot aligned, and it drives on. -/
theorem activation_ends_turn :
    ∃ sent sent' : Sent ℝ,
      (plugin (realMaths planarYaw id)).outs (plugin (realMaths planarYaw id)).init
        [.setPlan ⟨"map", [onAxis 1]⟩, .computeVelocityCommands (standingCall (onAxis 0) 1),
          .activate, .computeVelocityCommands (standingCall (onAxis 0) 0.1)] =
        [none, some (.ok sent), none, some (.ok sent')] ∧
      0.12 < distance (realMaths planarYaw id) (onAxis 1) (standing (onAxis 0) 1) ∧
      sent.cmdVel.linearX = 0 ∧ sent.cmdVel.angularZ ≠ 0 ∧
      sent'.cmdVel.linearX ≠ 0 ∧ 0.05 < |sent'.angleDiff| := by
  obtain ⟨sent, sent', houts, -, hx, hz, hdiff', hx', -⟩ := ahead_outs
  refine ⟨sent, sent', houts, ?_, hx, ?_, ?_, ?_⟩
  · exact not_le.mp fun hle => ahead_away 1 (atXyGoal_iff.mpr hle)
  · rw [hz]
    norm_num
  · rw [hx']
    norm_num
  · rw [hdiff']
    norm_num

theorem commands_and_turns_ahead :
    (∃ c' sent, computeVelocityCommands (realMaths planarYaw id) ahead
        (standingCall (onAxis 0) 1) = (c', .ok sent) ∧
      (sent.cmdVel.linearX = 0 ∧ sent.cmdVel.angularZ = 0 ∨
        sent.cmdVel.linearX = 0 ∧ sent.cmdVel.angularZ ≠ 0 ∨
        sent.cmdVel.linearX = ahead.maxLinearSpeed ∧ sent.cmdVel.angularZ = 0)) ∧
    ∃ before g rest,
      [Event.activate, .computeVelocityCommands (standingCall (onAxis 0) 0.1)] =
        before ++ g :: rest ∧
      (g = .activate ∨ FoundAligned ((plugin (realMaths planarYaw id)).out
        ((plugin (realMaths planarYaw id)).run { ahead with isRotating := true } before) g)) := by
  obtain ⟨hcommands, hturns⟩ := commands_and_turns (realMaths planarYaw id)
  constructor
  · obtain ⟨c', sent, -, -, -, hcall, -, -, -, hcases, -⟩ :=
      hcommands ahead (standingCall (onAxis 0) 1) _
        (by rw [ahead_maxLinearSpeed]; norm_num) (by rw [ahead_maxAngularSpeed]; norm_num)
        (List.cons_ne_nil _ _) rfl
    exact ⟨c', sent, hcall, hcases⟩
  · obtain ⟨sent, hturn, -, -, hz⟩ := ahead_turns (c := ahead) rfl ahead_maxAngularSpeed
    obtain ⟨sent', hdrive, -, hx', -⟩ :=
      ahead_drives (c := activate { ahead with isRotating := true }) rfl rfl
    have hnext : (plugin (realMaths planarYaw id)).next ahead
        (.computeVelocityCommands (standingCall (onAxis 0) 1)) =
        { ahead with isRotating := true } := by
      rw [next_call, hturn]
    rw [← hnext]
    apply hturns ahead (.computeVelocityCommands (standingCall (onAxis 0) 1))
      (.computeVelocityCommands (standingCall (onAxis 0) 0.1)) [.activate]
    · refine ⟨sent, by rw [out_call, hturn], ?_⟩
      rw [hz]
      norm_num
    · rw [hnext]
      have hrun : (plugin (realMaths planarYaw id)).run { ahead with isRotating := true }
          [.activate] = activate { ahead with isRotating := true } := rfl
      refine ⟨sent', ?_, ?_⟩
      · rw [hrun, out_call, hdrive]
      · rw [hx']
        show ahead.maxLinearSpeed ≠ 0
        rw [ahead_maxLinearSpeed]
        norm_num

/-! ## A low limit -/

/-- The plugin configured with `max_angular_speed` 0.1, at the end of its plan. -/
def lowLimit : Controller ℝ :=
  setPlan ⟨"map", [onAxis 0]⟩ (configure "FollowPath"
    (fun name => if name = "FollowPath.max_angular_speed" then some 0.1 else none)
    (plugin (realMaths planarYaw id)).init)

theorem lowLimit_maxAngularSpeed : lowLimit.maxAngularSpeed = 0.1 := by
  show (Option.getD (if "FollowPath" ++ ".max_angular_speed" = "FollowPath.max_angular_speed"
    then some (0.1 : ℝ) else none) (ratio 7 10)) = 0.1
  rw [if_pos (by decide)]
  rfl

theorem lowLimit_maxLinearSpeed : lowLimit.maxLinearSpeed = 0.1 := by
  show (Option.getD (if "FollowPath" ++ ".max_linear_speed" = "FollowPath.max_angular_speed"
    then some (0.1 : ℝ) else none) (ratio 1 10)) = 0.1
  rw [if_neg (by decide), Option.getD_none, ratio_eq]
  norm_num

theorem command_within_limits_iff_lowLimit :
    ∃ c' sent target pruned final,
      computeVelocityCommands (realMaths planarYaw id) lowLimit (standingCall (onAxis 0) 0.1) =
        (c', .ok sent) ∧
      getNearestTargetPose (realMaths planarYaw id) lowLimit.lookaheadDist
        lowLimit.globalPlan.poses (standing (onAxis 0) 0.1) = some (target, pruned) ∧
      lowLimit.globalPlan.poses.getLast? = some final ∧
      ((0 ≤ sent.cmdVel.linearX ∧ sent.cmdVel.linearX ≤ lowLimit.maxLinearSpeed) ∧
          |sent.cmdVel.angularZ| ≤ lowLimit.maxAngularSpeed ↔
        (atXyGoal (realMaths planarYaw id) final (standing (onAxis 0) 0.1) →
          0.05 < |angleDiffFor (realMaths planarYaw id) (standing (onAxis 0) 0.1) target final| →
          |angleDiffFor (realMaths planarYaw id) (standing (onAxis 0) 0.1) target final| < 0.25 →
          0.2 ≤ lowLimit.maxAngularSpeed) ∧
        (¬ atXyGoal (realMaths planarYaw id) final (standing (onAxis 0) 0.1) →
          rotates false lowLimit.isRotating
            (angleDiffFor (realMaths planarYaw id) (standing (onAxis 0) 0.1) target final) →
          |angleDiffFor (realMaths planarYaw id) (standing (onAxis 0) 0.1) target final| < 0.6 →
          0.08 ≤ lowLimit.maxAngularSpeed)) :=
  command_within_limits_iff (realMaths planarYaw id)
    (by rw [lowLimit_maxLinearSpeed]; norm_num) (by rw [lowLimit_maxAngularSpeed]; norm_num)
    (List.cons_ne_nil _ _) rfl

/-- Turned by 0.1 in the goal area the robot is commanded to turn at 0.175, above
the limit of 0.1. -/
theorem lowLimit_exceeded :
    ∃ sent, (computeVelocityCommands (realMaths planarYaw id) lowLimit
        (standingCall (onAxis 0) 0.1)).2 = .ok sent ∧
      sent.cmdVel.angularZ = 0.175 ∧ lowLimit.maxAngularSpeed = 0.1 ∧
      ¬ |sent.cmdVel.angularZ| ≤ lowLimit.maxAngularSpeed := by
  obtain ⟨sent, hcall, -, -, hz⟩ := call_onePose (realMaths planarYaw id) (c := lowLimit) rfl
    (standingCall (onAxis 0) 0.1) rfl
  have hdiff : angleDiffFor (realMaths planarYaw id) (standing (onAxis 0) 0.1) (onAxis 0)
      (onAxis 0) = -0.1 := spinning_headingError (by norm_num) (by norm_num)
  have hgoal : atXyGoal (realMaths planarYaw id) (onAxis 0) (standing (onAxis 0) 0.1) :=
    onAxis_atXyGoal 0
  have hrot : rotatesFor (realMaths planarYaw id) lowLimit.isRotating
      (standing (onAxis 0) 0.1) (onAxis 0) (onAxis 0) = true := by
    rw [rotatesFor, decide_eq_true hgoal]
    rfl
  have hspeed : rotation true (0.1 : ℝ) (-0.1) = 0.175 := by
    have hslow : |(-0.1 : ℝ)| < slowdownRangeOf true := by
      rw [slowdownRangeOf, if_pos rfl, ratio_eq]
      norm_num
    rw [rotation_eq (fun _ => by norm_num), angularZ, rotationSpeed, fabs_eq_abs, if_pos hslow]
    simp only [minSpeedOf, slowdownRangeOf, stopTurnThresh, ratio_eq, lit_eq]
    norm_num
  rw [if_pos hrot, hdiff, decide_eq_true hgoal, lowLimit_maxAngularSpeed, hspeed] at hz
  refine ⟨sent, by rw [hcall], hz, lowLimit_maxAngularSpeed, ?_⟩
  rw [hz, lowLimit_maxAngularSpeed]
  norm_num

end

end CustomController
end RobotNav
