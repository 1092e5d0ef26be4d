/-
How a plan is worked off, call by call.

The poses in front of the nearest one are erased, so the first remaining pose only
moves on, and so does the target: a lookahead that starts later has less path in
front of it and ends no earlier.  A call made twice from one pose does nothing the
second time.
-/
import RobotNav.CustomController.Commands

namespace RobotNav
namespace CustomController

variable {K : Type} [Arith K]

/-! ## Indices in the plan that was set -/

/-- The two indices of `getNearestTargetPose`, in the plan it finds. -/
def chosen (m : Maths K) (lookaheadDist : K) (poses : List (PoseStamped K))
    (cur : PoseStamped K) : Option (ℕ × ℕ) := do
  if poses.length < 2 then
    let _ ← poses.getLast?
    return (0, poses.length - 1)
  let nearest ← nearestIdx m poses cur
  let target ← targetIdx m lookaheadDist poses nearest
  return (nearest, target)

/-- The indices of the first remaining pose and of the target after each call that
chooses one, counted in `poses`. -/
def progress (m : Maths K) (poses : List (PoseStamped K)) :
    Controller K → List (Call K) → List (ℕ × ℕ)
  | _, [] => []
  | c, call :: rest =>
    let erased := poses.length - c.globalPlan.poses.length
    let later := progress m poses (computeVelocityCommands m c call).1 rest
    match call.inPlanFrame.bind (chosen m c.lookaheadDist c.globalPlan.poses) with
    | none => later
    | some (nearest, target) => (erased + nearest, erased + target) :: later

theorem chosen_spec (m : Maths K) (lookaheadDist : K) {poses : List (PoseStamped K)}
    (hposes : poses ≠ []) (cur : PoseStamped K) :
    ∃ n t, chosen m lookaheadDist poses cur = some (n, t) ∧ Nearest m poses cur n ∧
      Target m lookaheadDist poses n t := by
  by_cases hshort : poses.length < 2
  · obtain ⟨p, rfl⟩ : ∃ p, poses = [p] := by
      have hlen : 0 < poses.length := List.length_pos_iff.mpr hposes
      exact List.length_eq_one_iff.mp (by omega)
    obtain ⟨n, t, target, hn, ht, -⟩ := getNearestTargetPose_spec m lookaheadDist hposes cur
    have hn0 := hn.lt_length hposes
    have ht0 := ht.lt_length hn0
    obtain rfl : n = 0 := by simpa using hn0
    obtain rfl : t = 0 := by simpa using ht0
    exact ⟨0, 0, rfl, hn, ht⟩
  · obtain ⟨n, hnearest, hn⟩ := nearestIdx_spec m poses cur
    obtain ⟨t, htarget, ht⟩ := targetIdx_spec m lookaheadDist poses n (hn.lt_length hposes)
    refine ⟨n, t, ?_, hn, ht⟩
    simp only [chosen, if_neg hshort, hnearest, htarget, Option.bind_eq_bind, Option.bind_some]
    rfl

/-! ## Two calls in a row -/

/-- What the lookahead needs of the arithmetic: that addition keeps the order and
that no distance is negative.  Rounding keeps both. -/
structure SoundSums (m : Maths K) : Prop where
  add_le_add : ∀ a b c d : K, a ≤ b → c ≤ d → a + c ≤ b + d
  zero_le_add : (lit 0 : K) ≤ lit 0 + lit 0
  hypot_nonneg : ∀ x y : K, lit 0 ≤ m.hypot x y

theorem segments_nonneg {m : Maths K} (hm : SoundSums m) {poses : List (PoseStamped K)} :
    ∀ s ∈ segments m poses, lit 0 ≤ s := by
  intro s hs
  obtain ⟨i, hi, rfl⟩ := List.mem_iff_getElem.mp hs
  simp only [segments, List.getElem_zipWith]
  exact hm.hypot_nonneg _ _

/-- The target found on what an earlier call has left lies no earlier. -/
theorem Target.le_of_drop {m : Maths K} (hm : SoundSums m) {lookaheadDist : K}
    {poses : List (PoseStamped K)} {n t n' t' : ℕ} (h : Target m lookaheadDist poses n t)
    (h' : Target m lookaheadDist (poses.drop n) n' t') : t ≤ n + t' := by
  have hfirst := h.2
  have hsecond := h'.2
  rw [segments_drop] at hsecond
  have hle := Reaches.le_of_drop hm.add_le_add hm.zero_le_add
    (fun s hs => segments_nonneg hm s (List.mem_of_mem_drop hs)) hfirst hsecond
  have hnt := h.1
  have hnt' := h'.1
  omega

/-! ## Runs of calls -/

/-- How many poses have been erased. -/
def erased (poses : List (PoseStamped K)) (c : Controller K) : ℕ :=
  poses.length - c.globalPlan.poses.length

/-- No target chosen from `c` on lies before the pose `bound`. -/
def TargetsFrom (m : Maths K) (poses : List (PoseStamped K)) (c : Controller K) (bound : ℕ) :
    Prop :=
  ∀ n t, Target m c.lookaheadDist c.globalPlan.poses n t → bound ≤ erased poses c + t

/-- A call with a transform chooses two indices, and keeps the poses from the first
one on. -/
theorem progress_cons {m : Maths K} {poses : List (PoseStamped K)} {c : Controller K}
    (h : Follows poses c) {call : Call K} {cur : PoseStamped K}
    (hcur : call.inPlanFrame = some cur) (rest : List (Call K)) :
    ∃ n t target, Target m c.lookaheadDist c.globalPlan.poses n t ∧
      progress m poses c (call :: rest) =
        (erased poses c + n, erased poses c + t) ::
          progress m poses (computeVelocityCommands m c call).1 rest ∧
      erased poses (computeVelocityCommands m c call).1 = erased poses c + n ∧
      (computeVelocityCommands m c call).1.globalPlan.poses =
        poses.drop (erased poses c + n) ∧
      (computeVelocityCommands m c call).1.lookaheadDist = c.lookaheadDist ∧
      poses[erased poses c + t]? = some target ∧
      getNearestTargetPose m c.lookaheadDist c.globalPlan.poses cur =
        some (target, poses.drop (erased poses c + n)) := by
  obtain ⟨n, t, hchosen, hn, ht⟩ := chosen_spec m c.lookaheadDist h.1 cur
  obtain ⟨n', t', target, hn', ht', hget, hpruned⟩ :=
    getNearestTargetPose_spec m c.lookaheadDist h.1 cur
  obtain ⟨n'', t'', _, _, hn'', -, -, -, hcall⟩ := computeVelocityCommands_spec m h.1 hcur
  obtain rfl : n' = n := hn'.unique hn
  obtain rfl : n'' = n' := hn''.unique hn'
  obtain rfl : t' = t := ht'.unique ht
  have hlt := hn.lt_length h.1
  -- the plan is the part of `poses` behind what has been erased
  have hplan : c.globalPlan.poses = poses.drop (erased poses c) :=
    List.suffix_iff_eq_drop.mp h.2
  have hlen := h.2.length_le
  have hdrop : c.globalPlan.poses.drop n'' = poses.drop (erased poses c + n'') := by
    rw [← List.drop_drop, ← hplan]
  refine ⟨n'', t', target, ht, ?_, ?_, ?_, ?_, ?_, ?_⟩
  · simp only [progress, hcur, Option.bind_some, hchosen]
    rfl
  · rw [erased, hcall]
    show poses.length - (c.globalPlan.poses.drop n'').length = erased poses c + n''
    rw [List.length_drop, erased]
    omega
  · rw [hcall]
    exact hdrop
  · rw [hcall]
    rfl
  · rw [← List.getElem?_drop, ← hplan]
    exact hget
  · rw [← hdrop]
    exact hpruned

theorem progress_throws {m : Maths K} {poses : List (PoseStamped K)} {c : Controller K}
    {call : Call K} (hnone : call.inPlanFrame = none) (rest : List (Call K)) :
    progress m poses c (call :: rest) = progress m poses c rest := by
  obtain ⟨what, hthrow⟩ := computeVelocityCommands_throws m (c := c) (.inr hnone)
  simp only [progress, hnone, Option.bind_none, hthrow]

theorem progress_bounds {m : Maths K} (hm : SoundSums m) {poses : List (PoseStamped K)}
    {c : Controller K} {bound : ℕ} (h : Follows poses c) (hbound : TargetsFrom m poses c bound)
    (calls : List (Call K)) :
    (∀ e ∈ progress m poses c calls, erased poses c ≤ e.1 ∧ bound ≤ e.2) ∧
      (progress m poses c calls).Pairwise fun a b => a.1 ≤ b.1 ∧ a.2 ≤ b.2 := by
  induction calls generalizing c bound with
  | nil => exact ⟨fun e he => absurd he List.not_mem_nil, List.Pairwise.nil⟩
  | cons call rest ih =>
    cases hcur : call.inPlanFrame with
    | none =>
      rw [progress_throws hcur]
      exact ih h hbound
    | some cur =>
      obtain ⟨n, t, target, ht, hcons, herased, hplan, hlook, -, -⟩ := progress_cons h hcur rest
      have hfrom : TargetsFrom m poses (computeVelocityCommands m c call).1
          (erased poses c + t) := by
        intro n' t' ht'
        have hlater : Target m c.lookaheadDist (c.globalPlan.poses.drop n) n' t' := by
          rw [← hlook]
          have hsuffix : c.globalPlan.poses = poses.drop (erased poses c) :=
            List.suffix_iff_eq_drop.mp h.2
          rw [hsuffix, List.drop_drop, ← hplan]
          exact ht'
        have hle := ht.le_of_drop hm hlater
        omega
      obtain ⟨hlater, hpairwise⟩ := ih (h.call call) hfrom
      have hfirst := hbound n t ht
      rw [hcons]
      refine ⟨fun e he => ?_, List.pairwise_cons.mpr ⟨fun e he => ?_, hpairwise⟩⟩
      · rcases List.mem_cons.mp he with rfl | he
        · exact ⟨Nat.le_add_right _ _, hfirst⟩
        · have hbounds := hlater e he
          exact ⟨by omega, by omega⟩
      · have hbounds := hlater e he
        exact ⟨by omega, hbounds.2⟩

theorem progress_nil {m : Maths K} {poses : List (PoseStamped K)} {c : Controller K}
    (calls : List (Call K)) (hplan : c.globalPlan.poses = []) : progress m poses c calls = [] := by
  induction calls with
  | nil => rfl
  | cons call rest ih =>
    have hthrows : ∃ what, computeVelocityCommands m c call =
        (c, .error (.plannerException what)) := computeVelocityCommands_throws m (.inl hplan)
    obtain ⟨what, hthrow⟩ := hthrows
    have hchosen : call.inPlanFrame.bind (chosen m c.lookaheadDist c.globalPlan.poses) = none := by
      cases call.inPlanFrame with
      | none => rfl
      | some cur => simp [chosen, hplan]
    simp only [progress, hchosen, hthrow]
    exact ih

theorem progress_append {m : Maths K} {poses : List (PoseStamped K)} (c : Controller K)
    (a b : List (Call K)) :
    progress m poses c (a ++ b) =
      progress m poses c a ++ progress m poses (afterCalls m c a) b := by
  induction a generalizing c with
  | nil => rfl
  | cons call rest ih =>
    have hrest := ih (computeVelocityCommands m c call).1
    have hafter : afterCalls m c (call :: rest) =
        afterCalls m (computeVelocityCommands m c call).1 rest := rfl
    rw [hafter]
    cases hchosen : call.inPlanFrame.bind (chosen m c.lookaheadDist c.globalPlan.poses) with
    | none => simp only [List.cons_append, progress, hchosen, hrest]
    | some e => simp only [List.cons_append, progress, hchosen, hrest]

/-- After a plan is set, the first remaining pose and the target never move back,
whatever the robot does between the calls; and the indices are those of the poses
each call keeps and chooses. -/
theorem progress_monotone (m : Maths K) (hm : SoundSums m) (c : Controller K) (p : Path K)
    (calls : List (Call K)) :
    ((progress m p.poses (setPlan p c) calls).Pairwise fun a b => a.1 ≤ b.1 ∧ a.2 ≤ b.2) ∧
    ∀ before call after cur, calls = before ++ call :: after → call.inPlanFrame = some cur →
      p.poses ≠ [] →
      let plan := (afterCalls m (setPlan p c) before).globalPlan.poses
      ∃ first target pose,
        progress m p.poses (setPlan p c) calls =
          progress m p.poses (setPlan p c) before ++ (first, target) ::
            progress m p.poses (afterCalls m (setPlan p c) (before ++ [call])) after ∧
        p.poses[target]? = some pose ∧
        getNearestTargetPose m c.lookaheadDist plan cur = some (pose, p.poses.drop first) ∧
        (afterCalls m (setPlan p c) (before ++ [call])).globalPlan.poses =
          p.poses.drop first := by
  constructor
  · by_cases hp : p.poses = []
    · rw [progress_nil calls (c := setPlan p c) hp]
      exact List.Pairwise.nil
    · have hset : Follows p.poses (setPlan p c) := ⟨hp, List.suffix_refl _⟩
      have hfrom : TargetsFrom m p.poses (setPlan p c) 0 := fun _ _ _ => Nat.zero_le _
      exact (progress_bounds hm hset hfrom calls).2
  · intro before call after cur hcut hcur hp plan
    have hset : Follows p.poses (setPlan p c) := ⟨hp, List.suffix_refl _⟩
    have hrun := hset.afterCalls (m := m) before
    have hlook : (afterCalls m (setPlan p c) before).lookaheadDist = c.lookaheadDist :=
      lookaheadDist_afterCalls hset before
    obtain ⟨n, t, pose, -, hcons, -, hkept, -, hget, hpruned⟩ :=
      progress_cons (m := m) hrun hcur after
    have hsnoc : afterCalls m (setPlan p c) (before ++ [call]) =
        (computeVelocityCommands m (afterCalls m (setPlan p c) before) call).1 := by
      rw [afterCalls, List.map_append, Machine.run_append]
      rfl
    refine ⟨erased p.poses (afterCalls m (setPlan p c) before) + n,
      erased p.poses (afterCalls m (setPlan p c) before) + t, pose, ?_, hget, ?_, ?_⟩
    · rw [hcut, progress_append, hcons, hsnoc]
    · rw [← hlook]
      exact hpruned
    · rw [hsnoc]
      exact hkept

/-! ## Exact arithmetic -/

theorem realMaths_soundSums (getYaw : Quaternion ℝ → ℝ) (toFloat : ℝ → ℝ) :
    SoundSums (realMaths getYaw toFloat) where
  add_le_add := fun _ _ _ _ => add_le_add
  zero_le_add := by
    rw [lit_eq, Int.cast_zero, add_zero]
  hypot_nonneg := fun x y => by
    rw [lit_eq, Int.cast_zero]
    exact Real.sqrt_nonneg _

/-- The robot goes on to the last pose and back again. -/
theorem axisPlan_progress_monotone :
    let m := realMaths planarYaw id
    let c := setPlan ⟨"map", axisPlan⟩ (plugin m).init
    let there : List (Call ℝ) := [⟨onAxis 0, some (onAxis 0)⟩, ⟨onAxis 1, some (onAxis 1)⟩]
    let back : Call ℝ := ⟨onAxis (-1), some (onAxis (-1))⟩
    ((progress m axisPlan c (there ++ [back])).Pairwise fun a b => a.1 ≤ b.1 ∧ a.2 ≤ b.2) ∧
    ∃ (first target : ℕ) (pose : PoseStamped ℝ), axisPlan[target]? = some pose ∧
      (afterCalls m c (there ++ [back])).globalPlan.poses = axisPlan.drop first := by
  intro m c there back
  obtain ⟨hpairwise, hindices⟩ := progress_monotone m (realMaths_soundSums planarYaw id)
    (plugin m).init ⟨"map", axisPlan⟩ (there ++ [back])
  obtain ⟨first, target, pose, -, hpose, -, hkept⟩ :=
    hindices there back [] (onAxis (-1)) rfl rfl (List.cons_ne_nil _ _)
  exact ⟨hpairwise, first, target, pose, hpose, hkept⟩

/-! ## A call made twice -/

theorem rotates_again (hthresh : (stopTurnThresh : K) < startTurnThresh) (atGoal isRotating : Bool)
    (angleDiff : K) :
    rotates atGoal (rotates atGoal isRotating angleDiff) angleDiff =
      rotates atGoal isRotating angleDiff := by
  have hboth : startTurnThresh ≤ fabs angleDiff → ¬ fabs angleDiff ≤ stopTurnThresh :=
    fun hstart hstop => absurd (hstart.trans hstop) (not_le.mpr hthresh)
  cases atGoal with
  | true => rfl
  | false =>
    cases isRotating with
    | true =>
      by_cases hstop : fabs angleDiff ≤ stopTurnThresh
      · have hstart : ¬ startTurnThresh ≤ fabs angleDiff := fun hstart => hboth hstart hstop
        simp [rotates, hstop, hstart]
      · simp [rotates, hstop]
    | false =>
      by_cases hstart : startTurnThresh ≤ fabs angleDiff
      · simp [rotates, hstart, hboth hstart]
      · simp [rotates, hstart]

theorem steer_again (hthresh : (stopTurnThresh : K) < startTurnThresh) (m : Maths K)
    (c : Controller K) (frameId : String) (cur target final : PoseStamped K) :
    steer m (steer m c frameId cur target final).1 frameId cur target final =
      steer m c frameId cur target final := by
  simp only [steer, rotates_again hthresh]

/-- A second call at the same pose answers as the first one did, and leaves the plan
and the flag as the first one left them. -/
theorem computeVelocityCommands_again (hthresh : (stopTurnThresh : K) < startTurnThresh)
    (m : Maths K) (c : Controller K) (call : Call K) :
    computeVelocityCommands m (computeVelocityCommands m c call).1 call =
      computeVelocityCommands m c call := by
  by_cases hfail : c.globalPlan.poses = [] ∨ call.inPlanFrame = none
  · obtain ⟨what, hthrow⟩ := computeVelocityCommands_throws m hfail
    rw [hthrow, hthrow]
  · have hplan : c.globalPlan.poses ≠ [] := fun hnil => hfail (.inl hnil)
    obtain ⟨cur, hcur⟩ :=
      Option.ne_none_iff_exists'.mp fun hnone : call.inPlanFrame = none => hfail (.inr hnone)
    obtain ⟨n, t, target, final, hn, ht, hget, hfinal, hcall⟩ :=
      computeVelocityCommands_spec m hplan hcur
    let left : Controller K :=
      { c with globalPlan := { c.globalPlan with poses := c.globalPlan.poses.drop n } }
    have hlast : (c.globalPlan.poses.drop n).getLast? = some final := by
      rw [getLast?_drop_of_lt (hn.lt_length hplan), hfinal]
    have hkept : (computeVelocityCommands m c call).1 =
        (steer m left call.pose.frameId cur target final).1 := by rw [hcall]
    have hplan' : (steer m left call.pose.frameId cur target final).1.globalPlan.poses ≠ [] := by
      intro hnil
      have hnone : (c.globalPlan.poses.drop n).getLast? = none :=
        congrArg List.getLast? hnil
      rw [hlast] at hnone
      cases hnone
    obtain ⟨n', t', target', final', hn', ht', hget', hfinal', hcall'⟩ :=
      computeVelocityCommands_spec m hplan' hcur
    -- on the plan that is left the nearest pose is the first one
    obtain rfl : n' = 0 := hn'.unique hn.drop
    have hsteps : t' = t - n := ht'.unique ht.drop
    have htarget : target' = target := by
      have hkeptTarget : (c.globalPlan.poses.drop n)[t']? = some target' := hget'
      rw [hsteps, List.getElem?_drop, Nat.add_sub_cancel' ht.1, hget] at hkeptTarget
      exact (Option.some.inj hkeptTarget).symm
    have hfinals : final' = final := Option.some.inj (hfinal'.symm.trans hlast)
    rw [hkept, hcall', htarget, hfinals, hcall]
    exact congrArg (fun result : Controller K × Sent K => (result.1, (.ok result.2 : Reply K)))
      (steer_again hthresh m left call.pose.frameId cur target final)

/-- A call that prunes the plan to its last pose and turns the robot in the goal
area. -/
theorem computeVelocityCommands_again_axisPlan :
    let m := realMaths planarYaw id
    let c := setPlan ⟨"map", axisPlan⟩ (plugin m).init
    let call := standingCall (onAxis 1) 2
    computeVelocityCommands m (computeVelocityCommands m c call).1 call =
      computeVelocityCommands m c call :=
  computeVelocityCommands_again
    (by rw [stopTurnThresh, startTurnThresh, ratio_eq, ratio_eq]; norm_num) _ _ _

end CustomController
end RobotNav
