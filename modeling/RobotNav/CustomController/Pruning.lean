/-
What is left of the plan, and the target on it.

`nearestIdx` and `targetIdx` meet the specifications of the two scans, hence
`getNearestTargetPose` reads inside the plan and removes a front of it that
stops short of the last pose.  Along a run of calls the plan stays a non-empty
suffix of the one that was set.
-/
import RobotNav.CustomController.Controller
import RobotNav.Library.Scan

namespace RobotNav
namespace CustomController

variable {K : Type} [Arith K]

/-- The distances of the poses from `cur`, in the plan's order. -/
def distances (m : Maths K) (poses : List (PoseStamped K)) (cur : PoseStamped K) : List K :=
  poses.map fun p => distance m p cur

/-- The distance from each pose to the next. -/
def segments (m : Maths K) (poses : List (PoseStamped K)) : List K :=
  List.zipWith (distance m) poses.tail poses

/-- The length of the path from pose `i` to pose `j`. -/
def pathLength (m : Maths K) (poses : List (PoseStamped K)) (i j : ℕ) : K :=
  runningSum (lit 0) ((segments m poses).drop i) (j - i)

/-- `n` is the first pose at the least distance, or pose 0 when none is nearer
than 1e9. -/
def Nearest (m : Maths K) (poses : List (PoseStamped K)) (cur : PoseStamped K) (n : ℕ) : Prop :=
  Least (lit 1000000000) (distances m poses cur) n

/-- `t` is the first pose after `n` that is `lookaheadDist` of path away from it,
or the last pose. -/
def Target (m : Maths K) (lookaheadDist : K) (poses : List (PoseStamped K)) (n t : ℕ) : Prop :=
  n ≤ t ∧ Reaches (lit 0) lookaheadDist ((segments m poses).drop n) (t - n)

@[simp] theorem length_segments (m : Maths K) (poses : List (PoseStamped K)) :
    (segments m poses).length = poses.length - 1 := by
  simp [segments]

theorem segments_drop (m : Maths K) (poses : List (PoseStamped K)) (n : ℕ) :
    segments m (poses.drop n) = (segments m poses).drop n := by
  simp only [segments, List.drop_zipWith, List.tail_drop, List.drop_tail]

theorem segments_getElem? {m : Maths K} {poses : List (PoseStamped K)} {i : ℕ}
    {p next : PoseStamped K} (hp : poses[i]? = some p) (hnext : poses[i + 1]? = some next) :
    (segments m poses)[i]? = some (distance m next p) := by
  simp [segments, List.getElem?_zipWith, hp, hnext]

/-! ## The two scans -/

theorem nearestIdx_spec (m : Maths K) (poses : List (PoseStamped K)) (cur : PoseStamped K) :
    ∃ n, nearestIdx m poses cur = some n ∧ Nearest m poses cur n := by
  have hloop := loop_spec (nearestPass m poses cur) 0 poses.length (0, lit 1000000000)
    (fun i best => Scanned (lit 1000000000) (distances m poses cur) i best)
    (fun best => Least (lit 1000000000) (distances m poses cur) best.1)
    Scanned.start ?_ ?_
  · obtain ⟨best, hbest, hleast⟩ := hloop
    refine ⟨best.1, ?_, hleast⟩
    simp only [nearestIdx, hbest]
    rfl
  · intro i best _ hi hscan
    have hlt : i < poses.length := by omega
    have hp : poses[i]? = some poses[i] := List.getElem?_eq_getElem hlt
    refine ⟨_, by simp only [nearestPass, hp]; rfl, ?_⟩
    apply hscan.next
    simp only [distances, List.getElem?_map, hp, Option.map_some]
  · intro best hscan
    apply Scanned.least
    have hlen : (distances m poses cur).length = 0 + poses.length := by simp [distances]
    rw [hlen]
    exact hscan

theorem Nearest.lt_length {m : Maths K} {poses : List (PoseStamped K)} {cur : PoseStamped K}
    {n : ℕ} (h : Nearest m poses cur n) (hposes : poses ≠ []) : n < poses.length := by
  have hlt := Least.lt_length h (by simpa [distances] using hposes)
  simpa [distances] using hlt

/-- The lookahead after some passes: no pose seen so far is far enough. -/
def Looking (m : Maths K) (lookaheadDist : K) (poses : List (PoseStamped K)) (n i : ℕ)
    (s : ℕ × K) : Prop :=
  n ≤ i ∧ s = (n, pathLength m poses n i) ∧
    Short (lit 0) lookaheadDist ((segments m poses).drop n) (i - n)

/-- A pass of the lookahead that stays in front of the last pose. -/
theorem lookaheadPass_spec {m : Maths K} {lookaheadDist : K} {poses : List (PoseStamped K)}
    {n i : ℕ} {s : ℕ × K} (h : Looking m lookaheadDist poses n i s)
    (hi : i + 1 < poses.length) :
    ∃ r, lookaheadPass m lookaheadDist poses i s = some r ∧
      PassMeets (Looking m lookaheadDist poses n)
        (fun s => Target m lookaheadDist poses n (if s.1 = n then poses.length - 1 else s.1))
        i r := by
  obtain ⟨hni, rfl, hshort⟩ := h
  have hp : poses[i]? = some poses[i] := List.getElem?_eq_getElem (by omega)
  have hnext : poses[i + 1]? = some poses[i + 1] := List.getElem?_eq_getElem hi
  have hseg : ((segments m poses).drop n)[i - n]? =
      some (distance m poses[i + 1] poses[i]) := by
    rw [List.getElem?_drop, Nat.add_sub_cancel' hni]
    exact segments_getElem? hp hnext
  have hsum : pathLength m poses n i + distance m poses[i + 1] poses[i] =
      runningSum (lit 0) ((segments m poses).drop n) (i - n + 1) :=
    (runningSum_succ hseg).symm
  have hsub : i + 1 - n = i - n + 1 := by omega
  refine ⟨_, by simp only [lookaheadPass, hnext, hp]; rfl, ?_⟩
  rw [hsum]
  by_cases hreach : lookaheadDist ≤
      runningSum (lit 0) ((segments m poses).drop n) (i - n + 1)
  · rw [if_pos hreach]
    show Target m lookaheadDist poses n (if i + 1 = n then _ else i + 1)
    rw [if_neg (by omega : i + 1 ≠ n)]
    refine ⟨by omega, ?_⟩
    rw [hsub]
    apply hshort.reaches_next _ hreach
    rw [List.length_drop, length_segments]
    omega
  · rw [if_neg hreach]
    refine ⟨by omega, ?_, ?_⟩
    · rw [pathLength, hsub]
    · rw [hsub]
      exact hshort.next (not_le.mp hreach)

theorem targetIdx_spec (m : Maths K) (lookaheadDist : K) (poses : List (PoseStamped K)) (n : ℕ)
    (hn : n < poses.length) :
    ∃ t, targetIdx m lookaheadDist poses n = some t ∧ Target m lookaheadDist poses n t := by
  have hloop := loop_spec (lookaheadPass m lookaheadDist poses) n (poses.length - 1 - n)
    (n, lit 0) (Looking m lookaheadDist poses n)
    (fun s => Target m lookaheadDist poses n (if s.1 = n then poses.length - 1 else s.1))
    ?_ ?_ ?_
  · obtain ⟨s, hs, htarget⟩ := hloop
    refine ⟨_, ?_, htarget⟩
    simp only [targetIdx, hs]
    rfl
  · refine ⟨Nat.le_refl n, ?_, ?_⟩
    · simp [pathLength, runningSum]
    · rw [Nat.sub_self]
      exact Short.start
  · intro i s _ hi hlooking
    exact lookaheadPass_spec hlooking (by omega)
  · intro s hlooking
    have hlen : ((segments m poses).drop n).length = poses.length - 1 - n := by
      rw [List.length_drop, length_segments]
    have hlast : n + (poses.length - 1 - n) = poses.length - 1 := by omega
    rw [hlast] at hlooking
    obtain ⟨-, rfl, hshort⟩ := hlooking
    rw [if_pos rfl]
    refine ⟨by omega, ?_⟩
    rw [← hlen] at hshort ⊢
    exact hshort.reaches_all

theorem Target.lt_length {m : Maths K} {lookaheadDist : K} {poses : List (PoseStamped K)}
    {n t : ℕ} (h : Target m lookaheadDist poses n t) (hn : n < poses.length) :
    t < poses.length := by
  have hle := h.2.1
  rw [List.length_drop, length_segments] at hle
  have hnt := h.1
  omega

theorem Target.unique {m : Maths K} {lookaheadDist : K} {poses : List (PoseStamped K)}
    {n t t' : ℕ} (h : Target m lookaheadDist poses n t)
    (h' : Target m lookaheadDist poses n t') : t = t' := by
  have hsteps := h.2.unique h'.2
  have hle := h.1
  have hle' := h'.1
  omega

/-- `getNearestTargetPose` on a plan: every access is in range, and the plan
that is left starts at the nearest pose. -/
theorem getNearestTargetPose_spec (m : Maths K) (lookaheadDist : K)
    {poses : List (PoseStamped K)} (hposes : poses ≠ []) (cur : PoseStamped K) :
    ∃ n t target, Nearest m poses cur n ∧ Target m lookaheadDist poses n t ∧
      poses[t]? = some target ∧
      getNearestTargetPose m lookaheadDist poses cur = some (target, poses.drop n) := by
  by_cases hshort : poses.length < 2
  · -- one pose: it is the nearest one and the target
    obtain ⟨p, rfl⟩ : ∃ p, poses = [p] := by
      cases poses with
      | nil => exact absurd rfl hposes
      | cons p rest =>
        cases rest with
        | nil => exact ⟨p, rfl⟩
        | cons q rest => simp only [List.length_cons] at hshort; omega
    obtain ⟨n, -, hn⟩ := nearestIdx_spec m [p] cur
    obtain rfl : n = 0 := by
      have hlt := hn.lt_length hposes
      simpa using hlt
    obtain ⟨t, -, ht⟩ := targetIdx_spec m lookaheadDist [p] 0 (by simp)
    obtain rfl : t = 0 := by
      have hlt := ht.lt_length (by simp)
      simpa using hlt
    exact ⟨0, 0, p, hn, ht, rfl, rfl⟩
  · obtain ⟨n, hnearest, hn⟩ := nearestIdx_spec m poses cur
    have hnlt := hn.lt_length hposes
    obtain ⟨t, htarget, ht⟩ := targetIdx_spec m lookaheadDist poses n hnlt
    have htlt := ht.lt_length hnlt
    have hget : poses[t]? = some poses[t] := List.getElem?_eq_getElem htlt
    have hpruned : (poses.drop n)[t - n]? = some poses[t] := by
      rw [List.getElem?_drop, Nat.add_sub_cancel' ht.1]
      exact hget
    have hguard : n ≤ poses.length ∧ n ≤ t := ⟨Nat.le_of_lt hnlt, ht.1⟩
    refine ⟨n, t, poses[t], hn, ht, hget, ?_⟩
    simp only [getNearestTargetPose, if_neg hshort, hnearest, htarget, guard, if_pos hguard,
      Option.bind_eq_bind, Option.bind_some, hpruned]
    rfl

/-! ## One call -/

theorem getLast?_drop_of_lt {α : Type} {l : List α} {n : ℕ} (h : n < l.length) :
    (l.drop n).getLast? = l.getLast? := by
  rw [List.getLast?_drop, if_neg (Nat.not_le.mpr h)]

/-- A call with a plan and a transform steers for the target on the pruned
plan. -/
theorem computeVelocityCommands_spec (m : Maths K) {c : Controller K}
    (hplan : c.globalPlan.poses ≠ []) {call : Call K} {cur : PoseStamped K}
    (hcur : call.inPlanFrame = some cur) :
    ∃ n t target final, Nearest m c.globalPlan.poses cur n ∧
      Target m c.lookaheadDist c.globalPlan.poses n t ∧
      c.globalPlan.poses[t]? = some target ∧ c.globalPlan.poses.getLast? = some final ∧
      computeVelocityCommands m c call =
        let (c', sent) := steer m
          { c with globalPlan := { c.globalPlan with poses := c.globalPlan.poses.drop n } }
          call.pose.frameId cur target final
        (c', .ok sent) := by
  obtain ⟨n, t, target, hn, ht, hget, hpruned⟩ :=
    getNearestTargetPose_spec m c.lookaheadDist hplan cur
  have hlast : c.globalPlan.poses.getLast? = some (c.globalPlan.poses.getLast hplan) :=
    List.getLast?_eq_some_getLast hplan
  have hpruneLast := getLast?_drop_of_lt (hn.lt_length hplan)
  have hempty : c.globalPlan.poses.isEmpty = false := by simpa using hplan
  refine ⟨n, t, target, _, hn, ht, hget, hlast, ?_⟩
  simp only [computeVelocityCommands, hempty, hcur, hpruned, hpruneLast, hlast]
  rfl

/-- What a call does to the plan, and that none of its accesses is out of
range. -/
theorem computeVelocityCommands_plan (m : Maths K) {c : Controller K}
    (hplan : c.globalPlan.poses ≠ []) (call : Call K) :
    ∃ n < c.globalPlan.poses.length,
      (computeVelocityCommands m c call).1.globalPlan.poses = c.globalPlan.poses.drop n ∧
      (computeVelocityCommands m c call).1.lookaheadDist = c.lookaheadDist ∧
      (computeVelocityCommands m c call).2 ≠ .error .outOfRange := by
  have hempty : c.globalPlan.poses.isEmpty = false := by simpa using hplan
  cases hcur : call.inPlanFrame with
  | none =>
    refine ⟨0, List.length_pos_iff.mpr hplan, ?_⟩
    simp only [computeVelocityCommands, hempty, hcur]
    refine ⟨rfl, rfl, ?_⟩
    intro hreply
    cases hreply
  | some cur =>
    obtain ⟨n, t, target, final, hn, -, -, -, hcall⟩ :=
      computeVelocityCommands_spec m hplan hcur
    rw [hcall]
    refine ⟨n, hn.lt_length hplan, rfl, rfl, ?_⟩
    intro hreply
    cases hreply

/-! ## Every run of calls -/

/-- The controller after a run of calls. -/
def afterCalls (m : Maths K) (c : Controller K) (calls : List (Call K)) : Controller K :=
  (plugin m).run c (calls.map .computeVelocityCommands)

/-- The plan of `c` is a non-empty suffix of `poses`. -/
def Follows (poses : List (PoseStamped K)) (c : Controller K) : Prop :=
  c.globalPlan.poses ≠ [] ∧ c.globalPlan.poses <:+ poses

theorem Follows.call {m : Maths K} {poses : List (PoseStamped K)} {c : Controller K}
    (h : Follows poses c) (call : Call K) :
    Follows poses (computeVelocityCommands m c call).1 := by
  obtain ⟨n, hn, hpruned, -, -⟩ := computeVelocityCommands_plan m h.1 call
  constructor
  · rw [hpruned]
    intro hnil
    have hlen := congrArg List.length hnil
    rw [List.length_drop, List.length_nil] at hlen
    omega
  · rw [hpruned]
    exact (List.drop_suffix n _).trans h.2

omit [Arith K] in
theorem Follows.getLast? {poses : List (PoseStamped K)} {c : Controller K}
    (h : Follows poses c) : c.globalPlan.poses.getLast? = poses.getLast? := by
  obtain ⟨front, hfront⟩ := h.2
  rw [← hfront, List.getLast?_append_of_ne_nil front h.1]

theorem Follows.afterCalls {m : Maths K} {poses : List (PoseStamped K)} {c : Controller K}
    (h : Follows poses c) (calls : List (Call K)) :
    Follows poses (afterCalls m c calls) := by
  induction calls generalizing c with
  | nil => exact h
  | cons call rest ih => exact ih (h.call call)

theorem lookaheadDist_afterCalls {m : Maths K} {poses : List (PoseStamped K)}
    {c : Controller K} (h : Follows poses c) (calls : List (Call K)) :
    (afterCalls m c calls).lookaheadDist = c.lookaheadDist := by
  induction calls generalizing c with
  | nil => rfl
  | cons call rest ih =>
    obtain ⟨n, -, -, hlook, -⟩ := computeVelocityCommands_plan m h.1 call
    exact (ih (h.call call)).trans hlook

theorem plan_suffix_and_target (m : Maths K) (c : Controller K) (p : Path K)
    (hp : p.poses ≠ []) (calls : List (Call K)) (cur : PoseStamped K) :
    let plan := (afterCalls m (setPlan p c) calls).globalPlan.poses
    plan ≠ [] ∧ plan <:+ p.poses ∧ plan.getLast? = p.poses.getLast? ∧
      (∀ call, (computeVelocityCommands m (afterCalls m (setPlan p c) calls) call).2 ≠
        .error .outOfRange) ∧
      ∃ n t target, Nearest m plan cur n ∧ Target m c.lookaheadDist plan n t ∧
        plan[t]? = some target ∧
        getNearestTargetPose m (afterCalls m (setPlan p c) calls).lookaheadDist plan cur =
          some (target, plan.drop n) := by
  intro plan
  have hset : Follows p.poses (setPlan p c) := ⟨hp, List.suffix_refl _⟩
  have hrun := hset.afterCalls (m := m) calls
  have hlook : (afterCalls m (setPlan p c) calls).lookaheadDist = c.lookaheadDist :=
    lookaheadDist_afterCalls hset calls
  refine ⟨hrun.1, hrun.2, hrun.getLast?, ?_, ?_⟩
  · intro call
    obtain ⟨n, -, -, -, hreply⟩ := computeVelocityCommands_plan m hrun.1 call
    exact hreply
  · rw [hlook]
    exact getNearestTargetPose_spec m c.lookaheadDist hrun.1 cur

/-! ## Calls from one place -/

theorem distance_congr (m : Maths K) (p : PoseStamped K) {cur cur' : PoseStamped K}
    (hx : cur'.x = cur.x) (hy : cur'.y = cur.y) : distance m p cur' = distance m p cur := by
  rw [distance, distance, hx, hy]

theorem Nearest.congr {m : Maths K} {poses : List (PoseStamped K)} {cur cur' : PoseStamped K}
    (hx : cur'.x = cur.x) (hy : cur'.y = cur.y) {n : ℕ} (h : Nearest m poses cur' n) :
    Nearest m poses cur n := by
  have hdist : distances m poses cur' = distances m poses cur :=
    List.map_congr_left fun p _ => distance_congr m p hx hy
  rw [Nearest, ← hdist]
  exact h

theorem Nearest.drop {m : Maths K} {poses : List (PoseStamped K)} {cur : PoseStamped K} {n : ℕ}
    (h : Nearest m poses cur n) : Nearest m (poses.drop n) cur 0 := by
  have hleast := Least.drop h
  rw [distances, ← List.map_drop] at hleast
  exact hleast

theorem Target.drop {m : Maths K} {lookaheadDist : K} {poses : List (PoseStamped K)} {n t : ℕ}
    (h : Target m lookaheadDist poses n t) :
    Target m lookaheadDist (poses.drop n) 0 (t - n) := by
  refine ⟨Nat.zero_le _, ?_⟩
  rw [segments_drop]
  exact h.2

/-- What the controller steers for from the place of `cur`: the target and the
final pose. -/
def Aims (m : Maths K) (cur : PoseStamped K) (c : Controller K) (target final : PoseStamped K) :
    Prop :=
  ∃ n t, Nearest m c.globalPlan.poses cur n ∧ Target m c.lookaheadDist c.globalPlan.poses n t ∧
    c.globalPlan.poses[t]? = some target ∧ c.globalPlan.poses.getLast? = some final

theorem exists_aims (m : Maths K) (cur : PoseStamped K) {c : Controller K}
    {final : PoseStamped K} (hfinal : c.globalPlan.poses.getLast? = some final) :
    ∃ target, Aims m cur c target final := by
  have hplan : c.globalPlan.poses ≠ [] := by
    intro hnil
    rw [hnil] at hfinal
    cases hfinal
  obtain ⟨n, t, target, hn, ht, hget, -⟩ :=
    getNearestTargetPose_spec m c.lookaheadDist hplan cur
  exact ⟨target, n, t, hn, ht, hget, hfinal⟩

theorem Aims.ne_nil {m : Maths K} {cur : PoseStamped K} {c : Controller K}
    {target final : PoseStamped K} (h : Aims m cur c target final) :
    c.globalPlan.poses ≠ [] := by
  obtain ⟨n, t, -, -, -, hfinal⟩ := h
  intro hnil
  rw [hnil] at hfinal
  cases hfinal

/-- Pruning the plan does not change what the controller steers for from where
it stands. -/
theorem Aims.drop {m : Maths K} {cur : PoseStamped K} {c : Controller K}
    {target final : PoseStamped K} {n t : ℕ} (hn : Nearest m c.globalPlan.poses cur n)
    (ht : Target m c.lookaheadDist c.globalPlan.poses n t)
    (hget : c.globalPlan.poses[t]? = some target)
    (hfinal : c.globalPlan.poses.getLast? = some final) (hplan : c.globalPlan.poses ≠ []) :
    Aims m cur
      { c with globalPlan := { c.globalPlan with poses := c.globalPlan.poses.drop n } }
      target final := by
  refine ⟨0, t - n, hn.drop, ht.drop, ?_, ?_⟩
  · show (c.globalPlan.poses.drop n)[t - n]? = some target
    rw [List.getElem?_drop, Nat.add_sub_cancel' ht.1]
    exact hget
  · show (c.globalPlan.poses.drop n).getLast? = some final
    rw [getLast?_drop_of_lt (hn.lt_length hplan)]
    exact hfinal

/-- A call from a place steers for what the controller aims at from there, and
aims at the same afterwards. -/
theorem Aims.call {m : Maths K} {cur : PoseStamped K} {c : Controller K}
    {target final : PoseStamped K} (h : Aims m cur c target final) (call : Call K)
    (cur' : PoseStamped K) (hcall : call.inPlanFrame = some cur') (hx : cur'.x = cur.x)
    (hy : cur'.y = cur.y) :
    ∃ pruned : Path K, Aims m cur { c with globalPlan := pruned } target final ∧
      computeVelocityCommands m c call =
        let (c', sent) := steer m { c with globalPlan := pruned } call.pose.frameId cur' target
          final
        (c', .ok sent) := by
  have hplan := h.ne_nil
  obtain ⟨n, t, hn, ht, hget, hfinal⟩ := h
  obtain ⟨n', t', target', final', hn', ht', hget', hfinal', hresult⟩ :=
    computeVelocityCommands_spec m hplan hcall
  obtain rfl : n' = n := (hn'.congr hx hy).unique hn
  obtain rfl : t' = t := ht'.unique ht
  obtain rfl : target' = target := Option.some.inj (hget'.symm.trans hget)
  obtain rfl : final' = final := Option.some.inj (hfinal'.symm.trans hfinal)
  exact ⟨_, Aims.drop hn ht hget hfinal hplan, hresult⟩

/-! ## A robot far away -/

/-- A pose on the x axis, facing along it. -/
def onAxis (x : ℝ) : PoseStamped ℝ := ⟨"map", x, 0, 0, ⟨0, 0, 0, 1⟩⟩

def axisPlan : List (PoseStamped ℝ) := [onAxis (-1), onAxis 0, onAxis 1]

theorem axisPlan_follows :
    let m := realMaths planarYaw id
    let c := setPlan ⟨"map", axisPlan⟩ ((plugin m).init)
    let calls := [⟨onAxis 1, some (onAxis 1)⟩, ⟨onAxis 0, none⟩]
    let plan := (afterCalls m c calls).globalPlan.poses
    plan ≠ [] ∧ plan <:+ axisPlan ∧ plan.getLast? = axisPlan.getLast? ∧
      (∀ call, (computeVelocityCommands m (afterCalls m c calls) call).2 ≠ .error .outOfRange) ∧
      ∃ n t target, Nearest m plan (onAxis 0) n ∧ Target m (ratio 8 10) plan n t ∧
        plan[t]? = some target ∧
        getNearestTargetPose m (afterCalls m c calls).lookaheadDist plan (onAxis 0) =
          some (target, plan.drop n) :=
  plan_suffix_and_target (realMaths planarYaw id) _ ⟨"map", axisPlan⟩ (List.cons_ne_nil _ _) _ _

theorem distance_onAxis (getYaw : Quaternion ℝ → ℝ) (toFloat : ℝ → ℝ) (x y : ℝ) :
    distance (realMaths getYaw toFloat) (onAxis x) (onAxis y) = |x - y| := by
  show Real.sqrt ((x - y) ^ 2 + (0 - 0) ^ 2) = |x - y|
  rw [sub_self, zero_pow two_ne_zero, add_zero, Real.sqrt_sq_eq_abs]

theorem far_from_axisPlan {p : PoseStamped ℝ} (hp : p ∈ axisPlan) :
    (lit 1000000000 : ℝ) ≤ distance (realMaths planarYaw id) p (onAxis 2000000000) ∧
      (p ≠ onAxis 1 → distance (realMaths planarYaw id) (onAxis 1) (onAxis 2000000000) <
        distance (realMaths planarYaw id) p (onAxis 2000000000)) := by
  have hcases : p = onAxis (-1) ∨ p = onAxis 0 ∨ p = onAxis 1 := by simpa [axisPlan] using hp
  simp only [lit]
  rcases hcases with rfl | rfl | rfl
  · rw [distance_onAxis, distance_onAxis]
    norm_num [abs_of_neg]
  · rw [distance_onAxis, distance_onAxis]
    norm_num [abs_of_neg]
  · rw [distance_onAxis]
    norm_num [abs_of_neg]

theorem axisPlan_target : Target (realMaths planarYaw id) (ratio 8 10) axisPlan 0 1 := by
  have hseg : segments (realMaths planarYaw id) axisPlan = [|0 - -1|, |1 - 0|] := by
    simp only [segments, axisPlan, List.tail_cons, List.zipWith_cons_cons,
      List.zipWith_nil_left, distance_onAxis]
  refine ⟨Nat.zero_le 1, ?_⟩
  rw [hseg]
  refine ⟨by simp, fun j hpos hj => by omega, .inl ⟨Nat.one_pos, ?_⟩⟩
  simp only [ratio, runningSum, lit]
  norm_num

/-- Seen from 2e9 the nearest pose is the last one, and so the target would be
the final pose.  No distance is below the 1e9 the scan starts with, and the
lookahead is measured from pose 0. -/
theorem farRobot_targets_early_pose :
    let m := realMaths planarYaw id
    getNearestTargetPose m (ratio 8 10) axisPlan (onAxis 2000000000) =
        some (onAxis 0, axisPlan) ∧
      (∀ p ∈ axisPlan, p ≠ onAxis 1 → distance m (onAxis 1) (onAxis 2000000000) <
        distance m p (onAxis 2000000000)) ∧
      axisPlan.getLast? = some (onAxis 1) ∧ onAxis 0 ≠ onAxis 1 := by
  intro m
  obtain ⟨n, t, target, hn, ht, hget, hresult⟩ :=
    getNearestTargetPose_spec m (ratio 8 10) (List.cons_ne_nil _ _ : axisPlan ≠ [])
      (onAxis 2000000000)
  have hfirst : Nearest m axisPlan (onAxis 2000000000) 0 := by
    refine .inr ⟨rfl, ?_⟩
    intro j y hy
    have hmem := List.mem_of_getElem? hy
    obtain ⟨p, hp, rfl⟩ := List.mem_map.mp hmem
    exact (far_from_axisPlan hp).1
  obtain rfl : n = 0 := hn.unique hfirst
  obtain rfl : t = 1 := ht.unique axisPlan_target
  have htarget : target = onAxis 0 := Option.some.inj (hget.symm.trans rfl)
  rw [htarget] at hresult
  refine ⟨hresult, fun p hp hne => (far_from_axisPlan hp).2 hne, rfl, ?_⟩
  intro heq
  have hx : (0 : ℝ) = 1 := congrArg PoseStamped.x heq
  norm_num at hx

end CustomController
end RobotNav
