/-
The waypoint dispatcher `nav_manager_node`.

A `/cmd_mode` message names a waypoint; the node sends its pose to the
`navigate_to_pose` action server and, when a result SUCCEEDED arrives,
publishes a mode on `/cmd_vel_mode`.  The published mode is read from the one
field `current_mode_`, which every known command overwrites, also the commands
whose goal was never sent.

The events are those of the action client: a command together with the outcome
of `wait_for_action_server`, the server's response to a goal, and the result of
an accepted goal.  A response or a result for a goal that is not waiting for one
is no event of the action protocol and leaves the node as it is, so that every
list of events is a run and every interleaving is a list of events.
-/
import RobotNav.Library.Machine
import Mathlib.Analysis.SpecialFunctions.Trigonometric.Basic

namespace RobotNav
namespace NavManager

/-- A waypoint: the pose (X, Y, Yaw) of the base and a mode number. -/
structure Waypoint where
  x : ℚ
  y : ℚ
  yaw : ℚ
  mode : UInt8
  deriving DecidableEq

def targetLocations : List (String × Waypoint) :=
  [("模式0", ⟨0, 0, 0, 0⟩),
   ("模式1", ⟨2, 2, 0, 1⟩),
   ("模式2", ⟨3, 3, 3, 2⟩),
   ("模式3", ⟨5, -2, -1.57, 3⟩),
   ("模式4", ⟨5, -3, -1.57, 4⟩),
   ("模式5", ⟨-4, -4, 3.14, 5⟩),
   ("模式6", ⟨1.5, 4.2, 1.57, 6⟩),
   ("模式7", ⟨3.2, -1.5, 0, 7⟩),
   ("模式8", ⟨6.1, 0.5, 1.57, 8⟩),
   ("模式9", ⟨6.1, 2.5, 1.57, 9⟩)]

def targetName (mode : UInt8) : String := "模式" ++ toString mode.toNat

/-- The lookup of `mode_callback`; `none` is an unknown mode. -/
def findTarget (mode : UInt8) : Option Waypoint := targetLocations.lookup (targetName mode)

/-! ## The goal message -/

/-- The fields of a `NavigateToPose` goal that `send_nav_goal` fills in, the
stamp apart. -/
structure GoalMsg where
  frameId : String
  x : ℝ
  y : ℝ
  qx : ℝ
  qy : ℝ
  qz : ℝ
  qw : ℝ

noncomputable def yawToQuaternion (yaw : ℝ) : ℝ × ℝ × ℝ × ℝ :=
  (0, 0, Real.sin (yaw / 2), Real.cos (yaw / 2))

noncomputable def goalMsg (x y yaw : ℚ) : GoalMsg :=
  let (qx, qy, qz, qw) := yawToQuaternion yaw
  { frameId := "map", x := x, y := y, qx := qx, qy := qy, qz := qz, qw := qw }

/-- The orientation of every goal is a unit quaternion about the vertical axis,
and it turns by the yaw it was built from. -/
theorem goalMsg_orientation (x y yaw : ℚ) :
    (goalMsg x y yaw).qx = 0 ∧ (goalMsg x y yaw).qy = 0 ∧
      (goalMsg x y yaw).qz ^ 2 + (goalMsg x y yaw).qw ^ 2 = 1 ∧
      2 * (goalMsg x y yaw).qw * (goalMsg x y yaw).qz = Real.sin yaw ∧
      (goalMsg x y yaw).qw ^ 2 - (goalMsg x y yaw).qz ^ 2 = Real.cos yaw := by
  have hyaw : (yaw : ℝ) = 2 * (yaw / 2) := by ring
  refine ⟨rfl, rfl, Real.sin_sq_add_cos_sq _, ?_, ?_⟩
  · conv_rhs => rw [hyaw, Real.sin_two_mul]
    simp only [goalMsg, yawToQuaternion]
    ring
  · conv_rhs => rw [hyaw, Real.cos_two_mul']
    simp only [goalMsg, yawToQuaternion]

/-! ## The node -/

inductive ResultCode where
  | unknown
  | succeeded
  | canceled
  | aborted
  deriving DecidableEq

/-- A goal the client has sent, with the waypoint it was sent for.  The node
keeps no such record: the action client does, and the waypoint is what a result
is traced back to. -/
structure Goal where
  id : ℕ
  waypoint : Waypoint
  accepted : Bool
  deriving DecidableEq

structure State where
  currentMode : UInt8
  /-- The goals still waiting for their response or their result. -/
  goals : List Goal
  nextId : ℕ
  deriving DecidableEq

inductive Event where
  /-- A `/cmd_mode` message, and whether `wait_for_action_server` succeeds. -/
  | cmdMode (data : UInt8) (serverReady : Bool)
  /-- The server accepts or rejects a goal. -/
  | goalResponse (id : ℕ) (accepted : Bool)
  /-- The result of an accepted goal. -/
  | result (id : ℕ) (code : ResultCode)
  deriving DecidableEq

inductive Output where
  /-- `async_send_goal` of the pose `(x, y, yaw)`. -/
  | sendGoal (id : ℕ) (x y yaw : ℚ)
  /-- The data published on `/cmd_vel_mode`, with the goal whose result
  published it. -/
  | cmdVelMode (goal : Goal) (data : List ℚ)
  deriving DecidableEq

def sendNavGoal (s : State) (wp : Waypoint) (serverReady : Bool) : State × List Output :=
  if serverReady then
    ({ s with
        goals := s.goals ++ [{ id := s.nextId, waypoint := wp, accepted := false }]
        nextId := s.nextId + 1 },
      [.sendGoal s.nextId wp.x wp.y wp.yaw])
  else (s, [])

def modeCallback (s : State) (mode : UInt8) (serverReady : Bool) : State × List Output :=
  match findTarget mode with
  | none => (s, [])
  | some wp => sendNavGoal { s with currentMode := wp.mode } wp serverReady

/-- The lambda `result_callback`: only SUCCEEDED publishes. -/
def resultCallback (s : State) (goal : Goal) : ResultCode → List Output
  | .succeeded => [.cmdVelMode goal [0, 0, 0, (s.currentMode.toNat : ℚ)]]
  | .aborted => []
  | .canceled => []
  | .unknown => []

/-- The goal waiting for its response, if `id` is one. -/
def State.awaitingResponse (s : State) (id : ℕ) : Option Goal :=
  s.goals.find? fun g => g.id == id && !g.accepted

/-- The goal waiting for its result, if `id` is one. -/
def State.awaitingResult (s : State) (id : ℕ) : Option Goal :=
  s.goals.find? fun g => g.id == id && g.accepted

def State.dropGoal (s : State) (id : ℕ) : State :=
  { s with goals := s.goals.filter fun g => g.id != id }

def State.acceptGoal (s : State) (id : ℕ) : State :=
  { s with goals := s.goals.map fun g => if g.id == id then { g with accepted := true } else g }

def step (s : State) : Event → State × List Output
  | .cmdMode data serverReady => modeCallback s data serverReady
  | .goalResponse id accepted =>
    match s.awaitingResponse id with
    | none => (s, [])
    | some _ => (if accepted then s.acceptGoal id else s.dropGoal id, [])
  | .result id code =>
    match s.awaitingResult id with
    | none => (s, [])
    | some goal => (s.dropGoal id, resultCallback s goal code)

def node : Machine State Event (List Output) where
  init := { currentMode := 0, goals := [], nextId := 0 }
  step := step

/-! ## Where the goals come from -/

/-- The waypoint of a command that is known and finds the server ready: the
commands that send a goal. -/
def sentWaypoint : Event → Option Waypoint
  | .cmdMode data true => findTarget data
  | _ => none

/-- The waypoints goals were sent for, in order: goal `i` was sent for entry
`i`. -/
def sentWaypoints (es : List Event) : List Waypoint := es.filterMap sentWaypoint

/-- Every goal the client waits for carries the waypoint it was sent for. -/
structure Traced (es : List Event) (s : State) : Prop where
  nextId : s.nextId = (sentWaypoints es).length
  goals : ∀ g ∈ s.goals, (sentWaypoints es)[g.id]? = some g.waypoint

theorem Traced.congr {es es' : List Event} {s s' : State} (h : Traced es s)
    (hes : sentWaypoints es' = sentWaypoints es) (hid : s'.nextId = s.nextId)
    (hg : ∀ g ∈ s'.goals, ∃ g₀ ∈ s.goals, g₀.id = g.id ∧ g₀.waypoint = g.waypoint) :
    Traced es' s' := by
  refine ⟨by rw [hid, hes, h.nextId], ?_⟩
  intro g hmem
  obtain ⟨g₀, hmem₀, hgid, hgwp⟩ := hg g hmem
  rw [hes, ← hgid, ← hgwp]
  exact h.goals g₀ hmem₀

theorem mem_dropGoal {s : State} {id : ℕ} {g : Goal} (hg : g ∈ (s.dropGoal id).goals) :
    g ∈ s.goals :=
  (List.mem_filter.mp hg).1

theorem mem_acceptGoal {s : State} {id : ℕ} {g : Goal} (hg : g ∈ (s.acceptGoal id).goals) :
    ∃ g₀ ∈ s.goals, g₀.id = g.id ∧ g₀.waypoint = g.waypoint := by
  obtain ⟨g₀, hmem, rfl⟩ := List.mem_map.mp hg
  refine ⟨g₀, hmem, ?_⟩
  split <;> exact ⟨rfl, rfl⟩

theorem modeCallback_traced {es : List Event} {s : State} (h : Traced es s)
    (data : UInt8) (serverReady : Bool) :
    Traced (es ++ [.cmdMode data serverReady]) (modeCallback s data serverReady).1 := by
  rw [modeCallback]
  cases hfind : findTarget data with
  | none =>
    have hes : sentWaypoints (es ++ [.cmdMode data serverReady]) = sentWaypoints es := by
      cases serverReady <;> simp [sentWaypoints, sentWaypoint, hfind]
    exact h.congr hes rfl fun g hg => ⟨g, hg, rfl, rfl⟩
  | some wp =>
    cases serverReady with
    | false =>
      have hes : sentWaypoints (es ++ [.cmdMode data false]) = sentWaypoints es := by
        simp [sentWaypoints, sentWaypoint]
      exact h.congr hes rfl fun g hg => ⟨g, hg, rfl, rfl⟩
    | true =>
      have hes : sentWaypoints (es ++ [.cmdMode data true]) = sentWaypoints es ++ [wp] := by
        simp [sentWaypoints, sentWaypoint, hfind]
      constructor
      · simp only [sendNavGoal, if_true]
        rw [hes, List.length_append, h.nextId]
        rfl
      · intro g hg
        simp only [sendNavGoal, if_true, List.mem_append, List.mem_singleton] at hg
        rw [hes]
        rcases hg with hold | rfl
        · -- an earlier goal keeps its place in the longer list
          have hget := h.goals g hold
          have hlt : g.id < (sentWaypoints es).length := (List.getElem?_eq_some_iff.mp hget).1
          rw [List.getElem?_append_left hlt]
          exact hget
        · rw [h.nextId, List.getElem?_append_right (Nat.le_refl _)]
          simp

theorem step_traced {es : List Event} {s : State} (h : Traced es s) (e : Event) :
    Traced (es ++ [e]) (step s e).1 := by
  cases e with
  | cmdMode data serverReady => exact modeCallback_traced h data serverReady
  | goalResponse id accepted =>
    have hes : sentWaypoints (es ++ [.goalResponse id accepted]) = sentWaypoints es := by
      simp [sentWaypoints, sentWaypoint]
    simp only [step]
    cases s.awaitingResponse id with
    | none => exact h.congr hes rfl fun g hg => ⟨g, hg, rfl, rfl⟩
    | some _ =>
      cases accepted with
      | false => exact h.congr hes rfl fun g hg => ⟨g, mem_dropGoal hg, rfl, rfl⟩
      | true => exact h.congr hes rfl fun g hg => mem_acceptGoal hg
  | result id code =>
    have hes : sentWaypoints (es ++ [.result id code]) = sentWaypoints es := by
      simp [sentWaypoints, sentWaypoint]
    simp only [step]
    cases s.awaitingResult id with
    | none => exact h.congr hes rfl fun g hg => ⟨g, hg, rfl, rfl⟩
    | some _ => exact h.congr hes rfl fun g hg => ⟨g, mem_dropGoal hg, rfl, rfl⟩

/-- In every run, goal `i` of the client was sent for the `i`-th waypoint that
was commanded while the server was ready. -/
theorem run_traced (es : List Event) : Traced es (node.run node.init es) := by
  induction es using List.reverseRecOn with
  | nil => exact ⟨rfl, fun g hg => absurd hg List.not_mem_nil⟩
  | append_singleton es e ih =>
    rw [Machine.run_snoc]
    exact step_traced ih e

/-! ## Which mode a result publishes -/

/-- The mode a command asks for, when it is known. -/
def commandedMode : Event → Option UInt8
  | .cmdMode data _ => (findTarget data).map Waypoint.mode
  | _ => none

/-- The mode of the last known command, sent or not; the node starts at 0. -/
def lastCommandedMode (es : List Event) : UInt8 :=
  es.foldl (fun mode e => (commandedMode e).getD mode) 0

theorem step_currentMode (s : State) (e : Event) :
    (step s e).1.currentMode = (commandedMode e).getD s.currentMode := by
  cases e with
  | cmdMode data serverReady =>
    simp only [step, modeCallback, commandedMode]
    cases findTarget data with
    | none => rfl
    | some wp => cases serverReady <;> rfl
  | goalResponse id accepted =>
    simp only [step, commandedMode]
    cases s.awaitingResponse id with
    | none => rfl
    | some _ => cases accepted <;> rfl
  | result id code =>
    simp only [step, commandedMode]
    cases s.awaitingResult id <;> rfl

theorem run_currentMode (es : List Event) :
    (node.run node.init es).currentMode = lastCommandedMode es := by
  induction es using List.reverseRecOn with
  | nil => rfl
  | append_singleton es e ih =>
    rw [Machine.run_snoc]
    show (step _ e).1.currentMode = _
    rw [step_currentMode, ih]
    simp [lastCommandedMode]

/-- The message a SUCCEEDED result of `goal` owes. -/
def modeMsg (mode : UInt8) : List ℚ := [0, 0, 0, (mode.toNat : ℚ)]

theorem modeMsg_inj {a b : UInt8} : modeMsg a = modeMsg b ↔ a = b := by
  simp only [modeMsg, List.cons.injEq, and_true, true_and, Nat.cast_inj]
  exact UInt8.toNat_inj

/-- Every message published in the run carries the mode of the waypoint whose
goal produced the result. -/
def ModesMatch (es : List Event) : Prop :=
  ∀ os ∈ node.outs node.init es, ∀ goal data,
    Output.cmdVelMode goal data ∈ os → data = modeMsg goal.waypoint.mode

/-- Whenever the goal sent for a waypoint succeeds, the last known command was
one for the mode of that waypoint. -/
def CommandsMatch (es : List Event) : Prop :=
  ∀ pre id post wp, es = pre ++ .result id .succeeded :: post →
    ((node.run node.init pre).awaitingResult id).isSome →
    (sentWaypoints pre)[id]? = some wp →
    lastCommandedMode pre = wp.mode

/-- The goal a result is for was sent for the waypoint of its number. -/
theorem awaitingResult_waypoint {es : List Event} {id : ℕ} {goal : Goal}
    (h : (node.run node.init es).awaitingResult id = some goal) :
    (sentWaypoints es)[id]? = some goal.waypoint := by
  have hid : goal.id = id := by
    have hfound := List.find?_some h
    simp only [Bool.and_eq_true, beq_iff_eq] at hfound
    exact hfound.1
  rw [← hid]
  exact (run_traced es).goals goal (List.mem_of_find?_eq_some h)

/-- Only a SUCCEEDED result of a goal that waits for it publishes, and it
publishes the current mode. -/
theorem mem_out_cmdVelMode {s : State} {e : Event} {goal : Goal} {data : List ℚ} :
    Output.cmdVelMode goal data ∈ node.out s e ↔
      ∃ id, e = .result id .succeeded ∧ s.awaitingResult id = some goal ∧
        data = modeMsg s.currentMode := by
  show _ ∈ (step s e).2 ↔ _
  cases e with
  | cmdMode mode serverReady =>
    simp only [step, modeCallback]
    cases findTarget mode with
    | none => simp
    | some wp => cases serverReady <;> simp [sendNavGoal]
  | goalResponse id accepted =>
    simp only [step]
    cases s.awaitingResponse id <;> simp
  | result id code =>
    simp only [step]
    cases hwait : s.awaitingResult id with
    | none =>
      simp only [List.not_mem_nil, false_iff, not_exists]
      rintro id' ⟨hid, hsome, -⟩
      obtain ⟨rfl, -⟩ := Event.result.inj hid
      rw [hwait] at hsome
      cases hsome
    | some g =>
      cases code with
      | succeeded =>
        simp only [resultCallback, List.mem_singleton, Output.cmdVelMode.injEq]
        constructor
        · rintro ⟨rfl, rfl⟩
          exact ⟨id, rfl, hwait, rfl⟩
        · rintro ⟨id', hid, hsome, rfl⟩
          obtain ⟨rfl, -⟩ := Event.result.inj hid
          rw [hwait] at hsome
          exact ⟨(Option.some.inj hsome).symm, rfl⟩
      | unknown => simp [resultCallback]
      | canceled => simp [resultCallback]
      | aborted => simp [resultCallback]

/-- Over every interleaving of commands, server outages, responses and results:
each published mode is that of its goal's waypoint exactly when no SUCCEEDED
result is overtaken by a known command for another mode. -/
theorem modesMatch_iff_commandsMatch (es : List Event) :
    ModesMatch es ↔ CommandsMatch es := by
  unfold ModesMatch CommandsMatch
  rw [Machine.outs_forall, Machine.along_iff]
  constructor
  · intro h pre id post wp hcut hwait hwp
    obtain ⟨goal, hgoal⟩ := Option.isSome_iff_exists.mp hwait
    have hpub := h pre _ post hcut goal (modeMsg (node.run node.init pre).currentMode)
      (mem_out_cmdVelMode.mpr ⟨id, rfl, hgoal, rfl⟩)
    rw [run_currentMode] at hpub
    rw [awaitingResult_waypoint hgoal] at hwp
    rw [← Option.some.inj hwp]
    exact modeMsg_inj.mp hpub
  · intro h pre e post hcut goal data hmem
    obtain ⟨id, rfl, hgoal, rfl⟩ := mem_out_cmdVelMode.mp hmem
    rw [run_currentMode, h pre id post goal.waypoint hcut
      (Option.isSome_iff_exists.mpr ⟨goal, hgoal⟩) (awaitingResult_waypoint hgoal)]

/-- Goal 0 drives to waypoint 1 when a command for waypoint 2 finds no server:
no goal is sent for it, yet the result of goal 0 is published as mode 2. -/
theorem overtaken_result_publishes_other_mode :
    ¬ ModesMatch [.cmdMode 1 true, .goalResponse 0 true, .cmdMode 2 false,
      .result 0 .succeeded] := by
  intro h
  have hpub := h [.cmdVelMode ⟨0, ⟨2, 2, 0, 1⟩, true⟩ [0, 0, 0, 2]] (by decide)
    ⟨0, ⟨2, 2, 0, 1⟩, true⟩ [0, 0, 0, 2] (by decide)
  exact absurd hpub (by decide)

end NavManager
end RobotNav
