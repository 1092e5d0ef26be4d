/-
`createPlan`: from two poses to a path.

The parent chain of the accepted node becomes a list of poses, which is thinned
out by line of sight and filled up again by interpolation.  What nav2 does, the
conversions between world and map and the line iterator, are parameters.
-/
import RobotNav.Messages
import RobotNav.CustomPlanner.Expansion
import RobotNav.Library.Bresenham
import Mathlib.Algebra.Order.Ring.Rat
import Mathlib.Data.Rat.Floor
import Mathlib.Data.Nat.Sqrt

namespace RobotNav
namespace CustomPlanner

structure Planner (K : Type) where
  costmap : Costmap
  globalFrame : String
  interpolationResolution : K
  hypot : K → K → K
  worldToMap : K → K → Option Cell
  mapToWorld : Cell → K × K
  /-- The cells `LineIterator` visits. -/
  lineIterator : Cell → Cell → List Cell

variable {K : Type} [Arith K] (p : Planner K)

def hasLineOfSight (a b : Cell) : Bool :=
  (p.lineIterator a b).all p.costmap.isSightValid

/-- The pose pushed for a node of the parent chain. -/
def poseAt (c : Cell) : PoseStamped K :=
  { frameId := p.globalFrame, x := (p.mapToWorld c).1, y := (p.mapToWorld c).2, z := lit 0,
    orientation := .unset }

/-! ## Smoothing -/

/-- The cell of a pose.  The source ignores the result of `worldToMap` here; a
pose outside the map would leave the coordinates unset. -/
def cellOf (pose : PoseStamped K) : Cell := (p.worldToMap pose.x pose.y).getD ⟨0, 0⟩

def visible (path : List (PoseStamped K)) (current target : ℕ) : Bool :=
  match path[current]?, path[target]? with
  | some a, some b => hasLineOfSight p (cellOf p a) (cellOf p b)
  | _, _ => false

/-- The inner loop, from `target` down: the farthest pose in sight, or else the
next one. -/
def nextIdx (path : List (PoseStamped K)) (current : ℕ) : ℕ → ℕ
  | 0 => current + 1
  | target + 1 =>
    if current < target + 1 then
      if visible p path current (target + 1) then target + 1 else nextIdx path current target
    else current + 1

/-- The indices the outer loop pushes after `current`, cut off after a number of
turns. -/
def keptAfter (path : List (PoseStamped K)) : ℕ → ℕ → List ℕ
  | 0, _ => []
  | fuel + 1, current =>
    if current < path.length - 1 then
      nextIdx p path current (path.length - 1) ::
        keptAfter path fuel (nextIdx p path current (path.length - 1))
    else []

def keptIndices (path : List (PoseStamped K)) : List ℕ := 0 :: keptAfter p path path.length 0

def smoothedPath (path : List (PoseStamped K)) : List (PoseStamped K) :=
  (keptIndices p path).filterMap fun i => path[i]?

/-! ## Interpolation -/

/-- `std::ceil`. -/
def ceil (x : K) : ℤ := -Arith.floor (-x)

/-- `static_cast<int>` of a whole number.  C++ leaves open what becomes of a number
an `int` cannot hold; on x86 it is the least `int`. -/
def castInt (i : ℤ) : ℤ := if -2 ^ 31 ≤ i ∧ i < 2 ^ 31 then i else -2 ^ 31

def numPoints (p1 p2 : PoseStamped K) : ℕ :=
  (max 1 (castInt (ceil
    (p.hypot (p2.x - p1.x) (p2.y - p1.y) / p.interpolationResolution)))).toNat

/-- The `j`-th of `n` points from `p1` towards `p2`. -/
def between (p1 p2 : PoseStamped K) (n j : ℕ) : PoseStamped K :=
  { p1 with
    x := p1.x + lit j * (p2.x - p1.x) / lit n
    y := p1.y + lit j * (p2.y - p1.y) / lit n }

def segmentPoints (p1 p2 : PoseStamped K) : List (PoseStamped K) :=
  (List.range (numPoints p p1 p2)).map (between p1 p2 (numPoints p p1 p2))

def interpolatedPath : List (PoseStamped K) → List (PoseStamped K)
  | p1 :: p2 :: rest => segmentPoints p p1 p2 ++ interpolatedPath (p2 :: rest)
  | rest => rest

/-! ## The plan -/

/-- `poses.front() = start` and `poses.back() = goal`. -/
def setEnds (start goal : PoseStamped K) (poses : List (PoseStamped K)) : List (PoseStamped K) :=
  (poses.set 0 start).set (poses.length - 1) goal

def planPoses (start goal : PoseStamped K) (path : List (PoseStamped K)) :
    List (PoseStamped K) :=
  setEnds start goal
    (if 2 < path.length then interpolatedPath p (smoothedPath p path) else path)

def wrongFrame : String := "坐标系错误"

def outsideMap : String := "目标不在地图内"

def noPath : String := "未能找到路径"

def Planner.query (start goal : Cell) : Query K :=
  { costmap := p.costmap, hypot := p.hypot, start := start, goal := goal }

def createPlan (choice : ℕ → ℕ) (start goal : PoseStamped K) : Except String (Path K) :=
  if start.frameId ≠ p.globalFrame ∨ goal.frameId ≠ p.globalFrame then .error wrongFrame
  else
    match p.worldToMap start.x start.y, p.worldToMap goal.x goal.y with
    | some s, some g =>
      match search (p.query s g) choice with
      | some n =>
        .ok { frameId := p.globalFrame, poses := planPoses p start goal (n.path.map (poseAt p)) }
      | none => .error noPath
    | _, _ => .error outsideMap

/-- A map of unit cells with a corner at the origin, with `hypot` rounded down to
six decimals. -/
def unitPlanner (m : Costmap) (resolution : ℚ) : Planner ℚ where
  costmap := m
  globalFrame := "map"
  interpolationResolution := resolution
  hypot := fun x y => (Nat.sqrt ⌊(x * x + y * y) * 10 ^ 12⌋.toNat : ℚ) / 10 ^ 6
  worldToMap := fun x y =>
    if 0 ≤ x ∧ x < m.sizeX ∧ 0 ≤ y ∧ y < m.sizeY then some ⟨⌊x⌋.toNat, ⌊y⌋.toNat⟩ else none
  mapToWorld := fun c => ((c.x : ℚ) + 1 / 2, (c.y : ℚ) + 1 / 2)
  lineIterator := fun a b =>
    (Bresenham.walk a.toPoint b.toPoint).map fun w => ⟨w.1.toNat, w.2.toNat⟩

/-- A pose in the frame of that map. -/
def mapPose (x y : ℚ) : PoseStamped ℚ :=
  { frameId := "map", x := x, y := y, z := 0, orientation := .unset }

/-! ## When a plan is found -/

variable {p}

/-- Both poses are in the global frame and lie in the cells `s` and `g`. -/
structure Locates (p : Planner K) (start goal : PoseStamped K) (s g : Cell) : Prop where
  startFrame : start.frameId = p.globalFrame
  goalFrame : goal.frameId = p.globalFrame
  startCell : p.worldToMap start.x start.y = some s
  goalCell : p.worldToMap goal.x goal.y = some g
  startInMap : p.costmap.InMap s
  goalInMap : p.costmap.InMap g

theorem createPlan_eq {start goal : PoseStamped K} {s g : Cell} (h : Locates p start goal s g)
    (choice : ℕ → ℕ) :
    createPlan p choice start goal =
      match search (p.query s g) choice with
      | some n =>
        .ok { frameId := p.globalFrame, poses := planPoses p start goal (n.path.map (poseAt p)) }
      | none => .error noPath := by
  rw [createPlan, if_neg (by rintro (hs | hg); exacts [hs h.startFrame, hg h.goalFrame])]
  rw [h.startCell, h.goalCell]

/-- For every order of ties: a plan is found exactly when there is a path of
neighbouring cells, valid after the first; otherwise the call throws.  The
parent chain of the accepted goal node is such a path, and visits no cell twice. -/
theorem createPlan_finds_iff (p : Planner K) (choice : ℕ → ℕ) (start goal : PoseStamped K)
    (s g : Cell) (h : Locates p start goal s g) :
    ((∃ plan, createPlan p choice start goal = .ok plan) ↔
      ∃ cells, HexPath p.costmap s g cells) ∧
    ((¬ ∃ cells, HexPath p.costmap s g cells) →
      createPlan p choice start goal = .error noPath) ∧
    ∀ n, search (p.query s g) choice = some n →
      n.cell = g ∧ HexPath p.costmap s g n.path ∧ n.path.Nodup := by
  have hs : (p.query s g).costmap.InMap (p.query s g).start := h.startInMap
  have hnone : search (p.query s g) choice = none → ¬ ∃ cells, HexPath p.costmap s g cells := by
    rintro hsearch ⟨cells, hcells⟩
    exact search_none hs hsearch cells hcells
  have heq := createPlan_eq h choice
  refine ⟨?_, ?_, ?_⟩
  · cases hsearch : search (p.query s g) choice with
    | none =>
      rw [heq, hsearch]
      refine iff_of_false ?_ (hnone hsearch)
      intro ⟨plan, hplan⟩
      cases hplan
    | some n =>
      rw [heq, hsearch]
      exact iff_of_true ⟨_, rfl⟩ ⟨n.path, (search_path hs hsearch).1⟩
  · intro hno
    cases hsearch : search (p.query s g) choice with
    | none => rw [heq, hsearch]
    | some n => exact absurd ⟨n.path, (search_path hs hsearch).1⟩ hno
  · intro n hsearch
    obtain ⟨hpath, hnodup⟩ := search_path hs hsearch
    exact ⟨search_goal hs hsearch, hpath, hnodup⟩

/-- A map of three by two cells that has one obstacle. -/
def cornerMap : Costmap where
  sizeX := 3
  sizeY := 2
  getCost := fun c => if c = ⟨1, 0⟩ then 254 else 0
  cells_lt := by decide

theorem cornerMap_finds :
    (∃ plan, createPlan (unitPlanner cornerMap 1) (fun _ => 0) (mapPose (1 / 2) (1 / 2))
      (mapPose (5 / 2) (3 / 2)) = .ok plan) ↔ ∃ cells, HexPath cornerMap ⟨0, 0⟩ ⟨2, 1⟩ cells :=
  (createPlan_finds_iff (unitPlanner cornerMap 1) (fun _ => 0) (mapPose (1 / 2) (1 / 2))
    (mapPose (5 / 2) (3 / 2)) ⟨0, 0⟩ ⟨2, 1⟩
    ⟨rfl, rfl, by decide +kernel, by decide +kernel, by decide +kernel, by decide +kernel⟩).1

end CustomPlanner
end RobotNav
