/-
The recursive functions of `KD_TREE`, and the calls the mapping node makes.

`Rebuild` hands a subtree of `Multi_Thread_Rebuild_Point_Num` nodes or more to the
rebuild thread; that it did is all these functions say of the thread.
-/
import RobotNav.IkdTree.Tree

namespace RobotNav
namespace IkdTree

open PointType (coords)
open KdTree

def minimalUnbalancedTreeSize : ℕ := 10

def multiThreadRebuildPointNum : ℕ := 1500

variable {P K : Type} [Arith K] [PointType P K]

/-! ## `BuildTree` -/

/-- The list with a point at its place `n` by the coordinate on the axis, nothing
greater before it and nothing less behind it; the order is otherwise open, as with
`nth_element`. -/
structure NthElement (P K : Type) [Arith K] [PointType P K] where
  run : Fin 3 → P → List P → ℕ → List P × P × List P
  perm : ∀ axis p ps n, n ≤ ps.length →
    ((run axis p ps n).1 ++ (run axis p ps n).2.1 :: (run axis p ps n).2.2).Perm (p :: ps)
  length : ∀ axis p ps n, n ≤ ps.length → (run axis p ps n).1.length = n
  before : ∀ axis p ps n, n ≤ ps.length → ∀ q ∈ (run axis p ps n).1,
    coords q axis ≤ coords (run axis p ps n).2.1 axis
  after : ∀ axis p ps n, n ≤ ps.length → ∀ q ∈ (run axis p ps n).2.2,
    coords (run axis p ps n).2.1 axis ≤ coords q axis

/-- `dim_range`. -/
def dimRange (p : P) (ps : List P) (i : Fin 3) : K :=
  (ps.foldl (fun m q => max m (coords q i)) (coords p i)) -
    ps.foldl (fun m q => min m (coords q i)) (coords p i)

/-- The first of the longest axes. -/
def divisionAxis (p : P) (ps : List P) : Fin 3 :=
  let axis := if dimRange p ps 0 < dimRange p ps 1 then 1 else 0
  if dimRange p ps axis < dimRange p ps 2 then 2 else axis

/-- `InitTreeNode`, with a point and an axis. -/
def KdTreeNode.init (point : P) (axis : Fin 3) : KdTreeNode P K where
  point := point
  divisionAxis := axis
  treeSize := 0
  invalidPointNum := 0
  downDelNum := 0
  pointDeleted := false
  treeDeleted := false
  pointDownsampleDeleted := false
  treeDownsampleDeleted := false
  needPushDownToLeft := false
  needPushDownToRight := false
  workingFlag := false
  nodeRange := ⟨fun _ => lit 0, fun _ => lit 0⟩

/-- A new node above two subtrees. -/
def freshNode (point : P) (axis : Fin 3) (l r : KdTree P K) : KdTree P K :=
  node ((KdTreeNode.init point axis).update l r) l r

theorem NthElement.after_length (nth : NthElement P K) (axis : Fin 3) (p : P) {ps : List P}
    {n : ℕ} (hn : n ≤ ps.length) :
    (nth.run axis p ps n).1.length + (nth.run axis p ps n).2.2.length = ps.length := by
  have hperm := (nth.perm axis p ps n hn).length_eq
  simp only [List.length_append, List.length_cons] at hperm
  omega

/-- `BuildTree` on a stretch of the storage. -/
def buildTree (nth : NthElement P K) : List P → KdTree P K
  | [] => null
  | p :: ps =>
    let axis := divisionAxis p ps
    let parts := nth.run axis p ps (ps.length / 2)
    freshNode parts.2.1 axis (buildTree nth parts.1) (buildTree nth parts.2.2)
termination_by l => l.length
decreasing_by
  all_goals
    have hmid : ps.length / 2 ≤ ps.length := Nat.div_le_self _ _
    have hbefore := nth.length (divisionAxis p ps) p ps _ hmid
    have hafter := nth.after_length (divisionAxis p ps) p hmid
    simp only [List.length_cons]
    omega

/-! ## `Rebuild` -/

/-- The parameters of the tree. -/
structure KdTreeParams (K : Type) where
  deleteCriterionParam : K
  balanceCriterionParam : K

variable (params : KdTreeParams K) (nth : NthElement P K)

omit [PointType P K] in
/-- `Criterion_Check`. -/
def criterionCheck (n : KdTreeNode P K) (l r : KdTree P K) : Bool :=
  if n.treeSize ≤ minimalUnbalancedTreeSize then false
  else
    let son := if l.isNull then r else l
    let deleteEvaluation : K := lit n.invalidPointNum / lit n.treeSize
    let balanceEvaluation : K := lit son.treeSize / lit (n.treeSize - 1)
    decide (params.deleteCriterionParam < deleteEvaluation) ||
      decide (params.balanceCriterionParam < balanceEvaluation) ||
      decide (balanceEvaluation < lit 1 - params.balanceCriterionParam)

/-- What `Rebuild` leaves, and whether the thread is to rebuild it. -/
def rebuild (t : KdTree P K) : KdTree P K × Bool :=
  if multiThreadRebuildPointNum ≤ t.treeSize then (t, true)
  else (buildTree nth t.flatten.1, false)

def KdTree.stopWorking : KdTree P K → KdTree P K
  | null => null
  | node n l r => node { n with workingFlag := false } l r

/-- The end of a visit to a node, the same in all functions that change the tree. -/
def endVisit (allowRebuild : Bool) (n : KdTreeNode P K) (l r : KdTree P K) : KdTree P K × Bool :=
  let updated := node (n.update l r) l r
  if allowRebuild && criterionCheck params (n.update l r) l r then
    ((rebuild nth updated).1.stopWorking, (rebuild nth updated).2)
  else (updated.stopWorking, false)

/-! ## `Add_by_point` and `Delete_by_range` -/

omit [Arith K] [PointType P K] in
/-- A node as a visit works on it. -/
def KdTreeNode.working (n : KdTreeNode P K) (l r : KdTree P K) : KdTreeNode P K :=
  { n.pushed l r with workingFlag := true }

/-- `Add_by_point`: the tree, and whether a subtree went to the thread. -/
def addByPoint (allowRebuild : Bool) (point : P) : Fin 3 → KdTree P K → KdTree P K × Bool
  | fatherAxis, null => (freshNode point (fatherAxis + 1) null null, false)
  | _, node n l r =>
    if coords point n.divisionAxis < coords n.point n.divisionAxis then
      let left := addByPoint allowRebuild point n.divisionAxis (n.pushLeft l)
      let ended := endVisit params nth allowRebuild (n.working l r) left.1 (n.pushRight r)
      (ended.1, left.2 || ended.2)
    else
      let right := addByPoint allowRebuild point n.divisionAxis (n.pushRight r)
      let ended := endVisit params nth allowRebuild (n.working l r) (n.pushLeft l) right.1
      (ended.1, right.2 || ended.2)
termination_by _ t => t.count
decreasing_by
  all_goals
    simp only [count_pushLeft, count_pushRight, KdTree.count]
    omega

/-- A deletion in a subtree: what is left of it, how many points it took, and
whether a subtree went to the thread. -/
structure Deletion (P K : Type) where
  tree : KdTree P K
  counter : ℕ
  handed : Bool

/-- The box and the range of a node are apart. -/
def BoxPointType.misses (box range : BoxPointType K) : Prop :=
  ∃ i, box.vertexMax i ≤ range.vertexMin i ∨ range.vertexMax i < box.vertexMin i

instance (box range : BoxPointType K) : Decidable (box.misses range) :=
  inferInstanceAs (Decidable (∃ _, _))

/-- The box has all of the range of a node. -/
def BoxPointType.covers (box range : BoxPointType K) : Prop :=
  ∀ i, box.vertexMin i ≤ range.vertexMin i ∧ range.vertexMax i < box.vertexMax i

instance (box range : BoxPointType K) : Decidable (box.covers range) :=
  inferInstanceAs (Decidable (∀ _, _))

omit [Arith K] [PointType P K] in
/-- A subtree deleted as a whole. -/
def KdTreeNode.deleteTree (isDownsample : Bool) (n : KdTreeNode P K) : KdTreeNode P K :=
  { n with
    treeDeleted := true
    pointDeleted := true
    needPushDownToLeft := true
    needPushDownToRight := true
    invalidPointNum := n.treeSize
    treeDownsampleDeleted := n.treeDownsampleDeleted || isDownsample
    pointDownsampleDeleted := n.pointDownsampleDeleted || isDownsample
    downDelNum := if isDownsample then n.treeSize else n.downDelNum }

/-- `Delete_by_range`.  The flag of a node that is left early stays up. -/
def deleteByRange (box : BoxPointType K) (allowRebuild isDownsample : Bool) :
    KdTree P K → Deletion P K
  | null => ⟨null, 0, false⟩
  | node n l r =>
    if n.treeDeleted then ⟨node n l r, 0, false⟩
    else
      let working := n.working l r
      if box.misses n.nodeRange then ⟨node working (n.pushLeft l) (n.pushRight r), 0, false⟩
      else if box.covers n.nodeRange then
        ⟨node (working.deleteTree isDownsample) (n.pushLeft l) (n.pushRight r),
          n.treeSize - n.invalidPointNum, false⟩
      else
        let hit := !n.pointDeleted && decide (box.contains (coords n.point))
        let marked :=
          { working with
            pointDeleted := n.pointDeleted || hit
            pointDownsampleDeleted := n.pointDownsampleDeleted || (hit && isDownsample) }
        let left := deleteByRange box allowRebuild isDownsample (n.pushLeft l)
        let right := deleteByRange box allowRebuild isDownsample (n.pushRight r)
        let ended := endVisit params nth allowRebuild marked left.tree right.tree
        ⟨ended.1, (if hit then 1 else 0) + left.counter + right.counter,
          left.handed || right.handed || ended.2⟩
termination_by t => t.count
decreasing_by
  all_goals
    simp only [count_pushLeft, count_pushRight, KdTree.count]
    omega

/-! ## Calls of the mapping node -/

/-- `Root_Node`, and whether `Rebuild_Ptr` has been set. -/
structure MapTree (P K : Type) where
  rootNode : KdTree P K
  rebuildQueued : Bool

namespace MapTree

variable (s : MapTree P K)

/-- `Build`, on points there are. -/
def build (points : List P) : MapTree P K := ⟨buildTree nth points, false⟩

/-- A point of `Add_Points(., false)`, which reads the axis of `Root_Node` first. -/
def addPoint (point : P) : Option (MapTree P K) :=
  match s.rootNode with
  | null => none
  | node n l r =>
    let added := addByPoint params nth true point n.divisionAxis (node n l r)
    some ⟨added.1, s.rebuildQueued || added.2⟩

/-- `Add_Points(., false)`; `none` is a null pointer read. -/
def addPoints (points : List P) : Option (MapTree P K) :=
  points.foldlM (fun s point => s.addPoint params nth point) s

/-- A box of `Delete_Point_Boxes`. -/
def deleteBox (box : BoxPointType K) : MapTree P K × ℕ :=
  let deleted := deleteByRange params nth box true false s.rootNode
  (⟨deleted.tree, s.rebuildQueued || deleted.handed⟩, deleted.counter)

/-- `Delete_Point_Boxes`. -/
def deletePointBoxes (boxes : List (BoxPointType K)) : MapTree P K × ℕ :=
  boxes.foldl (fun acc box =>
    let deleted := acc.1.deleteBox params nth box
    (deleted.1, acc.2 + deleted.2)) (s, 0)

omit [Arith K] [PointType P K] in
def validnum : ℕ := s.rootNode.treeSize - s.rootNode.invalidPointNum

end MapTree

end IkdTree
end RobotNav
