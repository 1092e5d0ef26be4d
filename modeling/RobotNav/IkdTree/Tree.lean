/-
The nodes of the map tree and the functions of `KD_TREE` that work on one node and
its sons.

A deletion of a whole subtree only flags its root; the flags move to the sons when
a later visit calls `Push_Down`.  `father_ptr` is the place of a node in the tree.
-/
import RobotNav.IkdTree.Box

namespace RobotNav
namespace IkdTree

/-- A `PointType` has coordinates, and whatever else. -/
class PointType (P : Type) (K : outParam Type) where
  coords : P → Coords K

open PointType (coords)

structure KdTreeNode (P K : Type) where
  point : P
  divisionAxis : Fin 3
  treeSize : ℕ
  invalidPointNum : ℕ
  downDelNum : ℕ
  pointDeleted : Bool
  treeDeleted : Bool
  pointDownsampleDeleted : Bool
  treeDownsampleDeleted : Bool
  needPushDownToLeft : Bool
  needPushDownToRight : Bool
  workingFlag : Bool
  /-- `node_range_x`, `node_range_y` and `node_range_z`. -/
  nodeRange : BoxPointType K

inductive KdTree (P K : Type) where
  | null
  | node (n : KdTreeNode P K) (left right : KdTree P K)

variable {P K : Type}

namespace KdTree

def isNull : KdTree P K → Bool
  | null => true
  | node .. => false

/-- `TreeSize`; a son that is missing counts as nothing. -/
def treeSize : KdTree P K → ℕ
  | null => 0
  | node n _ _ => n.treeSize

def invalidPointNum : KdTree P K → ℕ
  | null => 0
  | node n _ _ => n.invalidPointNum

def downDelNum : KdTree P K → ℕ
  | null => 0
  | node n _ _ => n.downDelNum

/-- `tree_deleted`, which holds of a son that is missing. -/
def treeDeleted : KdTree P K → Bool
  | null => true
  | node n _ _ => n.treeDeleted

def treeDownsampleDeleted : KdTree P K → Bool
  | null => true
  | node n _ _ => n.treeDownsampleDeleted

/-- The nodes there are. -/
def count : KdTree P K → ℕ
  | null => 0
  | node _ l r => l.count + r.count + 1

@[simp] theorem isNull_null : (null : KdTree P K).isNull = true := rfl

@[simp] theorem isNull_node (n : KdTreeNode P K) (l r : KdTree P K) :
    (node n l r).isNull = false := rfl

@[simp] theorem treeDeleted_null : (null : KdTree P K).treeDeleted = true := rfl

@[simp] theorem treeDeleted_node (n : KdTreeNode P K) (l r : KdTree P K) :
    (node n l r).treeDeleted = n.treeDeleted := rfl

@[simp] theorem treeSize_null : (null : KdTree P K).treeSize = 0 := rfl

@[simp] theorem treeSize_node (n : KdTreeNode P K) (l r : KdTree P K) :
    (node n l r).treeSize = n.treeSize := rfl

@[simp] theorem invalidPointNum_null : (null : KdTree P K).invalidPointNum = 0 := rfl

@[simp] theorem invalidPointNum_node (n : KdTreeNode P K) (l r : KdTree P K) :
    (node n l r).invalidPointNum = n.invalidPointNum := rfl

end KdTree

open KdTree

/-! ## `Push_Down` -/

namespace KdTreeNode

/-- The assignments of `Push_Down` to a son. -/
def pushTo (father son : KdTreeNode P K) : KdTreeNode P K :=
  let treeDownsampleDeleted := son.treeDownsampleDeleted || father.treeDownsampleDeleted
  let pointDownsampleDeleted := son.pointDownsampleDeleted || father.treeDownsampleDeleted
  let treeDeleted := father.treeDeleted || treeDownsampleDeleted
  let downDelNum := if father.treeDownsampleDeleted then son.treeSize else son.downDelNum
  { son with
    treeDownsampleDeleted := treeDownsampleDeleted
    pointDownsampleDeleted := pointDownsampleDeleted
    treeDeleted := treeDeleted
    pointDeleted := treeDeleted || pointDownsampleDeleted
    downDelNum := downDelNum
    invalidPointNum := if father.treeDeleted then son.treeSize else downDelNum
    needPushDownToLeft := true
    needPushDownToRight := true }

/-- The node itself after `Push_Down`: a flag is cleared if there is a son to push
to. -/
def pushed (n : KdTreeNode P K) (l r : KdTree P K) : KdTreeNode P K :=
  { n with
    needPushDownToLeft := n.needPushDownToLeft && l.isNull
    needPushDownToRight := n.needPushDownToRight && r.isNull }

end KdTreeNode

/-- A son after `Push_Down` of its father. -/
def KdTree.receive (father : KdTreeNode P K) (need : Bool) : KdTree P K → KdTree P K
  | null => null
  | node son l r => node (if need then father.pushTo son else son) l r

/-- The left son after `Push_Down`. -/
def KdTreeNode.pushLeft (n : KdTreeNode P K) (l : KdTree P K) : KdTree P K :=
  l.receive n n.needPushDownToLeft

/-- The right son after `Push_Down`. -/
def KdTreeNode.pushRight (n : KdTreeNode P K) (r : KdTree P K) : KdTree P K :=
  r.receive n n.needPushDownToRight

@[simp] theorem KdTree.count_receive (father : KdTreeNode P K) (need : Bool) (t : KdTree P K) :
    (t.receive father need).count = t.count := by
  cases t with
  | null => rfl
  | node son l r => rfl

@[simp] theorem count_pushLeft (n : KdTreeNode P K) (l : KdTree P K) :
    (n.pushLeft l).count = l.count := l.count_receive n _

@[simp] theorem count_pushRight (n : KdTreeNode P K) (r : KdTree P K) :
    (n.pushRight r).count = r.count := r.count_receive n _

/-- `flatten`: the points it stores, and the tree it leaves with all flags pushed
down. -/
def KdTree.flatten : KdTree P K → List P × KdTree P K
  | null => ([], null)
  | node n l r =>
    let left := (n.pushLeft l).flatten
    let right := (n.pushRight r).flatten
    ((if n.pointDeleted then [] else [n.point]) ++ left.1 ++ right.1,
      node (n.pushed l r) left.2 right.2)
termination_by t => t.count
decreasing_by
  all_goals
    simp only [count_pushLeft, count_pushRight, KdTree.count]
    omega

/-! ## `Update` -/

variable [Arith K]

/-- The smallest box around two. -/
def BoxPointType.join (a b : BoxPointType K) : BoxPointType K :=
  ⟨fun i => min (a.vertexMin i) (b.vertexMin i), fun i => max (a.vertexMax i) (b.vertexMax i)⟩

/-- The smallest box around several; there is at least one where this is used. -/
def BoxPointType.joinAll (other : BoxPointType K) : List (BoxPointType K) → BoxPointType K
  | [] => other
  | b :: bs => bs.foldl join b

/-- What a son adds to the range of its father. -/
def KdTree.rangePart (all : Bool) : KdTree P K → List (BoxPointType K)
  | null => []
  | node n _ _ => if all || !n.treeDeleted then [n.nodeRange] else []

variable [PointType P K]

def pointBox (p : P) : BoxPointType K := ⟨coords p, coords p⟩

namespace KdTreeNode

/-- What `Update` takes the range of: the sons and the point, or only those of them
that are not deleted. -/
def rangeParts (all : Bool) (n : KdTreeNode P K) (l r : KdTree P K) : List (BoxPointType K) :=
  l.rangePart all ++ r.rangePart all ++ if all || !n.pointDeleted then [pointBox n.point] else []

/-- `Update`.  One body for the four cases of missing sons: a son that is missing
counts for nothing in the sums and as deleted in the flags. -/
def update (n : KdTreeNode P K) (l r : KdTree P K) : KdTreeNode P K :=
  let treeDeleted := l.treeDeleted && r.treeDeleted && n.pointDeleted
  let noneDeleted := (l.isNull || !l.treeDeleted) && (r.isNull || !r.treeDeleted) &&
    !n.pointDeleted
  { n with
    treeSize := l.treeSize + r.treeSize + 1
    invalidPointNum :=
      l.invalidPointNum + r.invalidPointNum + if n.pointDeleted then 1 else 0
    downDelNum := l.downDelNum + r.downDelNum + if n.pointDownsampleDeleted then 1 else 0
    treeDownsampleDeleted :=
      l.treeDownsampleDeleted && r.treeDownsampleDeleted && n.pointDownsampleDeleted
    treeDeleted := treeDeleted
    nodeRange := .joinAll (pointBox n.point) (n.rangeParts (treeDeleted || noneDeleted) l r) }

end KdTreeNode

end IkdTree
end RobotNav
