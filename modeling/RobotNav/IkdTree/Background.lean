/-
The rebuild thread beside the thread that adds and deletes points.

A step of a thread is what it does between two places where the other can come in:
a section under `working_flag_mutex`, or the code of one node outside such a
section.  `Rebuild_Ptr` is the path from `Root_Node` to the subtree it points at.
`multi_thread_rebuild` rebuilds once.  Searches, the size the tree reports while it
is rebuilt and the counts of deleted points are left out.
-/
import RobotNav.IkdTree.Operations
import RobotNav.Library.Machine

namespace RobotNav
namespace IkdTree

open PointType (coords)
open KdTree

/-! ## Places in a tree -/

inductive Side where
  | left
  | right
  deriving DecidableEq

variable {P K : Type}

namespace Side

def other : Side → Side
  | left => right
  | right => left

def son : Side → KdTree P K → KdTree P K → KdTree P K
  | left, l, _ => l
  | right, _, r => r

/-- The sons with this one replaced. -/
def put : Side → KdTree P K → KdTree P K → KdTree P K → KdTree P K × KdTree P K
  | left, _, r, son => (son, r)
  | right, l, _, son => (l, son)

/-- A node with one son replaced. -/
def graft (s : Side) (n : KdTreeNode P K) (l r son : KdTree P K) : KdTree P K :=
  node n (s.put l r son).1 (s.put l r son).2

/-- The path goes to this side, and on from there. -/
def below (s : Side) : Option (List Side) → Option (List Side)
  | some (s' :: path) => if s' = s then some path else none
  | _ => none

end Side

/-- `need_push_down_to_left` or `need_push_down_to_right`. -/
def KdTreeNode.need (n : KdTreeNode P K) : Side → Bool
  | .left => n.needPushDownToLeft
  | .right => n.needPushDownToRight

def KdTree.subtree : List Side → KdTree P K → KdTree P K
  | [], t => t
  | _ :: _, null => null
  | s :: path, node _ l r => subtree path (s.son l r)

/-- `division_axis` of the root. -/
def KdTree.rootAxis : KdTree P K → Fin 3
  | null => 0
  | node n _ _ => n.divisionAxis

/-- The tree with another subtree in a place. -/
def putIn (new : KdTree P K) : List Side → KdTree P K → KdTree P K
  | [], _ => new
  | _ :: _, null => null
  | s :: path, node n l r => s.graft n l r (putIn new path (s.son l r))

/-! ## `Rebuild_Logger` -/

/-- One point of `Add_Points(., false)`, or one box of `Delete_Point_Boxes`. -/
inductive MapOp (P K : Type) where
  | addPoint (point : P)
  | deleteBox (box : BoxPointType K)

/-- `Operation_Logger_Type`, as far as these calls log any. -/
inductive LoggedOp (P K : Type) where
  | map (op : MapOp P K)
  | pushDown (treeDeleted treeDownsampleDeleted : Bool)

def qLen : ℕ := 1000000

/-- `MANUAL_Q`. -/
structure ManualQ (α : Type) where
  q : ℕ → α
  head : ℕ
  tail : ℕ
  counter : ℕ
  isEmpty : Bool

namespace ManualQ

variable {α : Type}

/-- After `clear`, on whatever the array holds. -/
def clear (q : ℕ → α) : ManualQ α := ⟨q, 0, 0, 0, true⟩

def front (m : ManualQ α) : α := m.q m.head

def push (m : ManualQ α) (op : α) : ManualQ α where
  q := Function.update m.q m.tail op
  head := m.head
  tail := (m.tail + 1) % qLen
  counter := m.counter + 1
  isEmpty := false

def pop (m : ManualQ α) : ManualQ α :=
  if m.counter = 0 then m
  else { m with
    head := (m.head + 1) % qLen
    counter := m.counter - 1
    isEmpty := if m.counter - 1 = 0 then true else m.isEmpty }

end ManualQ

/-! ## One visit of the mapping thread -/

/-- Where the visit of a subtree stands. -/
inductive Visit where
  /-- At its first line. -/
  | ready
  /-- In `Push_Down`, at the lock for this son. -/
  | pushLock (s : Side)
  /-- Behind `Push_Down`. -/
  | pushed
  /-- At the test whether this son is being rebuilt. -/
  | enter (s : Side)
  /-- At the lock for this son. -/
  | opLock (s : Side)
  /-- In the call for this son. -/
  | inside (s : Side) (v : Visit)
  /-- At `Update`. -/
  | ending
  | done
  deriving DecidableEq

/-- What one step of a visit leaves; `cleared` says that it reset `Rebuild_Ptr`, and
`asks` where it called `Rebuild` for the thread. -/
structure Moved (P K : Type) where
  visit : Visit
  tree : KdTree P K
  logger : ManualQ (LoggedOp P K)
  cleared : Bool
  asks : Option (List Side)

/-- The son at whose lock `Push_Down` waits, if it does. -/
def pushLocked (rebuildPtr : Option (List Side)) (n : KdTreeNode P K) (l r : KdTree P K) :
    Option Side :=
  if rebuildPtr = some [.left] ∧ n.needPushDownToLeft = true ∧ l.isNull = false then some .left
  else if rebuildPtr = some [.right] ∧ n.needPushDownToRight = true ∧ r.isNull = false then
    some .right
  else none

variable [Arith K] [PointType P K]

/-- The point of a node as `Delete_by_range` leaves it. -/
def KdTreeNode.deletePoint (box : BoxPointType K) (n : KdTreeNode P K) : KdTreeNode P K :=
  { n with
    pointDeleted := n.pointDeleted || (!n.pointDeleted && decide (box.contains (coords n.point))) }

variable (params : KdTreeParams K) (nth : NthElement P K)

namespace MapOp

omit [Arith K] [PointType P K] in
/-- The tests at the first line of `Delete_by_range`. -/
def stopsAt (op : MapOp P K) (n : KdTreeNode P K) : Bool :=
  match op with
  | addPoint _ => false
  | deleteBox _ => n.treeDeleted

/-- What follows the call for a son. -/
def next (op : MapOp P K) (s : Side) : Visit :=
  match op, s with
  | deleteBox _, .left => .enter .right
  | deleteBox _, .right => .ending
  | addPoint _, _ => .ending

/-- The whole call for a subtree. -/
def run (op : MapOp P K) (allowRebuild : Bool) (fatherAxis : Fin 3) (t : KdTree P K) :
    KdTree P K :=
  match op with
  | addPoint point => (addByPoint params nth allowRebuild point fatherAxis t).1
  | deleteBox box => (deleteByRange params nth box allowRebuild false t).tree

omit [PointType P K] in
/-- The call for a subtree gets to its last lines. -/
def ends (op : MapOp P K) (t : KdTree P K) : Bool :=
  match op, t with
  | _, null => false
  | addPoint _, node .. => true
  | deleteBox box, node n _ _ =>
    !n.treeDeleted && !decide (box.misses n.nodeRange) && !decide (box.covers n.nodeRange)

/-- The call under the lock of the subtree `Rebuild_Ptr` pointed at: the subtree, and
whether `Rebuild_Ptr` is reset because the subtree is small. -/
def runLocked (op : MapOp P K) (fatherAxis : Fin 3) (isTarget : Bool) (t : KdTree P K) :
    KdTree P K × Bool :=
  let t' := op.run params nth false fatherAxis t
  (t', isTarget && op.ends t && decide (t'.treeSize < multiThreadRebuildPointNum))

/-- One step of `Add_by_point` or `Delete_by_range`, outside the subtree `Rebuild_Ptr`
points at. -/
def move (op : MapOp P K) (rebuildFlag : Bool) :
    Visit → KdTree P K → Option (List Side) → ManualQ (LoggedOp P K) → Moved P K
  | _, null, _, q => ⟨.done, null, q, false, none⟩
  | .ready, node n l r, rebuildPtr, q =>
    if op.stopsAt n then ⟨.done, node n l r, q, false, none⟩
    else
      match pushLocked rebuildPtr n l r with
      | some s => ⟨.pushLock s, node { n with workingFlag := true } l r, q, false, none⟩
      | none => ⟨.pushed, node (n.working l r) (n.pushLeft l) (n.pushRight r), q, false, none⟩
  | .pushLock _, node n l r, _, q =>
    -- the push to the other son, which takes no lock, is part of this step
    ⟨.pushed, node (n.working l r) (n.pushLeft l) (n.pushRight r),
      if rebuildFlag then q.push (.pushDown n.treeDeleted n.treeDownsampleDeleted) else q, false,
      none⟩
  | .pushed, node n l r, _, q =>
    match op with
    | addPoint point =>
      ⟨.enter (if coords point n.divisionAxis < coords n.point n.divisionAxis then .left
        else .right), node n l r, q, false, none⟩
    | deleteBox box =>
      if box.misses n.nodeRange then ⟨.done, node n l r, q, false, none⟩
      else if box.covers n.nodeRange then ⟨.done, node (n.deleteTree false) l r, q, false, none⟩
      else ⟨.enter .left, node (n.deletePoint box) l r, q, false, none⟩
  | .enter s, node n l r, rebuildPtr, q =>
    if s.below rebuildPtr = some [] then ⟨.opLock s, node n l r, q, false, none⟩
    else if (s.son l r).isNull then
      ⟨op.next s, s.graft n l r (op.run params nth true n.divisionAxis null), q, false, none⟩
    else ⟨.inside s .ready, node n l r, q, false, none⟩
  | .opLock s, node n l r, rebuildPtr, q =>
    let locked := op.runLocked params nth n.divisionAxis
      (decide (s.below rebuildPtr = some [])) (s.son l r)
    ⟨op.next s, s.graft n l r locked.1, if rebuildFlag then q.push (.map op) else q, locked.2,
      none⟩
  | .inside s v, node n l r, rebuildPtr, q =>
    let m := op.move rebuildFlag v (s.son l r) (s.below rebuildPtr) q
    ⟨if m.visit = .done then op.next s else .inside s m.visit, s.graft n l r m.tree, m.logger,
      m.cleared, m.asks.map (s :: ·)⟩
  | .ending, node n l r, _, q =>
    let ended := endVisit params nth true n l r
    ⟨.done, ended.1, q, false, if ended.2 then some [] else none⟩
  | .done, node n l r, _, q => ⟨.done, node n l r, q, false, none⟩

end MapOp

/-! ## The rebuild thread -/

omit [Arith K] [PointType P K] in
/-- `PUSH_DOWN` of `run_operation`: what `Push_Down` does to a son, with the logged flags. -/
def KdTreeNode.pushFlags (treeDeleted treeDownsampleDeleted : Bool) (n : KdTreeNode P K) :
    KdTreeNode P K :=
  KdTreeNode.pushTo
    { n with treeDeleted := treeDeleted, treeDownsampleDeleted := treeDownsampleDeleted } n

/-- `run_operation`; `none` is a null pointer read. -/
def LoggedOp.run : LoggedOp P K → KdTree P K → Option (KdTree P K)
  | .map (.addPoint _), null => none
  | .map (.deleteBox _), null => some null
  | .pushDown _ _, null => none
  | .map op, node n l r => some (op.run params nth false n.divisionAxis (node n l r))
  | .pushDown treeDeleted treeDownsampleDeleted, node n l r =>
    some (node (n.pushFlags treeDeleted treeDownsampleDeleted) l r)

/-- The loop behind the swap updates the root of this subtree; `pending` says that
the father has still to push to it. -/
def loopUpdates (pending : Bool) : List Side → KdTree P K → Bool
  | [], _ => true
  | _ :: _, null => false
  | s :: path, node n l r =>
    loopUpdates (n.need s) path (s.son l r) && !n.workingFlag && !pending

/-- The new subtree in its place, and the nodes above it updated until one is being
visited or its father has still to push to it. -/
def swapIn (new : KdTree P K) (pending : Bool) : List Side → KdTree P K → KdTree P K
  | [], _ => new
  | _ :: _, null => null
  | s :: path, node n l r =>
    let sons := s.put l r (swapIn new (n.need s) path (s.son l r))
    node (if loopUpdates pending (s :: path) (node n l r) then n.update sons.1 sons.2 else n)
      sons.1 sons.2

/-- Where the run of `multi_thread_rebuild` stands. -/
inductive Phase (P K : Type) where
  /-- Before it has `rebuild_ptr_mutex_lock`. -/
  | free
  /-- Before it has `working_flag_mutex`. -/
  | locked
  | copied (rebuildPclStorage : List P)
  | replaying (newRootNode : KdTree P K)
  /-- Behind the swap, with `rebuild_flag` still up. -/
  | swapped
  | finished

/-- `pthread_mutex_trylock` on `rebuild_ptr_mutex_lock` succeeds. -/
def Phase.unlocked : Phase P K → Bool
  | free => true
  | finished => true
  | _ => false

/-- What the mapping thread is at. -/
inductive Mapper (P K : Type) where
  | idle
  /-- At the lock of a call for `Root_Node`. -/
  | rootLock (op : MapOp P K)
  | visiting (op : MapOp P K) (v : Visit)

structure ThreadState (P K : Type) where
  rootNode : KdTree P K
  rebuildPtr : Option (List Side)
  rebuildFlag : Bool
  rebuildLogger : ManualQ (LoggedOp P K)
  phase : Phase P K
  mapper : Mapper P K
  /-- What the mapping thread has still to do. -/
  ops : List (MapOp P K)
  /-- A null pointer has been read. -/
  fault : Bool

/-- The thread that makes a step. -/
inductive Thread where
  | mapping
  | rebuilding

namespace ThreadState

variable (s : ThreadState P K)

omit [Arith K] [PointType P K] in
/-- After `Rebuild` on a subtree that is left to the thread, if there was such a call. -/
def request (asks : Option (List Side)) : ThreadState P K :=
  match asks with
  | none => s
  | some path =>
    if s.phase.unlocked && s.rebuildPtr.all fun path' =>
        decide ((s.rootNode.subtree path').treeSize < (s.rootNode.subtree path).treeSize) then
      { s with rebuildPtr := some path }
    else s

omit [Arith K] [PointType P K] in
/-- After a step of a visit. -/
def visited (op : MapOp P K) (m : Moved P K) : ThreadState P K :=
  { s with
    rootNode := m.tree
    rebuildLogger := m.logger
    rebuildPtr := if m.cleared then none else s.rebuildPtr
    mapper := if m.visit = .done then .idle else .visiting op m.visit }

def mapperStep : ThreadState P K :=
  match s.mapper with
  | .idle =>
    match s.ops with
    | [] => s
    | op :: ops =>
      if s.rootNode.isNull then
        match op with
        | .addPoint _ => { s with fault := true }
        | .deleteBox _ => { s with ops := ops }
      else if s.rebuildPtr = some [] then { s with mapper := .rootLock op, ops := ops }
      else { s with mapper := .visiting op .ready, ops := ops }
  | .rootLock op =>
    let locked := op.runLocked params nth s.rootNode.rootAxis
      (decide (s.rebuildPtr = some [])) s.rootNode
    { s with
      rootNode := locked.1
      rebuildLogger := if s.rebuildFlag then s.rebuildLogger.push (.map op) else s.rebuildLogger
      rebuildPtr := if locked.2 then none else s.rebuildPtr
      mapper := .idle }
  | .visiting op v =>
    let m := op.move params nth s.rebuildFlag v s.rootNode s.rebuildPtr s.rebuildLogger
    (s.visited op m).request m.asks

def rebuildStep : ThreadState P K :=
  match s.phase with
  | .free => { s with phase := .locked }
  | .locked =>
    match s.rebuildPtr with
    | none => { s with phase := .free }
    | some path =>
      let flat := (s.rootNode.subtree path).flatten
      { s with
        rootNode := putIn flat.2 path s.rootNode
        rebuildFlag := true
        phase := .copied flat.1 }
  -- nothing is built of no points, and `new_root_node->TreeSize` is read
  | .copied [] => { s with fault := true }
  | .copied (p :: ps) => { s with phase := .replaying (buildTree nth (p :: ps)) }
  | .replaying new =>
    if s.rebuildLogger.isEmpty then
      match s.rebuildPtr with
      | none => { s with fault := true }
      | some path =>
        { s with
          rootNode := swapIn new false path s.rootNode
          rebuildPtr := none
          phase := .swapped }
    else
      match s.rebuildLogger.front.run params nth new with
      | none => { s with fault := true }
      | some new => { s with rebuildLogger := s.rebuildLogger.pop, phase := .replaying new }
  | .swapped => { s with rebuildFlag := false, phase := .finished }
  | .finished => s

def step (thread : Thread) : ThreadState P K :=
  if s.fault then s
  else
    match thread with
    | .mapping => s.mapperStep params nth
    | .rebuilding => s.rebuildStep params nth

omit [Arith K] [PointType P K] in
/-- Nothing asked for, nothing logged; the array of the queue holds whatever. -/
def start (root : KdTree P K) (ops : List (MapOp P K)) (q : ℕ → LoggedOp P K) :
    ThreadState P K where
  rootNode := root
  rebuildPtr := none
  rebuildFlag := false
  rebuildLogger := .clear q
  phase := .free
  mapper := .idle
  ops := ops
  fault := false

end ThreadState

/-- Both threads on a tree built of the points, in every order of their steps. -/
def threads (points : List P) (ops : List (MapOp P K)) (q : ℕ → LoggedOp P K) :
    Machine (ThreadState P K) Thread Unit where
  init := .start (buildTree nth points) ops q
  step := fun s thread => (s.step params nth thread, ())

/-- The tree after the same operations in a row, with no rebuild. -/
def withoutRebuild (points : List P) (ops : List (MapOp P K)) : KdTree P K :=
  ops.foldl (fun t op => op.run params nth false t.rootAxis t) (buildTree nth points)

end IkdTree
end RobotNav
