/-
The balance of the map tree.

A visit that changes a size ends in `Criterion_Check`, and what fails it is built again
around medians.  The ways out of `Delete_by_range` before the check only move flags, so they
leave all sizes as they are.
-/
import RobotNav.IkdTree.Voxels
import RobotNav.Library.Balance

namespace RobotNav
namespace IkdTree

open PointType (coords)
open KdTree

variable {P K : Type}

/-- With more than ten nodes in its subtree, a node has both sons, and the left one has
between 0.4 and 0.6 of the nodes below it. -/
structure NodeBalanced (n : KdTreeNode P K) (l r : KdTree P K) : Prop where
  size : n.treeSize = l.count + r.count + 1
  left : minimalUnbalancedTreeSize < n.treeSize → l.isNull = false
  right : minimalUnbalancedTreeSize < n.treeSize → r.isNull = false
  lower : minimalUnbalancedTreeSize < n.treeSize →
    (4 / 10 : ℚ) ≤ l.treeSize / (n.treeSize - 1)
  upper : minimalUnbalancedTreeSize < n.treeSize →
    (l.treeSize / (n.treeSize - 1) : ℚ) ≤ 6 / 10

namespace KdTree

def Balanced : KdTree P K → Prop
  | null => True
  | node n l r => NodeBalanced n l r ∧ l.Balanced ∧ r.Balanced

/-- The nodes on the longest way down. -/
def depth : KdTree P K → ℕ
  | null => 0
  | node _ l r => max l.depth r.depth + 1

/-- The tree of all `TreeSize`. -/
def sizes : KdTree P K → BinaryTree ℕ
  | null => .nil
  | node n l r => .node n.treeSize l.sizes r.sizes

end KdTree

/-! ## Sizes -/

theorem numNodes_sizes (t : KdTree P K) : t.sizes.numNodes = t.count := by
  induction t with
  | null => rfl
  | node n l r ihl ihr => rw [sizes, BinaryTree.numNodes, ihl, ihr, count]

theorem height_sizes (t : KdTree P K) : t.sizes.height = t.depth := by
  induction t with
  | null => rfl
  | node n l r ihl ihr => rw [sizes, BinaryTree.height, ihl, ihr, depth]

theorem count_of_sizes {t t' : KdTree P K} (h : t'.sizes = t.sizes) : t'.count = t.count := by
  rw [← numNodes_sizes, h, numNodes_sizes]

theorem isNull_eq (t : KdTree P K) : t.isNull = decide (t.count = 0) := by
  cases t with
  | null => rfl
  | node n l r => rfl

theorem isNull_of_sizes {t t' : KdTree P K} (h : t'.sizes = t.sizes) : t'.isNull = t.isNull := by
  rw [isNull_eq, isNull_eq, count_of_sizes h]

theorem treeSize_of_sizes {t t' : KdTree P K} (h : t'.sizes = t.sizes) :
    t'.treeSize = t.treeSize := by
  cases t with
  | null =>
    cases t' with
    | null => rfl
    | node => cases h
  | node n l r =>
    cases t' with
    | null => cases h
    | node n' l' r' => exact (BinaryTree.node.inj h).1

theorem treeSize_of_balanced {t : KdTree P K} (ht : t.Balanced) : t.treeSize = t.count := by
  cases t with
  | null => rfl
  | node n l r => exact ht.1.size

/-- Balance is a matter of sizes alone. -/
theorem balanced_of_sizes {t t' : KdTree P K} (ht : t.Balanced) (h : t'.sizes = t.sizes) :
    t'.Balanced := by
  induction t generalizing t' with
  | null =>
    cases t' with
    | null => trivial
    | node => cases h
  | node n l r ihl ihr =>
    cases t' with
    | null => cases h
    | node n' l' r' =>
      obtain ⟨hsize, hl, hr⟩ := BinaryTree.node.inj h
      obtain ⟨hnode, hleft, hright⟩ := ht
      refine ⟨⟨?_, ?_, ?_, ?_, ?_⟩, ihl hleft hl, ihr hright hr⟩
      · rw [hsize, count_of_sizes hl, count_of_sizes hr]
        exact hnode.size
      · rw [hsize, isNull_of_sizes hl]
        exact hnode.left
      · rw [hsize, isNull_of_sizes hr]
        exact hnode.right
      · rw [hsize, treeSize_of_sizes hl]
        exact hnode.lower
      · rw [hsize, treeSize_of_sizes hl]
        exact hnode.upper

theorem others_pos {size : ℕ} (hbig : minimalUnbalancedTreeSize < size) :
    (0 : ℚ) < (size : ℚ) - 1 := by
  rw [minimalUnbalancedTreeSize] at hbig
  have hten : (10 : ℚ) < size := by exact_mod_cast hbig
  linarith

/-! ## Depth -/

/-- Each son of a large node has at most three fifths of the nodes below it. -/
theorem NodeBalanced.shares {n : KdTreeNode P K} {l r : KdTree P K} (h : NodeBalanced n l r)
    (hl : l.Balanced) (hbig : minimalUnbalancedTreeSize < l.count + r.count + 1) :
    (5 / 3 : ℝ) * l.count ≤ l.count + r.count ∧ (5 / 3 : ℝ) * r.count ≤ l.count + r.count := by
  rw [← h.size] at hbig
  have hlower := h.lower hbig
  have hupper := h.upper hbig
  rw [le_div_iff₀ (others_pos hbig), h.size, treeSize_of_balanced hl] at hlower
  rw [div_le_iff₀ (others_pos hbig), h.size, treeSize_of_balanced hl] at hupper
  push_cast at hlower hupper
  have hleft : (5 * l.count : ℚ) ≤ 3 * (l.count + r.count) := by linarith
  have hright : (5 * r.count : ℚ) ≤ 3 * (l.count + r.count) := by linarith
  have hleft : (5 * l.count : ℝ) ≤ 3 * (l.count + r.count) := by exact_mod_cast hleft
  have hright : (5 * r.count : ℝ) ≤ 3 * (l.count + r.count) := by exact_mod_cast hright
  constructor
  · linarith
  · linarith

theorem weightBalanced_sizes {t : KdTree P K} (ht : t.Balanced) :
    WeightBalanced (5 / 3 : ℝ) minimalUnbalancedTreeSize t.sizes := by
  induction t with
  | null => trivial
  | node n l r ihl ihr =>
    obtain ⟨hnode, hl, hr⟩ := ht
    refine ⟨fun hbig => ?_, ihl hl, ihr hr⟩
    rw [numNodes_sizes, numNodes_sizes] at hbig ⊢
    exact hnode.shares hl hbig

/-- The depth is logarithmic in the size. -/
theorem depth_le_logb {t : KdTree P K} (ht : t.Balanced) :
    (t.depth : ℝ) ≤ 10 + Real.logb (5 / 3) t.treeSize := by
  have hheight := height_le_logb (by norm_num) (by decide) (weightBalanced_sizes ht)
  rw [height_sizes, numNodes_sizes, ← treeSize_of_balanced ht, minimalUnbalancedTreeSize]
    at hheight
  exact_mod_cast hheight

/-! ## What leaves the sizes alone -/

@[simp] theorem sizes_receive (father : KdTreeNode P K) (need : Bool) (t : KdTree P K) :
    (t.receive father need).sizes = t.sizes := by
  cases t with
  | null => rfl
  | node son l r => cases need <;> rfl

@[simp] theorem sizes_pushLeft (n : KdTreeNode P K) (l : KdTree P K) :
    (n.pushLeft l).sizes = l.sizes := sizes_receive n _ l

@[simp] theorem sizes_pushRight (n : KdTreeNode P K) (r : KdTree P K) :
    (n.pushRight r).sizes = r.sizes := sizes_receive n _ r

/-- `Push_Down`, with other flags on the node. -/
theorem sizes_pushDown (n : KdTreeNode P K) {n' : KdTreeNode P K}
    (hsize : n'.treeSize = n.treeSize) (l r : KdTree P K) :
    (node n' (n.pushLeft l) (n.pushRight r)).sizes = (node n l r).sizes := by
  rw [sizes, sizes, hsize, sizes_pushLeft, sizes_pushRight]

@[simp] theorem sizes_stopWorking (t : KdTree P K) : t.stopWorking.sizes = t.sizes := by
  cases t with
  | null => rfl
  | node n l r => rfl

@[simp] theorem sizes_flatten (t : KdTree P K) : t.flatten.2.sizes = t.sizes := by
  induction t using KdTree.flatten.induct with
  | case1 => rw [KdTree.flatten]
  | case2 n l r ihl ihr =>
    rw [KdTree.flatten, sizes, ihl, ihr, sizes_pushLeft, sizes_pushRight]
    rfl

theorem flatten_length_le (t : KdTree P K) : t.flatten.1.length ≤ t.count := by
  induction t using KdTree.flatten.induct with
  | case1 =>
    rw [KdTree.flatten]
    exact Nat.le_refl 0
  | case2 n l r ihl ihr =>
    rw [count_pushLeft] at ihl
    rw [count_pushRight] at ihr
    have hown : (if n.pointDeleted then [] else [n.point]).length ≤ 1 := by split_ifs <;> simp
    rw [KdTree.flatten, List.length_append, List.length_append, count]
    omega

variable [Arith K] [PointType P K]

@[simp] theorem sizes_searchByRange (box : BoxPointType K) (t : KdTree P K) :
    (t.searchByRange box).2.sizes = t.sizes := by
  induction t using KdTree.searchByRange.induct (P := P) box with
  | case1 => rw [KdTree.searchByRange]
  | case2 n l r hmisses =>
    rw [KdTree.searchByRange, if_pos hmisses]
    exact sizes_pushDown n rfl l r
  | case3 n l r hmisses hcovers =>
    rw [KdTree.searchByRange, if_neg hmisses, if_pos hcovers, sizes_flatten]
    exact sizes_pushDown n rfl l r
  | case4 n l r hmisses hcovers ihl ihr =>
    rw [KdTree.searchByRange, if_neg hmisses, if_neg hcovers, sizes, ihl, ihr, sizes_pushLeft,
      sizes_pushRight]
    rfl

/-! ## Nodes after `Update` -/

omit [Arith K] [PointType P K] in
/-- The bounds of the check, without fractions. -/
theorem nodeBalanced_of_bounds {n : KdTreeNode P K} {l r : KdTree P K} (hl : l.Balanced)
    (hsize : n.treeSize = l.count + r.count + 1)
    (hbounds : minimalUnbalancedTreeSize < n.treeSize →
      4 * (l.count + r.count) ≤ 10 * l.count ∧ 10 * l.count ≤ 6 * (l.count + r.count)) :
    NodeBalanced n l r := by
  have hthere {t : KdTree P K} (ht : t.count ≠ 0) : t.isNull = false := by
    rw [isNull_eq, decide_eq_false ht]
  refine ⟨hsize, fun hbig => ?_, fun hbig => ?_, fun hbig => ?_, fun hbig => ?_⟩
  · obtain ⟨hlower, hupper⟩ := hbounds hbig
    rw [minimalUnbalancedTreeSize] at hbig
    exact hthere (by omega)
  · obtain ⟨hlower, hupper⟩ := hbounds hbig
    rw [minimalUnbalancedTreeSize] at hbig
    exact hthere (by omega)
  · obtain ⟨hlower, hupper⟩ := hbounds hbig
    rw [le_div_iff₀ (others_pos hbig), hsize, treeSize_of_balanced hl]
    have hlower : (4 * (l.count + r.count) : ℚ) ≤ 10 * l.count := by exact_mod_cast hlower
    push_cast
    linarith
  · obtain ⟨hlower, hupper⟩ := hbounds hbig
    rw [div_le_iff₀ (others_pos hbig), hsize, treeSize_of_balanced hl]
    have hupper : (10 * l.count : ℚ) ≤ 6 * (l.count + r.count) := by exact_mod_cast hupper
    push_cast
    linarith

theorem update_size {n : KdTreeNode P K} {l r : KdTree P K} (hl : l.Balanced)
    (hr : r.Balanced) : (n.update l r).treeSize = l.count + r.count + 1 := by
  rw [← treeSize_of_balanced hl, ← treeSize_of_balanced hr]
  rfl

theorem update_balanced {n : KdTreeNode P K} {l r : KdTree P K} (hl : l.Balanced)
    (hr : r.Balanced)
    (hbounds : minimalUnbalancedTreeSize < l.count + r.count + 1 →
      4 * (l.count + r.count) ≤ 10 * l.count ∧ 10 * l.count ≤ 6 * (l.count + r.count)) :
    (node (n.update l r) l r).Balanced := by
  have hsize : (n.update l r).treeSize = l.count + r.count + 1 := update_size hl hr
  exact ⟨nodeBalanced_of_bounds hl hsize (by rwa [hsize]), hl, hr⟩

/-! ## `BuildTree` -/

theorem buildTree_count (nth : NthElement P K) (points : List P) :
    (buildTree nth points).count = points.length := by
  induction points using buildTree.induct nth with
  | case1 =>
    rw [buildTree]
    rfl
  | case2 p ps axis parts ihl ihr =>
    have hafter : parts.1.length + parts.2.2.length = ps.length :=
      nth.after_length axis p (Nat.div_le_self ps.length 2)
    rw [buildTree]
    show (buildTree nth parts.1).count + (buildTree nth parts.2.2).count + 1 = _
    rw [ihl, ihr, hafter, List.length_cons]

/-- A median splits the other points in halves. -/
theorem buildTree_balanced (nth : NthElement P K) (points : List P) :
    (buildTree nth points).Balanced := by
  induction points using buildTree.induct nth with
  | case1 =>
    rw [buildTree]
    trivial
  | case2 p ps axis parts ihl ihr =>
    have hmid : ps.length / 2 ≤ ps.length := Nat.div_le_self _ _
    have hbefore : parts.1.length = ps.length / 2 := nth.length axis p ps _ hmid
    have hafter : parts.1.length + parts.2.2.length = ps.length := nth.after_length axis p hmid
    rw [buildTree]
    apply update_balanced (n := .init parts.2.1 axis) ihl ihr
    rw [buildTree_count, buildTree_count, minimalUnbalancedTreeSize, hafter, hbefore]
    intro hbig
    constructor
    · omega
    · omega

/-! ## `Criterion_Check`

From here on arithmetic is exact. -/

section

variable {F : Type} [Field F] [LinearOrder F] [FloorRing F] [IsStrictOrderedRing F]

/-- What passes the check has a first son with a share between 0.4 and 0.6. -/
theorem criterionCheck_share {n : KdTreeNode P F} {l r : KdTree P F}
    (hbig : minimalUnbalancedTreeSize < n.treeSize)
    (hcheck : criterionCheck defaultParams n l r = false) :
    4 * (n.treeSize - 1) ≤ 10 * (if l.isNull then r else l).treeSize ∧
      10 * (if l.isNull then r else l).treeSize ≤ 6 * (n.treeSize - 1) := by
  rw [criterionCheck, if_neg (not_le.mpr hbig)] at hcheck
  simp only [Bool.or_eq_false_iff, decide_eq_false_iff_not, not_lt] at hcheck
  obtain ⟨⟨-, hupper⟩, hlower⟩ := hcheck
  rw [minimalUnbalancedTreeSize] at hbig
  set son := (if l.isNull then r else l).treeSize
  obtain ⟨others, hothers⟩ : ∃ others, n.treeSize = others + 1 := ⟨n.treeSize - 1, by omega⟩
  have hpos : (0 : F) < others := by
    have : 0 < others := by omega
    exact_mod_cast this
  have hcast : (lit ((n.treeSize : ℤ) - 1) : F) = others := by
    rw [lit_eq, hothers]
    push_cast
    ring
  rw [hcast] at hupper hlower
  simp only [defaultParams, ratio_eq, lit_eq] at hupper hlower
  push_cast at hupper hlower
  rw [div_le_iff₀ hpos] at hupper
  rw [le_div_iff₀ hpos] at hlower
  have hupper : (10 * son : F) ≤ 6 * others := by linarith
  have hlower : (4 * others : F) ≤ 10 * son := by linarith
  rw [hothers, Nat.add_sub_cancel]
  constructor
  · exact_mod_cast hlower
  · exact_mod_cast hupper

theorem criterionCheck_bounds {n : KdTreeNode P F} {l r : KdTree P F} (hl : l.Balanced)
    (hr : r.Balanced) (hsize : n.treeSize = l.count + r.count + 1)
    (hbig : minimalUnbalancedTreeSize < n.treeSize)
    (hcheck : criterionCheck defaultParams n l r = false) :
    4 * (l.count + r.count) ≤ 10 * l.count ∧ 10 * l.count ≤ 6 * (l.count + r.count) := by
  have hshare := criterionCheck_share hbig hcheck
  rw [hsize, Nat.add_sub_cancel] at hshare
  cases l with
  | null =>
    -- a lone right son would have all of the nodes below
    have hright := treeSize_of_balanced hr
    rw [minimalUnbalancedTreeSize, hsize] at hbig
    rw [isNull_null, if_pos rfl, hright] at hshare
    simp only [count] at hbig hshare ⊢
    omega
  | node m ll lr =>
    rw [isNull_node, if_neg Bool.false_ne_true, treeSize_of_balanced hl] at hshare
    exact hshare

/-! ## The operations -/

variable [PointType P F] (nth : NthElement P F)

theorem endVisit_balanced {n : KdTreeNode P F} {l r : KdTree P F} (hl : l.Balanced)
    (hr : r.Balanced) (hidle : (endVisit defaultParams nth true n l r).2 = false) :
    (endVisit defaultParams nth true n l r).1.Balanced ∧
      (endVisit defaultParams nth true n l r).1.count ≤ l.count + r.count + 1 := by
  rw [endVisit, rebuild] at hidle ⊢
  split_ifs at hidle ⊢ with hcheck hlarge
  · refine ⟨balanced_of_sizes (buildTree_balanced nth _) (sizes_stopWorking _), ?_⟩
    have hstored := flatten_length_le (node (n.update l r) l r)
    rw [count_of_sizes (sizes_stopWorking _), buildTree_count]
    exact hstored
  · have hpassed := Bool.eq_false_of_not_eq_true hcheck
    rw [Bool.true_and] at hpassed
    have hsize : (n.update l r).treeSize = l.count + r.count + 1 := update_size hl hr
    have hupdated : (node (n.update l r) l r).Balanced := update_balanced hl hr fun hbig =>
      criterionCheck_bounds hl hr hsize (by rwa [hsize]) hpassed
    have hsizes := sizes_stopWorking (node (n.update l r) l r)
    exact ⟨balanced_of_sizes hupdated hsizes, (count_of_sizes hsizes).le⟩

omit [IsStrictOrderedRing F] in
theorem endVisit_idle {n : KdTreeNode P F} {l r : KdTree P F} (hl : l.Balanced)
    (hr : r.Balanced) (hsmall : l.count + r.count + 1 < multiThreadRebuildPointNum) :
    (endVisit defaultParams nth true n l r).2 = false := by
  have hsize : (node (n.update l r) l r).treeSize = l.count + r.count + 1 := update_size hl hr
  have hrebuild : (rebuild nth (node (n.update l r) l r)).2 = false := by
    rw [rebuild, hsize, if_neg (not_le.mpr hsmall)]
  rw [endVisit]
  split_ifs
  · exact hrebuild
  · rfl

/-- A point more, in a tree whose subtrees all stay here. -/
theorem addByPoint_balanced (point : P) (fatherAxis : Fin 3) {t : KdTree P F} (ht : t.Balanced)
    (hidle : (addByPoint defaultParams nth true point fatherAxis t).2 = false) :
    (addByPoint defaultParams nth true point fatherAxis t).1.Balanced := by
  induction fatherAxis, t using addByPoint.induct defaultParams nth true point with
  | case1 fatherAxis =>
    rw [addByPoint]
    exact update_balanced (l := null) (r := null) trivial trivial
      fun _ => ⟨Nat.le_refl 0, Nat.le_refl 0⟩
  | case2 _ n l r hside ih =>
    obtain ⟨-, hl, hr⟩ := ht
    rw [addByPoint, if_pos hside] at hidle ⊢
    obtain ⟨hleft, hended⟩ := Bool.or_eq_false_iff.mp hidle
    have hadded := ih (balanced_of_sizes hl (sizes_pushLeft n l)) hleft
    exact (endVisit_balanced nth hadded (balanced_of_sizes hr (sizes_pushRight n r)) hended).1
  | case3 _ n l r hside ih =>
    obtain ⟨-, hl, hr⟩ := ht
    rw [addByPoint, if_neg hside] at hidle ⊢
    obtain ⟨hright, hended⟩ := Bool.or_eq_false_iff.mp hidle
    have hadded := ih (balanced_of_sizes hr (sizes_pushRight n r)) hright
    exact (endVisit_balanced nth (balanced_of_sizes hl (sizes_pushLeft n l)) hadded hended).1

theorem addByPoint_stays (point : P) (fatherAxis : Fin 3) {t : KdTree P F} (ht : t.Balanced)
    (hsmall : (addByPoint defaultParams nth true point fatherAxis t).1.treeSize <
      multiThreadRebuildPointNum) :
    (addByPoint defaultParams nth true point fatherAxis t).1.Balanced := by
  apply addByPoint_balanced nth point fatherAxis ht
  by_contra hhanded
  have hlarge := addByPoint_large defaultParams nth true point fatherAxis
    (Bool.eq_true_of_not_eq_false hhanded)
  exact absurd hsmall (not_lt.mpr hlarge)

/-- A deletion only makes a tree smaller, so a small one stays here. -/
theorem deleteByRange_balanced (box : BoxPointType F) (isDownsample : Bool) {t : KdTree P F}
    (ht : t.Balanced) (hsmall : t.count < multiThreadRebuildPointNum) :
    (deleteByRange defaultParams nth box true isDownsample t).tree.Balanced ∧
      (deleteByRange defaultParams nth box true isDownsample t).tree.count ≤ t.count := by
  induction t using deleteByRange.induct defaultParams nth box true isDownsample with
  | case1 =>
    rw [deleteByRange]
    exact ⟨trivial, Nat.le_refl _⟩
  | case2 n l r hdeleted =>
    rw [deleteByRange, if_pos hdeleted]
    exact ⟨ht, Nat.le_refl _⟩
  | case3 n l r hdeleted hmisses =>
    rw [deleteByRange, if_neg hdeleted, if_pos hmisses]
    have hsizes : (node (n.working l r) (n.pushLeft l) (n.pushRight r)).sizes =
        (node n l r).sizes := sizes_pushDown n rfl l r
    exact ⟨balanced_of_sizes ht hsizes, (count_of_sizes hsizes).le⟩
  | case4 n l r hdeleted hmisses hcovers =>
    rw [deleteByRange, if_neg hdeleted, if_neg hmisses, if_pos hcovers]
    have hsizes : (node ((n.working l r).deleteTree isDownsample) (n.pushLeft l)
        (n.pushRight r)).sizes = (node n l r).sizes := sizes_pushDown n rfl l r
    exact ⟨balanced_of_sizes ht hsizes, (count_of_sizes hsizes).le⟩
  | case5 n l r hdeleted hmisses hcovers ihl ihr =>
    obtain ⟨-, hl, hr⟩ := ht
    rw [count] at hsmall ⊢
    rw [count_pushLeft] at ihl
    rw [count_pushRight] at ihr
    obtain ⟨hleft, hfewer⟩ := ihl (balanced_of_sizes hl (sizes_pushLeft n l)) (by omega)
    obtain ⟨hright, hfewer'⟩ := ihr (balanced_of_sizes hr (sizes_pushRight n r)) (by omega)
    rw [deleteByRange, if_neg hdeleted, if_neg hmisses, if_neg hcovers]
    obtain ⟨hended, hcount⟩ := endVisit_balanced nth hleft hright
      (endVisit_idle nth hleft hright (by omega))
    exact ⟨hended, hcount.trans (by omega)⟩

/-! ## Points and boxes -/

theorem addPoint_balanced {s s' : MapTree P F} (hs : s.rootNode.Balanced) {point : P}
    (hadd : s.addPoint defaultParams nth point = some s')
    (hsmall : s'.rootNode.treeSize < multiThreadRebuildPointNum) : s'.rootNode.Balanced := by
  rw [MapTree.addPoint] at hadd
  cases hroot : s.rootNode with
  | null =>
    rw [hroot] at hadd
    cases hadd
  | node n l r =>
    rw [hroot] at hadd hs
    obtain rfl := Option.some.inj hadd
    exact addByPoint_stays nth point n.divisionAxis hs hsmall

theorem addDownsampled_balanced {downsampleSize : F} {s s' : MapTree P F}
    (hs : s.rootNode.Balanced) (hbefore : s.rootNode.treeSize < multiThreadRebuildPointNum)
    {point : P} {counted : Bool}
    (hadd : s.addDownsampled defaultParams nth downsampleSize point = some (s', counted))
    (hafter : s'.rootNode.treeSize < multiThreadRebuildPointNum) : s'.rootNode.Balanced := by
  have hsizes := sizes_searchByRange (boxOfPoint downsampleSize (coords point)) s.rootNode
  have hsearched := balanced_of_sizes hs hsizes
  obtain hroot | ⟨cleared, result, axis, hcleared, hroot⟩ :=
    addDownsampled_cases defaultParams nth hadd
  · rw [hroot]
    exact hsearched
  · have hbalanced : cleared.Balanced := by
      rcases hcleared with rfl | rfl
      · exact hsearched
      · apply (deleteByRange_balanced nth _ true hsearched _).1
        rwa [count_of_sizes hsizes, ← treeSize_of_balanced hs]
    rw [hroot] at hafter ⊢
    exact addByPoint_stays nth result axis hbalanced hafter

theorem deletePointBoxes_balanced {s : MapTree P F} (hs : s.rootNode.Balanced)
    (hsmall : s.rootNode.treeSize < multiThreadRebuildPointNum)
    (boxes : List (BoxPointType F)) :
    (s.deletePointBoxes defaultParams nth boxes).1.rootNode.Balanced := by
  induction boxes generalizing s with
  | nil => exact hs
  | cons box rest ih =>
    rw [treeSize_of_balanced hs] at hsmall
    obtain ⟨hdeleted, hfewer⟩ := deleteByRange_balanced nth box false hs hsmall
    rw [deletePointBoxes_cons]
    apply ih (s := (s.deleteBox defaultParams nth box).1) hdeleted
    exact (treeSize_of_balanced hdeleted).trans_lt (hfewer.trans_lt hsmall)

/-! ## Calls -/

section

variable {K : Type} [Arith K] [PointType P K]

/-- The points or boxes of a call. -/
def MapCall.length : MapCall P K → ℕ
  | .addPoints pointToAdd _ => pointToAdd.length
  | .deletePointBoxes boxes => boxes.length

/-- A call with the first of its points or boxes only. -/
def MapCall.take (k : ℕ) : MapCall P K → MapCall P K
  | .addPoints pointToAdd downsampleOn => .addPoints (pointToAdd.take k) downsampleOn
  | .deletePointBoxes boxes => .deletePointBoxes (boxes.take k)

/-- Before a call and after each of its points or boxes, the tree is too small for the
thread. -/
def StaysSmall (params : KdTreeParams K) (nth : NthElement P K) (downsampleSize : K)
    (s : Option (MapTree P K)) (call : MapCall P K) : Prop :=
  ∀ k ≤ call.length, ∀ s' ∈ (mapCallStep params nth downsampleSize s (call.take k)).1,
    s'.rootNode.treeSize < multiThreadRebuildPointNum

instance (params : KdTreeParams K) (nth : NthElement P K) (downsampleSize : K)
    (s : Option (MapTree P K)) (call : MapCall P K) :
    Decidable (StaysSmall params nth downsampleSize s call) :=
  inferInstanceAs (Decidable (∀ k ≤ call.length,
    ∀ s' ∈ (mapCallStep params nth downsampleSize s (call.take k)).1,
      s'.rootNode.treeSize < multiThreadRebuildPointNum))

end

theorem mapCallStep_balanced {downsampleSize : F} {s s' : MapTree P F}
    (hs : s.rootNode.Balanced) {call : MapCall P F}
    (hsmall : StaysSmall defaultParams nth downsampleSize (some s) call)
    (hstep : (mapCallStep defaultParams nth downsampleSize (some s) call).1 = some s') :
    s'.rootNode.Balanced := by
  match call with
  | .addPoints points true =>
    obtain ⟨⟨s'', counter⟩, hadd, rfl⟩ := Option.map_eq_some_iff.mp hstep
    refine foldlM_keeps_while (I := fun acc : MapTree P F × ℕ => acc.1.rootNode.Balanced)
      (P := fun acc => acc.1.rootNode.treeSize < multiThreadRebuildPointNum) ?_ hs ?_ hadd
    · intro acc point acc' hacc hbefore hafter hpass
      obtain ⟨⟨t, counted⟩, hone, rfl⟩ := Option.map_eq_some_iff.mp hpass
      exact addDownsampled_balanced nth hacc hbefore hone hafter
    · intro k hk acc hacc
      exact hsmall k hk acc.1 (Option.mem_map_of_mem Prod.fst hacc)
  | .addPoints points false =>
    refine foldlM_keeps_while (I := fun acc : MapTree P F => acc.rootNode.Balanced)
      (P := fun acc => acc.rootNode.treeSize < multiThreadRebuildPointNum) ?_ hs ?_ hstep
    · exact fun acc point acc' hacc _ hafter hpass => addPoint_balanced nth hacc hpass hafter
    · exact fun k hk acc hacc => hsmall k hk acc hacc
  | .deletePointBoxes boxes =>
    obtain rfl := Option.some.inj hstep
    have hbefore : s.rootNode.treeSize < multiThreadRebuildPointNum :=
      hsmall 0 (Nat.zero_le _) s rfl
    exact deletePointBoxes_balanced nth hs hbefore boxes

/-- As long as no subtree is large enough for the thread, every call leaves the tree balanced
and its depth logarithmic. -/
theorem voxelMap_balanced (downsampleSize : F) {points : List P} (hne : points ≠ [])
    (calls : List (MapCall P F))
    (hsmall : (voxelMap defaultParams nth downsampleSize points).Along
      (StaysSmall defaultParams nth downsampleSize)
      (voxelMap defaultParams nth downsampleSize points).init calls) :
    ∃ s, (voxelMap defaultParams nth downsampleSize points).run
        (voxelMap defaultParams nth downsampleSize points).init calls = some s ∧
      s.rootNode.Balanced ∧
      (s.rootNode.depth : ℝ) ≤ 10 + Real.logb (5 / 3) s.rootNode.treeSize := by
  have hinvariant := Machine.run_along
    (I := fun o : Option (MapTree P F) => ∃ s, o = some s ∧ s.WellFormed ∧ s.rootNode.Balanced)
    (m := voxelMap defaultParams nth downsampleSize points)
    (fun o call ho hstays => by
      obtain ⟨s, rfl, hwell, hs⟩ := ho
      obtain ⟨s', hstep, hwell'⟩ := mapCallStep_wellFormed defaultParams nth hwell call
      exact ⟨s', hstep, hwell', mapCallStep_balanced nth hs hstays hstep⟩)
    ⟨_, rfl, build_wellFormed nth hne, buildTree_balanced nth points⟩ hsmall
  obtain ⟨s, hrun, -, hs⟩ := hinvariant
  exact ⟨s, hrun, hs, depth_le_logb hs⟩

/-- Eleven points in a row. -/
def rowPoints : List (Coords ℚ) := (List.range 11).map fun i => diagonal i

/-- More points at one end, where the tree is built again, and then a box at the other. -/
def rowCalls : List (MapCall (Coords ℚ) ℚ) :=
  [.addPoints [diagonal 11, diagonal 12, diagonal 13, diagonal 14, diagonal 15] false,
    .deletePointBoxes [⟨diagonal 0, diagonal 6⟩], .addPoints [diagonal 3] true]

theorem voxelMap_balanced_row :
    ∃ s, (voxelMap defaultParams sortedNthElement (2 : ℚ) rowPoints).run
        (voxelMap defaultParams sortedNthElement (2 : ℚ) rowPoints).init rowCalls = some s ∧
      s.rootNode.Balanced ∧
      (s.rootNode.depth : ℝ) ≤ 10 + Real.logb (5 / 3) s.rootNode.treeSize :=
  voxelMap_balanced sortedNthElement 2 (List.cons_ne_nil _ _) rowCalls (by decide +kernel)

end

end IkdTree
end RobotNav
