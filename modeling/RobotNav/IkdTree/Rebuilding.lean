/-
Runs with a rebuild.

A rebuild whose steps are safe loses nothing.  A map of points on a diagonal gets to
one with a box that takes just over half of it: `Rebuild` is then called for the root.
Between that and the copy the mapping thread goes on.  If it deletes all that is left
in the subtree, nothing is built of the copy, and the size of the missing root is read.
-/
import RobotNav.IkdTree.Interleaving

namespace RobotNav
namespace IkdTree

open PointType (coords)
open KdTree

variable {P K : Type} [Arith K] [PointType P K]
variable (params : KdTreeParams K) (nth : NthElement P K)

/-! ## A visit from half of the map to the other -/

/-- A node nothing has been deleted of, and to whose sons nothing is owed. -/
structure Plain (n : KdTreeNode P K) : Prop where
  treeDeleted : n.treeDeleted = false
  pointDeleted : n.pointDeleted = false
  left : n.needPushDownToLeft = false
  right : n.needPushDownToRight = false

theorem freshNode_plain (point : P) (axis : Fin 3) (l r : KdTree P K) :
    Plain ((KdTreeNode.init point axis : KdTreeNode P K).update l r) := by
  refine ⟨?_, rfl, rfl, rfl⟩
  simp [KdTreeNode.update, KdTreeNode.init]

theorem buildTree_plain {points : List P} (hne : points ≠ []) :
    ∃ n l r, buildTree nth points = node n l r ∧ Plain n := by
  cases points with
  | nil => exact absurd rfl hne
  | cons p ps =>
    rw [buildTree]
    exact ⟨_, _, _, rfl, freshNode_plain _ _ _ _⟩

theorem move_ready {n : KdTreeNode P K} (hn : Plain n) (l r : KdTree P K)
    (box : BoxPointType K) (q : ManualQ (LoggedOp P K)) :
    (MapOp.deleteBox box).move params nth false .ready (node n l r) none q =
      ⟨.pushed, node (n.working l r) l r, q, false, none⟩ := by
  have hsame {need : Bool} (hneed : need = false) (t : KdTree P K) : t.receive n need = t := by
    subst hneed
    cases t <;> rfl
  have hunlocked : pushLocked none n l r = none := by simp [pushLocked]
  rw [MapOp.move, MapOp.stopsAt, hn.treeDeleted, if_neg Bool.false_ne_true, hunlocked]
  show (⟨.pushed, node (n.working l r) (l.receive n _) (r.receive n _), q, false, none⟩ :
    Moved P K) = _
  rw [hsame hn.left, hsame hn.right]

theorem move_missed {n : KdTreeNode P K} {l r : KdTree P K} {box : BoxPointType K}
    (hmisses : box.misses n.nodeRange) (q : ManualQ (LoggedOp P K)) :
    (MapOp.deleteBox box).move params nth false .pushed (node n l r) none q =
      ⟨.done, node n l r, q, false, none⟩ := by
  simp only [MapOp.move, if_pos hmisses]

theorem move_covered {n : KdTreeNode P K} {l r : KdTree P K} {box : BoxPointType K}
    (hmisses : ¬ box.misses n.nodeRange) (hcovers : box.covers n.nodeRange)
    (q : ManualQ (LoggedOp P K)) :
    (MapOp.deleteBox box).move params nth false .pushed (node n l r) none q =
      ⟨.done, node (n.deleteTree false) l r, q, false, none⟩ := by
  simp only [MapOp.move, if_neg hmisses, if_pos hcovers]

theorem move_cut {n : KdTreeNode P K} {l r : KdTree P K} {box : BoxPointType K}
    (hmisses : ¬ box.misses n.nodeRange) (hcovers : ¬ box.covers n.nodeRange)
    (q : ManualQ (LoggedOp P K)) :
    (MapOp.deleteBox box).move params nth false .pushed (node n l r) none q =
      ⟨.enter .left, node (n.deletePoint box) l r, q, false, none⟩ := by
  simp only [MapOp.move, if_neg hmisses, if_neg hcovers]

/-- The mapping thread in a visit, with nothing asked of the other one. -/
def visitingAlone (op : MapOp P K) (v : Visit) (t : KdTree P K) (ops : List (MapOp P K))
    (q : ℕ → LoggedOp P K) : ThreadState P K :=
  { ThreadState.start t ops q with mapper := .visiting op v }

theorem step_visitingAlone {op : MapOp P K} {v v' : Visit} {t t' : KdTree P K}
    {q : ℕ → LoggedOp P K}
    (hmove : op.move params nth false v t none (.clear q) = ⟨v', t', .clear q, false, none⟩)
    (hmore : v' ≠ .done) (ops : List (MapOp P K)) :
    (visitingAlone op v t ops q).step params nth .mapping = visitingAlone op v' t' ops q := by
  have hstep : (visitingAlone op v t ops q).step params nth .mapping =
      ((visitingAlone op v t ops q).visited op
        (op.move params nth false v t none (.clear q))).request
          (op.move params nth false v t none (.clear q)).asks := rfl
  rw [hstep, hmove]
  simp only [ThreadState.request, ThreadState.visited, if_neg hmore, Bool.false_eq_true, if_false]
  rfl

/-- A step in the call for a son. -/
theorem move_inside {op : MapOp P K} {s : Side} {v v' : Visit} {n : KdTreeNode P K}
    {l r t : KdTree P K} {q : ManualQ (LoggedOp P K)}
    (hmove : op.move params nth false v (s.son l r) none q = ⟨v', t, q, false, none⟩) :
    op.move params nth false (.inside s v) (node n l r) none q =
      ⟨op.around s v', s.graft n l r t, q, false, none⟩ := by
  rw [MapOp.move]
  simp only [Side.below, hmove]
  rfl

theorem move_enter {op : MapOp P K} {s : Side} {n : KdTreeNode P K} {l r : KdTree P K}
    (hthere : (s.son l r).isNull = false) (q : ManualQ (LoggedOp P K)) :
    op.move params nth false (.enter s) (node n l r) none q =
      ⟨.inside s .ready, node n l r, q, false, none⟩ := by
  rw [MapOp.move, if_neg (by simp [Side.below]), hthere, if_neg Bool.false_ne_true]

/-- A box that takes the left son as a whole, cuts the node and misses the right son, up
to the end of the visit. -/
theorem halfDeleted {n nl nr : KdTreeNode P K} (ll lr rl rr : KdTree P K)
    {box : BoxPointType K} (hn : Plain n) (hnl : Plain nl) (hnr : Plain nr)
    (hcut : ¬ box.misses n.nodeRange ∧ ¬ box.covers n.nodeRange)
    (hcovered : ¬ box.misses nl.nodeRange ∧ box.covers nl.nodeRange)
    (hmissed : box.misses nr.nodeRange) (points : List P) (started ops : List (MapOp P K))
    (q : ℕ → LoggedOp P K) :
    (threads params nth points started q).run
        (visitingAlone (.deleteBox box) .ready (node n (node nl ll lr) (node nr rl rr)) ops q)
        (List.replicate 8 .mapping) =
      visitingAlone (.deleteBox box) .ending
        (node ((n.working (node nl ll lr) (node nr rl rr)).deletePoint box)
          (node ((nl.working ll lr).deleteTree false) ll lr) (node (nr.working rl rr) rl rr))
        ops q := by
  have hnext (s : ThreadState P K) :
      (threads params nth points started q).next s .mapping = s.step params nth .mapping := rfl
  let n' := (n.working (node nl ll lr) (node nr rl rr)).deletePoint box
  let r := node nr rl rr
  let l' := node ((nl.working ll lr).deleteTree false) ll lr
  have hpush := step_visitingAlone params nth
    (move_ready params nth hn (node nl ll lr) r box (.clear q)) nofun ops
  have hown := step_visitingAlone params nth
    (move_cut params nth (n := n.working (node nl ll lr) r) (l := node nl ll lr) (r := r) hcut.1
      hcut.2 (.clear q)) nofun ops
  have hleft : (visitingAlone (.deleteBox box) (.enter .left) (node n' (node nl ll lr) r) ops
      q).step params nth .mapping =
      visitingAlone (.deleteBox box) (.inside .left .ready) (node n' (node nl ll lr) r) ops q :=
    step_visitingAlone params nth (move_enter params nth rfl _) nofun ops
  have hpushLeft : (visitingAlone (.deleteBox box) (.inside .left .ready)
      (node n' (node nl ll lr) r) ops q).step params nth .mapping =
      visitingAlone (.deleteBox box) (.inside .left .pushed)
        (node n' (node (nl.working ll lr) ll lr) r) ops q :=
    step_visitingAlone params nth (move_inside params nth (s := .left)
      (move_ready params nth hnl ll lr box (.clear q))) nofun ops
  have hdeleteLeft : (visitingAlone (.deleteBox box) (.inside .left .pushed)
      (node n' (node (nl.working ll lr) ll lr) r) ops q).step params nth .mapping =
      visitingAlone (.deleteBox box) (.enter .right) (node n' l' r) ops q :=
    step_visitingAlone params nth (move_inside params nth (s := .left)
      (move_covered params nth (n := nl.working ll lr) hcovered.1 hcovered.2 (.clear q))) nofun ops
  have hright : (visitingAlone (.deleteBox box) (.enter .right) (node n' l' r) ops q).step params
      nth .mapping =
      visitingAlone (.deleteBox box) (.inside .right .ready) (node n' l' r) ops q :=
    step_visitingAlone params nth (move_enter params nth rfl _) nofun ops
  have hpushRight : (visitingAlone (.deleteBox box) (.inside .right .ready) (node n' l' r) ops
      q).step params nth .mapping =
      visitingAlone (.deleteBox box) (.inside .right .pushed)
        (node n' l' (node (nr.working rl rr) rl rr)) ops q :=
    step_visitingAlone params nth (move_inside params nth (s := .right)
      (move_ready params nth hnr rl rr box (.clear q))) nofun ops
  have hmissRight : (visitingAlone (.deleteBox box) (.inside .right .pushed)
      (node n' l' (node (nr.working rl rr) rl rr)) ops q).step params nth .mapping =
      visitingAlone (.deleteBox box) .ending (node n' l' (node (nr.working rl rr) rl rr)) ops q :=
    step_visitingAlone params nth (move_inside params nth (s := .right)
      (move_missed params nth (n := nr.working rl rr) hmissed (.clear q))) nofun ops
  simp only [List.replicate, Machine.run_cons, Machine.run_nil, hnext]
  rw [hpush, hown, hleft, hpushLeft, hdeleteLeft, hright, hpushRight, hmissRight]

/-- The end of a visit that calls `Rebuild` for the root. -/
theorem step_ending (op : MapOp P K) {n : KdTreeNode P K} {l r : KdTree P K}
    (hasks : (endVisit params nth true n l r).2 = true) (ops : List (MapOp P K))
    (q : ℕ → LoggedOp P K) :
    (visitingAlone op .ending (node n l r) ops q).step params nth .mapping =
      { ThreadState.start (endVisit params nth true n l r).1 ops q with
        rebuildPtr := some [] } := by
  have hstep : (visitingAlone op .ending (node n l r) ops q).step params nth .mapping =
      ((visitingAlone op .ending (node n l r) ops q).visited op
        ⟨.done, (endVisit params nth true n l r).1, .clear q, false,
          if (endVisit params nth true n l r).2 then some [] else none⟩).request
          (if (endVisit params nth true n l r).2 then some [] else none) := rfl
  rw [hstep, hasks]
  rfl

/-- As long as nothing has been copied the mapping thread may do what it likes. -/
theorem ThreadState.Sane.mapping_safe {points : List P} {ops : List (MapOp P K)}
    {s : ThreadState P K} (h : s.Sane points ops) (hflag : s.rebuildFlag = false)
    (q : ℕ → LoggedOp P K) (k : ℕ) :
    (threads params nth points ops q).Along Safe s (List.replicate k .mapping) := by
  induction k generalizing s with
  | zero => trivial
  | succ k ih =>
    obtain ⟨-, -, -, hflag'⟩ := h.executes.mapperStep params nth h.fault
    have hsafe : s.Safe .mapping := by
      intro hup
      rw [hflag] at hup
      cases hup
    have hstep := step_mapping params nth h.fault
    refine ⟨hsafe, ih (s := s.step params nth .mapping) (h.step params nth hsafe) ?_⟩
    rw [hstep, hflag', hflag]

/-! ## Points on a diagonal -/

/-- So many points on the diagonal, from this one on. -/
def diagonalFrom (a n : ℕ) : List (Coords ℚ) :=
  (List.range' a n).map fun i : ℕ => diagonal (i : ℤ)

/-- The box from one point of the diagonal up to another, without it. -/
def diagonalBox (a b : ℕ) : BoxPointType ℚ := ⟨diagonal a, diagonal b⟩

theorem mem_diagonalFrom {a n : ℕ} {p : Coords ℚ} :
    p ∈ diagonalFrom a n ↔ ∃ i, a ≤ i ∧ i < a + n ∧ p = diagonal i := by
  rw [diagonalFrom, List.mem_map]
  constructor
  · rintro ⟨i, hi, rfl⟩
    rw [List.mem_range'_1] at hi
    exact ⟨i, hi.1, hi.2, rfl⟩
  · rintro ⟨i, hge, hlt, rfl⟩
    exact ⟨i, List.mem_range'_1.mpr ⟨hge, hlt⟩, rfl⟩

theorem diagonal_le {i j : ℕ} (axis : Fin 3) :
    (diagonal i) axis ≤ (diagonal j) axis ↔ i ≤ j := by
  rw [diagonal, diagonal, lit_eq, lit_eq]
  exact_mod_cast Iff.rfl

theorem diagonal_lt {i j : ℕ} (axis : Fin 3) :
    (diagonal i) axis < (diagonal j) axis ↔ i < j := by
  rw [← not_le, diagonal_le, not_le]

theorem diagonalBox_contains {a b i : ℕ} :
    (diagonalBox a b).contains (coords (diagonal i)) ↔ a ≤ i ∧ i < b := by
  constructor
  · intro h
    exact ⟨(diagonal_le 0).mp (h 0).1, (diagonal_lt 0).mp (h 0).2⟩
  · intro h axis
    exact ⟨(diagonal_le axis).mpr h.1, (diagonal_lt axis).mpr h.2⟩

theorem sortedBy_diagonalFrom (axis : Fin 3) (a n : ℕ) :
    sortedBy axis (diagonalFrom a n) = diagonalFrom a n := by
  apply List.Pairwise.insertionSort_eq
  rw [diagonalFrom, List.pairwise_map]
  exact (List.pairwise_le_range' 1).imp fun hle => (diagonal_le axis).mpr hle

theorem diagonalFrom_split (k : ℕ) :
    diagonalFrom 0 (2 * k + 1) =
      diagonalFrom 0 k ++ diagonal k :: diagonalFrom (k + 1) k := by
  have hrange : List.range' 0 (2 * k + 1) = List.range' 0 k ++ k :: List.range' (k + 1) k := by
    have hsum : 2 * k + 1 = k + (k + 1) := by omega
    rw [hsum, ← List.range'_append_1, Nat.zero_add, List.range'_succ]
  rw [diagonalFrom, hrange, List.map_append, List.map_cons]
  rfl

theorem buildTree_diagonal (k : ℕ) :
    ∃ axis, buildTree sortedNthElement (diagonalFrom 0 (2 * k + 1)) =
      freshNode (diagonal k) axis (buildTree sortedNthElement (diagonalFrom 0 k))
        (buildTree sortedNthElement (diagonalFrom (k + 1) k)) := by
  have hlength : (diagonalFrom 0 (2 * k + 1)).length = 2 * k + 1 := by
    rw [diagonalFrom, List.length_map, List.length_range']
  cases hpoints : diagonalFrom 0 (2 * k + 1) with
  | nil =>
    rw [hpoints] at hlength
    cases hlength
  | cons p ps =>
    rw [hpoints, List.length_cons] at hlength
    have hmid : ps.length / 2 = k := by omega
    have hsplit (axis : Fin 3) : sortedNthElement.run axis p ps k =
        (diagonalFrom 0 k, diagonal k, diagonalFrom (k + 1) k) := by
      have hfront : (diagonalFrom 0 k).length = k := by
        rw [diagonalFrom, List.length_map, List.length_range']
      show splitAt axis p ps k = _
      rw [splitAt, ← hpoints, sortedBy_diagonalFrom, diagonalFrom_split, List.take_left' hfront,
        List.drop_left' hfront]
      rfl
    refine ⟨divisionAxis p ps, ?_⟩
    rw [buildTree, hmid, hsplit]

theorem buildTree_invalid (nth : NthElement P K) (points : List P) :
    (buildTree nth points).invalidPointNum = 0 := by
  induction points using buildTree.induct nth with
  | case1 =>
    rw [buildTree]
    rfl
  | case2 p ps axis parts ihl ihr =>
    rw [buildTree]
    show (buildTree nth parts.1).invalidPointNum + (buildTree nth parts.2.2).invalidPointNum + _ = 0
    rw [ihl, ihr]
    rfl

/-- A map of points on the diagonal, as it is built. -/
structure Diagonal (a k : ℕ) (n : KdTreeNode (Coords ℚ) ℚ) (l r : KdTree (Coords ℚ) ℚ) :
    Prop where
  plain : Plain n
  spans : Spans n.nodeRange (diagonalFrom a k)
  size : n.treeSize = k
  invalid : n.invalidPointNum = 0

theorem built_diagonal {a k : ℕ} (hk : 0 < k) :
    ∃ n l r, buildTree sortedNthElement (diagonalFrom a k) = node n l r ∧ Diagonal a k n l r := by
  have hlength : (diagonalFrom a k).length = k := by
    rw [diagonalFrom, List.length_map, List.length_range']
  have hne : diagonalFrom a k ≠ [] := by
    intro hnil
    rw [hnil] at hlength
    exact hk.ne hlength
  obtain ⟨n, l, r, hbuilt, hplain⟩ := buildTree_plain sortedNthElement hne
  obtain ⟨hsound, hperm, -⟩ := buildTree_spec sortedNthElement (diagonalFrom a k)
  have hcounted := buildTree_counted sortedNthElement (diagonalFrom a k)
  have hinvalid := buildTree_invalid sortedNthElement (diagonalFrom a k)
  have hsize := treeSize_eq hcounted
  rw [hinvalid, hperm.length_eq, hlength, Nat.zero_add] at hsize
  rw [hbuilt] at hsound hperm hinvalid hsize
  rw [live_node, hplain.treeDeleted] at hperm
  have hspans := (hsound.1.held hplain.treeDeleted).2
  exact ⟨n, l, r, hbuilt, hplain, hspans.perm (Multiset.coe_eq_coe.mpr hperm), hsize, hinvalid⟩

variable {a k : ℕ} {n : KdTreeNode (Coords ℚ) ℚ} {l r : KdTree (Coords ℚ) ℚ}

theorem Diagonal.not_misses (h : Diagonal a k n l r) {x y i : ℕ} (hi : a ≤ i ∧ i < a + k)
    (hbox : x ≤ i ∧ i < y) : ¬ (diagonalBox x y).misses n.nodeRange := by
  intro hmisses
  have hmem : (diagonal i : Coords ℚ) ∈ diagonalFrom a k :=
    mem_diagonalFrom.mpr ⟨i, hi.1, hi.2, rfl⟩
  exact Bounds.not_inside h.spans hmisses hmem (diagonalBox_contains.mpr hbox)

theorem Diagonal.misses (h : Diagonal a k n l r) {x y : ℕ} (hbox : y ≤ a) :
    (diagonalBox x y).misses n.nodeRange := by
  obtain ⟨p, hp, hleast⟩ := (h.spans.least 0).1
  obtain ⟨i, hi, -, rfl⟩ := mem_diagonalFrom.mp hp
  refine ⟨0, .inl ?_⟩
  rw [← hleast]
  exact (diagonal_le 0).mpr (hbox.trans hi)

theorem Diagonal.covers_iff (h : Diagonal a k n l r) {x y : ℕ} :
    (diagonalBox x y).covers n.nodeRange ↔ ∀ i, a ≤ i → i < a + k → x ≤ i ∧ i < y := by
  rw [← h.spans.spare_eq_nil_iff, BoxPointType.spare, List.filter_eq_nil_iff]
  constructor
  · intro hall i hge hlt
    have hinside := hall (diagonal i) (mem_diagonalFrom.mpr ⟨i, hge, hlt, rfl⟩)
    simp only [Bool.not_eq_true', decide_eq_false_iff_not, not_not] at hinside
    exact diagonalBox_contains.mp hinside
  · intro hall p hp
    obtain ⟨i, hge, hlt, rfl⟩ := mem_diagonalFrom.mp hp
    simp only [Bool.not_eq_true', decide_eq_false_iff_not, not_not]
    exact diagonalBox_contains.mpr (hall i hge hlt)

theorem endVisit_asks {n : KdTreeNode P K} {l r : KdTree P K}
    (hcriterion : criterionCheck params (n.update l r) l r = true)
    (hlarge : multiThreadRebuildPointNum ≤ l.treeSize + r.treeSize + 1) :
    (endVisit params nth true n l r).2 = true := by
  have hsize : multiThreadRebuildPointNum ≤ (node (n.update l r) l r).treeSize := hlarge
  rw [endVisit, hcriterion, Bool.and_true, if_pos rfl, rebuild, if_pos hsize]

/-- More than half of a large map is gone. -/
theorem halfDeleted_asks {n : KdTreeNode (Coords ℚ) ℚ} {l r : KdTree (Coords ℚ) ℚ} {k : ℕ}
    (hk : 750 ≤ k) (hpoint : n.pointDeleted = true) (hl : l.treeSize = k)
    (hl' : l.invalidPointNum = k) (hr : r.treeSize = k) (hr' : r.invalidPointNum = 0) :
    (endVisit defaultParams sortedNthElement true n l r).2 = true := by
  have hsize : (n.update l r).treeSize = 2 * k + 1 := by
    show l.treeSize + r.treeSize + 1 = _
    omega
  have hinvalid : (n.update l r).invalidPointNum = k + 1 := by
    show l.invalidPointNum + r.invalidPointNum + (if n.pointDeleted then 1 else 0) = _
    rw [hpoint, if_pos rfl, hl', hr', Nat.add_zero]
  apply endVisit_asks
  · have hhalf : (defaultParams : KdTreeParams ℚ).deleteCriterionParam <
        lit (k + 1 : ℕ) / lit (2 * k + 1 : ℕ) := by
      rw [defaultParams, ratio_eq, lit_eq, lit_eq, div_lt_div_iff₀ (by norm_num) (by positivity)]
      push_cast
      linarith
    have hmany : ¬ 2 * k + 1 ≤ minimalUnbalancedTreeSize := by
      rw [minimalUnbalancedTreeSize]
      omega
    rw [criterionCheck, hsize, hinvalid, if_neg hmany]
    simp only [decide_eq_true hhalf, Bool.true_or]
  · rw [hl, hr, multiThreadRebuildPointNum]
    omega

/-- The two boxes. -/
def halfAndRest (k : ℕ) : List (MapOp (Coords ℚ) ℚ) :=
  [.deleteBox (diagonalBox 0 (k + 1)), .deleteBox (diagonalBox 0 (2 * k + 1))]

/-- After the first box `Rebuild_Ptr` points at the whole map. -/
theorem first_box_asks {k : ℕ} (hk : 750 ≤ k) (q : ℕ → LoggedOp (Coords ℚ) ℚ) :
    ∃ t, (threads defaultParams sortedNthElement (diagonalFrom 0 (2 * k + 1)) (halfAndRest k)
        q).run (.start (buildTree sortedNthElement (diagonalFrom 0 (2 * k + 1))) (halfAndRest k) q)
        (List.replicate 10 .mapping) =
      { ThreadState.start t [.deleteBox (diagonalBox 0 (2 * k + 1))] q with
        rebuildPtr := some [] } := by
  have hpos : 0 < k := by omega
  obtain ⟨n, l, r, hbuilt, hn⟩ := built_diagonal (a := 0) (k := 2 * k + 1) (Nat.succ_pos _)
  obtain ⟨nl, ll, lr, hleft, hnl⟩ := built_diagonal (a := 0) hpos
  obtain ⟨nr, rl, rr, hright, hnr⟩ := built_diagonal (a := k + 1) hpos
  obtain ⟨axis, hparts⟩ := buildTree_diagonal k
  rw [hleft, hright, hbuilt, freshNode] at hparts
  injection hparts with hroot hl hr
  subst hl hr
  have hinside : (diagonalBox 0 (k + 1)).contains (coords n.point) := by
    rw [hroot]
    exact diagonalBox_contains.mpr ⟨Nat.zero_le k, Nat.lt_succ_self k⟩
  have hcut : ¬ (diagonalBox 0 (k + 1)).misses n.nodeRange ∧
      ¬ (diagonalBox 0 (k + 1)).covers n.nodeRange := by
    refine ⟨hn.not_misses (i := 0) (by omega) (by omega), fun hcovers => ?_⟩
    have hlast := hn.covers_iff.mp hcovers (2 * k) (Nat.zero_le _) (by omega)
    omega
  have hcovered : ¬ (diagonalBox 0 (k + 1)).misses nl.nodeRange ∧
      (diagonalBox 0 (k + 1)).covers nl.nodeRange := by
    refine ⟨hnl.not_misses (i := 0) (by omega) (by omega), hnl.covers_iff.mpr fun i _ hlt => ?_⟩
    omega
  have hmissed : (diagonalBox 0 (k + 1)).misses nr.nodeRange := hnr.misses (le_refl _)
  have hpoint : ((n.working (node nl ll lr) (node nr rl rr)).deletePoint
      (diagonalBox 0 (k + 1))).pointDeleted = true := by
    show (n.pointDeleted || (!n.pointDeleted &&
      decide ((diagonalBox 0 (k + 1)).contains (coords n.point)))) = true
    rw [hn.plain.pointDeleted, decide_eq_true hinside]
    rfl
  have hasks := halfDeleted_asks
    (n := (n.working (node nl ll lr) (node nr rl rr)).deletePoint (diagonalBox 0 (k + 1)))
    (l := node ((nl.working ll lr).deleteTree false) ll lr)
    (r := node (nr.working rl rr) rl rr) hk hpoint hnl.size hnl.size hnr.size hnr.invalid
  have hvisit := halfDeleted defaultParams sortedNthElement ll lr rl rr hn.plain hnl.plain
    hnr.plain hcut hcovered hmissed (diagonalFrom 0 (2 * k + 1)) (halfAndRest k)
    [.deleteBox (diagonalBox 0 (2 * k + 1))] q
  have hend := step_ending defaultParams sortedNthElement
    (.deleteBox (diagonalBox 0 (k + 1))) hasks [.deleteBox (diagonalBox 0 (2 * k + 1))] q
  have horder : List.replicate 10 Thread.mapping =
      .mapping :: (List.replicate 8 .mapping ++ [.mapping]) := rfl
  rw [hbuilt, horder]
  simp only [Machine.run_cons, Machine.run_append]
  exact ⟨_, (congrArg (fun s => (threads defaultParams sortedNthElement
    (diagonalFrom 0 (2 * k + 1)) (halfAndRest k) q).run s [.mapping]) hvisit).trans hend⟩

theorem diagonalFrom_ne_nil (k : ℕ) : diagonalFrom 0 (2 * k + 1) ≠ [] := by
  intro hnil
  have hmem : (diagonal k : Coords ℚ) ∈ diagonalFrom 0 (2 * k + 1) :=
    mem_diagonalFrom.mpr ⟨k, Nat.zero_le k, by omega, rfl⟩
  rw [hnil] at hmem
  cases hmem

/-- After the first box the map holds what it should, and the steps were safe. -/
theorem first_box_sane {k : ℕ} (hk : 750 ≤ k) (q : ℕ → LoggedOp (Coords ℚ) ℚ) :
    ∃ t, (threads defaultParams sortedNthElement (diagonalFrom 0 (2 * k + 1)) (halfAndRest k)
        q).run (.start (buildTree sortedNthElement (diagonalFrom 0 (2 * k + 1))) (halfAndRest k) q)
        (List.replicate 10 .mapping) =
      { ThreadState.start t [.deleteBox (diagonalBox 0 (2 * k + 1))] q with
        rebuildPtr := some [] } ∧
      (threads defaultParams sortedNthElement (diagonalFrom 0 (2 * k + 1)) (halfAndRest k)
        q).Along ThreadState.Safe
        (.start (buildTree sortedNthElement (diagonalFrom 0 (2 * k + 1))) (halfAndRest k) q)
        (List.replicate 10 .mapping) ∧
      ThreadState.Sane (diagonalFrom 0 (2 * k + 1)) (halfAndRest k)
        { ThreadState.start t [.deleteBox (diagonalBox 0 (2 * k + 1))] q with
          rebuildPtr := some [] } ∧
      t.held = applyAll [.deleteBox (diagonalBox 0 (k + 1))] (diagonalFrom 0 (2 * k + 1)) := by
  have hstart := ThreadState.sane_start sortedNthElement (diagonalFrom_ne_nil k) (halfAndRest k) q
  have hsafe := hstart.mapping_safe defaultParams sortedNthElement rfl q 10
  have hsane := Machine.run_along
    (m := threads defaultParams sortedNthElement (diagonalFrom 0 (2 * k + 1)) (halfAndRest k) q)
    (I := ThreadState.Sane (diagonalFrom 0 (2 * k + 1)) (halfAndRest k)) (P := ThreadState.Safe)
    (fun s thread hs hstep => hs.step defaultParams sortedNthElement hstep) hstart hsafe
  obtain ⟨t, hasked⟩ := first_box_asks hk q
  rw [hasked] at hsane
  refine ⟨t, hasked, hsafe, hsane, ?_⟩
  obtain ⟨started, hops, hholds⟩ := hsane.executes
  have hstarted : [.deleteBox (diagonalBox 0 (k + 1))] = started := List.append_cancel_right hops
  rw [hstarted]
  exact hholds.2.2

/-- The rebuild thread has copied the map, if it has anything to rebuild at all. -/
structure ThreadState.BehindCopy (s : ThreadState P K) : Prop where
  whole : ∀ path, s.rebuildPtr = some path → path = []
  free : s.phase ≠ .free
  locked : s.phase ≠ .locked

theorem ThreadState.BehindCopy.rebuildStep {s : ThreadState P K} (h : s.BehindCopy) :
    (s.rebuildStep params nth).BehindCopy := by
  obtain ⟨hwhole, hfree, hlocked⟩ := h
  rw [ThreadState.rebuildStep]
  split
  · rename_i hphase
    exact absurd hphase hfree
  · rename_i hphase
    exact absurd hphase hlocked
  · exact ⟨hwhole, hfree, hlocked⟩
  · exact ⟨hwhole, by simp, by simp⟩
  · split_ifs
    · split
      · exact ⟨hwhole, hfree, hlocked⟩
      · exact ⟨by simp, by simp, by simp⟩
    · split
      · exact ⟨hwhole, hfree, hlocked⟩
      · exact ⟨hwhole, by simp, by simp⟩
  · exact ⟨hwhole, by simp, by simp⟩
  · exact ⟨hwhole, hfree, hlocked⟩

omit [Arith K] [PointType P K] in
theorem ThreadState.BehindCopy.safe {s : ThreadState P K} (h : s.BehindCopy) :
    s.Safe .rebuilding := by
  rw [Safe]
  split
  · rename_i hphase
    exact absurd hphase h.locked
  · intro hempty path hpath
    obtain rfl := h.whole path hpath
    trivial
  · trivial

/-- Behind the copy of the whole map the rebuild thread is safe. -/
theorem ThreadState.BehindCopy.along {points : List P} {ops : List (MapOp P K)}
    {s : ThreadState P K} (h : s.BehindCopy) (q : ℕ → LoggedOp P K) (k : ℕ) :
    (threads params nth points ops q).Along Safe s (List.replicate k .rebuilding) := by
  induction k generalizing s with
  | zero => trivial
  | succ k ih =>
    refine ⟨h.safe, ih ?_⟩
    show (s.step params nth .rebuilding).BehindCopy
    rw [ThreadState.step]
    split_ifs
    · exact h
    · exact h.rebuildStep params nth

/-- A rebuild of the whole map: an operation comes when the copy has been made, and is
logged. -/
theorem ThreadState.rebuild_safe {points : List P} {ops : List (MapOp P K)} {t : KdTree P K}
    (hthere : t.isNull = false) (hkept : t.treeDeleted = false) (op : MapOp P K)
    (q : ℕ → LoggedOp P K) :
    (threads params nth points ops q).Along Safe
      { ThreadState.start t [op] q with rebuildPtr := some [] }
      ([.rebuilding, .rebuilding, .mapping, .mapping] ++ List.replicate 4 .rebuilding) := by
  have hcopy (path : List Side) (hpath : some [] = some path) :
      (t.subtree path).treeDeleted = false := by
    obtain rfl := Option.some.inj hpath
    exact hkept
  have hroom : (0 : ℕ) < qLen := by decide
  have hflat : t.flatten.2.isNull = false := by
    cases t with
    | null => cases hthere
    | node n l r =>
      rw [KdTree.flatten]
      rfl
  let copied : ThreadState P K :=
    { ThreadState.start t.flatten.2 [op] q with
      rebuildPtr := some []
      rebuildFlag := true
      phase := .copied t.flatten.1 }
  have hentered : copied.step params nth .mapping =
      { copied with mapper := .rootLock op, ops := [] } := by
    rw [step_mapping params nth (s := copied) rfl, mapperStep_cons params nth rfl hflat rfl]
    exact congrArg (fun mapper : Mapper P K => { copied with mapper := mapper, ops := [] })
      (if_pos rfl)
  refine ⟨trivial, hcopy, fun _ _ => hroom, ?_⟩
  show (threads params nth points ops q).Along Safe (copied.step params nth .mapping)
    (.mapping :: List.replicate 4 .rebuilding)
  rw [hentered]
  refine ⟨fun _ _ => hroom, ThreadState.BehindCopy.along params nth ?_ q 4⟩
  show (ThreadState.step params nth { copied with mapper := .rootLock op, ops := [] }
    .mapping).BehindCopy
  rw [step_mapping params nth (s := { copied with mapper := .rootLock op, ops := [] }) rfl,
    mapperStep_rootLock params nth (s := { copied with mapper := .rootLock op, ops := [] }) rfl]
  refine ⟨fun path hpath => ?_, by simp [copied], by simp [copied]⟩
  dsimp only at hpath
  split_ifs at hpath
  exact (Option.some.inj hpath).symm

/-- What the first box leaves. -/
theorem first_box_leaves {k : ℕ} (hk : 0 < k) :
    (diagonal (2 * k : ℕ) : Coords ℚ) ∈
      applyAll [.deleteBox (diagonalBox 0 (k + 1))] (diagonalFrom 0 (2 * k + 1)) := by
  show (diagonal (2 * k : ℕ) : Coords ℚ) ∈
    (MapOp.deleteBox (diagonalBox 0 (k + 1))).apply (diagonalFrom 0 (2 * k + 1))
  rw [MapOp.apply, sparedBy, Multiset.mem_filter]
  refine ⟨Multiset.mem_coe.mpr (mem_diagonalFrom.mpr ⟨2 * k, Nat.zero_le _, by omega, rfl⟩), ?_⟩
  intro box hbox hinside
  obtain rfl := List.mem_singleton.mp hbox
  have := (diagonalBox_contains.mp hinside).2
  omega

/-- The first box, and the rebuild it calls for; the second box comes behind the copy
and is replayed. -/
def halfRebuiltOrder : List Thread :=
  List.replicate 10 .mapping ++
    ([.rebuilding, .rebuilding, .mapping, .mapping] ++ List.replicate 4 .rebuilding)

theorem halfRebuilt_safe {k : ℕ} (hk : 750 ≤ k) (q : ℕ → LoggedOp (Coords ℚ) ℚ) :
    (threads defaultParams sortedNthElement (diagonalFrom 0 (2 * k + 1)) (halfAndRest k) q).Along
      ThreadState.Safe
      (threads defaultParams sortedNthElement (diagonalFrom 0 (2 * k + 1)) (halfAndRest k) q).init
      halfRebuiltOrder := by
  obtain ⟨t, hasked, hsafe, hsane, hheld⟩ := first_box_sane hk q
  have hthere : t.isNull = false := hsane.executes.choose_spec.2.there
  have hkept : t.treeDeleted = false := by
    by_contra hdeleted
    have hleaves := first_box_leaves (k := k) (by omega)
    rw [← hheld, held_of_deleted (Bool.eq_true_of_not_eq_false hdeleted)] at hleaves
    exact Multiset.notMem_zero _ hleaves
  refine Machine.along_append.mpr ⟨hsafe, ?_⟩
  show Machine.Along _ _ (Machine.run _ (ThreadState.start _ _ q) _) _
  rw [hasked]
  exact ThreadState.rebuild_safe defaultParams sortedNthElement hthere hkept _ q

/-! ## Whole runs -/

/-- A rebuild loses nothing in any order of the steps in which every step is safe. -/
theorem rebuild_losesNothing {points : List P} (hne : points ≠ []) (ops : List (MapOp P K))
    (q : ℕ → LoggedOp P K) (order : List Thread)
    (hsafe : (threads params nth points ops q).Along ThreadState.Safe
      (threads params nth points ops q).init order) :
    LosesNothing params nth points ops
      ((threads params nth points ops q).run (threads params nth points ops q).init order) := by
  have hsane := Machine.run_along (m := threads params nth points ops q)
    (I := ThreadState.Sane points ops) (P := ThreadState.Safe)
    (fun s thread hs hstep => hs.step params nth hstep)
    (ThreadState.sane_start nth hne ops q) hsafe
  exact hsane.losesNothing params nth

theorem rebuild_losesNothing_half :
    LosesNothing defaultParams sortedNthElement (diagonalFrom 0 1501) (halfAndRest 750)
      ((threads defaultParams sortedNthElement (diagonalFrom 0 1501) (halfAndRest 750)
          fun _ => .pushDown false false).run
        (threads defaultParams sortedNthElement (diagonalFrom 0 1501) (halfAndRest 750)
          fun _ => .pushDown false false).init halfRebuiltOrder) :=
  rebuild_losesNothing defaultParams sortedNthElement (diagonalFrom_ne_nil 750) (halfAndRest 750)
    (fun _ => .pushDown false false) halfRebuiltOrder
    (halfRebuilt_safe (le_refl _) fun _ => .pushDown false false)

/-! ## Nothing to copy -/

theorem ThreadState.Sane.copy_faults {points : List P} {ops : List (MapOp P K)}
    {s : ThreadState P K} (h : s.Sane points ops) (hphase : s.phase = .locked)
    {path : List Side} (hptr : s.rebuildPtr = some path)
    (hdeleted : (s.rootNode.subtree path).treeDeleted = true) :
    ((s.step params nth .rebuilding).step params nth .rebuilding).fault = true := by
  obtain ⟨hfault, ⟨started, -, hholds⟩, hprepared⟩ := h
  rw [Prepared, hphase] at hprepared
  obtain ⟨path', htarget⟩ : ∃ path', s.Target path' :=
    hprepared.2.2.resolve_left fun hnone => by rw [hptr] at hnone; cases hnone.1
  obtain rfl : path' = path := Option.some.inj (htarget.1.symm.trans hptr)
  rw [hphase] at hholds
  have hwhole := hholds.subtree htarget.2.2
  have hnothing : (s.rootNode.subtree path').flatten.1 = [] := by
    rw [(flatten_spec hwhole.sound).1]
    exact live_of_deleted hdeleted
  have hcopy : s.step params nth .rebuilding =
      { s with
        rootNode := putIn (s.rootNode.subtree path').flatten.2 path' s.rootNode
        rebuildFlag := true
        phase := .copied [] } := by
    simp only [ThreadState.step, ThreadState.rebuildStep, hfault, hphase, hptr, hnothing,
      Bool.false_eq_true, if_false]
  rw [hcopy]
  simp only [ThreadState.step, ThreadState.rebuildStep, hfault, Bool.false_eq_true, if_false]

/-- An operation that leaves nothing, between the request and the copy. -/
theorem ThreadState.Sane.emptied_faults {points : List P} {ops : List (MapOp P K)}
    {s : ThreadState P K} (h : s.Sane points ops) (hphase : s.phase = .free)
    (hidle : s.mapper = .idle) (hptr : s.rebuildPtr = some []) {op : MapOp P K}
    (hops : s.ops = [op]) (hgone : op.apply s.rootNode.held = 0) (q : ℕ → LoggedOp P K) :
    ((threads params nth points ops q).run s
      [.rebuilding, .mapping, .mapping, .rebuilding, .rebuilding]).fault = true := by
  have hfault := h.fault
  have hquiet := h.prepared
  rw [Prepared, hphase] at hquiet
  obtain ⟨started, -, hholds⟩ := h.executes
  have hthere := hholds.there
  rw [hidle] at hholds
  have hwhole : Whole true s.rootNode := by
    rw [hphase] at hholds
    exact hholds.1
  -- the thread waits for the lock, and the operation is at the lock for the root
  let waiting : ThreadState P K := { s with phase := .locked }
  let entered : ThreadState P K := { waiting with mapper := .rootLock op, ops := [] }
  have hlocked : s.step params nth .rebuilding = waiting := by
    rw [step_rebuilding params nth hfault, ThreadState.rebuildStep, hphase]
  have hstarted : waiting.step params nth .mapping = entered := by
    rw [step_mapping params nth (s := waiting) hfault,
      mapperStep_cons params nth (s := waiting) hidle hthere hops]
    simp only [waiting, entered, hptr, if_true]
  have hwaiting : waiting.Sane points ops := by
    rw [← hlocked]
    exact h.step params nth (by simp only [Safe, hphase])
  have hentered : entered.Sane points ops := by
    rw [← hstarted]
    refine hwaiting.step params nth fun hup => ?_
    rw [show waiting.rebuildFlag = false from hquiet.1] at hup
    cases hup
  -- it leaves nothing
  have hemptied := step_mapping params nth hentered.fault
  have hsane : (entered.mapperStep params nth).Sane points ops := by
    refine hentered.mapperStep params nth fun hup => ?_
    rw [show entered.rebuildFlag = false from hquiet.1] at hup
    cases hup
  obtain ⟨-, -, hphase', -⟩ := hentered.executes.mapperStep params nth hentered.fault
  obtain ⟨started', -, hholds'⟩ := hentered.executes
  have hlarge : s.rootNode.Large := by
    rcases hquiet.2.2 with hnone | ⟨path, htarget⟩
    · rw [hptr] at hnone
      cases hnone.1
    · obtain rfl := Option.some.inj (htarget.1.symm.trans hptr)
      exact htarget.2.1
  have htarget : (entered.mapperStep params nth).Target [] := by
    have hnext := (mapperStep_target params nth hholds' ⟨hptr, hlarge, rfl⟩).2
    exact hnext.resolve_right fun hfree => by cases hfree.1
  have hroot : (entered.mapperStep params nth).rootNode =
      op.run params nth false s.rootNode.rootAxis s.rootNode := by
    rw [mapperStep_rootLock params nth (s := entered) rfl]
    rfl
  obtain ⟨hrun, hheld, -⟩ := run_spec params nth op false s.rootNode.rootAxis hwhole
  have hdeleted : ((entered.mapperStep params nth).rootNode.subtree []).treeDeleted = true := by
    rw [hroot]
    exact treeDeleted_of_held hrun.sound (hheld.trans hgone)
  have hcopy := hsane.copy_faults params nth hphase' htarget.1 hdeleted
  have hnext (s' : ThreadState P K) (thread : Thread) :
      (threads params nth points ops q).next s' thread = s'.step params nth thread := rfl
  simp only [Machine.run_cons, Machine.run_nil, hnext]
  rw [hlocked, hstarted, hemptied]
  exact hcopy

/-- The second box leaves nothing. -/
theorem second_box_empties {m : Multiset (Coords ℚ)} {k : ℕ}
    (hm : m = applyAll [.deleteBox (diagonalBox 0 (k + 1))] (diagonalFrom 0 (2 * k + 1))) :
    (MapOp.deleteBox (diagonalBox 0 (2 * k + 1))).apply m = 0 := by
  have hsome : m ≤ (diagonalFrom 0 (2 * k + 1) : Multiset (Coords ℚ)) := by
    rw [hm]
    exact Multiset.filter_le _ _
  rw [MapOp.apply, sparedBy, Multiset.filter_eq_nil]
  intro p hp hspared
  obtain ⟨i, -, hlt, rfl⟩ := mem_diagonalFrom.mp (Multiset.mem_coe.mp (Multiset.mem_of_le hsome hp))
  have hinside : (diagonalBox 0 (2 * k + 1)).contains (coords (diagonal i)) :=
    diagonalBox_contains.mpr ⟨Nat.zero_le i, by omega⟩
  exact hspared _ List.mem_cons_self hinside

/-- What the threads do: a deletion as a whole, the request, a deletion before the copy,
and the copy. -/
def emptyCopyOrder : List Thread :=
  List.replicate 10 .mapping ++ [.rebuilding, .mapping, .mapping, .rebuilding, .rebuilding]

/-- A map that is emptied between the request and the copy. -/
theorem emptyCopy_faults {k : ℕ} (hk : 750 ≤ k) (q : ℕ → LoggedOp (Coords ℚ) ℚ) :
    ((threads defaultParams sortedNthElement (diagonalFrom 0 (2 * k + 1)) (halfAndRest k) q).run
      (threads defaultParams sortedNthElement (diagonalFrom 0 (2 * k + 1)) (halfAndRest k) q).init
      emptyCopyOrder).fault = true := by
  obtain ⟨t, hasked, -, hsane, hheld⟩ := first_box_sane hk q
  have hfaults := hsane.emptied_faults defaultParams sortedNthElement rfl rfl rfl rfl
    (second_box_empties hheld) q
  rw [emptyCopyOrder, Machine.run_append]
  show (Machine.run _ (Machine.run _ (ThreadState.start _ _ q) _) _).fault = true
  rw [hasked]
  exact hfaults

/-- With 1501 points the first box leaves 750 of them. -/
theorem emptyCopy_losesNothing_fails :
    ¬ LosesNothing defaultParams sortedNthElement (diagonalFrom 0 1501) (halfAndRest 750)
      ((threads defaultParams sortedNthElement (diagonalFrom 0 1501) (halfAndRest 750)
          fun _ => .pushDown false false).run
        (threads defaultParams sortedNthElement (diagonalFrom 0 1501) (halfAndRest 750)
          fun _ => .pushDown false false).init emptyCopyOrder) := by
  intro h
  have hfault := emptyCopy_faults (k := 750) (le_refl _) fun _ => .pushDown false false
  exact absurd (h.1.symm.trans hfault) Bool.false_ne_true

end IkdTree
end RobotNav
