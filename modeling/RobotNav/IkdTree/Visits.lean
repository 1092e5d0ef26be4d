/-
The visits of the mapping thread, step by step: what the tree will hold when the
visit is over does not depend on where it stands, nor on what the rebuild thread does
to subtrees that are not being visited.
-/
import RobotNav.IkdTree.Places

namespace RobotNav
namespace IkdTree

open PointType (coords)
open KdTree

variable {P K : Type} [Arith K] [PointType P K]
variable (params : KdTreeParams K) (nth : NthElement P K)

/-! ## The calls as a whole -/

/-- What an operation does to the points. -/
def MapOp.apply (op : MapOp P K) (m : Multiset P) : Multiset P :=
  match op with
  | addPoint point => point ::ₘ m
  | deleteBox box => sparedBy [box] m

theorem apply_deleteBox_coe (box : BoxPointType K) (ps : List P) :
    (MapOp.deleteBox box : MapOp P K).apply (ps : Multiset P) = box.spare ps := by
  rw [MapOp.apply, sparedBy, Multiset.filter_coe, BoxPointType.spare]
  simp

theorem run_spec (op : MapOp P K) (allowRebuild : Bool) (axis : Fin 3) {strict : Bool}
    {t : KdTree P K} (ht : Whole strict t) :
    Whole strict (op.run params nth allowRebuild axis t) ∧
      (op.run params nth allowRebuild axis t).held = op.apply t.held ∧
      (t.isNull = false → (op.run params nth allowRebuild axis t).isNull = false) := by
  cases op with
  | addPoint point =>
    obtain ⟨hsound, hperm, hnull, -⟩ :=
      addByPoint_spec params nth allowRebuild point axis ht.sound
    refine ⟨⟨hsound, fun hs => ?_⟩, ?_, fun _ => hnull⟩
    · exact addByPoint_counted params nth allowRebuild point axis ht.sound (ht.counted hs)
    · exact Multiset.coe_eq_coe.mpr hperm
  | deleteBox box =>
    obtain ⟨hsound, hperm, hnull⟩ := deleteByRange_spec params nth box allowRebuild false ht.sound
    refine ⟨⟨hsound, fun hs => ?_⟩, ?_, fun hthere => hnull.trans hthere⟩
    · exact (deleteByRange_counted params nth box allowRebuild false ht.sound (ht.counted hs)).1
    · rw [KdTree.held, KdTree.held, apply_deleteBox_coe]
      exact Multiset.coe_eq_coe.mpr hperm

/-! ## Sizes -/

omit [Arith K] [PointType P K] in
theorem treeSize_eq_count {t : KdTree P K} (ht : t.Counted) : t.treeSize = t.count := by
  induction t with
  | null => rfl
  | node n l r ihl ihr =>
    rw [treeSize_node, KdTree.count, ht.1.size, ihl ht.2.1, ihr ht.2.2]

omit [Arith K] [PointType P K] in
theorem count_stopWorking (t : KdTree P K) : t.stopWorking.count = t.count := by
  cases t with
  | null => rfl
  | node n l r => rfl

theorem endVisit_count (n : KdTreeNode P K) (l r : KdTree P K) :
    (endVisit params nth false n l r).1.count = l.count + r.count + 1 := by
  rw [endVisit, Bool.false_and, if_neg Bool.false_ne_true, count_stopWorking]
  rfl

theorem addByPoint_count (point : P) (axis : Fin 3) (t : KdTree P K) :
    (addByPoint params nth false point axis t).1.count = t.count + 1 := by
  induction axis, t using addByPoint.induct params nth false point with
  | case1 axis =>
    rw [addByPoint]
    rfl
  | case2 _ n l r hside ih =>
    rw [addByPoint, if_pos hside, endVisit_count, ih, count_pushLeft, count_pushRight,
      KdTree.count]
    omega
  | case3 _ n l r hside ih =>
    rw [addByPoint, if_neg hside, endVisit_count, ih, count_pushLeft, count_pushRight,
      KdTree.count]
    omega

theorem deleteByRange_count (box : BoxPointType K) (t : KdTree P K) :
    (deleteByRange params nth box false false t).tree.count = t.count := by
  induction t using deleteByRange.induct params nth box false false with
  | case1 => rw [deleteByRange]
  | case2 n l r hdeleted => rw [deleteByRange, if_pos hdeleted]
  | case3 n l r hdeleted hmisses =>
    rw [deleteByRange, if_neg hdeleted, if_pos hmisses]
    simp [KdTree.count]
  | case4 n l r hdeleted hmisses hcovers =>
    rw [deleteByRange, if_neg hdeleted, if_neg hmisses, if_pos hcovers]
    simp [KdTree.count]
  | case5 n l r hdeleted hmisses hcovers ihl ihr =>
    rw [deleteByRange, if_neg hdeleted, if_neg hmisses, if_neg hcovers, endVisit_count, ihl, ihr,
      count_pushLeft, count_pushRight, KdTree.count]

/-- Without a rebuild a subtree does not get smaller. -/
theorem run_large (op : MapOp P K) (axis : Fin 3) {t : KdTree P K} (ht : Whole true t)
    (hlarge : t.Large) : (op.run params nth false axis t).Large := by
  have hcounted := (run_spec params nth op false axis ht).1.counted rfl
  have hsize := treeSize_eq_count (ht.counted rfl)
  have hcount : t.count ≤ (op.run params nth false axis t).count := by
    cases op with
    | addPoint point => exact (addByPoint_count params nth point axis t).symm ▸ Nat.le_succ _
    | deleteBox box => exact (deleteByRange_count params nth box t).ge
  rw [KdTree.Large, treeSize_eq_count hcounted]
  rw [KdTree.Large, hsize] at hlarge
  exact hlarge.trans hcount

/-! ## Where a visit stands -/

/-- What is left to do at the other son, after the call for this one. -/
def MapOp.rest (op : MapOp P K) (s : Side) (m : Multiset P) : Multiset P :=
  match op, s with
  | deleteBox box, .left => sparedBy [box] m
  | _, _ => m

/-- There is no such son. -/
def Missing (t : KdTree P K) : Prop := t = null

/-- A node behind `Push_Down`; a flag is left for a son who is missing, or for the leaf
that has just been added there. -/
structure OpenNode (fine : KdTree P K → Prop) (n : KdTreeNode P K) (l r : KdTree P K) :
    Prop where
  working : n.workingFlag = true
  owed : ∀ s : Side, n.need s = true → fine (s.son l r)
  point : n.pointDownsampleDeleted = true → n.pointDeleted = true

/-- Before the call for a son, or at its lock. -/
structure Entering (strict : Bool) (op : MapOp P K) (s : Side) (n : KdTreeNode P K)
    (l r : KdTree P K) (m : Multiset P) : Prop where
  node : OpenNode Missing n l r
  sons : ∀ s' : Side, Whole strict (s'.son l r)
  total : n.ownPoint + op.apply (s.son l r).held + op.rest s (s.other.son l r).held = m
  held : m ≠ 0

/-- In the call for a son, which is to leave it with the points `m'`. -/
structure Inside (strict : Bool) (op : MapOp P K) (s : Side) (n : KdTreeNode P K)
    (l r : KdTree P K) (m' m : Multiset P) : Prop where
  node : OpenNode Missing n l r
  need : n.need s = false
  other : Whole strict (s.other.son l r)
  total : n.ownPoint + m' + op.rest s (s.other.son l r).held = m
  held : m ≠ 0

structure Ending (strict : Bool) (n : KdTreeNode P K) (l r : KdTree P K) (m : Multiset P) :
    Prop where
  node : OpenNode Harmless n l r
  sons : ∀ s : Side, Whole strict (s.son l r)
  total : (contents n l r : Multiset P) = m
  held : m ≠ 0

/-- The subtree is being visited by an operation that is to leave it with the points
`m`. -/
def Doing (strict : Bool) (op : MapOp P K) : Visit → KdTree P K → Multiset P → Prop
  | _, null, _ => False
  | .ready, node n l r, m => Whole strict (node n l r) ∧ op.apply (node n l r).held = m
  | .pushLock s, node n l r, m =>
    Whole strict (node n l r) ∧ op.apply (node n l r).held = m ∧ op.stopsAt n = false ∧
      n.workingFlag = true ∧ n.need s = true
  | .pushed, node n l r, m =>
    Whole strict (node n l r) ∧ op.apply (node n l r).held = m ∧ op.stopsAt n = false ∧
      OpenNode Missing n l r
  | .enter s, node n l r, m => Entering strict op s n l r m
  | .opLock s, node n l r, m => Entering strict op s n l r m
  | .inside s v, node n l r, m =>
    ∃ m', Doing strict op v (s.son l r) m' ∧ Inside strict op s n l r m' m
  | .ending, node n l r, m => Ending strict n l r m
  | .done, node n l r, m => Whole strict (node n l r) ∧ (node n l r).held = m

theorem Doing.there {strict : Bool} {op : MapOp P K} {v : Visit} {t : KdTree P K}
    {m : Multiset P} (h : Doing strict op v t m) : t.isNull = false := by
  cases t with
  | null => cases v <;> exact h.elim
  | node n l r => rfl

theorem Doing.exists_node {strict : Bool} {op : MapOp P K} {v : Visit} {t : KdTree P K}
    {m : Multiset P} (h : Doing strict op v t m) : ∃ n l r, t = node n l r := by
  cases t with
  | null =>
    have hthere := h.there
    cases hthere
  | node n l r => exact ⟨n, l, r, rfl⟩

/-- A visit that is over leaves the subtree with what it was to leave it with. -/
theorem Doing.of_done {strict : Bool} {op : MapOp P K} {t : KdTree P K} {m : Multiset P}
    (h : Doing strict op .done t m) : Whole strict t ∧ t.held = m := by
  cases t with
  | null => exact h.elim
  | node n l r => exact h

/-! ## One step -/

theorem Whole.working {strict : Bool} {n : KdTreeNode P K} {l r : KdTree P K}
    (h : Whole strict (node n l r)) (working : Bool) :
    Whole strict (node { n with workingFlag := working } l r) := by
  obtain ⟨⟨hnode, hl, hr⟩, hcounted⟩ := h
  refine ⟨⟨?_, hl, hr⟩, fun hs => ?_⟩
  · exact ⟨hnode.flagged, hnode.held, hnode.left, hnode.right, hnode.downsampledTree,
      hnode.downsampledPoint⟩
  · obtain ⟨hcount, hsons⟩ := hcounted hs
    exact ⟨⟨hcount.size, hcount.invalid⟩, hsons⟩

theorem pushed_spec {strict : Bool} {n : KdTreeNode P K} {l r : KdTree P K}
    (h : Whole strict (node n l r)) :
    Whole strict (node (n.working l r) (n.pushLeft l) (n.pushRight r)) ∧
      (node (n.working l r) (n.pushLeft l) (n.pushRight r)).held = (node n l r).held ∧
      OpenNode Missing (n.working l r) (n.pushLeft l) (n.pushRight r) := by
  obtain ⟨hsound, hlive⟩ := pushDown_sound h.sound true
  refine ⟨⟨hsound, fun hs => ?_⟩, ?_, rfl, fun s hs => ?_, h.sound.1.downsampledPoint⟩
  · obtain ⟨hl, hr, hnode⟩ := pushDown_counted h.sound (h.counted hs)
    exact ⟨⟨hnode.size, hnode.invalid⟩, hl, hr⟩
  · exact congrArg (fun ps : List P => (ps : Multiset P)) hlive
  · cases s with
    | left => exact working_left (r := r) hs
    | right => exact working_right (l := l) hs

omit [Arith K] [PointType P K] in
theorem OpenNode.graft {fine : KdTree P K → Prop} {n : KdTreeNode P K} {l r : KdTree P K}
    (h : OpenNode fine n l r) {s : Side} (hneed : n.need s = false) (t : KdTree P K) :
    OpenNode fine n (s.put l r t).1 (s.put l r t).2 := by
  refine ⟨h.working, fun s' hs' => ?_, h.point⟩
  by_cases hside : s' = s
  · rw [hside, hneed] at hs'
    cases hs'
  · rw [Side.eq_other_of_ne hside] at hs' ⊢
    rw [Side.other_son_put]
    exact h.owed s.other hs'

theorem Inside.graft {strict : Bool} {op : MapOp P K} {s : Side} {n : KdTreeNode P K}
    {l r : KdTree P K} {m' m : Multiset P} (h : Inside strict op s n l r m' m)
    (t : KdTree P K) : Inside strict op s n (s.put l r t).1 (s.put l r t).2 m' m := by
  refine ⟨h.node.graft h.need t, h.need, ?_, ?_, h.held⟩
  · rw [Side.other_son_put]
    exact h.other
  · rw [Side.other_son_put]
    exact h.total

/-- Behind `Push_Down` a node holds its own point and what the sons hold. -/
theorem OpenNode.held {n : KdTreeNode P K} {l r : KdTree P K}
    (h : OpenNode Missing n l r) (ht : (node n l r).Sound) :
    (node n l r).held = contents n l r := by
  rw [KdTree.held, live_node]
  split_ifs with hdeleted
  · obtain ⟨hpoint, hl, hr⟩ := ht.1.flagged hdeleted
    have hgone (s : Side) (hs : n.need s = true ∨ (s.son l r).treeDeleted = true) :
        (s.son l r).live = [] := by
      rcases hs with hneed | hson
      · have hmissing : s.son l r = null := h.owed s hneed
        rw [hmissing]
        rfl
      · exact live_of_deleted hson
    have hleft : l.live = [] := hgone .left hl
    have hright : r.live = [] := hgone .right hr
    rw [contents, hleft, hright, KdTreeNode.own, if_pos hpoint]
    rfl
  · rfl

/-- Behind the call for a son. -/
theorem next_doing {strict : Bool} {op : MapOp P K} {s : Side} {n : KdTreeNode P K}
    {l r t : KdTree P K} {m : Multiset P} (hnode : OpenNode Missing n l r)
    (hother : Whole strict (s.other.son l r)) (ht : Whole strict t)
    (hnew : n.need s = true → ∃ allowRebuild axis, t = op.run params nth allowRebuild axis null)
    (htotal : n.ownPoint + t.held + op.rest s (s.other.son l r).held = m) (hheld : m ≠ 0) :
    Doing strict op (op.next s) (s.graft n l r t) m := by
  have hsons (s' : Side) : Whole strict (s'.son (s.put l r t).1 (s.put l r t).2) := by
    by_cases hside : s' = s
    · rw [hside, Side.son_put]
      exact ht
    · rw [Side.eq_other_of_ne hside, Side.other_son_put]
      exact hother
  have howed (fine : KdTree P K → Prop) (hnull : fine null) (hfine : n.need s = true → fine t)
      (s' : Side) (hs' : n.need s' = true) : fine (s'.son (s.put l r t).1 (s.put l r t).2) := by
    by_cases hside : s' = s
    · subst hside
      rw [Side.son_put]
      exact hfine hs'
    · rw [Side.eq_other_of_ne hside] at hs' ⊢
      have hmissing : s.other.son l r = null := hnode.owed s.other hs'
      rw [Side.other_son_put, hmissing]
      exact hnull
  have hending (hrest : op.rest s (s.other.son l r).held = (s.other.son l r).held) :
      Ending strict n (s.put l r t).1 (s.put l r t).2 m := by
    refine ⟨⟨hnode.working, howed Harmless (.inl rfl) fun hs => ?_, hnode.point⟩, hsons, ?_, hheld⟩
    · obtain ⟨allowRebuild, axis, rfl⟩ := hnew hs
      cases op with
      | addPoint point =>
        exact (addByPoint_spec params nth allowRebuild point axis (t := null) trivial).2.2.2 rfl
      | deleteBox box =>
        rw [MapOp.run, deleteByRange]
        exact .inl rfl
    · rw [coe_contents_put, ← htotal, hrest]
  cases op with
  | addPoint point => exact hending rfl
  | deleteBox box =>
    cases s with
    | right => exact hending rfl
    | left =>
      refine ⟨⟨hnode.working, howed Missing rfl fun hs => ?_, hnode.point⟩, hsons, ?_, hheld⟩
      · obtain ⟨allowRebuild, axis, rfl⟩ := hnew hs
        rw [MapOp.run, deleteByRange]
        rfl
      · rw [← htotal]
        exact add_right_comm _ _ _

/-- What comes behind `Push_Down`. -/
theorem move_pushed {strict : Bool} {op : MapOp P K} {n : KdTreeNode P K} {l r : KdTree P K}
    {m : Multiset P} (h : Doing strict op .pushed (node n l r) m) (rebuildFlag : Bool)
    (rebuildPtr : Option (List Side)) (q : ManualQ (LoggedOp P K)) :
    Doing strict op (op.move params nth rebuildFlag .pushed (node n l r) rebuildPtr q).visit
      (op.move params nth rebuildFlag .pushed (node n l r) rebuildPtr q).tree m := by
  obtain ⟨hwhole, rfl, hstops, hopen⟩ := h
  have hheld := hopen.held hwhole.sound
  cases op with
  | addPoint point =>
    have hentering (s : Side) :
        Entering strict (.addPoint point) s n l r (point ::ₘ (node n l r).held) := by
      refine ⟨hopen, hwhole.son, ?_, Multiset.cons_ne_zero⟩
      rw [hheld, coe_contents_side s]
      show n.ownPoint + (point ::ₘ (s.son l r).held) + (s.other.son l r).held = _
      rw [Multiset.add_cons, Multiset.cons_add]
    exact hentering _
  | deleteBox box =>
    have hkept : n.treeDeleted = false := hstops
    have hspans := (hwhole.sound.1.held hkept).2
    have hlive : (MapOp.deleteBox box).apply (node n l r).held =
        (box.spare (contents n l r) : Multiset P) := by
      rw [hheld, apply_deleteBox_coe]
    rw [hlive]
    simp only [MapOp.move]
    split_ifs with hmisses hcovers
    · refine ⟨hwhole, ?_⟩
      rw [hheld, hspans.spare_of_misses hmisses]
    · obtain ⟨hsound, hcounted⟩ := hwhole
      refine ⟨⟨⟨nodeSound_of_flagged rfl rfl (.inl rfl) (.inl rfl), hsound.2⟩, fun hs => ?_⟩, ?_⟩
      · exact ⟨⟨(hcounted hs).1.size, rfl⟩, (hcounted hs).2⟩
      · rw [hspans.spare_eq_nil_iff.mpr hcovers]
        exact held_of_deleted rfl
    · have hown : (n.deletePoint box).own = box.spare n.own := marked_own rfl rfl
      refine ⟨⟨hopen.working, hopen.owed, fun hs => ?_⟩, hwhole.son, ?_, ?_⟩
      · rw [KdTreeNode.deletePoint, hopen.point hs]
        rfl
      · have hparts : box.spare (contents n l r) =
            box.spare n.own ++ box.spare l.live ++ box.spare r.live := by
          simp only [contents, BoxPointType.spare, List.filter_append]
        rw [hparts, ← Multiset.coe_add, ← Multiset.coe_add, ← apply_deleteBox_coe box l.live,
          ← apply_deleteBox_coe box r.live, ← hown]
        rfl
      · intro hnone
        exact hcovers (hspans.spare_eq_nil_iff.mp ((Multiset.coe_eq_zero _).mp hnone))

omit [Arith K] [PointType P K] in
theorem pushLocked_eq_some {rebuildPtr : Option (List Side)} {n : KdTreeNode P K}
    {l r : KdTree P K} {s : Side} (h : pushLocked rebuildPtr n l r = some s) :
    rebuildPtr = some [s] ∧ n.need s = true ∧ (s.son l r).isNull = false := by
  rw [pushLocked] at h
  split_ifs at h with hleft hright
  · obtain rfl := Option.some.inj h
    exact hleft
  · obtain rfl := Option.some.inj h
    exact hright

/-- The call for a son as a whole, in `Add_by_point` or under the lock. -/
theorem Entering.next {strict : Bool} {op : MapOp P K} {s : Side} {n : KdTreeNode P K}
    {l r : KdTree P K} {m : Multiset P} (h : Entering strict op s n l r m)
    (allowRebuild : Bool) :
    Doing strict op (op.next s)
      (s.graft n l r (op.run params nth allowRebuild n.divisionAxis (s.son l r))) m := by
  obtain ⟨hwhole, hheld, -⟩ := run_spec params nth op allowRebuild n.divisionAxis (h.sons s)
  apply next_doing params nth h.node (h.sons s.other) hwhole
  · intro hneed
    have hmissing : s.son l r = null := h.node.owed s hneed
    rw [hmissing]
    exact ⟨allowRebuild, n.divisionAxis, rfl⟩
  · rw [hheld]
    exact h.total
  · exact h.held

theorem Entering.enter {strict : Bool} {op : MapOp P K} {s : Side} {n : KdTreeNode P K}
    {l r : KdTree P K} {m : Multiset P} (h : Entering strict op s n l r m)
    (hthere : (s.son l r).isNull = false) :
    Doing strict op (.inside s .ready) (KdTree.node n l r) m := by
  have hneed : n.need s = false := by
    by_contra hneed
    have hmissing : s.son l r = null := h.node.owed s (Bool.eq_true_of_not_eq_false hneed)
    rw [hmissing] at hthere
    cases hthere
  refine ⟨op.apply (s.son l r).held, ?_, h.node, hneed, h.sons s.other, h.total, h.held⟩
  have hwhole := h.sons s
  cases hson : s.son l r with
  | null =>
    rw [hson] at hthere
    cases hthere
  | node n' l' r' =>
    rw [hson] at hwhole
    exact ⟨hwhole, rfl⟩

/-- `Update`, and the rebuild that may follow it. -/
theorem Ending.finish {strict : Bool} {op : MapOp P K} {n : KdTreeNode P K} {l r : KdTree P K}
    {m : Multiset P} (h : Ending strict n l r m) :
    Doing strict op .done (endVisit params nth true n l r).1 m := by
  obtain ⟨hnode, hsons, rfl, hheld⟩ := h
  have hne : contents n l r ≠ [] := fun hnil => hheld ((Multiset.coe_eq_zero _).mpr hnil)
  have hl : Whole strict l := hsons .left
  have hr : Whole strict r := hsons .right
  obtain ⟨hsound, hperm, hnull⟩ := endVisit_spec params nth true hl.sound hr.sound
    (hnode.owed .left) (hnode.owed .right) hnode.point hne
  have hcounted (hs : strict = true) : (endVisit params nth true n l r).1.Counted :=
    endVisit_counted params nth true (hl.counted hs) (hr.counted hs)
  have hlive : (endVisit params nth true n l r).1.held = contents n l r :=
    Multiset.coe_eq_coe.mpr hperm
  cases hended : (endVisit params nth true n l r).1 with
  | null =>
    rw [hended] at hnull
    cases hnull
  | node n' l' r' =>
    rw [hended] at hsound hcounted hlive
    exact ⟨⟨hsound, hcounted⟩, hlive⟩

/-- A step of a visit changes nothing of what the visit is to leave. -/
theorem move_doing {strict : Bool} {op : MapOp P K} (rebuildFlag : Bool) {v : Visit}
    {t : KdTree P K} {m : Multiset P} (h : Doing strict op v t m)
    (rebuildPtr : Option (List Side)) (q : ManualQ (LoggedOp P K)) :
    Doing strict op (op.move params nth rebuildFlag v t rebuildPtr q).visit
      (op.move params nth rebuildFlag v t rebuildPtr q).tree m := by
  induction v generalizing t m rebuildPtr with
  | ready =>
    obtain ⟨n, l, r, rfl⟩ := h.exists_node
    obtain ⟨hwhole, hheld⟩ := h
    rw [MapOp.move]
    split_ifs with hstops
    · cases op with
      | addPoint point => cases hstops
      | deleteBox box =>
        have hgone : (node n l r).held = 0 := held_of_deleted hstops
        refine ⟨hwhole, ?_⟩
        rw [← hheld, hgone]
        rfl
    · have hstops' := Bool.eq_false_of_not_eq_true hstops
      cases hlocked : pushLocked rebuildPtr n l r with
      | some s =>
        obtain ⟨-, hneed, -⟩ := pushLocked_eq_some hlocked
        exact ⟨hwhole.working true, hheld, hstops', rfl, hneed⟩
      | none =>
        obtain ⟨hpushed, hsame, hopen⟩ := pushed_spec hwhole
        exact ⟨hpushed, by rw [hsame, hheld], hstops', hopen⟩
  | pushLock s =>
    obtain ⟨n, l, r, rfl⟩ := h.exists_node
    obtain ⟨hwhole, hheld, hstops, -⟩ := h
    obtain ⟨hpushed, hsame, hopen⟩ := pushed_spec hwhole
    exact ⟨hpushed, by rw [hsame, hheld], hstops, hopen⟩
  | pushed =>
    obtain ⟨n, l, r, rfl⟩ := h.exists_node
    exact move_pushed params nth h rebuildFlag rebuildPtr q
  | enter s =>
    obtain ⟨n, l, r, rfl⟩ := h.exists_node
    have hentering : Entering strict op s n l r m := h
    rw [MapOp.move]
    split_ifs with htarget hnull
    · exact hentering
    · have hmissing : s.son l r = null := by
        cases hson : s.son l r with
        | null => rfl
        | node =>
          rw [hson] at hnull
          cases hnull
      have hnext := hentering.next params nth true
      rw [hmissing] at hnext
      exact hnext
    · exact hentering.enter (Bool.eq_false_of_not_eq_true hnull)
  | opLock s =>
    obtain ⟨n, l, r, rfl⟩ := h.exists_node
    exact Entering.next params nth h false
  | inside s v ih =>
    obtain ⟨n, l, r, rfl⟩ := h.exists_node
    obtain ⟨m', hson, hinside⟩ := h
    have hmoved := ih hson (s.below rebuildPtr)
    rw [MapOp.move]
    split_ifs with hdone
    · rw [hdone] at hmoved
      obtain ⟨hwhole, hheld⟩ := hmoved.of_done
      apply next_doing params nth hinside.node hinside.other hwhole
      · intro hneed
        rw [hinside.need] at hneed
        cases hneed
      · rw [hheld]
        exact hinside.total
      · exact hinside.held
    · refine ⟨m', ?_, hinside.graft _⟩
      rw [Side.son_put]
      exact hmoved
  | ending =>
    obtain ⟨n, l, r, rfl⟩ := h.exists_node
    exact Ending.finish params nth h
  | done =>
    obtain ⟨n, l, r, rfl⟩ := h.exists_node
    exact h

/-! ## The other thread -/

/-- Nothing of the subtree in this place is being visited. -/
def Visit.Away : Visit → List Side → Prop
  | _, [] => False
  | .inside s v, s' :: path => s = s' → v.Away path
  | _, _ :: _ => True

theorem Visit.Away.exists_cons {v : Visit} {path : List Side} (h : v.Away path) :
    ∃ s path', path = s :: path' := by
  cases path with
  | nil => cases v <;> exact h.elim
  | cons s path => exact ⟨s, path, rfl⟩

theorem Whole.of_strict {strict : Bool} {t : KdTree P K} (h : Whole true t) : Whole strict t :=
  ⟨h.sound, fun _ => h.counted rfl⟩

theorem Doing.of_strict {strict : Bool} {op : MapOp P K} {v : Visit} {t : KdTree P K}
    {m : Multiset P} (h : Doing true op v t m) : Doing strict op v t m := by
  induction v generalizing t m with
  | inside s v ih =>
    obtain ⟨n, l, r, rfl⟩ := h.exists_node
    obtain ⟨m', hson, hnode, hneed, hother, htotal, hheld⟩ := h
    exact ⟨m', ih hson, hnode, hneed, hother.of_strict, htotal, hheld⟩
  | enter s | opLock s =>
    obtain ⟨n, l, r, rfl⟩ := h.exists_node
    obtain ⟨hnode, hsons, htotal, hheld⟩ := h
    exact ⟨hnode, fun s' => (hsons s').of_strict, htotal, hheld⟩
  | ending =>
    obtain ⟨n, l, r, rfl⟩ := h.exists_node
    obtain ⟨hnode, hsons, htotal, hheld⟩ := h
    exact ⟨hnode, fun s' => (hsons s').of_strict, htotal, hheld⟩
  | ready | pushLock s | pushed | done =>
    obtain ⟨n, l, r, rfl⟩ := h.exists_node
    exact ⟨h.1.of_strict, h.2⟩

/-- The son of a node that is being visited, above the place of a replacement. -/
theorem Replaced.son {new : KdTree P K} {exact : Bool} {s : Side} {path : List Side}
    {n : KdTreeNode P K} {l r t' : KdTree P K}
    (h : Replaced new exact (s :: path) (node n l r) t') (hworking : n.workingFlag = true)
    (hson : Whole true (s.son l r)) (hlarge : ((s.son l r).subtree path).Large)
    (hnew : Replaces new ((s.son l r).subtree path) exact) :
    ∃ t, t' = s.graft n l r t ∧ Replaced new exact path (s.son l r) t ∧ Whole exact t ∧
      Replaces t (s.son l r) exact := by
  obtain ⟨t, hreplaced, rfl⟩ := h.working hworking
  obtain ⟨hwhole, hsame⟩ := hreplaced.whole hson hlarge hnew
  exact ⟨t, rfl, hreplaced, hwhole, hsame⟩

omit [Arith K] [PointType P K] in
theorem held_put {s : Side} {l r t : KdTree P K} (h : t.held = (s.son l r).held) (s' : Side) :
    (s'.son (s.put l r t).1 (s.put l r t).2).held = (s'.son l r).held := by
  by_cases hside : s' = s
  · rw [hside, Side.son_put, h]
  · rw [Side.eq_other_of_ne hside, Side.other_son_put]

theorem whole_put {exact : Bool} {s : Side} {l r t : KdTree P K} (ht : Whole exact t)
    (hsons : ∀ s' : Side, Whole true (s'.son l r)) (s' : Side) :
    Whole exact (s'.son (s.put l r t).1 (s.put l r t).2) := by
  by_cases hside : s' = s
  · rw [hside, Side.son_put]
    exact ht
  · rw [Side.eq_other_of_ne hside, Side.other_son_put]
    exact (hsons s.other).of_strict

omit [Arith K] [PointType P K] in
/-- Above a large subtree no flag is left for a son who is missing. -/
theorem OpenNode.need {n : KdTreeNode P K} {l r : KdTree P K} (h : OpenNode Missing n l r)
    {s : Side} {path : List Side} (hlarge : ((s.son l r).subtree path).Large) :
    n.need s = false := by
  by_contra hneed
  have hmissing : s.son l r = null := h.owed s (Bool.eq_true_of_not_eq_false hneed)
  have hthere := hlarge.isNull
  rw [hmissing] at hthere
  cases path <;> cases hthere

theorem Entering.replaced {exact : Bool} {op : MapOp P K} {s s' : Side} {n : KdTreeNode P K}
    {l r t : KdTree P K} {m : Multiset P} (h : Entering true op s n l r m) (ht : Whole exact t)
    (hheld : t.held = (s'.son l r).held) (hneed : n.need s' = false) :
    Entering exact op s n (s'.put l r t).1 (s'.put l r t).2 m := by
  refine ⟨h.node.graft hneed t, whole_put ht h.sons, ?_, h.held⟩
  rw [held_put hheld, held_put hheld]
  exact h.total

theorem Inside.replaced {exact : Bool} {op : MapOp P K} {s : Side} {n : KdTreeNode P K}
    {l r t : KdTree P K} {m' m : Multiset P} (h : Inside true op s n l r m' m)
    (ht : Whole exact t) (hheld : t.held = (s.other.son l r).held)
    (hneed : n.need s.other = false) :
    Inside exact op s n (s.other.put l r t).1 (s.other.put l r t).2 m' m := by
  refine ⟨h.node.graft hneed t, h.need, ?_, ?_, h.held⟩
  · rw [Side.son_put]
    exact ht
  · rw [Side.son_put, hheld]
    exact h.total

theorem Ending.replaced {exact : Bool} {s : Side} {n : KdTreeNode P K} {l r t : KdTree P K}
    {m : Multiset P} (h : Ending true n l r m) (ht : Whole exact t)
    (hheld : t.held = (s.son l r).held) (hneed : n.need s = false) :
    Ending exact n (s.put l r t).1 (s.put l r t).2 m := by
  refine ⟨h.node.graft hneed t, whole_put ht h.sons, ?_, h.held⟩
  rw [coe_contents_put, hheld, ← coe_contents_side]
  exact h.total

/-- What the other thread does to a subtree that is not being visited changes nothing
of what the visit is to leave. -/
theorem Replaced.doing {new : KdTree P K} {exact : Bool} {op : MapOp P K} {v : Visit}
    {path : List Side} {t t' : KdTree P K} {m : Multiset P} (h : Replaced new exact path t t')
    (hdoing : Doing true op v t m) (haway : v.Away path) (hlarge : (t.subtree path).Large)
    (hnew : Replaces new (t.subtree path) exact) : Doing exact op v t' m := by
  induction v generalizing path t t' m with
  | ready | done =>
    obtain ⟨n, l, r, rfl⟩ := hdoing.exists_node
    obtain ⟨hwhole, hheld⟩ := hdoing
    obtain ⟨hwhole', hsame⟩ := h.whole hwhole hlarge hnew
    cases t' with
    | null => cases hsame.there
    | node n' l' r' =>
      refine ⟨hwhole', ?_⟩
      rw [hsame.held]
      exact hheld
  | pushLock s =>
    obtain ⟨n, l, r, rfl⟩ := hdoing.exists_node
    obtain ⟨s', path, rfl⟩ := haway.exists_cons
    obtain ⟨hwhole, hheld, hstops, hworking, hneed⟩ := hdoing
    obtain ⟨hwhole', hsame⟩ := h.whole hwhole hlarge hnew
    obtain ⟨t₁, rfl, -, -, -⟩ := h.son hworking (hwhole.son s') hlarge hnew
    refine ⟨hwhole', ?_, hstops, hworking, hneed⟩
    rw [← hheld]
    exact congrArg op.apply hsame.held
  | pushed =>
    obtain ⟨n, l, r, rfl⟩ := hdoing.exists_node
    obtain ⟨s', path, rfl⟩ := haway.exists_cons
    obtain ⟨hwhole, hheld, hstops, hopen⟩ := hdoing
    obtain ⟨hwhole', hsame⟩ := h.whole hwhole hlarge hnew
    obtain ⟨t₁, rfl, -, -, -⟩ := h.son hopen.working (hwhole.son s') hlarge hnew
    refine ⟨hwhole', ?_, hstops, hopen.graft (hopen.need hlarge) t₁⟩
    rw [← hheld]
    exact congrArg op.apply hsame.held
  | enter s | opLock s =>
    obtain ⟨n, l, r, rfl⟩ := hdoing.exists_node
    obtain ⟨s', path, rfl⟩ := haway.exists_cons
    have hentering : Entering true op s n l r m := hdoing
    obtain ⟨t₁, rfl, -, hwhole, hsame⟩ :=
      h.son hentering.node.working (hentering.sons s') hlarge hnew
    exact hentering.replaced hwhole hsame.held (hentering.node.need hlarge)
  | inside s v ih =>
    obtain ⟨n, l, r, rfl⟩ := hdoing.exists_node
    obtain ⟨s', path, rfl⟩ := haway.exists_cons
    obtain ⟨m', hson, hinside⟩ := hdoing
    obtain ⟨t₁, hreplaced, rfl⟩ := h.working hinside.node.working
    by_cases hside : s = s'
    · subst hside
      -- the place is in the subtree that is being visited
      have hson' := ih hreplaced hson (haway rfl) hlarge hnew
      have hgrafted := hinside.graft t₁
      refine ⟨m', ?_, hgrafted.node, hgrafted.need, hgrafted.other.of_strict, hgrafted.total,
        hgrafted.held⟩
      rw [Side.son_put]
      exact hson'
    · obtain rfl : s' = s.other := Side.eq_other_of_ne (Ne.symm hside)
      obtain ⟨hwhole, hsame⟩ := hreplaced.whole hinside.other hlarge hnew
      refine ⟨m', ?_, hinside.replaced hwhole hsame.held (hinside.node.need hlarge)⟩
      have hkept := Side.other_son_put s.other l r t₁
      rw [Side.other_other] at hkept
      rw [hkept]
      exact hson.of_strict
  | ending =>
    obtain ⟨n, l, r, rfl⟩ := hdoing.exists_node
    obtain ⟨s', path, rfl⟩ := haway.exists_cons
    have hending : Ending true n l r m := hdoing
    obtain ⟨t₁, rfl, -, hwhole, hsame⟩ :=
      h.son hending.node.working (hending.sons s') hlarge hnew
    have hneed : n.need s' = false := by
      by_contra hneed
      exact not_harmless ((hending.sons s').counted rfl) hlarge
        (hending.node.owed s' (Bool.eq_true_of_not_eq_false hneed))
    exact hending.replaced hwhole hsame.held hneed

/-- A subtree that is not being visited is as it should be. -/
theorem Doing.subtree {strict : Bool} {op : MapOp P K} {v : Visit} {path : List Side}
    {t : KdTree P K} {m : Multiset P} (h : Doing strict op v t m) (haway : v.Away path) :
    Whole strict (t.subtree path) := by
  induction v generalizing path t m with
  | inside s v ih =>
    obtain ⟨n, l, r, rfl⟩ := h.exists_node
    obtain ⟨s', path, rfl⟩ := haway.exists_cons
    obtain ⟨m', hson, hinside⟩ := h
    by_cases hside : s = s'
    · subst hside
      have hwhole := ih hson (haway rfl)
      exact hwhole
    · obtain rfl : s' = s.other := Side.eq_other_of_ne (Ne.symm hside)
      exact hinside.other.subtree path
  | enter s | opLock s | ending =>
    obtain ⟨n, l, r, rfl⟩ := h.exists_node
    obtain ⟨s', path, rfl⟩ := haway.exists_cons
    exact (h.sons s').subtree path
  | ready | pushLock s | pushed | done =>
    obtain ⟨n, l, r, rfl⟩ := h.exists_node
    exact h.1.subtree path

theorem Doing.pointsFlagged {strict : Bool} {op : MapOp P K} {v : Visit} {path : List Side}
    {t : KdTree P K} {m : Multiset P} (h : Doing strict op v t m) : PointsFlagged path t := by
  have hworking {n : KdTreeNode P K} (hn : n.workingFlag = true) : n.workingFlag ≠ false := by
    rw [hn]
    exact nofun
  cases path with
  | nil => trivial
  | cons s' path =>
    induction v generalizing s' path t m with
    | inside s v ih =>
      obtain ⟨n, l, r, rfl⟩ := h.exists_node
      obtain ⟨m', hson, hinside⟩ := h
      refine ⟨fun hidle => absurd hidle (hworking hinside.node.working), ?_⟩
      by_cases hside : s' = s
      · subst hside
        cases path with
        | nil => trivial
        | cons s'' path =>
          have hflagged : PointsFlagged (s'' :: path) (s'.son l r) := ih hson s'' path
          exact hflagged
      · rw [Side.eq_other_of_ne hside]
        exact hinside.other.sound.pointsFlagged path
    | enter s | opLock s | ending =>
      obtain ⟨n, l, r, rfl⟩ := h.exists_node
      exact ⟨fun hidle => absurd hidle (hworking h.node.working),
        (h.sons s').sound.pointsFlagged path⟩
    | ready | pushLock s | pushed | done =>
      obtain ⟨n, l, r, rfl⟩ := h.exists_node
      exact h.1.sound.pointsFlagged (s' :: path)

/-! ## The subtree `Rebuild_Ptr` points at -/

/-- The place of the lock a visit is at. -/
def Visit.lockAt : Visit → Option (List Side)
  | .pushLock s => some [s]
  | .opLock s => some [s]
  | .inside s v => v.lockAt.map (s :: ·)
  | _ => none

/-- What an entry of the log does to the points. -/
def LoggedOp.apply (entry : LoggedOp P K) (m : Multiset P) : Multiset P :=
  match entry with
  | map op => op.apply m
  | pushDown treeDeleted _ => if treeDeleted then 0 else m

/-- Only deletions are pushed to a large subtree. -/
def LoggedOp.Proper : LoggedOp P K → Prop
  | .map _ => True
  | .pushDown treeDeleted _ => treeDeleted = true

/-- A step of the mapping thread leaves the subtree alone, or does what it logs. -/
inductive Tracked (rebuildFlag : Bool) (q : ManualQ (LoggedOp P K)) (t : KdTree P K) :
    KdTree P K → ManualQ (LoggedOp P K) → Prop where
  | same : Tracked rebuildFlag q t t q
  | logged {t' : KdTree P K} (entry : LoggedOp P K) (proper : entry.Proper)
      (held : t'.held = entry.apply t.held) (large : t'.Large) :
      Tracked rebuildFlag q t t' (if rebuildFlag then q.push entry else q)

/-- The visit does not touch the subtree in this place, or is at its lock. -/
structure Visit.Clear (v : Visit) (path : List Side) : Prop where
  away : v.Away path
  lock : v.lockAt = none ∨ v.lockAt = some path

omit [Arith K] [PointType P K] in
theorem MapOp.next_lockAt (op : MapOp P K) (s : Side) : (op.next s).lockAt = none := by
  cases op <;> cases s <;> rfl

omit [Arith K] [PointType P K] in
theorem MapOp.next_away (op : MapOp P K) (s s' : Side) (path : List Side) :
    (op.next s).Away (s' :: path) := by
  cases op <;> cases s <;> trivial

/-- What follows a step in the call for a son. -/
def MapOp.around (op : MapOp P K) (s : Side) (v : Visit) : Visit :=
  if v = .done then op.next s else .inside s v

omit [Arith K] [PointType P K] in
theorem around_lockAt_of_none (op : MapOp P K) (s : Side) {v : Visit} (hv : v.lockAt = none) :
    (op.around s v).lockAt = none := by
  rw [MapOp.around]
  split_ifs
  · exact op.next_lockAt s
  · rw [Visit.lockAt, hv]
    rfl

/-- Away from locks and with nothing to rebuild, nothing is logged. -/
theorem move_unlocked (op : MapOp P K) (rebuildFlag : Bool) {v : Visit} (hv : v.lockAt = none)
    (t : KdTree P K) {rebuildPtr : Option (List Side)} (hptr : rebuildPtr = none)
    (q : ManualQ (LoggedOp P K)) :
    (op.move params nth rebuildFlag v t rebuildPtr q).logger = q ∧
      (op.move params nth rebuildFlag v t rebuildPtr q).cleared = false ∧
      (op.move params nth rebuildFlag v t rebuildPtr q).visit.lockAt = none := by
  subst hptr
  induction v generalizing t with
  | ready =>
    cases t with
    | null => exact ⟨rfl, rfl, rfl⟩
    | node n l r =>
      have hunlocked : pushLocked none n l r = none := by simp [pushLocked]
      rw [MapOp.move, hunlocked]
      split_ifs <;> exact ⟨rfl, rfl, rfl⟩
  | pushLock s => cases hv
  | pushed =>
    cases t with
    | null => exact ⟨rfl, rfl, rfl⟩
    | node n l r =>
      cases op with
      | addPoint point => exact ⟨rfl, rfl, rfl⟩
      | deleteBox box =>
        simp only [MapOp.move]
        split_ifs <;> exact ⟨rfl, rfl, rfl⟩
  | enter s =>
    cases t with
    | null => exact ⟨rfl, rfl, rfl⟩
    | node n l r =>
      rw [MapOp.move, if_neg (by simp [Side.below])]
      split_ifs
      · exact ⟨rfl, rfl, op.next_lockAt s⟩
      · exact ⟨rfl, rfl, rfl⟩
  | opLock s => cases hv
  | inside s v ih =>
    cases t with
    | null => exact ⟨rfl, rfl, rfl⟩
    | node n l r =>
      have hv' : v.lockAt = none := Option.map_eq_none_iff.mp hv
      obtain ⟨hlogger, hcleared, hlock⟩ := ih hv' (s.son l r)
      exact ⟨hlogger, hcleared, around_lockAt_of_none op s hlock⟩
  | ending | done =>
    cases t with
    | null => exact ⟨rfl, rfl, rfl⟩
    | node n l r => exact ⟨rfl, rfl, rfl⟩

/-- `Rebuild` is called for a large subtree the visit has just left. -/
theorem move_asks (op : MapOp P K) (rebuildFlag : Bool) (v : Visit) (t : KdTree P K)
    (rebuildPtr : Option (List Side)) (q : ManualQ (LoggedOp P K)) {path : List Side}
    (hasks : (op.move params nth rebuildFlag v t rebuildPtr q).asks = some path) :
    ((op.move params nth rebuildFlag v t rebuildPtr q).tree.subtree path).Large ∧
      (op.move params nth rebuildFlag v t rebuildPtr q).visit.lockAt = none ∧
      ((op.move params nth rebuildFlag v t rebuildPtr q).visit = .done ∨
        (op.move params nth rebuildFlag v t rebuildPtr q).visit.Away path) := by
  induction v generalizing t rebuildPtr path with
  | inside s v ih =>
    cases t with
    | null => cases hasks
    | node n l r =>
      obtain ⟨path', hasks', rfl⟩ := Option.map_eq_some_iff.mp hasks
      obtain ⟨hlarge, hlock, haway⟩ := ih (s.son l r) (s.below rebuildPtr) hasks'
      refine ⟨?_, around_lockAt_of_none op s hlock, .inr ?_⟩
      · show ((s.son _ _).subtree path').Large
        rw [Side.son_put]
        exact hlarge
      · show (op.around s _).Away (s :: path')
        rw [MapOp.around]
        split_ifs with hdone
        · exact op.next_away s s path'
        · exact fun _ => haway.resolve_left hdone
  | ending =>
    cases t with
    | null => cases hasks
    | node n l r =>
      have hended : (if (endVisit params nth true n l r).2 then some [] else none) = some path :=
        hasks
      split_ifs at hended with hhanded
      obtain rfl := Option.some.inj hended
      exact ⟨endVisit_large params nth true (.inl hhanded), rfl, .inl rfl⟩
  | ready =>
    cases t with
    | null => cases hasks
    | node n l r =>
      rw [MapOp.move] at hasks
      split_ifs at hasks
      cases hlocked : pushLocked rebuildPtr n l r with
      | some s =>
        rw [hlocked] at hasks
        cases hasks
      | none =>
        rw [hlocked] at hasks
        cases hasks
  | pushed =>
    cases t with
    | null => cases hasks
    | node n l r =>
      cases op with
      | addPoint point => cases hasks
      | deleteBox box =>
        simp only [MapOp.move] at hasks
        split_ifs at hasks
  | enter s =>
    cases t with
    | null => cases hasks
    | node n l r =>
      rw [MapOp.move] at hasks
      split_ifs at hasks
  | pushLock s | opLock s | done =>
    cases t with
    | null => cases hasks
    | node n l r => cases hasks

omit [Arith K] [PointType P K] in
theorem around_clear (op : MapOp P K) {s s' : Side} {v : Visit} {path : List Side}
    (haway : s = s' → v.Clear path) (hlock : s ≠ s' → v.lockAt = none) :
    (op.around s v).Clear (s' :: path) := by
  rw [MapOp.around]
  split_ifs with hdone
  · exact ⟨op.next_away s s' path, .inl (op.next_lockAt s)⟩
  · by_cases hside : s = s'
    · obtain ⟨hv, hlocked⟩ := haway hside
      refine ⟨fun _ => hv, ?_⟩
      subst hside
      rcases hlocked with hnone | hsome
      · exact .inl (by rw [Visit.lockAt, hnone]; rfl)
      · exact .inr (by rw [Visit.lockAt, hsome]; rfl)
    · refine ⟨fun h => absurd h hside, .inl ?_⟩
      rw [Visit.lockAt, hlock hside]
      rfl

omit [Arith K] [PointType P K] in
@[simp] theorem Side.below_some_self (s : Side) (path : List Side) :
    s.below (some (s :: path)) = some path := by
  simp [Side.below]

omit [Arith K] [PointType P K] in
theorem Side.below_of_ne {s s' : Side} (h : s ≠ s') (path : List Side) :
    s.below (some (s' :: path)) = none := by
  simp [Side.below, Ne.symm h]

omit [Arith K] [PointType P K] in
/-- `Push_Down` to a son changes nothing below it, and nothing if it owes nothing. -/
theorem subtree_receive (father : KdTreeNode P K) {need : Bool} (t : KdTree P K)
    {path : List Side} (h : need = false ∨ path ≠ []) :
    (t.receive father need).subtree path = t.subtree path := by
  cases t with
  | null => rfl
  | node son l r =>
    cases path with
    | nil =>
      rw [h.resolve_right fun hne => hne rfl]
      rfl
    | cons s path => rfl

omit [Arith K] [PointType P K] in
theorem son_pushed (s : Side) (n : KdTreeNode P K) (l r : KdTree P K) :
    s.son (n.pushLeft l) (n.pushRight r) = (s.son l r).receive n (n.need s) := by
  cases s <;> rfl

omit [Arith K] [PointType P K] in
theorem pushLocked_self {n : KdTreeNode P K} {l r : KdTree P K} {s : Side}
    (hneed : n.need s = true) (hthere : (s.son l r).isNull = false) :
    pushLocked (some [s]) n l r = some s := by
  cases s with
  | left => exact if_pos ⟨rfl, hneed, hthere⟩
  | right =>
    rw [pushLocked, if_neg (by simp)]
    exact if_pos ⟨rfl, hneed, hthere⟩

omit [Arith K] [PointType P K] in
theorem subtree_graft_self (s : Side) (n : KdTreeNode P K) (l r t : KdTree P K)
    (path : List Side) : (s.graft n l r t).subtree (s :: path) = t.subtree path := by
  show (s.son _ _).subtree path = _
  rw [Side.son_put]

omit [Arith K] [PointType P K] in
theorem subtree_graft_of_ne {s s' : Side} (h : s ≠ s') (n : KdTreeNode P K) (l r t : KdTree P K)
    (path : List Side) :
    (s.graft n l r t).subtree (s' :: path) = (node n l r).subtree (s' :: path) := by
  obtain rfl : s' = s.other := Side.eq_other_of_ne (Ne.symm h)
  show (s.other.son _ _).subtree path = _
  rw [Side.other_son_put]
  rfl

omit [Arith K] [PointType P K] in
theorem large_receive {father : KdTreeNode P K} {need : Bool} {t : KdTree P K} (ht : t.Large) :
    (t.receive father need).Large := by
  cases t with
  | null => exact ht
  | node son l r => cases need <;> exact ht

/-- Above a large subtree nothing is rebuilt in place. -/
theorem endVisit_of_large (allowRebuild : Bool) (n : KdTreeNode P K) {l r : KdTree P K}
    (h : multiThreadRebuildPointNum ≤ l.treeSize + r.treeSize + 1) :
    ∃ n', (endVisit params nth allowRebuild n l r).1 = node n' l r := by
  have hsize : multiThreadRebuildPointNum ≤ (node (n.update l r) l r).treeSize := h
  rw [endVisit, rebuild]
  split_ifs
  · exact ⟨_, rfl⟩
  · exact ⟨_, rfl⟩

/-- The subtree at whose father the visit pushes under the lock. -/
theorem tracked_pushDown {n : KdTreeNode P K} {l r : KdTree P K} {s : Side}
    (rebuildFlag : Bool) (q : ManualQ (LoggedOp P K)) (hwhole : Whole true (node n l r))
    (hlarge : (s.son l r).Large) (hneed : n.need s = true) :
    Tracked rebuildFlag q (s.son l r) ((s.son l r).receive n (n.need s))
      (if rebuildFlag then q.push (.pushDown n.treeDeleted n.treeDownsampleDeleted) else q) := by
  have hdeleted : n.treeDeleted = true := by
    by_contra hkept
    have hlarge' : ((s.son l r).subtree []).Large := hlarge
    have hnone := need_of_large hwhole hlarge' (Bool.eq_false_of_not_eq_true hkept)
    rw [hneed] at hnone
    cases hnone
  apply Tracked.logged
  · exact hdeleted
  · have hgone : ((s.son l r).receive n (n.need s)).treeDeleted = true :=
      (receive_of_flagged hdeleted (hwhole.son s).sound (.inl hneed)).1
    rw [held_of_deleted hgone, LoggedOp.apply, if_pos hdeleted]
  · exact large_receive hlarge

/-- What a step of a visit does about the subtree `Rebuild_Ptr` points at. -/
structure Moved.Follows (rebuildFlag : Bool) (q : ManualQ (LoggedOp P K)) (path : List Side)
    (t : KdTree P K) (moved : Moved P K) : Prop where
  cleared : moved.cleared = false
  clear : moved.visit.Clear path
  tracked : Tracked rebuildFlag q (t.subtree path) (moved.tree.subtree path) moved.logger

section Following

variable {op : MapOp P K} (rebuildFlag : Bool) {n : KdTreeNode P K} {l r : KdTree P K}

theorem move_ready_follows {s' : Side} {path : List Side}
    (hlarge : ((node n l r).subtree (s' :: path)).Large) (q : ManualQ (LoggedOp P K)) :
    (op.move params nth rebuildFlag .ready (node n l r) (some (s' :: path)) q).Follows
      rebuildFlag q (s' :: path) (node n l r) := by
  rw [MapOp.move]
  split_ifs
  · exact ⟨rfl, ⟨trivial, .inl rfl⟩, .same⟩
  · cases hlocked : pushLocked (some (s' :: path)) n l r with
    | some s =>
      obtain ⟨hptr, -, -⟩ := pushLocked_eq_some hlocked
      exact ⟨rfl, ⟨trivial, .inr hptr.symm⟩, .same⟩
    | none =>
      refine ⟨rfl, ⟨trivial, .inl rfl⟩, ?_⟩
      have howed : n.need s' = false ∨ path ≠ [] := by
        by_contra hnot
        obtain ⟨hneed, hnil⟩ := not_or.mp hnot
        have hpath : path = [] := not_not.mp hnil
        subst hpath
        rw [pushLocked_self (Bool.eq_true_of_not_eq_false hneed) hlarge.isNull] at hlocked
        cases hlocked
      have hsame :
          (node (n.working l r) (n.pushLeft l) (n.pushRight r)).subtree (s' :: path) =
            (node n l r).subtree (s' :: path) := by
        show (s'.son _ _).subtree path = _
        rw [son_pushed, subtree_receive n (s'.son l r) howed]
        rfl
      show Tracked _ _ _ ((node (n.working l r) _ _).subtree (s' :: path)) q
      rw [hsame]
      exact .same

theorem move_enter_follows {s s' : Side} {path : List Side}
    (hlarge : ((node n l r).subtree (s' :: path)).Large) (q : ManualQ (LoggedOp P K)) :
    (op.move params nth rebuildFlag (.enter s) (node n l r) (some (s' :: path)) q).Follows
      rebuildFlag q (s' :: path) (node n l r) := by
  rw [MapOp.move]
  by_cases hside : s = s'
  · subst hside
    rw [Side.below_some_self]
    have hthere : (s.son l r).isNull = false := by
      cases hson : s.son l r with
      | null =>
        have hthere := hlarge.isNull
        rw [KdTree.subtree, hson] at hthere
        cases path <;> cases hthere
      | node => rfl
    split_ifs with htarget hnull
    · obtain rfl := Option.some.inj htarget
      exact ⟨rfl, ⟨trivial, .inr rfl⟩, .same⟩
    · rw [hthere] at hnull
      cases hnull
    · refine ⟨rfl, ⟨fun _ => ?_, .inl rfl⟩, .same⟩
      cases path with
      | nil => exact absurd rfl htarget
      | cons => trivial
  · rw [Side.below_of_ne hside, if_neg nofun]
    split_ifs
    · refine ⟨rfl, ⟨op.next_away s s' path, .inl (op.next_lockAt s)⟩, ?_⟩
      rw [subtree_graft_of_ne hside]
      exact .same
    · exact ⟨rfl, ⟨fun hs => absurd hs hside, .inl rfl⟩, .same⟩

theorem move_opLock_follows {s : Side} (hwhole : Whole true (s.son l r))
    (hlarge : (s.son l r).Large) (q : ManualQ (LoggedOp P K)) :
    (op.move params nth rebuildFlag (.opLock s) (node n l r) (some [s]) q).Follows
      rebuildFlag q [s] (node n l r) := by
  have hrun := run_large params nth op n.divisionAxis hwhole hlarge
  obtain ⟨-, hheld, -⟩ := run_spec params nth op false n.divisionAxis hwhole
  refine ⟨?_, ⟨op.next_away s s [], .inl (op.next_lockAt s)⟩, ?_⟩
  · have hnot : ¬ (op.run params nth false n.divisionAxis (s.son l r)).treeSize <
        multiThreadRebuildPointNum := not_lt.mpr hrun
    show (_ && decide _) = false
    rw [decide_eq_false hnot, Bool.and_false]
  · rw [MapOp.move]
    show Tracked _ _ _ ((s.graft n l r _).subtree [s]) _
    rw [subtree_graft_self]
    exact .logged (.map op) trivial hheld hrun

/-- The call is for the son the place is in. -/
theorem move_inside_follows {s : Side} {v : Visit} {path : List Side}
    {q : ManualQ (LoggedOp P K)}
    (hson : (op.move params nth rebuildFlag v (s.son l r) (some path) q).Follows rebuildFlag q
      path (s.son l r)) :
    (op.move params nth rebuildFlag (.inside s v) (node n l r) (some (s :: path)) q).Follows
      rebuildFlag q (s :: path) (node n l r) := by
  obtain ⟨hcleared, hclear, htracked⟩ := hson
  rw [MapOp.move, Side.below_some_self]
  refine ⟨hcleared, around_clear op (fun _ => hclear) (fun hne => absurd rfl hne), ?_⟩
  rw [subtree_graft_self]
  exact htracked

/-- The call is for the other son. -/
theorem move_beside_follows {s s' : Side} (hside : s ≠ s') {v : Visit} (path : List Side)
    (hlock : v.lockAt = none) (q : ManualQ (LoggedOp P K)) :
    (op.move params nth rebuildFlag (.inside s v) (node n l r) (some (s' :: path)) q).Follows
      rebuildFlag q (s' :: path) (node n l r) := by
  obtain ⟨hlogger, hcleared, hlock'⟩ :=
    move_unlocked params nth op rebuildFlag hlock (s.son l r) rfl q
  rw [MapOp.move, Side.below_of_ne hside]
  refine ⟨hcleared, around_clear op (fun hs => absurd hs hside) (fun _ => hlock'), ?_⟩
  rw [subtree_graft_of_ne hside]
  show Tracked _ _ _ _ (op.move params nth rebuildFlag v (s.son l r) none q).logger
  rw [hlogger]
  exact .same

/-- Above a large subtree the end of a visit rebuilds nothing in place. -/
theorem move_ending_follows {s' : Side} {path : List Side} (hwhole : Whole true (s'.son l r))
    (hlarge : ((node n l r).subtree (s' :: path)).Large) (q : ManualQ (LoggedOp P K)) :
    (op.move params nth rebuildFlag .ending (node n l r) (some (s' :: path)) q).Follows
      rebuildFlag q (s' :: path) (node n l r) := by
  have hson : (s'.son l r).Large :=
    hlarge.trans (treeSize_subtree_le (hwhole.counted rfl) path)
  have hsize : multiThreadRebuildPointNum ≤ l.treeSize + r.treeSize + 1 := by
    have hge : multiThreadRebuildPointNum ≤ (s'.son l r).treeSize := hson
    cases s' with
    | left =>
      have hge' : multiThreadRebuildPointNum ≤ l.treeSize := hge
      omega
    | right =>
      have hge' : multiThreadRebuildPointNum ≤ r.treeSize := hge
      omega
  obtain ⟨n', hended⟩ := endVisit_of_large params nth true n hsize
  refine ⟨rfl, ⟨trivial, .inl rfl⟩, ?_⟩
  rw [MapOp.move]
  show Tracked _ _ _ ((endVisit params nth true n l r).1.subtree (s' :: path)) q
  rw [hended]
  exact .same

end Following

omit [Arith K] [PointType P K] in
/-- A visit in a call for the son the place is in is clear of the rest of the place. -/
theorem Visit.Clear.inside {s : Side} {v : Visit} {path : List Side}
    (h : (Visit.inside s v).Clear (s :: path)) : v.Clear path := by
  refine ⟨h.away rfl, ?_⟩
  rcases h.lock with hnone | hsome
  · exact .inl (Option.map_eq_none_iff.mp hnone)
  · obtain ⟨path', hpath', heq⟩ := Option.map_eq_some_iff.mp hsome
    obtain ⟨-, rfl⟩ := List.cons.inj heq
    exact .inr hpath'

omit [Arith K] [PointType P K] in
theorem Visit.Clear.beside {s s' : Side} {v : Visit} {path : List Side} (hside : s ≠ s')
    (h : (Visit.inside s v).Clear (s' :: path)) : v.lockAt = none := by
  rcases h.lock with hnone | hsome
  · exact Option.map_eq_none_iff.mp hnone
  · obtain ⟨path', -, heq⟩ := Option.map_eq_some_iff.mp hsome
    exact absurd (List.cons.inj heq).1 hside

theorem move_target {op : MapOp P K} (rebuildFlag : Bool) {v : Visit} {path : List Side}
    {t : KdTree P K} {m : Multiset P} (h : Doing true op v t m) (hclear : v.Clear path)
    (hlarge : (t.subtree path).Large) (q : ManualQ (LoggedOp P K)) :
    (op.move params nth rebuildFlag v t (some path) q).Follows rebuildFlag q path t := by
  induction v generalizing path t m with
  | ready =>
    obtain ⟨n, l, r, rfl⟩ := h.exists_node
    obtain ⟨s', path, rfl⟩ := hclear.away.exists_cons
    exact move_ready_follows params nth rebuildFlag hlarge q
  | pushLock s =>
    obtain ⟨n, l, r, rfl⟩ := h.exists_node
    obtain ⟨hwhole, -, -, -, hneed⟩ := h
    obtain rfl : path = [s] := (Option.some.inj (hclear.lock.resolve_left nofun)).symm
    refine ⟨rfl, ⟨trivial, .inl rfl⟩, ?_⟩
    show Tracked _ _ _ (s.son (n.pushLeft l) (n.pushRight r)) _
    rw [son_pushed]
    exact tracked_pushDown rebuildFlag q hwhole hlarge hneed
  | pushed =>
    obtain ⟨n, l, r, rfl⟩ := h.exists_node
    obtain ⟨s', path, rfl⟩ := hclear.away.exists_cons
    cases op with
    | addPoint point => exact ⟨rfl, ⟨trivial, .inl rfl⟩, .same⟩
    | deleteBox box =>
      simp only [MapOp.move]
      split_ifs <;> exact ⟨rfl, ⟨trivial, .inl rfl⟩, .same⟩
  | enter s =>
    obtain ⟨n, l, r, rfl⟩ := h.exists_node
    obtain ⟨s', path, rfl⟩ := hclear.away.exists_cons
    exact move_enter_follows params nth rebuildFlag hlarge q
  | opLock s =>
    obtain ⟨n, l, r, rfl⟩ := h.exists_node
    have hentering : Entering true op s n l r m := h
    obtain rfl : path = [s] := (Option.some.inj (hclear.lock.resolve_left nofun)).symm
    exact move_opLock_follows params nth rebuildFlag (hentering.sons s) hlarge q
  | inside s v ih =>
    obtain ⟨n, l, r, rfl⟩ := h.exists_node
    obtain ⟨s', path, rfl⟩ := hclear.away.exists_cons
    obtain ⟨m', hson, -⟩ := h
    by_cases hside : s = s'
    · subst hside
      exact move_inside_follows params nth rebuildFlag (ih hson hclear.inside hlarge)
    · exact move_beside_follows params nth rebuildFlag hside path (hclear.beside hside) q
  | ending =>
    obtain ⟨n, l, r, rfl⟩ := h.exists_node
    obtain ⟨s', path, rfl⟩ := hclear.away.exists_cons
    have hending : Ending true n l r m := h
    exact move_ending_follows params nth rebuildFlag (hending.sons s') hlarge q
  | done =>
    obtain ⟨n, l, r, rfl⟩ := h.exists_node
    exact ⟨rfl, hclear, .same⟩

end IkdTree
end RobotNav
