/-
What the operations of the map tree do to what it holds: building keeps the points,
adding one adds it, deleting by a box takes the points in the box.
-/
import RobotNav.IkdTree.Lazy

namespace RobotNav
namespace IkdTree

open PointType (coords)
open KdTree

variable {P K : Type} [Arith K] [PointType P K]

/-! ## Building -/

theorem freshNode_spec (point : P) (axis : Fin 3) {l r : KdTree P K} (hl : l.Sound)
    (hr : r.Sound) :
    (freshNode point axis l r).Sound ∧
      (freshNode point axis l r).live = point :: (l.live ++ r.live) := by
  have hfalse : false = true → False := nofun
  obtain ⟨hsound, hlive⟩ := update_spec (n := KdTreeNode.init point axis) hl hr
    (fun h => (hfalse h).elim) (fun h => (hfalse h).elim) (fun h => (hfalse h).elim)
  exact ⟨hsound, hlive⟩

theorem freshNode_harmless (point : P) (axis : Fin 3) :
    Harmless (freshNode point axis null null : KdTree P K) := by
  right
  refine ⟨_, rfl, ?_⟩
  constructor <;> rfl

theorem buildTree_spec (nth : NthElement P K) (points : List P) :
    (buildTree nth points).Sound ∧ (buildTree nth points).live.Perm points ∧
      ((buildTree nth points).isNull = true → points = []) := by
  induction points using buildTree.induct nth with
  | case1 => simp [buildTree, KdTree.Sound]
  | case2 p ps axis parts ihl ihr =>
    obtain ⟨hl, hliveLeft, -⟩ := ihl
    obtain ⟨hr, hliveRight, -⟩ := ihr
    obtain ⟨hsound, hlive⟩ := freshNode_spec parts.2.1 axis hl hr
    rw [buildTree]
    refine ⟨hsound, ?_, fun h => by cases h⟩
    have hperm := nth.perm axis p ps _ (Nat.div_le_self ps.length 2)
    rw [hlive]
    exact ((hliveLeft.append hliveRight).cons _).trans (List.perm_middle.symm.trans hperm)

/-! ## The end of a visit -/

variable (params : KdTreeParams K) (nth : NthElement P K)

theorem stopWorking_spec {t : KdTree P K} (ht : t.Sound) :
    t.stopWorking.Sound ∧ t.stopWorking.live = t.live ∧ t.stopWorking.isNull = t.isNull := by
  cases t with
  | null => exact ⟨trivial, rfl, rfl⟩
  | node n l r =>
    obtain ⟨hnode, hl, hr⟩ := ht
    refine ⟨⟨?_, hl, hr⟩, rfl, rfl⟩
    exact ⟨hnode.flagged, hnode.held, hnode.left, hnode.right, hnode.downsampledTree,
      hnode.downsampledPoint⟩

theorem rebuild_spec {t : KdTree P K} (ht : t.Sound) (hheld : t.live ≠ []) :
    (rebuild nth t).1.Sound ∧ (rebuild nth t).1.live.Perm t.live ∧
      (rebuild nth t).1.isNull = false := by
  rw [rebuild]
  split_ifs
  · refine ⟨ht, .rfl, ?_⟩
    cases t with
    | null => exact absurd rfl hheld
    | node n l r => rfl
  · obtain ⟨hsound, hperm, hnull⟩ := buildTree_spec nth t.flatten.1
    rw [(flatten_spec ht).1] at hsound hperm hnull ⊢
    refine ⟨hsound, hperm, ?_⟩
    by_contra h
    exact hheld (hnull (Bool.eq_true_of_not_eq_false h))

/-- The end of a visit keeps what the node holds, and leaves a node if it holds
anything. -/
theorem endVisit_spec (allowRebuild : Bool) {n : KdTreeNode P K} {l r : KdTree P K}
    (hl : l.Sound) (hr : r.Sound) (hleft : n.needPushDownToLeft = true → Harmless l)
    (hright : n.needPushDownToRight = true → Harmless r)
    (hpoint : n.pointDownsampleDeleted = true → n.pointDeleted = true)
    (hheld : contents n l r ≠ []) :
    (endVisit params nth allowRebuild n l r).1.Sound ∧
      (endVisit params nth allowRebuild n l r).1.live.Perm (contents n l r) ∧
      (endVisit params nth allowRebuild n l r).1.isNull = false := by
  obtain ⟨hsound, hlive⟩ := update_spec hl hr hleft hright hpoint
  rw [endVisit]
  split_ifs
  · obtain ⟨hrebuilt, hperm, hnull⟩ := rebuild_spec nth hsound (by rwa [hlive])
    obtain ⟨hstopped, hsame, hnull'⟩ := stopWorking_spec hrebuilt
    refine ⟨hstopped, ?_, hnull'.trans hnull⟩
    rw [hsame, ← hlive]
    exact hperm
  · obtain ⟨hstopped, hsame, hnull⟩ := stopWorking_spec hsound
    refine ⟨hstopped, ?_, hnull⟩
    rw [hsame, hlive]

omit [Arith K] [PointType P K] in
/-- A flag a visit leaves is for a son who is missing. -/
theorem working_left {n : KdTreeNode P K} {l r : KdTree P K}
    (h : (n.working l r).needPushDownToLeft = true) : n.pushLeft l = null := by
  have hl : l = null := pushed_left (r := r) h
  rw [hl]
  rfl

omit [Arith K] [PointType P K] in
theorem working_right {n : KdTreeNode P K} {l r : KdTree P K}
    (h : (n.working l r).needPushDownToRight = true) : n.pushRight r = null := by
  have hr : r = null := pushed_right (l := l) h
  rw [hr]
  rfl

/-! ## `Add_by_point` -/

theorem addByPoint_spec (allowRebuild : Bool) (point : P) (fatherAxis : Fin 3) {t : KdTree P K}
    (ht : t.Sound) :
    (addByPoint params nth allowRebuild point fatherAxis t).1.Sound ∧
      (addByPoint params nth allowRebuild point fatherAxis t).1.live.Perm (point :: t.live) ∧
      (addByPoint params nth allowRebuild point fatherAxis t).1.isNull = false ∧
      (t = null → Harmless (addByPoint params nth allowRebuild point fatherAxis t).1) := by
  have hne {ps qs : List P} (h : ps.Perm (point :: qs)) : ps ≠ [] := by
    rintro rfl
    cases h.symm.eq_nil
  induction fatherAxis, t using addByPoint.induct params nth allowRebuild point with
  | case1 fatherAxis =>
    rw [addByPoint]
    obtain ⟨hsound, hlive⟩ := freshNode_spec point (fatherAxis + 1)
      (l := (null : KdTree P K)) (r := null) trivial trivial
    refine ⟨hsound, ?_, rfl, fun _ => freshNode_harmless point _⟩
    rw [hlive]
    rfl
  | case2 _ n l r hside ih =>
    have hpush := pushDown_spec ht
    obtain ⟨hl, hlive, -, hnew⟩ := ih hpush.left
    have hcontents : (contents (n.working l r)
        (addByPoint params nth allowRebuild point n.divisionAxis (n.pushLeft l)).1
        (n.pushRight r)).Perm (point :: (node n l r).live) := by
      rw [← hpush.contents]
      exact (((hlive.append_left n.own).append_right _).trans
        (List.perm_middle.append_right _))
    obtain ⟨hsound, hperm, hnull⟩ := endVisit_spec params nth allowRebuild hl hpush.right
      (fun h => hnew (working_left h)) (fun h => .inl (working_right h))
      ht.1.downsampledPoint (hne hcontents)
    rw [addByPoint, if_pos hside]
    exact ⟨hsound, hperm.trans hcontents, hnull, fun h => by cases h⟩
  | case3 _ n l r hside ih =>
    have hpush := pushDown_spec ht
    obtain ⟨hr, hlive, -, hnew⟩ := ih hpush.right
    have hcontents : (contents (n.working l r) (n.pushLeft l)
        (addByPoint params nth allowRebuild point n.divisionAxis (n.pushRight r)).1).Perm
          (point :: (node n l r).live) := by
      rw [← hpush.contents]
      exact (hlive.append_left _).trans List.perm_middle
    obtain ⟨hsound, hperm, hnull⟩ := endVisit_spec params nth allowRebuild hpush.left hr
      (fun h => .inl (working_left h)) (fun h => hnew (working_right h))
      ht.1.downsampledPoint (hne hcontents)
    rw [addByPoint, if_neg hside]
    exact ⟨hsound, hperm.trans hcontents, hnull, fun h => by cases h⟩

/-! ## `Delete_by_range` -/

/-- The points a box does not take. -/
def BoxPointType.spare (box : BoxPointType K) (ps : List P) : List P :=
  ps.filter fun p => !decide (box.contains (coords p))

theorem spare_eq_self {box : BoxPointType K} {ps : List P}
    (h : ∀ p ∈ ps, ¬ box.contains (coords p)) : box.spare ps = ps := by
  rw [BoxPointType.spare, List.filter_eq_self]
  intro p hp
  simp [h p hp]

/-- A box apart from the range takes nothing. -/
theorem Spans.spare_of_misses {box range : BoxPointType K} {ps : List P} (h : Spans range ps)
    (hmisses : box.misses range) : box.spare ps = ps :=
  spare_eq_self fun _ hp => Bounds.not_inside h hmisses hp

/-- A box takes everything exactly when it covers the range. -/
theorem Spans.spare_eq_nil_iff {box range : BoxPointType K} {ps : List P} (h : Spans range ps) :
    box.spare ps = [] ↔ box.covers range := by
  rw [BoxPointType.spare, List.filter_eq_nil_iff]
  simp only [Bool.not_eq_true', decide_eq_false_iff_not, not_not]
  exact Bounds.all_inside_iff h

/-- What is left of the point of a node. -/
theorem marked_own {box : BoxPointType K} {n marked : KdTreeNode P K}
    (hpoint : marked.point = n.point)
    (hdeleted : marked.pointDeleted =
      (n.pointDeleted || (!n.pointDeleted && decide (box.contains (coords n.point))))) :
    marked.own = box.spare n.own := by
  rw [KdTreeNode.own, KdTreeNode.own, hpoint, hdeleted]
  cases n.pointDeleted with
  | true => rfl
  | false =>
    by_cases hinside : box.contains (coords n.point) <;>
      simp [BoxPointType.spare, hinside]

theorem deleteByRange_spec (box : BoxPointType K) (allowRebuild isDownsample : Bool)
    {t : KdTree P K} (ht : t.Sound) :
    (deleteByRange params nth box allowRebuild isDownsample t).tree.Sound ∧
      (deleteByRange params nth box allowRebuild isDownsample t).tree.live.Perm
        (box.spare t.live) ∧
      (deleteByRange params nth box allowRebuild isDownsample t).tree.isNull = t.isNull := by
  induction t using deleteByRange.induct params nth box allowRebuild isDownsample with
  | case1 => simp [deleteByRange, KdTree.Sound, BoxPointType.spare]
  | case2 n l r hdeleted =>
    rw [deleteByRange, if_pos hdeleted, live_node, if_pos hdeleted]
    exact ⟨ht, .rfl, rfl⟩
  | case3 n l r hdeleted hmisses =>
    have hkept := Bool.eq_false_of_not_eq_true hdeleted
    obtain ⟨hsound, hlive⟩ := pushDown_sound ht true
    rw [deleteByRange, if_neg hdeleted, if_pos hmisses]
    refine ⟨hsound, ?_, rfl⟩
    have hspare : box.spare (node n l r).live = (node n l r).live := by
      rw [live_node, if_neg hdeleted]
      exact (ht.1.held hkept).2.spare_of_misses hmisses
    rw [hspare]
    exact .of_eq hlive
  | case4 n l r hdeleted hmisses hcovers =>
    have hkept := Bool.eq_false_of_not_eq_true hdeleted
    have hpush := pushDown_spec ht
    rw [deleteByRange, if_neg hdeleted, if_neg hmisses, if_pos hcovers]
    refine ⟨⟨nodeSound_of_flagged rfl rfl (.inl rfl) (.inl rfl), hpush.left, hpush.right⟩, ?_, rfl⟩
    have hspare : box.spare (node n l r).live = [] := by
      rw [live_node, if_neg hdeleted]
      exact (ht.1.held hkept).2.spare_eq_nil_iff.mpr hcovers
    rw [hspare]
    exact .of_eq rfl
  | case5 n l r hdeleted hmisses hcovers ihl ihr =>
    have hkept := Bool.eq_false_of_not_eq_true hdeleted
    have hpush := pushDown_spec ht
    obtain ⟨hl, hliveLeft, hnullLeft⟩ := ihl hpush.left
    obtain ⟨hr, hliveRight, hnullRight⟩ := ihr hpush.right
    rw [deleteByRange, if_neg hdeleted, if_neg hmisses, if_neg hcovers]
    set hit := !n.pointDeleted && decide (box.contains (coords n.point)) with hhit
    set marked : KdTreeNode P K :=
      { n.working l r with
        pointDeleted := n.pointDeleted || hit
        pointDownsampleDeleted := n.pointDownsampleDeleted || (hit && isDownsample) } with hmarked
    set left := (deleteByRange params nth box allowRebuild isDownsample (n.pushLeft l)).tree
    set right := (deleteByRange params nth box allowRebuild isDownsample (n.pushRight r)).tree
    have hown : marked.own = box.spare n.own := marked_own rfl rfl
    have hcontents : (contents marked left right).Perm (box.spare (node n l r).live) := by
      rw [← hpush.contents, contents, contents, hown]
      simp only [BoxPointType.spare, List.filter_append]
      exact (hliveLeft.append_left _).append hliveRight
    have hheld : contents marked left right ≠ [] := by
      -- a box that does not cover the range leaves a point
      intro hnil
      rw [hnil, live_node, if_neg hdeleted] at hcontents
      exact hcovers ((ht.1.held hkept).2.spare_eq_nil_iff.mp hcontents.symm.eq_nil)
    have hstays {son : KdTree P K} (hson : son = null) (deleted : KdTree P K)
        (hnull : deleted.isNull = son.isNull) : Harmless deleted := by
      subst hson
      cases deleted with
      | null => exact .inl rfl
      | node => cases hnull
    obtain ⟨hsound, hperm, hnull⟩ := endVisit_spec params nth allowRebuild (n := marked) hl hr
      (fun h => hstays (working_left (r := r) h) left hnullLeft)
      (fun h => hstays (working_right (l := l) h) right hnullRight)
      (fun h => by
        have hdown := ht.1.downsampledPoint
        simp only [hmarked, Bool.or_eq_true, Bool.and_eq_true] at h ⊢
        exact h.imp hdown And.left)
      hheld
    exact ⟨hsound, hperm.trans hcontents, hnull⟩

end IkdTree
end RobotNav
