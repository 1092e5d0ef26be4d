/-
Searches that push flags down on their way, and `Search_by_range`.

A search changes the flags in the tree and nothing of what the tree holds; what it finds
is what a deletion with the same box would take.
-/
import RobotNav.IkdTree.Contents

namespace RobotNav
namespace IkdTree

open PointType (coords)
open KdTree

variable {P K : Type} [Arith K] [PointType P K]

/-- `Search_by_range`: what it stores, and the tree it leaves. -/
def KdTree.searchByRange (box : BoxPointType K) : KdTree P K → List P × KdTree P K
  | null => ([], null)
  | node n l r =>
    if box.misses n.nodeRange then ([], node (n.pushed l r) (n.pushLeft l) (n.pushRight r))
    else if box.covers n.nodeRange then
      (node (n.pushed l r) (n.pushLeft l) (n.pushRight r)).flatten
    else
      let left := (n.pushLeft l).searchByRange box
      let right := (n.pushRight r).searchByRange box
      ((if box.contains (coords n.point) ∧ n.pointDeleted = false then [n.point] else []) ++
        left.1 ++ right.1, node (n.pushed l r) left.2 right.2)
termination_by t => t.count
decreasing_by
  all_goals
    simp only [count_pushLeft, count_pushRight, KdTree.count]
    omega

/-! ## Trees that hold the same -/

/-- `t'` is `t` with other flags. -/
structure SameContents (t t' : KdTree P K) : Prop where
  sound : t'.Sound
  live : t'.live = t.live
  treeDeleted : t'.treeDeleted = t.treeDeleted
  isNull : t'.isNull = t.isNull

namespace SameContents

theorem refl {t : KdTree P K} (ht : t.Sound) : SameContents t t := ⟨ht, rfl, rfl, rfl⟩

theorem trans {t t' t'' : KdTree P K} (h : SameContents t t') (h' : SameContents t' t'') :
    SameContents t t'' :=
  ⟨h'.sound, h'.live.trans h.live, h'.treeDeleted.trans h.treeDeleted, h'.isNull.trans h.isNull⟩

theorem harmless {son t : KdTree P K} (h : SameContents son t) (hnull : son = null) :
    Harmless t := by
  subst hnull
  have hisNull := h.isNull
  cases t with
  | null => exact .inl rfl
  | node => cases hisNull

/-- A node after `Push_Down`, with its sons searched. -/
theorem node {n : KdTreeNode P K} {l r l' r' : KdTree P K} (h : (node n l r).Sound)
    (hl : SameContents (n.pushLeft l) l') (hr : SameContents (n.pushRight r) r') :
    SameContents (node n l r) (node (n.pushed l r) l' r') := by
  obtain ⟨hpushed, hlive⟩ := pushDown_sound h n.workingFlag
  refine ⟨⟨?_, hl.sound, hr.sound⟩, ?_, rfl, rfl⟩
  · refine hpushed.1.congr hl.live hr.live ?_ ?_ ?_ ?_
    · rw [hl.treeDeleted]
      exact id
    · rw [hr.treeDeleted]
      exact id
    · intro hneed
      have hnull : n.pushLeft l = null := by
        rw [pushed_left hneed]
        rfl
      exact hl.harmless hnull
    · intro hneed
      have hnull : n.pushRight r = null := by
        rw [pushed_right hneed]
        rfl
      exact hr.harmless hnull
  · rw [← hlive, live_node, live_node, contents, contents, hl.live, hr.live]
    rfl

/-- `Push_Down` alone. -/
theorem pushDown {n : KdTreeNode P K} {l r : KdTree P K} (h : (KdTree.node n l r).Sound) :
    SameContents (KdTree.node n l r)
      (KdTree.node (n.pushed l r) (n.pushLeft l) (n.pushRight r)) :=
  node h (.refl (pushDown_spec h).left) (.refl (pushDown_spec h).right)

theorem flatten {t : KdTree P K} (ht : t.Sound) : SameContents t t.flatten.2 := by
  obtain ⟨-, hsound, hlive, hdeleted⟩ := flatten_spec ht
  refine ⟨hsound, hlive, hdeleted, ?_⟩
  cases t with
  | null => simp [KdTree.flatten]
  | node n l r => simp [KdTree.flatten]

end SameContents

/-! ## `Search_by_range` -/

/-- The points a box takes. -/
def BoxPointType.taken (box : BoxPointType K) (ps : List P) : List P :=
  ps.filter fun p => decide (box.contains (coords p))

theorem taken_append (box : BoxPointType K) (ps qs : List P) :
    box.taken (ps ++ qs) = box.taken ps ++ box.taken qs := List.filter_append ..

theorem Spans.taken_of_misses {box range : BoxPointType K} {ps : List P} (h : Spans range ps)
    (hmisses : box.misses range) : box.taken ps = [] := by
  rw [BoxPointType.taken, List.filter_eq_nil_iff]
  intro p hp
  have hnot : ¬ box.contains (coords p) := Bounds.not_inside h hmisses hp
  simp [hnot]

theorem Spans.taken_of_covers {box range : BoxPointType K} {ps : List P} (h : Spans range ps)
    (hcovers : box.covers range) : box.taken ps = ps := by
  rw [BoxPointType.taken, List.filter_eq_self]
  intro p hp
  exact decide_eq_true ((Bounds.all_inside_iff h).mpr hcovers p hp)

theorem own_taken (box : BoxPointType K) (n : KdTreeNode P K) :
    (if box.contains (coords n.point) ∧ n.pointDeleted = false then [n.point] else []) =
      box.taken n.own := by
  rw [KdTreeNode.own]
  cases hdeleted : n.pointDeleted with
  | true => simp [BoxPointType.taken]
  | false => by_cases hinside : box.contains (coords n.point) <;>
      simp [BoxPointType.taken, hinside]

/-- The search finds what the tree holds in the box. -/
theorem searchByRange_spec (box : BoxPointType K) {t : KdTree P K} (ht : t.Sound) :
    (t.searchByRange box).1 = box.taken t.live ∧ SameContents t (t.searchByRange box).2 := by
  induction t using KdTree.searchByRange.induct (P := P) box with
  | case1 =>
    rw [KdTree.searchByRange]
    exact ⟨rfl, .refl trivial⟩
  | case2 n l r hmisses =>
    rw [KdTree.searchByRange, if_pos hmisses]
    refine ⟨?_, .pushDown ht⟩
    rw [live_node]
    split_ifs with hdeleted
    · rfl
    · have hkept := Bool.eq_false_of_not_eq_true hdeleted
      exact ((ht.1.held hkept).2.taken_of_misses hmisses).symm
  | case3 n l r hmisses hcovers =>
    rw [KdTree.searchByRange, if_neg hmisses, if_pos hcovers]
    have hpushed := SameContents.pushDown ht
    refine ⟨?_, hpushed.trans (.flatten hpushed.sound)⟩
    rw [(flatten_spec hpushed.sound).1, hpushed.live, live_node]
    split_ifs with hdeleted
    · rfl
    · have hkept := Bool.eq_false_of_not_eq_true hdeleted
      exact ((ht.1.held hkept).2.taken_of_covers hcovers).symm
  | case4 n l r hmisses hcovers ihl ihr =>
    have hpush := pushDown_spec ht
    obtain ⟨hleft, hl⟩ := ihl hpush.left
    obtain ⟨hright, hr⟩ := ihr hpush.right
    rw [KdTree.searchByRange, if_neg hmisses, if_neg hcovers]
    refine ⟨?_, .node ht hl hr⟩
    rw [← hpush.contents, contents, taken_append, taken_append, ← hleft, ← hright, own_taken]

end IkdTree
end RobotNav
