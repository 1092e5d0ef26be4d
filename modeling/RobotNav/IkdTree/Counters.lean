/-
The counters of the map tree: `TreeSize` counts nodes and `invalid_point_num` those of
them whose points are gone, so that their difference counts what the tree holds.
-/
import RobotNav.IkdTree.Contents

namespace RobotNav
namespace IkdTree

open PointType (coords)
open KdTree

variable {P K : Type}

structure NodeCounted (n : KdTreeNode P K) (l r : KdTree P K) : Prop where
  size : n.treeSize = l.treeSize + r.treeSize + 1
  invalid : n.invalidPointNum =
    if n.treeDeleted then n.treeSize
    else l.invalidPointNum + r.invalidPointNum + if n.pointDeleted then 1 else 0

def KdTree.Counted : KdTree P K → Prop
  | null => True
  | node n l r => NodeCounted n l r ∧ l.Counted ∧ r.Counted

theorem invalid_of_deleted {t : KdTree P K} (ht : t.Counted) (hdeleted : t.treeDeleted = true) :
    t.invalidPointNum = t.treeSize := by
  cases t with
  | null => rfl
  | node n l r =>
    rw [treeDeleted_node] at hdeleted
    rw [invalidPointNum_node, ht.1.invalid, if_pos hdeleted]
    rfl

/-- The nodes are the points held and the points gone. -/
theorem treeSize_eq {t : KdTree P K} (ht : t.Counted) :
    t.treeSize = t.invalidPointNum + t.live.length := by
  induction t with
  | null => rfl
  | node n l r ihl ihr =>
    obtain ⟨⟨hsize, hinvalid⟩, hl, hr⟩ := ht
    have hleft := ihl hl
    have hright := ihr hr
    rw [treeSize_node, invalidPointNum_node, live_node]
    cases hdeleted : n.treeDeleted with
    | true =>
      rw [hdeleted, if_pos rfl] at hinvalid
      simp [hinvalid]
    | false =>
      rw [hdeleted, if_neg Bool.false_ne_true] at hinvalid
      have hown : n.own.length + (if n.pointDeleted then 1 else 0) = 1 := by
        rw [KdTreeNode.own]
        split_ifs <;> rfl
      simp only [contents, List.length_append, if_neg Bool.false_ne_true]
      omega

variable [Arith K] [PointType P K]

/-! ## `Push_Down`, `Update`, `BuildTree` -/

omit [Arith K] [PointType P K] in
theorem receive_counted {father : KdTreeNode P K} {need : Bool} {t : KdTree P K}
    (ht : t.Counted) (hflag : father.treeDeleted = true ∨ (father.treeDeleted = false ∧
      father.treeDownsampleDeleted = false ∧ (need = true → Harmless t))) :
    (t.receive father need).Counted ∧ (t.receive father need).treeSize = t.treeSize ∧
      (father.treeDeleted = false →
        (t.receive father need).invalidPointNum = t.invalidPointNum) := by
  cases t with
  | null => exact ⟨trivial, rfl, fun _ => rfl⟩
  | node son l r =>
    cases need with
    | false => exact ⟨ht, rfl, fun _ => rfl⟩
    | true =>
      obtain ⟨⟨hsize, hinvalid⟩, hl, hr⟩ := ht
      rcases hflag with hdeleted | ⟨hkept, hdownsampled, hharmless⟩
      · refine ⟨⟨⟨hsize, ?_⟩, hl, hr⟩, rfl, fun h => by rw [hdeleted] at h; cases h⟩
        simp [KdTreeNode.pushTo, hdeleted]
      · obtain hnull | ⟨son', hson, hfresh⟩ := hharmless rfl
        · cases hnull
        · cases hson
          have hpush := pushTo_fresh hkept hdownsampled hfresh
          have hzero : son.invalidPointNum = 0 := by
            simp [hinvalid, hfresh.treeDeleted, hfresh.pointDeleted]
          show (node (father.pushTo son) null null).Counted ∧ (father.pushTo son).treeSize = _ ∧
            (_ → (father.pushTo son).invalidPointNum = _)
          rw [hpush]
          refine ⟨⟨⟨hsize, ?_⟩, hl, hr⟩, rfl, fun _ => hzero.symm⟩
          simp [hfresh.treeDeleted, hfresh.pointDeleted]

theorem pushDown_counted {n : KdTreeNode P K} {l r : KdTree P K} (h : (node n l r).Sound)
    (hc : (node n l r).Counted) :
    (n.pushLeft l).Counted ∧ (n.pushRight r).Counted ∧
      NodeCounted n (n.pushLeft l) (n.pushRight r) := by
  obtain ⟨⟨hsize, hinvalid⟩, hl, hr⟩ := hc
  have hflag {need : Bool} {t : KdTree P K}
      (hharmless : n.treeDeleted = false → need = true → Harmless t) :
      n.treeDeleted = true ∨ (n.treeDeleted = false ∧ n.treeDownsampleDeleted = false ∧
        (need = true → Harmless t)) := by
    cases hkept : n.treeDeleted with
    | true => exact .inl rfl
    | false => exact .inr ⟨rfl, h.1.notDownsampled hkept, hharmless hkept⟩
  obtain ⟨hleft, hsizeLeft, hinvalidLeft⟩ := receive_counted hl (hflag h.1.left)
  obtain ⟨hright, hsizeRight, hinvalidRight⟩ := receive_counted hr (hflag h.1.right)
  refine ⟨hleft, hright, ?_, ?_⟩
  · rw [hsize]
    show _ = (l.receive n _).treeSize + (r.receive n _).treeSize + 1
    rw [hsizeLeft, hsizeRight]
  · cases hkept : n.treeDeleted with
    | true =>
      rw [hkept] at hinvalid
      exact hinvalid
    | false =>
      rw [hkept] at hinvalid
      rw [hinvalid]
      show _ = (l.receive n _).invalidPointNum + (r.receive n _).invalidPointNum + _
      rw [hinvalidLeft hkept, hinvalidRight hkept]
      rfl

theorem update_counted {n : KdTreeNode P K} {l r : KdTree P K} (hl : l.Counted)
    (hr : r.Counted) : (node (n.update l r) l r).Counted := by
  refine ⟨⟨rfl, ?_⟩, hl, hr⟩
  by_cases hdeleted : (n.update l r).treeDeleted = true
  · rw [if_pos hdeleted]
    have hparts : (l.treeDeleted = true ∧ r.treeDeleted = true) ∧ n.pointDeleted = true := by
      simpa [KdTreeNode.update] using hdeleted
    show l.invalidPointNum + r.invalidPointNum + (if n.pointDeleted then 1 else 0) =
      l.treeSize + r.treeSize + 1
    rw [invalid_of_deleted hl hparts.1.1, invalid_of_deleted hr hparts.1.2, if_pos hparts.2]
  · rw [if_neg hdeleted]
    rfl

theorem buildTree_counted (nth : NthElement P K) (points : List P) :
    (buildTree nth points).Counted := by
  induction points using buildTree.induct nth with
  | case1 =>
    rw [buildTree]
    trivial
  | case2 p ps axis parts ihl ihr =>
    rw [buildTree]
    exact update_counted ihl ihr

/-! ## The operations -/

variable (params : KdTreeParams K) (nth : NthElement P K)

omit [Arith K] [PointType P K] in
theorem stopWorking_counted {t : KdTree P K} (ht : t.Counted) : t.stopWorking.Counted := by
  cases t with
  | null => trivial
  | node n l r => exact ⟨⟨ht.1.size, ht.1.invalid⟩, ht.2⟩

theorem endVisit_counted (allowRebuild : Bool) {n : KdTreeNode P K} {l r : KdTree P K}
    (hl : l.Counted) (hr : r.Counted) : (endVisit params nth allowRebuild n l r).1.Counted := by
  rw [endVisit, rebuild]
  split_ifs
  · exact stopWorking_counted (update_counted hl hr)
  · exact stopWorking_counted (buildTree_counted nth _)
  · exact stopWorking_counted (update_counted hl hr)

theorem addByPoint_counted (allowRebuild : Bool) (point : P) (fatherAxis : Fin 3)
    {t : KdTree P K} (ht : t.Sound) (hc : t.Counted) :
    (addByPoint params nth allowRebuild point fatherAxis t).1.Counted := by
  induction fatherAxis, t using addByPoint.induct params nth allowRebuild point with
  | case1 fatherAxis =>
    rw [addByPoint]
    exact update_counted (l := null) (r := null) trivial trivial
  | case2 _ n l r hside ih =>
    have hpush := pushDown_spec ht
    obtain ⟨hl, hr, -⟩ := pushDown_counted ht hc
    rw [addByPoint, if_pos hside]
    exact endVisit_counted params nth allowRebuild (ih hpush.left hl) hr
  | case3 _ n l r hside ih =>
    have hpush := pushDown_spec ht
    obtain ⟨hl, hr, -⟩ := pushDown_counted ht hc
    rw [addByPoint, if_neg hside]
    exact endVisit_counted params nth allowRebuild hl (ih hpush.right hr)

/-- `Delete_by_range` returns how many points it takes. -/
theorem deleteByRange_counted (box : BoxPointType K) (allowRebuild isDownsample : Bool)
    {t : KdTree P K} (ht : t.Sound) (hc : t.Counted) :
    (deleteByRange params nth box allowRebuild isDownsample t).tree.Counted ∧
      (deleteByRange params nth box allowRebuild isDownsample t).counter +
        (box.spare t.live).length = t.live.length := by
  induction t using deleteByRange.induct params nth box allowRebuild isDownsample with
  | case1 => simp [deleteByRange, KdTree.Counted, BoxPointType.spare]
  | case2 n l r hdeleted =>
    rw [deleteByRange, if_pos hdeleted, live_node, if_pos hdeleted]
    exact ⟨hc, rfl⟩
  | case3 n l r hdeleted hmisses =>
    have hkept := Bool.eq_false_of_not_eq_true hdeleted
    obtain ⟨hl, hr, hnode⟩ := pushDown_counted ht hc
    rw [deleteByRange, if_neg hdeleted, if_pos hmisses]
    refine ⟨⟨⟨hnode.size, hnode.invalid⟩, hl, hr⟩, ?_⟩
    rw [live_node, if_neg hdeleted, (ht.1.held hkept).2.spare_of_misses hmisses]
    exact Nat.zero_add _
  | case4 n l r hdeleted hmisses hcovers =>
    have hkept := Bool.eq_false_of_not_eq_true hdeleted
    obtain ⟨hl, hr, hnode⟩ := pushDown_counted ht hc
    have hsize := treeSize_eq hc
    rw [treeSize_node, invalidPointNum_node] at hsize
    rw [deleteByRange, if_neg hdeleted, if_neg hmisses, if_pos hcovers]
    refine ⟨⟨⟨hnode.size, rfl⟩, hl, hr⟩, ?_⟩
    have hspare : box.spare (node n l r).live = [] := by
      rw [live_node, if_neg hdeleted]
      exact (ht.1.held hkept).2.spare_eq_nil_iff.mpr hcovers
    rw [hspare]
    show n.treeSize - n.invalidPointNum + 0 = _
    omega
  | case5 n l r hdeleted hmisses hcovers ihl ihr =>
    have hpush := pushDown_spec ht
    obtain ⟨hl, hr, hnode⟩ := pushDown_counted ht hc
    obtain ⟨hleft, hcounterLeft⟩ := ihl hpush.left hl
    obtain ⟨hright, hcounterRight⟩ := ihr hpush.right hr
    rw [deleteByRange, if_neg hdeleted, if_neg hmisses, if_neg hcovers]
    refine ⟨endVisit_counted params nth allowRebuild hleft hright, ?_⟩
    have hown :
        (if (!n.pointDeleted && decide (box.contains (coords n.point))) = true then 1 else 0)
        + (box.spare n.own).length = n.own.length := by
      rw [KdTreeNode.own, BoxPointType.spare]
      cases n.pointDeleted with
      | true => rfl
      | false => by_cases hinside : box.contains (coords n.point) <;> simp [hinside]
    rw [← hpush.contents, contents]
    simp only [BoxPointType.spare, List.filter_append, List.length_append] at *
    omega

/-! ## Subtrees for the thread -/

omit [Arith K] [PointType P K] in
theorem stopWorking_treeSize (t : KdTree P K) : t.stopWorking.treeSize = t.treeSize := by
  cases t with
  | null => rfl
  | node n l r => rfl

/-- What is left to the thread is large, and keeps all above it from being rebuilt in
place. -/
theorem endVisit_large (allowRebuild : Bool) {n : KdTreeNode P K} {l r : KdTree P K}
    (h : (endVisit params nth allowRebuild n l r).2 = true ∨
      multiThreadRebuildPointNum ≤ l.treeSize ∨ multiThreadRebuildPointNum ≤ r.treeSize) :
    multiThreadRebuildPointNum ≤ (endVisit params nth allowRebuild n l r).1.treeSize := by
  have hsize : (node (n.update l r) l r).treeSize = l.treeSize + r.treeSize + 1 := rfl
  rw [endVisit, rebuild] at h ⊢
  split_ifs at h ⊢ with hcheck hlarge
  · rw [stopWorking_treeSize]
    exact hlarge
  · have hsons := h.resolve_left not_false
    omega
  · have hsons := h.resolve_left not_false
    rw [stopWorking_treeSize]
    omega

theorem addByPoint_large (allowRebuild : Bool) (point : P) (fatherAxis : Fin 3)
    {t : KdTree P K} (h : (addByPoint params nth allowRebuild point fatherAxis t).2 = true) :
    multiThreadRebuildPointNum ≤
      (addByPoint params nth allowRebuild point fatherAxis t).1.treeSize := by
  induction fatherAxis, t using addByPoint.induct params nth allowRebuild point with
  | case1 fatherAxis =>
    rw [addByPoint] at h
    cases h
  | case2 _ n l r hside ih =>
    rw [addByPoint, if_pos hside] at h ⊢
    apply endVisit_large
    rcases Bool.or_eq_true_iff.mp h with hleft | hended
    · exact .inr (.inl (ih hleft))
    · exact .inl hended
  | case3 _ n l r hside ih =>
    rw [addByPoint, if_neg hside] at h ⊢
    apply endVisit_large
    rcases Bool.or_eq_true_iff.mp h with hright | hended
    · exact .inr (.inr (ih hright))
    · exact .inl hended

theorem deleteByRange_large (box : BoxPointType K) (allowRebuild isDownsample : Bool)
    {t : KdTree P K}
    (h : (deleteByRange params nth box allowRebuild isDownsample t).handed = true) :
    multiThreadRebuildPointNum ≤
      (deleteByRange params nth box allowRebuild isDownsample t).tree.treeSize := by
  induction t using deleteByRange.induct params nth box allowRebuild isDownsample with
  | case1 =>
    rw [deleteByRange] at h
    cases h
  | case2 n l r hdeleted =>
    rw [deleteByRange, if_pos hdeleted] at h
    cases h
  | case3 n l r hdeleted hmisses =>
    rw [deleteByRange, if_neg hdeleted, if_pos hmisses] at h
    cases h
  | case4 n l r hdeleted hmisses hcovers =>
    rw [deleteByRange, if_neg hdeleted, if_neg hmisses, if_pos hcovers] at h
    cases h
  | case5 n l r hdeleted hmisses hcovers ihl ihr =>
    rw [deleteByRange, if_neg hdeleted, if_neg hmisses, if_neg hcovers] at h ⊢
    apply endVisit_large
    rcases Bool.or_eq_true_iff.mp h with hsons | hended
    · rcases Bool.or_eq_true_iff.mp hsons with hleft | hright
      · exact .inr (.inl (ihl hleft))
      · exact .inr (.inr (ihr hright))
    · exact .inl hended

end IkdTree
end RobotNav
