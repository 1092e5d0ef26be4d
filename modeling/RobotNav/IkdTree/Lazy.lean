/-
What a tree with lazy deletions holds, and the invariant that makes it so.

A node with `tree_deleted` holds nothing, whatever its sons still say.  The
invariant has three parts: such a node owes its flag to each son or has paid it,
the range of any other node is the exact bounding box of what it holds, and a flag
it owes without being deleted is owed to no one or to a leaf just added, to which
it does nothing.
-/
import Mathlib.Data.List.Forall2
import RobotNav.IkdTree.Operations
import RobotNav.Library.Bounding

namespace RobotNav
namespace IkdTree

open PointType (coords)
open KdTree

variable {P K : Type}

/-! ## The points of a tree -/

/-- The point of a node, if it is not deleted. -/
def KdTreeNode.own (n : KdTreeNode P K) : List P := if n.pointDeleted then [] else [n.point]

/-- The points in a subtree, with every deletion that waits in it taken as done. -/
def KdTree.live : KdTree P K → List P
  | null => []
  | node n l r => if n.treeDeleted then [] else n.own ++ l.live ++ r.live

/-- The points of a node that is not deleted as a whole. -/
def contents (n : KdTreeNode P K) (l r : KdTree P K) : List P := n.own ++ l.live ++ r.live

@[simp] theorem live_null : (null : KdTree P K).live = [] := rfl

theorem live_node (n : KdTreeNode P K) (l r : KdTree P K) :
    (node n l r).live = if n.treeDeleted then [] else contents n l r := rfl

theorem live_of_deleted {t : KdTree P K} (ht : t.treeDeleted = true) : t.live = [] := by
  cases t with
  | null => rfl
  | node n l r =>
    rw [treeDeleted_node] at ht
    rw [live_node, if_pos ht]

/-! ## The invariant -/

/-- A node nothing has been deleted of. -/
structure FreshNode (n : KdTreeNode P K) : Prop where
  treeDeleted : n.treeDeleted = false
  pointDeleted : n.pointDeleted = false
  treeDownsampleDeleted : n.treeDownsampleDeleted = false
  pointDownsampleDeleted : n.pointDownsampleDeleted = false
  downDelNum : n.downDelNum = 0

/-- A flag for a son who is missing, or who is a leaf as new. -/
def Harmless (t : KdTree P K) : Prop := t = null ∨ ∃ n, t = node n null null ∧ FreshNode n

variable [Arith K] [PointType P K]

/-- The box is the bounding box of the points. -/
def Spans (box : BoxPointType K) (ps : List P) : Prop :=
  Bounds coords {p | p ∈ ps} box.vertexMin box.vertexMax

structure NodeSound (n : KdTreeNode P K) (l r : KdTree P K) : Prop where
  flagged : n.treeDeleted = true → n.pointDeleted = true ∧
    (n.needPushDownToLeft = true ∨ l.treeDeleted = true) ∧
    (n.needPushDownToRight = true ∨ r.treeDeleted = true)
  held : n.treeDeleted = false → contents n l r ≠ [] ∧ Spans n.nodeRange (contents n l r)
  left : n.treeDeleted = false → n.needPushDownToLeft = true → Harmless l
  right : n.treeDeleted = false → n.needPushDownToRight = true → Harmless r
  downsampledTree : n.treeDownsampleDeleted = true → n.treeDeleted = true
  downsampledPoint : n.pointDownsampleDeleted = true → n.pointDeleted = true

def KdTree.Sound : KdTree P K → Prop
  | null => True
  | node n l r => NodeSound n l r ∧ l.Sound ∧ r.Sound

theorem KdTree.Sound.downsampled {t : KdTree P K} (ht : t.Sound)
    (hdown : t.treeDownsampleDeleted = true) : t.treeDeleted = true := by
  cases t with
  | null => rfl
  | node n l r => exact ht.1.downsampledTree hdown

/-- A tree that is not deleted holds something. -/
theorem live_ne_nil {t : KdTree P K} (ht : t.Sound) (hkept : t.treeDeleted = false) :
    t.live ≠ [] := by
  cases t with
  | null => cases hkept
  | node n l r =>
    rw [treeDeleted_node] at hkept
    rw [live_node, if_neg (by rw [hkept]; exact Bool.false_ne_true)]
    exact (ht.1.held hkept).1

theorem nodeSound_of_flagged {n : KdTreeNode P K} {l r : KdTree P K} (htree : n.treeDeleted = true)
    (hpoint : n.pointDeleted = true) (hleft : n.needPushDownToLeft = true ∨ l.treeDeleted = true)
    (hright : n.needPushDownToRight = true ∨ r.treeDeleted = true) : NodeSound n l r := by
  have hkept : n.treeDeleted ≠ false := by simp [htree]
  constructor
  · exact fun _ => ⟨hpoint, hleft, hright⟩
  · exact fun h => absurd h hkept
  · exact fun h => absurd h hkept
  · exact fun h => absurd h hkept
  · exact fun _ => htree
  · exact fun _ => hpoint

theorem nodeSound_of_kept {n : KdTreeNode P K} {l r : KdTree P K} (htree : n.treeDeleted = false)
    (hdownsampled : n.treeDownsampleDeleted = false)
    (hpoint : n.pointDownsampleDeleted = true → n.pointDeleted = true)
    (hheld : contents n l r ≠ []) (hrange : Spans n.nodeRange (contents n l r))
    (hleft : n.needPushDownToLeft = true → Harmless l)
    (hright : n.needPushDownToRight = true → Harmless r) : NodeSound n l r := by
  constructor
  · intro h
    rw [htree] at h
    cases h
  · exact fun _ => ⟨hheld, hrange⟩
  · exact fun _ => hleft
  · exact fun _ => hright
  · intro h
    rw [hdownsampled] at h
    cases h
  · exact hpoint

theorem NodeSound.notDownsampled {n : KdTreeNode P K} {l r : KdTree P K} (h : NodeSound n l r)
    (hkept : n.treeDeleted = false) : n.treeDownsampleDeleted = false := by
  by_contra hdownsampled
  have hdeleted := h.downsampledTree (Bool.eq_true_of_not_eq_false hdownsampled)
  rw [hkept] at hdeleted
  cases hdeleted

/-- Sons that hold the same serve as well. -/
theorem NodeSound.congr {n : KdTreeNode P K} {l r l' r' : KdTree P K} (h : NodeSound n l r)
    (hleft : l'.live = l.live) (hright : r'.live = r.live)
    (hdeletedLeft : l.treeDeleted = true → l'.treeDeleted = true)
    (hdeletedRight : r.treeDeleted = true → r'.treeDeleted = true)
    (hneedLeft : n.needPushDownToLeft = true → Harmless l')
    (hneedRight : n.needPushDownToRight = true → Harmless r') : NodeSound n l' r' := by
  have hcontents : contents n l' r' = contents n l r := by
    rw [contents, contents, hleft, hright]
  cases hkept : n.treeDeleted with
  | true =>
    obtain ⟨hpoint, hl, hr⟩ := h.flagged hkept
    exact nodeSound_of_flagged hkept hpoint (hl.imp_right hdeletedLeft)
      (hr.imp_right hdeletedRight)
  | false =>
    obtain ⟨hne, hrange⟩ := h.held hkept
    rw [← hcontents] at hne hrange
    exact nodeSound_of_kept hkept (h.notDownsampled hkept) h.downsampledPoint hne hrange
      hneedLeft hneedRight

/-! ## `Push_Down` -/

/-- A deleted father leaves a deleted son. -/
theorem receive_of_flagged {father : KdTreeNode P K} (hfather : father.treeDeleted = true)
    {need : Bool} {t : KdTree P K} (ht : t.Sound) (howed : need = true ∨ t.treeDeleted = true) :
    (t.receive father need).treeDeleted = true ∧ (t.receive father need).Sound := by
  cases t with
  | null => exact ⟨rfl, trivial⟩
  | node son l r =>
    cases need with
    | false => exact ⟨howed.resolve_left Bool.false_ne_true, ht⟩
    | true =>
      have hdeleted : (father.pushTo son).treeDeleted = true := by
        simp [KdTreeNode.pushTo, hfather]
      have hpoint : (father.pushTo son).pointDeleted = true := by
        simp [KdTreeNode.pushTo, hfather]
      exact ⟨hdeleted, nodeSound_of_flagged hdeleted hpoint (.inl rfl) (.inl rfl), ht.2⟩

omit [Arith K] [PointType P K] in
/-- To a son as new the flags of a father who is not deleted do nothing. -/
theorem pushTo_fresh {father son : KdTreeNode P K} (hfather : father.treeDeleted = false)
    (hdownsampled : father.treeDownsampleDeleted = false) (hson : FreshNode son) :
    father.pushTo son = { son with
      invalidPointNum := 0
      needPushDownToLeft := true
      needPushDownToRight := true } := by
  obtain ⟨htree, hpoint, htreeDown, hpointDown, hnum⟩ := hson
  cases son with
  | mk =>
    simp only at htree hpoint htreeDown hpointDown hnum
    subst htree hpoint htreeDown hpointDown hnum
    simp [KdTreeNode.pushTo, hfather, hdownsampled]

/-- A father who is not deleted changes nothing a son holds. -/
theorem receive_of_kept {father : KdTreeNode P K} (hfather : father.treeDeleted = false)
    (hdownsampled : father.treeDownsampleDeleted = false) {need : Bool} {t : KdTree P K}
    (ht : t.Sound) (howed : need = true → Harmless t) :
    (t.receive father need).live = t.live ∧ (t.receive father need).Sound := by
  cases need with
  | false =>
    cases t with
    | null => exact ⟨rfl, trivial⟩
    | node son l r => exact ⟨rfl, ht⟩
  | true =>
    rcases howed rfl with rfl | ⟨son, rfl, hson⟩
    · exact ⟨rfl, trivial⟩
    · have hnode := ht.1
      have hkept := hson.treeDeleted
      show (node (father.pushTo son) null null).live = (node son null null).live ∧
        (node (father.pushTo son) null null).Sound
      rw [pushTo_fresh hfather hdownsampled hson]
      refine ⟨rfl, ?_, trivial, trivial⟩
      exact nodeSound_of_kept hkept (hnode.notDownsampled hkept) hnode.downsampledPoint
        (hnode.held hkept).1 (hnode.held hkept).2 (fun _ => .inl rfl) (fun _ => .inl rfl)

/-- The sons after `Push_Down`: sound, and together with the point they make up what
the node held. -/
structure PushedDown (n : KdTreeNode P K) (l r : KdTree P K) : Prop where
  left : (n.pushLeft l).Sound
  right : (n.pushRight r).Sound
  contents : contents n (n.pushLeft l) (n.pushRight r) = (node n l r).live
  flagged : n.treeDeleted = true →
    (n.pushLeft l).treeDeleted = true ∧ (n.pushRight r).treeDeleted = true

theorem pushDown_spec {n : KdTreeNode P K} {l r : KdTree P K} (h : (node n l r).Sound) :
    PushedDown n l r := by
  obtain ⟨hnode, hl, hr⟩ := h
  cases hkept : n.treeDeleted with
  | true =>
    obtain ⟨hpoint, howedLeft, howedRight⟩ := hnode.flagged hkept
    obtain ⟨hleft, hl'⟩ := receive_of_flagged hkept hl howedLeft
    obtain ⟨hright, hr'⟩ := receive_of_flagged hkept hr howedRight
    refine ⟨hl', hr', ?_, fun _ => ⟨hleft, hright⟩⟩
    rw [live_node, if_pos hkept, IkdTree.contents, KdTreeNode.own, if_pos hpoint,
      KdTreeNode.pushLeft, KdTreeNode.pushRight, live_of_deleted hleft, live_of_deleted hright]
    rfl
  | false =>
    have hdownsampled := hnode.notDownsampled hkept
    obtain ⟨hleft, hl'⟩ := receive_of_kept hkept hdownsampled hl (hnode.left hkept)
    obtain ⟨hright, hr'⟩ := receive_of_kept hkept hdownsampled hr (hnode.right hkept)
    refine ⟨hl', hr', ?_, fun h => by rw [hkept] at h; cases h⟩
    rw [live_node, hkept, IkdTree.contents, KdTreeNode.pushLeft, KdTreeNode.pushRight, hleft,
      hright]
    rfl

omit [Arith K] [PointType P K] in
/-- After `Push_Down` a flag is left only for a son who is missing. -/
theorem pushed_left {n : KdTreeNode P K} {l r : KdTree P K}
    (h : (n.pushed l r).needPushDownToLeft = true) : l = null := by
  cases l with
  | null => rfl
  | node son l₁ r₁ => simp [KdTreeNode.pushed] at h

omit [Arith K] [PointType P K] in
theorem pushed_right {n : KdTreeNode P K} {l r : KdTree P K}
    (h : (n.pushed l r).needPushDownToRight = true) : r = null := by
  cases r with
  | null => rfl
  | node son l₁ r₁ => simp [KdTreeNode.pushed] at h

/-- The tree after `Push_Down` alone. -/
theorem pushDown_sound {n : KdTreeNode P K} {l r : KdTree P K} (h : (node n l r).Sound)
    (working : Bool) :
    (node { n.pushed l r with workingFlag := working } (n.pushLeft l) (n.pushRight r)).Sound ∧
      (node { n.pushed l r with workingFlag := working } (n.pushLeft l) (n.pushRight r)).live =
        (node n l r).live := by
  have hpush := pushDown_spec h
  have hnode := h.1
  have hnullLeft (hneed : (n.pushed l r).needPushDownToLeft = true) : Harmless (n.pushLeft l) := by
    rw [pushed_left hneed]
    exact .inl rfl
  have hnullRight (hneed : (n.pushed l r).needPushDownToRight = true) :
      Harmless (n.pushRight r) := by
    rw [pushed_right hneed]
    exact .inl rfl
  cases hkept : n.treeDeleted with
  | true =>
    obtain ⟨hleft, hright⟩ := hpush.flagged hkept
    constructor
    · exact ⟨nodeSound_of_flagged hkept (hnode.flagged hkept).1 (.inr hleft) (.inr hright),
        hpush.left, hpush.right⟩
    · rw [live_node, live_node, if_pos hkept]
      exact if_pos hkept
  | false =>
    have hlive : (node n l r).live = contents n l r := by
      rw [live_node, hkept]
      rfl
    have hcontents := hpush.contents.trans hlive
    constructor
    · refine ⟨nodeSound_of_kept hkept (hnode.notDownsampled hkept) hnode.downsampledPoint ?_ ?_
        hnullLeft hnullRight, hpush.left, hpush.right⟩
      · show contents n (n.pushLeft l) (n.pushRight r) ≠ []
        rw [hcontents]
        exact (hnode.held hkept).1
      · show Spans n.nodeRange (contents n (n.pushLeft l) (n.pushRight r))
        rw [hcontents]
        exact (hnode.held hkept).2
    · rw [live_node, ← hpush.contents]
      exact if_neg (by simp [KdTreeNode.pushed, hkept])

/-! ## `flatten` -/

/-- `flatten` stores what the tree holds, and the tree holds it afterwards. -/
theorem flatten_spec {t : KdTree P K} (ht : t.Sound) :
    t.flatten.1 = t.live ∧ t.flatten.2.Sound ∧ t.flatten.2.live = t.live ∧
      t.flatten.2.treeDeleted = t.treeDeleted := by
  induction t using KdTree.flatten.induct with
  | case1 => simp [KdTree.flatten, KdTree.Sound]
  | case2 n l r ihl ihr =>
    have hpush := pushDown_spec ht
    obtain ⟨hpointsLeft, hl, hliveLeft, hdeletedLeft⟩ := ihl hpush.left
    obtain ⟨hpointsRight, hr, hliveRight, hdeletedRight⟩ := ihr hpush.right
    obtain ⟨hpushed, hlive⟩ := pushDown_sound ht n.workingFlag
    have hnode : NodeSound (n.pushed l r) (n.pushLeft l).flatten.2 (n.pushRight r).flatten.2 := by
      apply hpushed.1.congr hliveLeft hliveRight
      · rw [hdeletedLeft]
        exact id
      · rw [hdeletedRight]
        exact id
      · intro hneed
        rw [pushed_left hneed]
        exact .inl (by simp [KdTreeNode.pushLeft, KdTree.receive, KdTree.flatten])
      · intro hneed
        rw [pushed_right hneed]
        exact .inl (by simp [KdTreeNode.pushRight, KdTree.receive, KdTree.flatten])
    rw [KdTree.flatten]
    refine ⟨?_, ⟨hnode, hl, hr⟩, ?_, rfl⟩
    · show n.own ++ (n.pushLeft l).flatten.1 ++ (n.pushRight r).flatten.1 = (node n l r).live
      rw [hpointsLeft, hpointsRight]
      exact hpush.contents
    · rw [← hlive, live_node, live_node, contents, contents, hliveLeft, hliveRight]
      rfl

/-! ## `Update` -/

theorem spans_pointBox (p : P) : Spans (pointBox p) [p] := by
  have hset : {q | q ∈ [p]} = {p} := by
    ext q
    simp
  rw [Spans, hset]
  exact Bounds.singleton p

theorem Spans.join {a b : BoxPointType K} {ps qs : List P} (ha : Spans a ps) (hb : Spans b qs) :
    Spans (a.join b) (ps ++ qs) := by
  have hset : {q | q ∈ ps ++ qs} = {q | q ∈ ps} ∪ {q | q ∈ qs} := by
    ext q
    simp
  rw [Spans, hset]
  exact Bounds.union ha hb

/-- The range of several parts is the bounding box of what they hold. -/
theorem spans_joinAll (other : BoxPointType K) {boxes : List (BoxPointType K)}
    {parts : List (List P)} (h : List.Forall₂ Spans boxes parts) (hne : parts ≠ []) :
    Spans (.joinAll other boxes) parts.flatten := by
  have hfoldl {boxes : List (BoxPointType K)} {parts : List (List P)}
      (h : List.Forall₂ Spans boxes parts) {a : BoxPointType K} {ps : List P} (ha : Spans a ps) :
      Spans (boxes.foldl BoxPointType.join a) (ps ++ parts.flatten) := by
    induction h generalizing a ps with
    | nil => simpa using ha
    | cons hb _ ih =>
      rw [List.foldl_cons, List.flatten_cons, ← List.append_assoc]
      exact ih (ha.join hb)
  cases h with
  | nil => exact absurd rfl hne
  | cons hb hrest => exact hfoldl hrest hb

/-- What a son adds to the points of its father, if it adds any. -/
def KdTree.liveParts (t : KdTree P K) : List (List P) := if t.treeDeleted then [] else [t.live]

omit [Arith K] [PointType P K] in
theorem liveParts_flatten (t : KdTree P K) : t.liveParts.flatten = t.live := by
  rw [KdTree.liveParts]
  split_ifs with hdeleted
  · rw [live_of_deleted hdeleted]
    rfl
  · simp

theorem rangePart_spans {t : KdTree P K} (ht : t.Sound) {all : Bool}
    (hall : all = true → t.isNull = true ∨ t.treeDeleted = false) :
    List.Forall₂ Spans (t.rangePart all) t.liveParts := by
  cases t with
  | null => exact .nil
  | node n l r =>
    rw [KdTree.rangePart, KdTree.liveParts, treeDeleted_node]
    cases hdeleted : n.treeDeleted with
    | true =>
      have hsome : all = false := by
        by_contra hall'
        have hnull := hall (Bool.eq_true_of_not_eq_false hall')
        simp [hdeleted] at hnull
      rw [hsome]
      exact .nil
    | false =>
      have hspans := (ht.1.held hdeleted).2
      have hlive : (node n l r).live = contents n l r := by
        rw [live_node, hdeleted]
        rfl
      rw [hlive]
      cases all with
      | true => exact .cons hspans .nil
      | false => exact .cons hspans .nil

theorem rangeParts_spans {n : KdTreeNode P K} {l r : KdTree P K} (hl : l.Sound) (hr : r.Sound)
    {all : Bool} (hleft : all = true → l.isNull = true ∨ l.treeDeleted = false)
    (hright : all = true → r.isNull = true ∨ r.treeDeleted = false)
    (hpoint : all = true → n.pointDeleted = false) :
    ∃ parts, List.Forall₂ Spans (n.rangeParts all l r) parts ∧
      parts.flatten.Perm (contents n l r) := by
  have hown : List.Forall₂ Spans (if all || !n.pointDeleted then [pointBox n.point] else [])
      (if n.pointDeleted then [] else [[n.point]]) := by
    cases hdeleted : n.pointDeleted with
    | true =>
      have hsome : all = false := by
        by_contra hall
        have hkept := hpoint (Bool.eq_true_of_not_eq_false hall)
        rw [hdeleted] at hkept
        cases hkept
      rw [hsome]
      exact .nil
    | false =>
      rw [Bool.not_false, Bool.or_true]
      exact .cons (spans_pointBox n.point) .nil
  have hsons := List.rel_append (rangePart_spans hl hleft) (rangePart_spans hr hright)
  refine ⟨_, List.rel_append hsons hown, ?_⟩
  have hflat : (if n.pointDeleted then ([] : List (List P)) else [[n.point]]).flatten = n.own := by
    rw [KdTreeNode.own]
    split_ifs <;> rfl
  rw [List.flatten_append, List.flatten_append, liveParts_flatten, liveParts_flatten, hflat,
    contents, List.append_assoc n.own]
  exact List.perm_append_comm

omit [Arith K] [PointType P K] in
theorem own_ne_nil {n : KdTreeNode P K} (hpoint : n.pointDeleted = false) : n.own ≠ [] := by
  rw [KdTreeNode.own, hpoint]
  exact List.cons_ne_nil _ _

/-- `Update` makes a node sound whose sons are, and its flag says whether anything
is left. -/
theorem update_spec {n : KdTreeNode P K} {l r : KdTree P K} (hl : l.Sound) (hr : r.Sound)
    (hleft : n.needPushDownToLeft = true → Harmless l)
    (hright : n.needPushDownToRight = true → Harmless r)
    (hpoint : n.pointDownsampleDeleted = true → n.pointDeleted = true) :
    (node (n.update l r) l r).Sound ∧ (node (n.update l r) l r).live = contents n l r := by
  have hcontents : contents (n.update l r) l r = contents n l r := rfl
  cases hkept : (n.update l r).treeDeleted with
  | true =>
    have hparts : (l.treeDeleted = true ∧ r.treeDeleted = true) ∧ n.pointDeleted = true := by
      simpa [KdTreeNode.update] using hkept
    obtain ⟨⟨hdeletedLeft, hdeletedRight⟩, hdeletedPoint⟩ := hparts
    refine ⟨⟨nodeSound_of_flagged hkept hdeletedPoint (.inr hdeletedLeft) (.inr hdeletedRight),
      hl, hr⟩, ?_⟩
    rw [live_node, if_pos hkept, contents, live_of_deleted hdeletedLeft,
      live_of_deleted hdeletedRight, KdTreeNode.own, if_pos hdeletedPoint]
    rfl
  | false =>
    have hlive : (node (n.update l r) l r).live = contents n l r := by
      rw [live_node, hkept]
      exact hcontents
    have hnot : ¬ ((l.treeDeleted = true ∧ r.treeDeleted = true) ∧ n.pointDeleted = true) := by
      intro hall
      simp [KdTreeNode.update, hall.1.1, hall.1.2, hall.2] at hkept
    have hheld : contents n l r ≠ [] := by
      intro hnil
      rw [contents, List.append_eq_nil_iff, List.append_eq_nil_iff] at hnil
      apply hnot
      refine ⟨⟨?_, ?_⟩, ?_⟩
      · by_contra h
        exact live_ne_nil hl (Bool.eq_false_of_not_eq_true h) hnil.1.2
      · by_contra h
        exact live_ne_nil hr (Bool.eq_false_of_not_eq_true h) hnil.2
      · by_contra h
        exact own_ne_nil (Bool.eq_false_of_not_eq_true h) hnil.1.1
    have hrange : Spans (n.update l r).nodeRange (contents n l r) := by
      -- nothing is deleted when the whole range is taken, so every part counts
      have htree : (l.treeDeleted && r.treeDeleted && n.pointDeleted) = false := hkept
      set none := (l.isNull || !l.treeDeleted) && (r.isNull || !r.treeDeleted) && !n.pointDeleted
        with hnone
      have hnone' : none = true → ((l.isNull = true ∨ l.treeDeleted = false) ∧
          (r.isNull = true ∨ r.treeDeleted = false)) ∧ n.pointDeleted = false := by
        intro h
        simpa [hnone] using h
      obtain ⟨parts, hspans, hperm⟩ := rangeParts_spans (n := n) hl hr
        (fun h => (hnone' h).1.1) (fun h => (hnone' h).1.2) (fun h => (hnone' h).2)
      have hne : parts ≠ [] := by
        rintro rfl
        exact hheld hperm.symm.eq_nil
      have hset : {p | p ∈ parts.flatten} = {p | p ∈ contents n l r} := by
        ext p
        exact hperm.mem_iff
      have hall := spans_joinAll (pointBox n.point) hspans hne
      rw [Spans, hset] at hall
      show Spans (.joinAll (pointBox n.point)
        (n.rangeParts ((l.treeDeleted && r.treeDeleted && n.pointDeleted) || none) l r)) _
      rw [htree, Bool.false_or]
      exact hall
    have hdownsampled : (n.update l r).treeDownsampleDeleted = false := by
      by_contra h
      have hdown : (l.treeDownsampleDeleted = true ∧ r.treeDownsampleDeleted = true) ∧
          n.pointDownsampleDeleted = true := by
        simpa [KdTreeNode.update] using Bool.eq_true_of_not_eq_false h
      exact hnot ⟨⟨hl.downsampled hdown.1.1, hr.downsampled hdown.1.2⟩, hpoint hdown.2⟩
    refine ⟨⟨nodeSound_of_kept hkept hdownsampled hpoint hheld hrange hleft hright, hl, hr⟩, hlive⟩

end IkdTree
end RobotNav
