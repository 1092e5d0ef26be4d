/-
Subtrees in their places: what a tree holds when one of its subtrees is replaced, in
place as the copy of the rebuild thread leaves it, or by the swap.

Above a place that needs the rebuild thread every subtree is too large for the flags
that `Push_Down` may leave behind without harm.
-/
import Mathlib.Algebra.Order.Group.Multiset
import RobotNav.IkdTree.Background
import RobotNav.IkdTree.Refinement

namespace RobotNav
namespace IkdTree

open PointType (coords)
open KdTree

variable {P K : Type}

/-! ## Sides -/

namespace Side

@[simp] theorem son_put (s : Side) (l r t : KdTree P K) :
    s.son (s.put l r t).1 (s.put l r t).2 = t := by
  cases s <;> rfl

@[simp] theorem other_son_put (s : Side) (l r t : KdTree P K) :
    s.other.son (s.put l r t).1 (s.put l r t).2 = s.other.son l r := by
  cases s <;> rfl

@[simp] theorem other_other (s : Side) : s.other.other = s := by
  cases s <;> rfl

theorem eq_other_of_ne {s s' : Side} (h : s' ≠ s) : s' = s.other := by
  cases s <;> cases s' <;> first | rfl | exact absurd rfl h

end Side

/-! ## Points held -/

/-- The points of a tree, in no order. -/
def KdTree.held (t : KdTree P K) : Multiset P := t.live

/-- The point of a node, if it is not deleted. -/
def KdTreeNode.ownPoint (n : KdTreeNode P K) : Multiset P := n.own

theorem held_eq_zero_iff {t : KdTree P K} : t.held = 0 ↔ t.live = [] :=
  Multiset.coe_eq_zero _

theorem held_of_deleted {t : KdTree P K} (ht : t.treeDeleted = true) : t.held = 0 :=
  held_eq_zero_iff.mpr (live_of_deleted ht)

theorem coe_contents (n : KdTreeNode P K) (l r : KdTree P K) :
    (contents n l r : Multiset P) = n.ownPoint + l.held + r.held := by
  rw [contents, ← Multiset.coe_add, ← Multiset.coe_add]
  rfl

/-- The same, with one son put first. -/
theorem coe_contents_side (s : Side) (n : KdTreeNode P K) (l r : KdTree P K) :
    (contents n l r : Multiset P) =
      n.ownPoint + (s.son l r).held + (s.other.son l r).held := by
  rw [coe_contents]
  cases s with
  | left => rfl
  | right => exact add_right_comm _ _ _

theorem coe_contents_put (s : Side) (n : KdTreeNode P K) (l r t : KdTree P K) :
    (contents n (s.put l r t).1 (s.put l r t).2 : Multiset P) =
      n.ownPoint + t.held + (s.other.son l r).held := by
  rw [coe_contents_side s, Side.son_put, Side.other_son_put]

theorem held_kept {n : KdTreeNode P K} (hkept : n.treeDeleted = false) (s : Side)
    (l r : KdTree P K) :
    (node n l r).held = n.ownPoint + (s.son l r).held + (s.other.son l r).held := by
  rw [← coe_contents_side, KdTree.held, live_node, hkept]
  rfl

variable [Arith K] [PointType P K]

theorem treeDeleted_of_held {t : KdTree P K} (ht : t.Sound) (hnone : t.held = 0) :
    t.treeDeleted = true := by
  by_contra h
  exact live_ne_nil ht (Bool.eq_false_of_not_eq_true h) (held_eq_zero_iff.mp hnone)

theorem Spans.perm {box : BoxPointType K} {ps qs : List P} (h : Spans box ps)
    (hperm : (ps : Multiset P) = qs) : Spans box qs := by
  have hset : {p | p ∈ ps} = {p | p ∈ qs} := by
    ext p
    exact (Multiset.coe_eq_coe.mp hperm).mem_iff
  rw [Spans, hset] at h
  exact h

/-! ## A node with another son -/

theorem NodeSound.flagged_side {n : KdTreeNode P K} {l r : KdTree P K} (h : NodeSound n l r)
    (hdeleted : n.treeDeleted = true) (s : Side) :
    n.need s = true ∨ (s.son l r).treeDeleted = true := by
  obtain ⟨-, hl, hr⟩ := h.flagged hdeleted
  cases s with
  | left => exact hl
  | right => exact hr

theorem NodeSound.kept_side {n : KdTreeNode P K} {l r : KdTree P K} (h : NodeSound n l r)
    (hkept : n.treeDeleted = false) (s : Side) (hneed : n.need s = true) :
    Harmless (s.son l r) := by
  cases s with
  | left => exact h.left hkept hneed
  | right => exact h.right hkept hneed

theorem KdTree.Sound.son {n : KdTreeNode P K} {l r : KdTree P K} (h : (node n l r).Sound)
    (s : Side) : (s.son l r).Sound := by
  cases s with
  | left => exact h.2.1
  | right => exact h.2.2

theorem nodeSound_of_sides {n : KdTreeNode P K} {l r : KdTree P K} (s : Side)
    (hson : n.treeDeleted = true → n.need s = true ∨ (s.son l r).treeDeleted = true)
    (hother : n.treeDeleted = true → n.need s.other = true ∨ (s.other.son l r).treeDeleted = true)
    (hpoint : n.treeDeleted = true → n.pointDeleted = true)
    (hheld : n.treeDeleted = false → contents n l r ≠ [] ∧ Spans n.nodeRange (contents n l r))
    (hneed : n.treeDeleted = false → n.need s = true → Harmless (s.son l r))
    (hneed' : n.treeDeleted = false → n.need s.other = true → Harmless (s.other.son l r))
    (hdown : n.treeDownsampleDeleted = true → n.treeDeleted = true)
    (hdownPoint : n.pointDownsampleDeleted = true → n.pointDeleted = true) : NodeSound n l r := by
  cases s with
  | left =>
    exact ⟨fun h => ⟨hpoint h, hson h, hother h⟩, hheld, hneed, hneed', hdown, hdownPoint⟩
  | right =>
    exact ⟨fun h => ⟨hpoint h, hother h, hson h⟩, hheld, hneed', hneed, hdown, hdownPoint⟩

/-- A son that holds the same takes the place of a son to which nothing is owed
without a deletion. -/
theorem graft_sound {n : KdTreeNode P K} {l r : KdTree P K} (h : (node n l r).Sound) {s : Side}
    {t : KdTree P K} (ht : t.Sound) (hheld : t.held = (s.son l r).held)
    (hneed : n.treeDeleted = false → n.need s = false) :
    (s.graft n l r t).Sound ∧ (s.graft n l r t).held = (node n l r).held := by
  obtain ⟨hnode, hl, hr⟩ := h
  have hcontents : (contents n l r : Multiset P) =
      contents n (s.put l r t).1 (s.put l r t).2 := by
    rw [coe_contents_put, coe_contents_side s, hheld]
  have hsound : NodeSound n (s.put l r t).1 (s.put l r t).2 := by
    apply nodeSound_of_sides s
    · intro hdeleted
      rw [Side.son_put]
      refine (hnode.flagged_side hdeleted s).imp_right fun hson => treeDeleted_of_held ht ?_
      rw [hheld, held_of_deleted hson]
    · intro hdeleted
      rw [Side.other_son_put]
      exact hnode.flagged_side hdeleted s.other
    · exact fun hdeleted => (hnode.flagged hdeleted).1
    · intro hkept
      obtain ⟨hne, hspans⟩ := hnode.held hkept
      refine ⟨fun hnil => hne ?_, hspans.perm hcontents⟩
      rw [hnil] at hcontents
      exact (Multiset.coe_eq_zero _).mp hcontents
    · intro hkept hs
      rw [hneed hkept] at hs
      cases hs
    · intro hkept
      rw [Side.other_son_put]
      exact hnode.kept_side hkept s.other
    · exact hnode.downsampledTree
    · exact hnode.downsampledPoint
  have hsons : (s.put l r t).1.Sound ∧ (s.put l r t).2.Sound := by
    cases s with
    | left => exact ⟨ht, hr⟩
    | right => exact ⟨hl, ht⟩
  refine ⟨⟨hsound, hsons⟩, ?_⟩
  rw [Side.graft, KdTree.held, KdTree.held, live_node, live_node]
  split_ifs
  · rfl
  · exact hcontents.symm

/-! ## Subtrees -/

/-- Of the size that is left to the rebuild thread. -/
def KdTree.Large (t : KdTree P K) : Prop := multiThreadRebuildPointNum ≤ t.treeSize

omit [Arith K] [PointType P K] in
theorem KdTree.Large.isNull {t : KdTree P K} (ht : t.Large) : t.isNull = false := by
  cases t with
  | null =>
    have hmany : ¬ multiThreadRebuildPointNum ≤ 0 := by decide
    exact absurd ht hmany
  | node n l r => rfl

omit [Arith K] [PointType P K] in
theorem KdTree.Counted.son {n : KdTreeNode P K} {l r : KdTree P K} (h : (node n l r).Counted)
    (s : Side) : (s.son l r).Counted := by
  cases s with
  | left => exact h.2.1
  | right => exact h.2.2

omit [Arith K] [PointType P K] in
theorem NodeCounted.son_lt {n : KdTreeNode P K} {l r : KdTree P K} (h : NodeCounted n l r)
    (s : Side) : (s.son l r).treeSize < n.treeSize := by
  have hsize := h.size
  cases s with
  | left =>
    show l.treeSize < n.treeSize
    omega
  | right =>
    show r.treeSize < n.treeSize
    omega

omit [Arith K] [PointType P K] in
theorem treeSize_subtree_le {t : KdTree P K} (ht : t.Counted) (path : List Side) :
    (t.subtree path).treeSize ≤ t.treeSize := by
  induction path generalizing t with
  | nil => exact le_refl _
  | cons s path ih =>
    cases t with
    | null => exact le_refl _
    | node n l r => exact (ih (ht.son s)).trans (ht.1.son_lt s).le

omit [Arith K] [PointType P K] in
/-- Above a large subtree no flag is left behind. -/
theorem not_harmless {t : KdTree P K} (ht : t.Counted) {path : List Side}
    (hlarge : (t.subtree path).Large) : ¬ Harmless t := by
  intro h
  have hle := treeSize_subtree_le ht path
  have hsize : t.treeSize ≤ 1 := by
    rcases h with rfl | ⟨n, rfl, -⟩
    · exact Nat.zero_le 1
    · exact ht.1.size.le
  have hmany : 1 < multiThreadRebuildPointNum := by decide
  have hge : multiThreadRebuildPointNum ≤ (t.subtree path).treeSize := hlarge
  omega

/-- Sound, and with the counters as they should be where that is asked for. -/
structure Whole (strict : Bool) (t : KdTree P K) : Prop where
  sound : t.Sound
  counted : strict = true → t.Counted

theorem Whole.son {strict : Bool} {n : KdTreeNode P K} {l r : KdTree P K}
    (h : Whole strict (node n l r)) (s : Side) : Whole strict (s.son l r) :=
  ⟨h.sound.son s, fun hs => (h.counted hs).son s⟩

theorem Whole.subtree {strict : Bool} {t : KdTree P K} (h : Whole strict t)
    (path : List Side) : Whole strict (t.subtree path) := by
  induction path generalizing t with
  | nil => exact h
  | cons s path ih =>
    cases t with
    | null => exact ⟨trivial, fun _ => trivial⟩
    | node n l r => exact ih (h.son s)

/-! ## Another subtree in a place -/

/-- `t'` is `t` with another subtree in a place, the nodes above it updated or not.
A node is only updated when that does not lose a deletion, and not where the
replacement is exact. -/
inductive Replaced (new : KdTree P K) (exact : Bool) :
    List Side → KdTree P K → KdTree P K → Prop where
  | here (t : KdTree P K) : Replaced new exact [] t new
  | keep {s : Side} {path : List Side} {n : KdTreeNode P K} {l r t : KdTree P K}
      (son : Replaced new exact path (s.son l r) t) :
      Replaced new exact (s :: path) (node n l r) (s.graft n l r t)
  | update {s : Side} {path : List Side} {n : KdTreeNode P K} {l r t : KdTree P K}
      (inexact : exact = false) (idle : n.workingFlag = false)
      (son : Replaced new exact path (s.son l r) t)
      (safe : n.treeDeleted = true →
        t.treeDeleted = true ∧ (s.other.son l r).treeDeleted = true) :
      Replaced new exact (s :: path) (node n l r)
        (s.graft (n.update (s.put l r t).1 (s.put l r t).2) l r t)

/-- As many nodes, and as many of them without a point. -/
structure SameCounts (t t' : KdTree P K) : Prop where
  counted : t.Counted
  size : t.treeSize = t'.treeSize
  invalid : t.invalidPointNum = t'.invalidPointNum

/-- What a replacement has to do with the subtree that was there. -/
structure Replaces (new old : KdTree P K) (exact : Bool) : Prop where
  sound : new.Sound
  held : new.held = old.held
  there : new.isNull = false
  same : exact = true → SameCounts new old

omit [Arith K] [PointType P K] in
theorem treeSize_put {s : Side} {l r t : KdTree P K} (h : t.treeSize = (s.son l r).treeSize) :
    (s.put l r t).1.treeSize + (s.put l r t).2.treeSize = l.treeSize + r.treeSize := by
  cases s with
  | left => exact congrArg (fun size => size + r.treeSize) h
  | right => exact congrArg (fun size => l.treeSize + size) h

omit [Arith K] [PointType P K] in
theorem invalidPointNum_put {s : Side} {l r t : KdTree P K}
    (h : t.invalidPointNum = (s.son l r).invalidPointNum) :
    (s.put l r t).1.invalidPointNum + (s.put l r t).2.invalidPointNum =
      l.invalidPointNum + r.invalidPointNum := by
  cases s with
  | left => exact congrArg (fun num => num + r.invalidPointNum) h
  | right => exact congrArg (fun num => l.invalidPointNum + num) h

omit [Arith K] [PointType P K] in
theorem graft_counted {n : KdTreeNode P K} {l r t : KdTree P K} {s : Side}
    (h : (node n l r).Counted) (ht : SameCounts t (s.son l r)) : (s.graft n l r t).Counted := by
  obtain ⟨hnode, hl, hr⟩ := h
  have hsons : (s.put l r t).1.Counted ∧ (s.put l r t).2.Counted := by
    cases s with
    | left => exact ⟨ht.counted, hr⟩
    | right => exact ⟨hl, ht.counted⟩
  refine ⟨⟨?_, ?_⟩, hsons⟩
  · rw [treeSize_put ht.size]
    exact hnode.size
  · rw [invalidPointNum_put ht.invalid]
    exact hnode.invalid

/-- A node above a large subtree that is not deleted owes nothing on that side. -/
theorem need_of_large {n : KdTreeNode P K} {l r : KdTree P K} (h : Whole true (node n l r))
    {s : Side} {path : List Side} (hlarge : ((s.son l r).subtree path).Large)
    (hkept : n.treeDeleted = false) : n.need s = false := by
  by_contra hneed
  exact not_harmless ((h.counted rfl).son s) hlarge
    (h.sound.1.kept_side hkept s (Bool.eq_true_of_not_eq_false hneed))

/-- A node updated around a replaced son. -/
theorem update_sound {n : KdTreeNode P K} {l r : KdTree P K} (h : (node n l r).Sound) {s : Side}
    {t : KdTree P K} (ht : t.Sound) (hheld : t.held = (s.son l r).held)
    (hneed : n.treeDeleted = false → n.need s = false)
    (hsafe : n.treeDeleted = true →
      t.treeDeleted = true ∧ (s.other.son l r).treeDeleted = true) :
    (s.graft (n.update (s.put l r t).1 (s.put l r t).2) l r t).Sound ∧
      (s.graft (n.update (s.put l r t).1 (s.put l r t).2) l r t).held = (node n l r).held := by
  obtain ⟨hnode, hl, hr⟩ := h
  have hsons : (s.put l r t).1.Sound ∧ (s.put l r t).2.Sound := by
    cases s with
    | left => exact ⟨ht, hr⟩
    | right => exact ⟨hl, ht⟩
  cases hkept : n.treeDeleted with
  | true =>
    obtain ⟨hson, hother⟩ := hsafe hkept
    have hpoint := (hnode.flagged hkept).1
    have hboth : (s.put l r t).1.treeDeleted = true ∧ (s.put l r t).2.treeDeleted = true := by
      cases s with
      | left => exact ⟨hson, hother⟩
      | right => exact ⟨hother, hson⟩
    have hdeleted : (n.update (s.put l r t).1 (s.put l r t).2).treeDeleted = true := by
      simp [KdTreeNode.update, hboth, hpoint]
    refine ⟨⟨nodeSound_of_flagged hdeleted hpoint (.inr hboth.1) (.inr hboth.2), hsons⟩, ?_⟩
    have hgone : (s.graft (n.update (s.put l r t).1 (s.put l r t).2) l r t).held = 0 :=
      held_of_deleted hdeleted
    rw [hgone, held_of_deleted (t := node n l r) hkept]
  | false =>
    have howed (s' : Side) (hs' : n.need s' = true) :
        Harmless (s'.son (s.put l r t).1 (s.put l r t).2) := by
      by_cases hside : s' = s
      · rw [hside, hneed hkept] at hs'
        cases hs'
      · rw [Side.eq_other_of_ne hside] at hs' ⊢
        rw [Side.other_son_put]
        exact hnode.kept_side hkept s.other hs'
    obtain ⟨hsound, hlive⟩ := update_spec hsons.1 hsons.2 (howed .left) (howed .right)
      hnode.downsampledPoint
    refine ⟨hsound, ?_⟩
    rw [held_kept hkept s, ← hheld, ← coe_contents_put, ← hlive]
    rfl

theorem Replaced.whole {new : KdTree P K} {exact : Bool} {path : List Side} {t t' : KdTree P K}
    (h : Replaced new exact path t t') (ht : Whole true t) (hlarge : (t.subtree path).Large)
    (hnew : Replaces new (t.subtree path) exact) :
    Whole exact t' ∧ Replaces t' t exact := by
  induction h with
  | here t =>
    exact ⟨⟨hnew.sound, fun hs => (hnew.same hs).counted⟩, hnew⟩
  | @keep s path n l r t' _ ih =>
    obtain ⟨hson, hsame⟩ := ih (ht.son s) hlarge hnew
    obtain ⟨hsound, hheld⟩ := graft_sound ht.sound hson.sound hsame.held
      (need_of_large ht hlarge)
    have hcounted (hs : exact = true) := graft_counted (ht.counted rfl) (hsame.same hs)
    exact ⟨⟨hsound, hcounted⟩, hsound, hheld, rfl, fun hs => ⟨hcounted hs, rfl, rfl⟩⟩
  | @update s path n l r t' hinexact _ _ hsafe ih =>
    obtain ⟨hson, hsame⟩ := ih (ht.son s) hlarge hnew
    obtain ⟨hsound, hheld⟩ := update_sound ht.sound hson.sound hsame.held
      (need_of_large ht hlarge) hsafe
    have hnot (hs : exact = true) : False := by
      rw [hs] at hinexact
      cases hinexact
    exact ⟨⟨hsound, fun hs => (hnot hs).elim⟩, hsound, hheld, rfl, fun hs => (hnot hs).elim⟩

/-- Above a node that is being visited nothing is updated. -/
theorem Replaced.working {new : KdTree P K} {exact : Bool} {s : Side} {path : List Side}
    {n : KdTreeNode P K} {l r t' : KdTree P K}
    (h : Replaced new exact (s :: path) (node n l r) t') (hworking : n.workingFlag = true) :
    ∃ t, Replaced new exact path (s.son l r) t ∧ t' = s.graft n l r t := by
  cases h with
  | keep hson => exact ⟨_, hson, rfl⟩
  | update _ hidle =>
    rw [hworking] at hidle
    cases hidle

/-! ## The copy -/

theorem putIn_replaced {new : KdTree P K} {path : List Side} {t : KdTree P K}
    (hthere : (t.subtree path).isNull = false) : Replaced new true path t (putIn new path t) := by
  induction path generalizing t with
  | nil => exact .here t
  | cons s path ih =>
    cases t with
    | null => cases hthere
    | node n l r => exact .keep (ih hthere)

theorem flatten_counted {t : KdTree P K} (ht : t.Sound) (hc : t.Counted) :
    SameCounts t.flatten.2 t := by
  induction t using KdTree.flatten.induct with
  | case1 =>
    rw [KdTree.flatten]
    exact ⟨trivial, rfl, rfl⟩
  | case2 n l r ihl ihr =>
    have hpush := pushDown_spec ht
    obtain ⟨hl, hr, hnode⟩ := pushDown_counted ht hc
    have hleft := ihl hpush.left hl
    have hright := ihr hpush.right hr
    rw [KdTree.flatten]
    refine ⟨⟨⟨?_, ?_⟩, hleft.counted, hright.counted⟩, rfl, rfl⟩
    · rw [hleft.size, hright.size]
      exact hnode.size
    · rw [hleft.invalid, hright.invalid]
      exact hnode.invalid

theorem flatten_replaces {t : KdTree P K} (ht : Whole true t) (hthere : t.isNull = false) :
    Replaces t.flatten.2 t true := by
  obtain ⟨-, hsound, hlive, -⟩ := flatten_spec ht.sound
  refine ⟨hsound, congrArg (fun ps : List P => (ps : Multiset P)) hlive, ?_,
    fun _ => flatten_counted ht.sound (ht.counted rfl)⟩
  cases t with
  | null => cases hthere
  | node n l r =>
    rw [KdTree.flatten]
    rfl

/-! ## The swap -/

/-- No node that the loop updates is flagged as deleted above a son that is not. -/
def SwapSafe (new : KdTree P K) (pending : Bool) : List Side → KdTree P K → Prop
  | [], _ => True
  | _ :: _, null => True
  | s :: path, node n l r =>
    SwapSafe new (n.need s) path (s.son l r) ∧
      (loopUpdates pending (s :: path) (node n l r) = true → n.treeDeleted = true →
        (putIn new path (s.son l r)).treeDeleted = true ∧
          (s.other.son l r).treeDeleted = true)

/-- With a node above the place that is flagged as deleted its point is, unless the node
is being visited. -/
def PointsFlagged : List Side → KdTree P K → Prop
  | [], _ => True
  | _ :: _, null => True
  | s :: path, node n l r =>
    (n.workingFlag = false → n.treeDeleted = true → n.pointDeleted = true) ∧
      PointsFlagged path (s.son l r)

theorem KdTree.Sound.pointsFlagged {t : KdTree P K} (ht : t.Sound) (path : List Side) :
    PointsFlagged path t := by
  induction path generalizing t with
  | nil => trivial
  | cons s path ih =>
    cases t with
    | null => trivial
    | node n l r => exact ⟨fun _ hflag => (ht.1.flagged hflag).1, ih (ht.son s)⟩

omit [Arith K] [PointType P K] in
theorem idle_of_updates {pending : Bool} {s : Side} {path : List Side} {n : KdTreeNode P K}
    {l r : KdTree P K} (h : loopUpdates pending (s :: path) (node n l r) = true) :
    n.workingFlag = false := by
  rw [loopUpdates, Bool.and_eq_true, Bool.and_eq_true] at h
  simpa using h.1.2

theorem swapIn_deleted {new : KdTree P K} {pending : Bool} {path : List Side} {t : KdTree P K}
    (ht : PointsFlagged path t) (hsafe : SwapSafe new pending path t)
    (hdeleted : (putIn new path t).treeDeleted = true) :
    (swapIn new pending path t).treeDeleted = true := by
  induction path generalizing t pending with
  | nil => exact hdeleted
  | cons s path ih =>
    cases t with
    | null => rfl
    | node n l r =>
      have hflag : n.treeDeleted = true := hdeleted
      rw [swapIn, treeDeleted_node]
      split_ifs with hupdates
      · obtain ⟨hson, hother⟩ := hsafe.2 hupdates hflag
        have hson' := ih ht.2 hsafe.1 hson
        have hpoint := ht.1 (idle_of_updates hupdates) hflag
        cases s with
        | left =>
          show ((_ && _) && _) = true
          rw [Bool.and_eq_true, Bool.and_eq_true]
          exact ⟨⟨hson', hother⟩, hpoint⟩
        | right =>
          show ((_ && _) && _) = true
          rw [Bool.and_eq_true, Bool.and_eq_true]
          exact ⟨⟨hother, hson'⟩, hpoint⟩
      · exact hflag

theorem swapIn_replaced {new : KdTree P K} {pending : Bool} {path : List Side} {t : KdTree P K}
    (ht : PointsFlagged path t) (hthere : (t.subtree path).isNull = false)
    (hsafe : SwapSafe new pending path t) :
    Replaced new false path t (swapIn new pending path t) := by
  induction path generalizing t pending with
  | nil => exact .here t
  | cons s path ih =>
    cases t with
    | null => cases hthere
    | node n l r =>
      have hson := ih ht.2 hthere hsafe.1
      rw [swapIn]
      split_ifs with hupdates
      · refine .update rfl (idle_of_updates hupdates) hson fun hflag => ?_
        obtain ⟨hdeleted, hother⟩ := hsafe.2 hupdates hflag
        exact ⟨swapIn_deleted ht.2 hsafe.1 hdeleted, hother⟩
      · exact .keep hson

/-- The loop only asks what is owed to a node it updates, not what the node owes to the
new subtree: below a deleted father the new subtree brings its points back. -/
theorem swapIn_revives {new l r : KdTree P K} {n : KdTreeNode P K} (s : Side)
    (hidle : n.workingFlag = false) (hdeleted : n.treeDeleted = true) (hnew : new.Sound)
    (hkept : new.treeDeleted = false) :
    (node n l r).held = 0 ∧ (swapIn new false [s] (node n l r)).held ≠ 0 := by
  refine ⟨held_of_deleted hdeleted, ?_⟩
  have hupdates : loopUpdates false [s] (node n l r) = true := by
    rw [loopUpdates, hidle]
    rfl
  have hsons : (n.update (s.put l r new).1 (s.put l r new).2).treeDeleted = false := by
    cases s with
    | left =>
      show ((new.treeDeleted && _) && _) = false
      rw [hkept, Bool.false_and, Bool.false_and]
    | right =>
      show ((_ && new.treeDeleted) && _) = false
      rw [hkept, Bool.and_false, Bool.false_and]
  have hsome : new.held ≠ 0 := fun hnone =>
    absurd (treeDeleted_of_held hnew hnone) (by rw [hkept]; exact Bool.false_ne_true)
  rw [swapIn, hupdates, if_pos rfl, swapIn, held_kept hsons s, Side.son_put]
  intro hnone
  have hle : new.held ≤ 0 := by
    rw [← hnone]
    exact (Multiset.le_add_left _ _).trans (Multiset.le_add_right _ _)
  exact hsome (Multiset.le_zero.mp hle)

end IkdTree
end RobotNav
