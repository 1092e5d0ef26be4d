/-
`Nearest_Search`: the `k` nearest points, kept in a heap with the farthest in front.

A son is passed over when the heap is full and the son's box no closer than the front.
-/
import Mathlib.Order.WithBot
import RobotNav.IkdTree.ManualHeap
import RobotNav.Library.KLeast

namespace RobotNav
namespace IkdTree

open PointType (coords)
open KdTree

section

variable {P K : Type} [Arith K] [PointType P K]

/-- What an axis adds to the distance of a point from a range. -/
def addSideDist (range : BoxPointType K) (point : Coords K) (i : Fin 3) (minDist : K) : K :=
  let minDist :=
    if point i < range.vertexMin i then
      minDist + (point i - range.vertexMin i) * (point i - range.vertexMin i)
    else minDist
  if range.vertexMax i < point i then
    minDist + (point i - range.vertexMax i) * (point i - range.vertexMax i)
  else minDist

omit [PointType P K] in
/-- `calc_box_dist`, infinite for a son that is missing. -/
def KdTree.calcBoxDist (point : Coords K) : KdTree P K → WithTop K
  | null => ⊤
  | node n _ _ =>
    ↑(addSideDist n.nodeRange point 2
      (addSideDist n.nodeRange point 1 (addSideDist n.nodeRange point 0 (lit 0))))

variable (k : ℕ) (point : Coords K) (maxDistSqr : WithTop K)

/-- What `Search` does with the point of a node. -/
def offer (own : P) (q : ManualHeap (PointCmp P K)) : ManualHeap (PointCmp P K) :=
  let dist := calcDist point (coords own)
  if ↑dist ≤ maxDistSqr ∧ (q.heapSize < k ∨ dist < q.top.dist) then
    (if k ≤ q.heapSize then q.pop PointCmp.lt else q).push PointCmp.lt ⟨own, dist⟩
  else q

/-- `Search`: the heap, and the tree it leaves.  `Push_Down` does nothing when no flag is
up. -/
def KdTree.search : KdTree P K → ManualHeap (PointCmp P K) → ManualHeap (PointCmp P K) × KdTree P K
  | null, q => (q, null)
  | node n l r, q =>
    if n.treeDeleted then (q, node n l r)
    else if maxDistSqr < (node n l r).calcBoxDist point then (q, node n l r)
    else
      let q := if n.pointDeleted then q else offer k point maxDistSqr n.point q
      let distLeft := (n.pushLeft l).calcBoxDist point
      let distRight := (n.pushRight r).calcBoxDist point
      if q.heapSize < k ∨ (distLeft < ↑q.top.dist ∧ distRight < ↑q.top.dist) then
        if distLeft ≤ distRight then
          let left := (n.pushLeft l).search q
          let right :=
            if left.1.heapSize < k ∨ distRight < ↑left.1.top.dist then
              (n.pushRight r).search left.1
            else (left.1, n.pushRight r)
          (right.1, node (n.pushed l r) left.2 right.2)
        else
          let right := (n.pushRight r).search q
          let left :=
            if right.1.heapSize < k ∨ distLeft < ↑right.1.top.dist then
              (n.pushLeft l).search right.1
            else (right.1, n.pushLeft l)
          (left.1, node (n.pushed l r) left.2 right.2)
      else
        let left :=
          if distLeft < ↑q.top.dist then (n.pushLeft l).search q else (q, n.pushLeft l)
        let right :=
          if distRight < ↑left.1.top.dist then (n.pushRight r).search left.1
          else (left.1, n.pushRight r)
        (right.1, node (n.pushed l r) left.2 right.2)
termination_by t => t.count
decreasing_by
  all_goals
    simp only [count_pushLeft, count_pushRight, KdTree.count]
    omega

/-- The loop that takes the points out of the heap, the farthest first, and puts each in
front of the others. -/
def takeFound : ℕ → ManualHeap (PointCmp P K) → List (PointCmp P K) → List (PointCmp P K)
  | 0, _, found => found
  | n + 1, q, found => takeFound n (q.pop PointCmp.lt) (q.top :: found)

/-- What `Nearest_Search` leaves in `Nearest_Points` and `Point_Distance`. -/
structure NearestFound (P K : Type) where
  nearestPoints : List P
  pointDistance : List K

/-- `Nearest_Search`, with the tree it leaves.  `max_dist` is infinite when it is not given,
and `blank` is what a new heap has in its array. -/
def MapTree.nearestSearch (s : MapTree P K) (blank : PointCmp P K) (maxDist : Option K) :
    NearestFound P K × MapTree P K :=
  let maxDistSqr : WithTop K := maxDist.elim ⊤ fun d => ↑(d * d)
  let searched := s.rootNode.search k point maxDistSqr ⟨fun _ => blank, 0, 2 * k⟩
  let found := takeFound (min k searched.1.heapSize) searched.1 []
  (⟨found.map PointCmp.point, found.map PointCmp.dist⟩, { s with rootNode := searched.2 })

end

/-! ## The distance of a box

From here on arithmetic is exact. -/

variable {P F : Type} [Field F] [LinearOrder F] [FloorRing F] [PointType P F]

section

variable [IsStrictOrderedRing F]

omit [PointType P F] in
theorem addSideDist_le {range : BoxPointType F} {c : F} {i : Fin 3}
    (hc : range.vertexMin i ≤ c ∧ c ≤ range.vertexMax i) (point : Coords F) {minDist acc : F}
    (hacc : minDist ≤ acc) :
    addSideDist range point i minDist ≤ acc + (point i - c) * (point i - c) := by
  obtain ⟨hmin, hmax⟩ := hc
  rw [addSideDist]
  by_cases hbelow : point i < range.vertexMin i
  · have hnot : ¬ range.vertexMax i < point i := not_lt.mpr (by linarith)
    rw [if_neg hnot, if_pos hbelow]
    have hsquare := mul_self_le_mul_self (by linarith : 0 ≤ range.vertexMin i - point i)
      (by linarith : range.vertexMin i - point i ≤ c - point i)
    linarith
  · rw [if_neg hbelow]
    by_cases habove : range.vertexMax i < point i
    · rw [if_pos habove]
      have hsquare := mul_self_le_mul_self (by linarith : 0 ≤ point i - range.vertexMax i)
        (by linarith : point i - range.vertexMax i ≤ point i - c)
      linarith
    · rw [if_neg habove]
      have hsquare := mul_self_nonneg (point i - c)
      linarith

/-- No point of a tree is closer than its box. -/
theorem calcBoxDist_le {t : KdTree P F} (ht : t.Sound) (point : Coords F) {p : P}
    (hp : p ∈ t.live) : t.calcBoxDist point ≤ ↑(calcDist point (coords p)) := by
  cases t with
  | null => cases hp
  | node n l r =>
    rw [live_node] at hp
    split_ifs at hp with hdeleted
    · cases hp
    · have hspans := (ht.1.held (Bool.eq_false_of_not_eq_true hdeleted)).2
      have hin (i : Fin 3) := hspans.mem (a := p) hp i
      refine WithTop.coe_le_coe.mpr ?_
      rw [calcDist]
      refine addSideDist_le (hin 2) point (addSideDist_le (hin 1) point ?_)
      have hfirst := addSideDist_le (hin 0) point (le_refl (0 : F))
      rw [zero_add] at hfirst
      simpa [lit_eq] using hfirst

/-! ## The heap while the tree is searched -/

/-- Distances from `point` are equal, or apart by the tolerance of the heap. -/
def Apart (point : Coords F) (ps : Set P) : Prop :=
  ∀ a ∈ ps, ∀ b ∈ ps, calcDist point (coords a) = calcDist point (coords b) ∨
    ratio 1 10000000000 ≤ |calcDist point (coords a) - calcDist point (coords b)|

/-- Points of `ps` with their distances. -/
def measured (point : Coords F) (ps : Set P) : Set (PointCmp P F) :=
  {e | e.point ∈ ps ∧ e.dist = calcDist point (coords e.point)}

theorem Apart.agrees {point : Coords F} {ps : Set P} (h : Apart point ps) :
    Heap.Agrees PointCmp.lt PointCmp.rank (measured point ps) := by
  intro a ha b hb
  refine PointCmp.lt_iff ?_
  rw [ha.2, hb.2]
  exact h a.point ha.1 b.point hb.1

/-- The points the search may take. -/
def inReach (point : Coords F) (maxDistSqr : WithTop F) (ps : List P) : Multiset P :=
  (ps : Multiset P).filter fun p => ↑(calcDist point (coords p)) ≤ maxDistSqr

/-- The heap keeps the `k` nearest of the points seen, all of `ps`. -/
structure Nearest (k : ℕ) (point : Coords F) (ps : Set P) (seen : Multiset P)
    (q : ManualHeap (PointCmp P F)) : Prop where
  good : q.Good PointCmp.rank (measured point ps)
  cap : q.cap = 2 * k
  least : KLeast k (fun p => calcDist point (coords p)) seen (q.elements.map PointCmp.point)

namespace Nearest

variable {k : ℕ} {point : Coords F} {ps : Set P} {seen : Multiset P}
  {q : ManualHeap (PointCmp P F)} {maxDistSqr : WithTop F}

omit [IsStrictOrderedRing F] in
theorem heapSize_eq (h : Nearest k point ps seen q) : q.heapSize = min k seen.card := by
  rw [← q.card_map PointCmp.point]
  exact h.least.card_eq

omit [IsStrictOrderedRing F] in
/-- The front is as far as any point in the heap. -/
theorem le_top (h : Nearest k point ps seen q) {p : P} (hp : p ∈ q.elements.map PointCmp.point) :
    calcDist point (coords p) ≤ q.top.dist := by
  obtain ⟨e, he, rfl⟩ := Multiset.mem_map.mp hp
  rw [← (h.good.among e he).2]
  exact PointCmp.dist_le_of_rank_le (h.good.le_top he)

omit [IsStrictOrderedRing F] in
/-- A full heap does not change for points no closer than its front. -/
theorem skip (h : Nearest k point ps seen q) (hfull : k ≤ q.heapSize) {more : Multiset P}
    (hover : ∀ p ∈ more, q.top.dist ≤ calcDist point (coords p)) :
    Nearest k point ps (seen + more) q := by
  refine ⟨h.good, h.cap, h.least.skip (by rwa [q.card_map]) fun p hp b hb => ?_⟩
  exact (h.le_top hb).trans (hover p hp)

/-- A heap with room takes any point. -/
theorem push (happart : Apart point ps) (h : Nearest k point ps seen q) {own : P}
    (hown : own ∈ ps) (hroom : q.heapSize < k) :
    Nearest k point ps (own ::ₘ seen) (q.push PointCmp.lt ⟨own, calcDist point (coords own)⟩) := by
  have hin : ⟨own, calcDist point (coords own)⟩ ∈ measured point ps := ⟨hown, rfl⟩
  obtain ⟨hpushed, hheld, hcap⟩ := ManualHeap.push_spec happart.agrees h.good hin (by
    rw [h.cap]
    omega)
  refine ⟨hpushed, hcap.trans h.cap, ?_⟩
  rw [hheld, Multiset.map_cons]
  exact h.least.cons (by rwa [q.card_map]) own

/-- In a full heap a closer point takes the place of the front. -/
theorem replace (happart : Apart point ps) (hk : 0 < k) (h : Nearest k point ps seen q) {own : P}
    (hown : own ∈ ps) (hfull : k ≤ q.heapSize)
    (hcloser : calcDist point (coords own) < q.top.dist) :
    Nearest k point ps (own ::ₘ seen)
      ((q.pop PointCmp.lt).push PointCmp.lt ⟨own, calcDist point (coords own)⟩) := by
  have hin : ⟨own, calcDist point (coords own)⟩ ∈ measured point ps := ⟨hown, rfl⟩
  have hatMost := h.least.atMost
  rw [q.card_map] at hatMost
  obtain ⟨hpopped, helements, hcap⟩ :=
    ManualHeap.pop_spec happart.agrees h.good (hk.trans_le hfull)
  have hsize := congrArg Multiset.card helements
  rw [q.card_elements, Multiset.card_cons, ManualHeap.card_elements] at hsize
  obtain ⟨hpushed, hheld, hcap'⟩ := ManualHeap.push_spec happart.agrees hpopped hin (by
    rw [hcap, h.cap]
    omega)
  refine ⟨hpushed, hcap'.trans (hcap.trans h.cap), ?_⟩
  have hleast := h.least
  rw [helements, Multiset.map_cons] at hleast
  rw [hheld, Multiset.map_cons]
  have htop := (h.good.among _ (ManualHeap.Good.top_mem (hk.trans_le hfull))).2
  refine hleast.replace (fun b hb => ?_) (htop ▸ hcloser.le) ?_
  · rw [← htop]
    refine h.le_top ?_
    rw [helements, Multiset.map_cons]
    exact Multiset.mem_cons_of_mem hb
  · rw [ManualHeap.card_map]
    omega

theorem offer (happart : Apart point ps) (hk : 0 < k) (h : Nearest k point ps seen q) {own : P}
    (hown : own ∈ ps) :
    Nearest k point ps (seen + inReach point maxDistSqr [own])
      (offer k point maxDistSqr own q) := by
  rw [IkdTree.offer, inReach, Multiset.coe_singleton, Multiset.filter_singleton]
  by_cases hreach : ↑(calcDist point (coords own)) ≤ maxDistSqr
  · rw [if_pos hreach, add_comm, Multiset.singleton_add]
    by_cases hfull : k ≤ q.heapSize
    · rw [if_pos hfull]
      split_ifs with hcloser
      · exact h.replace happart hk hown hfull (hcloser.2.resolve_left (not_lt.mpr hfull))
      · have hover : q.top.dist ≤ calcDist point (coords own) := by
          rw [← not_lt]
          exact fun hless => hcloser ⟨hreach, .inr hless⟩
        rw [← Multiset.singleton_add, add_comm]
        refine h.skip hfull fun p hp => ?_
        rw [Multiset.mem_singleton.mp hp]
        exact hover
    · rw [not_le] at hfull
      rw [if_pos ⟨hreach, .inl hfull⟩, if_neg (not_le.mpr hfull)]
      exact h.push happart hown hfull
  · rw [if_neg hreach, if_neg fun hboth => hreach hboth.1]
    exact (add_zero seen).symm ▸ h

/-- The point of a node, unless it is deleted. -/
theorem own (happart : Apart point ps) (hk : 0 < k) (h : Nearest k point ps seen q)
    {n : KdTreeNode P F} (hown : ∀ p ∈ n.own, p ∈ ps) :
    Nearest k point ps (seen + inReach point maxDistSqr n.own)
      (if n.pointDeleted then q else IkdTree.offer k point maxDistSqr n.point q) := by
  rw [KdTreeNode.own] at hown ⊢
  split_ifs at hown ⊢
  · exact (add_zero seen).symm ▸ h
  · exact h.offer happart hk (hown n.point (List.mem_singleton_self _))

end Nearest

/-! ## A tree that has been searched -/

section

variable (k : ℕ) (point : Coords F) (ps : Set P) (maxDistSqr : WithTop F)

/-- The heap and the tree after `t` has been searched. -/
structure Searched (seen : Multiset P) (t : KdTree P F)
    (out : ManualHeap (PointCmp P F) × KdTree P F) : Prop where
  nearest : Nearest k point ps (seen + inReach point maxDistSqr t.live) out.1
  tree : SameContents t out.2

end

variable {k : ℕ} {point : Coords F} {ps : Set P} {maxDistSqr : WithTop F}

omit [IsStrictOrderedRing F] in
theorem inReach_append (as bs : List P) : inReach point maxDistSqr (as ++ bs) =
    inReach point maxDistSqr as + inReach point maxDistSqr bs := by
  rw [inReach, ← Multiset.coe_add, Multiset.filter_add, inReach, inReach]

omit [IsStrictOrderedRing F] in
theorem mem_of_mem_inReach {as : List P} {p : P} (hp : p ∈ inReach point maxDistSqr as) :
    p ∈ as := Multiset.mem_coe.mp (Multiset.mem_of_mem_filter hp)

/-- A tree whose box is out of reach. -/
theorem inReach_eq_zero {t : KdTree P F} (ht : t.Sound)
    (hfar : maxDistSqr < t.calcBoxDist point) : inReach point maxDistSqr t.live = 0 := by
  refine Multiset.filter_eq_nil.mpr fun p hp hreach => ?_
  have hbox := calcBoxDist_le ht point (Multiset.mem_coe.mp hp)
  exact absurd (hfar.trans_le hbox) (not_lt.mpr hreach)

omit [IsStrictOrderedRing F] in
/-- A tree without a point in reach. -/
theorem Searched.untouched {seen : Multiset P} {t : KdTree P F} (ht : t.Sound)
    {q : ManualHeap (PointCmp P F)} (h : Nearest k point ps seen q)
    (hnone : inReach point maxDistSqr t.live = 0) :
    Searched k point ps maxDistSqr seen t (q, t) := by
  refine ⟨?_, .refl ht⟩
  rw [hnone, add_zero]
  exact h

/-- A son whose box is no closer than the front of a full heap. -/
theorem Searched.passedOver {seen : Multiset P} {t : KdTree P F} (ht : t.Sound)
    {q : ManualHeap (PointCmp P F)} (h : Nearest k point ps seen q) (hfull : k ≤ q.heapSize)
    (hfar : ¬ t.calcBoxDist point < ↑q.top.dist) :
    Searched k point ps maxDistSqr seen t (q, t) := by
  refine ⟨h.skip hfull fun p hp => ?_, .refl ht⟩
  have hbox := calcBoxDist_le ht point (mem_of_mem_inReach hp)
  exact WithTop.coe_le_coe.mp ((not_lt.mp hfar).trans hbox)

/-- A son, when the heap is full already. -/
theorem Searched.ifNear {seen : Multiset P} {t : KdTree P F} {q : ManualHeap (PointCmp P F)}
    (hfull : k ≤ q.heapSize) (ht : t.Sound) (h : Nearest k point ps seen q)
    (hsearch : Searched k point ps maxDistSqr seen t (t.search k point maxDistSqr q)) :
    Searched k point ps maxDistSqr seen t
      (if t.calcBoxDist point < ↑q.top.dist then t.search k point maxDistSqr q else (q, t)) := by
  split_ifs with hnear
  · exact hsearch
  · exact .passedOver ht h hfull hnear

/-- A son that comes second. -/
theorem Searched.ifRoomOrNear {seen : Multiset P} {t : KdTree P F}
    {q : ManualHeap (PointCmp P F)} (ht : t.Sound) (h : Nearest k point ps seen q)
    (hsearch : Searched k point ps maxDistSqr seen t (t.search k point maxDistSqr q)) :
    Searched k point ps maxDistSqr seen t
      (if q.heapSize < k ∨ t.calcBoxDist point < ↑q.top.dist then
        t.search k point maxDistSqr q else (q, t)) := by
  split_ifs with hnear
  · exact hsearch
  · rw [not_or, not_lt] at hnear
    exact .passedOver ht h hnear.1 hnear.2

omit [IsStrictOrderedRing F] in
/-- A full heap stays full. -/
theorem Searched.full {seen : Multiset P} {t : KdTree P F} {q : ManualHeap (PointCmp P F)}
    (h : Nearest k point ps seen q) {out : ManualHeap (PointCmp P F) × KdTree P F}
    (hout : Searched k point ps maxDistSqr seen t out) (hfull : k ≤ q.heapSize) :
    k ≤ out.1.heapSize := by
  rw [h.heapSize_eq] at hfull
  rw [hout.nearest.heapSize_eq, Multiset.card_add]
  omega

omit [IsStrictOrderedRing F] in
/-- The point of a node and both its sons. -/
theorem Searched.node {n : KdTreeNode P F} {l r l' r' : KdTree P F} (ht : (node n l r).Sound)
    (hl : SameContents (n.pushLeft l) l') (hr : SameContents (n.pushRight r) r')
    {seen : Multiset P} {q : ManualHeap (PointCmp P F)}
    (hq : Nearest k point ps (seen + inReach point maxDistSqr n.own +
      (inReach point maxDistSqr (n.pushLeft l).live +
        inReach point maxDistSqr (n.pushRight r).live)) q) :
    Searched k point ps maxDistSqr seen (KdTree.node n l r)
      (q, KdTree.node (n.pushed l r) l' r') := by
  refine ⟨?_, .node ht hl hr⟩
  rw [← (pushDown_spec ht).contents, contents, inReach_append, inReach_append]
  rw [add_assoc] at hq
  rwa [add_assoc (inReach point maxDistSqr n.own)]

/-! ## `Search` -/

theorem search_spec (maxDistSqr : WithTop F) (happart : Apart point ps) (hk : 0 < k)
    {t : KdTree P F} (ht : t.Sound) (hps : ∀ p ∈ t.live, p ∈ ps) {seen : Multiset P}
    {q : ManualHeap (PointCmp P F)} (h : Nearest k point ps seen q) :
    Searched k point ps maxDistSqr seen t (t.search k point maxDistSqr q) := by
  induction hcount : t.count using Nat.strong_induction_on generalizing t seen q with
  | h count ih =>
    cases t with
    | null =>
      rw [KdTree.search]
      exact .untouched ht h rfl
    | node n l r =>
      rw [KdTree.search]
      by_cases hdeleted : n.treeDeleted = true
      · rw [if_pos hdeleted]
        refine .untouched ht h ?_
        rw [live_node, if_pos hdeleted]
        rfl
      rw [if_neg hdeleted]
      by_cases hfar : maxDistSqr < (node n l r).calcBoxDist point
      · rw [if_pos hfar]
        exact .untouched ht h (inReach_eq_zero ht hfar)
      rw [if_neg hfar]
      have hpush := pushDown_spec ht
      have hall : ∀ p ∈ n.own ++ (n.pushLeft l).live ++ (n.pushRight r).live, p ∈ ps := by
        intro p hp
        exact hps p (hpush.contents ▸ hp)
      have hown : Nearest k point ps (seen + inReach point maxDistSqr n.own) _ :=
        h.own happart hk fun p hp => hall p (by simp [hp])
      generalize (if n.pointDeleted then q else offer k point maxDistSqr n.point q) = q₁ at hown ⊢
      have hleft {seen' : Multiset P} {q' : ManualHeap (PointCmp P F)}
          (h' : Nearest k point ps seen' q') : Searched k point ps maxDistSqr seen' (n.pushLeft l)
            ((n.pushLeft l).search k point maxDistSqr q') := by
        refine ih (n.pushLeft l).count ?_ hpush.left (fun p hp => hall p (by simp [hp])) h' rfl
        rw [← hcount, count_pushLeft, KdTree.count]
        omega
      have hright {seen' : Multiset P} {q' : ManualHeap (PointCmp P F)}
          (h' : Nearest k point ps seen' q') : Searched k point ps maxDistSqr seen' (n.pushRight r)
            ((n.pushRight r).search k point maxDistSqr q') := by
        refine ih (n.pushRight r).count ?_ hpush.right (fun p hp => hall p (by simp [hp])) h' rfl
        rw [← hcount, count_pushRight, KdTree.count]
        omega
      dsimp only
      by_cases hboth : q₁.heapSize < k ∨ (n.pushLeft l).calcBoxDist point < ↑q₁.top.dist ∧
          (n.pushRight r).calcBoxDist point < ↑q₁.top.dist
      · rw [if_pos hboth]
        by_cases horder :
            (n.pushLeft l).calcBoxDist point ≤ (n.pushRight r).calcBoxDist point
        · rw [if_pos horder]
          have hl := hleft hown
          have hr := Searched.ifRoomOrNear hpush.right hl.nearest (hright hl.nearest)
          refine .node ht hl.tree hr.tree ?_
          rw [← add_assoc]
          exact hr.nearest
        · rw [if_neg horder]
          have hr := hright hown
          have hl := Searched.ifRoomOrNear hpush.left hr.nearest (hleft hr.nearest)
          refine .node ht hl.tree hr.tree ?_
          rw [add_comm (inReach point maxDistSqr (n.pushLeft l).live), ← add_assoc]
          exact hl.nearest
      · rw [if_neg hboth]
        rw [not_or, not_lt] at hboth
        have hl := Searched.ifNear hboth.1 hpush.left hown (hleft hown)
        have hr := Searched.ifNear (hl.full hown hboth.1) hpush.right hl.nearest
          (hright hl.nearest)
        refine .node ht hl.tree hr.tree ?_
        rw [← add_assoc]
        exact hr.nearest

/-! ## `Nearest_Search` -/

/-- Taking everything out of the heap sorts it. -/
theorem takeFound_spec (happart : Apart point ps) {q : ManualHeap (PointCmp P F)}
    (hq : q.Good PointCmp.rank (measured point ps)) {found : List (PointCmp P F)}
    (hover : ∀ e ∈ q.elements, ∀ b ∈ found, e.dist ≤ b.dist)
    (hsorted : found.Pairwise fun a b => a.dist ≤ b.dist) :
    (takeFound q.heapSize q found : Multiset (PointCmp P F)) = q.elements + found ∧
      (takeFound q.heapSize q found).Pairwise fun a b => a.dist ≤ b.dist := by
  induction hn : q.heapSize generalizing q found with
  | zero =>
    have hnone : q.elements = 0 := by rw [← Multiset.card_eq_zero, q.card_elements, hn]
    rw [hnone, zero_add]
    exact ⟨rfl, hsorted⟩
  | succ n ih =>
    obtain ⟨hpopped, helements, -⟩ := ManualHeap.pop_spec happart.agrees hq (by omega)
    have htop {e : PointCmp P F} (he : e ∈ q.elements) : e.dist ≤ q.top.dist :=
      PointCmp.dist_le_of_rank_le (hq.le_top he)
    have hsize : (q.pop PointCmp.lt).heapSize = n := by
      have hcard := congrArg Multiset.card helements
      rw [q.card_elements, Multiset.card_cons, ManualHeap.card_elements] at hcard
      omega
    have hin {e : PointCmp P F} (he : e ∈ (q.pop PointCmp.lt).elements) : e ∈ q.elements := by
      rw [helements]
      exact Multiset.mem_cons_of_mem he
    have hover' : ∀ e ∈ (q.pop PointCmp.lt).elements, ∀ b ∈ q.top :: found, e.dist ≤ b.dist := by
      intro e he b hb
      rcases List.mem_cons.mp hb with rfl | hb
      · exact htop (hin he)
      · exact hover e (hin he) b hb
    have hfirst := hover q.top (ManualHeap.Good.top_mem (by omega))
    obtain ⟨hheld, htaken⟩ := ih hpopped hover' (List.pairwise_cons.mpr ⟨hfirst, hsorted⟩) hsize
    refine ⟨?_, htaken⟩
    rw [takeFound, hheld, helements, ← Multiset.cons_coe, Multiset.add_cons, Multiset.cons_add]

/-- What the caller is given: the `k` nearest of `all`, the nearest first, with their
distances. -/
structure NearestOf (k : ℕ) (point : Coords F) (all : Multiset P) (found : NearestFound P F) :
    Prop where
  length : found.nearestPoints.length = min k all.card
  distances : found.pointDistance = found.nearestPoints.map fun p => calcDist point (coords p)
  sorted : found.pointDistance.Pairwise (· ≤ ·)
  among : ∃ rest, all = (found.nearestPoints : Multiset P) + rest ∧ ∀ p ∈ rest,
    ∀ q ∈ found.nearestPoints, calcDist point (coords q) ≤ calcDist point (coords p)

/-- The whole heap is taken. -/
theorem Nearest.takeFound (happart : Apart point ps) {seen : Multiset P}
    {q : ManualHeap (PointCmp P F)} (h : Nearest k point ps seen q)
    {found : List (PointCmp P F)} (hfound : found = takeFound (min k q.heapSize) q []) :
    NearestOf k point seen ⟨found.map PointCmp.point, found.map PointCmp.dist⟩ := by
  have hatMost := h.least.atMost
  rw [q.card_map] at hatMost
  rw [min_eq_right hatMost] at hfound
  obtain ⟨htaken, hsorted⟩ := takeFound_spec happart h.good
    (fun _ _ b hb => absurd hb (List.not_mem_nil)) List.Pairwise.nil
  rw [← hfound] at htaken hsorted
  rw [Multiset.coe_nil, add_zero] at htaken
  have hpoints : ((found.map PointCmp.point : List P) : Multiset P) =
      q.elements.map PointCmp.point := by
    rw [← htaken, Multiset.map_coe]
  constructor
  · rw [← Multiset.coe_card, hpoints]
    exact h.least.card_eq
  · rw [List.map_map]
    refine List.map_congr_left fun e he => (h.good.among e ?_).2
    rw [← htaken]
    exact Multiset.mem_coe.mpr he
  · exact List.pairwise_map.mpr hsorted
  · obtain ⟨rest, hall, hrest⟩ := h.least.others
    refine ⟨rest, by rw [hpoints, hall], fun p hp b hb => (hrest p hp).2 b ?_⟩
    rw [← hpoints]
    exact Multiset.mem_coe.mpr hb

/-- `Nearest_Search` on a tree whose flags and ranges are in order. -/
theorem nearestSearch_spec (hk : 0 < k) {s : MapTree P F} (hs : s.rootNode.Sound)
    (happart : Apart point {p | p ∈ s.rootNode.live}) (blank : PointCmp P F)
    (maxDist : Option F) :
    NearestOf k point
        (inReach point (maxDist.elim ⊤ fun d => ↑(d * d)) s.rootNode.live)
        (s.nearestSearch k point blank maxDist).1 ∧
      SameContents s.rootNode (s.nearestSearch k point blank maxDist).2.rootNode := by
  have hempty : Nearest k point {p | p ∈ s.rootNode.live} 0 ⟨fun _ => blank, 0, 2 * k⟩ := by
    refine ⟨⟨fun j _ hj => absurd hj (Nat.not_lt_zero j), fun e he => ?_⟩, rfl, .zero k _⟩
    exact absurd he (Multiset.notMem_zero e)
  have hsearched := search_spec (maxDist.elim ⊤ fun d => ↑(d * d)) happart hk hs
    (fun p hp => hp) hempty
  have hnearest := hsearched.nearest
  rw [zero_add] at hnearest
  exact ⟨hnearest.takeFound happart rfl, hsearched.tree⟩

/-- With no bound on the distance `Nearest_Search` is exact on every tree there can be. -/
theorem nearestSearch_exact (params : KdTreeParams F) (nth : NthElement P F)
    (downsampleSize : F) (points : List P) (calls : List (MapCall P F)) {s : MapTree P F}
    (hrun : (voxelMap params nth downsampleSize points).run
      (voxelMap params nth downsampleSize points).init calls = some s) (point : Coords F) {k : ℕ}
    (hk : 1 ≤ k) (blank : PointCmp P F) (happart : Apart point {p | p ∈ s.points}) :
    NearestOf k point s.points (s.nearestSearch k point blank none).1 ∧
      (s.nearestSearch k point blank none).2.points = s.points := by
  have hs := voxelMap_sound params nth points calls hrun
  have hpoints : s.points = (s.rootNode.live : Multiset P) := by
    rw [MapTree.points, (flatten_spec hs).1]
  rw [hpoints] at happart ⊢
  obtain ⟨hnearest, htree⟩ := nearestSearch_spec hk hs happart blank none
  constructor
  · have hall : inReach point ⊤ s.rootNode.live = s.rootNode.live :=
      Multiset.filter_eq_self.mpr fun _ _ => le_top
    rw [← hall]
    exact hnearest
  · rw [MapTree.points, (flatten_spec htree.sound).1, htree.live]

end

/-- Squared distances on the diagonal are whole numbers. -/
theorem apart_diagonal {ps : Set (Coords ℚ)} (hps : ∀ p ∈ ps, ∃ x, p = diagonal x) :
    Apart (diagonal 0) ps := by
  have hwhole (x : ℤ) :
      calcDist (diagonal 0) (coords (diagonal x) : Coords ℚ) = ((3 * x * x : ℤ) : ℚ) := by
    show (lit 0 - lit x : ℚ) * (lit 0 - lit x) + (lit 0 - lit x) * (lit 0 - lit x) +
      (lit 0 - lit x) * (lit 0 - lit x) = _
    simp only [lit_eq]
    push_cast
    ring
  intro a ha b hb
  obtain ⟨x, rfl⟩ := hps a ha
  obtain ⟨y, rfl⟩ := hps b hb
  rw [hwhole, hwhole, Int.cast_inj]
  rcases eq_or_ne (3 * x * x) (3 * y * y) with heq | hne
  · exact .inl heq
  · have hone : (1 : ℚ) ≤ |((3 * x * x : ℤ) : ℚ) - ((3 * y * y : ℤ) : ℚ)| := by
      rw [← Int.cast_sub, ← Int.cast_abs]
      exact_mod_cast Int.one_le_abs (sub_ne_zero.mpr hne)
    refine .inr (le_trans ?_ hone)
    rw [ratio_eq]
    norm_num

theorem nearestSearch_exact_diagonal :
    ∃ s, (voxelMap defaultParams sortedNthElement (1 : ℚ) diagonalPoints).run
        (voxelMap defaultParams sortedNthElement (1 : ℚ) diagonalPoints).init
          [.addPoints [diagonal 3] false] = some s ∧
      NearestOf 2 (diagonal 0) s.points
        (s.nearestSearch 2 (diagonal 0) ⟨diagonal 0, lit 0⟩ none).1 ∧
      (s.nearestSearch 2 (diagonal 0) ⟨diagonal 0, lit 0⟩ none).2.points = s.points := by
  have hbuild := build_wellFormed sortedNthElement
    (List.cons_ne_nil _ _ : diagonalPoints ≠ [])
  obtain ⟨s, hadd, hs, hheld⟩ := addPoints_wellFormed defaultParams sortedNthElement hbuild
    [diagonal 3]
  refine ⟨s, hadd, nearestSearch_exact defaultParams sortedNthElement 1 diagonalPoints
    [.addPoints [diagonal 3] false] hadd (diagonal 0) (by decide) ⟨diagonal 0, lit 0⟩
    (apart_diagonal fun p hp => ?_)⟩
  have hin : p ∈ (MapTree.build sortedNthElement diagonalPoints).rootNode.live ∨
      p ∈ [diagonal 3] := by
    rw [Set.mem_ofPred_eq, hs.points, hheld] at hp
    exact Multiset.mem_add.mp hp
  rw [MapTree.build, (buildTree_spec sortedNthElement diagonalPoints).2.1.mem_iff, diagonalPoints,
    ← List.mem_append] at hin
  simp only [List.cons_append, List.nil_append, List.mem_cons, List.not_mem_nil, or_false] at hin
  rcases hin with rfl | rfl | rfl | rfl
  · exact ⟨0, rfl⟩
  · exact ⟨1, rfl⟩
  · exact ⟨2, rfl⟩
  · exact ⟨3, rfl⟩

end IkdTree
end RobotNav
