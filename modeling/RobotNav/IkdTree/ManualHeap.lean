/-
`MANUAL_HEAP`, and the order of the points in it.

`PointType_CMP` compares distances with a tolerance.  Among points whose distances are equal
or farther apart than it, that is the order by distance and then by the first coordinate.
-/
import Mathlib.Data.List.Pairwise
import Mathlib.Data.Prod.Lex
import RobotNav.IkdTree.Voxels
import RobotNav.Library.Heap

namespace RobotNav
namespace IkdTree

open PointType (coords)

/-- The array beyond `heap_size` keeps what was there. -/
structure ManualHeap (α : Type) where
  heap : ℕ → α
  heapSize : ℕ
  cap : ℕ

namespace ManualHeap

section

variable {α : Type} (lt : α → α → Prop) [DecidableRel lt] (q : ManualHeap α)

def top : α := q.heap 0

def pop : ManualHeap α :=
  if q.heapSize = 0 then q
  else
    let last := q.heap (q.heapSize - 1)
    { q with
      heap := Heap.moveDown lt (q.heapSize - 1) last (Function.update q.heap 0 last) 0
      heapSize := q.heapSize - 1 }

def push (point : α) : ManualHeap α :=
  if q.cap ≤ q.heapSize then q
  else
    { q with
      heap := Heap.floatUp lt point (Function.update q.heap q.heapSize point) q.heapSize
      heapSize := q.heapSize + 1 }

end

/-! ## What the heap holds -/

variable {α β : Type} [LinearOrder β] {lt : α → α → Prop} [DecidableRel lt] {r : α → β}
  {s : Set α} {q : ManualHeap α}

def elements (q : ManualHeap α) : Multiset α := Heap.contents q.heapSize q.heap

theorem card_elements (q : ManualHeap α) : q.elements.card = q.heapSize := Heap.card_contents ..

theorem card_map {γ : Type} (q : ManualHeap α) (f : α → γ) :
    (q.elements.map f).card = q.heapSize := by
  rw [Multiset.card_map, q.card_elements]

theorem heap_mem_elements {j : ℕ} (hj : j < q.heapSize) : q.heap j ∈ q.elements :=
  Heap.mem_contents.mpr ⟨j, hj, rfl⟩

/-- A heap of elements of `s`. -/
structure Good (r : α → β) (s : Set α) (q : ManualHeap α) : Prop where
  ordered : Heap.Ordered r q.heapSize q.heap
  among : ∀ a ∈ q.elements, a ∈ s

theorem Good.le_top (hq : Good r s q) {a : α} (ha : a ∈ q.elements) : r a ≤ r q.top := by
  obtain ⟨j, hj, rfl⟩ := Heap.mem_contents.mp ha
  exact hq.ordered.le_front hj

theorem Good.top_mem (hpos : 0 < q.heapSize) : q.top ∈ q.elements := heap_mem_elements hpos

theorem push_spec (hagrees : Heap.Agrees lt r s) (hq : Good r s q) {x : α} (hx : x ∈ s)
    (hroom : q.heapSize < q.cap) :
    Good r s (q.push lt x) ∧ (q.push lt x).elements = x ::ₘ q.elements ∧
      (q.push lt x).cap = q.cap := by
  rw [push, if_neg (not_le.mpr hroom)]
  have hsame {j : ℕ} (hj : j ≠ q.heapSize) : Function.update q.heap q.heapSize x j = q.heap j :=
    Function.update_of_ne hj ..
  have helements : Heap.contents (q.heapSize + 1)
      (Heap.floatUp lt x (Function.update q.heap q.heapSize x) q.heapSize) = x ::ₘ q.elements := by
    rw [Heap.floatUp_contents (Nat.lt_succ_self _), Heap.others_update]
    congr 1
    have hfirst := Heap.contents_succ q.heapSize q.heap
    rw [Heap.contents_eq (Nat.lt_succ_self _)] at hfirst
    exact (Multiset.cons_inj_right _).mp hfirst
  have hordered : Heap.Ordered r (q.heapSize + 1)
      (Heap.floatUp lt x (Function.update q.heap q.heapSize x) q.heapSize) := by
    refine Heap.floatUp_ordered hagrees hx ?_ (Nat.lt_succ_self _) ⟨?_, ?_⟩ ?_
    · intro j hj hne
      rw [hsame hne]
      exact hq.among _ (heap_mem_elements (by omega))
    · intro j hpos hj hne _
      rw [hsame hne, hsame (by omega)]
      exact hq.ordered j hpos (by omega)
    -- the place has no sons
    · intro _ j _ hj hfather
      omega
    · intro j _ hj hfather
      omega
  refine ⟨⟨hordered, fun a ha => ?_⟩, helements, rfl⟩
  rw [elements, helements] at ha
  rcases Multiset.mem_cons.mp ha with rfl | ha
  · exact hx
  · exact hq.among a ha

theorem pop_spec (hagrees : Heap.Agrees lt r s) (hq : Good r s q) (hpos : 0 < q.heapSize) :
    Good r s (q.pop lt) ∧ q.elements = q.top ::ₘ (q.pop lt).elements ∧
      (q.pop lt).cap = q.cap := by
  obtain ⟨n, hn⟩ : ∃ n, q.heapSize = n + 1 := ⟨q.heapSize - 1, by omega⟩
  have hlast : q.heap n ∈ s := hq.among _ (heap_mem_elements (by omega))
  rw [pop, if_neg (by omega), hn, Nat.add_sub_cancel]
  have helements : q.elements = q.top ::ₘ Heap.contents n
      (Heap.moveDown lt n (q.heap n) (Function.update q.heap 0 (q.heap n)) 0) := by
    rw [elements, hn, Heap.contents_succ]
    rcases Nat.eq_zero_or_pos n with rfl | hn0
    · rfl
    · rw [Heap.moveDown_contents hn0, Heap.others_update, Heap.contents_eq hn0,
        Multiset.cons_swap]
      rfl
  have hordered : Heap.Ordered r n
      (Heap.moveDown lt n (q.heap n) (Function.update q.heap 0 (q.heap n)) 0) := by
    refine Heap.moveDown_ordered hagrees hlast ?_ ⟨?_, ?_⟩ ?_
    · intro j hj hne
      rw [Function.update_of_ne hne]
      exact hq.among _ (heap_mem_elements (by omega))
    · intro j hpos hj hne hfather
      rw [Function.update_of_ne hne, Function.update_of_ne hfather]
      exact hq.ordered j hpos (by omega)
    -- the front has no father
    · exact fun h => absurd h (lt_irrefl 0)
    · exact fun h => absurd h (lt_irrefl 0)
  refine ⟨⟨hordered, fun a ha => ?_⟩, helements, rfl⟩
  exact hq.among a (helements ▸ Multiset.mem_cons_of_mem ha)

end ManualHeap

/-! ## `PointType_CMP` -/

structure PointCmp (P K : Type) where
  point : P
  dist : K

namespace PointCmp

section

variable {P K : Type} [Arith K] [PointType P K]

/-- `operator<`: distances within the tolerance leave it to the first coordinate. -/
def lt (a b : PointCmp P K) : Prop :=
  if fabs (a.dist - b.dist) < ratio 1 10000000000 then coords a.point 0 < coords b.point 0
  else a.dist < b.dist

instance : DecidableRel (lt : PointCmp P K → PointCmp P K → Prop) := fun a b =>
  inferInstanceAs (Decidable (if fabs (a.dist - b.dist) < ratio 1 10000000000 then
    coords a.point 0 < coords b.point 0 else a.dist < b.dist))

end

variable {P F : Type} [Field F] [LinearOrder F] [FloorRing F] [PointType P F]

/-- The place of an element in exact arithmetic. -/
def rank (e : PointCmp P F) : F ×ₗ F := toLex (e.dist, coords e.point 0)

omit [Field F] [FloorRing F] in
theorem dist_le_of_rank_le {a b : PointCmp P F} (h : rank a ≤ rank b) : a.dist ≤ b.dist := by
  rcases Prod.Lex.toLex_le_toLex.mp h with hlt | ⟨heq, -⟩
  · exact hlt.le
  · exact heq.le

variable [IsStrictOrderedRing F]

/-- With a gap between the distances the tolerance makes no difference. -/
theorem lt_iff {a b : PointCmp P F}
    (h : a.dist = b.dist ∨ ratio 1 10000000000 ≤ |a.dist - b.dist|) :
    a.lt b ↔ rank a < rank b := by
  rw [rank, rank, Prod.Lex.toLex_lt_toLex, lt, fabs_eq_abs]
  rcases eq_or_ne a.dist b.dist with heq | hne
  · have htolerance : (0 : F) < ratio 1 10000000000 := by
      rw [ratio_eq]
      norm_num
    rw [if_pos (by rwa [heq, sub_self, abs_zero])]
    simp only [heq, lt_irrefl, true_and, false_or]
  · rw [if_neg (not_lt.mpr (h.resolve_left hne))]
    simp only [hne, false_and, or_false]

end PointCmp

end IkdTree
end RobotNav
