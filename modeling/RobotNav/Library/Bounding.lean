/-
Bounding boxes of sets of points, and half-open boxes against them.

Points have a coordinate for each of some axes.  The bounds of a set are attained:
what a half-open box does to them, it does to a point of the set.
-/
import Mathlib.Order.Bounds.Basic

namespace RobotNav

structure Bounds {α ι K : Type*} [Preorder K] (coord : α → ι → K) (s : Set α) (lo hi : ι → K) :
    Prop where
  least : ∀ i, IsLeast ((coord · i) '' s) (lo i)
  greatest : ∀ i, IsGreatest ((coord · i) '' s) (hi i)

namespace Bounds

variable {α ι K : Type*} [LinearOrder K] {coord : α → ι → K} {s t : Set α} {lo hi lo' hi' : ι → K}

theorem singleton (a : α) : Bounds coord {a} (coord a) (coord a) := by
  constructor
  · intro i
    rw [Set.image_singleton]
    exact isLeast_singleton
  · intro i
    rw [Set.image_singleton]
    exact isGreatest_singleton

theorem union (hs : Bounds coord s lo hi) (ht : Bounds coord t lo' hi') :
    Bounds coord (s ∪ t) (fun i => min (lo i) (lo' i)) (fun i => max (hi i) (hi' i)) := by
  constructor
  · intro i
    rw [Set.image_union]
    exact (hs.least i).union (ht.least i)
  · intro i
    rw [Set.image_union]
    exact (hs.greatest i).union (ht.greatest i)

theorem mem (hs : Bounds coord s lo hi) {a : α} (ha : a ∈ s) (i : ι) :
    lo i ≤ coord a i ∧ coord a i ≤ hi i := by
  have himage : coord a i ∈ (coord · i) '' s := Set.mem_image_of_mem _ ha
  exact ⟨(hs.least i).2 himage, (hs.greatest i).2 himage⟩

/-! ## Half-open boxes -/

variable {x y : ι → K}

/-- A box that is apart from the bounds on one axis has no point. -/
theorem not_inside (hs : Bounds coord s lo hi) (hapart : ∃ i, y i ≤ lo i ∨ hi i < x i)
    {a : α} (ha : a ∈ s) : ¬ ∀ i, x i ≤ coord a i ∧ coord a i < y i := by
  intro hinside
  obtain ⟨i, hlow | hhigh⟩ := hapart
  · exact absurd (hinside i).2 (not_lt.mpr (hlow.trans (hs.mem ha i).1))
  · exact absurd (hinside i).1 (not_le.mpr ((hs.mem ha i).2.trans_lt hhigh))

/-- A box has all points exactly when it has the bounds. -/
theorem all_inside_iff (hs : Bounds coord s lo hi) :
    (∀ a ∈ s, ∀ i, x i ≤ coord a i ∧ coord a i < y i) ↔ ∀ i, x i ≤ lo i ∧ hi i < y i := by
  constructor
  · intro hall i
    obtain ⟨a, ha, hlow⟩ := (hs.least i).1
    obtain ⟨b, hb, hhigh⟩ := (hs.greatest i).1
    rw [← hlow, ← hhigh]
    exact ⟨(hall a ha i).1, (hall b hb i).2⟩
  · intro hbounds a ha i
    have hmem := hs.mem ha i
    exact ⟨(hbounds i).1.trans hmem.1, hmem.2.trans_lt (hbounds i).2⟩

end Bounds

end RobotNav
