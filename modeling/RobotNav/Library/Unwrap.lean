/-
Values in `[0, turn)` made into one rising sequence by adding a turn to those that fall
below the last result.

Only one turn is ever added, so the results rise exactly when the values go up twice at
most.
-/
import Mathlib.Algebra.Order.Group.Defs
import Mathlib.Algebra.Order.Monoid.Unbundled.Basic
import Mathlib.Data.List.Basic
import Mathlib.Data.List.Pairwise

namespace RobotNav

/-- The list is one rising stretch after another, two at most. -/
def TwoStretches {α : Type*} [LE α] (xs : List α) : Prop :=
  ∃ a b, xs = a ++ b ∧ a.Pairwise (· ≤ ·) ∧ b.Pairwise (· ≤ ·)

section

variable {α : Type*} [LinearOrder α] {x y : α} {xs : List α}

theorem twoStretches_singleton (x : α) : TwoStretches [x] :=
  ⟨[], [x], rfl, .nil, List.pairwise_singleton _ x⟩

/-- Upwards the first value only makes its stretch longer. -/
theorem twoStretches_cons_of_le (hxy : x ≤ y) :
    TwoStretches (x :: y :: xs) ↔ TwoStretches (y :: xs) := by
  constructor
  · intro ⟨a, b, hsplit, ha, hb⟩
    cases a with
    | nil =>
      obtain rfl : x :: y :: xs = b := hsplit
      exact ⟨[], y :: xs, rfl, .nil, (List.pairwise_cons_cons_iff_of_trans.mp hb).2⟩
    | cons z a =>
      obtain ⟨-, htail⟩ := List.cons.inj hsplit
      exact ⟨a, b, htail, (List.pairwise_cons.mp ha).2, hb⟩
  · intro ⟨a, b, hsplit, ha, hb⟩
    cases a with
    | nil =>
      obtain rfl : y :: xs = b := hsplit
      exact ⟨[], x :: y :: xs, rfl, .nil, List.pairwise_cons_cons_iff_of_trans.mpr ⟨hxy, hb⟩⟩
    | cons z a =>
      obtain ⟨rfl, htail⟩ := List.cons.inj hsplit
      refine ⟨x :: y :: a, b, by rw [htail]; rfl, ?_, hb⟩
      exact List.pairwise_cons_cons_iff_of_trans.mpr ⟨hxy, ha⟩

/-- Downwards the first stretch ends at once. -/
theorem twoStretches_cons_of_lt (hyx : y < x) :
    TwoStretches (x :: y :: xs) ↔ (y :: xs).Pairwise (· ≤ ·) := by
  constructor
  · intro ⟨a, b, hsplit, ha, hb⟩
    cases a with
    | nil =>
      obtain rfl : x :: y :: xs = b := hsplit
      exact (List.pairwise_cons_cons_iff_of_trans.mp hb).2
    | cons z a =>
      obtain ⟨rfl, htail⟩ := List.cons.inj hsplit
      cases a with
      | nil =>
        obtain rfl : y :: xs = b := htail
        exact hb
      | cons w a =>
        obtain ⟨rfl, -⟩ := List.cons.inj htail
        exact absurd (List.pairwise_cons_cons_iff_of_trans.mp ha).1 (not_le.mpr hyx)
  · intro h
    exact ⟨[x], y :: xs, rfl, List.pairwise_singleton _ x, h⟩

theorem twoStretches_map {β : Type*} [LinearOrder β] {f : α → β} (hf : ∀ a b, f a ≤ f b ↔ a ≤ b) :
    TwoStretches (xs.map f) ↔ TwoStretches xs := by
  constructor
  · intro ⟨a, b, hsplit, ha, hb⟩
    obtain ⟨a', b', rfl, rfl, rfl⟩ := List.map_eq_append_iff.mp hsplit
    refine ⟨a', b', rfl, ?_, ?_⟩
    · exact (List.pairwise_map.mp ha).imp (hf _ _).mp
    · exact (List.pairwise_map.mp hb).imp (hf _ _).mp
  · intro ⟨a, b, hsplit, ha, hb⟩
    refine ⟨a.map f, b.map f, by rw [hsplit, List.map_append], ?_, ?_⟩
    · exact List.pairwise_map.mpr (ha.imp (hf _ _).mpr)
    · exact List.pairwise_map.mpr (hb.imp (hf _ _).mpr)

end

/-! ## Adding a turn -/

section

variable {G : Type*} [LinearOrder G]

/-- The value, or one turn more when it is below the last result. -/
def unwrap [Add G] (turn last c : G) : G := if c < last then c + turn else c

/-- The results for a list of values, each measured against the one before. -/
def unwrapped [Add G] (turn : G) : G → List G → List G
  | _, [] => []
  | last, c :: cs => unwrap turn last c :: unwrapped turn (unwrap turn last c) cs

variable [AddCommGroup G] [IsOrderedAddMonoid G] {turn : G}

/-- Once the results have passed a turn, every value gets one. -/
theorem unwrapped_of_turn_le {last : G} (hlast : turn ≤ last) {cs : List G}
    (hcs : ∀ c ∈ cs, 0 ≤ c ∧ c < turn) : unwrapped turn last cs = cs.map (· + turn) := by
  induction cs generalizing last with
  | nil => rfl
  | cons c cs ih =>
    obtain ⟨⟨hc, hturn⟩, hrest⟩ := List.forall_mem_cons.mp hcs
    have hstep : unwrap turn last c = c + turn := if_pos (hturn.trans_le hlast)
    rw [unwrapped, hstep, List.map_cons, ih (le_add_of_nonneg_left hc) hrest]

/-- The results rise exactly when the values go up twice at most. -/
theorem unwrapped_rising_iff {last : G} (hlast : last < turn) {cs : List G}
    (hcs : ∀ c ∈ cs, 0 ≤ c ∧ c < turn) :
    (last :: unwrapped turn last cs).Pairwise (· ≤ ·) ↔ TwoStretches (last :: cs) := by
  induction cs generalizing last with
  | nil => exact iff_of_true (List.pairwise_singleton _ last) (twoStretches_singleton last)
  | cons c cs ih =>
    obtain ⟨⟨hc, hturn⟩, hrest⟩ := List.forall_mem_cons.mp hcs
    rw [unwrapped, List.pairwise_cons_cons_iff_of_trans]
    by_cases hdown : c < last
    · have hstep : unwrap turn last c = c + turn := if_pos hdown
      have hturned : turn ≤ c + turn := le_add_of_nonneg_left hc
      rw [hstep, unwrapped_of_turn_le hturned hrest, twoStretches_cons_of_lt hdown,
        ← List.map_cons (f := (· + turn)), List.pairwise_map]
      simp only [add_le_add_iff_right]
      exact and_iff_right (hlast.le.trans hturned)
    · have hstep : unwrap turn last c = c := if_neg hdown
      rw [hstep, ih hturn hrest, twoStretches_cons_of_le (not_lt.mp hdown)]
      exact and_iff_right (not_lt.mp hdown)

end

end RobotNav
