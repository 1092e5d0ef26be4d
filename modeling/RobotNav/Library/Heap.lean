/-
Binary heaps in an array, with a greatest element in front.

An element moves through the array as a hole that its neighbours are copied into.  The
comparison is only asked to follow a rank on the elements that are compared, so that one
with a tolerance will do on elements that are equal or far enough apart.
-/
import Mathlib.Data.Multiset.Range
import Mathlib.Data.Multiset.MapFold
import Mathlib.Logic.Function.Basic
import Mathlib.Order.Defs.LinearOrder

namespace RobotNav
namespace Heap

variable {α : Type*} (lt : α → α → Prop) [DecidableRel lt]

/-- The father of place `i` is place `(i - 1) / 2`.  `x` goes up from the hole `i`. -/
def floatUp (x : α) (h : ℕ → α) (i : ℕ) : ℕ → α :=
  if 0 < i then
    if lt (h ((i - 1) / 2)) x then
      floatUp x (Function.update h i (h ((i - 1) / 2))) ((i - 1) / 2)
    else Function.update h i x
  else Function.update h i x
termination_by i
decreasing_by omega

/-- The greater son of place `i`, the left one when they are level. -/
def greaterSon (n : ℕ) (h : ℕ → α) (i : ℕ) : ℕ :=
  if 2 * i + 2 < n ∧ lt (h (2 * i + 1)) (h (2 * i + 2)) then 2 * i + 2 else 2 * i + 1

/-- `x` goes down from the hole `i`, among `n` places. -/
def moveDown (n : ℕ) (x : α) (h : ℕ → α) (i : ℕ) : ℕ → α :=
  if 2 * i + 1 < n then
    if lt x (h (greaterSon lt n h i)) then
      moveDown n x (Function.update h i (h (greaterSon lt n h i))) (greaterSon lt n h i)
    else Function.update h i x
  else Function.update h i x
termination_by n - i
decreasing_by
  have hson : i < greaterSon lt n h i := by
    rw [greaterSon]
    split_ifs <;> omega
  omega

variable {lt} {n : ℕ} {x : α} {h : ℕ → α} {i : ℕ}

theorem greaterSon_bounds (lt : α → α → Prop) [DecidableRel lt] (h : ℕ → α)
    (hi : 2 * i + 1 < n) :
    greaterSon lt n h i < n ∧ i < greaterSon lt n h i ∧ (greaterSon lt n h i - 1) / 2 = i := by
  rw [greaterSon]
  split_ifs with hright
  · omega
  · omega

/-! ## What the array holds -/

/-- The elements at the first `n` places. -/
def contents (n : ℕ) (h : ℕ → α) : Multiset α := (Multiset.range n).map h

/-- Those beside the hole. -/
def others (n : ℕ) (h : ℕ → α) (i : ℕ) : Multiset α := ((Multiset.range n).erase i).map h

theorem mem_contents {a : α} : a ∈ contents n h ↔ ∃ j < n, h j = a := by
  simp [contents]

theorem contents_succ (n : ℕ) (h : ℕ → α) : contents (n + 1) h = h n ::ₘ contents n h := by
  rw [contents, Multiset.range_succ, Multiset.map_cons, contents]

theorem card_contents (n : ℕ) (h : ℕ → α) : (contents n h).card = n := by
  rw [contents, Multiset.card_map, Multiset.card_range]

theorem contents_eq (hi : i < n) : contents n h = h i ::ₘ others n h i := by
  rw [contents, others, ← Multiset.map_cons, Multiset.cons_erase (Multiset.mem_range.mpr hi)]

theorem others_update (n : ℕ) (x : α) (h : ℕ → α) (i : ℕ) :
    others n (Function.update h i x) i = others n h i := by
  refine Multiset.map_congr rfl fun j hj => Function.update_of_ne ?_ ..
  rintro rfl
  exact Multiset.Nodup.notMem_erase (Multiset.nodup_range n) hj

theorem contents_update (hi : i < n) (x : α) :
    contents n (Function.update h i x) = x ::ₘ others n h i := by
  rw [contents_eq hi, Function.update_self, others_update]

/-- A neighbour copied into the hole leaves its own place as the hole. -/
theorem others_move {p : ℕ} (hi : i < n) (hp : p < n) (hne : p ≠ i) :
    others n (Function.update h i (h p)) p = others n h i := by
  have hmemi : i ∈ (Multiset.range n).erase p :=
    (Multiset.mem_erase_of_ne hne.symm).mpr (Multiset.mem_range.mpr hi)
  have hmemp : p ∈ (Multiset.range n).erase i :=
    (Multiset.mem_erase_of_ne hne).mpr (Multiset.mem_range.mpr hp)
  rw [others, others, ← Multiset.cons_erase hmemi, ← Multiset.cons_erase hmemp,
    Multiset.map_cons, Multiset.map_cons, Function.update_self, Multiset.erase_comm]
  congr 1
  refine Multiset.map_congr rfl fun j hj => Function.update_of_ne ?_ ..
  rintro rfl
  have hnodup := (Multiset.nodup_range n).erase p
  rw [Multiset.erase_comm] at hj
  exact hnodup.notMem_erase hj

theorem floatUp_contents (hi : i < n) :
    contents n (floatUp lt x h i) = x ::ₘ others n h i := by
  induction h, i using floatUp.induct lt x with
  | case1 h i hpos hlt ih =>
    rw [floatUp, if_pos hpos, if_pos hlt, ih (by omega),
      others_move hi (by omega : (i - 1) / 2 < n) (by omega)]
  | case2 h i hpos hlt =>
    rw [floatUp, if_pos hpos, if_neg hlt, contents_update hi]
  | case3 h i hpos =>
    rw [floatUp, if_neg hpos, contents_update hi]

theorem moveDown_contents (hi : i < n) :
    contents n (moveDown lt n x h i) = x ::ₘ others n h i := by
  induction h, i using moveDown.induct lt n x with
  | case1 h i hson hlt ih =>
    obtain ⟨hin, hgt, -⟩ := greaterSon_bounds lt h hson
    rw [moveDown, if_pos hson, if_pos hlt, ih hin, others_move hi hin (by omega)]
  | case2 h i hson hlt =>
    rw [moveDown, if_pos hson, if_neg hlt, contents_update hi]
  | case3 h i hson =>
    rw [moveDown, if_neg hson, contents_update hi]

/-! ## The order of the array -/

variable {β : Type*} [LinearOrder β] {r : α → β} {s : Set α}

/-- On the elements of `s` the comparison is that of their ranks. -/
def Agrees (lt : α → α → Prop) (r : α → β) (s : Set α) : Prop :=
  ∀ a ∈ s, ∀ b ∈ s, lt a b ↔ r a < r b

/-- No element comes before its father. -/
def Ordered (r : α → β) (n : ℕ) (h : ℕ → α) : Prop :=
  ∀ j, 0 < j → j < n → r (h j) ≤ r (h ((j - 1) / 2))

/-- The front is a greatest element. -/
theorem Ordered.le_front (ho : Ordered r n h) {j : ℕ} (hj : j < n) : r (h j) ≤ r (h 0) := by
  induction j using Nat.strong_induction_on with
  | h j ih =>
    rcases Nat.eq_zero_or_pos j with rfl | hpos
    · exact le_refl _
    · exact (ho j hpos hj).trans (ih ((j - 1) / 2) (by omega) (by omega))

/-- In order but for the hole, past which the order goes on. -/
structure OrderedBut (r : α → β) (n : ℕ) (h : ℕ → α) (i : ℕ) : Prop where
  except : ∀ j, 0 < j → j < n → j ≠ i → (j - 1) / 2 ≠ i → r (h j) ≤ r (h ((j - 1) / 2))
  past : 0 < i → ∀ j, 0 < j → j < n → (j - 1) / 2 = i → r (h j) ≤ r (h ((i - 1) / 2))

/-- The element for the hole fits over the sons, and under the father. -/
theorem OrderedBut.fill (hb : OrderedBut r n h i)
    (hbelow : ∀ j, 0 < j → j < n → (j - 1) / 2 = i → r (h j) ≤ r x)
    (habove : 0 < i → r x ≤ r (h ((i - 1) / 2))) : Ordered r n (Function.update h i x) := by
  intro j hpos hj
  by_cases hji : j = i
  · subst hji
    rw [Function.update_self, Function.update_of_ne (by omega)]
    exact habove hpos
  · rw [Function.update_of_ne hji]
    by_cases hfather : (j - 1) / 2 = i
    · rw [hfather, Function.update_self]
      exact hbelow j hpos hj hfather
    · rw [Function.update_of_ne hfather]
      exact hb.except j hpos hj hji hfather

/-- The hole goes up. -/
theorem OrderedBut.up (hb : OrderedBut r n h i) (hpos : 0 < i) (hi : i < n) :
    OrderedBut r n (Function.update h i (h ((i - 1) / 2))) ((i - 1) / 2) := by
  constructor
  · intro j hj0 hj hne hfather
    have hji : j ≠ i := by
      rintro rfl
      exact hfather rfl
    rw [Function.update_of_ne hji]
    by_cases hson : (j - 1) / 2 = i
    · rw [hson, Function.update_self]
      exact hb.past hpos j hj0 hj hson
    · rw [Function.update_of_ne hson]
      exact hb.except j hj0 hj hji hson
  · intro hp0 j hj0 hj hfather
    have hup := hb.except ((i - 1) / 2) hp0 (by omega) (by omega) (by omega)
    rw [Function.update_of_ne (by omega : ((i - 1) / 2 - 1) / 2 ≠ i)]
    by_cases hji : j = i
    · subst hji
      rw [Function.update_self]
      exact hup
    · rw [Function.update_of_ne hji]
      have hbrother := hb.except j hj0 hj hji (by omega)
      rw [hfather] at hbrother
      exact hbrother.trans hup

/-- The hole goes down to a greatest son. -/
theorem OrderedBut.down (hb : OrderedBut r n h i) {c : ℕ} (hc : c < n) (hic : i < c)
    (hfather : (c - 1) / 2 = i)
    (hgreatest : ∀ j, 0 < j → j < n → (j - 1) / 2 = i → r (h j) ≤ r (h c)) :
    OrderedBut r n (Function.update h i (h c)) c := by
  constructor
  · intro j hj0 hj hne hjc
    by_cases hji : j = i
    · subst hji
      rw [Function.update_self, Function.update_of_ne (by omega)]
      exact hb.past hj0 c (by omega) hc hfather
    · rw [Function.update_of_ne hji]
      by_cases hson : (j - 1) / 2 = i
      · rw [hson, Function.update_self]
        exact hgreatest j hj0 hj hson
      · rw [Function.update_of_ne hson]
        exact hb.except j hj0 hj hji hson
  · intro _ j hj0 hj hjc
    rw [hfather, Function.update_self, Function.update_of_ne (by omega), ← hjc]
    exact hb.except j hj0 hj (by omega) (by omega)

theorem floatUp_ordered (hagrees : Agrees lt r s) (hx : x ∈ s) (hs : ∀ j < n, j ≠ i → h j ∈ s)
    (hi : i < n) (hb : OrderedBut r n h i)
    (hbelow : ∀ j, 0 < j → j < n → (j - 1) / 2 = i → r (h j) ≤ r x) :
    Ordered r n (floatUp lt x h i) := by
  induction h, i using floatUp.induct lt x with
  | case1 h i hpos hlt ih =>
    rw [floatUp, if_pos hpos, if_pos hlt]
    have hfatherIn : h ((i - 1) / 2) ∈ s := hs _ (by omega) (by omega)
    have hrank := (hagrees _ hfatherIn x hx).mp hlt
    refine ih ?_ (by omega) (hb.up hpos hi) ?_
    · intro j hj hne
      by_cases hji : j = i
      · subst hji
        rw [Function.update_self]
        exact hfatherIn
      · rw [Function.update_of_ne hji]
        exact hs j hj hji
    · intro j hj0 hj hfather
      by_cases hji : j = i
      · subst hji
        rw [Function.update_self]
        exact hrank.le
      · rw [Function.update_of_ne hji]
        have hbrother := hb.except j hj0 hj hji (by omega)
        rw [hfather] at hbrother
        exact hbrother.trans hrank.le
  | case2 h i hpos hlt =>
    rw [floatUp, if_pos hpos, if_neg hlt]
    refine hb.fill hbelow fun _ => ?_
    rw [hagrees _ (hs _ (by omega) (by omega)) x hx, not_lt] at hlt
    exact hlt
  | case3 h i hpos =>
    rw [floatUp, if_neg hpos]
    exact hb.fill hbelow fun hpos' => absurd hpos' hpos

theorem greaterSon_greatest (hagrees : Agrees lt r s) (hs : ∀ j < n, j ≠ i → h j ∈ s)
    (hi : 2 * i + 1 < n) {j : ℕ} (hj0 : 0 < j) (hj : j < n) (hfather : (j - 1) / 2 = i) :
    r (h j) ≤ r (h (greaterSon lt n h i)) := by
  have hside : j = 2 * i + 1 ∨ j = 2 * i + 2 := by omega
  rw [greaterSon]
  split_ifs with hright
  · have hlt := (hagrees _ (hs _ hi (by omega)) _ (hs _ hright.1 (by omega))).mp hright.2
    rcases hside with rfl | rfl
    · exact hlt.le
    · exact le_refl _
  · rcases hside with rfl | rfl
    · exact le_refl _
    · have hnot : ¬ lt (h (2 * i + 1)) (h (2 * i + 2)) := fun hlt => hright ⟨hj, hlt⟩
      rw [hagrees _ (hs _ hi (by omega)) _ (hs _ hj (by omega)), not_lt] at hnot
      exact hnot

theorem moveDown_ordered (hagrees : Agrees lt r s) (hx : x ∈ s) (hs : ∀ j < n, j ≠ i → h j ∈ s)
    (hb : OrderedBut r n h i) (habove : 0 < i → r x ≤ r (h ((i - 1) / 2))) :
    Ordered r n (moveDown lt n x h i) := by
  induction h, i using moveDown.induct lt n x with
  | case1 h i hson hlt ih =>
    obtain ⟨hin, hgt, hfather⟩ := greaterSon_bounds lt h hson
    rw [moveDown, if_pos hson, if_pos hlt]
    have hsonIn : h (greaterSon lt n h i) ∈ s := hs _ hin (by omega)
    refine ih ?_ (hb.down hin hgt hfather fun j hj0 hj hf =>
      greaterSon_greatest hagrees hs hson hj0 hj hf) ?_
    · intro j hj hne
      by_cases hji : j = i
      · subst hji
        rw [Function.update_self]
        exact hsonIn
      · rw [Function.update_of_ne hji]
        exact hs j hj hji
    · intro _
      rw [hfather, Function.update_self]
      exact ((hagrees x hx _ hsonIn).mp hlt).le
  | case2 h i hson hlt =>
    obtain ⟨hin, hgt, -⟩ := greaterSon_bounds lt h hson
    rw [moveDown, if_pos hson, if_neg hlt]
    rw [hagrees x hx _ (hs _ hin (by omega)), not_lt] at hlt
    exact hb.fill (fun j hj0 hj hf =>
      (greaterSon_greatest hagrees hs hson hj0 hj hf).trans hlt) habove
  | case3 h i hson =>
    rw [moveDown, if_neg hson]
    refine hb.fill (fun j hj0 hj hf => ?_) habove
    omega

end Heap
end RobotNav
