/-
Binary trees balanced by weight: below a node with more than `m` nodes in its subtree, each
son has at most one part in `b` of the others.

From the root down the weights shrink by the factor `b` until they reach `m`, so the height
is logarithmic in the number of nodes.
-/
import Mathlib.Algebra.Order.Ring.Pow
import Mathlib.Analysis.SpecialFunctions.Log.Base
import Mathlib.Data.Tree.Basic

namespace RobotNav

open BinaryTree

variable {α : Type*}

section

variable {K : Type*} [Semiring K] [LinearOrder K] [IsStrictOrderedRing K] {b : K} {m : ℕ}

def WeightBalanced (b : K) (m : ℕ) : BinaryTree α → Prop
  | nil => True
  | node _ l r =>
    (m < l.numNodes + r.numNodes + 1 →
      b * l.numNodes ≤ l.numNodes + r.numNodes ∧ b * r.numNodes ≤ l.numNodes + r.numNodes) ∧
    WeightBalanced b m l ∧ WeightBalanced b m r

theorem numNodes_pos {t : BinaryTree α} (ht : 0 < t.height) : 0 < t.numNodes :=
  ht.trans_le t.height_le_numNodes

/-- A son with its share of the nodes, one level below its father. -/
theorem pow_height_le_of_share (hb : 0 < b) {height weight total : ℕ}
    (hson : b ^ (height - m) ≤ weight) (hshare : b * weight ≤ total) (hm : m ≤ height) :
    b ^ (height + 1 - m) ≤ total := by
  have hexponent : height + 1 - m = height - m + 1 := by omega
  rw [hexponent, pow_succ']
  exact (mul_le_mul_of_nonneg_left hson hb.le).trans hshare

theorem pow_height_le (hb : 0 < b) (hm : 0 < m) {t : BinaryTree α} (ht : WeightBalanced b m t)
    (hsome : 0 < t.height) : b ^ (t.height - m) ≤ t.numNodes := by
  induction t with
  | nil => cases hsome
  | node a l r ihl ihr =>
    obtain ⟨hshares, hl, hr⟩ := ht
    by_cases hlow : (node a l r).height ≤ m
    · rw [Nat.sub_eq_zero_of_le hlow, pow_zero]
      exact_mod_cast numNodes_pos hsome
    rw [not_le] at hlow
    obtain ⟨hleft, hright⟩ := hshares (hlow.trans_le (height_le_numNodes (node a l r)))
    have htotal : (l.numNodes + r.numNodes : K) ≤ (node a l r).numNodes := by
      rw [numNodes, ← Nat.cast_add]
      exact Nat.cast_le.mpr (Nat.le_succ _)
    rw [height] at hlow ⊢
    -- the path goes on in the taller son
    rcases le_total l.height r.height with htaller | htaller
    · rw [max_eq_right htaller] at hlow ⊢
      exact pow_height_le_of_share hb (ihr hr (by omega)) (hright.trans htotal) (by omega)
    · rw [max_eq_left htaller] at hlow ⊢
      exact pow_height_le_of_share hb (ihl hl (by omega)) (hleft.trans htotal) (by omega)

end

/-- Balanced trees have logarithmic height. -/
theorem height_le_logb {b : ℝ} (hb : 1 < b) {m : ℕ} (hm : 0 < m) {t : BinaryTree α}
    (ht : WeightBalanced b m t) : (t.height : ℝ) ≤ m + Real.logb b t.numNodes := by
  rcases Nat.eq_zero_or_pos t.height with hnone | hsome
  · have hlog : 0 ≤ Real.logb b t.numNodes := by
      rcases Nat.eq_zero_or_pos t.numNodes with hzero | hpos
      · rw [hzero, Nat.cast_zero, Real.logb_zero]
      · exact Real.logb_nonneg hb (by exact_mod_cast hpos)
    rw [hnone, Nat.cast_zero]
    positivity
  have hpos : (0 : ℝ) < t.numNodes := by exact_mod_cast numNodes_pos hsome
  have hpow := pow_height_le (zero_lt_one.trans hb) hm ht hsome
  have hlog : ((t.height - m : ℕ) : ℝ) ≤ Real.logb b t.numNodes := by
    rw [Real.le_logb_iff_rpow_le hb hpos, Real.rpow_natCast]
    exact hpow
  have hsplit : (t.height : ℝ) ≤ m + (t.height - m : ℕ) := by
    rw [← Nat.cast_add]
    exact Nat.cast_le.mpr (by omega)
  exact hsplit.trans (by linarith)

end RobotNav
