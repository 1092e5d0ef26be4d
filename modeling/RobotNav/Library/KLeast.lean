/-
The `k` least elements of a multiset, found by looking at one element after another.
-/
import Mathlib.Algebra.Order.Group.Multiset
import Mathlib.Order.Lattice.Nat

namespace RobotNav

/-- `kept` is `k` elements of `all`, or all of them, and no other one is less. -/
structure KLeast {α β : Type*} [LE β] (k : ℕ) (d : α → β) (all kept : Multiset α) : Prop where
  atMost : kept.card ≤ k
  others : ∃ rest, all = kept + rest ∧
    ∀ a ∈ rest, k ≤ kept.card ∧ ∀ b ∈ kept, d b ≤ d a

namespace KLeast

variable {α β : Type*} [Preorder β] {k : ℕ} {d : α → β} {all kept : Multiset α}

theorem zero (k : ℕ) (d : α → β) : KLeast k d 0 0 :=
  ⟨Nat.zero_le k, 0, rfl, fun a ha => absurd ha (Multiset.notMem_zero a)⟩

theorem card_eq (h : KLeast k d all kept) : kept.card = min k all.card := by
  obtain ⟨rest, rfl, hrest⟩ := h.others
  rw [Multiset.card_add]
  rcases Multiset.empty_or_exists_mem rest with rfl | ⟨a, ha⟩
  · rw [Multiset.card_zero, add_zero]
    exact (Nat.min_eq_right h.atMost).symm
  · rw [Nat.min_eq_left ((hrest a ha).1.trans (Nat.le_add_right _ _))]
    exact le_antisymm h.atMost (hrest a ha).1

/-- There is room for one more. -/
theorem cons (h : KLeast k d all kept) (hroom : kept.card < k) (a : α) :
    KLeast k d (a ::ₘ all) (a ::ₘ kept) := by
  obtain ⟨rest, rfl, hrest⟩ := h.others
  refine ⟨by rw [Multiset.card_cons]; omega, rest, (Multiset.cons_add a kept rest).symm, ?_⟩
  intro b hb
  exact absurd (hrest b hb).1 (not_le.mpr hroom)

/-- One more takes the place of a greatest one. -/
theorem replace {greatest : α} (h : KLeast k d all (greatest ::ₘ kept))
    (hgreatest : ∀ b ∈ kept, d b ≤ d greatest) {a : α} (hless : d a ≤ d greatest)
    (hfull : k ≤ kept.card + 1) : KLeast k d (a ::ₘ all) (a ::ₘ kept) := by
  have hatMost := h.atMost
  obtain ⟨rest, rfl, hrest⟩ := h.others
  rw [Multiset.card_cons] at hatMost
  have hbelow : ∀ b ∈ a ::ₘ kept, d b ≤ d greatest := by
    intro b hb
    rcases Multiset.mem_cons.mp hb with rfl | hb
    · exact hless
    · exact hgreatest b hb
  refine ⟨by rwa [Multiset.card_cons], greatest ::ₘ rest, ?_, ?_⟩
  · rw [Multiset.cons_add, Multiset.cons_add, Multiset.add_cons]
  · intro c hc
    refine ⟨by rwa [Multiset.card_cons], fun b hb => ?_⟩
    rcases Multiset.mem_cons.mp hc with rfl | hc
    · exact hbelow b hb
    · have hover := (hrest c hc).2 greatest (Multiset.mem_cons_self greatest kept)
      exact (hbelow b hb).trans hover

/-- Others that are none less than any kept. -/
theorem skip (h : KLeast k d all kept) (hfull : k ≤ kept.card) {more : Multiset α}
    (hover : ∀ a ∈ more, ∀ b ∈ kept, d b ≤ d a) : KLeast k d (all + more) kept := by
  obtain ⟨rest, rfl, hrest⟩ := h.others
  refine ⟨h.atMost, rest + more, add_assoc kept rest more, fun a ha => ?_⟩
  rcases Multiset.mem_add.mp ha with ha | ha
  · exact hrest a ha
  · exact ⟨hfull, hover a ha⟩

end KLeast
end RobotNav
