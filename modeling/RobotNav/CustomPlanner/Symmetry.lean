/-
Plans in both directions.

The two tables of neighbours undo each other: a step from an even row and the
opposite step from the odd row it leads to are both in the tables.  That holds of
all unsigned coordinates, since wrapping round keeps the parity of a row.  A path
of valid cells can therefore be walked back.
-/
import RobotNav.CustomPlanner.Plan

namespace RobotNav
namespace CustomPlanner

def opposite (dir : ℤ × ℤ) : ℤ × ℤ := (-dir.1, -dir.2)

/-! ## The tables -/

theorem toUnsigned_mod_two (i : ℤ) : ((toUnsigned i % 2 : ℕ) : ℤ) = i % 2 := by
  rw [toUnsigned]
  omega

/-- A step and the one back, in `unsigned int` arithmetic. -/
theorem toUnsigned_back {n : ℕ} (hn : n < 2 ^ 32) {d : ℤ} :
    toUnsigned ((toUnsigned (n + d) : ℤ) + -d) = n := by
  rw [toUnsigned, toUnsigned]
  omega

/-- The opposite of a direction is in the table of every row of the parity the
direction leads to. -/
theorem opposite_mem {y y' : ℕ} {dir : ℤ × ℤ} (hdir : dir ∈ getHexNeighbors y)
    (hy : ((y' % 2 : ℕ) : ℤ) = (y + dir.2) % 2) : opposite dir ∈ getHexNeighbors y' := by
  unfold getHexNeighbors at hdir ⊢
  split at hdir
  all_goals
    simp only [List.mem_cons, List.not_mem_nil, or_false] at hdir
    rcases hdir with rfl | rfl | rfl | rfl | rfl | rfl
    all_goals
      simp only at hy
      split
      · first
          | (exfalso; omega)
          | simp [opposite]
      · first
          | (exfalso; omega)
          | simp [opposite]

theorem move_opposite {a : Cell} (hx : a.x < 2 ^ 32) (hy : a.y < 2 ^ 32) {dir : ℤ × ℤ}
    (hdir : dir ∈ getHexNeighbors a.y) :
    opposite dir ∈ getHexNeighbors (a.move dir).y ∧ (a.move dir).move (opposite dir) = a := by
  constructor
  · exact opposite_mem hdir (toUnsigned_mod_two _)
  · cases a
    simp only [Cell.move, opposite] at hx hy ⊢
    rw [toUnsigned_back hx, toUnsigned_back hy]

/-- A cell is a step from another exactly when that one is a step from it, also
across the border. -/
theorem steps_symm {a b : Cell} (ha : a.x < 2 ^ 32 ∧ a.y < 2 ^ 32)
    (hb : b.x < 2 ^ 32 ∧ b.y < 2 ^ 32) :
    (∃ dir ∈ getHexNeighbors a.y, a.move dir = b) ↔
      ∃ dir ∈ getHexNeighbors b.y, b.move dir = a := by
  constructor
  · rintro ⟨dir, hdir, rfl⟩
    exact ⟨opposite dir, move_opposite ha.1 ha.2 hdir⟩
  · rintro ⟨dir, hdir, rfl⟩
    exact ⟨opposite dir, move_opposite hb.1 hb.2 hdir⟩

theorem Neighbour.symm {a b : Cell} (h : Neighbour a b) : Neighbour b a := by
  obtain ⟨dir, hdir, hx, hy⟩ := h
  refine ⟨opposite dir, opposite_mem hdir ?_, ?_, ?_⟩
  · rw [← hy]
    omega
  · show (a.x : ℤ) = b.x + -dir.1
    omega
  · show (a.y : ℤ) = b.y + -dir.2
    omega

/-! ## Paths -/

/-- A path that starts at a valid cell, walked back. -/
theorem HexPath.reverse {m : Costmap} {start goal : Cell} {cells : List Cell}
    (h : HexPath m start goal cells) (hstart : m.isNodeValid start = true) :
    HexPath m goal start cells.reverse := by
  have hvalid : ∀ c ∈ cells, m.isNodeValid c = true := by
    intro c hc
    rcases h.mem_cases hc with rfl | hvalid
    · exact hstart
    · exact hvalid
  refine ⟨?_, ?_, ?_⟩
  · rw [List.head?_reverse]
    exact h.last
  · rw [List.getLast?_reverse]
    exact h.first
  · rw [List.isChain_reverse]
    refine h.steps.imp_of_mem_imp ?_
    intro a b ha _ henters
    exact ⟨henters.1.symm, hvalid a ha⟩

theorem exists_hexPath_comm {m : Costmap} {s g : Cell} (hs : m.isNodeValid s = true)
    (hg : m.isNodeValid g = true) :
    (∃ cells, HexPath m s g cells) ↔ ∃ cells, HexPath m g s cells := by
  constructor
  · intro ⟨cells, hcells⟩
    exact ⟨cells.reverse, hcells.reverse hs⟩
  · intro ⟨cells, hcells⟩
    exact ⟨cells.reverse, hcells.reverse hg⟩

variable {K : Type} [Arith K]

/-- Between poses in valid cells a plan is found in one direction exactly when one
is found in the other, for every order of ties in each; and the tables of
neighbours give one symmetric relation on the unsigned coordinates. -/
theorem createPlan_comm (p : Planner K) (choice choice' : ℕ → ℕ) (a b : PoseStamped K)
    (s g : Cell) (ha : a.frameId = p.globalFrame) (hb : b.frameId = p.globalFrame)
    (has : p.worldToMap a.x a.y = some s) (hbg : p.worldToMap b.x b.y = some g)
    (hs : p.costmap.isNodeValid s = true) (hg : p.costmap.isNodeValid g = true) :
    ((∃ plan, createPlan p choice a b = .ok plan) ↔
      ∃ plan, createPlan p choice' b a = .ok plan) ∧
    ∀ c d : Cell, c.x < 2 ^ 32 ∧ c.y < 2 ^ 32 → d.x < 2 ^ 32 ∧ d.y < 2 ^ 32 →
      ((∃ dir ∈ getHexNeighbors c.y, c.move dir = d) ↔
        ∃ dir ∈ getHexNeighbors d.y, d.move dir = c) := by
  have hsIn := Costmap.isNodeValid_inMap hs
  have hgIn := Costmap.isNodeValid_inMap hg
  have hthere : Locates p a b s g := ⟨ha, hb, has, hbg, hsIn, hgIn⟩
  have hback : Locates p b a g s := ⟨hb, ha, hbg, has, hgIn, hsIn⟩
  refine ⟨?_, fun c d hc hd => steps_symm hc hd⟩
  rw [(createPlan_finds_iff p choice a b s g hthere).1,
    (createPlan_finds_iff p choice' b a g s hback).1]
  exact exists_hexPath_comm hs hg

theorem createPlan_comm_cornerMap :
    ((∃ plan, createPlan (unitPlanner cornerMap 1) (fun _ => 0) (mapPose (1 / 2) (1 / 2))
        (mapPose (5 / 2) (3 / 2)) = .ok plan) ↔
      ∃ plan, createPlan (unitPlanner cornerMap 1) (fun n => n) (mapPose (5 / 2) (3 / 2))
        (mapPose (1 / 2) (1 / 2)) = .ok plan) ∧
    ((∃ dir ∈ getHexNeighbors 0, Cell.move ⟨0, 0⟩ dir = ⟨0, 2 ^ 32 - 1⟩) ↔
      ∃ dir ∈ getHexNeighbors (2 ^ 32 - 1), Cell.move ⟨0, 2 ^ 32 - 1⟩ dir = ⟨0, 0⟩) := by
  have hboth := createPlan_comm (unitPlanner cornerMap 1) (fun _ => 0) (fun n => n)
    (mapPose (1 / 2) (1 / 2)) (mapPose (5 / 2) (3 / 2)) ⟨0, 0⟩ ⟨2, 1⟩ rfl rfl
    (by decide +kernel) (by decide +kernel) (by decide +kernel) (by decide +kernel)
  exact ⟨hboth.1, hboth.2 ⟨0, 0⟩ ⟨0, 2 ^ 32 - 1⟩ (by decide) (by decide)⟩

end CustomPlanner
end RobotNav
