/-
What the accepted path costs.

The cost of a step depends on the step before it, but a cell is closed by the
first entry taken out for it, whatever its direction, and the heuristic may fall
by more than a diagonal step costs.  The accepted `g_cost` is therefore the cost of
the path found and not always the least; it is never more than what any path
costs when each of its steps after the first is charged as a turn.
-/
import RobotNav.CustomPlanner.Plan
import Mathlib.Analysis.Real.Sqrt
import Mathlib.Data.List.GetD
import Mathlib.Algebra.Order.Archimedean.Real.Basic

namespace RobotNav
namespace CustomPlanner

/-- `std::hypot` without rounding. -/
noncomputable def hypot (x y : ℝ) : ℝ := Real.sqrt (x ^ 2 + y ^ 2)

noncomputable def exactQuery (m : Costmap) (start goal : Cell) : Query ℝ :=
  { costmap := m, hypot := hypot, start := start, goal := goal }

/-! ## The cost model -/

/-- The cost of entering a cell, turns apart. -/
noncomputable def stepCost (m : Costmap) (c : Cell) : ℝ :=
  1 + 100 * (((m.getCost c).toNat : ℝ) / 254) ^ 2

def offset (a b : Cell) : ℤ × ℤ := ((b.x : ℤ) - a.x, (b.y : ℤ) - a.y)

/-- The cost of a sequence of cells, given from its last cell back to its first:
3 for each step whose offset differs from that of the step before. -/
noncomputable def costBack (m : Costmap) : List Cell → ℝ
  | c :: b :: a :: rest =>
    stepCost m c + (if offset a b ≠ offset b c then 3 else 0) + costBack m (b :: a :: rest)
  | [c, _] => stepCost m c
  | _ => 0

noncomputable def pathCost (m : Costmap) (cells : List Cell) : ℝ := costBack m cells.reverse

/-- The cost when every step after the first counts as a turn. -/
noncomputable def turnedCost (m : Costmap) : List Cell → ℝ
  | _ :: b :: rest => stepCost m b + (rest.map fun c => stepCost m c + 3).sum
  | _ => 0

theorem one_le_stepCost (m : Costmap) (c : Cell) : 1 ≤ stepCost m c := by
  rw [stepCost]
  have hsq : 0 ≤ (((m.getCost c).toNat : ℝ) / 254) ^ 2 := sq_nonneg _
  linarith

theorem turnedCost_snoc (m : Costmap) {cells : List Cell} (hne : cells ≠ []) (c : Cell) :
    turnedCost m (cells ++ [c]) =
      turnedCost m cells + stepCost m c + (if cells.length = 1 then 0 else 3) := by
  match cells, hne with
  | [a], _ => simp [turnedCost]
  | a :: b :: rest, _ =>
    simp [turnedCost]
    ring

/-! ## The accepted cost is that of the path -/

theorem AStarNode.cells_eq {K : Type} (n : AStarNode K) :
    n.cells = n.cell :: (n.parent.map AStarNode.cells).getD [] := by
  obtain ⟨x, y, g, h, f, _ | p⟩ := n
  · simp [AStarNode.cells, AStarNode.cell]
  · simp [AStarNode.cells, AStarNode.cell]

theorem stepCost_eq (m : Costmap) (c : Cell) :
    (lit 1 : ℝ) + safetyPenalty m c = stepCost m c := by
  show ((1 : ℤ) : ℝ) + (((m.getCost c).toNat : ℤ) : ℝ) / ((254 : ℤ) : ℝ) *
    ((((m.getCost c).toNat : ℤ) : ℝ) / ((254 : ℤ) : ℝ)) * ((100 : ℤ) : ℝ) = _
  rw [stepCost]
  push_cast
  ring

section Search

variable {m : Costmap} {start goal : Cell}

theorem child_gCost (n : AStarNode ℝ) (c : Cell) :
    (n.child (exactQuery m start goal) c).gCost =
      n.gCost + stepCost m c + turnPenalty n c := by
  rw [← stepCost_eq, ← add_assoc]
  rfl

theorem generated_fCost (hs : m.InMap start) {n : AStarNode ℝ}
    (h : (problem (exactQuery m start goal)).Generated n) :
    n.fCost = n.gCost + getHeuristic hypot n.cell goal := by
  cases h with
  | start => rfl
  | expand hn hm =>
    obtain ⟨hchild, -⟩ := child_enters (generated_inMap hs hn) hm
    rw [hchild]
    rfl

/-- The penalty of a step is that of its offset against the offset before. -/
theorem turnPenalty_eq {n : AStarNode ℝ} {p : AStarNode ℝ} (hp : n.parent = some p)
    (hpin : m.InMap p.cell) (hn : m.InMap n.cell) {c : Cell} (hc : m.InMap c) :
    turnPenalty n c = if offset p.cell n.cell ≠ offset n.cell c then 3 else 0 := by
  have hx : ∀ {c : Cell}, m.InMap c → toInt c.x = c.x ∧ toInt c.y = c.y := by
    intro c hc
    have hbounds := hc.bounds
    obtain ⟨h1, h2⟩ := hc
    exact ⟨toInt_of_lt (by omega), toInt_of_lt (by omega)⟩
  have hpx : toInt p.x = p.x ∧ toInt p.y = p.y := hx hpin
  have hnx : toInt n.x = n.x ∧ toInt n.y = n.y := hx hn
  have hcx := hx hc
  have hiff : (toInt n.x - toInt p.x ≠ toInt c.x - toInt n.x ∨
      toInt n.y - toInt p.y ≠ toInt c.y - toInt n.y) ↔ offset p.cell n.cell ≠ offset n.cell c := by
    rw [hpx.1, hpx.2, hnx.1, hnx.2, hcx.1, hcx.2]
    simp only [offset, ne_eq, Prod.mk.injEq, not_and_or]
    exact Iff.rfl
  rw [turnPenalty, hp]
  simp only [hiff]
  split
  · show ((3 : ℤ) : ℝ) = 3
    norm_num
  · show ((0 : ℤ) : ℝ) = 0
    norm_num

theorem turnPenalty_le (n : AStarNode ℝ) (c : Cell) : turnPenalty n c ≤ 3 := by
  have hzero : (lit 0 : ℝ) ≤ 3 := by
    show ((0 : ℤ) : ℝ) ≤ 3
    norm_num
  have hthree : (lit 3 : ℝ) ≤ 3 := by
    show ((3 : ℤ) : ℝ) ≤ 3
    norm_num
  rw [turnPenalty]
  cases n.parent with
  | none => exact hzero
  | some p =>
    simp only
    split
    · exact hthree
    · exact hzero

/-- The accumulated cost of a node is the cost of its parent chain. -/
theorem generated_gCost (hs : m.InMap start) {n : AStarNode ℝ}
    (h : (problem (exactQuery m start goal)).Generated n) :
    n.gCost = costBack m n.cells := by
  induction h with
  | start =>
    rw [cells_lines.start]
    show ((0 : ℤ) : ℝ) = 0
    norm_num
  | @expand n c hn hm ih =>
    have hin := generated_inMap hs hn
    have hcells := cells_lines.expand n c hm
    obtain ⟨hchild, henters⟩ := child_enters hin hm
    have hg : c.gCost = n.gCost + stepCost m c.cell + turnPenalty n c.cell :=
      (congrArg AStarNode.gCost hchild).trans (child_gCost n c.cell)
    rw [hcells, hg, ih]
    cases hparent : n.parent with
    | none =>
      have hn' : n.cells = [n.cell] := by rw [AStarNode.cells_eq, hparent]; rfl
      have hturn : turnPenalty n c.cell = 0 := by
        rw [turnPenalty, hparent]
        show ((0 : ℤ) : ℝ) = 0
        norm_num
      rw [hturn, hn']
      show 0 + stepCost m c.cell + 0 = stepCost m c.cell
      ring
    | some p =>
      have hn' : n.cells = n.cell :: p.cells := by rw [AStarNode.cells_eq, hparent]; rfl
      have hpin : m.InMap p.cell := by
        have hmem : p.cell ∈ n.path := by
          rw [AStarNode.path, hn', AStarNode.cells_eq p]
          simp
        rcases (generated_hexPath hs hn).mem_cases hmem with hstart | hvalid
        · rw [hstart]
          exact hs
        · exact Costmap.isNodeValid_inMap hvalid
      rw [turnPenalty_eq hparent hpin hin (Costmap.isNodeValid_inMap henters.2), hn',
        AStarNode.cells_eq p]
      show _ = stepCost m c.cell + (if offset p.cell n.cell ≠ offset n.cell c.cell then 3 else 0) +
        costBack m (n.cell :: p.cell :: _)
      ring

/-! ## No path is overtaken by more than its turns -/

theorem sqrt_step_le {u v dx dy : ℝ} (hdx : |dx| ≤ 1) (hdy : |dy| ≤ 1) :
    Real.sqrt ((u - dx) ^ 2 + (v - dy) ^ 2) ≤ Real.sqrt (u ^ 2 + v ^ 2) + 4 := by
  have hr := Real.sqrt_nonneg (u ^ 2 + v ^ 2)
  have hsq : Real.sqrt (u ^ 2 + v ^ 2) ^ 2 = u ^ 2 + v ^ 2 := Real.sq_sqrt (by positivity)
  have hu : |u| ≤ Real.sqrt (u ^ 2 + v ^ 2) := Real.abs_le_sqrt (by nlinarith [sq_nonneg v])
  have hv : |v| ≤ Real.sqrt (u ^ 2 + v ^ 2) := Real.abs_le_sqrt (by nlinarith [sq_nonneg u])
  have hudx : -(u * dx) ≤ |u| := by
    have habs : |u * dx| ≤ |u| * 1 := by
      rw [abs_mul]
      exact mul_le_mul_of_nonneg_left hdx (abs_nonneg u)
    linarith [neg_abs_le (u * dx)]
  have hvdy : -(v * dy) ≤ |v| := by
    have habs : |v * dy| ≤ |v| * 1 := by
      rw [abs_mul]
      exact mul_le_mul_of_nonneg_left hdy (abs_nonneg v)
    linarith [neg_abs_le (v * dy)]
  have hdx2 : dx ^ 2 ≤ 1 := (sq_le_one_iff_abs_le_one dx).mpr hdx
  have hdy2 : dy ^ 2 ≤ 1 := (sq_le_one_iff_abs_le_one dy).mpr hdy
  refine Real.sqrt_le_iff.mpr ⟨by linarith, ?_⟩
  have hexpand : (u - dx) ^ 2 + (v - dy) ^ 2 =
      (u ^ 2 + v ^ 2) + 2 * -(u * dx) + 2 * -(v * dy) + dx ^ 2 + dy ^ 2 := by ring
  rw [hexpand]
  nlinarith

theorem getHeuristic_eq (c goal : Cell) : getHeuristic hypot c goal =
    Real.sqrt (((c.x : ℝ) - goal.x) ^ 2 + ((c.y : ℝ) - goal.y) ^ 2) := by
  show Real.sqrt ((((c.x : ℤ) : ℝ) - ((goal.x : ℤ) : ℝ)) ^ 2 +
    (((c.y : ℤ) : ℝ) - ((goal.y : ℤ) : ℝ)) ^ 2) = _
  push_cast
  rfl

/-- One step lowers the heuristic by less than a step with a turn costs. -/
theorem getHeuristic_le (goal : Cell) {a b : Cell} (h : Neighbour a b) :
    getHeuristic hypot a goal ≤ getHeuristic hypot b goal + 4 := by
  obtain ⟨dir, hdir, hx, hy⟩ := h
  have hbound := getHexNeighbors_bound hdir
  have hxa : (a.x : ℝ) = b.x - dir.1 := by
    have hcast := congrArg (Int.cast : ℤ → ℝ) hx
    push_cast at hcast
    linarith
  have hya : (a.y : ℝ) = b.y - dir.2 := by
    have hcast := congrArg (Int.cast : ℤ → ℝ) hy
    push_cast at hcast
    linarith
  have hdx : |(dir.1 : ℝ)| ≤ 1 := by
    rw [abs_le]
    exact ⟨by exact_mod_cast hbound.1, by exact_mod_cast hbound.2.1⟩
  have hdy : |(dir.2 : ℝ)| ≤ 1 := by
    rw [abs_le]
    exact ⟨by exact_mod_cast hbound.2.2.1, by exact_mod_cast hbound.2.2.2⟩
  have hsubx : (b.x : ℝ) - dir.1 - goal.x = (b.x : ℝ) - goal.x - dir.1 := by ring
  have hsuby : (b.y : ℝ) - dir.2 - goal.y = (b.y : ℝ) - goal.y - dir.2 := by ring
  rw [getHeuristic_eq, getHeuristic_eq, hxa, hya, hsubx, hsuby]
  exact sqrt_step_le hdx hdy

/-- What the cells up to place `i` of a path cost with every turn charged. -/
noncomputable def turnedUpTo (m : Costmap) (cells : List Cell) (i : ℕ) : ℝ :=
  turnedCost m (cells.take (i + 1))

theorem turnedUpTo_succ {cells : List Cell} {i : ℕ} (hi : i + 1 < cells.length) :
    turnedUpTo m cells (i + 1) =
      turnedUpTo m cells i + stepCost m cells[i + 1] + (if i = 0 then 0 else 3) := by
  unfold turnedUpTo
  have hne : cells.take (i + 1) ≠ [] := by
    intro hnil
    have hlen := congrArg List.length hnil
    rw [List.length_take, List.length_nil] at hlen
    omega
  have hlen : (cells.take (i + 1)).length = 1 ↔ i = 0 := by
    rw [List.length_take]
    omega
  rw [List.take_succ_eq_append_getElem hi, turnedCost_snoc m hne]
  simp only [hlen]

theorem turnedCost_nonneg (m : Costmap) (cells : List Cell) : 0 ≤ turnedCost m cells := by
  match cells with
  | [] => exact le_refl 0
  | [a] => exact le_refl 0
  | a :: b :: rest =>
    have hb := one_le_stepCost m b
    have hsum : 0 ≤ (rest.map fun c => stepCost m c + 3).sum := by
      refine List.sum_nonneg fun r hr => ?_
      obtain ⟨c, -, rfl⟩ := List.mem_map.mp hr
      have hc := one_le_stepCost m c
      linarith
    show 0 ≤ stepCost m b + _
    linarith

/-- Past the first step, charged cost and heuristic together never fall along a
path. -/
theorem turnedUpTo_mono {cells : List Cell} (h : HexPath m start goal cells) {i j : ℕ}
    (hj : 1 ≤ j) (hji : j ≤ i) (hi : i < cells.length) :
    turnedUpTo m cells j + getHeuristic hypot (cells.getD j start) goal ≤
      turnedUpTo m cells i + getHeuristic hypot (cells.getD i start) goal := by
  induction i, hji using Nat.le_induction with
  | base => exact le_refl _
  | succ i hji ih =>
    have hstep : Neighbour (cells.getD i start) (cells.getD (i + 1) start) := by
      have hget : ∀ k (hk : k < cells.length), cells[k]? = some (cells.getD k start) := by
        intro k hk
        rw [List.getD_eq_getElem cells start hk, List.getElem?_eq_getElem hk]
      exact (h.step (hget i (by omega)) (hget (i + 1) hi)).1
    have hle := getHeuristic_le goal hstep
    have hcost := one_le_stepCost m cells[i + 1]
    have hprev := ih (by omega)
    rw [turnedUpTo_succ hi, if_neg (by omega)]
    linarith

/-- The entry is the start at place 0, and nowhere dearer than the charged path. -/
def WithinTurned (m : Costmap) (start goal : Cell) (cells : List Cell) (i : ℕ)
    (n : AStarNode ℝ) : Prop :=
  (i = 0 → n = startNode (exactQuery m start goal)) ∧ n.gCost ≤ turnedUpTo m cells i

theorem withinTurned_dominance (hs : m.InMap start) {cells : List Cell}
    (h : HexPath m start goal cells) :
    BestFirst.Dominance (problem (exactQuery m start goal)) (fun i => cells.getD i start)
      (cells.length - 1) (WithinTurned m start goal cells) := by
  have hpos : 0 < cells.length := by
    rw [List.length_pos_iff]
    rintro rfl
    cases h.first
  have hget : ∀ k, k < cells.length → cells[k]? = some (cells.getD k start) := by
    intro k hk
    rw [List.getD_eq_getElem cells start hk, List.getElem?_eq_getElem hk]
  constructor
  · have hfirst := h.first
    rw [List.head?_eq_getElem?, hget 0 hpos] at hfirst
    exact Option.some.inj hfirst
  · intro i _ _
    refine ⟨fun _ => rfl, ?_⟩
    have hzero : (startNode (exactQuery m start goal)).gCost = 0 := by
      show ((0 : ℤ) : ℝ) = 0
      norm_num
    show (startNode (exactQuery m start goal)).gCost ≤ _
    rw [hzero]
    exact turnedCost_nonneg m _
  · intro i hi n hn hni hgood
    have hin := generated_inMap hs hn
    have henters : m.Enters n.cell (cells.getD (i + 1) start) := by
      have hstep := h.step (hget i (by omega)) (hget (i + 1) (by omega))
      have hni' : n.cell = cells.getD i start := hni
      rwa [← hni'] at hstep
    refine ⟨n.child (exactQuery m start goal) (cells.getD (i + 1) start),
      child_mem hin henters, rfl, fun h0 => by omega, ?_⟩
    have hcell : cells.getD (i + 1) start = cells[i + 1] :=
      List.getD_eq_getElem cells start (by omega)
    rw [child_gCost, turnedUpTo_succ (by omega), hcell]
    have hle := hgood.2
    by_cases h0 : i = 0
    · -- the first step turns from nothing
      have hturn : turnPenalty n cells[i + 1] = 0 := by
        rw [hgood.1 h0]
        show ((0 : ℤ) : ℝ) = 0
        norm_num
      rw [hturn, if_pos h0]
      linarith
    · have hturn := turnPenalty_le n cells[i + 1]
      rw [if_neg h0]
      linarith
  · intro i j n m' hj hji hi hn hm' hni hmj hgood hkey
    refine ⟨fun h0 => by omega, ?_⟩
    have hmono := turnedUpTo_mono h hj hji (by omega)
    have hkey' : n.fCost ≤ m'.fCost := hkey
    have hni' : n.cell = cells.getD i start := hni
    have hmj' : m'.cell = cells.getD j start := hmj
    rw [generated_fCost hs hn, generated_fCost hs hm', hni', hmj'] at hkey'
    have hle := hgood.2
    linarith

/-- Exact arithmetic, any order of ties: the accepted `g_cost` is the cost of the
path found, and no path costs less once each of its steps after the first is
charged as a turn. -/
theorem accepted_cost (m : Costmap) (start goal : Cell) (hs : m.InMap start) (choice : ℕ → ℕ)
    (n : AStarNode ℝ) (hn : search (exactQuery m start goal) choice = some n) :
    HexPath m start goal n.path ∧ n.gCost = pathCost m n.path ∧
      ∀ cells, HexPath m start goal cells → n.gCost ≤ turnedCost m cells := by
  have hs' : (exactQuery m start goal).costmap.InMap (exactQuery m start goal).start := hs
  refine ⟨(search_path hs' hn).1, ?_, ?_⟩
  · have hends := search_ends hs' choice
    rw [hn] at hends
    cases hends with
    | found hrun hpop hopen hgoal =>
      unfold pathCost AStarNode.path
      rw [List.reverse_reverse]
      exact generated_gCost hs (hrun.searched.opened n hpop.mem)
  · intro cells hcells
    have hdom := withinTurned_dominance hs hcells
    have hlast : cells.getD (cells.length - 1) start = goal := by
      have hlast' := hcells.last
      rw [List.getLast?_eq_getElem?] at hlast'
      rw [List.getD_eq_getElem?_getD, hlast']
      rfl
    have hall : turnedUpTo m cells (cells.length - 1) = turnedCost m cells := by
      rw [turnedUpTo, List.take_of_length_le (by omega)]
    have hends := search_ends hs' choice
    rw [hn] at hends
    cases hends with
    | found hrun hpop hopen hgoal =>
      have hgood := hdom.pop_good hrun.searched (hrun.dominated hdom) hpop hopen
        (Nat.le_refl (cells.length - 1)) (hgoal.trans hlast.symm)
      rw [← hall]
      exact hgood.2

end Search

/-! ## A path that is not the cheapest -/

section Detour

/-- Two rows of cells: the straight way from (0, 1) to (3, 1) leads through a cell
of cost 73, the way round it through the row below turns three times. -/
def detourMap : Costmap where
  sizeX := 4
  sizeY := 2
  getCost := fun c => if c = ⟨1, 1⟩ then 73 else if c = ⟨2, 0⟩ ∨ c = ⟨3, 0⟩ then 254 else 0
  cells_lt := by decide

noncomputable def detour : Query ℝ := exactQuery detourMap ⟨0, 1⟩ ⟨3, 1⟩

/-- The cells of the way round, one after another. -/
noncomputable def detour0 : AStarNode ℝ := startNode detour
noncomputable def detour1 : AStarNode ℝ := detour0.child detour ⟨0, 0⟩
noncomputable def detour2 : AStarNode ℝ := detour1.child detour ⟨1, 0⟩
noncomputable def detour3 : AStarNode ℝ := detour2.child detour ⟨2, 1⟩
noncomputable def detour4 : AStarNode ℝ := detour3.child detour ⟨3, 1⟩

theorem detour_free {c : Cell} (h : detourMap.getCost c = 0) : stepCost detourMap c = 1 := by
  rw [stepCost, h]
  norm_num

/-- The expensive cell adds between 7 and 10. -/
theorem detour_dear : 8 < stepCost detourMap ⟨1, 1⟩ ∧ stepCost detourMap ⟨1, 1⟩ < 11 := by
  have hcost : (detourMap.getCost ⟨1, 1⟩).toNat = 73 := by decide
  rw [stepCost, hcost]
  norm_num

theorem detour_gCost : detour0.gCost = 0 ∧ detour1.gCost = 1 ∧ detour2.gCost = 5 ∧
    detour3.gCost = 9 ∧ detour4.gCost = 13 := by
  have h0 : detour0.gCost = 0 := by
    show ((0 : ℤ) : ℝ) = 0
    norm_num
  have hturn : turnPenalty detour0 ⟨0, 0⟩ = 0 := by
    show ((0 : ℤ) : ℝ) = 0
    norm_num
  have h1 : detour1.gCost = 1 := by
    rw [detour1, detour, child_gCost, h0, detour_free (by decide), hturn]
    norm_num
  have h2 : detour2.gCost = 5 := by
    rw [detour2, detour, child_gCost, h1, detour_free (by decide),
      turnPenalty_eq (m := detourMap) (p := detour0) rfl (by decide) (by decide) (by decide),
      if_pos (by decide)]
    norm_num
  have h3 : detour3.gCost = 9 := by
    rw [detour3, detour, child_gCost, h2, detour_free (by decide),
      turnPenalty_eq (m := detourMap) (p := detour1) rfl (by decide) (by decide) (by decide),
      if_pos (by decide)]
    norm_num
  have h4 : detour4.gCost = 13 := by
    rw [detour4, detour, child_gCost, h3, detour_free (by decide),
      turnPenalty_eq (m := detourMap) (p := detour2) rfl (by decide) (by decide) (by decide),
      if_pos (by decide)]
    norm_num
  exact ⟨h0, h1, h2, h3, h4⟩

/-- What waits at the expensive cell is dearer than every cell of the way round. -/
theorem detour_turn_fCost : 10 < (detour0.child detour ⟨1, 1⟩).fCost ∧
    (detour0.child detour ⟨1, 1⟩).fCost < 13 ∧ 13 < (detour1.child detour ⟨1, 1⟩).fCost ∧
    13 < (detour2.child detour ⟨1, 1⟩).fCost ∧ 13 < (detour3.child detour ⟨1, 1⟩).fCost := by
  obtain ⟨h0, h1, h2, h3, -⟩ := detour_gCost
  obtain ⟨hlow, hup⟩ := detour_dear
  have hh : getHeuristic hypot ⟨1, 1⟩ ⟨3, 1⟩ = 2 := by
    rw [getHeuristic_eq, Real.sqrt_eq_iff_mul_self_eq_of_pos (by norm_num)]
    norm_num
  have hf : ∀ n : AStarNode ℝ, (n.child detour ⟨1, 1⟩).fCost =
      n.gCost + stepCost detourMap ⟨1, 1⟩ + turnPenalty n ⟨1, 1⟩ + 2 := by
    intro n
    have hg : (n.child detour ⟨1, 1⟩).gCost =
        n.gCost + stepCost detourMap ⟨1, 1⟩ + turnPenalty n ⟨1, 1⟩ := child_gCost n ⟨1, 1⟩
    show (n.child detour ⟨1, 1⟩).gCost + getHeuristic hypot ⟨1, 1⟩ ⟨3, 1⟩ = _
    rw [hg, hh]
  have hturn0 : turnPenalty detour0 ⟨1, 1⟩ = 0 := by
    show ((0 : ℤ) : ℝ) = 0
    norm_num
  have hturn1 : turnPenalty detour1 ⟨1, 1⟩ = 3 := by
    rw [turnPenalty_eq (m := detourMap) (p := detour0) rfl (by decide) (by decide) (by decide),
      if_pos (by decide)]
  have hturn2 : turnPenalty detour2 ⟨1, 1⟩ = 3 := by
    rw [turnPenalty_eq (m := detourMap) (p := detour1) rfl (by decide) (by decide) (by decide),
      if_pos (by decide)]
  have hturn3 : turnPenalty detour3 ⟨1, 1⟩ = 3 := by
    rw [turnPenalty_eq (m := detourMap) (p := detour2) rfl (by decide) (by decide) (by decide),
      if_pos (by decide)]
  rw [hf, hf, hf, hf, h0, h1, h2, h3, hturn0, hturn1, hturn2, hturn3]
  refine ⟨?_, ?_, ?_, ?_, ?_⟩ <;> linarith

theorem detour_fCost : detour1.fCost < 5 ∧ detour2.fCost < 8 ∧ detour3.fCost = 10 ∧
    detour4.fCost = 13 := by
  obtain ⟨-, h1, h2, h3, h4⟩ := detour_gCost
  have hf1 : detour1.fCost = detour1.gCost + getHeuristic hypot ⟨0, 0⟩ ⟨3, 1⟩ := rfl
  have hf2 : detour2.fCost = detour2.gCost + getHeuristic hypot ⟨1, 0⟩ ⟨3, 1⟩ := rfl
  have hf3 : detour3.fCost = detour3.gCost + getHeuristic hypot ⟨2, 1⟩ ⟨3, 1⟩ := rfl
  have hf4 : detour4.fCost = detour4.gCost + getHeuristic hypot ⟨3, 1⟩ ⟨3, 1⟩ := rfl
  have hh1 : getHeuristic hypot ⟨0, 0⟩ ⟨3, 1⟩ < 4 := by
    rw [getHeuristic_eq, Real.sqrt_lt' (by norm_num)]
    norm_num
  have hh2 : getHeuristic hypot ⟨1, 0⟩ ⟨3, 1⟩ < 3 := by
    rw [getHeuristic_eq, Real.sqrt_lt' (by norm_num)]
    norm_num
  have hh3 : getHeuristic hypot ⟨2, 1⟩ ⟨3, 1⟩ = 1 := by
    rw [getHeuristic_eq, Real.sqrt_eq_iff_mul_self_eq_of_pos (by norm_num)]
    norm_num
  have hh4 : getHeuristic hypot ⟨3, 1⟩ ⟨3, 1⟩ = 0 := by
    rw [getHeuristic_eq, Real.sqrt_eq_zero (by norm_num)]
    norm_num
  refine ⟨by linarith, by linarith, by linarith, by linarith⟩

/-- Six pops, each of them forced. -/
theorem detour_search (choice : ℕ → ℕ) : search detour choice = some detour4 := by
  obtain ⟨hf1, hf2, hf3, hf4⟩ := detour_fCost
  obtain ⟨hlow, hup, he1, he2, he3⟩ := detour_turn_fCost
  have hloop : searchLoop detour choice 50 (SearchState.init detour) = some (some detour4) := by
    rw [searchLoop_expand choice 49 (n := detour0) (a := []) (b := []) rfl
      (fun m hm => absurd hm List.not_mem_nil) rfl (by decide)]
    rw [searchLoop_expand choice 48 (n := detour1) (a := [detour0.child detour ⟨1, 1⟩]) (b := [])
      rfl (by simp; linarith) rfl (by decide)]
    rw [searchLoop_expand choice 47 (n := detour2) (a := [detour0.child detour ⟨1, 1⟩])
      (b := [detour1.child detour ⟨1, 1⟩]) rfl (by simp; constructor <;> linarith) rfl (by decide)]
    rw [searchLoop_expand choice 46 (n := detour3)
      (a := [detour0.child detour ⟨1, 1⟩, detour1.child detour ⟨1, 1⟩,
        detour2.child detour ⟨1, 1⟩])
      (b := []) rfl (by simp; refine ⟨?_, ?_, ?_⟩ <;> linarith) rfl (by decide)]
    -- the entry that came straight is now the least, but cannot reach (2, 1) any more
    rw [searchLoop_expand choice 45 (n := detour0.child detour ⟨1, 1⟩) (a := [])
      (b := [detour1.child detour ⟨1, 1⟩, detour2.child detour ⟨1, 1⟩, detour4,
        detour3.child detour ⟨1, 1⟩])
      rfl (by simp; refine ⟨?_, ?_, ?_, ?_⟩ <;> linarith) rfl (by decide)]
    exact searchLoop_found choice 44 (n := detour4)
      (a := [detour1.child detour ⟨1, 1⟩, detour2.child detour ⟨1, 1⟩])
      (b := [detour3.child detour ⟨1, 1⟩]) rfl (by simp; refine ⟨?_, ?_, ?_⟩ <;> linarith) rfl
      (by decide)
  rw [search]
  show (searchLoop detour choice 50 (SearchState.init detour)).getD none = _
  rw [hloop]
  rfl

theorem detour_cost : HexPath detourMap ⟨0, 1⟩ ⟨3, 1⟩ detour4.path ∧
    detour4.gCost = pathCost detourMap detour4.path ∧
    ∀ cells, HexPath detourMap ⟨0, 1⟩ ⟨3, 1⟩ cells → detour4.gCost ≤ turnedCost detourMap cells :=
  accepted_cost detourMap ⟨0, 1⟩ ⟨3, 1⟩ (by decide) (fun _ => 0) detour4 (detour_search _)

/-- The straight way costs less than the accepted `g_cost`. -/
theorem detour_not_least :
    ∃ n, search detour (fun _ => 0) = some n ∧
      ∃ cells, HexPath detourMap ⟨0, 1⟩ ⟨3, 1⟩ cells ∧ pathCost detourMap cells < n.gCost := by
  refine ⟨detour4, detour_search _, [⟨0, 1⟩, ⟨1, 1⟩, ⟨2, 1⟩, ⟨3, 1⟩], ⟨rfl, rfl, ?_⟩, ?_⟩
  · have hstep : ∀ x, x < 3 → detourMap.Enters ⟨x, 1⟩ ⟨x + 1, 1⟩ := by
      intro x hx
      refine ⟨⟨(1, 0), by simp [getHexNeighbors], by simp, by simp⟩, ?_⟩
      obtain rfl | rfl | rfl : x = 0 ∨ x = 1 ∨ x = 2 := by omega
      all_goals decide
    exact .cons_cons (hstep 0 (by omega)) (.cons_cons (hstep 1 (by omega))
      (.cons_cons (hstep 2 (by omega)) (.singleton _)))
  · obtain ⟨-, hup⟩ := detour_dear
    obtain ⟨-, -, -, -, h4⟩ := detour_gCost
    have hcost : pathCost detourMap [⟨0, 1⟩, ⟨1, 1⟩, ⟨2, 1⟩, ⟨3, 1⟩] =
        1 + 0 + (1 + 0 + stepCost detourMap ⟨1, 1⟩) := by
      simp only [pathCost, List.reverse_cons, List.reverse_nil, List.nil_append, List.cons_append,
        costBack]
      rw [if_neg (by decide), if_neg (by decide), detour_free (c := ⟨3, 1⟩) (by decide),
        detour_free (c := ⟨2, 1⟩) (by decide)]
    rw [hcost, h4]
    linarith

end Detour

end CustomPlanner
end RobotNav
