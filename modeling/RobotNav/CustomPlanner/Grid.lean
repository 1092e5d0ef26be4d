/-
The cells of the costmap and the steps the planner takes between them.

Coordinates are `unsigned int` in the source: a step off the left or the lower
border wraps round to a number no costmap has.  The costmap itself is nav2's;
what the planner reads of it is its size and its costs.
-/
import RobotNav.Library.Arith
import Mathlib.Data.List.Chain
import Mathlib.Tactic.Linarith

namespace RobotNav
namespace CustomPlanner

structure Cell where
  x : ℕ
  y : ℕ
  deriving DecidableEq, Repr

def Cell.toPoint (c : Cell) : ℤ × ℤ := (c.x, c.y)

theorem Cell.toPoint_inj {a b : Cell} (h : a.toPoint = b.toPoint) : a = b := by
  have hx : (a.x : ℤ) = b.x := congrArg Prod.fst h
  have hy : (a.y : ℤ) = b.y := congrArg Prod.snd h
  cases a
  cases b
  simp only at hx hy
  congr 1 <;> omega

structure Costmap where
  sizeX : ℕ
  sizeY : ℕ
  getCost : Cell → UInt8
  /-- Cells are indexed by an `int`. -/
  cells_lt : sizeX * sizeY < 2 ^ 31

def noInformation : UInt8 := 255

/-- Conversions between `int` and `unsigned int`. -/
def toUnsigned (i : ℤ) : ℕ := (i % 2 ^ 32).toNat

def toInt (n : ℕ) : ℤ := if n < 2 ^ 31 then n else n - 2 ^ 32

namespace Costmap

variable (m : Costmap)

def InMap (c : Cell) : Prop := c.x < m.sizeX ∧ c.y < m.sizeY

instance (c : Cell) : Decidable (m.InMap c) := inferInstanceAs (Decidable (_ ∧ _))

/-- The cost of a cell, tested against a bound, for `isNodeValid` and
`isSightValid`. -/
def costBelow (bound : UInt8) (c : Cell) : Bool :=
  if m.sizeX ≤ c.x ∨ m.sizeY ≤ c.y then false
  else decide (m.getCost c < bound) && decide (m.getCost c ≠ noInformation)

def isNodeValid (c : Cell) : Bool := m.costBelow 253 c

def isSightValid (c : Cell) : Bool := m.costBelow 180 c

/-- The index of a cell in `closed_list`. -/
def index (c : Cell) : ℕ := (c.y * m.sizeX + c.x) % 2 ^ 32

end Costmap

def getHexNeighbors (y : ℕ) : List (ℤ × ℤ) :=
  if y % 2 = 0 then [(1, 0), (0, 1), (-1, 0), (0, -1), (1, 1), (1, -1)]
  else [(1, 0), (0, 1), (-1, 0), (0, -1), (-1, 1), (-1, -1)]

/-- The cell one step on, in `unsigned int` arithmetic. -/
def Cell.move (c : Cell) (dir : ℤ × ℤ) : Cell :=
  { x := toUnsigned (c.x + dir.1), y := toUnsigned (c.y + dir.2) }

/-! ## Hex neighbours -/

/-- `b` is a neighbour of `a` by the table of `a`'s row. -/
def Neighbour (a b : Cell) : Prop :=
  ∃ dir ∈ getHexNeighbors a.y, (b.x : ℤ) = a.x + dir.1 ∧ (b.y : ℤ) = a.y + dir.2

/-- A step of the search: to a neighbour that `isNodeValid` accepts. -/
def Costmap.Enters (m : Costmap) (a b : Cell) : Prop := Neighbour a b ∧ m.isNodeValid b = true

/-- A sequence of cells from `start` to `goal` along steps of the search. -/
structure HexPath (m : Costmap) (start goal : Cell) (cells : List Cell) : Prop where
  first : cells.head? = some start
  last : cells.getLast? = some goal
  steps : cells.IsChain m.Enters

theorem HexPath.step {m : Costmap} {start goal a b : Cell} {cells : List Cell}
    (h : HexPath m start goal cells) {i : ℕ} (ha : cells[i]? = some a)
    (hb : cells[i + 1]? = some b) : m.Enters a b := by
  obtain ⟨hi, rfl⟩ := List.getElem?_eq_some_iff.mp ha
  obtain ⟨hi', rfl⟩ := List.getElem?_eq_some_iff.mp hb
  exact h.steps.getElem i hi'

/-- Only the first cell of a path may be one the search would not enter. -/
theorem HexPath.mem_cases {m : Costmap} {start goal c : Cell} {cells : List Cell}
    (h : HexPath m start goal cells) (hc : c ∈ cells) :
    c = start ∨ m.isNodeValid c = true := by
  obtain ⟨i, hi⟩ := List.mem_iff_getElem?.mp hc
  cases i with
  | zero =>
    left
    have hfirst := h.first
    rw [List.head?_eq_getElem?, hi] at hfirst
    exact Option.some.inj hfirst
  | succ i =>
    right
    obtain ⟨hlt, -⟩ := List.getElem?_eq_some_iff.mp hi
    have hprev : cells[i]? = some cells[i] := List.getElem?_eq_getElem (by omega)
    exact (h.step hprev hi).2

theorem getHexNeighbors_length (y : ℕ) : (getHexNeighbors y).length = 6 := by
  rw [getHexNeighbors]
  split <;> rfl

theorem getHexNeighbors_bound {y : ℕ} {dir : ℤ × ℤ} (h : dir ∈ getHexNeighbors y) :
    -1 ≤ dir.1 ∧ dir.1 ≤ 1 ∧ -1 ≤ dir.2 ∧ dir.2 ≤ 1 := by
  unfold getHexNeighbors at h
  split at h <;>
  · simp only [List.mem_cons, List.not_mem_nil, or_false] at h
    rcases h with rfl | rfl | rfl | rfl | rfl | rfl <;> decide

theorem toUnsigned_of_nonneg {i : ℤ} (h0 : 0 ≤ i) (h1 : i < 2 ^ 32) : (toUnsigned i : ℤ) = i := by
  rw [toUnsigned]
  omega

/-- A step below zero wraps past every coordinate of a map. -/
theorem toUnsigned_of_neg {i : ℤ} (h0 : i < 0) (h1 : -1 ≤ i) : toUnsigned i = 2 ^ 32 - 1 := by
  rw [toUnsigned]
  omega

theorem toInt_of_lt {n : ℕ} (h : n < 2 ^ 31) : toInt n = n := if_pos h

namespace Costmap

variable {m : Costmap}

theorem costBelow_iff {bound : UInt8} {c : Cell} :
    m.costBelow bound c = true ↔
      m.InMap c ∧ m.getCost c < bound ∧ m.getCost c ≠ noInformation := by
  unfold costBelow InMap
  by_cases hout : m.sizeX ≤ c.x ∨ m.sizeY ≤ c.y
  · rw [if_pos hout]
    constructor
    · intro h
      cases h
    · intro ⟨hin, _⟩
      omega
  · rw [if_neg hout]
    rw [Bool.and_eq_true, decide_eq_true_eq, decide_eq_true_eq]
    constructor
    · intro h
      exact ⟨by omega, h⟩
    · exact fun h => h.2

theorem isNodeValid_inMap {c : Cell} (h : m.isNodeValid c = true) : m.InMap c :=
  (costBelow_iff.mp h).1

/-- What the line of sight accepts, the search accepts. -/
theorem isNodeValid_of_isSightValid {c : Cell} (h : m.isSightValid c = true) :
    m.isNodeValid c = true := by
  obtain ⟨hin, hlt, hinfo⟩ := costBelow_iff.mp h
  refine costBelow_iff.mpr ⟨hin, ?_, hinfo⟩
  rw [UInt8.lt_iff_toNat_lt] at hlt ⊢
  exact Nat.lt_trans hlt (by decide)

/-- Both sides of a map with a cell fit into an `int`. -/
theorem InMap.bounds {c : Cell} (h : m.InMap c) : m.sizeX < 2 ^ 31 ∧ m.sizeY < 2 ^ 31 := by
  have hcells := m.cells_lt
  obtain ⟨hx, hy⟩ := h
  constructor
  · have hle : m.sizeX * 1 ≤ m.sizeX * m.sizeY := Nat.mul_le_mul_left _ (by omega)
    omega
  · have hle : 1 * m.sizeY ≤ m.sizeX * m.sizeY := Nat.mul_le_mul_right _ (by omega)
    omega

theorem InMap.row {c : Cell} (h : m.InMap c) :
    c.y * m.sizeX + m.sizeX ≤ m.sizeX * m.sizeY := by
  have hle : (c.y + 1) * m.sizeX ≤ m.sizeY * m.sizeX := Nat.mul_le_mul_right _ h.2
  have hcomm : m.sizeY * m.sizeX = m.sizeX * m.sizeY := Nat.mul_comm _ _
  have hsucc : (c.y + 1) * m.sizeX = c.y * m.sizeX + m.sizeX := Nat.succ_mul _ _
  omega

theorem index_eq {c : Cell} (h : m.InMap c) : m.index c = c.y * m.sizeX + c.x := by
  have hrow := h.row
  have hcells := m.cells_lt
  have hx := h.1
  rw [index]
  omega

theorem index_lt {c : Cell} (h : m.InMap c) : m.index c < m.sizeX * m.sizeY := by
  have hrow := h.row
  have hx := h.1
  rw [index_eq h]
  omega

/-- Different cells of the map have different places in `closed_list`. -/
theorem index_inj {a b : Cell} (ha : m.InMap a) (hb : m.InMap b)
    (h : m.index a = m.index b) : a = b := by
  rw [index_eq ha, index_eq hb] at h
  have hax := ha.1
  have hbx := hb.1
  have hmod : ∀ c : Cell, c.x < m.sizeX → (c.y * m.sizeX + c.x) % m.sizeX = c.x := by
    intro c hc
    rw [Nat.mul_comm, Nat.mul_add_mod, Nat.mod_eq_of_lt hc]
  have hx : a.x = b.x := by
    rw [← hmod a hax, ← hmod b hbx, h]
  have hmul : a.y * m.sizeX = b.y * m.sizeX := by omega
  have hy : a.y = b.y := Nat.eq_of_mul_eq_mul_right (by omega) hmul
  cases a
  cases b
  simp_all

/-- Wrapping round never enters the map: the valid moves are the steps to valid
neighbours. -/
theorem move_valid_iff {a b : Cell} (ha : m.InMap a) :
    (∃ dir ∈ getHexNeighbors a.y, a.move dir = b ∧ m.isNodeValid b = true) ↔ m.Enters a b := by
  have hbounds := ha.bounds
  obtain ⟨hax, hay⟩ := ha
  constructor
  · intro ⟨dir, hdir, hmove, hvalid⟩
    refine ⟨⟨dir, hdir, ?_⟩, hvalid⟩
    obtain ⟨hin, -⟩ := costBelow_iff.mp hvalid
    obtain ⟨hbx, hby⟩ := hin
    have hd := getHexNeighbors_bound hdir
    have hx : toUnsigned (a.x + dir.1) = b.x := congrArg Cell.x hmove
    have hy : toUnsigned (a.y + dir.2) = b.y := congrArg Cell.y hmove
    constructor
    · by_cases hneg : (a.x : ℤ) + dir.1 < 0
      · rw [toUnsigned_of_neg hneg (by omega)] at hx
        omega
      · rw [← hx, toUnsigned_of_nonneg (by omega) (by omega)]
    · by_cases hneg : (a.y : ℤ) + dir.2 < 0
      · rw [toUnsigned_of_neg hneg (by omega)] at hy
        omega
      · rw [← hy, toUnsigned_of_nonneg (by omega) (by omega)]
  · intro ⟨⟨dir, hdir, hx, hy⟩, hvalid⟩
    obtain ⟨hin, -⟩ := costBelow_iff.mp hvalid
    obtain ⟨hbx, hby⟩ := hin
    refine ⟨dir, hdir, ?_, hvalid⟩
    have hmx : (toUnsigned (a.x + dir.1) : ℤ) = b.x := by
      rw [← hx, toUnsigned_of_nonneg (by omega) (by omega)]
    have hmy : (toUnsigned (a.y + dir.2) : ℤ) = b.y := by
      rw [← hy, toUnsigned_of_nonneg (by omega) (by omega)]
    cases b
    rw [Cell.move]
    simp only at hmx hmy ⊢
    congr 1 <;> omega

end Costmap

end CustomPlanner
end RobotNav
