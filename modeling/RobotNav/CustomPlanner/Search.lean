/-
The search loop of `createPlan`.

The open list is a priority queue of which only the comparison is given: `top`
is some entry of least `f_cost`.  A stream of choices says which one at each pop,
so that what holds for every stream holds for every order of ties.  `hypot` is a
parameter, and the costs may be computed in any `Arith`.
-/
import RobotNav.Library.BestFirst
import RobotNav.CustomPlanner.Grid
import Mathlib.Data.List.MinMax

namespace RobotNav
namespace CustomPlanner

structure AStarNode (K : Type) where
  x : ℕ
  y : ℕ
  gCost : K
  hCost : K
  fCost : K
  parent : Option (AStarNode K)

variable {K : Type} [Arith K]

def AStarNode.create (c : Cell) (g h : K) (p : Option (AStarNode K)) : AStarNode K :=
  { x := c.x, y := c.y, gCost := g, hCost := h, fCost := g + h, parent := p }

namespace AStarNode

def cell (n : AStarNode K) : Cell := { x := n.x, y := n.y }

/-- The cells met by following the parent pointers, as in `reverse_path`. -/
def cells : AStarNode K → List Cell
  | ⟨x, y, _, _, _, none⟩ => [⟨x, y⟩]
  | ⟨x, y, _, _, _, some p⟩ => ⟨x, y⟩ :: cells p

/-- From the start to this node. -/
def path (n : AStarNode K) : List Cell := n.cells.reverse

end AStarNode

/-- What a call of the search is given. -/
structure Query (K : Type) where
  costmap : Costmap
  hypot : K → K → K
  start : Cell
  goal : Cell

variable (q : Query K)

def getHeuristic (hypot : K → K → K) (a b : Cell) : K :=
  hypot (lit a.x - lit b.x) (lit a.y - lit b.y)

def safetyPenalty (m : Costmap) (c : Cell) : K :=
  let normalizedCost : K := lit (m.getCost c).toNat / lit 254
  normalizedCost * normalizedCost * lit 100

/-- 3 when the step to `next` goes in another direction than the step before. -/
def turnPenalty (current : AStarNode K) (next : Cell) : K :=
  match current.parent with
  | none => lit 0
  | some p =>
    let oldDx := toInt current.x - toInt p.x
    let oldDy := toInt current.y - toInt p.y
    let newDx := toInt next.x - toInt current.x
    let newDy := toInt next.y - toInt current.y
    if oldDx ≠ newDx ∨ oldDy ≠ newDy then lit 3 else lit 0

/-- The node pushed for one direction, if it is. -/
def visit (closedList : List Bool) (current : AStarNode K) (dir : ℤ × ℤ) :
    Option (AStarNode K) :=
  let next := current.cell.move dir
  if q.costmap.isNodeValid next then
    if closedList.getD (q.costmap.index next) false then none
    else
      let gCost := current.gCost + lit 1 + safetyPenalty q.costmap next + turnPenalty current next
      let hCost := getHeuristic q.hypot next q.goal
      some (AStarNode.create next gCost hCost (some current))
  else none

def neighbours (closedList : List Bool) (current : AStarNode K) : List (AStarNode K) :=
  (getHexNeighbors current.y).filterMap (visit q closedList current)

/-! ## The priority queue -/

/-- `CompareNode` puts no other entry before this one. -/
def isTop (openList : List (AStarNode K)) (n : AStarNode K) : Bool :=
  openList.all fun m => decide (n.fCost ≤ m.fCost)

/-- The places of the entries that may be on top. -/
def tops (openList : List (AStarNode K)) : List ℕ :=
  (List.range openList.length).filter fun i => (openList[i]?).any (isTop openList)

/-- `top` and `pop`. -/
def popTop (choice : ℕ) (openList : List (AStarNode K)) :
    Option (AStarNode K × List (AStarNode K)) :=
  match (tops openList)[choice % (tops openList).length]? with
  | none => none
  | some i =>
    match openList[i]? with
    | none => none
    | some n => some (n, openList.eraseIdx i)

/-! ## The loop -/

structure SearchState (K : Type) where
  openList : List (AStarNode K)
  closedList : List Bool
  pops : ℕ

inductive Progress (K : Type) where
  /-- `open_list.empty()`. -/
  | exhausted
  | found (n : AStarNode K)
  | searching (s : SearchState K)

def startNode : AStarNode K :=
  AStarNode.create q.start (lit 0) (getHeuristic q.hypot q.start q.goal) none

def SearchState.init : SearchState K where
  openList := [startNode q]
  closedList := List.replicate (q.costmap.sizeX * q.costmap.sizeY) false
  pops := 0

def searchStep (choice : ℕ → ℕ) (s : SearchState K) : Progress K :=
  match popTop (choice s.pops) s.openList with
  | none => .exhausted
  | some (current, rest) =>
    let index := q.costmap.index current.cell
    if s.closedList.getD index false then
      .searching { s with openList := rest, pops := s.pops + 1 }
    else
      let closedList := s.closedList.set index true
      if current.x = q.goal.x ∧ current.y = q.goal.y then .found current
      else
        .searching
          { openList := rest ++ neighbours q closedList current
            closedList := closedList
            pops := s.pops + 1 }

/-- The loop, cut off after a number of pops; `none` when it was cut off. -/
def searchLoop (choice : ℕ → ℕ) : ℕ → SearchState K → Option (Option (AStarNode K))
  | 0, _ => none
  | fuel + 1, s =>
    match searchStep q choice s with
    | .exhausted => some none
    | .found n => some (some n)
    | .searching s' => searchLoop choice fuel s'

/-- More pops than the loop can make. -/
def popBound (m : Costmap) : ℕ := 6 * (m.sizeX * m.sizeY) + 2

/-- The goal node the loop accepts. -/
def search (choice : ℕ → ℕ) : Option (AStarNode K) :=
  (searchLoop q choice (popBound q.costmap) (SearchState.init q)).getD none

/-! ## The parts of the loop -/

variable {q}

@[simp] theorem create_cell (c : Cell) (g h : K) (p : Option (AStarNode K)) :
    (AStarNode.create c g h p).cell = c := rfl

theorem create_cells (c : Cell) (g h : K) (p : AStarNode K) :
    (AStarNode.create c g h (some p)).cells = c :: p.cells := by
  simp only [AStarNode.create, AStarNode.cells]

theorem isTop_iff {openList : List (AStarNode K)} {n : AStarNode K} :
    isTop openList n = true ↔ ∀ m ∈ openList, n.fCost ≤ m.fCost := by
  simp [isTop]

theorem mem_tops {openList : List (AStarNode K)} {i : ℕ} :
    i ∈ tops openList ↔ ∃ n, openList[i]? = some n ∧ ∀ m ∈ openList, n.fCost ≤ m.fCost := by
  rw [tops, List.mem_filter, List.mem_range]
  constructor
  · intro ⟨hi, hany⟩
    rw [List.getElem?_eq_getElem hi] at hany
    exact ⟨_, List.getElem?_eq_getElem hi, isTop_iff.mp hany⟩
  · intro ⟨n, hn, hle⟩
    obtain ⟨hi, -⟩ := List.getElem?_eq_some_iff.mp hn
    refine ⟨hi, ?_⟩
    rw [hn]
    exact isTop_iff.mpr hle

theorem tops_ne_nil {openList : List (AStarNode K)} (h : openList ≠ []) : tops openList ≠ [] := by
  obtain ⟨n, hn⟩ : ∃ n, n ∈ openList.argmin AStarNode.fCost := by
    cases hmin : openList.argmin AStarNode.fCost with
    | none => exact absurd (List.argmin_eq_none.mp hmin) h
    | some n => exact ⟨n, rfl⟩
  obtain ⟨i, hi⟩ := List.mem_iff_getElem?.mp (List.argmin_mem hn)
  have htop : i ∈ tops openList :=
    mem_tops.mpr ⟨n, hi, fun m hm => List.le_of_mem_argmin hm hn⟩
  exact List.ne_nil_of_mem htop

theorem popTop_eq_none {choice : ℕ} {openList : List (AStarNode K)}
    (h : popTop choice openList = none) : openList = [] := by
  by_contra hne
  have hlen : 0 < (tops openList).length := List.length_pos_of_ne_nil (tops_ne_nil hne)
  have hlt : choice % (tops openList).length < (tops openList).length := Nat.mod_lt _ hlen
  obtain ⟨n, hn, -⟩ := mem_tops.mp (List.getElem_mem hlt)
  unfold popTop at h
  rw [List.getElem?_eq_getElem hlt] at h
  simp only [hn] at h
  cases h

/-- Whatever the choice, some entry of least `f_cost` is taken out. -/
theorem popTop_eq_some {choice : ℕ} {openList rest : List (AStarNode K)} {n : AStarNode K}
    (h : popTop choice openList = some (n, rest)) :
    openList.Perm (n :: rest) ∧ ∀ m ∈ openList, n.fCost ≤ m.fCost := by
  unfold popTop at h
  cases hi : (tops openList)[choice % (tops openList).length]? with
  | none =>
    rw [hi] at h
    cases h
  | some i =>
    obtain ⟨n', hn', hle⟩ := mem_tops.mp (List.mem_of_getElem? hi)
    simp only [hi, hn', Option.some.injEq, Prod.mk.injEq] at h
    obtain ⟨rfl, rfl⟩ := h
    obtain ⟨hlt, hget⟩ := List.getElem?_eq_some_iff.mp hn'
    refine ⟨?_, hle⟩
    rw [← hget]
    exact (List.getElem_cons_eraseIdx_perm hlt).symm

/-- An entry of strictly least `f_cost` is the one taken out. -/
theorem popTop_unique (choice : ℕ) {a b : List (AStarNode K)} {n : AStarNode K}
    (hlt : ∀ m ∈ a ++ b, n.fCost < m.fCost) :
    popTop choice (a ++ n :: b) = some (n, a ++ b) := by
  have hn : (a ++ n :: b)[a.length]? = some n := by simp
  have hmid : ∀ i m, (a ++ n :: b)[i]? = some m → m.fCost ≤ n.fCost → i = a.length := by
    intro i m hi hle
    by_contra hne
    have hmem : m ∈ a ++ b := by
      have herase : (a ++ n :: b).eraseIdx a.length = a ++ b := by
        rw [List.eraseIdx_append_of_length_le (Nat.le_refl _), Nat.sub_self]
        rfl
      rw [← herase]
      exact List.mem_eraseIdx_iff_getElem?.mpr ⟨i, hne, hi⟩
    exact absurd hle (not_le.mpr (hlt m hmem))
  cases hpop : popTop choice (a ++ n :: b) with
  | none => exact absurd (popTop_eq_none hpop) (by simp)
  | some entry =>
    unfold popTop at hpop
    cases hi : (tops (a ++ n :: b))[choice % (tops (a ++ n :: b)).length]? with
    | none =>
      rw [hi] at hpop
      cases hpop
    | some i =>
      obtain ⟨m, hm, hle⟩ := mem_tops.mp (List.mem_of_getElem? hi)
      have hplace := hmid i m hm (hle n (by simp))
      rw [hplace] at hi
      simp only [hi, hn] at hpop
      rw [← Option.some.inj hpop, List.eraseIdx_append_of_length_le (Nat.le_refl _), Nat.sub_self]
      rfl

theorem visit_eq_filter (closedList : List Bool) (n : AStarNode K) (dir : ℤ × ℤ) :
    visit q closedList n dir =
      (visit q [] n dir).filter fun m => !closedList.getD (q.costmap.index m.cell) false := by
  unfold visit
  by_cases hvalid : q.costmap.isNodeValid (n.cell.move dir) = true
  · cases hclosed : closedList[q.costmap.index (n.cell.move dir)]?.getD false with
    | true => simp [hvalid, hclosed, Option.filter]
    | false => simp [hvalid, hclosed, Option.filter]
  · simp [hvalid]

/-- The entries left out are those at closed cells. -/
theorem neighbours_eq_filter (closedList : List Bool) (n : AStarNode K) :
    neighbours q closedList n =
      (neighbours q [] n).filter fun m => !closedList.getD (q.costmap.index m.cell) false := by
  unfold neighbours
  rw [List.filter_filterMap]
  refine List.filterMap_congr fun dir _ => ?_
  exact visit_eq_filter closedList n dir

/-- The entry made for a step to a valid cell. -/
def AStarNode.child (q : Query K) (n : AStarNode K) (c : Cell) : AStarNode K :=
  AStarNode.create c (n.gCost + lit 1 + safetyPenalty q.costmap c + turnPenalty n c)
    (getHeuristic q.hypot c q.goal) (some n)

theorem mem_neighbours {n m : AStarNode K} :
    m ∈ neighbours q [] n ↔ ∃ dir ∈ getHexNeighbors n.y,
      q.costmap.isNodeValid (n.cell.move dir) = true ∧ m = n.child q (n.cell.move dir) := by
  rw [neighbours, List.mem_filterMap]
  constructor
  · intro ⟨dir, hdir, hvisit⟩
    by_cases hvalid : q.costmap.isNodeValid (n.cell.move dir) = true
    · refine ⟨dir, hdir, hvalid, ?_⟩
      simp only [visit, hvalid, if_true, List.getD_nil, Bool.false_eq_true, if_false,
        Option.some.injEq] at hvisit
      exact hvisit.symm
    · simp [visit, hvalid] at hvisit
  · rintro ⟨dir, hdir, hvalid, rfl⟩
    refine ⟨dir, hdir, ?_⟩
    simp [visit, hvalid, AStarNode.child]

theorem neighbours_length (closedList : List Bool) (n : AStarNode K) :
    (neighbours q closedList n).length ≤ 6 := by
  rw [← getHexNeighbors_length n.y]
  exact List.length_filterMap_le _ _

/-! ## Turns of the loop -/

/-- A strictly least entry at an open cell that is not the goal is expanded. -/
theorem searchLoop_expand (choice : ℕ → ℕ) (fuel : ℕ) {s : SearchState K}
    {a b : List (AStarNode K)} {n : AStarNode K} (hopen : s.openList = a ++ n :: b)
    (hlt : ∀ m ∈ a ++ b, n.fCost < m.fCost)
    (hbit : s.closedList.getD (q.costmap.index n.cell) false = false)
    (hgoal : ¬ (n.x = q.goal.x ∧ n.y = q.goal.y)) :
    searchLoop q choice (fuel + 1) s = searchLoop q choice fuel
      { openList := a ++ b ++
          neighbours q (s.closedList.set (q.costmap.index n.cell) true) n
        closedList := s.closedList.set (q.costmap.index n.cell) true
        pops := s.pops + 1 } := by
  rw [searchLoop, searchStep, hopen, popTop_unique (choice s.pops) hlt]
  simp only [hbit, Bool.false_eq_true, if_false, if_neg hgoal]

theorem searchLoop_found (choice : ℕ → ℕ) (fuel : ℕ) {s : SearchState K}
    {a b : List (AStarNode K)} {n : AStarNode K} (hopen : s.openList = a ++ n :: b)
    (hlt : ∀ m ∈ a ++ b, n.fCost < m.fCost)
    (hbit : s.closedList.getD (q.costmap.index n.cell) false = false)
    (hgoal : n.x = q.goal.x ∧ n.y = q.goal.y) :
    searchLoop q choice (fuel + 1) s = some (some n) := by
  rw [searchLoop, searchStep, hopen, popTop_unique (choice s.pops) hlt]
  simp only [hbit, Bool.false_eq_true, if_false, if_pos hgoal]

end CustomPlanner
end RobotNav
