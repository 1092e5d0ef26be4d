/-
The loop of `createPlan` is a best-first search over the cells.

`closed_list` holds one bit per cell, and `expand` looks the bits up before it
pushes; both agree with the set of cells closed so far.  Termination, the cells
reached and the parent chains are then those of the library.
-/
import RobotNav.CustomPlanner.Search
import Mathlib.Data.Finset.Prod

namespace RobotNav
namespace CustomPlanner

variable {K : Type} [Arith K]

def problem (q : Query K) : BestFirst (AStarNode K) Cell K where
  vertex := AStarNode.cell
  key := AStarNode.fCost
  expand := neighbours q []
  start := startNode q
  goal := fun c => c = q.goal

variable {q : Query K}

/-! ## Generated nodes -/

theorem child_enters {n m : AStarNode K} (hn : q.costmap.InMap n.cell)
    (hm : m ∈ neighbours q [] n) : m = n.child q m.cell ∧ q.costmap.Enters n.cell m.cell := by
  obtain ⟨dir, hdir, hvalid, rfl⟩ := mem_neighbours.mp hm
  exact ⟨rfl, (Costmap.move_valid_iff hn).mp ⟨dir, hdir, rfl, hvalid⟩⟩

theorem child_mem {n : AStarNode K} (hn : q.costmap.InMap n.cell) {c : Cell}
    (hc : q.costmap.Enters n.cell c) : n.child q c ∈ neighbours q [] n := by
  obtain ⟨dir, hdir, hmove, hvalid⟩ := (Costmap.move_valid_iff hn).mpr hc
  refine mem_neighbours.mpr ⟨dir, hdir, ?_, ?_⟩
  · rw [hmove]
    exact hvalid
  · rw [hmove]

theorem generated_inMap (hs : q.costmap.InMap q.start) {n : AStarNode K}
    (h : (problem q).Generated n) : q.costmap.InMap n.cell := by
  induction h with
  | start => exact hs
  | expand _ hm ih => exact Costmap.isNodeValid_inMap (child_enters ih hm).2.2

theorem cells_lines : (problem q).Lines AStarNode.cells where
  start := by simp [problem, startNode, AStarNode.create, AStarNode.cells, AStarNode.cell]
  expand := fun n m hm => by
    obtain ⟨dir, -, -, rfl⟩ := mem_neighbours.mp hm
    exact create_cells _ _ _ n

/-- The parent pointers of a node lead back to the start along steps of the
search. -/
theorem generated_hexPath (hs : q.costmap.InMap q.start) {n : AStarNode K}
    (h : (problem q).Generated n) : HexPath q.costmap q.start n.cell n.path := by
  induction h with
  | start =>
    have hcells : (problem q).start.path = [q.start] := by
      rw [AStarNode.path, cells_lines.start]
      rfl
    rw [hcells]
    exact ⟨rfl, rfl, List.isChain_singleton _⟩
  | @expand n m hn hm ih =>
    have hpath : m.path = n.path ++ [m.cell] := by
      rw [AStarNode.path, cells_lines.expand n m hm, List.reverse_cons]
      rfl
    rw [hpath]
    refine ⟨?_, List.getLast?_concat, ?_⟩
    · rw [List.head?_append, ih.first]
      rfl
    · rw [List.isChain_append]
      refine ⟨ih.steps, List.isChain_singleton _, ?_⟩
      intro a ha b hb
      have hlast : a = n.cell := by
        have hlast' := ih.last
        rw [Option.mem_def, hlast'] at ha
        exact (Option.some.inj ha).symm
      have hb' : m.cell = b := Option.some.inj hb
      rw [hlast, ← hb']
      exact (child_enters (generated_inMap hs hn) hm).2

/-! ## The closed cells -/

/-- The state of the loop and that of the library's search. -/
structure Simulates (q : Query K) (s : SearchState K) (b : BestFirst.State (AStarNode K)) :
    Prop where
  opened : b.opened = s.openList
  length : s.closedList.length = q.costmap.sizeX * q.costmap.sizeY
  closed : ∀ c, q.costmap.InMap c →
    (s.closedList.getD (q.costmap.index c) false = true ↔ (problem q).Closed b.expanded c)

theorem init_simulates : Simulates q (SearchState.init q) (problem q).initial := by
  refine ⟨rfl, List.length_replicate, fun c hc => ?_⟩
  have hfalse : (List.replicate (q.costmap.sizeX * q.costmap.sizeY) false).getD
      (q.costmap.index c) false = false := by
    rw [List.getD_eq_getElem?_getD, List.getElem?_replicate]
    split <;> rfl
  constructor
  · intro h
    have hbit : (List.replicate (q.costmap.sizeX * q.costmap.sizeY) false).getD
      (q.costmap.index c) false = true := h
    rw [hfalse] at hbit
    cases hbit
  · intro ⟨n, hn, _⟩
    exact absurd hn List.not_mem_nil

omit [Arith K] in
/-- Setting the bit of a cell closes that cell and no other. -/
theorem set_closed {closedList : List Bool} {c d : Cell}
    (hlen : closedList.length = q.costmap.sizeX * q.costmap.sizeY) (hc : q.costmap.InMap c)
    (hd : q.costmap.InMap d) :
    (closedList.set (q.costmap.index c) true).getD (q.costmap.index d) false = true ↔
      closedList.getD (q.costmap.index d) false = true ∨ c = d := by
  have hlt : q.costmap.index c < closedList.length := by
    rw [hlen]
    exact Costmap.index_lt hc
  rw [List.getD_eq_getElem?_getD, List.getD_eq_getElem?_getD, List.getElem?_set]
  by_cases heq : q.costmap.index c = q.costmap.index d
  · have hcd : c = d := Costmap.index_inj hc hd heq
    simp [hcd, ← heq, hlt]
  · have hne : c ≠ d := fun h => heq (by rw [h])
    simp [heq, hne]

theorem closed_snoc {expanded : List (AStarNode K)} {n : AStarNode K} {c : Cell} :
    (problem q).Closed (expanded ++ [n]) c ↔ (problem q).Closed expanded c ∨ n.cell = c := by
  constructor
  · intro ⟨m, hm, hmc⟩
    rcases List.mem_append.mp hm with hold | hnew
    · exact .inl ⟨m, hold, hmc⟩
    · rw [List.mem_singleton.mp hnew] at hmc
      exact .inr hmc
  · rintro (h | rfl)
    · exact h.append n
    · exact BestFirst.closed_self expanded n

/-- What the loop pushes is what the search may push. -/
theorem neighbours_pushes (hs : q.costmap.InMap q.start) {b : BestFirst.State (AStarNode K)}
    {n : AStarNode K} (hn : (problem q).Generated n) {closedList : List Bool}
    (hclosed : ∀ c, q.costmap.InMap c → (closedList.getD (q.costmap.index c) false = true ↔
      (problem q).Closed (b.expanded ++ [n]) c)) :
    (problem q).Pushes b n (neighbours q closedList n) := by
  rw [neighbours_eq_filter]
  constructor
  · exact List.filter_sublist
  · intro m hm
    have hin : q.costmap.InMap m.cell := generated_inMap hs (hn.expand hm)
    by_cases hbit : closedList.getD (q.costmap.index m.cell) false = true
    · exact .inr ((hclosed m.cell hin).mp hbit)
    · refine .inl (List.mem_filter.mpr ⟨hm, ?_⟩)
      rw [Bool.not_eq_true] at hbit
      rw [hbit]
      rfl

/-! ## The loop -/

theorem popTop_pop {s : SearchState K} {b : BestFirst.State (AStarNode K)}
    (h : Simulates q s b) {choice : ℕ} {n : AStarNode K} {rest : List (AStarNode K)}
    (hpop : popTop choice s.openList = some (n, rest)) : (problem q).Pop b n rest := by
  obtain ⟨hperm, hleast⟩ := popTop_eq_some hpop
  rw [← h.opened] at hperm hleast
  exact ⟨hperm, hleast⟩

/-- Closing the cell of a popped node is an expansion of the search. -/
theorem expand_simulates (hs : q.costmap.InMap q.start) {s : SearchState K}
    {b : BestFirst.State (AStarNode K)} (h : Simulates q s b) (hb : (problem q).Searched b)
    {n : AStarNode K} {rest : List (AStarNode K)} (hpop : (problem q).Pop b n rest)
    (hbit : ¬ s.closedList.getD (q.costmap.index n.cell) false = true)
    (hgoal : ¬ n.cell = q.goal) (pops : ℕ) :
    (problem q).Step b
        ⟨rest ++ neighbours q (s.closedList.set (q.costmap.index n.cell) true) n,
          b.expanded ++ [n]⟩ ∧
      Simulates q
        ⟨rest ++ neighbours q (s.closedList.set (q.costmap.index n.cell) true) n,
          s.closedList.set (q.costmap.index n.cell) true, pops⟩
        ⟨rest ++ neighbours q (s.closedList.set (q.costmap.index n.cell) true) n,
          b.expanded ++ [n]⟩ := by
  have hgen := hb.opened n hpop.mem
  have hin := generated_inMap hs hgen
  have hopen : ¬ (problem q).Closed b.expanded n.cell := fun hc =>
    hbit ((h.closed n.cell hin).mpr hc)
  have hclosed : ∀ c, q.costmap.InMap c →
      ((s.closedList.set (q.costmap.index n.cell) true).getD (q.costmap.index c) false =
        true ↔ (problem q).Closed (b.expanded ++ [n]) c) := by
    intro c hc
    rw [set_closed h.length hin hc, h.closed c hc, closed_snoc]
  refine ⟨BestFirst.Step.expand hpop hopen hgoal (neighbours_pushes hs hgen hclosed)
    (List.Perm.refl _), rfl, ?_, hclosed⟩
  rw [List.length_set]
  exact h.length

/-- A turn that expands a cell is a step of the search. -/
theorem searchStep_expands (hs : q.costmap.InMap q.start) {choice : ℕ → ℕ}
    {s : SearchState K} {b : BestFirst.State (AStarNode K)} (h : Simulates q s b)
    (hb : (problem q).Searched b) {n : AStarNode K} {rest : List (AStarNode K)}
    (hpop : popTop (choice s.pops) s.openList = some (n, rest))
    (hbit : ¬ s.closedList.getD (q.costmap.index n.cell) false = true)
    (hgoal : ¬ n.cell = q.goal) :
    ∃ s' b', searchStep q choice s = .searching s' ∧ (problem q).Step b b' ∧
      Simulates q s' b' := by
  have hxy : ¬ (n.x = q.goal.x ∧ n.y = q.goal.y) := by
    intro heq
    apply hgoal
    rw [AStarNode.cell, heq.1, heq.2]
  have hstep : searchStep q choice s = .searching
      { openList := rest ++ neighbours q (s.closedList.set (q.costmap.index n.cell) true) n
        closedList := s.closedList.set (q.costmap.index n.cell) true
        pops := s.pops + 1 } := by
    simp only [searchStep, hpop, hbit, if_false, if_neg hxy, Bool.false_eq_true]
  exact ⟨_, _, hstep, expand_simulates hs h hb (popTop_pop h hpop) hbit hgoal (s.pops + 1)⟩

/-- One turn of the loop: it ends with nothing left, accepts the goal, or makes
a step of the search. -/
theorem searchStep_simulates (hs : q.costmap.InMap q.start) (choice : ℕ → ℕ)
    {s : SearchState K} {b : BestFirst.State (AStarNode K)} (h : Simulates q s b)
    (hb : (problem q).Searched b) :
    (searchStep q choice s = .exhausted ∧ b.opened = []) ∨
    (∃ n rest, searchStep q choice s = .found n ∧ (problem q).Pop b n rest ∧
      ¬ (problem q).Closed b.expanded n.cell ∧ n.cell = q.goal) ∨
    (∃ s' b', searchStep q choice s = .searching s' ∧ (problem q).Step b b' ∧
      Simulates q s' b') := by
  cases hpop : popTop (choice s.pops) s.openList with
  | none =>
    left
    constructor
    · simp only [searchStep, hpop]
    · rw [h.opened]
      exact popTop_eq_none hpop
  | some entry =>
    obtain ⟨n, rest⟩ := entry
    right
    have hpop' := popTop_pop h hpop
    have hin := generated_inMap hs (hb.opened n hpop'.mem)
    by_cases hbit : s.closedList.getD (q.costmap.index n.cell) false = true
    · right
      have hclosed := (h.closed n.cell hin).mp hbit
      refine ⟨{ s with openList := rest, pops := s.pops + 1 }, ⟨rest, b.expanded⟩, ?_,
        BestFirst.Step.skip hpop' hclosed, ⟨rfl, h.length, h.closed⟩⟩
      simp only [searchStep, hpop, hbit, if_true]
    · by_cases hgoal : n.cell = q.goal
      · left
        have hopen : ¬ (problem q).Closed b.expanded n.cell := fun hc =>
          hbit ((h.closed n.cell hin).mpr hc)
        have hxy : n.x = q.goal.x ∧ n.y = q.goal.y := by
          rw [← hgoal]
          exact ⟨rfl, rfl⟩
        refine ⟨n, rest, ?_, hpop', hopen, hgoal⟩
        simp only [searchStep, hpop, hbit, if_false, if_pos hxy, Bool.false_eq_true]
      · right
        exact searchStep_expands hs h hb hpop hbit hgoal

/-- The cells of the map, as many as `closed_list` has bits. -/
def mapCells (m : Costmap) : Finset Cell :=
  (Finset.range m.sizeX ×ˢ Finset.range m.sizeY).image fun p => ⟨p.1, p.2⟩

omit [Arith K] in
theorem mem_mapCells {m : Costmap} {c : Cell} (h : m.InMap c) : c ∈ mapCells m :=
  Finset.mem_image.mpr ⟨(c.x, c.y),
    Finset.mem_product.mpr ⟨Finset.mem_range.mpr h.1, Finset.mem_range.mpr h.2⟩, rfl⟩

omit [Arith K] in
theorem mapCells_card (m : Costmap) : (mapCells m).card ≤ m.sizeX * m.sizeY := by
  refine Nat.le_trans Finset.card_image_le ?_
  rw [Finset.card_product, Finset.card_range, Finset.card_range]

/-- No more pops than entries were ever pushed: the start, and six for each cell. -/
theorem run_pops_le (hs : q.costmap.InMap q.start) {k : ℕ}
    {b : BestFirst.State (AStarNode K)} (h : (problem q).Run k b) :
    k + b.opened.length ≤ 1 + 6 * (q.costmap.sizeX * q.costmap.sizeY) := by
  have hcount := h.count (d := 6) fun n _ => neighbours_length [] n
  have hcells : b.expanded.length ≤ q.costmap.sizeX * q.costmap.sizeY :=
    Nat.le_trans (h.expanded_length_le fun n hn => mem_mapCells (generated_inMap hs hn))
      (mapCells_card q.costmap)
  omega

/-- How the loop ends: with the goal taken from the open list at an open cell,
or with an empty open list. -/
inductive Ends (q : Query K) : Option (AStarNode K) → Prop where
  | found {k : ℕ} {b : BestFirst.State (AStarNode K)} {n : AStarNode K}
      {rest : List (AStarNode K)} (hrun : (problem q).Run k b) (hpop : (problem q).Pop b n rest)
      (hopen : ¬ (problem q).Closed b.expanded n.cell) (hgoal : n.cell = q.goal) : Ends q (some n)
  | exhausted {k : ℕ} {b : BestFirst.State (AStarNode K)} (hrun : (problem q).Run k b)
      (hempty : b.opened = []) : Ends q none

/-- With fuel for the pops that are left the loop is not cut off. -/
theorem searchLoop_ends (hs : q.costmap.InMap q.start) (choice : ℕ → ℕ) (fuel : ℕ) :
    ∀ (k : ℕ) (s : SearchState K) (b : BestFirst.State (AStarNode K)),
      (problem q).Run k b → Simulates q s b →
      1 + 6 * (q.costmap.sizeX * q.costmap.sizeY) < k + fuel →
      ∃ result, searchLoop q choice fuel s = some result ∧ Ends q result := by
  induction fuel with
  | zero =>
    intro k s b hrun _ hfuel
    have hle := run_pops_le hs hrun
    omega
  | succ fuel ih =>
    intro k s b hrun hsim hfuel
    rw [searchLoop]
    rcases searchStep_simulates hs choice hsim hrun.searched with
      ⟨hstep, hempty⟩ | ⟨n, rest, hstep, hpop, hopen, hgoal⟩ | ⟨s', b', hstep, hb, hsim'⟩
    · rw [hstep]
      exact ⟨none, rfl, .exhausted hrun hempty⟩
    · rw [hstep]
      exact ⟨some n, rfl, .found hrun hpop hopen hgoal⟩
    · rw [hstep]
      exact ih (k + 1) s' b' (hrun.step hb) hsim' (by omega)

theorem search_ends (hs : q.costmap.InMap q.start) (choice : ℕ → ℕ) :
    Ends q (search q choice) := by
  obtain ⟨result, hloop, hends⟩ := searchLoop_ends hs choice (popBound q.costmap) 0
    (SearchState.init q) (problem q).initial .initial init_simulates (by unfold popBound; omega)
  rw [search, hloop]
  exact hends

/-! ## Paths and the search -/

/-- Along a path of steps the cells are reached one after another. -/
theorem HexPath.reachable {m : Costmap} {start goal : Cell} {cells : List Cell}
    (h : HexPath m start goal cells) : Relation.ReflTransGen m.Enters start goal := by
  have hne : cells ≠ [] := by
    intro hnil
    have hfirst := h.first
    rw [hnil] at hfirst
    cases hfirst
  have hchain := List.relationReflTransGen_of_exists_isChain cells h.steps hne
  have hhead : cells.head hne = start :=
    Option.some.inj ((List.head?_eq_some_head hne).symm.trans h.first)
  have hlast : cells.getLast hne = goal :=
    Option.some.inj ((List.getLast?_eq_some_getLast hne).symm.trans h.last)
  rwa [hhead, hlast] at hchain

/-- The accepted node's parent chain is a path to the goal that visits no cell
twice. -/
theorem search_path (hs : q.costmap.InMap q.start) {choice : ℕ → ℕ} {n : AStarNode K}
    (h : search q choice = some n) :
    HexPath q.costmap q.start q.goal n.path ∧ n.path.Nodup := by
  have hends := search_ends hs choice
  rw [h] at hends
  cases hends with
  | found hrun hpop hopen hgoal =>
    constructor
    · rw [← hgoal]
      exact generated_hexPath hs (hrun.searched.opened n hpop.mem)
    · rw [AStarNode.path, List.nodup_reverse]
      exact (hrun.threaded cells_lines).pop_nodup hpop hopen

theorem search_goal (hs : q.costmap.InMap q.start) {choice : ℕ → ℕ} {n : AStarNode K}
    (h : search q choice = some n) : n.cell = q.goal := by
  have hends := search_ends hs choice
  rw [h] at hends
  cases hends with
  | found hrun hpop hopen hgoal => exact hgoal

/-- Where the search finds nothing there is no path. -/
theorem search_none (hs : q.costmap.InMap q.start) {choice : ℕ → ℕ}
    (h : search q choice = none) (cells : List Cell) :
    ¬ HexPath q.costmap q.start q.goal cells := by
  intro hpath
  have hends := search_ends hs choice
  rw [h] at hends
  cases hends with
  | exhausted hrun hempty =>
    refine hrun.searched.not_goal_of_reachable hempty q.costmap.Enters ?_
      hpath.reachable rfl
    intro n hn c hc
    exact ⟨n.child q c, child_mem (generated_inMap hs hn) hc, rfl⟩

end CustomPlanner
end RobotNav
