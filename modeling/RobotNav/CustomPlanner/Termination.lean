/-
How many turns the search loop of `createPlan` makes, and what it pushes in them.

A cell may be in the open list many times, and an entry that comes too late is dropped
without anything else changing.  What bounds the turns is that each takes out one entry,
and only a turn that closes a cell puts entries in, six at most.
-/
import RobotNav.CustomPlanner.Plan

namespace RobotNav
namespace CustomPlanner

variable {K : Type} [Arith K]

section

variable (q : Query K) (choice : ℕ → ℕ)

/-- The node a turn closes the cell of; the goal is closed, too. -/
def closing (s : SearchState K) : Option (AStarNode K) :=
  match popTop (choice s.pops) s.openList with
  | none => none
  | some (current, _) =>
    if s.closedList.getD (q.costmap.index current.cell) false then none else some current

/-- What a turn pushes. -/
def pushing (s : SearchState K) : List (AStarNode K) :=
  match closing q choice s with
  | none => []
  | some current =>
    if current.x = q.goal.x ∧ current.y = q.goal.y then []
    else neighbours q (s.closedList.set (q.costmap.index current.cell) true) current

/-- The states at the start of each turn, cut off after a number of them. -/
def turns : ℕ → SearchState K → List (SearchState K)
  | 0, _ => []
  | fuel + 1, s =>
    s :: match searchStep q choice s with
      | .searching s' => turns fuel s'
      | _ => []

/-- The cells the loop closes, in order. -/
def closedCells (fuel : ℕ) (s : SearchState K) : List Cell :=
  ((turns q choice fuel s).filterMap (closing q choice)).map AStarNode.cell

/-- What the loop pushes, in order. -/
def pushed (fuel : ℕ) (s : SearchState K) : List (AStarNode K) :=
  (turns q choice fuel s).flatMap (pushing q choice)

end

variable {q : Query K}

/-- A turn that goes on has taken one entry out, and put in what it pushes. -/
theorem searchStep_pushing {choice : ℕ → ℕ} {s s' : SearchState K}
    (h : searchStep q choice s = .searching s') :
    ∃ n rest, popTop (choice s.pops) s.openList = some (n, rest) ∧
      s'.openList = rest ++ pushing q choice s := by
  unfold searchStep at h
  cases hpop : popTop (choice s.pops) s.openList with
  | none =>
    rw [hpop] at h
    cases h
  | some entry =>
    obtain ⟨n, rest⟩ := entry
    refine ⟨n, rest, rfl, ?_⟩
    rw [hpop] at h
    simp only [pushing, closing, hpop]
    dsimp only at h
    split_ifs at h ⊢ with hbit hgoal
    · cases h
      exact (List.append_nil rest).symm
    · cases h
      dsimp only
      rw [if_neg hgoal]

/-- A turn of the loop beside the library's search. -/
theorem turn_cases (hs : q.costmap.InMap q.start) (choice : ℕ → ℕ) {s : SearchState K}
    {b : BestFirst.State (AStarNode K)} (h : Simulates q s b) (hb : (problem q).Searched b) :
    (searchStep q choice s = .exhausted ∧ closing q choice s = none ∧ pushing q choice s = []) ∨
    (∃ n, searchStep q choice s = .found n ∧ closing q choice s = some n ∧
      pushing q choice s = [] ∧ ¬ (problem q).Closed b.expanded n.cell) ∨
    (∃ s' b', searchStep q choice s = .searching s' ∧ (problem q).Step b b' ∧
      Simulates q s' b' ∧ b'.expanded = b.expanded ++ (closing q choice s).toList) := by
  cases hpop : popTop (choice s.pops) s.openList with
  | none =>
    left
    simp only [searchStep, closing, pushing, hpop, and_self]
  | some entry =>
    obtain ⟨n, rest⟩ := entry
    right
    have hpop' := popTop_pop h hpop
    have hin := generated_inMap hs (hb.opened n hpop'.mem)
    by_cases hbit : s.closedList.getD (q.costmap.index n.cell) false = true
    · right
      refine ⟨{ s with openList := rest, pops := s.pops + 1 }, ⟨rest, b.expanded⟩, ?_,
        .skip hpop' ((h.closed n.cell hin).mp hbit), ⟨rfl, h.length, h.closed⟩, ?_⟩
      · simp only [searchStep, hpop, hbit, if_true]
      · simp only [closing, hpop, hbit, if_true, Option.toList_none, List.append_nil]
    · have hclosing : closing q choice s = some n := by
        simp only [closing, hpop, hbit, if_false, Bool.false_eq_true]
      by_cases hgoal : n.cell = q.goal
      · left
        have hxy : n.x = q.goal.x ∧ n.y = q.goal.y := by
          rw [← hgoal]
          exact ⟨rfl, rfl⟩
        refine ⟨n, ?_, hclosing, ?_, fun hc => hbit ((h.closed n.cell hin).mpr hc)⟩
        · simp only [searchStep, hpop, hbit, if_false, if_pos hxy, Bool.false_eq_true]
        · simp only [pushing, hclosing, if_pos hxy]
      · right
        have hxy : ¬ (n.x = q.goal.x ∧ n.y = q.goal.y) := by
          intro heq
          apply hgoal
          rw [AStarNode.cell, heq.1, heq.2]
        obtain ⟨hstep, hsim⟩ := expand_simulates hs h hb hpop' hbit hgoal (s.pops + 1)
        refine ⟨_, _, ?_, hstep, hsim, ?_⟩
        · simp only [searchStep, hpop, hbit, if_false, if_neg hxy, Bool.false_eq_true]
        · rw [hclosing]
          rfl

/-- From a state the search has reached after `k` turns. -/
structure Bounded (q : Query K) (choice : ℕ → ℕ) (fuel k : ℕ) (s : SearchState K)
    (b : BestFirst.State (AStarNode K)) : Prop where
  distinct : (b.expanded.map AStarNode.cell ++ closedCells q choice fuel s).Nodup
  pushes : k + b.opened.length + (pushed q choice fuel s).length ≤
    1 + 6 * (q.costmap.sizeX * q.costmap.sizeY)
  turns : k + (turns q choice fuel s).length ≤ popBound q.costmap

theorem turns_searching {choice : ℕ → ℕ} {s s' : SearchState K}
    (hstep : searchStep q choice s = .searching s') (fuel : ℕ) :
    turns q choice (fuel + 1) s = s :: turns q choice fuel s' := by
  rw [turns, hstep]

theorem closedCells_of_turns {choice : ℕ → ℕ} {fuel : ℕ} {s : SearchState K}
    {rest : List (SearchState K)} (hturns : turns q choice fuel s = s :: rest) :
    closedCells q choice fuel s = (closing q choice s).toList.map AStarNode.cell ++
      (rest.filterMap (closing q choice)).map AStarNode.cell := by
  rw [closedCells, hturns]
  cases hclosing : closing q choice s with
  | none =>
    rw [List.filterMap_cons_none hclosing, Option.toList_none, List.map_nil, List.nil_append]
  | some n =>
    rw [List.filterMap_cons_some hclosing, Option.toList_some]
    rfl

/-- The last turn closes the goal, if anything, and pushes nothing. -/
theorem bounded_last (hs : q.costmap.InMap q.start) {choice : ℕ → ℕ} {fuel k : ℕ}
    {s : SearchState K} {b : BestFirst.State (AStarNode K)} (hrun : (problem q).Run k b)
    (hturns : turns q choice (fuel + 1) s = [s]) (hpushing : pushing q choice s = [])
    (hnew : ∀ n ∈ closing q choice s, ¬ (problem q).Closed b.expanded n.cell) :
    Bounded q choice (fuel + 1) k s b := by
  have hle := run_pops_le hs hrun
  refine ⟨?_, ?_, ?_⟩
  · rw [closedCells_of_turns hturns, List.filterMap_nil, List.map_nil, List.append_nil]
    cases hclosing : closing q choice s with
    | none =>
      rw [Option.toList_none, List.map_nil, List.append_nil]
      exact hrun.searched.distinct
    | some n =>
      rw [Option.toList_some, List.map_singleton]
      refine List.nodup_append.mpr ⟨hrun.searched.distinct, List.nodup_singleton _, ?_⟩
      rintro c hc d hd rfl
      obtain ⟨m, hm, hmc⟩ := List.mem_map.mp hc
      exact hnew n hclosing ⟨m, hm, hmc.trans (List.mem_singleton.mp hd)⟩
  · rw [pushed, hturns, List.flatMap_singleton, hpushing]
    exact hle
  · rw [hturns, popBound, List.length_singleton]
    omega

/-- A turn before others takes one entry out and puts in what it pushes. -/
theorem bounded_cons {choice : ℕ → ℕ} {fuel k : ℕ} {s s' : SearchState K}
    {b b' : BestFirst.State (AStarNode K)} (hsim : Simulates q s b) (hsim' : Simulates q s' b')
    (hstep : searchStep q choice s = .searching s')
    (hexpanded : b'.expanded = b.expanded ++ (closing q choice s).toList)
    (hrest : Bounded q choice fuel (k + 1) s' b') : Bounded q choice (fuel + 1) k s b := by
  have hturns := turns_searching hstep fuel
  refine ⟨?_, ?_, ?_⟩
  · have hdistinct := hrest.distinct
    rw [hexpanded, List.map_append, List.append_assoc] at hdistinct
    rw [closedCells_of_turns hturns]
    exact hdistinct
  · have hpushes := hrest.pushes
    obtain ⟨n, rest, hpop, hopened⟩ := searchStep_pushing hstep
    have hlost := (popTop_eq_some hpop).1.length_eq
    rw [List.length_cons, ← hsim.opened] at hlost
    rw [hsim'.opened, hopened, List.length_append] at hpushes
    rw [pushed, hturns, List.flatMap_cons, List.length_append]
    rw [pushed] at hpushes
    omega
  · have hlength := hrest.turns
    rw [hturns, List.length_cons]
    omega

theorem turns_bounded (hs : q.costmap.InMap q.start) (choice : ℕ → ℕ) (fuel : ℕ) {k : ℕ}
    {s : SearchState K} {b : BestFirst.State (AStarNode K)} (hrun : (problem q).Run k b)
    (hsim : Simulates q s b) : Bounded q choice fuel k s b := by
  induction fuel generalizing k s b with
  | zero =>
    have hle := run_pops_le hs hrun
    refine ⟨?_, hle, ?_⟩
    · rw [closedCells, turns, List.filterMap_nil, List.map_nil, List.append_nil]
      exact hrun.searched.distinct
    · rw [turns, popBound, List.length_nil]
      omega
  | succ fuel ih =>
    rcases turn_cases hs choice hsim hrun.searched with
      ⟨hstep, hclosing, hpushing⟩ | ⟨n, hstep, hclosing, hpushing, hopen⟩ |
        ⟨s', b', hstep, hb, hsim', hexpanded⟩
    · have hturns : turns q choice (fuel + 1) s = [s] := by rw [turns, hstep]
      refine bounded_last hs hrun hturns hpushing fun n hn => ?_
      rw [hclosing] at hn
      cases hn
    · have hturns : turns q choice (fuel + 1) s = [s] := by rw [turns, hstep]
      refine bounded_last hs hrun hturns hpushing fun m hm => ?_
      rw [hclosing] at hm
      cases hm
      exact hopen
    · exact bounded_cons hsim hsim' hstep hexpanded (ih (hrun.step hb) hsim')

/-- Whatever the order of ties, the loop ends.  However far it is followed, it closes no
cell twice and makes six pushes at most for each cell of the map, and one for the start. -/
theorem searchLoop_terminates (q : Query K) (hs : q.costmap.InMap q.start) (choice : ℕ → ℕ) :
    (∃ result, searchLoop q choice (popBound q.costmap) (SearchState.init q) = some result) ∧
    ∀ fuel, (turns q choice fuel (SearchState.init q)).length ≤ popBound q.costmap ∧
      (closedCells q choice fuel (SearchState.init q)).Nodup ∧
      (startNode q :: pushed q choice fuel (SearchState.init q)).length ≤
        6 * (q.costmap.sizeX * q.costmap.sizeY) + 1 := by
  constructor
  · obtain ⟨result, hloop, -⟩ := searchLoop_ends hs choice (popBound q.costmap) 0
      (SearchState.init q) (problem q).initial .initial init_simulates (by rw [popBound]; omega)
    exact ⟨result, hloop⟩
  · intro fuel
    obtain ⟨hdistinct, hpushes, hturns⟩ := turns_bounded hs choice fuel .initial init_simulates
    refine ⟨by omega, ?_, ?_⟩
    · exact hdistinct
    · rw [List.length_cons]
      have hstart : (problem q).initial.opened.length = 1 := rfl
      omega

/-- From one corner of that map to the other. -/
def cornerQuery : Query ℚ := (unitPlanner cornerMap 1).query ⟨0, 0⟩ ⟨2, 1⟩

theorem searchLoop_terminates_cornerMap :
    (∃ result, searchLoop cornerQuery (fun _ => 0) 38 (SearchState.init cornerQuery) =
      some result) ∧
    ∀ fuel, (turns cornerQuery (fun _ => 0) fuel (SearchState.init cornerQuery)).length ≤ 38 ∧
      (closedCells cornerQuery (fun _ => 0) fuel (SearchState.init cornerQuery)).Nodup ∧
      (startNode cornerQuery ::
        pushed cornerQuery (fun _ => 0) fuel (SearchState.init cornerQuery)).length ≤ 37 :=
  searchLoop_terminates cornerQuery (by decide) (fun _ => 0)

end CustomPlanner
end RobotNav
