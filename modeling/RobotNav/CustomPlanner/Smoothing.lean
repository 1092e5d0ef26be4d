/-
The smoothing loop, for every path of cells and every line of sight.

Each turn of the outer loop moves the index on, so the loop ends at the last pose
after fewer turns than the path has poses.  What a turn picks is the farthest pose
in sight, or the next one where no pose is in sight.
-/
import RobotNav.CustomPlanner.Sight

namespace RobotNav
namespace CustomPlanner

/-! ## The end of the loop -/

section

variable {K : Type} {p : Planner K} {path : List (PoseStamped K)}

theorem nextIdx_last {current : ℕ} (h : current < path.length - 1) :
    Follows p path current (nextIdx p path current (path.length - 1)) :=
  nextIdx_follows (by omega) _ (by omega) fun j hj hjlt => by omega

/-- With turns enough to reach the last pose the cut-off has no part in the result. -/
theorem keptAfter_enough {fuel fuel' current : ℕ} (h : path.length - 1 ≤ current + fuel)
    (h' : path.length - 1 ≤ current + fuel') :
    keptAfter p path fuel current = keptAfter p path fuel' current := by
  induction fuel generalizing fuel' current with
  | zero =>
    cases fuel' with
    | zero => rfl
    | succ fuel' =>
      rw [keptAfter, keptAfter, if_neg (by omega)]
  | succ fuel ih =>
    cases fuel' with
    | zero => rw [keptAfter, keptAfter, if_neg (by omega)]
    | succ fuel' =>
      rw [keptAfter, keptAfter]
      by_cases hlt : current < path.length - 1
      · have hnext := (nextIdx_last (p := p) hlt).lt
        rw [if_pos hlt, if_pos hlt]
        congr 1
        exact ih (by omega) (by omega)
      · rw [if_neg hlt, if_neg hlt]

theorem keptAfter_getLast? {fuel current : ℕ} (hcurrent : current < path.length)
    (h : path.length - 1 ≤ current + fuel) :
    (current :: keptAfter p path fuel current).getLast? = some (path.length - 1) := by
  induction fuel generalizing current with
  | zero =>
    have hlast : current = path.length - 1 := by omega
    rw [keptAfter, hlast]
    rfl
  | succ fuel ih =>
    rw [keptAfter]
    by_cases hlt : current < path.length - 1
    · have hnext := nextIdx_last (p := p) hlt
      rw [if_pos hlt, List.getLast?_cons_cons]
      have hfar := hnext.lt
      exact ih hnext.le (by omega)
    · have hlast : current = path.length - 1 := by omega
      rw [if_neg hlt, hlast]
      rfl

theorem keptIndices_getLast? (hne : path ≠ []) :
    (keptIndices p path).getLast? = some (path.length - 1) := by
  have hpos := List.length_pos_of_ne_nil hne
  exact keptAfter_getLast? hpos (by omega)

theorem keptIndices_lt (hne : path ≠ []) {i : ℕ} (hi : i ∈ keptIndices p path) :
    i < path.length := by
  have hpos := List.length_pos_of_ne_nil hne
  rcases List.mem_cons.mp hi with rfl | hmem
  · exact hpos
  · obtain ⟨k, hk⟩ := List.mem_iff_getElem?.mp hmem
    obtain ⟨hklt, rfl⟩ := List.getElem?_eq_some_iff.mp hk
    have hchain := keptIndices_chain p path
    have hstep := hchain.getElem k (by simpa [keptIndices] using hklt)
    exact hstep.le

theorem keptIndices_sorted : (keptIndices p path).Pairwise (· < ·) := by
  rw [← List.isChain_iff_pairwise]
  exact (keptIndices_chain p path).imp fun i j h => h.lt

/-- What is pushed are the poses at the kept indices. -/
theorem smoothedPath_eq (hne : path ≠ []) :
    (smoothedPath p path).map some = (keptIndices p path).map fun i => path[i]? := by
  have hall : ∀ is : List ℕ, (∀ i ∈ is, i < path.length) →
      (is.filterMap fun i => path[i]?).map some = is.map fun i => path[i]? := by
    intro is his
    induction is with
    | nil => rfl
    | cons i rest ih =>
      have hlt := his i List.mem_cons_self
      have hi : path[i]? = some path[i] := List.getElem?_eq_getElem hlt
      rw [List.filterMap_cons_some hi, List.map_cons, List.map_cons, hi,
        ih fun j hj => his j (List.mem_cons_of_mem i hj)]
  exact hall _ fun i hi => keptIndices_lt hne hi

end

/-! ## The kept cells -/

variable {K : Type} [Arith K]

/-- The line of sight from cell `i` of the path to cell `j`. -/
def Sees (p : Planner K) (cells : List Cell) (i j : ℕ) : Prop :=
  ∃ a b, cells[i]? = some a ∧ cells[j]? = some b ∧ hasLineOfSight p a b = true

theorem visible_iff_sees {p : Planner K} {cells : List Cell}
    (hround : ∀ c ∈ cells, p.worldToMap (p.mapToWorld c).1 (p.mapToWorld c).2 = some c) (i j : ℕ) :
    visible p (cells.map (poseAt p)) i j = true ↔ Sees p cells i j := by
  have hcell : ∀ c ∈ cells, cellOf p (poseAt p c) = c := by
    intro c hc
    show (p.worldToMap (p.mapToWorld c).1 (p.mapToWorld c).2).getD ⟨0, 0⟩ = c
    rw [hround c hc]
    rfl
  unfold visible Sees
  rw [List.getElem?_map, List.getElem?_map]
  cases hi : cells[i]? with
  | none => simp
  | some a =>
    cases hj : cells[j]? with
    | none => simp
    | some b =>
      simp [hcell a (List.mem_of_getElem? hi), hcell b (List.mem_of_getElem? hj)]

/-- The smoothing loop ends by itself and keeps a subsequence of the path from its
first to its last pose; each kept index is the farthest one in sight of the index
before it, or the next one where none is in sight. -/
theorem smoothing_greedy (p : Planner K) (cells : List Cell) (hlen : 3 ≤ cells.length)
    (hround : ∀ c ∈ cells, p.worldToMap (p.mapToWorld c).1 (p.mapToWorld c).2 = some c) :
    let path := cells.map (poseAt p)
    let kept := keptIndices p path
    (∀ fuel, cells.length ≤ fuel → 0 :: keptAfter p path fuel 0 = kept) ∧
    (smoothedPath p path).map some = kept.map (fun i => path[i]?) ∧
    kept.Pairwise (· < ·) ∧ kept.head? = some 0 ∧ kept.getLast? = some (cells.length - 1) ∧
    kept.IsChain fun i j =>
      (Sees p cells i j ∧ ∀ k, j < k → k < cells.length → ¬ Sees p cells i k) ∨
      (j = i + 1 ∧ ∀ k, i < k → k < cells.length → ¬ Sees p cells i k) := by
  intro path kept
  have hpath : path.length = cells.length := List.length_map _
  have hne : path ≠ [] := List.ne_nil_of_length_pos (by omega)
  refine ⟨?_, smoothedPath_eq hne, keptIndices_sorted, rfl, ?_, ?_⟩
  · intro fuel hfuel
    show 0 :: keptAfter p path fuel 0 = 0 :: keptAfter p path path.length 0
    have henough : keptAfter p path fuel 0 = keptAfter p path path.length 0 :=
      keptAfter_enough (by omega) (by omega)
    rw [henough]
  · rw [← hpath]
    exact keptIndices_getLast? hne
  · refine (keptIndices_chain p path).imp fun i j h => ?_
    have hunseen : ∀ k, j < k → k < cells.length → ¬ Sees p cells i k := by
      intro k hk hklt hsees
      have hfar := h.farthest k hk (by omega)
      rw [(visible_iff_sees hround i k).mpr hsees] at hfar
      cases hfar
    by_cases hsees : Sees p cells i j
    · exact .inl ⟨hsees, hunseen⟩
    · have hnext : j = i + 1 := by
        rcases h.seen with hseen | hnext
        · exact absurd ((visible_iff_sees hround i j).mp hseen) hsees
        · exact hnext
      refine .inr ⟨hnext, fun k hk hklt => ?_⟩
      by_cases heq : k = j
      · rw [heq]
        exact hsees
      · exact hunseen k (by omega) hklt

/-- The obstacle of `cornerMap` is in the line from the first cell to the last. -/
theorem smoothing_greedy_cornerMap :
    let path := [⟨0, 0⟩, ⟨0, 1⟩, ⟨1, 1⟩, ⟨2, 0⟩].map (poseAt (unitPlanner cornerMap 1))
    let kept := keptIndices (unitPlanner cornerMap 1) path
    kept = [0, 2, 3] ∧ kept.Pairwise (· < ·) ∧ kept.getLast? = some 3 := by
  intro path kept
  obtain ⟨-, -, hsorted, -, hlast, -⟩ := smoothing_greedy (unitPlanner cornerMap 1)
    [⟨0, 0⟩, ⟨0, 1⟩, ⟨1, 1⟩, ⟨2, 0⟩] (by decide) (by decide +kernel)
  exact ⟨by decide +kernel, hsorted, hlast⟩

end CustomPlanner
end RobotNav
