/-
The map tree as a multiset of points.

As long as no subtree is large enough for the rebuild thread, the tree is a map
store: a call adds its points or takes those in its boxes, and the counters and the
flattened tree say what is there.
-/
import Mathlib.Data.List.Sort
import Mathlib.Data.Multiset.Filter
import Mathlib.Data.Rat.Floor
import RobotNav.IkdTree.Counters
import RobotNav.Library.Machine

namespace RobotNav
namespace IkdTree

open PointType (coords)
open KdTree

variable {P K : Type} [Arith K] [PointType P K]

inductive Call (P K : Type) where
  | addPoints (points : List P)
  | deletePointBoxes (boxes : List (BoxPointType K))

/-! ## The abstract store -/

/-- The points in none of the boxes. -/
def sparedBy (boxes : List (BoxPointType K)) (m : Multiset P) : Multiset P :=
  m.filter fun p => ∀ box ∈ boxes, ¬ box.contains (coords p)

def pointStoreStep (m : Multiset P) : Call P K → Multiset P × ℕ
  | .addPoints points => (m + points, 0)
  | .deletePointBoxes boxes => (sparedBy boxes m, m.card - (sparedBy boxes m).card)

/-- What a map store is for: it holds points, and a call that deletes says how many
it took. -/
def pointStore (points : List P) : Machine (Multiset P) (Call P K) ℕ where
  init := points
  step := pointStoreStep

/-! ## The tree behind the calls -/

variable (params : KdTreeParams K) (nth : NthElement P K)

/-- The state is lost when a null pointer has been read. -/
def mapTreeStep : Option (MapTree P K) → Call P K → Option (MapTree P K) × ℕ
  | none, _ => (none, 0)
  | some s, .addPoints points => (s.addPoints params nth points, 0)
  | some s, .deletePointBoxes boxes =>
    (some (s.deletePointBoxes params nth boxes).1, (s.deletePointBoxes params nth boxes).2)

def mapTree (points : List P) : Machine (Option (MapTree P K)) (Call P K) ℕ where
  init := some (MapTree.build nth points)
  step := mapTreeStep params nth

/-- After each point and each box of a call the tree is too small for the thread. -/
def StaysBelow : Option (MapTree P K) → Call P K → Prop
  | none, _ => True
  | some s, .addPoints points => ∀ k ≤ points.length,
      ∀ s' ∈ s.addPoints params nth (points.take k),
        s'.rootNode.treeSize < multiThreadRebuildPointNum
  | some s, .deletePointBoxes boxes => ∀ k ≤ boxes.length,
      (s.deletePointBoxes params nth (boxes.take k)).1.rootNode.treeSize <
        multiThreadRebuildPointNum

instance (s : Option (MapTree P K)) (c : Call P K) : Decidable (StaysBelow params nth s c) :=
  match s, c with
  | none, _ => isTrue trivial
  | some s, .addPoints points => inferInstanceAs (Decidable (∀ k ≤ points.length,
      ∀ s' ∈ s.addPoints params nth (points.take k),
        s'.rootNode.treeSize < multiThreadRebuildPointNum))
  | some s, .deletePointBoxes boxes => inferInstanceAs (Decidable (∀ k ≤ boxes.length,
      (s.deletePointBoxes params nth (boxes.take k)).1.rootNode.treeSize <
        multiThreadRebuildPointNum))

/-! ## One point, one box -/

/-- The tree is well formed, is there, and holds the points; the thread has nothing
to do. -/
structure Holds (s : MapTree P K) (m : Multiset P) : Prop where
  sound : s.rootNode.Sound
  counted : s.rootNode.Counted
  there : s.rootNode.isNull = false
  held : (s.rootNode.live : Multiset P) = m
  idle : s.rebuildQueued = false

theorem Holds.build {points : List P} (hne : points ≠ []) :
    Holds (MapTree.build nth points) (points : Multiset P) := by
  obtain ⟨hsound, hperm, hnull⟩ := buildTree_spec nth points
  refine ⟨hsound, buildTree_counted nth points, ?_, Multiset.coe_eq_coe.mpr hperm, rfl⟩
  by_contra h
  exact hne (hnull (Bool.eq_true_of_not_eq_false h))

theorem Holds.card {s : MapTree P K} {m : Multiset P} (hs : Holds s m) :
    s.rootNode.live.length = m.card := by
  rw [← hs.held]
  rfl

theorem Holds.validnum {s : MapTree P K} {m : Multiset P} (hs : Holds s m) :
    s.validnum = m.card := by
  have hsize := treeSize_eq hs.counted
  rw [MapTree.validnum, hsize, hs.card]
  omega

theorem Holds.flatten {s : MapTree P K} {m : Multiset P} (hs : Holds s m) :
    (s.rootNode.flatten.1 : Multiset P) = m := by
  rw [(flatten_spec hs.sound).1]
  exact hs.held

theorem Holds.addPoint {s : MapTree P K} {m : Multiset P} (hs : Holds s m) (point : P) :
    ∃ s', s.addPoint params nth point = some s' ∧
      (s'.rootNode.treeSize < multiThreadRebuildPointNum → Holds s' (point ::ₘ m)) := by
  cases hroot : s.rootNode with
  | null =>
    have hthere := hs.there
    rw [hroot] at hthere
    cases hthere
  | node n l r =>
    have hsound := hs.sound
    have hcounted := hs.counted
    have hheld := hs.held
    rw [hroot] at hsound hcounted hheld
    obtain ⟨hadded, hperm, hnull, -⟩ :=
      addByPoint_spec params nth true point n.divisionAxis hsound
    simp only [MapTree.addPoint, hroot]
    refine ⟨_, rfl, fun hsmall => ⟨hadded, ?_, hnull, ?_, ?_⟩⟩
    · exact addByPoint_counted params nth true point n.divisionAxis hsound hcounted
    · rw [Multiset.coe_eq_coe.mpr hperm, ← Multiset.cons_coe, hheld]
    · show (s.rebuildQueued || _) = false
      rw [hs.idle, Bool.false_or]
      by_contra h
      have hlarge := addByPoint_large params nth true point n.divisionAxis
        (Bool.eq_true_of_not_eq_false h)
      exact absurd hsmall (not_lt.mpr hlarge)

theorem Holds.deleteBox {s : MapTree P K} {m : Multiset P} (hs : Holds s m)
    (box : BoxPointType K)
    (hsmall : (s.deleteBox params nth box).1.rootNode.treeSize < multiThreadRebuildPointNum) :
    Holds (s.deleteBox params nth box).1 (sparedBy [box] m) ∧
      (s.deleteBox params nth box).2 + (sparedBy [box] m).card = m.card := by
  obtain ⟨hdeleted, hperm, hnull⟩ := deleteByRange_spec params nth box true false hs.sound
  obtain ⟨hcounted, hcounter⟩ :=
    deleteByRange_counted params nth box true false hs.sound hs.counted
  have hspare : (box.spare s.rootNode.live : Multiset P) = sparedBy [box] m := by
    rw [← hs.held, sparedBy, Multiset.filter_coe, BoxPointType.spare]
    simp
  constructor
  · refine ⟨hdeleted, hcounted, hnull.trans hs.there, ?_, ?_⟩
    · rw [← hspare]
      exact Multiset.coe_eq_coe.mpr hperm
    · show (s.rebuildQueued || _) = false
      rw [hs.idle, Bool.false_or]
      by_contra h
      have hlarge := deleteByRange_large params nth box true false
        (Bool.eq_true_of_not_eq_false h)
      exact absurd hsmall (not_lt.mpr hlarge)
  · rw [← hspare, Multiset.coe_card, ← hs.card]
    exact hcounter

/-! ## Calls -/

variable {params nth}

theorem Holds.addPoints {s : MapTree P K} {m : Multiset P} (hs : Holds s m) (points : List P)
    (hsmall : StaysBelow params nth (some s) (.addPoints points)) :
    ∃ s', s.addPoints params nth points = some s' ∧ Holds s' (m + points) := by
  induction points generalizing s m with
  | nil => exact ⟨s, rfl, by simpa using hs⟩
  | cons point rest ih =>
    obtain ⟨s₁, hadd, hs₁⟩ := hs.addPoint params nth point
    have hcons (ps : List P) :
        s.addPoints params nth (point :: ps) = s₁.addPoints params nth ps := by
      rw [MapTree.addPoints, List.foldlM_cons, hadd]
      rfl
    have hfirst : s₁.rootNode.treeSize < multiThreadRebuildPointNum := by
      apply hsmall 1 (by simp)
      show s.addPoints params nth [point] = some s₁
      rw [hcons]
      rfl
    obtain ⟨s', hrest, hs'⟩ := ih (hs₁ hfirst) (fun k hk s' hs' => by
      apply hsmall (k + 1) (by simpa using hk)
      rw [List.take_succ_cons, hcons]
      exact hs')
    refine ⟨s', (hcons rest).trans hrest, ?_⟩
    rwa [Multiset.cons_add, ← Multiset.add_cons, Multiset.cons_coe] at hs'

theorem sparedBy_cons (box : BoxPointType K) (boxes : List (BoxPointType K)) (m : Multiset P) :
    sparedBy (box :: boxes) m = sparedBy boxes (sparedBy [box] m) := by
  rw [sparedBy, sparedBy, sparedBy, Multiset.filter_filter]
  apply Multiset.filter_congr
  intro p _
  simp [and_comm]

theorem deletePointBoxes_cons (s : MapTree P K) (box : BoxPointType K)
    (boxes : List (BoxPointType K)) :
    s.deletePointBoxes params nth (box :: boxes) =
      (((s.deleteBox params nth box).1.deletePointBoxes params nth boxes).1,
        (s.deleteBox params nth box).2 +
          ((s.deleteBox params nth box).1.deletePointBoxes params nth boxes).2) := by
  have hshift (boxes : List (BoxPointType K)) (s : MapTree P K) (c d : ℕ) :
      boxes.foldl (fun acc box =>
        let deleted := acc.1.deleteBox params nth box
        (deleted.1, acc.2 + deleted.2)) (s, c + d) =
      ((boxes.foldl (fun acc box =>
        let deleted := acc.1.deleteBox params nth box
        (deleted.1, acc.2 + deleted.2)) (s, d)).1,
        c + (boxes.foldl (fun acc box =>
        let deleted := acc.1.deleteBox params nth box
        (deleted.1, acc.2 + deleted.2)) (s, d)).2) := by
    induction boxes generalizing s d with
    | nil => rfl
    | cons box rest ih =>
      simp only [List.foldl_cons]
      rw [Nat.add_assoc]
      exact ih _ _
  rw [MapTree.deletePointBoxes, List.foldl_cons]
  simp only [Nat.zero_add]
  exact hshift boxes _ (s.deleteBox params nth box).2 0

theorem Holds.deletePointBoxes {s : MapTree P K} {m : Multiset P} (hs : Holds s m)
    (boxes : List (BoxPointType K))
    (hsmall : StaysBelow params nth (some s) (.deletePointBoxes boxes)) :
    Holds (s.deletePointBoxes params nth boxes).1 (sparedBy boxes m) ∧
      (s.deletePointBoxes params nth boxes).2 + (sparedBy boxes m).card = m.card := by
  induction boxes generalizing s m with
  | nil =>
    have hall : sparedBy ([] : List (BoxPointType K)) m = m := by
      rw [sparedBy, Multiset.filter_eq_self]
      simp
    rw [hall]
    exact ⟨hs, Nat.zero_add _⟩
  | cons box rest ih =>
    have hfirst := hsmall 1 (by simp)
    rw [List.take_succ_cons, deletePointBoxes_cons] at hfirst
    obtain ⟨hs₁, hcounter₁⟩ := hs.deleteBox params nth box hfirst
    obtain ⟨hs', hcounter'⟩ := ih hs₁ (fun k hk => by
      have hnext := hsmall (k + 1) (by simpa using hk)
      rw [List.take_succ_cons, deletePointBoxes_cons] at hnext
      exact hnext)
    rw [deletePointBoxes_cons, sparedBy_cons]
    refine ⟨hs', ?_⟩
    show (s.deleteBox params nth box).2 +
      ((s.deleteBox params nth box).1.deletePointBoxes params nth rest).2 + _ = _
    omega

/-! ## Whole runs -/

/-- One call does to the points what it does to the store. -/
theorem Holds.step {s : MapTree P K} {m : Multiset P} (hs : Holds s m) {c : Call P K}
    (hsmall : StaysBelow params nth (some s) c) :
    ∃ s', mapTreeStep params nth (some s) c = (some s', (pointStoreStep m c).2) ∧
      Holds s' (pointStoreStep m c).1 := by
  cases c with
  | addPoints points =>
    obtain ⟨s', hadd, hs'⟩ := hs.addPoints points hsmall
    exact ⟨s', by rw [mapTreeStep, hadd]; rfl, hs'⟩
  | deletePointBoxes boxes =>
    obtain ⟨hs', hcounter⟩ := hs.deletePointBoxes boxes hsmall
    refine ⟨_, ?_, hs'⟩
    have hanswer : (s.deletePointBoxes params nth boxes).2 =
        (pointStoreStep m (.deletePointBoxes boxes)).2 := by
      show _ = m.card - (sparedBy boxes m).card
      omega
    rw [mapTreeStep, hanswer]

/-- Every run of the tree is a run of the store. -/
theorem Holds.run {s : MapTree P K} {m : Multiset P} (hs : Holds s m) {points : List P}
    {calls : List (Call P K)}
    (hsmall : (mapTree params nth points).Along (StaysBelow params nth) (some s) calls) :
    ∃ s', (mapTree params nth points).run (some s) calls = some s' ∧
      Holds s' ((pointStore points).run m calls) ∧
      (mapTree params nth points).outs (some s) calls = (pointStore points).outs m calls := by
  induction calls generalizing s m with
  | nil => exact ⟨s, rfl, hs, rfl⟩
  | cons c rest ih =>
    obtain ⟨hfirst, hrest⟩ := hsmall
    obtain ⟨s₁, hstep, hs₁⟩ := hs.step hfirst
    have hnext : (mapTree params nth points).next (some s) c = some s₁ := congrArg Prod.fst hstep
    have hout : (mapTree params nth points).out (some s) c = (pointStore points).out m c :=
      congrArg Prod.snd hstep
    rw [hnext] at hrest
    obtain ⟨s', hrun, hs', houts⟩ := ih hs₁ hrest
    refine ⟨s', ?_, hs', ?_⟩
    · rw [Machine.run_cons, hnext, hrun]
    · rw [Machine.outs_cons, Machine.outs_cons, hnext, hout, houts]
      rfl

/-- The map store is a multiset of points. -/
theorem mapTree_refines_pointStore (params : KdTreeParams K) (nth : NthElement P K)
    {points : List P} (hne : points ≠ []) (calls : List (Call P K))
    (hsmall : (mapTree params nth points).Along (StaysBelow params nth)
      (mapTree params nth points).init calls) :
    ∃ s, (mapTree params nth points).run (mapTree params nth points).init calls = some s ∧
      s.rootNode ≠ null ∧
      (s.rootNode.flatten.1 : Multiset P) = (pointStore points).run points calls ∧
      s.validnum = ((pointStore points).run (points : Multiset P) calls).card ∧
      (mapTree params nth points).outs (mapTree params nth points).init calls =
        (pointStore points).outs points calls ∧
      s.rebuildQueued = false := by
  obtain ⟨s, hrun, hs, houts⟩ := (Holds.build nth hne).run hsmall
  refine ⟨s, hrun, ?_, hs.flatten, hs.validnum, houts, hs.idle⟩
  intro hnull
  have hthere := hs.there
  rw [hnull] at hthere
  cases hthere

/-! ## A tree that can be run -/

/-- A list sorted by the coordinate on an axis. -/
def sortedBy (axis : Fin 3) (ps : List P) : List P :=
  ps.insertionSort fun a b => coords a axis ≤ coords b axis

/-- The sorted list at its place `n`. -/
def splitAt (axis : Fin 3) (p : P) (ps : List P) (n : ℕ) : List P × P × List P :=
  ((sortedBy axis (p :: ps)).take n, ((sortedBy axis (p :: ps)).drop n).headD p,
    ((sortedBy axis (p :: ps)).drop n).tail)

theorem splitAt_spec (axis : Fin 3) (p : P) {ps : List P} {n : ℕ} (hn : n ≤ ps.length) :
    ∃ before q after, splitAt axis p ps n = (before, q, after) ∧
      before ++ q :: after = sortedBy axis (p :: ps) ∧ before.length = n ∧
      (∀ a ∈ before, coords a axis ≤ coords q axis) ∧
      ∀ a ∈ after, coords q axis ≤ coords a axis := by
  have hlength : (sortedBy axis (p :: ps)).length = ps.length + 1 := List.length_insertionSort _ _
  have hsorted : (sortedBy axis (p :: ps)).Pairwise fun a b => coords a axis ≤ coords b axis := by
    have htotal : Std.Total fun a b : P => coords a axis ≤ coords b axis :=
      ⟨fun a b => le_total _ _⟩
    have htrans : IsTrans P fun a b : P => coords a axis ≤ coords b axis :=
      ⟨fun a b c => le_trans⟩
    exact List.pairwise_insertionSort _ _
  have hwhole := List.take_append_drop n (sortedBy axis (p :: ps))
  cases hdrop : (sortedBy axis (p :: ps)).drop n with
  | nil =>
    have hshort := List.drop_eq_nil_iff.mp hdrop
    omega
  | cons q after =>
    rw [hdrop] at hwhole
    rw [← hwhole, List.pairwise_append, List.pairwise_cons] at hsorted
    refine ⟨(sortedBy axis (p :: ps)).take n, q, after, by rw [splitAt, hdrop]; rfl, hwhole, ?_,
      fun a ha => hsorted.2.2 a ha q List.mem_cons_self, hsorted.2.1.1⟩
    rw [List.length_take]
    omega

/-- `nth_element` by sorting. -/
def sortedNthElement : NthElement P K where
  run := splitAt
  perm axis p ps n hn := by
    obtain ⟨before, q, after, hsplit, hwhole, -⟩ := splitAt_spec axis p hn
    rw [hsplit]
    show (before ++ q :: after).Perm (p :: ps)
    rw [hwhole]
    exact List.perm_insertionSort _ _
  length axis p ps n hn := by
    obtain ⟨before, q, after, hsplit, -, hlength, -⟩ := splitAt_spec axis p hn
    rw [hsplit]
    exact hlength
  before axis p ps n hn := by
    obtain ⟨before, q, after, hsplit, -, -, hbefore, -⟩ := splitAt_spec axis p hn
    rw [hsplit]
    exact hbefore
  after axis p ps n hn := by
    obtain ⟨before, q, after, hsplit, -, -, -, hafter⟩ := splitAt_spec axis p hn
    rw [hsplit]
    exact hafter

/-- The parameters a tree is made with. -/
def defaultParams : KdTreeParams K := ⟨ratio 1 2, ratio 6 10⟩

instance : PointType (Coords ℚ) ℚ := ⟨id⟩

def diagonal (x : ℤ) : Coords ℚ := fun _ => lit x

def diagonalPoints : List (Coords ℚ) := [diagonal 0, diagonal 1, diagonal 2]

/-- Two points more, and a box around two of the first three. -/
def diagonalCalls : List (Call (Coords ℚ) ℚ) :=
  [.addPoints [diagonal 3, diagonal 4], .deletePointBoxes [⟨diagonal 0, diagonal 2⟩]]

theorem mapTree_refines_pointStore_diagonal :
    ∃ s, (mapTree defaultParams sortedNthElement diagonalPoints).run
        (mapTree defaultParams sortedNthElement diagonalPoints).init diagonalCalls = some s ∧
      s.rootNode ≠ null ∧
      (s.rootNode.flatten.1 : Multiset (Coords ℚ)) =
        (pointStore diagonalPoints).run diagonalPoints diagonalCalls ∧
      s.validnum = ((pointStore diagonalPoints).run
        (diagonalPoints : Multiset (Coords ℚ)) diagonalCalls).card ∧
      (mapTree defaultParams sortedNthElement diagonalPoints).outs
          (mapTree defaultParams sortedNthElement diagonalPoints).init diagonalCalls =
        (pointStore diagonalPoints).outs diagonalPoints diagonalCalls ∧
      s.rebuildQueued = false :=
  mapTree_refines_pointStore defaultParams sortedNthElement (List.cons_ne_nil _ _) diagonalCalls
    (by decide +kernel)

end IkdTree
end RobotNav
