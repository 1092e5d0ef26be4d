/-
`lasermap_fov_segment`: the box-shaped window of the map around the LiDAR, and
the boxes it gives up when it moves.

Positions and edges are exact; the code mixes floats and doubles here.
-/
import Mathlib.Data.Rat.Floor
import Mathlib.Tactic.Linarith
import Mathlib.Tactic.NormNum
import Mathlib.Tactic.Ring
import RobotNav.IkdTree.Box
import RobotNav.Library.Machine

namespace RobotNav
namespace LaserMapping

open IkdTree

structure MapWindow (K : Type) where
  localmapInitialized : Bool
  localMapPoints : BoxPointType K

variable {K : Type} [Arith K] (cubeLen detRange : K)

def movThreshold : K := ratio 3 2

def movDist : K :=
  max ((cubeLen - lit 2 * movThreshold * detRange) * ratio 1 2 * ratio 9 10)
    (detRange * (movThreshold - lit 1))

/-- `dist_to_map_edge` is at most the threshold. -/
def atEdge (edge x : K) : Prop := fabs (x - edge) ≤ movThreshold * detRange

instance (edge x : K) : Decidable (atEdge detRange edge x) :=
  inferInstanceAs (Decidable (_ ≤ _))

def needMove (w : BoxPointType K) (posLiD : Coords K) : Prop :=
  ∃ i, atEdge detRange (w.vertexMin i) (posLiD i) ∨ atEdge detRange (w.vertexMax i) (posLiD i)

instance (w : BoxPointType K) (posLiD : Coords K) : Decidable (needMove detRange w posLiD) :=
  inferInstanceAs (Decidable (∃ i, atEdge detRange (w.vertexMin i) (posLiD i) ∨
    atEdge detRange (w.vertexMax i) (posLiD i)))

/-- One pass of the loop over the axes: `New_LocalMap_Points` and `cub_needrm`. -/
def moveAxis (w : BoxPointType K) (posLiD : Coords K) (acc : BoxPointType K × List (BoxPointType K))
    (i : Fin 3) : BoxPointType K × List (BoxPointType K) :=
  let (new, cubNeedrm) := acc
  let mov := movDist cubeLen detRange
  if atEdge detRange (w.vertexMin i) (posLiD i) then
    ({ vertexMax := Function.update new.vertexMax i (new.vertexMax i - mov)
       vertexMin := Function.update new.vertexMin i (new.vertexMin i - mov) },
      cubNeedrm ++ [{ w with vertexMin := Function.update w.vertexMin i (w.vertexMax i - mov) }])
  else if atEdge detRange (w.vertexMax i) (posLiD i) then
    ({ vertexMax := Function.update new.vertexMax i (new.vertexMax i + mov)
       vertexMin := Function.update new.vertexMin i (new.vertexMin i + mov) },
      cubNeedrm ++ [{ w with vertexMax := Function.update w.vertexMax i (w.vertexMin i + mov) }])
  else (new, cubNeedrm)

def lasermapFovSegment (s : MapWindow K) (posLiD : Coords K) :
    MapWindow K × List (BoxPointType K) :=
  if !s.localmapInitialized then
    ({ localmapInitialized := true
       localMapPoints :=
         { vertexMin := fun i => posLiD i - cubeLen / lit 2
           vertexMax := fun i => posLiD i + cubeLen / lit 2 } }, [])
  else if needMove detRange s.localMapPoints posLiD then
    let (new, cubNeedrm) := (List.finRange 3).foldl
      (moveAxis cubeLen detRange s.localMapPoints posLiD) (s.localMapPoints, [])
    ({ s with localMapPoints := new }, cubNeedrm)
  else (s, [])

/-- The window over a run: an event is the position of a call, the answer what
the call leaves in `cub_needrm`. -/
def mapWindow : Machine (MapWindow K) (Coords K) (List (BoxPointType K)) where
  init := ⟨false, ⟨fun _ => lit 0, fun _ => lit 0⟩⟩
  step := lasermapFovSegment cubeLen detRange

def sqDist (p q : Coords K) : K :=
  (p 0 - q 0) * (p 0 - q 0) + (p 1 - q 1) * (p 1 - q 1) + (p 2 - q 2) * (p 2 - q 2)

/-- Whatever the positions were, no call gives up a box with a point in sensor
range of its position. -/
def KeepsSensorRange : Prop :=
  ∀ positions posLiD, ∀ box ∈ (mapWindow cubeLen detRange).out
      ((mapWindow cubeLen detRange).run (mapWindow cubeLen detRange).init positions) posLiD,
    ∀ p, box.contains p → ¬ sqDist p posLiD ≤ detRange * detRange

/-! ## The boxes given up -/

/-- The box the pass over axis `i` gives up. -/
def removedBox (w : BoxPointType K) (posLiD : Coords K) (i : Fin 3) : Option (BoxPointType K) :=
  if atEdge detRange (w.vertexMin i) (posLiD i) then
    some { w with vertexMin :=
      Function.update w.vertexMin i (w.vertexMax i - movDist cubeLen detRange) }
  else if atEdge detRange (w.vertexMax i) (posLiD i) then
    some { w with vertexMax :=
      Function.update w.vertexMax i (w.vertexMin i + movDist cubeLen detRange) }
  else none

variable {cubeLen detRange}

theorem moveAxis_boxes (w : BoxPointType K) (posLiD : Coords K)
    (acc : BoxPointType K × List (BoxPointType K)) (i : Fin 3) :
    (moveAxis cubeLen detRange w posLiD acc i).2 =
      acc.2 ++ (removedBox cubeLen detRange w posLiD i).toList := by
  rw [moveAxis, removedBox]
  split_ifs <;> simp

theorem foldl_moveAxis_boxes (w : BoxPointType K) (posLiD : Coords K) (axes : List (Fin 3))
    (acc : BoxPointType K × List (BoxPointType K)) :
    (axes.foldl (moveAxis cubeLen detRange w posLiD) acc).2 =
      acc.2 ++ axes.flatMap fun i => (removedBox cubeLen detRange w posLiD i).toList := by
  induction axes generalizing acc with
  | nil => simp
  | cons i rest ih =>
    rw [List.foldl_cons, ih, moveAxis_boxes, List.flatMap_cons, List.append_assoc]

theorem needMove_of_removedBox {w : BoxPointType K} {posLiD : Coords K} {i : Fin 3}
    {box : BoxPointType K} (hbox : removedBox cubeLen detRange w posLiD i = some box) :
    needMove detRange w posLiD := by
  rw [removedBox] at hbox
  split_ifs at hbox with hlow hhigh
  · exact ⟨i, .inl hlow⟩
  · exact ⟨i, .inr hhigh⟩

/-- A call gives up the boxes of the axes of the window it finds, and none before
there is a window. -/
theorem mem_cubNeedrm {s : MapWindow K} {posLiD : Coords K} {box : BoxPointType K} :
    box ∈ (lasermapFovSegment cubeLen detRange s posLiD).2 ↔ s.localmapInitialized = true ∧
      ∃ i, removedBox cubeLen detRange s.localMapPoints posLiD i = some box := by
  have hboxes : box ∈ ((List.finRange 3).foldl (moveAxis cubeLen detRange s.localMapPoints posLiD)
      (s.localMapPoints, [])).2 ↔
      ∃ i, removedBox cubeLen detRange s.localMapPoints posLiD i = some box := by
    rw [foldl_moveAxis_boxes]
    simp
  rw [lasermapFovSegment]
  split_ifs with hinit hmove
  · have hfalse : s.localmapInitialized = false := by simpa using hinit
    simp [hfalse]
  · have htrue : s.localmapInitialized = true := by simpa using hinit
    rw [htrue, eq_self, true_and, ← hboxes]
  · constructor
    · intro hbox
      cases hbox
    · intro ⟨_, i, hi⟩
      exact absurd (needMove_of_removedBox hi) hmove

/-! ## The side of the window -/

section

variable {F : Type} [Field F] [LinearOrder F] [FloorRing F] {cubeLen detRange : F}

def Sides (side : F) (w : BoxPointType F) : Prop := ∀ i, w.vertexMax i - w.vertexMin i = side

theorem Sides.moveAxis {side : F} {w : BoxPointType F} {posLiD : Coords F}
    {acc : BoxPointType F × List (BoxPointType F)} (hacc : Sides side acc.1) (i : Fin 3) :
    Sides side (moveAxis cubeLen detRange w posLiD acc i).1 := by
  intro j
  have hj := hacc j
  rw [LaserMapping.moveAxis]
  split_ifs
  · by_cases hij : j = i
    · subst hij
      simpa using hj
    · simpa [Function.update_of_ne hij] using hj
  · by_cases hij : j = i
    · subst hij
      simpa using hj
    · simpa [Function.update_of_ne hij] using hj
  · exact hj

theorem Sides.foldl {side : F} {w : BoxPointType F} {posLiD : Coords F} (axes : List (Fin 3))
    {acc : BoxPointType F × List (BoxPointType F)} (hacc : Sides side acc.1) :
    Sides side (axes.foldl (LaserMapping.moveAxis cubeLen detRange w posLiD) acc).1 := by
  induction axes generalizing acc with
  | nil => exact hacc
  | cons i rest ih => exact ih (hacc.moveAxis i)

/-- Once there is a window, its sides are `cube_len` long. -/
def MapWindow.Sized (cubeLen : F) (s : MapWindow F) : Prop :=
  s.localmapInitialized = true → Sides cubeLen s.localMapPoints

theorem MapWindow.Sized.step {s : MapWindow F} (hs : s.Sized cubeLen) (posLiD : Coords F) :
    ((mapWindow cubeLen detRange).next s posLiD).Sized cubeLen := by
  show (lasermapFovSegment cubeLen detRange s posLiD).1.Sized cubeLen
  rw [lasermapFovSegment]
  split_ifs with hinit hmove
  · intro _ i
    show posLiD i + cubeLen / lit 2 - (posLiD i - cubeLen / lit 2) = cubeLen
    rw [lit_eq]
    push_cast
    ring
  · intro hset
    have hfound : Sides cubeLen (s.localMapPoints, ([] : List (BoxPointType F))).1 := hs hset
    exact hfound.foldl (List.finRange 3)
  · exact hs

theorem sized_run (positions : List (Coords F)) :
    ((mapWindow cubeLen detRange).run (mapWindow cubeLen detRange).init positions).Sized
      cubeLen :=
  Machine.run_invariant (I := MapWindow.Sized cubeLen) (fun _ posLiD hs => hs.step posLiD)
    (fun hset => by cases hset) positions

/-! ## Sensor range -/

theorem movDist_eq :
    movDist cubeLen detRange = max ((cubeLen - 3 * detRange) * (9 / 20)) (detRange / 2) := by
  rw [movDist, movThreshold, ratio_eq, ratio_eq, ratio_eq, lit_eq, lit_eq]
  congr 1 <;> push_cast <;> ring

variable [IsStrictOrderedRing F]

theorem atEdge_iff {edge x : F} : atEdge detRange edge x ↔ |x - edge| ≤ 3 / 2 * detRange := by
  rw [atEdge, fabs_eq_abs, movThreshold, ratio_eq]
  norm_num

theorem sq_le_sqDist (p q : Coords F) (i : Fin 3) : (p i - q i) * (p i - q i) ≤ sqDist p q := by
  have h0 := mul_self_nonneg (p 0 - q 0)
  have h1 := mul_self_nonneg (p 1 - q 1)
  have h2 := mul_self_nonneg (p 2 - q 2)
  rw [sqDist]
  have hi : i = 0 ∨ i = 1 ∨ i = 2 := by omega
  rcases hi with rfl | rfl | rfl <;> linarith

/-- In a window longer than three ranges the box given up on an axis lies beyond
the range, whichever face was near. -/
theorem removedBox_far (hlong : 3 * detRange < cubeLen) (hD : 0 < detRange)
    {w : BoxPointType F} (hw : Sides cubeLen w) {posLiD : Coords F} {i : Fin 3}
    {box : BoxPointType F} (hbox : removedBox cubeLen detRange w posLiD i = some box)
    {p : Coords F} (hp : box.contains p) : detRange < |p i - posLiD i| := by
  have hmov : movDist cubeLen detRange < cubeLen - 5 / 2 * detRange := by
    rw [movDist_eq]
    apply max_lt <;> linarith
  have hside := hw i
  have hpi := hp i
  rw [removedBox] at hbox
  split_ifs at hbox with hlow hhigh
  · obtain rfl := Option.some.inj hbox
    rw [atEdge_iff, abs_le] at hlow
    simp only [Function.update_self] at hpi
    have hright : detRange < p i - posLiD i := by linarith [hpi.1, hlow.2]
    exact hright.trans_le (le_abs_self _)
  · obtain rfl := Option.some.inj hbox
    rw [atEdge_iff, abs_le] at hhigh
    simp only [Function.update_self] at hpi
    have hleft : detRange < -(p i - posLiD i) := by linarith [hpi.2, hhigh.1]
    exact hleft.trans_le (neg_le_abs _)

theorem not_inRange_of_far (hD : 0 < detRange) {p posLiD : Coords F} {i : Fin 3}
    (hfar : detRange < |p i - posLiD i|) : ¬ sqDist p posLiD ≤ detRange * detRange := by
  intro hnear
  have hsq : detRange * detRange < |p i - posLiD i| * |p i - posLiD i| :=
    mul_self_lt_mul_self hD.le hfar
  rw [abs_mul_abs_self] at hsq
  exact absurd (sq_le_sqDist p posLiD i) (not_le.mpr (hnear.trans_lt hsq))

/-- A robot that does not move: in a window of at most three ranges its second
call gives up a box that reaches into the range. -/
theorem rest_gives_up (hL : 0 < cubeLen) (hD : 0 < detRange) (hshort : cubeLen ≤ 3 * detRange) :
    ¬ KeepsSensorRange cubeLen detRange := by
  let origin : Coords F := fun _ => 0
  let window : BoxPointType F :=
    { vertexMin := fun _ => 0 - cubeLen / lit 2, vertexMax := fun _ => 0 + cubeLen / lit 2 }
  have hfirst : (mapWindow cubeLen detRange).run (mapWindow cubeLen detRange).init [origin] =
      ⟨true, window⟩ := rfl
  have hhalf : (lit 2 : F) = 2 := by norm_num [lit_eq]
  have hmov : movDist cubeLen detRange = detRange / 2 := by
    rw [movDist_eq]
    apply max_eq_right
    linarith
  have hlow : atEdge detRange (window.vertexMin 0) (origin 0) := by
    show atEdge detRange (0 - cubeLen / lit 2) 0
    rw [atEdge_iff, hhalf, abs_le]
    constructor <;> linarith
  let lost : BoxPointType F := { window with
    vertexMin := Function.update window.vertexMin 0 (cubeLen / 2 - detRange / 2) }
  have hlost : removedBox cubeLen detRange window origin 0 = some lost := by
    rw [removedBox, if_pos hlow, hmov]
    simp only [lost, window, hhalf, zero_add]
  have hmem : lost ∈ (lasermapFovSegment cubeLen detRange ⟨true, window⟩ origin).2 :=
    mem_cubNeedrm.mpr ⟨rfl, 0, hlost⟩
  -- the point of the lost box nearest to the LiDAR
  let near : F := max (cubeLen / 2 - detRange / 2) 0
  have hnear : cubeLen / 2 - detRange / 2 ≤ near := le_max_left _ _
  have hnonneg : 0 ≤ near := le_max_right _ _
  have hin : near < cubeLen / 2 := max_lt (by linarith) (by linarith)
  have hrange : near ≤ detRange := max_le (by linarith) hD.le
  have hcontains : lost.contains (Function.update origin 0 near) := by
    intro i
    by_cases hi : i = 0
    · subst hi
      simpa [lost, window, hhalf] using And.intro hnear hin
    · simpa [lost, window, origin, hhalf, Function.update_of_ne hi] using
        And.intro (half_pos hL).le hL
  have hsq : sqDist (Function.update origin 0 near) origin ≤ detRange * detRange := by
    simpa [sqDist, origin] using mul_self_le_mul_self hnonneg hrange
  intro hkeeps
  rw [← hfirst] at hmem
  exact hkeeps [origin] origin lost hmem _ hcontains hsq

/-- The window keeps the sensor range of every call, whatever the positions,
exactly when its side exceeds three ranges. -/
theorem keepsSensorRange_iff (hL : 0 < cubeLen) (hD : 0 < detRange) :
    KeepsSensorRange cubeLen detRange ↔ 3 * detRange < cubeLen := by
  constructor
  · intro hkeeps
    by_contra hshort
    exact rest_gives_up hL hD (not_lt.mp hshort) hkeeps
  · intro hlong positions posLiD box hbox p hp
    have hmem : box ∈ (lasermapFovSegment cubeLen detRange ((mapWindow cubeLen detRange).run
        (mapWindow cubeLen detRange).init positions) posLiD).2 := hbox
    obtain ⟨hinit, i, hi⟩ := mem_cubNeedrm.mp hmem
    have hsides := sized_run positions hinit
    exact not_inRange_of_far hD (removedBox_far hlong hD hsides hi hp)

theorem keepsSensorRange_iff_mid360 :
    KeepsSensorRange (1000 : ℚ) 100 ↔ 3 * (100 : ℚ) < 1000 :=
  keepsSensorRange_iff (by norm_num) (by norm_num)

/-- Neither the declared defaults nor the parameters shipped for the Avia keep it. -/
theorem shipped_windows_lose_range :
    ¬ KeepsSensorRange (200 : ℚ) 300 ∧ ¬ KeepsSensorRange (1000 : ℚ) 450 :=
  ⟨rest_gives_up (by norm_num) (by norm_num) (by norm_num),
    rest_gives_up (by norm_num) (by norm_num) (by norm_num)⟩

end

end LaserMapping
end RobotNav
