/-
What one call of `lasermap_fov_segment` does to the window: every axis is shifted
or left alone by itself, and the boxes given up are what the old window has over
the new one.

Over a run whose positions move in small steps one shift a call is enough: the LiDAR
never ends a call near a face.
-/
import Mathlib.Data.List.Chain
import Mathlib.Data.List.Induction
import RobotNav.LaserMapping.FovSegment

namespace RobotNav
namespace LaserMapping

open IkdTree

variable {F : Type} [Field F] [LinearOrder F] [FloorRing F] {cubeLen detRange : F}

/-- The boxes given up are exactly the old window without the new one. -/
structure MovesWindow (old new : BoxPointType F) (cubNeedrm : List (BoxPointType F)) : Prop where
  sides : ∀ i, new.vertexMax i - new.vertexMin i = old.vertexMax i - old.vertexMin i
  inside : ∀ box ∈ cubNeedrm, ∀ p, box.contains p → old.contains p
  covers : ∀ p, old.contains p → ((∃ box ∈ cubNeedrm, box.contains p) ↔ ¬ new.contains p)

/-! ## One axis at a time -/

/-- How far the call moves the window along axis `i`. -/
def axisShift (cubeLen detRange : F) (w : BoxPointType F) (posLiD : Coords F) (i : Fin 3) : F :=
  if atEdge detRange (w.vertexMin i) (posLiD i) then -movDist cubeLen detRange
  else if atEdge detRange (w.vertexMax i) (posLiD i) then movDist cubeLen detRange
  else 0

/-- `new` is `old` with the faces of the axes in `axes` shifted. -/
structure Shifted (shift : Fin 3 → F) (axes : List (Fin 3)) (old new : BoxPointType F) : Prop where
  moved : ∀ i ∈ axes, new.vertexMin i = old.vertexMin i + shift i ∧
    new.vertexMax i = old.vertexMax i + shift i
  kept : ∀ i, i ∉ axes → new.vertexMin i = old.vertexMin i ∧ new.vertexMax i = old.vertexMax i

omit [LinearOrder F] [FloorRing F] in
theorem Shifted.single (shift : Fin 3 → F) (w : BoxPointType F) (i : Fin 3) :
    Shifted shift [i] w
      { vertexMin := Function.update w.vertexMin i (w.vertexMin i + shift i)
        vertexMax := Function.update w.vertexMax i (w.vertexMax i + shift i) } := by
  constructor
  · intro j hj
    obtain rfl := List.mem_singleton.mp hj
    exact ⟨Function.update_self .., Function.update_self ..⟩
  · intro j hj
    have hne : j ≠ i := fun h => hj (List.mem_singleton.mpr h)
    exact ⟨Function.update_of_ne hne .., Function.update_of_ne hne ..⟩

omit [LinearOrder F] [FloorRing F] in
theorem Shifted.trans {shift : Fin 3 → F} {i : Fin 3} {axes : List (Fin 3)}
    {a b c : BoxPointType F} (hi : i ∉ axes) (hab : Shifted shift [i] a b)
    (hbc : Shifted shift axes b c) : Shifted shift (i :: axes) a c := by
  constructor
  · intro j hj
    rcases List.mem_cons.mp hj with rfl | hj
    · rw [(hbc.kept j hi).1, (hbc.kept j hi).2]
      exact hab.moved j List.mem_cons_self
    · have hne : j ∉ [i] := fun h => hi (List.mem_singleton.mp h ▸ hj)
      rw [(hbc.moved j hj).1, (hbc.moved j hj).2, (hab.kept j hne).1, (hab.kept j hne).2]
      exact ⟨rfl, rfl⟩
  · intro j hj
    have hjaxes : j ∉ axes := fun h => hj (List.mem_cons_of_mem i h)
    have hne : j ∉ [i] := fun h => hj (List.mem_singleton.mp h ▸ List.mem_cons_self)
    rw [(hbc.kept j hjaxes).1, (hbc.kept j hjaxes).2]
    exact hab.kept j hne

/-- One pass of the loop shifts its own axis, by the distance the window found
asks for. -/
theorem moveAxis_shifted (w : BoxPointType F) (posLiD : Coords F)
    (acc : BoxPointType F × List (BoxPointType F)) (i : Fin 3) :
    Shifted (axisShift cubeLen detRange w posLiD) [i] acc.1
      (moveAxis cubeLen detRange w posLiD acc i).1 := by
  have hsingle := Shifted.single (axisShift cubeLen detRange w posLiD) acc.1 i
  rw [axisShift] at hsingle
  rw [moveAxis]
  split_ifs with hlow hhigh
  · rw [if_pos hlow, ← sub_eq_add_neg, ← sub_eq_add_neg] at hsingle
    exact hsingle
  · rw [if_neg hlow, if_pos hhigh] at hsingle
    exact hsingle
  · rw [if_neg hlow, if_neg hhigh, add_zero, add_zero, Function.update_eq_self,
      Function.update_eq_self] at hsingle
    exact hsingle

theorem foldl_moveAxis_shifted (w : BoxPointType F) (posLiD : Coords F) {axes : List (Fin 3)}
    (hnodup : axes.Nodup) (acc : BoxPointType F × List (BoxPointType F)) :
    Shifted (axisShift cubeLen detRange w posLiD) axes acc.1
      (axes.foldl (moveAxis cubeLen detRange w posLiD) acc).1 := by
  induction axes generalizing acc with
  | nil => exact ⟨fun i hi => absurd hi List.not_mem_nil, fun i _ => ⟨rfl, rfl⟩⟩
  | cons i rest ih =>
    obtain ⟨hi, hrest⟩ := List.nodup_cons.mp hnodup
    exact (moveAxis_shifted w posLiD acc i).trans hi (ih hrest _)

theorem axisShift_eq_zero {w : BoxPointType F} {posLiD : Coords F}
    (hrest : ¬ needMove detRange w posLiD) (i : Fin 3) :
    axisShift cubeLen detRange w posLiD i = 0 := by
  have hlow : ¬ atEdge detRange (w.vertexMin i) (posLiD i) := fun h => hrest ⟨i, .inl h⟩
  have hhigh : ¬ atEdge detRange (w.vertexMax i) (posLiD i) := fun h => hrest ⟨i, .inr h⟩
  rw [axisShift, if_neg hlow, if_neg hhigh]

/-- Whether the call moves or not, the window ends up shifted on all three axes. -/
theorem lasermapFovSegment_faces (cubeLen detRange : F) {s : MapWindow F}
    (hinit : s.localmapInitialized = true) (posLiD : Coords F) (i : Fin 3) :
    (lasermapFovSegment cubeLen detRange s posLiD).1.localMapPoints.vertexMin i =
        s.localMapPoints.vertexMin i + axisShift cubeLen detRange s.localMapPoints posLiD i ∧
      (lasermapFovSegment cubeLen detRange s posLiD).1.localMapPoints.vertexMax i =
        s.localMapPoints.vertexMax i + axisShift cubeLen detRange s.localMapPoints posLiD i := by
  rw [lasermapFovSegment, hinit]
  by_cases hmove : needMove detRange s.localMapPoints posLiD
  · rw [if_neg (by simp), if_pos hmove]
    exact (foldl_moveAxis_shifted s.localMapPoints posLiD (List.nodup_finRange 3)
      (s.localMapPoints, [])).moved i (List.mem_finRange i)
  · rw [if_neg (by simp), if_neg hmove, axisShift_eq_zero hmove, add_zero, add_zero]
    exact ⟨rfl, rfl⟩

theorem mem_window_iff {s : MapWindow F} (hinit : s.localmapInitialized = true)
    (posLiD p : Coords F) :
    (lasermapFovSegment cubeLen detRange s posLiD).1.localMapPoints.contains p ↔
      ∀ i, s.localMapPoints.vertexMin i + axisShift cubeLen detRange s.localMapPoints posLiD i ≤
          p i ∧
        p i < s.localMapPoints.vertexMax i +
          axisShift cubeLen detRange s.localMapPoints posLiD i := by
  rw [BoxPointType.contains]
  refine forall_congr' fun i => ?_
  obtain ⟨hmin, hmax⟩ := lasermapFovSegment_faces cubeLen detRange hinit posLiD i
  rw [hmin, hmax]

/-! ## The boxes of one axis -/

theorem contains_update {w : BoxPointType F} {i : Fin 3} {low high : F} {p : Coords F} :
    (⟨Function.update w.vertexMin i low, Function.update w.vertexMax i high⟩ :
        BoxPointType F).contains p ↔
      (∀ j, j ≠ i → w.vertexMin j ≤ p j ∧ p j < w.vertexMax j) ∧ low ≤ p i ∧ p i < high := by
  constructor
  · intro hp
    refine ⟨fun j hj => ?_, ?_⟩
    · simpa only [Function.update_of_ne hj] using hp j
    · simpa only [Function.update_self] using hp i
  · intro ⟨hothers, hi⟩ j
    by_cases hj : j = i
    · subst hj
      simpa only [Function.update_self] using hi
    · simpa only [Function.update_of_ne hj] using hothers j hj

theorem contains_update_min {w : BoxPointType F} {i : Fin 3} {face : F} {p : Coords F} :
    ({ w with vertexMin := Function.update w.vertexMin i face } : BoxPointType F).contains p ↔
      (∀ j, j ≠ i → w.vertexMin j ≤ p j ∧ p j < w.vertexMax j) ∧
        face ≤ p i ∧ p i < w.vertexMax i := by
  rw [← contains_update, Function.update_eq_self]

theorem contains_update_max {w : BoxPointType F} {i : Fin 3} {face : F} {p : Coords F} :
    ({ w with vertexMax := Function.update w.vertexMax i face } : BoxPointType F).contains p ↔
      (∀ j, j ≠ i → w.vertexMin j ≤ p j ∧ p j < w.vertexMax j) ∧
        w.vertexMin i ≤ p i ∧ p i < face := by
  rw [← contains_update, Function.update_eq_self]

variable [IsStrictOrderedRing F]

theorem movDist_nonneg {edge x : F} (hedge : atEdge detRange edge x) :
    0 ≤ movDist cubeLen detRange := by
  have hrange : 0 ≤ 3 / 2 * detRange := (abs_nonneg _).trans (atEdge_iff.mp hedge)
  have hhalf : detRange / 2 ≤ movDist cubeLen detRange := by
    rw [movDist_eq]
    exact le_max_right _ _
  linarith

/-- On axis `i` a point of the old window is in the box given up exactly when the
shifted faces no longer hold it. -/
theorem removedBox_covers {w : BoxPointType F} {posLiD : Coords F} (i : Fin 3) {p : Coords F}
    (hp : w.contains p) :
    (∃ box, removedBox cubeLen detRange w posLiD i = some box ∧ box.contains p) ↔
      ¬ (w.vertexMin i + axisShift cubeLen detRange w posLiD i ≤ p i ∧
        p i < w.vertexMax i + axisShift cubeLen detRange w posLiD i) := by
  obtain ⟨hmin, hmax⟩ := hp i
  rw [removedBox, axisShift]
  split_ifs with hlow hhigh
  · -- the window moves down, and the slab at its upper face goes
    have hmov : 0 ≤ movDist cubeLen detRange := movDist_nonneg hlow
    constructor
    · rintro ⟨box, hbox, hin⟩ ⟨-, hlt⟩
      obtain rfl := Option.some.inj hbox
      have hface := (contains_update_min.mp hin).2.1
      linarith
    · intro hout
      have hge : ¬ p i < w.vertexMax i + -movDist cubeLen detRange := fun hlt =>
        hout ⟨by linarith, hlt⟩
      exact ⟨_, rfl, contains_update_min.mpr ⟨fun j _ => hp j, by linarith, hmax⟩⟩
  · have hmov : 0 ≤ movDist cubeLen detRange := movDist_nonneg hhigh
    constructor
    · rintro ⟨box, hbox, hin⟩ ⟨hle, -⟩
      obtain rfl := Option.some.inj hbox
      have hface := (contains_update_max.mp hin).2.2
      linarith
    · intro hout
      have hlt : ¬ w.vertexMin i + movDist cubeLen detRange ≤ p i := fun hle =>
        hout ⟨hle, by linarith⟩
      exact ⟨_, rfl, contains_update_max.mpr ⟨fun j _ => hp j, hmin, not_le.mp hlt⟩⟩
  · rw [add_zero, add_zero]
    constructor
    · rintro ⟨box, hbox, -⟩
      cases hbox
    · intro hout
      exact absurd ⟨hmin, hmax⟩ hout

/-- A box given up lies in the old window when the window is as wide as the move. -/
theorem removedBox_inside {w : BoxPointType F} {posLiD : Coords F} {i : Fin 3}
    (hwide : movDist cubeLen detRange ≤ w.vertexMax i - w.vertexMin i) {box : BoxPointType F}
    (hbox : removedBox cubeLen detRange w posLiD i = some box) {p : Coords F}
    (hp : box.contains p) : w.contains p := by
  have haxis : (∀ j, j ≠ i → w.vertexMin j ≤ p j ∧ p j < w.vertexMax j) ∧
      w.vertexMin i ≤ p i ∧ p i < w.vertexMax i := by
    rw [removedBox] at hbox
    split_ifs at hbox with hlow hhigh
    · obtain rfl := Option.some.inj hbox
      obtain ⟨hothers, hface, hmax⟩ := contains_update_min.mp hp
      exact ⟨hothers, by linarith, hmax⟩
    · obtain rfl := Option.some.inj hbox
      obtain ⟨hothers, hmin, hface⟩ := contains_update_max.mp hp
      exact ⟨hothers, hmin, by linarith⟩
  intro j
  by_cases hj : j = i
  · rw [hj]
    exact haxis.2
  · exact haxis.1 j hj

/-! ## The call -/

/-- One call, from any window whose sides are `cube_len`, as every run keeps them:
the window moves as a whole, and what it gives up is exactly what it leaves. -/
theorem lasermapFovSegment_movesWindow (hmov : movDist cubeLen detRange ≤ cubeLen)
    {s : MapWindow F} (hinit : s.localmapInitialized = true)
    (hsides : Sides cubeLen s.localMapPoints) (posLiD : Coords F) :
    MovesWindow s.localMapPoints (lasermapFovSegment cubeLen detRange s posLiD).1.localMapPoints
      (lasermapFovSegment cubeLen detRange s posLiD).2 := by
  constructor
  · intro i
    obtain ⟨hmin, hmax⟩ := lasermapFovSegment_faces cubeLen detRange hinit posLiD i
    rw [hmin, hmax]
    ring
  · intro box hbox p hp
    obtain ⟨-, i, hi⟩ := mem_cubNeedrm.mp hbox
    exact removedBox_inside (by rw [hsides i]; exact hmov) hi hp
  · intro p hp
    rw [mem_window_iff hinit, not_forall]
    constructor
    · intro ⟨box, hbox, hin⟩
      obtain ⟨-, i, hi⟩ := mem_cubNeedrm.mp hbox
      exact ⟨i, (removedBox_covers i hp).mp ⟨box, hi, hin⟩⟩
    · intro ⟨i, hout⟩
      obtain ⟨box, hi, hin⟩ := (removedBox_covers i hp).mpr hout
      exact ⟨box, mem_cubNeedrm.mpr ⟨hinit, i, hi⟩, hin⟩

/-! ## Positions that move in small steps -/

/-- Inside the window, and farther from all six faces than the distance that makes it
move. -/
structure KeepsDistance (detRange : F) (w : BoxPointType F) (posLiD : Coords F) : Prop where
  inside : w.contains posLiD
  apart : ∀ i, movThreshold * detRange < posLiD i - w.vertexMin i ∧
    movThreshold * detRange < w.vertexMax i - posLiD i

/-- No axis moves by more than a shift of the window, nor by more than twice the
threshold. -/
def SmallStep (cubeLen detRange : F) (p q : Coords F) : Prop :=
  ∀ i, |q i - p i| ≤ min (movDist cubeLen detRange)
    (movThreshold * detRange + movThreshold * detRange)

/-- A shift from one face stops before the zone of the other. -/
theorem movDist_lt (hthird : 3 * detRange < cubeLen) (hlong : 7 / 2 * detRange < cubeLen) :
    movDist cubeLen detRange < cubeLen - 3 * detRange := by
  rw [movDist_eq]
  apply max_lt <;> linarith

omit [IsStrictOrderedRing F] in
theorem movThreshold_eq : (movThreshold : F) = 3 / 2 := by
  rw [movThreshold, ratio_eq]
  norm_num

/-- One axis of a call: a position within the threshold of a face is shifted away
from it, and not into the zone of the other face. -/
theorem axisShift_keeps (hlong : 7 / 2 * detRange < cubeLen) {w : BoxPointType F}
    (hw : Sides cubeLen w) {p q : Coords F} (hp : KeepsDistance detRange w p)
    (hstep : SmallStep cubeLen detRange p q) (i : Fin 3) :
    3 / 2 * detRange < q i - (w.vertexMin i + axisShift cubeLen detRange w q i) ∧
      3 / 2 * detRange < w.vertexMax i + axisShift cubeLen detRange w q i - q i := by
  obtain ⟨hlow, hhigh⟩ := hp.apart i
  have hside := hw i
  have hmov := (hstep i).trans (min_le_left _ _)
  have htwice := (hstep i).trans (min_le_right _ _)
  rw [movThreshold_eq] at hlow hhigh htwice
  rw [abs_le] at hmov htwice
  have hshift := movDist_lt (by linarith) hlong
  rw [axisShift]
  split_ifs with hmin hmax
  · rw [atEdge_iff, abs_le] at hmin
    constructor <;> linarith
  · rw [atEdge_iff, abs_le] at hmax
    constructor <;> linarith
  · -- no face is near, and the position has not passed one either
    rw [atEdge_iff, abs_le, not_and_or, not_le, not_le] at hmin hmax
    rw [add_zero, add_zero]
    constructor
    · rcases hmin with h | h <;> linarith
    · rcases hmax with h | h <;> linarith

omit [IsStrictOrderedRing F] in
theorem localmapInitialized_next (s : MapWindow F) (posLiD : Coords F) :
    ((mapWindow cubeLen detRange).next s posLiD).localmapInitialized = true := by
  show (lasermapFovSegment cubeLen detRange s posLiD).1.localmapInitialized = true
  rw [lasermapFovSegment]
  split_ifs with hinit
  · rfl
  · simpa using hinit
  · simpa using hinit

omit [IsStrictOrderedRing F] in
theorem localmapInitialized_run (positions : List (Coords F)) (posLiD : Coords F) :
    ((mapWindow cubeLen detRange).run (mapWindow cubeLen detRange).init
      (positions ++ [posLiD])).localmapInitialized = true := by
  rw [Machine.run_snoc]
  exact localmapInitialized_next _ _

/-- The first call builds the window around its position. -/
theorem firstCall_keepsDistance (hL : 0 < cubeLen) (hlong : 7 / 2 * detRange < cubeLen)
    (posLiD : Coords F) :
    KeepsDistance detRange ((mapWindow cubeLen detRange).run
      (mapWindow cubeLen detRange).init [posLiD]).localMapPoints posLiD := by
  have hthird : 3 * detRange < cubeLen := by
    rcases le_total 0 detRange with h | h <;> linarith
  constructor
  · intro i
    show posLiD i - cubeLen / lit 2 ≤ posLiD i ∧ posLiD i < posLiD i + cubeLen / lit 2
    rw [lit_eq]
    push_cast
    constructor <;> linarith
  · intro i
    show movThreshold * detRange < posLiD i - (posLiD i - cubeLen / lit 2) ∧
      movThreshold * detRange < posLiD i + cubeLen / lit 2 - posLiD i
    rw [movThreshold_eq, lit_eq]
    push_cast
    constructor <;> linarith

/-- After every call of a run the LiDAR is farther than the threshold from all six
faces, when no step is longer than one shift makes up for. -/
theorem run_keepsDistance (hL : 0 < cubeLen) (hlong : 7 / 2 * detRange < cubeLen)
    (positions : List (Coords F)) (posLiD : Coords F)
    (hsteps : (positions ++ [posLiD]).IsChain (SmallStep cubeLen detRange)) :
    KeepsDistance detRange ((mapWindow cubeLen detRange).run (mapWindow cubeLen detRange).init
      (positions ++ [posLiD])).localMapPoints posLiD := by
  induction positions using List.reverseRecOn generalizing posLiD with
  | nil => exact firstCall_keepsDistance hL hlong posLiD
  | append_singleton positions p ih =>
    obtain ⟨hbefore, -, hlast⟩ := List.isChain_append.mp hsteps
    have hstep : SmallStep cubeLen detRange p posLiD := hlast p (by simp) posLiD (by simp)
    have hinit : ((mapWindow cubeLen detRange).run (mapWindow cubeLen detRange).init
        (positions ++ [p])).localmapInitialized = true := localmapInitialized_run positions p
    have hsides := sized_run (positions ++ [p]) hinit
    have hD : 0 ≤ detRange := by
      have htwice := (abs_nonneg _).trans ((hstep 0).trans (min_le_right _ _))
      rw [movThreshold_eq] at htwice
      linarith
    have hkeeps := axisShift_keeps hlong hsides (ih p hbefore) hstep
    rw [Machine.run_snoc]
    constructor
    · refine (mem_window_iff hinit posLiD posLiD).mpr fun i => ?_
      obtain ⟨hlow, hhigh⟩ := hkeeps i
      constructor <;> linarith
    · intro i
      obtain ⟨hmin, hmax⟩ := lasermapFovSegment_faces cubeLen detRange hinit posLiD i
      have hi := hkeeps i
      rw [← hmin, ← hmax, ← movThreshold_eq] at hi
      exact hi

/-- Two steps into a corner of the window, each as long as the shift allows. -/
def cornerSteps : List (Coords ℚ) := [fun _ => 0, fun _ => 300, fun _ => 600]

theorem run_keepsDistance_mid360 :
    KeepsDistance 100 ((mapWindow (1000 : ℚ) 100).run (mapWindow (1000 : ℚ) 100).init
      (cornerSteps ++ [fun _ => 900])).localMapPoints (fun _ => 900) := by
  refine run_keepsDistance (by norm_num) (by norm_num) cornerSteps _ ?_
  have hmov : movDist (1000 : ℚ) 100 = 315 := by
    rw [movDist_eq]
    norm_num
  have hsmall : ∀ a b : ℚ, |b - a| ≤ 300 →
      SmallStep 1000 100 (fun _ => a) (fun _ => b) := by
    intro a b hab _
    rw [hmov, movThreshold_eq]
    exact hab.trans (by norm_num)
  refine .cons_cons (hsmall 0 300 ?_)
    (.cons_cons (hsmall 300 600 ?_) (.cons_cons (hsmall 600 900 ?_) (.singleton _)))
  · norm_num
  · norm_num
  · norm_num

/-- A window around the origin. -/
def originWindow : MapWindow ℚ := ⟨true, ⟨fun _ => -500, fun _ => 500⟩⟩

/-- At the lower face on the first axis and at the upper one on the second. -/
def atTwoFaces : Coords ℚ := fun i => if i = 0 then -400 else if i = 1 then 360 else 0

theorem lasermapFovSegment_movesWindow_mid360 :
    MovesWindow originWindow.localMapPoints
      (lasermapFovSegment 1000 100 originWindow atTwoFaces).1.localMapPoints
      (lasermapFovSegment 1000 100 originWindow atTwoFaces).2 :=
  lasermapFovSegment_movesWindow (by rw [movDist_eq]; norm_num) rfl
    (fun _ => by norm_num [originWindow]) atTwoFaces

example : (lasermapFovSegment 1000 100 originWindow atTwoFaces).2.length = 2 := by
  decide +kernel

end LaserMapping
end RobotNav
