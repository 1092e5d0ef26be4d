/-
Where the poses of a plan lie.

The line of sight tests one cell per step of the longer axis, interpolation takes
points of the real segment.  A point can therefore lie in a cell that was not
tested, next to one that was; and the first cell is never tested at all.
-/
import RobotNav.CustomPlanner.Plan

namespace RobotNav
namespace CustomPlanner

/-! ## The kept indices -/

section Smoothing

variable {K : Type} {p : Planner K}

/-- The farthest pose in sight, or the next one where none is. -/
structure Follows (p : Planner K) (path : List (PoseStamped K)) (current next : ℕ) : Prop where
  lt : current < next
  le : next < path.length
  seen : visible p path current next = true ∨ next = current + 1
  farthest : ∀ j, next < j → j < path.length → visible p path current j = false

theorem nextIdx_follows {path : List (PoseStamped K)} {current : ℕ}
    (hcurrent : current + 1 < path.length) (target : ℕ) (htarget : target < path.length)
    (hunseen : ∀ j, target < j → j < path.length → visible p path current j = false) :
    Follows p path current (nextIdx p path current target) := by
  induction target with
  | zero =>
    exact ⟨by rw [nextIdx]; omega, by rw [nextIdx]; omega, .inr rfl,
      fun j hj hlt => hunseen j (by omega) hlt⟩
  | succ target ih =>
    rw [nextIdx]
    by_cases hlt : current < target + 1
    · rw [if_pos hlt]
      by_cases hsee : visible p path current (target + 1) = true
      · rw [if_pos hsee]
        exact ⟨hlt, htarget, .inl hsee, hunseen⟩
      · rw [if_neg hsee]
        refine ih (by omega) fun j hj hjlt => ?_
        by_cases heq : j = target + 1
        · rw [heq]
          exact Bool.eq_false_iff.mpr hsee
        · exact hunseen j (by omega) hjlt
    · rw [if_neg hlt]
      exact ⟨by omega, hcurrent, .inr rfl, fun j hj hjlt => hunseen j (by omega) hjlt⟩

theorem keptAfter_chain (p : Planner K) (path : List (PoseStamped K)) (fuel : ℕ) :
    ∀ current, (current :: keptAfter p path fuel current).IsChain (Follows p path) := by
  induction fuel with
  | zero => exact fun current => List.isChain_singleton _
  | succ fuel ih =>
    intro current
    rw [keptAfter]
    by_cases hlt : current < path.length - 1
    · rw [if_pos hlt]
      refine List.IsChain.cons_cons ?_ (ih _)
      exact nextIdx_follows (by omega) _ (by omega) fun j hj hjlt => by omega
    · rw [if_neg hlt]
      exact List.isChain_singleton _

/-- Each kept index follows the one before it. -/
theorem keptIndices_chain (p : Planner K) (path : List (PoseStamped K)) :
    (keptIndices p path).IsChain (Follows p path) :=
  keptAfter_chain p path path.length 0

/-- The kept cells of a path of cells. -/
def keptCells [Arith K] (p : Planner K) (cells : List Cell) : List Cell :=
  (keptIndices p (cells.map (poseAt p))).filterMap fun i => cells[i]?

theorem smoothedPath_map [Arith K] (p : Planner K) (cells : List Cell) :
    smoothedPath p (cells.map (poseAt p)) = (keptCells p cells).map (poseAt p) := by
  unfold smoothedPath keptCells
  rw [List.map_filterMap]
  refine List.filterMap_congr fun i _ => ?_
  rw [List.getElem?_map]

theorem filterMap_getElem?_chain {α : Type} (cells : List α) {R : ℕ → ℕ → Prop}
    (hR : ∀ i k, R i k → k < cells.length) {is : List ℕ} (h : is.IsChain R)
    (hfirst : ∀ i ∈ is.head?, i < cells.length) :
    (is.filterMap fun i => cells[i]?).IsChain fun a b =>
      ∃ i k, R i k ∧ cells[i]? = some a ∧ cells[k]? = some b := by
  induction h with
  | nil => exact List.isChain_nil
  | singleton i =>
    have hi : cells[i]? = some _ := List.getElem?_eq_getElem (hfirst i rfl)
    rw [List.filterMap_cons_some hi]
    exact List.isChain_singleton _
  | @cons_cons i k rest hik hrest ih =>
    have hi : cells[i]? = some _ := List.getElem?_eq_getElem (hfirst i rfl)
    have hk : cells[k]? = some _ := List.getElem?_eq_getElem (hR i k hik)
    have htail := ih fun j hj => by
      rw [← Option.some.inj hj]
      exact hR i k hik
    rw [List.filterMap_cons_some hk] at htail
    rw [List.filterMap_cons_some hi, List.filterMap_cons_some hk]
    exact List.IsChain.cons_cons ⟨i, k, hik, hi, hk⟩ htail

/-- Two kept cells in a row: their places in the path follow each other. -/
theorem keptCells_chain [Arith K] (p : Planner K) {cells : List Cell} (hne : cells ≠ []) :
    (keptCells p cells).IsChain fun a b => ∃ i k, Follows p (cells.map (poseAt p)) i k ∧
      cells[i]? = some a ∧ cells[k]? = some b := by
  refine filterMap_getElem?_chain cells (fun i k h => ?_) (keptIndices_chain p _) fun i hi => ?_
  · have hle := h.le
    rwa [List.length_map] at hle
  · have h0 : 0 = i := Option.some.inj hi
    rw [← h0]
    exact List.length_pos_of_ne_nil hne

theorem mem_keptCells [Arith K] {cells : List Cell} {c : Cell} (h : c ∈ keptCells p cells) :
    c ∈ cells := by
  obtain ⟨i, -, hi⟩ := List.mem_filterMap.mp h
  exact List.mem_of_getElem? hi

/-! ## The poses of the plan -/

/-- A pose of the interpolated path is one of the smoothed path, or lies between
two of them. -/
theorem mem_interpolatedPath [Arith K] {path : List (PoseStamped K)} {pose : PoseStamped K}
    (h : pose ∈ interpolatedPath p path) :
    pose ∈ path ∨ ∃ p1 p2, [p1, p2] <:+: path ∧ ∃ n j, j < n ∧ pose = between p1 p2 n j := by
  induction path with
  | nil => exact absurd h List.not_mem_nil
  | cons p1 rest ih =>
    cases rest with
    | nil => exact .inl h
    | cons p2 rest =>
      rw [interpolatedPath] at h
      rcases List.mem_append.mp h with hseg | hrest
      · obtain ⟨j, hj, rfl⟩ := List.mem_map.mp hseg
        refine .inr ⟨p1, p2, ⟨[], rest, rfl⟩, _, j, List.mem_range.mp hj, rfl⟩
      · rcases ih hrest with hmem | ⟨q1, q2, hinfix, hj⟩
        · exact .inl (List.mem_cons_of_mem _ hmem)
        · exact .inr ⟨q1, q2, hinfix.trans (List.suffix_cons _ _).isInfix, hj⟩

/-- After the first, a pose of the plan is the goal or one of those before the
ends were set. -/
theorem setEnds_getElem? {start goal pose : PoseStamped K} {poses : List (PoseStamped K)} {i : ℕ}
    (h : (setEnds start goal poses)[i + 1]? = some pose) : pose = goal ∨ pose ∈ poses := by
  unfold setEnds at h
  rw [List.getElem?_set] at h
  split at h
  · split at h
    · exact .inl (Option.some.inj h).symm
    · cases h
  · rw [List.getElem?_set_ne (by omega)] at h
    exact .inr (List.mem_of_getElem? h)

theorem planPoses_getElem? [Arith K] {start goal pose : PoseStamped K} {cells : List Cell} {i : ℕ}
    (h : (planPoses p start goal (cells.map (poseAt p)))[i + 1]? = some pose) :
    pose = goal ∨ (∃ c ∈ cells, pose = poseAt p c) ∨
      ∃ a b, [a, b] <:+: keptCells p cells ∧
        ∃ n j, j < n ∧ pose = between (poseAt p a) (poseAt p b) n j := by
  rcases setEnds_getElem? h with hgoal | hmem
  · exact .inl hgoal
  · right
    split at hmem
    · rw [smoothedPath_map] at hmem
      rcases mem_interpolatedPath hmem with hkept | ⟨p1, p2, hinfix, n, j, hj, rfl⟩
      · obtain ⟨c, hc, rfl⟩ := List.mem_map.mp hkept
        exact .inl ⟨c, mem_keptCells hc, rfl⟩
      · obtain ⟨l, hl, heq⟩ := List.infix_map_iff.mp hinfix
        obtain ⟨a, l', rfl, rfl, hl'⟩ := List.map_eq_cons_iff.mp heq.symm
        obtain ⟨b, l'', rfl, rfl, hl''⟩ := List.map_eq_cons_iff.mp hl'
        rw [List.map_eq_nil_iff] at hl''
        subst hl''
        exact .inr ⟨a, b, hl, n, j, hj, rfl⟩
    · obtain ⟨c, hc, rfl⟩ := List.mem_map.mp hmem
      exact .inl ⟨c, hc, rfl⟩

end Smoothing

/-! ## Cells and world coordinates -/

def SharesEdge (a b : Cell) : Prop := Bresenham.Beside a.toPoint b.toPoint

section World

variable {K : Type} [Field K] [LinearOrder K] [FloorRing K]

/-- What nav2 is relied on for: `mapToWorld` gives the centre of a cell,
`worldToMap` the cell of the map a point lies in, and `LineIterator` is the integer
line of Bresenham. -/
structure Nav2 (p : Planner K) (originX originY resolution : K) : Prop where
  resolution_pos : 0 < resolution
  mapToWorld : ∀ c : Cell, p.mapToWorld c =
    (originX + ((c.x : K) + 1 / 2) * resolution, originY + ((c.y : K) + 1 / 2) * resolution)
  worldToMap : ∀ (x y : K) (c : Cell), p.worldToMap x y = some c ↔ p.costmap.InMap c ∧
    (originX + (c.x : K) * resolution ≤ x ∧ x < originX + ((c.x : K) + 1) * resolution) ∧
    (originY + (c.y : K) * resolution ≤ y ∧ y < originY + ((c.y : K) + 1) * resolution)
  lineIterator : ∀ a b : Cell,
    (p.lineIterator a b).map Cell.toPoint = Bresenham.walk a.toPoint b.toPoint

variable [IsStrictOrderedRing K] {p : Planner K} {originX originY resolution : K}

theorem Nav2.worldToMap_poseAt (h : Nav2 p originX originY resolution) {c : Cell}
    (hc : p.costmap.InMap c) : p.worldToMap (poseAt p c).x (poseAt p c).y = some c := by
  have hpos := h.resolution_pos
  have hx : (poseAt p c).x = originX + ((c.x : K) + 1 / 2) * resolution :=
    congrArg Prod.fst (h.mapToWorld c)
  have hy : (poseAt p c).y = originY + ((c.y : K) + 1 / 2) * resolution :=
    congrArg Prod.snd (h.mapToWorld c)
  rw [h.worldToMap, hx, hy]
  refine ⟨hc, ⟨?_, ?_⟩, ⟨?_, ?_⟩⟩ <;> nlinarith

theorem Nav2.cellOf_poseAt (h : Nav2 p originX originY resolution) {c : Cell}
    (hc : p.costmap.InMap c) : cellOf p (poseAt p c) = c := by
  rw [cellOf, h.worldToMap_poseAt hc]
  rfl

/-- One coordinate of a point between two cell centres lies in its pixel. -/
theorem pixel_interval (origin a b j n : K) (hpos : 0 < resolution) {i : ℤ}
    (hi : Bresenham.pixel (a + j / n * (b - a)) = i) :
    origin + i * resolution ≤ origin + (a + 1 / 2) * resolution +
        j * ((origin + (b + 1 / 2) * resolution) - (origin + (a + 1 / 2) * resolution)) / n ∧
      origin + (a + 1 / 2) * resolution +
          j * ((origin + (b + 1 / 2) * resolution) - (origin + (a + 1 / 2) * resolution)) / n <
        origin + (i + 1) * resolution := by
  have hle := Bresenham.pixel_le (a + j / n * (b - a))
  have hlt := Bresenham.lt_pixel (a + j / n * (b - a))
  rw [hi] at hle hlt
  have heq : origin + (a + 1 / 2) * resolution +
      j * ((origin + (b + 1 / 2) * resolution) - (origin + (a + 1 / 2) * resolution)) / n =
      origin + (a + j / n * (b - a) + 1 / 2) * resolution := by ring
  rw [heq]
  constructor
  · have hmul := mul_le_mul_of_nonneg_right hle hpos.le
    linarith
  · have hmul : (a + j / n * (b - a) + 1 / 2) * resolution < (i + 1) * resolution :=
      mul_lt_mul_of_pos_right (by linarith) hpos
    linarith

/-- An interpolated pose lies in the pixel of its point of the segment. -/
theorem Nav2.worldToMap_between (h : Nav2 p originX originY resolution) {a b : Cell}
    (ha : p.costmap.InMap a) (hb : p.costmap.InMap b) {n j : ℕ} (hj : j < n) :
    ∃ c, p.worldToMap (between (poseAt p a) (poseAt p b) n j).x
        (between (poseAt p a) (poseAt p b) n j).y = some c ∧
      c.toPoint = Bresenham.pixelAt a.toPoint b.toPoint ((j : K) / n) := by
  have hn : (0 : K) < n := Nat.cast_pos.mpr (by omega)
  have h0 : 0 ≤ (j : K) / n := by positivity
  have h1 : (j : K) / n ≤ 1 := by
    rw [div_le_one hn]
    exact_mod_cast hj.le
  obtain ⟨⟨hx0, hx1⟩, ⟨hy0, hy1⟩⟩ := Bresenham.pixelAt_box a.toPoint b.toPoint h0 h1
  have hax : a.toPoint.1 = a.x := rfl
  have hay : a.toPoint.2 = a.y := rfl
  have hbx : b.toPoint.1 = b.x := rfl
  have hby : b.toPoint.2 = b.y := rfl
  obtain ⟨ha1, ha2⟩ := ha
  obtain ⟨hb1, hb2⟩ := hb
  -- the pixel is a cell of the map, as both ends are
  obtain ⟨c, hc⟩ : ∃ c : Cell,
      c.toPoint = Bresenham.pixelAt a.toPoint b.toPoint ((j : K) / n) := by
    refine ⟨⟨(Bresenham.pixelAt a.toPoint b.toPoint ((j : K) / n)).1.toNat,
      (Bresenham.pixelAt a.toPoint b.toPoint ((j : K) / n)).2.toNat⟩, ?_⟩
    exact Prod.ext (Int.toNat_of_nonneg (by omega)) (Int.toNat_of_nonneg (by omega))
  refine ⟨c, ?_, hc⟩
  have hcx : (c.x : ℤ) = (Bresenham.pixelAt a.toPoint b.toPoint ((j : K) / n)).1 :=
    congrArg Prod.fst hc
  have hcy : (c.y : ℤ) = (Bresenham.pixelAt a.toPoint b.toPoint ((j : K) / n)).2 :=
    congrArg Prod.snd hc
  have hinMap : p.costmap.InMap c := by
    constructor <;> omega
  have hpixelx : Bresenham.pixel ((a.x : K) + (j : K) / n * ((b.x : K) - a.x)) = (c.x : ℤ) := by
    rw [hcx]
    simp only [Bresenham.pixelAt, Cell.toPoint, Int.cast_natCast]
  have hpixely : Bresenham.pixel ((a.y : K) + (j : K) / n * ((b.y : K) - a.y)) = (c.y : ℤ) := by
    rw [hcy]
    simp only [Bresenham.pixelAt, Cell.toPoint, Int.cast_natCast]
  have hx := pixel_interval originX _ _ _ _ h.resolution_pos hpixelx
  have hy := pixel_interval originY _ _ _ _ h.resolution_pos hpixely
  rw [Int.cast_natCast] at hx hy
  have hposx : (between (poseAt p a) (poseAt p b) n j).x = (p.mapToWorld a).1 +
      (j : K) * ((p.mapToWorld b).1 - (p.mapToWorld a).1) / n := by
    show _ + ((j : ℤ) : K) * _ / ((n : ℤ) : K) = _
    rw [Int.cast_natCast, Int.cast_natCast]
    rfl
  have hposy : (between (poseAt p a) (poseAt p b) n j).y = (p.mapToWorld a).2 +
      (j : K) * ((p.mapToWorld b).2 - (p.mapToWorld a).2) / n := by
    show _ + ((j : ℤ) : K) * _ / ((n : ℤ) : K) = _
    rw [Int.cast_natCast, Int.cast_natCast]
    rfl
  rw [h.worldToMap, hposx, hposy, h.mapToWorld, h.mapToWorld]
  exact ⟨hinMap, hx, hy⟩

theorem floor_cell (x : K) (i size : ℕ) :
    (0 ≤ x ∧ x < size) ∧ ⌊x⌋.toNat = i ↔ i < size ∧ (i : K) ≤ x ∧ x < (i : K) + 1 := by
  constructor
  · rintro ⟨⟨h0, h1⟩, rfl⟩
    have hfloor : (0 : ℤ) ≤ ⌊x⌋ := Int.floor_nonneg.mpr h0
    have hcast : ((⌊x⌋.toNat : ℕ) : K) = (⌊x⌋ : K) := by
      rw [← Int.cast_natCast, Int.toNat_of_nonneg hfloor]
    have hle := Int.floor_le x
    have hlt : (⌊x⌋ : K) < ((size : ℤ) : K) := by
      rw [Int.cast_natCast]
      exact lt_of_le_of_lt hle h1
    have hlt' := Int.cast_lt.mp hlt
    rw [hcast]
    exact ⟨by omega, hle, Int.lt_floor_add_one x⟩
  · intro ⟨hi, h0, h1⟩
    have hpos : (0 : K) ≤ i := Nat.cast_nonneg i
    have hsize : (i : K) + 1 ≤ size := by exact_mod_cast hi
    have hfloor : ⌊x⌋ = (i : ℤ) := Int.floor_eq_iff.mpr ⟨by exact_mod_cast h0, by exact_mod_cast h1⟩
    refine ⟨⟨by linarith, by linarith⟩, ?_⟩
    rw [hfloor, Int.toNat_natCast]

/-- A planner on unit cells meets these assumptions. -/
theorem nav2_of_unitCells
    (hmap : ∀ c, p.mapToWorld c = ((c.x : K) + 1 / 2, (c.y : K) + 1 / 2))
    (hworld : ∀ x y, p.worldToMap x y =
      if 0 ≤ x ∧ x < p.costmap.sizeX ∧ 0 ≤ y ∧ y < p.costmap.sizeY then
        some ⟨⌊x⌋.toNat, ⌊y⌋.toNat⟩
      else none)
    (hline : ∀ a b, p.lineIterator a b =
      (Bresenham.walk a.toPoint b.toPoint).map fun w => ⟨w.1.toNat, w.2.toNat⟩) :
    Nav2 p 0 0 1 := by
  refine ⟨one_pos, ?_, ?_, ?_⟩
  · intro c
    simp [hmap]
  · intro x y c
    simp only [zero_add, mul_one]
    have hx := floor_cell x c.x p.costmap.sizeX
    have hy := floor_cell y c.y p.costmap.sizeY
    rw [hworld]
    show _ ↔ (c.x < p.costmap.sizeX ∧ c.y < p.costmap.sizeY) ∧ _
    constructor
    · intro h
      by_cases hin : 0 ≤ x ∧ x < p.costmap.sizeX ∧ 0 ≤ y ∧ y < p.costmap.sizeY
      · rw [if_pos hin] at h
        have hc := Option.some.inj h
        obtain ⟨hx1, hx2⟩ := hx.mp ⟨⟨hin.1, hin.2.1⟩, congrArg Cell.x hc⟩
        obtain ⟨hy1, hy2⟩ := hy.mp ⟨hin.2.2, congrArg Cell.y hc⟩
        exact ⟨⟨hx1, hy1⟩, hx2, hy2⟩
      · rw [if_neg hin] at h
        cases h
    · intro ⟨⟨hx1, hy1⟩, hx2, hy2⟩
      obtain ⟨⟨hx3, hx4⟩, hx5⟩ := hx.mpr ⟨hx1, hx2⟩
      obtain ⟨hy3, hy4⟩ := hy.mpr ⟨hy1, hy2⟩
      rw [if_pos ⟨hx3, hx4, hy3⟩, hx5, hy4]
  · intro a b
    have hpoints : ∀ w ∈ Bresenham.walk a.toPoint b.toPoint,
        Cell.toPoint ⟨w.1.toNat, w.2.toNat⟩ = w := by
      intro w hw
      obtain ⟨⟨hx, -⟩, ⟨hy, -⟩⟩ := Bresenham.walk_box hw
      have hax : a.toPoint.1 = a.x := rfl
      have hay : a.toPoint.2 = a.y := rfl
      have hbx : b.toPoint.1 = b.x := rfl
      have hby : b.toPoint.2 = b.y := rfl
      exact Prod.ext (Int.toNat_of_nonneg (by omega)) (Int.toNat_of_nonneg (by omega))
    rw [hline, List.map_map]
    exact (List.map_congr_left hpoints).trans (List.map_id _)

/-- The planner on unit cells meets these assumptions. -/
theorem unitPlanner_nav2 (m : Costmap) (resolution : ℚ) : Nav2 (unitPlanner m resolution) 0 0 1 :=
  nav2_of_unitCells (fun _ => rfl) (fun _ _ => rfl) (fun _ _ => rfl)

/-! ## The cells of a plan -/

/-- The cell is off the line of a smoothed segment, across one edge from a cell
of that line that the planner accepted, or from the start; the segment is not
parallel to an axis. -/
def BesideLine (p : Planner K) (start : Cell) (cells : List Cell) (c : Cell) : Prop :=
  ∃ a b, [a, b] <:+: keptCells p cells ∧ a.x ≠ b.x ∧ a.y ≠ b.y ∧ c ∉ p.lineIterator a b ∧
    ∃ w ∈ p.lineIterator a b, (w = start ∨ p.costmap.isNodeValid w = true) ∧ SharesEdge w c

omit [IsStrictOrderedRing K] in
/-- The line between two kept cells only has cells of cost below 180, or only the
two cells themselves. -/
theorem line_accepted (h : Nav2 p originX originY resolution)
    {cells : List Cell} {s g a b w : Cell} (hpath : HexPath p.costmap s g cells)
    (hin : ∀ c ∈ cells, cellOf p (poseAt p c) = c) (hab : [a, b] <:+: keptCells p cells)
    (hw : w ∈ p.lineIterator a b) : w = s ∨ p.costmap.isNodeValid w = true := by
  have hne : cells ≠ [] := by
    rintro rfl
    cases hpath.first
  have hpair := List.IsChain.infix (keptCells_chain p hne) hab
  obtain ⟨i, k, hfollows, ha, hb⟩ := List.isChain_pair.mp hpair
  have hmema := List.mem_of_getElem? ha
  have hmemb := List.mem_of_getElem? hb
  rcases hfollows.seen with hsee | rfl
  · right
    unfold visible at hsee
    rw [List.getElem?_map, List.getElem?_map, ha, hb] at hsee
    simp only [Option.map_some, hin a hmema, hin b hmemb, hasLineOfSight] at hsee
    exact Costmap.isNodeValid_of_isSightValid (List.all_eq_true.mp hsee w hw)
  · have hwalk : w.toPoint ∈ Bresenham.walk a.toPoint b.toPoint := by
      rw [← h.lineIterator]
      exact List.mem_map.mpr ⟨w, hw, rfl⟩
    obtain ⟨⟨dir, hdir, hx, hy⟩, -⟩ := hpath.step ha hb
    have hbound := getHexNeighbors_bound hdir
    have hdx : (b.toPoint.1 - a.toPoint.1).natAbs ≤ 1 := by
      simp only [Cell.toPoint]
      omega
    have hdy : (b.toPoint.2 - a.toPoint.2).natAbs ≤ 1 := by
      simp only [Cell.toPoint]
      omega
    rcases Bresenham.walk_adjacent hdx hdy hwalk with hwa | hwb
    · rw [Cell.toPoint_inj hwa]
      exact hpath.mem_cases hmema
    · rw [Cell.toPoint_inj hwb]
      exact hpath.mem_cases hmemb

omit [IsStrictOrderedRing K] in
/-- A plan is only returned for two poses inside the map. -/
theorem locates_of_ok (hnav : Nav2 p originX originY resolution) {choice : ℕ → ℕ}
    {start goal : PoseStamped K} {plan : Path K}
    (hplan : createPlan p choice start goal = .ok plan) : ∃ s g, Locates p start goal s g := by
  unfold createPlan at hplan
  by_cases hframe : start.frameId ≠ p.globalFrame ∨ goal.frameId ≠ p.globalFrame
  · rw [if_pos hframe] at hplan
    cases hplan
  · rw [if_neg hframe] at hplan
    simp only [not_or, not_not] at hframe
    cases hs : p.worldToMap start.x start.y with
    | none =>
      rw [hs] at hplan
      cases hplan
    | some s =>
      cases hg : p.worldToMap goal.x goal.y with
      | none =>
        rw [hs, hg] at hplan
        cases hplan
      | some g =>
        exact ⟨s, g, hframe.1, hframe.2, hs, hg, ((hnav.worldToMap _ _ _).mp hs).1,
          ((hnav.worldToMap _ _ _).mp hg).1⟩

/-- For every map, order of ties and resolution: a pose of the plan other than the
first lies in the start cell, in a cell the search would enter, or beside the
line of a smoothed segment. -/
theorem plan_poses_near (p : Planner K) (hnav : Nav2 p originX originY resolution)
    (choice : ℕ → ℕ) (start goal : PoseStamped K) (plan : Path K)
    (hplan : createPlan p choice start goal = .ok plan) :
    ∃ s g n, Locates p start goal s g ∧ search (p.query s g) choice = some n ∧
      ∀ i pose, plan.poses[i + 1]? = some pose → ∃ c, p.worldToMap pose.x pose.y = some c ∧
        (c = s ∨ p.costmap.isNodeValid c = true ∨ BesideLine p s n.path c) := by
  obtain ⟨s, g, h⟩ := locates_of_ok hnav hplan
  rw [createPlan_eq h] at hplan
  cases hsearch : search (p.query s g) choice with
  | none =>
    rw [hsearch] at hplan
    cases hplan
  | some n =>
    rw [hsearch] at hplan
    obtain rfl := (Except.ok.inj hplan).symm
    refine ⟨s, g, n, h, hsearch, fun i pose hpose => ?_⟩
    have hs : (p.query s g).costmap.InMap (p.query s g).start := h.startInMap
    have hpath : HexPath p.costmap s g n.path := (search_path hs hsearch).1
    have hin : ∀ c ∈ n.path, p.costmap.InMap c := by
      intro c hc
      rcases hpath.mem_cases hc with rfl | hvalid
      · exact h.startInMap
      · exact Costmap.isNodeValid_inMap hvalid
    rcases planPoses_getElem? hpose with rfl | ⟨c, hc, rfl⟩ | ⟨a, b, hab, m, j, hj, rfl⟩
    · refine ⟨g, h.goalCell, ?_⟩
      rcases hpath.mem_cases (List.mem_of_getLast? hpath.last) with hgs | hvalid
      · exact .inl hgs
      · exact .inr (.inl hvalid)
    · refine ⟨c, hnav.worldToMap_poseAt (hin c hc), ?_⟩
      rcases hpath.mem_cases hc with hcs | hvalid
      · exact .inl hcs
      · exact .inr (.inl hvalid)
    · have hmema : a ∈ n.path := mem_keptCells (hab.subset (by simp))
      have hmemb : b ∈ n.path := mem_keptCells (hab.subset (by simp))
      obtain ⟨c, hc, hpixel⟩ := hnav.worldToMap_between (hin a hmema) (hin b hmemb) hj
      refine ⟨c, hc, ?_⟩
      have hm : (0 : K) < m := Nat.cast_pos.mpr (by omega)
      have h1 : (j : K) / m ≤ 1 := by
        rw [div_le_one hm]
        exact_mod_cast hj.le
      obtain ⟨w', hw', hnear⟩ :=
        Bresenham.walk_near a.toPoint b.toPoint (t := (j : K) / m) (by positivity) h1
      rw [← hnav.lineIterator] at hw'
      obtain ⟨w, hw, rfl⟩ := List.mem_map.mp hw'
      have haccept : ∀ v ∈ p.lineIterator a b, v = s ∨ p.costmap.isNodeValid v = true :=
        fun v hv => line_accepted hnav hpath (fun c hc => hnav.cellOf_poseAt (hin c hc)) hab hv
      by_cases hon : c ∈ p.lineIterator a b
      · rcases haccept c hon with hcs | hvalid
        · exact .inl hcs
        · exact .inr (.inl hvalid)
      · rw [← hpixel] at hnear
        rcases hnear with hsame | ⟨hx, hy, hbeside⟩
        · rw [Cell.toPoint_inj hsame] at hw
          exact absurd hw hon
        · have hx' : a.x ≠ b.x := fun heq => hx (by simp only [Cell.toPoint, heq])
          have hy' : a.y ≠ b.y := fun heq => hy (by simp only [Cell.toPoint, heq])
          exact .inr (.inr ⟨a, b, hab, hx', hy', hon, w, hw, haccept w hw, hbeside⟩)

end World

/-- Every pose after the first lies in a cell the search would enter. -/
def PosesValid {K : Type} (p : Planner K) (poses : List (PoseStamped K)) : Prop :=
  ∀ i pose, poses[i + 1]? = some pose →
    ∃ c, p.worldToMap pose.x pose.y = some c ∧ p.costmap.isNodeValid c = true

theorem not_posesValid {K : Type} {p : Planner K} {poses : List (PoseStamped K)} {i : ℕ}
    {pose : PoseStamped K} {c : Cell} (hpose : poses[i + 1]? = some pose)
    (hcell : p.worldToMap pose.x pose.y = some c) (hc : p.costmap.isNodeValid c = false) :
    ¬ PosesValid p poses := by
  intro h
  obtain ⟨c', hc', hvalid⟩ := h i pose hpose
  rw [hcell] at hc'
  rw [← Option.some.inj hc', hc] at hvalid
  cases hvalid

/-- The plan across the corner of the obstacle: the line of sight sees (0, 0),
(1, 1) and (2, 1). -/
def cornerPlan : Path ℚ where
  frameId := "map"
  poses := [mapPose (1 / 2) (1 / 2), mapPose (7 / 6) (5 / 6), mapPose (11 / 6) (7 / 6),
    mapPose (5 / 2) (3 / 2)]

theorem cornerPlan_near :
    ∃ s g n,
      Locates (unitPlanner cornerMap 1) (mapPose (1 / 2) (1 / 2)) (mapPose (5 / 2) (3 / 2)) s g ∧
      search ((unitPlanner cornerMap 1).query s g) (fun _ => 0) = some n ∧
      ∀ i pose, cornerPlan.poses[i + 1]? = some pose →
        ∃ c, (unitPlanner cornerMap 1).worldToMap pose.x pose.y = some c ∧
          (c = s ∨ cornerMap.isNodeValid c = true ∨
            BesideLine (unitPlanner cornerMap 1) s n.path c) :=
  plan_poses_near (unitPlanner cornerMap 1) (unitPlanner_nav2 cornerMap 1) (fun _ => 0)
    (mapPose (1 / 2) (1 / 2)) (mapPose (5 / 2) (3 / 2)) cornerPlan (by decide +kernel)

/-- Three cells in a row, of which the first is occupied. -/
def occupiedStart : Costmap where
  sizeX := 3
  sizeY := 1
  getCost := fun c => if c = ⟨0, 0⟩ then 254 else 0
  cells_lt := by decide

def leavingPlan : Path ℚ where
  frameId := "map"
  poses := [mapPose (1 / 2) (1 / 2), mapPose (5 / 6) (1 / 2), mapPose (7 / 6) (1 / 2),
    mapPose (3 / 2) (1 / 2), mapPose (11 / 6) (1 / 2), mapPose (13 / 6) (1 / 2),
    mapPose (5 / 2) (1 / 2)]

/-- A pose of one plan lies in the obstacle, and a pose of the other in the
occupied cell the robot starts from. -/
theorem plans_enter_occupied_cells :
    (createPlan (unitPlanner cornerMap 1) (fun _ => 0) (mapPose (1 / 2) (1 / 2))
        (mapPose (5 / 2) (3 / 2)) = .ok cornerPlan ∧
      ¬ PosesValid (unitPlanner cornerMap 1) cornerPlan.poses) ∧
    (createPlan (unitPlanner occupiedStart (2 / 5)) (fun _ => 0) (mapPose (1 / 2) (1 / 2))
        (mapPose (5 / 2) (1 / 2)) = .ok leavingPlan ∧
      ¬ PosesValid (unitPlanner occupiedStart (2 / 5)) leavingPlan.poses) :=
  ⟨⟨by decide +kernel, not_posesValid (i := 0) (c := ⟨1, 0⟩) rfl (by decide +kernel) (by decide)⟩,
    ⟨by decide +kernel, not_posesValid (i := 0) (c := ⟨0, 0⟩) rfl (by decide +kernel) (by decide)⟩⟩

end CustomPlanner
end RobotNav
