/-
`map_incremental`: the points of a scan go to the map with down-sampling, without it, or
not at all, by a look at their nearest points in the map.

Without down-sampling nothing checks the voxel a point falls in.
-/
import RobotNav.IkdTree.Voxels

namespace RobotNav
namespace LaserMapping

open IkdTree
open PointType (coords)

/-- A point of the scan in the world frame, with `Nearest_Points` of its index. -/
structure ScanPoint (P : Type) where
  world : P
  pointsNear : List P

/-- What becomes of a point: `PointToAdd`, `PointNoNeedDownsample`, or neither. -/
inductive Placement where
  | toAdd
  | noNeedDownsample
  | dropped
  deriving DecidableEq

def numMatchPoints : ℕ := 5

variable {P K : Type} [Arith K] [PointType P K] (filterSizeMapMin : K)

/-- `mid_point`, the centre of the voxel. -/
def midPoint (p : Coords K) : Coords K := fun i =>
  lit (Arith.floor (p i / filterSizeMapMin)) * filterSizeMapMin + ratio 1 2 * filterSizeMapMin

/-- More than half a voxel away from the centre on all three axes. -/
def Outside (near mid : Coords K) : Prop :=
  ∀ i, ratio 1 2 * filterSizeMapMin < fabs (near i - mid i)

instance (near mid : Coords K) : Decidable (Outside filterSizeMapMin near mid) :=
  inferInstanceAs (Decidable (∀ _, _))

/-- `points_near` has a point for each match, and one of them is closer to the centre than
the new point. -/
def Crowded (point mid : Coords K) (pointsNear : List P) : Prop :=
  numMatchPoints ≤ pointsNear.length ∧
    ∃ q ∈ pointsNear.take numMatchPoints, calcDist (coords q) mid < calcDist point mid

instance (point mid : Coords K) (pointsNear : List P) :
    Decidable (Crowded point mid pointsNear) :=
  inferInstanceAs (Decidable (_ ∧ _))

/-- "decide if need add to map". -/
def placement (flgEKFInited : Bool) (p : ScanPoint P) : Placement :=
  match p.pointsNear with
  | [] => .toAdd
  | nearest :: _ =>
    let mid := midPoint filterSizeMapMin (coords p.world)
    if !flgEKFInited then .toAdd
    else if Outside filterSizeMapMin (coords nearest) mid then .noNeedDownsample
    else if Crowded (coords p.world) mid p.pointsNear then .dropped
    else .toAdd

/-- The points of the scan that go the same way. -/
def placed (flgEKFInited : Bool) (way : Placement) (scan : List (ScanPoint P)) : List P :=
  (scan.filter fun p => placement filterSizeMapMin flgEKFInited p == way).map ScanPoint.world

/-- The map after a scan, with `add_point_size`. -/
def mapIncremental (params : KdTreeParams K) (nth : NthElement P K) (s : MapTree P K)
    (flgEKFInited : Bool) (scan : List (ScanPoint P)) : Option (MapTree P K × ℕ) :=
  let pointToAdd := placed filterSizeMapMin flgEKFInited .toAdd scan
  let pointNoNeedDownsample := placed filterSizeMapMin flgEKFInited .noNeedDownsample scan
  (s.addPointsDownsampled params nth filterSizeMapMin pointToAdd).bind fun added =>
    (added.1.addPoints params nth pointNoNeedDownsample).map fun s' =>
      (s', pointToAdd.length + pointNoNeedDownsample.length)

/-! ## At most one point in a voxel -/

section

variable {F : Type} [Field F] [LinearOrder F] [FloorRing F] [PointType P F]
  {filterSizeMapMin : F}

/-- No voxel has two points. -/
def AtMostOne (downsampleSize : F) (m : Multiset P) : Prop :=
  ∀ v, (inVoxel downsampleSize v m).card ≤ 1

theorem card_inVoxel (v : Fin 3 → ℤ) (m : Multiset P) :
    (inVoxel filterSizeMapMin v m).card = (m.map (voxelOf filterSizeMapMin)).count v := by
  rw [Multiset.count_map, inVoxel]
  congr 1
  exact Multiset.filter_congr fun p _ => eq_comm

theorem atMostOne_iff_nodup (m : Multiset P) :
    AtMostOne filterSizeMapMin m ↔ (m.map (voxelOf filterSizeMapMin)).Nodup := by
  rw [Multiset.nodup_iff_count_le_one]
  exact forall_congr' fun v => by rw [card_inVoxel]

/-- The point is one of `m`, and has its voxel for itself. -/
def Alone (downsampleSize : F) (m : Multiset P) (p : P) : Prop :=
  (inVoxel downsampleSize (voxelOf downsampleSize p) m).card = 1

/-- A voxel that points were added to has one, any other has those it had. -/
theorem card_inVoxel_of_thinned {m a m' : Multiset P} (h : Thinned filterSizeMapMin m a m')
    (hm : AtMostOne filterSizeMapMin m) (v : Fin 3 → ℤ) :
    (inVoxel filterSizeMapMin v m').card ≤ 1 ∧
      ((inVoxel filterSizeMapMin v m').card = 0 ↔
        (inVoxel filterSizeMapMin v (m + a)).card = 0) := by
  by_cases hhit : ∃ p ∈ a, voxelOf filterSizeMapMin p = v
  · obtain ⟨q, hq, hclosest⟩ := h.hit v hhit
    have hpos := Multiset.card_pos_iff_exists_mem.mpr ⟨q, hclosest.mem⟩
    rw [hq, Multiset.card_singleton]
    omega
  · have hnone : ∀ p ∈ a, voxelOf filterSizeMapMin p ≠ v := fun p hp hpv => hhit ⟨p, hp, hpv⟩
    rw [h.kept v hnone, inVoxel_add, inVoxel_eq_zero hnone, add_zero]
    exact ⟨hm v, Iff.rfl⟩

/-- With unchecked points beside those that were thinned out. -/
theorem atMostOne_add_iff {m a m' u : Multiset P} (h : Thinned filterSizeMapMin m a m')
    (hm : AtMostOne filterSizeMapMin m) :
    AtMostOne filterSizeMapMin (m' + u) ↔
      ∀ p ∈ u, Alone filterSizeMapMin (m + a + u) p := by
  have hsum (m : Multiset P) (v : Fin 3 → ℤ) : (inVoxel filterSizeMapMin v (m + u)).card =
      (inVoxel filterSizeMapMin v m).card + (inVoxel filterSizeMapMin v u).card := by
    rw [inVoxel_add, Multiset.card_add]
  constructor
  · intro hone p hp
    have hpos : 0 < (inVoxel filterSizeMapMin (voxelOf filterSizeMapMin p) u).card :=
      Multiset.card_pos_iff_exists_mem.mpr ⟨p, mem_inVoxel.mpr ⟨hp, rfl⟩⟩
    have hp1 := hone (voxelOf filterSizeMapMin p)
    have hthin := card_inVoxel_of_thinned h hm (voxelOf filterSizeMapMin p)
    rw [hsum] at hp1
    rw [Alone, hsum]
    omega
  · intro hone v
    have hthin := card_inVoxel_of_thinned h hm v
    by_cases hhit : ∃ p ∈ u, voxelOf filterSizeMapMin p = v
    · obtain ⟨p, hp, rfl⟩ := hhit
      have hp1 := hone p hp
      have hpos : 0 < (inVoxel filterSizeMapMin (voxelOf filterSizeMapMin p) u).card :=
        Multiset.card_pos_iff_exists_mem.mpr ⟨p, mem_inVoxel.mpr ⟨hp, rfl⟩⟩
      rw [Alone, hsum] at hp1
      rw [hsum]
      omega
    · have hnone : ∀ p ∈ u, voxelOf filterSizeMapMin p ≠ v := fun p hp hpv => hhit ⟨p, hp, hpv⟩
      rw [hsum, inVoxel_eq_zero hnone, Multiset.card_zero, add_zero]
      exact hthin.1

variable [IsStrictOrderedRing F] (params : KdTreeParams F) (nth : NthElement P F)

/-- From a map without two points in a voxel, a scan leaves such a map exactly when each
point it adds unchecked is alone in its voxel, among the points of the map and all that
the scan adds. -/
theorem mapIncremental_atMostOne_iff (hsize : 0 < filterSizeMapMin) {points : List P}
    (hne : points ≠ []) (calls : List (MapCall P F)) {s : MapTree P F}
    (hrun : (voxelMap params nth filterSizeMapMin points).run
      (voxelMap params nth filterSizeMapMin points).init calls = some s)
    (hone : AtMostOne filterSizeMapMin s.points) (flgEKFInited : Bool)
    (scan : List (ScanPoint P)) :
    ∃ s' size, mapIncremental filterSizeMapMin params nth s flgEKFInited scan = some (s', size) ∧
      (AtMostOne filterSizeMapMin s'.points ↔
        ∀ p ∈ placed filterSizeMapMin flgEKFInited .noNeedDownsample scan,
          Alone filterSizeMapMin
            (s.points + (placed filterSizeMapMin flgEKFInited .toAdd scan : Multiset P) +
              (placed filterSizeMapMin flgEKFInited .noNeedDownsample scan : Multiset P)) p) := by
  obtain ⟨t, ht, hs⟩ := voxelMap_wellFormed params nth hne calls
  obtain rfl := Option.some.inj (ht.symm.trans hrun)
  obtain ⟨s₁, counter, hadd, hs₁, hthinned⟩ := foldlM_downsamplePass params nth hsize hs
    (placed filterSizeMapMin flgEKFInited .toAdd scan) 0
  obtain ⟨s', hunchecked, hs', hheld⟩ := addPoints_wellFormed params nth hs₁
    (placed filterSizeMapMin flgEKFInited .noNeedDownsample scan)
  refine ⟨s', (placed filterSizeMapMin flgEKFInited .toAdd scan).length +
    (placed filterSizeMapMin flgEKFInited .noNeedDownsample scan).length, ?_, ?_⟩
  · rw [mapIncremental, MapTree.addPointsDownsampled, hadd, Option.bind_some, hunchecked]
    rfl
  · rw [hs.points] at hone ⊢
    rw [hs'.points, hheld]
    exact atMostOne_add_iff hthinned hone

/-- A point with the same coordinate on all axes. -/
def corner (x : ℚ) : Coords ℚ := fun _ => x

/-- Two points in voxels of side one that meet in a corner. -/
def cornerPoints : List (Coords ℚ) := [corner (9 / 10), corner (-1 / 10)]

/-- A new point close to the corner, with its nearest points in their order. -/
def cornerScan : List (ScanPoint (Coords ℚ)) :=
  [⟨corner (1 / 20), [corner (-1 / 10), corner (9 / 10)]⟩]

theorem mapIncremental_atMostOne_iff_corner :
    ∃ s' size, mapIncremental 1 defaultParams sortedNthElement
        (MapTree.build sortedNthElement cornerPoints) true cornerScan = some (s', size) ∧
      (AtMostOne 1 s'.points ↔
        ∀ p ∈ placed 1 true .noNeedDownsample cornerScan,
          Alone 1 ((MapTree.build sortedNthElement cornerPoints).points +
            (placed 1 true .toAdd cornerScan : Multiset (Coords ℚ)) +
              (placed 1 true .noNeedDownsample cornerScan : Multiset (Coords ℚ))) p) :=
  mapIncremental_atMostOne_iff defaultParams sortedNthElement (by norm_num)
    (List.cons_ne_nil _ _ : cornerPoints ≠ []) [] rfl
    ((atMostOne_iff_nodup _).mpr (by decide +kernel)) true cornerScan

/-- The nearest point lies across the corner, and the other point of the new one's own
voxel is not looked at. -/
theorem cornerScan_crowds :
    AtMostOne 1 (MapTree.build sortedNthElement cornerPoints).points ∧
      ∀ s' size, mapIncremental 1 defaultParams sortedNthElement
          (MapTree.build sortedNthElement cornerPoints) true cornerScan = some (s', size) →
        ¬ AtMostOne 1 s'.points := by
  refine ⟨(atMostOne_iff_nodup _).mpr (by decide +kernel), fun s' size hs' hone => ?_⟩
  have hcrowded : ∀ r ∈ mapIncremental 1 defaultParams sortedNthElement
      (MapTree.build sortedNthElement cornerPoints) true cornerScan,
      ¬ (r.1.points.map (voxelOf (1 : ℚ))).Nodup := by
    decide +kernel
  exact hcrowded (s', size) hs' ((atMostOne_iff_nodup _).mp hone)

end

end LaserMapping
end RobotNav
