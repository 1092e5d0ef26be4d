/-
`Add_Points(., true)`: a point that is added stands for its voxel, together with what the
tree holds there, and only the one closest to the centre stays.
-/
import Mathlib.Algebra.Order.Field.Basic
import Mathlib.Tactic.Linarith
import Mathlib.Tactic.NormNum
import Mathlib.Tactic.Positivity
import Mathlib.Tactic.Ring
import RobotNav.IkdTree.BoxSearch
import RobotNav.IkdTree.Refinement
import RobotNav.Library.Loop

namespace RobotNav
namespace IkdTree

open PointType (coords)
open KdTree

variable {P K : Type} [Arith K] [PointType P K]

/-- `calc_dist`, a squared distance. -/
def calcDist (a b : Coords K) : K :=
  (a 0 - b 0) * (a 0 - b 0) + (a 1 - b 1) * (a 1 - b 1) + (a 2 - b 2) * (a 2 - b 2)

/-- `EPSS`. -/
def epss : K := ratio 1 1000000

def samePoint (a b : P) : Bool :=
  decide (fabs (coords a 0 - coords b 0) < epss) && decide (fabs (coords a 1 - coords b 1) < epss)
    && decide (fabs (coords a 2 - coords b 2) < epss)

/-- `Box_of_Point`, the voxel of a point. -/
def boxOfPoint (downsampleSize : K) (p : Coords K) : BoxPointType K where
  vertexMin := fun i => lit (Arith.floor (p i / downsampleSize)) * downsampleSize
  vertexMax := fun i => lit (Arith.floor (p i / downsampleSize)) * downsampleSize + downsampleSize

def BoxPointType.midPoint (box : BoxPointType K) : Coords K :=
  fun i => box.vertexMin i + (box.vertexMax i - box.vertexMin i) / lit 2

/-- `min_dist` and `downsample_result` after the loop over `Downsample_Storage`. -/
def downsampleResult (midPoint : Coords K) (point : P) (storage : List P) : K × P :=
  storage.foldl (fun best q =>
      let tmpDist := calcDist (coords q) midPoint
      if tmpDist < best.1 then (tmpDist, q) else best)
    (calcDist (coords point) midPoint, point)

namespace MapTree

variable (params : KdTreeParams K) (nth : NthElement P K) (downsampleSize : K)

/-- A point of `Add_Points(., true)`, and whether it counts in what the call returns. -/
def addDownsampled (s : MapTree P K) (point : P) : Option (MapTree P K × Bool) :=
  let box := boxOfPoint downsampleSize (coords point)
  let searched := s.rootNode.searchByRange box
  let result := (downsampleResult box.midPoint point searched.1).2
  if 1 < searched.1.length ∨ samePoint point result = true then
    let deleted :=
      if 0 < searched.1.length then deleteByRange params nth box true true searched.2
      else ⟨searched.2, 0, false⟩
    match deleted.tree with
    | null => none
    | node n l r =>
      let added := addByPoint params nth true result n.divisionAxis (node n l r)
      some (⟨added.1, s.rebuildQueued || deleted.handed || added.2⟩, true)
  else some ({ s with rootNode := searched.2 }, false)

/-- A pass of the loop, with `tmp_counter`. -/
def downsamplePass (acc : MapTree P K × ℕ) (point : P) : Option (MapTree P K × ℕ) :=
  (acc.1.addDownsampled params nth downsampleSize point).map fun added =>
    (added.1, acc.2 + if added.2 then 1 else 0)

/-- `Add_Points(., true)`, with the number it returns; `none` is a null pointer read. -/
def addPointsDownsampled (s : MapTree P K) (points : List P) : Option (MapTree P K × ℕ) :=
  points.foldlM (downsamplePass params nth downsampleSize) (s, 0)

end MapTree

/-! ## The closest point -/

theorem downsampleResult_dist (midPoint : Coords K) (point : P) (storage : List P) :
    (downsampleResult midPoint point storage).1 =
      calcDist (coords (downsampleResult midPoint point storage).2) midPoint := by
  induction storage using List.reverseRecOn with
  | nil => rfl
  | append_singleton storage q ih =>
    rw [downsampleResult, List.foldl_append]
    show (if _ then _ else downsampleResult midPoint point storage : K × P).1 = calcDist
      (coords (if _ then _ else downsampleResult midPoint point storage : K × P).2) midPoint
    split_ifs
    · rfl
    · exact ih

/-- It is the point itself or one found, and none of these is closer. -/
theorem downsampleResult_spec (midPoint : Coords K) (point : P) (storage : List P) :
    (downsampleResult midPoint point storage).2 ∈ point :: storage ∧
      ∀ q ∈ point :: storage,
        calcDist (coords (downsampleResult midPoint point storage).2) midPoint ≤
          calcDist (coords q) midPoint := by
  induction storage using List.reverseRecOn with
  | nil => simp [downsampleResult]
  | append_singleton storage q ih =>
    obtain ⟨hmem, hleast⟩ := ih
    have hdist := downsampleResult_dist midPoint point storage
    have hstep : downsampleResult midPoint point (storage ++ [q]) =
        if calcDist (coords q) midPoint < (downsampleResult midPoint point storage).1 then
          (calcDist (coords q) midPoint, q) else downsampleResult midPoint point storage := by
      rw [downsampleResult, List.foldl_append]
      rfl
    rw [hstep, ← List.cons_append]
    split_ifs with hcloser
    · rw [hdist] at hcloser
      refine ⟨List.mem_append_right _ (List.mem_singleton_self q), fun r hr => ?_⟩
      rcases List.mem_append.mp hr with hr | hr
      · exact hcloser.le.trans (hleast r hr)
      · rw [List.mem_singleton.mp hr]
    · rw [hdist, not_lt] at hcloser
      refine ⟨List.mem_append_left _ hmem, fun r hr => ?_⟩
      rcases List.mem_append.mp hr with hr | hr
      · exact hleast r hr
      · rw [List.mem_singleton.mp hr]
        exact hcloser

/-! ## What a point with down-sampling can do -/

/-- The searched tree is all that is left, or it is given a point, with or without its box
emptied before. -/
theorem addDownsampled_cases (params : KdTreeParams K) (nth : NthElement P K) {downsampleSize : K}
    {s s' : MapTree P K} {point : P} {counted : Bool}
    (hadd : s.addDownsampled params nth downsampleSize point = some (s', counted)) :
    s'.rootNode = (s.rootNode.searchByRange (boxOfPoint downsampleSize (coords point))).2 ∨
    ∃ cleared result axis,
      (cleared = (s.rootNode.searchByRange (boxOfPoint downsampleSize (coords point))).2 ∨
        cleared = (deleteByRange params nth (boxOfPoint downsampleSize (coords point)) true true
          (s.rootNode.searchByRange (boxOfPoint downsampleSize (coords point))).2).tree) ∧
      s'.rootNode = (addByPoint params nth true result axis cleared).1 := by
  rw [MapTree.addDownsampled] at hadd
  dsimp only at hadd
  set box := boxOfPoint downsampleSize (coords point)
  set searched := s.rootNode.searchByRange box
  have hcleared : (if 0 < searched.1.length then deleteByRange params nth box true true searched.2
      else ⟨searched.2, 0, false⟩ : Deletion P K).tree = searched.2 ∨
      (if 0 < searched.1.length then deleteByRange params nth box true true searched.2
        else ⟨searched.2, 0, false⟩ : Deletion P K).tree =
      (deleteByRange params nth box true true searched.2).tree := by
    split_ifs
    · exact .inr rfl
    · exact .inl rfl
  generalize (if 0 < searched.1.length then deleteByRange params nth box true true searched.2
    else ⟨searched.2, 0, false⟩ : Deletion P K) = deleted at hadd hcleared
  split_ifs at hadd
  · cases htree : deleted.tree with
    | null =>
      rw [htree] at hadd
      cases hadd
    | node n l r =>
      rw [htree] at hadd hcleared
      cases hadd
      exact .inr ⟨_, _, _, hcleared, rfl⟩
  · cases hadd
    exact .inl rfl

/-! ## Voxels

From here on arithmetic is exact. -/

section

variable {F : Type} [Field F] [LinearOrder F] [FloorRing F] [PointType P F] {downsampleSize : F}

/-- The voxel of a point; voxels are numbered by axis. -/
def voxelOf (downsampleSize : F) (p : P) : Fin 3 → ℤ := fun i => ⌊coords p i / downsampleSize⌋

/-- The points in a voxel. -/
def inVoxel (downsampleSize : F) (v : Fin 3 → ℤ) (m : Multiset P) : Multiset P :=
  m.filter fun p => voxelOf downsampleSize p = v

def voxelCentre (downsampleSize : F) (v : Fin 3 → ℤ) : Coords F :=
  fun i => (v i + ratio 1 2) * downsampleSize

/-- `q` is one of the points, and none of them is closer to the centre. -/
structure Closest (centre : Coords F) (m : Multiset P) (q : P) : Prop where
  mem : q ∈ m
  least : ∀ r ∈ m, calcDist (coords q) centre ≤ calcDist (coords r) centre

/-- What adding `a` with down-sampling is for: a voxel with a point of `a` is left with
one closest point of all that it had and got, any other keeps what it had. -/
structure Thinned (downsampleSize : F) (m a m' : Multiset P) : Prop where
  hit : ∀ v, (∃ p ∈ a, voxelOf downsampleSize p = v) →
    ∃ q, inVoxel downsampleSize v m' = {q} ∧
      Closest (voxelCentre downsampleSize v) (inVoxel downsampleSize v (m + a)) q
  kept : ∀ v, (∀ p ∈ a, voxelOf downsampleSize p ≠ v) →
    inVoxel downsampleSize v m' = inVoxel downsampleSize v m

theorem inVoxel_add (v : Fin 3 → ℤ) (a b : Multiset P) :
    inVoxel downsampleSize v (a + b) = inVoxel downsampleSize v a + inVoxel downsampleSize v b :=
  Multiset.filter_add ..

theorem mem_inVoxel {v : Fin 3 → ℤ} {m : Multiset P} {p : P} :
    p ∈ inVoxel downsampleSize v m ↔ p ∈ m ∧ voxelOf downsampleSize p = v := Multiset.mem_filter

theorem inVoxel_eq_zero {v : Fin 3 → ℤ} {m : Multiset P}
    (h : ∀ p ∈ m, voxelOf downsampleSize p ≠ v) : inVoxel downsampleSize v m = 0 :=
  Multiset.filter_eq_nil.mpr h

/-- The closest point of some stands for all of them. -/
theorem Closest.of_closest {centre : Coords F} {m b : Multiset P} {q₁ q : P}
    (h₁ : Closest centre m q₁) (h : Closest centre ({q₁} + b) q) : Closest centre (m + b) q := by
  have hle := h.least q₁ (Multiset.mem_add.mpr (.inl (Multiset.mem_singleton_self q₁)))
  constructor
  · rcases Multiset.mem_add.mp h.mem with hmem | hmem
    · rw [Multiset.mem_singleton.mp hmem]
      exact Multiset.mem_add.mpr (.inl h₁.mem)
    · exact Multiset.mem_add.mpr (.inr hmem)
  · intro r hr
    rcases Multiset.mem_add.mp hr with hr | hr
    · exact hle.trans (h₁.least r hr)
    · exact h.least r (Multiset.mem_add.mpr (.inr hr))

theorem Thinned.refl (m : Multiset P) : Thinned downsampleSize m 0 m := by
  constructor
  · rintro v ⟨p, hp, -⟩
    exact absurd hp (Multiset.notMem_zero p)
  · exact fun v _ => rfl

/-- Some points first and then others. -/
theorem Thinned.trans {m a m₁ b m₂ : Multiset P} (h : Thinned downsampleSize m a m₁)
    (hrest : Thinned downsampleSize m₁ b m₂) : Thinned downsampleSize m (a + b) m₂ := by
  have hsplit (v : Fin 3 → ℤ) : inVoxel downsampleSize v (m + (a + b)) =
      inVoxel downsampleSize v (m + a) + inVoxel downsampleSize v b := by
    rw [← add_assoc, inVoxel_add v (m + a)]
  constructor
  · intro v hv
    by_cases hlater : ∃ q ∈ b, voxelOf downsampleSize q = v
    · obtain ⟨q, hq, hclosest⟩ := hrest.hit v hlater
      refine ⟨q, hq, ?_⟩
      rw [inVoxel_add] at hclosest
      rw [hsplit]
      by_cases hearlier : ∃ p ∈ a, voxelOf downsampleSize p = v
      · obtain ⟨q₁, hq₁, hclosest₁⟩ := h.hit v hearlier
        rw [hq₁] at hclosest
        exact hclosest₁.of_closest hclosest
      · have hnone : ∀ p ∈ a, voxelOf downsampleSize p ≠ v := fun p hp hpv =>
          hearlier ⟨p, hp, hpv⟩
        rw [inVoxel_add, inVoxel_eq_zero hnone, add_zero, ← h.kept v hnone]
        exact hclosest
    · have hnone : ∀ p ∈ b, voxelOf downsampleSize p ≠ v := fun p hp hpv =>
        hlater ⟨p, hp, hpv⟩
      obtain ⟨p, hp, hpv⟩ := hv
      have hearlier := (Multiset.mem_add.mp hp).resolve_right fun hb => hnone p hb hpv
      rw [hrest.kept v hnone, hsplit, inVoxel_eq_zero hnone, add_zero]
      exact h.hit v ⟨p, hearlier, hpv⟩
  · intro v hv
    rw [hrest.kept v fun p hp => hv p (Multiset.mem_add.mpr (.inr hp))]
    exact h.kept v fun p hp => hv p (Multiset.mem_add.mpr (.inl hp))

/-- One point: what is in its voxel goes, and a closest point comes in its place. -/
theorem Thinned.single {m : Multiset P} {p q : P}
    (h : Closest (voxelCentre downsampleSize (voxelOf downsampleSize p))
      (inVoxel downsampleSize (voxelOf downsampleSize p) (m + {p})) q) :
    Thinned downsampleSize m {p}
      (q ::ₘ m.filter fun r => voxelOf downsampleSize r ≠ voxelOf downsampleSize p) := by
  have hq := (mem_inVoxel.mp h.mem).2
  constructor
  · rintro v ⟨p', hp', rfl⟩
    obtain rfl := Multiset.mem_singleton.mp hp'
    refine ⟨q, ?_, h⟩
    rw [inVoxel, Multiset.filter_cons_of_pos (p := fun r => voxelOf downsampleSize r = _) _ hq,
      Multiset.filter_filter, ← Multiset.cons_zero]
    congr 1
    exact Multiset.filter_eq_nil.mpr fun r _ hr => hr.2 hr.1
  · intro v hv
    have hne := hv p (Multiset.mem_singleton_self p)
    have hout : ¬ voxelOf downsampleSize q = v := by rwa [hq]
    rw [inVoxel, inVoxel,
      Multiset.filter_cons_of_neg (p := fun r => voxelOf downsampleSize r = v) _ hout,
      Multiset.filter_filter]
    refine Multiset.filter_congr fun r _ => and_iff_left_of_imp ?_
    rintro rfl
    exact hne.symm

/-! ## The box of a voxel -/

variable [IsStrictOrderedRing F]

/-- The box of a point has the points in its voxel. -/
theorem boxOfPoint_contains_iff (hsize : 0 < downsampleSize) (p r : P) :
    (boxOfPoint downsampleSize (coords p)).contains (coords r) ↔
      voxelOf downsampleSize r = voxelOf downsampleSize p := by
  rw [BoxPointType.contains, funext_iff]
  refine forall_congr' fun i => ?_
  rw [voxelOf, voxelOf, Int.floor_eq_iff, le_div_iff₀ hsize, div_lt_iff₀ hsize]
  show lit ⌊coords p i / downsampleSize⌋ * downsampleSize ≤ _ ∧
    _ < lit ⌊coords p i / downsampleSize⌋ * downsampleSize + downsampleSize ↔ _
  rw [lit_eq, add_mul, one_mul]

omit [IsStrictOrderedRing F] in
theorem boxOfPoint_midPoint (p : P) : (boxOfPoint downsampleSize (coords p)).midPoint =
    voxelCentre downsampleSize (voxelOf downsampleSize p) := by
  funext i
  show lit ⌊coords p i / downsampleSize⌋ * downsampleSize +
    (lit ⌊coords p i / downsampleSize⌋ * downsampleSize + downsampleSize -
      lit ⌊coords p i / downsampleSize⌋ * downsampleSize) / lit 2 =
    (⌊coords p i / downsampleSize⌋ + ratio 1 2) * downsampleSize
  rw [lit_eq, lit_eq, ratio_eq]
  push_cast
  ring

/-! ## One point -/

/-- A tree with a root whose flags and ranges are in order. -/
structure MapTree.WellFormed (s : MapTree P F) : Prop where
  sound : s.rootNode.Sound
  there : s.rootNode.isNull = false

theorem taken_eq_inVoxel (hsize : 0 < downsampleSize) (p : P) (ps : List P) :
    ((boxOfPoint downsampleSize (coords p)).taken ps : Multiset P) =
      inVoxel downsampleSize (voxelOf downsampleSize p) ps := by
  rw [inVoxel, Multiset.filter_coe, BoxPointType.taken]
  simp only [boxOfPoint_contains_iff hsize]

theorem spare_eq_outside (hsize : 0 < downsampleSize) (p : P) (ps : List P) :
    ((boxOfPoint downsampleSize (coords p)).spare ps : Multiset P) =
      (ps : Multiset P).filter fun r => voxelOf downsampleSize r ≠ voxelOf downsampleSize p := by
  rw [Multiset.filter_coe, BoxPointType.spare]
  simp only [boxOfPoint_contains_iff hsize, ne_eq, decide_not]

omit [IsStrictOrderedRing F] in
theorem taken_add_spare (box : BoxPointType F) (ps : List P) :
    (box.taken ps : Multiset P) + box.spare ps = ps := by
  have hspare : (box.spare ps : Multiset P) =
      (ps : Multiset P).filter fun p => ¬ box.contains (coords p) := by
    rw [Multiset.filter_coe, BoxPointType.spare]
    simp only [decide_not]
  rw [hspare, BoxPointType.taken, ← Multiset.filter_coe]
  exact Multiset.filter_add_not _ _

theorem samePoint_self (p : P) : samePoint p p = true := by
  have hzero : (fabs (0 : F)) < epss := by
    rw [fabs_eq_abs, abs_zero, epss, ratio_eq]
    norm_num
  simp [samePoint, hzero]

/-- The point chosen is the closest one in the voxel. -/
theorem downsampleResult_closest (hsize : 0 < downsampleSize) (point : P) (live : List P) :
    Closest (voxelCentre downsampleSize (voxelOf downsampleSize point))
      (inVoxel downsampleSize (voxelOf downsampleSize point) ((live : Multiset P) + {point}))
      (downsampleResult (boxOfPoint downsampleSize (coords point)).midPoint point
        ((boxOfPoint downsampleSize (coords point)).taken live)).2 := by
  obtain ⟨hmem, hleast⟩ := downsampleResult_spec
    (boxOfPoint downsampleSize (coords point)).midPoint point
    ((boxOfPoint downsampleSize (coords point)).taken live)
  have hall (q : P) : q ∈ inVoxel downsampleSize (voxelOf downsampleSize point)
      ((live : Multiset P) + {point}) ↔
        q ∈ point :: (boxOfPoint downsampleSize (coords point)).taken live := by
    rw [inVoxel_add, ← taken_eq_inVoxel hsize, List.mem_cons, Multiset.mem_add, Multiset.mem_coe,
      or_comm]
    refine or_congr_left ?_
    rw [mem_inVoxel, Multiset.mem_singleton]
    exact and_iff_left_of_imp (congrArg _)
  rw [← boxOfPoint_midPoint]
  exact ⟨(hall _).mpr hmem, fun r hr => hleast r ((hall r).mp hr)⟩

variable (params : KdTreeParams F) (nth : NthElement P F)

omit [IsStrictOrderedRing F] in
/-- What is left when the voxel is emptied, if there was anything in it. -/
theorem cleared_spec (box : BoxPointType F) {t : KdTree P F} (ht : t.Sound)
    (hthere : t.isNull = false) (storage : List P) (hstorage : storage = box.taken t.live)
    {deleted : Deletion P F}
    (hdeleted : deleted =
      if 0 < storage.length then deleteByRange params nth box true true t else ⟨t, 0, false⟩) :
    deleted.tree.Sound ∧ deleted.tree.isNull = false ∧
      deleted.tree.live.Perm (box.spare t.live) := by
  subst hstorage hdeleted
  split_ifs with hfound
  · obtain ⟨hsound, hperm, hnull⟩ := deleteByRange_spec params nth box true true ht
    exact ⟨hsound, hnull.trans hthere, hperm⟩
  · refine ⟨ht, hthere, .of_eq ?_⟩
    have hnone : box.taken t.live = [] := by
      rw [← List.length_eq_zero_iff]
      omega
    rw [BoxPointType.taken, List.filter_eq_nil_iff] at hnone
    exact (spare_eq_self fun p hp => by simpa using hnone p hp).symm

theorem addDownsampled_spec (hsize : 0 < downsampleSize) {s : MapTree P F} (hs : s.WellFormed)
    (point : P) :
    ∃ s' counted, s.addDownsampled params nth downsampleSize point = some (s', counted) ∧
      s'.WellFormed ∧
      Thinned downsampleSize (s.rootNode.live : Multiset P) {point} s'.rootNode.live := by
  obtain ⟨hfound, hsame⟩ := searchByRange_spec (boxOfPoint downsampleSize (coords point)) hs.sound
  have hclosest := downsampleResult_closest hsize point s.rootNode.live
  have hthinned := Thinned.single hclosest
  rw [← spare_eq_outside hsize] at hthinned
  rw [MapTree.addDownsampled]
  set box := boxOfPoint downsampleSize (coords point)
  set searched := s.rootNode.searchByRange box
  simp only [hfound]
  set result := (downsampleResult box.midPoint point (box.taken s.rootNode.live)).2
  have hthere : searched.2.isNull = false := hsame.isNull.trans hs.there
  by_cases hreplace : 1 < (box.taken s.rootNode.live).length ∨ samePoint point result = true
  · rw [if_pos hreplace]
    obtain ⟨hsound, hnull, hperm⟩ := cleared_spec params nth box hsame.sound hthere
      (box.taken s.rootNode.live) (by rw [hsame.live]) rfl
    set deleted := if 0 < (box.taken s.rootNode.live).length then
      deleteByRange params nth box true true searched.2 else ⟨searched.2, 0, false⟩
    cases htree : deleted.tree with
    | null =>
      rw [htree] at hnull
      cases hnull
    | node n l r =>
      rw [htree] at hsound hperm
      obtain ⟨hadded, hlive, haddedNull, -⟩ :=
        addByPoint_spec params nth true result n.divisionAxis hsound
      refine ⟨_, _, rfl, ⟨hadded, haddedNull⟩, ?_⟩
      have hheld := Multiset.coe_eq_coe.mpr (hlive.trans (hperm.cons result))
      rw [hsame.live] at hheld
      rw [hheld]
      exact hthinned
  · rw [if_neg hreplace]
    refine ⟨_, _, rfl, ⟨hsame.sound, hthere⟩, ?_⟩
    -- the voxel has one point, and that is the closest one
    rw [not_or] at hreplace
    have hmem := (downsampleResult_spec box.midPoint point (box.taken s.rootNode.live)).1
    have hother : result ≠ point := by
      intro hsame'
      rw [hsame'] at hreplace
      exact hreplace.2 (samePoint_self point)
    have hin : result ∈ box.taken s.rootNode.live := (List.mem_cons.mp hmem).resolve_left hother
    obtain ⟨q, hq⟩ : ∃ q, box.taken s.rootNode.live = [q] := by
      rw [← List.length_eq_one_iff]
      have hpos := List.length_pos_of_mem hin
      omega
    have hresult : result = q := List.mem_singleton.mp (hq ▸ hin)
    have hheld : (searched.2.live : Multiset P) = result ::ₘ (box.spare s.rootNode.live) := by
      rw [hsame.live, ← taken_add_spare box, hq, hresult]
      rfl
    rw [hheld]
    exact hthinned

/-! ## Calls -/

/-- The loop over the points, from any count. -/
theorem foldlM_downsamplePass (hsize : 0 < downsampleSize) {s : MapTree P F}
    (hs : s.WellFormed) (points : List P) (tmpCounter : ℕ) :
    ∃ s' counter,
      points.foldlM (MapTree.downsamplePass params nth downsampleSize) (s, tmpCounter) =
        some (s', counter) ∧ s'.WellFormed ∧
      Thinned downsampleSize (s.rootNode.live : Multiset P) points s'.rootNode.live := by
  induction points generalizing s tmpCounter with
  | nil => exact ⟨s, tmpCounter, rfl, hs, .refl _⟩
  | cons point rest ih =>
    obtain ⟨s₁, counted, hadd, hs₁, hfirst⟩ := addDownsampled_spec params nth hsize hs point
    obtain ⟨s', counter, hrest, hs', hlater⟩ := ih hs₁ (tmpCounter + if counted then 1 else 0)
    refine ⟨s', counter, ?_, hs', hfirst.trans hlater⟩
    rw [List.foldlM_cons, MapTree.downsamplePass, hadd]
    exact hrest

/-- The calls that change the map. -/
inductive MapCall (P K : Type) where
  | addPoints (pointToAdd : List P) (downsampleOn : Bool)
  | deletePointBoxes (boxes : List (BoxPointType K))

section

variable {K : Type} [Arith K] [PointType P K] (params : KdTreeParams K) (nth : NthElement P K)

/-- A call with what it returns. -/
def mapCallStep (downsampleSize : K) :
    Option (MapTree P K) → MapCall P K → Option (MapTree P K) × ℕ
  | none, _ => (none, 0)
  | some s, .addPoints points true =>
    let added := s.addPointsDownsampled params nth downsampleSize points
    (added.map Prod.fst, (added.map Prod.snd).getD 0)
  | some s, .addPoints points false => (s.addPoints params nth points, 0)
  | some s, .deletePointBoxes boxes =>
    (some (s.deletePointBoxes params nth boxes).1, (s.deletePointBoxes params nth boxes).2)

/-- The tree after `Build` and any calls, while the rebuild thread has nothing to do. -/
def voxelMap (downsampleSize : K) (points : List P) :
    Machine (Option (MapTree P K)) (MapCall P K) ℕ where
  init := some (MapTree.build nth points)
  step := mapCallStep params nth downsampleSize

/-- The points in the tree, as `flatten` stores them. -/
def MapTree.points (s : MapTree P K) : Multiset P := s.rootNode.flatten.1

end

omit [IsStrictOrderedRing F] in
theorem MapTree.WellFormed.points {s : MapTree P F} (hs : s.WellFormed) :
    s.points = (s.rootNode.live : Multiset P) := by
  rw [MapTree.points, (flatten_spec hs.sound).1]

omit [IsStrictOrderedRing F] in
theorem addPoint_spec {s s' : MapTree P F} (hs : s.rootNode.Sound) {point : P}
    (hadd : s.addPoint params nth point = some s') :
    s'.rootNode.Sound ∧ s'.rootNode.live.Perm (point :: s.rootNode.live) ∧
      s'.rootNode.isNull = false := by
  rw [MapTree.addPoint] at hadd
  cases hroot : s.rootNode with
  | null =>
    rw [hroot] at hadd
    cases hadd
  | node n l r =>
    rw [hroot] at hadd hs
    obtain rfl := Option.some.inj hadd
    obtain ⟨hadded, hlive, hnull, -⟩ := addByPoint_spec params nth true point n.divisionAxis hs
    exact ⟨hadded, hlive, hnull⟩

omit [IsStrictOrderedRing F] in
theorem exists_addPoint {s : MapTree P F} (hthere : s.rootNode.isNull = false) (point : P) :
    ∃ s', s.addPoint params nth point = some s' := by
  rw [MapTree.addPoint]
  cases hroot : s.rootNode with
  | null =>
    rw [hroot] at hthere
    cases hthere
  | node n l r => exact ⟨_, rfl⟩

omit [IsStrictOrderedRing F] in
theorem addPoints_wellFormed {s : MapTree P F} (hs : s.WellFormed) (points : List P) :
    ∃ s', s.addPoints params nth points = some s' ∧ s'.WellFormed ∧
      (s'.rootNode.live : Multiset P) = s.rootNode.live + (points : Multiset P) := by
  induction points generalizing s with
  | nil => exact ⟨s, rfl, hs, (add_zero _).symm⟩
  | cons point rest ih =>
    obtain ⟨s₁, hadd⟩ := exists_addPoint params nth hs.there point
    obtain ⟨hsound, hlive, hnull⟩ := addPoint_spec params nth hs.sound hadd
    obtain ⟨s', hrest, hs', hheld⟩ := ih ⟨hsound, hnull⟩
    refine ⟨s', ?_, hs', ?_⟩
    · rw [MapTree.addPoints, List.foldlM_cons, hadd]
      exact hrest
    · rw [hheld, ← Multiset.cons_coe, Multiset.add_cons, ← Multiset.cons_add]
      congr 1
      exact Multiset.coe_eq_coe.mpr hlive

omit [IsStrictOrderedRing F] in
theorem deletePointBoxes_spec {s : MapTree P F} (hs : s.rootNode.Sound)
    (boxes : List (BoxPointType F)) :
    (s.deletePointBoxes params nth boxes).1.rootNode.Sound ∧
      (s.deletePointBoxes params nth boxes).1.rootNode.isNull = s.rootNode.isNull := by
  induction boxes generalizing s with
  | nil => exact ⟨hs, rfl⟩
  | cons box rest ih =>
    obtain ⟨hdeleted, -, hnull⟩ := deleteByRange_spec params nth box true false hs
    obtain ⟨hsound, hrest⟩ := ih (s := (s.deleteBox params nth box).1) hdeleted
    rw [deletePointBoxes_cons]
    exact ⟨hsound, hrest.trans hnull⟩

omit [IsStrictOrderedRing F] in
theorem build_wellFormed {points : List P} (hne : points ≠ []) :
    (MapTree.build nth points).WellFormed := by
  obtain ⟨hsound, -, hnull⟩ := buildTree_spec nth points
  refine ⟨hsound, ?_⟩
  by_contra h
  exact hne (hnull (Bool.eq_true_of_not_eq_false h))

omit [IsStrictOrderedRing F] in
theorem addDownsampled_sound {s s' : MapTree P F} (hs : s.rootNode.Sound) {point : P}
    {counted : Bool} (hadd : s.addDownsampled params nth downsampleSize point =
      some (s', counted)) : s'.rootNode.Sound := by
  have hsame := (searchByRange_spec (boxOfPoint downsampleSize (coords point)) hs).2
  obtain hroot | ⟨cleared, result, axis, hcleared, hroot⟩ := addDownsampled_cases params nth hadd
  · rw [hroot]
    exact hsame.sound
  · have hsound : cleared.Sound := by
      rcases hcleared with rfl | rfl
      · exact hsame.sound
      · exact (deleteByRange_spec params nth _ true true hsame.sound).1
    rw [hroot]
    exact (addByPoint_spec params nth true result axis hsound).1

omit [IsStrictOrderedRing F] in
/-- A point with down-sampling reads no null pointer. -/
theorem exists_addDownsampled {s : MapTree P F} (hs : s.WellFormed) (point : P) :
    ∃ s' counted, s.addDownsampled params nth downsampleSize point = some (s', counted) ∧
      s'.WellFormed := by
  obtain ⟨hfound, hsame⟩ := searchByRange_spec (boxOfPoint downsampleSize (coords point)) hs.sound
  rw [← hsame.live] at hfound
  rw [MapTree.addDownsampled]
  set box := boxOfPoint downsampleSize (coords point)
  set searched := s.rootNode.searchByRange box
  have hthere : searched.2.isNull = false := hsame.isNull.trans hs.there
  obtain ⟨hsound, hnull, -⟩ :=
    cleared_spec params nth box hsame.sound hthere searched.1 hfound rfl
  dsimp only
  generalize (if 0 < searched.1.length then deleteByRange params nth box true true searched.2
    else ⟨searched.2, 0, false⟩ : Deletion P F) = deleted at hsound hnull
  split_ifs
  · cases htree : deleted.tree with
    | null =>
      rw [htree] at hnull
      cases hnull
    | node n l r =>
      rw [htree] at hsound
      obtain ⟨hadded, -, haddedNull, -⟩ :=
        addByPoint_spec params nth true
          (downsampleResult box.midPoint point searched.1).2 n.divisionAxis hsound
      exact ⟨_, _, rfl, hadded, haddedNull⟩
  · exact ⟨_, _, rfl, hsame.sound, hthere⟩

omit [IsStrictOrderedRing F] in
theorem mapCallStep_wellFormed {s : MapTree P F} (hs : s.WellFormed) (call : MapCall P F) :
    ∃ s', (mapCallStep params nth downsampleSize (some s) call).1 = some s' ∧ s'.WellFormed := by
  match call with
  | .addPoints points true =>
    obtain ⟨acc, hadd, hacc⟩ := exists_foldlM
      (I := fun acc : MapTree P F × ℕ => acc.1.WellFormed)
      (f := MapTree.downsamplePass params nth downsampleSize) (s := (s, 0))
      (fun acc point hacc => by
        obtain ⟨t, counted, hone, ht⟩ := exists_addDownsampled params nth hacc point
        exact ⟨_, by rw [MapTree.downsamplePass, hone]; rfl, ht⟩) points hs
    refine ⟨acc.1, ?_, hacc⟩
    show (s.addPointsDownsampled params nth downsampleSize points).map Prod.fst = some acc.1
    rw [MapTree.addPointsDownsampled, hadd]
    rfl
  | .addPoints points false =>
    obtain ⟨s', hadd, hs', -⟩ := addPoints_wellFormed params nth hs points
    exact ⟨s', hadd, hs'⟩
  | .deletePointBoxes boxes =>
    obtain ⟨hsound, hnull⟩ := deletePointBoxes_spec params nth hs.sound boxes
    exact ⟨_, rfl, ⟨hsound, hnull.trans hs.there⟩⟩

omit [IsStrictOrderedRing F] in
/-- No run reads a null pointer, and its trees are in order. -/
theorem voxelMap_wellFormed {points : List P} (hne : points ≠ []) (calls : List (MapCall P F)) :
    ∃ s, (voxelMap params nth downsampleSize points).run
        (voxelMap params nth downsampleSize points).init calls = some s ∧ s.WellFormed := by
  refine Machine.run_invariant (I := fun o : Option (MapTree P F) => ∃ s, o = some s ∧ s.WellFormed)
    ?_ ⟨_, rfl, build_wellFormed nth hne⟩ calls
  rintro _ call ⟨s, rfl, hs⟩
  exact mapCallStep_wellFormed params nth hs call

/-! ## Runs that may start with no point -/

omit [IsStrictOrderedRing F] in
/-- Flags and ranges are in order in every tree of a run, also when it starts with no
points. -/
theorem voxelMap_sound (points : List P) (calls : List (MapCall P F)) {s : MapTree P F}
    (hrun : (voxelMap params nth downsampleSize points).run
      (voxelMap params nth downsampleSize points).init calls = some s) : s.rootNode.Sound := by
  refine Machine.run_invariant (I := fun o : Option (MapTree P F) => ∀ s, o = some s →
    s.rootNode.Sound) ?_ ?_ calls s hrun
  · intro o call ho s' hnext
    cases o with
    | none => cases hnext
    | some s =>
      have hs := ho s rfl
      match call with
      | .addPoints points true =>
        obtain ⟨⟨s'', counter⟩, hadd, rfl⟩ := Option.map_eq_some_iff.mp hnext
        refine foldlM_keeps (I := fun acc : MapTree P F × ℕ => acc.1.rootNode.Sound) ?_ hs hadd
        intro acc point acc' hacc hpass
        obtain ⟨⟨t, counted⟩, hone, rfl⟩ := Option.map_eq_some_iff.mp hpass
        exact addDownsampled_sound params nth hacc hone
      | .addPoints points false =>
        exact foldlM_keeps (I := fun acc : MapTree P F => acc.rootNode.Sound)
          (fun _ _ _ hacc hpass => (addPoint_spec params nth hacc hpass).1) hs hnext
      | .deletePointBoxes boxes =>
        obtain rfl := Option.some.inj hnext
        exact (deletePointBoxes_spec params nth hs boxes).1
  · intro s hinit
    obtain rfl := Option.some.inj hinit
    exact (buildTree_spec nth points).1

/-- `Add_Points(., true)` on any tree there can be leaves every voxel with a point of the
list one closest point, and every other voxel as it was.  What is handed to the thread
keeps its points, so the size of the tree does not matter here. -/
theorem addPoints_thins (hsize : 0 < downsampleSize) {points : List P} (hne : points ≠ [])
    (calls : List (MapCall P F)) {s : MapTree P F}
    (hrun : (voxelMap params nth downsampleSize points).run
      (voxelMap params nth downsampleSize points).init calls = some s) (pointToAdd : List P) :
    ∃ s' counter, s.addPointsDownsampled params nth downsampleSize pointToAdd =
        some (s', counter) ∧ s'.rootNode ≠ null ∧
      Thinned downsampleSize s.points pointToAdd s'.points := by
  obtain ⟨t, ht, hs⟩ := voxelMap_wellFormed params nth hne calls
  obtain rfl := Option.some.inj (ht.symm.trans hrun)
  obtain ⟨s', counter, hadd, hs', hthinned⟩ :=
    foldlM_downsamplePass params nth hsize hs pointToAdd 0
  refine ⟨s', counter, hadd, ?_, ?_⟩
  · intro hnull
    have hthere := hs'.there
    rw [hnull] at hthere
    cases hthere
  · rw [hs.points, hs'.points]
    exact hthinned

/-- A point more, and a box around two points. -/
def diagonalMapCalls : List (MapCall (Coords ℚ) ℚ) :=
  [.addPoints [diagonal 3] true, .deletePointBoxes [⟨diagonal 0, diagonal 2⟩]]

theorem addPoints_thins_diagonal :
    ∃ s, (voxelMap defaultParams sortedNthElement (2 : ℚ) diagonalPoints).run
        (voxelMap defaultParams sortedNthElement (2 : ℚ) diagonalPoints).init diagonalMapCalls =
          some s ∧
      ∃ s' counter, s.addPointsDownsampled defaultParams sortedNthElement 2
          [diagonal 0, diagonal 1] = some (s', counter) ∧ s'.rootNode ≠ null ∧
        Thinned 2 s.points ([diagonal 0, diagonal 1] : List (Coords ℚ)) s'.points := by
  obtain ⟨s, hrun, -⟩ := voxelMap_wellFormed defaultParams sortedNthElement
    (List.cons_ne_nil _ _ : diagonalPoints ≠ []) diagonalMapCalls
  exact ⟨s, hrun, addPoints_thins defaultParams sortedNthElement (by norm_num)
    (List.cons_ne_nil _ _) diagonalMapCalls hrun [diagonal 0, diagonal 1]⟩

end

end IkdTree
end RobotNav
