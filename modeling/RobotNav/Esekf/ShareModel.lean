/-
`h_share_model`: the points of a scan against planes of the map.

A point is looked up in the map only in a pass that searches; the passes in between fit the
plane again to the neighbours found then, and can only lose points.  The map itself and the
least squares of Eigen are parameters.
-/
import RobotNav.Esekf.UpdateLoop

namespace RobotNav

open Matrix

/-- What the node keeps for a point of the down-sampled scan. -/
structure SurfPoint (K : Type) where
  /-- `feats_down_body`. -/
  body : Fin 3 → K
  /-- `Nearest_Points`. -/
  pointsNear : List (Fin 3 → K)
  /-- `point_selected_surf`. -/
  selected : Bool
  /-- `normvec`, without its intensity. -/
  normvec : Fin 3 → K
  /-- The intensity of `normvec`: the distance to the plane. -/
  intensity : K
  resLast : K

/-- The variables of the node that `h_share_model` keeps from one call to the next. -/
structure SurfNode (K : Type) where
  points : List (SurfPoint K)
  resMeanLast : K

/-- The map, Eigen's `colPivHouseholderQr().solve` and the parameter of the node. -/
structure SurfConfig (K : Type) where
  /-- `Nearest_Search` for `NUM_MATCH_POINTS`, with the squared distances. -/
  nearestSearch : (Fin 3 → K) → List (Fin 3 → K) × List K
  solve : Matrix (Fin 5) (Fin 3) K → (Fin 5 → K) → Fin 3 → K
  extrinsicEstEn : Bool

namespace ShareModel

variable {K : Type} [Field K] [LinearOrder K] [FloorRing K]
variable (c : CMath K) (cfg : SurfConfig K)

/-- A point of the scan in the world frame. -/
def toWorld (s : StateIkfom K) (body : Fin 3 → K) : Fin 3 → K :=
  s.rot.rotate (s.offsetRLI.rotate body + s.offsetTLI) + s.pos

/-- `esti_plane`, with the plane where it fits. -/
def estiPlane (point : List (Fin 3 → K)) (threshold : K) : Option ((Fin 3 → K) × K) :=
  let A : Matrix (Fin 5) (Fin 3) K := fun j => point.getD j fun _ => lit 0
  let normvec := cfg.solve A fun _ => -lit 1
  let n := c.norm normvec
  let abc : Fin 3 → K := fun i => normvec i / n
  let d := lit 1 / n
  -- what is divided by zero is no number, and fails the caller's test
  if n = 0 then none
  else if ∃ j, threshold < fabs (abc ⬝ᵥ A j + d) then none
  else some (abc, d)

/-- The search of a point, and whether its neighbours are near enough. -/
def searched (s : StateIkfom K) (p : SurfPoint K) : SurfPoint K :=
  let found := cfg.nearestSearch (toWorld s p.body)
  { p with
    pointsNear := found.1
    selected := if found.1.length < 5 then false
      else if lit 5 < found.2.getD 4 (lit 0) then false
      else true }

/-- The test of a selected point against the plane of its neighbours. -/
def tested (s : StateIkfom K) (p : SurfPoint K) : SurfPoint K :=
  if !p.selected then p
  else
    match estiPlane c cfg p.pointsNear (ratio 1 10) with
    | none => { p with selected := false }
    | some (abc, d) =>
      let pd2 := abc ⬝ᵥ toWorld s p.body + d
      let range := c.sqrt (c.norm p.body)
      -- a point at the origin gives no number either
      if lit 0 < range ∧ ratio 9 10 < lit 1 - ratio 9 10 * fabs pd2 / range then
        { p with selected := true, normvec := abc, intensity := pd2, resLast := fabs pd2 }
      else { p with selected := false }

/-- A point as it goes into the test: searched first in a pass that searches. -/
def looked (s : StateIkfom K) (converge : Bool) (p : SurfPoint K) : SurfPoint K :=
  if converge then searched cfg s p else p

/-- The first loop at one point. -/
def surface (s : StateIkfom K) (converge : Bool) (p : SurfPoint K) : SurfPoint K :=
  tested c cfg s (looked cfg s converge p)

/-- The parts of a row of `h_x`, three columns each. -/
def cols (part : Fin 4) : Block 12 3 := ⟨3 * part.val, by omega⟩

def posCols : Block 12 3 := cols 0
def rotCols : Block 12 3 := cols 1
def offsetRCols : Block 12 3 := cols 2
def offsetTCols : Block 12 3 := cols 3

/-- A row of `h_x`. -/
def row (s : StateIkfom K) (p : SurfPoint K) : Fin 12 → K :=
  let pointThis := s.offsetRLI.rotate p.body + s.offsetTLI
  let C := s.rot.conjugate.rotate p.normvec
  let A := MTK.hat pointThis *ᵥ C
  let B := (MTK.hat p.body * s.offsetRLI.conjugate.toRotationMatrix) *ᵥ C
  posCols.set p.normvec <| rotCols.set A <|
    if cfg.extrinsicEstEn then offsetRCols.set B <| offsetTCols.set C fun _ => lit 0
    else fun _ => lit 0

/-- The points of the second loop: `laserCloudOri` with `corr_normvect`. -/
def effective (points : List (SurfPoint K)) : List (SurfPoint K) := points.filter (·.selected)

def hShareModel (s : StateIkfom K) (arg : SurfNode K × DynShare K) : SurfNode K × DynShare K :=
  let points := arg.1.points.map (surface c cfg s arg.2.converge)
  let surfaces := effective points
  let totalResidual := (surfaces.map SurfPoint.resLast).foldl (· + ·) (lit 0)
  if surfaces.length < 1 then ({ arg.1 with points := points }, { arg.2 with valid := false })
  else
    ({ points := points, resMeanLast := totalResidual / lit surfaces.length },
      { valid := arg.2.valid, converge := arg.2.converge, rows := surfaces.length
        h := fun i => -(surfaces.get i).intensity
        hx := fun i => row cfg s (surfaces.get i) })

/-! ## One point -/

variable {c cfg} {s : StateIkfom K} {p q : SurfPoint K}

/-- Whether the plane of the neighbours fits them and the point. -/
def fits (c : CMath K) (cfg : SurfConfig K) (s : StateIkfom K) (body : Fin 3 → K)
    (pointsNear : List (Fin 3 → K)) : Bool :=
  match estiPlane c cfg pointsNear (ratio 1 10) with
  | none => false
  | some (abc, d) =>
    decide (lit 0 < c.sqrt (c.norm body) ∧ ratio 9 10 <
      lit 1 - ratio 9 10 * fabs (abc ⬝ᵥ toWorld s body + d) / c.sqrt (c.norm body))

theorem tested_selected :
    (tested c cfg s p).selected = (p.selected && fits c cfg s p.body p.pointsNear) := by
  rw [tested]
  cases hselected : p.selected with
  | false => simp only [hselected, Bool.not_false, if_true, Bool.false_and]
  | true =>
    rw [Bool.not_true, if_neg Bool.false_ne_true, Bool.true_and, fits]
    cases estiPlane c cfg p.pointsNear (ratio 1 10) with
    | none => rfl
    | some plane =>
      dsimp only
      split_ifs with htest
      · exact (decide_eq_true htest).symm
      · exact (decide_eq_false htest).symm

theorem tested_body : (tested c cfg s p).body = p.body := by
  rw [tested]
  split_ifs
  · rfl
  · split
    · rfl
    · dsimp only
      split_ifs <;> rfl

theorem tested_pointsNear : (tested c cfg s p).pointsNear = p.pointsNear := by
  rw [tested]
  split_ifs
  · rfl
  · split
    · rfl
    · dsimp only
      split_ifs <;> rfl

/-- A point that passes keeps the plane of its neighbours and its distance to it. -/
theorem tested_plane (h : (tested c cfg s p).selected = true) :
    ∃ d, estiPlane c cfg (tested c cfg s p).pointsNear (ratio 1 10) =
        some ((tested c cfg s p).normvec, d) ∧
      (tested c cfg s p).intensity =
        (tested c cfg s p).normvec ⬝ᵥ toWorld s (tested c cfg s p).body + d := by
  rw [tested_pointsNear, tested_body]
  rw [tested_selected, Bool.and_eq_true, fits] at h
  obtain ⟨hselected, hfits⟩ := h
  rw [tested, hselected, Bool.not_true, if_neg Bool.false_ne_true]
  cases hplane : estiPlane c cfg p.pointsNear (ratio 1 10) with
  | none => rw [hplane] at hfits; exact absurd hfits Bool.false_ne_true
  | some plane =>
    rw [hplane] at hfits
    dsimp only
    rw [if_pos (of_decide_eq_true hfits)]
    exact ⟨plane.2, rfl, rfl⟩

theorem surface_body {converge : Bool} : (surface c cfg s converge p).body = p.body := by
  rw [surface, tested_body]
  cases converge <;> rfl

/-- A search looks at nothing that was left at the point but the point itself. -/
theorem surface_of_search (h : p.body = q.body) :
    (surface c cfg s true p).selected = (surface c cfg s true q).selected := by
  rw [surface, surface, looked, looked, if_pos rfl, if_pos rfl, tested_selected, tested_selected,
    searched, searched, h]

/-- Without a search no point is selected anew. -/
theorem selected_of_surface (h : (surface c cfg s false p).selected = true) :
    p.selected = true := by
  rw [surface, looked, if_neg Bool.false_ne_true, tested_selected, Bool.and_eq_true] at h
  exact h.1

/-- A point lost in a pass stays lost when the pass is made again. -/
theorem surface_again {converge : Bool} (h : (surface c cfg s converge p).selected = false) :
    (surface c cfg s converge (surface c cfg s converge p)).selected = false := by
  cases converge with
  | true => rw [surface_of_search surface_body, h]
  | false =>
    by_contra hagain
    rw [Bool.not_eq_false] at hagain
    exact absurd (selected_of_surface hagain) (by simp [h])

/-! ## One call -/

variable {node : SurfNode K} {share : DynShare K}

theorem hShareModel_points :
    (hShareModel c cfg s (node, share)).1.points =
      node.points.map (surface c cfg s share.converge) := by
  rw [hShareModel]
  dsimp only
  split_ifs <;> rfl

/-- A valid call builds a row for each point that passed. -/
theorem hShareModel_of_valid (hdone : (hShareModel c cfg s (node, share)).2.valid = true) :
    (hShareModel c cfg s (node, share)).2 =
      { valid := true, converge := share.converge
        rows := (effective (hShareModel c cfg s (node, share)).1.points).length
        h := fun i =>
          -((effective (hShareModel c cfg s (node, share)).1.points).get i).intensity
        hx := fun i =>
          row cfg s ((effective (hShareModel c cfg s (node, share)).1.points).get i) } := by
  rw [hShareModel_points]
  rw [hShareModel] at hdone ⊢
  dsimp only at hdone ⊢
  split_ifs at hdone ⊢
  rw [show share.valid = true from hdone]

/-- A valid call measures no difference where every point lies in its plane. -/
theorem hShareModel_flat (hdone : (hShareModel c cfg s (node, share)).2.valid = true)
    (hflat : ∀ p ∈ node.points, (surface c cfg s share.converge p).intensity = 0) :
    (hShareModel c cfg s (node, share)).2.h = 0 := by
  have hall : ∀ q ∈ effective (hShareModel c cfg s (node, share)).1.points, q.intensity = 0 := by
    intro q hq
    have hmem := List.mem_of_mem_filter hq
    rw [hShareModel_points] at hmem
    obtain ⟨p, hp, rfl⟩ := List.mem_map.mp hmem
    exact hflat p hp
  rw [hShareModel_of_valid hdone]
  funext i
  exact neg_eq_zero.mpr (hall _ (List.get_mem _ i))

theorem hShareModel_converge :
    (hShareModel c cfg s (node, share)).2.converge = share.converge := by
  rw [hShareModel]
  dsimp only
  split_ifs <;> rfl

/-- A call that is to be valid fails exactly when no point is left. -/
theorem hShareModel_invalid_iff (h : share.valid = true) :
    (hShareModel c cfg s (node, share)).2.valid = false ↔
      ∀ p ∈ node.points, (surface c cfg s share.converge p).selected = false := by
  have hnone : (effective (node.points.map (surface c cfg s share.converge))).length < 1 ↔
      ∀ p ∈ node.points, (surface c cfg s share.converge p).selected = false := by
    rw [Nat.lt_one_iff, List.length_eq_zero_iff, effective, List.filter_eq_nil_iff]
    simp
  rw [← hnone, hShareModel]
  dsimp only
  split_ifs with hlength
  · exact iff_of_true rfl hlength
  · rw [h]
    exact iff_of_false (by simp) hlength

/-- Where no point is left, none comes back until the estimate moves. -/
theorem hShareModel_stuck :
    UpdateLoop.Stuck (M := StateIkfom.manifold c) (hShareModel c cfg) := by
  intro (x : StateIkfom K) node share hvalid hfirst
  have hnone := (hShareModel_invalid_iff hvalid).mp hfirst
  refine (hShareModel_invalid_iff rfl).mpr ?_
  rw [hShareModel_points]
  intro p hp
  obtain ⟨q, hq, rfl⟩ := List.mem_map.mp hp
  show (surface c cfg x (hShareModel c cfg x (node, share)).2.converge _).selected = false
  rw [hShareModel_converge]
  exact surface_again (hnone q hq)

/-! ## A map that is a plane -/

/-- Every search of the map finds the same neighbours, near enough and in the plane. -/
structure Flat (cfg : SurfConfig ℝ) (near : List (Fin 3 → ℝ)) (abc : Fin 3 → ℝ) (d : ℝ) :
    Prop where
  found : ∀ w, (cfg.nearestSearch w).1 = near
  five : 5 ≤ near.length
  close : ∀ w, (cfg.nearestSearch w).2.getD 4 (lit 0) ≤ 5
  plane : estiPlane .real cfg near (ratio 1 10) = some (abc, d)

variable {cfg : SurfConfig ℝ} {near : List (Fin 3 → ℝ)} {abc : Fin 3 → ℝ} {d : ℝ}

/-- A point is ready for the test: it is about to be searched, or was found its neighbours. -/
def Ready (near : List (Fin 3 → ℝ)) (converge : Bool) (p : SurfPoint ℝ) : Prop :=
  converge = true ∨ p.selected = true ∧ p.pointsNear = near

theorem Flat.looked (h : Flat cfg near abc d) {s : StateIkfom ℝ} {p : SurfPoint ℝ}
    {converge : Bool} (hp : Ready near converge p) :
    looked cfg s converge p = { p with pointsNear := near, selected := true } := by
  cases converge with
  | false =>
    rcases hp with hconverge | ⟨hselected, hnear⟩
    · exact absurd hconverge Bool.false_ne_true
    · rw [ShareModel.looked, if_neg Bool.false_ne_true, ← hselected, ← hnear]
  | true =>
    have hfive : ¬ (cfg.nearestSearch (toWorld s p.body)).1.length < 5 := by
      rw [h.found]
      exact not_lt.mpr h.five
    have hclose : ¬ lit 5 < (cfg.nearestSearch (toWorld s p.body)).2.getD 4 (lit 0) := by
      rw [lit_eq, Int.cast_ofNat]
      exact not_lt.mpr (h.close _)
    rw [ShareModel.looked, if_pos rfl, searched]
    simp only [h.found, if_neg hclose, not_lt.mpr h.five, if_false]

/-- A point in the plane is kept, and its distance to the plane is zero. -/
theorem Flat.surface (h : Flat cfg near abc d) {s : StateIkfom ℝ} {p : SurfPoint ℝ}
    {converge : Bool} (hp : Ready near converge p) (hbody : p.body ≠ 0)
    (hon : abc ⬝ᵥ toWorld s p.body + d = 0) :
    surface .real cfg s converge p =
      { p with
        pointsNear := near, selected := true, normvec := abc, intensity := 0, resLast := 0 } := by
  have hrange : 0 < CMath.real.sqrt (CMath.real.norm p.body) := by
    have hnorm : 0 < angleOf p.body :=
      (angleOf_nonneg _).lt_of_ne fun hzero => hbody (eq_zero_of_angleOf hzero.symm)
    exact Real.sqrt_pos.mpr hnorm
  have htest : lit 0 < CMath.real.sqrt (CMath.real.norm p.body) ∧ ratio 9 10 <
      lit 1 - ratio 9 10 * fabs (0 : ℝ) / CMath.real.sqrt (CMath.real.norm p.body) := by
    simp only [fabs_eq_abs, ratio_eq, lit_eq, abs_zero, mul_zero, zero_div]
    exact ⟨by exact_mod_cast hrange, by norm_num⟩
  rw [ShareModel.surface, h.looked hp, tested]
  simp only [h.plane, hon, Bool.not_true, if_false, Bool.false_eq_true]
  rw [if_pos htest, fabs_eq_abs, abs_zero]

/-- Where the least squares give a unit normal, and the plane at distance one along it goes
through the neighbours, that is the plane. -/
theorem flat_of_unit (hfound : ∀ w, (cfg.nearestSearch w).1 = near) (hfive : 5 ≤ near.length)
    (hclose : ∀ w, (cfg.nearestSearch w).2.getD 4 (lit 0) ≤ 5)
    (hsolve : ∀ A b, cfg.solve A b = abc) (hunit : abc ⬝ᵥ abc = 1)
    (hon : ∀ j : Fin 5, abc ⬝ᵥ near.getD j (fun _ => lit 0) + 1 = 0) : Flat cfg near abc 1 where
  found := hfound
  five := hfive
  close := hclose
  plane := by
    have hnorm : CMath.real.norm abc = 1 := by
      rw [norm_eq_angleOf, angleOf, hunit, Real.sqrt_one]
    have habc : (fun i => abc i / 1) = abc := by
      funext i
      rw [div_one]
    have hd : (lit 1 : ℝ) / 1 = 1 := by rw [lit_eq, Int.cast_one, div_one]
    have hnormal := hsolve (fun j => near.getD j fun _ => lit 0) fun _ => -lit 1
    rw [estiPlane]
    simp only [hnormal, hnorm, habc, hd]
    rw [if_neg one_ne_zero, if_neg]
    rintro ⟨j, hj⟩
    rw [hon j, fabs_eq_abs, abs_zero, ratio_eq] at hj
    norm_num at hj

/-- Five points of a floor, and what the least squares give for them. -/
noncomputable def floorConfig (extrinsicEstEn : Bool) : SurfConfig ℝ where
  nearestSearch := fun _ =>
    ([![0, 0, -1], ![1, 0, -1], ![0, 1, -1], ![1, 1, -1], ![lit 2, 0, -1]], [0, 1, 1, lit 2, lit 4])
  solve := fun _ _ => ![0, 0, 1]
  extrinsicEstEn := extrinsicEstEn

noncomputable def floorPoint : SurfPoint ℝ := ⟨![0, 0, -1], [], false, 0, 0, 0⟩

theorem toWorld_create (v : Fin 3 → ℝ) : toWorld StateIkfom.create v = v := by
  have hzero : (fun _ => lit 0 : Fin 3 → ℝ) = 0 := by
    funext i
    exact Int.cast_zero
  show SO3.identity.rotate (SO3.identity.rotate v + fun _ => lit 0) + (fun _ => lit 0) = v
  rw [SO3.rotate_identity, SO3.rotate_identity, hzero, add_zero, add_zero]

theorem floor_flat (b : Bool) :
    Flat (floorConfig b) ((floorConfig b).nearestSearch 0).1 ![0, 0, 1] 1 := by
  have hclose : (lit 4 : ℝ) ≤ 5 := by
    rw [lit_eq]
    norm_num
  refine flat_of_unit (fun _ => rfl) (le_refl 5) (fun _ => hclose) (fun _ _ => rfl) ?_ fun j => ?_
  · simp [dotProduct, Fin.sum_univ_three]
  · have hlast : ∀ a b d : ℝ, (![a, b, d] : Fin 3 → ℝ) 2 = d := fun _ _ _ => rfl
    simp only [floorConfig]
    fin_cases j <;> norm_num [dotProduct, Fin.sum_univ_three, hlast]

/-- The point lies in the floor under the node as it starts. -/
theorem floorPoint_on : floorPoint.body ≠ 0 ∧
    (![0, 0, 1] : Fin 3 → ℝ) ⬝ᵥ toWorld StateIkfom.create floorPoint.body + 1 = 0 := by
  constructor
  · intro hzero
    have hlast : (-1 : ℝ) = 0 := congrFun hzero 2
    norm_num at hlast
  · rw [toWorld_create, floorPoint]
    simp [dotProduct, Fin.sum_univ_three]

theorem floorPoint_selected (b : Bool) :
    (surface .real (floorConfig b) StateIkfom.create true floorPoint).selected = true := by
  rw [(floor_flat b).surface (.inl rfl) floorPoint_on.1 floorPoint_on.2]

end ShareModel

end RobotNav
