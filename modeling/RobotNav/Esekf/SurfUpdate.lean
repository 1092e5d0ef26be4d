/-
The update of the node: the passes of the filter with the planes of the map.

The flags and the neighbours of a point outlive the scan they were found for.  The first
pass of an update searches for every point, and nothing left from before is read.
-/
import RobotNav.Esekf.Covariance
import RobotNav.Esekf.ShareModel

namespace RobotNav

open Matrix

variable {K : Type} [Field K] [LinearOrder K] [FloorRing K]

namespace ShareModel

variable (c : CMath K) (e : Eigen K) (cfg : SurfConfig K) (maximumIter : ℤ)

/-- The arguments of `init_dyn_share` and of the update, `LASER_POINT_COV`. -/
def updateConfig : UpdateConfig K (StateIkfom.manifold c) (SurfNode K) where
  hDynShare := hShareModel c cfg
  maximumIter := maximumIter
  limit := fun _ => ratio 1 1000
  R := ratio 1 1000

def start (kf : Esekf (StateIkfom.manifold c)) (node : SurfNode K) :
    UpdateLoop (StateIkfom.manifold c) (SurfNode K) :=
  { kf := kf, env := node, share := DynShare.start, t := 0 }

def update (kf : Esekf (StateIkfom.manifold c)) (node : SurfNode K) :
    UpdateLoop (StateIkfom.manifold c) (SurfNode K) × Bool :=
  updateIteratedDynShareModified c e twelve_le_dof (updateConfig c cfg maximumIter) kf node

/-- The passes of an update, each with the loop before it and the counter. -/
def passesOf (kf : Esekf (StateIkfom.manifold c)) (node : SurfNode K) :
    List (UpdateLoop (StateIkfom.manifold c) (SurfNode K) × ℤ) :=
  (start c kf node).made c e twelve_le_dof (updateConfig c cfg maximumIter) kf (counter maximumIter)

variable {c e cfg maximumIter}

/-! ## What is left from the scan before -/

/-- Two points that differ at most in what no pass without a search reads. -/
structure Alike (p q : SurfPoint K) : Prop where
  body : p.body = q.body
  pointsNear : p.pointsNear = q.pointsNear
  selected : p.selected = q.selected
  whole : p.selected = true → p = q

variable {s : StateIkfom K} {p q : SurfPoint K}

theorem Alike.tested {p q : SurfPoint K} (hbody : p.body = q.body)
    (hnear : p.pointsNear = q.pointsNear) (hselected : p.selected = q.selected) :
    Alike (tested c cfg s p) (tested c cfg s q) := by
  refine ⟨?_, ?_, ?_, ?_⟩
  · rw [tested_body, tested_body, hbody]
  · rw [tested_pointsNear, tested_pointsNear, hnear]
  · rw [tested_selected, tested_selected, hbody, hnear, hselected]
  · intro h
    obtain ⟨body, near, selected, normvec, intensity, resLast⟩ := p
    obtain ⟨body', near', selected', normvec', intensity', resLast'⟩ := q
    dsimp only at hbody hnear hselected
    subst hbody hnear hselected
    rw [tested_selected, Bool.and_eq_true] at h
    obtain ⟨rfl, hfits⟩ := h
    rw [fits] at hfits
    rw [ShareModel.tested, ShareModel.tested]
    dsimp only at hfits ⊢
    cases hplane : estiPlane c cfg near (ratio 1 10) with
    | none =>
      rw [hplane] at hfits
      exact absurd hfits Bool.false_ne_true
    | some plane =>
      rw [hplane] at hfits
      rw [Bool.not_true, if_neg Bool.false_ne_true, if_neg Bool.false_ne_true]
      dsimp only at hfits ⊢
      rw [if_pos (of_decide_eq_true hfits), if_pos (of_decide_eq_true hfits)]

/-- After a search nothing is left of what two points with one body differed in. -/
theorem Alike.surface_of_search (h : p.body = q.body) :
    Alike (surface c cfg s true p) (surface c cfg s true q) := by
  apply Alike.tested
  · exact h
  · show (cfg.nearestSearch (toWorld s p.body)).1 = (cfg.nearestSearch (toWorld s q.body)).1
    rw [h]
  · show (searched cfg s p).selected = (searched cfg s q).selected
    rw [searched, searched, h]

theorem Alike.surface {converge : Bool} (h : Alike p q) :
    Alike (surface c cfg s converge p) (surface c cfg s converge q) := by
  cases converge with
  | true => exact Alike.surface_of_search h.body
  | false => exact Alike.tested h.body h.pointsNear h.selected

omit [Field K] [LinearOrder K] [FloorRing K] in
theorem effective_eq {points points' : List (SurfPoint K)} (h : List.Forall₂ Alike points points') :
    effective points = effective points' := by
  induction h with
  | nil => rfl
  | @cons p q rest rest' hpq _ ih =>
    rw [effective, effective, List.filter_cons, List.filter_cons, ← hpq.selected]
    rw [effective, effective] at ih
    split_ifs with hselected
    · rw [hpq.whole hselected, ih]
    · exact ih

/-- What two nodes must share for the next pass not to tell them apart. -/
def SameScan (converge : Bool) (node node' : SurfNode K) : Prop :=
  (converge = true ∧ List.Forall₂ (fun p q => p.body = q.body) node.points node'.points) ∨
    List.Forall₂ Alike node.points node'.points

theorem SameScan.surface {converge : Bool} {node node' : SurfNode K}
    (h : SameScan converge node node') :
    List.Forall₂ Alike (node.points.map (surface c cfg s converge))
      (node'.points.map (ShareModel.surface c cfg s converge)) := by
  rw [List.forall₂_map_left_iff, List.forall₂_map_right_iff]
  rcases h with ⟨rfl, hbody⟩ | halike
  · exact hbody.imp fun p q hpq => Alike.surface_of_search hpq
  · exact halike.imp fun p q hpq => hpq.surface

theorem SameScan.hShareModel {node node' : SurfNode K} {share : DynShare K}
    (h : SameScan share.converge node node') :
    (hShareModel c cfg s (node, share)).2 = (hShareModel c cfg s (node', share)).2 ∧
      List.Forall₂ Alike (ShareModel.hShareModel c cfg s (node, share)).1.points
        (ShareModel.hShareModel c cfg s (node', share)).1.points := by
  constructor
  · rw [ShareModel.hShareModel, ShareModel.hShareModel]
    dsimp only
    rw [effective_eq h.surface]
    split_ifs <;> rfl
  · rw [hShareModel_points, hShareModel_points]
    exact h.surface

/-- Two loops that only differ in what is left from before. -/
structure SameLoop (l l' : UpdateLoop (StateIkfom.manifold c) (SurfNode K)) : Prop where
  kf : l.kf = l'.kf
  t : l.t = l'.t
  share : l.share = l'.share
  scan : SameScan l.share.converge l.env l'.env

theorem SameLoop.pass {propagated : Esekf (StateIkfom.manifold c)}
    {l l' : UpdateLoop (StateIkfom.manifold c) (SurfNode K)} (h : SameLoop l l') (i : ℤ) :
    (l.pass c e twelve_le_dof (updateConfig c cfg maximumIter) propagated i).2 =
      (l'.pass c e twelve_le_dof (updateConfig c cfg maximumIter) propagated i).2 ∧
    SameLoop (l.pass c e twelve_le_dof (updateConfig c cfg maximumIter) propagated i).1
      (l'.pass c e twelve_le_dof (updateConfig c cfg maximumIter) propagated i).1 := by
  have hanswer : (UpdateLoop.answer (updateConfig c cfg maximumIter) l).2 =
        (UpdateLoop.answer (updateConfig c cfg maximumIter) l').2 ∧
      List.Forall₂ Alike (UpdateLoop.answer (updateConfig c cfg maximumIter) l).1.points
        (UpdateLoop.answer (updateConfig c cfg maximumIter) l').1.points := by
    rw [UpdateLoop.answer, UpdateLoop.answer, ← h.kf, ← h.share]
    exact SameScan.hShareModel h.scan
  obtain ⟨hreturned, hkf, ht, hshare⟩ := UpdateLoop.pass_congr h.kf h.t hanswer.1 i
  refine ⟨hreturned, hkf, ht, hshare, Or.inr ?_⟩
  rw [UpdateLoop.pass_env, UpdateLoop.pass_env]
  exact hanswer.2

/-- Flags and neighbours from an earlier scan make no difference to an update: only the
points of the scan do. -/
theorem update_forgets (c : CMath K) (e : Eigen K) (cfg : SurfConfig K) (maximumIter : ℤ)
    (kf : Esekf (StateIkfom.manifold c)) {node node' : SurfNode K}
    (h : node.points.map SurfPoint.body = node'.points.map SurfPoint.body) :
    (update c e cfg maximumIter kf node).2 = (update c e cfg maximumIter kf node').2 ∧
      (update c e cfg maximumIter kf node).1.kf = (update c e cfg maximumIter kf node').1.kf := by
  have hbody : List.Forall₂ (fun p q : SurfPoint K => p.body = q.body) node.points node'.points := by
    rw [← List.forall₂_eq_eq_eq, List.forall₂_map_left_iff, List.forall₂_map_right_iff] at h
    exact h
  have hstart : SameLoop (start c kf node) (start c kf node') :=
    ⟨rfl, rfl, rfl, Or.inl ⟨rfl, hbody⟩⟩
  obtain ⟨hreturned, hloop⟩ := UpdateLoop.passes_related (fun l l' i hl => SameLoop.pass hl i)
    hstart (counter maximumIter)
  exact ⟨hreturned, hloop.kf⟩

/-- A floor under the node as it starts, with one point of it. -/
noncomputable def floorNode : SurfNode ℝ := ⟨[floorPoint], 0⟩

theorem update_forgets_floor :
    (update .real .real (floorConfig true) 3 ⟨StateIkfom.create, 1⟩ floorNode).2 =
        (update .real .real (floorConfig true) 3 ⟨StateIkfom.create, 1⟩
          ⟨[⟨floorPoint.body, [1, 1], true, 1, 1, 1⟩], 1⟩).2 ∧
      (update .real .real (floorConfig true) 3 ⟨StateIkfom.create, 1⟩ floorNode).1.kf =
        (update .real .real (floorConfig true) 3 ⟨StateIkfom.create, 1⟩
          ⟨[⟨floorPoint.body, [1, 1], true, 1, 1, 1⟩], 1⟩).1.kf :=
  update_forgets .real .real (floorConfig true) 3 ⟨StateIkfom.create, 1⟩ rfl

/-! ## A scan of a plane -/

section

variable {e : Eigen ℝ} {cfg : SurfConfig ℝ} {maximumIter : ℤ} {near : List (Fin 3 → ℝ)}
variable {abc : Fin 3 → ℝ} {d : ℝ}

/-- The points lie in the plane as seen from the state. -/
def OnPlane (abc : Fin 3 → ℝ) (d : ℝ) (x : StateIkfom ℝ) (bodies : List (Fin 3 → ℝ)) : Prop :=
  ∀ v ∈ bodies, v ≠ 0 ∧ abc ⬝ᵥ toWorld x v + d = 0

/-- The estimate has not moved, and no point of the scan is lost. -/
structure Settled (near : List (Fin 3 → ℝ)) (x : StateIkfom ℝ) (bodies : List (Fin 3 → ℝ))
    (l : UpdateLoop (StateIkfom.manifold .real) (SurfNode ℝ)) : Prop where
  x : l.kf.x = x
  bodies : l.env.points.map SurfPoint.body = bodies
  ready : ∀ p ∈ l.env.points, Ready near l.share.converge p

theorem Settled.surface {l : UpdateLoop (StateIkfom.manifold .real) (SurfNode ℝ)}
    {x : StateIkfom ℝ} {bodies : List (Fin 3 → ℝ)} (hl : Settled near x bodies l)
    (h : Flat cfg near abc d) (hon : OnPlane abc d x bodies) : ∀ p ∈ l.env.points,
    ShareModel.surface .real cfg l.kf.x l.share.converge p =
      { p with
        pointsNear := near, selected := true, normvec := abc, intensity := 0, resLast := 0 } := by
  intro p hp
  have hbody : p.body ∈ bodies := by
    rw [← hl.bodies]
    exact List.mem_map_of_mem hp
  obtain ⟨hne, hdistance⟩ := hon _ hbody
  refine h.surface (hl.ready p hp) hne ?_
  rw [hl.x]
  exact hdistance

/-- No residual is measured. -/
theorem Settled.residual {l : UpdateLoop (StateIkfom.manifold .real) (SurfNode ℝ)}
    {x : StateIkfom ℝ} {bodies : List (Fin 3 → ℝ)} (hl : Settled near x bodies l)
    (h : Flat cfg near abc d) (hon : OnPlane abc d x bodies)
    (hvalid : (UpdateLoop.answer (updateConfig .real cfg maximumIter) l).2.valid = true) :
    (UpdateLoop.answer (updateConfig .real cfg maximumIter) l).2.h = 0 := by
  refine hShareModel_flat hvalid fun p hp => ?_
  exact congrArg SurfPoint.intensity (hl.surface h hon p hp)

theorem Settled.pass {kf : Esekf (StateIkfom.manifold .real)} (hgrav : kf.x.grav.Regular)
    {l : UpdateLoop (StateIkfom.manifold .real) (SurfNode ℝ)} {bodies : List (Fin 3 → ℝ)}
    (hl : Settled near kf.x bodies l) (h : Flat cfg near abc d) (hon : OnPlane abc d kf.x bodies)
    (i : ℤ) : Settled near kf.x bodies
      (l.pass .real e twelve_le_dof (updateConfig .real cfg maximumIter) kf i).1 := by
  have hpoints : (UpdateLoop.answer (updateConfig .real cfg maximumIter) l).1.points =
      l.env.points.map (ShareModel.surface .real cfg l.kf.x l.share.converge) :=
    hShareModel_points
  refine ⟨?_, ?_, ?_⟩
  · cases hvalid : (UpdateLoop.answer (updateConfig .real cfg maximumIter) l).2.valid with
    | false =>
      rw [UpdateLoop.pass_of_invalid hvalid]
      exact hl.x
    | true => exact UpdateLoop.pass_still hgrav hl.x (hl.residual h hon hvalid) i
  · rw [UpdateLoop.pass_env, hpoints, List.map_map, ← hl.bodies]
    exact List.map_congr_left fun p _ => surface_body
  · rw [UpdateLoop.pass_env, hpoints]
    intro p hp
    obtain ⟨q, hq, rfl⟩ := List.mem_map.mp hp
    rw [hl.surface h hon q hq]
    exact .inr ⟨rfl, rfl⟩

theorem Settled.start {kf : Esekf (StateIkfom.manifold .real)} (node : SurfNode ℝ) :
    Settled near kf.x (node.points.map SurfPoint.body) (start .real kf node) :=
  ⟨rfl, rfl, fun _ _ => .inl rfl⟩

/-- A scan in the plane the map is leaves the estimate where it was, whatever the covariance
and the number of passes. -/
theorem passes_settled {kf : Esekf (StateIkfom.manifold .real)} (hgrav : kf.x.grav.Regular)
    {node : SurfNode ℝ} (h : Flat cfg near abc d)
    (hon : OnPlane abc d kf.x (node.points.map SurfPoint.body)) :
    (∀ p ∈ passesOf .real e cfg maximumIter kf node,
        Settled near kf.x (node.points.map SurfPoint.body) p.1) ∧
      (update .real e cfg maximumIter kf node).1.kf.x = kf.x := by
  have hstep := fun (l : UpdateLoop (StateIkfom.manifold .real) (SurfNode ℝ)) (i : ℤ)
    (hl : Settled near kf.x (node.points.map SurfPoint.body) l) =>
      @Settled.pass e cfg maximumIter near abc d kf hgrav l _ hl h hon i
  constructor
  · exact UpdateLoop.made_invariant _ hstep (Settled.start node) _
  · exact (UpdateLoop.passes_invariant _ hstep (Settled.start node) _).x

end

/-- The update over the floor leaves the node as it starts, in each of its passes. -/
theorem floor_settled (b : Bool) {maximumIter : ℤ} :
    ∀ p ∈ passesOf .real .real (floorConfig b) maximumIter ⟨StateIkfom.create, 1⟩ floorNode,
      Settled ((floorConfig b).nearestSearch 0).1 StateIkfom.create [floorPoint.body] p.1 :=
  (@passes_settled _ _ _ _ _ _ ⟨StateIkfom.create, 1⟩ S2.create_regular floorNode (floor_flat b)
    (List.forall_mem_singleton.mpr floorPoint_on)).1

theorem floor_surface {p : UpdateLoop (StateIkfom.manifold .real) (SurfNode ℝ)}
    (hp : Settled ((floorConfig true).nearestSearch 0).1 StateIkfom.create [floorPoint.body] p) :
    ∀ q ∈ p.env.points,
      (surface .real (floorConfig true) p.kf.x p.share.converge q).selected = true := by
  intro q hq
  rw [hp.surface (floor_flat true) (List.forall_mem_singleton.mpr floorPoint_on) q hq]

/-! ## Which planes are fitted -/

/-- Every selected point has the neighbours a plane is fitted to. -/
def Nearby (node : SurfNode K) : Prop :=
  ∀ p ∈ node.points, p.selected = true → 5 ≤ p.pointsNear.length

theorem looked_nearby {converge : Bool} {node : SurfNode K} (h : converge = true ∨ Nearby node) :
    ∀ p ∈ node.points, (looked cfg s converge p).selected = true →
      5 ≤ (looked cfg s converge p).pointsNear.length := by
  intro p hp hselected
  cases converge with
  | false =>
    rcases h with hconverge | hnearby
    · exact absurd hconverge Bool.false_ne_true
    · exact hnearby p hp hselected
  | true =>
    rw [looked, if_pos rfl, searched] at hselected ⊢
    dsimp only at hselected ⊢
    by_contra hfew
    rw [if_pos (by omega)] at hselected
    exact absurd hselected Bool.false_ne_true

theorem hShareModel_nearby {node : SurfNode K} {share : DynShare K}
    (h : share.converge = true ∨ Nearby node) :
    Nearby (hShareModel c cfg s (node, share)).1 := by
  intro p hp hselected
  rw [hShareModel_points] at hp
  obtain ⟨q, hq, rfl⟩ := List.mem_map.mp hp
  rw [surface, tested_pointsNear]
  rw [surface, tested_selected, Bool.and_eq_true] at hselected
  exact looked_nearby h q hq hselected.1

/-- Whatever flags an update starts with, in each of its passes a plane is fitted only to
points with five neighbours. -/
theorem planes_of_five (kf : Esekf (StateIkfom.manifold c)) (node : SurfNode K) :
    ∀ p ∈ passesOf c e cfg maximumIter kf node, ∀ q ∈ p.1.env.points,
      (looked cfg p.1.kf.x p.1.share.converge q).selected = true →
        5 ≤ (looked cfg p.1.kf.x p.1.share.converge q).pointsNear.length := by
  have hready : ∀ p ∈ passesOf c e cfg maximumIter kf node,
      p.1.share.converge = true ∨ Nearby p.1.env := by
    refine UpdateLoop.made_invariant (fun l => l.share.converge = true ∨ Nearby l.env)
      (fun l i hl => Or.inr ?_) (Or.inl rfl) _
    rw [UpdateLoop.pass_env]
    exact hShareModel_nearby hl
  intro p hp
  exact looked_nearby (hready p hp)

theorem planes_of_five_floor :
    (passesOf .real .real (floorConfig true) 3 ⟨StateIkfom.create, 1⟩ floorNode).Forall fun p =>
      p.1.env.points.Forall fun q =>
        5 ≤ (looked (floorConfig true) p.1.kf.x p.1.share.converge q).pointsNear.length := by
  refine List.forall_iff_forall_mem.mpr fun p hp => List.forall_iff_forall_mem.mpr fun q hq => ?_
  have hlooked : looked (floorConfig true) p.1.kf.x p.1.share.converge q = _ :=
    (floor_flat true).looked ((floor_settled true p hp).ready q hq)
  exact planes_of_five ⟨StateIkfom.create, 1⟩ floorNode p hp q hq
    (congrArg SurfPoint.selected hlooked)

/-! ## When an update ends in a last pass -/

/-- Some point has a plane in each pass of the update. -/
def Supported (c : CMath K) (e : Eigen K) (cfg : SurfConfig K) (maximumIter : ℤ)
    (kf : Esekf (StateIkfom.manifold c)) (node : SurfNode K) : Prop :=
  ∀ p ∈ passesOf c e cfg maximumIter kf node, ∃ q ∈ p.1.env.points,
    (surface c cfg p.1.kf.x p.1.share.converge q).selected = true

theorem allValid_iff (passes : List (UpdateLoop (StateIkfom.manifold c) (SurfNode K) × ℤ)) :
    UpdateLoop.AllValid (updateConfig c cfg maximumIter) passes ↔
      ∀ p ∈ passes, ∃ q ∈ p.1.env.points,
        (surface c cfg p.1.kf.x p.1.share.converge q).selected = true := by
  refine forall₂_congr fun p _ => ?_
  have hnone : (UpdateLoop.answer (updateConfig c cfg maximumIter) p.1).2.valid = false ↔
      ∀ q ∈ p.1.env.points, (surface c cfg p.1.kf.x p.1.share.converge q).selected = false :=
    hShareModel_invalid_iff rfl
  rw [← Bool.not_eq_false, hnone]
  push Not
  simp only [Bool.not_eq_false]

/-- An update ends in a last pass, which alone takes off the covariance what was measured,
exactly when no pass loses all points.  Otherwise the estimate may have moved, and the
covariance is the propagated one carried over to it. -/
theorem update_returns_iff (c : CMath K) (e : Eigen K) (cfg : SurfConfig K) {maximumIter : ℤ}
    (h : 0 ≤ maximumIter) (kf : Esekf (StateIkfom.manifold c)) (node : SurfNode K) :
    ((update c e cfg maximumIter kf node).2 = true ↔ Supported c e cfg maximumIter kf node) ∧
      ((update c e cfg maximumIter kf node).2 = false →
        UpdateLoop.Unfinished c e twelve_le_dof (updateConfig c cfg maximumIter) kf kf
          (update c e cfg maximumIter kf node).1.kf) := by
  constructor
  · exact (UpdateLoop.passes_returned_iff hShareModel_stuck (UpdateLoop.counter_last h)).trans
      (allValid_iff _)
  · intro hnone
    exact UpdateLoop.passes_unfinished hnone

theorem update_returns_iff_floor :
    ((update .real .real (floorConfig true) 3 ⟨StateIkfom.create, 1⟩ floorNode).2 = true ↔
        Supported .real .real (floorConfig true) 3 ⟨StateIkfom.create, 1⟩ floorNode) ∧
      ((update .real .real (floorConfig true) 3 ⟨StateIkfom.create, 1⟩ floorNode).2 = false →
        UpdateLoop.Unfinished .real .real twelve_le_dof (updateConfig .real (floorConfig true) 3)
          ⟨StateIkfom.create, 1⟩ ⟨StateIkfom.create, 1⟩
          (update .real .real (floorConfig true) 3 ⟨StateIkfom.create, 1⟩ floorNode).1.kf) :=
  update_returns_iff .real .real (floorConfig true) (by norm_num) ⟨StateIkfom.create, 1⟩ floorNode

/-- An update whose passes all keep a point searches the map at most twice, whatever the
number of passes. -/
theorem searches_le_two (c : CMath K) (e : Eigen K) (cfg : SurfConfig K) {maximumIter : ℤ}
    (h : 0 ≤ maximumIter) {kf : Esekf (StateIkfom.manifold c)} {node : SurfNode K}
    (hall : Supported c e cfg maximumIter kf node) :
    ((passesOf c e cfg maximumIter kf node).filter fun p => p.1.share.converge).length ≤ 2 := by
  have hvalid : UpdateLoop.AllValid (updateConfig c cfg maximumIter) _ := (allValid_iff _).mpr hall
  rw [passesOf, UpdateLoop.counter_eq h] at hvalid ⊢
  exact UpdateLoop.searches_le (l := start c kf node) (Nat.zero_le 1) hvalid

theorem searches_le_two_floor :
    ((passesOf .real .real (floorConfig true) 3 ⟨StateIkfom.create, 1⟩ floorNode).filter
      fun p => p.1.share.converge).length ≤ 2 := by
  refine searches_le_two .real .real (floorConfig true) (by norm_num) fun p hp => ?_
  have hsettled := floor_settled true p hp
  obtain ⟨q, hq⟩ : ∃ q, q ∈ p.1.env.points := by
    refine List.exists_mem_of_ne_nil _ fun hnone => ?_
    have hbodies := hsettled.bodies
    rw [hnone] at hbodies
    exact absurd hbodies (List.cons_ne_nil _ _).symm
  exact ⟨q, hq, floor_surface hsettled q hq⟩

end ShareModel

end RobotNav
