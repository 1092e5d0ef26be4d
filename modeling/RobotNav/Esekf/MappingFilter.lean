/-
The mapping node with its filter.

The calls of the node are made on `kf`, an `esekf` over `state_ikfom`: the setters of
`IMU_init`, the predictions of `UndistortPcl` and the update with `h_share_model`.  What
holds of the filter then holds over any order of the callbacks and the timer.
-/
import RobotNav.Esekf.Extrinsics
import RobotNav.LaserMapping.Provenance

namespace RobotNav

open Matrix
open LaserMapping (V3 Point Stamp ImuInput NoiseCov Filter Env FilterCall NodeState NodeOut
  ImuProcess Event mappingNode runCalls weights filterCalls)

variable {K : Type} [Field K] [LinearOrder K] [FloorRing K] {M μ : Type}

/-- The parameters of the node that reach the filter. -/
structure FilterParams (K M : Type) where
  lidarTWrtImu : Fin 3 → K
  /-- `Lidar_R_wrt_IMU`, as the quaternion Eigen makes of it. -/
  lidarRWrtImu : SO3 K
  /-- The search in a map, with the rest of what `h_share_model` reads. -/
  surf : M → SurfConfig K
  maximumIter : ℤ

namespace StateIkfom

variable (c : CMath K) (e : Eigen K) (params : FilterParams K M)

/-- `init_P`. -/
def initP : Matrix (Fin 23) (Fin 23) K :=
  diagonal <| offsetRIdx.set (fun _ => ratio 1 100000) <|
    offsetTIdx.set (fun _ => ratio 1 100000) <| bgIdx.set (fun _ => ratio 1 10000) <|
      baIdx.set (fun _ => ratio 1 1000) <| gravIdx.set (fun _ => ratio 1 100000) fun _ => lit 1

/-- `Q` from its diagonal. -/
def noiseCov (Q : NoiseCov K) : Matrix (Fin 12) (Fin 12) K :=
  diagonal <| ngIdx.set Q.gyr.axis <| naIdx.set Q.acc.axis <| nbgIdx.set Q.biasGyr.axis <|
    nbaIdx.set Q.biasAcc.axis fun _ => lit 0

/-- The end of `IMU_init`. -/
def imuInit (kf : Esekf (manifold c)) (meanAcc meanGyr : V3 K) : Esekf (manifold c) :=
  let initState : StateIkfom K := kf.x
  { x := { initState with
      grav := S2.ofVec c fun i => -meanAcc.axis i / c.norm meanAcc.axis * LaserMapping.gravity
      bg := meanGyr.axis
      offsetTLI := params.lidarTWrtImu
      offsetRLI := params.lidarRWrtImu }
    P := initP }

def ofAxes (v : Fin 3 → K) : V3 K := ⟨v 0, v 1, v 2⟩

/-- A point of the down-sampled scan.  What else the node keeps for it is left from before. -/
def surfPoint (p : Point K) : SurfPoint K :=
  ⟨![p.x, p.y, p.z], [], true, fun _ => lit 0, lit 0, lit 0⟩

/-- `kf_state` as `ImuProcess` calls it. -/
def kfState (compensate : List (LaserMapping.Pose6D K (Esekf (manifold c))) → Esekf (manifold c) →
    List (Point K) → List (Point K)) : Filter K (Esekf (manifold c)) where
  norm := fun v => c.norm v.axis
  initialise := imuInit c params
  predict := fun kf dt Q input => kf.predict c (processModel c) dt (noiseCov Q)
    ⟨input.acc.axis, input.gyro.axis⟩
  angvel := fun kf v =>
    let imuState : StateIkfom K := kf.x
    ofAxes (v.axis - imuState.bg)
  accWorld := fun kf v =>
    let imuState : StateIkfom K := kf.x
    ofAxes (imuState.rot.rotate (v.axis - imuState.ba) + imuState.grav.vec)
  compensate := compensate

/-- The node with this filter, the rest as it was. -/
def filterEnv (env : Env K (Esekf (manifold c)) M) : Env K (Esekf (manifold c)) M :=
  { env with
    filter := kfState c params env.filter.compensate
    update := fun kf map down => (ShareModel.update c e (params.surf map) params.maximumIter kf
      ⟨down.map surfPoint, lit 0⟩).1.kf }

/-- `p_imu` with the covariances the node sets. -/
def nodeImu (covGyrScale covAccScale covBiasGyr covBiasAcc accSLast : V3 K)
    (lastLidarEndTime : K) : ImuProcess K :=
  ((ImuProcess.create covAccScale covGyrScale accSLast lastLidarEndTime).setGyrBiasCov
    covBiasGyr).setAccBiasCov covBiasAcc

/-- `LaserMappingNode`. -/
def laserMappingNode (cfg : LaserMapping.Config K μ) (env : Env K (Esekf (manifold c)) M)
    (imu : ImuProcess K) (kf : Esekf (manifold c)) (map : M) :
    Machine (NodeState K (Esekf (manifold c)) M) (Event K μ) (NodeOut K) :=
  mappingNode cfg (filterEnv c e params env) imu kf map

/-! ## Lengths -/

section

variable {e : Eigen ℝ} {params : FilterParams ℝ M} {env : Env ℝ (Esekf (manifold .real)) M}
variable {kf : Esekf (manifold .real)}

theorem ofVec_length {v : Fin 3 → ℝ} (h : v ≠ 0) :
    (S2.ofVec .real v).vec ⬝ᵥ (S2.ofVec .real v).vec = S2.length * S2.length := by
  have hsquare : Real.sqrt (v ⬝ᵥ v) * Real.sqrt (v ⬝ᵥ v) = v ⬝ᵥ v := angleOf_mul_self v
  have hangle : Real.sqrt (v ⬝ᵥ v) ≠ 0 := fun hzero => h (eq_zero_of_angleOf hzero)
  have hpos : lit 0 < squaredNorm v := by
    rw [lit_eq, Int.cast_zero, squaredNorm, ← hsquare]
    exact mul_self_pos.mpr hangle
  rw [S2.ofVec]
  dsimp only
  rw [if_pos hpos]
  show ((S2.length : ℝ) • (Real.sqrt (v ⬝ᵥ v))⁻¹ • v) ⬝ᵥ
    (S2.length • (Real.sqrt (v ⬝ᵥ v))⁻¹ • v) = _
  simp only [smul_dotProduct, dotProduct_smul, smul_eq_mul]
  generalize Real.sqrt (v ⬝ᵥ v) = r at hsquare hangle
  rw [← hsquare]
  field_simp

theorem create_length :
    (S2.create : S2 ℝ).vec ⬝ᵥ (S2.create : S2 ℝ).vec = S2.length * S2.length := by
  rw [S2.create]
  simp [dotProduct, Fin.sum_univ_three, lit_eq]

/-- The mean of the accelerations gives a direction. -/
theorem gravity_ne_zero {meanAcc : V3 ℝ} (h : meanAcc.axis ≠ 0) :
    (fun i => -meanAcc.axis i / CMath.real.norm meanAcc.axis * LaserMapping.gravity : Fin 3 → ℝ) ≠
      0 := by
  have hnorm : CMath.real.norm meanAcc.axis ≠ 0 := fun hzero => h (eq_zero_of_angleOf hzero)
  have hgravity : (LaserMapping.gravity : ℝ) ≠ 0 := by
    rw [LaserMapping.gravity, ratio_eq]
    norm_num
  intro hzero
  refine h (funext fun i => ?_)
  have hi := congrFun hzero i
  simp only [Pi.zero_apply, mul_eq_zero, div_eq_zero_iff, neg_eq_zero, hnorm, hgravity,
    or_false] at hi
  exact hi

theorem shortened_same {r a b : ℝ} (hr : 0 ≤ r) (hr1 : r ≤ 1) (ha : 0 ≤ a) (h : b = a) (n : ℕ) :
    r ^ n * a ≤ b ∧ b ≤ a := by
  rw [h]
  exact ⟨mul_le_of_le_one_left ha (pow_le_one₀ hr hr1), le_refl a⟩

/-- `IMU_init` leaves the lengths of a new state, but for the rotation, which it keeps. -/
theorem shortened_imuInit {n : ℕ} (hR : params.lidarRWrtImu.normSq = 1) {meanAcc : V3 ℝ}
    (hacc : meanAcc.axis ≠ 0) (meanGyr : V3 ℝ) (h : Shortened n create kf.x) :
    Shortened n create (imuInit .real params kf meanAcc meanGyr).x where
  rot := h.rot
  offsetRLI := shortened_same (by norm_num) (by norm_num) (normSq_nonneg _)
    (hR.trans SO3.identity_normSq.symm) n
  grav := shortened_same (by norm_num) (by norm_num) (dotProduct_self_nonneg_real _)
    ((ofVec_length (gravity_ne_zero hacc)).trans create_length.symm) n

/-- The calls after the initialisation, as calls to the filter. -/
noncomputable def predictStep (dt : ℝ) (Q : NoiseCov ℝ) (input : ImuInput ℝ) : FilterStep Unit :=
  .predict ⟨dt, noiseCov Q, ⟨input.acc.axis, input.gyro.axis⟩⟩

noncomputable def updateStep (params : FilterParams ℝ M) (map : M) (down : List (Point ℝ)) :
    FilterStep (SurfNode ℝ) :=
  .update (ShareModel.updateConfig .real (params.surf map) params.maximumIter)
    ⟨down.map surfPoint, lit 0⟩

theorem shortened_calls (start kf : Esekf (manifold .real)) (hR : params.lidarRWrtImu.normSq = 1)
    {calls : List (FilterCall ℝ M)}
    (hacc : ∀ meanAcc meanGyr, .initialise meanAcc meanGyr ∈ calls → meanAcc.axis ≠ 0) {n : ℕ}
    (h : Shortened n create kf.x) :
    Shortened (n + weights (counter params.maximumIter).length calls) create
      ((filterCalls (filterEnv .real e params env) start).run kf calls).x := by
  induction calls generalizing kf n with
  | nil => exact h
  | cons call rest ih =>
    have hrest := fun meanAcc meanGyr hmem => hacc meanAcc meanGyr (List.mem_cons_of_mem call hmem)
    show Shortened (n + (_ + weights _ rest)) create _
    rw [← Nat.add_assoc]
    refine ih _ hrest ?_
    cases call with
    | initialise meanAcc meanGyr =>
      exact shortened_imuInit hR (hacc meanAcc meanGyr List.mem_cons_self) meanGyr h
    | predict dt Q input =>
      exact h.trans (shortened_apply e kf (predictStep dt Q input))
    | update map down =>
      exact h.trans (shortened_apply e kf (updateStep params map down))

/-- A mean of vectors to one side of a plane is to that side. -/
theorem keptByMean_side (d : Fin 3 → ℝ) :
    LaserMapping.KeptByMean fun a : V3 ℝ => 0 < a.axis ⬝ᵥ d := by
  intro n mean cur hn hmean hcur
  have hpos : (0 : ℝ) < n := by exact_mod_cast hn
  have hle : (n : ℝ)⁻¹ ≤ 1 := inv_le_one_of_one_le₀ (by exact_mod_cast hn)
  have haxis : (mean.add ((cur.sub mean).div (lit n))).axis =
      mean.axis + (n : ℝ)⁻¹ • (cur.axis - mean.axis) := by
    funext i
    rw [LaserMapping.axis_runningMean, div_eq_inv_mul]
    rfl
  rw [haxis, add_dotProduct, smul_dotProduct, sub_dotProduct, smul_eq_mul]
  have hsplit : mean.axis ⬝ᵥ d + (n : ℝ)⁻¹ * (cur.axis ⬝ᵥ d - mean.axis ⬝ᵥ d) =
      (1 - (n : ℝ)⁻¹) * (mean.axis ⬝ᵥ d) + (n : ℝ)⁻¹ * (cur.axis ⬝ᵥ d) := by ring
  rw [hsplit]
  exact add_pos_of_nonneg_of_pos (mul_nonneg (sub_nonneg.mpr hle) hmean.le)
    (mul_pos (inv_pos.mpr hpos) hcur)

/-- Such a mean is not zero. -/
theorem meanAcc_ne_zero (cfg : LaserMapping.Config ℝ μ) (env : Env ℝ (Esekf (manifold .real)) M)
    {imu : ImuProcess ℝ} (hfirst : imu.bFirstFrame = true) (hcount : imu.initIterNum = 1)
    (kf : Esekf (manifold .real)) (map : M) {d : Fin 3 → ℝ} {es : List (Event ℝ μ)}
    (hes : ∀ e ∈ es, e.Measures fun a => 0 < a.axis ⬝ᵥ d) {meanAcc : V3 ℝ} (meanGyr : V3 ℝ)
    (hmem : .initialise meanAcc meanGyr ∈ runCalls cfg env imu kf map es) :
    meanAcc.axis ≠ 0 := by
  intro hzero
  have hside := LaserMapping.runCalls_mean cfg env hfirst hcount kf map (keptByMean_side d) hes
    meanAcc meanGyr hmem
  rw [hzero, zero_dotProduct] at hside
  exact lt_irrefl 0 hside

/-- Five points of a wall, and what the least squares give for them. -/
noncomputable def wallConfig : SurfConfig ℝ where
  nearestSearch := fun _ =>
    ([![0, 1, 0], ![1, 1, 0], ![0, 1, 1], ![1, 1, 1], ![lit 2, 1, 0]], [0, 1, 1, lit 2, lit 4])
  solve := fun _ _ => ![0, -1, 0]
  extrinsicEstEn := false

/-- The parameters of a node before a wall. -/
noncomputable def wallParams : FilterParams ℝ (List (Point ℝ)) where
  lidarTWrtImu := ![0, 0, 1]
  lidarRWrtImu := .identity
  surf := fun _ => wallConfig
  maximumIter := 3

/-- A node whose map is the points of its scans. -/
noncomputable def wallEnv : Env ℝ (Esekf (manifold .real)) (List (Point ℝ)) where
  filter := kfState .real wallParams fun _ _ points => points
  update := fun kf _ _ => kf
  downsample := id
  rootIsNull := List.isEmpty
  fovSegment := fun map _ => map
  buildMap := fun _ _ points => points
  incremental := fun map _ _ _ points => map ++ points

def restImu : ImuProcess K :=
  nodeImu ⟨ratio 1 10, ratio 1 10, ratio 1 10⟩ ⟨ratio 1 10, ratio 1 10, ratio 1 10⟩
    ⟨ratio 1 10000, ratio 1 10000, ratio 1 10000⟩ ⟨ratio 1 10000, ratio 1 10000, ratio 1 10000⟩
    ⟨lit 0, lit 0, lit 0⟩ (lit 0)

/-- A message of the IMU at rest, with the milliseconds of its stamp. -/
def restMsg (ms : ℕ) : Event K Unit :=
  .imu ⟨Stamp.ofNanoseconds (ms * 1000000), ⟨lit 0, lit 0, lit 0⟩, ⟨lit 0, lit 0, lit 1⟩⟩

def wallScan (sec : ℤ) : Event K Unit := .standardPcl ⟨⟨sec, 0⟩, ()⟩

/-- Four scans of the wall. -/
def restEvents : List (Event K Unit) :=
  [restMsg 0, wallScan 0, .sync] ++ ((List.range 10).map fun i => restMsg (100 * i + 100)) ++
    [wallScan 1, .sync, restMsg 1500, restMsg 2000, wallScan 2, .sync, restMsg 2500, restMsg 3000,
      wallScan 3, .sync]

/-- Each scan is of six points. -/
def wallPoints : LaserMapping.Config K Unit :=
  ⟨fun _ => (List.range 6).map fun i => ⟨lit i, lit 1, lit 0, lit 0⟩, false, lit 0⟩

/-- The second scan ends the initialisation, the third is predicted to and becomes the map, and
with the fourth the filter is updated. -/
example : (runCalls wallPoints LaserMapping.stillEnv restImu () [] restEvents).map
    (FilterCall.weight 100) = [0, 1, 1, 1, 1, 1, 1, 100] := by decide +kernel

theorem restEvents_forall {R : Event K Unit → Prop} (himu : ∀ ms, R (restMsg ms))
    (hscan : ∀ sec, R (wallScan sec)) (hsync : R .sync) : ∀ e ∈ restEvents, R e := by
  have hsamples : ∀ e ∈ (List.range 10).map fun i => restMsg (100 * i + 100), R e := by
    intro e he
    obtain ⟨i, -, rfl⟩ := List.mem_map.mp he
    exact himu _
  rw [restEvents, List.forall_mem_append, List.forall_mem_append]
  simp only [List.forall_mem_cons]
  exact ⟨⟨⟨himu 0, hscan 0, hsync, fun _ h => absurd h List.not_mem_nil⟩, hsamples⟩, hscan 1, hsync,
    himu 1500, himu 2000, hscan 2, hsync, himu 2500, himu 3000, hscan 3, hsync,
    fun _ h => absurd h List.not_mem_nil⟩

/-- At rest every acceleration is measured upwards. -/
theorem restEvents_upwards : ∀ e ∈ (restEvents : List (Event ℝ Unit)),
    e.Measures fun a => 0 < a.axis ⬝ᵥ ![0, 0, 1] := by
  refine restEvents_forall (fun _ => ?_) (fun _ => trivial) trivial
  show (0 : ℝ) < _
  rw [dotProduct, Fin.sum_univ_three]
  show (0 : ℝ) < lit 0 * 0 + lit 0 * 0 + lit 1 * 1
  rw [lit_eq, lit_eq]
  norm_num

theorem initP_posDef : (initP : Matrix (Fin 23) (Fin 23) ℝ).PosDef := by
  have hratio : ∀ q : ℤ, 0 < q → (0 : ℝ) < ratio 1 q := by
    intro q hq
    rw [ratio_eq, Int.cast_one]
    exact one_div_pos.mpr (Int.cast_pos.mpr hq)
  refine PosDef.diagonal fun i => ?_
  refine Block.forall_set (fun _ => hratio _ (by norm_num)) (fun i => ?_) i
  refine Block.forall_set (fun _ => hratio _ (by norm_num)) (fun i => ?_) i
  refine Block.forall_set (fun _ => hratio _ (by norm_num)) (fun i => ?_) i
  refine Block.forall_set (fun _ => hratio _ (by norm_num)) (fun i => ?_) i
  refine Block.forall_set (fun _ => hratio _ (by norm_num)) (fun i => ?_) i
  rw [lit_eq, Int.cast_one]
  exact one_pos

/-- A call after the initialisation that keeps the covariance positive definite. -/
def RegularCall (e : Eigen ℝ) (params : FilterParams ℝ M) (kf : Esekf (manifold .real)) :
    FilterCall ℝ M → Prop
  | .initialise _ _ => True
  | .predict dt Q input => (predictStep dt Q input).Regular e kf
  | .update map down => (updateStep params map down).Regular e kf

theorem aside_call (he : e.Inverts) (hest : ∀ map, (params.surf map).extrinsicEstEn = false)
    {x : StateIkfom ℝ} {call : FilterCall ℝ M} (hkf : kf.P.PosDef ∧ Aside x kf)
    (hcall : RegularCall e params kf call ∧ ¬ call.IsInitialise) :
    (call.apply (filterEnv .real e params env) kf).P.PosDef ∧
      Aside x (call.apply (filterEnv .real e params env) kf) := by
  cases call with
  | initialise meanAcc meanGyr => exact absurd trivial hcall.2
  | predict dt Q input =>
    have hregular : (predictStep dt Q input).Regular e kf := hcall.1
    exact ⟨apply_posDef he hkf.1 hregular, hkf.2.apply he hkf.1 hregular trivial⟩
  | update map down =>
    have hregular : (updateStep params map down).Regular e kf := hcall.1
    exact ⟨apply_posDef he hkf.1 hregular,
      hkf.2.apply he hkf.1 hregular (hShareModel_blind (hest map) params.maximumIter)⟩

/-! ## At rest before a wall -/

/-- What an IMU at rest measures, with its third axis along gravity. -/
structure AtRest (a w : V3 ℝ) : Prop where
  acc : a.axis 0 = 0 ∧ a.axis 1 = 0
  gyro : w.axis = 0

theorem axis_average (a b : V3 ℝ) (i : Fin 3) :
    (LaserMapping.average a b).axis i = (a.axis i + b.axis i) * ratio 1 2 := by
  fin_cases i <;> rfl

theorem axis_scaled (a : V3 ℝ) (g r : ℝ) (i : Fin 3) :
    ((a.scale g).div r).axis i = a.axis i * g / r := by
  fin_cases i <;> rfl

theorem atRest_vertical (z : ℝ) : AtRest ⟨lit 0, lit 0, z⟩ ⟨lit 0, lit 0, lit 0⟩ := by
  refine ⟨⟨Int.cast_zero, Int.cast_zero⟩, funext fun i => ?_⟩
  fin_cases i <;> exact Int.cast_zero

theorem atRest_kept : LaserMapping.KeptByNode AtRest where
  none := atRest_vertical (lit 0)
  mean := by
    intro n a w a' w' h h'
    refine ⟨⟨?_, ?_⟩, funext fun i => ?_⟩
    · rw [LaserMapping.axis_runningMean, h.acc.1, h'.acc.1, sub_zero, zero_div, add_zero]
    · rw [LaserMapping.axis_runningMean, h.acc.2, h'.acc.2, sub_zero, zero_div, add_zero]
    · rw [LaserMapping.axis_runningMean, h.gyro, h'.gyro, Pi.zero_apply, sub_zero, zero_div,
        add_zero]
  pair := by
    intro r a w a' w' h h'
    refine ⟨⟨?_, ?_⟩, funext fun i => ?_⟩
    · rw [axis_scaled, axis_average, h.acc.1, h'.acc.1, add_zero, zero_mul, zero_mul, zero_div]
    · rw [axis_scaled, axis_average, h.acc.2, h'.acc.2, add_zero, zero_mul, zero_mul, zero_div]
    · rw [axis_average, h.gyro, h'.gyro, Pi.zero_apply, add_zero, zero_mul]

/-- Aligned with the wall, at its distance, and not about to turn or to move towards it. -/
structure Upright (x : StateIkfom ℝ) : Prop where
  rot : x.rot = .identity
  offsetRLI : x.offsetRLI = .identity
  pos : x.pos 1 = 0
  offsetTLI : x.offsetTLI 1 = 0
  vel : x.vel 1 = 0
  down : x.grav.vec 1 = 0
  bg : x.bg = 0
  ba : x.ba = 0
  regular : x.grav.Regular

theorem upright_create : Upright (create : StateIkfom ℝ) := by
  have hzero : (fun _ => lit 0 : Fin 3 → ℝ) = 0 := funext fun _ => Int.cast_zero
  exact ⟨rfl, rfl, congrFun hzero 1, congrFun hzero 1, congrFun hzero 1, Int.cast_zero, hzero,
    hzero, S2.create_regular⟩

/-- Of an acceleration at right angles to two axes gravity is too, and has its length. -/
theorem Upright.imuInit (hkf : Upright kf.x) (hR : params.lidarRWrtImu = .identity)
    (hT : params.lidarTWrtImu 1 = 0) {meanAcc meanGyr : V3 ℝ} (hrest : AtRest meanAcc meanGyr)
    (hacc : meanAcc.axis ≠ 0) : Upright (imuInit .real params kf meanAcc meanGyr).x := by
  have hlength := ofVec_length (gravity_ne_zero hacc)
  have hside : ∀ i, meanAcc.axis i = 0 → (S2.ofVec .real fun i =>
      -meanAcc.axis i / CMath.real.norm meanAcc.axis * LaserMapping.gravity).vec i = 0 := by
    intro i hi
    have hnone : -meanAcc.axis i / CMath.real.norm meanAcc.axis * LaserMapping.gravity = 0 := by
      rw [hi, neg_zero, zero_div, zero_mul]
    rw [S2.ofVec]
    dsimp only
    split_ifs
    · rw [Pi.smul_apply, Pi.smul_apply, hnone, smul_zero, smul_zero]
    · rw [Pi.smul_apply, hnone, smul_zero]
  refine ⟨hkf.rot, hR, hkf.pos, hT, hkf.vel, hside 1 hrest.acc.2, hrest.gyro, hkf.ba, hlength, ?_⟩
  show MTK.tolerance < (S2.ofVec .real _).vec 0 + S2.length
  rw [hside 0 hrest.acc.1, zero_add, MTK.tolerance_eq, S2.length_eq]
  norm_num

theorem Upright.moved {x : StateIkfom ℝ} (hx : Upright x) {a w : V3 ℝ} (hrest : AtRest a w)
    (dt : ℝ) : Upright (x.moved ⟨a.axis, w.axis⟩ dt) := by
  refine ⟨?_, ?_, ?_, ?_, ?_, ?_, ?_, ?_, ?_⟩
  · show x.rot.oplus .real (rotDim.get (x.getF ⟨a.axis, w.axis⟩)) dt = .identity
    rw [getF_rot, hrest.gyro, hx.bg, sub_zero, SO3.oplus_zero, hx.rot]
  · rw [moved_offsetRLI, hx.offsetRLI]
  · show x.pos 1 + dt * posDim.get (x.getF ⟨a.axis, w.axis⟩) 1 = 0
    rw [getF_pos, hx.pos, hx.vel, mul_zero, add_zero]
  · rw [moved_offsetTLI, hx.offsetTLI]
  · have hacc : velDim.get (x.getF ⟨a.axis, w.axis⟩) 1 = a.axis 1 + x.grav.vec 1 := by
      rw [getF_vel, hx.rot, SO3.rotate_identity, hx.ba, sub_zero]
      rfl
    show x.vel 1 + dt * velDim.get (x.getF ⟨a.axis, w.axis⟩) 1 = 0
    rw [hacc, hrest.acc.2, hx.down, hx.vel, add_zero, mul_zero, add_zero]
  · rw [moved_grav, hx.down]
  · rw [moved_bg, hx.bg]
  · rw [moved_ba, hx.ba]
  · rw [moved_grav]
    exact hx.regular

/-- A scan of the wall lies in it. -/
theorem Upright.onPlane {x : StateIkfom ℝ} (hx : Upright x) {down : List (Point ℝ)}
    (hdown : ∀ p ∈ down, p.y = 1) :
    ShareModel.OnPlane ![0, -1, 0] 1 x ((down.map surfPoint).map SurfPoint.body) := by
  intro v hv
  rw [List.map_map] at hv
  obtain ⟨p, hp, rfl⟩ := List.mem_map.mp hv
  have hside : (surfPoint p).body 1 = 1 := hdown p hp
  constructor
  · intro hzero
    have hone : (1 : ℝ) = 0 := hside.symm.trans (congrFun hzero 1)
    exact one_ne_zero hone
  · show ![0, -1, 0] ⬝ᵥ ShareModel.toWorld x (surfPoint p).body + 1 = 0
    have hworld : ShareModel.toWorld x (surfPoint p).body 1 = 1 := by
      rw [ShareModel.toWorld, hx.rot, hx.offsetRLI, SO3.rotate_identity, SO3.rotate_identity,
        Pi.add_apply, Pi.add_apply, hside, hx.offsetTLI, hx.pos, add_zero, add_zero]
    rw [dotProduct, Fin.sum_univ_three, hworld]
    simp

/-- A call to the filter of a node at rest before a wall. -/
def Restful (call : FilterCall ℝ M) : Prop :=
  call.Sourced AtRest (fun Q => (noiseCov Q).PosSemidef) (fun p => p.y = 1) ∧
    ∀ meanAcc meanGyr, call = .initialise meanAcc meanGyr → meanAcc.axis ≠ 0

/-- A pass that measures no residual turns nothing. -/
theorem steady_settled {cfg : SurfConfig ℝ} {near : List (Fin 3 → ℝ)} {maximumIter : ℤ}
    {bodies : List (Fin 3 → ℝ)} {l : UpdateLoop (manifold .real) (SurfNode ℝ)} (i : ℤ)
    (hgrav : kf.x.grav.Regular) (hflat : ShareModel.Flat cfg near ![0, -1, 0] 1)
    (hon : ShareModel.OnPlane ![0, -1, 0] 1 kf.x bodies)
    (hl : ShareModel.Settled near kf.x bodies l)
    (hvalid : (UpdateLoop.answer (ShareModel.updateConfig .real cfg maximumIter) l).2.valid = true) :
    Steady e (ShareModel.updateConfig .real cfg maximumIter) kf l i := by
  have hx : (l.kf.x : StateIkfom ℝ) = kf.x := hl.x
  have hdx := UpdateLoop.stepped_dx_still (e := e) hgrav hl.x (hl.residual hflat hon hvalid)
  refine steady_of_blank e hgrav ⟨?_, ?_, ?_⟩ fun j _ => congrFun hdx j
  · rw [hx]
  · rw [hx]
  · rw [hx]

/-- At rest before the wall the calls are regular, and the estimate stays upright. -/
theorem Upright.call (hR : params.lidarRWrtImu = .identity) (hT : params.lidarTWrtImu 1 = 0)
    (hwall : ∀ map, ∃ near, ShareModel.Flat (params.surf map) near ![0, -1, 0] 1)
    (hkf : Upright kf.x) {call : FilterCall ℝ M} (hcall : Restful call) :
    RegularCall e params kf call ∧
      Upright (call.apply (filterEnv .real e params env) kf).x := by
  obtain ⟨hsourced, hacc⟩ := hcall
  cases call with
  | initialise meanAcc meanGyr =>
    exact ⟨trivial, hkf.imuInit hR hT hsourced (hacc meanAcc meanGyr rfl)⟩
  | predict dt Q input =>
    refine ⟨?_, hkf.moved hsourced.2 dt⟩
    show (predictStep dt Q input).Regular e kf
    exact regular_predict hkf.regular hsourced.1
  | update map down =>
    obtain ⟨near, hflat⟩ := hwall map
    have hon := hkf.onPlane hsourced
    obtain ⟨hpasses, hstay⟩ := @ShareModel.passes_settled e _ params.maximumIter _ _ _ kf
      hkf.regular ⟨down.map surfPoint, lit 0⟩ hflat hon
    constructor
    · have hcov : (0 : ℝ) < ratio 1 1000 := by
        rw [ratio_eq]
        norm_num
      exact ⟨hcov, fun p hp hvalid =>
        steady_settled p.2 hkf.regular hflat hon (hpasses p hp) hvalid⟩
    · have hsame : ((FilterCall.update map down : FilterCall ℝ M).apply
          (filterEnv .real e params env) kf).x = kf.x := hstay
      rw [hsame]
      exact hkf

/-- Over any order of the callbacks and the timer a node at rest before a wall makes only
regular calls. -/
theorem runCalls_regular (cfg : LaserMapping.Config ℝ μ) (env : Env ℝ (Esekf (manifold .real)) M)
    (hR : params.lidarRWrtImu = .identity) (hT : params.lidarTWrtImu 1 = 0)
    (hwall : ∀ map, ∃ near, ShareModel.Flat (params.surf map) near ![0, -1, 0] 1)
    (hcompensate : LaserMapping.KeptByFilter env.filter fun p => p.y = 1)
    (hdown : ∀ points, (∀ p ∈ points, p.y = 1) → ∀ p ∈ env.downsample points, p.y = 1)
    {imu : ImuProcess ℝ} (hfirst : imu.bFirstFrame = true) (hcount : imu.initIterNum = 1)
    (himu : imu.Sourced AtRest fun Q => (noiseCov Q).PosSemidef) (hkf : Upright kf.x) (map : M)
    {es : List (Event ℝ μ)} (hrest : ∀ e ∈ es, e.Sourced cfg AtRest fun p => p.y = 1)
    {d : Fin 3 → ℝ} (hes : ∀ e ∈ es, e.Measures fun a => 0 < a.axis ⬝ᵥ d) :
    (filterCalls (filterEnv .real e params env) kf).Along (RegularCall e params) kf
      (runCalls cfg (filterEnv .real e params env) imu kf map es) := by
  have hsourced := LaserMapping.runCalls_sourced cfg (filterEnv .real e params env) atRest_kept
    hcompensate hdown himu kf map hrest
  have hrestful : ∀ call ∈ runCalls cfg (filterEnv .real e params env) imu kf map es,
      Restful call := by
    intro call hmem
    refine ⟨hsourced call hmem, ?_⟩
    rintro meanAcc meanGyr rfl
    exact meanAcc_ne_zero cfg _ hfirst hcount kf map hes meanGyr hmem
  have hnext : ∀ (kf' : Esekf (manifold .real)) (call : FilterCall ℝ M), Upright kf'.x →
      Restful call → Upright ((filterCalls (filterEnv .real e params env) kf).next kf' call).x :=
    fun kf' call hs hcall => (hs.call hR hT hwall hcall).2
  have hregular : ∀ (kf' : Esekf (manifold .real)) (call : FilterCall ℝ M), Upright kf'.x →
      Restful call → RegularCall e params kf' call :=
    fun kf' call hs hcall => (@Upright.call M e params env kf' hR hT hwall hs call hcall).1
  exact Machine.along_of_invariant hnext hregular hkf (Machine.along_of_mem hrestful)

/-! ## Kept from the initialisation on -/

/-- With `extrinsic_est_en` off the extrinsics are, from the first call of `IMU_init` on, exactly
those of the parameters, whatever the node receives. -/
theorem mapping_extrinsics (cfg : LaserMapping.Config ℝ μ) (env : Env ℝ (Esekf (manifold .real)) M)
    (he : e.Inverts) {imu : ImuProcess ℝ} (hneed : imu.imuNeedInit = true)
    (kf : Esekf (manifold .real)) (map : M)
    (hest : ∀ map, (params.surf map).extrinsicEstEn = false) {es : List (Event ℝ μ)}
    (hregular : (filterCalls (filterEnv .real e params env) kf).Along (RegularCall e params) kf
      (runCalls cfg (filterEnv .real e params env) imu kf map es)) :
    runCalls cfg (filterEnv .real e params env) imu kf map es = [] ∨
      ((laserMappingNode .real e params cfg env imu kf map).run
          (NodeState.init imu kf map) es).kf.x.offsetRLI = params.lidarRWrtImu ∧
        ((laserMappingNode .real e params cfg env imu kf map).run
          (NodeState.init imu kf map) es).kf.x.offsetTLI = params.lidarTWrtImu := by
  have hdrives := (LaserMapping.mappingNode_drives cfg (filterEnv .real e params env) imu kf
    map).run (NodeState.init imu kf map) es
  obtain ⟨before, after, hcalls, hbefore, hafter, hnone, hsome⟩ :=
    (LaserMapping.mappingNode_startsUp cfg (filterEnv .real e params env) imu kf map).gathered
      (s := NodeState.init imu kf map) (fun _ => rfl) es
  have hcut : runCalls cfg (filterEnv .real e params env) imu kf map es = before ++ after := hcalls
  rcases List.eq_nil_or_concat before with rfl | ⟨earlier, last, rfl⟩
  · -- without a call of `IMU_init` there is no other
    left
    rw [hcut, List.nil_append]
    by_contra hafter'
    exact hsome hneed (fun hstill => hafter' (hnone hstill)) rfl
  · right
    rw [laserMappingNode, hdrives, hcalls, Machine.run_append, List.concat_eq_append,
      Machine.run_snoc]
    rw [hcut, Machine.along_append, List.concat_eq_append, Machine.run_snoc] at hregular
    have hlast : last.IsInitialise := hbefore last (by simp)
    cases last with
    | predict dt Q input => exact absurd hlast id
    | update map down => exact absurd hlast id
    | initialise meanAcc meanGyr =>
      have hstart : Aside (imuInit .real params
          ((filterCalls (filterEnv .real e params env) kf).run kf earlier) meanAcc meanGyr).x
          (imuInit .real params
            ((filterCalls (filterEnv .real e params env) kf).run kf earlier) meanAcc meanGyr) :=
        ⟨rfl, rfl, keeps_diagonal _⟩
      have hrun := Machine.run_along (m := filterCalls (filterEnv .real e params env) kf)
        (P := fun kf call => RegularCall e params kf call ∧ ¬ call.IsInitialise)
        (fun _ _ hkf hcall => aside_call he hest hkf hcall) ⟨initP_posDef, hstart⟩
        (hregular.2.and_mem hafter)
      exact ⟨hrun.2.offsetRLI, hrun.2.offsetTLI⟩

theorem wallConfig_flat :
    ShareModel.Flat wallConfig (wallConfig.nearestSearch 0).1 ![0, -1, 0] 1 := by
  have hclose : (lit 4 : ℝ) ≤ 5 := by
    rw [lit_eq]
    norm_num
  refine ShareModel.flat_of_unit (fun _ => rfl) (le_refl 5) (fun _ => hclose) (fun _ _ => rfl) ?_
    fun j => ?_
  · simp [dotProduct, Fin.sum_univ_three]
  · have hlast : ∀ a b d : ℝ, (![a, b, d] : Fin 3 → ℝ) 2 = d := fun _ _ _ => rfl
    simp only [wallConfig]
    fin_cases j <;> norm_num [dotProduct, Fin.sum_univ_three, hlast]

theorem noiseCov_posSemidef {Q : NoiseCov ℝ} (hgyr : ∀ i, 0 ≤ Q.gyr.axis i)
    (hacc : ∀ i, 0 ≤ Q.acc.axis i) (hbiasGyr : ∀ i, 0 ≤ Q.biasGyr.axis i)
    (hbiasAcc : ∀ i, 0 ≤ Q.biasAcc.axis i) : (noiseCov Q).PosSemidef := by
  refine PosSemidef.diagonal fun i => ?_
  refine Block.forall_set hgyr (fun i => ?_) i
  refine Block.forall_set hacc (fun i => ?_) i
  refine Block.forall_set hbiasGyr (fun i => ?_) i
  refine Block.forall_set hbiasAcc (fun i => ?_) i
  exact le_of_eq Int.cast_zero.symm

theorem restImu_sourced :
    (restImu : ImuProcess ℝ).Sourced AtRest fun Q => (noiseCov Q).PosSemidef := by
  have hratio : ∀ q : ℤ, 0 < q → ∀ i,
      (0 : ℝ) ≤ (⟨ratio 1 q, ratio 1 q, ratio 1 q⟩ : V3 ℝ).axis i := by
    intro q hq i
    have hpos : (0 : ℝ) ≤ ratio 1 q := by
      rw [ratio_eq, Int.cast_one]
      exact (one_div_pos.mpr (Int.cast_pos.mpr hq)).le
    fin_cases i <;> exact hpos
  refine ⟨atRest_vertical (lit 0), atRest_vertical (lit (-1)), ?_, ?_, ?_⟩
  · exact noiseCov_posSemidef (hratio _ (by norm_num)) (hratio _ (by norm_num))
      (hratio _ (by norm_num)) (hratio _ (by norm_num))
  · exact noiseCov_posSemidef (hratio _ (by norm_num)) (hratio _ (by norm_num))
      (hratio _ (by norm_num)) (hratio _ (by norm_num))
  · exact fun hdone => absurd hdone.symm Bool.false_ne_true

theorem mapping_extrinsics_rest :
    runCalls wallPoints (filterEnv .real .real wallParams wallEnv) restImu ⟨create, 1⟩ []
        restEvents = [] ∨
      ((laserMappingNode .real .real wallParams wallPoints wallEnv restImu ⟨create, 1⟩ []).run
        (NodeState.init restImu ⟨create, 1⟩ []) restEvents).kf.x.offsetRLI = .identity ∧
      ((laserMappingNode .real .real wallParams wallPoints wallEnv restImu ⟨create, 1⟩ []).run
        (NodeState.init restImu ⟨create, 1⟩ []) restEvents).kf.x.offsetTLI = ![0, 0, 1] := by
  refine mapping_extrinsics wallPoints wallEnv Eigen.real_inverts rfl ⟨create, 1⟩ []
    (fun _ => rfl) ?_
  refine runCalls_regular wallPoints wallEnv rfl rfl (fun _ => ⟨_, wallConfig_flat⟩)
    (fun _ _ _ h => h) (fun _ h => h) rfl rfl restImu_sourced upright_create [] ?_
    restEvents_upwards
  refine restEvents_forall (fun ms => atRest_vertical (lit 1)) (fun sec p hp => ?_) trivial
  obtain ⟨i, -, rfl⟩ := List.mem_map.mp hp
  exact Int.cast_one

end

end StateIkfom

end RobotNav
