/-
The localisation node: its callbacks and the thread that registers scans.

A step is a callback, a statement of the callback for initial poses, or a section
of the thread: what it does under a lock, or a statement outside of one.  The
executor runs the callbacks of the node one at a time; the thread runs beside them.
What a registration finds is up to the event.
-/
import RobotNav.Library.Arith
import RobotNav.Library.Machine
import RobotNav.Library.Rigid

namespace RobotNav
namespace GlobalLocalization

open Matrix

/-! ## The filter -/

structure KalmanFilter (K : Type) where
  processVar : K
  estimatedMeasVar : K
  posteriEstimate : K
  posteriErrorEstimate : K
  deriving DecidableEq

namespace KalmanFilter

variable {K : Type} [Arith K]

def create : KalmanFilter K := ⟨lit 0, lit 0, lit 0, lit 1⟩

def kalmanFilterInit (processVar estimatedMeasVar posteriEstimate : K) : KalmanFilter K :=
  ⟨processVar, estimatedMeasVar, posteriEstimate, lit 1⟩

def prioriErrorEstimate (f : KalmanFilter K) : K := f.posteriErrorEstimate + f.processVar

def denominator (f : KalmanFilter K) : K := f.prioriErrorEstimate + f.estimatedMeasVar

/-- What the next measurement divides by what, unless the denominator is small. -/
def division (f : KalmanFilter K) : Option (K × K) :=
  if fabs f.denominator < ratio 1 10000000000 then none
  else some (f.prioriErrorEstimate, f.denominator)

def inputLatestNoisyMeasurement (f : KalmanFilter K) (measurement : K) : KalmanFilter K :=
  let prioriEstimate := f.posteriEstimate
  match f.division with
  | none => { f with posteriEstimate := measurement, posteriErrorEstimate := lit 1 }
  | some (num, den) =>
    let blendingFactor := num / den
    { f with
      posteriEstimate := prioriEstimate + blendingFactor * (measurement - prioriEstimate)
      posteriErrorEstimate := (lit 1 - blendingFactor) * f.prioriErrorEstimate }

def getLatestEstimatedMeasurement (f : KalmanFilter K) : K := f.posteriEstimate

end KalmanFilter

/-! ## The state -/

variable {K : Type} [Field K] [LinearOrder K] [FloorRing K]

structure Config (K : Type) [Field K] where
  initialpose : RigidMotion K
  queueMaxsize : ℕ
  thresholdFitnessInit : K
  thresholdFitness : K
  filterOdom2map : Bool
  kfParamX : List K
  kfParamY : List K
  kfParamZ : List K
  kalmanProcessVar2 : K
  kalmanEstimatedMeasVar2 : K
  disUpdatemap : K

/-- `mat_baselink2odom_cur` and `mat_baselink2map_cur`. -/
structure Current (K : Type) where
  matBaselink2odomCur : Matrix4d K
  matBaselink2mapCur : Matrix4d K
  /-- The estimate the second matrix is a product of. -/
  computedFrom : Matrix4d K

/-- Where the thread is. -/
inductive Stage (K : Type) where
  | waitOdom
  | waitScan
  | startPose
  | initScan (countSuccess : ℕ)
  | initRegister (countSuccess : ℕ) (cur : Current K)
  | kalmanInit
  | setInitialized
  | readStart
  | stamp (timeLast : K)
  | scan (timeLast : K)
  | register (timeLast : K) (cur : Current K)

/-- Where the callback for initial poses is: past its test, past its write of the
rotation block of `mat_initialpose_`, past that of the translation. -/
inductive PoseWrite (K : Type) [Field K] where
  | idle
  | accepted (pose : RigidMotion K)
  | rotated (pose : RigidMotion K)
  | written (pose : RigidMotion K)

/-- A member that depends on a matrix nobody has assigned is `none`. -/
structure State (K : Type) [Field K] where
  timestampOdom : K
  matBaselink2odom : Matrix4d K
  matOdom2map : Matrix4d K
  matBaselink2map : Matrix4d K
  matOdom2mapKalman : Option (Matrix4d K)
  matInitialpose : Matrix4d K
  locInitialized : Bool
  locFitness : K
  quePcdScan : List ℕ
  pcdScanCur : ℕ
  kfBaselinkX : KalmanFilter K
  kfBaselinkY : KalmanFilter K
  kfBaselinkZ : Option (KalmanFilter K)
  kalmanFilterOdom2map : KalmanFilter K
  lastLoc : Fin 3 → K
  /-- The pose of the box the submap of the main loop is cropped with. -/
  mapFineCrop : Option (Matrix4d K)
  poseWrite : PoseWrite K
  stage : Stage K
  /-- The estimate `mat_baselink2map_` is a product of. -/
  computedFrom : Matrix4d K
  /-- Passes of the main loop that got a scan. -/
  passes : ℕ

/-- The members after the constructor; `unset` is what `mat_baselink2map_` holds
before anything is assigned to it. -/
def State.init (cfg : Config K) (unset : Matrix4d K) : State K where
  timestampOdom := lit 0
  matBaselink2odom := 1
  matOdom2map := 1
  matBaselink2map := unset
  matOdom2mapKalman := none
  matInitialpose := cfg.initialpose.homogeneous
  locInitialized := false
  locFitness := lit 0
  quePcdScan := []
  pcdScanCur := 0
  kfBaselinkX := .create
  kfBaselinkY := .create
  kfBaselinkZ := some .create
  kalmanFilterOdom2map := .create
  lastLoc := fun j => if j = 2 then lit (-5000) else lit 0
  mapFineCrop := none
  poseWrite := .idle
  stage := .waitOdom
  computedFrom := unset
  passes := 0

/-! ## Steps -/

/-- The height in a pose. -/
def height (m : Matrix4d K) : K := m (.inl 2) (.inr ())

def position (m : Matrix4d K) : Fin 3 → K := fun j => m (.inl j) (.inr ())

def setHeight (m : Matrix4d K) (z : K) : Matrix4d K :=
  fun i j => if i = .inl 2 ∧ j = .inr () then z else m i j

inductive Event (K : Type) [Field K] where
  | odometry (stamp : K) (pose : RigidMotion K)
  | scan (points : ℕ)
  | initialPose (pose : RigidMotion K)
  | initialPoseNext
  | thread (icp : Matrix4d K) (fitness : K)

/-- What the callback for odometry publishes. -/
structure Published (K : Type) where
  baselink2map : Matrix4d K
  odom2map : Matrix4d K
  odom2mapKalman : Option (Option (Matrix4d K))
  baselink2mapKalman : Option (Option (Matrix4d K))
  localization3dConfidence : Option K

/-- What a registration starts from. -/
structure Registration (K : Type) where
  initializing : Bool
  cur : Current K
  regMatrix : Matrix4d K

inductive Output (K : Type) [Field K] where
  | quiet
  | published (messages : Published K)
  | accepted (pose : RigidMotion K)
  | registered (registration : Registration K)

variable (cfg : Config K) (sqrt : K → K)

namespace State

variable (s : State K)

/-- `CallbackBaselink2Odom`.  `mat_imulink2baselink_` is the identity, and no
number is NaN. -/
def callbackBaselink2Odom (stamp : K) (pose : RigidMotion K) : State K × Published K :=
  let matBaselink2odom := pose.homogeneous * 1
  let matBaselink2map := s.matOdom2map * matBaselink2odom
  let s := { s with
    timestampOdom := stamp
    matBaselink2odom := matBaselink2odom
    matBaselink2map := matBaselink2map
    computedFrom := s.matOdom2map }
  if s.locInitialized then
    if cfg.filterOdom2map then
      let matBaselink2mapKalman := s.matOdom2mapKalman.map (· * matBaselink2odom)
      let kfBaselinkZ := matBaselink2mapKalman.bind fun m =>
        s.kfBaselinkZ.map fun f => f.inputLatestNoisyMeasurement (height m)
      ({ s with kfBaselinkZ := kfBaselinkZ },
        { baselink2map := matBaselink2map
          odom2map := s.matOdom2map
          odom2mapKalman := some s.matOdom2mapKalman
          baselink2mapKalman := some (matBaselink2mapKalman.bind fun m =>
            kfBaselinkZ.map fun f => setHeight m f.getLatestEstimatedMeasurement)
          localization3dConfidence := some s.locFitness })
    else
      let kfBaselinkZ := s.kfBaselinkZ.map fun f =>
        f.inputLatestNoisyMeasurement (position matBaselink2map 2)
      ({ s with
          kfBaselinkX := s.kfBaselinkX.inputLatestNoisyMeasurement (position matBaselink2map 0)
          kfBaselinkY := s.kfBaselinkY.inputLatestNoisyMeasurement (position matBaselink2map 1)
          kfBaselinkZ := kfBaselinkZ },
        { baselink2map := matBaselink2map
          odom2map := s.matOdom2map
          odom2mapKalman := none
          baselink2mapKalman := some (kfBaselinkZ.map fun f =>
            setHeight matBaselink2map f.getLatestEstimatedMeasurement)
          localization3dConfidence := some s.locFitness })
  else
    (s, { baselink2map := matBaselink2map
          odom2map := s.matOdom2map
          odom2mapKalman := none
          baselink2mapKalman := none
          localization3dConfidence := none })

/-- `CallbackScan`: a full queue becomes the current scan and loses its oldest
cloud. -/
def callbackScan (points : ℕ) : State K :=
  if cfg.queueMaxsize ≤ s.quePcdScan.length then
    { s with pcdScanCur := s.quePcdScan.sum, quePcdScan := s.quePcdScan.tail ++ [points] }
  else { s with quePcdScan := s.quePcdScan ++ [points] }

/-- The test at the head of `CallbackInitialPose`. -/
def callbackInitialPose (pose : RigidMotion K) : State K :=
  if s.locInitialized && decide (ratio 99 100 < s.locFitness) then s
  else { s with poseWrite := .accepted pose }

/-- Its next statement: the two blocks of `mat_initialpose_`, then the assignment
under the lock. -/
def callbackInitialPoseNext : State K × Output K :=
  match s.poseWrite with
  | .idle => (s, .quiet)
  | .accepted pose =>
    ({ s with
        matInitialpose := fromBlocks pose.rotation.1 s.matInitialpose.toBlocks₁₂
          s.matInitialpose.toBlocks₂₁ s.matInitialpose.toBlocks₂₂
        poseWrite := .rotated pose }, .quiet)
  | .rotated pose =>
    ({ s with
        matInitialpose := fromBlocks s.matInitialpose.toBlocks₁₁ (of fun j _ => pose.translation j)
          s.matInitialpose.toBlocks₂₁ s.matInitialpose.toBlocks₂₂
        poseWrite := .written pose }, .quiet)
  | .written pose =>
    ({ s with matOdom2map := s.matInitialpose, poseWrite := .idle }, .accepted pose)

/-- The two matrices a section under `lock_scan_` copies. -/
def current : Current K := ⟨s.matBaselink2odom, s.matBaselink2map, s.computedFrom⟩

def computeMotionDis (a b : Fin 3 → K) : K :=
  sqrt ((a 0 - b 0) * (a 0 - b 0) + (a 1 - b 1) * (a 1 - b 1) + (a 2 - b 2) * (a 2 - b 2))

/-- A filter parameter of fewer than two values leaves the filter as it is. -/
def initFilter (param : List K) (estimate : K) (f : KalmanFilter K) : KalmanFilter K :=
  match param with
  | processVar :: estimatedMeasVar :: _ => .kalmanFilterInit processVar estimatedMeasVar estimate
  | _ => f

/-- The filters get their parameters all together or not at all. -/
def kalmanInit : State K :=
  let initBaselink2map := position (s.matOdom2map * s.matBaselink2odom)
  let sized := 2 ≤ cfg.kfParamX.length ∧ 2 ≤ cfg.kfParamY.length ∧ 2 ≤ cfg.kfParamZ.length
  let s := if sized then
    { s with
      kfBaselinkX := initFilter cfg.kfParamX (initBaselink2map 0) s.kfBaselinkX
      kfBaselinkY := initFilter cfg.kfParamY (initBaselink2map 1) s.kfBaselinkY
      kfBaselinkZ := s.kfBaselinkZ.map (initFilter cfg.kfParamZ (initBaselink2map 2)) }
    else s
  { s with
    kalmanFilterOdom2map :=
      .kalmanFilterInit cfg.kalmanProcessVar2 cfg.kalmanEstimatedMeasVar2 (initBaselink2map 2)
    stage := .setInitialized }

/-- The section of the main loop under `lock_scan_`, and the submap after it. -/
def mainScan (timeLast : K) : State K :=
  let s := if cfg.filterOdom2map then
    let f := (s.kalmanFilterOdom2map.inputLatestNoisyMeasurement
      (height s.matOdom2map)).inputLatestNoisyMeasurement (height s.matOdom2map)
    { s with
      kalmanFilterOdom2map := f
      matOdom2mapKalman := some (setHeight s.matOdom2map f.getLatestEstimatedMeasurement) }
    else s
  let curLoc := position s.matBaselink2map
  let s := if cfg.disUpdatemap < computeMotionDis sqrt s.lastLoc curLoc then
    { s with lastLoc := curLoc, mapFineCrop := some s.matBaselink2map }
    else s
  { s with stage := .register timeLast s.current, passes := s.passes + 1 }

/-- The next section of `Localization` or `LocalizationInitialize`; a registration
moves the estimate by `icp` and ends with `fitness`. -/
def threadStep (icp : Matrix4d K) (fitness : K) : State K × Output K :=
  match s.stage with
  | .waitOdom => (if s.timestampOdom = lit 0 then s else { s with stage := .waitScan }, .quiet)
  | .waitScan => (if s.pcdScanCur = 0 then s else { s with stage := .startPose }, .quiet)
  | .startPose => ({ s with matOdom2map := s.matInitialpose, stage := .initScan 0 }, .quiet)
  | .initScan countSuccess =>
    (if s.pcdScanCur = 0 then s else { s with stage := .initRegister countSuccess s.current },
      .quiet)
  | .initRegister countSuccess cur =>
    let stage := if cfg.thresholdFitnessInit < fitness then
      if 2 ≤ countSuccess + 1 then .kalmanInit else .initScan (countSuccess + 1)
      else .initScan 0
    ({ s with matOdom2map := icp * s.matOdom2map, stage := stage },
      .registered ⟨true, cur, s.matOdom2map⟩)
  | .kalmanInit => (s.kalmanInit cfg, .quiet)
  | .setInitialized => ({ s with locInitialized := true, stage := .readStart }, .quiet)
  | .readStart => ({ s with stage := .stamp (s.timestampOdom - lit 3) }, .quiet)
  | .stamp timeLast =>
    (if fabs (s.timestampOdom - timeLast) < ratio 1 1000000 then
      { s with stage := .stamp s.timestampOdom }
      else { s with stage := .scan s.timestampOdom }, .quiet)
  | .scan timeLast =>
    (if s.pcdScanCur = 0 then { s with stage := .stamp timeLast } else s.mainScan cfg sqrt timeLast,
      .quiet)
  | .register timeLast cur =>
    let matOdom2map := if cfg.thresholdFitness < fitness then icp * s.matOdom2map
      else s.matOdom2map
    ({ s with matOdom2map := matOdom2map, locFitness := fitness, stage := .stamp timeLast },
      .registered ⟨false, cur, s.matOdom2map⟩)

/-- No other callback runs. -/
def free : Bool :=
  match s.poseWrite with
  | .idle => true
  | _ => false

end State

/-- A callback starts when no other one runs. -/
def nodeStep (s : State K) : Event K → State K × Output K
  | .odometry stamp pose =>
    if s.free then
      let (s, messages) := s.callbackBaselink2Odom cfg stamp pose
      (s, .published messages)
    else (s, .quiet)
  | .scan points => (if s.free then s.callbackScan cfg points else s, .quiet)
  | .initialPose pose => (if s.free then s.callbackInitialPose pose else s, .quiet)
  | .initialPoseNext => s.callbackInitialPoseNext
  | .thread icp fitness => s.threadStep cfg sqrt icp fitness

def node (unset : Matrix4d K) : Machine (State K) (Event K) (Output K) where
  init := .init cfg unset
  step := nodeStep cfg sqrt

/-! ## What the steps leave alone -/

section Frames

variable (cfg : Config K) (sqrt : K → K)

/-- The thread assigns to no member of the callbacks. -/
structure ThreadKeeps (s s' : State K) : Prop where
  current : s'.current = s.current
  matInitialpose : s'.matInitialpose = s.matInitialpose
  poseWrite : s'.poseWrite = s.poseWrite

theorem threadKeeps_kalmanInit (s : State K) : ThreadKeeps s (s.kalmanInit cfg) := by
  unfold State.kalmanInit
  dsimp only
  split_ifs <;> exact ⟨rfl, rfl, rfl⟩

theorem threadKeeps_mainScan (s : State K) (timeLast : K) :
    ThreadKeeps s (s.mainScan cfg sqrt timeLast) := by
  unfold State.mainScan
  dsimp only
  split_ifs <;> exact ⟨rfl, rfl, rfl⟩

theorem mainScan_stage (s : State K) (timeLast : K) :
    (s.mainScan cfg sqrt timeLast).stage = .register timeLast s.current := by
  unfold State.mainScan
  dsimp only
  split_ifs <;> rfl

theorem threadStep_keeps (s : State K) (icp : Matrix4d K) (fitness : K) :
    ThreadKeeps s (s.threadStep cfg sqrt icp fitness).1 := by
  unfold State.threadStep
  cases s.stage with
  | kalmanInit => exact threadKeeps_kalmanInit cfg s
  | scan timeLast =>
    dsimp only
    split_ifs
    · exact ⟨rfl, rfl, rfl⟩
    · exact threadKeeps_mainScan cfg sqrt s timeLast
  | startPose => exact ⟨rfl, rfl, rfl⟩
  | setInitialized => exact ⟨rfl, rfl, rfl⟩
  | readStart => exact ⟨rfl, rfl, rfl⟩
  | _ =>
    dsimp only
    split_ifs <;> exact ⟨rfl, rfl, rfl⟩

/-- The copy a stage has made. -/
def Stage.cur? : Stage K → Option (Current K)
  | .initRegister _ cur => some cur
  | .register _ cur => some cur
  | _ => none

/-- A copy is of the members as they are. -/
theorem threadStep_copies (s : State K) (icp : Matrix4d K) (fitness : K) {cur : Current K}
    (hcur : (s.threadStep cfg sqrt icp fitness).1.stage.cur? = some cur) : cur = s.current := by
  unfold State.threadStep at hcur
  cases hstage : s.stage with
  | initScan countSuccess =>
    simp only [hstage] at hcur
    split_ifs at hcur
    · rw [hstage] at hcur
      cases hcur
    · exact (Option.some.inj hcur).symm
  | scan timeLast =>
    simp only [hstage] at hcur
    split_ifs at hcur
    · cases hcur
    · rw [mainScan_stage] at hcur
      exact (Option.some.inj hcur).symm
  | waitOdom =>
    simp only [hstage] at hcur
    split_ifs at hcur
    · rw [hstage] at hcur
      cases hcur
    · cases hcur
  | waitScan =>
    simp only [hstage] at hcur
    split_ifs at hcur
    · rw [hstage] at hcur
      cases hcur
    · cases hcur
  | initRegister countSuccess cur' =>
    simp only [hstage] at hcur
    split_ifs at hcur <;> cases hcur
  | stamp timeLast =>
    simp only [hstage] at hcur
    split_ifs at hcur <;> cases hcur
  | _ =>
    simp only [hstage] at hcur
    cases hcur

/-- Only the two registrations show anything. -/
theorem threadStep_out (s : State K) (icp : Matrix4d K) (fitness : K) :
    (∃ countSuccess cur, s.stage = .initRegister countSuccess cur ∧
      (s.threadStep cfg sqrt icp fitness).2 = .registered ⟨true, cur, s.matOdom2map⟩) ∨
    (∃ timeLast cur, s.stage = .register timeLast cur ∧
      (s.threadStep cfg sqrt icp fitness).2 = .registered ⟨false, cur, s.matOdom2map⟩) ∨
    (s.stage.cur? = none ∧ (s.threadStep cfg sqrt icp fitness).2 = .quiet) := by
  unfold State.threadStep
  cases hstage : s.stage with
  | initRegister countSuccess cur => exact .inl ⟨countSuccess, cur, rfl, rfl⟩
  | register timeLast cur => exact .inr (.inl ⟨timeLast, cur, rfl, rfl⟩)
  | _ => exact .inr (.inr ⟨rfl, rfl⟩)

/-- The callbacks assign to no member of the thread but the estimate. -/
structure CallbackKeeps (s s' : State K) : Prop where
  stage : s'.stage = s.stage
  locInitialized : s'.locInitialized = s.locInitialized
  matOdom2mapKalman : s'.matOdom2mapKalman = s.matOdom2mapKalman
  passes : s'.passes = s.passes

theorem callbackBaselink2Odom_keeps (s : State K) (stamp : K) (pose : RigidMotion K) :
    CallbackKeeps s (s.callbackBaselink2Odom cfg stamp pose).1 := by
  unfold State.callbackBaselink2Odom
  dsimp only
  split_ifs <;> exact ⟨rfl, rfl, rfl, rfl⟩

omit [LinearOrder K] [FloorRing K] in
theorem callbackScan_keeps (s : State K) (points : ℕ) :
    CallbackKeeps s (s.callbackScan cfg points) := by
  unfold State.callbackScan
  split_ifs <;> exact ⟨rfl, rfl, rfl, rfl⟩

theorem callbackInitialPose_keeps (s : State K) (pose : RigidMotion K) :
    CallbackKeeps s (s.callbackInitialPose pose) := by
  unfold State.callbackInitialPose
  split_ifs <;> exact ⟨rfl, rfl, rfl, rfl⟩

omit [LinearOrder K] [FloorRing K] in
theorem callbackInitialPoseNext_keeps (s : State K) :
    CallbackKeeps s s.callbackInitialPoseNext.1 := by
  unfold State.callbackInitialPoseNext
  cases s.poseWrite <;> exact ⟨rfl, rfl, rfl, rfl⟩

variable {cfg sqrt}

/-- The callbacks register nothing. -/
theorem nodeStep_registered {s : State K} {e : Event K} {r : Registration K}
    (h : (nodeStep cfg sqrt s e).2 = .registered r) :
    ∃ icp fitness, e = .thread icp fitness ∧
      (s.threadStep cfg sqrt icp fitness).2 = .registered r := by
  cases e with
  | thread icp fitness => exact ⟨icp, fitness, rfl, h⟩
  | odometry stamp pose =>
    simp only [nodeStep] at h
    split_ifs at h
  | scan points => cases h
  | initialPose pose => cases h
  | initialPoseNext =>
    simp only [nodeStep, State.callbackInitialPoseNext] at h
    cases hwrite : s.poseWrite <;> rw [hwrite] at h <;> cases h

end Frames

end GlobalLocalization
end RobotNav
