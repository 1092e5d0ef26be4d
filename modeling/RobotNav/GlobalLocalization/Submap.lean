/-
The submap an initialising registration is cropped with.

`mat_baselink2map_` is a product the callback for odometry has computed, so it fits
the estimate a registration starts from exactly when nobody has changed the
estimate since that callback.
-/
import Mathlib.Data.Rat.Floor
import RobotNav.GlobalLocalization.Node

namespace RobotNav
namespace GlobalLocalization

variable {K : Type} [Field K] [LinearOrder K] [FloorRing K]

/-- The map of an initialising registration is cropped at the base pose its
starting estimate implies. -/
def CropsAtEstimate (os : List (Output K)) : Prop :=
  ∀ o ∈ os, ∀ r, o = .registered r → r.initializing = true →
    r.cur.matBaselink2mapCur = r.regMatrix * r.cur.matBaselink2odomCur

/-- When an initialising registration takes its lock, the estimate is the one the
last odometry callback saw before the pair of matrices was copied. -/
def EstimateKept (s : State K) (e : Event K) : Prop :=
  ∀ countSuccess cur icp fitness, s.stage = .initRegister countSuccess cur →
    e = .thread icp fitness → s.matOdom2map = cur.computedFrom

/-! ## What the copies are -/

/-- The second matrix is a product with the first, which can be undone. -/
structure Current.Product (cur : Current K) : Prop where
  product : cur.matBaselink2mapCur = cur.computedFrom * cur.matBaselink2odomCur
  isUnit : IsUnit cur.matBaselink2odomCur

structure Cached (s : State K) : Prop where
  members : s.current.Product
  copied : ∀ cur, s.stage.cur? = some cur → cur.Product

variable {cfg : Config K} {sqrt : K → K}

theorem cached_init (cfg : Config K) (unset : Matrix4d K) : Cached (.init cfg unset) where
  members := ⟨(Matrix.mul_one unset).symm, isUnit_one⟩
  copied := fun cur hcur => by cases hcur

theorem Cached.odometry {s : State K} (hs : Cached s) (stamp : K) (pose : RigidMotion K) :
    Cached (s.callbackBaselink2Odom cfg stamp pose).1 := by
  have hproduct : Current.Product
      ⟨pose.homogeneous * 1, s.matOdom2map * (pose.homogeneous * 1), s.matOdom2map⟩ := by
    refine ⟨rfl, ?_⟩
    rw [Matrix.mul_one]
    exact pose.homogeneous_isUnit
  unfold State.callbackBaselink2Odom
  dsimp only
  split_ifs <;> exact ⟨hproduct, hs.copied⟩

theorem Cached.thread {s : State K} (hs : Cached s) (icp : Matrix4d K) (fitness : K) :
    Cached (s.threadStep cfg sqrt icp fitness).1 := by
  constructor
  · rw [(threadStep_keeps cfg sqrt s icp fitness).current]
    exact hs.members
  · intro cur hcur
    rw [threadStep_copies cfg sqrt s icp fitness hcur]
    exact hs.members

theorem Cached.step {s : State K} (hs : Cached s) (e : Event K) :
    Cached (nodeStep cfg sqrt s e).1 := by
  cases e with
  | odometry stamp pose =>
    simp only [nodeStep]
    split_ifs
    · exact hs.odometry stamp pose
    · exact hs
  | scan points =>
    simp only [nodeStep, State.callbackScan]
    split_ifs <;> exact ⟨hs.members, hs.copied⟩
  | initialPose pose =>
    simp only [nodeStep, State.callbackInitialPose]
    split_ifs <;> exact ⟨hs.members, hs.copied⟩
  | initialPoseNext =>
    simp only [nodeStep, State.callbackInitialPoseNext]
    cases s.poseWrite <;> exact ⟨hs.members, hs.copied⟩
  | thread icp fitness => exact hs.thread icp fitness

/-! ## One registration -/

omit [LinearOrder K] [FloorRing K] in
theorem Current.Product.crops_iff {cur : Current K} (hcur : cur.Product) (estimate : Matrix4d K) :
    cur.matBaselink2mapCur = estimate * cur.matBaselink2odomCur ↔ estimate = cur.computedFrom := by
  rw [hcur.product, hcur.isUnit.mul_left_inj]
  exact eq_comm

theorem stepCrops_iff {s : State K} (hs : Cached s) (e : Event K) :
    (∀ r, (nodeStep cfg sqrt s e).2 = .registered r → r.initializing = true →
      r.cur.matBaselink2mapCur = r.regMatrix * r.cur.matBaselink2odomCur) ↔ EstimateKept s e := by
  cases e with
  | thread icp fitness =>
    show (∀ r, (s.threadStep cfg sqrt icp fitness).2 = .registered r → _) ↔ _
    rcases threadStep_out cfg sqrt s icp fitness with
      ⟨countSuccess, cur, hstage, hout⟩ | ⟨timeLast, cur, hstage, hout⟩ | ⟨hnone, hout⟩
    · have hproduct : cur.Product := hs.copied cur (by rw [hstage]; rfl)
      rw [hout]
      constructor
      · intro h countSuccess' cur' icp' fitness' hstage' _
        rw [hstage] at hstage'
        cases hstage'
        exact (hproduct.crops_iff s.matOdom2map).mp (h _ rfl rfl)
      · intro h r hr _
        cases hr
        exact (hproduct.crops_iff s.matOdom2map).mpr
          (h countSuccess cur icp fitness hstage rfl)
    · rw [hout]
      constructor
      · intro _ countSuccess' cur' icp' fitness' hstage' _
        rw [hstage] at hstage'
        cases hstage'
      · intro _ r hr hinit
        cases hr
        cases hinit
    · rw [hout]
      constructor
      · intro _ countSuccess' cur' icp' fitness' hstage' _
        rw [hstage'] at hnone
        cases hnone
      · intro _ r hr
        cases hr
  | _ =>
    constructor
    · intro _ countSuccess cur icp fitness _ he
      cases he
    · intro _ r hr
      obtain ⟨icp, fitness, he, -⟩ := nodeStep_registered hr
      cases he

/-! ## Whole runs -/

/-- Every interleaving: each initialising registration crops at the pose its
estimate implies exactly when the estimate was kept since the odometry callback. -/
theorem cropsAtEstimate_iff (cfg : Config K) (sqrt : K → K) (unset : Matrix4d K)
    (es : List (Event K)) :
    CropsAtEstimate ((node cfg sqrt unset).outs (.init cfg unset) es) ↔
      (node cfg sqrt unset).Along EstimateKept (.init cfg unset) es := by
  apply Machine.outs_forall_iff (I := Cached)
  · intro s e hs
    exact hs.step e
  · intro s e hs
    exact stepCrops_iff hs e
  · exact cached_init cfg unset

/-! ## A start pose away from the odometry -/

def awayConfig : Config ℚ where
  initialpose := ⟨1, ![5, 0, 0]⟩
  queueMaxsize := 1
  thresholdFitnessInit := 1 / 2
  thresholdFitness := 1 / 2
  filterOdom2map := true
  kfParamX := [1, 1]
  kfParamY := [1, 1]
  kfParamZ := [1, 1]
  kalmanProcessVar2 := 1
  kalmanEstimatedMeasVar2 := 1
  disUpdatemap := 1

/-- One odometry message and a scan, then the thread up to its first
registration. -/
def awayRun : List (Event ℚ) :=
  [.odometry 1 ⟨1, 0⟩, .scan 1, .scan 1] ++ List.replicate 5 (.thread 1 1)

/-- The start pose is assigned after the odometry callback, so the first
registration crops the map around the origin and starts five metres off. -/
theorem startPose_crops_elsewhere :
    ¬ CropsAtEstimate ((node awayConfig id 0).outs (.init awayConfig 0) awayRun) := by
  intro hcrops
  have hstep := (Machine.outs_forall.mp hcrops).2.2.2.2.2.2.2.1
  have hcrop := hstep _ rfl rfl
  have hentry := congrFun (congrFun hcrop (.inl 0)) (.inr ())
  revert hentry
  decide +kernel

end GlobalLocalization
end RobotNav
