/-
`publish_odometry` and the message object it uses again in every frame.

The message goes out before the covariance is filled in, so a message carries what the
call before it has filled in, and the filling moves the blocks of the filter's order,
position before rotation, past each other.
-/
import Mathlib.Data.Rat.Floor
import Mathlib.Data.List.Forall2
import RobotNav.Library.Machine
import RobotNav.Messages

namespace RobotNav
namespace LaserMapping

/-- A vector of the error state: three components each of position, rotation, the two
parts of the extrinsics, velocity and the two biases, and two of gravity. -/
abbrev ErrorIndex := Fin 23

/-- `nav_msgs::msg::Odometry`; the entry `i*6 + j` of the covariance is that of `i` and `j`. -/
structure Odometry (K : Type) where
  frameId : String
  childFrameId : String
  stamp : K
  position : Fin 3 → K
  orientation : Quaternion K
  covariance : Fin 6 → Fin 6 → K

/-- `geometry_msgs::msg::TransformStamped`. -/
structure TransformStamped (K : Type) where
  frameId : String
  childFrameId : String
  stamp : K
  translation : Fin 3 → K
  rotation : Quaternion K

/-- The globals a call of `publish_odometry` reads; `p` is `kf.get_P()`. -/
structure OdometryCall (K : Type) where
  lidarEndTime : K
  pos : Fin 3 → K
  geoQuat : Quaternion K
  p : ErrorIndex → ErrorIndex → K

variable {K : Type}

/-- The row of `P` that row `i` of the message is filled from. -/
def covarianceRow (i : Fin 6) : ErrorIndex :=
  if i.val < 3 then ⟨i.val + 3, by omega⟩ else ⟨i.val - 3, by omega⟩

/-- The six assignments of the loop body. -/
def fillRow (p : ErrorIndex → ErrorIndex → K) (k : ErrorIndex) : Fin 6 → K
  | 0 => p k 3
  | 1 => p k 4
  | 2 => p k 5
  | 3 => p k 0
  | 4 => p k 1
  | 5 => p k 2

/-- The message goes out in the middle; what is filled in after it stays in the object. -/
def publishOdometry (odomAftMapped : Odometry K) (call : OdometryCall K) :
    Odometry K × Odometry K × TransformStamped K :=
  let published := { odomAftMapped with
    frameId := "odom"
    childFrameId := "base_link"
    stamp := call.lidarEndTime
    position := call.pos
    orientation := call.geoQuat }
  ({ published with covariance := fun i => fillRow call.p (covarianceRow i) }, published,
    { frameId := "odom"
      childFrameId := "base_link"
      stamp := published.stamp
      translation := published.position
      rotation := published.orientation })

/-- The object before the first call. -/
def Odometry.unset [Arith K] : Odometry K where
  frameId := ""
  childFrameId := ""
  stamp := lit 0
  position := fun _ => lit 0
  orientation := .unset
  covariance := fun _ _ => lit 0

/-- The calls of a run, each of which gives out a message and a transform. -/
def odometryPublisher [Arith K] :
    Machine (Odometry K) (OdometryCall K) (Odometry K × TransformStamped K) where
  init := .unset
  step := publishOdometry

/-- Position and rotation of the filter, as the message numbers them. -/
def poseIndex (i : Fin 6) : ErrorIndex := i.castLE (by omega)

/-- The message carries the covariance of the pose at the time of its call. -/
def CarriesCovariance (call : OdometryCall K) (out : Odometry K × TransformStamped K) : Prop :=
  ∀ i j, out.1.covariance i j = call.p (poseIndex i) (poseIndex j)

/-! ## Which entries are filled from where -/

/-- The other block: rotation for position, and position for rotation. -/
def otherBlock (i : Fin 6) : Fin 6 := i + 3

theorem covarianceRow_eq (i : Fin 6) : covarianceRow i = poseIndex (otherBlock i) := by
  revert i
  decide

theorem fillRow_eq (p : ErrorIndex → ErrorIndex → K) (k : ErrorIndex) (j : Fin 6) :
    fillRow p k j = p k (poseIndex (otherBlock j)) := by
  match j with
  | 0 => rfl
  | 1 => rfl
  | 2 => rfl
  | 3 => rfl
  | 4 => rfl
  | 5 => rfl

/-- The blocks of position and rotation have changed places. -/
theorem publishOdometry_covariance (odom : Odometry K) (call : OdometryCall K) (i j : Fin 6) :
    (publishOdometry odom call).1.covariance i j =
      call.p (poseIndex (otherBlock i)) (poseIndex (otherBlock j)) := by
  show fillRow call.p (covarianceRow i) j = _
  rw [fillRow_eq, covarianceRow_eq]

/-! ## Any number of calls -/

variable {F : Type} [Field F] [LinearOrder F] [FloorRing F]

/-- With nothing filled in yet. -/
theorem carries_iff {odom : Odometry F} (hodom : ∀ i j, odom.covariance i j = 0)
    (calls : List (OdometryCall F)) :
    List.Forall₂ CarriesCovariance calls (odometryPublisher.outs odom calls) ↔
      ∀ call ∈ calls, ∀ i j, call.p (poseIndex i) (poseIndex j) = 0 := by
  induction calls generalizing odom with
  | nil =>
    rw [Machine.outs_nil]
    exact iff_of_true .nil (by simp)
  | cons call calls ih =>
    rw [Machine.outs_cons, List.forall₂_cons, List.forall_mem_cons]
    have hfirst : CarriesCovariance call (odometryPublisher.out odom call) ↔
        ∀ i j, call.p (poseIndex i) (poseIndex j) = 0 := by
      refine forall_congr' fun i => forall_congr' fun j => ?_
      show odom.covariance i j = _ ↔ _
      rw [hodom i j]
      exact eq_comm
    rw [hfirst]
    refine and_congr_right fun hzero => ih fun i j => ?_
    have hfilled := publishOdometry_covariance odom call i j
    rw [hzero] at hfilled
    exact hfilled

/-- Each message of a run carries the covariance of its own pose exactly when there is
none to carry: at every call the pose part of `P` is zero. -/
theorem odometryPublisher_carries_iff (calls : List (OdometryCall F)) :
    List.Forall₂ CarriesCovariance calls
        (odometryPublisher.outs (odometryPublisher (K := F)).init calls) ↔
      ∀ call ∈ calls, ∀ i j, call.p (poseIndex i) (poseIndex j) = 0 :=
  carries_iff (fun _ _ => Int.cast_zero) calls

/-- The first call, with the identity for `P`. -/
def firstCall : OdometryCall ℚ where
  lidarEndTime := 1
  pos := fun _ => 0
  geoQuat := .unset
  p := fun i j => if i = j then 1 else 0

theorem firstCall_carries_nothing :
    ¬ List.Forall₂ CarriesCovariance [firstCall]
      (odometryPublisher.outs (odometryPublisher (K := ℚ)).init [firstCall]) := by
  intro h
  have hentry := (List.forall₂_cons.mp h).1 0 0
  have hzero : (0 : ℚ) = 1 := hentry
  exact absurd hzero (by decide)

end LaserMapping
end RobotNav
