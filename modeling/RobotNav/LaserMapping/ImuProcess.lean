/-
`ImuProcess`: initialisation, forward propagation, and the cloud it hands out.

The Kalman filter is a parameter: its state, the calls `UndistortPcl` and
`IMU_init` make on it, and the per-point rotation of the backward loop, which
reads the poses recorded here.  What is modelled is which intervals the filter is
propagated over and what the class keeps from one package to the next.
-/
import RobotNav.LaserMapping.Buffers
import Mathlib.Data.List.Sort

namespace RobotNav
namespace LaserMapping

variable {K : Type} [Arith K]

namespace V3

def zip (f : K → K → K) (a b : V3 K) : V3 K := ⟨f a.x b.x, f a.y b.y, f a.z b.z⟩

def add (a b : V3 K) : V3 K := zip (· + ·) a b

def sub (a b : V3 K) : V3 K := zip (· - ·) a b

def cwiseProduct (a b : V3 K) : V3 K := zip (· * ·) a b

def scale (c : K) (a : V3 K) : V3 K := ⟨a.x * c, a.y * c, a.z * c⟩

def div (a : V3 K) (c : K) : V3 K := ⟨a.x / c, a.y / c, a.z / c⟩

end V3

/-- `input_ikfom`. -/
structure ImuInput (K : Type) where
  acc : V3 K
  gyro : V3 K
  deriving DecidableEq

def ImuInput.zero : ImuInput K :=
  { acc := ⟨lit 0, lit 0, lit 0⟩, gyro := ⟨lit 0, lit 0, lit 0⟩ }

/-- The diagonal of `Q`, block by block; the rest of `Q` stays zero. -/
structure NoiseCov (K : Type) where
  gyr : V3 K
  acc : V3 K
  biasGyr : V3 K
  biasAcc : V3 K
  deriving DecidableEq

/-- `process_noise_cov()`. -/
def processNoiseCov : NoiseCov K where
  gyr := ⟨ratio 1 10000, ratio 1 10000, ratio 1 10000⟩
  acc := ⟨ratio 1 10000, ratio 1 10000, ratio 1 10000⟩
  biasGyr := ⟨ratio 1 100000, ratio 1 100000, ratio 1 100000⟩
  biasAcc := ⟨ratio 1 100000, ratio 1 100000, ratio 1 100000⟩

/-- An entry of `IMUpose`; velocity, position and rotation are those of `kf`. -/
structure Pose6D (K S : Type) where
  offsetTime : K
  acc : V3 K
  gyr : V3 K
  kf : S

/-- What the class asks of `kf_state` and of the vector library. -/
structure Filter (K S : Type) where
  norm : V3 K → K
  /-- The state and covariance `IMU_init` sets, from `mean_acc` and `mean_gyr`. -/
  initialise : S → V3 K → V3 K → S
  predict : S → K → NoiseCov K → ImuInput K → S
  /-- `angvel_avr - bg`. -/
  angvel : S → V3 K → V3 K
  /-- `rot * (acc_avr - ba) + grav`. -/
  accWorld : S → V3 K → V3 K
  /-- The backward loop, from the poses and the state at the end of the frame. -/
  compensate : List (Pose6D K S) → S → List (Point K) → List (Point K)

def maxIniCount : ℤ := 10

def gravity : K := ratio 981 100

structure ImuProcess (K : Type) where
  meanAcc : V3 K
  meanGyr : V3 K
  covAcc : V3 K
  covGyr : V3 K
  covAccScale : V3 K
  covGyrScale : V3 K
  covBiasGyr : V3 K
  covBiasAcc : V3 K
  Q : NoiseCov K
  angvelLast : V3 K
  accSLast : V3 K
  lastImu : ImuMsg K
  lastLidarEndTime : K
  initIterNum : ℤ
  bFirstFrame : Bool
  imuNeedInit : Bool

def ImuMsg.empty : ImuMsg K :=
  { stamp := ⟨0, 0⟩, angularVelocity := ⟨lit 0, lit 0, lit 0⟩,
    linearAcceleration := ⟨lit 0, lit 0, lit 0⟩ }

/-- The constructor with the scales set by the node.  It leaves
`last_lidar_end_time_` and `acc_s_last` unset. -/
def ImuProcess.create (covAccScale covGyrScale accSLast : V3 K) (lastLidarEndTime : K) :
    ImuProcess K where
  meanAcc := ⟨lit 0, lit 0, lit (-1)⟩
  meanGyr := ⟨lit 0, lit 0, lit 0⟩
  covAcc := ⟨ratio 1 10, ratio 1 10, ratio 1 10⟩
  covGyr := ⟨ratio 1 10, ratio 1 10, ratio 1 10⟩
  covAccScale := covAccScale
  covGyrScale := covGyrScale
  covBiasGyr := ⟨ratio 1 10000, ratio 1 10000, ratio 1 10000⟩
  covBiasAcc := ⟨ratio 1 10000, ratio 1 10000, ratio 1 10000⟩
  Q := processNoiseCov
  angvelLast := ⟨lit 0, lit 0, lit 0⟩
  accSLast := accSLast
  lastImu := ImuMsg.empty
  lastLidarEndTime := lastLidarEndTime
  initIterNum := 1
  bFirstFrame := true
  imuNeedInit := true

def ImuProcess.setGyrBiasCov (p : ImuProcess K) (bG : V3 K) : ImuProcess K :=
  { p with covBiasGyr := bG }

def ImuProcess.setAccBiasCov (p : ImuProcess K) (bA : V3 K) : ImuProcess K :=
  { p with covBiasAcc := bA }

def ImuProcess.reset (p : ImuProcess K) : ImuProcess K :=
  { p with
    meanAcc := ⟨lit 0, lit 0, lit (-1)⟩
    meanGyr := ⟨lit 0, lit 0, lit 0⟩
    angvelLast := ⟨lit 0, lit 0, lit 0⟩
    imuNeedInit := true
    initIterNum := 1
    lastImu := ImuMsg.empty }

/-! ## Initialisation -/

/-- One sample of the running mean and variance; `n` counts from 1.  `n * n` is an
`int` in the code and fits up to the 46340th sample; `Process` ends the initialisation
with the package of the tenth. -/
def runningCov (n : ℤ) (cov mean cur : V3 K) : V3 K :=
  let d := cur.sub mean
  ((cov.scale (lit n - lit 1)).div (lit n)).add
    (((d.cwiseProduct d).scale (lit n - lit 1)).div (lit (n * n)))

def ImuProcess.initSample (p : ImuProcess K) (imu : ImuMsg K) : ImuProcess K :=
  let n := p.initIterNum
  let curAcc := imu.linearAcceleration
  let curGyr := imu.angularVelocity
  let meanAcc := p.meanAcc.add ((curAcc.sub p.meanAcc).div (lit n))
  let meanGyr := p.meanGyr.add ((curGyr.sub p.meanGyr).div (lit n))
  { p with
    meanAcc := meanAcc
    meanGyr := meanGyr
    covAcc := runningCov n p.covAcc meanAcc curAcc
    covGyr := runningCov n p.covGyr meanGyr curGyr
    initIterNum := n + 1 }

/-- The block of `IMU_init` for the first frame. -/
def ImuProcess.firstFrame (p : ImuProcess K) (imu : List (ImuMsg K)) : ImuProcess K :=
  if p.bFirstFrame then
    match imu with
    | [] => p
    | front :: _ =>
      { p.reset with
        initIterNum := 1
        bFirstFrame := false
        meanAcc := front.linearAcceleration
        meanGyr := front.angularVelocity }
  else p

variable {S : Type} (f : Filter K S)

def ImuProcess.imuInit (p : ImuProcess K) (imu : List (ImuMsg K)) (kf : S) :
    ImuProcess K × S :=
  let p := imu.foldl ImuProcess.initSample (p.firstFrame imu)
  ({ p with lastImu := imu.getLast?.getD p.lastImu },
    f.initialise kf p.meanAcc p.meanGyr)

/-! ## Forward propagation -/

/-- What the forward loop of `UndistortPcl` carries along.  `dts` are the time
steps handed to `predict`, in order. -/
structure Propagation (K S : Type) where
  kf : S
  Q : NoiseCov K
  input : ImuInput K
  dt : K
  angvelLast : V3 K
  accSLast : V3 K
  imuPose : List (Pose6D K S)
  dts : List K

/-- The time step of one pair of messages: clipped at the end of the last scan. -/
def pairDt (lastEnd : K) (head tail : ImuMsg K) : K :=
  if head.sec < lastEnd then tail.sec - lastEnd else tail.sec - head.sec

def average (a b : V3 K) : V3 K := (a.add b).scale (ratio 1 2)

/-- The variables before the loop. -/
def ImuProcess.propagation (p : ImuProcess K) (kf : S) : Propagation K S where
  kf := kf
  Q := p.Q
  input := ImuInput.zero
  dt := lit 0
  angvelLast := p.angvelLast
  accSLast := p.accSLast
  imuPose := [{ offsetTime := lit 0, acc := p.accSLast, gyr := p.angvelLast, kf := kf }]
  dts := []

/-- What the loop writes to `Q`. -/
def ImuProcess.noise (p : ImuProcess K) : NoiseCov K :=
  { gyr := p.covGyr, acc := p.covAcc, biasGyr := p.covBiasGyr, biasAcc := p.covBiasAcc }

def Propagation.advance (p : ImuProcess K) (pclBegTime : K) (g : Propagation K S)
    (head tail : ImuMsg K) : Propagation K S :=
  let angvelAvr := average head.angularVelocity tail.angularVelocity
  let accAvr := ((average head.linearAcceleration tail.linearAcceleration).scale gravity).div
    (f.norm p.meanAcc)
  let dt := pairDt p.lastLidarEndTime head tail
  let input := { acc := accAvr, gyro := angvelAvr }
  let kf := f.predict g.kf dt p.noise input
  let angvelLast := f.angvel kf angvelAvr
  let accSLast := f.accWorld kf accAvr
  let pose := { offsetTime := tail.sec - pclBegTime, acc := accSLast, gyr := angvelLast, kf := kf }
  { kf := kf, Q := p.noise, input := input, dt := dt, angvelLast := angvelLast,
    accSLast := accSLast, imuPose := g.imuPose ++ [pose], dts := g.dts ++ [dt] }

/-- The loop over neighbouring messages; pairs that end before the last scan did
are skipped. -/
def Propagation.forward (p : ImuProcess K) (pclBegTime : K) (g : Propagation K S) :
    List (ImuMsg K) → Propagation K S
  | head :: tail :: rest =>
    let g := if tail.sec < p.lastLidarEndTime then g else g.advance f p pclBegTime head tail
    Propagation.forward p pclBegTime g (tail :: rest)
  | _ => g

/-- The step from the last message to the end of the scan. -/
def tailDt (pclEndTime imuEndTime : K) : K :=
  let note : K := if imuEndTime < pclEndTime then lit 1 else lit (-1)
  note * (pclEndTime - imuEndTime)

/-- What one call of `UndistortPcl` did: the cloud it wrote, made from scan
`seq`, and the propagation up to `pclEndTime`. -/
structure Undistorted (K : Type) where
  seq : ℕ
  points : List (Point K)
  pclEndTime : K
  dts : List K
  deriving DecidableEq

def ImuProcess.undistortPcl (p : ImuProcess K) (meas : MeasureGroup K) (kf : S) :
    ImuProcess K × S × Undistorted K :=
  let vImu := p.lastImu :: meas.imu
  let imuEndTime := (vImu.getLast?.getD p.lastImu).sec
  let points := meas.lidar.points.insertionSort fun a b => a.curvature ≤ b.curvature
  let g := Propagation.forward f p meas.lidarBegTime (p.propagation kf) vImu
  let dt := tailDt meas.lidarEndTime imuEndTime
  let kf := f.predict g.kf dt g.Q g.input
  ({ p with
      Q := g.Q
      angvelLast := g.angvelLast
      accSLast := g.accSLast
      lastImu := meas.imu.getLast?.getD p.lastImu
      lastLidarEndTime := meas.lidarEndTime },
    kf,
    { seq := meas.lidar.seq, points := f.compensate g.imuPose kf points,
      pclEndTime := meas.lidarEndTime, dts := g.dts ++ [dt] })

/-! ## `Process` -/

/-- The end of an initialisation step, once enough samples are in. -/
def ImuProcess.finishInit (p : ImuProcess K) : ImuProcess K :=
  if maxIniCount < p.initIterNum then
    { p with imuNeedInit := false, covAcc := p.covAccScale, covGyr := p.covGyrScale }
  else p

/-- `Process`; the last component is the cloud it wrote, if it wrote one. -/
def ImuProcess.process (p : ImuProcess K) (meas : MeasureGroup K) (kf : S) :
    ImuProcess K × S × Option (Undistorted K) :=
  if meas.imu.isEmpty then (p, kf, none)
  else if p.imuNeedInit then
    let (p, kf) := p.imuInit f meas.imu kf
    (({ p with imuNeedInit := true } : ImuProcess K).finishInit, kf, none)
  else
    let (p, kf, u) := p.undistortPcl f meas kf
    (p, kf, some u)

end LaserMapping
end RobotNav
