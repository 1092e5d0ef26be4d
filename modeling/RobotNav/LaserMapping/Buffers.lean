/-
The input side of the mapping node: the callbacks of the LiDAR and the IMU, and
`sync_packages`.

The callbacks and the timer run one after the other, so a run is a list of
events.  The globals of `laserMapping.cpp` that these functions read or write
are the fields of `State`; the time logs and the console output are left out.
-/
import RobotNav.Library.Arith
import RobotNav.Library.Machine
import Mathlib.Algebra.Order.Ring.Rat
import Mathlib.Data.Rat.Floor

namespace RobotNav

namespace LaserMapping

variable {K : Type} [Arith K]

/-! ## Messages -/

/-- `builtin_interfaces::msg::Time`. -/
structure Stamp where
  sec : ℤ
  nanosec : ℕ
  deriving DecidableEq

def Stamp.ofNanoseconds (ns : ℤ) : Stamp :=
  { sec := ns / 1000000000, nanosec := (ns % 1000000000).toNat }

def Stamp.nanoseconds (t : Stamp) : ℤ := t.sec * 1000000000 + t.nanosec

/-- `rclcpp::Time(time).seconds()`. -/
def getTimeSec (t : Stamp) : K := (t.nanoseconds : K) / lit 1000000000

def getRosTime (timestamp : K) : Stamp :=
  let sec := Arith.floor timestamp
  let nanosec := Arith.trunc ((timestamp - (sec : K)) * lit 1000000000)
  Stamp.ofNanoseconds (sec * 1000000000 + nanosec)

structure V3 (K : Type) where
  x : K
  y : K
  z : K
  deriving DecidableEq

structure ImuMsg (K : Type) where
  stamp : Stamp
  angularVelocity : V3 K
  linearAcceleration : V3 K
  deriving DecidableEq

def ImuMsg.sec (m : ImuMsg K) : K := getTimeSec m.stamp

/-- A point after preprocessing; `curvature` is its offset time in milliseconds. -/
structure Point (K : Type) where
  x : K
  y : K
  z : K
  curvature : K
  deriving DecidableEq

/-- A preprocessed scan.  The node keeps a pointer to the cloud; `seq`, the value
of `scan_count` at its arrival, stands for the pointer, and `stamp` is the header
stamp of the message it was made from. -/
structure Scan (K : Type) where
  seq : ℕ
  stamp : K
  points : List (Point K)
  deriving DecidableEq

/-- `MeasureGroup`: one scan and the IMU messages that go with it. -/
structure MeasureGroup (K : Type) where
  lidarBegTime : K
  lidarEndTime : K
  lidar : Scan K
  imu : List (ImuMsg K)
  deriving DecidableEq

/-- A LiDAR message: its header stamp and a body that only the preprocessing
reads. -/
structure LidarMsg (μ : Type) where
  stamp : Stamp
  body : μ
  deriving DecidableEq

/-- The parameters of the node, with `p_pre->process` as a function of the
message body. -/
structure Config (K μ : Type) where
  process : μ → List (Point K)
  timeSyncEn : Bool
  timeDiffLidarToImu : K

/-- Exact arithmetic, no time offset, and points taken as they come. -/
def plainConfig : Config ℚ (List (Point ℚ)) where
  process := id
  timeSyncEn := false
  timeDiffLidarToImu := 0

/-! ## The callbacks -/

structure State (K : Type) where
  scanCount : ℕ
  isFirstLidar : Bool
  lastTimestampLidar : K
  lastTimestampImu : K
  timediffLidarWrtImu : K
  timediffSetFlg : Bool
  lidarBuffer : List (Scan K)
  timeBuffer : List K
  imuBuffer : List (ImuMsg K)
  lidarPushed : Bool
  lidarEndTime : K
  lidarMeanScantime : K
  scanNum : ℕ
  measures : MeasureGroup K
  deriving DecidableEq

def State.init : State K where
  scanCount := 0
  isFirstLidar := true
  lastTimestampLidar := lit 0
  lastTimestampImu := lit (-1)
  timediffLidarWrtImu := lit 0
  timediffSetFlg := false
  lidarBuffer := []
  timeBuffer := []
  imuBuffer := []
  lidarPushed := false
  lidarEndTime := lit 0
  lidarMeanScantime := lit 0
  scanNum := 0
  measures := { lidarBegTime := lit 0, lidarEndTime := lit 0,
                lidar := { seq := 0, stamp := lit 0, points := [] }, imu := [] }

variable {μ : Type} (cfg : Config K μ)

/-- The test of both LiDAR callbacks that a stamp went backwards. -/
def State.loopBack (s : State K) (curTime : K) : Bool :=
  !s.isFirstLidar && decide (curTime < s.lastTimestampLidar)

def standardPclCbk (s : State K) (msg : LidarMsg μ) : State K :=
  let curTime := getTimeSec msg.stamp
  let scanCount := s.scanCount + 1
  -- the clear forgets `time_buffer`
  let lidarBuffer := if s.loopBack curTime then [] else s.lidarBuffer
  let scan := { seq := scanCount, stamp := curTime, points := cfg.process msg.body }
  { s with
    scanCount := scanCount
    isFirstLidar := false
    lidarBuffer := lidarBuffer ++ [scan]
    timeBuffer := s.timeBuffer ++ [curTime]
    lastTimestampLidar := curTime }

def livoxPclCbk (s : State K) (msg : LidarMsg μ) : State K :=
  let curTime := getTimeSec msg.stamp
  let scanCount := s.scanCount + 1
  let lidarBuffer := if s.loopBack curTime then [] else s.lidarBuffer
  let scan := { seq := scanCount, stamp := curTime, points := cfg.process msg.body }
  let selfSync := cfg.timeSyncEn && !s.timediffSetFlg
    && decide (lit 1 < fabs (curTime - s.lastTimestampImu)) && !s.imuBuffer.isEmpty
  { s with
    scanCount := scanCount
    isFirstLidar := false
    lastTimestampLidar := curTime
    timediffSetFlg := s.timediffSetFlg || selfSync
    timediffLidarWrtImu :=
      if selfSync then curTime + ratio 1 10 - s.lastTimestampImu else s.timediffLidarWrtImu
    lidarBuffer := lidarBuffer ++ [scan]
    timeBuffer := s.timeBuffer ++ [curTime] }

/-- The stamp `imu_cbk` stores a message with.  After a self-synchronisation
`rclcpp::Time` is built from a double, which it reads as nanoseconds. -/
def State.imuStamp (s : State K) (stamp : Stamp) : Stamp :=
  if ratio 1 10 < fabs s.timediffLidarWrtImu ∧ cfg.timeSyncEn then
    Stamp.ofNanoseconds (Arith.trunc (s.timediffLidarWrtImu + getTimeSec stamp))
  else getRosTime (getTimeSec stamp - cfg.timeDiffLidarToImu)

/-- The message `imu_cbk` puts into `imu_buffer`. -/
def State.imuMsg (s : State K) (msgIn : ImuMsg K) : ImuMsg K :=
  { msgIn with stamp := s.imuStamp cfg msgIn.stamp }

def imuCbk (s : State K) (msgIn : ImuMsg K) : State K :=
  let msg := s.imuMsg cfg msgIn
  let timestamp := msg.sec
  let imuBuffer := if timestamp < s.lastTimestampImu then [] else s.imuBuffer
  { s with lastTimestampImu := timestamp, imuBuffer := imuBuffer ++ [msg] }

/-! ## `sync_packages` -/

/-- The end time of a scan, estimated from the running mean when its last point
says too little, with the mean and the count it leaves. -/
def scanEnd (begTime mean : K) (scanNum : ℕ) (points : List (Point K)) : K × K × ℕ :=
  match points.getLast? with
  | none => (begTime + mean, mean, scanNum)
  | some last =>
    if points.length ≤ 1 then (begTime + mean, mean, scanNum)
    else if last.curvature / lit 1000 < ratio 1 2 * mean then (begTime + mean, mean, scanNum)
    else
      let scanNum := scanNum + 1
      (begTime + last.curvature / lit 1000,
        mean + (last.curvature / lit 1000 - mean) / lit scanNum, scanNum)

/-- The block "push a lidar scan": the fronts of the two buffers go into
`meas`, and the latch `lidar_pushed` is set. -/
def State.pushScan (s : State K) : State K :=
  match s.lidarBuffer, s.timeBuffer with
  | scan :: _, begTime :: _ =>
    let (endTime, mean, scanNum) :=
      scanEnd begTime s.lidarMeanScantime s.scanNum scan.points
    { s with
      measures := { s.measures with lidar := scan, lidarBegTime := begTime, lidarEndTime := endTime }
      lidarEndTime := endTime
      lidarMeanScantime := mean
      scanNum := scanNum
      lidarPushed := true }
  | _, _ => s

/-- The loop that moves IMU messages into `meas`: it tests the stamp read one
iteration earlier, and breaks on the stamp it has just read. -/
def drainImu (endTime : K) : K → List (ImuMsg K) → List (ImuMsg K) × List (ImuMsg K)
  | _, [] => ([], [])
  | imuTime, m :: rest =>
    if imuTime < endTime then
      if endTime < m.sec then ([], m :: rest)
      else
        let (taken, left) := drainImu endTime m.sec rest
        (m :: taken, left)
    else ([], m :: rest)

/-- "push imu data, and pop from imu buffer", and the pop of the scan. -/
def State.popPackage (s : State K) : State K :=
  match s.imuBuffer with
  | [] => s
  | front :: _ =>
    let (taken, left) := drainImu s.lidarEndTime front.sec s.imuBuffer
    { s with
      measures := { s.measures with imu := taken }
      imuBuffer := left
      lidarBuffer := s.lidarBuffer.tail
      timeBuffer := s.timeBuffer.tail
      lidarPushed := false }

/-- The state in which `sync_packages` compares the stamps. -/
def State.latched (s : State K) : State K := if s.lidarPushed then s else s.pushScan

def syncPackages (s : State K) : State K × Bool :=
  if s.lidarBuffer.isEmpty || s.imuBuffer.isEmpty then (s, false)
  else if s.latched.lastTimestampImu < s.latched.lidarEndTime then (s.latched, false)
  else (s.latched.popPackage, true)

/-! ## What the steps change -/

section Fields

variable (s : State K)

@[simp] theorem pushScan_lidarBuffer : s.pushScan.lidarBuffer = s.lidarBuffer := by
  unfold State.pushScan; split <;> rfl

@[simp] theorem pushScan_timeBuffer : s.pushScan.timeBuffer = s.timeBuffer := by
  unfold State.pushScan; split <;> rfl

@[simp] theorem pushScan_imuBuffer : s.pushScan.imuBuffer = s.imuBuffer := by
  unfold State.pushScan; split <;> rfl

@[simp] theorem pushScan_lastTimestampImu :
    s.pushScan.lastTimestampImu = s.lastTimestampImu := by
  unfold State.pushScan; split <;> rfl

@[simp] theorem pushScan_scanCount : s.pushScan.scanCount = s.scanCount := by
  unfold State.pushScan; split <;> rfl

@[simp] theorem latched_lidarBuffer : s.latched.lidarBuffer = s.lidarBuffer := by
  unfold State.latched; split <;> simp

@[simp] theorem latched_timeBuffer : s.latched.timeBuffer = s.timeBuffer := by
  unfold State.latched; split <;> simp

@[simp] theorem latched_imuBuffer : s.latched.imuBuffer = s.imuBuffer := by
  unfold State.latched; split <;> simp

@[simp] theorem latched_lastTimestampImu :
    s.latched.lastTimestampImu = s.lastTimestampImu := by
  unfold State.latched; split <;> simp

@[simp] theorem latched_scanCount : s.latched.scanCount = s.scanCount := by
  unfold State.latched; split <;> simp

@[simp] theorem popPackage_lidarEndTime : s.popPackage.lidarEndTime = s.lidarEndTime := by
  unfold State.popPackage; split <;> rfl

@[simp] theorem popPackage_lastTimestampImu :
    s.popPackage.lastTimestampImu = s.lastTimestampImu := by
  unfold State.popPackage; split <;> rfl

@[simp] theorem popPackage_scanCount : s.popPackage.scanCount = s.scanCount := by
  unfold State.popPackage; split <;> rfl

@[simp] theorem popPackage_lidar : s.popPackage.measures.lidar = s.measures.lidar := by
  unfold State.popPackage; split <;> rfl

@[simp] theorem popPackage_lidarBegTime :
    s.popPackage.measures.lidarBegTime = s.measures.lidarBegTime := by
  unfold State.popPackage; split <;> rfl

@[simp] theorem popPackage_measures_lidarEndTime :
    s.popPackage.measures.lidarEndTime = s.measures.lidarEndTime := by
  unfold State.popPackage; split <;> rfl

end Fields

/-- Everything a call of `sync_packages` can do: nothing, latch the front scan
and wait for the IMU, or deliver a package. -/
theorem syncPackages_cases (s : State K) :
    syncPackages s = (s, false) ∨
    (syncPackages s = (s.latched, false) ∧ s.lidarBuffer ≠ []) ∨
    (syncPackages s = (s.latched.popPackage, true) ∧ s.lidarBuffer ≠ [] ∧
      s.imuBuffer ≠ [] ∧ s.latched.lidarEndTime ≤ s.lastTimestampImu) := by
  rw [syncPackages]
  by_cases hempty : (s.lidarBuffer.isEmpty || s.imuBuffer.isEmpty) = true
  · rw [if_pos hempty]
    exact .inl rfl
  · rw [if_neg hempty]
    simp only [Bool.or_eq_true, List.isEmpty_iff, not_or] at hempty
    by_cases hwait : s.latched.lastTimestampImu < s.latched.lidarEndTime
    · rw [if_pos hwait]
      exact .inr (.inl ⟨rfl, hempty.1⟩)
    · rw [if_neg hwait]
      rw [latched_lastTimestampImu] at hwait
      exact .inr (.inr ⟨rfl, hempty.1, hempty.2, not_lt.mp hwait⟩)

/-! ## Runs -/

inductive Event (K μ : Type) where
  | standardPcl (msg : LidarMsg μ)
  | livoxPcl (msg : LidarMsg μ)
  | imu (msg : ImuMsg K)
  | sync
  deriving DecidableEq

/-- What a step shows: the message an `imu_cbk` stored, or the package a
successful `sync_packages` delivered. -/
inductive Output (K : Type) where
  | quiet
  | stored (msg : ImuMsg K)
  | package (meas : MeasureGroup K)
  deriving DecidableEq

def step (s : State K) : Event K μ → State K × Output K
  | .standardPcl msg => (standardPclCbk cfg s msg, .quiet)
  | .livoxPcl msg => (livoxPclCbk cfg s msg, .quiet)
  | .imu msg => (imuCbk cfg s msg, .stored (s.imuMsg cfg msg))
  | .sync =>
    match syncPackages s with
    | (s', true) => (s', .package s'.measures)
    | (s', false) => (s', .quiet)

def buffers : Machine (State K) (Event K μ) (Output K) where
  init := State.init
  step := step cfg

@[simp] theorem buffers_next_standardPcl (s : State K) (msg : LidarMsg μ) :
    (buffers cfg).next s (.standardPcl msg) = standardPclCbk cfg s msg := rfl

@[simp] theorem buffers_next_livoxPcl (s : State K) (msg : LidarMsg μ) :
    (buffers cfg).next s (.livoxPcl msg) = livoxPclCbk cfg s msg := rfl

@[simp] theorem buffers_next_imu (s : State K) (msg : ImuMsg K) :
    (buffers cfg).next s (.imu msg) = imuCbk cfg s msg := rfl

@[simp] theorem buffers_next_sync (s : State K) :
    (buffers cfg).next s .sync = (syncPackages s).1 := by
  simp only [Machine.next, buffers, step]
  rcases syncPackages s with ⟨s', _ | _⟩ <;> rfl

theorem buffers_out_sync (s : State K) :
    (buffers cfg).out s .sync =
      if (syncPackages s).2 then .package (syncPackages s).1.measures else .quiet := by
  simp only [Machine.out, buffers, step]
  rcases syncPackages s with ⟨s', _ | _⟩ <;> rfl

end LaserMapping
end RobotNav
