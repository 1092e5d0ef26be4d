/-
The data the driver's threads share: points, the configuration of a LiDAR, and the
ring buffer of point-cloud frames between the decoder and the publisher.
-/
import RobotNav.Library.Arith

namespace RobotNav
namespace LivoxDriver

/-- Slots of `lidars_` and of a `PointFrame`. -/
def kMaxSourceLidar : ℕ := 32

def kNsPerSecond : ℤ := 1000000000

def kNsTolerantFrameTimeDeviation : UInt64 := 1000000

def kRatioOfMsToNs : UInt64 := 1000000

/-- A decoded point.  `offset_time` is the full stamp until the message is
filled; the code keeps the reflectivity in a float. -/
structure PointXyzlt (K : Type) where
  x : K
  y : K
  z : K
  intensity : UInt8
  tag : UInt8
  line : UInt8
  offsetTime : UInt64
  deriving DecidableEq

/-- The points of one LiDAR in a `PointFrame`, with its entry of `base_time`. -/
structure PointPacket (K : Type) where
  handle : UInt32
  baseTime : UInt64
  points : List (PointXyzlt K)

structure StoragePacket (K : Type) where
  baseTime : UInt64
  points : List (PointXyzlt K)
  deriving DecidableEq

/-- Angles in degrees, translation in millimetres. -/
structure ExtParameter (K : Type) where
  roll : K
  pitch : K
  yaw : K
  x : Int32
  y : Int32
  z : Int32
  deriving DecidableEq

structure UserLivoxLidarConfig (K : Type) where
  handle : UInt32
  pclDataType : Int8
  patternMode : Int8
  blindSpotSet : Int32
  dualEmitEn : Int8
  extrinsicParam : ExtParameter K
  setBits : UInt32
  deriving DecidableEq

inductive LidarConnectState where
  | off
  | on
  | config
  | sampling
  deriving DecidableEq

/-! ## The queue of frames -/

/-- `storage_packet` is null until the queue is initialised. -/
structure LidarDataQueue (K : Type) where
  storagePacket : Option (UInt32 → StoragePacket K)
  rdIdx : UInt32
  wrIdx : UInt32
  mask : UInt32
  size : UInt32

variable {K : Type}

def isPowerOf2 (size : UInt32) : Bool := size != 0 && (size &&& (size - 1)) == 0

/-- The first power of two the loop finds large enough, else the last one. -/
def roundupPowerOf2 (size : UInt32) : UInt32 :=
  (((List.range 32).map fun i => (1 : UInt32) <<< UInt32.ofNat i).find?
    fun power => decide (size ≤ power)).getD ((1 : UInt32) <<< 31)

def initQueue (queueSize : UInt32) : LidarDataQueue K :=
  let queueSize := if isPowerOf2 queueSize then queueSize else roundupPowerOf2 queueSize
  { storagePacket := some fun _ => ⟨0, []⟩
    rdIdx := 0
    wrIdx := 0
    size := queueSize
    mask := queueSize - 1 }

def LidarDataQueue.unset : LidarDataQueue K := ⟨none, 0, 0, 0, 0⟩

namespace LidarDataQueue

variable (q : LidarDataQueue K)

def queueIsEmpty : Bool := q.rdIdx == q.wrIdx

def queueIsFull : Bool := decide (q.mask < q.wrIdx - q.rdIdx)

def queuePushAny (packet : StoragePacket K) : LidarDataQueue K :=
  match q.storagePacket with
  | none => q
  | some slots =>
    { q with
      storagePacket := some (Function.update slots (q.wrIdx &&& q.mask) packet)
      wrIdx := q.wrIdx + 1 }

/-- The packet at the front, which `QueuePop` also removes. -/
def queuePop : Option (StoragePacket K × LidarDataQueue K) :=
  match q.storagePacket with
  | none => none
  | some slots =>
    if q.queueIsEmpty then none
    else some (slots (q.rdIdx &&& q.mask), { q with rdIdx := q.rdIdx + 1 })

end LidarDataQueue

structure LidarDevice (K : Type) where
  handle : UInt32
  connectState : LidarConnectState
  data : LidarDataQueue K
  livoxConfig : UserLivoxLidarConfig K

end LivoxDriver
end RobotNav
