/-
`PubHandler` and `LidarPubHandler`: packets of raw points into extrinsic-corrected
points, and the points waiting of each LiDAR into frames.

Coordinates are exact; the sine and the cosine are parameters.
-/
import Mathlib.Data.Fin.VecNotation
import Mathlib.Data.List.Sort
import RobotNav.LivoxDriver.Comm

namespace RobotNav
namespace LivoxDriver

/-- The functions of the maths library the decoders call. -/
structure Trig (K : Type) where
  sin : K → K
  cos : K → K

/-! ## Packets -/

structure LivoxLidarCartesianHighRawPoint where
  x : Int32
  y : Int32
  z : Int32
  reflectivity : UInt8
  tag : UInt8

structure LivoxLidarCartesianLowRawPoint where
  x : Int16
  y : Int16
  z : Int16
  reflectivity : UInt8
  tag : UInt8

structure LivoxLidarSpherPoint where
  depth : UInt32
  theta : UInt16
  phi : UInt16
  reflectivity : UInt8
  tag : UInt8

/-- `data_type`, with `raw_data` read as the array of points the decoder of that
type casts it to. -/
inductive RawData where
  | cartesianHigh (raw : ℕ → LivoxLidarCartesianHighRawPoint)
  | cartesianLow (raw : ℕ → LivoxLidarCartesianLowRawPoint)
  | spherical (raw : ℕ → LivoxLidarSpherPoint)
  | unknown

structure RawPacket where
  handle : UInt32
  extrinsicEnable : Bool
  pointNum : UInt32
  lineNum : UInt8
  timeStamp : UInt64
  pointInterval : UInt64
  data : RawData

/-- The stamps the decoders give the points of a packet. -/
def RawPacket.stamps (pkt : RawPacket) : List UInt64 :=
  match pkt.data with
  | .unknown => []
  | _ => (List.range pkt.pointNum.toNat).map fun i =>
      pkt.timeStamp + UInt64.ofNat i * pkt.pointInterval

theorem RawPacket.stamps_head {pkt : RawPacket} {t : UInt64} {rest : List UInt64}
    (h : pkt.stamps = t :: rest) : t = pkt.timeStamp := by
  have hrange : pkt.stamps = [] ∨ pkt.stamps = (List.range pkt.pointNum.toNat).map fun i =>
      pkt.timeStamp + UInt64.ofNat i * pkt.pointInterval := by
    unfold stamps
    cases pkt.data with
    | unknown => exact .inl rfl
    | _ => exact .inr rfl
  rcases hrange with hnil | hmap
  · rw [hnil] at h
    cases h
  · rw [hmap] at h
    cases hn : pkt.pointNum.toNat with
    | zero =>
      rw [hn] at h
      cases h
    | succ n =>
      rw [hn, List.range_succ_eq_map, List.map_cons] at h
      rw [← (List.cons.inj h).1]
      simp

inductive TimestampType where
  | noSync
  | gptpOrPtp
  | gps
  | other
  deriving DecidableEq

inductive LivoxLidarDeviceType where
  | industrialHAP
  | mid360
  | other

/-- A `LivoxLidarEthernetPacket` of points, as the SDK hands it over. -/
structure EthernetPacket where
  handle : UInt32
  devType : LivoxLidarDeviceType
  timeType : TimestampType
  timestamp : UInt64
  timeInterval : UInt16
  dotNum : UInt16
  data : RawData

/-- `GetEthPacketTimestamp`; `now` is the host's clock. -/
def getEthPacketTimestamp (timeType : TimestampType) (timestamp now : UInt64) : UInt64 :=
  match timeType with
  | .gptpOrPtp | .gps => timestamp
  | .noSync | .other => now

def EthernetPacket.lineNum : LivoxLidarDeviceType → UInt8
  | .industrialHAP => 6
  | .mid360 => 4
  | .other => 1

/-- The packet `OnLivoxLidarPointCloudCallback` queues.  The code stops at a
division by zero when `dot_num` is zero; here such a packet has no points. -/
def EthernetPacket.raw (pkt : EthernetPacket) (now : UInt64) : RawPacket where
  handle := pkt.handle
  extrinsicEnable := false
  pointNum := pkt.dotNum.toUInt32
  lineNum := EthernetPacket.lineNum pkt.devType
  timeStamp := getEthPacketTimestamp pkt.timeType pkt.timestamp now
  pointInterval := UInt64.ofNat (pkt.timeInterval.toNat * 100 / pkt.dotNum.toNat)
  data := pkt.data

/-! ## `LidarPubHandler` -/

structure ExtParameterDetailed (K : Type) where
  trans : Fin 3 → K
  rotation : Fin 3 → Fin 3 → K

variable {K : Type} [Arith K]

/-- The initialiser of `extrinsic_`. -/
def ExtParameterDetailed.initial : ExtParameterDetailed K where
  trans := ![lit 0, lit 0, lit 0]
  rotation := ![![lit 1, lit 0, lit 0], ![lit 0, lit 1, lit 1], ![lit 0, lit 0, lit 1]]

structure LidarPubHandler (K : Type) where
  pointsClouds : List (PointXyzlt K)
  extrinsic : ExtParameterDetailed K
  isSetExtrinsicParams : Bool

def LidarPubHandler.create : LidarPubHandler K := ⟨[], .initial, false⟩

/-- A sine and a cosine that are right at zero. -/
def restTrig : Trig K := ⟨fun _ => lit 0, fun _ => lit 1⟩

/-- `PI`. -/
def piConst : K := ratio 314159265358979323846 100000000000000000000

namespace LidarPubHandler

variable (trig : Trig K)

def setLidarsExtParam (h : LidarPubHandler K) (param : ExtParameter K) : LidarPubHandler K :=
  if h.isSetExtrinsicParams then h
  else
    let cosRoll := trig.cos (param.roll * piConst / lit 180)
    let cosPitch := trig.cos (param.pitch * piConst / lit 180)
    let cosYaw := trig.cos (param.yaw * piConst / lit 180)
    let sinRoll := trig.sin (param.roll * piConst / lit 180)
    let sinPitch := trig.sin (param.pitch * piConst / lit 180)
    let sinYaw := trig.sin (param.yaw * piConst / lit 180)
    { h with
      extrinsic :=
        { trans := ![lit param.x.toInt, lit param.y.toInt, lit param.z.toInt]
          rotation := ![
            ![cosPitch * cosYaw, sinRoll * sinPitch * cosYaw - cosRoll * sinYaw,
              cosRoll * sinPitch * cosYaw + sinRoll * sinYaw],
            ![cosPitch * sinYaw, sinRoll * sinPitch * sinYaw + cosRoll * cosYaw,
              cosRoll * sinPitch * sinYaw - sinRoll * cosYaw],
            ![-sinPitch, sinRoll * cosPitch, cosRoll * cosPitch]] }
      isSetExtrinsicParams := true }

/-- The points the loop of a decoder pushes; `coords` and the two bytes are what it
computes of `raw[i]`. -/
def pushedPoints (pkt : RawPacket) (coords : ℕ → Fin 3 → K) (reflectivity tag : ℕ → UInt8) :
    List (PointXyzlt K) :=
  (List.range pkt.pointNum.toNat).map fun i =>
    { x := coords i 0
      y := coords i 1
      z := coords i 2
      intensity := reflectivity i
      tag := tag i
      line := UInt8.ofNat (i % pkt.lineNum.toNat)
      offsetTime := pkt.timeStamp + UInt64.ofNat i * pkt.pointInterval }

/-- Row `j` of the rotation applied to a point. -/
def rotated (e : ExtParameterDetailed K) (p : Fin 3 → K) (j : Fin 3) : K :=
  p 0 * e.rotation j 0 + p 1 * e.rotation j 1 + p 2 * e.rotation j 2

def processCartesianHighPoint (h : LidarPubHandler K) (pkt : RawPacket)
    (raw : ℕ → LivoxLidarCartesianHighRawPoint) : List (PointXyzlt K) :=
  let p (i : ℕ) : Fin 3 → K := ![lit (raw i).x.toInt, lit (raw i).y.toInt, lit (raw i).z.toInt]
  pushedPoints pkt
    (fun i j => if pkt.extrinsicEnable then p i j / lit 1000
      else (rotated h.extrinsic (p i) j + h.extrinsic.trans j) / lit 1000)
    (fun i => (raw i).reflectivity) (fun i => (raw i).tag)

def processCartesianLowPoint (h : LidarPubHandler K) (pkt : RawPacket)
    (raw : ℕ → LivoxLidarCartesianLowRawPoint) : List (PointXyzlt K) :=
  let p (i : ℕ) : Fin 3 → K := ![lit (raw i).x.toInt, lit (raw i).y.toInt, lit (raw i).z.toInt]
  pushedPoints pkt
    (fun i j => if pkt.extrinsicEnable then p i j / lit 100
      else (rotated h.extrinsic (p i) j + h.extrinsic.trans j) / lit 100)
    (fun i => (raw i).reflectivity) (fun i => (raw i).tag)

/-- `src_x`, `src_y` and `src_z`. -/
def sphericalSource (raw : LivoxLidarSpherPoint) : Fin 3 → K :=
  let radius : K := lit raw.depth.toNat / lit 1000
  let theta : K := lit raw.theta.toNat / lit 100 / lit 180 * piConst
  let phi : K := lit raw.phi.toNat / lit 100 / lit 180 * piConst
  ![radius * trig.sin theta * trig.cos phi, radius * trig.sin theta * trig.sin phi,
    radius * trig.cos theta]

def processSphericalPoint (h : LidarPubHandler K) (pkt : RawPacket)
    (raw : ℕ → LivoxLidarSpherPoint) : List (PointXyzlt K) :=
  pushedPoints pkt
    (fun i j => if pkt.extrinsicEnable then sphericalSource trig (raw i) j
      else rotated h.extrinsic (sphericalSource trig (raw i)) j + h.extrinsic.trans j / lit 1000)
    (fun i => (raw i).reflectivity) (fun i => (raw i).tag)

/-- What `LivoxLidarPointCloudProcess` appends to `points_clouds_`. -/
def decodedPoints (h : LidarPubHandler K) (pkt : RawPacket) : List (PointXyzlt K) :=
  match pkt.data with
  | .cartesianHigh raw => h.processCartesianHighPoint pkt raw
  | .cartesianLow raw => h.processCartesianLowPoint pkt raw
  | .spherical raw => h.processSphericalPoint trig pkt raw
  | .unknown => []

theorem decodedPoints_stamps (h : LidarPubHandler K) (pkt : RawPacket) :
    (h.decodedPoints trig pkt).map PointXyzlt.offsetTime = pkt.stamps := by
  unfold decodedPoints RawPacket.stamps
  cases pkt.data with
  | cartesianHigh raw => exact List.map_map
  | cartesianLow raw => exact List.map_map
  | spherical raw => exact List.map_map
  | unknown => rfl

def livoxLidarPointCloudProcess (h : LidarPubHandler K) (pkt : RawPacket) : LidarPubHandler K :=
  { h with pointsClouds := h.pointsClouds ++ h.decodedPoints trig pkt }

variable (h : LidarPubHandler K)

def getLidarBaseTime : UInt64 := (h.pointsClouds.head?.map PointXyzlt.offsetTime).getD 0

def getRecentTimeStamp : UInt64 := (h.pointsClouds.getLast?.map PointXyzlt.offsetTime).getD 0

/-- What `CheckTimer` does with a LiDAR when it cuts a frame: its points leave
through the swap in `GetLidarPointClouds`, and make a packet if there are any. -/
def cutFrame (id : UInt32) : LidarPubHandler K × Option (PointPacket K) :=
  ({ h with pointsClouds := [] },
    if h.pointsClouds.isEmpty then none
    else some { handle := id, baseTime := h.getLidarBaseTime, points := h.pointsClouds })

end LidarPubHandler

/-! ## `PubHandler` -/

/-- The maps by LiDAR id are functions, with the ids of `lidar_process_handlers_`
in order beside them.  `last_pub_time_` is in nanoseconds. -/
structure PubHandler (K : Type) where
  publishInterval : UInt64
  isTimestampSync : Bool
  rawPacketQueue : List RawPacket
  handlerIds : List UInt32
  lidarProcessHandlers : UInt32 → LidarPubHandler K
  lidarExtrinsics : UInt32 → Option (ExtParameter K)
  first : Bool
  lastPubTime : ℤ
  /-- A slot behind the arrays of `frame_` has been written. -/
  overrun : Bool

namespace PubHandler

/-- `publish_interval_` as `SetPointCloudConfig` sets it. -/
def intervalOf (publishFreq : K) : UInt64 :=
  UInt64.ofInt (Arith.trunc (lit kNsPerSecond / (publishFreq * lit 10) * lit 10))

def create (publishFreq : K) : PubHandler K where
  publishInterval := intervalOf publishFreq
  isTimestampSync := false
  rawPacketQueue := []
  handlerIds := []
  lidarProcessHandlers := fun _ => .create
  lidarExtrinsics := fun _ => none
  first := true
  lastPubTime := 0
  overrun := false

variable (p : PubHandler K)

def publishIntervalTolerance : UInt64 := p.publishInterval - kNsTolerantFrameTimeDeviation

def publishIntervalMs : UInt64 := p.publishInterval / kRatioOfMsToNs

def addLidarsExtParam (id : UInt32) (param : ExtParameter K) : PubHandler K :=
  { p with lidarExtrinsics := Function.update p.lidarExtrinsics id (some param) }

/-- A packet of IMU data sets `is_timestamp_sync_` too, and goes elsewhere. -/
def onLivoxLidarImuPacket (timeType : TimestampType) : PubHandler K :=
  { p with isTimestampSync := timeType != .noSync }

def onLivoxLidarPointCloudCallback (pkt : EthernetPacket) (now : UInt64) : PubHandler K :=
  { p with
    isTimestampSync := pkt.timeType != .noSync
    rawPacketQueue := p.rawPacketQueue ++ [pkt.raw now] }

/-- The slots of `frame_` a cut of some LiDARs writes, from `lidar_num` on.  The base
time goes into the slot before it is known whether there are points to take it. -/
def frameSlots : List UInt32 → ℕ → List ℕ
  | [], _ => []
  | id :: rest, lidarNum =>
    lidarNum :: frameSlots rest
      (if (p.lidarProcessHandlers id).pointsClouds.isEmpty then lidarNum else lidarNum + 1)

/-- `CheckTimer`: the frame it publishes, if it gets that far.  With stamps from a
common clock only the LiDAR of the last packet is cut, and when its newest stamp
is a multiple of the interval in milliseconds; without, all of them are, by the
host's clock. -/
def checkTimer (id : UInt32) (now : ℤ) : PubHandler K × Option (List (PointPacket K)) :=
  if p.isTimestampSync then
    let h := p.lidarProcessHandlers id
    let recentTimeMs := h.getRecentTimeStamp / kRatioOfMsToNs
    if recentTimeMs % p.publishIntervalMs != 0 || recentTimeMs == 0 then (p, none)
    else if h.getRecentTimeStamp - h.getLidarBaseTime < p.publishIntervalTolerance then (p, none)
    else
      ({ p with
          lidarProcessHandlers := Function.update p.lidarProcessHandlers id (h.cutFrame id).1 },
        (h.cutFrame id).2.map fun packet => [packet])
  else if p.first then ({ p with first := false, lastPubTime := now }, none)
  else if now - p.lastPubTime < p.publishInterval.toNat then (p, none)
  else
    ({ p with
        lastPubTime := p.lastPubTime + p.publishInterval.toNat
        lidarProcessHandlers := fun id =>
          if id ∈ p.handlerIds then ((p.lidarProcessHandlers id).cutFrame id).1
          else p.lidarProcessHandlers id
        overrun := p.overrun || (p.frameSlots p.handlerIds 0).any (kMaxSourceLidar ≤ ·) },
      some (p.handlerIds.filterMap fun id => ((p.lidarProcessHandlers id).cutFrame id).2))

omit [Arith K] in
/-- Everything `CheckTimer` can do: cut nothing, the LiDAR of the packet, or all of
them. -/
theorem checkTimer_cases (id : UInt32) (now : ℤ) :
    (∃ first lastPubTime, p.checkTimer id now =
      ({ p with first := first, lastPubTime := lastPubTime }, none)) ∨
    p.checkTimer id now =
      ({ p with
          lidarProcessHandlers := Function.update p.lidarProcessHandlers id
            ((p.lidarProcessHandlers id).cutFrame id).1 },
        ((p.lidarProcessHandlers id).cutFrame id).2.map fun packet => [packet]) ∨
    p.isTimestampSync = false ∧ p.checkTimer id now =
      ({ p with
          lastPubTime := p.lastPubTime + p.publishInterval.toNat
          lidarProcessHandlers := fun id =>
            if id ∈ p.handlerIds then ((p.lidarProcessHandlers id).cutFrame id).1
            else p.lidarProcessHandlers id
          overrun := p.overrun || (p.frameSlots p.handlerIds 0).any (kMaxSourceLidar ≤ ·) },
        some (p.handlerIds.filterMap fun id => ((p.lidarProcessHandlers id).cutFrame id).2)) := by
  simp only [checkTimer]
  split_ifs with hsync
  · exact .inl ⟨p.first, p.lastPubTime, rfl⟩
  · exact .inl ⟨p.first, p.lastPubTime, rfl⟩
  · exact .inr (.inl rfl)
  · exact .inl ⟨false, now, rfl⟩
  · exact .inl ⟨p.first, p.lastPubTime, rfl⟩
  · exact .inr (.inr ⟨Bool.eq_false_iff.mpr hsync, rfl⟩)

/-- `lidar_process_handlers_[id]` exists from the first packet of a LiDAR on. -/
def noteHandler (id : UInt32) : PubHandler K :=
  if id ∈ p.handlerIds then p
  else
    { p with
      handlerIds := p.handlerIds.orderedInsert (· ≤ ·) id
      lidarProcessHandlers := Function.update p.lidarProcessHandlers id .create }

theorem noteHandler_ne {id other : UInt32} (hne : other ≠ id) :
    (p.noteHandler id).lidarProcessHandlers other = p.lidarProcessHandlers other := by
  unfold noteHandler
  split_ifs
  · rfl
  · exact Function.update_of_ne hne _ _

/-- A handler that was there keeps its points, a new one has none. -/
theorem noteHandler_pointsClouds (id : UInt32) :
    ((p.noteHandler id).lidarProcessHandlers id).pointsClouds = [] ∨
      (p.noteHandler id).lidarProcessHandlers id = p.lidarProcessHandlers id := by
  unfold noteHandler
  split_ifs
  · exact .inr rfl
  · left
    simp [LidarPubHandler.create]

/-- The first stamp that will wait for the LiDAR of a packet once it is decoded. -/
def firstStamp (pkt : RawPacket) : UInt64 :=
  (((p.noteHandler pkt.handle).lidarProcessHandlers pkt.handle).pointsClouds.head?.map
    PointXyzlt.offsetTime).getD pkt.timeStamp

/-- The handler of a packet, with the extrinsics of its LiDAR if it had none yet. -/
def handlerOf (trig : Trig K) (pkt : RawPacket) : LidarPubHandler K :=
  let h := (p.noteHandler pkt.handle).lidarProcessHandlers pkt.handle
  match p.lidarExtrinsics pkt.handle with
  | some param => h.setLidarsExtParam trig param
  | none => h

/-- The extrinsics touch no point. -/
theorem handlerOf_pointsClouds (trig : Trig K) (pkt : RawPacket) :
    (p.handlerOf trig pkt).pointsClouds =
      ((p.noteHandler pkt.handle).lidarProcessHandlers pkt.handle).pointsClouds := by
  unfold handlerOf
  cases p.lidarExtrinsics pkt.handle with
  | none => rfl
  | some param =>
    simp only [LidarPubHandler.setLidarsExtParam]
    split_ifs <;> rfl

theorem handlerOf_pop (trig : Trig K) (rest : List RawPacket) (pkt : RawPacket) :
    PubHandler.handlerOf { p with rawPacketQueue := rest } trig pkt = p.handlerOf trig pkt := by
  have hnote : (PubHandler.noteHandler { p with rawPacketQueue := rest }
      pkt.handle).lidarProcessHandlers = (p.noteHandler pkt.handle).lidarProcessHandlers := by
    unfold noteHandler
    split_ifs <;> rfl
  unfold handlerOf
  rw [hnote]

def decodePacket (trig : Trig K) (pkt : RawPacket) : PubHandler K :=
  { p.noteHandler pkt.handle with
    lidarProcessHandlers := Function.update (p.noteHandler pkt.handle).lidarProcessHandlers
      pkt.handle ((p.handlerOf trig pkt).livoxLidarPointCloudProcess trig pkt) }

/-- The packet the next round decodes, and the points it stores. -/
def nextDecoded (trig : Trig K) : Option (RawPacket × List (PointXyzlt K)) :=
  p.rawPacketQueue.head?.map fun pkt => (pkt, (p.handlerOf trig pkt).decodedPoints trig pkt)

/-- One round of `RawDataProcess`. -/
def rawDataProcess (trig : Trig K) (now : ℤ) : PubHandler K × Option (List (PointPacket K)) :=
  match p.rawPacketQueue with
  | [] => (p, none)
  | pkt :: rest =>
    (PubHandler.decodePacket { p with rawPacketQueue := rest } trig pkt).checkTimer pkt.handle now

end PubHandler

end LivoxDriver
end RobotNav
