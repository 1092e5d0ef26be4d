/-
The driver as a whole: the devices and their configuration requests, the decoder
thread and the publisher.

One step is one callback of the SDK, one round of the decoder thread, or one
packet taken from a queue by the publisher.
-/
import RobotNav.Library.Machine
import RobotNav.LivoxDriver.PubHandler

namespace RobotNav
namespace LivoxDriver

variable {K : Type} [Arith K]

/-! ## The configuration file -/

structure ExtrinsicJson (K : Type) where
  roll : Option K
  pitch : Option K
  yaw : Option K
  x : Option ℤ
  y : Option ℤ
  z : Option ℤ

/-- An entry of `lidar_configs`; the address is already a handle. -/
structure LidarConfigJson (K : Type) where
  ip : Option UInt32
  pclDataType : Option ℤ
  patternMode : Option ℤ
  blindSpotSet : Option ℤ
  dualEmitEn : Option ℤ
  extrinsicParameter : Option (ExtrinsicJson K)

def ExtParameter.zero : ExtParameter K := ⟨lit 0, lit 0, lit 0, 0, 0, 0⟩

def ExtrinsicJson.parse (value : ExtrinsicJson K) : ExtParameter K where
  roll := value.roll.getD (lit 0)
  pitch := value.pitch.getD (lit 0)
  yaw := value.yaw.getD (lit 0)
  x := Int32.ofInt (value.x.getD 0)
  y := Int32.ofInt (value.y.getD 0)
  z := Int32.ofInt (value.z.getD 0)

/-- One entry of `ParseUserConfigs`; an option that is missing is -1. -/
def LidarConfigJson.parse (config : LidarConfigJson K) : Option (UserLivoxLidarConfig K) :=
  config.ip.map fun handle =>
    { handle := handle
      pclDataType := (config.pclDataType.map Int8.ofInt).getD (-1)
      patternMode := (config.patternMode.map Int8.ofInt).getD (-1)
      blindSpotSet := (config.blindSpotSet.map fun n => (Int8.ofInt n).toInt32).getD (-1)
      dualEmitEn := (config.dualEmitEn.map Int8.ofInt).getD (-1)
      extrinsicParam := (config.extrinsicParameter.map ExtrinsicJson.parse).getD .zero
      setBits := 0 }

/-! ## The devices -/

/-- `cache_index_` and `lidars_`: the handles that have a slot, in the order of
the slots, and the device behind a handle. -/
structure LdsLidar (K : Type) where
  publishFreq : K
  handles : List UInt32
  lidars : UInt32 → LidarDevice K

def LidarDevice.reset : LidarDevice K where
  handle := 0
  connectState := .off
  data := .unset
  livoxConfig := ⟨0, 0, 0, 0, 0, .zero, 0⟩

namespace LdsLidar

variable (lds : LdsLidar K)

/-- `GetFreeIndex`. -/
def getFreeIndex (handle : UInt32) : Option (LdsLidar K) :=
  if handle ∈ lds.handles then some lds
  else if lds.handles.length < kMaxSourceLidar then
    some { lds with handles := lds.handles ++ [handle] }
  else none

def setLidar (handle : UInt32) (device : LidarDevice K) : LdsLidar K :=
  { lds with lidars := Function.update lds.lidars handle device }

omit [Arith K] in
@[simp] theorem setLidar_self (handle : UInt32) (device : LidarDevice K) :
    (lds.setLidar handle device).lidars handle = device := by
  simp [setLidar]

omit [Arith K] in
@[simp] theorem setLidar_ne {handle other : UInt32} (hne : other ≠ handle)
    (device : LidarDevice K) : (lds.setLidar handle device).lidars other = lds.lidars other := by
  simp [setLidar, Function.update_of_ne hne]

def calculatePacketQueueSize (publishFreq : K) : UInt32 :=
  if lit 10 < publishFreq then UInt32.ofInt (Arith.trunc publishFreq) + 1 else 10

/-- `PushLidarData`: a full queue drops the packet. -/
def pushLidarData (packet : PointPacket K) : LdsLidar K :=
  let device := lds.lidars packet.handle
  let queue := match device.data.storagePacket with
    | none => initQueue (calculatePacketQueueSize lds.publishFreq)
    | some _ => device.data
  let queue := if queue.queueIsFull then queue
    else queue.queuePushAny { baseTime := packet.baseTime, points := packet.points }
  lds.setLidar packet.handle { device with data := queue }

/-- `StoragePointData`. -/
def storagePointData (frame : List (PointPacket K)) : LdsLidar K :=
  frame.foldl (fun lds packet =>
    if packet.handle ∈ lds.handles then lds.pushLidarData packet else lds) lds

/-- The LiDARs whose queues a call of `DistributePointCloudData` polls. -/
def distributePointCloudData : List UInt32 :=
  lds.handles.filter fun handle => decide ((lds.lidars handle).connectState = .sampling)

end LdsLidar

/-- `lidar_param`: the extrinsics the decoder is given, in centimetres for the short
data type. -/
def UserLivoxLidarConfig.lidarParam (config : UserLivoxLidarConfig K) : ExtParameter K :=
  let ext := config.extrinsicParam
  if config.pclDataType == 2 then { ext with x := ext.x / 10, y := ext.y / 10, z := ext.z / 10 }
  else ext

/-- `InitLivoxLidar`: a slot for each configured LiDAR, and its extrinsics to the
decoder. -/
def initLivoxLidar (acc : LdsLidar K × PubHandler K) (config : UserLivoxLidarConfig K) :
    LdsLidar K × PubHandler K :=
  match acc.1.getFreeIndex config.handle with
  | none => acc
  | some lds =>
    (lds.setLidar config.handle
        { lds.lidars config.handle with livoxConfig := config, handle := config.handle },
      acc.2.addLidarsExtParam config.handle config.lidarParam)

/-! ## The configuration requests -/

/-- The asynchronous requests of the SDK. -/
inductive Request where
  | pclDataType
  | scanPattern
  | blindSpot
  | dualEmit
  | installAttitude
  | workMode
  | imuData
  deriving DecidableEq

/-- `LivoxLidarConfigCodeBit`. -/
def Request.bit : Request → UInt32
  | .pclDataType => 1
  | .scanPattern => 2
  | .blindSpot => 4
  | .dualEmit => 8
  | _ => 0

/-- The requests with a bit in `set_bits`, as `LidarInfoChangeCallback` orders
them. -/
def Request.tracked : List Request := [.pclDataType, .scanPattern, .blindSpot, .dualEmit]

/-- An option of the configuration is there. -/
def UserLivoxLidarConfig.wants (config : UserLivoxLidarConfig K) : Request → Bool
  | .pclDataType => config.pclDataType != -1
  | .scanPattern => config.patternMode != -1
  | .blindSpot => config.blindSpotSet != -1
  | .dualEmit => config.dualEmitEn != -1
  | _ => true

inductive LivoxStatus where
  | success
  | timeout
  | failure
  deriving DecidableEq

/-! ## Messages -/

structure CustomPoint (K : Type) where
  offsetTime : UInt32
  x : K
  y : K
  z : K
  reflectivity : UInt8
  tag : UInt8
  line : UInt8

structure CustomMsg (K : Type) where
  timebase : UInt64
  lidarId : UInt32
  points : List (CustomPoint K)

/-- `InitCustomMsg` and `FillPointsToCustomMsg`. -/
def customMsg (lidarId : UInt32) (pkg : StoragePacket K) : CustomMsg K where
  timebase := pkg.baseTime
  lidarId := lidarId
  points := pkg.points.map fun p =>
    { offsetTime := (p.offsetTime - pkg.baseTime).toUInt32
      x := p.x
      y := p.y
      z := p.z
      reflectivity := p.intensity
      tag := p.tag
      line := p.line }

/-! ## Steps -/

structure Driver (K : Type) where
  pub : PubHandler K
  lds : LdsLidar K
  /-- Requests the SDK has not answered. -/
  outstanding : List (UInt32 × Request)
  /-- Requests that ended without success and were not made again. -/
  failed : List (UInt32 × Request)
  /-- Options requested of the device since it last acknowledged them. -/
  unacknowledged : List (UInt32 × Request)
  /-- The LiDARs `LidarInfoChangeCallback` has run for. -/
  informed : List UInt32

inductive Event where
  | lidarInfoChange (handle : UInt32)
  | reply (handle : UInt32) (request : Request) (status : LivoxStatus) (response : Bool)
  | pointPacket (pkt : EthernetPacket) (now : UInt64)
  | imuPacket (timeType : TimestampType)
  | rawDataProcess (now : ℤ)
  | publishCustomPointcloud (handle : UInt32)

variable (trig : Trig K)

namespace Driver

variable (s : Driver K)

/-- The block of `LidarInfoChangeCallback` under `config_mutex_`: the bits of the
options that are there. -/
def requestedBits (config : UserLivoxLidarConfig K) : UInt32 :=
  (Request.tracked.filter config.wants).foldl (fun bits r => bits ||| r.bit) config.setBits

def ask (handle : UInt32) (rs : List Request) : Driver K :=
  { s with outstanding := s.outstanding ++ rs.map fun r => (handle, r) }

def lidarInfoChange (handle : UInt32) : Driver K :=
  if handle ∈ s.lds.handles then
    let device := s.lds.lidars handle
    let config := device.livoxConfig
    let lds := s.lds.setLidar handle
      { device with livoxConfig := { config with setBits := requestedBits config } }
    let wanted := Request.tracked.filter config.wants
    let s := Driver.ask
      { s with
        lds := lds
        informed := handle :: s.informed
        unacknowledged := s.unacknowledged ++ wanted.map fun r => (handle, r) } handle wanted
    (s.ask config.handle [.installAttitude]).ask handle [.workMode, .imuData]
  else
    match s.lds.getFreeIndex handle with
    | none => s
    | some lds =>
      Driver.ask { s with lds := lds, informed := handle :: s.informed } handle
        [.workMode, .imuData]

/-- The callbacks of the four tracked requests differ in their bit only. -/
def setCallback (handle : UInt32) (request : Request) (status : LivoxStatus) : Driver K :=
  if handle ∈ s.lds.handles then
    match status with
    | .success =>
      let device := s.lds.lidars handle
      let setBits := device.livoxConfig.setBits &&& ~~~ request.bit
      { s with
        lds := s.lds.setLidar handle
          { device with
            livoxConfig := { device.livoxConfig with setBits := setBits }
            connectState := if setBits == 0 then .sampling else device.connectState }
        unacknowledged := s.unacknowledged.filter fun asked => asked != (handle, request) }
    | .timeout => s.ask handle [request]
    | .failure => { s with failed := (handle, request) :: s.failed }
  else { s with failed := (handle, request) :: s.failed }

def setDataTypeCallback (handle : UInt32) (status : LivoxStatus) : Driver K :=
  s.setCallback handle .pclDataType status

def setPatternModeCallback (handle : UInt32) (status : LivoxStatus) : Driver K :=
  s.setCallback handle .scanPattern status

def setBlindSpotCallback (handle : UInt32) (status : LivoxStatus) : Driver K :=
  s.setCallback handle .blindSpot status

def setDualEmitCallback (handle : UInt32) (status : LivoxStatus) : Driver K :=
  s.setCallback handle .dualEmit status

/-- The request is made again at the handle of the configuration. -/
def setAttitudeCallback (handle : UInt32) (status : LivoxStatus) : Driver K :=
  if handle ∈ s.lds.handles then
    match status with
    | .success => s
    | .timeout => s.ask (s.lds.lidars handle).livoxConfig.handle [.installAttitude]
    | .failure => { s with failed := (handle, .installAttitude) :: s.failed }
  else { s with failed := (handle, .installAttitude) :: s.failed }

def workModeChangedCallback (handle : UInt32) (status : LivoxStatus) : Driver K :=
  if status = .success then s else s.ask handle [.workMode]

/-- Without a response nothing is tried again, not even after a timeout. -/
def enableLivoxLidarImuDataCallback (handle : UInt32) (status : LivoxStatus) (response : Bool) :
    Driver K :=
  if handle ∈ s.lds.handles && response then
    match status with
    | .success => s
    | .timeout => s.ask handle [.imuData]
    | .failure => { s with failed := (handle, .imuData) :: s.failed }
  else { s with failed := (handle, .imuData) :: s.failed }

/-- The SDK answers a request it has not answered yet. -/
def reply (handle : UInt32) (request : Request) (status : LivoxStatus) (response : Bool) :
    Driver K :=
  if (handle, request) ∈ s.outstanding then
    let s := { s with outstanding := s.outstanding.erase (handle, request) }
    match request with
    | .pclDataType => s.setDataTypeCallback handle status
    | .scanPattern => s.setPatternModeCallback handle status
    | .blindSpot => s.setBlindSpotCallback handle status
    | .dualEmit => s.setDualEmitCallback handle status
    | .installAttitude => s.setAttitudeCallback handle status
    | .workMode => s.workModeChangedCallback handle status
    | .imuData => s.enableLivoxLidarImuDataCallback handle status response
  else s

def rawDataProcess (now : ℤ) : Driver K :=
  match s.pub.rawDataProcess trig now with
  | (pub, none) => { s with pub := pub }
  | (pub, some frame) =>
    { s with
      pub := pub
      lds := s.lds.storagePointData frame }

/-- One pass of the loop of `PublishCustomPointcloud`, for a LiDAR that
`DistributePointCloudData` polls. -/
def publishCustomPointcloud (handle : UInt32) : Driver K × Option (StoragePacket K × CustomMsg K) :=
  if handle ∈ s.lds.distributePointCloudData then
    let device := s.lds.lidars handle
    match device.data.queuePop with
    | none => (s, none)
    | some (pkg, queue) =>
      ({ s with lds := s.lds.setLidar handle { device with data := queue } },
        if pkg.points.isEmpty then none else some (pkg, customMsg device.handle pkg))
  else (s, none)

omit [Arith K] in
theorem publishCustomPointcloud_cases (handle : UInt32) :
    s.publishCustomPointcloud handle = (s, none) ∨
    ∃ pkg queue, handle ∈ s.lds.distributePointCloudData ∧
      (s.lds.lidars handle).data.queuePop = some (pkg, queue) ∧
      s.publishCustomPointcloud handle =
        ({ s with lds := s.lds.setLidar handle { s.lds.lidars handle with data := queue } },
          if pkg.points.isEmpty then none
          else some (pkg, customMsg (s.lds.lidars handle).handle pkg)) := by
  unfold publishCustomPointcloud
  by_cases hpolled : handle ∈ s.lds.distributePointCloudData
  · rw [if_pos hpolled]
    rcases hpop : (s.lds.lidars handle).data.queuePop with _ | ⟨pkg, queue⟩
    · left
      simp only [hpop]
    · right
      refine ⟨pkg, queue, hpolled, rfl, ?_⟩
      simp only [hpop]
  · rw [if_neg hpolled]
    exact .inl rfl

theorem rawDataProcess_cases (now : ℤ) :
    s.rawDataProcess trig now = { s with pub := (s.pub.rawDataProcess trig now).1 } ∨
    ∃ frame, (s.pub.rawDataProcess trig now).2 = some frame ∧
      s.rawDataProcess trig now =
        { s with
          pub := (s.pub.rawDataProcess trig now).1
          lds := s.lds.storagePointData frame } := by
  unfold rawDataProcess
  rcases s.pub.rawDataProcess trig now with ⟨pub, _ | frame⟩
  · exact .inl rfl
  · exact .inr ⟨frame, rfl, rfl⟩

end Driver

/-- What a step shows: the packet it decodes with the points it stores, or the
message it publishes with the frame it is made from. -/
structure Output (K : Type) where
  decoded : Option (RawPacket × List (PointXyzlt K))
  published : Option (StoragePacket K × CustomMsg K)

def Output.quiet : Output K := ⟨none, none⟩

def driverStep (s : Driver K) : Event → Driver K × Output K
  | .lidarInfoChange handle => (s.lidarInfoChange handle, .quiet)
  | .reply handle request status response => (s.reply handle request status response, .quiet)
  | .pointPacket pkt now =>
    ({ s with pub := s.pub.onLivoxLidarPointCloudCallback pkt now }, .quiet)
  | .imuPacket timeType => ({ s with pub := s.pub.onLivoxLidarImuPacket timeType }, .quiet)
  | .rawDataProcess now => (s.rawDataProcess trig now, ⟨s.pub.nextDecoded trig, none⟩)
  | .publishCustomPointcloud handle =>
    ((s.publishCustomPointcloud handle).1, ⟨none, (s.publishCustomPointcloud handle).2⟩)

/-- The driver after `InitLdsLidar`. -/
def Driver.init (publishFreq : K) (configs : List (LidarConfigJson K)) : Driver K :=
  let (lds, pub) := (configs.filterMap LidarConfigJson.parse).foldl initLivoxLidar
    (⟨publishFreq, [], fun _ => .reset⟩, .create publishFreq)
  { pub := pub, lds := lds, outstanding := [], failed := [],
    unacknowledged := [], informed := [] }

def driver (publishFreq : K) (configs : List (LidarConfigJson K)) :
    Machine (Driver K) Event (Output K) where
  init := Driver.init publishFreq configs
  step := driverStep trig

/-! ## The packet a step decodes -/

/-- A condition on the packet a step decodes and the ones behind it. -/
def OnDecode (s : Driver K) (e : Event) (P : RawPacket → List RawPacket → Prop) : Prop :=
  ∀ now, e = .rawDataProcess now → ∀ pkt rest, s.pub.rawPacketQueue = pkt :: rest → P pkt rest

omit [Arith K] in
theorem onDecode_rawDataProcess {s : Driver K} (now : ℤ) {P : RawPacket → List RawPacket → Prop} :
    OnDecode s (.rawDataProcess now) P ↔
      ∀ pkt ∈ s.pub.rawPacketQueue.head?, P pkt s.pub.rawPacketQueue.tail := by
  constructor
  · intro h pkt hpkt
    obtain ⟨rest, hqueue⟩ := List.head?_eq_some_iff.mp hpkt
    rw [hqueue]
    exact h now rfl pkt rest hqueue
  · intro h now' _ pkt rest hqueue
    rw [hqueue] at h
    exact h pkt rfl

instance (s : Driver K) (e : Event) (P : RawPacket → List RawPacket → Prop)
    [∀ pkt rest, Decidable (P pkt rest)] : Decidable (OnDecode s e P) :=
  match e with
  | .rawDataProcess now => decidable_of_iff' _ (onDecode_rawDataProcess now)
  | .lidarInfoChange _ => isTrue fun _ h => nomatch h
  | .reply .. => isTrue fun _ h => nomatch h
  | .pointPacket .. => isTrue fun _ h => nomatch h
  | .imuPacket _ => isTrue fun _ h => nomatch h
  | .publishCustomPointcloud _ => isTrue fun _ h => nomatch h

/-! ## The driver at start-up -/

/-- No device has been asked or sent anything, and each is under its own handle. -/
structure FreshDevices (lds : LdsLidar K) : Prop where
  bits : ∀ h, (lds.lidars h).livoxConfig.setBits = 0
  off : ∀ h, (lds.lidars h).connectState = .off
  handle : ∀ h ∈ lds.handles, (lds.lidars h).livoxConfig.handle = h
  queue : ∀ h, (lds.lidars h).data.storagePacket = none

omit [Arith K] in
theorem getFreeIndex_some {lds lds' : LdsLidar K} {handle : UInt32}
    (hfree : lds.getFreeIndex handle = some lds') :
    lds'.lidars = lds.lidars ∧ ∀ h, h ∈ lds'.handles ↔ h ∈ lds.handles ∨ h = handle := by
  rw [LdsLidar.getFreeIndex] at hfree
  split_ifs at hfree with hmem
  · obtain rfl := Option.some.inj hfree
    refine ⟨rfl, fun h => ?_⟩
    constructor
    · exact .inl
    · rintro (hold | rfl)
      · exact hold
      · exact hmem
  · obtain rfl := Option.some.inj hfree
    exact ⟨rfl, fun h => by simp⟩

omit [Arith K] in
theorem FreshDevices.initLivoxLidar {acc : LdsLidar K × PubHandler K} (hacc : FreshDevices acc.1)
    {config : UserLivoxLidarConfig K} (hbits : config.setBits = 0) :
    FreshDevices (initLivoxLidar acc config).1 := by
  have hset {lds : LdsLidar K} (hlds : lds.lidars = acc.1.lidars)
      (hhandles : ∀ h ∈ lds.handles, h ∈ acc.1.handles ∨ h = config.handle) :
      FreshDevices (lds.setLidar config.handle
        { lds.lidars config.handle with livoxConfig := config, handle := config.handle }) := by
    constructor
    · intro h
      by_cases hh : h = config.handle
      · subst hh
        simpa [LdsLidar.setLidar] using hbits
      · simpa [LdsLidar.setLidar, Function.update_of_ne hh, hlds] using hacc.bits h
    · intro h
      by_cases hh : h = config.handle
      · subst hh
        simpa [LdsLidar.setLidar, hlds] using hacc.off config.handle
      · simpa [LdsLidar.setLidar, Function.update_of_ne hh, hlds] using hacc.off h
    · intro h hmem
      by_cases hh : h = config.handle
      · subst hh
        simp [LdsLidar.setLidar]
      · have hold := (hhandles h hmem).resolve_right hh
        simpa [LdsLidar.setLidar, Function.update_of_ne hh, hlds] using hacc.handle h hold
    · intro h
      by_cases hh : h = config.handle
      · subst hh
        simpa [LdsLidar.setLidar, hlds] using hacc.queue config.handle
      · simpa [LdsLidar.setLidar, Function.update_of_ne hh, hlds] using hacc.queue h
  unfold LivoxDriver.initLivoxLidar
  cases hfree : acc.1.getFreeIndex config.handle with
  | none => exact hacc
  | some lds =>
    obtain ⟨hlidars, hhandles⟩ := getFreeIndex_some hfree
    exact hset hlidars fun h => (hhandles h).mp

theorem freshDevices_init (publishFreq : K) (configs : List (LidarConfigJson K)) :
    FreshDevices (Driver.init publishFreq configs).lds := by
  have hfold (parsed : List (UserLivoxLidarConfig K)) (hbits : ∀ c ∈ parsed, c.setBits = 0)
      (acc : LdsLidar K × PubHandler K) (hacc : FreshDevices acc.1) :
      FreshDevices (parsed.foldl initLivoxLidar acc).1 := by
    induction parsed generalizing acc with
    | nil => exact hacc
    | cons c rest ih =>
      exact ih (fun c' hc' => hbits c' (List.mem_cons_of_mem c hc')) _
        (hacc.initLivoxLidar (hbits c List.mem_cons_self))
  refine hfold _ ?_ _ ⟨fun _ => rfl, fun _ => rfl,
    fun h hmem => absurd hmem List.not_mem_nil, fun _ => rfl⟩
  intro c hc
  obtain ⟨json, -, hparse⟩ := List.mem_filterMap.mp hc
  rw [LidarConfigJson.parse, Option.map_eq_some_iff] at hparse
  obtain ⟨handle, -, rfl⟩ := hparse
  rfl

/-- `InitLdsLidar` hands the decoder the extrinsics of the LiDARs that have a slot,
and nothing else. -/
structure ExtrinsicsHanded (publishFreq : K) (lds : LdsLidar K) (p : PubHandler K) : Prop where
  pub : p = { PubHandler.create publishFreq with lidarExtrinsics := p.lidarExtrinsics }
  configured : ∀ h ∈ lds.handles,
    p.lidarExtrinsics h = some (lds.lidars h).livoxConfig.lidarParam
  absent : ∀ h, h ∉ lds.handles → p.lidarExtrinsics h = none

theorem ExtrinsicsHanded.initLivoxLidar {publishFreq : K} {acc : LdsLidar K × PubHandler K}
    (hacc : ExtrinsicsHanded publishFreq acc.1 acc.2) (config : UserLivoxLidarConfig K) :
    ExtrinsicsHanded publishFreq (initLivoxLidar acc config).1 (initLivoxLidar acc config).2 := by
  unfold LivoxDriver.initLivoxLidar
  cases hfree : acc.1.getFreeIndex config.handle with
  | none => exact hacc
  | some lds =>
    obtain ⟨hlidars, hhandles⟩ := getFreeIndex_some hfree
    constructor
    · rw [hacc.pub]
      rfl
    · intro h hmem
      by_cases hh : h = config.handle
      · subst hh
        simp [PubHandler.addLidarsExtParam]
      · have hold := ((hhandles h).mp hmem).resolve_right hh
        simp [PubHandler.addLidarsExtParam, hh, hlidars, hacc.configured h hold]
    · intro h hmem
      have hnew := not_or.mp (mt (hhandles h).mpr hmem)
      simp [PubHandler.addLidarsExtParam, hnew.2, hacc.absent h hnew.1]

theorem extrinsicsHanded_init (publishFreq : K) (configs : List (LidarConfigJson K)) :
    ExtrinsicsHanded publishFreq (Driver.init publishFreq configs).lds
      (Driver.init publishFreq configs).pub := by
  have hfold (parsed : List (UserLivoxLidarConfig K)) (acc : LdsLidar K × PubHandler K)
      (hacc : ExtrinsicsHanded publishFreq acc.1 acc.2) :
      ExtrinsicsHanded publishFreq (parsed.foldl initLivoxLidar acc).1
        (parsed.foldl initLivoxLidar acc).2 := by
    induction parsed generalizing acc with
    | nil => exact hacc
    | cons config rest ih => exact ih _ (hacc.initLivoxLidar config)
  exact hfold _ _ ⟨rfl, fun h hmem => absurd hmem List.not_mem_nil, fun _ _ => rfl⟩

end LivoxDriver
end RobotNav
