/-
Packets of points as bytes, from `OnLivoxLidarPointCloudCallback` to the decoders.

Nothing that the header of a packet says is checked: the interval is divided by `dot_num`,
`length` says how many bytes are copied, and the decoders index the copy by `dot_num`.
`none` stands for a division by zero or a read behind the end of the copy.

The header of the SDK is not part of the repository.  The sizes of its packed structures,
the codes of the data types and what the bytes of a record mean are parameters.
-/
import Mathlib.Data.Rat.Floor
import RobotNav.LivoxDriver.PubHandler

namespace RobotNav
namespace LivoxDriver

/-- A packed structure of the SDK. -/
structure Record (P : Type) where
  sizeof : ℕ
  ofBytes : List UInt8 → P

structure LivoxSdk where
  sizeofEthernetPacket : ℕ
  imuData : UInt8
  cartesianHighData : UInt8
  cartesianLowData : UInt8
  sphericalData : UInt8
  high : Record LivoxLidarCartesianHighRawPoint
  low : Record LivoxLidarCartesianLowRawPoint
  sphere : Record LivoxLidarSpherPoint

/-- `LivoxLidarEthernetPacket`, with the LiDAR it comes from.  `data` are the bytes from its
last member on, also those behind the packet. -/
structure LivoxLidarEthernetPacket where
  handle : UInt32
  devType : LivoxLidarDeviceType
  timeType : TimestampType
  timestamp : UInt64
  length : UInt16
  timeInterval : UInt16
  dotNum : UInt16
  dataType : UInt8
  data : ℕ → UInt8

/-- A `RawPacket`, with `raw_data` as it is. -/
structure PackedPacket where
  handle : UInt32
  extrinsicEnable : Bool
  pointNum : UInt32
  dataType : UInt8
  lineNum : UInt8
  timeStamp : UInt64
  pointInterval : UInt64
  rawData : List UInt8

def checkedDiv (a b : ℕ) : Option ℕ := if b = 0 then none else some (a / b)

namespace Record

variable {P : Type} (r : Record P)

/-- `raw[i]` when `raw_data` is cast to an array of records. -/
def entry (rawData : List UInt8) (i : ℕ) : P :=
  r.ofBytes ((rawData.drop (i * r.sizeof)).take r.sizeof)

/-- Turn `i` of a decoder reads `raw[i]` and divides by `line_num`. -/
def turnSafe (pkt : PackedPacket) (i : ℕ) : Bool :=
  decide ((i + 1) * r.sizeof ≤ pkt.rawData.length) && pkt.lineNum != 0

/-- What the loop of a decoder finds in `raw`. -/
def readAll (pkt : PackedPacket) : Option (ℕ → P) :=
  if (List.range pkt.pointNum.toNat).all (r.turnSafe pkt) then some (r.entry pkt.rawData) else none

end Record

namespace LivoxSdk

variable (sdk : LivoxSdk)

/-- How many bytes the callback copies; `length` is an `uint32_t`. -/
def copied (data : LivoxLidarEthernetPacket) : UInt32 :=
  data.length.toUInt32 - UInt32.ofNat sdk.sizeofEthernetPacket + 1

/-- The packet the callback fills in, `point_interval` being what its division gives. -/
def rawPacket (data : LivoxLidarEthernetPacket) (now : UInt64) (pointInterval : ℕ) :
    PackedPacket where
  handle := data.handle
  extrinsicEnable := false
  pointNum := data.dotNum.toUInt32
  dataType := data.dataType
  lineNum := EthernetPacket.lineNum data.devType
  timeStamp := getEthPacketTimestamp data.timeType data.timestamp now
  pointInterval := UInt64.ofNat pointInterval
  rawData := (List.range (sdk.copied data).toNat).map data.data

/-- What `OnLivoxLidarPointCloudCallback` queues; data of the IMU goes elsewhere. -/
def onLivoxLidarPointCloudCallback (data : LivoxLidarEthernetPacket) (now : UInt64) :
    Option (List PackedPacket) :=
  if data.dataType = sdk.imuData then some []
  else
    (checkedDiv (data.timeInterval.toNat * 100) data.dotNum.toNat).map fun pointInterval =>
      [sdk.rawPacket data now pointInterval]

/-- What the decoder of the packet's type reads. -/
def read (pkt : PackedPacket) : Option RawData :=
  if pkt.dataType = sdk.cartesianHighData then (sdk.high.readAll pkt).map .cartesianHigh
  else if pkt.dataType = sdk.cartesianLowData then (sdk.low.readAll pkt).map .cartesianLow
  else if pkt.dataType = sdk.sphericalData then (sdk.sphere.readAll pkt).map .spherical
  else some .unknown

end LivoxSdk

/-- The packet with its points read. -/
def PackedPacket.withData (pkt : PackedPacket) (data : RawData) : RawPacket where
  handle := pkt.handle
  extrinsicEnable := pkt.extrinsicEnable
  pointNum := pkt.pointNum
  lineNum := pkt.lineNum
  timeStamp := pkt.timeStamp
  pointInterval := pkt.pointInterval
  data := data

namespace LivoxSdk

variable {K : Type} [Arith K] (sdk : LivoxSdk) (trig : Trig K)

/-- `LivoxLidarPointCloudProcess` on bytes. -/
def livoxLidarPointCloudProcess (h : LidarPubHandler K) (pkt : PackedPacket) :
    Option (LidarPubHandler K) :=
  (sdk.read pkt).map fun data => h.livoxLidarPointCloudProcess trig (pkt.withData data)

/-- A packet from the callback through the queue to its decoder. -/
def handlePacket (h : LidarPubHandler K) (data : LivoxLidarEthernetPacket) (now : UInt64) :
    Option (LidarPubHandler K) :=
  (sdk.onLivoxLidarPointCloudCallback data now).bind fun queue =>
    queue.foldlM (sdk.livoxLidarPointCloudProcess trig) h

/-- The size of the records a decoder reads. -/
def recordSize (dataType : UInt8) : ℕ :=
  if dataType = sdk.cartesianHighData then sdk.high.sizeof
  else if dataType = sdk.cartesianLowData then sdk.low.sizeof
  else if dataType = sdk.sphericalData then sdk.sphere.sizeof
  else 0

/-- What the header of a packet has to say for it to be handled. -/
def HeaderFits (data : LivoxLidarEthernetPacket) : Prop :=
  data.dotNum ≠ 0 ∧
    (data.dotNum.toNat * sdk.recordSize data.dataType : ℤ) ≤
      ((data.length.toNat : ℤ) - sdk.sizeofEthernetPacket + 1) % 2 ^ 32

end LivoxSdk

/-! ## What is read -/

theorem Record.readAll_isSome_iff {P : Type} (r : Record P) {pkt : PackedPacket}
    (hline : pkt.lineNum ≠ 0) :
    (r.readAll pkt).isSome ↔ pkt.pointNum.toNat * r.sizeof ≤ pkt.rawData.length := by
  have hall : (List.range pkt.pointNum.toNat).all (r.turnSafe pkt) = true ↔
      ∀ i < pkt.pointNum.toNat, (i + 1) * r.sizeof ≤ pkt.rawData.length := by
    simp [turnSafe, hline]
  have hlast : (∀ i < pkt.pointNum.toNat, (i + 1) * r.sizeof ≤ pkt.rawData.length) ↔
      pkt.pointNum.toNat * r.sizeof ≤ pkt.rawData.length := by
    constructor
    · intro h
      cases hn : pkt.pointNum.toNat with
      | zero => rw [Nat.zero_mul]; exact Nat.zero_le _
      | succ n => exact h n (by omega)
    · intro h i hi
      exact (Nat.mul_le_mul_right r.sizeof hi).trans h
  rw [readAll, ← hlast, ← hall]
  split_ifs with hsafe
  · exact iff_of_true rfl hsafe
  · exact iff_of_false Bool.false_ne_true hsafe

theorem lineNum_ne_zero (devType : LivoxLidarDeviceType) : EthernetPacket.lineNum devType ≠ 0 := by
  cases devType with
  | industrialHAP => decide
  | mid360 => decide
  | other => decide

theorem LivoxSdk.read_isSome_iff (sdk : LivoxSdk) (pkt : PackedPacket) (hline : pkt.lineNum ≠ 0) :
    (sdk.read pkt).isSome ↔
      pkt.pointNum.toNat * sdk.recordSize pkt.dataType ≤ pkt.rawData.length := by
  rw [read, recordSize]
  split_ifs
  · rw [Option.isSome_map, Record.readAll_isSome_iff _ hline]
  · rw [Option.isSome_map, Record.readAll_isSome_iff _ hline]
  · rw [Option.isSome_map, Record.readAll_isSome_iff _ hline]
  · exact iff_of_true rfl (Nat.zero_le _)

theorem LivoxSdk.copied_toNat (sdk : LivoxSdk) (data : LivoxLidarEthernetPacket) :
    ((sdk.copied data).toNat : ℤ) =
      ((data.length.toNat : ℤ) - sdk.sizeofEthernetPacket + 1) % 2 ^ 32 := by
  have hlength : data.length.toNat < 2 ^ 16 := data.length.toNat_lt
  rw [copied, UInt32.toNat_add, UInt32.toNat_sub, UInt32.toNat_ofNat', UInt16.toNat_toUInt32,
    UInt32.toNat_one]
  omega

namespace LivoxSdk

variable (sdk : LivoxSdk)

theorem rawPacket_isSome_iff (data : LivoxLidarEthernetPacket) (now : UInt64)
    (pointInterval : ℕ) :
    (sdk.read (sdk.rawPacket data now pointInterval)).isSome ↔
      (data.dotNum.toNat * sdk.recordSize data.dataType : ℤ) ≤
        ((data.length.toNat : ℤ) - sdk.sizeofEthernetPacket + 1) % 2 ^ 32 := by
  have hread := sdk.read_isSome_iff (sdk.rawPacket data now pointInterval)
    (lineNum_ne_zero data.devType)
  have hpoints : (sdk.rawPacket data now pointInterval).pointNum.toNat = data.dotNum.toNat :=
    UInt16.toNat_toUInt32 _
  have hbytes : (sdk.rawPacket data now pointInterval).rawData.length =
      (sdk.copied data).toNat := by
    rw [rawPacket, List.length_map, List.length_range]
  have htype : (sdk.rawPacket data now pointInterval).dataType = data.dataType := rfl
  rw [hread, hpoints, hbytes, htype, ← sdk.copied_toNat data]
  norm_cast

variable {K : Type} [Arith K] (trig : Trig K)

theorem handlePacket_imu (h : LidarPubHandler K) {data : LivoxLidarEthernetPacket} (now : UInt64)
    (himu : data.dataType = sdk.imuData) : sdk.handlePacket trig h data now = some h := by
  rw [handlePacket, onLivoxLidarPointCloudCallback, if_pos himu]
  rfl

theorem handlePacket_noPoints (h : LidarPubHandler K) {data : LivoxLidarEthernetPacket}
    (now : UInt64) (himu : data.dataType ≠ sdk.imuData) (hdots : data.dotNum = 0) :
    sdk.handlePacket trig h data now = none := by
  rw [handlePacket, onLivoxLidarPointCloudCallback, if_neg himu, hdots]
  rfl

theorem handlePacket_points (h : LidarPubHandler K) {data : LivoxLidarEthernetPacket}
    (now : UInt64) (himu : data.dataType ≠ sdk.imuData) (hdots : data.dotNum ≠ 0) :
    sdk.handlePacket trig h data now = sdk.livoxLidarPointCloudProcess trig h
      (sdk.rawPacket data now (data.timeInterval.toNat * 100 / data.dotNum.toNat)) := by
  have hnat : data.dotNum.toNat ≠ 0 := fun hzero => hdots (UInt16.toNat_inj.mp hzero)
  rw [handlePacket, onLivoxLidarPointCloudCallback, if_neg himu, checkedDiv, if_neg hnat]
  exact bind_pure _

/-! ## Packets whose points are read -/

/-- The records behind the header, by the type it names. -/
def decodedData (data : LivoxLidarEthernetPacket) : RawData :=
  let rawData := (List.range (sdk.copied data).toNat).map data.data
  if data.dataType = sdk.cartesianHighData then .cartesianHigh (sdk.high.entry rawData)
  else if data.dataType = sdk.cartesianLowData then .cartesianLow (sdk.low.entry rawData)
  else if data.dataType = sdk.sphericalData then .spherical (sdk.sphere.entry rawData)
  else .unknown

def ethernetPacket (data : LivoxLidarEthernetPacket) : EthernetPacket where
  handle := data.handle
  devType := data.devType
  timeType := data.timeType
  timestamp := data.timestamp
  timeInterval := data.timeInterval
  dotNum := data.dotNum
  data := sdk.decodedData data

theorem read_rawPacket (data : LivoxLidarEthernetPacket) (now : UInt64) (pointInterval : ℕ)
    {read : RawData} (hread : sdk.read (sdk.rawPacket data now pointInterval) = some read) :
    read = sdk.decodedData data := by
  have hentry {P : Type} (r : Record P) (toData : (ℕ → P) → RawData)
      (h : (r.readAll (sdk.rawPacket data now pointInterval)).map toData = some read) :
      read = toData (r.entry (sdk.rawPacket data now pointInterval).rawData) := by
    rw [Record.readAll] at h
    split_ifs at h
    · exact (Option.some.inj h).symm
    · cases h
  rw [LivoxSdk.read] at hread
  rw [decodedData]
  have htype : (sdk.rawPacket data now pointInterval).dataType = data.dataType := rfl
  rw [htype] at hread
  split_ifs at hread ⊢
  · exact hentry _ _ hread
  · exact hentry _ _ hread
  · exact hentry _ _ hread
  · exact (Option.some.inj hread).symm

/-- Where every read succeeds, bytes are handled as the driver handles the packet of the
records they hold. -/
theorem handlePacket_refines (h : LidarPubHandler K) {data : LivoxLidarEthernetPacket}
    {now : UInt64} {after : LidarPubHandler K} (himu : data.dataType ≠ sdk.imuData)
    (hafter : sdk.handlePacket trig h data now = some after) :
    after = h.livoxLidarPointCloudProcess trig ((sdk.ethernetPacket data).raw now) := by
  have hdots : data.dotNum ≠ 0 := by
    intro hzero
    rw [sdk.handlePacket_noPoints trig h now himu hzero] at hafter
    cases hafter
  rw [sdk.handlePacket_points trig h now himu hdots, livoxLidarPointCloudProcess,
    Option.map_eq_some_iff] at hafter
  obtain ⟨read, hread, rfl⟩ := hafter
  rw [sdk.read_rawPacket data now _ hread]
  rfl

/-! ## Which packets are handled -/

/-- A packet is handled without a division by zero and without a read behind its copy
exactly when its header fits. -/
theorem handlePacket_isSome_iff (h : LidarPubHandler K) (data : LivoxLidarEthernetPacket)
    (now : UInt64) :
    (sdk.handlePacket trig h data now).isSome ↔
      data.dataType = sdk.imuData ∨ sdk.HeaderFits data := by
  by_cases himu : data.dataType = sdk.imuData
  · rw [sdk.handlePacket_imu trig h now himu]
    exact iff_of_true rfl (.inl himu)
  by_cases hdots : data.dotNum = 0
  · rw [sdk.handlePacket_noPoints trig h now himu hdots]
    refine iff_of_false Bool.false_ne_true ?_
    rintro (hsame | ⟨hne, -⟩)
    · exact himu hsame
    · exact hne hdots
  rw [sdk.handlePacket_points trig h now himu hdots, livoxLidarPointCloudProcess,
    Option.isSome_map, sdk.rawPacket_isSome_iff]
  constructor
  · exact fun hfits => .inr ⟨hdots, hfits⟩
  · rintro (hsame | ⟨-, hfits⟩)
    · exact absurd hsame himu
    · exact hfits

end LivoxSdk

/-- `n` bytes from `i` on as a number, the least byte first. -/
def littleEndian (bytes : List UInt8) (i n : ℕ) : ℕ :=
  ((bytes.drop i).take n).foldr (fun byte acc => byte.toNat + 256 * acc) 0

/-- The codes and sizes of the SDK's header, with readers for the bytes. -/
def livoxSdk2 : LivoxSdk where
  sizeofEthernetPacket := 37
  imuData := 0
  cartesianHighData := 1
  cartesianLowData := 2
  sphericalData := 3
  high :=
    { sizeof := 14
      ofBytes := fun bytes =>
        { x := Int32.ofInt (littleEndian bytes 0 4), y := Int32.ofInt (littleEndian bytes 4 4)
          z := Int32.ofInt (littleEndian bytes 8 4), reflectivity := bytes.getD 12 0
          tag := bytes.getD 13 0 } }
  low :=
    { sizeof := 8
      ofBytes := fun bytes =>
        { x := Int16.ofInt (littleEndian bytes 0 2), y := Int16.ofInt (littleEndian bytes 2 2)
          z := Int16.ofInt (littleEndian bytes 4 2), reflectivity := bytes.getD 6 0
          tag := bytes.getD 7 0 } }
  sphere :=
    { sizeof := 10
      ofBytes := fun bytes =>
        { depth := UInt32.ofNat (littleEndian bytes 0 4)
          theta := UInt16.ofNat (littleEndian bytes 4 2)
          phi := UInt16.ofNat (littleEndian bytes 6 2), reflectivity := bytes.getD 8 0
          tag := bytes.getD 9 0 } }

/-- A packet of Cartesian data with one record of 14 bytes. -/
def oneRecord (dotNum : UInt16) : LivoxLidarEthernetPacket where
  handle := 1
  devType := .mid360
  timeType := .noSync
  timestamp := 0
  length := 50
  timeInterval := 100
  dotNum := dotNum
  dataType := 1
  data := fun _ => 0

/-- A packet without points stops the division, and one that counts more points than it holds
is read past its end. -/
theorem oneRecord_misread :
    (livoxSdk2.onLivoxLidarPointCloudCallback (oneRecord 0) 0).isNone ∧
      (livoxSdk2.onLivoxLidarPointCloudCallback (oneRecord 96) 0).isSome ∧
      (livoxSdk2.handlePacket (K := ℚ) restTrig .create (oneRecord 96) 0).isNone := by
  refine ⟨?_, ?_, ?_⟩ <;> decide

end LivoxDriver
end RobotNav
