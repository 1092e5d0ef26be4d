/-
Point stamps through the custom message.

The message carries the stamp of a frame's first point in 64 bits and, for each
point, the difference to it cut to 32 bits.  A frame is whatever points of a LiDAR
wait when it is cut, so the difference is bounded only by the stamps that came.
-/
import Mathlib.Data.List.Induction
import RobotNav.LivoxDriver.Handshake

namespace RobotNav
namespace LivoxDriver

variable {K : Type}

/-! ## One frame -/

/-- The stamp a subscriber computes for a point. -/
def CustomMsg.restored (msg : CustomMsg K) : List UInt64 :=
  msg.points.map fun p => msg.timebase + p.offsetTime.toUInt64

/-- A subscriber gets back the stamps of the points the message is made of. -/
def TimesSurvive (pkg : StoragePacket K) (msg : CustomMsg K) : Prop :=
  msg.restored = pkg.points.map PointXyzlt.offsetTime

instance (pkg : StoragePacket K) (msg : CustomMsg K) : Decidable (TimesSurvive pkg msg) :=
  inferInstanceAs (Decidable (_ = _))

/-- The stamp is less than 2^32 ns after the base. -/
def InWindow (base stamp : UInt64) : Prop := (stamp - base).toNat < 2 ^ 32

instance (base stamp : UInt64) : Decidable (InWindow base stamp) :=
  inferInstanceAs (Decidable (_ < _))

theorem restore_iff (base stamp : UInt64) :
    base + (stamp - base).toUInt32.toUInt64 = stamp ↔ InWindow base stamp := by
  rw [InWindow]
  constructor
  · intro h
    have hdiff : stamp - base = (stamp - base).toUInt32.toUInt64 := by
      nth_rewrite 1 [← h]
      rw [UInt64.add_comm, UInt64.add_sub_cancel]
    rw [hdiff, UInt32.toNat_toUInt64]
    exact UInt32.toNat_lt _
  · intro h
    have hdiff : (stamp - base).toUInt32.toUInt64 = stamp - base := by
      apply UInt64.toNat_inj.mp
      rw [UInt32.toNat_toUInt64, UInt64.toNat_toUInt32]
      exact Nat.mod_eq_of_lt h
    rw [hdiff, UInt64.add_comm, UInt64.sub_add_cancel]

theorem timesSurvive_iff (lidarId : UInt32) (pkg : StoragePacket K) :
    TimesSurvive pkg (customMsg lidarId pkg) ↔
      ∀ p ∈ pkg.points, InWindow pkg.baseTime p.offsetTime := by
  rw [TimesSurvive, CustomMsg.restored, customMsg, List.map_map, List.map_inj_left]
  constructor
  · intro h p hp
    exact (restore_iff _ _).mp (h p hp)
  · intro h p hp
    exact (restore_iff _ _).mpr (h p hp)

/-! ## Frames in the driver -/

/-- The frame that would be cut of a handler now. -/
def LidarPubHandler.waiting (h : LidarPubHandler K) : StoragePacket K :=
  { baseTime := h.getLidarBaseTime, points := h.pointsClouds }

/-- Every slot of every queue is good for its LiDAR. -/
def SlotsGood (Good : UInt32 → StoragePacket K → Prop) (lds : LdsLidar K) : Prop :=
  ∀ id slots, (lds.lidars id).data.storagePacket = some slots → ∀ i, Good id (slots i)

/-- Whatever waits, and whatever is in a queue, is good for its LiDAR. -/
structure Carries (Good : UInt32 → StoragePacket K → Prop) (s : Driver K) : Prop where
  waiting : ∀ id, Good id (s.pub.lidarProcessHandlers id).waiting
  slots : SlotsGood Good s.lds

section Frames

variable {Good : UInt32 → StoragePacket K → Prop}

theorem setLidar_good {lds : LdsLidar K} (hlds : SlotsGood Good lds) {id : UInt32}
    {device : LidarDevice K}
    (hdevice : ∀ slots, device.data.storagePacket = some slots → ∀ i, Good id (slots i)) :
    SlotsGood Good (lds.setLidar id device) := by
  intro id' slots hslots i
  by_cases hid : id' = id
  · subst hid
    rw [LdsLidar.setLidar_self] at hslots
    exact hdevice slots hslots i
  · rw [LdsLidar.setLidar_ne _ hid] at hslots
    exact hlds id' slots hslots i

theorem queuePushAny_good {q : LidarDataQueue K} {id : UInt32} {packet : StoragePacket K}
    (hq : ∀ slots, q.storagePacket = some slots → ∀ i, Good id (slots i))
    (hpacket : Good id packet) :
    ∀ slots, (q.queuePushAny packet).storagePacket = some slots → ∀ i, Good id (slots i) := by
  intro slots hslots i
  unfold LidarDataQueue.queuePushAny at hslots
  cases hstorage : q.storagePacket with
  | none =>
    rw [hstorage] at hslots
    exact hq slots hslots i
  | some old =>
    rw [hstorage] at hslots
    obtain rfl := Option.some.inj hslots
    by_cases hi : i = q.wrIdx &&& q.mask
    · subst hi
      rw [Function.update_self]
      exact hpacket
    · rw [Function.update_of_ne hi]
      exact hq old hstorage i

variable (hempty : ∀ id, Good id ⟨0, []⟩)

include hempty

theorem cutFrame_good {h : LidarPubHandler K} {id : UInt32} (hgood : Good id h.waiting) :
    Good id (h.cutFrame id).1.waiting ∧ ∀ packet, (h.cutFrame id).2 = some packet →
      Good packet.handle ⟨packet.baseTime, packet.points⟩ := by
  refine ⟨hempty id, fun packet hcut => ?_⟩
  rw [LidarPubHandler.cutFrame] at hcut
  split_ifs at hcut
  obtain rfl := Option.some.inj hcut
  exact hgood

theorem checkTimer_good {p : PubHandler K} (hp : ∀ id, Good id (p.lidarProcessHandlers id).waiting)
    (id : UInt32) (now : ℤ) :
    (∀ id', Good id' ((p.checkTimer id now).1.lidarProcessHandlers id').waiting) ∧
      ∀ frame, (p.checkTimer id now).2 = some frame → ∀ packet ∈ frame,
        Good packet.handle ⟨packet.baseTime, packet.points⟩ := by
  rcases p.checkTimer_cases id now with ⟨first, last, hnone⟩ | hone | ⟨-, hall⟩
  · rw [hnone]
    exact ⟨hp, fun frame hframe => by cases hframe⟩
  · rw [hone]
    constructor
    · intro id'
      by_cases hid : id' = id
      · subst hid
        simp only [Function.update_self]
        exact hempty id'
      · simp only [Function.update_of_ne hid]
        exact hp id'
    · intro frame hframe packet hpacket
      obtain ⟨packet', hcut, rfl⟩ := Option.map_eq_some_iff.mp hframe
      obtain rfl := List.mem_singleton.mp hpacket
      exact (cutFrame_good hempty (hp id)).2 packet hcut
  · rw [hall]
    constructor
    · intro id'
      by_cases hid : id' ∈ p.handlerIds
      · simp only [if_pos hid]
        exact hempty id'
      · simp only [if_neg hid]
        exact hp id'
    · intro frame hframe packet hpacket
      obtain rfl := Option.some.inj hframe
      obtain ⟨id', -, hcut⟩ := List.mem_filterMap.mp hpacket
      exact (cutFrame_good hempty (hp id')).2 packet hcut

variable [Arith K]

theorem pushLidarData_good {lds : LdsLidar K} (hlds : SlotsGood Good lds) {packet : PointPacket K}
    (hpacket : Good packet.handle ⟨packet.baseTime, packet.points⟩) :
    SlotsGood Good (lds.pushLidarData packet) := by
  unfold LdsLidar.pushLidarData
  have hqueue (q : LidarDataQueue K)
      (hq : ∀ slots, q.storagePacket = some slots → ∀ i, Good packet.handle (slots i)) :
      ∀ slots, (if q.queueIsFull then q
        else q.queuePushAny ⟨packet.baseTime, packet.points⟩).storagePacket = some slots →
        ∀ i, Good packet.handle (slots i) := by
    split_ifs
    · exact hq
    · exact queuePushAny_good hq hpacket
  refine setLidar_good hlds (hqueue _ ?_)
  cases hstorage : (lds.lidars packet.handle).data.storagePacket with
  | none =>
    intro slots hslots i
    obtain rfl := Option.some.inj hslots
    exact hempty packet.handle
  | some old =>
    intro slots hslots
    exact hlds packet.handle slots hslots

theorem storagePointData_good {frame : List (PointPacket K)}
    (hframe : ∀ packet ∈ frame, Good packet.handle ⟨packet.baseTime, packet.points⟩)
    {lds : LdsLidar K} (hlds : SlotsGood Good lds) :
    SlotsGood Good (lds.storagePointData frame) := by
  induction frame generalizing lds with
  | nil => exact hlds
  | cons packet rest ih =>
    have hrest := fun q hq => hframe q (List.mem_cons_of_mem packet hq)
    rw [LdsLidar.storagePointData, List.foldl_cons]
    by_cases hslot : packet.handle ∈ lds.handles
    · rw [if_pos hslot]
      exact ih hrest (pushLidarData_good hempty hlds (hframe packet List.mem_cons_self))
    · rw [if_neg hslot]
      exact ih hrest hlds

/-- A round of the decoder, if the points it adds are good behind those that
wait. -/
theorem rawDataProcess_good {trig : Trig K} {s : Driver K} (hs : Carries Good s) (now : ℤ)
    (hdecode : ∀ pkt rest, s.pub.rawPacketQueue = pkt :: rest →
      Good pkt.handle ((s.pub.handlerOf trig pkt).livoxLidarPointCloudProcess trig pkt).waiting) :
    Carries Good (s.rawDataProcess trig now) := by
  have hround :
      (∀ id, Good id ((s.pub.rawDataProcess trig now).1.lidarProcessHandlers id).waiting) ∧
      ∀ frame, (s.pub.rawDataProcess trig now).2 = some frame → ∀ packet ∈ frame,
        Good packet.handle ⟨packet.baseTime, packet.points⟩ := by
    unfold PubHandler.rawDataProcess
    cases hqueue : s.pub.rawPacketQueue with
    | nil => exact ⟨hs.waiting, fun frame hframe => by cases hframe⟩
    | cons pkt rest =>
      refine checkTimer_good hempty ?_ pkt.handle now
      intro id
      by_cases hid : id = pkt.handle
      · subst hid
        simp only [PubHandler.decodePacket, Function.update_self]
        rw [PubHandler.handlerOf_pop]
        exact hdecode pkt rest hqueue
      · simp only [PubHandler.decodePacket, Function.update_of_ne hid]
        rw [PubHandler.noteHandler_ne _ hid]
        exact hs.waiting id
  rcases s.rawDataProcess_cases trig now with hquiet | ⟨frame, hsome, hframe⟩
  · rw [hquiet]
    exact ⟨hround.1, hs.slots⟩
  · rw [hframe]
    exact ⟨hround.1, storagePointData_good hempty (hround.2 frame hsome) hs.slots⟩

omit [Arith K] hempty in
theorem Carries.of_data {s s' : Driver K} (hs : Carries Good s) (hsame : SameData s s') :
    Carries Good s' := by
  constructor
  · rw [hsame.pub]
    exact hs.waiting
  · intro id slots hslots
    rw [hsame.data] at hslots
    exact hs.slots id slots hslots

omit [Arith K] hempty in
theorem queuePop_good {q queue : LidarDataQueue K} {id : UInt32} {pkg : StoragePacket K}
    (hq : ∀ slots, q.storagePacket = some slots → ∀ i, Good id (slots i))
    (hpop : q.queuePop = some (pkg, queue)) :
    Good id pkg ∧ queue.storagePacket = q.storagePacket := by
  unfold LidarDataQueue.queuePop at hpop
  cases hstorage : q.storagePacket with
  | none =>
    simp only [hstorage] at hpop
    cases hpop
  | some slots =>
    simp only [hstorage] at hpop
    split_ifs at hpop
    obtain ⟨rfl, rfl⟩ := Prod.mk.inj (Option.some.inj hpop)
    exact ⟨hq slots hstorage _, rfl⟩

omit hempty in
/-- What is published is made from a good frame. -/
theorem Carries.published {trig : Trig K} {s : Driver K} (hs : Carries Good s) {e : Event}
    {pkg : StoragePacket K} {msg : CustomMsg K}
    (hpublished : (driverStep trig s e).2.published = some (pkg, msg)) :
    ∃ id lidarId, Good id pkg ∧ msg = customMsg lidarId pkg := by
  cases e with
  | publishCustomPointcloud id =>
    replace hpublished : (s.publishCustomPointcloud id).2 = some (pkg, msg) := hpublished
    rcases s.publishCustomPointcloud_cases id with hsame | ⟨pkg', queue, -, hpop, hout⟩
    · rw [hsame] at hpublished
      cases hpublished
    · rw [hout] at hpublished
      split_ifs at hpublished
      obtain ⟨rfl, rfl⟩ := Prod.mk.inj (Option.some.inj hpublished)
      exact ⟨id, _, (queuePop_good (hs.slots id) hpop).1, rfl⟩
  | _ => cases hpublished

/-- A step keeps frames good if the points its decoder adds are good behind those
that wait. -/
theorem Carries.step {trig : Trig K} {s : Driver K} (hs : Carries Good s) (e : Event)
    (hdecode : ∀ now, e = .rawDataProcess now → ∀ pkt rest, s.pub.rawPacketQueue = pkt :: rest →
      Good pkt.handle ((s.pub.handlerOf trig pkt).livoxLidarPointCloudProcess trig pkt).waiting) :
    Carries Good (driverStep trig s e).1 := by
  cases e with
  | lidarInfoChange h => exact hs.of_data (lidarInfoChange_data s h)
  | reply h r status response => exact hs.of_data (reply_data s h r status response)
  | pointPacket pkt now => exact ⟨hs.waiting, hs.slots⟩
  | imuPacket timeType => exact ⟨hs.waiting, hs.slots⟩
  | rawDataProcess now => exact rawDataProcess_good hempty hs now (hdecode now rfl)
  | publishCustomPointcloud id =>
    show Carries Good (s.publishCustomPointcloud id).1
    rcases s.publishCustomPointcloud_cases id with hsame | ⟨pkg, queue, -, hpop, hout⟩
    · rw [hsame]
      exact hs
    · obtain ⟨hgood, hstorage⟩ := queuePop_good (hs.slots id) hpop
      rw [hout]
      refine ⟨hs.waiting, setLidar_good hs.slots ?_⟩
      rw [hstorage]
      exact hs.slots id

end Frames

/-! ## Stamps in the window of their frame -/

variable [Arith K]

/-- A packet that is decoded now has all its stamps less than 2^32 ns after the
first stamp that waits for its LiDAR. -/
def StampsClose (s : Driver K) (e : Event) : Prop :=
  OnDecode s e fun pkt _ => ∀ t ∈ pkt.stamps, InWindow (s.pub.firstStamp pkt) t

instance (s : Driver K) (e : Event) : Decidable (StampsClose s e) :=
  -- over the list: the stamps are a finite type, and a search through all of it never ends
  @instDecidableOnDecode _ s e _ fun pkt _ => List.decidableBAll _ pkt.stamps

def FrameInWindow (_ : UInt32) (pkg : StoragePacket K) : Prop :=
  ∀ q ∈ pkg.points, InWindow pkg.baseTime q.offsetTime

theorem frameInWindow_decode {trig : Trig K} {p : PubHandler K} {pkt : RawPacket}
    (hp : FrameInWindow pkt.handle (p.lidarProcessHandlers pkt.handle).waiting)
    (hclose : ∀ t ∈ pkt.stamps, InWindow (p.firstStamp pkt) t) :
    FrameInWindow pkt.handle
      ((p.handlerOf trig pkt).livoxLidarPointCloudProcess trig pkt).waiting := by
  have hold := p.handlerOf_pointsClouds trig pkt
  have hnew := (p.handlerOf trig pkt).decodedPoints_stamps trig pkt
  have hstamp {q : PointXyzlt K} (hq : q ∈ (p.handlerOf trig pkt).decodedPoints trig pkt) :
      InWindow (p.firstStamp pkt) q.offsetTime := by
    apply hclose
    rw [← hnew]
    exact List.mem_map_of_mem hq
  intro q hq
  show InWindow ((((p.handlerOf trig pkt).pointsClouds ++
    (p.handlerOf trig pkt).decodedPoints trig pkt).head?.map PointXyzlt.offsetTime).getD 0) _
  replace hq : q ∈ (p.handlerOf trig pkt).pointsClouds ++
    (p.handlerOf trig pkt).decodedPoints trig pkt := hq
  rw [hold] at hq ⊢
  have hfirst : p.firstStamp pkt =
    (((p.noteHandler pkt.handle).lidarProcessHandlers pkt.handle).pointsClouds.head?.map
      PointXyzlt.offsetTime).getD pkt.timeStamp := rfl
  cases hpoints : ((p.noteHandler pkt.handle).lidarProcessHandlers pkt.handle).pointsClouds with
  | nil =>
    -- the packet opens the frame
    rw [hpoints] at hq hfirst
    have hopen := hstamp hq
    cases hdecoded : (p.handlerOf trig pkt).decodedPoints trig pkt with
    | nil =>
      rw [hdecoded] at hq
      cases hq
    | cons q₀ rest =>
      rw [hdecoded, List.map_cons] at hnew
      have hhead := RawPacket.stamps_head hnew.symm
      show InWindow q₀.offsetTime q.offsetTime
      rw [hhead]
      rw [hfirst] at hopen
      exact hopen
  | cons q₀ rest =>
    have hsame := (p.noteHandler_pointsClouds pkt.handle).resolve_left
      (by rw [hpoints]; exact List.cons_ne_nil q₀ rest)
    rw [hpoints] at hq hfirst
    rw [hsame] at hpoints
    have hbase : (p.lidarProcessHandlers pkt.handle).waiting.baseTime = q₀.offsetTime := by
      simp [LidarPubHandler.waiting, LidarPubHandler.getLidarBaseTime, hpoints]
    show InWindow q₀.offsetTime q.offsetTime
    rcases List.mem_append.mp hq with hwaits | hadded
    · rw [← hbase]
      apply hp q
      show q ∈ (p.lidarProcessHandlers pkt.handle).pointsClouds
      rw [hpoints]
      exact hwaits
    · have hclose' := hstamp hadded
      rw [hfirst] at hclose'
      exact hclose'

/-! ## Where the published points come from -/

/-- The points the steps so far have stored for a LiDAR. -/
def decodedOf (os : List (Output K)) (id : UInt32) : List (PointXyzlt K) :=
  os.flatMap fun o => match o.decoded with
    | some (pkt, points) => if pkt.handle = id then points else []
    | none => []

def FromDecoder (os : List (Output K)) (id : UInt32) (pkg : StoragePacket K) : Prop :=
  ∀ q ∈ pkg.points, q ∈ decodedOf os id

omit [Arith K] in
theorem decodedOf_append (os : List (Output K)) (o : Output K) (id : UInt32) :
    decodedOf (os ++ [o]) id = decodedOf os id ++ decodedOf [o] id := List.flatMap_append

omit [Arith K] in
theorem Carries.mono {Good Good' : UInt32 → StoragePacket K → Prop} {s : Driver K}
    (hs : Carries Good s) (hgood : ∀ id pkg, Good id pkg → Good' id pkg) : Carries Good' s where
  waiting := fun id => hgood id _ (hs.waiting id)
  slots := fun id slots hslots i => hgood id _ (hs.slots id slots hslots i)

omit [Arith K] in
theorem Carries.later {s : Driver K} {os : List (Output K)} (hs : Carries (FromDecoder os) s)
    (o : Output K) : Carries (FromDecoder (os ++ [o])) s := by
  apply hs.mono
  intro id pkg hpkg q hq
  rw [decodedOf_append]
  exact List.mem_append_left _ (hpkg q hq)

theorem fromDecoder_decode {trig : Trig K} {p : PubHandler K} {pkt : RawPacket}
    {rest : List RawPacket} {os : List (Output K)}
    (hqueue : p.rawPacketQueue = pkt :: rest)
    (hp : FromDecoder os pkt.handle (p.lidarProcessHandlers pkt.handle).waiting) :
    FromDecoder (os ++ [⟨p.nextDecoded trig, none⟩]) pkt.handle
      ((p.handlerOf trig pkt).livoxLidarPointCloudProcess trig pkt).waiting := by
  intro q hq
  rw [decodedOf_append, List.mem_append]
  have hmem : q ∈ (p.handlerOf trig pkt).pointsClouds ++
    (p.handlerOf trig pkt).decodedPoints trig pkt := hq
  rcases List.mem_append.mp hmem with hwaits | hadded
  · left
    rw [p.handlerOf_pointsClouds] at hwaits
    rcases p.noteHandler_pointsClouds pkt.handle with hnil | hsame
    · rw [hnil] at hwaits
      cases hwaits
    · rw [hsame] at hwaits
      exact hp q hwaits
  · right
    simpa [decodedOf, PubHandler.nextDecoded, hqueue] using hadded

/-! ## Room in a frame -/

/-- When all LiDARs are cut at once, `PointFrame` has the slots that are written: no
LiDAR comes after as many others with points waiting as there are slots. -/
def RoomInFrame (trig : Trig K) (s : Driver K) (e : Event) : Prop :=
  OnDecode s e fun pkt rest => s.pub.isTimestampSync = true ∨
    let p := PubHandler.decodePacket { s.pub with rawPacketQueue := rest } trig pkt
    ∀ slot ∈ p.frameSlots p.handlerIds 0, slot < kMaxSourceLidar

instance (trig : Trig K) (s : Driver K) (e : Event) : Decidable (RoomInFrame trig s e) :=
  inferInstanceAs (Decidable (OnDecode s e _))

/-- A packet is decoded with the clock of its LiDAR, and no frame is written. -/
theorem decodePacket_frame (trig : Trig K) (p : PubHandler K) (pkt : RawPacket) :
    (p.decodePacket trig pkt).isTimestampSync = p.isTimestampSync ∧
      (p.decodePacket trig pkt).overrun = p.overrun := by
  have hnote : (p.noteHandler pkt.handle).isTimestampSync = p.isTimestampSync ∧
      (p.noteHandler pkt.handle).overrun = p.overrun := by
    unfold PubHandler.noteHandler
    split_ifs
    · exact ⟨rfl, rfl⟩
    · exact ⟨rfl, rfl⟩
  exact hnote

omit [Arith K] in
theorem checkTimer_overrun {p : PubHandler K} (hp : p.overrun = false)
    (hroom : p.isTimestampSync = true ∨
      ∀ slot ∈ p.frameSlots p.handlerIds 0, slot < kMaxSourceLidar) (id : UInt32) (now : ℤ) :
    (p.checkTimer id now).1.overrun = false := by
  rcases p.checkTimer_cases id now with ⟨first, last, hnone⟩ | hone | ⟨hfree, hall⟩
  · rw [hnone]
    exact hp
  · rw [hone]
    exact hp
  · have hslots := hroom.resolve_left (by simp [hfree])
    rw [hall, Bool.or_eq_false_iff, List.any_eq_false]
    refine ⟨hp, fun slot hslot hbehind => ?_⟩
    have hin := hslots slot hslot
    rw [decide_eq_true_eq] at hbehind
    omega

theorem overrun_step {trig : Trig K} {s : Driver K} {e : Event} (hs : s.pub.overrun = false)
    (hroom : RoomInFrame trig s e) : (driverStep trig s e).1.pub.overrun = false := by
  cases e with
  | lidarInfoChange h =>
    show (s.lidarInfoChange h).pub.overrun = false
    rw [(lidarInfoChange_data s h).pub]
    exact hs
  | reply h r status response =>
    show (s.reply h r status response).pub.overrun = false
    rw [(reply_data s h r status response).pub]
    exact hs
  | pointPacket pkt now => exact hs
  | imuPacket timeType => exact hs
  | rawDataProcess now =>
    have hpub : (s.pub.rawDataProcess trig now).1.overrun = false := by
      unfold PubHandler.rawDataProcess
      cases hqueue : s.pub.rawPacketQueue with
      | nil => exact hs
      | cons pkt rest =>
        obtain ⟨hsync, hsame⟩ :=
          decodePacket_frame trig { s.pub with rawPacketQueue := rest } pkt
        refine checkTimer_overrun (hsame.trans hs) ?_ pkt.handle now
        rw [hsync]
        exact hroom now rfl pkt rest hqueue
    show (s.rawDataProcess trig now).pub.overrun = false
    rcases s.rawDataProcess_cases trig now with hquiet | ⟨frame, -, hstored⟩
    · rw [hquiet]
      exact hpub
    · rw [hstored]
      exact hpub
  | publishCustomPointcloud id =>
    show (s.publishCustomPointcloud id).1.pub.overrun = false
    rcases s.publishCustomPointcloud_cases id with hsame | ⟨pkg, queue, -, -, hout⟩
    · rw [hsame]
      exact hs
    · rw [hout]
      exact hs

/-! ## Whole runs -/

/-- Every message gives back the stamps of points the decoder has stored. -/
def KeepsStamps (os : List (Output K)) : Prop :=
  ∀ before o after, os = before ++ o :: after → ∀ pkg msg, o.published = some (pkg, msg) →
    TimesSurvive pkg msg ∧ ∃ id, FromDecoder before id pkg

theorem carries_init {Good : UInt32 → StoragePacket K → Prop} (hempty : ∀ id, Good id ⟨0, []⟩)
    (publishFreq : K) (configs : List (LidarConfigJson K)) :
    Carries Good (Driver.init publishFreq configs) := by
  constructor
  · intro id
    rw [(extrinsicsHanded_init publishFreq configs).pub]
    exact hempty id
  · intro id slots hslots
    rw [(freshDevices_init publishFreq configs).queue] at hslots
    cases hslots

variable {trig : Trig K} {publishFreq : K} {configs : List (LidarConfigJson K)}

/-- Frames hold nothing the decoder has not stored, in every run. -/
theorem carries_fromDecoder (es : List Event) :
    Carries (FromDecoder ((driver trig publishFreq configs).outs
        (Driver.init publishFreq configs) es))
      ((driver trig publishFreq configs).run (Driver.init publishFreq configs) es) := by
  have hempty (os : List (Output K)) (id : UInt32) : FromDecoder os id ⟨0, []⟩ :=
    fun q hq => absurd hq List.not_mem_nil
  induction es using List.reverseRecOn with
  | nil => exact carries_init (hempty _) publishFreq configs
  | append_singleton es e ih =>
    rw [Machine.run_snoc, Machine.outs_snoc]
    refine (ih.later _).step (hempty _) e ?_
    rintro now rfl pkt rest hqueue
    exact fromDecoder_decode hqueue (ih.waiting pkt.handle)

/-- While the stamps stay close, frames stay in their windows. -/
theorem carries_frameInWindow {es : List Event}
    (hclose : (driver trig publishFreq configs).Along StampsClose
      (Driver.init publishFreq configs) es) :
    Carries FrameInWindow
      ((driver trig publishFreq configs).run (Driver.init publishFreq configs) es) := by
  have hempty (id : UInt32) : FrameInWindow (K := K) id ⟨0, []⟩ :=
    fun q hq => absurd hq List.not_mem_nil
  refine Machine.run_along ?_ (carries_init hempty publishFreq configs) hclose
  intro s e hs hstep
  refine hs.step hempty e ?_
  intro now hnow pkt rest hqueue
  exact frameInWindow_decode (hs.waiting pkt.handle) (hstep now hnow pkt rest hqueue)

theorem overrun_run {es : List Event}
    (hroom : (driver trig publishFreq configs).Along (RoomInFrame trig)
      (Driver.init publishFreq configs) es) :
    ((driver trig publishFreq configs).run (Driver.init publishFreq configs) es).pub.overrun =
      false := by
  have hinit : (Driver.init publishFreq configs).pub.overrun = false := by
    rw [(extrinsicsHanded_init publishFreq configs).pub]
    rfl
  exact Machine.run_along (I := fun s => s.pub.overrun = false) (fun _ _ => overrun_step) hinit hroom

theorem keepsStamps_of_close (trig : Trig K) (publishFreq : K)
    (configs : List (LidarConfigJson K)) (es : List Event)
    (h : (driver trig publishFreq configs).Along
      (fun s e => StampsClose s e ∧ RoomInFrame trig s e) (Driver.init publishFreq configs) es) :
    KeepsStamps ((driver trig publishFreq configs).outs (Driver.init publishFreq configs) es) ∧
      ((driver trig publishFreq configs).run (Driver.init publishFreq configs) es).pub.overrun =
        false := by
  refine ⟨?_, overrun_run (h.mono fun s e hs => hs.2)⟩
  intro before o after houts pkg msg hpublished
  obtain ⟨es₁, e, es₂, rfl, rfl, rfl, -⟩ := Machine.outs_eq_append_cons houts
  have hclose := (Machine.along_append.mp (h.mono fun s e hs => hs.1)).1
  constructor
  · obtain ⟨id, lidarId, hwindow, rfl⟩ := (carries_frameInWindow hclose).published hpublished
    exact (timesSurvive_iff lidarId pkg).mpr hwindow
  · obtain ⟨id, lidarId, hdecoded, rfl⟩ := (carries_fromDecoder es₁).published hpublished
    exact ⟨id, hdecoded⟩

/-! ## A stream with a pause -/

def pausePacket (stamp : UInt64) : Event :=
  .pointPacket
    { handle := 1, devType := .mid360, timeType := .gps, timestamp := stamp, timeInterval := 100,
      dotNum := 1, data := .cartesianHigh fun _ => ⟨1000, 0, 0, 0, 0⟩ } 0

/-- Two packets of a sampling LiDAR, the first at one second, and the frame they
end up in. -/
def pauseRun (stamp : UInt64) : List Event :=
  [.lidarInfoChange 1, .reply 1 .blindSpot .success true, pausePacket 1000000000,
    .rawDataProcess 0, pausePacket stamp, .rawDataProcess 0, .publishCustomPointcloud 1]

def pauseOuts (stamp : UInt64) : List (Output ℚ) :=
  (driver restTrig 10 [blindSpotConfig]).outs (Driver.init 10 [blindSpotConfig]) (pauseRun stamp)

/-- A tenth of a second between the packets. -/
theorem keepsStamps_of_close_tenth :
    KeepsStamps (pauseOuts 1100000000) ∧
      ((driver restTrig 10 [blindSpotConfig]).run (Driver.init 10 [blindSpotConfig])
        (pauseRun 1100000000)).pub.overrun = false :=
  keepsStamps_of_close restTrig 10 [blindSpotConfig] (pauseRun 1100000000) (by decide +kernel)

theorem pauseOuts_length : 6 < (pauseOuts 6000000000).length := by decide +kernel

/-- Five seconds between the packets: both are in one frame, and the second point
comes out more than four seconds early. -/
theorem pause_loses_stamps : ¬ KeepsStamps (pauseOuts 6000000000) := by
  intro hkeeps
  have hsplit : pauseOuts 6000000000 = (pauseOuts 6000000000).take 6 ++
      (pauseOuts 6000000000).get ⟨6, pauseOuts_length⟩ :: (pauseOuts 6000000000).drop 7 := by
    rw [List.get_eq_getElem, List.cons_getElem_drop_succ, List.take_append_drop]
  have hlost : ((pauseOuts 6000000000).get ⟨6, pauseOuts_length⟩).published.map
      (fun x => (x.2.restored, x.1.points.map PointXyzlt.offsetTime)) =
        some ([1000000000, 1705032704], [1000000000, 6000000000]) := by
    decide +kernel
  rw [Option.map_eq_some_iff] at hlost
  obtain ⟨⟨pkg, msg⟩, hpublished, hstamps⟩ := hlost
  have hkept := (hkeeps _ _ _ hsplit pkg msg hpublished).1
  rw [TimesSurvive, (Prod.mk.inj hstamps).1, (Prod.mk.inj hstamps).2] at hkept
  exact absurd hkept (by decide)

end LivoxDriver
end RobotNav
