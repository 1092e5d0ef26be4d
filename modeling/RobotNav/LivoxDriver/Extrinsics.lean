/-
The rigid motion a LiDAR's points go through.

`InitLivoxLidar` chooses the unit of the translation from the configured data type,
the decoders choose theirs from the packet, and a LiDAR without a configuration
keeps the initialiser of `extrinsic_`.  A run moves every point as configured
exactly when neither choice shows in any packet it decodes.
-/
import Mathlib.Analysis.SpecialFunctions.Trigonometric.Basic
import RobotNav.Library.Rigid
import RobotNav.LivoxDriver.Handshake

namespace RobotNav
namespace LivoxDriver

variable {K : Type} [Arith K]

/-! ## What a handler holds -/

/-- `extrinsic_` once the first packet of a LiDAR is there. -/
def extrinsicOf (trig : Trig K) : Option (ExtParameter K) → ExtParameterDetailed K
  | none => .initial
  | some param => (LidarPubHandler.create.setLidarsExtParam trig param).extrinsic

/-- A handler holds the initialiser until the extrinsics of its LiDAR are set. -/
structure ExtrinsicKept (trig : Trig K) (ext : Option (ExtParameter K)) (h : LidarPubHandler K) :
    Prop where
  unset : h.isSetExtrinsicParams = false → h.extrinsic = .initial
  set : h.isSetExtrinsicParams = true → ext.isSome ∧ h.extrinsic = extrinsicOf trig ext

structure Equipped (trig : Trig K) (ext : UInt32 → Option (ExtParameter K)) (p : PubHandler K) :
    Prop where
  extrinsics : p.lidarExtrinsics = ext
  handlers : ∀ id, ExtrinsicKept trig (ext id) (p.lidarProcessHandlers id)
  queue : ∀ pkt ∈ p.rawPacketQueue, pkt.extrinsicEnable = false

theorem extrinsicKept_create (trig : Trig K) (ext : Option (ExtParameter K)) :
    ExtrinsicKept trig ext .create := ⟨fun _ => rfl, fun h => nomatch h⟩

section Handlers

variable {trig : Trig K} {ext : UInt32 → Option (ExtParameter K)} {p : PubHandler K}

theorem Equipped.noteHandler (hp : Equipped trig ext p) (id : UInt32) :
    ∀ id', ExtrinsicKept trig (ext id') ((p.noteHandler id).lidarProcessHandlers id') := by
  intro id'
  unfold PubHandler.noteHandler
  split_ifs with hmem
  · exact hp.handlers id'
  · by_cases hid : id' = id
    · subst hid
      simp only [Function.update_self]
      exact extrinsicKept_create trig _
    · simp only [Function.update_of_ne hid]
      exact hp.handlers id'

/-- The handler of a packet holds the extrinsics of its LiDAR. -/
theorem Equipped.handlerOf (hp : Equipped trig ext p) (pkt : RawPacket) :
    (p.handlerOf trig pkt).extrinsic = extrinsicOf trig (ext pkt.handle) ∧
      ExtrinsicKept trig (ext pkt.handle) (p.handlerOf trig pkt) := by
  have hkept := hp.noteHandler pkt.handle pkt.handle
  unfold PubHandler.handlerOf
  rw [hp.extrinsics]
  cases hext : ext pkt.handle with
  | none =>
    rw [hext] at hkept
    refine ⟨?_, hkept⟩
    apply hkept.unset
    by_contra hset
    have hsome := (hkept.set (Bool.eq_true_of_not_eq_false hset)).1
    cases hsome
  | some param =>
    rw [hext] at hkept
    simp only [LidarPubHandler.setLidarsExtParam]
    split_ifs with hset
    · exact ⟨(hkept.set hset).2, hkept⟩
    · refine ⟨rfl, ?_, fun _ => ⟨rfl, rfl⟩⟩
      intro h
      cases h

theorem Equipped.decodePacket (hp : Equipped trig ext p) (pkt : RawPacket) :
    Equipped trig ext (p.decodePacket trig pkt) := by
  have hnote : (p.noteHandler pkt.handle).lidarExtrinsics = p.lidarExtrinsics ∧
      (p.noteHandler pkt.handle).rawPacketQueue = p.rawPacketQueue := by
    unfold PubHandler.noteHandler
    split_ifs <;> exact ⟨rfl, rfl⟩
  constructor
  · exact hnote.1.trans hp.extrinsics
  · intro id
    simp only [PubHandler.decodePacket]
    by_cases hid : id = pkt.handle
    · subst hid
      rw [Function.update_self]
      obtain ⟨hunset, hset⟩ := (hp.handlerOf pkt).2
      exact ⟨hunset, hset⟩
    · rw [Function.update_of_ne hid]
      exact hp.noteHandler pkt.handle id
  · intro q hq
    exact hp.queue q (hnote.2 ▸ hq)

theorem Equipped.checkTimer (hp : Equipped trig ext p) (id : UInt32) (now : ℤ) :
    Equipped trig ext (p.checkTimer id now).1 := by
  have hcut (id' : UInt32) :
      ExtrinsicKept trig (ext id') ((p.lidarProcessHandlers id').cutFrame id').1 :=
    ⟨(hp.handlers id').unset, (hp.handlers id').set⟩
  rcases p.checkTimer_cases id now with ⟨first, last, hnone⟩ | hone | ⟨-, hall⟩
  · rw [hnone]
    exact ⟨hp.extrinsics, hp.handlers, hp.queue⟩
  · rw [hone]
    refine ⟨hp.extrinsics, fun id' => ?_, hp.queue⟩
    by_cases hid : id' = id
    · subst hid
      simp only [Function.update_self]
      exact hcut id'
    · simp only [Function.update_of_ne hid]
      exact hp.handlers id'
  · rw [hall]
    refine ⟨hp.extrinsics, fun id' => ?_, hp.queue⟩
    by_cases hid : id' ∈ p.handlerIds
    · simp only [if_pos hid]
      exact hcut id'
    · simp only [if_neg hid]
      exact hp.handlers id'

theorem Equipped.rawDataProcess (hp : Equipped trig ext p) (now : ℤ) :
    Equipped trig ext (p.rawDataProcess trig now).1 := by
  unfold PubHandler.rawDataProcess
  cases hqueue : p.rawPacketQueue with
  | nil => exact hp
  | cons pkt rest =>
    have hpop : Equipped trig ext { p with rawPacketQueue := rest } := by
      refine ⟨hp.extrinsics, hp.handlers, fun q hq => hp.queue q ?_⟩
      rw [hqueue]
      exact List.mem_cons_of_mem pkt hq
    exact (hpop.decodePacket pkt).checkTimer pkt.handle now

end Handlers

theorem equipped_step {trig : Trig K} {ext : UInt32 → Option (ExtParameter K)} {s : Driver K}
    (hs : Equipped trig ext s.pub) (e : Event) : Equipped trig ext (driverStep trig s e).1.pub := by
  cases e with
  | lidarInfoChange h => exact (lidarInfoChange_data s h).pub ▸ hs
  | reply h r status response => exact (reply_data s h r status response).pub ▸ hs
  | pointPacket pkt now =>
    refine ⟨hs.extrinsics, hs.handlers, fun q hq => ?_⟩
    rcases List.mem_append.mp hq with hold | hnew
    · exact hs.queue q hold
    · rw [List.mem_singleton.mp hnew]
      rfl
  | imuPacket timeType => exact ⟨hs.extrinsics, hs.handlers, hs.queue⟩
  | rawDataProcess now =>
    show Equipped trig ext (s.rawDataProcess trig now).pub
    have hround := hs.rawDataProcess now
    rcases s.rawDataProcess_cases trig now with hquiet | ⟨frame, -, hstored⟩
    · rw [hquiet]
      exact hround
    · rw [hstored]
      exact hround
  | publishCustomPointcloud id =>
    show Equipped trig ext (s.publishCustomPointcloud id).1.pub
    rcases s.publishCustomPointcloud_cases id with hsame | ⟨pkg, queue, -, -, hout⟩
    · rw [hsame]
      exact hs
    · rw [hout]
      exact hs

theorem equipped_init (trig : Trig K) (publishFreq : K) (configs : List (LidarConfigJson K)) :
    Equipped trig (Driver.init publishFreq configs).pub.lidarExtrinsics
      (Driver.init publishFreq configs).pub := by
  rw [(extrinsicsHanded_init publishFreq configs).pub]
  exact ⟨rfl, fun id => extrinsicKept_create trig _, fun q hq => absurd hq List.not_mem_nil⟩

/-! ## Points in metres -/

/-- Point `i` of the raw data. -/
def metres (trig : Trig K) : RawData → ℕ → Fin 3 → K
  | .cartesianHigh raw, i => fun j =>
    ![lit (raw i).x.toInt, lit (raw i).y.toInt, lit (raw i).z.toInt] j / lit 1000
  | .cartesianLow raw, i => fun j =>
    ![lit (raw i).x.toInt, lit (raw i).y.toInt, lit (raw i).z.toInt] j / lit 100
  | .spherical raw, i => LidarPubHandler.sphericalSource trig (raw i)
  | .unknown, _ => fun _ => lit 0

/-- The points of a packet a decoder reads. -/
def rawPoints (trig : Trig K) (pkt : RawPacket) : List (Fin 3 → K) :=
  match pkt.data with
  | .unknown => []
  | data => (List.range pkt.pointNum.toNat).map (metres trig data)

def PointXyzlt.coords (q : PointXyzlt K) : Fin 3 → K := ![q.x, q.y, q.z]

/-- What a decoder divides the translation by. -/
def unitsPerMetre : RawData → ℤ
  | .cartesianLow _ => 100
  | _ => 1000

/-! ## The configured motion -/

def ExtParameter.millimetres (ext : ExtParameter K) : Fin 3 → ℤ :=
  ![ext.x.toInt, ext.y.toInt, ext.z.toInt]

noncomputable def realTrig : Trig ℝ := ⟨Real.sin, Real.cos⟩

noncomputable def angleOf (degrees : ℝ) : Angle ℝ where
  sin := Real.sin (degrees * piConst / lit 180)
  cos := Real.cos (degrees * piConst / lit 180)
  sq_add_sq := Real.sin_sq_add_cos_sq _

noncomputable def ExtParameter.motion (ext : ExtParameter ℝ) : RigidMotion ℝ where
  rotation := rollPitchYaw (angleOf ext.roll) (angleOf ext.pitch) (angleOf ext.yaw)
  translation := fun j => (ext.millimetres j : ℝ) / lit 1000

/-- The configuration of a LiDAR that has one. -/
def configured (publishFreq : K) (configs : List (LidarConfigJson K)) (h : UInt32) :
    Option (UserLivoxLidarConfig K) :=
  if h ∈ (Driver.init publishFreq configs).lds.handles then
    some (configOf publishFreq configs h)
  else none

noncomputable def motionOf (config : Option (UserLivoxLidarConfig ℝ)) : RigidMotion ℝ :=
  match config with
  | none => ⟨1, 0⟩
  | some config => config.extrinsicParam.motion

theorem zero_motion : (ExtParameter.zero : ExtParameter ℝ).motion = ⟨1, 0⟩ := by
  have hangle : angleOf (lit 0) = Angle.zero := by
    simp [angleOf, Angle.zero, lit_eq]
  have hrotation : (ExtParameter.zero : ExtParameter ℝ).motion.rotation = 1 := by
    show rollPitchYaw (angleOf (lit 0)) (angleOf (lit 0)) (angleOf (lit 0)) = 1
    rw [hangle, rollPitchYaw_zero]
  have htranslation : (ExtParameter.zero : ExtParameter ℝ).motion.translation = 0 := by
    funext j
    fin_cases j <;> simp [ExtParameter.motion, ExtParameter.millimetres, ExtParameter.zero]
  rw [← hrotation, ← htranslation]

/-- Each point a step stores is the raw point moved as its LiDAR is configured. -/
def KeepsRigid (publishFreq : ℝ) (configs : List (LidarConfigJson ℝ)) (os : List (Output ℝ)) :
    Prop :=
  ∀ o ∈ os, ∀ pkt points, o.decoded = some (pkt, points) →
    points.map PointXyzlt.coords = (rawPoints realTrig pkt).map
      (motionOf (configured publishFreq configs pkt.handle)).apply

/-! ## What the decoders do -/

section Decoders

variable {F : Type} [Field F] [LinearOrder F] [FloorRing F]

/-- All three decoders apply the rotation to the point in metres. -/
theorem decodedPoints_coords (trig : Trig F) {h : LidarPubHandler F} {pkt : RawPacket}
    (henable : pkt.extrinsicEnable = false) :
    (h.decodedPoints trig pkt).map PointXyzlt.coords = (rawPoints trig pkt).map fun p j =>
      LidarPubHandler.rotated h.extrinsic p j +
        h.extrinsic.trans j / lit (unitsPerMetre pkt.data) := by
  have hpushed (coords : ℕ → Fin 3 → F) (reflectivity tag : ℕ → UInt8) :
      (LidarPubHandler.pushedPoints pkt coords reflectivity tag).map PointXyzlt.coords =
        (List.range pkt.pointNum.toNat).map coords := by
    rw [LidarPubHandler.pushedPoints, List.map_map]
    apply List.map_congr_left
    intro i _
    funext j
    fin_cases j <;> rfl
  have hrow (p : Fin 3 → F) (j : Fin 3) (n : ℤ) :
      (LidarPubHandler.rotated h.extrinsic p j + h.extrinsic.trans j) / lit n =
        LidarPubHandler.rotated h.extrinsic (fun k => p k / lit n) j +
          h.extrinsic.trans j / lit n := by
    simp only [LidarPubHandler.rotated]
    ring
  unfold LidarPubHandler.decodedPoints rawPoints
  cases pkt.data with
  | unknown => rfl
  | cartesianHigh raw =>
    simp only [LidarPubHandler.processCartesianHighPoint, hpushed, henable, List.map_map]
    apply List.map_congr_left
    intro i _
    funext j
    exact hrow _ j 1000
  | cartesianLow raw =>
    simp only [LidarPubHandler.processCartesianLowPoint, hpushed, henable, List.map_map]
    apply List.map_congr_left
    intro i _
    funext j
    exact hrow _ j 100
  | spherical raw =>
    simp only [LidarPubHandler.processSphericalPoint, hpushed, henable, List.map_map]
    rfl

end Decoders

/-! ## When the units fit -/

/-- The translation handed to the decoder and the unit of the packet make up for
each other. -/
def TranslationRight (config : UserLivoxLidarConfig K) (data : RawData) : Prop :=
  match data, config.pclDataType == 2 with
  | .cartesianLow _, true => ∀ j, 10 ∣ config.extrinsicParam.millimetres j
  | .cartesianLow _, false => ∀ j, config.extrinsicParam.millimetres j = 0
  | _, true => ∀ j, config.extrinsicParam.millimetres j = 0
  | _, false => True

/-- Without a configuration the initialiser of `extrinsic_` adds the height of a
point to its second coordinate. -/
def PacketRight (config : Option (UserLivoxLidarConfig ℝ)) (pkt : RawPacket) : Prop :=
  match config with
  | none => ∀ p ∈ rawPoints realTrig pkt, p 2 = 0
  | some config => rawPoints realTrig pkt = [] ∨ TranslationRight config pkt.data

theorem toInt_tenth (x : Int32) : (x / 10).toInt = x.toInt.tdiv 10 :=
  Int32.toInt_div_of_ne_right x 10 (by decide)

omit [Arith K] in
theorem lidarParam_millimetres (config : UserLivoxLidarConfig K) (j : Fin 3) :
    config.lidarParam.millimetres j =
      if config.pclDataType == 2 then (config.extrinsicParam.millimetres j).tdiv 10
      else config.extrinsicParam.millimetres j := by
  unfold UserLivoxLidarConfig.lidarParam
  split_ifs
  · fin_cases j <;> exact toInt_tenth _
  · rfl

theorem tenth_mul (n : ℤ) : n.tdiv 10 * 10 = n ↔ 10 ∣ n := by
  constructor
  · intro h
    rw [← h]
    exact Int.dvd_mul_left _ _
  · intro h
    exact Int.tdiv_mul_cancel h

theorem tenth_eq (n : ℤ) : n.tdiv 10 = n ↔ n = 0 := by
  constructor
  · intro h
    have habs : n.natAbs / 10 = n.natAbs := by
      have hdiv := Int.natAbs_tdiv n 10
      rw [h] at hdiv
      exact hdiv.symm
    omega
  · rintro rfl
    rfl

omit [Arith K] in
/-- The same in whole numbers. -/
theorem translationRight_int (config : UserLivoxLidarConfig K) (data : RawData) :
    (∀ j, config.lidarParam.millimetres j * 1000 =
      config.extrinsicParam.millimetres j * unitsPerMetre data) ↔
      TranslationRight config data := by
  simp only [lidarParam_millimetres]
  unfold TranslationRight
  cases hlow : config.pclDataType == 2 with
  | true =>
    have htenth (n : ℤ) : n.tdiv 10 * 1000 = n * 100 ↔ 10 ∣ n := by
      rw [← tenth_mul]
      omega
    have hwhole (n : ℤ) : n.tdiv 10 * 1000 = n * 1000 ↔ n = 0 := by
      rw [← tenth_eq]
      omega
    cases data with
    | cartesianLow raw => exact forall_congr' fun j => htenth _
    | _ => exact forall_congr' fun j => hwhole _
  | false =>
    have hwhole (n : ℤ) : n * 1000 = n * 100 ↔ n = 0 := by omega
    cases data with
    | cartesianLow raw => exact forall_congr' fun j => hwhole _
    | _ => exact iff_true_intro fun j => rfl

theorem translationRight_iff (config : UserLivoxLidarConfig ℝ) (data : RawData) :
    (∀ j, (config.lidarParam.millimetres j : ℝ) / lit (unitsPerMetre data) =
      (config.extrinsicParam.millimetres j : ℝ) / lit 1000) ↔ TranslationRight config data := by
  rw [← translationRight_int]
  refine forall_congr' fun j => ?_
  have hunit : (unitsPerMetre data : ℝ) ≠ 0 := by
    cases data <;> simp [unitsPerMetre]
  rw [lit_eq, lit_eq, div_eq_div_iff hunit (by norm_num)]
  norm_cast

/-! ## One packet -/

/-- The rotation of a configured LiDAR, row by row. -/
theorem rotated_configured (config : UserLivoxLidarConfig ℝ) (p : Fin 3 → ℝ) (j : Fin 3) :
    LidarPubHandler.rotated (extrinsicOf realTrig (some config.lidarParam)) p j =
      p 0 * config.extrinsicParam.motion.rotation.1 j 0 +
        p 1 * config.extrinsicParam.motion.rotation.1 j 1 +
        p 2 * config.extrinsicParam.motion.rotation.1 j 2 := by
  have hangles : config.lidarParam.roll = config.extrinsicParam.roll ∧
      config.lidarParam.pitch = config.extrinsicParam.pitch ∧
      config.lidarParam.yaw = config.extrinsicParam.yaw := by
    unfold UserLivoxLidarConfig.lidarParam
    split_ifs <;> exact ⟨rfl, rfl, rfl⟩
  obtain ⟨hroll, hpitch, hyaw⟩ := hangles
  rw [ExtParameter.motion, rollPitchYaw_val, ← hroll, ← hpitch, ← hyaw]
  fin_cases j <;> rfl

theorem trans_configured (param : ExtParameter ℝ) (j : Fin 3) :
    (extrinsicOf realTrig (some param)).trans j = param.millimetres j := by
  fin_cases j <;> rfl

theorem packetRight_iff (config : Option (UserLivoxLidarConfig ℝ)) (pkt : RawPacket) :
    ((rawPoints realTrig pkt).map fun p j =>
        let extrinsic := extrinsicOf realTrig (config.map UserLivoxLidarConfig.lidarParam)
        LidarPubHandler.rotated extrinsic p j + extrinsic.trans j / lit (unitsPerMetre pkt.data)) =
      (rawPoints realTrig pkt).map (motionOf config).apply ↔ PacketRight config pkt := by
  rw [List.map_inj_left]
  cases config with
  | none =>
    refine forall₂_congr fun p _ => ?_
    have hidentity : (motionOf none).apply p = p := by
      simp [motionOf, RigidMotion.apply]
    rw [hidentity]
    constructor
    · intro h
      have hrow := congrFun h 1
      simpa [extrinsicOf, ExtParameterDetailed.initial, LidarPubHandler.rotated, lit_eq] using hrow
    · intro hz
      funext j
      fin_cases j <;>
        simp [extrinsicOf, ExtParameterDetailed.initial, LidarPubHandler.rotated, lit_eq, hz]
  | some config =>
    have hpoint (p : Fin 3 → ℝ) : ((fun j =>
        let extrinsic := extrinsicOf realTrig (some config.lidarParam)
        LidarPubHandler.rotated extrinsic p j + extrinsic.trans j / lit (unitsPerMetre pkt.data)) =
        (motionOf (some config)).apply p) ↔ TranslationRight config pkt.data := by
      rw [← translationRight_iff, funext_iff]
      refine forall_congr' fun j => ?_
      rw [RigidMotion.apply_row]
      show LidarPubHandler.rotated _ p j + _ = _ ↔ _
      rw [rotated_configured, trans_configured]
      exact add_right_inj _
    show (∀ p ∈ rawPoints realTrig pkt, _) ↔ rawPoints realTrig pkt = [] ∨ _
    constructor
    · intro h
      rcases List.eq_nil_or_concat (rawPoints realTrig pkt) with hnil | ⟨rest, p, hlast⟩
      · exact .inl hnil
      · right
        apply (hpoint p).mp
        apply h p
        rw [hlast]
        simp
    · rintro (hnil | hright) p hp
      · rw [hnil] at hp
        cases hp
      · exact (hpoint p).mpr hright

/-! ## Whole runs -/

theorem init_lidarExtrinsics (publishFreq : K) (configs : List (LidarConfigJson K)) (h : UInt32) :
    (Driver.init publishFreq configs).pub.lidarExtrinsics h =
      (configured publishFreq configs h).map UserLivoxLidarConfig.lidarParam := by
  have hhanded := extrinsicsHanded_init publishFreq configs
  unfold configured
  split_ifs with hslot
  · exact hhanded.configured h hslot
  · exact hhanded.absent h hslot

/-- What one step stores, when every handler holds what it was given. -/
theorem stepRigid_iff {publishFreq : ℝ} {configs : List (LidarConfigJson ℝ)} {s : Driver ℝ}
    (hs : Equipped realTrig (Driver.init publishFreq configs).pub.lidarExtrinsics s.pub)
    (e : Event) :
    (∀ pkt points, (driverStep realTrig s e).2.decoded = some (pkt, points) →
      points.map PointXyzlt.coords = (rawPoints realTrig pkt).map
        (motionOf (configured publishFreq configs pkt.handle)).apply) ↔
      OnDecode s e fun pkt _ => PacketRight (configured publishFreq configs pkt.handle) pkt := by
  have hpacket (pkt : RawPacket) (hpkt : pkt ∈ s.pub.rawPacketQueue) :
      ((s.pub.handlerOf realTrig pkt).decodedPoints realTrig pkt).map PointXyzlt.coords =
        (rawPoints realTrig pkt).map (motionOf (configured publishFreq configs pkt.handle)).apply ↔
        PacketRight (configured publishFreq configs pkt.handle) pkt := by
    rw [decodedPoints_coords realTrig (hs.queue pkt hpkt), (hs.handlerOf pkt).1,
      init_lidarExtrinsics]
    exact packetRight_iff _ pkt
  cases e with
  | rawDataProcess now =>
    rw [onDecode_rawDataProcess]
    cases hqueue : s.pub.rawPacketQueue with
    | nil =>
      have hnone : (driverStep realTrig s (.rawDataProcess now)).2.decoded = none := by
        show s.pub.nextDecoded realTrig = none
        rw [PubHandler.nextDecoded, hqueue]
        rfl
      simp [hnone]
    | cons pkt rest =>
      have hnext : (driverStep realTrig s (.rawDataProcess now)).2.decoded =
          some (pkt, (s.pub.handlerOf realTrig pkt).decodedPoints realTrig pkt) := by
        show s.pub.nextDecoded realTrig = _
        rw [PubHandler.nextDecoded, hqueue]
        rfl
      have hmem : pkt ∈ s.pub.rawPacketQueue := by
        rw [hqueue]
        exact List.mem_cons_self
      rw [hnext]
      simp only [List.head?_cons, Option.mem_some_iff, forall_eq']
      rw [← hpacket pkt hmem]
      constructor
      · intro h
        exact h pkt _ rfl
      · intro h pkt' points hsome
        obtain ⟨rfl, rfl⟩ := Prod.mk.inj (Option.some.inj hsome)
        exact h
  | _ =>
    constructor
    · intro _ now he
      cases he
    · intro _ pkt points hsome
      cases hsome

/-- In every run of the driver: the points are moved as configured exactly when
the units fit in each packet that is decoded. -/
theorem keepsRigid_iff (publishFreq : ℝ) (configs : List (LidarConfigJson ℝ)) (es : List Event) :
    KeepsRigid publishFreq configs
        ((driver realTrig publishFreq configs).outs (Driver.init publishFreq configs) es) ↔
      (driver realTrig publishFreq configs).Along
        (fun s e => OnDecode s e fun pkt _ =>
          PacketRight (configured publishFreq configs pkt.handle) pkt)
        (Driver.init publishFreq configs) es := by
  apply Machine.outs_forall_iff
    (I := fun s => Equipped realTrig (Driver.init publishFreq configs).pub.lidarExtrinsics s.pub)
  · intro s e hs
    exact equipped_step hs e
  · intro s e hs
    exact stepRigid_iff hs e
  · exact equipped_init realTrig publishFreq configs

/-! ## A LiDAR without a configuration -/

/-- A point one metre above the LiDAR. -/
def strayPacket : EthernetPacket where
  handle := 1
  devType := .mid360
  timeType := .gps
  timestamp := 0
  timeInterval := 100
  dotNum := 1
  data := .cartesianHigh fun _ => ⟨0, 0, 1000, 0, 0⟩

def strayRun : List Event := [.pointPacket strayPacket 0, .rawDataProcess 0]

/-- No entry lists the LiDAR, and its point is stored one metre to the side as
well. -/
theorem stray_point_is_sheared : ¬ KeepsRigid 10 []
    ((driver realTrig 10 []).outs (Driver.init 10 []) strayRun) := by
  intro hrigid
  have hstep := (Machine.outs_forall.mp hrigid).2.1
  have hequipped := equipped_step (equipped_init realTrig 10 []) (.pointPacket strayPacket 0)
  have hright := (stepRigid_iff hequipped (.rawDataProcess 0)).mp hstep 0 rfl
    (strayPacket.raw 0) [] rfl
  have hflat : ∀ p ∈ rawPoints realTrig (strayPacket.raw 0), p 2 = 0 := hright
  have hzero := hflat (metres realTrig strayPacket.data 0)
    (List.mem_map_of_mem (List.mem_range.mpr Nat.one_pos))
  have hone : metres realTrig strayPacket.data 0 2 = 1 := by
    simp [metres, strayPacket, lit_eq]
  exact one_ne_zero (hone.symm.trans hzero)

end LivoxDriver
end RobotNav
