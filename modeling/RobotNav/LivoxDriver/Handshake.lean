/-
The configuration handshake: when a configured LiDAR starts to sample.

`set_bits` holds the options the device has not acknowledged, and only the
callback that clears its last bit sets `connect_state`.  A configuration without
any of the four options sets no bit, so no callback ever clears one.
-/
import Mathlib.Data.Rat.Floor
import RobotNav.LivoxDriver.Driver

namespace RobotNav
namespace LivoxDriver

/-! ## The bits of the options -/

def HasBit (bits : UInt32) (r : Request) : Prop := bits &&& r.bit ≠ 0

instance (bits : UInt32) (r : Request) : Decidable (HasBit bits r) :=
  inferInstanceAs (Decidable (_ ≠ _))

theorem hasBit_table : ∀ n : Fin 16, ∀ r ∈ Request.tracked, ∀ r' ∈ Request.tracked,
    let bits := UInt32.ofNat n
    (HasBit (bits ||| r.bit) r' ↔ HasBit bits r' ∨ r' = r) ∧
    (HasBit (bits &&& ~~~ r.bit) r' ↔ HasBit bits r' ∧ r' ≠ r) ∧
    bits ||| r.bit < 16 ∧ bits &&& ~~~ r.bit < 16 := by
  decide +kernel

theorem noBit_table : ∀ n : Fin 16, (∀ r ∈ Request.tracked, ¬ HasBit (UInt32.ofNat n) r) →
    UInt32.ofNat n = 0 := by
  decide +kernel

section Bits

variable {bits : UInt32} (hbits : bits < 16)

include hbits

theorem table_index : ∃ n : Fin 16, bits = UInt32.ofNat n := by
  have hlt : bits.toNat < 16 := hbits
  exact ⟨⟨bits.toNat, hlt⟩, by simp⟩

theorem hasBit_or {r r' : Request} (hr : r ∈ Request.tracked) (hr' : r' ∈ Request.tracked) :
    HasBit (bits ||| r.bit) r' ↔ HasBit bits r' ∨ r' = r := by
  obtain ⟨n, rfl⟩ := table_index hbits
  exact (hasBit_table n r hr r' hr').1

theorem hasBit_clear {r r' : Request} (hr : r ∈ Request.tracked) (hr' : r' ∈ Request.tracked) :
    HasBit (bits &&& ~~~ r.bit) r' ↔ HasBit bits r' ∧ r' ≠ r := by
  obtain ⟨n, rfl⟩ := table_index hbits
  exact (hasBit_table n r hr r' hr').2.1

theorem or_lt {r : Request} (hr : r ∈ Request.tracked) : bits ||| r.bit < 16 := by
  obtain ⟨n, rfl⟩ := table_index hbits
  exact (hasBit_table n r hr r hr).2.2.1

theorem clear_lt {r : Request} (hr : r ∈ Request.tracked) : bits &&& ~~~ r.bit < 16 := by
  obtain ⟨n, rfl⟩ := table_index hbits
  exact (hasBit_table n r hr r hr).2.2.2

theorem eq_zero_of_noBit (h : ∀ r ∈ Request.tracked, ¬ HasBit bits r) : bits = 0 := by
  obtain ⟨n, rfl⟩ := table_index hbits
  exact noBit_table n h

theorem foldl_or {rs : List Request} (hrs : ∀ r ∈ rs, r ∈ Request.tracked) :
    rs.foldl (fun bits r => bits ||| r.bit) bits < 16 ∧ ∀ r' ∈ Request.tracked,
      (HasBit (rs.foldl (fun bits r => bits ||| r.bit) bits) r' ↔ HasBit bits r' ∨ r' ∈ rs) := by
  induction rs generalizing bits with
  | nil => simp [hbits]
  | cons r rest ih =>
    have hr := hrs r List.mem_cons_self
    have hrest := ih (or_lt hbits hr) fun q hq => hrs q (List.mem_cons_of_mem r hq)
    refine ⟨hrest.1, fun r' hr' => ?_⟩
    rw [List.foldl_cons, hrest.2 r' hr', hasBit_or hbits hr hr', List.mem_cons, or_assoc]

end Bits

variable {K : Type}

/-! ## What a step does to the handshake -/

/-- A device of the same connection: its queue may differ. -/
structure SameLink (d d' : LidarDevice K) : Prop where
  connectState : d'.connectState = d.connectState
  livoxConfig : d'.livoxConfig = d.livoxConfig

/-- The request `x` has been answered without success, or with one that no bit
waits for; nothing else of the handshake has changed. -/
structure Answered (x : UInt32 × Request) (s s' : Driver K) : Prop where
  pub : s'.pub = s.pub
  lds : s'.lds = s.lds
  unacknowledged : s'.unacknowledged = s.unacknowledged
  informed : s'.informed = s.informed
  outstanding : ∀ y ∈ s.outstanding, y ≠ x → y ∈ s'.outstanding
  failed : ∀ y ∈ s.failed, y ∈ s'.failed
  kept : x.2 ∈ Request.tracked → x ∈ s'.outstanding ∨ x ∈ s'.failed

/-- The device after the success callback of a tracked request. -/
def LidarDevice.acknowledge (device : LidarDevice K) (request : Request) : LidarDevice K :=
  let setBits := device.livoxConfig.setBits &&& ~~~ request.bit
  { device with
    livoxConfig := { device.livoxConfig with setBits := setBits }
    connectState := if setBits == 0 then .sampling else device.connectState }

/-- A tracked request has succeeded. -/
structure Acknowledged (x : UInt32 × Request) (s s' : Driver K) : Prop where
  pub : s'.pub = s.pub
  tracked : x.2 ∈ Request.tracked
  handles : s'.lds.handles = s.lds.handles
  lidars : s'.lds.lidars =
    Function.update s.lds.lidars x.1 ((s.lds.lidars x.1).acknowledge x.2)
  unacknowledged : s'.unacknowledged = s.unacknowledged.filter fun y => y != x
  informed : s'.informed = s.informed
  outstanding : ∀ y ∈ s.outstanding, y ≠ x → y ∈ s'.outstanding
  failed : s'.failed = s.failed

theorem mem_of_ask {s : Driver K} {h : UInt32} {rs : List Request} {y : UInt32 × Request}
    (hy : y ∈ s.outstanding) : y ∈ (s.ask h rs).outstanding :=
  List.mem_append_left _ hy

theorem answered_ask (s : Driver K) {x : UInt32 × Request} (h : UInt32) (rs : List Request)
    (hx : x.2 ∈ Request.tracked → x.1 = h ∧ x.2 ∈ rs) :
    Answered x s (Driver.ask { s with outstanding := s.outstanding.erase x } h rs) where
  pub := rfl
  lds := rfl
  unacknowledged := rfl
  informed := rfl
  outstanding := fun _ hy hne => mem_of_ask ((List.mem_erase_of_ne hne).mpr hy)
  failed := fun _ hy => hy
  kept := by
    intro htracked
    obtain ⟨hh, hrs⟩ := hx htracked
    left
    refine List.mem_append_right _ (List.mem_map.mpr ⟨x.2, hrs, ?_⟩)
    rw [← hh]

theorem answered_failed (s : Driver K) (x : UInt32 × Request) :
    Answered x s { s with outstanding := s.outstanding.erase x, failed := x :: s.failed } where
  pub := rfl
  lds := rfl
  unacknowledged := rfl
  informed := rfl
  outstanding := fun _ hy hne => (List.mem_erase_of_ne hne).mpr hy
  failed := fun _ hy => List.mem_cons_of_mem x hy
  kept := fun _ => .inr List.mem_cons_self

theorem answered_quiet (s : Driver K) {x : UInt32 × Request} (hx : x.2 ∉ Request.tracked) :
    Answered x s { s with outstanding := s.outstanding.erase x } where
  pub := rfl
  lds := rfl
  unacknowledged := rfl
  informed := rfl
  outstanding := fun _ hy hne => (List.mem_erase_of_ne hne).mpr hy
  failed := fun _ hy => hy
  kept := fun htracked => absurd htracked hx

theorem setCallback_cases (s : Driver K) (h : UInt32) {r : Request} (hr : r ∈ Request.tracked)
    (status : LivoxStatus) :
    Answered (h, r) s (Driver.setCallback
        { s with outstanding := s.outstanding.erase (h, r) } h r status) ∨
      Acknowledged (h, r) s (Driver.setCallback
        { s with outstanding := s.outstanding.erase (h, r) } h r status) := by
  unfold Driver.setCallback
  by_cases hslot : h ∈ s.lds.handles
  · rw [if_pos hslot]
    cases status with
    | success =>
      right
      exact
        { pub := rfl
          tracked := hr
          handles := rfl
          lidars := rfl
          unacknowledged := rfl
          informed := rfl
          outstanding := fun _ hy hne => (List.mem_erase_of_ne hne).mpr hy
          failed := rfl }
    | timeout =>
      left
      exact answered_ask s h [r] fun _ => ⟨rfl, List.mem_singleton_self r⟩
    | failure =>
      left
      exact answered_failed s (h, r)
  · rw [if_neg hslot]
    left
    exact answered_failed s (h, r)

/-- Everything a reply of the SDK can do. -/
theorem reply_cases (s : Driver K) (h : UInt32) (r : Request) (status : LivoxStatus)
    (response : Bool) :
    s.reply h r status response = s ∨ Answered (h, r) s (s.reply h r status response) ∨
      Acknowledged (h, r) s (s.reply h r status response) := by
  rw [Driver.reply]
  by_cases hmem : (h, r) ∈ s.outstanding
  · right
    rw [if_pos hmem]
    cases r with
    | pclDataType => exact setCallback_cases s h (by decide) status
    | scanPattern => exact setCallback_cases s h (by decide) status
    | blindSpot => exact setCallback_cases s h (by decide) status
    | dualEmit => exact setCallback_cases s h (by decide) status
    | installAttitude =>
      left
      have huntracked : Request.installAttitude ∉ Request.tracked := by decide
      show Answered _ s (Driver.setAttitudeCallback _ h status)
      unfold Driver.setAttitudeCallback
      split_ifs
      · cases status with
        | success => exact answered_quiet s huntracked
        | timeout => exact answered_ask s _ _ fun htracked => absurd htracked huntracked
        | failure => exact answered_failed s _
      · exact answered_failed s _
    | workMode =>
      left
      have huntracked : Request.workMode ∉ Request.tracked := by decide
      show Answered _ s (Driver.workModeChangedCallback _ h status)
      rw [Driver.workModeChangedCallback]
      split_ifs
      · exact answered_quiet s huntracked
      · exact answered_ask s _ _ fun htracked => absurd htracked huntracked
    | imuData =>
      left
      have huntracked : Request.imuData ∉ Request.tracked := by decide
      show Answered _ s (Driver.enableLivoxLidarImuDataCallback _ h status response)
      unfold Driver.enableLivoxLidarImuDataCallback
      split_ifs
      · cases status with
        | success => exact answered_quiet s huntracked
        | timeout => exact answered_ask s _ _ fun htracked => absurd htracked huntracked
        | failure => exact answered_failed s _
      · exact answered_failed s _
  · left
    rw [if_neg hmem]

/-- Neither the decoder nor a queue of the driver has moved. -/
structure SameData (s s' : Driver K) : Prop where
  pub : s'.pub = s.pub
  data : ∀ id, (s'.lds.lidars id).data = (s.lds.lidars id).data

theorem lidarInfoChange_data (s : Driver K) (h : UInt32) : SameData s (s.lidarInfoChange h) := by
  rw [Driver.lidarInfoChange]
  split_ifs with hslot
  · refine ⟨rfl, fun id => ?_⟩
    by_cases hid : id = h
    · subst hid
      simp [Driver.ask]
    · simp [Driver.ask, hid]
  · rw [LdsLidar.getFreeIndex, if_neg hslot]
    split_ifs <;> exact ⟨rfl, fun _ => rfl⟩

theorem reply_data (s : Driver K) (h : UInt32) (r : Request) (status : LivoxStatus)
    (response : Bool) : SameData s (s.reply h r status response) := by
  rcases reply_cases s h r status response with hsame | hquiet | hacked
  · rw [hsame]
    exact ⟨rfl, fun _ => rfl⟩
  · refine ⟨hquiet.pub, fun id => ?_⟩
    rw [hquiet.lds]
  · refine ⟨hacked.pub, fun id => ?_⟩
    rw [hacked.lidars]
    by_cases hid : id = h
    · subst hid
      rw [Function.update_self]
      rfl
    · rw [Function.update_of_ne hid]

/-! ## The invariant of a configured LiDAR -/

/-- The configuration of the LiDAR is `config`; its bits are the options it has
not acknowledged, each still asked for or failed; and once it has been told, it
samples or has a bit left, if it has any option at all. -/
structure Linked (config : UserLivoxLidarConfig K) (h : UInt32) (s : Driver K) : Prop where
  slot : h ∈ s.lds.handles
  wants : ∀ r, (s.lds.lidars h).livoxConfig.wants r = config.wants r
  small : (s.lds.lidars h).livoxConfig.setBits < 16
  bits : ∀ r ∈ Request.tracked,
    (HasBit (s.lds.lidars h).livoxConfig.setBits r ↔ (h, r) ∈ s.unacknowledged)
  waiting : ∀ r ∈ Request.tracked, (h, r) ∈ s.unacknowledged →
    (h, r) ∈ s.outstanding ∨ (h, r) ∈ s.failed
  ready : h ∈ s.informed → (∃ r ∈ Request.tracked, config.wants r) →
    (s.lds.lidars h).livoxConfig.setBits ≠ 0 ∨ (s.lds.lidars h).connectState = .sampling

section Steps

variable {config : UserLivoxLidarConfig K} {h : UInt32} {s s' : Driver K}

/-- A step that leaves the handshake of this LiDAR alone, or asks for more. -/
theorem Linked.frame (hs : Linked config h s) (hslot : h ∈ s'.lds.handles)
    (hlink : SameLink (s.lds.lidars h) (s'.lds.lidars h))
    (hunacked : ∀ r, (h, r) ∈ s'.unacknowledged ↔ (h, r) ∈ s.unacknowledged)
    (hinformed : h ∈ s'.informed → h ∈ s.informed)
    (hwaiting : ∀ r ∈ Request.tracked, (h, r) ∈ s.outstanding ∨ (h, r) ∈ s.failed →
      (h, r) ∈ s'.outstanding ∨ (h, r) ∈ s'.failed) : Linked config h s' where
  slot := hslot
  wants := by
    rw [hlink.livoxConfig]
    exact hs.wants
  small := by
    rw [hlink.livoxConfig]
    exact hs.small
  bits := by
    intro r hr
    rw [hlink.livoxConfig, hunacked]
    exact hs.bits r hr
  waiting := fun r hr hmem => hwaiting r hr (hs.waiting r hr ((hunacked r).mp hmem))
  ready := by
    intro hinf hwants
    rw [hlink.livoxConfig, hlink.connectState]
    exact hs.ready (hinformed hinf) hwants

theorem Linked.answered (hs : Linked config h s) {x : UInt32 × Request}
    (hstep : Answered x s s') : Linked config h s' := by
  refine hs.frame ?_ ?_ ?_ ?_ ?_
  · rw [hstep.lds]
    exact hs.slot
  · rw [hstep.lds]
    exact ⟨rfl, rfl⟩
  · intro r
    rw [hstep.unacknowledged]
  · rw [hstep.informed]
    exact id
  · intro r hr hmem
    by_cases hx : (h, r) = x
    · subst hx
      exact hstep.kept hr
    · rcases hmem with hout | hfail
      · exact .inl (hstep.outstanding _ hout hx)
      · exact .inr (hstep.failed _ hfail)

theorem Linked.acknowledged (hs : Linked config h s) {x : UInt32 × Request}
    (hstep : Acknowledged x s s') : Linked config h s' := by
  by_cases hx : h = x.1
  · subst hx
    have hdevice : s'.lds.lidars x.1 = (s.lds.lidars x.1).acknowledge x.2 := by
      rw [hstep.lidars, Function.update_self]
    have hunacked (r : Request) :
        (x.1, r) ∈ s'.unacknowledged ↔ (x.1, r) ∈ s.unacknowledged ∧ r ≠ x.2 := by
      rw [hstep.unacknowledged, List.mem_filter]
      simp [Prod.ext_iff]
    constructor
    · rw [hstep.handles]
      exact hs.slot
    · intro r
      rw [hdevice, ← hs.wants r]
      cases r <;> rfl
    · rw [hdevice]
      exact clear_lt hs.small hstep.tracked
    · intro r hr
      rw [hdevice, hunacked, ← hs.bits r hr]
      exact hasBit_clear hs.small hstep.tracked hr
    · intro r hr hmem
      have hold := (hunacked r).mp hmem
      rcases hs.waiting r hr hold.1 with hout | hfail
      · exact .inl (hstep.outstanding _ hout fun heq => hold.2 (congrArg Prod.snd heq))
      · exact .inr (hstep.failed ▸ hfail)
    · intro _ _
      rw [hdevice, LidarDevice.acknowledge]
      by_cases hzero : (s.lds.lidars x.1).livoxConfig.setBits &&& ~~~ x.2.bit = 0
      · right
        simp [hzero]
      · left
        exact hzero
  · have hne (r : Request) : (h, r) ≠ x := fun heq => hx (congrArg Prod.fst heq)
    refine hs.frame ?_ ?_ ?_ ?_ ?_
    · rw [hstep.handles]
      exact hs.slot
    · rw [hstep.lidars, Function.update_of_ne hx]
      exact ⟨rfl, rfl⟩
    · intro r
      rw [hstep.unacknowledged, List.mem_filter]
      simp [hne r]
    · rw [hstep.informed]
      exact id
    · intro r _ hmem
      rw [hstep.failed]
      exact hmem.imp_left fun hout => hstep.outstanding _ hout (hne r)

/-- What `LidarInfoChangeCallback` asks of a LiDAR. -/
def wantedBy (config : UserLivoxLidarConfig K) : List Request :=
  Request.tracked.filter config.wants

theorem mem_wantedBy {r : Request} :
    r ∈ wantedBy config ↔ r ∈ Request.tracked ∧ config.wants r = true := List.mem_filter

theorem requestedBits_spec (hsmall : config.setBits < 16) :
    Driver.requestedBits config < 16 ∧ ∀ r ∈ Request.tracked,
      (HasBit (Driver.requestedBits config) r ↔ HasBit config.setBits r ∨ r ∈ wantedBy config) :=
  foldl_or hsmall fun _ hr => List.mem_of_mem_filter hr

/-- The callback for the LiDAR itself. -/
theorem Linked.told (hs : Linked config h s) : Linked config h (s.lidarInfoChange h) := by
  rw [Driver.lidarInfoChange, if_pos hs.slot]
  have hspec := requestedBits_spec hs.small
  have hwanted : wantedBy (s.lds.lidars h).livoxConfig = wantedBy config :=
    List.filter_congr fun r _ => hs.wants r
  constructor
  · exact hs.slot
  · intro r
    rw [← hs.wants r]
    simp only [Driver.ask, LdsLidar.setLidar, Function.update_self]
    cases r <;> rfl
  · simp only [Driver.ask, LdsLidar.setLidar, Function.update_self]
    exact hspec.1
  · intro r hr
    simp only [Driver.ask, LdsLidar.setLidar, Function.update_self]
    rw [hspec.2 r hr, hs.bits r hr, List.mem_append, List.mem_map]
    simp [wantedBy]
  · intro r hr hmem
    simp only [Driver.ask, List.mem_append, List.mem_map] at hmem ⊢
    rcases hmem with hold | hnew
    · rcases hs.waiting r hr hold with hout | hfail
      · exact .inl (.inl (.inl (.inl hout)))
      · exact .inr hfail
    · exact .inl (.inl (.inl (.inr hnew)))
  · rintro - ⟨r, hr, hwants⟩
    left
    simp only [Driver.ask, LdsLidar.setLidar, Function.update_self]
    intro hzero
    have hbit : HasBit (Driver.requestedBits (s.lds.lidars h).livoxConfig) r := by
      rw [hspec.2 r hr, hwanted]
      exact .inr (mem_wantedBy.mpr ⟨hr, hwants⟩)
    rw [hzero, HasBit, UInt32.zero_and] at hbit
    exact hbit rfl

/-- The callback for another LiDAR. -/
theorem Linked.otherTold (hs : Linked config h s) {h' : UInt32} (hne : h ≠ h') :
    Linked config h (s.lidarInfoChange h') := by
  have hpair (r r' : Request) : (h, r) ≠ (h', r') := fun heq => hne (congrArg Prod.fst heq)
  rw [Driver.lidarInfoChange]
  split_ifs with hslot
  · refine hs.frame hs.slot ?_ ?_ ?_ ?_
    · simp only [Driver.ask, LdsLidar.setLidar, Function.update_of_ne hne]
      exact ⟨rfl, rfl⟩
    · intro r
      simp only [Driver.ask, List.mem_append, List.mem_map]
      constructor
      · intro hmem
        rcases hmem with hold | ⟨r', -, heq⟩
        · exact hold
        · exact absurd heq.symm (hpair r r')
      · exact .inl
    · intro hmem
      exact (List.mem_cons.mp hmem).resolve_left hne
    · intro r _ hmem
      exact hmem.imp_left fun hout => mem_of_ask (mem_of_ask (mem_of_ask hout))
  · rw [LdsLidar.getFreeIndex, if_neg hslot]
    split_ifs
    · refine hs.frame (List.mem_append_left _ hs.slot) ⟨rfl, rfl⟩ (fun _ => Iff.rfl) ?_ ?_
      · intro hmem
        exact (List.mem_cons.mp hmem).resolve_left hne
      · intro r _ hmem
        exact hmem.imp_left mem_of_ask
    · exact hs

/-- A step that only moves points. -/
theorem Linked.moved (hs : Linked config h s) (hlds : s'.lds.handles = s.lds.handles)
    (hlink : SameLink (s.lds.lidars h) (s'.lds.lidars h))
    (hrest : s'.outstanding = s.outstanding ∧ s'.failed = s.failed ∧
      s'.unacknowledged = s.unacknowledged ∧ s'.informed = s.informed) : Linked config h s' := by
  refine hs.frame (hlds ▸ hs.slot) hlink (fun _ => by rw [hrest.2.2.1]) ?_ ?_
  · rw [hrest.2.2.2]
    exact id
  · intro r _ hmem
    rw [hrest.1, hrest.2.1]
    exact hmem

theorem publishCustomPointcloud_link (s : Driver K) (h h' : UInt32) :
    SameLink (s.lds.lidars h) ((s.publishCustomPointcloud h').1.lds.lidars h) := by
  rcases s.publishCustomPointcloud_cases h' with hsame | ⟨pkg, queue, -, -, hpop⟩
  · rw [hsame]
    exact ⟨rfl, rfl⟩
  · rw [hpop]
    by_cases hh : h = h'
    · subst hh
      simp only [LdsLidar.setLidar, Function.update_self]
      exact ⟨rfl, rfl⟩
    · simp only [LdsLidar.setLidar, Function.update_of_ne hh]
      exact ⟨rfl, rfl⟩

theorem lidarInfoChange_connectState (s : Driver K) (h h' : UInt32) :
    ((s.lidarInfoChange h').lds.lidars h).connectState = (s.lds.lidars h).connectState := by
  rw [Driver.lidarInfoChange]
  split_ifs with hslot
  · by_cases hh : h = h'
    · subst hh
      simp [Driver.ask, LdsLidar.setLidar]
    · simp [Driver.ask, LdsLidar.setLidar, Function.update_of_ne hh]
  · rw [LdsLidar.getFreeIndex, if_neg hslot]
    split_ifs <;> rfl

/-- `LidarInfoChangeCallback` has run for the LiDAR, and none of its requests is
outstanding or failed. -/
def Settled (h : UInt32) (s : Driver K) : Prop :=
  h ∈ s.informed ∧ ∀ r, (h, r) ∉ s.outstanding ∧ (h, r) ∉ s.failed

/-- A settled LiDAR has acknowledged every option. -/
theorem Linked.setBits_eq_zero (hs : Linked config h s) (hsettled : Settled h s) :
    (s.lds.lidars h).livoxConfig.setBits = 0 := by
  refine eq_zero_of_noBit hs.small fun r hr hbit => ?_
  rcases hs.waiting r hr ((hs.bits r hr).mp hbit) with hout | hfail
  · exact (hsettled.2 r).1 hout
  · exact (hsettled.2 r).2 hfail

theorem Linked.samples (hs : Linked config h s)
    (hsettled : Settled h s) (hwants : ∃ r ∈ Request.tracked, config.wants r) :
    (s.lds.lidars h).connectState = .sampling ∧ h ∈ s.lds.distributePointCloudData := by
  have hsampling := (hs.ready hsettled.1 hwants).resolve_left
    (not_not.mpr (hs.setBits_eq_zero hsettled))
  exact ⟨hsampling, List.mem_filter.mpr ⟨hs.slot, decide_eq_true hsampling⟩⟩

theorem Linked.unacknowledged_nil (hs : Linked config h s)
    (hbits : (s.lds.lidars h).livoxConfig.setBits = 0) {r : Request}
    (hr : r ∈ Request.tracked) : (h, r) ∉ s.unacknowledged := by
  rw [← hs.bits r hr, hbits, HasBit, UInt32.zero_and]
  exact fun hne => hne rfl

variable [Arith K]

theorem pushLidarData_link (lds : LdsLidar K) (packet : PointPacket K) (h : UInt32) :
    SameLink (lds.lidars h) ((lds.pushLidarData packet).lidars h) := by
  rw [LdsLidar.pushLidarData, LdsLidar.setLidar]
  by_cases hh : h = packet.handle
  · subst hh
    simp only [Function.update_self]
    exact ⟨rfl, rfl⟩
  · simp only [Function.update_of_ne hh]
    exact ⟨rfl, rfl⟩

theorem storagePointData_link (lds : LdsLidar K) (frame : List (PointPacket K)) (h : UInt32) :
    (lds.storagePointData frame).handles = lds.handles ∧
      SameLink (lds.lidars h) ((lds.storagePointData frame).lidars h) := by
  induction frame generalizing lds with
  | nil => exact ⟨rfl, rfl, rfl⟩
  | cons packet rest ih =>
    rw [LdsLidar.storagePointData, List.foldl_cons]
    by_cases hslot : packet.handle ∈ lds.handles
    · rw [if_pos hslot]
      have hpush := pushLidarData_link lds packet h
      have hrest := ih (lds.pushLidarData packet)
      exact ⟨hrest.1, hrest.2.connectState.trans hpush.connectState,
        hrest.2.livoxConfig.trans hpush.livoxConfig⟩
    · rw [if_neg hslot]
      exact ih lds

/-- Only the callback that clears the last bit makes a LiDAR sample. -/
theorem samples_of_step (trig : Trig K) {s : Driver K} {e : Event} {h : UInt32}
    (hbefore : (s.lds.lidars h).connectState ≠ .sampling)
    (hafter : ((driverStep trig s e).1.lds.lidars h).connectState = .sampling) :
    ((driverStep trig s e).1.lds.lidars h).livoxConfig.setBits = 0 := by
  cases e with
  | lidarInfoChange h' =>
    have hsame := lidarInfoChange_connectState s h h'
    exact absurd (hsame.symm.trans hafter) hbefore
  | reply h' r status response =>
    have hstep : ((s.reply h' r status response).lds.lidars h).connectState = .sampling := hafter
    show ((s.reply h' r status response).lds.lidars h).livoxConfig.setBits = 0
    rcases reply_cases s h' r status response with hsame | hquiet | hacked
    · rw [hsame] at hstep
      exact absurd hstep hbefore
    · rw [hquiet.lds] at hstep
      exact absurd hstep hbefore
    · rw [hacked.lidars] at hstep ⊢
      by_cases hh : h = h'
      · subst hh
        rw [Function.update_self, LidarDevice.acknowledge] at hstep
        rw [Function.update_self, LidarDevice.acknowledge]
        by_contra hbits
        exact hbefore (by simpa [hbits] using hstep)
      · rw [Function.update_of_ne hh] at hstep
        exact absurd hstep hbefore
  | pointPacket pkt now => exact absurd hafter hbefore
  | imuPacket timeType => exact absurd hafter hbefore
  | rawDataProcess now =>
    have hstep : ((s.rawDataProcess trig now).lds.lidars h).connectState = .sampling := hafter
    rcases s.rawDataProcess_cases trig now with hquiet | ⟨frame, -, hframe⟩
    · rw [hquiet] at hstep
      exact absurd hstep hbefore
    · rw [hframe] at hstep
      have hstore := (storagePointData_link s.lds frame h).2.connectState
      exact absurd (hstore.symm.trans hstep) hbefore
  | publishCustomPointcloud h' =>
    have hlink := (publishCustomPointcloud_link s h h').connectState
    exact absurd (hlink.symm.trans hafter) hbefore

theorem Linked.step (trig : Trig K) (hs : Linked config h s) (e : Event) :
    Linked config h (driverStep trig s e).1 := by
  cases e with
  | lidarInfoChange h' =>
    by_cases hh : h = h'
    · subst hh
      exact hs.told
    · exact hs.otherTold hh
  | reply h' r status response =>
    show Linked config h (s.reply h' r status response)
    rcases reply_cases s h' r status response with hsame | hstep | hstep
    · rw [hsame]
      exact hs
    · exact hs.answered hstep
    · exact hs.acknowledged hstep
  | pointPacket pkt now => exact hs.moved rfl ⟨rfl, rfl⟩ ⟨rfl, rfl, rfl, rfl⟩
  | imuPacket timeType => exact hs.moved rfl ⟨rfl, rfl⟩ ⟨rfl, rfl, rfl, rfl⟩
  | rawDataProcess now =>
    show Linked config h (s.rawDataProcess trig now)
    rcases s.rawDataProcess_cases trig now with hquiet | ⟨frame, -, hframe⟩
    · rw [hquiet]
      exact hs.moved rfl ⟨rfl, rfl⟩ ⟨rfl, rfl, rfl, rfl⟩
    · have hstore := storagePointData_link s.lds frame h
      rw [hframe]
      exact hs.moved hstore.1 hstore.2 ⟨rfl, rfl, rfl, rfl⟩
  | publishCustomPointcloud h' =>
    have hlink := publishCustomPointcloud_link s h h'
    show Linked config h (s.publishCustomPointcloud h').1
    rcases s.publishCustomPointcloud_cases h' with hsame | ⟨pkg, queue, -, -, hpop⟩
    · rw [hsame]
      exact hs
    · rw [hpop] at hlink ⊢
      exact hs.moved rfl hlink ⟨rfl, rfl, rfl, rfl⟩

end Steps

/-! ## Runs -/

theorem reply_quiet {s : Driver K} {h : UInt32} {r : Request} {rest : List (UInt32 × Request)}
    (hslot : h ∈ s.lds.handles) (hout : s.outstanding = (h, r) :: rest)
    (hr : r ∉ Request.tracked) : s.reply h r .success true = { s with outstanding := rest } := by
  have hmem : (h, r) ∈ s.outstanding := by simp [hout]
  have herase : s.outstanding.erase (h, r) = rest := by simp [hout]
  rw [Driver.reply, if_pos hmem, herase]
  cases r with
  | pclDataType => exact absurd (by decide) hr
  | scanPattern => exact absurd (by decide) hr
  | blindSpot => exact absurd (by decide) hr
  | dualEmit => exact absurd (by decide) hr
  | installAttitude => simp [Driver.setAttitudeCallback, hslot]
  | workMode => simp [Driver.workModeChangedCallback]
  | imuData => simp [Driver.enableLivoxLidarImuDataCallback, hslot]

theorem lidarInfoChange_quiet {s : Driver K} {h : UInt32} (hslot : h ∈ s.lds.handles)
    (hnone : wantedBy (s.lds.lidars h).livoxConfig = [])
    (hhandle : (s.lds.lidars h).livoxConfig.handle = h) (hout : s.outstanding = []) :
    (s.lidarInfoChange h).outstanding =
      [(h, .installAttitude), (h, .workMode), (h, .imuData)] ∧
    (s.lidarInfoChange h).lds.handles = s.lds.handles ∧
    (s.lidarInfoChange h).failed = s.failed ∧ h ∈ (s.lidarInfoChange h).informed := by
  rw [wantedBy] at hnone
  rw [Driver.lidarInfoChange, if_pos hslot]
  refine ⟨?_, rfl, rfl, List.mem_cons_self⟩
  simp [Driver.ask, hnone, hhandle, hout]

theorem reply_quiet_three {s : Driver K} {h : UInt32} (hslot : h ∈ s.lds.handles)
    (hout : s.outstanding = [(h, .installAttitude), (h, .workMode), (h, .imuData)]) :
    ((s.reply h .installAttitude .success true).reply h .workMode .success true).reply h .imuData
      .success true = { s with outstanding := [] } := by
  have hfirst := reply_quiet hslot hout (by decide)
  have hsecond : Driver.reply { s with outstanding := [(h, .workMode), (h, .imuData)] } h .workMode
      .success true = { s with outstanding := [(h, .imuData)] } :=
    reply_quiet hslot rfl (by decide)
  have hthird : Driver.reply { s with outstanding := [(h, .imuData)] } h .imuData .success true =
      { s with outstanding := [] } := reply_quiet hslot rfl (by decide)
  rw [hfirst, hsecond, hthird]

variable [Arith K]

variable {publishFreq : K} {configs : List (LidarConfigJson K)} {h : UInt32}

/-- The configuration of a LiDAR at start-up. -/
def configOf (publishFreq : K) (configs : List (LidarConfigJson K)) (h : UInt32) :
    UserLivoxLidarConfig K :=
  ((Driver.init publishFreq configs).lds.lidars h).livoxConfig

theorem linked_init (hslot : h ∈ (Driver.init publishFreq configs).lds.handles) :
    Linked (configOf publishFreq configs h) h (Driver.init publishFreq configs) := by
  have hfresh := freshDevices_init publishFreq configs
  constructor
  · exact hslot
  · intro r
    rfl
  · rw [hfresh.bits h]
    decide
  · intro r _
    rw [hfresh.bits h, HasBit, UInt32.zero_and]
    simp [Driver.init]
  · intro r _ hmem
    exact absurd hmem List.not_mem_nil
  · intro hinf
    exact absurd hinf List.not_mem_nil

theorem linked_run (trig : Trig K) (hslot : h ∈ (Driver.init publishFreq configs).lds.handles)
    (es : List Event) :
    Linked (configOf publishFreq configs h) h ((driver trig publishFreq configs).run
      (Driver.init publishFreq configs) es) := by
  refine Machine.run_invariant (I := Linked (configOf publishFreq configs h) h) ?_
    (linked_init hslot) es
  intro s e hs
  exact hs.step trig e

/-- In every run: once settled the LiDAR samples and its points are distributed,
and when it begins to sample no option is left unacknowledged. -/
structure Handshakes (trig : Trig K) (publishFreq : K) (configs : List (LidarConfigJson K))
    (h : UInt32) : Prop where
  settles : ∀ es, Settled h ((driver trig publishFreq configs).run
      (Driver.init publishFreq configs) es) →
    (((driver trig publishFreq configs).run (Driver.init publishFreq configs) es).lds.lidars
      h).connectState = .sampling ∧
    h ∈ ((driver trig publishFreq configs).run
      (Driver.init publishFreq configs) es).lds.distributePointCloudData
  waits : ∀ es e,
    (((driver trig publishFreq configs).run (Driver.init publishFreq configs) es).lds.lidars
      h).connectState ≠ .sampling →
    (((driver trig publishFreq configs).run (Driver.init publishFreq configs)
      (es ++ [e])).lds.lidars h).connectState = .sampling →
    ∀ r ∈ Request.tracked, (h, r) ∉ ((driver trig publishFreq configs).run
      (Driver.init publishFreq configs) (es ++ [e])).unacknowledged

/-- The callback runs once and the three requests no bit waits for succeed. -/
def quietStart (h : UInt32) : List Event :=
  [.lidarInfoChange h, .reply h .installAttitude .success true, .reply h .workMode .success true,
    .reply h .imuData .success true]

theorem quietStart_run (trig : Trig K) (hslot : h ∈ (Driver.init publishFreq configs).lds.handles)
    (hnone : wantedBy (configOf publishFreq configs h) = []) :
    (driver trig publishFreq configs).run (Driver.init publishFreq configs) (quietStart h) =
      { (Driver.init publishFreq configs).lidarInfoChange h with outstanding := [] } := by
  have hhandle := (freshDevices_init publishFreq configs).handle h hslot
  obtain ⟨hout, hhandles, -, -⟩ := lidarInfoChange_quiet hslot hnone hhandle rfl
  have hslot' : h ∈ ((Driver.init publishFreq configs).lidarInfoChange h).lds.handles :=
    hhandles ▸ hslot
  exact reply_quiet_three hslot' hout

/-- For every configuration file and configured LiDAR: the handshake does what it
is for exactly when the configuration has one of the four options. -/
theorem handshakes_iff (trig : Trig K) (publishFreq : K) (configs : List (LidarConfigJson K))
    (h : UInt32) (hslot : h ∈ (Driver.init publishFreq configs).lds.handles) :
    Handshakes trig publishFreq configs h ↔
      ∃ r ∈ Request.tracked, (configOf publishFreq configs h).wants r := by
  constructor
  · intro hshake
    by_contra hnone
    have hwanted : wantedBy (configOf publishFreq configs h) = [] := by
      refine List.eq_nil_iff_forall_not_mem.mpr fun r hr => hnone ⟨r, mem_wantedBy.mp hr⟩
    have hrun := quietStart_run trig hslot hwanted
    have hfresh := freshDevices_init publishFreq configs
    obtain ⟨-, -, hfailed, hinformed⟩ :=
      lidarInfoChange_quiet hslot hwanted (hfresh.handle h hslot) rfl
    have hsettled : Settled h ((driver trig publishFreq configs).run
        (Driver.init publishFreq configs) (quietStart h)) := by
      rw [hrun]
      refine ⟨hinformed, fun r => ⟨List.not_mem_nil, ?_⟩⟩
      show (h, r) ∉ ((Driver.init publishFreq configs).lidarInfoChange h).failed
      rw [hfailed]
      exact List.not_mem_nil
    have hsampling := (hshake.settles _ hsettled).1
    rw [hrun] at hsampling
    have hoff := lidarInfoChange_connectState (Driver.init publishFreq configs) h h
    rw [hfresh.off h] at hoff
    exact LidarConnectState.noConfusion (hoff.symm.trans hsampling)
  · intro hwants
    constructor
    · intro es hsettled
      exact (linked_run trig hslot es).samples hsettled hwants
    · intro es e hbefore hafter r hr
      rw [Machine.run_snoc] at hafter
      have hbits := samples_of_step trig hbefore hafter
      have hlinked := linked_run trig hslot (es ++ [e])
      refine hlinked.unacknowledged_nil ?_ hr
      rw [Machine.run_snoc]
      exact hbits

/-- An entry with an address and nothing else. -/
def bareConfig : LidarConfigJson ℚ := ⟨some 1, none, none, none, none, none⟩

def blindSpotConfig : LidarConfigJson ℚ := { bareConfig with blindSpotSet := some 50 }

/-- A configuration with one option. -/
theorem handshakes_iff_blindSpot :
    Handshakes restTrig 10 [blindSpotConfig] 1 ↔
      ∃ r ∈ Request.tracked, (configOf 10 [blindSpotConfig] 1).wants r :=
  handshakes_iff restTrig 10 [blindSpotConfig] 1 (by decide +kernel)

/-- The LiDAR of an entry without options is told, answers everything, and never
samples. -/
theorem bareConfig_never_samples : ¬ Handshakes restTrig 10 [bareConfig] 1 := by
  intro hshake
  have hsettled : Settled 1 ((driver restTrig 10 [bareConfig]).run
      (Driver.init 10 [bareConfig]) (quietStart 1)) := by
    refine ⟨by decide +kernel, fun r => ?_⟩
    cases r <;> decide +kernel
  have hsampling := (hshake.settles _ hsettled).1
  revert hsampling
  decide +kernel

end LivoxDriver
end RobotNav
