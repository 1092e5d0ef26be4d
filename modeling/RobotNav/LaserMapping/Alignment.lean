/-
The parallel buffers of scans and begin times.

Each scan has its header stamp beside it in `time_buffer`, and `sync_packages`
pops both.  The LiDAR callbacks clear `lidar_buffer` alone when a stamp goes
backwards, so the two stay aligned exactly in the runs in which every such stamp
finds `lidar_buffer` empty.
-/
import RobotNav.LaserMapping.Buffers

namespace RobotNav
namespace LaserMapping

variable {K : Type}

/-- The two buffers have the same length, and each entry of `time_buffer` is the
header stamp of the scan at its place. -/
def Aligned (s : State K) : Prop := s.timeBuffer = s.lidarBuffer.map Scan.stamp

theorem aligned_iff {s : State K} :
    Aligned s ↔ s.timeBuffer.length = s.lidarBuffer.length ∧
      ∀ (i : ℕ) (scan : Scan K),
        s.lidarBuffer[i]? = some scan → s.timeBuffer[i]? = some scan.stamp := by
  rw [Aligned]
  constructor
  · intro h
    refine ⟨by rw [h, List.length_map], fun i scan hi => ?_⟩
    rw [h, List.getElem?_map, hi]
    rfl
  · intro ⟨hlen, hget⟩
    refine List.ext_getElem? fun i => ?_
    rw [List.getElem?_map]
    cases hi : s.lidarBuffer[i]? with
    | none =>
      have hle : s.lidarBuffer.length ≤ i := List.getElem?_eq_none_iff.mp hi
      rw [List.getElem?_eq_none_iff.mpr (hlen ▸ hle)]
      rfl
    | some scan => rw [hget i scan hi]; rfl

/-- A package is the pair removed from the fronts of the two buffers. -/
def Delivers (s s' : State K) : Output K → Prop
  | .package meas =>
    s.lidarBuffer = meas.lidar :: s'.lidarBuffer ∧
      s.timeBuffer = meas.lidarBegTime :: s'.timeBuffer
  | _ => True

/-- While the latch is set, `meas` holds the fronts of the two buffers. -/
structure Latched (s : State K) : Prop where
  aligned : Aligned s
  front : s.lidarPushed = true →
    s.lidarBuffer.head? = some s.measures.lidar ∧
      s.timeBuffer.head? = some s.measures.lidarBegTime

/-- A callback that puts a scan and its stamp at the two backs, and keeps the
latch, keeps the fronts. -/
theorem Latched.push {s s' : State K} (h : Latched s) {kept : List (Scan K)} {scan : Scan K}
    (hkept : kept = s.lidarBuffer) (hlidar : s'.lidarBuffer = kept ++ [scan])
    (htime : s'.timeBuffer = s.timeBuffer ++ [scan.stamp])
    (hpushed : s'.lidarPushed = s.lidarPushed) (hmeas : s'.measures = s.measures) :
    Latched s' := by
  subst hkept
  constructor
  · rw [Aligned, hlidar, htime, h.aligned, List.map_append]
    rfl
  · intro hp
    obtain ⟨hl, ht⟩ := h.front (hpushed ▸ hp)
    rw [hlidar, htime, hmeas, List.head?_append, List.head?_append, hl, ht]
    exact ⟨rfl, rfl⟩

/-- A stamp that goes backwards over a waiting scan leaves `time_buffer`
longer than `lidar_buffer`. -/
theorem not_aligned_of_clear {s s' : State K} {scan : Scan K} (h : Aligned s)
    (hne : s.lidarBuffer ≠ []) (hlidar : s'.lidarBuffer = [scan])
    (htime : s'.timeBuffer = s.timeBuffer ++ [scan.stamp]) : ¬ Aligned s' := by
  intro h'
  unfold Aligned at h h'
  have hlen := congrArg List.length h'
  rw [hlidar, htime, h] at hlen
  simp only [List.length_append, List.length_map, List.length_singleton] at hlen
  exact hne (List.eq_nil_of_length_eq_zero (by omega))

variable [Arith K] {μ : Type} {cfg : Config K μ}

/-- What the pair of buffers promises of one step. -/
def StepAligned (cfg : Config K μ) (s : State K) (e : Event K μ) : Prop :=
  Aligned ((buffers cfg).next s e) ∧ Delivers s ((buffers cfg).next s e) ((buffers cfg).out s e)

/-- The stamp of a LiDAR message goes backwards only when no scan is waiting. -/
def ClearsNothing (s : State K) : Event K μ → Prop
  | .standardPcl msg | .livoxPcl msg =>
    s.loopBack (getTimeSec msg.stamp) = true → s.lidarBuffer = []
  | _ => True

theorem init_aligned : Aligned (State.init : State K) := rfl

theorem init_latched : Latched (State.init : State K) :=
  ⟨init_aligned, fun h => absurd h Bool.false_ne_true⟩

/-! ## The callbacks -/

theorem cleared_eq {s : State K} {curTime : K}
    (h : s.loopBack curTime = true → s.lidarBuffer = []) :
    (if s.loopBack curTime = true then [] else s.lidarBuffer) = s.lidarBuffer := by
  split
  · rename_i hback
    rw [h hback]
  · rfl

/-! ## `sync_packages` -/

theorem latched_latched {s : State K} (h : Latched s) : Latched s.latched := by
  rw [State.latched]
  split
  · exact h
  · constructor
    · rw [Aligned, pushScan_timeBuffer, pushScan_lidarBuffer]
      exact h.aligned
    · intro _
      rw [pushScan_timeBuffer, pushScan_lidarBuffer]
      have halign := h.aligned
      unfold Aligned at halign
      unfold State.pushScan at *
      cases hl : s.lidarBuffer with
      | nil =>
        -- the latch is off and the push did nothing
        simp_all
      | cons scan rest =>
        rw [hl, List.map_cons] at halign
        simp only [halign]
        exact ⟨rfl, rfl⟩

/-- The latch is set in the state that is about to pop. -/
theorem latched_lidarPushed {s : State K} (h : Aligned s) (hne : s.lidarBuffer ≠ []) :
    s.latched.lidarPushed = true := by
  rw [State.latched]
  split
  · assumption
  · obtain ⟨scan, rest, hl⟩ := List.exists_cons_of_ne_nil hne
    unfold Aligned at h
    rw [hl, List.map_cons] at h
    simp [State.pushScan, hl, h]

theorem popPackage_buffers {s : State K} (hne : s.imuBuffer ≠ []) :
    s.popPackage.lidarBuffer = s.lidarBuffer.tail ∧
      s.popPackage.timeBuffer = s.timeBuffer.tail ∧ s.popPackage.lidarPushed = false := by
  obtain ⟨m, rest, hi⟩ := List.exists_cons_of_ne_nil hne
  rw [State.popPackage, hi]
  exact ⟨rfl, rfl, rfl⟩

theorem popPackage_latched {s : State K} (h : Aligned s) (hne : s.imuBuffer ≠ []) :
    Latched s.popPackage := by
  obtain ⟨hl, ht, hp⟩ := popPackage_buffers hne
  constructor
  · unfold Aligned at *
    rw [hl, ht, h, List.map_tail]
  · intro hpushed
    rw [hp] at hpushed
    cases hpushed

theorem sync_stepAligned (cfg : Config K μ) {s : State K} (h : Latched s) :
    Latched (syncPackages s).1 ∧ StepAligned cfg s .sync := by
  rw [StepAligned, buffers_next_sync, buffers_out_sync]
  rcases syncPackages_cases s with hs | ⟨hs, -⟩ | ⟨hs, hlidar, himu, -⟩
  · rw [hs]
    exact ⟨h, h.aligned, trivial⟩
  · rw [hs]
    exact ⟨latched_latched h, (latched_latched h).aligned, trivial⟩
  · rw [hs]
    have hlat := latched_latched h
    have himu' : s.latched.imuBuffer ≠ [] := by rwa [latched_imuBuffer]
    have hpop := popPackage_latched hlat.aligned himu'
    refine ⟨hpop, hpop.aligned, ?_⟩
    obtain ⟨hl, ht, -⟩ := popPackage_buffers himu'
    obtain ⟨hhead, hthead⟩ := hlat.front (latched_lidarPushed h.aligned hlidar)
    rw [latched_lidarBuffer] at hl hhead
    rw [latched_timeBuffer] at ht hthead
    simp only [if_true, Delivers, popPackage_lidar, popPackage_lidarBegTime, hl, ht]
    exact ⟨(List.cons_head?_tail hhead).symm, (List.cons_head?_tail hthead).symm⟩

/-! ## Runs -/

theorem step_latched {s : State K} {e : Event K μ} (h : Latched s) (hclear : ClearsNothing s e) :
    Latched ((buffers cfg).next s e) := by
  cases e with
  | standardPcl msg =>
    exact h.push (cleared_eq hclear) rfl rfl rfl rfl
  | livoxPcl msg =>
    exact h.push (cleared_eq hclear) rfl rfl rfl rfl
  | imu msg => exact ⟨h.aligned, h.front⟩
  | sync =>
    rw [buffers_next_sync]
    exact (sync_stepAligned cfg h).1

theorem step_stepAligned {s : State K} {e : Event K μ} (h : Latched s)
    (hclear : ClearsNothing s e) : StepAligned cfg s e := by
  cases e with
  | standardPcl msg => exact ⟨(step_latched h hclear).aligned, trivial⟩
  | livoxPcl msg => exact ⟨(step_latched h hclear).aligned, trivial⟩
  | imu msg => exact ⟨(step_latched h hclear).aligned, trivial⟩
  | sync => exact (sync_stepAligned cfg h).2

theorem clearsNothing_of_aligned {s : State K} {e : Event K μ} (h : Aligned s)
    (h' : Aligned ((buffers cfg).next s e)) : ClearsNothing s e := by
  cases e with
  | standardPcl msg =>
    intro hback
    by_contra hne
    rw [buffers_next_standardPcl] at h'
    exact not_aligned_of_clear h hne (by simp only [standardPclCbk, hback]; rfl) rfl h'
  | livoxPcl msg =>
    intro hback
    by_contra hne
    rw [buffers_next_livoxPcl] at h'
    exact not_aligned_of_clear h hne (by simp only [livoxPclCbk, hback]; rfl) rfl h'
  | imu msg => trivial
  | sync => trivial

/-- Over every run: the buffers stay aligned and every package is the pair taken
from their fronts exactly when no stamp goes backwards over a waiting scan. -/
theorem stepAligned_iff_clearsNothing (cfg : Config K μ) (es : List (Event K μ)) :
    (buffers cfg).Along (StepAligned cfg) State.init es ↔
      (buffers cfg).Along ClearsNothing State.init es := by
  constructor
  · exact Machine.along_of_invariant (I := Aligned) (fun s e _ hstep => hstep.1)
      (fun s e hs hstep => clearsNothing_of_aligned hs hstep.1) init_aligned
  · exact Machine.along_of_invariant (I := Latched) (fun s e hs hc => step_latched hs hc)
      (fun s e hs hc => step_stepAligned hs hc) init_latched

/-- A second scan, stamped a second before the first that still waits. -/
def clockJump : List (Event ℚ (List (Point ℚ))) :=
  [.standardPcl ⟨⟨2, 0⟩, []⟩, .standardPcl ⟨⟨1, 0⟩, []⟩]

/-- `lidar_buffer` then holds one scan and `time_buffer` two stamps, the first of
them that of the scan that is gone. -/
theorem clockJump_not_aligned :
    ¬ (buffers plainConfig).Along (StepAligned plainConfig) State.init clockJump := by
  intro ⟨_, ⟨halign, _⟩, _⟩
  have hlen := (aligned_iff.mp halign).1
  revert hlen
  decide +kernel

end LaserMapping
end RobotNav
