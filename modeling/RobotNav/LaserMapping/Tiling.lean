/-
The filter is propagated over time without gap or overlap.

`UndistortPcl` starts from the last message of the package before, which is not
newer than the end of the last scan; all messages of the new package lie between
that end and the end of the new scan.  The steps therefore telescope, also when
packages without IMU messages were skipped in between.
-/
import RobotNav.LaserMapping.Node
import RobotNav.LaserMapping.Packages
import Mathlib.Data.List.Chain
import Mathlib.Tactic.Linarith

namespace RobotNav
namespace LaserMapping

variable {K : Type} [Arith K] {S M μ : Type}

/-! ## The time steps of the forward loop -/

/-- The steps of the forward loop, read off the stamps. -/
def forwardDts (lastEnd : K) : List (ImuMsg K) → List K
  | head :: tail :: rest =>
    (if tail.sec < lastEnd then [] else [pairDt lastEnd head tail]) ++
      forwardDts lastEnd (tail :: rest)
  | _ => []

theorem forward_dts (f : Filter K S) (p : ImuProcess K) (begTime : K) :
    ∀ (l : List (ImuMsg K)) (g : Propagation K S),
      (Propagation.forward f p begTime g l).dts = g.dts ++ forwardDts p.lastLidarEndTime l
  | [], g => by simp [Propagation.forward, forwardDts]
  | [_], g => by simp [Propagation.forward, forwardDts]
  | head :: tail :: rest, g => by
    rw [Propagation.forward, forward_dts f p begTime (tail :: rest), forwardDts]
    by_cases hskip : tail.sec < p.lastLidarEndTime
    · simp only [hskip, if_true, List.nil_append]
    · simp only [hskip, if_false, Propagation.advance, List.append_assoc]

theorem undistortPcl_dts (f : Filter K S) (p : ImuProcess K) (meas : MeasureGroup K) (kf : S) :
    (p.undistortPcl f meas kf).2.2.dts =
      forwardDts p.lastLidarEndTime (p.lastImu :: meas.imu) ++
        [tailDt meas.lidarEndTime (((p.lastImu :: meas.imu).getLast?.getD p.lastImu).sec)] := by
  show (Propagation.forward f p meas.lidarBegTime _ (p.lastImu :: meas.imu)).dts ++ _ = _
  rw [forward_dts, ImuProcess.propagation, List.nil_append]

/-! ## Exact arithmetic -/

theorem tailDt_eq (a b : ℚ) : tailDt a b = |a - b| := by
  rw [tailDt]
  by_cases h : b < a
  · have hpos : 0 ≤ a - b := by linarith
    rw [if_pos h, abs_of_nonneg hpos]
    simp [lit]
  · have hneg : a - b ≤ 0 := by linarith
    rw [if_neg h, abs_of_nonpos hneg]
    simp [lit]

/-- Past the end of the last scan the steps are the differences of neighbouring
stamps. -/
theorem forwardDts_after {lastEnd : ℚ} :
    ∀ (l : List (ImuMsg ℚ)) (head : ImuMsg ℚ), lastEnd ≤ head.sec →
      ((head :: l).Pairwise fun a b => a.sec ≤ b.sec) →
      (∀ dt ∈ forwardDts lastEnd (head :: l), 0 ≤ dt) ∧
        (forwardDts lastEnd (head :: l)).sum = (l.getLast?.getD head).sec - head.sec := by
  intro l
  induction l with
  | nil =>
    intro head _ _
    refine ⟨fun dt hdt => absurd hdt List.not_mem_nil, ?_⟩
    simp [forwardDts]
  | cons tail rest ih =>
    intro head hhead hsorted
    have hle : head.sec ≤ tail.sec :=
      (List.pairwise_cons.mp hsorted).1 tail List.mem_cons_self
    have htail : lastEnd ≤ tail.sec := le_trans hhead hle
    obtain ⟨hnonneg, hsum⟩ := ih tail htail (List.pairwise_cons.mp hsorted).2
    have hdt : forwardDts lastEnd (head :: tail :: rest) =
        (tail.sec - head.sec) :: forwardDts lastEnd (tail :: rest) := by
      rw [forwardDts, if_neg (not_lt.mpr htail), pairDt, if_neg (not_lt.mpr hhead)]
      rfl
    rw [hdt]
    constructor
    · intro dt hmem
      rcases List.mem_cons.mp hmem with rfl | hmem
      · linarith
      · exact hnonneg dt hmem
    · have hlast : ((tail :: rest).getLast?.getD head) = rest.getLast?.getD tail := by
        rw [List.getLast?_cons]
        rfl
      rw [List.sum_cons, hsum, hlast]
      ring

/-- A call tiles the time since the call before: its steps are not negative and
add up to the distance of the two scan ends. -/
def TilesTime (a b : Undistorted ℚ) : Prop :=
  (∀ dt ∈ b.dts, 0 ≤ dt) ∧ b.dts.sum = b.pclEndTime - a.pclEndTime

/-- The call sees `last_imu_` not after the end of the last scan, and the package
between the two scan ends. -/
theorem undistortPcl_tiles (f : Filter ℚ S) {p : ImuProcess ℚ} {meas : MeasureGroup ℚ} (kf : S)
    {a : Undistorted ℚ} (ha : p.lastLidarEndTime = a.pclEndTime)
    (hlast : p.lastImu.sec ≤ a.pclEndTime) (hne : meas.imu ≠ [])
    (hsorted : meas.imu.Pairwise fun x y => x.sec ≤ y.sec)
    (hlow : ∀ m ∈ meas.imu, a.pclEndTime ≤ m.sec)
    (hup : ∀ m ∈ meas.imu, m.sec ≤ meas.lidarEndTime) :
    TilesTime a (p.undistortPcl f meas kf).2.2 := by
  obtain ⟨head, rest, himu⟩ := List.exists_cons_of_ne_nil hne
  have hhead : a.pclEndTime ≤ head.sec := hlow head (by rw [himu]; exact List.mem_cons_self)
  rw [himu] at hsorted
  obtain ⟨hnonneg, hsum⟩ := forwardDts_after rest head hhead hsorted
  -- the first step starts at the end of the last scan, clipped or not
  have hfirst : pairDt a.pclEndTime p.lastImu head = head.sec - a.pclEndTime := by
    rw [pairDt]
    by_cases hclip : p.lastImu.sec < a.pclEndTime
    · rw [if_pos hclip]
    · rw [if_neg hclip]
      have heq : p.lastImu.sec = a.pclEndTime := le_antisymm hlast (not_lt.mp hclip)
      rw [heq]
  have hback : (p.lastImu :: meas.imu).getLast?.getD p.lastImu = rest.getLast?.getD head := by
    rw [himu, List.getLast?_cons, List.getLast?_cons]
    rfl
  have hbackmem : rest.getLast?.getD head ∈ meas.imu := by
    rw [himu]
    cases hcase : rest.getLast? with
    | none => exact List.mem_cons_self
    | some m => exact List.mem_cons_of_mem _ (List.mem_of_getLast? hcase)
  have htail : tailDt meas.lidarEndTime (rest.getLast?.getD head).sec =
      meas.lidarEndTime - (rest.getLast?.getD head).sec := by
    have hle := hup _ hbackmem
    rw [tailDt_eq, abs_of_nonneg (by linarith)]
  have hdts : (p.undistortPcl f meas kf).2.2.dts =
      (head.sec - a.pclEndTime) :: forwardDts a.pclEndTime (head :: rest) ++
        [meas.lidarEndTime - (rest.getLast?.getD head).sec] := by
    rw [undistortPcl_dts, hback, htail, ha, himu, forwardDts, if_neg (not_lt.mpr hhead), hfirst]
    rfl
  have hend : (p.undistortPcl f meas kf).2.2.pclEndTime = meas.lidarEndTime := rfl
  constructor
  · intro dt hmem
    rw [hdts] at hmem
    rcases List.mem_append.mp hmem with hmem | hmem
    · rcases List.mem_cons.mp hmem with rfl | hmem
      · linarith
      · exact hnonneg dt hmem
    · have hle := hup _ hbackmem
      rw [List.mem_singleton.mp hmem]
      linarith
  · rw [hdts, hend, List.sum_append, List.sum_cons, hsum, List.sum_singleton]
    ring

/-! ## What `Process` keeps -/

/-- Everything `Process` can do: skip an empty package, take an initialisation
step, or undistort. -/
theorem process_cases (f : Filter K S) (p : ImuProcess K) (meas : MeasureGroup K) (kf : S) :
    (meas.imu = [] ∧ p.process f meas kf = (p, kf, none)) ∨
    (meas.imu ≠ [] ∧ p.imuNeedInit = true ∧ (p.process f meas kf).2.2 = none) ∨
    (meas.imu ≠ [] ∧ p.imuNeedInit = false ∧
      p.process f meas kf = ((p.undistortPcl f meas kf).1, (p.undistortPcl f meas kf).2.1,
        some (p.undistortPcl f meas kf).2.2)) := by
  rw [ImuProcess.process]
  by_cases hempty : meas.imu = []
  · left
    simp [hempty]
  · have hisEmpty : meas.imu.isEmpty = false := by simp [hempty]
    cases hinit : p.imuNeedInit with
    | true =>
      right; left
      exact ⟨hempty, rfl, by simp [hisEmpty]⟩
    | false =>
      right; right
      exact ⟨hempty, rfl, by simp [hisEmpty]⟩

variable {cfg : Config K μ} {env : Env K S M}

/-- A package either goes through `Process` or is the first one, which is
dropped. -/
theorem usePackage_imu (env : Env K S M) (s : NodeState K S M) (meas : MeasureGroup K) :
    ((s.usePackage env meas).1.imu = s.imu ∧ (s.usePackage env meas).2.undistorted = none) ∨
    ((s.usePackage env meas).1.imu = (s.imu.process env.filter meas s.kf).1 ∧
      (s.usePackage env meas).2.undistorted = (s.imu.process env.filter meas s.kf).2.2) := by
  by_cases hfirst : s.flgFirstScan = true
  · left
    simp only [NodeState.usePackage, hfirst, if_true]
    exact ⟨trivial, trivial⟩
  · right
    simp only [NodeState.usePackage, hfirst, if_false, mapScan_imu, Bool.false_eq_true]
    exact ⟨trivial, trivial⟩

/-! ## Runs of the node -/

/-- The calls of `UndistortPcl`, in order. -/
def undistortCalls (os : List (NodeOut K)) : List (Undistorted K) :=
  os.filterMap NodeOut.undistorted

omit [Arith K] in
theorem undistortCalls_snoc (os : List (NodeOut K)) (o : NodeOut K) :
    undistortCalls (os ++ [o]) = undistortCalls os ++ o.undistorted.toList := by
  rw [undistortCalls, List.filterMap_append]
  cases h : o.undistorted with
  | none => rw [List.filterMap_cons_none h]; rfl
  | some u => rw [List.filterMap_cons_some h]; rfl

/-- The calls so far tile time, and `ImuProcess` remembers the end of the last
one. -/
structure Propagated (os : List (NodeOut ℚ)) (s : NodeState ℚ S M) : Prop where
  chain : (undistortCalls os).IsChain TilesTime
  initialised : undistortCalls os ≠ [] → s.imu.imuNeedInit = false
  last : ∀ a, (undistortCalls os).getLast? = some a →
    s.imu.lastLidarEndTime = a.pclEndTime ∧ s.imu.lastImu.sec ≤ a.pclEndTime ∧
      ∃ p ∈ packages (os.map NodeOut.input), p.lidarEndTime = a.pclEndTime

/-- A step without a call of `UndistortPcl`, and after which `ImuProcess` is as it
was unless no call was made so far. -/
theorem Propagated.idle {os : List (NodeOut ℚ)} {s s' : NodeState ℚ S M} (h : Propagated os s)
    {o : NodeOut ℚ} (ho : o.undistorted = none)
    (himu : undistortCalls os ≠ [] → s'.imu = s.imu) : Propagated (os ++ [o]) s' := by
  have hcalls : undistortCalls (os ++ [o]) = undistortCalls os := by
    rw [undistortCalls_snoc, ho]
    exact List.append_nil _
  constructor
  · rw [hcalls]
    exact h.chain
  · intro hne
    rw [hcalls] at hne
    rw [himu hne]
    exact h.initialised hne
  · intro a ha
    rw [hcalls] at ha
    have hne : undistortCalls os ≠ [] := by
      intro hnil
      rw [hnil] at ha
      cases ha
    obtain ⟨hend, hlast, p, hp, hpend⟩ := h.last a ha
    rw [himu hne]
    refine ⟨hend, hlast, p, ?_, hpend⟩
    rw [List.map_append, List.map_singleton, packages_snoc]
    exact List.mem_append_left _ hp

/-- What the package of a step owes to the messages before it. -/
structure PackageInWindow (os : List (Output K)) (meas : MeasureGroup K) : Prop where
  sorted : meas.imu.Pairwise fun x y => x.sec ≤ y.sec
  lower : ∀ p ∈ packages os, ∀ m ∈ meas.imu, p.lidarEndTime ≤ m.sec
  upper : ∀ m ∈ meas.imu, m.sec ≤ meas.lidarEndTime

theorem Tiled.packageInWindow {os : List (Output K)} {s : State K} {meas : MeasureGroup K}
    (h : Tiled (os ++ [.package meas]) s)
    (hinc : StampsIncrease (arrivals (os ++ [.package meas]))) : PackageInWindow os meas := by
  have hp : packages (os ++ [.package meas]) = packages os ++ [meas] := by
    simp [packages_snoc, Output.delivered]
  have hconcat := h.concat
  have hlower := h.lower
  have hupper := h.upper
  rw [hp] at hconcat hlower hupper
  refine ⟨?_, ?_, hupper meas (List.mem_append_right _ (List.mem_singleton_self _))⟩
  · have hle := hinc.le
    rw [← hconcat, List.flatMap_append, List.flatMap_singleton] at hle
    exact (List.pairwise_append.mp (List.pairwise_append.mp hle).1).2.1
  · intro p hmem
    exact (List.pairwise_append.mp hlower).2.2 p hmem meas (List.mem_singleton_self _)

theorem Propagated.undistort {os : List (NodeOut ℚ)} {s s' : NodeState ℚ S M}
    (h : Propagated os s) {meas : MeasureGroup ℚ} {o : NodeOut ℚ} (hin : o.input = .package meas)
    (hwin : PackageInWindow (os.map NodeOut.input) meas) (hne : meas.imu ≠ [])
    (f : Filter ℚ S) (kf : S) (hinit : s.imu.imuNeedInit = false)
    (himu : s'.imu = (s.imu.undistortPcl f meas kf).1)
    (ho : o.undistorted = some (s.imu.undistortPcl f meas kf).2.2) :
    Propagated (os ++ [o]) s' := by
  have hcalls : undistortCalls (os ++ [o]) =
      undistortCalls os ++ [(s.imu.undistortPcl f meas kf).2.2] := by
    rw [undistortCalls_snoc, ho]
    rfl
  constructor
  · rw [hcalls, List.isChain_append]
    refine ⟨h.chain, List.isChain_singleton _, ?_⟩
    intro a ha b hb
    have hb' : (s.imu.undistortPcl f meas kf).2.2 = b := Option.some.inj hb
    obtain ⟨hend, hlast, p, hp, hpend⟩ := h.last a ha
    rw [← hb']
    refine undistortPcl_tiles f kf hend hlast hne hwin.sorted ?_ hwin.upper
    rw [← hpend]
    exact hwin.lower p hp
  · intro _
    rw [himu]
    exact hinit
  · intro a ha
    rw [hcalls, List.getLast?_concat] at ha
    rw [← Option.some.inj ha, himu]
    obtain ⟨back, hback⟩ : ∃ m, meas.imu.getLast? = some m :=
      ⟨_, List.getLast?_eq_some_getLast hne⟩
    refine ⟨rfl, ?_, meas, ?_, rfl⟩
    · show (meas.imu.getLast?.getD s.imu.lastImu).sec ≤ meas.lidarEndTime
      rw [hback]
      exact hwin.upper back (List.mem_of_getLast? hback)
    · rw [List.map_append, List.map_singleton, packages_snoc, hin]
      exact List.mem_append_right _ (List.mem_singleton_self _)

theorem usePackage_propagated {env : Env ℚ S M} {os : List (NodeOut ℚ)} {s : NodeState ℚ S M}
    (h : Propagated os s) {meas : MeasureGroup ℚ}
    (hwin : PackageInWindow (os.map NodeOut.input) meas) :
    Propagated (os ++ [(s.usePackage env meas).2]) (s.usePackage env meas).1 := by
  rcases usePackage_imu env s meas with ⟨himu, hnone⟩ | ⟨himu, hcall⟩
  · exact h.idle hnone fun _ => himu
  · rcases process_cases env.filter s.imu meas s.kf with
      ⟨-, hproc⟩ | ⟨-, hinit, hproc⟩ | ⟨hne, hinit, hproc⟩
    · rw [hproc] at himu hcall
      exact h.idle hcall fun _ => himu
    · rw [hproc] at hcall
      refine h.idle hcall fun hcalls => ?_
      rw [h.initialised hcalls] at hinit
      cases hinit
    · rw [hproc] at himu hcall
      exact h.undistort (usePackage_buf s meas).2 hwin hne env.filter s.kf hinit himu hcall

theorem timerCallback_propagated {env : Env ℚ S M} {os : List (NodeOut ℚ)}
    {s : NodeState ℚ S M} (h : Propagated os s)
    (hwin : ∀ meas, (timerCallback env s).2.input = .package meas →
      PackageInWindow (os.map NodeOut.input) meas) :
    Propagated (os ++ [(timerCallback env s).2]) (timerCallback env s).1 := by
  rcases timerCallback_cases env s with ⟨-, htimer⟩ | ⟨-, htimer⟩
  · rw [htimer]
    exact h.idle rfl fun _ => rfl
  · rw [htimer] at hwin ⊢
    have hbuf : Propagated os { s with buf := (syncPackages s.buf).1 } :=
      ⟨h.chain, h.initialised, h.last⟩
    exact usePackage_propagated hbuf (hwin _ (usePackage_buf _ _).2)

theorem run_propagated {cfg : Config ℚ μ} {env : Env ℚ S M} {imu : ImuProcess ℚ} {kf : S}
    {map : M} (es : List (Event ℚ μ))
    (hinc : StampsIncrease (arrivals
      (((mappingNode cfg env imu kf map).outs (NodeState.init imu kf map) es).map
        NodeOut.input))) :
    Propagated ((mappingNode cfg env imu kf map).outs (NodeState.init imu kf map) es)
      ((mappingNode cfg env imu kf map).run (NodeState.init imu kf map) es) := by
  induction es using List.reverseRecOn with
  | nil =>
    exact ⟨List.isChain_nil, fun hne => absurd rfl hne, fun a ha => absurd ha (by
      simp [undistortCalls])⟩
  | append_singleton es e ih =>
    have hproj := mappingNode_projects cfg env imu kf map
    -- the buffers inside the node tile the arrivals of the whole run
    have htiled := run_tiled cfg (es ++ [e]) (by
      rw [hproj.outs] at hinc
      exact hinc)
    rw [Machine.outs_snoc, List.map_append, List.map_singleton] at hinc
    have hpre := hinc
    rw [arrivals_snoc] at hpre
    have hrun := ih (List.pairwise_append.mp hpre).1
    have hinit : (State.init : State ℚ) = (NodeState.init imu kf map).buf := rfl
    rw [hinit, ← hproj.outs, Machine.outs_snoc, List.map_append, List.map_singleton] at htiled
    rw [Machine.outs_snoc, Machine.run_snoc]
    cases e with
    | standardPcl msg => exact hrun.idle rfl fun _ => rfl
    | livoxPcl msg => exact hrun.idle rfl fun _ => rfl
    | imu msg => exact hrun.idle rfl fun _ => rfl
    | sync =>
      refine timerCallback_propagated hrun fun meas hmeas => ?_
      have hout : ((mappingNode cfg env imu kf map).out
          ((mappingNode cfg env imu kf map).run (NodeState.init imu kf map) es)
          .sync).input = .package meas := hmeas
      rw [hout] at htiled hinc
      exact htiled.packageInWindow hinc

/-- Every run of the node whose stored IMU stamps increase: each call of
`UndistortPcl` after the first propagates the filter from the end of the scan
before to the end of its own. -/
theorem undistortCalls_tile (cfg : Config ℚ μ) (env : Env ℚ S M) (imu : ImuProcess ℚ) (kf : S)
    (map : M) (es : List (Event ℚ μ))
    (hinc : StampsIncrease (arrivals
      (((mappingNode cfg env imu kf map).outs (NodeState.init imu kf map) es).map
        NodeOut.input))) :
    (undistortCalls ((mappingNode cfg env imu kf map).outs
      (NodeState.init imu kf map) es)).IsChain TilesTime :=
  (run_propagated es hinc).chain

section Gap

/-- Messages of a robot at rest, stamped in milliseconds. -/
def imuAt (ms : ℕ) : Event ℚ (List (Point ℚ)) :=
  .imu ⟨⟨ms / 1000, ms % 1000 * 1000000⟩, ⟨0, 0, 0⟩, ⟨0, 0, 1⟩⟩

def scanAt (ms : ℕ) : Event ℚ (List (Point ℚ)) :=
  .standardPcl ⟨⟨ms / 1000, ms % 1000 * 1000000⟩,
    [⟨1, 0, 0, 0⟩, ⟨2, 0, 0, 20⟩, ⟨3, 0, 0, 40⟩, ⟨4, 0, 0, 60⟩, ⟨5, 0, 0, 80⟩, ⟨6, 0, 0, 100⟩]⟩

/-- The scan that is dropped and the one that initialises the IMU. -/
def startUp : List (Event ℚ (List (Point ℚ))) :=
  [scanAt 1000, imuAt 1100, .sync, scanAt 1100, imuAt 1110, imuAt 1120, imuAt 1130, imuAt 1140,
    imuAt 1150, imuAt 1160, imuAt 1170, imuAt 1180, imuAt 1190, imuAt 1200, .sync]

/-- Two scans, then one inside a gap of the IMU, then another. -/
def imuGap : List (Event ℚ (List (Point ℚ))) :=
  [scanAt 1200, imuAt 1250, imuAt 1300, .sync, scanAt 1300, imuAt 1350, imuAt 1400, imuAt 1600,
    .sync, scanAt 1400, .sync, scanAt 1550, imuAt 1700, .sync]

/-- The outputs of the node, started unset and at rest, over these events. -/
def gapOuts : List (NodeOut ℚ) :=
  (mappingNode plainConfig stillEnv (.create ⟨1, 1, 1⟩ ⟨1, 1, 1⟩ ⟨0, 0, 0⟩ 0) () []).outs
    (.init (.create ⟨1, 1, 1⟩ ⟨1, 1, 1⟩ ⟨0, 0, 0⟩ 0) () []) (startUp ++ imuGap)

/-- `UndistortPcl` runs on three of the scans, and across the gap from 1.4 s to
1.65 s. -/
theorem gapOuts_tile : (undistortCalls gapOuts).map Undistorted.seq = [3, 4, 6] ∧
    (undistortCalls gapOuts).IsChain TilesTime :=
  ⟨by decide +kernel, undistortCalls_tile plainConfig stillEnv _ () [] (startUp ++ imuGap)
    (by unfold StampsIncrease; decide +kernel)⟩

end Gap

end LaserMapping
end RobotNav
