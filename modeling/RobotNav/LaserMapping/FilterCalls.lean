/-
What the mapping node asks of the filter, call by call.

`kf` is a global that `IMU_init`, `UndistortPcl` and `timer_callback` change, and each only
through a call on it.  The calls of a run, in order, take `kf` from where it was to where
it is; those of the initialisation come first, and their number is bounded by what arrived.
-/
import RobotNav.LaserMapping.Freshness
import RobotNav.LaserMapping.ImuInit
import RobotNav.LaserMapping.Packages
import RobotNav.Library.Calls

namespace RobotNav
namespace LaserMapping

/-- A call that changes `kf`: the two setters at the end of `IMU_init`, `predict`, and the
iterated update against a map. -/
inductive FilterCall (K M : Type) where
  | initialise (meanAcc meanGyr : V3 K)
  | predict (dt : K) (Q : NoiseCov K) (input : ImuInput K)
  | update (map : M) (down : List (Point K))

variable {K : Type} [Arith K] {S M μ : Type} (cfg : Config K μ) (env : Env K S M)

def FilterCall.apply (kf : S) : FilterCall K M → S
  | .initialise meanAcc meanGyr => env.filter.initialise kf meanAcc meanGyr
  | .predict dt Q input => env.filter.predict kf dt Q input
  | .update map down => env.update kf map down

def filterCalls (kf : S) : Machine S (FilterCall K M) Unit where
  init := kf
  step := fun kf call => (call.apply env kf, ())

/-! ## The calls of `UndistortPcl` -/

variable (f : Filter K S) (p : ImuProcess K)

/-- The input for one pair of messages. -/
def ImuProcess.pairInput (head tail : ImuMsg K) : ImuInput K where
  acc := ((average head.linearAcceleration tail.linearAcceleration).scale gravity).div
    (f.norm p.meanAcc)
  gyro := average head.angularVelocity tail.angularVelocity

/-- The arguments of a call of `predict`. -/
structure PredictArgs (K : Type) where
  dt : K
  Q : NoiseCov K
  input : ImuInput K

/-- The steps of the loop over neighbouring messages. -/
def ImuProcess.forwardSteps : List (ImuMsg K) → List (PredictArgs K)
  | head :: tail :: rest =>
    (if tail.sec < p.lastLidarEndTime then []
      else [⟨pairDt p.lastLidarEndTime head tail, p.noise, p.pairInput f head tail⟩]) ++
      ImuProcess.forwardSteps (tail :: rest)
  | _ => []

/-- What the last of the steps left in a variable that each writes. -/
def lastOf {V : Type} (read : PredictArgs K → V) (before : V) (steps : List (PredictArgs K)) : V :=
  (steps.getLast?.map read).getD before

/-- The step to the end of the frame is made with the noise and the input of the last pair. -/
def ImuProcess.undistortSteps (meas : MeasureGroup K) : List (PredictArgs K) :=
  let vImu := p.lastImu :: meas.imu
  let steps := p.forwardSteps f vImu
  steps ++ [⟨tailDt meas.lidarEndTime (vImu.getLast?.getD p.lastImu).sec,
    lastOf PredictArgs.Q p.Q steps, lastOf PredictArgs.input ImuInput.zero steps⟩]

def predictAll (kf : S) (steps : List (PredictArgs K)) : S :=
  steps.foldl (fun kf s => f.predict kf s.dt s.Q s.input) kf

omit [Arith K] in
theorem predictAll_append (kf : S) (a b : List (PredictArgs K)) :
    predictAll f kf (a ++ b) = predictAll f (predictAll f kf a) b := List.foldl_append

omit [Arith K] in
theorem lastOf_cons {V : Type} (read : PredictArgs K → V) (before : V) (s : PredictArgs K)
    (steps : List (PredictArgs K)) :
    lastOf read before (s :: steps) = lastOf read (read s) steps := by
  cases steps with
  | nil => rfl
  | cons s' rest => rw [lastOf, lastOf, List.getLast?_cons_cons, List.getLast?_cons]; rfl

theorem forward_eq (pclBegTime : K) (g : Propagation K S) (imu : List (ImuMsg K)) :
    (g.forward f p pclBegTime imu).kf = predictAll f g.kf (p.forwardSteps f imu) ∧
      (g.forward f p pclBegTime imu).Q = lastOf PredictArgs.Q g.Q (p.forwardSteps f imu) ∧
      (g.forward f p pclBegTime imu).input =
        lastOf PredictArgs.input g.input (p.forwardSteps f imu) := by
  induction imu generalizing g with
  | nil => exact ⟨rfl, rfl, rfl⟩
  | cons head rest ih =>
    cases rest with
    | nil => exact ⟨rfl, rfl, rfl⟩
    | cons tail rest =>
      rw [Propagation.forward, ImuProcess.forwardSteps]
      by_cases hskip : tail.sec < p.lastLidarEndTime
      · rw [if_pos hskip, if_pos hskip, List.nil_append]
        exact ih g
      · rw [if_neg hskip, if_neg hskip, List.singleton_append, lastOf_cons, lastOf_cons]
        exact ih (g.advance f p pclBegTime head tail)

theorem undistortPcl_kf (meas : MeasureGroup K) (kf : S) :
    (p.undistortPcl f meas kf).2.1 = predictAll f kf (p.undistortSteps f meas) := by
  obtain ⟨hkf, hQ, hinput⟩ := forward_eq f p meas.lidarBegTime (p.propagation kf)
    (p.lastImu :: meas.imu)
  rw [ImuProcess.undistortSteps, predictAll_append]
  show f.predict (Propagation.forward f p meas.lidarBegTime (p.propagation kf)
    (p.lastImu :: meas.imu)).kf _ _ _ = f.predict _ _ _ _
  rw [hkf, hQ, hinput]
  rfl

/-- Each message is the end of one step at most. -/
theorem forwardSteps_length (imu : List (ImuMsg K)) :
    (p.forwardSteps f imu).length ≤ imu.length - 1 := by
  induction imu with
  | nil => exact Nat.le_refl 0
  | cons head rest ih =>
    cases rest with
    | nil => exact Nat.le_refl 0
    | cons tail rest =>
      rw [ImuProcess.forwardSteps, List.length_append]
      have hpair : (if tail.sec < p.lastLidarEndTime then []
          else [(⟨pairDt p.lastLidarEndTime head tail, p.noise, p.pairInput f head tail⟩ :
            PredictArgs K)]).length ≤ 1 := by
        split_ifs
        · exact Nat.zero_le 1
        · exact Nat.le_refl 1
      simp only [List.length_cons, Nat.add_sub_cancel] at ih ⊢
      omega

theorem undistortSteps_length (meas : MeasureGroup K) :
    (p.undistortSteps f meas).length ≤ meas.imu.length + 1 := by
  have hpairs := forwardSteps_length f p (p.lastImu :: meas.imu)
  rw [List.length_cons, Nat.add_sub_cancel] at hpairs
  rw [ImuProcess.undistortSteps, List.length_append]
  exact Nat.succ_le_succ hpairs

/-! ## The calls of a step -/

/-- The calls of `Process`. -/
def ImuProcess.calls (meas : MeasureGroup K) : List (FilterCall K M) :=
  if meas.imu.isEmpty then []
  else if p.imuNeedInit then
    let p := meas.imu.foldl ImuProcess.initSample (p.firstFrame meas.imu)
    [.initialise p.meanAcc p.meanGyr]
  else (p.undistortSteps f meas).map fun s => .predict s.dt s.Q s.input

/-- The call of `timer_callback` after it. -/
def NodeState.mapCalls (s : NodeState K S M) : List (FilterCall K M) :=
  let cloud := s.featsUndistort
  if cloud.points.isEmpty then []
  else
    let map := env.fovSegment s.map s.kf
    let down := env.downsample cloud.points
    if env.rootIsNull map then [] else if down.length < 5 then [] else [.update map down]

/-- The node after `Process`, before the map. -/
def NodeState.processed (s : NodeState K S M) (meas : MeasureGroup K) : NodeState K S M :=
  let (imu, kf, u) := s.imu.process env.filter meas s.kf
  { s with imu := imu, kf := kf, featsUndistort := s.featsUndistort.refill u }

def NodeState.packageCalls (s : NodeState K S M) (meas : MeasureGroup K) :
    List (FilterCall K M) :=
  if s.flgFirstScan then []
  else s.imu.calls env.filter meas ++ (s.processed env meas).mapCalls env

def NodeState.calls (s : NodeState K S M) : Event K μ → List (FilterCall K M)
  | .sync =>
    match syncPackages s.buf with
    | (buf, true) => NodeState.packageCalls env { s with buf := buf } buf.measures
    | (_, false) => []
  | _ => []

-- the state a machine starts with plays no part in its runs
variable (start : S)

theorem process_kf (meas : MeasureGroup K) (kf : S) :
    (p.process env.filter meas kf).2.1 =
      (filterCalls env start).run kf (p.calls env.filter meas) := by
  rw [ImuProcess.process, ImuProcess.calls]
  split_ifs
  · rfl
  · rfl
  · have hpredicts : ∀ (steps : List (PredictArgs K)) (kf' : S),
        (filterCalls env start).run kf' (steps.map fun s => .predict s.dt s.Q s.input) =
          predictAll env.filter kf' steps := by
      intro steps
      induction steps with
      | nil => exact fun _ => rfl
      | cons s rest ih => exact fun kf' => ih _
    rw [hpredicts]
    exact undistortPcl_kf env.filter p meas kf

theorem mapScan_kf (s : NodeState K S M) (begTime : K) :
    (s.mapScan env begTime).1.kf = (filterCalls env start).run s.kf (s.mapCalls env) := by
  simp only [NodeState.mapScan, NodeState.mapCalls]
  split_ifs <;> rfl

theorem usePackage_eq {s : NodeState K S M} (h : s.flgFirstScan = false) (meas : MeasureGroup K) :
    (s.usePackage env meas).1 =
      ((s.processed env meas).mapScan env meas.lidarBegTime).1 := by
  rw [NodeState.usePackage, if_neg (by simp [h])]
  rfl

theorem usePackage_kf (s : NodeState K S M) (meas : MeasureGroup K) :
    (s.usePackage env meas).1.kf =
      (filterCalls env start).run s.kf (s.packageCalls env meas) := by
  cases hfirst : s.flgFirstScan with
  | true =>
    rw [NodeState.usePackage, NodeState.packageCalls, if_pos hfirst, if_pos hfirst]
    rfl
  | false =>
    rw [usePackage_eq env hfirst, mapScan_kf env start, NodeState.packageCalls,
      if_neg (by simp [hfirst]), Machine.run_append, ← process_kf]
    rfl

/-- A step of the node is, for the filter, the calls it makes. -/
theorem mappingNode_drives (imu : ImuProcess K) (kf : S) (map : M) :
    Machine.Drives (mappingNode cfg env imu kf map) (filterCalls env kf) NodeState.kf
      (NodeState.calls env) := by
  constructor
  intro s e
  cases e with
  | standardPcl msg => rfl
  | livoxPcl msg => rfl
  | imu msg => rfl
  | sync =>
    show (timerCallback env s).1.kf = _
    rw [timerCallback, NodeState.calls]
    rcases syncPackages s.buf with ⟨buf, _ | _⟩
    · rfl
    · exact usePackage_kf env kf { s with buf := buf } buf.measures

/-- The calls of a run. -/
def runCalls (imu : ImuProcess K) (kf : S) (map : M) (es : List (Event K μ)) :
    List (FilterCall K M) :=
  (mappingNode cfg env imu kf map).gathered (NodeState.calls env) (NodeState.init imu kf map) es

/-! ## The initialisation comes first -/

def FilterCall.IsInitialise : FilterCall K M → Prop
  | .initialise _ _ => True
  | _ => False

variable {cfg env} {s : NodeState K S M} {meas : MeasureGroup K}

theorem calls_initialise (hneed : s.imu.imuNeedInit = true) :
    ∀ c ∈ (s.imu.calls env.filter meas : List (FilterCall K M)), c.IsInitialise := by
  rw [ImuProcess.calls]
  split_ifs
  · exact fun c hc => absurd hc List.not_mem_nil
  · exact List.forall_mem_singleton.mpr trivial

theorem calls_predict (hdone : s.imu.imuNeedInit = false) :
    ∀ c ∈ (s.imu.calls env.filter meas : List (FilterCall K M)), ¬ c.IsInitialise := by
  rw [ImuProcess.calls, if_neg (by simp [hdone] : ¬ s.imu.imuNeedInit = true)]
  split_ifs
  · exact fun c hc => absurd hc List.not_mem_nil
  · intro c hc
    obtain ⟨step, -, rfl⟩ := List.mem_map.mp hc
    exact id

omit [Arith K] in
theorem mapCalls_cases (env : Env K S M) (s : NodeState K S M) :
    s.mapCalls env = [] ∨ s.featsUndistort.points ≠ [] ∧
      ∃ map down, s.mapCalls env = [.update map down] := by
  rw [NodeState.mapCalls]
  dsimp only
  split_ifs with hempty
  · exact .inl rfl
  · exact .inl rfl
  · exact .inl rfl
  · exact .inr ⟨by simpa using hempty, _, _, rfl⟩

omit [Arith K] in
theorem mapCalls_update (env : Env K S M) (s : NodeState K S M) :
    ∀ c ∈ s.mapCalls env, ¬ c.IsInitialise := by
  rcases mapCalls_cases env s with hnone | ⟨-, map, down, hone⟩
  · rw [hnone]
    exact fun c hc => absurd hc List.not_mem_nil
  · rw [hone]
    exact List.forall_mem_singleton.mpr id

/-- Until the IMU is initialised there is no cloud to update the filter with. -/
theorem mapCalls_processed (h : EmptyBeforeInit s) (hneed : s.imu.imuNeedInit = true) :
    (s.processed env meas).mapCalls env = [] := by
  rcases mapCalls_cases env (s.processed env meas) with hnone | ⟨hpoints, -⟩
  · exact hnone
  · refine absurd ?_ hpoints
    show (s.featsUndistort.refill (s.imu.process env.filter meas s.kf).2.2).points = []
    rcases process_cases env.filter s.imu meas s.kf with
      ⟨-, hproc⟩ | ⟨-, -, hproc⟩ | ⟨-, hdone, -⟩
    · rw [hproc]
      exact h hneed
    · rw [hproc]
      exact h hneed
    · rw [hneed] at hdone
      cases hdone

/-- The calls of a step of the timer are those of the package `sync_packages` delivered. -/
theorem calls_sync (env : Env K S M) (s : NodeState K S M) :
    (s.calls env (.sync : Event K μ) = [] ∧ (timerCallback env s).1.imu = s.imu) ∨
    ∃ buf, (syncPackages s.buf) = (buf, true) ∧
      s.calls env (.sync : Event K μ) = { s with buf := buf }.packageCalls env buf.measures ∧
        timerCallback env s = { s with buf := buf }.usePackage env buf.measures := by
  rw [NodeState.calls, timerCallback]
  rcases hsync : syncPackages s.buf with ⟨buf, _ | _⟩
  · exact .inl ⟨rfl, rfl⟩
  · exact .inr ⟨buf, rfl, rfl, rfl⟩

theorem packageCalls_cases (env : Env K S M) (s : NodeState K S M) (meas : MeasureGroup K) :
    (s.packageCalls env meas = [] ∧ (s.usePackage env meas).1.imu = s.imu) ∨
    (s.packageCalls env meas = s.imu.calls env.filter meas ++ (s.processed env meas).mapCalls env ∧
      (s.usePackage env meas).1.imu = (s.imu.process env.filter meas s.kf).1) := by
  rw [NodeState.packageCalls]
  cases hfirst : s.flgFirstScan with
  | true =>
    left
    rw [NodeState.usePackage, if_pos hfirst]
    exact ⟨rfl, rfl⟩
  | false =>
    right
    rw [usePackage_eq env hfirst, mapScan_imu]
    exact ⟨rfl, rfl⟩

theorem packageCalls_starting (h : EmptyBeforeInit s) (hneed : s.imu.imuNeedInit = true) :
    (∀ c ∈ s.packageCalls env meas, c.IsInitialise) ∧
      (¬ (s.usePackage env meas).1.imu.imuNeedInit = true → s.packageCalls env meas ≠ []) := by
  rcases packageCalls_cases env s meas with ⟨hnone, himu⟩ | ⟨hcalls, himu⟩
  · rw [hnone, himu]
    exact ⟨fun c hc => absurd hc List.not_mem_nil, fun hnot => absurd hneed hnot⟩
  · rw [hcalls, himu, mapCalls_processed h hneed, List.append_nil]
    refine ⟨calls_initialise hneed, fun hended => ?_⟩
    rw [ImuProcess.process] at hended
    rw [ImuProcess.calls]
    split_ifs with hempty
    · rw [if_pos hempty] at hended
      exact absurd hneed hended
    · exact List.cons_ne_nil _ _

theorem packageCalls_late (hdone : s.imu.imuNeedInit = false) :
    (∀ c ∈ s.packageCalls env meas, ¬ c.IsInitialise) ∧
      (s.usePackage env meas).1.imu.imuNeedInit = false := by
  rcases packageCalls_cases env s meas with ⟨hnone, himu⟩ | ⟨hcalls, himu⟩
  · rw [hnone, himu]
    exact ⟨fun c hc => absurd hc List.not_mem_nil, hdone⟩
  · rw [hcalls, himu]
    exact ⟨List.forall_mem_append.mpr ⟨calls_predict hdone, mapCalls_update _ _⟩,
      process_done env.filter hdone meas s.kf⟩

/-- The node starts up with calls of `IMU_init`, and makes no other until it is done. -/
theorem mappingNode_startsUp (cfg : Config K μ) (env : Env K S M) (imu : ImuProcess K) (kf : S)
    (map : M) :
    Machine.StartsUp (mappingNode cfg env imu kf map) (NodeState.calls env) EmptyBeforeInit
      (fun s => s.imu.imuNeedInit = true) FilterCall.IsInitialise := by
  have hquiet : ∀ (s : NodeState K S M) (P : FilterCall K M → Prop), ∀ c ∈ ([] : List _), P c :=
    fun _ _ c hc => absurd hc List.not_mem_nil
  refine ⟨fun s e h => nodeStep_emptyBeforeInit cfg h e, ?_, ?_, ?_, ?_⟩
  · intro s e h hneed
    cases e with
    | standardPcl msg => exact hquiet s _
    | livoxPcl msg => exact hquiet s _
    | imu msg => exact hquiet s _
    | sync =>
      rcases calls_sync (μ := μ) env s with ⟨hnone, -⟩ | ⟨buf, -, hcalls, -⟩
      · rw [hnone]
        exact hquiet s _
      · rw [hcalls]
        exact (packageCalls_starting (s := { s with buf := buf }) h hneed).1
  · intro s e _ hdone
    rw [Bool.not_eq_true] at hdone
    cases e with
    | standardPcl msg => exact hquiet s _
    | livoxPcl msg => exact hquiet s _
    | imu msg => exact hquiet s _
    | sync =>
      rcases calls_sync (μ := μ) env s with ⟨hnone, -⟩ | ⟨buf, -, hcalls, -⟩
      · rw [hnone]
        exact hquiet s _
      · rw [hcalls]
        exact (packageCalls_late (s := { s with buf := buf }) hdone).1
  · intro s e h hneed hended
    cases e with
    | standardPcl msg => exact absurd hneed hended
    | livoxPcl msg => exact absurd hneed hended
    | imu msg => exact absurd hneed hended
    | sync =>
      rcases calls_sync (μ := μ) env s with ⟨-, hsame⟩ | ⟨buf, -, hcalls, htimer⟩
      · have hstill : ¬ (timerCallback env s).1.imu.imuNeedInit = true := hended
        rw [hsame] at hstill
        exact absurd hneed hstill
      · rw [hcalls]
        refine (packageCalls_starting (s := { s with buf := buf }) h hneed).2 ?_
        rw [← htimer]
        exact hended
  · intro s e _ hdone
    rw [Bool.not_eq_true] at hdone ⊢
    cases e with
    | standardPcl msg => exact hdone
    | livoxPcl msg => exact hdone
    | imu msg => exact hdone
    | sync =>
      show (timerCallback env s).1.imu.imuNeedInit = false
      rcases calls_sync (μ := μ) env s with ⟨-, hsame⟩ | ⟨buf, -, -, htimer⟩
      · rw [hsame]
        exact hdone
      · rw [htimer]
        exact (packageCalls_late (s := { s with buf := buf }) hdone).2

/-! ## What the initialisation is given -/

/-- The messages of a package are taken off the front of the buffer. -/
theorem syncPackages_imu {s buf : State K} (h : syncPackages s = (buf, true)) :
    buf.measures.imu ++ buf.imuBuffer = s.imuBuffer := by
  rcases syncPackages_cases s with hs | ⟨hs, -⟩ | ⟨hs, -, hne, -⟩
  · rw [hs] at h
    cases h
  · rw [hs] at h
    cases h
  · rw [hs, Prod.mk.injEq] at h
    obtain ⟨front, rest, hfront⟩ := List.exists_cons_of_ne_nil hne
    obtain ⟨-, -, -, htaken, hleft⟩ :=
      popPackage_fields (s := s.latched) (by rw [latched_imuBuffer, hfront])
    rw [← h.1, htaken, hleft, drainImu_append, latched_imuBuffer]

theorem syncPackages_waits {s buf : State K} (h : syncPackages s = (buf, false)) :
    buf.imuBuffer = s.imuBuffer := by
  rcases syncPackages_cases s with hs | ⟨hs, -⟩ | ⟨hs, -⟩
  · rw [hs, Prod.mk.injEq] at h
    rw [h.1]
  · rw [hs, Prod.mk.injEq] at h
    rw [← h.1, latched_imuBuffer]
  · rw [hs] at h
    cases h

theorem imuCbk_imuBuffer_cases (cfg : Config K μ) (s : State K) (msg : ImuMsg K) :
    ∃ kept, (kept = [] ∨ kept = s.imuBuffer) ∧
      (imuCbk cfg s msg).imuBuffer = kept ++ [s.imuMsg cfg msg] := by
  rw [imuCbk]
  dsimp only
  split_ifs
  · exact ⟨[], .inl rfl, rfl⟩
  · exact ⟨s.imuBuffer, .inr rfl, rfl⟩

theorem usePackage_imuBuffer (s : NodeState K S M) (meas : MeasureGroup K) :
    (s.usePackage env meas).1.buf.imuBuffer = s.buf.imuBuffer :=
  congrArg State.imuBuffer (usePackage_buf s meas).1

/-- What holds of the messages held back, and of the mean over the earlier ones. -/
structure Sampling (Q : V3 K → Prop) (s : NodeState K S M) : Prop where
  held : ∀ m ∈ s.buf.imuBuffer, Q m.linearAcceleration
  counting : 1 ≤ s.imu.initIterNum
  mean : s.imu.bFirstFrame = true ∨ Q s.imu.meanAcc

/-- A condition the running mean keeps. -/
def KeptByMean (Q : V3 K → Prop) : Prop :=
  ∀ (n : ℤ) (mean cur : V3 K), 1 ≤ n → Q mean → Q cur →
    Q (mean.add ((cur.sub mean).div (lit n)))

/-- The condition on an event: that of its message. -/
def Event.Measures (Q : V3 K → Prop) : Event K μ → Prop
  | .imu msg => Q msg.linearAcceleration
  | _ => True

theorem initSamples_mean {Q : V3 K → Prop} (hQ : KeptByMean Q) {imu : List (ImuMsg K)}
    (himu : ∀ m ∈ imu, Q m.linearAcceleration) {p : ImuProcess K} (hcount : 1 ≤ p.initIterNum)
    (hmean : Q p.meanAcc) :
    Q (imu.foldl ImuProcess.initSample p).meanAcc ∧
      1 ≤ (imu.foldl ImuProcess.initSample p).initIterNum := by
  induction imu generalizing p with
  | nil => exact ⟨hmean, hcount⟩
  | cons m rest ih =>
    rw [List.forall_mem_cons] at himu
    have hnext : 1 ≤ (p.initSample m).initIterNum := by
      show 1 ≤ p.initIterNum + 1
      omega
    exact ih himu.2 hnext (hQ _ _ _ hcount hmean himu.1)

theorem firstFrame_mean {Q : V3 K → Prop} {p : ImuProcess K} (hcount : 1 ≤ p.initIterNum)
    (hmean : p.bFirstFrame = true ∨ Q p.meanAcc) {imu : List (ImuMsg K)} (hne : imu ≠ [])
    (himu : ∀ m ∈ imu, Q m.linearAcceleration) :
    1 ≤ (p.firstFrame imu).initIterNum ∧ Q (p.firstFrame imu).meanAcc := by
  obtain ⟨front, rest, rfl⟩ := List.exists_cons_of_ne_nil hne
  rw [ImuProcess.firstFrame]
  split_ifs with hfirst
  · exact ⟨le_refl 1, himu front List.mem_cons_self⟩
  · exact ⟨hcount, hmean.resolve_left hfirst⟩

omit [Arith K] in
theorem finishInit_initIterNum (p : ImuProcess K) : p.finishInit.initIterNum = p.initIterNum := by
  rw [ImuProcess.finishInit]
  split_ifs <;> rfl

theorem calls_mean {Q : V3 K → Prop} (hQ : KeptByMean Q) (f : Filter K S) {p : ImuProcess K}
    (hcount : 1 ≤ p.initIterNum) (hmean : p.bFirstFrame = true ∨ Q p.meanAcc)
    {meas : MeasureGroup K} (himu : ∀ m ∈ meas.imu, Q m.linearAcceleration) (kf : S) :
    (∀ meanAcc meanGyr, .initialise meanAcc meanGyr ∈ (p.calls f meas : List (FilterCall K M)) →
        Q meanAcc) ∧
      1 ≤ (p.process f meas kf).1.initIterNum ∧
      ((p.process f meas kf).1.bFirstFrame = true ∨ Q (p.process f meas kf).1.meanAcc) := by
  rw [ImuProcess.calls, ImuProcess.process]
  split_ifs with hempty hneed
  · exact ⟨fun a g hmem => absurd hmem List.not_mem_nil, hcount, hmean⟩
  · obtain ⟨hone, hfirst⟩ := firstFrame_mean hcount hmean (by simpa using hempty) himu
    obtain ⟨hafter, hnum⟩ := initSamples_mean hQ himu hone hfirst
    refine ⟨fun a g hmem => ?_, ?_, .inr ?_⟩
    · rw [List.mem_singleton, FilterCall.initialise.injEq] at hmem
      rw [hmem.1]
      exact hafter
    · rw [finishInit_initIterNum]
      exact hnum
    · rw [(finishInit_means _).1]
      exact hafter
  · refine ⟨fun a g hmem => ?_, hcount, hmean⟩
    obtain ⟨step, -, hstep⟩ := List.mem_map.mp hmem
    cases hstep

theorem usePackage_sampling {Q : V3 K → Prop} (hQ : KeptByMean Q) (h : Sampling Q s)
    {buf : State K} (hsync : syncPackages s.buf = (buf, true)) :
    Sampling Q ({ s with buf := buf }.usePackage env buf.measures).1 ∧
      ∀ meanAcc meanGyr, .initialise meanAcc meanGyr ∈
        NodeState.packageCalls env { s with buf := buf } buf.measures → Q meanAcc := by
  have hheld := h.held
  rw [← syncPackages_imu hsync, List.forall_mem_append] at hheld
  obtain ⟨hcalls, hcount, hmean⟩ := calls_mean (M := M) hQ env.filter h.counting h.mean hheld.1 s.kf
  rcases packageCalls_cases env { s with buf := buf } buf.measures with ⟨hnone, himu⟩ | ⟨hall, himu⟩
  · rw [hnone]
    refine ⟨⟨?_, ?_, ?_⟩, fun a g hmem => absurd hmem List.not_mem_nil⟩
    · rw [usePackage_imuBuffer]
      exact hheld.2
    · rw [himu]
      exact h.counting
    · rw [himu]
      exact h.mean
  · rw [hall]
    refine ⟨⟨?_, ?_, ?_⟩, fun a g hmem => ?_⟩
    · rw [usePackage_imuBuffer]
      exact hheld.2
    · rw [himu]
      exact hcount
    · rw [himu]
      exact hmean
    · rcases List.mem_append.mp hmem with hfirst | hlater
      · exact hcalls a g hfirst
      · exact absurd trivial (mapCalls_update _ _ _ hlater)

theorem nodeStep_sampling (cfg : Config K μ) {Q : V3 K → Prop} (hQ : KeptByMean Q)
    (h : Sampling Q s) {e : Event K μ} (he : e.Measures Q) :
    Sampling Q (nodeStep cfg env s e).1 := by
  cases e with
  | standardPcl msg => exact ⟨h.held, h.counting, h.mean⟩
  | livoxPcl msg => exact ⟨h.held, h.counting, h.mean⟩
  | imu msg =>
    obtain ⟨kept, hkept, hbuffer⟩ := imuCbk_imuBuffer_cases cfg s.buf msg
    have hheld : ∀ m ∈ kept, Q m.linearAcceleration := by
      rcases hkept with rfl | rfl
      · exact fun m hm => absurd hm List.not_mem_nil
      · exact h.held
    refine ⟨?_, h.counting, h.mean⟩
    show ∀ m ∈ (imuCbk cfg s.buf msg).imuBuffer, Q m.linearAcceleration
    rw [hbuffer]
    exact List.forall_mem_append.mpr ⟨hheld, List.forall_mem_singleton.mpr he⟩
  | sync =>
    show Sampling Q (timerCallback env s).1
    rw [timerCallback]
    rcases hsync : syncPackages s.buf with ⟨buf, _ | _⟩
    · refine ⟨?_, h.counting, h.mean⟩
      show ∀ m ∈ buf.imuBuffer, Q m.linearAcceleration
      rw [syncPackages_waits hsync]
      exact h.held
    · exact (usePackage_sampling hQ h hsync).1

theorem init_sampling {imu : ImuProcess K} (hfirst : imu.bFirstFrame = true)
    (hcount : imu.initIterNum = 1) (kf : S) (map : M) (Q : V3 K → Prop) :
    Sampling Q (NodeState.init imu kf map) :=
  ⟨fun _ hm => absurd hm List.not_mem_nil, le_of_eq hcount.symm, .inl hfirst⟩

/-- What the running mean keeps and every message measures holds of what the filter is
initialised with. -/
theorem runCalls_mean (cfg : Config K μ) (env : Env K S M) {imu : ImuProcess K}
    (hfirst : imu.bFirstFrame = true) (hcount : imu.initIterNum = 1) (kf : S) (map : M)
    {Q : V3 K → Prop} (hQ : KeptByMean Q) {es : List (Event K μ)} (hes : ∀ e ∈ es, e.Measures Q)
    (meanAcc meanGyr : V3 K)
    (hmem : .initialise meanAcc meanGyr ∈ runCalls cfg env imu kf map es) : Q meanAcc := by
  have hnext : ∀ (s : NodeState K S M) (e : Event K μ), Sampling Q s → e.Measures Q →
      Sampling Q ((mappingNode cfg env imu kf map).next s e) :=
    fun s e hs he => nodeStep_sampling cfg hQ hs he
  have hall : ∀ c ∈ runCalls cfg env imu kf map es, ∀ a g, c = .initialise a g → Q a := by
    refine Machine.gathered_forall hnext (fun s e hs c hc => ?_)
      (init_sampling hfirst hcount kf map Q) hes
    rintro a g rfl
    cases e with
    | standardPcl msg => exact absurd hc List.not_mem_nil
    | livoxPcl msg => exact absurd hc List.not_mem_nil
    | imu msg => exact absurd hc List.not_mem_nil
    | sync =>
      rw [NodeState.calls] at hc
      rcases hsync : syncPackages s.buf with ⟨buf, _ | _⟩
      · rw [hsync] at hc
        exact absurd hc List.not_mem_nil
      · rw [hsync] at hc
        exact (usePackage_sampling hQ hs hsync).2 a g hc
  exact hall _ hmem meanAcc meanGyr rfl

/-! ## How many there are -/

/-- The weight of a call, for an update that counts `W` times. -/
def FilterCall.weight (W : ℕ) : FilterCall K M → ℕ
  | .initialise _ _ => 0
  | .predict _ _ _ => 1
  | .update _ _ => W

/-- What an event brings: a message to predict to, or a package. -/
def Event.brings (W : ℕ) : Event K μ → ℕ
  | .imu _ => 1
  | .sync => W + 1
  | _ => 0

def weights (W : ℕ) (calls : List (FilterCall K M)) : ℕ := (calls.map (FilterCall.weight W)).sum

omit [Arith K] in
theorem weights_append (W : ℕ) (a b : List (FilterCall K M)) :
    weights W (a ++ b) = weights W a + weights W b := by
  rw [weights, List.map_append, List.sum_append]
  rfl

theorem weights_calls (W : ℕ) (p : ImuProcess K) (f : Filter K S) (meas : MeasureGroup K) :
    weights W (p.calls f meas : List (FilterCall K M)) ≤ meas.imu.length + 1 := by
  rw [ImuProcess.calls]
  split_ifs
  · exact Nat.zero_le _
  · exact Nat.zero_le _
  · refine le_trans (le_of_eq ?_) (undistortSteps_length f p meas)
    rw [weights, List.map_map]
    show ((p.undistortSteps f meas).map fun _ => 1).sum = _
    rw [List.map_const', List.sum_replicate_nat, Nat.mul_one]

omit [Arith K] in
theorem weights_mapCalls (W : ℕ) (env : Env K S M) (s : NodeState K S M) :
    weights W (s.mapCalls env) ≤ W := by
  rcases mapCalls_cases env s with hnone | ⟨-, map, down, hone⟩
  · rw [hnone]
    exact Nat.zero_le W
  · rw [hone]
    exact Nat.le_refl W

theorem weights_packageCalls (W : ℕ) (env : Env K S M) (s : NodeState K S M)
    (meas : MeasureGroup K) : weights W (s.packageCalls env meas) ≤ meas.imu.length + 1 + W := by
  rcases packageCalls_cases env s meas with ⟨hnone, -⟩ | ⟨hcalls, -⟩
  · rw [hnone]
    exact Nat.zero_le _
  · rw [hcalls, weights_append]
    exact Nat.add_le_add (weights_calls W s.imu env.filter meas) (weights_mapCalls W env _)

/-- The messages in the buffer pay for the predictions to come. -/
theorem weights_step (W : ℕ) (cfg : Config K μ) (env : Env K S M) (s : NodeState K S M)
    (e : Event K μ) :
    weights W (s.calls env e) + (nodeStep cfg env s e).1.buf.imuBuffer.length ≤
      s.buf.imuBuffer.length + e.brings W := by
  cases e with
  | standardPcl msg => exact le_of_eq (Nat.zero_add _)
  | livoxPcl msg => exact le_of_eq (Nat.zero_add _)
  | imu msg =>
    obtain ⟨kept, hkept, hbuffer⟩ := imuCbk_imuBuffer_cases cfg s.buf msg
    show 0 + (imuCbk cfg s.buf msg).imuBuffer.length ≤ s.buf.imuBuffer.length + 1
    rw [hbuffer, List.length_append, Nat.zero_add]
    refine Nat.add_le_add_right ?_ 1
    rcases hkept with rfl | rfl
    · exact Nat.zero_le _
    · exact Nat.le_refl _
  | sync =>
    show _ + (timerCallback env s).1.buf.imuBuffer.length ≤ s.buf.imuBuffer.length + (W + 1)
    rw [NodeState.calls, timerCallback]
    rcases hsync : syncPackages s.buf with ⟨buf, _ | _⟩
    · show 0 + buf.imuBuffer.length ≤ _
      rw [syncPackages_waits hsync, Nat.zero_add]
      exact Nat.le_add_right _ _
    · have htaken := congrArg List.length (syncPackages_imu hsync)
      have hcalls := weights_packageCalls W env { s with buf := buf } buf.measures
      rw [List.length_append] at htaken
      show weights W (NodeState.packageCalls env { s with buf := buf } buf.measures) +
        (NodeState.usePackage env { s with buf := buf } buf.measures).1.buf.imuBuffer.length ≤ _
      rw [usePackage_imuBuffer]
      show _ + buf.imuBuffer.length ≤ _
      omega

/-- A run makes no more predictions than messages and packages came in, and no more updates
than packages. -/
theorem weights_runCalls (W : ℕ) (cfg : Config K μ) (env : Env K S M) (imu : ImuProcess K) (kf : S)
    (map : M) (es : List (Event K μ)) :
    weights W (runCalls cfg env imu kf map es) ≤ (es.map (Event.brings W)).sum := by
  have hpaid := Machine.sum_gathered_le (m := mappingNode cfg env imu kf map)
    (fun s => s.buf.imuBuffer.length) (fun s e => weights_step W cfg env s e)
    (NodeState.init imu kf map) es
  exact le_trans (Nat.le_add_right _ _) (le_trans hpaid (le_of_eq (Nat.zero_add _)))

end LaserMapping
end RobotNav
